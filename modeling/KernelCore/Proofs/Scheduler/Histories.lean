import KernelCore.Proofs.Scheduler.Runs

/-!
# Histories

Some properties of a state are about what has happened before: how often a semaphore went up, or
when a thread exited. A history lists the events of a run together with the states they happened
in, the latest one first.
-/
namespace KernelCore.Scheduler

open Transition

structure Occurrence where
  before : Scheduler
  event : Event

def Occurrence.after (o : Occurrence) : Scheduler := (o.event.happen o.before).state

/-- The histories that lead to a state by allowed events. -/
inductive History (feedback : Bool) (capacity : Nat)
    (allows : Scheduler → Event → Scheduler → Prop) : List Occurrence → Scheduler → Prop
  | start : History feedback capacity allows [] (start feedback capacity)
  | next {past : List Occurrence} {s : Scheduler} {e : Event}
      (history : History feedback capacity allows past s) (possible : e.Possible s)
      (succeeds : (e.happen s).result = .ok ()) (allowed : allows s e (e.happen s).state) :
      History feedback capacity allows (⟨s, e⟩ :: past) (e.happen s).state

variable {feedback : Bool} {capacity : Nat} {allows : Scheduler → Event → Scheduler → Prop}
  {s : Scheduler}

theorem History.run {past : List Occurrence} (history : History feedback capacity allows past s) :
    ∃ P, Run feedback capacity allows P s := by
  induction history with
  | start => exact ⟨∅, .start⟩
  | next _ possible succeeds allowed ih =>
    obtain ⟨P, run⟩ := ih
    exact ⟨_, run.next possible succeeds allowed⟩

/-- Every state of a run has a history. -/
theorem Run.history {P : Set Tid} (run : Run feedback capacity allows P s) :
    ∃ past, History feedback capacity allows past s := by
  induction run with
  | start => exact ⟨[], .start⟩
  | next _ possible succeeds allowed ih =>
    obtain ⟨past, history⟩ := ih
    exact ⟨_, history.next possible succeeds allowed⟩

end KernelCore.Scheduler
