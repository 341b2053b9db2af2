import KernelCore.Proofs.Scheduler.Runs

/-!
# Every thread is in its queue

In every state of a run in which the idle thread neither waits nor is made ready by name, exactly
the current thread runs, every other thread that can go on is in the ready queue, and every thread
that waits is in the one queue it waits in. So no wake-up is lost, and the scheduler's own checks
and lookups never fail.
-/
namespace KernelCore.Scheduler

open Transition

/-- Where threads are and where they say they are. The threads of `parked` have blocked without
entering a queue. -/
structure QueuesAgree (s : Scheduler) (parked : Set Tid) : Prop where
  /-- Exactly one thread runs, the current one. -/
  running : ∀ t th, s.thread? t = some th → (th.state = .running ↔ t = s.current)
  current : ∃ th, s.thread? s.current = some th
  /-- A thread is in no other queue than the one it says it is in, and there but once. -/
  queues : ∀ t th, s.thread? t = some th →
    s.queuesOf t = if th.membership = .none then [] else [th.membership]
  nodup : ∀ m, (s.queue m).Nodup
  ready : ∀ t th, s.thread? t = some th → (th.state = .ready ↔ t ∈ s.ready.tids)
  /-- Queues and locks name threads that exist and have not exited. -/
  queued : ∀ m, ∀ t ∈ s.queue m, ∃ th, s.thread? t = some th ∧ th.state ≠ .dying
  holders : ∀ l t, s.holder l = some t → ∃ th, s.thread? t = some th ∧ th.state ≠ .dying
  /-- Whoever waits is in exactly one queue to be woken from. -/
  waits : ∀ t th, s.thread? t = some th → th.state = .blocked → t ≠ s.idle → t ∉ parked →
    ∃ m, m ≠ .ready ∧ s.queuesOf t = [m]

theorem QueuesAgree.of_orderly {R : Prop} {P : Set Tid} {s : Scheduler}
    (h : Orderly R P s.layout) : s.QueuesAgree P where
  running t th known := by
    obtain ⟨p, current, running, -⟩ := h.current
    constructor
    · exact (h.proper t th.place (place_of_thread known)).running
    · rintro rfl
      obtain rfl := Option.some.inj (current.symm.trans (place_of_thread known))
      exact running
  current := by
    obtain ⟨p, known, -⟩ := h.current
    obtain ⟨th, known, -⟩ := exists_thread (t := s.current) known
    exact ⟨th, known⟩
  queues t th known := queuesOf_eq h.toArranged known
  nodup m := h.nodup m
  ready t th known := by
    have place := place_of_thread known
    exact (h.proper t th.place place).ready.trans (h.mem_queue place (by simp)).symm
  queued m t mem := by
    have m_ne : m ≠ .none := by
      rintro rfl
      exact absurd mem List.not_mem_nil
    obtain ⟨p, place, there⟩ := h.exists_of_mem_queue m_ne mem
    obtain ⟨th, known, rfl⟩ := exists_thread place
    refine ⟨th, known, fun dying => m_ne ?_⟩
    rw [← there, ((h.proper t th.place place).dying dying).1]
  holders l t holds := by
    obtain ⟨p, place, held⟩ := (h.holds l t).mp holds
    obtain ⟨th, known, rfl⟩ := exists_thread place
    refine ⟨th, known, fun dying => ?_⟩
    rw [((h.proper t th.place place).dying dying).2] at held
    cases held
  waits t th known blocked busy unparked := by
    have place := place_of_thread known
    have waiting : th.membership ≠ .none := by
      intro free
      exact unparked ((h.parked t).mpr ⟨busy, th.place, place, blocked, free⟩)
    refine ⟨th.membership, ?_, by rw [queuesOf_eq h.toArranged known, if_neg waiting]⟩
    intro ready
    have := (h.proper t th.place place).ready.mpr ready
    simp [show th.state = .ready from this] at blocked

namespace Run

variable {feedback : Bool} {capacity : Nat} {allows : Scheduler → Event → Scheduler → Prop}
  {P : Set Tid} {s : Scheduler}

/-- Queues and control blocks agree in every state of a run, the consistency check passes, and an
event stops for no other reasons than those its callers promise to avoid. -/
theorem queuesAgree (busy : IdleNeverWaits allows) (rests : IdleNeverWoken allows)
    (run : Run feedback capacity allows P s) :
    s.QueuesAgree P ∧ s.check = .ok () ∧
      ∀ e : Event, e.Possible s → (e.Waits s → s.current ≠ s.idle) → ¬e.Unblocks s.idle →
        ∀ v, (e.happen s).result = .error v → e.Asserts v := by
  have rests : ∀ s e s', allows s e s' → e.Unblocks s.idle → ¬True :=
    fun s e s' allowed wakes => absurd wakes (rests s e s' allowed)
  have sound := run.sound busy rests
  refine ⟨.of_orderly sound.orderly, ?_, ?_⟩
  · exact (check_eq sound.orderly).trans (if_neg (sound.orderly.resting trivial))
  · intro e possible busy rests v stops
    have asserted := (sound.happen_ends possible busy fun wakes => absurd wakes rests).of_error stops
    exact asserted.resolve_right fun unrested => unrested.1 trivial

/-- The waiting thread is in the queue of the lock, and the first thread runs. -/
theorem queuesAgree_contended :
    contended.current = 1 ∧ contended.queuesOf 3 = [.lock ⟨0⟩] ∧ contended.QueuesAgree ∅ :=
  ⟨rfl, rfl, (queuesAgree careful_idleNeverWaits careful_idleNeverWoken careful_run).1⟩

end Run

end KernelCore.Scheduler
