import KernelCore.Proofs.Scheduler.Runs
import KernelCore.Proofs.Scheduler.Sleeping

/-!
# Waking on time

A run is looked at one timer interrupt at a time, with the calls to sleep that were made on the
way. Whoever has called to sleep until a later tick stays blocked until the timer interrupt that
counts that tick makes it ready, behind those that went to sleep before it.
-/
namespace KernelCore.Scheduler

open Transition

/-- The current thread goes to sleep if it asks to be woken at a later tick. -/
def Event.sleeper (s : Scheduler) : Event → List Sleeper
  | .request (.sleepUntil wakeTick) => if s.ticks < wakeTick then [⟨wakeTick, s.current⟩] else []
  | .request (.sleep ticks) => if 0 < ticks then [⟨s.ticks + ticks.toNat, s.current⟩] else []
  | _ => []

/-- The states of a run between its events and between its timer interrupts, each with the calls to
sleep that led there, the earliest first. -/
inductive SleepRun (feedback : Bool) (capacity : Nat) : List Sleeper → Scheduler → Prop
  | start : SleepRun feedback capacity [] (start feedback capacity)
  | tick {slept : List Sleeper} {s : Scheduler} (run : SleepRun feedback capacity slept s)
      (succeeds : (timerInterrupt s).result = .ok ()) :
      SleepRun feedback capacity slept (timerInterrupt s).state
  | next {slept : List Sleeper} {s : Scheduler} {e : Event} (run : SleepRun feedback capacity slept s)
      (possible : e.Possible s) (other : ∀ count, e ≠ .request (.tick count))
      (succeeds : (e.happen s).result = .ok ()) :
      SleepRun feedback capacity (slept ++ e.sleeper s) (e.happen s).state

/-- Nobody whose tick has come sleeps, and whoever has called to sleep until a later tick is
blocked. -/
structure OnTime (slept : List Sleeper) (s : Scheduler) : Prop where
  later : ∀ x ∈ s.sleepers.sleepers, s.ticks < x.wakeTick
  asleep : ∀ x ∈ slept, s.ticks < x.wakeTick →
    x ∈ s.sleepers.sleepers ∧ ∃ th, s.thread? x.tid = some th ∧ th.state = .blocked

/-- The next tick has come, and exactly those who called to sleep until then have been made ready,
in the order of their calls. -/
structure Woken (slept : List Sleeper) (s s' : Scheduler) : Prop extends OnTime slept s' where
  ticks : s'.ticks = s.ticks + 1
  ready : s'.ready.tids = s.ready.tids ++
    (slept.filter fun x => x.wakeTick = s.ticks + 1).map Sleeper.tid
  awake : ∀ x ∈ slept, x.wakeTick = s.ticks + 1 →
    ∃ th, s'.thread? x.tid = some th ∧ th.state = .ready

/-! ## What holds all the time -/

/-- The sleepers are asleep, each once, and wake in the order of their calls. -/
structure Dormant (slept : List Sleeper) (s : Scheduler) : Prop where
  still : Still s.sleepers s.ticks s.sleepers.tids s
  sorted : s.sleepers.Sorted
  nodup : s.sleepers.tids.Nodup
  later : ∀ x ∈ s.sleepers.sleepers, s.ticks < x.wakeTick
  inOrder : ∀ tick, s.ticks < tick →
    s.sleepers.wakingAt tick = slept.filter fun x => x.wakeTick = tick

namespace Dormant

variable {slept : List Sleeper} {s s' : Scheduler}

theorem onTime (h : Dormant slept s) : OnTime slept s where
  later := h.later
  asleep x mem future := by
    have waking : x ∈ s.sleepers.wakingAt x.wakeTick := by
      rw [h.inOrder x.wakeTick future]
      simp [mem]
    have queued : x ∈ s.sleepers.sleepers := (List.mem_filter.mp waking).1
    have sleeps := h.still.asleep x.tid (List.mem_map.mpr ⟨x, queued, rfl⟩)
    obtain ⟨p, known, blocked, -⟩ := sleeps.place
    obtain ⟨th, found, rfl⟩ := exists_thread known
    exact ⟨queued, th, found, blocked⟩

/-- What leaves the sleepers asleep is of no consequence. -/
theorem of_still (h : Dormant slept s) (still : Still s.sleepers s.ticks s.sleepers.tids s') :
    Dormant slept s' := by
  have sleepers : s'.sleepers = s.sleepers := still.sleepers
  have ticks : s'.ticks = s.ticks := still.ticks
  constructor
  case still =>
    rw [sleepers, ticks]
    exact still
  case sorted => exact sleepers ▸ h.sorted
  case nodup => exact sleepers ▸ h.nodup
  case later =>
    rw [sleepers, ticks]
    exact h.later
  case inOrder =>
    rw [sleepers, ticks]
    exact h.inOrder

theorem sleepUntil_ends (h : Dormant slept s) (wakeTick : Nat) :
    (sleepUntil wakeTick).Ends s (fun _ s' =>
      Dormant (slept ++ if s.ticks < wakeTick then [⟨wakeTick, s.current⟩] else []) s' ∧
        s'.ticks = s.ticks) fun _ _ => True := by
  refine (sleepUntil_still h.still wakeTick).imp fun _ s' slept' => ?_
  rcases slept' with ⟨past, rfl⟩ | ⟨future, fresh, still⟩
  · rw [if_neg (by omega), List.append_nil]
    exact ⟨h, rfl⟩
  · rw [if_pos future]
    have sleepers : s'.sleepers = s.sleepers.push s.current wakeTick := still.sleepers
    have ticks : s'.ticks = s.ticks := still.ticks
    refine ⟨?_, ticks⟩
    constructor
    case still =>
      rw [sleepers, ticks]
      exact still
    case sorted => exact sleepers ▸ h.sorted.push s.current wakeTick
    case nodup =>
      rw [sleepers, (s.sleepers.perm_push s.current wakeTick).nodup_iff]
      exact List.nodup_cons.mpr ⟨fresh, h.nodup⟩
    case later =>
      intro x mem
      rw [sleepers, SleepQueue.mem_push] at mem
      rw [ticks]
      rcases mem with rfl | mem
      · exact future
      · exact h.later x mem
    case inOrder =>
      intro tick future'
      rw [ticks] at future'
      rw [sleepers, SleepQueue.wakingAt_push h.sorted, List.filter_append, List.filter_append,
        ← h.inOrder tick future']
      rfl

theorem sleep_ends (h : Dormant slept s) (ticks : Int) :
    (sleep ticks).Ends s (fun _ s' =>
      Dormant (slept ++ if 0 < ticks then [⟨s.ticks + ticks.toNat, s.current⟩] else []) s' ∧
        s'.ticks = s.ticks) fun _ _ => True := by
  unfold sleep
  rw [ends_bind, ends_get, ends_ite]
  refine ⟨fun none => ?_, fun some => ?_⟩
  · rw [if_neg (by omega), List.append_nil]
    exact ⟨h, rfl⟩
  · have future : s.ticks < s.ticks + ticks.toNat := by omega
    have ends := h.sleepUntil_ends (s.ticks + ticks.toNat)
    rw [if_pos future] at ends
    rwa [if_pos (by omega)]

/-- No event but the timer interrupt wakes anybody or counts a tick. -/
theorem happen_ends (h : Dormant slept s) {e : Event} (possible : e.Possible s)
    (other : ∀ count, e ≠ .request (.tick count)) :
    e.happen.Ends s (fun _ s' => Dormant (slept ++ e.sleeper s) s' ∧ s'.ticks = s.ticks)
      fun _ _ => True := by
  by_cases timely : e.Timely
  · rcases timely.eq with ⟨count, rfl⟩ | ⟨ticks, rfl⟩ | ⟨wakeTick, rfl⟩
    · exact absurd rfl (other count)
    · exact ends_bind.mpr (ends_bind.mpr (h.sleep_ends ticks))
    · exact ends_bind.mpr (ends_bind.mpr (h.sleepUntil_ends wakeTick))
  · have none : e.sleeper s = [] := by
      cases e with
      | enter => rfl
      | leave => rfl
      | request r =>
        cases r with
        | sleep | sleepUntil => exact absurd trivial timely
        | _ => rfl
    rw [none, List.append_nil]
    refine (Still.robust.happen possible timely h.still).imp fun _ s' still => ?_
    exact ⟨h.of_still still, still.ticks⟩

/-! ## The timer interrupt -/

/-- The alarm wakes those whose tick it is, and nobody else. -/
theorem alarm_ends (h : Dormant slept s) (off : s.layout.interrupts = .off) :
    alarm.Ends s (fun _ s' => Dormant slept s' ∧ Woken slept s s')
      fun v _ => v = .noSuchThread s.current ∨ ∃ fault, v = .arithmetic fault := by
  have due : s.sleepers.expired (s.ticks + 1) =
      (slept.filter fun x => x.wakeTick = s.ticks + 1).map Sleeper.tid := by
    rw [← h.inOrder (s.ticks + 1) (by omega), SleepQueue.expired_eq h.sorted]
    congr 1
    apply List.filter_congr
    intro x mem
    have := h.later x mem
    grind
  refine (alarm_still h.still h.nodup off).imp fun _ s' woken => ?_
  obtain ⟨still, queued, ready⟩ := woken
  have sleepers := still.sleepers
  have ticks := still.ticks
  have after := SleepQueue.afterExpired_eq h.sorted (s.ticks + 1)
  have dormant : Dormant slept s' := by
    constructor
    case still =>
      rw [sleepers, ticks]
      exact still
    case sorted => exact sleepers ▸ h.sorted.afterExpired _
    case nodup =>
      have nodup := h.nodup
      rw [← s.sleepers.expired_append_afterExpired (s.ticks + 1)] at nodup
      exact sleepers ▸ (List.nodup_append.mp nodup).2.1
    case later =>
      intro x mem
      rw [sleepers, after] at mem
      rw [ticks]
      simpa using (List.mem_filter.mp mem).2
    case inOrder =>
      intro tick future
      rw [ticks] at future
      rw [sleepers, after, ← h.inOrder tick (by omega)]
      unfold SleepQueue.wakingAt
      rw [List.filter_filter]
      apply List.filter_congr
      intro x _
      grind
  refine ⟨dormant, { dormant.onTime with ticks := ticks, ready := ?_, awake := ?_ }⟩
  · rw [← due]
    exact queued
  · intro x mem now
    have expired : x.tid ∈ s.sleepers.expired (s.ticks + 1) := by
      rw [due]
      exact List.mem_map.mpr ⟨x, by simp [mem, now], rfl⟩
    obtain ⟨p, known, ready⟩ := ready x.tid expired
    obtain ⟨th, found, rfl⟩ := exists_thread known
    exact ⟨th, found, ready⟩

/-- A timer interrupt either stops in its accounting or wakes those whose tick it is. -/
theorem interrupt_ends (h : Dormant slept s) :
    (do let _ ← enterHandler; alarm : Scheduling Unit).Ends s
      (fun _ s' => Dormant slept s' ∧ Woken slept s s') fun v _ =>
        v = .nestedInterrupt ∨ v = .noSuchThread s.current ∨ ∃ fault, v = .arithmetic fault := by
  rw [ends_bind]
  have entered := (Still.robust.enterHandler.ends h.still).and
    (enterHandler_ends (s := s) (F := fun v => v = .nestedInterrupt) fun _ => rfl)
  refine entered.mono (fun level s₁ both => ?_) fun v _ nested => .inl nested.2
  obtain ⟨still, -, -, same⟩ := both
  have off : s₁.layout.interrupts = .off := congrArg Layout.interrupts same
  have current : s₁.current = s.current := congrArg Layout.current same
  have ready : s₁.ready.tids = s.ready.tids := congrArg (Layout.queue · .ready) same
  have ticks : s₁.ticks = s.ticks := still.ticks
  refine ((h.of_still still).alarm_ends off).mono (fun _ s₂ woken => ?_) fun v _ stops => .inr ?_
  · obtain ⟨dormant, woken⟩ := woken
    refine ⟨dormant, { woken.toOnTime with ticks := ?_, ready := ?_, awake := ?_ }⟩
    · rw [woken.ticks, ticks]
    · rw [woken.ready, ready, ticks]
    · rw [← ticks]
      exact woken.awake
  · rwa [← current]

theorem timerInterrupt_ends (h : Dormant slept s) :
    timerInterrupt.Ends s (fun _ s' => Dormant slept s' ∧ s'.ticks = s.ticks + 1)
      fun _ _ => True := by
  have woken := h.interrupt_ends
  rw [ends_bind] at woken
  rw [ends_timerInterrupt]
  refine woken.mono (fun level s₁ rest => ?_) fun _ _ _ => trivial
  refine rest.mono (fun _ s₂ done => ?_) fun _ _ _ => trivial
  obtain ⟨dormant, woken⟩ := done
  refine (Still.robust.preemptCheck.ends dormant.still).imp fun _ s₃ still₃ => ?_
  have dormant₃ := dormant.of_still still₃
  refine (Still.robust.leaveHandler.ends dormant₃.still).imp fun _ s₄ still₄ => ?_
  have ticks : s₄.ticks = s.ticks + 1 := by rw [still₄.ticks, still₃.ticks, woken.ticks]
  exact ⟨dormant₃.of_still still₄, ticks⟩

end Dormant

namespace SleepRun

variable {feedback : Bool} {capacity : Nat} {slept : List Sleeper} {s : Scheduler}

theorem dormant (run : SleepRun feedback capacity slept s) : Dormant slept s := by
  induction run with
  | start =>
    have orderly := start_orderly feedback capacity True
    constructor
    case still =>
      refine ⟨rfl, rfl, orderly.numbered, List.not_mem_nil, fun t mem => ?_⟩
      cases mem
    case sorted => exact List.Pairwise.nil
    case nodup => exact List.nodup_nil
    case later =>
      intro x mem
      cases mem
    case inOrder => exact fun _ _ => rfl
  | tick _ succeeds ih => exact (ih.timerInterrupt_ends.of_ok succeeds).1
  | next _ possible other succeeds ih => exact ((ih.happen_ends possible other).of_ok succeeds).1

/-- Timer interrupts that come one right after the other. -/
theorem ticks (run : SleepRun feedback capacity slept s) (count : Nat) :
    (times count timerInterrupt).Ends s (fun _ s' => SleepRun feedback capacity slept s')
      fun _ _ => True := by
  apply ends_times (I := fun _ s' => SleepRun feedback capacity slept s')
  · intro _ s₁ run₁
    refine Ends.self.mono (fun _ s₂ done => ?_) fun _ _ _ => trivial
    obtain ⟨succeeds, rfl⟩ := done
    exact run₁.tick succeeds
  · exact run

end SleepRun

namespace Run

variable {feedback : Bool} {capacity : Nat} {allows : Scheduler → Event → Scheduler → Prop}
  {P : Set Tid} {s : Scheduler}

/-- Every state of a run is reached with certain calls to sleep. -/
theorem exists_sleepRun (run : Run feedback capacity allows P s) :
    ∃ slept, SleepRun feedback capacity slept s := by
  induction run with
  | start => exact ⟨[], .start⟩
  | @next P s e _ possible succeeds _ ih =>
    obtain ⟨slept, run⟩ := ih
    by_cases ticks : ∃ count, e = .request (.tick count)
    · obtain ⟨count, rfl⟩ := ticks
      have ends : (Event.happen (.request (.tick count))).Ends s
          (fun _ s' => SleepRun feedback capacity slept s') fun _ _ => True :=
        ends_bind.mpr (ends_bind.mpr (run.ticks count))
      exact ⟨slept, ends.of_ok succeeds⟩
    · exact ⟨_, run.next possible (fun count same => ticks ⟨count, same⟩) succeeds⟩

/-- In every state of a run all sleepers wake later, and whoever has called to sleep until a later
tick is blocked. No event wakes anybody or counts a tick but the timer interrupt. That makes ready
those who called to sleep until the tick it counts, in the order of their calls, and only then looks
for the thread that has to run; it cannot stop on the way unless its accounting does. -/
theorem sleepers_wake_on_time :
    (∀ allows P s, Run feedback capacity allows P s → ∃ slept, SleepRun feedback capacity slept s) ∧
    (timerHandler = do alarm; preemptCheck) ∧
    ∀ slept s, SleepRun feedback capacity slept s →
      OnTime slept s ∧
      (∀ e : Event, e.Possible s → (∀ count, e ≠ .request (.tick count)) →
        e.happen.Ends s (fun _ s' => OnTime (slept ++ e.sleeper s) s' ∧ s'.ticks = s.ticks)
          fun _ _ => True) ∧
      (do let _ ← enterHandler; alarm : Scheduling Unit).Ends s (fun _ s' => Woken slept s s')
        (fun v _ =>
          v = .nestedInterrupt ∨ v = .noSuchThread s.current ∨ ∃ fault, v = .arithmetic fault) ∧
      timerInterrupt.Ends s (fun _ s' => OnTime slept s' ∧ s'.ticks = s.ticks + 1)
        fun _ _ => True := by
  refine ⟨fun allows P s run => run.exists_sleepRun, timerHandler_eq, fun slept s run => ?_⟩
  have dormant := run.dormant
  refine ⟨dormant.onTime, fun e possible other => ?_, ?_, ?_⟩
  · exact (dormant.happen_ends possible other).imp fun _ s' kept => ⟨kept.1.onTime, kept.2⟩
  · exact dormant.interrupt_ends.imp fun _ s' woken => woken.2
  · exact dormant.timerInterrupt_ends.imp fun _ s' kept => ⟨kept.1.onTime, kept.2⟩

end Run

/-! ## Two sleepers -/

/-- Two threads of the same priority go to sleep until the same tick, the first thread first, and
one tick has passed. -/
def shared : Scheduler := ((Event.request (.spawn "second" 31 none 0)).happen (start false 4)).state

def firstAsleep : Scheduler := ((Event.request (.sleepUntil 2)).happen shared).state

def bothAsleep : Scheduler := ((Event.request (.sleep 2)).happen firstAsleep).state

def nearlyDue : Scheduler := (timerInterrupt bothAsleep).state

theorem nearlyDue_run : SleepRun false 4 [⟨2, 1⟩, ⟨2, 3⟩] nearlyDue := by
  have run₁ : SleepRun false 4 [] shared :=
    SleepRun.start.next (e := .request (.spawn "second" 31 none 0)) (fun _ => by decide) (by simp)
      rfl
  have run₂ : SleepRun false 4 [⟨2, 1⟩] firstAsleep :=
    run₁.next (e := .request (.sleepUntil 2)) trivial (by simp) rfl
  have run₃ : SleepRun false 4 [⟨2, 1⟩, ⟨2, 3⟩] bothAsleep :=
    run₂.next (e := .request (.sleep 2)) trivial (by simp) rfl
  exact run₃.tick rfl

/-- At the next timer interrupt both are made ready, the first thread first. -/
theorem nearlyDue_wakes :
    OnTime [⟨2, 1⟩, ⟨2, 3⟩] nearlyDue ∧ nearlyDue.ready.tids = [] ∧
      ((do let _ ← enterHandler; alarm : Scheduling Unit) nearlyDue).state.ready.tids = [1, 3] := by
  obtain ⟨-, -, all⟩ := @Run.sleepers_wake_on_time false 4
  obtain ⟨onTime, -, woken, -⟩ := all _ _ nearlyDue_run
  exact ⟨onTime, rfl, (woken.of_ok (a := ()) rfl).ready.trans rfl⟩

end KernelCore.Scheduler
