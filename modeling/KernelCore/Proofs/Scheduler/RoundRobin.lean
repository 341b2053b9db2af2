import Mathlib.Data.List.Rotate
import KernelCore.Proofs.Scheduler.Handlers
import KernelCore.Proofs.Scheduler.IdleThread

/-!
# Taking turns

As long as nobody sleeps and no ready thread outranks the one that runs, timer interrupts do nothing
but end time slices. A thread whose time slice ends goes behind the ready threads of its priority,
and the first of them is next, so that they take turns and the threads behind them wait.
-/
namespace KernelCore

namespace PriorityQueue

variable {q : PriorityQueue} {priority : Tid → Int} {t : Tid}

/-- The foremost thread is the first of those of the highest priority, and taking it out leaves the
others in their order. -/
theorem Foremost.first {top : Int} (h : q.Foremost priority t)
    (reached : ∃ x ∈ q.tids, priority x = top) (le : ∀ x ∈ q.tids, priority x ≤ top) :
    q.tids.filter (priority · = top) = t :: (q.tids.erase t).filter (priority · = top) ∧
      q.tids.filter (priority · < top) = (q.tids.erase t).filter (priority · < top) := by
  obtain ⟨x, mem, reaches⟩ := reached
  have own : priority t = top := Int.le_antisymm (le t h.mem) (reaches ▸ h.le mem)
  obtain ⟨front, back, split, before, -⟩ := h
  rw [own] at before
  have fresh : t ∉ front := fun mem => absurd (before t mem) (by omega)
  have none : front.filter (priority · = top) = [] := by
    rw [List.filter_eq_nil_iff]
    intro y mem
    have := before y mem
    simp only [decide_eq_true_eq]
    omega
  rw [split, List.erase_append_right _ fresh, List.erase_cons_head]
  simp [List.filter_append, none, own]

end PriorityQueue

namespace Scheduler

open Transition

/-- The thread that runs, and the ready threads of its priority in their order. -/
def turns (s : Scheduler) : List Tid :=
  s.current :: s.ready.tids.filter (s.priorityOf · = s.priorityOf s.current)

/-- The ready threads of lower priority in their order. -/
def behind (s : Scheduler) : List Tid :=
  s.ready.tids.filter (s.priorityOf · < s.priorityOf s.current)

/-- No handler runs, nobody sleeps, and the thread that runs is not the idle one and is outranked by
no ready thread. -/
structure Leads (s : Scheduler) : Prop where
  outside : s.inHandler = false
  awake : s.sleepers.tids = []
  busy : s.current ≠ s.idle
  led : ∀ t ∈ s.ready.tids, s.priorityOf t ≤ s.priorityOf s.current

section

variable {s s' : Scheduler} {S : Set Tid} {t : Tid}

/-! ## What is picked -/

/-- A decision picks the foremost ready thread, if there is one. -/
theorem schedule_picks (alive : ∀ t ∈ s.ready.tids, t ∉ s.dying) :
    schedule.Ends s (fun _ s' => s.ready.tids ≠ [] → s.ready.Foremost s.priorityOf s'.current)
      fun _ _ => True := by
  refine ends_schedule fun s₁ cleared => ?_
  have ready : s₁.ready = s.ready := by rw [cleared.rest]
  have priorities : ∀ t ∈ s.ready.tids, s.priorityOf t = s₁.priorityOf t := by
    intro t mem
    unfold priorityOf
    rw [cleared.known, if_neg (alive t mem)]
  unfold pickNext
  rw [ends_modifyGet]
  refine ⟨by rw [cleared.rest], fun s₃ dispatched _ some => ?_⟩
  have current := congrArg Scheduler.current dispatched.rest
  rw [current]
  cases found : (s₁.ready.popMax s₁.priorityOf).1 with
  | none =>
    rw [ready] at found
    exact absurd (PriorityQueue.popMax_of_none found).1 some
  | some w =>
    dsimp only
    rw [found, Option.getD_some]
    rw [ready] at found
    exact (PriorityQueue.popMax_of_some found).1.congr priorities

/-- Giving way changes no priority. -/
theorem priorityOf_gaveWay (s : Scheduler) : s.gaveWay.priorityOf = s.priorityOf := by
  funext t
  by_cases own : t = s.current
  · unfold gaveWay priorityOf thread?
    split <;>
      (simp only [Table.find?_modify, own, if_true]; cases s.threads.find? s.current <;> rfl)
  · unfold priorityOf
    rw [gaveWay_thread? own]

/-- A decision changes the priority of no thread that stays. -/
theorem Decision.priorityOf (h : Decision s s') (stays : t ∉ s.dying) :
    s'.priorityOf t = s.priorityOf t := by
  unfold Scheduler.priorityOf
  by_cases own : t = s'.current
  · obtain ⟨th, before, after⟩ := h.chosen
    rw [own, before, after]
    rfl
  · rw [h.others t stays own]

/-- Yielding is giving way, and then deciding. -/
theorem ends_yield {Q : Unit → Scheduler → Prop} {E : Violation → Scheduler → Prop} {th : Thread}
    (outside : s.inHandler = false) (known : s.thread? s.current = some th)
    (fresh : s.current ∉ s.ready.tids) :
    yield.Ends s Q E ↔
      (schedule >>= fun _ => restoreInterrupts s.interrupts).Ends s.gaveWay Q E := by
  have known' : ({ s with interrupts := .off } : Scheduler).thread? s.current = some th := known
  unfold yield disableInterrupts
  rw [ends_bind, ends_get, ends_bind, ends_ensure]
  rw [and_iff_left fun inside => absurd outside inside]
  rw [show (s.inHandler = false → _) ↔ _ from ⟨fun h => h outside, fun h _ => h⟩]
  rw [ends_bind, ends_modifyGet]
  unfold gaveWay
  by_cases idle : s.current = s.idle
  · rw [if_pos idle, if_pos idle, ends_bind, ends_updateThread_of_some known']
  · rw [if_neg idle, if_neg idle, ends_bind, ends_updateThread_of_some known', ends_bind,
      ends_update_of_ok (by rw [PriorityQueue.push_of_not_mem fresh]; rfl)]

/-! ## The end of a time slice -/

/-- Everybody who takes turns has gone one place forward. -/
structure Rotated (s s' : Scheduler) : Prop where
  turns : s'.turns = s.turns.rotate 1
  behind : s'.behind = s.behind
  leads : s'.Leads
  orderly : ∃ S, Orderly True S s'.layout
  rest : s'.feedback = s.feedback ∧ s'.yieldOnReturn = s.yieldOnReturn ∧
    s'.interrupts = s.interrupts ∧ s'.sliceTicks = 0

theorem gaveWay_ready (busy : s.current ≠ s.idle) :
    s.gaveWay.ready.tids = s.ready.tids ++ [s.current] := by
  unfold gaveWay
  rw [if_neg busy]

theorem gaveWay_dying (s : Scheduler) : s.gaveWay.dying = s.dying := by
  rw [gaveWay_rest]

/-- Neither the thread that runs nor the ready ones have exited. -/
theorem alive_of_orderly (h : Orderly True S s.layout) (mem : t ∈ s.ready.tids ++ [s.current]) :
    t ∉ s.dying := by
  intro doomed
  obtain ⟨away, -, exited⟩ := h.doomed t doomed
  rcases List.mem_append.mp mem with mem | mem
  · obtain ⟨p, known, there⟩ := h.exists_of_mem_queue (m := .ready) (by simp) mem
    have ready := (h.proper t p known).ready.mpr there
    have gone := exited p known
    rw [ready] at gone
    cases gone
  · exact away (List.mem_singleton.mp mem)

/-- The thread that ran is behind the ready ones, and the foremost of them all runs. -/
structure HandedOn (s s' : Scheduler) : Prop where
  mem : s'.current ∈ s.ready.tids ++ [s.current]
  ready : s'.ready.tids = (s.ready.tids ++ [s.current]).erase s'.current
  priority : ∀ t ∈ s.ready.tids ++ [s.current], s'.priorityOf t = s.priorityOf t
  equals : (s.ready.tids ++ [s.current]).filter (s.priorityOf · = s.priorityOf s.current) =
    s'.current :: s'.ready.tids.filter (s.priorityOf · = s.priorityOf s.current)
  lower : (s.ready.tids ++ [s.current]).filter (s.priorityOf · < s.priorityOf s.current) =
    s'.ready.tids.filter (s.priorityOf · < s.priorityOf s.current)

theorem Leads.le (leads : s.Leads) (mem : t ∈ s.ready.tids ++ [s.current]) :
    s.priorityOf t ≤ s.priorityOf s.current := by
  rcases List.mem_append.mp mem with mem | mem
  · exact leads.led t mem
  · rw [List.mem_singleton.mp mem]

namespace HandedOn

theorem mem_of_ready (h : HandedOn s s') (mem : t ∈ s'.ready.tids) :
    t ∈ s.ready.tids ++ [s.current] := by
  rw [h.ready] at mem
  exact List.mem_of_mem_erase mem

/-- The next thread has the priority of the last one. -/
theorem top (h : HandedOn s s') : s'.priorityOf s'.current = s.priorityOf s.current := by
  have among : s'.current ∈ (s.ready.tids ++ [s.current]).filter
      (s.priorityOf · = s.priorityOf s.current) := by
    rw [h.equals]
    exact List.mem_cons_self
  rw [h.priority _ h.mem]
  simpa using (List.mem_filter.mp among).2

theorem turns (h : HandedOn s s') : s'.turns = s.turns.rotate 1 := by
  have alike : s'.ready.tids.filter (s'.priorityOf · = s'.priorityOf s'.current) =
      s'.ready.tids.filter (s.priorityOf · = s.priorityOf s.current) :=
    List.filter_congr fun t mem => by rw [h.priority t (h.mem_of_ready mem), h.top]
  unfold Scheduler.turns
  rw [alike, ← h.equals, List.filter_append]
  simp

theorem behind (h : HandedOn s s') : s'.behind = s.behind := by
  have alike : s'.ready.tids.filter (s'.priorityOf · < s'.priorityOf s'.current) =
      s'.ready.tids.filter (s.priorityOf · < s.priorityOf s.current) :=
    List.filter_congr fun t mem => by rw [h.priority t (h.mem_of_ready mem), h.top]
  unfold Scheduler.behind
  rw [alike, ← h.lower, List.filter_append]
  simp

theorem led (h : HandedOn s s') (leads : s.Leads) (mem : t ∈ s'.ready.tids) :
    s'.priorityOf t ≤ s'.priorityOf s'.current := by
  rw [h.priority t (h.mem_of_ready mem), h.top]
  exact leads.le (h.mem_of_ready mem)

end HandedOn

/-- A decision after the leading thread has given way hands on to the next one. -/
theorem Decision.handedOn {s₁ : Scheduler} (h : Orderly True S s.layout) (leads : s.Leads)
    (decision : Decision s.gaveWay s₁)
    (foremost : s.gaveWay.ready.Foremost s.gaveWay.priorityOf s₁.current) : HandedOn s s₁ := by
  have queued := gaveWay_ready leads.busy
  have ready := decision.ready
  rw [priorityOf_gaveWay] at foremost
  have mem := foremost.mem
  rw [queued] at ready mem
  have first := foremost.first ⟨s.current, by simp [queued], rfl⟩
    fun t mem => leads.le (queued ▸ mem)
  rw [queued, ← ready] at first
  refine ⟨mem, ready, fun t mem => ?_, first.1, first.2⟩
  have stays : t ∉ s.gaveWay.dying := by
    rw [gaveWay_dying]
    exact alive_of_orderly h mem
  rw [decision.priorityOf stays, priorityOf_gaveWay]

/-- The next thread leads then. -/
theorem Decision.rotated {s₁ : Scheduler} (h : Orderly True S s.layout) (leads : s.Leads)
    (decision : Decision s.gaveWay s₁)
    (foremost : s.gaveWay.ready.Foremost s.gaveWay.priorityOf s₁.current)
    (same : s' = { s₁ with interrupts := s.interrupts }) (orderly : Orderly True S s'.layout) :
    Rotated s s' := by
  have handed := decision.handedOn h leads foremost
  have rest := decision.rest
  rw [gaveWay_rest s] at rest
  subst same
  constructor
  case turns => exact handed.turns
  case behind => exact handed.behind
  case leads =>
    constructor
    case outside =>
      rw [rest]
      exact leads.outside
    case awake =>
      rw [rest]
      exact leads.awake
    case busy =>
      intro idles
      have idle : s₁.idle = s.idle := by rw [rest]
      have mem := handed.mem
      rw [show s₁.current = s.idle from idles.trans idle] at mem
      rcases List.mem_append.mp mem with mem | mem
      · exact h.resting trivial mem
      · exact leads.busy (List.mem_singleton.mp mem).symm
    case led => exact fun t mem => handed.led leads mem
  case orderly => exact ⟨S, orderly⟩
  case rest =>
    rw [rest]
    exact ⟨rfl, rfl, rfl, rfl⟩

/-- The thread that leads goes behind its equals, and the first of them leads. -/
theorem yield_rotates (h : Orderly True S s.layout) (leads : s.Leads) :
    yield.Ends s (fun _ s' => Rotated s s') fun _ _ => False := by
  obtain ⟨p, known, -, free⟩ := h.current
  obtain ⟨th, found, rfl⟩ := exists_thread known
  have fresh : s.current ∉ s.ready.tids := by
    intro mem
    have there := (h.mem_queue known (m := .ready) (by simp)).mp mem
    rw [free] at there
    cases there
  have queued := gaveWay_ready leads.busy
  have alive : ∀ t ∈ s.gaveWay.ready.tids, t ∉ s.gaveWay.dying := by
    intro t mem
    rw [queued] at mem
    rw [gaveWay_dying]
    exact alive_of_orderly h mem
  have picks : yield.Ends s (fun _ s' => ∃ s₁, Decision s.gaveWay s₁ ∧
      s.gaveWay.ready.Foremost s.gaveWay.priorityOf s₁.current ∧
      s' = { s₁ with interrupts := s.interrupts }) fun _ _ => True := by
    rw [ends_yield leads.outside found fresh, ends_bind]
    refine (schedule_decides.and (schedule_picks alive)).mono (fun _ s₁ both => ?_)
      fun _ _ _ => trivial
    obtain ⟨decision, foremost⟩ := both
    have off : s₁.interrupts = .off := by rw [decision.rest, gaveWay_rest]
    have outside : s₁.inHandler = false := by
      rw [decision.rest, gaveWay_rest]
      exact leads.outside
    refine (restoreInterrupts_exact off outside).imp fun _ s' same => ?_
    exact ⟨s₁, decision, foremost (by simp [queued]), same⟩
  have elected := yield_ends (F := fun _ => False) (fun no => absurd trivial no) h leads.outside
  refine (elected.and picks).mono (fun _ s' both => ?_) fun _ _ never => never.1
  obtain ⟨elected, s₁, decision, foremost, same⟩ := both
  exact decision.rotated h leads foremost same elected.orderly

/-! ## One tick -/

theorem accountTick_exact (busy : s.current ≠ s.idle) {th : Thread}
    (known : s.thread? s.current = some th) :
    accountTick.Ends s (fun _ s' => ∃ counts, s' = { s with tickCounts := counts })
      fun _ _ => False := by
  unfold accountTick
  rw [ends_bind, ends_get, if_neg busy, ends_bind, ends_thread known, ends_ite]
  exact ⟨fun _ => ⟨_, rfl⟩, fun _ => ⟨_, rfl⟩⟩

theorem wakeSleepers_nobody (awake : s.sleepers.tids = []) :
    wakeSleepers.Ends s (fun _ s' => s' = s) fun _ _ => False := by
  have none : s.sleepers.length = 0 := by
    rw [SleepQueue.length, List.map_eq_nil_iff.mp awake]
    rfl
  unfold wakeSleepers
  rw [ends_bind, ends_get, none]
  rfl

theorem preemptCheck_settled (busy : s.current ≠ s.idle)
    (led : ∀ t ∈ s.ready.tids, s.priorityOf t ≤ s.priorityOf s.current) :
    preemptCheck.Ends s (fun _ s' => s' = s) fun _ _ => False := by
  unfold preemptCheck
  rw [ends_bind, ends_get]
  cases found : s.ready.peekMax s.priorityOf with
  | none => exact rfl
  | some top =>
    have mem := (PriorityQueue.foremost_of_peekMax found).mem
    dsimp only
    rw [if_pos ⟨busy, led top mem⟩]
    exact rfl

/-- A tick of the time slice is used up. -/
def sliced (s : Scheduler) : Scheduler :=
  { s with
    sliceTicks := s.sliceTicks + 1
    yieldOnReturn := s.yieldOnReturn || timeSlice ≤ s.sliceTicks + 1 }

theorem slice_quiet (awake : s.sleepers.tids = []) (busy : s.current ≠ s.idle)
    (led : ∀ t ∈ s.ready.tids, s.priorityOf t ≤ s.priorityOf s.current) :
    (do useSlice; wakeSleepers; preemptCheck : Scheduling Unit).Ends s (fun _ s' => s' = s.sliced)
      fun _ _ => False := by
  unfold useSlice
  rw [ends_bind, ends_modify, ends_bind]
  refine (wakeSleepers_nobody (s := s.sliced) awake).imp fun _ s₁ woken => ?_
  subst woken
  exact preemptCheck_settled busy led

/-- In priority mode the handler of the timer only uses up a tick of the time slice if it wakes nobody
and the right thread runs. -/
theorem timerHandler_quiet (mode : s.feedback = false) (awake : s.sleepers.tids = [])
    (busy : s.current ≠ s.idle) (led : ∀ t ∈ s.ready.tids, s.priorityOf t ≤ s.priorityOf s.current)
    {th : Thread} (known : s.thread? s.current = some th) :
    timerHandler.Ends s (fun _ s' => ∃ counts,
      s' = { s with ticks := s.ticks + 1, tickCounts := counts }.sliced) fun _ _ => False := by
  unfold timerHandler
  rw [ends_bind, ends_modify, ends_bind]
  refine (accountTick_exact (s := { s with ticks := s.ticks + 1 }) busy known).imp
    fun _ s₁ counted => ?_
  obtain ⟨counts, rfl⟩ := counted
  rw [ends_bind, ends_get, if_neg (by simp [mode])]
  exact (slice_quiet (s := { s with ticks := s.ticks + 1, tickCounts := counts }) awake busy led).imp
    fun _ s₂ same => ⟨counts, same⟩

/-- What holds while threads take turns. -/
structure Leading (s : Scheduler) : Prop extends Leads s where
  mode : s.feedback = false
  settled : s.yieldOnReturn = false
  slice : s.sliceTicks < timeSlice
  orderly : ∃ S, Orderly True S s.layout

/-- What a timer interrupt makes of threads that take turns: it leaves everybody in place, or ends the
time slice. -/
structure Ticked (s s' : Scheduler) : Prop where
  leading : Leading s'
  behind : s'.behind = s.behind
  turns : s.sliceTicks + 1 < timeSlice ∧ s'.sliceTicks = s.sliceTicks + 1 ∧ s'.turns = s.turns ∨
    s.sliceTicks + 1 = timeSlice ∧ s'.sliceTicks = 0 ∧ s'.turns = s.turns.rotate 1

theorem leaveHandler_settled {level : InterruptLevel} (off : s.interrupts = .off)
    (settled : s.yieldOnReturn = false) : (leaveHandler level).Ends s
      (fun _ s' => s' = { s with inHandler := false, interrupts := level }) fun _ _ => False := by
  unfold leaveHandler
  rw [ends_bind, ends_modify, ends_bind, ends_get, if_neg (by simp [settled])]
  exact restoreInterrupts_exact (s := { s with inHandler := false }) off rfl

/-- The deferred decision is made when the handler returns. -/
theorem leaveHandler_rotates (level : InterruptLevel) (off : s.interrupts = .off)
    (due : s.yieldOnReturn = true) (h : Orderly True S s.layout)
    (leads : Leads { s with inHandler := false }) : (leaveHandler level).Ends s
      (fun _ s' => ∃ s₁, Rotated { s with inHandler := false, yieldOnReturn := false } s₁ ∧
        s' = { s₁ with interrupts := level }) fun _ _ => False := by
  unfold leaveHandler
  rw [ends_bind, ends_modify, ends_bind, ends_get, if_pos due, ends_bind, ends_modify, ends_bind]
  have rotates := yield_rotates (S := S) (s := { s with inHandler := false, yieldOnReturn := false })
    { h with handler := nofun } ⟨leads.outside, leads.awake, leads.busy, leads.led⟩
  refine rotates.imp fun _ s₁ rotated => ?_
  have off₁ : s₁.interrupts = .off := rotated.rest.2.2.1.trans off
  exact (restoreInterrupts_exact off₁ rotated.leads.outside).imp fun _ _ back => ⟨s₁, rotated, back⟩

/-- What the handler of the timer leaves when it wakes nobody. -/
def inTick (s : Scheduler) (counts : TickCounts) : Scheduler :=
  { s with interrupts := .off, inHandler := true, ticks := s.ticks + 1, tickCounts := counts }.sliced

/-- In the middle of a time slice the handler returns to the thread it came from. -/
theorem Leading.slice_lasts (h : Leading s) (counts : TickCounts)
    (more : s.sliceTicks + 1 < timeSlice) :
    (leaveHandler s.interrupts).Ends (s.inTick counts) (fun _ s' => Ticked s s')
      fun _ _ => False := by
  obtain ⟨S, orderly⟩ := h.orderly
  have settled : (s.inTick counts).yieldOnReturn = false := by
    simp only [inTick, sliced, h.settled, Bool.false_or, decide_eq_false_iff_not]
    omega
  refine (leaveHandler_settled rfl settled).imp fun _ s' left => ?_
  subst left
  exact {
    leading := {
      outside := rfl
      awake := h.awake
      busy := h.busy
      led := h.led
      mode := h.mode
      settled := settled
      slice := more
      orderly := ⟨S, { orderly with handler := nofun }⟩ }
    behind := rfl
    turns := .inl ⟨more, rfl, rfl⟩ }

/-- At the end of a time slice the handler returns to the next thread. -/
theorem Leading.slice_ends (h : Leading s) (counts : TickCounts)
    (spent : s.sliceTicks + 1 = timeSlice) :
    (leaveHandler s.interrupts).Ends (s.inTick counts) (fun _ s' => Ticked s s')
      fun _ _ => False := by
  obtain ⟨S, orderly⟩ := h.orderly
  have due : (s.inTick counts).yieldOnReturn = true := by
    simp only [inTick, sliced, spent, Nat.le_refl, decide_true, Bool.or_true]
  have rotates := leaveHandler_rotates (S := S) s.interrupts rfl due
    { orderly with handler := fun _ => rfl } ⟨rfl, h.awake, h.busy, h.led⟩
  refine rotates.imp fun _ s' left => ?_
  obtain ⟨s₁, rotated, rfl⟩ := left
  obtain ⟨mode, settled, -, slice⟩ := rotated.rest
  obtain ⟨S₁, orderly₁⟩ := rotated.orderly
  have outside := rotated.leads.outside
  exact {
    leading := {
      outside := outside
      awake := rotated.leads.awake
      busy := rotated.leads.busy
      led := rotated.leads.led
      mode := mode.trans h.mode
      settled := settled
      slice := by
        change s₁.sliceTicks < timeSlice
        rw [slice]
        decide
      orderly := ⟨S₁, { orderly₁ with
        handler := fun inside => absurd (outside.symm.trans inside) nofun }⟩ }
    behind := rotated.behind
    turns := .inr ⟨spent, slice, rotated.turns⟩ }

theorem timerInterrupt_turns (h : Leading s) :
    timerInterrupt.Ends s (fun _ s' => Ticked s s') fun _ _ => False := by
  obtain ⟨S, orderly⟩ := h.orderly
  obtain ⟨p, place, -⟩ := orderly.current
  obtain ⟨th, known, rfl⟩ := exists_thread place
  have outside := h.outside
  unfold timerInterrupt externalInterrupt enterHandler disableInterrupts
  rw [ends_bind, ends_bind, ends_get, ends_bind, ends_ensure]
  refine ⟨fun _ => ?_, fun inside => absurd outside inside⟩
  rw [ends_bind, ends_modifyGet, ends_bind, ends_modify, ends_pure, ends_bind]
  refine (timerHandler_quiet (s := { s with interrupts := .off, inHandler := true }) h.mode h.awake
    h.busy h.led known).imp fun _ s₁ ticked => ?_
  obtain ⟨counts, rfl⟩ := ticked
  rw [ends_bind]
  rcases Nat.lt_or_eq_of_le (Nat.succ_le_of_lt h.slice) with more | spent
  · exact h.slice_lasts counts more
  · exact h.slice_ends counts spent

/-! ## Any number of ticks -/

/-- After `n` ticks everybody who takes turns has gone one place forward for each time slice that has
ended since, and the time slice that has begun goes on. -/
structure Turned (n : Nat) (s s' : Scheduler) : Prop where
  leading : Leading s'
  turns : s'.turns = s.turns.rotate ((s.sliceTicks + n) / timeSlice)
  behind : s'.behind = s.behind
  slice : s'.sliceTicks = (s.sliceTicks + n) % timeSlice

theorem Leading.turned_zero (h : Leading s) : Turned 0 s s where
  leading := h
  turns := by rw [Nat.add_zero, Nat.div_eq_of_lt h.slice, List.rotate_zero]
  behind := rfl
  slice := (Nat.mod_eq_of_lt h.slice).symm

theorem Ticked.turned {n : Nat} {s₁ : Scheduler} (tick : Ticked s s₁) (rest : Turned n s₁ s') :
    Turned (n + 1) s s' := by
  have turns := rest.turns
  have slice := rest.slice
  have positive : 0 < timeSlice := by decide
  refine ⟨rest.leading, ?_, rest.behind.trans tick.behind, ?_⟩
  all_goals rcases tick.turns with ⟨-, next, same⟩ | ⟨spent, next, rotated⟩
  · rw [turns, next, same, Nat.add_right_comm, Nat.add_assoc]
  · have ended : (s.sliceTicks + (n + 1)) / timeSlice = 1 + n / timeSlice := by
      rw [show s.sliceTicks + (n + 1) = n + timeSlice by omega, Nat.add_div_right n positive,
        Nat.add_comm]
    rw [turns, next, rotated, Nat.zero_add, List.rotate_rotate, ended]
  · rw [slice, next, Nat.add_right_comm, Nat.add_assoc]
  · rw [slice, next, Nat.zero_add, show s.sliceTicks + (n + 1) = n + timeSlice by omega,
      Nat.add_mod_right]

theorem ticks_turn (n : Nat) (h : Leading s) :
    (times n timerInterrupt).Ends s (fun _ s' => Turned n s s') fun _ _ => False := by
  induction n generalizing s with
  | zero => exact h.turned_zero
  | succ n ih =>
    rw [times_succ, ends_bind]
    refine (timerInterrupt_turns h).imp fun _ s₁ tick => ?_
    exact (ih tick.leading).imp fun _ s' rest => tick.turned rest

theorem Turned.current {n : Nat} (h : Turned n s s') :
    s.turns[(s.sliceTicks + n) / timeSlice % s.turns.length]? = some s'.current := by
  have first : s'.turns.head? = some s'.current := rfl
  have within : (s.sliceTicks + n) / timeSlice % s.turns.length < s.turns.length :=
    Nat.mod_lt _ (by simp [Scheduler.turns])
  rw [← first, h.turns, ← List.rotate_mod, List.head?_rotate within]

theorem Turned.not_behind {n : Nat} (h : Turned n s s') : s'.current ∉ s.behind := by
  obtain ⟨S, orderly⟩ := h.leading.orderly
  rw [← h.behind]
  intro mem
  exact orderly.not_mem_ready_current (List.mem_filter.mp mem).1

end

/-! ## Runs -/

/-- Nothing changes the mode. -/
instance (p : Part) : Ignores Scheduler.feedback p where
  same := by
    intro s s' alone
    cases p with
    | threads =>
      have same := congrArg Scheduler.feedback alone.rest
      exact same
    | _ =>
      have same := congrArg Scheduler.feedback alone
      exact same

namespace Run

variable {feedback : Bool} {capacity : Nat} {allows : Scheduler → Event → Scheduler → Prop}
  {P : Set Tid} {s : Scheduler}

theorem mode (run : Run feedback capacity allows P s) : s.feedback = feedback := by
  induction run with
  | start => rfl
  | next _ possible _ _ ih =>
    have same : Preserves Scheduler.feedback (Event.happen _) :=
      Event.happen_preserves possible fun p _ => inferInstance
    exact (same _).trans ih

theorem tidy (run : Run feedback capacity allows P s) : ∃ level, Tidy s.inHandler level s := by
  suffices some : ∃ b level, Tidy b level s ∧ (b = true → level = .off) by
    obtain ⟨b, level, tidy, -⟩ := some
    exact ⟨level, tidy.inHandler.symm ▸ tidy⟩
  induction run with
  | start => exact ⟨false, .on, ⟨rfl, rfl, fun _ => rfl, .inr (show 0 < timeSlice by decide)⟩, nofun⟩
  | @next P s e _ possible succeeds _ ih =>
    obtain ⟨b, level, tidy, masked⟩ := ih
    have ends : e.happen.Ends s (fun _ s' => ∃ b level, Tidy b level s' ∧ (b = true → level = .off))
        fun _ _ => True := by
      cases e with
      | enter =>
        refine ends_bind.mpr (enterHandler_exact.imp fun _ s' entered => ?_)
        obtain ⟨-, outside, same⟩ := entered
        obtain rfl : b = false := tidy.inHandler.symm.trans outside
        exact ⟨true, .off, same ▸ tidy.inside, fun _ => rfl⟩
      | leave back =>
        obtain rfl : b = true := tidy.inHandler.symm.trans possible
        obtain rfl := masked rfl
        exact (leaveHandler_tidy s tidy).imp fun _ s' tidy => ⟨false, back, tidy, nofun⟩
      | request r =>
        apply ends_bind.mpr
        cases b with
        | false =>
          exact (perform_tidy_anyhow s tidy).imp fun _ s' ⟨level, tidy⟩ => ⟨false, level, tidy, nofun⟩
        | true =>
          obtain rfl := masked rfl
          exact (perform_tidy_inside s tidy).imp fun _ s' tidy => ⟨true, .off, tidy, fun _ => rfl⟩
    exact ends.of_ok succeeds

theorem leading (spares : IdleNeverQueued allows) (run : Run false capacity allows P s)
    (leads : s.Leads) : Leading s := by
  obtain ⟨level, tidy⟩ := run.tidy
  rw [leads.outside] at tidy
  have settled : s.yieldOnReturn = false := tidy.settled rfl
  exact {
    leads with
    mode := run.mode
    settled := settled
    slice := tidy.slice.resolve_left (by simp [settled])
    orderly := run.exists_orderly spares }

/-- In priority mode let the thread that runs be outranked by no ready thread, and let nobody sleep.
Then however many timer interrupts follow, none of them stops, the thread that runs and the ready
threads of its priority take turns in the order in which they were queued, one time slice each after
what is left of the first, and the ready threads of lower priority keep their order and never run.
The idle thread must not have been queued. -/
theorem round_robin (spares : IdleNeverQueued allows) (run : Run false capacity allows P s)
    (leads : s.Leads) (n : Nat) :
    s.sliceTicks < timeSlice ∧ (times n timerInterrupt s).result = .ok () ∧
      s.turns[(s.sliceTicks + n) / timeSlice % s.turns.length]? =
        some (times n timerInterrupt s).state.current ∧
      (times n timerInterrupt s).state.turns = s.turns.rotate ((s.sliceTicks + n) / timeSlice) ∧
      (times n timerInterrupt s).state.behind = s.behind ∧
      (times n timerInterrupt s).state.current ∉ s.behind := by
  have leading := run.leading spares leads
  obtain ⟨⟨⟩, succeeds, turned⟩ := (ticks_turn n leading).exists_ok
  exact ⟨leading.slice, succeeds, turned.current, turned.turns, turned.behind, turned.not_behind⟩

end Run

private theorem unqueued {s : Scheduler} {r : Request} (unwoken : ¬(Event.request r).Unblocks s.idle)
    (free : ¬r.Queues s) : ¬(Event.request r).QueuesIdle s := by
  rintro (wakes | ⟨-, r', same, queues⟩)
  · exact unwoken wakes
  · obtain rfl := Event.request.inj same
    exact free queues

/-- Two threads of the same priority as the first and one of a lower come, and the first is in the
middle of its time slice. -/
private def withPeer : Scheduler :=
  ((Event.request (.spawn "peer" 31 none 0)).happen (Scheduler.start false 8)).state

private def withLow : Scheduler := ((Event.request (.spawn "low" 10 none 0)).happen withPeer).state

private def withOther : Scheduler :=
  ((Event.request (.spawn "other" 31 none 0)).happen withLow).state

private def crowded : Scheduler := ((Event.request (.tick 3)).happen withOther).state

/-- The first thread is replaced at the next tick, and runs again eight ticks later. -/
theorem Run.round_robin_crowded :
    crowded.turns = [1, 3, 5] ∧ crowded.behind = [4] ∧
      (times 1 timerInterrupt crowded).state.current = 3 ∧
      (times 8 timerInterrupt crowded).state.current = 5 ∧
      (times 9 timerInterrupt crowded).state.current = 1 := by
  have run : Run false 8 (fun s e _ => ¬e.QueuesIdle s) ∅ crowded := by
    have run₁ : Run false 8 (fun s e _ => ¬e.QueuesIdle s) ∅ withPeer :=
      Run.start.next (e := .request (.spawn "peer" 31 none 0)) (fun _ => by decide) rfl
        (unqueued id id)
    have run₂ : Run false 8 (fun s e _ => ¬e.QueuesIdle s) ∅ withLow :=
      run₁.next (e := .request (.spawn "low" 10 none 0)) (fun _ => by decide) rfl (unqueued id id)
    have run₃ : Run false 8 (fun s e _ => ¬e.QueuesIdle s) ∅ withOther :=
      run₂.next (e := .request (.spawn "other" 31 none 0)) (fun _ => by decide) rfl (unqueued id id)
    exact run₃.next (e := .request (.tick 3)) trivial rfl (unqueued id id)
  have leads : crowded.Leads := ⟨rfl, rfl, by decide, by decide⟩
  have turns : ∀ n, crowded.turns[(3 + n) / 4 % 3]? =
      some (times n timerInterrupt crowded).state.current :=
    fun n => (Run.round_robin (fun _ _ _ allowed => allowed) run leads n).2.2.1
  exact ⟨rfl, rfl, Option.some.inj (turns 1).symm, Option.some.inj (turns 8).symm,
    Option.some.inj (turns 9).symm⟩

/-- Behind a thread that leads the idle thread may have become ready, and then the end of the time
slice stops at the consistency check, although there is nobody to take turns with. -/
theorem idle_ready_ends_turns :
    Run false 4 (fun _ _ _ => True) (∅ \ {2}) roused ∧ roused.Leads ∧ roused.turns = [1] ∧
      (times 4 timerInterrupt roused).result = .error .idleReady :=
  ⟨roused_run, ⟨rfl, rfl, by decide, by decide⟩, rfl, rfl⟩

end Scheduler

end KernelCore
