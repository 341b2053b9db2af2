import KernelCore.Proofs.Scheduler.Histories
import KernelCore.Proofs.Scheduler.Masking

/-!
# Handlers

A handler runs on top of the thread it interrupts, with interrupts off. It cannot switch threads:
what would have to yield only notes that, and whoever was interrupted yields when the handler has
returned. Between one request and the next no handler runs and nothing is noted.
-/
namespace KernelCore.Scheduler

open Transition

/-- The states between one request and the next. -/
inductive Between (feedback : Bool) (capacity : Nat) : Scheduler → Prop
  | start : Between feedback capacity (start feedback capacity)
  | next {s : Scheduler} {r : Request} {reply : Reply} (between : Between feedback capacity s)
      (succeeds : (perform r s).result = .ok reply) :
      Between feedback capacity (perform r s).state

/-- The states in the handler of an interrupt that comes in a state, each with the requests that the
handler has made, the latest one first. -/
inductive Handling (s : Scheduler) : List Occurrence → Scheduler → Prop
  | enter {level : InterruptLevel} (enters : (enterHandler s).result = .ok level) :
      Handling s [] (enterHandler s).state
  | next {past : List Occurrence} {s₁ : Scheduler} {r : Request} {reply : Reply}
      (handling : Handling s past s₁) (succeeds : (perform r s₁).result = .ok reply) :
      Handling s (⟨s₁, .request r⟩ :: past) (perform r s₁).state

/-- The request has ended with a look for a thread to prefer. -/
def Request.Checks (s : Scheduler) : Request → Reply → Prop
  | .spawn _ _ _ _, .tid _ => True
  | .setPriority _, _ => s.feedback = false
  | .preemptCheck, _ | .setNice _, _ | .up _, _ | .release _, _ => True
  | _, _ => False

/-- A look for a thread to prefer has found one. -/
def Occurrence.Found (o : Occurrence) : Prop :=
  ∃ r reply, o.event = .request r ∧ (perform r o.before).result = .ok reply ∧
    r.Checks o.before reply ∧ (perform r o.before).state.Prefers

/-- The state when the handler has returned and nobody has yielded. -/
def returned (s : Scheduler) (level : InterruptLevel) : Scheduler :=
  { s with inHandler := false, yieldOnReturn := false, interrupts := level }

/-- A handler runs on top of the thread that ran when the interrupt came. -/
structure Suspended (s s' : Scheduler) : Prop where
  current : s'.current = s.current
  switches : s'.switches = s.switches
  interrupts : s'.interrupts = .off
  inHandler : s'.inHandler = true

/-- The interrupted thread has gone on, or yielded once if that was due. -/
structure Returns (due : Prop) (s s₁ s' : Scheduler) : Prop where
  inHandler : s'.inHandler = false
  settled : s'.yieldOnReturn = false
  interrupts : s'.interrupts = s.interrupts
  decision : due ∧ Yielded (s₁.returned s.interrupts) s' ∨ ¬due ∧ s' = s₁.returned s.interrupts

/-! ## In a handler -/

/-- What a handler must leave alone, and what it has noted. -/
def poise (s : Scheduler) : Tid × Nat × Nat × Bool × Bool :=
  (s.current, s.switches, s.sliceTicks, s.inHandler, s.yieldOnReturn)

/-- Nothing has been decided, and yielding is due if it was or if a thread to prefer was found. -/
structure Deferred (found : Prop) (s s' : Scheduler) : Prop where
  current : s'.current = s.current
  switches : s'.switches = s.switches
  sliceTicks : s'.sliceTicks = s.sliceTicks
  inHandler : s'.inHandler = s.inHandler
  due : s'.yieldOnReturn = true ↔ s.yieldOnReturn = true ∨ found

section

variable {s s' : Scheduler}

theorem poise_alone {p : Part} (handler : p ≠ .handler) (processor : p ≠ .processor)
    (alone : p.Alone s s') : s'.poise = s.poise := by
  cases p with
  | handler => exact absurd rfl handler
  | processor => exact absurd rfl processor
  | threads =>
    have same := congrArg poise alone.rest
    exact same
  | _ =>
    have same := congrArg poise alone
    exact same

instance : Ignores poise .threads := ⟨poise_alone (by simp) (by simp)⟩
instance : Ignores poise .interrupts := ⟨poise_alone (by simp) (by simp)⟩
instance : Ignores poise .population := ⟨poise_alone (by simp) (by simp)⟩
instance : Ignores poise .numbers := ⟨poise_alone (by simp) (by simp)⟩
instance : Ignores poise .locks := ⟨poise_alone (by simp) (by simp)⟩
instance : Ignores poise .semaphores := ⟨poise_alone (by simp) (by simp)⟩
instance : Ignores poise .condvars := ⟨poise_alone (by simp) (by simp)⟩

theorem Deferred.of_poise {found : Prop} (same : s'.poise = s.poise) (none : ¬found) :
    Deferred found s s' := by
  simp only [poise, Prod.mk.injEq] at same
  obtain ⟨current, switches, sliceTicks, inHandler, due⟩ := same
  exact ⟨current, switches, sliceTicks, inHandler, by simp [due, none]⟩

theorem Deferred.after {s₁ : Scheduler} {found : Prop} (same : s₁.poise = s.poise)
    (h : Deferred found s₁ s') : Deferred found s s' := by
  simp only [poise, Prod.mk.injEq] at same
  obtain ⟨current, switches, sliceTicks, inHandler, due⟩ := same
  exact ⟨h.current.trans current, h.switches.trans switches, h.sliceTicks.trans sliceTicks,
    h.inHandler.trans inHandler, due ▸ h.due⟩

end

section

variable {α : Type} {s : Scheduler}

/-- What must not be done in a handler is not done. -/
theorem refused_inside {v : Violation} {next : Scheduler → Unit → Scheduling α}
    (inside : s.inHandler = true) : (get >>= fun s => ensure (s.inHandler = false) v >>= next s).Ends s
      (fun _ _ => False) fun _ _ => True := by
  rw [ends_bind, ends_get, ends_bind, ends_ensure]
  exact ⟨fun outside => absurd outside (by simp [inside]), fun _ => trivial⟩

/-- In a handler the operation ends with a look for a thread to prefer. -/
def Looks (op : Scheduling Unit) : Prop := ∀ s, s.inHandler = true →
  op.Ends s (fun _ s' => Deferred s'.Prefers s s') fun _ _ => True

theorem preemptCheck_looks : Looks preemptCheck := by
  intro s inside
  refine preemptCheck_decides.imp fun _ s' decided => ?_
  rcases decided with ⟨none, rfl⟩ | ⟨prefers, ⟨-, rfl⟩ | yielded⟩
  · exact .of_poise rfl none
  · exact ⟨rfl, rfl, rfl, rfl, iff_of_true rfl (.inr prefers)⟩
  · have outside := yielded.1
    simp [inside] at outside

theorem Looks.bind {op : Scheduling α} {next : α → Scheduling Unit} (kept : Preserves poise op)
    (rest : ∀ a, Looks (next a)) : Looks (op >>= next) := by
  intro s inside
  rw [ends_bind]
  refine ends_of_preserves kept fun a s₁ same => ?_
  have inside₁ : s₁.inHandler = true := (congrArg (fun x => x.2.2.2.1) same).trans inside
  exact (rest a s₁ inside₁).imp fun _ s' noted => noted.after same

theorem close_looks {level : InterruptLevel} : Looks (do let _ ← setInterrupts level; preemptCheck) :=
  .bind preserves_setInterrupts fun _ => preemptCheck_looks

theorem restore_looks {level : InterruptLevel} : Looks (do restoreInterrupts level; preemptCheck) :=
  .bind preserves_restoreInterrupts fun _ => preemptCheck_looks

theorem up_looks {i : SemaphoreId} : Looks (up i) := by
  refine .bind preserves_disableInterrupts fun level =>
    .bind (preserves_modifyGet .semaphores fun _ => rfl) fun next => ?_
  have unit : Preserves poise (addUnit i) :=
    .bind .get fun _ => .bind .ensure fun _ => preserves_modify .semaphores fun _ => rfl
  cases next with
  | none => exact .bind unit fun _ => close_looks
  | some w =>
    exact .bind preserves_replaceThread fun _ => .bind preserves_unblock fun _ => close_looks

theorem release_looks {l : LockId} : Looks (release l) :=
  .bind .get fun _ => .bind .ensure fun _ => .bind preserves_disableInterrupts fun _ =>
    .bind preserves_handOver fun _ => close_looks

theorem setNice_looks {nice : Int} : Looks (setNice nice) := by
  refine .bind preserves_disableInterrupts fun _ => .bind .get fun s =>
    .bind preserves_replaceThread fun _ => ?_
  split
  · exact .bind preserves_thread fun _ => .bind preserves_arithmetic fun _ =>
      .bind preserves_replaceThread fun _ => restore_looks
  · exact restore_looks

theorem setPriority_inside {priority : Int} (inside : s.inHandler = true) :
    (setPriority priority).Ends s (fun _ s' => Deferred (s.feedback = false ∧ s'.Prefers) s s')
      fun _ _ => True := by
  unfold setPriority
  rw [ends_bind, ends_get, ends_ite]
  constructor
  · intro feedback
    exact ends_of_preserves .emit fun _ _ same => .of_poise same (by simp [feedback])
  · intro priorities
    have looks : Looks (do
        let level ← disableInterrupts
        updateThread s.current fun th => { th with basePriority := clampPriority priority }
        let _ ← refreshPriority s.current
        restoreInterrupts level
        preemptCheck) :=
      .bind preserves_disableInterrupts fun _ => .bind preserves_replaceThread fun _ =>
        .bind preserves_refreshPriority fun _ => restore_looks
    exact (looks s inside).imp fun _ _ noted => by simpa [priorities] using noted

theorem externalInterrupt_stops {handler : Scheduling α} (inside : s.inHandler = true) :
    (externalInterrupt handler).Ends s (fun _ _ => False) fun _ _ => True := by
  rw [externalInterrupt, ends_bind]
  exact (refused_inside inside).imp fun _ _ => False.elim

/-- There is no sleep in a handler, unless the time to wake up has passed. -/
theorem sleepUntil_inside {wakeTick : Nat} (inside : s.inHandler = true) :
    (sleepUntil wakeTick).Ends s (fun _ s' => s' = s) fun _ _ => True := by
  unfold sleepUntil
  rw [ends_bind, ends_get, ends_ite]
  refine ⟨fun _ => rfl, fun _ => ?_⟩
  rw [ends_bind, ends_ensure]
  exact ⟨fun outside => absurd outside (by simp [inside]), fun _ => trivial⟩

theorem sleep_inside {ticks : Int} (inside : s.inHandler = true) :
    (sleep ticks).Ends s (fun _ s' => s' = s) fun _ _ => True := by
  unfold sleep
  rw [ends_bind, ends_get, ends_ite]
  exact ⟨fun _ => rfl, fun _ => sleepUntil_inside inside⟩

theorem spawn_inside {name : String} {priority : Int} {space : Option SpaceId} {argument : Nat}
    (inside : s.inHandler = true) : (spawn name priority argument space).Ends s (fun result s' =>
      (∀ e, result = .error e → s'.poise = s.poise) ∧
        ∀ t, result = .ok t → Deferred s'.Prefers s s') fun _ _ => True := by
  unfold spawn
  rw [ends_bind]
  refine ends_of_preserves (f := poise) preserves_reserve fun reserved s₁ same₁ => ?_
  cases reserved with
  | error e => exact ⟨fun _ _ => same₁, by simp⟩
  | ok t =>
    rw [ends_bind]
    refine ends_of_preserves (f := poise) preserves_prepare fun th s₂ same₂ => ?_
    rw [ends_bind, ends_emit, ends_bind, ends_modify, ends_bind]
    refine ends_of_preserves (f := poise) preserves_unblock fun _ s₃ same₃ => ?_
    have same : s₃.poise = s.poise := same₃.trans (same₂.trans same₁)
    have inside₃ : s₃.inHandler = true := (congrArg (fun x => x.2.2.2.1) same).trans inside
    rw [ends_bind]
    refine (preemptCheck_looks s₃ inside₃).imp fun _ s' noted => ?_
    exact ⟨by simp, fun _ _ => noted.after same⟩

end

section

variable {s : Scheduler} {r : Request}

/-- A decision is not taken, but noted if it is due when the request is done. -/
def Request.Defers (r : Request) (s : Scheduler) (op : Scheduling Reply) : Prop :=
  op.Ends s (fun reply s' => Deferred (r.Checks s reply ∧ s'.Prefers) s s') fun _ _ => True

namespace Request.Defers

variable {op : Scheduling Reply}

theorem of_poise (kept : Preserves poise op) (unchecked : ∀ reply, ¬r.Checks s reply) :
    r.Defers s op :=
  ends_of_preserves kept fun reply _ same => .of_poise same fun both => unchecked reply both.1

theorem of_stops {α : Type} {op : Scheduling α} {reply : α → Scheduling Reply}
    (stops : op.Ends s (fun _ _ => False) fun _ _ => True) : r.Defers s (op >>= reply) :=
  ends_bind.mpr (stops.imp fun _ _ => False.elim)

theorem of_looks {op : Scheduling Unit} (inside : s.inHandler = true) (checked : r.Checks s .done)
    (looks : Looks op) : r.Defers s (op >>= fun _ => pure .done) :=
  ends_bind.mpr ((looks s inside).imp fun _ _ noted => by simpa [checked] using noted)

theorem lockNumbered {n : Nat} {next : LockId → Scheduling Reply}
    (rest : ∀ l, r.Defers s (next l)) : r.Defers s (lockNumbered n >>= next) := by
  unfold Defers
  exact ends_lockNumbered (F := fun _ => True) (fun _ _ => trivial) fun _ => rest _

theorem semaphoreNumbered {n : Nat} {next : SemaphoreId → Scheduling Reply}
    (rest : ∀ i, r.Defers s (next i)) : r.Defers s (semaphoreNumbered n >>= next) := by
  unfold Defers
  exact ends_semaphoreNumbered (F := fun _ => True) (fun _ _ => trivial) fun _ => rest _

end Request.Defers

/-- What a handler asks for is done without a decision, or stops. -/
theorem perform_inside (inside : s.inHandler = true) : r.Defers s (perform r) := by
  have quiet : Preserves poise (perform r) → (∀ reply, ¬r.Checks s reply) →
      r.Defers s (perform r) := .of_poise
  have plain : ∀ {α : Type} {op : Scheduling α} {reply : α → Reply}, Preserves poise op →
    Preserves poise (op >>= fun a => pure (reply a)) := fun kept => .bind kept fun _ => .pure
  cases r with
  | spawn name priority space argument =>
    refine ends_bind.mpr ((spawn_inside inside).imp fun result s' noted => ?_)
    cases result with
    | error e => exact .of_poise (noted.1 e rfl) fun both => both.1
    | ok t =>
      rw [ends_pure]
      simpa [Request.Checks] using noted.2 t rfl
  | tick count =>
    cases count with
    | zero => exact .of_poise .pure fun _ => id
    | succ count =>
      apply Request.Defers.of_stops
      rw [times_succ, ends_bind]
      exact (externalInterrupt_stops inside).imp fun _ _ => False.elim
  | interrupt handler =>
    rw [perform]
    exact .of_stops (externalInterrupt_stops inside)
  | block => exact .of_stops (refused_inside inside)
  | yield => exact .of_stops (refused_inside inside)
  | exit status => exact .of_stops (refused_inside inside)
  | acquire l => exact .lockNumbered fun _ => .of_stops (refused_inside inside)
  | down i => exact .semaphoreNumbered fun _ => .of_stops (refused_inside inside)
  | wait c l =>
    refine ends_condvarNumbered (F := fun _ => True) (fun _ _ => trivial) fun _ => ?_
    exact Request.Defers.lockNumbered fun _ => .of_stops (refused_inside inside)
  | enableInterrupts => exact .of_stops (refused_inside inside)
  | setInterrupts level =>
    cases level with
    | on => exact .of_stops (refused_inside inside)
    | off => exact quiet (plain preserves_disableInterrupts) fun _ => id
  | sleep ticks =>
    exact ends_bind.mpr ((sleep_inside inside).imp fun _ s' same => same ▸ .of_poise rfl And.left)
  | sleepUntil tick =>
    exact ends_bind.mpr ((sleepUntil_inside inside).imp fun _ s' same => same ▸ .of_poise rfl And.left)
  | preemptCheck => exact .of_looks inside trivial preemptCheck_looks
  | setNice nice => exact .of_looks inside trivial setNice_looks
  | setPriority priority => exact ends_bind.mpr ((setPriority_inside inside).imp fun _ _ => id)
  | up i => exact .semaphoreNumbered fun _ => .of_looks inside trivial up_looks
  | release l => exact .lockNumbered fun _ => .of_looks inside trivial release_looks
  | unblock t => exact quiet (plain preserves_unblock) fun _ => id
  | check => exact quiet (plain preserves_assertConsistent) fun _ => id
  | disableInterrupts => exact quiet (plain preserves_disableInterrupts) fun _ => id
  | elapsed since => exact quiet .gets fun _ => id
  | exitStatus t => exact quiet .gets fun _ => id
  | describe t => exact quiet .gets fun _ => id
  | logTickCounts => exact quiet (plain (.bind .get fun _ => .emit)) fun _ => id
  | query => exact quiet (plain preserves_summarize) fun _ => id
  | holds l => exact quiet (.bind preserves_lockNumbered fun _ => .gets) fun _ => id
  | tryAcquire l =>
    exact quiet (.bind preserves_lockNumbered fun _ => plain preserves_tryAcquire) fun _ => id
  | tryDown i =>
    exact quiet (.bind preserves_semaphoreNumbered fun _ => plain preserves_tryDown) fun _ => id
  | newLock => exact quiet (plain (preserves_modifyGet .locks fun _ => rfl)) fun _ => id
  | newSemaphore value => exact quiet (plain (preserves_modifyGet .semaphores fun _ => rfl)) fun _ => id
  | newCondvar => exact quiet (plain (preserves_modifyGet .condvars fun _ => rfl)) fun _ => id
  | signal c l =>
    exact quiet (.bind preserves_condvarNumbered fun _ => .bind preserves_lockNumbered fun _ =>
      plain preserves_signal) fun _ => id
  | broadcast c l =>
    exact quiet (.bind preserves_condvarNumbered fun _ => .bind preserves_lockNumbered fun _ =>
      plain preserves_broadcast) fun _ => id
  | setSpace t space =>
    refine quiet (.bind preserves_setSpace fun result => ?_) fun _ => id
    cases result <;> exact .pure

/-- In a handler interrupts stay off. -/
theorem perform_tidy_inside : Moves (Tidy true .off) (perform r) (Tidy true .off) := by
  have allowed : true = true → InterruptLevel.off = .off := fun _ => rfl
  have off : Moves (Tidy true .off) (disableInterrupts >>= fun l => pure (Reply.level l)) (Tidy true .off) :=
    masked .pure
  cases r with
  | tick count =>
    refine .bind (.times (.of_stops fun s begun => ?_) count) fun _ => .pure
    exact externalInterrupt_stops begun.inHandler
  | interrupt handler =>
    intro s begun
    rw [perform, ends_bind]
    exact (externalInterrupt_stops begun.inHandler).imp fun _ _ => False.elim
  | disableInterrupts => exact off
  | enableInterrupts =>
    exact fun s begun => ends_bind.mpr ((refused_inside begun.inHandler).imp fun _ _ => False.elim)
  | setInterrupts level =>
    cases level with
    | on => exact fun s begun => ends_bind.mpr ((refused_inside begun.inHandler).imp fun _ _ => False.elim)
    | off => exact off
  | _ => exact perform_tidy allowed id id

end

/-! ## The way in and the way out -/

section

variable {s s' : Scheduler} {level : InterruptLevel}

theorem enterHandler_exact : enterHandler.Ends s (fun l s' => l = s.interrupts ∧ s.inHandler = false ∧
    s' = { s with interrupts := .off, inHandler := true }) fun _ _ => True := by
  unfold enterHandler disableInterrupts
  rw [ends_bind, ends_get, ends_bind, ends_ensure]
  refine ⟨fun outside => ?_, fun _ => trivial⟩
  rw [ends_bind, ends_modifyGet, ends_bind, ends_modify]
  exact ⟨rfl, outside, rfl⟩

/-- A handler that returns leaves the interrupted thread running, or one decision behind. -/
theorem leaveHandler_exact (off : s.interrupts = .off) : (leaveHandler level).Ends s (fun _ s' =>
    s.yieldOnReturn = true ∧ Yielded (s.returned level) s' ∨
    s.yieldOnReturn = false ∧ s' = s.returned level) fun _ _ => True := by
  unfold leaveHandler
  rw [ends_bind, ends_modify, ends_bind, ends_get, ends_ite]
  constructor
  · intro due
    rw [ends_bind, ends_modify, ends_bind]
    refine yield_decides.imp fun _ s₁ yielded => ?_
    obtain ⟨outside, s₂, decision, rfl⟩ := yielded
    have same : (s.returned level).gaveWay =
        gaveWay { s with inHandler := false, yieldOnReturn := false } := by
      unfold gaveWay
      rfl
    have outside₂ : s₂.inHandler = false := by
      rw [decision.rest, gaveWay_rest]
    refine (restoreInterrupts_exact (s := { s₂ with interrupts := s.interrupts }) off outside₂).imp ?_
    intro _ s' back
    refine .inl ⟨due, rfl, s₂, ?_, back⟩
    rw [same]
    exact decision
  · intro quiet
    have quiet : s.yieldOnReturn = false := Bool.eq_false_iff.mpr quiet
    refine (restoreInterrupts_exact (s := { s with inHandler := false }) off rfl).imp ?_
    intro _ s' back
    refine .inr ⟨quiet, ?_⟩
    rw [back, returned, ← quiet]

/-- The handler has made its requests one after the other. -/
theorem performAll_handles {past : List Occurrence} {s₁ : Scheduler} (handling : Handling s past s₁)
    (handler : List Request) : (performAll handler).Ends s₁ (fun _ s₂ => ∃ more,
      Handling s (more ++ past) s₂ ∧ more.reverse.map Occurrence.event = handler.map .request)
      fun _ _ => True := by
  induction handler generalizing past s₁ with
  | nil => exact ⟨[], handling, rfl⟩
  | cons r rest ih =>
    rw [performAll, ends_bind]
    refine (Ends.self.mono (fun _ _ h => h) fun _ _ _ => trivial).imp fun reply s₂ performed => ?_
    obtain ⟨succeeds, rfl⟩ := performed
    rw [ends_bind, ends_gets, ends_bind]
    refine (ih (handling.next succeeds)).imp fun steps s₃ done => ?_
    obtain ⟨more, handling₃, same⟩ := done
    rw [ends_pure]
    refine ⟨more ++ [⟨s₁, .request r⟩], ?_, by simp [same]⟩
    rw [List.append_assoc]
    exact handling₃

theorem Handling.inside {level : InterruptLevel} {past : List Occurrence} {s₁ : Scheduler}
    (h : Handling s past s₁) (tidy : Tidy false level s) :
    Tidy true .off s₁ ∧ s₁.current = s.current ∧ s₁.switches = s.switches ∧
      (s₁.yieldOnReturn = true ↔ ∃ o ∈ past, o.Found) := by
  induction h with
  | enter enters =>
    obtain ⟨-, -, same⟩ := enterHandler_exact.of_ok enters
    rw [same]
    refine ⟨⟨rfl, rfl, nofun, tidy.slice⟩, rfl, rfl, ?_⟩
    simp [tidy.settled rfl]
  | next handling succeeds ih =>
    rename_i past s₁ r reply
    obtain ⟨inside, current, switches, due⟩ := ih
    have noted := (perform_inside inside.inHandler).of_ok succeeds
    refine ⟨(perform_tidy_inside s₁ inside).of_ok succeeds, noted.current.trans current,
      noted.switches.trans switches, ?_⟩
    have found : Occurrence.Found ⟨s₁, .request r⟩ ↔
        r.Checks s₁ reply ∧ (perform r s₁).state.Prefers := by
      constructor
      · rintro ⟨r', reply', same, succeeds', checked, prefers⟩
        obtain rfl := Event.request.inj same
        obtain rfl := Except.ok.inj (succeeds.symm.trans succeeds')
        exact ⟨checked, prefers⟩
      · rintro ⟨checked, prefers⟩
        exact ⟨r, reply, rfl, succeeds, checked, prefers⟩
    rw [noted.due, due, ← found]
    simp [or_comm]

end

/-! ## The timer -/

/-- What the timer interrupt does, one thing after the other. -/
def timerSteps : List (Scheduling Unit) :=
  [modify fun s => { s with ticks := s.ticks + 1 },
    accountTick,
    do
      let s ← get
      if s.feedback then feedbackTick else pure (),
    useSlice, wakeSleepers, preemptCheck]

/-- The handler is on its way, on top of the thread that ran when it was entered. -/
structure Riding (s₀ s : Scheduler) : Prop where
  tidy : Tidy true .off s
  current : s.current = s₀.current
  switches : s.switches = s₀.switches

section

variable {s s₀ : Scheduler}

theorem timerHandler_steps : timerHandler = forAll (fun step => step) timerSteps := by
  have last : (preemptCheck >>= fun _ => Transition.pure ()) = preemptCheck := bind_pure_unit
  simp only [timerHandler, timerSteps, forAll_cons, forAll_nil, bind_assoc, last]
  refine bind_congr fun _ => bind_congr fun _ => bind_congr fun s => ?_
  split <;> rfl

theorem riding_of_poised {op : Scheduling Unit} (tidy : Moves (Tidy true .off) op (Tidy true .off))
    (kept : Preserves poise op) : Moves (Riding s₀) op (Riding s₀) := by
  intro s riding
  refine ((tidy s riding.tidy).and (kept.ends s)).mono (fun _ s' both => ?_) fun _ _ _ => trivial
  obtain ⟨tidy', same⟩ := both
  simp only [poise, Prod.mk.injEq] at same
  exact ⟨tidy', same.1.trans riding.current, same.2.1.trans riding.switches⟩

theorem timerSteps_ride : ∀ step ∈ timerSteps, Moves (Riding s₀) step (Riding s₀) := by
  have desked : ∀ {op : Scheduling Unit}, Preserves desk op → Moves (Tidy true .off) op (Tidy true .off) :=
    tidy_of_preserves
  intro step mem
  simp only [timerSteps, List.mem_cons, List.not_mem_nil, or_false] at mem
  rcases mem with rfl | rfl | rfl | rfl | rfl | rfl
  · exact riding_of_poised (desked (preserves_clock fun _ => rfl)) (preserves_clock fun _ => rfl)
  · exact riding_of_poised (desked preserves_accountTick) preserves_accountTick
  · exact riding_of_poised (desked (.bind .get fun _ => .ite preserves_feedbackTick .pure))
      (.bind .get fun _ => .ite preserves_feedbackTick .pure)
  · intro s riding
    unfold useSlice
    rw [ends_modify]
    dsimp only
    refine ⟨{ riding.tidy with settled := nofun, slice := ?_ }, riding.current, riding.switches⟩
    rcases Nat.lt_or_ge (s.sliceTicks + 1) timeSlice with left | used
    · exact .inr left
    · exact .inl (by simp [used])
  · exact riding_of_poised (wakeSleepers_tidy fun _ => rfl) preserves_wakeSleepers
  · intro s riding
    refine ((preemptCheck_tidy (fun _ => rfl) s riding.tidy).and
      (preemptCheck_looks s riding.tidy.inHandler)).mono (fun _ s' both => ?_) fun _ _ _ => trivial
    exact ⟨both.1, both.2.current.trans riding.current, both.2.switches.trans riding.switches⟩

/-- The timer asks to yield if the time slice is used up, or if there is a thread to prefer. -/
theorem timerHandler_due (inside : s.inHandler = true) (settled : s.yieldOnReturn = false) :
    timerHandler.Ends s (fun _ s' =>
      s'.yieldOnReturn = true ↔ timeSlice ≤ s.sliceTicks + 1 ∨ s'.Prefers) fun _ _ => True := by
  have rest : ∀ s₁ : Scheduler, s₁.poise = s.poise → (do
      useSlice
      wakeSleepers
      preemptCheck : Scheduling Unit).Ends s₁ (fun _ s' =>
        s'.yieldOnReturn = true ↔ timeSlice ≤ s.sliceTicks + 1 ∨ s'.Prefers) fun _ _ => True := by
    intro s₁ same
    simp only [poise, Prod.mk.injEq] at same
    obtain ⟨-, -, sliceTicks, inHandler, due⟩ := same
    have looks : Looks (wakeSleepers >>= fun _ => preemptCheck) :=
      .bind preserves_wakeSleepers fun _ => preemptCheck_looks
    unfold useSlice
    rw [ends_bind, ends_modify]
    have inside₁ : s₁.inHandler = true := inHandler.trans inside
    refine Ends.imp (looks { s₁ with
      sliceTicks := s₁.sliceTicks + 1
      yieldOnReturn := s₁.yieldOnReturn || timeSlice ≤ s₁.sliceTicks + 1 } inside₁) fun _ s' noted => ?_
    rw [noted.due, due, settled, sliceTicks]
    simp
  unfold timerHandler
  rw [ends_bind, ends_modify, ends_bind]
  refine ends_of_preserves (f := poise) preserves_accountTick fun _ s₁ same₁ => ?_
  rw [ends_bind, ends_get, ends_ite]
  constructor
  · intro _
    rw [ends_bind]
    refine ends_of_preserves (f := poise) preserves_feedbackTick fun _ s₂ same₂ => ?_
    exact rest s₂ (same₂.trans same₁)
  · intro _
    exact rest s₁ same₁

end

/-! ## Interrupts -/

section

variable {α : Type} {s s₁ : Scheduler} {level : InterruptLevel}

theorem leaveHandler_returns {due : Prop} (off : s₁.interrupts = .off)
    (noted : s₁.yieldOnReturn = true ↔ due) :
    (leaveHandler s.interrupts).Ends s₁ (fun _ s' => Returns due s s₁ s') fun _ _ => True := by
  refine (leaveHandler_exact off).imp fun _ s' left => ?_
  rcases left with ⟨wanted, yielded⟩ | ⟨quiet, rfl⟩
  · have yielded' := yielded
    obtain ⟨-, s₂, decision, rfl⟩ := yielded'
    have settled : s₂.yieldOnReturn = false := by
      rw [decision.rest, gaveWay_rest]
      rfl
    have outside : s₂.inHandler = false := by
      rw [decision.rest, gaveWay_rest]
      rfl
    exact ⟨outside, settled, rfl, .inl ⟨noted.mp wanted, yielded⟩⟩
  · refine ⟨rfl, rfl, rfl, .inr ⟨fun wanted => ?_, rfl⟩⟩
    simp [noted.mpr wanted] at quiet

theorem Tidy.inside (h : Tidy false level s) : Tidy true .off { s with interrupts := .off, inHandler := true } :=
  ⟨rfl, rfl, nofun, h.slice⟩

/-- An interrupt up to the return of its handler. -/
def handled (handler : Scheduling α) : Scheduling α := do
  let _ ← enterHandler
  handler

theorem externalInterrupt_exact {handler : Scheduling α} :
    (externalInterrupt handler).Ends s (fun a s' => (handled handler s).result = .ok a ∧
      (leaveHandler s.interrupts (handled handler s).state).result = .ok () ∧
        s' = (leaveHandler s.interrupts (handled handler s).state).state) fun _ _ => True := by
  rw [externalInterrupt, ends_bind]
  refine (Ends.self.and enterHandler_exact).mono (fun l s₁ entered => ?_) fun _ _ _ => trivial
  obtain ⟨⟨enters, rfl⟩, rfl, -, -⟩ := entered
  have result : (handled handler s).result = (handler (enterHandler s).state).result := by
    rw [handled, bind_of_ok enters]
  have state : (handled handler s).state = (handler (enterHandler s).state).state := by
    rw [handled, bind_of_ok enters]
  rw [ends_bind, result, state]
  refine (Ends.self.mono (fun _ _ h => h) fun _ _ _ => trivial).imp fun a s₂ ran => ?_
  obtain ⟨runs, rfl⟩ := ran
  rw [ends_bind]
  refine (Ends.self.mono (fun _ _ h => h) fun _ _ _ => trivial).imp fun _ s₃ left => ?_
  rw [ends_pure]
  exact ⟨runs, left⟩

theorem interrupt_returns (tidy : Tidy false level s) (handler : List Request) :
    (perform (.interrupt handler)).Ends s (fun _ s' => ∃ past s₁, Handling s past s₁ ∧
      past.reverse.map Occurrence.event = handler.map .request ∧
        Returns (∃ o ∈ past, o.Found) s s₁ s') fun _ _ => True := by
  have handles : (handled (performAll handler)).Ends s (fun _ s₁ => ∃ past, Handling s past s₁ ∧
      past.reverse.map Occurrence.event = handler.map .request) fun _ _ => True := by
    rw [handled, ends_bind]
    refine (Ends.self.mono (fun _ _ h => h) fun _ _ _ => trivial).imp fun l s₁ entered => ?_
    obtain ⟨enters, rfl⟩ := entered
    refine (performAll_handles (.enter enters) handler).imp fun _ s₂ done => ?_
    simpa using done
  rw [perform, ends_bind]
  refine externalInterrupt_exact.imp fun steps s' exact => ?_
  obtain ⟨runs, leaves, rfl⟩ := exact
  obtain ⟨past, handling, same⟩ := handles.of_ok runs
  obtain ⟨inside, -, -, due⟩ := handling.inside tidy
  exact ⟨past, _, handling, same, (leaveHandler_returns inside.interrupts due).of_ok leaves⟩

/-- As far as it has come, the handler of the timer interrupt has only taken notes. -/
theorem timerSteps_inside (tidy : Tidy false level s) (done : Nat) :
    (handled (forAll (fun step => step) (timerSteps.take done))).Ends s (fun _ s₁ => Riding s s₁)
      fun _ _ => True := by
  rw [handled, ends_bind]
  refine enterHandler_exact.imp fun _ s₁ entered => ?_
  have riding : Riding s s₁ := entered.2.2 ▸ ⟨tidy.inside, rfl, rfl⟩
  exact Moves.forAll (fun step mem => timerSteps_ride step (List.mem_of_mem_take mem)) s₁ riding

/-- The timer interrupt returns like any other, and ends a time slice that is used up. -/
theorem timerInterrupt_returns (tidy : Tidy false level s) : timerInterrupt.Ends s (fun _ s' =>
    Returns (timeSlice ≤ s.sliceTicks + 1 ∨ (handled timerHandler s).state.Prefers) s
      (handled timerHandler s).state s') fun _ _ => True := by
  have handles : (handled timerHandler).Ends s (fun _ s₁ => s₁.interrupts = .off ∧
      (s₁.yieldOnReturn = true ↔ timeSlice ≤ s.sliceTicks + 1 ∨ s₁.Prefers)) fun _ _ => True := by
    have rides := timerSteps_inside tidy timerSteps.length
    rw [List.take_length, ← timerHandler_steps] at rides
    have due : (handled timerHandler).Ends s (fun _ s₁ =>
        s₁.yieldOnReturn = true ↔ timeSlice ≤ s.sliceTicks + 1 ∨ s₁.Prefers) fun _ _ => True := by
      rw [handled, ends_bind]
      refine enterHandler_exact.imp fun _ s₁ entered => ?_
      obtain ⟨-, -, rfl⟩ := entered
      exact timerHandler_due rfl (tidy.settled rfl)
    exact (rides.and due).mono (fun _ _ both => ⟨both.1.tidy.interrupts, both.2⟩) fun _ _ _ => trivial
  refine externalInterrupt_exact.imp fun _ s' exact => ?_
  obtain ⟨runs, leaves, rfl⟩ := exact
  obtain ⟨off, due⟩ := handles.of_ok runs
  exact (leaveHandler_returns off due).of_ok leaves

end

/-! ## Between requests -/

section

variable {α : Type} {level : InterruptLevel} {r : Request}

theorem leaveHandler_tidy : Moves (Tidy true .off) (leaveHandler level) (Tidy false level) := by
  intro s inside
  refine (leaveHandler_exact inside.interrupts).imp fun _ s' left => ?_
  rcases left with ⟨-, -, s₂, decision, rfl⟩ | ⟨quiet, rfl⟩
  · rw [decision.rest, gaveWay_rest]
    exact ⟨rfl, rfl, fun _ => rfl, .inr (show 0 < timeSlice by decide)⟩
  · have slice := inside.slice.resolve_left (by simp [quiet])
    exact ⟨rfl, rfl, fun _ => rfl, .inr slice⟩

theorem externalInterrupt_tidy {handler : Scheduling α}
    (inside : Moves (Tidy true .off) handler (Tidy true .off)) :
    Moves (Tidy false level) (externalInterrupt handler) (Tidy false level) := by
  intro s tidy
  have handles : (handled handler).Ends s (fun _ s₁ => Tidy true .off s₁) fun _ _ => True := by
    rw [handled, ends_bind]
    refine enterHandler_exact.imp fun _ s₁ entered => ?_
    obtain ⟨-, -, rfl⟩ := entered
    exact inside _ tidy.inside
  refine externalInterrupt_exact.imp fun a s' exact => ?_
  obtain ⟨runs, leaves, rfl⟩ := exact
  have left : Moves (Tidy true .off) (leaveHandler s.interrupts) (Tidy false s.interrupts) :=
    leaveHandler_tidy
  exact tidy.interrupts ▸ (left _ (handles.of_ok runs)).of_ok leaves

theorem performAll_tidy (handler : List Request) :
    Moves (Tidy true .off) (performAll handler) (Tidy true .off) := by
  induction handler with
  | nil => exact .pure
  | cons r rest ih =>
    rw [performAll]
    exact .bind perform_tidy_inside fun _ => .bind (tidy_of_preserves .gets) fun _ => .bind ih fun _ => .pure

theorem timerInterrupt_tidy : Moves (Tidy false level) timerInterrupt (Tidy false level) := by
  apply externalInterrupt_tidy
  intro s tidy
  rw [timerHandler_steps]
  exact (Moves.forAll (I := Riding s) timerSteps_ride s ⟨tidy, rfl, rfl⟩).imp fun _ _ riding => riding.tidy

theorem perform_tidy_outside (plain : ¬r.SetsLevel) :
    Moves (Tidy false level) (perform r) (Tidy false level) := by
  cases r with
  | tick count => exact .bind (.times timerInterrupt_tidy count) fun _ => .pure
  | interrupt handler =>
    rw [perform]
    exact .bind (externalInterrupt_tidy (performAll_tidy handler)) fun _ => .pure
  | disableInterrupts => exact absurd trivial plain
  | enableInterrupts => exact absurd trivial plain
  | setInterrupts level => exact absurd trivial plain
  | _ => exact perform_tidy (fun inside => absurd inside Bool.false_ne_true) plain id

/-- Outside handlers interrupts may be turned on and off. -/
theorem perform_tidy_anyhow : Moves (Tidy false level) (perform r) fun s => ∃ level, Tidy false level s := by
  intro s tidy
  have set : ∀ l, (setInterrupts l).Ends s (fun _ s' => Tidy false l s') fun _ _ => True := by
    intro l
    cases l with
    | off => exact { tidy with interrupts := rfl }
    | on =>
      simp only [setInterrupts, enableInterrupts, ends_bind, ends_get, ends_ensure, ends_modify, ends_pure]
      exact ⟨fun _ => { tidy with interrupts := rfl }, fun _ => trivial⟩
  by_cases plain : r.SetsLevel
  · cases r with
    | disableInterrupts => exact ends_bind.mpr ((set .off).imp fun _ _ tidy => ⟨.off, tidy⟩)
    | enableInterrupts => exact ends_bind.mpr ((set .on).imp fun _ _ tidy => ⟨.on, tidy⟩)
    | setInterrupts l => exact ends_bind.mpr ((set l).imp fun _ _ tidy => ⟨l, tidy⟩)
    | _ => exact absurd plain id
  · exact (perform_tidy_outside plain s tidy).imp fun _ _ tidy => ⟨level, tidy⟩

end

namespace Between

variable {feedback : Bool} {capacity : Nat} {s : Scheduler}

theorem tidy (between : Between feedback capacity s) : Tidy false s.interrupts s := by
  have some : ∃ level, Tidy false level s := by
    induction between with
    | start => exact ⟨.on, rfl, rfl, fun _ => rfl, .inr (show 0 < timeSlice by decide)⟩
    | next _ succeeds ih =>
      obtain ⟨level, tidy⟩ := ih
      exact (perform_tidy_anyhow _ tidy).of_ok succeeds
  obtain ⟨level, tidy⟩ := some
  rwa [tidy.interrupts]

/-- Between requests no handler runs, nobody has still to yield and the time slice is not used up.
A request that is not about interrupts leaves their level as it was. A handler runs on top of the
interrupted thread and with interrupts off, whatever it has asked for; when it returns the level is
what it was, and one decision has been taken if a check in the handler has found a thread to prefer,
and none otherwise. The timer is such a handler, and asks for a decision also if it ends a time
slice. -/
theorem interrupts_disciplined (between : Between feedback capacity s) :
    (s.inHandler = false ∧ s.yieldOnReturn = false ∧ s.sliceTicks < timeSlice) ∧
    (∀ r, ¬r.SetsLevel → (perform r).Ends s (fun _ s' => s'.interrupts = s.interrupts)
      fun _ _ => True) ∧
    (∀ past s₁, Handling s past s₁ → Suspended s s₁) ∧
    (∀ handler, (perform (.interrupt handler)).Ends s (fun _ s' => ∃ past s₁, Handling s past s₁ ∧
      past.reverse.map Occurrence.event = handler.map .request ∧
        Returns (∃ o ∈ past, o.Found) s s₁ s') fun _ _ => True) ∧
    (timerHandler = forAll (fun step => step) timerSteps) ∧
    (∀ done, (handled (forAll (fun step => step) (timerSteps.take done))).Ends s
      (fun _ s₁ => Suspended s s₁) fun _ _ => True) ∧
    timerInterrupt.Ends s (fun _ s' =>
      Returns (timeSlice ≤ s.sliceTicks + 1 ∨ (handled timerHandler s).state.Prefers) s
        (handled timerHandler s).state s') fun _ _ => True := by
  have tidy := between.tidy
  have settled : s.yieldOnReturn = false := tidy.settled rfl
  refine ⟨⟨tidy.inHandler, settled, tidy.slice.resolve_left (by simp [settled])⟩, ?_, ?_, ?_,
    timerHandler_steps, ?_, ?_⟩
  · intro r plain
    exact (perform_tidy_outside plain s tidy).imp fun _ _ tidy' => tidy'.interrupts
  · intro past s₁ handling
    obtain ⟨inside, current, switches, -⟩ := handling.inside tidy
    exact ⟨current, switches, inside.interrupts, inside.inHandler⟩
  · exact interrupt_returns tidy
  · intro done
    refine (timerSteps_inside tidy done).imp fun _ s₁ riding => ?_
    exact ⟨riding.current, riding.switches, riding.tidy.interrupts, riding.tidy.inHandler⟩
  · exact timerInterrupt_returns tidy

theorem contended_between : Between false 4 contended := by
  have between₁ : Between false 4 created := Between.start.next (r := .newLock) rfl
  have between₂ : Between false 4 locked := between₁.next (r := .acquire 0) rfl
  have between₃ : Between false 4 pressed := between₂.next (r := .spawn "urgent" 40 none 0) rfl
  exact between₃.next (r := .acquire 0) rfl

private theorem handedOver_succeeds :
    ∃ reply, (perform (.interrupt [.release 0]) contended).result = .ok reply := ⟨_, rfl⟩

private theorem handedOver_switches :
    (perform (.interrupt [.release 0]) contended).state.switches = contended.switches + 1 := rfl

/-- When a handler gives up the lock that a more urgent thread waits for, that thread runs when the
handler has returned, and not before. -/
theorem interrupts_disciplined_contended :
    contended.inHandler = false ∧ contended.sliceTicks < timeSlice ∧
      ∃ past s₁, Handling contended past s₁ ∧ Suspended contended s₁ ∧ (∃ o ∈ past, o.Found) ∧
        Yielded (s₁.returned contended.interrupts) (perform (.interrupt [.release 0]) contended).state := by
  have between := contended_between
  have succeeds := handedOver_succeeds
  have switched := handedOver_switches
  -- From here on it does not matter which state this is.
  generalize contended = s at between succeeds switched
  obtain ⟨⟨outside, -, slice⟩, -, suspended, interrupt, -⟩ := interrupts_disciplined between
  obtain ⟨reply, succeeds⟩ := succeeds
  obtain ⟨past, s₁, handling, -, returns⟩ := (interrupt [.release 0]).of_ok succeeds
  have same := suspended past s₁ handling
  refine ⟨outside, slice, past, s₁, handling, same, ?_⟩
  rcases returns.decision with yielded | ⟨-, left⟩
  · exact yielded
  · rw [left] at switched
    have stays : (s₁.returned s.interrupts).switches = s.switches := same.switches
    omega

end Between

end KernelCore.Scheduler
