import KernelCore.Proofs.Scheduler.Decisions

/-!
# The interrupt level

An operation that changes the queues turns interrupts off first and puts the level back that it
found, by one of two ways: one does nothing in a handler, the other must not be asked for more than
a handler may have. Operations call each other inside such stretches, and a decision may come in
between, but every one of them leaves the level it found.
-/
namespace KernelCore.Scheduler

open Transition

/-- Begun in a state with `I`, the operation leaves one with `J` whenever it yields a value. -/
def Moves {α : Type} (I : Scheduler → Prop) (t : Scheduling α) (J : Scheduler → Prop) : Prop :=
  ∀ s, I s → t.Ends s (fun _ s' => J s') fun _ _ => True

namespace Moves

variable {α β : Type} {I J K : Scheduler → Prop}

theorem pure {a : α} : Moves I (pure a : Scheduling α) I := fun _ begun => begun

theorem bind {t : Scheduling α} {next : α → Scheduling β} (first : Moves I t J)
    (rest : ∀ a, Moves J (next a) K) : Moves I (t >>= next) K := by
  intro s begun
  rw [ends_bind]
  exact (first s begun).imp fun a s₁ between => rest a s₁ between

theorem get {next : Scheduler → Scheduling α} (rest : ∀ s, I s → Moves I (next s) J) :
    Moves I (Transition.get >>= next) J := by
  intro s begun
  rw [ends_bind, ends_get]
  exact rest s begun s begun

theorem ensure {p : Prop} [Decidable p] {v : Violation} {next : Unit → Scheduling α}
    (rest : p → Moves I (next ()) J) : Moves I (Transition.ensure p v >>= next) J := by
  intro s begun
  rw [ends_bind, ends_ensure]
  exact ⟨fun holds => rest holds s begun, fun _ => trivial⟩

theorem ite {p : Prop} [Decidable p] {t u : Scheduling α} (yes : p → Moves I t J)
    (no : ¬p → Moves I u J) : Moves I (if p then t else u) J := by
  split
  · exact yes ‹_›
  · exact no ‹_›

theorem forAll {act : β → Scheduling Unit} :
    ∀ {xs : List β}, (∀ b ∈ xs, Moves I (act b) I) → Moves I (forAll act xs) I
  | [], _ => fun _ begun => begun
  | b :: _, h => .bind (h b List.mem_cons_self) fun _ =>
    forAll fun x mem => h x (List.mem_cons_of_mem b mem)

theorem times {t : Scheduling Unit} (h : Moves I t I) : ∀ n, Moves I (times n t) I
  | 0 => fun _ begun => begun
  | n + 1 => by
    rw [times_succ]
    exact .bind h fun _ => times h n

/-- What stops in every state with `I` leaves whatever one likes. -/
theorem of_stops {t : Scheduling α} (stops : ∀ s, I s → t.Ends s (fun _ _ => False) fun _ _ => True) :
    Moves I t J :=
  fun s begun => (stops s begun).imp fun _ _ => False.elim

end Moves

/-- What handlers and interrupts leave behind, and how much of the time slice is used. -/
def desk (s : Scheduler) : InterruptLevel × Bool × Bool × Nat :=
  (s.interrupts, s.inHandler, s.yieldOnReturn, s.sliceTicks)

/-- Interrupts are at the level, a handler runs or not, and if none does, nobody has still to yield
and the time slice is not used up. -/
structure Tidy (b : Bool) (level : InterruptLevel) (s : Scheduler) : Prop where
  interrupts : s.interrupts = level
  inHandler : s.inHandler = b
  settled : b = false → s.yieldOnReturn = false
  slice : s.yieldOnReturn = true ∨ s.sliceTicks < timeSlice

section

variable {s s' : Scheduler}

theorem desk_alone {p : Part} (interrupts : p ≠ .interrupts) (handler : p ≠ .handler)
    (processor : p ≠ .processor) (alone : p.Alone s s') : s'.desk = s.desk := by
  cases p with
  | interrupts => exact absurd rfl interrupts
  | handler => exact absurd rfl handler
  | processor => exact absurd rfl processor
  | threads =>
    have same := congrArg desk alone.rest
    exact same
  | _ =>
    have same := congrArg desk alone
    exact same

instance : Ignores desk .threads := ⟨desk_alone (by simp) (by simp) (by simp)⟩
instance : Ignores desk .population := ⟨desk_alone (by simp) (by simp) (by simp)⟩
instance : Ignores desk .numbers := ⟨desk_alone (by simp) (by simp) (by simp)⟩
instance : Ignores desk .locks := ⟨desk_alone (by simp) (by simp) (by simp)⟩
instance : Ignores desk .semaphores := ⟨desk_alone (by simp) (by simp) (by simp)⟩
instance : Ignores desk .condvars := ⟨desk_alone (by simp) (by simp) (by simp)⟩
instance : Ignores desk .statuses := ⟨desk_alone (by simp) (by simp) (by simp)⟩

theorem Tidy.of_desk {b : Bool} {level : InterruptLevel} (h : Tidy b level s)
    (same : s'.desk = s.desk) : Tidy b level s' := by
  simp only [desk, Prod.mk.injEq] at same
  obtain ⟨interrupts, inHandler, settled, slice⟩ := same
  exact ⟨interrupts.trans h.interrupts, inHandler.trans h.inHandler,
    fun outside => settled.trans (h.settled outside), settled ▸ slice ▸ h.slice⟩

end

/-! ## Stretches without interrupts -/

section

variable {α : Type} {b : Bool} {level : InterruptLevel} {t : Tid}

theorem tidy_of_preserves {op : Scheduling α} (kept : Preserves desk op) :
    Moves (Tidy b level) op (Tidy b level) :=
  fun _ begun => ends_of_preserves kept fun _ _ same => begun.of_desk same

/-- A stretch without interrupts ends with the level it began with. -/
theorem masked {next : InterruptLevel → Scheduling α}
    (rest : Moves (Tidy b .off) (next level) (Tidy b level)) :
    Moves (Tidy b level) (disableInterrupts >>= next) (Tidy b level) := by
  intro s begun
  unfold disableInterrupts
  rw [ends_bind, ends_modifyGet, begun.interrupts]
  exact rest _ { begun with interrupts := rfl }

variable (allowed : b = true → level = .off)

include allowed

theorem restoreInterrupts_tidy : Moves (Tidy b .off) (restoreInterrupts level) (Tidy b level) := by
  intro s begun
  unfold restoreInterrupts
  rw [ends_modify]
  cases level with
  | off => exact begun
  | on =>
    have outside : b = false := Bool.eq_false_iff.mpr fun inside => nomatch allowed inside
    rw [if_pos ⟨rfl, begun.inHandler.trans outside⟩]
    exact { begun with interrupts := rfl }

theorem setInterrupts_tidy : Moves (Tidy b .off) (setInterrupts level) (Tidy b level) := by
  intro s begun
  cases level with
  | off => exact { begun with interrupts := rfl }
  | on =>
    simp only [setInterrupts, enableInterrupts, ends_bind, ends_get, ends_ensure, ends_modify, ends_pure]
    exact ⟨fun _ => { begun with interrupts := rfl }, fun _ => trivial⟩

/-- An operation ends by setting the level it began with. -/
theorem close_tidy {a : α} :
    Moves (Tidy b .off) (do let _ ← setInterrupts level; pure a) (Tidy b level) :=
  .bind (setInterrupts_tidy allowed) fun _ => .pure

/-! ### Moving threads about -/

theorem unblock_tidy : Moves (Tidy b level) (unblock t) (Tidy b level) :=
  masked (.bind (tidy_of_preserves preserves_thread) fun _ => .ensure fun _ => .ensure fun _ =>
    .bind (tidy_of_preserves preserves_replaceThread) fun _ =>
      .bind (tidy_of_preserves preserves_pushReady) fun _ => restoreInterrupts_tidy allowed)

theorem wake_tidy : Moves (Tidy b level) (wake t) (Tidy b level) :=
  .bind (tidy_of_preserves preserves_replaceThread) fun _ => unblock_tidy allowed

theorem wakeSleepers_tidy : Moves (Tidy b level) wakeSleepers (Tidy b level) := by
  refine .get fun _ _ => .times (.get fun _ _ => ?_) _
  split
  · exact .pure
  · exact .bind (tidy_of_preserves (preserves_clock fun _ => rfl)) fun _ => wake_tidy allowed

theorem handOver_tidy {l : LockId} : Moves (Tidy b level) (handOver l t) (Tidy b level) := by
  refine .bind (tidy_of_preserves preserves_replaceThread) fun _ =>
    .bind (tidy_of_preserves (preserves_modifyGet .locks fun _ => rfl)) fun next =>
      .bind (tidy_of_preserves preserves_updateLock) fun _ => ?_
  have rest : Moves (Tidy b level) (do let _ ← refreshPriority t) (Tidy b level) :=
    .bind (tidy_of_preserves preserves_refreshPriority) fun _ => .pure
  cases next with
  | none => exact rest
  | some w =>
    exact .bind (tidy_of_preserves preserves_replaceThread) fun _ =>
      .bind (tidy_of_preserves preserves_refreshPriority) fun _ => .bind (unblock_tidy allowed) fun _ =>
        .bind (tidy_of_preserves .emit) fun _ => rest

theorem handOverAll_tidy : Moves (Tidy b level) (handOverAll t) (Tidy b level) := by
  refine .get fun s _ => ?_
  split
  · exact .pure
  · exact .forAll fun _ _ => handOver_tidy allowed

theorem tryAcquire_tidy {l : LockId} : Moves (Tidy b level) (tryAcquire l) (Tidy b level) :=
  .get fun _ _ => masked (.ite
    (fun _ => .bind (tidy_of_preserves preserves_take) fun _ => close_tidy allowed)
    fun _ => close_tidy allowed)

theorem tryDown_tidy {i : SemaphoreId} : Moves (Tidy b level) (tryDown i) (Tidy b level) :=
  .get fun _ _ => masked (.ite
    (fun _ => .bind (tidy_of_preserves (preserves_modify .semaphores fun _ => rfl)) fun _ =>
      close_tidy allowed)
    fun _ => close_tidy allowed)

theorem signal_tidy {c : CondvarId} {l : LockId} :
    Moves (Tidy b level) (signal c l) (Tidy b level) := by
  refine .get fun _ _ => .ensure fun _ => masked
    (.bind (tidy_of_preserves (preserves_modifyGet .condvars fun _ => rfl)) fun next => ?_)
  cases next with
  | none => exact close_tidy allowed
  | some w => exact .bind (tidy_of_preserves preserves_moveToLock) fun _ => close_tidy allowed

/-! ### Decisions -/

omit allowed in
theorem schedule_tidy : Moves (Tidy b level) schedule (Tidy b level) := by
  intro s begun
  refine schedule_decides.imp fun _ s' decision => ?_
  rw [decision.rest]
  exact { begun with slice := .inr (show 0 < timeSlice by decide) }

omit allowed in
theorem block_tidy : Moves (Tidy b level) block (Tidy b level) :=
  .get fun _ _ => .ensure fun _ => .ensure fun _ =>
    .bind (tidy_of_preserves preserves_replaceThread) fun _ => schedule_tidy

theorem yield_tidy : Moves (Tidy b level) yield (Tidy b level) := by
  have rest : Moves (Tidy b .off) (schedule >>= fun _ => restoreInterrupts level) (Tidy b level) :=
    .bind schedule_tidy fun _ => restoreInterrupts_tidy allowed
  exact .get fun _ _ => .ensure fun _ => masked (.ite
    (fun _ => .bind (tidy_of_preserves preserves_replaceThread) fun _ => rest)
    fun _ => .bind (tidy_of_preserves preserves_replaceThread) fun _ =>
      .bind (tidy_of_preserves preserves_pushReady) fun _ => rest)

theorem preemptCheck_tidy : Moves (Tidy b level) preemptCheck (Tidy b level) := by
  refine .get fun s begun => ?_
  split
  · exact .pure
  · refine .ite (fun _ => .pure) fun _ => .ite (fun inside => ?_) fun _ => yield_tidy allowed
    intro s' begun'
    have handling : b ≠ false := by
      rw [← begun.inHandler, inside]
      simp
    exact { begun' with settled := fun outside => absurd outside handling, slice := .inl rfl }

theorem close_preempt_tidy :
    Moves (Tidy b .off) (do let _ ← setInterrupts level; preemptCheck) (Tidy b level) :=
  .bind (setInterrupts_tidy allowed) fun _ => preemptCheck_tidy allowed

theorem restore_preempt_tidy :
    Moves (Tidy b .off) (do restoreInterrupts level; preemptCheck) (Tidy b level) :=
  .bind (restoreInterrupts_tidy allowed) fun _ => preemptCheck_tidy allowed

theorem down_tidy {i : SemaphoreId} : Moves (Tidy b level) (down i) (Tidy b level) :=
  .get fun _ _ => .ensure fun _ => masked (.ite
    (fun _ => .bind (tidy_of_preserves (preserves_modify .semaphores fun _ => rfl)) fun _ =>
      .bind .pure fun _ => close_tidy allowed)
    fun _ => .bind (tidy_of_preserves .ofExcept) fun _ =>
      .bind (tidy_of_preserves (preserves_modify .semaphores fun _ => rfl)) fun _ =>
        .bind (tidy_of_preserves preserves_replaceThread) fun _ => .bind block_tidy fun _ =>
          .bind .pure fun _ => close_tidy allowed)

theorem up_tidy {i : SemaphoreId} : Moves (Tidy b level) (up i) (Tidy b level) := by
  refine masked
    (.bind (tidy_of_preserves (preserves_modifyGet .semaphores fun _ => rfl)) fun next => ?_)
  have allowed' : b = true → InterruptLevel.off = .off := fun _ => rfl
  cases next with
  | none =>
    exact .bind (.get fun _ _ => .ensure fun _ =>
      tidy_of_preserves (preserves_modify .semaphores fun _ => rfl)) fun _ => close_preempt_tidy allowed
  | some w =>
    exact .bind (tidy_of_preserves preserves_replaceThread) fun _ =>
      .bind (unblock_tidy allowed') fun _ => close_preempt_tidy allowed

theorem sleepUntil_tidy {wakeTick : Nat} : Moves (Tidy b level) (sleepUntil wakeTick) (Tidy b level) :=
  .get fun _ _ => .ite (fun _ => .pure) fun _ => .ensure fun _ => .ensure fun _ =>
    masked (.bind (tidy_of_preserves preserves_replaceThread) fun _ =>
      .bind (tidy_of_preserves (preserves_clock fun _ => rfl)) fun _ => .bind block_tidy fun _ =>
        restoreInterrupts_tidy allowed)

theorem sleep_tidy {ticks : Int} : Moves (Tidy b level) (sleep ticks) (Tidy b level) :=
  .get fun _ _ => .ite (fun _ => .pure) fun _ => sleepUntil_tidy allowed

theorem acquire_tidy {l : LockId} : Moves (Tidy b level) (acquire l) (Tidy b level) :=
  .get fun _ _ => .ensure fun _ => .ensure fun _ => masked (.ite
    (fun _ => .bind (tidy_of_preserves preserves_take) fun _ => .bind .pure fun _ => close_tidy allowed)
    fun _ => .bind (tidy_of_preserves preserves_replaceThread) fun _ =>
      .bind (tidy_of_preserves .ofExcept) fun _ => .bind (tidy_of_preserves preserves_updateLock) fun _ =>
        .bind (tidy_of_preserves preserves_propagatePriority) fun _ => .bind block_tidy fun _ =>
          .bind .pure fun _ => close_tidy allowed)

theorem release_tidy {l : LockId} : Moves (Tidy b level) (release l) (Tidy b level) :=
  .get fun _ _ => .ensure fun _ => masked (.bind (handOver_tidy fun _ => rfl) fun _ =>
    close_preempt_tidy allowed)

theorem wait_tidy {c : CondvarId} {l : LockId} : Moves (Tidy b level) (wait c l) (Tidy b level) :=
  .get fun _ _ => .ensure fun _ => .ensure fun _ => masked
    (.bind (handOver_tidy fun _ => rfl) fun _ => .bind (tidy_of_preserves .ofExcept) fun _ =>
      .bind (tidy_of_preserves (preserves_modify .condvars fun _ => rfl)) fun _ =>
        .bind (tidy_of_preserves preserves_replaceThread) fun _ => .bind block_tidy fun _ =>
          close_tidy allowed)

theorem setPriority_tidy {priority : Int} :
    Moves (Tidy b level) (setPriority priority) (Tidy b level) :=
  .get fun _ _ => .ite (fun _ => tidy_of_preserves .emit) fun _ =>
    masked (.bind (tidy_of_preserves preserves_replaceThread) fun _ =>
      .bind (tidy_of_preserves preserves_refreshPriority) fun _ => restore_preempt_tidy allowed)

theorem setNice_tidy {nice : Int} : Moves (Tidy b level) (setNice nice) (Tidy b level) :=
  masked (.get fun _ _ => .bind (tidy_of_preserves preserves_replaceThread) fun _ => .ite
    (fun _ => .bind (tidy_of_preserves preserves_thread) fun _ =>
      .bind (tidy_of_preserves preserves_arithmetic) fun _ =>
        .bind (tidy_of_preserves preserves_replaceThread) fun _ => restore_preempt_tidy allowed)
    fun _ => restore_preempt_tidy allowed)

theorem spawn_tidy {name : String} {priority : Int} {argument : Nat} {space : Option SpaceId} :
    Moves (Tidy b level) (spawn name priority argument space) (Tidy b level) := by
  refine .bind (tidy_of_preserves preserves_reserve) fun reserved => ?_
  split
  · exact .pure
  · exact .bind (tidy_of_preserves preserves_prepare) fun _ => .bind (tidy_of_preserves .emit) fun _ =>
      .bind (tidy_of_preserves (preserves_modify .population fun _ => rfl)) fun _ =>
        .bind (unblock_tidy allowed) fun _ => .bind (preemptCheck_tidy allowed) fun _ => .pure

theorem exit_tidy {status : Int} : Moves (Tidy b level) (exit status) (Tidy b level) :=
  .get fun _ _ => .ensure fun _ => .ensure fun _ => masked
    (.bind (handOverAll_tidy fun _ => rfl) fun _ =>
      .bind (tidy_of_preserves preserves_replaceThread) fun _ =>
        .bind (tidy_of_preserves preserves_thread) fun _ => .bind (tidy_of_preserves .emit) fun _ =>
          .bind (tidy_of_preserves (preserves_modify .statuses fun _ => rfl)) fun _ =>
            .bind schedule_tidy fun _ => restoreInterrupts_tidy allowed)

end

/-! ## Requests -/

/-- A request to turn interrupts on or off. -/
def Request.SetsLevel : Request → Prop
  | .disableInterrupts | .enableInterrupts | .setInterrupts _ => True
  | _ => False

/-- An interrupt comes. -/
def Request.Interrupts : Request → Prop
  | .tick _ | .interrupt _ => True
  | _ => False

section

variable {α : Type} {b : Bool} {level : InterruptLevel} {r : Request}

theorem perform_tidy (allowed : b = true → level = .off) (plain : ¬r.SetsLevel)
    (alone : ¬r.Interrupts) : Moves (Tidy b level) (perform r) (Tidy b level) := by
  have then_pure : ∀ {α : Type} {op : Scheduling α} {reply : α → Reply},
      Moves (Tidy b level) op (Tidy b level) →
        Moves (Tidy b level) (op >>= fun a => pure (reply a)) (Tidy b level) :=
    fun moves => .bind moves fun _ => .pure
  cases r with
  | tick count => exact absurd trivial alone
  | interrupt handler => exact absurd trivial alone
  | disableInterrupts => exact absurd trivial plain
  | enableInterrupts => exact absurd trivial plain
  | setInterrupts level => exact absurd trivial plain
  | spawn name priority space argument =>
    refine .bind (spawn_tidy allowed) fun result => ?_
    cases result <;> exact .pure
  | setSpace t space =>
    refine .bind (tidy_of_preserves preserves_setSpace) fun result => ?_
    cases result <;> exact .pure
  | block => exact then_pure block_tidy
  | unblock t => exact then_pure (unblock_tidy allowed)
  | yield => exact then_pure (yield_tidy allowed)
  | exit status => exact then_pure (exit_tidy allowed)
  | preemptCheck => exact then_pure (preemptCheck_tidy allowed)
  | sleep ticks => exact then_pure (sleep_tidy allowed)
  | sleepUntil tick => exact then_pure (sleepUntil_tidy allowed)
  | elapsed since => exact tidy_of_preserves .gets
  | setPriority priority => exact then_pure (setPriority_tidy allowed)
  | setNice nice => exact then_pure (setNice_tidy allowed)
  | query => exact then_pure (tidy_of_preserves preserves_summarize)
  | check => exact then_pure (tidy_of_preserves preserves_assertConsistent)
  | exitStatus t => exact tidy_of_preserves .gets
  | describe t => exact tidy_of_preserves .gets
  | logTickCounts => exact then_pure (tidy_of_preserves (.bind .get fun _ => .emit))
  | newLock => exact then_pure (tidy_of_preserves (preserves_modifyGet .locks fun _ => rfl))
  | acquire lock =>
    exact .bind (tidy_of_preserves preserves_lockNumbered) fun _ => then_pure (acquire_tidy allowed)
  | tryAcquire lock =>
    exact .bind (tidy_of_preserves preserves_lockNumbered) fun _ => then_pure (tryAcquire_tidy allowed)
  | release lock =>
    exact .bind (tidy_of_preserves preserves_lockNumbered) fun _ => then_pure (release_tidy allowed)
  | holds lock => exact .bind (tidy_of_preserves preserves_lockNumbered) fun _ => tidy_of_preserves .gets
  | newSemaphore value =>
    exact then_pure (tidy_of_preserves (preserves_modifyGet .semaphores fun _ => rfl))
  | down semaphore =>
    exact .bind (tidy_of_preserves preserves_semaphoreNumbered) fun _ => then_pure (down_tidy allowed)
  | tryDown semaphore =>
    exact .bind (tidy_of_preserves preserves_semaphoreNumbered) fun _ =>
      then_pure (tryDown_tidy allowed)
  | up semaphore =>
    exact .bind (tidy_of_preserves preserves_semaphoreNumbered) fun _ => then_pure (up_tidy allowed)
  | newCondvar => exact then_pure (tidy_of_preserves (preserves_modifyGet .condvars fun _ => rfl))
  | wait condvar lock =>
    exact .bind (tidy_of_preserves preserves_condvarNumbered) fun _ =>
      .bind (tidy_of_preserves preserves_lockNumbered) fun _ => then_pure (wait_tidy allowed)
  | signal condvar lock =>
    exact .bind (tidy_of_preserves preserves_condvarNumbered) fun _ =>
      .bind (tidy_of_preserves preserves_lockNumbered) fun _ => then_pure (signal_tidy allowed)
  | broadcast condvar lock =>
    exact .bind (tidy_of_preserves preserves_condvarNumbered) fun _ =>
      .bind (tidy_of_preserves preserves_lockNumbered) fun _ =>
        then_pure (.get fun _ _ => .times (signal_tidy allowed) _)

end

end KernelCore.Scheduler
