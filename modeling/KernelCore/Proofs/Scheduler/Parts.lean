import KernelCore.Proofs.Scheduler.Requests

/-!
# The parts of the state and who changes them

The state has parts that change for different reasons, and an operation changes only the parts it
is for. Nearly every operation moves threads about, but only a decision of the scheduler, or the
birth or exit of a thread, does more to them. A view of the state is left alone by every operation
all of whose parts it ignores.
-/
namespace KernelCore.Scheduler

open Transition

/-- Whether a thread has exited; nothing is said of a thread that does not exist. -/
def exited? (s : Scheduler) (t : Tid) : Option Bool :=
  (s.thread? t).map fun th => decide (th.state = .dying)

/-- Threads have been moved about, but nobody has come, gone, exited or returned, and nobody who has
exited has been made ready. -/
structure Stirred (s s' : Scheduler) : Prop where
  rest : s' =
    { s with
      threads := s'.threads
      ready := s'.ready
      sleepers := s'.sleepers
      loadAverage := s'.loadAverage
      ticks := s'.ticks
      tickCounts := s'.tickCounts }
  exited : s'.exited? = s.exited?
  ready : ∀ t, s.exited? t ≠ some false → (t ∈ s'.ready.tids ↔ t ∈ s.ready.tids)

inductive Part where
  /-- Where threads are, and the clock. -/
  | threads
  | interrupts
  /-- Whether a handler runs, and whether it has asked to yield. -/
  | handler
  /-- Which threads there are, and all that is known of them. -/
  | population
  /-- Who runs and since when, and who waits to be reclaimed. -/
  | processor
  /-- The numbers that are free. -/
  | numbers
  | locks
  | semaphores
  | condvars
  | statuses

/-- The states differ in the part alone. -/
def Part.Alone (s s' : Scheduler) : Part → Prop
  | threads => Stirred s s'
  | interrupts => s' = { s with interrupts := s'.interrupts }
  | handler => s' = { s with inHandler := s'.inHandler, yieldOnReturn := s'.yieldOnReturn }
  | population => s' = { s with threads := s'.threads, ready := s'.ready }
  | processor => s' =
    { s with
      current := s'.current
      dying := s'.dying
      sliceTicks := s'.sliceTicks
      switches := s'.switches }
  | numbers => s' = { s with allocator := s'.allocator }
  | locks => s' = { s with locks := s'.locks }
  | semaphores => s' = { s with semaphores := s'.semaphores }
  | condvars => s' = { s with condvars := s'.condvars }
  | statuses => s' = { s with exitStatuses := s'.exitStatuses }

/-- A view of the state that does not show a part of it. -/
class Ignores {γ : Type} (f : Scheduler → γ) (p : Part) : Prop where
  same : ∀ {s s' : Scheduler}, p.Alone s s' → f s' = f s

section

variable {α γ : Type} {f : Scheduler → γ}

/-- Only an ignored part is replaced. -/
theorem preserves_modify (p : Part) [Ignores f p] {g : Scheduler → Scheduler}
    (alone : ∀ s, p.Alone s (g s)) : Preserves f (modify g : Scheduling Unit) :=
  .modify fun s => Ignores.same (alone s)

theorem preserves_modifyGet (p : Part) [Ignores f p] {g : Scheduler → α × Scheduler}
    (alone : ∀ s, p.Alone s (g s).2) : Preserves f (modifyGet g : Scheduling α) :=
  fun s => Ignores.same (alone s)

/-- Of a step that leaves a view alone nothing else need be known. -/
theorem ends_of_preserves {t : Scheduling α} (kept : Preserves f t) {s : Scheduler}
    {Q : α → Scheduler → Prop} (next : ∀ a s', f s' = f s → Q a s') :
    t.Ends s Q fun _ _ => True :=
  (kept.ends s).mono (fun a s' same => next a s' same) fun _ _ _ => trivial

theorem preserves_updateLock [Ignores f .locks] {l : LockId} {g : LockState → LockState} :
    Preserves f (updateLock l g) :=
  preserves_modify .locks fun _ => rfl

/-! ## Looking -/

theorem preserves_thread {t : Tid} : Preserves f (thread t) := by
  intro s
  unfold thread
  split <;> rfl

theorem preserves_arithmetic {x : Except ArithmeticFault α} : Preserves f (arithmetic x) :=
  .ofExcept

theorem preserves_assertConsistent : Preserves f assertConsistent :=
  .bind .get fun _ => .ofExcept

theorem preserves_lockNumbered {n : Nat} : Preserves f (lockNumbered n) :=
  .bind .get fun _ => .bind .ensure fun _ => .pure

theorem preserves_semaphoreNumbered {n : Nat} : Preserves f (semaphoreNumbered n) :=
  .bind .get fun _ => .bind .ensure fun _ => .pure

theorem preserves_condvarNumbered {n : Nat} : Preserves f (condvarNumbered n) :=
  .bind .get fun _ => .bind .ensure fun _ => .pure

theorem preserves_summarize : Preserves f summarize :=
  .bind .get fun _ => .bind (.bind .get fun _ => preserves_thread) fun _ =>
    .bind (.bind .get fun _ => .bind preserves_thread fun _ => .pure) fun _ => .pure

theorem preserves_prepare {t : Tid} {name : String} {priority : Int} {argument : Nat}
    {space : Option SpaceId} : Preserves f (prepare t name priority argument space) :=
  .bind .get fun _ => .bind preserves_thread fun _ => .ite preserves_arithmetic .pure

theorem preserves_reserve [Ignores f .numbers] {name : String} : Preserves f (reserve name) := by
  refine .bind .get fun s => .ite (.bind .emit fun _ => .pure) ?_
  split
  · exact .bind (preserves_modify .numbers fun _ => rfl) fun _ => .pure
  · exact .bind (preserves_modify .numbers fun _ => rfl) fun _ => .pure

/-! ## Control blocks -/

theorem exited?_modify {s : Scheduler} {t : Tid} {g : Thread → Thread}
    (keeps : ∀ th, s.thread? t = some th → (g th).state = th.state ∨
      (g th).state ≠ .dying ∧ th.state ≠ .dying) :
    ({ s with threads := s.threads.modify t g } : Scheduler).exited? = s.exited? := by
  funext x
  simp only [exited?, thread?, Table.find?_modify]
  by_cases same : x = t
  · subst same
    rw [if_pos rfl]
    cases known : s.threads.find? x with
    | none => rfl
    | some th =>
      rcases keeps th known with kept | ⟨alive, before⟩
      · simp [kept]
      · simp [alive, before]
  · rw [if_neg same]

section

variable {t : Tid} [Ignores f .threads]

theorem preserves_updateThread {g : Thread → Thread} (keeps : ∀ th, (g th).state = th.state) :
    Preserves f (updateThread t g) := by
  intro s
  unfold updateThread
  split
  · apply Ignores.same (p := .threads)
    exact ⟨rfl, exited?_modify fun th _ => .inl (keeps th), fun _ _ => Iff.rfl⟩
  · rfl

/-- The clock, the sleep queue and the load are of no consequence. -/
theorem preserves_clock {g : Scheduler → Scheduler}
    (rest : ∀ s, g s =
      { s with
        sleepers := (g s).sleepers
        loadAverage := (g s).loadAverage
        ticks := (g s).ticks
        tickCounts := (g s).tickCounts }) : Preserves f (modify g : Scheduling Unit) := by
  refine preserves_modify .threads fun s => ⟨?_, ?_, fun t _ => ?_⟩
  all_goals rw [rest s]
  rfl

theorem preserves_refreshPriority : Preserves f (refreshPriority t) :=
  .bind .get fun _ => .ite .pure (.bind preserves_thread fun _ =>
    .bind (preserves_updateThread fun _ => rfl) fun _ => .pure)

theorem preserves_propagateFrom (depth : Nat) : Preserves f (propagateFrom depth t) := by
  induction depth generalizing t with
  | zero => exact .pure
  | succ depth ih =>
    refine .bind preserves_thread fun th => .bind .get fun s => ?_
    split
    · exact .pure
    · split
      · exact .pure
      · exact .bind preserves_refreshPriority fun _ => .ite .pure ih

theorem preserves_propagatePriority : Preserves f (propagatePriority t) :=
  .bind .get fun _ => .ite .pure (preserves_propagateFrom _)

theorem preserves_setSpace {space : Option SpaceId} : Preserves f (setSpace t space) := by
  refine .bind .get fun s => ?_
  split
  · exact .pure
  · exact .bind (preserves_updateThread fun _ => rfl) fun _ => .pure

theorem preserves_take [Ignores f .locks] {l : LockId} : Preserves f (take l t) :=
  .bind preserves_updateLock fun _ => preserves_updateThread fun _ => rfl

theorem preserves_moveToLock [Ignores f .locks] [Ignores f .condvars] {c : CondvarId}
    {l : LockId} : Preserves f (moveToLock c l t) :=
  .bind .get fun _ => .bind (preserves_modify .condvars fun _ => rfl) fun _ => .bind .ensure fun _ =>
    .bind (preserves_updateThread fun _ => rfl) fun _ => .bind .ofExcept fun _ =>
      .bind preserves_updateLock fun _ => preserves_propagatePriority

/-! ### Accounting -/

theorem exited?_traverse {s : Scheduler} {g : Thread → Except ArithmeticFault Thread}
    {threads : Table Tid Thread}
    (changed : (s.threads.traverse fun t th => if t = s.idle then .ok th else g th) = .ok threads)
    (still : ∀ th th', g th = .ok th' → th'.place = th.place) :
    ({ s with threads } : Scheduler).exited? = s.exited? := by
  have same := place_traverse changed still
  funext t
  have placed : (threads.find? t).map Thread.place = (s.thread? t).map Thread.place :=
    congrFun same t
  have exited := congrArg (Option.map fun p : Place => decide (p.state = .dying)) placed
  rwa [Option.map_map, Option.map_map] at exited

theorem preserves_updateOthers {g : Thread → Except ArithmeticFault Thread}
    (still : ∀ th th', g th = .ok th' → th'.place = th.place) : Preserves f (updateOthers g) := by
  intro s
  unfold updateOthers
  rw [get_bind_apply, bind_apply]
  cases changed : s.threads.traverse fun t th => if t = s.idle then .ok th else g th with
  | error fault => rfl
  | ok threads =>
    apply Ignores.same (p := .threads)
    exact ⟨rfl, exited?_traverse changed still, fun _ _ => Iff.rfl⟩

theorem preserves_feedbackTick : Preserves f feedbackTick := by
  have counted : Preserves f countTick :=
    .bind .get fun _ => .ite .pure (.bind preserves_thread fun _ =>
      .bind preserves_arithmetic fun _ => preserves_updateThread fun _ => rfl)
  have second : ∀ s : Scheduler,
      Preserves f (if s.ticks % timerFrequency = 0 then secondPassed else pure ()) :=
    fun _ => .ite (.bind .get fun _ => .bind preserves_arithmetic fun _ =>
      .bind (preserves_clock fun _ => rfl) fun _ => .bind preserves_arithmetic fun _ =>
        preserves_updateOthers fun _ _ => place_decayed) .pure
  exact .bind counted fun _ => .bind .get fun s =>
    .ite (.bind (preserves_updateOthers fun _ _ => place_reprioritized) fun _ => second s) (second s)

theorem preserves_accountTick : Preserves f accountTick :=
  .bind .get fun _ => .ite (preserves_clock fun _ => rfl) (.bind preserves_thread fun _ =>
    .ite (preserves_clock fun _ => rfl) (preserves_clock fun _ => rfl))

end

/-! ## Stretches without interrupts -/

section

variable {level : InterruptLevel} [Ignores f .interrupts]

theorem preserves_disableInterrupts : Preserves f disableInterrupts :=
  preserves_modifyGet .interrupts fun _ => rfl

theorem preserves_setInterrupts : Preserves f (setInterrupts level) := by
  cases level with
  | off => exact preserves_disableInterrupts
  | on =>
    exact .bind .get fun _ => .bind .ensure fun _ =>
      .bind (preserves_modify .interrupts fun _ => rfl) fun _ => .pure

theorem preserves_restoreInterrupts : Preserves f (restoreInterrupts level) := by
  refine preserves_modify .interrupts fun s => ?_
  dsimp only [Part.Alone]
  split <;> rfl

/-- An operation ends by setting the interrupt level it began with. -/
theorem preserves_close {a : α} :
    Preserves f (do let _ ← setInterrupts level; pure a : Scheduling α) :=
  .bind preserves_setInterrupts fun _ => .pure

theorem preserves_tryDown [Ignores f .semaphores] {i : SemaphoreId} : Preserves f (tryDown i) :=
  .bind .get fun _ => .bind preserves_disableInterrupts fun _ =>
    .ite (.bind (preserves_modify .semaphores fun _ => rfl) fun _ => preserves_close) preserves_close

theorem preserves_enterHandler [Ignores f .handler] : Preserves f enterHandler :=
  .bind .get fun _ => .bind .ensure fun _ => .bind preserves_disableInterrupts fun _ =>
    .bind (preserves_modify .handler fun _ => rfl) fun _ => .pure

section

variable {t : Tid} [Ignores f .threads]

/-- A blocked thread becomes ready. -/
theorem stirred_ready {s : Scheduler} {th : Thread} (known : s.thread? t = some th)
    (blocked : th.state = .blocked) {g : Thread → Thread} (alive : ∀ th, (g th).state ≠ .dying)
    {ready : PriorityQueue} (queued : ready = s.ready ∨ ready.tids = s.ready.tids ++ [t]) :
    Stirred s { s with threads := s.threads.modify t g, ready } := by
  refine ⟨rfl, ?_, fun x gone => ?_⟩
  · apply exited?_modify (s := s)
    intro th' known'
    obtain rfl := Option.some.inj (known.symm.trans known')
    exact .inr ⟨alive th, by simp [blocked]⟩
  · rcases queued with rfl | pushed
    · rfl
    · have other : x ≠ t := by
        rintro rfl
        simp [exited?, known, blocked] at gone
      simp [pushed, other]

theorem preserves_unblock : Preserves f (unblock t) := by
  refine .bind preserves_disableInterrupts fun level => ?_
  intro s
  rw [bind_apply]
  unfold thread
  cases known : s.thread? t with
  | none => rfl
  | some th =>
    dsimp only
    rw [bind_apply, ensure_apply]
    by_cases blocked : th.state = .blocked
    · rw [if_pos blocked]
      dsimp only
      rw [bind_apply, ensure_apply]
      by_cases free : th.membership = .none
      · rw [if_pos free]
        dsimp only
        rw [bind_apply]
        unfold updateThread
        rw [known]
        dsimp only
        have stirred : ∀ ready : PriorityQueue, ready = s.ready ∨ ready.tids = s.ready.tids ++ [t] →
            f { s with
              threads := s.threads.modify t fun th => { th with state := .ready, membership := .ready }
              ready } = f s :=
          fun ready queued => Ignores.same (p := .threads)
            (stirred_ready known blocked (fun _ => by simp) queued)
        rw [bind_apply]
        by_cases mem : t ∈ s.ready.tids
        · rw [update_of_error (e := .queuedTwice t) (by simp [PriorityQueue.push, mem, Except.map])]
          exact stirred s.ready (.inl rfl)
        · rw [update_of_ok (by rw [PriorityQueue.push_of_not_mem mem]; rfl)]
          refine (preserves_restoreInterrupts _).trans ?_
          exact stirred ⟨s.ready.tids ++ [t]⟩ (.inr rfl)
      · rw [if_neg free]
    · rw [if_neg blocked]

theorem preserves_wake : Preserves f (wake t) :=
  .bind (preserves_updateThread fun _ => rfl) fun _ => preserves_unblock

theorem preserves_wakeSleepers : Preserves f wakeSleepers := by
  refine .bind .get fun _ => .times (.bind .get fun _ => ?_) _
  split
  · exact .pure
  · exact .bind (preserves_clock fun _ => rfl) fun _ => preserves_wake

/-! ### Locks and condition variables -/

section

variable {l : LockId} [Ignores f .locks]

theorem preserves_tryAcquire : Preserves f (tryAcquire l) :=
  .bind .get fun _ => .bind preserves_disableInterrupts fun _ =>
    .ite (.bind preserves_take fun _ => preserves_close) preserves_close

theorem preserves_handOver : Preserves f (handOver l t) := by
  refine .bind (preserves_updateThread fun _ => rfl) fun _ =>
    .bind (preserves_modifyGet .locks fun _ => rfl) fun next => .bind preserves_updateLock fun _ => ?_
  have rest : Preserves f (do let _ ← refreshPriority t : Scheduling Unit) :=
    .bind preserves_refreshPriority fun _ => .pure
  cases next with
  | none => exact rest
  | some w =>
    exact .bind (preserves_updateThread fun _ => rfl) fun _ => .bind preserves_refreshPriority fun _ =>
      .bind preserves_unblock fun _ => .bind .emit fun _ => rest

theorem preserves_handOverAll : Preserves f (handOverAll t) := by
  refine .bind .get fun s => ?_
  split
  · exact .pure
  · exact .forAll (fun _ => preserves_handOver) _

variable {c : CondvarId} [Ignores f .condvars]

theorem preserves_signal : Preserves f (signal c l) := by
  refine .bind .get fun _ => .bind .ensure fun _ => .bind preserves_disableInterrupts fun level =>
    .bind (preserves_modifyGet .condvars fun _ => rfl) fun next => ?_
  cases next with
  | none => exact preserves_close
  | some w => exact .bind preserves_moveToLock fun _ => preserves_close

theorem preserves_broadcast : Preserves f (broadcast c l) :=
  .bind .get fun _ => .times preserves_signal _

end

end

end

/-! ## Decisions -/

section

variable {t : Tid} {level : InterruptLevel} [Ignores f .population]

/-- Any change of a control block. -/
theorem preserves_replaceThread {g : Thread → Thread} : Preserves f (updateThread t g) := by
  intro s
  unfold updateThread
  split
  · exact Ignores.same (p := .population) rfl
  · rfl

theorem preserves_pushReady {choice : Scheduler → Tid} : Preserves f
    (update fun s => (s.ready.push (choice s)).map fun q => { s with ready := q }) := by
  apply Preserves.update
  intro s s' pushed
  cases value : s.ready.push (choice s) with
  | error e => simp [value, Except.map] at pushed
  | ok q =>
    simp only [value, Except.map, Except.ok.injEq] at pushed
    subst pushed
    exact Ignores.same (p := .population) rfl

theorem preserves_reclaim : Preserves f (reclaim t) := by
  refine .bind .get fun s => ?_
  split
  · exact .pure
  · exact .bind (preserves_modify .population fun _ => rfl) fun _ => .emit

variable [Ignores f .processor]

theorem preserves_dispatch : Preserves f (dispatch t) :=
  .bind preserves_replaceThread fun _ => .bind (preserves_modify .processor fun _ => rfl) fun _ =>
    .bind .get fun _ => .ite .pure (.bind preserves_thread fun _ =>
      preserves_modify .processor fun _ => rfl)

theorem preserves_schedule : Preserves f schedule :=
  .bind .get fun _ => .bind .ensure fun _ => .bind preserves_thread fun _ => .bind .ensure fun _ =>
    .bind (.bind .get fun _ => .bind (preserves_modify .processor fun _ => rfl) fun _ =>
      .forAll (fun _ => preserves_reclaim) _) fun _ =>
    .bind (preserves_modifyGet .population fun _ => rfl) fun _ => .bind preserves_dispatch fun _ =>
      preserves_assertConsistent

theorem preserves_block : Preserves f block :=
  .bind .get fun _ => .bind .ensure fun _ => .bind .ensure fun _ =>
    .bind preserves_replaceThread fun _ => preserves_schedule

variable [Ignores f .interrupts]

theorem preserves_yield : Preserves f yield := by
  have rest : ∀ level, Preserves f (schedule >>= fun _ => restoreInterrupts level) :=
    fun _ => .bind preserves_schedule fun _ => preserves_restoreInterrupts
  exact .bind .get fun _ => .bind .ensure fun _ => .bind preserves_disableInterrupts fun level =>
    .ite (.bind preserves_replaceThread fun _ => rest level)
      (.bind preserves_replaceThread fun _ => .bind preserves_pushReady fun _ => rest level)

theorem preserves_down [Ignores f .semaphores] {i : SemaphoreId} : Preserves f (down i) := by
  refine .bind .get fun s => .bind .ensure fun _ => .bind preserves_disableInterrupts fun level => ?_
  exact .ite (.bind (preserves_modify .semaphores fun _ => rfl) fun _ => .bind .pure fun _ =>
      preserves_close)
    (.bind .ofExcept fun _ => .bind (preserves_modify .semaphores fun _ => rfl) fun _ =>
      .bind preserves_replaceThread fun _ => .bind preserves_block fun _ => .bind .pure fun _ =>
        preserves_close)

section

variable [Ignores f .threads]

theorem preserves_sleepUntil {wakeTick : Nat} : Preserves f (sleepUntil wakeTick) :=
  .bind .get fun _ => .ite .pure (.bind .ensure fun _ => .bind .ensure fun _ =>
    .bind preserves_disableInterrupts fun _ => .bind preserves_replaceThread fun _ =>
      .bind (preserves_clock fun _ => rfl) fun _ => .bind preserves_block fun _ =>
        preserves_restoreInterrupts)

theorem preserves_sleep {ticks : Int} : Preserves f (sleep ticks) :=
  .bind .get fun _ => .ite .pure preserves_sleepUntil

section

variable {l : LockId} [Ignores f .locks]

theorem preserves_acquire : Preserves f (acquire l) := by
  refine .bind .get fun s => .bind .ensure fun _ => .bind .ensure fun _ =>
    .bind preserves_disableInterrupts fun level => ?_
  exact .ite (.bind preserves_take fun _ => .bind .pure fun _ => preserves_close)
    (.bind preserves_replaceThread fun _ => .bind .ofExcept fun _ => .bind preserves_updateLock fun _ =>
      .bind preserves_propagatePriority fun _ => .bind preserves_block fun _ => .bind .pure fun _ =>
        preserves_close)

theorem preserves_wait [Ignores f .condvars] {c : CondvarId} : Preserves f (wait c l) :=
  .bind .get fun _ => .bind .ensure fun _ => .bind .ensure fun _ =>
    .bind preserves_disableInterrupts fun _ => .bind preserves_handOver fun _ => .bind .ofExcept fun _ =>
      .bind (preserves_modify .condvars fun _ => rfl) fun _ => .bind preserves_replaceThread fun _ =>
        .bind preserves_block fun _ => preserves_close

theorem preserves_exit [Ignores f .statuses] {status : Int} : Preserves f (exit status) :=
  .bind .get fun _ => .bind .ensure fun _ => .bind .ensure fun _ =>
    .bind preserves_disableInterrupts fun _ => .bind preserves_handOverAll fun _ =>
      .bind preserves_replaceThread fun _ => .bind preserves_thread fun _ => .bind .emit fun _ =>
        .bind (preserves_modify .statuses fun _ => rfl) fun _ => .bind preserves_schedule fun _ =>
          preserves_restoreInterrupts

end

end

variable [Ignores f .handler]

theorem preserves_preemptCheck : Preserves f preemptCheck := by
  refine .bind .get fun s => ?_
  split
  · exact .pure
  · exact .ite .pure (.ite (preserves_modify .handler fun _ => rfl) preserves_yield)

theorem preserves_close_preempt : Preserves f
    (do let _ ← setInterrupts level; preemptCheck) :=
  .bind preserves_setInterrupts fun _ => preserves_preemptCheck

theorem preserves_restore_preempt : Preserves f
    (do restoreInterrupts level; preemptCheck) :=
  .bind preserves_restoreInterrupts fun _ => preserves_preemptCheck

theorem preserves_leaveHandler : Preserves f (leaveHandler level) :=
  .bind (preserves_modify .handler fun _ => rfl) fun _ => .bind .get fun _ =>
    .ite (.bind (preserves_modify .handler fun _ => rfl) fun _ => .bind preserves_yield fun _ =>
      preserves_restoreInterrupts) preserves_restoreInterrupts

theorem preserves_setNice {nice : Int} : Preserves f (setNice nice) :=
  .bind preserves_disableInterrupts fun _ => .bind .get fun _ =>
    .bind preserves_replaceThread fun _ =>
      .ite (.bind preserves_thread fun _ => .bind preserves_arithmetic fun _ =>
        .bind preserves_replaceThread fun _ => preserves_restore_preempt) preserves_restore_preempt

variable [Ignores f .threads]

theorem preserves_setPriority {priority : Int} : Preserves f (setPriority priority) :=
  .bind .get fun _ => .ite .emit (.bind preserves_disableInterrupts fun _ =>
    .bind preserves_replaceThread fun _ => .bind preserves_refreshPriority fun _ =>
      preserves_restore_preempt)

theorem preserves_timerHandler : Preserves f timerHandler := by
  have rest : Preserves f (do useSlice; wakeSleepers; preemptCheck) := by
    refine .bind (.modify fun s => ?_) fun _ => .bind preserves_wakeSleepers fun _ =>
      preserves_preemptCheck
    have noted : ∀ (s : Scheduler) due, f { s with yieldOnReturn := due } = f s :=
      fun _ _ => Ignores.same (p := .handler) rfl
    have used : f { s with sliceTicks := s.sliceTicks + 1 } = f s :=
      Ignores.same (p := .processor) rfl
    exact (noted _ _).trans used
  exact .bind (preserves_clock fun _ => rfl) fun _ => .bind preserves_accountTick fun _ =>
    .bind .get fun _ => .ite (.bind preserves_feedbackTick fun _ => rest) rest

theorem preserves_timerInterrupt : Preserves f timerInterrupt :=
  .bind preserves_enterHandler fun _ => .bind preserves_timerHandler fun _ =>
    .bind preserves_leaveHandler fun _ => .pure

theorem preserves_up [Ignores f .semaphores] {i : SemaphoreId} : Preserves f (up i) := by
  refine .bind preserves_disableInterrupts fun level =>
    .bind (preserves_modifyGet .semaphores fun _ => rfl) fun next => ?_
  have unit : Preserves f (addUnit i) :=
    .bind .get fun _ => .bind .ensure fun _ => preserves_modify .semaphores fun _ => rfl
  cases next with
  | none => exact .bind unit fun _ => preserves_close_preempt
  | some w =>
    exact .bind preserves_replaceThread fun _ => .bind preserves_unblock fun _ =>
      preserves_close_preempt

theorem preserves_release [Ignores f .locks] {l : LockId} : Preserves f (release l) :=
  .bind .get fun _ => .bind .ensure fun _ => .bind preserves_disableInterrupts fun _ =>
    .bind preserves_handOver fun _ => preserves_close_preempt

theorem preserves_spawn [Ignores f .numbers] {name : String} {priority : Int} {argument : Nat}
    {space : Option SpaceId} : Preserves f (spawn name priority argument space) := by
  refine .bind preserves_reserve fun reserved => ?_
  split
  · exact .pure
  · exact .bind preserves_prepare fun _ => .bind .emit fun _ =>
      .bind (preserves_modify .population fun _ => rfl) fun _ => .bind preserves_unblock fun _ =>
        .bind preserves_preemptCheck fun _ => .pure

/-! ## Events -/

/-- The parts that are not every event's business, but this one's. -/
def Event.Touches (p : Part) : Event → Prop
  | .request (.spawn _ _ _ _) => p = .numbers
  | .request (.exit _) => p = .locks ∨ p = .statuses
  | .request .newLock | .request (.acquire _) | .request (.tryAcquire _) | .request (.release _) =>
    p = .locks
  | .request (.newSemaphore _) | .request (.down _) | .request (.tryDown _) | .request (.up _) =>
    p = .semaphores
  | .request .newCondvar => p = .condvars
  | .request (.wait _ _) | .request (.signal _ _) | .request (.broadcast _ _) =>
    p = .locks ∨ p = .condvars
  | _ => False

theorem perform_preserves {r : Request} (single : ∀ handler, r ≠ .interrupt handler)
    (kept : ∀ p, (Event.request r).Touches p → Ignores f p) : Preserves f (perform r) := by
  have plain : ∀ {α : Type} {t : Scheduling α} {reply : α → Reply}, Preserves f t →
      Preserves f (t >>= fun a => pure (reply a)) := fun preserves => .bind preserves fun _ => .pure
  cases r with
  | interrupt handler => exact absurd rfl (single handler)
  | spawn name priority space argument =>
    have := kept .numbers rfl
    refine .bind preserves_spawn fun result => ?_
    cases result <;> exact .pure
  | setSpace t space =>
    refine .bind preserves_setSpace fun result => ?_
    cases result <;> exact .pure
  | tick count => exact plain (.times preserves_timerInterrupt count)
  | block => exact plain preserves_block
  | unblock t => exact plain preserves_unblock
  | yield => exact plain preserves_yield
  | preemptCheck => exact plain preserves_preemptCheck
  | sleep ticks => exact plain preserves_sleep
  | sleepUntil tick => exact plain preserves_sleepUntil
  | setPriority priority => exact plain preserves_setPriority
  | setNice nice => exact plain preserves_setNice
  | check => exact plain preserves_assertConsistent
  | disableInterrupts => exact plain preserves_disableInterrupts
  | enableInterrupts =>
    have on : Preserves f (setInterrupts .on) := preserves_setInterrupts
    exact plain on
  | setInterrupts level => exact plain preserves_setInterrupts
  | elapsed since => exact .gets
  | exitStatus t => exact .gets
  | describe t => exact .gets
  | logTickCounts => exact plain (.bind .get fun _ => .emit)
  | query => exact plain preserves_summarize
  | holds lock => exact .bind preserves_lockNumbered fun _ => .gets
  | exit status =>
    have := kept .locks (.inl rfl)
    have := kept .statuses (.inr rfl)
    exact plain preserves_exit
  | newLock =>
    have := kept .locks rfl
    exact plain (preserves_modifyGet .locks fun _ => rfl)
  | newSemaphore value =>
    have := kept .semaphores rfl
    exact plain (preserves_modifyGet .semaphores fun _ => rfl)
  | newCondvar =>
    have := kept .condvars rfl
    exact plain (preserves_modifyGet .condvars fun _ => rfl)
  | acquire lock =>
    have := kept .locks rfl
    exact .bind preserves_lockNumbered fun _ => plain preserves_acquire
  | tryAcquire lock =>
    have := kept .locks rfl
    exact .bind preserves_lockNumbered fun _ => plain preserves_tryAcquire
  | release lock =>
    have := kept .locks rfl
    exact .bind preserves_lockNumbered fun _ => plain preserves_release
  | down semaphore =>
    have := kept .semaphores rfl
    exact .bind preserves_semaphoreNumbered fun _ => plain preserves_down
  | tryDown semaphore =>
    have := kept .semaphores rfl
    exact .bind preserves_semaphoreNumbered fun _ => plain preserves_tryDown
  | up semaphore =>
    have := kept .semaphores rfl
    exact .bind preserves_semaphoreNumbered fun _ => plain preserves_up
  | wait condvar lock =>
    have := kept .locks (.inl rfl)
    have := kept .condvars (.inr rfl)
    exact .bind preserves_condvarNumbered fun _ => .bind preserves_lockNumbered fun _ =>
      plain preserves_wait
  | signal condvar lock =>
    have := kept .locks (.inl rfl)
    have := kept .condvars (.inr rfl)
    exact .bind preserves_condvarNumbered fun _ => .bind preserves_lockNumbered fun _ =>
      plain preserves_signal
  | broadcast condvar lock =>
    have := kept .locks (.inl rfl)
    have := kept .condvars (.inr rfl)
    exact .bind preserves_condvarNumbered fun _ => .bind preserves_lockNumbered fun _ =>
      plain preserves_broadcast

/-- An event changes only the parts it touches, apart from threads, interrupts and the processor. -/
theorem Event.happen_preserves {s : Scheduler} {e : Event} (possible : e.Possible s)
    (kept : ∀ p, e.Touches p → Ignores f p) : Preserves f e.happen := by
  cases e with
  | request r =>
    refine .bind (perform_preserves (fun handler nested => ?_) kept) fun _ => .pure
    subst nested
    exact possible
  | enter => exact .bind preserves_enterHandler fun _ => .pure
  | leave level => exact preserves_leaveHandler

end

end

end KernelCore.Scheduler
