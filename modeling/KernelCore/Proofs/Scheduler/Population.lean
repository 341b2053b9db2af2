import KernelCore.Proofs.Scheduler.Masking

/-!
# The population

Threads come when they are spawned, and go in two steps: a thread that exits is only marked, and its
control block stays until the decision after the one that leaves it. Whatever else happens, nobody
comes, nobody exits, and nobody goes but those who wait to be reclaimed.
-/
namespace KernelCore.Scheduler

open Transition

/-- What stays as it is unless a thread comes or exits. -/
def records (s : Scheduler) : Tid × Tid × Nat × TidAllocator × Table Tid Int :=
  (s.main, s.idle, s.capacity, s.allocator, s.exitStatuses)

/-- Who has exited, and who is in the ready queue all the same; who runs, and who waits to be
reclaimed. -/
def census (s : Scheduler) :
    (Tid × Tid × Nat × TidAllocator × Table Tid Int) × (Tid → Option Bool) × (Tid → Prop) × Tid ×
      List Tid × Nat :=
  (s.records, s.exited?, fun t => s.exited? t ≠ some false ∧ t ∈ s.ready.tids, s.current, s.dying,
    s.switches)

/-- Whoever may be chosen to run is alive, and whoever waits to be reclaimed is not. -/
structure Eligible (s : Scheduler) : Prop where
  idle : s.exited? s.idle = some false
  ready : ∀ t ∈ s.ready.tids, s.exited? t = some false
  dying : ∀ t ∈ s.dying, s.exited? t ≠ some false

structure Living (s : Scheduler) : Prop extends Eligible s where
  current : s.exited? s.current = some false

/-- Decisions have been taken, and the first of them has reclaimed those who waited for it. -/
structure Thinned (s s' : Scheduler) : Prop where
  living : Living s'
  records : s'.records = s.records
  exited : ∀ t, s'.exited? t = if t ∈ s.dying then none else s.exited? t
  dying : s'.dying = []

/-- Nobody has come and nobody has exited. -/
def Lived (s s' : Scheduler) : Prop := s'.census = s.census ∨ Thinned s s'

section

variable {s s' s'' : Scheduler}

theorem census_alone {p : Part} (population : p ≠ .population) (processor : p ≠ .processor)
    (numbers : p ≠ .numbers) (statuses : p ≠ .statuses) (alone : p.Alone s s') :
    s'.census = s.census := by
  cases p with
  | population => exact absurd rfl population
  | processor => exact absurd rfl processor
  | numbers => exact absurd rfl numbers
  | statuses => exact absurd rfl statuses
  | threads =>
    have ready : (fun t => s.exited? t ≠ some false ∧ t ∈ s'.ready.tids) =
        fun t => s.exited? t ≠ some false ∧ t ∈ s.ready.tids :=
      funext fun t => propext (and_congr_right fun gone => alone.ready t gone)
    have same := alone.rest
    unfold census
    rw [alone.exited, ready, same]
    rfl
  | _ =>
    have same := congrArg census alone
    exact same

instance : Ignores census .threads := ⟨census_alone (by simp) (by simp) (by simp) (by simp)⟩
instance : Ignores census .interrupts := ⟨census_alone (by simp) (by simp) (by simp) (by simp)⟩
instance : Ignores census .handler := ⟨census_alone (by simp) (by simp) (by simp) (by simp)⟩
instance : Ignores census .locks := ⟨census_alone (by simp) (by simp) (by simp) (by simp)⟩
instance : Ignores census .semaphores := ⟨census_alone (by simp) (by simp) (by simp) (by simp)⟩
instance : Ignores census .condvars := ⟨census_alone (by simp) (by simp) (by simp) (by simp)⟩

theorem Living.of_census (living : Living s) (same : s'.census = s.census) : Living s' := by
  simp only [census, Prod.mk.injEq] at same
  obtain ⟨records, exited, stray, current, dying, -⟩ := same
  have idle : s'.idle = s.idle := congrArg (fun r => r.2.1) records
  refine ⟨⟨?_, fun t mem => ?_, ?_⟩, ?_⟩
  · rw [exited, idle]
    exact living.idle
  · by_contra gone
    have both : s.exited? t ≠ some false ∧ t ∈ s.ready.tids := by
      rw [← congrFun stray t]
      exact ⟨gone, mem⟩
    exact both.1 (living.ready t both.2)
  · rw [exited, dying]
    exact living.dying
  · rw [exited, current]
    exact living.current

theorem Thinned.of_census (same : s'.census = s.census) (h : Thinned s' s'') : Thinned s s'' := by
  simp only [census, Prod.mk.injEq] at same
  obtain ⟨records, exited, -, -, dying, -⟩ := same
  exact ⟨h.living, h.records.trans records, exited ▸ dying ▸ h.exited, h.dying⟩

theorem Thinned.trans (first : Thinned s s') (rest : Thinned s' s'') : Thinned s s'' where
  living := rest.living
  records := rest.records.trans first.records
  exited t := by
    rw [rest.exited, first.dying, if_neg List.not_mem_nil, first.exited]
  dying := rest.dying

theorem Thinned.then_census (h : Thinned s s') (same : s''.census = s'.census) : Thinned s s'' := by
  have living := h.living.of_census same
  simp only [census, Prod.mk.injEq] at same
  obtain ⟨records, exited, -, -, dying, -⟩ := same
  exact ⟨living, records.trans h.records, fun t => exited ▸ h.exited t, dying.trans h.dying⟩

theorem Lived.trans (first : Lived s s') (rest : Lived s' s'') : Lived s s'' := by
  rcases first with same | thinned
  · rcases rest with same' | thinned'
    · exact .inl (same'.trans same)
    · exact .inr (thinned'.of_census same)
  · rcases rest with same' | thinned'
    · exact .inr (thinned.then_census same')
    · exact .inr (thinned.trans thinned')

/-- A decision marks nobody, and reclaims all who wait for it and nobody else. -/
theorem Decision.population (h : Decision s s') (eligible : Eligible s) :
    Living s' ∧ ∀ t, s'.exited? t = if t ∈ s.dying then none else s.exited? t := by
  obtain ⟨th, found, running⟩ := h.chosen
  have alive : s.exited? s'.current = some false := by
    rcases h.next with ready | ⟨-, idle⟩
    · exact eligible.ready _ ready
    · rw [idle]
      exact eligible.idle
  have exited : ∀ t, s'.exited? t = if t ∈ s.dying then none else s.exited? t := by
    intro t
    by_cases gone : t ∈ s.dying
    · rw [if_pos gone, exited?, h.reclaimed t gone]
      rfl
    · rw [if_neg gone]
      by_cases own : t = s'.current
      · rw [own, alive, exited?, running]
        rfl
      · rw [exited?, h.others t gone own]
        rfl
  have stays : ∀ {t}, s.exited? t = some false → s'.exited? t = some false := by
    intro t alive
    rw [exited, if_neg fun gone => eligible.dying t gone alive, alive]
  refine ⟨⟨⟨?_, fun t mem => ?_, fun t doomed => ?_⟩, stays alive⟩, exited⟩
  · rw [h.rest]
    exact stays eligible.idle
  · rw [h.ready] at mem
    exact stays (eligible.ready t (List.mem_of_mem_erase mem))
  · by_cases same : s'.current = s.current
    · rw [(h.stayed same).1] at doomed
      cases doomed
    · obtain ⟨-, kept, last, found, dying⟩ := h.left same
      rw [dying] at doomed
      split at doomed
      · rename_i dead
        obtain rfl := List.mem_singleton.mp doomed
        rw [exited, if_neg kept, exited?, found]
        simp [dead.1]
      · cases doomed

/-- If the thread that is left is alive, nobody waits to be reclaimed afterwards. -/
theorem Decision.thinned (h : Decision s s') (living : Living s) : Thinned s s' := by
  obtain ⟨living', exited⟩ := h.population living.toEligible
  refine ⟨living', by rw [h.rest]; rfl, exited, ?_⟩
  by_cases same : s'.current = s.current
  · exact (h.stayed same).1
  · obtain ⟨-, -, last, found, dying⟩ := h.left same
    have alive := living.current
    rw [exited?, found] at alive
    rw [dying, if_neg fun dead => by simp [dead.1] at alive]

/-- To stop running is not to exit. -/
theorem census_stopped (living : Living s) :
    ({ s with threads := s.threads.modify s.current fun th => { th with state := .blocked } } :
      Scheduler).census = s.census := by
  apply census_alone (p := .threads) (by simp) (by simp) (by simp) (by simp)
  refine ⟨rfl, exited?_modify fun th found => .inr ⟨by simp, fun dead => ?_⟩, fun _ _ => Iff.rfl⟩
  have alive := living.current
  simp [exited?, found, dead] at alive

theorem census_gaveWay (living : Living s) : s.gaveWay.census = s.census := by
  unfold gaveWay
  split
  · exact census_stopped living
  · change Scheduler.census
      { s with
        threads := s.threads.modify s.current fun th => { th with state := .ready, membership := .ready }
        ready := ⟨s.ready.tids ++ [s.current]⟩ } = s.census
    apply census_alone (p := .threads) (by simp) (by simp) (by simp) (by simp)
    refine ⟨rfl, exited?_modify fun th found => .inr ⟨by simp, fun dead => ?_⟩, fun t gone => ?_⟩
    · have alive := living.current
      simp [exited?, found, dead] at alive
    · have other : t ≠ s.current := fun own => gone (own ▸ living.current)
      simp [other]

theorem Yielded.thinned (h : Yielded s s') (living : Living s) : Thinned s s' := by
  obtain ⟨-, s₁, decision, rfl⟩ := h
  have same := census_gaveWay living
  exact ((decision.thinned (living.of_census same)).of_census same).then_census rfl

end

/-! ## Whatever happens between threads -/

/-- The states that follow a given one without anybody coming or exiting. -/
structure Follows (s s' : Scheduler) : Prop where
  living : Living s'
  lived : Lived s s'

section

variable {α : Type} {s₀ : Scheduler} {level : InterruptLevel}

theorem follows_of_preserves {op : Scheduling α} (kept : Preserves census op) :
    Moves (Follows s₀) op (Follows s₀) :=
  fun _ begun => ends_of_preserves kept fun _ _ same =>
    ⟨begun.living.of_census same, begun.lived.trans (.inl same)⟩

theorem Follows.thinned {s s' : Scheduler} (begun : Follows s₀ s) (h : Thinned s s') : Follows s₀ s' :=
  ⟨h.living, begun.lived.trans (.inr h)⟩

theorem block_follows : Moves (Follows s₀) block (Follows s₀) := by
  intro s begun
  refine block_decides.imp fun _ s' decided => ?_
  obtain ⟨-, -, decision⟩ := decided
  have same := census_stopped begun.living
  exact begun.thinned ((decision.thinned (begun.living.of_census same)).of_census same)

theorem yield_follows : Moves (Follows s₀) yield (Follows s₀) :=
  fun _ begun => yield_decides.imp fun _ _ yielded => begun.thinned (yielded.thinned begun.living)

theorem preemptCheck_follows : Moves (Follows s₀) preemptCheck (Follows s₀) := by
  intro s begun
  refine preemptCheck_decides.imp fun _ s' decided => ?_
  rcases decided with ⟨-, rfl⟩ | ⟨-, ⟨-, rfl⟩ | yielded⟩
  · exact begun
  · exact ⟨begun.living.of_census rfl, begun.lived.trans (.inl rfl)⟩
  · exact begun.thinned (yielded.thinned begun.living)

theorem close_preempt_follows :
    Moves (Follows s₀) (do let _ ← setInterrupts level; preemptCheck) (Follows s₀) :=
  .bind (follows_of_preserves preserves_setInterrupts) fun _ => preemptCheck_follows

theorem restore_preempt_follows :
    Moves (Follows s₀) (do restoreInterrupts level; preemptCheck) (Follows s₀) :=
  .bind (follows_of_preserves preserves_restoreInterrupts) fun _ => preemptCheck_follows

theorem sleepUntil_follows {wakeTick : Nat} : Moves (Follows s₀) (sleepUntil wakeTick) (Follows s₀) :=
  .get fun _ _ => .ite (fun _ => .pure) fun _ => .ensure fun _ => .ensure fun _ =>
    .bind (follows_of_preserves preserves_disableInterrupts) fun _ =>
      .bind (follows_of_preserves (preserves_updateThread fun _ => rfl)) fun _ =>
        .bind (follows_of_preserves (preserves_clock fun _ => rfl)) fun _ => .bind block_follows fun _ =>
          follows_of_preserves preserves_restoreInterrupts

theorem sleep_follows {ticks : Int} : Moves (Follows s₀) (sleep ticks) (Follows s₀) :=
  .get fun _ _ => .ite (fun _ => .pure) fun _ => sleepUntil_follows

theorem down_follows {i : SemaphoreId} : Moves (Follows s₀) (down i) (Follows s₀) :=
  .get fun _ _ => .ensure fun _ => .bind (follows_of_preserves preserves_disableInterrupts) fun _ => .ite
    (fun _ => .bind (follows_of_preserves (preserves_modify .semaphores fun _ => rfl)) fun _ =>
      .bind .pure fun _ => follows_of_preserves preserves_close)
    fun _ => .bind (follows_of_preserves .ofExcept) fun _ =>
      .bind (follows_of_preserves (preserves_modify .semaphores fun _ => rfl)) fun _ =>
        .bind (follows_of_preserves (preserves_updateThread fun _ => rfl)) fun _ =>
          .bind block_follows fun _ => .bind .pure fun _ => follows_of_preserves preserves_close

theorem up_follows {i : SemaphoreId} : Moves (Follows s₀) (up i) (Follows s₀) := by
  refine .bind (follows_of_preserves preserves_disableInterrupts) fun _ =>
    .bind (follows_of_preserves (preserves_modifyGet .semaphores fun _ => rfl)) fun next => ?_
  have unit : Preserves census (addUnit i) :=
    .bind .get fun _ => .bind .ensure fun _ => preserves_modify .semaphores fun _ => rfl
  cases next with
  | none => exact .bind (follows_of_preserves unit) fun _ => close_preempt_follows
  | some w =>
    exact .bind (follows_of_preserves (preserves_updateThread fun _ => rfl)) fun _ =>
      .bind (follows_of_preserves preserves_unblock) fun _ => close_preempt_follows

theorem acquire_follows {l : LockId} : Moves (Follows s₀) (acquire l) (Follows s₀) :=
  .get fun _ _ => .ensure fun _ => .ensure fun _ =>
    .bind (follows_of_preserves preserves_disableInterrupts) fun _ => .ite
      (fun _ => .bind (follows_of_preserves preserves_take) fun _ => .bind .pure fun _ =>
        follows_of_preserves preserves_close)
      fun _ => .bind (follows_of_preserves (preserves_updateThread fun _ => rfl)) fun _ =>
        .bind (follows_of_preserves .ofExcept) fun _ =>
          .bind (follows_of_preserves preserves_updateLock) fun _ =>
            .bind (follows_of_preserves preserves_propagatePriority) fun _ => .bind block_follows fun _ =>
              .bind .pure fun _ => follows_of_preserves preserves_close

theorem release_follows {l : LockId} : Moves (Follows s₀) (release l) (Follows s₀) :=
  .get fun _ _ => .ensure fun _ => .bind (follows_of_preserves preserves_disableInterrupts) fun _ =>
    .bind (follows_of_preserves preserves_handOver) fun _ => close_preempt_follows

theorem wait_follows {c : CondvarId} {l : LockId} : Moves (Follows s₀) (wait c l) (Follows s₀) :=
  .get fun _ _ => .ensure fun _ => .ensure fun _ =>
    .bind (follows_of_preserves preserves_disableInterrupts) fun _ =>
      .bind (follows_of_preserves preserves_handOver) fun _ =>
        .bind (follows_of_preserves .ofExcept) fun _ =>
          .bind (follows_of_preserves (preserves_modify .condvars fun _ => rfl)) fun _ =>
            .bind (follows_of_preserves (preserves_updateThread fun _ => rfl)) fun _ =>
              .bind block_follows fun _ => follows_of_preserves preserves_close

theorem setPriority_follows {priority : Int} :
    Moves (Follows s₀) (setPriority priority) (Follows s₀) :=
  .get fun _ _ => .ite (fun _ => follows_of_preserves .emit) fun _ =>
    .bind (follows_of_preserves preserves_disableInterrupts) fun _ =>
      .bind (follows_of_preserves (preserves_updateThread fun _ => rfl)) fun _ =>
        .bind (follows_of_preserves preserves_refreshPriority) fun _ => restore_preempt_follows

/-- A recomputed priority goes to a thread that stays what it is. -/
theorem recompute_follows {t : Tid} : Moves (Follows s₀) (do
    let th ← thread t
    let p ← arithmetic th.reprioritized
    updateThread t fun _ => p) (Follows s₀) := by
  intro s begun
  rw [ends_bind]
  cases known : s.thread? t with
  | none => exact (ends_thread_of_none known).mpr trivial
  | some th =>
    rw [ends_thread known, ends_bind]
    cases value : th.reprioritized with
    | error fault => exact trivial
    | ok p =>
      rw [show (arithmetic (.ok p) : Scheduling Thread) = pure p from rfl, ends_pure,
        ends_updateThread_of_some known]
      have same : ({ s with threads := s.threads.modify t fun _ => p } : Scheduler).census = s.census := by
        apply census_alone (p := .threads) (by simp) (by simp) (by simp) (by simp)
        refine ⟨rfl, exited?_modify fun th' found => .inl ?_, fun _ _ => Iff.rfl⟩
        obtain rfl := Option.some.inj (known.symm.trans found)
        exact congrArg Place.state (place_reprioritized value)
      exact ⟨begun.living.of_census same, begun.lived.trans (.inl same)⟩

theorem setNice_follows {nice : Int} : Moves (Follows s₀) (setNice nice) (Follows s₀) := by
  refine .bind (follows_of_preserves preserves_disableInterrupts) fun level => .get fun s _ =>
    .bind (follows_of_preserves (preserves_updateThread fun _ => rfl)) fun _ => .ite
      (fun _ => ?_) fun _ => restore_preempt_follows
  intro s₁ begun
  have recomputed := recompute_follows (t := s.current) s₁ begun
  rw [ends_bind] at recomputed ⊢
  refine recomputed.imp fun th s₂ more => ?_
  rw [ends_bind] at more ⊢
  refine more.imp fun p s₃ more => ?_
  rw [ends_bind]
  exact more.imp fun _ s₄ follows => restore_preempt_follows s₄ follows

theorem leaveHandler_follows : Moves (Follows s₀) (leaveHandler level) (Follows s₀) :=
  .bind (follows_of_preserves (preserves_modify .handler fun _ => rfl)) fun _ => .get fun _ _ => .ite
    (fun _ => .bind (follows_of_preserves (preserves_modify .handler fun _ => rfl)) fun _ =>
      .bind yield_follows fun _ => follows_of_preserves preserves_restoreInterrupts)
    fun _ => follows_of_preserves preserves_restoreInterrupts

theorem timerInterrupt_follows : Moves (Follows s₀) timerInterrupt (Follows s₀) := by
  have slice : Preserves census useSlice := .modify fun _ => rfl
  have rest : Moves (Follows s₀) (do useSlice; wakeSleepers; preemptCheck) (Follows s₀) :=
    .bind (follows_of_preserves slice) fun _ => .bind (follows_of_preserves preserves_wakeSleepers) fun _ =>
      preemptCheck_follows
  have handler : Moves (Follows s₀) timerHandler (Follows s₀) :=
    .bind (follows_of_preserves (preserves_clock fun _ => rfl)) fun _ =>
      .bind (follows_of_preserves preserves_accountTick) fun _ => .get fun _ _ => .ite
        (fun _ => .bind (follows_of_preserves preserves_feedbackTick) fun _ => rest) fun _ => rest
  exact .bind (follows_of_preserves preserves_enterHandler) fun _ => .bind handler fun _ =>
    .bind leaveHandler_follows fun _ => .pure

/-- A thread comes or exits by these requests alone. -/
def Request.Populates : Request → Prop
  | .spawn _ _ _ _ | .exit _ => True
  | _ => False

theorem perform_follows {r : Request} (plain : ¬r.Populates) (single : ∀ handler, r ≠ .interrupt handler) :
    Moves (Follows s₀) (perform r) (Follows s₀) := by
  have then_pure : ∀ {α : Type} {op : Scheduling α} {reply : α → Reply},
      Moves (Follows s₀) op (Follows s₀) →
        Moves (Follows s₀) (op >>= fun a => pure (reply a)) (Follows s₀) :=
    fun moves => .bind moves fun _ => .pure
  cases r with
  | spawn name priority space argument => exact absurd trivial plain
  | exit status => exact absurd trivial plain
  | interrupt handler => exact absurd rfl (single handler)
  | tick count => exact then_pure (.times timerInterrupt_follows count)
  | setSpace t space =>
    refine .bind (follows_of_preserves preserves_setSpace) fun result => ?_
    cases result <;> exact .pure
  | block => exact then_pure block_follows
  | unblock t => exact then_pure (follows_of_preserves preserves_unblock)
  | yield => exact then_pure yield_follows
  | preemptCheck => exact then_pure preemptCheck_follows
  | sleep ticks => exact then_pure sleep_follows
  | sleepUntil tick => exact then_pure sleepUntil_follows
  | elapsed since => exact follows_of_preserves .gets
  | setPriority priority => exact then_pure setPriority_follows
  | setNice nice => exact then_pure setNice_follows
  | query => exact then_pure (follows_of_preserves preserves_summarize)
  | check => exact then_pure (follows_of_preserves preserves_assertConsistent)
  | exitStatus t => exact follows_of_preserves .gets
  | describe t => exact follows_of_preserves .gets
  | logTickCounts => exact then_pure (follows_of_preserves (.bind .get fun _ => .emit))
  | disableInterrupts => exact then_pure (follows_of_preserves preserves_disableInterrupts)
  | enableInterrupts =>
    have on : Preserves census (setInterrupts .on) := preserves_setInterrupts
    exact then_pure (follows_of_preserves on)
  | setInterrupts level => exact then_pure (follows_of_preserves preserves_setInterrupts)
  | newLock => exact then_pure (follows_of_preserves (preserves_modifyGet .locks fun _ => rfl))
  | acquire lock =>
    exact .bind (follows_of_preserves preserves_lockNumbered) fun _ => then_pure acquire_follows
  | tryAcquire lock =>
    exact .bind (follows_of_preserves preserves_lockNumbered) fun _ =>
      then_pure (follows_of_preserves preserves_tryAcquire)
  | release lock =>
    exact .bind (follows_of_preserves preserves_lockNumbered) fun _ => then_pure release_follows
  | holds lock =>
    exact .bind (follows_of_preserves preserves_lockNumbered) fun _ => follows_of_preserves .gets
  | newSemaphore value =>
    exact then_pure (follows_of_preserves (preserves_modifyGet .semaphores fun _ => rfl))
  | down semaphore =>
    exact .bind (follows_of_preserves preserves_semaphoreNumbered) fun _ => then_pure down_follows
  | tryDown semaphore =>
    exact .bind (follows_of_preserves preserves_semaphoreNumbered) fun _ =>
      then_pure (follows_of_preserves preserves_tryDown)
  | up semaphore =>
    exact .bind (follows_of_preserves preserves_semaphoreNumbered) fun _ => then_pure up_follows
  | newCondvar => exact then_pure (follows_of_preserves (preserves_modifyGet .condvars fun _ => rfl))
  | wait condvar lock =>
    exact .bind (follows_of_preserves preserves_condvarNumbered) fun _ =>
      .bind (follows_of_preserves preserves_lockNumbered) fun _ => then_pure wait_follows
  | signal condvar lock =>
    exact .bind (follows_of_preserves preserves_condvarNumbered) fun _ =>
      .bind (follows_of_preserves preserves_lockNumbered) fun _ =>
        then_pure (follows_of_preserves preserves_signal)
  | broadcast condvar lock =>
    exact .bind (follows_of_preserves preserves_condvarNumbered) fun _ =>
      .bind (follows_of_preserves preserves_lockNumbered) fun _ =>
        then_pure (follows_of_preserves preserves_broadcast)

end

/-! ## Coming and exiting -/

/-- A thread has the next free number and a control block. -/
def enrol (s : Scheduler) (th : Thread) : Scheduler :=
  { s with
    threads := s.threads.insert s.allocator.next th
    allocator := ⟨s.allocator.next + 1⟩ }

/-- The current thread has exited, but has not been left yet. -/
structure Marked (status : Int) (s s' : Scheduler) : Prop where
  eligible : Eligible s'
  records : s'.records =
    ({ s with exitStatuses := s.exitStatuses.insert s.current status } : Scheduler).records
  exited : ∀ t, s'.exited? t = if t = s.current then some true else s.exited? t
  current : s'.current = s.current
  dying : s'.dying = s.dying
  switches : s'.switches = s.switches

/-- The current thread has exited, and the processor has left it. -/
structure Departed (status : Int) (s s' : Scheduler) : Prop where
  living : Living s'
  records : s'.records =
    ({ s with exitStatuses := s.exitStatuses.insert s.current status } : Scheduler).records
  exited : ∀ t, s'.exited? t =
    if t ∈ s.dying then none else if t = s.current then some true else s.exited? t
  dying : s'.dying = if s.current = s.main then [] else [s.current]
  switches : s'.switches = s.switches + 1

theorem Departed.then_census {status : Int} {s s' s'' : Scheduler} (h : Departed status s s')
    (same : s''.census = s'.census) : Departed status s s'' := by
  have living := h.living.of_census same
  simp only [census, Prod.mk.injEq] at same
  obtain ⟨records, exited, -, -, dying, switches⟩ := same
  exact ⟨living, records.trans h.records, fun t => exited ▸ h.exited t, dying.trans h.dying,
    switches.trans h.switches⟩

section

variable {R : Prop} {P : Set Tid} {s : Scheduler} {t : Tid}

theorem exited?_of_place {p : Place} (known : s.layout.place t = some p) :
    s.exited? t = some (decide (p.state = .dying)) := by
  obtain ⟨th, found, rfl⟩ := exists_thread known
  rw [exited?, found]
  rfl

theorem living_of_orderly (h : Orderly R P s.layout) : Living s where
  idle := by
    obtain ⟨p, known, alive, -⟩ := h.idle
    rw [exited?_of_place (t := s.idle) known]
    simp [alive]
  ready t mem := by
    obtain ⟨p, known, queued⟩ := h.exists_of_mem_queue (m := .ready) (by simp) mem
    rw [exited?_of_place known, ((h.proper t p known).ready.mpr queued)]
    rfl
  dying t doomed := by
    cases known : s.thread? t with
    | none => simp [exited?, known]
    | some th =>
      have dead := (h.doomed t doomed).2.2 th.place (place_of_thread known)
      rw [exited?_of_place (place_of_thread known), dead]
      simp
  current := by
    obtain ⟨p, known, running, -⟩ := h.current
    rw [exited?_of_place (t := s.current) known, running]
    rfl

theorem exited?_enrol {th : Thread} (blocked : th.state = .blocked) :
    (s.enrol th).exited? t = if t = s.allocator.next then some false else s.exited? t := by
  unfold exited? enrol thread?
  rw [Table.find?_insert]
  split
  · simp [blocked]
  · rfl

theorem living_enrol (living : Living s) {th : Thread} (blocked : th.state = .blocked)
    (numbered : ∀ t ∈ s.dying, t < s.allocator.next) : Living (s.enrol th) := by
  have stays : ∀ {t}, s.exited? t = some false → (s.enrol th).exited? t = some false := by
    intro t alive
    rw [exited?_enrol blocked]
    split
    · rfl
    · exact alive
  refine ⟨⟨stays living.idle, fun t mem => stays (living.ready t mem), fun t doomed => ?_⟩,
    stays living.current⟩
  rw [exited?_enrol blocked, if_neg (Int.ne_of_lt (numbered t doomed))]
  exact living.dying t doomed

/-- A thread is spawned under the next free number, or nothing changes. -/
theorem spawn_population (h : Orderly R P s.layout) (left : s.NumbersLeft) (name : String)
    (priority : Int) (argument : Nat) (space : Option SpaceId) :
    (spawn name priority argument space).Ends s (fun result s' =>
      (∃ e, result = .error e ∧ s' = s) ∨
        result = .ok s.allocator.next ∧ s.threads.size < s.capacity ∧
          ∃ th : Thread, th.state = .blocked ∧ (s.enrol th).Follows s') fun _ _ => True := by
  have living := living_of_orderly h
  unfold spawn
  rw [ends_bind]
  refine (reserve_ends name).imp fun result s₁ outcome => ?_
  cases outcome with
  | full => exact .inl ⟨_, rfl, rfl⟩
  | usedUp room none => exact absurd (left room) none
  | given room => ?_
  dsimp only
  have orderly : Orderly R P (s.layout.setNext (s.allocator.next + 1)) :=
    { h.toArranged.number (Int.le_of_lt (Int.lt_succ _)) with current := h.current }
  rw [ends_bind]
  refine (prepare_ends (F := fun _ => True) orderly name priority argument space).mono
    (fun th s₂ prepared => ?_) fun _ _ _ => trivial
  obtain ⟨rfl, place, -⟩ := prepared
  have blocked : th.state = .blocked := congrArg Place.state place
  rw [ends_bind, ends_emit, ends_bind, ends_modify, ends_bind]
  have begun : (s.enrol th).Follows (s.enrol th) :=
    ⟨living_enrol living blocked fun t doomed => (h.doomed t doomed).2.1, .inl rfl⟩
  refine (follows_of_preserves preserves_unblock (s.enrol th) begun).imp fun _ s₃ woken => ?_
  rw [ends_bind]
  refine (preemptCheck_follows s₃ woken).imp fun _ s' follows => ?_
  exact .inr ⟨rfl, room, th, blocked, follows⟩

/-- A thread that has exited is never chosen, so the next decision leaves it. -/
theorem Marked.departed {status : Int} {s₁ s' : Scheduler} (h : Marked status s s₁)
    (decision : Decision s₁ s') : Departed status s s' := by
  obtain ⟨living, exited⟩ := decision.population h.eligible
  have other : s'.current ≠ s₁.current := by
    intro same
    have alive := living.current
    rw [same, exited, h.exited, if_pos h.current] at alive
    split at alive <;> simp at alive
  obtain ⟨switches, -, last, found, dying⟩ := decision.left other
  have dead : last.state = .dying := by
    have marked := h.exited s₁.current
    rw [if_pos h.current, exited?, found] at marked
    simpa using marked
  have main : s₁.main = s.main := congrArg Prod.fst h.records
  constructor
  case living => exact living
  case records =>
    rw [decision.rest]
    exact h.records
  case exited =>
    intro t
    rw [exited, h.dying, h.exited]
  case dying =>
    rw [dying, h.current, main]
    by_cases first : s.current = s.main <;> simp [dead, first]
  case switches => rw [switches, h.switches]

/-- What marking the current thread does to a state in which it is in no queue. -/
theorem marked_of_census (living : Living s) (busy : s.current ≠ s.idle) {s₂ : Scheduler}
    (same : s₂.census = s.census) (unqueued : s.current ∉ s₂.ready.tids) (status : Int) :
    Marked status s { s₂ with
      threads := s₂.threads.modify s.current fun th => { th with exitStatus := status, state := .dying }
      exitStatuses := s₂.exitStatuses.insert s₂.current status } := by
  have living₂ : Living s₂ := living.of_census same
  simp only [census, records, Prod.mk.injEq] at same
  obtain ⟨⟨main, idle, capacity, allocator, statuses⟩, same, -, current, dying, switches⟩ := same
  have exited : ∀ t, ({ s₂ with
      threads := s₂.threads.modify s.current fun th => { th with exitStatus := status, state := .dying }
      exitStatuses := s₂.exitStatuses.insert s₂.current status } : Scheduler).exited? t =
        if t = s.current then some true else s.exited? t := by
    intro t
    rw [← same, exited?, thread?, Table.find?_modify]
    split
    · rename_i own
      have alive := living₂.current
      rw [current, exited?, Option.map_eq_some_iff] at alive
      obtain ⟨th, found, -⟩ := alive
      rw [own, show s₂.threads.find? s.current = some th from found]
      rfl
    · rfl
  have stays : ∀ {t}, t ≠ s.current → s.exited? t = some false → _ = some false :=
    fun {t} other alive => (exited t).trans ((if_neg other).trans alive)
  refine ⟨⟨?_, fun t mem => ?_, fun t doomed => ?_⟩, ?_, exited, current, dying, switches⟩
  · rw [show Scheduler.idle _ = s.idle from idle]
    exact stays (Ne.symm busy) living.idle
  · exact stays (fun own => unqueued (own ▸ mem)) (same ▸ living₂.ready t mem)
  · rw [exited t]
    split
    · simp
    · exact same ▸ living₂.dying t doomed
  · simp only [records, main, idle, capacity, allocator, statuses, current]

/-- The thread that exits is marked, and reclaimed later unless it is the first one. -/
theorem exit_population (h : Orderly R P s.layout) (status : Int) :
    (exit status).Ends s (fun _ s' => Departed status s s') fun _ _ => True := by
  have living := living_of_orderly h
  unfold exit
  rw [ends_bind, ends_get, ends_bind, ends_ensure]
  refine ⟨fun _ => ?_, fun _ => trivial⟩
  rw [ends_bind, ends_ensure]
  refine ⟨fun busy => ?_, fun _ => trivial⟩
  have orderly₁ : Orderly R P ({ s with interrupts := .off } : Scheduler).layout :=
    (Rested.off h rfl).orderly
  obtain ⟨p, known₁, running, free⟩ := orderly₁.current
  unfold disableInterrupts
  rw [ends_bind, ends_modifyGet, ends_bind]
  refine ((handOverAll_ends (F := fun _ => True) orderly₁ known₁).and
    (Preserves.ends (f := census) preserves_handOverAll _)).mono (fun _ s₂ both => ?_) fun _ _ _ => trivial
  obtain ⟨⟨orderly₂, -, -, known₂, -⟩, same₂⟩ := both
  have known₂ : s₂.layout.place s.current = some { p with heldLocks := [] } := known₂
  have unqueued : s.current ∉ s₂.ready.tids := by
    intro mem
    have queued := (orderly₂.mem_queue known₂ (m := .ready) (by simp)).mp mem
    simp [free] at queued
  obtain ⟨th, found, -⟩ := exists_thread known₂
  rw [ends_bind, ends_updateThread_of_some found, ends_bind]
  refine ends_of_preserves (f := id) preserves_thread fun _ s₃ same₃ => ?_
  simp only [id_eq] at same₃
  subst same₃
  rw [ends_bind, ends_emit, ends_bind, ends_modify, ends_bind]
  refine schedule_decides.imp fun _ s₅ decision => ?_
  have departed := (marked_of_census living busy same₂ unqueued status).departed decision
  exact ends_of_preserves (f := census) preserves_restoreInterrupts fun _ s' same =>
    departed.then_census same

end

end KernelCore.Scheduler
