import KernelCore.Proofs.Scheduler.Requests

/-!
# Robust properties

Whatever the scheduler does, it does by a few kinds of steps: it moves threads that are free to be
moved from queue to queue, changes priorities, hands the processor over, and lets threads come and
go. A property that survives every kind of step survives every event but the passing of time and
going to sleep.
-/
namespace KernelCore.Scheduler

open Transition

/-- The state without who waits for what and without how the processor is being used. -/
def bare (s : Scheduler) : Scheduler :=
  { s with
    main := 0
    ready := .empty
    exitStatuses := .empty
    locks := []
    semaphores := []
    condvars := []
    sliceTicks := 0
    tickCounts := ⟨0, 0, 0⟩
    switches := 0
    interrupts := .off
    inHandler := false
    yieldOnReturn := false }

theorem fields_of_bare {s s' : Scheduler} (same : s'.bare = s.bare) :
    s'.threads = s.threads ∧ s'.allocator = s.allocator ∧ s'.capacity = s.capacity ∧
      s'.current = s.current ∧ s'.idle = s.idle ∧ s'.sleepers = s.sleepers ∧ s'.dying = s.dying ∧
      s'.feedback = s.feedback ∧ s'.loadAverage = s.loadAverage ∧ s'.ticks = s.ticks := by
  simp only [bare, mk.injEq] at same
  simp only [same, and_self]

/-- A property that survives whatever the scheduler does with free threads, who are all but the
sleeping ones. -/
structure Robust (Free : Tid → Prop) (I : Scheduler → Prop) : Prop where
  current {s : Scheduler} : I s → Free s.current
  idle {s : Scheduler} : I s → Free s.idle
  dying {s : Scheduler} : I s → ∀ t ∈ s.dying, Free t
  queued {s : Scheduler} : I s → ∀ m, m ≠ .sleep → ∀ t ∈ s.queue m, Free t
  unqueued {s : Scheduler} {t : Tid} {th : Thread} : I s → s.thread? t = some th →
    th.membership = .none → Free t
  /-- Free threads may wait for anything. -/
  alike {s s' : Scheduler} : I s → s'.bare = s.bare →
    (∀ m, m ≠ .sleep → ∀ t ∈ s'.queue m, Free t) → I s'
  /-- Only free threads are moved, and nobody's use of the processor is changed. -/
  update {s : Scheduler} {t : Tid} {f : Thread → Thread} : I s →
    (∀ th, (f th).nice = th.nice ∧ (f th).recentCpu = th.recentCpu) →
    (Free t ∨ ∀ th, (f th).state = th.state ∧ (f th).membership = th.membership) →
    I { s with threads := s.threads.modify t f }
  renice {s : Scheduler} {th : Thread} {f : Thread → Thread} : I s →
    s.thread? s.current = some th → (f th).recentCpu = th.recentCpu →
    minNice ≤ (f th).nice ∧ (f th).nice ≤ maxNice →
    I { s with threads := s.threads.modify s.current f }
  /-- A new thread has used the processor as much as its creator. -/
  bear {s : Scheduler} {creator th : Thread} : I s → s.threads.size < s.capacity →
    s.thread? s.current = some creator → th.nice = creator.nice →
    th.recentCpu = creator.recentCpu →
    I { s with
      threads := s.threads.insert s.allocator.next th
      allocator := ⟨s.allocator.next + 1⟩ }
  forget {s : Scheduler} : I s → I { s with dying := [] }
  reclaim {s : Scheduler} {t : Tid} : I s → Free t → I { s with threads := s.threads.erase t }
  switch {s : Scheduler} {t : Tid} {dying : List Tid} {switches : Nat} : I s → s.dying = [] →
    Free t → s.current ≠ t → dying = [s.current] ∨ dying = [] →
    I { s with dying, current := t, switches }

/-! ## Queues -/

section

variable {s : Scheduler} {t : Tid} {m : Membership}

private theorem getD_modify_cases {α : Type} [Inhabited α] (xs : List α) (i : Nat) (f : α → α)
    (k : Nat) : (xs.modify i f)[k]?.getD default = xs[k]?.getD default ∨
      k = i ∧ (xs.modify i f)[k]?.getD default = f (xs[i]?.getD default) := by
  by_cases same : k = i
  · subst same
    by_cases inside : k < xs.length
    · simp [inside]
    · simp [inside]
  · simp [Ne.symm same]

theorem mem_queue_modifyLock {l : LockId} {f : LockState → LockState}
    (mem : t ∈ ({ s with locks := s.locks.modify l.index f } : Scheduler).queue m) :
    t ∈ s.queue m ∨ m = .lock l ∧ t ∈ (f (s.lockState l)).waiters.tids := by
  cases m with
  | lock k =>
    rcases getD_modify_cases s.locks l.index f k.index with same | ⟨index, changed⟩
    · left
      simpa [queue, lockState, same] using mem
    · right
      obtain rfl : k = l := by
        cases k
        cases l
        simpa using index
      refine ⟨rfl, ?_⟩
      simpa only [queue, lockState, changed] using mem
  | _ => exact .inl mem

theorem mem_queue_modifySemaphore {i : SemaphoreId} {f : SemaphoreState → SemaphoreState}
    (mem : t ∈ ({ s with semaphores := s.semaphores.modify i.index f } : Scheduler).queue m) :
    t ∈ s.queue m ∨ m = .semaphore i ∧ t ∈ (f (s.semaphoreState i)).waiters.tids := by
  cases m with
  | semaphore k =>
    rcases getD_modify_cases s.semaphores i.index f k.index with same | ⟨index, changed⟩
    · left
      simpa [queue, semaphoreState, same] using mem
    · right
      obtain rfl : k = i := by
        cases k
        cases i
        simpa using index
      refine ⟨rfl, ?_⟩
      simpa only [queue, semaphoreState, changed] using mem
  | _ => exact .inl mem

theorem mem_queue_modifyCondvar {c : CondvarId} {f : CondvarState → CondvarState}
    (mem : t ∈ ({ s with condvars := s.condvars.modify c.index f } : Scheduler).queue m) :
    t ∈ s.queue m ∨ m = .condvar c ∧ t ∈ (f (s.condvarState c)).waiters.tids := by
  cases m with
  | condvar k =>
    rcases getD_modify_cases s.condvars c.index f k.index with same | ⟨index, changed⟩
    · left
      simpa [queue, condvarState, same] using mem
    · right
      obtain rfl : k = c := by
        cases k
        cases c
        simpa using index
      refine ⟨rfl, ?_⟩
      simpa only [queue, condvarState, changed] using mem
  | _ => exact .inl mem

theorem mem_queue_setReady {q : PriorityQueue}
    (mem : t ∈ ({ s with ready := q } : Scheduler).queue m) : t ∈ s.queue m ∨ t ∈ q.tids := by
  cases m with
  | ready => exact .inr mem
  | _ => exact .inl mem

/-- Whoever is left or has been taken out was queued. -/
theorem mem_of_popMax (q : PriorityQueue) (priority : Tid → Int) :
    (∀ x ∈ (q.popMax priority).2.tids, x ∈ q.tids) ∧
      ∀ x, (q.popMax priority).1 = some x → x ∈ q.tids := by
  cases taken : (q.popMax priority).1 with
  | none =>
    rw [(PriorityQueue.popMax_of_none taken).2]
    exact ⟨fun _ mem => mem, fun x some => by simp at some⟩
  | some w =>
    obtain ⟨foremost, rest⟩ := PriorityQueue.popMax_of_some taken
    rw [rest]
    refine ⟨fun x mem => List.mem_of_mem_erase mem, fun x same => ?_⟩
    obtain rfl := Option.some.inj same
    exact foremost.mem

theorem tids_of_push {q q' : PriorityQueue} (pushed : q.push t = .ok q') :
    q'.tids = q.tids ++ [t] := by
  by_cases mem : t ∈ q.tids
  · simp [PriorityQueue.push, mem] at pushed
  · rw [PriorityQueue.push_of_not_mem mem] at pushed
    cases pushed
    rfl

end

/-! ## What a new thread is like -/

section

variable {s : Scheduler}

theorem prepare_exact {t : Tid} {name : String} {priority : Int} {argument : Nat}
    {space : Option SpaceId} :
    (prepare t name priority argument space).Ends s (fun th s' => s' = s ∧ ∃ creator,
      s.thread? s.current = some creator ∧ th.nice = creator.nice ∧
        th.recentCpu = creator.recentCpu) fun _ _ => True := by
  unfold prepare
  rw [ends_bind, ends_get, ends_bind]
  cases known : s.thread? s.current with
  | none => exact (ends_thread_of_none known).mpr trivial
  | some creator =>
    rw [ends_thread known]
    dsimp only
    rw [ends_ite]
    refine ⟨fun _ => ?_, fun _ => ⟨rfl, creator, rfl, rfl, rfl⟩⟩
    refine ends_arithmetic_of_gives (Thread.reprioritized_gives _) fun th _ use => ?_
    exact ⟨rfl, creator, rfl, use.1, use.2⟩

end

namespace Robust

variable {Free : Tid → Prop} {I : Scheduler → Prop} {t : Tid} {level : InterruptLevel}
  {l : LockId} {i : SemaphoreId} {c : CondvarId}

/-! ## Steps -/

section

variable (h : Robust Free I)

include h

/-- What concerns neither threads nor queues is of no consequence. -/
theorem same {s s' : Scheduler} (begun : I s) (bare : s'.bare = s.bare)
    (queues : s'.queue = s.queue) : I s' := by
  apply h.alike begun bare
  intro m awake t mem
  rw [queues] at mem
  exact h.queued begun m awake t mem

/-- Who has joined a queue has to be free. -/
theorem requeue {s s' : Scheduler} (begun : I s) (bare : s'.bare = s.bare)
    (queues : ∀ m t, t ∈ s'.queue m → t ∈ s.queue m ∨ Free t) : I s' := by
  apply h.alike begun bare
  intro m awake t mem
  rcases queues m t mem with mem | free
  · exact h.queued begun m awake t mem
  · exact free

theorem modify {g : Scheduler → Scheduler} (bare : ∀ s, (g s).bare = s.bare)
    (queues : ∀ s, (g s).queue = s.queue) : Maintains I (Transition.modify g : Scheduling Unit) :=
  .modify fun s begun => h.same begun (bare s) (queues s)

theorem thread : Yields I (Scheduler.thread t) fun th => th.membership = .none → Free t := by
  intro s begun
  cases known : s.thread? t with
  | none => exact (ends_thread_of_none known).mpr trivial
  | some th => exact (ends_thread known).mpr ⟨begun, h.unqueued begun known⟩

theorem updateThread {f : Thread → Thread}
    (use : ∀ th, (f th).nice = th.nice ∧ (f th).recentCpu = th.recentCpu)
    (moved : Free t ∨ ∀ th, (f th).state = th.state ∧ (f th).membership = th.membership) :
    Maintains I (Scheduler.updateThread t f) := by
  intro s begun
  cases known : s.thread? t with
  | none => exact (ends_updateThread_of_none known).mpr trivial
  | some th =>
    exact (ends_updateThread_of_some known).mpr ⟨h.update begun use moved, trivial⟩

theorem pushReady {choice : Scheduler → Tid} (free : ∀ s, I s → Free (choice s)) :
    Maintains I (Transition.update fun s : Scheduler =>
      (s.ready.push (choice s)).map fun q => { s with ready := q }) := by
  apply Yields.update
  intro s s' begun pushed
  cases value : s.ready.push (choice s) with
  | error e => simp [value, Except.map] at pushed
  | ok q =>
    simp only [value, Except.map, Except.ok.injEq] at pushed
    subst pushed
    refine h.requeue begun rfl fun m x mem => ?_
    refine (mem_queue_setReady mem).imp_right fun joined => ?_
    rw [tids_of_push value, List.mem_append, List.mem_singleton] at joined
    rcases joined with queued | rfl
    · exact h.queued begun .ready (by simp) x queued
    · exact free s begun

theorem updateLock {f : LockState → LockState}
    (free : ∀ s, I s → ∀ x ∈ (f (s.lockState l)).waiters.tids, Free x) :
    Maintains I (Scheduler.updateLock l f) := by
  apply Yields.modify
  intro s begun
  refine h.requeue begun rfl fun m x mem => ?_
  exact (mem_queue_modifyLock mem).imp_right fun joined => free s begun x joined.2

theorem updateSemaphore {f : SemaphoreState → SemaphoreState}
    (free : ∀ s, I s → ∀ x ∈ (f (s.semaphoreState i)).waiters.tids, Free x) :
    Maintains I (Scheduler.updateSemaphore i f) := by
  apply Yields.modify
  intro s begun
  refine h.requeue begun rfl fun m x mem => ?_
  exact (mem_queue_modifySemaphore mem).imp_right fun joined => free s begun x joined.2

theorem updateCondvar {f : CondvarState → CondvarState}
    (free : ∀ s, I s → ∀ x ∈ (f (s.condvarState c)).waiters.tids, Free x) :
    Maintains I (Scheduler.updateCondvar c f) := by
  apply Yields.modify
  intro s begun
  refine h.requeue begun rfl fun m x mem => ?_
  exact (mem_queue_modifyCondvar mem).imp_right fun joined => free s begun x joined.2

/-- Who enters a queue behind free threads has to be free. -/
theorem push {s : Scheduler} (begun : I s) {m : Membership} (awake : m ≠ .sleep)
    {q : PriorityQueue} (waiting : q.tids = s.queue m) (free : Free t) :
    Yields I (ofExcept (q.push t) : Scheduling PriorityQueue) fun q' => ∀ x ∈ q'.tids, Free x := by
  intro s₁ begun₁
  cases pushed : q.push t with
  | error e => exact trivial
  | ok q' =>
    refine ⟨begun₁, fun x mem => ?_⟩
    rw [tids_of_push pushed, List.mem_append, List.mem_singleton] at mem
    rcases mem with mem | rfl
    · exact h.queued begun m awake x (waiting ▸ mem)
    · exact free

theorem disableInterrupts : Maintains I Scheduler.disableInterrupts := by
  apply Yields.modifyGet
  intro s begun
  have off : I { s with interrupts := .off } := h.same begun rfl rfl
  exact ⟨off, trivial⟩

theorem setInterrupts : Maintains I (Scheduler.setInterrupts level) := by
  cases level with
  | off => exact h.disableInterrupts
  | on =>
    exact .bind .get fun _ _ => .bind .ensure fun _ _ =>
      .bind (h.modify (fun _ => rfl) fun _ => rfl) fun _ _ => .pure trivial

theorem restoreInterrupts : Maintains I (Scheduler.restoreInterrupts level) := by
  apply Yields.modify
  intro s begun
  split
  · exact h.same begun rfl rfl
  · exact begun

/-! ## Dispatching -/

theorem unblock : Maintains I (Scheduler.unblock t) := by
  refine .bind h.disableInterrupts fun level _ => .bind h.thread fun th unqueued => ?_
  refine .bind .ensure fun _ _ => .bind .ensure fun _ free => ?_
  have free : Free t := unqueued free
  exact .bind (h.updateThread (fun _ => ⟨rfl, rfl⟩) (.inl free)) fun _ _ =>
    .bind (h.pushReady fun _ _ => free) fun _ _ => h.restoreInterrupts

theorem wake (free : Free t) : Maintains I (Scheduler.wake t) :=
  .bind (h.updateThread (fun _ => ⟨rfl, rfl⟩) (.inl free)) fun _ _ => h.unblock

/-- Sleepers are woken if everybody is free. -/
theorem wakeSleepers (free : ∀ t, Free t)
    (sleepers : ∀ {s}, I s → ∀ q, I { s with sleepers := q }) : Maintains I Scheduler.wakeSleepers := by
  refine .bind .get fun _ _ => .times (.bind .get fun s _ => ?_) _
  split
  · exact .pure trivial
  · exact .bind (.modify fun _ begun => sleepers begun _) fun _ _ => h.wake (free _)

/-- No control block is left to be reclaimed. -/
theorem reclaimAll_ends {s : Scheduler} (begun : I s) :
    reclaimAll.Ends s (fun _ s' => I s' ∧ s'.dying = []) fun _ _ => True := by
  have reclaims : ∀ x ∈ s.dying, Maintains (fun s' => I s' ∧ s'.dying = []) (Scheduler.reclaim x) := by
    intro x mem
    refine .bind .get fun s₁ _ => ?_
    split
    · exact .pure trivial
    · refine .bind (.modify fun s₂ begun₂ => ?_) fun _ _ => .emit
      exact ⟨h.reclaim begun₂.1 (h.dying begun x mem), begun₂.2⟩
  have all := Yields.forAll reclaims { s with dying := [] } ⟨h.forget begun, rfl⟩
  exact all.imp fun _ _ h' => h'.1

theorem pickNext_ends {s : Scheduler} (begun : I s) :
    pickNext.Ends s (fun next s' => I s' ∧ s'.dying = s.dying ∧ Free next) fun _ _ => True := by
  obtain ⟨left, taken⟩ := mem_of_popMax s.ready s.priorityOf
  have ready : ∀ x ∈ s.ready.tids, Free x := h.queued begun .ready (by simp)
  unfold pickNext
  rw [ends_modifyGet]
  dsimp only
  refine ⟨?_, rfl, ?_⟩
  · refine h.requeue begun rfl fun m x mem => ?_
    exact (mem_queue_setReady mem).imp_right fun stays => ready x (left x stays)
  · cases next : (s.ready.popMax s.priorityOf).1 with
    | none => exact h.idle begun
    | some w => exact ready w (taken w next)

theorem switchTo_ends {s : Scheduler} (begun : I s) (clean : s.dying = []) (free : Free t) :
    (switchTo t).Ends s (fun _ s' => I s') fun _ _ => True := by
  unfold switchTo
  rw [ends_bind, ends_get, ends_ite]
  refine ⟨fun _ => begun, fun other => ?_⟩
  rw [ends_bind]
  cases known : s.thread? s.current with
  | none => exact (ends_thread_of_none known).mpr trivial
  | some last =>
    rw [ends_thread known, ends_modify]
    apply h.switch begun clean free other
    rw [clean]
    split
    · exact .inl rfl
    · exact .inr rfl

theorem dispatch_ends {s : Scheduler} (begun : I s) (clean : s.dying = []) (free : Free t) :
    (dispatch t).Ends s (fun _ s' => I s') fun _ _ => True := by
  unfold dispatch
  rw [ends_bind]
  cases known : s.thread? t with
  | none => exact (ends_updateThread_of_none known).mpr trivial
  | some th =>
    rw [ends_updateThread_of_some known, ends_bind, ends_modify]
    have moved := h.update begun (f := fun th => { th with state := .running, membership := .none })
      (fun _ => ⟨rfl, rfl⟩) (.inl free)
    exact h.switchTo_ends (h.same moved rfl rfl) clean free

theorem schedule : Maintains I Scheduler.schedule := by
  refine .bind .get fun _ _ => .bind .ensure fun _ _ => .bind h.thread fun _ _ => .bind .ensure fun _ _ => ?_
  intro s begun
  rw [ends_bind]
  refine (h.reclaimAll_ends begun).imp fun _ s₁ cleared => ?_
  obtain ⟨begun₁, clean₁⟩ := cleared
  rw [ends_bind]
  refine (h.pickNext_ends begun₁).imp fun next s₂ picked => ?_
  obtain ⟨begun₂, clean₂, free⟩ := picked
  rw [ends_bind]
  refine (h.dispatch_ends begun₂ (clean₂.trans clean₁) free).imp fun _ s₃ begun₃ => ?_
  have checked : Maintains I assertConsistent := .bind .get fun _ _ => Yields.ofExcept.forget
  exact checked s₃ begun₃

theorem block : Maintains I Scheduler.block := by
  refine .bind .get fun s begun => .bind .ensure fun _ _ => .bind .ensure fun _ _ => ?_
  exact .bind (h.updateThread (fun _ => ⟨rfl, rfl⟩) (.inl (h.current begun))) fun _ _ => h.schedule

theorem yield : Maintains I Scheduler.yield := by
  refine .bind .get fun s begun => .bind .ensure fun _ _ => .bind h.disableInterrupts fun level _ => ?_
  have free : Free s.current := h.current begun
  have rest : Maintains I (Scheduler.schedule >>= fun _ => Scheduler.restoreInterrupts level) :=
    .bind h.schedule fun _ _ => h.restoreInterrupts
  refine .ite (fun _ => ?_) fun _ => ?_
  · exact .bind (h.updateThread (fun _ => ⟨rfl, rfl⟩) (.inl free)) fun _ _ => rest
  · exact .bind (h.updateThread (fun _ => ⟨rfl, rfl⟩) (.inl free)) fun _ _ =>
      .bind (h.pushReady fun _ begun => h.current begun) fun _ _ => rest

theorem preemptCheck : Maintains I Scheduler.preemptCheck := by
  refine .bind .get fun s _ => ?_
  split
  · exact .pure trivial
  · exact .ite (fun _ => .pure trivial) fun _ =>
      .ite (fun _ => h.modify (fun _ => rfl) fun _ => rfl) fun _ => h.yield

/-- An operation ends by setting the interrupt level it began with. -/
theorem close {α : Type} {a : α} :
    Maintains I (do let _ ← Scheduler.setInterrupts level; pure a : Scheduling α) :=
  .bind h.setInterrupts fun _ _ => .pure trivial

theorem close_preempt : Maintains I (do let _ ← Scheduler.setInterrupts level; Scheduler.preemptCheck) :=
  .bind h.setInterrupts fun _ _ => h.preemptCheck

theorem restore_preempt :
    Maintains I (do Scheduler.restoreInterrupts level; Scheduler.preemptCheck) :=
  .bind h.restoreInterrupts fun _ _ => h.preemptCheck

/-! ## Priorities -/

/-- Also a thread that is not free may get another priority. -/
theorem refreshPriority : Maintains I (Scheduler.refreshPriority t) :=
  .bind .get fun _ _ => .ite (fun _ => .pure trivial) fun _ => .bind h.thread fun _ _ =>
    .bind (h.updateThread (fun _ => ⟨rfl, rfl⟩) (.inr fun _ => ⟨rfl, rfl⟩)) fun _ _ => .pure trivial

theorem propagateFrom (depth : Nat) : Maintains I (Scheduler.propagateFrom depth t) := by
  induction depth generalizing t with
  | zero => exact .pure trivial
  | succ depth ih =>
    refine .bind h.thread fun th _ => .bind .get fun s _ => ?_
    split
    · exact .pure trivial
    · split
      · exact .pure trivial
      · exact .bind h.refreshPriority fun _ _ => .ite (fun _ => .pure trivial) fun _ => ih

theorem propagatePriority : Maintains I (Scheduler.propagatePriority t) :=
  .bind .get fun _ _ => .ite (fun _ => .pure trivial) fun _ => h.propagateFrom _

theorem setPriority {priority : Int} : Maintains I (Scheduler.setPriority priority) :=
  .bind .get fun _ _ => .ite (fun _ => .emit) fun _ => .bind h.disableInterrupts fun _ _ =>
    .bind (h.updateThread (fun _ => ⟨rfl, rfl⟩) (.inr fun _ => ⟨rfl, rfl⟩)) fun _ _ =>
      .bind h.refreshPriority fun _ _ => h.restore_preempt

/-! ## Handlers -/

theorem enterHandler : Maintains I Scheduler.enterHandler :=
  .bind .get fun _ _ => .bind .ensure fun _ _ => .bind h.disableInterrupts fun _ _ =>
    .bind (h.modify (fun _ => rfl) fun _ => rfl) fun _ _ => .pure trivial

theorem leaveHandler : Maintains I (Scheduler.leaveHandler level) :=
  .bind (h.modify (fun _ => rfl) fun _ => rfl) fun _ _ => .bind .get fun _ _ =>
    .ite (fun _ => .bind (h.modify (fun _ => rfl) fun _ => rfl) fun _ _ => .bind h.yield fun _ _ =>
      h.restoreInterrupts) fun _ => h.restoreInterrupts

/-! ## Locks -/

theorem take (free : Free t) : Maintains I (Scheduler.take l t) :=
  .bind (h.updateLock fun s begun => h.queued begun (.lock l) (by simp)) fun _ _ =>
    h.updateThread (fun _ => ⟨rfl, rfl⟩) (.inl free)

theorem popLockWaiter : Yields I (Scheduler.popLockWaiter l) fun next => ∀ w, next = some w → Free w := by
  apply Yields.modifyGet
  intro s begun
  obtain ⟨left, taken⟩ := mem_of_popMax (s.lockState l).waiters s.priorityOf
  have waiting : ∀ x ∈ (s.lockState l).waiters.tids, Free x := h.queued begun (.lock l) (by simp)
  refine ⟨?_, fun w next => waiting w (taken w next)⟩
  exact (h.updateLock (f := fun x => { x with waiters := ((s.lockState l).waiters.popMax s.priorityOf).2 })
    (fun _ _ x mem => waiting x (left x mem)) s begun).1

theorem acquire : Maintains I (Scheduler.acquire l) := by
  refine .bind .get fun s begun => .bind .ensure fun _ _ => .bind .ensure fun _ _ =>
    .bind h.disableInterrupts fun level _ => ?_
  have free : Free s.current := h.current begun
  refine .ite (fun _ => ?_) fun _ => ?_
  · exact .bind (h.take free) fun _ _ => .bind (P := fun _ => True) (.pure trivial) fun _ _ => h.close
  · refine .bind (h.updateThread (fun _ => ⟨rfl, rfl⟩) (.inl free)) fun _ _ => ?_
    refine .bind (h.push begun (m := .lock l) (by simp) rfl free) fun waiters queued => ?_
    exact .bind (h.updateLock fun _ _ => queued) fun _ _ => .bind h.propagatePriority fun _ _ =>
      .bind h.block fun _ _ => .bind (P := fun _ => True) (.pure trivial) fun _ _ => h.close

theorem tryAcquire : Maintains I (Scheduler.tryAcquire l) := by
  refine .bind .get fun s begun => .bind h.disableInterrupts fun level _ => ?_
  exact .ite (fun _ => .bind (h.take (h.current begun)) fun _ _ => h.close) fun _ => h.close

theorem handOver (free : Free t) : Maintains I (Scheduler.handOver l t) := by
  refine .bind (h.updateThread (fun _ => ⟨rfl, rfl⟩) (.inl free)) fun _ _ => ?_
  refine .bind h.popLockWaiter fun next waiting => ?_
  refine .bind (h.updateLock fun s begun => h.queued begun (.lock l) (by simp)) fun _ _ => ?_
  have rest : Maintains I (do let _ ← Scheduler.refreshPriority t : Scheduling Unit) :=
    .bind h.refreshPriority fun _ _ => .pure trivial
  cases next with
  | none => exact rest
  | some w =>
    exact .bind (h.updateThread (fun _ => ⟨rfl, rfl⟩) (.inl (waiting w rfl))) fun _ _ =>
      .bind h.refreshPriority fun _ _ => .bind h.unblock fun _ _ => .bind .emit fun _ _ => rest

theorem release : Maintains I (Scheduler.release l) :=
  .bind .get fun _ begun => .bind .ensure fun _ _ => .bind h.disableInterrupts fun _ _ =>
    .bind (h.handOver (h.current begun)) fun _ _ => h.close_preempt

theorem handOverAll (free : Free t) : Maintains I (Scheduler.handOverAll t) := by
  refine .bind .get fun s _ => ?_
  split
  · exact .pure trivial
  · exact .forAll fun _ _ => h.handOver free

/-! ## Semaphores -/

theorem popSemaphoreWaiter :
    Yields I (Scheduler.popSemaphoreWaiter i) fun next => ∀ w, next = some w → Free w := by
  apply Yields.modifyGet
  intro s begun
  obtain ⟨left, taken⟩ := mem_of_popMax (s.semaphoreState i).waiters s.priorityOf
  have waiting : ∀ x ∈ (s.semaphoreState i).waiters.tids, Free x :=
    h.queued begun (.semaphore i) (by simp)
  refine ⟨?_, fun w next => waiting w (taken w next)⟩
  exact (h.updateSemaphore
    (f := fun x => { x with waiters := ((s.semaphoreState i).waiters.popMax s.priorityOf).2 })
    (fun _ _ x mem => waiting x (left x mem)) s begun).1

theorem down : Maintains I (Scheduler.down i) := by
  refine .bind .get fun s begun => .bind .ensure fun _ _ => .bind h.disableInterrupts fun level _ => ?_
  have free : Free s.current := h.current begun
  refine .ite (fun _ => ?_) fun _ => ?_
  · exact .bind (h.updateSemaphore fun s begun => h.queued begun (.semaphore i) (by simp)) fun _ _ =>
      .bind (P := fun _ => True) (.pure trivial) fun _ _ => h.close
  · refine .bind (h.push begun (m := .semaphore i) (by simp) rfl free) fun waiters queued => ?_
    exact .bind (h.updateSemaphore fun _ _ => queued) fun _ _ =>
      .bind (h.updateThread (fun _ => ⟨rfl, rfl⟩) (.inl free)) fun _ _ =>
        .bind h.block fun _ _ => .bind (P := fun _ => True) (.pure trivial) fun _ _ => h.close

theorem tryDown : Maintains I (Scheduler.tryDown i) :=
  .bind .get fun _ _ => .bind h.disableInterrupts fun _ _ =>
    .ite (fun _ => .bind (h.updateSemaphore fun s begun => h.queued begun (.semaphore i) (by simp))
      fun _ _ => h.close) fun _ => h.close

theorem up : Maintains I (Scheduler.up i) := by
  refine .bind h.disableInterrupts fun level _ => .bind h.popSemaphoreWaiter fun next waiting => ?_
  cases next with
  | none =>
    have unit : Maintains I (addUnit i) := .bind .get fun _ _ => .bind .ensure fun _ _ =>
      h.updateSemaphore fun s begun => h.queued begun (.semaphore i) (by simp)
    exact .bind unit fun _ _ => h.close_preempt
  | some w =>
    exact .bind (h.updateThread (fun _ => ⟨rfl, rfl⟩) (.inl (waiting w rfl))) fun _ _ =>
      .bind h.unblock fun _ _ => h.close_preempt

/-! ## Condition variables -/

theorem popCondvarWaiter :
    Yields I (Scheduler.popCondvarWaiter c) fun next => ∀ w, next = some w → Free w := by
  apply Yields.modifyGet
  intro s begun
  obtain ⟨left, taken⟩ := mem_of_popMax (s.condvarState c).waiters s.priorityOf
  have waiting : ∀ x ∈ (s.condvarState c).waiters.tids, Free x :=
    h.queued begun (.condvar c) (by simp)
  refine ⟨?_, fun w next => waiting w (taken w next)⟩
  exact (h.updateCondvar
    (f := fun x => { x with waiters := ((s.condvarState c).waiters.popMax s.priorityOf).2 })
    (fun _ _ x mem => waiting x (left x mem)) s begun).1

theorem wait : Maintains I (Scheduler.wait c l) := by
  refine .bind .get fun s begun => .bind .ensure fun _ _ => .bind .ensure fun _ _ =>
    .bind h.disableInterrupts fun level _ => ?_
  have free : Free s.current := h.current begun
  refine .bind (h.handOver free) fun _ _ => ?_
  refine .bind (h.push begun (m := .condvar c) (by simp) rfl free) fun waiters queued => ?_
  exact .bind (h.updateCondvar fun _ _ => queued) fun _ _ =>
    .bind (h.updateThread (fun _ => ⟨rfl, rfl⟩) (.inl free)) fun _ _ =>
      .bind h.block fun _ _ => .bind h.setInterrupts fun _ _ => .pure trivial

theorem moveToLock (free : Free t) : Maintains I (Scheduler.moveToLock c l t) := by
  refine .bind .get fun s begun => ?_
  refine .bind (h.updateCondvar fun s begun => h.queued begun (.condvar c) (by simp)) fun _ _ => ?_
  refine .bind .ensure fun _ _ => .bind (h.updateThread (fun _ => ⟨rfl, rfl⟩) (.inl free)) fun _ _ => ?_
  refine .bind (h.push begun (m := .lock l) (by simp) rfl free) fun waiters queued => ?_
  exact .bind (h.updateLock fun _ _ => queued) fun _ _ => h.propagatePriority

theorem signal : Maintains I (Scheduler.signal c l) := by
  refine .bind .get fun s _ => .bind .ensure fun _ _ => .bind h.disableInterrupts fun level _ => ?_
  refine .bind h.popCondvarWaiter fun next waiting => ?_
  have rest : Maintains I (do let _ ← Scheduler.setInterrupts level : Scheduling Unit) :=
    .bind h.setInterrupts fun _ _ => .pure trivial
  cases next with
  | none => exact rest
  | some w => exact .bind (h.moveToLock (waiting w rfl)) fun _ _ => rest

theorem broadcast : Maintains I (Scheduler.broadcast c l) :=
  .bind .get fun _ _ => .times h.signal _

/-! ## Threads -/

theorem spawn {s : Scheduler} (begun : I s) (left : s.NumbersLeft) {name : String} {priority : Int}
    {argument : Nat} {space : Option SpaceId} :
    (Scheduler.spawn name priority argument space).Ends s (fun _ s' => I s') fun _ _ => True := by
  unfold Scheduler.spawn
  rw [ends_bind]
  refine (reserve_ends name).imp fun reserved s₁ outcome => ?_
  cases outcome with
  | full => exact begun
  | usedUp room none => exact absurd (left room) none
  | given room =>
    dsimp only
    rw [ends_bind]
    refine prepare_exact.imp fun th s₂ prepared => ?_
    obtain ⟨rfl, creator, known, nice, recent⟩ := prepared
    rw [ends_bind, ends_emit, ends_bind, ends_modify]
    have spawned := h.bear begun room known nice recent
    have rest : Maintains I (do
        Scheduler.unblock s.allocator.next
        Scheduler.preemptCheck
        pure (.ok s.allocator.next) : Scheduling (Except SchedulerError Tid)) :=
      .bind h.unblock fun _ _ => .bind h.preemptCheck fun _ _ => .pure trivial
    exact rest.ends spawned

theorem exit {status : Int} : Maintains I (Scheduler.exit status) := by
  refine .bind .get fun s begun => .bind .ensure fun _ _ => .bind .ensure fun _ _ =>
    .bind h.disableInterrupts fun level _ => ?_
  have free : Free s.current := h.current begun
  exact .bind (h.handOverAll free) fun _ _ =>
    .bind (h.updateThread (fun _ => ⟨rfl, rfl⟩) (.inl free)) fun _ _ =>
      .bind h.thread fun _ _ => .bind .emit fun _ _ =>
        .bind (h.modify (fun _ => rfl) fun _ => rfl) fun _ _ => .bind h.schedule fun _ _ =>
          h.restoreInterrupts

theorem setSpace {space : Option SpaceId} : Maintains I (Scheduler.setSpace t space) := by
  refine .bind .get fun s _ => ?_
  split
  · exact .pure trivial
  · exact .bind (h.updateThread (fun _ => ⟨rfl, rfl⟩) (.inr fun _ => ⟨rfl, rfl⟩)) fun _ _ =>
      .pure trivial

theorem setNice {nice : Int} : Maintains I (Scheduler.setNice nice) := by
  refine .bind h.disableInterrupts fun level _ => ?_
  intro s begun
  rw [ends_bind, ends_get, ends_bind]
  cases known : s.thread? s.current with
  | none => exact (ends_updateThread_of_none known).mpr trivial
  | some th =>
    rw [ends_updateThread_of_some known]
    generalize changed : ({ s with threads := s.threads.modify s.current fun th =>
      { th with nice := clampNice nice } } : Scheduler) = s₁
    have current : s₁.current = s.current := changed ▸ rfl
    have known₁ : s₁.thread? s.current = some { th with nice := clampNice nice } := by
      rw [← changed]
      have found : s.threads.find? s.current = some th := known
      simp [thread?, Table.find?_modify, found]
    have begun₁ : I s₁ := changed ▸ h.renice begun known rfl (clampNice_bounds nice)
    dsimp only
    rw [ends_ite]
    refine ⟨fun _ => ?_, fun _ => h.restore_preempt s₁ begun₁⟩
    rw [ends_bind, ends_thread known₁, ends_bind]
    refine ends_arithmetic_of_gives (Thread.reprioritized_gives _) fun p _ use => ?_
    obtain ⟨sameNice, sameRecent⟩ := use
    rw [ends_bind, ends_updateThread_of_some known₁]
    rw [← current] at known₁ ⊢
    have begun₂ := h.renice begun₁ (f := fun _ => p) known₁ sameRecent
      (sameNice ▸ clampNice_bounds nice)
    exact h.restore_preempt _ begun₂

/-- Going to sleep is like any other wait if the property bears another sleeper. -/
theorem sleepUntil {wakeTick : Nat} (bed : ∀ s t, I s → Free t →
    I { s with sleepers := s.sleepers.push t wakeTick }) :
    Maintains I (Scheduler.sleepUntil wakeTick) := by
  refine .bind .get fun s begun => .ite (fun _ => .pure trivial) fun _ => ?_
  refine .bind .ensure fun _ _ => .bind .ensure fun _ _ => .bind h.disableInterrupts fun level _ => ?_
  exact .bind (h.updateThread (fun _ => ⟨rfl, rfl⟩) (.inl (h.current begun))) fun _ _ =>
    .bind (.modify fun s begun => bed s s.current begun (h.current begun)) fun _ _ =>
      .bind h.block fun _ _ => h.restoreInterrupts

theorem sleep {ticks : Int} (bed : ∀ s t n, I s → Free t →
    I { s with sleepers := s.sleepers.push t n }) : Maintains I (Scheduler.sleep ticks) :=
  .bind .get fun _ _ => .ite (fun _ => .pure trivial) fun _ => h.sleepUntil fun s t => bed s t _

theorem summarize : Maintains I Scheduler.summarize :=
  .bind .get fun _ _ => .bind (.bind .get fun _ _ => h.thread.forget) fun _ _ =>
    .bind (P := fun _ => True) (.bind .get fun _ _ => .bind h.thread fun _ _ => .pure trivial)
      fun _ _ => .pure trivial

/-- A new lock, semaphore or condition variable has no waiters. -/
theorem grow {α : Type} {g : Scheduler → α × Scheduler} (bare : ∀ s, (g s).2.bare = s.bare)
    (grown : ∀ s, Grown s (g s).2) : Maintains I (Transition.modifyGet g : Scheduling α) := by
  apply Yields.modifyGet
  intro s begun
  obtain ⟨locks, semaphores, condvars, same⟩ := (grown s).same
  exact ⟨h.same begun (bare s) (congrArg Layout.queue same), trivial⟩

end

end Robust

/-! ## Events -/

/-- Time passes, or the current thread goes to sleep. -/
def Event.Timely : Event → Prop
  | .request (.tick _) | .request (.sleep _) | .request (.sleepUntil _) => True
  | _ => False

theorem Event.Timely.eq {e : Event} (timely : e.Timely) :
    (∃ count, e = .request (.tick count)) ∨ (∃ ticks, e = .request (.sleep ticks)) ∨
      ∃ wakeTick, e = .request (.sleepUntil wakeTick) := by
  cases e with
  | enter | leave => exact timely.elim
  | request r =>
    cases r with
    | tick count => exact .inl ⟨count, rfl⟩
    | sleep ticks => exact .inr (.inl ⟨ticks, rfl⟩)
    | sleepUntil wakeTick => exact .inr (.inr ⟨wakeTick, rfl⟩)
    | _ => exact timely.elim

section

variable {I : Scheduler → Prop} {n : Nat}

theorem maintains_lockNumbered : Maintains I (lockNumbered n) :=
  .bind .get fun _ _ => .bind .ensure fun _ _ => .pure trivial

theorem maintains_semaphoreNumbered : Maintains I (semaphoreNumbered n) :=
  .bind .get fun _ _ => .bind .ensure fun _ _ => .pure trivial

theorem maintains_condvarNumbered : Maintains I (condvarNumbered n) :=
  .bind .get fun _ _ => .bind .ensure fun _ _ => .pure trivial

end

section

variable {Free : Tid → Prop} {I : Scheduler → Prop} {s : Scheduler}

theorem Robust.perform (h : Robust Free I) {r : Request} (possible : Event.Possible s (.request r))
    (untimely : ¬(Event.request r).Timely) (begun : I s) :
    (perform r).Ends s (fun _ s' => I s') fun _ _ => True := by
  by_cases spawns : ∃ name priority space argument, r = .spawn name priority space argument
  · obtain ⟨name, priority, space, argument, rfl⟩ := spawns
    refine ends_bind.mpr ((h.spawn begun possible).imp fun reserved s' kept => ?_)
    cases reserved <;> exact kept
  have maintains : Maintains I (Scheduler.perform r) := by
    cases r with
    | spawn => exact absurd ⟨_, _, _, _, rfl⟩ spawns
    | tick | sleep | sleepUntil => exact absurd trivial untimely
    | interrupt => exact absurd possible id
    | block => exact .bind h.block fun _ _ => .pure trivial
    | unblock => exact .bind h.unblock fun _ _ => .pure trivial
    | yield => exact .bind h.yield fun _ _ => .pure trivial
    | exit => exact .bind h.exit fun _ _ => .pure trivial
    | preemptCheck => exact .bind h.preemptCheck fun _ _ => .pure trivial
    | setPriority => exact .bind h.setPriority fun _ _ => .pure trivial
    | setNice => exact .bind h.setNice fun _ _ => .pure trivial
    | query =>
      rw [Scheduler.perform]
      exact .bind h.summarize fun _ _ => .pure trivial
    | disableInterrupts =>
      rw [Scheduler.perform]
      exact .bind h.disableInterrupts fun _ _ => .pure trivial
    | enableInterrupts =>
      rw [Scheduler.perform]
      have on : Maintains I (Scheduler.setInterrupts .on) := h.setInterrupts
      exact .bind on fun _ _ => .pure trivial
    | setInterrupts =>
      rw [Scheduler.perform]
      exact .bind h.setInterrupts fun _ _ => .pure trivial
    | check => exact .bind (.bind .get fun _ _ => Yields.ofExcept.forget) fun _ _ => .pure trivial
    | elapsed | exitStatus | describe =>
      rw [Scheduler.perform]
      exact .gets
    | setSpace =>
      rw [Scheduler.perform]
      refine .bind h.setSpace fun set _ => ?_
      cases set <;> exact .pure trivial
    | logTickCounts => exact .bind (.bind .get fun _ _ => .emit) fun _ _ => .pure trivial
    | newLock =>
      rw [Scheduler.perform]
      exact .bind (h.grow (fun _ => rfl) fun _ => newLock_grown (F := fun _ => True)) fun _ _ =>
        .pure trivial
    | acquire =>
      rw [Scheduler.perform]
      exact .bind maintains_lockNumbered fun _ _ => .bind h.acquire fun _ _ => .pure trivial
    | tryAcquire =>
      rw [Scheduler.perform]
      exact .bind maintains_lockNumbered fun _ _ => .bind h.tryAcquire fun _ _ => .pure trivial
    | release =>
      rw [Scheduler.perform]
      exact .bind maintains_lockNumbered fun _ _ => .bind h.release fun _ _ => .pure trivial
    | holds =>
      rw [Scheduler.perform]
      exact .bind maintains_lockNumbered fun _ _ => .gets
    | newSemaphore =>
      rw [Scheduler.perform]
      exact .bind (h.grow (fun _ => rfl) fun _ => newSemaphore_grown _ (F := fun _ => True)) fun _ _ =>
        .pure trivial
    | down =>
      rw [Scheduler.perform]
      exact .bind maintains_semaphoreNumbered fun _ _ => .bind h.down fun _ _ => .pure trivial
    | tryDown =>
      rw [Scheduler.perform]
      exact .bind maintains_semaphoreNumbered fun _ _ => .bind h.tryDown fun _ _ => .pure trivial
    | up =>
      rw [Scheduler.perform]
      exact .bind maintains_semaphoreNumbered fun _ _ => .bind h.up fun _ _ => .pure trivial
    | newCondvar =>
      rw [Scheduler.perform]
      exact .bind (h.grow (fun _ => rfl) fun _ => newCondvar_grown (F := fun _ => True)) fun _ _ =>
        .pure trivial
    | wait =>
      rw [Scheduler.perform]
      exact .bind maintains_condvarNumbered fun _ _ => .bind maintains_lockNumbered fun _ _ =>
        .bind h.wait fun _ _ => .pure trivial
    | signal =>
      rw [Scheduler.perform]
      exact .bind maintains_condvarNumbered fun _ _ => .bind maintains_lockNumbered fun _ _ =>
        .bind h.signal fun _ _ => .pure trivial
    | broadcast =>
      rw [Scheduler.perform]
      exact .bind maintains_condvarNumbered fun _ _ => .bind maintains_lockNumbered fun _ _ =>
        .bind h.broadcast fun _ _ => .pure trivial
  exact maintains.ends begun

/-- Every event but the passing of time and going to sleep maintains a robust property. -/
theorem Robust.happen (h : Robust Free I) {e : Event} (possible : e.Possible s)
    (untimely : ¬e.Timely) (begun : I s) :
    e.happen.Ends s (fun _ s' => I s') fun _ _ => True := by
  cases e with
  | request r => exact ends_bind.mpr ((h.perform possible untimely begun).imp fun _ _ kept => kept)
  | enter => exact ends_bind.mpr (h.enterHandler.ends begun)
  | leave level => exact h.leaveHandler.ends begun

/-- Every event but the passing of time maintains a robust property that bears another sleeper. -/
theorem Robust.happen_untimed (h : Robust Free I)
    (bed : ∀ s t n, I s → Free t → I { s with sleepers := s.sleepers.push t n }) {e : Event}
    (possible : e.Possible s) (other : ∀ count, e ≠ .request (.tick count)) (begun : I s) :
    e.happen.Ends s (fun _ s' => I s') fun _ _ => True := by
  by_cases timely : e.Timely
  · rcases timely.eq with ⟨count, rfl⟩ | ⟨ticks, rfl⟩ | ⟨wakeTick, rfl⟩
    · exact absurd rfl (other count)
    · exact ends_bind.mpr (ends_bind.mpr ((h.sleep bed).ends begun))
    · exact ends_bind.mpr (ends_bind.mpr ((h.sleepUntil fun s t => bed s t _).ends begun))
  · exact h.happen possible timely begun

end

end KernelCore.Scheduler
