import KernelCore.Proofs.Scheduler.Parts

/-!
# What happens to locks and condition variables

Only the operations on locks and condition variables, and the exit of a thread, change who holds a
lock, who waits for it, and who waits on a condition variable. What each of them changes is stated
here once, in terms of what the locks and condition variables were before.
-/
namespace KernelCore

/-- Locks and condition variables are as they were. -/
structure Layout.Untouched (L L' : Layout) : Prop where
  holder : L'.holder = L.holder
  lockWaiters : ∀ l, L'.queue (.lock l) = L.queue (.lock l)
  condvarWaiters : ∀ c, L'.queue (.condvar c) = L.queue (.condvar c)
  relock : L'.relock = L.relock

/-- Some locks have gone to the foremost of their waiters, or to nobody if nobody waits, and
everything else is as it was. -/
structure Layout.Relieved (gone : LockId → Prop) (L L' : Layout) : Prop where
  kept : ∀ l, ¬gone l → L'.holder l = L.holder l ∧ L'.queue (.lock l) = L.queue (.lock l)
  next : ∀ l, gone l →
    L.queue (.lock l) = [] ∧ L'.queue (.lock l) = [] ∧ L'.holder l = none ∨
    ∃ w, L.Foremost (.lock l) w ∧ L'.queue (.lock l) = (L.queue (.lock l)).erase w ∧
      L'.holder l = some w
  condvarWaiters : ∀ c, L'.queue (.condvar c) = L.queue (.condvar c)
  relock : L'.relock = L.relock

/-- The layout when a thread waits on a condition variable and has to have a lock again. -/
def Layout.lie (L : Layout) (c : CondvarId) (l : LockId) (t : Tid) : Layout :=
  (L.setQueue (.condvar c) (L.queue (.condvar c) ++ [t])).setRelock
    (Function.update L.relock c (Function.update (L.relock c) t (some l)))

/-- The layout when some waiters of a condition variable wait for a lock instead. -/
def Layout.rouse (L : Layout) (c : CondvarId) (l : LockId) (moved : List Tid) : Layout :=
  ((L.setQueue (.condvar c) ((L.queue (.condvar c)).filter (· ∉ moved))).setQueue (.lock l)
    (L.queue (.lock l) ++ moved)).setRelock
      (Function.update L.relock c fun t => if t ∈ moved then none else L.relock c t)

/-- Some waiters of a condition variable wait for their lock now, which another thread holds. -/
structure Layout.Roused (c : CondvarId) (l : LockId) (moved : List Tid) (L L' : Layout) : Prop where
  waited : ∀ t ∈ moved, t ∈ L.queue (.condvar c) ∧ L.relock c t = some l ∧ L.holder l ≠ some t
  nodup : moved.Nodup
  rest : (L.rouse c l moved).Untouched L'

section

variable {L L' L₁ L₂ : Layout} {c : CondvarId} {l : LockId}

theorem Layout.Untouched.refl (L : Layout) : L.Untouched L := ⟨rfl, fun _ => rfl, fun _ => rfl, rfl⟩

theorem Layout.Untouched.trans (h : L.Untouched L₁) (h' : L₁.Untouched L₂) : L.Untouched L₂ :=
  ⟨h'.holder.trans h.holder, fun l => (h'.lockWaiters l).trans (h.lockWaiters l),
    fun c => (h'.condvarWaiters c).trans (h.condvarWaiters c), h'.relock.trans h.relock⟩

theorem Layout.Untouched.setInterrupts (L : Layout) (level : InterruptLevel) :
    L.Untouched (L.setInterrupts level) :=
  ⟨rfl, fun _ => rfl, fun _ => rfl, rfl⟩

theorem Layout.Untouched.setHolder (h : L.Untouched L') (l : LockId) (t : Option Tid) :
    (L.setHolder l t).Untouched (L'.setHolder l t) where
  holder := by
    change Function.update L'.holder l t = Function.update L.holder l t
    rw [h.holder]
  lockWaiters := h.lockWaiters
  condvarWaiters := h.condvarWaiters
  relock := h.relock

theorem Layout.Untouched.setQueue (h : L.Untouched L') (m : Membership) (waiting : List Tid) :
    (L.setQueue m waiting).Untouched (L'.setQueue m waiting) where
  holder := h.holder
  lockWaiters k := by
    by_cases same : Membership.lock k = m
    · simp [same]
    · simpa [same] using h.lockWaiters k
  condvarWaiters k := by
    by_cases same : Membership.condvar k = m
    · simp [same]
    · simpa [same] using h.condvarWaiters k
  relock := h.relock

theorem Layout.Relieved.untouched {gone : LockId → Prop} (h : L.Relieved gone L₁)
    (h' : L₁.Untouched L₂) : L.Relieved gone L₂ := by
  refine ⟨fun k stays => ?_, fun k goes => ?_, ?_, h'.relock.trans h.relock⟩
  · rw [h'.holder, h'.lockWaiters]
    exact h.kept k stays
  · rw [h'.holder, h'.lockWaiters]
    exact h.next k goes
  · exact fun k => (h'.condvarWaiters k).trans (h.condvarWaiters k)

theorem Layout.Roused.refl (L : Layout) : L.Roused c l [] L where
  waited := by simp
  nodup := .nil
  rest := by
    refine ⟨rfl, fun k => ?_, fun k => ?_, ?_⟩
    · by_cases same : k = l <;> simp [rouse, same]
    · by_cases same : k = c <;> simp [rouse, same]
    · exact (Function.update_eq_self c L.relock).symm

theorem Layout.Roused.untouched {moved : List Tid} (h : L.Roused c l moved L₁)
    (h' : L₁.Untouched L₂) : L.Roused c l moved L₂ :=
  ⟨h.waited, h.nodup, h.rest.trans h'⟩

theorem Layout.Roused.trans {moved more : List Tid} (h : L.Roused c l moved L₁)
    (h' : L₁.Roused c l more L₂) : L.Roused c l (moved ++ more) L₂ := by
  have waited : ∀ t ∈ more, t ∈ L.queue (.condvar c) ∧ t ∉ moved ∧ L.relock c t = some l ∧
      L.holder l ≠ some t := by
    intro t mem
    obtain ⟨queued, noted, other⟩ := h'.waited t mem
    rw [h.rest.condvarWaiters] at queued
    rw [h.rest.relock] at noted
    rw [h.rest.holder] at other
    simp only [rouse, setRelock_queue, setQueue_queue, ne_eq, reduceCtorEq, not_false_eq_true,
      Function.update_of_ne, Function.update_self, List.mem_filter, decide_eq_true_eq] at queued
    simp only [rouse, setRelock_relock, Function.update_self, if_neg queued.2] at noted
    exact ⟨queued.1, queued.2, noted, other⟩
  refine ⟨?_, ?_, ?_⟩
  · intro t mem
    rcases List.mem_append.mp mem with mem | mem
    · exact h.waited t mem
    · obtain ⟨queued, -, noted, other⟩ := waited t mem
      exact ⟨queued, noted, other⟩
  · rw [List.nodup_append]
    refine ⟨h.nodup, h'.nodup, ?_⟩
    rintro t mem u mem' rfl
    exact (waited t mem').2.1 mem
  · refine ⟨?_, fun k => ?_, fun k => ?_, ?_⟩
    · exact h'.rest.holder.trans h.rest.holder
    · rw [h'.rest.lockWaiters]
      by_cases same : k = l
      · subst same
        simp [rouse, h.rest.lockWaiters]
      · simp [rouse, h.rest.lockWaiters, same]
    · rw [h'.rest.condvarWaiters]
      by_cases same : k = c
      · subst same
        simp [rouse, h.rest.condvarWaiters, List.filter_filter, not_or, Bool.and_comm]
      · simp [rouse, h.rest.condvarWaiters, same]
    · rw [h'.rest.relock]
      funext k t
      by_cases same : k = c
      · subst same
        by_cases mem : t ∈ moved <;> by_cases mem' : t ∈ more <;>
          simp [rouse, h.rest.relock, mem, mem']
      · simp [rouse, h.rest.relock, same]

end

namespace Scheduler

open Transition

def synchronizers (s : Scheduler) : List LockState × List CondvarState := (s.locks, s.condvars)

section

variable {s s' : Scheduler}

theorem synchronizers_alone {p : Part} (locks : p ≠ .locks) (condvars : p ≠ .condvars)
    (alone : p.Alone s s') : s'.synchronizers = s.synchronizers := by
  cases p with
  | locks => exact absurd rfl locks
  | condvars => exact absurd rfl condvars
  | threads =>
    have same := congrArg synchronizers alone.rest
    exact same
  | _ =>
    have same := congrArg synchronizers alone
    exact same

instance : Ignores synchronizers .threads := ⟨synchronizers_alone (by simp) (by simp)⟩
instance : Ignores synchronizers .interrupts := ⟨synchronizers_alone (by simp) (by simp)⟩
instance : Ignores synchronizers .handler := ⟨synchronizers_alone (by simp) (by simp)⟩
instance : Ignores synchronizers .population := ⟨synchronizers_alone (by simp) (by simp)⟩
instance : Ignores synchronizers .processor := ⟨synchronizers_alone (by simp) (by simp)⟩
instance : Ignores synchronizers .numbers := ⟨synchronizers_alone (by simp) (by simp)⟩
instance : Ignores synchronizers .semaphores := ⟨synchronizers_alone (by simp) (by simp)⟩
instance : Ignores synchronizers .statuses := ⟨synchronizers_alone (by simp) (by simp)⟩

end

/-! ## Operations on them -/

section

variable {α β : Type} {R : Prop} {P : Set Tid} {M : Layout} {s : Scheduler} {t : Tid} {l : LockId}
  {c : CondvarId}

theorem untouched_of_synchronizers {s' : Scheduler} (h : s'.synchronizers = s.synchronizers) :
    s.layout.Untouched s'.layout := by
  obtain ⟨locks, condvars⟩ := Prod.mk.inj h
  refine ⟨?_, ?_, ?_, ?_⟩
  · funext l
    simp [layout, holder, lockState, locks]
  · intro l
    simp [layout, queue, lockState, locks]
  · intro c
    simp [layout, queue, condvarState, condvars]
  · funext c t
    simp [layout, condvarState, condvars]

/-- What leaves locks and condition variables alone may follow. -/
theorem ends_untouched {t : Scheduling α} (h : Preserves synchronizers t)
    (before : M.Untouched s.layout) :
    t.Ends s (fun _ s' => M.Untouched s'.layout) fun _ _ => True :=
  (h.ends s).mono (fun _ _ same => before.trans (untouched_of_synchronizers same)) fun _ _ _ => trivial

/-- A lock that is taken was free. -/
theorem take_untouched (exists_lock : l.index < s.layout.locks) :
    (take l t).Ends s (fun _ s' => (s.layout.setHolder l (some t)).Untouched s'.layout)
      fun _ _ => True := by
  unfold take
  rw [ends_bind]
  apply ends_updateLock_holder exists_lock
  intro s₁ h₁
  exact ends_untouched preserves_replaceThread (h₁ ▸ .refl _)

theorem ends_push {q : PriorityQueue} {Q : PriorityQueue → Scheduler → Prop}
    (next : t ∉ q.tids → Q ⟨q.tids ++ [t]⟩ s) :
    (ofExcept (q.push t) : Scheduling PriorityQueue).Ends s Q fun _ _ => True := by
  by_cases mem : t ∈ q.tids
  · simp [PriorityQueue.push, mem]
  · rw [PriorityQueue.push_of_not_mem mem]
    exact next mem

/-- The current thread has taken the lock, or waits for it behind all others. -/
theorem acquire_untouched (exists_lock : l.index < s.layout.locks) :
    (acquire l).Ends s (fun _ s' =>
      s.layout.holder l = none ∧
        (s.layout.setHolder l (some s.layout.current)).Untouched s'.layout ∨
      (∃ u, s.layout.holder l = some u ∧ u ≠ s.layout.current) ∧
        (s.layout.setQueue (.lock l) (s.layout.queue (.lock l) ++ [s.layout.current])).Untouched
          s'.layout) fun _ _ => True := by
  unfold acquire
  rw [ends_bind, ends_get, ends_bind, ends_ensure]
  refine ⟨fun _ => ?_, fun _ => trivial⟩
  rw [ends_bind, ends_ensure]
  refine ⟨fun fresh => ?_, fun _ => trivial⟩
  rw [ends_bind]
  apply ends_disableInterrupts
  intro s₁ h₁
  have begun : s.layout.Untouched s₁.layout := h₁ ▸ .setInterrupts _ _
  by_cases free : s.holder l = none
  · rw [if_pos free, ends_bind]
    refine (take_untouched (h₁ ▸ exists_lock)).imp ?_
    rintro - s₂ taken
    have taken : (s.layout.setHolder l (some s.layout.current)).Untouched s₂.layout :=
      (begun.setHolder l _).trans taken
    rw [ends_bind, ends_pure]
    exact (ends_untouched preserves_close taken).imp fun _ _ taken => .inl ⟨free, taken⟩
  · rw [if_neg free, ends_bind]
    refine ((preserves_replaceThread (f := synchronizers)).ends s₁).mono ?_ fun _ _ _ => trivial
    intro _ s₂ same
    have untouched : s.layout.Untouched s₂.layout := begun.trans (untouched_of_synchronizers same)
    have exists_lock₂ : l.index < s₂.layout.locks := by
      have locks : s₂.locks = s₁.locks := (Prod.mk.inj same).1
      have counted : s₂.layout.locks = s₁.layout.locks := congrArg List.length locks
      rw [counted, h₁]
      exact exists_lock
    rw [ends_bind]
    apply ends_push
    intro _
    rw [ends_bind]
    apply ends_updateLock_waiters exists_lock₂
    intro s₃ h₃
    have joined : (s.layout.setQueue (.lock l) (s.layout.queue (.lock l) ++ [s.layout.current])).Untouched
        s₃.layout := h₃ ▸ untouched.setQueue _ _
    have rest : Preserves synchronizers (do
        propagatePriority s.current
        block
        let _ ← setInterrupts s.layout.interrupts
        pure Acquire.blocked) :=
      .bind preserves_propagatePriority fun _ => .bind preserves_block fun _ => preserves_close
    simp only [pure_bind]
    refine (ends_untouched rest joined).imp fun _ _ joined => .inr ⟨?_, joined⟩
    obtain ⟨u, holds⟩ := Option.ne_none_iff_exists'.mp free
    refine ⟨u, holds, ?_⟩
    rintro rfl
    exact fresh holds

theorem tryAcquire_untouched (exists_lock : l.index < s.layout.locks) :
    (tryAcquire l).Ends s (fun _ s' => s.layout.Untouched s'.layout ∨
      s.layout.holder l = none ∧
        (s.layout.setHolder l (some s.layout.current)).Untouched s'.layout) fun _ _ => True := by
  unfold tryAcquire
  rw [ends_bind, ends_get, ends_bind]
  apply ends_disableInterrupts
  intro s₁ h₁
  have begun : s.layout.Untouched s₁.layout := h₁ ▸ .setInterrupts _ _
  by_cases free : s.holder l = none
  · rw [if_pos free, ends_bind]
    refine (take_untouched (h₁ ▸ exists_lock)).imp ?_
    rintro - s₂ taken
    have taken : (s.layout.setHolder l (some s.layout.current)).Untouched s₂.layout :=
      (begun.setHolder l _).trans taken
    exact (ends_untouched preserves_close taken).imp fun _ _ taken => .inr ⟨free, taken⟩
  · rw [if_neg free]
    exact (ends_untouched preserves_close begun).imp fun _ _ same => .inl same

/-- The current thread has handed its lock to the foremost waiter. -/
theorem handOver_relieved {p : Place} (h : Orderly R P s.layout)
    (known : s.layout.place s.layout.current = some p)
    (holds : s.layout.holder l = some s.layout.current) :
    (handOver l s.layout.current).Ends s (fun _ s' => s.layout.Relieved (· = l) s'.layout ∧
      s.layout.Steady s'.layout) fun _ _ => True := by
  refine (handOver_ends (F := fun _ => True) h known holds).imp ?_
  rintro - s' ⟨-, -, steady, -, passed⟩
  rw [given_iff h.toArranged known holds] at passed
  exact ⟨⟨passed.kept, passed.next, steady.waiters, steady.relock⟩, steady⟩

theorem release_untouched (h : Orderly R P s.layout) :
    (release l).Ends s (fun _ s' => s.layout.holder l = some s.layout.current ∧
      s.layout.Relieved (· = l) s'.layout) fun _ _ => True := by
  unfold release
  rw [ends_bind, ends_get, ends_bind, ends_ensure]
  refine ⟨fun holds => ?_, fun _ => trivial⟩
  rw [ends_bind]
  apply ends_disableInterrupts
  intro s₁ h₁
  have begun : Rested R P s.layout s₁ := .off h h₁
  have current : s.current = s₁.layout.current := h₁ ▸ rfl
  obtain ⟨p, known₁, -⟩ := begun.orderly.current
  rw [ends_bind, current]
  refine (handOver_relieved begun.orderly known₁ (h₁ ▸ holds)).imp ?_
  rintro - s₂ ⟨relieved, -⟩
  refine (ends_untouched preserves_close_preempt (.refl _)).imp fun _ s₃ rest => ⟨holds, ?_⟩
  rw [h₁] at relieved
  exact Layout.Relieved.untouched ⟨relieved.kept, relieved.next, relieved.condvarWaiters,
    relieved.relock⟩ rest

/-- The exiting thread has handed over all its locks. -/
theorem exit_untouched (h : Orderly R P s.layout) (status : Int) :
    (exit status).Ends s (fun _ s' =>
      s.layout.Relieved (fun l => s.layout.holder l = some s.layout.current) s'.layout)
      fun _ _ => True := by
  unfold exit
  rw [ends_bind, ends_get, ends_bind, ends_ensure]
  refine ⟨fun _ => ?_, fun _ => trivial⟩
  rw [ends_bind, ends_ensure]
  refine ⟨fun _ => ?_, fun _ => trivial⟩
  rw [ends_bind]
  apply ends_disableInterrupts
  intro s₁ h₁
  have begun : Rested R P s.layout s₁ := .off h h₁
  have current : s.current = s₁.layout.current := h₁ ▸ rfl
  obtain ⟨p, known₁, -⟩ := begun.orderly.current
  rw [ends_bind, current]
  refine (handOverAll_ends (F := fun _ => True) begun.orderly known₁).imp ?_
  rintro - s₂ ⟨-, -, steady, -, passed⟩
  have relieved : s.layout.Relieved (fun l => s.layout.holder l = some s.layout.current) s₂.layout := by
    simp only [List.not_mem_nil, not_false_eq_true, and_true] at passed
    rw [h₁] at passed steady
    exact ⟨passed.kept, passed.next, steady.waiters, steady.relock⟩
  refine (ends_untouched ?_ (.refl _)).imp fun _ s₃ rest => relieved.untouched rest
  exact .bind preserves_replaceThread fun _ => .bind preserves_thread fun _ => .bind .emit fun _ =>
    .bind (.modify fun _ => rfl) fun _ => .bind preserves_schedule fun _ =>
      preserves_restoreInterrupts

/-- The current thread has handed its lock over and waits on the condition variable. -/
theorem wait_untouched (h : Orderly R P s.layout) (exists_condvar : c.index < s.layout.condvars) :
    (wait c l).Ends s (fun _ s' => s.layout.holder l = some s.layout.current ∧
      ∃ L₁, s.layout.Relieved (· = l) L₁ ∧ (L₁.lie c l s.layout.current).Untouched s'.layout)
      fun _ _ => True := by
  unfold wait
  rw [ends_bind, ends_get, ends_bind, ends_ensure]
  refine ⟨fun _ => ?_, fun _ => trivial⟩
  rw [ends_bind, ends_ensure, heldByCurrent_iff]
  refine ⟨fun holds => ?_, fun _ => trivial⟩
  rw [ends_bind]
  apply ends_disableInterrupts
  intro s₁ h₁
  have begun : Rested R P s.layout s₁ := .off h h₁
  obtain ⟨p, known₁, -⟩ := begun.orderly.current
  have current : s.current = s₁.layout.current := h₁ ▸ rfl
  rw [ends_bind, current]
  refine (handOver_relieved begun.orderly known₁ (h₁ ▸ holds)).imp ?_
  rintro - s₂ ⟨relieved, steady⟩
  rw [h₁] at relieved steady
  rw [ends_bind]
  apply ends_push
  intro _
  rw [ends_bind]
  apply ends_updateCondvar (steady.condvars.symm ▸ exists_condvar)
  intro s₃ h₃
  have lain : s₃.layout = s₂.layout.lie c l s₁.layout.current := by
    have waiters : s.layout.queue (.condvar c) = s₂.layout.queue (.condvar c) :=
      (steady.waiters c).symm
    have noted : ((s₂.condvarState c).relock.insert s₁.layout.current l).find? =
        Function.update (s₂.layout.relock c) s₁.layout.current (some l) := by
      funext x
      rw [Table.find?_insert, Function.update_apply]
      rfl
    rw [h₃, Layout.lie, ← waiters]
    dsimp only
    rw [noted]
    rfl
  have rest : Preserves synchronizers (do
      updateThread s₁.layout.current fun th => { th with membership := .condvar c }
      block
      let _ ← setInterrupts s.layout.interrupts) :=
    .bind preserves_replaceThread fun _ => .bind preserves_block fun _ => preserves_close
  refine (ends_untouched rest (.refl _)).imp fun _ s₄ rest => ⟨holds, s₂.layout, ?_, ?_⟩
  · exact ⟨relieved.kept, relieved.next, relieved.condvarWaiters, relieved.relock⟩
  · have same : s₁.layout.current = s.layout.current := h₁ ▸ rfl
    rw [← same]
    exact lain ▸ rest

/-- A thread that was taken out of the queue of its condition variable waits for its lock. -/
theorem moveToLock_roused {L : Layout} {w : Tid} (h : Orderly R P L)
    (mem : w ∈ L.queue (.condvar c)) (exists_condvar : c.index < L.condvars)
    (holds : L.holder l = some L.current)
    (popped : s.layout = L.setQueue (.condvar c) ((L.queue (.condvar c)).erase w)) :
    (moveToLock c l w).Ends s (fun _ s' => L.Roused c l [w] s'.layout) fun _ _ => True := by
  refine ends_moveToLock (F := fun _ => True) h mem exists_condvar holds (fun _ _ _ => trivial) popped
    fun q s₁ known noted moved => ?_
  have there := (h.mem_queue known (by simp)).mp mem
  have other := h.ne_current_of_waits known (by simp [there])
  have left : (L.queue (.condvar c)).erase w = (L.queue (.condvar c)).filter (· ≠ w) := by
    rw [(h.nodup (.condvar c)).erase_eq_filter]
    exact List.filter_congr fun x _ => (decide_not (p := x = w)).symm
  have roused : (L.rouse c l [w]).Untouched s₁.layout := by
    rw [moved]
    refine ⟨rfl, fun k => ?_, fun k => ?_, ?_⟩
    · by_cases same : k = l <;> simp [Layout.rouse, same]
    · by_cases same : k = c <;> simp [Layout.rouse, same, left]
    · change Function.update L.relock c _ = Function.update L.relock c _
      congr 1
      funext t
      simp [Function.update_apply]
  refine (ends_untouched preserves_propagatePriority roused).imp fun _ s₂ rest => ⟨?_, ?_, rest⟩
  · intro t only
    obtain rfl := List.mem_singleton.mp only
    refine ⟨mem, noted, fun holder => other ?_⟩
    exact Option.some.inj (holder.symm.trans holds)
  · exact List.nodup_singleton w

/-- The foremost waiter, if there is one, waits for its lock. -/
theorem signal_roused (h : Orderly R P s.layout) :
    (signal c l).Ends s (fun _ s' => ∃ moved, s.layout.Roused c l moved s'.layout)
      fun _ _ => True := by
  unfold signal
  rw [ends_bind, ends_get, ends_bind, ends_ensure, heldByCurrent_iff]
  refine ⟨fun holds => ?_, fun _ => trivial⟩
  rw [ends_bind]
  apply ends_disableInterrupts
  intro s₁ h₁
  have begun : Rested R P s.layout s₁ := .off h h₁
  have untouched : s.layout.Untouched s₁.layout := h₁ ▸ .setInterrupts _ _
  rw [ends_bind]
  apply ends_popCondvarWaiter
  · intro _
    refine (ends_untouched preserves_close untouched).imp fun _ s₂ rest => ⟨[], ?_⟩
    exact (Layout.Roused.refl _).untouched rest
  · intro w s₂ foremost h₂
    have mem : w ∈ s₁.layout.queue (.condvar c) := foremost.mem
    rw [ends_bind]
    refine (moveToLock_roused begun.orderly mem (exists_condvar_of_waiter mem) (h₁ ▸ holds) h₂).imp ?_
    rintro - s₃ roused
    refine (ends_untouched preserves_close (.refl _)).imp fun _ s₄ rest => ⟨[w], ?_⟩
    rw [h₁] at roused
    have roused : s.layout.Roused c l [w] s₃.layout :=
      ⟨roused.waited, roused.nodup, roused.rest.holder, roused.rest.lockWaiters,
        roused.rest.condvarWaiters, roused.rest.relock⟩
    exact roused.untouched rest

/-- The waiters move to the lock one after the other. -/
theorem broadcast_roused (h : Orderly R P s.layout) :
    (broadcast c l).Ends s (fun _ s' => ∃ moved, s.layout.Roused c l moved s'.layout)
      fun _ _ => True := by
  unfold broadcast
  rw [ends_bind, ends_get]
  have loop : (times (s.condvarState c).waiters.length (signal c l)).Ends s
      (fun _ s' => Orderly R P s'.layout ∧ ∃ moved, s.layout.Roused c l moved s'.layout)
      fun _ _ => True := by
    apply ends_times (I := fun _ (s' : Scheduler) => Orderly R P s'.layout ∧
      ∃ moved, s.layout.Roused c l moved s'.layout)
    · rintro - s₁ ⟨orderly, moved, roused⟩
      refine ((signal_ends (F := fun _ => True) orderly (fun _ _ _ _ _ => trivial)
        fun _ => trivial).and (signal_roused orderly)).mono ?_ fun _ _ _ => trivial
      rintro - s₂ ⟨carried, more, roused'⟩
      exact ⟨carried.orderly, moved ++ more, roused.trans roused'⟩
    · exact ⟨h, [], .refl _⟩
  exact loop.imp fun _ s' after => after.2

theorem Grown.untouched {s' : Scheduler} (h : Grown s s') : s.layout.Untouched s'.layout := by
  obtain ⟨locks, semaphores, condvars, same⟩ := h
  rw [same]
  exact ⟨rfl, fun _ => rfl, fun _ => rfl, rfl⟩

end

end Scheduler

end KernelCore
