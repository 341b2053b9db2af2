import Mathlib.Data.List.Nodup
import KernelCore.Proofs.Scheduler.Arrangement

/-!
# The consistency check

The check the scheduler makes at every switch passes for orderly threads. It only finds the idle
thread in the ready queue if somebody has put it there. A passed check, whatever came before it,
says that the current thread runs and that a sleeper is in the sleep queue alone.
-/
namespace KernelCore.Scheduler

/-! ## The queues a thread is in -/

section

variable {α : Type} {f : α → Bool} {g : Nat → Membership} {xs : List α} {m : Membership}

theorem mem_placesOf :
    m ∈ placesOf f g xs ↔
      ∃ i x, xs[i]? = some x ∧ f x = true ∧ m = g i := by
  unfold placesOf
  rw [List.mem_filterMap]
  constructor
  · rintro ⟨⟨x, i⟩, mem, found⟩
    have index := List.mk_mem_zipIdx_iff_getElem?.mp mem
    by_cases h : f x = true
    · simp only [h, if_true, Option.some.injEq] at found
      exact ⟨i, x, index, h, found.symm⟩
    · simp [h] at found
  · rintro ⟨i, x, index, h, rfl⟩
    exact ⟨(x, i), List.mk_mem_zipIdx_iff_getElem?.mpr index, by simp [h]⟩

theorem nodup_placesOf (xs : List α) (injective : Function.Injective g) :
    (placesOf f g xs).Nodup := by
  have ascending : xs.zipIdx.Pairwise fun a b => a.2 < b.2 := by
    rw [← List.pairwise_map (f := Prod.snd) (R := (· < ·)), List.zipIdx_map_snd]
    exact List.pairwise_lt_range'
  unfold placesOf
  rw [List.Nodup, List.pairwise_filterMap]
  apply ascending.imp
  rintro ⟨x, i⟩ ⟨y, j⟩ lt m found m' found' rfl
  simp only [Option.ite_none_right_eq_some, Option.some.injEq] at found found'
  have := injective (found.2.trans found'.2.symm)
  dsimp only at lt
  omega

end

section

variable {s : Scheduler} {t : Tid} {m : Membership}

private theorem exists_getElem?_iff {α : Type} [Inhabited α] (xs : List α) (i : Nat) {p : α → Prop}
    (nobody : ¬p default) : (∃ x, xs[i]? = some x ∧ p x) ↔ p (xs[i]?.getD default) := by
  cases xs[i]? <;> simp [nobody]

theorem mem_queuesOf : m ∈ s.queuesOf t ↔ m ≠ .none ∧ t ∈ s.queue m := by
  simp only [queuesOf, List.mem_append, mem_placesOf, PriorityQueue.contains_iff,
    SleepQueue.contains_iff]
  cases m with
  | none => simp
  | ready => simp [queue]
  | sleep => simp [queue]
  | lock l =>
    obtain ⟨i⟩ := l
    have h := exists_getElem?_iff s.locks i (p := fun x => t ∈ x.waiters.tids)
      (by simp [default, PriorityQueue.empty])
    simp [queue, lockState, ← h]
  | semaphore j =>
    obtain ⟨i⟩ := j
    have h := exists_getElem?_iff s.semaphores i (p := fun x => t ∈ x.waiters.tids)
      (by simp [default, PriorityQueue.empty])
    simp [queue, semaphoreState, ← h]
  | condvar c =>
    obtain ⟨i⟩ := c
    have h := exists_getElem?_iff s.condvars i (p := fun x => t ∈ x.waiters.tids)
      (by simp [default, PriorityQueue.empty])
    simp [queue, condvarState, ← h]

theorem nodup_queuesOf : (s.queuesOf t).Nodup := by
  unfold queuesOf
  have locks := nodup_placesOf (f := fun l : LockState => l.waiters.contains t)
    (g := fun i => .lock ⟨i⟩) s.locks fun i j h => by simpa using h
  have semaphores := nodup_placesOf (f := fun x : SemaphoreState => x.waiters.contains t)
    (g := fun i => .semaphore ⟨i⟩) s.semaphores fun i j h => by simpa using h
  have condvars := nodup_placesOf (f := fun c : CondvarState => c.waiters.contains t)
    (g := fun i => .condvar ⟨i⟩) s.condvars fun i j h => by simpa using h
  have ready : (if s.ready.contains t then [Membership.ready] else []).Nodup := by split <;> simp
  have sleep : (if s.sleepers.contains t then [Membership.sleep] else []).Nodup := by
    split <;> simp
  apply (((locks.append semaphores ?_).append condvars ?_).append ready ?_).append sleep ?_
  all_goals
    intro m mem mem'
    simp only [List.mem_append, mem_placesOf, List.mem_ite_nil_right, List.mem_singleton]
      at mem mem'
    grind

private theorem eq_singleton {α : Type} {xs : List α} {a : α} (nodup : xs.Nodup)
    (mem : ∀ x, x ∈ xs ↔ x = a) : xs = [a] := by
  rw [← List.perm_singleton, List.perm_ext_iff_of_nodup nodup (List.nodup_singleton a)]
  simpa using mem

end

/-! ## The check -/

section

variable {R : Prop} {P : Set Tid} {s : Scheduler} {t : Tid} {th : Thread}

/-- A thread is in the queue it says it is in and in no other. -/
theorem queuesOf_eq (h : Arranged R P s.layout) (known : s.thread? t = some th) :
    s.queuesOf t = if th.membership = .none then [] else [th.membership] := by
  have mem : ∀ m, m ∈ s.queuesOf t ↔ m ≠ .none ∧ th.membership = m := by
    intro m
    rw [mem_queuesOf]
    apply and_congr_right
    intro m_ne
    exact h.mem_queue (place_of_thread known) m_ne
  split
  · rename_i free
    rw [List.eq_nil_iff_forall_not_mem]
    intro m hm
    obtain ⟨m_ne, there⟩ := (mem m).mp hm
    exact m_ne (there.symm.trans free)
  · rename_i queued
    apply eq_singleton nodup_queuesOf
    intro m
    rw [mem]
    constructor
    · exact fun hm => hm.2.symm
    · rintro rfl
      exact ⟨queued, rfl⟩

theorem checkThread_eq_ok (h : Orderly R P s.layout) (known : s.thread? t = some th) :
    s.checkThread t th = .ok () := by
  have proper : th.place.Proper (t = s.current) := h.proper t th.place (place_of_thread known)
  have free_of_running : th.state = .running → th.membership = .none := by
    intro running
    obtain ⟨p, known', -, free⟩ := h.current
    obtain rfl := proper.running running
    obtain rfl := Option.some.inj ((place_of_thread known).symm.trans known')
    exact free
  have ready : th.state = .ready ↔ th.membership = .ready := proper.ready
  have dying : th.state = .dying → th.membership = .none := fun exited => (proper.dying exited).1
  have running : th.state = .running → t = s.current := proper.running
  have one : ¬1 < (if th.membership = .none then [] else [th.membership]).length := by
    split <;> simp
  have same : th.membership =
      (if th.membership = .none then [] else [th.membership]).head?.getD .none := by
    split <;> simp_all
  unfold checkThread
  rw [queuesOf_eq h.toArranged known]
  dsimp only
  rw [if_neg one, if_neg (not_not.mpr same)]
  cases state : th.state with
  | running => simp [← running state, free_of_running state]
  | ready => simp [ready.mp state]
  | blocked =>
    have not_ready : th.membership ≠ .ready := fun m => by simp [ready.mpr m] at state
    simp [not_ready]
  | dying => simp [dying state]

theorem checkThreads_eq_ok (entries : List (Tid × Thread))
    (pass : ∀ e ∈ entries, s.checkThread e.1 e.2 = .ok ()) : s.checkThreads entries = .ok () := by
  induction entries with
  | nil => rfl
  | cons e rest ih =>
    simp only [List.mem_cons, forall_eq_or_imp] at pass
    simp only [checkThreads, pass.1]
    exact ih pass.2

theorem running_eq_one (h : Orderly R P s.layout) :
    (s.threads.values.filter fun th => th.state = .running).length = 1 := by
  obtain ⟨p, known, running, -⟩ := h.current
  obtain ⟨th, known', rfl⟩ := exists_thread known
  have entry : (s.current, th) ∈ s.threads.entries := Table.find?_eq_some_iff.mp known'
  have one : (s.threads.entries.filter fun e => e.2.state = .running) = [(s.current, th)] := by
    apply eq_singleton
    · exact (List.Nodup.of_map _ s.threads.keys_nodup).filter _
    · rintro ⟨t, x⟩
      simp only [List.mem_filter, decide_eq_true_eq, Prod.mk.injEq]
      constructor
      · rintro ⟨mem, runs⟩
        have knownx : s.thread? t = some x := Table.find?_eq_some_iff.mpr mem
        obtain rfl := (h.proper t x.place (place_of_thread knownx)).running runs
        exact ⟨rfl, Table.entry_unique mem entry⟩
      · rintro ⟨rfl, rfl⟩
        exact ⟨entry, running⟩
  rw [Table.values, List.filter_map, List.length_map]
  exact congrArg List.length one

/-- The check passes unless the idle thread was made ready. -/
theorem check_eq (h : Orderly R P s.layout) :
    s.check = if s.idle ∈ s.layout.queue .ready then .error .idleReady else .ok () := by
  have pass : s.checkThreads s.threads.entries = .ok () := by
    apply checkThreads_eq_ok
    rintro ⟨t, th⟩ mem
    exact checkThread_eq_ok h (Table.find?_eq_some_iff.mpr mem)
  unfold check
  rw [pass]
  dsimp only
  rw [running_eq_one h, if_neg (by simp)]
  by_cases awake : s.idle ∈ s.layout.queue .ready
  · have found : s.ready.contains s.idle = true := PriorityQueue.contains_iff.mpr awake
    rw [if_pos found, if_pos awake]
  · have absent : ¬s.ready.contains s.idle = true := fun h => awake (PriorityQueue.contains_iff.mp h)
    rw [if_neg absent, if_neg awake]

/-! ## What a passed check means -/

theorem checkThread_of_check (passed : s.check = .ok ()) (known : s.thread? t = some th) :
    s.checkThread t th = .ok () := by
  have each : ∀ entries, s.checkThreads entries = .ok () → ∀ e ∈ entries,
      s.checkThread e.1 e.2 = .ok () := by
    intro entries
    induction entries with
    | nil => simp
    | cons e rest ih =>
      intro all
      unfold checkThreads at all
      cases first : s.checkThread e.1 e.2 with
      | error v => simp [first] at all
      | ok =>
        rw [first] at all
        simp only [List.mem_cons, forall_eq_or_imp]
        exact ⟨first, ih all⟩
  unfold check at passed
  cases all : s.checkThreads s.threads.entries with
  | error v => simp [all] at passed
  | ok => exact each _ all (t, th) (Table.find?_eq_some_iff.mp known)

theorem running_of_check (passed : s.check = .ok ()) :
    ∃ th, s.thread? s.current = some th ∧ th.state = .running := by
  have one : (s.threads.values.filter fun th => th.state = .running).length = 1 := by
    unfold check at passed
    cases all : s.checkThreads s.threads.entries with
    | error v => simp [all] at passed
    | ok =>
      simp only [all] at passed
      by_contra several
      rw [if_pos several] at passed
      cases passed
  obtain ⟨th, alone⟩ := List.length_eq_one_iff.mp one
  have mem : th ∈ s.threads.values.filter fun th => th.state = .running := by simp [alone]
  obtain ⟨mem, running⟩ := List.mem_filter.mp mem
  have running : th.state = .running := by simpa using running
  obtain ⟨⟨t, th'⟩, entry, same⟩ := List.mem_map.mp mem
  obtain rfl : th' = th := same
  have known : s.thread? t = some th' := Table.find?_eq_some_iff.mpr entry
  have checked := checkThread_of_check passed known
  have current : t = s.current := by
    by_contra other
    unfold checkThread at checked
    dsimp only at checked
    split at checked
    · cases checked
    · split at checked
      · cases checked
      · simp [running] at checked
  exact ⟨th', current ▸ known, running⟩

/-- A thread in the sleep queue that passes the check is blocked and in no other queue. -/
theorem sleeper_of_check (passed : s.check = .ok ()) (known : s.thread? t = some th)
    (mem : t ∈ s.sleepers.tids) :
    th.state = .blocked ∧ th.membership = .sleep ∧ ∀ m, m ≠ .sleep → t ∉ s.queue m := by
  have checked := checkThread_of_check passed known
  have found : Membership.sleep ∈ s.queuesOf t := mem_queuesOf.mpr ⟨by simp, mem⟩
  unfold checkThread at checked
  dsimp only at checked
  split at checked
  · cases checked
  · rename_i few
    have alone : s.queuesOf t = [.sleep] := by
      cases queues : s.queuesOf t with
      | nil => simp [queues] at found
      | cons m rest =>
        have none : rest = [] := by
          rw [queues, List.length_cons] at few
          exact List.length_eq_zero_iff.mp (by omega)
        subst none
        rw [queues, List.mem_singleton] at found
        rw [found]
    split at checked
    · cases checked
    · rename_i same
      have there : th.membership = .sleep := by simpa [alone] using same
      refine ⟨?_, there, fun m awake queued => awake ?_⟩
      · cases state : th.state with
        | blocked => rfl
        | running =>
          simp only [state, there] at checked
          split at checked
          · cases checked
          · simp at checked
        | ready | dying => simp [state, there] at checked
      · have m_ne : m ≠ .none := by
          rintro rfl
          cases queued
        have inside := mem_queuesOf.mpr ⟨m_ne, queued⟩
        rwa [alone, List.mem_singleton] at inside

end

end KernelCore.Scheduler
