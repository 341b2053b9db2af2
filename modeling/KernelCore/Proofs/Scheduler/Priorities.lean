import Mathlib.Order.Bounds.Basic
import KernelCore.Proofs.Scheduler.Runs

/-!
# Priorities and who runs

Without feedback scheduling an effective priority never exceeds the base priorities of the thread
and of those that wait for it, and it is exactly the highest of them as long as no wait chain was
too long. Outside handlers the running thread has the highest priority of all that can run.
-/
namespace KernelCore.Scheduler

open Relation

/-- The base priorities of a thread and of all threads that wait for it, directly or through
others. -/
def sources (s : Scheduler) (t : Tid) : Set Int :=
  {b | ∃ u th, ReflTransGen s.layout.WaitsFor u t ∧ s.thread? u = some th ∧ b = th.basePriority}

/-- The base priority of a thread and the effective priorities of those that wait for the locks it
holds. -/
def offers (s : Scheduler) (th : Thread) : Set Int :=
  {p | p = th.basePriority ∨ ∃ l ∈ th.heldLocks, ∃ w thw, w ∈ (s.lockState l).waiters.tids ∧
    s.thread? w = some thw ∧ p = thw.priority}

section

variable {R : Prop} {P : Set Tid} {s : Scheduler} {t u : Tid} {th thu : Thread}

/-- Both ends of a link are threads. -/
theorem threads_of_waitsFor (h : Arranged R P s.layout) (link : s.layout.WaitsFor u t) :
    (∃ th, s.thread? u = some th) ∧ ∃ th, s.thread? t = some th := by
  obtain ⟨l, waits, holds⟩ := link
  obtain ⟨p, known, -⟩ := Option.bind_eq_some_iff.mp waits
  obtain ⟨q, known', -⟩ := (h.holds l t).mp holds
  obtain ⟨th, found, -⟩ := exists_thread known
  obtain ⟨th', found', -⟩ := exists_thread known'
  exact ⟨⟨th, found⟩, th', found'⟩

/-- Exact priorities do not fall along a wait chain. -/
theorem priority_le_of_chain (h : Arranged R P s.layout) (exact : s.layout.Exact)
    (chain : ReflTransGen s.layout.WaitsFor u t) (knownu : s.thread? u = some thu)
    (known : s.thread? t = some th) : thu.priority ≤ th.priority := by
  induction chain using ReflTransGen.head_induction_on generalizing thu with
  | refl =>
    obtain rfl := Option.some.inj (knownu.symm.trans known)
    exact Int.le_refl _
  | @head a b link _ ih =>
    obtain ⟨-, thb, knownb⟩ := threads_of_waitsFor h link
    have donated := exact b thb.rank (rank_of_thread knownb)
    exact Int.le_trans (donated.waiter_le a thu.rank link (rank_of_thread knownu)) (ih knownb)

theorem isGreatest_sources (h : Arranged R P s.layout) (exact : s.layout.Exact)
    (backed : s.layout.Backed) (known : s.thread? t = some th) :
    IsGreatest (s.sources t) th.priority := by
  have le : ∀ b ∈ s.sources t, b ≤ th.priority := by
    rintro b ⟨u, thu, chain, knownu, rfl⟩
    have own := (exact u thu.rank (rank_of_thread knownu)).base_le
    exact Int.le_trans own (priority_le_of_chain h exact chain knownu known)
  refine ⟨?_, le⟩
  obtain ⟨u, ru, chain, knownu, above⟩ := (backed t th.rank (rank_of_thread known)).source
  obtain ⟨thu, found, rfl⟩ := Option.map_eq_some_iff.mp knownu
  exact ⟨u, thu, chain, found, Int.le_antisymm above (le _ ⟨u, thu, chain, found, rfl⟩)⟩

theorem isGreatest_offers (h : Arranged R P s.layout) (exact : s.layout.Exact)
    (known : s.thread? t = some th) : IsGreatest (s.offers th) th.priority := by
  have donated := exact t th.rank (rank_of_thread known)
  have donor : ∀ w, (∃ l ∈ th.heldLocks, w ∈ (s.lockState l).waiters.tids) ↔
      s.layout.WaitsFor w t := by
    intro w
    rw [← mem_donors h known, donors, List.mem_flatMap]
  constructor
  · rcases donated.attained with own | ⟨w, rw, waits, knownw, eq⟩
    · exact .inl own
    · obtain ⟨thw, found, rfl⟩ := Option.map_eq_some_iff.mp knownw
      obtain ⟨l, held, mem⟩ := (donor w).mpr waits
      exact .inr ⟨l, held, w, thw, mem, found, eq⟩
  · rintro p (rfl | ⟨l, held, w, thw, mem, knownw, rfl⟩)
    · exact donated.base_le
    · exact donated.waiter_le w thw.rank ((donor w).mp ⟨l, held, mem⟩) (rank_of_thread knownw)

end

namespace Run

variable {feedback : Bool} {capacity : Nat} {allows : Scheduler → Event → Scheduler → Prop}
  {P : Set Tid} {s : Scheduler}

/-- Priorities stay exact as long as no wait chain becomes cyclic or longer than donation
reaches. -/
theorem exact (busy : IdleNeverWaits allows)
    (chained : ∀ s e s', allows s e s' → s'.layout.WellChained)
    (run : Run false capacity allows P s) : s.layout.Exact := by
  induction run with
  | start => exact start_exact false capacity
  | next run possible succeeds allowed ih =>
    have mode := (run.sound (R := False) busy (by simp)).mode
    exact (run.followed (R := False) busy (by simp) possible succeeds allowed).exact mode ih
      (chained _ _ _ allowed)

/-- Every effective priority lies between the thread's base priority and the highest base priority
of the thread and all that wait for it. If no state of the run had a cyclic wait or too long a wait
chain, it is that highest one, and it is the highest of the thread's base priority and the
effective priorities of all waiters on all locks the thread holds. -/
theorem priority_donated (busy : IdleNeverWaits allows) (run : Run false capacity allows P s) :
    (∀ t th, s.thread? t = some th →
      th.basePriority ≤ th.priority ∧ ∃ b ∈ s.sources t, th.priority ≤ b) ∧
    ((∀ s e s', allows s e s' → s'.layout.WellChained) → ∀ t th, s.thread? t = some th →
      IsGreatest (s.sources t) th.priority ∧ IsGreatest (s.offers th) th.priority) := by
  have sound := run.sound (R := False) busy (by simp)
  have backed := sound.backed sound.mode
  constructor
  · intro t th known
    obtain ⟨base_le, -, u, ru, chain, knownu, le⟩ := backed t th.rank (rank_of_thread known)
    obtain ⟨thu, found, rfl⟩ := Option.map_eq_some_iff.mp knownu
    exact ⟨base_le, thu.basePriority, ⟨u, thu, chain, found, rfl⟩, le⟩
  · intro chained t th known
    have exact := run.exact busy chained
    exact ⟨isGreatest_sources sound.orderly.toArranged exact backed known,
      isGreatest_offers sound.orderly.toArranged exact known⟩

/-- At most the thread of number 3 waits, and at most for the first thread. -/
private theorem wellChained_of_entries (waiters : ∀ e ∈ s.threads.entries,
    e.2.waitingLock ≠ none → e.1 = 3) (holders : ∀ x ∈ s.locks, x.holder ≠ some 1 → x.holder = none) :
    s.layout.WellChained := by
  apply Layout.WellChained.of_link (a := 3) (b := 1) (by decide)
  rintro u t ⟨l, waits, holds⟩
  constructor
  · obtain ⟨p, known, waits⟩ := Option.bind_eq_some_iff.mp waits
    obtain ⟨th, found, rfl⟩ := exists_thread known
    have waits : th.waitingLock = some l := waits
    exact waiters (u, th) (Table.find?_eq_some_iff.mp found) (by simp [waits])
  · have holds : (s.locks[l.index]?.getD default).holder = some t := holds
    cases lock : s.locks[l.index]? with
    | none => simp [lock, default] at holds
    | some x =>
      rw [lock, Option.getD_some] at holds
      have only := holders x (List.mem_of_getElem? lock)
      grind

/-- Careful events that leave no long wait chain. -/
private def Chained (s : Scheduler) (e : Event) (s' : Scheduler) : Prop :=
  Careful s e s' ∧ s'.layout.WellChained

private theorem chained_run : Run false 4 Chained ∅ contended := by
  apply contended_run
  all_goals
    refine ⟨⟨fun _ => by decide, fun _ => id⟩, ?_⟩
    apply wellChained_of_entries <;> decide

/-- The first thread has the priority of the thread that waits for its lock. -/
theorem priority_donated_contended : contended.priorityOf 1 = 40 ∧
    ∀ th, contended.thread? 1 = some th →
      IsGreatest (contended.sources 1) th.priority ∧ IsGreatest (contended.offers th) th.priority :=
  ⟨rfl, (priority_donated (fun _ _ _ allowed => allowed.1.1) chained_run).2
    (fun _ _ _ allowed => allowed.2) 1⟩

/-! ## Who runs -/

theorem led (busy : IdleNeverWaits allows) (unnamed : ∀ s e s', allows s e s' → ∀ t, ¬e.Unblocks t)
    (run : Run feedback capacity allows P s) : s.layout.Led := by
  have rests : ∀ s e s', allows s e s' → e.Unblocks s.idle → ¬True :=
    fun s e s' allowed wakes => absurd wakes (unnamed s e s' allowed s.idle)
  induction run with
  | start => exact .inl (start_top feedback capacity)
  | next run possible succeeds allowed ih =>
    exact (run.followed busy rests possible succeeds allowed).led trivial (unnamed _ _ _ allowed)
      (run.sound busy rests).backed ih

/-- Outside handlers no ready thread has a higher effective priority than the running one, and the
idle thread runs only if no other is ready. -/
theorem highest_runs (busy : IdleNeverWaits allows)
    (unnamed : ∀ s e s', allows s e s' → ∀ t, ¬e.Unblocks t)
    (run : Run feedback capacity allows P s) (outside : s.inHandler = false) :
    (∀ t ∈ s.ready.tids, s.priorityOf t ≤ s.priorityOf s.current) ∧
      (s.current = s.idle → s.ready.tids = []) := by
  have inside : ¬(s.layout.inHandler = true ∧ s.layout.yieldOnReturn = true) := by
    rintro ⟨inside, -⟩
    exact absurd (outside.symm.trans inside) Bool.false_ne_true
  have top := (run.led busy unnamed).resolve_right inside
  rw [← priority_layout]
  exact ⟨top.le, top.idle⟩

/-- The first thread runs with the priority of the thread that waits for its lock. -/
theorem highest_runs_contended : contended.inHandler = false ∧ contended.current = 1 ∧
    ∀ t ∈ contended.ready.tids, contended.priorityOf t ≤ contended.priorityOf 1 :=
  ⟨rfl, rfl, (highest_runs careful_idleNeverWaits (fun _ _ _ allowed => allowed.2) careful_run
    rfl).1⟩

end Run

end KernelCore.Scheduler
