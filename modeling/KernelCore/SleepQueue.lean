import KernelCore.Thread

/-!
# The sleep queue

Sleeping threads in the order they are to be woken: by wake-up tick, and among those of one
tick in the order they went to sleep.
-/
namespace KernelCore

structure Sleeper where
  wakeTick : Nat
  tid : Tid
  deriving DecidableEq, Repr

structure SleepQueue where
  sleepers : List Sleeper
  deriving DecidableEq, Repr

namespace SleepQueue

def empty : SleepQueue := ⟨[]⟩

private def place (s : Sleeper) : List Sleeper → List Sleeper
  | [] => [s]
  | x :: rest => if s.wakeTick < x.wakeTick then s :: x :: rest else x :: place s rest

/-- Queue a thread behind all that wake at its tick or before. -/
def push (q : SleepQueue) (t : Tid) (wakeTick : Nat) : SleepQueue :=
  ⟨place ⟨wakeTick, t⟩ q.sleepers⟩

/-- Take out the first thread if its wake-up tick has come. -/
def popExpired (q : SleepQueue) (now : Nat) : Option Tid × SleepQueue :=
  match q.sleepers with
  | [] => (none, q)
  | s :: rest => if s.wakeTick ≤ now then (some s.tid, ⟨rest⟩) else (none, q)

/-- The threads whose wake-up tick has come, first to last. -/
def expired (q : SleepQueue) (now : Nat) : List Tid :=
  (q.sleepers.takeWhile fun s => s.wakeTick ≤ now).map Sleeper.tid

/-- The queue without the threads whose wake-up tick has come. -/
def afterExpired (q : SleepQueue) (now : Nat) : SleepQueue :=
  ⟨q.sleepers.dropWhile fun s => s.wakeTick ≤ now⟩

/-- The earliest wake-up tick. -/
def nextWakeup (q : SleepQueue) : Option Nat := q.sleepers.head?.map Sleeper.wakeTick

def tids (q : SleepQueue) : List Tid := q.sleepers.map Sleeper.tid

def contains (q : SleepQueue) (t : Tid) : Bool := q.tids.contains t

def length (q : SleepQueue) : Nat := q.sleepers.length

def isEmpty (q : SleepQueue) : Bool := q.sleepers.isEmpty

theorem expired_of_popExpired_none {q : SleepQueue} {now : Nat}
    (h : (q.popExpired now).1 = none) : q.expired now = [] ∧ q.afterExpired now = q := by
  obtain ⟨_ | ⟨s, rest⟩⟩ := q
  · exact ⟨rfl, rfl⟩
  · by_cases hs : s.wakeTick ≤ now
    · simp [popExpired, hs] at h
    · simp [expired, afterExpired, hs]

/-- Taking out the expired threads one at a time takes them out in this order. -/
theorem expired_of_popExpired {q q' : SleepQueue} {now : Nat} {t : Tid}
    (h : q.popExpired now = (some t, q')) :
    q.expired now = t :: q'.expired now ∧ q.afterExpired now = q'.afterExpired now := by
  obtain ⟨_ | ⟨s, rest⟩⟩ := q
  · simp [popExpired] at h
  · by_cases hs : s.wakeTick ≤ now
    · simp only [popExpired, hs, if_true, Prod.mk.injEq, Option.some.injEq] at h
      obtain ⟨rfl, rfl⟩ := h
      simp [expired, afterExpired, hs]
    · simp [popExpired, hs] at h

theorem tids_of_popExpired {q q' : SleepQueue} {now : Nat} {t : Tid}
    (h : q.popExpired now = (some t, q')) : q.tids = t :: q'.tids := by
  obtain ⟨_ | ⟨s, rest⟩⟩ := q
  · simp [popExpired] at h
  · by_cases hs : s.wakeTick ≤ now
    · simp only [popExpired, hs, if_true, Prod.mk.injEq, Option.some.injEq] at h
      obtain ⟨rfl, rfl⟩ := h
      rfl
    · simp [popExpired, hs] at h

/-! ## What is queued -/

@[simp] theorem contains_iff {q : SleepQueue} {t : Tid} : q.contains t = true ↔ t ∈ q.tids := by
  simp [contains]

private theorem perm_place (s : Sleeper) (xs : List Sleeper) : (place s xs).Perm (s :: xs) := by
  induction xs with
  | nil => simp [place]
  | cons x rest ih =>
    unfold place
    split
    · exact List.Perm.refl _
    · exact (ih.cons x).trans (List.Perm.swap s x rest)

theorem perm_push (q : SleepQueue) (t : Tid) (wakeTick : Nat) :
    (q.push t wakeTick).tids.Perm (t :: q.tids) :=
  (perm_place ⟨wakeTick, t⟩ q.sleepers).map Sleeper.tid

/-- The expired threads are the first ones. -/
theorem expired_append_afterExpired (q : SleepQueue) (now : Nat) :
    q.expired now ++ (q.afterExpired now).tids = q.tids := by
  simp only [expired, afterExpired, tids, ← List.map_append, List.takeWhile_append_dropWhile]

/-! ## Order -/

/-- The sleepers stand in the order of their wake-up ticks. -/
def Sorted (q : SleepQueue) : Prop := q.sleepers.Pairwise fun x y => x.wakeTick ≤ y.wakeTick

/-- The sleepers that wake at a tick, first to last. -/
def wakingAt (q : SleepQueue) (tick : Nat) : List Sleeper :=
  q.sleepers.filter fun x => x.wakeTick = tick

theorem mem_push {q : SleepQueue} {t : Tid} {n : Nat} {x : Sleeper} :
    x ∈ (q.push t n).sleepers ↔ x = ⟨n, t⟩ ∨ x ∈ q.sleepers := by
  have perm := perm_place ⟨n, t⟩ q.sleepers
  simpa [push] using perm.mem_iff (a := x)

private theorem pairwise_place (s : Sleeper) {xs : List Sleeper}
    (h : xs.Pairwise fun x y => x.wakeTick ≤ y.wakeTick) :
    (place s xs).Pairwise fun x y => x.wakeTick ≤ y.wakeTick := by
  induction xs with
  | nil => simp [place]
  | cons x rest ih =>
    obtain ⟨least, sorted⟩ := List.pairwise_cons.mp h
    unfold place
    split
    · rename_i before
      refine List.pairwise_cons.mpr ⟨fun y mem => ?_, h⟩
      rcases List.mem_cons.mp mem with rfl | mem
      · omega
      · have := least y mem
        omega
    · rename_i behind
      refine List.pairwise_cons.mpr ⟨fun y mem => ?_, ih sorted⟩
      rcases List.mem_cons.mp ((perm_place s rest).mem_iff.mp mem) with rfl | mem
      · omega
      · exact least y mem

theorem Sorted.push {q : SleepQueue} (h : q.Sorted) (t : Tid) (n : Nat) : (q.push t n).Sorted :=
  pairwise_place ⟨n, t⟩ h

private theorem filter_place (s : Sleeper) (tick : Nat) {xs : List Sleeper}
    (h : xs.Pairwise fun x y => x.wakeTick ≤ y.wakeTick) :
    (place s xs).filter (fun x => x.wakeTick = tick) =
      (xs ++ [s]).filter (fun x => x.wakeTick = tick) := by
  induction xs with
  | nil => rfl
  | cons x rest ih =>
    obtain ⟨least, sorted⟩ := List.pairwise_cons.mp h
    unfold place
    split
    · rename_i before
      by_cases own : s.wakeTick = tick
      · -- Everything from here on wakes later.
        have later : (x :: rest).filter (fun x => x.wakeTick = tick) = [] := by
          rw [List.filter_eq_nil_iff]
          intro y mem
          rcases List.mem_cons.mp mem with rfl | mem
          · simp only [decide_eq_true_eq]
            omega
          · have := least y mem
            simp only [decide_eq_true_eq]
            omega
        rw [List.filter_cons_of_pos (by simpa using own), later, List.filter_append, later]
        simp [own]
      · rw [List.filter_cons_of_neg (by simpa using own), List.filter_append]
        simp [own]
    · rw [List.cons_append, List.filter_cons, List.filter_cons, ih sorted]

/-- Whoever goes to sleep is woken behind all that wake at the same tick. -/
theorem wakingAt_push {q : SleepQueue} (h : q.Sorted) (t : Tid) (n tick : Nat) :
    (q.push t n).wakingAt tick = (q.sleepers ++ [Sleeper.mk n t]).filter fun x => x.wakeTick = tick :=
  filter_place ⟨n, t⟩ tick h

private theorem split_sorted (now : Nat) {xs : List Sleeper}
    (h : xs.Pairwise fun x y => x.wakeTick ≤ y.wakeTick) :
    xs.takeWhile (fun x => x.wakeTick ≤ now) = xs.filter (fun x => x.wakeTick ≤ now) ∧
      xs.dropWhile (fun x => x.wakeTick ≤ now) = xs.filter (fun x => now < x.wakeTick) := by
  induction xs with
  | nil => exact ⟨rfl, rfl⟩
  | cons x rest ih =>
    obtain ⟨least, sorted⟩ := List.pairwise_cons.mp h
    obtain ⟨taken, left⟩ := ih sorted
    by_cases due : x.wakeTick ≤ now
    · have notLater : ¬now < x.wakeTick := by omega
      simp [due, notLater, taken, left]
    · have all : ∀ y ∈ rest, now < y.wakeTick := by
        intro y mem
        have := least y mem
        omega
      have none : rest.filter (fun x => x.wakeTick ≤ now) = [] := by
        rw [List.filter_eq_nil_iff]
        intro y mem
        have := all y mem
        simp only [decide_eq_true_eq]
        omega
      have whole : rest.filter (fun x => now < x.wakeTick) = rest := by
        rw [List.filter_eq_self]
        intro y mem
        simpa using all y mem
      have later : now < x.wakeTick := by omega
      simp [due, later, none, whole]

theorem expired_eq {q : SleepQueue} (h : q.Sorted) (now : Nat) :
    q.expired now = (q.sleepers.filter fun x => x.wakeTick ≤ now).map Sleeper.tid := by
  rw [expired, (split_sorted now h).1]

theorem afterExpired_eq {q : SleepQueue} (h : q.Sorted) (now : Nat) :
    q.afterExpired now = ⟨q.sleepers.filter fun x => now < x.wakeTick⟩ := by
  rw [afterExpired, (split_sorted now h).2]

theorem Sorted.afterExpired {q : SleepQueue} (h : q.Sorted) (now : Nat) :
    (q.afterExpired now).Sorted := by
  rw [afterExpired_eq h]
  exact List.Pairwise.filter _ h

end SleepQueue

end KernelCore
