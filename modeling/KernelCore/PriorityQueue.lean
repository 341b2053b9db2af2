import KernelCore.Violation

/-!
# Priority queues

The queue of ready threads and the queues of waiting threads. Priorities may change while a
thread is queued, so the queue keeps the threads in the order they came and looks for the
highest priority when one is taken out. Among equals the first to come is taken.
-/
namespace KernelCore

structure PriorityQueue where
  /-- In the order they were queued. -/
  tids : List Tid
  deriving DecidableEq, Repr

namespace PriorityQueue

def empty : PriorityQueue := ⟨[]⟩

def contains (q : PriorityQueue) (t : Tid) : Bool := q.tids.contains t

def length (q : PriorityQueue) : Nat := q.tids.length

def isEmpty (q : PriorityQueue) : Bool := q.tids.isEmpty

/-- Queue a thread behind all others. It must not be queued already. -/
def push (q : PriorityQueue) (t : Tid) : Except Violation PriorityQueue :=
  if q.contains t then .error (.queuedTwice t) else .ok ⟨q.tids ++ [t]⟩

/-- The better of two candidates, of which the first one came earlier. -/
def prefer (priority : Tid → Int) (first later : Tid) : Tid :=
  if priority first < priority later then later else first

/-- The first of the threads of highest priority. -/
def peekMax (q : PriorityQueue) (priority : Tid → Int) : Option Tid :=
  match q.tids with
  | [] => none
  | t :: rest => some (rest.foldl (prefer priority) t)

/-- Take a thread out of the queue, and tell whether it was queued. -/
def remove (q : PriorityQueue) (t : Tid) : Bool × PriorityQueue :=
  (q.contains t, ⟨q.tids.erase t⟩)

/-- Take out the first of the threads of highest priority. -/
def popMax (q : PriorityQueue) (priority : Tid → Int) : Option Tid × PriorityQueue :=
  match q.peekMax priority with
  | none => (none, q)
  | some t => (some t, (q.remove t).2)

/-! ## What is queued -/

variable {q : PriorityQueue} {t : Tid} {priority : Tid → Int}

@[simp] theorem contains_iff : q.contains t = true ↔ t ∈ q.tids := by
  simp [contains]

/-- A thread that is not queued is put behind all others. -/
theorem push_of_not_mem (h : t ∉ q.tids) : q.push t = .ok ⟨q.tids ++ [t]⟩ := by
  simp [push, h]

/-- The thread that is taken has a higher priority than all before it and none behind it has a
higher one. -/
def Foremost (q : PriorityQueue) (priority : Tid → Int) (t : Tid) : Prop :=
  ∃ front back, q.tids = front ++ t :: back ∧ (∀ x ∈ front, priority x < priority t) ∧
    ∀ x ∈ back, priority x ≤ priority t

private theorem foremost_foldl (first : Tid) (rest : List Tid) :
    Foremost ⟨first :: rest⟩ priority (rest.foldl (prefer priority) first) := by
  induction rest generalizing first with
  | nil => exact ⟨[], [], rfl, by simp, by simp⟩
  | cons later rest ih =>
    rw [List.foldl_cons]
    by_cases lower : priority first < priority later
    · rw [show prefer priority first later = later from if_pos lower]
      obtain ⟨front, back, split, before, behind⟩ := ih later
      refine ⟨first :: front, back, congrArg (first :: ·) split, ?_, behind⟩
      have le : priority later ≤ priority (rest.foldl (prefer priority) later) := by
        have mem : later ∈ front ++ rest.foldl (prefer priority) later :: back := by
          simp [← show later :: rest = _ from split]
        rcases List.mem_append.mp mem with mem | mem
        · exact Int.le_of_lt (before later mem)
        · rcases List.mem_cons.mp mem with same | mem
          · exact Int.le_of_eq (congrArg priority same)
          · exact behind later mem
      simp only [List.mem_cons, forall_eq_or_imp]
      exact ⟨Int.lt_of_lt_of_le lower le, before⟩
    · rw [show prefer priority first later = first from if_neg lower]
      obtain ⟨front, back, split, before, behind⟩ := ih first
      cases front with
      | nil =>
        obtain ⟨same, rfl⟩ := List.cons.inj (show first :: rest = _ :: back from split)
        refine ⟨[], later :: rest, by rw [← same]; rfl, by simp, ?_⟩
        simp only [List.mem_cons, forall_eq_or_imp]
        exact ⟨same ▸ Int.le_of_not_gt lower, behind⟩
      | cons x front =>
        obtain ⟨rfl, rest'⟩ := List.cons.inj (show first :: rest = x :: (front ++ _) from split)
        simp only [List.mem_cons, forall_eq_or_imp] at before
        refine ⟨first :: later :: front, back, ?_, ?_, behind⟩
        · exact congrArg (first :: later :: ·) rest'
        · simp only [List.mem_cons, forall_eq_or_imp]
          exact ⟨before.1, Int.lt_of_le_of_lt (Int.le_of_not_gt lower) before.1, before.2⟩

theorem foremost_of_peekMax (h : q.peekMax priority = some t) : q.Foremost priority t := by
  unfold peekMax at h
  split at h
  · simp at h
  · rename_i first rest queued
    obtain ⟨tids⟩ := q
    obtain rfl : tids = first :: rest := queued
    exact Option.some.inj h ▸ foremost_foldl first rest

theorem Foremost.mem (h : q.Foremost priority t) : t ∈ q.tids := by
  obtain ⟨front, back, split, -⟩ := h
  simp [split]

theorem Foremost.le (h : q.Foremost priority t) {x : Tid} (mem : x ∈ q.tids) :
    priority x ≤ priority t := by
  obtain ⟨front, back, split, before, behind⟩ := h
  rw [split, List.mem_append, List.mem_cons] at mem
  rcases mem with mem | rfl | mem
  · exact Int.le_of_lt (before x mem)
  · exact Int.le_refl _
  · exact behind x mem

/-- Only the priorities of the queued threads matter. -/
theorem Foremost.congr (h : q.Foremost priority t) {other : Tid → Int}
    (same : ∀ x ∈ q.tids, other x = priority x) : q.Foremost other t := by
  have own := same t h.mem
  obtain ⟨front, back, split, before, behind⟩ := h
  refine ⟨front, back, split, ?_, ?_⟩
  · intro x mem
    rw [own, same x (by simp [split, mem])]
    exact before x mem
  · intro x mem
    rw [own, same x (by simp [split, mem])]
    exact behind x mem

theorem peekMax_eq_none (h : q.peekMax priority = none) : q.tids = [] := by
  unfold peekMax at h
  split at h
  · assumption
  · simp at h

/-- Nothing is taken out of an empty queue only. -/
theorem popMax_of_none (h : (q.popMax priority).1 = none) :
    q.tids = [] ∧ (q.popMax priority).2 = q := by
  unfold popMax at h ⊢
  split at h
  · rename_i empty
    simp [peekMax_eq_none empty]
  · simp at h

/-- The foremost thread is taken out, and the rest stays queued in its order. -/
theorem popMax_of_some (h : (q.popMax priority).1 = some t) :
    q.Foremost priority t ∧ (q.popMax priority).2 = ⟨q.tids.erase t⟩ := by
  unfold popMax at h ⊢
  split at h
  · simp at h
  · rename_i found
    simp only [Option.some.injEq] at h
    subst h
    simp [foremost_of_peekMax found, remove]

end PriorityQueue

end KernelCore
