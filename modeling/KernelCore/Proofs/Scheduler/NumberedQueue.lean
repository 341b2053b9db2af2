import Mathlib.Data.List.Nodup
import KernelCore.PriorityQueue

/-!
# Queues of numbered threads

A priority queue can be stored with a number beside each thread that tells when it was pushed. The
search for the highest priority then goes over all places, keeps the best candidate so far, and
tells the earlier of two equals by their numbers. Since the numbers ascend along the queue, such a
queue answers every call as the queue of the plain order does.
-/
namespace KernelCore

/-- A thread with the number of its push. -/
structure NumberedThread where
  tid : Tid
  number : Nat
  deriving DecidableEq, Repr

structure NumberedQueue where
  entries : List NumberedThread
  /-- The number of the next push. -/
  next : Nat
  deriving DecidableEq, Repr

namespace NumberedQueue

def empty : NumberedQueue := ⟨[], 0⟩

def contains (q : NumberedQueue) (t : Tid) : Bool := q.entries.any fun e => e.tid = t

def push (q : NumberedQueue) (t : Tid) : Except Violation NumberedQueue :=
  if q.contains t then .error (.queuedTwice t)
  else .ok ⟨q.entries ++ [⟨t, q.next⟩], q.next + 1⟩

/-- The best of the threads that were looked at. -/
structure Candidate where
  place : Nat
  priority : Int
  number : Nat

/-- Look at one more thread and its place. The candidate gives way to it, unless the thread has a
lower priority, or the same and a higher number. -/
def look (priority : Tid → Int) (best : Option Candidate) (e : NumberedThread × Nat) :
    Option Candidate :=
  let found : Candidate := ⟨e.2, priority e.1.tid, e.1.number⟩
  match best with
  | none => some found
  | some b =>
    if found.priority < b.priority ∨ (found.priority = b.priority ∧ b.number < found.number) then
      some b
    else some found

/-- The place of the thread of highest priority. -/
def positionMax (q : NumberedQueue) (priority : Tid → Int) : Option Nat :=
  (q.entries.zipIdx.foldl (look priority) none).map Candidate.place

def peekMax (q : NumberedQueue) (priority : Tid → Int) : Option Tid := do
  let i ← q.positionMax priority
  let e ← q.entries[i]?
  pure e.tid

def popMax (q : NumberedQueue) (priority : Tid → Int) : Option Tid × NumberedQueue :=
  match q.positionMax priority with
  | none => (none, q)
  | some i => ((q.entries[i]?).map NumberedThread.tid, { q with entries := q.entries.eraseIdx i })

def remove (q : NumberedQueue) (t : Tid) : Bool × NumberedQueue :=
  match q.entries.findIdx? fun e => e.tid = t with
  | none => (false, q)
  | some i => (true, { q with entries := q.entries.eraseIdx i })

/-- The queue without the numbers. -/
def order (q : NumberedQueue) : PriorityQueue := ⟨q.entries.map NumberedThread.tid⟩

/-- Numbers ascend in the order of the queue, and no thread has two of them. -/
structure Regular (q : NumberedQueue) : Prop where
  ascending : q.entries.Pairwise fun a b => a.number < b.number
  below : ∀ e ∈ q.entries, e.number < q.next
  once : q.order.tids.Nodup

variable {q q' : NumberedQueue} {t : Tid} {priority : Tid → Int}

theorem regular_empty : empty.Regular where
  ascending := List.Pairwise.nil
  below _ member := absurd member List.not_mem_nil
  once := List.nodup_nil

theorem contains_order (q : NumberedQueue) (t : Tid) : q.order.contains t = q.contains t := by
  rw [Bool.eq_iff_iff, PriorityQueue.contains_iff]
  simp [order, contains]

/-! ## Pushing -/

theorem push_order (q : NumberedQueue) (t : Tid) : (q.push t).map order = q.order.push t := by
  unfold push PriorityQueue.push
  rw [contains_order]
  split
  · rfl
  · simp [Except.map, order]

theorem Regular.push (regular : q.Regular) (done : q.push t = .ok q') : q'.Regular := by
  unfold NumberedQueue.push at done
  split at done
  · cases done
  · rename_i absent
    obtain rfl := Except.ok.inj done
    rw [← contains_order, PriorityQueue.contains_iff] at absent
    constructor
    · rw [List.pairwise_append]
      refine ⟨regular.ascending, List.pairwise_singleton _ _, fun a member b last => ?_⟩
      rw [List.mem_singleton.mp last]
      exact regular.below a member
    · intro e member
      rcases List.mem_append.mp member with old | last
      · exact Nat.lt_succ_of_lt (regular.below e old)
      · rw [List.mem_singleton.mp last]
        exact Nat.lt_succ_self q.next
    · have once : (q.order.tids.concat t).Nodup := regular.once.concat absent
      simpa [order] using once

/-! ## The search for the highest priority -/

/-- The candidate stands for one of the threads. -/
structure Candidate.StandsFor (c : Candidate) (priority : Tid → Int)
    (entries : List NumberedThread) (e : NumberedThread) : Prop where
  place : entries[c.place]? = some e
  priority : c.priority = priority e.tid
  number : c.number = e.number

/-- A thread that was pushed after the candidate takes its place only if its priority is higher. -/
theorem look_later {c : Candidate} {entries : List NumberedThread} {e later : NumberedThread}
    {place : Nat} (stands : c.StandsFor priority entries e) (here : entries[place]? = some later)
    (after : e.number < later.number) :
    ∃ c' e', look priority (some c) (later, place) = some c' ∧
      c'.StandsFor priority entries e' ∧
      e'.tid = PriorityQueue.prefer priority e.tid later.tid ∧
      (e' = e ∨ e' = later) := by
  have samePriority := stands.priority
  have sameNumber := stands.number
  by_cases higher : priority e.tid < priority later.tid
  · have replaced : look priority (some c) (later, place) =
        some ⟨place, priority later.tid, later.number⟩ := by
      simp only [look]
      exact if_neg (by omega)
    exact ⟨_, later, replaced, ⟨here, rfl, rfl⟩, (if_pos higher).symm, .inr rfl⟩
  · have kept : look priority (some c) (later, place) = some c := by
      simp only [look]
      exact if_pos (by omega)
    exact ⟨c, e, kept, stands, (if_neg higher).symm, .inl rfl⟩

/-- The scan over the rest of a queue finds what the preference for higher priorities finds. -/
theorem scan_prefers {entries rest : List NumberedThread} {c : Candidate} {e : NumberedThread}
    (place : Nat) (suffix : entries.drop place = rest)
    (stands : c.StandsFor priority entries e)
    (ascending : rest.Pairwise fun a b => a.number < b.number)
    (after : ∀ later ∈ rest, e.number < later.number) :
    ∃ c' e', (rest.zipIdx place).foldl (look priority) (some c) = some c' ∧
      c'.StandsFor priority entries e' ∧
      e'.tid = (rest.map NumberedThread.tid).foldl (PriorityQueue.prefer priority) e.tid := by
  induction rest generalizing c e place with
  | nil => exact ⟨c, e, rfl, stands, rfl⟩
  | cons later rest ih =>
    have here : entries[place]? = some later := by
      rw [← List.head?_drop, suffix, List.head?_cons]
    have suffix' : entries.drop (place + 1) = rest := by
      rw [← List.tail_drop, suffix, List.tail_cons]
    obtain ⟨behind, ascending'⟩ := List.pairwise_cons.mp ascending
    obtain ⟨c', e', looked, stands', preferred, which⟩ :=
      look_later stands here (after later List.mem_cons_self)
    have after' : ∀ x ∈ rest, e'.number < x.number := by
      intro x member
      rcases which with rfl | rfl
      · exact after x (List.mem_cons_of_mem _ member)
      · exact behind x member
    obtain ⟨final, winner, scanned, standsFinal, chosen⟩ := ih (place + 1) suffix' stands' ascending' after'
    refine ⟨final, winner, ?_, standsFinal, ?_⟩
    · rw [List.zipIdx_cons, List.foldl_cons, looked]
      exact scanned
    · rw [chosen, preferred]
      rfl

/-- The search answers with the place of the thread that the plain queue looks up. -/
theorem positionMax_eq (regular : q.Regular) :
    q.positionMax priority = (q.order.peekMax priority).map q.order.tids.idxOf := by
  obtain ⟨entries, next⟩ := q
  cases entries with
  | nil => rfl
  | cons first rest =>
    obtain ⟨behind, ascending⟩ := List.pairwise_cons.mp regular.ascending
    have stands : Candidate.StandsFor ⟨0, priority first.tid, first.number⟩ priority
        (first :: rest) first := ⟨rfl, rfl, rfl⟩
    obtain ⟨c, winner, scanned, stands, chosen⟩ :=
      scan_prefers 1 rfl stands ascending behind
    have looked : NumberedQueue.positionMax ⟨first :: rest, next⟩ priority = some c.place :=
      congrArg (Option.map Candidate.place) scanned
    have peeked : (NumberedQueue.order ⟨first :: rest, next⟩).peekMax priority = some winner.tid :=
      congrArg some chosen.symm
    have place : ((first :: rest).map NumberedThread.tid)[c.place]? = some winner.tid := by
      rw [List.getElem?_map, stands.place, Option.map_some]
    obtain ⟨inside, there⟩ := List.getElem?_eq_some_iff.mp place
    rw [looked, peeked, Option.map_some, ← there]
    exact congrArg some (List.Nodup.idxOf_getElem regular.once c.place inside).symm

/-! ## Looking and taking -/

theorem peekMax_order (regular : q.Regular) (priority : Tid → Int) :
    q.peekMax priority = q.order.peekMax priority := by
  unfold peekMax
  rw [positionMax_eq regular]
  cases found : q.order.peekMax priority with
  | none => rfl
  | some t =>
    have member : t ∈ q.order.tids := (PriorityQueue.foremost_of_peekMax found).mem
    have there : (q.order.tids)[q.order.tids.idxOf t]? = some t := List.getElem?_idxOf member
    simp only [order, List.getElem?_map, Option.map_eq_some_iff] at there
    obtain ⟨e, place, same⟩ := there
    simp [order, place, same]

theorem map_eraseIdx (entries : List NumberedThread) (i : Nat) :
    (entries.eraseIdx i).map NumberedThread.tid = (entries.map NumberedThread.tid).eraseIdx i := by
  induction entries generalizing i with
  | nil => rfl
  | cons e rest ih => cases i <;> simp [ih]

theorem Regular.erase (regular : q.Regular) (i : Nat) :
    Regular { q with entries := q.entries.eraseIdx i } where
  ascending := regular.ascending.sublist (List.eraseIdx_sublist _ i)
  below e member := regular.below e ((List.eraseIdx_sublist _ i).subset member)
  once := regular.once.sublist ((List.eraseIdx_sublist _ i).map NumberedThread.tid)

/-- Erasing at the place of a thread erases the thread. -/
theorem erase_order (t : Tid) :
    order { q with entries := q.entries.eraseIdx (q.order.tids.idxOf t) } =
      ⟨q.order.tids.erase t⟩ := by
  unfold order
  rw [map_eraseIdx, List.erase_eq_eraseIdx_of_idxOf rfl]

theorem popMax_order (regular : q.Regular) (priority : Tid → Int) :
    (q.popMax priority).1 = (q.order.popMax priority).1 ∧
      (q.popMax priority).2.order = (q.order.popMax priority).2 ∧
      (q.popMax priority).2.Regular := by
  have peeked := peekMax_order regular priority
  unfold peekMax at peeked
  unfold popMax PriorityQueue.popMax
  rw [positionMax_eq regular] at peeked ⊢
  cases found : q.order.peekMax priority with
  | none => exact ⟨rfl, rfl, regular⟩
  | some t =>
    have taken : (q.entries[q.order.tids.idxOf t]?).map NumberedThread.tid = some t := by
      rw [found] at peeked
      rw [Option.map_eq_bind]
      exact peeked
    exact ⟨taken, erase_order t, regular.erase _⟩

/-- The search for a thread finds its place, if it is queued. -/
theorem findIdx?_tid (entries : List NumberedThread) (t : Tid) :
    entries.findIdx? (fun e => e.tid = t) =
      if t ∈ entries.map NumberedThread.tid then
        some ((entries.map NumberedThread.tid).idxOf t)
      else none := by
  induction entries with
  | nil => rfl
  | cons e rest ih =>
    rw [List.findIdx?_cons, List.map_cons, List.idxOf_cons]
    by_cases here : e.tid = t
    · simp [here]
    · have other : (e.tid == t) = false := beq_eq_false_iff_ne.mpr here
      have behind : (t ∈ e.tid :: rest.map NumberedThread.tid) ↔
          t ∈ rest.map NumberedThread.tid := by
        rw [List.mem_cons, or_iff_right (Ne.symm here)]
      simp only [here, other, decide_false, ih, behind, cond_false, if_false, Bool.false_eq_true]
      split <;> rfl

theorem remove_order (regular : q.Regular) (t : Tid) :
    (q.remove t).1 = (q.order.remove t).1 ∧
      (q.remove t).2.order = (q.order.remove t).2 ∧ (q.remove t).2.Regular := by
  unfold remove PriorityQueue.remove
  rw [findIdx?_tid, show q.entries.map NumberedThread.tid = q.order.tids from rfl]
  by_cases member : t ∈ q.order.tids
  · rw [if_pos member]
    exact ⟨(PriorityQueue.contains_iff.mpr member).symm, erase_order t, regular.erase _⟩
  · rw [if_neg member]
    refine ⟨?_, ?_, regular⟩
    · exact (Bool.eq_false_iff.mpr fun queued => member (PriorityQueue.contains_iff.mp queued)).symm
    · exact congrArg PriorityQueue.mk (List.erase_of_not_mem member).symm

end NumberedQueue

end KernelCore
