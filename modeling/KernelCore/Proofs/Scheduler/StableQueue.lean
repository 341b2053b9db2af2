import KernelCore.Proofs.Scheduler.NumberedQueue

/-!
# Priority queues are stable under changing priorities

Any sequence of calls to a priority queue, each of which may bring its own priorities, is recorded
with the answers. What the queue contains is told by the record alone: the threads that were pushed
and not taken out since, in the order of their pushes. Every answer is the first of the threads of
highest priority among these, and nothing else moves. Storing numbers beside the threads changes no
answer.
-/
namespace KernelCore

inductive QueueCall where
  | push (t : Tid)
  | remove (t : Tid)
  | peekMax (priority : Tid → Int)
  | popMax (priority : Tid → Int)

/-- A call and its answer. -/
inductive QueueEvent where
  | pushed (t : Tid)
  | removed (t : Tid) (found : Bool)
  | peeked (priority : Tid → Int) (answer : Option Tid)
  | popped (priority : Tid → Int) (answer : Option Tid)

/-- What can be done with queues of a kind. -/
structure QueueMethods (Q : Type) where
  push : Q → Tid → Except Violation Q
  remove : Q → Tid → Bool × Q
  peekMax : Q → (Tid → Int) → Option Tid
  popMax : Q → (Tid → Int) → Option Tid × Q

def PriorityQueue.methods : QueueMethods PriorityQueue := ⟨push, remove, peekMax, popMax⟩

def NumberedQueue.methods : QueueMethods NumberedQueue := ⟨push, remove, peekMax, popMax⟩

namespace QueueMethods

variable {Q : Type}

def perform (m : QueueMethods Q) (q : Q) : QueueCall → Except Violation (QueueEvent × Q)
  | .push t => do
    let q ← m.push q t
    pure (.pushed t, q)
  | .remove t => pure (.removed t (m.remove q t).1, (m.remove q t).2)
  | .peekMax priority => pure (.peeked priority (m.peekMax q priority), q)
  | .popMax priority => pure (.popped priority (m.popMax q priority).1, (m.popMax q priority).2)

/-- The record of a sequence of calls, and the queue they lead to. -/
def performAll (m : QueueMethods Q) (q : Q) :
    List QueueCall → Except Violation (List QueueEvent × Q)
  | [] => pure ([], q)
  | call :: calls => do
    let (e, q) ← m.perform q call
    let (log, q) ← m.performAll q calls
    pure (e :: log, q)

variable {m : QueueMethods Q} {q q' final : Q} {t : Tid} {call : QueueCall}
  {calls : List QueueCall} {e : QueueEvent} {log : List QueueEvent}

theorem perform_push (pushed : m.push q t = .ok q') :
    m.perform q (.push t) = .ok (.pushed t, q') := by
  simp only [perform, pushed]
  rfl

theorem push_of_perform (done : m.perform q (.push t) = .ok (e, q')) :
    m.push q t = .ok q' ∧ e = .pushed t := by
  cases pushed : m.push q t with
  | error v =>
    simp only [perform, pushed] at done
    cases done
  | ok q₁ =>
    rw [perform_push pushed] at done
    cases done
    exact ⟨rfl, rfl⟩

theorem performAll_cons (calls : List QueueCall) (first : m.perform q call = .ok (e, q')) :
    m.performAll q (call :: calls) = (m.performAll q' calls).map fun r => (e :: r.1, r.2) := by
  simp only [performAll, first]
  rfl

theorem exists_of_performAll_cons (done : m.performAll q (call :: calls) = .ok (log, final)) :
    ∃ e q' rest, m.perform q call = .ok (e, q') ∧ m.performAll q' calls = .ok (rest, final) ∧
      log = e :: rest := by
  cases first : m.perform q call with
  | error v =>
    simp only [performAll, first] at done
    cases done
  | ok r =>
    obtain ⟨e, q'⟩ := r
    rw [performAll_cons calls first] at done
    cases others : m.performAll q' calls with
    | error v =>
      rw [others] at done
      cases done
    | ok r =>
      rw [others] at done
      cases done
      exact ⟨e, q', r.1, rfl, others, rfl⟩

end QueueMethods

namespace QueueEvent

def call : QueueEvent → QueueCall
  | pushed t => .push t
  | removed t _ => .remove t
  | peeked priority _ => .peekMax priority
  | popped priority _ => .popMax priority

/-- Whether a thread is not queued any more after an event, if it was. -/
def takes (t : Tid) : QueueEvent → Bool
  | removed x _ => x = t
  | popped _ (some x) => x = t
  | _ => false

end QueueEvent

/-- The threads that were pushed and not taken out since, in the order of their pushes. -/
def remaining : List QueueEvent → List Tid
  | [] => []
  | .pushed t :: later =>
    if later.any (QueueEvent.takes t) then remaining later else t :: remaining later
  | _ :: later => remaining later

/-- The thread has the highest priority of those queued, and is the first to have it. -/
structure FirstMaximum (priority : Tid → Int) (queued : List Tid) (t : Tid) : Prop where
  mem : t ∈ queued
  le : ∀ x ∈ queued, priority x ≤ priority t
  first : ∀ x ∈ queued, priority x = priority t → queued.idxOf t ≤ queued.idxOf x

/-- The event answers for what was queued before, and leaves behind what it has to. -/
def QueueEvent.Fits (before after : List Tid) : QueueEvent → Prop
  | pushed t => t ∉ before ∧ after = before ++ [t]
  | removed t found => (found = true ↔ t ∈ before) ∧ after = before.erase t
  | peeked _ none => before = [] ∧ after = []
  | peeked priority (some t) => FirstMaximum priority before t ∧ after = before
  | popped _ none => before = [] ∧ after = []
  | popped priority (some t) => FirstMaximum priority before t ∧ after = before.erase t

/-! ## What is left -/

variable {past : List QueueEvent} {e : QueueEvent} {before after : List Tid}

/-- An event takes threads out of what was left, and may add one behind. -/
theorem remaining_append_singleton (past : List QueueEvent) (e : QueueEvent) :
    remaining (past ++ [e]) = (remaining past).filter (fun t => !e.takes t) ++ remaining [e] := by
  induction past with
  | nil => rfl
  | cons first past ih =>
    cases first with
    | pushed t =>
      have lasting : (past ++ [e]).any (QueueEvent.takes t) =
          (past.any (QueueEvent.takes t) || e.takes t) := by simp
      rw [List.cons_append, remaining, lasting, remaining]
      by_cases gone : past.any (QueueEvent.takes t) = true
      · simp only [gone, Bool.true_or, if_true]
        exact ih
      · by_cases taken : e.takes t = true
        · simp [gone, taken, ih]
        · simp [gone, taken, ih]
    | removed x found => exact ih
    | peeked priority answer => exact ih
    | popped priority answer => exact ih

/-- What an event leaves behind is what is left by the record. -/
theorem remaining_of_fits (once : (remaining past).Nodup) (fits : e.Fits (remaining past) after) :
    remaining (past ++ [e]) = after := by
  have erased : ∀ t, (remaining past).filter (fun x => !decide (t = x)) = (remaining past).erase t := by
    intro t
    rw [once.erase_eq_filter]
    refine List.filter_congr fun x _ => ?_
    by_cases same : t = x
    · simp [same]
    · simp [same, Ne.symm same]
  rw [remaining_append_singleton]
  cases e with
  | pushed t => simp [fits.2, QueueEvent.takes, remaining]
  | removed t found => simp [fits.2, QueueEvent.takes, remaining, erased]
  | peeked priority answer =>
    cases answer with
    | none => simp [fits.2, fits.1, remaining]
    | some t => simp [fits.2, QueueEvent.takes, remaining]
  | popped priority answer =>
    cases answer with
    | none => simp [fits.2, fits.1, remaining]
    | some t => simp [fits.2, QueueEvent.takes, remaining, erased]

theorem QueueEvent.Fits.nodup (fits : e.Fits before after) (once : before.Nodup) : after.Nodup := by
  cases e with
  | pushed t =>
    obtain ⟨absent, rfl⟩ := fits
    simpa using once.concat absent
  | removed t found => exact fits.2 ▸ once.erase t
  | peeked priority answer =>
    cases answer with
    | none => exact fits.2 ▸ List.nodup_nil
    | some t => exact fits.2 ▸ once
  | popped priority answer =>
    cases answer with
    | none => exact fits.2 ▸ List.nodup_nil
    | some t => exact fits.2 ▸ once.erase t

/-! ## One call -/

theorem PriorityQueue.Foremost.firstMaximum {q : PriorityQueue} {priority : Tid → Int} {t : Tid}
    (foremost : q.Foremost priority t) : FirstMaximum priority q.tids t where
  mem := foremost.mem
  le _ member := foremost.le member
  first x member same := by
    obtain ⟨front, back, split, lower, -⟩ := foremost
    have ahead : ∀ y, priority y = priority t → y ∉ front := by
      intro y equal inFront
      have := lower y inFront
      omega
    have place : q.tids.idxOf t = front.length := by
      rw [split, List.idxOf_append_of_notMem (ahead t rfl), List.idxOf_cons_self]
      rfl
    rw [place, split, List.idxOf_append_of_notMem (ahead x same)]
    omega

/-- Every answer fits what is queued. -/
theorem PriorityQueue.perform_fits {q q' : PriorityQueue} {call : QueueCall}
    (done : methods.perform q call = .ok (e, q')) : e.call = call ∧ e.Fits q.tids q'.tids := by
  cases call with
  | push t =>
    obtain ⟨pushed, rfl⟩ := QueueMethods.push_of_perform done
    by_cases queued : t ∈ q.tids
    · have refused : q.push t = .error (.queuedTwice t) := if_pos (contains_iff.mpr queued)
      exact nomatch pushed.symm.trans refused
    · obtain rfl := Except.ok.inj (pushed.symm.trans (push_of_not_mem queued))
      exact ⟨rfl, queued, rfl⟩
  | remove t =>
    cases done
    exact ⟨rfl, contains_iff, rfl⟩
  | peekMax priority =>
    cases done
    refine ⟨rfl, ?_⟩
    change QueueEvent.Fits q.tids q.tids (.peeked priority (q.peekMax priority))
    cases found : q.peekMax priority with
    | none => exact ⟨peekMax_eq_none found, peekMax_eq_none found⟩
    | some t => exact ⟨(foremost_of_peekMax found).firstMaximum, rfl⟩
  | popMax priority =>
    cases done
    refine ⟨rfl, ?_⟩
    change QueueEvent.Fits q.tids (q.popMax priority).2.tids (.popped priority (q.popMax priority).1)
    cases found : (q.popMax priority).1 with
    | none =>
      obtain ⟨empty, same⟩ := popMax_of_none found
      exact ⟨empty, by rw [same, empty]⟩
    | some t =>
      obtain ⟨foremost, left⟩ := popMax_of_some found
      exact ⟨foremost.firstMaximum, by rw [left]⟩

/-- The numbers beside the threads do not show. -/
theorem NumberedQueue.perform_order {n : NumberedQueue} {q : PriorityQueue} {call : QueueCall}
    (regular : n.Regular) (done : PriorityQueue.methods.perform n.order call = .ok (e, q)) :
    ∃ n', methods.perform n call = .ok (e, n') ∧ n'.order = q ∧ n'.Regular := by
  cases call with
  | push t =>
    obtain ⟨pushed, rfl⟩ := QueueMethods.push_of_perform done
    have same := (push_order n t).trans pushed
    cases numbered : n.push t with
    | error v =>
      rw [numbered] at same
      cases same
    | ok n' =>
      rw [numbered] at same
      exact ⟨n', QueueMethods.perform_push numbered, Except.ok.inj same, regular.push numbered⟩
  | remove t =>
    cases done
    obtain ⟨answer, order, regular'⟩ := remove_order regular t
    exact ⟨(n.remove t).2, congrArg (fun b => Except.ok (QueueEvent.removed t b, _)) answer, order,
      regular'⟩
  | peekMax priority =>
    cases done
    have answer := peekMax_order regular priority
    exact ⟨n, congrArg (fun b => Except.ok (QueueEvent.peeked priority b, n)) answer, rfl, regular⟩
  | popMax priority =>
    cases done
    obtain ⟨answer, order, regular'⟩ := popMax_order regular priority
    exact ⟨(n.popMax priority).2,
      congrArg (fun b => Except.ok (QueueEvent.popped priority b, _)) answer, order, regular'⟩

/-! ## All calls -/

/-- Only threads that are not queued are pushed. -/
def PushesFresh (q : PriorityQueue) (calls : List QueueCall) : Prop :=
  ∀ earlier t later, calls = earlier ++ .push t :: later →
    ∀ log q', PriorityQueue.methods.performAll q earlier = .ok (log, q') → t ∉ q'.tids

theorem PushesFresh.tail {q q' : PriorityQueue} {call : QueueCall} {calls : List QueueCall}
    (fresh : PushesFresh q (call :: calls)) (first : PriorityQueue.methods.perform q call = .ok (e, q')) :
    PushesFresh q' calls := by
  intro earlier t later split log final done
  have whole := QueueMethods.performAll_cons earlier first
  rw [done] at whole
  exact fresh (call :: earlier) t later (congrArg (call :: ·) split) (e :: log) final whole

/-- Calls that push fresh threads are all answered. -/
theorem PushesFresh.exists_ok {q : PriorityQueue} {calls : List QueueCall}
    (fresh : PushesFresh q calls) :
    ∃ log final, PriorityQueue.methods.performAll q calls = .ok (log, final) := by
  induction calls generalizing q with
  | nil => exact ⟨[], q, rfl⟩
  | cons call calls ih =>
    have answered : ∃ e q', PriorityQueue.methods.perform q call = .ok (e, q') := by
      cases call with
      | push t =>
        have absent : t ∉ q.tids := fresh [] t calls rfl [] q rfl
        exact ⟨.pushed t, _, QueueMethods.perform_push (PriorityQueue.push_of_not_mem absent)⟩
      | remove t => exact ⟨_, _, rfl⟩
      | peekMax priority => exact ⟨_, _, rfl⟩
      | popMax priority => exact ⟨_, _, rfl⟩
    obtain ⟨e, q', first⟩ := answered
    obtain ⟨log, final, others⟩ := ih (fresh.tail first)
    exact ⟨e :: log, final, by rw [QueueMethods.performAll_cons _ first, others]; rfl⟩

/-- Calls that are all answered push fresh threads. -/
theorem pushesFresh_of_ok {q final : PriorityQueue} {calls : List QueueCall}
    {log : List QueueEvent} (done : PriorityQueue.methods.performAll q calls = .ok (log, final)) :
    PushesFresh q calls := by
  induction calls generalizing q log with
  | nil =>
    intro earlier t later split
    simp at split
  | cons call calls ih =>
    obtain ⟨e, q', rest, first, others, rfl⟩ := QueueMethods.exists_of_performAll_cons done
    intro earlier t later split log' q'' before
    cases earlier with
    | nil =>
      obtain ⟨rfl, rfl⟩ := List.cons.inj split
      cases before
      obtain ⟨called, fits⟩ := PriorityQueue.perform_fits first
      cases e with
      | pushed x =>
        cases called
        exact fits.1
      | removed x found => cases called
      | peeked priority answer => cases called
      | popped priority answer => cases called
    | cons call' earlier =>
      obtain ⟨rfl, behind⟩ := List.cons.inj split
      obtain ⟨e', q₁, rest', first', before', rfl⟩ := QueueMethods.exists_of_performAll_cons before
      obtain ⟨rfl, rfl⟩ := Prod.mk.inj (Except.ok.inj (first.symm.trans first'))
      exact ih others earlier t later behind rest' q'' before'

/-- What calls do to a queue of which the record so far is known. -/
structure Continues (past : List QueueEvent) (calls : List QueueCall) (log : List QueueEvent)
    (q : PriorityQueue) : Prop where
  calls : log.map QueueEvent.call = calls
  contents : q.tids = remaining (past ++ log)
  once : (remaining (past ++ log)).Nodup
  fits : ∀ earlier e later, log = earlier ++ e :: later →
    e.Fits (remaining (past ++ earlier)) (remaining (past ++ earlier ++ [e]))

theorem continues_of_ok (past : List QueueEvent) {q final : PriorityQueue}
    {calls : List QueueCall} {log : List QueueEvent}
    (contents : q.tids = remaining past) (once : (remaining past).Nodup)
    (done : PriorityQueue.methods.performAll q calls = .ok (log, final)) :
    Continues past calls log final := by
  induction calls generalizing past q log with
  | nil =>
    cases done
    refine ⟨rfl, by rw [List.append_nil, contents], by rwa [List.append_nil], ?_⟩
    intro earlier e later split
    simp at split
  | cons call calls ih =>
    obtain ⟨e, q', rest, first, others, rfl⟩ := QueueMethods.exists_of_performAll_cons done
    obtain ⟨called, fits⟩ := PriorityQueue.perform_fits first
    rw [contents] at fits
    have left : remaining (past ++ [e]) = q'.tids := remaining_of_fits once fits
    have continues := ih (past ++ [e]) left.symm (left ▸ fits.nodup once) others
    have joined : past ++ e :: rest = past ++ [e] ++ rest := by simp
    refine ⟨?_, ?_, ?_, ?_⟩
    · rw [List.map_cons, called, continues.calls]
    · rw [joined]
      exact continues.contents
    · rw [joined]
      exact continues.once
    · intro earlier x later split
      cases earlier with
      | nil =>
        obtain ⟨rfl, rfl⟩ := List.cons.inj split
        rw [List.append_nil, left]
        exact fits
      | cons y earlier =>
        obtain ⟨rfl, behind⟩ := List.cons.inj split
        simpa using continues.fits earlier x later behind

theorem NumberedQueue.performAll_order {n : NumberedQueue} {q final : PriorityQueue}
    {calls : List QueueCall} {log : List QueueEvent} (regular : n.Regular) (same : n.order = q)
    (done : PriorityQueue.methods.performAll q calls = .ok (log, final)) :
    ∃ n', NumberedQueue.methods.performAll n calls = .ok (log, n') ∧ n'.order = final ∧
      n'.Regular := by
  induction calls generalizing n q log with
  | nil =>
    cases done
    exact ⟨n, rfl, same, regular⟩
  | cons call calls ih =>
    obtain ⟨e, q', rest, first, others, rfl⟩ := QueueMethods.exists_of_performAll_cons done
    rw [← same] at first
    obtain ⟨n', first', same', regular'⟩ := perform_order regular first
    obtain ⟨n'', others', order, regular''⟩ := ih regular' same' others
    exact ⟨n'', by rw [QueueMethods.performAll_cons _ first', others']; rfl, order, regular''⟩

/-- Any calls to a new queue that push no queued thread are all answered. The queue then contains
what is left by the record, every answer fits what was left before it, and a queue with numbers
gives the same answers and has the same order. -/
theorem PushesFresh.stable {calls : List QueueCall} (fresh : PushesFresh .empty calls) :
    ∃ log q n, PriorityQueue.methods.performAll .empty calls = .ok (log, q) ∧
      NumberedQueue.methods.performAll .empty calls = .ok (log, n) ∧
      log.map QueueEvent.call = calls ∧
      q.tids = remaining log ∧ n.entries.map NumberedThread.tid = remaining log ∧
      (remaining log).Nodup ∧
      ∀ earlier e later, log = earlier ++ e :: later →
        e.Fits (remaining earlier) (remaining (earlier ++ [e])) := by
  obtain ⟨log, q, done⟩ := fresh.exists_ok
  have continues := continues_of_ok [] rfl List.nodup_nil done
  obtain ⟨n, numbered, rfl, -⟩ :=
    NumberedQueue.performAll_order NumberedQueue.regular_empty rfl done
  exact ⟨log, n.order, n, done, numbered, continues.calls, continues.contents, continues.contents,
    continues.once, continues.fits⟩

/-- Of four threads two have the highest priority. The earlier of them is taken out and pushed
again, so it stands behind the other; then the priorities are turned around. -/
def turningCalls : List QueueCall :=
  let odd : Tid → Int := fun t => t % 2
  [.push 4, .push 1, .push 2, .push 3, .popMax odd, .push 1, .peekMax odd, .remove 2, .remove 2,
    .popMax fun t => -t]

theorem PushesFresh.stable_turning :
    PushesFresh .empty turningCalls ∧
      ∃ log q, PriorityQueue.methods.performAll .empty turningCalls = .ok (log, q) ∧
        remaining log = [4, 3] ∧ q.tids = [4, 3] := by
  have fresh : PushesFresh .empty turningCalls := pushesFresh_of_ok rfl
  obtain ⟨log, q, n, done, -, -, contents, -⟩ := PushesFresh.stable fresh
  have left : q.tids = [4, 3] := by
    cases done
    rfl
  exact ⟨fresh, log, q, done, contents.symm.trans left, left⟩

end KernelCore
