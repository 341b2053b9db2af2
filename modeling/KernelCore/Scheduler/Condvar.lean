import KernelCore.Scheduler.Lock

/-!
# Condition variables

Waiting on a condition variable releases a lock and gets it back before the wait is over. The
thread that signals holds that lock, so the signalled thread does not run at once: it moves to
the lock's queue, donating its priority, and runs when the lock has been handed to it.
-/
namespace KernelCore.Scheduler

open Transition

def newCondvar : Scheduling CondvarId :=
  modifyGet fun s =>
    (⟨s.condvars.length⟩, { s with condvars := s.condvars ++ [⟨.empty, .empty⟩] })

/-- Take the waiter of highest priority out of a condition variable's queue, with the lock it
has to have again. -/
def popCondvarWaiter (c : CondvarId) : Scheduling (Option Tid) :=
  modifyGet fun s =>
    let (next, waiters) := (s.condvarState c).waiters.popMax s.priorityOf
    (next, { s with condvars := s.condvars.modify c.index fun x => { x with waiters } })

/-- Release a lock the current thread holds and wait to be signalled. -/
def wait (c : CondvarId) (l : LockId) : Scheduling Unit := do
  let s ← get
  ensure (s.inHandler = false) .waitedInHandler
  ensure (s.heldByCurrent l = true) .waitedWithoutLock
  let level ← disableInterrupts
  handOver l s.current
  let waiters ← ofExcept ((s.condvarState c).waiters.push s.current)
  updateCondvar c fun x => { waiters, relock := x.relock.insert s.current l }
  updateThread s.current fun th => { th with membership := .condvar c }
  block
  let _ ← setInterrupts level

/-- Move a signalled thread to the queue of the lock it has to have again. -/
def moveToLock (c : CondvarId) (l : LockId) (w : Tid) : Scheduling Unit := do
  let s ← get
  let relock := (s.condvarState c).relock
  updateCondvar c fun x => { x with relock := relock.erase w }
  ensure (relock.find? w = some l) (.otherLock w)
  updateThread w fun th => { th with membership := .lock l, waitingLock := some l }
  let waiters ← ofExcept ((s.lockState l).waiters.push w)
  updateLock l fun x => { x with waiters }
  propagatePriority w

/-- Signal the waiter of highest priority, if there is one. The current thread holds the lock. -/
def signal (c : CondvarId) (l : LockId) : Scheduling Unit := do
  let s ← get
  ensure (s.heldByCurrent l = true) .signalledWithoutLock
  let level ← disableInterrupts
  let next ← popCondvarWaiter c
  match next with
  | none => pure ()
  | some w => moveToLock c l w
  let _ ← setInterrupts level

/-- Signal every waiter. -/
def broadcast (c : CondvarId) (l : LockId) : Scheduling Unit := do
  let s ← get
  times (s.condvarState c).waiters.length (signal c l)

end KernelCore.Scheduler
