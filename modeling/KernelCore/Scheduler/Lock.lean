import KernelCore.Scheduler.Donation

/-!
# Locks

A lock has at most one holder. Releasing it hands it straight to the waiter of highest effective
priority, the earliest among equals, so no other thread can take it in between; the priority of
the thread that released it falls back to what the locks it still holds bring in.
-/
namespace KernelCore.Scheduler

open Transition

def newLock : Scheduling LockId :=
  modifyGet fun s => (⟨s.locks.length⟩, { s with locks := s.locks ++ [⟨none, .empty⟩] })

def holder (s : Scheduler) (l : LockId) : Option Tid := (s.lockState l).holder

def heldByCurrent (s : Scheduler) (l : LockId) : Bool := s.holder l = some s.current

/-- Give a free lock to a thread. -/
def take (l : LockId) (t : Tid) : Scheduling Unit := do
  updateLock l fun x => { x with holder := some t }
  updateThread t fun th => { th with heldLocks := th.heldLocks ++ [l] }

/-- Take the waiter of highest priority out of a lock's queue. -/
def popLockWaiter (l : LockId) : Scheduling (Option Tid) :=
  modifyGet fun s =>
    let (next, waiters) := (s.lockState l).waiters.popMax s.priorityOf
    (next, { s with locks := s.locks.modify l.index fun x => { x with waiters } })

/-- Acquire a lock, and wait for it if it is held. The current thread must not hold it. -/
def acquire (l : LockId) : Scheduling Acquire := do
  let s ← get
  ensure (s.inHandler = false) .acquiredInHandler
  ensure (s.holder l ≠ some s.current) (.acquiredTwice s.current)
  let level ← disableInterrupts
  let outcome ←
    if s.holder l = none then do
      take l s.current
      pure Acquire.immediate
    else do
      updateThread s.current fun th => { th with waitingLock := some l, membership := .lock l }
      let waiters ← ofExcept ((s.lockState l).waiters.push s.current)
      updateLock l fun x => { x with waiters }
      propagatePriority s.current
      block
      pure Acquire.blocked
  let _ ← setInterrupts level
  pure outcome

/-- Acquire a lock if it is free. -/
def tryAcquire (l : LockId) : Scheduling Bool := do
  let s ← get
  let level ← disableInterrupts
  let free := s.holder l = none
  if free then take l s.current else pure ()
  let _ ← setInterrupts level
  pure free

/-- Take a lock from its holder and hand it to the next waiter, if there is one. -/
def handOver (l : LockId) (t : Tid) : Scheduling Unit := do
  updateThread t fun th => { th with heldLocks := th.heldLocks.filter (· ≠ l) }
  let next ← popLockWaiter l
  updateLock l fun x => { x with holder := next }
  match next with
  | none => pure ()
  | some w =>
    updateThread w fun th =>
      { th with waitingLock := none, membership := .none, heldLocks := th.heldLocks ++ [l] }
    let _ ← refreshPriority w
    unblock w
    emit .trace
      ("lock: " ++ l.text ++ " handed from " ++ toString t ++ " to " ++ toString w)
  let _ ← refreshPriority t

/-- Release a lock the current thread holds. -/
def release (l : LockId) : Scheduling Unit := do
  let s ← get
  ensure (s.holder l = some s.current) (.releasedByOther s.current)
  let level ← disableInterrupts
  handOver l s.current
  let _ ← setInterrupts level
  preemptCheck

/-- Hand over every lock a thread holds, the last acquired first. -/
def handOverAll (t : Tid) : Scheduling Unit := do
  let s ← get
  match s.thread? t with
  | none => pure ()
  | some th => forAll (handOver · t) th.heldLocks.reverse

end KernelCore.Scheduler
