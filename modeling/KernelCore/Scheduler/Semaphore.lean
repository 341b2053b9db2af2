import KernelCore.Scheduler.Dispatch

/-!
# Semaphores

A counting semaphore. Going down takes a unit or waits for one; going up wakes the waiter of
highest effective priority, which has the unit from then on, or else adds a unit.
-/
namespace KernelCore.Scheduler

open Transition

/-- The value of a semaphore fits into 32 bits. -/
def maxSemaphoreValue : Nat := 4294967295

def newSemaphore (value : Nat) : Scheduling SemaphoreId :=
  modifyGet fun s =>
    (⟨s.semaphores.length⟩, { s with semaphores := s.semaphores ++ [⟨value, .empty⟩] })

/-- Take the waiter of highest priority out of a semaphore's queue. -/
def popSemaphoreWaiter (i : SemaphoreId) : Scheduling (Option Tid) :=
  modifyGet fun s =>
    let (next, waiters) := (s.semaphoreState i).waiters.popMax s.priorityOf
    (next, { s with semaphores := s.semaphores.modify i.index fun x => { x with waiters } })

/-- Take a unit, and wait for one if there is none. -/
def down (i : SemaphoreId) : Scheduling Acquire := do
  let s ← get
  ensure (s.inHandler = false) .downInHandler
  let level ← disableInterrupts
  let x := s.semaphoreState i
  let outcome ←
    if 0 < x.value then do
      updateSemaphore i fun x => { x with value := x.value - 1 }
      pure Acquire.immediate
    else do
      let waiters ← ofExcept (x.waiters.push s.current)
      updateSemaphore i fun x => { x with waiters }
      updateThread s.current fun th => { th with membership := .semaphore i }
      block
      pure Acquire.blocked
  let _ ← setInterrupts level
  pure outcome

/-- Take a unit if there is one. -/
def tryDown (i : SemaphoreId) : Scheduling Bool := do
  let s ← get
  let level ← disableInterrupts
  let free := 0 < (s.semaphoreState i).value
  if free then updateSemaphore i fun x => { x with value := x.value - 1 } else pure ()
  let _ ← setInterrupts level
  pure free

/-- Add one unit to a semaphore nobody waits for. -/
def addUnit (i : SemaphoreId) : Scheduling Unit := do
  let s ← get
  ensure ((s.semaphoreState i).value < maxSemaphoreValue) (.arithmetic .addition)
  updateSemaphore i fun x => { x with value := x.value + 1 }

/-- Give a unit back: to a waiter, or to the semaphore. -/
def up (i : SemaphoreId) : Scheduling Unit := do
  let level ← disableInterrupts
  let next ← popSemaphoreWaiter i
  match next with
  | some w =>
    updateThread w fun th => { th with membership := .none }
    unblock w
  | none => addUnit i
  let _ ← setInterrupts level
  preemptCheck

end KernelCore.Scheduler
