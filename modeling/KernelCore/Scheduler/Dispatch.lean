import KernelCore.Scheduler.Basic

/-!
# Dispatching

How threads leave and regain the processor: blocking, being made ready, yielding, and the
choice of the next thread. The thread of highest effective priority runs next, the earliest
ready one among equals, and the idle thread when none is ready. A thread that has exited is
reclaimed at the switch after the one that left it, when the processor is off its stack.
-/
namespace KernelCore.Scheduler

open Transition

/-- Put a blocked thread, which must be in no queue, into the ready queue. The current thread
goes on. -/
def unblock (t : Tid) : Scheduling Unit := do
  let level ← disableInterrupts
  let th ← thread t
  ensure (th.state = .blocked) (.unblockedUnblocked t)
  ensure (th.membership = .none) (.unblockedQueued t)
  updateThread t fun th => { th with state := .ready, membership := .ready }
  update fun s => (s.ready.push t).map fun q => { s with ready := q }
  restoreInterrupts level

/-- Reclaim the control block of one exited thread. -/
def reclaim (t : Tid) : Scheduling Unit := do
  let s ← get
  match s.thread? t with
  | none => pure ()
  | some th =>
    modify fun s => { s with threads := s.threads.erase t }
    emit .debug ("sched: reaped thread " ++ toString t ++ " '" ++ th.name ++ "'")

/-- Reclaim the control blocks of the threads left by earlier switches. -/
def reclaimAll : Scheduling Unit := do
  let s ← get
  modify fun s => { s with dying := [] }
  forAll reclaim s.dying

/-- Take the next thread out of the ready queue; the idle thread if it is empty. -/
def pickNext : Scheduling Tid :=
  modifyGet fun s =>
    let (next, ready) := s.ready.popMax s.priorityOf
    (next.getD s.idle, { s with ready })

/-- Make a thread the current one, and remember the one it replaces if that one has exited. The
first thread's control block is never reclaimed. -/
def switchTo (next : Tid) : Scheduling Unit := do
  let s ← get
  if s.current = next then pure ()
  else
    let last ← thread s.current
    modify fun s =>
      { s with
        dying := if last.state = .dying ∧ s.current ≠ s.main then s.current :: s.dying else s.dying
        current := next
        switches := s.switches + 1 }

/-- Give the processor to a thread, with a whole time slice. -/
def dispatch (next : Tid) : Scheduling Unit := do
  updateThread next fun th => { th with state := .running, membership := .none }
  modify fun s => { s with sliceTicks := 0 }
  switchTo next

/-- Choose the next thread and switch to it. Interrupts are off, and the current thread has
stopped running. -/
def schedule : Scheduling Unit := do
  let s ← get
  ensure (s.interrupts = .off) .check
  let last ← thread s.current
  ensure (last.state ≠ .running) .check
  reclaimAll
  let next ← pickNext
  dispatch next
  assertConsistent

/-- The current thread waits. Interrupts are off, and it is in the queue it waits in. -/
def block : Scheduling Unit := do
  let s ← get
  ensure (s.inHandler = false) .blockedInHandler
  ensure (s.interrupts = .off) .blockedWithInterrupts
  updateThread s.current fun th => { th with state := .blocked }
  schedule

/-- The current thread goes behind the ready threads of its priority. -/
def yield : Scheduling Unit := do
  let s ← get
  ensure (s.inHandler = false) .yieldedInHandler
  let level ← disableInterrupts
  if s.current = s.idle then
    updateThread s.current fun th => { th with state := .blocked }
  else
    updateThread s.current fun th => { th with state := .ready, membership := .ready }
    update fun s => (s.ready.push s.current).map fun q => { s with ready := q }
  schedule
  restoreInterrupts level

/-- Yield if a ready thread has a higher priority than the current one; the idle thread yields
to any. In a handler the yield is put off until the handler returns. -/
def preemptCheck : Scheduling Unit := do
  let s ← get
  match s.ready.peekMax s.priorityOf with
  | none => pure ()
  | some top =>
    if s.current ≠ s.idle ∧ s.priorityOf top ≤ s.priorityOf s.current then pure ()
    else if s.inHandler then modify fun s => { s with yieldOnReturn := true }
    else yield

end KernelCore.Scheduler
