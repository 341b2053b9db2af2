import KernelCore.Scheduler.Lock
import KernelCore.Scheduler.Timer

/-!
# The life of a thread

Threads are spawned ready and preempt their creator if their priority is higher. A thread that
exits hands over its locks and records its exit status, which outlives it.
-/
namespace KernelCore.Scheduler

open Transition

/-- A number for a new thread, if there is a control block and a number left. -/
def reserve (name : String) : Scheduling (Except SchedulerError Tid) := do
  let s ← get
  if s.capacity ≤ s.threads.size then
    emit .warn ("sched: cannot spawn " ++ name ++ ": thread table full")
    pure (.error .outOfThreads)
  else
    modify fun s => { s with allocator := s.allocator.allocate.2 }
    match s.allocator.allocate.1 with
    | none => pure (.error .outOfThreads)
    | some t => pure (.ok t)

/-- The control block of a new thread: it inherits the nice value and the recent processor time
of its creator. -/
def prepare (t : Tid) (name : String) (priority : Int) (argument : Nat) (space : Option SpaceId) :
    Scheduling Thread := do
  let s ← get
  let creator ← thread s.current
  let th : Thread :=
    { Thread.create t name priority (some argument) with
      space
      nice := creator.nice
      recentCpu := creator.recentCpu }
  if s.feedback then arithmetic th.reprioritized else pure th

/-- Create a thread, in an address space if one is given. -/
def spawn (name : String) (priority : Int) (argument : Nat) (space : Option SpaceId) :
    Scheduling (Except SchedulerError Tid) := do
  match ← reserve name with
  | .error e => pure (.error e)
  | .ok t =>
    let th ← prepare t name priority argument space
    emit .debug
      ("sched: spawn " ++ toString t ++ " '" ++ name ++ "' priority " ++ toString th.priority)
    modify fun s => { s with threads := s.threads.insert t th }
    unblock t
    preemptCheck
    pure (.ok t)

/-- The current thread exits. -/
def exit (status : Int) : Scheduling Unit := do
  let s ← get
  ensure (s.inHandler = false) .exitedInHandler
  ensure (s.current ≠ s.idle) .idleExited
  let level ← disableInterrupts
  handOverAll s.current
  updateThread s.current fun th => { th with exitStatus := status, state := .dying }
  let th ← thread s.current
  emit .debug
    ("sched: thread " ++ toString s.current ++ " '" ++ th.name ++ "' exits with " ++
      toString status)
  modify fun s => { s with exitStatuses := s.exitStatuses.insert s.current status }
  schedule
  restoreInterrupts level

/-- The status a thread exited with, also after its control block is gone. -/
def exitStatus (s : Scheduler) (t : Tid) : Option Int := s.exitStatuses.find? t

/-- Bind a thread to an address space, or unbind it. -/
def setSpace (t : Tid) (space : Option SpaceId) : Scheduling (Except SchedulerError Unit) := do
  let s ← get
  match s.thread? t with
  | none => pure (.error .noSuchThread)
  | some _ =>
    updateThread t fun th => { th with space }
    pure (.ok ())

/-- The control block of the current thread. -/
def currentThread : Scheduling Thread := do
  let s ← get
  thread s.current

/-- Remember the user stack pointer of the current thread on entry to a system call. -/
def saveUserStack (pointer : Nat) : Scheduling Unit := do
  let s ← get
  updateThread s.current fun th => { th with userStack := some pointer }

def logTickCounts : Scheduling Unit := do
  let s ← get
  emit .info
    ("sched: " ++ toString s.tickCounts.idle ++ " idle ticks, " ++ toString s.tickCounts.kernel ++
      " kernel ticks, " ++ toString s.tickCounts.user ++ " user ticks")

end KernelCore.Scheduler
