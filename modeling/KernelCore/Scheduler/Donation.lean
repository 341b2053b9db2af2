import KernelCore.Scheduler.Dispatch

/-!
# Priority donation

A thread that waits for a lock donates its priority to the holder, and the holder, if it waits
for a lock itself, passes it on. The effective priority of a thread is the maximum of its base
priority and of the effective priorities of the waiters for the locks it holds. Under feedback
scheduling nothing is donated.
-/
namespace KernelCore.Scheduler

open Transition

/-- The threads that wait for a lock the thread holds. -/
def donors (s : Scheduler) (th : Thread) : List Tid :=
  th.heldLocks.flatMap fun l => (s.lockState l).waiters.tids

/-- The priority a thread should have: its own or the highest donated one. -/
def donatedPriority (s : Scheduler) (th : Thread) : Int :=
  (s.donors th).foldl (fun p w => max p (s.priorityOf w)) th.basePriority

/-- Bring the effective priority of a thread up to date, and yield it. -/
def refreshPriority (t : Tid) : Scheduling Int := do
  let s ← get
  if s.feedback then pure (s.priorityOf t)
  else
    let th ← thread t
    let priority := s.donatedPriority th
    updateThread t fun th => { th with priority }
    pure priority

/-- Refresh the holder of the lock a thread waits for, the holder of the lock that one waits
for, and so on, over at most the given number of links and until a priority stays as it was. -/
def propagateFrom : Nat → Tid → Scheduling Unit
  | 0, _ => pure ()
  | depth + 1, waiter => do
    let th ← thread waiter
    let s ← get
    match th.waitingLock with
    | none => pure ()
    | some l =>
      match (s.lockState l).holder with
      | none => pure ()
      | some holder =>
        let priority ← refreshPriority holder
        if priority = s.priorityOf holder then pure () else propagateFrom depth holder

/-- Pass the priority of a waiting thread on along its wait chain. -/
def propagatePriority (t : Tid) : Scheduling Unit := do
  let s ← get
  if s.feedback then pure () else propagateFrom donationDepth t

/-- Set the base priority of the current thread. Donations stay in effect, and the thread yields
if it no longer has the highest priority. -/
def setPriority (priority : Int) : Scheduling Unit := do
  let s ← get
  if s.feedback then emit .warn "sched: set_priority ignored under mlfqs"
  else
    let level ← disableInterrupts
    updateThread s.current fun th => { th with basePriority := clampPriority priority }
    let _ ← refreshPriority s.current
    restoreInterrupts level
    preemptCheck

end KernelCore.Scheduler
