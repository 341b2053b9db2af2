import KernelCore.Scheduler.Condvar
import KernelCore.Scheduler.Lifecycle
import KernelCore.Scheduler.Semaphore

/-!
# Scheduler requests

Everything a thread or a handler can ask of the scheduler, as data. A request acts for whatever
thread is current. Locks, semaphores and condition variables are named by their numbers, each
kind counted from zero in order of creation.
-/
namespace KernelCore.Scheduler

open Transition

inductive Request where
  | spawn (name : String) (priority : Int) (space : Option SpaceId) (argument : Nat)
  | tick (count : Nat)
  /-- An external interrupt whose handler makes the given requests. -/
  | interrupt (handler : List Request)
  | block
  | unblock (t : Tid)
  | yield
  | exit (status : Int)
  | preemptCheck
  | sleep (ticks : Int)
  | sleepUntil (tick : Nat)
  | elapsed (since : Nat)
  | setPriority (priority : Int)
  | setNice (nice : Int)
  | query
  | disableInterrupts
  | enableInterrupts
  | setInterrupts (level : InterruptLevel)
  | check
  | exitStatus (t : Tid)
  | describe (t : Tid)
  | setSpace (t : Tid) (space : Option SpaceId)
  | logTickCounts
  | newLock
  | acquire (lock : Nat)
  | tryAcquire (lock : Nat)
  | release (lock : Nat)
  | holds (lock : Nat)
  | newSemaphore (value : Nat)
  | down (semaphore : Nat)
  | tryDown (semaphore : Nat)
  | up (semaphore : Nat)
  | newCondvar
  | wait (condvar lock : Nat)
  | signal (condvar lock : Nat)
  | broadcast (condvar lock : Nat)

/-- What a thread can find out about itself and the scheduler. -/
structure Summary where
  priority : Int
  nice : Int
  loadPercent : Int
  recentPercent : Int
  loadText : String
  threads : Nat
  feedback : Bool
  main : Tid
  idle : Tid
  space : Option SpaceId
  inHandler : Bool

/-- What a handler sees after one of its requests. -/
structure Glimpse where
  current : Tid
  ready : Nat
  inHandler : Bool
  interrupts : InterruptLevel

inductive Reply where
  | done
  | refused (e : SchedulerError)
  | tid (t : Tid)
  | number (n : Nat)
  | flag (b : Bool)
  | level (l : InterruptLevel)
  | acquired (a : Acquire)
  | status (s : Option Int)
  | summary (s : Summary)
  | description (th : Option Thread)
  | handled (steps : List (Reply × Glimpse))

/-- The lock of a number, which has to exist. -/
def lockNumbered (n : Nat) : Scheduling LockId := do
  let s ← get
  ensure (n < s.locks.length) (.noSuchHandle s.locks.length n)
  pure ⟨n⟩

/-- The semaphore of a number, which has to exist. -/
def semaphoreNumbered (n : Nat) : Scheduling SemaphoreId := do
  let s ← get
  ensure (n < s.semaphores.length) (.noSuchHandle s.semaphores.length n)
  pure ⟨n⟩

/-- The condition variable of a number, which has to exist. -/
def condvarNumbered (n : Nat) : Scheduling CondvarId := do
  let s ← get
  ensure (n < s.condvars.length) (.noSuchHandle s.condvars.length n)
  pure ⟨n⟩

def summarize : Scheduling Summary := do
  let s ← get
  let th ← currentThread
  let recent ← recentPercent
  pure
    { priority := th.priority
      nice := th.nice
      loadPercent := s.loadPercent
      recentPercent := recent
      loadText := s.loadAverage.text
      threads := s.threads.size
      feedback := s.feedback
      main := s.main
      idle := s.idle
      space := th.space
      inHandler := s.inHandler }

def glimpse (s : Scheduler) : Glimpse := ⟨s.current, s.ready.length, s.inHandler, s.interrupts⟩

/-- A request that has nothing to say but that it was carried out. -/
private def done (t : Scheduling Unit) : Scheduling Reply := do
  t
  pure .done

mutual

def perform : Request → Scheduling Reply
  | .spawn name priority space argument => do
    match ← spawn name priority argument space with
    | .ok t => pure (.tid t)
    | .error e => pure (.refused e)
  | .tick count => done (times count timerInterrupt)
  | .interrupt handler => do
    let steps ← externalInterrupt (performAll handler)
    pure (.handled steps)
  | .block => done block
  | .unblock t => done (unblock t)
  | .yield => done yield
  | .exit status => done (exit status)
  | .preemptCheck => done preemptCheck
  | .sleep ticks => done (sleep ticks)
  | .sleepUntil tick => done (sleepUntil tick)
  | .elapsed since => gets fun s => .number (s.elapsed since)
  | .setPriority priority => done (setPriority priority)
  | .setNice nice => done (setNice nice)
  | .query => do
    let s ← summarize
    pure (.summary s)
  | .disableInterrupts => do
    let l ← disableInterrupts
    pure (.level l)
  | .enableInterrupts => do
    let l ← enableInterrupts
    pure (.level l)
  | .setInterrupts level => do
    let l ← setInterrupts level
    pure (.level l)
  | .check => done assertConsistent
  | .exitStatus t => gets fun s => .status (s.exitStatus t)
  | .describe t => gets fun s => .description (s.thread? t)
  | .setSpace t space => do
    match ← setSpace t space with
    | .ok () => pure .done
    | .error e => pure (.refused e)
  | .logTickCounts => done logTickCounts
  | .newLock => do
    let l ← newLock
    pure (.number l.index)
  | .acquire lock => do
    let l ← lockNumbered lock
    let a ← acquire l
    pure (.acquired a)
  | .tryAcquire lock => do
    let l ← lockNumbered lock
    let b ← tryAcquire l
    pure (.flag b)
  | .release lock => do
    let l ← lockNumbered lock
    done (release l)
  | .holds lock => do
    let l ← lockNumbered lock
    gets fun s => .flag (s.heldByCurrent l)
  | .newSemaphore value => do
    let i ← newSemaphore value
    pure (.number i.index)
  | .down semaphore => do
    let i ← semaphoreNumbered semaphore
    let a ← down i
    pure (.acquired a)
  | .tryDown semaphore => do
    let i ← semaphoreNumbered semaphore
    let b ← tryDown i
    pure (.flag b)
  | .up semaphore => do
    let i ← semaphoreNumbered semaphore
    done (up i)
  | .newCondvar => do
    let c ← newCondvar
    pure (.number c.index)
  | .wait condvar lock => do
    let c ← condvarNumbered condvar
    let l ← lockNumbered lock
    done (wait c l)
  | .signal condvar lock => do
    let c ← condvarNumbered condvar
    let l ← lockNumbered lock
    done (signal c l)
  | .broadcast condvar lock => do
    let c ← condvarNumbered condvar
    let l ← lockNumbered lock
    done (broadcast c l)

/-- One request after the other, with a look at the scheduler after each. -/
def performAll : List Request → Scheduling (List (Reply × Glimpse))
  | [] => pure []
  | r :: rest => do
    let reply ← perform r
    let seen ← gets glimpse
    let more ← performAll rest
    pure ((reply, seen) :: more)

end

end KernelCore.Scheduler
