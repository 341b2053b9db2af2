import KernelCore.PriorityQueue
import KernelCore.SleepQueue
import KernelCore.Transition

/-!
# The scheduler's state

One processor, one running thread. The state holds every thread, the ready queue, the sleep
queue, the locks, semaphores and condition variables with their waiters, the clock, and the
interrupt state. Interrupts are the only source of concurrency: what changes the queues runs
with interrupts off, and a handler cannot switch threads but only ask for it.

`Scheduler.check` is the consistency check the scheduler makes of itself at every switch.
-/
namespace KernelCore

inductive InterruptLevel where
  | on | off
  deriving DecidableEq, Repr

def InterruptLevel.label : InterruptLevel → String
  | .on => "On"
  | .off => "Off"

/-- The outcome of an operation that may have to wait. -/
inductive Acquire where
  | immediate
  /-- The caller waits; when it runs again, what it waited for is its own. -/
  | blocked
  deriving DecidableEq, Repr

def Acquire.label : Acquire → String
  | .immediate => "Immediate"
  | .blocked => "Blocked"

/-- The reasons for which the scheduler refuses an operation. -/
inductive SchedulerError where
  | outOfThreads
  | noSuchThread
  deriving DecidableEq, Repr

namespace SchedulerError

def all : List SchedulerError := [outOfThreads, noSuchThread]

def label : SchedulerError → String
  | outOfThreads => "OutOfThreads"
  | noSuchThread => "NoSuchThread"

def text : SchedulerError → String
  | outOfThreads => "out of thread control blocks"
  | noSuchThread => "no such thread"

def errno : SchedulerError → Errno
  | outOfThreads => .tryAgain
  | noSuchThread => .noSuchProcess

end SchedulerError

structure LockState where
  holder : Option Tid
  waiters : PriorityQueue
  deriving DecidableEq, Repr

structure SemaphoreState where
  value : Nat
  waiters : PriorityQueue
  deriving DecidableEq, Repr

structure CondvarState where
  waiters : PriorityQueue
  /-- The lock each waiter has to have again before it goes on. -/
  relock : Table Tid LockId
  deriving DecidableEq

instance : Inhabited LockState := ⟨⟨none, .empty⟩⟩
instance : Inhabited SemaphoreState := ⟨⟨0, .empty⟩⟩
instance : Inhabited CondvarState := ⟨⟨.empty, .empty⟩⟩

/-- Ticks by what ran when they came. -/
structure TickCounts where
  idle : Nat
  kernel : Nat
  user : Nat
  deriving DecidableEq, Repr

structure Scheduler where
  threads : Table Tid Thread
  allocator : TidAllocator
  /-- Control blocks there are, those of the first thread and of the idle thread included. -/
  capacity : Nat
  current : Tid
  /-- The thread the kernel booted in. -/
  main : Tid
  /-- The thread that runs when no other can. -/
  idle : Tid
  ready : PriorityQueue
  sleepers : SleepQueue
  /-- Exited threads whose control blocks the next switch reclaims. -/
  dying : List Tid
  exitStatuses : Table Tid Int
  locks : List LockState
  semaphores : List SemaphoreState
  condvars : List CondvarState
  /-- Priorities come from processor use and nice values, and are not donated. -/
  feedback : Bool
  loadAverage : Fixed
  /-- Timer ticks since boot. -/
  ticks : Nat
  /-- Ticks of its time slice the current thread has used. -/
  sliceTicks : Nat
  tickCounts : TickCounts
  switches : Nat
  interrupts : InterruptLevel
  inHandler : Bool
  /-- The current thread has to yield when the handler returns. -/
  yieldOnReturn : Bool
  deriving DecidableEq

/-- What the scheduler does: it yields a value, or stops at a violated contract. -/
abbrev Scheduling := Transition Violation Scheduler

namespace Scheduler

open Transition

def thread? (s : Scheduler) (t : Tid) : Option Thread := s.threads.find? t

/-- The effective priority of a thread; a thread that does not exist has the lowest. -/
def priorityOf (s : Scheduler) (t : Tid) : Int :=
  ((s.thread? t).map Thread.priority).getD minPriority

def lockState (s : Scheduler) (l : LockId) : LockState := s.locks[l.index]?.getD default

def semaphoreState (s : Scheduler) (i : SemaphoreId) : SemaphoreState :=
  s.semaphores[i.index]?.getD default

def condvarState (s : Scheduler) (c : CondvarId) : CondvarState :=
  s.condvars[c.index]?.getD default

/-- The control block of a thread, which has to exist. -/
def thread (t : Tid) : Scheduling Thread := fun s =>
  match s.thread? t with
  | some th => ⟨.ok th, s, []⟩
  | none => ⟨.error (.noSuchThread t), s, []⟩

/-- Change the control block of a thread, which has to exist. -/
def updateThread (t : Tid) (f : Thread → Thread) : Scheduling Unit := fun s =>
  match s.thread? t with
  | some _ => ⟨.ok (), { s with threads := s.threads.modify t f }, []⟩
  | none => ⟨.error (.noSuchThread t), s, []⟩

def updateLock (l : LockId) (f : LockState → LockState) : Scheduling Unit :=
  modify fun s => { s with locks := s.locks.modify l.index f }

def updateSemaphore (i : SemaphoreId) (f : SemaphoreState → SemaphoreState) : Scheduling Unit :=
  modify fun s => { s with semaphores := s.semaphores.modify i.index f }

def updateCondvar (c : CondvarId) (f : CondvarState → CondvarState) : Scheduling Unit :=
  modify fun s => { s with condvars := s.condvars.modify c.index f }

def arithmetic {α : Type} (x : Except ArithmeticFault α) : Scheduling α :=
  ofExcept (x.mapError Violation.arithmetic)

/-! ## Interrupts -/

def disableInterrupts : Scheduling InterruptLevel :=
  modifyGet fun s => (s.interrupts, { s with interrupts := .off })

/-- A handler runs with interrupts off throughout. -/
def enableInterrupts : Scheduling InterruptLevel := do
  let s ← get
  ensure (s.inHandler = false) .enabledInHandler
  modify fun s => { s with interrupts := .on }
  pure s.interrupts

def setInterrupts : InterruptLevel → Scheduling InterruptLevel
  | .on => enableInterrupts
  | .off => disableInterrupts

/-- Put the level back to what it was; in a handler it stays off. -/
def restoreInterrupts (level : InterruptLevel) : Scheduling Unit :=
  modify fun s =>
    if level = .on ∧ s.inHandler = false then { s with interrupts := .on } else s

/-! ## Consistency -/

/-- The places of the states that have a thread among their waiters. -/
def placesOf {α : Type} (waits : α → Bool) (place : Nat → Membership) (states : List α) :
    List Membership :=
  states.zipIdx.filterMap fun (x, i) => if waits x then some (place i) else none

/-- Every queue a thread is in. -/
def queuesOf (s : Scheduler) (t : Tid) : List Membership :=
  placesOf (fun l : LockState => l.waiters.contains t) (fun i => .lock ⟨i⟩) s.locks ++
    placesOf (fun x : SemaphoreState => x.waiters.contains t) (fun i => .semaphore ⟨i⟩)
      s.semaphores ++
    placesOf (fun c : CondvarState => c.waiters.contains t) (fun i => .condvar ⟨i⟩) s.condvars ++
    (if s.ready.contains t then [.ready] else []) ++
    (if s.sleepers.contains t then [.sleep] else [])

/-- A thread is in at most one queue, namely the one it says it is in, and that queue goes with
its state; only the current thread is running. -/
def checkThread (s : Scheduler) (t : Tid) (th : Thread) : Except Violation Unit :=
  let found := s.queuesOf t
  if 1 < found.length then .error (.severalQueues t found)
  else if th.membership ≠ found.head?.getD .none then .error (.wrongMembership t)
  else
    match th.state with
    | .running =>
      if t ≠ s.current then .error (.runningNotCurrent t)
      else if th.membership ≠ .none then .error .check
      else .ok ()
    | .ready => if th.membership ≠ .ready then .error .check else .ok ()
    | .blocked => if th.membership = .ready then .error .check else .ok ()
    | .dying => if th.membership ≠ .none then .error .check else .ok ()

def checkThreads (s : Scheduler) : List (Tid × Thread) → Except Violation Unit
  | [] => .ok ()
  | (t, th) :: rest =>
    match s.checkThread t th with
    | .error v => .error v
    | .ok () => checkThreads s rest

/-- The consistency of all threads and queues: every thread passes, exactly one is running, and
the idle thread is not in the ready queue. -/
def check (s : Scheduler) : Except Violation Unit :=
  match checkThreads s s.threads.entries with
  | .error v => .error v
  | .ok () =>
    let running := (s.threads.values.filter fun th => th.state = .running).length
    if running ≠ 1 then .error (.runningThreads running)
    else if s.ready.contains s.idle then .error .idleReady
    else .ok ()

/-- Stop at an inconsistency. -/
def assertConsistent : Scheduling Unit := do
  let s ← get
  ofExcept s.check

/-! ## The start -/

/-- A scheduler with the first thread running and the idle thread waiting. -/
def start (feedback : Bool) (capacity : Nat) : Scheduler :=
  let first := TidAllocator.new.allocate
  let main := first.1.getD 1
  let second := first.2.allocate
  let idle := second.1.getD (main + 1)
  { threads :=
      (Table.empty.insert main
        { Thread.create main "main" defaultPriority none with state := .running }).insert idle
        (Thread.create idle "idle" minPriority none)
    allocator := second.2
    capacity
    current := main
    main
    idle
    ready := .empty
    sleepers := .empty
    dying := []
    exitStatuses := .empty
    locks := []
    semaphores := []
    condvars := []
    feedback
    loadAverage := Fixed.zero
    ticks := 0
    sliceTicks := 0
    tickCounts := ⟨0, 0, 0⟩
    switches := 0
    interrupts := .on
    inHandler := false
    yieldOnReturn := false }

@[simp] theorem start_main (feedback : Bool) (capacity : Nat) : (start feedback capacity).main = 1 :=
  rfl

@[simp] theorem start_idle (feedback : Bool) (capacity : Nat) : (start feedback capacity).idle = 2 :=
  rfl

def modeLabel (feedback : Bool) : String := if feedback then "mlfqs" else "priority"

/-- A new scheduler, which needs room for the first thread and the idle thread. -/
def new (feedback : Bool) (capacity : Nat) : Except Violation Scheduler × List LogRecord :=
  if capacity < 2 then (.error .tooFewThreads, [])
  else
    (.ok (start feedback capacity),
      [⟨.info, "sched: initialized, mode=" ++ modeLabel feedback ++ ", max_threads=" ++
        toString capacity⟩])

end Scheduler

end KernelCore
