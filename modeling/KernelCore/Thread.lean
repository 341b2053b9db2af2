import KernelCore.Fixed
import KernelCore.Memory.Address

/-!
# Threads

The control block of a thread: its state, its base and effective priority, the locks it holds
and the one it waits for, its share of the processor, and the queue it is in. A thread is in at
most one queue at a time, and `membership` says in which.
-/
namespace KernelCore

/-- The number of a thread. -/
abbrev Tid := Int

/-- What a failed fork returns in place of a thread number. -/
def noTid : Tid := -1

structure LockId where
  index : Nat
  deriving DecidableEq, Repr

structure SemaphoreId where
  index : Nat
  deriving DecidableEq, Repr

structure CondvarId where
  index : Nat
  deriving DecidableEq, Repr

def LockId.text (l : LockId) : String := "LockId(" ++ toString l.index ++ ")"

inductive ThreadState where
  | running
  | ready
  /-- Waits for an event: a wake-up time, a lock, a semaphore, a condition variable. -/
  | blocked
  /-- Has exited; its control block is not reclaimed yet. -/
  | dying
  deriving DecidableEq, Repr

def ThreadState.label : ThreadState → String
  | .running => "Running"
  | .ready => "Ready"
  | .blocked => "Blocked"
  | .dying => "Dying"

/-- The queue a thread is in. -/
inductive Membership where
  | none
  | ready
  | sleep
  | lock (l : LockId)
  | semaphore (s : SemaphoreId)
  | condvar (c : CondvarId)
  deriving DecidableEq, Repr

def Membership.text : Membership → String
  | .none => "None"
  | .ready => "Ready"
  | .sleep => "Sleep"
  | .lock l => "Lock(" ++ l.text ++ ")"
  | .semaphore s => "Sema(SemaId(" ++ toString s.index ++ "))"
  | .condvar c => "Condvar(CondvarId(" ++ toString c.index ++ "))"

/-- A priority brought into the legal range. -/
def clampPriority (p : Int) : Int := max minPriority (min p maxPriority)

/-- A nice value brought into the legal range. -/
def clampNice (n : Int) : Int := max minNice (min n maxNice)

structure Thread where
  tid : Tid
  name : String
  state : ThreadState
  /-- The priority the thread has by itself. -/
  basePriority : Int
  /-- The priority it is scheduled by; donations may have raised it. -/
  priority : Int
  /-- In the order they were acquired. -/
  heldLocks : List LockId
  waitingLock : Option LockId
  nice : Int
  recentCpu : Fixed
  membership : Membership
  /-- The argument its entry function is called with, if it has an entry function. -/
  argument : Option Nat
  /-- The address space of a user process; a kernel thread has none. -/
  space : Option SpaceId
  /-- The user stack pointer at the last system call. -/
  userStack : Option Nat
  exitStatus : Int
  deriving DecidableEq

/-- A new thread. It is blocked, and its priority is brought into range. -/
def Thread.create (tid : Tid) (name : String) (priority : Int) (argument : Option Nat) :
    Thread where
  tid
  name
  state := .blocked
  basePriority := clampPriority priority
  priority := clampPriority priority
  heldLocks := []
  waitingLock := none
  nice := 0
  recentCpu := Fixed.zero
  membership := .none
  argument
  space := none
  userStack := none
  exitStatus := 0

/-- Hands out thread numbers in ascending order. The counter is a 32-bit number, and goes on from
the least one when it has passed the greatest. -/
structure TidAllocator where
  next : Tid
  deriving DecidableEq, Repr

namespace TidAllocator

def firstTid : Tid := 1

/-- Thread numbers stay below this one, the greatest that the counter takes. -/
def lastTid : Tid := 2147483647

def new : TidAllocator := ⟨firstTid⟩

/-- The counter is at a thread number. -/
def HasNumber (a : TidAllocator) : Prop := firstTid ≤ a.next ∧ a.next < lastTid

instance (a : TidAllocator) : Decidable a.HasNumber := inferInstanceAs (Decidable (_ ∧ _))

/-- The next thread number, unless all have been handed out. The counter moves on either way, so
what comes after that are the same numbers again. -/
def allocate (a : TidAllocator) : Option Tid × TidAllocator :=
  (if a.HasNumber then some a.next else none, ⟨(a.next + 1).bmod 4294967296⟩)

theorem allocate_of_hasNumber {a : TidAllocator} (h : a.HasNumber) :
    a.allocate = (some a.next, ⟨a.next + 1⟩) := by
  have exact : (a.next + 1).bmod 4294967296 = a.next + 1 := by
    have low : (1 : Int) ≤ a.next := h.1
    have high : (2147483647 : Int) > a.next := h.2
    apply Int.bmod_eq_of_le <;> omega
  rw [allocate, if_pos h, exact]

theorem allocate_fst_of_not_hasNumber {a : TidAllocator} (h : ¬a.HasNumber) :
    a.allocate.1 = none := if_neg h

end TidAllocator

theorem clampPriority_bounds (p : Int) :
    minPriority ≤ clampPriority p ∧ clampPriority p ≤ maxPriority := by
  unfold clampPriority minPriority maxPriority
  omega

theorem clampNice_bounds (n : Int) : minNice ≤ clampNice n ∧ clampNice n ≤ maxNice := by
  unfold clampNice minNice maxNice
  omega

end KernelCore
