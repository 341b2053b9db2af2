import KernelCore.Memory.Error
import KernelCore.Memory.FaultFlags
import KernelCore.Thread

/-!
# Violated contracts

The conditions that the callers of the kernel core promise, and the internal consistency checks
it makes. A violated one stops the kernel; `Violation.message` is what it says then.
-/
namespace KernelCore

/-- A place in the table of physical frames. -/
structure FrameId where
  index : Nat
  deriving DecidableEq, Repr

def FrameId.text (f : FrameId) : String := "FrameId(" ++ toString f.index ++ ")"

inductive Violation where
  /-- A check that has no words of its own. -/
  | check
  | arithmetic (fault : ArithmeticFault)
  | tooFewThreads
  | noSuchThread (t : Tid)
  | enabledInHandler
  | blockedInHandler
  | blockedWithInterrupts
  | unblockedUnblocked (t : Tid)
  | unblockedQueued (t : Tid)
  | yieldedInHandler
  | exitedInHandler
  | idleExited
  | sleptInHandler
  | idleSlept
  | nestedInterrupt
  | queuedTwice (t : Tid)
  | severalQueues (t : Tid) (found : List Membership)
  | wrongMembership (t : Tid)
  | runningNotCurrent (t : Tid)
  | runningThreads (count : Nat)
  | idleReady
  | schedulerExists
  | acquiredInHandler
  | acquiredTwice (t : Tid)
  | releasedByOther (t : Tid)
  | downInHandler
  | waitedInHandler
  | waitedWithoutLock
  | signalledWithoutLock
  | otherLock (t : Tid)
  | noSuchHandle (count index : Nat)
  /-- Fewer bytes than are needed. -/
  | tooFewBytes (needed size : Nat)
  | bitOutOfRange (index : Nat)
  | slotFreedTwice (slot : Nat)
  | residentWithSlot
  | frameNotAllocated (f : FrameId)
  | victimWithoutOwner (f : FrameId)
  | untouchedInFrame (va : VirtAddr) (f : FrameId)
  | partialPage
  | pageReleasedTwice (pa : PhysAddr)
  | memoryExists
  | faultInKernelThread (addr : Nat) (t : Tid) (name : String) (flags : FaultFlags)
  /-- The machine ran out of frames or swap. -/
  | exhausted (e : MemoryError)
  deriving DecidableEq

namespace Violation

def message : Violation → String
  | check => "assertion failed"
  | arithmetic fault => fault.message
  | tooFewThreads => "sched: need room for main and idle"
  | noSuchThread t => "sched: no such thread " ++ toString t
  | enabledInHandler => "sched: enabling interrupts inside a handler"
  | blockedInHandler => "sched: block() in interrupt context"
  | blockedWithInterrupts => "sched: block() with interrupts on"
  | unblockedUnblocked t => "sched: unblock of non-blocked thread " ++ toString t
  | unblockedQueued t => "sched: thread " ++ toString t ++ " still queued elsewhere"
  | yieldedInHandler => "sched: yield in interrupt context"
  | exitedInHandler => "sched: exit in interrupt context"
  | idleExited => "sched: idle thread cannot exit"
  | sleptInHandler => "sched: sleep in interrupt context"
  | idleSlept => "sched: idle thread cannot sleep"
  | nestedInterrupt => "sched: nested external interrupt"
  | queuedTwice t => "tid " ++ toString t ++ " queued twice"
  | severalQueues t found =>
    "sched: thread " ++ toString t ++ " in several queues: [" ++
      ", ".intercalate (found.map Membership.text) ++ "]"
  | wrongMembership t => "sched: thread " ++ toString t ++ " membership mismatch"
  | runningNotCurrent t => "sched: thread " ++ toString t ++ " running but not current"
  | runningThreads count => "sched: " ++ toString count ++ " running threads"
  | idleReady => "sched: idle thread in ready queue"
  | schedulerExists => "sched: already initialized"
  | acquiredInHandler => "lock: acquire in interrupt context"
  | acquiredTwice t => "lock: recursive acquire by " ++ toString t
  | releasedByOther t => "lock: release by non-holder " ++ toString t
  | downInHandler => "sema: down in interrupt context"
  | waitedInHandler => "condvar: wait in interrupt context"
  | waitedWithoutLock => "condvar: wait without holding lock"
  | signalledWithoutLock => "condvar: signal without holding lock"
  | otherLock t => "condvar: waiter " ++ toString t ++ " used another lock"
  | noSuchHandle count index =>
    "index out of bounds: the len is " ++ toString count ++ " but the index is " ++ toString index
  | tooFewBytes needed size =>
    "range end index " ++ toString needed ++ " out of range for slice of length " ++ toString size
  | bitOutOfRange index => "bitmap index " ++ toString index ++ " out of range"
  | slotFreedTwice slot => "swap: double free of slot " ++ toString slot
  | residentWithSlot => "resident anonymous page still owns a swap slot"
  | frameNotAllocated f => "vm: frame " ++ f.text ++ " not allocated"
  | victimWithoutOwner f => "vm: victim frame " ++ f.text ++ " has no owner"
  | untouchedInFrame va f => "vm: lazy page " ++ va.text ++ " occupies frame " ++ f.text
  | partialPage => "segment page must cover one page"
  | pageReleasedTwice pa => "pool: page " ++ pa.text ++ " released twice"
  | memoryExists => "vm: already initialized"
  | faultInKernelThread addr t name flags =>
    "page fault at " ++ Text.hex addr ++ " in kernel thread " ++ toString t ++ " '" ++ name ++
      "' (" ++ flags.text ++ ")"
  | exhausted e => "vm: " ++ e.text

end Violation

end KernelCore
