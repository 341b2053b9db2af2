import KernelCore.Errno

/-!
# Memory errors

The reasons for which a memory operation is refused. Two of them mean that the machine has run
out of frames and swap; three mean that the access itself was illegal.
-/
namespace KernelCore

inductive MemoryError where
  /-- No free frame, and none that could be taken from another page. -/
  | outOfMemory
  | outOfSwap
  /-- The address belongs to no region of the space. -/
  | invalidAccess
  /-- The page is read-only, or present with too few rights. -/
  | writeProtected
  | kernelAddress
  | alreadyMapped
  | notMapped
  | invalidArgument
  | noSuchSpace
  | io
  deriving DecidableEq, Repr

/-- The reasons for which the page table refuses to map a page. -/
inductive MapError where
  | alreadyMapped
  | notMapped
  | outOfMemory
  | invalid
  deriving DecidableEq, Repr

namespace MemoryError

def all : List MemoryError :=
  [outOfMemory, outOfSwap, invalidAccess, writeProtected, kernelAddress, alreadyMapped, notMapped,
    invalidArgument, noSuchSpace, io]

def label : MemoryError → String
  | outOfMemory => "OutOfMemory"
  | outOfSwap => "OutOfSwap"
  | invalidAccess => "InvalidAccess"
  | writeProtected => "WriteProtected"
  | kernelAddress => "KernelAddress"
  | alreadyMapped => "AlreadyMapped"
  | notMapped => "NotMapped"
  | invalidArgument => "InvalidArgument"
  | noSuchSpace => "NoSuchSpace"
  | io => "Io"

def text : MemoryError → String
  | outOfMemory => "out of memory"
  | outOfSwap => "out of swap slots"
  | invalidAccess => "invalid access"
  | writeProtected => "write to read-only page"
  | kernelAddress => "kernel address"
  | alreadyMapped => "already mapped"
  | notMapped => "not mapped"
  | invalidArgument => "invalid argument"
  | noSuchSpace => "no such address space"
  | io => "I/O error"

/-- Resources ran out: the kernel cannot go on. Every other error concerns one process. -/
def isFatal : MemoryError → Bool
  | outOfMemory | outOfSwap => true
  | _ => false

/-- The access was illegal, whatever the state of the machine. -/
def isAccessError : MemoryError → Bool
  | invalidAccess | writeProtected | kernelAddress => true
  | _ => false

def errno : MemoryError → Errno
  | outOfMemory => .outOfMemory
  | outOfSwap => .noSpaceLeftOnDevice
  | invalidAccess | writeProtected | kernelAddress => .badAddress
  | alreadyMapped => .fileExists
  | notMapped | invalidArgument => .invalidArgument
  | noSuchSpace => .noSuchProcess
  | io => .ioError

def ofMap : MapError → MemoryError
  | .alreadyMapped => alreadyMapped
  | .notMapped => notMapped
  | .outOfMemory => outOfMemory
  | .invalid => invalidArgument

end MemoryError

namespace MapError

def all : List MapError := [alreadyMapped, notMapped, outOfMemory, invalid]

def label : MapError → String
  | alreadyMapped => "AlreadyMapped"
  | notMapped => "NotMapped"
  | outOfMemory => "OutOfMemory"
  | invalid => "Invalid"

end MapError

end KernelCore
