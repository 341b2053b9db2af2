/-!
# System call error numbers

The error numbers a system call returns, negated, when scheduling or memory mapping refuses it.
-/
namespace KernelCore

inductive Errno where
  | noSuchProcess
  | ioError
  | tryAgain
  | outOfMemory
  | badAddress
  | fileExists
  | invalidArgument
  | noSpaceLeftOnDevice
  deriving DecidableEq, Repr

namespace Errno

def all : List Errno :=
  [noSuchProcess, ioError, tryAgain, outOfMemory, badAddress, fileExists, invalidArgument,
    noSpaceLeftOnDevice]

def code : Errno → Int
  | noSuchProcess => 3
  | ioError => 5
  | tryAgain => 11
  | outOfMemory => 12
  | badAddress => 14
  | fileExists => 17
  | invalidArgument => 22
  | noSpaceLeftOnDevice => 28

/-- What a system call returns to its caller. -/
def returnValue (e : Errno) : Int := -e.code

def symbol : Errno → String
  | noSuchProcess => "ESRCH"
  | ioError => "EIO"
  | tryAgain => "EAGAIN"
  | outOfMemory => "ENOMEM"
  | badAddress => "EFAULT"
  | fileExists => "EEXIST"
  | invalidArgument => "EINVAL"
  | noSpaceLeftOnDevice => "ENOSPC"

def label : Errno → String
  | noSuchProcess => "NoSuchProcess"
  | ioError => "IOError"
  | tryAgain => "TryAgain"
  | outOfMemory => "OutOfMemory"
  | badAddress => "BadAddress"
  | fileExists => "FileExists"
  | invalidArgument => "InvalidArgument"
  | noSpaceLeftOnDevice => "NoSpaceLeftOnDevice"

/-- The symbol and the number, as in `EIO (5)`. -/
def text (e : Errno) : String := e.symbol ++ " (" ++ toString e.code ++ ")"

theorem mem_all (e : Errno) : e ∈ all := by cases e <;> decide

end Errno

end KernelCore
