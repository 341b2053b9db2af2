import KernelCore.Kernel.Basic

/-!
# Processes

A page fault of a process is served, or the process goes; only a machine that has run out of
frames or swap stops the kernel. A process that exits gives up its address space first.
-/
namespace KernelCore.Kernel

open Transition

inductive FaultOutcome where
  /-- The page is there now, and the access can be made again. -/
  | resumed
  /-- The access was illegal, and the process is gone. -/
  | killed
  deriving DecidableEq, Repr

def FaultOutcome.label : FaultOutcome → String
  | .resumed => "Resumed"
  | .killed => "Killed"

/-- Give up an address space; a failure is logged and otherwise passed over. -/
def abandonSpace (space : SpaceId) (complaint : String) : Running Unit := do
  match ← page (VirtualMemory.destroySpace space) with
  | .ok () => pure ()
  | .error e => emit .warn (complaint ++ " failed: " ++ e.text)

/-- The current process exits. -/
def exitProcess (status : Int) : Running Unit := do
  let th ← schedule Scheduler.currentThread
  match th.space with
  | none => pure ()
  | some space =>
    abandonSpace space
      ("vm: destroy of space " ++ toString space.number ++ " for thread " ++ toString th.tid)
    let _ ← schedule (Scheduler.setSpace th.tid none)
  schedule (Scheduler.exit status)

/-- A system call of the current process begins. -/
def enterSystemCall (pointer : Nat) : Running Unit := schedule (Scheduler.saveUserStack pointer)

/-- The stack pointer of the user program at a fault. If the kernel itself touched user memory,
the trap shows the kernel's own stack, and the pointer saved at the system call counts. -/
def userPointerAt (th : Thread) (flags : FaultFlags) (trapPointer : Nat) : Nat :=
  if flags.isUser then trapPointer else th.userStack.getD trapPointer

/-- A page fault while the current thread runs. -/
def pageFault (a : VirtAddr) (flags : FaultFlags) (trapPointer : Nat) : Running FaultOutcome := do
  let th ← schedule Scheduler.currentThread
  match th.space with
  | none => stop (.faultInKernelThread a.toNat th.tid th.name flags)
  | some space =>
    match ← page (VirtualMemory.handleFault space a flags (userPointerAt th flags trapPointer)) with
    | .ok () => pure .resumed
    | .error e =>
      if e.isFatal then
        emit .error ("vm: fault at " ++ a.text ++ " cannot be served: " ++ e.text)
        stop (.exhausted e)
      else
        emit .debug
          ("vm: thread " ++ toString th.tid ++ " killed: " ++ e.text ++ " at " ++ a.text ++ " (" ++
            flags.text ++ ")")
        exitProcess (-1)
        pure .killed

end KernelCore.Kernel
