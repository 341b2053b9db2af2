import KernelCore.Paging.Allocate

/-!
# Page faults

A fault on a page of the space brings the page into memory. A fault just below the stack makes
the stack grow: all pages from the faulting one up to those the stack already has are added.
Other faults are refused; then the process that made the access has to go.
-/
namespace KernelCore.VirtualMemory

open Transition

/-- How far below the stack pointer a program may write: a push writes before it moves the
pointer. -/
def pushReach : Nat := 8

/-- The lowest address of the user stack. -/
def stackBottom : Nat := userStackTop - stackLimit

/-- Whether an address may be part of the stack when the stack pointer is at `pointer`. -/
def isStackAccess (a : VirtAddr) (pointer : Nat) : Bool :=
  stackBottom ≤ a.toNat && a.toNat < userStackTop && pointer ≤ a.toNat + pushReach

/-- Add stack pages from an address upwards to the first that exists, at most `count`; yields how
many were added. -/
def growUpwards (space : SpaceId) : Nat → VirtAddr → Paging Nat
  | 0, _ => pure 0
  | count + 1, va => do
    let v ← get
    if (v.page? space va).isSome then pure 0
    else
      allocateAnonymous space va true
      claim space va
      let more ← growUpwards space count ⟨va.toNat + pageSize⟩
      pure (more + 1)

/-- Grow the stack down to an address. -/
def growStack (space : SpaceId) (a : VirtAddr) : Paging Unit := do
  let bottom := a.floor
  let grown ← growUpwards space ((userStackTop - bottom.toNat) / pageSize) bottom
  emit .debug
    ("vm: space " ++ toString space.number ++ " stack grown by " ++ toString grown ++
      " pages down to " ++ bottom.text)

/-- Serve a page fault at an address, with the stack pointer of the user program at that time. -/
def handleFault (space : SpaceId) (a : VirtAddr) (flags : FaultFlags) (pointer : Nat) :
    Paging Unit := do
  count fun c => { c with faults := c.faults + 1 }
  ensure (a.floor.toNat ≠ 0) (.refused .invalidAccess)
  ensure (a.isUser = true) (.refused .kernelAddress)
  ensure (flags.isNotPresent = true) (.refused .writeProtected)
  let v ← get
  match v.spaces.find? space with
  | none => refuse .noSuchSpace
  | some s =>
    match s.page? a with
    | none => if isStackAccess a pointer then growStack space a else refuse .invalidAccess
    | some p =>
      ensure (flags.isWrite = true → p.writable = true) (.refused .writeProtected)
      if p.isResident then pure () else claim space a

end KernelCore.VirtualMemory
