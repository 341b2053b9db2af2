import KernelCore.Paging.Claim

/-!
# Taking pages away

A page that goes away gives back its frame, and its slot where there may be one; what was changed
of its file is written back first. A write-back that fails is logged and the change is lost.
-/
namespace KernelCore.VirtualMemory

open Transition

/-- What became of pages that were taken away. -/
structure Discarded where
  /-- How many were in memory. -/
  frames : Nat
  writtenBack : Nat
  deriving DecidableEq, Repr

/-- Write a page back to its file if it is in memory and was changed; tells whether it was
written. Failures are logged under the name of the part of the kernel that asked. -/
def saveChanges (part : String) (space : SpaceId) (va : VirtAddr) (p : Page) : Paging Bool := do
  match p.kind, p.frame with
  | .file b, some f =>
    let dirty ← isDirty space va
    if dirty then
      let x ← frame f
      match ← attempt (writeBack b x.page) with
      | .ok () =>
        count fun c => { c with writeBacks := c.writeBacks + 1 }
        pure true
      | .error e =>
        emit .error (part ++ ": write back of " ++ va.text ++ " failed: " ++ e.text)
        pure false
    else pure false
  | _, _ => pure false

/-- Take a page out of its space, if there is one at the address. `slots` tells whether a page
that is not in memory gives back the slot it holds. -/
def discardPage (part : String) (slots : Bool) (space : SpaceId) (va : VirtAddr) :
    Paging Discarded := do
  let v ← get
  match v.page? space va with
  | none => pure ⟨0, 0⟩
  | some p =>
    let saved ← saveChanges part space va p
    match p.frame with
    | some f =>
      unmapPage space va
      freeFrame f
    | none => if slots then onSwap (SwapArea.release p.slot) else pure ()
    dropPage space va
    pure ⟨p.isResident.toNat, saved.toNat⟩

def discardPages (part : String) (slots : Bool) (space : SpaceId) :
    List VirtAddr → Paging Discarded
  | [] => pure ⟨0, 0⟩
  | va :: rest => do
    let d ← discardPage part slots space va
    let ds ← discardPages part slots space rest
    pure ⟨d.frames + ds.frames, d.writtenBack + ds.writtenBack⟩

/-- Destroy an address space with its pages and regions. -/
def destroySpace (space : SpaceId) : Paging Unit := do
  let v ← get
  match v.spaces.find? space with
  | none => refuse .noSuchSpace
  | some a =>
    let d ← discardPages "vm" true space a.pages.keys
    forAll (dropRegion space) a.regions.keys
    modify fun v =>
      { v with spaces := v.spaces.erase space, mmu := v.mmu.destroy space }
    emit .debug
      ("vm: destroyed space " ++ toString space.number ++ ", " ++ toString d.frames ++
        " frames freed")

end KernelCore.VirtualMemory
