import KernelCore.Memory.Address
import KernelCore.Memory.Error

/-!
# The memory management unit

The hardware page table of every address space. It holds the pages that are in memory, and
records which of them were accessed and which were written to. Mapping a page can fail, and for
the sake of experiments the next few mappings can be made to fail.
-/
namespace KernelCore

structure MmuEntry where
  page : PhysAddr
  writable : Bool
  accessed : Bool
  dirty : Bool
  deriving DecidableEq, Repr

/-- How often each operation was called. -/
structure MmuCalls where
  map : Nat
  unmap : Nat
  setDirty : Nat
  clearAccessed : Nat
  destroy : Nat
  deriving DecidableEq, Repr

structure Mmu where
  entries : Table SpaceId (Table VirtAddr MmuEntry)
  /-- How many mappings are still to fail, and how. -/
  failures : Nat
  failure : MapError
  calls : MmuCalls

namespace Mmu

def new : Mmu := ⟨.empty, 0, .outOfMemory, ⟨0, 0, 0, 0, 0⟩⟩

def mapping? (m : Mmu) (space : SpaceId) (va : VirtAddr) : Option MmuEntry :=
  (m.entries.find? space).bind (·.find? va)

def setEntry (m : Mmu) (space : SpaceId) (va : VirtAddr) (e : MmuEntry) : Mmu :=
  { m with entries := m.entries.insert space (((m.entries.find? space).getD .empty).insert va e) }

def updateEntry (m : Mmu) (space : SpaceId) (va : VirtAddr) (f : MmuEntry → MmuEntry) : Mmu :=
  { m with entries := m.entries.modify space fun t => t.modify va f }

/-- Map a page that is not mapped yet. -/
def map (m : Mmu) (space : SpaceId) (va : VirtAddr) (pa : PhysAddr) (writable : Bool) :
    Except MapError Unit × Mmu :=
  let m := { m with calls := { m.calls with map := m.calls.map + 1 } }
  if 0 < m.failures then (.error m.failure, { m with failures := m.failures - 1 })
  else
    match m.mapping? space va with
    | some _ => (.error .alreadyMapped, m)
    | none => (.ok (), m.setEntry space va ⟨pa, writable, false, false⟩)

def unmap (m : Mmu) (space : SpaceId) (va : VirtAddr) : Mmu :=
  { m with
    entries := m.entries.modify space fun t => t.erase va
    calls := { m.calls with unmap := m.calls.unmap + 1 } }

def isDirty (m : Mmu) (space : SpaceId) (va : VirtAddr) : Bool :=
  ((m.mapping? space va).map MmuEntry.dirty).getD false

def setDirty (m : Mmu) (space : SpaceId) (va : VirtAddr) (dirty : Bool) : Mmu :=
  { m.updateEntry space va fun e => { e with dirty } with
    calls := { m.calls with setDirty := m.calls.setDirty + 1 } }

def isAccessed (m : Mmu) (space : SpaceId) (va : VirtAddr) : Bool :=
  ((m.mapping? space va).map MmuEntry.accessed).getD false

def clearAccessed (m : Mmu) (space : SpaceId) (va : VirtAddr) : Mmu :=
  { m.updateEntry space va fun e => { e with accessed := false } with
    calls := { m.calls with clearAccessed := m.calls.clearAccessed + 1 } }

/-- Drop the page table of a space. -/
def destroy (m : Mmu) (space : SpaceId) : Mmu :=
  { m with
    entries := m.entries.erase space
    calls := { m.calls with destroy := m.calls.destroy + 1 } }

/-- What the hardware records when a mapped page is accessed. -/
def touch (m : Mmu) (space : SpaceId) (va : VirtAddr) (write : Bool) : Mmu :=
  m.updateEntry space va.floor fun e => { e with accessed := true, dirty := e.dirty || write }

end Mmu

end KernelCore
