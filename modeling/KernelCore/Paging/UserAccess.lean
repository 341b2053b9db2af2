import KernelCore.Paging.Fault

/-!
# Accesses of user programs

A load or a store goes page by page. The hardware looks the page up in its page table; if it is
not there, or may not be written to, the access faults, and is tried once more after the fault
was served. What was copied before an access fails stays copied.
-/
namespace KernelCore.VirtualMemory

open Transition

/-- One try of the hardware to access a page; tells whether it succeeded. A try that fails leaves
the fault served. -/
def tryAccess (space : SpaceId) (a : VirtAddr) (write : Bool) : Paging Bool := do
  let v ← get
  match v.mmu.mapping? space a.floor with
  | some e =>
    if write && !e.writable then
      handleFault space a (.ofParts true write false) v.userPointer
      pure false
    else
      modify fun v => { v with mmu := v.mmu.touch space a write }
      pure true
  | none =>
    handleFault space a (.ofParts true write true) v.userPointer
    pure false

/-- Access the page an address lies in, in at most two tries. -/
def access (space : SpaceId) (a : VirtAddr) (write : Bool) : Paging Bool := do
  let first ← tryAccess space a write
  if first then pure true else tryAccess space a write

/-- How many of `length` bytes from an address on lie in the same page as the address. -/
def bytesInPage (a : VirtAddr) (length : Nat) : Nat := min (pageSize - a.pageOffset) length

theorem bytesInPage_pos (a : VirtAddr) {length : Nat} (h : length ≠ 0) :
    0 < bytesInPage a length := by
  have := Nat.mod_lt a.toNat pageSize_pos
  unfold bytesInPage VirtAddr.pageOffset
  omega

/-- Load bytes as a user program does; nothing comes of it if a page cannot be mapped. -/
def load (space : SpaceId) (a : VirtAddr) (length : Nat) : Paging (Option (Array UInt8)) :=
  if _h : length = 0 then pure (some #[])
  else do
    let n := bytesInPage a length
    let v ← access space a false >>= fun reached => gets fun v =>
      if reached then v.pageBytes? space a else none
    match v with
    | none => pure none
    | some page =>
      let rest ← load space ⟨a.toNat + n⟩ (length - n)
      pure (rest.map fun bytes => page.slice a.pageOffset n ++ bytes)
termination_by length
decreasing_by
  have := bytesInPage_pos a _h
  omega

/-- Store bytes as a user program does, from number `done` on; tells whether all pages could be
mapped. -/
def storeFrom (space : SpaceId) (a : VirtAddr) (bytes : Array UInt8) (done : Nat) : Paging Bool :=
  if _h : bytes.size - done = 0 then pure true
  else do
    let n := bytesInPage a (bytes.size - done)
    let target ← access space a true >>= fun reached => gets fun v =>
      if reached then v.physicalPage? space a else none
    match target with
    | none => pure false
    | some pa =>
      modify fun v =>
        { v with
          pool := v.pool.setPage pa
            ((v.pool.page pa).overlay a.pageOffset (bytes.extract done (done + n))) }
      storeFrom space ⟨a.toNat + n⟩ bytes (done + n)
termination_by bytes.size - done
decreasing_by
  have := bytesInPage_pos a _h
  omega

/-- Store bytes as a user program does; tells whether all pages could be mapped. -/
def store (space : SpaceId) (a : VirtAddr) (bytes : Array UInt8) : Paging Bool :=
  storeFrom space a bytes 0

end KernelCore.VirtualMemory
