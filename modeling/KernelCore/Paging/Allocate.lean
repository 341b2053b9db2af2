import KernelCore.Paging.Claim

/-!
# Giving pages to an address space

Pages are entered untouched: nothing is read and no frame is taken before they are accessed. Only
the first page of the user stack is brought into memory at once.
-/
namespace KernelCore.VirtualMemory

open Transition

/-- Spaces have numbers below this one. -/
def spaceLimit : Nat := 4294967295

/-- A new address space without pages. -/
def createSpace : Paging SpaceId := do
  let v ← get
  let space : SpaceId := ⟨v.nextSpace⟩
  ensure (v.nextSpace < spaceLimit) (.violated (.arithmetic .addition))
  modify fun v =>
    { v with nextSpace := v.nextSpace + 1, spaces := v.spaces.insert space .empty }
  emit .debug ("vm: created space " ++ toString space.number)
  pure space

/-- Enter a page that its loader will fill at the first access. -/
def allocateLazy (space : SpaceId) (va : VirtAddr) (writable : Bool) (target : PageType)
    (loader : Loader) : Paging Unit := do
  ensure (va.isAligned = true ∧ va.toNat ≠ 0) (.refused .invalidArgument)
  ensure (va.isUser = true) (.refused .kernelAddress)
  enterPage space va (.fresh writable target loader)

/-- Enter an anonymous page full of zeros. -/
def allocateAnonymous (space : SpaceId) (va : VirtAddr) (writable : Bool) : Paging Unit :=
  allocateLazy space va writable .anonymous .zeroFill

/-- Set up the user stack; yields the stack pointer to start with. -/
def setupStack (space : SpaceId) : Paging VirtAddr := do
  let first : VirtAddr := ⟨userStackTop - pageSize⟩
  allocateAnonymous space first true
  claim space first
  pure ⟨userStackTop⟩

/-- Enter the pages of a segment of a program: `readBytes` bytes of the file from `offset` on,
then `zeroBytes` zeros. Once loaded the pages are anonymous. -/
def loadSegment (space : SpaceId) (file : DescriptionId) (offset : Nat) (start : VirtAddr)
    (readBytes zeroBytes : Nat) (writable : Bool) : Paging Unit := do
  let length ← checked (addWords readBytes zeroBytes)
  ensure (length % pageSize = 0 ∧ start.isAligned = true ∧ offset % pageSize = 0)
    (.refused .invalidArgument)
  forRange
    (fun i => do
      let b ← checked (FileBacking.ofStretch file offset readBytes i)
      let va ← checked (start.addPages i)
      allocateLazy space va writable .anonymous (.segment b))
    0 (length / pageSize)

end KernelCore.VirtualMemory
