import KernelCore.Paging.Basic

/-!
# Bringing pages into memory

A page is claimed when it is first accessed and whenever it has to come back. It gets a frame of
the pool or, if none is left, the frame of a page that is put out of memory: an anonymous page
goes to the swap area, a file page that was changed is written back, a file page that was not is
dropped. What a page is and the slot it holds change only after the hardware has mapped it, so a
claim that fails leaves the page as it was.
-/
namespace KernelCore.VirtualMemory

open Transition

/-- Save the page in a frame and note that it is in no frame any more. -/
def putOut (owner : PageRef) (f : FrameId) : Paging Unit := do
  let x ← frame f
  let p ← pageAt owner.space owner.va
  match p.kind with
  | .untouched .. => violate (.untouchedInFrame owner.va f)
  | .anonymous slot =>
    let bytes ← gets fun v => v.pool.page x.page
    let s ← onSwap (SwapArea.putOut slot bytes.toArray)
    setKind owner.space owner.va (.anonymous (some s))
    count fun c => { c with swapOuts := c.swapOuts + 1 }
  | .file b =>
    let dirty ← isDirty owner.space owner.va
    if dirty then
      writeBack b x.page
      setDirty owner.space owner.va false
      count fun c => { c with writeBacks := c.writeBacks + 1 }
    else pure ()
  setFrame owner.space owner.va none

/-- Free a frame of its page. The frame comes back empty and full of zeros. -/
def evict : Paging FrameId := do
  let victim ← modifyGet fun v =>
    let (victim, frames, mmu) := v.frames.selectVictim v.mmu
    (victim, { v with frames, mmu })
  match victim with
  | none =>
    emit .error "vm: no frame to evict"
    refuse .outOfMemory
  | some f =>
    let x ← frame f
    match x.owner with
    | none => violate (.victimWithoutOwner f)
    | some owner =>
      whilePinned f (putOut owner f)
      unmapPage owner.space owner.va
      updateFrame f fun x => { x with owner := none }
      setPage x.page .zeros
      count fun c => { c with evictions := c.evictions + 1 }
      emit .debug
        ("vm: evicted " ++ owner.va.text ++ " of space " ++ toString owner.space.number)
      pure f

/-- A frame full of zeros that holds no page. -/
def obtainFrame : Paging FrameId := do
  let acquired ← modifyGet fun v =>
    let (pa, pool) := v.pool.acquire
    (pa, { v with pool })
  match acquired with
  | none => evict
  | some pa =>
    modifyGet fun v =>
      let (f, frames) := v.frames.insert pa
      (f, { v with frames })

/-- What an untouched page becomes. A file page needs a file to come from. -/
def firstKind : PageType → Loader → Paging PageKind
  | .anonymous, _ => pure (.anonymous none)
  | .file, .segment b => pure (.file b)
  | .file, .zeroFill => refuse .invalidArgument

/-- Fill a physical page with the contents of a page and map it. -/
def bringIn (space : SpaceId) (va : VirtAddr) (pa : PhysAddr) : Paging Unit := do
  let p ← pageAt space va
  match p.kind with
  | .untouched target loader =>
    filling pa loader.load
    let kind ← firstKind target loader
    mapPage space va pa p.writable
    setKind space va kind
  | .anonymous slot =>
    let bytes ← onSwap (SwapArea.bringIn slot)
    setPage pa bytes
    mapPage space va pa p.writable
    if slot.isSome then count fun c => { c with swapIns := c.swapIns + 1 } else pure ()
    onSwap (SwapArea.release slot)
    setKind space va (.anonymous none)
  | .file b =>
    filling pa b.bringIn
    mapPage space va pa p.writable

/-- Bring a page into an empty frame. If that fails the frame is freed. -/
def install (space : SpaceId) (va : VirtAddr) (f : FrameId) : Paging Unit := do
  let x ← frame f
  updateFrame f fun x => { x with owner := some ⟨space, va⟩ }
  let r ← attempt (whilePinned f (do
    bringIn space va x.page
    setFrame space va (some f)))
  match r with
  | .ok () => pure ()
  | .error e =>
    setFrame space va none
    freeFrame f
    emit .debug ("vm: claim of " ++ va.text ++ " failed: " ++ e.text)
    refuse e

/-- Make sure that the page an address lies in is in memory. -/
def claim (space : SpaceId) (va : VirtAddr) : Paging Unit := do
  let va := va.floor
  let v ← get
  match v.page? space va with
  | none => refuse .notMapped
  | some p =>
    if p.isResident then pure ()
    else
      let f ← obtainFrame
      install space va f

end KernelCore.VirtualMemory
