import KernelCore.Memory.AddressSpace
import KernelCore.Memory.FrameTable
import KernelCore.Memory.Pool

/-!
# Virtual memory

The memory of the machine as the kernel manages it: the address spaces, the frames that hold
those of their pages that are in memory, the swap area and the files that hold the others, and
the page tables of the hardware. A page and a mapped region each hold the file description they
name: entering one into a space retains the description, taking it out releases it.
-/
namespace KernelCore

/-- What paging had to do so far. -/
structure PagingCounts where
  faults : Nat
  evictions : Nat
  swapOuts : Nat
  swapIns : Nat
  writeBacks : Nat
  deriving DecidableEq, Repr

structure VirtualMemory where
  pool : PagePool
  mmu : Mmu
  frames : FrameTable
  swap : SwapArea
  files : FileStore
  spaces : Table SpaceId AddressSpace
  /-- The number of the next address space. -/
  nextSpace : Nat
  counts : PagingCounts
  /-- The stack pointer of the user program that runs on the machine. -/
  userPointer : Nat

/-- Steps of memory management. -/
abbrev Paging := Transition Stop VirtualMemory

namespace VirtualMemory

open Transition

variable {α : Type}

/-- A machine with the given numbers of physical pages and of sectors of its swap device. -/
def new (capacity sectors : Nat) : VirtualMemory × List LogRecord :=
  let (swap, log) := SwapArea.new sectors
  ({ pool := .new capacity
     mmu := .new
     frames := .empty
     swap
     files := .empty
     spaces := .empty
     nextSpace := 1
     counts := ⟨0, 0, 0, 0, 0⟩
     userPointer := userStackTop }, log)

/-! ## Looking up -/

/-- The page an address lies in. -/
def page? (v : VirtualMemory) (space : SpaceId) (va : VirtAddr) : Option Page :=
  (v.spaces.find? space).bind fun a => a.page? va

/-- The physical page that holds the page an address lies in, while it is in memory. -/
def physicalPage? (v : VirtualMemory) (space : SpaceId) (va : VirtAddr) : Option PhysAddr :=
  ((v.page? space va).bind Page.frame).bind fun f => (v.frames.frame? f).map Frame.page

/-- The contents of the page an address lies in, while it is in memory. -/
def pageBytes? (v : VirtualMemory) (space : SpaceId) (va : VirtAddr) : Option PageBytes :=
  (v.physicalPage? space va).map v.pool.page

/-- The page an address lies in, which must exist. -/
def pageAt (space : SpaceId) (va : VirtAddr) : Paging Page := do
  let v ← get
  match v.spaces.find? space with
  | none => refuse .noSuchSpace
  | some a =>
    match a.page? va with
    | none => refuse .notMapped
    | some p => pure p

/-! ## Acting on the parts -/

def onSwap (t : Swapping α) : Paging α := within (·.swap) (fun swap v => { v with swap }) t

def onFiles (t : Transition Stop FileStore α) : Paging α :=
  within (·.files) (fun files v => { v with files }) t

/-- Move bytes between the files and a physical page. -/
def filling (pa : PhysAddr) (t : Transferring α) : Paging α :=
  within (fun v => ⟨v.files, v.pool.page pa⟩)
    (fun x v => { v with files := x.files, pool := v.pool.setPage pa x.page }) t

def setPage (pa : PhysAddr) (bytes : PageBytes) : Paging Unit :=
  modify fun v => { v with pool := v.pool.setPage pa bytes }

def count (f : PagingCounts → PagingCounts) : Paging Unit :=
  modify fun v => { v with counts := f v.counts }

def updatePage (space : SpaceId) (va : VirtAddr) (f : Page → Page) : Paging Unit :=
  modify fun v => { v with spaces := v.spaces.modify space fun a => a.updatePage va f }

/-- Record the frame a page is in, or that it is in none. -/
def setFrame (space : SpaceId) (va : VirtAddr) (f : Option FrameId) : Paging Unit :=
  updatePage space va fun p => { p with frame := f }

/-- Give a page a new kind, with the description that goes with it. -/
def setKind (space : SpaceId) (va : VirtAddr) (kind : PageKind) : Paging Unit := do
  let v ← get
  let old := (v.page? space va).bind fun p => p.kind.description?
  updatePage space va fun p => { p with kind }
  modify fun v => { v with files := (v.files.retain? kind.description?).release? old }

/-- Enter a page that does not exist yet. -/
def enterPage (space : SpaceId) (va : VirtAddr) (p : Page) : Paging Unit :=
  update fun v =>
    match v.spaces.find? space with
    | none => .error (.refused .noSuchSpace)
    | some a =>
      (a.insertPage va p).map fun a =>
        { v with
          spaces := v.spaces.insert space a
          files := v.files.retain? p.kind.description? }

/-- Take a page out of its space. -/
def dropPage (space : SpaceId) (va : VirtAddr) : Paging Unit :=
  modify fun v =>
    { v with
      spaces := v.spaces.modify space fun a => a.removePage va
      files := v.files.release? ((v.page? space va).bind fun p => p.kind.description?) }

/-- The region that starts at an address. -/
def region? (v : VirtualMemory) (space : SpaceId) (start : VirtAddr) : Option Region :=
  (v.spaces.find? space).bind fun a => a.regions.find? start

/-- Enter a region, in the place of any that starts at the same address. -/
def enterRegion (space : SpaceId) (start : VirtAddr) (r : Region) : Paging Unit :=
  modify fun v =>
    { v with
      spaces := v.spaces.modify space fun a => a.insertRegion start r
      files := (v.files.retain r.file).release? ((v.region? space start).map Region.file) }

/-- Take a region out of its space. -/
def dropRegion (space : SpaceId) (start : VirtAddr) : Paging Unit :=
  modify fun v =>
    { v with
      spaces := v.spaces.modify space fun a => a.removeRegion start
      files := v.files.release? ((v.region? space start).map Region.file) }

/-! ## Frames and page tables -/

def frame (f : FrameId) : Paging Frame := do
  let v ← get
  ofExcept ((v.frames.get f).mapError Stop.violated)

def updateFrame (f : FrameId) (change : Frame → Frame) : Paging Unit :=
  update fun v =>
    match v.frames.update f change with
    | .ok frames => .ok { v with frames }
    | .error e => .error (.violated e)

/-- Strike out a frame and give its physical page back. -/
def freeFrame (f : FrameId) : Paging Unit :=
  update fun v =>
    match v.frames.remove f with
    | .error e => .error (.violated e)
    | .ok (pa, frames) =>
      match v.pool.release pa with
      | .error e => .error (.violated e)
      | .ok pool => .ok { v with frames, pool }

/-- Act with a frame pinned meanwhile. -/
def whilePinned (f : FrameId) (t : Paging α) : Paging α := do
  updateFrame f fun x => { x with pinned := true }
  let r ← attempt t
  updateFrame f fun x => { x with pinned := false }
  rethrow r

/-- Let the hardware translate a page to a physical page. -/
def mapPage (space : SpaceId) (va : VirtAddr) (pa : PhysAddr) (writable : Bool) : Paging Unit := do
  let r ← modifyGet fun v =>
    let (r, mmu) := v.mmu.map space va pa writable
    (r, { v with mmu })
  match r with
  | .ok () => pure ()
  | .error e => refuse (.ofMap e)

def unmapPage (space : SpaceId) (va : VirtAddr) : Paging Unit :=
  modify fun v => { v with mmu := v.mmu.unmap space va }

def isDirty (space : SpaceId) (va : VirtAddr) : Paging Bool :=
  gets fun v => v.mmu.isDirty space va

def setDirty (space : SpaceId) (va : VirtAddr) (dirty : Bool) : Paging Unit :=
  modify fun v => { v with mmu := v.mmu.setDirty space va dirty }

/-- Write the part of a physical page that belongs to a file back to it. -/
def writeBack (b : FileBacking) (pa : PhysAddr) : Paging Unit := do
  let bytes ← gets fun v => v.pool.page pa
  onFiles (b.writeBack bytes.toArray)

end VirtualMemory

end KernelCore
