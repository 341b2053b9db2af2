import KernelCore.Paging.Allocate

/-!
# Copies of address spaces

A copy of an address space has the same pages and the same mapped regions. Pages that were never
loaded stay untouched in the copy, and a file page that is not in memory is loaded again from its
file. All other pages are copied at once. Finding a frame for the copy may put out the very page
that is copied, so where its contents are is looked up only afterwards.
-/
namespace KernelCore.VirtualMemory

open Transition

/-- How a page gets into a copy of its space. -/
inductive CopyPlan where
  | untouched (target : PageType) (loader : Loader)
  | atOnce (kind : PageKind)
  deriving DecidableEq

/-- How a page is copied, by what it is now. -/
def copyPlan (p : Page) : CopyPlan :=
  match p.kind with
  | .untouched target loader => .untouched target loader
  | .anonymous slot =>
    if p.isResident || slot.isSome then .atOnce (.anonymous none)
    else .untouched .anonymous .zeroFill
  | .file b => if p.isResident then .atOnce (.file b) else .untouched .file (.segment b)

/-- Copy what a page contains now to a physical page; tells whether the page was written to since
it was loaded. -/
def copyContents (space : SpaceId) (va : VirtAddr) (dst : PhysAddr) : Paging Bool := do
  let p ← pageAt space va
  match p.frame with
  | some f =>
    let x ← frame f
    modify fun v => { v with pool := v.pool.copy dst x.page }
    isDirty space va
  | none =>
    match p.kind with
    | .anonymous (some s) =>
      let bytes ← onSwap (SwapArea.read s pageSize)
      setPage dst bytes
      pure false
    | .file b =>
      filling dst b.bringIn
      pure false
    | _ => pure false

/-- Give the copy of a space a page of its own in memory. -/
def copyAtOnce (parent child : SpaceId) (va : VirtAddr) (p : Page) : Paging Unit := do
  enterPage child va p
  let f ← obtainFrame
  updateFrame f fun x => { x with owner := some ⟨child, va⟩ }
  let x ← frame f
  let r ← attempt (do
    let dirty ← copyContents parent va x.page
    mapPage child va x.page p.writable
    pure dirty)
  match r with
  | .error e =>
    freeFrame f
    refuse e
  | .ok dirty =>
    if dirty then setDirty child va true else pure ()
    setFrame child va (some f)

/-- Copy one page of a space. -/
def duplicatePage (parent child : SpaceId) (va : VirtAddr) : Paging Unit := do
  let v ← get
  match v.page? parent va with
  | none => refuse .notMapped
  | some p =>
    match copyPlan p with
    | .untouched target loader => allocateLazy child va p.writable target loader
    | .atOnce kind => copyAtOnce parent child va ⟨p.writable, none, kind⟩

/-- Copy all pages and regions of one space to another. If that fails the other space has some of
them and is of no use. -/
def duplicateSpace (parent child : SpaceId) : Paging Unit := do
  let v ← get
  match v.spaces.find? child, v.spaces.find? parent with
  | some _, some a =>
    forAll (duplicatePage parent child) a.pages.keys
    forAll (fun x => enterRegion child x.1 x.2) a.regions.entries
    emit .debug
      ("vm: duplicated space " ++ toString parent.number ++ " into " ++ toString child.number)
  | _, _ => refuse .noSuchSpace

end KernelCore.VirtualMemory
