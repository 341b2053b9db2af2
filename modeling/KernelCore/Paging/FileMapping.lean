import KernelCore.Paging.Allocate
import KernelCore.Paging.Discard

/-!
# Files mapped into memory

A mapping shows a stretch of a file as pages of an address space. It opens the file afresh, so it
stays when whoever mapped the file closes it. Past the end of the file the pages read as zeros.
-/
namespace KernelCore.VirtualMemory

open Transition

/-- The pages that start at an aligned address. -/
def pageStarts (start : VirtAddr) (count : Nat) : List VirtAddr :=
  (List.range count).map fun i => ⟨start.toNat + i * pageSize⟩

/-- Map `length` bytes of a file from `offset` on to an aligned address of user memory. Nothing
is mapped unless all of it can be. -/
def mapFile (space : SpaceId) (start : VirtAddr) (length : Nat) (writable : Bool)
    (file : DescriptionId) (offset : Nat) : Paging VirtAddr := do
  if start.toNat = 0 ∨ start.isAligned = false ∨ length = 0 ∨ offset % pageSize ≠ 0 then
    emit .warn
      ("mmap: bad arguments addr=" ++ start.text ++ " length=" ++ toString length ++ " offset=" ++
        toString offset)
    refuse .invalidArgument
  else
    match start.add? (length - 1) with
    | none => refuse .invalidArgument
    | some last =>
      if last.isUser = false then
        emit .warn ("mmap: " ++ start.text ++ ".." ++ last.text ++ " reaches kernel space")
        refuse .invalidArgument
      else
        mapUserRange space start length writable file offset
where
  /-- The mapping of a range of user memory. -/
  mapUserRange (space : SpaceId) (start : VirtAddr) (length : Nat) (writable : Bool)
      (file : DescriptionId) (offset : Nat) : Paging VirtAddr := do
    let fileLength ← gets fun v => v.files.length file
    if fileLength = 0 then
      emit .warn "mmap: empty file"
      refuse .invalidArgument
    else
      let pageCount ← checked (pagesFor length)
      let v ← get
      match v.spaces.find? space with
      | none => refuse .noSuchSpace
      | some a =>
        if a.occupied start pageCount then
          emit .warn ("mmap: " ++ start.text ++ " overlaps an existing mapping")
          refuse .alreadyMapped
        else
          let opened ← modifyGet fun v =>
            let (opened, files) := v.files.reopen file
            (opened, { v with files })
          match opened with
          | none => refuse .io
          | some own =>
            forRange
              (fun i => do
                let b ← checked
                  (FileBacking.ofStretch own offset (min length (fileLength - offset)) i)
                let va ← checked (start.addPages i)
                enterPage space va (.fresh writable .file (.segment b)))
              0 pageCount
            enterRegion space start ⟨pageCount, own⟩
            modify fun v => { v with files := v.files.release own }
            emit .debug
              ("mmap: space " ++ toString space.number ++ " " ++ toString pageCount ++
                " pages at " ++ start.text ++ " (offset " ++ toString offset ++ ", " ++
                (if writable then "rw" else "ro") ++ ")")
            pure start

/-- Take back the mapping that starts at an address. Its pages are file pages, so none of them has
a slot to give back. -/
def unmapFile (space : SpaceId) (start : VirtAddr) : Paging Unit := do
  let v ← get
  match v.spaces.find? space with
  | none => refuse .noSuchSpace
  | some a =>
    match a.regions.find? start with
    | none => refuse .notMapped
    | some r =>
      let d ← discardPages "mmap" false space (pageStarts start r.pageCount)
      dropRegion space start
      emit .debug
        ("mmap: space " ++ toString space.number ++ " unmapped " ++ toString r.pageCount ++
          " pages at " ++ start.text ++ ", " ++ toString d.writtenBack ++ " written back")

end KernelCore.VirtualMemory
