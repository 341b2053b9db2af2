import KernelCore.Memory.Bitmap
import KernelCore.Memory.Bytes
import KernelCore.Memory.Stop

/-!
# The swap area

The swap device is divided into slots of one page each; the sectors left over at its end are
not used. A bitmap tells which slots are in use, and the lowest free slot is taken first. An
anonymous page that is put out of memory is kept in a slot until it is brought back.
-/
namespace KernelCore

/-- A slot of the swap area. -/
structure SwapSlot where
  index : Nat
  deriving DecidableEq, Repr

namespace SwapSlot

def firstSector (s : SwapSlot) : Nat := s.index * sectorsPerSlot

def text (s : SwapSlot) : String := "SwapSlot(" ++ toString s.index ++ ")"

end SwapSlot

/-- A block device. -/
structure Disk where
  sectors : Array SectorBytes

namespace Disk

def blank (count : Nat) : Disk := ⟨Array.replicate count (Vector.replicate sectorSize 0)⟩

/-- What an access to a sector that the device does not have is told. -/
def beyond (d : Disk) (i : Nat) : Violation :=
  .tooFewBytes ((i + 1) * sectorSize) (d.sectors.size * sectorSize)

def readSector (d : Disk) (i : Nat) : Except Violation SectorBytes :=
  match d.sectors[i]? with
  | some bytes => .ok bytes
  | none => .error (d.beyond i)

def writeSector (d : Disk) (i : Nat) (bytes : SectorBytes) : Except Violation Disk :=
  if i < d.sectors.size then .ok ⟨d.sectors.setIfInBounds i bytes⟩ else .error (d.beyond i)

end Disk

structure SwapArea where
  disk : Disk
  used : Bitmap

abbrev Swapping := Transition Stop SwapArea

namespace SwapArea

open Transition

/-- A swap area on a blank device. -/
def new (sectors : Nat) : SwapArea × List LogRecord :=
  let slots := sectors / sectorsPerSlot
  (⟨Disk.blank sectors, Bitmap.new slots⟩,
    [⟨.info, "swap: " ++ toString slots ++ " slots (" ++ toString sectorsPerSlot ++
      " sectors each)"⟩])

def capacity (a : SwapArea) : Nat := a.used.length

def usedCount (a : SwapArea) : Nat := a.used.countSet

/-- The value of a computation that may violate a contract. -/
def contract {α : Type} (x : Except Violation α) : Swapping α := ofExcept (x.mapError Stop.violated)

def isUsed (s : SwapSlot) : Swapping Bool := do
  let a ← get
  contract (a.used.test s.index)

/-- Take the lowest free slot. -/
def allocate : Swapping SwapSlot := do
  let a ← get
  match a.used.takeFirstClear with
  | (some i, used) =>
    modify fun a => { a with used }
    pure ⟨i⟩
  | (none, _) =>
    emit .error ("swap: out of slots (" ++ toString a.capacity ++ " in use)")
    refuse .outOfSwap

/-- Give a slot back, which must be in use. -/
def free (s : SwapSlot) : Swapping Unit := do
  let inUse ← isUsed s
  ensure (inUse = true) (.violated (.slotFreedTwice s.index))
  let a ← get
  let used ← contract (a.used.set s.index false)
  modify fun a => { a with used }

def readSector (i : Nat) : Swapping SectorBytes := do
  let a ← get
  contract (a.disk.readSector i)

def writeSector (i : Nat) (bytes : SectorBytes) : Swapping Unit := do
  let a ← get
  let disk ← contract (a.disk.writeSector i bytes)
  modify fun a => { a with disk }

/-- The given number of sectors from `first` on. -/
def readSectors (first : Nat) : Nat → Swapping (List SectorBytes)
  | 0 => pure []
  | count + 1 => do
    let sector ← readSector first
    let rest ← readSectors (first + 1) count
    pure (sector :: rest)

/-- Write exactly one page to a slot. -/
def write (s : SwapSlot) (bytes : Array UInt8) : Swapping Unit :=
  match PageBytes.ofArray? bytes with
  | none => violate .check
  | some page =>
    forAll (fun k => writeSector (s.firstSector + k.val) (page.sector k))
      (List.finRange sectorsPerSlot)

/-- Read a slot into a buffer of the given length, which must be that of a page. -/
def read (s : SwapSlot) (length : Nat) : Swapping PageBytes :=
  if length = pageSize then do
    let sectors ← readSectors s.firstSector sectorsPerSlot
    pure (PageBytes.ofSectors fun k => (sectors[k]?).getD (Vector.replicate sectorSize 0))
  else violate .check

/-! ## Anonymous pages -/

/-- Put an anonymous page out to a new slot. While it is in memory it has none. -/
def putOut (slot : Option SwapSlot) (bytes : Array UInt8) : Swapping SwapSlot := do
  ensure (slot = none) (.violated .residentWithSlot)
  let s ← allocate
  write s bytes
  emit .debug ("swap: out to slot " ++ toString s.index)
  pure s

/-- The contents an anonymous page comes back with: what was put out, or zeros if it never was.
It keeps the slot until it is mapped. -/
def bringIn (slot : Option SwapSlot) : Swapping PageBytes :=
  match slot with
  | none => pure PageBytes.zeros
  | some s => do
    let page ← read s pageSize
    emit .debug ("swap: in from slot " ++ toString s.index)
    pure page

/-- Give back the slot of an anonymous page, if it has one. -/
def release (slot : Option SwapSlot) : Swapping Unit :=
  match slot with
  | none => pure ()
  | some s => free s

end SwapArea

end KernelCore
