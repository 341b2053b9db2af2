import KernelCore.Parameters

/-!
# Page contents

The bytes of one page, and the sectors they are made of. Every operation is given byte by byte:
what byte `i` of the result is depends on `i` and on the operands' bytes only.
-/
namespace KernelCore

/-- The contents of one page. -/
abbrev PageBytes := Vector UInt8 pageSize

/-- The contents of one sector. -/
abbrev SectorBytes := Vector UInt8 sectorSize

namespace PageBytes

def filled (b : UInt8) : PageBytes := Vector.replicate pageSize b

def zeros : PageBytes := filled 0

instance : Inhabited PageBytes := ⟨zeros⟩

/-- The page with `bytes` written from `offset` on; what would go past its end is left out. -/
def overlay (page : PageBytes) (offset : Nat) (bytes : Array UInt8) : PageBytes :=
  Vector.ofFn fun i =>
    if offset ≤ i.val then (bytes[i.val - offset]?).getD page[i] else page[i]

/-- The page with zeros from `offset` on. -/
def zeroFrom (page : PageBytes) (offset : Nat) : PageBytes :=
  Vector.ofFn fun i => if offset ≤ i.val then 0 else page[i]

/-- The `count` bytes from `offset` on, as far as the page goes. -/
def slice (page : PageBytes) (offset count : Nat) : Array UInt8 :=
  page.toArray.extract offset (offset + count)

/-- One of the sectors of a page. -/
def sector (page : PageBytes) (k : Fin sectorsPerSlot) : SectorBytes :=
  Vector.ofFn fun j =>
    page.get ⟨k.val * sectorSize + j.val, by
      have hk : k.val < 8 := k.isLt
      have hj : j.val < 512 := j.isLt
      simp only [sectorSize, pageSize]
      omega⟩

/-- The page made of the given sectors. -/
def ofSectors (sector : Nat → SectorBytes) : PageBytes :=
  Vector.ofFn fun i =>
    (sector (i.val / sectorSize)).get ⟨i.val % sectorSize, Nat.mod_lt _ (by decide)⟩

/-- Bytes that make up exactly one page. -/
def ofArray? (bytes : Array UInt8) : Option PageBytes :=
  if h : bytes.size = pageSize then some ⟨bytes, h⟩ else none

theorem getElem_overlay (page : PageBytes) (offset : Nat) (bytes : Array UInt8) {i : Nat}
    (h : i < pageSize) :
    (page.overlay offset bytes)[i] =
      if offset ≤ i then (bytes[i - offset]?).getD page[i] else page[i] := by
  simp [overlay]

theorem getElem_zeroFrom (page : PageBytes) (offset : Nat) {i : Nat} (h : i < pageSize) :
    (page.zeroFrom offset)[i] = if offset ≤ i then 0 else page[i] := by
  simp [zeroFrom]

@[simp] theorem getElem_filled (b : UInt8) {i : Nat} (h : i < pageSize) : (filled b)[i] = b := by
  simp [filled]

end PageBytes

end KernelCore
