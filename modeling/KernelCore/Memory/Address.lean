import KernelCore.Arithmetic
import KernelCore.Table
import KernelCore.Text.Numeral

/-!
# Addresses

Physical and virtual addresses and their page arithmetic. Addresses are below `addressLimit`;
the operations that could leave that range are checked.
-/
namespace KernelCore

/-- The address of a page of physical memory. -/
structure PhysAddr where
  toNat : Nat
  deriving DecidableEq, Repr, Inhabited

/-- An address of a user program. -/
structure VirtAddr where
  toNat : Nat
  deriving DecidableEq, Repr, Inhabited

instance : Ranked PhysAddr where
  rank a := a.toNat
  rank_injective := by
    rintro ⟨a⟩ ⟨b⟩ h
    exact congrArg PhysAddr.mk (Int.ofNat.inj h)

instance : Ranked VirtAddr where
  rank a := a.toNat
  rank_injective := by
    rintro ⟨a⟩ ⟨b⟩ h
    exact congrArg VirtAddr.mk (Int.ofNat.inj h)

/-- The number of an address space. -/
structure SpaceId where
  number : Nat
  deriving DecidableEq, Repr, Inhabited

instance : Ranked SpaceId where
  rank a := a.number
  rank_injective := by
    rintro ⟨a⟩ ⟨b⟩ h
    exact congrArg SpaceId.mk (Int.ofNat.inj h)

namespace PhysAddr

def isAligned (a : PhysAddr) : Bool := a.toNat % pageSize = 0

/-- The start of the page an address lies in. -/
def floor (a : PhysAddr) : PhysAddr := ⟨a.toNat / pageSize * pageSize⟩

def text (a : PhysAddr) : String := Text.hex a.toNat

def description (a : PhysAddr) : String := "PA(" ++ a.text ++ ")"

end PhysAddr

namespace VirtAddr

def isAligned (a : VirtAddr) : Bool := a.toNat % pageSize = 0

/-- The start of the page an address lies in. -/
def floor (a : VirtAddr) : VirtAddr := ⟨a.toNat / pageSize * pageSize⟩

/-- The first page start at or above an address. -/
def ceil (a : VirtAddr) : Except ArithmeticFault VirtAddr :=
  (addWords a.toNat (pageSize - 1)).map fun n => floor ⟨n⟩

/-- The distance from the start of its page. -/
def pageOffset (a : VirtAddr) : Nat := a.toNat % pageSize

def pageNumber (a : VirtAddr) : Nat := a.toNat / pageSize

def isUser (a : VirtAddr) : Bool := a.toNat < kernelBase

def isKernel (a : VirtAddr) : Bool := !a.isUser

/-- The address `n` bytes further on, unless there is none. -/
def add? (a : VirtAddr) (n : Nat) : Option VirtAddr :=
  (addWords a.toNat n).toOption.map VirtAddr.mk

/-- The address `n` pages further on. -/
def addPages (a : VirtAddr) (n : Nat) : Except ArithmeticFault VirtAddr := do
  let bytes ← mulWords n pageSize
  let sum ← addWords a.toNat bytes
  pure ⟨sum⟩

def text (a : VirtAddr) : String := Text.hex a.toNat

def description (a : VirtAddr) : String := "VA(" ++ a.text ++ ")"

end VirtAddr

/-- The number of pages that hold `length` bytes. -/
def pagesFor (length : Nat) : Except ArithmeticFault Nat :=
  (addWords length (pageSize - 1)).map (· / pageSize)

theorem pageSize_pos : 0 < pageSize := by decide

@[simp] theorem VirtAddr.isAligned_floor (a : VirtAddr) : a.floor.isAligned = true := by
  simp [VirtAddr.isAligned, VirtAddr.floor]

theorem VirtAddr.floor_of_isAligned {a : VirtAddr} (h : a.isAligned = true) : a.floor = a := by
  obtain ⟨n⟩ := a
  simp only [VirtAddr.isAligned, decide_eq_true_eq] at h
  simp only [VirtAddr.floor, VirtAddr.mk.injEq]
  exact Nat.div_mul_cancel (Nat.dvd_of_mod_eq_zero h)

@[simp] theorem VirtAddr.floor_floor (a : VirtAddr) : a.floor.floor = a.floor :=
  VirtAddr.floor_of_isAligned a.isAligned_floor

/-- Byte number `i` from the start of a page on is in page number `i / pageSize`. -/
theorem VirtAddr.page_of_byte {start : VirtAddr} (aligned : start.isAligned = true) {a i : Nat}
    (place : a = start.toNat + i) :
    (⟨a⟩ : VirtAddr).floor = ⟨start.toNat + i / pageSize * pageSize⟩ ∧
      (⟨a⟩ : VirtAddr).pageOffset = i % pageSize := by
  simp only [isAligned, decide_eq_true_eq] at aligned
  simp only [floor, pageOffset, pageSize, mk.injEq] at *
  omega

end KernelCore
