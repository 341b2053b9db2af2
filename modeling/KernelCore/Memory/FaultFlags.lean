import KernelCore.Text.Numeral

/-!
# Page fault flags

The error code the processor pushes on a page fault. Bit 0 tells a page that is present, bit 1
a write, bit 2 an access from user mode; the other bits are kept but mean nothing here.
-/
namespace KernelCore

structure FaultFlags where
  bits : Nat
  deriving DecidableEq, Repr

namespace FaultFlags

/-- The flags of an access as a trap handler decodes it. -/
def ofParts (user write notPresent : Bool) : FaultFlags :=
  ⟨(if notPresent then 0 else 1) + (if write then 2 else 0) + (if user then 4 else 0)⟩

def isNotPresent (f : FaultFlags) : Bool := !f.bits.testBit 0

def isWrite (f : FaultFlags) : Bool := f.bits.testBit 1

def isUser (f : FaultFlags) : Bool := f.bits.testBit 2

/-- The bits without a meaning, as one number. -/
def unknown (f : FaultFlags) : Nat := f.bits / 8 * 8

/-- The set flags by name, in the order of their bits, then the unknown bits. -/
def text (f : FaultFlags) : String :=
  let named :=
    (if f.bits.testBit 0 then ["PRESENT"] else []) ++
      (if f.bits.testBit 1 then ["WRITE"] else []) ++
      (if f.bits.testBit 2 then ["USER"] else []) ++
      (if f.unknown ≠ 0 then [Text.hex f.unknown] else [])
  "FaultFlags(" ++ (if named = [] then "0x0" else " | ".intercalate named) ++ ")"

@[simp] theorem isUser_ofParts (u w n : Bool) : (ofParts u w n).isUser = u := by
  cases u <;> cases w <;> cases n <;> decide

@[simp] theorem isWrite_ofParts (u w n : Bool) : (ofParts u w n).isWrite = w := by
  cases u <;> cases w <;> cases n <;> decide

@[simp] theorem isNotPresent_ofParts (u w n : Bool) : (ofParts u w n).isNotPresent = n := by
  cases u <;> cases w <;> cases n <;> decide

end FaultFlags

end KernelCore
