import KernelCore.Violation

/-!
# Bitmaps

A fixed number of bits, packed into words of 64 bits. The bits of the last word that do not belong
to the map are never set.
-/
namespace KernelCore

/-- Sixty-four bits, counted from the lowest. -/
abbrev Word := BitVec 64

namespace Word

/-- The place of bit `i` of a row of words within its word. -/
def mask (i : Nat) : Word := 1#64 <<< (i % 64)

/-- Bit `i` of a row of words; behind the last word all bits are clear. -/
def bit (words : List Word) (i : Nat) : Bool := (words[i / 64]?).getD 0#64 &&& mask i != 0#64

/-- A row of words with another value of bit `i`. -/
def setBit (words : List Word) (i : Nat) (value : Bool) : List Word :=
  words.modify (i / 64) fun w => if value then w ||| mask i else w &&& ~~~mask i

/-- The lowest clear bit of a row of words, the first of which is number `w`. -/
def firstClear : Nat → List Word → Option Nat
  | _, [] => none
  | w, word :: rest =>
    if word = BitVec.allOnes 64 then firstClear (w + 1) rest
    else some (w * 64 + (~~~word).ctz.toNat)

theorem getLsbD_mask (i j : Nat) : (mask i).getLsbD j = decide (i % 64 = j) := by
  have below : i % 64 < 64 := Nat.mod_lt i (by decide)
  have power : mask i = BitVec.twoPow 64 (i % 64) := rfl
  rw [power, BitVec.getLsbD_twoPow]
  simp [below]

theorem bit_eq_getLsbD (words : List Word) (i : Nat) :
    bit words i = ((words[i / 64]?).getD 0#64).getLsbD (i % 64) := by
  have power : mask i = BitVec.twoPow 64 (i % 64) := rfl
  have below : i % 64 < 64 := Nat.mod_lt i (by decide)
  unfold bit
  rw [power, BitVec.and_twoPow]
  cases ((words[i / 64]?).getD 0#64).getLsbD (i % 64) with
  | false => rfl
  | true =>
    rw [if_pos rfl, bne_iff_ne]
    intro none
    have same := congrArg (BitVec.getLsbD · (i % 64)) none
    simp [below] at same

theorem getLsbD_or_mask (w : Word) (i j : Nat) :
    (w ||| mask i).getLsbD j = if i % 64 = j then true else w.getLsbD j := by
  rw [BitVec.getLsbD_or, getLsbD_mask]
  by_cases here : i % 64 = j <;> simp [here]

theorem getLsbD_and_not_mask (w : Word) (i j : Nat) :
    (w &&& ~~~mask i).getLsbD j = if i % 64 = j then false else w.getLsbD j := by
  rw [BitVec.getLsbD_and, BitVec.getLsbD_not, getLsbD_mask]
  by_cases here : i % 64 = j
  · simp [here]
  · by_cases below : j < 64
    · simp [here, below]
    · rw [BitVec.getLsbD_of_ge w j (Nat.le_of_not_lt below)]
      simp

theorem bit_setBit {words : List Word} {i : Nat} (inside : i / 64 < words.length) (value : Bool)
    (j : Nat) : bit (setBit words i value) j = if j = i then value else bit words j := by
  rw [bit_eq_getLsbD, bit_eq_getLsbD]
  unfold setBit
  rw [List.getElem?_modify]
  by_cases word : i / 64 = j / 64
  · have place : i % 64 = j % 64 ↔ j = i := by omega
    simp only [← word, List.getElem?_eq_getElem inside, if_true, Option.map_eq_map, Option.map_some,
      Option.getD_some, ← place]
    cases value
    · exact getLsbD_and_not_mask _ i (j % 64)
    · exact getLsbD_or_mask _ i (j % 64)
  · have other : j ≠ i := by
      rintro rfl
      exact word rfl
    simp [word, other]

end Word

/-- A fixed number of bits. -/
structure Bitmap where
  length : Nat
  words : List Word
  sized : words.length = (length + 63) / 64
  trimmed : ∀ i, length ≤ i → Word.bit words i = false
  deriving DecidableEq, Repr

namespace Bitmap

/-- All bits clear. -/
def new (length : Nat) : Bitmap where
  length := length
  words := List.replicate ((length + 63) / 64) 0#64
  sized := List.length_replicate
  trimmed i _ := by
    rw [Word.bit_eq_getLsbD, List.getElem?_replicate]
    split <;> simp

def isEmpty (b : Bitmap) : Bool := b.length == 0

def test (b : Bitmap) (i : Nat) : Except Violation Bool :=
  if i < b.length then .ok (Word.bit b.words i) else .error (.bitOutOfRange i)

/-- Another value of one of the bits. -/
def put (b : Bitmap) (i : Nat) (inside : i < b.length) (value : Bool) : Bitmap where
  length := b.length
  words := Word.setBit b.words i value
  sized := by
    rw [← b.sized]
    exact List.length_modify ..
  trimmed j beyond := by
    rw [Word.bit_setBit (by have := b.sized; omega), if_neg (by omega)]
    exact b.trimmed j beyond

def set (b : Bitmap) (i : Nat) (value : Bool) : Except Violation Bitmap :=
  if inside : i < b.length then .ok (b.put i inside value) else .error (.bitOutOfRange i)

/-- The lowest clear bit, which is set. -/
def takeFirstClear (b : Bitmap) : Option Nat × Bitmap :=
  match Word.firstClear 0 b.words with
  | none => (none, b)
  | some i => if inside : i < b.length then (some i, b.put i inside true) else (none, b)

def countSet (b : Bitmap) : Nat := b.words.foldr (fun w n => w.cpop.toNat + n) 0

end Bitmap

end KernelCore
