import KernelCore.Memory.Bitmap

/-!
# A bitmap is a list of bits

What the operations on the packed words do to the bits that are packed into them.
-/
namespace KernelCore

namespace Word

variable {word : Word} {words : List Word} {w i k : Nat}

theorem bit_cons : bit (word :: words) k = if k < 64 then word.getLsbD k else bit words (k - 64) := by
  rw [bit_eq_getLsbD, bit_eq_getLsbD]
  by_cases first : k < 64
  · rw [if_pos first, Nat.div_eq_of_lt first, Nat.mod_eq_of_lt first]
    rfl
  · have place : k / 64 = (k - 64) / 64 + 1 := by omega
    have within : k % 64 = (k - 64) % 64 := by omega
    rw [if_neg first, place, within, List.getElem?_cons_succ]

/-- The trailing ones of a word that has a clear bit, and the clear bit behind them. -/
theorem trailing_ones (clear : word ≠ BitVec.allOnes 64) :
    (~~~word).ctz.toNat < 64 ∧ word.getLsbD (~~~word).ctz.toNat = false ∧
      ∀ k < (~~~word).ctz.toNat, word.getLsbD k = true := by
  have some : ~~~word ≠ 0#64 := by
    intro none
    refine clear ?_
    rw [← BitVec.not_not (b := word), none]
    rfl
  have below : (~~~word).ctz.toNat < 64 := BitVec.ctz_lt_iff_ne_zero.mpr some
  refine ⟨below, ?_, fun k less => ?_⟩
  · have here := BitVec.getLsbD_true_ctz_of_ne_zero some
    simpa [BitVec.getLsbD_not, below] using here
  · have before := BitVec.getLsbD_false_of_lt_ctz less
    simpa [BitVec.getLsbD_not, Nat.lt_trans less below] using before

theorem firstClear_eq_some (found : firstClear w words = some i) :
    ∃ j, i = w * 64 + j ∧ bit words j = false ∧ ∀ k < j, bit words k = true := by
  induction words generalizing w with
  | nil => cases found
  | cons word rest ih =>
    unfold firstClear at found
    split at found
    · rename_i full
      obtain ⟨j, rfl, clear, before⟩ := ih found
      refine ⟨64 + j, by omega, ?_, fun k less => ?_⟩
      · rw [bit_cons, if_neg (by omega), Nat.add_sub_cancel_left, clear]
      · rw [bit_cons]
        split
        · rename_i inside
          rw [full, BitVec.getLsbD_allOnes]
          exact decide_eq_true inside
        · exact before (k - 64) (by omega)
    · rename_i full
      obtain ⟨below, clear, before⟩ := trailing_ones full
      refine ⟨_, (Option.some.inj found).symm, ?_, fun k less => ?_⟩
      · rw [bit_cons, if_pos below, clear]
      · rw [bit_cons, if_pos (Nat.lt_trans less below)]
        exact before k less

theorem firstClear_eq_none (found : firstClear w words = none) (inside : k < 64 * words.length) :
    bit words k = true := by
  induction words generalizing w k with
  | nil => cases inside
  | cons word rest ih =>
    unfold firstClear at found
    split at found
    · rename_i full
      rw [bit_cons]
      split
      · rename_i first
        rw [full, BitVec.getLsbD_allOnes]
        exact decide_eq_true first
      · rw [List.length_cons] at inside
        exact ih found (by omega)
    · cases found

/-- The population count counts the bits. -/
theorem toNat_cpop (word : Word) : word.cpop.toNat = (List.range 64).countP word.getLsbD := by
  have upTo : ∀ n, word.cpopNatRec n 0 = (List.range n).countP word.getLsbD := by
    intro n
    induction n with
    | zero => rfl
    | succ n ih =>
      rw [BitVec.cpopNatRec_succ, BitVec.cpopNatRec_eq, ih, List.range_succ, List.countP_append,
        List.countP_singleton]
      cases word.getLsbD n <;> simp
  rw [BitVec.toNat_cpop, upTo]

theorem sum_cpop (words : List Word) :
    words.foldr (fun w n => w.cpop.toNat + n) 0 =
      (List.range (64 * words.length)).countP (bit words) := by
  induction words with
  | nil => rfl
  | cons word rest ih =>
    have first : (List.range 64).countP (bit (word :: rest)) = (List.range 64).countP word.getLsbD := by
      refine List.countP_congr fun k inside => ?_
      rw [bit_cons, if_pos (List.mem_range.mp inside)]
    have others : bit (word :: rest) ∘ (64 + ·) = bit rest := by
      funext k
      rw [Function.comp_apply, bit_cons, if_neg (by omega), Nat.add_sub_cancel_left]
    have all : 64 * (word :: rest).length = 64 + 64 * rest.length := by
      rw [List.length_cons]
      omega
    rw [all, List.range_add, List.countP_append, List.countP_map, others, first, List.foldr_cons,
      ih, toNat_cpop]

end Word

namespace Bitmap

variable {b : Bitmap} {i j : Nat}

/-- The bits of the map, lowest first. -/
def bits (b : Bitmap) : List Bool := (List.range b.length).map (Word.bit b.words)

@[simp] theorem length_bits : b.bits.length = b.length := by
  rw [bits, List.length_map, List.length_range]

theorem getElem?_bits (inside : i < b.length) : b.bits[i]? = some (Word.bit b.words i) := by
  rw [bits, List.getElem?_map, List.getElem?_range inside, Option.map_some]

theorem getElem?_bits_eq_none (outside : ¬i < b.length) : b.bits[i]? = none :=
  List.getElem?_eq_none (by rw [length_bits]; exact Nat.le_of_not_lt outside)

@[simp] theorem length_new (length : Nat) : (new length).length = length := rfl

@[simp] theorem bits_new (length : Nat) : (new length).bits = List.replicate length false := by
  refine List.eq_replicate_iff.mpr ⟨length_bits, fun bit member => ?_⟩
  obtain ⟨i, -, rfl⟩ := List.mem_map.mp member
  rw [Word.bit_eq_getLsbD, new, List.getElem?_replicate]
  split <;> simp

@[simp] theorem length_put (inside : i < b.length) {value : Bool} :
    (b.put i inside value).length = b.length := rfl

@[simp] theorem bits_put (inside : i < b.length) {value : Bool} :
    (b.put i inside value).bits = b.bits.set i value := by
  have word : i / 64 < b.words.length := by
    have := b.sized
    omega
  refine List.ext_getElem? fun j => ?_
  rw [List.getElem?_set]
  by_cases within : j < b.length
  · rw [getElem?_bits (b := b.put i inside value) within, getElem?_bits within]
    have written : Word.bit (b.put i inside value).words j =
        if j = i then value else Word.bit b.words j := Word.bit_setBit word value j
    rw [written]
    by_cases same : j = i
    · rw [if_pos same, if_pos same.symm, length_bits, if_pos inside]
    · rw [if_neg same, if_neg (Ne.symm same)]
  · rw [getElem?_bits_eq_none (b := b.put i inside value) within, getElem?_bits_eq_none within,
      if_neg (by omega)]

theorem test_of_bit {value : Bool} (known : b.bits[i]? = some value) : b.test i = .ok value := by
  have inside : i < b.length := by
    rw [← length_bits]
    exact (List.getElem?_eq_some_iff.mp known).1
  rw [getElem?_bits inside] at known
  unfold test
  rw [if_pos inside, Option.some.inj known]

theorem set_of_lt (inside : i < b.length) (value : Bool) : b.set i value = .ok (b.put i inside value) :=
  dif_pos inside

/-- The lowest clear bit is taken, if there is one. -/
theorem takeFirstClear_eq (b : Bitmap) :
    (∀ i : Nat, b.bits[i]? ≠ some false) ∧ b.takeFirstClear = (none, b) ∨
      ∃ i, ∃ inside : i < b.length, b.bits[i]? = some false ∧
        (∀ j < i, b.bits[j]? = some true) ∧ b.takeFirstClear = (some i, b.put i inside true) := by
  unfold takeFirstClear
  cases found : Word.firstClear 0 b.words with
  | none =>
    refine .inl ⟨fun i clear => ?_, rfl⟩
    have inside : i < b.length := by
      rw [← length_bits]
      exact (List.getElem?_eq_some_iff.mp clear).1
    have sized := b.sized
    rw [getElem?_bits inside, Word.firstClear_eq_none found (by omega)] at clear
    cases clear
  | some i =>
    obtain ⟨j, place, clear, before⟩ := Word.firstClear_eq_some found
    rw [Nat.zero_mul, Nat.zero_add] at place
    subst place
    dsimp only
    by_cases inside : i < b.length
    · refine .inr ⟨i, inside, ?_, fun k less => ?_, dif_pos inside⟩
      · rw [getElem?_bits inside, clear]
      · rw [getElem?_bits (by omega), before k less]
    · refine .inl ⟨fun k free => ?_, dif_neg inside⟩
      have within : k < b.length := by
        rw [← length_bits]
        exact (List.getElem?_eq_some_iff.mp free).1
      rw [getElem?_bits within, before k (by omega)] at free
      cases free

theorem countSet_eq (b : Bitmap) : b.countSet = b.bits.countP (· == true) := by
  have sized := b.sized
  obtain ⟨rest, total⟩ : ∃ rest, 64 * b.words.length = b.length + rest :=
    ⟨64 * b.words.length - b.length, by omega⟩
  have clear : ((List.range rest).map (b.length + ·)).countP (Word.bit b.words) = 0 := by
    rw [List.countP_eq_zero]
    intro i member
    obtain ⟨k, -, rfl⟩ := List.mem_map.mp member
    rw [b.trimmed _ (Nat.le_add_right _ _)]
    exact Bool.false_ne_true
  unfold countSet bits
  rw [Word.sum_cpop, total, List.range_add, List.countP_append, clear, Nat.add_zero, List.countP_map]
  refine List.countP_congr fun i _ => ?_
  simp

end Bitmap

end KernelCore
