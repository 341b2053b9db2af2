import Mathlib.Algebra.Order.Round
import Mathlib.Data.Rat.Floor
import Mathlib.Tactic.Linarith
import KernelCore.Fixed

/-!
# Rounding

A number is rounded in 32 bits, or multiplied by an integer and then rounded in 64 bits. Both ways
yield the integer nearest to the exact value, and of two equally near ones the one further from
zero. In 64 bits there is always room for that. In 32 bits the half of one that is added first does
not fit next to the ends of the range: there rounding fails, and nowhere else.
-/
namespace KernelCore

/-- No integer is nearer to the number, and no equally near one is further from zero. -/
structure Nearest (q : ℚ) (n : Int) : Prop where
  least : ∀ m : Int, |q - n| ≤ |q - m|
  away : ∀ m : Int, |q - m| = |q - n| → |m| ≤ |n|

namespace Nearest

variable {q q' : ℚ} {n n' : Int}

theorem neg (h : Nearest q n) : Nearest (-q) (-n) := by
  have mirror : ∀ m : Int, |-q - m| = |q - (-m : Int)| := by
    intro m
    rw [← abs_neg]
    push_cast
    congr 1
    ring
  constructor
  case least =>
    intro m
    rw [mirror, mirror, neg_neg]
    exact h.least (-m)
  case away =>
    intro m tie
    rw [mirror, mirror, neg_neg] at tie
    rw [abs_neg, ← abs_neg m]
    exact h.away (-m) tie

/-- Above zero, rounding halves up is rounding them away from zero. -/
theorem of_nonneg (nonneg : 0 ≤ q) : Nearest q (round q) := by
  have half := abs_sub_round q
  constructor
  case least => exact round_le q
  case away =>
    intro m tie
    rw [← tie, abs_le] at half
    have below : m ≤ round q := by
      rw [round_eq, Int.le_floor]
      linarith
    have above : 0 ≤ m := by
      have larger : ((-1 : Int) : ℚ) < m := by
        push_cast
        linarith
      exact Int.cast_lt.mp larger
    rw [abs_of_nonneg above, abs_of_nonneg (above.trans below)]
    exact below

/-- If a smaller integer is no nearer, the number is not below the middle of the two. -/
theorem middle_le (h : Nearest q n) {m : Int} (less : m < n) : (m + n : ℚ) ≤ 2 * q := by
  have less : (m : ℚ) < n := by exact_mod_cast less
  by_contra below
  have near : |q - m| < |q - n| := by
    rw [abs_sub_comm q n, abs_of_pos (by linarith : 0 < n - q), abs_lt]
    constructor <;> linarith
  exact absurd (h.least m) (not_le.mpr near)

/-- Rounding keeps the order. -/
theorem le (h : Nearest q n) (h' : Nearest q' n') (ordered : q ≤ q') : n ≤ n' := by
  by_contra greater
  have greater : n' < n := not_le.mp greater
  have low := h.middle_le greater
  have high := h'.neg.middle_le (neg_lt_neg greater)
  push_cast at high
  -- Both numbers are in the middle, where each of the two integers is the further one from zero.
  have middle : 2 * q = n' + n := by linarith
  have middle' : q' = q := by linarith
  subst middle'
  have tie : |q' - n'| = |q' - n| := by
    rw [show q' - n' = -(q' - n) by linarith, abs_neg]
  have same : |n'| = |n| := le_antisymm (h.away n' tie) (h'.away n tie.symm)
  obtain equal | opposite := abs_eq_abs.mp same
  · omega
  · have zero : q' = 0 := by
      rw [opposite] at middle
      push_cast at middle
      linarith
    have nearer := h.least 0
    rw [zero] at nearer
    simp at nearer
    omega

/-- There is no other nearest integer. -/
theorem iff_eq (h : Nearest q n) : Nearest q n' ↔ n' = n := by
  constructor
  · intro h'
    exact le_antisymm (h'.le h le_rfl) (h.le h' le_rfl)
  · rintro rfl
    exact h

end Nearest

/-- The fraction of `a / k` is too small to be noticed when the whole is rounded down. -/
theorem round_quotient (a : Int) (k : Nat) :
    round ((a : ℚ) / (k * 2 ^ 14)) = (a / (k : Int) + 8192) / 16384 := by
  have halves : (a : ℚ) / (k * 2 ^ 14) + 1 / 2 = ((a : ℚ) / k + (8192 : Int)) / (16384 : Nat) := by
    rw [← div_div]
    push_cast
    ring
  rw [round_eq, halves, Int.floor_div_natCast, Int.floor_add_intCast,
    Rat.floor_intCast_div_natCast]
  rfl

/-- An integer in the range of 64 bits, or the given fault. -/
def fit64 (fault : ArithmeticFault) (n : Int) : Except ArithmeticFault Int :=
  if -9223372036854775808 ≤ n ∧ n ≤ 9223372036854775807 then .ok n else .error fault

theorem fit32_of_fits {fault : ArithmeticFault} {n : Int} (low : -2147483648 ≤ n)
    (high : n ≤ 2147483647) : fit32 fault n = .ok n :=
  if_pos ⟨low, high⟩

theorem fit64_of_fits {fault : ArithmeticFault} {n : Int} (low : -9223372036854775808 ≤ n)
    (high : n ≤ 9223372036854775807) : fit64 fault n = .ok n :=
  if_pos ⟨low, high⟩

namespace Fixed

/-- The number a fixed-point number stands for. -/
def value (x : Fixed) : ℚ := x.raw / 2 ^ 14

/-- The raw value `a` rounded to an integer: half of one is added on the side away from zero, and
the fraction is left out. -/
def rounded (a : Int) : Int :=
  if 0 ≤ a then (a + scale / 2).tdiv scale else (a - scale / 2).tdiv scale

/-! ## The nearest integer -/

theorem rounded_of_nonneg {a : Int} (nonneg : 0 ≤ a) : rounded a = (a + 8192) / 16384 := by
  unfold rounded scale
  rw [if_pos nonneg]
  exact Int.tdiv_eq_ediv_of_nonneg (by omega)

theorem rounded_neg (a : Int) : rounded (-a) = -rounded a := by
  have mirror : ∀ b : Int, 0 < b → rounded (-b) = -rounded b := by
    intro b positive
    have opposite : -b - scale / 2 = -(b + scale / 2) := by omega
    unfold rounded
    rw [if_neg (by omega), if_pos (by omega), opposite, Int.neg_tdiv]
  obtain positive | rfl | negative := Int.lt_trichotomy 0 a
  · exact mirror a positive
  · rfl
  · rw [← neg_neg (rounded (-a)), ← mirror (-a) (by omega), neg_neg]

/-- Rounding does not leave the integers that a number lies between. -/
theorem rounded_bounds {a lower upper : Int} (above : lower * scale ≤ a)
    (below : a ≤ upper * scale) : lower ≤ rounded a ∧ rounded a ≤ upper := by
  unfold scale at above below
  obtain nonneg | negative := le_or_gt 0 a
  · rw [rounded_of_nonneg nonneg]
    omega
  · rw [← neg_neg a, rounded_neg, rounded_of_nonneg (by omega)]
    omega

/-- Leaving out the fraction of a quotient before it is rounded changes nothing. -/
theorem nearest_rounded_tdiv (a : Int) (k : Nat) :
    Nearest ((a : ℚ) / (k * 2 ^ 14)) (rounded (a.tdiv k)) := by
  have above : ∀ b : Int, 0 ≤ b → Nearest ((b : ℚ) / (k * 2 ^ 14)) (rounded (b.tdiv k)) := by
    intro b nonneg
    have quotient : 0 ≤ b / (k : Int) := Int.ediv_nonneg nonneg (Int.natCast_nonneg k)
    rw [Int.tdiv_eq_ediv_of_nonneg nonneg, rounded_of_nonneg quotient, ← round_quotient]
    exact .of_nonneg (by positivity)
  obtain nonneg | negative := le_or_gt 0 a
  · exact above a nonneg
  · have mirrored := (above (-a) (by omega)).neg
    rw [Int.neg_tdiv, rounded_neg, neg_neg] at mirrored
    push_cast at mirrored
    rw [neg_div, neg_neg] at mirrored
    exact mirrored

theorem nearest_rounded (a : Int) : Nearest ((a : ℚ) / 2 ^ 14) (rounded a) := by
  have whole := nearest_rounded_tdiv a 1
  simpa using whole

/-! ## In 32 and in 64 bits -/

variable {x : Fixed}

theorem round_of_room (low : -2147475456 ≤ x.raw) (high : x.raw < 2147475456) :
    x.round = .ok (rounded x.raw) := by
  unfold round rounded
  by_cases nonneg : 0 ≤ x.raw
  · have fits : fit32 .addition (x.raw + scale / 2) = .ok (x.raw + scale / 2) :=
      fit32_of_fits (by unfold scale; omega) (by unfold scale; omega)
    rw [if_pos nonneg, if_pos nonneg, fits]
    rfl
  · have fits : fit32 .subtraction (x.raw - scale / 2) = .ok (x.raw - scale / 2) :=
      fit32_of_fits (by unfold scale; omega) (by unfold scale; omega)
    rw [if_neg nonneg, if_neg nonneg, fits]
    rfl

theorem round_of_large (large : 2147475456 ≤ x.raw) : x.round = .error .addition := by
  have full : fit32 .addition (x.raw + scale / 2) = .error .addition :=
    if_neg (by unfold scale; omega)
  unfold round
  rw [if_pos (by omega), full]
  rfl

theorem round_of_small (small : x.raw < -2147475456) : x.round = .error .subtraction := by
  have full : fit32 .subtraction (x.raw - scale / 2) = .error .subtraction :=
    if_neg (by unfold scale; omega)
  unfold round
  rw [if_neg (by omega), full]
  rfl

theorem roundScaled_eq_rounded (x : Fixed) (n : Int) : x.roundScaled n = rounded (x.raw * n) := rfl

theorem nearest_roundScaled (x : Fixed) (n : Int) : Nearest (x.value * n) (x.roundScaled n) := by
  have product : x.value * n = ((x.raw * n : Int) : ℚ) / 2 ^ 14 := by
    unfold value
    push_cast
    ring
  rw [product, roundScaled_eq_rounded]
  exact nearest_rounded (x.raw * n)

/-- `roundScaled` with every step made in 64 bits. -/
def roundScaledIn64 (x : Fixed) (n : Int) : Except ArithmeticFault Int := do
  let product ← fit64 .multiplication (x.raw * n)
  let biased ←
    if 0 ≤ product then fit64 .addition (product + scale / 2)
    else fit64 .subtraction (product - scale / 2)
  fit64 .division (biased.tdiv scale)

/-- A product of two 32-bit integers leaves a bit of 64 free. -/
theorem roundScaledIn64_eq {n : Int} (low : -2147483648 ≤ n) (high : n ≤ 2147483647) :
    x.roundScaledIn64 n = .ok (x.roundScaled n) := by
  have small : (x.raw * n).natAbs ≤ 2147483648 * 2147483648 := by
    have lower := x.lower
    have upper := x.upper
    rw [Int.natAbs_mul]
    exact Nat.mul_le_mul (by omega) (by omega)
  have product : fit64 .multiplication (x.raw * n) = .ok (x.raw * n) :=
    fit64_of_fits (by omega) (by omega)
  have quotient : ∀ b : Int, b.natAbs ≤ 2147483648 * 2147483648 + 8192 →
      fit64 .division (b.tdiv scale) = .ok (b.tdiv scale) := by
    intro b bounded
    have shrinks := Int.natAbs_tdiv_le_natAbs b scale
    exact fit64_of_fits (by omega) (by omega)
  unfold roundScaledIn64
  rw [product, roundScaled_eq_rounded]
  unfold rounded
  by_cases nonneg : 0 ≤ x.raw * n
  · have biased : fit64 .addition (x.raw * n + scale / 2) = .ok (x.raw * n + scale / 2) :=
      fit64_of_fits (by unfold scale; omega) (by unfold scale; omega)
    rw [if_pos nonneg, ← quotient _ (by unfold scale; omega)]
    simp only [bind, Except.bind, if_pos nonneg, biased]
  · have biased : fit64 .subtraction (x.raw * n - scale / 2) = .ok (x.raw * n - scale / 2) :=
      fit64_of_fits (by unfold scale; omega) (by unfold scale; omega)
    rw [if_neg nonneg, ← quotient _ (by unfold scale; omega)]
    simp only [bind, Except.bind, if_neg nonneg, biased]

/-- Rounding in 32 bits agrees with rounding in 64 bits up to the last half of one on either side of
the range, where it fails, and both yield the nearest integer. -/
theorem roundings_agree (x : Fixed) :
    (-131071.5 ≤ x.value → x.value < 131071.5 → x.round = .ok (x.roundScaled 1)) ∧
    (131071.5 ≤ x.value → x.round = .error .addition) ∧
    (x.value < -131071.5 → x.round = .error .subtraction) ∧
    ∀ n, -2147483648 ≤ n → n ≤ 2147483647 →
      x.roundScaledIn64 n = .ok (x.roundScaled n) ∧
        ∀ m, Nearest (x.value * n) m ↔ m = x.roundScaled n := by
  have once : x.roundScaled 1 = rounded x.raw := congrArg rounded (Int.mul_one x.raw)
  have above : 131071.5 ≤ x.value ↔ 2147475456 ≤ x.raw := by
    rw [value, le_div_iff₀ (by norm_num)]
    norm_num
    exact_mod_cast Iff.rfl
  have below : -131071.5 ≤ x.value ↔ -2147475456 ≤ x.raw := by
    rw [value, le_div_iff₀ (by norm_num)]
    norm_num
    exact_mod_cast Iff.rfl
  refine ⟨?_, ?_, ?_, ?_⟩
  · intro low high
    rw [once]
    exact round_of_room (below.mp low) (not_le.mp (mt above.mpr (not_le.mpr high)))
  · intro large
    exact round_of_large (above.mp large)
  · intro small
    exact round_of_small (not_le.mp (mt below.mpr (not_le.mpr small)))
  · intro n low high
    exact ⟨roundScaledIn64_eq low high, fun _ => (nearest_roundScaled x n).iff_eq⟩

/-- The lowest number that can be rounded in 32 bits, half way between two integers. -/
def lowestRoundable : Fixed := ⟨-2147475456, by decide, by decide⟩

theorem roundings_agree_lowest :
    (-131071.5 ≤ lowestRoundable.value ∧ lowestRoundable.value < 131071.5) ∧
      lowestRoundable.round = .ok (-131072) ∧
      lowestRoundable.roundScaledIn64 2147483647 = .ok (-281473902837761) ∧
      Nearest (lowestRoundable.value * 2147483647) (-281473902837761) := by
  have low : -131071.5 ≤ lowestRoundable.value := by norm_num [value, lowestRoundable]
  have high : lowestRoundable.value < 131071.5 := by norm_num [value, lowestRoundable]
  have once : lowestRoundable.roundScaled 1 = -131072 := by decide
  have scaled : lowestRoundable.roundScaled 2147483647 = -281473902837761 := by decide
  obtain ⟨agrees, -, -, wide⟩ := roundings_agree lowestRoundable
  obtain ⟨fits, nearest⟩ := wide 2147483647 (by decide) (by decide)
  have product := (nearest _).mpr rfl
  rw [scaled] at fits product
  rw [← once]
  exact ⟨⟨low, high⟩, agrees low high, fits, mod_cast product⟩

def largest : Fixed := ⟨2147483647, by decide, by decide⟩

/-- The nearest integer fits into 32 bits, but half of one more than the number does not. -/
theorem round_largest :
    largest.round = .error .addition ∧ largest.roundScaled 1 = 131072 ∧
      Nearest largest.value 131072 :=
  ⟨rfl, rfl, nearest_rounded 2147483647⟩

end Fixed

end KernelCore
