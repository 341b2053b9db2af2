import Mathlib.Tactic.Common
import KernelCore.Proofs.Rounding
import KernelCore.Scheduler.Feedback

/-!
# The arithmetic of feedback scheduling

The load average stays between 0 and 63 because at most 63 threads compete for the processor. Then
the decay factor stays so far below one that what decays in a second makes up for the ticks of the
next and for the nice value, and the recent processor time of a thread stays between bounds. No
step on the way leaves the range of a number.
-/
namespace KernelCore

/-- The computation does not fail, and its result has the property. -/
def Gives {ε α : Type} (x : Except ε α) (P : α → Prop) : Prop := ∃ a, x = .ok a ∧ P a

section

variable {ε α β : Type} {x : Except ε α} {P : α → Prop}

theorem Gives.bind {f : α → Except ε β} {Q : β → Prop} (h : Gives x P)
    (rest : ∀ a, P a → Gives (f a) Q) : Gives (x >>= f) Q := by
  obtain ⟨a, rfl, property⟩ := h
  exact rest a property

theorem Gives.pure {a : α} (h : P a) : Gives (pure a : Except ε α) P := ⟨a, rfl, h⟩

theorem Gives.mono {Q : α → Prop} (h : Gives x P) (weaker : ∀ a, P a → Q a) : Gives x Q := by
  obtain ⟨a, value, property⟩ := h
  exact ⟨a, value, weaker a property⟩

end

/-- A truncated quotient lies between the integers its exact value lies between. -/
theorem tdiv_bounds {a b lower upper : Int} (positive : 0 < b) (above : lower * b ≤ a)
    (below : a ≤ upper * b) : lower ≤ a.tdiv b ∧ a.tdiv b ≤ upper := by
  have nonzero : b ≠ 0 := by omega
  constructor
  · calc lower = (lower * b).tdiv b := (Int.mul_tdiv_cancel lower nonzero).symm
      _ ≤ a.tdiv b := Int.tdiv_le_tdiv positive above
  · calc a.tdiv b ≤ (upper * b).tdiv b := Int.tdiv_le_tdiv positive below
      _ = upper := Int.mul_tdiv_cancel upper nonzero

/-! ## Single operations -/

namespace Fixed

/-- The number lies between two integers. -/
def Between (lower upper : Int) (x : Fixed) : Prop :=
  lower * scale ≤ x.raw ∧ x.raw ≤ upper * scale

instance (lower upper : Int) (x : Fixed) : Decidable (x.Between lower upper) :=
  inferInstanceAs (Decidable (_ ∧ _))

variable {x y : Fixed} {n : Int} {fault : ArithmeticFault}

theorem ofRaw_gives (low : -2147483648 ≤ n) (high : n ≤ 2147483647) :
    Gives (ofRaw fault n) fun y => y.raw = n :=
  ⟨_, ofRaw_isOk low high, rfl⟩

theorem ofInt_gives (low : -131072 ≤ n) (high : n ≤ 131071) :
    Gives (ofInt n) fun y => y.raw = n * scale := by
  unfold ofInt scale
  exact ofRaw_gives (by omega) (by omega)

theorem add_gives (low : -2147483648 ≤ x.raw + y.raw) (high : x.raw + y.raw ≤ 2147483647) :
    Gives (x.add y) fun z => z.raw = x.raw + y.raw :=
  ofRaw_gives low high

theorem addInt_gives (small : -131072 ≤ n) (large : n ≤ 131071)
    (low : -2147483648 ≤ x.raw + n * scale) (high : x.raw + n * scale ≤ 2147483647) :
    Gives (x.addInt n) fun z => z.raw = x.raw + n * scale := by
  refine (ofInt_gives small large).bind fun y raw => ?_
  rw [← raw] at low high ⊢
  exact add_gives low high

/-- A quotient by a positive integer fits. -/
theorem divInt_gives (positive : 0 < n) : Gives (x.divInt n) fun y => y.raw = x.raw.tdiv n := by
  have low := x.lower
  have high := x.upper
  have bounds : -2147483648 ≤ x.raw.tdiv n ∧ x.raw.tdiv n ≤ 2147483647 :=
    tdiv_bounds positive (by omega) (by omega)
  unfold divInt
  rw [if_neg (by omega)]
  exact ofRaw_gives bounds.1 bounds.2

/-- A product is truncated, and fits if the truncated product does. -/
theorem mul_gives_tdiv (low : -2147483648 ≤ (x.raw * y.raw).tdiv scale)
    (high : (x.raw * y.raw).tdiv scale ≤ 2147483647) :
    Gives (x.mul y) fun z => z.raw = (x.raw * y.raw).tdiv scale :=
  ofRaw_gives low high

/-- A product fits if it lies between bounds that do. -/
theorem mul_gives (lower upper : Int) (small : -2147483648 ≤ lower) (large : upper ≤ 2147483647)
    (above : lower * scale ≤ x.raw * y.raw) (below : x.raw * y.raw ≤ upper * scale) :
    Gives (x.mul y) fun z => lower ≤ z.raw ∧ z.raw ≤ upper := by
  have bounds := tdiv_bounds (by decide) above below
  refine (mul_gives_tdiv (by omega) (by omega)).mono fun z raw => ?_
  rw [raw]
  exact bounds

end Fixed

/-! ## The load average -/

/-- The weight `59/60`, the product with it and the new share are truncated, each by itself. -/
theorem nextLoadAverage_gives {load : Fixed} {runnable : Int} (bounded : load.Between 0 63)
    (few : 0 ≤ runnable) (many : runnable ≤ 63) :
    Gives (nextLoadAverage load runnable) fun next =>
      next.raw = 16110 * load.raw / 16384 + runnable * 16384 / 60 := by
  obtain ⟨low, high⟩ := bounded
  unfold Fixed.scale at low high
  refine (Fixed.ofInt_gives (by decide) (by decide)).bind fun fiftyNine raw => ?_
  refine (Fixed.divInt_gives (by decide)).bind fun weight weight_raw => ?_
  have weight_raw : weight.raw = 16110 := by
    rw [weight_raw, raw]
    rfl
  have product : (weight.raw * load.raw).tdiv Fixed.scale = 16110 * load.raw / 16384 := by
    rw [weight_raw]
    exact Int.tdiv_eq_ediv_of_nonneg (by omega)
  refine (Fixed.mul_gives_tdiv (by omega) (by omega)).bind fun kept kept_raw => ?_
  refine (Fixed.ofInt_gives (by omega) (by omega)).bind fun count count_raw => ?_
  refine (Fixed.divInt_gives (by decide)).bind fun added added_raw => ?_
  have added_raw : added.raw = runnable * 16384 / 60 := by
    rw [added_raw, count_raw]
    unfold Fixed.scale
    exact Int.tdiv_eq_ediv_of_nonneg (by omega)
  refine (Fixed.add_gives (by omega) (by omega)).mono fun next next_raw => ?_
  rw [next_raw, kept_raw, product, added_raw]

/-- If at most 63 threads compete, a load of at most 63 stays so. -/
theorem nextLoadAverage_between {load : Fixed} {runnable : Int} (bounded : load.Between 0 63)
    (few : 0 ≤ runnable) (many : runnable ≤ 63) :
    Gives (nextLoadAverage load runnable) (Fixed.Between 0 63) := by
  refine (nextLoadAverage_gives bounded few many).mono fun next raw => ?_
  obtain ⟨low, high⟩ := bounded
  unfold Fixed.scale at low high
  unfold Fixed.Between Fixed.scale
  omega

/-! ## The decay -/

/-- Even at the highest load a factor of `16254 / 2¹⁴` is not exceeded. -/
theorem decayFactor_bounds {load : Fixed} (bounded : load.Between 0 63) :
    Gives (decayFactor load) fun decay => 0 ≤ decay.raw ∧ decay.raw ≤ 16254 := by
  obtain ⟨low, high⟩ := bounded
  unfold Fixed.scale at low high
  refine (Fixed.ofRaw_gives (by omega) (by omega)).bind fun twice twice_raw => ?_
  refine (Fixed.addInt_gives (by decide) (by decide) ?_ ?_).bind fun more more_raw => ?_
  · unfold Fixed.scale
    omega
  · unfold Fixed.scale
    omega
  unfold Fixed.scale at more_raw
  have quotient : 0 ≤ (twice.raw * Fixed.scale).tdiv more.raw ∧
      (twice.raw * Fixed.scale).tdiv more.raw ≤ 16254 := by
    unfold Fixed.scale
    rw [Int.tdiv_eq_ediv_of_nonneg (by omega)]
    constructor
    · exact Int.ediv_nonneg (by omega) (by omega)
    -- The quotient is just below 16255, a factor the decay could not make up for.
    · have below : twice.raw * 16384 / more.raw < 16255 :=
        Int.ediv_lt_of_lt_mul (by omega) (by omega)
      omega
  unfold Fixed.div
  rw [if_neg (by omega)]
  refine (Fixed.ofRaw_gives (by omega) (by omega)).mono fun decay raw => ?_
  rw [raw]
  exact quotient

/-- A second's decay makes up for the ticks of a second and for the nice value. -/
theorem decayedRecent_between {decay recent : Fixed} {nice : Int} (positive : 0 ≤ decay.raw)
    (small : decay.raw ≤ 16254) (bounded : recent.Between (-2540) 15240)
    (kind : minNice ≤ nice) (selfish : nice ≤ maxNice) :
    Gives (decayedRecent decay recent nice) (Fixed.Between (-2540) 15140) := by
  obtain ⟨low, high⟩ := bounded
  unfold Fixed.scale at low high
  unfold minNice at kind
  unfold maxNice at selfish
  have above : -41285160 * Fixed.scale ≤ decay.raw * recent.raw := by
    calc -41285160 * Fixed.scale = 16254 * (-2540 * 16384) := by rfl
      _ ≤ decay.raw * (-2540 * 16384) := Int.mul_le_mul_of_nonpos_right small (by decide)
      _ ≤ decay.raw * recent.raw := Int.mul_le_mul_of_nonneg_left low positive
  have below : decay.raw * recent.raw ≤ 247710960 * Fixed.scale := by
    calc decay.raw * recent.raw ≤ decay.raw * (15240 * 16384) :=
          Int.mul_le_mul_of_nonneg_left high positive
      _ ≤ 16254 * (15240 * 16384) := Int.mul_le_mul_of_nonneg_right small (by decide)
      _ = 247710960 * Fixed.scale := by rfl
  refine (Fixed.mul_gives (-41285160) 247710960 (by decide) (by decide) above below).bind
    fun kept kept_bounds => ?_
  refine (Fixed.addInt_gives (by omega) (by omega) ?_ ?_).mono fun next raw => ?_
  · unfold Fixed.scale
    omega
  · unfold Fixed.scale
    omega
  · unfold Fixed.scale at raw
    unfold Fixed.Between Fixed.scale
    omega

/-! ## Priorities and percentages -/

theorem Fixed.round_gives {x : Fixed} {lower upper : Int} (bounded : x.Between lower upper)
    (low : -536870912 ≤ x.raw) (high : x.raw ≤ 536870912) :
    Gives x.round fun n => lower ≤ n ∧ n ≤ upper :=
  ⟨rounded x.raw, round_of_room (by omega) (by omega), rounded_bounds bounded.1 bounded.2⟩

/-- A percentage lies between the percentages of the integers that the number lies between. -/
theorem Fixed.roundScaled_bounds {x : Fixed} {lower upper : Int} (bounded : x.Between lower upper) :
    lower * 100 ≤ x.roundScaled 100 ∧ x.roundScaled 100 ≤ upper * 100 := by
  obtain ⟨above, below⟩ := bounded
  unfold scale at above below
  exact rounded_bounds (by unfold scale; omega) (by unfold scale; omega)

/-- A quarter of a number lies between quarters. -/
theorem Fixed.quarter_gives {x : Fixed} {lower upper : Int}
    (bounded : x.Between (4 * lower) (4 * upper)) : Gives (x.divInt 4) (Between lower upper) := by
  obtain ⟨above, below⟩ := bounded
  refine (divInt_gives (by decide)).mono fun quarter raw => ?_
  unfold Between
  rw [raw]
  exact tdiv_bounds (by decide) (by unfold scale at above ⊢; omega) (by unfold scale at below ⊢; omega)

/-- A priority can be computed from any use of the processor and any nice value. -/
theorem feedbackPriority_gives (recent : Fixed) (nice : Int) :
    Gives (feedbackPriority recent nice) fun p => minPriority ≤ p ∧ p ≤ maxPriority := by
  have low := recent.lower
  have high := recent.upper
  have widest : recent.Between (4 * -32768) (4 * 32768) := by
    unfold Fixed.Between Fixed.scale
    omega
  refine (Fixed.quarter_gives widest).bind fun quarter between => ?_
  refine (Fixed.round_gives between between.1 between.2).bind fun rounded _ => ?_
  exact .pure (clampPriority_bounds _)

/-! ## Threads -/

/-- A recomputed priority changes nothing in what it was computed from. -/
theorem Thread.reprioritized_gives (th : Thread) :
    Gives th.reprioritized fun th' => th'.nice = th.nice ∧ th'.recentCpu = th.recentCpu :=
  (feedbackPriority_gives th.recentCpu th.nice).bind fun _ _ => .pure ⟨rfl, rfl⟩

theorem Thread.decayed_gives {th : Thread} {decay : Fixed} (positive : 0 ≤ decay.raw)
    (small : decay.raw ≤ 16254) (bounded : th.recentCpu.Between (-2540) 15240)
    (kind : minNice ≤ th.nice) (selfish : th.nice ≤ maxNice) :
    Gives (th.decayed decay) fun th' =>
      th'.nice = th.nice ∧ th'.recentCpu.Between (-2540) 15140 :=
  (decayedRecent_between positive small bounded kind selfish).bind fun _ between =>
    .pure ⟨rfl, between⟩

end KernelCore
