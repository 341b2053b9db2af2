import KernelCore.Proofs.Rounding
import KernelCore.Proofs.Scheduler.Feedback

/-!
# The feedback priority

A thread's priority is computed from a quarter of its recent processor time, whose fraction is left
out before it is rounded. That makes no difference: what is taken off is the exact quarter, rounded.
With any processor time and any legal nice value every step fits into 32 bits, and a thread that has
used more of the processor or is nicer never has the higher priority.
-/
namespace KernelCore

/-- `feedbackPriority` with every step made in 32 bits. -/
def feedbackPriorityIn32 (recent : Fixed) (nice : Int) : Except ArithmeticFault Int := do
  let quarter ← recent.divInt 4
  let rounded ← quarter.round
  let left ← fit32 .subtraction (maxPriority - rounded)
  let niceness ← fit32 .multiplication (nice * 2)
  let p ← fit32 .subtraction (left - niceness)
  pure (clampPriority p)

theorem clampPriority_mono {p p' : Int} (h : p ≤ p') : clampPriority p ≤ clampPriority p' := by
  unfold clampPriority
  omega

section

variable (recent : Fixed) (nice : Int)

/-- What is taken off the highest priority for the use of the processor. -/
def usageWeight : Int := Fixed.rounded (recent.raw.tdiv 4)

theorem nearest_usageWeight :
    Nearest ((recent.raw : ℚ) / (4 * 2 ^ 14)) (usageWeight recent) :=
  Fixed.nearest_rounded_tdiv recent.raw 4

/-- A quarter is far from the ends of the range, where it could not be rounded. -/
theorem round_quarter : (recent.divInt 4 >>= Fixed.round) = .ok (usageWeight recent) := by
  obtain ⟨quarter, divided, raw⟩ := Fixed.divInt_gives (x := recent) (n := 4) (by decide)
  have lower := recent.lower
  have upper := recent.upper
  have bounds : -536870912 ≤ quarter.raw ∧ quarter.raw ≤ 536870912 :=
    raw ▸ tdiv_bounds (by decide) (by omega) (by omega)
  rw [divided, usageWeight, ← raw]
  exact Fixed.round_of_room (by omega) (by omega)

theorem feedbackPriority_eq :
    feedbackPriority recent nice =
      .ok (clampPriority (maxPriority - usageWeight recent - 2 * nice)) := by
  have steps : feedbackPriority recent nice = (recent.divInt 4 >>= Fixed.round) >>=
      fun rounded => .ok (clampPriority (maxPriority - rounded - nice * 2)) :=
    (bind_assoc ..).symm
  rw [steps, round_quarter, Int.mul_comm 2]
  rfl

theorem usageWeight_bounds : -32768 ≤ usageWeight recent ∧ usageWeight recent ≤ 32768 := by
  have lower := recent.lower
  have upper := recent.upper
  have quarter : -32768 * Fixed.scale ≤ recent.raw.tdiv 4 ∧
      recent.raw.tdiv 4 ≤ 32768 * Fixed.scale :=
    tdiv_bounds (by decide) (by unfold Fixed.scale; omega) (by unfold Fixed.scale; omega)
  exact Fixed.rounded_bounds quarter.1 quarter.2

variable {recent nice}

theorem feedbackPriorityIn32_eq (kind : minNice ≤ nice) (selfish : nice ≤ maxNice) :
    feedbackPriorityIn32 recent nice =
      .ok (clampPriority (maxPriority - usageWeight recent - 2 * nice)) := by
  obtain ⟨low, high⟩ := usageWeight_bounds recent
  unfold minNice at kind
  unfold maxNice at selfish
  have left : fit32 .subtraction (maxPriority - usageWeight recent) =
      .ok (maxPriority - usageWeight recent) :=
    fit32_of_fits (by unfold maxPriority; omega) (by unfold maxPriority; omega)
  have niceness : fit32 .multiplication (nice * 2) = .ok (nice * 2) :=
    fit32_of_fits (by omega) (by omega)
  have difference : fit32 .subtraction (maxPriority - usageWeight recent - nice * 2) =
      .ok (maxPriority - usageWeight recent - nice * 2) :=
    fit32_of_fits (by unfold maxPriority; omega) (by unfold maxPriority; omega)
  have steps : feedbackPriorityIn32 recent nice = (recent.divInt 4 >>= Fixed.round) >>=
      fun rounded => fit32 .subtraction (maxPriority - rounded) >>= fun left =>
      fit32 .multiplication (nice * 2) >>= fun niceness =>
      fit32 .subtraction (left - niceness) >>= fun p => pure (clampPriority p) :=
    (bind_assoc ..).symm
  rw [steps, round_quarter, Int.mul_comm 2]
  simp only [bind, Except.bind, left, niceness, difference]
  rfl

theorem usageWeight_mono {more : Fixed} (used : recent.raw ≤ more.raw) :
    usageWeight recent ≤ usageWeight more := by
  have used : (recent.raw : ℚ) ≤ more.raw := by exact_mod_cast used
  refine (nearest_usageWeight recent).le (nearest_usageWeight more) ?_
  gcongr

end

/-- The priority is the exact formula, brought into range: a quarter of the recent processor time, as
an exact number, is rounded with halves away from zero, and truncating the quarter first yields the
same. No step leaves 32 bits. More processor time and a higher nice value never raise it. -/
theorem feedbackPriority_exact (recent : Fixed) {nice : Int} (kind : minNice ≤ nice)
    (selfish : nice ≤ maxNice) :
    (∃ weight, Nearest ((recent.raw : ℚ) / (4 * 2 ^ 14)) weight ∧
      (recent.divInt 4 >>= Fixed.round) = .ok weight ∧
      feedbackPriorityIn32 recent nice =
        .ok (clampPriority (maxPriority - weight - 2 * nice)) ∧
      feedbackPriority recent nice =
        .ok (clampPriority (maxPriority - weight - 2 * nice))) ∧
    ∀ (more : Fixed) (nicer : Int), recent.raw ≤ more.raw → nice ≤ nicer →
      ∃ p p', feedbackPriority recent nice = .ok p ∧ feedbackPriority more nicer = .ok p' ∧
        p' ≤ p := by
  constructor
  · exact ⟨usageWeight recent, nearest_usageWeight recent, round_quarter recent,
      feedbackPriorityIn32_eq kind selfish, feedbackPriority_eq recent nice⟩
  · intro more nicer used gave
    refine ⟨_, _, feedbackPriority_eq recent nice, feedbackPriority_eq more nicer, ?_⟩
    have heavier := usageWeight_mono used
    exact clampPriority_mono (by omega)

/-- A recent processor time of minus ten, whose quarter is half way between two integers. -/
def tenBelow : Fixed := ⟨-163840, by decide, by decide⟩

theorem feedbackPriority_exact_tie :
    (minNice ≤ 20 ∧ 20 ≤ maxNice) ∧ Nearest ((tenBelow.raw : ℚ) / (4 * 2 ^ 14)) (-3) ∧
      feedbackPriorityIn32 tenBelow 20 = .ok 26 ∧ feedbackPriority tenBelow 20 = .ok 26 ∧
      ∃ p', feedbackPriority Fixed.zero 20 = .ok p' ∧ p' ≤ 26 := by
  have legal : minNice ≤ 20 ∧ 20 ≤ maxNice := by decide
  obtain ⟨⟨weight, nearest, rounds, narrow, priority⟩, falls⟩ :=
    feedbackPriority_exact tenBelow legal.1 legal.2
  obtain rfl : -3 = weight := Except.ok.inj rounds
  obtain ⟨p, p', before, after, le⟩ := falls Fixed.zero 20 (by decide) (by decide)
  obtain rfl : 26 = p := Except.ok.inj (priority.symm.trans before)
  exact ⟨legal, nearest, narrow, priority, p', after, le⟩

end KernelCore
