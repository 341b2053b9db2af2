import KernelCore.Parameters

/-!
# Checked machine arithmetic

Sums and products of 64-bit words either are exact or are faults; nothing wraps around.
-/
namespace KernelCore

inductive ArithmeticFault where
  | addition
  | subtraction
  | multiplication
  | zeroDivisor
  | division
  /-- A fixed-point product or quotient that needs more than 32 bits. -/
  | fixedPoint (raw : Int)
  deriving DecidableEq, Repr

def ArithmeticFault.message : ArithmeticFault → String
  | .addition => "attempt to add with overflow"
  | .subtraction => "attempt to subtract with overflow"
  | .multiplication => "attempt to multiply with overflow"
  | .zeroDivisor => "attempt to divide by zero"
  | .division => "attempt to divide with overflow"
  | .fixedPoint raw => "fixed point overflow: raw " ++ toString raw

/-- The sum of two words, if it is a word. -/
def addWords (a b : Nat) : Except ArithmeticFault Nat :=
  if a + b < addressLimit then .ok (a + b) else .error .addition

/-- The product of two words, if it is a word. -/
def mulWords (a b : Nat) : Except ArithmeticFault Nat :=
  if a * b < addressLimit then .ok (a * b) else .error .multiplication

theorem addWords_eq_ok_iff {a b c : Nat} :
    addWords a b = .ok c ↔ a + b < addressLimit ∧ c = a + b := by
  unfold addWords
  split
  · simp [*, eq_comm]
  · simp only [reduceCtorEq, false_iff, not_and]
    intro
    omega

theorem addWords_eq_error_iff {a b : Nat} {f : ArithmeticFault} :
    addWords a b = .error f ↔ f = .addition ∧ addressLimit ≤ a + b := by
  unfold addWords
  split
  · simp only [reduceCtorEq, false_iff, not_and]
    intro
    omega
  · simp only [Except.error.injEq, eq_comm, iff_self_and]
    intro
    omega

theorem mulWords_eq_ok_iff {a b c : Nat} :
    mulWords a b = .ok c ↔ a * b < addressLimit ∧ c = a * b := by
  unfold mulWords
  split
  · simp [*, eq_comm]
  · simp only [reduceCtorEq, false_iff, not_and]
    intro
    omega

end KernelCore
