import KernelCore.Arithmetic
import KernelCore.Text.Numeral

/-!
# Fixed-point numbers

A `Fixed` is a multiple of 2⁻¹⁴ that fits into 32 bits. Products and quotients of two numbers
are formed with enough bits and then have to fit; every other operation works on 32-bit
integers. Division truncates towards zero, rounding takes halves away from zero.
-/
namespace KernelCore

/-- `raw / 2¹⁴`, with `raw` a 32-bit integer. -/
structure Fixed where
  raw : Int
  lower : -2147483648 ≤ raw
  upper : raw ≤ 2147483647
  deriving DecidableEq

/-- An integer in the range of 32 bits, or the given fault. -/
def fit32 (fault : ArithmeticFault) (n : Int) : Except ArithmeticFault Int :=
  if -2147483648 ≤ n ∧ n ≤ 2147483647 then .ok n else .error fault

namespace Fixed

/-- The raw value of one. -/
def scale : Int := 16384

/-- The number with the given raw value, or the given fault. -/
def ofRaw (fault : ArithmeticFault) (raw : Int) : Except ArithmeticFault Fixed :=
  if h : -2147483648 ≤ raw ∧ raw ≤ 2147483647 then .ok ⟨raw, h.1, h.2⟩ else .error fault

def ofRaw? (raw : Int) : Option Fixed :=
  if h : -2147483648 ≤ raw ∧ raw ≤ 2147483647 then some ⟨raw, h.1, h.2⟩ else none

def zero : Fixed := ⟨0, by decide, by decide⟩

def one : Fixed := ⟨scale, by decide, by decide⟩

instance : Inhabited Fixed := ⟨zero⟩

def ofInt (n : Int) : Except ArithmeticFault Fixed := ofRaw .multiplication (n * scale)

def add (x y : Fixed) : Except ArithmeticFault Fixed := ofRaw .addition (x.raw + y.raw)

def sub (x y : Fixed) : Except ArithmeticFault Fixed := ofRaw .subtraction (x.raw - y.raw)

def mul (x y : Fixed) : Except ArithmeticFault Fixed :=
  let product := (x.raw * y.raw).tdiv scale
  ofRaw (.fixedPoint product) product

def div (x y : Fixed) : Except ArithmeticFault Fixed :=
  if y.raw = 0 then .error .zeroDivisor
  else
    let quotient := (x.raw * scale).tdiv y.raw
    ofRaw (.fixedPoint quotient) quotient

def addInt (x : Fixed) (n : Int) : Except ArithmeticFault Fixed := do
  let y ← ofInt n
  x.add y

def subInt (x : Fixed) (n : Int) : Except ArithmeticFault Fixed := do
  let y ← ofInt n
  x.sub y

def mulInt (x : Fixed) (n : Int) : Except ArithmeticFault Fixed :=
  ofRaw .multiplication (x.raw * n)

def divInt (x : Fixed) (n : Int) : Except ArithmeticFault Fixed :=
  if n = 0 then .error .zeroDivisor else ofRaw .division (x.raw.tdiv n)

/-- The integer part, towards zero. -/
def trunc (x : Fixed) : Int := x.raw.tdiv scale

/-- The nearest integer, by 32-bit arithmetic: half of one is added on the side away from zero,
and that sum has to fit. -/
def round (x : Fixed) : Except ArithmeticFault Int := do
  let biased ←
    if 0 ≤ x.raw then fit32 .addition (x.raw + scale / 2)
    else fit32 .subtraction (x.raw - scale / 2)
  pure (biased.tdiv scale)

/-- The integer nearest to `x * n`, by 64-bit arithmetic. -/
def roundScaled (x : Fixed) (n : Int) : Int :=
  let product := x.raw * n
  if 0 ≤ product then (product + scale / 2).tdiv scale else (product - scale / 2).tdiv scale

/-- Two decimals, as in `Fixed(-2.50)`. -/
def text (x : Fixed) : String :=
  let hundredths := x.roundScaled 100
  let h := hundredths.natAbs
  "Fixed(" ++ (if hundredths < 0 then "-" else "") ++ toString (h / 100) ++ "." ++
    Text.padded 2 (h % 100) ++ ")"

theorem ofRaw_isOk {fault : ArithmeticFault} {n : Int}
    (lower : -2147483648 ≤ n) (upper : n ≤ 2147483647) :
    ofRaw fault n = .ok ⟨n, lower, upper⟩ := by
  simp [ofRaw, lower, upper]

end Fixed

end KernelCore
