import KernelCore.Config.Settings

/-!
# Numbers in TOML

Integers are decimal with a sign, or hexadecimal, octal or binary without one, and have 64 bits.
A number with a fraction or an exponent is a floating-point number of 64 bits; its value is of no
interest here, except that a positive one must not be so large that it rounds to infinity.
Single underscores may stand between digits.
-/
namespace KernelCore.Config.Toml

/-! ## Digits -/

def isHexDigit (c : Char) : Bool :=
  c.isDigit || ('a' ≤ c && c ≤ 'f') || ('A' ≤ c && c ≤ 'F')

def isOctalDigit (c : Char) : Bool := '0' ≤ c && c ≤ '7'

def isBinaryDigit (c : Char) : Bool := c = '0' || c = '1'

/-- Digits, with single underscores between some of them. -/
def digits? (isDigit : Char → Bool) : List Char → Option (List Char)
  | [] => none
  | [c] => if isDigit c then some [c] else none
  | c :: '_' :: rest => if isDigit c then (digits? isDigit rest).map (c :: ·) else none
  | c :: rest => if isDigit c then (digits? isDigit rest).map (c :: ·) else none

/-- The number that digits of a base stand for. -/
def based (base : Nat) (isDigit : Char → Bool) (cs : List Char) : Option Nat :=
  (digits? isDigit cs).map (ofDigits base digitValue)

/-- Whether there are no zeros in front of a number of several digits. -/
def isShortest : List Char → Bool
  | '0' :: _ :: _ => false
  | _ => true

/-- A sign and what follows it. -/
def signed (cs : List Char) : Bool × List Char :=
  match cs with
  | '-' :: rest => (true, rest)
  | '+' :: rest => (false, rest)
  | _ => (false, cs)

/-! ## Integers -/

/-- An integer of any size. -/
def integer? (cs : List Char) : Option Int :=
  match cs with
  | '0' :: 'x' :: rest => (based 16 isHexDigit rest).map Int.ofNat
  | '0' :: 'o' :: rest => (based 8 isOctalDigit rest).map Int.ofNat
  | '0' :: 'b' :: rest => (based 2 isBinaryDigit rest).map Int.ofNat
  | _ => do
    let (negative, rest) := signed cs
    let n ← based 10 Char.isDigit rest
    if isShortest rest then pure (if negative then -n else n) else none

/-! ## Floating-point numbers -/

/-- A decimal number, `mantissa * 10 ^ exponent`. -/
structure Decimal where
  mantissa : Nat
  exponent : Int
  deriving DecidableEq, Repr

namespace Decimal

/-- Numbers from this one on round to infinity: half a step above the largest number of 64 bits. -/
def infinityFrom : Nat := (1 <<< 54 - 1) <<< 970

/-- Whether the nearest floating-point number is infinity. The bound has 309 digits, so the count
of digits decides for all numbers that have more of them or fewer. -/
def roundsToInfinity (d : Decimal) : Bool :=
  let digits : Int := (Nat.toDigits 10 d.mantissa).length + d.exponent
  if d.mantissa = 0 ∨ digits < 309 then false
  else if 309 < digits then true
  else infinityFrom * Nat.pow 10 (-d.exponent).toNat ≤ d.mantissa * Nat.pow 10 d.exponent.toNat

end Decimal

def isExponentMark (c : Char) : Bool := c = 'e' || c = 'E'

/-- The digits behind a point, if there is one. -/
def fraction? : List Char → Option (List Char)
  | [] => some []
  | _ :: rest => digits? Char.isDigit rest

/-- The number behind the mark of an exponent, if there is one. -/
def exponent? : List Char → Option Int
  | [] => some 0
  | _ :: rest => do
    let (negative, digits) := signed rest
    let n ← based 10 Char.isDigit digits
    pure (if negative then -n else n)

/-- A number without a sign that has a fraction, an exponent, or both. -/
def decimal? (cs : List Char) : Option Decimal := do
  let (mantissa, exponent) := cs.span fun c => !isExponentMark c
  let (whole, fraction) := mantissa.span (· ≠ '.')
  let before ← digits? Char.isDigit whole
  let behind ← fraction? fraction
  let e ← exponent? exponent
  if isShortest whole ∧ (fraction ≠ [] ∨ exponent ≠ []) then
    pure ⟨ofDigits 10 digitValue (before ++ behind), e - behind.length⟩
  else none

/-- Whether a floating-point number may read so. -/
def isFloat (cs : List Char) : Bool :=
  let (negative, rest) := signed cs
  if rest = "inf".toList ∨ rest = "nan".toList then true
  else
    match decimal? rest with
    | some d => negative || !d.roundsToInfinity
    | none => false

/-- A number of either kind. -/
def number? (cs : List Char) : Option Scalar :=
  match integer? cs with
  | some n => if isInteger n then some (.integer n) else none
  | none => if isFloat cs then some (.float (String.ofList cs)) else none

end KernelCore.Config.Toml
