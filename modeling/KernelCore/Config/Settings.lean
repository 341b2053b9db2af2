/-!
# Settings

What a configuration file says: values by their paths, as in `memory`, `page_size`. A setting
that is absent or has another type than the one asked for counts as its default.
-/
namespace KernelCore.Config

inductive Scalar where
  | boolean (b : Bool)
  | integer (n : Int)
  /-- A number with a fraction or an exponent, as it was written. -/
  | float (text : String)
  | string (s : String)
  deriving DecidableEq, Repr

/-- Values by their paths, the latest first. -/
structure Settings where
  entries : List (List String × Scalar)
  deriving DecidableEq, Repr

namespace Settings

def empty : Settings := ⟨[]⟩

/-- Give a path a value; an earlier one is forgotten. -/
def assign (s : Settings) (path : List String) (value : Scalar) : Settings :=
  ⟨(path, value) :: s.entries⟩

def find? (s : Settings) (path : List String) : Option Scalar :=
  (s.entries.find? fun e => e.1 = path).map Prod.snd

def integer (s : Settings) (group key : String) (default : Int) : Int :=
  match s.find? [group, key] with
  | some (.integer n) => n
  | _ => default

def boolean (s : Settings) (group key : String) (default : Bool) : Bool :=
  match s.find? [group, key] with
  | some (.boolean b) => b
  | _ => default

def string (s : Settings) (group key : String) (default : String) : String :=
  match s.find? [group, key] with
  | some (.string x) => x
  | _ => default

@[simp] theorem find?_empty (path : List String) : empty.find? path = none := rfl

theorem find?_assign (s : Settings) (path other : List String) (value : Scalar) :
    (s.assign path value).find? other = if path = other then some value else s.find? other := by
  unfold find? assign
  by_cases h : path = other <;> simp [h]

end Settings

/-- Integers in configuration files are signed 64-bit numbers. -/
def isInteger (n : Int) : Bool := -9223372036854775808 ≤ n && n ≤ 9223372036854775807

/-- The number that digits stand for, most significant first. -/
def ofDigits (base : Nat) (digit : Char → Nat) (cs : List Char) : Nat :=
  cs.foldl (fun n c => n * base + digit c) 0

/-- The value of a digit of any base up to sixteen. -/
def digitValue (c : Char) : Nat :=
  if c.isDigit then c.toNat - 48 else c.toLower.toNat - 87

end KernelCore.Config
