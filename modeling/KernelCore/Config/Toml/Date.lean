import KernelCore.Config.Settings

/-!
# Dates and times

The texts that spell a date, a time of day, or both, as in `1979-05-27T07:32:00-08:00`. A date
with a time may end in the offset from universal time. Seconds may have a fraction. A second may
be number 60, for leap seconds.
-/
namespace KernelCore.Config.Toml

/-- A number of a fixed count of digits, and the rest of the text. -/
def readDigits (count : Nat) (cs : List Char) : Option (Nat × List Char) :=
  let digits := cs.take count
  if digits.length = count ∧ digits.all Char.isDigit then
    some (ofDigits 10 digitValue digits, cs.drop count)
  else none

/-- The rest of the text behind one character. -/
def skipChar (c : Char) : List Char → Option (List Char)
  | [] => none
  | d :: rest => if c = d then some rest else none

def isLeapYear (year : Nat) : Bool := year % 4 = 0 && (year % 100 ≠ 0 || year % 400 = 0)

def daysInMonth (year month : Nat) : Nat :=
  match month with
  | 2 => if isLeapYear year then 29 else 28
  | 4 | 6 | 9 | 11 => 30
  | _ => 31

/-- The rest of the text behind a date. -/
def skipDate (cs : List Char) : Option (List Char) := do
  let (year, cs) ← readDigits 4 cs
  let (month, cs) ← readDigits 2 (← skipChar '-' cs)
  let (day, cs) ← readDigits 2 (← skipChar '-' cs)
  if 1 ≤ month ∧ month ≤ 12 ∧ 1 ≤ day ∧ day ≤ daysInMonth year month then pure cs else none

/-- The rest of the text behind the fraction of a second, if there is one. -/
def skipFraction : List Char → Option (List Char)
  | '.' :: c :: rest => if c.isDigit then some (rest.dropWhile Char.isDigit) else none
  | ['.'] => none
  | cs => some cs

/-- The rest of the text behind an hour and a minute. -/
def skipMinute (cs : List Char) : Option (List Char) := do
  let (hour, cs) ← readDigits 2 cs
  let (minute, cs) ← readDigits 2 (← skipChar ':' cs)
  if hour ≤ 23 ∧ minute ≤ 59 then pure cs else none

/-- The rest of the text behind a time of day. -/
def skipTime (cs : List Char) : Option (List Char) := do
  let cs ← skipMinute cs
  let (second, cs) ← readDigits 2 (← skipChar ':' cs)
  if second ≤ 60 then skipFraction cs else none

/-- Whether a text is nothing or an offset from universal time. -/
def isOffset : List Char → Bool
  | [] => true
  | ['Z'] | ['z'] => true
  | sign :: cs => (sign = '+' || sign = '-') && skipMinute cs = some []

/-- Whether a text spells a date, a time of day, or both. -/
def isDate (cs : List Char) : Bool :=
  if cs[2]? = some ':' then skipTime cs = some []
  else
    match skipDate cs with
    | none => false
    | some [] => true
    | some (c :: rest) => (c = 'T' || c = 't' || c = ' ') && (skipTime rest).any isOffset

end KernelCore.Config.Toml
