import KernelCore.Config.Settings
import KernelCore.Text.Blank
import KernelCore.Text.Lines

/-!
# Files of assignments

A file of lines `group_key=value`. Blank lines and lines that start with `#` are passed over, as
are lines without `=` or without an underscore in front of it. The first underscore ends the name
of the group, so keys may have more of them. A value is a truth value or an integer if it reads
as one, and otherwise a text, which may be quoted.
-/
namespace KernelCore.Config

open KernelCore.Text

/-- The characters before and after the first `sep`, if there is one. -/
def splitAt? (sep : Char) (cs : List Char) : Option (List Char × List Char) :=
  match cs.span (· ≠ sep) with
  | (_, []) => none
  | (before, _ :: after) => some (before, after)

/-- A signed decimal number of at least one digit, in the range of integers. -/
def decimal? (cs : List Char) : Option Int :=
  let (negative, digits) :=
    match cs with
    | '-' :: rest => (true, rest)
    | '+' :: rest => (false, rest)
    | _ => (false, cs)
  if digits ≠ [] ∧ digits.all Char.isDigit then
    let n : Int := ofDigits 10 digitValue digits
    let n := if negative then -n else n
    if isInteger n then some n else none
  else none

/-- The text without the quotes at its ends, however many there are. -/
def unquote (cs : List Char) : List Char :=
  ((cs.dropWhile (· = '"')).reverse.dropWhile (· = '"')).reverse

/-- What a value is by its looks. -/
def readScalar (cs : List Char) : Scalar :=
  if cs = "true".toList then .boolean true
  else if cs = "false".toList then .boolean false
  else
    match decimal? cs with
    | some n => .integer n
    | none => .string (String.ofList (unquote cs))

/-- The assignment on a line, if there is one. -/
def readAssignment (line : List Char) : Option (List String × Scalar) := do
  let cs := trim line
  if cs.head? = some '#' then none
  else
    let (name, value) ← splitAt? '=' cs
    let (group, key) ← splitAt? '_' name
    pure ([String.ofList group, String.ofList key], readScalar (trim value))

/-- The settings of a file of assignments. Later lines override earlier ones. -/
def readAssignments (text : List Char) : Settings :=
  (lines text).foldl
    (fun s line =>
      match readAssignment line with
      | some (path, value) => s.assign path value
      | none => s)
    .empty

end KernelCore.Config
