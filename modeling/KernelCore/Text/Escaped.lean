/-!
# Escaped text

Text as it stands between the quotes of a string literal. Quotes, backslashes and the usual
control characters have short escapes, printable ASCII stands for itself, and every other
character is written by its code point, as in `\u{e9}`.
-/
namespace KernelCore.Text

/-- Printable ASCII. -/
def isPlain (c : Char) : Bool := 0x20 ≤ c.toNat && c.toNat ≤ 0x7e

def escapeChar (c : Char) : List Char :=
  if c = '\t' then ['\\', 't']
  else if c = '\r' then ['\\', 'r']
  else if c = '\n' then ['\\', 'n']
  else if c = '\x27' ∨ c = '"' ∨ c = '\\' then ['\\', c]
  else if isPlain c then [c]
  else ['\\', 'u', '\x7b'] ++ Nat.toDigits 16 c.toNat ++ ['\x7d']

def escape (cs : List Char) : List Char := cs.flatMap escapeChar

end KernelCore.Text
