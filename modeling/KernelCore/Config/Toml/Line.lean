import KernelCore.Config.Toml.Number

/-!
# Lines of TOML

Every line of a document is blank, opens a table, or gives a key a value. Keys are bare or quoted,
and lead through tables with dots between them. Values are truth values, numbers, or strings on
one line.
-/
namespace KernelCore.Config.Toml

/-- A reader takes what it reads off the front of the characters, and may refuse. -/
abbrev Reader (α : Type) := List Char → Option (α × List Char)

/-! ## Characters -/

def isSpace (c : Char) : Bool := c = ' ' || c = '\t'

def skipSpace (cs : List Char) : List Char := cs.dropWhile isSpace

/-- Characters that may stand in comments and, but for quotes and escapes, in strings. -/
def isText (c : Char) : Bool := c = '\t' || (0x20 ≤ c.toNat && c.toNat ≠ 0x7f)

/-- Characters of keys without quotes. -/
def isBare (c : Char) : Bool := c.isAlphanum || c = '-' || c = '_'

/-- Whether nothing but blanks and a comment is left of a line. -/
def endsLine (cs : List Char) : Bool :=
  match skipSpace cs with
  | [] => true
  | c :: rest => c = '#' && rest.all isText

/-! ## Strings -/

/-- The character of a code point given in hexadecimal. -/
def codePoint (digits : List Char) : Option Char :=
  let n := ofDigits 16 digitValue digits
  if digits.all isHexDigit ∧ n.isValidChar then some (Char.ofNat n) else none

/-- The escapes of one letter. -/
def simpleEscape : Char → Option Char
  | 'b' => some '\x08'
  | 't' => some '\t'
  | 'n' => some '\n'
  | 'f' => some '\x0c'
  | 'r' => some '\r'
  | '"' => some '"'
  | '\\' => some '\\'
  | _ => none

/-- Put a character in front of a string that is read. -/
def push (c : Option Char) (s : Option (List Char × List Char)) :
    Option (List Char × List Char) := do
  let c ← c
  let (cs, rest) ← s
  pure (c :: cs, rest)

/-- The rest of a string with escapes, up to its closing quote. -/
def readEscaped : Reader (List Char)
  | [] => none
  | '"' :: rest => some ([], rest)
  | '\\' :: 'u' :: a :: b :: c :: d :: rest =>
    push (codePoint [a, b, c, d]) (readEscaped rest)
  | '\\' :: 'U' :: a :: b :: c :: d :: e :: f :: g :: h :: rest =>
    push (codePoint [a, b, c, d, e, f, g, h]) (readEscaped rest)
  | '\\' :: c :: rest => push (simpleEscape c) (readEscaped rest)
  | c :: rest => push (if c ≠ '\\' ∧ isText c then some c else none) (readEscaped rest)

/-- The rest of a string without escapes, up to its closing quote. -/
def readLiteral : Reader (List Char)
  | [] => none
  | c :: rest =>
    if c = '\x27' then some ([], rest)
    else push (if isText c then some c else none) (readLiteral rest)

/-- A string in quotes of either kind. -/
def readQuoted : Reader (List Char)
  | '"' :: rest => readEscaped rest
  | '\x27' :: rest => readLiteral rest
  | _ => none

/-! ## Keys -/

/-- A key between two dots. -/
def readKey : Reader String := fun cs =>
  match cs.span isBare with
  | ([], _) => (readQuoted cs).map fun r => (String.ofList r.1, r.2)
  | (key, rest) => some (String.ofList key, rest)

/-- Keys with dots between them, at most `count`. -/
def readKeys : Nat → Reader (List String)
  | 0, _ => none
  | count + 1, cs => do
    let (key, rest) ← readKey cs
    match skipSpace rest with
    | '.' :: more =>
      let (keys, rest) ← readKeys count (skipSpace more)
      pure (key :: keys, rest)
    | rest => pure ([key], rest)

/-- The most keys a path may have. -/
def maxKeys : Nat := 79

/-- Keys with dots between them. -/
def readPath : Reader (List String) := readKeys maxKeys

/-! ## Lines -/

/-- A value that is written without quotes. -/
def word? (cs : List Char) : Option Scalar :=
  if cs = "true".toList then some (.boolean true)
  else if cs = "false".toList then some (.boolean false)
  else number? cs

/-- Characters of values without quotes. -/
def isWordChar (c : Char) : Bool := isBare c || c = '+' || c = '.'

def readValue : Reader Scalar := fun cs =>
  match readQuoted cs with
  | some (s, rest) => some (.string (String.ofList s), rest)
  | none =>
    let (word, rest) := cs.span isWordChar
    (word? word).map fun v => (v, rest)

inductive Line where
  | blank
  | table (path : List String)
  | entry (path : List String) (value : Scalar)
  deriving DecidableEq, Repr

/-- The line that opens a table, behind its bracket. -/
def readTable (cs : List Char) : Option Line := do
  let (path, rest) ← readPath (skipSpace cs)
  match skipSpace rest with
  | ']' :: rest => if endsLine rest then pure (.table path) else none
  | _ => none

def readEntry (cs : List Char) : Option Line := do
  let (path, rest) ← readPath cs
  match skipSpace rest with
  | '=' :: rest =>
    let (value, rest) ← readValue (skipSpace rest)
    if endsLine rest then pure (.entry path value) else none
  | _ => none

def readLine (line : List Char) : Option Line :=
  let cs := skipSpace line
  if endsLine cs then some .blank
  else
    match cs with
    | '[' :: rest => readTable rest
    | _ => readEntry cs

end KernelCore.Config.Toml
