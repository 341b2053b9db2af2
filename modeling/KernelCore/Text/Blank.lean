/-!
# Blanks and words

The characters that separate words are those with the Unicode property White_Space. A text is
the sequence of its words; how many blanks stand between two of them does not matter.
-/
namespace KernelCore.Text

/-- The ranges of code points with the property White_Space, both ends included. -/
def blankRanges : List (Nat × Nat) :=
  [(0x9, 0xd), (0x20, 0x20), (0x85, 0x85), (0xa0, 0xa0), (0x1680, 0x1680), (0x2000, 0x200a),
    (0x2028, 0x2029), (0x202f, 0x202f), (0x205f, 0x205f), (0x3000, 0x3000)]

def isBlank (c : Char) : Bool :=
  blankRanges.any fun r => r.1 ≤ c.toNat && c.toNat ≤ r.2

/-- The stretches between separators, the empty ones included. -/
def stretches (sep : Char → Bool) : List Char → List (List Char)
  | [] => [[]]
  | c :: rest =>
    if sep c then [] :: stretches sep rest
    else
      match stretches sep rest with
      | [] => [[c]]
      | s :: more => (c :: s) :: more

/-- The words of a text, first to last. -/
def words (s : String) : List String :=
  ((stretches isBlank s.toList).filter fun w => !w.isEmpty).map String.ofList

def trimLeft (cs : List Char) : List Char := cs.dropWhile isBlank

def trimRight (cs : List Char) : List Char := (trimLeft cs.reverse).reverse

/-- The text without the blanks at its two ends. -/
def trim (cs : List Char) : List Char := trimRight (trimLeft cs)

end KernelCore.Text
