import Mathlib.Data.Nat.Digits.Defs
import KernelCore.Config.Toml.Number
import KernelCore.Text.Escaped

/-!
# String literals

A string literal of program text is read character by character. A backslash starts an escape: of
one letter, of two hexadecimal digits, of a code point in braces, or of a line end, behind which
blanks do not count. A carriage return may only stand in front of a line feed, and the two count as
one. Escaped text between quotes is read as what was escaped; other text is read as it stands if,
and only if, it has no quotes, backslashes and carriage returns.
-/
namespace KernelCore.Config

open Text Toml

/-- Where a reader stands in a literal. -/
inductive LiteralPlace where
  | text
  /-- Behind a backslash. -/
  | escape
  /-- Behind a carriage return. -/
  | carriage
  /-- Behind a backslash and a carriage return. -/
  | continued
  /-- Behind an escaped line end. -/
  | gap
  /-- Behind `\x`. -/
  | ascii
  | asciiLow (high : Nat)
  /-- Behind `\u`. -/
  | brace
  /-- In the braces, behind some digits of a value. -/
  | digits (count value : Nat)
  deriving DecidableEq, Repr

/-- The escapes of one letter. -/
def letterEscape : Char → Option Char
  | 'n' => some '\n'
  | 'r' => some '\r'
  | 't' => some '\t'
  | '0' => some '\x00'
  | '\\' => some '\\'
  | '\x27' => some '\x27'
  | '"' => some '"'
  | _ => none

/-- Where the reader stands behind one more character, and the character it has understood. -/
def LiteralPlace.advance (c : Char) : LiteralPlace → Option (LiteralPlace × Option Char)
  | text =>
    if c = '\\' then some (escape, none)
    else if c = '\r' then some (carriage, none)
    else some (text, some c)
  | escape =>
    if c = 'x' then some (ascii, none)
    else if c = 'u' then some (brace, none)
    else if c = '\n' then some (gap, none)
    else if c = '\r' then some (continued, none)
    else (letterEscape c).map fun d => (text, some d)
  | carriage => if c = '\n' then some (text, some '\n') else none
  | continued => if c = '\n' then some (gap, none) else none
  | gap =>
    if c = ' ' ∨ c = '\t' ∨ c = '\n' ∨ c = '\r' then some (gap, none)
    else if c = '\\' then some (escape, none)
    else some (text, some c)
  | ascii => if isOctalDigit c then some (asciiLow (digitValue c), none) else none
  | asciiLow high =>
    if isHexDigit c then some (text, some (Char.ofNat (high * 16 + digitValue c))) else none
  | brace => if c = '\x7b' then some (digits 0 0, none) else none
  | digits count value =>
    if c = '\x7d' then
      if 0 < count ∧ value.isValidChar then some (text, some (Char.ofNat value)) else none
    else if c = '_' then if 0 < count then some (digits count value, none) else none
    else if isHexDigit c ∧ count < 6 then
      some (digits (count + 1) (value * 16 + digitValue c), none)
    else none

/-- The value of the rest of a literal, and what is behind its closing quote. -/
def readLiteral : LiteralPlace → List Char → Option (List Char × List Char)
  | _, [] => none
  | place, c :: rest =>
    if c = '"' ∧ (place = .text ∨ place = .gap) then some ([], rest)
    else do
      let (place, understood) ← place.advance c
      let (value, behind) ← readLiteral place rest
      pure (understood.toList ++ value, behind)

/-- The value of a text that is a string literal. -/
def literal? : List Char → Option (List Char)
  | '"' :: rest =>
    match readLiteral .text rest with
    | some (value, []) => some value
    | _ => none
  | _ => none

/-- A character in front of what is read. -/
def before (c : Char) (r : List Char × List Char) : List Char × List Char := (c :: r.1, r.2)

variable {place next : LiteralPlace} {c d : Char} {cs value rest behind : List Char}

theorem readLiteral_close (rest : List Char) : readLiteral .text ('"' :: rest) = some ([], rest) :=
  rfl

theorem readLiteral_silent (inside : c ≠ '"' ∨ place ≠ .text ∧ place ≠ .gap)
    (step : place.advance c = some (next, none)) (rest : List Char) :
    readLiteral place (c :: rest) = readLiteral next rest := by
  have inside' : ¬(c = '"' ∧ (place = .text ∨ place = .gap)) := by tauto
  rw [readLiteral, if_neg inside', step]
  cases h : readLiteral next rest <;> simp [h]

theorem readLiteral_understood (inside : c ≠ '"' ∨ place ≠ .text ∧ place ≠ .gap)
    (step : place.advance c = some (next, some d)) (rest : List Char) :
    readLiteral place (c :: rest) = (readLiteral next rest).map (before d) := by
  have inside' : ¬(c = '"' ∧ (place = .text ∨ place = .gap)) := by tauto
  rw [readLiteral, if_neg inside', step]
  cases h : readLiteral next rest <;> simp [h, before]

/-! ## Hexadecimal numbers -/

theorem isHexDigit_digitChar {n : Nat} (small : n < 16) : isHexDigit n.digitChar = true := by
  have all : ∀ n < 16, isHexDigit (Nat.digitChar n) = true := by decide
  exact all n small

theorem digitValue_digitChar {n : Nat} (small : n < 16) : digitValue n.digitChar = n := by
  have all : ∀ n < 16, digitValue (Nat.digitChar n) = n := by decide
  exact all n small

theorem digitChar_ne {n : Nat} (small : n < 16) :
    n.digitChar ≠ '"' ∧ n.digitChar ≠ '\x7d' ∧ n.digitChar ≠ '_' := by
  have all : ∀ n < 16, Nat.digitChar n ≠ '"' ∧ Nat.digitChar n ≠ '\x7d' ∧
      Nat.digitChar n ≠ '_' := by decide
  exact all n small

theorem readLiteral_digit {n count : Nat} (value : Nat) (small : n < 16) (room : count < 6)
    (rest : List Char) :
    readLiteral (.digits count value) (n.digitChar :: rest) =
      readLiteral (.digits (count + 1) (value * 16 + n)) rest := by
  obtain ⟨noQuote, noBrace, noLine⟩ := digitChar_ne small
  refine readLiteral_silent (.inl noQuote) ?_ rest
  simp [LiteralPlace.advance, noBrace, noLine, isHexDigit_digitChar small, room,
    digitValue_digitChar small]

/-- The digits of a number are read as the number. -/
theorem readLiteral_toDigits (n : Nat) (room : (Nat.toDigits 16 n).length ≤ 6) (rest : List Char) :
    readLiteral (.digits 0 0) (Nat.toDigits 16 n ++ rest) =
      readLiteral (.digits (Nat.toDigits 16 n).length n) rest := by
  induction n using Nat.strong_induction_on generalizing rest with
  | _ n ih =>
    by_cases small : n < 16
    · rw [Nat.toDigits_of_lt_base small] at room ⊢
      simpa using readLiteral_digit 0 small (by omega : 0 < 6) rest
    · have large : 16 ≤ n := by omega
      have split := Nat.toDigits_of_base_le (by decide : 1 < 16) large
      rw [split, List.length_append, List.length_singleton] at room ⊢
      rw [List.append_assoc, ih (n / 16) (by omega) (by omega), List.singleton_append,
        readLiteral_digit _ (by omega) (by omega), Nat.div_add_mod' n 16]

/-! ## Escaped text -/

theorem readLiteral_codePoint (c : Char) (rest : List Char) :
    readLiteral .text (['\\', 'u', '\x7b'] ++ Nat.toDigits 16 c.toNat ++ ['\x7d'] ++ rest) =
      (readLiteral .text rest).map (before c) := by
  have valid : c.toNat.isValidChar := c.valid
  have bound : c.toNat < 16 ^ 6 := by
    rcases valid with low | high <;> omega
  have length := Nat.toDigits_length 16 c.toNat 6 (by decide) bound
  have some_digit : 0 < (Nat.toDigits 16 c.toNat).length := List.length_pos_iff.mpr Nat.toDigits_ne_nil
  have slash : LiteralPlace.text.advance '\\' = some (.escape, none) := rfl
  have letter : LiteralPlace.escape.advance 'u' = some (.brace, none) := rfl
  have opening : LiteralPlace.brace.advance '\x7b' = some (.digits 0 0, none) := rfl
  have closing : (LiteralPlace.digits (Nat.toDigits 16 c.toNat).length c.toNat).advance '\x7d' =
      some (.text, some c) := by
    simp [LiteralPlace.advance, some_digit, valid, Char.ofNat_toNat]
  simp only [List.append_assoc, List.cons_append, List.nil_append]
  rw [readLiteral_silent (.inl (by decide)) slash, readLiteral_silent (.inl (by decide)) letter,
    readLiteral_silent (.inl (by decide)) opening, readLiteral_toDigits _ length,
    readLiteral_understood (.inl (by decide)) closing]

theorem readLiteral_letter (step : LiteralPlace.escape.advance d = some (.text, some c))
    (rest : List Char) :
    readLiteral .text ('\\' :: d :: rest) = (readLiteral .text rest).map (before c) := by
  have slash : LiteralPlace.text.advance '\\' = some (.escape, none) := rfl
  rw [readLiteral_silent (.inl (by decide)) slash,
    readLiteral_understood (.inr (by decide)) step]

/-- A character that stands for itself between quotes. -/
def Faithful (c : Char) : Prop := c ≠ '"' ∧ c ≠ '\\' ∧ c ≠ '\r'

instance (c : Char) : Decidable (Faithful c) := inferInstanceAs (Decidable (_ ∧ _))

theorem readLiteral_faithful (faithful : Faithful c) (rest : List Char) :
    readLiteral .text (c :: rest) = (readLiteral .text rest).map (before c) := by
  have step : LiteralPlace.text.advance c = some (.text, some c) := by
    simp [LiteralPlace.advance, faithful.2.1, faithful.2.2]
  exact readLiteral_understood (.inl faithful.1) step rest

/-- An escaped character is read as the character. -/
theorem readLiteral_escapeChar (c : Char) (rest : List Char) :
    readLiteral .text (escapeChar c ++ rest) = (readLiteral .text rest).map (before c) := by
  unfold escapeChar
  by_cases tab : c = '\t'
  · rw [if_pos tab, tab]
    exact readLiteral_letter rfl rest
  by_cases carriage : c = '\r'
  · rw [if_neg tab, if_pos carriage, carriage]
    exact readLiteral_letter rfl rest
  by_cases feed : c = '\n'
  · rw [if_neg tab, if_neg carriage, if_pos feed, feed]
    exact readLiteral_letter rfl rest
  rw [if_neg tab, if_neg carriage, if_neg feed]
  by_cases marked : c = '\x27' ∨ c = '"' ∨ c = '\\'
  · rw [if_pos marked]
    refine readLiteral_letter ?_ rest
    rcases marked with rfl | rfl | rfl <;> rfl
  rw [if_neg marked]
  by_cases plain : isPlain c = true
  · rw [if_pos plain]
    exact readLiteral_faithful ⟨by tauto, by tauto, carriage⟩ rest
  · rw [if_neg plain]
    exact readLiteral_codePoint c rest

theorem readLiteral_escape (cs rest : List Char) :
    readLiteral .text (escape cs ++ '"' :: rest) = some (cs, rest) := by
  induction cs with
  | nil => exact readLiteral_close rest
  | cons c cs ih =>
    rw [escape, List.flatMap_cons, List.append_assoc, readLiteral_escapeChar, ← escape, ih]
    rfl

/-! ## Text as it stands -/

theorem readLiteral_of_faithful (faithful : ∀ c ∈ cs, Faithful c) (rest : List Char) :
    readLiteral .text (cs ++ '"' :: rest) = some (cs, rest) := by
  induction cs with
  | nil => exact readLiteral_close rest
  | cons c cs ih =>
    rw [List.cons_append, readLiteral_faithful (faithful c List.mem_cons_self),
      ih fun x member => faithful x (List.mem_cons_of_mem c member)]
    rfl

/-- A literal is longer than its value by its closing quote at least. -/
theorem length_of_readLiteral (read : readLiteral place cs = some (value, behind)) :
    value.length + behind.length < cs.length := by
  induction cs generalizing place value behind with
  | nil => cases read
  | cons c cs ih =>
    rw [readLiteral] at read
    split at read
    · cases read
      simp
    · cases step : place.advance c with
      | none =>
        rw [step] at read
        cases read
      | some s =>
        obtain ⟨next, understood⟩ := s
        rw [step] at read
        cases others : readLiteral next cs with
        | none => simp [others] at read
        | some r =>
          obtain ⟨value', behind'⟩ := r
          have shorter := ih others
          simp only [others, Option.bind_eq_bind, Option.bind_some, Option.pure_def,
            Option.some.injEq, Prod.mk.injEq] at read
          obtain ⟨rfl, rfl⟩ := read
          have : understood.toList.length ≤ 1 := by cases understood <;> simp
          rw [List.length_append, List.length_cons]
          omega

/-- Text that is not changed by escapes has none. -/
theorem faithful_of_readLiteral (read : readLiteral .text (cs ++ ['"']) = some (cs, [])) :
    ∀ c ∈ cs, Faithful c := by
  induction cs with
  | nil => exact fun c member => absurd member List.not_mem_nil
  | cons c cs ih =>
    -- A character that is no text of its own leaves too few for the value.
    have spent : ∀ next, LiteralPlace.text.advance c = some (next, none) → c = '"' := by
      intro next step
      by_contra inside
      rw [List.cons_append, readLiteral_silent (.inl inside) step] at read
      have shorter := length_of_readLiteral read
      simp at shorter
    have noQuote : c ≠ '"' := by
      rintro rfl
      rw [List.cons_append, readLiteral_close] at read
      cases read
    have faithful : Faithful c := by
      refine ⟨noQuote, ?_, ?_⟩
      · rintro rfl
        exact noQuote (spent .escape rfl)
      · rintro rfl
        exact noQuote (spent .carriage rfl)
    rw [List.cons_append, readLiteral_faithful faithful] at read
    obtain ⟨⟨value, behind⟩, others, same⟩ := Option.map_eq_some_iff.mp read
    simp only [before, Prod.mk.injEq, List.cons.injEq, true_and] at same
    obtain ⟨rfl, rfl⟩ := same
    intro x member
    rcases List.mem_cons.mp member with rfl | later
    · exact faithful
    · exact ih others x later

theorem literal?_escape (cs : List Char) : literal? ('"' :: (escape cs ++ ['"'])) = some cs := by
  rw [literal?, readLiteral_escape]

/-- Text between quotes is a literal of just this text if it needs no escapes, and only then. -/
theorem literal?_eq_self_iff (cs : List Char) :
    literal? ('"' :: (cs ++ ['"'])) = some cs ↔ ∀ c ∈ cs, Faithful c := by
  constructor
  · intro same
    rw [literal?] at same
    split at same
    · rename_i value read
      obtain rfl := Option.some.inj same
      exact faithful_of_readLiteral read
    · cases same
  · intro faithful
    rw [literal?, readLiteral_of_faithful faithful]

end KernelCore.Config
