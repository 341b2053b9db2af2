import Mathlib.Data.List.Basic
import KernelCore.Config.Constants
import KernelCore.Proofs.Config.Literal
import KernelCore.Proofs.Text.Words

/-!
# Programs of constants

The generated program text is read back as a program: a sequence of declarations of constants with
line comments and blank lines between them. A value is a string literal or a word up to the
semicolon. What a text declares is determined by the text, and a list of declarations that are each
well formed declares what they say.
-/
namespace KernelCore.Config

open Text

inductive ConstantValue where
  | text (s : String)
  | word (s : String)
  deriving DecidableEq, Repr

structure Constant where
  name : String
  type : String
  value : ConstantValue
  deriving DecidableEq, Repr

/-! ## Reading -/

/-- What is behind line ends and line comments. -/
def skipComments : (inside : Bool) → List Char → List Char
  | _, [] => []
  | true, c :: rest => skipComments (c ≠ '\n') rest
  | false, '\n' :: rest => skipComments false rest
  | false, '/' :: '/' :: rest => skipComments true rest
  | false, cs => cs

def readConstantValue : List Char → Option (ConstantValue × List Char)
  | '"' :: cs => (readLiteral .text cs).map fun r => (.text (String.ofList r.1), r.2)
  | cs =>
    let (word, rest) := cs.span (· ≠ ';')
    some (.word (String.ofList word), rest)

/-- A declaration at the front of a text, and what is behind it. -/
def readConstant (cs : List Char) : Option (Constant × List Char) := do
  let cs ← cs.dropPrefix? "pub const ".toList
  let (name, cs) := cs.span (· ≠ ':')
  let cs ← cs.dropPrefix? ": ".toList
  let (type, cs) := cs.span (· ≠ ' ')
  let cs ← cs.dropPrefix? " = ".toList
  let (value, cs) ← readConstantValue cs
  let cs ← cs.dropPrefix? ";".toList
  pure (⟨String.ofList name, String.ofList type, value⟩, cs)

/-- What a text declares, first to last. -/
inductive Declares : List Char → List Constant → Prop
  | nothing {cs : List Char} (ended : skipComments false cs = []) : Declares cs []
  | constant {cs rest : List Char} {k : Constant} {ks : List Constant}
      (first : readConstant (skipComments false cs) = some (k, rest)) (others : Declares rest ks) :
      Declares cs (k :: ks)

variable {cs rest : List Char} {k : Constant} {ks : List Constant} {d : Declaration}
  {ds : List Declaration}

theorem readConstant_nil : readConstant [] = none := by decide

theorem Declares.unique {ks' : List Constant} (h : Declares cs ks) (h' : Declares cs ks') :
    ks' = ks := by
  induction h generalizing ks' with
  | nothing ended =>
    cases h' with
    | nothing => rfl
    | constant first others =>
      rw [ended, readConstant_nil] at first
      cases first
  | constant first others ih =>
    cases h' with
    | nothing ended =>
      rw [ended, readConstant_nil] at first
      cases first
    | constant first' others' =>
      rw [first] at first'
      obtain ⟨rfl, rfl⟩ := Prod.mk.inj (Option.some.inj first')
      rw [ih others']

theorem not_declares (left : skipComments false cs ≠ [])
    (stuck : readConstant (skipComments false cs) = none) (ks : List Constant) :
    ¬Declares cs ks := by
  intro declares
  cases declares with
  | nothing ended => exact left ended
  | constant first others =>
    rw [stuck] at first
    cases first

theorem Declares.of_skipComments {cs' : List Char}
    (same : skipComments false cs' = skipComments false cs) (declares : Declares cs ks) :
    Declares cs' ks := by
  cases declares with
  | nothing ended => exact .nothing (same.trans ended)
  | constant first others =>
    rw [← same] at first
    exact .constant first others

/-! ## Lines that do not count -/

theorem skipComments_lineEnd (rest : List Char) :
    skipComments false ("\n".toList ++ rest) = skipComments false rest := by
  change skipComments false ('\n' :: rest) = _
  rw [skipComments]

theorem skipComments_inside {line : List Char} (whole : '\n' ∉ line) (rest : List Char) :
    skipComments true (line ++ '\n' :: rest) = skipComments false rest := by
  induction line with
  | nil => simp [skipComments]
  | cons c line ih =>
    rw [List.mem_cons, not_or] at whole
    have goesOn : decide (c ≠ '\n') = true := decide_eq_true (Ne.symm whole.1)
    rw [List.cons_append, skipComments, goesOn, ih whole.2]

theorem skipComments_comment {line : String} (whole : '\n' ∉ line.toList) (rest : List Char) :
    skipComments false ("//".toList ++ (line.toList ++ ("\n".toList ++ rest))) =
      skipComments false rest := by
  change skipComments true (line.toList ++ '\n' :: rest) = _
  exact skipComments_inside whole rest

/-! ## Declarations -/

/-- Comment, name and type end where they are meant to. -/
def Declaration.Labelled (d : Declaration) : Prop :=
  '\n' ∉ d.comment.toList ∧ ':' ∉ d.name.toList ∧ ' ' ∉ d.type.toList

theorem dropPrefix?_append (p cs : List Char) : (p ++ cs).dropPrefix? p = some cs :=
  List.dropPrefix?_append_of_beq cs (beq_self_eq_true p)

theorem skipComments_source (labelled : d.Labelled) (rest : List Char) :
    skipComments false (d.source.toList ++ rest) =
      "pub const ".toList ++ (d.name.toList ++ (": ".toList ++ (d.type.toList ++ (" = ".toList ++
        (d.value.toList ++ (";".toList ++ ("\n".toList ++ rest))))))) := by
  have text : d.source.toList ++ rest =
      "//".toList ++ (("/ " ++ d.comment).toList ++ ("\n".toList ++ ("pub const ".toList ++
        (d.name.toList ++ (": ".toList ++ (d.type.toList ++ (" = ".toList ++ (d.value.toList ++
          (";".toList ++ ("\n".toList ++ rest)))))))))) := by
    simp [Declaration.source]
  have line : '\n' ∉ ("/ " ++ d.comment).toList := by
    simp [labelled.1]
  rw [text, skipComments_comment line]
  rfl

/-- Name and type are read as they are written, and what is behind them decides about the value. -/
theorem readConstant_labelled (labelled : d.Labelled) (cs : List Char) :
    readConstant ("pub const ".toList ++ (d.name.toList ++ (": ".toList ++ (d.type.toList ++
      (" = ".toList ++ cs))))) =
      (readConstantValue cs).bind fun r =>
        (r.2.dropPrefix? ";".toList).bind fun rest => some (⟨d.name, d.type, r.1⟩, rest) := by
  have name : (d.name.toList ++ (": ".toList ++ (d.type.toList ++ (" = ".toList ++ cs)))).span
      (· ≠ ':') = (d.name.toList, ": ".toList ++ (d.type.toList ++ (" = ".toList ++ cs))) :=
    span_ne_append_cons labelled.2.1 _
  have type : (d.type.toList ++ (" = ".toList ++ cs)).span (· ≠ ' ') =
      (d.type.toList, " = ".toList ++ cs) := span_ne_append_cons labelled.2.2 _
  simp only [readConstant, dropPrefix?_append, name, type, Option.bind_eq_bind, Option.bind_some,
    Option.pure_def, String.ofList_toList]

theorem readConstant_source (labelled : d.Labelled) (rest : List Char) :
    readConstant (skipComments false (d.source.toList ++ rest)) =
      (readConstantValue (d.value.toList ++ (";".toList ++ ("\n".toList ++ rest)))).bind fun r =>
        (r.2.dropPrefix? ";".toList).bind fun rest => some (⟨d.name, d.type, r.1⟩, rest) := by
  rw [skipComments_source labelled, readConstant_labelled labelled]

/-- A declaration declares a constant. -/
structure Declaration.Reads (d : Declaration) (k : Constant) : Prop where
  labelled : d.Labelled
  name : k.name = d.name
  type : k.type = d.type
  value : ∀ rest, readConstantValue (d.value.toList ++ ';' :: rest) = some (k.value, ';' :: rest)

theorem Declares.declaration (reads : d.Reads k) (others : Declares rest ks) :
    Declares (d.source.toList ++ rest) (k :: ks) := by
  have value : readConstantValue (d.value.toList ++ (";".toList ++ ("\n".toList ++ rest))) =
      some (k.value, ";".toList ++ ("\n".toList ++ rest)) := reads.value _
  have first : readConstant (skipComments false (d.source.toList ++ rest)) =
      some (k, "\n".toList ++ rest) := by
    rw [readConstant_source reads.labelled, value, Option.bind_some, dropPrefix?_append,
      Option.bind_some, ← reads.name, ← reads.type]
  exact .constant first (others.of_skipComments (skipComments_lineEnd rest))

theorem Declares.declarations (reads : List.Forall₂ Declaration.Reads ds ks) :
    Declares ("\n".intercalate (ds.map Declaration.source)).toList ks := by
  induction reads with
  | nil => exact .nothing rfl
  | @cons d k ds ks first others ih =>
    cases ds with
    | nil =>
      cases others
      have last : Declares (d.source.toList ++ []) [k] := .declaration first (.nothing rfl)
      simpa using last
    | cons d' ds =>
      have split : ("\n".intercalate ((d :: d' :: ds).map Declaration.source)).toList =
          d.source.toList ++
            ("\n".toList ++ ("\n".intercalate ((d' :: ds).map Declaration.source)).toList) := by
        simp
      rw [split]
      exact .declaration first (ih.of_skipComments (skipComments_lineEnd _))

end KernelCore.Config
