import Mathlib.Data.List.TakeDrop
import Mathlib.Data.List.TakeWhile
import KernelCore.Text.Blank

/-!
# Words of joined texts

A text that is cut at a blank has the words of its two parts, one after the other.
-/
namespace KernelCore.Text

/-! ## Cutting at a character -/

section

variable {sep c : Char} {before after cs : List Char}

/-- The cut at the first separator. -/
theorem span_ne_append_cons (absent : sep ∉ before) (after : List Char) :
    (before ++ sep :: after).span (· ≠ sep) = (before, sep :: after) := by
  rw [List.span_eq_takeWhile_dropWhile]
  have different : ∀ x ∈ before, decide (x ≠ sep) = true := by
    intro x member
    exact decide_eq_true fun same => absent (same ▸ member)
  rw [List.takeWhile_append_of_pos different, List.dropWhile_append_of_pos different]
  simp

/-- What stands on the two sides of a cut is the text. -/
theorem eq_of_span_ne (cut : cs.span (· ≠ sep) = (before, c :: after)) :
    cs = before ++ sep :: after := by
  rw [List.span_eq_takeWhile_dropWhile, Prod.mk.injEq] at cut
  have first : ¬decide (c ≠ sep) = true := by
    have := List.head?_dropWhile_not (fun x => decide (x ≠ sep)) cs
    rw [cut.2, List.head?_cons] at this
    simpa using this
  have same : c = sep := by simpa using first
  rw [← List.takeWhile_append_dropWhile (p := fun x => decide (x ≠ sep)) (l := cs), cut.1, cut.2, same]

end

/-! ## Words -/

variable {sep : Char → Bool} {c : Char}

theorem stretches_ne_nil (sep : Char → Bool) (cs : List Char) : stretches sep cs ≠ [] := by
  cases cs with
  | nil => simp [stretches]
  | cons c rest =>
    unfold stretches
    split
    · simp
    · split <;> simp

/-- Stretches end at a separator. -/
theorem stretches_append_cons (ends : sep c = true) (xs ys : List Char) :
    stretches sep (xs ++ c :: ys) = stretches sep xs ++ stretches sep ys := by
  induction xs with
  | nil => simp [stretches, ends]
  | cons x xs ih =>
    simp only [List.cons_append, stretches, ih]
    split
    · rfl
    · cases first : stretches sep xs with
      | nil => exact absurd first (stretches_ne_nil sep xs)
      | cons s more => rfl

/-- The words of a text, as characters. -/
def wordsOf (cs : List Char) : List (List Char) :=
  (stretches isBlank cs).filter fun w => !w.isEmpty

theorem words_eq (s : String) : words s = (wordsOf s.toList).map String.ofList := rfl

theorem wordsOf_append_cons (blank : isBlank c = true) (xs ys : List Char) :
    wordsOf (xs ++ c :: ys) = wordsOf xs ++ wordsOf ys := by
  unfold wordsOf
  rw [stretches_append_cons blank, List.filter_append]

theorem wordsOf_cons (blank : isBlank c = true) (cs : List Char) : wordsOf (c :: cs) = wordsOf cs :=
  wordsOf_append_cons blank [] cs

theorem wordsOf_append_singleton (blank : isBlank c = true) (cs : List Char) :
    wordsOf (cs ++ [c]) = wordsOf cs := by
  rw [wordsOf_append_cons blank]
  exact List.append_nil _

/-- A blank or nothing stands on one side of the cut between two texts. -/
def Apart (a b : String) : Prop :=
  (∀ c ∈ a.toList.getLast?, isBlank c = true) ∨ ∀ c ∈ b.toList.head?, isBlank c = true

theorem words_append {a b : String} (apart : Apart a b) : words (a ++ b) = words a ++ words b := by
  have cut : wordsOf (a.toList ++ b.toList) = wordsOf a.toList ++ wordsOf b.toList := by
    rcases apart with last | first
    · rcases List.eq_nil_or_concat a.toList with nothing | ⟨cs, c, ending⟩
      · rw [nothing]
        rfl
      · rw [ending, List.concat_eq_append] at last ⊢
        have blank : isBlank c = true := last c (by simp)
        rw [wordsOf_append_singleton blank, List.append_assoc]
        exact wordsOf_append_cons blank cs b.toList
    · cases opening : b.toList with
      | nil => simp [wordsOf, stretches]
      | cons c cs =>
        have blank : isBlank c = true := first c (by simp [opening])
        rw [wordsOf_cons blank]
        exact wordsOf_append_cons blank a.toList cs
  rw [words_eq, words_eq, words_eq, String.toList_append, cut, List.map_append]

end KernelCore.Text
