import KernelCore.Text.Blank
import KernelCore.Text.Lines

/-!
# Reading lines and trimmed text back

Lines that are written one after another, with a line feed between any two, are read back. A
carriage return at the end of a line may get lost, and so may a last line that is empty: whoever
collects what is on each line does not see this, if neither means anything to him.
-/
namespace KernelCore.Text

variable {α : Type} {c : Char} {line rest : List Char} {written : List (List Char)}

/-! ## Lines -/

/-- A line without the carriage return at its end. -/
def chomp : List Char → List Char
  | [] => []
  | ['\r'] => []
  | c :: cs => c :: chomp cs

theorem chomp_cons_cons (c d : Char) (cs : List Char) :
    chomp (c :: d :: cs) = c :: chomp (d :: cs) := by
  rw [chomp]
  simp

theorem eq_or_eq_chomp (line : List Char) : line = chomp line ∨ line = chomp line ++ ['\r'] := by
  induction line with
  | nil => exact .inl rfl
  | cons c cs ih =>
    cases cs with
    | nil =>
      by_cases carriage : c = '\r'
      · exact .inr (by rw [carriage]; rfl)
      · exact .inl (by simp [chomp, carriage])
    | cons d cs =>
      rw [chomp_cons_cons]
      cases ih with
      | inl same => exact .inl (congrArg (c :: ·) same)
      | inr longer => exact .inr (congrArg (c :: ·) longer)

/-- A character that ends no line goes in front of the first one. -/
theorem lines_cons_of_ne {first : List Char} {more : List (List Char)} (feed : c ≠ '\n')
    (carriage : c = '\r' → rest.head? ≠ some '\n') (tail : lines rest = first :: more) :
    lines (c :: rest) = (c :: first) :: more := by
  rw [lines, tail]
  · intro same
    exact feed same
  · intro after same split
    exact carriage same (by rw [split]; rfl)

theorem lines_append_cons (whole : '\n' ∉ line) (rest : List Char) :
    lines (line ++ '\n' :: rest) = chomp line :: lines rest := by
  induction line with
  | nil => rfl
  | cons c cs ih =>
    rw [List.mem_cons, not_or] at whole
    have tail := ih whole.2
    cases cs with
    | nil =>
      by_cases carriage : c = '\r'
      · rw [carriage]
        rfl
      · rw [List.cons_append, lines_cons_of_ne (Ne.symm whole.1) (absurd · carriage) tail]
        simp [chomp, carriage]
    | cons d cs =>
      have feed : d ≠ '\n' := fun same => whole.2 (by simp [same])
      rw [chomp_cons_cons, List.cons_append, lines_cons_of_ne (Ne.symm whole.1) ?_ tail]
      intro _ head
      exact feed (Option.some.inj head)

theorem lines_of_not_mem (whole : '\n' ∉ line) (text : line ≠ []) : lines line = [line] := by
  induction line with
  | nil => exact absurd rfl text
  | cons c cs ih =>
    rw [List.mem_cons, not_or] at whole
    have feed : c ≠ '\n' := Ne.symm whole.1
    cases cs with
    | nil =>
      rw [lines, lines]
      · exact feed
      · intro _ _ split
        cases split
    | cons d cs =>
      have feed' : d ≠ '\n' := fun same => whole.2 (by simp [same])
      apply lines_cons_of_ne feed _ (ih whole.2 (List.cons_ne_nil d cs))
      intro _ head
      exact feed' (Option.some.inj head)

/-- What is collected from the lines of a text is what is on the lines it was written with. -/
theorem filterMap_lines {f : List Char → Option α} (nothing : f [] = none)
    (carriage : ∀ line, f (line ++ ['\r']) = f line) (whole : ∀ line ∈ written, '\n' ∉ line) :
    (lines (List.intercalate ['\n'] written)).filterMap f = written.filterMap f := by
  have same : ∀ line, f (chomp line) = f line := by
    intro line
    cases eq_or_eq_chomp line with
    | inl same => rw [← same]
    | inr longer =>
      have lost := carriage (chomp line)
      rw [← longer] at lost
      exact lost.symm
  induction written with
  | nil => rfl
  | cons line written ih =>
    have first := whole line List.mem_cons_self
    have others := ih fun l member => whole l (List.mem_cons_of_mem line member)
    cases written with
    | nil =>
      rw [List.intercalate_singleton]
      by_cases text : line = []
      · simp [text, lines, nothing]
      · rw [lines_of_not_mem first text]
    | cons next written =>
      rw [List.intercalate_cons_cons, List.append_assoc, List.singleton_append,
        lines_append_cons first, List.filterMap_cons, List.filterMap_cons, same, others]

/-! ## Trimmed text -/

theorem dropWhile_of_head {p : Char → Bool} {cs : List Char} (first : ∀ c ∈ cs.head?, p c = false) :
    cs.dropWhile p = cs := by
  cases cs with
  | nil => rfl
  | cons c cs =>
    have stops := first c rfl
    simp [stops]

/-- Dropping characters at both ends of a text, where it stops at once, leaves the text between. -/
theorem dropWhile_ends {p : Char → Bool} {lead cs trail : List Char}
    (front : ∀ c ∈ lead, p c = true) (back : ∀ c ∈ trail, p c = true)
    (first : ∀ c ∈ cs.head?, p c = false) (last : ∀ c ∈ cs.getLast?, p c = false) :
    (((lead ++ (cs ++ trail)).dropWhile p).reverse.dropWhile p).reverse = cs := by
  have back' : ∀ c ∈ trail.reverse, p c = true := fun c member => back c (List.mem_reverse.mp member)
  have last' : ∀ c ∈ cs.reverse.head?, p c = false := by
    rw [List.head?_reverse]
    exact last
  have middle : ((cs ++ trail).dropWhile p).reverse.dropWhile p = cs.reverse := by
    cases cs with
    | nil =>
      rw [List.nil_append, ← List.append_nil trail, List.dropWhile_append_of_pos back]
      rfl
    | cons c cs =>
      have stops : ∀ x ∈ (c :: cs ++ trail).head?, p x = false := first
      rw [dropWhile_of_head stops, List.reverse_append, List.dropWhile_append_of_pos back',
        dropWhile_of_head last']
  rw [List.dropWhile_append_of_pos front, middle, List.reverse_reverse]

theorem trim_ends {lead cs trail : List Char} (front : ∀ c ∈ lead, isBlank c = true)
    (back : ∀ c ∈ trail, isBlank c = true) (first : ∀ c ∈ cs.head?, isBlank c = false)
    (last : ∀ c ∈ cs.getLast?, isBlank c = false) : trim (lead ++ (cs ++ trail)) = cs :=
  dropWhile_ends front back first last

theorem head?_trim (front : ∀ c ∈ rest, isBlank c = true) (solid : isBlank c = false)
    (cs : List Char) : (trim (rest ++ c :: cs)).head? = some c := by
  have first : ∀ x ∈ (c :: cs).head?, isBlank x = false := by
    intro x head
    cases head
    exact solid
  unfold trim trimRight trimLeft
  rw [List.dropWhile_append_of_pos front, dropWhile_of_head first, List.reverse_cons,
    List.dropWhile_append]
  split <;> simp [solid]

/-- A blank at the end does not count. -/
theorem trim_append_singleton (blank : isBlank c = true) (cs : List Char) :
    trim (cs ++ [c]) = trim cs := by
  unfold trim trimRight trimLeft
  rw [List.dropWhile_append]
  by_cases nothing : cs.dropWhile isBlank = []
  · simp [nothing, blank]
  · simp [nothing, blank, List.reverse_append]

end KernelCore.Text
