import Mathlib.Data.List.Basic
import KernelCore.Boot.CommandLine
import KernelCore.Proofs.Text.Words

/-!
# The last deciding word of a command line

Some words of a command line decide by what they are and where they stand, and the rest do not
matter: the line says what the last of those says. So a word that decides nothing can be put in
between two others, unless it becomes the argument of `-o`.
-/
namespace KernelCore.Boot

open Text

/-! ## Decisions -/

/-- What a word decides when it is no argument. -/
def alone (word : String) : Option Bool :=
  if word ∈ ["mlfqs", "mlfqs=1", "mlfqs=on", "mlfqs=true"] then some true
  else if word ∈ ["mlfqs=0", "mlfqs=off", "mlfqs=false"] then some false
  else none

/-- Whether the word at a place, or one that would be put behind the last, is the argument of a
`-o` in front of it. A `-o` that is an argument itself has none. -/
def consumed (ws : List String) : Nat → Bool
  | 0 => false
  | i + 1 => ws[i]? = some "-o" && !consumed ws i

/-- What the word at a place decides. -/
def decision (ws : List String) (i : Nat) : Option Bool :=
  if consumed ws i then none
  else
    match ws[i]? with
    | none => none
    | some word =>
      if word = "-o" then if ws[i + 1]? = some "mlfqs" then some true else none
      else alone word

def lastDecision (ws : List String) : Option Bool :=
  ((List.range ws.length).filterMap (decision ws)).getLast?

variable {word next : String} {ws : List String} {options : Options}

theorem consumed_cons (plain : word ≠ "-o") (i : Nat) :
    consumed (word :: ws) (i + 1) = consumed ws i := by
  induction i with
  | zero => simp [consumed, plain]
  | succ i ih => rw [consumed, ih, List.getElem?_cons_succ, consumed]

theorem consumed_option (next : String) (ws : List String) (i : Nat) :
    consumed ("-o" :: next :: ws) (i + 2) = consumed ws i := by
  induction i with
  | zero => simp [consumed]
  | succ i ih => rw [consumed, ih, List.getElem?_cons_succ, List.getElem?_cons_succ, consumed]

theorem decision_cons (plain : word ≠ "-o") (i : Nat) :
    decision (word :: ws) (i + 1) = decision ws i := by
  unfold decision
  rw [consumed_cons plain, List.getElem?_cons_succ, List.getElem?_cons_succ]

theorem decision_option (next : String) (ws : List String) (i : Nat) :
    decision ("-o" :: next :: ws) (i + 2) = decision ws i := by
  unfold decision
  rw [consumed_option, List.getElem?_cons_succ, List.getElem?_cons_succ, List.getElem?_cons_succ,
    List.getElem?_cons_succ]

/-- A word in front decides if none behind it does. -/
theorem lastDecision_cons (plain : word ≠ "-o") (ws : List String) :
    lastDecision (word :: ws) = (lastDecision ws).or (alone word) := by
  have first : decision (word :: ws) 0 = alone word := by simp [decision, consumed, plain]
  have others : (List.range ws.length).filterMap (decision (word :: ws) ∘ Nat.succ) =
      (List.range ws.length).filterMap (decision ws) :=
    List.filterMap_congr fun i _ => decision_cons plain i
  unfold lastDecision
  rw [List.length_cons, List.range_succ_eq_map, List.filterMap_cons, List.filterMap_map, others,
    first]
  cases alone word with
  | none => simp
  | some b => simp [List.getLast?_cons]

theorem lastDecision_option (next : String) (ws : List String) :
    lastDecision ("-o" :: next :: ws) =
      (lastDecision ws).or (if next = "mlfqs" then some true else none) := by
  have first : decision ("-o" :: next :: ws) 0 = if next = "mlfqs" then some true else none := by
    simp [decision, consumed]
  have second : decision ("-o" :: next :: ws) 1 = none := by simp [decision, consumed]
  have others : (List.range ws.length).filterMap
      ((decision ("-o" :: next :: ws) ∘ Nat.succ) ∘ Nat.succ) =
        (List.range ws.length).filterMap (decision ws) :=
    List.filterMap_congr fun i _ => decision_option next ws i
  unfold lastDecision
  rw [List.length_cons, List.length_cons, List.range_succ_eq_map, List.filterMap_cons,
    List.filterMap_map, List.range_succ_eq_map, List.filterMap_cons, List.filterMap_map, others,
    first, Function.comp_apply, second]
  by_cases chosen : next = "mlfqs"
  · simp [chosen, List.getLast?_cons]
  · simp [chosen]

/-! ## Reading words -/

/-- A word has a value if it is the key and the value with `=` between them. -/
theorem valueOf_eq_some_iff {key value : String} (short : '=' ∉ key.toList) :
    valueOf key word = some value ↔ word.toList = key.toList ++ '=' :: value.toList := by
  constructor
  · intro found
    unfold valueOf at found
    split at found
    · cases found
    · rename_i before mark after cut
      split at found
      · rename_i same
        obtain rfl := Option.some.inj found
        rw [String.toList_ofList, ← same]
        exact eq_of_span_ne cut
      · cases found
  · intro made
    unfold valueOf
    rw [made, span_ne_append_cons short]
    simp

theorem valueOf_feedbackKey (word value : String) :
    valueOf feedbackKey word = some value ↔ word = "mlfqs=" ++ value := by
  rw [valueOf_eq_some_iff (by decide), ← String.toList_inj, String.toList_append]
  exact Iff.rfl

/-- A value decides what the word made of it decides. -/
theorem alone_of_value (value : String) : alone ("mlfqs=" ++ value) = switch value := by
  have made : ∀ v : String, "mlfqs=" ++ value = "mlfqs=" ++ v ↔ value = v := by
    intro v
    rw [← String.toList_inj, String.toList_append, String.toList_append, List.append_cancel_left_eq,
      String.toList_inj]
  have bare : "mlfqs=" ++ value ≠ "mlfqs" := by
    intro same
    have lengths := congrArg String.length same
    rw [String.length_append] at lengths
    have key : "mlfqs=".length = 6 := rfl
    have key' : "mlfqs".length = 5 := rfl
    omega
  unfold alone switch
  simp only [List.mem_cons, List.not_mem_nil, or_false, bare, false_or,
    show ("mlfqs=1" : String) = "mlfqs=" ++ "1" from rfl,
    show ("mlfqs=on" : String) = "mlfqs=" ++ "on" from rfl,
    show ("mlfqs=true" : String) = "mlfqs=" ++ "true" from rfl,
    show ("mlfqs=0" : String) = "mlfqs=" ++ "0" from rfl,
    show ("mlfqs=off" : String) = "mlfqs=" ++ "off" from rfl,
    show ("mlfqs=false" : String) = "mlfqs=" ++ "false" from rfl, made]

/-- A word without a value decides nothing, unless it is the bare key. -/
theorem alone_of_plain (bare : word ≠ feedbackKey) (found : valueOf feedbackKey word = none) :
    alone word = none := by
  have made : ∀ v : String, word ≠ "mlfqs=" ++ v := by
    intro v same
    have := (valueOf_feedbackKey word v).mpr same
    rw [found] at this
    cases this
  have outside : word ∉ ["mlfqs", "mlfqs=1", "mlfqs=on", "mlfqs=true"] := by
    simp only [List.mem_cons, List.not_mem_nil, or_false, not_or]
    exact ⟨bare, made "1", made "on", made "true"⟩
  have outside' : word ∉ ["mlfqs=0", "mlfqs=off", "mlfqs=false"] := by
    simp only [List.mem_cons, List.not_mem_nil, or_false, not_or]
    exact ⟨made "0", made "off", made "false"⟩
  unfold alone
  rw [if_neg outside, if_neg outside']

theorem readWord_eq (options : Options) (word : String) :
    (readWord options word).1.feedback = (alone word).getD options.feedback := by
  unfold readWord
  by_cases bare : word = feedbackKey
  · rw [if_pos bare, bare]
    rfl
  · rw [if_neg bare]
    cases found : valueOf feedbackKey word with
    | none => rw [alone_of_plain bare found, Option.getD_none]
    | some value =>
      obtain rfl := (valueOf_feedbackKey word value).mp found
      rw [alone_of_value]
      cases decided : switch value <;> simp [decided]

theorem readWords_cons (plain : word ≠ "-o") (options : Options) (ws : List String) :
    (readWords options (word :: ws)).1 = (readWords (readWord options word).1 ws).1 := by
  cases ws with
  | nil => simp [readWords, plain]
  | cons next ws => simp [readWords, plain]

theorem readWords_option (options : Options) (next : String) (ws : List String) :
    (readWords options ("-o" :: next :: ws)).1 =
      (readWords (if next = "mlfqs" then ⟨true⟩ else options) ws).1 := by
  rw [readWords, if_pos rfl]
  rfl

/-- Words are read one by one, but for a `-o` and its argument, which are read together. -/
theorem words_induction {motive : List String → Prop} (nil : motive [])
    (dangling : motive ["-o"])
    (option : ∀ next ws, motive ws → motive ("-o" :: next :: ws))
    (plain : ∀ word ws, word ≠ "-o" → motive ws → motive (word :: ws)) :
    ∀ ws, motive ws
  | [] => nil
  | [word] => by
    by_cases dash : word = "-o"
    · exact dash ▸ dangling
    · exact plain word [] dash nil
  | word :: next :: ws => by
    by_cases dash : word = "-o"
    · exact dash ▸ option next ws (words_induction nil dangling option plain ws)
    · exact plain word (next :: ws) dash (words_induction nil dangling option plain (next :: ws))
termination_by ws => ws.length

/-- Reading leaves what the last deciding word says. -/
theorem readWords_eq (options : Options) (ws : List String) :
    (readWords options ws).1.feedback = (lastDecision ws).getD options.feedback := by
  induction ws using words_induction generalizing options with
  | nil => rfl
  | dangling => rfl
  | option next ws ih =>
    rw [readWords_option, ih, lastDecision_option]
    by_cases chosen : next = "mlfqs"
    · cases lastDecision ws <;> simp [chosen]
    · simp [chosen]
  | plain word ws plain ih =>
    rw [readWords_cons plain, ih, lastDecision_cons plain, readWord_eq]
    cases lastDecision ws <;> simp

/-! ## Words put in between -/

/-- A word that decides nothing and takes no argument. -/
def Idle (word : String) : Prop := word ≠ "-o" ∧ alone word = none

instance (word : String) : Decidable (Idle word) := inferInstanceAs (Decidable (_ ∧ _))

theorem readWord_idle (idle : Idle word) (options : Options) :
    (readWord options word).1 = options := by
  have same := readWord_eq options word
  rw [idle.2, Option.getD_none] at same
  exact congrArg Options.mk same

theorem readWords_idle {idles : List String} (idle : ∀ w ∈ idles, Idle w) (options : Options)
    (ws : List String) : (readWords options (idles ++ ws)).1 = (readWords options ws).1 := by
  induction idles with
  | nil => rfl
  | cons w idles ih =>
    have first := idle w List.mem_cons_self
    rw [List.cons_append, readWords_cons first.1, readWord_idle first,
      ih fun x member => idle x (List.mem_cons_of_mem w member)]

/-- If no `-o` waits for its argument, the words behind are read on their own. -/
theorem readWords_append {ws : List String} (settled : consumed ws ws.length = false)
    (options : Options) (rest : List String) :
    (readWords options (ws ++ rest)).1 = (readWords (readWords options ws).1 rest).1 := by
  induction ws using words_induction generalizing options with
  | nil => rfl
  | dangling => cases settled
  | option next ws ih =>
    rw [List.length_cons, List.length_cons, consumed_option] at settled
    rw [List.cons_append, List.cons_append, readWords_option, readWords_option, ih settled]
  | plain word ws plain ih =>
    rw [List.length_cons, consumed_cons plain] at settled
    rw [List.cons_append, readWords_cons plain, readWords_cons plain, ih settled]

theorem parse_eq (line : String) :
    (parse line).1 = (readWords ⟨feedbackByDefault⟩ (words line)).1 := by
  unfold parse
  by_cases blank : words line = []
  · have silent : words defaultCommandLine = [] := by decide
    simp only [blank, if_true, silent]
  · simp only [blank, if_false]

/-- Where a text of idle words can be put between two others: no word is cut or prolonged, and no
`-o` gets another argument. -/
structure Insertable (front inserted back : String) : Prop where
  between : Apart front back
  behind : Apart front inserted
  before : Apart inserted back
  idle : ∀ w ∈ words inserted, Idle w
  settled : consumed (words front) (words front).length = true →
    words inserted = []

theorem Insertable.outer {front inserted back : String} (h : Insertable front inserted back) :
    Apart (front ++ inserted) back := by
  rcases h.before with last | first
  · by_cases nothing : inserted.toList = []
    · have same : (front ++ inserted).toList = front.toList := by
        rw [String.toList_append, nothing, List.append_nil]
      unfold Apart
      rw [same]
      exact h.between
    · left
      rw [String.toList_append, List.getLast?_append_of_ne_nil _ nothing]
      exact last
  · exact .inr first

/-- A command line says what its last deciding word says, and idle words change nothing. -/
theorem parse_lastDecision :
    (∀ line, (parse line).1.feedback =
      (lastDecision (words line)).getD feedbackByDefault) ∧
    ∀ front inserted back, Insertable front inserted back →
      (parse (front ++ inserted ++ back)).1 = (parse (front ++ back)).1 := by
  constructor
  · intro line
    rw [parse_eq, readWords_eq]
  · intro front inserted back insertable
    rw [parse_eq, parse_eq, words_append insertable.outer, words_append insertable.behind,
      words_append insertable.between]
    cases waits : consumed (words front) (words front).length with
    | true => rw [insertable.settled waits, List.append_nil]
    | false =>
      rw [List.append_assoc, readWords_append waits, readWords_append waits,
        readWords_idle insertable.idle]

/-- The second `-o` is the argument of the first, so the word behind it decides. Words that decide
nothing may stand between the two and what follows. -/
theorem parse_lastDecision_chained :
    Insertable "-o -o " "quiet mlfqs=bogus" " mlfqs=off -o other" ∧
      (parse "-o -o quiet mlfqs=bogus mlfqs=off -o other").1 =
        (parse "-o -o  mlfqs=off -o other").1 ∧
      (parse "-o -o  mlfqs=off -o other").1.feedback = false := by
  have insertable : Insertable "-o -o " "quiet mlfqs=bogus" " mlfqs=off -o other" := by
    refine ⟨.inl ?_, .inl ?_, .inr ?_, by decide, by decide⟩
    all_goals
      intro c edge
      cases edge
      rfl
  have decided : lastDecision (words "-o -o  mlfqs=off -o other") = some false := by decide
  have same := parse_lastDecision.2 _ _ _ insertable
  have longer : "-o -o " ++ "quiet mlfqs=bogus" ++ " mlfqs=off -o other" =
      "-o -o quiet mlfqs=bogus mlfqs=off -o other" := by decide +kernel
  have shorter : "-o -o " ++ " mlfqs=off -o other" = "-o -o  mlfqs=off -o other" := by
    decide +kernel
  rw [longer, shorter] at same
  refine ⟨insertable, same, ?_⟩
  rw [parse_lastDecision.1, decided]
  rfl

end KernelCore.Boot
