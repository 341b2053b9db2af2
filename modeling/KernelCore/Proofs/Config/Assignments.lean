import KernelCore.Config.Assignments
import KernelCore.Proofs.Text.Lines
import KernelCore.Proofs.Text.Words

/-!
# Files of assignments read back

A file is written line by line: assignments, comments and blank lines, with blanks wherever there
is room for them. Reading it back gives each key the value of its last assignment. The blanks in
front of an equals sign are the one exception: they count as part of the key, so that the
assignment is found under no key of letters, digits and underscores.
-/
namespace KernelCore.Config

open Text

/-! ## Values and their spelling -/

inductive Sign where
  | none
  | plus
  | minus
  deriving DecidableEq, Repr

def Sign.text : Sign → List Char
  | none => []
  | plus => ['+']
  | minus => ['-']

def Sign.apply (n : Nat) : Sign → Int
  | none => n
  | plus => n
  | minus => -n

/-- How values are spelled: truth values, signed 64-bit numbers in decimal, and quoted text. -/
inductive Spells : List Char → Scalar → Prop
  | boolean (b : Bool) : Spells (toString b).toList (.boolean b)
  | integer (sign : Sign) {digits : List Char} (nonempty : digits ≠ [])
      (decimal : digits.all Char.isDigit = true)
      (low : -9223372036854775808 ≤ sign.apply (Nat.ofDigitChars 10 digits 0))
      (high : sign.apply (Nat.ofDigitChars 10 digits 0) ≤ 9223372036854775807) :
      Spells (sign.text ++ digits) (.integer (sign.apply (Nat.ofDigitChars 10 digits 0)))
  | string {s : String} (oneLine : '\n' ∉ s.toList) (front : s.toList.head? ≠ some '"')
      (back : s.toList.getLast? ≠ some '"') :
      Spells ('"' :: (s.toList ++ ['"'])) (.string s)

variable {c : Char} {cs digits value : List Char} {meaning : Scalar}

theorem isBlank_of_isAlphanum (alphanum : c.isAlphanum = true) : isBlank c = false := by
  change ((decide ('A'.val ≤ c.val ∧ c.val ≤ 'Z'.val) ||
    decide ('a'.val ≤ c.val) && decide (c.val ≤ 'z'.val)) ||
    decide ('0'.val ≤ c.val) && decide (c.val ≤ '9'.val)) = true at alphanum
  simp only [Bool.or_eq_true, Bool.and_eq_true, decide_eq_true_eq, UInt32.le_iff_toNat_le]
    at alphanum
  change ((65 ≤ c.toNat ∧ c.toNat ≤ 90) ∨ (97 ≤ c.toNat ∧ c.toNat ≤ 122)) ∨
    (48 ≤ c.toNat ∧ c.toNat ≤ 57) at alphanum
  simp only [isBlank, blankRanges, List.any_cons, List.any_nil, Bool.or_false, Bool.or_eq_false_iff,
    Bool.and_eq_false_iff, decide_eq_false_iff_not]
  omega

theorem isAlphanum_of_isDigit (digit : c.isDigit = true) : c.isAlphanum = true := by
  simp [Char.isAlphanum, digit]

theorem ofDigits_eq_ofDigitChars (decimal : ∀ c ∈ digits, c.isDigit = true) (n : Nat) :
    digits.foldl (fun n c => n * 10 + digitValue c) n = Nat.ofDigitChars 10 digits n := by
  induction digits generalizing n with
  | nil => rfl
  | cons c cs ih =>
    have digit : digitValue c = c.toNat - '0'.toNat := by
      simp [digitValue, decimal c List.mem_cons_self]
    rw [List.foldl_cons, Nat.ofDigitChars_cons, digit, Nat.mul_comm n 10,
      ih fun d member => decimal d (List.mem_cons_of_mem c member)]

theorem decimal?_signed (sign : Sign) (nonempty : digits ≠ [])
    (decimal : digits.all Char.isDigit = true)
    (low : -9223372036854775808 ≤ sign.apply (Nat.ofDigitChars 10 digits 0))
    (high : sign.apply (Nat.ofDigitChars 10 digits 0) ≤ 9223372036854775807) :
    decimal? (sign.text ++ digits) = some (sign.apply (Nat.ofDigitChars 10 digits 0)) := by
  have value : ofDigits 10 digitValue digits = Nat.ofDigitChars 10 digits 0 :=
    ofDigits_eq_ofDigitChars (List.all_eq_true.mp decimal) 0
  have range : isInteger (sign.apply (Nat.ofDigitChars 10 digits 0)) = true := by
    simp only [isInteger, Bool.and_eq_true, decide_eq_true_eq]
    exact ⟨low, high⟩
  cases sign with
  | plus =>
    simp only [Sign.apply] at range
    simp [decimal?, Sign.text, Sign.apply, nonempty, decimal, value, range]
  | minus =>
    simp only [Sign.apply] at range
    simp [decimal?, Sign.text, Sign.apply, nonempty, decimal, value, range]
  | none =>
    simp only [Sign.apply] at range
    have first : ∀ rest, digits ≠ '-' :: rest ∧ digits ≠ '+' :: rest := by
      intro rest
      constructor
      all_goals
        intro same
        have digit := List.all_eq_true.mp decimal _ (same ▸ List.mem_cons_self)
        cases digit
    unfold decimal?
    simp only [Sign.text, List.nil_append]
    split
    · exact ((first _).1 rfl).elim
    · exact ((first _).2 rfl).elim
    · simp [Sign.apply, nonempty, decimal, value, range]

theorem decimal?_quote (cs : List Char) : decimal? ('"' :: cs) = none := by
  simp [decimal?]

theorem unquote_quoted {s : List Char} (front : s.head? ≠ some '"') (back : s.getLast? ≠ some '"') :
    unquote ('"' :: (s ++ ['"'])) = s := by
  have ends : ∀ c ∈ ['"'], decide (c = '"') = true := by simp
  apply dropWhile_ends ends ends
  · intro c first
    exact decide_eq_false fun same => front (same ▸ first)
  · intro c last
    exact decide_eq_false fun same => back (same ▸ last)

/-- A value is read as what it spells. -/
theorem readScalar_of_spells (spells : Spells value meaning) : readScalar value = meaning := by
  cases spells with
  | boolean b => cases b <;> rfl
  | @integer sign digits nonempty decimal low high =>
    have number := decimal?_signed sign nonempty decimal low high
    have other : ∀ word ∈ ["true".toList, "false".toList], sign.text ++ digits ≠ word := by
      intro word member same
      rw [same] at number
      have none : ∀ word ∈ ["true".toList, "false".toList], decimal? word = none := by decide
      rw [none word member] at number
      cases number
    rw [readScalar, if_neg (other _ (by simp)), if_neg (other _ (by simp)), number]
  | @string s oneLine front back =>
    have other : ∀ word ∈ ["true".toList, "false".toList], '"' :: (s.toList ++ ['"']) ≠ word := by
      intro word member same
      simp only [List.mem_cons, List.not_mem_nil, or_false] at member
      cases member with
      | inl true => cases same.trans true
      | inr false => cases same.trans false
    rw [readScalar, if_neg (other _ (by simp)), if_neg (other _ (by simp)), decimal?_quote,
      unquote_quoted front back, String.ofList_toList]

/-- A spelling is not empty, is on one line, and has no blanks at its ends. -/
structure Compact (cs : List Char) : Prop where
  nonempty : cs ≠ []
  oneLine : '\n' ∉ cs
  first : ∀ c ∈ cs.head?, isBlank c = false
  last : ∀ c ∈ cs.getLast?, isBlank c = false

theorem compact_of_solid (nonempty : cs ≠ []) (solid : ∀ c ∈ cs, isBlank c = false) :
    Compact cs where
  nonempty := nonempty
  oneLine := fun member => absurd (solid '\n' member) (by decide)
  first := fun c head => solid c (List.mem_of_mem_head? head)
  last := fun c last => solid c (List.mem_of_mem_getLast? last)

theorem Spells.compact (spells : Spells value meaning) : Compact value := by
  cases spells with
  | boolean b =>
    have nonempty : (toString b).toList ≠ [] := by cases b <;> decide
    have solid : (toString b).toList.all (fun c => !isBlank c) = true := by cases b <;> decide
    exact compact_of_solid nonempty (by simpa using solid)
  | @integer sign digits nonempty decimal low high =>
    have mark : ∀ c ∈ sign.text, isBlank c = false := by
      cases sign <;> simp [Sign.text, isBlank, blankRanges]
    apply compact_of_solid (List.append_ne_nil_of_right_ne_nil _ nonempty)
    intro c member
    cases List.mem_append.mp member with
    | inl front => exact mark c front
    | inr back => exact isBlank_of_isAlphanum (isAlphanum_of_isDigit (List.all_eq_true.mp decimal c back))
  | @string s oneLine front back =>
    refine ⟨List.cons_ne_nil _ _, by simp [oneLine], ?_, ?_⟩
    · intro c head
      cases head
      decide
    · intro c last
      rw [← List.cons_append, List.getLast?_append] at last
      cases last
      decide

/-! ## Lines as they are written -/

theorem splitAt?_append_cons {sep : Char} {before : List Char} (absent : sep ∉ before)
    (after : List Char) : splitAt? sep (before ++ sep :: after) = some (before, after) := by
  rw [splitAt?, span_ne_append_cons absent]

/-- Room inside a line. -/
def Blanks (cs : List Char) : Prop := ∀ c ∈ cs, isBlank c = true ∧ c ≠ '\n'

instance (cs : List Char) : Decidable (Blanks cs) := List.decidableBAll _ cs

theorem Blanks.oneLine (blanks : Blanks cs) : '\n' ∉ cs := fun member => (blanks '\n' member).2 rfl

/-- An assignment of a value to a key of a group, with the blanks it is written with. -/
structure Assignment where
  group : String
  key : String
  value : List Char
  meaning : Scalar
  lead : List Char
  before : List Char
  after : List Char
  trail : List Char
  groupNamed : group ≠ "" ∧ ∀ c ∈ group.toList, c.isAlphanum = true
  keyNamed : key ≠ "" ∧ ∀ c ∈ key.toList, c.isAlphanum = true ∨ c = '_'
  spelled : Spells value meaning
  room : Blanks lead ∧ Blanks before ∧ Blanks after ∧ Blanks trail

namespace Assignment

/-- The assignment without the blanks at its ends. -/
def body (a : Assignment) : List Char :=
  a.group.toList ++ '_' :: (a.key.toList ++ a.before ++ '=' :: (a.after ++ a.value))

def text (a : Assignment) : List Char := a.lead ++ (a.body ++ a.trail)

/-- The key with the blanks in front of the equals sign. -/
def storedKey (a : Assignment) : String := String.ofList (a.key.toList ++ a.before)

/-- What is read from the line. -/
def entry (a : Assignment) : List String × Scalar := ([a.group, a.storedKey], a.meaning)

variable (a : Assignment)

theorem absent_group {c : Char} (other : c.isAlphanum = false) : c ∉ a.group.toList := by
  intro member
  rw [a.groupNamed.2 c member] at other
  cases other

theorem absent_key {c : Char} (other : c.isAlphanum = false) (mark : c ≠ '_') :
    c ∉ a.key.toList := by
  intro member
  cases a.keyNamed.2 c member with
  | inl named =>
    rw [named] at other
    cases other
  | inr same => exact mark same

theorem exists_head_body : ∃ c, a.body.head? = some c ∧ c.isAlphanum = true := by
  cases group : a.group.toList with
  | nil => exact absurd (String.toList_eq_nil_iff.mp group) a.groupNamed.1
  | cons c cs =>
    rw [body, group]
    exact ⟨c, rfl, a.groupNamed.2 c (by simp [group])⟩

theorem compact_body : Compact a.body where
  nonempty := by simp [body]
  oneLine := by
    have group := a.absent_group (by decide : '\n'.isAlphanum = false)
    have key := a.absent_key (by decide : '\n'.isAlphanum = false) (by decide)
    simp [body, group, key, a.room.2.1.oneLine, a.room.2.2.1.oneLine, a.spelled.compact.oneLine]
  first := by
    intro c head
    obtain ⟨d, first, named⟩ := a.exists_head_body
    rw [first] at head
    cases head
    exact isBlank_of_isAlphanum named
  last := by
    intro c last
    have compact := a.spelled.compact
    cases value : a.value.getLast? with
    | none => exact absurd (List.getLast?_eq_none_iff.mp value) compact.nonempty
    | some d =>
      have same : a.body.getLast? = some d := by
        simp [body, List.getLast?_append, List.getLast?_cons, value]
      rw [same] at last
      cases last
      exact compact.last c value

theorem oneLine_text : '\n' ∉ a.text := by
  simp [text, a.room.1.oneLine, a.room.2.2.2.oneLine, a.compact_body.oneLine]

/-- The value of a line goes to its key, with the blanks in front of the equals sign. -/
theorem readAssignment_text : readAssignment a.text = some a.entry := by
  have trimmed : trim a.text = a.body :=
    trim_ends (fun c member => (a.room.1 c member).1) (fun c member => (a.room.2.2.2 c member).1)
      a.compact_body.first a.compact_body.last
  have noComment : a.body.head? ≠ some '#' := by
    obtain ⟨c, first, named⟩ := a.exists_head_body
    rw [first]
    intro same
    cases same
    cases named
  have name : '=' ∉ a.group.toList ++ '_' :: (a.key.toList ++ a.before) := by
    have group := a.absent_group (by decide : '='.isAlphanum = false)
    have key := a.absent_key (by decide : '='.isAlphanum = false) (by decide)
    have room : '=' ∉ a.before := fun member => absurd (a.room.2.1 '=' member).1 (by decide)
    simp [group, key, room]
  have outer : splitAt? '=' a.body =
      some (a.group.toList ++ '_' :: (a.key.toList ++ a.before), a.after ++ a.value) := by
    have split := splitAt?_append_cons name (a.after ++ a.value)
    rw [List.append_assoc, List.cons_append] at split
    exact split
  have inner : splitAt? '_' (a.group.toList ++ '_' :: (a.key.toList ++ a.before)) =
      some (a.group.toList, a.key.toList ++ a.before) :=
    splitAt?_append_cons (a.absent_group (by decide)) _
  have value : trim (a.after ++ a.value) = a.value := by
    have ends := trim_ends (fun c member => (a.room.2.2.1 c member).1) (List.forall_mem_nil _)
      a.spelled.compact.first a.spelled.compact.last
    rw [List.append_nil] at ends
    exact ends
  simp only [readAssignment, trimmed, if_neg noComment, outer, inner, value,
    readScalar_of_spells a.spelled, Option.bind_eq_bind, Option.bind_some, Option.pure_def,
    String.ofList_toList]
  rfl

end Assignment

/-- A line of a file of assignments. -/
inductive FileLine where
  | blank (cs : List Char) (blanks : Blanks cs)
  | comment (lead words : List Char) (blanks : Blanks lead) (oneLine : '\n' ∉ words)
  | assignment (a : Assignment)

namespace FileLine

def text : FileLine → List Char
  | blank cs _ => cs
  | comment lead words _ _ => lead ++ '#' :: words
  | assignment a => a.text

def assignment? : FileLine → Option Assignment
  | assignment a => some a
  | _ => none

theorem oneLine_text (line : FileLine) : '\n' ∉ line.text := by
  cases line with
  | blank cs blanks => exact blanks.oneLine
  | comment lead words blanks oneLine => simp [text, blanks.oneLine, oneLine]
  | assignment a => exact a.oneLine_text

theorem readAssignment_text (line : FileLine) :
    readAssignment line.text = line.assignment?.map Assignment.entry := by
  cases line with
  | blank cs blanks =>
    have ends : trim (cs ++ ([] ++ [])) = [] :=
      trim_ends (fun c member => (blanks c member).1) (by simp) (by simp) (by simp)
    have nothing : trim cs = [] := by simpa using ends
    simp [readAssignment, text, nothing, assignment?, splitAt?]
  | comment lead words blanks oneLine =>
    have mark : (trim (lead ++ '#' :: words)).head? = some '#' :=
      head?_trim (fun c member => (blanks c member).1) (by decide) words
    simp [readAssignment, text, mark, assignment?]
  | assignment a => exact a.readAssignment_text

end FileLine

/-! ## Files -/

/-- The text of a file, with a line feed between any two lines. -/
def fileText (written : List FileLine) : List Char :=
  List.intercalate ['\n'] (written.map FileLine.text)

/-- The assignments of a file, first to last. -/
def assignments (written : List FileLine) : List Assignment :=
  written.filterMap FileLine.assignment?

theorem readAssignments_eq (text : List Char) :
    readAssignments text =
      ((lines text).filterMap readAssignment).foldl (fun s e => s.assign e.1 e.2) .empty := by
  rw [readAssignments, List.foldl_filterMap]
  congr 1
  funext s line
  cases readAssignment line <;> rfl

theorem readAssignment_carriage (line : List Char) :
    readAssignment (line ++ ['\r']) = readAssignment line := by
  rw [readAssignment, readAssignment, trim_append_singleton (by decide)]

/-- Reading a file makes its assignments, one after the other. -/
theorem readAssignments_fileText (written : List FileLine) :
    readAssignments (fileText written) =
      ((assignments written).map Assignment.entry).foldl (fun s e => s.assign e.1 e.2) .empty := by
  have whole : ∀ line ∈ written.map FileLine.text, '\n' ∉ line := by
    intro line member
    obtain ⟨l, _, rfl⟩ := List.mem_map.mp member
    exact l.oneLine_text
  have read := filterMap_lines (rfl : readAssignment [] = none) readAssignment_carriage whole
  have each : readAssignment ∘ FileLine.text = fun line => line.assignment?.map Assignment.entry :=
    funext FileLine.readAssignment_text
  rw [readAssignments_eq, fileText, read, List.filterMap_map, each, assignments, List.map_filterMap]

/-! ## Settings -/

/-- A later value of a path hides the earlier ones. -/
theorem find?_foldl_assign (entries : List (List String × Scalar)) (s : Settings)
    (path : List String) :
    (entries.foldl (fun s e => s.assign e.1 e.2) s).find? path =
      ((entries.filter fun e => e.1 = path).getLast?.map Prod.snd).or (s.find? path) := by
  induction entries generalizing s with
  | nil => rfl
  | cons e entries ih =>
    rw [List.foldl_cons, ih, Settings.find?_assign]
    by_cases here : e.1 = path
    · rw [if_pos here, List.filter_cons_of_pos (by simpa using here), List.getLast?_cons]
      cases (entries.filter fun e => e.1 = path).getLast? <;> rfl
    · rw [if_neg here, List.filter_cons_of_neg (by simpa using here)]

def Scalar.boolean? : Scalar → Option Bool
  | .boolean b => some b
  | _ => none

def Scalar.integer? : Scalar → Option Int
  | .integer n => some n
  | _ => none

def Scalar.string? : Scalar → Option String
  | .string s => some s
  | _ => none

/-- A key is answered for with a value if that has the type one asks for, and else, or if there is
no value, with the default. -/
structure Settings.Answers (s : Settings) (group key : String) (value : Option Scalar) : Prop where
  boolean : ∀ b, s.boolean group key b = (value.bind Scalar.boolean?).getD b
  integer : ∀ n, s.integer group key n = (value.bind Scalar.integer?).getD n
  string : ∀ x, s.string group key x = (value.bind Scalar.string?).getD x

theorem Settings.answers (s : Settings) (group key : String) :
    s.Answers group key (s.find? [group, key]) where
  boolean := by
    intro b
    unfold Settings.boolean
    rcases s.find? [group, key] with _ | (_ | _ | _ | _) <;> rfl
  integer := by
    intro n
    unfold Settings.integer
    rcases s.find? [group, key] with _ | (_ | _ | _ | _) <;> rfl
  string := by
    intro x
    unfold Settings.string
    rcases s.find? [group, key] with _ | (_ | _ | _ | _) <;> rfl

/-- The value of the last assignment to a key, by the key's name. -/
def lastValue (name : Assignment → String) (as : List Assignment) (group key : String) :
    Option Scalar :=
  (as.filter fun a => a.group = group ∧ name a = key).getLast?.map Assignment.meaning

theorem find?_fileText (written : List FileLine) (group key : String) :
    (readAssignments (fileText written)).find? [group, key] =
      lastValue Assignment.storedKey (assignments written) group key := by
  have same : ((fun e : List String × Scalar => decide (e.1 = [group, key])) ∘ Assignment.entry) =
      fun a => decide (a.group = group ∧ a.storedKey = key) := by
    funext a
    simp [Assignment.entry]
  rw [readAssignments_fileText, find?_foldl_assign, Settings.find?_empty, Option.or_none,
    List.filter_map, same, List.getLast?_map, Option.map_map, lastValue]
  rfl

theorem lastValue_congr {name other : Assignment → String} {as : List Assignment}
    (same : ∀ a ∈ as, name a = other a) (group key : String) :
    lastValue name as group key = lastValue other as group key := by
  have kept : (as.filter fun a => a.group = group ∧ name a = key) =
      as.filter fun a => a.group = group ∧ other a = key := by
    apply List.filter_congr
    intro a member
    rw [same a member]
  rw [lastValue, kept, lastValue]

/-- Reading a file back: each key has the value of its last assignment, by the name it is stored
under, which is the name it was given if there are no blanks in front of the equals signs. -/
theorem readAssignments_last (written : List FileLine) (group key : String) :
    (readAssignments (fileText written)).Answers group key
        (lastValue Assignment.storedKey (assignments written) group key) ∧
      ((∀ a ∈ assignments written, a.before = []) →
        (readAssignments (fileText written)).Answers group key
          (lastValue Assignment.key (assignments written) group key)) := by
  have answers := (readAssignments (fileText written)).answers group key
  rw [find?_fileText] at answers
  refine ⟨answers, ?_⟩
  intro tight
  have named : ∀ a ∈ assignments written, a.storedKey = a.key := by
    intro a member
    rw [Assignment.storedKey, tight a member, List.append_nil, String.ofList_toList]
  rw [lastValue_congr named] at answers
  exact answers

/-- `memory_page_size=4096`. -/
def pageSizeLine : Assignment where
  group := "memory"
  key := "page_size"
  value := "4096".toList
  meaning := .integer 4096
  lead := []
  before := []
  after := []
  trail := []
  groupNamed := by simp
  keyNamed := by simp
  spelled := .integer .none (by decide : "4096".toList ≠ []) (by decide) (by decide) (by decide)
  room := by decide

/-- `memory_page_size= +8192`, with a tab at the end. -/
def pageSizeAgain : Assignment :=
  { pageSizeLine with
    value := "+8192".toList
    meaning := .integer 8192
    after := [' ']
    trail := ['\t']
    spelled := .integer .plus (by decide : "8192".toList ≠ []) (by decide) (by decide) (by decide)
    room := by decide }

theorem readAssignments_last_twice :
    let text := "memory_page_size=4096\n# twice\nmemory_page_size= +8192\t"
    (readAssignments text.toList).integer "memory" "page_size" 512 = 8192 := by
  let written : List FileLine := [.assignment pageSizeLine,
    .comment [] " twice".toList (by decide) (by decide), .assignment pageSizeAgain]
  have tight : ∀ a ∈ assignments written, a.before = [] := by
    intro a member
    change a ∈ [pageSizeLine, pageSizeAgain] at member
    simp only [List.mem_cons, List.not_mem_nil, or_false] at member
    cases member with
    | inl first => rw [first]; rfl
    | inr second => rw [second]; rfl
  have answers := (readAssignments_last written "memory" "page_size").2 tight
  exact answers.integer 512

/-- `scheduler_timer_freq = 250`. -/
def spacedLine : Assignment where
  group := "scheduler"
  key := "timer_freq"
  value := "250".toList
  meaning := .integer 250
  lead := []
  before := [' ']
  after := [' ']
  trail := []
  groupNamed := by simp
  keyNamed := by simp
  spelled := .integer .none (by decide : "250".toList ≠ []) (by decide) (by decide) (by decide)
  room := by decide

/-- The blank in front of the equals sign keeps the value from the key. -/
theorem readAssignments_spaced :
    let written : List FileLine := [.assignment spacedLine, .blank [] (by decide)]
    fileText written = "scheduler_timer_freq = 250\n".toList ∧
      lastValue Assignment.key (assignments written) "scheduler" "timer_freq" =
        some (.integer 250) ∧
      (readAssignments (fileText written)).integer "scheduler" "timer_freq" 100 = 100 := by
  decide +kernel

end KernelCore.Config
