import KernelCore.Proofs.Config.Program

/-!
# What the generated program declares

The generated text declares a constant for each setting. The command line is written with escapes,
so its constant has the value that was configured, whatever it is. The kernel's name and version
are written as they stand, and theirs have the configured value if, and only if, no character of it
has a meaning of its own in a literal.
-/
namespace KernelCore.Config

open Text

variable {c : Constants} {d : Declaration} {w s value : String}

/-! ## Values -/

/-- A value without the marks that end it or make it a literal. -/
def IsWord (w : String) : Prop := ∀ x ∈ w.toList, x ≠ ';' ∧ x ≠ '"'

instance (w : String) : Decidable (IsWord w) := List.decidableBAll _ w.toList

theorem readConstantValue_word (isWord : IsWord w) (rest : List Char) :
    readConstantValue (w.toList ++ ';' :: rest) = some (.word w, ';' :: rest) := by
  have ends : ';' ∉ w.toList := fun member => (isWord ';' member).1 rfl
  have noLiteral : ∀ cs, w.toList ++ ';' :: rest ≠ '"' :: cs := by
    intro cs same
    cases front : w.toList with
    | nil => simp [front] at same
    | cons x xs =>
      rw [front, List.cons_append, List.cons.injEq] at same
      exact (isWord x (by simp [front])).2 same.1
  unfold readConstantValue
  split
  · rename_i cs same
    exact absurd same (noLiteral cs)
  · rw [span_ne_append_cons ends]
    simp

theorem digitChar_of_mem_toDigits {base n : Nat} (large : 1 < base) {x : Char}
    (member : x ∈ Nat.toDigits base n) : ∃ m, x = Nat.digitChar m := by
  induction n using Nat.strong_induction_on with
  | _ n ih =>
    by_cases small : n < base
    · rw [Nat.toDigits_of_lt_base small, List.mem_singleton] at member
      exact ⟨n, member⟩
    · rw [Nat.toDigits_of_base_le large (by omega), List.mem_append, List.mem_singleton] at member
      cases member with
      | inl front => exact ih (n / base) (Nat.div_lt_self (by omega) large) front
      | inr last => exact ⟨n % base, last⟩

theorem isWord_toDigits {base : Nat} (large : 1 < base) (n : Nat) :
    IsWord (String.ofList (Nat.toDigits base n)) := by
  intro x member
  rw [String.toList_ofList] at member
  obtain ⟨m, rfl⟩ := digitChar_of_mem_toDigits large member
  exact ⟨Nat.digitChar_ne ';' rfl, Nat.digitChar_ne '"' rfl⟩

theorem IsWord.append {v : String} (front : IsWord v) (back : IsWord w) : IsWord (v ++ w) := by
  intro x member
  rw [String.toList_append, List.mem_append] at member
  exact member.elim (front x) (back x)

theorem isWord_nat (n : Nat) : IsWord (toString n) := by
  rw [Nat.toString_eq_ofList_toDigits]
  exact isWord_toDigits (by decide) n

theorem isWord_int (n : Int) : IsWord (toString n) := by
  have sign : IsWord "-" := by decide
  rw [Int.toString_eq_repr, Int.repr_eq_if]
  split
  · exact isWord_nat n.toNat
  · exact sign.append (isWord_nat (-n).toNat)

theorem isWord_bool (b : Bool) : IsWord (toString b) := by
  cases b <;> decide

theorem isWord_hexWord (n : Int) : IsWord (Constants.hexWord n) := by
  have mark : IsWord "0x" := by decide
  exact mark.append (isWord_toDigits (by decide) _)

theorem toList_quoted (s : String) : (Constants.quoted s).toList = '"' :: (s.toList ++ ['"']) := by
  simp [Constants.quoted]

theorem readConstantValue_quoted
    (read : ∀ rest, readLiteral .text (s.toList ++ '"' :: rest) = some (value.toList, rest))
    (rest : List Char) :
    readConstantValue ((Constants.quoted s).toList ++ ';' :: rest) =
      some (.text value, ';' :: rest) := by
  rw [toList_quoted, List.cons_append, List.append_assoc, List.singleton_append, readConstantValue,
    read]
  simp

/-! ## The constants -/

/-- A text that stands for itself between quotes. -/
def FaithfulText (s : String) : Prop := ∀ x ∈ s.toList, Faithful x

/-- The constants as they are meant. -/
def Constants.meant (c : Constants) : List Constant :=
  [⟨"KERNEL_NAME", "&str", .text c.name⟩,
    ⟨"KERNEL_VERSION", "&str", .text c.version⟩,
    ⟨"TIMER_FREQ", "u64", .word (toString c.timerFrequency)⟩,
    ⟨"TIME_SLICE", "u32", .word (toString c.timeSlice)⟩,
    ⟨"MAX_THREADS", "usize", .word (toString c.maxThreads)⟩,
    ⟨"MLFQS", "bool", .word (toString c.feedback)⟩,
    ⟨"DEFAULT_CMDLINE", "&str", .text c.commandLine⟩,
    ⟨"PAGE_SIZE", "usize", .word (toString c.pageSize)⟩,
    ⟨"PAGE_SHIFT", "usize", .word (toString c.pageShift)⟩,
    ⟨"USER_STACK_TOP", "usize", .word (hexWord c.userStackTop)⟩,
    ⟨"STACK_LIMIT", "usize", .word (toString c.stackLimit)⟩,
    ⟨"KERNEL_BASE", "usize", .word (hexWord c.kernelBase)⟩,
    ⟨"SECTOR_SIZE", "usize", .word (toString c.sectorSize)⟩]

theorem Constants.labelled (c : Constants) : ∀ d ∈ c.declarations, d.Labelled := by
  unfold declarations Declaration.Labelled
  simp only [List.forall_mem_cons, List.not_mem_nil, false_implies, implies_true]
  and_intros <;> decide

theorem Declaration.Reads.of_word (labelled : d.Labelled) (isWord : IsWord d.value) :
    d.Reads ⟨d.name, d.type, .word d.value⟩ :=
  ⟨labelled, rfl, rfl, readConstantValue_word isWord⟩

theorem Declaration.Reads.of_text (labelled : d.Labelled) (quotes : d.value = Constants.quoted s)
    (read : ∀ rest, readLiteral .text (s.toList ++ '"' :: rest) = some (value.toList, rest)) :
    d.Reads ⟨d.name, d.type, .text value⟩ :=
  ⟨labelled, rfl, rfl, quotes ▸ readConstantValue_quoted read⟩

theorem Constants.reads (name : FaithfulText c.name) (version : FaithfulText c.version) :
    List.Forall₂ Declaration.Reads c.declarations c.meant := by
  have labelled := c.labelled
  simp only [declarations, List.forall_mem_cons] at labelled
  obtain ⟨name', version', frequency, slice, threads, feedback, line, page, shift, top, stack, base,
    sector, -⟩ := labelled
  unfold declarations meant
  refine .cons (.of_text name' rfl fun rest => readLiteral_of_faithful name rest) ?_
  refine .cons (.of_text version' rfl fun rest => readLiteral_of_faithful version rest) ?_
  refine .cons (.of_word frequency (isWord_int _)) ?_
  refine .cons (.of_word slice (isWord_int _)) ?_
  refine .cons (.of_word threads (isWord_int _)) ?_
  refine .cons (.of_word feedback (isWord_bool _)) ?_
  refine .cons (.of_text line rfl fun rest => ?escaped) ?_
  case escaped =>
    rw [String.toList_ofList]
    exact readLiteral_escape _ rest
  refine .cons (.of_word page (isWord_int _)) ?_
  refine .cons (.of_word shift (isWord_nat _)) ?_
  refine .cons (.of_word top (isWord_hexWord _)) ?_
  refine .cons (.of_word stack (isWord_int _)) ?_
  refine .cons (.of_word base (isWord_hexWord _)) ?_
  exact .cons (.of_word sector (isWord_int _)) .nil

theorem Constants.skipComments_preamble (rest : List Char) :
    skipComments false (preamble.toList ++ rest) = skipComments false rest := by
  have heading : preamble =
      "//" ++ " Rux 执行核心配置（自动生成）" ++ "\n" ++ ("//" ++ "" ++ "\n" ++
        ("//" ++ " 此文件由 build.rs 根据 Kernel.toml 自动生成，请勿手动修改" ++ "\n" ++ "\n")) := by
    decide +kernel
  rw [heading]
  simp only [String.toList_append, List.append_assoc]
  rw [skipComments_comment (by decide), skipComments_comment (by decide),
    skipComments_comment (by decide), skipComments_lineEnd]

theorem Constants.source_declares (name : FaithfulText c.name) (version : FaithfulText c.version) :
    Declares c.source.toList c.meant := by
  rw [source, String.toList_append]
  exact (Declares.declarations (c.reads name version)).of_skipComments (skipComments_preamble _)

/-- The declaration of the kernel's name, which comes first. -/
def Constants.nameDeclaration (c : Constants) : Declaration :=
  ⟨"内核名称", "KERNEL_NAME", "&str", quoted c.name⟩

theorem Constants.exists_source (c : Constants) :
    ∃ rest, c.source.toList = preamble.toList ++ (c.nameDeclaration.source.toList ++ rest) := by
  rw [source, declarations, List.map_cons, List.map_cons, String.intercalate_cons_cons,
    String.append_assoc, String.toList_append, String.toList_append]
  exact ⟨_, rfl⟩

/-- A name with a quote in it, other than right in front of a semicolon, spoils the program. -/
theorem Constants.not_declares {front back : List Char}
    (cut : c.name.toList = front ++ '"' :: back) (faithful : ∀ x ∈ front, Faithful x)
    (goesOn : back.head? ≠ some ';') (ks : List Constant) : ¬Declares c.source.toList ks := by
  obtain ⟨rest, source⟩ := c.exists_source
  have labelled : c.nameDeclaration.Labelled := c.labelled _ List.mem_cons_self
  have value : readConstantValue (c.nameDeclaration.value.toList ++ (";".toList ++
      ("\n".toList ++ rest))) = some (.text (String.ofList front),
        back ++ ('"' :: (";".toList ++ ("\n".toList ++ rest)))) := by
    rw [nameDeclaration, toList_quoted, cut]
    simp only [List.cons_append, List.append_assoc, List.nil_append, readConstantValue]
    rw [readLiteral_of_faithful faithful]
    rfl
  have stuck : (back ++ ('"' :: (";".toList ++ ("\n".toList ++ rest)))).dropPrefix? ";".toList =
      none := by
    cases back with
    | nil => rfl
    | cons x xs =>
      have other : x ≠ ';' := by simpa using goesOn
      simp [List.dropPrefix?, other]
  have left : skipComments false c.source.toList ≠ [] := by
    rw [source, skipComments_preamble, skipComments_source labelled]
    exact List.append_ne_nil_of_left_ne_nil (by decide) _
  apply Config.not_declares left
  rw [source, skipComments_preamble, readConstant_source labelled, value, Option.bind_some, stuck,
    Option.bind_none]

end KernelCore.Config
