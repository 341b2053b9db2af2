import KernelCore.Proofs.Config.Declared

/-!
# The text that is generated

For every configuration that is accepted, whatever reads TOML: the program text has the command line in a literal of
just the configured text. Name and version are in literals of theirs if, and only if, they have no
quotes, backslashes and carriage returns, and then the text as a whole declares all constants as
they are meant.
-/
namespace KernelCore.Config

open Text Constants

variable {reader : DocumentReader} {assignments document : Option String} {g : Generated}
  {c : Constants}

/-- What is generated from settings. -/
def generated (s : Settings) : Generated :=
  ⟨(lines (ofSettings s).directives.toList).map String.ofList, (ofSettings s).source⟩

/-- What a run that succeeds has read and written. -/
theorem generateWith_eq_ok_iff :
    generateWith reader assignments document = .ok g ↔
      ∃ s, readSettings reader ((assignments.or document).getD "") = .ok s ∧
        (ofSettings s).check = .ok () ∧ g = generated s := by
  unfold generateWith
  cases read : readSettings reader ((assignments.or document).getD "") with
  | error e =>
    constructor
    · intro accepted
      cases accepted
    · intro ⟨s, other, _⟩
      cases other
  | ok s =>
    constructor
    · intro accepted
      cases fits : (ofSettings s).check with
      | error e =>
        simp only [fits, bind, Except.bind] at accepted
        cases accepted
      | ok _ =>
        simp only [fits, bind, Except.bind] at accepted
        exact ⟨s, rfl, fits, (Except.ok.inj accepted).symm⟩
    · intro ⟨s', same, fits, result⟩
      rw [← Except.ok.inj same] at fits result
      rw [result]
      simp only [fits, bind, Except.bind]
      rfl

theorem generateWith_document {text : String} {s : Settings}
    (read : readSettings reader text = .ok s) (fits : (ofSettings s).check = .ok ()) :
    generateWith reader none (some text) = .ok (generated s) :=
  generateWith_eq_ok_iff.mpr ⟨s, read, fits, rfl⟩

/-! ## The texts of single constants -/

/-- A text is written as the value of a string constant. -/
def Writes (source constant written : String) : Prop :=
  ∃ front back, source =
    front ++ ("pub const " ++ constant ++ ": &str = " ++ written ++ ";\n") ++ back

theorem exists_intercalate {part : String} {parts : List String} (sep : String)
    (member : part ∈ parts) : ∃ front back, sep.intercalate parts = front ++ part ++ back := by
  induction parts with
  | nil => cases member
  | cons p parts ih =>
    cases parts with
    | nil =>
      rw [List.mem_singleton] at member
      exact ⟨"", "", by simp [member]⟩
    | cons q parts =>
      rw [String.intercalate_cons_cons]
      rcases List.mem_cons.mp member with rfl | later
      · exact ⟨"", sep ++ sep.intercalate (q :: parts), by simp [String.append_assoc]⟩
      · obtain ⟨front, back, split⟩ := ih later
        exact ⟨p ++ sep ++ front, back, by simp [split, String.append_assoc]⟩

theorem writes_of_mem {comment name value : String}
    (member : ⟨comment, name, "&str", value⟩ ∈ c.declarations) : Writes c.source name value := by
  obtain ⟨front, back, split⟩ := exists_intercalate "\n" (List.mem_map_of_mem member)
  refine ⟨preamble ++ front ++ "/// " ++ comment ++ "\n", back, ?_⟩
  rw [source, split, ← String.toList_inj]
  simp [Declaration.source]

theorem writes_name (c : Constants) : Writes c.source "KERNEL_NAME" (quoted c.name) :=
  writes_of_mem (List.mem_cons_self : c.nameDeclaration ∈ c.declarations)

theorem writes_version (c : Constants) : Writes c.source "KERNEL_VERSION" (quoted c.version) := by
  have member : ⟨"内核版本", "KERNEL_VERSION", "&str", quoted c.version⟩ ∈ c.declarations := by
    simp [declarations]
  exact writes_of_mem member

theorem writes_commandLine (c : Constants) :
    Writes c.source "DEFAULT_CMDLINE" (quoted (String.ofList (escape c.commandLine.toList))) := by
  have member : ⟨"默认内核命令行", "DEFAULT_CMDLINE", "&str",
      quoted (String.ofList (escape c.commandLine.toList))⟩ ∈ c.declarations := by
    simp [declarations]
  exact writes_of_mem member

theorem literal?_quoted_escape (cs : List Char) :
    literal? (quoted (String.ofList (escape cs))).toList = some cs := by
  rw [toList_quoted, String.toList_ofList]
  exact literal?_escape cs

theorem literal?_quoted_iff (s : String) :
    literal? (quoted s).toList = some s.toList ↔ FaithfulText s := by
  rw [toList_quoted]
  exact literal?_eq_self_iff s.toList

/-! ## Configurations -/

/-- The string constants of a generated program, whatever reads TOML: escaped text has the
configured value, and text that is written as it stands has it if no character needs an escape. -/
theorem generated_texts (accepted : generateWith reader assignments document = .ok g) :
    ∃ s, readSettings reader ((assignments.or document).getD "") = .ok s ∧
      let name := s.string "general" "name" kernelName
      let version := s.string "general" "version" kernelVersion
      let commandLine := s.string "scheduler" "default_cmdline" defaultCommandLine
      let escaped := quoted (String.ofList (escape commandLine.toList))
      (Writes g.source "DEFAULT_CMDLINE" escaped ∧
        literal? escaped.toList = some commandLine.toList) ∧
      (Writes g.source "KERNEL_NAME" (quoted name) ∧
        (literal? (quoted name).toList = some name.toList ↔ FaithfulText name)) ∧
      (Writes g.source "KERNEL_VERSION" (quoted version) ∧
        (literal? (quoted version).toList = some version.toList ↔ FaithfulText version)) ∧
      (FaithfulText name → FaithfulText version →
        ∀ ks, Declares g.source.toList ks ↔ ks = (ofSettings s).meant) := by
  obtain ⟨s, read, -, rfl⟩ := generateWith_eq_ok_iff.mp accepted
  refine ⟨s, read, ⟨writes_commandLine _, literal?_quoted_escape _⟩,
    ⟨writes_name _, literal?_quoted_iff _⟩, ⟨writes_version _, literal?_quoted_iff _⟩, ?_⟩
  intro name version ks
  have declares : Declares (ofSettings s).source.toList (ofSettings s).meant :=
    Constants.source_declares name version
  exact ⟨declares.unique, fun same => same ▸ declares⟩

/-- A document with quotes, backslashes, braces and a line end in the command line. -/
def markedDocument : String :=
  "[scheduler]\ndefault_cmdline = \"say \\\"\x7b\x7d\\\" \\\\ \\n\"\n"

theorem generated_texts_marked :
    ∃ g written, generateWith Toml.read none (some markedDocument) = .ok g ∧
      Writes g.source "DEFAULT_CMDLINE" written ∧
      literal? written.toList = some "say \"\x7b\x7d\" \\ \n".toList := by
  let s : Settings :=
    ⟨[(["scheduler", "default_cmdline"], .string "say \"\x7b\x7d\" \\ \n")]⟩
  have read : readSettings Toml.read markedDocument = .ok s := by decide +kernel
  have fits : (ofSettings s).check = .ok () := by decide +kernel
  have accepted := generateWith_document read fits
  obtain ⟨s', read', ⟨writes, value⟩, -⟩ := generated_texts accepted
  obtain rfl : s = s' := Except.ok.inj (read.symm.trans read')
  exact ⟨generated s, _, accepted, writes, value⟩

/-- A document with a quote in the kernel's name. -/
def quotingDocument : String := "[general]\nname = \"a\\\"b\"\n"

/-- The quote ends the literal, and the program is none. -/
theorem generated_text_cut :
    ∃ g s, generateWith Toml.read none (some quotingDocument) = .ok g ∧
      readSettings Toml.read quotingDocument = .ok s ∧
      s.string "general" "name" kernelName = "a\"b" ∧
      Writes g.source "KERNEL_NAME" "\"a\"b\"" ∧ literal? "\"a\"b\"".toList = none ∧
      ∀ ks, ¬Declares g.source.toList ks := by
  let s : Settings := ⟨[(["general", "name"], .string "a\"b")]⟩
  have read : readSettings Toml.read quotingDocument = .ok s := by decide +kernel
  have fits : (ofSettings s).check = .ok () := by decide +kernel
  have name : (ofSettings s).name = "a\"b" := rfl
  have writes := writes_name (ofSettings s)
  have quotes : quoted (ofSettings s).name = "\"a\"b\"" := by decide +kernel
  rw [quotes] at writes
  have cut : (ofSettings s).name.toList = ['a'] ++ '"' :: ['b'] := by decide +kernel
  exact ⟨generated s, s, generateWith_document read fits, read, name, writes, by decide +kernel,
    (ofSettings s).not_declares cut (by simp [Faithful]) (by decide)⟩

end KernelCore.Config
