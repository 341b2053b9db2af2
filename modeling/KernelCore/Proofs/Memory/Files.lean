import KernelCore.Memory.Page
import KernelCore.Proofs.Transition

/-!
# What transfers do to the files

A file image is what files look like from outside: what they contain, what was written to them,
and which of them each description is of. Counting holders, opens and reads does not show in it.
-/
namespace KernelCore

/-- The contents of every file with the record of its writes, and the file of every description. -/
structure FileImage where
  files : List (Array UInt8 × List FileWrite)
  opened : List FileId
  deriving DecidableEq

namespace FileImage

def fileOf (m : FileImage) (d : DescriptionId) : FileId := (m.opened[d.index]?).getD ⟨0⟩

/-- The contents of the file a description is of. -/
def contents (m : FileImage) (d : DescriptionId) : Array UInt8 :=
  (m.files[(m.fileOf d).index]?.map Prod.fst).getD #[]

/-- Bytes written over those of a file, and the write recorded. -/
def written (m : FileImage) (f : FileId) (w : FileWrite) : FileImage :=
  { m with
    files := m.files.modify f.index fun x =>
      (FileStore.overwritten x.1 w.offset w.bytes, x.2 ++ [w]) }

/-- One more description, of the file `f`. -/
def opening (m : FileImage) (f : FileId) : FileImage := { m with opened := m.opened ++ [f] }

/-- The contents of a file. -/
def bytes (m : FileImage) (f : FileId) : Array UInt8 := (m.files[f.index]?.map Prod.fst).getD #[]

/-- The record of what was written to a file, first to last. -/
def writes (m : FileImage) (f : FileId) : List FileWrite :=
  (m.files[f.index]?.map Prod.snd).getD []

/-- Byte number `k` of a file; past its end it counts as zero. -/
def byte (m : FileImage) (f : FileId) (k : Nat) : UInt8 := ((m.bytes f)[k]?).getD 0

/-- One more file, opened by its creator. -/
def creating (m : FileImage) (contents : Array UInt8) : FileImage :=
  ⟨m.files ++ [(contents, [])], m.opened ++ [⟨m.files.length⟩]⟩

/-- A file cut, or lengthened with zeros. -/
def resizing (m : FileImage) (f : FileId) (n : Nat) : FileImage :=
  { m with
    files := m.files.modify f.index fun x =>
      (x.1.extract 0 n ++ Array.replicate (n - x.1.size) 0, x.2) }

/-- A write that perhaps reached the file `f`. -/
def received (m : FileImage) (f : FileId) (w : Option FileWrite) : FileImage :=
  (w.map (m.written f)).getD m

theorem contents_eq (m : FileImage) (d : DescriptionId) : m.contents d = m.bytes (m.fileOf d) := rfl

@[simp] theorem opened_received (m : FileImage) (f : FileId) (w : Option FileWrite) :
    (m.received f w).opened = m.opened := by
  cases w <;> rfl

@[simp] theorem fileOf_received (m : FileImage) (f : FileId) (w : Option FileWrite)
    (d : DescriptionId) : (m.received f w).fileOf d = m.fileOf d := by
  unfold fileOf
  rw [opened_received]

private theorem getElem?_written (m : FileImage) (f g : FileId) (w : FileWrite) :
    (m.written f w).files[g.index]? =
      if g = f then
        (m.files[g.index]?).map fun x =>
          (FileStore.overwritten x.1 w.offset w.bytes, x.2 ++ [w])
      else m.files[g.index]? := by
  have index : f.index = g.index ↔ g = f :=
    ⟨fun same => congrArg FileId.mk same.symm, fun same => by rw [same]⟩
  unfold written
  dsimp only
  rw [List.getElem?_modify]
  by_cases same : g = f
  · simp only [index.mpr same, if_true, if_pos same]
    rfl
  · simp only [mt index.mp same, if_false, if_neg same]
    exact id_map _

theorem bytes_written (m : FileImage) (f g : FileId) (w : FileWrite) :
    (m.written f w).bytes g =
      if g = f then FileStore.overwritten (m.bytes f) w.offset w.bytes else m.bytes g := by
  unfold bytes
  rw [getElem?_written]
  by_cases same : g = f
  · rw [if_pos same, if_pos same, same]
    cases m.files[f.index]? <;> simp [FileStore.overwritten]
  · rw [if_neg same, if_neg same]

theorem writes_written (m : FileImage) (f g : FileId) (w : FileWrite)
    (present : g.index < m.files.length) :
    (m.written f w).writes g = if g = f then m.writes g ++ [w] else m.writes g := by
  unfold writes
  rw [getElem?_written, List.getElem?_eq_getElem present]
  by_cases same : g = f
  · rw [if_pos same, if_pos same]
    rfl
  · rw [if_neg same, if_neg same]

end FileImage

namespace FileStore

variable {s : FileStore} {d : DescriptionId} {f : FileId}

def image (s : FileStore) : FileImage :=
  ⟨s.files.map fun x => (x.contents, x.writes), s.descriptions.map Description.file⟩

theorem fileOf_image : s.image.fileOf d = s.fileOf d := by
  simp [FileImage.fileOf, image, fileOf]

theorem contents_image : s.image.contents d = (s.file (s.fileOf d)).contents := by
  unfold FileImage.contents
  rw [fileOf_image]
  unfold file image
  rw [List.getElem?_map]
  cases s.files[(s.fileOf d).index]? <;> rfl

private theorem image_updateFile {g : Array UInt8 × List FileWrite → Array UInt8 × List FileWrite}
    {change : StoredFile → StoredFile}
    (h : ∀ x, ((change x).contents, (change x).writes) = g (x.contents, x.writes)) :
    (s.updateFile f change).image = { s.image with files := s.image.files.modify f.index g } := by
  unfold updateFile image
  congr 1
  apply List.ext_getElem?
  intro i
  simp only [List.getElem?_map, List.getElem?_modify]
  cases s.files[i]? with
  | none => simp
  | some x => by_cases hi : f.index = i <;> simp [hi, h]

/-- A change that touches neither the contents nor the record of writes does not show. -/
theorem image_updateFile_of_same {change : StoredFile → StoredFile}
    (h : ∀ x, (change x).contents = x.contents ∧ (change x).writes = x.writes) :
    (s.updateFile f change).image = s.image := by
  rw [image_updateFile (g := id) fun x => by simp [h]]
  have : s.image.files.modify f.index id = s.image.files := by
    apply List.ext_getElem?
    intro i
    rw [List.getElem?_modify]
    by_cases hi : f.index = i <;> simp [hi]
  rw [this]

@[simp] theorem image_updateHolders (change : Nat → Nat) :
    (s.updateHolders d change).image = s.image := by
  unfold updateHolders image
  congr 1
  apply List.ext_getElem?
  intro i
  simp only [List.getElem?_map, List.getElem?_modify]
  cases s.descriptions[i]? with
  | none => simp
  | some x => by_cases hi : d.index = i <;> simp [hi]

@[simp] theorem image_retain : (s.retain d).image = s.image := image_updateHolders _

@[simp] theorem image_release : (s.release d).image = s.image := by
  unfold release
  dsimp only
  split
  · rw [image_updateFile_of_same, image_updateHolders]
    exact fun x => ⟨rfl, rfl⟩
  · exact image_updateHolders _

@[simp] theorem image_retain? (d : Option DescriptionId) : (s.retain? d).image = s.image := by
  cases d with
  | none => rfl
  | some d => exact image_retain

@[simp] theorem image_release? (d : Option DescriptionId) : (s.release? d).image = s.image := by
  cases d with
  | none => rfl
  | some d => exact image_release

@[simp] theorem image_dropHandle : (s.dropHandle f).image = s.image := by
  unfold dropHandle
  split
  · rfl
  · rw [image_updateFile_of_same, image_release]
    exact fun x => ⟨rfl, rfl⟩

@[simp] theorem image_read (count offset : Nat) : (s.read d count offset).2.image = s.image := by
  unfold read
  dsimp only
  split
  · exact image_updateFile_of_same fun x => ⟨rfl, rfl⟩
  · exact image_updateFile_of_same fun x => ⟨rfl, rfl⟩

/-- What a change makes of every file. -/
theorem file_updateFile (f g : FileId) (change : StoredFile → StoredFile) :
    (s.updateFile f change).file g =
      if g = f ∧ f.index < s.files.length then change (s.file f) else s.file g := by
  have index : f.index = g.index ↔ g = f :=
    ⟨fun same => congrArg FileId.mk same.symm, fun same => by rw [same]⟩
  unfold updateFile file
  dsimp only
  rw [List.getElem?_modify]
  by_cases same : g = f
  · subst same
    by_cases present : g.index < s.files.length
    · rw [if_pos ⟨rfl, present⟩, List.getElem?_eq_getElem present]
      simp
    · rw [if_neg fun h => present h.2, List.getElem?_eq_none (Nat.le_of_not_lt present)]
      rfl
  · rw [if_neg fun h => same h.1]
    simp only [mt index.mp same, if_false]
    exact congrArg (fun x => x.getD default) (id_map s.files[g.index]?)

/-! ### Looking the same -/

/-- How many writes to a file are still to come short. -/
def shortWrites (s : FileStore) (f : FileId) : Nat := (s.file f).shortWrites

/-- The other store shows the same from outside, and its writes come short as often. -/
structure Alike (s s' : FileStore) : Prop where
  image : s'.image = s.image
  short : ∀ f, s'.shortWrites f = s.shortWrites f

/-- A change of a file changes how many writes to it come short, if it exists. -/
theorem shortWrites_updateFile (f g : FileId) (change : StoredFile → StoredFile) :
    (s.updateFile f change).shortWrites g =
      if g = f ∧ f.index < s.files.length then (change (s.file f)).shortWrites
      else s.shortWrites g := by
  unfold shortWrites
  rw [file_updateFile]
  split <;> rfl

theorem Alike.refl (s : FileStore) : s.Alike s := ⟨rfl, fun _ => rfl⟩

theorem Alike.trans {s₁ s₂ s₃ : FileStore} (h : s₁.Alike s₂) (h' : s₂.Alike s₃) : s₁.Alike s₃ :=
  ⟨h'.image.trans h.image, fun f => (h'.short f).trans (h.short f)⟩

/-- A change that touches neither the contents nor what concerns writes. -/
theorem alike_updateFile {change : StoredFile → StoredFile}
    (h : ∀ x, (change x).contents = x.contents ∧ (change x).writes = x.writes ∧
      (change x).shortWrites = x.shortWrites) : s.Alike (s.updateFile f change) where
  image := image_updateFile_of_same fun x => ⟨(h x).1, (h x).2.1⟩
  short g := by
    rw [shortWrites_updateFile]
    split
    · rename_i here
      rw [(h _).2.2, here.1]
      rfl
    · rfl

theorem alike_retain : s.Alike (s.retain d) := ⟨image_retain, fun _ => rfl⟩

theorem alike_release : s.Alike (s.release d) := by
  have holders : s.Alike (s.updateHolders d (· - 1)) := ⟨image_updateHolders _, fun _ => rfl⟩
  unfold release
  dsimp only
  split
  · exact holders.trans (alike_updateFile fun _ => ⟨rfl, rfl, rfl⟩)
  · exact holders

theorem alike_retain? (d : Option DescriptionId) : s.Alike (s.retain? d) := by
  cases d with
  | none => exact .refl s
  | some d => exact alike_retain

theorem alike_release? (d : Option DescriptionId) : s.Alike (s.release? d) := by
  cases d with
  | none => exact .refl s
  | some d => exact alike_release

theorem alike_dropHandle : s.Alike (s.dropHandle f) := by
  unfold dropHandle
  split
  · exact .refl s
  · exact alike_release.trans (alike_updateFile fun _ => ⟨rfl, rfl, rfl⟩)

theorem alike_read (count offset : Nat) : s.Alike (s.read d count offset).2 := by
  unfold read
  dsimp only
  split
  · exact alike_updateFile fun _ => ⟨rfl, rfl, rfl⟩
  · exact alike_updateFile fun _ => ⟨rfl, rfl, rfl⟩

/-- Opening a file afresh is refused, or yields the next description. -/
theorem reopen_cases : (s.file (s.fileOf d)).reopenable = false ∧ s.reopen d = (none, s) ∨
    (s.file (s.fileOf d)).reopenable = true ∧ (s.reopen d).1 = some ⟨s.image.opened.length⟩ ∧
      (s.reopen d).2.image = s.image.opening (s.fileOf d) ∧
      ∀ f, (s.reopen d).2.shortWrites f = s.shortWrites f := by
  unfold reopen
  dsimp only
  split
  · have same : s.Alike (s.updateFile (s.fileOf d) fun x => { x with opens := x.opens + 1 }) :=
      alike_updateFile fun _ => ⟨rfl, rfl, rfl⟩
    refine .inr ⟨‹_›, ?_, ?_, same.short⟩
    · simp [image, updateFile]
    · unfold FileImage.opening
      rw [← same.image]
      simp [image]
  · exact .inl ⟨Bool.not_eq_true _ ▸ ‹_›, rfl⟩

/-! ### Transfers -/

/-- A transfer that is to come short moves one byte less than it could. -/
theorem transferred_cases (possible short : Nat) :
    (possible = 0 ∨ short = 0) ∧ transferred possible short = (possible, short) ∨
      0 < possible ∧ 0 < short ∧ transferred possible short = (possible - 1, short - 1) := by
  unfold transferred
  split
  · rename_i both
    exact .inr ⟨both.1, both.2, rfl⟩
  · exact .inl ⟨by omega, rfl⟩

theorem transferred_le (possible short : Nat) :
    (transferred possible short).1 ≤ possible ∧ (transferred possible short).2 ≤ short := by
  rcases transferred_cases possible short with ⟨-, same⟩ | ⟨-, -, same⟩
  · rw [same]
    exact ⟨Nat.le_refl _, Nat.le_refl _⟩
  · rw [same]
    exact ⟨Nat.sub_le _ _, Nat.sub_le _ _⟩

/-- A read that does not come short yields the bytes of the file. -/
theorem read_of_full {count offset : Nat} (full : (s.read d count offset).1.size = count)
    {i : Nat} (hi : i < count) :
    (s.read d count offset).1[i]? = (s.image.contents d)[offset + i]? := by
  rw [contents_image]
  unfold read at full ⊢
  dsimp only at full ⊢
  split
  · rename_i past
    rw [if_pos past] at full
    simp only [List.size_toArray, List.length_nil] at full
    omega
  · rename_i inside
    rw [if_neg inside] at full
    simp only [Array.size_extract] at full
    rw [Array.getElem?_extract, if_pos (by omega)]

/-- What a write makes of the files, by how many bytes it moved: all that there is room for, or
one less because it was to come short. -/
theorem write_cases (bytes : Array UInt8) (offset : Nat) :
    ∃ n, (s.write d bytes offset).1 = n ∧
      (s.write d bytes offset).2.image = s.image.received (s.fileOf d)
        (if (s.image.contents d).size ≤ offset then none else some ⟨offset, bytes.extract 0 n⟩) ∧
      (∀ f, (s.write d bytes offset).2.shortWrites f ≤ s.shortWrites f) ∧
      ((min bytes.size ((s.image.contents d).size - offset) = 0 ∨ s.shortWrites (s.fileOf d) = 0) ∧
          n = min bytes.size ((s.image.contents d).size - offset) ∨
        n + 1 = min bytes.size ((s.image.contents d).size - offset) ∧
          0 < s.shortWrites (s.fileOf d)) := by
  rw [contents_image]
  unfold write
  by_cases past : (s.file (s.fileOf d)).contents.size ≤ offset
  · simp only [if_pos past]
    refine ⟨0, rfl, rfl, fun _ => Nat.le_refl _, .inl ?_⟩
    rw [Nat.sub_eq_zero_of_le past, Nat.min_zero]
    exact ⟨.inl rfl, rfl⟩
  · simp only [if_neg past]
    generalize min bytes.size ((s.file (s.fileOf d)).contents.size - offset) = possible
    refine ⟨_, rfl, image_updateFile fun _ => rfl, fun f => ?_, ?_⟩
    · rw [shortWrites_updateFile]
      split
      · rename_i here
        rw [here.1]
        exact (transferred_le possible _).2
      · exact Nat.le_refl _
    · rcases transferred_cases possible (s.file (s.fileOf d)).shortWrites with
        ⟨unhampered, same⟩ | ⟨some, left, same⟩
      · exact .inl ⟨unhampered, congrArg Prod.fst same⟩
      · refine .inr ⟨?_, left⟩
        rw [same]
        exact Nat.sub_add_cancel some

/-- One more file, opened by its creator. -/
theorem image_create (contents : Array UInt8) :
    (s.create contents).2.image =
      ⟨s.image.files ++ [(contents, [])], s.image.opened ++ [⟨s.files.length⟩]⟩ := by
  simp [create, image]

theorem image_creating (contents : Array UInt8) :
    (s.create contents).2.image = s.image.creating contents := by
  rw [image_create, FileImage.creating]
  simp [image]

/-- A new file has the next number, and the others are as they were. -/
theorem file_create (contents : Array UInt8) (g : FileId) : (s.create contents).2.file g =
    if g = ⟨s.files.length⟩ then ⟨contents, 0, [], 1, 0, 0, 0, true, some ⟨s.descriptions.length⟩⟩
    else s.file g := by
  unfold file create
  dsimp only
  split
  · rename_i here
    rw [here, List.getElem?_concat_length]
    rfl
  · rename_i other
    have index : g.index ≠ s.files.length := fun same => other (congrArg FileId.mk same)
    rw [List.getElem?_append, List.getElem?_singleton]
    split
    · rfl
    · rw [if_neg (by omega), List.getElem?_eq_none (by omega)]

theorem file_length : s.file ⟨s.files.length⟩ = default := by
  unfold file
  rw [List.getElem?_eq_none (Nat.le_refl _)]
  rfl

/-- Writes to a new file do not come short, and neither do they to one that is not there. -/
theorem shortWrites_create (contents : Array UInt8) (f : FileId) :
    (s.create contents).2.shortWrites f = s.shortWrites f := by
  unfold shortWrites
  rw [file_create]
  split
  · rename_i here
    rw [here, file_length]
    rfl
  · rfl

theorem shortWrites_setLength (n : Nat) (g : FileId) :
    (s.setLength f n).shortWrites g = s.shortWrites g := by
  unfold setLength
  rw [shortWrites_updateFile]
  split
  · rename_i here
    rw [here.1]
    rfl
  · rfl

theorem image_setLength (n : Nat) :
    (s.setLength f n).image =
      { s.image with
        files := s.image.files.modify f.index fun x =>
          (x.1.extract 0 n ++ Array.replicate (n - x.1.size) 0, x.2) } :=
  image_updateFile fun _ => rfl

end FileStore

/-! ## Reads that come short -/

/-- A read of the stretch yields all of it. -/
def FileBacking.Comes (b : FileBacking) (s : FileStore) : Prop :=
  (s.read b.file b.readBytes b.offset).1.size = b.readBytes

namespace FileStore

variable {s : FileStore} {d : DescriptionId} {f : FileId}

/-- Reads of the other store come short where those of this one do. -/
def SameReads (s s' : FileStore) : Prop := ∀ b : FileBacking, b.Comes s' ↔ b.Comes s

theorem SameReads.refl (s : FileStore) : s.SameReads s := fun _ => .rfl

theorem SameReads.trans {s₁ s₂ s₃ : FileStore} (h : s₁.SameReads s₂) (h' : s₂.SameReads s₃) :
    s₁.SameReads s₃ := fun b => (h' b).trans (h b)

/-- How much a read yields depends on the length of the file, and on whether it is to come short. -/
theorem sameReads_of_files {s' : FileStore} (fileOf : ∀ d, s'.fileOf d = s.fileOf d)
    (files : ∀ f, (s'.file f).contents.size = (s.file f).contents.size ∧
      (s'.file f).shortReads = (s.file f).shortReads) : s.SameReads s' := by
  intro b
  have same := files (s.fileOf b.file)
  unfold FileBacking.Comes read
  rw [fileOf]
  simp only [same.1, same.2]
  split
  · exact .rfl
  · simp only [Array.size_extract, same.1]

theorem sameReads_updateFile {change : StoredFile → StoredFile}
    (h : ∀ x, (change x).contents.size = x.contents.size ∧ (change x).shortReads = x.shortReads) :
    s.SameReads (s.updateFile f change) := by
  refine sameReads_of_files (fun _ => rfl) fun g => ?_
  rw [file_updateFile]
  split
  · rename_i here
    rw [here.1]
    exact h _
  · exact ⟨rfl, rfl⟩

private theorem sameReads_updateHolders (change : Nat → Nat) :
    s.SameReads (s.updateHolders d change) := by
  refine sameReads_of_files (fun d' => ?_) fun _ => ⟨rfl, rfl⟩
  rw [← fileOf_image, ← fileOf_image, image_updateHolders]

theorem sameReads_retain? (d : Option DescriptionId) : s.SameReads (s.retain? d) := by
  cases d with
  | none => exact .refl s
  | some d => exact sameReads_updateHolders _

theorem sameReads_release? (d : Option DescriptionId) : s.SameReads (s.release? d) := by
  cases d with
  | none => exact .refl s
  | some d =>
    have holders : s.SameReads (s.updateHolders d (· - 1)) := sameReads_updateHolders _
    rw [release?, Option.map_some, Option.getD_some]
    unfold release
    dsimp only
    split
    · exact holders.trans (sameReads_updateFile fun _ => ⟨rfl, rfl⟩)
    · exact holders

/-- A write changes bytes, but not how many there are. -/
theorem sameReads_write (bytes : Array UInt8) (offset : Nat) :
    s.SameReads (s.write d bytes offset).2 := by
  unfold write
  dsimp only
  split
  · exact .refl s
  · exact sameReads_updateFile fun _ => ⟨Array.size_mapIdx, rfl⟩

end FileStore

/-! ## Filling pages -/

/-- The page a stretch of a file makes. -/
def FileBacking.contents (b : FileBacking) (m : FileImage) : PageBytes :=
  Vector.ofFn fun i =>
    if i.val < b.readBytes then ((m.contents b.file)[b.offset + i.val]?).getD 0 else 0

/-- What a loader produces from the files. -/
def Loader.contents (m : FileImage) : Loader → PageBytes
  | .zeroFill => .zeros
  | .segment b => b.contents m

/-- All that a loader has to read comes. -/
def Loader.Comes (s : FileStore) : Loader → Prop
  | .zeroFill => True
  | .segment b => b.Comes s

/-- All that a page has to read from its file to come into memory comes. -/
def Page.Comes (s : FileStore) (p : Page) : Prop :=
  match p.kind with
  | .untouched _ loader => loader.Comes s
  | .anonymous _ => True
  | .file b => b.Comes s

namespace FileBacking

open Transition

/-- A transfer that reads the files and fills the page with what the files say, unless less comes
than should. -/
def Fills (t : Transferring Unit) (contents : FileImage → PageBytes) (comes : FileStore → Prop) :
    Prop :=
  ∀ x : PageTransfer,
    t.Ends x (fun _ x' => x.files.Alike x'.files ∧ x'.page = contents x.files.image)
      (fun e x' => e = .refused .io ∧ ¬comes x.files ∧ x.files.Alike x'.files)

private theorem overlay_read_zeroFrom (b : FileBacking) (files : FileStore) (page : PageBytes)
    (full : (files.read b.file b.readBytes b.offset).1.size = b.readBytes) :
    (page.overlay 0 (files.read b.file b.readBytes b.offset).1).zeroFrom b.readBytes =
      b.contents files.image := by
  apply Vector.ext
  intro i hi
  rw [PageBytes.getElem_zeroFrom]
  unfold contents
  rw [Vector.getElem_ofFn]
  by_cases front : i < b.readBytes
  · have some : (files.read b.file b.readBytes b.offset).1[i]? =
        (files.image.contents b.file)[b.offset + i]? := FileStore.read_of_full full front
    have inside : i < (files.read b.file b.readBytes b.offset).1.size := by omega
    rw [if_neg (by omega), if_pos front, PageBytes.getElem_overlay, if_pos (Nat.zero_le i),
      Nat.sub_zero, ← some, Array.getElem?_eq_getElem inside]
    rfl
  · rw [if_pos (by omega), if_neg front]

theorem fills_bringIn (b : FileBacking) : Fills b.bringIn b.contents b.Comes := by
  intro x
  have same : x.files.Alike (x.files.read b.file b.readBytes b.offset).2 :=
    FileStore.alike_read b.readBytes b.offset
  unfold bringIn fill clearRest
  simp only [ends_bind, ends_modifyGet, ends_ensure, ends_modify]
  exact ⟨fun full => ⟨same, overlay_read_zeroFrom b x.files x.page full⟩,
    fun short => ⟨trivial, short, same⟩⟩

theorem fills_load (l : Loader) : Fills l.load (fun m => l.contents m) fun s => l.Comes s := by
  intro x
  cases l with
  | zeroFill => exact ⟨.refl _, rfl⟩
  | segment b =>
    have same : x.files.Alike (x.files.read b.file b.readBytes b.offset).2 :=
      FileStore.alike_read b.readBytes b.offset
    unfold Loader.load fill clearRest
    simp only [ends_bind, ends_modifyGet, ends_ite, ends_modify, ends_emit, ends_refuse]
    exact ⟨fun full => ⟨same, overlay_read_zeroFrom b x.files x.page full⟩,
      fun short => ⟨trivial, short, same⟩⟩

/-! ## Writing pages back -/

/-- What is recorded when the first `n` bytes of a page go back to its stretch of the file: nothing
if the file ends before it. -/
def sent (b : FileBacking) (m : FileImage) (page : PageBytes) (n : Nat) : Option FileWrite :=
  if (m.contents b.file).size ≤ b.offset then none else some ⟨b.offset, page.toArray.extract 0 n⟩

/-- The file has all of the stretch. -/
def Within (b : FileBacking) (m : FileImage) : Prop :=
  ∀ j, j < b.readBytes → b.offset + j < (m.contents b.file).size

/-- A read of a stretch that the file has comes as a whole, unless it is to come short. -/
theorem comes_of_within {b : FileBacking} {s : FileStore} (within : b.Within s.image)
    (complete : (s.file (s.fileOf b.file)).shortReads = 0) : b.Comes s := by
  unfold Within at within
  rw [FileStore.contents_image] at within
  unfold Comes FileStore.read
  dsimp only
  rw [complete]
  split
  · rename_i past
    show 0 = b.readBytes
    by_contra some
    exact absurd (within 0 (by omega)) (by omega)
  · rename_i inside
    have last := fun some => within (b.readBytes - 1) (Nat.sub_lt some Nat.one_pos)
    rw [Array.size_extract, FileStore.transferred, if_neg fun both => absurd both.2 (by omega)]
    omega

/-- The first `n` bytes of a page went back to its stretch of the file. -/
structure Sent (b : FileBacking) (page : PageBytes) (n : Nat) (files files' : FileStore) : Prop where
  image : files'.image =
    files.image.received (files.image.fileOf b.file) (b.sent files.image page n)
  short : ∀ f, files'.shortWrites f ≤ files.shortWrites f
  reads : files.SameReads files'

/-- The file ended within the stretch, or writes to it were to come short, and only a part of it
was written. -/
def CameShort (b : FileBacking) (page : PageBytes) (files files' : FileStore) : Prop :=
  ∃ n, n ≤ b.readBytes ∧ b.Sent page n files files' ∧
    (b.Within files.image → 0 < files.shortWrites (files.image.fileOf b.file))

/-- How much of the page's part of a file is written. -/
private theorem write_front (b : FileBacking) (page : PageBytes) (files : FileStore) :
    ∃ n, (files.write b.file (page.toArray.extract 0 b.readBytes) b.offset).1 = n ∧
      b.Sent page n files (files.write b.file (page.toArray.extract 0 b.readBytes) b.offset).2 ∧
      ((min b.readBytes ((files.image.contents b.file).size - b.offset) = 0 ∨
            files.shortWrites (files.fileOf b.file) = 0) ∧
          n = min b.readBytes ((files.image.contents b.file).size - b.offset) ∨
        n + 1 = min b.readBytes ((files.image.contents b.file).size - b.offset) ∧
          0 < files.shortWrites (files.fileOf b.file)) := by
  have front : (page.toArray.extract 0 b.readBytes).size = b.readBytes := by
    rw [Array.size_extract, Vector.size_toArray, Nat.min_eq_left b.fits, Nat.sub_zero]
  obtain ⟨n, moved, image, short, full⟩ :=
    files.write_cases (d := b.file) (page.toArray.extract 0 b.readBytes) b.offset
  rw [front] at full
  have most : n ≤ b.readBytes := by omega
  refine ⟨n, moved, ⟨?_, short, FileStore.sameReads_write _ _⟩, full⟩
  rw [image, FileStore.fileOf_image, FileBacking.sent, Array.extract_extract, Nat.zero_add,
    Nat.zero_add, Nat.min_eq_left most]

/-- Writing a page back writes its part of the file, or comes short. -/
theorem writeBack_ends (b : FileBacking) (page : PageBytes) (files : FileStore) :
    (b.writeBack page.toArray).Ends files
      (fun _ files' => b.Sent page b.readBytes files files' ∧ b.Within files.image)
      (fun e files' => e = .refused .io ∧ b.CameShort page files files') := by
  obtain ⟨n, moved, sent, full⟩ := write_front b page files
  have most : n ≤ b.readBytes := by omega
  unfold writeBack
  simp only [ends_bind, ends_ensure, ends_modifyGet, ends_ite, ends_pure, ends_emit, ends_refuse,
    Vector.size_toArray, b.fits, true_implies, not_true_eq_false, false_implies, and_true, true_and,
    moved]
  refine ⟨fun all => ⟨all ▸ sent, fun j hj => ?_⟩, fun fewer => ⟨n, most, sent, fun within => ?_⟩⟩
  · omega
  · rw [FileStore.fileOf_image]
    rcases full with ⟨-, full⟩ | ⟨-, left⟩
    · refine absurd ?_ fewer
      cases Nat.eq_zero_or_pos b.readBytes with
      | inl nothing => omega
      | inr some =>
        have last := within (b.readBytes - 1) (by omega)
        omega
    · exact left

/-- While writes to a file are to come short, all of a page goes back to it but the last byte. -/
theorem writeBack_ends_of_hampered (b : FileBacking) (page : PageBytes) (files : FileStore)
    (within : b.Within files.image) (some : 0 < b.readBytes)
    (left : 0 < files.shortWrites (files.fileOf b.file)) :
    (b.writeBack page.toArray).Ends files (fun _ _ => False)
      (fun e files' => e = .refused .io ∧ b.Sent page (b.readBytes - 1) files files') := by
  obtain ⟨n, moved, sent, full⟩ := write_front b page files
  have last := within (b.readBytes - 1) (by omega)
  have but : n = b.readBytes - 1 := by omega
  unfold writeBack
  simp only [ends_bind, ends_ensure, ends_modifyGet, ends_ite, ends_pure, ends_emit, ends_refuse,
    Vector.size_toArray, b.fits, true_implies, not_true_eq_false, false_implies, and_true, true_and,
    moved]
  exact ⟨fun all => by omega, fun _ => but ▸ sent⟩

section

variable (b : FileBacking) (m : FileImage) (page : PageBytes) {n : Nat} {g : FileId} {k : Nat}

@[simp] theorem size_received_sent :
    ((m.received (m.fileOf b.file) (b.sent m page n)).bytes g).size = (m.bytes g).size := by
  unfold sent
  split
  · rfl
  · rw [FileImage.received, Option.map_some, Option.getD_some, FileImage.bytes_written]
    split
    · rename_i here
      rw [here]
      exact Array.size_mapIdx
    · rfl

/-- The bytes that went back are those of the page. -/
theorem getElem?_received_sent (most : n ≤ b.readBytes) (first : b.offset ≤ k)
    (last : k < b.offset + n) :
    ((m.received (m.fileOf b.file) (b.sent m page n)).bytes (m.fileOf b.file))[k]? =
      ((m.bytes (m.fileOf b.file))[k]?).bind fun _ => page[k - b.offset]? := by
  have room : k - b.offset < pageSize := by
    have := b.fits
    omega
  unfold sent
  rw [FileImage.contents_eq]
  split
  · rename_i past
    rw [FileImage.received, Option.map_none, Option.getD_none,
      Array.getElem?_eq_none (by omega), Option.bind_none]
  · rw [FileImage.received, Option.map_some, Option.getD_some, FileImage.bytes_written,
      if_pos rfl, FileStore.overwritten, Array.getElem?_mapIdx]
    have moved : (page.toArray.extract 0 n)[k - b.offset]? = page[k - b.offset]? := by
      have inside : k - b.offset < min n page.toArray.size - 0 := by
        rw [Vector.size_toArray]
        omega
      rw [Array.getElem?_extract, if_pos inside, Nat.zero_add, Vector.getElem?_toArray]
    cases (m.bytes (m.fileOf b.file))[k]? with
    | none => rfl
    | some y =>
      rw [Option.map_some, if_pos first, moved, Option.bind_some, Vector.getElem?_eq_getElem room]
      rfl

/-- All other bytes stay. -/
theorem getElem?_received_sent_of_other
    (other : ¬(g = m.fileOf b.file ∧ b.offset ≤ k ∧ k < b.offset + n)) :
    ((m.received (m.fileOf b.file) (b.sent m page n)).bytes g)[k]? = (m.bytes g)[k]? := by
  unfold sent
  split
  · rfl
  · rw [FileImage.received, Option.map_some, Option.getD_some, FileImage.bytes_written]
    split
    · rename_i here
      subst here
      rw [FileStore.overwritten, Array.getElem?_mapIdx]
      cases (m.bytes (m.fileOf b.file))[k]? with
      | none => rfl
      | some y =>
        rw [Option.map_some]
        split
        · rename_i first
          have past : (page.toArray.extract 0 n)[k - b.offset]? = none := by
            have last : b.offset + n ≤ k := Nat.le_of_not_lt fun last => other ⟨rfl, first, last⟩
            exact Array.getElem?_eq_none (by rw [Array.size_extract]; omega)
          rw [past, Option.getD_none]
        · rfl
    · rfl

end

end FileBacking

end KernelCore
