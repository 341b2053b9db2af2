import Mathlib.Data.Finset.Card
import Mathlib.Data.Finset.Range
import Mathlib.Data.List.Induction
import KernelCore.Proofs.Memory.Files

/-!
# Open descriptions of files

A file counts how often it was opened and how often a description of it was closed. The two counts
are tallied if they are what the descriptions themselves tell: each was opened once, and those that
nobody holds any more were closed once. What is held may be retained and released in any order.
-/
namespace KernelCore.FileStore

variable {s s' : FileStore} {d e : DescriptionId} {f g : FileId}

/-! ## The descriptions of a store -/

/-- Every description there ever was. -/
def ids (s : FileStore) : Finset DescriptionId :=
  (Finset.range s.descriptions.length).map ⟨DescriptionId.mk, fun _ _ => DescriptionId.mk.inj⟩

@[simp] theorem mem_ids : d ∈ s.ids ↔ d.index < s.descriptions.length := by
  unfold ids
  simp only [Finset.mem_map, Finset.mem_range]
  constructor
  · rintro ⟨i, hi, rfl⟩
    exact hi
  · exact fun h => ⟨d.index, h, rfl⟩

/-- The descriptions that were opened of a file. -/
def opened (s : FileStore) (f : FileId) : Finset DescriptionId := s.ids.filter fun d => s.fileOf d = f

/-- The descriptions of a file that nobody holds any more. -/
def closed (s : FileStore) (f : FileId) : Finset DescriptionId :=
  s.ids.filter fun d => s.fileOf d = f ∧ s.holders d = 0

theorem mem_opened : d ∈ s.opened f ↔ d ∈ s.ids ∧ s.fileOf d = f := Finset.mem_filter

theorem mem_closed : d ∈ s.closed f ↔ d ∈ s.ids ∧ s.fileOf d = f ∧ s.holders d = 0 :=
  Finset.mem_filter

/-- Of each file as many descriptions were opened as the list of their files shows. -/
theorem card_opened (s : FileStore) (f : FileId) : (s.opened f).card = s.image.opened.count f := by
  have places : ∀ l : List FileId,
      ((Finset.range l.length).filter fun i => l[i]? = some f).card = l.count f := by
    intro l
    induction l using List.reverseRecOn with
    | nil => rfl
    | append_singleton l g ih =>
      have front : (Finset.range l.length).filter (fun i => (l ++ [g])[i]? = some f) =
          (Finset.range l.length).filter fun i => l[i]? = some f := by
        refine Finset.filter_congr fun i hi => ?_
        rw [List.getElem?_append_left (Finset.mem_range.mp hi)]
      rw [List.length_append, List.length_singleton, Finset.range_add_one, Finset.filter_insert,
        List.getElem?_concat_length, front, List.count_append]
      by_cases here : g = f
      · subst here
        rw [if_pos rfl, Finset.card_insert_of_notMem (by simp), ih, List.count_singleton_self]
      · rw [if_neg fun same => here (Option.some.inj same), ih, List.count_singleton,
          if_neg (by simpa using here), Nat.add_zero]
  rw [← places]
  unfold opened ids
  rw [Finset.filter_map, Finset.card_map]
  simp only [image, List.length_map]
  congr 1
  refine Finset.filter_congr fun i hi => ?_
  have present := Finset.mem_range.mp hi
  change s.fileOf ⟨i⟩ = f ↔ _
  simp [fileOf, List.getElem?_eq_getElem present]

theorem mem_ids_of_holders (held : 0 < s.holders d) : d ∈ s.ids := by
  rw [mem_ids]
  by_contra h
  unfold holders at held
  rw [List.getElem?_eq_none (Nat.le_of_not_lt h)] at held
  cases held

/-- Whether an option is the description `d`, as a number. -/
def share (d : DescriptionId) (o : Option DescriptionId) : Nat := if o = some d then 1 else 0

@[simp] theorem share_none : share d none = 0 := rfl

@[simp] theorem share_self : share d (some d) = 1 := if_pos rfl

theorem share_some : share e (some d) = if e = d then 1 else 0 := by
  unfold share
  simp only [Option.some.injEq, eq_comm]

theorem count_cons_eq_share (d e : DescriptionId) (l : List DescriptionId) :
    (e :: l).count d = l.count d + share d (some e) := by
  rw [List.count_cons, share_some]
  simp only [beq_iff_eq, eq_comm (a := e)]

theorem count_singleton_eq_share (d e : DescriptionId) : [e].count d = share d (some e) := by
  rw [count_cons_eq_share, List.count_nil, Nat.zero_add]

/-! ## Retaining and releasing -/

theorem fileOf_of_opened (h : s'.image.opened = s.image.opened) (d : DescriptionId) :
    s'.fileOf d = s.fileOf d := by
  rw [← fileOf_image, ← fileOf_image, FileImage.fileOf, FileImage.fileOf, h]

theorem ids_of_opened (h : s'.image.opened = s.image.opened) : s'.ids = s.ids := by
  have length := congrArg List.length h
  simp only [image, List.length_map] at length
  unfold ids
  rw [length]

theorem opened_of_opened (h : s'.image.opened = s.image.opened) (f : FileId) :
    s'.opened f = s.opened f := by
  unfold opened
  rw [ids_of_opened h]
  simp only [fileOf_of_opened h]

theorem holders_updateHolders (change : Nat → Nat) (present : d ∈ s.ids) :
    (s.updateHolders d change).holders e = if e = d then change (s.holders e) else s.holders e := by
  rw [mem_ids] at present
  have index : d.index = e.index ↔ e = d :=
    ⟨fun same => congrArg DescriptionId.mk same.symm, fun same => by rw [same]⟩
  unfold updateHolders holders
  dsimp only
  rw [List.getElem?_modify]
  by_cases same : e = d
  · subst same
    rw [List.getElem?_eq_getElem present]
    simp
  · simp [mt index.mp same, same]

theorem updateHolders_of_absent (change : Nat → Nat) (absent : d ∉ s.ids) :
    s.updateHolders d change = s := by
  rw [mem_ids, not_lt] at absent
  unfold updateHolders
  rw [List.modify_eq_self absent]

theorem holders_retain (held : 0 < s.holders d) :
    (s.retain d).holders e = s.holders e + share e (some d) := by
  unfold retain
  rw [holders_updateHolders _ (mem_ids_of_holders held), share_some]
  split <;> rfl

theorem holders_release (e : DescriptionId) :
    (s.release d).holders e = s.holders e - share e (some d) := by
  have same : (s.release d).holders e = (s.updateHolders d (· - 1)).holders e := by
    unfold release
    dsimp only
    split <;> rfl
  rw [same, share_some]
  by_cases present : d ∈ s.ids
  · rw [holders_updateHolders _ present]
    split <;> rfl
  · rw [updateHolders_of_absent _ present]
    split
    · rename_i here
      rw [here]
      have none := mt mem_ids_of_holders present
      omega
    · rfl

/-- What a release makes of a file: its last holder closes it. -/
theorem file_release (f : FileId) :
    (s.release d).file f =
      if s.holders d = 1 ∧ f = s.fileOf d ∧ f.index < s.files.length then
        { s.file f with closes := (s.file f).closes + 1 }
      else s.file f := by
  unfold release
  dsimp only
  by_cases last : s.holders d = 1
  · rw [if_pos last, file_updateFile]
    by_cases here : f = s.fileOf d
    · subst here
      simp only [last, true_and]
      rfl
    · rw [if_neg fun h => here h.1, if_neg fun h => here h.2.1]
      rfl
  · rw [if_neg last, if_neg fun h => last h.1]
    rfl

theorem length_files_release : (s.release d).files.length = s.files.length := by
  unfold release
  dsimp only
  split
  · simp [updateFile, updateHolders]
  · rfl

/-! ## Tallied counts -/

/-- Every file was opened once for each of its descriptions, and closed once for each of them that
nobody holds any more. -/
structure Tallied (s : FileStore) : Prop where
  within : ∀ d ∈ s.ids, (s.fileOf d).index < s.files.length
  opens : ∀ f, (s.file f).opens = (s.opened f).card
  closes : ∀ f, (s.file f).closes = (s.closed f).card
  /-- What the creator of a file holds is a description of it. -/
  named : ∀ f d, (s.file f).handle = some d → d ∈ s.ids ∧ s.fileOf d = f

theorem tallied_empty : Tallied empty where
  within d hd := by simp [empty] at hd
  opens _ := rfl
  closes _ := rfl
  named _ _ h := nomatch h

/-- What the files say of their descriptions. -/
def account (s : FileStore) : List Description × List (Nat × Nat × Option DescriptionId) :=
  (s.descriptions, s.files.map fun x => (x.opens, x.closes, x.handle))

/-- A change that concerns no descriptions. -/
theorem account_updateFile {change : StoredFile → StoredFile}
    (h : ∀ x, (change x).opens = x.opens ∧ (change x).closes = x.closes ∧
      (change x).handle = x.handle) : (s.updateFile f change).account = s.account := by
  unfold account updateFile
  congr 1
  apply List.ext_getElem?
  intro i
  simp only [List.getElem?_map, List.getElem?_modify]
  cases s.files[i]? with
  | none => simp
  | some x =>
    obtain ⟨opens, closes, handle⟩ := h x
    by_cases hi : f.index = i <;> simp [hi, opens, closes, handle]

section

variable (h : s'.account = s.account)

include h

theorem file_of_account (f : FileId) :
    (s'.file f).opens = (s.file f).opens ∧ (s'.file f).closes = (s.file f).closes ∧
      (s'.file f).handle = (s.file f).handle := by
  have files := congrArg (fun x => x.2[f.index]?) h
  simp only [account, List.getElem?_map] at files
  unfold file
  cases hf : s.files[f.index]? with
  | none =>
    rw [hf, Option.map_none, Option.map_eq_none_iff] at files
    rw [files]
    exact ⟨rfl, rfl, rfl⟩
  | some x =>
    rw [hf, Option.map_some] at files
    obtain ⟨y, hy, same⟩ := Option.map_eq_some_iff.mp files
    rw [hy]
    simp only [Prod.mk.injEq] at same
    exact same

theorem descriptions_of_account : s'.descriptions = s.descriptions := congrArg Prod.fst h

theorem length_files_of_account : s'.files.length = s.files.length := by
  have files := congrArg (fun x => x.2.length) h
  simpa [account] using files

theorem holders_of_account (d : DescriptionId) : s'.holders d = s.holders d := by
  unfold holders
  rw [descriptions_of_account h]

theorem opened_image_of_account : s'.image.opened = s.image.opened := by
  unfold image
  rw [descriptions_of_account h]

end

/-- The same descriptions, of which perhaps others are held. -/
theorem Tallied.of_opened (h : Tallied s) (opened : s'.image.opened = s.image.opened)
    (length : s'.files.length = s.files.length) (opens : ∀ f, (s'.file f).opens = (s.file f).opens)
    (handles : ∀ f d, (s'.file f).handle = some d → (s.file f).handle = some d)
    (closes : ∀ f, (s'.file f).closes = (s'.closed f).card) : Tallied s' where
  within d hd := by
    rw [ids_of_opened opened] at hd
    rw [fileOf_of_opened opened, length]
    exact h.within d hd
  opens f := by rw [opens, h.opens, opened_of_opened opened]
  closes := closes
  named f d held := by
    rw [ids_of_opened opened, fileOf_of_opened opened]
    exact h.named f d (handles f d held)

/-- Which descriptions are closed depends on who holds them. -/
theorem closed_of_holders (opened : s'.image.opened = s.image.opened)
    (h : ∀ d ∈ s.ids, s'.holders d = 0 ↔ s.holders d = 0) (f : FileId) :
    s'.closed f = s.closed f := by
  ext d
  rw [mem_closed, mem_closed, ids_of_opened opened, fileOf_of_opened opened]
  constructor
  · rintro ⟨present, file, none⟩
    exact ⟨present, file, (h d present).mp none⟩
  · rintro ⟨present, file, none⟩
    exact ⟨present, file, (h d present).mpr none⟩

theorem Tallied.of_account (h : Tallied s) (same : s'.account = s.account) : Tallied s' := by
  have opened := opened_image_of_account same
  refine h.of_opened opened (length_files_of_account same) (fun f => (file_of_account same f).1)
    (fun f d held => (file_of_account same f).2.2 ▸ held) fun f => ?_
  rw [(file_of_account same f).2.1, h.closes,
    closed_of_holders opened fun d _ => by rw [holders_of_account same d]]

theorem Tallied.retain (h : Tallied s) (held : 0 < s.holders d) : Tallied (s.retain d) := by
  have opened : (s.retain d).image.opened = s.image.opened := by rw [image_retain]
  refine h.of_opened opened rfl (fun _ => rfl) (fun _ _ same => same) fun f => ?_
  rw [closed_of_holders opened, ← h.closes]
  · rfl
  · intro e _
    rw [holders_retain held, share_some]
    split
    · rename_i here
      subst here
      omega
    · rfl

/-- The last holder to let go closes the description, and nobody else does. -/
theorem Tallied.release (h : Tallied s) (d : DescriptionId) : Tallied (s.release d) := by
  have opened : (s.release d).image.opened = s.image.opened := by rw [image_release]
  have unchanged : ∀ f, ((s.release d).file f).opens = (s.file f).opens ∧
      ((s.release d).file f).handle = (s.file f).handle := by
    intro f
    rw [file_release]
    split <;> exact ⟨rfl, rfl⟩
  refine h.of_opened opened length_files_release (fun f => (unchanged f).1)
    (fun f e held => (unchanged f).2 ▸ held) fun f => ?_
  rw [file_release]
  by_cases last : s.holders d = 1 ∧ f = s.fileOf d ∧ f.index < s.files.length
  · obtain ⟨one, here, -⟩ := id last
    have present := mem_ids_of_holders (s := s) (d := d) (by omega)
    have more : (s.release d).closed f = insert d (s.closed f) := by
      ext e
      rw [Finset.mem_insert, mem_closed, mem_closed, ids_of_opened opened, fileOf_of_opened opened,
        holders_release, share_some]
      by_cases same : e = d
      · subst same
        simpa [one, here] using present
      · simp [same]
    have fresh : d ∉ s.closed f := by
      rw [mem_closed]
      omega
    rw [if_pos last, more, Finset.card_insert_of_notMem fresh, ← h.closes]
  · rw [if_neg last, h.closes]
    congr 1
    ext e
    rw [mem_closed, mem_closed, ids_of_opened opened, fileOf_of_opened opened, holders_release,
      share_some]
    refine and_congr_right fun present => and_congr_right fun file => ?_
    by_cases same : e = d
    · subst same
      have other : s.holders e ≠ 1 := fun one => last ⟨one, file.symm, file ▸ h.within e present⟩
      rw [if_pos rfl]
      omega
    · rw [if_neg same, Nat.sub_zero]

/-! ## One held for another -/

theorem Tallied.exchange (h : Tallied s) {new old : Option DescriptionId}
    (held : ∀ d, new = some d → 0 < s.holders d) : Tallied ((s.retain? new).release? old) := by
  have retained : Tallied (s.retain? new) := by
    cases new with
    | none => exact h
    | some d => exact h.retain (held d rfl)
  cases old with
  | none => exact retained
  | some e => exact retained.release e

theorem holders_retain? {new : Option DescriptionId} (held : ∀ d, new = some d → 0 < s.holders d)
    (e : DescriptionId) : (s.retain? new).holders e = s.holders e + share e new := by
  cases new with
  | none => rfl
  | some d => exact holders_retain (held d rfl)

theorem holders_release? (old : Option DescriptionId) (e : DescriptionId) :
    (s.release? old).holders e = s.holders e - share e old := by
  cases old with
  | none => rfl
  | some d => exact holders_release e

theorem opened_exchange (new old : Option DescriptionId) :
    ((s.retain? new).release? old).image.opened = s.image.opened := by
  rw [image_release?, image_retain?]

/-- What the creators of the files still hold. -/
def handles (s : FileStore) : List DescriptionId := s.files.filterMap StoredFile.handle

theorem mem_handles : d ∈ s.handles ↔ ∃ f, (s.file f).handle = some d := by
  unfold handles file
  rw [List.mem_filterMap]
  constructor
  · rintro ⟨x, mem, held⟩
    obtain ⟨i, present⟩ := List.mem_iff_getElem?.mp mem
    exact ⟨⟨i⟩, by rw [present, Option.getD_some, held]⟩
  · rintro ⟨f, held⟩
    cases found : s.files[f.index]? with
    | none =>
      rw [found] at held
      cases held
    | some x =>
      rw [found] at held
      exact ⟨x, List.mem_of_getElem? found, held⟩

private theorem handles_of_map
    (h : s'.files.map StoredFile.handle = s.files.map StoredFile.handle) :
    s'.handles = s.handles := by
  have listed := congrArg (List.filterMap id) h
  rwa [List.filterMap_map, List.filterMap_map] at listed

theorem handles_of_account (h : s'.account = s.account) : s'.handles = s.handles := by
  have files := congrArg (fun x => x.2.map fun y => y.2.2) h
  exact handles_of_map (by simpa [account, Function.comp_def] using files)

theorem handles_updateFile {change : StoredFile → StoredFile}
    (h : ∀ x, (change x).handle = x.handle) : (s.updateFile f change).handles = s.handles := by
  apply handles_of_map
  unfold updateFile
  apply List.ext_getElem?
  intro i
  simp only [List.getElem?_map, List.getElem?_modify]
  cases s.files[i]? with
  | none => simp
  | some x => by_cases hi : f.index = i <;> simp [hi, h]

theorem handles_release : (s.release d).handles = s.handles := by
  unfold release
  dsimp only
  split
  · exact handles_updateFile fun _ => rfl
  · rfl

theorem handles_reopen : (s.reopen d).2.handles = s.handles := by
  unfold reopen
  dsimp only
  split
  · exact handles_updateFile fun _ => rfl
  · rfl

theorem handles_exchange (new old : Option DescriptionId) :
    ((s.retain? new).release? old).handles = s.handles := by
  have retained : (s.retain? new).handles = s.handles := by cases new <;> rfl
  cases old with
  | none => exact retained
  | some d => exact handles_release.trans retained

/-! ## New descriptions -/

/-- One more description of a file, counted as opened. -/
structure Opens (s : FileStore) (f : FileId) (s' : FileStore) : Prop where
  descriptions : s'.descriptions = s.descriptions ++ [⟨f, 1⟩]
  room : f.index < s'.files.length
  length : s.files.length ≤ s'.files.length
  opens : ∀ g, (s'.file g).opens = (s.file g).opens + if g = f then 1 else 0
  closes : ∀ g, (s'.file g).closes = (s.file g).closes
  handles : ∀ g d, (s'.file g).handle = some d →
    (s.file g).handle = some d ∨ g = f ∧ d = ⟨s.descriptions.length⟩

section

variable (h : Opens s f s')

include h

theorem Opens.ids : s'.ids = insert ⟨s.descriptions.length⟩ s.ids := by
  ext d
  rw [Finset.mem_insert, mem_ids, mem_ids, h.descriptions, List.length_append,
    List.length_singleton]
  have index : d = ⟨s.descriptions.length⟩ ↔ d.index = s.descriptions.length :=
    ⟨fun same => by rw [same], fun same => congrArg DescriptionId.mk same⟩
  rw [index]
  omega

theorem Opens.image_opened : s'.image.opened = s.image.opened ++ [f] := by
  unfold image
  rw [h.descriptions, List.map_append]
  rfl

/-- A new description has the next number, and the others are as they were. -/
theorem Opens.description (d : DescriptionId) : s'.descriptions[d.index]? =
    if d = ⟨s.descriptions.length⟩ then some ⟨f, 1⟩ else s.descriptions[d.index]? := by
  rw [h.descriptions]
  split
  · rename_i here
    rw [here, List.getElem?_concat_length]
  · rename_i other
    have index : d.index ≠ s.descriptions.length := fun same => other (congrArg DescriptionId.mk same)
    rw [List.getElem?_append, List.getElem?_singleton]
    split
    · rfl
    · rw [if_neg (by omega), List.getElem?_eq_none (by omega)]

theorem Opens.fileOf (d : DescriptionId) :
    s'.fileOf d = if d = ⟨s.descriptions.length⟩ then f else s.fileOf d := by
  unfold FileStore.fileOf
  rw [h.description]
  split
  · rfl
  · rfl

theorem Opens.holders (d : DescriptionId) :
    s'.holders d = s.holders d + share d (some ⟨s.descriptions.length⟩) := by
  unfold FileStore.holders
  rw [h.description, share_some]
  split
  · rename_i here
    rw [here, List.getElem?_eq_none (Nat.le_refl _)]
    rfl
  · rfl

theorem Opens.tallied (tallied : Tallied s) : Tallied s' := by
  have fresh : (⟨s.descriptions.length⟩ : DescriptionId) ∉ s.ids := by simp
  have old : ∀ {d}, d ∈ s.ids → d ≠ ⟨s.descriptions.length⟩ := by
    rintro d hd rfl
    exact fresh hd
  refine ⟨fun d hd => ?_, fun g => ?_, fun g => ?_, fun g d held => ?_⟩
  · rw [h.fileOf]
    split
    · exact h.room
    · rename_i other
      rw [h.ids, Finset.mem_insert] at hd
      exact Nat.lt_of_lt_of_le (tallied.within d (hd.resolve_left other)) h.length
  · have more : s'.opened g =
        if g = f then insert ⟨s.descriptions.length⟩ (s.opened g) else s.opened g := by
      ext d
      rw [mem_opened, h.ids, Finset.mem_insert, h.fileOf]
      by_cases here : d = ⟨s.descriptions.length⟩
      · have unknown : d ∉ s.opened g := fun known => old (mem_opened.mp known).1 here
        rw [if_pos here]
        split <;> simp_all [eq_comm]
      · rw [if_neg here]
        split <;> simp [here, mem_opened]
    rw [h.opens, more, tallied.opens]
    split
    · rw [Finset.card_insert_of_notMem fun known => fresh (mem_opened.mp known).1]
    · rfl
  · rw [h.closes, tallied.closes]
    congr 1
    ext d
    rw [mem_closed, mem_closed, h.ids, Finset.mem_insert, h.fileOf, h.holders, share_some]
    by_cases here : d = ⟨s.descriptions.length⟩
    · simp [here]
    · simp [here]
  · rw [h.ids, Finset.mem_insert, h.fileOf]
    rcases h.handles g d held with before | ⟨rfl, rfl⟩
    · obtain ⟨present, file⟩ := tallied.named g d before
      exact ⟨.inr present, by rw [if_neg (old present), file]⟩
    · exact ⟨.inl rfl, if_pos rfl⟩

end

theorem opens_create (contents : Array UInt8) :
    Opens s ⟨s.files.length⟩ (s.create contents).2 := by
  refine ⟨rfl, by simp [create], by simp [create], fun g => ?_, fun g => ?_, fun g d held => ?_⟩
  · rw [file_create]
    split
    · rename_i here
      rw [here, file_length]
      rfl
    · rfl
  · rw [file_create]
    split
    · rename_i here
      rw [here, file_length]
      rfl
    · rfl
  · rw [file_create] at held
    split at held
    · exact .inr ⟨‹_›, (Option.some.inj held).symm⟩
    · exact .inl held

/-- Opening a file afresh is refused, or yields the next description. -/
theorem reopen_opens (h : Tallied s) (present : d ∈ s.ids) :
    s.reopen d = (none, s) ∨
      (s.reopen d).1 = some ⟨s.descriptions.length⟩ ∧ Opens s (s.fileOf d) (s.reopen d).2 := by
  unfold reopen
  dsimp only
  split
  · have room := h.within d present
    have file : ∀ g, (s.updateFile (s.fileOf d) fun x => { x with opens := x.opens + 1 }).file g =
        if g = s.fileOf d then { s.file g with opens := (s.file g).opens + 1 } else s.file g := by
      intro g
      rw [file_updateFile]
      by_cases here : g = s.fileOf d
      · rw [if_pos ⟨here, room⟩, if_pos here, here]
      · rw [if_neg fun same => here same.1, if_neg here]
    refine .inr ⟨rfl, rfl, by simpa [updateFile] using room, by simp [updateFile], fun g => ?_,
      fun g => ?_, fun g e held => .inl ?_⟩
    · exact (congrArg StoredFile.opens (file g)).trans (by split <;> rfl)
    · exact (congrArg StoredFile.closes (file g)).trans (by split <;> rfl)
    · have same := (congrArg StoredFile.handle (file g)).trans
        (show _ = (s.file g).handle by split <;> rfl)
      exact same.symm.trans held
  · exact .inl rfl

/-! ## Letting go -/

theorem Tallied.dropHandle (h : Tallied s) (f : FileId) : Tallied (s.dropHandle f) := by
  unfold FileStore.dropHandle
  split
  · exact h
  · rename_i d held
    have released := h.release d
    have file : ∀ g, ((s.release d).updateFile f fun x => { x with handle := none }).file g =
        if g = f then { (s.release d).file g with handle := none } else (s.release d).file g := by
      intro g
      rw [file_updateFile]
      by_cases here : g = f
      · have known : f.index < (s.release d).files.length := by
          obtain ⟨present, file⟩ := h.named f d held
          rw [length_files_release, ← file]
          exact h.within d present
        rw [if_pos ⟨here, known⟩, if_pos here, here]
      · rw [if_neg fun same => here same.1, if_neg here]
    refine released.of_opened rfl (by simp [updateFile]) (fun g => ?_) (fun g e => ?_) fun g => ?_
    · rw [file]
      split <;> rfl
    · rw [file]
      split
      · intro gone
        cases gone
      · exact id
    · rw [file]
      have same : ((s.release d).file g).closes = ((s.release d).closed g).card := released.closes g
      split <;> exact same

theorem holders_dropHandle (f : FileId) (e : DescriptionId) :
    (s.dropHandle f).holders e = s.holders e - share e (s.file f).handle := by
  unfold dropHandle
  split
  · rename_i none
    rw [none]
    rfl
  · rename_i d held
    rw [held]
    exact holders_release e

private theorem count_handles_modify (change : StoredFile → StoredFile)
    (h : ∀ x, (change x).handle = none) (d : DescriptionId) : ∀ (xs : List StoredFile) (i : Nat),
    ((xs.modify i change).filterMap StoredFile.handle).count d +
        share d (xs[i]?.bind StoredFile.handle) =
      (xs.filterMap StoredFile.handle).count d
  | [], i => by simp
  | x :: xs, 0 => by
    rw [List.modify_zero_cons, List.filterMap_cons_none (h x), List.getElem?_cons_zero,
      Option.bind_some]
    cases held : x.handle with
    | none => rw [List.filterMap_cons_none held, share_none, Nat.add_zero]
    | some e =>
      rw [List.filterMap_cons_some held, count_cons_eq_share]
  | x :: xs, i + 1 => by
    have later := count_handles_modify change h d xs i
    rw [List.modify_succ_cons, List.getElem?_cons_succ]
    cases held : x.handle with
    | none => rwa [List.filterMap_cons_none held, List.filterMap_cons_none held]
    | some e =>
      rw [List.filterMap_cons_some held, List.filterMap_cons_some held, List.count_cons,
        List.count_cons]
      omega

/-- The creator of a file that lets go holds one description less. -/
theorem count_handles_dropHandle (f : FileId) (d : DescriptionId) :
    (s.dropHandle f).handles.count d + share d (s.file f).handle = s.handles.count d := by
  unfold dropHandle
  split
  · rename_i none
    rw [none, share_none, Nat.add_zero]
  · rename_i e held
    have same : ((s.release e).file f).handle = some e := by
      rw [file_release, ← held]
      split <;> rfl
    have looked : (s.release e).files[f.index]?.bind StoredFile.handle = some e := by
      rw [← same]
      unfold file
      cases (s.release e).files[f.index]? <;> rfl
    have one := count_handles_modify (fun x => { x with handle := none }) (fun _ => rfl) d
      (s.release e).files f.index
    rw [looked] at one
    have kept : s.handles = (s.release e).handles := handles_release.symm
    rw [held, congrArg (List.count d) kept]
    exact one

end KernelCore.FileStore
