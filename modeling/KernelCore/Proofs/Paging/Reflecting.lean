import KernelCore.Proofs.Paging.PageCache

/-!
# One byte of a file

A byte of a file is in the file, and in every page in memory that shows it. What a single event
makes of one page and of one byte is described here, and with it when they agree: a page holds the
byte it should, and if it was not changed so does its file.
-/
namespace KernelCore

namespace CacheEvent

/-- The page that an event changes. -/
def place? : CacheEvent → Option (SpaceId × VirtAddr)
  | .entered s a | .copied _ s a | .fetched s a | .left s a | .wroteBack s a _ _ | .lost s a _ _
  | .removed s a | .stored s a _ _ | .poked s a _ | .marked s a => some (s, a)
  | _ => none

/-- The page is taken away. -/
def Removes (s : SpaceId) (a : VirtAddr) (e : CacheEvent) : Prop :=
  e = .removed s a ∨ ∃ f w, e = .lost s a f w

/-- The write to a file that an event issues. -/
def write? (f : FileId) : CacheEvent → Option FileWrite
  | .wroteBack _ _ g w | .cameShort _ _ g w | .lost _ _ g w => if g = f then w else none
  | _ => none

/-- The event makes the file or changes its length. -/
def Remakes (f : FileId) : CacheEvent → Prop
  | .created _ g | .resized g _ => g = f
  | _ => False

/-- A file is opened, perhaps a new one. -/
def Opens : CacheEvent → Prop
  | .opened _ | .created .. => True
  | _ => False

end CacheEvent

/-! ## Files -/

namespace FileImage

variable {m : FileImage} {f g : FileId} {n k : Nat} {contents : Array UInt8}

theorem bytes_creating_of_ne (other : ⟨m.files.length⟩ ≠ f) :
    (m.creating contents).bytes f = m.bytes f := by
  have index : f.index ≠ m.files.length := fun same => other (congrArg FileId.mk same.symm)
  unfold bytes creating
  dsimp only
  rcases Nat.lt_or_gt_of_ne index with before | beyond
  · rw [List.getElem?_append_left before]
  · rw [List.getElem?_eq_none (Nat.le_of_lt beyond), List.getElem?_eq_none]
    rw [List.length_append, List.length_singleton]
    exact beyond

theorem bytes_resizing_of_ne (other : g ≠ f) : (m.resizing g n).bytes f = m.bytes f := by
  have index : g.index ≠ f.index := fun same => other (congrArg FileId.mk same)
  unfold bytes resizing
  dsimp only
  rw [List.getElem?_modify]
  simp only [if_neg index]
  exact congrArg (fun x => (Option.map Prod.fst x).getD #[]) (id_map m.files[f.index]?)

theorem writes_creating (present : f.index < m.files.length) :
    (m.creating contents).writes f = m.writes f := by
  unfold writes creating
  dsimp only
  rw [List.getElem?_append_left present]

theorem writes_resizing : (m.resizing g n).writes f = m.writes f := by
  unfold writes resizing
  dsimp only
  rw [List.getElem?_modify]
  cases m.files[f.index]? with
  | none => rfl
  | some x =>
    dsimp only [Option.map_eq_map, Option.map_some]
    split <;> rfl

/-- A write goes to the record of its file. -/
theorem writes_received (w : Option FileWrite) (present : f.index < m.files.length) :
    (m.received g w).writes f = m.writes f ++ (if g = f then w else none).toList := by
  cases w with
  | none => simp [received]
  | some w =>
    rw [received, Option.map_some, Option.getD_some, writes_written _ _ _ _ present]
    by_cases same : f = g
    · rw [if_pos same, if_pos same.symm]
      rfl
    · rw [if_neg same, if_neg (Ne.symm same)]
      simp

theorem length_received (w : Option FileWrite) : (m.received g w).files.length = m.files.length := by
  cases w with
  | none => rfl
  | some w => exact List.length_modify ..

end FileImage

namespace FileBacking

variable {b : FileBacking} {m : FileImage} {page : PageBytes} {f : FileId} {n k : Nat}

/-- A page that shows a byte has one. -/
theorem Shows.room (h : b.Shows m f k) : k - b.offset < pageSize := by
  have := b.fits
  have := h.first
  have := h.last
  omega

/-- A page that is fetched holds what the file has. -/
theorem Shows.contents (h : b.Shows m f k) : (b.contents m)[k - b.offset]? = some (m.byte f k) := by
  have first := h.first
  have last := h.last
  have front : k - b.offset < b.readBytes := by omega
  rw [Vector.getElem?_eq_getElem h.room]
  unfold FileBacking.contents FileImage.byte
  rw [Vector.getElem_ofFn, if_pos front, FileImage.contents_eq, h.file, Nat.add_sub_cancel' first]

/-- When a part of a page goes back, a byte of the file stays or becomes that of the page. -/
theorem byte_sent (most : n ≤ b.readBytes) :
    (m.received (m.fileOf b.file) (b.sent m page n)).byte f k = m.byte f k ∨
      b.Shows m f k ∧ page[k - b.offset]? =
        some ((m.received (m.fileOf b.file) (b.sent m page n)).byte f k) := by
  by_cases inside : f = m.fileOf b.file ∧ b.offset ≤ k ∧ k < b.offset + n
  · obtain ⟨rfl, first, last⟩ := inside
    have shows : b.Shows m (m.fileOf b.file) k := ⟨rfl, first, by omega⟩
    have sent := getElem?_received_sent b m page most first last
    unfold FileImage.byte
    rw [sent]
    cases (m.bytes (m.fileOf b.file))[k]? with
    | none => exact .inl rfl
    | some y =>
      refine .inr ⟨shows, ?_⟩
      rw [Option.bind_some, Vector.getElem?_eq_getElem shows.room]
      rfl
  · left
    unfold FileImage.byte
    rw [getElem?_received_sent_of_other b m page inside]

/-- When a page goes back to a file that has all of its stretch, so does every byte. -/
theorem byte_sent_of_within (within : b.Within m) (shows : b.Shows m f k) :
    page[k - b.offset]? =
      some ((m.received (m.fileOf b.file) (b.sent m page b.readBytes)).byte f k) := by
  obtain ⟨rfl, first, last⟩ := shows
  have there := within (k - b.offset) (by omega)
  rw [Nat.add_sub_cancel' first, FileImage.contents_eq] at there
  have room : k - b.offset < pageSize := by
    have := b.fits
    omega
  unfold FileImage.byte
  rw [getElem?_received_sent b m page (Nat.le_refl _) first last, Array.getElem?_eq_getElem there,
    Option.bind_some, Vector.getElem?_eq_getElem room]
  rfl

end FileBacking

/-! ## One event -/

/-- What an event makes of a page that stays. -/
inductive PageStep (c : PageCache) (s : SpaceId) (a : VirtAddr) (b : FileBacking) :
    CacheEvent → Option HeldPage → Option HeldPage → Prop where
  | other {e held} (elsewhere : e.place? ≠ some (s, a)) : PageStep c s a b e held held
  | fetched : PageStep c s a b (.fetched s a) none (some ⟨b.contents c.files, false⟩)
  | left {bytes} : PageStep c s a b (.left s a) (some ⟨bytes, false⟩) none
  | wroteBack {bytes f w} :
    PageStep c s a b (.wroteBack s a f w) (some ⟨bytes, true⟩) (some ⟨bytes, false⟩)
  | stored {held offset bytes} :
    PageStep c s a b (.stored s a offset bytes) (some held) (some (held.store offset bytes))
  | poked {held bytes} : PageStep c s a b (.poked s a bytes) held (held.map (.poke 0 bytes))
  | marked {held} : PageStep c s a b (.marked s a) held (held.map .mark)

namespace CacheStep

variable {c c' : PageCache} {e : CacheEvent} {s : SpaceId} {a : VirtAddr} {b : FileBacking}
  {held : Option HeldPage} {p : CachedPage} {f : FileId} {k : Nat}

/-- A page stays the page of its stretch until it is taken away. -/
theorem page_cases (step : CacheStep c e c') (page : c.page s a = some ⟨b, held⟩) :
    c'.page s a = none ∧ e.Removes s a ∨
      ∃ held', c'.page s a = some ⟨b, held'⟩ ∧ PageStep c s a b e held held' := by
  -- A step that is about another page leaves this one as it was.
  have about : ∀ {t : SpaceId} {d : VirtAddr} {q : Option CachedPage} {x : PageCache},
      x.page = c.page → e.place? = some (t, d) →
      (t = s → d = a → q = none ∧ e.Removes s a ∨
        ∃ held', q = some ⟨b, held'⟩ ∧ PageStep c s a b e held held') →
      (x.setPage t d q).page s a = none ∧ e.Removes s a ∨
        ∃ held', (x.setPage t d q).page s a = some ⟨b, held'⟩ ∧ PageStep c s a b e held held' := by
    intro t d q x same place here
    by_cases own : s = t ∧ a = d
    · obtain ⟨rfl, rfl⟩ := own
      rw [PageCache.setPage_page]
      exact here rfl rfl
    · refine .inr ⟨held, ?_, .other ?_⟩
      · rw [PageCache.setPage_page_of_ne _ _ own, same, page]
      · rw [place]
        intro here
        cases here
        exact own ⟨rfl, rfl⟩
  cases step with
  | entered _ absent =>
    refine about rfl rfl ?_
    rintro rfl rfl
    cases page.symm.trans absent
  | copied absent =>
    refine about rfl rfl ?_
    rintro rfl rfl
    cases page.symm.trans absent
  | fetched away =>
    refine about rfl rfl ?_
    rintro rfl rfl
    cases page.symm.trans away
    exact .inr ⟨_, rfl, .fetched⟩
  | left clean =>
    refine about rfl rfl ?_
    rintro rfl rfl
    cases page.symm.trans clean
    exact .inr ⟨_, rfl, .left⟩
  | wroteBack dirty =>
    refine about rfl rfl ?_
    rintro rfl rfl
    cases page.symm.trans dirty
    exact .inr ⟨_, rfl, .wroteBack⟩
  | cameShort => exact .inr ⟨held, page, .other nofun⟩
  | lost =>
    refine about rfl rfl ?_
    rintro rfl rfl
    exact .inl ⟨rfl, .inr ⟨_, _, rfl⟩⟩
  | removed =>
    refine about rfl rfl ?_
    rintro rfl rfl
    exact .inl ⟨rfl, .inl rfl⟩
  | stored some =>
    refine about rfl rfl ?_
    rintro rfl rfl
    obtain ⟨h, rfl⟩ := Option.isSome_iff_exists.mp (some _ page)
    rw [page]
    exact .inr ⟨_, rfl, .stored⟩
  | poked =>
    refine about rfl rfl ?_
    rintro rfl rfl
    rw [page]
    exact .inr ⟨_, rfl, .poked⟩
  | marked =>
    refine about rfl rfl ?_
    rintro rfl rfl
    rw [page]
    exact .inr ⟨_, rfl, .marked⟩
  | mapped => exact .inr ⟨held, page, .other nofun⟩
  | unmapped => exact .inr ⟨held, page, .other nofun⟩
  | opened => exact .inr ⟨held, page, .other nofun⟩
  | created => exact .inr ⟨held, page, .other nofun⟩
  | resized => exact .inr ⟨held, page, .other nofun⟩
  | hampered => exact .inr ⟨held, page, .other nofun⟩

/-- Where a page comes from: it was there before, it was entered, or it was copied. -/
theorem origin (step : CacheStep c e c') (page : c'.page s a = some p) :
    (∃ q, c.page s a = some q ∧ q.backing = p.backing) ∨ e = .entered s a ∨
      ∃ parent q, e = .copied parent s a ∧ c.page parent a = some q ∧ p.backing = q.backing ∧
        (p.held = q.held ∨
          q.held = none ∧ p.held = some ⟨q.backing.contents c.files, false⟩) := by
  have changed : ∀ {t : SpaceId} {d : VirtAddr} {q r : CachedPage} {x : PageCache},
      x.page = c.page → c.page t d = some q → (x.setPage t d (some r)).page s a = some p →
      r.backing = q.backing → ∃ q, c.page s a = some q ∧ q.backing = p.backing := by
    intro t d q r x same before after backing
    by_cases here : s = t ∧ a = d
    · obtain ⟨rfl, rfl⟩ := here
      rw [PageCache.setPage_page] at after
      cases after
      exact ⟨q, before, backing.symm⟩
    · rw [PageCache.setPage_page_of_ne _ _ here, same] at after
      exact ⟨p, after, rfl⟩
  have rewritten : ∀ {t : SpaceId} {d : VirtAddr} {g : HeldPage → HeldPage},
      (c.setPage t d ((c.page t d).map (CachedPage.change g))).page s a = some p →
      ∃ q, c.page s a = some q ∧ q.backing = p.backing := by
    intro t d g after
    cases before : c.page t d with
    | none =>
      rw [before, Option.map_none, PageCache.setPage_self before] at after
      exact ⟨p, after, rfl⟩
    | some q =>
      rw [before, Option.map_some] at after
      exact changed rfl before after rfl
  have taken : ∀ {t : SpaceId} {d : VirtAddr} {x : PageCache}, x.page = c.page →
      (x.setPage t d none).page s a = some p → ∃ q, c.page s a = some q ∧ q.backing = p.backing := by
    intro t d x same after
    by_cases here : s = t ∧ a = d
    · obtain ⟨rfl, rfl⟩ := here
      rw [PageCache.setPage_page] at after
      cases after
    · rw [PageCache.setPage_page_of_ne _ _ here, same] at after
      exact ⟨p, after, rfl⟩
  cases step with
  | @entered t d b absent =>
    by_cases here : s = t ∧ a = d
    · exact .inr (.inl (by rw [here.1, here.2]))
    · rw [PageCache.setPage_page_of_ne _ _ here] at page
      exact .inl ⟨p, page, rfl⟩
  | @copied parent t d q held absent original copy =>
    by_cases here : s = t ∧ a = d
    · obtain ⟨rfl, rfl⟩ := here
      rw [PageCache.setPage_page] at page
      cases page
      exact .inr (.inr ⟨parent, q, rfl, original, rfl, copy⟩)
    · rw [PageCache.setPage_page_of_ne _ _ here] at page
      exact .inl ⟨p, page, rfl⟩
  | fetched away => exact .inl (changed rfl away page rfl)
  | left clean => exact .inl (changed rfl clean page rfl)
  | wroteBack dirty => exact .inl (changed rfl dirty page rfl)
  | lost => exact .inl (taken rfl page)
  | removed => exact .inl (taken rfl page)
  | stored => exact .inl (rewritten page)
  | poked => exact .inl (rewritten page)
  | marked => exact .inl (rewritten page)
  | _ => exact .inl ⟨p, page, rfl⟩

/-- Descriptions stay those of their files. -/
theorem opened_cases (step : CacheStep c e c') :
    c'.files.opened = c.files.opened ∨
      e.Opens ∧ ∃ more, c'.files.opened = c.files.opened ++ more := by
  cases step with
  | wroteBack => exact .inl (FileImage.opened_received _ _ _)
  | cameShort => exact .inl (FileImage.opened_received _ _ _)
  | lost => exact .inl (FileImage.opened_received _ _ _)
  | opened => exact .inr ⟨trivial, _, rfl⟩
  | created => exact .inr ⟨trivial, _, rfl⟩
  | _ => exact .inl rfl

/-- Descriptions are of the same files until more files are opened. -/
theorem fileOf_eq (step : CacheStep c e c') (unopened : ¬e.Opens) (d : DescriptionId) :
    c'.files.fileOf d = c.files.fileOf d := by
  unfold FileImage.fileOf
  rw [step.opened_cases.resolve_right fun opens => unopened opens.1]

theorem shows (step : CacheStep c e c') (unopened : ¬e.Opens) :
    b.Shows c'.files f k ↔ b.Shows c.files f k := by
  have same := step.fileOf_eq unopened b.file
  exact ⟨fun h => ⟨same ▸ h.file, h.first, h.last⟩, fun h => ⟨same.symm ▸ h.file, h.first, h.last⟩⟩

/-- Files stay. -/
theorem length_le (step : CacheStep c e c') : c.files.files.length ≤ c'.files.files.length := by
  cases step with
  | wroteBack => exact Nat.le_of_eq (FileImage.length_received _).symm
  | cameShort => exact Nat.le_of_eq (FileImage.length_received _).symm
  | lost => exact Nat.le_of_eq (FileImage.length_received _).symm
  | created => exact (List.length_append ..).symm ▸ Nat.le_add_right _ _
  | resized => exact Nat.le_of_eq (List.length_modify ..).symm
  | _ => exact Nat.le_refl _

/-- What is written to a file is recorded, and nothing else. -/
theorem writes (step : CacheStep c e c') (present : f.index < c.files.files.length) :
    c'.files.writes f = c.files.writes f ++ (e.write? f).toList := by
  cases step with
  | wroteBack => exact FileImage.writes_received _ present
  | cameShort => exact FileImage.writes_received _ present
  | lost => exact FileImage.writes_received _ present
  | created =>
    exact (FileImage.writes_creating present).trans (List.append_nil _).symm
  | resized => exact FileImage.writes_resizing.trans (List.append_nil _).symm
  | _ => exact (List.append_nil _).symm

/-- A file keeps its length unless it is made anew or resized. -/
theorem size_bytes (step : CacheStep c e c') (unmade : ¬e.Remakes f) :
    (c'.files.bytes f).size = (c.files.bytes f).size := by
  cases step with
  | wroteBack => exact FileBacking.size_received_sent _ _ _
  | cameShort => exact FileBacking.size_received_sent _ _ _
  | lost => exact FileBacking.size_received_sent _ _ _
  | created => exact congrArg Array.size (FileImage.bytes_creating_of_ne unmade)
  | resized => exact congrArg Array.size (FileImage.bytes_resizing_of_ne unmade)
  | _ => rfl

/-- A byte of a file changes only when a changed page that shows it goes back. -/
theorem byte_cases (step : CacheStep c e c') (unmade : ¬e.Remakes f) (k : Nat) :
    c'.files.byte f k = c.files.byte f k ∨
      ∃ s a b bytes g w, (e = .wroteBack s a g w ∨ e = .cameShort s a g w ∨ e = .lost s a g w) ∧
        c.page s a = some ⟨b, some ⟨bytes, true⟩⟩ ∧ b.Shows c.files f k ∧
        bytes[k - b.offset]? = some (c'.files.byte f k) := by
  cases step with
  | @wroteBack s a b bytes short dirty =>
    rcases FileBacking.byte_sent (Nat.le_refl b.readBytes) with same | ⟨shows, byte⟩
    · exact .inl same
    · exact .inr ⟨s, a, b, bytes, _, _, .inl rfl, dirty, shows, byte⟩
  | @cameShort s a b bytes n short dirty most =>
    rcases FileBacking.byte_sent most with same | ⟨shows, byte⟩
    · exact .inl same
    · exact .inr ⟨s, a, b, bytes, _, _, .inr (.inl rfl), dirty, shows, byte⟩
  | @lost s a b bytes n short dirty most =>
    rcases FileBacking.byte_sent most with same | ⟨shows, byte⟩
    · exact .inl same
    · exact .inr ⟨s, a, b, bytes, _, _, .inr (.inr rfl), dirty, shows, byte⟩
  | created =>
    unfold FileImage.byte
    exact .inl (by rw [FileImage.bytes_creating_of_ne unmade])
  | resized =>
    unfold FileImage.byte
    exact .inl (by rw [FileImage.bytes_resizing_of_ne unmade])
  | _ => exact .inl rfl

end CacheStep

/-! ## Agreement -/

/-- A page of the stretch `b` and the file agree on byte number `k`: the page holds it if it is in
memory, and unless the page was changed the file has it. -/
structure Reflects (m : FileImage) (b : FileBacking) (f : FileId) (k : Nat) (x : UInt8)
    (held : Option HeldPage) : Prop where
  holds : ∀ h, held = some h → h.bytes[k - b.offset]? = some x
  file : (∀ h, held = some h → h.dirty = false) → m.byte f k = x

variable {c c' : PageCache} {e : CacheEvent} {s : SpaceId} {a : VirtAddr} {b : FileBacking}
  {held held' : Option HeldPage} {f : FileId} {k : Nat} {x : UInt8}

/-- The bytes of a file page: those it holds while it is in memory, else those of its file. -/
def CachedPage.contents (m : FileImage) (p : CachedPage) : PageBytes :=
  match p.held with
  | some h => h.bytes
  | none => p.backing.contents m

theorem Reflects.contents {m : FileImage} (r : Reflects m b f k x held) (shows : b.Shows m f k) :
    (CachedPage.contents m ⟨b, held⟩)[k - b.offset]? = some x := by
  cases held with
  | some h => exact r.holds h rfl
  | none =>
    have byte : m.byte f k = x := r.file nofun
    exact shows.contents.trans (congrArg some byte)

/-- A page and its file keep agreeing unless the page is overwritten, whatever else is written to
the file. -/
theorem Reflects.step (r : Reflects c.files b f k x held) (shows : b.Shows c.files f k)
    (step : CacheStep c e c') (page : c.page s a = some ⟨b, held⟩)
    (after : PageStep c s a b e held held') (unstored : ∀ offset bytes, e ≠ .stored s a offset bytes)
    (unpoked : ∀ bytes, e ≠ .poked s a bytes)
    (byte : c'.files.byte f k = c.files.byte f k ∨ c'.files.byte f k = x) :
    Reflects c'.files b f k x held' := by
  have still : c.files.byte f k = x → c'.files.byte f k = x := fun same =>
    byte.elim (·.trans same) id
  cases after with
  | other => exact ⟨r.holds, fun clean => still (r.file clean)⟩
  | fetched =>
    have before : c.files.byte f k = x := r.file nofun
    refine ⟨fun h same => ?_, fun _ => still before⟩
    rw [← Option.some.inj same, shows.contents, before]
  | left =>
    have before : c.files.byte f k = x := r.file fun h holds => by
      cases holds
      rfl
    exact ⟨nofun, fun _ => still before⟩
  | @wroteBack bytes g w =>
    have holds := r.holds _ rfl
    refine ⟨fun h same => ?_, fun _ => ?_⟩
    · cases same
      exact holds
    · cases step with
      | wroteBack dirty within =>
        rw [page] at dirty
        cases dirty
        have sent : bytes[k - b.offset]? = some (_ : UInt8) :=
          FileBacking.byte_sent_of_within within shows
        rw [holds] at sent
        exact (Option.some.inj sent).symm
  | stored => exact absurd rfl (unstored _ _)
  | poked => exact absurd rfl (unpoked _)
  | marked =>
    refine ⟨fun h same => ?_, fun clean => ?_⟩
    · obtain ⟨h', holds, rfl⟩ := Option.map_eq_some_iff.mp same
      exact r.holds h' holds
    · cases held with
      | none => exact still (r.file nofun)
      | some h => exact absurd (clean _ rfl) Bool.noConfusion

end KernelCore
