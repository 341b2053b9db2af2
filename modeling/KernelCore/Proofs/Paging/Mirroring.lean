import KernelCore.Proofs.Paging.Cached
import KernelCore.Proofs.Paging.Reflecting

/-!
# Pages that mirror their files

A file page that is left to its users holds what they stored there last, else what its file had,
and once it has gone back its file has the same. Both are read off the history of events, whatever
moves between memory and files meanwhile. The page goes back only when it was stored to, as a whole
and to its own stretch.
-/
namespace KernelCore

/-! ## What histories tell -/

/-- What was stored last at byte number `i` of a page, if anything was. -/
def lastStored (past : List CacheEvent) (s : SpaceId) (a : VirtAddr) (i : Nat) : Option UInt8 :=
  recalled (past.filterMap CacheEvent.store?) s a i

/-- The page was stored to since it last came from its file or went back to it. -/
def Modified (s : SpaceId) (a : VirtAddr) : List CacheEvent → Prop
  | [] => False
  | .stored t d _ _ :: past => (t = s ∧ d = a) ∨ Modified s a past
  | .fetched t d :: past => ¬(t = s ∧ d = a) ∧ Modified s a past
  | .wroteBack t d _ _ :: past => ¬(t = s ∧ d = a) ∧ Modified s a past
  | _ :: past => Modified s a past

/-- The write changes byte number `k`, if the file has one. -/
def FileWrite.Covers (w : FileWrite) (k : Nat) : Prop := w.offset ≤ k ∧ k < w.offset + w.bytes.size

/-- What is written to the file `f` is a part of the stretch. -/
structure FileBacking.Encloses (b : FileBacking) (m : FileImage) (f : FileId) (w : FileWrite) :
    Prop where
  file : m.fileOf b.file = f
  offset : w.offset = b.offset
  size : w.bytes.size ≤ b.readBytes

theorem FileBacking.Encloses.shows {b : FileBacking} {m : FileImage} {f : FileId} {w : FileWrite}
    {k : Nat} (h : b.Encloses m f w) (covers : w.Covers k) : b.Shows m f k := by
  obtain ⟨first, last⟩ := covers
  have offset := h.offset
  have size := h.size
  exact ⟨h.file, by omega, by omega⟩

namespace CacheEvent

/-- The page that is to go back to its file. -/
def sender? : CacheEvent → Option (SpaceId × VirtAddr)
  | .wroteBack s a _ _ | .cameShort s a _ _ | .lost s a _ _ => some (s, a)
  | _ => none

/-- A page is added. -/
def Enters : CacheEvent → Prop
  | .entered .. | .copied .. => True
  | _ => False

/-- No page is overwritten and marked but by its users, the file is not cut or lengthened, and no
write to it is to come short. -/
def Untampered (f : FileId) (s : SpaceId) (a : VirtAddr) : CacheEvent → Prop
  | .poked t d _ | .marked t d => ¬(t = s ∧ d = a)
  | .resized g _ => g ≠ f
  | .hampered g n => g = f → n = 0
  | _ => True

/-- The event leaves a page that shows the stretch `b` of the file `f` to its users, and the stretch
to the page. -/
structure Spares (f : FileId) (b : FileBacking) (s : SpaceId) (a : VirtAddr) (e : CacheEvent) :
    Prop where
  untampered : e.Untampered f s a
  missed : ∀ w, e.write? f = some w → e.sender? ≠ some (s, a) →
    ∀ k, b.offset ≤ k → k < b.offset + b.readBytes → ¬w.Covers k

section

variable {f : FileId} {b : FileBacking} {s : SpaceId} {a : VirtAddr} {e : CacheEvent}

theorem Spares.unpoked (h : e.Spares f b s a) (bytes : Array UInt8) : e ≠ .poked s a bytes := by
  rintro rfl
  exact h.untampered ⟨rfl, rfl⟩

theorem Spares.unmarked (h : e.Spares f b s a) : e ≠ .marked s a := by
  rintro rfl
  exact h.untampered ⟨rfl, rfl⟩

theorem Spares.unresized (h : e.Spares f b s a) (n : Nat) : e ≠ .resized f n := by
  rintro rfl
  exact h.untampered rfl

theorem Spares.unhampered (h : e.Spares f b s a) {n : Nat} (same : e = .hampered f n) : n = 0 := by
  subst same
  exact h.untampered rfl

end

end CacheEvent

section

variable {past es : List CacheEvent} {e : CacheEvent} {s t : SpaceId} {a d : VirtAddr}
  {i offset : Nat} {bytes : Array UInt8}

theorem lastStored_cons (unstored : e.store? = none) :
    lastStored (e :: past) s a i = lastStored past s a i := by
  unfold lastStored
  rw [List.filterMap_cons, unstored]

theorem lastStored_append (unstored : ∀ e ∈ es, e.store? = none) :
    lastStored (es ++ past) s a i = lastStored past s a i := by
  unfold lastStored
  rw [List.filterMap_append, List.filterMap_eq_nil_iff.mpr unstored, List.nil_append]

theorem lastStored_stored :
    lastStored (.stored t d offset bytes :: past) s a i =
      if s = t ∧ a = d ∧ offset ≤ i ∧ i - offset < bytes.size then bytes[i - offset]?
      else lastStored past s a i := rfl

theorem lastStored_poked_of_ne (other : ¬(s = t ∧ a = d)) :
    lastStored (.poked t d bytes :: past) s a i = lastStored past s a i :=
  if_neg fun here => other ⟨here.1, here.2.1⟩

/-- What is stored elsewhere does not count. -/
theorem lastStored_of_elsewhere (elsewhere : e.place? ≠ some (s, a)) :
    lastStored (e :: past) s a i = lastStored past s a i := by
  cases e with
  | stored t d offset bytes =>
    rw [lastStored_stored, if_neg]
    rintro ⟨rfl, rfl, -⟩
    exact elsewhere rfl
  | poked t d bytes =>
    refine lastStored_poked_of_ne ?_
    rintro ⟨rfl, rfl⟩
    exact elsewhere rfl
  | _ => exact lastStored_cons rfl

theorem modified_of_elsewhere (elsewhere : e.place? ≠ some (s, a)) :
    Modified s a (e :: past) ↔ Modified s a past := by
  cases e with
  | stored t d offset bytes =>
    refine or_iff_right ?_
    rintro ⟨rfl, rfl⟩
    exact elsewhere rfl
  | fetched t d =>
    refine and_iff_right ?_
    rintro ⟨rfl, rfl⟩
    exact elsewhere rfl
  | wroteBack t d g w =>
    refine and_iff_right ?_
    rintro ⟨rfl, rfl⟩
    exact elsewhere rfl
  | _ => exact .rfl

theorem Modified.exists_stored (h : Modified s a past) :
    ∃ offset bytes, CacheEvent.stored s a offset bytes ∈ past := by
  induction past with
  | nil => exact h.elim
  | cons e past ih =>
    have later : Modified s a past → ∃ offset bytes, CacheEvent.stored s a offset bytes ∈ e :: past := by
      intro before
      obtain ⟨offset, bytes, stored⟩ := ih before
      exact ⟨offset, bytes, List.mem_cons_of_mem _ stored⟩
    cases e with
    | stored t d offset bytes =>
      rcases h with ⟨rfl, rfl⟩ | before
      · exact ⟨offset, bytes, List.mem_cons_self⟩
      · exact later before
    | fetched t d => exact later h.2
    | wroteBack t d g w => exact later h.2
    | _ => exact later h

end

/-! ## Writes and the pages they come from -/

namespace FileImage

variable {m : FileImage} {f g : FileId} {k : Nat}

theorem byte_received_of_missed (w : Option FileWrite)
    (missed : ∀ x, w = some x → g = f → ¬x.Covers k) : (m.received g w).byte f k = m.byte f k := by
  cases w with
  | none => rfl
  | some w =>
    unfold byte
    rw [received, Option.map_some, Option.getD_some, bytes_written]
    split
    · rename_i same
      have outside := missed w rfl same.symm
      rw [FileStore.overwritten, Array.getElem?_mapIdx, same]
      cases (m.bytes g)[k]? with
      | none => rfl
      | some x =>
        rw [Option.map_some]
        split
        · rename_i first
          rw [Array.getElem?_eq_none, Option.getD_none]
          exact Nat.le_of_not_lt fun last => outside ⟨first, by omega⟩
        · rfl
    · rfl

end FileImage

namespace CacheStep

variable {c c' : PageCache} {e : CacheEvent} {s : SpaceId} {a : VirtAddr} {p : CachedPage}
  {f : FileId} {w : FileWrite} {k : Nat}

/-- A file that is there is not made anew. -/
theorem unmade (step : CacheStep c e c') (present : f.index < c.files.files.length)
    (unresized : ∀ n, e ≠ .resized f n) : ¬e.Remakes f := by
  intro remakes
  cases step with
  | created =>
    have same : (⟨c.files.files.length⟩ : FileId) = f := remakes
    rw [← same] at present
    exact Nat.lt_irrefl _ present
  | resized =>
    cases remakes
    exact unresized _ rfl
  | _ => exact remakes.elim

/-- A byte of a file changes only when it is written. -/
theorem byte_of_missed (step : CacheStep c e c') (unmade : ¬e.Remakes f)
    (missed : ∀ w, e.write? f = some w → ¬w.Covers k) : c'.files.byte f k = c.files.byte f k := by
  have received : ∀ {g : FileId} {w : Option FileWrite},
      (∀ x, (if g = f then w else none) = some x → ¬x.Covers k) →
      (c.files.received g w).byte f k = c.files.byte f k := by
    intro g w missed
    refine FileImage.byte_received_of_missed w fun x written same => missed x ?_
    rw [if_pos same, written]
  cases step with
  | wroteBack => exact received missed
  | cameShort => exact received missed
  | lost => exact received missed
  | created =>
    unfold FileImage.byte
    rw [FileImage.bytes_creating_of_ne unmade]
  | resized =>
    unfold FileImage.byte
    rw [FileImage.bytes_resizing_of_ne unmade]
  | _ => rfl

/-- Only a changed page is to go back. -/
theorem sender_page (step : CacheStep c e c') (sender : e.sender? = some (s, a)) :
    ∃ b bytes, c.page s a = some ⟨b, some ⟨bytes, true⟩⟩ := by
  cases step with
  | wroteBack dirty =>
    cases sender
    exact ⟨_, _, dirty⟩
  | cameShort dirty =>
    cases sender
    exact ⟨_, _, dirty⟩
  | lost dirty =>
    cases sender
    exact ⟨_, _, dirty⟩
  | _ => cases sender

/-- What is written is a part of the page it comes from. -/
theorem write_enclosed (step : CacheStep c e c') (write : e.write? f = some w)
    (sender : e.sender? = some (s, a)) :
    ∃ q, c.page s a = some q ∧ q.backing.Encloses c.files f w := by
  have part : ∀ {b : FileBacking} {bytes : PageBytes} {n : Nat}, n ≤ b.readBytes →
      (if c.files.fileOf b.file = f then b.sent c.files bytes n else none) = some w →
      b.Encloses c.files f w := by
    intro b bytes n most written
    split at written
    · rename_i same
      unfold FileBacking.sent at written
      split at written
      · cases written
      · cases written
        refine ⟨same, rfl, ?_⟩
        rw [Array.size_extract]
        omega
    · cases written
  cases step with
  | wroteBack dirty =>
    cases sender
    exact ⟨_, dirty, part (Nat.le_refl _) write⟩
  | cameShort dirty most =>
    cases sender
    exact ⟨_, dirty, part most write⟩
  | lost dirty most =>
    cases sender
    exact ⟨_, dirty, part most write⟩
  | _ => cases sender

/-- A page was there before unless pages are added. -/
theorem page_before (step : CacheStep c e c') (unentered : ¬e.Enters)
    (page : c'.page s a = some p) : ∃ q, c.page s a = some q ∧ q.backing = p.backing := by
  rcases step.origin page with before | rfl | ⟨parent, q, rfl, -⟩
  · exact before
  · exact absurd trivial unentered
  · exact absurd trivial unentered

/-- A page is there afterwards unless it is taken away. -/
theorem page_after (step : CacheStep c e c') (kept : ¬e.Removes s a)
    (page : c.page s a = some p) : ∃ q, c'.page s a = some q ∧ q.backing = p.backing := by
  obtain ⟨b, held⟩ := p
  rcases step.page_cases page with ⟨-, removes⟩ | ⟨held', after, -⟩
  · exact absurd removes kept
  · exact ⟨_, after, rfl⟩

/-- A region stays until it is unmapped. -/
theorem region {r : Region} (step : CacheStep c e c') (kept : e ≠ .unmapped s a)
    (region : c.region s a = some r) : c'.region s a = some r := by
  cases step with
  | @mapped t d _ absent =>
    refine (if_neg ?_).trans region
    rintro ⟨rfl, rfl⟩
    rw [region] at absent
    cases absent
  | @unmapped t d =>
    refine (if_neg ?_).trans region
    rintro ⟨rfl, rfl⟩
    exact kept rfl
  | _ => exact region

end CacheStep

namespace CacheHistory

variable {c c' : PageCache} {es : List CacheEvent} {e : CacheEvent} {s : SpaceId} {a : VirtAddr}
  {p : CachedPage} {f : FileId} {w : FileWrite} {r : Region} {k : Nat}

theorem length_le (history : CacheHistory c es c') :
    c.files.files.length ≤ c'.files.files.length := by
  induction history with
  | start => exact Nat.le_refl _
  | step _ step ih => exact Nat.le_trans ih step.length_le

/-- What a history writes to a file is what is recorded of it. -/
theorem writes (history : CacheHistory c es c') (present : f.index < c.files.files.length) :
    c'.files.writes f = c.files.writes f ++ es.reverse.filterMap (CacheEvent.write? f) := by
  induction history with
  | start => exact (List.append_nil _).symm
  | @step past c₁ e c₂ before step ih =>
    have last : [e].filterMap (CacheEvent.write? f) = (e.write? f).toList := by
      cases write : e.write? f with
      | none => exact List.filterMap_cons_none write
      | some w => exact List.filterMap_cons_some write
    rw [step.writes (Nat.lt_of_lt_of_le present before.length_le), ih, List.append_assoc,
      List.reverse_cons, List.filterMap_append, last]

/-- A byte that is not written stays. -/
theorem byte_of_missed (history : CacheHistory c es c')
    (present : f.index < c.files.files.length) (unresized : ∀ e ∈ es, ∀ n, e ≠ .resized f n)
    (missed : ∀ e ∈ es, ∀ w, e.write? f = some w → ¬w.Covers k) :
    c'.files.byte f k = c.files.byte f k := by
  induction history with
  | start => rfl
  | step before step ih =>
    rw [step.byte_of_missed
        (step.unmade (Nat.lt_of_lt_of_le present before.length_le) (unresized _ List.mem_cons_self))
        (missed _ List.mem_cons_self),
      ih (fun e he => unresized e (List.mem_cons_of_mem _ he))
        fun e he => missed e (List.mem_cons_of_mem _ he)]

theorem region (history : CacheHistory c es c') (kept : ∀ e ∈ es, e ≠ .unmapped s a)
    (region : c.region s a = some r) : c'.region s a = some r := by
  induction history with
  | start => exact region
  | step _ step ih =>
    exact step.region (kept _ List.mem_cons_self)
      (ih fun e he => kept e (List.mem_cons_of_mem _ he))

theorem page_after (history : CacheHistory c es c') (kept : ∀ e ∈ es, ¬e.Removes s a)
    (page : c.page s a = some p) : ∃ q, c'.page s a = some q ∧ q.backing = p.backing := by
  induction history with
  | start => exact ⟨p, page, rfl⟩
  | step _ step ih =>
    obtain ⟨q, before, same⟩ := ih fun e he => kept e (List.mem_cons_of_mem _ he)
    obtain ⟨r, after, same'⟩ := step.page_after (kept _ List.mem_cons_self) before
    exact ⟨r, after, same'.trans same⟩

theorem page_before (history : CacheHistory c es c') (unentered : ∀ e ∈ es, ¬e.Enters)
    (page : c'.page s a = some p) : ∃ q, c.page s a = some q ∧ q.backing = p.backing := by
  induction history generalizing p with
  | start => exact ⟨p, page, rfl⟩
  | step _ step ih =>
    obtain ⟨q, before, same⟩ := step.page_before (unentered _ List.mem_cons_self) page
    obtain ⟨r, first, same'⟩ := ih (fun e he => unentered e (List.mem_cons_of_mem _ he)) before
    exact ⟨r, first, same'.trans same⟩

theorem fileOf_eq (history : CacheHistory c es c') (unopened : ∀ e ∈ es, ¬e.Opens)
    (d : DescriptionId) : c'.files.fileOf d = c.files.fileOf d := by
  induction history with
  | start => rfl
  | step _ step ih =>
    rw [step.fileOf_eq (unopened _ List.mem_cons_self),
      ih fun e he => unopened e (List.mem_cons_of_mem _ he)]

/-- Where no pages are added and no files opened, what is written is a part of what was there at
the start. -/
theorem write_enclosed_before (history : CacheHistory c es c')
    (plain : ∀ e ∈ es, ¬e.Enters ∧ ¬e.Opens) (he : e ∈ es) (write : e.write? f = some w)
    (sender : e.sender? = some (s, a)) :
    ∃ q, c.page s a = some q ∧ q.backing.Encloses c.files f w := by
  induction history with
  | start => cases he
  | @step past c₁ e₁ c₂ before step ih =>
    have earlier : ∀ e ∈ past, ¬e.Enters ∧ ¬e.Opens := fun e he =>
      plain e (List.mem_cons_of_mem _ he)
    rcases List.mem_cons.mp he with rfl | he
    · obtain ⟨q, page, enclosed⟩ := step.write_enclosed write sender
      obtain ⟨r, first, same⟩ := before.page_before (fun e he => (earlier e he).1) page
      refine ⟨r, first, ?_⟩
      rw [same]
      exact ⟨(before.fileOf_eq (fun e he => (earlier e he).2) _).symm.trans enclosed.file,
        enclosed.offset, enclosed.size⟩
    · exact ih earlier he

/-- Where no pages are taken away and no files opened, what is written is a part of what is there
in the end. -/
theorem write_enclosed_after (history : CacheHistory c es c')
    (plain : ∀ e ∈ es, (∀ s a, ¬e.Removes s a) ∧ ¬e.Opens) (he : e ∈ es)
    (write : e.write? f = some w) (sender : e.sender? = some (s, a)) :
    ∃ q, c'.page s a = some q ∧ q.backing.Encloses c'.files f w := by
  induction history with
  | start => cases he
  | @step past c₁ e₁ c₂ _ step ih =>
    obtain ⟨kept, unopened⟩ := plain e₁ List.mem_cons_self
    have before : ∃ q, c₁.page s a = some q ∧ q.backing.Encloses c₁.files f w := by
      rcases List.mem_cons.mp he with rfl | earlier
      · exact step.write_enclosed write sender
      · exact ih (fun e he => plain e (List.mem_cons_of_mem _ he)) earlier
    obtain ⟨q, page, enclosed⟩ := before
    obtain ⟨r, after, same⟩ := step.page_after (kept s a) page
    refine ⟨r, after, ?_⟩
    rw [same]
    exact ⟨(step.fileOf_eq unopened _).trans enclosed.file, enclosed.offset, enclosed.size⟩

end CacheHistory

/-! ## A page that is left to its users -/

/-- The file that a page is of, as it is while nothing cuts it and writes to it are complete. -/
structure Steady (original : FileImage) (f : FileId) (b : FileBacking) (c : PageCache) : Prop where
  file : c.files.fileOf b.file = f
  opened : b.file.index < c.files.opened.length
  present : f.index < c.files.files.length
  size : (c.files.bytes f).size = (original.bytes f).size
  complete : c.shortWrites f = 0
  room : ∀ i, i < b.readBytes → b.offset + i < (original.bytes f).size

/-- A page holds, and so does its file unless the page was changed, what was stored there last, else
what the file had; past its stretch of the file the page holds zeros where nothing was stored. -/
structure Mirrors (original : FileImage) (f : FileId) (b : FileBacking) (s : SpaceId) (a : VirtAddr)
    (past : List CacheEvent) (m : FileImage) (held : Option HeldPage) : Prop where
  front : ∀ k, b.offset ≤ k → k < b.offset + b.readBytes →
    Reflects m b f k ((lastStored past s a (k - b.offset)).getD (original.byte f k)) held
  rest : ∀ h, held = some h → ∀ i, b.readBytes ≤ i → i < pageSize → lastStored past s a i = none →
    h.bytes[i]? = some 0
  modified : ∀ h, held = some h → h.dirty = true → Modified s a past

/-- What a page that shows the stretch `b` of the file `f` sends there after the events `past`: the
front of the page, as it should be. -/
structure WrittenBack (original : FileImage) (f : FileId) (b : FileBacking) (s : SpaceId)
    (a : VirtAddr) (past : List CacheEvent) (w : FileWrite) : Prop where
  offset : w.offset = b.offset
  size : w.bytes.size = b.readBytes
  bytes : ∀ i, i < b.readBytes →
    w.bytes[i]? = some ((lastStored past s a i).getD (original.byte f (b.offset + i)))

section

variable {original : FileImage} {f : FileId} {b : FileBacking} {s : SpaceId} {a : VirtAddr}
  {past es : List CacheEvent} {c c' : PageCache} {e : CacheEvent} {held held' : Option HeldPage}

theorem Steady.within (steady : Steady original f b c) : b.Within c.files := by
  intro i hi
  rw [FileImage.contents_eq, steady.file, steady.size]
  exact steady.room i hi

theorem Steady.unmade (steady : Steady original f b c) (step : CacheStep c e c')
    (spares : e.Spares f b s a) : ¬e.Remakes f :=
  step.unmade steady.present spares.unresized

theorem Steady.step (steady : Steady original f b c) (step : CacheStep c e c')
    (spares : e.Spares f b s a) : Steady original f b c' where
  file := by
    rw [← steady.file]
    unfold FileImage.fileOf
    rcases step.opened_cases with same | ⟨-, more, longer⟩
    · rw [same]
    · rw [longer, List.getElem?_append_left steady.opened]
  opened := by
    have opened := steady.opened
    rcases step.opened_cases with same | ⟨-, more, longer⟩
    · rwa [same]
    · rw [longer, List.length_append]
      omega
  present := Nat.lt_of_lt_of_le steady.present step.length_le
  size := (step.size_bytes (steady.unmade step spares)).trans steady.size
  complete := by
    have fewer : ∀ {short : FileId → Nat}, (∀ g, short g ≤ c.shortWrites g) → short f = 0 :=
      fun fewer => Nat.le_zero.mp (steady.complete ▸ fewer f)
    cases step with
    | wroteBack _ _ less => exact fewer less
    | cameShort _ _ _ less => exact fewer less
    | lost _ _ _ less => exact fewer less
    | @hampered g n =>
      show (if f = g then n else c.shortWrites f) = 0
      split
      · rename_i same
        exact spares.unhampered (same ▸ rfl)
      · exact steady.complete
    | _ => exact steady.complete
  room := steady.room

/-- A page that is to go back to a file that has all of its stretch goes back as a whole. -/
theorem Steady.sender (steady : Steady original f b c) (step : CacheStep c e c')
    (page : c.page s a = some ⟨b, held⟩) (sender : e.sender? = some (s, a)) :
    ∃ bytes, held = some ⟨bytes, true⟩ ∧
      e = .wroteBack s a f (b.sent c.files bytes b.readBytes) := by
  have none_short : ¬(b.Within c.files → 0 < c.shortWrites (c.files.fileOf b.file)) := by
    intro reason
    have some := reason steady.within
    rw [steady.file, steady.complete] at some
    exact Nat.lt_irrefl _ some
  cases step with
  | wroteBack dirty =>
    cases sender
    rw [page] at dirty
    cases dirty
    rw [steady.file]
    exact ⟨_, rfl, rfl⟩
  | cameShort dirty _ reason =>
    cases sender
    rw [page] at dirty
    cases dirty
    exact absurd reason none_short
  | lost dirty _ reason =>
    cases sender
    rw [page] at dirty
    cases dirty
    exact absurd reason none_short
  | _ => cases sender

/-- What goes back is what should. -/
theorem Mirrors.writtenBack {m : FileImage} {bytes : PageBytes} {dirty : Bool} {w : FileWrite}
    (h : Mirrors original f b s a past m (some ⟨bytes, dirty⟩))
    (sent : b.sent m bytes b.readBytes = some w) : WrittenBack original f b s a past w := by
  unfold FileBacking.sent at sent
  split at sent
  · cases sent
  · cases sent
    have fits := b.fits
    have front : (bytes.toArray.extract 0 b.readBytes).size = b.readBytes := by
      rw [Array.size_extract, Vector.size_toArray]
      omega
    refine ⟨rfl, front, fun i hi => ?_⟩
    have holds := (h.front (b.offset + i) (Nat.le_add_right _ _) (by omega)).holds _ rfl
    rw [Nat.add_sub_cancel_left] at holds
    rw [Array.getElem?_extract, if_pos (by rw [Vector.size_toArray]; omega), Nat.zero_add,
      Vector.getElem?_toArray]
    exact holds

/-- Storing to a page changes what it should hold, and nothing else does. -/
theorem lastStored_of_pageStep (after : PageStep c s a b e held held')
    (unstored : ∀ offset bytes, e ≠ .stored s a offset bytes) (unpoked : ∀ bytes, e ≠ .poked s a bytes)
    (i : Nat) : lastStored (e :: past) s a i = lastStored past s a i := by
  cases after with
  | other elsewhere => exact lastStored_of_elsewhere elsewhere
  | stored => exact absurd rfl (unstored _ _)
  | poked => exact absurd rfl (unpoked _)
  | _ => exact lastStored_cons rfl

theorem FileBacking.contents_rest {m : FileImage} {i : Nat} (past : b.readBytes ≤ i)
    (hi : i < pageSize) : (b.contents m)[i]? = some 0 := by
  rw [Vector.getElem?_eq_getElem hi]
  unfold FileBacking.contents
  rw [Vector.getElem_ofFn, if_neg (Nat.not_lt.mpr past)]

/-- What a page should hold is what it holds after a store. -/
theorem Mirrors.store {m : FileImage} {h : HeldPage} {offset : Nat} {bytes : Array UInt8}
    (mirrors : Mirrors original f b s a past m (some h)) :
    Mirrors original f b s a (.stored s a offset bytes :: past) m (some (h.store offset bytes)) where
  front k first last := by
    have room : k - b.offset < pageSize := by
      have := b.fits
      omega
    have holds := (mirrors.front k first last).holds h rfl
    refine ⟨fun x same => ?_, fun clean => absurd (clean _ rfl) Bool.noConfusion⟩
    rw [← Option.some.inj same]
    show (h.bytes.overlay offset bytes)[k - b.offset]? = _
    rw [getElem?_overlay h.bytes offset bytes room, lastStored_stored]
    by_cases covered : offset ≤ k - b.offset ∧ k - b.offset - offset < bytes.size
    · rw [if_pos covered, if_pos ⟨rfl, rfl, covered⟩, Array.getElem?_eq_getElem covered.2]
      rfl
    · rw [if_neg covered, if_neg fun both => covered both.2.2]
      exact holds
  rest x same i hi room unstored := by
    rw [← Option.some.inj same]
    rw [lastStored_stored] at unstored
    show (h.bytes.overlay offset bytes)[i]? = _
    rw [getElem?_overlay h.bytes offset bytes room]
    by_cases covered : offset ≤ i ∧ i - offset < bytes.size
    · rw [if_pos ⟨rfl, rfl, covered⟩, Array.getElem?_eq_getElem covered.2] at unstored
      cases unstored
    · rw [if_neg fun both => covered both.2.2] at unstored
      rw [if_neg covered]
      exact mirrors.rest h rfl i hi room unstored
  modified _ _ _ := .inl ⟨rfl, rfl⟩

/-- A page that is spared goes on holding what it should. -/
theorem Mirrors.step (h : Mirrors original f b s a past c.files held)
    (steady : Steady original f b c) (step : CacheStep c e c')
    (page : c.page s a = some ⟨b, held⟩) (after : PageStep c s a b e held held')
    (spares : e.Spares f b s a) : Mirrors original f b s a (e :: past) c'.files held' := by
  have unmade := steady.unmade step spares
  by_cases store : ∃ offset bytes, e = .stored s a offset bytes
  · obtain ⟨offset, bytes, rfl⟩ := store
    have files : c'.files = c.files := by
      cases step
      rfl
    rw [files]
    cases after with
    | other elsewhere => exact absurd rfl elsewhere
    | stored => exact h.store
  · have unstored : ∀ offset bytes, e ≠ .stored s a offset bytes :=
      fun offset bytes same => store ⟨offset, bytes, same⟩
    have same : ∀ i, lastStored (e :: past) s a i = lastStored past s a i :=
      lastStored_of_pageStep after unstored spares.unpoked
    refine ⟨fun k first last => ?_, fun h' holds i hi room none => ?_, fun h' holds dirty => ?_⟩
    · rw [same]
      have shows : b.Shows c.files f k := ⟨steady.file, first, last⟩
      refine (h.front k first last).step shows step page after unstored spares.unpoked ?_
      by_cases sender : e.sender? = some (s, a)
      · obtain ⟨bytes, rfl, rfl⟩ := steady.sender step page sender
        refine (step.byte_cases unmade k).imp_right ?_
        rintro ⟨t, d, b', bytes', g, w, kind, dirty, -, new⟩
        rcases kind with kind | kind | kind
        · cases kind
          rw [page] at dirty
          cases dirty
          rw [(h.front k first last).holds _ rfl] at new
          exact (Option.some.inj new).symm
        · cases kind
        · cases kind
      · exact .inl (step.byte_of_missed unmade fun w write =>
          spares.missed w write sender k first last)
    · rw [same] at none
      cases after with
      | other => exact h.rest h' holds i hi room none
      | fetched =>
        rw [← Option.some.inj holds]
        exact FileBacking.contents_rest hi room
      | left => cases holds
      | wroteBack =>
        cases holds
        exact h.rest _ rfl i hi room none
      | stored => exact absurd rfl (unstored _ _)
      | poked => exact absurd rfl (spares.unpoked _)
      | marked => exact absurd rfl spares.unmarked
    · cases after with
      | other elsewhere => exact (modified_of_elsewhere elsewhere).mpr (h.modified h' holds dirty)
      | fetched =>
        rw [← Option.some.inj holds] at dirty
        cases dirty
      | left => cases holds
      | wroteBack =>
        cases holds
        cases dirty
      | stored => exact absurd rfl (unstored _ _)
      | poked => exact absurd rfl (spares.unpoked _)
      | marked => exact absurd rfl spares.unmarked

/-- A page that is not in memory, or not there at all, stays as it should be while nothing is stored
there. -/
theorem Mirrors.away (h : Mirrors original f b s a past c.files none)
    (steady : Steady original f b c) (step : CacheStep c e c') (sender : e.sender? ≠ some (s, a))
    (unstored : e.store? = none) (spares : e.Spares f b s a) :
    Mirrors original f b s a (e :: past) c'.files none where
  front k first last := by
    rw [lastStored_cons unstored]
    refine ⟨fun _ holds => (by cases holds), fun clean => ?_⟩
    rw [step.byte_of_missed (steady.unmade step spares)
      fun w write => spares.missed w write sender k first last]
    exact (h.front k first last).file fun _ holds => by cases holds
  rest _ holds := by cases holds
  modified _ holds := by cases holds

/-- A page without changes leaves its file as it should be. -/
theorem Mirrors.removed {m : FileImage} (h : Mirrors original f b s a past m held)
    (clean : ∀ x, held = some x → x.dirty = false) :
    Mirrors original f b s a (.removed s a :: past) m none where
  front k first last :=
    ⟨fun _ holds => (by cases holds), fun _ => (h.front k first last).file clean⟩
  rest _ holds := by cases holds
  modified _ holds := by cases holds

/-- Whenever a page went back to its file it had been stored to, and it went back as a whole and as
it should be. -/
def Returned (original : FileImage) (f : FileId) (b : FileBacking) (s : SpaceId) (a : VirtAddr)
    (past : List CacheEvent) : Prop :=
  ∀ e older, e :: older <:+ past → e.sender? = some (s, a) →
    ∃ w, e = .wroteBack s a f w ∧ Modified s a older ∧
      ∀ x, w = some x → WrittenBack original f b s a older x

theorem Returned.cons (h : Returned original f b s a past)
    (new : e.sender? = some (s, a) → ∃ w, e = .wroteBack s a f w ∧ Modified s a past ∧
      ∀ x, w = some x → WrittenBack original f b s a past x) :
    Returned original f b s a (e :: past) := by
  intro e' older suffix sender
  rcases List.suffix_cons_iff.mp suffix with same | earlier
  · cases same
    exact new sender
  · exact h e' older earlier sender

/-- All there is to say of a page that shows the stretch `b` of the file `f` and is left to its
users. -/
structure Mirrored (original : FileImage) (f : FileId) (b : FileBacking) (s : SpaceId) (a : VirtAddr)
    (past : List CacheEvent) (c : PageCache) : Prop where
  steady : Steady original f b c
  backing : ∀ p, c.page s a = some p → p.backing = b
  contents : Mirrors original f b s a past c.files ((c.page s a).bind CachedPage.held)
  returned : Returned original f b s a past

namespace Mirrored

/-- A page that was just entered and never accessed shows its file as it is. -/
theorem start (steady : Steady original f b c) (page : c.page s a = some ⟨b, none⟩)
    (same : ∀ k, c.files.byte f k = original.byte f k) : Mirrored original f b s a [] c where
  steady := steady
  backing p there := by
    rw [page] at there
    cases there
    rfl
  contents := by
    rw [page]
    exact ⟨fun k _ _ => ⟨fun _ holds => (by cases holds), fun _ => same k⟩,
      fun _ holds => (by cases holds), fun _ holds => (by cases holds)⟩
  returned e older suffix := by cases List.suffix_nil.mp suffix

/-- What one event preserves: a page that is there may go, and one that is gone does not come
back. -/
theorem step (h : Mirrored original f b s a past c) (step : CacheStep c e c')
    (spares : e.Spares f b s a) (gone : c.page s a = none → ¬e.Enters ∧ e.store? = none) :
    Mirrored original f b s a (e :: past) c' := by
  have steady := h.steady.step step spares
  have contents := h.contents
  cases page : c.page s a with
  | none =>
    obtain ⟨unentered, unstored⟩ := gone page
    have stays : c'.page s a = none := by
      cases after : c'.page s a with
      | none => rfl
      | some p =>
        obtain ⟨q, before, -⟩ := step.page_before unentered after
        rw [page] at before
        cases before
    have sender : e.sender? ≠ some (s, a) := by
      intro sender
      obtain ⟨b', bytes, dirty⟩ := step.sender_page sender
      rw [page] at dirty
      cases dirty
    rw [page] at contents
    refine ⟨steady, fun p after => ?_, ?_, h.returned.cons fun same => absurd same sender⟩
    · rw [stays] at after
      cases after
    · rw [stays]
      exact contents.away h.steady step sender unstored spares
  | some p =>
    obtain ⟨b', held⟩ := p
    have same : b' = b := h.backing _ page
    subst same
    rw [page] at contents
    rcases step.page_cases page with ⟨away, removes⟩ | ⟨held', after, changed⟩
    · rcases removes with rfl | ⟨g, w, rfl⟩
      · refine ⟨steady, fun p after => ?_, ?_, h.returned.cons fun sender => by cases sender⟩
        · rw [away] at after
          cases after
        · rw [away]
          cases step with
          | removed clean =>
            refine contents.removed fun x holds => ?_
            cases holds
            exact clean _ page
      · obtain ⟨bytes, -, same⟩ := h.steady.sender step page rfl
        cases same
    · refine ⟨steady, fun p there => ?_, ?_, h.returned.cons fun sender => ?_⟩
      · rw [after] at there
        cases there
        rfl
      · rw [after]
        exact contents.step h.steady step page changed spares
      · obtain ⟨bytes, rfl, rfl⟩ := h.steady.sender step page sender
        exact ⟨_, rfl, contents.modified _ rfl rfl, fun x sent => contents.writtenBack sent⟩

/-- What a whole history preserves, in which the page either stays or is at last taken away. -/
theorem history (h : Mirrored original f b s a past c) (history : CacheHistory c es c')
    (spares : ∀ e ∈ es, e.Spares f b s a)
    (stays : (c.page s a).isSome = true ∧ (∀ e ∈ es, ¬e.Removes s a) ∨
      ∀ e ∈ es, ¬e.Enters ∧ e.store? = none) : Mirrored original f b s a (es ++ past) c' := by
  induction history with
  | start => exact h
  | @step earlier c₁ e c₂ before step ih =>
    have later : ∀ {P : CacheEvent → Prop}, (∀ e' ∈ e :: earlier, P e') → ∀ e' ∈ earlier, P e' :=
      fun all e' he' => all e' (List.mem_cons_of_mem _ he')
    have so_far := ih (later spares) (stays.imp (fun both => ⟨both.1, later both.2⟩) later)
    refine so_far.step step (spares e List.mem_cons_self) fun none => ?_
    rcases stays with ⟨there, kept⟩ | gone
    · obtain ⟨p, page⟩ := Option.isSome_iff_exists.mp there
      obtain ⟨q, here, -⟩ := before.page_after (later kept) page
      rw [none] at here
      cases here
    · exact gone e List.mem_cons_self

/-- What is in memory of the page. -/
theorem loaded {p : CachedPage} {x : HeldPage} {i : Nat} (h : Mirrored original f b s a past c)
    (page : c.page s a = some p) (held : p.held = some x) :
    (i < b.readBytes →
      x.bytes[i]? = some ((lastStored past s a i).getD (original.byte f (b.offset + i)))) ∧
      (b.readBytes ≤ i → i < pageSize → lastStored past s a i = none → x.bytes[i]? = some 0) := by
  have contents := h.contents
  rw [page, Option.bind_some, held] at contents
  refine ⟨fun hi => ?_, contents.rest x rfl i⟩
  have holds := (contents.front (b.offset + i) (Nat.le_add_right _ _) (by omega)).holds x rfl
  rwa [Nat.add_sub_cancel_left] at holds

/-- What its file has once the page is gone. -/
theorem settled {i : Nat} (h : Mirrored original f b s a past c) (gone : c.page s a = none)
    (hi : i < b.readBytes) :
    c.files.byte f (b.offset + i) =
      (lastStored past s a i).getD (original.byte f (b.offset + i)) := by
  have contents := h.contents
  rw [gone, Option.bind_none] at contents
  have file := (contents.front (b.offset + i) (Nat.le_add_right _ _) (by omega)).file
    fun _ holds => (by cases holds)
  rwa [Nat.add_sub_cancel_left] at file

end Mirrored

end

end KernelCore
