import KernelCore.Proofs.Paging.FlatMemory

/-!
# What histories leave of pages and files

A file that is neither resized nor written to is the same at every moment of a history. A page that
was entered for a stretch of a file is untouched until it is loaded, and loaded until it is dropped.
As long as its file stays the same, its bytes are those of the file, but for those that are stored.
-/
namespace KernelCore

/-- The event stores a byte at the address. -/
def MemoryEvent.StoresAt (space : SpaceId) (x : VirtAddr) : MemoryEvent → Prop
  | .stored s a offset bytes =>
    s = space ∧ a = x.floor ∧ offset ≤ x.pageOffset ∧ x.pageOffset - offset < bytes.size
  | _ => False

/-- At every moment of the history the file of the description contains what it did at first. -/
def Unaltered (d : DescriptionId) (start : FlatMemory) (past : List MemoryEvent) : Prop :=
  ∀ es m, es <:+ past → History start es m → m.files.contents d = start.files.contents d

/-- A history leads to one memory. -/
theorem History.unique {start m m' : FlatMemory} {past : List MemoryEvent}
    (h : History start past m) (h' : History start past m') : m = m' := by
  induction h generalizing m' with
  | start =>
    cases h'
    rfl
  | step _ _ ih =>
    obtain _ | ⟨before, _⟩ := h'
    rw [ih before]

section

variable {start m : FlatMemory} {past : List MemoryEvent} {d : DescriptionId} {f : FileId}
  {x : Array UInt8 × List FileWrite}

/-- Unless it is resized, a file either stays as it is or has one more write recorded. -/
theorem MemoryEvent.file_apply {e : MemoryEvent} (opened : m.files.opened[d.index]? = some f)
    (present : m.files.files[f.index]? = some x) (sized : ∀ n, e ≠ .resized f n) :
    (e.apply m).files.opened[d.index]? = some f ∧
      ((e.apply m).files.files[f.index]? = some x ∨
        ∃ contents w, (e.apply m).files.files[f.index]? = some (contents, x.2 ++ [w])) := by
  have described := (List.getElem?_eq_some_iff.mp opened).1
  have numbered := (List.getElem?_eq_some_iff.mp present).1
  cases e with
  | entered | loaded | stored | copied | dropped => exact ⟨opened, .inl present⟩
  | wroteBack g w =>
    refine ⟨opened, ?_⟩
    simp only [MemoryEvent.apply, FileImage.written, List.getElem?_modify, present,
      Option.map_eq_map, Option.map_some]
    split
    · exact .inr ⟨_, w, rfl⟩
    · exact .inl rfl
  | opened g => exact ⟨(List.getElem?_append_left described).trans opened, .inl present⟩
  | created contents g =>
    exact ⟨(List.getElem?_append_left described).trans opened,
      .inl ((List.getElem?_append_left numbered).trans present)⟩
  | resized g n =>
    have other : g.index ≠ f.index := fun same => sized n (by cases g; cases f; cases same; rfl)
    refine ⟨opened, .inl ?_⟩
    simp only [MemoryEvent.apply, List.getElem?_modify, if_neg other, present, id_map']

/-- A file that is not resized was the same all the time, or has more writes recorded by now. -/
theorem unaltered_or_written (history : History start past m)
    (opened : start.files.opened[d.index]? = some f)
    (present : start.files.files[f.index]? = some x) (sized : ∀ e ∈ past, ∀ n, e ≠ .resized f n) :
    m.files.opened[d.index]? = some f ∧ ∃ y, m.files.files[f.index]? = some y ∧
      (y = x ∧ Unaltered d start past ∨ x.2.length < y.2.length) := by
  have contents : ∀ {m : FlatMemory}, m.files.opened[d.index]? = some f →
      m.files.files[f.index]? = some x → m.files.contents d = x.1 := by
    intro m opened present
    simp only [FileImage.contents, FileImage.fileOf, opened, Option.getD_some, present,
      Option.map_some]
  induction history with
  | start =>
    refine ⟨opened, x, present, .inl ⟨rfl, fun es m' suffix history => ?_⟩⟩
    obtain rfl := List.suffix_nil.mp suffix
    cases history
    rfl
  | @step past m e before possible ih =>
    obtain ⟨opened', y, present', so_far⟩ := ih fun e he => sized e (List.mem_cons_of_mem _ he)
    obtain ⟨opened'', same | ⟨c, w, written⟩⟩ :=
      MemoryEvent.file_apply opened' present' (sized e List.mem_cons_self)
    · refine ⟨opened'', y, same, so_far.imp_left fun kept => ⟨kept.1, ?_⟩⟩
      intro es m' suffix h
      rcases List.suffix_cons_iff.mp suffix with rfl | suffix
      · rw [h.unique (before.step possible), contents opened'' (kept.1 ▸ same), contents opened present]
      · exact kept.2 es m' suffix h
    · refine ⟨opened'', _, written, .inr ?_⟩
      rw [List.length_append, List.length_singleton]
      rcases so_far with ⟨rfl, -⟩ | more
      · exact Nat.lt_succ_self _
      · exact Nat.lt_succ_of_lt more

/-- A file that is neither resized nor written to stays as it is. -/
theorem unaltered_of_unwritten (history : History start past m)
    (opened : start.files.opened[d.index]? = some f)
    (present : start.files.files[f.index]? = some x) (sized : ∀ e ∈ past, ∀ n, e ≠ .resized f n)
    (unwritten : (m.files.writes f).length = x.2.length) : Unaltered d start past := by
  obtain ⟨-, y, present', ⟨-, same⟩ | more⟩ := unaltered_or_written history opened present sized
  · exact same
  · rw [FileImage.writes, present', Option.map_some, Option.getD_some] at unwritten
    exact absurd unwritten (Nat.ne_of_gt more)

end

section

variable {start m : FlatMemory} {past : List MemoryEvent} {s : SpaceId} {a : VirtAddr}
  {b : FileBacking}

/-- What can happen to a page that is there: it is dropped, or loaded if it is untouched, or bytes
are stored in it. -/
theorem MemoryEvent.page_apply {p : FlatPage} {e : MemoryEvent} (possible : e.Possible m)
    (page : m.page s a = some p) (kept : e ≠ .dropped s a) :
    (e.apply m).page s a = some p ∨
      (∃ loader, p = .untouched loader ∧ e = .loaded s a (loader.contents m.files) ∧
        (e.apply m).page s a = some (.loaded (loader.contents m.files))) ∨
      ∃ offset bytes, e = .stored s a offset bytes ∧
        (e.apply m).page s a = some (p.store offset bytes) := by
  cases e with
  | entered space va loader =>
    have other : ¬(s = space ∧ a = va) := by
      rintro ⟨rfl, rfl⟩
      exact absurd (possible.symm.trans page) nofun
    exact .inl ((if_neg other).trans page)
  | loaded space va bytes =>
    by_cases here : s = space ∧ a = va
    · obtain ⟨rfl, rfl⟩ := here
      obtain ⟨loader, untouched, rfl⟩ := possible
      have same : p = .untouched loader := Option.some.inj (page.symm.trans untouched)
      exact .inr (.inl ⟨loader, same, rfl, if_pos ⟨rfl, rfl⟩⟩)
    · exact .inl ((if_neg here).trans page)
  | stored space va offset bytes =>
    by_cases here : s = space ∧ a = va
    · obtain ⟨rfl, rfl⟩ := here
      refine .inr (.inr ⟨offset, bytes, rfl, (if_pos ⟨rfl, rfl⟩).trans ?_⟩)
      rw [page, Option.map_some]
    · exact .inl ((if_neg here).trans page)
  | copied parent child va =>
    have other : ¬(s = child ∧ a = va) := by
      rintro ⟨rfl, rfl⟩
      exact absurd (possible.1.symm.trans page) nofun
    exact .inl ((if_neg other).trans page)
  | dropped space va =>
    have other : ¬(s = space ∧ a = va) := by
      rintro ⟨rfl, rfl⟩
      exact kept rfl
    exact .inl ((if_neg other).trans page)
  | wroteBack => exact .inl page
  | opened => exact .inl page
  | created => exact .inl page
  | resized => exact .inl page

/-- A page that was loaded stays so until it is dropped. -/
theorem loaded_of_history (history : History start past m) {bytes : PageBytes}
    (page : start.page s a = some (.loaded bytes)) (kept : ∀ e ∈ past, e ≠ .dropped s a) :
    ∃ bytes, m.page s a = some (.loaded bytes) := by
  induction history with
  | start => exact ⟨bytes, page⟩
  | step _ possible ih =>
    obtain ⟨bytes, before⟩ := ih fun e he => kept e (List.mem_cons_of_mem _ he)
    rcases MemoryEvent.page_apply possible before (kept _ List.mem_cons_self) with
      same | ⟨loader, untouched, -⟩ | ⟨offset, more, -, stored⟩
    · exact ⟨bytes, same⟩
    · cases untouched
    · exact ⟨_, stored⟩

/-- Of what happens to a page that is loaded, as long as it is not dropped, only stores change what
is recalled. -/
theorem recalled_of_stores {es : List MemoryEvent} {bytes : PageBytes}
    (history : History start es m) (page : start.page s a = some (.loaded bytes))
    (kept : ∀ e ∈ es, e ≠ .dropped s a) (i : Nat) :
    recalled (es ++ past) s a i = recalled (es.filter MemoryEvent.isStored ++ past) s a i := by
  induction history with
  | start => rfl
  | @step es m e before possible ih =>
    have kept_before := fun e he => kept e (List.mem_cons_of_mem _ he)
    have same := ih kept_before
    obtain ⟨now, loaded⟩ := loaded_of_history before page kept_before
    cases e with
    | stored t b offset bytes =>
      rw [List.filter_cons_of_pos rfl]
      simp only [List.cons_append, recalled, same]
    | entered t b loader =>
      have other : ¬(s = t ∧ a = b) := by
        rintro ⟨rfl, rfl⟩
        cases loaded.symm.trans possible
      simpa [MemoryEvent.isStored, recalled, other] using same
    | loaded t b bytes =>
      have other : ¬(s = t ∧ a = b) := by
        rintro ⟨rfl, rfl⟩
        obtain ⟨loader, untouched, -⟩ := possible
        cases loaded.symm.trans untouched
      simpa [MemoryEvent.isStored, recalled, other] using same
    | copied parent child b =>
      have other : ¬(s = child ∧ a = b) := by
        rintro ⟨rfl, rfl⟩
        cases loaded.symm.trans possible.1
      simpa [MemoryEvent.isStored, recalled, other] using same
    | dropped t b =>
      have other : ¬(s = t ∧ a = b) := by
        rintro ⟨rfl, rfl⟩
        exact kept _ List.mem_cons_self rfl
      simpa [MemoryEvent.isStored, recalled, other] using same
    | _ => simpa [MemoryEvent.isStored, recalled] using same

/-- A page of a segment is untouched until it is loaded. While its file stays as it is, each of its
bytes that nobody stores to is then that of the file. -/
theorem segment_of_history (history : History start past m)
    (page : start.page s a = some (.untouched (.segment b))) (kept : ∀ e ∈ past, e ≠ .dropped s a) :
    m.page s a = some (.untouched (.segment b)) ∨ ∃ bytes, m.page s a = some (.loaded bytes) ∧
      (Unaltered b.file start past → ∀ x : VirtAddr, x.floor = a → (∀ e ∈ past, ¬e.StoresAt s x) →
        bytes[x.pageOffset]? = (b.contents start.files)[x.pageOffset]?) := by
  induction history with
  | start => exact .inl page
  | @step past m e before possible ih =>
    have unaltered_before : Unaltered b.file start (e :: past) → Unaltered b.file start past :=
      fun unaltered es m' suffix => unaltered es m' (suffix.trans (List.suffix_cons e past))
    rcases ih fun e he => kept e (List.mem_cons_of_mem _ he) with untouched | ⟨bytes, loaded, same⟩
    · rcases MemoryEvent.page_apply possible untouched (kept e List.mem_cons_self) with
        still | ⟨loader, own, -, loads⟩ | ⟨offset, more, -, stored⟩
      · exact .inl still
      · cases own
        refine .inr ⟨_, loads, fun unaltered x _ _ => ?_⟩
        have contents : b.contents m.files = b.contents start.files := by
          unfold FileBacking.contents
          rw [unaltered past m (List.suffix_cons e past) before]
        exact congrArg (fun page : PageBytes => page[x.pageOffset]?) contents
      · exact .inl stored
    · right
      rcases MemoryEvent.page_apply possible loaded (kept e List.mem_cons_self) with
        still | ⟨loader, untouched, -⟩ | ⟨offset, more, is, stored⟩
      · exact ⟨bytes, still, fun unaltered x place unstored => same (unaltered_before unaltered) x
          place fun e he => unstored e (List.mem_cons_of_mem _ he)⟩
      · cases untouched
      · refine ⟨_, stored, fun unaltered x place unstored => ?_⟩
        have inside : x.pageOffset < pageSize := Nat.mod_lt _ pageSize_pos
        have missed := unstored e List.mem_cons_self
        rw [is] at missed
        rw [getElem?_overlay bytes offset more inside,
          if_neg fun hit => missed ⟨rfl, place.symm, hit⟩]
        exact same (unaltered_before unaltered) x place
          fun e he => unstored e (List.mem_cons_of_mem _ he)

end

end KernelCore
