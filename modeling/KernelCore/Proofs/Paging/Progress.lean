import KernelCore.Proofs.Paging.Coherent

/-!
# What happens during an operation

An operation is described by the events of flat memory it causes, and by what becomes of the pages
that belong to mapped files.
-/
namespace KernelCore

/-- The stretch of a file that a file page shows. -/
def Page.mapped? (p : Page) : Option FileBacking :=
  match p.kind with
  | .untouched .file loader => loader.backing?
  | .file b => some b
  | _ => none

/-- The page has the same type and the same rights. -/
def Page.SameUse (p q : Page) : Prop := q.type = p.type ∧ q.writable = p.writable

theorem Page.SameUse.trans {p q r : Page} (h : p.SameUse q) (h' : q.SameUse r) : p.SameUse r :=
  ⟨h'.1.trans h.1, h'.2.trans h.2⟩

/-- A page apart from where its contents are. -/
def Page.outline (p : Page) : Page :=
  ⟨p.writable, none, match p.kind with
    | .anonymous _ => .anonymous none
    | kind => kind⟩

theorem Page.sameUse_of_outline {p q : Page} (h : q.outline = p.outline) : p.SameUse q := by
  have type : ∀ r : Page, r.outline.type = r.type := by
    intro r
    unfold outline type
    cases r.kind <;> rfl
  have rights := congrArg Page.writable h
  exact ⟨by rw [← type q, h, type p], rights⟩

theorem Page.mapped?_of_outline {p q : Page} (h : q.outline = p.outline) : q.mapped? = p.mapped? := by
  have stretch : ∀ r : Page, r.outline.mapped? = r.mapped? := by
    intro r
    unfold outline mapped?
    cases r.kind <;> rfl
  rw [← stretch q, h, stretch p]

/-- Memory ran short, and a changed file page was written back. -/
def MemoryEvent.IsWriteBack : MemoryEvent → Prop
  | .wroteBack .. => True
  | _ => False

/-- A page was accessed for the first time. -/
def MemoryEvent.IsLoad (space : SpaceId) (va : VirtAddr) : MemoryEvent → Prop
  | .loaded s a _ => s = space ∧ a = va
  | _ => False

/-- What bringing pages of a space into memory may cause: the first access to one of them, and
write-backs of others. -/
def MemoryEvent.IsPaging (space : SpaceId) : MemoryEvent → Prop
  | .wroteBack .. => True
  | .loaded s _ _ => s = space
  | _ => False

theorem MemoryEvent.IsWriteBack.isPaging {space : SpaceId} {e : MemoryEvent} (h : e.IsWriteBack) :
    e.IsPaging space := by
  cases e <;> first | exact trivial | exact h.elim

theorem MemoryEvent.IsLoad.isPaging {space : SpaceId} {va : VirtAddr} {e : MemoryEvent}
    (h : e.IsLoad space va) : e.IsPaging space := by
  cases e <;> first | exact h.1 | exact h.elim

/-- Some events of the kind `P` lead from one memory to another. -/
def Happens (P : MemoryEvent → Prop) (m m' : FlatMemory) : Prop :=
  ∃ es, (∀ e ∈ es, P e) ∧ History m es m'

section

variable {P P' : MemoryEvent → Prop} {m m₁ m₂ m₃ : FlatMemory} {e : MemoryEvent}

theorem Happens.refl (m : FlatMemory) : Happens P m m := ⟨[], by simp, .start⟩

theorem Happens.one (possible : e.Possible m) (kind : P e) : Happens P m (e.apply m) :=
  ⟨[e], by simpa using kind, .one possible⟩

theorem Happens.trans (h : Happens P m₁ m₂) (h' : Happens P m₂ m₃) : Happens P m₁ m₃ := by
  obtain ⟨es, hes, first⟩ := h
  obtain ⟨es', hes', next⟩ := h'
  refine ⟨es' ++ es, fun e he => ?_, first.append next⟩
  rcases List.mem_append.mp he with he | he
  · exact hes' e he
  · exact hes e he

theorem Happens.mono (h : Happens P m₁ m₂) (imp : ∀ e, P e → P' e) : Happens P' m₁ m₂ := by
  obtain ⟨es, hes, history⟩ := h
  exact ⟨es, fun e he => imp e (hes e he), history⟩

/-- What is written to files does not depend on the pages. -/
theorem Happens.with_pages {m' : FlatMemory} (h : Happens MemoryEvent.IsWriteBack m m')
    (page : SpaceId → VirtAddr → Option FlatPage) :
    Happens MemoryEvent.IsWriteBack ⟨page, m.files⟩ ⟨page, m'.files⟩ := by
  obtain ⟨es, kinds, history⟩ := h
  induction history with
  | start => exact .refl _
  | @step past m' e _ _ ih =>
    have writeBack := kinds e (by simp)
    cases e with
    | wroteBack f w =>
      have first := ih fun e he => kinds e (by simp [he])
      exact first.trans (.one (e := .wroteBack f w) trivial trivial)
    | _ => exact writeBack.elim

end

namespace VirtualMemory

def mappedIn? (spaces : Table SpaceId AddressSpace) (s : SpaceId) (a : VirtAddr) :
    Option FileBacking :=
  (pageIn? spaces s a).bind Page.mapped?

/-- Every region has pages and shows a stretch of its file, page by page, and no two regions share
a page. -/
structure RegionsBacked (v : VirtualMemory) : Prop where
  nonempty : ∀ {s start r}, regionIn? v.spaces s start = some r → 0 < r.pageCount
  backed : ∀ {s start r}, regionIn? v.spaces s start = some r →
    ∃ offset, ∀ i, i < r.pageCount →
      ∃ b, mappedIn? v.spaces s ⟨start.toNat + i * pageSize⟩ = some b ∧
        b.file = r.file ∧ b.offset = offset + i * pageSize
  disjoint : ∀ {s start r start' r' i j}, regionIn? v.spaces s start = some r →
    regionIn? v.spaces s start' = some r' → i < r.pageCount → j < r'.pageCount →
    start.toNat + i * pageSize = start'.toNat + j * pageSize → start = start'

/-- Events of the kind `P` happened; no page, no stretch of a file and no region went away, and no
region was added. -/
structure Follows (P : MemoryEvent → Prop) (v w : VirtualMemory) : Prop where
  happens : Happens P v.flat w.flat
  kept : ∀ {s a p}, pageIn? v.spaces s a = some p → ∃ q, pageIn? w.spaces s a = some q ∧ p.SameUse q
  mapped : ∀ {s a b}, mappedIn? v.spaces s a = some b → mappedIn? w.spaces s a = some b
  regions : ∀ s a, regionIn? w.spaces s a = regionIn? v.spaces s a
  live : ∀ s, (w.spaces.find? s).isSome = (v.spaces.find? s).isSome

variable {P P' : MemoryEvent → Prop} {u v w : VirtualMemory}

theorem Follows.refl (v : VirtualMemory) : Follows P v v :=
  ⟨.refl _, fun h => ⟨_, h, rfl, rfl⟩, fun h => h, fun _ _ => rfl, fun _ => rfl⟩

theorem Follows.trans (h : Follows P u v) (h' : Follows P v w) : Follows P u w where
  happens := h.happens.trans h'.happens
  kept page := by
    obtain ⟨q, hq, same⟩ := h.kept page
    obtain ⟨r, hr, same'⟩ := h'.kept hq
    exact ⟨r, hr, same.trans same'⟩
  mapped m := h'.mapped (h.mapped m)
  regions s a := (h'.regions s a).trans (h.regions s a)
  live s := (h'.live s).trans (h.live s)

theorem Follows.mono (h : Follows P v w) (imp : ∀ e, P e → P' e) : Follows P' v w :=
  ⟨h.happens.mono imp, h.kept, h.mapped, h.regions, h.live⟩

theorem RegionsBacked.follows (h : RegionsBacked v) (f : Follows P v w) : RegionsBacked w where
  nonempty := by
    intro s start r region
    rw [f.regions] at region
    exact h.nonempty region
  backed := by
    intro s start r region
    rw [f.regions] at region
    obtain ⟨offset, pages⟩ := h.backed region
    refine ⟨offset, fun i hi => ?_⟩
    obtain ⟨b, mapped, file⟩ := pages i hi
    exact ⟨b, f.mapped mapped, file⟩
  disjoint := by
    intro s start r start' r' i j region region' hi hj same
    rw [f.regions] at region region'
    exact h.disjoint region region' hi hj same

/-- One page got another record of the same stretch; regions and spaces stay. -/
structure SamePlaces (v w : VirtualMemory) : Prop where
  kept : ∀ {s a p}, pageIn? v.spaces s a = some p → ∃ q, pageIn? w.spaces s a = some q ∧ p.SameUse q
  mapped : ∀ s a, mappedIn? w.spaces s a = mappedIn? v.spaces s a
  regions : ∀ s a, regionIn? w.spaces s a = regionIn? v.spaces s a
  live : ∀ s, (w.spaces.find? s).isSome = (v.spaces.find? s).isSome

theorem SamePlaces.of_spaces (h : w.spaces = v.spaces) : SamePlaces v w :=
  ⟨fun page => ⟨_, by rw [h, page], rfl, rfl⟩, fun _ _ => by rw [h], fun _ _ => by rw [h],
    fun _ => by rw [h]⟩

theorem SamePlaces.follows (h : SamePlaces v w) (happens : Happens P v.flat w.flat) :
    Follows P v w :=
  ⟨happens, h.kept, fun m => by rw [h.mapped, m], h.regions, h.live⟩

/-- Nothing that users see happened. -/
theorem SamePlaces.silent (h : SamePlaces v w) (flat : w.flat = v.flat) : Follows P v w :=
  h.follows (flat ▸ .refl _)

/-! ## Files that are written to -/

/-- Perhaps a write was added to a file. -/
def PerhapsWritten (m m' : FileImage) : Prop := m' = m ∨ ∃ f w, m' = m.written f w

theorem PerhapsWritten.received (m : FileImage) (f : FileId) (w : Option FileWrite) :
    PerhapsWritten m (m.received f w) := by
  cases w with
  | none => exact .inl rfl
  | some w => exact .inr ⟨f, w, rfl⟩

theorem PerhapsWritten.happens {m m' : FlatMemory} (h : PerhapsWritten m.files m'.files)
    (pages : m'.page = m.page) : Happens MemoryEvent.IsWriteBack m m' := by
  obtain ⟨page, files⟩ := m
  obtain ⟨page', files'⟩ := m'
  cases pages
  rcases h with h | ⟨f, w, h⟩
  · cases h
    exact .refl _
  · cases h
    exact Happens.one (e := .wroteBack f w) trivial trivial

/-- What goes back to a file is written to it. -/
theorem perhapsWritten_of_sent {b : FileBacking} {page : PageBytes} {n : Nat}
    {files files' : FileStore} (h : b.Sent page n files files') :
    PerhapsWritten files.image files'.image := by
  rw [h.image]
  exact .received _ _ _

/-- Write-backs change no page. -/
theorem page_of_writeBacks {m m' : FlatMemory} (h : Happens MemoryEvent.IsWriteBack m m') :
    m'.page = m.page := by
  obtain ⟨es, kinds, history⟩ := h
  induction history with
  | start => rfl
  | @step past m' e _ _ ih =>
    have writeBack := kinds e (by simp)
    cases e with
    | wroteBack f w => exact ih fun e he => kinds e (by simp [he])
    | _ => exact writeBack.elim

end VirtualMemory

end KernelCore
