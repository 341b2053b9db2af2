import KernelCore.Proofs.Memory.Frames
import KernelCore.Proofs.Memory.Pool
import KernelCore.Proofs.Memory.Swap
import KernelCore.Proofs.Paging.FlatMemory
import KernelCore.Proofs.Paging.Spaces

/-!
# Coherent memory

The page records, the frame table, the page tables of the hardware, the pool and the swap area
agree on where every page is. The operations of the kernel break this only in the middle, and
between them at most one frame is out of the table's order: one that was obtained for a page and
does not hold it yet.
-/
namespace KernelCore

/-- A page of user memory starts at the address. The first page is none. -/
structure VirtAddr.IsUserPage (a : VirtAddr) : Prop where
  aligned : a.isAligned = true
  user : a.isUser = true
  nonzero : a.toNat ≠ 0

/-- The contents of the page are in a frame or in a slot. -/
def Page.isMaterialised (p : Page) : Bool := p.isResident || p.slot.isSome

namespace VirtualMemory

/-- `spare` is the frame that was obtained and holds no page yet, if there is one. -/
structure Coherent (v : VirtualMemory) (spare : Option FrameId) : Prop where
  pool : v.pool.Regular
  swap : v.swap.Regular
  resident : ∀ {s a p f}, pageIn? v.spaces s a = some p → p.frame = some f →
    ∃ x, v.frames.frame? f = some x ∧ x.owner = some ⟨s, a⟩
  owned : ∀ {f x o}, v.frames.frame? f = some x → x.owner = some o →
    ∃ p, pageIn? v.spaces o.space o.va = some p ∧ p.frame = some f
  unowned : ∀ {f x}, v.frames.frame? f = some x → x.owner = none → spare = some f
  spare_unowned : ∀ {f}, spare = some f → ∃ x, v.frames.frame? f = some x ∧ x.owner = none
  unpinned : ∀ {f x}, v.frames.frame? f = some x → x.pinned = false
  taken : ∀ q, v.pool.Taken q ↔ ∃ f x, v.frames.frame? f = some x ∧ x.page = q
  distinct : ∀ {f g x y}, v.frames.frame? f = some x → v.frames.frame? g = some y →
    x.page = y.page → f = g
  translated : ∀ s a, (v.mmu.mapping? s a).map MmuEntry.target =
    (pageIn? v.spaces s a).bind fun p => p.frame.bind fun f =>
      (v.frames.frame? f).map fun x => (x.page, p.writable)
  settled : ∀ {s a p f}, pageIn? v.spaces s a = some p → p.frame = some f →
    p.isUntouched = false ∧ p.slot = none
  used : ∀ i, v.swap.Used i ↔ ∃ s a p, pageIn? v.spaces s a = some p ∧ p.slot = some i
  unshared : ∀ {s a p t b q i}, pageIn? v.spaces s a = some p → p.slot = some i →
    pageIn? v.spaces t b = some q → q.slot = some i → s = t ∧ a = b
  placed : ∀ {s a p}, pageIn? v.spaces s a = some p → a.IsUserPage
  numbered : ∀ {s}, (v.spaces.find? s).isSome = true → s.number < v.nextSpace

theorem Coherent.aligned {v : VirtualMemory} {spare : Option FrameId} {s : SpaceId} {a : VirtAddr}
    {p : Page} (h : Coherent v spare) (page : pageIn? v.spaces s a = some p) :
    a.isAligned = true := (h.placed page).aligned

/-! ## The flat memory behind it -/

/-- The bytes of an anonymous page: those of its frame, or else those of its slot. -/
def anonymousBytes (v : VirtualMemory) (p : Page) : PageBytes :=
  match p.frame with
  | some f => ((v.frames.frame? f).map fun x => v.pool.page x.page).getD .zeros
  | none => v.swap.saved p.slot

/-- What users see of a page. An anonymous page without contents, as a copy that failed leaves it,
is as good as untouched. -/
def flatPage (v : VirtualMemory) (p : Page) : Option FlatPage :=
  match p.kind with
  | .untouched .anonymous loader => some (.untouched loader)
  | .untouched .file _ => none
  | .anonymous _ =>
    some (if p.isMaterialised then .loaded (v.anonymousBytes p) else .untouched .zeroFill)
  | .file _ => none

theorem flatPage_of_same {v v' : VirtualMemory} {p : Page}
    (h : v'.anonymousBytes p = v.anonymousBytes p) : v'.flatPage p = v.flatPage p := by
  unfold flatPage
  rw [h]

/-- What users see: the anonymous pages, wherever they are, and the files. -/
def flat (v : VirtualMemory) : FlatMemory :=
  ⟨fun s a => (pageIn? v.spaces s a).bind v.flatPage, v.files.image⟩

theorem flat_eq {v : VirtualMemory} {m : FlatMemory} (pages : ∀ s a, v.flat.page s a = m.page s a)
    (files : v.files.image = m.files) : v.flat = m := by
  obtain ⟨page, image⟩ := m
  have same : v.flat.page = page := funext fun s => funext fun a => pages s a
  dsimp only at files
  rw [← same, ← files]
  rfl

/-! ## Changes of one page and one frame -/

/-- Between two states the page at `o` becomes `p'` and the frame `f` becomes `x'`. The frame
belongs to no other page, and the page is in no other frame. -/
structure LocalChange (v v' : VirtualMemory) (o : PageRef) (f : FrameId) (p' : Option Page)
    (x' : Option Frame) : Prop where
  pages : ∀ s a, pageIn? v'.spaces s a =
    if s = o.space ∧ a = o.va then p' else pageIn? v.spaces s a
  frames : ∀ g, v'.frames.frame? g = if g = f then x' else v.frames.frame? g
  targets : ∀ s a, (v'.mmu.mapping? s a).map MmuEntry.target =
    if s = o.space ∧ a = o.va then
      p'.bind fun p => p.frame.bind fun _ => x'.map fun x => (x.page, p.writable)
    else (v.mmu.mapping? s a).map MmuEntry.target
  pool : v'.pool.Regular
  taken : ∀ q, v'.pool.Taken q ↔ (∃ x, x' = some x ∧ x.page = q) ∨
    v.pool.Taken q ∧ ∀ x, v.frames.frame? f = some x → x.page ≠ q
  contents : ∀ q, v.pool.Taken q → (∀ x, v.frames.frame? f = some x → x.page ≠ q) →
    v'.pool.page q = v.pool.page q
  swap : v'.swap.Regular
  used : ∀ i, v'.swap.Used i ↔ (∃ p, p' = some p ∧ p.slot = some i) ∨
    v.swap.Used i ∧ ∀ p, pageIn? v.spaces o.space o.va = some p → p.slot ≠ some i
  saved : ∀ i, v.swap.Used i → (∀ p, pageIn? v.spaces o.space o.va = some p → p.slot ≠ some i) →
    v'.swap.readPage i = v.swap.readPage i
  frame_before : ∀ x r, v.frames.frame? f = some x → x.owner = some r → r = o
  page_before : ∀ p g, pageIn? v.spaces o.space o.va = some p → p.frame = some g → g = f
  page_after : ∀ p g, p' = some p → p.frame = some g →
    g = f ∧ (∃ x, x' = some x ∧ x.owner = some o) ∧ p.isUntouched = false ∧ p.slot = none
  frame_after : ∀ x, x' = some x → x.pinned = false ∧
    ∀ r, x.owner = some r → r = o ∧ ∃ p, p' = some p ∧ p.frame = some f
  place_after : ∀ x, x' = some x →
    (∃ y, v.frames.frame? f = some y ∧ y.page = x.page) ∨ ¬v.pool.Taken x.page
  slot_after : ∀ p i, p' = some p → p.slot = some i → ¬v.swap.Used i
  placed : ∀ p, p' = some p → o.va.IsUserPage
  numbered : ∀ s, (v'.spaces.find? s).isSome = true → s.number < v'.nextSpace

section

variable {v v' : VirtualMemory} {o : PageRef} {f : FrameId} {p' : Option Page} {x' : Option Frame}
  {spare spare' : Option FrameId} {s : SpaceId} {a : VirtAddr} {p : Page}

private theorem pageRef_eq (hs : s = o.space) (ha : a = o.va) : (⟨s, a⟩ : PageRef) = o := by
  subst hs
  subst ha
  rfl

/-- Writing to the physical page of a frame leaves taken what was taken. -/
theorem Coherent.taken_setPage {x y : Frame} (h : Coherent v spare)
    (frame : v.frames.frame? f = some x) (same : y.page = x.page) (bytes : PageBytes)
    (q : PhysAddr) : (v.pool.setPage x.page bytes).Taken q ↔
      (∃ z, some y = some z ∧ z.page = q) ∨
        v.pool.Taken q ∧ ∀ z, v.frames.frame? f = some z → z.page ≠ q := by
  have taken : v.pool.Taken x.page := (h.taken _).mpr ⟨f, x, frame, rfl⟩
  rw [PagePool.taken_setPage]
  by_cases here : x.page = q
  · subst here
    simp [taken, same]
  · simp [here, same, frame]

/-- A page elsewhere is not in the frame that changes. -/
theorem Coherent.frame_ne (h : Coherent v spare) (c : LocalChange v v' o f p' x')
    (other : ¬(s = o.space ∧ a = o.va)) (page : pageIn? v.spaces s a = some p) {g : FrameId}
    (frame : p.frame = some g) : g ≠ f := by
  rintro rfl
  obtain ⟨x, hx, owner⟩ := h.resident page frame
  have := c.frame_before x _ hx owner
  exact other ⟨congrArg PageRef.space this, congrArg PageRef.va this⟩

theorem Coherent.slot_ne (h : Coherent v spare) (other : ¬(s = o.space ∧ a = o.va))
    (page : pageIn? v.spaces s a = some p) {i : SwapSlot} (slot : p.slot = some i) :
    ∀ q, pageIn? v.spaces o.space o.va = some q → q.slot ≠ some i :=
  fun _ hq hi => other (h.unshared page slot hq hi)

/-- The frame that changes has another physical page than all others. -/
theorem Coherent.page_ne (h : Coherent v spare) {g : FrameId} {y : Frame}
    (frame : v.frames.frame? g = some y) (ne : g ≠ f) :
    ∀ x, v.frames.frame? f = some x → x.page ≠ y.page :=
  fun _ hx same => ne (h.distinct frame hx same.symm)

/-! The fields of `Coherent` after the change, each from those before it: what is at `o` or in `f`
comes from the change, and everything else was there already. -/

theorem Coherent.resident_change (h : Coherent v spare) (c : LocalChange v v' o f p' x')
    {g : FrameId} (page : pageIn? v'.spaces s a = some p) (frame : p.frame = some g) :
    ∃ x, v'.frames.frame? g = some x ∧ x.owner = some ⟨s, a⟩ := by
  rw [c.pages] at page
  rw [c.frames]
  split at page
  · rename_i here
    obtain ⟨rfl, ⟨x, hx, owner⟩, -⟩ := c.page_after p g page frame
    exact ⟨x, by rw [if_pos rfl, hx], by rw [owner, pageRef_eq here.1 here.2]⟩
  · rename_i other
    rw [if_neg (h.frame_ne c other page frame)]
    exact h.resident page frame

theorem Coherent.owned_change (h : Coherent v spare) (c : LocalChange v v' o f p' x')
    {g : FrameId} {x : Frame} {r : PageRef} (frame : v'.frames.frame? g = some x)
    (owner : x.owner = some r) :
    ∃ p, pageIn? v'.spaces r.space r.va = some p ∧ p.frame = some g := by
  rw [c.frames] at frame
  rw [c.pages]
  split at frame
  · rename_i here
    obtain ⟨-, mine⟩ := c.frame_after x frame
    obtain ⟨rfl, p, hp, hf⟩ := mine r owner
    exact ⟨p, by rw [if_pos ⟨rfl, rfl⟩, hp], by rw [hf, here]⟩
  · rename_i other
    obtain ⟨p, page, hf⟩ := h.owned frame owner
    refine ⟨p, ?_, hf⟩
    rw [if_neg, page]
    rintro ⟨hs, ha⟩
    rw [hs, ha] at page
    exact other (c.page_before p g page hf)

theorem Coherent.taken_change (h : Coherent v spare) (c : LocalChange v v' o f p' x') (q : PhysAddr) :
    v'.pool.Taken q ↔ ∃ g x, v'.frames.frame? g = some x ∧ x.page = q := by
  rw [c.taken]
  constructor
  · rintro (⟨x, hx, rfl⟩ | ⟨taken, other⟩)
    · exact ⟨f, x, by rw [c.frames, if_pos rfl, hx], rfl⟩
    · obtain ⟨g, x, frame, rfl⟩ := (h.taken q).mp taken
      refine ⟨g, x, ?_, rfl⟩
      rw [c.frames, if_neg, frame]
      rintro rfl
      exact other x frame rfl
  · rintro ⟨g, x, frame, rfl⟩
    rw [c.frames] at frame
    split at frame
    · exact .inl ⟨x, frame, rfl⟩
    · rename_i other
      exact .inr ⟨(h.taken _).mpr ⟨g, x, frame, rfl⟩, h.page_ne frame other⟩

theorem Coherent.distinct_change (h : Coherent v spare) (c : LocalChange v v' o f p' x')
    {g k : FrameId} {x y : Frame} (hg : v'.frames.frame? g = some x)
    (hk : v'.frames.frame? k = some y) (same : x.page = y.page) : g = k := by
  -- Only the frame that changes can have a page it did not have before.
  have apart : ∀ {g x y}, x' = some x → v.frames.frame? g = some y → g ≠ f → x.page ≠ y.page := by
    intro g x y hx frame ne same
    rcases c.place_after x hx with ⟨z, hz, place⟩ | fresh
    · exact h.page_ne frame ne z hz (place.trans same)
    · exact fresh ((h.taken _).mpr ⟨g, y, frame, same.symm⟩)
  rw [c.frames] at hg hk
  split at hg <;> split at hk <;> rename_i hgf hkf
  · rw [hgf, hkf]
  · exact absurd same (apart hg hk hkf)
  · exact absurd same.symm (apart hk hg hgf)
  · exact h.distinct hg hk same

theorem Coherent.translated_change (h : Coherent v spare) (c : LocalChange v v' o f p' x') (s a) :
    (v'.mmu.mapping? s a).map MmuEntry.target =
      (pageIn? v'.spaces s a).bind fun p => p.frame.bind fun g =>
        (v'.frames.frame? g).map fun x => (x.page, p.writable) := by
  rw [c.targets, c.pages]
  split
  · cases hp : p' with
    | none => rfl
    | some p =>
      cases hf : p.frame with
      | none => simp [hf]
      | some g =>
        obtain ⟨rfl, -⟩ := c.page_after p g hp hf
        simp [hf, c.frames]
  · rename_i other
    rw [h.translated]
    cases page : pageIn? v.spaces s a with
    | none => rfl
    | some p =>
      cases hf : p.frame with
      | none => simp [hf]
      | some g => simp [hf, c.frames, h.frame_ne c other page hf]

theorem Coherent.used_change (h : Coherent v spare) (c : LocalChange v v' o f p' x')
    (i : SwapSlot) :
    v'.swap.Used i ↔ ∃ s a p, pageIn? v'.spaces s a = some p ∧ p.slot = some i := by
  rw [c.used]
  constructor
  · rintro (⟨p, hp, slot⟩ | ⟨used, other⟩)
    · exact ⟨o.space, o.va, p, by rw [c.pages, if_pos ⟨rfl, rfl⟩, hp], slot⟩
    · obtain ⟨s, a, p, page, slot⟩ := (h.used i).mp used
      refine ⟨s, a, p, ?_, slot⟩
      rw [c.pages, if_neg, page]
      rintro ⟨rfl, rfl⟩
      exact other p page slot
  · rintro ⟨s, a, p, page, slot⟩
    rw [c.pages] at page
    split at page
    · exact .inl ⟨p, page, slot⟩
    · rename_i other
      exact .inr ⟨(h.used i).mpr ⟨s, a, p, page, slot⟩, h.slot_ne other page slot⟩

theorem Coherent.unshared_change (h : Coherent v spare) (c : LocalChange v v' o f p' x')
    {t : SpaceId} {b : VirtAddr} {q : Page} {i : SwapSlot}
    (hp : pageIn? v'.spaces s a = some p) (slot : p.slot = some i)
    (hq : pageIn? v'.spaces t b = some q) (slot' : q.slot = some i) : s = t ∧ a = b := by
  -- The page that changes has no slot that was in use before.
  have apart : ∀ {t b q p i}, p' = some p → p.slot = some i → pageIn? v.spaces t b = some q →
      q.slot ≠ some i := by
    intro t b q p i hp slot page same
    exact c.slot_after p i hp slot ((h.used i).mpr ⟨t, b, q, page, same⟩)
  rw [c.pages] at hp hq
  split at hp <;> split at hq <;> rename_i here there
  · exact ⟨here.1.trans there.1.symm, here.2.trans there.2.symm⟩
  · exact absurd slot' (apart hp slot hq)
  · exact absurd slot (apart hq slot' hp)
  · exact h.unshared hp slot hq slot'

theorem Coherent.change (h : Coherent v spare) (c : LocalChange v v' o f p' x')
    (before : ∀ g, spare = some g → g = f)
    (unowned : ∀ x, x' = some x → x.owner = none → spare' = some f)
    (after : ∀ g, spare' = some g → g = f ∧ ∃ x, x' = some x ∧ x.owner = none) :
    Coherent v' spare' where
  pool := c.pool
  swap := c.swap
  resident := h.resident_change c
  owned := h.owned_change c
  unowned := by
    intro g x frame owner
    rw [c.frames] at frame
    split at frame
    · rename_i here
      rw [unowned x frame owner, here]
    · rename_i other
      exact absurd (before g (h.unowned frame owner)) other
  spare_unowned := by
    intro g spare
    obtain ⟨rfl, x, hx, owner⟩ := after g spare
    exact ⟨x, by rw [c.frames, if_pos rfl, hx], owner⟩
  unpinned := by
    intro g x frame
    rw [c.frames] at frame
    split at frame
    · exact (c.frame_after x frame).1
    · exact h.unpinned frame
  taken := h.taken_change c
  distinct := h.distinct_change c
  translated := h.translated_change c
  settled := by
    intro s a p g page frame
    rw [c.pages] at page
    split at page
    · exact (c.page_after p g page frame).2.2
    · exact h.settled page frame
  used := h.used_change c
  unshared := h.unshared_change c
  placed := by
    intro s a p page
    rw [c.pages] at page
    split at page
    · rename_i here
      rw [here.2]
      exact c.placed p page
    · exact h.placed page
  numbered := fun {s} => c.numbered s

/-- Pages elsewhere keep their contents, wherever those are. -/
theorem Coherent.anonymousBytes_eq (h : Coherent v spare) (c : LocalChange v v' o f p' x')
    (other : ¬(s = o.space ∧ a = o.va)) (page : pageIn? v.spaces s a = some p) :
    v'.anonymousBytes p = v.anonymousBytes p := by
  unfold anonymousBytes
  cases hf : p.frame with
  | some g =>
    have ne := h.frame_ne c other page hf
    obtain ⟨y, frame, -⟩ := h.resident page hf
    have apart := h.page_ne frame ne
    simp only [c.frames, if_neg ne, frame, Option.map_some, Option.getD_some]
    exact c.contents y.page ((h.taken _).mpr ⟨g, y, frame, rfl⟩) apart
  | none =>
    cases hslot : p.slot with
    | none => simp only [SwapArea.saved, Option.map_none, Option.getD_none]
    | some i =>
      have used := (h.used i).mpr ⟨s, a, p, page, hslot⟩
      simp only [SwapArea.saved, Option.map_some, Option.getD_some]
      exact c.saved i used (h.slot_ne other page hslot)

theorem Coherent.flatPage_change (h : Coherent v spare) (c : LocalChange v v' o f p' x') (s a) :
    v'.flat.page s a =
      if s = o.space ∧ a = o.va then p'.bind v'.flatPage else v.flat.page s a := by
  unfold flat
  dsimp only
  rw [c.pages]
  by_cases here : s = o.space ∧ a = o.va
  · rw [if_pos here, if_pos here]
  · rw [if_neg here, if_neg here]
    cases page : pageIn? v.spaces s a with
    | none => rw [Option.bind_none, Option.bind_none]
    | some p =>
      rw [Option.bind_some, Option.bind_some]
      exact flatPage_of_same (h.anonymousBytes_eq c here page)

/-- Clearing marks, writing to files and counting do not matter, nor do regions. -/
theorem Coherent.of_pages (h : Coherent v spare)
    (pages : ∀ s a, pageIn? v'.spaces s a = pageIn? v.spaces s a)
    (frames : ∀ g, v'.frames.frame? g = v.frames.frame? g) (targets : v.mmu.SameTargets v'.mmu)
    (pool : v'.pool = v.pool) (swap : v'.swap = v.swap)
    (numbered : ∀ s, (v'.spaces.find? s).isSome = true → s.number < v'.nextSpace) :
    Coherent v' spare where
  pool := pool ▸ h.pool
  swap := swap ▸ h.swap
  resident := by
    intro s a p f
    simpa only [pages, frames] using @h.resident s a p f
  owned := by
    intro f x o
    simpa only [pages, frames] using @h.owned f x o
  unowned := by
    intro f x
    simpa only [frames] using @h.unowned f x
  spare_unowned := by
    intro f
    simpa only [frames] using @h.spare_unowned f
  unpinned := by
    intro f x
    simpa only [frames] using @h.unpinned f x
  taken := by simpa only [frames, pool] using h.taken
  distinct := by
    intro f g x y
    simpa only [frames] using @h.distinct f g x y
  translated := fun s a => by simpa only [pages, frames, targets s a] using h.translated s a
  settled := by
    intro s a p f
    simpa only [pages] using @h.settled s a p f
  used := by simpa only [pages, swap] using h.used
  unshared := by
    intro s a p t b q i
    simpa only [pages] using @h.unshared s a p t b q i
  placed := by
    intro s a p
    simpa only [pages] using @h.placed s a p
  numbered := fun {s} => numbered s

theorem Coherent.of_same (h : Coherent v spare) (spaces : v'.spaces = v.spaces)
    (frames : ∀ g, v'.frames.frame? g = v.frames.frame? g) (targets : v.mmu.SameTargets v'.mmu)
    (pool : v'.pool = v.pool) (swap : v'.swap = v.swap) (next : v'.nextSpace = v.nextSpace) :
    Coherent v' spare := by
  refine h.of_pages (fun _ _ => by rw [spaces]) frames targets pool swap fun s hs => ?_
  rw [next]
  rw [spaces] at hs
  exact h.numbered hs

theorem flatPage_of_same_places (frames : ∀ g, v'.frames.frame? g = v.frames.frame? g)
    (pool : v'.pool = v.pool) (swap : v'.swap = v.swap) : v'.flatPage p = v.flatPage p := by
  apply flatPage_of_same
  unfold anonymousBytes
  simp only [frames, pool, swap]

theorem flat_of_same (pages : ∀ s a, pageIn? v'.spaces s a = pageIn? v.spaces s a)
    (frames : ∀ g, v'.frames.frame? g = v.frames.frame? g)
    (pool : v'.pool = v.pool) (swap : v'.swap = v.swap) (files : v'.files.image = v.files.image) :
    v'.flat = v.flat := by
  have same : v'.flatPage = v.flatPage := by
    funext p
    exact flatPage_of_same_places frames pool swap
  refine flat_eq (fun s a => ?_) files
  simp only [flat, pages, same]

/-! ## Changes of a frame that holds no page -/

/-- Between two states the frame `f`, which holds no page before or after, becomes `x'`. -/
structure FrameChange (v v' : VirtualMemory) (f : FrameId) (x' : Option Frame) : Prop where
  spaces : v'.spaces = v.spaces
  swap : v'.swap = v.swap
  next : v'.nextSpace = v.nextSpace
  targets : v.mmu.SameTargets v'.mmu
  frames : ∀ g, v'.frames.frame? g = if g = f then x' else v.frames.frame? g
  pool : v'.pool.Regular
  taken : ∀ q, v'.pool.Taken q ↔ (∃ x, x' = some x ∧ x.page = q) ∨
    v.pool.Taken q ∧ ∀ x, v.frames.frame? f = some x → x.page ≠ q
  contents : ∀ q, v.pool.Taken q → (∀ x, v.frames.frame? f = some x → x.page ≠ q) →
    v'.pool.page q = v.pool.page q
  before : ∀ x, v.frames.frame? f = some x → x.owner = none
  after : ∀ x, x' = some x → x.owner = none ∧ x.pinned = false
  place_after : ∀ x, x' = some x → ¬v.pool.Taken x.page

theorem Coherent.find?_next (h : Coherent v spare) : v.spaces.find? ⟨v.nextSpace⟩ = none := by
  cases found : v.spaces.find? ⟨v.nextSpace⟩ with
  | none => rfl
  | some x =>
    have below := h.numbered (s := ⟨v.nextSpace⟩) (by rw [found, Option.isSome_some])
    exact absurd below (Nat.lt_irrefl _)

/-- No page is in a space that does not exist yet. -/
theorem Coherent.page_of_next (h : Coherent v spare) : pageIn? v.spaces ⟨v.nextSpace⟩ a = none := by
  unfold pageIn?
  rw [h.find?_next, Option.bind_none]

theorem FrameChange.toLocal (c : FrameChange v v' f x') (h : Coherent v spare) :
    LocalChange v v' ⟨⟨v.nextSpace⟩, ⟨0⟩⟩ f none x' where
  pages s a := by
    rw [c.spaces]
    split
    · rename_i here
      rw [here.1, h.page_of_next]
    · rfl
  frames := c.frames
  targets s a := by
    rw [c.targets]
    split
    · rename_i here
      rw [here.1, h.translated, h.page_of_next]
      rfl
    · rfl
  pool := c.pool
  taken := c.taken
  contents := c.contents
  swap := c.swap ▸ h.swap
  used i := by
    rw [c.swap]
    constructor
    · refine fun used => .inr ⟨used, fun p hp => ?_⟩
      rw [h.page_of_next] at hp
      cases hp
    · rintro (⟨p, hp, -⟩ | ⟨used, -⟩)
      · cases hp
      · exact used
  saved i _ _ := by rw [c.swap]
  frame_before x r hx owner := by
    rw [c.before x hx] at owner
    cases owner
  page_before p g hp := by
    rw [h.page_of_next] at hp
    cases hp
  page_after p g hp := nomatch hp
  frame_after x hx := by
    obtain ⟨unowned, unpinned⟩ := c.after x hx
    refine ⟨unpinned, fun r owner => ?_⟩
    rw [unowned] at owner
    cases owner
  place_after x hx := .inr (c.place_after x hx)
  slot_after p i hp := nomatch hp
  placed p hp := nomatch hp
  numbered s hs := by
    rw [c.next]
    rw [c.spaces] at hs
    exact h.numbered hs

theorem FrameChange.flat (c : FrameChange v v' f x') (h : Coherent v spare)
    (files : v'.files.image = v.files.image) : v'.flat = v.flat := by
  refine flat_eq (fun s a => ?_) files
  rw [h.flatPage_change (c.toLocal h)]
  split
  · rename_i here
    have absent : pageIn? v.spaces s a = none := by rw [here.1, h.page_of_next]
    simp only [VirtualMemory.flat, absent, Option.bind_none]
  · rfl

/-! ## Changes of a page that is in no frame -/

/-- Between two states the page at `o`, which is in no frame before or after, becomes `p'`. -/
structure PageChange (v v' : VirtualMemory) (o : PageRef) (p' : Option Page) : Prop where
  pages : ∀ s a, pageIn? v'.spaces s a =
    if s = o.space ∧ a = o.va then p' else pageIn? v.spaces s a
  frames : v'.frames = v.frames
  targets : v.mmu.SameTargets v'.mmu
  pool : v'.pool = v.pool
  swap : v'.swap.Regular
  used : ∀ i, v'.swap.Used i ↔ (∃ p, p' = some p ∧ p.slot = some i) ∨
    v.swap.Used i ∧ ∀ p, pageIn? v.spaces o.space o.va = some p → p.slot ≠ some i
  saved : ∀ i, v.swap.Used i → (∀ p, pageIn? v.spaces o.space o.va = some p → p.slot ≠ some i) →
    v'.swap.readPage i = v.swap.readPage i
  before : ∀ p, pageIn? v.spaces o.space o.va = some p → p.frame = none
  after : ∀ p, p' = some p → p.frame = none
  slot_after : ∀ p i, p' = some p → p.slot = some i → ¬v.swap.Used i
  placed : ∀ p, p' = some p → o.va.IsUserPage
  numbered : ∀ s, (v'.spaces.find? s).isSome = true → s.number < v'.nextSpace

theorem PageChange.toLocal (c : PageChange v v' o p') (h : Coherent v spare) :
    LocalChange v v' o ⟨v.frames.frames.length⟩ p' none where
  pages := c.pages
  frames g := by
    rw [c.frames]
    split
    · rename_i here
      subst here
      exact FrameTable.frame?_length v.frames
    · rfl
  targets s a := by
    rw [c.targets]
    split
    · rename_i here
      have unmapped : (v.mmu.mapping? s a).map MmuEntry.target = none := by
        rw [h.translated, here.1, here.2]
        cases page : pageIn? v.spaces o.space o.va with
        | none => rfl
        | some p => simp [c.before p page]
      rw [unmapped]
      cases hp : p' with
      | none => rfl
      | some p => simp
    · rfl
  pool := c.pool ▸ h.pool
  taken q := by simp [c.pool, FrameTable.frame?_length]
  contents q _ _ := by rw [c.pool]
  swap := c.swap
  used := c.used
  saved := c.saved
  frame_before x r hx := by
    rw [FrameTable.frame?_length] at hx
    cases hx
  page_before p g hp hg := by
    rw [c.before p hp] at hg
    cases hg
  page_after p g hp hg := by
    rw [c.after p hp] at hg
    cases hg
  frame_after := nofun
  place_after := nofun
  slot_after := c.slot_after
  placed := c.placed
  numbered := c.numbered

theorem PageChange.coherent (c : PageChange v v' o p') (h : Coherent v none) : Coherent v' none :=
  h.change (c.toLocal h) nofun nofun nofun

end

end VirtualMemory

end KernelCore
