import KernelCore.Proofs.Paging.Discarding

/-!
# Mapping files

A mapping enters its pages where there were none, and its region last. Users see of it only that
the file was opened: the pages are file pages.
-/
namespace KernelCore

theorem VirtAddr.addPages_eq {a b : VirtAddr} {n : Nat} (h : a.addPages n = .ok b) :
    b = ⟨a.toNat + n * pageSize⟩ := by
  unfold addPages at h
  simp only [bind, Except.bind, pure, Except.pure] at h
  split at h
  · cases h
  · rename_i bytes product
    obtain ⟨-, rfl⟩ := mulWords_eq_ok_iff.mp product
    split at h
    · cases h
    · rename_i sum total
      obtain ⟨-, rfl⟩ := addWords_eq_ok_iff.mp total
      exact (Except.ok.inj h).symm

theorem FileBacking.ofStretch_eq {file : DescriptionId} {offset length i : Nat} {b : FileBacking}
    (h : FileBacking.ofStretch file offset length i = .ok b) :
    b.file = file ∧ b.offset = offset + i * pageSize ∧
      b.readBytes = min (length - i * pageSize) pageSize := by
  unfold ofStretch at h
  simp only [bind, Except.bind, pure, Except.pure] at h
  split at h
  · cases h
  · rename_i skipped product
    obtain ⟨-, rfl⟩ := mulWords_eq_ok_iff.mp product
    split at h
    · cases h
    · rename_i start total
      obtain ⟨-, rfl⟩ := addWords_eq_ok_iff.mp total
      cases Except.ok.inj h
      exact ⟨rfl, rfl, rfl⟩

/-- Only the place in the file can be no word. -/
theorem FileBacking.ofStretch_error {file : DescriptionId} {offset length i : Nat}
    {f : ArithmeticFault} (h : FileBacking.ofStretch file offset length i = .error f)
    (fits : i * pageSize < addressLimit) :
    f = .addition ∧ addressLimit ≤ offset + i * pageSize := by
  have skipped := mulWords_eq_ok_iff.mpr ⟨fits, rfl⟩
  unfold ofStretch at h
  simp only [bind, Except.bind, skipped] at h
  cases sum : addWords offset (i * pageSize) with
  | error g =>
    rw [sum] at h
    cases h
    exact addWords_eq_error_iff.mp sum
  | ok start =>
    rw [sum] at h
    cases h

theorem VirtAddr.addPages_of_lt {a : VirtAddr} {n : Nat}
    (fits : a.toNat + n * pageSize < addressLimit) :
    a.addPages n = .ok ⟨a.toNat + n * pageSize⟩ := by
  have product : mulWords n pageSize = .ok (n * pageSize) :=
    mulWords_eq_ok_iff.mpr ⟨by omega, rfl⟩
  have sum : addWords a.toNat (n * pageSize) = .ok (a.toNat + n * pageSize) :=
    addWords_eq_ok_iff.mpr ⟨fits, rfl⟩
  unfold addPages
  simp only [bind, Except.bind, product, sum]
  rfl

theorem pagesFor_eq {length count : Nat} (h : pagesFor length = .ok count) :
    count = (length + (pageSize - 1)) / pageSize := by
  unfold pagesFor at h
  cases sum : addWords length (pageSize - 1) with
  | error f =>
    rw [sum] at h
    cases h
  | ok n =>
    rw [sum] at h
    obtain ⟨-, rfl⟩ := addWords_eq_ok_iff.mp sum
    exact (Except.ok.inj h).symm

/-- The pages of a range of user memory are pages of user memory. -/
theorem VirtAddr.IsUserPage.addPages {a b : VirtAddr} {length count i : Nat} (h : a.IsUserPage)
    (user : a.toNat + (length - 1) < kernelBase) (pages : pagesFor length = .ok count)
    (hi : i < count) (place : a.addPages i = .ok b) : b.IsUserPage := by
  obtain ⟨aligned, -, nonzero⟩ := h
  have ps := pageSize_pos
  rw [pagesFor_eq pages, Nat.lt_div_iff_mul_lt ps] at hi
  have place := addPages_eq place
  subst place
  refine ⟨?_, ?_, fun none => nonzero (Nat.add_eq_zero_iff.mp none).1⟩
  · simp only [isAligned, Nat.add_mul_mod_self_right] at aligned ⊢
    exact aligned
  · simp only [isUser, decide_eq_true_eq]
    omega

/-- The pages of a range of user memory have addresses. -/
theorem VirtAddr.addPages_of_user {a : VirtAddr} {length count i : Nat}
    (user : a.toNat + (length - 1) < kernelBase) (pages : pagesFor length = .ok count)
    (hi : i < count) : a.addPages i = .ok ⟨a.toNat + i * pageSize⟩ := by
  have ps := pageSize_pos
  have top : kernelBase < addressLimit := by decide
  rw [pagesFor_eq pages, Nat.lt_div_iff_mul_lt ps] at hi
  exact addPages_of_lt (by omega)

theorem VirtAddr.toNat_of_add? {a b : VirtAddr} {n : Nat} (h : a.add? n = some b) :
    b.toNat = a.toNat + n := by
  unfold add? at h
  cases sum : addWords a.toNat n with
  | error f =>
    rw [sum] at h
    cases h
  | ok total =>
    rw [sum] at h
    cases h
    exact (addWords_eq_ok_iff.mp sum).2

/-- A file was opened. -/
def MemoryEvent.IsOpening : MemoryEvent → Prop
  | .opened _ => True
  | _ => False

/-- A file was opened and mapped at an address. -/
def CacheEvent.IsMapping (space : SpaceId) (start : VirtAddr) : CacheEvent → Prop
  | .opened _ => True
  | .entered s _ => s = space
  | .mapped s a _ => s = space ∧ a = start
  | _ => False

namespace VirtualMemory

open Transition

variable {v u w : VirtualMemory} {space : SpaceId} {start : VirtAddr} {own : DescriptionId}
  {offset : Nat}

theorem mem_pageStarts_succ {count : Nat} {a : VirtAddr} :
    a ∈ pageStarts start (count + 1) ↔
      a ∈ pageStarts start count ∨ a = ⟨start.toNat + count * pageSize⟩ := by
  unfold pageStarts
  simp [List.range_succ]

/-- The addresses of different pages of a range are different. -/
theorem not_mem_pageStarts_end {count : Nat} :
    (⟨start.toNat + count * pageSize⟩ : VirtAddr) ∉ pageStarts start count := by
  intro mem
  obtain ⟨i, hi, same⟩ := mem_pageStarts.mp mem
  have product := Nat.add_left_cancel (VirtAddr.mk.inj same)
  have index := Nat.eq_of_mul_eq_mul_right pageSize_pos product
  omega

theorem absent_of_not_occupied {x : AddressSpace} {count : Nat}
    (found : v.spaces.find? space = some x) (free : ¬x.occupied start count = true) {a : VirtAddr}
    (ha : a ∈ pageStarts start count) : pageIn? v.spaces space a = none := by
  obtain ⟨i, hi, rfl⟩ := mem_pageStarts.mp ha
  have inside : i * pageSize < count * pageSize := Nat.mul_lt_mul_of_pos_right hi pageSize_pos
  rw [pageIn?_of_find found]
  refine Option.not_isSome_iff_eq_none.mp fun present => free ?_
  unfold AddressSpace.occupied
  rw [List.any_eq_true]
  refine ⟨_, Table.contains_iff.mp present, ?_⟩
  simp only [Bool.and_eq_true, decide_eq_true_eq]
  omega

/-- Where pages are in memory and in the swap area did not change. -/
structure SameStorage (v w : VirtualMemory) : Prop where
  frames : w.frames = v.frames
  pool : w.pool = v.pool
  swap : w.swap = v.swap
  mmu : w.mmu = v.mmu

/-- The first `count` pages of a mapping of `covered` bytes were entered where there were none. -/
structure MappedPages (v : VirtualMemory) (space : SpaceId) (start : VirtAddr) (writable : Bool)
    (own : DescriptionId) (offset covered count : Nat) (w : VirtualMemory) : Prop where
  coherent : Coherent w none
  follows : Follows MemoryEvent.IsOpening v w
  cached : Leads (CacheEvent.IsMapping space start) v.cache w.cache
  storage : SameStorage v w
  absent : ∀ i, i < count → pageIn? v.spaces space ⟨start.toNat + i * pageSize⟩ = none
  pages : ∀ i, i < count → ∃ b, FileBacking.ofStretch own offset covered i = .ok b ∧
    pageIn? w.spaces space ⟨start.toNat + i * pageSize⟩ = some (.fresh writable .file (.segment b))
  others : ∀ s a, ¬(s = space ∧ a ∈ pageStarts start count) →
    pageIn? w.spaces s a = pageIn? v.spaces s a

theorem MappedPages.mapped {writable : Bool} {covered count : Nat}
    (h : MappedPages v space start writable own offset covered count w) {i : Nat} (hi : i < count) :
    ∃ b, mappedIn? w.spaces space ⟨start.toNat + i * pageSize⟩ = some b ∧ b.file = own ∧
      b.offset = offset + i * pageSize := by
  obtain ⟨b, stretch, page⟩ := h.pages i hi
  obtain ⟨owner, position, -⟩ := FileBacking.ofStretch_eq stretch
  refine ⟨b, ?_, owner, position⟩
  unfold mappedIn?
  rw [page]
  rfl

theorem MappedPages.step {writable : Bool} {covered count : Nat} {b : FileBacking} {va : VirtAddr}
    (h : MappedPages v space start writable own offset covered count u)
    (place : start.addPages count = .ok va)
    (stretch : FileBacking.ofStretch own offset covered count = .ok b)
    (entered : Entered u space va (.fresh writable .file (.segment b)) w) :
    MappedPages v space start writable own offset covered (count + 1) w where
  coherent := entered.coherent rfl rfl h.coherent
  follows := h.follows.trans (entered.follows_hidden rfl rfl h.coherent rfl)
  cached := h.cached.trans (entered.leads rfl fun _ => rfl)
  storage := ⟨entered.frames.trans h.storage.frames, entered.pool.trans h.storage.pool,
    entered.swap.trans h.storage.swap, entered.mmu.trans h.storage.mmu⟩
  absent i hi := by
    by_cases last : i = count
    · have here := VirtAddr.addPages_eq place
      cases before : pageIn? v.spaces space ⟨start.toNat + i * pageSize⟩ with
      | none => rfl
      | some p =>
        obtain ⟨q, there, -⟩ := h.follows.kept before
        rw [last, ← here, entered.absent] at there
        cases there
    · exact h.absent i (by omega)
  pages i hi := by
    have here := VirtAddr.addPages_eq place
    by_cases last : i = count
    · refine ⟨b, last ▸ stretch, ?_⟩
      rw [last, ← here, entered.pages, if_pos ⟨rfl, rfl⟩]
    · obtain ⟨b', stretch', page⟩ := h.pages i (by omega)
      refine ⟨b', stretch', ?_⟩
      rw [entered.pages, if_neg, page]
      rintro ⟨-, same⟩
      rw [same, entered.absent] at page
      cases page
  others s a other := by
    have here := VirtAddr.addPages_eq place
    rw [entered.pages, if_neg, h.others s a]
    · exact fun inside => other ⟨inside.1, mem_pageStarts_succ.mpr (.inl inside.2)⟩
    · exact fun last => other ⟨last.1, mem_pageStarts_succ.mpr (.inr (last.2.trans here))⟩

/-- The region of a mapping shares no page with those that were there before. -/
theorem MappedPages.regionsBacked {writable : Bool} {covered count : Nat}
    (h : MappedPages v space start writable own offset covered count u) (positive : 0 < count)
    (regions : RegionsBacked v) (only : OnlyRegions u space w)
    (entered : ∀ s a, regionIn? w.spaces s a =
      if s = space ∧ a = start then some ⟨count, own⟩ else regionIn? u.spaces s a) :
    RegionsBacked w := by
  have kept : ∀ {s a b}, mappedIn? v.spaces s a = some b → mappedIn? w.spaces s a = some b := by
    intro s a b stretch
    rw [only.mappedIn?]
    exact h.follows.mapped stretch
  have origin : ∀ {s a r}, regionIn? w.spaces s a = some r →
      (s = space ∧ a = start) ∧ r = ⟨count, own⟩ ∨ regionIn? v.spaces s a = some r := by
    intro s a r region
    rw [entered] at region
    split at region
    · rename_i here
      exact .inl ⟨here, (Option.some.inj region).symm⟩
    · rw [h.follows.regions] at region
      exact .inr region
  have apart : ∀ {a r i j}, regionIn? v.spaces space a = some r → i < count → j < r.pageCount →
      start.toNat + i * pageSize ≠ a.toNat + j * pageSize := by
    intro a r i j region hi hj same
    obtain ⟨_, pages⟩ := regions.backed region
    obtain ⟨b, stretch, -⟩ := pages j hj
    obtain ⟨p, page, -⟩ := Option.bind_eq_some_iff.mp stretch
    rw [← same, h.absent i hi] at page
    cases page
  constructor
  · intro s a r region
    rcases origin region with ⟨-, rfl⟩ | before
    · exact positive
    · exact regions.nonempty before
  · intro s a r region
    rcases origin region with ⟨⟨rfl, rfl⟩, rfl⟩ | before
    · refine ⟨offset, fun i hi => ?_⟩
      obtain ⟨b, stretch, file⟩ := h.mapped hi
      exact ⟨b, by rw [only.mappedIn?, stretch], file⟩
    · obtain ⟨first, pages⟩ := regions.backed before
      refine ⟨first, fun i hi => ?_⟩
      obtain ⟨b, stretch, file⟩ := pages i hi
      exact ⟨b, kept stretch, file⟩
  · intro s a r a' r' i j region region' hi hj same
    rcases origin region with ⟨⟨rfl, rfl⟩, rfl⟩ | before <;>
      rcases origin region' with ⟨⟨here, rfl⟩, rfl⟩ | before'
    · rfl
    · exact absurd same (apart before' hi hj)
    · subst here
      exact absurd same.symm (apart before hj hi)
    · exact regions.disjoint before before' hi hj same

/-- A stretch of a file was mapped: as much of it as there is, by pages that are not in memory. -/
structure Mapped (v : VirtualMemory) (space : SpaceId) (start : VirtAddr) (length : Nat)
    (writable : Bool) (file : DescriptionId) (offset : Nat) (w : VirtualMemory) : Prop where
  inOrder : InOrder MemoryEvent.IsOpening (CacheEvent.IsMapping space start) v w
  storage : SameStorage v w
  nonempty : v.files.length file ≠ 0
  opened : w.files.image = v.files.image.opening (v.files.fileOf file)
  short : ∀ f, w.files.shortWrites f = v.files.shortWrites f
  noRegion : regionIn? v.spaces space start = none
  regions : ∀ s a, ¬(s = space ∧ a = start) → regionIn? w.spaces s a = regionIn? v.spaces s a
  pages : ∃ count, pagesFor length = .ok count ∧
    regionIn? w.spaces space start = some ⟨count, ⟨v.files.image.opened.length⟩⟩ ∧
    (∀ i, i < count → pageIn? v.spaces space ⟨start.toNat + i * pageSize⟩ = none ∧
      ∃ b, FileBacking.ofStretch ⟨v.files.image.opened.length⟩ offset
          (min length (v.files.length file - offset)) i = .ok b ∧
        pageIn? w.spaces space ⟨start.toNat + i * pageSize⟩ =
          some (.fresh writable .file (.segment b))) ∧
    ∀ s a, ¬(s = space ∧ a ∈ pageStarts start count) →
      pageIn? w.spaces s a = pageIn? v.spaces s a

/-- Nothing speaks against mapping that stretch of the file there. -/
structure Mappable (v : VirtualMemory) (space : SpaceId) (start : VirtAddr) (length : Nat)
    (file : DescriptionId) (offset : Nat) : Prop where
  present : start.toNat ≠ 0
  aligned : start.isAligned = true
  nonzero : length ≠ 0
  whole : offset % pageSize = 0
  user : start.toNat + (length - 1) < kernelBase
  nonempty : v.files.length file ≠ 0
  free : ∃ x, v.spaces.find? space = some x ∧
    x.occupied start ((length + (pageSize - 1)) / pageSize) = false
  reopenable : (v.files.file (v.files.fileOf file)).reopenable = true

theorem Mappable.isUserPage {length : Nat} {file : DescriptionId}
    (h : Mappable v space start length file offset) : start.IsUserPage := by
  refine ⟨h.aligned, ?_, h.present⟩
  have user := h.user
  simp only [VirtAddr.isUser, decide_eq_true_eq]
  omega

/-- Mapping is refused before anything is done, or stops at a page whose place in the file is no
word. -/
inductive MapStops (v : VirtualMemory) (space : SpaceId) (start : VirtAddr) (length : Nat)
    (file : DescriptionId) (offset : Nat) : Stop → VirtualMemory → Prop
  | refused (e : MemoryError) (barred : ¬Mappable v space start length file offset) :
      MapStops v space start length file offset (.refused e) v
  | overflow {i : Nat} {w : VirtualMemory} (mappable : Mappable v space start length file offset)
      (page : i < (length + (pageSize - 1)) / pageSize)
      (far : addressLimit ≤ offset + i * pageSize)
      (inOrder : InOrder MemoryEvent.IsOpening (CacheEvent.IsMapping space start) v w) :
      MapStops v space start length file offset (.violated (.arithmetic .addition)) w

section

variable {length : Nat} {file : DescriptionId} {e : Stop}

theorem MapStops.isRefusalOrFault (h : MapStops v space start length file offset e w) :
    e.IsRefusalOrFault := by
  cases h with
  | refused e => exact .inl ⟨e, rfl⟩
  | overflow => exact .inr ⟨_, rfl⟩

theorem MapStops.of_mappable (h : MapStops v space start length file offset e w)
    (mappable : Mappable v space start length file offset) :
    e = .violated (.arithmetic .addition) := by
  cases h with
  | refused _ barred => exact absurd mappable barred
  | overflow => rfl

theorem MapStops.inOrder (h : MapStops v space start length file offset e w)
    (coherent : Coherent v none) (regions : RegionsBacked v) :
    InOrder MemoryEvent.IsOpening (CacheEvent.IsMapping space start) v w := by
  cases h with
  | refused => exact ⟨coherent, regions, .refl _, .refl _⟩
  | overflow _ _ _ inOrder => exact inOrder

end

/-- No region starts where a page is to be entered: its first page would be there. -/
theorem MappedPages.noRegion {writable : Bool} {covered count : Nat}
    (h : MappedPages v space start writable own offset covered count u) (positive : 0 < count)
    (regions : RegionsBacked v) : regionIn? v.spaces space start = none := by
  cases before : regionIn? v.spaces space start with
  | none => rfl
  | some r =>
    obtain ⟨_, backed⟩ := regions.backed before
    obtain ⟨b, stretch, -⟩ := backed 0 (regions.nonempty before)
    obtain ⟨p, page, -⟩ := Option.bind_eq_some_iff.mp stretch
    rw [h.absent 0 positive] at page
    cases page

section

variable {length count : Nat} {file : DescriptionId} (sum : pagesFor length = .ok count)
  (regions : RegionsBacked v)

include sum regions

/-- Entering the pages stops only where the place of one in the file is no word. -/
private theorem mapPages_ends {writable : Bool} {covered : Nat}
    (mappable : Mappable v space start length file offset) (alive : (v.spaces.find? space).isSome = true)
    (free : ∀ a ∈ pageStarts start count, pageIn? v.spaces space a = none)
    (first : MappedPages v space start writable own offset covered 0 u) :
    ((forRange
        (fun i => do
          let b ← checked (FileBacking.ofStretch own offset covered i)
          let va ← checked (start.addPages i)
          enterPage space va (.fresh writable .file (.segment b)))
        0 count : Paging Unit)).Ends u
      (fun _ w => MappedPages v space start writable own offset covered count w ∧
        u.files.Alike w.files)
      (MapStops v space start length file offset) := by
  refine (ends_forRange (I := fun i left t => i + left = count ∧
      MappedPages v space start writable own offset covered i t ∧ u.files.Alike t.files)
      (fun i left t so_far => ?_) ⟨Nat.zero_add _, first, .refl _⟩).mono
      (fun _ w all => ?_) fun _ _ stops => stops
  · obtain ⟨more, pages, alike⟩ := so_far
    have hi : i < count := by omega
    have next := VirtAddr.addPages_of_user mappable.user sum hi
    have placed := mappable.isUserPage.addPages mappable.user sum hi next
    have fits : i * pageSize < addressLimit := by
      have ps := pageSize_pos
      have top : kernelBase < addressLimit := by decide
      have user := mappable.user
      rw [pagesFor_eq sum, Nat.lt_div_iff_mul_lt ps] at hi
      omega
    rw [ends_bind, ends_checked]
    refine ⟨fun b stretch => ?_, fun f past => ?_⟩
    · rw [ends_bind, next, ends_checked_ok]
      refine (enterPage_ends placed _).mono (fun _ w entered => ?_) fun e w refused => ?_
      · exact ⟨by omega, pages.step next stretch entered, alike.trans entered.files⟩
      · -- The space is still there, and the page is not yet.
        obtain ⟨-, -, gone | present⟩ := refused
        · have live := pages.follows.live space
          rw [gone, alive] at live
          cases live
        · have absent := free _ (mem_pageStarts.mpr ⟨i, hi, rfl⟩)
          rw [← pages.others _ _ fun inside => not_mem_pageStarts_end inside.2] at absent
          rw [absent] at present
          cases present
    · obtain ⟨rfl, far⟩ := FileBacking.ofStretch_error past fits
      exact .overflow mappable (pagesFor_eq sum ▸ hi) far
        (.of_follows pages.coherent regions pages.follows pages.cached)
  · obtain ⟨-, pages, alike⟩ := all
    rw [Nat.zero_add] at pages
    exact ⟨pages, alike⟩

/-- The pages of a mapping are there, and its region is entered. -/
private theorem MappedPages.finish {writable : Bool} (positive : 0 < count)
    (alive : (v.spaces.find? space).isSome = true)
    (nonempty : v.files.length file ≠ 0)
    (pages : MappedPages v space start writable ⟨v.files.image.opened.length⟩ offset
      (min length (v.files.length file - offset)) count u)
    (image : u.files.image = v.files.image.opening (v.files.fileOf file))
    (short : ∀ f, u.files.shortWrites f = v.files.shortWrites f)
    {E : Stop → VirtualMemory → Prop} :
    (enterRegion space start ⟨count, ⟨v.files.image.opened.length⟩⟩).Ends u
      (fun _ w => Mapped v space start length writable file offset
        { w with files := w.files.release ⟨v.files.image.opened.length⟩ }) E := by
  have live : (u.spaces.find? space).isSome = true := by rw [pages.follows.live, alive]
  refine (enterRegion_ends live start ⟨count, ⟨v.files.image.opened.length⟩⟩).mono
    (fun _ w after => ?_) fun _ _ h => h
  obtain ⟨only, entered⟩ := after
  have fields := only.fields
  have noRegion := pages.noRegion positive regions
  have mapped : CacheStep u.cache
      (.mapped space start ⟨count, ⟨v.files.image.opened.length⟩⟩) w.cache := by
    have before : u.cache.region space start = none := (pages.follows.regions _ _).trans noRegion
    rw [only.cache entered]
    exact .mapped before
  have inOrder : InOrder MemoryEvent.IsOpening (CacheEvent.IsMapping space start) v w := by
    refine ⟨only.coherent pages.coherent, pages.regionsBacked positive regions only entered, ?_,
      pages.cached.trans (.one mapped ⟨rfl, rfl⟩)⟩
    rw [only.flat]
    exact pages.follows.happens
  have places : SamePlaces w { w with files := w.files.release ⟨v.files.image.opened.length⟩ } :=
    .of_spaces (by rfl)
  have silent : Follows MemoryEvent.IsOpening w
      { w with files := w.files.release ⟨v.files.image.opened.length⟩ } :=
    places.silent (flat_of_same (fun _ _ => rfl) (fun _ => rfl) rfl rfl FileStore.image_release)
  have released : VirtualMemory.cache
      { w with files := w.files.release ⟨v.files.image.opened.length⟩ } = w.cache :=
    cache_eq (fun _ _ => rfl) (fun _ _ => rfl) FileStore.image_release
      FileStore.alike_release.short
  have all := only.files.trans (FileStore.alike_release (d := ⟨v.files.image.opened.length⟩))
  have storage : SameStorage v w := by
    refine ⟨?_, ?_, ?_, ?_⟩ <;> rw [fields]
    · exact pages.storage.frames
    · exact pages.storage.pool
    · exact pages.storage.swap
    · exact pages.storage.mmu
  refine ⟨⟨inOrder.coherent.of_same rfl (fun _ => rfl) (.refl _) rfl rfl rfl,
    inOrder.regions.follows silent, inOrder.happens.trans silent.happens, ?_⟩,
    ⟨storage.frames, storage.pool, storage.swap, storage.mmu⟩, nonempty, all.image.trans image,
    fun f => (all.short f).trans (short f), noRegion, fun s a other => ?_, count, sum, ?_,
    fun i hi => ⟨pages.absent i hi, ?_⟩, fun s a other => ?_⟩
  · rw [released]
    exact inOrder.cached
  · dsimp only
    rw [entered, if_neg other, pages.follows.regions]
  · dsimp only
    rw [entered, if_pos ⟨rfl, rfl⟩]
  · obtain ⟨b, stretch, page⟩ := pages.pages i hi
    exact ⟨b, stretch, (only.pages _ _).trans page⟩
  · exact (only.pages s a).trans (pages.others s a other)

end

/-- Before the first page is mapped, the file was opened once more. -/
private theorem MappedPages.of_opened {files : FileStore} {f : FileId} {own : DescriptionId}
    {writable : Bool} {covered : Nat} (h : Coherent v none)
    (image : files.image = v.files.image.opening f)
    (short : ∀ g, files.shortWrites g = v.files.shortWrites g) :
    MappedPages v space start writable own offset covered 0 { v with files } := by
  have coherent : Coherent { v with files } none :=
    h.of_same rfl (fun _ => rfl) (.refl _) rfl rfl rfl
  have places : SamePlaces v { v with files } := .of_spaces (by rfl)
  have opening : Happens MemoryEvent.IsOpening v.flat ⟨v.flat.page, files.image⟩ := by
    rw [image]
    exact .one (e := .opened f) trivial trivial
  have opened : VirtualMemory.cache { v with files } =
      { v.cache with files := v.cache.files.opening f } :=
    cache_eq (fun _ _ => rfl) (fun _ _ => rfl) image short
  refine ⟨coherent, places.follows opening, ?_, ⟨rfl, rfl, rfl, rfl⟩, fun i hi => ?_,
    fun i hi => ?_, fun _ _ _ => rfl⟩
  · rw [opened]
    exact .one .opened trivial
  · omega
  · omega

private theorem mapUserRange_ends (h : Coherent v none) (regions : RegionsBacked v)
    {length : Nat} (nonzero : length ≠ 0) (user : start.toNat + (length - 1) < kernelBase)
    (file : DescriptionId)
    (admitted : v.files.length file ≠ 0 →
      (∃ x, v.spaces.find? space = some x ∧
        x.occupied start ((length + (pageSize - 1)) / pageSize) = false) →
      (v.files.file (v.files.fileOf file)).reopenable = true →
      Mappable v space start length file offset) (writable : Bool) :
    (mapFile.mapUserRange space start length writable file offset).Ends v
      (fun a w => a = start ∧ Mapped v space start length writable file offset w ∧
        Mappable v space start length file offset)
      (MapStops v space start length file offset) := by
  unfold mapFile.mapUserRange
  rw [ends_bind, ends_gets, ends_ite]
  refine ⟨fun empty => .refused _ fun m => m.nonempty empty, fun nonempty => ?_⟩
  have top : kernelBase + pageSize < addressLimit := by decide
  have sum : pagesFor length = .ok ((length + (pageSize - 1)) / pageSize) := by
    have word := addWords_eq_ok_iff.mpr
      ⟨show length + (pageSize - 1) < addressLimit by omega, rfl⟩
    rw [pagesFor, word]
    rfl
  have positive : 0 < (length + (pageSize - 1)) / pageSize :=
    Nat.div_pos (by omega) pageSize_pos
  rw [ends_bind, sum, ends_checked_ok, ends_bind, ends_get]
  cases found : v.spaces.find? space with
  | none =>
    refine .refused _ fun m => ?_
    obtain ⟨x, there, -⟩ := m.free
    rw [found] at there
    cases there
  | some x =>
    dsimp only
    rw [ends_ite]
    refine ⟨fun occupied => .refused _ fun m => ?_, fun unoccupied => ?_⟩
    · obtain ⟨y, there, free⟩ := m.free
      rw [found] at there
      cases there
      rw [occupied] at free
      cases free
    · have alive : (v.spaces.find? space).isSome = true := by rw [found, Option.isSome_some]
      rw [ends_bind, ends_modifyGet]
      dsimp only
      rcases v.files.reopen_cases (d := file) with ⟨fixed, refused⟩ | ⟨opens, own, image, short⟩
      · rw [refused]
        refine .refused _ fun m => ?_
        have opens := m.reopenable
        rw [fixed] at opens
        cases opens
      · rw [own]
        have mappable := admitted nonempty ⟨x, found, by simpa using unoccupied⟩ opens
        have first : MappedPages v space start writable ⟨v.files.image.opened.length⟩ offset
            (min length (v.files.length file - offset)) 0
            { v with files := (v.files.reopen file).2 } := .of_opened h image short
        dsimp only
        rw [ends_bind]
        refine (mapPages_ends sum regions mappable alive
          (fun a => absent_of_not_occupied found unoccupied) first).mono (fun _ u all => ?_)
          fun _ _ stops => stops
        obtain ⟨pages, alike⟩ := all
        rw [ends_bind]
        refine (pages.finish sum regions positive alive nonempty (alike.image.trans image)
          fun f => (alike.short f).trans (short f)).mono (fun _ w mapped => ?_) fun _ _ h => h
        rw [ends_bind, ends_modify, ends_bind, ends_emit, ends_pure]
        exact ⟨rfl, mapped, mappable⟩

theorem mapFile_ends (h : Coherent v none) (regions : RegionsBacked v) (length : Nat)
    (writable : Bool) (file : DescriptionId) :
    (mapFile space start length writable file offset).Ends v
      (fun a w => a = start ∧ Mapped v space start length writable file offset w ∧
        Mappable v space start length file offset)
      (MapStops v space start length file offset) := by
  unfold mapFile
  rw [ends_ite]
  refine ⟨fun bad => .refused _ fun m => ?_, fun arguments => ?_⟩
  · rcases bad with zero | unaligned | zero | broken
    · exact m.present zero
    · rw [m.aligned] at unaligned
      cases unaligned
    · exact m.nonzero zero
    · exact broken m.whole
  · rw [not_or, not_or, not_or, Bool.not_eq_false, not_not] at arguments
    obtain ⟨present, aligned, nonzero, whole⟩ := arguments
    have top : kernelBase < addressLimit := by decide
    cases range : start.add? (length - 1) with
    | none =>
      refine .refused _ fun m => ?_
      have word := addWords_eq_ok_iff.mpr
        ⟨show start.toNat + (length - 1) < addressLimit from Nat.lt_trans m.user top, rfl⟩
      rw [VirtAddr.add?, word] at range
      cases range
    | some last =>
      have sum := VirtAddr.toNat_of_add? range
      dsimp only
      rw [ends_ite]
      refine ⟨fun beyond => .refused _ fun m => ?_, fun within => ?_⟩
      · have user := m.user
        simp only [VirtAddr.isUser, decide_eq_false_iff_not] at beyond
        omega
      · simp only [VirtAddr.isUser, decide_eq_false_iff_not, Decidable.not_not, sum] at within
        exact mapUserRange_ends h regions nonzero within file
          (fun nonempty free opens =>
            ⟨present, aligned, nonzero, whole, within, nonempty, free, opens⟩) writable

end VirtualMemory

end KernelCore
