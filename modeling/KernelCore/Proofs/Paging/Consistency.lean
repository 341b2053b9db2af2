import KernelCore.Proofs.Paging.Serving

/-!
# The structures of memory agree

Pages, frames, page tables, physical pages and swap slots point at each other. In every state that
requests lead to, each pointer has its counterpart, so nothing is lost and nothing is held twice.
-/
namespace KernelCore

/-- The bookkeeping of memory contradicts itself. -/
def Violation.isContradiction : Violation → Bool
  | .frameNotAllocated _ | .victimWithoutOwner _ | .untouchedInFrame .. | .slotFreedTwice _
  | .residentWithSlot | .bitOutOfRange _ | .pageReleasedTwice _ => true
  | _ => false

namespace VirtualMemory

open Transition

variable {v : VirtualMemory}

/-! ## Counting -/

private theorem countP_range {α : Type} (p : α → Bool) (l : List α) :
    (List.range l.length).countP (fun i => (l[i]?).any p) = l.countP p := by
  induction l using List.reverseRecOn with
  | nil => rfl
  | append_singleton l x ih =>
    have front : (List.range l.length).countP (fun i => ((l ++ [x])[i]?).any p) =
        (List.range l.length).countP (fun i => (l[i]?).any p) := by
      apply List.countP_congr
      intro i hi
      rw [List.getElem?_append_left (List.mem_range.mp hi)]
    rw [List.length_append, List.length_singleton, List.range_succ, List.countP_append, front, ih,
      List.countP_append]
    simp

/-- A count of places can be taken over any list of them without repetitions. -/
private theorem length_eq_countP {α : Type} {p : α → Bool} {l : List α} {places : List Nat}
    (nodup : places.Nodup) (mem : ∀ i, i ∈ places ↔ ∃ x, l[i]? = some x ∧ p x = true) :
    places.length = l.countP p := by
  have same : places.Perm ((List.range l.length).filter fun i => (l[i]?).any p) := by
    rw [List.perm_ext_iff_of_nodup nodup (List.nodup_range.filter _)]
    intro i
    rw [mem, List.mem_filter, List.mem_range, Option.any_eq_true]
    constructor
    · rintro ⟨x, hx, hp⟩
      exact ⟨(List.getElem?_eq_some_iff.mp hx).1, x, hx, hp⟩
    · rintro ⟨-, x, hx, hp⟩
      exact ⟨x, hx, hp⟩
  rw [same.length_eq, ← List.countP_eq_length_filter, countP_range]

/-- All pages of all spaces. -/
def allPages (v : VirtualMemory) : List (PageRef × Page) :=
  v.spaces.entries.flatMap fun x => x.2.pages.entries.map fun y => (⟨x.1, y.1⟩, y.2)

theorem mem_allPages {o : PageRef} {p : Page} :
    (o, p) ∈ v.allPages ↔ pageIn? v.spaces o.space o.va = some p := by
  unfold allPages pageIn?
  simp only [List.mem_flatMap, List.mem_map, Option.bind_eq_some_iff, Table.find?_eq_some_iff,
    Prod.exists, Prod.mk.injEq]
  constructor
  · rintro ⟨s, x, hx, a, q, hq, rfl, rfl⟩
    exact ⟨x, hx, hq⟩
  · rintro ⟨x, hx, hp⟩
    exact ⟨o.space, x, hx, o.va, p, hp, rfl, rfl⟩

theorem allPages_pairwise (v : VirtualMemory) : v.allPages.Pairwise fun x y => x.1 ≠ y.1 := by
  have keys : ∀ {κ α : Type} [Ranked κ] (t : Table κ α), t.entries.Pairwise fun x y => x.1 ≠ y.1 :=
    fun t => List.pairwise_map.mp t.keys_nodup
  unfold allPages
  rw [List.pairwise_flatMap]
  constructor
  · intro x _
    rw [List.pairwise_map]
    refine (keys x.2.pages).imp fun ne same => ne ?_
    exact congrArg PageRef.va same
  · refine (keys v.spaces).imp fun {x y} ne => ?_
    intro b hb c hc same
    obtain ⟨_, _, rfl⟩ := List.mem_map.mp hb
    obtain ⟨_, _, rfl⟩ := List.mem_map.mp hc
    exact ne (congrArg PageRef.space same)

/-- What no two pages share is listed only once. -/
private theorem nodup_filterMap_allPages {β : Type} {g : Page → Option β}
    (unshared : ∀ (o : PageRef) p (o' : PageRef) p' b,
      pageIn? v.spaces o.space o.va = some p → g p = some b →
      pageIn? v.spaces o'.space o'.va = some p' → g p' = some b → o = o') :
    (v.allPages.filterMap fun x => g x.2).Nodup := by
  have apart : v.allPages.Pairwise fun x y => ∀ b, g x.2 = some b → ∀ b', g y.2 = some b' →
      b ≠ b' := by
    refine v.allPages_pairwise.imp_of_mem fun {x y} hx hy ne b hb b' hb' same => ne ?_
    subst same
    exact unshared x.1 x.2 y.1 y.2 b (mem_allPages.mp hx) hb (mem_allPages.mp hy) hb'
  exact apart.filterMap _ fun _ _ h => h

/-- The number of pages that are in memory. -/
def residentCount (v : VirtualMemory) : Nat := v.allPages.countP fun x => x.2.isResident

/-- The number of anonymous pages that are out in the swap area. -/
def swappedCount (v : VirtualMemory) : Nat := v.allPages.countP fun x => x.2.slot.isSome

theorem Coherent.count_frames (h : Coherent v none) : v.frames.count = v.residentCount := by
  have nodup : (v.allPages.filterMap fun x => x.2.frame).Nodup := by
    refine nodup_filterMap_allPages fun o p o' p' f page frame page' frame' => ?_
    obtain ⟨x, hx, owner⟩ := h.resident page frame
    obtain ⟨x', hx', owner'⟩ := h.resident page' frame'
    rw [hx] at hx'
    cases hx'
    exact Option.some.inj (owner.symm.trans owner')
  have places : ((v.allPages.filterMap fun x => x.2.frame).map FrameId.index).Nodup := by
    refine List.pairwise_map.mpr (nodup.imp fun {f g} ne same => ne ?_)
    cases f
    cases g
    exact congrArg FrameId.mk same
  have count : ((v.allPages.filterMap fun x => x.2.frame).map FrameId.index).length =
      v.frames.count := by
    refine length_eq_countP places fun i => ?_
    have used : (∃ x, v.frames.frames[i]? = some x ∧ x.isSome = true) ↔
        ∃ x, v.frames.frame? ⟨i⟩ = some x := by
      unfold FrameTable.frame?
      cases v.frames.frames[i]? with
      | none => simp
      | some x => simp [Option.isSome_iff_exists]
    rw [used, List.mem_map]
    constructor
    · rintro ⟨f, mem, rfl⟩
      obtain ⟨⟨o, p⟩, hp, frame⟩ := List.mem_filterMap.mp mem
      obtain ⟨x, hx, -⟩ := h.resident (mem_allPages.mp hp) frame
      exact ⟨x, hx⟩
    · rintro ⟨x, hx⟩
      cases owner : x.owner with
      | none => cases h.unowned hx owner
      | some o =>
        obtain ⟨p, page, frame⟩ := h.owned hx owner
        exact ⟨⟨i⟩, List.mem_filterMap.mpr ⟨(o, p), mem_allPages.mpr page, frame⟩, rfl⟩
  rw [← count, List.length_map, List.length_filterMap_eq_countP]
  rfl

theorem Coherent.count_slots (h : Coherent v none) : v.swap.usedCount = v.swappedCount := by
  have nodup : (v.allPages.filterMap fun x => x.2.slot).Nodup := by
    refine nodup_filterMap_allPages fun o p o' p' i page slot page' slot' => ?_
    obtain ⟨space, va⟩ := h.unshared page slot page' slot'
    cases o
    cases o'
    cases space
    cases va
    rfl
  have places : ((v.allPages.filterMap fun x => x.2.slot).map SwapSlot.index).Nodup := by
    refine List.pairwise_map.mpr (nodup.imp fun {i j} ne same => ne ?_)
    cases i
    cases j
    exact congrArg SwapSlot.mk same
  have count : ((v.allPages.filterMap fun x => x.2.slot).map SwapSlot.index).length =
      v.swap.used.bits.countP (· == true) := by
    refine length_eq_countP places fun i => ?_
    have used : (∃ x, v.swap.used.bits[i]? = some x ∧ (x == true) = true) ↔ v.swap.Used ⟨i⟩ := by
      unfold SwapArea.Used
      simp
    rw [used, List.mem_map, h.used]
    constructor
    · rintro ⟨j, mem, rfl⟩
      obtain ⟨⟨o, p⟩, hp, slot⟩ := List.mem_filterMap.mp mem
      exact ⟨o.space, o.va, p, mem_allPages.mp hp, slot⟩
    · rintro ⟨s, a, p, page, slot⟩
      have mem : ((⟨s, a⟩ : PageRef), p) ∈ v.allPages := mem_allPages.mpr page
      exact ⟨⟨i⟩, List.mem_filterMap.mpr ⟨_, mem, slot⟩, rfl⟩
  have listed : (v.allPages.filterMap fun x => x.2.slot).length = v.swappedCount := by
    rw [List.length_filterMap_eq_countP]
    rfl
  rw [List.length_map, listed] at count
  exact (Bitmap.countSet_eq v.swap.used).trans count.symm

/-! ## The invariant -/

/-- The page at `o` is in the frame `f`. -/
def ResidesIn (v : VirtualMemory) (o : PageRef) (f : FrameId) : Prop :=
  ∃ p, pageIn? v.spaces o.space o.va = some p ∧ p.frame = some f

/-- The page at `o` is an anonymous page that was put out to the slot `i`. -/
def SwappedTo (v : VirtualMemory) (o : PageRef) (i : SwapSlot) : Prop :=
  ∃ p, pageIn? v.spaces o.space o.va = some p ∧ p.kind = .anonymous (some i)

/-- What the parts of memory say of each other. -/
structure Consistent (v : VirtualMemory) : Prop where
  /-- A page is in a frame exactly if the frame names it as its owner. -/
  frame : ∀ o f, v.ResidesIn o f ↔ ∃ x, v.frames.frame? f = some x ∧ x.owner = some o
  /-- Every frame is owned by exactly one page, and none is pinned. -/
  owner : ∀ f x, v.frames.frame? f = some x → x.pinned = false ∧ ∃! o, v.ResidesIn o f
  /-- The hardware translates exactly the pages in memory, to where they are. -/
  translation : ∀ s a pa writable,
    (∃ e, v.mmu.mapping? s a = some e ∧ e.target = (pa, writable)) ↔
      ∃ p f x, pageIn? v.spaces s a = some p ∧ p.frame = some f ∧ p.writable = writable ∧
        v.frames.frame? f = some x ∧ x.page = pa
  distinct : ∀ f g x y, v.frames.frame? f = some x → v.frames.frame? g = some y →
    x.page = y.page → f = g
  notFree : ∀ f x, v.frames.frame? f = some x → x.page ∉ v.pool.free
  /-- A slot is in use exactly if one page was put out to it. -/
  slot : ∀ i, v.swap.Used i ↔ ∃! o, v.SwappedTo o i
  /-- A page in memory holds no slot, and it is not untouched. -/
  resident : ∀ s a p, pageIn? v.spaces s a = some p → p.isResident = true →
    p.slot = none ∧ p.isUntouched = false
  framesInUse : v.frames.count = v.residentCount
  slotsInUse : v.swap.usedCount = v.swappedCount

theorem swappedTo_iff {o : PageRef} {i : SwapSlot} :
    v.SwappedTo o i ↔ ∃ p, pageIn? v.spaces o.space o.va = some p ∧ p.slot = some i := by
  have kind : ∀ p : Page, p.kind = .anonymous (some i) ↔ p.slot = some i := by
    intro p
    unfold Page.slot
    cases p.kind <;> simp
  simp only [SwappedTo, kind]

theorem Coherent.residesIn_iff (h : Coherent v none) {o : PageRef} {f : FrameId} :
    v.ResidesIn o f ↔ ∃ x, v.frames.frame? f = some x ∧ x.owner = some o := by
  constructor
  · rintro ⟨p, page, frame⟩
    exact h.resident page frame
  · rintro ⟨x, hx, owner⟩
    exact h.owned hx owner

theorem Coherent.unique_owner (h : Coherent v none) {f : FrameId} {x : Frame}
    (frame : v.frames.frame? f = some x) : ∃! o, v.ResidesIn o f := by
  cases owner : x.owner with
  | none => cases h.unowned frame owner
  | some o =>
    refine ⟨o, h.residesIn_iff.mpr ⟨x, frame, owner⟩, fun o' there => ?_⟩
    obtain ⟨y, hy, owner'⟩ := h.residesIn_iff.mp there
    rw [frame] at hy
    cases hy
    exact Option.some.inj (owner'.symm.trans owner)

theorem Coherent.translation_iff (h : Coherent v none) (s : SpaceId) (a : VirtAddr)
    (pa : PhysAddr) (writable : Bool) :
    (∃ e, v.mmu.mapping? s a = some e ∧ e.target = (pa, writable)) ↔
      ∃ p f x, pageIn? v.spaces s a = some p ∧ p.frame = some f ∧ p.writable = writable ∧
        v.frames.frame? f = some x ∧ x.page = pa := by
  have entry : (∃ e, v.mmu.mapping? s a = some e ∧ e.target = (pa, writable)) ↔
      (v.mmu.mapping? s a).map MmuEntry.target = some (pa, writable) := by
    rw [Option.map_eq_some_iff]
  rw [entry, h.translated]
  simp only [Option.bind_eq_some_iff, Option.map_eq_some_iff, Prod.mk.injEq]
  constructor
  · rintro ⟨p, page, f, frame, x, hx, place, right⟩
    exact ⟨p, f, x, page, frame, right, hx, place⟩
  · rintro ⟨p, f, x, page, frame, right, hx, place⟩
    exact ⟨p, page, f, frame, x, hx, place, right⟩

theorem Coherent.used_iff (h : Coherent v none) (i : SwapSlot) :
    v.swap.Used i ↔ ∃! o, v.SwappedTo o i := by
  rw [h.used]
  constructor
  · rintro ⟨s, a, p, page, slot⟩
    refine ⟨⟨s, a⟩, swappedTo_iff.mpr ⟨p, page, slot⟩, fun o there => ?_⟩
    obtain ⟨q, page', slot'⟩ := swappedTo_iff.mp there
    obtain ⟨space, va⟩ := h.unshared page' slot' page slot
    cases o
    cases space
    cases va
    rfl
  · rintro ⟨o, there, -⟩
    obtain ⟨p, page, slot⟩ := swappedTo_iff.mp there
    exact ⟨o.space, o.va, p, page, slot⟩

theorem Coherent.consistent (h : Coherent v none) : Consistent v where
  frame _ _ := h.residesIn_iff
  owner _ _ frame := ⟨h.unpinned frame, h.unique_owner frame⟩
  translation := h.translation_iff
  distinct _ _ _ _ hf hg same := h.distinct hf hg same
  notFree f x frame := by
    have taken : v.pool.Taken x.page := (h.taken x.page).mpr ⟨f, x, frame, rfl⟩
    exact taken.2
  slot := h.used_iff
  resident s a p page resident := by
    obtain ⟨f, frame⟩ := Option.isSome_iff_exists.mp resident
    obtain ⟨touched, slotless⟩ := h.settled page frame
    exact ⟨slotless, touched⟩
  framesInUse := h.count_frames
  slotsInUse := h.count_slots

/-- No request is to blame for a contradiction. -/
theorem Request.isContradiction_of_blamed {r : Request} {x : Violation} (h : r.Blamed v x) :
    x.isContradiction = false := by
  have misnamed : ∀ {f}, v.Misnamed f x → x.isContradiction = false := by
    rintro f (⟨-, rfl⟩ | ⟨_, -, -, rfl⟩) <;> rfl
  cases r with
  | createSpace =>
    obtain ⟨rfl, -⟩ := h
    rfl
  | allocateLazy space va writable target source =>
    cases source with
    | zeroFill => exact h.elim
    | segment file offset readBytes zeroBytes =>
      rcases h with h | ⟨d, made⟩
      · exact misnamed h
      · unfold FileBacking.make at made
        split at made
        · cases made
          rfl
        · split at made
          · cases made
          · cases made
            rfl
  | loadSegment =>
    rcases h with h | ⟨f, rfl⟩
    · exact misnamed h
    · rfl
  | mapFile =>
    rcases h with h | ⟨f, rfl⟩
    · exact misnamed h
    · rfl
  | poke => rw [h.1]; rfl
  | dropFile | setFileLength | setShortReads | setShortWrites | setReopenable | fileContents
  | fileWrites => exact misnamed h
  | _ => exact h.elim

/-- Whatever was requested of a machine with any number of physical pages and of sectors of swap,
its bookkeeping of memory is consistent, and a further request finds no contradiction in it: if it
stops the kernel at all, then for what was asked. -/
theorem consistent_after (capacity sectors : Nat) (rs : List Request) :
    Consistent (after (new capacity sectors).1 rs) ∧
      ∀ r x, (perform r (after (new capacity sectors).1 rs)).result = .error x →
        r.Blamed (after (new capacity sectors).1 rs) x ∧ x.isContradiction = false := by
  obtain ⟨coherent, regions⟩ := inOrder_after capacity sectors rs
  refine ⟨coherent.consistent, fun r x stopped => ?_⟩
  have blamed := ((ends_iff.mp (perform_ends coherent regions r)).2 x stopped).2
  exact ⟨blamed, Request.isContradiction_of_blamed blamed⟩

end VirtualMemory

end KernelCore
