import KernelCore.Proofs.Paging.Consistency

/-!
# Regions and their pages

A region is recorded apart from the pages it is made of. They come and go together: a mapping adds
its pages and its region or nothing at all, and taking it back takes exactly them. So whatever
becomes of the pages in between, each of them is there and shows the file of its region.
-/
namespace KernelCore.VirtualMemory

open Transition

variable {v w : VirtualMemory} {space : SpaceId} {start a : VirtAddr} {p : Page} {count : Nat}

/-- A page that shows a stretch of a file is a file page, loaded or not. -/
theorem type_of_mapped? {b : FileBacking} (h : p.mapped? = some b) : p.type = .file := by
  unfold Page.mapped? at h
  unfold Page.type
  split at h
  · simp [*]
  · simp [*]
  · cases h

/-! ## Regions do not overlap -/

/-- Regions do not overlap, and every page of a region is a file page of its description: page
number `i` is backed `i` pages behind where the region starts in the file. -/
structure RegionsHold (v : VirtualMemory) : Prop where
  apart : ∀ s a r a' r', regionIn? v.spaces s a = some r → regionIn? v.spaces s a' = some r' →
    a ≠ a' → a.toNat + r.pageCount * pageSize ≤ a'.toNat ∨
      a'.toNat + r'.pageCount * pageSize ≤ a.toNat
  shown : ∀ s a r, regionIn? v.spaces s a = some r → ∃ offset, ∀ i, i < r.pageCount →
    ∃ p b, pageIn? v.spaces s ⟨a.toNat + i * pageSize⟩ = some p ∧ p.type = .file ∧
      p.mapped? = some b ∧ b.file = r.file ∧ b.offset = offset + i * pageSize

/-- A region starts where its first page does. -/
theorem RegionsBacked.aligned (h : RegionsBacked v) (coherent : Coherent v none) {r : Region}
    (region : regionIn? v.spaces space start = some r) : start.isAligned = true := by
  obtain ⟨offset, backed⟩ := h.backed region
  obtain ⟨b, mapped, -⟩ := backed 0 (h.nonempty region)
  obtain ⟨p, page, -⟩ := Option.bind_eq_some_iff.mp mapped
  rw [Nat.zero_mul, Nat.add_zero] at page
  exact coherent.aligned page

/-- A region does not reach another one that starts behind it. -/
theorem RegionsBacked.ends_before (h : RegionsBacked v) (coherent : Coherent v none)
    {a' : VirtAddr} {r r' : Region} (region : regionIn? v.spaces space a = some r)
    (region' : regionIn? v.spaces space a' = some r') (behind : a.toNat < a'.toNat) :
    a.toNat + r.pageCount * pageSize ≤ a'.toNat := by
  by_contra reaches
  have aligned := h.aligned coherent region
  have aligned' := h.aligned coherent region'
  simp only [VirtAddr.isAligned, decide_eq_true_eq] at aligned aligned'
  -- The start of the other region would be the start of page number `i` of this one.
  obtain ⟨i, distance⟩ : ∃ i, a'.toNat = a.toNat + i * pageSize := by
    refine ⟨(a'.toNat - a.toNat) / pageSize, ?_⟩
    have whole : (a'.toNat - a.toNat) / pageSize * pageSize = a'.toNat - a.toNat :=
      Nat.div_mul_cancel ((Nat.dvd_sub (Nat.dvd_of_mod_eq_zero aligned')
        (Nat.dvd_of_mod_eq_zero aligned)))
    omega
  have inside : i < r.pageCount := by
    have short : i * pageSize < r.pageCount * pageSize := by omega
    exact Nat.lt_of_mul_lt_mul_right short
  have same := h.disjoint region region' inside (h.nonempty region') (by omega)
  subst same
  omega

theorem RegionsBacked.hold (h : RegionsBacked v) (coherent : Coherent v none) : RegionsHold v where
  apart := by
    intro s a r a' r' region region' different
    rcases Nat.lt_trichotomy a.toNat a'.toNat with before | same | behind
    · exact .inl (h.ends_before coherent region region' before)
    · exact absurd (congrArg VirtAddr.mk same) different
    · exact .inr (h.ends_before coherent region' region behind)
  shown := by
    intro s a r region
    obtain ⟨offset, backed⟩ := h.backed region
    refine ⟨offset, fun i hi => ?_⟩
    obtain ⟨b, mapped, file, position⟩ := backed i hi
    obtain ⟨p, page, shows⟩ := Option.bind_eq_some_iff.mp mapped
    exact ⟨p, b, page, type_of_mapped? shows, shows, file, position⟩

/-! ## Counting the pages of a range -/

theorem length_pageStarts : (pageStarts start count).length = count := by
  simp [pageStarts]

theorem pageStarts_nodup : (pageStarts start count).Nodup := by
  refine List.pairwise_map.mpr (List.nodup_range.imp fun {i j} different same => different ?_)
  have product := Nat.add_left_cancel (VirtAddr.mk.inj same)
  exact Nat.eq_of_mul_eq_mul_right pageSize_pos product

/-- If the pages of a range are all that one state has more than another, it has that many more. -/
theorem length_allPages_of_range
    (absent : ∀ a ∈ pageStarts start count, pageIn? v.spaces space a = none)
    (present : ∀ a ∈ pageStarts start count, (pageIn? w.spaces space a).isSome = true)
    (others : ∀ s a, ¬(s = space ∧ a ∈ pageStarts start count) →
      pageIn? w.spaces s a = pageIn? v.spaces s a) :
    w.allPages.length = v.allPages.length + count := by
  have places : ∀ (u : VirtualMemory) (o : PageRef),
      o ∈ u.allPages.map Prod.fst ↔ (pageIn? u.spaces o.space o.va).isSome = true := by
    intro u o
    rw [List.mem_map, Option.isSome_iff_exists]
    constructor
    · rintro ⟨⟨o, p⟩, mem, rfl⟩
      exact ⟨p, mem_allPages.mp mem⟩
    · rintro ⟨p, page⟩
      exact ⟨(o, p), mem_allPages.mpr page, rfl⟩
  have nodup : ∀ u : VirtualMemory, (u.allPages.map Prod.fst).Nodup :=
    fun u => List.pairwise_map.mpr u.allPages_pairwise
  have range : ((pageStarts start count).map (PageRef.mk space)).Nodup :=
    List.pairwise_map.mpr (pageStarts_nodup.imp fun different same =>
      different (congrArg PageRef.va same))
  have fresh : ∀ o ∈ v.allPages.map Prod.fst,
      ∀ o' ∈ (pageStarts start count).map (PageRef.mk space), o ≠ o' := by
    rintro o here _ there rfl
    obtain ⟨a, ha, rfl⟩ := List.mem_map.mp there
    rw [places, absent a ha] at here
    cases here
  have same : (w.allPages.map Prod.fst).Perm
      (v.allPages.map Prod.fst ++ (pageStarts start count).map (PageRef.mk space)) := by
    rw [List.perm_ext_iff_of_nodup (nodup w) (List.nodup_append.mpr ⟨nodup v, range, fresh⟩)]
    intro o
    obtain ⟨s, a⟩ := o
    rw [List.mem_append, places, places, List.mem_map]
    dsimp only
    by_cases inside : s = space ∧ a ∈ pageStarts start count
    · obtain ⟨rfl, ha⟩ := inside
      simp [present a ha, ha]
    · rw [others s a inside]
      constructor
      · exact .inl
      · rintro (page | ⟨b, hb, same⟩)
        · exact page
        · cases same
          exact absurd ⟨rfl, hb⟩ inside
  have lengths := same.length_eq
  rwa [List.length_append, List.length_map, List.length_map, List.length_map,
    length_pageStarts] at lengths

/-! ## Mapping and taking back -/

/-- A range of file pages was added, and the region they make up; nothing else changed but who
holds the files. -/
structure RegionAdded (v : VirtualMemory) (space : SpaceId) (start : VirtAddr) (count : Nat)
    (w : VirtualMemory) : Prop where
  absent : ∀ a ∈ pageStarts start count, pageIn? v.spaces space a = none
  pages : ∀ a ∈ pageStarts start count,
    ∃ p, pageIn? w.spaces space a = some p ∧ p.type = .file
  otherPages : ∀ s a, ¬(s = space ∧ a ∈ pageStarts start count) →
    pageIn? w.spaces s a = pageIn? v.spaces s a
  pageCount : w.allPages.length = v.allPages.length + count
  noRegion : regionIn? v.spaces space start = none
  region : ∃ file, regionIn? w.spaces space start = some ⟨count, file⟩
  otherRegions : ∀ s a, ¬(s = space ∧ a = start) → regionIn? w.spaces s a = regionIn? v.spaces s a
  storage : SameStorage v w

/-- A region was taken out with its pages, all of them file pages; no other page and no other region
changed, and no slot of the swap area. -/
structure RegionRemoved (v : VirtualMemory) (space : SpaceId) (start : VirtAddr) (r : Region)
    (w : VirtualMemory) : Prop where
  pages : ∀ a ∈ pageStarts start r.pageCount,
    ∃ p, pageIn? v.spaces space a = some p ∧ p.type = .file ∧ p.slot = none
  absent : ∀ a ∈ pageStarts start r.pageCount, pageIn? w.spaces space a = none
  otherPages : ∀ s a, ¬(s = space ∧ a ∈ pageStarts start r.pageCount) →
    pageIn? w.spaces s a = pageIn? v.spaces s a
  pageCount : v.allPages.length = w.allPages.length + r.pageCount
  region : regionIn? w.spaces space start = none
  otherRegions : ∀ s a, ¬(s = space ∧ a = start) → regionIn? w.spaces s a = regionIn? v.spaces s a
  swap : w.swap = v.swap
  slots : ∀ i, w.swap.Used i ↔ ∃! o, w.SwappedTo o i

theorem Mapped.regionAdded {length offset : Nat} {writable : Bool} {file : DescriptionId}
    (h : Mapped v space start length writable file offset w) :
    RegionAdded v space start ((length + (pageSize - 1)) / pageSize) w := by
  obtain ⟨count, sum, region, pages, others⟩ := h.pages
  rw [← pagesFor_eq sum]
  have absent : ∀ a ∈ pageStarts start count, pageIn? v.spaces space a = none := by
    intro a ha
    obtain ⟨i, hi, rfl⟩ := mem_pageStarts.mp ha
    exact (pages i hi).1
  have present : ∀ a ∈ pageStarts start count,
      ∃ p, pageIn? w.spaces space a = some p ∧ p.type = .file := by
    intro a ha
    obtain ⟨i, hi, rfl⟩ := mem_pageStarts.mp ha
    obtain ⟨-, b, -, page⟩ := pages i hi
    exact ⟨_, page, rfl⟩
  have total : w.allPages.length = v.allPages.length + count := by
    refine length_allPages_of_range absent (fun a ha => ?_) others
    obtain ⟨p, page, -⟩ := present a ha
    rw [page, Option.isSome_some]
  exact ⟨absent, present, others, total, h.noRegion, ⟨_, region⟩, h.regions, h.storage⟩

theorem Unmapped.regionRemoved {r : Region} (h : Unmapped v space start w)
    (regions : RegionsBacked v) (region : regionIn? v.spaces space start = some r) :
    RegionRemoved v space start r w := by
  have ofRegion : ∀ a, v.RegionPages space start a ↔ a ∈ pageStarts start r.pageCount :=
    fun a => regionPages_iff region
  obtain ⟨offset, backed⟩ := regions.backed region
  have pages : ∀ a ∈ pageStarts start r.pageCount,
      ∃ p, pageIn? v.spaces space a = some p ∧ p.type = .file ∧ p.slot = none := by
    intro a ha
    obtain ⟨i, hi, rfl⟩ := mem_pageStarts.mp ha
    obtain ⟨b, mapped, -⟩ := backed i hi
    obtain ⟨p, page, shows⟩ := Option.bind_eq_some_iff.mp mapped
    exact ⟨p, page, type_of_mapped? shows, slot_of_mapped? shows⟩
  have absent : ∀ a ∈ pageStarts start r.pageCount, pageIn? w.spaces space a = none :=
    fun a ha => h.absent a ((ofRegion a).mpr ha)
  have others : ∀ s a, ¬(s = space ∧ a ∈ pageStarts start r.pageCount) →
      pageIn? w.spaces s a = pageIn? v.spaces s a := by
    intro s a other
    rw [← ofRegion] at other
    exact h.others s a other
  have total : v.allPages.length = w.allPages.length + r.pageCount := by
    refine length_allPages_of_range absent (fun a ha => ?_) fun s a other => (others s a other).symm
    obtain ⟨p, page, -⟩ := pages a ha
    rw [page, Option.isSome_some]
  refine ⟨pages, absent, others, total, ?_, fun s a other => ?_, h.swap, h.inOrder.coherent.used_iff⟩
  · rw [h.regions, if_pos ⟨rfl, rfl⟩]
  · rw [h.regions, if_neg other]

/-- Whatever was requested of a machine, the regions of its spaces do not overlap and each of their
pages is there and shows the file of its region. A mapping that is refused changes nothing at all;
one that is made adds as many pages as hold its length, and their region. Taking a mapping back
fails only if there is none, and takes exactly its pages, none of which is anonymous or holds a
slot. -/
theorem regions_consistent_after (capacity sectors : Nat) (rs : List Request) :
    let v := after (new capacity sectors).1 rs
    RegionsHold v ∧
      (∀ space start length writable file offset,
        (mapFile space start length writable file offset).Ends v
          (fun a w => a = start ∧
            RegionAdded v space start ((length + (pageSize - 1)) / pageSize) w)
          (fun e w => ∀ reason, e = .refused reason → w = v)) ∧
      ∀ space start, (unmapFile space start).Ends v
        (fun _ w => ∃ r, regionIn? v.spaces space start = some r ∧
          RegionRemoved v space start r w)
        (fun e w => regionIn? v.spaces space start = none ∧ e.IsRefusal ∧ w = v) := by
  intro v
  obtain ⟨coherent, regions⟩ := inOrder_after capacity sectors rs
  refine ⟨regions.hold coherent, fun space start length writable file offset => ?_,
    fun space start => ?_⟩
  · refine (mapFile_ends coherent regions length writable file).mono (fun a w mapped => ?_)
      fun e w stopped reason same => ?_
    · exact ⟨mapped.1, mapped.2.1.regionAdded⟩
    · cases stopped with
      | refused => rfl
      | overflow => cases same
  · refine (unmapFile_ends coherent regions).mono (fun _ w unmapped => ?_) fun e w stopped => ?_
    · obtain ⟨r, region⟩ := unmapped.region
      exact ⟨r, region, unmapped.regionRemoved regions region⟩
    · obtain ⟨refusal, absent, same⟩ := stopped
      exact ⟨absent, refusal, same⟩

/-- A space, and a file of three bytes. -/
def filed : List Request := [.createSpace, .createFile #[17, 18, 19]]

/-- The file is mapped to two pages, which take turns in the only frame. -/
def spanning : List Request :=
  filed ++ [.mapFile ⟨1⟩ ⟨4096⟩ 4097 true ⟨0⟩ 0, .claim ⟨1⟩ ⟨4096⟩, .claim ⟨1⟩ ⟨8192⟩]

/-- The mapping is made of two pages, and both are taken back although one has left memory. -/
theorem regions_consistent_after_spanning :
    RegionAdded (after (new 1 0).1 filed) ⟨1⟩ ⟨4096⟩ 2
        (mapFile ⟨1⟩ ⟨4096⟩ 4097 true ⟨0⟩ 0 (after (new 1 0).1 filed)).state ∧
      RegionsHold (after (new 1 0).1 spanning) ∧
      (pageIn? (after (new 1 0).1 spanning).spaces ⟨1⟩ ⟨4096⟩).bind Page.frame = none ∧
      RegionRemoved (after (new 1 0).1 spanning) ⟨1⟩ ⟨4096⟩ ⟨2, ⟨1⟩⟩
        (unmapFile ⟨1⟩ ⟨4096⟩ (after (new 1 0).1 spanning)).state := by
  have made : (mapFile ⟨1⟩ ⟨4096⟩ 4097 true ⟨0⟩ 0 (after (new 1 0).1 filed)).result = .ok ⟨4096⟩ := by
    decide +kernel
  have taken : (unmapFile ⟨1⟩ ⟨4096⟩ (after (new 1 0).1 spanning)).result = .ok () := by
    decide +kernel
  have region : regionIn? (after (new 1 0).1 spanning).spaces ⟨1⟩ ⟨4096⟩ = some ⟨2, ⟨1⟩⟩ := by
    decide +kernel
  obtain ⟨-, maps, -⟩ := regions_consistent_after 1 0 filed
  obtain ⟨hold, -, unmaps⟩ := regions_consistent_after 1 0 spanning
  obtain ⟨-, added⟩ := (maps _ _ _ _ _ _).of_ok made
  obtain ⟨r, same, removed⟩ := (unmaps _ _).of_ok taken
  obtain rfl := Option.some.inj (region.symm.trans same)
  exact ⟨added, hold, by decide +kernel, removed⟩

end KernelCore.VirtualMemory
