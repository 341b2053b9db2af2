import KernelCore.Proofs.Paging.Consistency

/-!
# Arguments at the limits of a word

Mapping a file and entering a segment take addresses, lengths and places in a file from outside.
The addresses of the pages always fit: before they reach the end of the address space they reach
the kernel, and are refused. The places in the file are summed up unseen; only a place that is no
word, or a segment whose length is none, stops the kernel.
-/
namespace KernelCore

/-- The place of a page in a file is a word. -/
theorem FileBacking.ofStretch_lt {file : DescriptionId} {offset length i : Nat} {b : FileBacking}
    (h : FileBacking.ofStretch file offset length i = .ok b) :
    offset + i * pageSize < addressLimit := by
  by_contra far
  have past : addWords offset (i * pageSize) = .error .addition :=
    addWords_eq_error_iff.mpr ⟨rfl, by omega⟩
  unfold ofStretch at h
  simp only [bind, Except.bind] at h
  split at h
  · cases h
  · rename_i skipped product
    obtain ⟨-, rfl⟩ := mulWords_eq_ok_iff.mp product
    rw [past] at h
    cases h

namespace VirtualMemory

open Transition

variable {v : VirtualMemory} {space : SpaceId} {start : VirtAddr} {file : DescriptionId}
  {offset : Nat} {x : Violation}

/-- A sum that grows with the page is no word for the last page if it is none for some page. -/
private theorem far_of_page {i count : Nat} (hi : i < count)
    (far : addressLimit ≤ offset + i * pageSize) :
    addressLimit ≤ offset + (count - 1) * pageSize := by
  have step : i * pageSize ≤ (count - 1) * pageSize := Nat.mul_le_mul_right _ (by omega)
  omega

/-- Mapping a file stops the kernel exactly if nothing speaks against the mapping but that the place
of its last page in the file is no word. -/
theorem mapFile_violates_iff (h : Coherent v none) (regions : RegionsBacked v) {length : Nat}
    {writable : Bool} :
    (mapFile space start length writable file offset v).result = .error (.violated x) ↔
      x = .arithmetic .addition ∧ Mappable v space start length file offset ∧
        addressLimit ≤ offset + ((length + (pageSize - 1)) / pageSize - 1) * pageSize := by
  have ends : (mapFile space start length writable file offset).Ends v _
      (MapStops v space start length file offset) := mapFile_ends h regions length writable file
  constructor
  · intro stopped
    cases ends.of_error stopped with
    | overflow mappable page far _ => exact ⟨rfl, mappable, far_of_page page far⟩
  · rintro ⟨rfl, mappable, far⟩
    cases result : (mapFile space start length writable file offset v).result with
    | ok a =>
      obtain ⟨-, mapped, -⟩ := ends.of_ok result
      obtain ⟨count, sum, region, pages, -⟩ := mapped.pages
      have positive : 0 < count := mapped.inOrder.regions.nonempty region
      obtain ⟨-, b, stretch, -⟩ := pages (count - 1) (by omega)
      have near := FileBacking.ofStretch_lt stretch
      rw [← pagesFor_eq sum] at far
      omega
    | error e => rw [(ends.of_error result).of_mappable mappable]

/-- What may stop the entering of a segment at one of its first `count` pages. -/
def SegmentStops (offset count : Nat) (e : Stop) : Prop :=
  e.IsRefusal ∨ e = .violated (.arithmetic .addition) ∧ ∃ i, i < count ∧
    addressLimit ≤ offset + i * pageSize

/-- A page that was entered ends below the kernel, so the next one has an address, too. -/
private theorem segmentPages_ends (h : Coherent v none) {readBytes count : Nat} {writable : Bool}
    (word : start.toNat < addressLimit) :
    (forRange
        (fun i => do
          let b ← checked (FileBacking.ofStretch file offset readBytes i)
          let va ← checked (start.addPages i)
          allocateLazy space va writable .anonymous (.segment b))
        0 count : Paging Unit).Ends v (fun _ _ => True) (fun e _ => SegmentStops offset count e) := by
  refine (ends_forRange (I := fun i left u => i + left = count ∧ Coherent u none ∧
      start.toNat + i * pageSize < addressLimit) (fun i left u so_far => ?_)
      ⟨Nat.zero_add _, h, by omega⟩).mono (fun _ _ _ => trivial) fun _ _ stops => stops
  obtain ⟨more, coherent, below⟩ := so_far
  have hi : i < count := by omega
  have next := VirtAddr.addPages_of_lt below
  rw [ends_bind, ends_checked]
  refine ⟨fun b stretch => ?_, fun f past => ?_⟩
  · rw [ends_bind, next, ends_checked_ok]
    refine (allocateLazy_ends coherent writable .anonymous (.segment b)).mono
      (fun _ w entered => ?_) fun e w refused => .inl refused.1
    obtain ⟨coherent', entered⟩ := entered
    have user := entered.placed.user
    simp only [VirtAddr.isUser, decide_eq_true_eq] at user
    have top : kernelBase + pageSize < addressLimit := by decide
    have step : (i + 1) * pageSize = i * pageSize + pageSize := Nat.succ_mul _ _
    exact ⟨by omega, coherent', by omega⟩
  · obtain ⟨rfl, far⟩ := FileBacking.ofStretch_error past (by omega)
    exact .inr ⟨rfl, i, hi, far⟩

theorem loadSegment_violates (h : Coherent v none) {readBytes zeroBytes : Nat} {writable : Bool}
    (word : start.toNat < addressLimit)
    (stopped : (loadSegment space file offset start readBytes zeroBytes writable v).result =
      .error (.violated x)) :
    x = .arithmetic .addition ∧ (addressLimit ≤ readBytes + zeroBytes ∨
      addressLimit ≤ offset + ((readBytes + zeroBytes) / pageSize - 1) * pageSize) := by
  have ends : (loadSegment space file offset start readBytes zeroBytes writable).Ends v
      (fun _ _ => True) (fun e _ => SegmentStops offset ((readBytes + zeroBytes) / pageSize) e ∨
        e = .violated (.arithmetic .addition) ∧ addressLimit ≤ readBytes + zeroBytes) := by
    unfold loadSegment
    rw [ends_bind, ends_checked]
    refine ⟨fun length sum => ?_, fun f past => ?_⟩
    · obtain ⟨-, rfl⟩ := addWords_eq_ok_iff.mp sum
      rw [ends_bind, ends_ensure]
      refine ⟨fun _ => ?_, fun _ => .inl (.inl ⟨_, rfl⟩)⟩
      exact (segmentPages_ends h word).mono (fun _ _ h => h) fun _ _ stops => .inl stops
    · obtain ⟨rfl, far⟩ := addWords_eq_error_iff.mp past
      exact .inr ⟨rfl, far⟩
  rcases ends.of_error stopped with (⟨r, refusal⟩ | ⟨same, i, hi, far⟩) | ⟨same, past⟩
  · cases refusal
  · cases same
    exact ⟨rfl, .inr (far_of_page hi far)⟩
  · cases same
    exact ⟨rfl, .inl past⟩

/-- Whatever it is given, in whatever state, mapping a file ends with a result or a refusal unless
the mapping is possible but for the place of its last page in the file, which is no word. Entering
a segment does so if its length and the places of its pages in the file are words. No address of a
page is ever too large. -/
theorem mapping_calls_end (reached : Reached v) (space : SpaceId) (start : VirtAddr)
    (length readBytes zeroBytes offset : Nat) (writable : Bool) (file : DescriptionId)
    (word : start.toNat < addressLimit) (x : Violation) :
    ((mapFile space start length writable file offset v).result = .error (.violated x) ↔
      x = .arithmetic .addition ∧ Mappable v space start length file offset ∧
        addressLimit ≤ offset + ((length + (pageSize - 1)) / pageSize - 1) * pageSize) ∧
    ((loadSegment space file offset start readBytes zeroBytes writable v).result =
        .error (.violated x) →
      x = .arithmetic .addition ∧ (addressLimit ≤ readBytes + zeroBytes ∨
        addressLimit ≤ offset + ((readBytes + zeroBytes) / pageSize - 1) * pageSize)) := by
  obtain ⟨coherent, regions⟩ := reached.inOrder
  exact ⟨mapFile_violates_iff coherent regions, loadSegment_violates coherent word⟩

/-- A space and a file of one byte. -/
def oneByte : List Request := [.createSpace, .createFile #[17]]

/-- The last page of all that has a place in a file can be mapped, and entered. -/
theorem mapping_calls_end_last :
    (∀ x, (mapFile ⟨1⟩ ⟨4096⟩ 4096 true ⟨0⟩ (addressLimit - pageSize)
        (after (new 1 0).1 oneByte)).result ≠ .error (.violated x)) ∧
      ∀ x, (loadSegment ⟨1⟩ ⟨0⟩ (addressLimit - pageSize) ⟨4096⟩ 4096 0 true
        (after (new 1 0).1 oneByte)).result ≠ .error (.violated x) := by
  have ends := mapping_calls_end (reached_after 1 0 oneByte) ⟨1⟩ ⟨4096⟩ 4096 4096 0
    (addressLimit - pageSize) true ⟨0⟩ (by decide)
  constructor
  · intro x stopped
    obtain ⟨-, -, far⟩ := (ends x).1.mp stopped
    exact absurd far (by decide)
  · intro x stopped
    obtain ⟨-, past | far⟩ := (ends x).2 stopped
    · exact absurd past (by decide)
    · exact absurd far (by decide)

/-- One page more, or a segment of more bytes than there are words, stops the kernel. -/
theorem mapping_calls_overflow :
    Reached (after (new 1 0).1 oneByte) ∧
      (mapFile ⟨1⟩ ⟨4096⟩ 8192 true ⟨0⟩ (addressLimit - pageSize)
        (after (new 1 0).1 oneByte)).result = .error (.violated (.arithmetic .addition)) ∧
      (loadSegment ⟨1⟩ ⟨0⟩ (addressLimit - pageSize) ⟨4096⟩ 8192 0 true
        (after (new 1 0).1 oneByte)).result = .error (.violated (.arithmetic .addition)) ∧
      (loadSegment ⟨1⟩ ⟨0⟩ 0 ⟨4096⟩ (addressLimit - pageSize) 4096 true
        (after (new 1 0).1 oneByte)).result = .error (.violated (.arithmetic .addition)) :=
  ⟨reached_after 1 0 oneByte, by decide +kernel, by decide +kernel, by decide +kernel⟩

end VirtualMemory

end KernelCore
