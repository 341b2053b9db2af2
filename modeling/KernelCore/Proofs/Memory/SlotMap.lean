import Mathlib.Logic.Function.Basic
import KernelCore.Proofs.Memory.Swap

/-!
# The swap area as a map from slots to pages

What the holders of slots rely on: a slot keeps the page that was last written to it until it is
given back, whatever becomes of the other slots, and no access leaves the sectors of its slot.
-/
namespace KernelCore.SwapArea

open Transition

variable {a a' : SwapArea} {s : SwapSlot} {page : PageBytes} {sectors : Nat}

/-- The slots that are held, each with the page that was last written to it since it was taken. -/
abbrev Holdings := SwapSlot → Option (Option PageBytes)

/-- What the device and the marks have to do with the slots that are held. -/
structure Tracks (sectors : Nat) (a : SwapArea) (held : Holdings) : Prop where
  size : a.disk.sectors.size = sectors
  length : a.used.length = sectors / sectorsPerSlot
  used : ∀ s, a.Used s ↔ (held s).isSome
  contents : ∀ s page, held s = some (some page) → a.readPage s = page

/-- The areas and holdings that calls lead to which give back, write and read held slots only. -/
inductive Serves (sectors : Nat) : SwapArea → Holdings → Prop
  | new : Serves sectors (new sectors).1 fun _ => none
  | allocated {a : SwapArea} {held : Holdings} {s : SwapSlot} (before : Serves sectors a held)
      (taken : (allocate a).result = .ok s) :
      Serves sectors (allocate a).state (Function.update held s (some none))
  | refused {a : SwapArea} {held : Holdings} {e : Stop} (before : Serves sectors a held)
      (stopped : (allocate a).result = .error e) : Serves sectors (allocate a).state held
  | freed {a : SwapArea} {held : Holdings} {s : SwapSlot} (before : Serves sectors a held)
      (holds : (held s).isSome) : Serves sectors (free s a).state (Function.update held s none)
  | written {a : SwapArea} {held : Holdings} {s : SwapSlot} (before : Serves sectors a held)
      (holds : (held s).isSome) (page : PageBytes) :
      Serves sectors (write s page.toArray a).state (Function.update held s (some (some page)))
  | read {a : SwapArea} {held : Holdings} {s : SwapSlot} (before : Serves sectors a held)
      (holds : (held s).isSome) : Serves sectors (read s pageSize a).state held

namespace Tracks

variable {held : Holdings} (h : Tracks sectors a held)

include h

theorem regular : a.Regular := by
  unfold Regular
  rw [h.length, h.size]
  exact Nat.div_mul_le_self sectors sectorsPerSlot

theorem index_lt (holds : (held s).isSome) : s.index < a.used.length :=
  ((h.used s).mpr holds).index_lt

/-- Another mark for one slot. -/
theorem marked {value : Bool} {now : Option (Option PageBytes)} (inside : s.index < a.used.length)
    (bits : a'.used.bits = a.used.bits.set s.index value) (disk : a'.disk = a.disk)
    (marks : now.isSome = value) (unwritten : ∀ page, now ≠ some (some page)) :
    Tracks sectors a' (Function.update held s now) where
  size := by rw [disk, h.size]
  length := by rw [length_of_set bits, h.length]
  used s' := by
    rw [used_set bits inside]
    by_cases same : s' = s
    · subst same
      rw [if_pos rfl, Function.update_self, marks]
    · rw [if_neg same, Function.update_of_ne same, h.used]
  contents s' page known := by
    by_cases same : s' = s
    · subst same
      rw [Function.update_self] at known
      exact absurd known (unwritten page)
    · rw [Function.update_of_ne same] at known
      unfold readPage
      rw [disk]
      exact h.contents s' page known

theorem taken (done : a.Taken s a') : Tracks sectors a' (Function.update held s (some none)) :=
  h.marked done.index_lt done.bits done.disk rfl fun _ same => nomatch same

theorem returned (holds : (held s).isSome) (done : a.Returned s a') :
    Tracks sectors a' (Function.update held s none) :=
  h.marked (h.index_lt holds) done.bits done.disk rfl fun _ same => nomatch same

theorem written (holds : (held s).isSome) (done : a.Written s page a') :
    Tracks sectors a' (Function.update held s (some (some page))) where
  size := by rw [done.size, h.size]
  length := by rw [done.used, h.length]
  used s' := by
    have marks : a'.Used s' ↔ a.Used s' := by
      unfold Used
      rw [done.used]
    rw [marks, h.used]
    by_cases same : s' = s
    · subst same
      rw [Function.update_self, holds]
      exact ⟨fun _ => rfl, fun _ => rfl⟩
    · rw [Function.update_of_ne same]
  contents s' page' known := by
    rw [done.readPage]
    by_cases same : s' = s
    · subst same
      rw [Function.update_self] at known
      rw [if_pos rfl]
      exact Option.some.inj (Option.some.inj known)
    · rw [Function.update_of_ne same] at known
      rw [if_neg same]
      exact h.contents s' page' known

end Tracks

theorem tracks_new (sectors : Nat) : Tracks sectors (new sectors).1 fun _ => none where
  size := Array.size_replicate
  length := rfl
  used _ := ⟨fun marked => absurd marked (not_used_new sectors), fun held => nomatch held⟩
  contents _ _ known := nomatch known

variable {held : Holdings}

theorem Serves.tracks (h : Serves sectors a held) : Tracks sectors a held := by
  induction h with
  | new => exact tracks_new sectors
  | allocated _ taken ih => exact ih.taken ((allocate_ends _).of_ok taken)
  | refused _ stopped ih =>
    obtain ⟨-, same, -⟩ := (allocate_ends _).of_error stopped
    rwa [same]
  | freed _ holds ih =>
    obtain ⟨_, -, done⟩ := (return_ends ((ih.used _).mpr holds)).exists_ok
    exact ih.returned holds done
  | written _ holds page ih =>
    obtain ⟨_, -, done⟩ := Ends.exists_ok (t := write _ page.toArray)
      (write_ends ih.regular (ih.index_lt holds))
    exact ih.written holds done
  | read _ holds ih =>
    obtain ⟨_, -, -, same⟩ := (read_ends ih.regular (ih.index_lt holds)).exists_ok
    rwa [same]

/-- The sector lies outside a slot. -/
def Outside (s : SwapSlot) (j : Nat) : Prop := ∀ k < sectorsPerSlot, j ≠ s.firstSector + k

/-- What the next call does to an area with the given holdings. -/
structure MapsSlots (sectors : Nat) (a : SwapArea) (held : Holdings) : Prop where
  capacity : a.capacity = sectors / sectorsPerSlot
  usedCount : a.usedCount = (List.range a.capacity).countP fun i => (held ⟨i⟩).isSome
  size : a.disk.sectors.size = sectors
  /-- The sectors of a slot that is held lie on the device. -/
  inside : ∀ s, (held s).isSome → s.index < a.capacity ∧ s.firstSector + sectorsPerSlot ≤ sectors
  /-- The lowest free slot is taken, if there is a free one. -/
  allocated : ∀ s, s.index < a.capacity → held s = none → (∀ i < s.index, (held ⟨i⟩).isSome) →
    (allocate a).result = .ok s ∧ (allocate a).state.disk = a.disk
  refused : (∀ s, s.index < a.capacity → (held s).isSome) →
    (allocate a).result = .error (.refused .outOfSwap) ∧ (allocate a).state = a
  freed : ∀ s, (held s).isSome →
    (free s a).result = .ok () ∧ (free s a).state.disk = a.disk
  /-- A write changes the sectors of its slot and no others. -/
  written : ∀ (s : SwapSlot) (page : PageBytes), (held s).isSome →
    (write s page.toArray a).result = .ok () ∧
      (∀ k : Fin sectorsPerSlot, (write s page.toArray a).state.disk.sector (s.firstSector + k) =
        page.sector k) ∧
      ∀ j, Outside s j → (write s page.toArray a).state.disk.sector j = a.disk.sector j
  /-- What is read is in the sectors of the slot, and it is what was last written. -/
  read : ∀ s, (held s).isSome →
    (read s pageSize a).result =
        .ok (PageBytes.ofSectors fun k => a.disk.sector (s.firstSector + k)) ∧
      (read s pageSize a).state = a ∧
      ∀ page, held s = some (some page) → (read s pageSize a).result = .ok page

/-- A slot is taken exactly if one is free. -/
theorem Tracks.allocate_result (h : Tracks sectors a held) :
    (∃ s, (allocate a).result = .ok s ∧ s.index < a.capacity ∧ held s = none ∧
      (∀ i < s.index, (held ⟨i⟩).isSome) ∧ (allocate a).state.disk = a.disk) ∨
    ((allocate a).result = .error (.refused .outOfSwap) ∧ (allocate a).state = a ∧
      ∀ s, s.index < a.capacity → (held s).isSome) := by
  cases result : (allocate a).result with
  | ok s =>
    have taken := (allocate_ends a).of_ok result
    refine .inl ⟨s, rfl, taken.index_lt, ?_, fun i less => (h.used _).mp (taken.lowest i less),
      taken.disk⟩
    have unused : ¬a.Used s := by
      unfold Used
      rw [taken.free]
      exact fun marked => Bool.false_ne_true (Option.some.inj marked)
    rwa [h.used, Bool.not_eq_true, Option.isSome_eq_false_iff, Option.isNone_iff_eq_none] at unused
  | error e =>
    obtain ⟨rfl, same, full⟩ := (allocate_ends a).of_error result
    exact .inr ⟨rfl, same, fun s below => (h.used s).mp (full s below)⟩

/-- Two free slots below which every slot is held are one. -/
theorem lowest_unique {s' : SwapSlot} (free : held s = none) (free' : held s' = none)
    (before : ∀ i < s.index, (held ⟨i⟩).isSome) (before' : ∀ i < s'.index, (held ⟨i⟩).isSome) :
    s' = s := by
  have same : s'.index = s.index := by
    rcases Nat.lt_trichotomy s'.index s.index with less | same | more
    · have holds := before s'.index less
      rw [free'] at holds
      cases holds
    · exact same
    · have holds := before' s.index more
      rw [free] at holds
      cases holds
  exact congrArg SwapSlot.mk same

theorem Tracks.allocate_lowest (h : Tracks sectors a held) (below : s.index < a.capacity)
    (free : held s = none) (before : ∀ i < s.index, (held ⟨i⟩).isSome) :
    (allocate a).result = .ok s ∧ (allocate a).state.disk = a.disk := by
  rcases h.allocate_result with ⟨s', ok, -, free', before', disk⟩ | ⟨-, -, full⟩
  · rw [ok, lowest_unique free free' before before']
    exact ⟨rfl, disk⟩
  · have holds := full s below
    rw [free] at holds
    cases holds

theorem Tracks.allocate_full (h : Tracks sectors a held)
    (full : ∀ s, s.index < a.capacity → (held s).isSome) :
    (allocate a).result = .error (.refused .outOfSwap) ∧ (allocate a).state = a := by
  rcases h.allocate_result with ⟨s, -, below, free, -, -⟩ | ⟨stopped, same, -⟩
  · have holds := full s below
    rw [free] at holds
    cases holds
  · exact ⟨stopped, same⟩

theorem Tracks.usedCount (h : Tracks sectors a held) :
    a.usedCount = (List.range a.capacity).countP fun i => (held ⟨i⟩).isSome := by
  unfold SwapArea.usedCount
  rw [Bitmap.countSet_eq, Bitmap.bits, List.countP_map]
  refine List.countP_congr fun i member => ?_
  have used := h.used ⟨i⟩
  unfold Used at used
  rw [Bitmap.getElem?_bits (List.mem_range.mp member), Option.some.injEq] at used
  rw [Function.comp_apply, beq_iff_eq]
  exact used

/-- The swap area behaves as a map from its slots to pages, whatever was done with it. -/
theorem Serves.mapsSlots (h : Serves sectors a held) : MapsSlots sectors a held := by
  have tracks := h.tracks
  refine ⟨tracks.length, tracks.usedCount, tracks.size, fun s holds => ?_,
    fun s below free before => ?_, fun full => ?_, fun s holds => ?_, fun s page holds => ?_,
    fun s holds => ?_⟩
  · have inside := tracks.index_lt holds
    refine ⟨inside, ?_⟩
    rw [← tracks.size]
    exact tracks.regular.inside inside
  · exact tracks.allocate_lowest below free before
  · exact tracks.allocate_full full
  · obtain ⟨_, ok, done⟩ := (return_ends ((tracks.used s).mpr holds)).exists_ok
    exact ⟨ok, done.disk⟩
  · obtain ⟨_, ok, done⟩ := Ends.exists_ok (t := write _ page.toArray)
      (write_ends tracks.regular (tracks.index_lt holds))
    exact ⟨ok, done.inside, done.outside⟩
  · obtain ⟨_, ok, rfl, same⟩ := (read_ends tracks.regular (tracks.index_lt holds)).exists_ok
    refine ⟨ok, same, fun page known => ?_⟩
    rw [ok, tracks.contents s page known]

/-- A device of two slots and four sectors: both slots are taken and written to, the first is given
back and taken anew. The other one still has its page, and a third attempt is refused. -/
theorem Serves.mapsSlots_retaken :
    ∃ a held, MapsSlots 20 a held ∧ held ⟨0⟩ = some none ∧
      held ⟨1⟩ = some (some (PageBytes.filled 9)) ∧
      (SwapArea.read ⟨1⟩ pageSize a).result = .ok (PageBytes.filled 9) ∧
      (allocate a).result = .error (.refused .outOfSwap) := by
  have first : Serves 20 _ _ := .allocated (s := ⟨0⟩) .new (by decide +kernel)
  have filled : Serves 20 _ _ := .written (s := ⟨0⟩) first rfl (PageBytes.filled 7)
  have second : Serves 20 _ _ := .allocated (s := ⟨1⟩) filled (by decide +kernel)
  have both : Serves 20 _ _ := .written (s := ⟨1⟩) second rfl (PageBytes.filled 9)
  have freed : Serves 20 _ _ := .freed (s := ⟨0⟩) both rfl
  have retaken : Serves 20 _ _ := .allocated (s := ⟨0⟩) freed (by decide +kernel)
  have maps := Serves.mapsSlots retaken
  refine ⟨_, _, maps, rfl, rfl, ((maps.read ⟨1⟩ rfl).2.2 _ rfl), (maps.refused fun s below => ?_).1⟩
  rw [maps.capacity] at below
  obtain ⟨i⟩ := s
  match i, below with
  | 0, _ | 1, _ => rfl

end KernelCore.SwapArea
