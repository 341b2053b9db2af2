import KernelCore.Memory.Swap
import KernelCore.Proofs.Memory.Bitmap
import KernelCore.Proofs.Transition

/-!
# Slots of the swap area

A page written to a slot is read back unchanged, and a slot is not touched by what is written to
others. Slots are marked when they are taken and unmarked when they are given back. As long as the
slots lie within the device no access goes beyond it.
-/
namespace KernelCore

/-- A page is made of its first sectors, as many as a slot has. -/
theorem PageBytes.ofSectors_congr {sector sector' : Nat → SectorBytes}
    (same : ∀ k < sectorsPerSlot, sector k = sector' k) : ofSectors sector = ofSectors sector' := by
  apply Vector.ext
  intro i hi
  have hk : i / sectorSize < sectorsPerSlot := by
    simp only [pageSize, sectorSize, sectorsPerSlot] at hi ⊢
    omega
  simp only [ofSectors, Vector.getElem_ofFn, same _ hk]

theorem PageBytes.ofSectors_sector (page : PageBytes) {sector : Nat → SectorBytes}
    (h : ∀ k : Fin sectorsPerSlot, sector k.val = page.sector k) : ofSectors sector = page := by
  apply Vector.ext
  intro i hi
  have hk : i / sectorSize < sectorsPerSlot := by
    simp only [pageSize, sectorSize, sectorsPerSlot] at hi ⊢
    omega
  have hs := h ⟨i / sectorSize, hk⟩
  dsimp only at hs
  have parts : i / sectorSize * sectorSize + i % sectorSize = i := Nat.div_add_mod' i sectorSize
  simp [ofSectors, hs, PageBytes.sector, Vector.get, parts]

namespace Disk

variable {d : Disk} {i j : Nat} {bytes : SectorBytes}

/-- The bytes of a sector. -/
def sector (d : Disk) (i : Nat) : SectorBytes :=
  (d.sectors[i]?).getD (Vector.replicate sectorSize 0)

/-- The device with other bytes in a sector. -/
def put (d : Disk) (i : Nat) (bytes : SectorBytes) : Disk := ⟨d.sectors.setIfInBounds i bytes⟩

@[simp] theorem size_put : (d.put i bytes).sectors.size = d.sectors.size := by
  simp [put]

theorem sector_put (room : i < d.sectors.size) :
    (d.put i bytes).sector j = if j = i then bytes else d.sector j := by
  unfold sector put
  rw [Array.getElem?_setIfInBounds]
  by_cases h : i = j
  · subst h
    simp [room]
  · simp [h, Ne.symm h]

theorem readSector_of_lt (room : i < d.sectors.size) : d.readSector i = .ok (d.sector i) := by
  unfold readSector sector
  rw [Array.getElem?_eq_getElem room]
  rfl

theorem writeSector_of_lt (room : i < d.sectors.size) : d.writeSector i bytes = .ok (d.put i bytes) :=
  if_pos room

end Disk

namespace SwapArea

open Transition

variable {a a' : SwapArea} {s s' : SwapSlot} {page : PageBytes}

/-! ## The sectors of a slot -/

/-- The slots lie within the device. -/
def Regular (a : SwapArea) : Prop := a.used.length * sectorsPerSlot ≤ a.disk.sectors.size

def Used (a : SwapArea) (s : SwapSlot) : Prop := a.used.bits[s.index]? = some true

/-- The page in the sectors of a slot. -/
def readPage (a : SwapArea) (s : SwapSlot) : PageBytes :=
  PageBytes.ofSectors fun k => a.disk.sector (s.firstSector + k)

theorem regular_new (sectors : Nat) : (new sectors).1.Regular := by
  simp only [Regular, new, Disk.blank, Bitmap.length_new, Array.size_replicate]
  exact Nat.div_mul_le_self _ _

theorem not_used_new (sectors : Nat) : ¬(new sectors).1.Used s := by
  intro h
  have := List.mem_of_getElem? h
  simp [new] at this

theorem Used.index_lt (h : a.Used s) : s.index < a.used.length := by
  rw [← Bitmap.length_bits]
  exact (List.getElem?_eq_some_iff.mp h).1

/-- The sectors of a slot lie within the device. -/
theorem Regular.inside (h : a.Regular) (hs : s.index < a.used.length) :
    s.firstSector + sectorsPerSlot ≤ a.disk.sectors.size := by
  unfold Regular at h
  unfold SwapSlot.firstSector
  have : (s.index + 1) * sectorsPerSlot ≤ a.used.length * sectorsPerSlot :=
    Nat.mul_le_mul_right _ hs
  rw [Nat.succ_mul] at this
  omega

/-- Two slots have no sector in common. -/
theorem firstSector_apart (apart : s' ≠ s) {i k : Nat} (hi : i < sectorsPerSlot)
    (hk : k < sectorsPerSlot) : s'.firstSector + i ≠ s.firstSector + k := by
  have : s'.index ≠ s.index := fun same => apart (by cases s; cases s'; exact congrArg SwapSlot.mk same)
  unfold SwapSlot.firstSector
  simp only [sectorsPerSlot, pageSize, sectorSize] at *
  omega

/-! ## Reading and writing -/

section

variable {E : Stop → SwapArea → Prop} {i : Nat} {bytes : SectorBytes}

theorem ends_contract_ok {α : Type} {Q : α → SwapArea → Prop} {x : Except Violation α} {value : α}
    (known : x = .ok value) : (contract x).Ends a Q E ↔ Q value a := by
  rw [known]
  exact Iff.rfl

theorem readSectors_ends (first count : Nat) (room : first + count ≤ a.disk.sectors.size) :
    (readSectors first count).Ends a
      (fun sectors a' => sectors = (List.range' first count).map a.disk.sector ∧ a' = a) E := by
  induction count generalizing first with
  | zero => exact ⟨rfl, rfl⟩
  | succ count ih =>
    unfold readSectors readSector
    simp only [ends_bind, ends_get, ends_pure]
    rw [ends_contract_ok (Disk.readSector_of_lt (by omega))]
    refine (ih (first + 1) (by omega)).imp fun rest a' read => ?_
    obtain ⟨rfl, rfl⟩ := read
    exact ⟨rfl, rfl⟩

/-- A slot within the device is read whole. -/
theorem read_ends (h : a.Regular) (hs : s.index < a.used.length) :
    (read s pageSize).Ends a (fun page a' => page = a.readPage s ∧ a' = a) E := by
  unfold read
  rw [if_pos rfl, ends_bind]
  refine (readSectors_ends _ _ (h.inside hs)).imp fun sectors a' read => ?_
  obtain ⟨rfl, rfl⟩ := read
  refine ⟨PageBytes.ofSectors_congr fun k below => ?_, rfl⟩
  rw [List.getElem?_map, List.getElem?_range' below, Option.map_some, Option.getD_some, Nat.one_mul]

/-- What writing a page to the slot `s` does. -/
structure Written (a : SwapArea) (s : SwapSlot) (page : PageBytes) (a' : SwapArea) : Prop where
  used : a'.used = a.used
  size : a'.disk.sectors.size = a.disk.sectors.size
  inside : ∀ k : Fin sectorsPerSlot, a'.disk.sector (s.firstSector + k) = page.sector k
  outside : ∀ j, (∀ k < sectorsPerSlot, j ≠ s.firstSector + k) → a'.disk.sector j = a.disk.sector j

/-- A page is written whole to a slot within the device. -/
theorem write_ends (h : a.Regular) (hs : s.index < a.used.length) :
    (write s page.toArray).Ends a (fun _ a' => a.Written s page a') E := by
  have array : PageBytes.ofArray? page.toArray = some page := by
    simp [PageBytes.ofArray?]
  have room := h.inside hs
  -- The sectors still to come are as they were, the others have the bytes of the page.
  let I (rest : List (Fin sectorsPerSlot)) (b : SwapArea) : Prop :=
    rest.Nodup ∧ b.used = a.used ∧ b.disk.sectors.size = a.disk.sectors.size ∧
      (∀ k ∉ rest, b.disk.sector (s.firstSector + k) = page.sector k) ∧
      ∀ j, (∀ k < sectorsPerSlot, j ≠ s.firstSector + k) → b.disk.sector j = a.disk.sector j
  have step : ∀ (k : Fin sectorsPerSlot) (rest : List (Fin sectorsPerSlot)) (b : SwapArea),
      I (k :: rest) b →
      (writeSector (s.firstSector + k) (page.sector k)).Ends b (fun _ b' => I rest b') E := by
    rintro k rest b ⟨once, used, size, written, others⟩
    have below := k.isLt
    have within : s.firstSector + k < b.disk.sectors.size := by omega
    unfold writeSector
    simp only [ends_bind, ends_get]
    rw [ends_contract_ok (Disk.writeSector_of_lt within), ends_modify]
    refine ⟨(List.nodup_cons.mp once).2, used, by rw [Disk.size_put, size], fun i done => ?_,
      fun j apart => ?_⟩
    · rw [Disk.sector_put within]
      by_cases here : i = k
      · rw [here, if_pos rfl]
      · rw [if_neg (by rw [Nat.add_left_cancel_iff, ← Fin.ext_iff]; exact here)]
        exact written i (by simp [here, done])
    · rw [Disk.sector_put within, if_neg (apart k below), others j apart]
  unfold write
  rw [array]
  refine (ends_forAll step ⟨List.nodup_finRange _, rfl, rfl, fun k missing => ?_,
    fun _ _ => rfl⟩).imp fun _ a' done => ?_
  · exact absurd (List.mem_finRange k) missing
  · obtain ⟨-, used, size, written, others⟩ := done
    exact ⟨used, size, fun k => written k List.not_mem_nil, others⟩

end

namespace Written

variable (h : a.Written s page a')

include h

theorem regular (begun : a.Regular) : a'.Regular := by
  unfold Regular at begun ⊢
  rwa [h.used, h.size]

/-- A page written to a slot is read back, and the other slots keep theirs. -/
theorem readPage (s' : SwapSlot) : a'.readPage s' = if s' = s then page else a.readPage s' := by
  unfold SwapArea.readPage
  by_cases same : s' = s
  · subst same
    rw [if_pos rfl]
    exact PageBytes.ofSectors_sector page h.inside
  · rw [if_neg same]
    refine PageBytes.ofSectors_congr fun k below => ?_
    exact h.outside _ fun i hi => firstSector_apart same below hi

end Written

/-! ## Taking slots and giving them back -/

/-- What taking the slot `s` does. -/
structure Taken (a : SwapArea) (s : SwapSlot) (a' : SwapArea) : Prop where
  free : a.used.bits[s.index]? = some false
  lowest : ∀ i < s.index, a.Used ⟨i⟩
  bits : a'.used.bits = a.used.bits.set s.index true
  disk : a'.disk = a.disk

/-- What giving the slot `s` back does. -/
structure Returned (a : SwapArea) (s : SwapSlot) (a' : SwapArea) : Prop where
  bits : a'.used.bits = a.used.bits.set s.index false
  disk : a'.disk = a.disk

/-- The slots that are marked when the mark of one of them is set anew. -/
theorem used_set {value : Bool} (bits : a'.used.bits = a.used.bits.set s.index value)
    (inside : s.index < a.used.length) :
    a'.Used s' ↔ if s' = s then value = true else a.Used s' := by
  unfold Used
  rw [bits, List.getElem?_set, Bitmap.length_bits]
  by_cases same : s.index = s'.index
  · have : s' = s := by
      cases s
      cases s'
      exact congrArg SwapSlot.mk same.symm
    rw [if_pos same, if_pos inside, if_pos this, Option.some.injEq]
  · rw [if_neg same, if_neg (fun heq => same (by rw [heq]))]

theorem length_of_set {value : Bool} (bits : a'.used.bits = a.used.bits.set s.index value) :
    a'.used.length = a.used.length := by
  rw [← Bitmap.length_bits, bits, List.length_set, Bitmap.length_bits]

theorem regular_of_set {value : Bool} (bits : a'.used.bits = a.used.bits.set s.index value)
    (disk : a'.disk = a.disk) (h : a.Regular) : a'.Regular := by
  unfold Regular at h ⊢
  rwa [length_of_set bits, disk]

theorem Taken.index_lt (h : a.Taken s a') : s.index < a.used.length := by
  rw [← Bitmap.length_bits]
  exact (List.getElem?_eq_some_iff.mp h.free).1

/-- The lowest free slot is taken; the attempt is refused, and changes nothing, if there is none. -/
theorem allocate_ends (a : SwapArea) :
    allocate.Ends a (fun s a' => a.Taken s a')
      (fun e a' => e = .refused .outOfSwap ∧ a' = a ∧ ∀ s, s.index < a.used.length → a.Used s) := by
  unfold allocate
  rw [ends_bind, ends_get]
  rcases a.used.takeFirstClear_eq with ⟨full, taken⟩ | ⟨i, inside, clear, before, taken⟩
  · rw [taken]
    refine ⟨rfl, rfl, fun s below => ?_⟩
    have some := full s.index
    unfold Used
    rw [Bitmap.getElem?_bits below] at some ⊢
    cases bit : Word.bit a.used.words s.index with
    | true => rfl
    | false => exact absurd (congrArg Option.some bit) some
  · rw [taken]
    exact ⟨clear, before, Bitmap.bits_put inside, rfl⟩

/-- A slot in use is given back. -/
theorem return_ends (hs : a.Used s) {E : Stop → SwapArea → Prop} :
    (free s).Ends a (fun _ a' => a.Returned s a') E := by
  unfold free isUsed
  simp only [ends_bind, ends_get]
  rw [ends_contract_ok (Bitmap.test_of_bit hs), ends_ensure]
  refine ⟨fun _ => ?_, fun unused => absurd rfl unused⟩
  rw [ends_contract_ok (Bitmap.set_of_lt hs.index_lt false)]
  exact ⟨Bitmap.bits_put hs.index_lt, rfl⟩

/-! ## Anonymous pages -/

/-- What saving a page in the slot `s` does. -/
structure Saved (a : SwapArea) (s : SwapSlot) (page : PageBytes) (a' : SwapArea) : Prop where
  regular : a'.Regular
  was_free : ¬a.Used s
  used : ∀ s', a'.Used s' ↔ s' = s ∨ a.Used s'
  contents : ∀ s', a'.readPage s' = if s' = s then page else a.readPage s'

/-- A page that holds no slot is saved in a free one, if there is one. -/
theorem putOut_ends (h : a.Regular) (page : PageBytes) :
    (putOut none page.toArray).Ends a (fun s a' => a.Saved s page a')
      (fun e a' => e = .refused .outOfSwap ∧ a' = a) := by
  unfold putOut
  rw [ends_bind, ends_ensure]
  refine ⟨fun _ => ?_, fun some => absurd rfl some⟩
  rw [ends_bind]
  refine (allocate_ends a).mono (fun s b taken => ?_) fun e b refused => ⟨refused.1, refused.2.1⟩
  have length := length_of_set taken.bits
  rw [ends_bind]
  refine (write_ends (regular_of_set taken.bits taken.disk h)
    (by rw [length]; exact taken.index_lt)).imp fun _ a' written => ?_
  rw [ends_bind, ends_emit, ends_pure]
  refine ⟨written.regular (regular_of_set taken.bits taken.disk h), ?_, fun s' => ?_, fun s' => ?_⟩
  · unfold Used
    rw [taken.free]
    exact fun marked => Bool.false_ne_true (Option.some.inj marked)
  · have marks : a'.Used s' ↔ b.Used s' := by
      unfold Used
      rw [written.used]
    rw [marks, used_set taken.bits taken.index_lt]
    by_cases same : s' = s <;> simp [same]
  · have slots : b.readPage s' = a.readPage s' := by
      unfold readPage
      rw [taken.disk]
    rw [written.readPage, slots]

/-- What giving the slot `s` back does. -/
structure Freed (a : SwapArea) (s : SwapSlot) (a' : SwapArea) : Prop where
  regular : a'.Regular
  used : ∀ s', a'.Used s' ↔ s' ≠ s ∧ a.Used s'
  contents : ∀ s', a'.readPage s' = a.readPage s'

/-- A slot in use can be given back. -/
theorem free_ends (h : a.Regular) (hs : a.Used s) {E : Stop → SwapArea → Prop} :
    (free s).Ends a (fun _ a' => a.Freed s a') E := by
  refine (return_ends hs).imp fun _ a' returned => ?_
  refine ⟨regular_of_set returned.bits returned.disk h, fun s' => ?_, fun s' => ?_⟩
  · rw [used_set returned.bits hs.index_lt]
    by_cases same : s' = s <;> simp [same]
  · unfold readPage
    rw [returned.disk]

/-- The contents an anonymous page has while it is not in memory. -/
def saved (a : SwapArea) (slot : Option SwapSlot) : PageBytes := (slot.map a.readPage).getD .zeros

@[simp] theorem saved_none : a.saved none = .zeros := by
  simp only [saved, Option.map_none, Option.getD_none]

@[simp] theorem saved_some : a.saved (some s) = a.readPage s := by
  simp only [saved, Option.map_some, Option.getD_some]

theorem bringIn_ends (h : a.Regular) {slot : Option SwapSlot} (used : ∀ s, slot = some s → a.Used s)
    {E : Stop → SwapArea → Prop} :
    (bringIn slot).Ends a (fun bytes a' => bytes = a.saved slot ∧ a' = a) E := by
  cases slot with
  | none => exact ⟨rfl, rfl⟩
  | some s =>
    unfold bringIn
    simp only [ends_bind, ends_emit, ends_pure, saved_some]
    exact read_ends h (used s rfl).index_lt

end SwapArea

end KernelCore
