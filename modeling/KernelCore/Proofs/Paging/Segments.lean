import KernelCore.Proofs.Paging.Claiming
import KernelCore.Proofs.Paging.FlatHistories
import KernelCore.Proofs.Paging.Reading
import KernelCore.Proofs.Paging.Refinement

/-!
# Segments of programs

A segment is entered as a row of untouched pages, each with its stretch of the file, and nothing is
read for it. Whatever happens afterwards and in whatever order the pages are touched, each of them
is untouched until it is first brought into memory, and anonymous from then on, when it comes from
the file no more. While the file stays as it is, users see its bytes and the zeros behind them,
until they store others.
-/
namespace KernelCore.VirtualMemory

open Transition

/-! ## Entering a segment -/

/-- What is asked for when a segment of a program is entered. -/
structure Segment where
  space : SpaceId
  file : FileId
  offset : Nat
  start : VirtAddr
  readBytes : Nat
  zeroBytes : Nat
  writable : Bool

namespace Segment

def request (g : Segment) : Request :=
  .loadSegment g.space g.file g.offset g.start g.readBytes g.zeroBytes g.writable

def length (g : Segment) : Nat := g.readBytes + g.zeroBytes

def pageCount (g : Segment) : Nat := g.length / pageSize

/-- The address of byte number `i`. -/
def address (g : Segment) (i : Nat) : VirtAddr := ⟨g.start.toNat + i⟩

/-- Where page number `i` starts. -/
def page (g : Segment) (i : Nat) : VirtAddr := g.address (i * pageSize)

/-- The stretch of the file that page number `i` shows. -/
def backing (g : Segment) (d : DescriptionId) (i : Nat) : FileBacking :=
  ⟨d, g.offset + i * pageSize, min (g.readBytes - i * pageSize) pageSize, Nat.min_le_right _ _⟩

/-- Page number `i` as it is entered. -/
def entry (g : Segment) (d : DescriptionId) (i : Nat) : Page :=
  .fresh g.writable .anonymous (.segment (g.backing d i))

/-- Byte number `i` of the segment, by the contents of its file. -/
def byte (g : Segment) (contents : Array UInt8) (i : Nat) : Option UInt8 :=
  if i < g.readBytes then contents[g.offset + i]? else some 0

/-- Between two states the first `n` pages of the segment were entered, where there were none, and
nothing else. -/
structure Enters (g : Segment) (d : DescriptionId) (n : Nat) (v w : VirtualMemory) : Prop where
  absent : ∀ i < n, pageIn? v.spaces g.space (g.page i) = none
  entered : ∀ i < n, pageIn? w.spaces g.space (g.page i) = some (g.entry d i)
  others : ∀ s a, (∀ i < n, ¬(s = g.space ∧ a = g.page i)) →
    pageIn? w.spaces s a = pageIn? v.spaces s a

end Segment

section

variable {g : Segment} {d : DescriptionId} {u v w : VirtualMemory} {i j n : Nat}

theorem Segment.page_inj (h : g.page i = g.page j) : i = j := by
  have same : g.start.toNat + i * pageSize = g.start.toNat + j * pageSize :=
    congrArg VirtAddr.toNat h
  exact Nat.eq_of_mul_eq_mul_right pageSize_pos (Nat.add_left_cancel same)

theorem Segment.backing_of_stretch {b : FileBacking}
    (h : FileBacking.ofStretch d g.offset g.readBytes i = .ok b) : b = g.backing d i := by
  obtain ⟨file, offset, readBytes, fits⟩ := b
  obtain ⟨rfl, rfl, rfl⟩ := FileBacking.ofStretch_eq h
  rfl

theorem Segment.Enters.step (h : g.Enters d n v u)
    (next : Entered u g.space (g.page n) (g.entry d n) w) : g.Enters d (n + 1) v w where
  absent i hi := by
    rcases Nat.lt_succ_iff_lt_or_eq.mp hi with before | rfl
    · exact h.absent i before
    · rw [← h.others _ _ fun j hj same => absurd (Segment.page_inj same.2) (by omega)]
      exact next.absent
  entered i hi := by
    rw [next.pages]
    rcases Nat.lt_succ_iff_lt_or_eq.mp hi with before | rfl
    · rw [if_neg fun same => absurd (Segment.page_inj same.2) (by omega), h.entered i before]
    · rw [if_pos ⟨rfl, rfl⟩]
  others s a away := by
    rw [next.pages, if_neg (away n (Nat.lt_succ_self n))]
    exact h.others s a fun i hi => away i (by omega)

/-- A segment that is entered makes up whole pages, and all of them are there. -/
theorem loadSegment_ends (h : Coherent v none) (g : Segment) (d : DescriptionId) :
    (loadSegment g.space d g.offset g.start g.readBytes g.zeroBytes g.writable).Ends v
      (fun _ w => Coherent w none ∧ g.length % pageSize = 0 ∧ g.start.isAligned = true ∧
        g.Enters d g.pageCount v w) fun _ _ => True := by
  unfold loadSegment
  rw [ends_bind, ends_checked]
  refine ⟨fun length sum => ?_, fun _ _ => trivial⟩
  obtain rfl : length = g.length := (addWords_eq_ok_iff.mp sum).2
  rw [ends_bind, ends_ensure]
  refine ⟨fun whole => ?_, fun _ => trivial⟩
  have step : ∀ i (_ : Nat) u, Coherent u none ∧ g.Enters d i v u → (do
      let b ← checked (FileBacking.ofStretch d g.offset g.readBytes i)
      let va ← checked (g.start.addPages i)
      allocateLazy g.space va g.writable .anonymous (.segment b)).Ends u
        (fun _ w => Coherent w none ∧ g.Enters d (i + 1) v w) fun _ _ => True := by
    intro i _ u before
    rw [ends_bind, ends_checked]
    refine ⟨fun b stretch => ?_, fun _ _ => trivial⟩
    rw [ends_bind, ends_checked]
    refine ⟨fun va place => ?_, fun _ _ => trivial⟩
    obtain rfl : va = g.page i := VirtAddr.addPages_eq place
    obtain rfl : b = g.backing d i := Segment.backing_of_stretch stretch
    exact (allocateLazy_ends before.1 g.writable .anonymous _).mono
      (fun _ w entered => ⟨entered.1, before.2.step entered.2⟩) fun _ _ _ => trivial
  have begun : Coherent v none ∧ g.Enters d 0 v v := ⟨h, nofun, nofun, fun _ _ _ => rfl⟩
  refine (ends_forRange (I := fun i _ u => Coherent u none ∧ g.Enters d i v u) step begun).imp
    fun _ w entered => ⟨entered.1, whole.1, whole.2.1, ?_⟩
  have all := entered.2
  rwa [Nat.zero_add] at all

/-- A request that enters a segment names a file whose creator still holds a description. -/
theorem perform_loadSegment_ends (h : Coherent v none) (g : Segment) :
    (perform g.request).Ends v
      (fun reply w => reply = .done → ∃ d, v.Holds g.file d ∧ Coherent w none ∧
        g.length % pageSize = 0 ∧ g.start.isAligned = true ∧ g.Enters d g.pageCount v w)
      fun _ _ => True := by
  refine perform_ends_of_serve (?_ : (serve g.request).Ends v _ _)
  unfold Segment.request serve
  rw [ends_bind]
  refine (handle_ends g.file).mono (fun d u held => ?_) fun e w _ => ?_
  · obtain ⟨rfl, held⟩ := held
    unfold done
    rw [ends_bind]
    refine (loadSegment_ends h g d).mono (fun _ w entered _ => ⟨d, held, entered⟩) fun e w _ => ?_
    cases e
    · exact nofun
    · trivial
  · cases e
    · exact nofun
    · trivial

/-! ## Pages of a segment -/

/-- Page number `i` was not brought into memory yet. -/
def Segment.UntouchedIn (g : Segment) (d : DescriptionId) (i : Nat) (u : VirtualMemory) : Prop :=
  ∃ p, pageIn? u.spaces g.space (g.page i) = some p ∧
    p.kind = .untouched .anonymous (.segment (g.backing d i))

/-- Page number `i` was brought into memory, and is there or in a slot since. -/
def Segment.LoadedIn (g : Segment) (i : Nat) (u : VirtualMemory) : Prop :=
  ∃ p slot, pageIn? u.spaces g.space (g.page i) = some p ∧ p.kind = .anonymous slot ∧
    p.isMaterialised = true

/-- A page that was brought into memory comes from no file any more. -/
theorem Segment.LoadedIn.not_comesFrom (h : g.LoadedIn i u) (why : PageReading) (f : FileId) :
    ¬u.ComesFrom why f g.space (g.page i) := by
  rintro ⟨p, d, page, holds, -⟩
  obtain ⟨q, slot, page', kind, -⟩ := h
  rw [page] at page'
  cases page'
  rw [kind] at holds
  cases holds

/-- An untouched page is read from the file of the segment when it is brought into memory, and not
when it is copied. -/
theorem Segment.UntouchedIn.comesFrom_iff (h : g.UntouchedIn d i u) (why : PageReading)
    (f : FileId) :
    u.ComesFrom why f g.space (g.page i) ↔ why = .bringIn ∧ u.files.fileOf d = f := by
  obtain ⟨p, page, kind⟩ := h
  constructor
  · rintro ⟨q, e, page', holds, file⟩
    rw [page] at page'
    cases page'
    rw [kind] at holds
    cases why with
    | bringIn =>
      cases holds
      exact ⟨rfl, file⟩
    | copy => cases holds
  · rintro ⟨rfl, file⟩
    exact ⟨p, d, page, by rw [kind]; rfl, file⟩

/-- What users see of a page tells whether it is untouched. -/
theorem Segment.untouchedIn_iff :
    g.UntouchedIn d i u ↔
      u.flat.page g.space (g.page i) = some (.untouched (.segment (g.backing d i))) := by
  unfold UntouchedIn flat flatPage
  constructor
  · rintro ⟨p, page, kind⟩
    simp only [page, Option.bind_some, kind]
  · intro shown
    obtain ⟨p, page, shown⟩ := Option.bind_eq_some_iff.mp shown
    refine ⟨p, page, ?_⟩
    split at shown
    · rename_i kind
      cases shown
      exact kind
    · cases shown
    · split at shown <;> cases shown
    · cases shown

theorem Segment.loadedIn_iff :
    g.LoadedIn i u ↔ ∃ bytes, u.flat.page g.space (g.page i) = some (.loaded bytes) := by
  unfold LoadedIn flat flatPage
  constructor
  · rintro ⟨p, slot, page, kind, held⟩
    refine ⟨u.anonymousBytes p, ?_⟩
    simp only [page, Option.bind_some, kind, held, if_true]
  · rintro ⟨bytes, shown⟩
    obtain ⟨p, page, shown⟩ := Option.bind_eq_some_iff.mp shown
    split at shown
    · cases shown
    · cases shown
    · rename_i slot kind
      split at shown
      · exact ⟨p, slot, page, kind, ‹_›⟩
      · cases shown
    · cases shown

/-! ## Bytes of a segment -/

/-- Where byte number `i` is. -/
theorem Segment.place (aligned : g.start.isAligned = true) (i : Nat) :
    (g.address i).floor = g.page (i / pageSize) ∧ (g.address i).pageOffset = i % pageSize :=
  VirtAddr.page_of_byte aligned rfl

/-- The stretches of its pages show the file, and zeros behind what is to be read of it. -/
theorem Segment.contents_backing {m : FileImage}
    (long : g.offset + g.readBytes ≤ (m.contents d).size) (i : Nat) :
    ((g.backing d (i / pageSize)).contents m)[i % pageSize]? = g.byte (m.contents d) i := by
  have inside : i % pageSize < pageSize := Nat.mod_lt _ pageSize_pos
  have parts : i / pageSize * pageSize + i % pageSize = i := Nat.div_add_mod' i pageSize
  have same : i % pageSize < (g.backing d (i / pageSize)).readBytes ↔ i < g.readBytes := by
    simp only [backing]
    omega
  unfold FileBacking.contents byte
  rw [Vector.getElem?_eq_getElem inside, Vector.getElem_ofFn]
  simp only [same]
  split
  · have place : (g.backing d (i / pageSize)).offset + i % pageSize = g.offset + i := by
      simp only [backing]
      omega
    have there : g.offset + i < (m.contents d).size := by omega
    rw [place]
    simp only [backing, Array.getElem?_eq_getElem there, Option.getD_some]
  · rfl

theorem Segment.within_backing {m : FileImage}
    (long : g.offset + g.readBytes ≤ (m.contents d).size) (i : Nat) :
    (g.backing d i).Within m := by
  intro j hj
  simp only [backing] at hj ⊢
  omega

/-! ## Runs -/

section

variable {rs : List Request} {past : List MemoryEvent}

/-- The pages of a segment that was entered stay, untouched or loaded. -/
theorem Segment.Enters.pages (entered : g.Enters d n v w) (coherent : Coherent w none)
    (regions : RegionsBacked w) (keeps : ∀ r ∈ rs, r ≠ .destroySpace g.space) (hi : i < n) :
    g.UntouchedIn d i (after w rs) ∨ g.LoadedIn i (after w rs) := by
  obtain ⟨past, accounted⟩ := exists_accounted_of coherent regions rs
  have shown := Segment.untouchedIn_iff.mp ⟨_, entered.entered i hi, rfl⟩
  have kept := fun e he => accounted.not_dropped keeps e he (g.page i)
  rcases segment_of_history accounted.history shown kept with untouched | ⟨bytes, loaded, -⟩
  · exact .inl (Segment.untouchedIn_iff.mpr untouched)
  · exact .inr (Segment.loadedIn_iff.mpr ⟨bytes, loaded⟩)

/-- A page that was brought into memory once is never untouched again. -/
theorem Segment.LoadedIn.after (h : g.LoadedIn i u) (coherent : Coherent u none)
    (regions : RegionsBacked u) {more : List Request}
    (keeps : ∀ r ∈ more, r ≠ .destroySpace g.space) :
    g.LoadedIn i (VirtualMemory.after u more) := by
  obtain ⟨bytes, shown⟩ := Segment.loadedIn_iff.mp h
  obtain ⟨past, accounted⟩ := exists_accounted_of coherent regions more
  exact Segment.loadedIn_iff.mpr (loaded_of_history accounted.history shown fun e he =>
    accounted.not_dropped keeps e he (g.page i))

/-- A page of a segment in memory is not untouched. -/
theorem Segment.loadedIn_of_inMemory (coherent : Coherent u none)
    (page : g.UntouchedIn d i u ∨ g.LoadedIn i u) (there : InMemory u g.space (g.page i)) :
    g.LoadedIn i u := by
  rcases page with ⟨p, page, kind⟩ | loaded
  · obtain ⟨q, f, page', holds⟩ := there
    rw [page] at page'
    cases page'
    have touched := (coherent.settled page holds).1
    rw [Page.isUntouched, kind] at touched
    cases touched
  · exact loaded

/-- While the file stays as it is, what is loaded from a segment that was entered are the bytes of
the file, and zeros behind them, but for what was stored. -/
theorem Segment.Enters.loads (entered : g.Enters d g.pageCount v w)
    (whole : g.length % pageSize = 0) (aligned : g.start.isAligned = true)
    (history : History w.flat past u.flat) (kept : ∀ e ∈ past, ∀ a, e ≠ .dropped g.space a)
    (unaltered : Unaltered d w.flat past)
    (long : g.offset + g.readBytes ≤ (w.files.image.contents d).size) {a : VirtAddr}
    {bytes : Array UInt8} (loaded : LoadedFrom u g.space a n bytes) {j : Nat} (hj : j < n)
    (hi : i < g.length) (place : a.toNat + j = g.start.toNat + i)
    (unstored : ∀ e ∈ past, ¬e.StoresAt g.space (g.address i)) :
    bytes[j]? = g.byte (w.files.image.contents d) i := by
  have number : i / pageSize < g.pageCount := by
    unfold pageCount
    exact Nat.div_lt_div_of_lt_of_dvd (Nat.dvd_of_mod_eq_zero whole) hi
  obtain ⟨floor, offset⟩ := g.place aligned i
  have here : (⟨a.toNat + j⟩ : VirtAddr) = g.address i := congrArg VirtAddr.mk place
  obtain ⟨q, page, anonymous⟩ := loaded.byte j hj
  rw [here, floor] at page
  rw [here] at anonymous
  have shown := Segment.untouchedIn_iff.mp ⟨_, entered.entered _ number, rfl⟩
  rcases segment_of_history history shown fun e he => kept e he _ with untouched | ⟨b, there, same⟩
  · -- What was loaded is not untouched.
    obtain ⟨p, page', kind⟩ := Segment.untouchedIn_iff.mpr untouched
    rw [page] at page'
    cases page'
    obtain ⟨b, there, -⟩ := anonymous (by rw [Page.type, kind])
    rw [floor, untouched] at there
    cases there
  · obtain ⟨p, slot, page', kind, -⟩ := Segment.loadedIn_iff.mpr ⟨b, there⟩
    rw [page] at page'
    cases page'
    obtain ⟨b', there', byte⟩ := anonymous (by rw [Page.type, kind])
    rw [floor, there] at there'
    cases there'
    rw [byte, same unaltered _ floor unstored, offset]
    exact Segment.contents_backing long i

/-- With nothing in the way, a page of a segment is claimed. -/
theorem Segment.claim_done (coherent : Coherent u none)
    (page : g.UntouchedIn d i u ∨ g.LoadedIn i u) {x : VirtAddr} (here : x.floor = g.page i)
    (long : g.offset + g.readBytes ≤ (u.files.image.contents d).size)
    (complete : (u.files.file (u.files.fileOf d)).shortReads = 0) (maps : u.mmu.failures = 0)
    (frame : ∃ f, (obtainFrame u).result = .ok f) :
    (perform (.claim g.space x) u).result = .ok .done := by
  obtain ⟨p, page, comes, sourced⟩ : ∃ p, pageIn? u.spaces g.space (g.page i) = some p ∧
      p.Comes u.files ∧ p.kind ≠ .untouched .file .zeroFill := by
    unfold Page.Comes
    rcases page with ⟨p, page, kind⟩ | ⟨p, slot, page, kind, -⟩
    · refine ⟨p, page, ?_⟩
      rw [kind]
      exact ⟨FileBacking.comes_of_within (Segment.within_backing long i) complete, nofun⟩
    · refine ⟨p, page, ?_⟩
      rw [kind]
      exact ⟨trivial, nofun⟩
  exact claimed_of_loadable coherent (here ▸ page) frame ⟨comes, sourced, maps⟩

end

/-- What a segment is that was entered with the description `d`, which left `w`, when the requests
`rs` have led on to `u`. -/
structure Segment.Stands (g : Segment) (d : DescriptionId) (w : VirtualMemory) (rs : List Request)
    (u : VirtualMemory) : Prop where
  /-- All pages are there, each untouched or loaded. -/
  pages : ∀ i < g.pageCount, g.UntouchedIn d i u ∨ g.LoadedIn i u
  /-- A file is read only when a page is touched that comes from it. -/
  reads : ∀ r f, (perform r u).state.files.reads f ≠ u.files.reads f →
    ∃ why s a, r.Touches why s a ∧ u.ComesFrom why f s a
  /-- A page of the segment comes from no file but its own, and only while it is untouched and when
  it is brought into memory. -/
  source : ∀ i < g.pageCount, ∀ why f, u.ComesFrom why f g.space (g.page i) ↔
    g.UntouchedIn d i u ∧ why = .bringIn ∧ u.files.fileOf d = f
  /-- A page that is claimed is loaded. -/
  claimed : ∀ i < g.pageCount, ∀ x : VirtAddr, x.floor = g.page i →
    (perform (.claim g.space x) u).result = .ok .done →
    g.LoadedIn i (perform (.claim g.space x) u).state
  /-- It is claimed if the file is long enough, reads are complete, the hardware maps the page and a
  frame is to be had. -/
  claimable : ∀ i < g.pageCount, ∀ x : VirtAddr, x.floor = g.page i →
    g.offset + g.readBytes ≤ (u.files.image.contents d).size →
    (u.files.file (u.files.fileOf d)).shortReads = 0 → u.mmu.failures = 0 →
    (∃ f, (obtainFrame u).result = .ok f) → (perform (.claim g.space x) u).result = .ok .done
  /-- A loaded page stays so, wherever it goes, and comes from no file any more. -/
  settled : ∀ i < g.pageCount, g.LoadedIn i u →
    ∀ more, (∀ r ∈ more, r ≠ .destroySpace g.space) → g.LoadedIn i (after u more) ∧
      ∀ why f, ¬(after u more).ComesFrom why f g.space (g.page i)
  /-- If the file has all that is to be read and stays as it is, a load yields its bytes, and zeros
  behind them, but for what was stored. -/
  loads : ∀ a n bytes past, (perform (.load g.space a n) u).result = .ok (.bytes bytes) →
    Accounted w (rs ++ [.load g.space a n]) (perform (.load g.space a n) u).state past →
    g.offset + g.readBytes ≤ (w.files.image.contents d).size → Unaltered d w.flat past →
    ∀ i j, i < g.length → j < n → a.toNat + j = g.start.toNat + i →
      (∀ e ∈ past, ¬e.StoresAt g.space (g.address i)) →
      bytes[j]? = g.byte (w.files.image.contents d) i

variable {rs : List Request}

theorem Segment.Enters.stands (entered : g.Enters d g.pageCount v w)
    (whole : g.length % pageSize = 0) (aligned : g.start.isAligned = true)
    (coherent : Coherent w none) (regions : RegionsBacked w)
    (keeps : ∀ r ∈ rs, r ≠ .destroySpace g.space) : g.Stands d w rs (after w rs) := by
  obtain ⟨coherent', regions'⟩ := inOrder_after_of coherent regions rs
  have pages : ∀ i < g.pageCount, g.UntouchedIn d i (after w rs) ∨ g.LoadedIn i (after w rs) :=
    fun i => entered.pages coherent regions keeps
  -- A claim or a load that follows leaves the space alone, too.
  have further : ∀ last : Request, last ≠ .destroySpace g.space →
      ∀ r ∈ rs ++ [last], r ≠ .destroySpace g.space := by
    intro last other r hr
    rcases List.mem_append.mp hr with before | final
    · exact keeps r before
    · cases List.mem_singleton.mp final
      exact other
  constructor
  case pages => exact pages
  case reads =>
    intro r f read
    by_contra none
    exact read (perform_reads coherent' fun why s a touches comes =>
      none ⟨why, s, a, touches, comes⟩)
  case source =>
    intro i hi why f
    rcases pages i hi with untouched | loaded
    · rw [untouched.comesFrom_iff]
      exact (and_iff_right untouched).symm
    · exact ⟨fun comes => absurd comes (loaded.not_comesFrom why f),
        fun ⟨untouched, source⟩ => (untouched.comesFrom_iff why f).mpr source⟩
  case claimed =>
    intro i hi x here done
    have next := entered.pages coherent regions (further (.claim g.space x) nofun) hi
    rw [after_concat] at next
    rcases (perform_claim_ends coherent' g.space x).of_ok done with ⟨-, claimed⟩ | ⟨_, refused, -⟩
    · exact Segment.loadedIn_of_inMemory claimed.coherent next (here ▸ claimed.inMemory)
    · cases refused
  case claimable => exact fun i hi x here => Segment.claim_done coherent' (pages i hi) here
  case settled =>
    intro i _ loaded more keeps
    have still := loaded.after coherent' regions' keeps
    exact ⟨still, still.not_comesFrom⟩
  case loads =>
    intro a n bytes past reply accounted long unaltered i j hi hj place unstored
    have loaded := (perform_served coherent' regions' (.load g.space a n)).loaded _ _ _ _ rfl reply
    exact entered.loads whole aligned accounted.history
      (accounted.not_dropped (further (.load g.space a n) nofun)) unaltered long loaded hj hi place
      unstored

end

/-- Whenever a segment is entered: its pages are all there then, one after another, none of them was
there before, and no file was read. Whatever is requested from then on and in whatever order its
pages are touched, the segment stands as long as its space does. -/
theorem segment_shows_file {v : VirtualMemory} (reached : Reached v) (g : Segment)
    (done : (perform g.request v).result = .ok .done) :
    let w := (perform g.request v).state
    ∃ d, v.Holds g.file d ∧ g.start.isAligned = true ∧ g.length = g.pageCount * pageSize ∧
      g.Enters d g.pageCount v w ∧ (∀ f, w.files.reads f = v.files.reads f) ∧
      ∀ rs, (∀ r ∈ rs, r ≠ .destroySpace g.space) →
        (∃ past, Accounted w rs (after w rs) past) ∧ g.Stands d w rs (after w rs) := by
  intro w
  obtain ⟨coherent, -⟩ := reached.inOrder
  obtain ⟨d, held, coherent', whole, aligned, entered⟩ :=
    (perform_loadSegment_ends coherent g).of_ok done rfl
  have regions' := (reached.served g.request).regions
  refine ⟨d, held, aligned, (Nat.div_mul_cancel (Nat.dvd_of_mod_eq_zero whole)).symm, entered,
    fun f => perform_reads coherent fun why s a touches => ?_, fun rs keeps => ?_⟩
  · cases why <;> exact touches.elim
  exact ⟨exists_accounted_of coherent' regions' rs,
    entered.stands whole aligned coherent' regions' keeps⟩

/-- A page of a file is in one of two frames. -/
def occupied : VirtualMemory :=
  after (new 2 64).1 [.createSpace, .createFile #[17, 18, 19],
    .mapFile ⟨1⟩ ⟨16384⟩ 3 false ⟨0⟩ 0, .claim ⟨1⟩ ⟨16384⟩]

/-- Two pages, which show two bytes of the file. -/
def twoPages : Segment := ⟨⟨1⟩, ⟨0⟩, 0, ⟨4096⟩, 2, 8190, false⟩

/-- The second page is claimed before the first. -/
def backwards : List Request := [.claim ⟨1⟩ ⟨8192⟩, .claim ⟨1⟩ ⟨4096⟩]

/-- Neither this nor a load that follows changes the file or stores anything. -/
theorem quiet_backwards (r : Request) (among : r ∈ backwards ++ [.load ⟨1⟩ ⟨4096⟩ 3])
    (u : VirtualMemory) (e : MemoryEvent) (caused : r.Causes u e) :
    (∀ n, e ≠ .resized ⟨0⟩ n) ∧ ∀ x, ¬e.StoresAt ⟨1⟩ x := by
  have quiet : r.isStore = false ∧ ∀ n, ¬r.Causes u (.resized ⟨0⟩ n) := by
    simp only [backwards, List.cons_append, List.nil_append, List.mem_cons, List.not_mem_nil,
      or_false] at among
    rcases among with rfl | rfl | rfl <;> exact ⟨rfl, fun _ => id⟩
  refine ⟨fun n same => quiet.2 n (same ▸ caused), fun x stores => ?_⟩
  have stored := Request.not_isStored_of_causes quiet.1 caused
  cases e <;> first | exact stores.elim | cases stored

/-- The page of the file has to make room for the first page of the segment, which then shows what
it should. -/
theorem segment_shows_file_backwards :
    (pageIn? (after (perform twoPages.request occupied).state backwards).spaces
        ⟨1⟩ ⟨16384⟩).bind Page.frame = none ∧
      ∃ bytes, (perform (.load ⟨1⟩ ⟨4096⟩ 3)
          (after (perform twoPages.request occupied).state backwards)).result = .ok (.bytes bytes) ∧
        bytes[0]? = some 17 ∧ bytes[1]? = some 18 ∧ bytes[2]? = some 0 := by
  refine ⟨by decide +kernel, ?_⟩
  obtain ⟨d, ⟨x, file, handle⟩, -, -, -, -, all⟩ :=
    segment_shows_file (v := occupied) (reached_after 2 64 _) twoPages (by decide +kernel)
  obtain rfl : d = ⟨0⟩ := by
    have own : occupied.files.files[twoPages.file.index]?.bind StoredFile.handle = some ⟨0⟩ := by
      decide +kernel
    rw [file, Option.bind_some, handle] at own
    exact Option.some.inj own
  obtain ⟨-, stands⟩ := all backwards (by simp [backwards])
  obtain ⟨⟨past, accounted⟩, -⟩ := all (backwards ++ [.load ⟨1⟩ ⟨4096⟩ 3]) (by simp [backwards])
  have quiet := accounted.all quiet_backwards
  rw [after_concat] at accounted
  generalize later : after (perform twoPages.request occupied).state backwards = u at *
  have unaltered : Unaltered ⟨0⟩ (perform twoPages.request occupied).state.flat past :=
    unaltered_of_unwritten (f := ⟨0⟩) (x := (#[17, 18, 19], [])) accounted.history
      (by decide +kernel) (by decide +kernel) (fun e he => (quiet e he).1) (later ▸ by decide +kernel)
  obtain ⟨bytes, result⟩ : ∃ bytes, (perform (.load ⟨1⟩ ⟨4096⟩ 3) u).result = .ok (.bytes bytes) :=
    exists_bytes (later ▸ by decide +kernel)
  have shows := fun i byte => stands.loads ⟨4096⟩ 3 bytes past result accounted
    (by decide +kernel) unaltered i i byte
  refine ⟨bytes, result, ?_, ?_, ?_⟩
  · rw [shows 0 (by decide) (by decide) rfl fun e he => (quiet e he).2 _]
    decide +kernel
  · rw [shows 1 (by decide) (by decide) rfl fun e he => (quiet e he).2 _]
    decide +kernel
  · rw [shows 2 (by decide) (by decide) rfl fun e he => (quiet e he).2 _]
    decide +kernel

end KernelCore.VirtualMemory
