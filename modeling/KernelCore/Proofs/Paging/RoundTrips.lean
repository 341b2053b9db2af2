import KernelCore.Proofs.Paging.Mirroring
import KernelCore.Proofs.Paging.SpaceCopies

/-!
# Files that are mapped, used and unmapped

While a file is mapped, whatever requests are made that leave the mapping to its users, loads from
it yield what was stored there last, else what the file had. Once the mapping is taken back the file
has the same. What is written to the file meanwhile are whole pages of the mapping that were stored
to.
-/
namespace KernelCore

/-! ## What requests do to the cache -/

namespace CacheEvent

variable {e : CacheEvent} {space parent child : SpaceId} {gone starts : VirtAddr → Prop}

theorem IsPaging.plain (h : e.IsPaging) : ¬e.Enters ∧ ¬e.Opens := by
  cases e <;> first | exact ⟨id, id⟩ | exact h.elim

theorem IsTaking.plain (h : e.IsTaking space gone starts) : ¬e.Enters ∧ ¬e.Opens := by
  cases e <;> first | exact ⟨id, id⟩ | exact h.elim

theorem IsStoreOrPaging.plain (h : e.IsStoreOrPaging space) : ¬e.Enters ∧ ¬e.Opens := by
  rcases h with ⟨a, offset, bytes, rfl⟩ | paging
  · exact ⟨id, id⟩
  · exact paging.plain

theorem IsCopyAttempt.keeps (h : e.IsCopyAttempt parent child) :
    (∀ s a, ¬e.Removes s a) ∧ ¬e.Opens := by
  refine ⟨?_, ?_⟩
  · rintro s a (rfl | ⟨f, w, rfl⟩) <;> exact h.elim
  · intro opens
    cases e <;> first | exact opens.elim | exact h.elim

theorem exists_sender {f : FileId} {w : FileWrite} (h : e.write? f = some w) :
    ∃ s a, e.sender? = some (s, a) := by
  cases e <;> first | exact ⟨_, _, rfl⟩ | cases h

end CacheEvent

namespace VirtualMemory

open Transition

variable {v w : VirtualMemory} {r : Request} {e : CacheEvent} {es past : List CacheEvent}
  {result : Except Violation Reply}

/-- A request that sends pages to their files opens no files, and either it adds no pages or it takes
none away. -/
theorem Request.sends_cases {o : SpaceId × VirtAddr} (caused : r.CausesInCache v e)
    (sender : e.sender? = some o) :
    (∀ e, r.CausesInCache v e → ¬e.Enters ∧ ¬e.Opens) ∨
      ∀ e, r.CausesInCache v e → (∀ s a, ¬e.Removes s a) ∧ ¬e.Opens := by
  cases r with
  | destroySpace | unmapFile => exact .inl fun _ taking => taking.plain
  | duplicateSpace => exact .inr fun _ copying => copying.keeps
  | setupStack | claim | fault | load => exact .inl fun _ paging => paging.plain
  | store => exact .inl fun _ storing => storing.plain
  | createFile =>
    obtain ⟨_, rfl⟩ := caused
    cases sender
  | touch =>
    obtain ⟨-, rfl⟩ := caused
    cases sender
  | poke | setFileLength | setShortWrites =>
    cases caused
    cases sender
  | _ => cases e <;> first | exact caused.elim | cases sender

/-- The request is to take pages and regions away. -/
def Request.Takes : Request → Prop
  | .destroySpace _ | .unmapFile .. => True
  | _ => False

theorem Request.keeps_of_causes (keeps : ¬r.Takes) (caused : r.CausesInCache v e) :
    (∀ s a, ¬e.Removes s a) ∧ ∀ s a, e ≠ .unmapped s a := by
  suffices none : ∀ s a, ¬((e = .removed s a ∨ ∃ f w, e = .lost s a f w) ∨ e = .unmapped s a) from
    ⟨fun s a removes => none s a (.inl removes), fun s a unmaps => none s a (.inr unmaps)⟩
  rintro s a ((rfl | ⟨f, w, rfl⟩) | rfl)
  all_goals
    cases r with
    | destroySpace | unmapFile => exact keeps trivial
    | touch | createFile =>
      obtain ⟨_, same⟩ := caused
      cases same
    | poke | setFileLength | setShortWrites => cases caused
    | store =>
      rcases caused with ⟨_, _, _, same⟩ | paging
      · cases same
      · exact paging.elim
    | _ => exact caused.elim

/-! ## Mappings -/

/-- A stretch of a file that is mapped. -/
structure FileMapping where
  space : SpaceId
  start : VirtAddr
  length : Nat
  file : FileId
  /-- The description of the file that the mapping opened. -/
  own : DescriptionId
  offset : Nat
  /-- How many bytes of the file there are to be shown. -/
  covered : Nat

namespace FileMapping

variable (m : FileMapping)

def pageCount : Nat := (m.length + (pageSize - 1)) / pageSize

def pageAt (i : Nat) : VirtAddr := ⟨m.start.toNat + i * pageSize⟩

/-- What page number `i` shows of the file. -/
def stretch (i : Nat) : FileBacking :=
  ⟨m.own, m.offset + i * pageSize, min (m.covered - i * pageSize) pageSize, Nat.min_le_right _ _⟩

def HasPage (s : SpaceId) (a : VirtAddr) : Prop :=
  s = m.space ∧ ∃ i, i < m.pageCount ∧ a = m.pageAt i

/-- What was stored last at byte number `j` of the mapping, if anything was. -/
def stored (past : List CacheEvent) (j : Nat) : Option UInt8 :=
  lastStored past m.space (m.pageAt (j / pageSize)) (j % pageSize)

/-- The request leaves the mapped file and the pages of the mapping to users: it neither changes the
length of the file nor lets writes to it come short, and pages are overwritten only by storing. -/
def Spares : Request → Prop
  | .poke space va _ => ¬m.HasPage space va.floor
  | .touch space va write => write = true → ¬m.HasPage space va.floor
  | .setFileLength f _ => f ≠ m.file
  | .setShortWrites f n => f = m.file → n = 0
  | _ => True

/-- The request takes the mapping back. -/
def Closes : Request → Prop
  | .unmapFile space start => space = m.space ∧ start = m.start
  | .destroySpace space => space = m.space
  | _ => False

/-- The bytes of the file that are mapped are shown by the pages of the mapping only. -/
def Alone (v : VirtualMemory) : Prop :=
  ∀ s a b j, mappedIn? v.spaces s a = some b → j < m.covered →
    b.Shows v.files.image m.file (m.offset + j) → s = m.space ∧ a = m.pageAt (j / pageSize)

/-- A page of the mapping is sent to the file. -/
def Sends (e : CacheEvent) : Prop := ∃ i, i < m.pageCount ∧ e.sender? = some (m.space, m.pageAt i)

variable {m} {i k : Nat}

/-- The page that shows a byte is the one with its number. -/
theorem index_of_mem_stretch (first : (m.stretch i).offset ≤ k)
    (last : k < (m.stretch i).offset + (m.stretch i).readBytes) :
    ∃ j, k = m.offset + j ∧ j < m.covered ∧ j / pageSize = i := by
  simp only [stretch, pageSize] at *
  exact ⟨k - m.offset, by omega, by omega, by omega⟩

theorem div_lt_pageCount {j : Nat} (hj : j < m.pageCount * pageSize) : j / pageSize < m.pageCount :=
  Nat.div_lt_of_lt_mul (Nat.mul_comm _ _ ▸ hj)

theorem mod_lt_readBytes {j : Nat} :
    j % pageSize < (m.stretch (j / pageSize)).readBytes ↔ j < m.covered := by
  simp only [stretch, pageSize]
  omega

theorem offset_stretch (j : Nat) :
    (m.stretch (j / pageSize)).offset + j % pageSize = m.offset + j := by
  simp only [stretch, pageSize]
  omega

/-- A byte of a mapping lies in one of its pages. -/
theorem page_of_byte (aligned : m.start.isAligned = true) {a j : Nat}
    (place : a = m.start.toNat + j) :
    (⟨a⟩ : VirtAddr).floor = m.pageAt (j / pageSize) ∧
      (⟨a⟩ : VirtAddr).pageOffset = j % pageSize :=
  VirtAddr.page_of_byte aligned place

/-- What comes from a page elsewhere misses the stretches of the mapping. -/
theorem Alone.misses {s : SpaceId} {a : VirtAddr} {q : CachedPage} {x : FileWrite}
    (alone : m.Alone v) (page : v.cache.page s a = some q)
    (enclosed : q.backing.Encloses v.cache.files m.file x)
    (elsewhere : some (s, a) ≠ some (m.space, m.pageAt i)) (first : (m.stretch i).offset ≤ k)
    (last : k < (m.stretch i).offset + (m.stretch i).readBytes) : ¬x.Covers k := by
  intro covers
  obtain ⟨j, rfl, inside, rfl⟩ := index_of_mem_stretch first last
  have mapped : mappedIn? v.spaces s a = some q.backing := by
    rw [← backing_cache, page, Option.map_some]
  obtain ⟨rfl, rfl⟩ := alone s a q.backing j mapped inside (enclosed.shows covers)
  exact elsewhere rfl

/-- Where no pages are added, pages elsewhere miss the stretches of a mapping that is alone at the
start. -/
theorem Alone.misses_before {c : PageCache} {x : FileWrite} (alone : m.Alone v)
    (history : CacheHistory v.cache es c) (plain : ∀ e ∈ es, ¬e.Enters ∧ ¬e.Opens) (he : e ∈ es)
    (write : e.write? m.file = some x) (elsewhere : e.sender? ≠ some (m.space, m.pageAt i))
    (first : (m.stretch i).offset ≤ k)
    (last : k < (m.stretch i).offset + (m.stretch i).readBytes) : ¬x.Covers k := by
  obtain ⟨s, a, sender⟩ := CacheEvent.exists_sender write
  obtain ⟨q, page, enclosed⟩ := history.write_enclosed_before plain he write sender
  rw [sender] at elsewhere
  exact alone.misses page enclosed elsewhere first last

/-- Where no pages are taken away, pages elsewhere miss the stretches of a mapping that is alone in
the end. -/
theorem Alone.misses_after {c : PageCache} {x : FileWrite} (alone : m.Alone w)
    (history : CacheHistory c es w.cache)
    (plain : ∀ e ∈ es, (∀ s a, ¬e.Removes s a) ∧ ¬e.Opens) (he : e ∈ es)
    (write : e.write? m.file = some x) (elsewhere : e.sender? ≠ some (m.space, m.pageAt i))
    (first : (m.stretch i).offset ≤ k)
    (last : k < (m.stretch i).offset + (m.stretch i).readBytes) : ¬x.Covers k := by
  obtain ⟨s, a, sender⟩ := CacheEvent.exists_sender write
  obtain ⟨q, page, enclosed⟩ := history.write_enclosed_after plain he write sender
  rw [sender] at elsewhere
  exact alone.misses page enclosed elsewhere first last

/-- A request that spares a mapping does nothing to its pages and its file but what users ask for. -/
theorem Spares.untampered (spares : m.Spares r) (caused : r.CausesInCache v e)
    (hi : i < m.pageCount) : e.Untampered m.file m.space (m.pageAt i) := by
  cases r with
  | poke =>
    cases caused
    exact fun here => spares ⟨here.1, i, hi, here.2⟩
  | touch =>
    obtain ⟨rfl, rfl⟩ := caused
    exact fun here => spares rfl ⟨here.1, i, hi, here.2⟩
  | setFileLength =>
    cases caused
    exact spares
  | setShortWrites =>
    cases caused
    exact spares
  | createFile =>
    obtain ⟨_, rfl⟩ := caused
    exact trivial
  | store =>
    rcases caused with ⟨_, _, _, rfl⟩ | paging
    · exact trivial
    · cases e <;> first | exact trivial | exact paging.elim
  | _ => cases e <;> first | exact trivial | exact caused.elim

/-- Only a request that takes the mapping back takes its pages or its region away. -/
theorem not_taken {x : Region} (regions : RegionsBacked v)
    (region : regionIn? v.spaces m.space m.start = some x) (hi : i < x.pageCount)
    (stays : ¬m.Closes r) (caused : r.CausesInCache v e) :
    ¬e.Removes m.space (m.pageAt i) ∧ e ≠ .unmapped m.space m.start := by
  have taken : ∀ {gone starts : VirtAddr → Prop} {space : SpaceId},
      e.IsTaking space gone starts → (m.space = space → gone (m.pageAt i) → False) →
      (m.space = space → starts m.start → False) →
      ¬e.Removes m.space (m.pageAt i) ∧ e ≠ .unmapped m.space m.start := by
    intro gone starts space taking pages start
    refine ⟨?_, ?_⟩
    · rintro (rfl | ⟨f, w, rfl⟩) <;> exact pages taking.1 taking.2
    · rintro rfl
      exact start taking.1 taking.2
  by_cases taking : r.Takes
  · cases r with
    | destroySpace space =>
      exact taken caused (fun here _ => stays here.symm) fun here _ => stays here.symm
    | unmapFile space start =>
      refine taken caused (fun here gone => ?_) fun here same => stays ⟨here.symm, same.symm⟩
      subst here
      obtain ⟨y, region', mem⟩ := gone
      obtain ⟨j, hj, same⟩ := mem_pageStarts.mp mem
      have places := congrArg VirtAddr.toNat same.symm
      exact stays ⟨rfl, (regions.disjoint region region' hi hj places).symm⟩
    | _ => exact taking.elim
  · obtain ⟨kept, mapped⟩ := r.keeps_of_causes taking caused
    exact ⟨kept _ _, mapped _ _⟩

variable (m) in
/-- What a history did to the mapped file: it kept its length, and was written to only by pages of
the mapping that had been stored to, one page at a time, where the mapping shows it. -/
structure Faithful (original : FileImage) (past : List CacheEvent) (v : VirtualMemory) : Prop where
  size : (v.files.image.bytes m.file).size = (original.bytes m.file).size
  recorded : v.files.image.writes m.file =
    original.writes m.file ++ past.reverse.filterMap (CacheEvent.write? m.file)
  returned : ∀ i, i < m.pageCount →
    Returned original m.file (m.stretch i) m.space (m.pageAt i) past
  /-- Pages that are never stored to are never written. -/
  unstored : ∀ i, i < m.pageCount →
    (∀ offset bytes, .stored m.space (m.pageAt i) offset bytes ∉ past) →
    ∀ e ∈ past, e.sender? ≠ some (m.space, m.pageAt i)
  /-- What other pages write is somewhere else in the file. -/
  foreign : ∀ e ∈ past, ∀ x, e.write? m.file = some x → ¬m.Sends e →
    ∀ j, j < m.covered → ¬x.Covers (m.offset + j)
  /-- The rest of the file is as it was unless other pages write there. -/
  outside : ∀ k, k < m.offset ∨ m.offset + m.covered ≤ k →
    (∀ e ∈ past, ∀ x, e.write? m.file = some x → ¬m.Sends e → ¬x.Covers k) →
    v.files.image.byte m.file k = original.byte m.file k

variable (m) in
/-- The mapping is in place and every page of it mirrors its stretch of the file. -/
structure Kept (original : FileImage) (past : List CacheEvent) (v : VirtualMemory) : Prop where
  aligned : m.start.isAligned = true
  positive : 0 < m.pageCount
  whole : m.covered ≤ m.pageCount * pageSize
  region : regionIn? v.spaces m.space m.start = some ⟨m.pageCount, m.own⟩
  pages : ∀ i, i < m.pageCount → (v.cache.page m.space (m.pageAt i)).isSome = true
  mirrored : ∀ i, i < m.pageCount →
    Mirrored original m.file (m.stretch i) m.space (m.pageAt i) past v.cache
  faithful : m.Faithful original past v

variable {original : FileImage}

/-- What a page of the mapping sends is within the stretch that is mapped. -/
theorem inside_of_returned (returned : Returned original m.file (m.stretch i) m.space (m.pageAt i) past)
    {x : FileWrite} (he : e ∈ past) (sender : e.sender? = some (m.space, m.pageAt i))
    (write : e.write? m.file = some x) (covers : x.Covers k) :
    m.offset ≤ k ∧ k < m.offset + m.covered := by
  obtain ⟨newer, older, rfl⟩ := List.append_of_mem he
  obtain ⟨y, rfl, -, sent⟩ := returned e older (List.suffix_append _ _) sender
  have same : y = some x := (if_pos rfl).symm.trans write
  have offset := (sent x same).offset
  have size := (sent x same).size
  simp only [stretch] at offset size
  obtain ⟨first, last⟩ := covers
  exact ⟨by omega, by omega⟩

/-- Events that spare a mapping keep the file as it should be. -/
theorem Faithful.history (h : m.Faithful original past v) (positive : 0 < m.pageCount)
    (whole : m.covered ≤ m.pageCount * pageSize)
    (present : m.file.index < v.cache.files.files.length)
    (history : CacheHistory v.cache es w.cache)
    (spares : ∀ i, i < m.pageCount → ∀ e ∈ es,
      e.Spares m.file (m.stretch i) m.space (m.pageAt i))
    (mirrored : ∀ i, i < m.pageCount →
      Mirrored original m.file (m.stretch i) m.space (m.pageAt i) (es ++ past) w.cache) :
    m.Faithful original (es ++ past) w where
  size := (mirrored 0 positive).steady.size
  recorded := by
    have recorded : w.files.image.writes m.file =
        v.files.image.writes m.file ++ es.reverse.filterMap (CacheEvent.write? m.file) :=
      history.writes present
    rw [recorded, h.recorded, List.reverse_append, List.filterMap_append, List.append_assoc]
  returned i hi := (mirrored i hi).returned
  unstored i hi unstored e he sender := by
    obtain ⟨newer, older, split⟩ := List.append_of_mem he
    obtain ⟨-, -, modified, -⟩ :=
      (mirrored i hi).returned e older (split ▸ List.suffix_append _ _) sender
    obtain ⟨offset, bytes, stored⟩ := modified.exists_stored
    refine unstored offset bytes ?_
    rw [split]
    exact List.mem_append_right _ (List.mem_cons_of_mem _ stored)
  foreign e he x write other j hj := by
    rcases List.mem_append.mp he with he | he
    · have page := div_lt_pageCount (Nat.lt_of_lt_of_le hj whole)
      have inside := mod_lt_readBytes.mpr hj
      rw [← offset_stretch]
      exact (spares _ page e he).missed x write (fun sender => other ⟨_, page, sender⟩) _
        (Nat.le_add_right _ _) (Nat.add_lt_add_left inside _)
    · exact h.foreign e he x write other j hj
  outside k beyond unwritten := by
    refine Eq.trans ?_ (h.outside k beyond fun e he => unwritten e (List.mem_append_right _ he))
    refine history.byte_of_missed present (fun e he => (spares 0 positive e he).unresized)
      fun e he x write covers => ?_
    by_cases own : m.Sends e
    · obtain ⟨i, hi, sender⟩ := own
      have inside := inside_of_returned (mirrored i hi).returned (List.mem_append_left _ he) sender
        write covers
      omega
    · exact unwritten e (List.mem_append_left _ he) x write own covers

/-- What serving a request preserves that leaves the mapping to its users. -/
theorem Kept.tells (h : m.Kept original past v) (regions : RegionsBacked v) (spares : m.Spares r)
    (stays : ¬m.Closes r) (alone : m.Alone v) (alone' : m.Alone w) (tells : Tells r v result w es) :
    m.Kept original (es ++ past) w := by
  have kept : ∀ i, i < m.pageCount → ∀ e ∈ es,
      ¬e.Removes m.space (m.pageAt i) ∧ e ≠ .unmapped m.space m.start := fun i hi e he =>
    not_taken regions h.region hi stays (tells.caused e he)
  have spared : ∀ i, i < m.pageCount → ∀ e ∈ es,
      e.Spares m.file (m.stretch i) m.space (m.pageAt i) := by
    intro i hi e he
    refine ⟨spares.untampered (tells.caused e he) hi, fun x write elsewhere k first last => ?_⟩
    obtain ⟨s, a, sender⟩ := CacheEvent.exists_sender write
    rcases Request.sends_cases (tells.caused e he) sender with plain | plain
    · exact alone.misses_before tells.history (fun e he => plain e (tells.caused e he)) he write
        elsewhere first last
    · exact alone'.misses_after tells.history (fun e he => plain e (tells.caused e he)) he write
        elsewhere first last
  have mirrored : ∀ i, i < m.pageCount →
      Mirrored original m.file (m.stretch i) m.space (m.pageAt i) (es ++ past) w.cache :=
    fun i hi => (h.mirrored i hi).history tells.history (spared i hi)
      (.inl ⟨h.pages i hi, fun e he => (kept i hi e he).1⟩)
  refine ⟨h.aligned, h.positive, h.whole, ?_, fun i hi => ?_, mirrored, ?_⟩
  · exact tells.history.region (fun e he => (kept 0 h.positive e he).2) h.region
  · obtain ⟨p, page⟩ := Option.isSome_iff_exists.mp (h.pages i hi)
    obtain ⟨q, after, -⟩ := tells.history.page_after (fun e he => (kept i hi e he).1) page
    rw [after, Option.isSome_some]
  · exact h.faithful.history h.positive h.whole (h.mirrored 0 h.positive).steady.present
      tells.history spared mirrored

/-- A load from the mapping yields what was stored there last, else what the file had. -/
theorem Kept.loads (h : m.Kept original past v) (alone : m.Alone v) {a : VirtAddr}
    {bytes : Array UInt8} (cached : CachedFrom v m.space a bytes) {i j : Nat} (hi : i < bytes.size)
    (hj : j < m.pageCount * pageSize) (place : a.toNat + i = m.start.toNat + j) :
    (j < m.covered →
      bytes[i]? = some ((m.stored past j).getD (original.byte m.file (m.offset + j)))) ∧
      (m.covered ≤ j → m.stored past j = none → bytes[i]? = some 0) := by
  obtain ⟨c, ⟨es, kinds, history⟩, held⟩ := cached i hi
  obtain ⟨floor, offset⟩ := page_of_byte h.aligned place
  have page := div_lt_pageCount hj
  have stays : ∀ e ∈ es, ¬e.Removes m.space (m.pageAt (j / pageSize)) := by
    rintro e he (rfl | ⟨f, x, rfl⟩) <;> exact kinds _ he
  have spares : ∀ e ∈ es, e.Spares m.file (m.stretch (j / pageSize)) m.space
      (m.pageAt (j / pageSize)) := by
    intro e he
    have kind := kinds e he
    refine ⟨?_, fun x write elsewhere k => ?_⟩
    · cases e <;> first | exact trivial | exact kind.elim
    · exact alone.misses_before history (fun e he => (kinds e he).plain) he write elsewhere
  have mirrored := (h.mirrored _ page).history history spares (.inl ⟨h.pages _ page, stays⟩)
  obtain ⟨p, before⟩ := Option.isSome_iff_exists.mp (h.pages _ page)
  obtain ⟨q, there, -⟩ := history.page_after stays before
  rw [floor, offset] at held
  obtain ⟨x, inMemory, byte⟩ := held q there
  have same : lastStored (es ++ past) m.space (m.pageAt (j / pageSize)) (j % pageSize) =
      m.stored past j :=
    lastStored_append fun e he => CacheEvent.store?_of_isPaging (kinds e he)
  obtain ⟨front, rest⟩ := mirrored.loaded (i := j % pageSize) there inMemory
  rw [same, offset_stretch] at front
  rw [same] at rest
  rw [byte]
  refine ⟨fun inside => front (mod_lt_readBytes.mpr inside), fun beyond unstored => ?_⟩
  refine rest (Nat.le_of_not_lt fun inside => ?_) (Nat.mod_lt _ pageSize_pos) unstored
  exact Nat.not_lt.mpr beyond (mod_lt_readBytes.mp inside)

/-- When the mapping is taken back, its file has what was stored last, else what it had. -/
theorem Kept.closed (h : m.Kept original past v) (alone : m.Alone v) (closes : m.Closes r)
    (tells : Tells r v result w es)
    (gone : ∀ i, i < m.pageCount → pageIn? w.spaces m.space (m.pageAt i) = none) :
    m.Faithful original (es ++ past) w ∧ ∀ j, j < m.covered →
      w.files.image.byte m.file (m.offset + j) =
        (m.stored past j).getD (original.byte m.file (m.offset + j)) := by
  have spares : m.Spares r := by
    cases r <;> first | exact trivial | exact closes.elim
  have store : r.isStore = false := by
    cases r <;> first | rfl | exact closes.elim
  have unstored : ∀ e ∈ es, e.store? = none := fun e he =>
    Request.store?_of_causesInCache store (tells.caused e he)
  have plain : ∀ e ∈ es, ¬e.Enters ∧ ¬e.Opens := by
    intro e he
    have caused := tells.caused e he
    cases r with
    | destroySpace | unmapFile => exact CacheEvent.IsTaking.plain caused
    | _ => exact closes.elim
  have spared : ∀ i, i < m.pageCount → ∀ e ∈ es,
      e.Spares m.file (m.stretch i) m.space (m.pageAt i) := fun i hi e he =>
    ⟨spares.untampered (tells.caused e he) hi, fun x write elsewhere k =>
      alone.misses_before tells.history plain he write elsewhere⟩
  have mirrored : ∀ i, i < m.pageCount →
      Mirrored original m.file (m.stretch i) m.space (m.pageAt i) (es ++ past) w.cache :=
    fun i hi => (h.mirrored i hi).history tells.history (spared i hi)
      (.inr fun e he => ⟨(plain e he).1, unstored e he⟩)
  refine ⟨h.faithful.history h.positive h.whole (h.mirrored 0 h.positive).steady.present
    tells.history spared mirrored, fun j hj => ?_⟩
  have page := div_lt_pageCount (Nat.lt_of_lt_of_le hj h.whole)
  have settled := (mirrored _ page).settled (cache_page_of_absent (gone _ page))
    (mod_lt_readBytes.mpr hj)
  rw [offset_stretch, lastStored_append unstored] at settled
  exact settled

/-- Taking back a mapping that is there succeeds, and takes all its pages. -/
theorem Kept.closes_ends (h : m.Kept original past v) (coherent : Coherent v none)
    (regions : RegionsBacked v) (closes : m.Closes r) :
    (perform r v).result = .ok .done ∧ ∀ i, i < m.pageCount →
      pageIn? (perform r v).state.spaces m.space (m.pageAt i) = none := by
  have served : (serve r).Ends v (fun reply w => reply = .done ∧ ∀ i, i < m.pageCount →
      pageIn? w.spaces m.space (m.pageAt i) = none) fun _ _ => False := by
    have region := h.region
    cases r with
    | destroySpace space =>
      have same : space = m.space := closes
      subst same
      unfold serve done
      rw [ends_bind]
      refine (destroySpace_ends coherent regions).mono
        (fun _ w destroyed => ⟨rfl, fun i _ => destroyed.absent _⟩) fun e w stopped => ?_
      unfold regionIn? at region
      rw [stopped.2.1] at region
      cases region
    | unmapFile space start =>
      obtain ⟨rfl, rfl⟩ := closes
      unfold serve done
      rw [ends_bind]
      refine (unmapFile_ends coherent regions).mono (fun _ w unmapped => ⟨rfl, fun i hi => ?_⟩)
        fun e w stopped => ?_
      · exact unmapped.absent _ ⟨_, region, mem_pageStarts.mpr ⟨i, hi, rfl⟩⟩
      · rw [stopped.2.1] at region
        cases region
    | _ => exact closes.elim
  obtain ⟨reply, result, rfl, gone⟩ :=
    (perform_ends_of_serve (served.mono (fun _ _ both => both) fun _ _ stops => stops.elim)).exists_ok
  exact ⟨result, gone⟩

end FileMapping

/-! ## Runs -/

/-- The events of a run, newest first, tell request by request what happened to the page cache. -/
inductive Told (start : VirtualMemory) : List Request → VirtualMemory → List CacheEvent → Prop
  | nil : Told start [] start []
  | concat {rs : List Request} {v : VirtualMemory} {past es : List CacheEvent} (r : Request) :
    Told start rs v past → Tells r v (perform r v).result (perform r v).state es →
    Told start (rs ++ [r]) (perform r v).state (es ++ past)

variable {start : VirtualMemory} {rs : List Request}

theorem Told.state (h : Told start rs v past) : v = after start rs := by
  induction h with
  | nil => rfl
  | concat r _ _ ih => rw [after_concat, ih]

/-- A history of a run ends with what the last request did. -/
theorem Told.last {r : Request} (h : Told start (rs ++ [r]) v past) :
    ∃ es before, past = es ++ before ∧ Told start rs (after start rs) before ∧
      Tells r (after start rs) (perform r (after start rs)).result (perform r (after start rs)).state es := by
  generalize whole : rs ++ [r] = all at h
  cases h with
  | nil => simp at whole
  | concat r' told tells =>
    obtain ⟨rfl, same⟩ := List.append_inj' whole rfl
    cases same
    have state := told.state
    subst state
    exact ⟨_, _, rfl, told, tells⟩

/-- Without a request to store nothing is stored. -/
theorem Told.unstored (h : Told start rs v past) (plain : ∀ r ∈ rs, r.isStore = false) :
    past.filterMap CacheEvent.store? = [] := by
  induction h with
  | nil => rfl
  | concat r _ tells ih =>
    rw [List.filterMap_append, ih fun r hr => plain r (List.mem_append_left _ hr), List.append_nil,
      List.filterMap_eq_nil_iff]
    exact fun e he => Request.store?_of_causesInCache
      (plain r (List.mem_append_right _ List.mem_cons_self)) (tells.caused e he)

/-- Every run can be told. -/
theorem exists_told (coherent : Coherent start none) (regions : RegionsBacked start)
    (rs : List Request) : ∃ past, Told start rs (after start rs) past := by
  induction rs using List.reverseRecOn with
  | nil => exact ⟨[], .nil⟩
  | append_singleton rs r ih =>
    obtain ⟨past, told⟩ := ih
    obtain ⟨coherent, regions⟩ := inOrder_after_of coherent regions rs
    obtain ⟨es, tells⟩ := (perform_served coherent regions r).told
    rw [after_concat]
    exact ⟨es ++ past, told.concat r tells⟩

namespace FileMapping

/-- The mapping that is made of the file of a description. -/
def of (v : VirtualMemory) (space : SpaceId) (start : VirtAddr) (length : Nat)
    (file : DescriptionId) (offset : Nat) : FileMapping where
  space
  start
  length
  file := v.files.fileOf file
  own := ⟨v.files.image.opened.length⟩
  offset
  covered := min length (v.files.length file - offset)

end FileMapping

/-- A mapping that was just made shows the file as it is. -/
theorem Mapped.kept {space : SpaceId} {start : VirtAddr} {length offset : Nat} {writable : Bool}
    {file : DescriptionId} (mapped : Mapped v space start length writable file offset w)
    (aligned : start.isAligned = true)
    (complete : v.files.shortWrites (v.files.fileOf file) = 0) :
    (FileMapping.of v space start length file offset).Kept v.files.image [] w := by
  obtain ⟨count, sum, region, pages, -⟩ := mapped.pages
  have total : (FileMapping.of v space start length file offset).pageCount = count :=
    (pagesFor_eq sum).symm
  have image : w.cache.files = v.files.image.opening (v.files.fileOf file) := mapped.opened
  have size : (v.files.image.bytes (v.files.fileOf file)).size = v.files.length file := by
    rw [← FileStore.fileOf_image, ← FileImage.contents_eq, FileStore.contents_image]
    rfl
  have present : (v.files.fileOf file).index < v.files.image.files.length := by
    refine Nat.lt_of_not_le fun beyond => mapped.nonempty ?_
    rw [← size, FileImage.bytes, List.getElem?_eq_none beyond]
    rfl
  have page : ∀ i, i < count → w.cache.page space ⟨start.toNat + i * pageSize⟩ =
      some ⟨(FileMapping.of v space start length file offset).stretch i, none⟩ := by
    intro i hi
    obtain ⟨-, b, stretch, page⟩ := pages i hi
    obtain ⟨own, position, some⟩ := FileBacking.ofStretch_eq stretch
    have same : b = (FileMapping.of v space start length file offset).stretch i := by
      obtain ⟨_, _, _, _⟩ := b
      cases own
      cases position
      cases some
      rfl
    rw [cache_page_of_page page, cachedPage_of_mapped? (b := b) rfl, heldPage_of_away rfl, same]
  have bytes : w.cache.files.bytes (v.files.fileOf file) =
      v.files.image.bytes (v.files.fileOf file) := by
    rw [image]
    rfl
  refine ⟨aligned, ?_, ?_, ?_, fun i hi => ?_, fun i hi => ?_, ?_⟩
  · rw [total]
    exact mapped.inOrder.regions.nonempty region
  · simp only [FileMapping.of, FileMapping.pageCount, pageSize]
    omega
  · rw [total]
    exact region
  · rw [total] at hi
    exact Option.isSome_iff_exists.mpr ⟨_, page i hi⟩
  · rw [total] at hi
    refine .start ⟨?_, ?_, ?_, congrArg Array.size bytes, (mapped.short _).trans complete,
      fun j hj => ?_⟩ (page i hi) fun k => ?_
    · rw [image]
      simp [FileMapping.of, FileMapping.stretch, FileImage.fileOf, FileImage.opening]
    · rw [image]
      simp [FileMapping.of, FileMapping.stretch, FileImage.opening]
    · rw [image]
      exact present
    · have inside : j < min (min length (v.files.length file - offset) - i * pageSize) pageSize := hj
      show offset + i * pageSize + j < (v.files.image.bytes (v.files.fileOf file)).size
      rw [size]
      omega
    · show ((w.cache.files.bytes (v.files.fileOf file))[k]?).getD 0 = _
      rw [bytes]
      rfl
  · refine ⟨congrArg Array.size bytes, ?_, fun i hi e older suffix => ?_, fun i hi _ e he => ?_,
      fun e he => ?_, fun k _ _ => ?_⟩
    · rw [mapped.opened]
      exact (List.append_nil _).symm
    · cases List.suffix_nil.mp suffix
    · cases he
    · cases he
    · rw [mapped.opened]
      rfl

namespace FileMapping

variable {m : FileMapping} {original : FileImage}

/-- A mapping is kept over a whole run that leaves it to its users. -/
theorem Kept.told (h : m.Kept original [] start) (coherent : Coherent start none)
    (regions : RegionsBacked start) (spared : ∀ r ∈ rs, m.Spares r ∧ ¬m.Closes r)
    (alone : ∀ front, front <+: rs → m.Alone (after start front)) (told : Told start rs v past) :
    m.Kept original past v := by
  induction told with
  | nil => exact h
  | @concat rs v past es r told tells ih =>
    have so_far := ih (fun r' hr' => spared r' (List.mem_append_left _ hr'))
      fun front before => alone front (before.trans (List.prefix_append _ _))
    have state := told.state
    have backed := (inOrder_after_of coherent regions rs).2
    rw [← state] at backed
    obtain ⟨spares, stays⟩ := spared r (List.mem_append_right _ List.mem_cons_self)
    refine so_far.tells backed spares stays ?_ ?_ tells
    · rw [state]
      exact alone rs (List.prefix_append _ _)
    · rw [state, ← after_concat]
      exact alone _ List.prefix_rfl

variable (m) in
/-- What users see of a mapping and of its file after the events of a history, while the mapping is
there and once it is taken back. -/
structure RoundTrip (original : FileImage) (past : List CacheEvent) (v : VirtualMemory) : Prop where
  faithful : m.Faithful original past v
  /-- A load yields for every byte of the mapping what was stored there last, else what the file
  had, and past what the mapping shows of the file zero where nothing was stored. -/
  loads : ∀ a n bytes, (perform (.load m.space a n) v).result = .ok (.bytes bytes) →
    ∀ i j, i < n → j < m.pageCount * pageSize → a.toNat + i = m.start.toNat + j →
      (j < m.covered →
        bytes[i]? = some ((m.stored past j).getD (original.byte m.file (m.offset + j)))) ∧
        (m.covered ≤ j → m.stored past j = none → bytes[i]? = some 0)
  /-- The mapping can be taken back, and then the file has what was stored. -/
  closes : ∀ r, m.Closes r → (perform r v).result = .ok .done ∧
    (∃ es, Tells r v (perform r v).result (perform r v).state es) ∧
    ∀ es, Tells r v (perform r v).result (perform r v).state es →
      m.Faithful original (es ++ past) (perform r v).state ∧ ∀ j, j < m.covered →
        (perform r v).state.files.image.byte m.file (m.offset + j) =
          (m.stored past j).getD (original.byte m.file (m.offset + j))

theorem Kept.roundTrip (h : m.Kept original past v) (coherent : Coherent v none)
    (regions : RegionsBacked v) (alone : m.Alone v) : m.RoundTrip original past v where
  faithful := h.faithful
  loads a n bytes reply i j hi := by
    have served := perform_served coherent regions (.load m.space a n)
    have cached : CachedFrom v m.space a bytes := served.fulfilled (.bytes bytes) reply
    have size := (served.loaded m.space a n bytes rfl reply).size
    exact h.loads alone cached (size ▸ hi)
  closes r closes := by
    obtain ⟨result, gone⟩ := h.closes_ends coherent regions closes
    exact ⟨result, (perform_served coherent regions r).told,
      fun es tells => h.closed alone closes tells gone⟩

end FileMapping

/-- For every file that is mapped in a state that requests lead to, and all requests that follow
which leave the mapping to its users while no other page shows the bytes it shows: what happens to
the page cache can be told by events, and however it is told, the mapping makes the round trip. -/
theorem mapped_file_round_trip {space : SpaceId} {start va : VirtAddr} {length offset : Nat}
    {writable : Bool} {file : DescriptionId} (reached : Reached v)
    (mapped : (mapFile space start length writable file offset v).result = .ok va)
    (complete : v.files.shortWrites (v.files.fileOf file) = 0) :
    let m := FileMapping.of v space start length file offset
    let u := (mapFile space start length writable file offset v).state
    (∀ r ∈ rs, m.Spares r ∧ ¬m.Closes r) → (∀ front, front <+: rs → m.Alone (after u front)) →
      (∃ past, Told u rs (after u rs) past) ∧
        ∀ w past, Told u rs w past → m.RoundTrip v.files.image past w := by
  intro m u spared alone
  obtain ⟨coherent, regions⟩ := reached.inOrder
  obtain ⟨-, made, mappable⟩ := (mapFile_ends coherent regions length writable file).of_ok mapped
  have coherent' := made.inOrder.coherent
  have regions' := made.inOrder.regions
  refine ⟨exists_told coherent' regions' rs, fun w past told => ?_⟩
  have kept := (made.kept mappable.aligned complete).told coherent' regions' spared alone told
  obtain ⟨coherent, regions⟩ := inOrder_after_of coherent' regions' rs
  have last := alone rs List.prefix_rfl
  have state := told.state
  subst state
  exact kept.roundTrip coherent regions last

/-- A mapping of one page is alone where only that page is of a file. -/
theorem FileMapping.alone_of_single {m : FileMapping}
    (single : ∀ x ∈ v.allPages, x.2.mapped?.isSome → x.1 = ⟨m.space, m.start⟩)
    (short : m.covered ≤ pageSize) : m.Alone v := by
  intro s a b j mapped inside _
  obtain ⟨p, page, shown⟩ := Option.bind_eq_some_iff.mp mapped
  cases single (⟨s, a⟩, p) (mem_allPages.mpr page) (by rw [shown]; rfl)
  refine ⟨rfl, ?_⟩
  rw [Nat.div_eq_of_lt (Nat.lt_of_lt_of_le inside short), pageAt, Nat.zero_mul, Nat.add_zero]

/-- A space and a file of three bytes. -/
def furnished : List Request := [.createSpace, .createFile #[17, 18, 19]]

/-- The first two bytes of the file are mapped. -/
def shown : VirtualMemory :=
  (mapFile ⟨1⟩ ⟨4096⟩ 2 true ⟨0⟩ 0 (after (new 1 64).1 furnished)).state

/-- The page of the mapping is accessed, and has to leave memory for another one. -/
def displaced : List Request :=
  [.claim ⟨1⟩ ⟨4096⟩, .allocateAnonymous ⟨1⟩ ⟨8192⟩ true, .claim ⟨1⟩ ⟨8192⟩]

/-- It comes back when it is stored to. -/
def jostled : List Request := displaced ++ [.store ⟨1⟩ ⟨4097⟩ #[5]]

/-- The byte that was stored is all that was stored. -/
theorem stored_jostled {w : VirtualMemory} {past : List CacheEvent} (told : Told shown jostled w past) :
    past.filterMap CacheEvent.store? = [.stored ⟨1⟩ ⟨4096⟩ 1 #[5]] := by
  obtain ⟨es, before, rfl, told, tells⟩ := told.last
  have done : (perform (.store ⟨1⟩ ⟨4097⟩ #[5]) (after shown displaced)).result = .ok .done := by
    decide +kernel
  have stores : (Request.store ⟨1⟩ ⟨4097⟩ #[5]).stores = [.stored ⟨1⟩ ⟨4096⟩ 1 #[5]] := by
    simp [Request.stores, storesFrom, bytesInPage, VirtAddr.pageOffset, VirtAddr.floor, pageSize]
  have last := tells.complete done
  rw [List.filterMap_reverse, stores, List.reverse_eq_iff] at last
  have first := told.unstored (by simp [displaced, Request.isStore])
  rw [List.filterMap_append, last, first]
  rfl

/-- A load then yields the byte that was stored behind the one that the file has. -/
theorem mapped_file_round_trip_jostled :
    (pageIn? (after shown (jostled.take 1)).spaces ⟨1⟩ ⟨4096⟩).bind Page.frame = some ⟨0⟩ ∧
      (pageIn? (after shown (jostled.take 3)).spaces ⟨1⟩ ⟨4096⟩).bind Page.frame = none ∧
      (∃ past, Told shown jostled (after shown jostled) past) ∧
      (∀ w past, Told shown jostled w past →
        (FileMapping.of (after (new 1 64).1 furnished) ⟨1⟩ ⟨4096⟩ 2 ⟨0⟩ 0).RoundTrip
          (after (new 1 64).1 furnished).files.image past w) ∧
      ∃ bytes, (perform (.load ⟨1⟩ ⟨4096⟩ 2) (after shown jostled)).result = .ok (.bytes bytes) ∧
        bytes[0]? = some 17 ∧ bytes[1]? = some 5 := by
  have single : ∀ n < 5, ∀ x ∈ (after shown (jostled.take n)).allPages,
      x.2.mapped?.isSome → x.1 = ⟨⟨1⟩, ⟨4096⟩⟩ := by decide +kernel
  have made : (mapFile ⟨1⟩ ⟨4096⟩ 2 true ⟨0⟩ 0 (after (new 1 64).1 furnished)).result =
      .ok ⟨4096⟩ := by decide +kernel
  have spared : ∀ r ∈ jostled,
      (FileMapping.of (after (new 1 64).1 furnished) ⟨1⟩ ⟨4096⟩ 2 ⟨0⟩ 0).Spares r ∧
        ¬(FileMapping.of (after (new 1 64).1 furnished) ⟨1⟩ ⟨4096⟩ 2 ⟨0⟩ 0).Closes r := by
    intro r hr
    simp only [jostled, displaced, List.cons_append, List.nil_append, List.mem_cons, List.not_mem_nil,
      or_false] at hr
    rcases hr with rfl | rfl | rfl | rfl <;> exact ⟨trivial, id⟩
  obtain ⟨⟨past, told⟩, trips⟩ := mapped_file_round_trip (reached_after 1 64 furnished) made
    (by decide +kernel) spared fun front before => by
      have here := single front.length (Nat.lt_succ_of_le before.length_le)
      rw [← List.prefix_iff_eq_take.mp before] at here
      exact FileMapping.alone_of_single here (by decide +kernel)
  refine ⟨by decide +kernel, by decide +kernel, ⟨past, told⟩, trips, ?_⟩
  obtain ⟨bytes, reply⟩ : ∃ bytes, (perform (.load ⟨1⟩ ⟨4096⟩ 2)
      (after shown jostled)).result = .ok (.bytes bytes) := exists_bytes (by decide +kernel)
  have shows := (trips _ past told).loads ⟨4096⟩ 2 bytes reply
  refine ⟨bytes, reply, ?_, ?_⟩
  · rw [(shows 0 0 (by decide) (by decide) rfl).1 (by decide), FileMapping.stored, lastStored,
      stored_jostled told]
    decide +kernel
  · rw [(shows 1 1 (by decide) (by decide) rfl).1 (by decide), FileMapping.stored, lastStored,
      stored_jostled told]
    decide +kernel

end VirtualMemory

end KernelCore
