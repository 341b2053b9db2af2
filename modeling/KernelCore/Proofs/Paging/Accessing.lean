import KernelCore.Paging.UserAccess
import KernelCore.Proofs.Paging.Entering

/-!
# Accesses of user programs

What a program loads from anonymous pages is what flat memory has there, and what it stores is
stored in flat memory.
-/
namespace KernelCore

/-- Faults only add pages and load untouched ones: what was loaded stays as it is. -/
theorem Happens.loaded_of_faults {space s : SpaceId} {a : VirtAddr} {m m' : FlatMemory}
    {page : PageBytes} (h : Happens (MemoryEvent.IsFault space) m m')
    (loaded : m.page s a = some (.loaded page)) : m'.page s a = some (.loaded page) := by
  obtain ⟨es, kinds, history⟩ := h
  induction history with
  | start => exact loaded
  | @step past m' e _ possible ih =>
    have before := ih fun e he => kinds e (by simp [he])
    have kind := kinds e (by simp)
    cases e with
    | wroteBack f w => exact before
    | loaded t b bytes =>
      obtain ⟨loader, untouched, -⟩ := possible
      simp only [MemoryEvent.apply, FlatMemory.setPage]
      rw [if_neg, before]
      rintro ⟨rfl, rfl⟩
      rw [before] at untouched
      cases untouched
    | entered t b loader =>
      simp only [MemoryEvent.apply, FlatMemory.setPage]
      rw [if_neg, before]
      rintro ⟨rfl, rfl⟩
      rw [MemoryEvent.Possible, before] at possible
      cases possible
    | _ => exact kind.elim

namespace VirtualMemory

open Transition

variable {v w : VirtualMemory} {space s : SpaceId} {va a : VirtAddr} {p : Page} {f : FrameId}
  {x : Frame} {o : PageRef}

/-! ## Pages in memory -/

/-- A page in memory: where it is, and what of it users see. -/
structure Located (v : VirtualMemory) (space : SpaceId) (va : VirtAddr) (p : Page) (f : FrameId)
    (x : Frame) : Prop where
  page : pageIn? v.spaces space va.floor = some p
  holds : p.frame = some f
  frame : v.frames.frame? f = some x
  place : v.physicalPage? space va = some x.page
  bytes : v.pageBytes? space va = some (v.pool.page x.page)
  flat : v.flat.page space va.floor =
    if p.type = .anonymous then some (.loaded (v.pool.page x.page)) else none

theorem flatPage_of_resident (h : Coherent v none) (page : pageIn? v.spaces s a = some p)
    (holds : p.frame = some f) (frame : v.frames.frame? f = some x) :
    v.flat.page s a = if p.type = .anonymous then some (.loaded (v.pool.page x.page)) else none := by
  have bytes : v.anonymousBytes p = v.pool.page x.page := by
    unfold anonymousBytes
    rw [holds]
    simp only [frame, Option.map_some, Option.getD_some]
  have touched := (h.settled page holds).1
  simp only [VirtualMemory.flat, page, Option.bind_some]
  unfold flatPage Page.type
  rw [bytes]
  cases kind : p.kind with
  | untouched target loader => simp [Page.isUntouched, kind] at touched
  | anonymous slot => simp only [Page.isMaterialised, Page.isResident, holds, Option.isSome_some,
      Bool.true_or, if_true]
  | file b =>
    have other : PageType.file ≠ .anonymous := by decide
    exact (if_neg other).symm

theorem InMemory.located (h : Coherent v none) (m : InMemory v space va.floor) :
    ∃ p f x, Located v space va p f x := by
  obtain ⟨p, f, page, holds⟩ := m
  obtain ⟨x, frame, -⟩ := h.resident page holds
  have place : v.physicalPage? space va = some x.page := by
    unfold physicalPage?
    rw [page?_eq, page]
    simp only [Option.bind_some, holds, frame, Option.map_some]
  exact ⟨p, f, x, page, holds, frame, place, by simp only [pageBytes?, place, Option.map_some],
    flatPage_of_resident h page holds frame⟩

/-- The hardware translates only pages in memory. -/
theorem inMemory_of_mapping (h : Coherent v none) {e : MmuEntry}
    (mapping : v.mmu.mapping? s a = some e) : InMemory v s a := by
  have translated := h.translated s a
  rw [mapping, Option.map_some] at translated
  cases page : pageIn? v.spaces s a with
  | none => simp [page] at translated
  | some p =>
    cases frame : p.frame with
    | none => simp [page, frame] at translated
    | some f => exact ⟨p, f, page, frame⟩

/-! ## Accesses -/

/-- A write that the hardware records marks the page, if it is in memory. -/
theorem Coherent.cache_touch (h : Coherent v none) (space : SpaceId) (a : VirtAddr) :
    VirtualMemory.cache { v with mmu := v.mmu.touch space a true } =
      v.cache.setPage space a.floor
        ((v.cache.page space a.floor).map (CachedPage.change HeldPage.mark)) := by
  refine cache_of_held (o := ⟨space, a.floor⟩) rfl (.refl _) fun s b q page => ?_
  cases holds : q.frame with
  | none => rw [heldPage_of_away holds, heldPage_of_away holds, Option.map_none, ite_self]
  | some f =>
    obtain ⟨x, frame, -⟩ := h.resident page holds
    have translated := h.translated s b
    rw [page, Option.bind_some, holds, Option.bind_some, frame, Option.map_some] at translated
    have present : (v.mmu.mapping? s b).isSome = true := by
      obtain ⟨e, mapping, -⟩ := Option.map_eq_some_iff.mp translated
      rw [mapping, Option.isSome_some]
    rw [heldPage_of_frame holds frame, heldPage_of_frame (v := { v with
      mmu := v.mmu.touch space a true }) holds frame, Mmu.isDirty_touch, present]
    dsimp only
    split
    · rfl
    · rfl

/-- A read is recorded, but not in the cache. -/
theorem cache_touch_of_read : VirtualMemory.cache { v with mmu := v.mmu.touch space a false } =
    v.cache :=
  cache_of_same (fun _ _ => rfl) (fun _ _ => rfl) (fun _ => rfl) Mmu.sameDirty_touch rfl (.refl _)

/-- What an access leaves. If it succeeded the page is in memory, and the last that happened is that
the hardware recorded the access. -/
structure Accessed (v : VirtualMemory) (space : SpaceId) (a : VirtAddr) (write ok : Bool)
    (w : VirtualMemory) : Prop where
  coherent : Coherent w none
  follows : Follows (MemoryEvent.IsFault space) v w
  inMemory : ok = true → InMemory w space a.floor
  cached : ∃ u, Coherent u none ∧ Leads CacheEvent.IsPaging v.cache u.cache ∧
    w = if ok then { u with mmu := u.mmu.touch space a write } else u

/-- Faults of the space were served, and nothing else happened. -/
structure Faulted (v : VirtualMemory) (space : SpaceId) (w : VirtualMemory) : Prop where
  coherent : Coherent w none
  follows : Follows (MemoryEvent.IsFault space) v w
  cached : Leads CacheEvent.IsPaging v.cache w.cache

theorem Accessed.failed {write : Bool} (h : Accessed v space a write false w) :
    Faulted v space w := by
  obtain ⟨u, -, leads, rfl⟩ := h.cached
  exact ⟨h.coherent, h.follows, leads⟩

theorem Accessed.read {ok : Bool} (h : Accessed v space a false ok w) :
    Faulted v space w := by
  obtain ⟨u, -, leads, rfl⟩ := h.cached
  refine ⟨h.coherent, h.follows, ?_⟩
  cases ok with
  | false => exact leads
  | true =>
    rw [if_pos rfl, cache_touch_of_read]
    exact leads

theorem Faulted.trans {u : VirtualMemory} (h : Faulted u space v) (h' : Faulted v space w) :
    Faulted u space w :=
  ⟨h'.coherent, h.follows.trans h'.follows, h.cached.trans h'.cached⟩

theorem Faulted.accessed {u : VirtualMemory} {write ok : Bool} (h : Faulted u space v)
    (h' : Accessed v space a write ok w) : Accessed u space a write ok w := by
  obtain ⟨x, coherent, leads, rfl⟩ := h'.cached
  exact ⟨h'.coherent, h.follows.trans h'.follows, h'.inMemory, x, coherent, h.cached.trans leads, rfl⟩

theorem tryAccess_ends (h : Coherent v none) (write : Bool) :
    (tryAccess space a write).Ends v (fun b w => Accessed v space a write b w)
      (fun e w => e.IsRefusal ∧ Faulted v space w) := by
  have faults : ∀ flags pointer, ((handleFault space a flags pointer >>= fun _ => pure false) :
      Paging Bool).Ends v (fun b w => Accessed v space a write b w)
        (fun e w => e.IsRefusal ∧ Faulted v space w) := by
    intro flags pointer
    rw [ends_bind]
    refine Ends.mono (handleFault_keeps h flags pointer) (fun _ w kept => ?_)
      fun e w ⟨reason, coherent, follows, leads⟩ => ⟨reason, coherent, follows, leads⟩
    obtain ⟨coherent, follows, leads⟩ := kept
    exact ⟨coherent, follows, nofun, w, coherent, leads, rfl⟩
  unfold tryAccess
  rw [ends_bind, ends_get]
  cases mapping : v.mmu.mapping? space a.floor with
  | none => exact faults _ _
  | some e =>
    dsimp only
    rw [ends_ite]
    refine ⟨fun _ => faults _ _, fun _ => ?_⟩
    have reached : InMemory v space a.floor := inMemory_of_mapping h mapping
    rw [ends_bind, ends_modify, ends_pure]
    refine ⟨h.of_same rfl (fun _ => rfl) (Mmu.sameTargets_touch write) rfl rfl rfl,
      (SamePlaces.of_spaces ?_).silent ?_, fun _ => reached, v, h, .refl _, rfl⟩
    · rfl
    · exact flat_of_same (fun _ _ => rfl) (fun _ => rfl) rfl rfl rfl

/-- An access that succeeds has the page in memory. -/
theorem access_ends (h : Coherent v none) (write : Bool) :
    (access space a write).Ends v (fun b w => Accessed v space a write b w)
      (fun e w => e.IsRefusal ∧ Faulted v space w) := by
  unfold access
  rw [ends_bind]
  refine (tryAccess_ends h write).mono (fun b w tried => ?_) fun _ _ h => h
  cases b with
  | true => exact tried
  | false =>
    refine (tryAccess_ends tried.coherent write).mono (fun b u again => ?_) fun e u again => ?_
    · exact tried.failed.accessed again
    · exact ⟨again.1, tried.failed.trans again.2⟩

/-- Addresses of bytes in the same page. -/
theorem address_in_page (a : VirtAddr) {length i : Nat} (hi : i < bytesInPage a length) :
    (⟨a.toNat + i⟩ : VirtAddr).floor = a.floor ∧
      (⟨a.toNat + i⟩ : VirtAddr).pageOffset = a.pageOffset + i := by
  simp only [bytesInPage, VirtAddr.floor, VirtAddr.pageOffset, pageSize, VirtAddr.mk.injEq] at *
  omega

theorem pageOffset_add_bytesInPage_le (a : VirtAddr) (length : Nat) :
    a.pageOffset + bytesInPage a length ≤ pageSize := by
  have := Nat.mod_lt a.toNat pageSize_pos
  simp only [bytesInPage, VirtAddr.pageOffset]
  omega

/-- The byte at an address, if its page is anonymous and was loaded. -/
def FlatByte (m : FlatMemory) (space : SpaceId) (a : VirtAddr) (byte : Option UInt8) : Prop :=
  ∃ page, m.page space a.floor = some (.loaded page) ∧ byte = page[a.pageOffset]?

/-- What was loaded from an address on: where the pages are anonymous, the bytes of flat memory. -/
structure LoadedFrom (w : VirtualMemory) (space : SpaceId) (a : VirtAddr) (length : Nat)
    (bytes : Array UInt8) : Prop where
  size : bytes.size = length
  byte : ∀ i, i < length → ∃ q, pageIn? w.spaces space (⟨a.toNat + i⟩ : VirtAddr).floor = some q ∧
    (q.type = .anonymous → FlatByte w.flat space ⟨a.toNat + i⟩ bytes[i]?)

theorem LoadedFrom.of_faults {length : Nat} {bytes : Array UInt8}
    (h : LoadedFrom v space a length bytes) (follows : Follows (MemoryEvent.IsFault space) v w) :
    LoadedFrom w space a length bytes where
  size := h.size
  byte i hi := by
    obtain ⟨q, page, anonymous⟩ := h.byte i hi
    obtain ⟨r, page', type, -⟩ := follows.kept page
    refine ⟨r, page', fun hr => ?_⟩
    obtain ⟨contents, loaded, same⟩ := anonymous (type ▸ hr)
    exact ⟨contents, follows.happens.loaded_of_faults loaded, same⟩

theorem LoadedFrom.append {n m : Nat} {front rest : Array UInt8}
    (h : LoadedFrom w space a n front) (h' : LoadedFrom w space ⟨a.toNat + n⟩ m rest) :
    LoadedFrom w space a (n + m) (front ++ rest) where
  size := by rw [Array.size_append, h.size, h'.size]
  byte i hi := by
    by_cases here : i < n
    · rw [Array.getElem?_append_left (h.size ▸ here)]
      exact h.byte i here
    · have address : a.toNat + n + (i - n) = a.toNat + i := by omega
      have later := h'.byte (i - n) (by omega)
      rw [address] at later
      rw [Array.getElem?_append_right (by rw [h.size]; omega), h.size]
      exact later

theorem size_slice (page : PageBytes) {offset count : Nat} (room : offset + count ≤ pageSize) :
    (page.slice offset count).size = count := by
  rw [PageBytes.slice, Array.size_extract, Vector.size_toArray, Nat.min_eq_left room,
    Nat.add_sub_cancel_left]

theorem getElem?_slice (page : PageBytes) {offset count i : Nat}
    (room : offset + count ≤ pageSize) (hi : i < count) :
    (page.slice offset count)[i]? = page[offset + i]? := by
  have bound : i < min (offset + count) page.toArray.size - offset := by
    rw [Vector.size_toArray, Nat.min_eq_left room]
    omega
  rw [PageBytes.slice, Array.getElem?_extract, if_pos bound, Vector.getElem?_toArray]

/-- What was loaded from an address on: where the pages show files, what they held at the time. -/
def CachedFrom (v : VirtualMemory) (space : SpaceId) (a : VirtAddr) (bytes : Array UInt8) : Prop :=
  ∀ i, i < bytes.size → ∃ c, Leads CacheEvent.IsPaging v.cache c ∧
    ∀ p, c.page space (⟨a.toNat + i⟩ : VirtAddr).floor = some p → ∃ held, p.held = some held ∧
      bytes[i]? = held.bytes[(⟨a.toNat + i⟩ : VirtAddr).pageOffset]?

theorem CachedFrom.of_faults {bytes : Array UInt8} (h : CachedFrom w space a bytes)
    (leads : Leads CacheEvent.IsPaging v.cache w.cache) : CachedFrom v space a bytes := by
  intro i hi
  obtain ⟨c, later, held⟩ := h i hi
  exact ⟨c, leads.trans later, held⟩

theorem CachedFrom.append {front rest : Array UInt8} (h : CachedFrom v space a front)
    (h' : CachedFrom v space ⟨a.toNat + front.size⟩ rest) :
    CachedFrom v space a (front ++ rest) := by
  intro i hi
  by_cases here : i < front.size
  · rw [Array.getElem?_append_left here]
    exact h i here
  · have address : a.toNat + front.size + (i - front.size) = a.toNat + i := by omega
    have later := h' (i - front.size) (by rw [Array.size_append] at hi; omega)
    rw [address] at later
    rw [Array.getElem?_append_right (Nat.le_of_not_lt here)]
    exact later

/-- What the cache has of a page in memory. -/
theorem Located.cached (located : Located v space a p f x) :
    v.cache.page space a.floor = p.mapped?.map fun b =>
      ⟨b, some ⟨v.pool.page x.page, v.mmu.isDirty space a.floor⟩⟩ := by
  rw [cache_page_of_page located.page, cachedPage, heldPage_of_frame located.holds located.frame]

/-- The bytes of one page in memory. -/
theorem Located.loadedFrom (located : Located v space a p f x) (length : Nat) :
    LoadedFrom v space a (bytesInPage a length)
      ((v.pool.page x.page).slice a.pageOffset (bytesInPage a length)) := by
  have room := pageOffset_add_bytesInPage_le a length
  refine ⟨size_slice _ room, fun i hi => ?_⟩
  obtain ⟨floor, offset⟩ := address_in_page a hi
  refine ⟨p, ?_, fun anonymous => ⟨v.pool.page x.page, ?_, ?_⟩⟩
  · rw [floor, located.page]
  · rw [floor, located.flat, if_pos anonymous]
  · rw [offset, getElem?_slice _ room hi]

theorem Located.cachedFrom (located : Located v space a p f x) (length : Nat) :
    CachedFrom v space a ((v.pool.page x.page).slice a.pageOffset (bytesInPage a length)) := by
  have room := pageOffset_add_bytesInPage_le a length
  intro i hi
  rw [size_slice _ room] at hi
  obtain ⟨floor, offset⟩ := address_in_page a hi
  refine ⟨v.cache, .refl _, fun q cached => ?_⟩
  rw [floor, located.cached] at cached
  obtain ⟨b, -, rfl⟩ := Option.map_eq_some_iff.mp cached
  refine ⟨_, rfl, ?_⟩
  rw [getElem?_slice _ room hi, offset]

/-- What a load yields is what flat memory has in the end, and what the file pages held when they
were read. -/
theorem load_ends (h : Coherent v none) (length : Nat) :
    (load space a length).Ends v
      (fun r w => Faulted v space w ∧
        ∀ bytes, r = some bytes → LoadedFrom w space a length bytes ∧ CachedFrom v space a bytes)
      (fun e w => e.IsRefusal ∧ Faulted v space w) := by
  induction length using Nat.strongRecOn generalizing v a with
  | ind length ih =>
    rw [load]
    by_cases empty : length = 0
    · subst empty
      rw [dif_pos rfl]
      refine ⟨⟨h, .refl v, .refl _⟩, fun bytes hb => ?_⟩
      cases hb
      exact ⟨⟨rfl, fun i hi => absurd hi (Nat.not_lt_zero i)⟩,
        fun i hi => absurd hi (Nat.not_lt_zero i)⟩
    · rw [dif_neg empty]
      dsimp only
      rw [ends_bind, ends_bind]
      refine (access_ends h false).mono (fun reached u accessed => ?_) fun _ _ h => h
      have served := accessed.read
      rw [ends_gets]
      cases reached with
      | false => exact ⟨served, nofun⟩
      | true =>
        obtain ⟨p, f, x, located⟩ := (accessed.inMemory rfl).located accessed.coherent
        rw [if_pos rfl, located.bytes]
        dsimp only
        rw [ends_bind]
        have fewer : length - bytesInPage a length < length := by
          have := bytesInPage_pos a empty
          omega
        refine (ih _ fewer accessed.coherent).mono (fun r w rest => ?_) fun e w stopped => ?_
        · obtain ⟨served', loaded⟩ := rest
          refine ⟨served.trans served', fun bytes hb => ?_⟩
          obtain ⟨tail, htail, rfl⟩ := Option.map_eq_some_iff.mp hb
          obtain ⟨tailLoaded, tailCached⟩ := loaded tail htail
          have size := size_slice (u.pool.page x.page) (pageOffset_add_bytesInPage_le a length)
          constructor
          · have all : bytesInPage a length + (length - bytesInPage a length) = length :=
              Nat.add_sub_cancel' (Nat.min_le_right _ _)
            have front := (located.loadedFrom length).of_faults served'.follows
            have joined := front.append tailLoaded
            rw [all] at joined
            exact joined
          · rw [← size] at tailCached
            exact ((located.cachedFrom length).append tailCached).of_faults served.cached
        · exact ⟨stopped.1, served.trans stopped.2⟩

/-! ## Stores -/

/-- Writing to a page in memory changes the contents of its physical page only. -/
theorem Located.fill_change (located : Located v space a p f x) (h : Coherent v none)
    (bytes : PageBytes) :
    LocalChange v { v with pool := v.pool.setPage x.page bytes } ⟨space, a.floor⟩ f (some p)
      (some x) where
  pages s b := by
    split
    · rename_i here
      rw [here.1, here.2]
      exact located.page
    · rfl
  frames g := by
    split
    · rename_i here
      rw [here]
      exact located.frame
    · rfl
  targets s b := by
    split
    · rename_i here
      rw [here.1, here.2]
      refine (h.translated space a.floor).trans ?_
      simp only [located.page, located.holds, located.frame, Option.bind_some, Option.map_some]
    · rfl
  pool := h.pool.setPage _ _
  taken := h.taken_setPage located.frame rfl bytes
  contents q _ other :=
    PagePool.page_setPage_of_ne fun same => other x located.frame same.symm
  swap := h.swap
  used i := by
    have slotless := (h.settled located.page located.holds).2
    simp [located.page, slotless]
  saved _ _ _ := rfl
  frame_before y r hy owner := by
    obtain ⟨q, page, holds⟩ := h.owned hy owner
    obtain ⟨z, frame, owner'⟩ := h.resident located.page located.holds
    rw [frame] at hy
    cases hy
    exact Option.some.inj (owner.symm.trans owner')
  page_before q g hq hg := by
    rw [located.page] at hq
    cases hq
    exact Option.some.inj (hg.symm.trans located.holds)
  page_after q g hq hg := by
    cases hq
    refine ⟨Option.some.inj (hg.symm.trans located.holds), ⟨x, rfl, ?_⟩,
      h.settled located.page located.holds⟩
    obtain ⟨z, frame, owner⟩ := h.resident located.page located.holds
    rw [located.frame] at frame
    cases frame
    exact owner
  frame_after y hy := by
    cases hy
    refine ⟨h.unpinned located.frame, fun r owner => ?_⟩
    obtain ⟨z, frame, owner'⟩ := h.resident located.page located.holds
    rw [located.frame] at frame
    cases frame
    exact ⟨Option.some.inj (owner.symm.trans owner'), p, rfl, located.holds⟩
  place_after y hy := by
    cases hy
    exact .inl ⟨x, located.frame, rfl⟩
  slot_after q i hq slot := by
    cases hq
    rw [(h.settled located.page located.holds).2] at slot
    cases slot
  placed _ _ := h.placed located.page
  numbered _ hs := h.numbered hs

/-- Storing into a page in memory stores into the page of flat memory. -/
theorem Located.store (located : Located v space a p f x) (h : Coherent v none) (offset : Nat)
    (bytes : Array UInt8) {w : VirtualMemory}
    (hw : w = { v with
      pool := v.pool.setPage x.page ((v.pool.page x.page).overlay offset bytes) }) :
    Coherent w none ∧ SamePlaces v w ∧
      w.flat = (MemoryEvent.stored space a.floor offset bytes).apply v.flat := by
  have change : LocalChange v w ⟨space, a.floor⟩ f (some p) (some x) :=
    hw ▸ located.fill_change h _
  have spaces : w.spaces = v.spaces := by rw [hw]
  have coherent : Coherent w none := by
    refine h.change change nofun (fun y hy unowned => ?_) nofun
    cases hy
    obtain ⟨z, frame, owner⟩ := h.resident located.page located.holds
    rw [located.frame] at frame
    cases frame
    rw [owner] at unowned
    cases unowned
  have taken : v.pool.Taken x.page := (h.taken _).mpr ⟨f, x, located.frame, rfl⟩
  have contents : w.pool.page x.page = (v.pool.page x.page).overlay offset bytes := by
    rw [hw]
    exact PagePool.page_setPage_self taken.1
  have frame : w.frames.frame? f = some x := by
    rw [hw]
    exact located.frame
  have page : pageIn? w.spaces space a.floor = some p := by rw [spaces, located.page]
  have after := flatPage_of_resident coherent page located.holds frame
  refine ⟨coherent, .of_spaces spaces, flat_eq (fun s b => ?_) (by rw [hw]; rfl)⟩
  simp only [MemoryEvent.apply, FlatMemory.setPage]
  split
  · rename_i here
    rw [here.1, here.2, after, located.flat, contents]
    by_cases anonymous : p.type = .anonymous
    · rw [if_pos anonymous, if_pos anonymous, Option.map_some]
      rfl
    · rw [if_neg anonymous, if_neg anonymous, Option.map_none]
  · rename_i other
    rw [h.flatPage_change change, if_neg other]

/-- What storing bytes from number `done` on comes to, page by page. -/
def storesFrom (space : SpaceId) (a : VirtAddr) (bytes : Array UInt8) (done : Nat) :
    List MemoryEvent :=
  if _h : bytes.size - done = 0 then []
  else
    let n := bytesInPage a (bytes.size - done)
    .stored space a.floor a.pageOffset (bytes.extract done (done + n)) ::
      storesFrom space ⟨a.toNat + n⟩ bytes (done + n)
termination_by bytes.size - done
decreasing_by
  have := bytesInPage_pos a _h
  omega

/-- A store by a program, or what serving its faults causes. -/
def IsStoreOrFault (space : SpaceId) (e : MemoryEvent) : Prop :=
  e.isStored = true ∨ e.IsFault space

/-- Exactly the given stores happened to memory, first to last, besides what serving faults
causes. -/
def MemoryStores (space : SpaceId) (stores : List MemoryEvent) (m m' : FlatMemory) : Prop :=
  ∃ es, History m es m' ∧ (∀ e ∈ es, IsStoreOrFault space e) ∧
    es.reverse.filter MemoryEvent.isStored = stores

theorem not_isStored_of_isFault {e : MemoryEvent} (h : e.IsFault space) : e.isStored = false := by
  cases e <;> first | rfl | exact h.elim

theorem MemoryStores.of_faults {m m' : FlatMemory} (h : Happens (MemoryEvent.IsFault space) m m') :
    MemoryStores space [] m m' := by
  obtain ⟨es, kinds, history⟩ := h
  refine ⟨es, history, fun e he => .inr (kinds e he), ?_⟩
  rw [List.filter_eq_nil_iff]
  intro e he
  simp [not_isStored_of_isFault (kinds e (List.mem_reverse.mp he))]

theorem MemoryStores.trans {m₁ m₂ m₃ : FlatMemory} {first next : List MemoryEvent}
    (h : MemoryStores space first m₁ m₂) (h' : MemoryStores space next m₂ m₃) :
    MemoryStores space (first ++ next) m₁ m₃ := by
  obtain ⟨es, history, kinds, stored⟩ := h
  obtain ⟨es', history', kinds', stored'⟩ := h'
  refine ⟨es' ++ es, history.append history', fun e he => ?_, ?_⟩
  · rcases List.mem_append.mp he with he | he
    · exact kinds' e he
    · exact kinds e he
  · rw [List.reverse_append, List.filter_append, stored, stored']

/-- The same stores happened to flat memory and to the cache. -/
structure Stores (space : SpaceId) (stores : List MemoryEvent) (v w : VirtualMemory) : Prop where
  memory : MemoryStores space stores v.flat w.flat
  cache : CacheStores space stores v.cache w.cache

theorem Faulted.stores (h : Faulted v space w) : Stores space [] v w :=
  ⟨.of_faults h.follows.happens, .of_paging h.cached⟩

theorem Stores.trans {u : VirtualMemory} {first next : List MemoryEvent}
    (h : Stores space first u v) (h' : Stores space next v w) :
    Stores space (first ++ next) u w :=
  ⟨h.memory.trans h'.memory, h.cache.trans h'.cache⟩

/-- How far a store came: some of its stores happened, page by page, and if it succeeded all of
them did. -/
structure StoredFrom (v : VirtualMemory) (space : SpaceId) (a : VirtAddr) (bytes : Array UInt8)
    (done : Nat) (all : Bool) (w : VirtualMemory) : Prop where
  coherent : Coherent w none
  follows : Follows (IsStoreOrFault space) v w
  stores : ∃ stores, Stores space stores v w ∧ stores <+: storesFrom space a bytes done ∧
    (all = true → stores = storesFrom space a bytes done)

theorem Faulted.storedFrom {bytes : Array UInt8} {done : Nat} (h : Faulted v space w) :
    StoredFrom v space a bytes done false w :=
  ⟨h.coherent, h.follows.mono fun _ => .inr, [], h.stores, List.nil_prefix, nofun⟩

/-- Overwriting a page in memory overwrites what the cache has of it. -/
theorem Located.cache_poke (located : Located v space a p f x) (h : Coherent v none) (offset : Nat)
    (bytes : Array UInt8) :
    VirtualMemory.cache { v with
      pool := v.pool.setPage x.page ((v.pool.page x.page).overlay offset bytes) } =
      v.cache.setPage space a.floor
        ((v.cache.page space a.floor).map (CachedPage.change (HeldPage.poke offset bytes))) := by
  refine cache_of_held (o := ⟨space, a.floor⟩) rfl (.refl _) fun s b q page => ?_
  dsimp only
  cases holds : q.frame with
  | none => rw [heldPage_of_away holds, heldPage_of_away holds, Option.map_none, ite_self]
  | some g =>
    obtain ⟨y, frame, owner⟩ := h.resident page holds
    rw [heldPage_of_frame holds frame, heldPage_of_frame (v := { v with
      pool := v.pool.setPage x.page ((v.pool.page x.page).overlay offset bytes) }) holds frame]
    dsimp only
    by_cases here : s = space ∧ b = a.floor
    · rw [here.1, here.2, located.page] at page
      cases page
      rw [located.holds] at holds
      cases holds
      rw [located.frame] at frame
      cases frame
      have taken : v.pool.Taken x.page := (h.taken _).mpr ⟨f, x, located.frame, rfl⟩
      rw [if_pos here, PagePool.page_setPage_self taken.1]
      rfl
    · have other : y.page ≠ x.page := by
        intro same
        have frames := h.distinct frame located.frame same
        rw [frames, located.frame] at frame
        cases frame
        obtain ⟨z, there, owner'⟩ := h.resident located.page located.holds
        rw [located.frame] at there
        cases there
        rw [owner] at owner'
        cases owner'
        exact here ⟨rfl, rfl⟩
      rw [if_neg here, PagePool.page_setPage_of_ne other]

/-- A store into a page that was just accessed. -/
theorem Accessed.stores {u : VirtualMemory} (accessed : Accessed v space a true true u)
    (located : Located u space a p f x) (offset : Nat) (bytes : Array UInt8) {w : VirtualMemory}
    (hw : w = { u with
      pool := u.pool.setPage x.page ((u.pool.page x.page).overlay offset bytes) }) :
    Coherent w none ∧ Follows (IsStoreOrFault space) v w ∧
      Stores space [.stored space a.floor offset bytes] v w := by
  obtain ⟨coherent, places, stored⟩ := located.store accessed.coherent offset bytes hw
  have possible : (MemoryEvent.stored space a.floor offset bytes).Possible u.flat := trivial
  have kind : IsStoreOrFault space (.stored space a.floor offset bytes) := .inl rfl
  have storing := History.one possible
  rw [← stored] at storing
  have faults : Follows (IsStoreOrFault space) v u := accessed.follows.mono fun _ => .inr
  refine ⟨coherent, faults.trans (places.follows (stored ▸ .one possible kind)), ?_, ?_⟩
  · have stores : MemoryStores space [.stored space a.floor offset bytes] u.flat w.flat := by
      refine ⟨_, storing, fun e he => ?_, rfl⟩
      rw [List.mem_singleton.mp he]
      exact kind
    exact (MemoryStores.of_faults accessed.follows.happens).trans stores
  · have poked := located.cache_poke accessed.coherent offset bytes
    rw [← hw] at poked
    obtain ⟨t, before, leads, same⟩ := accessed.cached
    rw [if_pos rfl] at same
    have marked := before.cache_touch space a
    rw [← same] at marked
    -- The page was in memory before its access was recorded.
    refine (CacheStores.of_paging leads).trans (.one (fun q cached => ?_) marked poked)
    have here := located.cached
    rw [marked, PageCache.setPage_page, cached, Option.map_some] at here
    obtain ⟨b, -, held⟩ := Option.map_eq_some_iff.mp here.symm
    have some := congrArg (fun q : CachedPage => q.held.isSome) held
    simpa [CachedPage.change] using some.symm

theorem storesFrom_of_ne {bytes : Array UInt8} {done : Nat} (left : bytes.size - done ≠ 0) :
    storesFrom space a bytes done =
      .stored space a.floor a.pageOffset
        (bytes.extract done (done + bytesInPage a (bytes.size - done))) ::
      storesFrom space ⟨a.toNat + bytesInPage a (bytes.size - done)⟩ bytes
        (done + bytesInPage a (bytes.size - done)) := by
  rw [storesFrom, dif_neg left]

/-- One page is stored to, and the rest follows. -/
theorem StoredFrom.cons {u : VirtualMemory} {bytes : Array UInt8} {done n : Nat} {all : Bool}
    {e : MemoryEvent} (stored : Stores space [e] v u) (follows : Follows (IsStoreOrFault space) v u)
    (first : storesFrom space a bytes done =
      e :: storesFrom space ⟨a.toNat + n⟩ bytes (done + n))
    (rest : StoredFrom u space ⟨a.toNat + n⟩ bytes (done + n) all w) :
    StoredFrom v space a bytes done all w := by
  obtain ⟨stores, happened, front, complete⟩ := rest.stores
  refine ⟨rest.coherent, follows.trans rest.follows, e :: stores, stored.trans happened, ?_,
    fun ok => ?_⟩
  · rw [first]
    exact List.cons_prefix_cons.mpr ⟨rfl, front⟩
  · rw [first, complete ok]

theorem storeFrom_ends (h : Coherent v none) (bytes : Array UInt8) (done : Nat) :
    (storeFrom space a bytes done).Ends v
      (fun all w => StoredFrom v space a bytes done all w)
      (fun e w => e.IsRefusal ∧ StoredFrom v space a bytes done false w) := by
  generalize left : bytes.size - done = remaining
  induction remaining using Nat.strongRecOn generalizing v a done with
  | ind remaining ih =>
    rw [storeFrom]
    by_cases empty : bytes.size - done = 0
    · rw [dif_pos empty]
      have nothing : Faulted v space v := ⟨h, .refl v, .refl _⟩
      refine ⟨h, .refl v, [], nothing.stores, List.nil_prefix, fun _ => ?_⟩
      rw [storesFrom, dif_pos empty]
    · rw [dif_neg empty]
      dsimp only
      rw [ends_bind, ends_bind]
      refine (access_ends h true).mono (fun reached u accessed => ?_)
        fun e u stopped => ⟨stopped.1, stopped.2.storedFrom⟩
      rw [ends_gets]
      cases reached with
      | false => exact accessed.failed.storedFrom
      | true =>
        obtain ⟨p, f, x, located⟩ := (accessed.inMemory rfl).located accessed.coherent
        rw [if_pos rfl, located.place]
        dsimp only
        rw [ends_bind, ends_modify]
        obtain ⟨coherent, follows, stores⟩ := accessed.stores located a.pageOffset
          (bytes.extract done (done + bytesInPage a (bytes.size - done))) rfl
        have fewer : bytes.size - (done + bytesInPage a (bytes.size - done)) < remaining := by
          have := bytesInPage_pos a empty
          omega
        refine (ih _ fewer coherent _ rfl).mono (fun all w rest => ?_) fun e w stopped => ?_
        · exact .cons stores follows (storesFrom_of_ne empty) rest
        · exact ⟨stopped.1, .cons stores follows (storesFrom_of_ne empty) stopped.2⟩

end VirtualMemory

end KernelCore
