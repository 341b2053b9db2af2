import KernelCore.Proofs.Paging.Eviction

/-!
# Bringing pages in

A page comes into an empty frame with the bytes it should have, or the frame is freed and users
see nothing of it.
-/
namespace KernelCore.VirtualMemory

open Transition

variable {v w : VirtualMemory} {o : PageRef} {f : FrameId} {x : Frame} {p : Page} {pa : PhysAddr}
  {kind kind' : PageKind} {bytes : PageBytes} {swap : SwapArea} {space s : SpaceId} {va a : VirtAddr}

/-- By the kind of a page: the kind it has in memory, the bytes it comes in with, and the swap
area afterwards. -/
inductive BringsIn (v : VirtualMemory) : PageKind → PageKind → PageBytes → SwapArea → Prop where
  | loaded (loader : Loader) :
    BringsIn v (.untouched .anonymous loader) (.anonymous none) (loader.contents v.files.image) v.swap
  | mapped (b : FileBacking) :
    BringsIn v (.untouched .file (.segment b)) (.file b) (b.contents v.files.image) v.swap
  | blank : BringsIn v (.anonymous none) (.anonymous none) .zeros v.swap
  | swapped {i : SwapSlot} {swap : SwapArea} (freed : v.swap.Freed i swap) :
    BringsIn v (.anonymous (some i)) (.anonymous none) (v.swap.readPage i) swap
  | reread (b : FileBacking) :
    BringsIn v (.file b) (.file b) (b.contents v.files.image) v.swap

/-- The bytes a page that is not in memory comes with. -/
def incoming (v : VirtualMemory) (p : Page) : PageBytes :=
  match p.kind with
  | .untouched _ loader => loader.contents v.files.image
  | .anonymous slot => v.swap.saved slot
  | .file b => b.contents v.files.image

/-- Why a page does not come into its frame: less of its file comes than should, there is no file
for it to come from, or the hardware refuses to map it. -/
inductive NotBroughtIn (v : VirtualMemory) (o : PageRef) (p : Page) : Stop → Prop where
  | short (less : ¬p.Comes v.files) : NotBroughtIn v o p (.refused .io)
  | sourceless (kind : p.kind = .untouched .file .zeroFill) :
    NotBroughtIn v o p (.refused .invalidArgument)
  | unmapped {e : MapError} (refuses : v.mmu.Refuses o.space o.va e) :
    NotBroughtIn v o p (.refused (.ofMap e))

theorem NotBroughtIn.isRefusal {e : Stop} (h : NotBroughtIn v o p e) : ∃ r, e = .refused r := by
  cases h <;> exact ⟨_, rfl⟩

/-- The page at `o` was brought into the physical page `pa` and mapped. -/
structure BroughtIn (v : VirtualMemory) (o : PageRef) (pa : PhysAddr) (p : Page)
    (w : VirtualMemory) : Prop where
  record : ∃ kind bytes, BringsIn v p.kind kind bytes w.swap ∧
    w.pool = v.pool.setPage pa bytes ∧
    ∀ s a, pageIn? w.spaces s a =
      if s = o.space ∧ a = o.va then some { p with kind } else pageIn? v.spaces s a
  mapping : ∀ s a, w.mmu.mapping? s a =
    if s = o.space ∧ a = o.va then some ⟨pa, p.writable, false, false⟩ else v.mmu.mapping? s a
  regions : ∀ s a, regionIn? w.spaces s a = regionIn? v.spaces s a
  live : ∀ s, (w.spaces.find? s).isSome = (v.spaces.find? s).isSome
  frames : w.frames = v.frames
  files : v.files.Alike w.files
  next : w.nextSpace = v.nextSpace
  evictions : w.counts.evictions = v.counts.evictions

/-- Only a physical page that is to be freed was written to; the frame table is not spoken of. -/
structure OnlyFilled (v : VirtualMemory) (pa : PhysAddr) (w : VirtualMemory) : Prop where
  pool : ∃ bytes, w.pool = v.pool.setPage pa bytes
  mapping : ∀ s a, w.mmu.mapping? s a = v.mmu.mapping? s a
  spaces : w.spaces = v.spaces
  swap : w.swap = v.swap
  files : v.files.Alike w.files
  next : w.nextSpace = v.nextSpace

/-- What became of the frame table does not matter. -/
theorem OnlyFilled.of_frames {frames : FrameTable} {pa : PhysAddr}
    (filled : OnlyFilled { v with frames } pa w) : OnlyFilled v pa w :=
  ⟨filled.pool, filled.mapping, filled.spaces, filled.swap, filled.files, filled.next⟩

theorem OnlyFilled.remapped {pa : PhysAddr} {mmu : Mmu} (filled : OnlyFilled v pa w)
    (kept : ∀ s a, mmu.mapping? s a = w.mmu.mapping? s a) : OnlyFilled v pa { w with mmu } :=
  ⟨filled.pool, fun s a => (kept s a).trans (filled.mapping s a), filled.spaces, filled.swap,
    filled.files, filled.next⟩

private theorem BroughtIn.of_kind {u : VirtualMemory} {files : FileStore}
    (aligned : o.va.isAligned = true) (page : pageIn? v.spaces o.space o.va = some p)
    (brings : BringsIn v p.kind kind bytes u.swap) (pool : u.pool = v.pool.setPage pa bytes)
    (mapping : ∀ s a, u.mmu.mapping? s a = if s = o.space ∧ a = o.va then
      some ⟨pa, p.writable, false, false⟩ else v.mmu.mapping? s a)
    (spaces : u.spaces = v.spaces) (frames : u.frames = v.frames)
    (alike : v.files.Alike files) (next : u.nextSpace = v.nextSpace)
    (evictions : u.counts.evictions = v.counts.evictions) :
    BroughtIn v o pa p { u with
      spaces := u.spaces.modify o.space fun a => a.updatePage o.va fun p => { p with kind }
      files } := by
  have floor := VirtAddr.floor_of_isAligned aligned
  refine ⟨⟨kind, bytes, brings, pool, fun s a => ?_⟩, mapping, fun s a => ?_, fun s => ?_, frames,
    alike, next, evictions⟩
  · simp only [pageIn?_updatePage, floor, spaces]
    by_cases here : s = o.space ∧ a = o.va
    · rw [if_pos here, if_pos here, here.1, here.2, page, Option.map_some]
    · rw [if_neg here, if_neg here]
  · rw [regionIn?_updatePage, spaces]
  · rw [isSome_find_modify, spaces]

private theorem bringIn_untouched_ends {target : PageType} {loader : Loader}
    (aligned : o.va.isAligned = true) (page : pageIn? v.spaces o.space o.va = some p)
    (kind : p.kind = .untouched target loader) :
    ((do
      filling pa loader.load
      let kind ← firstKind target loader
      mapPage o.space o.va pa p.writable
      setKind o.space o.va kind) : Paging Unit).Ends v
      (fun _ w => BroughtIn v o pa p w)
      (fun e w => NotBroughtIn v o p e ∧ OnlyFilled v pa w ∧ w.frames = v.frames) := by
  rw [ends_bind, ends_filling]
  refine (FileBacking.fills_load loader _).mono (fun _ t filled => ?_) fun e t refused => ?_
  · obtain ⟨alike, bytes⟩ := filled
    have mapped : ∀ {first : PageKind}, BringsIn v p.kind first (loader.contents v.files.image)
        v.swap → ((do
          mapPage o.space o.va pa p.writable
          setKind o.space o.va first) : Paging Unit).Ends
        { v with files := t.files, pool := v.pool.setPage pa t.page }
        (fun _ w => BroughtIn v o pa p w)
        (fun e w => NotBroughtIn v o p e ∧ OnlyFilled v pa w ∧ w.frames = v.frames) := by
      intro first brings
      rw [ends_bind]
      refine ends_mapPage pa p.writable (fun e mmu refuses same => ?_) fun mmu _ mapping => ?_
      · exact ⟨.unmapped refuses, ⟨⟨_, rfl⟩, same, rfl, rfl, alike, rfl⟩, rfl⟩
      · refine ends_setKind _ fun files alike' _ => ?_
        exact .of_kind aligned page brings (by rw [bytes]) mapping rfl rfl (alike.trans alike') rfl
          rfl
    rw [ends_bind]
    cases target with
    | anonymous => exact mapped (kind ▸ .loaded loader)
    | file =>
      cases loader with
      | segment b => exact mapped (kind ▸ .mapped b)
      | zeroFill =>
        exact ⟨.sourceless kind, ⟨⟨_, rfl⟩, fun _ _ => rfl, rfl, rfl, alike, rfl⟩, rfl⟩
  · obtain ⟨rfl, less, alike⟩ := refused
    have less' : ¬p.Comes v.files := by
      unfold Page.Comes
      rw [kind]
      exact less
    exact ⟨.short less', ⟨⟨_, rfl⟩, fun _ _ => rfl, rfl, rfl, alike, rfl⟩, rfl⟩

private theorem bringIn_anonymous_ends {slot : Option SwapSlot} (regular : v.swap.Regular)
    (used : ∀ i, slot = some i → v.swap.Used i) (aligned : o.va.isAligned = true)
    (page : pageIn? v.spaces o.space o.va = some p) (kind : p.kind = .anonymous slot) :
    ((do
      let bytes ← onSwap (SwapArea.bringIn slot)
      setPage pa bytes
      mapPage o.space o.va pa p.writable
      if slot.isSome then count fun c => { c with swapIns := c.swapIns + 1 } else pure ()
      onSwap (SwapArea.release slot)
      setKind o.space o.va (.anonymous none)) : Paging Unit).Ends v
      (fun _ w => BroughtIn v o pa p w)
      (fun e w => NotBroughtIn v o p e ∧ OnlyFilled v pa w ∧ w.frames = v.frames) := by
  rw [ends_bind, ends_onSwap]
  refine (SwapArea.bringIn_ends regular used).mono (fun bytes swap read => ?_) fun _ _ h => h
  obtain ⟨rfl, rfl⟩ := read
  rw [ends_bind, ends_setPage, ends_bind]
  refine ends_mapPage pa p.writable (fun e mmu refuses same => ?_) fun mmu _ mapping => ?_
  · exact ⟨.unmapped refuses, ⟨⟨_, rfl⟩, same, rfl, rfl, .refl _, rfl⟩, rfl⟩
  · cases slot with
    | none =>
      simp only [Option.isSome_none, Bool.false_eq_true, if_false, SwapArea.release, ends_bind,
        ends_pure, ends_onSwap]
      refine ends_setKind _ fun files alike _ => ?_
      have brings : BringsIn v p.kind (.anonymous none) (v.swap.saved none) v.swap := by
        rw [kind, SwapArea.saved_none]
        exact .blank
      exact .of_kind aligned page brings rfl mapping rfl rfl alike rfl rfl
    | some i =>
      simp only [Option.isSome_some, if_true, SwapArea.release, ends_bind, ends_count, ends_onSwap]
      refine (SwapArea.free_ends regular (used i rfl)).mono (fun _ swap freed => ?_)
        fun _ _ h => h
      refine ends_setKind _ fun files alike _ => ?_
      have brings : BringsIn v p.kind (.anonymous none) (v.swap.saved (some i)) swap := by
        rw [kind, SwapArea.saved_some]
        exact .swapped freed
      exact .of_kind aligned page brings rfl mapping rfl rfl alike rfl rfl

theorem bringIn_ends (regular : v.swap.Regular) (used : ∀ i, p.slot = some i → v.swap.Used i)
    (aligned : o.va.isAligned = true) (page : pageIn? v.spaces o.space o.va = some p) :
    (bringIn o.space o.va pa).Ends v (fun _ w => BroughtIn v o pa p w)
      (fun e w => NotBroughtIn v o p e ∧ OnlyFilled v pa w ∧ w.frames = v.frames) := by
  have lookup : v.page? o.space o.va = some p := by
    rw [page?_eq, VirtAddr.floor_of_isAligned aligned, page]
  unfold bringIn
  rw [ends_bind, ends_pageAt lookup]
  cases kind : p.kind with
  | untouched target loader => exact bringIn_untouched_ends aligned page kind
  | anonymous slot =>
    refine bringIn_anonymous_ends regular (fun i hi => used i ?_) aligned page kind
    simp [Page.slot, kind, hi]
  | file b =>
    dsimp only
    rw [ends_bind, ends_filling]
    refine (FileBacking.fills_bringIn b _).mono (fun _ t filled => ?_) fun e t refused => ?_
    · obtain ⟨alike, bytes⟩ := filled
      refine ends_mapPage pa p.writable (fun e mmu refuses same => ?_) fun mmu _ mapping => ?_
      · exact ⟨.unmapped refuses, ⟨⟨_, rfl⟩, same, rfl, rfl, alike, rfl⟩, rfl⟩
      · have brings : BringsIn v p.kind (.file b) (b.contents v.files.image) v.swap := by
          rw [kind]
          exact .reread b
        refine ⟨⟨.file b, _, brings, by rw [bytes], fun s a => ?_⟩, mapping, fun _ _ => rfl,
          fun _ => rfl, rfl, alike, rfl, rfl⟩
        by_cases here : s = o.space ∧ a = o.va
        · rw [if_pos here, here.1, here.2, ← kind]
          exact page
        · rw [if_neg here]
    · obtain ⟨rfl, less, alike⟩ := refused
      have less' : ¬p.Comes v.files := by
        unfold Page.Comes
        rw [kind]
        exact less
      exact ⟨.short less', ⟨⟨_, rfl⟩, fun _ _ => rfl, rfl, rfl, alike, rfl⟩, rfl⟩

/-! ## The page in its frame -/

/-- A page in memory is not untouched and holds no slot. -/
theorem BringsIn.settled {q : Page} (h : BringsIn v kind q.kind bytes swap) :
    q.isUntouched = false ∧ q.slot = none := by
  unfold Page.isUntouched Page.slot
  generalize q.kind = k at h
  cases h <;> exact ⟨rfl, rfl⟩

theorem BringsIn.mapped? {q : Page} (h : BringsIn v p.kind q.kind bytes swap) :
    q.mapped? = p.mapped? := by
  unfold Page.mapped?
  generalize p.kind = k, q.kind = k' at h
  cases h <;> rfl

theorem BringsIn.type {q : Page} (h : BringsIn v p.kind q.kind bytes swap) : q.type = p.type := by
  unfold Page.type
  generalize p.kind = k, q.kind = k' at h
  cases h <;> rfl

theorem BringsIn.regular (h : BringsIn v kind kind' bytes swap) (regular : v.swap.Regular) :
    swap.Regular := by
  cases h with
  | swapped freed => exact freed.regular
  | _ => exact regular

/-- The slot a page came from is free again. -/
theorem BringsIn.used (h : BringsIn v p.kind kind' bytes swap) (i : SwapSlot) :
    swap.Used i ↔ v.swap.Used i ∧ p.slot ≠ some i := by
  unfold Page.slot
  generalize p.kind = k at h
  cases h with
  | swapped freed => simp [freed.used, eq_comm, and_comm]
  | _ => simp

theorem BringsIn.readPage (h : BringsIn v kind kind' bytes swap) (i : SwapSlot) :
    swap.readPage i = v.swap.readPage i := by
  cases h with
  | swapped freed => exact freed.contents i
  | _ => rfl

/-- The page at `o`, which was `p`, is `q` in the frame `f`, whose physical page has its bytes. -/
structure Placed (v : VirtualMemory) (o : PageRef) (f : FrameId) (x : Frame) (p q : Page)
    (bytes : PageBytes) (w : VirtualMemory) : Prop where
  holds : q.frame = some f
  settled : q.isUntouched = false ∧ q.slot = none
  swap : w.swap.Regular
  used : ∀ i, w.swap.Used i ↔ v.swap.Used i ∧ p.slot ≠ some i
  saved : ∀ i, w.swap.readPage i = v.swap.readPage i
  pages : ∀ s a, pageIn? w.spaces s a =
    if s = o.space ∧ a = o.va then some q else pageIn? v.spaces s a
  pool : w.pool = v.pool.setPage x.page bytes
  targets : ∀ s a, (w.mmu.mapping? s a).map MmuEntry.target =
    if s = o.space ∧ a = o.va then some (x.page, q.writable)
    else (v.mmu.mapping? s a).map MmuEntry.target
  elsewhere : ∀ s a, ¬(s = o.space ∧ a = o.va) → w.mmu.isDirty s a = v.mmu.isDirty s a
  regions : ∀ s a, regionIn? w.spaces s a = regionIn? v.spaces s a
  live : ∀ s, (w.spaces.find? s).isSome = (v.spaces.find? s).isSome
  frames : w.frames = v.frames.put f (some { x with owner := some o })
  files : v.files.Alike w.files
  next : w.nextSpace = v.nextSpace

section

variable {q : Page}

theorem Placed.change (c : Placed v o f x p q bytes w) (h : Coherent v (some f))
    (frame : v.frames.frame? f = some x) (unowned : x.owner = none)
    (page : pageIn? v.spaces o.space o.va = some p) (away : p.frame = none) :
    LocalChange v w o f (some q) (some { x with owner := some o }) where
  pages := c.pages
  frames g := by rw [c.frames, FrameTable.frame?_put frame]
  targets s a := by
    rw [c.targets]
    by_cases here : s = o.space ∧ a = o.va
    · rw [if_pos here, if_pos here]
      simp only [c.holds, Option.bind_some, Option.map_some]
    · rw [if_neg here, if_neg here]
  pool := by
    rw [c.pool]
    exact h.pool.setPage _ _
  taken := by
    rw [c.pool]
    exact h.taken_setPage (y := { x with owner := some o }) frame rfl _
  contents r _ other := by
    rw [c.pool]
    exact PagePool.page_setPage_of_ne fun same => other x frame same.symm
  swap := c.swap
  used i := by
    rw [c.used]
    constructor
    · rintro ⟨used, other⟩
      refine .inr ⟨used, fun r hr => ?_⟩
      rw [page] at hr
      cases hr
      exact other
    · rintro (⟨r, hr, slot⟩ | ⟨used, other⟩)
      · cases hr
        rw [c.settled.2] at slot
        cases slot
      · exact ⟨used, other p page⟩
  saved i _ _ := c.saved i
  frame_before y r hy owner := by
    rw [frame] at hy
    cases hy
    rw [unowned] at owner
    cases owner
  page_before r g hr hg := by
    rw [page] at hr
    cases hr
    rw [away] at hg
    cases hg
  page_after r g hr hg := by
    cases hr
    rw [c.holds] at hg
    cases hg
    exact ⟨rfl, ⟨_, rfl, rfl⟩, c.settled⟩
  frame_after y hy := by
    cases hy
    have unpinned : x.pinned = false := h.unpinned frame
    refine ⟨unpinned, fun r hr => ?_⟩
    cases hr
    exact ⟨rfl, q, rfl, c.holds⟩
  place_after y hy := by
    cases hy
    exact .inl ⟨x, frame, rfl⟩
  slot_after r i hr slot := by
    cases hr
    rw [c.settled.2] at slot
    cases slot
  placed _ _ := h.placed page
  numbered s hs := by
    rw [c.next]
    rw [c.live] at hs
    exact h.numbered hs

theorem Placed.coherent (c : Placed v o f x p q bytes w) (h : Coherent v (some f))
    (frame : v.frames.frame? f = some x) (unowned : x.owner = none)
    (page : pageIn? v.spaces o.space o.va = some p) (away : p.frame = none) : Coherent w none := by
  refine h.change (c.change h frame unowned page away) (fun g hg => ?_) (fun y hy hnone => ?_) nofun
  · exact (Option.some.inj hg).symm
  · cases hy
    cases hnone

/-- The physical page of the frame has the bytes. -/
theorem Placed.anonymousBytes (c : Placed v o f x p q bytes w) (h : Coherent v (some f))
    (frame : v.frames.frame? f = some x) : w.anonymousBytes q = bytes := by
  have taken : v.pool.Taken x.page := (h.taken _).mpr ⟨f, x, frame, rfl⟩
  unfold VirtualMemory.anonymousBytes
  simp only [c.holds, c.frames, FrameTable.frame?_put frame, if_true, Option.map_some,
    Option.getD_some, c.pool]
  exact PagePool.page_setPage_self taken.1

/-- Users see the page with the bytes it comes in with, if they see it at all. -/
theorem BringsIn.flatPage (h : BringsIn v p.kind q.kind bytes swap) (away : p.frame = none)
    (holds : q.frame.isSome = true) (contents : w.anonymousBytes q = bytes) :
    (∃ loader, v.flatPage p = some (.untouched loader) ∧
      bytes = loader.contents v.files.image ∧ w.flatPage q = some (.loaded bytes)) ∨
    w.flatPage q = v.flatPage p := by
  have saved : v.anonymousBytes p = v.swap.saved p.slot := by
    unfold VirtualMemory.anonymousBytes
    rw [away]
  unfold VirtualMemory.flatPage
  rw [contents, saved]
  unfold Page.isMaterialised Page.isResident Page.slot
  rw [away, holds]
  generalize p.kind = k, q.kind = k' at h
  cases h with
  | loaded loader => exact .inl ⟨loader, rfl, rfl, rfl⟩
  | mapped b => exact .inr rfl
  | blank => exact .inl ⟨.zeroFill, rfl, rfl, rfl⟩
  | swapped freed => exact .inr (by rw [SwapArea.saved_some]; rfl)
  | reread b => exact .inr rfl

/-- Only the first access to an anonymous page shows, which then has the bytes of its loader. -/
theorem Placed.happens (c : Placed v o f x p q bytes w) (h : Coherent v (some f))
    (frame : v.frames.frame? f = some x) (unowned : x.owner = none)
    (page : pageIn? v.spaces o.space o.va = some p) (away : p.frame = none)
    (brings : BringsIn v p.kind q.kind bytes w.swap) :
    Happens (MemoryEvent.IsLoad o.space o.va) v.flat w.flat := by
  have pages := h.flatPage_change (c.change h frame unowned page away)
  have here : v.flat.page o.space o.va = v.flatPage p := by
    simp only [flat, page, Option.bind_some]
  have held : q.frame.isSome = true := by rw [c.holds, Option.isSome_some]
  rcases brings.flatPage away held (c.anonymousBytes h frame) with
    ⟨loader, untouched, produced, loaded⟩ | same
  · have possible : (MemoryEvent.loaded o.space o.va bytes).Possible v.flat :=
      ⟨loader, here.trans untouched, produced⟩
    have after : w.flat = (MemoryEvent.loaded o.space o.va bytes).apply v.flat := by
      refine flat_eq (fun s a => ?_) c.files.image
      rw [pages, Option.bind_some, loaded]
      rfl
    rw [after]
    exact .one possible ⟨rfl, rfl⟩
  · have after : w.flat = v.flat := by
      refine flat_eq (fun s a => ?_) c.files.image
      rw [pages, Option.bind_some, same]
      by_cases at_o : s = o.space ∧ a = o.va
      · rw [if_pos at_o, at_o.1, at_o.2, here]
      · rw [if_neg at_o]
    rw [after]
    exact .refl _

/-- A file page comes in with what its stretch of the file says. -/
theorem BringsIn.contents {b : FileBacking} (h : BringsIn v p.kind kind bytes swap)
    (mapped : p.mapped? = some b) : bytes = b.contents v.files.image := by
  unfold Page.mapped? at mapped
  generalize p.kind = k at h mapped
  cases h with
  | mapped b' =>
    cases mapped
    rfl
  | reread b' =>
    cases mapped
    rfl
  | _ => cases mapped

/-- In the cache the page is in memory, with its bytes. -/
theorem Placed.cached (c : Placed v o f x p q bytes w) (h : Coherent v (some f))
    (frame : v.frames.frame? f = some x) (unowned : x.owner = none)
    (page : pageIn? v.spaces o.space o.va = some p) (away : p.frame = none) (s a) :
    w.cache.page s a =
      if s = o.space ∧ a = o.va then
        q.mapped?.map fun b => ⟨b, some ⟨bytes, w.mmu.isDirty o.space o.va⟩⟩
      else v.cache.page s a := by
  rw [h.cache_change (c.change h frame unowned page away) c.elsewhere]
  by_cases here : s = o.space ∧ a = o.va
  · have taken : v.pool.Taken x.page := (h.taken _).mpr ⟨f, x, frame, rfl⟩
    have there : w.frames.frame? f = some { x with owner := some o } := by
      rw [c.frames, FrameTable.frame?_put frame, if_pos rfl]
    rw [if_pos here, if_pos here, here.1, here.2, Option.bind_some, cachedPage,
      heldPage_of_frame c.holds there, c.pool, PagePool.page_setPage_self taken.1]
  · rw [if_neg here, if_neg here]

theorem Placed.cache (c : Placed v o f x p q bytes w) (h : Coherent v (some f))
    (frame : v.frames.frame? f = some x) (unowned : x.owner = none)
    (page : pageIn? v.spaces o.space o.va = some p) (away : p.frame = none) :
    w.cache = v.cache.setPage o.space o.va
      (q.mapped?.map fun b => ⟨b, some ⟨bytes, w.mmu.isDirty o.space o.va⟩⟩) :=
  cache_eq (c.cached h frame unowned page away) c.regions c.files.image c.files.short

/-- A file page was fetched; of an anonymous page the cache shows nothing. -/
theorem Placed.fetched (c : Placed v o f x p q bytes w) (h : Coherent v (some f))
    (frame : v.frames.frame? f = some x) (unowned : x.owner = none)
    (page : pageIn? v.spaces o.space o.va = some p) (away : p.frame = none)
    (brings : BringsIn v p.kind q.kind bytes w.swap)
    (clean : w.mmu.isDirty o.space o.va = false) : Leads CacheEvent.IsPaging v.cache w.cache := by
  have after := c.cache h frame unowned page away
  have before := cache_page_of_page page
  rw [brings.mapped?, clean] at after
  cases mapped : p.mapped? with
  | none =>
    rw [cachedPage_of_unmapped mapped] at before
    rw [mapped, Option.map_none, PageCache.setPage_self before] at after
    rw [after]
    exact .refl _
  | some b =>
    rw [cachedPage_of_mapped? mapped, heldPage_of_away away] at before
    rw [mapped, Option.map_some, brings.contents mapped] at after
    rw [after]
    exact .one (.fetched before) trivial

theorem Placed.samePlaces (c : Placed v o f x p q bytes w)
    (page : pageIn? v.spaces o.space o.va = some p) (use : p.SameUse q)
    (mapped : q.mapped? = p.mapped?) : SamePlaces v w where
  kept := by
    intro s a r hr
    rw [c.pages]
    by_cases here : s = o.space ∧ a = o.va
    · rw [here.1, here.2, page] at hr
      cases hr
      exact ⟨q, by rw [if_pos here], use⟩
    · exact ⟨r, by rw [if_neg here, hr], rfl, rfl⟩
  mapped s a := by
    unfold mappedIn?
    rw [c.pages]
    by_cases here : s = o.space ∧ a = o.va
    · rw [if_pos here, here.1, here.2, page]
      exact mapped
    · rw [if_neg here]
  regions := c.regions
  live := c.live

end

/-! ## Freeing the frame again -/

/-- The state after a frame was given up: users see the same, and no page record changed. -/
structure GaveUp (v w : VirtualMemory) : Prop where
  coherent : Coherent w none
  spaces : w.spaces = v.spaces
  flat : w.flat = v.flat
  cache : w.cache = v.cache

theorem freeFrame_ends (h : Coherent v (some f)) (frame : v.frames.frame? f = some x)
    (unowned : x.owner = none) (filled : OnlyFilled v x.page w) {owner : Option PageRef}
    (frames : w.frames = v.frames.put f (some { x with owner })) {E : Stop → VirtualMemory → Prop} :
    (freeFrame f).Ends w (fun _ u => GaveUp v u) E := by
  obtain ⟨bytes, written⟩ := filled.pool
  have taken : w.pool.Taken x.page := by
    rw [written, PagePool.taken_setPage]
    exact (h.taken _).mpr ⟨f, x, frame, rfl⟩
  have regular : w.pool.Regular := by
    rw [written]
    exact h.pool.setPage _ _
  obtain ⟨pool, released, back⟩ := PagePool.release_of_taken regular taken
  have here : w.frames.frame? f = some { x with owner } := by
    rw [frames, FrameTable.frame?_put frame, if_pos rfl]
  rw [ends_freeFrame here released]
  have change : FrameChange v { w with frames := w.frames.put f none, pool } f none :=
    { spaces := filled.spaces
      swap := filled.swap
      next := filled.next
      targets := fun s a => by rw [filled.mapping]
      frames := fun g => by
        rw [frames, FrameTable.put_put, FrameTable.frame?_put frame]
      pool := back.regular
      taken := fun q => by
        rw [back.taken, written, PagePool.taken_setPage]
        simp [frame, and_comm, eq_comm]
      contents := fun q _ other => by
        have apart : q ≠ x.page := fun same => other x frame same.symm
        rw [back.page_other q apart, written, PagePool.page_setPage_of_ne apart]
      before := fun y hy => by
        rw [frame] at hy
        cases hy
        exact unowned
      after := nofun
      place_after := nofun }
  refine ⟨h.change (change.toLocal h) (fun g hg => ?_) nofun nofun, filled.spaces,
    change.flat h filled.files.image,
    change.cache h (fun s a => Mmu.isDirty_congr (filled.mapping s a)) filled.files⟩
  exact (Option.some.inj hg).symm

/-! ## Both together -/

theorem NotBroughtIn.of_frames {frames : FrameTable} {e : Stop}
    (h : NotBroughtIn { v with frames } o p e) : NotBroughtIn v o p e := by
  cases h with
  | short less => exact .short less
  | sourceless kind => exact .sourceless kind
  | unmapped refuses => exact .unmapped refuses

theorem BringsIn.unpinned {frames : FrameTable}
    (h : BringsIn { v with frames } kind kind' bytes swap) : BringsIn v kind kind' bytes swap := by
  cases h with
  | loaded loader => exact .loaded loader
  | mapped b => exact .mapped b
  | blank => exact .blank
  | swapped freed => exact .swapped freed
  | reread b => exact .reread b

/-- The page came into memory with its bytes, and the other pages are as they were. -/
structure Installed (v : VirtualMemory) (space : SpaceId) (va : VirtAddr) (p : Page)
    (w : VirtualMemory) : Prop where
  coherent : Coherent w none
  places : SamePlaces v w
  happens : Happens (MemoryEvent.IsLoad space va) v.flat w.flat
  cached : Leads CacheEvent.IsPaging v.cache w.cache
  bytes : ∃ q f x, pageIn? w.spaces space va = some q ∧ q.writable = p.writable ∧
    q.frame = some f ∧ w.frames.frame? f = some x ∧ w.pool.page x.page = w.incoming p
  others : ∀ s a, ¬(s = space ∧ a = va) → pageIn? w.spaces s a = pageIn? v.spaces s a
  evictions : w.counts.evictions = v.counts.evictions

/-- A page comes in with what it should, as files and slots say when it is there. -/
theorem BringsIn.eq_incoming (h : BringsIn v p.kind kind bytes swap) (left : w.swap = swap)
    (files : w.files.image = v.files.image) : bytes = w.incoming p := by
  have slots := h.readPage
  unfold incoming
  rw [files, left]
  generalize p.kind = k at h
  cases h with
  | blank => exact SwapArea.saved_none.symm
  | swapped freed => exact (SwapArea.saved_some.trans (slots _)).symm
  | _ => rfl

/-- A page that was brought in is placed once its record names the frame and the frame its owner. -/
private theorem BroughtIn.placed {frames : FrameTable}
    (h : BroughtIn { v with frames } o x.page p w) (regular : v.swap.Regular)
    (floor : o.va.floor = o.va) :
    ∃ kind bytes, BringsIn v p.kind kind bytes w.swap ∧
      Placed v o f x p { p with kind, frame := some f } bytes { w with
        spaces := w.spaces.modify o.space fun a =>
          a.updatePage o.va fun p => { p with frame := some f }
        frames := v.frames.put f (some { x with owner := some o }) } := by
  obtain ⟨kind, bytes, brings, pool, pages⟩ := h.record
  have brings' : BringsIn v p.kind kind bytes w.swap := brings.unpinned
  exact ⟨kind, bytes, brings', {
    holds := rfl
    settled := brings'.settled
    swap := brings'.regular regular
    used := brings'.used
    saved := brings'.readPage
    pages := fun s a => by
      dsimp only
      rw [pageIn?_updatePage, floor, pages]
      by_cases here : s = o.space ∧ a = o.va
      · rw [if_pos here, if_pos here, if_pos here, Option.map_some]
      · rw [if_neg here, if_neg here, if_neg here]
    pool
    targets := fun s a => by
      rw [h.mapping]
      by_cases here : s = o.space ∧ a = o.va
      · rw [if_pos here, if_pos here]
        rfl
      · rw [if_neg here, if_neg here]
    elsewhere := fun s a other => by
      refine Mmu.isDirty_congr ?_
      rw [h.mapping, if_neg other]
    regions := fun s a => by
      dsimp only
      rw [regionIn?_updatePage, h.regions]
    live := fun s => by
      dsimp only
      rw [isSome_find_modify, h.live]
    frames := rfl
    files := h.files
    next := h.next }⟩

theorem install_ends (h : Coherent v (some f)) (page : pageIn? v.spaces space va = some p)
    (away : p.frame = none) :
    (install space va f).Ends v (fun _ w => Installed v space va p w)
      (fun e w => NotBroughtIn v ⟨space, va⟩ p e ∧ GaveUp v w) := by
  obtain ⟨x, frame, unowned⟩ := h.spare_unowned rfl
  have aligned := h.aligned page
  have floor := VirtAddr.floor_of_isAligned aligned
  have unpinned : x.pinned = false := h.unpinned frame
  have owned : (v.frames.put f (some { x with owner := some ⟨space, va⟩ })).frame? f =
      some { x with owner := some ⟨space, va⟩ } := by
    rw [FrameTable.frame?_put frame, if_pos rfl]
  have used : ∀ i, p.slot = some i → v.swap.Used i :=
    fun i slot => (h.used i).mpr ⟨space, va, p, page, slot⟩
  unfold install
  rw [ends_bind, ends_frame frame, ends_bind, ends_updateFrame frame, ends_bind]
  refine Ends.attempt (whilePinned_ends owned unpinned ?_)
  rw [ends_bind]
  refine (bringIn_ends (v := { v with
      frames := (v.frames.put f (some { x with owner := some ⟨space, va⟩ })).put f
        (some { x with owner := some ⟨space, va⟩, pinned := true }) })
    (o := ⟨space, va⟩) (p := p) h.swap used aligned page).mono
    (fun _ w brought => ?_) fun e w stopped => ?_
  · rw [ends_setFrame]
    refine ⟨brought.frames, ?_⟩
    obtain ⟨kind, bytes, brings, placed⟩ := brought.placed (f := f) h.swap floor
    have contents : w.pool.page x.page = w.incoming p := by
      have taken : v.pool.Taken x.page := (h.taken _).mpr ⟨f, x, frame, rfl⟩
      have pool : w.pool = v.pool.setPage x.page bytes := placed.pool
      rw [pool, PagePool.page_setPage_self taken.1]
      exact brings.eq_incoming rfl brought.files.image
    have clean : w.mmu.isDirty space va = false := by
      unfold Mmu.isDirty
      rw [brought.mapping, if_pos ⟨rfl, rfl⟩]
      rfl
    refine ⟨placed.coherent h frame unowned page away,
      placed.samePlaces page ⟨brings.type, rfl⟩ brings.mapped?,
      placed.happens h frame unowned page away brings,
      placed.fetched h frame unowned page away brings clean,
      ⟨{ p with kind, frame := some f }, f, { x with owner := some ⟨space, va⟩ },
        (placed.pages space va).trans (if_pos ⟨rfl, rfl⟩), rfl, rfl,
        (FrameTable.frame?_put frame _).trans (if_pos rfl), contents⟩,
      fun s a other => (placed.pages s a).trans (if_neg other), brought.evictions⟩
  · obtain ⟨reason, filled, frames⟩ := stopped
    obtain ⟨r, rfl⟩ := reason.isRefusal
    have reason' : NotBroughtIn v ⟨space, va⟩ p (.refused r) := reason.of_frames
    refine ⟨⟨r, rfl⟩, frames, ?_⟩
    dsimp only
    rw [ends_bind, ends_setFrame, ends_bind]
    have same : (w.spaces.modify space fun a => a.updatePage va fun p => { p with frame := none }) =
        v.spaces := by
      rw [filled.spaces]
      refine modify_updatePage_self fun q hq => ?_
      rw [floor, page] at hq
      cases hq
      rw [← away]
    have filled' : OnlyFilled v x.page { w with
        spaces := w.spaces.modify space fun a => a.updatePage va fun p => { p with frame := none }
        frames := v.frames.put f (some { x with owner := some ⟨space, va⟩ }) } :=
      ⟨filled.pool, filled.mapping, same, filled.swap, filled.files, filled.next⟩
    refine (freeFrame_ends h frame unowned filled' rfl).mono (fun _ u gaveUp => ?_) fun _ _ h => h
    rw [ends_bind, ends_emit, ends_refuse]
    exact ⟨reason', gaveUp⟩

/-- A page of the space is in memory. -/
def InMemory (v : VirtualMemory) (space : SpaceId) (va : VirtAddr) : Prop :=
  ∃ p f, pageIn? v.spaces space va = some p ∧ p.frame = some f

/-- The page is in memory now, with its bytes if it was not before. -/
structure Claimed (v : VirtualMemory) (space : SpaceId) (va : VirtAddr) (w : VirtualMemory) :
    Prop where
  coherent : Coherent w none
  follows : Follows (MemoryEvent.IsPaging space) v w
  cached : Leads CacheEvent.IsPaging v.cache w.cache
  page : ∃ p q f x, pageIn? v.spaces space va = some p ∧ pageIn? w.spaces space va = some q ∧
    q.writable = p.writable ∧ q.frame = some f ∧ w.frames.frame? f = some x ∧
    (p.frame = none → w.pool.page x.page = w.incoming p)
  kept : w.counts.evictions = v.counts.evictions ∧ (∀ s a, ¬(s = space ∧ a = va) →
    pageIn? w.spaces s a = pageIn? v.spaces s a) ∨ w.counts.evictions = v.counts.evictions + 1

theorem Claimed.inMemory (h : Claimed v space va w) : InMemory w space va := by
  obtain ⟨-, q, f, -, -, page, -, frame, -⟩ := h.page
  exact ⟨q, f, page, frame⟩

/-- Why the page `p` could not be claimed, and what that leaves: no frame was to be had, or room was
made for it, and then it did not come. -/
inductive Unclaimed (v : VirtualMemory) (space : SpaceId) (va : VirtAddr) (p : Page) (e : Stop)
    (w : VirtualMemory) : Prop where
  | roomless (stopped : Unobtained v e w) (failed : (obtainFrame v).result = .error e)
  | absent {f : FrameId} {u : VirtualMemory} (obtained : Obtained v f u)
    (found : (obtainFrame v).result = .ok f)
    (page : pageIn? u.spaces space va = some p) (reason : NotBroughtIn u ⟨space, va⟩ p e)
    (gaveUp : GaveUp u w)

theorem Unclaimed.isRefusal {e : Stop} (h : Unclaimed v space va p e w) : ∃ r, e = .refused r := by
  cases h with
  | roomless stopped _ => exact stopped.reason.isRefusal
  | absent _ _ _ reason _ => exact reason.isRefusal

theorem Unclaimed.coherent {e : Stop} (h : Unclaimed v space va p e w) : Coherent w none := by
  cases h with
  | roomless stopped _ => exact stopped.coherent
  | absent _ _ _ _ gaveUp => exact gaveUp.coherent

theorem Unclaimed.madeRoom {e : Stop} (h : Unclaimed v space va p e w) :
    Follows (MemoryEvent.IsPaging space) v w ∧ Leads CacheEvent.IsPaging v.cache w.cache := by
  have weaker : ∀ e, MemoryEvent.IsWriteBack e → e.IsPaging space := fun _ e => e.isPaging
  cases h with
  | roomless stopped _ => exact ⟨stopped.room.follows.mono weaker, stopped.room.cached⟩
  | absent obtained _ _ _ gaveUp =>
    have places := SamePlaces.of_spaces gaveUp.spaces
    exact ⟨(obtained.room.follows.mono weaker).trans (places.silent gaveUp.flat),
      gaveUp.cache ▸ obtained.room.cached⟩

/-- A page that is not there cannot be claimed, one that is in memory stays, and any other comes
into memory or stays as it is. -/
theorem claim_cases (h : Coherent v none) :
    (claim space va).Ends v (fun _ w => Claimed v space va.floor w)
      (fun e w => pageIn? v.spaces space va.floor = none ∧ e = .refused .notMapped ∧ w = v ∨
        ∃ p, pageIn? v.spaces space va.floor = some p ∧ p.frame = none ∧
          Unclaimed v space va.floor p e w) := by
  unfold claim
  simp only [ends_bind, ends_get, page?_eq, VirtAddr.floor_floor]
  cases page : pageIn? v.spaces space va.floor with
  | none => exact .inl ⟨rfl, rfl, rfl⟩
  | some p =>
    dsimp only
    cases frame : p.frame with
    | some f =>
      simp only [Page.isResident, frame, Option.isSome_some, if_true, ends_pure]
      obtain ⟨x, hx, -⟩ := h.resident page frame
      exact ⟨h, .refl v, .refl _, ⟨p, p, f, x, page, page, rfl, frame, hx, fun away => by
        rw [frame] at away; cases away⟩, .inl ⟨rfl, fun _ _ _ => rfl⟩⟩
    | none =>
      simp only [Page.isResident, frame, Option.isSome_none, Bool.false_eq_true, if_false, ends_bind]
      refine ((obtainFrame_ends h).and Ends.self).mono (fun f w got => ?_) fun e w stopped => ?_
      · obtain ⟨obtained, found, -⟩ := got
        have there := obtained.room.away page frame
        refine (install_ends obtained.coherent there frame).mono (fun _ u installed => ?_)
          fun e u stopped => ?_
        · have made : Follows (MemoryEvent.IsPaging space) v w :=
            obtained.room.follows.mono fun _ e => e.isPaging
          have loads := installed.places.follows (installed.happens.mono fun _ e => e.isPaging)
          obtain ⟨q, g, x, page', writable, holds, hx, bytes⟩ := installed.bytes
          refine ⟨installed.coherent, made.trans loads, obtained.room.cached.trans installed.cached,
            ⟨p, q, g, x, page, page', writable, holds, hx, fun _ => bytes⟩, ?_⟩
          rw [installed.evictions]
          refine obtained.counted.imp (fun same => ⟨same.1, fun s a other => ?_⟩) id
          rw [installed.others s a other, same.2]
        · exact .inr ⟨p, rfl, frame, .absent obtained found there stopped.1 stopped.2⟩
      · exact .inr ⟨p, rfl, frame, .roomless stopped.1 stopped.2.1⟩

theorem claim_ends (h : Coherent v none) :
    (claim space va).Ends v
      (fun _ w => Coherent w none ∧ Follows (MemoryEvent.IsPaging space) v w ∧
        Leads CacheEvent.IsPaging v.cache w.cache ∧ InMemory w space va.floor)
      (fun e w => (∃ r, e = .refused r) ∧ Coherent w none ∧
        Follows (MemoryEvent.IsPaging space) v w ∧ Leads CacheEvent.IsPaging v.cache w.cache) := by
  refine (claim_cases h).mono (fun _ w claimed => ?_) fun e w stopped => ?_
  · exact ⟨claimed.coherent, claimed.follows, claimed.cached, claimed.inMemory⟩
  · rcases stopped with ⟨-, rfl, rfl⟩ | ⟨p, -, -, unclaimed⟩
    · exact ⟨⟨_, rfl⟩, h, .refl _, .refl _⟩
    · exact ⟨unclaimed.isRefusal, unclaimed.coherent, unclaimed.madeRoom⟩

end KernelCore.VirtualMemory
