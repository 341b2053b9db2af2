import KernelCore.Proofs.Paging.Cached
import KernelCore.Proofs.Paging.Steps

/-!
# Making room

A page is put out of its frame, or a new frame is taken. Users see nothing of it, except that a
changed file page is written back.
-/
namespace KernelCore.VirtualMemory

open Transition

variable {v w : VirtualMemory} {o : PageRef} {f : FrameId} {x : Frame} {p p' : Page} {pa : PhysAddr}
  {space s : SpaceId} {va a : VirtAddr}

/-- The files after a page of the stretch `b` was written back if it was changed. -/
inductive Flushed (v : VirtualMemory) (o : PageRef) (b : FileBacking) (pa : PhysAddr)
    (files : FileStore) : Prop where
  | clean (unchanged : v.mmu.isDirty o.space o.va = false) (same : files = v.files)
  | changed (dirty : v.mmu.isDirty o.space o.va = true)
      (sent : b.Sent (v.pool.page pa) b.readBytes v.files files) (within : b.Within v.files.image)

theorem Flushed.perhapsWritten {b : FileBacking} {files : FileStore} (h : Flushed v o b pa files) :
    PerhapsWritten v.files.image files.image := by
  cases h with
  | clean _ same => exact .inl (by rw [same])
  | changed _ sent => exact perhapsWritten_of_sent sent

theorem Flushed.reads {b : FileBacking} {files : FileStore} (h : Flushed v o b pa files) :
    v.files.SameReads files := by
  cases h with
  | clean _ same => exact same ▸ .refl _
  | changed _ sent => exact sent.reads

/-- The page record that is left when a page is put out: an anonymous page has the slot it was
saved in, a file page is as it was. -/
inductive PutOutPage (v : VirtualMemory) (o : PageRef) (pa : PhysAddr) (p : Page)
    (w : VirtualMemory) : Page → Prop where
  | saved {i : SwapSlot} (kind : p.kind = .anonymous none)
      (swap : v.swap.Saved i (v.pool.page pa) w.swap) (files : v.files.Alike w.files) :
      PutOutPage v o pa p w { p with kind := .anonymous (some i), frame := none }
  | dropped {b : FileBacking} (kind : p.kind = .file b) (swap : w.swap = v.swap)
      (files : Flushed v o b pa w.files) : PutOutPage v o pa p w { p with frame := none }

/-- Only the record of the page at `o` changes, besides the swap area and the files. -/
structure PutOut (v : VirtualMemory) (o : PageRef) (pa : PhysAddr) (p p' : Page)
    (w : VirtualMemory) : Prop where
  record : PutOutPage v o pa p w p'
  pages : ∀ s a, pageIn? w.spaces s a =
    if s = o.space ∧ a = o.va then some p' else pageIn? v.spaces s a
  regions : ∀ s a, regionIn? w.spaces s a = regionIn? v.spaces s a
  live : ∀ s, (w.spaces.find? s).isSome = (v.spaces.find? s).isSome
  frames : w.frames = v.frames
  pool : w.pool = v.pool
  targets : v.mmu.SameTargets w.mmu
  elsewhere : ∀ s a, ¬(s = o.space ∧ a = o.va) → w.mmu.isDirty s a = v.mmu.isDirty s a
  next : w.nextSpace = v.nextSpace
  reads : v.files.SameReads w.files
  failures : w.mmu.failures = v.mmu.failures
  evictions : w.counts.evictions = v.counts.evictions

/-- Why a page could not be put out, and what that leaves: there was no slot for an anonymous page,
or the write-back of a changed file page came short. -/
inductive NotPutOut (v : VirtualMemory) (o : PageRef) (pa : PhysAddr) (p : Page) :
    Stop → VirtualMemory → Prop where
  | full (kind : p.kind = .anonymous none) : NotPutOut v o pa p (.refused .outOfSwap) v
  | cameShort {b : FileBacking} {files : FileStore} (kind : p.kind = .file b)
      (dirty : v.mmu.isDirty o.space o.va = true)
      (short : b.CameShort (v.pool.page pa) v.files files) :
      NotPutOut v o pa p (.refused .io) { v with files }

theorem NotPutOut.isRefusal {e : Stop} (h : NotPutOut v o pa p e w) : ∃ r, e = .refused r := by
  cases h <;> exact ⟨_, rfl⟩

/-- Putting a page out does not depend on the frame table. -/
theorem NotPutOut.of_frames {e : Stop} {frames : FrameTable}
    (h : NotPutOut { v with frames } o pa p e w) :
    w.frames = frames ∧ NotPutOut v o pa p e { w with frames := v.frames } := by
  cases h with
  | full kind => exact ⟨rfl, .full kind⟩
  | cameShort kind dirty short => exact ⟨rfl, .cameShort kind dirty short⟩

private theorem putOut_anonymous_ends (regular : v.swap.Regular) (aligned : o.va.isAligned = true)
    (page : pageIn? v.spaces o.space o.va = some p) (kind : p.kind = .anonymous none) (pa : PhysAddr) :
    ((do
      let bytes ← gets fun v : VirtualMemory => v.pool.page pa
      let s ← onSwap (SwapArea.putOut none bytes.toArray)
      setKind o.space o.va (.anonymous (some s))
      count fun c => { c with swapOuts := c.swapOuts + 1 }
      setFrame o.space o.va none) : Paging Unit).Ends v
      (fun _ w => ∃ p', PutOut v o pa p p' w) (fun e w => NotPutOut v o pa p e w) := by
  have floor := VirtAddr.floor_of_isAligned aligned
  simp only [ends_bind, ends_gets, ends_onSwap]
  refine (SwapArea.putOut_ends regular (v.pool.page pa)).mono (fun i swap saved => ?_)
    fun e swap refused => ?_
  · refine ends_setKind _ fun files image reads => ?_
    simp only [ends_count, ends_setFrame]
    refine ⟨_, .saved kind saved image, fun s a => ?_, fun s a => ?_, fun s => ?_, rfl, rfl,
      .refl _, fun _ _ _ => rfl, rfl, reads, rfl, rfl⟩
    · simp only [pageIn?_updatePage, floor]
      by_cases here : s = o.space ∧ a = o.va
      · obtain ⟨rfl, rfl⟩ := here
        simp [page]
      · simp only [if_neg here]
    · rw [regionIn?_updatePage, regionIn?_updatePage]
    · rw [isSome_find_modify, isSome_find_modify]
  · obtain ⟨rfl, rfl⟩ := refused
    exact .full kind

private theorem setFrame_putOut {u : VirtualMemory} {pa : PhysAddr} {b : FileBacking}
    (aligned : o.va.isAligned = true) (page : pageIn? v.spaces o.space o.va = some p)
    (kind : p.kind = .file b) (spaces : u.spaces = v.spaces) (swap : u.swap = v.swap)
    (files : Flushed v o b pa u.files) (frames : u.frames = v.frames)
    (pool : u.pool = v.pool) (targets : v.mmu.SameTargets u.mmu)
    (elsewhere : ∀ s a, ¬(s = o.space ∧ a = o.va) → u.mmu.isDirty s a = v.mmu.isDirty s a)
    (next : u.nextSpace = v.nextSpace) (failures : u.mmu.failures = v.mmu.failures)
    (evictions : u.counts.evictions = v.counts.evictions) {E : Stop → VirtualMemory → Prop} :
    (setFrame o.space o.va none).Ends u (fun _ w => ∃ p', PutOut v o pa p p' w) E := by
  have floor := VirtAddr.floor_of_isAligned aligned
  rw [ends_setFrame]
  refine ⟨_, .dropped kind swap files, fun s a => ?_, fun s a => ?_, fun s => ?_, frames, pool,
    targets, elsewhere, next, files.reads, failures, evictions⟩
  · simp only [pageIn?_updatePage, floor, spaces]
    by_cases here : s = o.space ∧ a = o.va
    · obtain ⟨rfl, rfl⟩ := here
      simp [page]
    · simp only [if_neg here]
  · rw [regionIn?_updatePage, spaces]
  · rw [isSome_find_modify, spaces]

theorem putOut_ends (regular : v.swap.Regular) (aligned : o.va.isAligned = true)
    (page : pageIn? v.spaces o.space o.va = some p) (frame : v.frames.frame? f = some x)
    (touched : p.isUntouched = false) (slot : p.slot = none) :
    (putOut o f).Ends v (fun _ w => ∃ p', PutOut v o x.page p p' w)
      (fun e w => NotPutOut v o x.page p e w) := by
  have lookup : v.page? o.space o.va = some p := by
    rw [page?_eq, VirtAddr.floor_of_isAligned aligned, page]
  unfold putOut
  rw [ends_bind, ends_frame frame, ends_bind, ends_pageAt lookup]
  cases kind : p.kind with
  | untouched target loader => simp [Page.isUntouched, kind] at touched
  | anonymous i =>
    have : i = none := by simpa [Page.slot, kind] using slot
    subst this
    exact putOut_anonymous_ends regular aligned page kind x.page
  | file b =>
    dsimp only
    rw [ends_bind, ends_isDirty, ends_ite]
    refine ⟨fun dirty => ?_, fun clean => ?_⟩
    · unfold writeBack
      simp only [ends_bind, ends_gets, ends_onFiles]
      refine (FileBacking.writeBack_ends b _ _).mono (fun _ files written => ?_)
        fun e files refused => ?_
      · simp only [ends_setDirty, ends_count]
        obtain ⟨sent, within⟩ := written
        have files : Flushed v o b x.page files := .changed dirty sent within
        have elsewhere : ∀ s a, ¬(s = o.space ∧ a = o.va) →
            (v.mmu.setDirty o.space o.va false).isDirty s a = v.mmu.isDirty s a := by
          intro s a other
          exact Mmu.isDirty_congr (by rw [Mmu.mapping?_setDirty, if_neg other])
        apply setFrame_putOut aligned page kind
        exacts [rfl, rfl, files, rfl, rfl, Mmu.sameTargets_setDirty false, elsewhere, rfl, rfl, rfl]
      · obtain ⟨rfl, short⟩ := refused
        exact .cameShort kind dirty short
    · have unchanged : v.mmu.isDirty o.space o.va = false := Bool.not_eq_true _ ▸ clean
      exact setFrame_putOut aligned page kind rfl rfl (.clean unchanged rfl) rfl rfl (.refl _)
        (fun _ _ _ => rfl) rfl rfl rfl

/-! ## The frame of another page -/

theorem PutOutPage.frame (h : PutOutPage v o pa p w p') : p'.frame = none := by
  cases h <;> rfl

theorem PutOutPage.outline (h : PutOutPage v o pa p w p') : p'.outline = p.outline := by
  cases h with
  | saved kind => simp only [Page.outline, kind]
  | dropped kind => rfl

theorem PutOutPage.mapped? (h : PutOutPage v o pa p w p') : p'.mapped? = p.mapped? := by
  cases h with
  | saved kind => simp only [Page.mapped?, kind]
  | dropped kind => simp only [Page.mapped?]

theorem PutOutPage.regular (h : PutOutPage v o pa p w p') (regular : v.swap.Regular) :
    w.swap.Regular := by
  cases h with
  | saved _ saved => exact saved.regular
  | dropped _ swap => exact swap ▸ regular

/-- The slot of a page that was put out is the only one taken for it. -/
theorem PutOutPage.used (h : PutOutPage v o pa p w p') {i : SwapSlot} :
    w.swap.Used i ↔ p'.slot = some i ∨ v.swap.Used i := by
  cases h with
  | saved _ saved =>
    rw [saved.used]
    constructor
    · rintro (rfl | used)
      · exact .inl rfl
      · exact .inr used
    · rintro (slot | used)
      · exact .inl (Option.some.inj slot).symm
      · exact .inr used
  | dropped kind swap =>
    rw [swap]
    simp [Page.slot, kind]

theorem PutOutPage.slot_was_free (h : PutOutPage v o pa p w p') {i : SwapSlot}
    (slot : p'.slot = some i) : ¬v.swap.Used i := by
  cases h with
  | saved _ saved =>
    cases slot
    exact saved.was_free
  | dropped kind _ => simp [Page.slot, kind] at slot

theorem PutOutPage.readPage (h : PutOutPage v o pa p w p') {i : SwapSlot}
    (used : v.swap.Used i) : w.swap.readPage i = v.swap.readPage i := by
  cases h with
  | saved _ saved =>
    rw [saved.contents, if_neg]
    rintro rfl
    exact saved.was_free used
  | dropped _ swap => rw [swap]

/-- The state in which the page at `o` was put out of the frame `f`, and the frame is empty. -/
def emptied (v u : VirtualMemory) (o : PageRef) (f : FrameId) (x : Frame)
    (counts : PagingCounts) : VirtualMemory :=
  { u with
    frames := v.frames.put f (some { x with owner := none })
    mmu := u.mmu.unmap o.space o.va
    pool := u.pool.setPage x.page .zeros
    counts }

theorem emptied_change (h : Coherent v none) (frame : v.frames.frame? f = some x)
    (owner : x.owner = some o) (page : pageIn? v.spaces o.space o.va = some p)
    (holds : p.frame = some f) {u : VirtualMemory} (out : PutOut v o x.page p p' u)
    (counts : PagingCounts) :
    LocalChange v (emptied v u o f x counts) o f (some p') (some { x with owner := none }) where
  pages := out.pages
  frames g := FrameTable.frame?_put frame _
  targets s a := by
    dsimp only [emptied]
    rw [Mmu.mapping?_unmap]
    by_cases here : s = o.space ∧ a = o.va
    · rw [if_pos here, if_pos here]
      simp [out.record.frame]
    · rw [if_neg here, if_neg here, out.targets]
  pool := by
    dsimp only [emptied]
    rw [out.pool]
    exact h.pool.setPage _ _
  taken := by
    dsimp only [emptied]
    rw [out.pool]
    exact h.taken_setPage (y := { x with owner := none }) frame rfl _
  contents q _ other := by
    dsimp only [emptied]
    rw [out.pool]
    exact PagePool.page_setPage_of_ne fun same => other x frame same.symm
  swap := out.record.regular h.swap
  used i := by
    have slotless : ∀ q, pageIn? v.spaces o.space o.va = some q → q.slot ≠ some i := by
      intro q hq
      rw [page] at hq
      cases hq
      rw [(h.settled page holds).2]
      exact nofun
    refine out.record.used.trans ?_
    constructor
    · rintro (slot | used)
      · exact .inl ⟨p', rfl, slot⟩
      · exact .inr ⟨used, slotless⟩
    · rintro (⟨q, hq, slot⟩ | ⟨used, -⟩)
      · cases hq
        exact .inl slot
      · exact .inr used
  saved i used _ := out.record.readPage used
  frame_before y r hy howner := by
    rw [frame] at hy
    cases hy
    exact (Option.some.inj (owner.symm.trans howner)).symm
  page_before q g hq hg := by
    rw [page] at hq
    cases hq
    exact (Option.some.inj (holds.symm.trans hg)).symm
  page_after q g hq hg := by
    cases hq
    rw [out.record.frame] at hg
    cases hg
  frame_after y hy := by
    cases hy
    have unpinned : x.pinned = false := h.unpinned frame
    exact ⟨unpinned, nofun⟩
  place_after y hy := by
    cases hy
    exact .inl ⟨x, frame, rfl⟩
  slot_after q i hq hi := by
    cases hq
    exact out.record.slot_was_free hi
  placed _ _ := h.placed page
  numbered s hs := by
    change s.number < u.nextSpace
    rw [out.next]
    refine h.numbered ?_
    rw [← out.live]
    exact hs

/-- What making room does to the pages: those in memory may be put out of it. -/
structure MadeRoom (v w : VirtualMemory) : Prop where
  follows : Follows MemoryEvent.IsWriteBack v w
  away : ∀ {s a p}, pageIn? v.spaces s a = some p → p.frame = none → pageIn? w.spaces s a = some p
  outline : ∀ s a,
    (pageIn? w.spaces s a).map Page.outline = (pageIn? v.spaces s a).map Page.outline
  cached : Leads CacheEvent.IsPaging v.cache w.cache
  reads : v.files.SameReads w.files
  failures : w.mmu.failures = v.mmu.failures

theorem MadeRoom.of_spaces (spaces : w.spaces = v.spaces)
    (happens : Happens MemoryEvent.IsWriteBack v.flat w.flat)
    (cached : Leads CacheEvent.IsPaging v.cache w.cache) (reads : v.files.SameReads w.files)
    (failures : w.mmu.failures = v.mmu.failures) : MadeRoom v w where
  follows := (SamePlaces.of_spaces spaces).follows happens
  away page _ := by rw [spaces, page]
  outline _ _ := by rw [spaces]
  cached := cached
  reads := reads
  failures := failures

theorem MadeRoom.trans {u : VirtualMemory} (h : MadeRoom u v) (h' : MadeRoom v w) :
    MadeRoom u w where
  follows := h.follows.trans h'.follows
  away page frame := h'.away (h.away page frame) frame
  outline s a := (h'.outline s a).trans (h.outline s a)
  cached := h.cached.trans h'.cached
  reads := h.reads.trans h'.reads
  failures := h'.failures.trans h.failures

/-- In the cache a file page that was put out is in memory no more. -/
theorem emptied_cached (h : Coherent v none) (frame : v.frames.frame? f = some x)
    (owner : x.owner = some o) (page : pageIn? v.spaces o.space o.va = some p)
    (holds : p.frame = some f) {u : VirtualMemory} (out : PutOut v o x.page p p' u)
    (counts : PagingCounts) :
    Leads CacheEvent.IsPaging v.cache (emptied v u o f x counts).cache := by
  have pages := h.cache_change (emptied_change h frame owner page holds out counts)
    fun s a other => (Mmu.isDirty_congr (by
      dsimp only [emptied]
      rw [Mmu.mapping?_unmap, if_neg other])).trans (out.elsewhere s a other)
  have before := cache_page_of_page page
  have left : (emptied v u o f x counts).cachedPage o.space o.va p' =
      p.mapped?.map fun b => ⟨b, none⟩ := by
    unfold cachedPage
    rw [out.record.mapped?, heldPage_of_away out.record.frame]
  have regions : ∀ s a, regionIn? (emptied v u o f x counts).spaces s a = regionIn? v.spaces s a :=
    out.regions
  cases out.record with
  | saved kind swap files =>
    have unmapped : p.mapped? = none := by simp only [Page.mapped?, kind]
    have same : (emptied v u o f x counts).cache = v.cache := by
      refine cache_eq (fun s a => ?_) regions files.image files.short
      rw [pages]
      by_cases here : s = o.space ∧ a = o.va
      · rw [if_pos here, here.1, here.2, Option.bind_some, left, unmapped, before,
          cachedPage_of_unmapped unmapped]
        rfl
      · rw [if_neg here]
    rw [same]
    exact .refl _
  | @dropped b kind swap files =>
    have mapped : p.mapped? = some b := by simp only [Page.mapped?, kind]
    rw [cachedPage_of_mapped? mapped, heldPage_of_frame holds frame] at before
    rw [mapped, Option.map_some] at left
    have after : ∀ s a, (emptied v u o f x counts).cache.page s a =
        if s = o.space ∧ a = o.va then some ⟨b, none⟩ else v.cache.page s a := by
      intro s a
      rw [pages]
      by_cases here : s = o.space ∧ a = o.va
      · rw [if_pos here, if_pos here, here.1, here.2, Option.bind_some, left]
      · rw [if_neg here, if_neg here]
    cases files with
    | clean unchanged same =>
      rw [unchanged] at before
      have out' : (emptied v u o f x counts).cache = v.cache.setPage o.space o.va (some ⟨b, none⟩) := by
        refine cache_eq after regions ?_ fun g => ?_
        · exact congrArg FileStore.image same
        · exact congrArg (FileStore.shortWrites · g) same
      rw [out']
      exact .one (.left before) trivial
    | changed dirty sent within =>
      rw [dirty] at before
      have back := CacheStep.wroteBack before within sent.short
      refine (Leads.one (K := CacheEvent.IsPaging) back trivial).trans ?_
      have out' : (emptied v u o f x counts).cache =
          ((v.cache.send b (v.pool.page x.page) b.readBytes u.files.shortWrites).setPage o.space o.va
            (some ⟨b, some ⟨v.pool.page x.page, false⟩⟩)).setPage o.space o.va (some ⟨b, none⟩) := by
        refine cache_eq (fun s a => ?_) regions sent.image fun _ => rfl
        rw [after]
        dsimp only [PageCache.setPage, PageCache.send]
        by_cases here : s = o.space ∧ a = o.va
        · rw [if_pos here, if_pos here]
        · rw [if_neg here, if_neg here, if_neg here]
      rw [out']
      exact .one (.left (if_pos ⟨rfl, rfl⟩)) trivial

theorem madeRoom_emptied (h : Coherent v none) (frame : v.frames.frame? f = some x)
    (owner : x.owner = some o) (page : pageIn? v.spaces o.space o.va = some p)
    (holds : p.frame = some f) {u : VirtualMemory} (out : PutOut v o x.page p p' u)
    (counts : PagingCounts) : MadeRoom v (emptied v u o f x counts) := by
  have change := emptied_change h frame owner page holds out counts
  have slotless := (h.settled page holds).2
  have mapped : ∀ s a, mappedIn? u.spaces s a = mappedIn? v.spaces s a := by
    intro s a
    unfold mappedIn?
    rw [out.pages]
    by_cases here : s = o.space ∧ a = o.va
    · rw [if_pos here, here.1, here.2, page]
      exact out.record.mapped?
    · rw [if_neg here]
  -- What was in the frame is now in the slot.
  have contents : (emptied v u o f x counts).flatPage p' = v.flatPage p := by
    cases out.record with
    | saved kind saved =>
      unfold flatPage
      simp only [kind, Page.isMaterialised, Page.isResident, anonymousBytes, holds, frame,
        Option.map_some, Option.getD_some, Option.isSome_some, Bool.true_or, Bool.or_true,
        Page.slot, SwapArea.saved, emptied, saved.contents, if_true]
    | dropped kind => simp only [flatPage, kind]
  have pages : (emptied v u o f x counts).flat.page = v.flat.page := by
    funext s a
    rw [h.flatPage_change change]
    by_cases here : s = o.space ∧ a = o.va
    · rw [if_pos here, Option.bind_some, contents, here.1, here.2]
      simp only [flat, page, Option.bind_some]
    · rw [if_neg here]
  have kept : ∀ {s a q}, pageIn? v.spaces s a = some q →
      ∃ r, pageIn? u.spaces s a = some r ∧ q.SameUse r := by
    intro s a q hq
    rw [out.pages]
    by_cases here : s = o.space ∧ a = o.va
    · rw [here.1, here.2, page] at hq
      cases hq
      exact ⟨p', by rw [if_pos here], Page.sameUse_of_outline out.record.outline⟩
    · exact ⟨q, by rw [if_neg here, hq], rfl, rfl⟩
  refine ⟨⟨PerhapsWritten.happens ?_ pages, kept, fun m => (mapped _ _).trans m, out.regions,
    out.live⟩, fun {s a q} hq away => ?_, fun s a => ?_,
    emptied_cached h frame owner page holds out counts, out.reads, out.failures⟩
  · cases out.record with
    | saved _ _ files => exact .inl files.image
    | dropped _ _ files => exact files.perhapsWritten
  · change pageIn? u.spaces s a = some q
    rw [out.pages, if_neg, hq]
    rintro ⟨rfl, rfl⟩
    rw [page] at hq
    cases hq
    rw [holds] at away
    cases away
  · change (pageIn? u.spaces s a).map Page.outline = _
    rw [out.pages]
    split
    · rename_i here
      rw [here.1, here.2, page, Option.map_some, Option.map_some, out.record.outline]
    · rfl

/-- Putting a page out does not depend on the frame table, whose frame is pinned meanwhile. -/
theorem PutOut.unpinned {frames : FrameTable} (out : PutOut { v with frames } o pa p p' w) :
    PutOut v o pa p p' { w with frames := v.frames } where
  record := by
    cases out.record with
    | saved kind swap files => exact .saved kind swap files
    | dropped kind swap files =>
      refine .dropped kind swap ?_
      cases files with
      | clean unchanged same => exact .clean unchanged same
      | changed dirty sent within => exact .changed dirty sent within
  pages := out.pages
  regions := out.regions
  live := out.live
  frames := rfl
  pool := out.pool
  targets := out.targets
  elsewhere := out.elsewhere
  next := out.next
  reads := out.reads
  failures := out.failures
  evictions := out.evictions

/-- A frame was found, which is empty. At most one page left memory for it. -/
structure Obtained (v : VirtualMemory) (f : FrameId) (w : VirtualMemory) : Prop where
  coherent : Coherent w (some f)
  room : MadeRoom v w
  victim : ∃ o : PageRef, ∀ s a, ¬(s = o.space ∧ a = o.va) →
    pageIn? w.spaces s a = pageIn? v.spaces s a
  counted : w.counts.evictions = v.counts.evictions ∧ w.spaces = v.spaces ∨
    w.counts.evictions = v.counts.evictions + 1

/-- Why no frame is to be had, and what the attempt makes of the files: the page that was to leave
memory could not be saved, or there was none. -/
inductive NoFrame (v : VirtualMemory) : Stop → FileStore → Prop where
  | unavailable : NoFrame v (.refused .outOfMemory) v.files
  | full : NoFrame v (.refused .outOfSwap) v.files
  | cameShort {o : PageRef} {p : Page} {f : FrameId} {x : Frame} {b : FileBacking}
      {files : FileStore} (page : pageIn? v.spaces o.space o.va = some p) (kind : p.kind = .file b)
      (holds : p.frame = some f) (frame : v.frames.frame? f = some x)
      (dirty : v.mmu.isDirty o.space o.va = true)
      (short : b.CameShort (v.pool.page x.page) v.files files) : NoFrame v (.refused .io) files

theorem NoFrame.isRefusal {e : Stop} {files : FileStore} (h : NoFrame v e files) :
    ∃ r, e = .refused r := by
  cases h <;> exact ⟨_, rfl⟩

/-- No frame was found, and all pages are where they were. -/
structure Unobtained (v : VirtualMemory) (e : Stop) (w : VirtualMemory) : Prop where
  coherent : Coherent w none
  room : MadeRoom v w
  reason : NoFrame v e w.files
  spaces : w.spaces = v.spaces
  frames : ∀ g, w.frames.frame? g = v.frames.frame? g
  dirty : v.mmu.SameDirty w.mmu
  pool : w.pool = v.pool
  swap : w.swap = v.swap

/-- How far the search for a frame came. -/
def Obtains (t : Paging FrameId) (v : VirtualMemory) : Prop :=
  t.Ends v (fun f w => Obtained v f w) (fun e w => Unobtained v e w)

private theorem notPutOut_unobtained (h : Coherent v none) (frame : v.frames.frame? f = some x)
    (page : pageIn? v.spaces o.space o.va = some p) (holds : p.frame = some f) {e : Stop}
    (stopped : NotPutOut v o x.page p e w) : Unobtained v e w := by
  cases stopped with
  | full kind =>
    exact ⟨h, .of_spaces rfl (.refl _) (.refl _) (.refl _) rfl, .full, rfl, fun _ => rfl, .refl _, rfl,
      rfl⟩
  | @cameShort b files kind dirty short =>
    obtain ⟨n, most, sent, reason⟩ := short
    have mapped : p.mapped? = some b := by simp only [Page.mapped?, kind]
    have before := cache_page_of_page page
    rw [cachedPage_of_mapped? mapped, heldPage_of_frame holds frame, dirty] at before
    have after : VirtualMemory.cache { v with files } =
        v.cache.send b (v.pool.page x.page) n files.shortWrites :=
      cache_eq (fun _ _ => rfl) (fun _ _ => rfl) sent.image fun _ => rfl
    refine ⟨h.of_same rfl (fun _ => rfl) (.refl _) rfl rfl rfl,
      .of_spaces rfl (PerhapsWritten.happens (perhapsWritten_of_sent sent) rfl) ?_ sent.reads rfl,
      .cameShort page kind holds frame dirty ⟨n, most, sent, reason⟩, rfl, fun _ => rfl, .refl _, rfl,
      rfl⟩
    rw [after]
    exact .one (.cameShort before most reason sent.short) trivial

/-- Moving the clock hand and clearing marks does not matter. -/
private structure Scanned (v u : VirtualMemory) : Prop where
  spaces : u.spaces = v.spaces
  frames : ∀ g, u.frames.frame? g = v.frames.frame? g
  targets : v.mmu.SameTargets u.mmu
  dirty : v.mmu.SameDirty u.mmu
  failures : u.mmu.failures = v.mmu.failures
  pool : u.pool = v.pool
  swap : u.swap = v.swap
  files : u.files = v.files
  next : u.nextSpace = v.nextSpace
  evictions : u.counts.evictions = v.counts.evictions

private theorem scanned_selectVictim (v : VirtualMemory) : Scanned v { v with
    frames := (v.frames.selectVictim v.mmu).2.1
    mmu := (v.frames.selectVictim v.mmu).2.2 } where
  spaces := rfl
  frames _ := FrameTable.frame?_selectVictim v.frames v.mmu
  targets := FrameTable.selectVictim_sameTargets v.frames v.mmu
  dirty := FrameTable.selectVictim_sameDirty v.frames v.mmu
  failures := FrameTable.failures_sweep _ v.frames v.mmu
  pool := rfl
  swap := rfl
  files := rfl
  next := rfl
  evictions := rfl

section

variable {u : VirtualMemory}

private theorem Scanned.coherent (c : Scanned v u) (h : Coherent v none) : Coherent u none :=
  h.of_same c.spaces c.frames c.targets c.pool c.swap c.next

private theorem Scanned.room (c : Scanned v u) : MadeRoom v u := by
  have flat : u.flat = v.flat :=
    flat_of_same (fun _ _ => by rw [c.spaces]) c.frames c.pool c.swap (by rw [c.files])
  have cached : u.cache = v.cache :=
    cache_of_same (fun _ _ => by rw [c.spaces]) (fun _ _ => by rw [c.spaces]) c.frames c.dirty c.pool
      (c.files ▸ .refl _)
  exact .of_spaces c.spaces (flat ▸ .refl _) (cached ▸ .refl _) (c.files ▸ .refl _) c.failures

private theorem Scanned.noFrame (c : Scanned v u) {e : Stop} {files : FileStore}
    (h : NoFrame u e files) : NoFrame v e files := by
  cases h with
  | unavailable => exact c.files ▸ .unavailable
  | full => exact c.files ▸ .full
  | cameShort page kind holds frame dirty short =>
    rw [c.spaces] at page
    rw [c.frames] at frame
    rw [c.dirty] at dirty
    rw [c.pool, c.files] at short
    exact .cameShort page kind holds frame dirty short

private theorem Scanned.unobtained (c : Scanned v u) {e : Stop} (h : Unobtained u e w) :
    Unobtained v e w where
  coherent := h.coherent
  room := c.room.trans h.room
  reason := c.noFrame h.reason
  spaces := h.spaces.trans c.spaces
  frames g := (h.frames g).trans (c.frames g)
  dirty := c.dirty.trans h.dirty
  pool := h.pool.trans c.pool
  swap := h.swap.trans c.swap

end

section

variable {u : VirtualMemory} {Q : FrameId → VirtualMemory → Prop} {E : Stop → VirtualMemory → Prop}

/-- The victim's frame is pinned while its page is put out of it, and emptied afterwards. -/
private theorem ends_evict_of_victim (victim : (v.frames.selectVictim v.mmu).1 = some f)
    (scanned : u = { v with
      frames := (v.frames.selectVictim v.mmu).2.1
      mmu := (v.frames.selectVictim v.mmu).2.2 })
    (frame : u.frames.frame? f = some x) (unpinned : x.pinned = false) (owner : x.owner = some o)
    (puts : (putOut o f).Ends { u with frames := u.frames.put f (some { x with pinned := true }) }
      (fun _ w => w.frames = u.frames.put f (some { x with pinned := true }) ∧
        Q f (emptied u { w with frames := u.frames } o f x
          { w.counts with evictions := w.counts.evictions + 1 }))
      (fun e w => (∃ r, e = .refused r) ∧
        w.frames = u.frames.put f (some { x with pinned := true }) ∧
          E e { w with frames := u.frames })) : evict.Ends v Q E := by
  unfold evict
  rw [ends_bind, ends_modifyGet]
  dsimp only
  rw [victim, ← scanned]
  dsimp only
  rw [ends_bind, ends_frame frame, owner]
  dsimp only
  rw [ends_bind]
  refine whilePinned_ends frame unpinned (puts.imp fun _ w out => ⟨out.1, ?_⟩)
  have frame' : ({ w with
      frames := u.frames
      mmu := w.mmu.unmap o.space o.va } : VirtualMemory).frames.frame? f = some x := frame
  simp only [ends_bind, ends_unmapPage, ends_updateFrame frame', ends_setPage, ends_count, ends_emit,
    ends_pure]
  exact out.2

end

theorem evict_ends (h : Coherent v none) : Obtains evict v := by
  unfold Obtains
  have scanned := scanned_selectVictim v
  generalize chosen : ({ v with
    frames := (v.frames.selectVictim v.mmu).2.1
    mmu := (v.frames.selectVictim v.mmu).2.2 } : VirtualMemory) = u at scanned
  have coherent := scanned.coherent h
  cases victim : (v.frames.selectVictim v.mmu).1 with
  | none =>
    unfold evict
    rw [ends_bind, ends_modifyGet]
    dsimp only
    rw [victim, chosen]
    simp only [ends_bind, ends_emit, ends_refuse]
    exact scanned.unobtained ⟨coherent, .of_spaces rfl (.refl _) (.refl _) (.refl _) rfl,
      .unavailable, rfl, fun _ => rfl, .refl _, rfl, rfl⟩
  | some f =>
    obtain ⟨x, o, found, unpinned, owner⟩ := FrameTable.victim_isCandidate victim
    have frame : u.frames.frame? f = some x := by rw [scanned.frames, found]
    obtain ⟨p, page, holds⟩ := coherent.owned frame owner
    obtain ⟨touched, slotless⟩ := coherent.settled page holds
    have pinned : (u.frames.put f (some { x with pinned := true })).frame? f =
        some { x with pinned := true } := by
      rw [FrameTable.frame?_put frame, if_pos rfl]
    refine ends_evict_of_victim victim chosen.symm frame unpinned owner ((putOut_ends
      (v := { u with frames := u.frames.put f (some { x with pinned := true }) })
      coherent.swap (coherent.aligned page) page pinned touched slotless).mono
      (fun _ w out => ?_) fun e w stopped => ?_)
    · obtain ⟨p', out⟩ := out
      refine ⟨out.frames, ?_⟩
      have put := out.unpinned
      have change := emptied_change coherent frame owner page holds put
      refine ⟨coherent.change (change _) (by simp) (fun _ _ _ => rfl) fun g hg => ?_,
        scanned.room.trans (madeRoom_emptied coherent frame owner page holds put _),
        ⟨o, fun s a other => ?_⟩, .inr ?_⟩
      · cases hg
        exact ⟨rfl, _, rfl, rfl⟩
      · rw [← scanned.spaces]
        exact (put.pages s a).trans (if_neg other)
      · exact congrArg (· + 1) (put.evictions.trans scanned.evictions)
    · obtain ⟨frames', notPutOut⟩ := stopped.of_frames
      exact ⟨stopped.isRefusal, frames', scanned.unobtained
        (notPutOut_unobtained coherent frame page holds notPutOut)⟩

/-! ## A new frame -/

private theorem acquired_change {pool : PagePool}
    (handedOut : v.pool.HandedOut pa pool) :
    FrameChange v { v with pool, frames := (v.frames.insert pa).2 } (v.frames.insert pa).1
      (some ⟨pa, none, false⟩) where
  spaces := rfl
  swap := rfl
  next := rfl
  targets := .refl _
  frames := (v.frames.frame?_insert pa).2
  pool := handedOut.regular
  taken q := by
    have absent := (v.frames.frame?_insert pa).1
    change pool.Taken q ↔ _
    rw [handedOut.taken]
    constructor
    · rintro (rfl | taken)
      · exact .inl ⟨_, rfl, rfl⟩
      · refine .inr ⟨taken, fun x hx => ?_⟩
        rw [absent] at hx
        cases hx
    · rintro (⟨x, hx, rfl⟩ | ⟨taken, -⟩)
      · cases hx
        exact .inl rfl
      · exact .inr taken
  contents q taken _ := by
    refine handedOut.page_other q ?_
    rintro rfl
    exact handedOut.was_not_taken taken
  before x hx := by
    rw [(v.frames.frame?_insert pa).1] at hx
    cases hx
  after x hx := by
    cases hx
    exact ⟨rfl, rfl⟩
  place_after x hx := by
    cases hx
    exact handedOut.was_not_taken

theorem obtainFrame_ends (h : Coherent v none) : Obtains obtainFrame v := by
  unfold Obtains obtainFrame
  rw [ends_bind, ends_modifyGet]
  dsimp only
  rcases PagePool.acquire_cases h.pool with ⟨pa, some, handedOut⟩ | ⟨none, same⟩
  · rw [some]
    dsimp only
    rw [ends_modifyGet]
    dsimp only
    have change := acquired_change handedOut
    refine ⟨h.change (change.toLocal h) nofun (fun _ _ _ => rfl) fun g hg => ?_,
      .of_spaces rfl ?_ ?_ (.refl _) rfl, ⟨⟨⟨0⟩, ⟨0⟩⟩, fun _ _ _ => rfl⟩, .inl ⟨rfl, rfl⟩⟩
    · cases hg
      exact ⟨rfl, _, rfl, rfl⟩
    · rw [change.flat h rfl]
      exact .refl _
    · rw [change.cache h (.refl _) (.refl _)]
      exact .refl _
  · rw [none, same]
    exact evict_ends h

/-! ## Pages that cannot go back -/

section

variable {b : FileBacking}

private theorem putOut_ends_of_hampered (aligned : o.va.isAligned = true)
    (page : pageIn? v.spaces o.space o.va = some p) (kind : p.kind = .file b)
    (frame : v.frames.frame? f = some x) (dirty : v.mmu.isDirty o.space o.va = true)
    (within : b.Within v.files.image) (nonempty : 0 < b.readBytes)
    (left : 0 < v.files.shortWrites (v.files.fileOf b.file)) :
    (putOut o f).Ends v (fun _ _ => False) (fun e w => e = .refused .io ∧ w.frames = v.frames ∧
      w.spaces = v.spaces ∧ b.Sent (v.pool.page x.page) (b.readBytes - 1) v.files w.files) := by
  have lookup : v.page? o.space o.va = some p := by
    rw [page?_eq, VirtAddr.floor_of_isAligned aligned, page]
  unfold putOut writeBack
  rw [ends_bind, ends_frame frame, ends_bind, ends_pageAt lookup, kind]
  dsimp only
  rw [ends_bind, ends_isDirty, if_pos dirty]
  simp only [ends_bind, ends_gets, ends_onFiles]
  refine (b.writeBack_ends_of_hampered _ _ within nonempty left).mono (fun _ _ h => h.elim)
    fun e files stopped => ?_
  exact ⟨stopped.1, trivial, trivial, stopped.2⟩

/-- When memory is full and the page that is to leave it was changed, but writes to its file come
short, no frame is found, and all of the page goes back but the last byte. -/
theorem obtainFrame_ends_of_hampered (h : Coherent v none) (full : v.pool.acquire.1 = none)
    (victim : (v.frames.selectVictim v.mmu).1 = some f) (frame : v.frames.frame? f = some x)
    (owner : x.owner = some o) (page : pageIn? v.spaces o.space o.va = some p)
    (kind : p.kind = .file b) (dirty : v.mmu.isDirty o.space o.va = true)
    (within : b.Within v.files.image) (nonempty : 0 < b.readBytes)
    (left : 0 < v.files.shortWrites (v.files.fileOf b.file)) :
    obtainFrame.Ends v (fun _ _ => False) (fun e w => e = .refused .io ∧
      w.spaces = v.spaces ∧ b.Sent (v.pool.page x.page) (b.readBytes - 1) v.files w.files) := by
  have same : v.pool.acquire.2 = v.pool := by
    rcases PagePool.acquire_cases h.pool with ⟨pa, acquired, -⟩ | ⟨-, same⟩
    · rw [full] at acquired
      cases acquired
    · exact same
  unfold obtainFrame
  rw [ends_bind, ends_modifyGet]
  dsimp only
  rw [full, same]
  dsimp only
  have scanned := scanned_selectVictim v
  generalize chosen : ({ v with
    frames := (v.frames.selectVictim v.mmu).2.1
    mmu := (v.frames.selectVictim v.mmu).2.2 } : VirtualMemory) = u at scanned
  have coherent := scanned.coherent h
  rw [← scanned.spaces] at page
  rw [← scanned.frames] at frame
  rw [← scanned.dirty] at dirty
  rw [← scanned.files] at within left
  have pinned : (u.frames.put f (some { x with pinned := true })).frame? f =
      some { x with pinned := true } := by
    rw [FrameTable.frame?_put frame, if_pos rfl]
  refine ends_evict_of_victim victim chosen.symm frame (coherent.unpinned frame) owner
    ((putOut_ends_of_hampered
      (v := { u with frames := u.frames.put f (some { x with pinned := true }) })
      (coherent.aligned page) page kind pinned dirty within nonempty left).mono
      (fun _ _ h => h.elim) fun e w stopped => ?_)
  obtain ⟨rfl, frames, spaces, sent⟩ := stopped
  rw [← scanned.pool, ← scanned.files]
  exact ⟨⟨_, rfl⟩, frames, rfl, spaces.trans scanned.spaces, sent⟩

end

end KernelCore.VirtualMemory
