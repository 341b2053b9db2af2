import KernelCore.Paging.Duplicate
import KernelCore.Proofs.Paging.Discarding

/-!
# Copies of spaces

A copy that succeeds has every page users see in the original, with the same contents, and nothing
else. One that fails may have some of them, and some without contents.
-/
namespace KernelCore

/-- A page was copied from one space to another, or memory ran short meanwhile. -/
def MemoryEvent.IsCopy (parent child : SpaceId) : MemoryEvent → Prop
  | .wroteBack .. => True
  | .copied p c _ => p = parent ∧ c = child
  | _ => False

/-- What an attempt to copy a space may cause: a page may be entered without its contents. -/
def MemoryEvent.IsCopyAttempt (parent child : SpaceId) : MemoryEvent → Prop
  | .wroteBack .. => True
  | .copied p c _ => p = parent ∧ c = child
  | .entered s _ loader => s = child ∧ loader = .zeroFill
  | _ => False

/-- What copying a space does to the cache: pages and regions are copied to the child. -/
def CacheEvent.IsCopy (parent child : SpaceId) : CacheEvent → Prop
  | .copied p c _ => p = parent ∧ c = child
  | .mapped s _ _ => s = child
  | e => e.IsPaging

/-- What an attempt to copy a space may do to the cache. -/
def CacheEvent.IsCopyAttempt (parent child : SpaceId) : CacheEvent → Prop
  | .entered s _ => s = child
  | e => e.IsCopy parent child

theorem CacheEvent.IsPaging.isCopy {parent child : SpaceId} {e : CacheEvent} (h : e.IsPaging) :
    e.IsCopy parent child := by
  cases e <;> first | exact h | exact h.elim

theorem CacheEvent.IsCopy.isCopyAttempt {parent child : SpaceId} {e : CacheEvent}
    (h : e.IsCopy parent child) : e.IsCopyAttempt parent child := by
  cases e <;> first | exact h | exact h.elim

theorem MemoryEvent.IsWriteBack.isCopy {parent child : SpaceId} {e : MemoryEvent}
    (h : e.IsWriteBack) : e.IsCopy parent child := by
  cases e <;> first | exact trivial | exact h.elim

theorem MemoryEvent.IsCopy.isCopyAttempt {parent child : SpaceId} {e : MemoryEvent}
    (h : e.IsCopy parent child) : e.IsCopyAttempt parent child := by
  cases e <;> first | exact h | exact h.elim

/-- Copying changes no page that exists already. -/
theorem Happens.page_of_copies {parent child s : SpaceId} {a : VirtAddr} {m m' : FlatMemory}
    {p : FlatPage} (h : Happens (MemoryEvent.IsCopy parent child) m m')
    (page : m.page s a = some p) : m'.page s a = some p := by
  obtain ⟨es, kinds, history⟩ := h
  induction history with
  | start => exact page
  | @step past m' e _ possible ih =>
    have before := ih fun e he => kinds e (by simp [he])
    have kind := kinds e (by simp)
    cases e with
    | wroteBack f w => exact before
    | copied q c b =>
      simp only [MemoryEvent.apply, FlatMemory.setPage]
      rw [if_neg, before]
      rintro ⟨rfl, rfl⟩
      rw [possible.1] at before
      cases before
    | _ => exact kind.elim

namespace VirtualMemory

open Transition

variable {v w : VirtualMemory} {parent child s : SpaceId} {va a : VirtAddr} {p q : Page}
  {f : FrameId} {x : Frame} {kind : PageKind}

/-- Where there was no page, the child has what users see of the parent's page. -/
theorem happens_copied {m m' : FlatMemory} (absent : m.page child va = none)
    (pages : ∀ s a, m'.page s a =
      if s = child ∧ a = va then m.page parent va else m.page s a) (files : m'.files = m.files) :
    Happens (MemoryEvent.IsCopy parent child) m m' := by
  obtain ⟨page', files'⟩ := m'
  cases files
  cases shown : m.page parent va with
  | none =>
    have same : page' = m.page := by
      funext s a
      have here := pages s a
      rw [shown] at here
      refine here.trans ?_
      split
      · rename_i at_child
        rw [at_child.1, at_child.2, absent]
      · rfl
    rw [same]
    exact .refl _
  | some p =>
    have possible : (MemoryEvent.copied parent child va).Possible m :=
      ⟨absent, by rw [shown, Option.isSome_some]⟩
    have after : (⟨page', m.files⟩ : FlatMemory) = (MemoryEvent.copied parent child va).apply m := by
      have same : page' = ((MemoryEvent.copied parent child va).apply m).page := by
        funext s a
        exact pages s a
      rw [same]
      rfl
    rw [after]
    exact .one possible ⟨rfl, rfl⟩

/-! ## Contents -/

/-- What was found of a page that is copied: its bytes, and whether they were changed. -/
structure Found (v : VirtualMemory) (space : SpaceId) (va : VirtAddr) (q : Page) (bytes : PageBytes)
    (dirty : Bool) : Prop where
  shown : ∀ b, v.flatPage q = some (.loaded b) → bytes = b
  file : ∀ b, q.kind = .file b → v.heldPage space va q = some ⟨bytes, dirty⟩ ∨
    v.heldPage space va q = none ∧ bytes = b.contents v.files.image ∧ dirty = false

/-- Of a page in memory the bytes in its frame are found. -/
private theorem Found.of_frame (holds : q.frame = some f) (frame : v.frames.frame? f = some x) :
    Found v s va q (v.pool.page x.page) (v.mmu.isDirty s va) where
  shown b loaded := by
    have contents : v.anonymousBytes q = v.pool.page x.page := by
      unfold anonymousBytes
      rw [holds]
      simp only [frame, Option.map_some, Option.getD_some]
    rw [← contents]
    unfold flatPage at loaded
    split at loaded
    · cases loaded
    · cases loaded
    · simp only [Page.isMaterialised, Page.isResident, holds, Option.isSome_some, Bool.true_or,
        if_true, Option.some.injEq, FlatPage.loaded.injEq] at loaded
      exact loaded
    · cases loaded
  file _ _ := .inl (heldPage_of_frame holds frame)

/-- Of a page that was put out into the swap area the bytes in its slot are found. -/
private theorem Found.of_slot {i : SwapSlot} (away : q.frame = none)
    (kind : q.kind = .anonymous (some i)) : Found v s va q (v.swap.readPage i) false where
  shown b loaded := by
    simp only [flatPage, kind, Page.isMaterialised, Page.slot, Option.isSome_some,
      Bool.or_true, if_true, anonymousBytes, away, SwapArea.saved_some, Option.some.injEq,
      FlatPage.loaded.injEq] at loaded
    exact loaded
  file b file := by
    rw [kind] at file
    cases file

/-- Of a file page that is away the bytes of its file are found. -/
private theorem Found.of_file {b : FileBacking} (away : q.frame = none) (kind : q.kind = .file b) :
    Found v s va q (b.contents v.files.image) false where
  shown b' loaded := by simp [flatPage, kind] at loaded
  file b' same := by
    rw [kind] at same
    cases same
    exact .inr ⟨heldPage_of_away away, rfl, rfl⟩

/-- Of a page that has no contents yet anything may be found. -/
private theorem Found.of_blank {bytes : PageBytes} (blank : ∀ b, v.flatPage q ≠ some (.loaded b))
    (other : ∀ b, q.kind ≠ .file b) : Found v s va q bytes false :=
  ⟨fun b shown => absurd shown (blank b), fun b kind => absurd kind (other b)⟩

/-- The bytes that are copied are those users see, if they see the page, and those a file page
holds or its file has. -/
theorem copyContents_ends (page : v.page? parent va = some q)
    (frames : ∀ g, q.frame = some g → ∃ y, v.frames.frame? g = some y)
    (regular : v.swap.Regular) (used : ∀ i, q.slot = some i → v.swap.Used i) (dst : PhysAddr) :
    (copyContents parent va dst).Ends v
      (fun dirty w => w.frames = v.frames ∧ OnlyFilled v dst w ∧
        ∃ bytes, w.pool = v.pool.setPage dst bytes ∧ Found v parent va q bytes dirty)
      (fun e w => e.IsRefusal ∧ w.frames = v.frames ∧ OnlyFilled v dst w) := by
  have filled : ∀ bytes, OnlyFilled v dst { v with pool := v.pool.setPage dst bytes } :=
    fun bytes => ⟨⟨bytes, rfl⟩, fun _ _ => rfl, rfl, rfl, .refl _, rfl⟩
  have nothing : OnlyFilled v dst v :=
    ⟨⟨v.pool.page dst, PagePool.setPage_page.symm⟩, fun _ _ => rfl, rfl, rfl, .refl _, rfl⟩
  unfold copyContents
  rw [ends_bind, ends_pageAt page]
  cases holds : q.frame with
  | some g =>
    obtain ⟨y, frame⟩ := frames g holds
    dsimp only
    rw [ends_bind, ends_frame frame, ends_bind, ends_modify, ends_isDirty]
    exact ⟨rfl, filled _, _, rfl, .of_frame holds frame⟩
  | none =>
    cases kind : q.kind with
    | untouched target loader =>
      refine ⟨rfl, nothing, _, PagePool.setPage_page.symm, .of_blank (fun b shown => ?_) (by simp [kind])⟩
      unfold flatPage at shown
      rw [kind] at shown
      cases target <;> cases shown
    | anonymous slot =>
      cases slot with
      | none =>
        refine ⟨rfl, nothing, _, PagePool.setPage_page.symm, .of_blank (fun b shown => ?_) (by simp [kind])⟩
        simp [flatPage, kind, Page.isMaterialised, Page.isResident, holds, Page.slot] at shown
      | some i =>
        have slot : q.slot = some i := by simp only [Page.slot, kind]
        dsimp only
        rw [ends_bind, ends_onSwap]
        refine (SwapArea.read_ends regular (used i slot).index_lt).imp fun bytes swap read => ?_
        obtain ⟨rfl, rfl⟩ := read
        rw [ends_bind, ends_setPage, ends_pure]
        exact ⟨rfl, filled _, _, rfl, .of_slot holds kind⟩
    | file b =>
      dsimp only
      rw [ends_bind, ends_filling]
      refine (FileBacking.fills_bringIn b _).mono (fun _ t read => ?_) fun e t refused => ?_
      · obtain ⟨alike, contents⟩ := read
        rw [ends_pure, contents]
        exact ⟨rfl, ⟨⟨_, rfl⟩, fun _ _ => rfl, rfl, rfl, alike, rfl⟩, _, rfl, .of_file holds kind⟩
      · obtain ⟨rfl, -, alike⟩ := refused
        exact ⟨⟨_, rfl⟩, rfl, ⟨_, rfl⟩, fun _ _ => rfl, rfl, rfl, alike, rfl⟩

/-! ## One page -/

/-- A frame that holds no page can be given an owner without anybody seeing it. -/
private theorem Found.of_owner {bytes : PageBytes} {dirty : Bool} (h : Coherent v (some f))
    (frame : v.frames.frame? f = some x) (unowned : x.owner = none)
    (page : pageIn? v.spaces s a = some q) (o : PageRef)
    (found : Found { v with frames := v.frames.put f (some { x with owner := some o }) } s a q
      bytes dirty) : Found v s a q bytes dirty := by
  have same : ∀ g, q.frame = some g →
      (v.frames.put f (some { x with owner := some o })).frame? g = v.frames.frame? g := by
    intro g holds
    have other : g ≠ f := by
      rintro rfl
      obtain ⟨y, there, owner⟩ := h.resident page holds
      rw [frame] at there
      cases there
      rw [unowned] at owner
      cases owner
    rw [FrameTable.frame?_put frame, if_neg other]
  have shown : VirtualMemory.flatPage
      { v with frames := v.frames.put f (some { x with owner := some o }) } q = v.flatPage q := by
    apply flatPage_of_same
    unfold anonymousBytes
    cases holds : q.frame with
    | none => rfl
    | some g => simp only [same g holds]
  have held : VirtualMemory.heldPage
      { v with frames := v.frames.put f (some { x with owner := some o }) } s a q =
      v.heldPage s a q := by
    unfold heldPage
    cases holds : q.frame with
    | none => rfl
    | some g => simp only [Option.bind_some, same g holds]
  refine ⟨fun b loaded => found.shown b (shown.trans loaded), fun b kind => ?_⟩
  rw [← held]
  exact found.file b kind

/-- A page whose frame was only filled and which was mapped since is placed once its record names the
frame. -/
private theorem OnlyFilled.placed {o : PageRef} {u : VirtualMemory} {bytes : PageBytes}
    (filled : OnlyFilled v x.page u) (regular : v.swap.Regular) (floor : o.va.floor = o.va)
    (page : pageIn? v.spaces o.space o.va = some p) (touched : p.isUntouched = false)
    (slotless : p.slot = none) (frames : u.frames = v.frames.put f (some { x with owner := some o }))
    (pool : u.pool = v.pool.setPage x.page bytes) (mmu : Mmu)
    (targets : ∀ s a, (mmu.mapping? s a).map MmuEntry.target = if s = o.space ∧ a = o.va then
      some (x.page, p.writable) else (v.mmu.mapping? s a).map MmuEntry.target)
    (elsewhere : ∀ s a, ¬(s = o.space ∧ a = o.va) → mmu.isDirty s a = v.mmu.isDirty s a) :
    Placed v o f x p { p with frame := some f } bytes { u with
      mmu
      spaces := u.spaces.modify o.space fun a =>
        a.updatePage o.va fun p => { p with frame := some f } } where
  holds := rfl
  settled := ⟨touched, slotless⟩
  swap := filled.swap ▸ regular
  used i := by simp [filled.swap, slotless]
  saved i := by
    dsimp only
    rw [filled.swap]
  pages s a := by
    dsimp only
    rw [pageIn?_updatePage, floor, filled.spaces]
    by_cases here : s = o.space ∧ a = o.va
    · rw [if_pos here, if_pos here, here.1, here.2, page, Option.map_some]
    · rw [if_neg here, if_neg here]
  pool
  targets
  elsewhere
  regions s a := by
    dsimp only
    rw [regionIn?_updatePage, filled.spaces]
  live s := by
    dsimp only
    rw [isSome_find_modify, filled.spaces]
  frames
  files := filled.files
  next := filled.next

/-- A clean entry is marked if what it shows was changed. -/
private theorem ends_markIf {rest : Paging Unit} {Q : Unit → VirtualMemory → Prop}
    {E : Stop → VirtualMemory → Prop} {e : MmuEntry} (entry : v.mmu.mapping? s a = some e)
    (clean : e.dirty = false) (dirty : Bool)
    (marked : ∀ mmu : Mmu, Mmu.SameTargets v.mmu mmu → mmu.isDirty s a = dirty →
      (∀ s' a', ¬(s' = s ∧ a' = a) → mmu.isDirty s' a' = v.mmu.isDirty s' a') →
      rest.Ends { v with mmu } Q E) :
    (if dirty then do setDirty s a true; rest else rest : Paging Unit).Ends v Q E := by
  cases dirty with
  | true =>
    rw [if_pos rfl, ends_bind, ends_setDirty]
    refine marked _ (Mmu.sameTargets_setDirty true) ?_ fun s' a' other => ?_
    · unfold Mmu.isDirty
      rw [Mmu.mapping?_setDirty, if_pos ⟨rfl, rfl⟩, entry]
      rfl
    · exact Mmu.isDirty_congr (by rw [Mmu.mapping?_setDirty, if_neg other])
  | false =>
    refine marked v.mmu (.refl _) ?_ fun _ _ _ => rfl
    unfold Mmu.isDirty
    rw [entry, Option.map_some, Option.getD_some, clean]

/-- Once the copy is mapped, it is marked as the original was and recorded in its frame. -/
private theorem recordCopy_ends {u : VirtualMemory} {mmu : Mmu} {bytes : PageBytes} {dirty : Bool}
    {E : Stop → VirtualMemory → Prop} (h : Coherent v (some f))
    (page : pageIn? v.spaces child va = some p) (slotless : p.slot = none)
    (touched : p.isUntouched = false) (filled : OnlyFilled v x.page u)
    (frames : u.frames = v.frames.put f (some { x with owner := some ⟨child, va⟩ }))
    (pool : u.pool = v.pool.setPage x.page bytes) (found : Found v parent va q bytes dirty)
    (mapping : ∀ s a, mmu.mapping? s a = if s = child ∧ a = va then
      some ⟨x.page, p.writable, false, false⟩ else u.mmu.mapping? s a) :
    ((do
      if dirty then setDirty child va true else pure ()
      setFrame child va (some f)) : Paging Unit).Ends { u with mmu }
      (fun _ w => Placed v ⟨child, va⟩ f x p { p with frame := some f } bytes w ∧
        Found v parent va q bytes (w.mmu.isDirty child va)) E := by
  have entries : ∀ s a, ¬(s = child ∧ a = va) → mmu.mapping? s a = v.mmu.mapping? s a := by
    intro s a other
    rw [mapping, if_neg other, filled.mapping]
  have targets : ∀ s a, (mmu.mapping? s a).map MmuEntry.target =
      if s = child ∧ a = va then some (x.page, p.writable)
      else (v.mmu.mapping? s a).map MmuEntry.target := by
    intro s a
    by_cases here : s = child ∧ a = va
    · rw [mapping, if_pos here, if_pos here]
      rfl
    · rw [entries s a here, if_neg here]
  have mapped : mmu.mapping? child va = some ⟨x.page, p.writable, false, false⟩ := by
    rw [mapping, if_pos ⟨rfl, rfl⟩]
  refine ends_markIf mapped rfl dirty fun marked alike recorded others => ?_
  rw [ends_setFrame]
  have placed := filled.placed (o := ⟨child, va⟩) h.swap (VirtAddr.floor_of_isAligned (h.aligned page))
    page touched slotless frames pool marked (fun s a => (alike s a).trans (targets s a))
    fun s a other => (others s a other).trans (Mmu.isDirty_congr (entries s a other))
  refine ⟨placed, ?_⟩
  dsimp only
  rw [recorded]
  exact found

/-- A copy that could not be made gives its frame back. -/
private theorem giveUpCopy_ends {u : VirtualMemory} {e : MemoryError} {Q : Unit → VirtualMemory → Prop}
    (h : Coherent v (some f)) (frame : v.frames.frame? f = some x) (unowned : x.owner = none)
    (filled : OnlyFilled v x.page u)
    (frames : u.frames = v.frames.put f (some { x with owner := some ⟨child, va⟩ })) :
    ((do
      freeFrame f
      refuse e) : Paging Unit).Ends u Q (fun e w => e.IsRefusal ∧ GaveUp v w) := by
  rw [ends_bind]
  exact (freeFrame_ends h frame unowned filled frames).mono (fun _ _ gaveUp => ⟨⟨e, rfl⟩, gaveUp⟩)
    fun _ _ h => h

/-- The copy is placed in its frame with the bytes of the original, or the frame is freed. -/
theorem placeCopy_ends (h : Coherent v (some f)) (original : pageIn? v.spaces parent va = some q)
    (page : pageIn? v.spaces child va = some p) (slotless : p.slot = none)
    (touched : p.isUntouched = false) :
    ((do
      updateFrame f fun x => { x with owner := some ⟨child, va⟩ }
      let x ← VirtualMemory.frame f
      let r ← attempt (do
        let dirty ← copyContents parent va x.page
        mapPage child va x.page p.writable
        pure dirty)
      match r with
      | .error e =>
        freeFrame f
        refuse e
      | .ok dirty =>
        if dirty then setDirty child va true else pure ()
        setFrame child va (some f)) : Paging Unit).Ends v
      (fun _ w => ∃ x bytes, v.frames.frame? f = some x ∧ x.owner = none ∧
        Placed v ⟨child, va⟩ f x p { p with frame := some f } bytes w ∧
        Found v parent va q bytes (w.mmu.isDirty child va))
      (fun e w => e.IsRefusal ∧ GaveUp v w) := by
  obtain ⟨x, frame, unowned⟩ := h.spare_unowned rfl
  have owned : (v.frames.put f (some { x with owner := some ⟨child, va⟩ })).frame? f =
      some { x with owner := some ⟨child, va⟩ } := by
    rw [FrameTable.frame?_put frame, if_pos rfl]
  have lookup : v.page? parent va = some q := by
    rw [page?_eq, VirtAddr.floor_of_isAligned (h.aligned page), original]
  have frames : ∀ g, q.frame = some g →
      ∃ y, (v.frames.put f (some { x with owner := some ⟨child, va⟩ })).frame? g = some y := by
    intro g holds
    obtain ⟨y, there, -⟩ := h.resident original holds
    rw [FrameTable.frame?_put frame]
    by_cases same : g = f
    · exact ⟨_, if_pos same⟩
    · exact ⟨y, by rw [if_neg same, there]⟩
  rw [ends_bind, ends_updateFrame frame, ends_bind, ends_frame owned, ends_bind]
  refine Ends.attempt ?_
  rw [ends_bind]
  refine (copyContents_ends (v := { v with
      frames := v.frames.put f (some { x with owner := some ⟨child, va⟩ }) })
    lookup frames h.swap (fun i slot => (h.used i).mpr ⟨parent, va, q, original, slot⟩) x.page).mono
      (fun dirty u copied => ?_) fun e u stopped => ?_
  · obtain ⟨same, filled, bytes, pool, copy⟩ := copied
    have found := Found.of_owner h frame unowned original ⟨child, va⟩ copy
    rw [ends_bind]
    refine ends_mapPage x.page p.writable (fun e mmu _ kept => ?_) fun mmu _ mapping => ?_
    · exact giveUpCopy_ends h frame unowned (filled.of_frames.remapped kept) same
    · rw [ends_pure]
      exact (recordCopy_ends h page slotless touched filled.of_frames same pool found mapping).imp
        fun _ _ done => ⟨x, bytes, frame, unowned, done⟩
  · obtain ⟨⟨e, rfl⟩, same, filled⟩ := stopped
    exact giveUpCopy_ends h frame unowned filled.of_frames same

/-- The kind of a copy that is made at once: an anonymous page with its contents, or a page of the
same stretch of its file. -/
inductive CopiedAs (p : Page) : PageKind → Prop where
  | anonymous {slot : Option SwapSlot} (kind : p.kind = .anonymous slot)
    (materialised : p.isMaterialised = true) : CopiedAs p (.anonymous none)
  | file {b : FileBacking} (kind : p.kind = .file b) : CopiedAs p (.file b)

/-- The copy of a page is used like it and shows the same stretch of a file, and it is untouched
with the same loader if the page is. -/
structure CopyOf (p q : Page) : Prop where
  use : p.SameUse q
  mapped : q.mapped? = p.mapped?
  untouched : p.isUntouched = true → q.outline = p.outline

theorem CopyOf.of_outlines {p' q' : Page} (h : CopyOf p q) (before : p.outline = p'.outline)
    (after : q'.outline = q.outline) : CopyOf p' q' where
  use := ((Page.sameUse_of_outline before).trans h.use).trans (Page.sameUse_of_outline after)
  mapped := by rw [Page.mapped?_of_outline after, h.mapped, Page.mapped?_of_outline before]
  untouched fresh := by
    have same : ∀ r : Page, r.outline.isUntouched = r.isUntouched := by
      intro r
      unfold Page.outline Page.isUntouched
      cases r.kind <;> rfl
    rw [after, h.untouched (by rw [← same p, before, same p', fresh]), before]

theorem CopiedAs.settled (h : CopiedAs p kind) (writable : Bool) (frame : Option FrameId) :
    (Page.mk writable frame kind).isUntouched = false ∧
      (Page.mk writable frame kind).slot = none := by
  cases h <;> exact ⟨rfl, rfl⟩

theorem CopiedAs.copyOf (h : CopiedAs p kind) (frame : Option FrameId) :
    CopyOf p ⟨p.writable, frame, kind⟩ := by
  cases h with
  | anonymous kind =>
    exact ⟨⟨by simp only [Page.type, kind], rfl⟩, by simp only [Page.mapped?, kind],
      fun fresh => by simp [Page.isUntouched, kind] at fresh⟩
  | file kind =>
    exact ⟨⟨by simp only [Page.type, kind], rfl⟩, by simp only [Page.mapped?, kind],
      fun fresh => by simp [Page.isUntouched, kind] at fresh⟩

/-- The page of the parent was copied to the child, where there was none. -/
structure PageCopied (v : VirtualMemory) (parent child : SpaceId) (va : VirtAddr)
    (w : VirtualMemory) : Prop where
  coherent : Coherent w none
  follows : Follows (MemoryEvent.IsCopy parent child) v w
  cached : Leads (CacheEvent.IsCopy parent child) v.cache w.cache
  absent : pageIn? v.spaces child va = none
  shown : w.flat.page child va = v.flat.page parent va
  copy : ∃ p q, pageIn? v.spaces parent va = some p ∧ pageIn? w.spaces child va = some q ∧
    CopyOf p q
  others : ∀ s a, ¬(s = child ∧ a = va) →
    (pageIn? w.spaces s a).map Page.outline = (pageIn? v.spaces s a).map Page.outline

/-- What an attempt to copy leaves that stops. -/
structure CopyStopped (v : VirtualMemory) (parent child : SpaceId) (w : VirtualMemory) : Prop where
  coherent : Coherent w none
  follows : Follows (MemoryEvent.IsCopyAttempt parent child) v w
  cached : Leads (CacheEvent.IsCopyAttempt parent child) v.cache w.cache
  others : ∀ s a, s ≠ child →
    (pageIn? w.spaces s a).map Page.outline = (pageIn? v.spaces s a).map Page.outline

theorem CopyStopped.refl (h : Coherent v none) : CopyStopped v parent child v :=
  ⟨h, .refl _, .refl _, fun _ _ _ => rfl⟩

/-- A page that was entered for a copy has no contents yet. -/
theorem CopiedAs.entered (once : CopiedAs p kind) {writable : Bool}
    (entered : Entered v child va ⟨writable, none, kind⟩ w) (h : Coherent v none) :
    CopyStopped v parent child w := by
  have slotless := (once.settled writable none).2
  have others : ∀ s a, s ≠ child →
      (pageIn? w.spaces s a).map Page.outline = (pageIn? v.spaces s a).map Page.outline := by
    intro s a other
    rw [entered.pages, if_neg fun here => other here.1]
  refine ⟨entered.coherent rfl slotless h, ?_, entered.leads rfl fun _ => rfl, others⟩
  cases once with
  | anonymous =>
    have shown : w.flatPage ⟨writable, none, .anonymous none⟩ = some (.untouched .zeroFill) := rfl
    refine (entered.follows_shown rfl slotless h shown).mono fun e he => ?_
    subst he
    exact ⟨rfl, rfl⟩
  | file => exact entered.follows_hidden rfl slotless h rfl

/-- What a copy in memory shows of a file is that the page was copied, although it was entered
before room was made for it. -/
private theorem leads_copied {c₀ c₁ c₂ : PageCache} {b : FileBacking} {original : CachedPage}
    {held : HeldPage} (absent : c₀.page child va = none)
    (entered : c₁ = c₀.setPage child va (some ⟨b, none⟩))
    (room : Leads CacheEvent.IsPaging c₁ c₂) (page : c₂.page parent va = some original)
    (other : parent ≠ child) (same : original.backing = b)
    (copy : original.held = some held ∨
      original.held = none ∧ held = ⟨b.contents c₂.files, false⟩) :
    Leads (CacheEvent.IsCopy parent child) c₀ (c₂.setPage child va (some ⟨b, some held⟩)) := by
  subst same
  have room' := room.without (s := child) (a := va) fun p there => by
    rw [entered, PageCache.setPage_page] at there
    cases there
    rfl
  rw [entered, PageCache.setPage_setPage, PageCache.setPage_self absent] at room'
  have there : ¬(parent = child ∧ va = va) := fun h => other h.1
  have origin : some held = original.held ∨
      original.held = none ∧ some held = some ⟨original.backing.contents c₂.files, false⟩ := by
    rcases copy with holds | ⟨away, rfl⟩
    · exact .inl holds.symm
    · exact .inr ⟨away, rfl⟩
  have copied : CacheStep (c₂.setPage child va none) (.copied parent child va) _ :=
    .copied (PageCache.setPage_page _ _ _ _)
      ((PageCache.setPage_page_of_ne c₂ none there).trans page) origin
  rw [PageCache.setPage_setPage] at copied
  exact (room'.mono fun _ e => e.isCopy).trans (.one copied ⟨rfl, rfl⟩)

/-- How a copy is made at once: the page was entered where there was none, room was made for it,
which left `q` of the original, and what was found of `q` was placed in the frame obtained. -/
private structure CopyMade (v u w z : VirtualMemory) (parent child : SpaceId) (va : VirtAddr)
    (p q : Page) (kind : PageKind) (f : FrameId) (x : Frame) (bytes : PageBytes) : Prop where
  before : pageIn? v.spaces parent va = some p
  once : CopiedAs p kind
  entered : Entered v child va ⟨p.writable, none, kind⟩ u
  spare : Coherent w (some f)
  room : MadeRoom u w
  page : pageIn? w.spaces child va = some ⟨p.writable, none, kind⟩
  original : pageIn? w.spaces parent va = some q
  frame : w.frames.frame? f = some x
  unowned : x.owner = none
  placed : Placed w ⟨child, va⟩ f x ⟨p.writable, none, kind⟩ ⟨p.writable, some f, kind⟩ bytes z
  found : Found w parent va q bytes (z.mmu.isDirty child va)

section

variable {u z : VirtualMemory} {bytes : PageBytes}

private theorem CopyMade.other (c : CopyMade v u w z parent child va p q kind f x bytes) :
    parent ≠ child := by
  rintro rfl
  have before := c.before
  rw [c.entered.absent] at before
  cases before

private theorem CopyMade.outline (c : CopyMade v u w z parent child va p q kind f x bytes) :
    q.outline = p.outline := by
  have same := c.room.outline parent va
  rw [c.original, c.entered.pages, if_neg fun here => c.other here.1, c.before] at same
  exact Option.some.inj same

/-- Nobody sees that the page was entered and room was made, the page itself apart. -/
private theorem CopyMade.flat_page (c : CopyMade v u w z parent child va p q kind f x bytes)
    (h : Coherent v none) (other : ¬(s = child ∧ a = va)) : w.flat.page s a = v.flat.page s a := by
  rw [page_of_writeBacks c.room.follows.happens,
    c.entered.flatPage rfl (c.once.settled p.writable none).2 h, if_neg other]

/-- Users see in the copy what they saw in the original. -/
private theorem CopyMade.flatPage (c : CopyMade v u w z parent child va p q kind f x bytes)
    (h : Coherent v none) :
    z.flatPage ⟨p.writable, some f, kind⟩ = v.flat.page parent va := by
  have here : v.flat.page parent va = v.flatPage p := by
    simp only [flat, c.before, Option.bind_some]
  have still : w.flatPage q = v.flat.page parent va := by
    rw [← c.flat_page h fun here => c.other here.1]
    simp only [flat, c.original, Option.bind_some]
  have there := c.placed.anonymousBytes c.spare c.frame
  cases c.once with
  | anonymous kind materialised =>
    have shown : v.flat.page parent va = some (.loaded (v.anonymousBytes p)) := by
      rw [here]
      simp only [VirtualMemory.flatPage, kind, materialised, if_true]
    rw [shown, ← c.found.shown _ (still.trans shown), ← there]
    rfl
  | file kind =>
    rw [here]
    simp only [VirtualMemory.flatPage, kind]

private theorem CopyMade.flat (c : CopyMade v u w z parent child va p q kind f x bytes)
    (h : Coherent v none) (s : SpaceId) (a : VirtAddr) : z.flat.page s a =
      if s = child ∧ a = va then v.flat.page parent va else v.flat.page s a := by
  rw [c.spare.flatPage_change (c.placed.change c.spare c.frame c.unowned c.page rfl),
    Option.bind_some, c.flatPage h]
  by_cases here : s = child ∧ a = va
  · rw [if_pos here, if_pos here]
  · rw [if_neg here, if_neg here, c.flat_page h here]

private theorem CopyMade.happens (c : CopyMade v u w z parent child va p q kind f x bytes)
    (h : Coherent v none) : Happens (MemoryEvent.IsCopy parent child) v.flat z.flat := by
  have absent : v.flat.page child va = none := by
    simp only [VirtualMemory.flat, c.entered.absent, Option.bind_none]
  have room := c.room.follows.happens.with_pages v.flat.page
  have files : u.flat.files = v.flat.files := c.entered.files.image
  rw [files] at room
  have copied : Happens (MemoryEvent.IsCopy parent child) ⟨v.flat.page, w.flat.files⟩ z.flat :=
    happens_copied absent (c.flat h) c.placed.files.image
  exact (room.mono fun _ e => e.isCopy).trans copied

private theorem CopyMade.follows (c : CopyMade v u w z parent child va p q kind f x bytes)
    (h : Coherent v none) : Follows (MemoryEvent.IsCopy parent child) v z := by
  have places := c.placed.samePlaces c.page ⟨rfl, rfl⟩ rfl
  have entered : CopyStopped v parent child u := c.once.entered c.entered h
  have entering := entered.follows
  refine ⟨c.happens h, fun {s a r} hr => ?_, fun m => ?_, fun s a => ?_, fun s => ?_⟩
  · obtain ⟨r₁, hr₁, use₁⟩ := entering.kept hr
    obtain ⟨r₂, hr₂, use₂⟩ := c.room.follows.kept hr₁
    obtain ⟨r₃, hr₃, use₃⟩ := places.kept hr₂
    exact ⟨r₃, hr₃, (use₁.trans use₂).trans use₃⟩
  · rw [places.mapped, c.room.follows.mapped (entering.mapped m)]
  · rw [c.placed.regions, c.room.follows.regions, entering.regions]
  · rw [c.placed.live, c.room.follows.live, entering.live]

/-- Only the copy of a file page shows in the cache. -/
private theorem CopyMade.leads (c : CopyMade v u w z parent child va p q kind f x bytes) :
    Leads (CacheEvent.IsCopy parent child) v.cache z.cache := by
  have before := cache_page_of_absent c.entered.absent
  have cacheU := c.entered.cache rfl
  have cacheZ := c.placed.cache c.spare c.frame c.unowned c.page rfl
  rw [(c.once.copyOf _).mapped] at cacheU cacheZ
  have mapped := Page.mapped?_of_outline c.outline
  cases c.once with
  | anonymous kind =>
    have unmapped : p.mapped? = none := by simp only [Page.mapped?, kind]
    rw [unmapped, Option.map_none] at cacheU cacheZ
    rw [PageCache.setPage_self before] at cacheU
    have hidden := cache_page_of_page c.page
    rw [cachedPage_of_unmapped rfl] at hidden
    rw [PageCache.setPage_self hidden] at cacheZ
    rw [cacheZ, ← cacheU]
    exact c.room.cached.mono fun _ e => e.isCopy
  | @file b kind =>
    have kindQ : q.kind = .file b := by
      have same := congrArg Page.kind c.outline
      simp only [Page.outline, kind] at same
      cases hq : q.kind with
      | file => rw [hq] at same; exact same
      | untouched => rw [hq] at same; cases same
      | anonymous => rw [hq] at same; cases same
    have stretch : p.mapped? = some b := by simp only [Page.mapped?, kind]
    rw [stretch, Option.map_some] at cacheU cacheZ
    have there := cache_page_of_page c.original
    rw [cachedPage_of_mapped? (mapped.trans stretch)] at there
    rw [cacheZ]
    refine leads_copied before cacheU c.room.cached there c.other rfl ?_
    rcases c.found.file b kindQ with holds | ⟨away, contents, clean⟩
    · exact .inl holds
    · exact .inr ⟨away, by rw [contents, clean]; rfl⟩

private theorem CopyMade.pageCopied (c : CopyMade v u w z parent child va p q kind f x bytes)
    (h : Coherent v none) : PageCopied v parent child va z where
  coherent := c.placed.coherent c.spare c.frame c.unowned c.page rfl
  follows := c.follows h
  cached := c.leads
  absent := c.entered.absent
  shown := by rw [c.flat h, if_pos ⟨rfl, rfl⟩]
  copy := ⟨p, ⟨p.writable, some f, kind⟩, c.before, by rw [c.placed.pages, if_pos ⟨rfl, rfl⟩],
    c.once.copyOf (some f)⟩
  others s a elsewhere := by
    rw [c.placed.pages, if_neg elsewhere, c.room.outline, c.entered.pages, if_neg elsewhere]

end

theorem copyAtOnce_ends (h : Coherent v none) (original : pageIn? v.spaces parent va = some p)
    (once : CopiedAs p kind) :
    (copyAtOnce parent child va ⟨p.writable, none, kind⟩).Ends v
      (fun _ w => PageCopied v parent child va w)
      (fun e w => e.IsRefusal ∧ CopyStopped v parent child w) := by
  obtain ⟨touched, slotless⟩ := once.settled p.writable none
  have weaker : ∀ e, MemoryEvent.IsWriteBack e → e.IsCopyAttempt parent child :=
    fun _ e => e.isCopy.isCopyAttempt
  have weaker' : ∀ e, CacheEvent.IsPaging e → e.IsCopyAttempt parent child :=
    fun _ e => e.isCopy.isCopyAttempt
  unfold copyAtOnce
  rw [ends_bind]
  refine (enterPage_ends (h.placed original) _).mono (fun _ u entered => ?_) fun e u stopped => ?_
  · have entering : CopyStopped v parent child u := once.entered entered h
    have here : pageIn? u.spaces child va = some ⟨p.writable, none, kind⟩ := by
      rw [entered.pages, if_pos ⟨rfl, rfl⟩]
    rw [ends_bind]
    refine (obtainFrame_ends entering.coherent).mono (fun f w obtained => ?_) fun e w stopped => ?_
    · obtain ⟨spare, room, -, -⟩ := obtained
      have page := room.away here rfl
      obtain ⟨p₁, hp₁, -⟩ := entering.follows.kept original
      obtain ⟨q, hq, -⟩ := room.follows.kept hp₁
      refine (placeCopy_ends spare hq page slotless touched).mono (fun _ z copied => ?_)
        fun e z stopped => ?_
      · obtain ⟨x, bytes, frame, unowned, placed, found⟩ := copied
        have made : CopyMade v u w z parent child va p q kind f x bytes :=
          ⟨original, once, entered, spare, room, page, hq, frame, unowned, placed, found⟩
        exact made.pageCopied h
      · obtain ⟨refusal, gaveUp⟩ := stopped
        have places := SamePlaces.of_spaces gaveUp.spaces
        refine ⟨refusal, gaveUp.coherent, entering.follows.trans
          ((room.follows.mono weaker).trans (places.silent gaveUp.flat)), ?_, fun s a other => ?_⟩
        · rw [gaveUp.cache]
          exact entering.cached.trans (room.cached.mono weaker')
        · rw [gaveUp.spaces, room.outline, entering.others s a other]
    · obtain ⟨coherent', room, reason⟩ := stopped
      refine ⟨reason.isRefusal, coherent', entering.follows.trans (room.follows.mono weaker),
        entering.cached.trans (room.cached.mono weaker'), fun s a other => ?_⟩
      rw [room.outline, entering.others s a other]
  · obtain ⟨refusal, rfl, -⟩ := stopped
    exact ⟨refusal, .refl h⟩

/-- A copy that is left untouched shows like the original. -/
theorem PageCopied.of_entered (h : Coherent v none) (original : pageIn? v.spaces parent va = some p)
    (entered : Entered v child va q w) (away : q.frame = none) (slotless : q.slot = none)
    (shown : w.flatPage q = v.flat.page parent va)
    (unheld : p.mapped?.isSome = true → p.frame = none) (copy : CopyOf p q) :
    PageCopied v parent child va w where
  coherent := entered.coherent away slotless h
  follows := by
    have absent : v.flat.page child va = none := by
      simp only [flat, entered.absent, Option.bind_none]
    have pages := entered.flatPage away slotless h
    rw [shown] at pages
    exact entered.follows (happens_copied absent pages entered.files.image)
  cached := by
    have before := cache_page_of_absent entered.absent
    have after := entered.cache away
    rw [copy.mapped] at after
    cases stretch : p.mapped? with
    | none =>
      rw [stretch, Option.map_none, PageCache.setPage_self before] at after
      rw [after]
      exact .refl _
    | some b =>
      have there := cache_page_of_page original
      rw [cachedPage_of_mapped? stretch,
        heldPage_of_away (unheld (by rw [stretch, Option.isSome_some]))] at there
      rw [stretch, Option.map_some] at after
      rw [after]
      exact .one (.copied before there (.inl rfl)) ⟨rfl, rfl⟩
  absent := entered.absent
  shown := by rw [entered.flatPage away slotless h, if_pos ⟨rfl, rfl⟩, shown]
  copy := ⟨p, q, original, by rw [entered.pages, if_pos ⟨rfl, rfl⟩], copy⟩
  others s a elsewhere := by rw [entered.pages, if_neg elsewhere]

/-- How a page is copied by the plan. A copy that is untouched shows what users see of the page. -/
theorem copyPlan_cases (h : Coherent v none) (page : pageIn? v.spaces parent va = some p) :
    (∃ target loader, copyPlan p = .untouched target loader ∧
      (∀ w : VirtualMemory, w.flatPage (.fresh p.writable target loader) = v.flat.page parent va) ∧
      (p.mapped?.isSome = true → p.frame = none) ∧ CopyOf p (.fresh p.writable target loader)) ∨
    ∃ kind, copyPlan p = .atOnce kind ∧ CopiedAs p kind := by
  have shown : v.flat.page parent va = v.flatPage p := by
    simp only [flat, page, Option.bind_some]
  rw [shown]
  unfold copyPlan
  cases kind : p.kind with
  | untouched target loader =>
    refine .inl ⟨target, loader, rfl, fun w => ?_, fun _ => ?_, ⟨?_, rfl⟩, ?_, fun _ => ?_⟩
    · cases target <;> simp only [flatPage, kind, Page.fresh]
    · cases holds : p.frame with
      | none => rfl
      | some f =>
        have touched := (h.settled page holds).1
        simp [Page.isUntouched, kind] at touched
    · simp only [Page.type, kind, Page.fresh]
    · simp only [Page.mapped?, kind, Page.fresh]
    · simp only [Page.outline, kind, Page.fresh]
  | anonymous slot =>
    dsimp only
    have held : p.isMaterialised = (p.isResident || slot.isSome) := by
      simp only [Page.isMaterialised, Page.slot, kind]
    have unmapped : p.mapped? = none := by simp only [Page.mapped?, kind]
    rw [← held]
    cases materialised : p.isMaterialised with
    | false =>
      refine .inl ⟨.anonymous, .zeroFill, rfl, fun w => ?_, fun stretch => ?_, ⟨?_, rfl⟩, ?_,
        fun fresh => ?_⟩
      · simp [flatPage, kind, Page.fresh, materialised]
      · rw [unmapped] at stretch
        cases stretch
      · simp only [Page.type, kind, Page.fresh]
      · rw [unmapped]
        rfl
      · simp [Page.isUntouched, kind] at fresh
    | true => exact .inr ⟨_, rfl, .anonymous kind materialised⟩
  | file b =>
    have stretch : p.mapped? = some b := by simp only [Page.mapped?, kind]
    dsimp only
    cases resident : p.isResident with
    | true => exact .inr ⟨_, rfl, .file kind⟩
    | false =>
      refine .inl ⟨.file, .segment b, rfl, fun w => ?_, fun _ => ?_, ⟨?_, rfl⟩, ?_, fun fresh => ?_⟩
      · simp only [flatPage, kind, Page.fresh]
      · exact Option.not_isSome_iff_eq_none.mp (by rw [← Page.isResident, resident]; exact Bool.false_ne_true)
      · simp only [Page.type, kind, Page.fresh]
      · rw [stretch]
        rfl
      · simp [Page.isUntouched, kind] at fresh

theorem duplicatePage_ends (h : Coherent v none) (page : pageIn? v.spaces parent va = some p) :
    (duplicatePage parent child va).Ends v (fun _ w => PageCopied v parent child va w)
      (fun e w => e.IsRefusal ∧ CopyStopped v parent child w) := by
  have lookup : v.page? parent va = some p := by
    rw [page?_eq, VirtAddr.floor_of_isAligned (h.aligned page), page]
  unfold duplicatePage
  rw [ends_bind, ends_get, lookup]
  dsimp only
  rcases copyPlan_cases h page with ⟨target, loader, plan, shown, unheld, copy⟩ |
    ⟨kind, plan, once⟩
  · rw [plan]
    refine (allocateLazy_ends h p.writable target loader).mono (fun _ w entered => ?_)
      fun e w stopped => ?_
    · exact .of_entered h page entered.2 rfl rfl (shown w) unheld copy
    · obtain ⟨refusal, rfl⟩ := stopped
      exact ⟨refusal, .refl h⟩
  · rw [plan]
    exact copyAtOnce_ends h page once

/-! ## Whole spaces -/

/-- Every page of the parent but those at `rest` was copied, each to where there was none. -/
structure CopiedBut (v : VirtualMemory) (parent child : SpaceId) (rest : List VirtAddr)
    (w : VirtualMemory) : Prop where
  coherent : Coherent w none
  follows : Follows (MemoryEvent.IsCopy parent child) v w
  cached : Leads (CacheEvent.IsCopy parent child) v.cache w.cache
  absent : ∀ a p, pageIn? v.spaces parent a = some p → a ∉ rest → pageIn? v.spaces child a = none
  shown : ∀ a p, v.flat.page parent a = some p → a ∉ rest → w.flat.page child a = some p
  copies : ∀ a p, pageIn? v.spaces parent a = some p → a ∉ rest →
    ∃ q, pageIn? w.spaces child a = some q ∧ CopyOf p q
  /-- Other pages were at most put out. -/
  others : ∀ s a, (s = child → pageIn? v.spaces parent a = none) →
    (pageIn? w.spaces s a).map Page.outline = (pageIn? v.spaces s a).map Page.outline

/-- At first all pages of the parent are left to be copied. -/
private theorem CopiedBut.start {rest : List VirtAddr} (h : Coherent v none)
    (all : ∀ a p, pageIn? v.spaces parent a = some p → a ∈ rest) :
    CopiedBut v parent child rest v := by
  refine ⟨h, .refl v, .refl _, fun a p page none => ?_, fun a p page none => ?_,
    fun a p page none => ?_, fun _ _ _ => rfl⟩
  · exact absurd (all a p page) none
  · obtain ⟨q, there, -⟩ := Option.bind_eq_some_iff.mp page
    exact absurd (all a q there) none
  · exact absurd (all a p page) none

/-- Where a region of the parent starts, the child had no page, and so no region either. -/
private theorem CopiedBut.regionless {u : VirtualMemory} {r : Region} (regions : RegionsBacked v)
    (copied : CopiedBut v parent child [] u) (region : regionIn? v.spaces parent a = some r) :
    regionIn? v.spaces child a = none := by
  cases before : regionIn? v.spaces child a with
  | none => rfl
  | some r' =>
    obtain ⟨_, backed⟩ := regions.backed region
    obtain ⟨_, backed'⟩ := regions.backed before
    obtain ⟨_, stretch, -⟩ := backed 0 (regions.nonempty region)
    obtain ⟨_, stretch', -⟩ := backed' 0 (regions.nonempty before)
    obtain ⟨p, page, -⟩ := Option.bind_eq_some_iff.mp stretch
    obtain ⟨p', page', -⟩ := Option.bind_eq_some_iff.mp stretch'
    rw [copied.absent _ p page List.not_mem_nil] at page'
    cases page'

theorem CopiedBut.step {u : VirtualMemory} {rest : List VirtAddr}
    (h : CopiedBut v parent child (va :: rest) u) (copied : PageCopied u parent child va w) :
    CopiedBut v parent child rest w := by
  obtain ⟨p₁, q₁, page₁, copy₁, copyOf⟩ := copied.copy
  have other : parent ≠ child := by
    rintro rfl
    rw [copied.absent] at page₁
    cases page₁
  have outline : ∀ a, (pageIn? u.spaces parent a).map Page.outline =
      (pageIn? v.spaces parent a).map Page.outline := fun a =>
    h.others parent a fun same => absurd same other
  refine ⟨copied.coherent, h.follows.trans copied.follows, h.cached.trans copied.cached,
    fun a p page later => ?_, fun a p page later => ?_, fun a p page later => ?_,
    fun s a elsewhere => ?_⟩
  · by_cases here : a = va
    · cases before : pageIn? v.spaces child a with
      | none => rfl
      | some q =>
        obtain ⟨r, there, -⟩ := h.follows.kept before
        rw [here, copied.absent] at there
        cases there
    · exact h.absent a p page (List.not_mem_cons_of_ne_of_not_mem here later)
  · by_cases here : a = va
    · have still := h.follows.happens.page_of_copies page
      rw [here] at still ⊢
      rw [copied.shown, still]
    · have before := h.shown a p page (List.not_mem_cons_of_ne_of_not_mem here later)
      exact copied.follows.happens.page_of_copies before
  · by_cases here : a = va
    · subst here
      have same := outline a
      rw [page₁, page] at same
      exact ⟨q₁, copy₁, copyOf.of_outlines (Option.some.inj same) rfl⟩
    · obtain ⟨q, there, copy⟩ := h.copies a p page (List.not_mem_cons_of_ne_of_not_mem here later)
      have same := copied.others child a fun same => here same.2
      rw [there, Option.map_some] at same
      obtain ⟨q', there', outlines⟩ := Option.map_eq_some_iff.mp same
      exact ⟨q', there', copy.of_outlines rfl outlines⟩
  · rw [copied.others s a, h.others s a elsewhere]
    rintro ⟨rfl, rfl⟩
    have same := outline a
    rw [page₁, elsewhere rfl] at same
    cases same

/-- Entering some regions where none start. -/
theorem enterRegions_ends {E : Stop → VirtualMemory → Prop} {space : SpaceId} (parent : SpaceId)
    (live : (v.spaces.find? space).isSome = true) {rs : List (VirtAddr × Region)}
    (apart : (rs.map Prod.fst).Nodup)
    (absent : ∀ x ∈ rs, regionIn? v.spaces space x.1 = none) :
    (forAll (fun x => enterRegion space x.1 x.2) rs).Ends v
      (fun _ w => OnlyRegions v space w ∧
        (∀ a r, regionIn? w.spaces space a = some r ↔
          (a, r) ∈ rs ∨ regionIn? v.spaces space a = some r) ∧
        Leads (CacheEvent.IsCopy parent space) v.cache w.cache) E := by
  induction rs generalizing v with
  | nil => exact ⟨.refl v space, fun _ _ => ⟨.inr, (·.resolve_left List.not_mem_nil)⟩, .refl _⟩
  | cons x rest ih =>
    rw [List.map_cons, List.nodup_cons] at apart
    have free := absent x List.mem_cons_self
    rw [forAll_cons, ends_bind]
    refine (enterRegion_ends live x.1 x.2).mono (fun _ u entered => ?_) fun _ _ h => h
    obtain ⟨first, regions⟩ := entered
    have mapped : Leads (CacheEvent.IsCopy parent space) v.cache u.cache := by
      rw [first.cache regions]
      exact .one (.mapped free) rfl
    refine (ih (by rw [first.live, live]) apart.2 fun y mem => ?_).mono (fun _ w others => ?_)
      fun _ _ h => h
    · rw [regions, if_neg, absent y (List.mem_cons_of_mem x mem)]
      rintro ⟨-, same⟩
      exact apart.1 (same ▸ List.mem_map_of_mem mem)
    · obtain ⟨later, all, cached⟩ := others
      refine ⟨first.trans later, fun a r => ?_, mapped.trans cached⟩
      rw [all, regions, List.mem_cons]
      by_cases here : a = x.1
      · subst here
        rw [if_pos ⟨rfl, rfl⟩, free]
        simp [Prod.ext_iff, or_comm, eq_comm]
      · rw [if_neg fun h => here h.2]
        have other : (a, r) ≠ x := fun same => here (congrArg Prod.fst same)
        simp [other]

/-- The copy of a space: it is coherent, users see there what they see in the original, and the
pages and regions are those of the original, besides what the child had before. -/
structure SpaceCopied (v : VirtualMemory) (parent child : SpaceId) (w : VirtualMemory) : Prop where
  inOrder : InOrder (MemoryEvent.IsCopy parent child) (CacheEvent.IsCopy parent child) v w
  shown : ∀ a p, v.flat.page parent a = some p → w.flat.page child a = some p
  copies : ∀ a p, pageIn? v.spaces parent a = some p →
    ∃ q, pageIn? w.spaces child a = some q ∧ CopyOf p q
  others : ∀ s a, (s = child → pageIn? v.spaces parent a = none) →
    (pageIn? w.spaces s a).map Page.outline = (pageIn? v.spaces s a).map Page.outline
  regions : ∀ a r, regionIn? w.spaces child a = some r ↔
    regionIn? v.spaces parent a = some r ∨ regionIn? v.spaces child a = some r
  otherRegions : ∀ s a, s ≠ child → regionIn? w.spaces s a = regionIn? v.spaces s a
  live : ∀ s, (w.spaces.find? s).isSome = (v.spaces.find? s).isSome

/-- What an attempt to copy a space leaves that stops: the child may have some of the pages, and
pages elsewhere were at most put out. -/
structure SpaceCopyStopped (v : VirtualMemory) (parent child : SpaceId) (w : VirtualMemory) :
    Prop where
  inOrder : InOrder (MemoryEvent.IsCopyAttempt parent child)
    (CacheEvent.IsCopyAttempt parent child) v w
  others : ∀ s a, s ≠ child →
    (pageIn? w.spaces s a).map Page.outline = (pageIn? v.spaces s a).map Page.outline
  regions : ∀ s a, regionIn? w.spaces s a = regionIn? v.spaces s a
  live : ∀ s, (w.spaces.find? s).isSome = (v.spaces.find? s).isSome

/-- The regions of the parent fit into the child, since no page of theirs was there before. -/
private theorem regionsBacked_of_copied {u : VirtualMemory} (regions : RegionsBacked v)
    (copied : CopiedBut v parent child [] u) (only : OnlyRegions u child w)
    (all : ∀ a r, regionIn? w.spaces child a = some r →
      regionIn? v.spaces parent a = some r ∨ regionIn? v.spaces child a = some r) :
    RegionsBacked w := by
  have kept : ∀ {s a b}, mappedIn? v.spaces s a = some b → mappedIn? w.spaces s a = some b := by
    intro s a b stretch
    rw [only.mappedIn?]
    exact copied.follows.mapped stretch
  have from_parent : ∀ {a b}, mappedIn? v.spaces parent a = some b →
      mappedIn? w.spaces child a = some b := by
    intro a b stretch
    obtain ⟨p, page, mapped⟩ := Option.bind_eq_some_iff.mp stretch
    obtain ⟨q, there, copy⟩ := copied.copies a p page List.not_mem_nil
    unfold mappedIn?
    rw [only.pages, there, Option.bind_some, copy.mapped, mapped]
  -- A page that shows a file in the parent is one that the child did not have.
  have apart : ∀ {a r a' r' i j}, regionIn? v.spaces parent a = some r →
      regionIn? v.spaces child a' = some r' → i < r.pageCount → j < r'.pageCount →
      a.toNat + i * pageSize ≠ a'.toNat + j * pageSize := by
    intro a r a' r' i j region region' hi hj same
    obtain ⟨_, pages⟩ := regions.backed region
    obtain ⟨_, pages'⟩ := regions.backed region'
    obtain ⟨b, stretch, -⟩ := pages i hi
    obtain ⟨b', stretch', -⟩ := pages' j hj
    obtain ⟨p, page, -⟩ := Option.bind_eq_some_iff.mp stretch
    obtain ⟨p', page', -⟩ := Option.bind_eq_some_iff.mp stretch'
    rw [← same, copied.absent _ p page List.not_mem_nil] at page'
    cases page'
  -- Every region was one before, of the same space or of the parent.
  have origin : ∀ {s a r}, regionIn? w.spaces s a = some r →
      regionIn? v.spaces s a = some r ∨ s = child ∧ regionIn? v.spaces parent a = some r := by
    intro s a r region
    by_cases here : s = child
    · subst here
      exact (all a r region).symm.imp_right fun h => ⟨rfl, h⟩
    · rw [only.regions s a here, copied.follows.regions] at region
      exact .inl region
  constructor
  · intro s a r region
    rcases origin region with before | ⟨-, before⟩
    · exact regions.nonempty before
    · exact regions.nonempty before
  · intro s a r region
    rcases origin region with before | ⟨rfl, before⟩
    · obtain ⟨offset, pages⟩ := regions.backed before
      refine ⟨offset, fun i hi => ?_⟩
      obtain ⟨b, stretch, file⟩ := pages i hi
      exact ⟨b, kept stretch, file⟩
    · obtain ⟨offset, pages⟩ := regions.backed before
      refine ⟨offset, fun i hi => ?_⟩
      obtain ⟨b, stretch, file⟩ := pages i hi
      exact ⟨b, from_parent stretch, file⟩
  · intro s a r a' r' i j region region' hi hj same
    rcases origin region with before | ⟨rfl, before⟩ <;>
      rcases origin region' with before' | ⟨here, before'⟩
    · exact regions.disjoint before before' hi hj same
    · subst here
      exact absurd same.symm (apart before' before hj hi)
    · exact absurd same (apart before before' hi hj)
    · exact regions.disjoint before before' hi hj same

theorem duplicateSpace_ends (h : Coherent v none) (regions : RegionsBacked v) :
    (duplicateSpace parent child).Ends v (fun _ w => SpaceCopied v parent child w)
      (fun e w => e.IsRefusal ∧ SpaceCopyStopped v parent child w) := by
  have unchanged : SpaceCopyStopped v parent child v :=
    ⟨⟨h, regions, .refl _, .refl _⟩, fun _ _ _ => rfl, fun _ _ => rfl, fun _ => rfl⟩
  unfold duplicateSpace
  rw [ends_bind, ends_get]
  cases live : v.spaces.find? child with
  | none => exact ⟨⟨_, rfl⟩, unchanged⟩
  | some y =>
    cases found : v.spaces.find? parent with
    | none => exact ⟨⟨_, rfl⟩, unchanged⟩
    | some x =>
      dsimp only
      rw [ends_bind]
      have key : ∀ a, a ∈ x.pages.keys ↔ ∃ p, pageIn? v.spaces parent a = some p := by
        intro a
        rw [pageIn?_of_find found, ← Table.contains_iff, Table.contains, Option.isSome_iff_exists]
      have start : CopiedBut v parent child x.pages.keys v :=
        .start h fun a p page => (key a).mpr ⟨p, page⟩
      refine (ends_forAll (I := fun rest u => CopiedBut v parent child rest u ∧
        ∀ a ∈ rest, a ∈ x.pages.keys) (fun a rest u so_far => ?_)
        ⟨start, fun _ ha => ha⟩).mono (fun _ u all => ?_) fun _ _ h => h
      · obtain ⟨copied, keys⟩ := so_far
        obtain ⟨p, page⟩ := (key a).mp (keys a List.mem_cons_self)
        obtain ⟨q, there, -⟩ := copied.follows.kept page
        refine (duplicatePage_ends copied.coherent there).mono (fun _ w next => ?_)
          fun e w stopped => ?_
        · exact ⟨copied.step next, fun b hb => keys b (List.mem_cons_of_mem a hb)⟩
        · obtain ⟨refusal, attempt⟩ := stopped
          have follows := (copied.follows.mono fun _ e => e.isCopyAttempt).trans attempt.follows
          have cached := (copied.cached.mono fun _ e => e.isCopyAttempt).trans attempt.cached
          refine ⟨refusal, .of_follows attempt.coherent regions follows cached, fun s a other => ?_,
            follows.regions, follows.live⟩
          rw [attempt.others s a other, copied.others s a fun same => absurd same other]
      · obtain ⟨copied, -⟩ := all
        rw [ends_bind]
        have alive : (u.spaces.find? child).isSome = true := by
          rw [copied.follows.live, live, Option.isSome_some]
        have entries : ∀ {a r}, (a, r) ∈ x.regions.entries ↔ regionIn? v.spaces parent a = some r := by
          intro a r
          rw [← Table.find?_eq_some_iff]
          simp only [regionIn?, found, Option.bind_some]
        have free : ∀ z ∈ x.regions.entries, regionIn? u.spaces child z.1 = none := by
          rintro ⟨a, r⟩ mem
          rw [copied.follows.regions]
          exact copied.regionless regions (entries.mp mem)
        refine (enterRegions_ends parent alive x.regions.keys_nodup free).mono
          (fun _ w entered => ?_) fun _ _ h => h
        obtain ⟨only, regions', mapped⟩ := entered
        rw [ends_emit]
        have all : ∀ a r, regionIn? w.spaces child a = some r ↔
            regionIn? v.spaces parent a = some r ∨ regionIn? v.spaces child a = some r := by
          intro a r
          rw [regions', entries, copied.follows.regions]
        refine ⟨⟨only.coherent copied.coherent,
          regionsBacked_of_copied regions copied only fun a r => (all a r).mp, ?_,
          copied.cached.trans mapped⟩, fun a p page => ?_, fun a p page => ?_,
          fun s a elsewhere => ?_, all, fun s a other => ?_, fun s => ?_⟩
        · rw [only.flat]
          exact copied.follows.happens
        · rw [only.flat]
          exact copied.shown a p page List.not_mem_nil
        · obtain ⟨q, there, copy⟩ := copied.copies a p page List.not_mem_nil
          exact ⟨q, by rw [only.pages, there], copy⟩
        · rw [only.pages, copied.others s a elsewhere]
        · rw [only.regions s a other, copied.follows.regions]
        · rw [only.live, copied.follows.live]

end VirtualMemory

end KernelCore
