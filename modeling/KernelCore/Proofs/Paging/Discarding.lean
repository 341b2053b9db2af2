import KernelCore.Paging.FileMapping
import KernelCore.Proofs.Paging.Entering

/-!
# Taking pages away

A page that is taken away leaves nothing behind: neither its frame, nor its slot, nor its mapping.
A region goes together with all its pages, so those of the others stay as they are.
-/
namespace KernelCore

/-- A page of the space was dropped, or a changed file page was written back. -/
def MemoryEvent.IsDrop (space : SpaceId) : MemoryEvent → Prop
  | .wroteBack .. => True
  | .dropped s _ => s = space
  | _ => False

/-- A page of the space at one of the addresses `gone` was taken out, its changes written back
before, or a region that starts at one of the addresses `starts`. -/
def CacheEvent.IsTaking (space : SpaceId) (gone starts : VirtAddr → Prop) : CacheEvent → Prop
  | .wroteBack s a _ _ => s = space ∧ gone a
  | .lost s a _ _ => s = space ∧ gone a
  | .removed s a => s = space ∧ gone a
  | .unmapped s a => s = space ∧ starts a
  | _ => False

theorem CacheEvent.IsTaking.mono {space : SpaceId} {gone gone' starts starts' : VirtAddr → Prop}
    {e : CacheEvent} (h : e.IsTaking space gone starts) (pages : ∀ a, gone a → gone' a)
    (regions : ∀ a, starts a → starts' a) : e.IsTaking space gone' starts' := by
  cases e <;> first | exact ⟨h.1, pages _ h.2⟩ | exact ⟨h.1, regions _ h.2⟩ | exact h.elim

theorem MemoryEvent.IsWriteBack.isDrop {space : SpaceId} {e : MemoryEvent} (h : e.IsWriteBack) :
    e.IsDrop space := by
  cases e <;> first | exact trivial | exact h.elim

namespace VirtualMemory

open Transition

variable {v w : VirtualMemory} {space s : SpaceId} {va a : VirtAddr} {p : Page} {f : FrameId}
  {x : Frame} {E : Stop → VirtualMemory → Prop}

/-! ## Saving changes -/

/-- What became of the changes of a page: there were none, or they were written to its file, wholly
or in part. -/
inductive Saved (v : VirtualMemory) (space : SpaceId) (va : VirtAddr) (files : FileStore) : Prop where
  | nothing (same : v.files.Alike files)
      (clean : ∀ q, v.cache.page space va = some q → q.isDirty = false)
  | written {b : FileBacking} {bytes : PageBytes}
      (dirty : v.cache.page space va = some ⟨b, some ⟨bytes, true⟩⟩)
      (sent : b.Sent bytes b.readBytes v.files files) (within : b.Within v.files.image)
  | short {b : FileBacking} {bytes : PageBytes}
      (dirty : v.cache.page space va = some ⟨b, some ⟨bytes, true⟩⟩)
      (short : b.CameShort bytes v.files files)

theorem Saved.perhapsWritten {files : FileStore} (h : Saved v space va files) :
    PerhapsWritten v.files.image files.image := by
  cases h with
  | nothing same => exact .inl same.image
  | written _ sent => exact perhapsWritten_of_sent sent
  | short _ short =>
    obtain ⟨n, -, sent, -⟩ := short
    exact perhapsWritten_of_sent sent

/-- When the page is taken out next, its changes are in the file or lost. -/
theorem Saved.leads {files : FileStore} (h : Saved v space va files)
    (pages : ∀ s a, w.cache.page s a = if s = space ∧ a = va then none else v.cache.page s a)
    (regions : ∀ s a, regionIn? w.spaces s a = regionIn? v.spaces s a)
    (alike : files.Alike w.files) :
    Leads (CacheEvent.IsTaking space (· = va) fun _ => False) v.cache w.cache := by
  cases h with
  | nothing same clean =>
    have after : w.cache = v.cache.setPage space va none :=
      cache_eq pages regions (alike.image.trans same.image)
        fun f => (alike.short f).trans (same.short f)
    rw [after]
    exact .one (.removed clean) ⟨rfl, rfl⟩
  | @written b bytes dirty sent within =>
    have after : w.cache =
        (v.cache.send b bytes b.readBytes files.shortWrites).setPage space va none :=
      cache_eq pages regions (alike.image.trans sent.image) alike.short
    have saved := CacheStep.wroteBack dirty within sent.short
    have clean : ∀ q, ((v.cache.send b bytes b.readBytes files.shortWrites).setPage space va
        (some ⟨b, some ⟨bytes, false⟩⟩)).page space va = some q → q.isDirty = false := by
      intro q cached
      rw [PageCache.setPage_page] at cached
      cases cached
      rfl
    have removed := CacheStep.removed clean
    rw [PageCache.setPage_setPage, ← after] at removed
    exact (Leads.one saved ⟨rfl, rfl⟩).trans (.one removed ⟨rfl, rfl⟩)
  | @short b bytes dirty short =>
    obtain ⟨n, most, sent, reason⟩ := short
    have after : w.cache = (v.cache.send b bytes n files.shortWrites).setPage space va none :=
      cache_eq pages regions (alike.image.trans sent.image) alike.short
    rw [after]
    exact .one (.lost dirty most reason sent.short) ⟨rfl, rfl⟩

/-- Nothing changed but the counts and the files, to which the changes of the page were perhaps
written. -/
structure OnlySaved (v : VirtualMemory) (space : SpaceId) (va : VirtAddr) (w : VirtualMemory) :
    Prop where
  fields : w = { v with files := w.files, counts := w.counts }
  saved : Saved v space va w.files

theorem OnlySaved.pages (h : OnlySaved v space va w) (s a) :
    pageIn? w.spaces s a = pageIn? v.spaces s a := by rw [h.fields]

theorem OnlySaved.cached (h : OnlySaved v space va w) (s a) :
    w.cache.page s a = v.cache.page s a := by
  rw [h.fields]
  rfl

theorem OnlySaved.coherent (h : OnlySaved v space va w) (coherent : Coherent v none) :
    Coherent w none := by
  have fields := h.fields
  refine coherent.of_same ?_ (fun _ => ?_) ?_ ?_ ?_ ?_ <;> rw [fields]
  exact .refl _

theorem OnlySaved.happens (h : OnlySaved v space va w) :
    Happens MemoryEvent.IsWriteBack v.flat w.flat := by
  have fields := h.fields
  refine PerhapsWritten.happens h.saved.perhapsWritten ?_
  rw [fields]
  rfl

theorem saveChanges_ends (h : Coherent v none) (page : pageIn? v.spaces space va = some p)
    (part : String) :
    (saveChanges part space va p).Ends v (fun _ w => OnlySaved v space va w) E := by
  have cached := cache_page_of_page page
  have nothing : (∀ q, v.cachedPage space va p = some q → q.isDirty = false) →
      OnlySaved v space va v := fun clean =>
    ⟨rfl, .nothing (.refl _) fun q hq => clean q (cached ▸ hq)⟩
  unfold saveChanges
  cases kind : p.kind with
  | untouched target loader =>
    refine nothing fun q hq => ?_
    obtain ⟨b, -, rfl⟩ := Option.map_eq_some_iff.mp hq
    have away : p.frame = none := by
      cases holds : p.frame with
      | none => rfl
      | some f =>
        have touched := (h.settled page holds).1
        simp [Page.isUntouched, kind] at touched
    rw [CachedPage.isDirty, heldPage_of_away away]
    rfl
  | anonymous slot =>
    refine nothing fun q hq => ?_
    rw [cachedPage_of_unmapped (by simp only [Page.mapped?, kind])] at hq
    cases hq
  | file b =>
    have mapped : p.mapped? = some b := by simp only [Page.mapped?, kind]
    rw [cachedPage_of_mapped? mapped] at cached nothing
    cases holds : p.frame with
    | none =>
      refine nothing fun q hq => ?_
      cases hq
      rw [CachedPage.isDirty, heldPage_of_away holds]
      rfl
    | some f =>
      obtain ⟨x, frame, -⟩ := h.resident page holds
      rw [heldPage_of_frame holds frame] at cached nothing
      dsimp only
      rw [ends_bind, ends_isDirty, ends_ite]
      refine ⟨fun dirty => ?_, fun clean => nothing fun q hq => ?_⟩
      · rw [dirty] at cached
        rw [ends_bind, ends_frame frame, ends_bind]
        refine Ends.attempt ?_
        unfold writeBack
        rw [ends_bind, ends_gets, ends_onFiles]
        refine (FileBacking.writeBack_ends b _ _).mono (fun _ files written => ?_)
          fun e files refused => ?_
        · dsimp only
          rw [ends_bind, ends_count, ends_pure]
          exact ⟨rfl, .written cached written.1 written.2⟩
        · obtain ⟨rfl, short⟩ := refused
          dsimp only
          rw [ends_bind, ends_emit, ends_pure]
          exact ⟨rfl, .short cached short⟩
      · cases hq
        rw [Bool.not_eq_true] at clean
        exact clean

/-! ## Pages that are gone -/

/-- The pages of a space at some addresses were dropped. -/
structure Dropped (v : VirtualMemory) (space : SpaceId) (gone : VirtAddr → Prop)
    (w : VirtualMemory) : Prop where
  coherent : Coherent w none
  happens : Happens (MemoryEvent.IsDrop space) v.flat w.flat
  cached : Leads (CacheEvent.IsTaking space gone fun _ => False) v.cache w.cache
  /-- If users see none of the pages, they do not see that they go. -/
  unseen : (∀ a, gone a → v.flat.page space a = none) → Happens MemoryEvent.IsWriteBack v.flat w.flat
  absent : ∀ a, gone a → pageIn? w.spaces space a = none
  others : ∀ s a, ¬(s = space ∧ gone a) → pageIn? w.spaces s a = pageIn? v.spaces s a
  regions : ∀ s a, regionIn? w.spaces s a = regionIn? v.spaces s a
  live : ∀ s, (w.spaces.find? s).isSome = (v.spaces.find? s).isSome

theorem Dropped.trans {u : VirtualMemory} {gone gone' : VirtAddr → Prop}
    (h : Dropped u space gone v) (h' : Dropped v space gone' w) :
    Dropped u space (fun a => gone a ∨ gone' a) w where
  coherent := h'.coherent
  happens := h.happens.trans h'.happens
  cached := (h.cached.mono fun _ e => e.mono (fun _ => .inl) fun _ => id).trans
    (h'.cached.mono fun _ e => e.mono (fun _ => .inr) fun _ => id)
  unseen hidden := by
    have first := h.unseen fun a ha => hidden a (.inl ha)
    refine first.trans (h'.unseen fun a ha => ?_)
    rw [page_of_writeBacks first]
    exact hidden a (.inr ha)
  absent a ha := by
    by_cases later : gone' a
    · exact h'.absent a later
    · rw [h'.others space a fun here => later here.2]
      exact h.absent a (ha.resolve_right later)
  others s a other := by
    rw [h'.others s a fun here => other ⟨here.1, .inr here.2⟩,
      h.others s a fun here => other ⟨here.1, .inl here.2⟩]
  regions s a := (h'.regions s a).trans (h.regions s a)
  live s := (h'.live s).trans (h.live s)

/-- Taking out a page that is in no frame any more, and whose slot is free or was given back. -/
theorem Dropped.of_change {u : VirtualMemory} (only : OnlySaved v space va u)
    (coherent : Coherent w none)
    (flat : ∀ s a, w.flat.page s a = if s = space ∧ a = va then none else u.flat.page s a)
    (cached : ∀ s a, w.cache.page s a = if s = space ∧ a = va then none else u.cache.page s a)
    (files : u.files.Alike w.files)
    (pages : ∀ s a, pageIn? w.spaces s a =
      if s = space ∧ a = va then none else pageIn? u.spaces s a)
    (regions : ∀ s a, regionIn? w.spaces s a = regionIn? u.spaces s a)
    (live : ∀ s, (w.spaces.find? s).isSome = (u.spaces.find? s).isSome) :
    Dropped v space (· = va) w where
  coherent := coherent
  happens := by
    have after : w.flat = (MemoryEvent.dropped space va).apply u.flat := flat_eq flat files.image
    have kind : (MemoryEvent.dropped space va).IsDrop space := rfl
    have possible : (MemoryEvent.dropped space va).Possible u.flat := trivial
    exact (only.happens.mono fun _ e => e.isDrop).trans (after ▸ .one possible kind)
  cached := by
    refine only.saved.leads (fun s a => ?_) (fun s a => ?_) files
    · rw [cached, only.cached]
    · rw [regions, only.fields]
  unseen hidden := by
    have same : w.flat = u.flat := by
      refine flat_eq (fun s a => ?_) files.image
      rw [flat]
      split
      · rename_i here
        rw [here.1, here.2, page_of_writeBacks only.happens, hidden va rfl]
      · rfl
    rw [same]
    exact only.happens
  absent a ha := by rw [pages, if_pos ⟨rfl, ha⟩]
  others s a other := by rw [pages, if_neg other, only.pages]
  regions s a := by rw [regions, only.fields]
  live s := by rw [live, only.fields]

/-! ## One page -/

private theorem drop_resident {u : VirtualMemory} {pool : PagePool} (h : Coherent u none)
    (page : pageIn? u.spaces space va = some p) (holds : p.frame = some f)
    (frame : u.frames.frame? f = some x) (back : u.pool.TakenBack x.page pool)
    (spaces : ∀ s a, pageIn? w.spaces s a =
      if s = space ∧ a = va then none else pageIn? u.spaces s a)
    (live : ∀ s, (w.spaces.find? s).isSome = (u.spaces.find? s).isSome)
    (frames : w.frames = u.frames.put f none) (mmu : w.mmu = u.mmu.unmap space va)
    (hpool : w.pool = pool) (swap : w.swap = u.swap) (next : w.nextSpace = u.nextSpace) :
    LocalChange u w ⟨space, va⟩ f none none where
  pages := spaces
  frames g := by rw [frames, FrameTable.frame?_put frame]
  targets s a := by
    rw [mmu, Mmu.mapping?_unmap]
    by_cases here : s = space ∧ a = va
    · rw [if_pos here, if_pos here]
      rfl
    · rw [if_neg here, if_neg here]
  pool := hpool ▸ back.regular
  taken q := by
    rw [hpool, back.taken]
    simp [frame, and_comm, eq_comm]
  contents q _ other := by
    rw [hpool]
    exact back.page_other q fun same => other x frame same.symm
  swap := swap ▸ h.swap
  used i := by
    have slotless := (h.settled page holds).2
    simp [swap, page, slotless]
  saved _ _ _ := by rw [swap]
  frame_before y r hy owner := by
    obtain ⟨z, hz, owner'⟩ := h.resident page holds
    rw [hz] at hy
    cases hy
    exact Option.some.inj (owner.symm.trans owner')
  page_before q g hq hg := by
    rw [page] at hq
    cases hq
    exact Option.some.inj (hg.symm.trans holds)
  page_after := nofun
  frame_after := nofun
  place_after := nofun
  slot_after := nofun
  placed := nofun
  numbered s hs := by
    rw [next]
    rw [live] at hs
    exact h.numbered hs

private theorem drop_away {u : VirtualMemory} (h : Coherent u none)
    (page : pageIn? u.spaces space va = some p) (away : p.frame = none)
    (spaces : ∀ s a, pageIn? w.spaces s a =
      if s = space ∧ a = va then none else pageIn? u.spaces s a)
    (live : ∀ s, (w.spaces.find? s).isSome = (u.spaces.find? s).isSome)
    (frames : w.frames = u.frames) (mmu : w.mmu = u.mmu) (pool : w.pool = u.pool)
    (swap : w.swap.Regular)
    (used : ∀ i, w.swap.Used i ↔ u.swap.Used i ∧ p.slot ≠ some i)
    (saved : ∀ i, w.swap.readPage i = u.swap.readPage i) (next : w.nextSpace = u.nextSpace) :
    PageChange u w ⟨space, va⟩ none where
  pages := spaces
  frames := frames
  targets := mmu ▸ .refl _
  pool := pool
  swap := swap
  used i := by
    rw [used]
    simp [page]
  saved i _ _ := saved i
  before q hq := by
    rw [page] at hq
    cases hq
    exact away
  after := nofun
  slot_after := nofun
  placed := nofun
  numbered s hs := by
    rw [next]
    rw [live] at hs
    exact h.numbered hs

@[simp] theorem ends_dropPage {Q : Unit → VirtualMemory → Prop} :
    (dropPage space va).Ends v Q E ↔
      Q () { v with
        spaces := v.spaces.modify space fun a => a.removePage va
        files := v.files.release? ((v.page? space va).bind fun p => p.kind.description?) } :=
  Iff.rfl

section

variable {u : VirtualMemory} {d : Discarded} (only : OnlySaved v space va u) (h : Coherent u none)
  (floor : va.floor = va) (page : pageIn? u.spaces space va = some p)

include only h floor page

/-- A page in memory leaves it with its record. -/
private theorem dropResident_ends {x : Frame} (holds : p.frame = some f)
    (frame : u.frames.frame? f = some x) :
    ((do
      unmapPage space va
      freeFrame f
      dropPage space va
      pure d) : Paging Discarded).Ends u (fun _ w => Dropped v space (· = va) w) E := by
  have taken : u.pool.Taken x.page := (h.taken _).mpr ⟨f, x, frame, rfl⟩
  obtain ⟨pool, released, back⟩ := PagePool.release_of_taken h.pool taken
  rw [ends_bind, ends_unmapPage, ends_bind,
    ends_freeFrame (v := { u with mmu := u.mmu.unmap space va }) frame released, ends_bind,
    ends_dropPage, ends_pure]
  have spaces : ∀ s a, pageIn? (u.spaces.modify space fun a => a.removePage va) s a =
      if s = space ∧ a = va then none else pageIn? u.spaces s a := by
    intro s a
    rw [pageIn?_removePage, floor]
  have change := drop_resident (w := { u with
      mmu := u.mmu.unmap space va
      frames := u.frames.put f none
      pool
      spaces := u.spaces.modify space fun a => a.removePage va
      files := u.files.release? ((u.page? space va).bind fun p => p.kind.description?) })
    h page holds frame back spaces (fun _ => isSome_find_modify _) rfl rfl rfl rfl rfl
  refine .of_change only (h.change change nofun nofun nofun) (h.flatPage_change change)
    (h.cache_change change fun s a other => ?_) (FileStore.alike_release? _) spaces
    (fun _ _ => regionIn?_removePage) fun _ => isSome_find_modify _
  exact Mmu.isDirty_congr (by rw [Mmu.mapping?_unmap, if_neg other])

/-- The record of a page that is not in memory goes, and the page keeps no slot. -/
private theorem dropAway_ends (away : p.frame = none) {swap : SwapArea} (regular : swap.Regular)
    (used : ∀ i, swap.Used i ↔ u.swap.Used i ∧ p.slot ≠ some i)
    (contents : ∀ i, swap.readPage i = u.swap.readPage i) :
    ((dropPage space va >>= fun _ => pure d) : Paging Discarded).Ends { u with swap }
      (fun _ w => Dropped v space (· = va) w) E := by
  rw [ends_bind, ends_dropPage, ends_pure]
  have spaces : ∀ s a, pageIn? (u.spaces.modify space fun a => a.removePage va) s a =
      if s = space ∧ a = va then none else pageIn? u.spaces s a := by
    intro s a
    rw [pageIn?_removePage, floor]
  have change := drop_away (w := { u with
      swap
      spaces := u.spaces.modify space fun a => a.removePage va
      files := u.files.release? ((u.page? space va).bind fun p => p.kind.description?) })
    h page away spaces (fun _ => isSome_find_modify _) rfl rfl rfl regular used contents rfl
  have localChange := change.toLocal h
  exact .of_change only (change.coherent h) (h.flatPage_change localChange)
    (h.cache_change localChange fun _ _ _ => rfl) (FileStore.alike_release? _) spaces
    (fun _ _ => regionIn?_removePage) fun _ => isSome_find_modify _

end

theorem discardPage_ends (h : Coherent v none) (aligned : va.isAligned = true) (part : String)
    {slots : Bool} (slotless : slots = false →
      ∀ p, pageIn? v.spaces space va = some p → p.slot = none) :
    (discardPage part slots space va).Ends v (fun _ w => Dropped v space (· = va) w) E := by
  have floor := VirtAddr.floor_of_isAligned aligned
  unfold discardPage
  rw [ends_bind, ends_get, page?_eq, floor]
  cases page : pageIn? v.spaces space va with
  | none =>
    have absent : ∀ a, a = va → pageIn? v.spaces space a = none := fun a ha => ha ▸ page
    exact ⟨h, .refl _, .refl _, fun _ => .refl _, absent, fun _ _ _ => rfl, fun _ _ => rfl,
      fun _ => rfl⟩
  | some p =>
    dsimp only
    rw [ends_bind]
    refine (saveChanges_ends h page part).mono (fun saved u only => ?_) fun _ _ h => h
    have coherent := only.coherent h
    have page' : pageIn? u.spaces space va = some p := by rw [only.pages, page]
    cases holds : p.frame with
    | some f =>
      obtain ⟨x, frame, -⟩ := coherent.resident page' holds
      exact dropResident_ends only coherent floor page' holds frame
    | none =>
      dsimp only
      have away : ∀ swap : SwapArea, swap.Regular →
          (∀ i, swap.Used i ↔ u.swap.Used i ∧ p.slot ≠ some i) →
          (∀ i, swap.readPage i = u.swap.readPage i) →
          ((dropPage space va >>= fun _ => pure ⟨p.isResident.toNat, saved.toNat⟩) :
            Paging Discarded).Ends { u with swap } (fun _ w => Dropped v space (· = va) w) E :=
        fun _ regular used contents =>
          dropAway_ends only coherent floor page' holds regular used contents
      cases slot : p.slot with
      | none =>
        have same := away u.swap coherent.swap (fun i => by simp [slot]) fun _ => rfl
        cases slots with
        | false => exact same
        | true => exact same
      | some i =>
        cases slots with
        | false =>
          rw [slotless rfl p page] at slot
          cases slot
        | true =>
          have used : u.swap.Used i := (coherent.used i).mpr ⟨space, va, p, page', slot⟩
          rw [if_pos rfl, ends_bind, ends_onSwap]
          refine (SwapArea.free_ends coherent.swap used).mono (fun _ swap freed => ?_)
            fun _ _ h => h
          refine away swap freed.regular (fun j => ?_) freed.contents
          rw [freed.used, slot]
          simp [eq_comm, and_comm]

theorem discardPages_ends (part : String) (slots : Bool) {vas : List VirtAddr}
    (h : Coherent v none) (aligned : ∀ va ∈ vas, va.isAligned = true)
    (slotless : slots = false → ∀ va ∈ vas, ∀ p, pageIn? v.spaces space va = some p →
      p.slot = none) :
    (discardPages part slots space vas).Ends v (fun _ w => Dropped v space (· ∈ vas) w) E := by
  induction vas generalizing v with
  | nil =>
    exact ⟨h, .refl _, .refl _, fun _ => .refl _, nofun, fun _ _ _ => rfl, fun _ _ => rfl,
      fun _ => rfl⟩
  | cons va rest ih =>
    unfold discardPages
    rw [ends_bind]
    refine (discardPage_ends h (aligned va (by simp)) part fun hs => slotless hs va (by simp)).mono
      (fun _ u first => ?_) fun _ _ h => h
    rw [ends_bind]
    refine (ih first.coherent (fun a ha => aligned a (by simp [ha])) fun hs a ha p page => ?_).mono
      (fun _ w later => ?_) fun _ _ h => h
    · by_cases here : a = va
      · rw [first.absent a here] at page
        cases page
      · rw [first.others space a fun there => here there.2] at page
        exact slotless hs a (by simp [ha]) p page
    · rw [ends_pure]
      have both := first.trans later
      simpa only [List.mem_cons] using both

/-! ### The swap area -/

theorem saveChanges_preserves_swap (part : String) :
    Preserves VirtualMemory.swap (saveChanges part space va p) := by
  have written : ∀ b pa, Preserves VirtualMemory.swap (writeBack b pa) := by
    intro b pa
    exact .bind .gets fun _ _ => rfl
  unfold saveChanges
  split
  · refine .bind .gets fun _ => .ite (.bind (.bind .get fun _ => .ofExcept) fun x => ?_) .pure
    refine .bind (written _ x.page).attempt fun r => ?_
    cases r with
    | ok => exact .bind (.modify fun _ => rfl) fun _ => .pure
    | error e => exact .bind .emit fun _ => .pure
  · exact .pure

theorem discardPage_preserves_swap (part : String) :
    Preserves VirtualMemory.swap (discardPage part false space va) := by
  unfold discardPage
  refine .bind .get fun v => ?_
  split
  · exact .pure
  · rename_i p _
    refine .bind (saveChanges_preserves_swap part) fun saved => ?_
    have dropped : Preserves VirtualMemory.swap (dropPage space va >>= fun _ =>
        pure (⟨p.isResident.toNat, saved.toNat⟩ : Discarded) : Paging Discarded) :=
      .bind (.modify fun _ => rfl) fun _ => .pure
    split
    · refine .bind (.modify fun _ => rfl) fun _ => .bind (.update fun v w freed => ?_) fun _ => dropped
      split at freed
      · cases freed
      · split at freed
        · cases freed
        · cases freed
          rfl
    · exact dropped

/-- Pages that give no slot back leave the swap area as it is. -/
theorem discardPages_preserves_swap (part : String) (vas : List VirtAddr) :
    Preserves VirtualMemory.swap (discardPages part false space vas) := by
  induction vas with
  | nil => exact .pure
  | cons va rest ih =>
    exact .bind (discardPage_preserves_swap part) fun _ => .bind ih fun _ => .pure

/-! ## Regions -/

/-- Only regions of the space changed, and who holds the files. -/
structure OnlyRegions (v : VirtualMemory) (space : SpaceId) (w : VirtualMemory) : Prop where
  fields : w = { v with spaces := w.spaces, files := w.files }
  files : v.files.Alike w.files
  pages : ∀ s a, pageIn? w.spaces s a = pageIn? v.spaces s a
  regions : ∀ s a, s ≠ space → regionIn? w.spaces s a = regionIn? v.spaces s a
  live : ∀ s, (w.spaces.find? s).isSome = (v.spaces.find? s).isSome

theorem OnlyRegions.refl (v : VirtualMemory) (space : SpaceId) : OnlyRegions v space v :=
  ⟨rfl, .refl _, fun _ _ => rfl, fun _ _ _ => rfl, fun _ => rfl⟩

theorem OnlyRegions.trans {u : VirtualMemory} (h : OnlyRegions u space v)
    (h' : OnlyRegions v space w) : OnlyRegions u space w where
  fields := by
    have fields := h'.fields
    rw [h.fields] at fields
    exact fields
  files := h.files.trans h'.files
  pages s a := (h'.pages s a).trans (h.pages s a)
  regions s a other := (h'.regions s a other).trans (h.regions s a other)
  live s := (h'.live s).trans (h.live s)

theorem OnlyRegions.coherent (h : OnlyRegions v space w) (coherent : Coherent v none) :
    Coherent w none := by
  have fields := h.fields
  refine coherent.of_pages h.pages (fun _ => ?_) ?_ ?_ ?_ fun s hs => ?_
  · rw [fields]
  · rw [fields]
    exact .refl _
  · rw [fields]
  · rw [fields]
  · rw [fields]
    rw [h.live] at hs
    exact coherent.numbered hs

theorem OnlyRegions.flat (h : OnlyRegions v space w) : w.flat = v.flat := by
  have fields := h.fields
  refine flat_of_same h.pages (fun _ => ?_) ?_ ?_ h.files.image <;> rw [fields]

/-- The cache changes as the regions do. -/
theorem OnlyRegions.cache (h : OnlyRegions v space w) {start : VirtAddr} {r : Option Region}
    (regions : ∀ s a, regionIn? w.spaces s a =
      if s = space ∧ a = start then r else regionIn? v.spaces s a) :
    w.cache = v.cache.setRegion space start r := by
  have held : w.heldPage = v.heldPage := by
    rw [h.fields]
    rfl
  refine cache_eq (fun s a => ?_) regions h.files.image h.files.short
  unfold VirtualMemory.cache cachedPage PageCache.setRegion
  dsimp only
  rw [h.pages, held]

theorem OnlyRegions.mappedIn? (h : OnlyRegions v space w) (s a) :
    mappedIn? w.spaces s a = mappedIn? v.spaces s a := by
  unfold VirtualMemory.mappedIn?
  rw [h.pages]

theorem dropRegion_ends (start : VirtAddr) :
    (dropRegion space start).Ends v
      (fun _ w => OnlyRegions v space w ∧ ∀ s a, regionIn? w.spaces s a =
        if s = space ∧ a = start then none else regionIn? v.spaces s a) E := by
  unfold dropRegion
  rw [ends_modify]
  refine ⟨⟨rfl, FileStore.alike_release? _, fun _ _ => pageIn?_removeRegion start,
    fun s a other => ?_, fun _ => isSome_find_modify _⟩, fun _ _ => regionIn?_removeRegion start⟩
  dsimp only
  rw [regionIn?_removeRegion, if_neg fun here => other here.1]

theorem enterRegion_ends
    (live : (v.spaces.find? space).isSome = true) (start : VirtAddr) (r : Region) :
    (enterRegion space start r).Ends v
      (fun _ w => OnlyRegions v space w ∧ ∀ s a, regionIn? w.spaces s a =
        if s = space ∧ a = start then some r else regionIn? v.spaces s a) E := by
  unfold enterRegion
  rw [ends_modify]
  refine ⟨⟨rfl, ?_, fun _ _ => pageIn?_insertRegion start r, fun s a other => ?_,
    fun _ => isSome_find_modify _⟩, fun _ _ => regionIn?_insertRegion start r live⟩
  · exact FileStore.alike_retain.trans (FileStore.alike_release? _)
  · dsimp only
    rw [regionIn?_insertRegion start r live, if_neg fun here => other here.1]

/-- Regions that stay keep their stretch of the file as long as their pages do. -/
theorem RegionsBacked.shrink (h : RegionsBacked v)
    (regions : ∀ {s a r}, regionIn? w.spaces s a = some r → regionIn? v.spaces s a = some r)
    (mapped : ∀ {s a r i}, regionIn? w.spaces s a = some r → i < r.pageCount →
      mappedIn? w.spaces s ⟨a.toNat + i * pageSize⟩ =
        mappedIn? v.spaces s ⟨a.toNat + i * pageSize⟩) : RegionsBacked w where
  nonempty region := h.nonempty (regions region)
  backed := by
    intro s a r region
    obtain ⟨offset, pages⟩ := h.backed (regions region)
    refine ⟨offset, fun i hi => ?_⟩
    rw [mapped region hi]
    exact pages i hi
  disjoint region region' hi hj same := h.disjoint (regions region) (regions region') hi hj same

/-! ## Whole spaces and mappings -/

/-- What comes of a request that leaves memory in order. -/
structure InOrder (P : MemoryEvent → Prop) (K : CacheEvent → Prop) (v w : VirtualMemory) : Prop where
  coherent : Coherent w none
  regions : RegionsBacked w
  happens : Happens P v.flat w.flat
  cached : Leads K v.cache w.cache

theorem InOrder.of_follows {P : MemoryEvent → Prop} {K : CacheEvent → Prop}
    (coherent : Coherent w none) (regions : RegionsBacked v) (follows : Follows P v w)
    (cached : Leads K v.cache w.cache) : InOrder P K v w :=
  ⟨coherent, regions.follows follows, follows.happens, cached⟩

theorem absent_of_keys {x : AddressSpace} (found : v.spaces.find? space = some x)
    (d : Dropped v space (· ∈ x.pages.keys) w) (a : VirtAddr) :
    pageIn? w.spaces space a = none := by
  by_cases key : a ∈ x.pages.keys
  · exact d.absent a key
  · rw [d.others space a fun here => key here.2, pageIn?_of_find found]
    exact Option.not_isSome_iff_eq_none.mp fun c => key (Table.contains_iff.mp c)

/-- Dropping regions of a space one after the other. -/
theorem dropRegions_ends {u : VirtualMemory} (starts : List VirtAddr) :
    (forAll (dropRegion space) starts).Ends u
      (fun _ w => OnlyRegions u space w ∧
        (∀ a, regionIn? w.spaces space a = if a ∈ starts then none else regionIn? u.spaces space a) ∧
        Leads (CacheEvent.IsTaking space (fun _ => False) (· ∈ starts)) u.cache w.cache) E := by
  induction starts generalizing u with
  | nil => exact ⟨.refl u space, fun a => rfl, .refl _⟩
  | cons start rest ih =>
    rw [forAll_cons, ends_bind]
    refine (dropRegion_ends start).mono (fun _ t dropped => ?_) fun _ _ h => h
    obtain ⟨first, gone⟩ := dropped
    have unmapped : CacheStep u.cache (.unmapped space start) t.cache := by
      rw [first.cache gone]
      exact .unmapped
    refine ih.mono (fun _ w others => ?_) fun _ _ h => h
    obtain ⟨later, all, cached⟩ := others
    refine ⟨first.trans later, fun a => ?_, ?_⟩
    · rw [all, gone]
      by_cases here : a = start
      · simp [here]
      · simp [here]
    · refine (Leads.one unmapped ⟨rfl, List.mem_cons_self⟩).trans (cached.mono fun _ e => ?_)
      exact e.mono (fun _ => id) fun a ha => List.mem_cons_of_mem start ha

/-- The space is gone with all it had, and the others are as they were. -/
structure SpaceDestroyed (v : VirtualMemory) (space : SpaceId) (w : VirtualMemory) : Prop where
  inOrder : InOrder (MemoryEvent.IsDrop space)
    (CacheEvent.IsTaking space (fun _ => True) fun _ => True) v w
  gone : w.spaces.find? space = none
  pages : ∀ s a, s ≠ space → pageIn? w.spaces s a = pageIn? v.spaces s a
  regions : ∀ s a, s ≠ space → regionIn? w.spaces s a = regionIn? v.spaces s a
  live : ∀ s, s ≠ space → (w.spaces.find? s).isSome = (v.spaces.find? s).isSome

theorem SpaceDestroyed.absent (h : SpaceDestroyed v space w) (a : VirtAddr) :
    pageIn? w.spaces space a = none := by
  unfold pageIn?
  rw [h.gone, Option.bind_none]

section

variable {u : VirtualMemory} (absent : ∀ a, pageIn? u.spaces space a = none)

include absent

private theorem pageIn?_erase_of_absent (s : SpaceId) (a : VirtAddr) :
    pageIn? (u.spaces.erase space) s a = pageIn? u.spaces s a := by
  rw [pageIn?_erase]
  split
  · rename_i here
    rw [here, absent]
  · rfl

/-- A space without pages can be forgotten. -/
private theorem Coherent.erase (h : Coherent u none) : Coherent { u with
    spaces := u.spaces.erase space
    mmu := u.mmu.destroy space } none := by
  refine h.of_pages (pageIn?_erase_of_absent absent) (fun _ => rfl) (fun s a => ?_) rfl rfl
    fun s hs => h.numbered ?_
  · rw [Mmu.mapping?_destroy]
    split
    · rename_i here
      rw [h.translated, here, absent]
      rfl
    · rfl
  · dsimp only at hs
    rw [Table.find?_erase] at hs
    split at hs
    · cases hs
    · exact hs

private theorem flat_erase : VirtualMemory.flat { u with
    spaces := u.spaces.erase space
    mmu := u.mmu.destroy space } = u.flat :=
  flat_of_same (pageIn?_erase_of_absent absent) (fun _ => rfl) rfl rfl rfl

private theorem cache_erase (noRegion : ∀ a, regionIn? u.spaces space a = none) :
    VirtualMemory.cache { u with
      spaces := u.spaces.erase space
      mmu := u.mmu.destroy space } = u.cache := by
  refine cache_eq (fun s a => ?_) (fun s a => ?_) rfl fun _ => rfl
  · by_cases here : s = space
    · have gone : pageIn? u.spaces s a = none := by rw [here, absent]
      rw [cache_page_of_absent gone,
        cache_page_of_absent (by rw [pageIn?_erase_of_absent absent, gone])]
    · have dirty : (u.mmu.destroy space).isDirty s a = u.mmu.isDirty s a :=
        Mmu.isDirty_congr (by rw [Mmu.mapping?_destroy, if_neg here])
      unfold VirtualMemory.cache cachedPage heldPage
      dsimp only
      rw [pageIn?_erase_of_absent absent]
      simp only [dirty]
  · dsimp only
    rw [regionIn?_erase]
    split
    · rename_i here
      rw [here]
      exact (noRegion a).symm
    · rfl

end

theorem destroySpace_ends (h : Coherent v none) (regions : RegionsBacked v) :
    (destroySpace space).Ends v (fun _ w => SpaceDestroyed v space w)
      (fun e w => e.IsRefusal ∧ v.spaces.find? space = none ∧ w = v) := by
  unfold destroySpace
  rw [ends_bind, ends_get]
  cases found : v.spaces.find? space with
  | none => exact ⟨⟨_, rfl⟩, rfl, rfl⟩
  | some x =>
    dsimp only
    rw [ends_bind]
    have aligned : ∀ a ∈ x.pages.keys, a.isAligned = true := by
      intro a key
      obtain ⟨p, hp⟩ := Option.isSome_iff_exists.mp (Table.contains_iff.mpr key)
      exact h.aligned ((pageIn?_of_find found).trans hp)
    refine (discardPages_ends "vm" true h aligned (by simp)).mono (fun d u dropped => ?_)
      fun _ _ h => h
    rw [ends_bind]
    refine (dropRegions_ends x.regions.keys).mono (fun _ u' emptied => ?_) fun _ _ h => h
    obtain ⟨only, without, unmapped⟩ := emptied
    rw [ends_bind, ends_modify, ends_emit]
    have absent : ∀ a, pageIn? u'.spaces space a = none := by
      intro a
      rw [only.pages, absent_of_keys found dropped]
    have noRegion : ∀ a, regionIn? u'.spaces space a = none := by
      intro a
      rw [without]
      split
      · rfl
      · rename_i other
        rw [dropped.regions, regionIn?, found, Option.bind_some]
        exact Option.not_isSome_iff_eq_none.mp fun c => other (Table.contains_iff.mp c)
    have pages := pageIn?_erase_of_absent absent
    have coherent := (only.coherent dropped.coherent).erase absent
    refine ⟨⟨coherent, ?_, ?_, ?_⟩, ?_, fun s a other => ?_, fun s a other => ?_, fun s other => ?_⟩
    · have elsewhere : ∀ {s a r}, regionIn? (u'.spaces.erase space) s a = some r →
          s ≠ space ∧ regionIn? v.spaces s a = some r := by
        intro s a r region
        rw [regionIn?_erase] at region
        split at region
        · cases region
        · rename_i other
          rw [only.regions s a other, dropped.regions] at region
          exact ⟨other, region⟩
      refine regions.shrink (fun region => (elsewhere region).2) fun region _ => ?_
      have other := (elsewhere region).1
      unfold mappedIn?
      rw [pages, only.pages, dropped.others _ _ fun here => other here.1]
    · rw [flat_erase absent, only.flat]
      exact dropped.happens
    · rw [cache_erase absent noRegion]
      exact (dropped.cached.mono fun _ e => e.mono (fun _ _ => trivial) fun _ _ => trivial).trans
        (unmapped.mono fun _ e => e.mono (fun _ _ => trivial) fun _ _ => trivial)
    · dsimp only
      rw [Table.find?_erase, if_pos rfl]
    · rw [pages, only.pages, dropped.others s a fun here => other here.1]
    · rw [regionIn?_erase, if_neg other, only.regions s a other, dropped.regions]
    · dsimp only
      rw [Table.find?_erase, if_neg other, only.live, dropped.live]

/-- The page shows a stretch of a file, so it holds no slot. -/
theorem slot_of_mapped? {b : FileBacking} (h : p.mapped? = some b) : p.slot = none := by
  unfold Page.mapped? at h
  unfold Page.slot
  split at h
  · simp [*]
  · simp [*]
  · cases h

/-- Users do not see it. -/
theorem flatPage_of_mapped? {b : FileBacking} (h : p.mapped? = some b) : v.flatPage p = none := by
  unfold Page.mapped? at h
  unfold flatPage
  split at h
  · simp [*]
  · simp [*]
  · cases h

theorem mem_pageStarts {start : VirtAddr} {count : Nat} :
    a ∈ pageStarts start count ↔ ∃ i, i < count ∧ ⟨start.toNat + i * pageSize⟩ = a := by
  unfold pageStarts
  simp only [List.mem_map, List.mem_range]

/-- The pages of the region that starts at an address. -/
def RegionPages (v : VirtualMemory) (space : SpaceId) (start a : VirtAddr) : Prop :=
  ∃ r, regionIn? v.spaces space start = some r ∧ a ∈ pageStarts start r.pageCount

theorem regionPages_iff {start : VirtAddr} {r : Region}
    (region : regionIn? v.spaces space start = some r) :
    v.RegionPages space start a ↔ a ∈ pageStarts start r.pageCount := by
  constructor
  · rintro ⟨r', region', ha⟩
    rw [region] at region'
    cases region'
    exact ha
  · exact fun ha => ⟨r, region, ha⟩

/-- The regions that stay share no page with the one that goes. -/
theorem RegionsBacked.without (h : RegionsBacked v) {start : VirtAddr}
    (others : ∀ s a, ¬(s = space ∧ v.RegionPages space start a) →
      pageIn? w.spaces s a = pageIn? v.spaces s a)
    (regions : ∀ s a, regionIn? w.spaces s a =
      if s = space ∧ a = start then none else regionIn? v.spaces s a) : RegionsBacked w := by
  have stays : ∀ {s a r}, regionIn? w.spaces s a = some r →
      ¬(s = space ∧ a = start) ∧ regionIn? v.spaces s a = some r := by
    intro s a r region
    rw [regions] at region
    split at region
    · cases region
    · exact ⟨‹_›, region⟩
  refine h.shrink (fun region => (stays region).2) fun {s a r i} region hi => ?_
  obtain ⟨other, before⟩ := stays region
  unfold mappedIn?
  rw [others]
  rintro ⟨rfl, r', region', there⟩
  obtain ⟨j, hj, same⟩ := mem_pageStarts.mp there
  exact other ⟨rfl, (h.disjoint region' before hj hi (congrArg VirtAddr.toNat same)).symm⟩

/-- A mapping was taken back: its pages and its region are gone, and nothing else is. -/
structure Unmapped (v : VirtualMemory) (space : SpaceId) (start : VirtAddr) (w : VirtualMemory) :
    Prop where
  inOrder : InOrder MemoryEvent.IsWriteBack
    (CacheEvent.IsTaking space (v.RegionPages space start) (· = start)) v w
  region : ∃ r, regionIn? v.spaces space start = some r
  swap : w.swap = v.swap
  absent : ∀ a, v.RegionPages space start a → pageIn? w.spaces space a = none
  others : ∀ s a, ¬(s = space ∧ v.RegionPages space start a) →
    pageIn? w.spaces s a = pageIn? v.spaces s a
  regions : ∀ s a, regionIn? w.spaces s a =
    if s = space ∧ a = start then none else regionIn? v.spaces s a

theorem unmapFile_ends (h : Coherent v none) (regions : RegionsBacked v) {start : VirtAddr} :
    (unmapFile space start).Ends v (fun _ w => Unmapped v space start w)
      (fun e w => e.IsRefusal ∧ regionIn? v.spaces space start = none ∧ w = v) := by
  unfold unmapFile
  rw [ends_bind, ends_get]
  cases found : v.spaces.find? space with
  | none => exact ⟨⟨_, rfl⟩, by simp only [regionIn?, found, Option.bind_none], rfl⟩
  | some x =>
    dsimp only
    cases hr : x.regions.find? start with
    | none => exact ⟨⟨_, rfl⟩, by simp only [regionIn?, found, Option.bind_some, hr], rfl⟩
    | some r =>
      have region : regionIn? v.spaces space start = some r := by
        simp only [regionIn?, found, Option.bind_some, hr]
      have ofRegion : ∀ a, v.RegionPages space start a ↔ a ∈ pageStarts start r.pageCount :=
        fun a => regionPages_iff region
      obtain ⟨offset, backed⟩ := regions.backed region
      have pages : ∀ a ∈ pageStarts start r.pageCount,
          ∃ p, pageIn? v.spaces space a = some p ∧ p.slot = none ∧ v.flatPage p = none := by
        intro a ha
        obtain ⟨i, hi, rfl⟩ := mem_pageStarts.mp ha
        obtain ⟨b, mapped, -⟩ := backed i hi
        obtain ⟨p, page, shows⟩ := Option.bind_eq_some_iff.mp mapped
        exact ⟨p, page, slot_of_mapped? shows, flatPage_of_mapped? shows⟩
      have aligned : ∀ a ∈ pageStarts start r.pageCount, a.isAligned = true := by
        intro a ha
        obtain ⟨p, page, -⟩ := pages a ha
        exact h.aligned page
      have slotless : false = false → ∀ a ∈ pageStarts start r.pageCount, ∀ p,
          pageIn? v.spaces space a = some p → p.slot = none := by
        intro _ a ha p page
        obtain ⟨q, page', slotless, -⟩ := pages a ha
        rw [page'] at page
        cases page
        exact slotless
      have discarded := discardPages_ends (E := fun _ _ => False) "mmap" false h aligned slotless
      dsimp only
      rw [ends_bind]
      refine (discarded.and ((discardPages_preserves_swap "mmap" _).ends v)).mono
        (fun d u both => ?_) fun _ _ h => h.1.elim
      obtain ⟨dropped, swap⟩ := both
      rw [ends_bind]
      refine (dropRegion_ends start).mono (fun _ w after => ?_) fun _ _ h => h
      obtain ⟨only, gone⟩ := after
      rw [ends_emit]
      have unmapped : CacheStep u.cache (.unmapped space start) w.cache := by
        rw [only.cache gone]
        exact .unmapped
      have others : ∀ s a, ¬(s = space ∧ v.RegionPages space start a) →
          pageIn? w.spaces s a = pageIn? v.spaces s a := by
        intro s a other
        rw [ofRegion] at other
        exact (only.pages s a).trans (dropped.others s a other)
      have without : ∀ s a, regionIn? w.spaces s a =
          if s = space ∧ a = start then none else regionIn? v.spaces s a := by
        intro s a
        rw [gone, dropped.regions]
      refine ⟨⟨only.coherent dropped.coherent, regions.without others without, ?_, ?_⟩,
        ⟨r, region⟩, ?_, fun a ha => ?_, others, without⟩
      · rw [only.flat]
        refine dropped.unseen fun a ha => ?_
        obtain ⟨q, page, -, hidden⟩ := pages a ha
        simp only [flat, page, Option.bind_some, hidden]
      · refine (dropped.cached.mono fun _ e => ?_).trans (.one unmapped ⟨rfl, rfl⟩)
        exact e.mono (fun a ha => (ofRegion a).mpr ha) fun _ => False.elim
      · have fields := only.fields
        rw [fields]
        exact swap
      · rw [only.pages, dropped.absent a ((ofRegion a).mp ha)]

end VirtualMemory

end KernelCore
