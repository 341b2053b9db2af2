import KernelCore.Paging.Claim
import KernelCore.Proofs.Memory.Files
import KernelCore.Proofs.Memory.Frames
import KernelCore.Proofs.Paging.Spaces
import KernelCore.Proofs.Transition

/-!
# Single steps of memory management

How the steps that operations are made of end, given the page or the frame they act on.
-/
namespace KernelCore.VirtualMemory

open Transition

section

variable {v : VirtualMemory} {space : SpaceId} {va : VirtAddr} {f : FrameId} {x : Frame} {p : Page}
  {E : Stop → VirtualMemory → Prop}

theorem ends_pageAt (h : v.page? space va = some p) {Q : Page → VirtualMemory → Prop} :
    (pageAt space va).Ends v Q E ↔ Q p v := by
  unfold pageAt
  rw [ends_bind, ends_get]
  unfold page? at h
  cases hs : v.spaces.find? space with
  | none => simp [hs] at h
  | some a =>
    rw [hs, Option.bind_some] at h
    simp only [h, ends_pure]

theorem ends_frame (h : v.frames.frame? f = some x) {Q : Frame → VirtualMemory → Prop} :
    (frame f).Ends v Q E ↔ Q x v := by
  unfold frame
  rw [ends_bind, ends_get, FrameTable.get_of_frame h]
  rfl

variable {Q : Unit → VirtualMemory → Prop}

theorem ends_updateFrame (h : v.frames.frame? f = some x) (change : Frame → Frame) :
    (updateFrame f change).Ends v Q E ↔
      Q () { v with frames := v.frames.put f (some (change x)) } := by
  have updated : v.frames.update f change = .ok (v.frames.put f (some (change x))) :=
    FrameTable.update_of_frame h change
  unfold updateFrame
  rw [ends_update_of_ok]
  rw [updated]

theorem ends_freeFrame (h : v.frames.frame? f = some x) {pool : PagePool}
    (released : v.pool.release x.page = .ok pool) :
    (freeFrame f).Ends v Q E ↔ Q () { v with frames := v.frames.put f none, pool } := by
  unfold freeFrame
  rw [ends_update_of_ok]
  rw [FrameTable.remove_of_frame h]
  simp only [released]

@[simp] theorem ends_count (g : PagingCounts → PagingCounts) :
    (count g).Ends v Q E ↔ Q () { v with counts := g v.counts } := Iff.rfl

@[simp] theorem ends_setPage (pa : PhysAddr) (bytes : PageBytes) :
    (setPage pa bytes).Ends v Q E ↔ Q () { v with pool := v.pool.setPage pa bytes } := Iff.rfl

@[simp] theorem ends_setFrame (o : Option FrameId) :
    (setFrame space va o).Ends v Q E ↔
      Q () { v with
        spaces := v.spaces.modify space fun a => a.updatePage va fun p => { p with frame := o } } :=
  Iff.rfl

@[simp] theorem ends_unmapPage :
    (unmapPage space va).Ends v Q E ↔ Q () { v with mmu := v.mmu.unmap space va } := Iff.rfl

@[simp] theorem ends_setDirty (dirty : Bool) :
    (setDirty space va dirty).Ends v Q E ↔ Q () { v with mmu := v.mmu.setDirty space va dirty } :=
  Iff.rfl

@[simp] theorem ends_isDirty {Q : Bool → VirtualMemory → Prop} :
    (isDirty space va).Ends v Q E ↔ Q (v.mmu.isDirty space va) v := Iff.rfl

/-- A new kind changes the page record, and of the files only who holds them. -/
theorem ends_setKind (kind : PageKind)
    (h : ∀ files : FileStore, v.files.Alike files → v.files.SameReads files →
      Q () { v with
        spaces := v.spaces.modify space fun a => a.updatePage va fun p => { p with kind }
        files }) :
    (setKind space va kind).Ends v Q E := by
  unfold setKind updatePage
  simp only [ends_bind, ends_get, ends_modify]
  exact h _ ((FileStore.alike_retain? _).trans (FileStore.alike_release? _))
    ((FileStore.sameReads_retain? _).trans (FileStore.sameReads_release? _))

/-- A page the hardware refuses to map leaves every entry as it was. -/
theorem ends_mapPage (pa : PhysAddr) (writable : Bool)
    (refused : ∀ e mmu, v.mmu.Refuses space va e →
      (∀ s a, mmu.mapping? s a = v.mmu.mapping? s a) → E (.refused (.ofMap e)) { v with mmu })
    (mapped : ∀ mmu, v.mmu.mapping? space va = none →
      (∀ s a, mmu.mapping? s a =
        if s = space ∧ a = va then some ⟨pa, writable, false, false⟩ else v.mmu.mapping? s a) →
      Q () { v with mmu }) :
    (mapPage space va pa writable).Ends v Q E := by
  unfold mapPage
  rw [ends_bind, ends_modifyGet]
  dsimp only
  rcases v.mmu.map_cases space va pa writable with ⟨e, result, refuses, same⟩ |
    ⟨result, absent, entry⟩
  · rw [result]
    exact refused _ _ refuses same
  · rw [result]
    exact mapped _ absent entry

end

section

variable {α : Type} {v : VirtualMemory} {Q : α → VirtualMemory → Prop}
  {E : Stop → VirtualMemory → Prop} {f : FrameId} {x : Frame}

theorem ends_onSwap {t : Swapping α} :
    (onSwap t).Ends v Q E ↔
      t.Ends v.swap (fun a swap => Q a { v with swap }) fun e swap => E e { v with swap } :=
  ends_within

theorem ends_onFiles {t : Transition Stop FileStore α} :
    (onFiles t).Ends v Q E ↔
      t.Ends v.files (fun a files => Q a { v with files }) fun e files => E e { v with files } :=
  ends_within

theorem ends_filling {pa : PhysAddr} {t : Transferring α} :
    (filling pa t).Ends v Q E ↔
      t.Ends ⟨v.files, v.pool.page pa⟩
        (fun a x => Q a { v with files := x.files, pool := v.pool.setPage pa x.page })
        fun e x => E e { v with files := x.files, pool := v.pool.setPage pa x.page } :=
  ends_within

/-- A frame is pinned only meanwhile, provided that whoever acts leaves the table alone. -/
theorem whilePinned_ends {t : Paging α} (h : v.frames.frame? f = some x)
    (unpinned : x.pinned = false)
    (acts : t.Ends { v with frames := v.frames.put f (some { x with pinned := true }) }
      (fun a w => w.frames = v.frames.put f (some { x with pinned := true }) ∧
        Q a { w with frames := v.frames })
      (fun e w => (∃ r, e = .refused r) ∧
        w.frames = v.frames.put f (some { x with pinned := true }) ∧
          E e { w with frames := v.frames })) :
    (whilePinned f t).Ends v Q E := by
  have restored : ∀ w : VirtualMemory,
      w.frames = v.frames.put f (some { x with pinned := true }) →
      ∀ {Q' : Unit → VirtualMemory → Prop}, Q' () { w with frames := v.frames } →
      (updateFrame f fun x => { x with pinned := false }).Ends w Q' E := by
    intro w hw Q' hQ
    have here : w.frames.frame? f = some { x with pinned := true } := by
      rw [hw, FrameTable.frame?_put h, if_pos rfl]
    rw [ends_updateFrame here, hw, FrameTable.put_put]
    have back : ({ x with pinned := false } : Frame) = x := by
      rw [← unpinned]
    rwa [back, FrameTable.put_self h]
  unfold whilePinned
  rw [ends_bind, ends_updateFrame h, ends_bind]
  refine Ends.attempt (acts.mono (fun a w hw => ?_) fun e w hw => ?_)
  · rw [ends_bind]
    exact restored w hw.1 hw.2
  · obtain ⟨⟨r, rfl⟩, same, stopped⟩ := hw
    dsimp only
    rw [ends_bind]
    exact restored w same stopped

end

end KernelCore.VirtualMemory
