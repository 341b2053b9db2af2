import KernelCore.Paging.Request
import KernelCore.Proofs.Paging.Entering
import KernelCore.Proofs.Paging.References

/-!
# Keeping the books

Most of what memory management does concerns no references at all. A page refers to another
description than before only when it is entered, when it is taken out, and when it is first brought
into memory; each time what it referred to is released and what it refers to now is retained. So
the books are in order whenever an operation is done or refused.
-/
namespace KernelCore.VirtualMemory

open Transition

/-! ## Steps that concern no references -/

/-- The spaces as they are, and what the files say of their descriptions. -/
def records (v : VirtualMemory) := (v.spaces, v.files.account)

section

variable {α : Type} {v w : VirtualMemory} {space : SpaceId} {va : VirtAddr} {f : FrameId}
  {pa : PhysAddr}

theorem spaces_of_records (h : w.records = v.records) : w.spaces = v.spaces := congrArg Prod.fst h

theorem ledger_of_records (h : w.records = v.records) : w.ledger = v.ledger := by
  have account : w.files.account = v.files.account := congrArg Prod.snd h
  unfold ledger
  rw [spaces_of_records h, account]

theorem records_files {files : FileStore} (h : files.account = v.files.account) :
    VirtualMemory.records { v with files } = v.records := by
  unfold records
  dsimp only
  rw [h]

theorem preserves_ledger {t : Paging α} (h : Preserves records t) : Preserves ledger t :=
  h.of_view fun _ _ => ledger_of_records

/-- What the view shows is all in the spaces and the files. -/
class Holdings {γ : Type} (g : VirtualMemory → γ) : Prop where
  same : ∀ v w : VirtualMemory, w.spaces = v.spaces → w.files = v.files → g w = g v

instance : Holdings records where
  same v w spaces files := by
    unfold records
    rw [spaces, files]

theorem frame_preserves {γ : Type} {g : VirtualMemory → γ} : Preserves g (frame f) :=
  .bind .get fun _ => .ofExcept

theorem whilePinned_preserves {γ : Type} {g : VirtualMemory → γ} {t : Paging α}
    (pin : ∀ change, Preserves g (updateFrame f change)) (h : Preserves g t) :
    Preserves g (whilePinned f t) := by
  refine .bind (pin _) fun _ => .bind h.attempt fun r => .bind (pin _) fun _ => ?_
  cases r <;> exact fun _ => rfl

section

variable {γ : Type} {g : VirtualMemory → γ} [Holdings g]

theorem updateFrame_preserves (change : Frame → Frame) : Preserves g (updateFrame f change) := by
  refine .update fun v w updated => ?_
  split at updated
  · cases updated
    exact Holdings.same _ _ rfl rfl
  · cases updated

theorem freeFrame_preserves : Preserves g (freeFrame f) := by
  refine .update fun v w updated => ?_
  split at updated
  · cases updated
  · split at updated
    · cases updated
    · cases updated
      exact Holdings.same _ _ rfl rfl

theorem mapPage_preserves (writable : Bool) : Preserves g (mapPage space va pa writable) := by
  refine .bind (.modifyGet fun _ => Holdings.same _ _ rfl rfl) fun r => ?_
  cases r <;> exact fun _ => rfl

theorem onSwap_preserves (t : Swapping α) : Preserves g (onSwap t) :=
  fun _ => Holdings.same _ _ rfl rfl

end

/-- Reading and writing files concerns no descriptions. -/
theorem account_read (s : FileStore) (d : DescriptionId) (count offset : Nat) :
    (s.read d count offset).2.account = s.account := by
  unfold FileStore.read
  dsimp only
  split <;> exact FileStore.account_updateFile fun _ => ⟨rfl, rfl, rfl⟩

theorem account_write (s : FileStore) (d : DescriptionId) (bytes : Array UInt8) (offset : Nat) :
    (s.write d bytes offset).2.account = s.account := by
  unfold FileStore.write
  dsimp only
  split
  · rfl
  · exact FileStore.account_updateFile fun _ => ⟨rfl, rfl, rfl⟩

theorem filling_preserves {t : Transferring α} (h : Preserves (fun x => x.files.account) t) :
    Preserves records (filling pa t) := fun v => records_files (h ⟨v.files, v.pool.page pa⟩)

theorem fill_preserves (b : FileBacking) :
    Preserves (fun x : PageTransfer => x.files.account) b.fill :=
  .modifyGet fun x => account_read x.files b.file b.readBytes b.offset

theorem bringIn_transfer_preserves (b : FileBacking) :
    Preserves (fun x : PageTransfer => x.files.account) b.bringIn :=
  .bind (fill_preserves b) fun _ => .bind .ensure fun _ => .modify fun _ => rfl

theorem load_preserves (l : Loader) : Preserves (fun x : PageTransfer => x.files.account) l.load := by
  cases l with
  | zeroFill => exact .modify fun _ => rfl
  | segment b =>
    exact .bind (fill_preserves b) fun _ => .ite (.modify fun _ => rfl) (.bind .emit fun _ => .stop)

theorem writeBack_preserves (b : FileBacking) : Preserves records (writeBack b pa) := by
  refine .bind .gets fun bytes => fun v => records_files ?_
  have written : Preserves FileStore.account (b.writeBack bytes.toArray) := by
    refine .bind .ensure fun _ => .bind (.modifyGet fun files => account_write files _ _ _) fun _ => ?_
    exact .ite .pure (.bind .emit fun _ => .stop)
  exact written v.files

theorem setFrame_preserves (o : Option FrameId) : Preserves ledger (setFrame space va o) :=
  .modify fun _ => ledger_updatePage fun _ _ => rfl

/-- A page that refers to nothing may become another that refers to nothing. -/
theorem ledger_setKind {kind : PageKind} (none : kind.description? = none)
    (before : ∀ p, pageIn? v.spaces space va.floor = some p → p.kind.description? = Option.none) :
    VirtualMemory.ledger (setKind space va kind v).state = v.ledger := by
  have old : ((v.page? space va).bind fun p => p.kind.description?) = Option.none := by
    rw [page?_eq]
    cases page : pageIn? v.spaces space va.floor with
    | none => rfl
    | some p => exact before p page
  have state : (setKind space va kind v).state =
      { v with spaces := v.spaces.modify space fun x => x.updatePage va fun p => { p with kind } } := by
    unfold setKind updatePage
    rw [get_bind_apply, bind_apply]
    simp only [modify_apply, old, none]
    rfl
  rw [state]
  exact ledger_updatePage fun p page => none.trans (before p page).symm

theorem pageAt_ends :
    (pageAt space va).Ends v (fun p w => w = v ∧ pageIn? v.spaces space va.floor = some p)
      (fun e w => e.IsRefusal ∧ w = v) := by
  unfold pageAt pageIn?
  rw [ends_bind, ends_get]
  cases v.spaces.find? space with
  | none => exact ⟨⟨_, rfl⟩, rfl⟩
  | some a =>
    dsimp only
    rw [AddressSpace.page?]
    cases page : a.pages.find? va.floor with
    | none => exact ⟨⟨_, rfl⟩, rfl⟩
    | some p => exact ⟨rfl, page⟩

/-- An anonymous page that is put out stays anonymous. -/
theorem putOut_preserves (owner : PageRef) : Preserves ledger (putOut owner f) := by
  have removed : Preserves ledger (setFrame owner.space owner.va none) := setFrame_preserves none
  refine .bind (preserves_ledger frame_preserves) fun x => .of_ends fun v => ?_
  rw [ends_bind]
  refine pageAt_ends.mono (fun p w found => ?_) fun _ w stopped => by rw [stopped.2]
  obtain ⟨rfl, page⟩ := found
  cases kind : p.kind with
  | untouched => rfl
  | anonymous slot =>
    dsimp only
    rw [ends_bind, ends_gets, ends_bind]
    refine ((onSwap_preserves _).ends _).mono (fun s u same => ?_) fun _ _ => ledger_of_records
    have slotless : ledger (setKind owner.space owner.va (.anonymous (some s)) u).state =
        ledger u := by
      refine ledger_setKind rfl fun q there => ?_
      rw [spaces_of_records same, page] at there
      cases there
      rw [kind]
      rfl
    have rest : Preserves ledger (do
        count fun c => { c with swapOuts := c.swapOuts + 1 }
        setFrame owner.space owner.va none) := .bind (.modify fun _ => rfl) fun _ => removed
    rw [ends_bind]
    refine Ends.self.mono (fun _ u' kept => ?_) fun _ u' kept => ?_
    · refine (rest.ends u').mono (fun _ _ later => ?_) fun _ _ later => ?_ <;>
        rw [later, kept.2, slotless, ledger_of_records same]
    · rw [kept.2, slotless, ledger_of_records same]
  | file b =>
    have saved : Preserves ledger (do
        let dirty ← isDirty owner.space owner.va
        if dirty then
          writeBack b x.page
          setDirty owner.space owner.va false
          count fun c => { c with writeBacks := c.writeBacks + 1 }
        else pure ()
        setFrame owner.space owner.va none) := by
      refine .bind .gets fun _ => .ite ?_ ?_
      · exact .bind (preserves_ledger (writeBack_preserves b)) fun _ =>
          .bind (.modify fun _ => rfl) fun _ => .bind (.modify fun _ => rfl) fun _ => removed
      · exact removed
    exact saved.ends _

theorem evict_preserves : Preserves ledger evict := by
  refine .bind (.modifyGet fun _ => rfl) fun victim => ?_
  cases victim with
  | none => exact .bind .emit fun _ => .stop
  | some f =>
    refine .bind (preserves_ledger frame_preserves) fun x => ?_
    cases x.owner with
    | none => exact .stop
    | some owner =>
      refine .bind (whilePinned_preserves (fun c => preserves_ledger (updateFrame_preserves c))
        (putOut_preserves owner)) fun _ => ?_
      exact .bind (.modify fun _ => rfl) fun _ =>
        .bind (preserves_ledger (updateFrame_preserves _)) fun _ =>
          .bind (.modify fun _ => rfl) fun _ => .bind (.modify fun _ => rfl) fun _ =>
            .bind .emit fun _ => .pure

theorem obtainFrame_preserves : Preserves ledger obtainFrame := by
  refine .bind (.modifyGet fun _ => rfl) fun acquired => ?_
  cases acquired with
  | none => exact evict_preserves
  | some pa => exact .modifyGet fun _ => rfl

theorem saveChanges_preserves (part : String) (p : Page) :
    Preserves records (saveChanges part space va p) := by
  unfold saveChanges
  split
  · refine .bind .gets fun _ => .ite (.bind frame_preserves fun x => ?_) .pure
    refine .bind (writeBack_preserves _).attempt fun r => ?_
    cases r with
    | ok => exact .bind (.modify fun _ => rfl) fun _ => .pure
    | error e => exact .bind .emit fun _ => .pure
  · exact .pure

theorem copyContents_preserves (dst : PhysAddr) : Preserves records (copyContents space va dst) := by
  refine .bind (.of_ends fun v => ?_) fun p => ?_
  · exact pageAt_ends.mono (fun _ w found => by rw [found.1]) fun _ w stopped => by rw [stopped.2]
  · cases p.frame with
    | some f => exact .bind frame_preserves fun x => .bind (.modify fun _ => rfl) fun _ => .gets
    | none =>
      dsimp only
      split
      · exact .bind (onSwap_preserves _) fun _ => .bind (.modify fun _ => rfl) fun _ => .pure
      · exact .bind (filling_preserves (bringIn_transfer_preserves _)) fun _ => .pure
      · exact .pure

end

/-! ## Keeping the books in order -/

/-- Begun in `v`, the operation leaves the books in order, unless it violates a contract. -/
def Upholds {α : Type} (loan : List DescriptionId) (t : Paging α) (v : VirtualMemory) : Prop :=
  t.Ends v (fun _ w => Since loan v w) fun e w => e.IsRefusal → Since loan v w

section

variable {α β : Type} {loan : List DescriptionId} {u v w : VirtualMemory} {t : Paging α}

theorem Upholds.of_ledger (h : Books loan v) (same : Preserves ledger t) : Upholds loan t v :=
  (same.ends v).mono (fun _ _ kept => .of_ledger h kept) fun _ _ kept _ => .of_ledger h kept

theorem Upholds.of_records (h : Books loan v) (same : Preserves records t) : Upholds loan t v :=
  .of_ledger h (preserves_ledger same)

/-- What was upheld before is upheld from the beginning. -/
theorem Upholds.after (before : Since loan v u) (h : Upholds loan t u) :
    t.Ends u (fun _ w => Since loan v w) fun e w => e.IsRefusal → Since loan v w :=
  Ends.mono h (fun _ _ later => before.trans later) fun _ _ later refusal =>
    before.trans (later refusal)

theorem Upholds.bind {next : α → Paging β} (first : Upholds loan t v)
    (rest : ∀ a u, Since loan v u → Upholds loan (next a) u) : Upholds loan (t >>= next) v := by
  unfold Upholds
  rw [ends_bind]
  exact Ends.mono first (fun a u before => (rest a u before).after before) fun _ _ stopped => stopped

theorem Upholds.ite {p : Prop} [Decidable p] {t' : Paging α} (yes : p → Upholds loan t v)
    (no : ¬p → Upholds loan t' v) : Upholds loan (if p then t else t') v := by
  split
  · exact yes ‹_›
  · exact no ‹_›

theorem Upholds.pure (h : Books loan v) {a : α} : Upholds loan (pure a : Paging α) v := .refl h

theorem Upholds.refuse (h : Books loan v) {e : MemoryError} :
    Upholds loan (refuse e : Paging α) v := fun _ => .refl h

theorem Upholds.attempt (h : Upholds loan t v) : Upholds loan (attempt t) v := by
  refine Ends.attempt (Ends.mono h (fun _ _ kept => kept) fun e w stopped => ?_)
  cases e with
  | refused e => exact stopped ⟨e, rfl⟩
  | violated x => exact stopped

theorem Upholds.rethrow (h : Books loan v) (r : Except MemoryError α) :
    Upholds loan (rethrow r : Paging α) v := by
  cases r with
  | ok a => exact .refl h
  | error e => exact fun _ => .refl h

theorem Upholds.whilePinned (h : Books loan v) {f : FrameId}
    (acts : ∀ u, Since loan v u → Upholds loan t u) : Upholds loan (whilePinned f t) v :=
  .bind (.of_records h (updateFrame_preserves _)) fun _ u pinned =>
    .bind (acts u pinned).attempt fun r _ acted =>
      .bind (.of_records acted.books (updateFrame_preserves _)) fun _ _ freed => .rethrow freed.books r

theorem Upholds.forRange {act : Nat → Paging Unit} {first count : Nat} (h : Books loan v)
    (each : ∀ i u, Since loan v u → Upholds loan (act i) u) :
    Upholds loan (forRange act first count) v :=
  ends_forRange (I := fun _ _ u => Since loan v u)
    (fun i _ u before => (each i u before).after before) (.refl h)

end

/-! ## Pages that refer to something else -/

section

variable {loan : List DescriptionId} {v : VirtualMemory} {space : SpaceId} {va : VirtAddr}

/-- What a page is to refer to is held by somebody already. -/
def Held (v : VirtualMemory) (o : Option DescriptionId) : Prop :=
  ∀ d, o = some d → 0 < v.files.holders d

@[simp] theorem held_none : Held v none := nofun

theorem Books.held_of_page (h : Books loan v) {p : Page} {s : SpaceId} {a : VirtAddr}
    (page : pageIn? v.spaces s a = some p) : Held v p.kind.description? := fun _ description =>
  h.holders_pos (mem_references.mpr (.inr (.inl ⟨s, a, p, page, description⟩)))

theorem setKind_upholds (h : Books loan v) {p : Page} {kind : PageKind}
    (page : pageIn? v.spaces space va.floor = some p) (live : Held v kind.description?) :
    Upholds loan (setKind space va kind) v := by
  unfold Upholds setKind updatePage
  simp only [ends_bind, ends_get, ends_modify]
  rw [page?_eq, page, Option.bind_some]
  refine ⟨.exchange h _ _ live fun d => count_updatePage page _ d, fun s => ?_⟩
  dsimp only
  rw [Table.find?_modify]
  split
  · rw [Option.map_map]
    rfl
  · rfl

/-- The page is there, and the others are as they were. -/
structure PageEntered (v : VirtualMemory) (space : SpaceId) (va : VirtAddr) (p : Page)
    (w : VirtualMemory) : Prop where
  aligned : va.isAligned = true
  page : ∀ s a, pageIn? w.spaces s a = if s = space ∧ a = va then some p else pageIn? v.spaces s a

theorem enterPage_upholds (h : Books loan v) {p : Page} (live : Held v p.kind.description?) :
    (enterPage space va p).Ends v (fun _ w => Since loan v w ∧ PageEntered v space va p w)
      fun e w => e.IsRefusal → Since loan v w := by
  unfold enterPage
  cases found : v.spaces.find? space with
  | none =>
    rw [ends_update_of_error (by rw [found])]
    exact fun _ => .refl h
  | some x =>
    rcases insertPage_cases x va p with ⟨bad, -⟩ | ⟨refused, -, -⟩ | ⟨entered, aligned, absent⟩
    · rw [ends_update_of_error (by rw [found]; simp only [bad]; rfl)]
      exact fun _ => .refl h
    · rw [ends_update_of_error (by rw [found]; simp only [refused]; rfl)]
      exact fun _ => .refl h
    · rw [ends_update_of_ok (by rw [found]; simp only [entered]; rfl)]
      refine ⟨⟨.exchange h _ none live fun d => ?_, fun s => ?_⟩, aligned, fun s a => ?_⟩
      · exact count_insertPage found absent p d
      · dsimp only
        rw [Table.find?_insert]
        split
        · rename_i here
          rw [here, found]
          rfl
        · rfl
      · dsimp only
        rw [pageIn?_insert]
        by_cases here : s = space
        · subst here
          simp only [true_and, Table.find?_insert, if_true, pageIn?_of_find found]
        · rw [if_neg here, if_neg fun both => here both.1]

theorem dropPage_upholds (h : Books loan v) : Upholds loan (dropPage space va) v := by
  unfold Upholds dropPage
  rw [ends_modify, page?_eq]
  refine ⟨.exchange h none _ held_none fun d => ?_, fun s => ?_⟩
  · rw [FileStore.share_none, Nat.add_zero]
    exact count_removePage d
  · dsimp only
    rw [Table.find?_modify]
    split
    · rw [Option.map_map]
      rfl
    · rfl

/-! ## Regions that come and go -/

theorem enterRegion_kept (h : Books loan v) (alive : (v.spaces.find? space).isSome = true)
    {start : VirtAddr} {r : Region} (live : Held v (some r.file)) {E : Stop → VirtualMemory → Prop} :
    (enterRegion space start r).Ends v (fun _ w => Kept loan v w) E := by
  unfold enterRegion
  rw [ends_modify, region?_eq]
  exact .exchange h (some r.file) _ live fun d => count_insertRegion alive r d

theorem dropRegion_kept (h : Books loan v) {start : VirtAddr} {E : Stop → VirtualMemory → Prop} :
    (dropRegion space start).Ends v (fun _ w => Kept loan v w) E := by
  unfold dropRegion
  rw [ends_modify, region?_eq]
  refine .exchange h none _ held_none fun d => ?_
  rw [FileStore.share_none, Nat.add_zero]
  exact count_removeRegion d

end

end KernelCore.VirtualMemory
