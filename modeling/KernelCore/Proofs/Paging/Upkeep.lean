import KernelCore.Proofs.Paging.Bookkeeping
import KernelCore.Proofs.Paging.Serving

/-!
# The books through every operation

What brings pages into memory, enters them, takes them away and copies them leaves the books in
order. A copy of a page refers to what the page refers to, and a mapping opens one description, which
it lends its pages until its region is there to hold it.
-/
namespace KernelCore.VirtualMemory

open Transition

section

variable {loan : List DescriptionId} {u v w : VirtualMemory} {space : SpaceId} {va a : VirtAddr}

theorem Books.of_records (h : Books loan v) (same : w.records = v.records) : Books loan w :=
  (Since.of_ledger h (ledger_of_records same)).books

/-- What follows steps that change no records. -/
theorem Upholds.after_records {α β : Type} {t : Paging α} {next : α → Paging β} (h : Books loan v)
    (first : Preserves records t)
    (rest : ∀ a u, u.records = v.records → Upholds loan (next a) u) :
    Upholds loan (t >>= next) v := by
  unfold Upholds
  rw [ends_bind]
  refine (first.ends v).mono (fun a u same => ?_) fun _ u same _ =>
    .of_ledger h (ledger_of_records same)
  exact (rest a u same).after (.of_ledger h (ledger_of_records same))

/-! ## Bringing pages into memory -/

section

variable {p : Page} (kind : PageKind) (h : Books loan v)
  (page : pageIn? v.spaces space va.floor = some p)
  (less : ∀ d, kind.description? = some d → p.kind.description? = some d)

include h page less

/-- A page refers afterwards to nothing, or to what it referred to before. -/
theorem setKind_upholds_of_less (same : u.records = v.records) :
    Upholds loan (setKind space va kind) u := by
  have there : pageIn? u.spaces space va.floor = some p := by rwa [spaces_of_records same]
  have books := h.of_records same
  exact setKind_upholds books there fun d refers => books.held_of_page there d (less d refers)

theorem mapAs_upholds (pa : PhysAddr) (same : u.records = v.records) :
    Upholds loan (mapPage space va pa p.writable >>= fun _ => setKind space va kind) u :=
  .after_records (h.of_records same) (mapPage_preserves p.writable) fun _ _ same' =>
    setKind_upholds_of_less _ h page less (same'.trans same)

end

theorem bringIn_upholds (h : Books loan v) (pa : PhysAddr) :
    Upholds loan (bringIn space va pa) v := by
  unfold Upholds bringIn
  rw [ends_bind]
  refine pageAt_ends.mono (fun p w found => ?_) fun e w stopped _ => ?_
  · obtain ⟨rfl, page⟩ := found
    cases kind : p.kind with
    | untouched target loader =>
      refine Upholds.after_records h (filling_preserves (load_preserves loader)) fun _ u same => ?_
      cases target with
      | anonymous => exact mapAs_upholds (.anonymous none) h page (fun _ => nofun) pa same
      | file =>
        cases loader with
        | zeroFill => exact .refuse (h.of_records same)
        | segment b =>
          refine mapAs_upholds (.file b) h page (fun d refers => ?_) pa same
          rw [kind]
          exact refers
    | anonymous slot =>
      have settled : ∀ u, u.records = w.records → Upholds loan (do
          onSwap (SwapArea.release slot)
          setKind space va (.anonymous none)) u := fun u same =>
        .after_records (h.of_records same) (onSwap_preserves _) fun _ _ same' =>
          setKind_upholds_of_less _ h page (fun _ => nofun) (same'.trans same)
      refine Upholds.after_records h (onSwap_preserves _) fun bytes u same => ?_
      refine .after_records (h.of_records same) (.modify fun _ => rfl) fun _ u' same' => ?_
      refine .after_records (h.of_records (same'.trans same)) (mapPage_preserves _)
        fun _ u'' same'' => ?_
      have there := same''.trans (same'.trans same)
      refine .ite (fun _ => ?_) fun _ => settled u'' there
      exact .after_records (h.of_records there) (.modify fun _ => rfl) fun _ _ counted =>
        settled _ (counted.trans there)
    | file b =>
      have filled : Preserves records (do
          filling pa b.bringIn
          mapPage space va pa p.writable) :=
        .bind (filling_preserves (bringIn_transfer_preserves b)) fun _ => mapPage_preserves _
      exact Upholds.of_records h filled
  · obtain ⟨-, rfl⟩ := stopped
    exact .refl h

theorem install_upholds (h : Books loan v) (f : FrameId) : Upholds loan (install space va f) v := by
  refine .bind (.of_records h frame_preserves) fun x u found => ?_
  refine .bind (.of_records found.books (updateFrame_preserves _)) fun _ u owned => ?_
  have acts : Upholds loan (whilePinned f (do
      bringIn space va x.page
      setFrame space va (some f))) u :=
    .whilePinned owned.books fun _ pinned => .bind (bringIn_upholds pinned.books _) fun _ _ there =>
      .of_ledger there.books (setFrame_preserves _)
  refine .bind acts.attempt fun r u acted => ?_
  cases r with
  | ok => exact .pure acted.books
  | error e =>
    exact .of_ledger acted.books (.bind (setFrame_preserves _) fun _ =>
      .bind (preserves_ledger freeFrame_preserves) fun _ => .bind .emit fun _ => .stop)

theorem claim_upholds (h : Books loan v) : Upholds loan (claim space va) v := by
  unfold Upholds claim
  rw [ends_bind, ends_get]
  split
  · exact Upholds.refuse h
  · exact Upholds.ite (fun _ => .pure h) fun _ =>
      .bind (.of_ledger h obtainFrame_preserves) fun f _ got => install_upholds got.books f

/-! ## Giving pages to a space -/

theorem allocateLazy_enters (h : Books loan v) (writable : Bool) (target : PageType)
    {loader : Loader} (live : Held v (loader.backing?.map FileBacking.file)) :
    (allocateLazy space va writable target loader).Ends v
      (fun _ w => Since loan v w ∧ PageEntered v space va (.fresh writable target loader) w)
      fun e w => e.IsRefusal → Since loan v w := by
  unfold allocateLazy
  rw [ends_bind, ends_ensure]
  refine ⟨fun _ => ?_, fun _ _ => .refl h⟩
  rw [ends_bind, ends_ensure]
  exact ⟨fun _ => enterPage_upholds h live, fun _ _ => .refl h⟩

theorem allocateLazy_upholds (h : Books loan v) (writable : Bool) (target : PageType)
    {loader : Loader} (live : Held v (loader.backing?.map FileBacking.file)) :
    Upholds loan (allocateLazy space va writable target loader) v :=
  (allocateLazy_enters h writable target live).imp fun _ _ entered => entered.1

theorem allocateAnonymous_upholds (h : Books loan v) (writable : Bool) :
    Upholds loan (allocateAnonymous space va writable) v :=
  allocateLazy_upholds h writable .anonymous held_none

theorem setupStack_upholds (h : Books loan v) : Upholds loan (setupStack space) v :=
  .bind (allocateAnonymous_upholds h true) fun _ _ entered =>
    .bind (claim_upholds entered.books) fun _ _ claimed => .pure claimed.books

/-- The creator of the file holds its description all along. -/
theorem loadSegment_upholds (h : Books loan v) {f : FileId} {d : DescriptionId}
    (held : (v.files.file f).handle = some d) (offset : Nat) (start : VirtAddr)
    (readBytes zeroBytes : Nat) (writable : Bool) :
    Upholds loan (loadSegment space d offset start readBytes zeroBytes writable) v := by
  refine .after_records h .ofExcept fun length u same => ?_
  have begun : Since loan v u := .of_ledger h (ledger_of_records same)
  refine Upholds.after_records begun.books .ensure fun _ u' same' => ?_
  have before : Since loan v u' := begun.trans (.of_ledger begun.books (ledger_of_records same'))
  refine .forRange before.books fun i t since => ?_
  unfold Upholds
  rw [ends_bind, ends_checked]
  refine ⟨fun b stretch => ?_, fun _ _ => not_isRefusal_violated.elim⟩
  rw [ends_bind, ends_checked]
  refine ⟨fun va _ => ?_, fun _ _ => not_isRefusal_violated.elim⟩
  refine allocateLazy_upholds since.books writable .anonymous fun e refers => ?_
  obtain rfl := Option.some.inj refers
  rw [(FileBacking.ofStretch_eq stretch).1]
  exact (before.trans since).holders_pos held

/-! ## Faults and accesses -/

theorem growUpwards_upholds (count : Nat) (va : VirtAddr) (h : Books loan v) :
    Upholds loan (growUpwards space count va) v := by
  induction count generalizing va v with
  | zero => exact .pure h
  | succ count ih =>
    unfold Upholds growUpwards
    rw [ends_bind, ends_get]
    refine Upholds.ite (fun _ => .pure h) fun _ => ?_
    exact .bind (allocateAnonymous_upholds h true) fun _ _ entered =>
      .bind (claim_upholds entered.books) fun _ _ claimed =>
        .bind (ih _ claimed.books) fun _ _ grown => .pure grown.books

theorem growStack_upholds (h : Books loan v) : Upholds loan (growStack space a) v :=
  .bind (growUpwards_upholds _ _ h) fun _ _ grown => .of_records grown.books .emit

theorem handleFault_upholds (h : Books loan v) (flags : FaultFlags) (pointer : Nat) :
    Upholds loan (handleFault space a flags pointer) v := by
  refine .bind (.of_records h (.modify fun _ => rfl)) fun _ u₁ begun => ?_
  refine .bind (.of_records begun.books .ensure) fun _ u₂ present => ?_
  refine .bind (.of_records present.books .ensure) fun _ u₃ user => ?_
  refine .bind (.of_records user.books .ensure) fun _ u₄ missing => ?_
  unfold Upholds
  rw [ends_bind, ends_get]
  split
  · exact Upholds.refuse missing.books
  · split
    · exact Upholds.ite (fun _ => growStack_upholds missing.books) fun _ => .refuse missing.books
    · exact Upholds.bind (.of_records missing.books .ensure) fun _ _ allowed =>
        .ite (fun _ => .pure allowed.books) fun _ => claim_upholds allowed.books

theorem tryAccess_upholds (h : Books loan v) (write : Bool) :
    Upholds loan (tryAccess space a write) v := by
  unfold Upholds tryAccess
  rw [ends_bind, ends_get]
  split
  · refine Upholds.ite (fun _ => ?_) fun _ => ?_
    · exact .bind (handleFault_upholds h _ _) fun _ _ served => .pure served.books
    · exact .of_records h (.bind (.modify fun _ => rfl) fun _ => .pure)
  · exact Upholds.bind (handleFault_upholds h _ _) fun _ _ served => .pure served.books

theorem access_upholds (h : Books loan v) (write : Bool) :
    Upholds loan (access space a write) v :=
  .bind (tryAccess_upholds h write) fun _ _ tried =>
    .ite (fun _ => .pure tried.books) fun _ => tryAccess_upholds tried.books write

theorem load_upholds (h : Books loan v) (length : Nat) : Upholds loan (load space a length) v := by
  induction length using Nat.strongRecOn generalizing v a with
  | ind length ih =>
    rw [load]
    by_cases empty : length = 0
    · rw [dif_pos empty]
      exact .pure h
    · rw [dif_neg empty]
      refine .bind (.bind (access_upholds h false) fun _ _ accessed =>
        .of_records accessed.books .gets) fun page u found => ?_
      cases page with
      | none => exact .pure found.books
      | some page =>
        have fewer : length - bytesInPage a length < length := by
          have := bytesInPage_pos a empty
          omega
        exact .bind (ih _ fewer found.books) fun _ _ rest => .pure rest.books

theorem storeFrom_upholds (h : Books loan v) (bytes : Array UInt8) (done : Nat) :
    Upholds loan (storeFrom space a bytes done) v := by
  generalize left : bytes.size - done = remaining
  induction remaining using Nat.strongRecOn generalizing v a done with
  | ind remaining ih =>
    rw [storeFrom]
    by_cases empty : bytes.size - done = 0
    · rw [dif_pos empty]
      exact .pure h
    · rw [dif_neg empty]
      refine .bind (.bind (access_upholds h true) fun _ _ accessed =>
        .of_records accessed.books .gets) fun target u found => ?_
      cases target with
      | none => exact .pure found.books
      | some pa =>
        refine .bind (.of_records found.books (.modify fun _ => rfl)) fun _ _ stored => ?_
        have fewer : bytes.size - (done + bytesInPage a (bytes.size - done)) < remaining := by
          have := bytesInPage_pos a empty
          omega
        exact ih _ fewer stored.books _ rfl

/-! ## Taking pages away -/

theorem discardPage_upholds (h : Books loan v) (part : String) (slots : Bool) :
    Upholds loan (discardPage part slots space va) v := by
  unfold Upholds discardPage
  rw [ends_bind, ends_get]
  split
  · exact Upholds.pure h
  · rename_i p _
    refine Upholds.bind (.of_records h (saveChanges_preserves part p)) fun saved u since => ?_
    have dropped : ∀ u, Books loan u → Upholds loan (do
        dropPage space va
        pure (⟨p.isResident.toNat, saved.toNat⟩ : Discarded)) u := fun u books =>
      .bind (dropPage_upholds books) fun _ _ gone => .pure gone.books
    split
    · exact .bind (.of_records since.books (.modify fun _ => rfl)) fun _ _ unmapped =>
        .bind (.of_records unmapped.books freeFrame_preserves) fun _ _ freed => dropped _ freed.books
    · exact .ite (fun _ => .bind (.of_records since.books (onSwap_preserves _)) fun _ _ released =>
        dropped _ released.books) fun _ => dropped _ since.books

theorem discardPages_upholds (h : Books loan v) (part : String) (slots : Bool)
    (vas : List VirtAddr) : Upholds loan (discardPages part slots space vas) v := by
  induction vas generalizing v with
  | nil => exact .pure h
  | cons va rest ih =>
    exact .bind (discardPage_upholds h part slots) fun _ _ first =>
      .bind (ih first.books) fun _ _ others => .pure others.books

theorem unmapFile_kept (h : Books loan v) {start : VirtAddr} :
    (unmapFile space start).Ends v (fun _ w => Kept loan v w)
      fun e w => e.IsRefusal → Kept loan v w := by
  unfold unmapFile
  rw [ends_bind, ends_get]
  split
  · exact fun _ => .refl h
  · split
    · exact fun _ => .refl h
    · rw [ends_bind]
      refine Ends.mono (discardPages_upholds h "mmap" false _) (fun d u since => ?_)
        fun _ _ stopped refusal => (stopped refusal).kept
      rw [ends_bind]
      refine (dropRegion_kept since.books).imp fun _ w dropped => ?_
      rw [ends_emit]
      exact since.kept.trans dropped

theorem dropRegions_kept (h : Books loan v) (starts : List VirtAddr)
    {E : Stop → VirtualMemory → Prop} :
    (forAll (dropRegion space) starts).Ends v (fun _ w => Kept loan v w) E :=
  ends_forAll (I := fun _ u => Kept loan v u)
    (fun _ _ _ before => (dropRegion_kept before.books).imp fun _ _ later => before.trans later)
    (.refl h)

/-- A space goes when nothing is left in it. -/
theorem destroySpace_kept (coherent : Coherent v none) (h : Books loan v) :
    (destroySpace space).Ends v (fun _ w => Kept loan v w)
      fun e w => e.IsRefusal → Kept loan v w := by
  unfold destroySpace
  rw [ends_bind, ends_get]
  cases found : v.spaces.find? space with
  | none => exact fun _ => .refl h
  | some x =>
    dsimp only
    rw [ends_bind]
    have aligned : ∀ a ∈ x.pages.keys, a.isAligned = true := by
      intro a key
      obtain ⟨p, hp⟩ := Option.isSome_iff_exists.mp (Table.contains_iff.mpr key)
      exact coherent.aligned ((pageIn?_of_find found).trans hp)
    have discarded : (discardPages "vm" true space x.pages.keys).Ends v
        (fun _ w => Dropped v space (· ∈ x.pages.keys) w) fun _ _ => True :=
      discardPages_ends "vm" true coherent aligned (by simp)
    refine (Ends.and (discardPages_upholds h "vm" true _) discarded).mono (fun d u both => ?_)
      fun _ _ stopped refusal => (stopped.1 refusal).kept
    obtain ⟨since, dropped⟩ := both
    rw [ends_bind]
    refine ((dropRegions_kept since.books _).and (dropRegions_ends (E := fun _ _ => True) _)).mono
      (fun _ u' both => ?_) fun _ _ stopped => stopped.1
    obtain ⟨kept, only, without, -⟩ := both
    rw [ends_bind, ends_modify, ends_emit]
    have pages : ∀ a, pageIn? u'.spaces space a = none := fun a => by
      rw [only.pages, absent_of_keys found dropped]
    have regions : ∀ a, regionIn? u'.spaces space a = none := by
      intro a
      rw [without]
      split
      · rfl
      · rename_i other
        rw [dropped.regions, regionIn?, found, Option.bind_some]
        exact Option.not_isSome_iff_eq_none.mp fun c => other (Table.contains_iff.mp c)
    have erased : Kept loan u' { u' with spaces := u'.spaces.erase space } :=
      .of_count kept.books (count_erase pages regions)
    exact ((since.kept.trans kept).trans erased).trans (.of_ledger erased.books rfl)

theorem createSpace_kept (coherent : Coherent v none) (h : Books loan v) :
    createSpace.Ends v (fun _ w => Kept loan v w) fun _ w => Kept loan v w := by
  unfold createSpace
  rw [ends_bind, ends_get, ends_bind, ends_ensure]
  refine ⟨fun _ => ?_, fun _ => .of_ledger h rfl⟩
  rw [ends_bind, ends_modify, ends_bind, ends_emit, ends_pure]
  have created : Kept loan v { v with spaces := v.spaces.insert ⟨v.nextSpace⟩ .empty } :=
    .of_count h (count_insert_empty coherent.find?_next)
  exact created.trans (.of_ledger created.books rfl)

/-! ## Copying spaces -/

section

variable {parent child : SpaceId} {p : Page}

theorem PageEntered.refers (h : PageEntered v space va p w) (s : SpaceId) (a : VirtAddr) :
    VirtualMemory.refers w.spaces s a =
      if s = space ∧ a = va then p.kind.description? else VirtualMemory.refers v.spaces s a := by
  unfold VirtualMemory.refers
  rw [h.page]
  split <;> rfl

theorem copyAtOnce_enters (h : Books loan v) (live : Held v p.kind.description?) :
    (copyAtOnce parent child va p).Ends v
      (fun _ w => Since loan v w ∧ va.isAligned = true ∧ ∀ s a, refers w.spaces s a =
        if s = child ∧ a = va then p.kind.description? else refers v.spaces s a)
      fun e w => e.IsRefusal → Since loan v w := by
  unfold copyAtOnce
  rw [ends_bind]
  refine (enterPage_upholds h live).mono (fun _ u both => ?_) fun _ _ stopped => stopped
  obtain ⟨since, entered⟩ := both
  -- What follows concerns no references, however it ends.
  refine Ends.mono (Preserves.ends (f := ledger) ?_ u) (fun _ w same => ?_) fun _ w same _ => ?_
  · refine .bind obtainFrame_preserves fun f => ?_
    refine .bind (preserves_ledger (updateFrame_preserves _)) fun _ => ?_
    refine .bind (preserves_ledger frame_preserves) fun x => ?_
    have copied : Preserves records (do
        let dirty ← copyContents parent va x.page
        mapPage child va x.page p.writable
        pure dirty) :=
      .bind (copyContents_preserves _) fun _ => .bind (mapPage_preserves _) fun _ => .pure
    refine .bind (preserves_ledger copied).attempt fun r => ?_
    cases r with
    | error e => exact .bind (preserves_ledger freeFrame_preserves) fun _ => .stop
    | ok dirty =>
      exact .ite (.bind (.modify fun _ => rfl) fun _ => setFrame_preserves _) (setFrame_preserves _)
  · refine ⟨since.trans (.of_ledger since.books same), entered.aligned, fun s a => ?_⟩
    rw [refers_of_ledger same, entered.refers]
  · exact since.trans (.of_ledger since.books same)

/-- The copy of a page refers to what the page refers to. -/
theorem duplicatePage_enters (h : Books loan v) :
    (duplicatePage parent child va).Ends v
      (fun _ w => Since loan v w ∧ ∀ s a, refers w.spaces s a =
        if s = child ∧ a = va then refers v.spaces parent va else refers v.spaces s a)
      fun e w => e.IsRefusal → Since loan v w := by
  unfold duplicatePage
  rw [ends_bind, ends_get, page?_eq]
  cases page : pageIn? v.spaces parent va.floor with
  | none => exact fun _ => .refl h
  | some p =>
    have live := h.held_of_page page
    have source : va.isAligned = true → refers v.spaces parent va = p.kind.description? := by
      intro aligned
      rw [VirtAddr.floor_of_isAligned aligned] at page
      unfold refers
      rw [page, Option.bind_some]
    have lazily : ∀ target loader, p.kind.description? = loader.backing?.map FileBacking.file →
        (allocateLazy child va p.writable target loader).Ends v
          (fun _ w => Since loan v w ∧ ∀ s a, refers w.spaces s a =
            if s = child ∧ a = va then refers v.spaces parent va else refers v.spaces s a)
          fun e w => e.IsRefusal → Since loan v w := by
      intro target loader same
      refine (allocateLazy_enters h p.writable target (same ▸ live)).imp fun _ w both => ?_
      obtain ⟨since, entered⟩ := both
      refine ⟨since, fun s a => ?_⟩
      rw [entered.refers, source entered.aligned, same]
      rfl
    have atOnce : ∀ kind : PageKind, p.kind.description? = kind.description? →
        (copyAtOnce parent child va ⟨p.writable, none, kind⟩).Ends v
          (fun _ w => Since loan v w ∧ ∀ s a, refers w.spaces s a =
            if s = child ∧ a = va then refers v.spaces parent va else refers v.spaces s a)
          fun e w => e.IsRefusal → Since loan v w := by
      intro kind same
      refine (copyAtOnce_enters h (p := ⟨p.writable, none, kind⟩) (same ▸ live)).imp
        fun _ w both => ?_
      obtain ⟨since, aligned, all⟩ := both
      refine ⟨since, fun s a => ?_⟩
      rw [all, source aligned, same]
    dsimp only
    unfold copyPlan
    cases kind : p.kind with
    | untouched target loader => exact lazily target loader (by rw [kind]; rfl)
    | anonymous slot =>
      dsimp only
      split
      · rename_i plan
        split at plan <;> cases plan
        exact lazily .anonymous .zeroFill (by rw [kind]; rfl)
      · rename_i plan
        split at plan <;> cases plan
        exact atOnce (.anonymous none) (by rw [kind]; rfl)
    | file b =>
      dsimp only
      split
      · rename_i plan
        split at plan <;> cases plan
        exact lazily .file (.segment b) (by rw [kind]; rfl)
      · rename_i plan
        split at plan <;> cases plan
        exact atOnce (.file b) (by rw [kind])

/-- Copying pages, each to where there is none. -/
theorem duplicatePages_enter (h : Books loan v) (keys : List VirtAddr) :
    (forAll (duplicatePage parent child) keys).Ends v
      (fun _ w => Since loan v w ∧ ∀ a ∈ keys, refers w.spaces child a = refers v.spaces parent a)
      fun e w => e.IsRefusal → Since loan v w := by
  refine (ends_forAll (I := fun rest u => Since loan v u ∧
    (∀ a, refers u.spaces parent a = refers v.spaces parent a) ∧
      ∀ a ∈ keys, a ∈ rest ∨ refers u.spaces child a = refers v.spaces parent a)
    (fun va rest u so_far => ?_) ⟨.refl h, fun _ => rfl, fun _ mem => .inl mem⟩).imp
    fun _ w all => ?_
  · obtain ⟨since, source, copied⟩ := so_far
    refine (duplicatePage_enters since.books).mono (fun _ w next => ?_)
      fun _ _ stopped refusal => since.trans (stopped refusal)
    obtain ⟨later, all⟩ := next
    refine ⟨since.trans later, fun a => ?_, fun a mem => ?_⟩
    · rw [all]
      split
      · rename_i here
        rw [here.2, source]
      · exact source a
    · rw [all]
      rcases copied a mem with todo | done
      · rcases List.mem_cons.mp todo with rfl | later
        · rw [if_pos ⟨rfl, rfl⟩, source]
          exact .inr rfl
        · exact .inl later
      · split
        · rename_i here
          rw [← here.2, source]
          exact .inr rfl
        · exact .inr done
  · exact ⟨all.1, fun a mem => (all.2.2 a mem).resolve_left List.not_mem_nil⟩

/-- Entering regions of a space in another, or in the same again. -/
theorem enterRegions_kept (parent : SpaceId) (h : Books loan v) (alive : (v.spaces.find? child).isSome = true)
    {rs : List (VirtAddr × Region)}
    (source : ∀ x ∈ rs, regionIn? v.spaces parent x.1 = some x.2)
    {E : Stop → VirtualMemory → Prop} :
    (forAll (fun x => enterRegion child x.1 x.2) rs).Ends v
      (fun _ w => Kept loan v w ∧ ∀ s a, refers w.spaces s a = refers v.spaces s a) E := by
  refine (ends_forAll (I := fun rest u => Kept loan v u ∧
    (∀ s a, refers u.spaces s a = refers v.spaces s a) ∧ (u.spaces.find? child).isSome = true ∧
      ∀ x ∈ rest, x ∈ rs ∧ regionIn? u.spaces parent x.1 = some x.2) (fun x rest u so_far => ?_)
    ⟨.refl h, fun _ _ => rfl, alive, fun x mem => ⟨mem, source x mem⟩⟩).imp
    fun _ _ all => ⟨all.1, all.2.1⟩
  obtain ⟨kept, pages, alive, regions⟩ := so_far
  obtain ⟨mem, here⟩ := regions x List.mem_cons_self
  have live : Held u (some x.2.file) := fun d refers =>
    kept.books.holders_pos (mem_references.mpr (.inr (.inr ⟨parent, x.1, x.2, here,
      Option.some.inj refers⟩)))
  refine ((enterRegion_kept kept.books alive live).and
    (enterRegion_ends (E := E) alive x.1 x.2)).mono (fun _ w both => ?_) fun _ _ stopped => stopped.1
  obtain ⟨later, only, entered⟩ := both
  refine ⟨kept.trans later, fun s a => ?_, (only.live child).trans alive, fun y hy => ?_⟩
  · rw [← pages, refers, only.pages, refers]
  · obtain ⟨known, there⟩ := regions y (List.mem_cons_of_mem x hy)
    refine ⟨known, ?_⟩
    rw [entered]
    split
    · -- The space is entered into itself, where it has that region already.
      rename_i same
      rw [same.2, here] at there
      exact there
    · exact there

theorem duplicateSpace_kept (h : Books loan v) :
    (duplicateSpace parent child).Ends v
      (fun _ w => Kept loan v w ∧ ∀ a p, pageIn? v.spaces parent a = some p →
        refers w.spaces child a = p.kind.description?)
      fun e w => e.IsRefusal → Kept loan v w := by
  unfold duplicateSpace
  rw [ends_bind, ends_get]
  cases live : v.spaces.find? child with
  | none => exact fun _ => .refl h
  | some y =>
    cases found : v.spaces.find? parent with
    | none => exact fun _ => .refl h
    | some x =>
      dsimp only
      rw [ends_bind]
      refine (duplicatePages_enter h x.pages.keys).mono (fun _ u both => ?_)
        fun _ _ stopped refusal => (stopped refusal).kept
      obtain ⟨since, copied⟩ := both
      have alive : (u.spaces.find? child).isSome = true := by
        rw [since.isSome_find, live, Option.isSome_some]
      rw [ends_bind]
      refine (enterRegions_kept parent since.books alive fun z mem => ?_).imp
        fun _ w both => ?_
      · rw [since.regionIn?, regionIn?, found, Option.bind_some]
        exact Table.find?_eq_some_iff.mpr mem
      · obtain ⟨kept, pages⟩ := both
        rw [ends_emit]
        refine ⟨since.kept.trans kept, fun a p page => ?_⟩
        rw [pages]
        rw [pageIn?_of_find found] at page
        have key : a ∈ x.pages.keys := Table.contains_iff.mp (by
          rw [Table.contains, page, Option.isSome_some])
        rw [copied a key, refers, pageIn?_of_find found, page, Option.bind_some]

end

/-! ## Opening descriptions -/

/-- From `v` to `w` descriptions of the files `new` were opened, which are held, and of those there
were before none that was closed came back. -/
structure Turnover (new : List FileId) (v w : VirtualMemory) : Prop where
  books : Books [] w
  opened : w.files.image.opened = v.files.image.opened ++ new
  closed : ∀ d ∈ v.files.ids, v.files.holders d = 0 → w.files.holders d = 0
  fresh : ∀ d ∈ w.files.ids, d ∉ v.files.ids → 0 < w.files.holders d

theorem Kept.turnover (h : Kept [] v w) : Turnover [] v w where
  books := h.books
  opened := by rw [h.opened, List.append_nil]
  closed d _ none := h.closed d none
  fresh d known unknown := by
    rw [FileStore.ids_of_opened h.opened] at known
    exact absurd known unknown

theorem Books.holders_pos_of_loan {d : DescriptionId} (h : Books [d] v) :
    0 < v.files.holders d := by
  rw [h.held, List.count_singleton_self]
  omega

/-- A file was opened afresh, for somebody who is to refer to the description. -/
theorem Books.opens {f : FileId} {files : FileStore} (h : Books [] v) (opens : v.files.Opens f files)
    (handles : files.handles = v.files.handles) :
    Books [⟨v.files.descriptions.length⟩] { v with files } where
  tallied := opens.tallied h.tallied
  held d := by
    have before := h.held d
    rw [count_references, List.count_nil] at before
    rw [count_references]
    dsimp only
    rw [opens.holders, handles, before, FileStore.count_singleton_eq_share]
    omega

/-- Whoever borrowed a description lets go of it. -/
theorem Books.repay {d : DescriptionId} (h : Books [d] v) :
    Books [] { v with files := v.files.release d } where
  tallied := h.tallied.release d
  held e := by
    have before := h.held e
    rw [count_references, FileStore.count_singleton_eq_share] at before
    rw [count_references]
    dsimp only
    rw [FileStore.holders_release, FileStore.handles_release, List.count_nil]
    omega

/-- The description of a mapping is on loan to its pages before its region holds it. -/
theorem mapPages_uphold {own : DescriptionId} {start : VirtAddr} {offset covered count : Nat}
    {writable : Bool} (h : Books [own] v) :
    Upholds [own] (forRange
      (fun i => do
        let b ← checked (FileBacking.ofStretch own offset covered i)
        let va ← checked (start.addPages i)
        enterPage space va (.fresh writable .file (.segment b)))
      0 count : Paging Unit) v := by
  refine .forRange h fun i u since => ?_
  unfold Upholds
  rw [ends_bind, ends_checked]
  refine ⟨fun b stretch => ?_, fun _ _ => not_isRefusal_violated.elim⟩
  rw [ends_bind, ends_checked]
  refine ⟨fun va _ => ?_, fun _ _ => not_isRefusal_violated.elim⟩
  refine (enterPage_upholds since.books fun d refers => ?_).imp fun _ _ both => both.1
  obtain rfl := Option.some.inj refers
  rw [(FileBacking.ofStretch_eq stretch).1]
  exact since.books.holders_pos_of_loan

/-- What was opened is handed back by whoever borrowed it when somebody refers to it. -/
theorem Turnover.of_loan {files : FileStore} {f : FileId}
    (opens : FileStore.Opens v.files f files)
    (kept : Kept [⟨v.files.descriptions.length⟩] { v with files } w)
    (referred : (⟨v.files.descriptions.length⟩ : DescriptionId) ∈ w.references) :
    Turnover [f] v { w with files := w.files.release ⟨v.files.descriptions.length⟩ } := by
  have opened : (w.files.release ⟨v.files.descriptions.length⟩).image.opened = files.image.opened :=
    (congrArg FileImage.opened FileStore.image_release).trans kept.opened
  have same : ({ w with files := w.files.release ⟨v.files.descriptions.length⟩ } :
      VirtualMemory).references = w.references :=
    congrArg (· ++ inSpaces w.spaces) FileStore.handles_release
  have books := kept.books.repay
  constructor
  case books => exact books
  case opened => exact opened.trans opens.image_opened
  case closed =>
    intro d known none
    have other : d ≠ ⟨v.files.descriptions.length⟩ := by
      rintro rfl
      simp at known
    dsimp only
    rw [FileStore.holders_release, kept.closed d, Nat.zero_sub]
    dsimp only
    rw [opens.holders, none, FileStore.share_some, if_neg other]
  case fresh =>
    intro d known unknown
    dsimp only at known
    rw [FileStore.ids_of_opened opened, opens.ids, Finset.mem_insert] at known
    obtain rfl := known.resolve_right unknown
    exact books.holders_pos (same ▸ referred)

/-- A mapping that is done has opened one description, of the file that was mapped. -/
private theorem mapUserRange_opens {file : DescriptionId} (h : Books [] v)
    (present : file ∈ v.files.ids) {start : VirtAddr} {length offset : Nat} {writable : Bool} :
    (mapFile.mapUserRange space start length writable file offset).Ends v
      (fun _ w => Turnover [v.files.fileOf file] v w ∧ w.files.handles = v.files.handles)
      fun _ _ => True := by
  unfold mapFile.mapUserRange
  rw [ends_bind, ends_gets, ends_ite]
  refine ⟨fun _ => trivial, fun _ => ?_⟩
  rw [ends_bind, ends_checked]
  refine ⟨fun count _ => ?_, fun _ _ => trivial⟩
  rw [ends_bind, ends_get]
  cases found : v.spaces.find? space with
  | none => trivial
  | some x =>
    dsimp only
    rw [ends_ite]
    refine ⟨fun _ => trivial, fun _ => ?_⟩
    rw [ends_bind, ends_modifyGet]
    dsimp only
    rcases FileStore.reopen_opens h.tallied present with refused | ⟨own, opens⟩
    · rw [refused]
      trivial
    · rw [own]
      dsimp only
      rw [ends_bind]
      refine Ends.mono (mapPages_uphold (h.opens opens FileStore.handles_reopen))
        (fun _ u since => ?_) fun _ _ _ => trivial
      have alive : (u.spaces.find? space).isSome = true := by
        rw [since.isSome_find]
        dsimp only
        rw [found, Option.isSome_some]
      have live : Held u (some ⟨v.files.descriptions.length⟩) := by
        rintro d refers
        cases refers
        exact since.books.holders_pos_of_loan
      have holds : (enterRegion space start ⟨count, ⟨v.files.descriptions.length⟩⟩).Ends u
          (fun _ w => Kept [⟨v.files.descriptions.length⟩] u w) fun _ _ => True :=
        enterRegion_kept since.books alive live
      rw [ends_bind]
      refine (holds.and (enterRegion_ends (E := fun _ _ => True) alive start _)).mono
        (fun _ w both => ?_) fun _ _ _ => trivial
      obtain ⟨entered, -, regions⟩ := both
      rw [ends_bind, ends_modify, ends_bind, ends_emit, ends_pure]
      have kept := since.kept.trans entered
      have referred : (⟨v.files.descriptions.length⟩ : DescriptionId) ∈ w.references :=
        mem_references.mpr (.inr (.inr ⟨space, start, ⟨count, ⟨v.files.descriptions.length⟩⟩,
          (regions space start).trans (if_pos ⟨rfl, rfl⟩), rfl⟩))
      exact ⟨.of_loan opens kept referred,
        FileStore.handles_release.trans (kept.handles.trans FileStore.handles_reopen)⟩

theorem mapFile_opens {file : DescriptionId} (h : Books [] v) (present : file ∈ v.files.ids)
    {start : VirtAddr} {length offset : Nat} {writable : Bool} :
    (mapFile space start length writable file offset).Ends v
      (fun _ w => Turnover [v.files.fileOf file] v w ∧ w.files.handles = v.files.handles)
      fun _ _ => True := by
  unfold mapFile
  rw [ends_ite]
  refine ⟨fun _ => trivial, fun _ => ?_⟩
  split
  · trivial
  · rw [ends_ite]
    exact ⟨fun _ => trivial, fun _ => mapUserRange_opens h present⟩

/-- A new file is opened once, by its creator. -/
theorem createFile_opens (h : Books [] v) (contents : Array UInt8) :
    Turnover [⟨v.files.files.length⟩] v { v with files := (v.files.create contents).2 } := by
  have opens := FileStore.opens_create (s := v.files) contents
  have handles : (v.files.create contents).2.handles =
      v.files.handles ++ [⟨v.files.descriptions.length⟩] := by
    unfold FileStore.handles FileStore.create
    rw [List.filterMap_append]
    rfl
  refine ⟨⟨opens.tallied h.tallied, fun d => ?_⟩, ?_, fun d known none => ?_, fun d known unknown => ?_⟩
  · have before := h.held d
    rw [count_references] at before ⊢
    dsimp only
    rw [opens.holders, handles, before, List.count_append, FileStore.count_singleton_eq_share]
    omega
  · rw [FileStore.image_create]
  · have other : d ≠ ⟨v.files.descriptions.length⟩ := by
      rintro rfl
      simp at known
    dsimp only
    rw [opens.holders, none, FileStore.share_some, if_neg other]
  · dsimp only at known ⊢
    rw [opens.ids, Finset.mem_insert] at known
    obtain rfl := known.resolve_right unknown
    rw [opens.holders, FileStore.share_self]
    omega

/-- The creator of a file lets go of its description, and only that may be closed. -/
theorem dropFile_turnover (h : Books [] v) (f : FileId) :
    Turnover [] v { v with files := v.files.dropHandle f } := by
  have opened : (v.files.dropHandle f).image.opened = v.files.image.opened ++ [] := by
    rw [FileStore.image_dropHandle, List.append_nil]
  refine ⟨⟨h.tallied.dropHandle f, fun d => ?_⟩, opened, fun d known none => ?_,
    fun d known unknown => ?_⟩
  · have before := h.held d
    have handles := FileStore.count_handles_dropHandle (s := v.files) f d
    rw [count_references] at before ⊢
    dsimp only
    rw [FileStore.holders_dropHandle]
    omega
  · dsimp only
    rw [FileStore.holders_dropHandle, none, Nat.zero_sub]
  · rw [FileStore.ids_of_opened (opened.trans (List.append_nil _))] at known
    exact absurd known unknown

end

end KernelCore.VirtualMemory
