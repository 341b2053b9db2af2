import KernelCore.Proofs.Paging.Bookkeeping
import KernelCore.Proofs.Paging.Serving

/-!
# Which requests read files

A page is read from a file to bring it into memory, as long as it holds a description of the file,
or to copy it, if it was loaded from the file and is not in memory. A request reads a file only if
it touches such a page. Pages are entered and untouched ones copied without reading anything, and
pages that have become anonymous are read from no file any more.
-/
namespace KernelCore

/-- What a page may be read from its file for. -/
inductive PageReading where
  | bringIn | copy

/-- The description that a page of the kind is read through. Untouched pages are not read to be
copied. -/
def PageKind.source? (why : PageReading) : PageKind → Option DescriptionId
  | .untouched _ loader =>
    match why with
    | .bringIn => loader.backing?.map FileBacking.file
    | .copy => none
  | .anonymous _ => none
  | .file b => some b.file

namespace FileStore

variable {s : FileStore} {d : DescriptionId} {f : FileId}

/-- How often the file was read. -/
def reads (s : FileStore) (f : FileId) : Nat := (s.file f).reads

/-- How often the file was read, and which file each description is of. -/
def readings (f : FileId) (s : FileStore) := (s.reads f, s.image.opened)

theorem fileOf_of_readings {s' : FileStore} (h : s'.readings f = s.readings f) (d : DescriptionId) :
    s'.fileOf d = s.fileOf d := by
  have opened : s'.image.opened = s.image.opened := congrArg Prod.snd h
  rw [← fileOf_image, ← fileOf_image, FileImage.fileOf, FileImage.fileOf, opened]

theorem reads_updateFile {g : FileId} {change : StoredFile → StoredFile}
    (h : ∀ x, (change x).reads = x.reads) : (s.updateFile g change).reads f = s.reads f := by
  unfold reads
  rw [file_updateFile]
  split
  · rename_i here
    rw [h, here.1]
  · rfl

theorem readings_updateFile {g : FileId} {change : StoredFile → StoredFile}
    (h : ∀ x, (change x).reads = x.reads) :
    (s.updateFile g change).readings f = s.readings f := by
  unfold readings
  rw [reads_updateFile h]
  rfl

theorem readings_retain? (o : Option DescriptionId) : (s.retain? o).readings f = s.readings f := by
  unfold readings
  rw [image_retain?]
  cases o <;> rfl

theorem reads_release : (s.release d).reads f = s.reads f := by
  unfold release
  dsimp only
  split
  · exact reads_updateFile fun _ => rfl
  · rfl

theorem readings_release? (o : Option DescriptionId) :
    (s.release? o).readings f = s.readings f := by
  unfold readings
  rw [image_release?]
  cases o with
  | none => rfl
  | some d => exact congrArg (·, _) reads_release

theorem readings_write (bytes : Array UInt8) (offset : Nat) :
    (s.write d bytes offset).2.readings f = s.readings f := by
  unfold write
  dsimp only
  split
  · rfl
  · exact readings_updateFile fun _ => rfl

/-- To read one file is to read no other. -/
theorem readings_read (other : s.fileOf d ≠ f) (count offset : Nat) :
    (s.read d count offset).2.readings f = s.readings f := by
  have apart : ∀ change, (s.updateFile (s.fileOf d) change).readings f = s.readings f := by
    intro change
    unfold readings reads
    rw [file_updateFile, if_neg fun here => other here.1.symm]
    rfl
  unfold read
  dsimp only
  split <;> exact apart _

theorem reads_reopen : (s.reopen d).2.reads f = s.reads f := by
  unfold reopen
  dsimp only
  split
  · exact reads_updateFile fun _ => rfl
  · rfl

theorem reads_dropHandle {g : FileId} : (s.dropHandle g).reads f = s.reads f := by
  unfold dropHandle
  split
  · rfl
  · refine (reads_updateFile ?_).trans reads_release
    exact fun _ => rfl

/-- A new file was not read, and neither was one that is not there. -/
theorem reads_create (contents : Array UInt8) : (s.create contents).2.reads f = s.reads f := by
  unfold reads
  rw [file_create]
  split
  · rename_i here
    rw [here, file_length]
    rfl
  · rfl

end FileStore

namespace VirtualMemory

open Transition

/-- The page would be read from the file. -/
def ComesFrom (v : VirtualMemory) (why : PageReading) (f : FileId) (s : SpaceId) (a : VirtAddr) :
    Prop :=
  ∃ p d, pageIn? v.spaces s a = some p ∧ p.kind.source? why = some d ∧ v.files.fileOf d = f

/-- The pages a request accesses, which brings them into memory, and those it copies. -/
def Request.Touches (why : PageReading) (s : SpaceId) (a : VirtAddr) (r : Request) : Prop :=
  match why, r with
  | .bringIn, .claim space va | .bringIn, .fault space va _ _ => s = space ∧ a = va.floor
  | .bringIn, .load space va length =>
    s = space ∧ ∃ i < length, a = (⟨va.toNat + i⟩ : VirtAddr).floor
  | .bringIn, .store space va bytes =>
    s = space ∧ ∃ i < bytes.size, a = (⟨va.toNat + i⟩ : VirtAddr).floor
  | .copy, .duplicateSpace parent _ => s = parent
  | _, _ => False

/-! ## Operations that leave a file unread -/

/-- Begun in `v`, the operation leaves a state with `I`, however it ends. -/
def Leaves {α : Type} (I : VirtualMemory → Prop) (t : Paging α) (v : VirtualMemory) : Prop :=
  t.Ends v (fun _ w => I w) fun _ w => I w

/-- Since `u` the file was not read, no description was opened, and none of the pages `A` comes from
the file. -/
structure Unread (why : PageReading) (f : FileId) (A : SpaceId → VirtAddr → Prop)
    (u v : VirtualMemory) : Prop where
  readings : v.files.readings f = u.files.readings f
  elsewhere : ∀ s a, A s a → ¬v.ComesFrom why f s a

namespace Leaves

variable {α β : Type} {I J : VirtualMemory → Prop} {t : Paging α} {v : VirtualMemory}

theorem of_state (h : I (t v).state) : Leaves I t v := ends_iff.mpr ⟨fun _ _ => h, fun _ _ => h⟩

theorem mono (h : Leaves I t v) (imp : ∀ w, I w → J w) : Leaves J t v :=
  Ends.mono h (fun _ w => imp w) fun _ w => imp w

theorem bind {next : α → Paging β} (first : Leaves I t v)
    (rest : ∀ a w, I w → Leaves I (next a) w) :
    Leaves I (t >>= next) v := by
  unfold Leaves
  rw [ends_bind]
  exact Ends.mono first (fun a w between => rest a w between) fun _ _ h => h

theorem ite {p : Prop} [Decidable p] {t' : Paging α} (yes : p → Leaves I t v)
    (no : ¬p → Leaves I t' v) : Leaves I (if p then t else t') v := by
  split
  · exact yes ‹_›
  · exact no ‹_›

theorem attempt (h : Leaves I t v) : Leaves I (attempt t) v := by
  refine Ends.attempt (Ends.mono h (fun _ _ kept => kept) fun e w stopped => ?_)
  cases e <;> exact stopped

theorem forAll {act : β → Paging Unit} (each : ∀ b w, I w → Leaves I (act b) w) (begun : I v)
    (bs : List β) : Leaves I (forAll act bs) v :=
  ends_forAll (I := fun _ w => I w) (fun b _ w => each b w) begun

end Leaves

variable {α : Type} {why : PageReading} {f : FileId} {A : SpaceId → VirtAddr → Prop}
  {u v w : VirtualMemory} {space : SpaceId} {va : VirtAddr} {t : Paging α}

/-- The spaces as they are, and what the files tell of the readings. -/
def exposure (f : FileId) (v : VirtualMemory) := (v.spaces, v.files.readings f)

instance : Holdings (exposure f) where
  same v w spaces files := by
    unfold exposure
    rw [spaces, files]

/-! ## Transfers -/

theorem fill_readings {b : FileBacking} {x : PageTransfer} (other : x.files.fileOf b.file ≠ f)
    {next : Nat → Transferring Unit}
    (rest : ∀ n, Preserves (fun x : PageTransfer => x.files.readings f) (next n)) :
    ((b.fill >>= next) x).state.files.readings f = x.files.readings f := by
  have filled : (b.fill x).state.files.readings f = x.files.readings f :=
    FileStore.readings_read other _ _
  rw [bind_apply]
  split
  · exact (rest _ _).trans filled
  · exact filled

theorem load_readings {l : Loader} {x : PageTransfer}
    (other : ∀ d, l.backing?.map FileBacking.file = some d → x.files.fileOf d ≠ f) :
    (l.load x).state.files.readings f = x.files.readings f := by
  cases l with
  | zeroFill => rfl
  | segment b =>
    exact fill_readings (other b.file rfl) fun _ =>
      .ite (.modify fun _ => rfl) (.bind .emit fun _ => .stop)

theorem bringIn_readings {b : FileBacking} {x : PageTransfer} (other : x.files.fileOf b.file ≠ f) :
    (b.bringIn x).state.files.readings f = x.files.readings f :=
  fill_readings other fun _ => .bind .ensure fun _ => .modify fun _ => rfl

theorem writeBack_exposure (b : FileBacking) (pa : PhysAddr) :
    Preserves (exposure f) (writeBack b pa) := by
  have written : ∀ bytes : Array UInt8, Preserves (FileStore.readings f) (b.writeBack bytes) :=
    fun bytes => .bind .ensure fun _ =>
      .bind (.modifyGet fun _ => FileStore.readings_write _ _)
        fun _ => .ite .pure (.bind .emit fun _ => .stop)
  refine .bind .gets fun bytes => fun v => ?_
  exact congrArg (v.spaces, ·) (written bytes.toArray v.files)

/-- A copy is read from the file its original is read from, or is untouched. -/
theorem copyPlan_source (p : Page) :
    (∃ target loader, copyPlan p = .untouched target loader) ∨
      ∃ kind, copyPlan p = .atOnce kind ∧
        ∀ d, kind.source? .copy = some d → p.kind.source? .copy = some d := by
  unfold copyPlan
  cases kind : p.kind with
  | untouched target loader => exact .inl ⟨target, loader, rfl⟩
  | anonymous slot =>
    dsimp only
    split
    · exact .inr ⟨_, rfl, nofun⟩
    · exact .inl ⟨_, _, rfl⟩
  | file b =>
    dsimp only
    split
    · exact .inr ⟨_, rfl, fun _ holds => holds⟩
    · exact .inl ⟨_, _, rfl⟩

/-! ## Pages that are looked at -/

namespace Unread

theorem refl (elsewhere : ∀ s a, A s a → ¬v.ComesFrom why f s a) : Unread why f A v v :=
  ⟨rfl, elsewhere⟩

/-- Where no pages are looked at, it does not matter what for. -/
theorem nowhere (v : VirtualMemory) : Unread why f (fun _ _ => False) v v :=
  .refl fun _ _ => False.elim

theorem fileOf (h : Unread why f A u v) (d : DescriptionId) : v.files.fileOf d = u.files.fileOf d :=
  FileStore.fileOf_of_readings h.readings d

/-- The description a page of `A` holds is of another file. -/
theorem apart (h : Unread why f A u v) {s : SpaceId} {a : VirtAddr} (among : A s a) {p : Page}
    (page : pageIn? v.spaces s a = some p) {d : DescriptionId}
    (holds : p.kind.source? why = some d) :
    u.files.fileOf d ≠ f :=
  fun same => h.elsewhere s a among ⟨p, d, page, holds, (h.fileOf d).trans same⟩

/-- Pages come from no more files than before. -/
theorem of_pages (h : Unread why f A u v) (readings : w.files.readings f = v.files.readings f)
    (pages : ∀ s a, A s a → ∀ q, pageIn? w.spaces s a = some q → ∀ d, q.kind.source? why = some d →
      u.files.fileOf d ≠ f) : Unread why f A u w where
  readings := readings.trans h.readings
  elsewhere := by
    rintro s a among ⟨q, d, page, holds, same⟩
    rw [FileStore.fileOf_of_readings (readings.trans h.readings)] at same
    exact pages s a among q page d holds same

theorem of_exposure (h : Unread why f A u v) (same : w.exposure f = v.exposure f) :
    Unread why f A u w := by
  refine h.of_pages (congrArg Prod.snd same) fun s a among q page d holds => ?_
  rw [show w.spaces = v.spaces from congrArg Prod.fst same] at page
  exact h.apart among page holds

theorem preserves (h : Unread why f A u v) (same : Preserves (exposure f) t) :
    Leaves (Unread why f A u) t v :=
  (same.ends v).mono (fun _ _ kept => h.of_exposure kept) fun _ _ kept => h.of_exposure kept

/-- More pages may be looked at if none of them comes from the file. -/
theorem extend {B : SpaceId → VirtAddr → Prop} (h : Unread why f A u v)
    (others : ∀ s a, B s a → ¬v.ComesFrom why f s a) :
    Unread why f (fun s a => A s a ∨ B s a) u v where
  readings := h.readings
  elsewhere s a among := among.elim (h.elsewhere s a) (others s a)

theorem restrict {B : SpaceId → VirtAddr → Prop} (h : Unread why f A u v)
    (less : ∀ s a, B s a → A s a) :
    Unread why f B u v := ⟨h.readings, fun s a among => h.elsewhere s a (less s a among)⟩

theorem updatePage (h : Unread why f A u v) {change : Page → Page}
    (kept : ∀ p, (change p).kind = p.kind) :
    Leaves (Unread why f A u) (updatePage space va change) v := by
  refine h.of_pages rfl fun s a among q page d holds => ?_
  unfold VirtualMemory.updatePage at page
  rw [modify_apply, pageIn?_updatePage] at page
  split at page
  · obtain ⟨p, before, rfl⟩ := Option.map_eq_some_iff.mp page
    rw [kept] at holds
    exact h.apart among before holds
  · exact h.apart among page holds

theorem setFrame (h : Unread why f A u v) (o : Option FrameId) :
    Leaves (Unread why f A u) (setFrame space va o) v := h.updatePage fun _ => rfl

theorem setKind (h : Unread why f A u v) (kind : PageKind)
    (apart : A space va.floor → ∀ d, kind.source? why = some d → u.files.fileOf d ≠ f) :
    Leaves (Unread why f A u) (setKind space va kind) v := by
  unfold Leaves VirtualMemory.setKind VirtualMemory.updatePage
  simp only [ends_bind, ends_get, ends_modify]
  refine h.of_pages ?_ fun s a among q page d holds => ?_
  · rw [FileStore.readings_release?, FileStore.readings_retain?]
  · rw [pageIn?_updatePage] at page
    split at page
    · rename_i here
      obtain ⟨p, -, rfl⟩ := Option.map_eq_some_iff.mp page
      rw [here.1, here.2] at among
      exact apart among d holds
    · exact h.apart among page holds

theorem whilePinned (h : Unread why f A u v) {g : FrameId}
    (acts : ∀ w, Unread why f A u w → Leaves (Unread why f A u) t w) :
    Leaves (Unread why f A u) (whilePinned g t) v := by
  refine Leaves.bind (h.preserves (updateFrame_preserves _)) fun _ w pinned => ?_
  refine Leaves.bind (acts w pinned).attempt fun r _ acted => ?_
  refine Leaves.bind (acted.preserves (updateFrame_preserves _)) fun _ _ freed => ?_
  cases r <;> exact freed

/-! ## Bringing pages into memory -/

theorem putOut (h : Unread why f A u v) (owner : PageRef) (g : FrameId) :
    Leaves (Unread why f A u) (putOut owner g) v := by
  refine Leaves.bind (h.preserves frame_preserves) fun x w framed => ?_
  unfold Leaves
  rw [ends_bind]
  refine pageAt_ends.mono (fun p _ found => ?_) fun _ _ stopped => stopped.2 ▸ framed
  obtain ⟨rfl, -⟩ := found
  cases p.kind with
  | untouched => exact framed
  | anonymous slot =>
    dsimp only
    rw [ends_bind, ends_gets]
    refine Leaves.bind (framed.preserves (onSwap_preserves _)) fun s w saved => ?_
    refine Leaves.bind (saved.setKind _ fun _ => nofun) fun _ w marked => ?_
    exact Leaves.bind (marked.preserves (.modify fun _ => rfl))
      fun _ w counted => counted.setFrame none
  | file b =>
    dsimp only
    unfold isDirty
    rw [ends_bind, ends_gets]
    refine Leaves.ite (fun _ => ?_) fun _ => framed.setFrame none
    refine Leaves.bind (framed.preserves (writeBack_exposure b _)) fun _ w written => ?_
    refine Leaves.bind (written.preserves (.modify fun _ => rfl)) fun _ w clean => ?_
    exact Leaves.bind (clean.preserves (.modify fun _ => rfl))
      fun _ w counted => counted.setFrame none

theorem evict (h : Unread why f A u v) : Leaves (Unread why f A u) evict v := by
  refine Leaves.bind (h.preserves (.modifyGet fun _ => rfl)) fun victim w chosen => ?_
  cases victim with
  | none => exact chosen
  | some g =>
    refine Leaves.bind (chosen.preserves frame_preserves) fun x w framed => ?_
    cases x.owner with
    | none => exact framed
    | some owner =>
      refine Leaves.bind (framed.whilePinned fun w pinned => pinned.putOut owner g)
        fun _ w out => ?_
      exact out.preserves
        (.bind (.modify fun _ => rfl) fun _ => .bind (updateFrame_preserves _) fun _ =>
        .bind (.modify fun _ => rfl) fun _ => .bind (.modify fun _ => rfl) fun _ =>
          .bind .emit fun _ => .pure)

theorem obtainFrame (h : Unread why f A u v) : Leaves (Unread why f A u) obtainFrame v := by
  refine Leaves.bind (h.preserves (.modifyGet fun _ => rfl)) fun acquired w tried => ?_
  cases acquired with
  | none => exact tried.evict
  | some pa => exact tried.preserves (.modifyGet fun _ => rfl)

/-- A page is filled from other files. -/
theorem filling (h : Unread why f A u v) (pa : PhysAddr) {t : Transferring α}
    (kept : ∀ x : PageTransfer, x.files.readings f = u.files.readings f →
      (t x).state.files.readings f = x.files.readings f) :
    Leaves (Unread why f A u) (filling pa t) v := by
  refine .of_state (h.of_exposure ?_)
  exact congrArg (v.spaces, ·) (kept ⟨v.files, v.pool.page pa⟩ h.readings)

theorem bringIn (h : Unread .bringIn f A u v) (among : A space va.floor) (pa : PhysAddr) :
    Leaves (Unread .bringIn f A u) (bringIn space va pa) v := by
  unfold Leaves VirtualMemory.bringIn
  rw [ends_bind]
  refine pageAt_ends.mono (fun p _ found => ?_) fun _ _ stopped => stopped.2 ▸ h
  obtain ⟨rfl, page⟩ := found
  have apart := fun d => h.apart among page (d := d)
  cases kind : p.kind with
  | untouched target loader =>
    rw [kind] at apart
    refine Leaves.bind (h.filling pa fun x same => ?_) fun _ w filled => ?_
    · refine load_readings fun d holds => ?_
      rw [FileStore.fileOf_of_readings same]
      exact apart d holds
    · have becomes : ∀ kind : PageKind,
          (∀ d, kind.source? .bringIn = some d → u.files.fileOf d ≠ f) →
          Leaves (Unread .bringIn f A u) (do
            mapPage space va pa p.writable
            VirtualMemory.setKind space va kind) w := fun kind apart =>
        Leaves.bind (filled.preserves (mapPage_preserves _)) fun _ _ mapped =>
          mapped.setKind kind fun _ => apart
      cases target with
      | anonymous => exact becomes _ nofun
      | file =>
        cases loader with
        | zeroFill => exact filled
        | segment b => exact becomes _ apart
  | anonymous slot =>
    refine Leaves.bind (h.preserves (onSwap_preserves _)) fun bytes w saved => ?_
    refine Leaves.bind (saved.preserves (.modify fun _ => rfl)) fun _ w copied => ?_
    refine Leaves.bind (copied.preserves (mapPage_preserves _)) fun _ w mapped => ?_
    have settles : ∀ w, Unread .bringIn f A u w → Leaves (Unread .bringIn f A u) (do
        onSwap (SwapArea.release slot)
        VirtualMemory.setKind space va (.anonymous none)) w := fun w kept =>
      Leaves.bind (kept.preserves (onSwap_preserves _))
        fun _ _ released => released.setKind _ fun _ => nofun
    refine Leaves.ite (fun _ => ?_) fun _ => settles w mapped
    exact Leaves.bind (mapped.preserves (.modify fun _ => rfl)) fun _ w counted => settles w counted
  | file b =>
    rw [kind] at apart
    refine Leaves.bind (h.filling pa fun x same => bringIn_readings ?_) fun _ w filled =>
      filled.preserves (mapPage_preserves _)
    rw [FileStore.fileOf_of_readings same]
    exact apart b.file rfl

theorem install (h : Unread .bringIn f A u v) (among : A space va.floor) (g : FrameId) :
    Leaves (Unread .bringIn f A u) (install space va g) v := by
  refine Leaves.bind (h.preserves frame_preserves) fun x w framed => ?_
  refine Leaves.bind (framed.preserves (updateFrame_preserves _)) fun _ w owned => ?_
  have acts : Leaves (Unread .bringIn f A u) (VirtualMemory.whilePinned g (do
      VirtualMemory.bringIn space va x.page
      VirtualMemory.setFrame space va (some g))) w :=
    owned.whilePinned fun w pinned => Leaves.bind (pinned.bringIn among _) fun _ _ there =>
      there.setFrame _
  refine Leaves.bind acts.attempt fun r w acted => ?_
  cases r with
  | ok => exact acted
  | error e =>
    refine Leaves.bind (acted.setFrame none) fun _ _ away => ?_
    exact away.preserves (.bind freeFrame_preserves fun _ => .bind .emit fun _ => .stop)

theorem claim (h : Unread .bringIn f A u v) (among : A space va.floor) :
    Leaves (Unread .bringIn f A u) (claim space va) v := by
  unfold Leaves VirtualMemory.claim
  rw [ends_bind, ends_get]
  have among' : A space va.floor.floor := by rwa [VirtAddr.floor_floor]
  split
  · exact h
  · exact Leaves.ite (fun _ => h) fun _ => Leaves.bind h.obtainFrame fun g _ obtained =>
      obtained.install among' g

/-! ## Faults and accesses -/

theorem enterPage (h : Unread why f A u v) {p : Page}
    (apart : A space va → ∀ d, p.kind.source? why = some d → u.files.fileOf d ≠ f) :
    Leaves (Unread why f A u) (enterPage space va p) v := by
  unfold VirtualMemory.enterPage
  cases found : v.spaces.find? space with
  | none =>
    refine (ends_update_of_error (by rw [found])).mpr h
  | some x =>
    rcases insertPage_cases x va p with ⟨bad, -⟩ | ⟨refused, -, -⟩ | ⟨entered, -, -⟩
    · exact (ends_update_of_error (by rw [found]; simp only [bad]; rfl)).mpr h
    · exact (ends_update_of_error (by rw [found]; simp only [refused]; rfl)).mpr h
    · refine (ends_update_of_ok (by rw [found]; simp only [entered]; rfl)).mpr ?_
      refine h.of_pages (FileStore.readings_retain? _) fun s a among q page d holds => ?_
      dsimp only at page
      rw [pageIn?_insert] at page
      split at page
      · rename_i here
        subst here
        rw [Table.find?_insert] at page
        split at page
        · rename_i there
          cases page
          exact apart (there ▸ among) d holds
        · rw [← pageIn?_of_find found] at page
          exact h.apart among page holds
      · exact h.apart among page holds

theorem allocateLazy (h : Unread why f A u v) (writable : Bool) (target : PageType)
    {loader : Loader}
    (apart : A space va → ∀ d, (PageKind.untouched target loader).source? why = some d →
      u.files.fileOf d ≠ f) :
    Leaves (Unread why f A u) (allocateLazy space va writable target loader) v :=
  Leaves.bind (h.preserves .ensure) fun _ _ placed =>
    Leaves.bind (placed.preserves .ensure) fun _ _ user =>
    user.enterPage apart

/-- A page full of zeros that is brought into memory at once comes from no file. -/
theorem addStackPage (h : Unread .bringIn f A u v)
    (fresh : ¬v.ComesFrom .bringIn f space va.floor) :
    Leaves (Unread .bringIn f A u)
      (allocateAnonymous space va true >>= fun _ => VirtualMemory.claim space va) v := by
  have more : Unread .bringIn f (fun s a => A s a ∨ s = space ∧ a = va.floor) u v :=
    h.extend fun s a here => by rwa [here.1, here.2]
  have zeros : Leaves (Unread .bringIn f (fun s a => A s a ∨ s = space ∧ a = va.floor) u)
      (allocateAnonymous space va true) v := more.allocateLazy true .anonymous fun _ _ => nofun
  exact (zeros.bind fun _ _ entered => entered.claim (.inr ⟨rfl, rfl⟩)).mono fun w both =>
    both.restrict fun _ _ => .inl

theorem growUpwards (h : Unread .bringIn f A u v) (count : Nat) :
    Leaves (Unread .bringIn f A u) (growUpwards space count va) v := by
  induction count generalizing va v with
  | zero => exact h
  | succ count ih =>
    unfold Leaves VirtualMemory.growUpwards
    rw [ends_bind, ends_get]
    refine Leaves.ite (fun _ => h) fun none => ?_
    have fresh : ¬v.ComesFrom .bringIn f space va.floor := by
      rintro ⟨p, -, page, -⟩
      simp [page?_eq, page] at none
    rw [← bind_assoc]
    exact Leaves.bind (h.addStackPage fresh) fun _ _ added =>
      Leaves.bind (ih added) fun _ _ grown => grown

theorem handleFault (h : Unread .bringIn f A u v) (among : A space va.floor) (flags : FaultFlags)
    (pointer : Nat) :
    Leaves (Unread .bringIn f A u) (handleFault space va flags pointer) v := by
  refine Leaves.bind (h.preserves (.modify fun _ => rfl)) fun _ w counted => ?_
  refine Leaves.bind (counted.preserves .ensure) fun _ w present => ?_
  refine Leaves.bind (present.preserves .ensure) fun _ w user => ?_
  refine Leaves.bind (user.preserves .ensure) fun _ w missing => ?_
  unfold Leaves
  rw [ends_bind, ends_get]
  split
  · exact missing
  · split
    · refine Leaves.ite (fun _ => ?_) fun _ => missing
      exact Leaves.bind (missing.growUpwards _) fun _ _ grown => grown.preserves .emit
    · exact Leaves.bind (missing.preserves .ensure) fun _ _ allowed =>
        Leaves.ite (fun _ => allowed) fun _ => allowed.claim among

theorem tryAccess (h : Unread .bringIn f A u v) (among : A space va.floor) (write : Bool) :
    Leaves (Unread .bringIn f A u) (tryAccess space va write) v := by
  unfold Leaves VirtualMemory.tryAccess
  rw [ends_bind, ends_get]
  split
  · refine Leaves.ite (fun _ => ?_) fun _ => ?_
    · exact Leaves.bind (h.handleFault among _ _) fun _ _ served => served
    · exact Leaves.bind (h.preserves (.modify fun _ => rfl)) fun _ _ touched => touched
  · exact Leaves.bind (h.handleFault among _ _) fun _ _ served => served

theorem access (h : Unread .bringIn f A u v) (among : A space va.floor) (write : Bool) :
    Leaves (Unread .bringIn f A u) (access space va write) v :=
  Leaves.bind (h.tryAccess among write) fun _ _ tried => Leaves.ite (fun _ => tried) fun _ =>
    tried.tryAccess among write

theorem load (h : Unread .bringIn f A u v) (length : Nat)
    (among : ∀ i < length, A space (⟨va.toNat + i⟩ : VirtAddr).floor) :
    Leaves (Unread .bringIn f A u) (load space va length) v := by
  induction length using Nat.strongRecOn generalizing v va with
  | ind length ih =>
    rw [VirtualMemory.load]
    by_cases empty : length = 0
    · rw [dif_pos empty]
      exact h
    · rw [dif_neg empty]
      have first := among 0 (Nat.pos_of_ne_zero empty)
      refine Leaves.bind (Leaves.bind (h.access first false) fun _ _ accessed => accessed)
        fun page w found => ?_
      cases page with
      | none => exact found
      | some page =>
        have fewer : length - bytesInPage va length < length := by
          have := bytesInPage_pos va empty
          omega
        refine Leaves.bind (ih _ fewer found fun i hi => ?_) fun _ _ rest => rest
        have later := among (bytesInPage va length + i) (by omega)
        rwa [← Nat.add_assoc] at later

theorem storeFrom (h : Unread .bringIn f A u v) (bytes : Array UInt8) (done : Nat)
    (among : ∀ i < bytes.size - done, A space (⟨va.toNat + i⟩ : VirtAddr).floor) :
    Leaves (Unread .bringIn f A u) (storeFrom space va bytes done) v := by
  generalize left : bytes.size - done = remaining
  induction remaining using Nat.strongRecOn generalizing v va done with
  | ind remaining ih =>
    rw [VirtualMemory.storeFrom]
    by_cases empty : bytes.size - done = 0
    · rw [dif_pos empty]
      exact h
    · rw [dif_neg empty]
      have first := among 0 (Nat.pos_of_ne_zero empty)
      refine Leaves.bind (Leaves.bind (h.access first true) fun _ _ accessed => accessed)
        fun target w found => ?_
      cases target with
      | none => exact found
      | some pa =>
        refine Leaves.bind (found.preserves (.modify fun _ => rfl)) fun _ w stored => ?_
        have within := bytesInPage_pos va empty
        refine ih (bytes.size - (done + bytesInPage va (bytes.size - done))) (by omega) stored _
          (fun i hi => ?_) rfl
        have later := among (bytesInPage va (bytes.size - done) + i) (by omega)
        rwa [← Nat.add_assoc] at later

/-! ## Copies of spaces -/

theorem copyContents (h : Unread why f A u v) (among : A space va.floor) (dst : PhysAddr) :
    Leaves (Unread why f A u) (copyContents space va dst) v := by
  unfold Leaves VirtualMemory.copyContents
  rw [ends_bind]
  refine pageAt_ends.mono (fun p _ found => ?_) fun _ _ stopped => stopped.2 ▸ h
  obtain ⟨rfl, page⟩ := found
  cases p.frame with
  | some g =>
    exact h.preserves (.bind frame_preserves fun x => .bind (.modify fun _ => rfl) fun _ => .gets)
  | none =>
    dsimp only
    split
    · exact h.preserves (.bind (onSwap_preserves _)
        fun _ => .bind (.modify fun _ => rfl) fun _ => .pure)
    · rename_i b kind
      refine Leaves.bind (h.filling dst fun x same => bringIn_readings ?_) fun _ _ filled => filled
      rw [FileStore.fileOf_of_readings same]
      exact h.apart among page (by rw [kind]; rfl)
    · exact h

theorem copyAtOnce {parent child : SpaceId} (h : Unread why f A u v) (among : A parent va.floor)
    {p : Page}
    (apart : A child va → ∀ d, p.kind.source? why = some d → u.files.fileOf d ≠ f) :
    Leaves (Unread why f A u) (copyAtOnce parent child va p) v := by
  refine Leaves.bind (h.enterPage apart) fun _ w entered => ?_
  refine Leaves.bind entered.obtainFrame fun g w obtained => ?_
  refine Leaves.bind (obtained.preserves (updateFrame_preserves _)) fun _ w owned => ?_
  refine Leaves.bind (owned.preserves frame_preserves) fun x w framed => ?_
  have acts : Leaves (Unread why f A u) (do
      let dirty ← VirtualMemory.copyContents parent va x.page
      mapPage child va x.page p.writable
      Transition.pure dirty) w :=
    Leaves.bind (framed.copyContents among _) fun _ _ copied =>
      Leaves.bind (copied.preserves (mapPage_preserves _)) fun _ _ mapped => mapped
  refine Leaves.bind acts.attempt fun r w acted => ?_
  cases r with
  | error e => exact acted.preserves (.bind freeFrame_preserves fun _ => .stop)
  | ok dirty =>
    refine Leaves.ite (fun _ => ?_) fun _ => acted.setFrame _
    exact Leaves.bind (acted.preserves (.modify fun _ => rfl)) fun _ _ marked => marked.setFrame _

theorem duplicatePage {parent child : SpaceId} (h : Unread .copy f A u v)
    (among : A parent va.floor) :
    Leaves (Unread .copy f A u) (duplicatePage parent child va) v := by
  unfold Leaves VirtualMemory.duplicatePage
  rw [ends_bind, ends_get, page?_eq]
  cases page : pageIn? v.spaces parent va.floor with
  | none => exact h
  | some p =>
    dsimp only
    rcases copyPlan_source p with ⟨target, loader, plan⟩ | ⟨kind, plan, less⟩
    · rw [plan]
      exact h.allocateLazy p.writable target fun _ => nofun
    · rw [plan]
      exact h.copyAtOnce among fun _ d holds => h.apart among page (less d holds)

theorem enterRegion (h : Unread why f A u v) (start : VirtAddr) (r : Region) :
    Leaves (Unread why f A u) (enterRegion space start r) v := by
  refine h.of_pages ?_ fun s a among q page d holds => ?_
  · exact (FileStore.readings_release? _).trans (FileStore.readings_retain? (some r.file))
  · unfold VirtualMemory.enterRegion at page
    rw [modify_apply, pageIn?_insertRegion] at page
    exact h.apart among page holds

theorem duplicateSpace {parent child : SpaceId} (h : Unread .copy f A u v)
    (among : ∀ a, A parent a) :
    Leaves (Unread .copy f A u) (duplicateSpace parent child) v := by
  unfold Leaves VirtualMemory.duplicateSpace
  rw [ends_bind, ends_get]
  split
  · refine Leaves.bind (Leaves.forAll (fun va w kept => kept.duplicatePage (among _)) h _)
      fun _ w pages => ?_
    refine Leaves.bind (Leaves.forAll (fun x w kept => kept.enterRegion _ _) pages _)
      fun _ w regions => ?_
    exact regions.preserves .emit
  · exact h

end Unread

/-! ## Requests -/

/-- How often the file was read. -/
def readsOf (f : FileId) (v : VirtualMemory) := v.files.reads f

instance : Holdings (readsOf f) where
  same v w _ files := by
    unfold readsOf
    rw [files]

theorem reads_of_leaves (h : Leaves (Unread why f A v) t v) :
    (t v).state.readsOf f = v.readsOf f :=
  congrArg Prod.fst (Ends.state h).readings

theorem preserves_reads (h : Preserves (exposure f) t) : Preserves (readsOf f) t :=
  h.of_view fun _ _ same => congrArg Prod.fst (congrArg Prod.snd same)

section

variable {p : Page} {target : PageType} {writable : Bool} {loader : Loader}

theorem enterPage_reads : Preserves (readsOf f) (enterPage space va p) := fun v =>
  have nowhere : Unread .copy f (fun _ _ => False) v v := .nowhere v
  reads_of_leaves (nowhere.enterPage nofun)

theorem allocateLazy_reads : Preserves (readsOf f) (allocateLazy space va writable target loader) :=
  .bind .ensure fun _ => .bind .ensure fun _ => enterPage_reads

theorem enterRegion_reads {start : VirtAddr} {r : Region} :
    Preserves (readsOf f) (enterRegion space start r) := fun v =>
  have nowhere : Unread .copy f (fun _ _ => False) v v := .nowhere v
  reads_of_leaves (nowhere.enterRegion start r)

theorem release?_reads (o : Option DescriptionId) :
    (v.files.release? o).reads f = v.files.reads f :=
  congrArg Prod.fst (FileStore.readings_release? o)

theorem saveChanges_reads (part : String) :
    Preserves (readsOf f) (saveChanges part space va p) := by
  unfold saveChanges
  split
  · refine .bind .gets fun _ => .ite (.bind frame_preserves fun x => ?_) .pure
    refine .bind (preserves_reads (writeBack_exposure _ _)).attempt fun r => ?_
    cases r with
    | ok => exact .bind (.modify fun _ => rfl) fun _ => .pure
    | error e => exact .bind .emit fun _ => .pure
  · exact .pure

theorem discardPage_reads (part : String) (slots : Bool) :
    Preserves (readsOf f) (discardPage part slots space va) := by
  have dropped : ∀ d : Discarded, Preserves (readsOf f) (dropPage space va >>= fun _ => pure d) :=
    fun d => .bind (.modify fun v => release?_reads _) fun _ => .pure
  refine .bind .get fun v => ?_
  split
  · exact .pure
  · refine .bind (saveChanges_reads part) fun saved => ?_
    split
    · exact .bind (.modify fun _ => rfl) fun _ => .bind freeFrame_preserves fun _ => dropped _
    · exact .ite (.bind (onSwap_preserves _) fun _ => dropped _) (dropped _)

theorem discardPages_reads (part : String) (slots : Bool) :
    ∀ vas : List VirtAddr, Preserves (readsOf f) (discardPages part slots space vas)
  | [] => .pure
  | _ :: rest => .bind (discardPage_reads part slots) fun _ =>
    .bind (discardPages_reads part slots rest) fun _ => .pure

theorem dropRegion_reads {start : VirtAddr} : Preserves (readsOf f) (dropRegion space start) :=
  .modify fun _ => release?_reads _

theorem destroySpace_reads : Preserves (readsOf f) (destroySpace space) := by
  refine .bind .get fun v => ?_
  split
  · exact .stop
  · exact .bind (discardPages_reads "vm" true _) fun _ =>
      .bind (.forAll (fun _ => dropRegion_reads) _) fun _ =>
      .bind (.modify fun _ => rfl) fun _ => .emit

theorem unmapFile_reads {start : VirtAddr} : Preserves (readsOf f) (unmapFile space start) := by
  refine .bind .get fun v => ?_
  split
  · exact .stop
  · split
    · exact .stop
    · exact .bind (discardPages_reads "mmap" false _) fun _ => .bind dropRegion_reads fun _ => .emit

theorem loadSegment_reads {file : DescriptionId} {offset : Nat} {start : VirtAddr}
    {readBytes zeroBytes : Nat} :
    Preserves (readsOf f) (loadSegment space file offset start readBytes zeroBytes writable) :=
  .bind .ofExcept fun _ => .bind .ensure fun _ => .forRange
    (fun _ => .bind .ofExcept fun _ => .bind .ofExcept fun _ => allocateLazy_reads) _ _

theorem mapFile_reads {start : VirtAddr} {length offset : Nat} {file : DescriptionId} :
    Preserves (readsOf f) (mapFile space start length writable file offset) := by
  refine .ite (.bind .emit fun _ => .stop) ?_
  split
  · exact .stop
  · refine .ite (.bind .emit fun _ => .stop) ?_
    refine .bind .gets fun fileLength => .ite (.bind .emit fun _ => .stop)
      (.bind .ofExcept fun count => ?_)
    refine .bind .get fun v => ?_
    split
    · exact .stop
    · refine .ite (.bind .emit fun _ => .stop)
        (.bind (.modifyGet fun _ => FileStore.reads_reopen) fun opened => ?_)
      split
      · exact .stop
      · refine .bind (.forRange
          (fun _ => .bind .ofExcept fun _ => .bind .ofExcept fun _ => enterPage_reads) _ _) fun _ =>
            .bind enterRegion_reads fun _ => .bind (.modify fun _ => FileStore.reads_release) fun _ =>
            .bind .emit fun _ => .pure

theorem fileNumbered_reads {g : FileId} : Preserves (readsOf f) (fileNumbered g) := by
  refine .bind .get fun v => ?_
  split
  · exact .pure
  · exact .stop

theorem handle_reads {g : FileId} : Preserves (readsOf f) (handle g) := by
  refine .bind fileNumbered_reads fun x => ?_
  split
  · exact .pure
  · exact .stop

theorem loader_reads (source : Source) : Preserves (readsOf f) source.loader := by
  cases source with
  | zeroFill => exact .pure
  | segment => exact .bind handle_reads fun _ => .bind .ofExcept fun _ => .pure

theorem changeFile_reads {g : FileId} (change : FileStore → FileStore)
    (kept : ∀ s : FileStore, (change s).reads f = s.reads f) :
    Preserves (readsOf f) (changeFile g change) :=
  .bind fileNumbered_reads fun _ => .bind (.modify fun _ => kept _) fun _ => .pure

theorem updateFile_reads {g : FileId} (change : StoredFile → StoredFile)
    (kept : ∀ x, (change x).reads = x.reads) :
    Preserves (readsOf f) (changeFile g fun files => files.updateFile g change) :=
  changeFile_reads _ fun _ => FileStore.reads_updateFile kept

/-- The first page of a stack was not there before. -/
theorem setupStack_reads (coherent : Coherent v none) :
    (setupStack space v).state.readsOf f = v.readsOf f := by
  have aligned : (⟨userStackTop - pageSize⟩ : VirtAddr).floor = ⟨userStackTop - pageSize⟩ := by
    decide
  unfold setupStack
  rw [← bind_assoc]
  by_cases fresh : v.ComesFrom .bringIn f space ⟨userStackTop - pageSize⟩
  · obtain ⟨p, -, page, -⟩ := fresh
    have refused : (allocateAnonymous space ⟨userStackTop - pageSize⟩ true).Ends v
        (fun _ _ => False) fun _ w => w = v := by
      refine (allocateLazy_ends coherent true .anonymous .zeroFill).mono (fun _ w entered => ?_)
        fun _ _ stopped => stopped.2
      rw [entered.2.absent] at page
      cases page
    refine Ends.state (P := fun w : VirtualMemory => w.readsOf f = v.readsOf f) ?_
    rw [ends_bind, ends_bind]
    exact refused.mono (fun _ _ => False.elim) fun _ _ same => same ▸ rfl
  · have nowhere : Unread .bringIn f (fun _ _ => False) v v := .nowhere v
    exact reads_of_leaves
      (Leaves.bind (nowhere.addStackPage (aligned ▸ fresh)) fun _ _ added => added)

end

theorem serve_reads (coherent : Coherent v none) {r : Request}
    (apart : ∀ why s a, r.Touches why s a → ¬v.ComesFrom why f s a) :
    (serve r v).state.readsOf f = v.readsOf f := by
  have begun : Unread .bringIn f (fun s a => r.Touches .bringIn s a) v v := .refl (apart _)
  cases r with
  | createSpace =>
    have created : Preserves (readsOf f) createSpace :=
      .bind .get fun _ => .bind .ensure fun _ => .bind (.modify fun _ => rfl) fun _ =>
        .bind .emit fun _ => .pure
    exact Preserves.bind created (fun _ => .pure) v
  | destroySpace space => exact Preserves.bind destroySpace_reads (fun _ => .pure) v
  | duplicateSpace parent child =>
    have copies : Unread .copy f (fun s _ => s = parent) v v := .refl (apart .copy)
    exact reads_of_leaves
      (Leaves.bind (copies.duplicateSpace fun _ => rfl) fun _ _ copied => copied)
  | allocateAnonymous => exact Preserves.bind allocateLazy_reads (fun _ => .pure) v
  | allocateLazy space va writable target source =>
    exact Preserves.bind (loader_reads source) (fun _ => .bind allocateLazy_reads fun _ => .pure) v
  | setupStack space =>
    have same : (serve (.setupStack space) v).state = (setupStack space v).state := by
      rw [serve, bind_apply]
      split <;> rfl
    rw [same]
    exact setupStack_reads coherent
  | loadSegment =>
    exact Preserves.bind handle_reads (fun _ => .bind loadSegment_reads fun _ => .pure) v
  | claim space va =>
    exact reads_of_leaves (Leaves.bind (begun.claim ⟨rfl, rfl⟩) fun _ _ claimed => claimed)
  | mapFile =>
    exact Preserves.bind handle_reads (fun _ => .bind mapFile_reads fun _ => .pure) v
  | unmapFile => exact Preserves.bind unmapFile_reads (fun _ => .pure) v
  | fault space a flags pointer =>
    exact reads_of_leaves
      (Leaves.bind (begun.handleFault ⟨rfl, rfl⟩ flags pointer) fun _ _ served => served)
  | locate => rfl
  | peek => rfl
  | poke space va bytes =>
    refine Preserves.bind .get (fun u => ?_) v
    split
    · exact .bind .ensure fun _ => .bind (.modify fun _ => rfl) fun _ => .pure
    · exact .pure
  | touch => rfl
  | setUserPointer => rfl
  | store space a bytes =>
    have pages : ∀ i < bytes.size - 0,
        Request.Touches .bringIn space (⟨a.toNat + i⟩ : VirtAddr).floor (.store space a bytes) :=
      fun i hi => ⟨rfl, i, hi, rfl⟩
    exact reads_of_leaves (Leaves.bind (begun.storeFrom bytes 0 pages) fun _ _ stored => stored)
  | load space a length =>
    have pages : ∀ i < length,
        Request.Touches .bringIn space (⟨a.toNat + i⟩ : VirtAddr).floor (.load space a length) :=
      fun i hi => ⟨rfl, i, hi, rfl⟩
    exact reads_of_leaves (Leaves.bind (begun.load length pages) fun _ _ loaded => loaded)
  | failMaps => rfl
  | createFile contents => exact FileStore.reads_create contents
  | dropFile g =>
    exact changeFile_reads (fun files => files.dropHandle g) (fun _ => FileStore.reads_dropHandle) v
  | setFileLength g n => exact changeFile_reads (fun files => files.setLength g n) (fun _ =>
      FileStore.reads_updateFile fun _ => rfl) v
  | setShortReads g n =>
    exact updateFile_reads (fun x => { x with shortReads := n }) (fun _ => rfl) v
  | setShortWrites g n =>
    exact updateFile_reads (fun x => { x with shortWrites := n }) (fun _ => rfl) v
  | setReopenable g o =>
    exact updateFile_reads (fun x => { x with reopenable := o }) (fun _ => rfl) v
  | fileContents g => exact Preserves.bind fileNumbered_reads (fun _ => .pure) v
  | fileWrites g => exact Preserves.bind fileNumbered_reads (fun _ => .pure) v

/-- A request reads a file only if it touches a page that comes from the file. -/
theorem perform_reads (coherent : Coherent v none) {r : Request}
    (apart : ∀ why s a, r.Touches why s a → ¬v.ComesFrom why f s a) :
    (perform r v).state.files.reads f = v.files.reads f := by
  refine Ends.state (P := fun w : VirtualMemory => w.readsOf f = v.readsOf f)
    (perform_ends_of_serve ?_)
  have served := serve_reads coherent apart
  refine ends_iff.mpr ⟨fun _ _ => served, fun e _ => ?_⟩
  cases e <;> exact served

end VirtualMemory

end KernelCore
