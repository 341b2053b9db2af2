import KernelCore.Proofs.Paging.Claiming

/-!
# Faults that are served

After a fault on a page of the space was served, the page is in memory, and the hardware lets the
access be made again. A stack grows page by page, from the page of the fault upwards. Each page
that is added comes into memory and may push another one out of it, the page of the fault as well,
so that the access faults again.
-/
namespace KernelCore.VirtualMemory

open Transition

variable {u v w : VirtualMemory} {space s : SpaceId} {va a b : VirtAddr} {p : Page} {f : FrameId}
  {write : Bool} {flags : FaultFlags} {pointer : Nat}

/-- Programs can access the page, for writing too if they are to: it is in memory, and the hardware
translates it to where it is. -/
def Accessible (v : VirtualMemory) (space : SpaceId) (va : VirtAddr) (write : Bool) : Prop :=
  ∃ p f x e, pageIn? v.spaces space va = some p ∧ p.frame = some f ∧
    v.frames.frame? f = some x ∧ v.mmu.mapping? space va = some e ∧ e.page = x.page ∧
    (write = true → e.writable = true)

theorem accessible_of_resident (h : Coherent v none) (page : pageIn? v.spaces space va = some p)
    (holds : p.frame = some f) (permits : write = true → p.writable = true) :
    Accessible v space va write := by
  obtain ⟨x, frame, -⟩ := h.resident page holds
  have translated := h.translated space va
  rw [page, Option.bind_some, holds, Option.bind_some, frame, Option.map_some] at translated
  obtain ⟨e, mapping, target⟩ := Option.map_eq_some_iff.mp translated
  obtain ⟨place, rights⟩ := Prod.mk.inj target
  exact ⟨p, f, x, e, page, holds, frame, mapping, place, fun w => rights ▸ permits w⟩

/-! ## Growing stacks -/

/-- The page is still there, and it is as it was unless pages were put out of memory. -/
structure Stays (v : VirtualMemory) (s : SpaceId) (a : VirtAddr) (p : Page) (w : VirtualMemory) :
    Prop where
  use : ∃ q, pageIn? w.spaces s a = some q ∧ p.SameUse q
  counted : v.counts.evictions ≤ w.counts.evictions
  same : w.counts.evictions = v.counts.evictions → pageIn? w.spaces s a = some p

theorem Stays.refl (page : pageIn? v.spaces s a = some p) : Stays v s a p v :=
  ⟨⟨p, page, rfl, rfl⟩, Nat.le_refl _, fun _ => page⟩

theorem Stays.trans (h : Stays u s a p v)
    (h' : ∀ q, pageIn? v.spaces s a = some q → Stays v s a q w) : Stays u s a p w := by
  obtain ⟨q, page, use⟩ := h.use
  obtain ⟨r, page', use'⟩ := (h' q page).use
  have first := h.counted
  have next := (h' q page).counted
  refine ⟨⟨r, page', use.trans use'⟩, Nat.le_trans first next, fun none => ?_⟩
  exact (h' p (h.same (by omega))).same (by omega)

theorem Claimed.counted (claimed : Claimed v space va w) :
    v.counts.evictions ≤ w.counts.evictions := by
  rcases claimed.kept with ⟨same, -⟩ | more
  · exact Nat.le_of_eq same.symm
  · omega

/-- A claim of another page may put a page out. -/
theorem Claimed.stays (claimed : Claimed v space va w) (page : pageIn? v.spaces s a = some p)
    (other : ¬(s = space ∧ a = va)) : Stays v s a p w := by
  refine ⟨claimed.follows.kept page, claimed.counted, fun same => ?_⟩
  rcases claimed.kept with ⟨-, others⟩ | more
  · rw [others s a other, page]
  · omega

/-- A page of the stack was added and is in memory. -/
structure Added (v : VirtualMemory) (space : SpaceId) (va : VirtAddr) (w : VirtualMemory) : Prop where
  coherent : Coherent w none
  page : ∃ p f, pageIn? w.spaces space va = some p ∧ p.frame = some f ∧ p.writable = true
  stays : ∀ s a p, pageIn? v.spaces s a = some p → Stays v s a p w
  counted : v.counts.evictions ≤ w.counts.evictions

theorem addStackPage_ends (h : Coherent v none) :
    (allocateAnonymous space va true >>= fun _ => claim space va).Ends v
      (fun _ w => Added v space va w) (fun _ _ => True) := by
  rw [ends_bind]
  refine (allocateLazy_ends h true .anonymous .zeroFill).mono (fun _ u entry => ?_)
    fun _ _ _ => trivial
  obtain ⟨coherent, entered⟩ := entry
  have floor := VirtAddr.floor_of_isAligned entered.placed.aligned
  refine (claim_cases coherent).mono (fun _ w claimed => ?_) fun _ _ _ => trivial
  rw [floor] at claimed
  obtain ⟨p, q, f, -, before, after, writable, frame, -⟩ := claimed.page
  rw [entered.pages, if_pos ⟨rfl, rfl⟩] at before
  cases before
  refine ⟨claimed.coherent, ⟨q, f, after, frame, writable⟩, fun s a p page => ?_,
    entered.evictions ▸ claimed.counted⟩
  have other : ¬(s = space ∧ a = va) := by
    rintro ⟨rfl, rfl⟩
    rw [entered.absent] at page
    cases page
  have still : pageIn? u.spaces s a = some p := by rw [entered.pages, if_neg other, page]
  obtain ⟨use, counted, same⟩ := claimed.stays still other
  rw [entered.evictions] at counted same
  exact ⟨use, counted, same⟩

theorem growUpwards_ends (h : Coherent v none) (page : pageIn? v.spaces s a = some p)
    (count : Nat) :
    (growUpwards space count va).Ends v (fun _ w => Coherent w none ∧ Stays v s a p w)
      (fun _ _ => True) := by
  induction count generalizing v va p with
  | zero => exact ⟨h, .refl page⟩
  | succ count ih =>
    unfold growUpwards
    rw [ends_bind, ends_get, ends_ite]
    refine ⟨fun _ => ⟨h, .refl page⟩, fun _ => ?_⟩
    rw [← bind_assoc, ends_bind]
    refine (addStackPage_ends h).mono (fun _ u added => ?_) fun _ _ h => h
    obtain ⟨q, page', -⟩ := (added.stays s a p page).use
    rw [ends_bind]
    refine (ih added.coherent page').mono (fun more w grown => ⟨grown.1, ?_⟩) fun _ _ h => h
    refine (added.stays s a p page).trans fun r there => ?_
    rw [page'] at there
    cases there
    exact grown.2

/-- Nothing is added above the last page that is missing. -/
theorem growUpwards_ends_of_complete {count : Nat}
    (complete : count = 0 ∨ (pageIn? v.spaces space va.floor).isSome = true)
    {E : Stop → VirtualMemory → Prop} :
    (growUpwards space count va).Ends v (fun _ w => w = v) E := by
  cases count with
  | zero => exact rfl
  | succ count =>
    have there := complete.resolve_left (Nat.succ_ne_zero count)
    unfold growUpwards
    rw [ends_bind, ends_get, page?_eq, if_pos there]
    exact rfl

/-- The page is the first one above the lowest page of the stack that there may be yet: growing a
stack down to the page adds no other. -/
def Adjacent (v : VirtualMemory) (space : SpaceId) (va : VirtAddr) : Prop :=
  userStackTop ≤ va.toNat + pageSize ∨
    (pageIn? v.spaces space ⟨va.toNat + pageSize⟩).isSome = true

/-- The page of a fault that made the stack grow: writable, and accessible unless a page had to
leave memory after it was added. -/
structure Grown (v : VirtualMemory) (space : SpaceId) (va : VirtAddr) (w : VirtualMemory) : Prop where
  coherent : Coherent w none
  page : ∃ p, pageIn? w.spaces space va = some p ∧ p.writable = true
  resident : Adjacent v space va ∨ w.counts.evictions = v.counts.evictions → InMemory w space va

/-- The page of an address below the top of the stack is a whole page below it. -/
theorem exists_stack_pages (below : a.toNat < userStackTop) :
    ∃ count, (userStackTop - a.floor.toNat) / pageSize = count + 1 ∧
      (userStackTop ≤ a.floor.toNat + pageSize → count = 0) := by
  have floor : a.floor.toNat = a.toNat / pageSize * pageSize := rfl
  refine ⟨(userStackTop - a.floor.toNat) / pageSize - 1, ?_, ?_⟩ <;> rw [floor] <;>
    simp only [userStackTop, pageSize] at * <;> omega

theorem growStack_ends (h : Coherent v none) (absent : pageIn? v.spaces space a.floor = none)
    (below : a.toNat < userStackTop) :
    (growStack space a).Ends v (fun _ w => Grown v space a.floor w) (fun _ _ => True) := by
  obtain ⟨count, room, last⟩ := exists_stack_pages below
  unfold growStack
  simp only [ends_bind, ends_emit]
  rw [room]
  unfold growUpwards
  rw [ends_bind, ends_get, page?_eq, VirtAddr.floor_floor, absent, Option.isSome_none,
    if_neg Bool.false_ne_true, ← bind_assoc, ends_bind]
  refine (addStackPage_ends h).mono (fun _ u added => ?_) fun _ _ h => h
  obtain ⟨p, f, page, holds, writable⟩ := added.page
  rw [ends_bind]
  by_cases adjacent : Adjacent v space a.floor
  · have complete : count = 0 ∨
        (pageIn? u.spaces space (⟨a.floor.toNat + pageSize⟩ : VirtAddr).floor).isSome = true := by
      refine adjacent.imp last fun there => ?_
      obtain ⟨q, next⟩ := Option.isSome_iff_exists.mp there
      obtain ⟨r, next', -⟩ := (added.stays _ _ q next).use
      rw [VirtAddr.floor_of_isAligned (h.aligned next), next', Option.isSome_some]
    refine (growUpwards_ends_of_complete complete).mono (fun more w same => ?_) fun _ _ h => h
    subst same
    exact ⟨added.coherent, ⟨p, page, writable⟩, fun _ => ⟨p, f, page, holds⟩⟩
  · refine (growUpwards_ends added.coherent page count).mono (fun more w grown => ?_) fun _ _ h => h
    obtain ⟨coherent, stays⟩ := grown
    obtain ⟨q, page', use⟩ := stays.use
    refine ⟨coherent, ⟨q, page', use.2.trans writable⟩, fun reason => ?_⟩
    have none : w.counts.evictions = v.counts.evictions := reason.resolve_left adjacent
    have same : w.counts.evictions = u.counts.evictions :=
      Nat.le_antisymm (none ▸ added.counted) stays.counted
    exact ⟨p, f, stays.same same, holds⟩

/-! ## Faults -/

theorem isStackAccess_iff : isStackAccess a pointer = true ↔
    userStackTop - stackLimit ≤ a.toNat ∧ a.toNat < userStackTop ∧ pointer ≤ a.toNat + 8 := by
  unfold isStackAccess stackBottom pushReach
  simp only [Bool.and_eq_true, decide_eq_true_eq, and_assoc]

/-- What a fault that was served leaves: a page that permits the access, and that is accessible
unless other pages had to be added to the stack as well and a page had to leave memory. -/
structure FaultServed (v : VirtualMemory) (space : SpaceId) (va : VirtAddr) (write : Bool)
    (w : VirtualMemory) : Prop where
  page : ∃ p, pageIn? w.spaces space va = some p ∧ (write = true → p.writable = true)
  accessible : (pageIn? v.spaces space va).isSome = true ∨ Adjacent v space va ∨
    w.counts.evictions = v.counts.evictions → Accessible w space va write

theorem FaultServed.of_page (coherent : Coherent w none) (there : InMemory w space va)
    (permits : ∀ p, pageIn? w.spaces space va = some p → write = true → p.writable = true) :
    FaultServed v space va write w := by
  obtain ⟨p, f, page, holds⟩ := there
  exact ⟨⟨p, page, permits p page⟩,
    fun _ => accessible_of_resident coherent page holds (permits p page)⟩

theorem Grown.faultServed (h : Grown v space va w) (absent : pageIn? v.spaces space va = none) :
    FaultServed v space va write w := by
  obtain ⟨p, page, writable⟩ := h.page
  refine ⟨⟨p, page, fun _ => writable⟩, fun reason => ?_⟩
  have alone : Adjacent v space va ∨ w.counts.evictions = v.counts.evictions := by
    refine reason.resolve_left ?_
    rw [absent]
    exact Bool.false_ne_true
  obtain ⟨q, f, page', holds⟩ := h.resident alone
  rw [page] at page'
  cases page'
  exact accessible_of_resident h.coherent page holds fun _ => writable

/-- The fault itself is counted; nothing else changes by that. -/
def faulted (v : VirtualMemory) : VirtualMemory :=
  { v with counts := { v.counts with faults := v.counts.faults + 1 } }

theorem Coherent.faulted (h : Coherent v none) : Coherent v.faulted none :=
  h.of_same rfl (fun _ => rfl) (.refl _) rfl rfl rfl

/-- Kernel memory starts with a page. -/
theorem isUser_of_floor (h : a.floor.isUser = true) : a.isUser = true := by
  simp only [VirtAddr.isUser, decide_eq_true_eq] at h ⊢
  simp only [VirtAddr.floor, kernelBase, pageSize] at h ⊢
  omega

/-- A fault on a page that permits the access is served by a claim, unless the page is in memory. -/
theorem handleFault_ends_of_page (h : Coherent v none)
    (page : pageIn? v.spaces space a.floor = some p) (notPresent : flags.isNotPresent = true)
    (permits : flags.isWrite = true → p.writable = true) {Q : Unit → VirtualMemory → Prop}
    {E : Stop → VirtualMemory → Prop} :
    (handleFault space a flags pointer).Ends v Q E ↔
      (p.isResident = true → Q () v.faulted) ∧
        (p.isResident = false → (claim space a).Ends v.faulted Q E) := by
  have nonzero := (h.placed page).nonzero
  have user := isUser_of_floor (h.placed page).user
  obtain ⟨x, found⟩ := Option.isSome_iff_exists.mp (isSome_find_of_page page)
  have lookup : x.page? a = some p := by
    rw [← page, pageIn?_of_find found]
    rfl
  unfold handleFault
  simp only [ends_bind, ends_count, ends_ensure, ends_get, nonzero, user, notPresent, found, lookup,
    ends_ite, ends_pure, Bool.not_eq_true, ne_eq, not_false_eq_true, not_true_eq_false,
    true_implies, false_implies, and_true]
  exact ⟨fun both => both.1 permits, fun h => ⟨fun _ => h, fun forbids => absurd permits forbids⟩⟩

/-- What a space lets a program do: its pages, each with whether it may be written. -/
def rights (v : VirtualMemory) (space : SpaceId) (a : VirtAddr) : Option Bool :=
  (pageIn? v.spaces space a).map Page.writable

/-- The error of an access, by the pages of its space and whether they may be written. Several things
may be wrong with it; this is the first that is found. -/
def denial (pages : VirtAddr → Option Bool) (a : VirtAddr) (flags : FaultFlags) (pointer : Nat) :
    Option MemoryError :=
  if a.floor.toNat = 0 then some .invalidAccess
  else if a.isUser = false then some .kernelAddress
  else if flags.isNotPresent = false then some .writeProtected
  else
    match pages a.floor with
    | none => if isStackAccess a pointer then none else some .invalidAccess
    | some writable => if flags.isWrite && !writable then some .writeProtected else none

/-- What a fault comes to: it is refused for its access or for want of the space, or else the stack
grows, or the page, which permits the access, is claimed unless it is in memory. -/
theorem handleFault_cases {Q : Unit → VirtualMemory → Prop} {E : Stop → VirtualMemory → Prop}
    (spaceless : v.spaces.find? space = none → E (.refused .noSuchSpace) v.faulted)
    (denied : ∀ e, denial (v.rights space) a flags pointer = some e → E (.refused e) v.faulted)
    (grows : denial (v.rights space) a flags pointer = none →
      pageIn? v.spaces space a.floor = none → isStackAccess a pointer = true →
      (growStack space a).Ends v.faulted Q E)
    (serves : denial (v.rights space) a flags pointer = none →
      ∀ p, pageIn? v.spaces space a.floor = some p → (flags.isWrite = true → p.writable = true) →
      (p.isResident = true → Q () v.faulted) ∧
        (p.isResident = false → (claim space a).Ends v.faulted Q E)) :
    (handleFault space a flags pointer).Ends v Q E := by
  generalize verdict : denial (v.rights space) a flags pointer = error at denied grows serves
  unfold denial at verdict
  unfold handleFault
  simp only [ends_bind, ends_count, ends_ensure]
  refine ⟨fun notNull => ⟨fun user => ⟨fun missing => ?_, fun present => ?_⟩, fun kernel => ?_⟩,
    fun null => ?_⟩
  · rw [if_neg notNull, user, if_neg Bool.noConfusion, missing, if_neg Bool.noConfusion] at verdict
    rw [ends_get]
    dsimp only
    cases found : v.spaces.find? space with
    | none => exact spaceless found
    | some x =>
      have lookup : x.page? a = pageIn? v.spaces space a.floor := by
        rw [pageIn?_of_find found]
        rfl
      dsimp only
      rw [lookup]
      unfold rights at verdict
      cases page : pageIn? v.spaces space a.floor with
      | none =>
        rw [page, Option.map_none] at verdict
        dsimp only at verdict ⊢
        rw [ends_ite]
        refine ⟨fun stack => ?_, fun beyond => ?_⟩
        · rw [if_pos stack] at verdict
          exact grows verdict.symm page stack
        · rw [if_neg beyond] at verdict
          exact denied _ verdict.symm
      | some p =>
        rw [page, Option.map_some] at verdict
        dsimp only at verdict ⊢
        rw [ends_bind, ends_ensure]
        refine ⟨fun permits => ?_, fun forbids => ?_⟩
        · have allowed : ¬(flags.isWrite && !p.writable) = true := by simpa using permits
          rw [if_neg allowed] at verdict
          obtain ⟨resident, away⟩ := serves verdict.symm p page permits
          rw [ends_ite]
          exact ⟨resident, fun none => away ((Bool.not_eq_true _).mp none)⟩
        · have refused : (flags.isWrite && !p.writable) = true := by simpa using forbids
          rw [if_pos refused] at verdict
          exact denied _ verdict.symm
  · rw [if_neg notNull, user, if_neg Bool.noConfusion,
      if_pos ((Bool.not_eq_true _).mp present)] at verdict
    exact denied _ verdict.symm
  · rw [if_neg notNull, if_pos ((Bool.not_eq_true _).mp kernel)] at verdict
    exact denied _ verdict.symm
  · rw [if_pos (not_not.mp null)] at verdict
    exact denied _ verdict.symm

theorem handleFault_ends (h : Coherent v none) :
    (handleFault space a flags pointer).Ends v
      (fun _ w => FaultServed v space a.floor flags.isWrite w) (fun _ _ => True) := by
  have coherent := h.faulted
  refine handleFault_cases (fun _ => trivial) (fun _ _ => trivial) (fun _ absent stack => ?_)
    fun _ p page permits => ⟨fun resident => ?_, fun away => ?_⟩
  · have below : a.toNat < userStackTop := (isStackAccess_iff.mp stack).2.1
    refine (growStack_ends coherent absent below).mono (fun _ w grown => ?_) fun _ _ h => h
    have served : FaultServed v.faulted space a.floor flags.isWrite w := grown.faultServed absent
    exact ⟨served.page, served.accessible⟩
  · obtain ⟨f, holds⟩ := Option.isSome_iff_exists.mp resident
    refine .of_page coherent ⟨p, f, page, holds⟩ fun q there => ?_
    cases page.symm.trans there
    exact permits
  · refine (claim_cases coherent).mono (fun _ w claimed => ?_) fun _ _ _ => trivial
    refine .of_page claimed.coherent claimed.inMemory fun q there => ?_
    obtain ⟨r, there', use⟩ := claimed.follows.kept page
    cases there.symm.trans there'
    rw [use.2]
    exact permits

/-- In every state that requests lead to: if a fault at an address without a translation is served,
then its page permits the access, and the access can be made, unless the stack grew by other pages
as well and a page had to leave memory meanwhile. -/
theorem fault_served (reached : Reached v)
    (done : (perform (.fault space a flags pointer) v).result = .ok .done) :
    FaultServed v space a.floor flags.isWrite (perform (.fault space a flags pointer) v).state := by
  have ends : (perform (.fault space a flags pointer)).Ends v
      (fun reply w => reply = .done → FaultServed v space a.floor flags.isWrite w)
      (fun _ _ => True) := by
    refine perform_ends_of_serve ?_
    have served : serve (.fault space a flags pointer) =
        VirtualMemory.done (handleFault space a flags pointer) := rfl
    rw [served, VirtualMemory.done, ends_bind]
    refine (handleFault_ends reached.inOrder.1).mono (fun _ w served _ => served) fun e w _ => ?_
    cases e with
    | refused e =>
      intro same
      cases same
    | violated x => exact trivial
  exact ends.of_ok done rfl

/-- The page below that of the top of a stack. -/
def secondPage : VirtAddr := ⟨userStackTop - 2 * pageSize⟩

/-- Where there are frames enough, the page of the fault stays in memory while the stack grows. -/
theorem fault_served_roomy :
    (perform (.fault ⟨1⟩ secondPage ⟨6⟩ secondPage.toNat) (after (new 2 0).1 [.createSpace])).result =
        .ok .done ∧
      FaultServed (after (new 2 0).1 [.createSpace]) ⟨1⟩ secondPage.floor true
        (perform (.fault ⟨1⟩ secondPage ⟨6⟩ secondPage.toNat)
          (after (new 2 0).1 [.createSpace])).state ∧
      (perform (.fault ⟨1⟩ secondPage ⟨6⟩ secondPage.toNat)
        (after (new 2 0).1 [.createSpace])).state.counts.evictions = 0 := by
  have done : (perform (.fault ⟨1⟩ secondPage ⟨6⟩ secondPage.toNat)
      (after (new 2 0).1 [.createSpace])).result = .ok .done := by decide +kernel
  exact ⟨done, fault_served (reached_after 2 0 [.createSpace]) done, by decide +kernel⟩

/-! ## Faults that are served in vain -/

/-- A fault is served, and the access it was for will fault again. -/
structure ServedInVain (v : VirtualMemory) (space : SpaceId) (a : VirtAddr) (flags : FaultFlags)
    (pointer : Nat) : Prop where
  reached : Reached v
  notPresent : flags.isNotPresent = true
  done : (perform (.fault space a flags pointer) v).result = .ok .done
  missing : ¬Accessible (perform (.fault space a flags pointer) v).state space a.floor flags.isWrite

/-- With one frame, the page above the page of the fault takes its place. -/
theorem servedInVain_single :
    ServedInVain (after (new 1 64).1 [.createSpace]) ⟨1⟩ secondPage ⟨6⟩ secondPage.toNat := by
  refine ⟨reached_after 1 64 [.createSpace], by decide, by decide +kernel, ?_⟩
  have away : (pageIn? (perform (.fault ⟨1⟩ secondPage ⟨6⟩ secondPage.toNat)
      (after (new 1 64).1 [.createSpace])).state.spaces ⟨1⟩ secondPage.floor).bind Page.frame =
      none := by decide +kernel
  rintro ⟨p, f, x, e, page, holds, -⟩
  rw [page, Option.bind_some, holds] at away
  cases away

/-! ## Faults that cannot be served -/

/-- Every changed page of a file in memory can go back: the file still has its stretch, and no
write to the file is to come short. -/
def Unhampered (v : VirtualMemory) : Prop :=
  ∀ o p b, pageIn? v.spaces (PageRef.space o) o.va = some p → p.kind = .file b →
    p.isResident = true → v.mmu.isDirty o.space o.va = true →
    b.Within v.files.image ∧ v.files.shortWrites (v.files.image.fileOf b.file) = 0

theorem NoFrame.isFatal {e : Stop} {files : FileStore} (h : NoFrame v e files)
    (unhampered : Unhampered v) : e = .refused .outOfMemory ∨ e = .refused .outOfSwap := by
  cases h with
  | unavailable => exact .inl rfl
  | full => exact .inr rfl
  | @cameShort o p f x b _ page kind holds _ dirty short =>
    have resident : p.isResident = true := by rw [Page.isResident, holds, Option.isSome_some]
    obtain ⟨within, none⟩ := unhampered o p b page kind resident dirty
    obtain ⟨n, -, -, reason⟩ := short
    have some := reason within
    rw [none] at some
    cases some

theorem NoFrame.of_faulted {e : Stop} {files : FileStore} (h : NoFrame v.faulted e files) :
    NoFrame v e files := by
  cases h with
  | unavailable => exact .unavailable
  | full => exact .full
  | cameShort page kind holds frame dirty short =>
    exact .cameShort page kind holds frame dirty short

/-- A fault on a page that permits the access and can be loaded is served unless no frame is
found. -/
theorem handleFault_ends_of_loadable (h : Coherent v none)
    (page : pageIn? v.spaces space a.floor = some p) (notPresent : flags.isNotPresent = true)
    (permits : flags.isWrite = true → p.writable = true) (loads : Loadable v p) :
    (handleFault space a flags pointer).Ends v (fun _ _ => True)
      (fun e w => NoFrame v e w.files) := by
  rw [handleFault_ends_of_page h page notPresent permits]
  refine ⟨fun _ => trivial, fun _ => ?_⟩
  refine (claim_cases h.faulted).mono (fun _ _ _ => trivial) fun e w stopped => ?_
  rcases stopped with ⟨absent, -⟩ | ⟨q, there, away, unclaimed⟩
  · cases page.symm.trans absent
  · cases page.symm.trans there
    cases unclaimed with
    | roomless stopped _ => exact stopped.reason.of_faulted
    | absent obtained _ there reason _ =>
      have loads' : Loadable v.faulted p := ⟨loads.comes, loads.sourced, loads.maps⟩
      exact absurd reason (obtained.not_notBroughtIn there away loads')

end KernelCore.VirtualMemory
