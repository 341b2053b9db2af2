import KernelCore.Proofs.Paging.Faulting

/-!
# Stacks that grow

A stack grows from the page of the fault upwards, page by page, to the first page that is there
already or to the top. Every page is entered and claimed at once, and the claim may put any page
out of memory, one that was just added as well. What a page is and what users see of it does not
depend on that: after the whole loop the pages of the gap are there and full of zeros, and every
other page is what it was.
-/
namespace KernelCore

/-- An operation stops for want of something, or because there is nothing to act on; the access it
was made for is not to blame. -/
def Stop.IsBlameless (e : Stop) : Prop := ∃ r, e = .refused r ∧ r.isAccessError = false

theorem Stop.IsBlameless.isRefusal {e : Stop} (h : e.IsBlameless) : e.IsRefusal := by
  obtain ⟨r, rfl, -⟩ := h
  exact ⟨r, rfl⟩

theorem MemoryError.isAccessError_ofMap (e : MapError) : (ofMap e).isAccessError = false := by
  cases e <;> rfl

/-- An anonymous page that was touched, apart from where its contents are. -/
theorem Page.outline_of_anonymous {p : Page} (type : p.type = .anonymous)
    (touched : p.isUntouched = false) : p.outline = ⟨p.writable, none, .anonymous none⟩ := by
  unfold Page.type at type
  unfold isUntouched at touched
  unfold outline
  cases kind : p.kind with
  | untouched target loader =>
    rw [kind] at touched
    cases touched
  | anonymous slot => rfl
  | file b =>
    rw [kind] at type
    cases type

/-- First accesses to one page change no other. -/
theorem Happens.page_of_loads {space s : SpaceId} {va a : VirtAddr} {m m' : FlatMemory}
    (h : Happens (MemoryEvent.IsLoad space va) m m') (other : ¬(s = space ∧ a = va)) :
    m'.page s a = m.page s a := by
  obtain ⟨es, kinds, history⟩ := h
  induction history with
  | start => rfl
  | @step past m' e _ _ ih =>
    have before := ih fun e he => kinds e (by simp [he])
    have kind := kinds e (by simp)
    cases e with
    | loaded t b _ =>
      obtain ⟨rfl, rfl⟩ := kind
      exact (if_neg other).trans before
    | _ => exact kind.elim

namespace VirtualMemory

open Transition

variable {u v w : VirtualMemory} {space s : SpaceId} {va a b : VirtAddr} {p : Page}
  {P Q : VirtAddr → Prop} {flags : FaultFlags} {pointer : Nat}

/-! ## Nothing on the way blames the access -/

theorem NoFrame.isBlameless {e : Stop} {files : FileStore} (h : NoFrame v e files) :
    e.IsBlameless := by
  cases h <;> exact ⟨_, rfl, rfl⟩

theorem NotBroughtIn.isBlameless {o : PageRef} {e : Stop} (h : NotBroughtIn v o p e) :
    e.IsBlameless := by
  cases h with
  | short _ => exact ⟨_, rfl, rfl⟩
  | sourceless _ => exact ⟨_, rfl, rfl⟩
  | unmapped _ => exact ⟨_, rfl, MemoryError.isAccessError_ofMap _⟩

theorem Unclaimed.isBlameless {e : Stop} (h : Unclaimed v space va p e w) : e.IsBlameless := by
  cases h with
  | roomless stopped _ => exact stopped.reason.isBlameless
  | absent _ _ _ reason _ => exact reason.isBlameless

theorem claim_blameless (h : Coherent v none) :
    (claim space va).Ends v (fun _ _ => True) (fun e _ => e.IsBlameless) := by
  refine (claim_cases h).mono (fun _ _ _ => trivial) fun e w stopped => ?_
  rcases stopped with ⟨-, rfl, -⟩ | ⟨p, -, -, unclaimed⟩
  · exact ⟨_, rfl, rfl⟩
  · exact unclaimed.isBlameless

theorem enterPage_blameless (placed : va.IsUserPage) (p : Page) :
    (enterPage space va p).Ends v (fun _ _ => True) (fun e _ => e.IsBlameless) := by
  unfold enterPage
  cases found : v.spaces.find? space with
  | none =>
    rw [ends_update_of_error (by rw [found])]
    exact ⟨_, rfl, rfl⟩
  | some x =>
    rcases insertPage_cases x va p with ⟨-, unaligned⟩ | ⟨result, -⟩ | ⟨result, -⟩
    · rw [placed.aligned] at unaligned
      cases unaligned
    · rw [ends_update_of_error (by rw [found]; dsimp only; rw [result]; rfl)]
      exact ⟨_, rfl, rfl⟩
    · rw [ends_update_of_ok (by rw [found]; dsimp only; rw [result]; rfl)]
      trivial

theorem allocateAnonymous_blameless (placed : va.IsUserPage) (writable : Bool) :
    (allocateAnonymous space va writable).Ends v (fun _ _ => True) (fun e _ => e.IsBlameless) := by
  unfold allocateAnonymous allocateLazy
  rw [ends_bind, ends_ensure]
  refine ⟨fun _ => ?_, fun bad => absurd ⟨placed.aligned, placed.nonzero⟩ bad⟩
  rw [ends_bind, ends_ensure]
  exact ⟨fun _ => enterPage_blameless placed _, fun bad => absurd placed.user bad⟩

/-! ## Pages that are added -/

/-- The pages `P` of a space were added to it: writable anonymous pages full of zeros, wherever
their contents are. Every other page of every space is what it was, wherever it is. -/
structure Filled (v : VirtualMemory) (space : SpaceId) (P : VirtAddr → Prop) (w : VirtualMemory) :
    Prop where
  added : ∀ a, P a → (pageIn? w.spaces space a).map Page.outline =
      some ⟨true, none, .anonymous none⟩ ∧ w.flat.page space a = some (.loaded .zeros)
  others : ∀ s a, ¬(s = space ∧ P a) →
    (pageIn? w.spaces s a).map Page.outline = (pageIn? v.spaces s a).map Page.outline ∧
      w.flat.page s a = v.flat.page s a

theorem Filled.of_empty (empty : ∀ a, ¬P a) : Filled v space P v :=
  ⟨fun a here => (empty a here).elim, fun _ _ _ => ⟨rfl, rfl⟩⟩

theorem Filled.trans (h : Filled u space P v) (h' : Filled v space Q w) :
    Filled u space (fun a => P a ∨ Q a) w where
  added a here := by
    by_cases later : Q a
    · exact h'.added a later
    · obtain ⟨outline, flat⟩ := h'.others space a fun both => later both.2
      obtain ⟨first, zeros⟩ := h.added a (here.resolve_right later)
      exact ⟨outline.trans first, flat.trans zeros⟩
  others s a other := by
    obtain ⟨outline, flat⟩ := h.others s a fun here => other ⟨here.1, .inl here.2⟩
    obtain ⟨outline', flat'⟩ := h'.others s a fun here => other ⟨here.1, .inr here.2⟩
    exact ⟨outline'.trans outline, flat'.trans flat⟩

/-- A page is there afterwards if it was there before or was added. -/
theorem Filled.isSome (h : Filled v space P w) (s a) :
    (pageIn? w.spaces s a).isSome = true ↔
      (pageIn? v.spaces s a).isSome = true ∨ s = space ∧ P a := by
  by_cases here : s = space ∧ P a
  · obtain ⟨rfl, new⟩ := here
    obtain ⟨q, page, -⟩ := Option.map_eq_some_iff.mp (h.added a new).1
    simp [page, new]
  · have same := congrArg Option.isSome (h.others s a here).1
    simp only [Option.isSome_map] at same
    simp [same, here]

/-- A claim changes no other page, apart from where its contents are. -/
theorem claim_others (h : Coherent v none) :
    (claim space va).Ends v
      (fun _ w => ∀ s a, ¬(s = space ∧ a = va.floor) →
        (pageIn? w.spaces s a).map Page.outline = (pageIn? v.spaces s a).map Page.outline ∧
          w.flat.page s a = v.flat.page s a)
      (fun _ _ => True) := by
  unfold claim
  simp only [ends_bind, ends_get, page?_eq, VirtAddr.floor_floor]
  cases page : pageIn? v.spaces space va.floor with
  | none => trivial
  | some p =>
    dsimp only
    rw [ends_ite]
    refine ⟨fun _ _ _ _ => ⟨rfl, rfl⟩, fun away => ?_⟩
    have frame : p.frame = none := Option.not_isSome_iff_eq_none.mp away
    rw [ends_bind]
    refine (obtainFrame_ends h).mono (fun f u obtained => ?_) fun _ _ _ => trivial
    have there := obtained.room.away page frame
    refine (install_ends obtained.coherent there frame).mono (fun _ w installed s a other => ?_)
      fun _ _ _ => trivial
    constructor
    · rw [installed.others s a other, obtained.room.outline]
    · rw [installed.happens.page_of_loads other, page_of_writeBacks obtained.room.follows.happens]

/-- A page that was missing is added to the stack. -/
theorem addStackPage_fills (h : Coherent v none) (placed : va.IsUserPage) :
    (allocateAnonymous space va true >>= fun _ => claim space va).Ends v
      (fun _ w => Coherent w none ∧ Filled v space (· = va) w) (fun e _ => e.IsBlameless) := by
  rw [ends_bind]
  refine ((allocateLazy_ends h true .anonymous .zeroFill).and
    (allocateAnonymous_blameless placed true)).mono (fun _ u entry => ?_) fun _ _ stopped => stopped.2
  obtain ⟨⟨coherent, entered⟩, -⟩ := entry
  have floor := VirtAddr.floor_of_isAligned placed.aligned
  have fresh : pageIn? u.spaces space va = some (.fresh true .anonymous .zeroFill) := by
    rw [entered.pages, if_pos ⟨rfl, rfl⟩]
  refine (((claim_cases coherent).and (claim_others coherent)).and (claim_blameless coherent)).mono
    (fun _ w all => ?_) fun _ _ stopped => stopped.2
  obtain ⟨⟨claimed, others⟩, -⟩ := all
  have zeros := claimed.flat (floor.symm ▸ fresh) rfl rfl
  rw [floor] at claimed others zeros
  refine ⟨claimed.coherent, fun a here => ?_, fun s a other => ?_⟩
  · subst here
    obtain ⟨p, q, f, -, before, page, writable, holds, -⟩ := claimed.page
    cases fresh.symm.trans before
    obtain ⟨r, page', use⟩ := claimed.follows.kept fresh
    cases page.symm.trans page'
    have touched := (claimed.coherent.settled page holds).1
    rw [page, Option.map_some, Page.outline_of_anonymous use.1 touched, writable]
    exact ⟨rfl, zeros⟩
  · obtain ⟨outline, flat⟩ := others s a other
    rw [outline, flat, entered.pages, entered.flatPage rfl rfl h, if_neg other, if_neg other]
    exact ⟨rfl, rfl⟩

/-! ## The gap -/

/-- The page at `b` is missing, and so is every page of the stack from `bottom` up to it. -/
structure Gap (spaces : Table SpaceId AddressSpace) (space : SpaceId) (bottom b : VirtAddr) :
    Prop where
  aligned : b.isAligned = true
  above : bottom.toNat ≤ b.toNat
  below : b.toNat < userStackTop
  missing : ∀ c : VirtAddr, c.isAligned = true → bottom.toNat ≤ c.toNat → c.toNat ≤ b.toNat →
    pageIn? spaces space c = none

/-- No page lies between two that follow each other. -/
theorem eq_or_next_le (ha : a.isAligned = true) (hb : b.isAligned = true)
    (le : a.toNat ≤ b.toNat) : b = a ∨ a.toNat + pageSize ≤ b.toNat := by
  obtain ⟨m⟩ := a
  obtain ⟨n⟩ := b
  simp only [VirtAddr.isAligned, decide_eq_true_eq] at ha hb
  simp only [VirtAddr.mk.injEq, pageSize] at *
  omega

theorem isAligned_next (h : a.isAligned = true) :
    (⟨a.toNat + pageSize⟩ : VirtAddr).isAligned = true := by
  simp only [VirtAddr.isAligned, decide_eq_true_eq] at *
  rw [Nat.add_mod_right, h]

/-- After the lowest page of a gap was added, the rest of the gap begins with the next page. -/
theorem gap_iff_next (aligned : a.isAligned = true) (below : a.toNat < userStackTop)
    (absent : pageIn? v.spaces space a = none) (filled : Filled v space (· = a) u) :
    Gap v.spaces space a b ↔ b = a ∨ Gap u.spaces space ⟨a.toNat + pageSize⟩ b := by
  have positive := pageSize_pos
  have same : ∀ c, c ≠ a → (pageIn? u.spaces space c = none ↔ pageIn? v.spaces space c = none) := by
    intro c other
    have there := filled.isSome space c
    simp only [true_and, or_iff_left other] at there
    rw [← Option.not_isSome_iff_eq_none, ← Option.not_isSome_iff_eq_none, there]
  constructor
  · intro gap
    refine (eq_or_next_le aligned gap.aligned gap.above).imp_right fun above => ?_
    refine ⟨gap.aligned, above, gap.below, fun c hc low high => ?_⟩
    dsimp only at low
    exact (same c fun here => by rw [here] at low; omega).mpr (gap.missing c hc (by omega) high)
  · rintro (rfl | rest)
    · refine ⟨aligned, Nat.le_refl _, below, fun c _ low high => ?_⟩
      have here : c = b := by
        obtain ⟨n⟩ := c
        exact congrArg VirtAddr.mk (Nat.le_antisymm high low)
      rw [here, absent]
    · have above := rest.above
      dsimp only at above
      refine ⟨rest.aligned, by omega, rest.below, fun c hc low high => ?_⟩
      rcases eq_or_next_le aligned hc low with rfl | next
      · exact absent
      · exact (same c fun here => by rw [here] at next; omega).mp (rest.missing c hc next high)

/-- The loop fills the gap: each round adds its lowest page, and the others are the gap of what is
left then. -/
theorem growUpwards_fills (h : Coherent v none) (aligned : va.isAligned = true)
    (nonzero : va.toNat ≠ 0) {count : Nat} (room : va.toNat + count * pageSize = userStackTop) :
    (growUpwards space count va).Ends v
      (fun _ w => Coherent w none ∧ Filled v space (Gap v.spaces space va) w)
      (fun e _ => e.IsBlameless) := by
  induction count generalizing v va with
  | zero =>
    refine ⟨h, .of_empty fun b gap => ?_⟩
    have low := gap.above
    have high := gap.below
    omega
  | succ count ih =>
    have positive := pageSize_pos
    have step : (count + 1) * pageSize = pageSize + count * pageSize := by
      rw [Nat.succ_mul, Nat.add_comm]
    have below : va.toNat < userStackTop := by omega
    unfold growUpwards
    rw [ends_bind, ends_get, ends_ite, page?_eq, VirtAddr.floor_of_isAligned aligned]
    refine ⟨fun there => ⟨h, .of_empty fun b gap => ?_⟩, fun missing => ?_⟩
    · rw [gap.missing va aligned (Nat.le_refl _) gap.above] at there
      cases there
    · have absent := Option.not_isSome_iff_eq_none.mp missing
      have user : va.isUser = true := by
        have low : userStackTop ≤ kernelBase := by decide
        simp only [VirtAddr.isUser, decide_eq_true_eq]
        omega
      rw [← bind_assoc, ends_bind]
      refine (addStackPage_fills h ⟨aligned, user, nonzero⟩).mono (fun _ u added => ?_)
        fun _ _ stopped => stopped
      obtain ⟨coherent, filled⟩ := added
      rw [ends_bind]
      refine (ih coherent (isAligned_next aligned) (by dsimp only; omega)
        (by dsimp only; omega)).mono (fun more w rest => ⟨rest.1, ?_⟩) fun _ _ stopped => stopped
      have gap : Gap v.spaces space va =
          fun b => b = va ∨ Gap u.spaces space ⟨va.toNat + pageSize⟩ b :=
        funext fun b => propext (gap_iff_next aligned below absent filled)
      rw [gap]
      exact filled.trans rest.2

/-- The pages from that of a stack access up to the top of the stack. -/
theorem stack_room (below : a.toNat < userStackTop) :
    a.floor.toNat + (userStackTop - a.floor.toNat) / pageSize * pageSize = userStackTop := by
  have floor : a.floor.toNat = a.toNat / pageSize * pageSize := rfl
  rw [floor]
  simp only [userStackTop, pageSize] at *
  omega

theorem growStack_fills (h : Coherent v none) (stack : isStackAccess a pointer = true) :
    (growStack space a).Ends v
      (fun _ w => Coherent w none ∧ Filled v space (Gap v.spaces space a.floor) w)
      (fun e _ => e.IsBlameless) := by
  obtain ⟨bottom, below, -⟩ := isStackAccess_iff.mp stack
  have nonzero : a.floor.toNat ≠ 0 := by
    simp only [VirtAddr.floor, userStackTop, stackLimit, pageSize] at *
    omega
  unfold growStack
  simp only [ends_bind, ends_emit]
  exact growUpwards_fills h a.isAligned_floor nonzero (stack_room below)

/-! ## The loop ends -/

/-- The loop that adds the missing pages from an address upwards, as an equation: it goes on while
it is below the top of the stack and has not come to a page that exists. Where a loop went on for
ever, the equation would leave open what it yields. -/
def GrowsUpwards (space : SpaceId) (loop : VirtAddr → Paging Nat) : Prop :=
  ∀ va, loop va =
    if va.toNat < userStackTop then do
      let v ← get
      if (v.page? space va).isSome then pure 0
      else
        allocateAnonymous space va true
        claim space va
        let more ← loop ⟨va.toNat + pageSize⟩
        pure (more + 1)
    else pure 0

/-- The number of pages that begin at an address or above it and below the top of the stack. -/
def roundsLeft (va : VirtAddr) : Nat := (userStackTop - va.toNat + (pageSize - 1)) / pageSize

theorem roundsLeft_of_top_le (h : ¬va.toNat < userStackTop) : roundsLeft va = 0 := by
  unfold roundsLeft
  simp only [pageSize] at *
  omega

theorem roundsLeft_of_lt (h : va.toNat < userStackTop) :
    roundsLeft va = roundsLeft ⟨va.toNat + pageSize⟩ + 1 := by
  unfold roundsLeft
  simp only [pageSize] at *
  omega

theorem roundsLeft_floor (a : VirtAddr) :
    roundsLeft a.floor = (userStackTop - a.floor.toNat) / pageSize := by
  have floor : a.floor.toNat = a.toNat / pageSize * pageSize := rfl
  unfold roundsLeft
  rw [floor]
  simp only [userStackTop, pageSize]
  omega

theorem growUpwards_succ (space : SpaceId) (count : Nat) (va : VirtAddr) :
    growUpwards space (count + 1) va = (do
      let v ← get
      if (v.page? space va).isSome then pure 0
      else
        allocateAnonymous space va true
        claim space va
        let more ← growUpwards space count ⟨va.toNat + pageSize⟩
        pure (more + 1)) := rfl

/-- No round is the last one for want of rounds. -/
theorem growsUpwards_growUpwards (space : SpaceId) :
    GrowsUpwards space fun va => growUpwards space (roundsLeft va) va := by
  intro va
  dsimp only
  by_cases below : va.toNat < userStackTop
  · rw [if_pos below, roundsLeft_of_lt below, growUpwards_succ]
  · rw [if_neg below, roundsLeft_of_top_le below, growUpwards]

theorem GrowsUpwards.eq {loop : VirtAddr → Paging Nat} (h : GrowsUpwards space loop) :
    loop = fun va => growUpwards space (roundsLeft va) va := by
  funext va
  generalize rounds : roundsLeft va = n
  induction n generalizing va with
  | zero =>
    have top : ¬va.toNat < userStackTop := fun below => by
      have more := roundsLeft_of_lt below
      omega
    rw [h va, if_neg top, growUpwards]
  | succ n ih =>
    have below : va.toNat < userStackTop := by
      by_contra top
      have spent := roundsLeft_of_top_le top
      omega
    have more := roundsLeft_of_lt below
    rw [h va, if_pos below, ih _ (by omega), growUpwards_succ]

/-! ## Faults on missing pages -/

/-- What is left when the stack has grown down to a page. -/
structure StackGrown (v : VirtualMemory) (space : SpaceId) (bottom : VirtAddr) (w : VirtualMemory) :
    Prop where
  /-- The pages of the gap came, and no other page came or went. -/
  pages : ∀ s b, (pageIn? w.spaces s b).isSome = true ↔
    (pageIn? v.spaces s b).isSome = true ∨ s = space ∧ Gap v.spaces space bottom b
  /-- The new pages are writable, anonymous and full of zeros, in memory or not. -/
  added : ∀ b, Gap v.spaces space bottom b →
    (∃ q, pageIn? w.spaces space b = some q ∧ q.writable = true ∧ q.type = .anonymous) ∧
      w.flat.page space b = some (.loaded .zeros)
  limit : ∀ b, Gap v.spaces space bottom b → userStackTop - stackLimit ≤ b.toNat
  /-- All other pages are what they were, in memory or not, and the anonymous ones have what they
  had. -/
  kept : ∀ s b p, pageIn? v.spaces s b = some p →
    ∃ q, pageIn? w.spaces s b = some q ∧ q.outline = p.outline ∧
      w.flat.page s b = v.flat.page s b

theorem Filled.stackGrown (filled : Filled v space (Gap v.spaces space a.floor) w)
    (stack : isStackAccess a pointer = true) : StackGrown v space a.floor w where
  pages := filled.isSome
  added b gap := by
    obtain ⟨outline, zeros⟩ := filled.added b gap
    obtain ⟨q, page, outline⟩ := Option.map_eq_some_iff.mp outline
    have use : (⟨true, none, .anonymous none⟩ : Page).SameUse q := Page.sameUse_of_outline outline
    exact ⟨⟨q, page, use.2, use.1⟩, zeros⟩
  limit b gap := by
    have above := gap.above
    have bottom := (isStackAccess_iff.mp stack).1
    simp only [VirtAddr.floor, userStackTop, stackLimit, pageSize] at *
    omega
  kept s b p page := by
    have old : ¬(s = space ∧ Gap v.spaces space a.floor b) := by
      rintro ⟨rfl, gap⟩
      rw [gap.missing b gap.aligned gap.above (Nat.le_refl _)] at page
      cases page
    obtain ⟨outline, flat⟩ := filled.others s b old
    rw [page, Option.map_some] at outline
    obtain ⟨q, page', same⟩ := Option.map_eq_some_iff.mp outline
    exact ⟨q, page', same, flat⟩

/-- In every state that requests lead to, a fault on a missing page ends. If it is served then the
stack has grown by exactly the gap above it. The loop that fills the gap ends from every address
and in every state: its equation has exactly one solution, and the kernel runs that one. -/
theorem fault_fills_gap (reached : Reached v) (missing : pageIn? v.spaces space a.floor = none) :
    (∃ reply, (perform (.fault space a flags pointer) v).result = .ok reply) ∧
      ((perform (.fault space a flags pointer) v).result = .ok .done →
        StackGrown v space a.floor (perform (.fault space a flags pointer) v).state) ∧
      (∃! loop, GrowsUpwards space loop) ∧
      ∀ loop, GrowsUpwards space loop →
        loop a.floor = growUpwards space ((userStackTop - a.floor.toNat) / pageSize) a.floor := by
  have ends : (perform (.fault space a flags pointer)).Ends v
      (fun reply w => reply = .done ∧ StackGrown v space a.floor w ∨
        ∃ r, reply = .refused r ∧ True) (fun _ _ => False) := by
    refine perform_ends_of_done rfl (handleFault_cases (fun _ => ⟨_, rfl, trivial⟩)
      (fun e _ => ⟨e, rfl, trivial⟩) (fun _ _ stack => ?_) fun _ p page => ?_)
    · refine (growStack_fills reached.inOrder.1.faulted stack).mono (fun _ w grown => ?_)
        fun e w stopped => ?_
      · have filled : Filled v space (Gap v.spaces space a.floor) w :=
          ⟨grown.2.added, grown.2.others⟩
        exact filled.stackGrown stack
      · obtain ⟨r, rfl⟩ := stopped.isRefusal
        exact ⟨r, rfl, trivial⟩
    · rw [missing] at page
      cases page
  obtain ⟨reply, result, -⟩ := ends.exists_ok
  refine ⟨⟨reply, result⟩, fun done => ?_, ?_, fun loop grows => ?_⟩
  · rcases ends.of_ok done with ⟨-, grown⟩ | ⟨r, refused, -⟩
    · exact grown
    · cases refused
  · exact ⟨_, growsUpwards_growUpwards space, fun loop grows => grows.eq⟩
  · rw [grows.eq]
    dsimp only
    rw [roundsLeft_floor]

/-- There is one frame, and the top of the stack is in it. -/
def narrow : List Request := [.createSpace, .setupStack ⟨1⟩]

def fourthPage : VirtAddr := ⟨userStackTop - 4 * pageSize⟩

/-- Three pages are added, each in the place of the one before: the one that was there leaves memory
first, and in the end two of the new ones are out of it as well. -/
theorem fault_fills_gap_narrow :
    pageIn? (after (new 1 64).1 narrow).spaces ⟨1⟩ fourthPage.floor = none ∧
      (perform (.fault ⟨1⟩ fourthPage ⟨6⟩ fourthPage.toNat) (after (new 1 64).1 narrow)).result =
        .ok .done ∧
      (perform (.fault ⟨1⟩ fourthPage ⟨6⟩ fourthPage.toNat)
        (after (new 1 64).1 narrow)).state.counts.evictions = 3 ∧
      StackGrown (after (new 1 64).1 narrow) ⟨1⟩ fourthPage.floor
        (perform (.fault ⟨1⟩ fourthPage ⟨6⟩ fourthPage.toNat) (after (new 1 64).1 narrow)).state := by
  have missing : pageIn? (after (new 1 64).1 narrow).spaces ⟨1⟩ fourthPage.floor = none := by
    decide +kernel
  have done : (perform (.fault ⟨1⟩ fourthPage ⟨6⟩ fourthPage.toNat)
      (after (new 1 64).1 narrow)).result = .ok .done := by decide +kernel
  exact ⟨missing, done, by decide +kernel,
    (fault_fills_gap (reached_after 1 64 narrow) missing).2.1 done⟩

end VirtualMemory

end KernelCore
