import KernelCore.Paging.Fault
import KernelCore.Proofs.Paging.Installing

/-!
# Entering pages and serving faults

Pages are entered untouched and brought into memory when they are accessed. Whatever comes of it,
memory stays coherent, and all that users see is untouched pages that were entered and pages that
were loaded.
-/
namespace KernelCore

namespace Stop

def IsRefusal (e : Stop) : Prop := ∃ r, e = .refused r

/-- A refusal, or a sum or product that is no word. -/
def IsRefusalOrFault (e : Stop) : Prop := e.IsRefusal ∨ ∃ f, e = .violated (.arithmetic f)

end Stop

/-- What serving a fault of a space may cause: its stack may grow. -/
def MemoryEvent.IsFault (space : SpaceId) : MemoryEvent → Prop
  | .wroteBack .. => True
  | .loaded s _ _ => s = space
  | .entered s _ loader => s = space ∧ loader = .zeroFill
  | _ => False

/-- An untouched page of a segment was entered: page number `i` of it, with its stretch of the
file. -/
def MemoryEvent.IsSegmentEntry (space : SpaceId) (file : DescriptionId) (offset : Nat)
    (start : VirtAddr) (readBytes : Nat) : MemoryEvent → Prop
  | .entered s a (.segment b) => s = space ∧ ∃ i, start.addPages i = .ok a ∧
    FileBacking.ofStretch file offset readBytes i = .ok b
  | _ => False

/-- A page that is to become a file page was entered. -/
def CacheEvent.IsEntry (target : PageType) (space : SpaceId) : CacheEvent → Prop
  | .entered s _ => target = .file ∧ s = space
  | _ => False

theorem CacheEvent.not_isEntry_anonymous {space : SpaceId} {e : CacheEvent} :
    ¬e.IsEntry .anonymous space := by
  cases e <;> first | exact id | exact fun h => nomatch h.1

theorem MemoryEvent.IsPaging.isFault {space : SpaceId} {e : MemoryEvent} (h : e.IsPaging space) :
    e.IsFault space := by
  cases e <;> first | exact h | exact h.elim

namespace VirtualMemory

open Transition

variable {α β : Type} {P P' : MemoryEvent → Prop} {K : CacheEvent → Prop} {A A' : Stop → Prop}
  {v w : VirtualMemory}
  {space s : SpaceId} {va a : VirtAddr} {p : Page}

/-- Whether it stops or not, the operation leads to a coherent state by events of the kind `P`, and
in the cache by those of the kind `K`. It stops only for reasons of the kind `A`. -/
def Keeps (P : MemoryEvent → Prop) (K : CacheEvent → Prop) (A : Stop → Prop) (t : Paging α)
    (v : VirtualMemory) : Prop :=
  t.Ends v (fun _ w => Coherent w none ∧ Follows P v w ∧ Leads K v.cache w.cache)
    (fun e w => A e ∧ Coherent w none ∧ Follows P v w ∧ Leads K v.cache w.cache)

theorem Keeps.bind {t : Paging α} {next : α → Paging β} (h : Keeps P K A t v)
    (go : ∀ a w, Coherent w none → Follows P v w → Keeps P K A (next a) w) :
    Keeps P K A (t >>= next) v := by
  unfold Keeps
  rw [ends_bind]
  refine h.mono (fun a w ⟨coherent, follows, leads⟩ => ?_) fun _ _ h => h
  refine (go a w coherent follows).mono (fun _ u ⟨coherent', follows', leads'⟩ => ?_)
    fun e u ⟨reason, coherent', follows', leads'⟩ => ?_
  · exact ⟨coherent', follows.trans follows', leads.trans leads'⟩
  · exact ⟨reason, coherent', follows.trans follows', leads.trans leads'⟩

theorem Keeps.mono {t : Paging α} (h : Keeps P K A t v) (events : ∀ e, P e → P' e)
    (reasons : ∀ e, A e → A' e) : Keeps P' K A' t v :=
  Ends.mono h (fun _ _ ⟨coherent, follows, leads⟩ => ⟨coherent, follows.mono events, leads⟩)
    fun e _ ⟨reason, coherent, follows, leads⟩ =>
      ⟨reasons e reason, coherent, follows.mono events, leads⟩

theorem Keeps.cached_mono {K' : CacheEvent → Prop} {t : Paging α} (h : Keeps P K A t v)
    (events : ∀ e, K e → K' e) : Keeps P K' A t v :=
  Ends.mono h (fun _ _ ⟨coherent, follows, leads⟩ => ⟨coherent, follows, leads.mono events⟩)
    fun _ _ ⟨reason, coherent, follows, leads⟩ => ⟨reason, coherent, follows, leads.mono events⟩

theorem Keeps.pure (h : Coherent v none) (a : α) : Keeps P K A (pure a : Paging α) v :=
  ⟨h, .refl v, .refl _⟩

/-- A check that may refuse. -/
theorem Keeps.ensure (h : Coherent v none) (c : Prop) [Decidable c] {e : Stop} (reason : A e) :
    Keeps P K A (Transition.ensure c e : Paging Unit) v := by
  unfold Keeps
  rw [ends_ensure]
  exact ⟨fun _ => ⟨h, .refl v, .refl _⟩, fun _ => ⟨reason, h, .refl v, .refl _⟩⟩

/-- A sum or product that may be no word. -/
theorem Keeps.checked_bind (h : Coherent v none) {x : Except ArithmeticFault α}
    {next : α → Paging β} (reason : ∀ f, A (.violated (.arithmetic f)))
    (go : ∀ a, x = .ok a → Keeps P K A (next a) v) :
    Keeps P K A ((Transition.checked x : Paging α) >>= next) v := by
  unfold Keeps
  rw [ends_bind, ends_checked]
  exact ⟨go, fun f _ => ⟨reason f, h, .refl v, .refl _⟩⟩

theorem Keeps.emit (h : Coherent v none) (severity : Severity) (message : String) :
    Keeps P K A (Transition.emit severity message : Paging Unit) v := ⟨h, .refl v, .refl _⟩

theorem Keeps.forRange {act : Nat → Paging Unit}
    (step : ∀ i w, Coherent w none → Keeps P K A (act i) w) (h : Coherent v none)
    (first count : Nat) : Keeps P K A (forRange act first count) v := by
  induction count generalizing first v with
  | zero => exact ⟨h, .refl v, .refl _⟩
  | succ count ih =>
    rw [forRange_succ]
    exact (step first v h).bind fun _ w coherent _ => ih coherent (first + 1)

/-! ## Entering a page -/

/-- The page was entered where there was none. -/
structure Entered (v : VirtualMemory) (space : SpaceId) (va : VirtAddr) (p : Page)
    (w : VirtualMemory) : Prop where
  absent : pageIn? v.spaces space va = none
  placed : va.IsUserPage
  pages : ∀ s a, pageIn? w.spaces s a =
    if s = space ∧ a = va then some p else pageIn? v.spaces s a
  regions : ∀ s a, regionIn? w.spaces s a = regionIn? v.spaces s a
  live : ∀ s, (w.spaces.find? s).isSome = (v.spaces.find? s).isSome
  frames : w.frames = v.frames
  pool : w.pool = v.pool
  swap : w.swap = v.swap
  mmu : w.mmu = v.mmu
  files : v.files.Alike w.files
  next : w.nextSpace = v.nextSpace
  evictions : w.counts.evictions = v.counts.evictions

theorem enterPage_ends (placed : va.IsUserPage) (p : Page) :
    (enterPage space va p).Ends v (fun _ w => Entered v space va p w)
      (fun e w => e.IsRefusal ∧ w = v ∧
        (v.spaces.find? space = none ∨ (pageIn? v.spaces space va).isSome = true)) := by
  unfold enterPage
  cases found : v.spaces.find? space with
  | none =>
    rw [ends_update_of_error (by rw [found])]
    exact ⟨⟨_, rfl⟩, rfl, .inl rfl⟩
  | some x =>
    rcases insertPage_cases x va p with ⟨result, unaligned⟩ | ⟨result, -, present⟩ |
      ⟨result, -, absent⟩
    · rw [placed.aligned] at unaligned
      cases unaligned
    · rw [ends_update_of_error (by rw [found]; dsimp only; rw [result]; rfl)]
      exact ⟨⟨_, rfl⟩, rfl, .inr (by rw [pageIn?_of_find found, present])⟩
    · rw [ends_update_of_ok (by rw [found]; dsimp only; rw [result]; rfl)]
      refine ⟨by rw [pageIn?_of_find found, absent], placed, fun s a => ?_, fun s a => ?_,
        fun s => ?_, rfl, rfl, rfl, rfl, FileStore.alike_retain? _, rfl, rfl⟩
      · rw [pageIn?_insert]
        by_cases hs : s = space
        · subst hs
          rw [if_pos rfl, Table.find?_insert, pageIn?_of_find found]
          simp only [true_and]
        · rw [if_neg hs, if_neg fun here => hs here.1]
      · rw [regionIn?_insert]
        split
        · rename_i hs
          subst hs
          simp [regionIn?, found]
        · rfl
      · rw [Table.find?_insert]
        split
        · rename_i hs
          subst hs
          simp [found]
        · rfl

section

variable (c : Entered v space va p w) (away : p.frame = none) (slotless : p.slot = none)

include c away slotless

theorem Entered.change (h : Coherent v none) : PageChange v w ⟨space, va⟩ (some p) where
  pages := c.pages
  frames := c.frames
  targets := c.mmu ▸ .refl _
  pool := c.pool
  swap := c.swap ▸ h.swap
  used i := by
    rw [c.swap]
    constructor
    · refine fun used => .inr ⟨used, fun q hq => ?_⟩
      rw [c.absent] at hq
      cases hq
    · rintro (⟨q, hq, slot⟩ | ⟨used, -⟩)
      · cases hq
        rw [slotless] at slot
        cases slot
      · exact used
  saved i _ _ := by rw [c.swap]
  before q hq := by
    rw [c.absent] at hq
    cases hq
  after q hq := by
    cases hq
    exact away
  slot_after q i hq slot := by
    cases hq
    rw [slotless] at slot
    cases slot
  placed _ _ := c.placed
  numbered s hs := by
    rw [c.next]
    rw [c.live] at hs
    exact h.numbered hs

theorem Entered.coherent (h : Coherent v none) : Coherent w none :=
  (c.change away slotless h).coherent h

theorem Entered.flatPage (h : Coherent v none) (s a) :
    w.flat.page s a = if s = space ∧ a = va then w.flatPage p else v.flat.page s a := by
  rw [h.flatPage_change ((c.change away slotless h).toLocal h), Option.bind_some]

end

/-- A file page that was entered is in the cache, but not in memory. -/
theorem Entered.cached (c : Entered v space va p w) (away : p.frame = none) (s a) :
    w.cache.page s a =
      if s = space ∧ a = va then p.mapped?.map fun b => ⟨b, none⟩ else v.cache.page s a := by
  have held : w.heldPage = v.heldPage := by
    funext s a q
    unfold heldPage
    rw [c.frames, c.pool, c.mmu]
  unfold cache cachedPage
  dsimp only
  rw [c.pages, held]
  split
  · rw [Option.bind_some, heldPage_of_away away]
  · rfl

theorem Entered.cache (c : Entered v space va p w) (away : p.frame = none) :
    w.cache = v.cache.setPage space va (p.mapped?.map fun b => ⟨b, none⟩) :=
  cache_eq (c.cached away) c.regions c.files.image c.files.short

theorem Entered.leads (c : Entered v space va p w) (away : p.frame = none)
    (kind : p.mapped?.isSome = true → K (.entered space va)) : Leads K v.cache w.cache := by
  have after := c.cache away
  have before := cache_page_of_absent c.absent
  cases mapped : p.mapped? with
  | none =>
    rw [mapped, Option.map_none, PageCache.setPage_self before] at after
    rw [after]
    exact .refl _
  | some b =>
    rw [mapped, Option.map_some] at after
    rw [after]
    exact .one (.entered b before) (kind (by rw [mapped, Option.isSome_some]))

theorem Entered.follows (c : Entered v space va p w) (happens : Happens P v.flat w.flat) :
    Follows P v w where
  happens := happens
  kept := by
    intro s a q hq
    refine ⟨q, ?_, rfl, rfl⟩
    rw [c.pages, if_neg, hq]
    rintro ⟨rfl, rfl⟩
    rw [c.absent] at hq
    cases hq
  mapped := by
    intro s a b hb
    unfold mappedIn? at hb ⊢
    rw [c.pages, if_neg, hb]
    rintro ⟨rfl, rfl⟩
    rw [c.absent] at hb
    cases hb
  regions := c.regions
  live := c.live

section

variable (c : Entered v space va p w) (away : p.frame = none) (slotless : p.slot = none)

include c away slotless

/-- A page that is as good as untouched shows as one. -/
theorem Entered.follows_shown (h : Coherent v none) {loader : Loader}
    (shown : w.flatPage p = some (.untouched loader)) :
    Follows (· = .entered space va loader) v w := by
  have absent : v.flat.page space va = none := by
    simp only [flat, c.absent, Option.bind_none]
  have after : w.flat = (MemoryEvent.entered space va loader).apply v.flat := by
    refine flat_eq (fun s a => ?_) c.files.image
    rw [c.flatPage away slotless h, shown]
    rfl
  exact c.follows (after ▸ .one absent rfl)

theorem Entered.follows_hidden (h : Coherent v none) (hidden : w.flatPage p = none) :
    Follows P v w := by
  have after : w.flat = v.flat := by
    refine flat_eq (fun s a => ?_) c.files.image
    rw [c.flatPage away slotless h, hidden]
    split
    · rename_i here
      simp only [flat, here.1, here.2, c.absent, Option.bind_none]
    · rfl
  exact c.follows (after ▸ .refl _)

end

/-- An untouched page that is entered shows if it is to become an anonymous page. -/
theorem Entered.fresh_follows {writable : Bool} {target : PageType} {loader : Loader}
    (c : Entered v space va (.fresh writable target loader) w) (h : Coherent v none) :
    Follows (· = .entered space va loader) v w := by
  cases target with
  | anonymous => exact c.follows_shown rfl rfl h rfl
  | file => exact c.follows_hidden rfl rfl h rfl

theorem allocateLazy_ends (h : Coherent v none) (writable : Bool) (target : PageType)
    (loader : Loader) :
    (allocateLazy space va writable target loader).Ends v
      (fun _ w => Coherent w none ∧ Entered v space va (.fresh writable target loader) w)
      (fun e w => e.IsRefusal ∧ w = v) := by
  unfold allocateLazy
  rw [ends_bind, ends_ensure]
  refine ⟨fun place => ?_, fun _ => ⟨⟨_, rfl⟩, rfl⟩⟩
  rw [ends_bind, ends_ensure]
  refine ⟨fun user => ?_, fun _ => ⟨⟨_, rfl⟩, rfl⟩⟩
  exact (enterPage_ends ⟨place.1, user, place.2⟩ _).mono
    (fun _ w entered => ⟨entered.coherent rfl rfl h, entered⟩)
    fun _ _ refused => ⟨refused.1, refused.2.1⟩

theorem allocateLazy_keeps (h : Coherent v none) (writable : Bool) (target : PageType)
    (loader : Loader) :
    Keeps (· = .entered space va loader) (CacheEvent.IsEntry target space) Stop.IsRefusal
      (allocateLazy space va writable target loader) v := by
  refine (allocateLazy_ends h writable target loader).mono
    (fun _ w entered => ⟨entered.1, entered.2.fresh_follows h, entered.2.leads rfl fun mapped => ?_⟩)
    fun e w stopped => ?_
  · cases target with
    | anonymous => cases mapped
    | file => exact ⟨rfl, rfl⟩
  · obtain ⟨refusal, rfl⟩ := stopped
    exact ⟨refusal, h, .refl _, .refl _⟩

/-- Anonymous pages do not show in the cache. -/
theorem allocateLazy_anonymous_keeps (h : Coherent v none) (writable : Bool) (loader : Loader) :
    Keeps (· = .entered space va loader) K Stop.IsRefusal
      (allocateLazy space va writable .anonymous loader) v :=
  (allocateLazy_keeps h writable .anonymous loader).cached_mono fun _ he =>
    absurd he CacheEvent.not_isEntry_anonymous

theorem claim_keeps (h : Coherent v none) :
    Keeps (MemoryEvent.IsPaging space) CacheEvent.IsPaging Stop.IsRefusal (claim space va) v :=
  (claim_ends h).mono (fun _ _ ⟨coherent, follows, leads, _⟩ => ⟨coherent, follows, leads⟩)
    fun _ _ h => h

/-- A stack page that is entered is brought into memory at once. -/
theorem addStackPage_keeps (h : Coherent v none) (space : SpaceId) (va : VirtAddr) :
    Keeps (MemoryEvent.IsFault space) CacheEvent.IsPaging Stop.IsRefusal
      (allocateAnonymous space va true >>= fun _ => claim space va) v := by
  refine Keeps.bind ?_ fun _ w coherent _ => ?_
  · refine (allocateLazy_anonymous_keeps h true .zeroFill).mono (fun e he => ?_) fun _ h => h
    subst he
    exact ⟨rfl, rfl⟩
  · exact (claim_keeps coherent).mono (fun _ e => e.isFault) fun _ h => h

theorem setupStack_keeps (h : Coherent v none) :
    Keeps (MemoryEvent.IsFault space) CacheEvent.IsPaging Stop.IsRefusal (setupStack space) v := by
  have step := addStackPage_keeps h space ⟨userStackTop - pageSize⟩
  unfold setupStack
  rw [← bind_assoc]
  exact step.bind fun _ w coherent _ => .pure coherent _

theorem loadSegment_keeps (h : Coherent v none) (file : DescriptionId) (offset : Nat)
    (start : VirtAddr) (readBytes zeroBytes : Nat) (writable : Bool) :
    Keeps (MemoryEvent.IsSegmentEntry space file offset start readBytes) K Stop.IsRefusalOrFault
      (loadSegment space file offset start readBytes zeroBytes writable) v := by
  have fault : ∀ f, Stop.IsRefusalOrFault (.violated (.arithmetic f)) := fun f => .inr ⟨f, rfl⟩
  unfold loadSegment
  refine .checked_bind h fault fun length _ => ?_
  refine (Keeps.ensure h _ (.inl ⟨_, rfl⟩)).bind fun _ u coherent _ => ?_
  refine Keeps.forRange (fun i u coherent => ?_) coherent _ _
  refine .checked_bind coherent fault fun b stretch => ?_
  refine .checked_bind coherent fault fun va place => ?_
  refine (allocateLazy_anonymous_keeps coherent writable (.segment b)).mono (fun e he => ?_)
    fun _ => .inl
  subst he
  exact ⟨rfl, i, place, stretch⟩

/-! ## Faults -/

theorem growUpwards_keeps (h : Coherent v none) (count : Nat) :
    Keeps (MemoryEvent.IsFault space) CacheEvent.IsPaging Stop.IsRefusal
      (growUpwards space count va) v := by
  induction count generalizing v va with
  | zero => exact .pure h _
  | succ count ih =>
    unfold growUpwards Keeps
    rw [ends_bind, ends_get, ends_ite]
    refine ⟨fun _ => ⟨h, .refl v, .refl _⟩, fun _ => ?_⟩
    rw [← bind_assoc]
    refine (addStackPage_keeps h _ _).bind fun _ w coherent _ => ?_
    exact (ih coherent).bind fun more u coherent _ => .pure coherent _

theorem growStack_keeps (h : Coherent v none) :
    Keeps (MemoryEvent.IsFault space) CacheEvent.IsPaging Stop.IsRefusal (growStack space a) v := by
  unfold growStack
  exact (growUpwards_keeps h _).bind fun _ w coherent _ => .emit coherent _ _

theorem handleFault_keeps (h : Coherent v none) (flags : FaultFlags) (pointer : Nat) :
    Keeps (MemoryEvent.IsFault space) CacheEvent.IsPaging Stop.IsRefusal
      (handleFault space a flags pointer) v := by
  unfold handleFault
  have counted : Keeps (MemoryEvent.IsFault space) CacheEvent.IsPaging Stop.IsRefusal
      (count fun c => { c with faults := c.faults + 1 }) v := by
    refine ⟨h.of_same rfl (fun _ => rfl) (.refl _) rfl rfl rfl,
      (SamePlaces.of_spaces ?_).silent ?_, ?_⟩
    · rfl
    · exact flat_of_same (fun _ _ => rfl) (fun _ => rfl) rfl rfl rfl
    · exact .refl _
  refine counted.bind fun _ w coherent _ => ?_
  refine (Keeps.ensure coherent _ ⟨_, rfl⟩).bind fun _ w coherent _ => ?_
  refine (Keeps.ensure coherent _ ⟨_, rfl⟩).bind fun _ w coherent _ => ?_
  refine (Keeps.ensure coherent _ ⟨_, rfl⟩).bind fun _ w coherent _ => ?_
  unfold Keeps
  rw [ends_bind, ends_get]
  cases w.spaces.find? space with
  | none => exact ⟨⟨_, rfl⟩, coherent, .refl w, .refl _⟩
  | some x =>
    dsimp only
    cases x.page? a with
    | none =>
      dsimp only
      rw [ends_ite]
      exact ⟨fun _ => growStack_keeps coherent, fun _ => ⟨⟨_, rfl⟩, coherent, .refl w, .refl _⟩⟩
    | some p =>
      refine (Keeps.ensure coherent _ ⟨_, rfl⟩).bind fun _ u coherent _ => ?_
      unfold Keeps
      rw [ends_ite]
      exact ⟨fun _ => ⟨coherent, .refl u, .refl _⟩, fun _ =>
        (claim_keeps coherent).mono (fun _ e => e.isFault) fun _ h => h⟩

end VirtualMemory

end KernelCore
