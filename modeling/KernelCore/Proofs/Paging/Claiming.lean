import KernelCore.Proofs.Paging.Consistency
import KernelCore.Proofs.Paging.Reflecting

/-!
# Claims that fail

A claim may fail at every stage: when room is made, when the contents are fetched, and when the
page is mapped. Whatever was done until then, the page is what it was, no frame is lost for it, and
a later claim brings the contents this one would have brought. Nothing but bytes of files changes
if no frame is found at all.
-/
namespace KernelCore

/-- The stretch of a file that a page out of memory would be filled from. -/
def Page.source? (p : Page) : Option FileBacking :=
  match p.kind with
  | .untouched _ loader => loader.backing?
  | .anonymous _ => none
  | .file b => some b

theorem Page.comes_congr {p : Page} {files files' : FileStore} (reads : files.SameReads files') :
    p.Comes files' ↔ p.Comes files := by
  unfold Page.Comes Loader.Comes
  split
  · split
    · exact .rfl
    · exact reads _
  · exact .rfl
  · exact reads _

/-- Pages of one outline have the same kind, but for the slots of anonymous pages. -/
theorem Page.kind_of_outline {p q : Page} (h : q.outline = p.outline) :
    (∃ i j, p.kind = .anonymous i ∧ q.kind = .anonymous j) ∨
      q.kind = p.kind ∧ ∀ i, p.kind ≠ .anonymous i := by
  obtain ⟨writable, frame, kind⟩ := p
  obtain ⟨writable', frame', kind'⟩ := q
  have kinds := congrArg Page.kind h
  cases kind with
  | anonymous i =>
    cases kind' with
    | anonymous j => exact .inl ⟨i, j, rfl, rfl⟩
    | untouched => cases kinds
    | file => cases kinds
  | untouched target loader =>
    cases kind' with
    | untouched => exact .inr ⟨kinds, fun _ => PageKind.noConfusion⟩
    | anonymous => cases kinds
    | file => cases kinds
  | file b =>
    cases kind' with
    | file => exact .inr ⟨kinds, fun _ => PageKind.noConfusion⟩
    | anonymous => cases kinds
    | untouched => cases kinds

/-- No byte of a file belongs to both stretches. -/
def FileBacking.Apart (m : FileImage) (b c : FileBacking) : Prop :=
  ∀ f k, b.Shows m f k → ¬c.Shows m f k

/-- What goes back to one stretch does not show in another. -/
theorem FileBacking.contents_received_sent {b c : FileBacking} {m : FileImage} {page : PageBytes}
    {n : Nat} (most : n ≤ b.readBytes) (apart : b.Apart m c) :
    c.contents (m.received (m.fileOf b.file) (b.sent m page n)) = c.contents m := by
  apply Vector.ext
  intro i hi
  unfold contents
  rw [Vector.getElem_ofFn, Vector.getElem_ofFn]
  split
  · rename_i front
    dsimp only at front
    rw [FileImage.contents_eq, FileImage.contents_eq, FileImage.fileOf_received,
      getElem?_received_sent_of_other]
    rintro ⟨file, first, last⟩
    dsimp only at first last
    exact apart (m.fileOf b.file) (c.offset + i) ⟨rfl, first, by omega⟩ ⟨file, by omega, by omega⟩
  · rfl

/-- Paging changes no page whose contents are there. -/
theorem Happens.page_of_paging {space s : SpaceId} {a : VirtAddr} {m m' : FlatMemory}
    {bytes : PageBytes} (h : Happens (MemoryEvent.IsPaging space) m m')
    (page : m.page s a = some (.loaded bytes)) : m'.page s a = some (.loaded bytes) := by
  obtain ⟨es, kinds, history⟩ := h
  induction history with
  | start => exact page
  | @step past m' e _ possible ih =>
    have before := ih fun e he => kinds e (by simp [he])
    have kind := kinds e (by simp)
    cases e with
    | wroteBack f w => exact before
    | loaded t b _ =>
      obtain ⟨loader, untouched, -⟩ := possible
      simp only [MemoryEvent.apply, FlatMemory.setPage]
      rw [if_neg, before]
      rintro ⟨rfl, rfl⟩
      rw [untouched] at before
      cases before
    | _ => exact kind.elim

namespace VirtualMemory

open Transition

variable {u v w : VirtualMemory} {space : SpaceId} {va : VirtAddr} {p q : Page} {f : FrameId}
  {x : Frame} {e : Stop}

/-! ## What is left -/

/-- What the search for a frame makes of the files if it finds none: nothing, or the changed page
that was to leave memory went back to its file in part, which shows only where that part does. -/
inductive Spilled (v w : VirtualMemory) : Prop where
  | nothing (same : w.files = v.files)
  | partly {o : PageRef} {p : Page} {b : FileBacking} (page : pageIn? v.spaces o.space o.va = some p)
      (kind : p.kind = .file b) (resident : p.isResident = true)
      (dirty : v.mmu.isDirty o.space o.va = true)
      (others : ∀ q, (∀ c, q.source? = some c → b.Apart v.files.image c) → w.incoming q = v.incoming q)

/-- Every page is where it was and holds what it held, and every change is still to go back. -/
structure Standstill (v w : VirtualMemory) : Prop where
  spaces : w.spaces = v.spaces
  pageBytes : ∀ s a, w.pageBytes? s a = v.pageBytes? s a
  swap : w.swap = v.swap
  dirty : v.mmu.SameDirty w.mmu
  spilled : Spilled v w

/-- The page `p` could not be brought into memory. -/
structure LeftAway (v : VirtualMemory) (space : SpaceId) (va : VirtAddr) (p : Page)
    (w : VirtualMemory) : Prop where
  /-- It is what it was, with its loader, its stretch of a file or its slot, and in no frame. -/
  page : pageIn? w.spaces space va.floor = some p
  unmapped : w.mmu.mapping? space va.floor = none
  /-- Physical pages are taken by pages in memory only. -/
  taken : ∀ pa, w.pool.Taken pa ↔
    ∃ o f x, w.ResidesIn o f ∧ w.frames.frame? f = some x ∧ x.page = pa
  consistent : Consistent w
  anonymous : ∀ s a, w.flat.page s a = v.flat.page s a
  /-- At most one page left memory. -/
  others : ∃ o : PageRef, ∀ s a, ¬(s = o.space ∧ a = o.va) →
    pageIn? w.spaces s a = pageIn? v.spaces s a
  outline : ∀ s a, (pageIn? w.spaces s a).map Page.outline = (pageIn? v.spaces s a).map Page.outline
  standstill : ∀ e, (obtainFrame v).result = .error e → Standstill v w

/-- The page is still out of memory, of the same kind, and users see the same of it. -/
structure SameAway (v : VirtualMemory) (space : SpaceId) (va : VirtAddr) (p : Page)
    (u : VirtualMemory) : Prop where
  page : ∃ q, pageIn? u.spaces space va.floor = some q ∧ q.frame = none ∧ q.outline = p.outline
  flat : u.flat.page space va.floor = v.flat.page space va.floor

/-- The page comes from its file as a whole, if it comes from a file, and the hardware will map
it. -/
structure Loadable (v : VirtualMemory) (p : Page) : Prop where
  comes : p.Comes v.files
  sourced : p.kind ≠ .untouched .file .zeroFill
  maps : v.mmu.failures = 0

/-- A later claim of the page `p` brings it into memory, if a frame is found and the page can be
loaded, with what it would have come with, provided that its part of a file did not change
meanwhile. -/
structure Recoverable (v : VirtualMemory) (space : SpaceId) (va : VirtAddr) (p : Page) : Prop where
  done : ∀ u q, Reached u → pageIn? u.spaces space va.floor = some q → q.frame = none →
    (∃ f, (obtainFrame u).result = .ok f) → Loadable u q →
    (perform (.claim space va) u).result = .ok .done
  bytes : ∀ u, Reached u → SameAway v space va p u →
    (perform (.claim space va) u).result = .ok .done →
    (∀ b, p.source? = some b →
      b.contents (perform (.claim space va) u).state.files.image = b.contents v.files.image) →
    (perform (.claim space va) u).state.pageBytes? space va = some (v.incoming p)

/-! ## How claims end -/

/-- A claim stops nothing but itself. -/
theorem perform_claim_ends (h : Coherent v none) (space : SpaceId) (va : VirtAddr) :
    (perform (.claim space va)).Ends v
      (fun reply w => reply = .done ∧ Claimed v space va.floor w ∨
        ∃ e, reply = .refused e ∧
          (pageIn? v.spaces space va.floor = none ∧ e = .notMapped ∧ w = v ∨
            ∃ p, pageIn? v.spaces space va.floor = some p ∧ p.frame = none ∧
              Unclaimed v space va.floor p (.refused e) w))
      (fun _ _ => False) := by
  refine perform_ends_of_done rfl ((claim_cases h).mono (fun _ w claimed => claimed)
    fun e w stopped => ?_)
  rcases stopped with ⟨absent, rfl, rfl⟩ | ⟨p, page, away, unclaimed⟩
  · exact ⟨_, rfl, .inl ⟨absent, rfl, rfl⟩⟩
  · obtain ⟨r, rfl⟩ := unclaimed.isRefusal
    exact ⟨r, rfl, .inr ⟨p, page, away, unclaimed⟩⟩

theorem Reached.claimed (reached : Reached v)
    (done : (VirtualMemory.perform (.claim space va) v).result = .ok .done) :
    Claimed v space va.floor (VirtualMemory.perform (.claim space va) v).state := by
  rcases (perform_claim_ends reached.inOrder.1 space va).of_ok done with ⟨-, claimed⟩ | ⟨e, refused, -⟩
  · exact claimed
  · cases refused

/-- A claim for which no frame is found ends there. -/
theorem claim_ends_of_stuck (page : pageIn? v.spaces space va.floor = some p)
    (away : p.frame = none) {E : Stop → VirtualMemory → Prop}
    (stuck : obtainFrame.Ends v (fun _ _ => False) E) :
    (claim space va).Ends v (fun _ _ => False) E := by
  unfold claim
  simp only [ends_bind, ends_get, page?_eq, VirtAddr.floor_floor, page, Page.isResident, away,
    Option.isSome_none, Bool.false_eq_true, if_false]
  exact stuck.mono (fun _ _ h => h.elim) fun _ _ h => h

theorem perform_claim_ends_of_stuck (page : pageIn? v.spaces space va.floor = some p)
    (away : p.frame = none) {E : MemoryError → VirtualMemory → Prop}
    (stuck : obtainFrame.Ends v (fun _ _ => False) fun e w => ∃ r, e = .refused r ∧ E r w) :
    (perform (.claim space va)).Ends v (fun reply w => ∃ e, reply = .refused e ∧ E e w)
      (fun _ _ => False) := by
  refine (perform_ends_of_done rfl (claim_ends_of_stuck page away stuck)).mono
    (fun reply w ended => ?_) fun _ _ h => h
  exact ended.resolve_left fun claimed => claimed.2

/-! ## Claims that fail -/

/-- The contents of a page out of memory depend on its slot and its part of a file. -/
theorem incoming_congr (kind : q.kind = p.kind)
    (slot : ∀ slot, p.kind = .anonymous slot → w.swap.saved slot = v.swap.saved slot)
    (source : ∀ b, p.source? = some b → b.contents w.files.image = b.contents v.files.image) :
    w.incoming q = v.incoming p := by
  unfold Page.source? at source
  unfold incoming
  rw [kind]
  cases kind : p.kind with
  | untouched target loader =>
    rw [kind] at source
    cases loader with
    | zeroFill => rfl
    | segment b => exact source b rfl
  | anonymous i => exact slot i kind
  | file b =>
    rw [kind] at source
    exact source b rfl

theorem Unobtained.spilled (h : Unobtained v e w) : Spilled v w := by
  have swap := h.swap
  obtain ⟨files, reason, image⟩ : ∃ files, NoFrame v e files ∧ w.files = files := ⟨_, h.reason, rfl⟩
  cases reason with
  | unavailable => exact .nothing image
  | full => exact .nothing image
  | @cameShort o p f x b _ page kind holds frame dirty short =>
    obtain ⟨n, most, sent, -⟩ := short
    have resident : p.isResident = true := by rw [Page.isResident, holds, Option.isSome_some]
    refine .partly page kind resident dirty fun q apart =>
      incoming_congr rfl (fun _ _ => by rw [swap]) fun c source => ?_
    rw [image, sent.image, FileBacking.contents_received_sent most (apart c source)]

theorem Unobtained.standstill (h : Unobtained v e w) : Standstill v w where
  spaces := h.spaces
  pageBytes s a := by
    have place : w.physicalPage? s a = v.physicalPage? s a := by
      unfold physicalPage?
      rw [page?_eq, page?_eq, h.spaces]
      cases (pageIn? v.spaces s a.floor).bind Page.frame with
      | none => rfl
      | some f => rw [Option.bind_some, Option.bind_some, h.frames]
    unfold pageBytes?
    rw [place, h.pool]
  swap := h.swap
  dirty := h.dirty
  spilled := h.spilled

theorem Coherent.taken_iff (h : Coherent w none) (pa : PhysAddr) :
    w.pool.Taken pa ↔ ∃ o f x, w.ResidesIn o f ∧ w.frames.frame? f = some x ∧ x.page = pa := by
  rw [h.taken]
  constructor
  · rintro ⟨f, x, frame, place⟩
    obtain ⟨o, there, -⟩ := h.unique_owner frame
    exact ⟨o, f, x, there, frame, place⟩
  · rintro ⟨o, f, x, -, frame, place⟩
    exact ⟨f, x, frame, place⟩

/-- The hardware does not translate pages that are in no frame. -/
theorem Coherent.mapping_of_away {spare : Option FrameId} {s : SpaceId} {a : VirtAddr}
    (h : Coherent w spare) (page : pageIn? w.spaces s a = some p) (away : p.frame = none) :
    w.mmu.mapping? s a = none := by
  have translated := h.translated s a
  rw [page, Option.bind_some, away, Option.bind_none] at translated
  exact Option.map_eq_none_iff.mp translated

theorem Unclaimed.leftAway (page : pageIn? v.spaces space va.floor = some p)
    (away : p.frame = none) (unclaimed : Unclaimed v space va.floor p e w) :
    LeftAway v space va p w := by
  have coherent := unclaimed.coherent
  -- What is left has the page as it was, in either case.
  have still : pageIn? w.spaces space va.floor = some p ∧
      (∃ o : PageRef, ∀ s a, ¬(s = o.space ∧ a = o.va) →
        pageIn? w.spaces s a = pageIn? v.spaces s a) ∧
      (∀ s a, (pageIn? w.spaces s a).map Page.outline = (pageIn? v.spaces s a).map Page.outline) ∧
      (∀ s a, w.flat.page s a = v.flat.page s a) ∧
      ∀ e, (obtainFrame v).result = .error e → Standstill v w := by
    cases unclaimed with
    | roomless stopped failed =>
      refine ⟨by rw [stopped.spaces, page], ⟨⟨space, va.floor⟩, fun _ _ _ => by rw [stopped.spaces]⟩,
        fun _ _ => by rw [stopped.spaces], fun s a => ?_, fun _ _ => stopped.standstill⟩
      exact congrFun (congrFun (page_of_writeBacks stopped.room.follows.happens) s) a
    | absent obtained found there reason gaveUp =>
      obtain ⟨o, others⟩ := obtained.victim
      refine ⟨by rw [gaveUp.spaces, there], ⟨o, fun s a other => ?_⟩, fun s a => ?_, fun s a => ?_,
        fun e failed => ?_⟩
      · rw [gaveUp.spaces, others s a other]
      · rw [gaveUp.spaces, obtained.room.outline]
      · rw [gaveUp.flat, page_of_writeBacks obtained.room.follows.happens]
      · rw [found] at failed
        cases failed
  obtain ⟨same, others, outline, anonymous, standstill⟩ := still
  exact ⟨same, coherent.mapping_of_away same away, coherent.taken_iff, coherent.consistent, anonymous,
    others, outline, standstill⟩

/-! ## Claims that are made again -/

/-- A page that can be loaded comes into a frame that was found for it. -/
theorem Obtained.not_notBroughtIn (obtained : Obtained v f w)
    (there : pageIn? w.spaces space va = some p) (away : p.frame = none) (loads : Loadable v p) :
    ¬NotBroughtIn w ⟨space, va⟩ p e := by
  rintro (less | kind | refuses)
  · exact less ((Page.comes_congr obtained.room.reads).mpr loads.comes)
  · exact loads.sourced kind
  · rcases refuses with ⟨hampered, -⟩ | ⟨mapped, -⟩
    · rw [obtained.room.failures, loads.maps] at hampered
      cases hampered
    · rw [obtained.coherent.mapping_of_away there away] at mapped
      cases mapped

/-- With nothing in its way, a page out of memory is claimed. -/
theorem claimed_of_loadable (h : Coherent u none) (page : pageIn? u.spaces space va.floor = some q)
    (frame : ∃ f, (obtainFrame u).result = .ok f) (loads : Loadable u q) :
    (perform (.claim space va) u).result = .ok .done := by
  obtain ⟨reply, result, outcome⟩ := (perform_claim_ends h space va).exists_ok
  rw [result]
  rcases outcome with ⟨rfl, -⟩ | ⟨e, -, ⟨absent, -⟩ | ⟨p, page', away, unclaimed⟩⟩
  · rfl
  · rw [page] at absent
    cases absent
  · rw [page] at page'
    cases page'
    obtain ⟨f, found⟩ := frame
    cases unclaimed with
    | roomless _ failed =>
      rw [found] at failed
      cases failed
    | absent obtained _ there reason _ =>
      exact absurd reason (obtained.not_notBroughtIn there away loads)

/-- A claimed page comes with what it came with when it was out of memory before. -/
theorem Claimed.pageBytes (claimed : Claimed u space va.floor w)
    (page : pageIn? u.spaces space va.floor = some q) (away : q.frame = none) :
    w.pageBytes? space va = some (w.incoming q) := by
  obtain ⟨p, r, f, x, before, after, -, holds, frame, bytes⟩ := claimed.page
  rw [page] at before
  cases before
  unfold pageBytes? physicalPage?
  rw [page?_eq, after]
  simp only [Option.bind_some, holds, frame, Option.map_some, bytes away]

/-- What users see of an anonymous page out of memory is what it would come with. -/
theorem flatPage_of_anonymous {slot : Option SwapSlot} (kind : p.kind = .anonymous slot)
    (away : p.frame = none) :
    v.flatPage p = some (if slot.isSome then .loaded (v.incoming p) else .untouched .zeroFill) := by
  unfold flatPage incoming anonymousBytes Page.isMaterialised Page.isResident Page.slot
  simp only [kind, away, Option.isSome_none, Bool.false_or]

/-- Users see the bytes of an anonymous page that was claimed. -/
theorem Claimed.flat (claimed : Claimed u space va.floor w)
    (page : pageIn? u.spaces space va.floor = some q) (away : q.frame = none)
    (anonymous : q.type = .anonymous) :
    w.flat.page space va.floor = some (.loaded (w.incoming q)) := by
  obtain ⟨p, r, f, x, before, after, -, holds, frame, bytes⟩ := claimed.page
  rw [page] at before
  cases before
  obtain ⟨r', after', use⟩ := claimed.follows.kept page
  rw [after] at after'
  cases after'
  rw [flatPage_of_resident claimed.coherent after holds frame, use.1, if_pos anonymous, bytes away]

theorem Claimed.pageBytes_of_sameAway (claimed : Claimed u space va.floor w)
    (same : SameAway v space va p u) (page : pageIn? v.spaces space va.floor = some p)
    (away : p.frame = none)
    (source : ∀ b, p.source? = some b → b.contents w.files.image = b.contents v.files.image) :
    w.pageBytes? space va = some (v.incoming p) := by
  obtain ⟨q, there, away', outline⟩ := same.page
  rw [claimed.pageBytes there away']
  congr 1
  rcases Page.kind_of_outline outline with ⟨slot, slot', kind, kind'⟩ | ⟨kind, other⟩
  · -- An anonymous page may have got another slot, which users do not see.
    have before : v.flat.page space va.floor = v.flatPage p := by
      simp only [VirtualMemory.flat, page, Option.bind_some]
    have later : u.flat.page space va.floor = u.flatPage q := by
      simp only [VirtualMemory.flat, there, Option.bind_some]
    have shown := later.symm.trans (same.flat.trans before)
    rw [flatPage_of_anonymous kind away, flatPage_of_anonymous kind' away'] at shown
    cases slot with
    | none =>
      cases slot' with
      | none =>
        unfold incoming
        rw [kind, kind']
        exact SwapArea.saved_none.trans SwapArea.saved_none.symm
      | some j => cases shown
    | some i =>
      have loaded := claimed.follows.happens.page_of_paging (same.flat.trans
        (before.trans (flatPage_of_anonymous kind away)))
      have anonymous : q.type = .anonymous := by rw [Page.type, kind']
      rw [claimed.flat there away' anonymous] at loaded
      exact FlatPage.loaded.inj (Option.some.inj loaded)
  · exact incoming_congr kind (fun slot anonymous => absurd anonymous (other slot)) source

/-! ## Every claim that fails -/

/-- In every state that requests lead to: if a claim of a page out of memory fails, for whatever
reason, then the page is left as it was, nothing is lost elsewhere, and the page can be claimed
again. -/
theorem claim_refused_recoverable (reached : Reached v)
    (page : pageIn? v.spaces space va.floor = some p) (away : p.frame = none) {e : MemoryError}
    (refused : (perform (.claim space va) v).result = .ok (.refused e)) :
    LeftAway v space va p (perform (.claim space va) v).state ∧ Recoverable v space va p := by
  obtain ⟨coherent, -⟩ := reached.inOrder
  refine ⟨?_, fun u q there page _ frame loads => ?_, fun u there same done source => ?_⟩
  · rcases (perform_claim_ends coherent space va).of_ok refused with
      ⟨done, -⟩ | ⟨e', -, ⟨absent, -⟩ | ⟨q, page', -, unclaimed⟩⟩
    · cases done
    · rw [page] at absent
      cases absent
    · rw [page] at page'
      cases page'
      exact unclaimed.leftAway page away
  · exact claimed_of_loadable there.inOrder.1 page frame loads
  · exact (there.claimed done).pageBytes_of_sameAway same page away source

/-- A page of a file has the only frame, and the hardware will refuse to map an anonymous page. -/
def cramped : List Request :=
  [.createSpace, .createFile #[17], .mapFile ⟨1⟩ ⟨8192⟩ 1 true ⟨0⟩ 0, .claim ⟨1⟩ ⟨8192⟩,
    .allocateAnonymous ⟨1⟩ ⟨4096⟩ true, .failMaps 1 .invalid]

/-- The page of the file leaves memory, and the other one does not come into it. -/
theorem claim_refused_recoverable_cramped :
    (pageIn? (after (new 1 0).1 cramped).spaces ⟨1⟩ ⟨8192⟩).bind Page.frame = some ⟨0⟩ ∧
      (pageIn? (perform (.claim ⟨1⟩ ⟨4096⟩) (after (new 1 0).1 cramped)).state.spaces
        ⟨1⟩ ⟨8192⟩).bind Page.frame = none ∧
      LeftAway (after (new 1 0).1 cramped) ⟨1⟩ ⟨4096⟩ (.fresh true .anonymous .zeroFill)
        (perform (.claim ⟨1⟩ ⟨4096⟩) (after (new 1 0).1 cramped)).state ∧
      Recoverable (after (new 1 0).1 cramped) ⟨1⟩ ⟨4096⟩ (.fresh true .anonymous .zeroFill) := by
  refine ⟨by decide +kernel, by decide +kernel, ?_⟩
  exact claim_refused_recoverable (e := .invalidArgument) (reached_after 1 0 cramped)
    (by decide +kernel) rfl (by decide +kernel)

/-! ## Pages that show the same bytes of a file -/

/-- A claim fails since the page that was to leave memory could not go back to its file, and
another page, which is out of memory, has other contents then. -/
structure Spoiled (v : VirtualMemory) (space : SpaceId) (va : VirtAddr) : Prop where
  reached : Reached v
  page : ∃ p, pageIn? v.spaces space va.floor = some p ∧ p.frame = none
  refused : (perform (.claim space va) v).result = .ok (.refused .io)
  stuck : (obtainFrame v).result = .error (.refused .io)
  changed : ∃ s a q, pageIn? v.spaces s a = some q ∧ q.frame = none ∧
    (perform (.claim space va) v).state.incoming q ≠ v.incoming q

/-- Two pages show the same two bytes of a file. One is in memory and was changed, and writes to the
file are to come short. A page of another space has the other frame, so there is none for a third
page. -/
def stale : List Request :=
  [.createSpace, .createSpace, .createFile #[17, 17], .mapFile ⟨1⟩ ⟨4096⟩ 2 true ⟨0⟩ 0,
    .mapFile ⟨1⟩ ⟨8192⟩ 2 true ⟨0⟩ 0, .claim ⟨1⟩ ⟨4096⟩, .setFileLength ⟨0⟩ 0, .setFileLength ⟨0⟩ 2,
    .touch ⟨1⟩ ⟨4096⟩ true, .setShortWrites ⟨0⟩ 1, .allocateAnonymous ⟨2⟩ ⟨4096⟩ true,
    .claim ⟨2⟩ ⟨4096⟩, .touch ⟨2⟩ ⟨4096⟩ false, .allocateAnonymous ⟨1⟩ ⟨12288⟩ true]

set_option maxRecDepth 50000 in
theorem stale_byte : ((after (new 2 0).1 stale).pool.page ⟨0x100000⟩)[0]? = some 17 := by
  decide +kernel

theorem within_stale : FileBacking.Within ⟨⟨1⟩, 0, 2, by decide⟩ (after (new 2 0).1 stale).files.image := by
  have size : ((after (new 2 0).1 stale).files.image.contents ⟨1⟩).size = 2 := by decide +kernel
  intro j hj
  dsimp only at hj ⊢
  omega

/-- No frame is found then, and the first of the two bytes goes back. -/
theorem obtainFrame_stale (is : v = after (new 2 0).1 stale) :
    obtainFrame.Ends v (fun _ _ => False) fun e w => e = .refused .io ∧ w.spaces = v.spaces ∧
      FileBacking.Sent ⟨⟨1⟩, 0, 2, by decide⟩ (v.pool.page ⟨0x100000⟩) 1 v.files w.files := by
  have coherent : Coherent v none := is ▸ (reached_after 2 0 stale).inOrder.1
  have within : FileBacking.Within ⟨⟨1⟩, 0, 2, by decide⟩ v.files.image := is ▸ within_stale
  have full : v.pool.acquire.1 = none := is ▸ by decide +kernel
  have victim : (v.frames.selectVictim v.mmu).1 = some ⟨0⟩ := is ▸ by decide +kernel
  have frame : v.frames.frame? ⟨0⟩ = some ⟨⟨0x100000⟩, some ⟨⟨1⟩, ⟨4096⟩⟩, false⟩ :=
    is ▸ by decide +kernel
  have page : pageIn? v.spaces ⟨1⟩ ⟨4096⟩ =
      some ⟨true, some ⟨0⟩, .file ⟨⟨1⟩, 0, 2, by decide⟩⟩ := is ▸ by decide +kernel
  have dirty : v.mmu.isDirty ⟨1⟩ ⟨4096⟩ = true := is ▸ by decide +kernel
  have left : 0 < v.files.shortWrites (v.files.fileOf ⟨1⟩) := is ▸ by decide +kernel
  exact obtainFrame_ends_of_hampered coherent full victim frame rfl page rfl dirty within
    Nat.two_pos left

/-- Byte 0 of the file was written, which the page that is out of memory shows. -/
theorem spoiled_stale : Spoiled (after (new 2 0).1 stale) ⟨1⟩ ⟨12288⟩ := by
  generalize is : after (VirtualMemory.new 2 0).1 stale = v
  have reached : Reached v := is ▸ reached_after 2 0 stale
  have claimed : pageIn? v.spaces ⟨1⟩ (⟨12288⟩ : VirtAddr).floor =
      some (.fresh true .anonymous .zeroFill) := is ▸ by decide +kernel
  have other : pageIn? v.spaces ⟨1⟩ ⟨8192⟩ =
      some (.fresh true .file (.segment ⟨⟨2⟩, 0, 2, by decide⟩)) := is ▸ by decide +kernel
  have opened : v.files.image.fileOf ⟨1⟩ = ⟨0⟩ ∧ v.files.image.fileOf ⟨2⟩ = ⟨0⟩ :=
    is ▸ by decide +kernel
  have old : (v.files.image.bytes ⟨0⟩)[0]? = some 0 := is ▸ by decide +kernel
  have new : (v.pool.page ⟨0x100000⟩)[0]? = some 17 := is ▸ stale_byte
  have stuck := obtainFrame_stale is.symm
  have ends := perform_claim_ends_of_stuck (E := fun r w => r = .io ∧
      FileBacking.Sent ⟨⟨1⟩, 0, 2, by decide⟩ (v.pool.page ⟨0x100000⟩) 1 v.files w.files) claimed rfl
    (stuck.mono (fun _ _ h => h) fun e w stopped => ⟨.io, stopped.1, rfl, stopped.2.2⟩)
  have failed : (obtainFrame v).result = .error (.refused .io) := by
    cases result : (obtainFrame v).result with
    | ok f => exact (stuck.of_ok result).elim
    | error e => rw [(stuck.of_error result).1]
  cases result : (perform (.claim ⟨1⟩ ⟨12288⟩) v).result with
  | error x => exact (ends.of_error result).elim
  | ok reply =>
    obtain ⟨e, rfl, rfl, sent⟩ := ends.of_ok result
    refine ⟨reached, ⟨_, claimed, rfl⟩, result, failed, ⟨1⟩, ⟨8192⟩, _, other, rfl, fun same => ?_⟩
    have before : FileBacking.Shows ⟨⟨2⟩, 0, 2, by decide⟩ v.files.image ⟨0⟩ 0 :=
      ⟨opened.2, Nat.le_refl _, Nat.two_pos⟩
    have after : FileBacking.Shows ⟨⟨2⟩, 0, 2, by decide⟩
        (perform (.claim ⟨1⟩ ⟨12288⟩) v).state.files.image ⟨0⟩ 0 := by
      refine ⟨?_, Nat.le_refl _, Nat.two_pos⟩
      rw [sent.image, FileImage.fileOf_received, opened.2]
    have written := FileBacking.getElem?_received_sent ⟨⟨1⟩, 0, 2, by decide⟩ v.files.image
      (v.pool.page ⟨0x100000⟩) (n := 1) (k := 0) (by decide) (Nat.le_refl _) Nat.one_pos
    have bytes : v.files.image.byte ⟨0⟩ 0 =
        (perform (.claim ⟨1⟩ ⟨12288⟩) v).state.files.image.byte ⟨0⟩ 0 := by
      apply Option.some.inj
      rw [← before.contents, ← after.contents]
      exact congrArg (fun bytes : PageBytes => bytes[0]?) same.symm
    dsimp only at written
    unfold FileImage.byte at bytes
    rw [sent.image, opened.1] at bytes
    rw [opened.1] at written
    rw [written, old, Option.bind_some, new] at bytes
    cases bytes

end VirtualMemory

end KernelCore
