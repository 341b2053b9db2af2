import KernelCore.Proofs.Paging.Upkeep

/-!
# File descriptions are neither leaked nor closed early

A description is live while somebody refers to it: the creator of its file, a page that is to be or
was filled from the file, or a mapped region. As long as no contract is violated, a file was opened
as often as it was closed and has live descriptions, and a request closes exactly the descriptions
that were live before it and are not any more.
-/
namespace KernelCore.VirtualMemory

open Transition

variable {v w : VirtualMemory} {d : DescriptionId} {f : FileId}

/-! ## Live descriptions -/

/-- The live descriptions of a file. -/
def live (v : VirtualMemory) (f : FileId) : Finset DescriptionId :=
  v.references.toFinset.filter fun d => v.files.fileOf d = f

theorem mem_live : d ∈ v.live f ↔ d ∈ v.references ∧ v.files.fileOf d = f := by
  unfold live
  rw [Finset.mem_filter, List.mem_toFinset]

theorem Books.mem_references_iff (h : Books [] v) : d ∈ v.references ↔ 0 < v.files.holders d := by
  rw [h.held, List.count_nil, Nat.add_zero, List.count_pos_iff]

theorem Books.mem_closed_iff (h : Books [] v) :
    d ∈ v.files.closed f ↔ d ∈ v.files.opened f ∧ d ∉ v.live f := by
  rw [FileStore.mem_closed, FileStore.mem_opened, mem_live, h.mem_references_iff, Nat.pos_iff_ne_zero]
  constructor
  · rintro ⟨present, file, none⟩
    exact ⟨⟨present, file⟩, fun alive => alive.1 none⟩
  · rintro ⟨⟨present, file⟩, dead⟩
    exact ⟨present, file, Decidable.not_not.mp fun some => dead ⟨some, file⟩⟩

theorem Books.live_subset (h : Books [] v) : v.live f ⊆ v.files.opened f := by
  intro d alive
  obtain ⟨mem, file⟩ := mem_live.mp alive
  exact FileStore.mem_opened.mpr ⟨h.mem_ids mem, file⟩

/-- Which descriptions are live, and that a file was opened as often as it was closed and has live
descriptions. -/
structure Balanced (v : VirtualMemory) : Prop where
  live : ∀ f d, d ∈ v.live f ↔ v.files.fileOf d = f ∧
    ((∃ g, (v.files.file g).handle = some d) ∨
      (∃ s a p, pageIn? v.spaces s a = some p ∧ p.kind.description? = some d) ∨
        ∃ s a r, regionIn? v.spaces s a = some r ∧ r.file = d)
  balance : ∀ f, (v.files.file f).opens = (v.files.file f).closes + (v.live f).card

theorem Books.balanced (h : Books [] v) : Balanced v where
  live f d := by rw [mem_live, mem_references, and_comm]
  balance f := by
    have dead : v.files.closed f = v.files.opened f \ v.live f := by
      ext d
      rw [h.mem_closed_iff, Finset.mem_sdiff]
    have size := Finset.card_sdiff_add_card_eq_card (h.live_subset (f := f))
    rw [h.tallied.opens, h.tallied.closes, dead]
    omega

/-! ## What a request opens and closes -/

namespace Request

/-- The files a request that got a reply has opened, once for each time. -/
def openings : Request → Reply → List FileId
  | .mapFile _ _ _ _ file _, .address _ => [file]
  | .createFile _, .number n => [⟨n⟩]
  | _, _ => []

@[simp] theorem openings_refused (r : Request) (e : MemoryError) : r.openings (.refused e) = [] := by
  cases r <;> rfl

end Request

/-- The pages from `start` on and the region there are all that refers to a description. -/
structure SharedByMapping (w : VirtualMemory) (own : DescriptionId) (space : SpaceId)
    (start : VirtAddr) (count : Nat) : Prop where
  pages : ∀ s a, (∃ p, pageIn? w.spaces s a = some p ∧ p.kind.description? = some own) ↔
    s = space ∧ a ∈ pageStarts start count
  regions : ∀ s a, (∃ r, regionIn? w.spaces s a = some r ∧ r.file = own) ↔ s = space ∧ a = start
  handles : ∀ f, (w.files.file f).handle ≠ some own

/-- What pages and regions refer to when a mapping or a copy was made: the new mapping to the new
description, the copy to what the original refers to. -/
def Request.Shares (v w : VirtualMemory) : Request → Reply → Prop
  | .mapFile space start length _ _ _, .address _ => ∃ count, pagesFor length = .ok count ∧
    SharedByMapping w ⟨v.files.descriptions.length⟩ space start count
  | .duplicateSpace parent child, .done =>
    (∀ a p, pageIn? v.spaces parent a = some p → ∃ q, pageIn? w.spaces child a = some q ∧
      q.kind.description? = p.kind.description?) ∧
      ∀ a r, regionIn? v.spaces parent a = some r → regionIn? w.spaces child a = some r
  | _, _ => True

@[simp] theorem Request.shares_refused (r : Request) (e : MemoryError) :
    r.Shares v w (.refused e) := by
  cases r <;> exact trivial

/-- How a request that was answered changes the descriptions. -/
structure Reckoned (r : Request) (reply : Reply) (v w : VirtualMemory) : Prop where
  /-- Descriptions stay those of their files, and the new ones are those that were opened. -/
  opened : w.files.descriptions.map Description.file =
    v.files.descriptions.map Description.file ++ r.openings reply
  opens : ∀ f, (w.files.file f).opens = (v.files.file f).opens + (r.openings reply).count f
  /-- Those that were live and are not any more were closed, once each. -/
  closes : ∀ f, (w.files.file f).closes = (v.files.file f).closes + (v.live f \ w.live f).card
  /-- What was closed stays closed. -/
  gone : ∀ d ∈ v.files.ids, d ∉ v.references → d ∉ w.references
  shares : r.Shares v w reply

section

variable {new : List FileId} (h : Turnover new v w)

include h

theorem Turnover.ids_subset : v.files.ids ⊆ w.files.ids := by
  intro d known
  have length := congrArg List.length h.opened
  simp only [FileStore.image, List.length_append, List.length_map] at length
  rw [FileStore.mem_ids] at known ⊢
  omega

theorem Turnover.fileOf (known : d ∈ v.files.ids) : w.files.fileOf d = v.files.fileOf d := by
  rw [← FileStore.fileOf_image, ← FileStore.fileOf_image, FileImage.fileOf, FileImage.fileOf,
    h.opened, List.getElem?_append_left]
  simpa [FileStore.image] using known

theorem Turnover.gone (books : Books [] v) (known : d ∈ v.files.ids) (dead : d ∉ v.references) :
    d ∉ w.references := by
  rw [books.mem_references_iff, Nat.not_lt, Nat.le_zero] at dead
  rw [h.books.mem_references_iff, h.closed d known dead]
  exact Nat.lt_irrefl 0

/-- What is closed afterwards was closed before, or was live then. -/
theorem Turnover.closed_eq (books : Books [] v) (f : FileId) :
    w.files.closed f = v.files.closed f ∪ (v.live f \ w.live f) := by
  ext d
  rw [Finset.mem_union, Finset.mem_sdiff, h.books.mem_closed_iff, books.mem_closed_iff,
    FileStore.mem_opened, FileStore.mem_opened]
  constructor
  · rintro ⟨⟨present, file⟩, dead⟩
    have known : d ∈ v.files.ids := by
      by_contra unknown
      exact dead (mem_live.mpr ⟨h.books.mem_references_iff.mpr (h.fresh d present unknown), file⟩)
    rw [h.fileOf known] at file
    by_cases before : d ∈ v.live f
    · exact .inr ⟨before, dead⟩
    · exact .inl ⟨⟨known, file⟩, before⟩
  · rintro (⟨⟨known, file⟩, dead⟩ | ⟨before, dead⟩)
    · have later : d ∉ w.references :=
        h.gone books known fun mem => dead (mem_live.mpr ⟨mem, file⟩)
      exact ⟨⟨h.ids_subset known, (h.fileOf known).trans file⟩, fun alive => later (mem_live.mp alive).1⟩
    · obtain ⟨known, file⟩ := FileStore.mem_opened.mp (books.live_subset before)
      exact ⟨⟨h.ids_subset known, (h.fileOf known).trans file⟩, dead⟩

theorem Turnover.closes (books : Books [] v) (f : FileId) :
    (w.files.file f).closes = (v.files.file f).closes + (v.live f \ w.live f).card := by
  have apart : Disjoint (v.files.closed f) (v.live f \ w.live f) := by
    rw [Finset.disjoint_left]
    intro d dead alive
    exact (books.mem_closed_iff.mp dead).2 (Finset.mem_sdiff.mp alive).1
  rw [h.books.tallied.closes, books.tallied.closes, h.closed_eq books,
    Finset.card_union_of_disjoint apart]

theorem Turnover.opens (books : Books [] v) (f : FileId) :
    (w.files.file f).opens = (v.files.file f).opens + new.count f := by
  rw [h.books.tallied.opens, books.tallied.opens, FileStore.card_opened, FileStore.card_opened,
    h.opened, List.count_append]

end

theorem Turnover.reckoned {r : Request} {reply : Reply} (h : Turnover (r.openings reply) v w)
    (books : Books [] v) (shares : r.Shares v w reply) : Reckoned r reply v w :=
  ⟨h.opened, h.opens books, h.closes books, fun _ => h.gone books, shares⟩

/-! ## Single requests -/

/-- A request is answered, or stops without opening a description. -/
def Settles (r : Request) (v : VirtualMemory) (t : Paging Reply) : Prop :=
  t.Ends v (fun reply w => Turnover (r.openings reply) v w ∧ r.Shares v w reply)
    fun e w => e.IsRefusal → Turnover [] v w

section

variable {α : Type} {t : Paging α} {r : Request} (books : Books [] v)

/-- A request that opens nothing and shares nothing, by what it does to the books. -/
theorem Settles.of_kept {reply : α → Reply} (opens : ∀ a, r.openings (reply a) = [])
    (shares : ∀ w a, r.Shares v w (reply a))
    (h : t.Ends v (fun _ w => Kept [] v w) fun e w => e.IsRefusal → Kept [] v w) :
    Settles r v (t >>= fun a => pure (reply a)) := by
  unfold Settles
  rw [ends_bind]
  refine h.mono (fun a w kept => ?_) fun _ _ stopped refusal => (stopped refusal).turnover
  rw [ends_pure, opens]
  exact ⟨kept.turnover, shares w a⟩

theorem Settles.of_upholds {reply : α → Reply} (opens : ∀ a, r.openings (reply a) = [])
    (shares : ∀ w a, r.Shares v w (reply a)) (h : Upholds [] t v) :
    Settles r v (t >>= fun a => pure (reply a)) :=
  .of_kept opens shares (Ends.mono h (fun _ _ since => since.kept)
    fun _ _ stopped refusal => (stopped refusal).kept)

include books

/-- A request that concerns no references. -/
theorem Settles.of_records {t : Paging Reply} (opens : ∀ reply, r.openings reply = [])
    (shares : ∀ w reply, r.Shares v w reply) (same : Preserves records t) : Settles r v t := by
  refine (same.ends v).mono (fun reply w kept => ?_) fun _ w kept _ => ?_
  · rw [opens]
    exact ⟨(Kept.of_ledger books (ledger_of_records kept)).turnover, shares w reply⟩
  · exact (Kept.of_ledger books (ledger_of_records kept)).turnover

theorem Settles.changeFile {change : FileStore → FileStore}
    (opens : ∀ reply, r.openings reply = []) (shares : ∀ w reply, r.Shares v w reply)
    (h : Turnover [] v { v with files := change v.files }) :
    Settles r v (changeFile f change) := by
  unfold Settles VirtualMemory.changeFile
  rw [ends_bind]
  refine (fileNumbered_ends f).mono (fun x w found => ?_) fun e w stopped => ?_
  · obtain ⟨rfl, -⟩ := found
    rw [ends_bind, ends_modify, ends_pure, opens]
    exact ⟨h, shares _ _⟩
  · obtain ⟨rfl, x, rfl, -⟩ := stopped
    exact not_isRefusal_violated.elim

/-- A change of a file that concerns no descriptions. -/
theorem Settles.changeContents {change : FileStore → FileStore}
    (opens : ∀ reply, r.openings reply = []) (shares : ∀ w reply, r.Shares v w reply)
    (same : (change v.files).account = v.files.account) :
    Settles r v (VirtualMemory.changeFile f change) :=
  .changeFile books opens shares (Kept.of_ledger books (ledger_files same)).turnover

end

/-- What the creator of a file holds is a description of the file. -/
theorem Books.holds (h : Books [] v) (held : v.Holds f d) :
    (v.files.file f).handle = some d ∧ d ∈ v.files.ids ∧ v.files.fileOf d = f := by
  obtain ⟨x, found, handle⟩ := held
  have here : (v.files.file f).handle = some d := by
    unfold FileStore.file
    rw [found]
    exact handle
  exact ⟨here, h.tallied.named f d here⟩

/-- What the loader of a page refers to is held by the creator of the file. -/
theorem Books.held_of_gives (h : Books [] v) {source : Source} {loader : Loader}
    (gives : source.Gives v loader) : Held v (loader.backing?.map FileBacking.file) := by
  cases source with
  | zeroFill =>
    cases gives
    exact held_none
  | segment file offset readBytes zeroBytes =>
    obtain ⟨d, b, holds, made, rfl⟩ := gives
    have same : b.file = d := by
      unfold FileBacking.make at made
      split at made
      · cases made
      · split at made
        · cases made
          rfl
        · cases made
    rintro e refers
    cases refers
    rw [same]
    exact h.holders_pos (mem_references.mpr (.inl ⟨file, (h.holds holds).1⟩))

theorem duplicateSpace_settles (coherent : Coherent v none) (regions : RegionsBacked v)
    (books : Books [] v) (parent child : SpaceId) :
    Settles (.duplicateSpace parent child) v (serve (.duplicateSpace parent child)) := by
  unfold Settles serve done
  rw [ends_bind]
  refine ((duplicateSpace_kept books).and (duplicateSpace_ends coherent regions)).mono
    (fun _ w both => ?_) fun _ _ stopped refusal => (stopped.1 refusal).turnover
  obtain ⟨⟨kept, pages⟩, copied⟩ := both
  refine ⟨kept.turnover, fun a p page => ?_, fun a r region => (copied.regions a r).mpr (.inl region)⟩
  obtain ⟨q, there, -⟩ := copied.copies a p page
  have same := pages a p page
  rw [refers, there] at same
  exact ⟨q, there, same⟩

/-- Nobody referred to the description of a mapping before. -/
theorem Mapped.shared (books : Books [] v) {space : SpaceId} {start : VirtAddr}
    {length offset : Nat} {writable : Bool} {file : DescriptionId}
    (mapped : Mapped v space start length writable file offset w)
    (same : w.files.handles = v.files.handles) :
    ∃ count, pagesFor length = .ok count ∧
      SharedByMapping w ⟨v.files.descriptions.length⟩ space start count := by
  have unknown : (⟨v.files.descriptions.length⟩ : DescriptionId) ∉ v.references := fun mem => by
    have known := books.mem_ids mem
    simp at known
  rw [mem_references, not_or, not_or] at unknown
  obtain ⟨noHandle, noPage, noRegion⟩ := unknown
  have next : v.files.image.opened.length = v.files.descriptions.length := List.length_map _
  obtain ⟨count, sum, region, pages, others⟩ := mapped.pages
  rw [next] at region pages
  refine ⟨count, sum, fun s a => ⟨?_, ?_⟩, fun s a => ⟨?_, ?_⟩, fun f held => ?_⟩
  · rintro ⟨p, page, refers⟩
    by_contra elsewhere
    rw [others s a elsewhere] at page
    exact noPage ⟨s, a, p, page, refers⟩
  · rintro ⟨rfl, mem⟩
    obtain ⟨i, hi, rfl⟩ := mem_pageStarts.mp mem
    obtain ⟨-, b, stretch, page⟩ := pages i hi
    exact ⟨_, page, congrArg some (FileBacking.ofStretch_eq stretch).1⟩
  · rintro ⟨r, there, refers⟩
    by_contra elsewhere
    rw [mapped.regions s a elsewhere] at there
    exact noRegion ⟨s, a, r, there, refers⟩
  · rintro ⟨rfl, rfl⟩
    exact ⟨_, region, rfl⟩
  · have mem := FileStore.mem_handles.mpr ⟨f, held⟩
    rw [same] at mem
    exact noHandle (FileStore.mem_handles.mp mem)

/-- A mapping that is refused changes nothing. -/
theorem mapFile_settles (coherent : Coherent v none) (regions : RegionsBacked v)
    (books : Books [] v) (space : SpaceId) (start : VirtAddr) (length : Nat) (writable : Bool)
    (file : FileId) (offset : Nat) :
    Settles (.mapFile space start length writable file offset) v
      (serve (.mapFile space start length writable file offset)) := by
  unfold Settles serve
  rw [ends_bind]
  refine (handle_ends file).mono (fun d w holds => ?_) fun e w stopped => ?_
  · obtain ⟨rfl, holds⟩ := holds
    obtain ⟨-, present, named⟩ := books.holds holds
    rw [ends_bind]
    refine ((mapFile_opens books present).and (mapFile_ends coherent regions length writable d)).mono
      (fun a w both => ?_) fun e w stopped refusal => ?_
    · obtain ⟨⟨turnover, same⟩, -, mapped, -⟩ := both
      rw [named] at turnover
      exact ⟨turnover, mapped.shared books same⟩
    · obtain ⟨-, stops⟩ := stopped
      cases stops with
      | refused => exact (Kept.refl books).turnover
      | overflow => exact absurd refusal not_isRefusal_violated
  · obtain ⟨rfl, x, rfl, -⟩ := stopped
    exact not_isRefusal_violated.elim

theorem allocateLazy_settles (books : Books [] v) (space : SpaceId) (va : VirtAddr)
    (writable : Bool) (target : PageType) (source : Source) :
    Settles (.allocateLazy space va writable target source) v
      (serve (.allocateLazy space va writable target source)) := by
  unfold Settles serve
  rw [ends_bind]
  refine source.loader_ends.mono (fun loader w gives => ?_) fun e w stopped => ?_
  · obtain ⟨rfl, gives⟩ := gives
    exact Settles.of_upholds (fun _ => rfl) (fun _ _ => trivial)
      (allocateLazy_upholds books writable target (books.held_of_gives gives))
  · obtain ⟨rfl, x, rfl, -⟩ := stopped
    exact not_isRefusal_violated.elim

theorem loadSegment_settles (books : Books [] v) (space : SpaceId) (file : FileId) (offset : Nat)
    (start : VirtAddr) (readBytes zeroBytes : Nat) (writable : Bool) :
    Settles (.loadSegment space file offset start readBytes zeroBytes writable) v
      (serve (.loadSegment space file offset start readBytes zeroBytes writable)) := by
  unfold Settles serve
  rw [ends_bind]
  refine (handle_ends file).mono (fun d w holds => ?_) fun e w stopped => ?_
  · obtain ⟨rfl, holds⟩ := holds
    exact Settles.of_upholds (fun _ => rfl) (fun _ _ => trivial)
      (loadSegment_upholds books (books.holds holds).1 offset start readBytes zeroBytes writable)
  · obtain ⟨rfl, x, rfl, -⟩ := stopped
    exact not_isRefusal_violated.elim

theorem poke_preserves (space : SpaceId) (va : VirtAddr) (bytes : Array UInt8) :
    Preserves records (serve (.poke space va bytes)) := by
  refine .bind .get fun v => ?_
  split
  · exact .bind .ensure fun _ => .bind (.modify fun _ => rfl) fun _ => .pure
  · exact .pure

theorem fileNumbered_preserves (f : FileId) : Preserves records (fileNumbered f) := by
  refine .bind .get fun v => ?_
  split
  · exact .pure
  · exact .stop

/-- Every request that is answered opens and shares what it is to, and keeps the books in order. -/
theorem serve_settles (coherent : Coherent v none) (regions : RegionsBacked v) (books : Books [] v)
    (r : Request) : Settles r v (serve r) := by
  cases r with
  | createSpace =>
    exact .of_kept (fun _ => rfl) (fun _ _ => trivial)
      ((createSpace_kept coherent books).mono (fun _ _ kept => kept) fun _ _ kept _ => kept)
  | destroySpace space =>
    exact .of_kept (fun _ => rfl) (fun _ _ => trivial) (destroySpace_kept coherent books)
  | duplicateSpace parent child => exact duplicateSpace_settles coherent regions books parent child
  | allocateAnonymous space va writable =>
    exact .of_upholds (fun _ => rfl) (fun _ _ => trivial) (allocateAnonymous_upholds books writable)
  | allocateLazy space va writable target source =>
    exact allocateLazy_settles books space va writable target source
  | setupStack space =>
    exact .of_upholds (fun _ => rfl) (fun _ _ => trivial) (setupStack_upholds books)
  | loadSegment space file offset start readBytes zeroBytes writable =>
    exact loadSegment_settles books space file offset start readBytes zeroBytes writable
  | claim space va => exact .of_upholds (fun _ => rfl) (fun _ _ => trivial) (claim_upholds books)
  | mapFile space start length writable file offset =>
    exact mapFile_settles coherent regions books space start length writable file offset
  | unmapFile space start =>
    exact .of_kept (fun _ => rfl) (fun _ _ => trivial) (unmapFile_kept books)
  | fault space a flags pointer =>
    exact .of_upholds (fun _ => rfl) (fun _ _ => trivial) (handleFault_upholds books flags pointer)
  | locate space va => exact .of_records books (fun _ => rfl) (fun _ _ => trivial) .gets
  | peek space va => exact .of_records books (fun _ => rfl) (fun _ _ => trivial) .gets
  | poke space va bytes =>
    exact .of_records books (fun _ => rfl) (fun _ _ => trivial) (poke_preserves space va bytes)
  | touch space va write =>
    exact .of_records books (fun _ => rfl) (fun _ _ => trivial)
      (.bind (.modify fun _ => rfl) fun _ => .pure)
  | setUserPointer pointer =>
    exact .of_records books (fun _ => rfl) (fun _ _ => trivial)
      (.bind (.modify fun _ => rfl) fun _ => .pure)
  | store space a bytes =>
    exact .of_upholds (fun _ => rfl) (fun _ _ => trivial) (storeFrom_upholds books bytes 0)
  | load space a length =>
    exact .of_upholds (fun _ => rfl) (fun _ _ => trivial) (load_upholds books length)
  | failMaps count failure =>
    exact .of_records books (fun _ => rfl) (fun _ _ => trivial)
      (.bind (.modify fun _ => rfl) fun _ => .pure)
  | createFile contents => exact ⟨createFile_opens books contents, trivial⟩
  | dropFile f =>
    exact .changeFile books (fun _ => rfl) (fun _ _ => trivial) (dropFile_turnover books f)
  | setFileLength f length =>
    exact .changeContents books (fun _ => rfl) (fun _ _ => trivial)
      (FileStore.account_updateFile fun _ => ⟨rfl, rfl, rfl⟩)
  | setShortReads f count =>
    exact .changeContents books (fun _ => rfl) (fun _ _ => trivial)
      (FileStore.account_updateFile fun _ => ⟨rfl, rfl, rfl⟩)
  | setShortWrites f count =>
    exact .changeContents books (fun _ => rfl) (fun _ _ => trivial)
      (FileStore.account_updateFile fun _ => ⟨rfl, rfl, rfl⟩)
  | setReopenable f reopenable =>
    exact .changeContents books (fun _ => rfl) (fun _ _ => trivial)
      (FileStore.account_updateFile fun _ => ⟨rfl, rfl, rfl⟩)
  | fileContents f =>
    exact .of_records books (fun _ => rfl) (fun _ _ => trivial)
      (.bind (fileNumbered_preserves f) fun _ => .pure)
  | fileWrites f =>
    exact .of_records books (fun _ => rfl) (fun _ _ => trivial)
      (.bind (fileNumbered_preserves f) fun _ => .pure)

/-! ## Runs -/

/-- Requests that were all answered, be it by a refusal, lead from a new machine to the state. -/
inductive Answered : VirtualMemory → Prop
  | start (capacity sectors : Nat) : Answered (new capacity sectors).1
  | next {v : VirtualMemory} {r : Request} {reply : Reply} (before : Answered v)
      (answered : (perform r v).result = .ok reply) : Answered (perform r v).state

theorem Answered.reached (h : Answered v) : Reached v := by
  induction h with
  | start capacity sectors => exact reached_after capacity sectors []
  | next before answered ih => exact ih.perform _

theorem books_new (capacity sectors : Nat) : Books [] (new capacity sectors).1 where
  tallied := FileStore.tallied_empty
  held _ := rfl

theorem perform_settles (coherent : Coherent v none) (regions : RegionsBacked v)
    (books : Books [] v) {r : Request} {reply : Reply}
    (answered : (perform r v).result = .ok reply) :
    Turnover (r.openings reply) v (perform r v).state ∧ r.Shares v (perform r v).state reply := by
  have served : (perform r).Ends v
      (fun reply w => Turnover (r.openings reply) v w ∧ r.Shares v w reply) fun _ _ => True := by
    refine perform_ends_of_serve (Ends.mono (serve_settles coherent regions books r)
      (fun _ _ settled => settled) fun e w stopped => ?_)
    cases e with
    | refused e =>
      dsimp only
      rw [Request.openings_refused]
      exact ⟨stopped ⟨e, rfl⟩, Request.shares_refused r e⟩
    | violated x => trivial
  exact served.of_ok answered

theorem Answered.books (h : Answered v) : Books [] v := by
  induction h with
  | start capacity sectors => exact books_new capacity sectors
  | next before answered ih =>
    obtain ⟨coherent, regions⟩ := before.reached.inOrder
    exact (perform_settles coherent regions ih answered).1.books

/-- Whether some requests, made one after the other, are all answered. -/
def allAnswered (v : VirtualMemory) : List Request → Bool
  | [] => true
  | r :: rest => (perform r v).result.isOk && allAnswered (perform r v).state rest

theorem Answered.of_allAnswered {rs : List Request} (h : Answered v) (all : allAnswered v rs = true) :
    Answered (after v rs) := by
  induction rs generalizing v with
  | nil => exact h
  | cons r rest ih =>
    rw [allAnswered, Bool.and_eq_true] at all
    obtain ⟨first, others⟩ := all
    cases answered : (perform r v).result with
    | ok reply => exact ih (h.next answered) others
    | error x =>
      rw [answered] at first
      cases first

/-- In whatever state requests lead to, as long as none of them violates a contract, every file was
opened as often as it was closed and has live descriptions. A further request that is answered
closes exactly those that are not live any more, for good; a mapping that is done has opened one
description, which its pages and its region share, and a copy shares those of the original. -/
theorem Answered.descriptions_accounted (h : Answered v) :
    Balanced v ∧ ∀ r reply, (perform r v).result = .ok reply →
      Reckoned r reply v (perform r v).state := by
  refine ⟨h.books.balanced, fun r reply answered => ?_⟩
  obtain ⟨coherent, regions⟩ := h.reached.inOrder
  obtain ⟨turnover, shares⟩ := perform_settles coherent regions h.books answered
  exact turnover.reckoned h.books shares

/-- A mapping that is copied outlives the space it was made in, and what its creator held. -/
def outlived : List Request :=
  [.createSpace, .createFile #[7], .mapFile ⟨1⟩ ⟨4096⟩ 1 true ⟨0⟩ 0, .createSpace,
    .duplicateSpace ⟨1⟩ ⟨2⟩, .dropFile ⟨0⟩, .destroySpace ⟨1⟩]

/-- Of the two descriptions one is live, until the copy goes too. -/
theorem Answered.descriptions_accounted_outlived :
    ((after (new 1 0).1 outlived).files.file ⟨0⟩).opens = 2 ∧
      ((after (new 1 0).1 outlived).files.file ⟨0⟩).closes = 1 ∧
      (after (new 1 0).1 outlived).live ⟨0⟩ = {⟨1⟩} ∧
      Balanced (after (new 1 0).1 outlived) ∧
      Reckoned (.unmapFile ⟨2⟩ ⟨4096⟩) .done (after (new 1 0).1 outlived)
        (perform (.unmapFile ⟨2⟩ ⟨4096⟩) (after (new 1 0).1 outlived)).state ∧
      ((perform (.unmapFile ⟨2⟩ ⟨4096⟩) (after (new 1 0).1 outlived)).state.files.file
        ⟨0⟩).closes = 2 := by
  have all : allAnswered (new 1 0).1 outlived = true := by decide +kernel
  obtain ⟨balanced, reckoned⟩ :=
    Answered.descriptions_accounted ((Answered.start 1 0).of_allAnswered all)
  exact ⟨by decide +kernel, by decide +kernel, by decide +kernel, balanced,
    reckoned _ _ (by decide +kernel), by decide +kernel⟩

end KernelCore.VirtualMemory
