import KernelCore.Proofs.Memory.Descriptions
import KernelCore.Proofs.Paging.Steps

/-!
# Who refers to which file description

The creators of files, the pages of all spaces and the regions of all spaces refer to descriptions.
The books are in order if every description is held exactly as often as it is referred to. A
reference is exchanged for another by retaining the new description and releasing the old one.
-/
namespace KernelCore

/-! ## Sums over tables -/

namespace Table

variable {κ α β : Type} [Ranked κ]

/-- The sum of the weights of all values. -/
def total (w : α → Nat) (t : Table κ α) : Nat := t.values.foldr (fun a n => w a + n) 0

theorem total_mapValues (w : β → Nat) (f : α → β) (t : Table κ α) :
    total w (t.mapValues fun _ a => f a) = total (fun a => w (f a)) t := by
  simp [total, values, mapValues, List.foldr_map]

private theorem foldr_split (w : α → Nat) (k : κ) : ∀ es : List (κ × α),
    ((es.map Prod.fst).Pairwise fun a b => rank a < rank b) →
    (es.map Prod.snd).foldr (fun a n => w a + n) 0 =
      ((((es.find? fun e => rank e.1 = rank k).map Prod.snd).map w).getD 0) +
        ((es.filter fun e => rank e.1 ≠ rank k).map Prod.snd).foldr (fun a n => w a + n) 0
  | [], _ => rfl
  | e :: rest, h => by
    simp only [List.map_cons, List.pairwise_cons] at h
    by_cases here : rank e.1 = rank k
    · -- The keys after it are greater.
      have others : rest.filter (fun x => !decide (rank x.1 = rank k)) = rest := by
        rw [List.filter_eq_self]
        intro x hx
        have above := h.1 x.1 (List.mem_map_of_mem hx)
        simp only [Bool.not_eq_true', decide_eq_false_iff_not]
        omega
      simp [here, others]
    · have later := foldr_split w k rest h.2
      simp only [List.map_cons, List.foldr_cons, List.find?_cons, here, decide_false,
        List.filter_cons, ne_eq, not_false_eq_true, decide_true, if_true] at later ⊢
      omega

theorem total_split (w : α → Nat) (t : Table κ α) (k : κ) :
    total w t = ((t.find? k).map w).getD 0 + total w (t.erase k) :=
  foldr_split w k t.entries t.ascending

theorem total_erase (w : α → Nat) (t : Table κ α) (k : κ) :
    total w (t.erase k) + ((t.find? k).map w).getD 0 = total w t := by
  have split := total_split w t k
  omega

variable [DecidableEq κ] {t : Table κ α} {k : κ}

theorem total_insert (w : α → Nat) (t : Table κ α) (k : κ) (a : α) :
    total w (t.insert k a) + ((t.find? k).map w).getD 0 = total w t + w a := by
  have rest : (t.insert k a).erase k = t.erase k := by
    apply ext_find?
    intro x
    rw [find?_erase, find?_erase, find?_insert]
    split <;> rfl
  have before := total_split w t k
  have after := total_split w (t.insert k a) k
  rw [rest, find?_insert, if_pos rfl] at after
  simp only [Option.map_some, Option.getD_some] at after
  omega

theorem total_modify (w : α → Nat) {a : α} (h : t.find? k = some a) (f : α → α) :
    total w (t.modify k f) + w a = total w t + w (f a) := by
  have same : t.modify k f = t.insert k (f a) := by
    apply ext_find?
    intro x
    rw [find?_modify, find?_insert]
    split
    · rename_i here
      rw [here, h, Option.map_some]
    · rfl
  have inserted := total_insert w t k (f a)
  rw [same]
  simpa [h] using inserted

theorem modify_of_absent (h : t.find? k = none) (f : α → α) : t.modify k f = t := by
  apply ext_find?
  intro x
  rw [find?_modify]
  split
  · rename_i here
    rw [here, h, Option.map_none]
  · rfl

end Table

/-! ## What the spaces refer to -/

open FileStore (share share_none)

private theorem count_filterMap {α : Type} (g : α → Option DescriptionId) (d : DescriptionId)
    (l : List α) : (l.filterMap g).count d = l.foldr (fun x n => share d (g x) + n) 0 := by
  induction l with
  | nil => rfl
  | cons x rest ih =>
    rw [List.foldr_cons, ← ih]
    cases hx : g x with
    | none => simp [hx]
    | some e =>
      rw [List.filterMap_cons_some hx, FileStore.count_cons_eq_share, Nat.add_comm]

private theorem count_flatMap {α : Type} (g : α → List DescriptionId) (d : DescriptionId)
    (l : List α) : (l.flatMap g).count d = l.foldr (fun x n => (g x).count d + n) 0 := by
  induction l with
  | nil => rfl
  | cons x rest ih => rw [List.flatMap_cons, List.count_append, List.foldr_cons, ih]

namespace AddressSpace

/-- What a space refers to: the description of each page, if it has one, and its regions. -/
def holdings (x : AddressSpace) : Table VirtAddr (Option DescriptionId) × Table VirtAddr Region :=
  (x.pages.mapValues fun _ p => p.kind.description?, x.regions)

theorem count_descriptions (x : AddressSpace) (d : DescriptionId) :
    x.descriptions.count d =
      x.pages.total (fun p => share d p.kind.description?) +
        x.regions.total (fun r => share d (some r.file)) := by
  unfold descriptions
  rw [List.count_append, count_filterMap, ← List.filterMap_eq_map (f := Region.file),
    count_filterMap]
  rfl

theorem mem_descriptions {x : AddressSpace} {d : DescriptionId} :
    d ∈ x.descriptions ↔ (∃ a p, x.pages.find? a = some p ∧ p.kind.description? = some d) ∨
      ∃ a r, x.regions.find? a = some r ∧ r.file = d := by
  unfold descriptions
  simp only [List.mem_append, List.mem_filterMap, List.mem_map, Table.values, Prod.exists,
    Table.find?_eq_some_iff, exists_eq_right]
  constructor
  · rintro (⟨p, ⟨a, hp⟩, hd⟩ | ⟨r, ⟨a, hr⟩, hd⟩)
    · exact .inl ⟨a, p, hp, hd⟩
    · exact .inr ⟨a, r, hr, hd⟩
  · rintro (⟨a, p, hp, hd⟩ | ⟨a, r, hr, hd⟩)
    · exact .inl ⟨p, ⟨a, hp⟩, hd⟩
    · exact .inr ⟨r, ⟨a, hr⟩, hd⟩

end AddressSpace

namespace VirtualMemory

open Transition

/-- What the pages and regions of all spaces refer to, once for each of them. -/
def inSpaces (spaces : Table SpaceId AddressSpace) : List DescriptionId :=
  spaces.values.flatMap AddressSpace.descriptions

section

variable {spaces : Table SpaceId AddressSpace} {space : SpaceId} {va start : VirtAddr}
  {x : AddressSpace} {p : Page} {d : DescriptionId}

theorem count_inSpaces (spaces : Table SpaceId AddressSpace) (d : DescriptionId) :
    (inSpaces spaces).count d = spaces.total fun x => x.descriptions.count d :=
  count_flatMap _ d _

theorem mem_inSpaces : d ∈ inSpaces spaces ↔
    (∃ s a p, pageIn? spaces s a = some p ∧ p.kind.description? = some d) ∨
      ∃ s a r, regionIn? spaces s a = some r ∧ r.file = d := by
  unfold inSpaces pageIn? regionIn?
  simp only [List.mem_flatMap, Table.values, List.mem_map, Prod.exists, exists_eq_right,
    AddressSpace.mem_descriptions, Option.bind_eq_some_iff, Table.find?_eq_some_iff]
  constructor
  · rintro ⟨x, ⟨s, hx⟩, ⟨a, p, hp, hd⟩ | ⟨a, r, hr, hd⟩⟩
    · exact .inl ⟨s, a, p, ⟨x, hx, hp⟩, hd⟩
    · exact .inr ⟨s, a, r, ⟨x, hx, hr⟩, hd⟩
  · rintro (⟨s, a, p, ⟨x, hx, hp⟩, hd⟩ | ⟨s, a, r, ⟨x, hx, hr⟩, hd⟩)
    · exact ⟨x, ⟨s, hx⟩, .inl ⟨a, p, hp, hd⟩⟩
    · exact ⟨x, ⟨s, hx⟩, .inr ⟨a, r, hr, hd⟩⟩

private theorem count_modify (found : spaces.find? space = some x)
    (f : AddressSpace → AddressSpace) (d : DescriptionId) :
    (inSpaces (spaces.modify space f)).count d + x.descriptions.count d =
      (inSpaces spaces).count d + (f x).descriptions.count d := by
  rw [count_inSpaces, count_inSpaces]
  exact Table.total_modify _ found f

/-- A page that changes refers to something else. -/
theorem count_updatePage (page : pageIn? spaces space va.floor = some p) (f : Page → Page)
    (d : DescriptionId) :
    (inSpaces (spaces.modify space fun x => x.updatePage va f)).count d +
        share d p.kind.description? =
      (inSpaces spaces).count d + share d (f p).kind.description? := by
  obtain ⟨x, found, there⟩ := Option.bind_eq_some_iff.mp page
  have one := count_modify found (fun x => x.updatePage va f) d
  have pages := Table.total_modify (fun p => share d p.kind.description?) there f
  rw [AddressSpace.count_descriptions, AddressSpace.count_descriptions] at one
  unfold AddressSpace.updatePage at one ⊢
  dsimp only at one ⊢
  omega

private theorem getD_map_share {α : Type} (g : α → Option DescriptionId) (o : Option α) :
    (o.map fun a => share d (g a)).getD 0 = share d (o.bind g) := by
  cases o <;> rfl

private theorem getD_map_share_file (o : Option Region) :
    (o.map fun r => share d (some r.file)).getD 0 = share d (o.map Region.file) := by
  cases o <;> rfl

/-- The page that goes, if there is one, refers to nothing any more. -/
theorem count_removePage (d : DescriptionId) :
    (inSpaces (spaces.modify space fun x => x.removePage va)).count d +
        share d ((pageIn? spaces space va.floor).bind fun p => p.kind.description?) =
      (inSpaces spaces).count d := by
  cases found : spaces.find? space with
  | none => rw [Table.modify_of_absent found, pageIn?, found, Option.bind_none, Option.bind_none,
      share_none, Nat.add_zero]
  | some x =>
    have one := count_modify found (fun x => x.removePage va) d
    have pages := Table.total_erase (fun p => share d p.kind.description?) x.pages va.floor
    rw [getD_map_share fun p : Page => p.kind.description?] at pages
    rw [AddressSpace.count_descriptions, AddressSpace.count_descriptions] at one
    rw [pageIn?_of_find found]
    unfold AddressSpace.removePage at one ⊢
    dsimp only at one ⊢
    omega

theorem count_insertPage (found : spaces.find? space = some x) (absent : x.pages.find? va = none)
    (p : Page) (d : DescriptionId) :
    (inSpaces (spaces.insert space { x with pages := x.pages.insert va p })).count d =
      (inSpaces spaces).count d + share d p.kind.description? := by
  have one := Table.total_insert (fun x => x.descriptions.count d) spaces space
    { x with pages := x.pages.insert va p }
  have pages := Table.total_insert (fun p => share d p.kind.description?) x.pages va p
  rw [found, Option.map_some, Option.getD_some, ← count_inSpaces, ← count_inSpaces,
    AddressSpace.count_descriptions, AddressSpace.count_descriptions] at one
  rw [absent, Option.map_none, Option.getD_none] at pages
  dsimp only at one
  omega

theorem count_insertRegion (alive : (spaces.find? space).isSome = true) (r : Region)
    (d : DescriptionId) :
    (inSpaces (spaces.modify space fun x => x.insertRegion start r)).count d +
        share d ((regionIn? spaces space start).map Region.file) =
      (inSpaces spaces).count d + share d (some r.file) := by
  obtain ⟨x, found⟩ := Option.isSome_iff_exists.mp alive
  have one := count_modify found (fun x => x.insertRegion start r) d
  have regions := Table.total_insert (fun r => share d (some r.file)) x.regions start r
  rw [getD_map_share_file] at regions
  rw [AddressSpace.count_descriptions, AddressSpace.count_descriptions] at one
  rw [regionIn?, found, Option.bind_some]
  unfold AddressSpace.insertRegion at one ⊢
  dsimp only at one ⊢
  omega

theorem count_removeRegion (d : DescriptionId) :
    (inSpaces (spaces.modify space fun x => x.removeRegion start)).count d +
        share d ((regionIn? spaces space start).map Region.file) =
      (inSpaces spaces).count d := by
  cases found : spaces.find? space with
  | none => rw [Table.modify_of_absent found, regionIn?, found, Option.bind_none, Option.map_none,
      share_none, Nat.add_zero]
  | some x =>
    have one := count_modify found (fun x => x.removeRegion start) d
    have regions := Table.total_erase (fun r => share d (some r.file)) x.regions start
    rw [getD_map_share_file] at regions
    rw [AddressSpace.count_descriptions, AddressSpace.count_descriptions] at one
    rw [regionIn?, found, Option.bind_some]
    unfold AddressSpace.removeRegion at one ⊢
    dsimp only at one ⊢
    omega

/-- A new space refers to nothing. -/
theorem count_insert_empty (absent : spaces.find? space = none) (d : DescriptionId) :
    (inSpaces (spaces.insert space .empty)).count d = (inSpaces spaces).count d := by
  have one := Table.total_insert (fun x => x.descriptions.count d) spaces space .empty
  rw [absent, ← count_inSpaces, ← count_inSpaces] at one
  exact one

/-- A space without pages and regions refers to nothing. -/
theorem count_erase (pages : ∀ a, pageIn? spaces space a = none)
    (regions : ∀ a, regionIn? spaces space a = none) (d : DescriptionId) :
    (inSpaces (spaces.erase space)).count d = (inSpaces spaces).count d := by
  have one := Table.total_erase (fun x => x.descriptions.count d) spaces space
  rw [← count_inSpaces, ← count_inSpaces] at one
  cases found : spaces.find? space with
  | none =>
    rw [found] at one
    exact one
  | some x =>
    have none : x.descriptions = [] := by
      rw [List.eq_nil_iff_forall_not_mem]
      intro e mem
      rcases AddressSpace.mem_descriptions.mp mem with ⟨a, p, hp, -⟩ | ⟨a, r, hr, -⟩
      · rw [← pageIn?_of_find found, pages] at hp
        cases hp
      · have there := regions a
        rw [regionIn?, found, Option.bind_some, hr] at there
        cases there
    rw [found, Option.map_some, Option.getD_some, none, List.count_nil] at one
    exact one

end

/-- The description a page refers to, if it is there and refers to one. -/
def refers (spaces : Table SpaceId AddressSpace) (s : SpaceId) (a : VirtAddr) :
    Option DescriptionId := (pageIn? spaces s a).bind fun p => p.kind.description?

/-! ## References and books -/

/-- Everything that refers to a description: what the creators of the files still hold, and the
pages and regions of all spaces. -/
def references (v : VirtualMemory) : List DescriptionId :=
  v.files.handles ++ inSpaces v.spaces

variable {u v w : VirtualMemory} {loan : List DescriptionId} {d : DescriptionId}

theorem count_references (v : VirtualMemory) (d : DescriptionId) :
    v.references.count d = v.files.handles.count d + (inSpaces v.spaces).count d :=
  List.count_append

theorem mem_references : d ∈ v.references ↔ (∃ f, (v.files.file f).handle = some d) ∨
    (∃ s a p, pageIn? v.spaces s a = some p ∧ p.kind.description? = some d) ∨
      ∃ s a r, regionIn? v.spaces s a = some r ∧ r.file = d := by
  unfold references
  rw [List.mem_append, mem_inSpaces, FileStore.mem_handles]

/-- Every description is held once for each reference to it, and once for each time it is on loan
to an operation that is under way. -/
structure Books (loan : List DescriptionId) (v : VirtualMemory) : Prop where
  tallied : v.files.Tallied
  held : ∀ d, v.files.holders d = v.references.count d + loan.count d

theorem Books.holders_pos (h : Books loan v) (mem : d ∈ v.references) : 0 < v.files.holders d := by
  have positive := List.count_pos_iff.mpr mem
  rw [h.held]
  omega

theorem Books.mem_ids (h : Books loan v) (mem : d ∈ v.references) : d ∈ v.files.ids :=
  FileStore.mem_ids_of_holders (h.holders_pos mem)

/-- With the books in order the same descriptions are there, and none that was closed came back. -/
structure Kept (loan : List DescriptionId) (v w : VirtualMemory) : Prop where
  books : Books loan w
  opened : w.files.image.opened = v.files.image.opened
  closed : ∀ d, v.files.holders d = 0 → w.files.holders d = 0
  handles : w.files.handles = v.files.handles

theorem Kept.refl (h : Books loan v) : Kept loan v v := ⟨h, rfl, fun _ none => none, rfl⟩

theorem Kept.trans (h : Kept loan u v) (h' : Kept loan v w) : Kept loan u w where
  books := h'.books
  opened := h'.opened.trans h.opened
  closed d none := h'.closed d (h.closed d none)
  handles := h'.handles.trans h.handles

/-- One reference to `new` has taken the place of one to `old`. -/
theorem Kept.exchange (h : Books loan v) (new old : Option DescriptionId)
    (live : ∀ d, new = some d → 0 < v.files.holders d) {spaces : Table SpaceId AddressSpace}
    (count : ∀ d, (inSpaces spaces).count d + share d old =
      (inSpaces v.spaces).count d + share d new) :
    Kept loan v { v with spaces, files := (v.files.retain? new).release? old } := by
  have holders : ∀ d, ((v.files.retain? new).release? old).holders d =
      v.files.holders d + share d new - share d old := fun d => by
    rw [FileStore.holders_release?, FileStore.holders_retain? live]
  have held : ∀ d, v.files.holders d =
      v.files.handles.count d + (inSpaces v.spaces).count d + loan.count d := fun d => by
    rw [h.held, count_references]
  refine ⟨⟨h.tallied.exchange live, fun d => ?_⟩, FileStore.opened_exchange new old, fun d none => ?_,
    FileStore.handles_exchange new old⟩
  · rw [count_references]
    dsimp only
    rw [FileStore.handles_exchange, holders]
    have before := held d
    have change := count d
    omega
  · dsimp only
    rw [holders]
    have other : share d new = 0 := by
      unfold FileStore.share
      split
      · have positive := live d ‹_›
        omega
      · rfl
    omega

/-- Spaces that come and go without references. -/
theorem Kept.of_count (h : Books loan v) {spaces : Table SpaceId AddressSpace}
    (count : ∀ d, (inSpaces spaces).count d = (inSpaces v.spaces).count d) :
    Kept loan v { v with spaces } :=
  .exchange h none none (fun _ => nofun) fun d => by rw [count]

/-! ## Steps that concern no references -/

/-- What memory knows of references to descriptions. -/
def ledger (v : VirtualMemory) :=
  (v.files.account, v.spaces.mapValues fun _ x => x.holdings)

section

variable (h : w.ledger = v.ledger)

include h

theorem account_of_ledger : w.files.account = v.files.account := congrArg Prod.fst h

theorem holdings_of_ledger (s : SpaceId) :
    (w.spaces.find? s).map AddressSpace.holdings = (v.spaces.find? s).map AddressSpace.holdings := by
  have spaces := congrArg (fun x => x.2.find? s) h
  simpa only [ledger, Table.find?_mapValues] using spaces

theorem inSpaces_of_ledger (d : DescriptionId) :
    (inSpaces w.spaces).count d = (inSpaces v.spaces).count d := by
  have weigh : ∀ spaces : Table SpaceId AddressSpace, (inSpaces spaces).count d =
      (spaces.mapValues fun _ x => x.holdings).total fun y =>
        y.1.total (share d) + y.2.total fun r => share d (some r.file) := by
    intro spaces
    rw [count_inSpaces, Table.total_mapValues]
    congr 1
    funext x
    rw [AddressSpace.count_descriptions]
    unfold AddressSpace.holdings
    rw [Table.total_mapValues]
  have spaces := congrArg Prod.snd h
  rw [weigh, weigh]
  exact congrArg _ spaces

theorem refers_of_ledger (s : SpaceId) (a : VirtAddr) :
    refers w.spaces s a = refers v.spaces s a := by
  have look : ∀ spaces : Table SpaceId AddressSpace, refers spaces s a =
      (((spaces.find? s).map AddressSpace.holdings).bind fun y => y.1.find? a).join := by
    intro spaces
    unfold refers pageIn? AddressSpace.holdings
    cases spaces.find? s with
    | none => rfl
    | some x =>
      simp only [Option.bind_some, Option.map_some, Table.find?_mapValues]
      cases x.pages.find? a <;> rfl
  rw [look, look, holdings_of_ledger h]

theorem regions_of_ledger (s : SpaceId) :
    (w.spaces.find? s).map AddressSpace.regions = (v.spaces.find? s).map AddressSpace.regions := by
  have holdings := congrArg (Option.map Prod.snd) (holdings_of_ledger h s)
  simpa only [Option.map_map, Function.comp_def, AddressSpace.holdings] using holdings

end

/-- With the books in order, what a space consists of may have changed, but not its regions. -/
structure Since (loan : List DescriptionId) (v w : VirtualMemory) : Prop where
  kept : Kept loan v w
  regions : ∀ s, (w.spaces.find? s).map AddressSpace.regions =
    (v.spaces.find? s).map AddressSpace.regions

theorem Since.books (h : Since loan v w) : Books loan w := h.kept.books

theorem Since.refl (h : Books loan v) : Since loan v v := ⟨.refl h, fun _ => rfl⟩

theorem Since.trans (h : Since loan u v) (h' : Since loan v w) : Since loan u w :=
  ⟨h.kept.trans h'.kept, fun s => (h'.regions s).trans (h.regions s)⟩

theorem Since.regionIn? (h : Since loan v w) (s : SpaceId) (a : VirtAddr) :
    regionIn? w.spaces s a = regionIn? v.spaces s a := by
  have look : ∀ spaces : Table SpaceId AddressSpace, VirtualMemory.regionIn? spaces s a =
      ((spaces.find? s).map AddressSpace.regions).bind fun y => y.find? a := by
    intro spaces
    unfold VirtualMemory.regionIn?
    cases spaces.find? s <;> rfl
  rw [look, look, h.regions]

theorem Since.isSome_find (h : Since loan v w) (s : SpaceId) :
    (w.spaces.find? s).isSome = (v.spaces.find? s).isSome := by
  have same := congrArg Option.isSome (h.regions s)
  rwa [Option.isSome_map, Option.isSome_map] at same

/-- What the creator of a file holds stays live. -/
theorem Since.holders_pos (h : Since loan v w) {f : FileId}
    (held : (v.files.file f).handle = some d) : 0 < w.files.holders d := by
  have mem : d ∈ w.files.handles := by
    rw [h.kept.handles]
    exact FileStore.mem_handles.mpr ⟨f, held⟩
  exact h.books.holders_pos (mem_references.mpr (.inl (FileStore.mem_handles.mp mem)))

theorem Kept.of_ledger (h : Books loan v) (same : w.ledger = v.ledger) : Kept loan v w := by
  have account := account_of_ledger same
  have handles := FileStore.handles_of_account account
  refine ⟨⟨h.tallied.of_account account, fun d => ?_⟩, FileStore.opened_image_of_account account,
    fun d none => ?_, handles⟩
  · rw [FileStore.holders_of_account account, h.held, count_references, count_references, handles,
      inSpaces_of_ledger same]
  · rw [FileStore.holders_of_account account, none]

theorem Since.of_ledger (h : Books loan v) (same : w.ledger = v.ledger) : Since loan v w :=
  ⟨.of_ledger h same, regions_of_ledger same⟩

/-- A page that changes but refers to what it referred to. -/
theorem ledger_updatePage {space : SpaceId} {va : VirtAddr} {f : Page → Page}
    (h : ∀ p, pageIn? v.spaces space va.floor = some p →
      (f p).kind.description? = p.kind.description?) :
    VirtualMemory.ledger
        { v with spaces := v.spaces.modify space fun x => x.updatePage va f } = v.ledger := by
  unfold ledger
  congr 1
  apply Table.ext_find?
  intro s
  rw [Table.find?_mapValues, Table.find?_mapValues, Table.find?_modify]
  split
  · rename_i here
    subst here
    cases found : v.spaces.find? s with
    | none => rfl
    | some x =>
      simp only [Option.map_some, AddressSpace.holdings, AddressSpace.updatePage, Option.some.injEq,
        Prod.mk.injEq, and_true]
      apply Table.ext_find?
      intro a
      rw [Table.find?_mapValues, Table.find?_mapValues, Table.find?_modify]
      split
      · rename_i there
        subst there
        cases page : x.pages.find? va.floor with
        | none => rfl
        | some p =>
          have same := h p ((pageIn?_of_find found).trans page)
          rw [Option.map_some, Option.map_some, Option.map_some, same]
      · rfl
  · rfl

/-- A change of the files that concerns no descriptions. -/
theorem ledger_files {files : FileStore} (h : files.account = v.files.account) :
    VirtualMemory.ledger { v with files } = v.ledger := by
  unfold ledger
  dsimp only
  rw [h]

end VirtualMemory

end KernelCore
