import KernelCore.Paging.Basic

/-!
# Pages and regions by space and address

The spaces of the machine as one table of pages and one of regions, and what every change of a
space does to them.
-/
namespace KernelCore.VirtualMemory

/-- The page of a space that starts at an address. -/
def pageIn? (spaces : Table SpaceId AddressSpace) (s : SpaceId) (a : VirtAddr) : Option Page :=
  (spaces.find? s).bind fun x => x.pages.find? a

/-- The region of a space that starts at an address. -/
def regionIn? (spaces : Table SpaceId AddressSpace) (s : SpaceId) (a : VirtAddr) : Option Region :=
  (spaces.find? s).bind fun x => x.regions.find? a

theorem page?_eq (v : VirtualMemory) (s : SpaceId) (a : VirtAddr) :
    v.page? s a = pageIn? v.spaces s a.floor := rfl

theorem region?_eq (v : VirtualMemory) (s : SpaceId) (a : VirtAddr) :
    v.region? s a = regionIn? v.spaces s a := rfl

variable {spaces : Table SpaceId AddressSpace} {space s : SpaceId} {va a : VirtAddr}
  {x y : AddressSpace} {p : Page}

theorem pageIn?_of_find (h : spaces.find? s = some x) : pageIn? spaces s a = x.pages.find? a := by
  simp [pageIn?, h]

theorem isSome_find_of_page (h : pageIn? spaces s a = some p) : (spaces.find? s).isSome = true := by
  cases hs : spaces.find? s with
  | none => simp [pageIn?, hs] at h
  | some x => rfl

/-! ## Changes of one space -/

theorem isSome_find_modify (f : AddressSpace → AddressSpace) :
    ((spaces.modify space f).find? s).isSome = (spaces.find? s).isSome := by
  rw [Table.find?_modify]
  by_cases h : s = space
  · subst h
    simp
  · simp [h]

private theorem pageIn?_modify {f : AddressSpace → AddressSpace}
    {g : VirtAddr → Option Page → Option Page}
    (h : ∀ x a, (f x).pages.find? a = g a (x.pages.find? a)) (absent : ∀ a, g a none = none) :
    pageIn? (spaces.modify space f) s a =
      if s = space then g a (pageIn? spaces s a) else pageIn? spaces s a := by
  unfold pageIn?
  rw [Table.find?_modify]
  by_cases hs : s = space
  · subst hs
    cases spaces.find? s <;> simp [h, absent]
  · simp [hs]

private theorem regionIn?_modify {f : AddressSpace → AddressSpace}
    {g : VirtAddr → Option Region → Option Region}
    (h : ∀ x, spaces.find? space = some x →
      ∀ a, (f x).regions.find? a = g a (x.regions.find? a))
    (absent : spaces.find? space = none → ∀ a, g a none = none) :
    regionIn? (spaces.modify space f) s a =
      if s = space then g a (regionIn? spaces s a) else regionIn? spaces s a := by
  unfold regionIn?
  rw [Table.find?_modify]
  by_cases hs : s = space
  · subst hs
    cases hx : spaces.find? s with
    | none => simp [absent hx]
    | some x => simp [h x hx]
  · simp [hs]

theorem pageIn?_updatePage (f : Page → Page) :
    pageIn? (spaces.modify space fun x => x.updatePage va f) s a =
      if s = space ∧ a = va.floor then (pageIn? spaces s a).map f else pageIn? spaces s a := by
  rw [pageIn?_modify (g := fun b o => if b = va.floor then o.map f else o)]
  · by_cases hs : s = space <;> simp [hs]
  · intro x b
    simp only [AddressSpace.updatePage, Table.find?_modify]
  · intro b
    simp

theorem pageIn?_removePage :
    pageIn? (spaces.modify space fun x => x.removePage va) s a =
      if s = space ∧ a = va.floor then none else pageIn? spaces s a := by
  rw [pageIn?_modify (g := fun b o => if b = va.floor then none else o)]
  · by_cases hs : s = space <;> simp [hs]
  · intro x b
    simp only [AddressSpace.removePage, Table.find?_erase]
  · intro b
    simp

private theorem pageIn?_modify_of_same {f : AddressSpace → AddressSpace}
    (h : ∀ x, (f x).pages = x.pages) :
    pageIn? (spaces.modify space f) s a = pageIn? spaces s a := by
  rw [pageIn?_modify (g := fun _ o => o) (fun x a => by rw [h]) fun _ => rfl, ite_self]

@[simp] theorem pageIn?_insertRegion (start : VirtAddr) (r : Region) :
    pageIn? (spaces.modify space fun x => x.insertRegion start r) s a = pageIn? spaces s a :=
  pageIn?_modify_of_same fun _ => rfl

@[simp] theorem pageIn?_removeRegion (start : VirtAddr) :
    pageIn? (spaces.modify space fun x => x.removeRegion start) s a = pageIn? spaces s a :=
  pageIn?_modify_of_same fun _ => rfl

private theorem regionIn?_modify_of_same {f : AddressSpace → AddressSpace}
    (h : ∀ x, (f x).regions = x.regions) :
    regionIn? (spaces.modify space f) s a = regionIn? spaces s a := by
  rw [regionIn?_modify (g := fun _ o => o) (fun x _ a => by rw [h]) fun _ _ => rfl, ite_self]

@[simp] theorem regionIn?_updatePage (f : Page → Page) :
    regionIn? (spaces.modify space fun x => x.updatePage va f) s a = regionIn? spaces s a :=
  regionIn?_modify_of_same fun _ => rfl

@[simp] theorem regionIn?_removePage :
    regionIn? (spaces.modify space fun x => x.removePage va) s a = regionIn? spaces s a :=
  regionIn?_modify_of_same fun _ => rfl

theorem regionIn?_insertRegion (start : VirtAddr) (r : Region)
    (exists_ : (spaces.find? space).isSome = true) :
    regionIn? (spaces.modify space fun x => x.insertRegion start r) s a =
      if s = space ∧ a = start then some r else regionIn? spaces s a := by
  rw [regionIn?_modify (g := fun b o => if b = start then some r else o)]
  · by_cases hs : s = space <;> simp [hs]
  · intro x _ b
    simp only [AddressSpace.insertRegion, Table.find?_insert]
  · intro none
    simp [none] at exists_

theorem regionIn?_removeRegion (start : VirtAddr) :
    regionIn? (spaces.modify space fun x => x.removeRegion start) s a =
      if s = space ∧ a = start then none else regionIn? spaces s a := by
  rw [regionIn?_modify (g := fun b o => if b = start then none else o)]
  · by_cases hs : s = space <;> simp [hs]
  · intro x _ b
    simp only [AddressSpace.removeRegion, Table.find?_erase]
  · intro _ b
    simp

/-- A page that is left as it is leaves the spaces as they are. -/
theorem modify_updatePage_self {g : Page → Page}
    (h : ∀ p, pageIn? spaces space va.floor = some p → g p = p) :
    (spaces.modify space fun x => x.updatePage va g) = spaces := by
  apply Table.ext_find?
  intro k
  rw [Table.find?_modify]
  split
  · rename_i here
    subst here
    cases hx : spaces.find? k with
    | none => rfl
    | some x =>
      rw [Option.map_some]
      congr 1
      have pages : (x.pages.modify va.floor g) = x.pages := by
        apply Table.ext_find?
        intro b
        rw [Table.find?_modify]
        split
        · rename_i there
          subst there
          cases hp : x.pages.find? va.floor with
          | none => rfl
          | some p =>
            have same := h p (by rw [pageIn?_of_find hx, hp])
            rw [Option.map_some, same]
        · rfl
      rw [AddressSpace.updatePage, pages]
  · rfl

/-! ## Spaces that come and go -/

theorem pageIn?_insert (x : AddressSpace) :
    pageIn? (spaces.insert space x) s a =
      if s = space then x.pages.find? a else pageIn? spaces s a := by
  unfold pageIn?
  rw [Table.find?_insert]
  by_cases hs : s = space <;> simp [hs]

theorem regionIn?_insert (x : AddressSpace) :
    regionIn? (spaces.insert space x) s a =
      if s = space then x.regions.find? a else regionIn? spaces s a := by
  unfold regionIn?
  rw [Table.find?_insert]
  by_cases hs : s = space <;> simp [hs]

theorem pageIn?_erase :
    pageIn? (spaces.erase space) s a = if s = space then none else pageIn? spaces s a := by
  unfold pageIn?
  rw [Table.find?_erase]
  by_cases hs : s = space <;> simp [hs]

theorem regionIn?_erase :
    regionIn? (spaces.erase space) s a = if s = space then none else regionIn? spaces s a := by
  unfold regionIn?
  rw [Table.find?_erase]
  by_cases hs : s = space <;> simp [hs]

/-- A page can be entered at an aligned address that has none. -/
theorem insertPage_cases (x : AddressSpace) (va : VirtAddr) (p : Page) :
    x.insertPage va p = .error (.violated .check) ∧ va.isAligned = false ∨
      x.insertPage va p = .error (.refused .alreadyMapped) ∧ va.isAligned = true ∧
        (x.pages.find? va).isSome = true ∨
      x.insertPage va p = .ok { x with pages := x.pages.insert va p } ∧ va.isAligned = true ∧
        x.pages.find? va = none := by
  unfold AddressSpace.insertPage
  cases aligned : va.isAligned with
  | false => simp
  | true =>
    unfold Table.contains
    cases x.pages.find? va <;> simp

end KernelCore.VirtualMemory
