import KernelCore.Memory.Mmu

/-!
# Page table entries

What every operation of the memory management unit does to the entry of every page, whatever
happens to the call counts.
-/
namespace KernelCore

/-- What the hardware translates a page to: its physical page, and whether it may be written. -/
def MmuEntry.target (e : MmuEntry) : PhysAddr × Bool := (e.page, e.writable)

namespace Mmu

variable {m : Mmu} {space s : SpaceId} {va a : VirtAddr} {e : MmuEntry}

@[simp] theorem mapping?_new : Mmu.new.mapping? s a = none := rfl

theorem mapping?_setEntry :
    (m.setEntry space va e).mapping? s a = if s = space ∧ a = va then some e else m.mapping? s a := by
  unfold setEntry mapping?
  rw [Table.find?_insert]
  by_cases hs : s = space
  · subst hs
    by_cases ha : a = va
    · simp [ha, Table.find?_insert]
    · cases m.entries.find? s <;> simp [ha, Table.find?_insert]
  · simp [hs]

theorem mapping?_updateEntry (f : MmuEntry → MmuEntry) :
    (m.updateEntry space va f).mapping? s a =
      if s = space ∧ a = va then (m.mapping? s a).map f else m.mapping? s a := by
  unfold updateEntry mapping?
  rw [Table.find?_modify]
  by_cases hs : s = space
  · subst hs
    by_cases ha : a = va
    · subst ha
      cases m.entries.find? s <;> simp [Table.find?_modify]
    · cases m.entries.find? s <;> simp [ha, Table.find?_modify]
  · simp [hs]

theorem mapping?_unmap :
    (m.unmap space va).mapping? s a = if s = space ∧ a = va then none else m.mapping? s a := by
  unfold unmap mapping?
  rw [Table.find?_modify]
  by_cases hs : s = space
  · subst hs
    by_cases ha : a = va
    · subst ha
      cases m.entries.find? s <;> simp [Table.find?_erase]
    · cases m.entries.find? s <;> simp [ha, Table.find?_erase]
  · simp [hs]

theorem mapping?_destroy :
    (m.destroy space).mapping? s a = if s = space then none else m.mapping? s a := by
  unfold destroy mapping?
  rw [Table.find?_erase]
  by_cases hs : s = space <;> simp [hs]

theorem mapping?_setDirty (dirty : Bool) :
    (m.setDirty space va dirty).mapping? s a =
      if s = space ∧ a = va then (m.mapping? s a).map fun e => { e with dirty } else m.mapping? s a :=
  mapping?_updateEntry _

theorem mapping?_clearAccessed :
    (m.clearAccessed space va).mapping? s a =
      if s = space ∧ a = va then (m.mapping? s a).map fun e => { e with accessed := false }
      else m.mapping? s a :=
  mapping?_updateEntry _

theorem mapping?_touch (write : Bool) :
    (m.touch space va write).mapping? s a =
      if s = space ∧ a = va.floor then
        (m.mapping? s a).map fun e => { e with accessed := true, dirty := e.dirty || write }
      else m.mapping? s a :=
  mapping?_updateEntry _

/-- The hardware translates every page to the same physical page with the same rights. -/
def SameTargets (m m' : Mmu) : Prop :=
  ∀ s a, (m'.mapping? s a).map MmuEntry.target = (m.mapping? s a).map MmuEntry.target

theorem SameTargets.refl (m : Mmu) : SameTargets m m := fun _ _ => rfl

theorem SameTargets.trans {m₁ m₂ m₃ : Mmu} (h : SameTargets m₁ m₂) (h' : SameTargets m₂ m₃) :
    SameTargets m₁ m₃ := fun s a => (h' s a).trans (h s a)

theorem sameTargets_updateEntry {f : MmuEntry → MmuEntry} (h : ∀ e, (f e).target = e.target) :
    SameTargets m (m.updateEntry space va f) := by
  intro s a
  rw [mapping?_updateEntry]
  split
  · cases m.mapping? s a <;> simp [h]
  · rfl

theorem sameTargets_clearAccessed : SameTargets m (m.clearAccessed space va) :=
  sameTargets_updateEntry fun _ => rfl

theorem sameTargets_setDirty (dirty : Bool) : SameTargets m (m.setDirty space va dirty) :=
  sameTargets_updateEntry fun _ => rfl

theorem sameTargets_touch (write : Bool) : SameTargets m (m.touch space va write) :=
  sameTargets_updateEntry fun _ => rfl

/-! ## Pages that were written to -/

theorem isDirty_congr {m m' : Mmu} (h : m'.mapping? s a = m.mapping? s a) :
    m'.isDirty s a = m.isDirty s a := by
  unfold isDirty
  rw [h]

/-- Every page is recorded as written to that was so before, and no other. -/
def SameDirty (m m' : Mmu) : Prop := ∀ s a, m'.isDirty s a = m.isDirty s a

theorem SameDirty.refl (m : Mmu) : SameDirty m m := fun _ _ => rfl

theorem SameDirty.trans {m₁ m₂ m₃ : Mmu} (h : SameDirty m₁ m₂) (h' : SameDirty m₂ m₃) :
    SameDirty m₁ m₃ := fun s a => (h' s a).trans (h s a)

theorem sameDirty_updateEntry {f : MmuEntry → MmuEntry} (h : ∀ e, (f e).dirty = e.dirty) :
    SameDirty m (m.updateEntry space va f) := by
  intro s a
  unfold isDirty
  rw [mapping?_updateEntry]
  split
  · cases m.mapping? s a <;> simp [h]
  · rfl

theorem sameDirty_clearAccessed : SameDirty m (m.clearAccessed space va) :=
  sameDirty_updateEntry fun _ => rfl

/-- A read is not recorded as a write. -/
theorem sameDirty_touch : SameDirty m (m.touch space va false) :=
  sameDirty_updateEntry fun e => Bool.or_false e.dirty

/-- A write is recorded if the hardware translates the page. -/
theorem isDirty_touch : (m.touch space va true).isDirty s a =
    if s = space ∧ a = va.floor then (m.mapping? s a).isSome else m.isDirty s a := by
  unfold isDirty
  rw [mapping?_touch]
  split
  · cases m.mapping? s a <;> simp
  · rfl

/-- Why mapping a page fails: it was to, or the page is mapped already. -/
def Refuses (m : Mmu) (space : SpaceId) (va : VirtAddr) (e : MapError) : Prop :=
  0 < m.failures ∧ e = m.failure ∨ (m.mapping? space va).isSome = true ∧ e = .alreadyMapped

/-- A mapping that fails leaves every entry as it was; one that succeeds adds one. -/
theorem map_cases (m : Mmu) (space : SpaceId) (va : VirtAddr) (pa : PhysAddr) (writable : Bool) :
    (∃ e, (m.map space va pa writable).1 = .error e ∧ m.Refuses space va e ∧
        ∀ s a, (m.map space va pa writable).2.mapping? s a = m.mapping? s a) ∨
      (m.map space va pa writable).1 = .ok () ∧ m.mapping? space va = none ∧
        ∀ s a, (m.map space va pa writable).2.mapping? s a =
          if s = space ∧ a = va then some ⟨pa, writable, false, false⟩ else m.mapping? s a := by
  unfold map
  dsimp only
  split
  · rename_i hampered
    exact .inl ⟨_, rfl, .inl ⟨hampered, rfl⟩, fun _ _ => rfl⟩
  · have same : mapping? { m with calls := { m.calls with map := m.calls.map + 1 } } space va =
        m.mapping? space va := rfl
    rw [same]
    cases h : m.mapping? space va with
    | some e => exact .inl ⟨_, rfl, .inr ⟨by rw [h, Option.isSome_some], rfl⟩, fun _ _ => rfl⟩
    | none => exact .inr ⟨rfl, rfl, fun s a => mapping?_setEntry⟩

end Mmu

end KernelCore
