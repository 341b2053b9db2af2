import KernelCore.Memory.Pool

/-!
# Pages of the pool

A page of the pool is taken from the time it is handed out until it is released. Handing one out
and taking one back change the contents of that page only.
-/
namespace KernelCore.PagePool

variable {p p' : PagePool} {pa q : PhysAddr} {bytes : PageBytes}

/-- The pages lie one after the other, and the released ones are listed once each. -/
structure Regular (p : PagePool) : Prop where
  known : ∀ pa : PhysAddr,
    p.pages.contains pa = true ↔ ∃ i, i < p.pages.size ∧ pa = ⟨base + i * pageSize⟩
  free_known : ∀ pa ∈ p.free, p.pages.contains pa = true
  free_nodup : p.free.Nodup

/-- A page is taken if it was handed out and not released since. -/
def Taken (p : PagePool) (pa : PhysAddr) : Prop := p.pages.contains pa = true ∧ pa ∉ p.free

theorem regular_new (capacity : Nat) : (new capacity).Regular where
  known pa := by simp [new, Table.contains, Table.size, Table.empty, Table.find?]
  free_known pa h := nomatch h
  free_nodup := .nil

theorem not_taken_new (capacity : Nat) : ¬(new capacity).Taken pa := by
  simp [Taken, new, Table.contains]

theorem contains_setPage : (p.setPage pa bytes).pages.contains q = p.pages.contains q := by
  unfold setPage Table.contains
  rw [Table.find?_modify]
  by_cases h : q = pa
  · subst h
    simp
  · simp [h]

@[simp] theorem taken_setPage : (p.setPage pa bytes).Taken q ↔ p.Taken q := by
  unfold Taken
  rw [contains_setPage]
  rfl

theorem Regular.setPage (h : p.Regular) (pa : PhysAddr) (bytes : PageBytes) :
    (p.setPage pa bytes).Regular where
  known q := by
    rw [contains_setPage, h.known q]
    simp [PagePool.setPage]
  free_known q hq := by
    rw [contains_setPage]
    exact h.free_known q hq
  free_nodup := h.free_nodup

theorem page_setPage_of_ne (h : q ≠ pa) : (p.setPage pa bytes).page q = p.page q := by
  simp [page, setPage, Table.find?_modify, h]

/-- A page that is given the bytes it has stays as it is. -/
theorem setPage_page : p.setPage pa (p.page pa) = p := by
  have pages : (p.pages.modify pa fun _ => p.page pa) = p.pages := by
    apply Table.ext_find?
    intro q
    rw [Table.find?_modify]
    split
    · rename_i same
      rw [same, page]
      cases p.pages.find? pa <;> rfl
    · rfl
  rw [setPage, pages]

theorem page_setPage_self (known : p.pages.contains pa = true) :
    (p.setPage pa bytes).page pa = bytes := by
  obtain ⟨old, hold⟩ := Option.isSome_iff_exists.mp known
  simp [page, setPage, Table.find?_modify, hold]

/-- What handing out the page `pa` does. -/
structure HandedOut (p : PagePool) (pa : PhysAddr) (p' : PagePool) : Prop where
  regular : p'.Regular
  was_not_taken : ¬p.Taken pa
  taken : ∀ q, p'.Taken q ↔ q = pa ∨ p.Taken q
  page_self : p'.page pa = .zeros
  page_other : ∀ q, q ≠ pa → p'.page q = p.page q

private theorem handedOut_again (h : p.Regular) {rest : List PhysAddr} (free : p.free = pa :: rest) :
    p.HandedOut pa ({ p with free := rest }.setPage pa .zeros) := by
  have nodup := List.nodup_cons.mp (free ▸ h.free_nodup)
  have known : p.pages.contains pa = true := h.free_known pa (by simp [free])
  have shorter : ({ p with free := rest } : PagePool).Regular :=
    ⟨h.known, fun q hq => h.free_known q (by simp [free, hq]), nodup.2⟩
  refine ⟨shorter.setPage _ _, fun ht => ht.2 (by simp [free]), fun q => ?_,
    page_setPage_self known, fun q hq => page_setPage_of_ne hq⟩
  rw [taken_setPage]
  unfold Taken
  rw [free]
  by_cases hq : q = pa
  · subst hq
    simp [known, nodup.1]
  · simp [hq]

private theorem handedOut_new (h : p.Regular) (free : p.free = []) :
    p.HandedOut ⟨base + p.pages.size * pageSize⟩
      { p with pages := p.pages.insert ⟨base + p.pages.size * pageSize⟩ .zeros } := by
  have unknown : p.pages.find? ⟨base + p.pages.size * pageSize⟩ = none := by
    cases hf : p.pages.find? ⟨base + p.pages.size * pageSize⟩ with
    | none => rfl
    | some x =>
      have known : p.pages.contains ⟨base + p.pages.size * pageSize⟩ = true := by
        simp [Table.contains, hf]
      obtain ⟨i, hi, heq⟩ := (h.known _).mp known
      have := PhysAddr.mk.inj heq
      simp only [pageSize] at this
      omega
  have contains : ∀ q, ({ p with
      pages := p.pages.insert ⟨base + p.pages.size * pageSize⟩ .zeros } : PagePool).pages.contains q
      = true ↔ q = ⟨base + p.pages.size * pageSize⟩ ∨ p.pages.contains q = true := by
    intro q
    simp only [Table.contains, Table.find?_insert]
    by_cases hq : q = ⟨base + p.pages.size * pageSize⟩ <;> simp [hq]
  refine ⟨⟨fun q => ?_, fun q hq => by simp [free] at hq, h.free_nodup⟩, ?_, fun q => ?_, ?_,
    fun q hq => ?_⟩
  · rw [contains q, h.known q, Table.size_insert_of_absent unknown]
    constructor
    · rintro (rfl | ⟨i, hi, rfl⟩)
      · exact ⟨p.pages.size, by omega, rfl⟩
      · exact ⟨i, by omega, rfl⟩
    · rintro ⟨i, hi, rfl⟩
      by_cases hlast : i = p.pages.size
      · exact .inl (by rw [hlast])
      · exact .inr ⟨i, by omega, rfl⟩
  · rintro ⟨hc, -⟩
    simp [Table.contains, unknown] at hc
  · unfold Taken
    rw [contains q]
    simp [free]
  · simp [page, Table.find?_insert]
  · simp [page, Table.find?_insert, hq]

/-- A page that is handed out was not taken before, and is full of zeros. -/
theorem acquire_cases (h : p.Regular) :
    (∃ pa, p.acquire.1 = some pa ∧ p.HandedOut pa p.acquire.2) ∨
      p.acquire.1 = none ∧ p.acquire.2 = p := by
  unfold acquire
  cases hf : p.free with
  | cons pa rest => exact .inl ⟨pa, rfl, handedOut_again h hf⟩
  | nil =>
    have fields : p = { p with free := [] } := by
      rw [← hf]
    dsimp only
    split
    · refine .inl ⟨_, rfl, ?_⟩
      have := handedOut_new h hf
      rwa [hf] at this
    · exact .inr ⟨rfl, rfl⟩

/-- What taking the page `pa` back does. -/
structure TakenBack (p : PagePool) (pa : PhysAddr) (p' : PagePool) : Prop where
  regular : p'.Regular
  taken : ∀ q, p'.Taken q ↔ q ≠ pa ∧ p.Taken q
  page_other : ∀ q, q ≠ pa → p'.page q = p.page q

/-- A taken page can be released. -/
theorem release_of_taken (h : p.Regular) (taken : p.Taken pa) :
    ∃ p', p.release pa = .ok p' ∧ p.TakenBack pa p' := by
  refine ⟨_, if_neg taken.2, ⟨⟨fun q => ?_, fun q hq => ?_, ?_⟩, fun q => ?_, fun q hq => ?_⟩⟩
  · have := (h.setPage pa (.filled 0xcc)).known q
    exact this
  · change (p.setPage pa (.filled 0xcc)).pages.contains q = true
    rw [contains_setPage]
    rcases List.mem_cons.mp hq with rfl | hq
    · exact taken.1
    · exact h.free_known q hq
  · exact List.nodup_cons.mpr ⟨taken.2, h.free_nodup⟩
  · change (p.setPage pa (.filled 0xcc)).pages.contains q = true ∧ q ∉ pa :: p.free ↔ _
    rw [contains_setPage, List.mem_cons]
    unfold Taken
    by_cases hq : q = pa <;> simp [hq]
  · exact page_setPage_of_ne hq

end KernelCore.PagePool
