import KernelCore.Memory.FrameTable
import KernelCore.Proofs.Memory.Mmu

/-!
# The frames of the table

What every operation on the frame table does to every frame, and what the clock hand may pick.
-/
namespace KernelCore.FrameTable

variable {t : FrameTable} {f g : FrameId} {x : Frame}

/-- The table with something else in a place. -/
def put (t : FrameTable) (f : FrameId) (x : Option Frame) : FrameTable :=
  { t with frames := t.frames.set f.index x }

theorem frameId_eq_iff {f g : FrameId} : f = g ↔ f.index = g.index := by
  cases f
  cases g
  simp

theorem index_lt_length (h : t.frame? f = some x) : f.index < t.frames.length := by
  unfold frame? at h
  rcases Nat.lt_or_ge f.index t.frames.length with hlt | hge
  · exact hlt
  · simp [List.getElem?_eq_none hge] at h

theorem frame?_put (h : t.frame? f = some x) (y : Option Frame) :
    (t.put f y).frame? g = if g = f then y else t.frame? g := by
  have hlt := index_lt_length h
  unfold frame? put
  rw [List.getElem?_set]
  by_cases hg : g = f
  · subst hg
    simp [hlt]
  · have : f.index ≠ g.index := fun he => hg (frameId_eq_iff.mpr he.symm)
    simp [hg, this]

theorem put_put (y z : Option Frame) : (t.put f y).put f z = t.put f z := by
  simp [put]

/-- Writing back what is there changes nothing. -/
theorem put_self (h : t.frame? f = some x) : t.put f (some x) = t := by
  have hlt := index_lt_length h
  unfold frame? at h
  rw [List.getElem?_eq_getElem hlt, Option.join_some] at h
  unfold put
  rw [← h, List.set_getElem_self]

@[simp] theorem frame?_empty : FrameTable.empty.frame? f = none := rfl

@[simp] theorem frame?_length (t : FrameTable) : t.frame? ⟨t.frames.length⟩ = none := by
  simp [frame?]

theorem get_of_frame (h : t.frame? f = some x) : t.get f = .ok x := by
  simp [get, h]

theorem update_of_frame (h : t.frame? f = some x) (change : Frame → Frame) :
    t.update f change = .ok (t.put f (some (change x))) := by
  simp [update, h, put]

theorem remove_of_frame (h : t.frame? f = some x) : t.remove f = .ok (x.page, t.put f none) := by
  simp [remove, h, put]

/-- A new frame takes a place that was not in use, and is pinned and owned by nobody. -/
theorem frame?_insert (t : FrameTable) (pa : PhysAddr) :
    t.frame? (t.insert pa).1 = none ∧
      ∀ g, (t.insert pa).2.frame? g =
        if g = (t.insert pa).1 then some ⟨pa, none, false⟩ else t.frame? g := by
  unfold insert
  dsimp only
  cases hfind : t.frames.findIdx? Option.isNone with
  | some i =>
    rw [List.findIdx?_eq_some_iff_getElem] at hfind
    obtain ⟨hlt, hnone, -⟩ := hfind
    refine ⟨by simpa [frame?, List.getElem?_eq_getElem hlt] using hnone, fun g => ?_⟩
    unfold frame?
    simp only [List.getElem?_set]
    by_cases hg : g = ⟨i⟩
    · subst hg
      simp [hlt]
    · have : i ≠ g.index := fun he => hg (frameId_eq_iff.mpr he.symm)
      simp [hg, this]
  | none =>
    refine ⟨by simp [frame?], fun g => ?_⟩
    unfold frame?
    simp only [List.getElem?_append]
    by_cases hg : g = ⟨t.frames.length⟩
    · subst hg
      simp
    · have : g.index ≠ t.frames.length := fun he => hg (frameId_eq_iff.mpr he)
      rw [if_neg hg]
      split
      · rfl
      · rw [List.getElem?_eq_none (by simp; omega), List.getElem?_eq_none (by omega)]

theorem candidate_eq_some {i : Nat} {o : PageRef} :
    t.candidate i = some o ↔ ∃ x, t.frame? ⟨i⟩ = some x ∧ x.pinned = false ∧ x.owner = some o := by
  unfold candidate
  cases t.frame? ⟨i⟩ with
  | none => simp
  | some x => cases hp : x.pinned <;> simp [hp]

/-- The clock hand changes no frame, no translation and no record of a write, and stops only at a
candidate. -/
theorem sweep_keeps (n : Nat) (t : FrameTable) (m : Mmu) :
    (sweep n t m).2.1.frames = t.frames ∧ m.SameTargets (sweep n t m).2.2 ∧
      m.SameDirty (sweep n t m).2.2 ∧ ∀ f, (sweep n t m).1 = some f → ∃ o, t.candidate f.index = some o := by
  induction n generalizing t m with
  | zero => exact ⟨rfl, .refl m, .refl m, fun f h => nomatch h⟩
  | succ n ih =>
    unfold sweep
    dsimp only
    have moved : ∀ i, ({ t with hand := (t.hand + 1) % t.frames.length } : FrameTable).candidate i =
        t.candidate i := fun _ => rfl
    rw [moved]
    cases hc : t.candidate t.hand with
    | none => exact ih _ m
    | some o =>
      dsimp only
      split
      · obtain ⟨frames, targets, written, found⟩ :=
          ih { t with hand := (t.hand + 1) % t.frames.length } (m.clearAccessed o.space o.va)
        exact ⟨frames, Mmu.sameTargets_clearAccessed.trans targets,
          Mmu.sameDirty_clearAccessed.trans written, found⟩
      · refine ⟨rfl, .refl m, .refl m, fun f h => ?_⟩
        cases h
        exact ⟨o, hc⟩

/-- The clock hand lets as many mappings fail as before. -/
theorem failures_sweep (n : Nat) (t : FrameTable) (m : Mmu) :
    (sweep n t m).2.2.failures = m.failures := by
  induction n generalizing t m with
  | zero => rfl
  | succ n ih =>
    unfold sweep
    dsimp only
    split
    · exact ih _ m
    · split
      · exact ih _ _
      · rfl

theorem frame?_selectVictim (t : FrameTable) (m : Mmu) :
    (t.selectVictim m).2.1.frame? g = t.frame? g := by
  unfold selectVictim frame?
  rw [(sweep_keeps _ t m).1]

theorem selectVictim_sameTargets (t : FrameTable) (m : Mmu) :
    m.SameTargets (t.selectVictim m).2.2 := (sweep_keeps _ t m).2.1

theorem selectVictim_sameDirty (t : FrameTable) (m : Mmu) :
    m.SameDirty (t.selectVictim m).2.2 := (sweep_keeps _ t m).2.2.1

/-- A victim holds a page and is not pinned. -/
theorem victim_isCandidate {m : Mmu} (h : (t.selectVictim m).1 = some f) :
    ∃ x o, t.frame? f = some x ∧ x.pinned = false ∧ x.owner = some o := by
  obtain ⟨o, hc⟩ := (sweep_keeps _ t m).2.2.2 f h
  obtain ⟨x, hx, unpinned, owner⟩ := candidate_eq_some.mp hc
  exact ⟨x, o, hx, unpinned, owner⟩

end KernelCore.FrameTable
