import KernelCore.Proofs.Scheduler.Switching

/-!
# Donating

Refreshing a priority makes it exact, and passing it on along a wait chain makes all priorities
exact as long as the chain has not more links than are followed.
-/
namespace KernelCore.Scheduler

open Transition

variable {R : Prop} {P : Set Tid} {s : Scheduler} {t u : Tid} {th : Thread} {p : Place}
  {F : Violation → Prop}

/-! ## The donated priority -/

private theorem foldl_max (f : Tid → Int) (xs : List Tid) (b : Int) :
    b ≤ xs.foldl (fun p w => max p (f w)) b ∧ (∀ w ∈ xs, f w ≤ xs.foldl (fun p w => max p (f w)) b) ∧
      (xs.foldl (fun p w => max p (f w)) b = b ∨
        ∃ w ∈ xs, xs.foldl (fun p w => max p (f w)) b = f w) := by
  induction xs generalizing b with
  | nil => simp
  | cons x rest ih =>
    obtain ⟨base_le, mem_le, attained⟩ := ih (max b (f x))
    simp only [List.foldl_cons, List.mem_cons, forall_eq_or_imp, exists_eq_or_imp]
    refine ⟨by omega, ⟨by omega, mem_le⟩, ?_⟩
    rcases attained with own | donated
    · omega
    · exact .inr (.inr donated)

/-- The donors of a thread are those that wait for it. -/
theorem mem_donors (h : Arranged R P s.layout) (known : s.thread? t = some th) :
    u ∈ s.donors th ↔ s.layout.WaitsFor u t := by
  have place := place_of_thread known
  unfold donors
  rw [List.mem_flatMap]
  constructor
  · rintro ⟨l, held, waits⟩
    obtain ⟨p, knownu, there⟩ := h.exists_of_mem_queue (m := .lock l) (by simp) waits
    refine ⟨l, ?_, (h.holder_iff place).mpr held⟩
    rw [Layout.waitingFor_of_place knownu, (h.proper u p knownu).waiting, there]
  · rintro ⟨l, waits, holds⟩
    refine ⟨l, (h.holder_iff place).mp holds, ?_⟩
    obtain ⟨p, knownu, waits⟩ := Option.bind_eq_some_iff.mp waits
    exact (h.waitingLock_iff knownu).mp waits

theorem priorityOf_of_rank {r : Rank} (known : s.layout.rank t = some r) :
    s.priorityOf t = r.effective := by
  obtain ⟨x, found, rfl⟩ := Option.map_eq_some_iff.mp known
  simp [priorityOf, found, Thread.rank]

theorem isDonated_donatedPriority (h : Arranged R P s.layout) (known : s.thread? t = some th) :
    s.layout.IsDonated t ⟨th.basePriority, s.donatedPriority th⟩ := by
  obtain ⟨base_le, donor_le, attained⟩ := foldl_max s.priorityOf (s.donors th) th.basePriority
  refine ⟨base_le, ?_, ?_⟩
  · intro u r waits knownu
    rw [← priorityOf_of_rank knownu]
    exact donor_le u ((mem_donors h known).mpr waits)
  · refine attained.imp_right ?_
    rintro ⟨u, mem, eq⟩
    have waits := (mem_donors h known).mp mem
    obtain ⟨l, waitsu, -⟩ := id waits
    obtain ⟨p, knownu, -⟩ := Option.bind_eq_some_iff.mp waitsu
    obtain ⟨x, found, -⟩ := exists_thread knownu
    have rank := rank_of_thread found
    exact ⟨u, x.rank, waits, rank, eq.trans (priorityOf_of_rank rank)⟩

/-- A refreshed priority is exact; under feedback scheduling nothing is refreshed. -/
theorem ends_refreshPriority {Q : Int → Scheduler → Prop} (h : Arranged R P s.layout)
    (known : s.layout.place t = some p)
    (plain : s.layout.feedback = true → Q (s.priorityOf t) s)
    (next : s.layout.feedback = false → ∀ r r' s', s.layout.rank t = some r → r'.base = r.base →
      s.layout.IsDonated t r' → s'.layout = s.layout.setRank t (some r') → Q r'.effective s') :
    (refreshPriority t).Ends s Q fun v _ => F v := by
  unfold refreshPriority
  rw [ends_bind, ends_get, ends_ite]
  refine ⟨plain, fun priorities => ?_⟩
  have priorities : s.feedback = false := by simpa using priorities
  obtain ⟨th, found, rfl⟩ := exists_thread known
  rw [ends_bind, ends_thread found, ends_bind]
  apply ends_updateThread_rank found rfl
  intro s' h'
  exact next priorities th.rank ⟨th.basePriority, s.donatedPriority th⟩ s' (rank_of_thread found)
    rfl (isDonated_donatedPriority h found) h'

/-! ## Passing a priority on -/

/-- Priorities have changed and nothing else. -/
def Reranked (L L' : Layout) : Prop := ∃ rank, L' = { L with rank }

theorem Reranked.refl (L : Layout) : Reranked L L := ⟨L.rank, rfl⟩

theorem Reranked.setRank (L : Layout) (t : Tid) (r : Option Rank) : Reranked L (L.setRank t r) :=
  ⟨_, rfl⟩

section

variable {L L₁ L₂ : Layout}

theorem Reranked.trans (h : Reranked L L₁) (h' : Reranked L₁ L₂) : Reranked L L₂ := by
  obtain ⟨rank, rfl⟩ := h
  obtain ⟨rank', rfl⟩ := h'
  exact ⟨rank', rfl⟩

theorem Reranked.arranged (h : Reranked L L₁) (arranged : Arranged R P L) : Arranged R P L₁ := by
  obtain ⟨rank, rfl⟩ := h
  exact { arranged with }

theorem Reranked.orderly (h : Reranked L L₁) (orderly : Orderly R P L) : Orderly R P L₁ := by
  obtain ⟨rank, rfl⟩ := h
  exact { orderly with }

theorem Reranked.waits (h : Reranked L L₁) : L₁.WaitsFor u t ↔ L.WaitsFor u t := by
  obtain ⟨rank, rfl⟩ := h
  rfl

end

/-- The priorities are as donation leaves them that follows a number of links. -/
structure Propagated (depth : Nat) (waiter : Tid) (L L' : Layout) : Prop where
  reranked : Reranked L L'
  others : ∀ x, ¬Relation.TransGen L.WaitsFor waiter x → L'.rank x = L.rank x
  rises : L.Backed → ∀ x, L.priority x ≤ L'.priority x
  backed : L.Backed → L'.Backed
  exact : L.ExactBut {x | L.WaitsFor waiter x} → (∀ n x, L.Chain n waiter x → n ≤ depth) → L'.Exact

/-- A thread that waits for nobody passes nothing on. -/
private theorem propagated_of_unlinked {depth : Nat} {L : Layout} (unlinked : ∀ x, ¬L.WaitsFor t x) :
    Propagated depth t L L where
  reranked := .refl L
  others _ _ := rfl
  rises _ _ := Int.le_refl _
  backed := id
  exact exact _ x := exact x (unlinked x)

/-- Where the holder's priority does not change, nobody's does. -/
private theorem propagated_of_unchanged {depth : Nat} {L : Layout} {r : Rank} (link : L.WaitsFor t u)
    (rank : L.rank u = some r) (donated : L.IsDonated u r) : Propagated depth t L L where
  reranked := .refl L
  others _ _ := rfl
  rises _ _ := Int.le_refl _
  backed := id
  exact exact _ x := by
    by_cases same : x = u
    · subst same
      intro r' rank'
      cases rank.symm.trans rank'
      exact donated
    · exact exact x fun link' => same (link'.unique link)

/-- The holder's priority is set first, and then passed on from the holder. -/
private theorem Propagated.link {depth : Nat} {L L' : Layout} {r r' : Rank} (link : L.WaitsFor t u)
    (rank : L.rank u = some r) (base : r'.base = r.base) (donated : L.IsDonated u r')
    (onward : Propagated depth u (L.setRank u (some r')) L') : Propagated (depth + 1) t L L' := by
  have refreshed : L.Backed → (L.setRank u (some r')).Backed := by
    intro backed x
    have all : L.BackedBut ∅ := fun x _ => backed x
    exact all.refresh donated rank base (by simp) (by simp) x (by simp)
  refine ⟨(Reranked.setRank _ _ _).trans onward.reranked, fun x unreached => ?_,
    fun backed x => ?_, fun backed => onward.backed (refreshed backed), fun exact short => ?_⟩
  · have other : x ≠ u := by
      rintro rfl
      exact unreached (.single link)
    rw [onward.others x fun chain => unreached (.head link chain)]
    simp [other]
  · refine Int.le_trans ?_ (onward.rises (refreshed backed) x)
    by_cases same : x = u
    · subst same
      simpa [Layout.priority, rank] using donated.le_of_backed (backed x r rank) base
    · simp [Layout.priority, same]
  · apply onward.exact
    · intro x unlinked
      apply exact.refresh donated x
      rintro (⟨link', other⟩ | link')
      · exact other (link'.unique link)
      · exact unlinked link'
    · intro n x chain
      have := short (n + 1) x (.cons link (chain.mono fun _ _ waits => waits))
      omega

theorem propagateFrom_ends (depth : Nat) (h : Arranged R P s.layout)
    (priorities : s.layout.feedback = false) (known : s.layout.place t = some p) :
    (propagateFrom depth t).Ends s (fun _ s' => Propagated depth t s.layout s'.layout)
      fun v _ => F v := by
  induction depth generalizing s t p with
  | zero =>
    refine ⟨.refl _, fun _ _ => rfl, fun _ _ => Int.le_refl _, id,
      fun exact short x => exact x fun waits => ?_⟩
    have := short 1 x (.cons waits (.nil x))
    omega
  | succ depth ih =>
    obtain ⟨th, found, rfl⟩ := exists_thread known
    have waiting : s.layout.waitingFor t = th.waitingLock := Layout.waitingFor_of_place known
    unfold propagateFrom
    rw [ends_bind, ends_thread found, ends_bind, ends_get]
    cases waits : th.waitingLock with
    | none =>
      apply propagated_of_unlinked
      rintro x ⟨l, waits', -⟩
      simp [waiting, waits] at waits'
    | some l =>
      dsimp only
      cases holds : (s.lockState l).holder with
      | none =>
        apply propagated_of_unlinked
        rintro x ⟨l', waits', holds'⟩
        obtain rfl : l = l' := by simpa [waiting, waits] using waits'
        exact absurd (holds.symm.trans holds') (by simp)
      | some holder =>
        have holds : s.layout.holder l = some holder := holds
        have link : s.layout.WaitsFor t holder := ⟨l, waiting.trans waits, holds⟩
        obtain ⟨q, knownh, -⟩ := (h.holds l holder).mp holds
        simp only [ends_bind]
        apply ends_refreshPriority h knownh
        · intro feedback
          simp [priorities] at feedback
        · intro _ r r' s' rank base donated h'
          rw [ends_ite]
          constructor
          · intro unchanged
            rw [priorityOf_of_rank rank] at unchanged
            obtain rfl : r' = r := by
              cases r
              cases r'
              simp_all
            have same : s'.layout = s.layout := by rw [h', ← rank, Layout.setRank_self]
            rw [ends_pure, same]
            exact propagated_of_unchanged link rank donated
          · intro _
            have known' : s'.layout.place holder = some q := h' ▸ knownh
            refine (ih (h' ▸ h.setRank holder (some r')) (h' ▸ priorities) known').imp ?_
            intro _ s'' onward
            rw [h'] at onward
            exact onward.link link rank base donated

theorem propagatePriority_ends (h : Arranged R P s.layout) (known : s.layout.place t = some p) :
    (propagatePriority t).Ends s (fun _ s' => Reranked s.layout s'.layout ∧
      (s.layout.feedback = true → s'.layout = s.layout) ∧
      (s.layout.feedback = false → Propagated donationDepth t s.layout s'.layout))
      fun v _ => F v := by
  unfold propagatePriority
  rw [ends_bind, ends_get, ends_ite]
  constructor
  · intro feedback
    have feedback : s.layout.feedback = true := feedback
    exact ⟨.refl _, fun _ => rfl, by simp [feedback]⟩
  · intro priorities
    have priorities : s.feedback = false := by simpa using priorities
    refine (propagateFrom_ends donationDepth h priorities known).imp ?_
    refine fun _ s' propagated => ⟨propagated.reranked, fun feedback => ?_, fun _ => propagated⟩
    simp [show s.layout.feedback = false from priorities] at feedback

/-- The priority of a thread is up to date, unless feedback scheduling sets priorities. -/
def Refreshed (t : Tid) (L L' : Layout) : Prop :=
  (L.feedback = true ∧ L' = L) ∨ (L.feedback = false ∧ ∃ r r', L.rank t = some r ∧
    r'.base = r.base ∧ L.IsDonated t r' ∧ L' = L.setRank t (some r'))

theorem refreshPriority_ends (h : Arranged R P s.layout) (known : s.layout.place t = some p) :
    (refreshPriority t).Ends s (fun _ s' => Refreshed t s.layout s'.layout) fun v _ => F v := by
  apply ends_refreshPriority h known
  · exact fun feedback => .inl ⟨feedback, rfl⟩
  · exact fun priorities r r' s' rank base donated h' =>
      .inr ⟨priorities, r, r', rank, base, donated, h'⟩

section

variable {L L' : Layout} {A : Set Tid}

theorem Refreshed.reranked (h : Refreshed t L L') : Reranked L L' := by
  rcases h with ⟨-, rfl⟩ | ⟨-, r, r', -, -, -, rfl⟩
  · exact .refl _
  · exact .setRank _ _ _

theorem Refreshed.priority (h : Refreshed t L L') (other : u ≠ t) :
    L'.priority u = L.priority u := by
  rcases h with ⟨-, rfl⟩ | ⟨-, r, r', -, -, -, rfl⟩
  · rfl
  · simp [Layout.priority, other]

theorem Refreshed.backedBut (h : Refreshed t L L') (priorities : L.feedback = false)
    (but : L.BackedBut A) (donors : ∀ u, L.WaitsFor u t → u ∉ A)
    (unlinked : t ∈ A → ∀ x, ¬L.WaitsFor t x) : L'.BackedBut (A \ {t}) := by
  rcases h with ⟨feedback, -⟩ | ⟨-, r, r', rank, base, donated, rfl⟩
  · simp [priorities] at feedback
  · exact but.refresh donated rank base donors unlinked

theorem Refreshed.exactBut (h : Refreshed t L L') (priorities : L.feedback = false)
    (but : L.ExactBut A) : L'.ExactBut ((A \ {t}) ∪ {x | L.WaitsFor t x}) := by
  rcases h with ⟨feedback, -⟩ | ⟨-, r, r', rank, base, donated, rfl⟩
  · simp [priorities] at feedback
  · exact but.refresh donated

end

/-! ## The base priority -/

variable (awake : ¬R → F .idleReady)

include awake in
theorem setPriority_ends (h : Orderly R P s.layout) (priority : Int) :
    (setPriority priority).Ends s (fun _ s' => Carried R P s.layout s') fun v _ => F v := by
  unfold setPriority
  rw [ends_bind, ends_get, ends_ite]
  refine ⟨fun _ => .refl h, fun priorities => ?_⟩
  have priorities : s.feedback = false := by simpa using priorities
  rw [ends_bind]
  apply ends_disableInterrupts
  intro s₁ h₁
  have orderly₁ : Orderly R P s₁.layout := h₁ ▸ h.setInterrupts (by simp)
  obtain ⟨p, known, -⟩ := h.current
  have known₁ : s₁.layout.place s.layout.current = some p := by simpa [h₁] using known
  obtain ⟨th, found, rfl⟩ := exists_thread known₁
  rw [ends_bind]
  apply ends_updateThread_rank (t := s.layout.current) found rfl
  intro s₂ h₂
  have orderly₂ : Orderly R P s₂.layout := h₂ ▸ orderly₁.setRank _ _
  have known₂ : s₂.layout.place s.layout.current = some th.place := by simpa [h₂] using known₁
  rw [ends_bind]
  apply ends_refreshPriority (t := s.layout.current) orderly₂.toArranged known₂
  · intro feedback
    simp [h₂, h₁, show s.layout.feedback = false from priorities] at feedback
  intro _ r r' s₃ rank base donated h₃
  have orderly₃ : Orderly R P s₃.layout := h₃ ▸ orderly₂.setRank _ _
  have runs₁ : ∀ x, ¬s₁.layout.WaitsFor s.layout.current x := by
    rw [h₁]
    exact h.runs
  have runs₂ : ∀ x, ¬s₂.layout.WaitsFor s.layout.current x := by
    rw [h₂]
    exact runs₁
  have keeps₁ : s.layout.Keeps s₁.layout := h₁ ▸ (Layout.Calm.setInterrupts _ _).keeps
  have keeps₃ : s₁.layout.Keeps s₃.layout := by
    refine ⟨by simp [h₃, h₂], by simp [h₃, h₂], fun _ backed => ?_, fun _ exact => ?_⟩
    · have but : s₂.layout.BackedBut {s.layout.current} := h₂ ▸ backed.setRank runs₁ _
      exact h₃ ▸ Layout.Backed.of_refresh runs₂ but donated rank base
    · have but : s₂.layout.ExactBut {s.layout.current} := h₂ ▸ exact.setRank runs₁ _
      exact h₃ ▸ Layout.Exact.of_refresh runs₂ but donated
  have kept : Kept R P s.layout s₃ := ⟨orderly₃, keeps₁.trans keeps₃⟩
  exact (kept.restore_preempt awake s.layout.interrupts).imp fun _ _ attended => attended.carried

end KernelCore.Scheduler
