import Mathlib.Tactic.Common
import KernelCore.Memory.Stop

/-!
# How transitions end

A transition is described by two predicates: one for the value it yields and the state it leaves
then, one for the reason it stops for and the state it leaves in that case. The description of a
composite transition follows from those of its parts, and a loop needs only an invariant.
-/
namespace KernelCore.Transition

variable {ε σ τ α β : Type}

/-- Begun in `s`, the transition yields a value and a state with `Q`, or stops with `E`. -/
def Ends (t : Transition ε σ α) (s : σ) (Q : α → σ → Prop) (E : ε → σ → Prop) : Prop :=
  match (t s).result with
  | .ok a => Q a (t s).state
  | .error e => E e (t s).state

section

variable {t : Transition ε σ α} {s : σ} {Q Q' : α → σ → Prop} {E E' : ε → σ → Prop}

theorem Ends.of_ok {a : α} (h : t.Ends s Q E) (ok : (t s).result = .ok a) : Q a (t s).state := by
  unfold Ends at h
  rwa [ok] at h

theorem Ends.of_error {e : ε} (h : t.Ends s Q E) (error : (t s).result = .error e) :
    E e (t s).state := by
  unfold Ends at h
  rwa [error] at h

/-- What cannot stop yields a value. -/
theorem Ends.exists_ok (h : t.Ends s Q fun _ _ => False) :
    ∃ a, (t s).result = .ok a ∧ Q a (t s).state := by
  unfold Ends at h
  cases result : (t s).result with
  | ok a =>
    rw [result] at h
    exact ⟨a, rfl, h⟩
  | error e =>
    rw [result] at h
    exact h.elim

theorem ends_iff : t.Ends s Q E ↔
    (∀ a, (t s).result = .ok a → Q a (t s).state) ∧
      (∀ e, (t s).result = .error e → E e (t s).state) := by
  unfold Ends
  cases (t s).result <;> simp

/-- What holds however the transition ends holds of the state it leaves. -/
theorem Ends.state {P : σ → Prop} (h : t.Ends s (fun _ s' => P s') fun _ s' => P s') :
    P (t s).state := by
  rw [ends_iff] at h
  cases result : (t s).result with
  | ok a => exact h.1 a result
  | error e => exact h.2 e result

/-- What is true of the exact outcome is true of how the transition ends. -/
theorem Ends.self :
    t.Ends s (fun a s' => (t s).result = .ok a ∧ s' = (t s).state)
      (fun e s' => (t s).result = .error e ∧ s' = (t s).state) := by
  rw [ends_iff]
  exact ⟨fun a h => ⟨h, rfl⟩, fun e h => ⟨h, rfl⟩⟩

theorem Ends.mono (h : t.Ends s Q E) (value : ∀ a s', Q a s' → Q' a s')
    (stop : ∀ e s', E e s' → E' e s') : t.Ends s Q' E' := by
  rw [ends_iff] at h ⊢
  exact ⟨fun a ok => value _ _ (h.1 a ok), fun e error => stop _ _ (h.2 e error)⟩

theorem Ends.imp (h : t.Ends s Q E) (value : ∀ a s', Q a s' → Q' a s') : t.Ends s Q' E :=
  h.mono value fun _ _ h' => h'

theorem Ends.and (h : t.Ends s Q E) (h' : t.Ends s Q' E') :
    t.Ends s (fun a s' => Q a s' ∧ Q' a s') (fun e s' => E e s' ∧ E' e s') := by
  rw [ends_iff] at h h' ⊢
  exact ⟨fun a ok => ⟨h.1 a ok, h'.1 a ok⟩, fun e error => ⟨h.2 e error, h'.2 e error⟩⟩

end

section

variable {s : σ} {Q : α → σ → Prop} {E : ε → σ → Prop}

@[simp] theorem ends_pure (a : α) : (pure a : Transition ε σ α).Ends s Q E ↔ Q a s := Iff.rfl

@[simp] theorem ends_transition_pure (a : α) :
    (Transition.pure a : Transition ε σ α).Ends s Q E ↔ Q a s := Iff.rfl

@[simp] theorem ends_stop (e : ε) : (stop e : Transition ε σ α).Ends s Q E ↔ E e s := Iff.rfl

@[simp] theorem ends_gets (f : σ → α) : (gets f : Transition ε σ α).Ends s Q E ↔ Q (f s) s :=
  Iff.rfl

@[simp] theorem ends_modifyGet (f : σ → α × σ) :
    (modifyGet f : Transition ε σ α).Ends s Q E ↔ Q (f s).1 (f s).2 := Iff.rfl

@[simp] theorem ends_bind {t : Transition ε σ β} {next : β → Transition ε σ α} :
    (t >>= next).Ends s Q E ↔ t.Ends s (fun b s' => (next b).Ends s' Q E) E := by
  unfold Ends
  rw [bind_apply]
  cases h : (t s).result <;> rfl

theorem get_bind_apply (next : σ → Transition ε σ α) (s : σ) : (get >>= next) s = next s s := rfl

/-- What follows a transition matters only in the states it leads to. -/
theorem bind_congr_of_ends {t : Transition ε σ β} {f g : β → Transition ε σ α}
    (same : t.Ends s (fun b s' => f b s' = g b s') fun _ _ => True) :
    (t >>= f) s = (t >>= g) s := by
  unfold Ends at same
  rw [bind_apply, bind_apply]
  cases h : (t s).result with
  | ok b =>
    rw [h] at same
    dsimp only at same ⊢
    rw [same]
  | error e => rfl

@[simp] theorem ends_ofExcept_ok (a : α) :
    (ofExcept (.ok a) : Transition ε σ α).Ends s Q E ↔ Q a s := Iff.rfl

@[simp] theorem ends_ofExcept_error (e : ε) :
    (ofExcept (.error e) : Transition ε σ α).Ends s Q E ↔ E e s := Iff.rfl

theorem ends_within {part : σ → τ} {put : τ → σ → σ} {t : Transition ε τ α} :
    (within part put t).Ends s Q E ↔
      t.Ends (part s) (fun a x => Q a (put x s)) (fun e x => E e (put x s)) := Iff.rfl

theorem ends_ite {p : Prop} [Decidable p] {t u : Transition ε σ α} :
    (if p then t else u).Ends s Q E ↔ (p → t.Ends s Q E) ∧ (¬p → u.Ends s Q E) := by
  by_cases h : p <;> simp [h]

end

section

variable {s : σ} {Q : Unit → σ → Prop} {E : ε → σ → Prop}

@[simp] theorem ends_get {Q : σ → σ → Prop} : (get : Transition ε σ σ).Ends s Q E ↔ Q s s := Iff.rfl

@[simp] theorem ends_modify (f : σ → σ) :
    (modify f : Transition ε σ Unit).Ends s Q E ↔ Q () (f s) := Iff.rfl

@[simp] theorem ends_emit (severity : Severity) (message : String) :
    (emit severity message : Transition ε σ Unit).Ends s Q E ↔ Q () s := Iff.rfl

@[simp] theorem ends_ensure (p : Prop) [Decidable p] (e : ε) :
    (ensure p e : Transition ε σ Unit).Ends s Q E ↔ (p → Q () s) ∧ (¬p → E e s) := by
  unfold ensure
  rw [ends_ite]
  rfl

theorem ends_update_of_ok {f : σ → Except ε σ} {s' : σ} (h : f s = .ok s') :
    (update f).Ends s Q E ↔ Q () s' := by
  unfold Ends
  rw [update_of_ok h]

theorem ends_update_of_error {f : σ → Except ε σ} {e : ε} (h : f s = .error e) :
    (update f).Ends s Q E ↔ E e s := by
  unfold Ends
  rw [update_of_error h]

end

/-! ## Loops -/

section

variable {E : ε → σ → Prop}

/-- An invariant of a loop over a list may speak of the elements that are still to come. -/
theorem ends_forAll {act : α → Transition ε σ Unit} {I : List α → σ → Prop}
    (step : ∀ a rest s, I (a :: rest) s → (act a).Ends s (fun _ s' => I rest s') E) :
    ∀ {xs : List α} {s : σ}, I xs s → (forAll act xs).Ends s (fun _ s' => I [] s') E
  | [], _, h => h
  | a :: rest, s, h => by
    rw [forAll_cons, ends_bind]
    exact (step a rest s h).mono (fun _ _ h' => ends_forAll step h') fun _ _ h' => h'

/-- An invariant of a loop over a range may speak of the numbers that are still to come. -/
theorem ends_forRange {act : Nat → Transition ε σ Unit} {I : Nat → Nat → σ → Prop}
    (step : ∀ i count s, I i (count + 1) s →
      (act i).Ends s (fun _ s' => I (i + 1) count s') E) :
    ∀ {first count : Nat} {s : σ}, I first count s →
      (forRange act first count).Ends s (fun _ s' => I (first + count) 0 s') E
  | _, 0, _, h => h
  | first, count + 1, s, h => by
    rw [forRange_succ, ends_bind]
    refine (step first count s h).mono (fun _ s' h' => ?_) fun _ _ h' => h'
    have rest := ends_forRange step h'
    rwa [show first + 1 + count = first + (count + 1) by omega] at rest

/-- An invariant of a repetition may speak of the number of rounds that are still to come. -/
theorem ends_times {act : Transition ε σ Unit} {I : Nat → σ → Prop}
    (step : ∀ n s, I (n + 1) s → act.Ends s (fun _ s' => I n s') E) :
    ∀ {n : Nat} {s : σ}, I n s → (times n act).Ends s (fun _ s' => I 0 s') E
  | 0, _, h => h
  | n + 1, s, h => by
    rw [times_succ, ends_bind]
    exact (step n s h).mono (fun _ _ h' => ends_times step h') fun _ _ h' => h'

end

/-! ## What a transition leaves alone -/

/-- The transition changes nothing that `f` shows, however it ends. -/
def Preserves {γ : Type} (f : σ → γ) (t : Transition ε σ α) : Prop := ∀ s, f (t s).state = f s

namespace Preserves

variable {γ : Type} {f : σ → γ}

theorem ends {t : Transition ε σ α} (h : Preserves f t) (s : σ) :
    t.Ends s (fun _ s' => f s' = f s) fun _ s' => f s' = f s :=
  ends_iff.mpr ⟨fun _ _ => h s, fun _ _ => h s⟩

theorem pure {a : α} : Preserves f (pure a : Transition ε σ α) := fun _ => rfl

theorem get : Preserves f (get : Transition ε σ σ) := fun _ => rfl

theorem gets {g : σ → α} : Preserves f (gets g : Transition ε σ α) := fun _ => rfl

theorem emit {severity : Severity} {message : String} :
    Preserves f (emit severity message : Transition ε σ Unit) := fun _ => rfl

theorem ensure {p : Prop} [Decidable p] {e : ε} :
    Preserves f (ensure p e : Transition ε σ Unit) := by
  unfold Transition.ensure
  split <;> exact fun _ => rfl

theorem ofExcept {x : Except ε α} : Preserves f (ofExcept x : Transition ε σ α) := by
  cases x <;> exact fun _ => rfl

theorem modify {g : σ → σ} (h : ∀ s, f (g s) = f s) :
    Preserves f (modify g : Transition ε σ Unit) := h

theorem modifyGet {g : σ → α × σ} (h : ∀ s, f (g s).2 = f s) :
    Preserves f (modifyGet g : Transition ε σ α) := h

theorem stop {e : ε} : Preserves f (stop e : Transition ε σ α) := fun _ => rfl

theorem update {g : σ → Except ε σ} (h : ∀ s s', g s = .ok s' → f s' = f s) :
    Preserves f (update g) := by
  intro s
  cases value : g s with
  | ok s' =>
    rw [update_of_ok value]
    exact h s s' value
  | error e => rw [update_of_error value]

theorem bind {t : Transition ε σ α} {next : α → Transition ε σ β} (first : Preserves f t)
    (rest : ∀ a, Preserves f (next a)) : Preserves f (t >>= next) := by
  intro s
  rw [bind_apply]
  cases (t s).result with
  | ok a => exact (rest a _).trans (first s)
  | error e => exact first s

theorem ite {p : Prop} [Decidable p] {t u : Transition ε σ α} (yes : Preserves f t)
    (no : Preserves f u) : Preserves f (if p then t else u) := by
  split
  · exact yes
  · exact no

theorem of_ends {t : Transition ε σ α}
    (h : ∀ s, t.Ends s (fun _ s' => f s' = f s) fun _ s' => f s' = f s) : Preserves f t :=
  fun s => (h s).state

/-- What shows less is preserved all the more. -/
theorem of_view {δ : Type} {g : σ → δ} {t : Transition ε σ α} (h : Preserves f t)
    (less : ∀ s s', f s' = f s → g s' = g s) : Preserves g t := fun s => less s _ (h s)

theorem forAll {act : α → Transition ε σ Unit} (h : ∀ a, Preserves f (act a)) :
    ∀ xs : List α, Preserves f (forAll act xs)
  | [] => fun _ => rfl
  | a :: rest => .bind (h a) fun _ => forAll h rest

theorem forRange {act : Nat → Transition ε σ Unit} (h : ∀ i, Preserves f (act i)) :
    ∀ first count : Nat, Preserves f (forRange act first count)
  | _, 0 => fun _ => rfl
  | first, count + 1 => by
    rw [forRange_succ]
    exact .bind (h first) fun _ => forRange h (first + 1) count

theorem times {t : Transition ε σ Unit} (h : Preserves f t) : ∀ n, Preserves f (times n t)
  | 0 => fun _ => rfl
  | n + 1 => by
    rw [times_succ]
    exact .bind h fun _ => times h n

end Preserves

/-! ## Invariants -/

/-- Begun in a state with `I`, the transition leaves such a state whenever it yields a value, and
the value has `P`. -/
def Yields (I : σ → Prop) (t : Transition ε σ α) (P : α → Prop) : Prop :=
  ∀ s, I s → t.Ends s (fun a s' => I s' ∧ P a) fun _ _ => True

/-- An invariant of a transition of whose value nothing is said. -/
abbrev Maintains (I : σ → Prop) (t : Transition ε σ α) : Prop := Yields I t fun _ => True

namespace Yields

variable {I : σ → Prop} {P : α → Prop} {Q : β → Prop}

/-- What is maintained holds of whatever the transition yields its value in. -/
theorem ends {t : Transition ε σ α} (h : Yields I t P) {s : σ} (begun : I s) :
    t.Ends s (fun _ s' => I s') fun _ _ => True :=
  (h s begun).imp fun _ _ h' => h'.1

theorem forget {t : Transition ε σ α} (h : Yields I t P) : Maintains I t :=
  fun s begun => (h s begun).imp fun _ _ h' => ⟨h'.1, trivial⟩

theorem pure {a : α} (h : P a) : Yields I (pure a : Transition ε σ α) P := fun _ begun => ⟨begun, h⟩

theorem get : Yields I (get : Transition ε σ σ) I := fun _ begun => ⟨begun, begun⟩

theorem gets {f : σ → α} : Maintains I (gets f : Transition ε σ α) := fun _ begun => ⟨begun, trivial⟩

theorem emit {severity : Severity} {message : String} :
    Maintains I (emit severity message : Transition ε σ Unit) := fun _ begun => ⟨begun, trivial⟩

theorem ensure {p : Prop} [Decidable p] {e : ε} :
    Yields I (ensure p e : Transition ε σ Unit) fun _ => p :=
  fun _ begun => ends_ensure p e |>.mpr ⟨fun h => ⟨begun, h⟩, fun _ => trivial⟩

theorem ofExcept {x : Except ε α} :
    Yields I (ofExcept x : Transition ε σ α) fun a => x = .ok a := by
  intro s begun
  cases x with
  | ok a => exact ⟨begun, rfl⟩
  | error e => exact trivial

theorem modify {g : σ → σ} (h : ∀ s, I s → I (g s)) :
    Maintains I (modify g : Transition ε σ Unit) := fun s begun => ⟨h s begun, trivial⟩

theorem modifyGet {g : σ → α × σ} (h : ∀ s, I s → I (g s).2 ∧ P (g s).1) :
    Yields I (modifyGet g : Transition ε σ α) P := h

theorem update {g : σ → Except ε σ} (h : ∀ s s', I s → g s = .ok s' → I s') :
    Maintains I (update g) := by
  intro s begun
  cases value : g s with
  | ok s' => exact (ends_update_of_ok value).mpr ⟨h s s' begun value, trivial⟩
  | error e => exact (ends_update_of_error value).mpr trivial

theorem bind {t : Transition ε σ α} {next : α → Transition ε σ β} (first : Yields I t P)
    (rest : ∀ a, P a → Yields I (next a) Q) : Yields I (t >>= next) Q := by
  intro s begun
  rw [ends_bind]
  exact (first s begun).imp fun a s' h => rest a h.2 s' h.1

theorem ite {p : Prop} [Decidable p] {t u : Transition ε σ α} (yes : p → Yields I t P)
    (no : ¬p → Yields I u P) : Yields I (if p then t else u) P := by
  split
  · exact yes ‹_›
  · exact no ‹_›

theorem forAll {act : β → Transition ε σ Unit} :
    ∀ {xs : List β}, (∀ b ∈ xs, Maintains I (act b)) → Maintains I (forAll act xs)
  | [], _ => fun _ begun => ⟨begun, trivial⟩
  | b :: _, h => .bind (h b List.mem_cons_self) fun _ _ =>
    forAll fun x mem => h x (List.mem_cons_of_mem b mem)

theorem times {t : Transition ε σ Unit} (h : Maintains I t) : ∀ n, Maintains I (times n t)
  | 0 => fun _ begun => ⟨begun, trivial⟩
  | n + 1 => by
    rw [times_succ]
    exact .bind h fun _ _ => times h n

end Yields

/-! ## Refusals and violations -/

section

variable {s : σ} {Q : α → σ → Prop} {E : Stop → σ → Prop}

@[simp] theorem ends_refuse (e : MemoryError) :
    (refuse e : Transition Stop σ α).Ends s Q E ↔ E (.refused e) s := Iff.rfl

@[simp] theorem ends_violate (v : Violation) :
    (violate v : Transition Stop σ α).Ends s Q E ↔ E (.violated v) s := Iff.rfl

@[simp] theorem ends_rethrow_ok (a : α) :
    (rethrow (.ok a) : Transition Stop σ α).Ends s Q E ↔ Q a s := Iff.rfl

@[simp] theorem ends_rethrow_error (e : MemoryError) :
    (rethrow (.error e) : Transition Stop σ α).Ends s Q E ↔ E (.refused e) s := Iff.rfl

theorem ends_checked (x : Except ArithmeticFault α) :
    (checked x : Transition Stop σ α).Ends s Q E ↔
      (∀ a, x = .ok a → Q a s) ∧ (∀ f, x = .error f → E (.violated (.arithmetic f)) s) := by
  cases x with
  | ok a => simp [checked, Except.mapError]
  | error f => simp [checked, Except.mapError]

@[simp] theorem ends_checked_ok (a : α) :
    (checked (.ok a) : Transition Stop σ α).Ends s Q E ↔ Q a s := Iff.rfl

theorem Preserves.attempt {γ : Type} {f : σ → γ} {t : Transition Stop σ α} (h : Preserves f t) :
    Preserves f (attempt t) := by
  intro s
  rw [state_attempt]
  exact h s

/-- Refusals become values; violations go on. -/
theorem Ends.attempt {t : Transition Stop σ α} {Q : Except MemoryError α → σ → Prop}
    (h : t.Ends s (fun a s' => Q (.ok a) s')
      (fun e s' => match e with
        | .refused e => Q (.error e) s'
        | .violated v => E (.violated v) s')) : (attempt t).Ends s Q E := by
  unfold Ends at h ⊢
  cases ok : (t s).result with
  | ok a =>
    rw [attempt_of_ok ok]
    rwa [ok] at h
  | error e =>
    rw [ok] at h
    cases e with
    | refused e =>
      rw [attempt_of_refused ok]
      exact h
    | violated v =>
      rw [attempt_of_violated ok]
      exact h

theorem Ends.onlyViolations {t : Transition Stop σ α} {Q : Except MemoryError α → σ → Prop}
    {E : Violation → σ → Prop}
    (h : t.Ends s (fun a s' => Q (.ok a) s')
      (fun e s' => match e with
        | .refused e => Q (.error e) s'
        | .violated v => E v s')) : (onlyViolations t).Ends s Q E := by
  unfold Ends at h ⊢
  unfold Transition.onlyViolations
  cases ok : (t s).result with
  | ok a =>
    simp only [ok] at h ⊢
    exact h
  | error e => cases e <;> (simp only [ok] at h ⊢; exact h)

end

end KernelCore.Transition
