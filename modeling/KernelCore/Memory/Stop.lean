import KernelCore.Transition
import KernelCore.Violation

/-!
# How memory operations stop

A memory operation stops either because it is refused, which its caller can handle, or because
a contract was violated, which nobody handles.
-/
namespace KernelCore

inductive Stop where
  | refused (e : MemoryError)
  | violated (v : Violation)
  deriving DecidableEq

namespace Transition

variable {σ α : Type}

def refuse (e : MemoryError) : Transition Stop σ α := stop (.refused e)

def violate (v : Violation) : Transition Stop σ α := stop (.violated v)

/-- The value of a checked computation; its fault is a violated contract. -/
def checked (x : Except ArithmeticFault α) : Transition Stop σ α :=
  ofExcept (x.mapError fun f => .violated (.arithmetic f))

/-- A refusal as a value. The state stays as the refused operation left it. -/
def attempt (t : Transition Stop σ α) : Transition Stop σ (Except MemoryError α) := fun s =>
  let o := t s
  match o.result with
  | .ok a => ⟨.ok (.ok a), o.state, o.log⟩
  | .error (.refused e) => ⟨.ok (.error e), o.state, o.log⟩
  | .error (.violated v) => ⟨.error (.violated v), o.state, o.log⟩

/-- Stop for a refusal that was put off. -/
def rethrow : Except MemoryError α → Transition Stop σ α
  | .ok a => Transition.pure a
  | .error e => refuse e

/-- A transition whose refusals have all become values stops only at violations. -/
def onlyViolations (t : Transition Stop σ α) : Transition Violation σ (Except MemoryError α) :=
  fun s =>
    let o := t s
    match o.result with
    | .ok a => ⟨.ok (.ok a), o.state, o.log⟩
    | .error (.refused e) => ⟨.ok (.error e), o.state, o.log⟩
    | .error (.violated v) => ⟨.error v, o.state, o.log⟩

@[simp] theorem refuse_apply (e : MemoryError) (s : σ) :
    (refuse e : Transition Stop σ α) s = ⟨.error (.refused e), s, []⟩ := rfl

@[simp] theorem violate_apply (v : Violation) (s : σ) :
    (violate v : Transition Stop σ α) s = ⟨.error (.violated v), s, []⟩ := rfl

theorem attempt_of_ok {t : Transition Stop σ α} {s : σ} {a : α} (h : (t s).result = .ok a) :
    attempt t s = ⟨.ok (.ok a), (t s).state, (t s).log⟩ := by
  unfold attempt
  dsimp only
  rw [h]

theorem attempt_of_refused {t : Transition Stop σ α} {s : σ} {e : MemoryError}
    (h : (t s).result = .error (.refused e)) :
    attempt t s = ⟨.ok (.error e), (t s).state, (t s).log⟩ := by
  unfold attempt
  dsimp only
  rw [h]

/-- A violated contract is not put off. -/
theorem attempt_of_violated {t : Transition Stop σ α} {s : σ} {v : Violation}
    (h : (t s).result = .error (.violated v)) :
    attempt t s = ⟨.error (.violated v), (t s).state, (t s).log⟩ := by
  unfold attempt
  dsimp only
  rw [h]

/-- Whether a refusal is put off or not makes no difference to the state that is left. -/
theorem state_attempt (t : Transition Stop σ α) (s : σ) : (attempt t s).state = (t s).state := by
  unfold attempt
  dsimp only
  split <;> rfl

theorem state_onlyViolations (t : Transition Stop σ α) (s : σ) :
    (onlyViolations t s).state = (t s).state := by
  unfold onlyViolations
  dsimp only
  split <;> rfl

end Transition

end KernelCore
