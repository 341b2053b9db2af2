/-!
# Transitions

A transition acts on a state. It yields a value or stops for a reason, in both cases leaves a
state behind, and reports the log records it made. Stopping does not undo what was done
before, so a caller that goes on after a failure sees what the failed part left.
-/
namespace KernelCore

inductive Severity where
  | error | warn | info | debug | trace
  deriving DecidableEq, Repr

/-- One line of the kernel log. -/
structure LogRecord where
  severity : Severity
  message : String
  deriving DecidableEq, Repr

def Severity.label : Severity → String
  | .error => "ERROR"
  | .warn => "WARN"
  | .info => "INFO"
  | .debug => "DEBUG"
  | .trace => "TRACE"

/-- The record as one line: its level, a blank, its message. -/
def LogRecord.line (r : LogRecord) : String := r.severity.label ++ " " ++ r.message

/-- What one run of a transition leaves. -/
structure Outcome (ε σ α : Type) where
  result : Except ε α
  state : σ
  log : List LogRecord

/-- A step on states `σ` that yields an `α` or stops with an `ε`. -/
def Transition (ε σ α : Type) := σ → Outcome ε σ α

namespace Transition

variable {ε σ τ α β : Type}

def run (t : Transition ε σ α) (s : σ) : Outcome ε σ α := t s

protected def pure (a : α) : Transition ε σ α := fun s => ⟨.ok a, s, []⟩

protected def bind (t : Transition ε σ α) (next : α → Transition ε σ β) : Transition ε σ β :=
  fun s =>
    let first := t s
    match first.result with
    | .ok a =>
      let second := next a first.state
      ⟨second.result, second.state, first.log ++ second.log⟩
    | .error e => ⟨.error e, first.state, first.log⟩

instance : Monad (Transition ε σ) where
  pure := Transition.pure
  bind := Transition.bind

/-- The state as it is. -/
def get : Transition ε σ σ := fun s => ⟨.ok s, s, []⟩

/-- A part of the state. -/
def gets (f : σ → α) : Transition ε σ α := fun s => ⟨.ok (f s), s, []⟩

def modify (f : σ → σ) : Transition ε σ Unit := fun s => ⟨.ok (), f s, []⟩

/-- Stop for the reason `e`; the state stays as it is. -/
def stop (e : ε) : Transition ε σ α := fun s => ⟨.error e, s, []⟩

/-- Go on exactly if the condition holds. -/
def ensure (p : Prop) [Decidable p] (e : ε) : Transition ε σ Unit :=
  if p then Transition.pure () else stop e

def emit (severity : Severity) (message : String) : Transition ε σ Unit :=
  fun s => ⟨.ok (), s, [⟨severity, message⟩]⟩

/-- The value of a computation that touches no state. -/
def ofExcept : Except ε α → Transition ε σ α
  | .ok a => Transition.pure a
  | .error e => stop e

/-- A change of state that may be refused, in which case the state stays. -/
def update (f : σ → Except ε σ) : Transition ε σ Unit := fun s =>
  match f s with
  | .ok s' => ⟨.ok (), s', []⟩
  | .error e => ⟨.error e, s, []⟩

/-- Read a value off the state and replace the state at once. -/
def modifyGet (f : σ → α × σ) : Transition ε σ α := fun s =>
  let r := f s
  ⟨.ok r.1, r.2, []⟩

/-- Act on a part of a larger state. -/
def within (part : σ → τ) (put : τ → σ → σ) (t : Transition ε τ α) : Transition ε σ α := fun s =>
  let o := t (part s)
  ⟨o.result, put o.state s, o.log⟩

private def timesFrom (t : Transition ε σ Unit) : Nat → σ → List LogRecord → Outcome ε σ Unit
  | 0, s, logged => ⟨.ok (), s, logged.reverse⟩
  | n + 1, s, logged =>
    let o := t s
    match o.result with
    | .ok () => timesFrom t n o.state (o.log.reverse ++ logged)
    | .error e => ⟨.error e, o.state, logged.reverse ++ o.log⟩

/-- The same transition `n` times over. -/
def times (n : Nat) (t : Transition ε σ Unit) : Transition ε σ Unit :=
  fun s => timesFrom t n s []

/-- One transition for every element, first to last. -/
def forAll (act : α → Transition ε σ Unit) : List α → Transition ε σ Unit
  | [] => Transition.pure ()
  | a :: rest => act a >>= fun _ => forAll act rest

/-- One transition for each of the `count` numbers from `first` on, in order. -/
def forRange (act : Nat → Transition ε σ Unit) (first : Nat) : Nat → Transition ε σ Unit
  | 0 => Transition.pure ()
  | count + 1 => act first >>= fun _ => forRange act (first + 1) count

@[simp] theorem run_eq (t : Transition ε σ α) (s : σ) : t.run s = t s := rfl

@[simp] theorem pure_apply (a : α) (s : σ) :
    (pure a : Transition ε σ α) s = ⟨.ok a, s, []⟩ := rfl

@[simp] theorem get_apply (s : σ) : (get : Transition ε σ σ) s = ⟨.ok s, s, []⟩ := rfl

@[simp] theorem gets_apply (f : σ → α) (s : σ) :
    (gets f : Transition ε σ α) s = ⟨.ok (f s), s, []⟩ := rfl

@[simp] theorem modify_apply (f : σ → σ) (s : σ) :
    (modify f : Transition ε σ Unit) s = ⟨.ok (), f s, []⟩ := rfl

@[simp] theorem stop_apply (e : ε) (s : σ) :
    (stop e : Transition ε σ α) s = ⟨.error e, s, []⟩ := rfl

@[simp] theorem emit_apply (severity : Severity) (message : String) (s : σ) :
    (emit severity message : Transition ε σ Unit) s = ⟨.ok (), s, [⟨severity, message⟩]⟩ := rfl

@[simp] theorem modifyGet_apply (f : σ → α × σ) (s : σ) :
    (modifyGet f : Transition ε σ α) s = ⟨.ok (f s).1, (f s).2, []⟩ := rfl

@[simp] theorem ofExcept_ok (a : α) (s : σ) :
    (ofExcept (.ok a) : Transition ε σ α) s = ⟨.ok a, s, []⟩ := rfl

@[simp] theorem ofExcept_error (e : ε) (s : σ) :
    (ofExcept (.error e) : Transition ε σ α) s = ⟨.error e, s, []⟩ := rfl

/-- An update that succeeds replaces the state. -/
theorem update_of_ok {f : σ → Except ε σ} {s s' : σ} (h : f s = .ok s') :
    update f s = ⟨.ok (), s', []⟩ := by
  unfold update
  rw [h]

/-- An update that is refused leaves the state. -/
theorem update_of_error {f : σ → Except ε σ} {s : σ} {e : ε} (h : f s = .error e) :
    update f s = ⟨.error e, s, []⟩ := by
  unfold update
  rw [h]

theorem ensure_apply (p : Prop) [Decidable p] (e : ε) (s : σ) :
    (ensure p e : Transition ε σ Unit) s = if p then ⟨.ok (), s, []⟩ else ⟨.error e, s, []⟩ := by
  unfold ensure
  split <;> rfl

theorem bind_apply (t : Transition ε σ α) (next : α → Transition ε σ β) (s : σ) :
    (t >>= next) s =
      match (t s).result with
      | .ok a =>
        ⟨(next a (t s).state).result, (next a (t s).state).state,
          (t s).log ++ (next a (t s).state).log⟩
      | .error e => ⟨.error e, (t s).state, (t s).log⟩ := rfl

/-- Whatever follows a step that yields a value runs on the state the step left. -/
theorem bind_of_ok {t : Transition ε σ α} {next : α → Transition ε σ β} {s : σ} {a : α}
    (h : (t s).result = .ok a) :
    (t >>= next) s =
      ⟨(next a (t s).state).result, (next a (t s).state).state,
        (t s).log ++ (next a (t s).state).log⟩ := by
  rw [bind_apply, h]

instance : LawfulMonad (Transition ε σ) :=
  LawfulMonad.mk' _
    (by
      intro α t
      funext s
      change (Transition.bind t _) s = t s
      unfold Transition.bind
      rcases h : t s with ⟨r, s', l⟩
      cases r <;> simp [Transition.pure])
    (by intros; rfl)
    (by
      intro α β γ t f g
      funext s
      change Transition.bind (Transition.bind t f) g s =
        Transition.bind t (fun a => Transition.bind (f a) g) s
      unfold Transition.bind
      rcases h : t s with ⟨r, s', l⟩
      cases r with
      | error e => rfl
      | ok a =>
        dsimp only
        rcases f a s' with ⟨r', s'', l'⟩
        cases r' <;> simp)

private theorem timesFrom_succ (t : Transition ε σ Unit) (n : Nat) (s : σ)
    (logged : List LogRecord) :
    timesFrom t n s logged =
      ⟨(timesFrom t n s []).result, (timesFrom t n s []).state,
        logged.reverse ++ (timesFrom t n s []).log⟩ := by
  induction n generalizing s logged with
  | zero => simp [timesFrom]
  | succ n ih =>
    unfold timesFrom
    rcases h : t s with ⟨r, s', l⟩
    cases r with
    | error e => simp
    | ok u =>
      dsimp only
      rw [ih s' (l.reverse ++ logged), ih s' (l.reverse ++ [])]
      simp

@[simp] theorem times_zero (t : Transition ε σ Unit) (s : σ) :
    times 0 t s = ⟨.ok (), s, []⟩ := rfl

theorem times_succ (n : Nat) (t : Transition ε σ Unit) :
    times (n + 1) t = (t >>= fun _ => times n t) := by
  funext s
  change timesFrom t (n + 1) s [] = Transition.bind t (fun _ => times n t) s
  unfold timesFrom Transition.bind times
  rcases h : t s with ⟨r, s', l⟩
  cases r with
  | error e => simp
  | ok u =>
    dsimp only
    rw [timesFrom_succ]
    simp

@[simp] theorem forAll_nil (act : α → Transition ε σ Unit) :
    forAll act [] = Transition.pure () := rfl

theorem forAll_cons (act : α → Transition ε σ Unit) (a : α) (rest : List α) :
    forAll act (a :: rest) = (act a >>= fun _ => forAll act rest) := rfl

@[simp] theorem forRange_zero (act : Nat → Transition ε σ Unit) (first : Nat) :
    forRange act first 0 = Transition.pure () := rfl

theorem forRange_succ (act : Nat → Transition ε σ Unit) (first count : Nat) :
    forRange act first (count + 1) =
      (act first >>= fun _ => forRange act (first + 1) count) := rfl

end Transition

end KernelCore
