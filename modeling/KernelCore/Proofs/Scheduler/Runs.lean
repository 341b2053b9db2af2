import KernelCore.Proofs.Scheduler.Requests

/-!
# Runs

A run is a finite sequence of events, each of which succeeds and is allowed in the state it happens
in. In every state of a run the threads are in order, and the priorities are backed.
-/
namespace KernelCore.Scheduler

open Transition

/-- The states the scheduler reaches by allowed events, each with the threads that are parked
there. -/
inductive Run (feedback : Bool) (capacity : Nat) (allows : Scheduler → Event → Scheduler → Prop) :
    Set Tid → Scheduler → Prop
  | start : Run feedback capacity allows ∅ (start feedback capacity)
  | next {P : Set Tid} {s : Scheduler} {e : Event} (run : Run feedback capacity allows P s)
      (possible : e.Possible s) (succeeds : (e.happen s).result = .ok ())
      (allowed : allows s e (e.happen s).state) :
      Run feedback capacity allows (e.parks s P) (e.happen s).state

/-- The idle thread never waits. -/
def IdleNeverWaits (allows : Scheduler → Event → Scheduler → Prop) : Prop :=
  ∀ s e s', allows s e s' → e.Waits s → s.current ≠ s.idle

/-- The idle thread is never made ready by name. -/
def IdleNeverWoken (allows : Scheduler → Event → Scheduler → Prop) : Prop :=
  ∀ s e s', allows s e s' → ¬e.Unblocks s.idle

/-! ## The start -/

section

variable (feedback : Bool) (capacity : Nat)

theorem thread?_start (t : Tid) : (start feedback capacity).thread? t =
    if t = 2 then some (Thread.create 2 "idle" minPriority none)
    else if t = 1 then
      some { Thread.create 1 "main" defaultPriority none with state := .running }
    else none := by
  simp only [start, thread?, Table.find?_insert]
  rfl

private theorem queue_start (m : Membership) : (start feedback capacity).layout.queue m = [] := by
  cases m <;> rfl

private theorem place_start (t : Tid) : (start feedback capacity).layout.place t =
    if t = 2 then some ⟨.blocked, .none, [], none⟩
    else if t = 1 then some ⟨.running, .none, [], none⟩ else none := by
  simp only [layout, thread?_start]
  split
  · rfl
  · split <;> rfl

private theorem rank_start (t : Tid) : (start feedback capacity).layout.rank t =
    if t = 2 then some ⟨minPriority, minPriority⟩
    else if t = 1 then some ⟨defaultPriority, defaultPriority⟩ else none := by
  simp only [layout, thread?_start]
  split
  · rfl
  · split <;> rfl

theorem start_orderly (R : Prop) : Orderly R ∅ (start feedback capacity).layout := by
  have place := place_start feedback capacity
  have queue := queue_start feedback capacity
  have cases_place : ∀ t p, (start feedback capacity).layout.place t = some p →
      t = 2 ∧ p = ⟨.blocked, .none, [], none⟩ ∨ t = 1 ∧ p = ⟨.running, .none, [], none⟩ := by
    intro t p known
    rw [place] at known
    split at known
    · exact .inl ⟨‹_›, (Option.some.inj known).symm⟩
    · split at known
      · exact .inr ⟨‹_›, (Option.some.inj known).symm⟩
      · cases known
  constructor
  case toArranged =>
    constructor
    case proper =>
      intro t p known
      rcases cases_place t p known with ⟨rfl, rfl⟩ | ⟨rfl, rfl⟩
      · exact ⟨by simp, by simp, by simp, by simp, by simp⟩
      · exact ⟨fun _ => rfl, by simp, by simp, by simp, by simp⟩
    case queued =>
      intro m t m_ne
      rw [queue]
      constructor
      · simp
      · rintro ⟨p, known, there⟩
        rcases cases_place t p known with ⟨-, rfl⟩ | ⟨-, rfl⟩ <;> exact absurd there.symm m_ne
    case nodup => simp [queue]
    case holds =>
      intro l t
      rw [show (start feedback capacity).layout.holder l = none from rfl]
      constructor
      · simp
      · rintro ⟨p, known, held⟩
        rcases cases_place t p known with ⟨-, rfl⟩ | ⟨-, rfl⟩ <;> simp at held
    case held => simp [queue]
    case relock => simp [queue]
    case doomed => exact fun t mem => absurd mem (List.not_mem_nil)
    case idle => exact ⟨⟨.blocked, .none, [], none⟩, place 2, by simp, .inl rfl⟩
    case parked =>
      intro t
      rw [Set.mem_empty_iff_false, false_iff]
      rintro ⟨busy, p, known, blocked, -⟩
      rcases cases_place t p known with ⟨rfl, rfl⟩ | ⟨rfl, rfl⟩
      · exact busy rfl
      · cases blocked
    case numbered =>
      intro t p known
      change t < (3 : Int)
      rcases cases_place t p known with ⟨rfl, rfl⟩ | ⟨rfl, rfl⟩ <;> decide
    case resting => simp [queue]
    case handler => exact fun inside => absurd inside Bool.false_ne_true
  case current => exact ⟨⟨.running, .none, [], none⟩, place 1, rfl, rfl⟩

private theorem start_unlinked (u t : Tid) : ¬(start feedback capacity).layout.WaitsFor u t := by
  rintro ⟨l, -, holds⟩
  cases holds

private theorem start_own {t : Tid} {r : Rank}
    (known : (start feedback capacity).layout.rank t = some r) : r.effective = r.base := by
  rw [rank_start] at known
  split at known
  · obtain rfl := Option.some.inj known
    rfl
  · split at known
    · obtain rfl := Option.some.inj known
      rfl
    · cases known

theorem start_exact : (start feedback capacity).layout.Exact := by
  intro t r known
  have own := start_own feedback capacity known
  refine ⟨Int.le_of_eq own.symm, ?_, .inl own⟩
  exact fun u _ waits => absurd waits (start_unlinked feedback capacity u t)

theorem start_backed : (start feedback capacity).layout.Backed := by
  intro t r known
  have own := start_own feedback capacity known
  exact ⟨Int.le_of_eq own.symm, .inl own, t, r, .refl, known, Int.le_of_eq own⟩

theorem start_top : (start feedback capacity).layout.Top :=
  ⟨by simp [queue_start], fun _ => queue_start feedback capacity .ready⟩

end

/-! ## What holds in every state -/

namespace Run

variable {feedback : Bool} {capacity : Nat} {allows : Scheduler → Event → Scheduler → Prop}
  {P : Set Tid} {s : Scheduler}

/-- Threads are in order and priorities are backed. -/
structure Sound (R : Prop) (feedback : Bool) (P : Set Tid) (s : Scheduler) : Prop where
  orderly : Orderly R P s.layout
  mode : s.feedback = feedback
  backed : s.feedback = false → s.layout.Backed

/-- Every event of a sound state either stops at one of its own assertions or leaves a sound
state. -/
theorem Sound.happen_ends {R : Prop} {e : Event} (h : Sound R feedback P s)
    (possible : e.Possible s) (busy : e.Waits s → s.current ≠ s.idle)
    (rests : e.Unblocks s.idle → ¬R) :
    e.happen.Ends s (fun _ s' => Sound R feedback (e.parks s P) s' ∧ Followed R P e s s')
      fun v _ => e.Asserts v ∨ ¬R ∧ v = .idleReady := by
  refine (Event.happen_ends h.orderly possible busy rests).imp ?_
  exact fun _ s' followed => ⟨⟨followed.orderly, followed.feedback.trans h.mode, fun priorities =>
    followed.backed (followed.feedback ▸ priorities) (h.backed (followed.feedback ▸ priorities))⟩,
    followed⟩

section

variable {R : Prop} (busy : IdleNeverWaits allows)
  (rests : ∀ s e s', allows s e s' → e.Unblocks s.idle → ¬R)

include busy rests

theorem sound (run : Run feedback capacity allows P s) : Sound R feedback P s := by
  induction run with
  | start =>
    exact ⟨start_orderly feedback capacity R, rfl, fun _ => start_backed feedback capacity⟩
  | next _ possible succeeds allowed ih =>
    exact ((ih.happen_ends possible (busy _ _ _ allowed) (rests _ _ _ allowed)).of_ok succeeds).1

/-- An event that succeeds in a run leaves a state in which all is as it should be. -/
theorem followed {e : Event} (run : Run feedback capacity allows P s) (possible : e.Possible s)
    (succeeds : (e.happen s).result = .ok ()) (allowed : allows s e (e.happen s).state) :
    Followed R P e s (e.happen s).state :=
  (((run.sound busy rests).happen_ends possible (busy _ _ _ allowed)
    (rests _ _ _ allowed)).of_ok succeeds).2

end

/-- A handler that is allowed to make its requests. -/
structure Permits (allows : Scheduler → Event → Scheduler → Prop) (handler : List Request) :
    Prop where
  enter : ∀ s s', allows s .enter s'
  leave : ∀ s level s', allows s (.leave level) s'
  requests : ∀ r ∈ handler, ∀ s, s.inHandler = true → (∃ reply, (perform r s).result = .ok reply) →
    allows s (.request r) (perform r s).state

/-- What follows a request in a run also follows from performing it. -/
theorem perform (run : Run feedback capacity allows P s) {r : Request}
    (possible : Event.Possible s (.request r)) {reply : Reply}
    (succeeds : (Scheduler.perform r s).result = .ok reply)
    (allowed : allows s (.request r) (Scheduler.perform r s).state) :
    Run feedback capacity allows (Event.parks s P (.request r)) (Scheduler.perform r s).state := by
  have happens : Event.happen (.request r) s =
      ⟨.ok (), (Scheduler.perform r s).state, (Scheduler.perform r s).log ++ []⟩ :=
    bind_of_ok succeeds
  have result := congrArg Outcome.result happens
  have state := congrArg Outcome.state happens
  dsimp only at result state
  rw [← state] at allowed ⊢
  exact run.next possible result allowed

/-- Some state of a run has no number for one more thread. -/
def UsesUpNumbers (feedback : Bool) (capacity : Nat) (allows : Scheduler → Event → Scheduler → Prop) :
    Prop :=
  ∃ S s, Run feedback capacity allows S s ∧ ¬s.NumbersLeft

/-- The requests of a handler, one after the other, are part of the run. -/
theorem performAll_ends (busy : IdleNeverWaits allows) {handler : List Request}
    (permits : Permits allows handler) (run : Run feedback capacity allows P s)
    (inside : s.inHandler = true) :
    (performAll handler).Ends s (fun _ s' => UsesUpNumbers feedback capacity allows ∨
      ∃ S, Run feedback capacity allows S s' ∧ s'.inHandler = true) fun _ _ => True := by
  induction handler generalizing P s with
  | nil => exact .inr ⟨P, run, inside⟩
  | cons r rest ih =>
    have permitsRest : Permits allows rest :=
      { permits with requests := fun r mem => permits.requests r (List.mem_cons_of_mem _ mem) }
    by_cases possible : Event.Possible s (.request r)
    · rw [performAll, ends_bind]
      refine Ends.imp (Ends.self.mono (fun _ _ h => h) fun _ _ _ => trivial) ?_
      rintro reply s₁ ⟨succeeds, rfl⟩
      have allowed := permits.requests r (by simp) s inside ⟨reply, succeeds⟩
      have run₁ := run.perform possible succeeds allowed
      have followed := (perform_ends (run.sound (R := False) busy (by simp)).orderly possible
        (busy _ _ _ allowed) (by simp)).of_ok succeeds
      rw [ends_bind, ends_gets, ends_bind]
      refine (ih permitsRest run₁ ((followed.inHandler r rfl).trans inside)).imp ?_
      exact fun _ s₂ more => more
    · cases r with
      | spawn => exact Ends.self.mono (fun _ _ _ => .inl ⟨P, s, run, possible⟩) fun _ _ _ => trivial
      | interrupt =>
        -- A nested interrupt stops.
        rw [performAll, ends_bind, Scheduler.perform, ends_bind, externalInterrupt, ends_bind]
        refine (enterHandler_ends (F := fun _ => True) fun _ => trivial).imp ?_
        rintro level s₁ ⟨outside, -⟩
        exact absurd inside (by simp [show s.inHandler = false from outside])
      | _ => exact absurd trivial possible

/-- A whole external interrupt is part of the run if its handler is allowed to make its requests
and numbers are left for the threads it creates. -/
theorem interrupt (busy : IdleNeverWaits allows) {handler : List Request}
    (permits : Permits allows handler) (run : Run feedback capacity allows P s) {reply : Reply}
    (succeeds : (Scheduler.perform (.interrupt handler) s).result = .ok reply) :
    UsesUpNumbers feedback capacity allows ∨
      ∃ S, Run feedback capacity allows S (Scheduler.perform (.interrupt handler) s).state := by
  have ends : (Scheduler.perform (.interrupt handler)).Ends s
      (fun _ s' => UsesUpNumbers feedback capacity allows ∨
        ∃ S, Run feedback capacity allows S s') fun _ _ => True := by
    rw [Scheduler.perform, ends_bind, externalInterrupt, ends_bind]
    refine Ends.imp (Ends.self.mono (fun _ _ h => h) fun _ _ _ => trivial) ?_
    rintro level s₁ ⟨entered, rfl⟩
    have happens : Event.happen .enter s = ⟨.ok (), (enterHandler s).state, (enterHandler s).log ++ []⟩ :=
      bind_of_ok entered
    have result := congrArg Outcome.result happens
    have state := congrArg Outcome.state happens
    dsimp only at result state
    have run₁ := run.next (e := .enter) trivial result (permits.enter _ _)
    rw [state] at run₁
    have inside : (enterHandler s).state.inHandler = true := by
      obtain ⟨-, -, h⟩ := (enterHandler_ends (F := fun _ => True) fun _ => trivial).of_ok entered
      exact congrArg Layout.inHandler h
    rw [ends_bind]
    refine (performAll_ends busy permits run₁ inside).imp ?_
    intro steps s₂ ran
    simp only [ends_bind, ends_pure]
    refine Ends.imp (Ends.self.mono (fun _ _ h => h) fun _ _ _ => trivial) ?_
    rintro ⟨⟩ s₃ ⟨left, rfl⟩
    refine ran.imp_right ?_
    rintro ⟨S, run₂, inside₂⟩
    exact ⟨S, run₂.next (e := .leave level) inside₂ left (permits.leave _ _ _)⟩
  exact ends.of_ok succeeds

end Run

/-! ## A contended lock -/

/-- The first thread takes a lock; a more urgent thread that it spawns then waits for it. -/
def created : Scheduler := ((Event.request .newLock).happen (start false 4)).state

def locked : Scheduler := ((Event.request (.acquire 0)).happen created).state

def pressed : Scheduler := ((Event.request (.spawn "urgent" 40 none 0)).happen locked).state

def contended : Scheduler := ((Event.request (.acquire 0)).happen pressed).state

section

variable {allows : Scheduler → Event → Scheduler → Prop}
  (create : allows (start false 4) (.request .newLock) created)
  (lock : allows created (.request (.acquire 0)) locked)
  (spawn : allows locked (.request (.spawn "urgent" 40 none 0)) pressed)
  (wait : allows pressed (.request (.acquire 0)) contended)

include create lock spawn

theorem pressed_run : Run false 4 allows ∅ pressed := by
  have run₁ : Run false 4 allows ∅ created :=
    Run.start.next (e := .request .newLock) trivial rfl create
  have run₂ : Run false 4 allows ∅ locked :=
    run₁.next (e := .request (.acquire 0)) trivial rfl lock
  exact run₂.next (e := .request (.spawn "urgent" 40 none 0)) (fun _ => by decide) rfl spawn

include wait

theorem contended_run : Run false 4 allows ∅ contended :=
  (pressed_run create lock spawn).next (e := .request (.acquire 0)) trivial rfl wait

end

/-- What keeps the idle thread out of all queues, and everyone else from jumping one. -/
def Careful (s : Scheduler) (e : Event) (_ : Scheduler) : Prop :=
  (e.Waits s → s.current ≠ s.idle) ∧ ∀ t, ¬e.Unblocks t

theorem careful_idleNeverWaits : IdleNeverWaits Careful := fun _ _ _ allowed => allowed.1

theorem careful_idleNeverWoken : IdleNeverWoken Careful := fun _ _ _ allowed => allowed.2 _

theorem careful_run : Run false 4 Careful ∅ contended := by
  apply contended_run
  · exact ⟨fun _ => by decide, fun _ => id⟩
  · exact ⟨fun _ => by decide, fun _ => id⟩
  · exact ⟨fun _ => by decide, fun _ => id⟩
  · exact ⟨fun _ => by decide, fun _ => id⟩

end KernelCore.Scheduler
