import KernelCore.Proofs.Scheduler.Synchronizers
import KernelCore.Proofs.Scheduler.Units

/-!
# The idle thread stays out of the queues

The idle thread is chosen when no other thread is ready, so it belongs in no queue, and the
consistency check refuses it in the ready queue. Two kinds of events put it into one all the same,
and nothing they assert forbids them: somebody makes it ready by name while it is blocked, or it
runs and asks for what it has to wait for. Without these it stays out of all queues, and every
check passes; each of them that succeeds leaves it in a queue.
-/
namespace KernelCore.Scheduler

open Transition

/-- The request has the current thread wait for a lock, for a unit or to be signalled. -/
def Request.Queues (s : Scheduler) : Request → Prop
  | .acquire lock => s.holder ⟨lock⟩ ≠ none
  | .down semaphore => (s.semaphoreState ⟨semaphore⟩).value = 0
  | .wait _ _ => True
  | _ => False

/-- The event makes the idle thread ready by name, or the idle thread waits. -/
def Event.QueuesIdle (s : Scheduler) (e : Event) : Prop :=
  e.Unblocks s.idle ∨ s.current = s.idle ∧ ∃ r, e = .request r ∧ r.Queues s

/-- Nobody queues the idle thread. -/
def IdleNeverQueued (allows : Scheduler → Event → Scheduler → Prop) : Prop :=
  ∀ s e s', allows s e s' → ¬e.QueuesIdle s

/-- The idle thread is in no queue and lives, running or blocked, and the consistency check
passes. -/
structure IdleRests (s : Scheduler) : Prop where
  unqueued : ∀ m, s.idle ∉ s.queue m
  state : ∃ th, s.thread? s.idle = some th ∧ th.membership = .none ∧
    (th.state = .running ∨ th.state = .blocked)
  checked : s.check = .ok ()

section

variable {P : Set Tid} {s : Scheduler} {e : Event} {r : Request} {F : Violation → Prop}

/-- Among orderly threads the idle thread rests unless it was made ready. -/
theorem IdleRests.of_orderly (h : Orderly True P s.layout) : s.IdleRests := by
  obtain ⟨p, known, alive, there⟩ := h.idle
  obtain ⟨th, found, rfl⟩ := exists_thread known
  have asleep : s.idle ∉ s.layout.queue .ready := h.resting trivial
  have unready : th.membership ≠ .ready := by
    intro ready
    exact asleep ((h.mem_queue known (by simp)).mpr ready)
  have free : th.membership = .none := there.resolve_right unready
  constructor
  case unqueued =>
    intro m mem
    have m_ne : m ≠ .none := by
      rintro rfl
      exact List.not_mem_nil mem
    have waits : s.layout.idle ∈ s.layout.queue m := mem
    have there : th.membership = m := (h.mem_queue known m_ne).mp waits
    exact m_ne (there.symm.trans free)
  case state =>
    refine ⟨th, found, free, ?_⟩
    have ready : th.state = .ready ↔ th.membership = .ready := (h.proper s.idle th.place known).ready
    have living : th.state ≠ .dying := alive
    cases state : th.state with
    | running => exact .inl rfl
    | blocked => exact .inr rfl
    | ready => exact absurd (ready.mp state) unready
    | dying => exact absurd state living
  case checked => exact (check_eq h).trans (if_neg asleep)

/-! ## Events that keep it out -/

/-- The idle thread that blocks is not parked: it is chosen again when nobody is ready. -/
theorem block_idle_ends (h : Orderly True P s.layout) (idle : s.current = s.idle)
    (inside : F .blockedInHandler) (on : F .blockedWithInterrupts) :
    block.Ends s (fun _ s' => Orderly True P s'.layout) fun v _ => F v := by
  obtain ⟨p, known, running, free⟩ := h.current
  by_cases outside : s.inHandler = false
  · by_cases off : s.interrupts = .off
    · have parked : ∀ x, x ∈ P ↔ if x = s.layout.current then
          s.layout.current ≠ s.layout.idle ∧ p.membership = .none else x ∈ P := by
        intro x
        have away : s.layout.current ∉ P := h.not_mem_parked known (.inl (by simp [running]))
        by_cases hx : x = s.layout.current
        · subst hx
          simpa [show s.layout.current = s.layout.idle from idle] using away
        · simp [hx]
      have asleep : ¬True → F .idleReady := fun no => absurd trivial no
      have ends := block_ends asleep h.toArranged known running outside off parked
      exact ends.imp fun _ s' elected => elected.orderly
    · unfold block
      simp only [ends_bind, ends_get, ends_ensure]
      exact ⟨fun _ => ⟨fun still => absurd still off, fun _ => on⟩, fun _ => inside⟩
  · unfold block
    simp only [ends_bind, ends_get, ends_ensure]
    exact ⟨fun still => absurd still outside, fun _ => inside⟩

/-- An event that does not queue the idle thread keeps threads in order, or stops at one of its own
assertions. -/
theorem Event.happen_spares (h : Orderly True P s.layout) (possible : e.Possible s)
    (spares : ¬e.QueuesIdle s) :
    e.happen.Ends s (fun _ s' => ∃ S, Orderly True S s'.layout) fun v _ => e.Asserts v := by
  have awake : ¬True → e.Asserts .idleReady := fun no => absurd trivial no
  have unwoken : ¬e.Unblocks s.idle := fun wakes => spares (.inl wakes)
  have unqueued : s.current = s.idle → ∀ r, e = .request r → ¬r.Queues s :=
    fun idle r same queues => spares (.inr ⟨idle, r, same, queues⟩)
  by_cases waits : e.Waits s ∧ s.current = s.idle
  · -- The general theorem has nothing on an idle thread that waits.
    obtain ⟨waits, idle⟩ := waits
    cases e with
    | enter => exact absurd waits id
    | leave level => exact absurd waits id
    | request r =>
      have unqueued := unqueued idle r rfl
      apply ends_bind.mpr
      cases r with
      | block =>
        refine ends_bind.mpr ((block_idle_ends h idle (.inl rfl) (.inr rfl)).imp ?_)
        exact fun _ s' orderly => ⟨P, orderly⟩
      | sleep ticks =>
        refine ends_bind.mpr ((sleep_ends awake h ticks (fun _ => .inl rfl) fun _ => .inr rfl).imp ?_)
        exact fun _ s' carried => ⟨P, carried.orderly⟩
      | sleepUntil tick =>
        refine ends_bind.mpr ((sleepUntil_ends awake h tick (fun _ => .inl rfl)
          fun _ => .inr rfl).imp ?_)
        exact fun _ s' carried => ⟨P, carried.orderly⟩
      | acquire lock => exact absurd waits unqueued
      | down semaphore => exact absurd waits unqueued
      | wait condvar lock => exact absurd waits unqueued
      | _ => exact absurd waits id
  · have ends := Event.happen_ends h possible (fun w idle => waits ⟨w, idle⟩)
      fun wakes => absurd wakes unwoken
    refine ends.mono (fun _ s' followed => ⟨_, followed.orderly⟩) fun v _ stopped => ?_
    exact stopped.resolve_right fun woken => woken.1 trivial

/-! ## Events that put it into a queue -/

/-- Nothing changes which thread is the idle one. -/
instance (p : Part) : Ignores Scheduler.idle p where
  same := by
    intro s s' alone
    cases p with
    | threads =>
      have same := congrArg Scheduler.idle alone.rest
      exact same
    | _ =>
      have same := congrArg Scheduler.idle alone
      exact same

/-- A request that succeeds and has the current thread wait leaves it in a queue. -/
theorem perform_queues (h : Orderly True P s.layout) (queues : r.Queues s) :
    (perform r).Ends s (fun _ s' => ∃ m, s.current ∈ s'.queue m) fun _ _ => True := by
  cases r with
  | acquire lock =>
    rw [perform]
    refine ends_lockNumbered (fun _ _ => trivial) fun exists_lock => ?_
    refine ends_bind.mpr ((acquire_untouched exists_lock).imp ?_)
    rintro a s' (⟨free, -⟩ | ⟨-, joined⟩)
    · exact absurd free queues
    · refine ⟨.lock ⟨lock⟩, ?_⟩
      have waiters := joined.lockWaiters ⟨lock⟩
      rw [Layout.setQueue_queue, Function.update_self] at waiters
      have mem : s.current ∈ s'.layout.queue (.lock ⟨lock⟩) := by
        rw [waiters]
        exact List.mem_concat_self
      exact mem
  | down semaphore =>
    rw [perform]
    refine ends_semaphoreNumbered (fun _ _ => trivial) fun within => ?_
    refine ends_bind.mpr ((down_does within).imp ?_)
    rintro a s' (⟨-, -, free, -⟩ | ⟨-, -, -, same⟩)
    · exact absurd queues (Nat.ne_of_gt free)
    · refine ⟨.semaphore ⟨semaphore⟩, ?_⟩
      change s.current ∈ (s'.semaphoreState ⟨semaphore⟩).waiters.tids
      rw [semaphoreState_of_modify within same]
      exact List.mem_concat_self
  | wait condvar lock =>
    rw [perform]
    refine ends_condvarNumbered (fun _ _ => trivial) fun exists_condvar => ?_
    refine ends_lockNumbered (fun _ _ => trivial) fun _ => ?_
    refine ends_bind.mpr ((wait_untouched h exists_condvar).imp ?_)
    rintro - s' ⟨-, L, -, lain⟩
    refine ⟨.condvar ⟨condvar⟩, ?_⟩
    have waiters := lain.condvarWaiters ⟨condvar⟩
    have mem : s.current ∈ s'.layout.queue (.condvar ⟨condvar⟩) := by
      rw [waiters]
      simp only [Layout.lie, Layout.setRelock_queue, Layout.setQueue_queue, Function.update_self]
      exact List.mem_concat_self
    exact mem
  | _ => exact absurd queues id

/-- An event that succeeds and queues the idle thread leaves it in a queue. -/
theorem Event.happen_queues (h : Orderly True P s.layout) (possible : e.Possible s)
    (queues : e.QueuesIdle s) :
    e.happen.Ends s (fun _ s' => ∃ m, s'.idle ∈ s'.queue m) fun _ _ => True := by
  have queued : e.happen.Ends s (fun _ s' => ∃ m, s.idle ∈ s'.queue m) fun _ _ => True := by
    rcases queues with wakes | ⟨idle, r, rfl, queues⟩
    · cases e with
      | enter => exact absurd wakes id
      | leave level => exact absurd wakes id
      | request r =>
        cases r with
        | unblock t =>
          obtain rfl : t = s.idle := wakes
          apply ends_bind.mpr
          apply ends_bind.mpr
          apply ends_unblock h.allowed
          case fresh => exact fun _ => h.not_mem_ready
          case absent => exact fun _ => trivial
          case busy => exact fun _ _ _ => trivial
          case queued => exact fun _ _ _ => trivial
          case next =>
            intro p s' _ _ _ woken
            refine ⟨.ready, ?_⟩
            have mem : s.idle ∈ s'.layout.queue .ready := by simp [woken, Layout.wake]
            exact mem
        | _ => exact absurd wakes id
    · rw [← idle]
      exact ends_bind.mpr ((perform_queues h queues).imp fun _ _ queued => queued)
  have same : Preserves Scheduler.idle e.happen :=
    Event.happen_preserves possible fun p _ => inferInstance
  refine ((same.ends s).and queued).mono ?_ fun _ _ _ => trivial
  rintro - s' ⟨same, m, mem⟩
  exact ⟨m, same ▸ mem⟩

end

/-! ## Runs -/

namespace Run

variable {feedback : Bool} {capacity : Nat} {allows : Scheduler → Event → Scheduler → Prop}
  {P : Set Tid} {s : Scheduler}

/-- In a run no event of which queues the idle thread, threads are in order, although the idle thread
may have blocked. -/
theorem exists_orderly (spares : IdleNeverQueued allows)
    (run : Run feedback capacity allows P s) : ∃ S, Orderly True S s.layout := by
  induction run with
  | start => exact ⟨∅, start_orderly feedback capacity True⟩
  | next _ possible succeeds allowed ih =>
    obtain ⟨S, orderly⟩ := ih
    exact (Event.happen_spares orderly possible (spares _ _ _ allowed)).of_ok succeeds

/-- In every state of a run in which the idle thread is not made ready by name and does not itself
wait for a lock, for a unit or to be signalled, it is in no queue and neither ready nor dying, the
check passes, and the next event stops for no other reasons than those its callers promise to
avoid. The two exceptions are exact: the next event, if it succeeds, leaves the idle thread at rest
unless it is one of them. -/
theorem idle_rests (spares : IdleNeverQueued allows)
    (run : Run feedback capacity allows P s) :
    s.IdleRests ∧ ∀ e : Event, e.Possible s →
      (¬e.QueuesIdle s → ∀ v, (e.happen s).result = .error v → e.Asserts v) ∧
      ((e.happen s).result = .ok () → ((e.happen s).state.IdleRests ↔ ¬e.QueuesIdle s)) := by
  obtain ⟨S, orderly⟩ := run.exists_orderly spares
  refine ⟨.of_orderly orderly, fun e possible => ⟨fun spared v stops => ?_, fun succeeds => ?_⟩⟩
  · exact (Event.happen_spares orderly possible spared).of_error stops
  · constructor
    · intro rests queues
      obtain ⟨m, mem⟩ := (Event.happen_queues orderly possible queues).of_ok succeeds
      exact rests.unqueued m mem
    · intro spared
      obtain ⟨S', orderly'⟩ := (Event.happen_spares orderly possible spared).of_ok succeeds
      exact .of_orderly orderly'

end Run

private def Sparing (s : Scheduler) (e : Event) (_ : Scheduler) : Prop := ¬e.QueuesIdle s

private theorem sparing_request {s s' : Scheduler} {r : Request}
    (unwoken : ¬(Event.request r).Unblocks s.idle) (free : s.current = s.idle → ¬r.Queues s) :
    Sparing s (.request r) s' := by
  rintro (wakes | ⟨idle, r', same, queues⟩)
  · exact unwoken wakes
  · obtain rfl := Event.request.inj same
    exact free idle queues

/-- The first thread waits for a unit, so that the idle thread runs; it blocks, for no use, and gives
a unit. -/
private def staged : Scheduler :=
  ((Event.request (.newSemaphore 0)).happen (Scheduler.start false 4)).state

private def deserted : Scheduler := ((Event.request (.down 0)).happen staged).state

private def hushed : Scheduler := ((Event.request .disableInterrupts).happen deserted).state

private def halted : Scheduler := ((Event.request .block).happen hushed).state

private def resupplied : Scheduler := ((Event.request (.up 0)).happen halted).state

/-- The idle thread rests whatever it has done, until somebody makes it ready by name. -/
theorem Run.idle_rests_relieved :
    halted.current = halted.idle ∧ resupplied.current = 1 ∧ resupplied.IdleRests ∧
      ¬((Event.request (.unblock 2)).happen resupplied).state.IdleRests := by
  have run : Run false 4 Sparing (insert hushed.current ∅) resupplied := by
    have run₁ : Run false 4 Sparing ∅ staged :=
      Run.start.next (e := .request (.newSemaphore 0)) trivial rfl (sparing_request id fun _ => id)
    have run₂ : Run false 4 Sparing ∅ deserted :=
      run₁.next (e := .request (.down 0)) trivial rfl
        (sparing_request id fun idle => absurd idle (by decide))
    have run₃ : Run false 4 Sparing ∅ hushed :=
      run₂.next (e := .request .disableInterrupts) trivial rfl (sparing_request id fun _ => id)
    have run₄ : Run false 4 Sparing (insert hushed.current ∅) halted :=
      run₃.next (e := .request .block) trivial rfl (sparing_request id fun _ => id)
    exact run₄.next (e := .request (.up 0)) trivial rfl (sparing_request id fun _ => id)
  obtain ⟨rests, next⟩ := Run.idle_rests (fun _ _ _ allowed => allowed) run
  obtain ⟨-, exactly⟩ := next (.request (.unblock 2)) trivial
  exact ⟨rfl, rfl, rests, fun still => (exactly rfl).mp still (.inl rfl)⟩

/-- Somebody makes the idle thread ready by name while it is blocked. -/
def roused : Scheduler := ((Event.request (.unblock 2)).happen (Scheduler.start false 4)).state

theorem roused_run : Run false 4 (fun _ _ _ => True) (∅ \ {2}) roused :=
  Run.start.next (e := .request (.unblock 2)) trivial rfl trivial

/-- Nothing is asserted against making the idle thread ready, after which it is in the ready queue and
the check fails, nor against its waiting for a unit, which stops at the check. -/
theorem idle_queued_unasserted :
    Run false 4 (fun _ _ _ => True) (∅ \ {2}) roused ∧ roused.idle ∈ roused.queue .ready ∧
      roused.check = .error .idleReady ∧
    Run false 4 (fun _ _ _ => True) ∅ deserted ∧ deserted.current = deserted.idle ∧
      ((Event.request (.down 0)).happen deserted).result = .error (.wrongMembership 2) := by
  have leaves : Run false 4 (fun _ _ _ => True) ∅ deserted :=
    Run.next (e := .request (.down 0))
      (Run.start.next (e := .request (.newSemaphore 0)) trivial rfl trivial) trivial rfl trivial
  exact ⟨roused_run, by decide, rfl, leaves, rfl, rfl⟩

end KernelCore.Scheduler
