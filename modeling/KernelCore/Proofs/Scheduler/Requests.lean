import KernelCore.Proofs.Scheduler.Lifetimes
import KernelCore.Scheduler.Request

/-!
# Requests and handlers as events

What happens to the scheduler is a sequence of events: a request is made, a handler begins, or it
returns. A handler's requests are events of their own, so whatever is proved of every state of a
run is proved of the states a handler goes through as well.
-/
namespace KernelCore.Scheduler

open Transition

inductive Event where
  | request (r : Request)
  | enter
  | leave (level : InterruptLevel)

/-- What an event does. -/
def Event.happen : Event → Scheduling Unit
  | .request r => do
    let _ ← perform r
  | .enter => do
    let _ ← enterHandler
  | .leave level => leaveHandler level

/-- A whole external interrupt is no event but a sequence of them, and only a handler returns. The
numbers of threads are not used up: whoever spawns a thread that there is room for finds one. -/
def Event.Possible (s : Scheduler) : Event → Prop
  | .request (.interrupt _) => False
  | .request (.spawn _ _ _ _) => s.NumbersLeft
  | .leave _ => s.inHandler = true
  | _ => True

/-- The current thread waits if the request is carried out. -/
def Request.Waits (s : Scheduler) : Request → Prop
  | .block | .wait _ _ => True
  | .sleep ticks => 0 < ticks
  | .sleepUntil wakeTick => s.ticks < wakeTick
  | .acquire lock => s.holder ⟨lock⟩ ≠ none
  | .down semaphore => (s.semaphoreState ⟨semaphore⟩).value = 0
  | _ => False

def Event.Waits (s : Scheduler) : Event → Prop
  | .request r => r.Waits s
  | _ => False

/-- The event makes a named thread ready without regard to its priority. -/
def Event.Unblocks (t : Tid) : Event → Prop
  | .request (.unblock u) => u = t
  | _ => False

/-- The threads that have blocked without entering a queue and have not been made ready since. -/
def Event.parks (s : Scheduler) (parked : Set Tid) : Event → Set Tid
  | .request .block => insert s.current parked
  | .request (.unblock t) => parked \ {t}
  | _ => parked

/-- What a request asserts: its callers promise that it does not stop for any of these reasons. -/
def Request.Asserts (v : Violation) : Request → Prop
  | .spawn _ _ _ _ | .setNice _ => ∃ fault, v = .arithmetic fault
  | .tick _ => v = .nestedInterrupt ∨ ∃ fault, v = .arithmetic fault
  | .block => v = .blockedInHandler ∨ v = .blockedWithInterrupts
  | .unblock t => v = .noSuchThread t ∨ v = .unblockedUnblocked t ∨ v = .unblockedQueued t
  | .yield => v = .yieldedInHandler
  | .exit _ => v = .exitedInHandler ∨ v = .idleExited
  | .sleep _ | .sleepUntil _ => v = .sleptInHandler ∨ v = .idleSlept
  | .enableInterrupts | .setInterrupts .on => v = .enabledInHandler
  | .tryAcquire _ | .holds _ | .tryDown _ => ∃ count index, v = .noSuchHandle count index
  | .acquire _ =>
    (∃ count index, v = .noSuchHandle count index) ∨ v = .acquiredInHandler ∨ ∃ t, v = .acquiredTwice t
  | .release _ => (∃ count index, v = .noSuchHandle count index) ∨ ∃ t, v = .releasedByOther t
  | .down _ => (∃ count index, v = .noSuchHandle count index) ∨ v = .downInHandler
  | .up _ => (∃ count index, v = .noSuchHandle count index) ∨ v = .arithmetic .addition
  | .wait _ _ =>
    (∃ count index, v = .noSuchHandle count index) ∨ v = .waitedInHandler ∨ v = .waitedWithoutLock
  | .signal _ _ | .broadcast _ _ =>
    (∃ count index, v = .noSuchHandle count index) ∨ v = .signalledWithoutLock ∨ ∃ t, v = .otherLock t
  | _ => False

def Event.Asserts (v : Violation) : Event → Prop
  | .request r => r.Asserts v
  | .enter => v = .nestedInterrupt
  | .leave _ => False

/-- An event has left threads in order and priorities as they should be, and unless it made a
thread ready by name, the right thread runs. -/
structure Followed (R : Prop) (P : Set Tid) (e : Event) (s s' : Scheduler) : Prop where
  orderly : Orderly R (e.parks s P) s'.layout
  feedback : s'.feedback = s.feedback
  inHandler : ∀ r, e = .request r → s'.inHandler = s.inHandler
  backed : s.feedback = false → s.layout.Backed → s'.layout.Backed
  exact : s.feedback = false → s.layout.Exact → s'.layout.WellChained → s'.layout.Exact
  led : R → (∀ t, ¬e.Unblocks t) → (s.feedback = false → s.layout.Backed) → s.layout.Led →
    s'.layout.Led

variable {R : Prop} {P : Set Tid} {s : Scheduler} {e : Event} {F : Violation → Prop}

theorem Performed.followed {s' : Scheduler} (h : Performed R P s.layout s')
    (parks : e.parks s P = P) : Followed R P e s s' where
  orderly := by
    rw [parks]
    exact h.orderly
  feedback := h.upholds.feedback
  inHandler _ _ := h.upholds.inHandler
  backed := h.upholds.backed
  exact := h.upholds.exact
  led r _ := h.led r

theorem Carried.followed {s' : Scheduler} (h : Carried R P s.layout s') (parks : e.parks s P = P) :
    Followed R P e s s' :=
  h.performed.followed parks

/-! ## Requests that concern one thread -/

section

variable {α : Type} {Q : α → Scheduler → Prop} {n : Nat}

/-- A lock that is named by its number has to exist. -/
theorem ends_lockNumbered {rest : LockId → Scheduling α}
    (absent : ∀ count index, F (.noSuchHandle count index))
    (found : n < s.layout.locks → (rest ⟨n⟩).Ends s Q fun v _ => F v) :
    (lockNumbered n >>= rest).Ends s Q fun v _ => F v := by
  unfold lockNumbered
  simp only [ends_bind, ends_get, ends_ensure, ends_pure]
  exact ⟨found, fun _ => absent _ _⟩

theorem ends_semaphoreNumbered {rest : SemaphoreId → Scheduling α}
    (absent : ∀ count index, F (.noSuchHandle count index))
    (found : n < s.layout.semaphores → (rest ⟨n⟩).Ends s Q fun v _ => F v) :
    (semaphoreNumbered n >>= rest).Ends s Q fun v _ => F v := by
  unfold semaphoreNumbered
  simp only [ends_bind, ends_get, ends_ensure, ends_pure]
  exact ⟨found, fun _ => absent _ _⟩

theorem ends_condvarNumbered {rest : CondvarId → Scheduling α}
    (absent : ∀ count index, F (.noSuchHandle count index))
    (found : n < s.layout.condvars → (rest ⟨n⟩).Ends s Q fun v _ => F v) :
    (condvarNumbered n >>= rest).Ends s Q fun v _ => F v := by
  unfold condvarNumbered
  simp only [ends_bind, ends_get, ends_ensure, ends_pure]
  exact ⟨found, fun _ => absent _ _⟩

end

variable (awake : ¬R → F .idleReady)

include awake in
/-- The current thread blocks in no queue, and is parked. -/
theorem block_request_ends (h : Orderly R P s.layout) (busy : s.layout.current ≠ s.layout.idle)
    (inside : s.layout.inHandler = true → F .blockedInHandler)
    (on : s.layout.interrupts ≠ .off → F .blockedWithInterrupts) :
    block.Ends s (fun _ s' => Elected R (insert s.layout.current P) s.layout s')
      fun v _ => F v := by
  obtain ⟨p, known, running, free⟩ := h.current
  by_cases outside : s.inHandler = false
  · by_cases off : s.interrupts = .off
    · apply block_ends awake h.toArranged known running outside off
      intro x
      by_cases hx : x = s.layout.current <;> simp [hx, busy, free]
    · unfold block
      rw [ends_bind, ends_get, ends_bind, ends_ensure]
      refine ⟨fun _ => ?_, fun handler => absurd outside handler⟩
      rw [ends_bind, ends_ensure]
      exact ⟨fun still => absurd still off, on⟩
  · unfold block
    rw [ends_bind, ends_get, ends_bind, ends_ensure]
    exact ⟨fun still => absurd still outside, fun handler => inside ((Bool.not_eq_false _).mp handler)⟩

theorem unblock_request_ends {t : Tid} (h : Orderly R P s.layout) (idle : t = s.layout.idle → ¬R)
    (absent : F (.noSuchThread t)) (busy : F (.unblockedUnblocked t))
    (queued : F (.unblockedQueued t)) :
    (unblock t).Ends s (fun _ s' => Orderly R (P \ {t}) s'.layout ∧ s.layout.Calm s'.layout)
      fun v _ => F v := by
  apply ends_unblock h.allowed
  case fresh => exact fun _ => h.not_mem_ready
  case absent => exact fun _ => absent
  case busy => exact fun _ _ _ => busy
  case queued => exact fun _ _ _ => queued
  case next =>
    intro p s' known blocked free h'
    obtain ⟨q, current, running, freeq⟩ := h.current
    have other : s.layout.current ≠ t := by
      rintro rfl
      obtain rfl := Option.some.inj (known.symm.trans current)
      simp [blocked] at running
    refine ⟨{ h' ▸ h.wake known free (by simp [blocked]) idle with
      current := ⟨q, ?_, running, freeq⟩ }, h' ▸ .wake known⟩
    rw [h']
    simpa [Layout.wake, other] using current

include awake in
theorem yield_request_ends (h : Orderly R P s.layout)
    (inside : s.layout.inHandler = true → F .yieldedInHandler) :
    yield.Ends s (fun _ s' => Carried R P s.layout s') fun v _ => F v := by
  by_cases outside : s.inHandler = false
  · exact (yield_ends awake h outside).imp fun _ _ elected => elected.attended.carried
  · unfold yield
    rw [ends_bind, ends_get, ends_bind, ends_ensure]
    exact ⟨fun still => absurd still outside, fun handler => inside ((Bool.not_eq_false _).mp handler)⟩

theorem setInterrupts_request_ends (h : Orderly R P s.layout) (level : InterruptLevel)
    (inside : level = .on → F .enabledInHandler) :
    (setInterrupts level).Ends s (fun _ s' => Carried R P s.layout s') fun v _ => F v := by
  by_cases allowed : level = .on → s.layout.inHandler = false
  · exact (setInterrupts_ends h allowed).imp fun _ _ rested => rested.carried
  · obtain ⟨rfl, handler⟩ := Classical.not_imp.mp allowed
    simp only [setInterrupts, enableInterrupts, ends_bind, ends_get, ends_ensure]
    exact ⟨fun outside => absurd outside handler, fun _ => inside rfl⟩

/-- A new lock, semaphore or condition variable has no waiters. -/
structure Grown (s s' : Scheduler) : Prop where
  same : ∃ locks semaphores condvars, s'.layout = { s.layout with locks, semaphores, condvars }

theorem Grown.carried {s' : Scheduler} (h : Orderly R P s.layout) (grown : Grown s s') :
    Carried R P s.layout s' := by
  obtain ⟨locks, semaphores, condvars, same⟩ := grown
  refine ⟨⟨same ▸ { h with }, ?_⟩, fun _ _ led => ?_⟩
  · have calm : s.layout.Calm s'.layout := same ▸ .of_same rfl rfl rfl rfl rfl
    exact calm.keeps
  · have quiet : s.layout.Quiet s'.layout := same ▸ .of_same rfl rfl rfl rfl rfl rfl
    exact quiet.led led

private theorem getD_append {α : Type} [Inhabited α] (xs : List α) (a : α) (i : Nat) :
    (xs ++ [a])[i]?.getD default = if i = xs.length then a else xs[i]?.getD default := by
  rcases Nat.lt_trichotomy i xs.length with lt | rfl | gt
  · rw [List.getElem?_append_left lt, if_neg (by omega)]
  · simp
  · rw [if_neg (by omega), List.getElem?_eq_none (by simp; omega), List.getElem?_eq_none (by omega)]

theorem newLock_grown : newLock.Ends s (fun _ s' => Grown s s') fun v _ => F v := by
  unfold newLock
  rw [ends_modifyGet]
  have state : ∀ l, ({ s with locks := s.locks ++ [⟨none, .empty⟩] } : Scheduler).lockState l =
      s.lockState l := by
    intro l
    unfold lockState
    rw [getD_append]
    split
    · rename_i last
      simp [last, default]
    · rfl
  refine ⟨s.locks.length + 1, s.semaphores.length, s.condvars.length, ?_⟩
  ext1 <;> try rfl
  · funext m
    cases m <;> simp [layout, queue, state, semaphoreState, condvarState]
  · funext l
    simp [layout, holder, state]
  · simp [layout]

theorem newSemaphore_grown (value : Nat) :
    (newSemaphore value).Ends s (fun _ s' => Grown s s') fun v _ => F v := by
  unfold newSemaphore
  rw [ends_modifyGet]
  have waiters : ∀ i, (({ s with semaphores := s.semaphores ++ [⟨value, .empty⟩] } :
      Scheduler).semaphoreState i).waiters = (s.semaphoreState i).waiters := by
    intro i
    unfold semaphoreState
    rw [getD_append]
    split
    · rename_i last
      simp [last, default]
    · rfl
  refine ⟨s.locks.length, s.semaphores.length + 1, s.condvars.length, ?_⟩
  ext1 <;> try rfl
  · funext m
    cases m <;> simp [layout, queue, waiters, lockState, condvarState]
  · simp [layout]

theorem newCondvar_grown : newCondvar.Ends s (fun _ s' => Grown s s') fun v _ => F v := by
  unfold newCondvar
  rw [ends_modifyGet]
  have state : ∀ c, ({ s with condvars := s.condvars ++ [⟨.empty, .empty⟩] } :
      Scheduler).condvarState c = s.condvarState c := by
    intro c
    unfold condvarState
    rw [getD_append]
    split
    · rename_i last
      simp [last, default]
    · rfl
  refine ⟨s.locks.length, s.semaphores.length, s.condvars.length + 1, ?_⟩
  ext1 <;> try rfl
  · funext m
    cases m <;> simp [layout, queue, state, lockState, semaphoreState]
  · funext c
    simp [layout, state]
  · simp [layout]

theorem tryDown_ends {i : SemaphoreId} (h : Orderly R P s.layout)
    (exists_semaphore : i.index < s.layout.semaphores) :
    (tryDown i).Ends s (fun _ s' => Carried R P s.layout s') fun v _ => F v := by
  unfold tryDown
  rw [ends_bind, ends_get, ends_bind]
  apply ends_disableInterrupts
  intro s₁ h₁
  have begun : Rested R P s.layout s₁ := .off h h₁
  by_cases free : 0 < (s.semaphoreState i).value
  · rw [if_pos free, ends_bind]
    apply ends_updateSemaphore (h₁ ▸ exists_semaphore)
    intro s₂ h₂
    have same : s₂.layout = s₁.layout := h₂.trans (s₁.layout.setQueue_self _)
    have rested₂ : Rested R P s.layout s₂ :=
      ⟨⟨same ▸ begun.orderly, same ▸ begun.calm⟩, same ▸ begun.quiet⟩
    exact rested₂.carried.close h _
  · rw [if_neg free]
    exact begun.carried.close h _

theorem setSpace_ends {t : Tid} (space : Option SpaceId) :
    (setSpace t space).Ends s (fun _ s' => s'.layout = s.layout) fun v _ => F v := by
  unfold setSpace
  rw [ends_bind, ends_get]
  cases found : s.thread? t with
  | none => rfl
  | some th =>
    dsimp only
    rw [ends_bind]
    exact ends_updateThread_other found rfl rfl fun _ same => same

theorem summarize_ends (h : Orderly R P s.layout) :
    summarize.Ends s (fun _ s' => s' = s) fun v _ => F v := by
  obtain ⟨p, known, -⟩ := h.current
  obtain ⟨th, found, -⟩ := exists_thread (t := s.current) known
  simp only [summarize, currentThread, recentPercent, ends_bind, ends_get, ends_thread found,
    ends_pure]

include awake in
theorem ticks_ends (h : Orderly R P s.layout) (count : Nat)
    (faults : ∀ fault, F (.arithmetic fault)) (nested : F .nestedInterrupt) :
    (times count timerInterrupt).Ends s (fun _ s' => Carried R P s.layout s') fun v _ => F v := by
  apply ends_times (I := fun _ s' => Carried R P s.layout s')
  · intro _ s₁ carried
    refine (timerInterrupt_ends awake faults carried.orderly fun _ => nested).imp ?_
    exact fun _ s₂ carried₂ => carried.trans carried₂
  · exact .refl h

/-! ## All requests -/

/-- A request that leaves the layout as it was. -/
theorem Carried.of_same {s' : Scheduler} (h : Orderly R P s.layout) (same : s'.layout = s.layout) :
    Carried R P s.layout s' :=
  same ▸ .refl (same ▸ h)

/-- The request is carried out, or stops at one of its own assertions. -/
def Request.Obeyed (R : Prop) (P : Set Tid) (s : Scheduler) (r : Request) : Prop :=
  (perform r).Ends s (fun _ s' => Followed R P (.request r) s s')
    fun v _ => r.Asserts v ∨ ¬R ∧ v = .idleReady

/-- The answer to a request changes nothing any more. -/
theorem ends_answer {α : Type} {u : Scheduling α} {answer : α → Reply}
    (ends : u.Ends s (fun _ s' => Carried R P s.layout s') fun v _ => F v)
    (parks : e.parks s P = P) :
    (u >>= fun a => pure (answer a)).Ends s (fun _ s' => Followed R P e s s') fun v _ => F v :=
  ends_bind.mpr (ends.imp fun _ _ carried => carried.followed parks)

section

variable {r : Request} {lock semaphore condvar : Nat}

/-- The idle thread is in the ready queue, which is not held against a request. -/
theorem Request.stops_awake : ¬R → r.Asserts .idleReady ∨ ¬R ∧ Violation.idleReady = .idleReady :=
  fun unrested => .inr ⟨unrested, rfl⟩

theorem obeyed_block (h : Orderly R P s.layout) (busy : s.layout.current ≠ s.layout.idle) :
    Request.block.Obeyed R P s := by
  refine ends_bind.mpr ((block_request_ends Request.stops_awake h busy (fun _ => .inl (.inl rfl))
    fun _ => .inl (.inr rfl)).imp ?_)
  rintro - s' ⟨⟨orderly, calm⟩, top⟩
  exact ⟨orderly, calm.feedback, fun _ _ => calm.inHandler, calm.backed,
    fun priorities exact _ => calm.exact priorities exact, fun r _ _ _ => .inl (top r)⟩

theorem obeyed_unblock {t : Tid} (h : Orderly R P s.layout) (idle : t = s.layout.idle → ¬R) :
    (Request.unblock t).Obeyed R P s := by
  refine ends_bind.mpr ((unblock_request_ends h idle (.inl (.inl rfl)) (.inl (.inr (.inl rfl)))
    (.inl (.inr (.inr rfl)))).imp ?_)
  rintro - s' ⟨orderly, calm⟩
  exact ⟨orderly, calm.feedback, fun _ _ => calm.inHandler, calm.backed,
    fun priorities exact _ => calm.exact priorities exact, fun _ other => absurd rfl (other t)⟩

theorem obeyed_setInterrupts (h : Orderly R P s.layout) (level : InterruptLevel) :
    (Request.setInterrupts level).Obeyed R P s := by
  refine ends_answer (setInterrupts_request_ends h level ?_) rfl
  rintro rfl
  exact .inl rfl

theorem obeyed_spawn {name : String} {priority : Int} {space : Option SpaceId} {argument : Nat}
    (h : Orderly R P s.layout) (left : s.NumbersLeft) :
    (Request.spawn name priority space argument).Obeyed R P s := by
  refine ends_bind.mpr ((spawn_ends Request.stops_awake h left name priority argument space).imp ?_)
  rintro (e | t) s' carried <;> exact carried.followed rfl

theorem obeyed_setSpace {t : Tid} {space : Option SpaceId} (h : Orderly R P s.layout) :
    (Request.setSpace t space).Obeyed R P s := by
  refine ends_bind.mpr ((setSpace_ends space).imp ?_)
  rintro (e | u) s' same <;> exact (Carried.of_same h same).followed rfl

/-- A request that only looks is carried out. -/
theorem obeyed_gets {reply : Scheduler → Reply} (h : Orderly R P s.layout)
    (looks : perform r = gets reply) (parks : (Event.request r).parks s P = P) :
    r.Obeyed R P s := by
  rw [Request.Obeyed, looks, ends_gets]
  exact (Carried.refl h).followed parks

/-! ### Locks -/

theorem obeyed_acquire (h : Orderly R P s.layout)
    (busy : s.holder ⟨lock⟩ ≠ none → s.layout.current ≠ s.layout.idle) :
    (Request.acquire lock).Obeyed R P s := by
  refine ends_lockNumbered (fun count index => .inl (.inl ⟨count, index, rfl⟩))
    fun exists_lock => ?_
  rw [ends_bind]
  refine (acquire_ends Request.stops_awake h exists_lock busy (fun _ => .inl (.inr (.inl rfl)))
    fun _ => .inl (.inr (.inr ⟨_, rfl⟩))).imp ?_
  exact fun _ s' performed => performed.followed rfl

theorem obeyed_tryAcquire (h : Orderly R P s.layout) : (Request.tryAcquire lock).Obeyed R P s := by
  refine ends_lockNumbered (fun count index => .inl ⟨count, index, rfl⟩) fun exists_lock => ?_
  exact ends_answer (tryAcquire_ends h exists_lock) rfl

theorem obeyed_release (h : Orderly R P s.layout) : (Request.release lock).Obeyed R P s := by
  refine ends_lockNumbered (fun count index => .inl (.inl ⟨count, index, rfl⟩)) fun _ => ?_
  exact ends_answer (release_ends Request.stops_awake h fun _ => .inl (.inr ⟨_, rfl⟩)) rfl

theorem obeyed_holds (h : Orderly R P s.layout) : (Request.holds lock).Obeyed R P s := by
  refine ends_lockNumbered (fun count index => .inl ⟨count, index, rfl⟩) fun _ => ?_
  exact (Carried.refl h).followed rfl

/-! ### Semaphores -/

theorem obeyed_down (h : Orderly R P s.layout)
    (busy : (s.semaphoreState ⟨semaphore⟩).value = 0 → s.layout.current ≠ s.layout.idle) :
    (Request.down semaphore).Obeyed R P s := by
  refine ends_semaphoreNumbered (fun count index => .inl (.inl ⟨count, index, rfl⟩))
    fun exists_semaphore => ?_
  exact ends_answer (down_ends Request.stops_awake h exists_semaphore busy
    fun _ => .inl (.inr rfl)) rfl

theorem obeyed_tryDown (h : Orderly R P s.layout) : (Request.tryDown semaphore).Obeyed R P s := by
  refine ends_semaphoreNumbered (fun count index => .inl ⟨count, index, rfl⟩)
    fun exists_semaphore => ?_
  exact ends_answer (tryDown_ends h exists_semaphore) rfl

theorem obeyed_up (h : Orderly R P s.layout) : (Request.up semaphore).Obeyed R P s := by
  refine ends_semaphoreNumbered (fun count index => .inl (.inl ⟨count, index, rfl⟩))
    fun exists_semaphore => ?_
  exact ends_answer (up_ends Request.stops_awake h (fun _ => .inl (.inr rfl)) exists_semaphore) rfl

/-! ### Condition variables -/

theorem obeyed_wait (h : Orderly R P s.layout) (busy : s.layout.current ≠ s.layout.idle) :
    (Request.wait condvar lock).Obeyed R P s := by
  refine ends_condvarNumbered (fun count index => .inl (.inl ⟨count, index, rfl⟩))
    fun exists_condvar => ?_
  refine ends_lockNumbered (fun count index => .inl (.inl ⟨count, index, rfl⟩)) fun _ => ?_
  exact ends_answer (wait_ends Request.stops_awake h exists_condvar busy
    (fun _ => .inl (.inr (.inl rfl))) fun _ => .inl (.inr (.inr rfl))) rfl

theorem obeyed_signal (h : Orderly R P s.layout) : (Request.signal condvar lock).Obeyed R P s := by
  refine ends_condvarNumbered (fun count index => .inl (.inl ⟨count, index, rfl⟩)) fun _ => ?_
  refine ends_lockNumbered (fun count index => .inl (.inl ⟨count, index, rfl⟩)) fun _ => ?_
  exact ends_answer (signal_ends h (fun w _ _ _ _ => .inl (.inr (.inr ⟨w, rfl⟩)))
    fun _ => .inl (.inr (.inl rfl))) rfl

theorem obeyed_broadcast (h : Orderly R P s.layout) :
    (Request.broadcast condvar lock).Obeyed R P s := by
  refine ends_condvarNumbered (fun count index => .inl (.inl ⟨count, index, rfl⟩)) fun _ => ?_
  refine ends_lockNumbered (fun count index => .inl (.inl ⟨count, index, rfl⟩)) fun _ => ?_
  exact ends_answer (broadcast_ends h (fun w => .inl (.inr (.inr ⟨w, rfl⟩)))
    (.inl (.inr (.inl rfl)))) rfl

end

/-- A request is carried out, or stops at one of its own assertions. -/
theorem perform_ends {r : Request} (h : Orderly R P s.layout)
    (possible : Event.Possible s (.request r)) (busy : r.Waits s → s.layout.current ≠ s.layout.idle)
    (rests : r = .unblock s.layout.idle → ¬R) :
    (perform r).Ends s (fun _ s' => Followed R P (.request r) s s')
      fun v _ => r.Asserts v ∨ ¬R ∧ v = .idleReady := by
  have awake : ¬R → r.Asserts .idleReady ∨ ¬R ∧ Violation.idleReady = .idleReady :=
    Request.stops_awake
  cases r with
  | interrupt handler => exact absurd possible id
  | block => exact obeyed_block h (busy trivial)
  | unblock t => exact obeyed_unblock h fun idle => rests (idle ▸ rfl)
  | acquire lock => exact obeyed_acquire h busy
  | tryAcquire lock => exact obeyed_tryAcquire h
  | release lock => exact obeyed_release h
  | holds lock => exact obeyed_holds h
  | down semaphore => exact obeyed_down h busy
  | tryDown semaphore => exact obeyed_tryDown h
  | up semaphore => exact obeyed_up h
  | wait condvar lock => exact obeyed_wait h (busy trivial)
  | signal condvar lock => exact obeyed_signal h
  | broadcast condvar lock => exact obeyed_broadcast h
  | setInterrupts level => exact obeyed_setInterrupts h level
  | enableInterrupts => exact ends_answer (setInterrupts_request_ends h .on fun _ => .inl rfl) rfl
  | disableInterrupts =>
    exact ends_answer (ends_disableInterrupts fun _ off => (Rested.off h off).carried) rfl
  | spawn name priority space argument => exact obeyed_spawn h possible
  | setSpace t space => exact obeyed_setSpace h
  | tick count =>
    exact ends_answer (ticks_ends awake h count (fun fault => .inl (.inr ⟨fault, rfl⟩))
      (.inl (.inl rfl))) rfl
  | yield => exact ends_answer (yield_request_ends awake h fun _ => .inl rfl) rfl
  | exit status =>
    exact ends_answer (exit_ends awake h status (fun _ => .inl (.inl rfl))
      fun _ => .inl (.inr rfl)) rfl
  | preemptCheck =>
    exact ends_answer ((preemptCheck_ends awake h).imp fun _ _ attended => attended.carried) rfl
  | sleep ticks =>
    exact ends_answer (sleep_ends awake h ticks (fun _ => .inl (.inl rfl))
      fun _ => .inl (.inr rfl)) rfl
  | sleepUntil tick =>
    exact ends_answer (sleepUntil_ends awake h tick (fun _ => .inl (.inl rfl))
      fun _ => .inl (.inr rfl)) rfl
  | setPriority priority => exact ends_answer (setPriority_ends awake h priority) rfl
  | setNice nice => exact ends_answer (setNice_ends awake h nice) rfl
  | query =>
    exact ends_answer ((summarize_ends h).imp fun _ _ same => .of_same h (congrArg layout same)) rfl
  | check =>
    exact ends_answer ((assertConsistent_ends awake h).imp fun _ _ same =>
      .of_same h (congrArg layout same)) rfl
  | newLock => exact ends_answer (newLock_grown.imp fun _ _ grown => grown.carried h) rfl
  | newSemaphore value =>
    exact ends_answer ((newSemaphore_grown value).imp fun _ _ grown => grown.carried h) rfl
  | newCondvar => exact ends_answer (newCondvar_grown.imp fun _ _ grown => grown.carried h) rfl
  | elapsed since => exact obeyed_gets h rfl rfl
  | exitStatus t => exact obeyed_gets h rfl rfl
  | describe t => exact obeyed_gets h rfl rfl
  | logTickCounts => exact (Carried.refl h).followed rfl

/-- Every event keeps threads in order, or stops at one of its own assertions. -/
theorem Event.happen_ends (h : Orderly R P s.layout) (possible : e.Possible s)
    (busy : e.Waits s → s.layout.current ≠ s.layout.idle)
    (rests : e.Unblocks s.layout.idle → ¬R) :
    e.happen.Ends s (fun _ s' => Followed R P e s s') fun v _ => e.Asserts v ∨ ¬R ∧ v = .idleReady := by
  cases e with
  | request r =>
    apply ends_bind.mpr
    exact (perform_ends h possible busy fun idle => rests (idle ▸ rfl)).imp fun _ _ followed => followed
  | enter =>
    apply ends_bind.mpr
    refine (enterHandler_ends fun _ => .inl rfl).imp ?_
    rintro level s' ⟨outside, -, h'⟩
    refine ⟨h' ▸ { h with handler := fun _ => rfl }, ?_, by simp, ?_, ?_, ?_⟩
    · exact congrArg Layout.feedback h'
    · exact fun _ backed => h' ▸ backed.of_same rfl rfl rfl
    · exact fun _ exact _ => h' ▸ exact.of_same rfl rfl rfl
    · intro _ _ _ led
      have top : s.layout.Top := led.resolve_right fun inside => by simp [outside] at inside
      exact h' ▸ .inl ⟨top.le, top.idle⟩
  | leave level =>
    refine (leaveHandler_ends (fun unrested => .inr ⟨unrested, rfl⟩) h level).imp ?_
    rintro - s' ⟨⟨orderly, keeps⟩, top⟩
    refine ⟨orderly, keeps.feedback, by simp, ?_, ?_, fun r _ _ led => .inl (top r led)⟩
    · exact fun priorities backed => keeps.backed priorities (backed.of_same rfl rfl rfl)
    · exact fun priorities exact _ => keeps.exact priorities (exact.of_same rfl rfl rfl)

end KernelCore.Scheduler
