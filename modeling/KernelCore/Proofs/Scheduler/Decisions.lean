import KernelCore.Proofs.Scheduler.Parts

/-!
# Decisions

A decision of the scheduler reclaims the threads that have exited and were left by earlier switches,
takes the next thread out of the ready queue, and makes it the current one. All it does is stated
here once.
-/
namespace KernelCore.Scheduler

open Transition

/-- What a decision does. Its outcome is the thread that runs afterwards. -/
structure Decision (s s' : Scheduler) : Prop where
  rest : s' =
    { s with
      threads := s'.threads
      current := s'.current
      ready := s'.ready
      dying := s'.dying
      sliceTicks := 0
      switches := s'.switches }
  check : s'.check = .ok ()
  /-- The idle thread runs if no thread is ready. -/
  next : s'.current ∈ s.ready.tids ∨ s.ready.tids = [] ∧ s'.current = s.idle
  ready : s'.ready.tids = s.ready.tids.erase s'.current
  reclaimed : ∀ t ∈ s.dying, s'.thread? t = none
  chosen : ∃ th, s.thread? s'.current = some th ∧
    s'.thread? s'.current = some { th with state := .running, membership := .none }
  others : ∀ t, t ∉ s.dying → t ≠ s'.current → s'.thread? t = s.thread? t
  stayed : s'.current = s.current → s'.dying = [] ∧ s'.switches = s.switches
  /-- The thread that is left is still there, and waits to be reclaimed if it has exited. -/
  left : s'.current ≠ s.current → s'.switches = s.switches + 1 ∧ s.current ∉ s.dying ∧
    ∃ last, s.thread? s.current = some last ∧
      s'.dying = if last.state = .dying ∧ s.current ≠ s.main then [s.current] else []

section

variable {s : Scheduler} {t : Tid}

theorem reclaim_decides :
    (reclaim t).Ends s (fun _ s' => s' = { s with threads := s'.threads } ∧
      ∀ x, s'.thread? x = if x = t then none else s.thread? x) fun _ _ => True := by
  unfold reclaim
  rw [ends_bind, ends_get]
  cases known : s.thread? t with
  | none =>
    dsimp only
    rw [ends_pure]
    refine ⟨rfl, fun x => ?_⟩
    by_cases own : x = t
    · rw [if_pos own, own, known]
    · rw [if_neg own]
  | some th => exact ⟨rfl, fun x => s.threads.find?_erase t x⟩

theorem reclaimList_decides (gone : List Tid) (s : Scheduler) :
    (forAll reclaim gone).Ends s (fun _ s' => s' = { s with threads := s'.threads } ∧
      ∀ x, s'.thread? x = if x ∈ gone then none else s.thread? x) fun _ _ => True := by
  induction gone generalizing s with
  | nil =>
    rw [forAll_nil, ends_transition_pure]
    exact ⟨rfl, fun x => by simp⟩
  | cons t rest ih =>
    rw [forAll_cons, ends_bind]
    refine reclaim_decides.imp fun _ s₁ first => ?_
    obtain ⟨same₁, known₁⟩ := first
    refine (ih s₁).imp fun _ s₂ more => ?_
    obtain ⟨same₂, known₂⟩ := more
    refine ⟨by rw [same₂, same₁], fun x => ?_⟩
    rw [known₂, known₁]
    by_cases own : x = t <;> simp [own]

/-- The threads that waited to be reclaimed are gone, and nothing else is. -/
structure Reclaimed (s s' : Scheduler) : Prop where
  rest : s' = { s with threads := s'.threads, dying := [] }
  known : ∀ x, s'.thread? x = if x ∈ s.dying then none else s.thread? x

theorem reclaimAll_decides : reclaimAll.Ends s (fun _ s' => Reclaimed s s') fun _ _ => True := by
  unfold reclaimAll
  rw [ends_bind, ends_get, ends_bind, ends_modify]
  refine (reclaimList_decides s.dying { s with dying := [] }).imp fun _ s' gone => ?_
  exact ⟨gone.1, gone.2⟩

theorem pickNext_decides :
    pickNext.Ends s (fun next s' => s' = { s with ready := s'.ready } ∧
      s'.ready.tids = s.ready.tids.erase next ∧
      (next ∈ s.ready.tids ∨ s.ready.tids = [] ∧ next = s.idle)) fun _ _ => True := by
  unfold pickNext
  rw [ends_modifyGet]
  cases found : (s.ready.popMax s.priorityOf).1 with
  | none =>
    obtain ⟨empty, same⟩ := PriorityQueue.popMax_of_none found
    simp only [found, same, Option.getD_none, true_and]
    exact ⟨by simp [empty], .inr ⟨empty, trivial⟩⟩
  | some w =>
    obtain ⟨foremost, rest⟩ := PriorityQueue.popMax_of_some found
    simp only [found, rest, Option.getD_some, true_and]
    exact .inl foremost.mem

/-- The thread `t` was made to run, and another was left for it unless it ran already. -/
structure Dispatched (s : Scheduler) (t : Tid) (s' : Scheduler) : Prop where
  rest : s' =
    { s with
      threads := s'.threads
      current := t
      dying := s'.dying
      sliceTicks := 0
      switches := s'.switches }
  chosen : ∃ th, s.thread? t = some th ∧
    s'.thread? t = some { th with state := .running, membership := .none }
  others : ∀ x, x ≠ t → s'.thread? x = s.thread? x
  stayed : t = s.current → s'.dying = [] ∧ s'.switches = s.switches
  left : t ≠ s.current → s'.switches = s.switches + 1 ∧ ∃ last, s.thread? s.current = some last ∧
    s'.dying = if last.state = .dying ∧ s.current ≠ s.main then [s.current] else []

theorem dispatch_decides (clean : s.dying = []) :
    (dispatch t).Ends s (fun _ s' => Dispatched s t s') fun _ _ => True := by
  unfold dispatch
  rw [ends_bind]
  cases known : s.thread? t with
  | none => exact (ends_updateThread_of_none known).mpr trivial
  | some th =>
    rw [ends_updateThread_of_some known, ends_bind, ends_modify]
    have moved := fun x => s.threads.find?_modify t x fun th =>
      { th with state := .running, membership := .none }
    generalize s.threads.modify t _ = threads at moved
    have own : threads.find? t = some { th with state := .running, membership := .none } := by
      rw [moved, if_pos rfl, show s.threads.find? t = some th from known]
      rfl
    have others : ∀ x, x ≠ t → threads.find? x = s.thread? x := by
      intro x other
      rw [moved, if_neg other]
      rfl
    unfold switchTo
    rw [ends_bind, ends_get, ends_ite]
    dsimp only
    constructor
    · intro same
      rw [ends_pure]
      refine ⟨by rw [← same], ⟨th, known, own⟩, others, fun _ => ⟨clean, rfl⟩, fun other => ?_⟩
      exact absurd same.symm other
    · intro other
      rw [ends_bind]
      cases left : ({ s with threads, sliceTicks := 0 } : Scheduler).thread? s.current with
      | none => exact (ends_thread_of_none left).mpr trivial
      | some last =>
        rw [ends_thread left, ends_modify]
        refine ⟨rfl, ⟨th, known, own⟩, others, fun same => absurd same.symm other, fun _ => ?_⟩
        refine ⟨rfl, last, ?_, ?_⟩
        · rw [← others _ other]
          exact left
        · dsimp only
          rw [clean]

/-- A decision makes sure who has exited is gone, picks a thread, and makes it run. -/
theorem ends_schedule {Q : Unit → Scheduler → Prop}
    (picks : ∀ s₁, Reclaimed s s₁ → pickNext.Ends s₁ (fun next s₂ => s₂.dying = [] ∧
      ∀ s₃, Dispatched s₂ next s₃ → s₃.check = .ok () → Q () s₃) fun _ _ => True) :
    schedule.Ends s Q fun _ _ => True := by
  unfold schedule
  rw [ends_bind, ends_get, ends_bind, ends_ensure]
  refine ⟨fun _ => ?_, fun _ => trivial⟩
  rw [ends_bind]
  refine (preserves_thread (f := id)).ends s |>.mono (fun last s₀ same₀ => ?_) fun _ _ _ => trivial
  obtain rfl : s₀ = s := same₀
  rw [ends_bind, ends_ensure]
  refine ⟨fun _ => ?_, fun _ => trivial⟩
  rw [ends_bind]
  refine reclaimAll_decides.imp fun _ s₁ cleared => ?_
  rw [ends_bind]
  refine (picks s₁ cleared).imp fun next s₂ picked => ?_
  obtain ⟨clean, goes⟩ := picked
  rw [ends_bind]
  refine (dispatch_decides clean).imp fun _ s₃ dispatched => ?_
  unfold assertConsistent
  rw [ends_bind, ends_get]
  cases checked : s₃.check with
  | error v => exact trivial
  | ok passed =>
    rw [ends_ofExcept_ok]
    exact goes s₃ dispatched checked

/-- Every decision that goes through does this. -/
theorem schedule_decides : schedule.Ends s (fun _ s' => Decision s s') fun _ _ => True := by
  refine ends_schedule fun s₁ cleared => pickNext_decides.imp fun next s₂ picked => ?_
  obtain ⟨same₂, ready₂, next₂⟩ := picked
  have rest₂ : s₂ = { s with threads := s₁.threads, ready := s₂.ready, dying := [] } := by
    rw [same₂, cleared.rest]
  refine ⟨by rw [rest₂], fun s₃ dispatched checked => ?_⟩
  have current : s₃.current = next := by rw [dispatched.rest]
  have threads₂ : ∀ x, s₂.thread? x = if x ∈ s.dying then none else s.thread? x := by
    intro x
    rw [← cleared.known x, same₂]
    rfl
  have present : ∀ {x th}, s₂.thread? x = some th → x ∉ s.dying ∧ s.thread? x = some th := by
    intro x th found
    rw [threads₂] at found
    split at found
    · cases found
    · exact ⟨‹_›, found⟩
  have current₂ : s₂.current = s.current := by rw [rest₂]
  have main₂ : s₂.main = s.main := by rw [rest₂]
  have switches₂ : s₂.switches = s.switches := by rw [rest₂]
  have ready₁ : s₁.ready = s.ready := by rw [cleared.rest]
  have idle₁ : s₁.idle = s.idle := by rw [cleared.rest]
  have stayed := dispatched.stayed
  have left := dispatched.left
  rw [current₂, switches₂] at stayed left
  rw [main₂] at left
  rw [ready₁] at ready₂
  rw [ready₁, idle₁] at next₂
  obtain ⟨th, found, running⟩ := dispatched.chosen
  constructor
  case rest => rw [dispatched.rest, rest₂]
  case check => exact checked
  case next => exact current ▸ next₂
  case ready => rw [current, ← ready₂, dispatched.rest]
  case reclaimed =>
    intro t gone
    by_cases own : t = next
    · subst own
      exact absurd gone (present found).1
    · rw [dispatched.others t own, threads₂, if_pos gone]
  case chosen =>
    rw [current]
    exact ⟨th, (present found).2, running⟩
  case others =>
    intro t stays other
    rw [current] at other
    rw [dispatched.others t other, threads₂, if_neg stays]
  case stayed =>
    rw [current]
    exact stayed
  case left =>
    rw [current]
    intro other
    obtain ⟨counted, last, found, dying⟩ := left other
    obtain ⟨stays, found⟩ := present found
    exact ⟨counted, stays, last, found, dying⟩

end

/-! ## How a decision comes about -/

/-- The current thread has stopped running for the sake of others. -/
def gaveWay (s : Scheduler) : Scheduler :=
  if s.current = s.idle then
    { s with
      threads := s.threads.modify s.current fun th => { th with state := .blocked }
      interrupts := .off }
  else
    { s with
      threads := s.threads.modify s.current fun th => { th with state := .ready, membership := .ready }
      ready := ⟨s.ready.tids ++ [s.current]⟩
      interrupts := .off }

/-- A decision has been taken, after which interrupts are on or off as before. -/
def Yielded (s s' : Scheduler) : Prop :=
  s.inHandler = false ∧ ∃ s₁, Decision s.gaveWay s₁ ∧ s' = { s₁ with interrupts := s.interrupts }

/-- A ready thread should run rather than the current one. -/
def Prefers (s : Scheduler) : Prop :=
  ∃ t ∈ s.ready.tids, s.current = s.idle ∨ s.priorityOf s.current < s.priorityOf t

section

variable {s : Scheduler} {t : Tid}

theorem gaveWay_rest (s : Scheduler) : s.gaveWay =
    { s with threads := s.gaveWay.threads, ready := s.gaveWay.ready, interrupts := .off } := by
  unfold gaveWay
  split <;> rfl

/-- Only the thread that gives way is changed. -/
theorem gaveWay_thread? (other : t ≠ s.current) : s.gaveWay.thread? t = s.thread? t := by
  unfold gaveWay thread?
  split <;> simp [Table.find?_modify, other]

theorem pushReady_exact {choice : Scheduler → Tid} :
    (update fun s => (s.ready.push (choice s)).map fun q => { s with ready := q }).Ends s
      (fun _ s' => s' = { s with ready := ⟨s.ready.tids ++ [choice s]⟩ }) fun _ _ => True := by
  by_cases mem : choice s ∈ s.ready.tids
  · rw [ends_update_of_error (e := .queuedTwice (choice s)) (by simp [PriorityQueue.push, mem, Except.map])]
    exact trivial
  · rw [ends_update_of_ok (by rw [PriorityQueue.push_of_not_mem mem]; rfl)]

/-- Outside a handler a level from before can be put back. -/
theorem restoreInterrupts_exact {level : InterruptLevel} {E : Violation → Scheduler → Prop}
    (off : s.interrupts = .off) (outside : s.inHandler = false) :
    (restoreInterrupts level).Ends s (fun _ s' => s' = { s with interrupts := level }) E := by
  unfold restoreInterrupts
  rw [ends_modify]
  cases level with
  | on => rw [if_pos ⟨rfl, outside⟩]
  | off => rw [if_neg (by simp), ← off]

theorem block_decides : block.Ends s (fun _ s' => s.inHandler = false ∧ s.interrupts = .off ∧
    Decision { s with threads := s.threads.modify s.current fun th => { th with state := .blocked } } s')
    fun _ _ => True := by
  unfold block
  rw [ends_bind, ends_get, ends_bind, ends_ensure]
  refine ⟨fun outside => ?_, fun _ => trivial⟩
  rw [ends_bind, ends_ensure]
  refine ⟨fun off => ?_, fun _ => trivial⟩
  rw [ends_bind]
  cases known : s.thread? s.current with
  | none => exact (ends_updateThread_of_none known).mpr trivial
  | some th =>
    rw [ends_updateThread_of_some known]
    exact schedule_decides.imp fun _ s' decision => ⟨outside, off, decision⟩

theorem yield_decides : yield.Ends s (fun _ s' => Yielded s s') fun _ _ => True := by
  have decides (outside : s.inHandler = false) : (schedule >>= fun _ => restoreInterrupts s.interrupts).Ends
      s.gaveWay (fun _ s' => Yielded s s') fun _ _ => True := by
    rw [ends_bind]
    refine schedule_decides.imp fun _ s₁ decision => ?_
    have outside₁ : s₁.inHandler = false := by
      rw [decision.rest, gaveWay_rest]
      exact outside
    have off₁ : s₁.interrupts = .off := by rw [decision.rest, gaveWay_rest]
    exact (restoreInterrupts_exact off₁ outside₁).imp fun _ s' same => ⟨outside, s₁, decision, same⟩
  unfold yield
  rw [ends_bind, ends_get, ends_bind, ends_ensure]
  refine ⟨fun outside => ?_, fun _ => trivial⟩
  specialize decides outside
  unfold disableInterrupts
  rw [ends_bind, ends_modifyGet, ends_ite]
  dsimp only
  constructor
  · intro idle
    rw [ends_bind]
    cases known : ({ s with interrupts := .off } : Scheduler).thread? s.current with
    | none => exact (ends_updateThread_of_none known).mpr trivial
    | some th =>
      rw [ends_updateThread_of_some known]
      rwa [gaveWay, if_pos idle] at decides
  · intro busy
    rw [ends_bind]
    cases known : ({ s with interrupts := .off } : Scheduler).thread? s.current with
    | none => exact (ends_updateThread_of_none known).mpr trivial
    | some th =>
      rw [ends_updateThread_of_some known, ends_bind]
      refine pushReady_exact.imp fun _ s₁ pushed => ?_
      rwa [pushed, ← show s.gaveWay = _ from if_neg busy]

/-- A preferred thread gets the processor at once, or when the handler returns. -/
theorem preemptCheck_decides : preemptCheck.Ends s (fun _ s' =>
    ¬s.Prefers ∧ s' = s ∨
    s.Prefers ∧ (s.inHandler = true ∧ s' = { s with yieldOnReturn := true } ∨ Yielded s s'))
    fun _ _ => True := by
  unfold preemptCheck
  rw [ends_bind, ends_get]
  cases found : s.ready.peekMax s.priorityOf with
  | none =>
    have empty := PriorityQueue.peekMax_eq_none found
    exact .inl ⟨fun ⟨t, mem, _⟩ => by simp [empty] at mem, rfl⟩
  | some top =>
    have foremost := PriorityQueue.foremost_of_peekMax found
    dsimp only
    rw [ends_ite]
    constructor
    · intro settled
      rw [ends_pure]
      refine .inl ⟨?_, rfl⟩
      intro prefers
      obtain ⟨t, mem, idle | urgent⟩ := prefers
      · exact settled.1 idle
      · have le := foremost.le mem
        omega
    · intro unsettled
      have prefers : s.Prefers := by
        refine ⟨top, foremost.mem, ?_⟩
        by_cases idle : s.current = s.idle
        · exact .inl idle
        · exact .inr (Int.lt_of_not_ge fun le => unsettled ⟨idle, le⟩)
      rw [ends_ite]
      constructor
      · intro inside
        exact .inr ⟨prefers, .inl ⟨inside, rfl⟩⟩
      · intro _
        exact yield_decides.imp fun _ s' yielded => .inr ⟨prefers, .inr yielded⟩

end

end KernelCore.Scheduler
