import KernelCore.Proofs.Scheduler.Robust
import KernelCore.Proofs.Scheduler.Decisions

/-!
# Sleeping

A sleeping thread is blocked, in the sleep queue and nowhere else, so nothing but the timer can
make it ready. That survives whatever the other threads do. A thread that goes to sleep has to be
found in the sleep queue alone when the scheduler checks itself at the switch, and the timer
interrupt makes ready exactly those whose tick has come.
-/
namespace KernelCore

/-- The thread is blocked, and the sleep queue is the only one that can have it. -/
structure Layout.Asleep (L : Layout) (t : Tid) : Prop where
  place : ∃ p, L.place t = some p ∧ p.state = .blocked ∧ p.membership = .sleep
  notCurrent : t ≠ L.current
  notIdle : t ≠ L.idle
  notDying : t ∉ L.dying
  elsewhere : ∀ m, m ≠ .sleep → t ∉ L.queue m

namespace Scheduler

open Transition

/-- The sleep queue and the tick count are as given, and the given threads are asleep. -/
structure Still (q : SleepQueue) (tick : Nat) (asleep : List Tid) (s : Scheduler) : Prop where
  sleepers : s.sleepers = q
  ticks : s.ticks = tick
  numbered : ∀ t p, s.layout.place t = some p → t < s.layout.next
  current : s.layout.current ∉ s.layout.dying
  asleep : ∀ t ∈ asleep, s.layout.Asleep t

section

variable {q : SleepQueue} {tick : Nat} {asleep : List Tid} {s : Scheduler}

/-- Threads may change, come and go if the sleeping ones stay where they are. -/
theorem Still.changeThreads (still : Still q tick asleep s) {threads : Table Tid Thread}
    {allocator : TidAllocator}
    (numbered : ∀ t th, threads.find? t = some th → t < allocator.next)
    (kept : ∀ t ∈ asleep, ∀ th, s.thread? t = some th → ∃ th', threads.find? t = some th' ∧
      th'.state = th.state ∧ th'.membership = th.membership) :
    Still q tick asleep { s with threads, allocator } where
  sleepers := still.sleepers
  ticks := still.ticks
  numbered t p known := by
    obtain ⟨th, found, -⟩ := exists_thread known
    exact numbered t th found
  current := still.current
  asleep t mem := by
    have before := still.asleep t mem
    obtain ⟨p, known, blocked, there⟩ := before.place
    obtain ⟨th, found, rfl⟩ := exists_thread known
    obtain ⟨th', found', state, membership⟩ := kept t mem th found
    refine { before with place := ⟨th'.place, place_of_thread found', ?_, ?_⟩ }
    · exact state.trans blocked
    · exact membership.trans there

theorem Still.numbered_thread (still : Still q tick asleep s) {t : Tid} {th : Thread}
    (known : s.thread? t = some th) : t < s.allocator.next :=
  still.numbered t th.place (place_of_thread known)

theorem Still.modifyThread (still : Still q tick asleep s) {t : Tid} {f : Thread → Thread}
    (kept : t ∈ asleep → ∀ th, (f th).state = th.state ∧ (f th).membership = th.membership) :
    Still q tick asleep { s with threads := s.threads.modify t f } := by
  apply still.changeThreads
  · intro x th known
    rw [Table.find?_modify] at known
    cases found : s.thread? x with
    | none => simp [show s.threads.find? x = none from found] at known
    | some th => exact still.numbered_thread found
  · intro x mem th known
    have known : s.threads.find? x = some th := known
    rw [Table.find?_modify, known]
    by_cases same : x = t
    · subst same
      exact ⟨f th, if_pos rfl, kept mem th⟩
    · exact ⟨th, if_neg same, rfl, rfl⟩

/-- The sleep queue may change around the sleeping threads. -/
theorem Still.changeSleepers (still : Still q tick asleep s) (q' : SleepQueue) :
    Still q' tick asleep { s with sleepers := q' } where
  sleepers := rfl
  ticks := still.ticks
  numbered := still.numbered
  current := still.current
  asleep t mem := by
    have before := still.asleep t mem
    refine { before with elsewhere := fun m awake queued => before.elsewhere m awake ?_ }
    cases m with
    | sleep => exact absurd rfl awake
    | _ => exact queued

/-- Nothing that happens to other threads wakes a sleeping one. -/
theorem Still.robust : Robust (· ∉ asleep) (Still q tick asleep) where
  current still mem := (still.asleep _ mem).notCurrent rfl
  idle still mem := (still.asleep _ mem).notIdle rfl
  dying still t doomed mem := (still.asleep t mem).notDying doomed
  queued still m awake t queued mem := (still.asleep t mem).elsewhere m awake queued
  unqueued still known free mem := by
    obtain ⟨p, place, -, there⟩ := (still.asleep _ mem).place
    obtain rfl := Option.some.inj ((place_of_thread known).symm.trans place)
    simp [Thread.place, free] at there
  alike {s s'} still bare queues := by
    obtain ⟨threads, allocator, -, current, idle, sleepers, dying, -, -, ticks⟩ :=
      fields_of_bare bare
    have place : s'.layout.place = s.layout.place := by simp [layout, thread?, threads]
    refine ⟨sleepers.trans still.sleepers, ticks.trans still.ticks, ?_, ?_, fun t mem => ?_⟩
    · rw [place]
      simpa [layout, allocator] using still.numbered
    · simpa [layout, current, dying] using still.current
    · have before := still.asleep t mem
      exact
        { place := place ▸ before.place
          notCurrent := by simpa [layout, current] using before.notCurrent
          notIdle := by simpa [layout, idle] using before.notIdle
          notDying := by simpa [layout, dying] using before.notDying
          elsewhere := fun m awake queued => queues m awake t queued mem }
  update still _ moved := still.modifyThread fun mem => moved.resolve_left fun free => free mem
  renice still _ _ _ := still.modifyThread fun mem => absurd rfl (still.asleep _ mem).notCurrent
  bear {s _ th} still _ _ _ _ := by
    apply still.changeThreads
    · intro x th known
      rw [Table.find?_insert] at known
      split at known
      · rename_i same
        exact same ▸ Int.lt_succ _
      · exact Int.lt_trans (still.numbered_thread known) (Int.lt_succ _)
    · intro x mem th known
      have other : x ≠ s.allocator.next := Int.ne_of_lt (still.numbered_thread known)
      exact ⟨th, by rw [Table.find?_insert, if_neg other]; exact known, rfl, rfl⟩
  forget still :=
    { still with
      current := List.not_mem_nil
      asleep := fun t mem => { still.asleep t mem with notDying := List.not_mem_nil } }
  reclaim {s t} still free := by
    apply still.changeThreads
    · intro x th known
      rw [Table.find?_erase] at known
      split at known
      · cases known
      · exact still.numbered_thread known
    · intro x mem th known
      have other : x ≠ t := fun same => free (same ▸ mem)
      exact ⟨th, by rw [Table.find?_erase, if_neg other]; exact known, rfl, rfl⟩
  switch {s t dying _} still _ free other left := by
    have doomed : ∀ x ∈ dying, x = s.current := by
      rcases left with rfl | rfl <;> simp
    refine { still with current := fun mem => other (doomed t mem).symm, asleep := fun x mem => ?_ }
    have before := still.asleep x mem
    exact
      { before with
        notCurrent := by
          rintro rfl
          exact free mem
        notDying := fun gone => before.notCurrent (doomed x gone) }

end

/-! ## Switching -/

/-- What a switch does to the thread that is left. -/
structure Switched (s s' : Scheduler) : Prop where
  check : s'.check = .ok ()
  idle : s'.idle = s.idle
  /-- Only threads that have exited and left the processor before are reclaimed. -/
  survives : ∀ t th, t ∉ s.dying → s.thread? t = some th → ∃ th, s'.thread? t = some th
  doomed : ∀ t ∈ s'.dying, ∃ th, s'.thread? t = some th ∧ th.state = .dying

theorem Decision.switched {s s' : Scheduler} (h : Decision s s') : Switched s s' := by
  obtain ⟨chosen, known, running⟩ := h.chosen
  constructor
  case check => exact h.check
  case idle => rw [h.rest]
  case survives =>
    intro t th stays found
    by_cases next : t = s'.current
    · exact ⟨_, next ▸ running⟩
    · exact ⟨th, (h.others t stays next).trans found⟩
  case doomed =>
    intro t doomed
    by_cases same : s'.current = s.current
    · rw [(h.stayed same).1] at doomed
      cases doomed
    · obtain ⟨-, stays, last, found, dying⟩ := h.left same
      rw [dying] at doomed
      split at doomed
      · rename_i exited
        obtain rfl := List.mem_singleton.mp doomed
        exact ⟨last, (h.others _ stays (Ne.symm same)).trans found, exited.1⟩
      · cases doomed

theorem schedule_switches {s : Scheduler} :
    schedule.Ends s (fun _ s' => Switched s s') fun _ _ => True :=
  schedule_decides.imp fun _ _ h => h.switched

/-! ## Going to sleep -/

section

variable {s : Scheduler} {q : SleepQueue} {tick : Nat}

/-- The thread that gave the processor away for the sleep queue is found there alone. -/
theorem Switched.asleep {s s' : Scheduler} (h : Switched s s') {asleep : List Tid}
    (still : Still q tick asleep s') {th : Thread} (known : s.thread? s.current = some th)
    (alive : s.current ∉ s.dying) (busy : s.current ≠ s.idle) (mem : s.current ∈ q.tids) :
    s'.layout.Asleep s.current := by
  obtain ⟨th', known'⟩ := h.survives _ th alive known
  have queued : s.current ∈ s'.sleepers.tids := still.sleepers.symm ▸ mem
  obtain ⟨blocked, there, elsewhere⟩ := sleeper_of_check h.check known' queued
  obtain ⟨runner, knownRunner, running⟩ := running_of_check h.check
  constructor
  case place => exact ⟨th'.place, place_of_thread known', blocked, there⟩
  case notCurrent =>
    intro same
    have same : s.current = s'.current := same
    rw [← same, known'] at knownRunner
    obtain rfl := Option.some.inj knownRunner
    simp [blocked] at running
  case notIdle =>
    intro same
    exact busy (same.trans h.idle)
  case notDying =>
    intro doomed
    obtain ⟨gone, found, dying⟩ := h.doomed _ doomed
    rw [known'] at found
    obtain rfl := Option.some.inj found
    simp [blocked] at dying
  case elsewhere => exact elsewhere

theorem block_asleep {asleep : List Tid} (still : Still q tick asleep s) {th : Thread}
    (known : s.thread? s.current = some th) (busy : s.current ≠ s.idle)
    (mem : s.current ∈ q.tids) :
    block.Ends s (fun _ s' => Still q tick asleep s' ∧ s'.layout.Asleep s.current)
      fun _ _ => True := by
  unfold block
  rw [ends_bind, ends_get, ends_bind, ends_ensure]
  refine ⟨fun _ => ?_, fun _ => trivial⟩
  rw [ends_bind, ends_ensure]
  refine ⟨fun _ => ?_, fun _ => trivial⟩
  rw [ends_bind, ends_updateThread_of_some known]
  generalize stopped : ({ s with
    threads := s.threads.modify s.current fun th => { th with state := .blocked } } : Scheduler) = s₁
  have still₁ : Still q tick asleep s₁ :=
    stopped ▸ Still.robust.update still (fun _ => ⟨rfl, rfl⟩) (.inl (Still.robust.current still))
  have current : s₁.current = s.current := stopped ▸ rfl
  have known₁ : s₁.thread? s₁.current = some { th with state := .blocked } := by
    rw [current, ← stopped]
    simp [thread?, Table.find?_modify, show s.threads.find? s.current = some th from known]
  have busy₁ : s₁.current ≠ s₁.idle := by
    rw [current, ← stopped]
    exact busy
  refine ((Still.robust.schedule.ends still₁).and schedule_switches).mono ?_ fun _ _ _ => trivial
  intro _ s₂ both
  obtain ⟨still₂, switched⟩ := both
  rw [← current] at mem ⊢
  exact ⟨still₂, switched.asleep still₂ known₁ still₁.current busy₁ mem⟩

/-- A thread that goes to sleep until a later tick is asleep then, behind all that wake when it
does. -/
theorem sleepUntil_still (still : Still q tick q.tids s) (wakeTick : Nat) :
    (sleepUntil wakeTick).Ends s (fun _ s' =>
      wakeTick ≤ tick ∧ s' = s ∨
      tick < wakeTick ∧ s.current ∉ q.tids ∧
        Still (q.push s.current wakeTick) tick (q.push s.current wakeTick).tids s')
      fun _ _ => True := by
  have free : s.current ∉ q.tids := Still.robust.current still
  have perm := q.perm_push s.current wakeTick
  unfold sleepUntil
  rw [ends_bind, ends_get, ends_ite, still.ticks]
  refine ⟨fun past => .inl ⟨past, rfl⟩, fun future => ?_⟩
  rw [ends_bind, ends_ensure]
  refine ⟨fun _ => ?_, fun _ => trivial⟩
  rw [ends_bind, ends_ensure]
  refine ⟨fun busy => ?_, fun _ => trivial⟩
  unfold disableInterrupts
  rw [ends_bind, ends_modifyGet, ends_bind]
  dsimp only
  generalize closed : ({ s with interrupts := .off } : Scheduler) = s₁
  have still₁ : Still q tick q.tids s₁ := closed ▸ Still.robust.same still rfl rfl
  have current : s₁.current = s.current := closed ▸ rfl
  have busy₁ : s₁.current ≠ s₁.idle := closed ▸ busy
  rw [← current] at free perm ⊢
  cases known : s₁.thread? s₁.current with
  | none => exact (ends_updateThread_of_none known).mpr trivial
  | some th =>
    rw [ends_updateThread_of_some known, ends_bind, ends_modify, ends_bind]
    have still₂ := Still.robust.update still₁ (f := fun th => { th with membership := .sleep })
      (fun _ => ⟨rfl, rfl⟩) (.inl free)
    have still₃ := still₂.changeSleepers (q.push s₁.current wakeTick)
    rw [← still₁.sleepers] at still₃ perm free ⊢
    have known₃ : ∃ th, (s₁.threads.modify s₁.current fun th =>
        { th with membership := .sleep }).find? s₁.current = some th := by
      rw [Table.find?_modify, if_pos rfl, show s₁.threads.find? s₁.current = some th from known]
      exact ⟨_, rfl⟩
    obtain ⟨th₃, known₃⟩ := known₃
    have mem : s₁.current ∈ (s₁.sleepers.push s₁.current wakeTick).tids :=
      perm.mem_iff.mpr List.mem_cons_self
    refine (block_asleep still₃ known₃ busy₁ mem).imp fun _ s₄ slept => ?_
    obtain ⟨still₄, own⟩ := slept
    have still₄ : Still (s₁.sleepers.push s₁.current wakeTick) tick
        (s₁.sleepers.push s₁.current wakeTick).tids s₄ := by
      refine { still₄ with asleep := fun t mem => ?_ }
      rcases List.mem_cons.mp (perm.mem_iff.mp mem) with rfl | mem
      · exact own
      · exact still₄.asleep t (still₁.sleepers ▸ mem)
    refine (Still.robust.restoreInterrupts.ends still₄).imp fun _ s₅ still₅ => ?_
    exact .inr ⟨by omega, free, still₅⟩

end

/-! ## The accounting of a tick -/

/-- What the accounting of a tick leaves alone: all but priorities, the use of the processor, and
the wish to yield. -/
def scene (s : Scheduler) : Layout × SleepQueue × Nat :=
  ({ s.layout with rank := fun _ => none, yieldOnReturn := false }, s.sleepers, s.ticks)

section

variable {s s' : Scheduler} {t : Tid}

theorem preserves_scene_updateThread {f : Thread → Thread} (still : ∀ th, (f th).place = th.place) :
    Preserves scene (updateThread t f) := by
  intro s
  unfold updateThread
  cases known : s.thread? t with
  | none => rfl
  | some th =>
    have place : ({ s with threads := s.threads.modify t f } : Scheduler).layout.place =
        s.layout.place := by
      funext x
      simp only [layout, thread?, Table.find?_modify]
      split
      · cases s.threads.find? x <;> simp [still]
      · rfl
    simp only [scene, Prod.mk.injEq, and_true]
    ext1 <;> first | rfl | exact place

theorem preserves_scene_updateOthers {f : Thread → Except ArithmeticFault Thread}
    (still : ∀ th th', f th = .ok th' → th'.place = th.place) :
    Preserves scene (updateOthers f) := by
  intro s
  have kept : (updateOthers f).Ends s (fun _ s' => scene s' = scene s)
      fun _ s' => scene s' = scene s := by
    unfold updateOthers
    rw [ends_bind, ends_get, ends_bind, ends_arithmetic]
    refine ⟨fun threads changed => ?_, fun _ _ => rfl⟩
    rw [ends_modify]
    simp only [scene, Prod.mk.injEq, and_true]
    ext1 <;> first | rfl | exact place_traverse changed still
  unfold Ends at kept
  split at kept <;> exact kept

theorem preserves_scene_thread : Preserves scene (thread t) := by
  intro s
  unfold thread
  split <;> rfl

theorem preserves_scene_arithmetic {α : Type} {x : Except ArithmeticFault α} :
    Preserves scene (arithmetic x) :=
  .ofExcept

theorem preserves_scene_countTick : Preserves scene countTick := by
  refine .bind .get fun s => .ite .pure (.bind preserves_scene_thread fun _ => ?_)
  exact .bind preserves_scene_arithmetic fun _ => preserves_scene_updateThread fun _ => rfl

theorem preserves_scene_secondPassed : Preserves scene secondPassed := by
  refine .bind .get fun s => .bind preserves_scene_arithmetic fun load => ?_
  exact .bind (.modify fun _ => rfl) fun _ => .bind preserves_scene_arithmetic fun decay =>
    preserves_scene_updateOthers fun _ _ => place_decayed

theorem preserves_scene_feedbackTick : Preserves scene feedbackTick := by
  have second : ∀ s : Scheduler, Preserves scene
      (if s.ticks % timerFrequency = 0 then secondPassed else pure ()) :=
    fun s => .ite preserves_scene_secondPassed .pure
  refine .bind preserves_scene_countTick fun _ => .bind .get fun s => .ite ?_ (second s)
  exact .bind (preserves_scene_updateOthers fun _ _ => place_reprioritized) fun _ => second s

theorem accountTick_stops :
    accountTick.Ends s (fun _ s' => s'.current = s.current) fun v _ => v = .noSuchThread s.current := by
  unfold accountTick
  rw [ends_bind, ends_get, ends_ite]
  refine ⟨fun _ => rfl, fun _ => ?_⟩
  rw [ends_bind]
  cases known : s.thread? s.current with
  | none => exact (ends_thread_of_none known).mpr rfl
  | some th =>
    rw [ends_thread known, ends_ite]
    exact ⟨fun _ => rfl, fun _ => rfl⟩

theorem countTick_stops :
    countTick.Ends s (fun _ _ => True) fun v _ =>
      v = .noSuchThread s.current ∨ ∃ fault, v = .arithmetic fault := by
  unfold countTick
  rw [ends_bind, ends_get, ends_ite]
  refine ⟨fun _ => trivial, fun _ => ?_⟩
  rw [ends_bind]
  cases known : s.thread? s.current with
  | none => exact (ends_thread_of_none known).mpr (.inl rfl)
  | some th =>
    rw [ends_thread known, ends_bind, ends_arithmetic]
    refine ⟨fun r _ => ?_, fun fault _ => .inr ⟨fault, rfl⟩⟩
    exact (ends_updateThread_of_some known).mpr trivial

theorem feedbackTick_stops :
    feedbackTick.Ends s (fun _ _ => True) fun v _ =>
      v = .noSuchThread s.current ∨ ∃ fault, v = .arithmetic fault := by
  have faults : ∀ fault, Violation.arithmetic fault = .noSuchThread s.current ∨
      ∃ fault', Violation.arithmetic fault = .arithmetic fault' := fun fault => .inr ⟨fault, rfl⟩
  unfold feedbackTick
  rw [ends_bind]
  refine countTick_stops.imp fun _ s₁ _ => ?_
  have second : ∀ s₂, (if s₁.ticks % timerFrequency = 0 then secondPassed else pure ()).Ends s₂
      (fun _ _ => True) fun v _ => v = .noSuchThread s.current ∨ ∃ fault, v = .arithmetic fault := by
    intro s₂
    rw [ends_ite]
    exact ⟨fun _ => (secondPassed_ends faults).imp fun _ _ _ => trivial, fun _ => trivial⟩
  rw [ends_bind, ends_get]
  dsimp only
  rw [ends_ite]
  refine ⟨fun _ => ?_, fun _ => second s₁⟩
  rw [ends_bind]
  exact (updateOthers_ends faults fun _ _ => place_reprioritized).imp fun _ s₂ _ => second s₂

/-- What the timer interrupt does before it wakes anybody. -/
def account : Scheduling Unit := do
  accountTick
  let s ← get
  if s.feedback then feedbackTick else pure ()
  useSlice

theorem preserves_scene_accountTick : Preserves scene accountTick := by
  refine .bind .get fun s => .ite (.modify fun _ => rfl) (.bind preserves_scene_thread fun th => ?_)
  exact .ite (.modify fun _ => rfl) (.modify fun _ => rfl)

theorem preserves_scene_account : Preserves scene account := by
  have used : Preserves scene useSlice := .modify fun _ => rfl
  refine .bind preserves_scene_accountTick fun _ => .bind .get fun s => ?_
  exact .ite (.bind preserves_scene_feedbackTick fun _ => used) used

/-- The accounting stops if the current thread has no control block, or at an arithmetic fault. -/
theorem account_ends :
    account.Ends s (fun _ s' => scene s' = scene s) fun v _ =>
      v = .noSuchThread s.current ∨ ∃ fault, v = .arithmetic fault := by
  have stops : account.Ends s (fun _ _ => True) fun v _ =>
      v = .noSuchThread s.current ∨ ∃ fault, v = .arithmetic fault := by
    unfold account
    rw [ends_bind]
    refine accountTick_stops.mono (fun _ s₁ current => ?_) fun _ _ absent => .inl absent
    have used : useSlice.Ends s₁ (fun _ _ => True) fun v _ =>
        v = .noSuchThread s.current ∨ ∃ fault, v = .arithmetic fault := trivial
    rw [ends_bind, ends_get, ends_ite]
    refine ⟨fun _ => ?_, fun _ => used⟩
    rw [ends_bind]
    exact (current ▸ feedbackTick_stops).imp fun _ _ _ => trivial
  exact (stops.and (preserves_scene_account.ends s)).mono (fun _ _ h => h.2) fun _ _ h => h.1

theorem Still.of_scene {q : SleepQueue} {tick : Nat} {asleep : List Tid}
    (still : Still q tick asleep s) (same : scene s' = scene s) : Still q tick asleep s' := by
  simp only [scene, Prod.mk.injEq, Layout.mk.injEq] at same
  obtain ⟨⟨place, -, queue, -, -, -, -, -, dying, current, idle, next, -⟩, sleepers, ticks⟩ := same
  refine ⟨sleepers.trans still.sleepers, ticks.trans still.ticks, ?_, ?_, fun t mem => ?_⟩
  · rw [place, next]
    exact still.numbered
  · rw [current, dying]
    exact still.current
  · have before := still.asleep t mem
    exact
      { place := place ▸ before.place
        notCurrent := current ▸ before.notCurrent
        notIdle := idle ▸ before.notIdle
        notDying := dying ▸ before.notDying
        elsewhere := queue ▸ before.elsewhere }

end

/-! ## Waking -/

section

variable {s : Scheduler} {q : SleepQueue} {tick : Nat}

/-- What holds while sleepers are being woken: those in the queue sleep, and the others have been
made ready in their order. -/
structure Rousing (tick : Nat) (ready done : List Tid) (q : SleepQueue) (s : Scheduler) : Prop where
  still : Still q tick q.tids s
  nodup : q.tids.Nodup
  off : s.layout.interrupts = .off
  queued : s.layout.queue .ready = ready ++ done
  woken : ∀ t ∈ done, ∃ p, s.layout.place t = some p ∧ p.state = .ready

theorem Rousing.wake {ready done : List Tid} {q' : SleepQueue} {t : Tid}
    (h : Rousing tick ready done q s) (popped : q.popExpired tick = (some t, q')) :
    (wake t).Ends { s with sleepers := q' } (fun _ s' => Rousing tick ready (done ++ [t]) q' s')
      fun _ _ => False := by
  have asleep := SleepQueue.tids_of_popExpired popped
  obtain ⟨fresh, nodup⟩ := List.nodup_cons.mp (asleep ▸ h.nodup)
  have taken := h.still.changeSleepers q'
  have sleeps := taken.asleep t (by simp [asleep])
  obtain ⟨p, known, blocked, -⟩ := sleeps.place
  have others : Still q' tick q'.tids { s with sleepers := q' } :=
    { taken with asleep := fun x mem => taken.asleep x (asleep ▸ List.mem_cons_of_mem t mem) }
  have off : ({ s with sleepers := q' } : Scheduler).layout.interrupts = .off := h.off
  have made : (Scheduler.wake t).Ends { s with sleepers := q' }
      (fun _ s' => s'.layout = ({ s with sleepers := q' } : Scheduler).layout.wake t p)
      fun _ _ => False :=
    ends_wake known (by simp [off]) blocked (sleeps.elsewhere .ready (by simp)) fun _ same => same
  refine (made.and ((Still.robust.wake fresh).ends others)).mono ?_ fun _ _ never => never.1
  intro _ s' both
  obtain ⟨same, still'⟩ := both
  rw [layout_setSleepers (s := s) q'] at same
  refine ⟨still', nodup, ?_, ?_, ?_⟩
  · rw [same]
    exact h.off
  · rw [same]
    simp [Layout.wake, h.queued]
  · intro x mem
    rw [same]
    by_cases own : x = t
    · subst own
      exact ⟨{ p with state := .ready, membership := .ready }, by simp [Layout.wake], rfl⟩
    · have mem : x ∈ done := by simpa [own] using mem
      simpa [Layout.wake, own] using h.woken x mem

/-- Once nobody has to be woken, nothing happens any more. -/
theorem wakeFirst_nobody (nobody : (s.sleepers.popExpired s.ticks).1 = none) (n : Nat) :
    (times n wakeFirst).Ends s (fun _ s' => s' = s) fun _ _ => False := by
  refine ends_times (I := fun _ s' => s' = s) (fun _ s₁ same => ?_) rfl
  subst same
  refine ends_wakeFirst (fun _ => rfl) fun t q popped => ?_
  simp [popped] at nobody

/-- Those whose tick has come are made ready one after the other, which nothing can prevent. -/
theorem Rousing.wakeFirst {ready : List Tid} (n : Nat) : ∀ {done : List Tid} {q : SleepQueue}
    {s : Scheduler}, Rousing tick ready done q s → q.length ≤ n →
      (times n Scheduler.wakeFirst).Ends s
        (fun _ s' => Rousing tick ready (done ++ q.expired tick) (q.afterExpired tick) s')
        fun _ _ => False := by
  induction n with
  | zero =>
    intro done q s h none
    have empty : q = .empty := congrArg SleepQueue.mk (List.length_eq_zero_iff.mp (Nat.le_zero.mp none))
    subst empty
    exact (List.append_nil done).symm ▸ h
  | succ n ih =>
    intro done q s h enough
    obtain rfl := h.still.sleepers
    obtain rfl := h.still.ticks
    rcases popped : s.sleepers.popExpired s.ticks with ⟨_ | t, q'⟩
    · have nobody : (s.sleepers.popExpired s.ticks).1 = none := by rw [popped]
      obtain ⟨expired, after⟩ := SleepQueue.expired_of_popExpired_none nobody
      rw [expired, after, List.append_nil]
      exact (wakeFirst_nobody nobody (n + 1)).imp fun _ _ same => same ▸ h
    · obtain ⟨expired, after⟩ := SleepQueue.expired_of_popExpired popped
      have fewer : q'.length ≤ n := by
        have lengths := congrArg List.length (SleepQueue.tids_of_popExpired popped)
        simp only [SleepQueue.tids, List.length_map, List.length_cons] at lengths
        unfold SleepQueue.length at enough ⊢
        omega
      rw [times_succ, ends_bind, expired, after]
      refine ends_wakeFirst (fun nobody => by simp [popped] at nobody) fun t₁ q₁ popped₁ => ?_
      obtain ⟨rfl, rfl⟩ : t₁ = t ∧ q₁ = q' := by simpa [popped, eq_comm] using popped₁
      refine (h.wake popped).imp fun _ s₁ woken => ?_
      simpa using ih woken fewer

theorem wakeSleepers_still (still : Still q tick q.tids s) (nodup : q.tids.Nodup)
    (off : s.layout.interrupts = .off) :
    wakeSleepers.Ends s (fun _ s' =>
      Still (q.afterExpired tick) tick (q.afterExpired tick).tids s' ∧
        s'.layout.queue .ready = s.layout.queue .ready ++ q.expired tick ∧
        ∀ t ∈ q.expired tick, ∃ p, s'.layout.place t = some p ∧ p.state = .ready)
      fun _ _ => False := by
  have begun : Rousing tick (s.layout.queue .ready) [] q s :=
    ⟨still, nodup, off, (List.append_nil _).symm, by simp⟩
  unfold wakeSleepers
  rw [ends_bind, ends_get, still.sleepers]
  refine (begun.wakeFirst q.length (Nat.le_refl _)).imp fun _ s' rousing => ?_
  exact ⟨rousing.still, rousing.queued, rousing.woken⟩

/-- The timer interrupt up to the point where the right thread is looked for. -/
def alarm : Scheduling Unit := do
  modify fun s => { s with ticks := s.ticks + 1 }
  account
  wakeSleepers

/-- The tick is counted, and exactly those whose tick has come are made ready. -/
theorem alarm_still (still : Still q tick q.tids s) (nodup : q.tids.Nodup)
    (off : s.layout.interrupts = .off) :
    alarm.Ends s (fun _ s' =>
      Still (q.afterExpired (tick + 1)) (tick + 1) (q.afterExpired (tick + 1)).tids s' ∧
        s'.layout.queue .ready = s.layout.queue .ready ++ q.expired (tick + 1) ∧
        ∀ t ∈ q.expired (tick + 1), ∃ p, s'.layout.place t = some p ∧ p.state = .ready)
      fun v _ => v = .noSuchThread s.current ∨ ∃ fault, v = .arithmetic fault := by
  unfold alarm
  rw [ends_bind, ends_modify, ends_bind]
  have still₁ : Still q (tick + 1) q.tids { s with ticks := s.ticks + 1 } :=
    { still with ticks := congrArg (· + 1) still.ticks }
  refine account_ends.imp fun _ s₂ same => ?_
  have still₂ := still₁.of_scene same
  have off₂ : s₂.layout.interrupts = .off := (congrArg (·.1.interrupts) same).trans off
  have queue : s₂.layout.queue .ready = s.layout.queue .ready := congrArg (·.1.queue .ready) same
  rw [← queue]
  exact (wakeSleepers_still still₂ nodup off₂).mono (fun _ _ h => h) fun _ _ never => never.elim

theorem timerHandler_eq : timerHandler = alarm >>= fun _ => preemptCheck := by
  unfold timerHandler alarm account
  simp only [bind_assoc]
  congr 1
  funext _
  congr 1
  funext _
  congr 1
  funext s
  split <;> simp only [bind_assoc]

/-- The timer interrupt, stage by stage. -/
theorem ends_timerInterrupt {Q : Unit → Scheduler → Prop} {E : Violation → Scheduler → Prop} :
    timerInterrupt.Ends s Q E ↔ enterHandler.Ends s (fun level s₁ => alarm.Ends s₁
      (fun _ s₂ => preemptCheck.Ends s₂ (fun _ s₃ => (leaveHandler level).Ends s₃ Q E) E) E) E := by
  unfold timerInterrupt externalInterrupt
  simp only [timerHandler_eq, ends_bind, ends_pure]

end

end Scheduler

end KernelCore
