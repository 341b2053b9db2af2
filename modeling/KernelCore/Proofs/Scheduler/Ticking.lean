import KernelCore.Proofs.Scheduler.Feedback
import KernelCore.Proofs.Scheduler.Waiting

/-!
# Handlers, ticks and sleeping

A handler runs on top of the current thread and cannot switch, so the thread that has to run is
looked for when it returns. The timer's handler may change every priority under feedback
scheduling and wakes the threads whose time has come.
-/
namespace KernelCore.Scheduler

open Transition

variable {R : Prop} {P : Set Tid} {L : Layout} {s : Scheduler} {t : Tid} {p : Place}
  {F : Violation → Prop}

/-! ## Handlers -/

theorem enterHandler_ends (nested : s.layout.inHandler = true → F .nestedInterrupt) :
    enterHandler.Ends s (fun level s' => s.layout.inHandler = false ∧
      level = s.layout.interrupts ∧ s'.layout = (s.layout.setInterrupts .off).setHandler true)
      fun v _ => F v := by
  unfold enterHandler
  rw [ends_bind, ends_get, ends_bind, ends_ensure]
  refine ⟨fun outside => ?_, fun inside => nested ((Bool.not_eq_false _).mp inside)⟩
  rw [ends_bind]
  apply ends_disableInterrupts
  intro s₁ h₁
  rw [ends_bind, ends_modify, ends_pure]
  refine ⟨outside, rfl, ?_⟩
  rw [← h₁]
  rfl

variable (awake : ¬R → F .idleReady)

include awake in
/-- If the handler has asked for it, the right thread is looked for now. -/
theorem leaveHandler_ends (h : Orderly R P s.layout) (level : InterruptLevel) :
    (leaveHandler level).Ends s (fun _ s' => Kept R P (s.layout.setHandler false) s' ∧
      (R → s.layout.Led → s'.layout.Top)) fun v _ => F v := by
  unfold leaveHandler
  rw [ends_bind, ends_modify]
  generalize same : ({ s with inHandler := false } : Scheduler) = s₁
  have h₁ : s₁.layout = s.layout.setHandler false := same ▸ rfl
  have orderly₁ : Orderly R P s₁.layout := h₁ ▸ { h with handler := by simp }
  rw [ends_bind, ends_get]
  dsimp only
  rw [ends_ite]
  constructor
  · intro _
    rw [ends_bind, ends_modify]
    generalize same₂ : ({ s₁ with yieldOnReturn := false } : Scheduler) = s₂
    have h₂ : s₂.layout = s₁.layout.setYield false := same₂ ▸ rfl
    have orderly₂ : Orderly R P s₂.layout := h₂ ▸ { orderly₁ with }
    have calm₂ : s₁.layout.Calm s₂.layout := h₂ ▸ .of_same rfl rfl rfl rfl rfl
    rw [ends_bind]
    refine (yield_ends awake orderly₂ (by simp [h₂, h₁])).imp ?_
    rintro - s₃ ⟨⟨orderly₃, calm₃⟩, top⟩
    apply ends_restoreInterrupts
    intro s₄ h₄
    refine ⟨⟨h₄ ▸ orderly₃.restore level, ?_⟩, fun r _ => ?_⟩
    · rw [← h₁, h₄]
      exact (calm₂.trans (calm₃.trans (.restore _ level))).keeps
    · exact h₄ ▸ (Layout.Quiet.restore _ level).top (top r)
  · intro still
    have still : s.yieldOnReturn ≠ true := by simpa [← same] using still
    apply ends_restoreInterrupts
    intro s₂ h₂
    refine ⟨⟨h₂ ▸ orderly₁.restore level, ?_⟩, fun _ led => ?_⟩
    · rw [← h₁, h₂]
      exact (Layout.Calm.restore _ level).keeps
    · have top : s.layout.Top := led.resolve_right fun asked => still asked.2
      rw [h₂]
      exact (Layout.Quiet.restore _ level).top (h₁ ▸ ⟨top.le, top.idle⟩)

/-! ## Feedback scheduling -/

theorem ends_arithmetic {α : Type} {x : Except ArithmeticFault α} {Q : α → Scheduler → Prop}
    {E : Violation → Scheduler → Prop} : (arithmetic x).Ends s Q E ↔
      (∀ a, x = .ok a → Q a s) ∧ ∀ fault, x = .error fault → E (.arithmetic fault) s := by
  unfold arithmetic
  cases x <;> simp [Except.mapError]

/-- What does not fail cannot stop anything. -/
theorem ends_arithmetic_of_gives {α : Type} {x : Except ArithmeticFault α} {P : α → Prop}
    (h : Gives x P) {Q : α → Scheduler → Prop} {E : Violation → Scheduler → Prop}
    (rest : ∀ a, x = .ok a → P a → Q a s) : (arithmetic x).Ends s Q E := by
  obtain ⟨a, rfl, property⟩ := h
  exact rest a rfl property

theorem place_reprioritized {th th' : Thread} (h : th.reprioritized = .ok th') :
    th'.place = th.place := by
  unfold Thread.reprioritized at h
  cases value : feedbackPriority th.recentCpu th.nice with
  | error x => simp [value, bind, Except.bind] at h
  | ok p =>
    simp only [value, bind, Except.bind, pure, Except.pure, Except.ok.injEq] at h
    exact h ▸ rfl

theorem place_decayed {decay : Fixed} {th th' : Thread} (h : th.decayed decay = .ok th') :
    th'.place = th.place := by
  unfold Thread.decayed at h
  cases value : decayedRecent decay th.recentCpu th.nice with
  | error x => simp [value, bind, Except.bind] at h
  | ok r =>
    simp only [value, bind, Except.bind, pure, Except.pure, Except.ok.injEq] at h
    exact h ▸ rfl

/-- A change of all threads but the idle one that moves none of them. -/
theorem place_traverse {f : Thread → Except ArithmeticFault Thread} {threads : Table Tid Thread}
    (changed : (s.threads.traverse fun t th => if t = s.idle then .ok th else f th) = .ok threads)
    (still : ∀ th th', f th = .ok th' → th'.place = th.place) :
    (fun t => (threads.find? t).map Thread.place) = s.layout.place := by
  funext t
  have found := Table.find?_traverse changed t
  change (threads.find? t).map Thread.place = (s.threads.find? t).map Thread.place
  cases known : s.threads.find? t with
  | none =>
    rw [known] at found
    rw [found]
  | some th =>
    rw [known] at found
    obtain ⟨th', value, found⟩ := found
    rw [found]
    by_cases idle : t = s.idle
    · simp_all
    · rw [if_neg idle] at value
      simp [still th th' value]

/-- Feedback scheduling does not donate, so there is nothing to keep. -/
theorem Reranked.keeps {L' : Layout} (h : Reranked L L') (feedback : L.feedback = true) :
    L.Keeps L' := by
  obtain ⟨rank, rfl⟩ := h
  refine ⟨rfl, rfl, fun priorities => ?_, fun priorities => ?_⟩ <;> simp [feedback] at priorities

section

variable (faults : ∀ fault, F (.arithmetic fault))

include faults

theorem updateOthers_ends {f : Thread → Except ArithmeticFault Thread}
    (still : ∀ th th', f th = .ok th' → th'.place = th.place) :
    (updateOthers f).Ends s (fun _ s' => Reranked s.layout s'.layout) fun v _ => F v := by
  unfold updateOthers
  rw [ends_bind, ends_get, ends_bind, ends_arithmetic]
  refine ⟨fun threads changed => ?_, fun fault _ => faults fault⟩
  rw [ends_modify]
  refine ⟨fun t => (threads.find? t).map Thread.rank, ?_⟩
  ext1 <;> try rfl
  exact place_traverse changed still

theorem countTick_ends (h : Orderly R P s.layout) :
    countTick.Ends s (fun _ s' => s'.layout = s.layout) fun v _ => F v := by
  unfold countTick
  rw [ends_bind, ends_get, ends_ite]
  refine ⟨fun _ => rfl, fun _ => ?_⟩
  obtain ⟨p, known, -⟩ := h.current
  obtain ⟨th, found, -⟩ := exists_thread (t := s.current) known
  rw [ends_bind, ends_thread found, ends_bind, ends_arithmetic]
  refine ⟨fun r _ => ?_, fun fault _ => faults fault⟩
  exact ends_updateThread_other found rfl rfl fun s' same => same

theorem secondPassed_ends :
    secondPassed.Ends s (fun _ s' => Reranked s.layout s'.layout) fun v _ => F v := by
  unfold secondPassed
  rw [ends_bind, ends_get, ends_bind, ends_arithmetic]
  refine ⟨fun load _ => ?_, fun fault _ => faults fault⟩
  rw [ends_bind]
  apply ends_modify_other rfl
  intro s₁ h₁
  rw [ends_bind, ends_arithmetic]
  refine ⟨fun decay _ => ?_, fun fault _ => faults fault⟩
  refine (updateOthers_ends faults fun _ _ => place_decayed).imp ?_
  exact fun _ s' reranked => h₁ ▸ reranked

theorem feedbackTick_ends (h : Orderly R P s.layout) :
    feedbackTick.Ends s (fun _ s' => Reranked s.layout s'.layout) fun v _ => F v := by
  unfold feedbackTick
  rw [ends_bind]
  refine (countTick_ends faults h).imp ?_
  rintro - s₁ h₁
  have second : ∀ s₂, Reranked s.layout s₂.layout →
      (if s₁.ticks % timerFrequency = 0 then secondPassed else pure ()).Ends s₂
        (fun _ s' => Reranked s.layout s'.layout) fun v _ => F v := by
    intro s₂ reranked
    rw [ends_ite]
    refine ⟨fun _ => ?_, fun _ => reranked⟩
    exact (secondPassed_ends faults).imp fun _ s' reranked' => reranked.trans reranked'
  rw [ends_bind, ends_get]
  dsimp only
  rw [ends_ite]
  refine ⟨fun _ => ?_, fun _ => second s₁ (h₁ ▸ .refl _)⟩
  rw [ends_bind]
  refine (updateOthers_ends faults fun _ _ => place_reprioritized).imp ?_
  exact fun _ s₂ reranked => second s₂ (h₁ ▸ reranked)

end

include awake in
theorem setNice_ends (h : Orderly R P s.layout) (nice : Int) :
    (setNice nice).Ends s (fun _ s' => Carried R P s.layout s') fun v _ => F v := by
  unfold setNice
  rw [ends_bind]
  apply ends_disableInterrupts
  intro s₁ h₁
  have begun : Rested R P s.layout s₁ := .off h h₁
  obtain ⟨p, known, -⟩ := begun.orderly.current
  obtain ⟨th, found, -⟩ := exists_thread (t := s₁.current) known
  rw [ends_bind, ends_get, ends_bind]
  apply ends_updateThread_other found rfl rfl
  intro s₂ h₂
  -- Whatever the new priority is, the thread that has to run is looked for.
  have rest : ∀ s₃, Reranked s₂.layout s₃.layout → (s₁.feedback = false → s₃ = s₂) →
      (do restoreInterrupts s.layout.interrupts; preemptCheck : Scheduling Unit).Ends s₃
        (fun _ s' => Carried R P s.layout s') fun v _ => F v := by
    intro s₃ reranked still
    have kept₃ : Kept R P s₁.layout s₃ := by
      have orderly₂ : Orderly R P s₂.layout := h₂ ▸ begun.orderly
      refine ⟨reranked.orderly orderly₂, ?_⟩
      cases feedback : s₁.layout.feedback with
      | true => exact h₂ ▸ reranked.keeps (h₂ ▸ feedback)
      | false => exact still feedback ▸ h₂ ▸ .refl _
    have kept : Kept R P s.layout s₃ := ⟨kept₃.orderly, begun.calm.keeps.trans kept₃.keeps⟩
    exact (kept.restore_preempt awake _).imp fun _ _ attended => attended.carried
  have current : ∃ th, s₂.thread? s₁.current = some th := by
    have known₂ : s₂.layout.place s₁.current = some p := by rw [h₂]; exact known
    obtain ⟨th, found, -⟩ := exists_thread known₂
    exact ⟨th, found⟩
  obtain ⟨th₂, found₂⟩ := current
  dsimp only
  rw [ends_ite]
  constructor
  · intro feedback
    rw [ends_bind, ends_thread found₂, ends_bind]
    refine ends_arithmetic_of_gives (Thread.reprioritized_gives _) fun th' value _ => ?_
    rw [ends_bind]
    apply ends_updateThread_rank found₂ (place_reprioritized value)
    intro s₃ h₃
    apply rest s₃ (h₃ ▸ .setRank _ _ _)
    simp [show s₁.feedback = true from feedback]
  · exact fun _ => rest s₂ (.refl _) fun _ => rfl

/-! ## Sleeping -/

include awake in
theorem sleepUntil_ends (h : Orderly R P s.layout) (wakeTick : Nat)
    (inside : s.layout.inHandler = true → F .sleptInHandler)
    (idle : s.layout.current = s.layout.idle → F .idleSlept) :
    (sleepUntil wakeTick).Ends s (fun _ s' => Carried R P s.layout s') fun v _ => F v := by
  unfold sleepUntil
  rw [ends_bind, ends_get, ends_ite]
  refine ⟨fun _ => .refl h, fun _ => ?_⟩
  rw [ends_bind, ends_ensure]
  refine ⟨fun outside => ?_, fun handler => inside ((Bool.not_eq_false _).mp handler)⟩
  have outside : s.layout.inHandler = false := outside
  rw [ends_bind, ends_ensure]
  refine ⟨fun busy => ?_, fun same => idle (not_not.mp same)⟩
  have busy : s.layout.current ≠ s.layout.idle := busy
  rw [ends_bind]
  apply ends_disableInterrupts
  intro s₁ h₁
  have begun : Rested R P s.layout s₁ := .off h h₁
  obtain ⟨p, known₁, -⟩ := begun.orderly.current
  have current : s.current = s₁.layout.current := h₁ ▸ rfl
  obtain ⟨th, found, rfl⟩ := exists_thread known₁
  rw [ends_bind, current]
  apply ends_updateThread_place found rfl
  intro s₂ h₂
  rw [ends_bind]
  apply ends_pushSleeper
  intro s₃ waiting perm h₃
  have running : s₂.current = s₁.layout.current := by
    change s₂.layout.current = _
    simp [h₂]
  rw [running] at perm
  have entered : s₃.layout = (s₁.layout.setPlace s₁.layout.current
      (some { th.place with membership := .sleep })).setQueue .sleep waiting := by
    rw [h₃, h₂]
    rfl
  rw [ends_bind]
  refine (block_in_queue_ends awake begun.orderly (h₁ ▸ outside) (h₁ ▸ rfl) known₁
    (by simp) (by simp) (by simp) (h₁ ▸ busy) (by simp) (by simpa [h₂] using perm) entered).imp ?_
  rintro - s₄ elected
  apply ends_restoreInterrupts
  intro s₅ h₅
  refine ((begun.elected elected).attended.carried.trans ?_)
  exact ⟨⟨h₅ ▸ elected.orderly.restore _, h₅ ▸ (Layout.Calm.restore _ _).keeps⟩,
    fun _ _ => (h₅ ▸ Layout.Quiet.restore _ _ : s₄.layout.Quiet s₅.layout).led⟩

include awake in
theorem sleep_ends (h : Orderly R P s.layout) (ticks : Int)
    (inside : s.layout.inHandler = true → F .sleptInHandler)
    (idle : s.layout.current = s.layout.idle → F .idleSlept) :
    (sleep ticks).Ends s (fun _ s' => Carried R P s.layout s') fun v _ => F v := by
  unfold sleep
  rw [ends_bind, ends_get, ends_ite]
  exact ⟨fun _ => .refl h, fun _ => sleepUntil_ends awake h _ inside idle⟩

theorem wakeFirst_ends (h : Orderly R P s.layout) :
    wakeFirst.Ends s (fun _ s' => Settled R P s.layout s') fun v _ => F v := by
  refine ends_wakeFirst (fun _ => ⟨h, .refl _⟩) fun t q popped => ?_
  have asleep : s.layout.queue .sleep = t :: q.tids := SleepQueue.tids_of_popExpired popped
  have mem : t ∈ s.layout.queue .sleep := by simp [asleep]
  obtain ⟨p, known, there⟩ := h.exists_of_mem_queue (by simp) mem
  have other := h.ne_current_of_waits known (by simp [there])
  have blocked := h.blocked_of_waits known other (by simp [there]) (by simp [there])
  have taken := layout_setSleepers (s := s) q
  apply ends_wake (taken ▸ known) (taken ▸ h.allowed) blocked
  · simp [taken, h.mem_queue known, there]
  · intro s' h'
    rw [taken] at h'
    refine ⟨h' ▸ ?_, h' ▸ .wake_waiter known _ _⟩
    exact h.wake_waiter known mem (by simp) (by simp) (by simp) (asleep ▸ .refl _)

theorem wakeSleepers_ends (h : Orderly R P s.layout) :
    wakeSleepers.Ends s (fun _ s' => Settled R P s.layout s') fun v _ => F v := by
  unfold wakeSleepers
  rw [ends_bind, ends_get]
  apply ends_times (I := fun _ s' => Settled R P s.layout s') _ ⟨h, .refl _⟩
  exact fun _ s₁ settled => (wakeFirst_ends settled.orderly).imp fun _ _ more => settled.trans more

/-! ## The timer -/

theorem accountTick_ends (h : Orderly R P s.layout) :
    accountTick.Ends s (fun _ s' => s'.layout = s.layout) fun v _ => F v := by
  unfold accountTick
  rw [ends_bind, ends_get, ends_ite]
  refine ⟨fun _ => rfl, fun _ => ?_⟩
  obtain ⟨p, known, -⟩ := h.current
  obtain ⟨th, found, -⟩ := exists_thread (t := s.current) known
  rw [ends_bind, ends_thread found, ends_ite]
  exact ⟨fun _ => rfl, fun _ => rfl⟩

include awake in
theorem timerHandler_ends (faults : ∀ fault, F (.arithmetic fault)) (h : Orderly R P s.layout) :
    timerHandler.Ends s (fun _ s' => Attended R P s.layout s') fun v _ => F v := by
  unfold timerHandler
  rw [ends_bind]
  apply ends_modify_other rfl
  intro s₁ h₁
  rw [ends_bind]
  refine (accountTick_ends (h₁ ▸ h)).imp ?_
  rintro - s₂ h₂
  have h₂ : s₂.layout = s.layout := h₂.trans h₁
  -- After the accounting, whatever it was, the sleepers are woken and the right thread looked for.
  have rest : ∀ s₃, Kept R P s.layout s₃ →
      (do useSlice; wakeSleepers; preemptCheck : Scheduling Unit).Ends s₃
        (fun _ s' => Attended R P s.layout s') fun v _ => F v := by
    intro s₃ kept₃
    unfold useSlice
    rw [ends_bind, ends_modify]
    generalize used : ({ s₃ with
      sliceTicks := s₃.sliceTicks + 1
      yieldOnReturn := s₃.yieldOnReturn || timeSlice ≤ s₃.sliceTicks + 1 } : Scheduler) = s₄
    have h₄ : s₄.layout = s₃.layout.setYield s₄.yieldOnReturn := by
      rw [← used]
      rfl
    have settled₄ : Settled R P s₃.layout s₄ :=
      ⟨h₄ ▸ { kept₃.orderly with }, h₄ ▸ .of_same rfl rfl rfl rfl rfl⟩
    have kept₄ := kept₃.settled settled₄
    rw [ends_bind]
    refine (wakeSleepers_ends kept₄.orderly).imp ?_
    intro _ s₅ settled₅
    have kept₅ := kept₄.settled settled₅
    exact (preemptCheck_ends awake kept₅.orderly).imp fun _ _ attended => kept₅.attended attended
  rw [ends_bind, ends_get]
  dsimp only
  rw [ends_ite]
  refine ⟨fun feedback => ?_, fun _ => rest s₂ ⟨h₂ ▸ h, h₂ ▸ .refl _⟩⟩
  rw [ends_bind]
  refine (feedbackTick_ends faults (h₂ ▸ h)).imp ?_
  intro _ s₃ reranked
  exact rest s₃ ⟨reranked.orderly (h₂ ▸ h), h₂ ▸ reranked.keeps feedback⟩

include awake in
/-- The handler begins and returns at a thread of its own right. -/
theorem timerInterrupt_ends (faults : ∀ fault, F (.arithmetic fault)) (h : Orderly R P s.layout)
    (nested : s.layout.inHandler = true → F .nestedInterrupt) :
    timerInterrupt.Ends s (fun _ s' => Carried R P s.layout s') fun v _ => F v := by
  unfold timerInterrupt externalInterrupt
  rw [ends_bind]
  refine (enterHandler_ends nested).imp ?_
  rintro level s₁ ⟨outside, -, h₁⟩
  have orderly₁ : Orderly R P s₁.layout := h₁ ▸ { h with handler := fun _ => rfl }
  rw [ends_bind]
  refine (timerHandler_ends awake faults orderly₁).imp ?_
  rintro - s₂ attended
  simp only [ends_bind, ends_pure]
  refine (leaveHandler_ends awake attended.orderly level).imp ?_
  rintro - s₃ ⟨kept, top⟩
  refine ⟨⟨kept.orderly, ?_⟩, fun r _ _ => .inl (top r (attended.led r))⟩
  have keeps := attended.keeps
  rw [h₁] at keeps
  constructor
  case feedback => exact kept.keeps.feedback.trans keeps.feedback
  case inHandler => exact kept.keeps.inHandler.trans outside.symm
  case backed =>
    intro priorities backed
    have backed₂ := keeps.backed priorities (backed.of_same rfl rfl rfl)
    exact kept.keeps.backed (keeps.feedback.trans priorities) (backed₂.of_same rfl rfl rfl)
  case exact =>
    intro priorities exact
    have exact₂ := keeps.exact priorities (exact.of_same rfl rfl rfl)
    exact kept.keeps.exact (keeps.feedback.trans priorities) (exact₂.of_same rfl rfl rfl)

end KernelCore.Scheduler
