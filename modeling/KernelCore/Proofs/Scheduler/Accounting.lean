import KernelCore.Proofs.Scheduler.Usage

/-!
# The accounting of ticks

A timer interrupt counts its tick for the current thread, and the last one of a second lets the
recent processor time of all threads decay. What is in range at the beginning of an event is in range
at its end, so it is in every state of a run, and the arithmetic of the next event cannot fail.
-/
namespace KernelCore.Scheduler

open Transition

variable {P : Set Tid} {s s' : Scheduler} {tick spent spent' : Nat}

/-! ## Single steps -/

namespace Usage

theorem countTick_ends (usage : Usage tick spent s) {th : Thread}
    (known : s.thread? s.current = some th) (room : spent < timerFrequency) :
    countTick.Ends s (fun _ s' => Usage tick (spent + 1) s') fun _ _ => False := by
  have metered := usage.metered _ th known
  have counted := usage.mono (Nat.le_succ spent)
  unfold countTick
  rw [ends_bind, ends_get, ends_ite]
  refine ⟨fun _ => counted, fun busy => ?_⟩
  obtain ⟨low, high⟩ := metered.recent
  unfold Fixed.scale at low high
  unfold timerFrequency at room
  rw [ends_bind, ends_thread known, ends_bind]
  have sum := Fixed.addInt_gives (x := th.recentCpu) (n := 1) (by decide) (by decide)
    (by unfold Fixed.scale; omega) (by unfold Fixed.scale; omega)
  refine ends_arithmetic_of_gives sum fun r _ raw => ?_
  rw [ends_updateThread_of_some known]
  apply counted.modifyThread
  intro th' known'
  obtain rfl := Option.some.inj (known.symm.trans known')
  refine { metered with recent := ?_, idle := fun idle => absurd idle busy }
  unfold Fixed.scale at raw
  unfold Fixed.Between Fixed.scale
  dsimp only
  omega

/-- Whatever is done to every thread but the idle one, if it can be done to each. -/
theorem updateOthers_ends (usage : Usage tick spent s) {f : Thread → Except ArithmeticFault Thread}
    (changes : ∀ th, th.Metered spent False → Gives (f th) fun th' => th'.Metered spent' False) :
    (updateOthers f).Ends s (fun _ s' => Usage tick spent' s') fun _ _ => False := by
  have each : ∀ t th, s.threads.find? t = some th →
      Gives (if t = s.idle then .ok th else f th) fun th' => th'.Metered spent' (t = s.idle) := by
    intro t th known
    have metered := usage.metered t th known
    by_cases idle : t = s.idle
    · rw [if_pos idle]
      exact .pure (metered.of_idle idle spent')
    · rw [if_neg idle]
      refine (changes th { metered with idle := False.elim }).mono fun th' metered' => ?_
      exact { metered' with idle := fun same => absurd same idle }
  obtain ⟨threads, changed⟩ := Table.exists_traverse fun t th known => (each t th known).imp
    fun _ h => h.1
  unfold updateOthers
  rw [ends_bind, ends_get, ends_bind]
  refine ends_arithmetic_of_gives (P := fun _ => True) ⟨threads, changed, trivial⟩ ?_
  intro threads' changed' _
  rw [ends_modify]
  apply usage.changeThreads
  · rw [Table.size_traverse changed']
    exact usage.size
  · exact Int.le_refl _
  · intro t th' known'
    obtain ⟨th, known, value⟩ := Table.exists_of_find?_traverse changed' known'
    obtain ⟨th'', value', metered⟩ := each t th known
    obtain rfl := Except.ok.inj (value.symm.trans value')
    exact metered

theorem reprioritize_ends (usage : Usage tick spent s) :
    (updateOthers Thread.reprioritized).Ends s (fun _ s' => Usage tick spent s')
      fun _ _ => False := by
  apply usage.updateOthers_ends
  intro th metered
  exact th.reprioritized_gives.mono fun th' use => metered.congr use.1 use.2

/-- The second is over, and what has been spent in it is made up for. -/
theorem secondPassed_ends (usage : Usage tick timerFrequency s) (few : s.runnable < maxThreads) :
    secondPassed.Ends s (fun _ s' => Usage tick 0 s') fun _ _ => False := by
  unfold maxThreads at few
  unfold secondPassed
  rw [ends_bind, ends_get, ends_bind]
  have average : Gives (nextLoadAverage s.loadAverage s.runnable) (Fixed.Between 0 63) :=
    nextLoadAverage_between usage.load (by omega) (by omega)
  refine ends_arithmetic_of_gives average fun load _ bounded => ?_
  rw [ends_bind, ends_modify, ends_bind]
  have loaded : Usage tick timerFrequency { s with loadAverage := load } :=
    { usage with load := bounded }
  refine ends_arithmetic_of_gives (decayFactor_bounds bounded) fun decay _ bounds => ?_
  apply loaded.updateOthers_ends
  intro th metered
  refine (Thread.decayed_gives bounds.1 bounds.2 metered.recent metered.kind
    metered.selfish).mono fun th' decayed => ?_
  exact
    { kind := decayed.1 ▸ metered.kind
      selfish := decayed.1 ▸ metered.selfish
      recent := decayed.2
      idle := False.elim }

end Usage

/-! ## Along with the order of the threads -/

/-- What the count of a tick may bring about. -/
def settleTick : Scheduling Unit := do
  let s ← get
  if s.ticks % priorityPeriod = 0 then updateOthers Thread.reprioritized else pure ()
  if s.ticks % timerFrequency = 0 then secondPassed else pure ()

theorem feedbackTick_eq : feedbackTick = countTick >>= fun _ => settleTick := rfl

/-- Threads are in order, and the use of the processor is in range. -/
structure InUse (P : Set Tid) (tick spent : Nat) (s : Scheduler) : Prop where
  orderly : Orderly True P s.layout
  usage : Usage tick spent s

/-- What the accounting of a tick does keeps threads in order. -/
theorem orderly_of_scene {R : Prop} (h : Orderly R P s.layout) (same : scene s' = scene s) :
    Orderly R P s'.layout := by
  have layout : s'.layout = { s.layout with
      rank := s'.layout.rank
      yieldOnReturn := s'.layout.yieldOnReturn } := by
    simp only [scene, Prod.mk.injEq, Layout.mk.injEq] at same
    ext1 <;> simp only [same]
  rw [layout]
  exact { h with }

namespace InUse

theorem exists_current (h : InUse P tick spent s) : ∃ th, s.thread? s.current = some th := by
  obtain ⟨p, known, -⟩ := h.orderly.current
  obtain ⟨th, found, -⟩ := exists_thread known
  exact ⟨th, found⟩

theorem runnable_lt (h : InUse P tick spent s) : s.runnable < maxThreads :=
  Nat.lt_of_lt_of_le (Scheduler.runnable_lt h.orderly) h.usage.size

/-- The tick is counted before anything is computed. -/
theorem next (h : InUse P tick spent s) :
    InUse P (tick + 1) spent { s with ticks := s.ticks + 1 } :=
  ⟨h.orderly, { h.usage with ticks := congrArg (· + 1) h.usage.ticks }⟩

/-- What leaves the scene as it is need only be watched for the use of the processor. -/
theorem of_still {act : Scheduling Unit} {tick' : Nat} (h : InUse P tick spent s)
    (still : Preserves scene act)
    (counts : act.Ends s (fun _ s' => Usage tick' spent' s') fun _ _ => False) :
    act.Ends s (fun _ s' => InUse P tick' spent' s') fun _ _ => False := by
  refine (counts.and (still.ends s)).mono (fun _ s' both => ?_) fun _ _ both => both.1
  exact ⟨orderly_of_scene h.orderly both.2, both.1⟩

theorem accountTick_ends (h : InUse P tick spent s) :
    accountTick.Ends s (fun _ s' => InUse P tick spent s') fun _ _ => False := by
  obtain ⟨th, known⟩ := h.exists_current
  apply h.of_still preserves_scene_accountTick
  unfold accountTick
  rw [ends_bind, ends_get, ends_ite]
  refine ⟨fun _ => h.usage.of_bare rfl, fun _ => ?_⟩
  rw [ends_bind, ends_thread known, ends_ite]
  exact ⟨fun _ => h.usage.of_bare rfl, fun _ => h.usage.of_bare rfl⟩

theorem countTick_ends (h : InUse P tick spent s) (room : spent < timerFrequency) :
    countTick.Ends s (fun _ s' => InUse P tick (spent + 1) s') fun _ _ => False := by
  obtain ⟨th, known⟩ := h.exists_current
  exact h.of_still preserves_scene_countTick (h.usage.countTick_ends known room)

/-- At the end of a second all hundred ticks of it have been counted. -/
theorem secondPassed_ends (h : InUse P (tick + 1) (tick % timerFrequency + 1) s) :
    (if (tick + 1) % timerFrequency = 0 then secondPassed else pure ()).Ends s
      (fun _ s' => InUse P (tick + 1) ((tick + 1) % timerFrequency) s') fun _ _ => False := by
  rw [ends_ite]
  constructor
  · intro past
    have all : tick % timerFrequency + 1 = timerFrequency := by
      unfold timerFrequency at past ⊢
      omega
    rw [all] at h
    rw [past]
    exact h.of_still preserves_scene_secondPassed (h.usage.secondPassed_ends h.runnable_lt)
  · intro within
    have next : tick % timerFrequency + 1 = (tick + 1) % timerFrequency := by
      unfold timerFrequency at within ⊢
      omega
    exact next ▸ h

theorem settleTick_ends (h : InUse P (tick + 1) (tick % timerFrequency + 1) s) :
    settleTick.Ends s (fun _ s' => InUse P (tick + 1) ((tick + 1) % timerFrequency) s')
      fun _ _ => False := by
  unfold settleTick
  rw [ends_bind, ends_get, h.usage.ticks]
  dsimp only
  rw [ends_ite]
  refine ⟨fun _ => ?_, fun _ => h.secondPassed_ends⟩
  have reprioritized := h.of_still (preserves_scene_updateOthers fun _ _ => place_reprioritized)
    h.usage.reprioritize_ends
  rw [ends_bind]
  exact reprioritized.imp fun _ s₁ h₁ => h₁.secondPassed_ends

theorem feedbackTick_ends (h : InUse P (tick + 1) (tick % timerFrequency) s) :
    feedbackTick.Ends s (fun _ s' => InUse P (tick + 1) ((tick + 1) % timerFrequency) s')
      fun _ _ => False := by
  rw [feedbackTick_eq, ends_bind]
  exact (h.countTick_ends (Nat.mod_lt _ (by decide))).imp fun _ s₁ h₁ => h₁.settleTick_ends

theorem account_ends (h : InUse P (tick + 1) (tick % timerFrequency) s) :
    account.Ends s (fun _ s' => InUse P (tick + 1) ((tick + 1) % timerFrequency) s')
      fun _ _ => False := by
  unfold account
  rw [ends_bind]
  refine h.accountTick_ends.imp fun _ s₁ h₁ => ?_
  rw [ends_bind, ends_get, ends_ite]
  refine ⟨fun _ => ?_, fun priorities => absurd h₁.usage.feedback priorities⟩
  rw [ends_bind]
  refine h₁.feedbackTick_ends.imp fun _ s₂ h₂ => ?_
  unfold useSlice
  rw [ends_modify]
  exact ⟨{ h₂.orderly with }, h₂.usage.of_bare rfl⟩

theorem alarm_ends (h : InUse P tick (tick % timerFrequency) s) :
    alarm.Ends s (fun _ s' => InUse P (tick + 1) ((tick + 1) % timerFrequency) s')
      fun _ _ => False := by
  unfold alarm
  rw [ends_bind, ends_modify, ends_bind]
  refine h.next.account_ends.imp fun _ s₁ h₁ => ?_
  refine ((wakeSleepers_ends h₁.orderly).and (Usage.wakeSleepers.ends h₁.usage)).mono ?_
    fun _ _ never => never.1
  exact fun _ s₂ both => ⟨both.1.orderly, both.2⟩

theorem enterHandler_ends (h : InUse P tick spent s) :
    enterHandler.Ends s (fun _ s' => InUse P tick spent s') fun v _ => v = .nestedInterrupt := by
  refine ((Scheduler.enterHandler_ends (F := fun v => v = .nestedInterrupt) fun _ => rfl).and
    (Usage.robust.enterHandler.ends h.usage)).mono ?_ fun _ _ nested => nested.1
  intro level s₁ both
  obtain ⟨⟨-, -, same⟩, usage⟩ := both
  refine ⟨?_, usage⟩
  rw [same]
  exact { h.orderly with handler := fun _ => rfl }

/-- A timer interrupt that is not nested does not stop. -/
theorem timerInterrupt_ends (h : InUse P tick (tick % timerFrequency) s) :
    timerInterrupt.Ends s (fun _ s' => InUse P (tick + 1) ((tick + 1) % timerFrequency) s')
      fun v _ => v = .nestedInterrupt := by
  rw [ends_timerInterrupt]
  refine h.enterHandler_ends.imp fun level s₁ h₁ => ?_
  refine h₁.alarm_ends.mono (fun _ s₂ h₂ => ?_) fun _ _ never => never.elim
  refine ((preemptCheck_ends (absurd trivial) h₂.orderly).and
    (Usage.robust.preemptCheck.ends h₂.usage)).mono (fun _ s₃ both => ?_) fun _ _ never => never.1
  obtain ⟨attended, usage₃⟩ := both
  refine ((leaveHandler_ends (absurd trivial) attended.orderly level).and
    (Usage.robust.leaveHandler.ends usage₃)).mono (fun _ s₄ both => ?_) fun _ _ never => never.1
  exact ⟨both.1.1.orderly, both.2⟩

theorem ticks_ends (h : InUse P s.ticks (s.ticks % timerFrequency) s) (count : Nat) :
    (times count timerInterrupt).Ends s
      (fun _ s' => InUse P s'.ticks (s'.ticks % timerFrequency) s')
      fun v _ => v = .nestedInterrupt := by
  apply ends_times (I := fun _ s' => InUse P s'.ticks (s'.ticks % timerFrequency) s')
  · intro _ s₁ h₁
    refine h₁.timerInterrupt_ends.imp fun _ s₂ h₂ => ?_
    rw [h₂.usage.ticks]
    exact h₂
  · exact h

end InUse

/-! ## Events -/

/-- Every event but the passing of time leaves the use of the processor as it was. -/
theorem Usage.happen_ends (usage : Usage tick spent s) {e : Event} (possible : e.Possible s)
    (other : ∀ count, e ≠ .request (.tick count)) :
    e.happen.Ends s (fun _ s' => Usage tick spent s') fun _ _ => True :=
  Usage.robust.happen_untimed (fun _ _ _ usage _ => { usage with }) possible other usage

/-- No event stops at an arithmetic fault but the timer's and the counting of a semaphore. -/
theorem happen_faultless {e : Event} (h : Orderly True P s.layout) (possible : e.Possible s)
    (busy : e.Waits s → s.current ≠ s.idle) (rests : ¬e.Unblocks s.idle)
    (other : ∀ count, e ≠ .request (.tick count)) :
    e.happen.Ends s (fun _ _ => True) fun v _ =>
      ∀ fault, v = .arithmetic fault → ∃ i, e = .request (.up i) := by
  have general := Event.happen_ends h possible busy fun idle => absurd idle rests
  have unlike : (∀ fault, ¬e.Asserts (.arithmetic fault)) → e.happen.Ends s (fun _ _ => True)
      fun v _ => ∀ fault, v = .arithmetic fault → ∃ i, e = .request (.up i) := by
    intro never
    refine general.mono (fun _ _ _ => trivial) fun v _ stops fault same => ?_
    subst same
    rcases stops with asserts | ⟨unrested, -⟩
    · exact absurd asserts (never fault)
    · exact absurd trivial unrested
  cases e with
  | enter => exact unlike fun fault => by simp [Event.Asserts]
  | leave level => exact unlike fun fault => by simp [Event.Asserts]
  | request r =>
    cases r with
    | tick count => exact absurd rfl (other count)
    | up i => exact general.mono (fun _ _ _ => trivial) fun _ _ _ _ _ => ⟨i, rfl⟩
    | spawn name priority space argument =>
      apply ends_bind.mpr
      rw [perform, ends_bind]
      refine (spawn_ends (F := fun _ => False) (absurd trivial) h possible name
        priority argument space).mono (fun reserved _ _ => ?_) fun _ _ never => never.elim
      cases reserved <;> exact trivial
    | setNice nice =>
      refine ends_bind.mpr (ends_bind.mpr ?_)
      exact (setNice_ends (F := fun _ => False) (absurd trivial) h
        nice).mono (fun _ _ _ => trivial) fun _ _ never => never.elim
    | setInterrupts level =>
      cases level <;> exact unlike fun fault => by simp [Event.Asserts, Request.Asserts]
    | _ => exact unlike fun fault => by simp [Event.Asserts, Request.Asserts]

theorem InUse.happen_ends {e : Event} (h : InUse P s.ticks (s.ticks % timerFrequency) s)
    (possible : e.Possible s) (busy : e.Waits s → s.current ≠ s.idle)
    (rests : ¬e.Unblocks s.idle) :
    e.happen.Ends s (fun _ s' => InUse (e.parks s P) s'.ticks (s'.ticks % timerFrequency) s')
      fun v _ => ∀ fault, v = .arithmetic fault → ∃ i, e = .request (.up i) := by
  by_cases ticks : ∃ count, e = .request (.tick count)
  · obtain ⟨count, rfl⟩ := ticks
    refine ends_bind.mpr (ends_bind.mpr ?_)
    refine (h.ticks_ends count).mono (fun _ s' h' => h') fun v _ nested fault same => ?_
    simp [nested] at same
  · have other : ∀ count, e ≠ .request (.tick count) := fun count same => ticks ⟨count, same⟩
    have ordered := Event.happen_ends h.orderly possible busy fun idle => absurd idle rests
    have faultless := happen_faultless h.orderly possible busy rests other
    refine ((ordered.and (h.usage.happen_ends possible other)).and faultless).mono ?_
      fun _ _ stops => stops.2
    intro _ s' ends
    obtain ⟨⟨followed, usage⟩, -⟩ := ends
    rw [usage.ticks]
    exact ⟨followed.orderly, usage⟩

/-! ## Runs -/

/-- A timer interrupt up to the point where its tick has been counted for the current thread. -/
def countedTick : Scheduling InterruptLevel := do
  let level ← enterHandler
  modify fun s => { s with ticks := s.ticks + 1 }
  accountTick
  countTick
  pure level

/-- The rest of a timer interrupt. -/
def finishTick (level : InterruptLevel) : Scheduling Unit := do
  settleTick
  useSlice
  wakeSleepers
  preemptCheck
  leaveHandler level

theorem timerInterrupt_eq (feedback : s.feedback = true) :
    timerInterrupt s = (countedTick >>= finishTick) s := by
  unfold timerInterrupt externalInterrupt timerHandler countedTick finishTick
  simp only [bind_assoc, pure_bind]
  apply bind_congr_of_ends
  refine (Scheduler.enterHandler_ends (F := fun _ => True) fun _ => trivial).imp fun level s₁ h₁ => ?_
  apply bind_congr_of_ends
  rw [ends_modify]
  apply bind_congr_of_ends
  refine (preserves_scene_accountTick.ends _).mono (fun _ s₂ same => ?_) fun _ _ _ => trivial
  have feedback₂ : s₂.feedback = true := by
    have kept : s₂.feedback = s₁.feedback := congrArg (·.1.feedback) same
    have entered : s₁.feedback = s.feedback := congrArg Layout.feedback h₁.2.2
    rw [kept, entered, feedback]
  rw [get_bind_apply, if_pos feedback₂, feedbackTick_eq]
  simp only [bind_assoc, bind_pure_unit]

namespace InUse

theorem inRange (h : InUse P s.ticks (s.ticks % timerFrequency) s) : s.InRange :=
  h.usage.inRange (Nat.le_of_lt (Nat.mod_lt _ (by decide)))

/-- Before the decay the last tick of a second has been counted, and no more. -/
theorem countedTick_ends (h : InUse P s.ticks (s.ticks % timerFrequency) s) :
    countedTick.Ends s (fun _ s' => s'.InRange) fun v _ => v = .nestedInterrupt := by
  have room : s.ticks % timerFrequency < timerFrequency := Nat.mod_lt _ (by decide)
  unfold countedTick
  rw [ends_bind]
  refine h.enterHandler_ends.imp fun _ s₁ h₁ => ?_
  rw [ends_bind, ends_modify, ends_bind]
  refine h₁.next.accountTick_ends.mono (fun _ s₂ h₂ => ?_) fun _ _ never => never.elim
  rw [ends_bind]
  refine (h₂.countTick_ends room).mono (fun _ s₃ h₃ => ?_) fun _ _ never => never.elim
  exact h₃.usage.inRange room

end InUse

namespace Run

variable {allows : Scheduler → Event → Scheduler → Prop} (busy : IdleNeverWaits allows)
  (rests : IdleNeverWoken allows)

include busy rests

theorem inUse (run : Run true maxThreads allows P s) :
    InUse P s.ticks (s.ticks % timerFrequency) s := by
  induction run with
  | start => exact ⟨start_orderly true maxThreads True, Usage.of_start⟩
  | next _ possible succeeds allowed ih =>
    have ends := ih.happen_ends possible (busy _ _ _ allowed) (rests _ _ _ allowed)
    exact ends.of_ok succeeds

/-- In every state of a run under feedback scheduling, and within a timer interrupt when its tick has
been counted, the load average, the decay factor, the nice values and the recent processor times are
in range. Whatever event comes next, it does not stop at a fault of their arithmetic; only a semaphore
may count too far. -/
theorem feedback_inRange (run : Run true maxThreads allows P s) :
    s.InRange ∧
    (∀ e : Event, e.Possible s → (e.Waits s → s.current ≠ s.idle) → ¬e.Unblocks s.idle →
      e.happen.Ends s (fun _ s' => s'.InRange)
        fun v _ => ∀ fault, v = .arithmetic fault → ∃ i, e = .request (.up i)) ∧
    timerInterrupt s = (countedTick >>= finishTick) s ∧
    countedTick.Ends s (fun _ s' => s'.InRange) fun v _ => v = .nestedInterrupt := by
  have inUse := run.inUse busy rests
  refine ⟨inUse.inRange, fun e possible busy rests => ?_,
    timerInterrupt_eq inUse.usage.feedback, inUse.countedTick_ends⟩
  exact (inUse.happen_ends possible busy rests).imp fun _ s' h => h.inRange

end Run

/-! ## One second of two threads -/

/-- After half a second the first thread spawns another, and the second passes. -/
def halfway : Scheduler := ((Event.request (.tick 50)).happen (start true maxThreads)).state

def joined : Scheduler := ((Event.request (.spawn "heir" 31 none 0)).happen halfway).state

def secondOver : Scheduler := ((Event.request (.tick 50)).happen joined).state

theorem halfway_succeeds :
    ((Event.request (.tick 50)).happen (start true maxThreads)).result = .ok () := by decide +kernel

theorem joined_succeeds :
    ((Event.request (.spawn "heir" 31 none 0)).happen halfway).result = .ok () := by decide +kernel

theorem secondOver_succeeds : ((Event.request (.tick 50)).happen joined).result = .ok () := by
  decide +kernel

theorem halfway_run : Run true maxThreads Careful ∅ halfway :=
  Run.start.next (e := .request (.tick 50)) trivial halfway_succeeds
    ⟨fun waits => absurd waits id, fun _ => id⟩

theorem joined_run : Run true maxThreads Careful ∅ joined :=
  halfway_run.next (e := .request (.spawn "heir" 31 none 0)) (fun _ => by decide +kernel)
    joined_succeeds
    ⟨fun waits => absurd waits id, fun _ => id⟩

theorem secondOver_run : Run true maxThreads Careful ∅ secondOver :=
  joined_run.next (e := .request (.tick 50)) trivial secondOver_succeeds
    ⟨fun waits => absurd waits id, fun _ => id⟩

/-- Two threads have raised the load average to a thirtieth. -/
theorem secondOver_inRange : secondOver.InRange ∧ secondOver.loadAverage.raw = 546 := by
  constructor
  · exact (Run.feedback_inRange careful_idleNeverWaits careful_idleNeverWoken secondOver_run).1
  · decide +kernel

end KernelCore.Scheduler
