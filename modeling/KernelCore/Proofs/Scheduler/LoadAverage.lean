import Mathlib.Data.Rat.Cast.Order
import Mathlib.Tactic.Linarith
import KernelCore.Proofs.Scheduler.Accounting
import KernelCore.Proofs.Scheduler.IdleThread
import KernelCore.Proofs.Scheduler.Queues

/-!
# The accuracy of the load average

The load average follows a recurrence whose weight and whose results are truncated, so each update
loses a little. Of what is lost a sixtieth is forgotten with every further update, and so the loss
never exceeds sixty times what one update can lose. With at most 63 runnable threads that is less
than a quarter, over any number of updates.
-/
namespace KernelCore

/-- The exact load average after updates with the given numbers of runnable threads, the latest
first. -/
def exactLoad : List Nat → ℚ
  | [] => 0
  | n :: earlier => 59 / 60 * exactLoad earlier + n / 60

/-- The load is never above the exact one, and never more than a quarter below. -/
structure Fixed.Tracks (load : Fixed) (counts : List Nat) : Prop where
  below : load.value ≤ exactLoad counts
  near : exactLoad counts - 1 / 4 ≤ load.value

/-- The loss is at most 3648 units: sixty times the two units that truncated results can lose and the
58.8 units that the truncated weight can. -/
structure Fixed.Lags (load : Fixed) (counts : List Nat) : Prop where
  bounded : load.Between 0 63
  below : (load.raw : ℚ) ≤ 16384 * exactLoad counts
  near : 16384 * exactLoad counts - 3648 ≤ load.raw

namespace Fixed.Lags

variable {load : Fixed} {counts : List Nat} {n : Nat}

theorem zero : Fixed.zero.Lags [] := by
  constructor
  case bounded => decide
  case below => simp [Fixed.zero, exactLoad]
  case near => norm_num [Fixed.zero, exactLoad]

theorem tracks (lags : load.Lags counts) : load.Tracks counts := by
  have below := lags.below
  have near := lags.near
  constructor
  case below =>
    rw [Fixed.value, div_le_iff₀ (by norm_num)]
    linarith
  case near =>
    rw [Fixed.value, le_div_iff₀ (by norm_num)]
    linarith

/-- A sixtieth of the loss is forgotten, and one update's is added. -/
theorem next (lags : load.Lags counts) (few : n ≤ 63) :
    Gives (nextLoadAverage load n) fun next => next.Lags (n :: counts) := by
  have low := lags.bounded.1
  have high := lags.bounded.2
  have below := lags.below
  have near := lags.near
  unfold Fixed.scale at low high
  have small : (0 : Int) ≤ n ∧ (n : Int) ≤ 63 := by omega
  refine (nextLoadAverage_gives lags.bounded small.1 small.2).mono fun next raw => ?_
  have bounded : next.Between 0 63 := by
    unfold Fixed.Between Fixed.scale
    omega
  -- What the two truncated results leave out.
  obtain ⟨kept, kept_eq⟩ : ∃ kept, kept = 16110 * load.raw / 16384 := ⟨_, rfl⟩
  obtain ⟨added, added_eq⟩ : ∃ added, added = (n : Int) * 16384 / 60 := ⟨_, rfl⟩
  have kept_low : 16384 * (kept : ℚ) ≤ 16110 * load.raw := by
    exact_mod_cast (by omega : 16384 * kept ≤ 16110 * load.raw)
  have kept_high : 16110 * (load.raw : ℚ) ≤ 16384 * kept + 16384 := by
    exact_mod_cast (by omega : 16110 * load.raw ≤ 16384 * kept + 16384)
  have added_low : 60 * (added : ℚ) ≤ n * 16384 := by
    exact_mod_cast (by omega : 60 * added ≤ (n : Int) * 16384)
  have added_high : (n : ℚ) * 16384 ≤ 60 * added + 60 := by
    exact_mod_cast (by omega : (n : Int) * 16384 ≤ 60 * added + 60)
  have sum : (next.raw : ℚ) = kept + added := by
    exact_mod_cast (by rw [kept_eq, added_eq]; exact raw : next.raw = kept + added)
  have positive : (0 : ℚ) ≤ load.raw := by exact_mod_cast (by omega : 0 ≤ load.raw)
  have most : (load.raw : ℚ) ≤ 1032192 := by exact_mod_cast (by omega : load.raw ≤ 1032192)
  refine ⟨bounded, ?_, ?_⟩
  · rw [sum, exactLoad]
    linarith
  · rw [sum, exactLoad]
    linarith

end Fixed.Lags

namespace Scheduler

open Transition

/-! ## When the load average is updated -/

/-- The states in which a timer interrupt comes that ends a second, among so many interrupts that
come one right after the other, the latest first. -/
def secondsIn : Nat → Scheduler → List Scheduler
  | 0, _ => []
  | count + 1, s =>
    secondsIn count (timerInterrupt s).state ++
      if (s.ticks + 1) % timerFrequency = 0 then [s] else []

def Occurrence.seconds (o : Occurrence) : List Scheduler :=
  match o.event with
  | .request (.tick count) => secondsIn count o.before
  | _ => []

/-- The states in which a timer interrupt has come that ended a second, the latest first. -/
def seconds (past : List Occurrence) : List Scheduler := past.flatMap Occurrence.seconds

/-- The threads but the idle one that are ready or run. -/
def able (s : Scheduler) : List Tid :=
  s.threads.keys.filter fun t =>
    t ≠ s.idle ∧ (s.thread? t).any fun th => th.state = .ready ∨ th.state = .running

theorem mem_able {s : Scheduler} {t : Tid} : t ∈ s.able ↔
    t ≠ s.idle ∧ ∃ th, s.thread? t = some th ∧ (th.state = .ready ∨ th.state = .running) := by
  unfold able
  rw [List.mem_filter, ← Table.contains_iff]
  change (s.thread? t).isSome = true ∧ _ ↔ _
  cases s.thread? t <;> simp

/-- As long as the idle thread is in no queue, the threads counted are the ready and running ones but
for the idle one. -/
theorem runnable_eq_length_able {P : Set Tid} {s : Scheduler} (h : Orderly True P s.layout) :
    s.runnable = s.able.length := by
  have agree := QueuesAgree.of_orderly h
  have distinct := List.nodup_cons.mp (nodup_competitors h)
  have chosen : ∀ t, t ∈ s.competitors ↔ t ∈ s.able := by
    intro t
    rw [mem_able]
    constructor
    · intro mem
      have key := mem_keys_of_competes h t (List.mem_cons_of_mem _ mem)
      obtain ⟨th, known⟩ := Option.isSome_iff_exists.mp (Table.contains_iff.mpr key)
      refine ⟨fun idle => distinct.1 (idle ▸ mem), th, known, ?_⟩
      have origin : t = s.current ∨ t ∈ s.ready.tids := by
        unfold competitors at mem
        grind
      rcases origin with current | ready
      · exact .inr ((agree.running t th known).mpr current)
      · exact .inl ((agree.ready t th known).mpr ready)
    · rintro ⟨other, th, known, state⟩
      have origin : t ∈ s.ready.tids ∨ t = s.current :=
        state.imp (agree.ready t th known).mp (agree.running t th known).mp
      unfold competitors
      grind
  have nodup : s.able.Nodup := s.threads.keys_nodup.filter _
  rw [← length_competitors]
  exact ((List.perm_ext_iff_of_nodup distinct.2 nodup).mpr chosen).length_eq

/-- Threads are in order whenever one of the interrupts ends a second. -/
theorem secondsIn_orderly {P : Set Tid} {s : Scheduler} (h : Orderly True P s.layout) (count : Nat) :
    (times count timerInterrupt).Ends s (fun _ _ => ∀ m ∈ secondsIn count s, Orderly True P m.layout)
      fun _ _ => True := by
  induction count generalizing s with
  | zero => exact fun m mem => absurd mem List.not_mem_nil
  | succ count ih =>
    rw [times_succ, ends_bind]
    have carried := timerInterrupt_ends (F := fun _ => True) (absurd trivial) (fun _ => trivial) h
      fun _ => trivial
    refine (carried.and Ends.self).mono ?_ fun _ _ _ => trivial
    rintro - s₁ ⟨carried₁, -, rfl⟩
    refine (ih carried₁.orderly).imp fun _ _ rest m mem => ?_
    rcases List.mem_append.mp mem with later | now
    · exact rest m later
    · obtain rfl : m = s := by
        split at now <;> simp_all
      exact h

/-! ## What an update reads and writes -/

/-- What an update of the load average reads, and the tick that decides whether there is one. -/
def gauge (s : Scheduler) : Bool × Fixed × Nat × Nat := (s.feedback, s.loadAverage, s.ticks, s.runnable)

/-- The load average has been updated if the tick ends a second. -/
structure Gauged (s s' : Scheduler) : Prop where
  feedback : s'.feedback = s.feedback
  ticks : s'.ticks = s.ticks
  load : if s.ticks % timerFrequency = 0 then
    nextLoadAverage s.loadAverage s.runnable = .ok s'.loadAverage
    else s'.loadAverage = s.loadAverage

section

variable {s s' : Scheduler} {t : Tid}

theorem fields_of_gauge (same : s'.gauge = s.gauge) : s'.feedback = s.feedback ∧
    s'.loadAverage = s.loadAverage ∧ s'.ticks = s.ticks ∧ s'.runnable = s.runnable := by
  simpa only [gauge, Prod.mk.injEq] using same

theorem Gauged.of_gauge {s₁ s₂ : Scheduler} (before : s₁.gauge = s.gauge) (gauged : Gauged s₁ s₂)
    (after : s'.gauge = s₂.gauge) : Gauged s s' := by
  obtain ⟨feedback, load, ticks, runnable⟩ := fields_of_gauge before
  obtain ⟨feedback', load', ticks', -⟩ := fields_of_gauge after
  refine ⟨feedback'.trans (gauged.feedback.trans feedback),
    ticks'.trans (gauged.ticks.trans ticks), ?_⟩
  have updated := gauged.load
  rwa [load, ticks, runnable, ← load'] at updated

theorem preserves_gauge_updateThread {f : Thread → Thread} : Preserves gauge (updateThread t f) := by
  intro s
  unfold updateThread
  split <;> rfl

theorem preserves_gauge_updateOthers {f : Thread → Except ArithmeticFault Thread} :
    Preserves gauge (updateOthers f) :=
  .bind .get fun _ => .bind preserves_arithmetic fun _ => .modify fun _ => rfl

theorem preserves_gauge_accountTick : Preserves gauge accountTick :=
  .bind .get fun _ => .ite (.modify fun _ => rfl) (.bind preserves_thread fun _ =>
    .ite (.modify fun _ => rfl) (.modify fun _ => rfl))

theorem preserves_gauge_countTick : Preserves gauge countTick :=
  .bind .get fun _ => .ite .pure (.bind preserves_thread fun _ =>
    .bind preserves_arithmetic fun _ => preserves_gauge_updateThread)

theorem secondPassed_gauged (ends : s.ticks % timerFrequency = 0) :
    secondPassed.Ends s (fun _ s' => Gauged s s') fun _ _ => True := by
  unfold secondPassed
  rw [ends_bind, ends_get, ends_bind, ends_arithmetic]
  refine ⟨fun load next => ?_, fun _ _ => trivial⟩
  rw [ends_bind, ends_modify, ends_bind]
  refine ((preserves_arithmetic (f := gauge)).ends _).mono (fun decay s₁ same₁ => ?_)
    fun _ _ _ => trivial
  refine (preserves_gauge_updateOthers.ends s₁).mono (fun _ s₂ same₂ => ?_) fun _ _ _ => trivial
  obtain ⟨feedback, written, ticks, -⟩ := fields_of_gauge (same₂.trans same₁)
  refine ⟨feedback, ticks, ?_⟩
  rw [if_pos ends, written]
  exact next

theorem settleTick_gauged : settleTick.Ends s (fun _ s' => Gauged s s') fun _ _ => True := by
  have second : ∀ s₁ : Scheduler, s₁.gauge = s.gauge →
      (if s.ticks % timerFrequency = 0 then secondPassed else pure ()).Ends s₁
        (fun _ s' => Gauged s s') fun _ _ => True := by
    intro s₁ same
    obtain ⟨-, -, ticks, -⟩ := fields_of_gauge same
    rw [ends_ite]
    refine ⟨fun ends => ?_, fun within => ?_⟩
    · rw [← ticks] at ends
      exact (secondPassed_gauged ends).imp fun _ s₂ gauged => .of_gauge same gauged rfl
    · obtain ⟨feedback, load, ticks, -⟩ := fields_of_gauge same
      refine ⟨feedback, ticks, ?_⟩
      rw [if_neg within]
      exact load
  unfold settleTick
  rw [ends_bind, ends_get]
  dsimp only
  rw [ends_ite]
  refine ⟨fun _ => ?_, fun _ => second s rfl⟩
  rw [ends_bind]
  exact (preserves_gauge_updateOthers.ends s).mono (fun _ s₁ same => second s₁ same)
    fun _ _ _ => trivial

/-- Under feedback scheduling the timer interrupt updates the load average before it wakes anybody. -/
theorem account_gauged (feedback : s.feedback = true) :
    account.Ends s (fun _ s' => Gauged s s') fun _ _ => True := by
  unfold account
  rw [ends_bind]
  refine (preserves_gauge_accountTick.ends s).mono (fun _ s₁ same₁ => ?_) fun _ _ _ => trivial
  rw [ends_bind, ends_get, ends_ite]
  obtain ⟨feedback₁, -⟩ := fields_of_gauge same₁
  refine ⟨fun _ => ?_, fun priorities => absurd (feedback₁.trans feedback) priorities⟩
  rw [feedbackTick_eq, ends_bind, ends_bind]
  refine (preserves_gauge_countTick.ends s₁).mono (fun _ s₂ same₂ => ?_) fun _ _ _ => trivial
  refine settleTick_gauged.imp fun _ s₃ gauged => ?_
  exact .of_gauge (same₂.trans same₁) gauged rfl

end

/-! ## What leaves the load average alone -/

structure Loaded (load : Fixed) (tick : Nat) (s : Scheduler) : Prop where
  feedback : s.feedback = true
  load : s.loadAverage = load
  ticks : s.ticks = tick

section

variable {load : Fixed} {tick : Nat} {s : Scheduler}

theorem Loaded.robust : Robust (fun _ => True) (Loaded load tick) where
  current _ := trivial
  idle _ := trivial
  dying _ _ _ := trivial
  queued _ _ _ _ _ := trivial
  unqueued _ _ _ := trivial
  alike loaded same _ := by
    obtain ⟨-, -, -, -, -, -, -, feedback, load, ticks⟩ := fields_of_bare same
    exact ⟨feedback.trans loaded.feedback, load.trans loaded.load, ticks.trans loaded.ticks⟩
  update loaded _ _ := { loaded with }
  renice loaded _ _ _ := { loaded with }
  bear loaded _ _ _ _ := { loaded with }
  forget loaded := { loaded with }
  reclaim loaded _ := { loaded with }
  switch loaded _ _ _ _ := { loaded with }

theorem Loaded.wakeSleepers : Maintains (Loaded load tick) wakeSleepers :=
  robust.wakeSleepers (fun _ => trivial) fun loaded _ => { loaded with }

/-- A timer interrupt updates the load average if it ends a second. -/
theorem Loaded.timerInterrupt_ends (loaded : Loaded load tick s) :
    timerInterrupt.Ends s (fun _ s' => Loaded s'.loadAverage (tick + 1) s' ∧
      if (tick + 1) % timerFrequency = 0 then nextLoadAverage load s.runnable = .ok s'.loadAverage
      else s'.loadAverage = load) fun _ _ => True := by
  rw [ends_timerInterrupt]
  have runnable : Preserves runnable enterHandler :=
    .bind .get fun _ => .bind .ensure fun _ => .bind (.modifyGet fun _ => rfl) fun _ =>
      .bind (.modify fun _ => rfl) fun _ => .pure
  refine ((robust.enterHandler.ends loaded).and (runnable.ends s)).mono (fun level s₁ both => ?_)
    fun _ _ _ => trivial
  obtain ⟨loaded₁, runnable₁⟩ := both
  unfold alarm
  rw [ends_bind, ends_modify, ends_bind]
  refine (account_gauged (s := { s₁ with ticks := s₁.ticks + 1 }) loaded₁.feedback).imp
    fun _ s₂ gauged => ?_
  have loaded₂ : Loaded s₂.loadAverage (tick + 1) s₂ := by
    refine ⟨gauged.feedback.trans loaded₁.feedback, rfl, gauged.ticks.trans ?_⟩
    exact congrArg (· + 1) loaded₁.ticks
  refine (wakeSleepers.ends loaded₂).imp fun _ s₃ loaded₃ => ?_
  refine (robust.preemptCheck.ends loaded₃).imp fun _ s₄ loaded₄ => ?_
  refine (robust.leaveHandler.ends loaded₄).imp fun _ s₅ loaded₅ => ?_
  rw [loaded₅.load]
  refine ⟨loaded₅, ?_⟩
  have updated := gauged.load
  have counted : ({ s₁ with ticks := s₁.ticks + 1 } : Scheduler).runnable = s.runnable := runnable₁
  rw [counted] at updated
  dsimp only at updated
  rwa [loaded₁.ticks, loaded₁.load] at updated

end

/-! ## Histories -/

/-- The load average lags behind the exact one, and so it did after every update. -/
structure Averaged (updates : List Scheduler) (s : Scheduler) : Prop where
  feedback : s.feedback = true
  lags : s.loadAverage.Lags (updates.map runnable)
  each : ∀ m earlier, m :: earlier <:+ updates →
    (timerInterrupt m).state.loadAverage.Lags ((m :: earlier).map runnable)

section

variable {updates : List Scheduler} {s : Scheduler}

theorem Averaged.of_start (capacity : Nat) : Averaged [] (start true capacity) where
  feedback := rfl
  lags := .zero
  each _ _ suffix := absurd suffix (by simp)

/-- One timer interrupt, with an update if it ends a second. -/
theorem Averaged.timerInterrupt_ends (averaged : Averaged updates s)
    (few : (s.ticks + 1) % timerFrequency = 0 → s.runnable ≤ 63) :
    timerInterrupt.Ends s (fun _ s' =>
      Averaged ((if (s.ticks + 1) % timerFrequency = 0 then [s] else []) ++ updates) s')
      fun _ _ => True := by
  have loaded : Loaded s.loadAverage s.ticks s := ⟨averaged.feedback, rfl, rfl⟩
  refine (loaded.timerInterrupt_ends.and Ends.self).mono ?_ fun _ _ _ => trivial
  rintro - s' ⟨⟨loaded', updated⟩, -, exactly⟩
  by_cases ends : (s.ticks + 1) % timerFrequency = 0
  · rw [if_pos ends] at updated ⊢
    obtain ⟨next, value, lags⟩ := averaged.lags.next (few ends)
    obtain rfl := Except.ok.inj (updated.symm.trans value)
    refine ⟨loaded'.feedback, lags, fun m earlier suffix => ?_⟩
    rcases List.suffix_cons_iff.mp suffix with same | before
    · obtain ⟨rfl, rfl⟩ := List.cons.inj same
      rw [← exactly]
      exact lags
    · exact averaged.each m earlier before
  · rw [if_neg ends] at updated ⊢
    exact ⟨loaded'.feedback, updated ▸ averaged.lags, averaged.each⟩

theorem Averaged.ticks_ends (averaged : Averaged updates s) (count : Nat)
    (few : ∀ m ∈ secondsIn count s, m.runnable ≤ 63) :
    (times count timerInterrupt).Ends s (fun _ s' => Averaged (secondsIn count s ++ updates) s')
      fun _ _ => True := by
  induction count generalizing updates s with
  | zero => exact averaged
  | succ count ih =>
    rw [times_succ, ends_bind]
    have first : (s.ticks + 1) % timerFrequency = 0 → s.runnable ≤ 63 := by
      intro ends
      exact few s (by simp [secondsIn, ends])
    refine ((averaged.timerInterrupt_ends first).and Ends.self).mono ?_ fun _ _ _ => trivial
    rintro - s₁ ⟨averaged₁, -, rfl⟩
    have rest : ∀ m ∈ secondsIn count (timerInterrupt s).state, m.runnable ≤ 63 := by
      intro m mem
      exact few m (List.mem_append_left _ mem)
    refine (ih averaged₁ rest).imp fun _ s₂ averaged₂ => ?_
    rw [secondsIn, List.append_assoc]
    exact averaged₂

theorem Occurrence.seconds_of_untimed {e : Event} (other : ∀ count, e ≠ .request (.tick count)) :
    Occurrence.seconds ⟨s, e⟩ = [] := by
  unfold Occurrence.seconds
  split
  · rename_i count same
    exact absurd same (other count)
  · rfl

theorem Averaged.happen_ends (averaged : Averaged updates s) {e : Event} (possible : e.Possible s)
    (few : ∀ m ∈ Occurrence.seconds ⟨s, e⟩, m.runnable ≤ 63) :
    e.happen.Ends s (fun _ s' => Averaged (Occurrence.seconds ⟨s, e⟩ ++ updates) s')
      fun _ _ => True := by
  by_cases ticks : ∃ count, e = .request (.tick count)
  · obtain ⟨count, rfl⟩ := ticks
    exact ends_bind.mpr (ends_bind.mpr (averaged.ticks_ends count few))
  · have other : ∀ count, e ≠ .request (.tick count) := fun count same => ticks ⟨count, same⟩
    have loaded : Loaded s.loadAverage s.ticks s := ⟨averaged.feedback, rfl, rfl⟩
    have kept := Loaded.robust.happen_untimed (fun _ _ _ loaded _ => { loaded with }) possible other
      loaded
    rw [Occurrence.seconds_of_untimed other]
    exact kept.imp fun _ s' loaded' => ⟨loaded'.feedback, loaded'.load ▸ averaged.lags, averaged.each⟩

end

namespace History

variable {capacity : Nat} {allows : Scheduler → Event → Scheduler → Prop} {past : List Occurrence}
  {s : Scheduler}

theorem averaged (history : History true capacity allows past s)
    (few : ∀ m ∈ seconds past, m.runnable ≤ 63) : Averaged (seconds past) s := by
  induction history with
  | start => exact .of_start capacity
  | next _ possible succeeds _ ih =>
    rw [seconds, List.flatMap_cons, ← seconds] at few ⊢
    have averaged := ih fun m mem => few m (List.mem_append_right _ mem)
    exact (averaged.happen_ends possible fun m mem => few m (List.mem_append_left _ mem)).of_ok succeeds

/-- As long as the idle thread is kept out of the queues, threads are in order whenever a second ends. -/
theorem orderly_of_mem_seconds (history : History true capacity allows past s)
    (spares : IdleNeverQueued allows) : ∀ m ∈ seconds past, ∃ S, Orderly True S m.layout := by
  induction history with
  | start => simp [seconds]
  | @next past s e history possible succeeds allowed ih =>
    rw [seconds, List.flatMap_cons, ← seconds]
    intro m mem
    rcases List.mem_append.mp mem with now | before
    · obtain ⟨P, run⟩ := history.run
      obtain ⟨S, orderly⟩ := run.exists_orderly spares
      by_cases ticks : ∃ count, e = .request (.tick count)
      · obtain ⟨count, rfl⟩ := ticks
        have ends : (Event.happen (.request (.tick count))).Ends s
            (fun _ _ => ∀ m ∈ secondsIn count s, Orderly True S m.layout) fun _ _ => True :=
          ends_bind.mpr (ends_bind.mpr (secondsIn_orderly orderly count))
        exact ⟨S, ends.of_ok succeeds m now⟩
      · rw [Occurrence.seconds_of_untimed fun count same => ticks ⟨count, same⟩] at now
        exact absurd now List.not_mem_nil
    · exact ih m before

/-- If at most 63 threads are runnable whenever a second ends, then the load average after every update,
and so in every state, is not above the exact one and at most a quarter below, and the next update
will not fail but do as well. The threads counted are the ready and running ones but for the idle
thread, unless somebody has put that one into the ready queue. -/
theorem loadAverage_accurate (history : History true capacity allows past s)
    (few : ∀ m ∈ seconds past, m.runnable ≤ 63) :
    (∀ m earlier, m :: earlier <:+ seconds past →
      (timerInterrupt m).state.loadAverage.Tracks ((m :: earlier).map runnable)) ∧
    s.loadAverage.Tracks ((seconds past).map runnable) ∧
    (∀ n : Nat, n ≤ 63 → Gives (nextLoadAverage s.loadAverage n) fun next =>
      next.Tracks (n :: (seconds past).map runnable)) ∧
    (IdleNeverQueued allows → ∀ m ∈ seconds past, m.runnable = m.able.length) := by
  have averaged := history.averaged few
  refine ⟨fun m earlier suffix => (averaged.each m earlier suffix).tracks, averaged.lags.tracks, ?_, ?_⟩
  · intro n small
    exact (averaged.lags.next small).mono fun next lags => lags.tracks
  · intro spares m mem
    obtain ⟨S, orderly⟩ := history.orderly_of_mem_seconds spares m mem
    exact runnable_eq_length_able orderly

end History

/-- The first second, in the middle of which a thread is spawned. -/
private def firstSecond : List Occurrence :=
  [⟨joined, .request (.tick 50)⟩, ⟨halfway, .request (.spawn "heir" 31 none 0)⟩,
    ⟨Scheduler.start true maxThreads, .request (.tick 50)⟩]

theorem halfway_history : History true maxThreads Careful
    [⟨Scheduler.start true maxThreads, .request (.tick 50)⟩] halfway :=
  History.start.next (e := .request (.tick 50)) trivial halfway_succeeds
    ⟨fun waits => absurd waits id, fun _ => id⟩

theorem joined_history : History true maxThreads Careful
    [⟨halfway, .request (.spawn "heir" 31 none 0)⟩,
      ⟨Scheduler.start true maxThreads, .request (.tick 50)⟩] joined :=
  halfway_history.next (e := .request (.spawn "heir" 31 none 0)) (fun _ => by decide +kernel)
    joined_succeeds
    ⟨fun waits => absurd waits id, fun _ => id⟩

theorem firstSecond_history : History true maxThreads Careful firstSecond secondOver :=
  joined_history.next (e := .request (.tick 50)) trivial secondOver_succeeds
    ⟨fun waits => absurd waits id, fun _ => id⟩

/-- Both threads are counted when the second ends, and the load average is about a thirtieth. -/
theorem History.loadAverage_accurate_secondOver :
    (seconds firstSecond).map runnable = [2] ∧ exactLoad [2] = 1 / 30 ∧
      secondOver.loadAverage.Tracks [2] := by
  have counts : (seconds firstSecond).map runnable = [2] := by decide +kernel
  have few : ∀ m ∈ seconds firstSecond, m.runnable ≤ 63 := by
    intro m mem
    have counted : m.runnable ∈ (seconds firstSecond).map runnable := List.mem_map_of_mem mem
    rw [counts, List.mem_singleton] at counted
    omega
  obtain ⟨-, tracks, -⟩ := loadAverage_accurate firstSecond_history few
  rw [counts] at tracks
  exact ⟨counts, by norm_num [exactLoad], tracks⟩

end Scheduler

end KernelCore
