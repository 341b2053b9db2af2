import KernelCore.Proofs.Scheduler.Runs
import KernelCore.Proofs.Scheduler.Sleeping

/-!
# The use of the processor

Under feedback scheduling the load average, the nice values and the recent processor time of every
thread stay in range. Recent processor time grows by the ticks of the current second, and each
second's decay brings it back below where the second began, because the ready queue never has more
threads than there are control blocks. So nothing that is computed from them leaves the range of a
number.
-/
namespace KernelCore

/-- The nice value is in range, and recent processor time is above what the last decay can have left
by no more than the ticks of the current second. The idle thread takes no part. -/
structure Thread.Metered (th : Thread) (spent : Nat) (isIdle : Prop) : Prop where
  kind : minNice ≤ th.nice
  selfish : th.nice ≤ maxNice
  recent : th.recentCpu.Between (-2540) (15140 + spent)
  idle : isIdle → th.recentCpu = Fixed.zero

/-- What is computed from the use of the processor and the nice value is in range, too: the quarter
that lowers the priority, the priority, and the percentage that is reported. -/
structure Thread.InRange (th : Thread) : Prop where
  nice : minNice ≤ th.nice ∧ th.nice ≤ maxNice
  recent : th.recentCpu.Between (-2540) 15240
  quarter : Gives (th.recentCpu.divInt 4) fun quarter =>
    Gives quarter.round fun rounded => -635 ≤ rounded ∧ rounded ≤ 3810
  priority : Gives (feedbackPriority th.recentCpu th.nice) fun p => minPriority ≤ p ∧ p ≤ maxPriority
  percent : -254000 ≤ th.recentCpu.roundScaled 100 ∧ th.recentCpu.roundScaled 100 ≤ 1524000

section

variable {th th' : Thread} {spent : Nat} {isIdle : Prop}

theorem Thread.Metered.mono (h : th.Metered spent isIdle) {spent' : Nat} (le : spent ≤ spent') :
    th.Metered spent' isIdle := by
  obtain ⟨low, high⟩ := h.recent
  refine { h with recent := ⟨low, ?_⟩ }
  unfold Fixed.scale at high ⊢
  omega

/-- The idle thread needs no decay. -/
theorem Thread.Metered.of_idle (h : th.Metered spent isIdle) (idle : isIdle) (spent' : Nat) :
    th.Metered spent' isIdle := by
  refine { h with recent := ?_ }
  rw [h.idle idle]
  unfold Fixed.Between Fixed.zero Fixed.scale
  dsimp only
  omega

theorem Thread.Metered.inRange (h : th.Metered spent isIdle) (le : spent ≤ timerFrequency) :
    th.InRange := by
  have recent : th.recentCpu.Between (-2540) 15240 := (h.mono le).recent
  constructor
  case nice => exact ⟨h.kind, h.selfish⟩
  case recent => exact recent
  case quarter =>
    have quarters : th.recentCpu.Between (4 * -635) (4 * 3810) := recent
    refine (Fixed.quarter_gives quarters).mono fun quarter between => ?_
    have low := between.1
    have high := between.2
    unfold Fixed.scale at low high
    exact Fixed.round_gives between (by omega) (by omega)
  case priority => exact feedbackPriority_gives _ _
  case percent => exact Fixed.roundScaled_bounds recent

/-- Nothing else about a thread counts. -/
theorem Thread.Metered.congr (h : th.Metered spent isIdle) (nice : th'.nice = th.nice)
    (recent : th'.recentCpu = th.recentCpu) : th'.Metered spent isIdle where
  kind := nice ▸ h.kind
  selfish := nice ▸ h.selfish
  recent := recent ▸ h.recent
  idle idle := recent.trans (h.idle idle)

end

namespace Scheduler

open Transition

/-- Every thread is metered, and so few threads share the processor that the load stays bounded. -/
structure Usage (tick spent : Nat) (s : Scheduler) : Prop where
  ticks : s.ticks = tick
  feedback : s.feedback = true
  capacity : s.capacity = maxThreads
  size : s.threads.size ≤ maxThreads
  idle : s.idle < s.allocator.next
  load : s.loadAverage.Between 0 63
  metered : ∀ t th, s.thread? t = some th → th.Metered spent (t = s.idle)

/-- Every quantity of feedback scheduling is in range. -/
structure InRange (s : Scheduler) : Prop where
  load : s.loadAverage.Between 0 63
  decay : Gives (decayFactor s.loadAverage) fun decay => 0 ≤ decay.raw ∧ decay.raw < Fixed.scale
  percent : 0 ≤ s.loadPercent ∧ s.loadPercent ≤ 6300
  threads : ∀ t th, s.thread? t = some th → th.InRange

namespace Usage

variable {tick spent spent' : Nat} {s s' : Scheduler} {t : Tid}

theorem changeThreads (usage : Usage tick spent s) {threads : Table Tid Thread}
    {allocator : TidAllocator} (size : threads.size ≤ maxThreads)
    (next : s.allocator.next ≤ allocator.next)
    (metered : ∀ t th, threads.find? t = some th → th.Metered spent' (t = s.idle)) :
    Usage tick spent' { s with threads, allocator } :=
  { usage with size, metered, idle := Int.lt_of_lt_of_le usage.idle next }

theorem modifyThread (usage : Usage tick spent s) {f : Thread → Thread}
    (changed : ∀ th, s.thread? t = some th → (f th).Metered spent (t = s.idle)) :
    Usage tick spent { s with threads := s.threads.modify t f } := by
  apply usage.changeThreads
  · rw [Table.size_modify]
    exact usage.size
  · exact Int.le_refl _
  · intro x th known
    rw [Table.find?_modify] at known
    split at known
    · rename_i same
      subst same
      obtain ⟨th, found, rfl⟩ := Option.map_eq_some_iff.mp known
      exact changed th found
    · exact usage.metered x th known

theorem inRange (usage : Usage tick spent s) (le : spent ≤ timerFrequency) : s.InRange where
  load := usage.load
  decay := by
    refine (decayFactor_bounds usage.load).mono fun decay bounds => ⟨bounds.1, ?_⟩
    unfold Fixed.scale
    omega
  percent := Fixed.roundScaled_bounds usage.load
  threads t th known := (usage.metered t th known).inRange le

theorem mono (usage : Usage tick spent s) (le : spent ≤ spent') : Usage tick spent' s :=
  { usage with metered := fun t th known => (usage.metered t th known).mono le }

theorem of_bare (usage : Usage tick spent s) (same : s'.bare = s.bare) : Usage tick spent s' := by
  obtain ⟨threads, allocator, capacity, -, idle, -, -, feedback, load, ticks⟩ := fields_of_bare same
  exact
    { ticks := ticks.trans usage.ticks
      feedback := feedback.trans usage.feedback
      capacity := capacity.trans usage.capacity
      size := threads ▸ usage.size
      idle := by
        rw [idle, allocator]
        exact usage.idle
      load := load ▸ usage.load
      metered := by
        unfold thread?
        rw [threads, idle]
        exact usage.metered }

/-- Only the passing of time changes how the processor has been used. -/
theorem robust : Robust (fun _ => True) (Usage tick spent) where
  current _ := trivial
  idle _ := trivial
  dying _ _ _ := trivial
  queued _ _ _ _ _ := trivial
  unqueued _ _ _ := trivial
  alike usage same _ := usage.of_bare same
  update usage use _ := usage.modifyThread fun th known =>
    (usage.metered _ th known).congr (use th).1 (use th).2
  renice {s th f} usage known recent nice := by
    apply usage.modifyThread
    intro th' known'
    obtain rfl := Option.some.inj (known.symm.trans known')
    have before := usage.metered _ _ known
    exact
      { kind := nice.1
        selfish := nice.2
        recent := recent ▸ before.recent
        idle := fun idle => recent.trans (before.idle idle) }
  bear {s creator th} usage room known nice recent := by
    have room : s.threads.size < maxThreads := usage.capacity ▸ room
    apply usage.changeThreads
    · have grown := s.threads.size_insert_le s.allocator.next th
      omega
    · exact Int.le_of_lt (Int.lt_succ _)
    · intro t th' known'
      rw [Table.find?_insert] at known'
      split at known'
      · rename_i same
        obtain rfl := Option.some.inj known'
        have inherited := (usage.metered _ _ known).congr nice recent
        have other : t ≠ s.idle := same ▸ (Int.ne_of_lt usage.idle).symm
        exact { inherited with idle := fun idle => absurd idle other }
      · exact usage.metered t th' known'
  forget usage := { usage with }
  reclaim {s t} usage _ := by
    apply usage.changeThreads
    · exact Nat.le_trans (s.threads.size_erase_le t) usage.size
    · exact Int.le_refl _
    · intro x th known
      rw [Table.find?_erase] at known
      split at known
      · cases known
      · exact usage.metered x th known
  switch usage _ _ _ _ := { usage with }

theorem wakeSleepers : Maintains (Usage tick spent) wakeSleepers :=
  robust.wakeSleepers (fun _ => trivial) fun usage _ => { usage with }

/-- At the start nobody has used the processor. -/
theorem of_start : Usage 0 0 (start true maxThreads) where
  ticks := rfl
  feedback := rfl
  capacity := rfl
  size := by decide
  idle := by decide
  load := by decide
  metered t th known := by
    have new : th.nice = 0 ∧ th.recentCpu = Fixed.zero := by
      rw [thread?_start] at known
      split at known
      · obtain rfl := Option.some.inj known
        exact ⟨rfl, rfl⟩
      · split at known
        · obtain rfl := Option.some.inj known
          exact ⟨rfl, rfl⟩
        · cases known
    exact
      { kind := by rw [new.1]; decide
        selfish := by rw [new.1]; decide
        recent := by rw [new.2]; decide
        idle := fun _ => new.2 }

end Usage

/-! ## How many threads there are -/

/-- The threads that compete for the processor. -/
def competitors (s : Scheduler) : List Tid :=
  if s.current = s.idle then s.ready.tids else s.current :: s.ready.tids

section

variable {P : Set Tid} {s : Scheduler}

theorem length_competitors : s.competitors.length = s.runnable := by
  unfold competitors runnable PriorityQueue.length
  split
  · rfl
  · rfl

theorem nodup_competitors (h : Orderly True P s.layout) : (s.idle :: s.competitors).Nodup := by
  have ready : s.ready.tids.Nodup := h.nodup .ready
  have idle : s.idle ∉ s.ready.tids := h.resting trivial
  have current : s.current ∉ s.ready.tids := h.not_mem_ready_current
  unfold competitors
  split
  · exact List.nodup_cons.mpr ⟨idle, ready⟩
  · rename_i busy
    simp [idle, current, ready, Ne.symm busy]

theorem mem_keys_of_competes (h : Orderly True P s.layout) :
    ∀ t ∈ s.idle :: s.competitors, t ∈ s.threads.keys := by
  have placed : ∀ t ∈ s.idle :: s.competitors, ∃ p, s.layout.place t = some p := by
    intro t mem
    have origin : t = s.idle ∨ t = s.current ∨ t ∈ s.ready.tids := by
      unfold competitors at mem
      grind
    rcases origin with rfl | rfl | ready
    · exact h.idle.imp fun _ known => known.1
    · exact h.current.imp fun _ known => known.1
    · exact (h.exists_of_mem_queue (m := .ready) (by simp) ready).imp fun _ known => known.1
  intro t mem
  obtain ⟨p, known⟩ := placed t mem
  obtain ⟨th, found, -⟩ := exists_thread known
  have contained : s.threads.contains t = true :=
    Option.isSome_iff_exists.mpr ⟨th, found⟩
  exact Table.contains_iff.mp contained

/-- The threads that compete for the processor and the idle thread have a control block each. -/
theorem runnable_lt (h : Orderly True P s.layout) : s.runnable < s.threads.size := by
  have keys : s.threads.keys.length = s.threads.size := by simp [Table.keys, Table.size]
  have le := (nodup_competitors h).length_le_of_subset (mem_keys_of_competes h)
  rw [List.length_cons, length_competitors, keys] at le
  exact le

end

end Scheduler

end KernelCore
