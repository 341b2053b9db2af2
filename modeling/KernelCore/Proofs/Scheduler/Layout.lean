import Mathlib.Logic.Function.Basic
import KernelCore.Proofs.Transition
import KernelCore.Scheduler.Condvar
import KernelCore.Scheduler.Lifecycle
import KernelCore.Scheduler.Semaphore

/-!
# Layouts

The layout of a scheduler is what its queues, its locks and its control blocks say about where
every thread is and which priority it has. All that is proved of the scheduler is proved of its
layout, so a step of the scheduler is described by what it does to the layout.
-/
namespace KernelCore

/-- The part of a control block that says where the thread is. -/
structure Place where
  state : ThreadState
  membership : Membership
  heldLocks : List LockId
  waitingLock : Option LockId

/-- The part of a control block that says which priority the thread has. -/
structure Rank where
  base : Int
  effective : Int

def Thread.place (th : Thread) : Place := ⟨th.state, th.membership, th.heldLocks, th.waitingLock⟩

def Thread.rank (th : Thread) : Rank := ⟨th.basePriority, th.priority⟩

@[ext] structure Layout where
  place : Tid → Option Place
  rank : Tid → Option Rank
  queue : Membership → List Tid
  holder : LockId → Option Tid
  /-- The lock a waiter of a condition variable has to have again. -/
  relock : CondvarId → Tid → Option LockId
  /-- How many locks, semaphores and condition variables there are. -/
  locks : Nat
  semaphores : Nat
  condvars : Nat
  dying : List Tid
  current : Tid
  idle : Tid
  /-- Thread numbers from this one on are free. -/
  next : Tid
  feedback : Bool
  interrupts : InterruptLevel
  inHandler : Bool
  yieldOnReturn : Bool

namespace Layout

@[simps] def setPlace (L : Layout) (t : Tid) (p : Option Place) : Layout :=
  { L with place := Function.update L.place t p }

@[simps] def setRank (L : Layout) (t : Tid) (r : Option Rank) : Layout :=
  { L with rank := Function.update L.rank t r }

@[simps] def setQueue (L : Layout) (m : Membership) (waiting : List Tid) : Layout :=
  { L with queue := Function.update L.queue m waiting }

@[simps] def setHolder (L : Layout) (l : LockId) (t : Option Tid) : Layout :=
  { L with holder := Function.update L.holder l t }

@[simps] def setRelock (L : Layout) (relock : CondvarId → Tid → Option LockId) : Layout :=
  { L with relock }

@[simps] def setInterrupts (L : Layout) (interrupts : InterruptLevel) : Layout :=
  { L with interrupts }

@[simps] def setCurrent (L : Layout) (current : Tid) : Layout := { L with current }

@[simps] def setDying (L : Layout) (dying : List Tid) : Layout := { L with dying }

@[simps] def setNext (L : Layout) (next : Tid) : Layout := { L with next }

@[simps] def setHandler (L : Layout) (inHandler : Bool) : Layout := { L with inHandler }

@[simps] def setYield (L : Layout) (yieldOnReturn : Bool) : Layout := { L with yieldOnReturn }

@[simp] theorem setPlace_self (L : Layout) (t : Tid) : L.setPlace t (L.place t) = L := by
  simp [setPlace]

@[simp] theorem setRank_self (L : Layout) (t : Tid) : L.setRank t (L.rank t) = L := by
  simp [setRank]

@[simp] theorem setQueue_self (L : Layout) (m : Membership) : L.setQueue m (L.queue m) = L := by
  simp [setQueue]

@[simp] theorem setHolder_self (L : Layout) (l : LockId) : L.setHolder l (L.holder l) = L := by
  simp [setHolder]

/-- The effective priority of a thread; a thread that does not exist has the lowest. -/
def priority (L : Layout) (t : Tid) : Int := ((L.rank t).map Rank.effective).getD minPriority

/-- The first of the threads of highest priority in a queue. -/
def Foremost (L : Layout) (m : Membership) (t : Tid) : Prop :=
  PriorityQueue.Foremost ⟨L.queue m⟩ L.priority t

/-- No ready thread has a higher priority than the current one, and the idle thread runs only if
no thread is ready. -/
structure Top (L : Layout) : Prop where
  le : ∀ t ∈ L.queue .ready, L.priority t ≤ L.priority L.current
  idle : L.current = L.idle → L.queue .ready = []

/-- The right thread runs, or a handler has asked to yield when it returns. -/
def Led (L : Layout) : Prop := L.Top ∨ L.inHandler = true ∧ L.yieldOnReturn = true

/-- Nothing has happened by which another thread would have to run. -/
structure Quiet (L L' : Layout) : Prop where
  ready : L'.queue .ready = L.queue .ready
  current : L'.current = L.current
  idle : L'.idle = L.idle
  inHandler : L'.inHandler = L.inHandler
  yieldOnReturn : L'.yieldOnReturn = L.yieldOnReturn
  priority : ∀ t ∈ L.queue .ready, L'.priority t = L.priority t
  rises : L.priority L.current ≤ L'.priority L.current

/-- Interrupts are on again if they were; in a handler they stay off. -/
def restore (L : Layout) (level : InterruptLevel) : Layout :=
  if level = .on ∧ L.inHandler = false then L.setInterrupts .on else L

section

variable {L L' L₁ L₂ : Layout}

theorem priority_congr (rank : L'.rank = L.rank) : L'.priority = L.priority := by
  funext t
  simp [priority, rank]

theorem Quiet.of_same (ready : L'.queue .ready = L.queue .ready) (current : L'.current = L.current)
    (idle : L'.idle = L.idle) (inHandler : L'.inHandler = L.inHandler)
    (yieldOnReturn : L'.yieldOnReturn = L.yieldOnReturn) (rank : L'.rank = L.rank) : L.Quiet L' where
  ready := ready
  current := current
  idle := idle
  inHandler := inHandler
  yieldOnReturn := yieldOnReturn
  priority _ _ := by rw [priority_congr rank]
  rises := Int.le_of_eq (by rw [priority_congr rank])

theorem Quiet.refl (L : Layout) : L.Quiet L := .of_same rfl rfl rfl rfl rfl rfl

theorem Quiet.trans (h : L.Quiet L₁) (h' : L₁.Quiet L₂) : L.Quiet L₂ where
  ready := h'.ready.trans h.ready
  current := h'.current.trans h.current
  idle := h'.idle.trans h.idle
  inHandler := h'.inHandler.trans h.inHandler
  yieldOnReturn := h'.yieldOnReturn.trans h.yieldOnReturn
  priority t mem := (h'.priority t (h.ready ▸ mem)).trans (h.priority t mem)
  rises := Int.le_trans h.rises (h.current ▸ h'.rises)

theorem Quiet.top (h : L.Quiet L') (top : L.Top) : L'.Top where
  le t mem := by
    rw [h.ready] at mem
    rw [h.priority t mem, h.current]
    exact Int.le_trans (top.le t mem) h.rises
  idle runs := by
    rw [h.ready]
    exact top.idle (by rw [← h.current, ← h.idle, runs])

theorem Quiet.led (h : L.Quiet L') (led : L.Led) : L'.Led := by
  refine led.imp h.top fun ⟨inHandler, yieldOnReturn⟩ => ?_
  exact ⟨h.inHandler.trans inHandler, h.yieldOnReturn.trans yieldOnReturn⟩

end

theorem restore_eq {L : Layout} {level : InterruptLevel} (off : L.interrupts = .off)
    (allowed : level = .on → L.inHandler = false) : L.restore level = L.setInterrupts level := by
  unfold restore
  cases level with
  | on => simp [allowed]
  | off =>
    rw [if_neg (by simp), ← off]
    rfl

end Layout

namespace Scheduler

open Transition

/-- The threads of a queue; those in no queue are not listed. -/
def queue (s : Scheduler) : Membership → List Tid
  | .none => []
  | .ready => s.ready.tids
  | .sleep => s.sleepers.tids
  | .lock l => (s.lockState l).waiters.tids
  | .semaphore i => (s.semaphoreState i).waiters.tids
  | .condvar c => (s.condvarState c).waiters.tids

def layout (s : Scheduler) : Layout where
  place t := (s.thread? t).map Thread.place
  rank t := (s.thread? t).map Thread.rank
  queue := s.queue
  holder := s.holder
  relock c t := (s.condvarState c).relock.find? t
  locks := s.locks.length
  semaphores := s.semaphores.length
  condvars := s.condvars.length
  dying := s.dying
  current := s.current
  idle := s.idle
  next := s.allocator.next
  feedback := s.feedback
  interrupts := s.interrupts
  inHandler := s.inHandler
  yieldOnReturn := s.yieldOnReturn

section

variable {s : Scheduler} {t : Tid} {th : Thread} {p : Place}

theorem place_of_thread (known : s.thread? t = some th) : s.layout.place t = some th.place := by
  simp [layout, known]

theorem rank_of_thread (known : s.thread? t = some th) : s.layout.rank t = some th.rank := by
  simp [layout, known]

theorem exists_thread (known : s.layout.place t = some p) :
    ∃ th, s.thread? t = some th ∧ th.place = p :=
  Option.map_eq_some_iff.mp known

theorem thread?_eq_none : s.thread? t = none ↔ s.layout.place t = none := by
  simp [layout]

theorem priority_layout : s.layout.priority = s.priorityOf := by
  funext t
  simp [Layout.priority, layout, priorityOf, Thread.rank, Function.comp_def]

end

/-! ## Threads -/

section

variable {α : Type} {s : Scheduler} {t : Tid} {th : Thread} {f : Thread → Thread}
  {E : Violation → Scheduler → Prop}

theorem ends_thread {Q : Thread → Scheduler → Prop} (known : s.thread? t = some th) :
    (thread t).Ends s Q E ↔ Q th s := by
  unfold Ends thread
  rw [known]

theorem ends_thread_of_none {Q : Thread → Scheduler → Prop} (absent : s.thread? t = none) :
    (thread t).Ends s Q E ↔ E (.noSuchThread t) s := by
  unfold Ends thread
  rw [absent]

variable {Q : Unit → Scheduler → Prop}

theorem ends_updateThread_of_some (known : s.thread? t = some th) :
    (updateThread t f).Ends s Q E ↔ Q () { s with threads := s.threads.modify t f } := by
  unfold Ends updateThread
  rw [known]

private theorem map_thread?_modify {α : Type} (g : Thread → α) (known : s.thread? t = some th) :
    (fun x => ((s.threads.modify t f).find? x).map g) =
      Function.update (fun x => (s.thread? x).map g) t (some (g (f th))) := by
  funext x
  rw [Table.find?_modify]
  by_cases hx : x = t
  · subst hx
    simp only [if_pos, Function.update_self]
    rw [show s.threads.find? x = some th from known]
    rfl
  · simp [hx, thread?]

/-- A change of a control block changes the place and the rank of that thread. -/
theorem ends_updateThread (known : s.thread? t = some th)
    (next : ∀ s', s'.layout =
      (s.layout.setPlace t (some (f th).place)).setRank t (some (f th).rank) → Q () s') :
    (updateThread t f).Ends s Q E := by
  rw [ends_updateThread_of_some known]
  apply next
  ext1 <;> try rfl
  · exact map_thread?_modify Thread.place known
  · exact map_thread?_modify Thread.rank known

/-- A thread is moved, and its priorities stay. -/
theorem ends_updateThread_place (known : s.thread? t = some th) (same : (f th).rank = th.rank)
    (next : ∀ s', s'.layout = s.layout.setPlace t (some (f th).place) → Q () s') :
    (updateThread t f).Ends s Q E := by
  apply ends_updateThread known
  intro s' h
  apply next
  rw [h, same, ← rank_of_thread known]
  exact Layout.setRank_self (s.layout.setPlace t _) t

/-- The priorities of a thread change, and it stays where it is. -/
theorem ends_updateThread_rank (known : s.thread? t = some th) (same : (f th).place = th.place)
    (next : ∀ s', s'.layout = s.layout.setRank t (some (f th).rank) → Q () s') :
    (updateThread t f).Ends s Q E := by
  apply ends_updateThread known
  intro s' h
  apply next
  rw [h, same, ← place_of_thread known, Layout.setPlace_self]

/-- Nothing the layout shows is changed. -/
theorem ends_updateThread_other (known : s.thread? t = some th) (place : (f th).place = th.place)
    (rank : (f th).rank = th.rank) (next : ∀ s', s'.layout = s.layout → Q () s') :
    (updateThread t f).Ends s Q E := by
  apply ends_updateThread_place known rank
  intro s' h
  apply next
  rw [h, place, ← place_of_thread known, Layout.setPlace_self]

theorem ends_updateThread_of_none (absent : s.thread? t = none) :
    (updateThread t f).Ends s Q E ↔ E (.noSuchThread t) s := by
  unfold Ends updateThread
  rw [absent]

theorem layout_insert : ({ s with threads := s.threads.insert t th } : Scheduler).layout =
    (s.layout.setPlace t (some th.place)).setRank t (some th.rank) := by
  ext1 <;> try rfl
  all_goals
    funext x
    by_cases hx : x = t
    · subst hx
      simp [layout, thread?, Table.find?_insert]
    · simp [layout, thread?, Table.find?_insert, hx]

theorem layout_erase : ({ s with threads := s.threads.erase t } : Scheduler).layout =
    (s.layout.setPlace t none).setRank t none := by
  ext1 <;> try rfl
  all_goals
    funext x
    by_cases hx : x = t
    · subst hx
      simp [layout, thread?, Table.find?_erase]
    · simp [layout, thread?, Table.find?_erase, hx]

/-- A change outside the layout. -/
theorem ends_modify_other {g : Scheduler → Scheduler} (same : (g s).layout = s.layout)
    (next : ∀ s', s'.layout = s.layout → Q () s') : (modify g).Ends s Q E :=
  next _ same

end

/-! ## Interrupts -/

section

variable {s : Scheduler} {level : InterruptLevel} {E : Violation → Scheduler → Prop}

theorem ends_disableInterrupts {Q : InterruptLevel → Scheduler → Prop}
    (next : ∀ s', s'.layout = s.layout.setInterrupts .off → Q s.layout.interrupts s') :
    disableInterrupts.Ends s Q E :=
  next _ rfl

theorem ends_restoreInterrupts {Q : Unit → Scheduler → Prop}
    (next : ∀ s', s'.layout = s.layout.restore level → Q () s') :
    (restoreInterrupts level).Ends s Q E := by
  apply next
  change (if level = .on ∧ s.inHandler = false then { s with interrupts := .on } else s).layout = _
  unfold Layout.restore
  by_cases h : level = .on ∧ s.inHandler = false
  · have h' : level = .on ∧ s.layout.inHandler = false := h
    rw [if_pos h, if_pos h']
    rfl
  · have h' : ¬(level = .on ∧ s.layout.inHandler = false) := h
    rw [if_neg h, if_neg h']

/-- The level from before a stretch without interrupts can be set again unless the stretch is
part of a handler. -/
theorem ends_setInterrupts {Q : InterruptLevel → Scheduler → Prop}
    (allowed : level = .on → s.layout.inHandler = false)
    (next : ∀ a s', s'.layout = s.layout.setInterrupts level → Q a s') :
    (setInterrupts level).Ends s Q E := by
  cases level with
  | off => exact next _ _ rfl
  | on =>
    simp only [setInterrupts, enableInterrupts, ends_bind, ends_get, ends_ensure, ends_modify,
      ends_pure]
    exact ⟨fun _ => next _ _ rfl, fun h => absurd (allowed rfl) h⟩

end

/-! ## Queues -/

section

variable {s : Scheduler} {t : Tid} {l : LockId} {i : SemaphoreId} {c : CondvarId}
  {E : Violation → Scheduler → Prop}

private theorem getD_modify {α : Type} [Inhabited α] {xs : List α} {i : Nat} (f : α → α)
    (h : i < xs.length) (k : Nat) :
    (xs.modify i f)[k]?.getD default =
      if k = i then f (xs[i]?.getD default) else xs[k]?.getD default := by
  by_cases hk : k = i
  · subst hk
    simp [h]
  · simp [hk, Ne.symm hk]

section

variable {Q : Unit → Scheduler → Prop}

theorem ends_pushReady {choice : Scheduler → Tid} (fresh : choice s ∉ s.layout.queue .ready)
    (next : ∀ s', s'.layout = s.layout.setQueue .ready (s.layout.queue .ready ++ [choice s]) →
      Q () s') :
    (update fun s => (s.ready.push (choice s)).map fun q => { s with ready := q }).Ends s Q E := by
  have pushed : (s.ready.push (choice s)).map (fun q => { s with ready := q }) =
      .ok { s with ready := ⟨s.ready.tids ++ [choice s]⟩ } := by
    rw [PriorityQueue.push_of_not_mem (q := s.ready) fresh]
    rfl
  rw [ends_update_of_ok pushed]
  apply next
  ext1 <;> try rfl
  funext m
  cases m <;> simp [layout, queue, lockState, semaphoreState, condvarState]

theorem layout_setSleepers (q : SleepQueue) :
    ({ s with sleepers := q } : Scheduler).layout = s.layout.setQueue .sleep q.tids := by
  ext1 <;> try rfl
  funext m
  cases m <;> simp [layout, queue, lockState, semaphoreState, condvarState]

theorem ends_pushSleeper {choice : Scheduler → Tid} (wakeTick : Nat)
    (next : ∀ s' waiting, waiting.Perm (choice s :: s.layout.queue .sleep) →
      s'.layout = s.layout.setQueue .sleep waiting → Q () s') :
    (modify fun s : Scheduler => { s with sleepers := s.sleepers.push (choice s) wakeTick }).Ends
      s Q E :=
  next _ _ (s.sleepers.perm_push (choice s) wakeTick) (layout_setSleepers _)

private theorem lockState_modify (f : LockState → LockState) (h : l.index < s.locks.length)
    (k : LockId) : ({ s with locks := s.locks.modify l.index f } : Scheduler).lockState k =
      if k = l then f (s.lockState l) else s.lockState k := by
  obtain ⟨k⟩ := k
  obtain ⟨l⟩ := l
  simpa only [lockState, LockId.mk.injEq] using getD_modify f h k

theorem ends_updateLock {f : LockState → LockState} (exists_lock : l.index < s.layout.locks)
    (next : ∀ s', s'.layout =
      (s.layout.setQueue (.lock l) (f (s.lockState l)).waiters.tids).setHolder l
        (f (s.lockState l)).holder → Q () s') :
    (updateLock l f).Ends s Q E := by
  apply next { s with locks := s.locks.modify l.index f }
  have state := lockState_modify f exists_lock
  ext1 <;> try rfl
  · funext m
    cases m with
    | lock k => by_cases hk : k = l <;> simp [layout, queue, state, hk]
    | _ => simp [layout, queue, semaphoreState, condvarState]
  · funext k
    by_cases hk : k = l <;> simp [layout, holder, state, hk]
  · simp [layout]

theorem ends_updateLock_holder {new : Option Tid} (exists_lock : l.index < s.layout.locks)
    (next : ∀ s', s'.layout = s.layout.setHolder l new → Q () s') :
    (updateLock l fun x => { x with holder := new }).Ends s Q E := by
  apply ends_updateLock exists_lock
  intro s' h
  apply next
  rw [h]
  exact congrArg (Layout.setHolder · l new) (s.layout.setQueue_self (.lock l))

theorem ends_updateLock_waiters {waiters : PriorityQueue} (exists_lock : l.index < s.layout.locks)
    (next : ∀ s', s'.layout = s.layout.setQueue (.lock l) waiters.tids → Q () s') :
    (updateLock l fun x => { x with waiters }).Ends s Q E := by
  apply ends_updateLock exists_lock
  intro s' h
  apply next
  rw [h]
  exact (s.layout.setQueue (.lock l) waiters.tids).setHolder_self l

theorem semaphoreState_modify (f : SemaphoreState → SemaphoreState)
    (h : i.index < s.semaphores.length) (k : SemaphoreId) :
    ({ s with semaphores := s.semaphores.modify i.index f } : Scheduler).semaphoreState k =
      if k = i then f (s.semaphoreState i) else s.semaphoreState k := by
  obtain ⟨k⟩ := k
  obtain ⟨i⟩ := i
  simpa only [semaphoreState, SemaphoreId.mk.injEq] using getD_modify f h k

theorem ends_updateSemaphore {f : SemaphoreState → SemaphoreState}
    (exists_semaphore : i.index < s.layout.semaphores)
    (next : ∀ s', s'.layout =
      s.layout.setQueue (.semaphore i) (f (s.semaphoreState i)).waiters.tids → Q () s') :
    (updateSemaphore i f).Ends s Q E := by
  apply next { s with semaphores := s.semaphores.modify i.index f }
  have state := semaphoreState_modify f exists_semaphore
  ext1 <;> try rfl
  · funext m
    cases m with
    | semaphore k => by_cases hk : k = i <;> simp [layout, queue, state, hk]
    | _ => simp [layout, queue, lockState, condvarState]
  · simp [layout]

private theorem condvarState_modify (f : CondvarState → CondvarState)
    (h : c.index < s.condvars.length) (k : CondvarId) :
    ({ s with condvars := s.condvars.modify c.index f } : Scheduler).condvarState k =
      if k = c then f (s.condvarState c) else s.condvarState k := by
  obtain ⟨k⟩ := k
  obtain ⟨c⟩ := c
  simpa only [condvarState, CondvarId.mk.injEq] using getD_modify f h k

theorem ends_updateCondvar {f : CondvarState → CondvarState}
    (exists_condvar : c.index < s.layout.condvars)
    (next : ∀ s', s'.layout =
      (s.layout.setQueue (.condvar c) (f (s.condvarState c)).waiters.tids).setRelock
        (Function.update s.layout.relock c (f (s.condvarState c)).relock.find?) → Q () s') :
    (updateCondvar c f).Ends s Q E := by
  apply next { s with condvars := s.condvars.modify c.index f }
  have state := condvarState_modify f exists_condvar
  ext1 <;> try rfl
  · funext m
    cases m with
    | condvar k => by_cases hk : k = c <;> simp [layout, queue, state, hk]
    | _ => simp [layout, queue, lockState, semaphoreState]
  · funext k
    by_cases hk : k = c <;> funext x <;> simp [layout, state, hk]
  · simp [layout]

end

/-! ## Taking a thread out of a queue -/

theorem exists_lock_of_waiter (h : t ∈ s.layout.queue (.lock l)) : l.index < s.layout.locks := by
  by_contra out
  have out : ¬l.index < s.locks.length := out
  simp [layout, queue, lockState, out, default, PriorityQueue.empty] at h

theorem exists_lock_of_holder (h : s.layout.holder l = some t) : l.index < s.layout.locks := by
  by_contra out
  have out : ¬l.index < s.locks.length := out
  simp [layout, holder, lockState, out, default] at h

theorem exists_semaphore_of_waiter (h : t ∈ s.layout.queue (.semaphore i)) :
    i.index < s.layout.semaphores := by
  by_contra out
  have out : ¬i.index < s.semaphores.length := out
  simp [layout, queue, semaphoreState, out, default, PriorityQueue.empty] at h

theorem exists_condvar_of_waiter (h : t ∈ s.layout.queue (.condvar c)) :
    c.index < s.layout.condvars := by
  by_contra out
  have out : ¬c.index < s.condvars.length := out
  simp [layout, queue, condvarState, out, default, PriorityQueue.empty] at h

private theorem modify_eq_self {α : Type} [Inhabited α] {xs : List α} {i : Nat} {f : α → α}
    (h : f (xs[i]?.getD default) = xs[i]?.getD default) : xs.modify i f = xs := by
  by_cases hi : i < xs.length
  · apply List.ext_getElem (by simp)
    intro k hk hk'
    by_cases ik : i = k
    · subst ik
      simpa [List.getElem_modify, hi] using h
    · simp [ik]
  · exact List.modify_eq_self (by omega)

variable {Q : Option Tid → Scheduler → Prop}

theorem ends_popLockWaiter
    (empty : s.layout.queue (.lock l) = [] → Q none s)
    (next : ∀ w s', s.layout.Foremost (.lock l) w →
      s'.layout = s.layout.setQueue (.lock l) ((s.layout.queue (.lock l)).erase w) →
        Q (some w) s') :
    (popLockWaiter l).Ends s Q E := by
  unfold popLockWaiter
  rw [ends_modifyGet]
  cases found : ((s.lockState l).waiters.popMax s.priorityOf).1 with
  | none =>
    obtain ⟨unwanted, same⟩ := PriorityQueue.popMax_of_none found
    simp only [same]
    rw [modify_eq_self (by rfl)]
    exact empty unwanted
  | some w =>
    obtain ⟨foremost, rest⟩ := PriorityQueue.popMax_of_some found
    have mem := foremost.mem
    rw [← priority_layout] at foremost
    simp only [rest]
    apply ends_updateLock (Q := fun _ => Q (some w)) (E := E) (exists_lock_of_waiter mem)
    intro s' h
    apply next w s' foremost
    rw [h]
    exact Layout.setHolder_self (s.layout.setQueue _ _) l

theorem ends_popSemaphoreWaiter
    (empty : s.layout.queue (.semaphore i) = [] → Q none s)
    (next : ∀ w s', s.layout.Foremost (.semaphore i) w →
      s'.layout = s.layout.setQueue (.semaphore i) ((s.layout.queue (.semaphore i)).erase w) →
        Q (some w) s') :
    (popSemaphoreWaiter i).Ends s Q E := by
  unfold popSemaphoreWaiter
  rw [ends_modifyGet]
  cases found : ((s.semaphoreState i).waiters.popMax s.priorityOf).1 with
  | none =>
    obtain ⟨unwanted, same⟩ := PriorityQueue.popMax_of_none found
    simp only [same]
    rw [modify_eq_self (by rfl)]
    exact empty unwanted
  | some w =>
    obtain ⟨foremost, rest⟩ := PriorityQueue.popMax_of_some found
    have mem := foremost.mem
    rw [← priority_layout] at foremost
    simp only [rest]
    exact ends_updateSemaphore (Q := fun _ => Q (some w)) (E := E) (exists_semaphore_of_waiter mem)
      fun s' h => next w s' foremost h

theorem ends_popCondvarWaiter
    (empty : s.layout.queue (.condvar c) = [] → Q none s)
    (next : ∀ w s', s.layout.Foremost (.condvar c) w →
      s'.layout = s.layout.setQueue (.condvar c) ((s.layout.queue (.condvar c)).erase w) →
        Q (some w) s') :
    (popCondvarWaiter c).Ends s Q E := by
  unfold popCondvarWaiter
  rw [ends_modifyGet]
  cases found : ((s.condvarState c).waiters.popMax s.priorityOf).1 with
  | none =>
    obtain ⟨unwanted, same⟩ := PriorityQueue.popMax_of_none found
    simp only [same]
    rw [modify_eq_self (by rfl)]
    exact empty unwanted
  | some w =>
    obtain ⟨foremost, rest⟩ := PriorityQueue.popMax_of_some found
    have mem := foremost.mem
    rw [← priority_layout] at foremost
    simp only [rest]
    apply ends_updateCondvar (Q := fun _ => Q (some w)) (E := E) (exists_condvar_of_waiter mem)
    intro s' h
    apply next w s' foremost
    rw [h, show (s.condvarState c).relock.find? = s.layout.relock c from rfl,
      Function.update_eq_self]
    rfl

theorem ends_pickNext {Q : Tid → Scheduler → Prop}
    (empty : s.layout.queue .ready = [] → Q s.layout.idle s)
    (next : ∀ w s', s.layout.Foremost .ready w →
      s'.layout = s.layout.setQueue .ready ((s.layout.queue .ready).erase w) → Q w s') :
    pickNext.Ends s Q E := by
  unfold pickNext
  rw [ends_modifyGet]
  cases found : (s.ready.popMax s.priorityOf).1 with
  | none =>
    obtain ⟨unwanted, same⟩ := PriorityQueue.popMax_of_none found
    simp only [same, found, Option.getD_none]
    exact empty unwanted
  | some w =>
    obtain ⟨foremost, rest⟩ := PriorityQueue.popMax_of_some found
    have mem := foremost.mem
    rw [← priority_layout] at foremost
    simp only [rest, found, Option.getD_some]
    apply next w _ foremost
    ext1 <;> try rfl
    funext m
    cases m <;> simp [layout, queue, lockState, semaphoreState, condvarState]

end

end Scheduler

end KernelCore
