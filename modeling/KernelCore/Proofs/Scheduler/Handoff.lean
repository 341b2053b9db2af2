import KernelCore.Proofs.Scheduler.Runs
import KernelCore.Proofs.Scheduler.Synchronizers

/-!
# Locks are handed over

A lock that its holder gives up goes straight to the foremost of its waiters. So a thread that has
asked for a lock, at once or when it is signalled, does not go on before it holds it.
-/
namespace KernelCore

/-- A thread waits for a lock, or to be signalled and to have the lock again. -/
def Layout.Awaits (L : Layout) (t : Tid) (l : LockId) : Prop :=
  t ∈ L.queue (.lock l) ∨ ∃ c, t ∈ L.queue (.condvar c) ∧ L.relock c t = some l

/-- Nobody waits for a lock it holds, and the waiters of a condition variable are the threads with
a lock to have again. -/
structure Layout.Paired (L : Layout) : Prop where
  apart : ∀ l t, L.holder l = some t → t ∉ L.queue (.lock l)
  keyed : ∀ c t, L.relock c t ≠ none ↔ t ∈ L.queue (.condvar c)

/-- The current thread gives up some locks, and the foremost of their waiters hold them next. All
others hold what they held, and nobody jumps a queue or leaves it without the lock. -/
structure Layout.Exchanged (given : LockId → Prop) (L L' : Layout) : Prop where
  holder : ∀ l t, L.holder l = some t → L'.holder l = some t ∨
    given l ∧ t = L.current ∧
      (L.queue (.lock l) = [] ∧ L'.holder l = none ∨
        ∃ w, L.Foremost (.lock l) w ∧ L'.holder l = some w)
  order : ∀ l, ∃ kept arrived, L'.queue (.lock l) = kept ++ arrived ∧
    kept.Sublist (L.queue (.lock l)) ∧ ∀ t ∈ arrived, t ∉ L.queue (.lock l)
  awaits : ∀ t l, L.Awaits t l → L'.Awaits t l ∨ L'.holder l = some t
  paired : L.Paired → L'.Paired

namespace Layout

variable {R : Prop} {P : Set Tid} {L L₁ L' : Layout} {given : LockId → Prop} {t : Tid}
  {l : LockId} {c : CondvarId}

theorem Untouched.awaits (h : L.Untouched L') : L'.Awaits t l ↔ L.Awaits t l := by
  simp only [Awaits, h.lockWaiters, h.condvarWaiters, h.relock]

theorem Untouched.paired (h : L.Untouched L') : L'.Paired ↔ L.Paired := by
  constructor <;> intro paired <;> constructor
  · simpa only [h.holder, h.lockWaiters] using paired.apart
  · simpa only [h.relock, h.condvarWaiters] using paired.keyed
  · simpa only [h.holder, h.lockWaiters] using paired.apart
  · simpa only [h.relock, h.condvarWaiters] using paired.keyed

theorem Exchanged.untouched (h : L.Exchanged given L₁) (h' : L₁.Untouched L') :
    L.Exchanged given L' where
  holder l t := by
    rw [h'.holder]
    exact h.holder l t
  order l := by
    rw [h'.lockWaiters]
    exact h.order l
  awaits t l waits := by
    rw [h'.awaits, h'.holder]
    exact h.awaits t l waits
  paired before := h'.paired.mpr (h.paired before)

theorem Exchanged.refl (L : Layout) : L.Exchanged given L where
  holder _ _ holds := .inl holds
  order l := ⟨L.queue (.lock l), [], by simp, .refl _, by simp⟩
  awaits _ _ waits := .inl waits
  paired before := before

/-- A free lock has no waiters, so whoever takes it does not wait for it. -/
theorem Exchanged.take (h : Arranged R P L) (free : L.holder l = none) (t : Tid) :
    L.Exchanged given (L.setHolder l (some t)) where
  holder k u holds := by
    left
    have other : k ≠ l := by
      rintro rfl
      simp [free] at holds
    simpa [other] using holds
  order k := ⟨L.queue (.lock k), [], by simp, .refl _, by simp⟩
  awaits _ _ waits := .inl waits
  paired before := by
    refine ⟨fun k u holds => ?_, before.keyed⟩
    by_cases same : k = l
    · subst same
      simp [h.held k free]
    · exact before.apart k u (by simpa [same] using holds)

/-- A thread that waits for nothing joins the waiters of a lock another thread holds. -/
theorem Exchanged.join (fresh : t ∉ L.queue (.lock l)) (other : L.holder l ≠ some t) :
    L.Exchanged given (L.setQueue (.lock l) (L.queue (.lock l) ++ [t])) where
  holder _ _ holds := .inl holds
  order k := by
    by_cases same : k = l
    · subst same
      exact ⟨L.queue (.lock k), [t], by simp, .refl _, by simpa using fresh⟩
    · exact ⟨L.queue (.lock k), [], by simp [same], .refl _, by simp⟩
  awaits u k waits := by
    refine .inl (waits.imp (fun mem => ?_) fun waits => by simpa using waits)
    by_cases same : k = l
    · subst same
      simp [mem]
    · simpa [same] using mem
  paired before := by
    refine ⟨fun k u holds => ?_, by simpa using before.keyed⟩
    have apart := before.apart k u holds
    by_cases same : k = l
    · subst same
      have other : u ≠ t := by
        rintro rfl
        exact other holds
      simp [apart, other]
    · simpa [same] using apart

theorem Relieved.exchanged (h : Arranged R P L) {gone : LockId → Prop}
    (relieved : L.Relieved gone L') (own : ∀ l, gone l → L.holder l = some L.current)
    (allowed : ∀ l, gone l → given l) : L.Exchanged given L' where
  holder l t holds := by
    by_cases goes : gone l
    · refine .inr ⟨allowed l goes, Option.some.inj (holds.symm.trans (own l goes)), ?_⟩
      rcases relieved.next l goes with ⟨empty, -, free⟩ | ⟨w, foremost, -, next⟩
      · exact .inl ⟨empty, free⟩
      · exact .inr ⟨w, foremost, next⟩
    · exact .inl ((relieved.kept l goes).1.trans holds)
  order l := by
    refine ⟨L'.queue (.lock l), [], by simp, ?_, by simp⟩
    by_cases goes : gone l
    · rcases relieved.next l goes with ⟨-, empty, -⟩ | ⟨w, -, rest, -⟩
      · simp [empty]
      · exact rest ▸ List.erase_sublist
    · rw [(relieved.kept l goes).2]
  awaits t l waits := by
    rcases waits with mem | ⟨c, mem, noted⟩
    · by_cases goes : gone l
      · rcases relieved.next l goes with ⟨empty, -, -⟩ | ⟨w, -, rest, next⟩
        · simp [empty] at mem
        · by_cases first : t = w
          · exact .inr (first ▸ next)
          · exact .inl (.inl (rest ▸ (List.mem_erase_of_ne first).mpr mem))
      · exact .inl (.inl ((relieved.kept l goes).2 ▸ mem))
    · exact .inl (.inr ⟨c, (relieved.condvarWaiters c) ▸ mem, relieved.relock ▸ noted⟩)
  paired before := by
    constructor
    · intro l t holds
      by_cases goes : gone l
      · rcases relieved.next l goes with ⟨-, empty, -⟩ | ⟨w, -, rest, next⟩
        · simp [empty]
        · obtain rfl := Option.some.inj (holds.symm.trans next)
          rw [rest, (h.nodup (.lock l)).mem_erase_iff]
          exact fun still => still.1 rfl
      · rw [(relieved.kept l goes).1] at holds
        rw [(relieved.kept l goes).2]
        exact before.apart l t holds
    · simpa only [relieved.relock, relieved.condvarWaiters] using before.keyed

/-- A thread that waits for nothing waits on a condition variable and has noted its lock. -/
theorem Exchanged.lie (h : L.Exchanged given L₁) (idle : ∀ k, ¬L.Awaits t k) :
    L.Exchanged given (L₁.lie c l t) where
  holder := h.holder
  order := h.order
  awaits u k waits := by
    have other : u ≠ t := by
      rintro rfl
      exact idle k waits
    refine (h.awaits u k waits).imp_left ?_
    rintro (mem | ⟨d, mem, noted⟩)
    · exact .inl mem
    · refine .inr ⟨d, ?_, ?_⟩
      · by_cases same : d = c
        · subst same
          simp [Layout.lie, mem]
        · simpa [Layout.lie, same] using mem
      · by_cases same : d = c
        · subst same
          simpa [Layout.lie, other] using noted
        · simpa [Layout.lie, same] using noted
  paired before := by
    have paired := h.paired before
    refine ⟨paired.apart, fun d u => ?_⟩
    by_cases same : d = c
    · subst same
      by_cases own : u = t
      · simp [Layout.lie, own]
      · simpa [Layout.lie, own] using paired.keyed d u
    · simpa [Layout.lie, same] using paired.keyed d u

/-- Threads that waited on a condition variable wait for their lock. -/
theorem Roused.exchanged (h : Arranged R P L) {moved : List Tid} (roused : L.Roused c l moved L') :
    L.Exchanged given L' := by
  refine Exchanged.untouched ?_ roused.rest
  have queue : ∀ k, (L.rouse c l moved).queue (.lock k) =
      if k = l then L.queue (.lock l) ++ moved else L.queue (.lock k) := by
    intro k
    by_cases same : k = l <;> simp [rouse, same]
  have waiters : ∀ d, (L.rouse c l moved).queue (.condvar d) =
      if d = c then (L.queue (.condvar c)).filter (· ∉ moved) else L.queue (.condvar d) := by
    intro d
    by_cases same : d = c <;> simp [rouse, same]
  have noted : ∀ d t, (L.rouse c l moved).relock d t =
      if d = c ∧ t ∈ moved then none else L.relock d t := by
    intro d t
    by_cases same : d = c
    · subst same
      simp [rouse]
    · simp [rouse, same]
  constructor
  case holder => exact fun _ _ holds => .inl holds
  case order =>
    intro k
    by_cases same : k = l
    · subst same
      refine ⟨L.queue (.lock k), moved, by simp [queue], .refl _, fun t mem elsewhere => ?_⟩
      obtain ⟨p, known, there⟩ := h.exists_of_mem_queue (by simp) elsewhere
      have here := (h.mem_queue known (by simp)).mp (roused.waited t mem).1
      simp [there] at here
    · exact ⟨L.queue (.lock k), [], by simp [queue, same], .refl _, by simp⟩
  case awaits =>
    rintro t k (mem | ⟨d, mem, own⟩)
    · left; left
      rw [queue]
      split
      · rename_i same
        exact List.mem_append_left _ (same ▸ mem)
      · exact mem
    · left
      by_cases goes : d = c ∧ t ∈ moved
      · obtain ⟨rfl, goes⟩ := goes
        obtain rfl := Option.some.inj (own.symm.trans (roused.waited t goes).2.1)
        left
        rw [queue, if_pos rfl]
        exact List.mem_append_right _ goes
      · right
        refine ⟨d, ?_, by rw [noted, if_neg goes]; exact own⟩
        rw [waiters]
        split
        · rename_i same
          subst same
          simpa [mem] using goes
        · exact mem
  case paired =>
    intro before
    constructor
    · intro k t holds
      have apart := before.apart k t holds
      rw [queue]
      split
      · rename_i same
        subst same
        rw [List.mem_append, not_or]
        exact ⟨apart, fun mem => (roused.waited t mem).2.2 holds⟩
      · exact apart
    · intro d t
      rw [noted, waiters]
      have keyed := before.keyed d t
      grind

end Layout

/-- The running thread waits for nothing. -/
theorem Orderly.not_awaits_current {R : Prop} {P : Set Tid} {L : Layout} (h : Orderly R P L) (l : LockId) :
    ¬L.Awaits L.current l := by
  obtain ⟨p, known, -, free⟩ := h.current
  rintro (mem | ⟨c, mem, -⟩)
  · have there := (h.mem_queue known (by simp)).mp mem
    simp [there] at free
  · have there := (h.mem_queue known (by simp)).mp mem
    simp [there] at free

/-- Whoever waits for a lock is blocked. -/
theorem Orderly.blocked_of_awaits {R : Prop} {P : Set Tid} {L : Layout} {t : Tid} {l : LockId}
    (h : Orderly R P L) (waits : L.Awaits t l) : ∃ p, L.place t = some p ∧ p.state = .blocked := by
  have blocked : ∀ {m : Membership}, m ≠ .none → m ≠ .ready → t ∈ L.queue m →
      ∃ p, L.place t = some p ∧ p.state = .blocked := by
    intro m m_ne unready mem
    obtain ⟨p, known, rfl⟩ := h.exists_of_mem_queue m_ne mem
    exact ⟨p, known, h.blocked_of_waits known (h.ne_current_of_waits known m_ne) m_ne unready⟩
  rcases waits with mem | ⟨c, mem, -⟩
  · exact blocked (by simp) (by simp) mem
  · exact blocked (by simp) (by simp) mem

namespace Scheduler

open Transition

/-! ## What events do to locks -/

/-- The current thread gives the lock up if the event succeeds. -/
def Event.GivesUp (l : LockId) : Event → Prop
  | .request (.release n) => n = l.index
  | .request (.wait _ n) => n = l.index
  | .request (.exit _) => True
  | _ => False

/-- The current thread has to have the lock before it goes on. -/
def Event.AsksFor (l : LockId) : Event → Prop
  | .request (.acquire n) => n = l.index
  | .request (.wait _ n) => n = l.index
  | _ => False

section

variable {R : Prop} {P : Set Tid} {s : Scheduler} {e : Event} {l : LockId} {t : Tid}

/-- What leaves locks and condition variables alone gives nothing up. -/
theorem ends_exchanged {α : Type} {u : Scheduling α} {given : LockId → Prop}
    (h : Preserves synchronizers u) :
    u.Ends s (fun _ s' => s.layout.Exchanged given s'.layout) fun _ _ => True :=
  (ends_untouched h (.refl _)).imp fun _ _ same => (Layout.Exchanged.refl _).untouched same

theorem Grown.exchanged {s' : Scheduler} {given : LockId → Prop} (h : Grown s s') :
    s.layout.Exchanged given s'.layout :=
  (Layout.Exchanged.refl _).untouched h.untouched

/-- A request that is not about locks or condition variables leaves them all alone. -/
theorem perform_synchronizers {r : Request} (single : ∀ handler, r ≠ .interrupt handler)
    (locks : ¬(Event.request r).Touches .locks) (condvars : ¬(Event.request r).Touches .condvars) :
    Preserves synchronizers (perform r) := by
  refine perform_preserves single fun p touches => ⟨synchronizers_alone ?_ ?_⟩
  · rintro rfl
    exact locks touches
  · rintro rfl
    exact condvars touches

section

variable {given : LockId → Prop} {lock condvar : Nat}

theorem acquire_exchanged (h : Orderly R P s.layout) :
    (perform (.acquire lock)).Ends s (fun _ s' => s.layout.Exchanged given s'.layout)
      fun _ _ => True := by
  refine ends_lockNumbered (F := fun _ => True) (fun _ _ => trivial) fun exists_lock => ?_
  rw [ends_bind]
  refine (acquire_untouched exists_lock).imp fun _ s' after => ?_
  rcases after with ⟨free, taken⟩ | ⟨⟨u, held, other⟩, joined⟩
  · exact (Layout.Exchanged.take h.toArranged free _).untouched taken
  · refine Layout.Exchanged.untouched (.join ?_ ?_) joined
    · exact fun mem => h.not_awaits_current _ (.inl mem)
    · exact fun holds => other (Option.some.inj (held.symm.trans holds))

theorem tryAcquire_exchanged (h : Orderly R P s.layout) :
    (perform (.tryAcquire lock)).Ends s (fun _ s' => s.layout.Exchanged given s'.layout)
      fun _ _ => True := by
  refine ends_lockNumbered (F := fun _ => True) (fun _ _ => trivial) fun exists_lock => ?_
  rw [ends_bind]
  refine (tryAcquire_untouched exists_lock).imp fun _ s' after => ?_
  rcases after with same | ⟨free, taken⟩
  · exact (Layout.Exchanged.refl _).untouched same
  · exact (Layout.Exchanged.take h.toArranged free _).untouched taken

theorem release_exchanged (h : Orderly R P s.layout) :
    (perform (.release lock)).Ends s
      (fun _ s' => s.layout.Exchanged (fun l => lock = l.index) s'.layout) fun _ _ => True := by
  refine ends_lockNumbered (F := fun _ => True) (fun _ _ => trivial) fun _ => ?_
  refine ends_bind.mpr ((release_untouched h).imp ?_)
  rintro - s' ⟨holds, relieved⟩
  apply relieved.exchanged h.toArranged
  · rintro l rfl
    exact holds
  · rintro l rfl
    rfl

theorem wait_exchanged (h : Orderly R P s.layout) :
    (perform (.wait condvar lock)).Ends s
      (fun _ s' => s.layout.Exchanged (fun l => lock = l.index) s'.layout) fun _ _ => True := by
  refine ends_condvarNumbered (F := fun _ => True) (fun _ _ => trivial) fun exists_condvar => ?_
  refine ends_lockNumbered (F := fun _ => True) (fun _ _ => trivial) fun _ => ?_
  refine ends_bind.mpr ((wait_untouched h exists_condvar).imp ?_)
  rintro - s' ⟨holds, L₁, relieved, lain⟩
  refine Layout.Exchanged.untouched (.lie ?_ h.not_awaits_current) lain
  apply relieved.exchanged h.toArranged
  · rintro l rfl
    exact holds
  · rintro l rfl
    rfl

theorem signal_exchanged (h : Orderly R P s.layout) :
    (perform (.signal condvar lock)).Ends s (fun _ s' => s.layout.Exchanged given s'.layout)
      fun _ _ => True := by
  refine ends_condvarNumbered (F := fun _ => True) (fun _ _ => trivial) fun _ => ?_
  refine ends_lockNumbered (F := fun _ => True) (fun _ _ => trivial) fun _ => ?_
  refine ends_bind.mpr ((signal_roused h).imp ?_)
  rintro - s' ⟨moved, roused⟩
  exact roused.exchanged h.toArranged

theorem broadcast_exchanged (h : Orderly R P s.layout) :
    (perform (.broadcast condvar lock)).Ends s (fun _ s' => s.layout.Exchanged given s'.layout)
      fun _ _ => True := by
  refine ends_condvarNumbered (F := fun _ => True) (fun _ _ => trivial) fun _ => ?_
  refine ends_lockNumbered (F := fun _ => True) (fun _ _ => trivial) fun _ => ?_
  refine ends_bind.mpr ((broadcast_roused h).imp ?_)
  rintro - s' ⟨moved, roused⟩
  exact roused.exchanged h.toArranged

end

theorem perform_exchanged {r : Request} (h : Orderly R P s.layout)
    (possible : Event.Possible s (.request r)) :
    (perform r).Ends s
      (fun _ s' => s.layout.Exchanged (fun l => (Event.request r).GivesUp l) s'.layout)
      fun _ _ => True := by
  cases r with
  | interrupt handler => exact absurd possible id
  | acquire lock => exact acquire_exchanged h
  | tryAcquire lock => exact tryAcquire_exchanged h
  | release lock => exact release_exchanged h
  | wait condvar lock => exact wait_exchanged h
  | signal condvar lock => exact signal_exchanged h
  | broadcast condvar lock => exact broadcast_exchanged h
  | newLock => exact ends_bind.mpr (newLock_grown.imp fun _ _ grown => grown.exchanged)
  | newCondvar => exact ends_bind.mpr (newCondvar_grown.imp fun _ _ grown => grown.exchanged)
  | exit status =>
    refine ends_bind.mpr ((exit_untouched h status).imp fun _ s' relieved => ?_)
    exact relieved.exchanged h.toArranged (fun _ own => own) fun _ _ => trivial
  | _ =>
    refine ends_exchanged (perform_synchronizers ?_ ?_ ?_)
    · simp
    · simp [Event.Touches]
    · simp [Event.Touches]

theorem Event.happen_exchanged (h : Orderly R P s.layout) (possible : e.Possible s) :
    e.happen.Ends s (fun _ s' => s.layout.Exchanged (fun l => e.GivesUp l) s'.layout)
      fun _ _ => True := by
  cases e with
  | request r =>
    exact ends_bind.mpr ((perform_exchanged h possible).imp fun _ _ exchanged => exchanged)
  | enter => exact ends_exchanged (.bind preserves_enterHandler fun _ => .pure)
  | leave level => exact ends_exchanged preserves_leaveHandler

theorem acquire_awaits {lock : Nat} :
    (perform (.acquire lock)).Ends s
      (fun _ s' => s'.layout.Awaits s.current ⟨lock⟩ ∨ s'.layout.holder ⟨lock⟩ = some s.current)
      fun _ _ => True := by
  refine ends_lockNumbered (F := fun _ => True) (fun _ _ => trivial) fun exists_lock => ?_
  rw [ends_bind]
  refine (acquire_untouched exists_lock).imp fun _ s' after => ?_
  rcases after with ⟨-, taken⟩ | ⟨-, joined⟩
  · have holds : s'.layout.holder ⟨lock⟩ = some s.current := by
      rw [taken.holder]
      exact Function.update_self _ _ _
    exact .inr holds
  · have mem : s.current ∈ s'.layout.queue (.lock ⟨lock⟩) := by
      rw [joined.lockWaiters]
      simp [layout]
    exact .inl (.inl mem)

theorem wait_awaits {condvar lock : Nat} (h : Orderly R P s.layout) :
    (perform (.wait condvar lock)).Ends s (fun _ s' => s'.layout.Awaits s.current ⟨lock⟩)
      fun _ _ => True := by
  refine ends_condvarNumbered (F := fun _ => True) (fun _ _ => trivial) fun exists_condvar => ?_
  refine ends_lockNumbered (F := fun _ => True) (fun _ _ => trivial) fun _ => ?_
  refine ends_bind.mpr ((wait_untouched h exists_condvar).imp ?_)
  rintro - s' ⟨-, L₁, -, lain⟩
  have waits : s'.layout.Awaits s.current ⟨lock⟩ := by
    rw [lain.awaits]
    refine .inr ⟨⟨condvar⟩, ?_, ?_⟩
    · simp [Layout.lie, layout]
    · simp [Layout.lie, layout]
  exact waits

/-- Whoever asks for a lock gets it at once or waits for it. -/
theorem Event.happen_awaits (h : Orderly R P s.layout) (asks : e.AsksFor l) :
    e.happen.Ends s (fun _ s' => s'.layout.Awaits s.current l ∨ s'.layout.holder l = some s.current)
      fun _ _ => True := by
  cases e with
  | enter => exact absurd asks id
  | leave level => exact absurd asks id
  | request r =>
    apply ends_bind.mpr
    cases r with
    | acquire lock =>
      obtain rfl : lock = l.index := asks
      exact acquire_awaits
    | wait condvar lock =>
      obtain rfl : lock = l.index := asks
      exact (wait_awaits h).imp fun _ _ waits => .inl waits
    | _ => exact absurd asks id

/-! ## What a lock and its waiters agree on -/

/-- Locks, condition variables and control blocks agree on who holds what and who waits. -/
structure LocksAgree (s : Scheduler) : Prop where
  holds : ∀ l t, s.holder l = some t ↔ ∃ th, s.thread? t = some th ∧ l ∈ th.heldLocks
  nodup : ∀ t th, s.thread? t = some th → th.heldLocks.Nodup
  /-- A lock somebody waits for is held, and not by a waiter. -/
  held : ∀ l, (s.lockState l).waiters.tids ≠ [] →
    ∃ t, s.holder l = some t ∧ t ∉ (s.lockState l).waiters.tids
  waiting : ∀ l t, t ∈ (s.lockState l).waiters.tids ↔
    ∃ th, s.thread? t = some th ∧ th.waitingLock = some l
  relock : ∀ c t, t ∈ (s.condvarState c).relock.keys ↔ t ∈ (s.condvarState c).waiters.tids

theorem LocksAgree.of_orderly (h : Orderly R P s.layout) (paired : s.layout.Paired) :
    s.LocksAgree where
  holds l t := by
    rw [show s.holder l = s.layout.holder l from rfl, h.holds l t]
    constructor
    · rintro ⟨p, known, held⟩
      obtain ⟨th, found, rfl⟩ := exists_thread known
      exact ⟨th, found, held⟩
    · rintro ⟨th, found, held⟩
      exact ⟨th.place, place_of_thread found, held⟩
  nodup t th found := (h.proper t th.place (place_of_thread found)).nodup
  held l waited := by
    obtain ⟨t, holds⟩ := Option.ne_none_iff_exists'.mp fun free => waited (h.held l free)
    exact ⟨t, holds, paired.apart l t holds⟩
  waiting l t := by
    constructor
    · intro mem
      obtain ⟨p, known, -⟩ := h.exists_of_mem_queue (m := .lock l) (by simp) mem
      obtain ⟨th, found, rfl⟩ := exists_thread known
      exact ⟨th, found, (h.waitingLock_iff known).mpr mem⟩
    · rintro ⟨th, found, waits⟩
      exact (h.waitingLock_iff (place_of_thread found)).mp waits
  relock c t := by
    rw [← Table.contains_iff, Table.contains, Option.isSome_iff_ne_none]
    exact paired.keyed c t

/-- A lock goes from its holder to the foremost of its waiters, and only when the holder gives it
up, and its waiters are in the order in which they came. -/
structure Event.HandsOver (e : Event) (s s' : Scheduler) : Prop where
  holder : ∀ l t, s.holder l = some t → s'.holder l ≠ some t →
    t = s.current ∧ e.GivesUp l ∧
      ((s.lockState l).waiters.tids = [] ∧ s'.holder l = none ∨
        ∃ w, (s.lockState l).waiters.Foremost s.priorityOf w ∧ s'.holder l = some w)
  order : ∀ l, ∃ kept arrived, (s'.lockState l).waiters.tids = kept ++ arrived ∧
    kept.Sublist (s.lockState l).waiters.tids ∧ ∀ t ∈ arrived, t ∉ (s.lockState l).waiters.tids

theorem Event.HandsOver.of_exchanged {s' : Scheduler}
    (h : s.layout.Exchanged (fun l => e.GivesUp l) s'.layout) : e.HandsOver s s' where
  holder l t holds gone := by
    rcases h.holder l t holds with stays | ⟨given, own, next⟩
    · exact absurd stays gone
    · rw [← priority_layout]
      exact ⟨own, given, next⟩
  order l := h.order l

def Blocked (s : Scheduler) (t : Tid) : Prop := ∃ th, s.thread? t = some th ∧ th.state = .blocked

/-- The states that follow a state by allowed events as long as a thread is blocked. -/
inductive Waiting (allows : Scheduler → Event → Scheduler → Prop) (t : Tid) (s : Scheduler) :
    Scheduler → Prop
  | refl : Waiting allows t s s
  | next {s' : Scheduler} {e : Event} (waiting : Waiting allows t s s') (blocked : s'.Blocked t)
      (possible : e.Possible s') (succeeds : (e.happen s').result = .ok ())
      (allowed : allows s' e (e.happen s').state) : Waiting allows t s (e.happen s').state

end

namespace Run

variable {feedback : Bool} {capacity : Nat} {allows : Scheduler → Event → Scheduler → Prop}
  {P : Set Tid} {s s' : Scheduler} {t : Tid} {l : LockId} {e : Event}

theorem exchanged (busy : IdleNeverWaits allows) (run : Run feedback capacity allows P s)
    (possible : e.Possible s) (succeeds : (e.happen s).result = .ok ()) :
    s.layout.Exchanged (fun l => e.GivesUp l) (e.happen s).state.layout :=
  (Event.happen_exchanged (run.sound (R := False) busy (by simp)).orderly possible).of_ok succeeds

theorem paired (busy : IdleNeverWaits allows) (run : Run feedback capacity allows P s) :
    s.layout.Paired := by
  induction run with
  | start =>
    constructor
    · intro l t holds
      cases holds
    · exact fun c t => iff_of_false (fun noted => noted rfl) List.not_mem_nil
  | next run possible succeeds _ ih => exact (run.exchanged busy possible succeeds).paired ih

theorem waiting (run : Run feedback capacity allows P s) (waiting : Waiting allows t s s') :
    ∃ S, Run feedback capacity allows S s' := by
  induction waiting with
  | refl => exact ⟨P, run⟩
  | next _ _ possible succeeds allowed ih =>
    obtain ⟨S, run⟩ := ih
    exact ⟨_, run.next possible succeeds allowed⟩

/-- As long as a thread is blocked it waits for the lock it has asked for, or holds it. -/
theorem awaits (busy : IdleNeverWaits allows) (run : Run feedback capacity allows P s)
    (asked : s.layout.Awaits t l ∨ s.layout.holder l = some t) (waits : Waiting allows t s s') :
    s'.layout.Awaits t l ∨ s'.layout.holder l = some t := by
  induction waits with
  | refl => exact asked
  | next waits blocked possible succeeds allowed ih =>
    obtain ⟨S, run⟩ := run.waiting waits
    have exchanged := run.exchanged busy possible succeeds
    rcases ih with waits | holds
    · exact exchanged.awaits t l waits
    · right
      refine (exchanged.holder l t holds).resolve_right fun gives => ?_
      obtain ⟨th, found, asleep⟩ := blocked
      obtain ⟨p, known, running, -⟩ := (run.sound (R := False) busy (by simp)).orderly.current
      rw [← gives.2.1, place_of_thread found] at known
      obtain rfl := Option.some.inj known
      simp [Thread.place, asleep] at running

/-- In every state of a run, locks, condition variables and control blocks agree on who holds what
and who waits; an event takes a lock from its holder only if the holder gives it up, and the
foremost waiter holds it next; and a thread that has asked for a lock and was blocked holds the lock
in the first state in which it is no longer blocked. -/
theorem locks_handed_over (busy : IdleNeverWaits allows) (run : Run feedback capacity allows P s) :
    s.LocksAgree ∧ ∀ e : Event, e.Possible s → (e.happen s).result = .ok () →
      allows s e (e.happen s).state → e.HandsOver s (e.happen s).state ∧
        ∀ l, e.AsksFor l → ∀ s', Waiting allows s.current (e.happen s).state s' →
          ¬s'.Blocked s.current → s'.holder l = some s.current := by
  have orderly := (run.sound (R := False) busy (by simp)).orderly
  refine ⟨.of_orderly orderly (run.paired busy), fun e possible succeeds allowed => ⟨?_, ?_⟩⟩
  · exact .of_exchanged (run.exchanged busy possible succeeds)
  · intro l asks s' waiting awake
    have asked := (Event.happen_awaits orderly asks).of_ok succeeds
    have next := run.next possible succeeds allowed
    refine (next.awaits busy asked waiting).resolve_left fun waits => awake ?_
    obtain ⟨S, run'⟩ := next.waiting waiting
    obtain ⟨p, known, blocked⟩ :=
      (run'.sound (R := False) busy (by simp)).orderly.blocked_of_awaits waits
    obtain ⟨th, found, rfl⟩ := exists_thread known
    exact ⟨th, found, blocked⟩

/-- The first thread gives up the lock that the urgent one waits for. -/
private def relieved : Scheduler := ((Event.request (.release 0)).happen contended).state

/-- The urgent thread waits until the first one releases the lock, and holds it then. -/
theorem locks_handed_over_contended :
    pressed.LocksAgree ∧ contended.Blocked 3 ∧ ¬relieved.Blocked 3 ∧
      relieved.holder ⟨0⟩ = some 3 := by
  have run : Run false 4 Careful ∅ pressed := by
    apply pressed_run <;> exact ⟨fun _ => by decide, fun _ => id⟩
  have blocked : contended.Blocked 3 := ⟨_, rfl, rfl⟩
  have awake : ¬relieved.Blocked 3 := by
    rintro ⟨th, found, blocked⟩
    obtain rfl := Option.some.inj found
    cases blocked
  have waiting : Waiting Careful 3 contended relieved :=
    Waiting.refl.next (e := .request (.release 0)) blocked trivial rfl
      ⟨fun _ => by decide, fun _ => id⟩
  obtain ⟨agree, events⟩ := locks_handed_over careful_idleNeverWaits run
  have handed := (events (.request (.acquire 0)) trivial rfl ⟨fun _ => by decide, fun _ => id⟩).2
  exact ⟨agree, blocked, awake, handed ⟨0⟩ rfl relieved waiting awake⟩

end Run

end Scheduler

end KernelCore
