import KernelCore.Proofs.Scheduler.Checking
import KernelCore.Proofs.Scheduler.Donations

/-!
# Switching

Making a thread ready, blocking, yielding and the choice of the next thread keep threads arranged
and leave all priorities alone. A thread that has exited is reclaimed when nothing names it.
-/
namespace KernelCore

open Transition

section

variable {R : Prop} {P S : Set Tid} {L : Layout} {t : Tid} {p q : Place}

theorem Arranged.setInterrupts (h : Arranged R P L) {level : InterruptLevel}
    (allowed : L.inHandler = true → level = .off) : Arranged R P (L.setInterrupts level) :=
  { h with handler := allowed }

theorem Orderly.setInterrupts (h : Orderly R P L) {level : InterruptLevel}
    (allowed : L.inHandler = true → level = .off) : Orderly R P (L.setInterrupts level) :=
  { h.toArranged.setInterrupts allowed with current := h.current }

/-- The level from before can be set again outside a handler only. -/
theorem Arranged.allowed (h : Arranged R P L) (on : L.interrupts = .on) : L.inHandler = false := by
  cases inHandler : L.inHandler with
  | false => rfl
  | true => simp [h.handler inHandler] at on

theorem Layout.Calm.setInterrupts (L : Layout) (level : InterruptLevel) :
    L.Calm (L.setInterrupts level) :=
  .of_same rfl rfl rfl rfl rfl

theorem Orderly.restore (h : Orderly R P L) (level : InterruptLevel) :
    Orderly R P (L.restore level) := by
  unfold Layout.restore
  split
  · rename_i outside
    exact h.setInterrupts (by simp [outside.2])
  · exact h

theorem Layout.Calm.restore (L : Layout) (level : InterruptLevel) : L.Calm (L.restore level) := by
  unfold Layout.restore
  split
  · exact .setInterrupts L .on
  · exact .refl L

theorem Layout.Quiet.restore (L : Layout) (level : InterruptLevel) : L.Quiet (L.restore level) := by
  unfold Layout.restore
  split
  · exact .of_same rfl rfl rfl rfl rfl rfl
  · exact .refl L

/-- A thread in no queue waits for nobody. -/
theorem Arranged.unlinked (h : Arranged R P L) (known : L.place t = some p)
    (free : p.membership = .none) (x : Tid) : ¬L.WaitsFor t x := by
  rintro ⟨l, waits, -⟩
  rw [Layout.waitingFor_of_place known, h.waitingLock_eq_none known (by simp [free])] at waits
  cases waits

theorem Orderly.runs (h : Orderly R P L) (x : Tid) : ¬L.WaitsFor L.current x := by
  obtain ⟨p, known, -, free⟩ := h.current
  exact h.unlinked known free x

/-! ## Making a thread ready -/

/-- The layout after a thread has been made ready. -/
def Layout.wake (L : Layout) (t : Tid) (p : Place) : Layout :=
  (L.setPlace t (some { p with state := .ready, membership := .ready })).setQueue .ready
    (L.queue .ready ++ [t])

/-- A thread in no queue that does not exit can be made ready. -/
theorem Arranged.wake (h : Arranged R P L) (known : L.place t = some p) (free : p.membership = .none)
    (alive : p.state ≠ .dying) (awake : t = L.idle → ¬R) : Arranged R (P \ {t}) (L.wake t p) := by
  have proper := h.proper t p known
  apply h.enqueue known free (m := .ready) (by simp)
  case perm => exact List.perm_append_singleton t _
  case proper =>
    refine ⟨by simp, by simp, by simp, ?_, proper.nodup⟩
    intro l
    simp [proper.waiting, free]
  case enters => rfl
  case same => rfl
  case held => simp
  case relock => simp
  case alive => exact fun mem => alive ((h.doomed t mem).2.2 p known)
  case idle => exact fun ht => ⟨rfl, awake ht⟩

theorem Arranged.not_mem_ready (h : Arranged R P L) (known : L.place t = some p)
    (free : p.membership = .none) : t ∉ L.queue .ready := by
  rw [h.mem_queue known (by simp), free]
  simp

/-- A waiting thread is taken out of its queue and made ready. -/
theorem Arranged.wake_waiter (h : Arranged R P L) (known : L.place t = some p) {m : Membership}
    (mem : t ∈ L.queue m) (m_ne : m ≠ .none) (unready : m ≠ .ready) (unlocked : ∀ l, m ≠ .lock l)
    (other : t ≠ L.current) {waiting : List Tid} (perm : (L.queue m).Perm (t :: waiting)) :
    Arranged R P ((L.setQueue m waiting).wake t p) := by
  have there : p.membership = m := (h.mem_queue known m_ne).mp mem
  have waits := h.waitingLock_eq_none known (by simpa [there] using unlocked)
  have fresh := h.not_mem_parked known (by simp [there, m_ne])
  have left := h.leave known mem m_ne unready other perm
  obtain ⟨busy, q, knownq, blocked, free⟩ := (left.parked t).mp (Set.mem_insert t P)
  have woken := left.wake knownq free (by simp [blocked]) fun idle => absurd idle busy
  rw [Set.insert_sdiff_of_mem P (Set.mem_singleton t), Set.sdiff_singleton_eq_self fresh] at woken
  simp only [Layout.setQueue_place, Layout.setPlace_place, Function.update_self,
    Option.some.injEq] at knownq
  subst knownq
  convert woken using 1
  ext1 <;> try rfl
  funext x
  by_cases hx : x = t <;> simp [Layout.wake, waits, hx]

theorem Layout.Calm.wake (known : L.place t = some p) : L.Calm (L.wake t p) :=
  (Calm.setPlace known (q := { p with state := .ready, membership := .ready }) rfl).trans
    (.of_same rfl rfl rfl rfl rfl)

theorem Orderly.wake_waiter (h : Orderly R P L) (known : L.place t = some p) {m : Membership}
    (mem : t ∈ L.queue m) (m_ne : m ≠ .none) (unready : m ≠ .ready) (unlocked : ∀ l, m ≠ .lock l)
    {waiting : List Tid} (perm : (L.queue m).Perm (t :: waiting)) :
    Orderly R P ((L.setQueue m waiting).wake t p) := by
  obtain ⟨q, knownq, running, free⟩ := h.current
  have other : t ≠ L.current := by
    rintro rfl
    obtain rfl := Option.some.inj (knownq.symm.trans known)
    exact m_ne (((h.mem_queue known m_ne).mp mem).symm.trans free)
  exact { h.toArranged.wake_waiter known mem m_ne unready unlocked other perm with
    current := ⟨q, by simpa [Layout.wake, other.symm] using knownq, running, free⟩ }

theorem Layout.Calm.wake_waiter (known : L.place t = some p) (m : Membership)
    (waiting : List Tid) : L.Calm ((L.setQueue m waiting).wake t p) := by
  have left : L.Calm (L.setQueue m waiting) := .of_same rfl rfl rfl rfl rfl
  have known' : (L.setQueue m waiting).place t = some p := known
  exact left.trans (.wake known')

/-! ## Entering a queue -/

/-- A thread enters a queue other than one of a lock. -/
theorem Arranged.enter (h : Arranged R P L) (known : L.place t = some p) (free : p.membership = .none)
    (running : p.state = .running) {m : Membership} (m_ne : m ≠ .none) (unready : m ≠ .ready)
    (unlocked : ∀ l, m ≠ .lock l) (busy : t ≠ L.idle)
    (relock : ∀ c, m = .condvar c → L.relock c t ≠ none) {waiting : List Tid}
    (perm : waiting.Perm (t :: L.queue m)) :
    Arranged R P ((L.setPlace t (some { p with membership := m })).setQueue m waiting) := by
  have proper := h.proper t p known
  have waits := h.waitingLock_eq_none known (by simp [free])
  have notParked := h.not_mem_parked known (by simp [running])
  have entered := h.enqueue known free m_ne perm (q := { p with membership := m })
    ⟨proper.running, by simp [running, unready], by simp [running], by simp [waits, unlocked],
      proper.nodup⟩ rfl rfl (fun l hl => absurd hl (unlocked l)) relock
    (fun doomed => by simp [(h.doomed t doomed).2.2 p known] at running)
    (fun idle => absurd idle busy)
  rwa [Set.sdiff_singleton_eq_self notParked] at entered

/-! ## Reclaiming threads -/

theorem Arranged.setRank (h : Arranged R P L) (t : Tid) (r : Option Rank) :
    Arranged R P (L.setRank t r) :=
  { h with }

theorem Orderly.setRank (h : Orderly R P L) (t : Tid) (r : Option Rank) :
    Orderly R P (L.setRank t r) :=
  { h.toArranged.setRank t r with current := h.current }

theorem Layout.Calm.reap (h : Arranged R P L) (known : L.place t = some p) (dying : p.state = .dying) :
    L.Calm ((L.setPlace t none).setRank t none) := by
  obtain ⟨free, bare⟩ := (h.proper t p known).dying dying
  have waitsNot : L.waitingFor t = none := by
    rw [waitingFor_of_place known]
    exact h.waitingLock_eq_none known (by simp [free])
  have same : ((L.setPlace t none).setRank t none).waitingFor = L.waitingFor := by
    simp [← waitsNot]
  refine ⟨rfl, rfl, fun _ _ => waitsFor_congr same rfl, fun _ x => ?_⟩
  by_cases hx : x = t
  · subst hx
    refine .inr ⟨fun u => ⟨?_, ?_⟩, by simp⟩
    · rintro ⟨l, -, holds⟩
      simpa [bare] using (h.holder_iff known).mp holds
    · rintro ⟨l, waits, -⟩
      simp [waitsNot] at waits
  · exact .inl (by simp [hx])

/-! ## The next thread -/

/-- The layout after a thread has been given the processor. -/
def Layout.dispatch (L : Layout) (t : Tid) (p : Place) : Layout :=
  (L.setPlace t (some { p with state := .running, membership := .none })).setCurrent t

theorem Place.Proper.block {current : Prop} (h : p.Proper current)
    (runs : p.state = .running) : Place.Proper { p with state := .blocked } current := by
  have notReady : p.membership ≠ .ready := by
    intro ready
    simp [h.ready.mpr ready] at runs
  exact ⟨by simp, by simpa using notReady, by simp, h.waiting, h.nodup⟩

theorem Layout.dispatch_current (L : Layout) (t : Tid) (p : Place) :
    ∃ q, (L.dispatch t p).place (L.dispatch t p).current = some q ∧
      q.state = .running ∧ q.membership = .none :=
  ⟨{ p with state := .running, membership := .none }, by simp [Layout.dispatch], rfl, rfl⟩

private theorem Place.Proper.dispatch {current : Prop} (h : p.Proper current)
    (unlocked : p.waitingLock = none) :
    Place.Proper { p with state := .running, membership := .none } True :=
  ⟨fun _ => trivial, by simp, by simp, by simp [unlocked], h.nodup⟩

theorem Orderly.dispatch_ready (h : Arranged R P L)
    (stopped : ∀ p, L.place L.current = some p → p.state ≠ .running) (clean : L.dying = [])
    (known : L.place t = some p) (mem : t ∈ L.queue .ready) :
    Orderly R P ((L.setQueue .ready ((L.queue .ready).erase t)).dispatch t p) := by
  have there : p.membership = .ready := (h.mem_queue known (by simp)).mp mem
  have unlocked := h.waitingLock_eq_none known (by simp [there])
  have switched := h.switch stopped (t := t) (by simp [clean])
  have arranged := switched.dequeue known mem (by simp) (List.perm_cons_erase mem)
    (q := { p with state := .running, membership := .none }) (S := P)
    (by simpa using (h.proper t p known).dispatch unlocked) rfl rfl (by simp) (by simp [clean])
    (fun x => by
      by_cases hx : x = t
      · subst hx
        simpa using h.not_mem_parked known (by simp [there])
      · simp [hx])
  exact { arranged with current := Layout.dispatch_current _ t p }

theorem Orderly.dispatch_idle (h : Arranged R P L)
    (stopped : ∀ p, L.place L.current = some p → p.state ≠ .running) (clean : L.dying = [])
    (known : L.place L.idle = some p) (empty : L.queue .ready = []) :
    Orderly R P (L.dispatch L.idle p) := by
  have free : p.membership = .none := by
    obtain ⟨p', known', -, free⟩ := h.idle
    obtain rfl := Option.some.inj (known.symm.trans known')
    rcases free with free | awake
    · exact free
    · have mem := (h.mem_queue known (by simp)).mpr awake
      simp [empty] at mem
  have unlocked := h.waitingLock_eq_none known (by simp [free])
  have switched := h.switch stopped (t := L.idle) (by simp [clean])
  have arranged := switched.restate known
    (q := { p with state := .running, membership := .none }) (S := P)
    (by simpa using (h.proper L.idle p known).dispatch unlocked) free.symm rfl (by simp [clean])
    (by simp)
    (fun x => by
      by_cases hx : x = L.idle
      · subst hx
        simp [h.parked]
      · simp [hx])
  exact { arranged with current := Layout.dispatch_current _ L.idle p }

theorem Layout.Foremost.top_dispatch (h : L.Foremost .ready t) (busy : t ≠ L.idle) :
    ((L.setQueue .ready ((L.queue .ready).erase t)).dispatch t p).Top where
  le x mem := h.le (List.mem_of_mem_erase (by simpa [Layout.dispatch] using mem))
  idle runs := absurd runs busy

theorem Layout.top_dispatch_idle (empty : L.queue .ready = []) : (L.dispatch L.idle p).Top where
  le := by simp [Layout.dispatch, empty]
  idle _ := empty

theorem Layout.Calm.dispatch (known : L.place t = some p) : L.Calm (L.dispatch t p) :=
  (Calm.setPlace known (q := { p with state := .running, membership := .none }) rfl).trans
    (.of_same rfl rfl rfl rfl rfl)

/-- What reclaiming exited threads leaves alone. -/
structure Layout.Cleared (L L' : Layout) : Prop where
  calm : L.Calm L'
  current : L'.current = L.current
  running : L'.place L.current = L.place L.current

end

namespace Scheduler

variable {R : Prop} {P : Set Tid} {L : Layout} {s : Scheduler} {t : Tid} {p q : Place}
  {F : Violation → Prop}

section

variable {Q : Unit → Scheduler → Prop}

/-- Making a thread ready is refused exactly if the thread does not wait outside all queues. -/
theorem ends_unblock (allowed : s.layout.interrupts = .on → s.layout.inHandler = false)
    (fresh : ∀ p, s.layout.place t = some p → p.membership = .none → t ∉ s.layout.queue .ready)
    (absent : s.layout.place t = none → F (.noSuchThread t))
    (busy : ∀ p, s.layout.place t = some p → p.state ≠ .blocked → F (.unblockedUnblocked t))
    (queued : ∀ p, s.layout.place t = some p → p.membership ≠ .none → F (.unblockedQueued t))
    (next : ∀ p s', s.layout.place t = some p → p.state = .blocked → p.membership = .none →
      s'.layout = s.layout.wake t p → Q () s') :
    (unblock t).Ends s Q fun v _ => F v := by
  unfold unblock
  rw [ends_bind]
  apply ends_disableInterrupts
  intro s₁ h₁
  cases known : s₁.thread? t with
  | none =>
    rw [ends_bind, ends_thread_of_none known]
    apply absent
    simpa [h₁] using thread?_eq_none.mp known
  | some th =>
    have place : s.layout.place t = some th.place := by simpa [h₁] using place_of_thread known
    rw [ends_bind, ends_thread known, ends_bind, ends_ensure]
    refine ⟨fun blocked => ?_, busy th.place place⟩
    rw [ends_bind, ends_ensure]
    refine ⟨fun free => ?_, queued th.place place⟩
    rw [ends_bind]
    apply ends_updateThread_place known rfl
    intro s₂ h₂
    rw [ends_bind]
    apply ends_pushReady
    case fresh => simpa [h₂, h₁] using fresh th.place place free
    intro s₃ h₃
    apply ends_restoreInterrupts
    intro s₄ h₄
    apply next th.place s₄ place blocked free
    rw [h₄, h₃, h₂, h₁, Layout.restore_eq (by simp) (by simpa using allowed)]
    rfl

/-- A parked thread can be made ready. -/
theorem ends_unblock_parked (h : Arranged R (insert t P) s.layout) (fresh : t ∉ P)
    (next : ∀ p s', s.layout.place t = some p → s'.layout = s.layout.wake t p →
      Arranged R P s'.layout → Q () s') :
    (unblock t).Ends s Q fun v _ => F v := by
  obtain ⟨busy, p, known, blocked, free⟩ := (h.parked t).mp (Set.mem_insert t P)
  apply ends_unblock h.allowed
  case fresh => exact fun _ => h.not_mem_ready
  case absent => simp [known]
  case busy => simp [known, blocked]
  case queued => simp [known, free]
  case next =>
    intro p' s' known' _ _ h'
    obtain rfl := Option.some.inj (known.symm.trans known')
    have woken := h.wake known free (by simp [blocked]) fun idle => absurd idle busy
    rw [Set.insert_sdiff_of_mem P (Set.mem_singleton t), Set.sdiff_singleton_eq_self fresh, ← h'] at woken
    exact next p s' known h' woken

end

/-- Only threads that have exited are reclaimed. -/
theorem reclaim_ends (h : Arranged R P s.layout) (left : t ≠ s.layout.current)
    (exited : ∀ p, s.layout.place t = some p → p.state = .dying) :
    (reclaim t).Ends s (fun _ s' => Arranged R P s'.layout ∧ s.layout.Cleared s'.layout ∧
      s'.layout.dying = s.layout.dying ∧ ∀ x p, s'.layout.place x = some p →
        s.layout.place x = some p) fun v _ => F v := by
  unfold reclaim
  rw [ends_bind, ends_get]
  cases known : s.thread? t with
  | none => exact ⟨h, ⟨.refl _, rfl, rfl⟩, rfl, fun _ _ known => known⟩
  | some th =>
    have place := place_of_thread known
    have dying := exited th.place place
    simp only [ends_bind, ends_modify, ends_emit]
    rw [layout_erase]
    refine ⟨(h.reap place dying).setRank t none, ⟨.reap h place dying, rfl, ?_⟩, rfl, ?_⟩
    · simp [left.symm]
    · intro x p knownx
      by_cases hx : x = t
      · simp [hx] at knownx
      · simpa [hx] using knownx

theorem reclaimAll_ends (h : Arranged R P s.layout) :
    reclaimAll.Ends s (fun _ s' => Arranged R P s'.layout ∧ s.layout.Cleared s'.layout ∧
      s'.layout.dying = []) fun v _ => F v := by
  unfold reclaimAll
  simp only [ends_bind, ends_get, ends_modify]
  refine Ends.imp (ends_forAll (I := fun rest s' => Arranged R P s'.layout ∧ s.layout.Cleared s'.layout ∧
    s'.layout.dying = [] ∧ ∀ t ∈ rest, t ≠ s.layout.current ∧
      ∀ p, s'.layout.place t = some p → p.state = .dying) ?step ?start) ?_
  case start =>
    refine ⟨h.forget, ⟨.of_same rfl rfl rfl rfl rfl, rfl, rfl⟩, rfl, ?_⟩
    intro t mem
    obtain ⟨left, -, exited⟩ := h.doomed t mem
    exact ⟨left, exited⟩
  case step =>
    rintro t rest s₁ ⟨arranged, cleared, empty, exited⟩
    have left : t ≠ s₁.layout.current := cleared.current ▸ (exited t (by simp)).1
    refine (reclaim_ends arranged left (exited t (by simp)).2).imp ?_
    rintro - s₂ ⟨arranged', cleared', empty', fewer⟩
    refine ⟨arranged', ?_, empty'.trans empty, ?_⟩
    · refine ⟨cleared.calm.trans cleared'.calm, cleared'.current.trans cleared.current, ?_⟩
      rw [← cleared.running, ← cleared.current, cleared'.running]
    · intro x mem
      obtain ⟨leftx, exitedx⟩ := exited x (by simp [mem])
      exact ⟨leftx, fun p known => exitedx p (fewer x p known)⟩
  rintro - s' ⟨arranged, cleared, empty, -⟩
  exact ⟨arranged, cleared, empty⟩

/-- Threads are in order, and the priorities are as they were. -/
structure Settled (R : Prop) (P : Set Tid) (L : Layout) (s' : Scheduler) : Prop where
  orderly : Orderly R P s'.layout
  calm : L.Calm s'.layout

theorem Settled.trans {s₁ s₂ : Scheduler} (h : Settled R P L s₁) (h' : Settled R P s₁.layout s₂) :
    Settled R P L s₂ :=
  ⟨h'.orderly, h.calm.trans h'.calm⟩

/-- Threads are in order, the priorities are as they were, and no other thread has to run. -/
structure Rested (R : Prop) (P : Set Tid) (L : Layout) (s' : Scheduler) : Prop
    extends Settled R P L s' where
  quiet : L.Quiet s'.layout

/-- Threads are in order, the priorities are as they were, and the right thread runs. -/
structure Elected (R : Prop) (P : Set Tid) (L : Layout) (s' : Scheduler) : Prop
    extends Settled R P L s' where
  top : R → s'.layout.Top

/-- Operations begin with interrupts off. -/
theorem Rested.off {s₁ : Scheduler} (h : Orderly R P L)
    (h₁ : s₁.layout = L.setInterrupts .off) : Rested R P L s₁ :=
  ⟨⟨h₁ ▸ h.setInterrupts (by simp), h₁ ▸ .setInterrupts _ _⟩,
    h₁ ▸ .of_same rfl rfl rfl rfl rfl rfl⟩

theorem Rested.trans {s₁ s₂ : Scheduler} (h : Rested R P L s₁) (h' : Rested R P s₁.layout s₂) :
    Rested R P L s₂ :=
  ⟨h.toSettled.trans h'.toSettled, h.quiet.trans h'.quiet⟩

theorem Settled.elected {s₁ s₂ : Scheduler} (h : Settled R P L s₁) (h' : Elected R P s₁.layout s₂) :
    Elected R P L s₂ :=
  ⟨h.trans h'.toSettled, h'.top⟩

/-- The interrupt level from before is set again, unless the operation was part of a handler. -/
theorem setInterrupts_ends (h : Orderly R P s.layout) {level : InterruptLevel}
    (allowed : level = .on → s.layout.inHandler = false) :
    (setInterrupts level).Ends s (fun _ s' => Rested R P s.layout s') fun v _ => F v := by
  apply ends_setInterrupts allowed
  intro _ s' h'
  refine ⟨⟨h' ▸ h.setInterrupts ?_, h' ▸ .setInterrupts _ _⟩,
    h' ▸ .of_same rfl rfl rfl rfl rfl rfl⟩
  intro inside
  cases level with
  | off => rfl
  | on => simp [allowed rfl] at inside

/-! ## Choosing and switching -/

section

variable {Q : Unit → Scheduler → Prop} {next : Tid}

/-- The thread that is left waits to be reclaimed if it has exited and is not the first one. -/
theorem ends_switchTo (known : s.layout.place s.layout.current = some p)
    (stay : ∀ s', s'.layout = s.layout.setCurrent next → Q () s')
    (leave : p.state = .dying → s.layout.current ≠ next → ∀ s', s'.layout =
      (s.layout.setCurrent next).setDying (s.layout.current :: s.layout.dying) → Q () s') :
    (switchTo next).Ends s Q fun v _ => F v := by
  unfold switchTo
  rw [ends_bind, ends_get, ends_ite]
  constructor
  · intro same
    apply stay
    rw [← same]
    rfl
  · intro other
    obtain ⟨last, found, rfl⟩ := exists_thread (t := s.current) known
    rw [ends_bind, ends_thread found, ends_modify]
    by_cases doomed : last.state = .dying ∧ s.current ≠ s.main
    · apply leave doomed.1 other
      rw [if_pos doomed]
      rfl
    · apply stay
      rw [if_neg doomed]
      rfl

end

variable (awake : ¬R → F .idleReady)

include awake in
theorem assertConsistent_ends (h : Orderly R P s.layout) :
    assertConsistent.Ends s (fun _ s' => s' = s) fun v _ => F v := by
  unfold assertConsistent
  rw [ends_bind, ends_get, check_eq h]
  by_cases ready : s.idle ∈ s.layout.queue .ready
  · rw [if_pos ready, ends_ofExcept_error]
    exact awake fun r => h.resting r ready
  · rw [if_neg ready, ends_ofExcept_ok]

theorem dispatch_ends {next : Tid} (h : Orderly R P (s.layout.dispatch next q))
    (known : s.layout.place next = some q)
    (last : s.layout.place s.layout.current = some p) :
    (dispatch next).Ends s (fun _ s' => Settled R P s.layout s' ∧
      ((s.layout.dispatch next q).Top → s'.layout.Top)) fun v _ => F v := by
  unfold dispatch
  obtain ⟨th, found, rfl⟩ := exists_thread known
  rw [ends_bind]
  apply ends_updateThread_place found rfl
  intro s₁ h₁
  rw [ends_bind]
  apply ends_modify_other rfl
  intro s₂ h₂
  have same : s₂.layout = s.layout.setPlace next
      (some { th.place with state := .running, membership := .none }) := h₂.trans h₁
  have calm := Layout.Calm.dispatch known
  have current : ∃ p', s₂.layout.place s₂.layout.current = some p' ∧
      (s.layout.current ≠ next → p' = p) := by
    by_cases hc : s.layout.current = next
    · exact ⟨{ th.place with state := .running, membership := .none }, by simp [same, hc],
        by simp [hc]⟩
    · exact ⟨p, by simpa [same, hc] using last, fun _ => rfl⟩
  obtain ⟨p', known', left⟩ := current
  apply ends_switchTo known'
  · intro s₃ h₃
    have h₃ : s₃.layout = s.layout.dispatch next th.place := by rw [h₃, same]; rfl
    exact ⟨⟨h₃ ▸ h, h₃ ▸ calm⟩, fun top => h₃ ▸ top⟩
  · intro exited other s₃ h₃
    have h₃ : s₃.layout = (s.layout.dispatch next th.place).setDying
        (s.layout.current :: (s.layout.dispatch next th.place).dying) := by rw [h₃, same]; rfl
    have other : s.layout.current ≠ next := by simpa [same] using other
    have stays : (s.layout.dispatch next th.place).place s.layout.current = some p' := by
      rw [left other]
      simpa [Layout.dispatch, other] using last
    have doomed : Orderly R P s₃.layout := by
      rw [h₃]
      exact { h.toArranged.doom stays exited other with current := h.current }
    have quiet : (s.layout.dispatch next th.place).Quiet s₃.layout :=
      h₃ ▸ .of_same rfl rfl rfl rfl rfl rfl
    exact ⟨⟨doomed, h₃ ▸ calm.trans (.of_same rfl rfl rfl rfl rfl)⟩, quiet.top⟩

include awake in
theorem schedule_ends (h : Arranged R P s.layout) (off : s.layout.interrupts = .off)
    (known : s.layout.place s.layout.current = some p) (stopped : p.state ≠ .running) :
    schedule.Ends s (fun _ s' => Elected R P s.layout s') fun v _ => F v := by
  unfold schedule
  obtain ⟨last, found, rfl⟩ := exists_thread (t := s.current) known
  rw [ends_bind, ends_get, ends_bind, ends_ensure]
  refine ⟨fun _ => ?_, fun on => absurd off on⟩
  rw [ends_bind, ends_thread found, ends_bind, ends_ensure]
  refine ⟨fun _ => ?_, fun runs => absurd stopped runs⟩
  rw [ends_bind]
  refine (reclaimAll_ends h).imp ?_
  rintro - s₁ ⟨arranged, cleared, clean⟩
  have known₁ : s₁.layout.place s₁.layout.current = some last.place := by
    rw [cleared.current, cleared.running, known]
  have stopped₁ : ∀ p, s₁.layout.place s₁.layout.current = some p → p.state ≠ .running := by
    intro p known'
    obtain rfl := Option.some.inj (known₁.symm.trans known')
    exact stopped
  rw [ends_bind]
  apply ends_pickNext
  · intro empty
    obtain ⟨q, knownq, -⟩ := arranged.idle
    rw [ends_bind]
    refine (dispatch_ends (.dispatch_idle arranged stopped₁ clean knownq empty) knownq known₁).imp ?_
    rintro - s₃ ⟨settled, top⟩
    refine (assertConsistent_ends awake settled.orderly).imp ?_
    rintro - s₄ rfl
    exact ⟨⟨settled.orderly, cleared.calm.trans settled.calm⟩,
      fun _ => top (Layout.top_dispatch_idle empty)⟩
  · intro w s₂ foremost h₂
    have mem : w ∈ s₁.layout.queue .ready := foremost.mem
    obtain ⟨q, knownq, -⟩ := arranged.exists_of_mem_queue (by simp) mem
    have knownq₂ : s₂.layout.place w = some q := by simpa [h₂] using knownq
    have known₂ : s₂.layout.place s₂.layout.current = some last.place := by simpa [h₂] using known₁
    have orderly := Orderly.dispatch_ready arranged stopped₁ clean knownq mem
    rw [← h₂] at orderly
    rw [ends_bind]
    refine (dispatch_ends orderly knownq₂ known₂).imp ?_
    rintro - s₃ ⟨settled, top⟩
    refine (assertConsistent_ends awake settled.orderly).imp ?_
    rintro - s₄ rfl
    have calm : s₁.layout.Calm s₂.layout := h₂ ▸ .of_same rfl rfl rfl rfl rfl
    refine ⟨⟨settled.orderly, cleared.calm.trans (calm.trans settled.calm)⟩, fun r => top ?_⟩
    have busy : w ≠ s₁.layout.idle := by
      rintro rfl
      exact arranged.resting r mem
    exact h₂ ▸ foremost.top_dispatch busy

/-- An operation has left threads arranged and priorities as they should be. -/
structure Kept (R : Prop) (P : Set Tid) (L : Layout) (s' : Scheduler) : Prop where
  orderly : Orderly R P s'.layout
  keeps : L.Keeps s'.layout

theorem Kept.refl (h : Orderly R P s.layout) : Kept R P s.layout s := ⟨h, .refl _⟩

theorem Settled.kept {s' : Scheduler} (h : Settled R P L s') : Kept R P L s' :=
  ⟨h.orderly, h.calm.keeps⟩

theorem Kept.settled {s₁ s' : Scheduler} (h : Kept R P L s₁) (h' : Settled R P s₁.layout s') :
    Kept R P L s' :=
  ⟨h'.orderly, h.keeps.trans h'.calm.keeps⟩

/-! ## Leaving the processor -/

include awake in
/-- A thread that blocks is parked unless it is in a queue. -/
theorem block_ends {S : Set Tid} (h : Arranged R P s.layout)
    (known : s.layout.place s.layout.current = some p) (runs : p.state = .running)
    (outside : s.layout.inHandler = false) (off : s.layout.interrupts = .off)
    (parked : ∀ x, x ∈ S ↔ if x = s.layout.current then
      s.layout.current ≠ s.layout.idle ∧ p.membership = .none else x ∈ P) :
    block.Ends s (fun _ s' => Elected R S s.layout s') fun v _ => F v := by
  unfold block
  rw [ends_bind, ends_get, ends_bind, ends_ensure]
  refine ⟨fun _ => ?_, fun inside => absurd outside inside⟩
  rw [ends_bind, ends_ensure]
  refine ⟨fun _ => ?_, fun on => absurd off on⟩
  obtain ⟨th, found, rfl⟩ := exists_thread known
  rw [ends_bind]
  apply ends_updateThread_place (t := s.layout.current) found rfl
  intro s₁ h₁
  have arranged : Arranged R S s₁.layout := by
    rw [h₁]
    apply h.restate known
    case proper => exact (h.proper _ _ known).block runs
    case still => rfl
    case same => rfl
    case doomed => exact fun mem => absurd rfl (h.doomed _ mem).1
    case idle => simp [Thread.place]
    case parked =>
      intro x
      simpa [Thread.place] using parked x
  have calm : s.layout.Calm s₁.layout := by
    rw [h₁]
    exact .setPlace known rfl
  have known₁ : s₁.layout.place s₁.layout.current = some { th.place with state := .blocked } := by
    simp [h₁, Thread.place]
  refine (schedule_ends awake arranged (by simpa [h₁] using off) known₁ (by simp)).imp ?_
  rintro - s₂ ⟨⟨orderly, calm₂⟩, top⟩
  exact ⟨⟨orderly, calm.trans calm₂⟩, top⟩

include awake in
/-- Once the current thread has stopped, another one is chosen. -/
private theorem choose_ends {L : Layout} {q : Place} {level : InterruptLevel}
    (arranged : Arranged R P s.layout) (calm : L.Calm s.layout) (off : s.layout.interrupts = .off)
    (known : s.layout.place s.layout.current = some q) (stopped : q.state ≠ .running) :
    (schedule >>= fun _ => restoreInterrupts level).Ends s (fun _ s' => Elected R P L s')
      fun v _ => F v := by
  rw [ends_bind]
  refine (schedule_ends awake arranged off known stopped).imp ?_
  rintro - s₁ ⟨⟨orderly, calm₁⟩, top⟩
  apply ends_restoreInterrupts
  intro s₂ h₂
  refine ⟨⟨h₂ ▸ orderly.restore _, ?_⟩, fun r => h₂ ▸ (Layout.Quiet.restore _ _).top (top r)⟩
  exact h₂ ▸ calm.trans (calm₁.trans (.restore _ _))

include awake in
theorem yield_ends (h : Orderly R P s.layout) (outside : s.layout.inHandler = false) :
    yield.Ends s (fun _ s' => Elected R P s.layout s') fun v _ => F v := by
  obtain ⟨p, known, runs, free⟩ := h.current
  unfold yield
  rw [ends_bind, ends_get, ends_bind, ends_ensure]
  refine ⟨fun _ => ?_, fun inside => absurd outside inside⟩
  rw [ends_bind]
  apply ends_disableInterrupts
  intro s₁ h₁
  have orderly : Orderly R P s₁.layout := h₁ ▸ h.setInterrupts (by simp)
  have known₁ : s₁.layout.place s.layout.current = some p := by simpa [h₁] using known
  have calm₁ : s.layout.Calm s₁.layout := h₁ ▸ .setInterrupts _ _
  obtain ⟨th, found, rfl⟩ := exists_thread known₁
  rw [ends_ite]
  constructor
  · intro idle
    rw [ends_bind]
    apply ends_updateThread_place (t := s.layout.current) found rfl
    intro s₂ h₂
    apply choose_ends (q := { th.place with state := .blocked }) awake
    case arranged =>
      rw [h₂]
      apply orderly.restate known₁
      case proper => exact (orderly.proper _ _ known₁).block runs
      case still => rfl
      case same => rfl
      case doomed => exact fun mem => absurd (by simp [h₁]) (orderly.doomed _ mem).1
      case idle => simp [Thread.place]
      case parked =>
        intro x
        have notParked : s.layout.current ∉ P := h.not_mem_parked known (by simp [runs])
        have idle : s.layout.current = s₁.layout.idle := h₁ ▸ idle
        by_cases hx : x = s.layout.current
        · rw [if_pos hx]
          exact iff_of_false (hx ▸ notParked) fun busy => busy.1 idle
        · simp [hx]
    case calm => exact calm₁.trans (h₂ ▸ .setPlace known₁ rfl)
    case off => simp [h₂, h₁]
    case known => simp [h₂, h₁, Thread.place]
    case stopped => simp
  · intro busy
    rw [ends_bind]
    apply ends_updateThread_place (t := s.layout.current) found rfl
    intro s₂ h₂
    rw [ends_bind]
    apply ends_pushReady
    case fresh =>
      change s₂.layout.current ∉ _
      simp [h₂, h₁, h.mem_queue known, free]
    intro s₃ h₃
    have current : s₂.layout.current = s.layout.current := by simp [h₂, h₁]
    have woken : s₃.layout = s₁.layout.wake s.layout.current th.place := by
      rw [h₃, show s₂.current = s.layout.current from current, h₂]
      rfl
    have notParked : s.layout.current ∉ P := h.not_mem_parked known (by simp [runs])
    apply choose_ends (q := { th.place with state := .ready, membership := .ready }) awake
    case arranged =>
      have arranged := orderly.wake known₁ free (by simp [runs]) fun idle =>
        absurd (show s.layout.current = s.layout.idle by simpa [h₁] using idle) busy
      rwa [← woken, Set.sdiff_singleton_eq_self notParked] at arranged
    case calm => exact calm₁.trans (woken ▸ .wake known₁)
    case off => simp [woken, Layout.wake, h₁]
    case known => simp [woken, Layout.wake, h₁]
    case stopped => simp

/-- The right thread runs afterwards, at the latest when the handler has returned. -/
structure Attended (R : Prop) (P : Set Tid) (L : Layout) (s' : Scheduler) : Prop
    extends Kept R P L s' where
  led : R → s'.layout.Led

theorem Kept.attended {s₁ s' : Scheduler} (h : Kept R P L s₁) (h' : Attended R P s₁.layout s') :
    Attended R P L s' :=
  ⟨⟨h'.orderly, h.keeps.trans h'.keeps⟩, h'.led⟩

theorem Elected.attended {s' : Scheduler} (h : Elected R P L s') : Attended R P L s' :=
  ⟨h.toSettled.kept, fun r => .inl (h.top r)⟩

/-- An operation has been carried out: threads are in order, priorities are as they should be, and
if the right thread ran before, the right one runs now. -/
structure Carried (R : Prop) (P : Set Tid) (L : Layout) (s' : Scheduler) : Prop
    extends Kept R P L s' where
  led : R → (L.feedback = false → L.Backed) → L.Led → s'.layout.Led

theorem Carried.refl (h : Orderly R P s.layout) : Carried R P s.layout s :=
  ⟨.refl h, fun _ _ led => led⟩

theorem Carried.trans {s₁ s' : Scheduler} (h : Carried R P L s₁) (h' : Carried R P s₁.layout s') :
    Carried R P L s' where
  orderly := h'.orderly
  keeps := h.keeps.trans h'.keeps
  led r backed led := by
    refine h'.led r (fun priorities => ?_) (h.led r backed led)
    have priorities : L.feedback = false := h.keeps.feedback ▸ priorities
    exact h.keeps.backed priorities (backed priorities)

theorem Rested.carried {s' : Scheduler} (h : Rested R P L s') : Carried R P L s' :=
  ⟨h.toSettled.kept, fun _ _ => h.quiet.led⟩

theorem Attended.carried {s' : Scheduler} (h : Attended R P L s') : Carried R P L s' :=
  ⟨h.toKept, fun r _ _ => h.led r⟩

/-- An operation ends with the interrupt level it began with. -/
theorem Carried.close {α : Type} {s₁ : Scheduler} (carried : Carried R P L s₁)
    (h : Orderly R P L) (a : α) :
    (do let _ ← Scheduler.setInterrupts L.interrupts; pure a : Scheduling α).Ends s₁
      (fun _ s' => Carried R P L s') fun v _ => F v := by
  rw [ends_bind]
  refine (setInterrupts_ends carried.orderly ?_).imp ?_
  · exact fun on => carried.keeps.inHandler.trans (h.allowed on)
  · exact fun _ s₂ closed => carried.trans closed.carried

include awake in
theorem preemptCheck_ends (h : Orderly R P s.layout) :
    preemptCheck.Ends s (fun _ s' => Attended R P s.layout s') fun v _ => F v := by
  unfold preemptCheck
  rw [ends_bind, ends_get]
  cases found : s.ready.peekMax s.priorityOf with
  | none =>
    have empty : s.layout.queue .ready = [] := PriorityQueue.peekMax_eq_none found
    exact ⟨.refl h, fun _ => .inl ⟨by simp [empty], fun _ => empty⟩⟩
  | some top =>
    have foremost := PriorityQueue.foremost_of_peekMax found
    rw [← priority_layout] at foremost
    simp only [ends_ite]
    refine ⟨fun ⟨busy, le⟩ => ⟨.refl h, fun _ => .inl ⟨fun t mem => ?_, fun runs => ?_⟩⟩,
      fun _ => ⟨fun inside => ?_, fun outside => ?_⟩⟩
    · rw [← priority_layout] at le
      exact Int.le_trans (foremost.le mem) le
    · exact absurd runs busy
    · have same : ({ s with yieldOnReturn := true } : Scheduler).layout = s.layout.setYield true := rfl
      refine ⟨⟨?_, ?_⟩, fun _ => .inr ⟨inside, rfl⟩⟩
      · exact same ▸ { h with }
      · have calm : s.layout.Calm (s.layout.setYield true) := .of_same rfl rfl rfl rfl rfl
        exact same ▸ calm.keeps
    · have outside : s.inHandler = false := by simpa using outside
      exact (yield_ends awake h outside).imp fun _ _ elected => elected.attended

include awake in
/-- An operation that may have made a thread ready ends with a look at its priority. -/
theorem Kept.close_preempt {s₁ : Scheduler} (h : Orderly R P L) (kept : Kept R P L s₁) :
    (do let _ ← Scheduler.setInterrupts L.interrupts; preemptCheck).Ends s₁
      (fun _ s' => Attended R P L s') fun v _ => F v := by
  rw [ends_bind]
  refine (setInterrupts_ends kept.orderly ?_).imp ?_
  · exact fun on => kept.keeps.inHandler.trans (h.allowed on)
  · intro _ s₂ closed
    have kept₂ := kept.settled closed.toSettled
    exact (preemptCheck_ends awake kept₂.orderly).imp fun _ _ attended => kept₂.attended attended

include awake in
theorem Kept.close_carried {s₁ : Scheduler} (kept : Kept R P L s₁) (h : Orderly R P L) :
    (do let _ ← Scheduler.setInterrupts L.interrupts; preemptCheck).Ends s₁
      (fun _ s' => Carried R P L s') fun v _ => F v :=
  (kept.close_preempt awake h).imp fun _ _ attended => attended.carried

include awake in
theorem Kept.restore_preempt {s₁ : Scheduler} (kept : Kept R P L s₁) (level : InterruptLevel) :
    (do restoreInterrupts level; preemptCheck).Ends s₁
      (fun _ s' => Attended R P L s') fun v _ => F v := by
  rw [ends_bind]
  apply ends_restoreInterrupts
  intro s₂ h₂
  have kept₂ : Kept R P L s₂ :=
    ⟨h₂ ▸ kept.orderly.restore _, h₂ ▸ kept.keeps.trans (Layout.Calm.restore _ _).keeps⟩
  exact (preemptCheck_ends awake kept₂.orderly).imp fun _ _ attended => kept₂.attended attended

/-- As `Carried`, but the priorities are only known to be exact if no wait chain has become too
long. -/
structure Performed (R : Prop) (P : Set Tid) (L : Layout) (s' : Scheduler) : Prop where
  orderly : Orderly R P s'.layout
  upholds : L.Upholds s'.layout
  led : R → (L.feedback = false → L.Backed) → L.Led → s'.layout.Led

theorem Carried.performed {s' : Scheduler} (h : Carried R P L s') : Performed R P L s' :=
  ⟨h.orderly, h.keeps.upholds, h.led⟩

end Scheduler

end KernelCore
