import Mathlib.Order.BooleanAlgebra.Set
import KernelCore.Proofs.Scheduler.Layout

/-!
# The arrangement of threads in queues

In an arranged layout the queues, the locks and the control blocks agree: a thread is in the queue
it says it is in and in no other, it holds the locks that name it as holder, and no thread that has
exited is named anywhere. The changes the scheduler makes move one thread or pass one lock, and
each leaves an arranged layout.
-/
namespace KernelCore

/-- The parts of a place go together. -/
structure Place.Proper (p : Place) (isCurrent : Prop) : Prop where
  running : p.state = .running → isCurrent
  ready : p.state = .ready ↔ p.membership = .ready
  dying : p.state = .dying → p.membership = .none ∧ p.heldLocks = []
  waiting : ∀ l, p.waitingLock = some l ↔ p.membership = .lock l
  nodup : p.heldLocks.Nodup

/-- Queues, locks and control blocks agree. The blocked threads in no queue are the idle thread
and those of `P`, and under `R` the idle thread is not in the ready queue. -/
structure Arranged (R : Prop) (P : Set Tid) (L : Layout) : Prop where
  proper : ∀ t p, L.place t = some p → p.Proper (t = L.current)
  queued : ∀ m t, m ≠ .none → (t ∈ L.queue m ↔ ∃ p, L.place t = some p ∧ p.membership = m)
  nodup : ∀ m, (L.queue m).Nodup
  holds : ∀ l t, L.holder l = some t ↔ ∃ p, L.place t = some p ∧ l ∈ p.heldLocks
  /-- A lock somebody waits for is held. -/
  held : ∀ l, L.holder l = none → L.queue (.lock l) = []
  relock : ∀ c t, t ∈ L.queue (.condvar c) → L.relock c t ≠ none
  doomed : ∀ t ∈ L.dying, t ≠ L.current ∧ t < L.next ∧
    ∀ p, L.place t = some p → p.state = .dying
  idle : ∃ p, L.place L.idle = some p ∧ p.state ≠ .dying ∧
    (p.membership = .none ∨ p.membership = .ready)
  parked : ∀ t, t ∈ P ↔ t ≠ L.idle ∧
    ∃ p, L.place t = some p ∧ p.state = .blocked ∧ p.membership = .none
  numbered : ∀ t p, L.place t = some p → t < L.next
  resting : R → L.idle ∉ L.queue .ready
  /-- A handler runs with interrupts off. -/
  handler : L.inHandler = true → L.interrupts = .off

/-- Threads are arranged, and the current thread runs. -/
structure Orderly (R : Prop) (P : Set Tid) (L : Layout) : Prop extends Arranged R P L where
  current : ∃ p, L.place L.current = some p ∧ p.state = .running ∧ p.membership = .none

/-- One thread is somewhere else than before, or comes, or goes. -/
def Layout.move (L : Layout) (t : Tid) (p : Option Place) (queue : Membership → List Tid) :
    Layout :=
  { L with place := Function.update L.place t p, queue }

/-- A lock gets a new holder, or none. -/
def Layout.give (L : Layout) (l : LockId) (new : Option Tid) : Layout :=
  { L with
    place := fun t => (L.place t).map fun p =>
      { p with heldLocks := p.heldLocks.filter (· ≠ l) ++ if new = some t then [l] else [] }
    holder := Function.update L.holder l new }

theorem Layout.give_place {L : Layout} {l : LockId} {new : Option Tid} {t : Tid} {p : Place}
    (known : L.place t = some p) :
    (L.give l new).place t = some { p with
      heldLocks := p.heldLocks.filter (· ≠ l) ++ if new = some t then [l] else [] } := by
  simp [Layout.give, known]

theorem Layout.exists_place_of_give {L : Layout} {l : LockId} {new : Option Tid} {t : Tid} {q : Place}
    (known : (L.give l new).place t = some q) : ∃ p, L.place t = some p ∧
      q = { p with heldLocks := p.heldLocks.filter (· ≠ l) ++ if new = some t then [l] else [] } := by
  obtain ⟨p, known', rfl⟩ := Option.map_eq_some_iff.mp known
  exact ⟨p, known', rfl⟩

theorem mem_given {k l : LockId} {held : List LockId} {gets : Prop} [Decidable gets] :
    k ∈ (held.filter (· ≠ l) ++ if gets then [l] else []) ↔ if k = l then gets else k ∈ held := by
  by_cases hk : k = l <;> by_cases ht : gets <;> simp [hk, ht]

/-- Whoever gets a lock holds each of its locks once. -/
theorem Place.Proper.give {p : Place} {isCurrent gets : Prop} [Decidable gets] {l : LockId}
    (h : p.Proper isCurrent) (alive : gets → p.state ≠ .dying) :
    Place.Proper { p with heldLocks := p.heldLocks.filter (· ≠ l) ++ if gets then [l] else [] }
      isCurrent := by
  refine ⟨h.running, h.ready, fun dying => ?_, h.waiting, ?_⟩
  · obtain ⟨free, bare⟩ := h.dying dying
    have passed : ¬gets := fun gets => alive gets dying
    simp [free, bare, passed]
  · have nodup := h.nodup.filter (fun k => decide (k ≠ l))
    by_cases ht : gets
    · rw [if_pos ht, List.nodup_append]
      refine ⟨nodup, by simp, ?_⟩
      intro a ha b hb
      simp only [List.mem_filter, decide_eq_true_eq, List.mem_singleton] at ha hb
      rw [hb]
      exact ha.2
    · rw [if_neg ht, List.append_nil]
      exact nodup

namespace Arranged

variable {R : Prop} {P S : Set Tid} {L : Layout} {t w : Tid} {p q : Place} {l : LockId}

/-! ## What an arranged layout says about one thread -/

theorem mem_queue (h : Arranged R P L) (known : L.place t = some p) {m : Membership}
    (m_ne : m ≠ .none) : t ∈ L.queue m ↔ p.membership = m := by
  rw [h.queued m t m_ne, known]
  simp

theorem holder_iff (h : Arranged R P L) (known : L.place t = some p) :
    L.holder l = some t ↔ l ∈ p.heldLocks := by
  rw [h.holds l t, known]
  simp

theorem exists_of_mem_queue (h : Arranged R P L) {m : Membership} (m_ne : m ≠ .none)
    (mem : t ∈ L.queue m) : ∃ p, L.place t = some p ∧ p.membership = m :=
  (h.queued m t m_ne).mp mem

/-- Who waits for a lock says so. -/
theorem waitingLock_iff (h : Arranged R P L) (known : L.place t = some p) :
    p.waitingLock = some l ↔ t ∈ L.queue (.lock l) := by
  rw [(h.proper t p known).waiting l, h.mem_queue known (by simp)]

/-- A thread in no queue waits for no lock. -/
theorem waitingLock_eq_none (h : Arranged R P L) (known : L.place t = some p)
    (free : ∀ l, p.membership ≠ .lock l) : p.waitingLock = none := by
  rw [Option.eq_none_iff_forall_ne_some]
  intro l waits
  exact free l (((h.proper t p known).waiting l).mp waits)

theorem not_mem_parked (h : Arranged R P L) (known : L.place t = some p)
    (busy : p.state ≠ .blocked ∨ p.membership ≠ .none) : t ∉ P := by
  rw [h.parked t, known]
  grind

/-! ## Moving one thread -/

/-- Moving one thread keeps an arrangement if its new place is proper and the queues have it where
it says it is. -/
theorem move (h : Arranged R P L) {p : Option Place} {Q : Membership → List Tid}
    (others : ∀ m x, x ≠ t → (x ∈ Q m ↔ x ∈ L.queue m))
    (own : ∀ m, m ≠ .none → (t ∈ Q m ↔ ∃ q ∈ p, q.membership = m))
    (nodup : ∀ m, (Q m).Nodup)
    (proper : ∀ q ∈ p, q.Proper (t = L.current))
    (holds : ∀ l, L.holder l = some t ↔ ∃ q ∈ p, l ∈ q.heldLocks)
    (held : ∀ q ∈ p, ∀ l, q.membership = .lock l → L.holder l ≠ none)
    (relock : ∀ q ∈ p, ∀ c, q.membership = .condvar c → L.relock c t ≠ none)
    (doomed : t ∈ L.dying → ∀ q ∈ p, q.state = .dying)
    (idle : t = L.idle → ∃ q ∈ p, q.state ≠ .dying ∧
      (q.membership = .none ∨ q.membership = .ready ∧ ¬R))
    (numbered : ∀ q ∈ p, t < L.next)
    (parked : ∀ x, x ∈ S ↔ if x = t then
      t ≠ L.idle ∧ ∃ q ∈ p, q.state = .blocked ∧ q.membership = .none else x ∈ P) :
    Arranged R S (L.move t p Q) where
  proper x q hq := by
    by_cases hx : x = t
    · subst hx
      exact proper q (by simpa [Layout.move] using hq)
    · exact h.proper x q (by simpa [Layout.move, hx] using hq)
  queued m x m_ne := by
    by_cases hx : x = t
    · subst hx
      simpa [Layout.move] using own m m_ne
    · simpa [Layout.move, hx] using (others m x hx).trans (h.queued m x m_ne)
  nodup := nodup
  holds l x := by
    by_cases hx : x = t
    · subst hx
      simpa [Layout.move] using holds l
    · simpa [Layout.move, hx] using h.holds l x
  held l free := by
    rw [List.eq_nil_iff_forall_not_mem]
    intro x mem
    by_cases hx : x = t
    · subst hx
      obtain ⟨q, hq, waits⟩ := (own (.lock l) (by simp)).mp mem
      exact held q hq l waits free
    · have empty := h.held l free
      have waits := (others (.lock l) x hx).mp mem
      simp [empty] at waits
  relock c x mem := by
    by_cases hx : x = t
    · subst hx
      obtain ⟨q, hq, waits⟩ := (own (.condvar c) (by simp)).mp mem
      exact relock q hq c waits
    · exact h.relock c x ((others _ x hx).mp mem)
  doomed x mem := by
    obtain ⟨notCurrent, known, dying⟩ := h.doomed x mem
    refine ⟨notCurrent, known, fun q hq => ?_⟩
    by_cases hx : x = t
    · subst hx
      exact doomed mem q (by simpa [Layout.move] using hq)
    · exact dying q (by simpa [Layout.move, hx] using hq)
  idle := by
    by_cases hx : L.idle = t
    · obtain ⟨q, hq, alive, place⟩ := idle hx.symm
      refine ⟨q, ?_, alive, place.imp_right And.left⟩
      simpa [Layout.move, hx] using hq
    · simpa [Layout.move, hx] using h.idle
  parked x := by
    rw [parked x]
    by_cases hx : x = t
    · subst hx
      simp [Layout.move]
    · simpa [Layout.move, hx] using h.parked x
  numbered x q hq := by
    by_cases hx : x = t
    · subst hx
      exact numbered q (by simpa [Layout.move] using hq)
    · exact h.numbered x q (by simpa [Layout.move, hx] using hq)
  resting r mem := by
    have mem : L.idle ∈ Q .ready := mem
    by_cases hx : L.idle = t
    · obtain ⟨q, hq, -, place⟩ := idle hx.symm
      obtain ⟨q', hq', ready⟩ := (own .ready (by simp)).mp (hx ▸ mem)
      obtain rfl := Option.mem_unique hq hq'
      rcases place with place | ⟨-, awake⟩
      · simp [ready] at place
      · exact awake r
    · exact h.resting r ((others _ _ hx).mp mem)
  handler := h.handler

/-- A thread changes its state and stays in the queue it is in. -/
theorem restate (h : Arranged R P L) (known : L.place t = some p)
    (proper : q.Proper (t = L.current)) (still : q.membership = p.membership)
    (same : q.heldLocks = p.heldLocks) (doomed : t ∈ L.dying → q.state = .dying)
    (idle : t = L.idle → q.state ≠ .dying)
    (parked : ∀ x, x ∈ S ↔ if x = t then
      t ≠ L.idle ∧ q.state = .blocked ∧ q.membership = .none else x ∈ P) :
    Arranged R S (L.setPlace t (some q)) := by
  have queued : ∀ m, m ≠ .none → (t ∈ L.queue m ↔ q.membership = m) := by
    intro m m_ne
    rw [h.mem_queue known m_ne, still]
  apply h.move (t := t) (p := some q) (Q := L.queue)
  case others => simp
  case own =>
    intro m m_ne
    simp [queued m m_ne]
  case nodup => exact h.nodup
  case proper => simpa using proper
  case holds =>
    intro l
    simp [h.holder_iff known, same]
  case held =>
    intro q' hq' l waits free
    obtain rfl := Option.mem_unique hq' rfl
    have mem := (queued (.lock l) (by simp)).mpr waits
    simp [h.held l free] at mem
  case relock =>
    intro q' hq' c waits
    obtain rfl := Option.mem_unique hq' rfl
    exact h.relock c t ((queued (.condvar c) (by simp)).mpr waits)
  case doomed => simpa using doomed
  case idle =>
    intro ht
    obtain ⟨p', known', -, there⟩ := h.idle
    rw [← ht, known] at known'
    obtain rfl := Option.some.inj known'
    refine ⟨q, rfl, idle ht, ?_⟩
    rw [still]
    refine there.imp_right fun awake => ⟨awake, fun r => h.resting r ?_⟩
    rw [← ht]
    exact (queued .ready (by simp)).mpr (still.trans awake)
  case numbered =>
    intro _ _
    exact h.numbered t p known
  case parked =>
    intro x
    simpa using parked x

/-- A thread in no queue enters one. -/
theorem enqueue (h : Arranged R P L) (known : L.place t = some p) (free : p.membership = .none)
    {m : Membership} (m_ne : m ≠ .none) {waiting : List Tid}
    (perm : waiting.Perm (t :: L.queue m)) (proper : q.Proper (t = L.current))
    (enters : q.membership = m) (same : q.heldLocks = p.heldLocks)
    (held : ∀ l, m = .lock l → L.holder l ≠ none)
    (relock : ∀ c, m = .condvar c → L.relock c t ≠ none)
    (alive : t ∉ L.dying) (idle : t = L.idle → m = .ready ∧ ¬R) :
    Arranged R (P \ {t}) ((L.setPlace t (some q)).setQueue m waiting) := by
  have nowhere : ∀ m, m ≠ .none → t ∉ L.queue m := by
    intro m m_ne mem
    exact m_ne (((h.mem_queue known m_ne).mp mem).symm.trans free)
  apply h.move (t := t) (p := some q) (Q := Function.update L.queue m waiting)
  case others =>
    intro m' x hx
    by_cases hm : m' = m
    · subst hm
      simp [perm.mem_iff, hx]
    · simp [hm]
  case own =>
    intro m' m'_ne
    by_cases hm : m' = m
    · subst hm
      simp [perm.mem_iff, enters]
    · simp [hm, nowhere m' m'_ne, enters, Ne.symm hm]
  case nodup =>
    intro m'
    by_cases hm : m' = m
    · subst hm
      simpa [perm.nodup_iff, h.nodup m'] using nowhere m' m_ne
    · simpa [hm] using h.nodup m'
  case proper => simpa using proper
  case holds =>
    intro l
    simp [h.holder_iff known, same]
  case held =>
    intro q' hq' l waits
    obtain rfl := Option.mem_unique hq' rfl
    exact held l (enters.symm.trans waits)
  case relock =>
    intro q' hq' c waits
    obtain rfl := Option.mem_unique hq' rfl
    exact relock c (enters.symm.trans waits)
  case doomed => simp [alive]
  case idle =>
    intro ht
    obtain ⟨rfl, awake⟩ := idle ht
    refine ⟨q, rfl, fun dying => ?_, .inr ⟨enters, awake⟩⟩
    have := (proper.dying dying).1
    simp [this] at enters
  case numbered =>
    intro _ _
    exact h.numbered t p known
  case parked =>
    intro x
    by_cases hx : x = t
    · subst hx
      simp [enters, m_ne]
    · simp [hx]

/-- A thread leaves its queue. -/
theorem dequeue (h : Arranged R P L) (known : L.place t = some p) {m : Membership}
    (mem : t ∈ L.queue m) (m_ne : m ≠ .none) {waiting : List Tid}
    (perm : (L.queue m).Perm (t :: waiting)) (proper : q.Proper (t = L.current))
    (leaves : q.membership = .none) (same : q.heldLocks = p.heldLocks)
    (alive : q.state ≠ .dying) (alive' : t ∉ L.dying)
    (parked : ∀ x, x ∈ S ↔ if x = t then t ≠ L.idle ∧ q.state = .blocked else x ∈ P) :
    Arranged R S ((L.setPlace t (some q)).setQueue m waiting) := by
  have there : p.membership = m := (h.mem_queue known m_ne).mp mem
  have nodup := perm.nodup_iff.mp (h.nodup m)
  rw [List.nodup_cons] at nodup
  apply h.move (t := t) (p := some q) (Q := Function.update L.queue m waiting)
  case others =>
    intro m' x hx
    by_cases hm : m' = m
    · subst hm
      simp [perm.mem_iff, hx]
    · simp [hm]
  case own =>
    intro m' m'_ne
    by_cases hm : m' = m
    · subst hm
      simp [nodup.1, leaves, m_ne.symm]
    · simp [hm, h.mem_queue known m'_ne, there, leaves, Ne.symm hm, m'_ne.symm]
  case nodup =>
    intro m'
    by_cases hm : m' = m
    · subst hm
      simpa using nodup.2
    · simpa [hm] using h.nodup m'
  case proper => simpa using proper
  case holds =>
    intro l
    simp [h.holder_iff known, same]
  case held => simp [leaves]
  case relock => simp [leaves]
  case doomed => simp [alive']
  case idle =>
    intro _
    exact ⟨q, rfl, alive, .inl leaves⟩
  case numbered =>
    intro _ _
    exact h.numbered t p known
  case parked =>
    intro x
    simpa [leaves] using parked x

/-- A thread in a wait queue that is not the current one is blocked. -/
theorem blocked_of_waits (h : Arranged R P L) (known : L.place t = some p) (other : t ≠ L.current)
    (waits : p.membership ≠ .none) (unready : p.membership ≠ .ready) : p.state = .blocked := by
  have proper := h.proper t p known
  cases state : p.state with
  | running => exact absurd (proper.running state) other
  | ready => exact absurd (proper.ready.mp state) unready
  | blocked => rfl
  | dying => exact absurd (proper.dying state).1 waits

/-- The idle thread is in no wait queue. -/
theorem ne_idle_of_waits (h : Arranged R P L) (known : L.place t = some p)
    (waits : p.membership ≠ .none) (unready : p.membership ≠ .ready) : t ≠ L.idle := by
  rintro rfl
  obtain ⟨q, known', -, free | ready⟩ := h.idle
  · exact waits (Option.some.inj (known.symm.trans known') ▸ free)
  · exact unready (Option.some.inj (known.symm.trans known') ▸ ready)

/-- A waiting thread that leaves its queue is parked until it is made ready. -/
theorem leave (h : Arranged R P L) (known : L.place t = some p) {m : Membership}
    (mem : t ∈ L.queue m) (m_ne : m ≠ .none) (unready : m ≠ .ready) (other : t ≠ L.current)
    {waiting : List Tid} (perm : (L.queue m).Perm (t :: waiting)) :
    Arranged R (insert t P) ((L.setPlace t
      (some { p with membership := .none, waitingLock := none })).setQueue m waiting) := by
  have there : p.membership = m := (h.mem_queue known m_ne).mp mem
  have blocked := h.blocked_of_waits known other (there ▸ m_ne) (there ▸ unready)
  have notIdle := h.ne_idle_of_waits known (there ▸ m_ne) (there ▸ unready)
  apply h.dequeue known mem m_ne perm
  case proper => exact ⟨by simp [other, blocked], by simp [blocked], by simp [blocked], by simp,
    (h.proper t p known).nodup⟩
  case leaves => rfl
  case same => rfl
  case alive => simp [blocked]
  case alive' =>
    intro doomed
    simp [(h.doomed t doomed).2.2 p known] at blocked
  case parked =>
    intro x
    by_cases hx : x = t <;> simp [hx, blocked, notIdle]

/-- A thread comes; it is blocked and in no queue. -/
theorem bear (h : Arranged R P L) (fresh : L.place t = none) (numbered : t < L.next)
    (alive : t ∉ L.dying) (proper : q.Proper (t = L.current)) (blocked : q.state = .blocked)
    (free : q.membership = .none) (bare : q.heldLocks = []) :
    Arranged R (insert t P) (L.setPlace t (some q)) := by
  have not_idle : t ≠ L.idle := by
    intro ht
    obtain ⟨p, known, -⟩ := h.idle
    simp [← ht, fresh] at known
  have nowhere : ∀ m, m ≠ .none → t ∉ L.queue m := by
    intro m m_ne
    simp [h.queued m t m_ne, fresh]
  apply h.move (t := t) (p := some q) (Q := L.queue)
  case others => simp
  case own =>
    intro m m_ne
    simp [nowhere m m_ne, free, m_ne.symm]
  case nodup => exact h.nodup
  case proper => simpa using proper
  case holds =>
    intro l
    simp [h.holds l t, fresh, bare]
  case held => simp [free]
  case relock => simp [free]
  case doomed => simp [alive]
  case idle => simp [not_idle]
  case numbered => simpa using numbered
  case parked =>
    intro x
    by_cases hx : x = t <;> simp [hx, blocked, free, not_idle]

/-- A thread that has exited goes. -/
theorem reap (h : Arranged R P L) (known : L.place t = some p) (dying : p.state = .dying) :
    Arranged R P (L.setPlace t none) := by
  obtain ⟨free, bare⟩ := (h.proper t p known).dying dying
  have nowhere : ∀ m, m ≠ .none → t ∉ L.queue m := by
    intro m m_ne mem
    exact m_ne (((h.mem_queue known m_ne).mp mem).symm.trans free)
  apply h.move (t := t) (p := none) (Q := L.queue)
  case others => simp
  case own =>
    intro m m_ne
    simp [nowhere m m_ne]
  case nodup => exact h.nodup
  case proper => simp
  case holds =>
    intro l
    simp [h.holder_iff known, bare]
  case held => simp
  case relock => simp
  case doomed => simp
  case idle =>
    intro ht
    obtain ⟨p', known', alive, -⟩ := h.idle
    rw [← ht, known] at known'
    obtain rfl := Option.some.inj known'
    exact absurd dying alive
  case numbered => simp
  case parked =>
    intro x
    by_cases hx : x = t
    · subst hx
      simpa using h.not_mem_parked known (by simp [dying])
    · simp [hx]

/-! ## Passing locks -/

/-- After a lock was given the holders are those whose places say so. -/
theorem holds_give (h : Arranged R P L) {new : Option Tid}
    (there : ∀ w, new = some w → ∃ p, L.place w = some p) (k : LockId) (t : Tid) :
    (L.give l new).holder k = some t ↔
      ∃ p, (L.give l new).place t = some p ∧ k ∈ p.heldLocks := by
  by_cases kl : k = l
  · subst kl
    rw [show (L.give k new).holder k = new from Function.update_self _ _ _]
    constructor
    · intro gets
      obtain ⟨p, known⟩ := there t gets
      exact ⟨_, Layout.give_place known, mem_given.mpr (by simpa using gets)⟩
    · rintro ⟨q, known, holds⟩
      obtain ⟨p, -, rfl⟩ := Layout.exists_place_of_give known
      simpa using mem_given.mp holds
  · rw [show (L.give l new).holder k = L.holder k from Function.update_of_ne kl _ _, h.holds k t]
    constructor
    · rintro ⟨p, known, holds⟩
      exact ⟨_, Layout.give_place known, mem_given.mpr (by simpa [kl] using holds)⟩
    · rintro ⟨q, known, holds⟩
      obtain ⟨p, known', rfl⟩ := Layout.exists_place_of_give known
      exact ⟨p, known', by simpa [kl] using mem_given.mp holds⟩

/-- A lock goes from whoever held it to a thread that has not exited, or to nobody if nobody waits
for it. -/
theorem give (h : Arranged R P L) {new : Option Tid}
    (alive : ∀ w, new = some w → ∃ p, L.place w = some p ∧ p.state ≠ .dying)
    (unwanted : new = none → L.queue (.lock l) = []) : Arranged R P (L.give l new) := by
  constructor
  case proper =>
    intro t q known
    obtain ⟨p, known', rfl⟩ := Layout.exists_place_of_give known
    refine (h.proper t p known').give fun gets dying => ?_
    obtain ⟨p', known'', alive⟩ := alive t gets
    rw [known'] at known''
    exact alive (Option.some.inj known'' ▸ dying)
  case queued =>
    intro m t m_ne
    rw [show (L.give l new).queue = L.queue from rfl, h.queued m t m_ne]
    simp [Layout.give]
  case nodup => exact h.nodup
  case holds => exact h.holds_give fun w gets => (alive w gets).imp fun _ known => known.1
  case held =>
    intro k free
    by_cases kl : k = l
    · subst kl
      exact unwanted (by simpa [Layout.give] using free)
    · exact h.held k (by simpa [Layout.give, kl] using free)
  case relock => exact h.relock
  case doomed =>
    intro t mem
    obtain ⟨notCurrent, numbered, dying⟩ := h.doomed t mem
    refine ⟨notCurrent, numbered, fun q known => ?_⟩
    obtain ⟨p, known', rfl⟩ := Layout.exists_place_of_give known
    exact dying p known'
  case idle =>
    obtain ⟨p, known, alive, there⟩ := h.idle
    exact ⟨_, Layout.give_place known, alive, there⟩
  case parked =>
    intro t
    rw [h.parked t]
    simp [Layout.give]
  case numbered =>
    intro t q known
    obtain ⟨p, known', -⟩ := Layout.exists_place_of_give known
    exact h.numbered t p known'
  case resting => exact h.resting
  case handler => exact h.handler

/-! ## Switching -/

/-- Waiters keep a lock they have to have again. -/
theorem changeRelock (h : Arranged R P L) {relock : CondvarId → Tid → Option LockId}
    (kept : ∀ c t, t ∈ L.queue (.condvar c) → relock c t ≠ none) :
    Arranged R P (L.setRelock relock) :=
  { h with relock := kept }

/-- Thread numbers are used up. -/
theorem number (h : Arranged R P L) {next : Tid} (le : L.next ≤ next) :
    Arranged R P (L.setNext next) :=
  { h with
    doomed := fun t mem => by
      obtain ⟨notCurrent, numbered, dying⟩ := h.doomed t mem
      exact ⟨notCurrent, Int.lt_of_lt_of_le numbered le, dying⟩
    numbered := fun t p known => Int.lt_of_lt_of_le (h.numbered t p known) le }

/-- The threads that wait to be reclaimed are forgotten. -/
theorem forget (h : Arranged R P L) : Arranged R P (L.setDying []) :=
  { h with doomed := by simp }

/-- A thread that has exited and left the processor waits to be reclaimed. -/
theorem doom (h : Arranged R P L) (known : L.place t = some p) (dying : p.state = .dying)
    (left : t ≠ L.current) : Arranged R P (L.setDying (t :: L.dying)) :=
  { h with
    doomed := fun x mem => by
      rcases List.mem_cons.mp mem with rfl | mem
      · refine ⟨left, h.numbered x p known, fun q known' => ?_⟩
        obtain rfl := Option.some.inj (known.symm.trans known')
        exact dying
      · exact h.doomed x mem }

/-- When no thread runs, another one can become current. -/
theorem switch (h : Arranged R P L)
    (stopped : ∀ p, L.place L.current = some p → p.state ≠ .running) (alive : t ∉ L.dying) :
    Arranged R P (L.setCurrent t) :=
  { h with
    proper := fun x p known =>
      { h.proper x p known with
        running := fun running => by
          have := (h.proper x p known).running running
          exact absurd running (stopped p (this ▸ known)) }
    doomed := fun x mem => by
      refine ⟨fun hx => ?_, (h.doomed x mem).2⟩
      rw [show x = t from hx] at mem
      exact alive mem }

end Arranged

/-- The current thread is in no queue. -/
theorem Orderly.ne_current_of_waits {R : Prop} {P : Set Tid} {L : Layout} {t : Tid} {p : Place}
    (h : Orderly R P L) (known : L.place t = some p) (waits : p.membership ≠ .none) :
    t ≠ L.current := by
  rintro rfl
  obtain ⟨q, known', -, free⟩ := h.current
  obtain rfl := Option.some.inj (known.symm.trans known')
  exact waits free

theorem Orderly.not_mem_ready_current {R : Prop} {P : Set Tid} {L : Layout} (h : Orderly R P L) :
    L.current ∉ L.queue .ready := by
  obtain ⟨p, known, -, free⟩ := h.current
  rw [h.mem_queue known (by simp), free]
  simp

end KernelCore
