import KernelCore.Proofs.Scheduler.Donating

/-!
# Locking

Taking a lock, waiting for one and handing one over keep threads arranged. A hand-over moves a
lock and wakes a waiter; of the priorities only those of the two threads involved can change, and
both are brought up to date.
-/
namespace KernelCore

open Transition

section

variable {R : Prop} {P : Set Tid} {L : Layout} {t w x : Tid} {p q : Place} {l : LockId}
  {new : Option Tid}

private theorem filter_ne_eq_self {hl : List LockId} (h : l ∉ hl) : hl.filter (· ≠ l) = hl := by
  rw [List.filter_eq_self]
  intro k mem
  rw [decide_eq_true_eq]
  rintro rfl
  exact h mem

/-- A thread that neither had the lock nor gets it keeps its place. -/
theorem Arranged.give_place_other (h : Arranged R P L) (old : L.holder l ≠ some x)
    (other : new ≠ some x) : (L.give l new).place x = L.place x := by
  cases known : L.place x with
  | none => simp [Layout.give, known]
  | some p =>
    have unheld : l ∉ p.heldLocks := fun mem => old ((h.holder_iff known).mpr mem)
    rw [Layout.give_place known, filter_ne_eq_self unheld, if_neg other, List.append_nil]

@[simp] theorem Layout.waitingFor_give : (L.give l new).waitingFor = L.waitingFor := by
  funext x
  cases known : L.place x <;> simp [Layout.waitingFor, Layout.give, known]

theorem Orderly.give (h : Orderly R P L) {new : Option Tid}
    (alive : ∀ w, new = some w → ∃ p, L.place w = some p ∧ p.state ≠ .dying)
    (unwanted : new = none → L.queue (.lock l) = []) : Orderly R P (L.give l new) :=
  { h.toArranged.give alive unwanted with
    current := by
      obtain ⟨p, known, running, free⟩ := h.current
      exact ⟨_, Layout.give_place known, running, free⟩ }

/-- What stays the same without a switch. -/
structure Layout.Steady (L L' : Layout) : Prop where
  current : L'.current = L.current
  idle : L'.idle = L.idle
  locks : L'.locks = L.locks
  condvars : L'.condvars = L.condvars
  interrupts : L'.interrupts = L.interrupts
  waiters : ∀ c, L'.queue (.condvar c) = L.queue (.condvar c)
  relock : L'.relock = L.relock

theorem Layout.Steady.trans {L₁ L₂ : Layout} (h : L.Steady L₁) (h' : L₁.Steady L₂) :
    L.Steady L₂ :=
  ⟨h'.current.trans h.current, h'.idle.trans h.idle, h'.locks.trans h.locks,
    h'.condvars.trans h.condvars, h'.interrupts.trans h.interrupts,
    fun c => (h'.waiters c).trans (h.waiters c), h'.relock.trans h.relock⟩

/-- Some locks have gone to the foremost of their waiters, or to nobody if nobody waits, and all
others are where they were. -/
structure Layout.Passed (gone : LockId → Prop) (L L' : Layout) : Prop where
  kept : ∀ l, ¬gone l → L'.holder l = L.holder l ∧ L'.queue (.lock l) = L.queue (.lock l)
  next : ∀ l, gone l →
    L.queue (.lock l) = [] ∧ L'.queue (.lock l) = [] ∧ L'.holder l = none ∨
    ∃ w, L.Foremost (.lock l) w ∧ L'.queue (.lock l) = (L.queue (.lock l)).erase w ∧
      L'.holder l = some w
  /-- Only a thread that gave a lock away or got one has another priority. -/
  priority : ∀ u, u ≠ L.current → (∀ l, gone l → u ∉ L.queue (.lock l)) →
    L'.priority u = L.priority u

/-- One more lock is passed on. Its waiters wait for no other, so they have kept their
priorities. -/
theorem Layout.Passed.step {gone : LockId → Prop} {L₁ L₂ : Layout} (h : L.Passed gone L₁)
    (h' : L₁.Passed (· = l) L₂) (fresh : ¬gone l) (current : L₁.current = L.current)
    (waiters : ∀ u ∈ L.queue (.lock l), u ≠ L.current ∧ ∀ k, gone k → u ∉ L.queue (.lock k)) :
    L.Passed (fun k => gone k ∨ k = l) L₂ where
  kept k stays := by
    obtain ⟨stays, other⟩ := not_or.mp stays
    exact ⟨(h'.kept k other).1.trans (h.kept k stays).1,
      (h'.kept k other).2.trans (h.kept k stays).2⟩
  next k goes := by
    by_cases same : k = l
    · subst same
      obtain ⟨-, queue⟩ := h.kept k fresh
      have foremost : ∀ w, L₁.Foremost (.lock k) w → L.Foremost (.lock k) w := by
        intro w foremost
        unfold Layout.Foremost at foremost ⊢
        rw [queue] at foremost
        exact foremost.congr fun x mem => (h.priority x (waiters x mem).1 (waiters x mem).2).symm
      rw [← queue]
      rcases h'.next k rfl with none | ⟨w, first, rest⟩
      · exact .inl none
      · exact .inr ⟨w, foremost w first, rest⟩
    · obtain ⟨holder, queue⟩ := h'.kept k same
      rw [holder, queue]
      exact h.next k (goes.resolve_right same)
  priority u other elsewhere := by
    rw [h'.priority u (current ▸ other) ?_, h.priority u other fun k goes => elsewhere k (.inl goes)]
    rintro k rfl
    rw [(h.kept k fresh).2]
    exact elsewhere k (.inr rfl)

end

/-- The layout when a thread has joined those that wait for a lock. -/
def Layout.enterLock (L : Layout) (t : Tid) (p : Place) (l : LockId) : Layout :=
  (L.setPlace t (some { p with waitingLock := some l, membership := .lock l })).setQueue (.lock l)
    (L.queue (.lock l) ++ [t])

namespace Scheduler

variable {R : Prop} {P : Set Tid} {L : Layout} {s : Scheduler} {t w : Tid} {p q : Place}
  {l : LockId} {F : Violation → Prop}

/-! ## Taking a lock -/

theorem ends_take {Q : Unit → Scheduler → Prop} (h : Arranged R P s.layout)
    (known : s.layout.place t = some p) (exists_lock : l.index < s.layout.locks)
    (free : s.layout.holder l = none)
    (next : ∀ s', s'.layout = s.layout.give l (some t) → Q () s') :
    (take l t).Ends s Q fun v _ => F v := by
  unfold take
  rw [ends_bind]
  apply ends_updateLock_holder exists_lock
  intro s₁ h₁
  have known₁ : s₁.layout.place t = some p := by
    rw [h₁]
    exact known
  obtain ⟨th, found, eq⟩ := exists_thread known₁
  apply ends_updateThread_place found rfl
  intro s₂ h₂
  apply next
  rw [h₂, h₁]
  ext1 <;> try rfl
  funext x
  by_cases hx : x = t
  · subst hx
    have unheld : l ∉ p.heldLocks := by
      intro mem
      have := (h.holder_iff known).mpr mem
      simp [free] at this
    rw [Layout.give_place known, filter_ne_eq_self unheld]
    simp [Thread.place, ← eq]
  · rw [h.give_place_other (by simp [free]) (by simpa using Ne.symm hx)]
    simp [hx]

/-! ## Handing a lock over -/

/-- The current thread goes on with fewer locks. -/
structure Relinquished (R : Prop) (P : Set Tid) (L : Layout) (p : Place) (held : List LockId)
    (s' : Scheduler) : Prop where
  orderly : Orderly R P s'.layout
  keeps : L.Keeps s'.layout
  steady : L.Steady s'.layout
  place : s'.layout.place L.current = some { p with heldLocks := held }
  passed : L.Passed (fun l => L.holder l = some L.current ∧ l ∉ held) s'.layout

/-- A lock has been passed on, and only the priority of the thread that had it is still to be brought
up to date. -/
private structure PassedOn (R : Prop) (P : Set Tid) (L : Layout) (gone : LockId → Prop) (p : Place)
    (s' : Scheduler) : Prop where
  orderly : Orderly R P s'.layout
  steady : L.Steady s'.layout
  passed : L.Passed gone s'.layout
  feedback : s'.layout.feedback = L.feedback
  inHandler : s'.layout.inHandler = L.inHandler
  place : s'.layout.place L.current = some p
  backed : L.feedback = false → L.Backed → s'.layout.BackedBut {L.current}
  exact : L.feedback = false → L.Exact → s'.layout.ExactBut {L.current}

private theorem PassedOn.refresh_ends {s₁ : Scheduler} {gone : LockId → Prop}
    (h : PassedOn R P L gone p s₁) :
    (refreshPriority L.current).Ends s₁ (fun _ s' => Orderly R P s'.layout ∧ L.Keeps s'.layout ∧
      L.Steady s'.layout ∧ s'.layout.place L.current = some p ∧ L.Passed gone s'.layout)
      fun v _ => F v := by
  refine (refreshPriority_ends h.orderly.toArranged h.place).imp ?_
  rintro - s₂ refreshed
  have runs : ∀ x, ¬s₁.layout.WaitsFor L.current x := h.steady.current ▸ h.orderly.runs
  have reranked := refreshed.reranked
  have orderly := reranked.orderly h.orderly
  have back : L.feedback = false → L.Backed → s₂.layout.Backed := by
    intro priorities b x
    apply refreshed.backedBut (h.feedback.trans priorities) (h.backed priorities b) _
      (fun _ => runs) x (by simp)
    rintro u link rfl
    exact runs _ link
  have ex : L.feedback = false → L.Exact → s₂.layout.Exact := by
    intro priorities e x
    apply refreshed.exactBut (h.feedback.trans priorities) (h.exact priorities e) x
    simp [runs]
  have priority : ∀ u, u ≠ L.current → s₂.layout.priority u = s₁.layout.priority u :=
    fun u other => refreshed.priority other
  obtain ⟨rank, same⟩ := reranked
  refine ⟨orderly, ⟨same ▸ h.feedback, same ▸ h.inHandler, back, ex⟩, ?_, same ▸ h.place, ?_⟩
  · rw [same]
    exact ⟨h.steady.current, h.steady.idle, h.steady.locks, h.steady.condvars, h.steady.interrupts,
      h.steady.waiters, h.steady.relock⟩
  · constructor
    · rw [same]
      exact h.passed.kept
    · rw [same]
      exact h.passed.next
    · exact fun u other elsewhere => (priority u other).trans (h.passed.priority u other elsewhere)

/-- The layout when a lock has been passed on to a waiter, which is not ready yet. -/
private def passed (L : Layout) (l : LockId) (w : Tid) (q : Place) : Layout :=
  ((L.setPlace w (some { q with membership := .none, waitingLock := none })).setQueue (.lock l)
    ((L.queue (.lock l)).erase w)).give l (some w)

private theorem handed_none (holds : L.holder l = some t) :
    L.Handed l t none (L.give l none) where
  rank := rfl
  waiting u k _ := by simp
  holder k kl := by simp [Layout.give, kl]
  old := holds
  now := by simp [Layout.give]

private theorem handed_passed (h : Arranged R P L) (holds : L.holder l = some t)
    (known : L.place w = some q) (mem : w ∈ L.queue (.lock l)) :
    L.Handed l t (some w) (passed L l w q) where
  rank := rfl
  waiting u k kl := by
    have waits : L.waitingFor w = some l := by
      rw [Layout.waitingFor_of_place known]
      exact (h.waitingLock_iff known).mpr mem
    by_cases uw : u = w
    · subst uw
      simp [passed, waits, Ne.symm kl]
    · simp [passed, uw]
  holder k kl := by simp [passed, Layout.give, kl]
  old := holds
  now := by simp [passed, Layout.give]

private theorem give_none_eq (h : Arranged R P L) (known : L.place t = some p)
    (holds : L.holder l = some t) :
    (L.setPlace t (some { p with heldLocks := p.heldLocks.filter (· ≠ l) })).setHolder l none =
      L.give l none := by
  ext1 <;> try rfl
  funext x
  by_cases hx : x = t
  · subst hx
    simp [Layout.give_place known]
  · rw [h.give_place_other (by simpa [holds] using Ne.symm hx) (by simp)]
    simp [hx]

private theorem passed_eq (h : Arranged R P L) (known : L.place t = some p)
    (holds : L.holder l = some t) (knownw : L.place w = some q) (other : w ≠ t) :
    ((((L.setPlace t (some { p with heldLocks := p.heldLocks.filter (· ≠ l) })).setQueue (.lock l)
      ((L.queue (.lock l)).erase w)).setHolder l (some w)).setPlace w (some { q with
        membership := .none, waitingLock := none, heldLocks := q.heldLocks ++ [l] })) =
      passed L l w q := by
  have unheld : ∀ x px, x ≠ t → L.place x = some px → px.heldLocks.filter (· ≠ l) = px.heldLocks := by
    intro x px xt knownx
    apply filter_ne_eq_self
    intro held
    have := (h.holder_iff knownx).mpr held
    exact xt (Option.some.inj (this.symm.trans holds))
  ext1 <;> try rfl
  funext x
  unfold passed
  by_cases xw : x = w
  · subst xw
    rw [Layout.give_place (p := { q with membership := .none, waitingLock := none }) (by simp)]
    dsimp only
    rw [unheld x q other knownw]
    simp
  · by_cases xt : x = t
    · subst xt
      rw [Layout.give_place (p := p) (by simp [xw, known])]
      simp [xw, Ne.symm xw]
    · cases knownx : L.place x with
      | none => simp [Layout.give, xw, xt, knownx]
      | some px =>
        rw [Layout.give_place (p := px) (by simp [xw, knownx]), unheld x px xt knownx]
        simp [xw, xt, knownx, Ne.symm xw]

private theorem passed_none (empty : L.queue (.lock l) = []) :
    L.Passed (· = l) (L.give l none) where
  kept k other := by simp [Layout.give, other]
  next k same := by
    subst same
    exact .inl ⟨empty, empty, by simp [Layout.give]⟩
  priority _ _ _ := rfl

private theorem passed_some (foremost : L.Foremost (.lock l) w) :
    L.Passed (· = l) (passed L l w q) where
  kept k other := by simp [passed, Layout.give, other]
  next k same := by
    subst same
    exact .inr ⟨w, foremost, by simp [passed, Layout.give], by simp [passed, Layout.give]⟩
  priority _ _ _ := rfl

/-- A lock the thread holds is given away if it is missing from those that are left. -/
theorem given_iff (h : Arranged R P L) (known : L.place L.current = some p)
    (holds : L.holder l = some L.current) :
    (fun k => L.holder k = some L.current ∧ k ∉ p.heldLocks.filter (· ≠ l)) = (· = l) := by
  funext k
  have held := h.holder_iff known (l := k)
  by_cases same : k = l
  · subst same
    simp [holds]
  · simp [held, same]

/-- The waiter that gets a lock is parked until it is made ready. -/
private theorem passed_arranged (h : Arranged R P L) (knownw : L.place w = some q)
    (mem : w ∈ L.queue (.lock l)) (other : w ≠ L.current) :
    Arranged R (insert w P) (passed L l w q) := by
  have there := (h.mem_queue knownw (by simp)).mp mem
  have blocked := h.blocked_of_waits knownw other (by simp [there]) (by simp [there])
  have left := h.leave knownw mem (by simp) (by simp) other (List.perm_cons_erase mem)
  apply left.give
  · intro x hx
    obtain rfl := Option.some.inj hx
    exact ⟨{ q with membership := .none, waitingLock := none }, by simp, by simp [blocked]⟩
  · simp

/-- Nobody waits for the lock. -/
private theorem passedOn_nobody {s₂ : Scheduler} (h : Orderly R P s.layout)
    (known : s.layout.place s.layout.current = some p)
    (holds : s.layout.holder l = some s.layout.current)
    (empty : s.layout.queue (.lock l) = []) (same : s₂.layout = s.layout.give l none) :
    PassedOn R P s.layout (· = l) { p with heldLocks := p.heldLocks.filter (· ≠ l) } s₂ := by
  have handed := handed_none holds
  constructor
  case orderly =>
    rw [same]
    apply h.give
    · simp
    · exact fun _ => empty
  case steady => exact same ▸ ⟨rfl, rfl, rfl, rfl, rfl, fun _ => rfl, rfl⟩
  case passed => exact same ▸ passed_none empty
  case feedback => exact same ▸ rfl
  case inHandler => exact same ▸ rfl
  case place =>
    rw [same, Layout.give_place known]
    simp
  case backed => exact fun _ backed => same ▸ handed.backedBut h.runs backed
  case exact =>
    intro _ exact x hx
    rw [same]
    exact handed.exactBut exact x (by simpa using hx)

/-- The waiter that has got the lock is brought up to date and made ready. -/
private theorem wakeHolder_ends {s₁ : Scheduler} (h : Orderly R P s.layout)
    (known : s.layout.place s.layout.current = some p)
    (holds : s.layout.holder l = some s.layout.current)
    (foremost : s.layout.Foremost (.lock l) w) (knownw : s.layout.place w = some q)
    (there : q.membership = .lock l) (other : w ≠ s.layout.current)
    (same : s₁.layout = passed s.layout l w q) :
    (refreshPriority w).Ends s₁ (fun _ s₂ => (unblock w).Ends s₂
      (fun _ s₃ => PassedOn R P s.layout (· = l)
        { p with heldLocks := p.heldLocks.filter (· ≠ l) } s₃) fun v _ => F v) fun v _ => F v := by
  have mem : w ∈ s.layout.queue (.lock l) := foremost.mem
  have arranged : Arranged R (insert w P) s₁.layout :=
    same ▸ passed_arranged h.toArranged knownw mem other
  have known₁ : s₁.layout.place s.layout.current = some { p with
      heldLocks := p.heldLocks.filter (· ≠ l) } := by
    rw [same, passed, Layout.give_place (p := p) (by simp [Ne.symm other, known])]
    simp [other]
  have handed := handed_passed h.toArranged holds knownw mem
  rw [← same] at handed
  have feedback₁ : s₁.layout.feedback = s.layout.feedback := same ▸ rfl
  have runs₁ : ∀ x, ¬s₁.layout.WaitsFor s.layout.current x := by
    obtain ⟨p, known', -, free⟩ := h.current
    obtain rfl := Option.some.inj (known.symm.trans known')
    exact arranged.unlinked known₁ free
  have passed₁ : s.layout.Passed (· = l) s₁.layout := same ▸ passed_some foremost
  obtain ⟨-, qw, knownw₁, -, free₁⟩ := (arranged.parked w).mp (Set.mem_insert w P)
  refine (refreshPriority_ends arranged knownw₁).imp ?_
  rintro - s₂ refreshed
  have reranked := refreshed.reranked
  have fresh : w ∉ P := h.not_mem_parked knownw (by simp [there])
  apply ends_unblock_parked (reranked.arranged arranged) fresh
  intro qw s₃ knownw₂ h₃ arranged₃
  obtain ⟨rank, same₂⟩ := id reranked
  have known₃ : s₃.layout.place s.layout.current = some { p with
      heldLocks := p.heldLocks.filter (· ≠ l) } := by
    simpa [h₃, Layout.wake, Ne.symm other, same₂] using known₁
  have steady : s.layout.Steady s₃.layout := by
    rw [h₃, same₂, same]
    exact ⟨rfl, rfl, rfl, rfl, rfl, by simp [Layout.wake, passed, Layout.give], rfl⟩
  constructor
  case orderly =>
    obtain ⟨p, known', running, free⟩ := h.current
    obtain rfl := Option.some.inj (known.symm.trans known')
    refine { arranged₃ with current := ?_ }
    rw [steady.current]
    exact ⟨_, known₃, running, free⟩
  case steady => exact steady
  case passed =>
    constructor
    · rw [h₃, same₂]
      simpa [Layout.wake] using passed₁.kept
    · rw [h₃, same₂]
      simpa [Layout.wake] using passed₁.next
    · intro u otheru elsewhere
      have uw : u ≠ w := by
        rintro rfl
        exact elsewhere l rfl mem
      rw [h₃]
      exact (refreshed.priority uw).trans (passed₁.priority u otheru elsewhere)
  case feedback =>
    rw [h₃, same₂, same]
    rfl
  case inHandler =>
    rw [h₃, same₂, same]
    rfl
  case place => exact known₃
  case backed =>
    intro priorities backed x hx
    rw [h₃]
    apply (Layout.backedAt_congr (Layout.Calm.wake knownw₂).waits rfl).mpr
    apply refreshed.backedBut (feedback₁.trans priorities) (handed.backedBut h.runs backed) _
      (fun _ => arranged.unlinked knownw₁ free₁) x
    · exact fun mem => hx mem.1
    · rintro u link rfl
      exact runs₁ w link
  case exact =>
    intro priorities exact x hx
    rw [h₃]
    apply (Layout.exactAt_congr (Layout.Calm.wake knownw₂).waits rfl).mpr
    apply refreshed.exactBut (feedback₁.trans priorities) (handed.exactBut exact) x
    rintro (⟨rfl | passed, other⟩ | link)
    · exact hx rfl
    · exact other (Option.some.inj passed).symm
    · exact arranged.unlinked knownw₁ free₁ x link

theorem handOver_ends (h : Orderly R P s.layout)
    (known : s.layout.place s.layout.current = some p)
    (holds : s.layout.holder l = some s.layout.current) :
    (handOver l s.layout.current).Ends s
      (fun _ s' => Relinquished R P s.layout p (p.heldLocks.filter (· ≠ l)) s') fun v _ => F v := by
  have finish : ∀ s₁ : Scheduler, PassedOn R P s.layout (· = l)
      { p with heldLocks := p.heldLocks.filter (· ≠ l) } s₁ →
      (refreshPriority s.layout.current).Ends s₁
        (fun _ s' => Relinquished R P s.layout p (p.heldLocks.filter (· ≠ l)) s') fun v _ => F v := by
    intro s₁ passedOn
    refine passedOn.refresh_ends.imp ?_
    rintro - s' ⟨orderly, keeps, steady, place, passed⟩
    rw [← given_iff h.toArranged known holds] at passed
    exact ⟨orderly, keeps, steady, place, passed⟩
  unfold handOver
  obtain ⟨th, found, rfl⟩ := exists_thread known
  rw [ends_bind]
  apply ends_updateThread_place found rfl
  intro s₁ h₁
  have holds₁ : s₁.layout.holder l = some s.layout.current := by simpa [h₁] using holds
  rw [ends_bind]
  apply ends_popLockWaiter
  · intro empty
    have empty : s.layout.queue (.lock l) = [] := by simpa [h₁] using empty
    rw [ends_bind]
    apply ends_updateLock_holder (exists_lock_of_holder holds₁)
    intro s₂ h₂
    have same : s₂.layout = s.layout.give l none := by
      rw [h₂, h₁, ← give_none_eq h.toArranged known holds]
      rfl
    simp only [ends_bind, ends_pure]
    exact finish s₂ (passedOn_nobody h known holds empty same)
  · intro w s₂ foremost h₂
    rw [ends_bind]
    apply ends_updateLock_holder (exists_lock_of_holder (t := s.layout.current) (h₂ ▸ holds₁))
    intro s₃ h₃
    have foremost : s.layout.Foremost (.lock l) w := by
      rw [h₁] at foremost
      exact foremost
    have mem : w ∈ s.layout.queue (.lock l) := foremost.mem
    obtain ⟨q, knownw, there⟩ := h.exists_of_mem_queue (by simp) mem
    have other : w ≠ s.layout.current := by
      rintro rfl
      obtain ⟨p, known', -, free⟩ := h.current
      obtain rfl := Option.some.inj (knownw.symm.trans known')
      simp [there] at free
    have known₃ : s₃.layout.place w = some q := by simpa [h₃, h₂, h₁, other] using knownw
    obtain ⟨thw, foundw, rfl⟩ := exists_thread known₃
    simp only [ends_bind]
    apply ends_updateThread_place foundw rfl
    intro s₄ h₄
    have same : s₄.layout = passed s.layout l w thw.place := by
      rw [h₄, h₃, h₂, h₁, ← passed_eq h.toArranged known holds knownw other]
      rfl
    refine (wakeHolder_ends h known holds foremost knownw there other same).imp ?_
    rintro - s₅ woken
    refine woken.imp ?_
    rintro - s₆ passedOn
    rw [ends_emit]
    exact finish s₆ passedOn

/-- The last acquired lock goes first, until none is left. -/
theorem handOverAll_ends (h : Orderly R P s.layout)
    (known : s.layout.place s.layout.current = some p) :
    (handOverAll s.layout.current).Ends s (fun _ s' => Relinquished R P s.layout p [] s')
      fun v _ => F v := by
  unfold handOverAll
  obtain ⟨th, found, rfl⟩ := exists_thread known
  rw [ends_bind, ends_get, found]
  apply ends_forAll (I := fun rest => Relinquished R P s.layout th.place rest.reverse)
  · rintro l rest s₁ ⟨orderly, keeps, steady, known₁, passed₁⟩
    have holds : s₁.layout.holder l = some s.layout.current := by
      rw [orderly.holder_iff known₁]
      simp
    have nodup := (orderly.proper _ _ known₁).nodup
    simp only [List.reverse_cons] at nodup
    have unheld : l ∉ rest.reverse := by
      intro mem
      have := List.disjoint_of_nodup_append nodup mem
      simp at this
    have left : ((l :: rest).reverse).filter (· ≠ l) = rest.reverse := by
      simp only [List.reverse_cons, List.filter_append, filter_ne_eq_self unheld]
      simp
    rw [← steady.current] at known₁ holds ⊢
    refine (handOver_ends orderly known₁ holds).imp ?_
    rintro - s₂ ⟨orderly₂, keeps₂, steady₂, known₂, passed₂⟩
    dsimp only at known₂ passed₂
    rw [given_iff orderly.toArranged known₁ holds] at passed₂
    rw [left, steady.current] at known₂
    refine ⟨orderly₂, keeps.trans keeps₂, steady.trans steady₂, known₂, ?_⟩
    have mine : s.layout.holder l = some s.layout.current := by
      rw [← (passed₁.kept l (by simp)).1, holds, steady.current]
    have gone : (fun k => (s.layout.holder k = some s.layout.current ∧ k ∉ (l :: rest).reverse) ∨
        k = l) = fun k => s.layout.holder k = some s.layout.current ∧ k ∉ rest.reverse := by
      funext k
      by_cases same : k = l
      · subst same
        simp only [mine, unheld, not_false_eq_true, and_self, or_true]
      · simp [same]
    rw [← gone]
    apply passed₁.step passed₂ (by simp) steady.current
    intro u mem
    obtain ⟨pu, knownu, there⟩ := h.exists_of_mem_queue (by simp) mem
    refine ⟨h.ne_current_of_waits knownu (by simp [there]), fun k given mem' => ?_⟩
    have same := ((h.mem_queue knownu (by simp)).mp mem').symm.trans there
    simp [Membership.lock.inj same] at given
  · refine ⟨h, .refl _, ⟨rfl, rfl, rfl, rfl, rfl, fun _ => rfl, rfl⟩,
      by simp [known, Thread.place], fun _ _ => ⟨rfl, rfl⟩, fun l given => ?_, fun _ _ _ => rfl⟩
    rw [List.reverse_reverse] at given
    exact absurd ((h.holder_iff known).mp given.1) given.2

/-! ## Waiting for a lock -/

theorem enterLock_arranged (h : Arranged R P L) (known : L.place t = some p)
    (free : p.membership = .none) (alive : p.state ≠ .dying) (holds : L.holder l ≠ none)
    (busy : t ≠ L.idle) : Arranged R (P \ {t}) (L.enterLock t p l) := by
  have proper := h.proper t p known
  have unready : p.state ≠ .ready := fun ready => by simp [proper.ready.mp ready] at free
  apply h.enqueue known free (m := .lock l) (by simp)
  case perm => exact List.perm_append_singleton t _
  case proper =>
    refine ⟨proper.running, by simpa using unready, fun dying => absurd dying alive, ?_,
      proper.nodup⟩
    simp
  case enters => rfl
  case same => rfl
  case held =>
    intro k hk
    obtain rfl := Membership.lock.inj hk
    exact holds
  case relock => simp
  case alive => exact fun mem => alive ((h.doomed t mem).2.2 p known)
  case idle => exact fun ht => absurd ht busy

theorem enterLock_linked (h : Arranged R P L) (known : L.place t = some p)
    (free : p.membership = .none) : L.Linked t (L.enterLock t p l) where
  rank := rfl
  kept u v waits := by
    have ut : u ≠ t := by
      rintro rfl
      exact h.unlinked known free v waits
    obtain ⟨k, waits, holds⟩ := waits
    exact ⟨k, by simpa [Layout.enterLock, ut] using waits, holds⟩
  others u v ut waits := by
    obtain ⟨k, waits, holds⟩ := waits
    exact ⟨k, by simpa [Layout.enterLock, ut] using waits, holds⟩

/-- Joining the waiters of a lock and passing the priority on upholds the priorities. -/
theorem upholds_enterLock {L' : Layout} (h : Arranged R P L) (known : L.place t = some p)
    (free : p.membership = .none) (reranked : Reranked (L.enterLock t p l) L')
    (propagated : L.feedback = false → Propagated donationDepth t (L.enterLock t p l) L') :
    L.Upholds L' where
  feedback := by
    obtain ⟨rank, rfl⟩ := reranked
    rfl
  inHandler := by
    obtain ⟨rank, rfl⟩ := reranked
    rfl
  backed priorities backed :=
    (propagated priorities).backed ((enterLock_linked h known free).backed backed)
  exact priorities exact chained := by
    apply (propagated priorities).exact ((enterLock_linked h known free).exactBut exact)
    exact fun n x chain => chained.short n t x (chain.mono fun _ _ => reranked.waits.mpr)

/-- If the holder of the lock waits for nobody, the chain from the new waiter has one link. -/
theorem keeps_enterLock {L' : Layout} (h : Arranged R P L) (known : L.place t = some p)
    (free : p.membership = .none) (holds : L.holder l = some w) (other : w ≠ t)
    (runs : ∀ x, ¬L.WaitsFor w x) (reranked : Reranked (L.enterLock t p l) L')
    (propagated : L.feedback = false → Propagated donationDepth t (L.enterLock t p l) L') :
    L.Keeps L' := by
  have linked := enterLock_linked (l := l) h known free
  obtain ⟨feedback, inHandler, backed, -⟩ := upholds_enterLock h known free reranked propagated
  refine ⟨feedback, inHandler, backed, fun priorities exact => ?_⟩
  apply (propagated priorities).exact (linked.exactBut exact)
  intro n x chain
  have waits : (L.enterLock t p l).WaitsFor t w := ⟨l, by simp [Layout.enterLock], holds⟩
  cases chain with
  | nil => exact Nat.zero_le _
  | cons first rest =>
    obtain rfl := first.unique waits
    cases rest with
    | nil => decide
    | cons second _ => exact absurd (linked.others _ _ other second) (runs _)

/-- If the current thread holds the lock, only its own priority changes, and it does not fall. -/
theorem quiet_enterLock {L' : Layout} (h : Arranged R P L) (known : L.place t = some p)
    (free : p.membership = .none) (holds : L.holder l = some L.current) (other : L.current ≠ t)
    (running : L.current ∉ L.queue .ready) (runs : ∀ x, ¬L.WaitsFor L.current x)
    (backed : L.feedback = false → L.Backed) (reranked : Reranked (L.enterLock t p l) L')
    (still : L.feedback = true → L' = L.enterLock t p l)
    (propagated : L.feedback = false → Propagated donationDepth t (L.enterLock t p l) L') :
    L.Quiet L' := by
  have entered : L.Quiet (L.enterLock t p l) :=
    .of_same (by simp [Layout.enterLock]) rfl rfl rfl rfl rfl
  refine entered.trans ?_
  cases feedback : L.feedback with
  | true => exact still feedback ▸ .refl _
  | false =>
    have linked := enterLock_linked (l := l) h known free
    have propagated := propagated feedback
    have waits : (L.enterLock t p l).WaitsFor t L.current :=
      ⟨l, by simp [Layout.enterLock], holds⟩
    have reached : ∀ x, Relation.TransGen (L.enterLock t p l).WaitsFor t x → x = L.current := by
      intro x chain
      induction chain with
      | single link => exact link.unique waits
      | tail _ link ih => exact absurd (linked.others _ _ (ih ▸ other) link) (ih ▸ runs _)
    have priority : ∀ x ∈ L.queue .ready, L'.priority x = (L.enterLock t p l).priority x := by
      intro x mem
      have unreached : ¬Relation.TransGen (L.enterLock t p l).WaitsFor t x := by
        intro chain
        obtain rfl := reached x chain
        exact running mem
      simp only [Layout.priority, propagated.others x unreached]
    have rises := propagated.rises (linked.backed (backed feedback)) L.current
    obtain ⟨rank, rfl⟩ := reranked
    exact ⟨rfl, rfl, rfl, rfl, rfl, fun x mem => priority x (entered.ready ▸ mem), rises⟩

/-! ## The operations -/

/-- Taking a free lock concerns nobody else, since nobody waits for it. -/
theorem calm_take (h : Arranged R P L) (free : L.holder l = none) :
    L.Calm (L.give l (some t)) where
  feedback := rfl
  inHandler := rfl
  waits u x := by
    have nobody : L.waitingFor u ≠ some l := by
      intro waits
      obtain ⟨p, known, waits⟩ := Option.bind_eq_some_iff.mp waits
      have mem := (h.waitingLock_iff known).mp waits
      simp [h.held l free] at mem
    simp only [Layout.WaitsFor, Layout.waitingFor_give]
    apply exists_congr
    intro k
    by_cases kl : k = l
    · simp [kl, nobody]
    · simp [Layout.give, kl]
  ranks _ x := .inl rfl

theorem take_ends (h : Orderly R P s.layout) (exists_lock : l.index < s.layout.locks)
    (free : s.layout.holder l = none) :
    (take l s.layout.current).Ends s (fun _ s' => Rested R P s.layout s') fun v _ => F v := by
  obtain ⟨p, known, running, -⟩ := h.current
  apply ends_take h.toArranged known exists_lock free
  intro s' h'
  refine ⟨⟨h' ▸ h.give ?_ (by simp), h' ▸ calm_take h.toArranged free⟩,
    h' ▸ .of_same rfl rfl rfl rfl rfl rfl⟩
  intro w hw
  obtain rfl := Option.some.inj hw
  exact ⟨p, known, by simp [running]⟩

theorem tryAcquire_ends (h : Orderly R P s.layout) (exists_lock : l.index < s.layout.locks) :
    (tryAcquire l).Ends s (fun _ s' => Carried R P s.layout s') fun v _ => F v := by
  unfold tryAcquire
  rw [ends_bind, ends_get, ends_bind]
  apply ends_disableInterrupts
  intro s₁ h₁
  have begun : Rested R P s.layout s₁ := .off h h₁
  by_cases free : s.holder l = none
  · rw [if_pos free, ends_bind]
    have free₁ : s₁.layout.holder l = none := h₁ ▸ free
    have current : s.current = s₁.layout.current := h₁ ▸ rfl
    rw [current]
    refine (take_ends begun.orderly (h₁ ▸ exists_lock) free₁).imp ?_
    exact fun _ s₂ taken => (begun.trans taken).carried.close h _
  · rw [if_neg free]
    exact begun.carried.close h _

variable (awake : ¬R → F .idleReady)

include awake in
theorem release_ends (h : Orderly R P s.layout)
    (stranger : s.layout.holder l ≠ some s.layout.current → F (.releasedByOther s.layout.current)) :
    (release l).Ends s (fun _ s' => Carried R P s.layout s') fun v _ => F v := by
  unfold release
  rw [ends_bind, ends_get, ends_bind, ends_ensure]
  refine ⟨fun holds => ?_, stranger⟩
  rw [ends_bind]
  apply ends_disableInterrupts
  intro s₁ h₁
  have begun : Rested R P s.layout s₁ := .off h h₁
  have current : s.current = s₁.layout.current := h₁ ▸ rfl
  have holds₁ : s₁.layout.holder l = some s₁.layout.current := h₁ ▸ holds
  obtain ⟨p, known₁, -⟩ := begun.orderly.current
  rw [ends_bind, current]
  refine (handOver_ends begun.orderly known₁ holds₁).imp ?_
  rintro - s₂ ⟨orderly₂, keeps₂, -, -⟩
  have kept₂ : Kept R P s.layout s₂ := ⟨orderly₂, begun.calm.keeps.trans keeps₂⟩
  exact (kept₂.close_preempt awake h).imp fun _ _ attended => attended.carried

include awake in
/-- A thread that has joined the waiters of a lock passes its priority on and blocks. -/
private theorem joined_ends {L : Layout} (h : Orderly R P L) (known : L.place L.current = some p)
    (running : p.state = .running) (free : p.membership = .none) (held : L.holder l ≠ none)
    (busy : L.current ≠ L.idle) (outside : L.inHandler = false) (off : L.interrupts = .off)
    (joined : s.layout = L.enterLock L.current p l) :
    (propagatePriority L.current >>= fun _ => block).Ends s
      (fun _ s' => Orderly R P s'.layout ∧ L.Upholds s'.layout ∧ (R → s'.layout.Top))
      fun v _ => F v := by
  have arranged : Arranged R P s.layout := by
    have notParked := h.not_mem_parked known (by simp [running])
    have arranged := enterLock_arranged (l := l) h.toArranged known free (by simp [running]) held busy
    rwa [Set.sdiff_singleton_eq_self notParked, ← joined] at arranged
  have queued : s.layout.place L.current =
      some { p with waitingLock := some l, membership := .lock l } := by
    simp [joined, Layout.enterLock]
  rw [ends_bind]
  refine (propagatePriority_ends arranged queued).imp ?_
  rintro - s₁ ⟨reranked, -, propagated⟩
  have arranged₁ := reranked.arranged arranged
  rw [joined] at reranked propagated
  have upheld := upholds_enterLock h.toArranged known free reranked propagated
  obtain ⟨rank, same⟩ := reranked
  have queued₁ : s₁.layout.place s₁.layout.current =
      some { p with waitingLock := some l, membership := .lock l } := by
    rw [same]
    simp [Layout.enterLock]
  have notParked : s₁.layout.current ∉ P := arranged₁.not_mem_parked queued₁ (by simp)
  refine (block_ends awake (S := P) arranged₁ queued₁ running ?_ ?_ ?_).imp ?_
  · exact upheld.inHandler.trans outside
  · rw [same]
    exact off
  · intro x
    by_cases hx : x = s₁.layout.current <;> simp [hx, notParked]
  · rintro - s₂ ⟨⟨orderly, calm⟩, top⟩
    exact ⟨orderly, upheld.calm calm, top⟩

include awake in
theorem acquire_ends (h : Orderly R P s.layout) (exists_lock : l.index < s.layout.locks)
    (waits : s.layout.holder l ≠ none → s.layout.current ≠ s.layout.idle)
    (inside : s.layout.inHandler = true → F .acquiredInHandler)
    (twice : s.layout.holder l = some s.layout.current → F (.acquiredTwice s.layout.current)) :
    (acquire l).Ends s (fun _ s' => Performed R P s.layout s') fun v _ => F v := by
  unfold acquire
  rw [ends_bind, ends_get, ends_bind, ends_ensure]
  refine ⟨fun outside => ?_, fun handler => inside ((Bool.not_eq_false _).mp handler)⟩
  rw [ends_bind, ends_ensure]
  refine ⟨fun fresh => ?_, fun holds => twice (not_not.mp holds)⟩
  have outside : s.layout.inHandler = false := outside
  rw [ends_bind]
  apply ends_disableInterrupts
  intro s₁ h₁
  have begun : Rested R P s.layout s₁ := .off h h₁
  have current₁ : s.current = s₁.layout.current := h₁ ▸ rfl
  obtain ⟨p, known₁, running, free⟩ := begun.orderly.current
  by_cases unheld : s.holder l = none
  · rw [if_pos unheld, ends_bind, current₁]
    have unheld₁ : s₁.layout.holder l = none := h₁ ▸ unheld
    refine (take_ends begun.orderly (h₁ ▸ exists_lock) unheld₁).imp ?_
    refine fun _ s₂ taken => Ends.imp ((begun.trans taken).carried.close h _) ?_
    exact fun _ s₃ carried => carried.performed
  · rw [if_neg unheld, ends_bind, current₁]
    obtain ⟨th, found, rfl⟩ := exists_thread known₁
    apply ends_updateThread_place found rfl
    intro s₂ h₂
    have current : s₁.layout.current = s.layout.current := h₁ ▸ rfl
    have absent : s₁.layout.current ∉ s.layout.queue (.lock l) := by
      have queue : s.layout.queue = s₁.layout.queue := h₁ ▸ rfl
      rw [queue, begun.orderly.mem_queue known₁ (by simp), free]
      simp
    rw [ends_bind, PriorityQueue.push_of_not_mem (q := (s.lockState l).waiters) absent,
      ends_ofExcept_ok, ends_bind]
    apply ends_updateLock_waiters (by simpa [h₂, h₁] using exists_lock)
    intro s₃ h₃
    have entered : s₃.layout = s₁.layout.enterLock s₁.layout.current th.place l := by
      rw [h₃, h₂, h₁]
      rfl
    have blocks := joined_ends awake begun.orderly known₁ running free (h₁ ▸ unheld)
      (by simpa [h₁] using waits unheld) (by simpa [h₁] using outside) (by simp [h₁]) entered
    rw [ends_bind]
    refine (ends_bind.mp blocks).imp fun _ s₄ blocks => ?_
    rw [ends_bind]
    refine blocks.imp ?_
    rintro - s₅ ⟨orderly₅, upheld, top₅⟩
    simp only [ends_bind, ends_pure]
    refine (setInterrupts_ends orderly₅ fun _ => ?_).imp ?_
    · rw [upheld.inHandler, begun.calm.inHandler, outside]
    · rintro - s₆ ⟨⟨orderly₆, calm₆⟩, quiet₆⟩
      exact ⟨orderly₆, begun.calm.keeps.upholds_trans (upheld.calm calm₆),
        fun r _ _ => .inl (quiet₆.top (top₅ r))⟩

end Scheduler

end KernelCore
