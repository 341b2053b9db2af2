import KernelCore.Proofs.Scheduler.Locking

/-!
# Semaphores and condition variables

Waiting for a semaphore or on a condition variable puts the current thread into one more queue,
and a thread taken out of such a queue is made ready or joins the waiters of a lock.
-/
namespace KernelCore.Scheduler

open Transition

variable {R : Prop} {P : Set Tid} {L : Layout} {s : Scheduler} {t w : Tid} {p q : Place}
  {l : LockId} {i : SemaphoreId} {c : CondvarId} {F : Violation → Prop}

/-! ## Waking a waiter -/

theorem ends_wake {Q : Unit → Scheduler → Prop} (known : s.layout.place t = some p)
    (allowed : s.layout.interrupts = .on → s.layout.inHandler = false)
    (blocked : p.state = .blocked) (fresh : t ∉ s.layout.queue .ready)
    (next : ∀ s', s'.layout = s.layout.wake t p → Q () s') :
    (wake t).Ends s Q fun v _ => F v := by
  unfold wake
  obtain ⟨th, found, rfl⟩ := exists_thread known
  rw [ends_bind]
  apply ends_updateThread_place found rfl
  intro s₁ h₁
  have known₁ : s₁.layout.place t = some { th.place with membership := .none } := by
    simp [h₁, Thread.place]
  apply ends_unblock
  case allowed => simpa [h₁] using allowed
  case fresh => exact fun _ _ _ => by simpa [h₁] using fresh
  case absent => simp [known₁]
  case busy => simp [known₁, blocked]
  case queued => simp [known₁]
  case next =>
    intro p' s' known' _ _ h'
    obtain rfl := Option.some.inj (known₁.symm.trans known')
    apply next
    rw [h', h₁]
    ext1 <;> try rfl
    funext x
    by_cases hx : x = t <;> simp [Layout.wake, hx]

/-- The first sleeper is woken, or none has to be. -/
theorem ends_wakeFirst {Q : Unit → Scheduler → Prop} {E : Violation → Scheduler → Prop}
    (nobody : (s.sleepers.popExpired s.ticks).1 = none → Q () s)
    (somebody : ∀ t q, s.sleepers.popExpired s.ticks = (some t, q) →
      (wake t).Ends { s with sleepers := q } Q E) : wakeFirst.Ends s Q E := by
  unfold wakeFirst
  rw [ends_bind, ends_get]
  rcases popped : s.sleepers.popExpired s.ticks with ⟨_ | t, q⟩
  · exact nobody (by rw [popped])
  · dsimp only
    rw [ends_bind, ends_modify]
    exact somebody t q popped

/-- A thread in no queue enters one in which it waits for no lock, and blocks. -/
theorem block_in_queue_ends {s₁ : Scheduler} (awake : ¬R → F .idleReady) (h : Orderly R P L)
    (outside : L.inHandler = false) (off : L.interrupts = .off) (known : L.place L.current = some p)
    {m : Membership} (m_ne : m ≠ .none) (unready : m ≠ .ready) (unlocked : ∀ l, m ≠ .lock l)
    (busy : L.current ≠ L.idle) (relock : ∀ c, m = .condvar c → L.relock c L.current ≠ none)
    {waiting : List Tid} (perm : waiting.Perm (L.current :: L.queue m))
    (entered : s₁.layout =
      (L.setPlace L.current (some { p with membership := m })).setQueue m waiting) :
    block.Ends s₁ (fun _ s' => Elected R P L s') fun v _ => F v := by
  obtain ⟨p', known', running, free⟩ := h.current
  obtain rfl := Option.some.inj (known.symm.trans known')
  have arranged : Arranged R P s₁.layout :=
    entered ▸ h.enter known free running m_ne unready unlocked busy relock perm
  have known₁ : s₁.layout.place s₁.layout.current = some { p with membership := m } := by
    simp [entered]
  have notParked : s₁.layout.current ∉ P := arranged.not_mem_parked known₁ (by simp [running])
  have calm : L.Calm s₁.layout :=
    entered ▸ (Layout.Calm.setPlace known (q := { p with membership := m }) rfl).trans
      (.of_same rfl rfl rfl rfl rfl)
  refine (block_ends awake (S := P) arranged known₁ running ?_ ?_ ?_).imp ?_
  · simpa [entered] using outside
  · simpa [entered] using off
  · intro x
    by_cases hx : x = s₁.layout.current <;> simp [hx, notParked, m_ne]
  · exact fun _ s₂ elected => ⟨⟨elected.orderly, calm.trans elected.calm⟩, elected.top⟩

/-! ## Semaphores -/

variable (awake : ¬R → F .idleReady)

include awake in
theorem down_ends (h : Orderly R P s.layout) (exists_semaphore : i.index < s.layout.semaphores)
    (waits : (s.semaphoreState i).value = 0 → s.layout.current ≠ s.layout.idle)
    (inside : s.layout.inHandler = true → F .downInHandler) :
    (down i).Ends s (fun _ s' => Carried R P s.layout s') fun v _ => F v := by
  unfold down
  rw [ends_bind, ends_get, ends_bind, ends_ensure]
  refine ⟨fun outside => ?_, fun handler => inside ((Bool.not_eq_false _).mp handler)⟩
  have outside : s.layout.inHandler = false := outside
  rw [ends_bind]
  apply ends_disableInterrupts
  intro s₁ h₁
  have begun : Rested R P s.layout s₁ := .off h h₁
  by_cases unit : 0 < (s.semaphoreState i).value
  · rw [if_pos unit, ends_bind]
    apply ends_updateSemaphore (h₁ ▸ exists_semaphore)
    intro s₂ h₂
    have same : s₂.layout = s₁.layout := h₂.trans (s₁.layout.setQueue_self _)
    have rested₂ : Rested R P s.layout s₂ :=
      ⟨⟨same ▸ begun.orderly, same ▸ begun.calm⟩, same ▸ begun.quiet⟩
    rw [ends_bind, ends_pure]
    exact rested₂.carried.close h _
  · rw [if_neg unit]
    have busy : s.layout.current ≠ s.layout.idle := waits (by omega)
    obtain ⟨p, known, -, free⟩ := h.current
    have absent : s.current ∉ s.layout.queue (.semaphore i) := by
      change s.layout.current ∉ _
      rw [h.mem_queue known (by simp), free]
      simp
    rw [ends_bind, PriorityQueue.push_of_not_mem (q := (s.semaphoreState i).waiters) absent,
      ends_ofExcept_ok, ends_bind]
    apply ends_updateSemaphore (h₁ ▸ exists_semaphore)
    intro s₂ h₂
    have known₂ : s₂.layout.place s.layout.current = some p := by simpa [h₂, h₁] using known
    obtain ⟨th, found, rfl⟩ := exists_thread known₂
    rw [ends_bind]
    apply ends_updateThread_place (t := s.layout.current) found rfl
    intro s₃ h₃
    have entered : s₃.layout = (s₁.layout.setPlace s₁.layout.current
        (some { th.place with membership := .semaphore i })).setQueue (.semaphore i)
          (s₁.layout.queue (.semaphore i) ++ [s₁.layout.current]) := by
      rw [h₃, h₂, h₁]
      rfl
    rw [ends_bind]
    refine (block_in_queue_ends awake begun.orderly (h₁ ▸ outside) (h₁ ▸ rfl) (h₁ ▸ known)
      (by simp) (by simp) (by simp) (h₁ ▸ busy) (by simp) (List.perm_append_singleton _ _)
      entered).imp ?_
    rintro - s₄ elected
    rw [ends_bind, ends_pure]
    exact (begun.elected elected).attended.carried.close h _

/-- Giving a unit back fails only if nobody waits for it and the semaphore is full. -/
theorem up_ends (awake : ¬R → F .idleReady) (h : Orderly R P s.layout)
    (full : maxSemaphoreValue ≤ (s.semaphoreState i).value → F (.arithmetic .addition))
    (exists_semaphore : i.index < s.layout.semaphores) :
    (up i).Ends s (fun _ s' => Carried R P s.layout s') fun v _ => F v := by
  unfold up disableInterrupts
  rw [ends_bind, ends_modifyGet]
  generalize same : ({ s with interrupts := .off } : Scheduler) = s₁
  have h₁ : s₁.layout = s.layout.setInterrupts .off := same ▸ rfl
  have value : s₁.semaphoreState i = s.semaphoreState i := same ▸ rfl
  have begun : Rested R P s.layout s₁ := .off h h₁
  dsimp only
  rw [ends_bind]
  apply ends_popSemaphoreWaiter
  · intro _
    simp only [addUnit, ends_bind, ends_get, ends_ensure, value]
    refine ⟨fun room => ?_, fun crowded => full (Nat.le_of_not_lt crowded)⟩
    apply ends_updateSemaphore (h₁ ▸ exists_semaphore)
    intro s₂ h₂
    have same := h₂.trans (s₁.layout.setQueue_self (.semaphore i))
    have kept : Kept R P s.layout s₂ := ⟨same ▸ begun.orderly, same ▸ begun.calm.keeps⟩
    exact ends_bind.mp (kept.close_carried awake h)
  · intro w s₂ foremost h₂
    have mem : w ∈ s₁.layout.queue (.semaphore i) := foremost.mem
    obtain ⟨q, known₁, there⟩ := begun.orderly.exists_of_mem_queue (by simp) mem
    have other := begun.orderly.ne_current_of_waits known₁ (by simp [there])
    have blocked := begun.orderly.blocked_of_waits known₁ other (by simp [there]) (by simp [there])
    have woken : (wake w).Ends s₂ (fun _ s' => Settled R P s₁.layout s') fun v _ => F v := by
      apply ends_wake (h₂ ▸ known₁) (by simp [h₂, h₁]) blocked
      · simp [h₂, begun.orderly.mem_queue known₁, there]
      · intro s₃ h₃
        rw [h₂] at h₃
        exact ⟨h₃ ▸ begun.orderly.wake_waiter known₁ mem (by simp) (by simp) (by simp)
          (List.perm_cons_erase mem), h₃ ▸ .wake_waiter known₁ _ _⟩
    rw [wake, ends_bind] at woken
    simp only [ends_bind]
    refine woken.imp ?_
    intro _ s₃ unblocked
    refine unblocked.imp ?_
    intro _ s₄ settled
    exact ends_bind.mp ((begun.toSettled.trans settled).kept.close_carried awake h)

/-! ## Condition variables -/

theorem heldByCurrent_iff :
    s.heldByCurrent l = true ↔ s.layout.holder l = some s.layout.current := by
  simp [heldByCurrent, layout]

/-- Which lock each waiter has to have again, once one has been noted for the thread `t` too. -/
private def noted (s : Scheduler) (c : CondvarId) (t : Tid) (l : LockId) :
    CondvarId → Tid → Option LockId :=
  Function.update s.layout.relock c ((s.condvarState c).relock.insert t l).find?

private theorem noted_self : noted s c t l c t ≠ none := by
  simp [noted, Table.find?_insert]

/-- Whoever waited already has a lock noted as before. -/
private theorem noted_ne_none (h : Orderly R P s.layout) (k : CondvarId) (x : Tid)
    (mem : x ∈ s.layout.queue (.condvar k)) : noted s c t l k x ≠ none := by
  have before := h.relock k x mem
  unfold noted
  by_cases kc : k = c
  · subst kc
    rw [Function.update_self, Table.find?_insert]
    split
    · simp
    · exact before
  · simpa [kc] using before

/-- The current thread, holding what it holds, joins the waiters of the condition variable and
blocks. -/
private theorem joinCondvar_ends {rest : Scheduling Unit} {Q : Unit → Scheduler → Prop}
    (awake : ¬R → F .idleReady) (h : Orderly R P s.layout)
    (exists_condvar : c.index < s.layout.condvars) (busy : s.layout.current ≠ s.layout.idle)
    (outside : s.layout.inHandler = false) (off : s.layout.interrupts = .off) {q : PriorityQueue}
    (waiters : q.tids = s.layout.queue (.condvar c))
    (next : ∀ s', Elected R P s.layout s' → rest.Ends s' Q fun v _ => F v) :
    ((do
      let waiters ← ofExcept (q.push s.layout.current)
      updateCondvar c fun x => { waiters, relock := x.relock.insert s.layout.current l }
      updateThread s.layout.current fun th => { th with membership := .condvar c }
      block
      rest) : Scheduling Unit).Ends s Q fun v _ => F v := by
  obtain ⟨p, known, -, free⟩ := h.current
  have absent : s.layout.current ∉ q.tids := by
    rw [waiters, h.mem_queue known (by simp)]
    simp [free]
  rw [ends_bind, PriorityQueue.push_of_not_mem absent, ends_ofExcept_ok, ends_bind]
  apply ends_updateCondvar exists_condvar
  intro s₁ h₁
  have relocked : s₁.layout = (s.layout.setQueue (.condvar c) (q.tids ++ [s.layout.current])).setRelock
      (noted s c s.layout.current l) := h₁
  have known₁ : s₁.layout.place s.layout.current = some p := by
    rw [relocked]
    exact known
  obtain ⟨th, found, same⟩ := exists_thread known₁
  rw [ends_bind]
  apply ends_updateThread_place found rfl
  intro s₂ h₂
  have orderly : Orderly R P (s.layout.setRelock (noted s c s.layout.current l)) :=
    { h.toArranged.changeRelock (noted_ne_none h) with current := h.current }
  have entered : s₂.layout = ((s.layout.setRelock (noted s c s.layout.current l)).setPlace
      s.layout.current (some { th.place with membership := .condvar c })).setQueue (.condvar c)
        (s.layout.queue (.condvar c) ++ [s.layout.current]) := by
    rw [h₂, relocked, ← waiters]
    rfl
  have own : ∀ k, Membership.condvar c = .condvar k →
      noted s c s.layout.current l k s.layout.current ≠ none := by
    rintro k ⟨⟩
    exact noted_self
  rw [ends_bind]
  refine (block_in_queue_ends awake orderly outside off (same ▸ known) (by simp) (by simp) (by simp)
    busy own (List.perm_append_singleton _ _) entered).imp fun _ s₃ elected => ?_
  have relocking : s.layout.Calm (s.layout.setRelock (noted s c s.layout.current l)) :=
    .of_same rfl rfl rfl rfl rfl
  exact next s₃ ⟨⟨elected.orderly, relocking.trans elected.calm⟩, elected.top⟩

/-- The current thread gives its lock away and waits in the queue of the condition variable. -/
theorem wait_ends (awake : ¬R → F .idleReady) (h : Orderly R P s.layout)
    (exists_condvar : c.index < s.layout.condvars) (busy : s.layout.current ≠ s.layout.idle)
    (inside : s.layout.inHandler = true → F .waitedInHandler)
    (stranger : s.layout.holder l ≠ some s.layout.current → F .waitedWithoutLock) :
    (wait c l).Ends s (fun _ s' => Carried R P s.layout s') fun v _ => F v := by
  unfold wait
  rw [ends_bind, ends_get, ends_bind, ends_ensure]
  refine ⟨fun outside => ?_, fun handler => inside ((Bool.not_eq_false _).mp handler)⟩
  have outside : s.layout.inHandler = false := outside
  rw [ends_bind, ends_ensure, heldByCurrent_iff]
  refine ⟨fun holds => ?_, stranger⟩
  rw [ends_bind]
  apply ends_disableInterrupts
  intro s₁ h₁
  have begun : Rested R P s.layout s₁ := .off h h₁
  obtain ⟨p, known₁, -⟩ := begun.orderly.current
  have current : s.current = s₁.layout.current := h₁ ▸ rfl
  rw [ends_bind, current]
  refine (handOver_ends begun.orderly known₁ (h₁ ▸ holds)).imp ?_
  rintro - s₂ ⟨orderly₂, keeps₂, steady, -⟩
  have waiters : (s.condvarState c).waiters.tids = s₂.layout.queue (.condvar c) := by
    rw [steady.waiters, h₁]
    rfl
  rw [← steady.current]
  refine joinCondvar_ends awake orderly₂ ?_ ?_ ?_ ?_ waiters fun s₃ elected => ?_
  · rw [steady.condvars, h₁]
    exact exists_condvar
  · rw [steady.current, steady.idle, h₁]
    exact busy
  · exact keeps₂.inHandler.trans (begun.calm.inHandler.trans outside)
  · exact steady.interrupts.trans (h₁ ▸ rfl)
  · have keeps := begun.calm.keeps.trans (keeps₂.trans elected.calm.keeps)
    have carried : Carried R P s.layout s₃ :=
      ⟨⟨elected.orderly, keeps⟩, fun r _ _ => .inl (elected.top r)⟩
    exact carried.close h ()

/-- The layout when a thread has been signalled and joins no other queue yet. -/
private def signalled (L : Layout) (c : CondvarId) (w : Tid) (q : Place)
    (relock : CondvarId → Tid → Option LockId) : Layout :=
  ((L.setPlace w (some { q with membership := .none, waitingLock := none })).setQueue (.condvar c)
    ((L.queue (.condvar c)).erase w)).setRelock relock

private theorem signalled_arranged (h : Arranged R P L) (known : L.place w = some q)
    (mem : w ∈ L.queue (.condvar c)) (other : w ≠ L.current)
    {relock : CondvarId → Tid → Option LockId}
    (kept : ∀ k t, t ∈ L.queue (.condvar k) → (k = c → t ≠ w) → relock k t = L.relock k t) :
    Arranged R (insert w P) (signalled L c w q relock) := by
  have left := h.leave known mem (by simp) (by simp) other (List.perm_cons_erase mem)
  apply left.changeRelock
  intro k t waits
  by_cases kc : k = c
  · subst kc
    simp only [Layout.setQueue_queue, Function.update_self,
      (h.nodup (.condvar k)).mem_erase_iff] at waits
    rw [kept k t waits.2 fun _ => waits.1]
    exact h.relock k t waits.2
  · have waits : t ∈ L.queue (.condvar k) := by simpa [kc] using waits
    rw [kept k t waits fun same => absurd same kc]
    exact h.relock k t waits

private theorem calm_signalled (h : Arranged R P L) (known : L.place w = some q)
    (mem : w ∈ L.queue (.condvar c)) (relock : CondvarId → Tid → Option LockId) :
    L.Calm (signalled L c w q relock) := by
  have there : q.membership = .condvar c := (h.mem_queue known (by simp)).mp mem
  have unlocked := h.waitingLock_eq_none known (by simp [there])
  have moved : L.Calm (L.setPlace w
      (some { q with membership := .none, waitingLock := none })) :=
    .setPlace known unlocked.symm
  exact moved.trans (.of_same rfl rfl rfl rfl rfl)

/-- A signalled thread that has been queued for its lock passes its priority on. -/
private theorem signalled_ends (h : Orderly R P L) (known : L.place w = some q)
    (mem : w ∈ L.queue (.condvar c)) (holds : L.holder l = some L.current)
    (kept : ∀ k t, t ∈ L.queue (.condvar k) → (k = c → t ≠ w) → relock k t = L.relock k t)
    (joined : s.layout = (signalled L c w q relock).enterLock w
      { q with membership := .none, waitingLock := none } l) :
    (propagatePriority w).Ends s (fun _ s' => Carried R P L s') fun v _ => F v := by
  have there := (h.mem_queue known (by simp)).mp mem
  have other := h.ne_current_of_waits known (by simp [there])
  have blocked := h.blocked_of_waits known other (by simp [there]) (by simp [there])
  have notIdle := h.ne_idle_of_waits known (by simp [there]) (by simp [there])
  have fresh : w ∉ P := h.not_mem_parked known (by simp [there])
  have arranged := signalled_arranged h.toArranged known mem other kept
  have calm := calm_signalled h.toArranged known mem relock
  have left : (signalled L c w q relock).place w =
      some { q with membership := .none, waitingLock := none } := by
    simp [signalled]
  have held : (signalled L c w q relock).holder l = some L.current := holds
  have entered := enterLock_arranged (l := l) arranged left rfl (by simp [blocked])
    (by simp [held]) notIdle
  rw [Set.insert_sdiff_of_mem P (Set.mem_singleton w), Set.sdiff_singleton_eq_self fresh,
    ← joined] at entered
  have orderly : Orderly R P s.layout :=
    { entered with
      current := by
        obtain ⟨pc, knownc, running, free⟩ := h.current
        refine ⟨pc, ?_, running, free⟩
        rw [joined]
        simpa [Layout.enterLock, signalled, other.symm] using knownc }
  have queued : s.layout.place w =
      some { q with membership := .lock l, waitingLock := some l } := by
    rw [joined]
    simp [Layout.enterLock]
  have runs : ∀ x, ¬(signalled L c w q relock).WaitsFor L.current x := by
    intro x waits
    exact h.runs x ((calm.waits _ _).mp waits)
  refine (propagatePriority_ends entered queued).imp ?_
  rintro - s' ⟨reranked, still, propagated⟩
  have orderly' := reranked.orderly orderly
  rw [joined] at reranked still propagated
  have keeps := keeps_enterLock arranged left rfl held other.symm runs reranked propagated
  refine ⟨⟨orderly', calm.keeps.trans keeps⟩, fun _ backed led => ?_⟩
  have quiet : L.Quiet (signalled L c w q relock) :=
    .of_same (by simp [signalled]) rfl rfl rfl rfl rfl
  have running : L.current ∉ (signalled L c w q relock).queue .ready := by
    rw [quiet.ready]
    exact h.not_mem_ready_current
  exact (quiet.trans (quiet_enterLock arranged left rfl held other.symm running runs
    (fun priorities => calm.backed priorities (backed priorities)) reranked still propagated)).led led

/-- A signalled thread joins the queue of its lock, which the current thread holds, and passes its
priority on from there. -/
theorem ends_moveToLock {Q : Unit → Scheduler → Prop} (h : Orderly R P L)
    (mem : w ∈ L.queue (.condvar c)) (exists_condvar : c.index < L.condvars)
    (holds : L.holder l = some L.current)
    (strange : ∀ k, L.relock c w = some k → k ≠ l → F (.otherLock w))
    (popped : s.layout = L.setQueue (.condvar c) ((L.queue (.condvar c)).erase w))
    (next : ∀ q s', L.place w = some q → L.relock c w = some l →
      s'.layout = (((L.setQueue (.condvar c) ((L.queue (.condvar c)).erase w)).setRelock
        (Function.update L.relock c (Function.update (L.relock c) w none))).setPlace w
          (some { q with membership := .lock l, waitingLock := some l })).setQueue (.lock l)
            (L.queue (.lock l) ++ [w]) → (propagatePriority w).Ends s' Q fun v _ => F v) :
    (moveToLock c l w).Ends s Q fun v _ => F v := by
  obtain ⟨q, known, there⟩ := h.exists_of_mem_queue (by simp) mem
  have relock : (s.condvarState c).relock.find? = L.relock c := by
    change s.layout.relock c = _
    rw [popped]
    rfl
  have forgotten : ((s.condvarState c).relock.erase w).find? =
      Function.update (L.relock c) w none := by
    funext t
    rw [Table.find?_erase, relock, Function.update_apply]
  unfold moveToLock
  rw [ends_bind, ends_get, ends_bind]
  apply ends_updateCondvar (popped ▸ exists_condvar)
  intro s₁ h₁
  rw [show (s.condvarState c).waiters.tids = s.layout.queue (.condvar c) from rfl,
    Layout.setQueue_self] at h₁
  dsimp only at h₁
  rw [forgotten] at h₁
  rw [ends_bind, ends_ensure, relock]
  refine ⟨fun noted => ?_, fun otherLock => ?_⟩
  · have known₁ : s₁.layout.place w = some q := by
      rw [h₁, popped]
      exact known
    obtain ⟨th, found, rfl⟩ := exists_thread known₁
    rw [ends_bind]
    apply ends_updateThread_place found rfl
    intro s₂ h₂
    have absent : w ∉ s.layout.queue (.lock l) := by
      rw [popped]
      simp [h.mem_queue known, there]
    rw [ends_bind, PriorityQueue.push_of_not_mem (q := (s.lockState l).waiters) absent,
      ends_ofExcept_ok, ends_bind]
    have exists_lock : l.index < s.layout.locks :=
      exists_lock_of_holder (t := L.current) (popped ▸ holds)
    apply ends_updateLock_waiters (by simpa [h₂, h₁] using exists_lock)
    intro s₃ h₃
    refine next th.place s₃ known noted ?_
    rw [h₃, h₂, h₁]
    change ((s.layout.setRelock _).setPlace w _).setQueue (.lock l)
      (s.layout.queue (.lock l) ++ [w]) = _
    rw [popped]
    rfl
  · cases own : L.relock c w with
    | none => exact absurd own (h.relock c w mem)
    | some k =>
      apply strange k own
      rintro rfl
      exact otherLock own

theorem moveToLock_ends (h : Orderly R P L) (mem : w ∈ L.queue (.condvar c))
    (exists_condvar : c.index < L.condvars) (holds : L.holder l = some L.current)
    (strange : ∀ k, L.relock c w = some k → k ≠ l → F (.otherLock w))
    (popped : s.layout = L.setQueue (.condvar c) ((L.queue (.condvar c)).erase w)) :
    (moveToLock c l w).Ends s (fun _ s' => Carried R P L s') fun v _ => F v := by
  refine ends_moveToLock h mem exists_condvar holds strange popped fun q s' known _ moved => ?_
  have kept : ∀ k t, t ∈ L.queue (.condvar k) → (k = c → t ≠ w) →
      Function.update L.relock c (Function.update (L.relock c) w none) k t = L.relock k t := by
    intro k t _ unlike
    by_cases kc : k = c
    · subst kc
      simp [unlike rfl]
    · simp [kc]
  refine signalled_ends h known mem holds kept (moved.trans ?_)
  ext1 <;> try rfl
  funext x
  by_cases hx : x = w <;> simp [Layout.enterLock, signalled, hx]

/-- A waiter that is signalled has to have named the same lock. -/
theorem signal_ends (h : Orderly R P s.layout)
    (strange : ∀ w k, w ∈ s.layout.queue (.condvar c) → s.layout.relock c w = some k → k ≠ l →
      F (.otherLock w))
    (stranger : s.layout.holder l ≠ some s.layout.current → F .signalledWithoutLock) :
    (signal c l).Ends s (fun _ s' => Carried R P s.layout s') fun v _ => F v := by
  unfold signal
  rw [ends_bind, ends_get, ends_bind, ends_ensure, heldByCurrent_iff]
  refine ⟨fun holds => ?_, stranger⟩
  rw [ends_bind]
  apply ends_disableInterrupts
  intro s₁ h₁
  have begun : Rested R P s.layout s₁ := .off h h₁
  rw [ends_bind]
  apply ends_popCondvarWaiter
  · intro _
    exact begun.carried.close h ()
  · intro w s₂ foremost h₂
    have mem : w ∈ s₁.layout.queue (.condvar c) := foremost.mem
    rw [ends_bind]
    refine (moveToLock_ends begun.orderly mem (exists_condvar_of_waiter mem) (h₁ ▸ holds) ?_
      h₂).imp ?_
    · have mem : w ∈ s.layout.queue (.condvar c) := by simpa [h₁] using mem
      intro k own other
      exact strange w k mem (by simpa [h₁] using own) other
    · rintro - s₃ moved
      exact (begun.carried.trans moved).close h ()

/-- Every waiter is signalled in turn, and the current thread keeps the lock meanwhile. -/
theorem broadcast_ends (h : Orderly R P s.layout) (strange : ∀ w, F (.otherLock w))
    (stranger : F .signalledWithoutLock) :
    (broadcast c l).Ends s (fun _ s' => Carried R P s.layout s') fun v _ => F v := by
  unfold broadcast
  rw [ends_bind, ends_get]
  apply ends_times (I := fun _ s' => Carried R P s.layout s')
  · intro _ s₁ carried
    refine (signal_ends carried.orderly (fun w _ _ _ _ => strange w) fun _ => stranger).imp ?_
    exact fun _ s₂ carried₂ => carried.trans carried₂
  · exact .refl h

end KernelCore.Scheduler
