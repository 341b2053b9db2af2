import KernelCore.Proofs.Scheduler.Decisions
import KernelCore.Proofs.Scheduler.Handoff
import KernelCore.Proofs.Scheduler.Histories

/-!
# The units of a semaphore

A semaphore starts with some units. Going up adds one, unless a thread waits for it: then the unit
is the waiter's. So the units a semaphore has had are those it still has and those that have been
taken, whoever took them and whenever.
-/
namespace KernelCore.Scheduler

open Transition

section

variable {s s' : Scheduler}

theorem semaphores_alone {p : Part} (other : p ≠ .semaphores) (alone : p.Alone s s') :
    s'.semaphores = s.semaphores := by
  cases p with
  | semaphores => exact absurd rfl other
  | threads =>
    have same := congrArg semaphores alone.rest
    exact same
  | _ =>
    have same := congrArg semaphores alone
    exact same

instance : Ignores semaphores .threads := ⟨semaphores_alone (by simp)⟩
instance : Ignores semaphores .interrupts := ⟨semaphores_alone (by simp)⟩
instance : Ignores semaphores .handler := ⟨semaphores_alone (by simp)⟩
instance : Ignores semaphores .population := ⟨semaphores_alone (by simp)⟩
instance : Ignores semaphores .processor := ⟨semaphores_alone (by simp)⟩

end

/-! ## Who is blocked -/

instance (s : Scheduler) (t : Tid) : Decidable (s.Blocked t) :=
  decidable_of_iff ((s.thread? t).any (·.state = .blocked)) (by simp [Blocked, Option.any_eq_true])

/-- One thread is no longer blocked, and every other blocked thread still is. -/
def Wakes (w : Tid) (s s' : Scheduler) : Prop := ∀ t, s.Blocked t ∧ ¬s'.Blocked t ↔ t = w

section

variable {R : Prop} {P : Set Tid} {s s' : Scheduler} {t : Tid} {m : Membership}

theorem blocked_iff : s.Blocked t ↔ ∃ p, s.layout.place t = some p ∧ p.state = .blocked := by
  constructor
  · rintro ⟨th, found, blocked⟩
    exact ⟨th.place, place_of_thread found, blocked⟩
  · rintro ⟨p, known, blocked⟩
    obtain ⟨th, found, rfl⟩ := exists_thread known
    exact ⟨th, found, blocked⟩

theorem blocked_congr (same : s'.thread? t = s.thread? t) : s'.Blocked t ↔ s.Blocked t := by
  unfold Blocked
  rw [same]

theorem not_blocked_current (h : Orderly R P s.layout) : ¬s.Blocked s.current := by
  rw [blocked_iff]
  rintro ⟨p, known, blocked⟩
  obtain ⟨q, known', running, -⟩ := h.current
  obtain rfl := Option.some.inj (known.symm.trans known')
  simp [blocked] at running

theorem not_mem_ready_of_blocked (h : Arranged R P s.layout) (blocked : s.Blocked t) :
    t ∉ s.ready.tids := by
  obtain ⟨p, known, blocked⟩ := blocked_iff.mp blocked
  intro mem
  have there := (h.mem_queue known (m := .ready) (by simp)).mp mem
  have ready := (h.proper t p known).ready.mpr there
  simp [blocked] at ready

theorem blocked_of_mem_queue (h : Orderly R P s.layout) (waits : m ≠ .none) (unready : m ≠ .ready)
    (mem : t ∈ s.layout.queue m) : s.Blocked t := by
  obtain ⟨p, known, there⟩ := h.exists_of_mem_queue waits mem
  have other := h.ne_current_of_waits known (there ▸ waits)
  exact blocked_iff.mpr ⟨p, known, h.blocked_of_waits known other (there ▸ waits) (there ▸ unready)⟩

/-- To give way blocks and wakes nobody else. -/
theorem Yielded.blocked (h : Orderly R P s.layout) (yielded : Yielded s s') (other : t ≠ s.current) :
    s'.Blocked t ↔ s.Blocked t := by
  obtain ⟨-, s₁, decision, rfl⟩ := yielded
  have awake : ∀ t ∈ s.dying, ¬s.Blocked t := by
    intro t gone blocked
    obtain ⟨p, known, blocked⟩ := blocked_iff.mp blocked
    simp [(h.doomed t gone).2.2 p known] at blocked
  have dying : s.gaveWay.dying = s.dying := by rw [gaveWay_rest]
  have next : s₁.current ∈ s.ready.tids ∨ s₁.current = s.current := by
    have next := decision.next
    unfold gaveWay at next
    split at next
    · rename_i idle
      exact next.imp_right fun alone => alone.2.trans idle.symm
    · simpa using next
  change s₁.Blocked t ↔ s.Blocked t
  by_cases chosen : t = s₁.current
  · subst chosen
    obtain ⟨th, -, running⟩ := decision.chosen
    have runs : ¬s₁.Blocked s₁.current := by
      rintro ⟨th', found, blocked⟩
      obtain rfl := Option.some.inj (running.symm.trans found)
      cases blocked
    exact iff_of_false runs fun blocked =>
      next.elim (not_mem_ready_of_blocked h.toArranged blocked) other
  · by_cases gone : t ∈ s.dying
    · refine iff_of_false ?_ (awake t gone)
      rintro ⟨th, found, -⟩
      simp [decision.reclaimed t (dying ▸ gone)] at found
    · have same := decision.others t (dying ▸ gone) chosen
      exact blocked_congr (same.trans (gaveWay_thread? other))

theorem preemptCheck_blocked (h : Orderly R P s.layout) : preemptCheck.Ends s
    (fun _ s' => ∀ t, t ≠ s.current → (s'.Blocked t ↔ s.Blocked t)) fun _ _ => True := by
  refine preemptCheck_decides.imp fun _ s' decided t other => ?_
  rcases decided with ⟨-, rfl⟩ | ⟨-, ⟨-, rfl⟩ | yielded⟩
  · rfl
  · exact blocked_congr rfl
  · exact yielded.blocked h other

end

/-! ## What an operation does to a semaphore -/

/-- What an event does to a semaphore. -/
inductive Deed where
  | create (value : Nat)
  /-- A unit is given back. -/
  | give
  /-- The current thread takes a unit. -/
  | take
  /-- The current thread waits for a unit. -/
  | await
  | other

/-- The semaphores after the deed. A unit that is given back goes to the foremost waiter, which alone
is woken, or to the semaphore if nobody waits. -/
def Deed.Done (i : SemaphoreId) (s s' : Scheduler) : Deed → Prop
  | create value =>
    s.semaphores.length = i.index ∧ s'.semaphores = s.semaphores ++ [⟨value, .empty⟩]
  | give => i.index < s.semaphores.length ∧
    ((s.semaphoreState i).waiters.tids = [] ∧ s'.semaphores =
        s.semaphores.modify i.index (fun x => { x with value := x.value + 1 }) ∨
      ∃ w, (s.semaphoreState i).waiters.Foremost s.priorityOf w ∧ Wakes w s s' ∧ s'.semaphores =
        s.semaphores.modify i.index fun x =>
          { x with waiters := ⟨(s.semaphoreState i).waiters.tids.erase w⟩ })
  | take => i.index < s.semaphores.length ∧ 0 < (s.semaphoreState i).value ∧ s'.semaphores =
    s.semaphores.modify i.index fun x => { x with value := x.value - 1 }
  | await => i.index < s.semaphores.length ∧ (s.semaphoreState i).value = 0 ∧ s'.semaphores =
    s.semaphores.modify i.index fun x =>
      { x with waiters := ⟨(s.semaphoreState i).waiters.tids ++ [s.current]⟩ }
  | other => s.semaphores.length ≤ s'.semaphores.length ∧ s'.semaphoreState i = s.semaphoreState i

section

variable {R : Prop} {P : Set Tid} {s s' : Scheduler} {i k : SemaphoreId}

theorem semaphoreState_congr (same : s'.semaphores = s.semaphores) :
    s'.semaphoreState = s.semaphoreState := by
  funext k
  simp [semaphoreState, same]

theorem Deed.Done.of_same (same : s'.semaphores = s.semaphores) : Deed.other.Done i s s' :=
  ⟨Nat.le_of_eq (by rw [same]), congrFun (semaphoreState_congr same) i⟩

theorem Deed.Done.of_modify {f : SemaphoreState → SemaphoreState} (different : k ≠ i)
    (exists_semaphore : k.index < s.semaphores.length)
    (same : s'.semaphores = s.semaphores.modify k.index f) : Deed.other.Done i s s' := by
  refine ⟨Nat.le_of_eq (by simp [same]), ?_⟩
  have state := semaphoreState_modify f exists_semaphore i
  rw [if_neg different.symm] at state
  rw [← state]
  exact congrFun (semaphoreState_congr same) i

/-- Another semaphore is as it was. -/
theorem Deed.Done.elsewhere {d : Deed} (done : d.Done k s s') (used : ∀ value, d ≠ .create value)
    (there : d ≠ .other) (different : k ≠ i) : Deed.other.Done i s s' := by
  cases d with
  | create value => exact absurd rfl (used value)
  | give =>
    obtain ⟨within, ⟨-, same⟩ | ⟨w, -, -, same⟩⟩ := done
    · exact .of_modify different within same
    · exact .of_modify different within same
  | take => exact .of_modify different done.1 done.2.2
  | await => exact .of_modify different done.1 done.2.2
  | other => exact absurd rfl there

theorem down_does (within : i.index < s.semaphores.length) : (down i).Ends s (fun a s' =>
    a = .immediate ∧ Deed.take.Done i s s' ∨ a = .blocked ∧ Deed.await.Done i s s')
    fun _ _ => True := by
  unfold down disableInterrupts updateSemaphore
  rw [ends_bind, ends_get, ends_bind, ends_ensure]
  refine ⟨fun _ => ?_, fun _ => trivial⟩
  rw [ends_bind, ends_modifyGet, ends_ite]
  dsimp only
  constructor
  · intro free
    rw [ends_bind, ends_modify, ends_bind, ends_pure, ends_bind]
    apply ends_of_preserves (f := semaphores) preserves_setInterrupts
    intro _ s' same
    exact .inl ⟨rfl, within, free, same⟩
  · intro none
    rw [ends_bind]
    apply ends_push
    intro _
    rw [ends_bind, ends_modify, ends_bind]
    apply ends_of_preserves (f := semaphores) preserves_replaceThread
    intro _ s₁ same₁
    rw [ends_bind]
    apply ends_of_preserves (f := semaphores) preserves_block
    intro _ s₂ same₂
    rw [ends_bind, ends_pure, ends_bind]
    apply ends_of_preserves (f := semaphores) preserves_setInterrupts
    intro _ s₃ same₃
    exact .inr ⟨rfl, within, Nat.eq_zero_of_not_pos none, same₃.trans (same₂.trans same₁)⟩

theorem tryDown_does (within : i.index < s.semaphores.length) : (tryDown i).Ends s (fun b s' =>
    b = true ∧ Deed.take.Done i s s' ∨ b = false ∧ s'.semaphores = s.semaphores)
    fun _ _ => True := by
  unfold tryDown disableInterrupts updateSemaphore
  rw [ends_bind, ends_get, ends_bind, ends_modifyGet, ends_ite]
  dsimp only
  constructor
  · intro free
    rw [ends_bind, ends_modify, ends_bind]
    apply ends_of_preserves (f := semaphores) preserves_setInterrupts
    intro _ s' same
    exact .inl ⟨decide_eq_true free, within, free, same⟩
  · intro none
    rw [ends_bind]
    apply ends_of_preserves (f := semaphores) preserves_setInterrupts
    intro _ s' same
    exact .inr ⟨decide_eq_false none, same⟩

theorem layout_setWaiters {waiters : PriorityQueue}
    (exists_semaphore : i.index < s.layout.semaphores) :
    ({ s with semaphores := s.semaphores.modify i.index fun x => { x with waiters } } :
      Scheduler).layout = s.layout.setQueue (.semaphore i) waiters.tids :=
  ends_updateSemaphore (f := fun x => { x with waiters }) (Q := fun _ s' => s'.layout = _)
    (E := fun _ _ => True) exists_semaphore fun _ same => same

theorem popSemaphoreWaiter_exact : (popSemaphoreWaiter i).Ends s (fun next s' =>
    next = none ∧ (s.semaphoreState i).waiters.tids = [] ∧ s'.semaphores = s.semaphores ∨
    ∃ w, next = some w ∧ (s.semaphoreState i).waiters.Foremost s.priorityOf w ∧
      s' = { s with
        semaphores := s.semaphores.modify i.index fun x =>
          { x with waiters := ⟨(s.semaphoreState i).waiters.tids.erase w⟩ } }) fun _ _ => True := by
  unfold popSemaphoreWaiter
  rw [ends_modifyGet]
  cases found : ((s.semaphoreState i).waiters.popMax s.priorityOf).1 with
  | none =>
    obtain ⟨empty, same⟩ := PriorityQueue.popMax_of_none found
    refine .inl ⟨rfl, empty, ?_⟩
    simp only [same]
    apply List.ext_getElem?
    intro k
    rw [List.getElem?_modify]
    cases state : s.semaphores[k]? with
    | none => rfl
    | some x =>
      by_cases own : i.index = k
      · simp [own, semaphoreState, state]
      · simp [own]
  | some w =>
    obtain ⟨foremost, rest⟩ := PriorityQueue.popMax_of_some found
    simp only [rest]
    exact .inr ⟨w, rfl, foremost, rfl⟩

/-- A waiter that has been taken out of its queue is woken, and nobody else is. -/
theorem wake_preempt_wakes {L : Layout} {w : Tid} {p : Place} (level : InterruptLevel)
    (h : Orderly R P L) (known : L.place w = some p) (mem : w ∈ L.queue (.semaphore i))
    (taken : s.layout = L.setQueue (.semaphore i) ((L.queue (.semaphore i)).erase w))
    (off : L.interrupts = .off) (allowed : level = .on → L.inHandler = false) : (do
      wake w
      let _ ← setInterrupts level
      preemptCheck : Scheduling Unit).Ends s (fun _ s' => Wakes w s s') fun _ _ => True := by
  have there := (h.mem_queue known (m := .semaphore i) (by simp)).mp mem
  have other := h.ne_current_of_waits known (by simp [there])
  have blocked := h.blocked_of_waits known other (by simp [there]) (by simp [there])
  have unready : w ∉ s.layout.queue .ready := by
    simp [taken, h.mem_queue known (m := .ready), there]
  rw [ends_bind]
  apply ends_wake (taken ▸ known) (by simp [taken, off]) blocked unready
  intro s₁ h₁
  rw [taken] at h₁
  have orderly₁ : Orderly R P s₁.layout := h₁ ▸ h.wake_waiter known mem (by simp) (by simp) (by simp)
    (List.perm_cons_erase mem)
  have inHandler₁ : s₁.layout.inHandler = L.inHandler := h₁ ▸ rfl
  rw [ends_bind]
  apply ends_setInterrupts (inHandler₁ ▸ allowed)
  intro _ s₂ h₂
  have orderly₂ : Orderly R P s₂.layout := h₂ ▸ orderly₁.setInterrupts fun inside => by
    cases level with
    | off => rfl
    | on => simp [inHandler₁, allowed rfl] at inside
  refine (preemptCheck_blocked orderly₂).imp fun _ s' kept t => ?_
  have current : s₂.layout.current = L.current := by
    rw [h₂, h₁]
    rfl
  have blocked₂ : s₂.Blocked t ↔ s.Blocked t ∧ t ≠ w := by
    rw [blocked_iff, blocked_iff, h₂, h₁, taken]
    by_cases own : t = w <;> simp [Layout.wake, own]
  have awake : ¬s₂.Blocked s₂.current := not_blocked_current orderly₂
  by_cases own : t = s₂.current
  · have own' : t ≠ w := fun same => other (same.symm.trans (own.trans current))
    refine iff_of_false (fun both => ?_) own'
    exact awake (own ▸ blocked₂.mpr ⟨both.1, own'⟩)
  · rw [kept t own, blocked₂]
    constructor
    · intro both
      by_contra different
      exact both.2 ⟨both.1, different⟩
    · rintro rfl
      exact ⟨blocked_iff.mpr ⟨p, taken ▸ known, blocked⟩, fun both => both.2 rfl⟩

theorem up_does (h : Orderly R P s.layout) (within : i.index < s.semaphores.length) :
    (up i).Ends s (fun _ s' => Deed.give.Done i s s') fun _ _ => True := by
  unfold up disableInterrupts
  rw [ends_bind, ends_modifyGet]
  generalize off : ({ s with interrupts := .off } : Scheduler) = s₁
  have h₁ : s₁.layout = s.layout.setInterrupts .off := off ▸ rfl
  have semaphores₁ : s₁.semaphores = s.semaphores := off ▸ rfl
  have state₁ : s₁.semaphoreState i = s.semaphoreState i := off ▸ rfl
  have priority₁ : s₁.priorityOf = s.priorityOf := off ▸ rfl
  have orderly₁ : Orderly R P s₁.layout := h₁ ▸ h.setInterrupts fun _ => rfl
  dsimp only
  rw [ends_bind]
  refine popSemaphoreWaiter_exact.imp fun next s₂ popped => ?_
  rw [state₁, priority₁] at popped
  rcases popped with ⟨rfl, empty, same₂⟩ | ⟨w, rfl, foremost, h₂⟩
  · unfold addUnit updateSemaphore
    rw [ends_bind, ends_bind, ends_get, ends_bind, ends_ensure]
    refine ⟨fun _ => ?_, fun _ => trivial⟩
    rw [ends_modify]
    apply ends_of_preserves (f := semaphores) preserves_close_preempt
    intro _ s' same
    exact ⟨within, .inl ⟨empty, same.trans (by rw [same₂, semaphores₁])⟩⟩
  · have kept : Preserves semaphores (do
        updateThread w fun th => { th with membership := .none }
        unblock w
        let _ ← setInterrupts s.interrupts
        preemptCheck) :=
      .bind preserves_replaceThread fun _ => .bind preserves_unblock fun _ => preserves_close_preempt
    have woken : (do
        updateThread w fun th => { th with membership := .none }
        unblock w
        let _ ← setInterrupts s.interrupts
        preemptCheck : Scheduling Unit).Ends s₂ (fun _ s' => Wakes w s s') fun _ _ => True := by
      have mem : w ∈ s₁.layout.queue (.semaphore i) := by
        change w ∈ (s₁.semaphoreState i).waiters.tids
        rw [state₁]
        exact foremost.mem
      obtain ⟨p, known, -⟩ := orderly₁.exists_of_mem_queue (by simp) mem
      have taken : s₂.layout = s₁.layout.setQueue (.semaphore i)
          ((s₁.layout.queue (.semaphore i)).erase w) := by
        rw [h₂, layout_setWaiters (exists_semaphore_of_waiter mem), ← state₁]
        rfl
      have threads : s₂.thread? = s.thread? := by
        rw [h₂, ← off]
        rfl
      have woken := wake_preempt_wakes s.interrupts orderly₁ known mem taken (by rw [h₁]; rfl)
        (by rw [h₁]; exact h.allowed)
      rw [wake, ends_bind, ends_bind] at woken
      rw [ends_bind]
      refine woken.imp fun _ s₃ woken => ?_
      rw [ends_bind]
      refine woken.imp fun _ s₄ woken => woken.imp fun _ s' wakes t => ?_
      rw [← wakes t, blocked_congr (congrFun threads t)]
    refine ((kept.ends s₂).and woken).mono (fun _ s' both => ?_) fun _ _ _ => trivial
    exact ⟨within, .inr ⟨w, foremost, both.2, both.1.trans (by rw [h₂, semaphores₁])⟩⟩

end

/-! ## What a caller can tell -/

/-- Who takes a unit is told by the reply. -/
def Occurrence.deed (i : SemaphoreId) (o : Occurrence) : Deed :=
  match o.event with
  | .request (.newSemaphore value) =>
    if o.before.semaphores.length = i.index then .create value else .other
  | .request (.up n) => if n = i.index then .give else .other
  | .request (.down n) =>
    if n = i.index then
      match (perform (.down n) o.before).result with
      | .ok (.acquired .immediate) => .take
      | .ok (.acquired .blocked) => .await
      | _ => .other
    else .other
  | .request (.tryDown n) =>
    if n = i.index then
      match (perform (.tryDown n) o.before).result with
      | .ok (.flag true) => .take
      | _ => .other
    else .other
  | _ => .other

/-- What has been done with a semaphore so far. -/
structure Ledger where
  /-- The units the semaphore was created with. -/
  initial : Nat := 0
  /-- How often a unit was given back. -/
  ups : Nat := 0
  /-- How many attempts to take a unit have had one. -/
  taken : Nat := 0
  /-- The threads that were blocked when they went down and that no unit given back since has made
  ready. -/
  waiting : List Tid := []

def Ledger.enter (i : SemaphoreId) (o : Occurrence) (b : Ledger) : Ledger :=
  match o.deed i with
  | .create value => { b with initial := value }
  | .give =>
    { b with
      ups := b.ups + 1
      taken := b.taken + b.waiting.countP fun t => ¬o.after.Blocked t
      waiting := b.waiting.filter fun t => o.after.Blocked t }
  | .take => { b with taken := b.taken + 1 }
  | .await => { b with waiting := b.waiting ++ [o.before.current] }
  | .other => b

def ledger (i : SemaphoreId) (past : List Occurrence) : Ledger := past.foldr (Ledger.enter i) {}

section

variable {R : Prop} {P : Set Tid} {s s' : Scheduler} {i k : SemaphoreId}

theorem newSemaphore_deed {value : Nat} : (perform (.newSemaphore value)).Ends s
    (fun _ s' => (Occurrence.deed i ⟨s, .request (.newSemaphore value)⟩).Done i s s')
    fun _ _ => True := by
  rw [perform, ends_bind, newSemaphore, ends_modifyGet, ends_pure]
  unfold Occurrence.deed
  dsimp only
  split
  · rename_i own
    exact ⟨own, rfl⟩
  · rename_i different
    refine ⟨by simp, ?_⟩
    unfold semaphoreState
    dsimp only
    rcases Nat.lt_or_gt_of_ne different with before | behind
    · rw [List.getElem?_eq_none (by simp; omega), List.getElem?_eq_none (by omega)]
    · rw [List.getElem?_append_left behind]

theorem down_deed {n : Nat} : (perform (.down n)).Ends s
    (fun _ s' => (Occurrence.deed i ⟨s, .request (.down n)⟩).Done i s s') fun _ _ => True := by
  have does : (perform (.down n)).Ends s (fun reply s' => ∃ a, reply = .acquired a ∧
      (a = .immediate ∧ Deed.take.Done ⟨n⟩ s s' ∨ a = .blocked ∧ Deed.await.Done ⟨n⟩ s s'))
      fun _ _ => True := by
    rw [perform]
    refine ends_semaphoreNumbered (F := fun _ => True) (fun _ _ => trivial) fun within => ?_
    rw [ends_bind]
    exact (down_does within).imp fun a s' done => ⟨a, rfl, done⟩
  refine (Ends.self.and does).mono (fun reply s' both => ?_) fun _ _ _ => trivial
  obtain ⟨⟨result, -⟩, a, rfl, done⟩ := both
  unfold Occurrence.deed
  dsimp only
  split
  · rename_i own
    subst own
    rw [result]
    rcases done with ⟨rfl, took⟩ | ⟨rfl, waits⟩
    · exact took
    · exact waits
  · rename_i different
    have different : (⟨n⟩ : SemaphoreId) ≠ i := fun own => different (congrArg SemaphoreId.index own)
    rcases done with ⟨-, took⟩ | ⟨-, waits⟩
    · exact took.elsewhere (by simp) (by simp) different
    · exact waits.elsewhere (by simp) (by simp) different

theorem tryDown_deed {n : Nat} : (perform (.tryDown n)).Ends s
    (fun _ s' => (Occurrence.deed i ⟨s, .request (.tryDown n)⟩).Done i s s') fun _ _ => True := by
  have does : (perform (.tryDown n)).Ends s (fun reply s' => ∃ b, reply = .flag b ∧
      (b = true ∧ Deed.take.Done ⟨n⟩ s s' ∨ b = false ∧ s'.semaphores = s.semaphores))
      fun _ _ => True := by
    rw [perform]
    refine ends_semaphoreNumbered (F := fun _ => True) (fun _ _ => trivial) fun within => ?_
    rw [ends_bind]
    exact (tryDown_does within).imp fun b s' done => ⟨b, rfl, done⟩
  refine (Ends.self.and does).mono (fun reply s' both => ?_) fun _ _ _ => trivial
  obtain ⟨⟨result, -⟩, b, rfl, done⟩ := both
  unfold Occurrence.deed
  dsimp only
  split
  · rename_i own
    subst own
    rw [result]
    rcases done with ⟨rfl, took⟩ | ⟨rfl, same⟩
    · exact took
    · exact .of_same same
  · rename_i different
    have different : (⟨n⟩ : SemaphoreId) ≠ i := fun own => different (congrArg SemaphoreId.index own)
    rcases done with ⟨-, took⟩ | ⟨-, same⟩
    · exact took.elsewhere (by simp) (by simp) different
    · exact .of_same same

theorem up_deed {n : Nat} (h : Orderly R P s.layout) : (perform (.up n)).Ends s
    (fun _ s' => (Occurrence.deed i ⟨s, .request (.up n)⟩).Done i s s') fun _ _ => True := by
  rw [perform]
  refine ends_semaphoreNumbered (F := fun _ => True) (fun _ _ => trivial) fun within => ?_
  refine ends_bind.mpr ((up_does h within).imp fun _ s' done => ?_)
  rw [ends_pure]
  unfold Occurrence.deed
  dsimp only
  split
  · rename_i own
    subst own
    exact done
  · rename_i different
    exact done.elsewhere (by simp) (by simp) fun own => different (congrArg SemaphoreId.index own)

/-- What happens to a semaphore is what the callers can tell. -/
theorem Event.happen_deed {e : Event} (h : Orderly R P s.layout) (possible : e.Possible s) :
    e.happen.Ends s (fun _ s' => (Occurrence.deed i ⟨s, e⟩).Done i s s') fun _ _ => True := by
  have kept (aside : ∀ p, e.Touches p → p ≠ .semaphores) (other : Occurrence.deed i ⟨s, e⟩ = .other) :
      e.happen.Ends s (fun _ s' => (Occurrence.deed i ⟨s, e⟩).Done i s s') fun _ _ => True := by
    have ignored : ∀ p, e.Touches p → Ignores semaphores p :=
      fun p touches => ⟨semaphores_alone (aside p touches)⟩
    apply ends_of_preserves (Event.happen_preserves possible ignored)
    intro _ s' same
    rw [other]
    exact .of_same same
  cases e with
  | request r =>
    cases r with
    | newSemaphore value => exact ends_bind.mpr (newSemaphore_deed.imp fun _ _ done => done)
    | down n => exact ends_bind.mpr (down_deed.imp fun _ _ done => done)
    | tryDown n => exact ends_bind.mpr (tryDown_deed.imp fun _ _ done => done)
    | up n => exact ends_bind.mpr ((up_deed h).imp fun _ _ done => done)
    | _ => exact kept (by simp [Event.Touches]) rfl
  | _ => exact kept (by simp [Event.Touches]) rfl

/-! ## The balance -/

/-- The books and the semaphore agree. -/
structure Balanced (i : SemaphoreId) (b : Ledger) (s : Scheduler) : Prop where
  units : b.initial + b.ups = (s.semaphoreState i).value + b.taken
  waiting : b.waiting = (s.semaphoreState i).waiters.tids
  spare : 0 < (s.semaphoreState i).value → (s.semaphoreState i).waiters.tids = []
  absent : s.semaphores.length ≤ i.index → b = {}

theorem semaphoreState_of_absent (absent : s.semaphores.length ≤ i.index) :
    s.semaphoreState i = ⟨0, .empty⟩ := by
  unfold semaphoreState
  rw [List.getElem?_eq_none absent]
  rfl

/-- A waiter is blocked until it is given a unit. -/
theorem waiters_after_give {w : Tid} (h : Orderly R P s.layout)
    (mem : w ∈ (s.semaphoreState i).waiters.tids) (wakes : Wakes w s s') :
    (s.semaphoreState i).waiters.tids.filter (fun t => s'.Blocked t) =
        (s.semaphoreState i).waiters.tids.erase w ∧
      (s.semaphoreState i).waiters.tids.countP (fun t => ¬s'.Blocked t) = 1 := by
  have nodup : (s.semaphoreState i).waiters.tids.Nodup := h.nodup (.semaphore i)
  have still : ∀ t ∈ (s.semaphoreState i).waiters.tids, s'.Blocked t ↔ t ≠ w := by
    intro t waits
    have blocked : s.Blocked t :=
      blocked_of_mem_queue h (m := .semaphore i) (by simp) (by simp) waits
    rw [ne_eq, ← wakes t, not_and, not_not]
    exact ⟨fun still _ => still, fun still => still blocked⟩
  constructor
  · rw [nodup.erase_eq_filter]
    apply List.filter_congr
    intro t waits
    simp [still t waits, bne, beq_eq_decide]
  · rw [← List.count_eq_one_of_mem nodup mem, List.count]
    apply List.countP_congr
    intro t waits
    simp [still t waits]

theorem semaphoreState_of_modify {f : SemaphoreState → SemaphoreState}
    (within : i.index < s.semaphores.length)
    (same : s'.semaphores = s.semaphores.modify i.index f) :
    s'.semaphoreState i = f (s.semaphoreState i) := by
  have state := semaphoreState_modify f within i
  rw [if_pos rfl] at state
  rw [← state]
  exact congrFun (semaphoreState_congr same) i

theorem absent_of_modify {f : SemaphoreState → SemaphoreState} {b : Ledger}
    (within : i.index < s.semaphores.length)
    (same : s'.semaphores = s.semaphores.modify i.index f) (absent : s'.semaphores.length ≤ i.index) :
    b = {} := by
  rw [same, List.length_modify] at absent
  omega

namespace Balanced

variable {b : Ledger} (balanced : Balanced i b s)

include balanced

theorem create {value : Nat} (done : (Deed.create value).Done i s s') :
    Balanced i { b with initial := value } s' := by
  obtain ⟨units, waiting, -, absent⟩ := balanced
  obtain ⟨last, same⟩ := done
  have fresh := semaphoreState_of_absent (Nat.le_of_eq last)
  have state : s'.semaphoreState i = ⟨value, .empty⟩ := by
    unfold semaphoreState
    simp [same, ← last]
  rw [fresh] at units waiting
  obtain rfl := absent (Nat.le_of_eq last)
  constructor <;> simp only [state]
  case waiting => exact waiting
  case spare => exact fun _ => rfl
  case absent =>
    intro beyond
    simp [same] at beyond
    omega

/-- The unit is kept, or the foremost waiter has it. -/
theorem give (h : Orderly R P s.layout) (done : Deed.give.Done i s s') :
    Balanced i { b with
      ups := b.ups + 1
      taken := b.taken + b.waiting.countP fun t => ¬s'.Blocked t
      waiting := b.waiting.filter fun t => s'.Blocked t } s' := by
  obtain ⟨units, waiting, spare, -⟩ := balanced
  obtain ⟨within, ⟨empty, same⟩ | ⟨w, foremost, wakes, same⟩⟩ := done
  · have state := semaphoreState_of_modify within same
    rw [empty] at waiting
    constructor <;> simp only [state, waiting]
    case units =>
      dsimp only [List.countP_nil]
      omega
    case waiting => exact empty.symm
    case spare => exact fun _ => empty
    case absent => exact absent_of_modify within same
  · have state := semaphoreState_of_modify within same
    obtain ⟨rest, one⟩ := waiters_after_give h foremost.mem wakes
    have drained : (s.semaphoreState i).value = 0 := by
      by_contra some
      have empty := spare (Nat.pos_of_ne_zero some)
      have mem := foremost.mem
      simp [empty] at mem
    constructor <;> simp only [state, waiting]
    case units =>
      rw [one]
      omega
    case waiting => exact rest
    case spare => exact fun some => absurd some (by omega)
    case absent => exact absent_of_modify within same

theorem take (done : Deed.take.Done i s s') : Balanced i { b with taken := b.taken + 1 } s' := by
  obtain ⟨units, waiting, spare, -⟩ := balanced
  obtain ⟨within, some, same⟩ := done
  have state := semaphoreState_of_modify within same
  constructor
  case units =>
    simp only [state]
    omega
  case waiting => rw [state, waiting]
  case spare =>
    rw [state]
    exact fun _ => spare some
  case absent => exact absent_of_modify within same

theorem await (done : Deed.await.Done i s s') :
    Balanced i { b with waiting := b.waiting ++ [s.current] } s' := by
  obtain ⟨units, waiting, -, -⟩ := balanced
  obtain ⟨within, none, same⟩ := done
  have state := semaphoreState_of_modify within same
  constructor
  case units => rw [state, units]
  case waiting => rw [state, waiting]
  case spare =>
    rw [state]
    exact fun some => absurd some (Nat.not_lt.mpr (Nat.le_of_eq none))
  case absent => exact absent_of_modify within same

theorem other (done : Deed.other.Done i s s') : Balanced i b s' := by
  obtain ⟨units, waiting, spare, absent⟩ := balanced
  obtain ⟨le, state⟩ := done
  constructor
  case units => rw [state, units]
  case waiting => rw [state, waiting]
  case spare =>
    rw [state]
    exact spare
  case absent => exact fun beyond => absent (Nat.le_trans le beyond)

end Balanced

/-- The books are right if what has been done is entered into them. -/
theorem Balanced.step {o : Occurrence} {b : Ledger} (h : Orderly R P o.before.layout)
    (balanced : Balanced i b o.before) (done : (o.deed i).Done i o.before o.after) :
    Balanced i (b.enter i o) o.after := by
  unfold Ledger.enter
  cases deed : o.deed i with
  | create value => exact balanced.create (deed ▸ done)
  | give => exact balanced.give h (deed ▸ done)
  | take => exact balanced.take (deed ▸ done)
  | await => exact balanced.await (deed ▸ done)
  | other => exact balanced.other (deed ▸ done)

end

namespace History

variable {feedback : Bool} {capacity : Nat} {allows : Scheduler → Event → Scheduler → Prop}
  {past : List Occurrence} {s : Scheduler}

theorem balanced (busy : IdleNeverWaits allows) (history : History feedback capacity allows past s)
    (i : SemaphoreId) : Balanced i (ledger i past) s := by
  induction history with
  | start => exact ⟨rfl, rfl, fun _ => rfl, fun _ => rfl⟩
  | next history possible succeeds _ ih =>
    obtain ⟨P, run⟩ := history.run
    have orderly := (run.sound (R := False) busy (by simp)).orderly
    exact ih.step orderly ((Event.happen_deed orderly possible).of_ok succeeds)

/-- Going up when somebody waits wakes the foremost waiter. It stops only if the idle thread, made
ready by name, is found in the ready queue. -/
theorem up_wakes (busy : IdleNeverWaits allows) (history : History feedback capacity allows past s)
    {i : SemaphoreId} (waited : (s.semaphoreState i).waiters.tids ≠ []) :
    (perform (.up i.index)).Ends s (fun _ s' =>
      ∃ w, (s.semaphoreState i).waiters.Foremost s.priorityOf w ∧ Wakes w s s' ∧
        s'.semaphoreState i = ⟨0, ⟨(s.semaphoreState i).waiters.tids.erase w⟩⟩)
      fun v _ => v = .idleReady := by
  obtain ⟨P, run⟩ := history.run
  have orderly := (run.sound (R := False) busy (by simp)).orderly
  have drained : (s.semaphoreState i).value = 0 :=
    Nat.eq_zero_of_not_pos fun some => waited ((history.balanced busy i).spare some)
  obtain ⟨t, mem⟩ := List.exists_mem_of_ne_nil _ waited
  have within : i.index < s.semaphores.length := exists_semaphore_of_waiter (s := s) mem
  have found : (semaphoreNumbered i.index).Ends s (fun k s' => k = i ∧ s' = s)
      fun v _ => v = .idleReady := by
    unfold semaphoreNumbered
    rw [ends_bind, ends_get, ends_bind, ends_ensure]
    exact ⟨fun _ => ⟨rfl, rfl⟩, fun beyond => absurd within beyond⟩
  have does := (up_does orderly within).and
    (up_ends (F := (· = .idleReady)) (fun _ => rfl) orderly (by simp [drained, maxSemaphoreValue]) within)
  rw [perform, ends_bind]
  refine found.imp fun k s₁ same => ?_
  obtain ⟨rfl, rfl⟩ := same
  apply ends_bind.mpr
  refine does.mono (fun _ s' both => ?_) fun v _ stop => stop.2
  obtain ⟨-, ⟨empty, -⟩ | ⟨w, foremost, wakes, same⟩⟩ := both.1
  · exact absurd empty waited
  · rw [ends_pure]
    refine ⟨w, foremost, wakes, ?_⟩
    rw [semaphoreState_of_modify within same, drained]

/-- In every state of a run the initial value of a semaphore and the calls to go up make up its
value and the completed attempts to take a unit; those wait who were blocked when they went down
and have not been made ready since; nobody waits while there is a unit; and going up when somebody
waits wakes the foremost waiter and no other thread. -/
theorem units_kept (busy : IdleNeverWaits allows) (history : History feedback capacity allows past s)
    (i : SemaphoreId) :
    (ledger i past).initial + (ledger i past).ups =
        (s.semaphoreState i).value + (ledger i past).taken ∧
      (ledger i past).waiting = (s.semaphoreState i).waiters.tids ∧
      (0 < (s.semaphoreState i).value → (s.semaphoreState i).waiters.tids = []) ∧
      ((s.semaphoreState i).waiters.tids ≠ [] → (perform (.up i.index)).Ends s (fun _ s' =>
        ∃ w, (s.semaphoreState i).waiters.Foremost s.priorityOf w ∧ Wakes w s s' ∧
          s'.semaphoreState i = ⟨0, ⟨(s.semaphoreState i).waiters.tids.erase w⟩⟩)
        fun v _ => v = .idleReady) := by
  have balanced := history.balanced busy i
  exact ⟨balanced.units, balanced.waiting, balanced.spare, fun waited => history.up_wakes busy waited⟩

/-- The first thread takes the only unit; a more urgent thread that it spawns then waits for one. -/
private def stocked : Scheduler := ((Event.request (.newSemaphore 1)).happen (Scheduler.start false 4)).state

private def drawn : Scheduler := ((Event.request (.down 0)).happen stocked).state

private def rivalled : Scheduler := ((Event.request (.spawn "urgent" 40 none 0)).happen drawn).state

private def waitedFor : Scheduler := ((Event.request (.down 0)).happen rivalled).state

private def drafts : List Occurrence :=
  [⟨rivalled, .request (.down 0)⟩, ⟨drawn, .request (.spawn "urgent" 40 none 0)⟩,
    ⟨stocked, .request (.down 0)⟩, ⟨Scheduler.start false 4, .request (.newSemaphore 1)⟩]

/-- The urgent thread waits for the unit that the first one has, and it alone is woken when the
first one gives the unit back. -/
theorem units_kept_waitedFor :
    (ledger ⟨0⟩ drafts).initial + (ledger ⟨0⟩ drafts).ups =
        (waitedFor.semaphoreState ⟨0⟩).value + (ledger ⟨0⟩ drafts).taken ∧
      (ledger ⟨0⟩ drafts).initial = 1 ∧ (waitedFor.semaphoreState ⟨0⟩).waiters.tids = [3] ∧
      Wakes 3 waitedFor (perform (.up 0) waitedFor).state := by
  have history : History false 4 Careful drafts waitedFor := by
    have history₁ : History false 4 Careful _ stocked :=
      History.start.next (e := .request (.newSemaphore 1)) trivial rfl ⟨fun _ => by decide, fun _ => id⟩
    have history₂ : History false 4 Careful _ drawn :=
      history₁.next (e := .request (.down 0)) trivial rfl ⟨fun _ => by decide, fun _ => id⟩
    have history₃ : History false 4 Careful _ rivalled :=
      history₂.next (e := .request (.spawn "urgent" 40 none 0)) (fun _ => by decide) rfl
        ⟨fun _ => by decide, fun _ => id⟩
    exact history₃.next (e := .request (.down 0)) trivial rfl ⟨fun _ => by decide, fun _ => id⟩
  obtain ⟨units, -, -, wakes⟩ := units_kept careful_idleNeverWaits history ⟨0⟩
  have waited : (waitedFor.semaphoreState ⟨0⟩).waiters.tids = [3] := rfl
  have succeeds : (perform (.up 0) waitedFor).result = .ok .done := rfl
  obtain ⟨w, foremost, wakes, -⟩ := (wakes (by simp [waited])).of_ok succeeds
  have mem := foremost.mem
  rw [waited, List.mem_singleton] at mem
  exact ⟨units, rfl, waited, mem ▸ wakes⟩

end History

end KernelCore.Scheduler
