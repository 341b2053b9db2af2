import KernelCore.Proofs.Scheduler.ThreadNumbers
import KernelCore.Proofs.Scheduler.Ticking

/-!
# Spawning and exiting

A new thread is parked until it is made ready, and its priority is its own. A thread that exits
has handed over all its locks before it is named nowhere any more.
-/
namespace KernelCore

open Transition

section

variable {R : Prop} {P : Set Tid} {L : Layout} {t : Tid} {p q : Place}

/-- A thread that does not exist has a free number and is linked to nobody. -/
theorem Arranged.place_next (h : Arranged R P L) : L.place L.next = none := by
  cases known : L.place L.next with
  | none => rfl
  | some p => exact absurd (h.numbered _ p known) (Int.lt_irrefl _)

theorem Arranged.alone_of_none (h : Arranged R P L) (absent : L.place t = none) : L.Alone t := by
  intro u
  constructor
  · rintro ⟨l, -, holds⟩
    obtain ⟨p, known, -⟩ := (h.holds l t).mp holds
    simp [absent] at known
  · rintro ⟨l, waits, -⟩
    simp [Layout.waitingFor, absent] at waits

/-- A thread comes whose priority is its own. -/
theorem Layout.Calm.bear (h : Arranged R P L) (fresh : L.place t = none) {r : Rank}
    (waiting : q.waitingLock = none) (own : r.effective = r.base) :
    L.Calm ((L.setPlace t (some q)).setRank t (some r)) where
  feedback := rfl
  inHandler := rfl
  waits u x := by
    have unlocked : L.waitingFor t = none := by simp [waitingFor, fresh]
    exact waitsFor_congr (by simp [waiting, ← unlocked]) rfl
  ranks _ x := by
    by_cases hx : x = t
    · subst hx
      refine .inr ⟨h.alone_of_none fresh, fun r' known => ?_⟩
      simp only [setRank_rank, Function.update_self, Option.some.injEq] at known
      exact known ▸ own
    · exact .inl (by simp [hx])

/-- A thread without locks that is in no queue can exit. -/
theorem Arranged.exit (h : Arranged R P L) (known : L.place t = some p)
    (running : p.state = .running) (free : p.membership = .none) (bare : p.heldLocks = [])
    (busy : t ≠ L.idle) : Arranged R P (L.setPlace t (some { p with state := .dying })) := by
  have proper := h.proper t p known
  apply h.restate known
  case proper => exact ⟨by simp, by simp [free], fun _ => ⟨free, bare⟩, proper.waiting, proper.nodup⟩
  case still => rfl
  case same => rfl
  case doomed => exact fun _ => rfl
  case idle => exact fun idle => absurd idle busy
  case parked =>
    intro x
    have unparked : t ∉ P := h.not_mem_parked known (by simp [running])
    by_cases hx : x = t <;> simp [hx, unparked]

end

namespace Scheduler

variable {R : Prop} {P : Set Tid} {L : Layout} {s : Scheduler} {t : Tid} {p : Place}
  {F : Violation → Prop}

/-! ## Spawning -/

/-- A recomputed priority is the thread's own. -/
theorem rank_reprioritized {th th' : Thread} (h : th.reprioritized = .ok th') :
    th'.rank.effective = th'.rank.base := by
  unfold Thread.reprioritized at h
  cases value : feedbackPriority th.recentCpu th.nice with
  | error x => simp [value, bind, Except.bind] at h
  | ok p =>
    simp only [value, bind, Except.bind, pure, Except.pure, Except.ok.injEq] at h
    exact h ▸ rfl

theorem prepare_ends (h : Orderly R P s.layout) (name : String) (priority : Int) (argument : Nat)
    (space : Option SpaceId) :
    (prepare t name priority argument space).Ends s (fun th s' => s' = s ∧
      th.place = ⟨.blocked, .none, [], none⟩ ∧ th.rank.effective = th.rank.base)
      fun v _ => F v := by
  unfold prepare
  obtain ⟨p, known, -⟩ := h.current
  obtain ⟨creator, found, -⟩ := exists_thread (t := s.current) known
  rw [ends_bind, ends_get, ends_bind, ends_thread found]
  dsimp only
  rw [ends_ite]
  refine ⟨fun _ => ?_, fun _ => ⟨rfl, rfl, rfl⟩⟩
  refine ends_arithmetic_of_gives (Thread.reprioritized_gives _) fun th value _ => ?_
  exact ⟨rfl, place_reprioritized value, rank_reprioritized value⟩

/-- The next free thread number, which a thread is spawned under. -/
theorem spawned_ends (h : Orderly R P L) {s₁ s₂ : Scheduler}
    (reserved : s₁.layout = L.setNext (L.next + 1)) {th : Thread}
    (place : th.place = ⟨.blocked, .none, [], none⟩) (own : th.rank.effective = th.rank.base)
    (inserted : s₂.layout =
      (s₁.layout.setPlace L.next (some th.place)).setRank L.next (some th.rank)) :
    (unblock L.next).Ends s₂ (fun _ s' => Settled R P L s') fun v _ => F v := by
  have fresh : L.place L.next = none := h.place_next
  have fresh₁ : s₁.layout.place L.next = none := reserved ▸ fresh
  have arranged₁ : Arranged R P s₁.layout := reserved ▸ h.toArranged.number (Int.le_of_lt (Int.lt_succ _))
  have doomed : L.next ∉ s₁.layout.dying := by
    intro mem
    have mem : L.next ∈ L.dying := by simpa [reserved] using mem
    exact absurd (h.doomed _ mem).2.1 (Int.lt_irrefl _)
  have unparked : L.next ∉ P := by
    rw [h.parked]
    simp [fresh]
  have arranged₂ : Arranged R (insert L.next P) s₂.layout := by
    rw [inserted]
    apply Arranged.setRank
    apply arranged₁.bear fresh₁ (by rw [reserved]; exact Int.lt_succ _) doomed
    case proper => exact ⟨by simp [place], by simp [place], by simp [place], by simp [place],
      by simp [place]⟩
    all_goals simp [place]
  have calm : L.Calm s₂.layout := by
    have numbered : L.Calm s₁.layout := reserved ▸ .of_same rfl rfl rfl rfl rfl
    rw [inserted]
    exact numbered.trans (.bear arranged₁ fresh₁ (by simp [place]) own)
  obtain ⟨p, known, running, free⟩ := h.current
  have other : L.current ≠ L.next := by
    intro same
    simp [same, fresh] at known
  apply ends_unblock_parked arranged₂ unparked
  intro q s₃ knownq h₃ arranged₃
  refine ⟨{ arranged₃ with current := ⟨p, ?_, running, free⟩ }, h₃ ▸ calm.trans (.wake knownq)⟩
  rw [h₃, inserted, reserved]
  simpa [Layout.wake, other] using known

variable (awake : ¬R → F .idleReady)

include awake in
theorem spawn_ends (h : Orderly R P s.layout) (left : s.NumbersLeft) (name : String)
    (priority : Int) (argument : Nat) (space : Option SpaceId) :
    (spawn name priority argument space).Ends s (fun _ s' => Carried R P s.layout s')
      fun v _ => F v := by
  unfold spawn
  rw [ends_bind]
  refine (reserve_ends name).imp fun reserved s₁ outcome => ?_
  cases outcome with
  | full => exact .refl h
  | usedUp room none => exact absurd (left room) none
  | given =>
    have h₁ : ({ s with allocator := ⟨s.allocator.next + 1⟩ } : Scheduler).layout =
        s.layout.setNext (s.layout.next + 1) := rfl
    have orderly₁ : Orderly R P (s.layout.setNext (s.layout.next + 1)) :=
      { h.toArranged.number (Int.le_of_lt (Int.lt_succ _)) with current := h.current }
    dsimp only
    rw [ends_bind]
    refine (prepare_ends orderly₁ name priority argument space).imp ?_
    rintro th s₂ ⟨rfl, place, own⟩
    rw [ends_bind, ends_emit, ends_bind, ends_modify, ends_bind]
    refine (spawned_ends h h₁ place own layout_insert).imp ?_
    rintro - s₃ settled
    simp only [ends_bind, ends_pure]
    refine (preemptCheck_ends awake settled.orderly).imp ?_
    exact fun _ s₄ attended => (settled.kept.attended attended).carried

/-! ## Exiting -/

include awake in
theorem exit_ends (h : Orderly R P s.layout) (status : Int)
    (inside : s.layout.inHandler = true → F .exitedInHandler)
    (idle : s.layout.current = s.layout.idle → F .idleExited) :
    (exit status).Ends s (fun _ s' => Carried R P s.layout s') fun v _ => F v := by
  unfold exit
  rw [ends_bind, ends_get, ends_bind, ends_ensure]
  refine ⟨fun outside => ?_, fun handler => inside ((Bool.not_eq_false _).mp handler)⟩
  rw [ends_bind, ends_ensure]
  refine ⟨fun busy => ?_, fun same => idle (not_not.mp same)⟩
  have busy : s.layout.current ≠ s.layout.idle := busy
  rw [ends_bind]
  apply ends_disableInterrupts
  intro s₁ h₁
  have begun : Rested R P s.layout s₁ := .off h h₁
  have current : s.current = s₁.layout.current := h₁ ▸ rfl
  obtain ⟨p, known₁, running, free⟩ := begun.orderly.current
  rw [ends_bind, current]
  refine (handOverAll_ends begun.orderly known₁).imp ?_
  rintro - s₂ ⟨orderly₂, keeps₂, steady₂, known₂⟩
  have current₂ : s₂.layout.current = s₁.layout.current := steady₂.current
  obtain ⟨th, found, place⟩ := exists_thread known₂
  rw [ends_bind]
  apply ends_updateThread_place found rfl
  intro s₃ h₃
  have known₂ : s₂.layout.place s₁.layout.current = some th.place := place ▸ known₂
  have exited : s₃.layout =
      s₂.layout.setPlace s₁.layout.current (some { th.place with state := .dying }) := h₃
  have arranged₃ : Arranged R P s₃.layout := by
    rw [exited]
    apply orderly₂.toArranged.exit known₂
    case running => simp [place, running]
    case free => simp [place, free]
    case bare => simp [place]
    case busy =>
      rw [steady₂.idle, h₁]
      exact busy
  have calm₃ : s₂.layout.Calm s₃.layout := exited ▸ .setPlace known₂ rfl
  have known₃ : s₃.layout.place s₃.layout.current = some { th.place with state := .dying } := by
    simp [exited, current₂]
  have gone : ∃ th, s₃.thread? s₁.layout.current = some th := by
    rw [show s₃.layout.current = s₁.layout.current by simp [exited, current₂]] at known₃
    obtain ⟨th, found, -⟩ := exists_thread known₃
    exact ⟨th, found⟩
  obtain ⟨th₃, found₃⟩ := gone
  rw [ends_bind, ends_thread found₃, ends_bind, ends_emit, ends_bind]
  apply ends_modify_other rfl
  intro s₄ h₄
  rw [ends_bind]
  refine (schedule_ends awake (h₄ ▸ arranged₃) ?_ (h₄ ▸ known₃) (by simp)).imp ?_
  · simp [h₄, exited, steady₂.interrupts, h₁]
  rintro - s₅ ⟨⟨orderly₅, calm₅⟩, top₅⟩
  apply ends_restoreInterrupts
  intro s₆ h₆
  rw [h₄] at calm₅
  refine ⟨⟨h₆ ▸ orderly₅.restore _, ?_⟩, fun r _ _ => .inl ?_⟩
  · have calm : s₂.layout.Calm s₆.layout :=
      h₆ ▸ calm₃.trans (calm₅.trans (.restore _ s.layout.interrupts))
    exact begun.calm.keeps.trans (keeps₂.trans calm.keeps)
  · exact h₆ ▸ (Layout.Quiet.restore _ _).top (top₅ r)

end Scheduler

end KernelCore
