import Mathlib.Logic.Relation
import KernelCore.Proofs.Scheduler.Arrangement

/-!
# Who donates to whom

A thread that waits for a lock donates to the holder. An effective priority is backed if it does
not exceed the base priority of some thread that donates to it over any number of links, and it is
exact if it is the maximum of the base priority and of the effective priorities of the direct
donors. Exactness everywhere makes the bound sharp.
-/
namespace KernelCore

open Relation

namespace Layout

/-- The lock a thread waits for. -/
def waitingFor (L : Layout) (t : Tid) : Option LockId := (L.place t).bind Place.waitingLock

/-- One thread waits for a lock that another one holds. -/
def WaitsFor (L : Layout) (u t : Tid) : Prop := ∃ l, L.waitingFor u = some l ∧ L.holder l = some t

/-- A wait chain of a number of links. -/
inductive Chain (L : Layout) : Nat → Tid → Tid → Prop
  | nil (t : Tid) : Chain L 0 t t
  | cons {n : Nat} {u v t : Tid} : L.WaitsFor u v → Chain L n v t → Chain L (n + 1) u t

/-- No thread waits for itself through others, and no wait chain is longer than donation reaches. -/
structure WellChained (L : Layout) : Prop where
  acyclic : ∀ t, ¬TransGen L.WaitsFor t t
  short : ∀ n u t, L.Chain n u t → n ≤ donationDepth

/-- The highest of a base priority and of the effective priorities of all that wait for `t`. -/
structure IsDonated (L : Layout) (t : Tid) (r : Rank) : Prop where
  base_le : r.base ≤ r.effective
  waiter_le : ∀ u ru, L.WaitsFor u t → L.rank u = some ru → ru.effective ≤ r.effective
  attained : r.effective = r.base ∨
    ∃ u ru, L.WaitsFor u t ∧ L.rank u = some ru ∧ r.effective = ru.effective

def ExactAt (L : Layout) (t : Tid) : Prop := ∀ r, L.rank t = some r → L.IsDonated t r

/-- A priority is at least the base priority, some direct donor has as high a one if it is not the
base priority, and some thread that waits for this one, directly or through others, has the base
priority to account for it. -/
structure IsBacked (L : Layout) (t : Tid) (r : Rank) : Prop where
  base_le : r.base ≤ r.effective
  supported : r.effective = r.base ∨
    ∃ u ru, L.WaitsFor u t ∧ L.rank u = some ru ∧ r.effective ≤ ru.effective
  source : ∃ u ru, ReflTransGen L.WaitsFor u t ∧ L.rank u = some ru ∧ r.effective ≤ ru.base

/-- Bringing a backed priority up to date does not lower it. -/
theorem IsDonated.le_of_backed {L : Layout} {t : Tid} {r r' : Rank} (donated : L.IsDonated t r')
    (backed : L.IsBacked t r) (base : r'.base = r.base) : r.effective ≤ r'.effective := by
  have base_le := donated.base_le
  rcases backed.supported with own | ⟨v, rv, link, knownv, le⟩
  · omega
  · exact Int.le_trans le (donated.waiter_le v rv link knownv)

def BackedAt (L : Layout) (t : Tid) : Prop := ∀ r, L.rank t = some r → L.IsBacked t r

def Exact (L : Layout) : Prop := ∀ t, L.ExactAt t

def Backed (L : Layout) : Prop := ∀ t, L.BackedAt t

/-- A thread nobody waits for and that waits for nobody. -/
def Alone (L : Layout) (t : Tid) : Prop := ∀ u, ¬L.WaitsFor u t ∧ ¬L.WaitsFor t u

/-- Who waits for whom is as before, and so are the priorities of all but threads that stand alone
and have no other priority than their own. -/
structure Calm (L L' : Layout) : Prop where
  feedback : L'.feedback = L.feedback
  inHandler : L'.inHandler = L.inHandler
  waits : ∀ u t, L'.WaitsFor u t ↔ L.WaitsFor u t
  ranks : L.feedback = false → ∀ t, L'.rank t = L.rank t ∨
    L.Alone t ∧ ∀ r, L'.rank t = some r → r.effective = r.base

/-- Backed and exact priorities stay backed and exact. -/
structure Keeps (L L' : Layout) : Prop where
  feedback : L'.feedback = L.feedback
  inHandler : L'.inHandler = L.inHandler
  backed : L.feedback = false → L.Backed → L'.Backed
  exact : L.feedback = false → L.Exact → L'.Exact

/-- Backed priorities stay backed, and exact ones stay exact if no chain has become too long. -/
structure Upholds (L L' : Layout) : Prop where
  feedback : L'.feedback = L.feedback
  inHandler : L'.inHandler = L.inHandler
  backed : L.feedback = false → L.Backed → L'.Backed
  exact : L.feedback = false → L.Exact → L'.WellChained → L'.Exact

variable {L L' L₁ L₂ : Layout} {t u v : Tid} {r : Rank}

@[simp] theorem waitingFor_setPlace (t : Tid) (p : Option Place) :
    (L.setPlace t p).waitingFor = Function.update L.waitingFor t (p.bind Place.waitingLock) := by
  funext x
  by_cases hx : x = t
  · subst hx
    simp [waitingFor]
  · simp [waitingFor, hx]

@[simp] theorem waitingFor_setRank (t : Tid) (r : Option Rank) :
    (L.setRank t r).waitingFor = L.waitingFor := rfl

@[simp] theorem waitingFor_setQueue (m : Membership) (waiting : List Tid) :
    (L.setQueue m waiting).waitingFor = L.waitingFor := rfl

@[simp] theorem waitingFor_setHolder (l : LockId) (t : Option Tid) :
    (L.setHolder l t).waitingFor = L.waitingFor := rfl

@[simp] theorem waitingFor_setRelock (relock : CondvarId → Tid → Option LockId) :
    (L.setRelock relock).waitingFor = L.waitingFor := rfl

theorem waitingFor_of_place {p : Place} (known : L.place t = some p) :
    L.waitingFor t = p.waitingLock := by
  simp [waitingFor, known]

theorem waitsFor_congr (waiting : L'.waitingFor = L.waitingFor) (holder : L'.holder = L.holder) :
    L'.WaitsFor u t ↔ L.WaitsFor u t := by
  simp [WaitsFor, waiting, holder]

theorem Calm.of_same (feedback : L'.feedback = L.feedback) (inHandler : L'.inHandler = L.inHandler)
    (waiting : L'.waitingFor = L.waitingFor) (holder : L'.holder = L.holder)
    (rank : L'.rank = L.rank) : Calm L L' where
  feedback := feedback
  inHandler := inHandler
  waits _ _ := waitsFor_congr waiting holder
  ranks _ t := .inl (by rw [rank])

theorem Calm.refl (L : Layout) : Calm L L := .of_same rfl rfl rfl rfl rfl

theorem Calm.trans (h : Calm L L₁) (h' : Calm L₁ L₂) : Calm L L₂ where
  feedback := h'.feedback.trans h.feedback
  inHandler := h'.inHandler.trans h.inHandler
  waits u t := (h'.waits u t).trans (h.waits u t)
  ranks priorities t := by
    rcases h'.ranks (h.feedback.trans priorities) t with same' | ⟨alone, own⟩
    · rw [same']
      exact h.ranks priorities t
    · refine .inr ⟨fun u => ?_, own⟩
      rw [← h.waits, ← h.waits]
      exact alone u

/-- A thread may be moved as long as it waits for the same lock. -/
theorem Calm.setPlace {p q : Place} (known : L.place t = some p)
    (same : q.waitingLock = p.waitingLock) : Calm L (L.setPlace t (some q)) := by
  apply Calm.of_same <;> try rfl
  simp [same, ← waitingFor_of_place known]

/-- A chain into or out of a thread that stands alone has no links. -/
theorem Alone.eq (alone : L.Alone u) (h : ReflTransGen L.WaitsFor u t) : u = t := by
  rcases h.cases_head with same | ⟨v, first, -⟩
  · exact same
  · exact absurd first (alone v).2

theorem Calm.reflTransGen (h : Calm L L') :
    ReflTransGen L'.WaitsFor u t ↔ ReflTransGen L.WaitsFor u t := by
  have same : L'.WaitsFor = L.WaitsFor := by
    funext u t
    exact propext (h.waits u t)
  rw [same]

theorem Chain.mono {n : Nat} (h : L.Chain n u t) (waits : ∀ u t, L.WaitsFor u t → L'.WaitsFor u t) :
    L'.Chain n u t := by
  induction h with
  | nil t => exact .nil t
  | cons first _ ih => exact .cons (waits _ _ first) ih

theorem Calm.wellChained (h : Calm L L') (chained : L'.WellChained) : L.WellChained := by
  have same : L'.WaitsFor = L.WaitsFor := by
    funext u t
    exact propext (h.waits u t)
  constructor
  · rw [← same]
    exact chained.acyclic
  · intro n u t chain
    exact chained.short n u t (chain.mono fun u t => (h.waits u t).mpr)

/-- A single link makes no long chain. -/
theorem WellChained.of_link {a b : Tid} (other : a ≠ b)
    (only : ∀ u t, L.WaitsFor u t → u = a ∧ t = b) : L.WellChained := by
  have last : ∀ {u t n}, L.Chain (n + 1) u t → u = a ∧ n = 0 := by
    rintro u t n (_ | ⟨first, rest⟩)
    obtain ⟨rfl, rfl⟩ := only _ _ first
    cases rest with
    | nil => exact ⟨rfl, rfl⟩
    | cons second _ => exact absurd (only _ _ second).1.symm other
  constructor
  · intro t cycle
    obtain ⟨u, first, -⟩ := TransGen.head'_iff.mp cycle
    obtain ⟨v, -, final⟩ := TransGen.tail'_iff.mp cycle
    exact other ((only _ _ first).1.symm.trans (only _ _ final).2)
  · intro n u t chain
    cases n with
    | zero => exact Nat.zero_le _
    | succ n =>
      rw [(last chain).2]
      decide

/-- The rank of a thread that waits or is waited for stays. -/
theorem Calm.rank_eq (h : Calm L L') (priorities : L.feedback = false)
    (linked : L.WaitsFor u t) : L'.rank u = L.rank u := by
  rcases h.ranks priorities u with same | ⟨alone, -⟩
  · exact same
  · exact absurd linked (alone t).2

theorem Calm.backed (h : Calm L L') (priorities : L.feedback = false) (backed : L.Backed) :
    L'.Backed := by
  intro t r known
  rcases h.ranks priorities t with same | ⟨-, own⟩
  · obtain ⟨base_le, supported, u, ru, chain, knownu, le⟩ := backed t r (same ▸ known)
    refine ⟨base_le, supported.imp_right ?_, u, ru, h.reflTransGen.mpr chain, ?_, le⟩
    · rintro ⟨v, rv, waits, knownv, le⟩
      exact ⟨v, rv, (h.waits v t).mpr waits, (h.rank_eq priorities waits).trans knownv, le⟩
    · rcases h.ranks priorities u with sameu | ⟨alone, -⟩
      · rw [sameu, knownu]
      · obtain rfl := alone.eq chain
        rw [same, knownu]
  · have eq := own r known
    exact ⟨by omega, .inl eq, t, r, .refl, known, by omega⟩

theorem Calm.exact (h : Calm L L') (priorities : L.feedback = false) (exact : L.Exact) :
    L'.Exact := by
  intro t r known
  rcases h.ranks priorities t with same | ⟨alone, own⟩
  · obtain ⟨base_le, waiter_le, attained⟩ := exact t r (same ▸ known)
    refine ⟨base_le, ?_, ?_⟩
    · intro u ru waits knownu
      have waits := (h.waits u t).mp waits
      exact waiter_le u ru waits (h.rank_eq priorities waits ▸ knownu)
    · rcases attained with own | ⟨u, ru, waits, knownu, eq⟩
      · exact .inl own
      · exact .inr ⟨u, ru, (h.waits u t).mpr waits, (h.rank_eq priorities waits).trans knownu, eq⟩
  · have eq := own r known
    refine ⟨by omega, ?_, .inl eq⟩
    intro u ru waits
    exact absurd ((h.waits u t).mp waits) (alone u).1

theorem Calm.keeps (h : Calm L L') : Keeps L L' where
  feedback := h.feedback
  inHandler := h.inHandler
  backed := h.backed
  exact := h.exact

theorem Keeps.refl (L : Layout) : Keeps L L := (Calm.refl L).keeps

theorem Keeps.trans (h : Keeps L L₁) (h' : Keeps L₁ L₂) : Keeps L L₂ where
  feedback := h'.feedback.trans h.feedback
  inHandler := h'.inHandler.trans h.inHandler
  backed priorities backed := h'.backed (h.feedback.trans priorities) (h.backed priorities backed)
  exact priorities exact := h'.exact (h.feedback.trans priorities) (h.exact priorities exact)

theorem Keeps.upholds (h : Keeps L L') : Upholds L L' where
  feedback := h.feedback
  inHandler := h.inHandler
  backed := h.backed
  exact priorities exact _ := h.exact priorities exact

/-- What follows an operation that upholds the priorities may not hide a long chain. -/
theorem Upholds.calm (h : Upholds L L₁) (h' : Calm L₁ L₂) : Upholds L L₂ where
  feedback := h'.feedback.trans h.feedback
  inHandler := h'.inHandler.trans h.inHandler
  backed priorities backed := h'.backed (h.feedback.trans priorities) (h.backed priorities backed)
  exact priorities exact chained := h'.exact (h.feedback.trans priorities)
    (h.exact priorities exact (h'.wellChained chained))

theorem Keeps.upholds_trans (h : Keeps L L₁) (h' : Upholds L₁ L₂) : Upholds L L₂ where
  feedback := h'.feedback.trans h.feedback
  inHandler := h'.inHandler.trans h.inHandler
  backed priorities backed := h'.backed (h.feedback.trans priorities) (h.backed priorities backed)
  exact priorities exact := h'.exact (h.feedback.trans priorities) (h.exact priorities exact)

/-! ## Refreshing priorities one at a time -/

/-- All priorities but those of `A` are exact. -/
def ExactBut (L : Layout) (A : Set Tid) : Prop := ∀ t ∉ A, L.ExactAt t

/-- All priorities but those of `A` are backed. -/
def BackedBut (L : Layout) (A : Set Tid) : Prop := ∀ t ∉ A, L.BackedAt t

variable {A : Set Tid} {r' : Rank}

theorem WaitsFor.unique (h : L.WaitsFor u t) (h' : L.WaitsFor u v) : t = v := by
  obtain ⟨l, waits, holds⟩ := h
  obtain ⟨l', waits', holds'⟩ := h'
  obtain rfl := Option.some.inj (waits.symm.trans waits')
  exact Option.some.inj (holds.symm.trans holds')

theorem exactAt_congr (waits : ∀ u t, L'.WaitsFor u t ↔ L.WaitsFor u t) (rank : L'.rank = L.rank) :
    L'.ExactAt t ↔ L.ExactAt t := by
  constructor
  · intro h r known
    obtain ⟨base_le, waiter_le, attained⟩ := h r (rank ▸ known)
    simp only [waits, rank] at waiter_le attained
    exact ⟨base_le, waiter_le, attained⟩
  · intro h r known
    obtain ⟨base_le, waiter_le, attained⟩ := h r (rank ▸ known)
    refine ⟨base_le, ?_, ?_⟩ <;> simpa only [waits, rank]

theorem backedAt_congr (waits : ∀ u t, L'.WaitsFor u t ↔ L.WaitsFor u t) (rank : L'.rank = L.rank) :
    L'.BackedAt t ↔ L.BackedAt t := by
  have same : L'.WaitsFor = L.WaitsFor := by
    funext u t
    exact propext (waits u t)
  constructor <;> rintro h r known <;> obtain ⟨base_le, supported, source⟩ := h r (by simpa [rank] using known)
  · exact ⟨base_le, by simpa only [same, rank] using supported, by simpa only [same, rank] using source⟩
  · exact ⟨base_le, by simpa only [same, rank] using supported, by simpa only [same, rank] using source⟩

/-- Who waits for whom and which priorities there are is all that counts. -/
theorem Backed.of_same (backed : L.Backed) (waiting : L'.waitingFor = L.waitingFor)
    (holder : L'.holder = L.holder) (rank : L'.rank = L.rank) : L'.Backed :=
  fun t => (backedAt_congr (fun _ _ => waitsFor_congr waiting holder) rank).mpr (backed t)

theorem Exact.of_same (exact : L.Exact) (waiting : L'.waitingFor = L.waitingFor)
    (holder : L'.holder = L.holder) (rank : L'.rank = L.rank) : L'.Exact :=
  fun t => (exactAt_congr (fun _ _ => waitsFor_congr waiting holder) rank).mpr (exact t)

/-- A priority made exact leaves only the one it is donated to in question. -/
theorem ExactBut.refresh (h : L.ExactBut A) (donated : L.IsDonated t r') :
    (L.setRank t (some r')).ExactBut ((A \ {t}) ∪ {x | L.WaitsFor t x}) := by
  intro x hx r known
  simp only [Set.mem_union, Set.mem_sdiff, Set.mem_singleton_iff, Set.mem_ofPred_eq, not_or,
    not_and_or, not_not] at hx
  obtain ⟨hx, unlinked⟩ := hx
  have rank : ∀ u, L.WaitsFor u x → (L.setRank t (some r')).rank u = L.rank u := by
    intro u waits
    have ut : u ≠ t := by
      rintro rfl
      exact unlinked waits
    simp [ut]
  have donatedx : L.IsDonated x r := by
    by_cases xt : x = t
    · subst xt
      simp only [setRank_rank, Function.update_self, Option.some.injEq] at known
      exact known ▸ donated
    · rcases hx with hx | hx
      · exact h x hx r (by simpa [xt] using known)
      · exact absurd hx xt
  refine ⟨donatedx.base_le, ?_, ?_⟩
  · intro u ru waits knownu
    exact donatedx.waiter_le u ru waits ((rank u waits).symm.trans knownu)
  · refine donatedx.attained.imp_right ?_
    rintro ⟨u, ru, waits, knownu, eq⟩
    exact ⟨u, ru, waits, (rank u waits).trans knownu, eq⟩

/-- A priority is backed by what backs those it was computed from. One that may have been too high
must not be what supports another. -/
theorem BackedBut.refresh (h : L.BackedBut A) (donated : L.IsDonated t r')
    (known : L.rank t = some r) (base : r'.base = r.base)
    (donors : ∀ u, L.WaitsFor u t → u ∉ A) (unlinked : t ∈ A → ∀ x, ¬L.WaitsFor t x) :
    (L.setRank t (some r')).BackedBut (A \ {t}) := by
  have witness : ∀ u ru, L.rank u = some ru →
      ∃ ru', (L.setRank t (some r')).rank u = some ru' ∧ ru'.base = ru.base := by
    intro u ru knownu
    by_cases ut : u = t
    · subst ut
      obtain rfl := Option.some.inj (known.symm.trans knownu)
      exact ⟨r', by simp, base⟩
    · exact ⟨ru, by simpa [ut] using knownu, rfl⟩
  -- A refreshed priority that was backed has not become lower.
  have higher : ∀ u x ru, L.WaitsFor u x → L.rank u = some ru →
      ∃ ru', (L.setRank t (some r')).rank u = some ru' ∧ ru.effective ≤ ru'.effective := by
    intro u x ru waits knownu
    by_cases ut : u = t
    · subst ut
      obtain rfl := Option.some.inj (known.symm.trans knownu)
      have backed : u ∉ A := fun mem => unlinked mem x waits
      exact ⟨r', by simp, donated.le_of_backed (h u backed r known) base⟩
    · exact ⟨ru, by simpa [ut] using knownu, Int.le_refl _⟩
  intro x hx rx knownx
  by_cases xt : x = t
  · subst xt
    simp only [setRank_rank, Function.update_self, Option.some.injEq] at knownx
    subst knownx
    rcases donated.attained with own | ⟨u, ru, waits, knownu, eq⟩
    · exact ⟨donated.base_le, .inl own, x, r', .refl, by simp, by omega⟩
    · obtain ⟨-, -, v, rv, chain, knownv, le⟩ := h u (donors u waits) ru knownu
      obtain ⟨rv', knownv', base'⟩ := witness v rv knownv
      obtain ⟨ru', knownu', le'⟩ := higher u x ru waits knownu
      exact ⟨donated.base_le, .inr ⟨u, ru', waits, knownu', by omega⟩, v, rv', chain.tail waits,
        knownv', by omega⟩
  · have hx : x ∉ A := fun mem => hx ⟨mem, xt⟩
    obtain ⟨base_le, supported, u, ru, chain, knownu, le⟩ := h x hx rx (by simpa [xt] using knownx)
    obtain ⟨ru', knownu', base'⟩ := witness u ru knownu
    refine ⟨base_le, supported.imp_right ?_, u, ru', chain, knownu', by omega⟩
    rintro ⟨v, rv, waits, knownv, le⟩
    obtain ⟨rv', knownv', le'⟩ := higher v x rv waits knownv
    exact ⟨v, rv', waits, knownv', by omega⟩

/-! ## A thread that waits for nobody -/

section

variable (runs : ∀ x, ¬L.WaitsFor t x)

include runs

/-- Only its own priority depends on its rank. -/
theorem Backed.setRank (h : L.Backed) (r : Option Rank) : (L.setRank t r).BackedBut {t} := by
  intro x hx rx known
  have xt : x ≠ t := hx
  obtain ⟨base_le, supported, u, ru, chain, knownu, le⟩ := h x rx (by simpa [xt] using known)
  have other : ∀ v y, L.WaitsFor v y → v ≠ t := by
    rintro v y link rfl
    exact runs y link
  have ut : u ≠ t := by
    rcases chain.cases_head with same | ⟨v, link, -⟩
    · exact same ▸ xt
    · exact other u v link
  refine ⟨base_le, supported.imp_right ?_, u, ru, chain, by simpa [ut] using knownu, le⟩
  rintro ⟨v, rv, link, knownv, le⟩
  exact ⟨v, rv, link, by simpa [other v x link] using knownv, le⟩

theorem Exact.setRank (h : L.Exact) (r : Option Rank) : (L.setRank t r).ExactBut {t} := by
  intro x hx rx known
  have xt : x ≠ t := hx
  obtain ⟨base_le, waiter_le, attained⟩ := h x rx (by simpa [xt] using known)
  have other : ∀ u, L.WaitsFor u x → u ≠ t := by
    rintro u link rfl
    exact runs x link
  refine ⟨base_le, ?_, attained.imp_right ?_⟩
  · intro u ru link knownu
    exact waiter_le u ru link (by simpa [other u link] using knownu)
  · rintro ⟨u, ru, link, knownu, eq⟩
    exact ⟨u, ru, link, by simpa [other u link] using knownu, eq⟩

theorem Backed.of_refresh (h : L.BackedBut {t}) (donated : L.IsDonated t r')
    (known : L.rank t = some r) (base : r'.base = r.base) : (L.setRank t (some r')).Backed := by
  intro x
  apply h.refresh donated known base _ (fun _ => runs) x (by simp)
  rintro u link rfl
  exact runs u link

theorem Exact.of_refresh (h : L.ExactBut {t}) (donated : L.IsDonated t r') :
    (L.setRank t (some r')).Exact := by
  intro x
  apply h.refresh donated x
  simp [runs]

end

/-! ## A new link -/

/-- A thread that waited for nobody waits now. -/
structure Linked (t : Tid) (L L' : Layout) : Prop where
  rank : L'.rank = L.rank
  kept : ∀ u v, L.WaitsFor u v → L'.WaitsFor u v
  others : ∀ u v, u ≠ t → L'.WaitsFor u v → L.WaitsFor u v

theorem Linked.backed (h : Linked t L L') (backed : L.Backed) : L'.Backed := by
  intro x r known
  obtain ⟨base_le, supported, u, ru, chain, knownu, le⟩ := backed x r (h.rank ▸ known)
  refine ⟨base_le, supported.imp_right ?_, u, ru, ReflTransGen.mono h.kept _ _ chain,
    h.rank ▸ knownu, le⟩
  rintro ⟨v, rv, waits, knownv, le⟩
  exact ⟨v, rv, h.kept v x waits, h.rank ▸ knownv, le⟩

theorem Linked.exactBut (h : Linked t L L') (exact : L.Exact) :
    L'.ExactBut {x | L'.WaitsFor t x} := by
  intro x unlinked r known
  obtain ⟨base_le, waiter_le, attained⟩ := exact x r (h.rank ▸ known)
  refine ⟨base_le, ?_, attained.imp_right ?_⟩
  · intro u ru waits knownu
    have ut : u ≠ t := by
      rintro rfl
      exact unlinked waits
    exact waiter_le u ru (h.others u x ut waits) (h.rank ▸ knownu)
  · rintro ⟨u, ru, waits, knownu, eq⟩
    exact ⟨u, ru, h.kept u x waits, h.rank ▸ knownu, eq⟩

/-! ## Passing a lock on -/

/-- A lock goes from one thread to another, or to none, and who waits for another lock is as
before. -/
structure Handed (l : LockId) (t : Tid) (new : Option Tid) (L L' : Layout) : Prop where
  rank : L'.rank = L.rank
  waiting : ∀ u k, k ≠ l → (L'.waitingFor u = some k ↔ L.waitingFor u = some k)
  holder : ∀ k, k ≠ l → L'.holder k = L.holder k
  old : L.holder l = some t
  now : L'.holder l = new

section

variable {l : LockId} {new : Option Tid}

theorem Handed.kept (h : Handed l t new L L') (other : v ≠ t) (waits : L.WaitsFor u v) :
    L'.WaitsFor u v := by
  obtain ⟨k, waits, holds⟩ := waits
  have kl : k ≠ l := by
    rintro rfl
    exact other (Option.some.inj (holds.symm.trans h.old))
  exact ⟨k, (h.waiting u k kl).mpr waits, (h.holder k kl).trans holds⟩

theorem Handed.others (h : Handed l t new L L') (fresh : new ≠ some v) (waits : L'.WaitsFor u v) :
    L.WaitsFor u v := by
  obtain ⟨k, waits, holds⟩ := waits
  have kl : k ≠ l := by
    rintro rfl
    exact fresh (h.now.symm.trans holds)
  exact ⟨k, (h.waiting u k kl).mp waits, (h.holder k kl).symm.trans holds⟩

/-- The thread that gives a lock away waits for none, so only its own priority may have lost what
accounts for it. -/
theorem Handed.backedBut (h : Handed l t new L L') (runs : ∀ x, ¬L.WaitsFor t x)
    (backed : L.Backed) : L'.BackedBut {t} := by
  have chained : ∀ {u x}, ReflTransGen L.WaitsFor u x → x ≠ t → ReflTransGen L'.WaitsFor u x := by
    intro u x chain
    induction chain with
    | refl => exact fun _ => .refl
    | @tail y z _ last ih =>
      intro zt
      have yt : y ≠ t := by
        rintro rfl
        exact runs z last
      exact (ih yt).tail (h.kept zt last)
  intro x hx r known
  obtain ⟨base_le, supported, u, ru, chain, knownu, le⟩ := backed x r (h.rank ▸ known)
  refine ⟨base_le, supported.imp_right ?_, u, ru, chained chain hx, h.rank ▸ knownu, le⟩
  rintro ⟨v, rv, waits, knownv, le⟩
  exact ⟨v, rv, h.kept hx waits, h.rank ▸ knownv, le⟩

theorem Handed.exactBut (h : Handed l t new L L') (exact : L.Exact) :
    L'.ExactBut {x | x = t ∨ new = some x} := by
  intro x hx r known
  simp only [Set.mem_ofPred_eq, not_or] at hx
  obtain ⟨base_le, waiter_le, attained⟩ := exact x r (h.rank ▸ known)
  refine ⟨base_le, ?_, ?_⟩
  · intro u ru waits knownu
    exact waiter_le u ru (h.others hx.2 waits) (h.rank ▸ knownu)
  · refine attained.imp_right ?_
    rintro ⟨u, ru, waits, knownu, eq⟩
    exact ⟨u, ru, h.kept hx.1 waits, h.rank ▸ knownu, eq⟩

end

end Layout

end KernelCore
