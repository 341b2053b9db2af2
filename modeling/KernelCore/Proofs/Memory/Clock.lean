import KernelCore.Proofs.Memory.Frames

/-!
# Second chances

The clock hand comes to the candidates in the order of their places, from where it points once
round the table. The first of them that was not accessed since the hand last passed has to go; those
before it have their marks cleared and stay. If all of them were accessed, the hand clears all marks
on its first round and takes the first candidate on its second.
-/
namespace KernelCore

/-- Whether the hardware recorded an access to a page. -/
def Mmu.Marks (m : Mmu) (o : PageRef) : Prop := m.isAccessed o.space o.va = true

/-- Clear the marks of some pages. -/
def Mmu.clearAll (m : Mmu) (pages : List PageRef) : Mmu :=
  pages.foldl (fun m o => m.clearAccessed o.space o.va) m

namespace Mmu

variable {m : Mmu} {o o' : PageRef}

theorem marks_clearAccessed :
    (m.clearAccessed o.space o.va).Marks o' ↔ m.Marks o' ∧ o' ≠ o := by
  unfold Marks isAccessed
  rw [mapping?_clearAccessed]
  have same : o' = o ↔ o'.space = o.space ∧ o'.va = o.va := by
    cases o
    cases o'
    simp
  by_cases here : o' = o
  · rw [if_pos (same.mp here)]
    cases m.mapping? o'.space o'.va <;> simp [here]
  · rw [if_neg (mt same.mpr here)]
    simp [here]

/-- Exactly the marks of the given pages are cleared. -/
theorem marks_clearAll (pages : List PageRef) : (m.clearAll pages).Marks o ↔ m.Marks o ∧ o ∉ pages := by
  induction pages generalizing m with
  | nil => simp [clearAll]
  | cons first rest ih =>
    have step : m.clearAll (first :: rest) = (m.clearAccessed first.space first.va).clearAll rest := rfl
    rw [step, ih, marks_clearAccessed]
    simp [and_assoc]

end Mmu

namespace FrameTable

variable {t t' : FrameTable} {m : Mmu} {f : FrameId} {o : PageRef} {k : Nat}

/-! ## The order of the hand -/

/-- The hand points at a place of the table, unless there is none. -/
def HandInside (t : FrameTable) : Prop := t.hand < t.frames.length ∨ t.frames = [] ∧ t.hand = 0

/-- No page is in two frames that may lose it. -/
def OwnersDistinct (t : FrameTable) : Prop :=
  ∀ i j o, t.candidate i = some o → t.candidate j = some o → i = j

/-- The candidate at the place that lies `k` places before the hand, with its page. -/
def ahead (t : FrameTable) (k : Nat) : Option (FrameId × PageRef) :=
  let i := (t.hand + k) % t.frames.length
  (t.candidate i).map fun o => (⟨i⟩, o)

/-- The candidates the hand comes to in `k` steps. -/
def lap (t : FrameTable) (k : Nat) : List (FrameId × PageRef) := (List.range k).filterMap t.ahead

/-- All candidates with their pages, in cyclic order from the hand. -/
def round (t : FrameTable) : List (FrameId × PageRef) := t.lap t.frames.length

/-- The hand `k` places on. -/
def moved (t : FrameTable) (k : Nat) : FrameTable :=
  { t with hand := (t.hand + k) % t.frames.length }

@[simp] theorem frames_moved (t : FrameTable) (k : Nat) : (t.moved k).frames = t.frames := rfl

theorem moved_zero (inside : t.hand < t.frames.length) : t.moved 0 = t := by
  unfold moved
  rw [Nat.add_zero, Nat.mod_eq_of_lt inside]

theorem moved_length (inside : t.hand < t.frames.length) : t.moved t.frames.length = t := by
  unfold moved
  rw [Nat.add_mod_right, Nat.mod_eq_of_lt inside]

theorem moved_moved (t : FrameTable) (j k : Nat) : (t.moved j).moved k = t.moved (j + k) := by
  simp only [moved, Nat.mod_add_mod, Nat.add_assoc]

theorem moved_inside (inside : t.hand < t.frames.length) (k : Nat) :
    (t.moved k).hand < (t.moved k).frames.length :=
  Nat.mod_lt _ (Nat.zero_lt_of_lt inside)

theorem ahead_moved (t : FrameTable) (j k : Nat) : (t.moved j).ahead k = t.ahead (j + k) := by
  have place : ((t.moved j).hand + k) % t.frames.length = (t.hand + (j + k)) % t.frames.length :=
    congrArg hand (moved_moved t j k)
  unfold ahead
  dsimp only [frames_moved]
  rw [place]
  rfl

/-- The order starts with what the hand points at and goes on from one place further. -/
theorem lap_succ (t : FrameTable) (k : Nat) : t.lap (k + 1) = match t.ahead 0 with
    | none => (t.moved 1).lap k
    | some c => c :: (t.moved 1).lap k := by
  have rest : (t.moved 1).ahead = t.ahead ∘ Nat.succ := by
    funext j
    rw [ahead_moved, Nat.add_comm]
    rfl
  unfold lap
  rw [List.range_succ_eq_map, List.filterMap_cons, List.filterMap_map, rest]
  cases t.ahead 0 <;> rfl

theorem ahead_eq_some : t.ahead k = some (f, o) ↔
    f.index = (t.hand + k) % t.frames.length ∧ t.candidate f.index = some o := by
  obtain ⟨i⟩ := f
  unfold ahead
  simp only [Option.map_eq_some_iff, Prod.mk.injEq, FrameId.mk.injEq]
  constructor
  · rintro ⟨o', known, rfl, rfl⟩
    exact ⟨rfl, known⟩
  · rintro ⟨rfl, known⟩
    exact ⟨o, known, rfl, rfl⟩

theorem mem_lap : (f, o) ∈ t.lap k ↔
    t.candidate f.index = some o ∧ ∃ j < k, f.index = (t.hand + j) % t.frames.length := by
  unfold lap
  simp only [List.mem_filterMap, List.mem_range, ahead_eq_some]
  constructor
  · rintro ⟨j, below, place, known⟩
    exact ⟨known, j, below, place⟩
  · rintro ⟨known, j, below, place⟩
    exact ⟨j, below, place, known⟩

/-- One round comes to every frame that is in use, not pinned and owned, and to no other. -/
theorem mem_round (inside : t.HandInside) : (f, o) ∈ t.round ↔
    ∃ x, t.frame? f = some x ∧ x.pinned = false ∧ x.owner = some o := by
  unfold round
  rw [mem_lap, candidate_eq_some]
  refine ⟨fun both => both.1, fun known => ⟨known, ?_⟩⟩
  obtain ⟨x, frame, -⟩ := known
  have below := index_lt_length frame
  rcases inside with inside | ⟨none, -⟩
  · by_cases before : t.hand ≤ f.index
    · refine ⟨f.index - t.hand, by omega, ?_⟩
      rw [Nat.add_sub_cancel' before, Nat.mod_eq_of_lt below]
    · refine ⟨f.index + t.frames.length - t.hand, by omega, ?_⟩
      rw [Nat.add_sub_cancel' (by omega), Nat.add_mod_right, Nat.mod_eq_of_lt below]
  · rw [none] at below
    cases below

/-- Two steps within one round come to different places. -/
private theorem place_injective {i j : Nat} (inside : t.hand < t.frames.length)
    (hi : i < t.frames.length) (hj : j < t.frames.length)
    (same : (t.hand + i) % t.frames.length = (t.hand + j) % t.frames.length) : i = j := by
  have left := Nat.mod_eq_sub_mod (a := t.hand + i) (b := t.frames.length)
  have right := Nat.mod_eq_sub_mod (a := t.hand + j) (b := t.frames.length)
  by_cases hi' : t.hand + i < t.frames.length <;> by_cases hj' : t.hand + j < t.frames.length
  · rw [Nat.mod_eq_of_lt hi', Nat.mod_eq_of_lt hj'] at same
    omega
  · rw [Nat.mod_eq_of_lt hi', right (by omega), Nat.mod_eq_of_lt (by omega)] at same
    omega
  · rw [Nat.mod_eq_of_lt hj', left (by omega), Nat.mod_eq_of_lt (by omega)] at same
    omega
  · rw [left (by omega), right (by omega), Nat.mod_eq_of_lt (by omega),
      Nat.mod_eq_of_lt (by omega)] at same
    omega

/-- No page is come to twice in one round. -/
theorem pages_nodup (inside : t.hand < t.frames.length) (distinct : t.OwnersDistinct)
    (within : k ≤ t.frames.length) : ((t.lap k).map Prod.snd).Nodup := by
  unfold lap
  rw [List.map_filterMap, List.Nodup, List.pairwise_filterMap]
  refine List.pairwise_lt_range.imp_of_mem fun {i j} hi hj less o first o' second same => ?_
  rw [List.mem_range] at hi hj
  simp only [Option.map_eq_some_iff, Prod.exists, exists_eq_right] at first second
  obtain ⟨f, first⟩ := first
  obtain ⟨g, second⟩ := second
  rw [ahead_eq_some] at first second
  subst same
  have place := distinct f.index g.index o first.2 second.2
  rw [first.1, second.1] at place
  have := place_injective inside (by omega) (by omega) place
  omega

/-! ## The sweep along the order -/

/-- The pages of some candidates. -/
abbrev pages (l : List (FrameId × PageRef)) : List PageRef := l.map Prod.snd

/-- One step of the hand, by what it points at. -/
theorem sweep_succ (inside : t.hand < t.frames.length) (steps : Nat) (m : Mmu) :
    (t.ahead 0 = none → sweep (steps + 1) t m = sweep steps (t.moved 1) m) ∧
      ∀ f o, t.ahead 0 = some (f, o) →
        (m.Marks o → sweep (steps + 1) t m =
          sweep steps (t.moved 1) (m.clearAccessed o.space o.va)) ∧
        (¬ m.Marks o → sweep (steps + 1) t m =
          (some f, { t with hand := (f.index + 1) % t.frames.length }, m)) := by
  have same : ({ t with hand := (t.hand + 1) % t.frames.length } : FrameTable).candidate t.hand =
      t.candidate t.hand := rfl
  have here : (t.hand + 0) % t.frames.length = t.hand := by rw [Nat.add_zero, Nat.mod_eq_of_lt inside]
  rw [sweep, same]
  refine ⟨fun nobody => ?_, fun f o known => ?_⟩
  · unfold ahead at nobody
    dsimp only at nobody
    rw [here, Option.map_eq_none_iff] at nobody
    rw [nobody]
    rfl
  · rw [ahead_eq_some, here] at known
    obtain ⟨i⟩ := f
    obtain ⟨rfl, known⟩ := known
    rw [known]
    exact ⟨fun marked => if_pos marked, fun unmarked => if_neg unmarked⟩

/-- As long as all candidates are marked, the hand clears their marks and goes on. -/
theorem sweep_past (inside : t.hand < t.frames.length) (once : (pages (t.lap k)).Nodup)
    (marked : ∀ o ∈ pages (t.lap k), m.Marks o) (steps : Nat) :
    sweep (k + steps) t m = sweep steps (t.moved k) (m.clearAll (pages (t.lap k))) := by
  induction k generalizing t m with
  | zero =>
    rw [Nat.zero_add, moved_zero inside]
    rfl
  | succ k ih =>
    have inside' := moved_inside inside 1
    have on : (t.moved 1).moved k = t.moved (k + 1) := by rw [moved_moved, Nat.add_comm]
    obtain ⟨hole, found⟩ := sweep_succ inside (k + steps) m
    have order := lap_succ t k
    rw [Nat.add_right_comm]
    cases first : t.ahead 0 with
    | none =>
      rw [first] at order
      dsimp only at order
      rw [order] at once marked ⊢
      rw [hole first, ih inside' once marked, on]
    | some c =>
      obtain ⟨f, o⟩ := c
      rw [first] at order
      dsimp only at order
      rw [order] at once marked ⊢
      obtain ⟨fresh, once⟩ := List.nodup_cons.mp once
      rw [(found f o first).1 (marked o List.mem_cons_self)]
      rw [ih inside' once fun o' member => ?_, on]
      · rfl
      · refine Mmu.marks_clearAccessed.mpr ⟨marked o' (List.mem_cons_of_mem o member), ?_⟩
        rintro rfl
        exact fresh member

/-- The first candidate that is not marked has to go, and those before it lose their marks. -/
theorem sweep_finds (inside : t.hand < t.frames.length) {passed rest : List (FrameId × PageRef)}
    (split : t.lap k = passed ++ (f, o) :: rest) (once : (pages (t.lap k)).Nodup)
    (marked : ∀ o ∈ pages passed, m.Marks o) (unmarked : ¬ m.Marks o) (steps : Nat) :
    sweep (k + steps) t m =
      (some f, { t with hand := (f.index + 1) % t.frames.length }, m.clearAll (pages passed)) := by
  induction k generalizing t m passed with
  | zero => simp [lap] at split
  | succ k ih =>
    have inside' := moved_inside inside 1
    obtain ⟨hole, found⟩ := sweep_succ inside (k + steps) m
    have order := lap_succ t k
    rw [Nat.add_right_comm]
    cases first : t.ahead 0 with
    | none =>
      rw [first] at order
      dsimp only at order
      rw [order] at split once
      rw [hole first, ih inside' split once marked unmarked]
      rfl
    | some c =>
      obtain ⟨g, o'⟩ := c
      rw [first] at order
      dsimp only at order
      rw [order] at split once
      cases passed with
      | nil =>
        obtain ⟨same, -⟩ := List.cons.inj split
        cases same
        exact (found f o first).2 unmarked
      | cons c' passed =>
        rw [List.cons_append] at split
        obtain ⟨rfl, further⟩ := List.cons.inj split
        obtain ⟨fresh, once⟩ := List.nodup_cons.mp once
        have later : ∀ q ∈ pages passed, q ≠ o' := by
          rintro q member rfl
          refine fresh ?_
          rw [further, List.map_append]
          exact List.mem_append_left _ member
        rw [(found g o' first).1 (marked o' List.mem_cons_self)]
        rw [ih inside' further once (fun q member => ?_) fun still => ?_]
        · rfl
        · exact Mmu.marks_clearAccessed.mpr
            ⟨marked q (List.mem_cons_of_mem o' member), later q member⟩
        · exact unmarked (Mmu.marks_clearAccessed.mp still).1

/-- Once the hand has stopped, more steps change nothing. -/
theorem sweep_stops (found : (sweep k t m).1 = some f) (steps : Nat) :
    sweep (k + steps) t m = sweep k t m := by
  induction k generalizing t m with
  | zero => cases found
  | succ k ih =>
    rw [Nat.add_right_comm]
    unfold sweep at found ⊢
    dsimp only at found ⊢
    split at found
    · exact ih found
    · split at found
      · rename_i marked
        rw [if_pos marked, if_pos marked]
        exact ih found
      · rename_i unmarked
        rw [if_neg unmarked, if_neg unmarked]

/-! ## Who has to go -/

/-- Whether a candidate was accessed since the hand last passed it. -/
def accessed (m : Mmu) (c : FrameId × PageRef) : Bool := m.isAccessed c.2.space c.2.va

/-- The first candidate of the round that was not accessed; the first of all if all were. -/
def victim (t : FrameTable) (m : Mmu) : Option FrameId :=
  ((t.round.find? fun c => !accessed m c).or t.round.head?).map Prod.fst

/-- The pages of the accessed candidates that come before any other: they get a second chance. -/
def spared (t : FrameTable) (m : Mmu) : List PageRef := pages (t.round.takeWhile (accessed m))

theorem selectVictim_eq (inside : t.HandInside) (distinct : t.OwnersDistinct) (m : Mmu) :
    t.selectVictim m = match t.victim m with
      | none => (none, t, m)
      | some f =>
        (some f, { t with hand := (f.index + 1) % t.frames.length }, m.clearAll (t.spared m)) := by
  rcases inside with inside | ⟨none, -⟩
  · have once : (pages t.round).Nodup := pages_nodup inside distinct (Nat.le_refl _)
    unfold victim spared selectVictim
    rw [Nat.two_mul]
    cases first : t.round.find? fun c => !accessed m c with
    | some c =>
      obtain ⟨f, o⟩ := c
      obtain ⟨unmarked, passed, rest, split, marked⟩ := List.find?_eq_some_iff_append.mp first
      rw [Bool.not_eq_true'] at unmarked
      simp only [Bool.not_not] at marked
      have before : t.round.takeWhile (accessed m) = passed := by
        rw [split, List.takeWhile_append_of_pos marked, List.takeWhile_cons_of_neg (by simp [unmarked]),
          List.append_nil]
      rw [before]
      refine sweep_finds inside split once (fun o member => ?_) (ne_true_of_eq_false unmarked) _
      obtain ⟨c, among, rfl⟩ := List.mem_map.mp member
      exact marked c among
    | none =>
      have marked : ∀ c ∈ t.round, accessed m c = true := by
        simpa [List.find?_eq_none] using first
      have all : t.round.takeWhile (accessed m) = t.round := by
        have whole := List.append_nil t.round
        rw [← whole, List.takeWhile_append_of_pos marked, List.takeWhile_nil]
      have marked' : ∀ o ∈ pages t.round, m.Marks o := by
        intro o member
        obtain ⟨c, among, rfl⟩ := List.mem_map.mp member
        exact marked c among
      have cleared : ∀ steps, sweep (t.frames.length + steps) t m =
          sweep steps t (m.clearAll (pages t.round)) := by
        intro steps
        rw [sweep_past inside once marked', moved_length inside]
        rfl
      rw [all, cleared]
      cases candidates : t.round with
      | nil =>
        have again := cleared 0
        rw [candidates] at again
        exact again
      | cons c rest =>
        obtain ⟨f, o⟩ := c
        have split : t.lap t.frames.length = [] ++ (f, o) :: rest := candidates
        have again := sweep_finds (m := m.clearAll (pages ((f, o) :: rest))) inside split once
          (fun o member => by cases member) ?_ 0
        · exact again
        rw [Mmu.marks_clearAll]
        rintro ⟨-, kept⟩
        exact kept List.mem_cons_self
  · unfold selectVictim victim round lap
    rw [none]
    rfl

/-- Nobody has to go only if there is no candidate. -/
theorem victim_eq_none : t.victim m = none ↔ t.round = [] := by
  unfold victim
  cases t.round <;> simp

/-! ## The tables the operations lead to -/

/-- The tables that the operations on the empty table lead to. -/
inductive Reached : FrameTable → Prop
  | empty : Reached FrameTable.empty
  | insert {t : FrameTable} (before : Reached t) (pa : PhysAddr) : Reached (t.insert pa).2
  | update {t t' : FrameTable} {f : FrameId} (before : Reached t) (change : Frame → Frame)
      (done : t.update f change = .ok t') : Reached t'
  | remove {t t' : FrameTable} {f : FrameId} {pa : PhysAddr} (before : Reached t)
      (done : t.remove f = .ok (pa, t')) : Reached t'
  | select {t : FrameTable} (before : Reached t) (m : Mmu) : Reached (t.selectVictim m).2.1

theorem handInside_put (inside : t.HandInside) (x : Option Frame) : (t.put f x).HandInside := by
  simpa [HandInside, put] using inside

theorem handInside_insert (inside : t.HandInside) (pa : PhysAddr) : (t.insert pa).2.HandInside := by
  unfold insert
  dsimp only
  split
  · exact handInside_put (f := ⟨_⟩) inside _
  · refine .inl ?_
    rcases inside with inside | ⟨none, zero⟩
    · simp only [List.length_append]
      omega
    · simp [none, zero]

theorem handInside_sweep (inside : t.hand < t.frames.length) (k : Nat) (m : Mmu) :
    (sweep k t m).2.1.hand < (sweep k t m).2.1.frames.length := by
  induction k generalizing t m with
  | zero => exact inside
  | succ k ih =>
    have on := moved_inside inside 1
    unfold sweep
    dsimp only
    split
    · exact ih on m
    · split
      · exact ih on _
      · exact on

/-- In a table without places the hand makes no step. -/
theorem handInside_selectVictim (inside : t.HandInside) (m : Mmu) :
    (t.selectVictim m).2.1.HandInside := by
  rcases inside with inside | ⟨none, zero⟩
  · exact .inl (handInside_sweep inside _ m)
  · unfold selectVictim
    rw [none]
    exact .inr ⟨none, zero⟩

theorem Reached.handInside (reached : Reached t) : t.HandInside := by
  induction reached with
  | empty => exact .inr ⟨rfl, rfl⟩
  | insert _ pa ih => exact handInside_insert ih pa
  | update _ change done ih =>
    unfold FrameTable.update at done
    split at done
    · cases done
      exact handInside_put ih _
    · cases done
  | remove _ done ih =>
    unfold FrameTable.remove at done
    split at done
    · cases done
      exact handInside_put ih _
    · cases done
  | select _ m ih => exact handInside_selectVictim ih m

/-! ## Second chances -/

/-- What the clock hand makes of a table and the marks of its pages. -/
structure SecondChances (t : FrameTable) (m : Mmu) : Prop where
  /-- The candidates are the frames in use that are not pinned and have an owner. -/
  candidates : ∀ f o, (f, o) ∈ t.round ↔
    ∃ x, t.frame? f = some x ∧ x.pinned = false ∧ x.owner = some o
  /-- They stand in the order of their distance from the hand, each once. -/
  ordered : t.round.Pairwise fun c d =>
    ∃ i j, i < j ∧ j < t.frames.length ∧ t.ahead i = some c ∧ t.ahead j = some d
  /-- Without a candidate nothing happens. -/
  nobody : t.round = [] → t.selectVictim m = (none, t, m)
  /-- The first that was not accessed has to go, or the first of all. -/
  victim : (t.selectVictim m).1 = t.victim m
  /-- The hand comes to stand behind the victim. -/
  behind : ∀ f, t.victim m = some f →
    (t.selectVictim m).2.1 = { t with hand := (f.index + 1) % t.frames.length }
  /-- The pages before the victim lose their marks; if all were accessed, all lose them. -/
  marks : ∀ o, (t.selectVictim m).2.2.Marks o ↔ m.Marks o ∧ o ∉ t.spared m
  targets : m.SameTargets (t.selectVictim m).2.2
  dirty : m.SameDirty (t.selectVictim m).2.2
  /-- However many steps the hand is given, it finds no other. -/
  enough : ∀ k, (sweep k t m).1.isSome → sweep k t m = t.selectVictim m

theorem ordered_round (t : FrameTable) : t.round.Pairwise fun c d =>
    ∃ i j, i < j ∧ j < t.frames.length ∧ t.ahead i = some c ∧ t.ahead j = some d := by
  unfold round lap
  rw [List.pairwise_filterMap]
  refine List.pairwise_lt_range.imp_of_mem fun {i j} _ below less c first d second => ?_
  exact ⟨i, j, less, List.mem_range.mp below, first, second⟩

/-- Any number of steps that finds a candidate finds the one that the two rounds find. -/
theorem sweep_enough (inside : t.HandInside) (distinct : t.OwnersDistinct)
    (found : (sweep k t m).1.isSome) : sweep k t m = t.selectVictim m := by
  obtain ⟨f, stopped⟩ := Option.isSome_iff_exists.mp found
  rcases Nat.le_total k (2 * t.frames.length) with fewer | more
  · obtain ⟨rest, total⟩ := Nat.exists_eq_add_of_le fewer
    unfold selectVictim
    rw [total, sweep_stops stopped]
  · obtain ⟨rest, total⟩ := Nat.exists_eq_add_of_le more
    obtain ⟨o, candidate⟩ := (sweep_keeps k t m).2.2.2 f stopped
    have member := (mem_round inside).mpr (candidate_eq_some.mp candidate)
    have equal := selectVictim_eq inside distinct m
    cases chosen : t.victim m with
    | none =>
      rw [victim_eq_none.mp chosen] at member
      cases member
    | some g =>
      rw [chosen] at equal
      have same := sweep_stops (k := 2 * t.frames.length) (t := t) (m := m) (congrArg Prod.fst equal) rest
      rw [total]
      exact same

/-- The clock hand gives second chances, and it always points into the table. -/
theorem hand_gives_second_chances :
    (∀ (t : FrameTable) (m : Mmu), t.HandInside → t.OwnersDistinct → t.SecondChances m) ∧
      ∀ t : FrameTable, Reached t → t.HandInside := by
  refine ⟨fun t m inside distinct => ?_, fun t reached => reached.handInside⟩
  have equal := selectVictim_eq inside distinct m
  refine ⟨fun f o => mem_round inside, ordered_round t, fun nobody => ?_, ?_, fun f chosen => ?_,
    fun o => ?_, selectVictim_sameTargets t m, selectVictim_sameDirty t m,
    fun k found => sweep_enough inside distinct found⟩
  · rw [equal, victim_eq_none.mpr nobody]
  · rw [equal]
    cases t.victim m <;> rfl
  · rw [equal, chosen]
  · rw [equal]
    cases chosen : t.victim m with
    | none =>
      have nobody := victim_eq_none.mp chosen
      simp [spared, nobody]
    | some f => exact Mmu.marks_clearAll (t.spared m)

/-- A table with holes and a pinned frame; the hand points at a hole. -/
private def sparse : FrameTable :=
  { frames := [none, some ⟨⟨4096⟩, some ⟨⟨1⟩, ⟨4096⟩⟩, true⟩, some ⟨⟨8192⟩, some ⟨⟨1⟩, ⟨8192⟩⟩, false⟩,
      none, some ⟨⟨12288⟩, some ⟨⟨2⟩, ⟨4096⟩⟩, false⟩]
    hand := 3 }

/-- All its pages were accessed. -/
private def busy : Mmu :=
  { Mmu.new with
    entries := Table.empty
      |>.insert ⟨1⟩ ((Table.empty.insert ⟨4096⟩ ⟨⟨4096⟩, true, true, false⟩).insert ⟨8192⟩
        ⟨⟨8192⟩, true, true, false⟩)
      |>.insert ⟨2⟩ (Table.empty.insert ⟨4096⟩ ⟨⟨12288⟩, true, true, true⟩) }

private theorem candidates_sparse {i : Nat} (known : sparse.candidate i = some o) :
    i = 2 ∧ o = ⟨⟨1⟩, ⟨8192⟩⟩ ∨ i = 4 ∧ o = ⟨⟨2⟩, ⟨4096⟩⟩ := by
  match i with
  | 0 | 1 | 3 => cases known
  | 2 => exact .inl ⟨rfl, (Option.some.inj known).symm⟩
  | 4 => exact .inr ⟨rfl, (Option.some.inj known).symm⟩
  | n + 5 => cases known

private theorem ownersDistinct_sparse : sparse.OwnersDistinct := by
  intro i j o first second
  obtain ⟨hi, ho⟩ | ⟨hi, ho⟩ := candidates_sparse first <;>
    obtain ⟨hj, ho'⟩ | ⟨hj, ho'⟩ := candidates_sparse second <;> subst ho
  · rw [hi, hj]
  · cases ho'
  · cases ho'
  · rw [hi, hj]

/-- The hand passes both candidates and clears their marks, and takes the one behind the hole. The
pinned page keeps its mark. -/
theorem hand_gives_second_chances_sparse :
    sparse.SecondChances busy ∧ (sparse.selectVictim busy).1 = some ⟨4⟩ ∧
      (sparse.selectVictim busy).2.1.hand = 0 ∧
      sparse.spared busy = [⟨⟨2⟩, ⟨4096⟩⟩, ⟨⟨1⟩, ⟨8192⟩⟩] ∧
      (sparse.selectVictim busy).2.2.Marks ⟨⟨1⟩, ⟨4096⟩⟩ ∧
      (FrameTable.empty.insert ⟨4096⟩).2.HandInside := by
  have chances := hand_gives_second_chances.1 sparse busy (.inl (by decide)) ownersDistinct_sparse
  have spared : sparse.spared busy = [⟨⟨2⟩, ⟨4096⟩⟩, ⟨⟨1⟩, ⟨8192⟩⟩] := by decide +kernel
  have victim : sparse.victim busy = some ⟨4⟩ := by decide +kernel
  refine ⟨chances, chances.victim.trans victim, ?_, spared, ?_,
    hand_gives_second_chances.2 _ (.insert .empty ⟨4096⟩)⟩
  · rw [chances.behind ⟨4⟩ victim]
    rfl
  · refine (chances.marks _).mpr ⟨by unfold Mmu.Marks; decide +kernel, ?_⟩
    rw [spared]
    decide

end FrameTable

end KernelCore
