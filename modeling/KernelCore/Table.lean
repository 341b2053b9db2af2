/-!
# Tables

A finite map whose entries are kept in ascending order of their keys, each key once. Order and
uniqueness are part of the type, so two tables that answer every look-up alike are equal
(`Table.ext_find?`).
-/
namespace KernelCore

/-- Keys that are ordered by an integer and determined by it. -/
class Ranked (κ : Type) where
  rank : κ → Int
  rank_injective : ∀ a b, rank a = rank b → a = b

export Ranked (rank)

instance : Ranked Nat := ⟨Int.ofNat, fun _ _ h => Int.ofNat.inj h⟩

instance : Ranked Int := ⟨id, fun _ _ h => h⟩

theorem rank_inj {κ : Type} [Ranked κ] {a b : κ} : rank a = rank b ↔ a = b :=
  ⟨Ranked.rank_injective a b, fun h => h ▸ rfl⟩

structure Table (κ α : Type) [Ranked κ] where
  entries : List (κ × α)
  ascending : (entries.map Prod.fst).Pairwise fun a b => rank a < rank b

namespace Table

variable {κ α β ε : Type} [Ranked κ]

instance [DecidableEq κ] [DecidableEq α] : DecidableEq (Table κ α) := fun a b =>
  decidable_of_iff (a.entries = b.entries)
    ⟨fun h => by cases a; cases b; cases h; rfl, fun h => h ▸ rfl⟩

def empty : Table κ α := ⟨[], .nil⟩

instance : Inhabited (Table κ α) := ⟨empty⟩

def keys (t : Table κ α) : List κ := t.entries.map Prod.fst

def values (t : Table κ α) : List α := t.entries.map Prod.snd

def size (t : Table κ α) : Nat := t.entries.length

def find? (t : Table κ α) (k : κ) : Option α :=
  (t.entries.find? fun e => rank e.1 = rank k).map Prod.snd

def contains (t : Table κ α) (k : κ) : Bool := (t.find? k).isSome

private def place (k : κ) (a : α) : List (κ × α) → List (κ × α)
  | [] => [(k, a)]
  | e :: rest =>
    if rank k < rank e.1 then (k, a) :: e :: rest
    else if rank e.1 < rank k then e :: place k a rest
    else (k, a) :: rest

private theorem mem_place {k x : κ} {a : α} {es : List (κ × α)}
    (h : x ∈ (place k a es).map Prod.fst) : x = k ∨ x ∈ es.map Prod.fst := by
  induction es with
  | nil => simpa [place] using h
  | cons e rest ih =>
    unfold place at h
    split at h
    · simpa using h
    · split at h
      · simp only [List.map_cons, List.mem_cons] at h ⊢
        rcases h with h | h
        · exact .inr (.inl h)
        · exact (ih h).imp_right .inr
      · simp only [List.map_cons, List.mem_cons] at h ⊢
        exact h.imp_right .inr

private theorem ascending_place (k : κ) (a : α) (es : List (κ × α))
    (h : (es.map Prod.fst).Pairwise fun a b => rank a < rank b) :
    ((place k a es).map Prod.fst).Pairwise fun a b => rank a < rank b := by
  induction es with
  | nil => simp [place]
  | cons e rest ih =>
    simp only [List.map_cons, List.pairwise_cons] at h
    unfold place
    split
    · rename_i hlt
      simp only [List.map_cons, List.pairwise_cons, List.mem_cons]
      refine ⟨?_, h⟩
      rintro x (rfl | hx)
      · exact hlt
      · have := h.1 x hx
        omega
    · split
      · simp only [List.map_cons, List.pairwise_cons]
        refine ⟨fun x hx => ?_, ih h.2⟩
        rcases mem_place hx with rfl | hx
        · assumption
        · exact h.1 x hx
      · have heq : rank k = rank e.1 := by omega
        simp only [List.map_cons, List.pairwise_cons, heq]
        exact h

/-- Set the value of a key, whether or not it has one. -/
def insert (t : Table κ α) (k : κ) (a : α) : Table κ α :=
  ⟨place k a t.entries, ascending_place k a t.entries t.ascending⟩

/-- Keep the entries that satisfy a condition. -/
def filter (p : κ → α → Bool) (t : Table κ α) : Table κ α :=
  ⟨t.entries.filter fun e => p e.1 e.2,
    t.ascending.sublist (List.Sublist.map Prod.fst List.filter_sublist)⟩

def erase (t : Table κ α) (k : κ) : Table κ α :=
  t.filter fun x _ => rank x ≠ rank k

/-- Change every value. -/
def mapValues (f : κ → α → β) (t : Table κ α) : Table κ β :=
  ⟨t.entries.map fun e => (e.1, f e.1 e.2), by
    simpa [List.map_map, Function.comp_def] using t.ascending⟩

/-- Change the value of one key, if it has one. -/
def modify (t : Table κ α) (k : κ) (f : α → α) : Table κ α :=
  t.mapValues fun x a => if rank x = rank k then f a else a

private def traverseEntries (f : κ → α → Except ε β) :
    (es : List (κ × α)) → Except ε { out : List (κ × β) // out.map Prod.fst = es.map Prod.fst }
  | [] => .ok ⟨[], rfl⟩
  | e :: rest =>
    match f e.1 e.2 with
    | .error x => .error x
    | .ok b =>
      match traverseEntries f rest with
      | .error x => .error x
      | .ok out => .ok ⟨(e.1, b) :: out.1, by simp [out.2]⟩

/-- Change every value, in ascending order of the keys, unless one cannot be changed. -/
def traverse (f : κ → α → Except ε β) (t : Table κ α) : Except ε (Table κ β) :=
  match traverseEntries f t.entries with
  | .error x => .error x
  | .ok out => .ok ⟨out.1, by rw [out.2]; exact t.ascending⟩

/-! ## Look-ups -/

@[simp] theorem find?_empty (k : κ) : (empty : Table κ α).find? k = none := rfl

theorem entry_unique {t : Table κ α} {k : κ} {a b : α}
    (ha : (k, a) ∈ t.entries) (hb : (k, b) ∈ t.entries) : a = b := by
  obtain ⟨es, h⟩ := t
  simp only at ha hb
  induction es with
  | nil => cases ha
  | cons e rest ih =>
    simp only [List.map_cons, List.pairwise_cons] at h
    have tail : ∀ {x : α}, (k, x) ∈ rest → rank e.1 < rank k := fun hx =>
      h.1 k (List.mem_map.mpr ⟨_, hx, rfl⟩)
    rcases List.mem_cons.mp ha with hae | har <;> rcases List.mem_cons.mp hb with hbe | hbr
    · rw [← hbe] at hae
      exact (Prod.mk.inj hae).2
    · rw [← hae] at tail
      exact absurd (tail hbr) (by simp)
    · rw [← hbe] at tail
      exact absurd (tail har) (by simp)
    · exact ih h.2 har hbr

/-- A look-up finds exactly the entries. -/
theorem find?_eq_some_iff {t : Table κ α} {k : κ} {a : α} :
    t.find? k = some a ↔ (k, a) ∈ t.entries := by
  unfold find?
  constructor
  · intro h
    obtain ⟨e, he, rfl⟩ := Option.map_eq_some_iff.mp h
    have hk : rank e.1 = rank k := by simpa using List.find?_some he
    have := List.mem_of_find?_eq_some he
    rwa [← rank_inj.mp hk]
  · intro h
    cases hf : t.entries.find? fun e => rank e.1 = rank k with
    | none =>
      have := List.find?_eq_none.mp hf _ h
      simp at this
    | some e =>
      have hk : rank e.1 = rank k := by simpa using List.find?_some hf
      have hm := List.mem_of_find?_eq_some hf
      have he : e = (k, e.2) := by rw [← rank_inj.mp hk]
      rw [he] at hm
      simp [entry_unique h hm]

theorem find?_eq_none_iff {t : Table κ α} {k : κ} :
    t.find? k = none ↔ ∀ a, (k, a) ∉ t.entries := by
  rw [Option.eq_none_iff_forall_ne_some]
  exact forall_congr' fun a => not_congr find?_eq_some_iff

theorem contains_iff {t : Table κ α} {k : κ} : t.contains k = true ↔ k ∈ t.keys := by
  unfold contains keys
  rw [Option.isSome_iff_exists]
  simp [find?_eq_some_iff]

private theorem mem_place_entries {k x : κ} {a b : α} {es : List (κ × α)}
    (h : (es.map Prod.fst).Pairwise fun a b => rank a < rank b) :
    (x, b) ∈ place k a es ↔ (x = k ∧ b = a) ∨ (x ≠ k ∧ (x, b) ∈ es) := by
  induction es with
  | nil =>
    simp only [place, List.mem_singleton, Prod.mk.injEq, List.not_mem_nil, and_false, or_false]
  | cons e rest ih =>
    simp only [List.map_cons, List.pairwise_cons] at h
    have tail : ∀ {x : κ} {b : α}, (x, b) ∈ rest → rank e.1 < rank x := fun hx =>
      h.1 _ (List.mem_map.mpr ⟨_, hx, rfl⟩)
    unfold place
    split
    · rename_i hlt
      simp only [List.mem_cons, Prod.mk.injEq]
      constructor
      · rintro (⟨rfl, rfl⟩ | rfl | hx)
        · exact .inl ⟨rfl, rfl⟩
        · refine .inr ⟨?_, .inl rfl⟩
          rintro rfl
          exact absurd hlt (by simp)
        · refine .inr ⟨?_, .inr hx⟩
          rintro rfl
          have := tail hx
          omega
      · rintro (⟨rfl, rfl⟩ | ⟨-, h⟩)
        · exact .inl ⟨rfl, rfl⟩
        · exact .inr h
    · split
      · rename_i hlt
        simp only [List.mem_cons, ih h.2]
        constructor
        · rintro (rfl | ⟨rfl, rfl⟩ | ⟨hne, hx⟩)
          · refine .inr ⟨?_, .inl rfl⟩
            rintro rfl
            exact absurd hlt (by simp)
          · exact .inl ⟨rfl, rfl⟩
          · exact .inr ⟨hne, .inr hx⟩
        · rintro (⟨rfl, rfl⟩ | ⟨hne, rfl | hx⟩)
          · exact .inr (.inl ⟨rfl, rfl⟩)
          · exact .inl rfl
          · exact .inr (.inr ⟨hne, hx⟩)
      · have heq : e.1 = k := rank_inj.mp (by omega)
        simp only [List.mem_cons, Prod.mk.injEq]
        constructor
        · rintro (⟨rfl, rfl⟩ | hx)
          · exact .inl ⟨rfl, rfl⟩
          · refine .inr ⟨?_, .inr hx⟩
            rintro rfl
            have := tail hx
            rw [heq] at this
            omega
        · rintro (⟨rfl, rfl⟩ | ⟨hne, rfl | hx⟩)
          · exact .inl ⟨rfl, rfl⟩
          · exact absurd heq hne
          · exact .inr hx

theorem mem_entries_insert {t : Table κ α} {k x : κ} {a b : α} :
    (x, b) ∈ (t.insert k a).entries ↔ (x = k ∧ b = a) ∨ (x ≠ k ∧ (x, b) ∈ t.entries) :=
  mem_place_entries t.ascending

theorem find?_insert [DecidableEq κ] (t : Table κ α) (k x : κ) (a : α) :
    (t.insert k a).find? x = if x = k then some a else t.find? x := by
  apply Option.ext
  intro b
  rw [find?_eq_some_iff, mem_entries_insert]
  split
  · rename_i h
    simp [h, eq_comm]
  · rename_i h
    simp [h, find?_eq_some_iff]

private theorem length_place {k : κ} {a : α} {es : List (κ × α)} (h : ∀ b, (k, b) ∉ es) :
    (place k a es).length = es.length + 1 := by
  induction es with
  | nil => rfl
  | cons e rest ih =>
    unfold place
    split
    · rfl
    · split
      · rw [List.length_cons, ih fun b hb => h b (List.mem_cons_of_mem e hb), List.length_cons]
      · have heq : rank e.1 = rank k := by omega
        exact absurd (rank_inj.mp heq ▸ List.mem_cons_self) (h e.2)

theorem size_insert_of_absent {t : Table κ α} {k : κ} (h : t.find? k = none) (a : α) :
    (t.insert k a).size = t.size + 1 :=
  length_place (find?_eq_none_iff.mp h)

private theorem length_place_le (k : κ) (a : α) (es : List (κ × α)) :
    (place k a es).length ≤ es.length + 1 := by
  induction es with
  | nil => exact Nat.le_refl _
  | cons e rest ih =>
    unfold place
    split
    · exact Nat.le_refl _
    · split
      · exact Nat.succ_le_succ ih
      · exact Nat.le_succ _

theorem size_insert_le (t : Table κ α) (k : κ) (a : α) : (t.insert k a).size ≤ t.size + 1 :=
  length_place_le k a t.entries

@[simp] theorem size_mapValues (f : κ → α → β) (t : Table κ α) :
    (t.mapValues f).size = t.size := by
  simp [size, mapValues]

@[simp] theorem size_modify (t : Table κ α) (k : κ) (f : α → α) : (t.modify k f).size = t.size := by
  simp [modify]

theorem find?_filter (p : κ → α → Bool) (t : Table κ α) (k : κ) :
    (t.filter p).find? k = (t.find? k).filter (p k) := by
  apply Option.ext
  intro b
  rw [find?_eq_some_iff, Option.filter_eq_some_iff, find?_eq_some_iff]
  simp [filter]

theorem find?_erase [DecidableEq κ] (t : Table κ α) (k x : κ) :
    (t.erase k).find? x = if x = k then none else t.find? x := by
  unfold erase
  rw [find?_filter]
  split
  · rename_i h
    cases t.find? x <;> simp [Option.filter, h]
  · rename_i h
    have hr : rank x ≠ rank k := fun hr => h (rank_inj.mp hr)
    cases t.find? x <;> simp [Option.filter, hr]

theorem find?_mapValues (f : κ → α → β) (t : Table κ α) (k : κ) :
    (t.mapValues f).find? k = (t.find? k).map (f k) := by
  apply Option.ext
  intro b
  rw [find?_eq_some_iff, Option.map_eq_some_iff]
  simp only [mapValues, List.mem_map, Prod.mk.injEq, Prod.exists, find?_eq_some_iff]
  constructor
  · rintro ⟨x, a, h, rfl, rfl⟩
    exact ⟨a, h, rfl⟩
  · rintro ⟨a, h, rfl⟩
    exact ⟨k, a, h, rfl, rfl⟩

theorem find?_modify [DecidableEq κ] (t : Table κ α) (k x : κ) (f : α → α) :
    (t.modify k f).find? x = if x = k then (t.find? x).map f else t.find? x := by
  unfold modify
  rw [find?_mapValues]
  by_cases h : x = k
  · subst h
    simp
  · have hr : rank x ≠ rank k := fun hr => h (rank_inj.mp hr)
    simp [h, hr]

private theorem find?_traverseEntries {f : κ → α → Except ε β} {k : κ} :
    ∀ {es : List (κ × α)} {out}, traverseEntries f es = .ok out →
      match (es.find? fun e => rank e.1 = rank k).map Prod.snd with
      | none => (out.1.find? fun e => rank e.1 = rank k).map Prod.snd = none
      | some a => ∃ b, f k a = .ok b ∧
        (out.1.find? fun e => rank e.1 = rank k).map Prod.snd = some b
  | [], out, h => by
    cases h
    rfl
  | e :: rest, out, h => by
    unfold traverseEntries at h
    cases value : f e.1 e.2 with
    | error x => simp [value] at h
    | ok b =>
      cases more : traverseEntries f rest with
      | error x => simp [value, more] at h
      | ok out' =>
        simp only [value, more, Except.ok.injEq] at h
        subst h
        by_cases found : rank e.1 = rank k
        · have same : e.1 = k := rank_inj.mp found
          simpa [found] using same ▸ value
        · simpa [found] using find?_traverseEntries (k := k) more

/-- A traversal that succeeds changes the value of every key that has one. -/
theorem find?_traverse {f : κ → α → Except ε β} {t : Table κ α} {t' : Table κ β}
    (h : t.traverse f = .ok t') (k : κ) :
    match t.find? k with
    | none => t'.find? k = none
    | some a => ∃ b, f k a = .ok b ∧ t'.find? k = some b := by
  unfold traverse at h
  cases out : traverseEntries f t.entries with
  | error x => simp [out] at h
  | ok es =>
    simp only [out, Except.ok.injEq] at h
    subst h
    exact find?_traverseEntries out

/-- A traversal makes up no keys. -/
theorem exists_of_find?_traverse {f : κ → α → Except ε β} {t : Table κ α} {t' : Table κ β}
    (h : t.traverse f = .ok t') {k : κ} {b : β} (known : t'.find? k = some b) :
    ∃ a, t.find? k = some a ∧ f k a = .ok b := by
  have found := find?_traverse h k
  cases before : t.find? k with
  | none =>
    rw [before] at found
    simp [found] at known
  | some a =>
    rw [before] at found
    obtain ⟨b', value, found⟩ := found
    obtain rfl := Option.some.inj (known.symm.trans found)
    exact ⟨a, rfl, value⟩

omit [Ranked κ] in
private theorem exists_traverseEntries {f : κ → α → Except ε β} :
    ∀ {es : List (κ × α)}, (∀ e ∈ es, ∃ b, f e.1 e.2 = .ok b) →
      ∃ out, traverseEntries f es = .ok out
  | [], _ => ⟨_, rfl⟩
  | e :: rest, h => by
    obtain ⟨b, value⟩ := h e List.mem_cons_self
    obtain ⟨out, more⟩ := exists_traverseEntries fun x mem => h x (List.mem_cons_of_mem e mem)
    simp only [traverseEntries, value, more]
    exact ⟨_, rfl⟩

/-- A traversal succeeds if every value can be changed. -/
theorem exists_traverse {f : κ → α → Except ε β} {t : Table κ α}
    (h : ∀ k a, t.find? k = some a → ∃ b, f k a = .ok b) : ∃ t', t.traverse f = .ok t' := by
  obtain ⟨out, value⟩ := exists_traverseEntries fun e mem => h e.1 e.2 (find?_eq_some_iff.mpr mem)
  simp only [traverse, value]
  exact ⟨_, rfl⟩

theorem size_traverse {f : κ → α → Except ε β} {t : Table κ α} {t' : Table κ β}
    (h : t.traverse f = .ok t') : t'.size = t.size := by
  unfold traverse at h
  cases out : traverseEntries f t.entries with
  | error x => simp [out] at h
  | ok es =>
    simp only [out, Except.ok.injEq] at h
    subst h
    have same := congrArg List.length es.2
    rwa [List.length_map, List.length_map] at same

theorem size_erase_le (t : Table κ α) (k : κ) : (t.erase k).size ≤ t.size :=
  List.length_filter_le _ _

@[simp] theorem keys_mapValues (f : κ → α → β) (t : Table κ α) :
    (t.mapValues f).keys = t.keys := by
  simp [keys, mapValues]

@[simp] theorem keys_modify (t : Table κ α) (k : κ) (f : α → α) :
    (t.modify k f).keys = t.keys := by
  simp [modify]

theorem keys_nodup (t : Table κ α) : t.keys.Nodup :=
  t.ascending.imp fun {a b} (h : rank a < rank b) (heq : a = b) => by
    subst heq
    omega

private theorem eq_of_mem_iff : (xs ys : List (κ × α)) →
    ((xs.map Prod.fst).Pairwise fun a b => rank a < rank b) →
    ((ys.map Prod.fst).Pairwise fun a b => rank a < rank b) →
    (∀ e, e ∈ xs ↔ e ∈ ys) → xs = ys
  | [], [], _, _, _ => rfl
  | [], y :: ys, _, _, h => by simpa using (h y).mpr (by simp)
  | x :: xs, [], _, _, h => by simpa using (h x).mp (by simp)
  | x :: xs, y :: ys, hx, hy, h => by
    simp only [List.map_cons, List.pairwise_cons] at hx hy
    have below : ∀ {e : κ × α}, e ∈ xs → rank x.1 < rank e.1 := fun he =>
      hx.1 _ (List.mem_map.mpr ⟨_, he, rfl⟩)
    have below' : ∀ {e : κ × α}, e ∈ ys → rank y.1 < rank e.1 := fun he =>
      hy.1 _ (List.mem_map.mpr ⟨_, he, rfl⟩)
    have heads : x = y := by
      rcases List.mem_cons.mp ((h x).mp (by simp)) with hxy | hxy
      · exact hxy
      · rcases List.mem_cons.mp ((h y).mpr (by simp)) with hyx | hyx
        · exact hyx.symm
        · have h1 := below' hxy
          have h2 := below hyx
          omega
    subst heads
    congr 1
    refine eq_of_mem_iff xs ys hx.2 hy.2 fun e => ⟨fun he => ?_, fun he => ?_⟩
    · rcases List.mem_cons.mp ((h e).mp (by simp [he])) with rfl | h'
      · have := below he
        omega
      · exact h'
    · rcases List.mem_cons.mp ((h e).mpr (by simp [he])) with rfl | h'
      · have := below' he
        omega
      · exact h'

/-- Tables that answer every look-up alike are equal. -/
theorem ext_find? {s t : Table κ α} (h : ∀ k, s.find? k = t.find? k) : s = t := by
  have hm : ∀ e, e ∈ s.entries ↔ e ∈ t.entries := by
    rintro ⟨k, a⟩
    rw [← find?_eq_some_iff, ← find?_eq_some_iff, h]
  have := eq_of_mem_iff s.entries t.entries s.ascending t.ascending hm
  cases s
  cases t
  simp_all

end Table

end KernelCore
