import Mathlib.Data.List.Perm.Subperm
import KernelCore.Proofs.Scheduler.Histories
import KernelCore.Proofs.Scheduler.Population

/-!
# The lives of threads

A thread's number is its own for good. It lives until it exits, and what it exits with is kept. Its
control block outlives it until the decision after the one that leaves it, but nothing else does:
from then on it is named nowhere.
-/
namespace KernelCore

/-- A table with no other keys has no more entries. -/
theorem Table.size_le_of_keys {κ α β : Type} [Ranked κ] {t : Table κ α} {u : Table κ β}
    (sub : ∀ k, t.find? k ≠ none → u.find? k ≠ none) : t.size ≤ u.size := by
  have keys : t.keys ⊆ u.keys := by
    intro k mem
    rw [← contains_iff, contains, Option.isSome_iff_ne_none] at mem ⊢
    exact sub k mem
  have fewer := (List.Nodup.subperm t.keys_nodup keys).length_le
  simpa [Table.keys, Table.size] using fewer

namespace Scheduler

open Transition

/-! ## What an event does to the population -/

inductive Turn (s : Scheduler) : Event → Scheduler → Prop
  | plain {e : Event} {s' : Scheduler} (plain : ∀ r, e = .request r → ¬r.Populates)
      (follows : s.Follows s') : Turn s e s'
  | refused {name : String} {priority : Int} {space : Option SpaceId} {argument : Nat}
      {e : SchedulerError}
      (replied : (perform (.spawn name priority space argument) s).result = .ok (.refused e)) :
      Turn s (.request (.spawn name priority space argument)) s
  | spawned {name : String} {priority : Int} {space : Option SpaceId} {argument : Nat} {th : Thread}
      {s' : Scheduler}
      (replied : (perform (.spawn name priority space argument) s).result = .ok (.tid s.allocator.next))
      (room : s.threads.size < s.capacity) (blocked : th.state = .blocked)
      (follows : (s.enrol th).Follows s') : Turn s (.request (.spawn name priority space argument)) s'
  | exited {status : Int} {s' : Scheduler} (departed : Departed status s s') :
      Turn s (.request (.exit status)) s'

section

variable {R : Prop} {P : Set Tid} {s s' : Scheduler} {t : Tid}

/-- Spawning a thread replies with its number, or with a refusal. -/
theorem perform_spawn_population (h : Orderly R P s.layout) (left : s.NumbersLeft) (name : String)
    (priority : Int) (space : Option SpaceId) (argument : Nat) :
    (perform (.spawn name priority space argument)).Ends s (fun reply s' =>
      (∃ e, reply = .refused e ∧ s' = s) ∨
        reply = .tid s.allocator.next ∧ s.threads.size < s.capacity ∧
          ∃ th : Thread, th.state = .blocked ∧ (s.enrol th).Follows s') fun _ _ => True := by
  apply ends_bind.mpr
  refine (spawn_population h left name priority argument space).imp fun result s' outcome => ?_
  rcases outcome with ⟨e, rfl, same⟩ | ⟨rfl, born⟩
  · exact .inl ⟨e, rfl, same⟩
  · exact .inr ⟨rfl, born⟩

theorem Event.happen_turns {e : Event} (h : Orderly R P s.layout) (possible : e.Possible s) :
    e.happen.Ends s (fun _ s' => Turn s e s') fun _ _ => True := by
  have begun : s.Follows s := ⟨living_of_orderly h, .inl rfl⟩
  cases e with
  | enter =>
    apply ends_bind.mpr
    refine (follows_of_preserves preserves_enterHandler s begun).imp fun _ s' follows => ?_
    exact .plain (by simp) follows
  | leave level =>
    exact (leaveHandler_follows s begun).imp fun _ s' follows => .plain (by simp) follows
  | request r =>
    apply ends_bind.mpr
    by_cases populates : r.Populates
    · cases r with
      | spawn name priority space argument =>
        refine (Ends.and Ends.self (perform_spawn_population h possible name priority space argument)).mono
          (fun reply s' both => ?_) fun _ _ _ => trivial
        obtain ⟨⟨replied, -⟩, ⟨e, rfl, rfl⟩ | ⟨rfl, room, th, blocked, follows⟩⟩ := both
        · exact .refused replied
        · exact .spawned replied room blocked follows
      | exit status =>
        apply ends_bind.mpr
        exact (exit_population h status).imp fun _ s' departed => .exited departed
      | _ => exact populates.elim
    · have single : ∀ handler, r ≠ .interrupt handler := by
        rintro handler rfl
        exact possible
      refine (perform_follows populates single s begun).imp fun _ s' follows => .plain ?_ follows
      intro r' same
      rwa [← Event.request.inj same]

theorem Lived.records (h : Lived s s') : s'.records = s.records := by
  rcases h with same | thinned
  · exact congrArg Prod.fst same
  · exact thinned.records

/-- Nobody goes but those who wait to be reclaimed. -/
theorem Lived.exited? (h : Lived s s') (t : Tid) :
    s'.exited? t = s.exited? t ∨ t ∈ s.dying ∧ s'.exited? t = none := by
  rcases h with same | thinned
  · exact .inl (congrFun (congrArg (fun c => c.2.1) same) t)
  · rw [thinned.exited]
    split
    · exact .inr ⟨‹_›, rfl⟩
    · exact .inl rfl

theorem exited?_eq_none : s.exited? t = none ↔ s.thread? t = none := Option.map_eq_none_iff

end

/-! ## What a history tells -/

/-- The number of the thread that was spawned. -/
def Occurrence.tid? (o : Occurrence) : Option Tid :=
  match o.event with
  | .request (.spawn name priority space argument) =>
    match (perform (.spawn name priority space argument) o.before).result with
    | .ok (.tid t) => some t
    | _ => none
  | _ => none

/-- What the thread exited with. -/
def Occurrence.status? (t : Tid) (o : Occurrence) : Option Int :=
  match o.event with
  | .request (.exit status) => if o.before.current = t then some status else none
  | _ => none

/-- The numbers that have been given to threads, the latest one first. -/
def numbers (past : List Occurrence) (s : Scheduler) : List Tid :=
  past.filterMap Occurrence.tid? ++ [s.idle, s.main]

/-- All that the thread has ever exited with. -/
def statuses (t : Tid) (past : List Occurrence) : List Int := past.filterMap (Occurrence.status? t)

/-- The thread has exited, and the processor has not been switched since it was taken from it. -/
def LeftLast (past : List Occurrence) (t : Tid) : Prop :=
  ∃ later o earlier status, past = later ++ o :: earlier ∧ o.event = .request (.exit status) ∧
    o.before.current = t ∧ o.after.switches = o.before.switches + 1 ∧
    ∀ o' ∈ later, o'.after.switches = o'.before.switches

/-- Nobody has exited. -/
structure Peaceful (s : Scheduler) (e : Event) (s' : Scheduler) : Prop where
  status : ∀ t, Occurrence.status? t ⟨s, e⟩ = none
  statuses : s'.exitStatuses = s.exitStatuses
  fate : ∀ t, s'.exited? t = s.exited? t ∨ t ∈ s.dying ∧ s'.exited? t = none ∨
    t = s.allocator.next ∧ s'.exited? t = some false
  left : s'.dying = s.dying ∧ s'.current = s.current ∧ s'.switches = s.switches ∨
    s'.dying = [] ∧ ∀ t ∈ s.dying, s'.exited? t = none

section

variable {s s' : Scheduler} {e : Event} {t : Tid}

theorem Turn.records (turn : Turn s e s') :
    s'.main = s.main ∧ s'.idle = s.idle ∧ s'.capacity = s.capacity := by
  cases turn with
  | plain _ follows =>
    have same := follows.lived.records
    simp only [Scheduler.records, Prod.mk.injEq] at same
    exact ⟨same.1, same.2.1, same.2.2.1⟩
  | refused => exact ⟨rfl, rfl, rfl⟩
  | spawned _ _ _ follows =>
    have same := follows.lived.records
    simp only [Scheduler.records, Prod.mk.injEq] at same
    exact ⟨same.1, same.2.1, same.2.2.1⟩
  | exited departed =>
    have same := departed.records
    simp only [Scheduler.records, Prod.mk.injEq] at same
    exact ⟨same.1, same.2.1, same.2.2.1⟩

theorem tid?_of_plain (plain : ∀ r, e = .request r → ¬r.Populates) : Occurrence.tid? ⟨s, e⟩ = none := by
  cases e with
  | request r =>
    cases r with
    | spawn name priority space argument => exact absurd trivial (plain _ rfl)
    | _ => rfl
  | _ => rfl

theorem status?_of_plain (plain : ∀ r, e = .request r → ¬r.Populates) :
    Occurrence.status? t ⟨s, e⟩ = none := by
  cases e with
  | request r =>
    cases r with
    | exit status => exact absurd trivial (plain _ rfl)
    | _ => rfl
  | _ => rfl

theorem Lived.known (h : Lived s s') (known : s'.thread? t ≠ none) : s.thread? t ≠ none := by
  rw [Ne, ← exited?_eq_none] at known ⊢
  rcases h.exited? t with same | ⟨-, gone⟩
  · rwa [← same]
  · exact absurd gone known

theorem known_enrol {th : Thread} (known : (s.enrol th).thread? t ≠ none) :
    t = s.allocator.next ∨ s.thread? t ≠ none := by
  rw [enrol, thread?, Table.find?_insert] at known
  split at known
  · exact .inl ‹_›
  · exact .inr known

/-- Threads come one at a time, under the next free number, and only if there is room. -/
theorem Turn.numbering (turn : Turn s e s') (living : Living s) :
    Occurrence.tid? ⟨s, e⟩ = none ∧ s'.allocator = s.allocator ∧
        (∀ t, s'.thread? t ≠ none → s.thread? t ≠ none) ∨
      Occurrence.tid? ⟨s, e⟩ = some s.allocator.next ∧ s'.allocator.next = s.allocator.next + 1 ∧
        s.threads.size < s.capacity ∧ s'.threads.size ≤ s.threads.size + 1 ∧
        ∀ t, s'.thread? t ≠ none → t = s.allocator.next ∨ s.thread? t ≠ none := by
  cases turn with
  | plain plain follows =>
    have same := congrArg (fun r => r.2.2.2.1) follows.lived.records
    exact .inl ⟨tid?_of_plain plain, same, fun t => follows.lived.known⟩
  | refused replied => exact .inl ⟨by simp [Occurrence.tid?, replied], rfl, fun t => id⟩
  | @spawned _ _ _ _ th _ replied room _ follows =>
    have same := congrArg (fun r => r.2.2.2.1.next) follows.lived.records
    refine .inr ⟨by simp [Occurrence.tid?, replied], same, room, ?_, fun t known =>
      known_enrol (follows.lived.known known)⟩
    have fewer : s'.threads.size ≤ (s.enrol th).threads.size :=
      Table.size_le_of_keys fun t => follows.lived.known
    exact fewer.trans (Table.size_insert_le _ _ _)
  | exited departed =>
    have same := congrArg (fun r => r.2.2.2.1) departed.records
    refine .inl ⟨rfl, same, fun t known => ?_⟩
    rw [Ne, ← exited?_eq_none] at known ⊢
    intro absent
    refine known ?_
    rw [departed.exited]
    split
    · rfl
    · rw [if_neg fun own => by simp [own, living.current] at absent]
      exact absent

/-- Those who wait to be reclaimed still do, or are gone. -/
theorem Lived.left (h : Lived s s') :
    s'.dying = s.dying ∧ s'.current = s.current ∧ s'.switches = s.switches ∨
      s'.dying = [] ∧ ∀ t ∈ s.dying, s'.exited? t = none := by
  rcases h with same | thinned
  · simp only [census, Prod.mk.injEq] at same
    obtain ⟨-, -, -, current, dying, switches⟩ := same
    exact .inl ⟨dying, current, switches⟩
  · refine .inr ⟨thinned.dying, fun t gone => ?_⟩
    rw [thinned.exited, if_pos gone]

/-- Unless the current thread exits, no thread does. -/
theorem Turn.peaceful_or_departed (turn : Turn s e s') :
    Peaceful s e s' ∨ ∃ status, e = .request (.exit status) ∧ Departed status s s' := by
  cases turn with
  | plain plain follows =>
    exact .inl ⟨fun t => status?_of_plain plain, congrArg (fun r => r.2.2.2.2) follows.lived.records,
      fun t => (follows.lived.exited? t).imp_right .inl, follows.lived.left⟩
  | refused => exact .inl ⟨fun t => rfl, rfl, fun t => .inl rfl, .inl ⟨rfl, rfl, rfl⟩⟩
  | spawned _ _ blocked follows =>
    refine .inl ⟨fun t => rfl, congrArg (fun r => r.2.2.2.2) follows.lived.records, fun t => ?_,
      follows.lived.left⟩
    rcases follows.lived.exited? t with same | gone
    · rw [same, exited?_enrol blocked]
      by_cases new : t = s.allocator.next
      · exact .inr (.inr ⟨new, if_pos new⟩)
      · exact .inl (if_neg new)
    · exact .inr (.inl gone)
  | @exited status _ departed => exact .inr ⟨status, rfl, departed⟩

end

/-! ## What holds in every state of a history -/

/-- Numbers are handed out once, and the table never overflows. -/
structure Numbered (capacity : Nat) (past : List Occurrence) (s : Scheduler) : Prop where
  main : s.main = 1
  idle : s.idle = 2
  limit : s.capacity = capacity
  descending : (numbers past s).Pairwise (· > ·)
  counted : s.allocator.next = (numbers past s).length + 1
  handedOut : ∀ t ∈ numbers past s, t < s.allocator.next
  known : ∀ t, s.thread? t ≠ none → t ∈ numbers past s
  room : s.threads.size ≤ capacity

/-- Whoever has exited and is still there is the first thread or waits to be reclaimed. -/
structure Buried (past : List Occurrence) (s : Scheduler) : Prop where
  first : s.thread? s.main ≠ none
  kept : s.main ∉ s.dying
  doomed : ∀ t, s.exited? t = some true → t ≠ s.main → s.dying = [t] ∧ LeftLast past t

/-- What threads have exited with is known of them, and of no thread that lives. -/
structure Recorded (past : List Occurrence) (s : Scheduler) : Prop where
  statuses : ∀ t, Scheduler.statuses t past = (s.exitStatus t).toList
  exited : ∀ t, s.exited? t = some true → s.exitStatus t ≠ none
  gone : ∀ t, s.exitStatus t ≠ none → s.exited? t ≠ some false ∧ t < s.allocator.next

section

variable {s s' : Scheduler} {e : Event} {capacity : Nat} {past : List Occurrence} {t : Tid}

theorem Numbered.turn (h : Numbered capacity past s) (turn : Turn s e s') (living : Living s) :
    Numbered capacity (⟨s, e⟩ :: past) s' := by
  obtain ⟨main, idle, limit⟩ := turn.records
  rcases turn.numbering living with ⟨none, allocator, known⟩ | ⟨tid, next, room, size, known⟩
  · have same : numbers (⟨s, e⟩ :: past) s' = numbers past s := by
      rw [numbers, List.filterMap_cons_none none, main, idle, numbers]
    constructor
    case main => rw [main, h.main]
    case idle => rw [idle, h.idle]
    case limit => rw [limit, h.limit]
    case descending => exact same ▸ h.descending
    case counted => rw [same, allocator, h.counted]
    case handedOut =>
      rw [same, allocator]
      exact h.handedOut
    case known => exact fun t here => same ▸ h.known t (known t here)
    case room => exact (Table.size_le_of_keys known).trans h.room
  · have more : numbers (⟨s, e⟩ :: past) s' = s.allocator.next :: numbers past s := by
      rw [numbers, List.filterMap_cons_some tid, main, idle, numbers]
      rfl
    constructor
    case main => rw [main, h.main]
    case idle => rw [idle, h.idle]
    case limit => rw [limit, h.limit]
    case descending =>
      rw [more, List.pairwise_cons]
      exact ⟨h.handedOut, h.descending⟩
    case counted => rw [more, next, h.counted, List.length_cons, Int.natCast_succ]
    case handedOut =>
      rw [more, next]
      intro t mem
      rcases List.mem_cons.mp mem with rfl | mem
      · exact Int.lt_succ _
      · exact Int.lt_trans (h.handedOut t mem) (Int.lt_succ _)
    case known =>
      intro t here
      rw [more, List.mem_cons]
      exact (known t here).imp_right (h.known t)
    case room =>
      have limit := h.limit
      omega

theorem Recorded.peaceful (h : Recorded past s) (peaceful : Peaceful s e s')
    (grows : s.allocator.next ≤ s'.allocator.next) : Recorded (⟨s, e⟩ :: past) s' := by
  have same : ∀ t, s'.exitStatus t = s.exitStatus t := by
    intro t
    rw [exitStatus, peaceful.statuses, exitStatus]
  constructor
  case statuses =>
    intro t
    rw [Scheduler.statuses, List.filterMap_cons_none (peaceful.status t), same]
    exact h.statuses t
  case exited =>
    intro t dead
    rw [same]
    rcases peaceful.fate t with kept | ⟨-, gone⟩ | ⟨-, alive⟩
    · exact h.exited t (kept ▸ dead)
    · simp [gone] at dead
    · simp [alive] at dead
  case gone =>
    intro t recorded
    rw [same] at recorded
    obtain ⟨dead, lt⟩ := h.gone t recorded
    refine ⟨?_, Int.lt_of_lt_of_le lt grows⟩
    rcases peaceful.fate t with kept | ⟨-, gone⟩ | ⟨new, -⟩
    · rwa [kept]
    · simp [gone]
    · exact absurd new (Int.ne_of_lt lt)

/-- A thread that lives has no status yet, and what it exits with is recorded. -/
theorem Recorded.departed {status : Int} (h : Recorded past s) (departed : Departed status s s')
    (living : Living s) (numbered : s.current < s.allocator.next)
    (grows : s.allocator.next ≤ s'.allocator.next) :
    Recorded (⟨s, .request (.exit status)⟩ :: past) s' := by
  have unrecorded : s.exitStatus s.current = none := by
    by_contra recorded
    exact (h.gone _ recorded).1 living.current
  have inserted : ∀ t, s'.exitStatus t = if t = s.current then some status else s.exitStatus t := by
    intro t
    have statuses : s'.exitStatuses = s.exitStatuses.insert s.current status :=
      congrArg (fun r => r.2.2.2.2) departed.records
    rw [exitStatus, statuses, Table.find?_insert]
    rfl
  constructor
  case statuses =>
    intro t
    rw [inserted]
    by_cases own : t = s.current
    · rw [if_pos own, Scheduler.statuses,
        List.filterMap_cons_some (b := status) (by simp [Occurrence.status?, own])]
      have none := h.statuses t
      rw [own, unrecorded] at none
      rw [own]
      exact congrArg (status :: ·) none
    · rw [if_neg own, Scheduler.statuses,
        List.filterMap_cons_none (by simp [Occurrence.status?, Ne.symm own])]
      exact h.statuses t
  case exited =>
    intro t dead
    rw [inserted]
    split
    · simp
    · rename_i other
      rw [departed.exited, if_neg other] at dead
      split at dead
      · cases dead
      · exact h.exited t dead
  case gone =>
    intro t recorded
    rw [inserted] at recorded
    rw [departed.exited]
    by_cases own : t = s.current
    · rw [own, if_pos rfl]
      exact ⟨by split <;> simp, Int.lt_of_lt_of_le numbered grows⟩
    · rw [if_neg own] at recorded ⊢
      obtain ⟨dead, lt⟩ := h.gone t recorded
      refine ⟨?_, Int.lt_of_lt_of_le lt grows⟩
      split
      · simp
      · exact dead

theorem Recorded.turn (h : Recorded past s) (turn : Turn s e s') (living : Living s)
    (numbered : s.current < s.allocator.next) (grows : s.allocator.next ≤ s'.allocator.next) :
    Recorded (⟨s, e⟩ :: past) s' := by
  rcases turn.peaceful_or_departed with peaceful | ⟨status, rfl, departed⟩
  · exact h.peaceful peaceful grows
  · exact h.departed departed living numbered grows

/-- The thread that exited last waits to be reclaimed until the next decision. -/
theorem Buried.peaceful (h : Buried past s) (peaceful : Peaceful s e s') (main : s'.main = s.main)
    (same : (e.happen s).state = s') : Buried (⟨s, e⟩ :: past) s' := by
  constructor
  case first =>
    have first := h.first
    rw [Ne, ← exited?_eq_none] at first ⊢
    rw [main]
    rcases peaceful.fate s.main with kept | ⟨doomed, -⟩ | ⟨-, alive⟩
    · rwa [kept]
    · exact absurd doomed h.kept
    · simp [alive]
  case kept =>
    rw [main]
    rcases peaceful.left with ⟨dying, -, -⟩ | ⟨dying, -⟩
    · exact dying ▸ h.kept
    · simp [dying]
  case doomed =>
    intro t dead other
    rcases peaceful.fate t with kept | ⟨-, gone⟩ | ⟨-, alive⟩
    · obtain ⟨doomed, later, o, earlier, status, rfl, exits, own, switched, stays⟩ :=
        h.doomed t (kept ▸ dead) (main ▸ other)
      rcases peaceful.left with ⟨dying, -, switches⟩ | ⟨-, gone⟩
      · refine ⟨dying.trans doomed, ⟨s, e⟩ :: later, o, earlier, status, rfl, exits, own, switched,
          ?_⟩
        intro o' mem
        rcases List.mem_cons.mp mem with rfl | mem
        · rw [Occurrence.after, same, switches]
        · exact stays o' mem
      · simp [gone t (by simp [doomed])] at dead
    · simp [gone] at dead
    · simp [alive] at dead

/-- Unless it is the first thread, the one that exits is the only one to be reclaimed. -/
theorem Buried.departed {status : Int} (h : Buried past s) (departed : Departed status s s')
    (main : s'.main = s.main) (same : ((Event.request (.exit status)).happen s).state = s') :
    Buried (⟨s, .request (.exit status)⟩ :: past) s' := by
  constructor
  case first =>
    have first := h.first
    rw [Ne, ← exited?_eq_none] at first ⊢
    rw [main, departed.exited, if_neg h.kept]
    split
    · simp
    · exact first
  case kept =>
    rw [main, departed.dying]
    split
    · simp
    · rename_i other
      simpa using Ne.symm other
  case doomed =>
    intro t dead other
    rw [departed.exited] at dead
    split at dead
    · cases dead
    · rename_i stays
      split at dead
      · rename_i own
        subst own
        rw [main] at other
        refine ⟨by rw [departed.dying, if_neg other], [], _, past, status, rfl, rfl, rfl, ?_, by simp⟩
        rw [Occurrence.after, same]
        exact departed.switches
      · -- Another thread that had exited before would be reclaimed by this very decision.
        obtain ⟨doomed, -⟩ := h.doomed t dead (main ▸ other)
        exact absurd (by simp [doomed]) stays

theorem Buried.turn (h : Buried past s) (turn : Turn s e s') (same : (e.happen s).state = s') :
    Buried (⟨s, e⟩ :: past) s' := by
  rcases turn.peaceful_or_departed with peaceful | ⟨status, rfl, departed⟩
  · exact h.peaceful peaceful turn.records.1 same
  · exact h.departed departed turn.records.1 same

end

/-- A thread that lives no longer is named nowhere, whether or not its control block is still there. -/
structure Finished (s : Scheduler) (t : Tid) : Prop where
  dying : ∀ th, s.thread? t = some th → th.state = .dying ∧ th.heldLocks = []
  notCurrent : t ≠ s.current
  queues : ∀ m, t ∉ s.queue m
  locks : ∀ l, s.holder l ≠ some t

theorem finished_of_orderly {R : Prop} {P : Set Tid} {s : Scheduler} {t : Tid}
    (h : Orderly R P s.layout) (dead : s.exited? t ≠ some false) : Finished s t := by
  have dying : ∀ p, s.layout.place t = some p → p.state = .dying := by
    intro p known
    rw [exited?_of_place known] at dead
    simpa using dead
  constructor
  case dying =>
    intro th found
    have known := place_of_thread found
    have dead := dying th.place known
    exact ⟨dead, ((h.proper t th.place known).dying dead).2⟩
  case notCurrent =>
    rintro rfl
    exact dead (living_of_orderly h).current
  case queues =>
    intro m mem
    have queue : m ≠ .none := by
      rintro rfl
      exact absurd mem List.not_mem_nil
    obtain ⟨p, known, there⟩ := h.exists_of_mem_queue queue mem
    exact queue (there ▸ ((h.proper t p known).dying (dying p known)).1)
  case locks =>
    intro l holds
    obtain ⟨p, known, held⟩ := (h.holds l t).mp holds
    rw [((h.proper t p known).dying (dying p known)).2] at held
    cases held

namespace History

variable {feedback : Bool} {capacity : Nat} {allows : Scheduler → Event → Scheduler → Prop}
  {past : List Occurrence} {s : Scheduler}

/-- What happened last happened in a state that has a history of its own. -/
theorem before (history : History feedback capacity allows past s) {o : Occurrence} (mem : o ∈ past) :
    ∃ later earlier, past = later ++ o :: earlier ∧
      History feedback capacity allows earlier o.before := by
  induction history with
  | start => cases mem
  | @next past s e history _ _ _ ih =>
    rcases List.mem_cons.mp mem with rfl | mem
    · exact ⟨[], past, rfl, history⟩
    · obtain ⟨later, earlier, rfl, history'⟩ := ih mem
      exact ⟨⟨s, e⟩ :: later, earlier, rfl, history'⟩

theorem chronicled (roomy : 2 ≤ capacity) (busy : IdleNeverWaits allows)
    (history : History feedback capacity allows past s) :
    Numbered capacity past s ∧ Buried past s ∧ Recorded past s := by
  induction history with
  | start =>
    have thread? := thread?_start feedback capacity
    have alive : ∀ t, (Scheduler.start feedback capacity).exited? t ≠ some true := by
      intro t
      rw [exited?, thread?]
      split
      · simp [Thread.create]
      · split <;> simp
    have descending : ([2, 1] : List Tid).Pairwise (· > ·) := by decide
    have handedOut : ∀ t ∈ ([2, 1] : List Tid), t < 3 := by decide
    refine ⟨⟨rfl, rfl, rfl, descending, rfl, handedOut, fun t known => ?_, roomy⟩,
      ⟨?_, List.not_mem_nil, fun t dead => absurd dead (alive t)⟩,
      ⟨fun t => rfl, fun t dead => absurd dead (alive t), fun t recorded => absurd rfl recorded⟩⟩
    · rw [thread?] at known
      split at known
      · simp [numbers, ‹t = 2›]
      · split at known
        · simp [numbers, ‹t = 1›]
        · exact absurd rfl known
    · rw [thread?]
      simp
  | @next past s e history possible succeeds allowed ih =>
    obtain ⟨numbered, buried, recorded⟩ := ih
    obtain ⟨P, run⟩ := history.run
    have orderly := (run.sound (R := False) busy (by simp)).orderly
    have turn := (Event.happen_turns orderly possible).of_ok succeeds
    have living := living_of_orderly orderly
    have known : s.thread? s.current ≠ none := by
      rw [Ne, ← exited?_eq_none, living.current]
      simp
    refine ⟨numbered.turn turn living, buried.turn turn rfl, recorded.turn turn living
      (numbered.handedOut _ (numbered.known _ known)) ?_⟩
    rcases turn.numbering living with ⟨-, same, -⟩ | ⟨-, next, -⟩
    · rw [same]
    · rw [next]
      exact Int.le_of_lt (Int.lt_succ _)

/-- Numbers are left as long as fewer threads have been created than there are numbers. -/
theorem numbersLeft (roomy : 2 ≤ capacity) (busy : IdleNeverWaits allows)
    (history : History feedback capacity allows past s)
    (fewer : (numbers past s).length < 2147483646) : s.NumbersLeft := by
  intro _
  have counted := (history.chronicled roomy busy).1.counted
  unfold TidAllocator.HasNumber
  rw [counted]
  constructor
  · exact Int.le_add_of_nonneg_left (Int.natCast_nonneg _)
  · have last : ((numbers past s).length + 1 : Int) < 2147483647 := by omega
    exact last

/-- A status that has been recorded stays for good. -/
theorem lasting (roomy : 2 ≤ capacity) (busy : IdleNeverWaits allows)
    (history : History feedback capacity allows past s) {o : Occurrence} (mem : o ∈ past) {t : Tid}
    {status : Int} (recorded : o.before.exitStatus t = some status) : s.exitStatus t = some status := by
  obtain ⟨later, earlier, rfl, history'⟩ := history.before mem
  have first : [status] = statuses t earlier := by
    rw [(history'.chronicled roomy busy).2.2.statuses t, recorded]
    rfl
  have all : (statuses t earlier).Sublist (s.exitStatus t).toList := by
    rw [← (history.chronicled roomy busy).2.2.statuses t]
    exact ((List.sublist_cons_self o earlier).trans (List.sublist_append_right later _)).filterMap _
  rw [← first, List.singleton_sublist] at all
  simpa using all

/-- Whoever has exited, now or before, is finished. -/
theorem finished (roomy : 2 ≤ capacity) (busy : IdleNeverWaits allows)
    (history : History feedback capacity allows past s) {t : Tid}
    (dead : s.exited? t = some true ∨ ∃ o ∈ past, o.before.exited? t = some true) : Finished s t := by
  obtain ⟨P, run⟩ := history.run
  have orderly := (run.sound (R := False) busy (by simp)).orderly
  apply finished_of_orderly orderly
  rcases dead with dead | ⟨o, mem, dead⟩
  · simp [dead]
  · obtain ⟨later, earlier, rfl, history'⟩ := history.before mem
    have recorded := (history'.chronicled roomy busy).2.2.exited t dead
    obtain ⟨status, recorded⟩ := Option.ne_none_iff_exists'.mp recorded
    have still := history.lasting roomy busy mem recorded
    exact ((history.chronicled roomy busy).2.2.gone t (by simp [still])).1

/-- The first thread spawns a more urgent one, which exits at once. -/
private def joined : Scheduler :=
  ((Event.request (.spawn "brief" 40 none 0)).happen (Scheduler.start false 4)).state

end History

end Scheduler

end KernelCore
