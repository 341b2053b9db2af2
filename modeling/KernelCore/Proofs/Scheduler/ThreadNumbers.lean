import KernelCore.Proofs.Transition
import KernelCore.Scheduler.Lifecycle

/-!
# Thread numbers

A new thread gets the next number, from the first one upwards. When all numbers have been handed
out, there are none until the counter has come round, and from then on threads get the same numbers
again. So that a number is a thread's own holds as long as numbers are left.
-/
namespace KernelCore

namespace TidAllocator

/-- What some allocations leave. -/
def after : Nat → TidAllocator
  | 0 => new
  | n + 1 => (after n).allocate.2

theorem next_after (n : Nat) : (after n).next = ((n : Int) + 1).bmod 4294967296 := by
  induction n with
  | zero => rfl
  | succ n ih =>
    rw [after, allocate, ih, Int.bmod_add_bmod, Int.natCast_succ]

/-- Where the counter is in its round. -/
private theorem bmod_cases (n : Nat) :
    ((n : Int) + 1).bmod 4294967296 = 1 + (n % 4294967296 : Nat) ∧ n % 4294967296 < 2147483647 ∨
      ((n : Int) + 1).bmod 4294967296 < 1 ∧ 2147483647 ≤ n % 4294967296 := by
  rw [Int.bmod_def]
  split <;> omega

/-- Every round of the counter hands out the same numbers, all of them once and in ascending order,
and then no more until the round is over. -/
theorem allocate_after (n : Nat) : (after n).allocate.1 =
    if firstTid + (n % 4294967296 : Nat) < lastTid then
      some (firstTid + (n % 4294967296 : Nat))
    else none := by
  rcases bmod_cases n with ⟨next, -⟩ | ⟨below, rest⟩
  · have here : (after n).next = firstTid + (n % 4294967296 : Nat) := (next_after n).trans next
    have positive : firstTid ≤ firstTid + (n % 4294967296 : Nat) :=
      Int.le_add_of_nonneg_right (Int.natCast_nonneg _)
    simp only [allocate, HasNumber, here, positive, true_and]
  · have used : ¬(after n).HasNumber := fun left =>
      absurd (next_after n ▸ left.1) (Int.not_le.mpr below)
    have last : lastTid ≤ firstTid + (n % 4294967296 : Nat) := by
      change (2147483647 : Int) ≤ 1 + (n % 4294967296 : Nat)
      omega
    rw [allocate, if_neg used, if_neg (Int.not_lt.mpr last)]

end TidAllocator

namespace Scheduler

open Transition

variable {s : Scheduler}

/-- If there is room for one more thread, then there is a number for it. -/
def NumbersLeft (s : Scheduler) : Prop := s.threads.size < s.capacity → s.allocator.HasNumber

instance (s : Scheduler) : Decidable s.NumbersLeft := inferInstanceAs (Decidable (_ → _))

/-- What asking for the number of a new thread leads to. -/
inductive Reserved (s : Scheduler) : Except SchedulerError Tid → Scheduler → Prop
  | full (full : s.capacity ≤ s.threads.size) : Reserved s (.error .outOfThreads) s
  /-- The counter moves on although there is no number. -/
  | usedUp (room : s.threads.size < s.capacity) (none : ¬s.allocator.HasNumber) :
      Reserved s (.error .outOfThreads) { s with allocator := s.allocator.allocate.2 }
  | given (room : s.threads.size < s.capacity) (left : s.allocator.HasNumber) :
      Reserved s (.ok s.allocator.next) { s with allocator := ⟨s.allocator.next + 1⟩ }

theorem reserve_ends {E : Violation → Scheduler → Prop} (name : String) :
    (reserve name).Ends s (fun reserved s' => Reserved s reserved s') E := by
  unfold reserve
  rw [ends_bind, ends_get, ends_ite]
  refine ⟨fun full => .full full, fun room => ?_⟩
  have room : s.threads.size < s.capacity := Nat.lt_of_not_le room
  rw [ends_bind, ends_modify]
  by_cases left : s.allocator.HasNumber
  · rw [TidAllocator.allocate_of_hasNumber left]
    exact .given room left
  · rw [TidAllocator.allocate_fst_of_not_hasNumber left]
    exact .usedUp room left

/-- A refusal changes nothing but where the counter is, and not even that if numbers are left. -/
structure LeftAlone (s s' : Scheduler) : Prop where
  rest : s' = { s with allocator := s'.allocator }
  same : s.NumbersLeft → s' = s

theorem LeftAlone.refl (s : Scheduler) : LeftAlone s s := ⟨rfl, fun _ => rfl⟩

end Scheduler

end KernelCore
