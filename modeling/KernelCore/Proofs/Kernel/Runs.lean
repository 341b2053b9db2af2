import KernelCore.Kernel.Request
import KernelCore.Proofs.Paging.Serving
import KernelCore.Proofs.Scheduler.Layout

/-!
# Runs of the kernel

Whatever is asked of the kernel acts on memory as requests to memory do. So the memory of a kernel
is always one that memory requests lead to.
-/
namespace KernelCore.Kernel

open Transition

variable {α β : Type} {k : Kernel}

/-! ## Steps -/

section

variable {Q : α → Kernel → Prop} {E : Violation → Kernel → Prop}

theorem ends_schedule {t : Scheduling α} : (schedule t).Ends k Q E ↔
    t.Ends k.scheduler (fun x scheduler => Q x { k with scheduler })
      fun e scheduler => E e { k with scheduler } := ends_within

/-- A refusal of memory management is a value. -/
theorem ends_page {t : Paging α} {Q : Except MemoryError α → Kernel → Prop}
    (h : t.Ends k.memory (fun x memory => Q (.ok x) { k with memory })
      (fun e memory => match e with
        | .refused e => Q (.error e) { k with memory }
        | .violated x => E x { k with memory })) : (page t).Ends k Q E :=
  ends_within.mpr (Ends.onlyViolations h)

theorem ends_currentThread {th : Thread} {Q : Thread → Kernel → Prop}
    (found : k.scheduler.thread? k.scheduler.current = some th) :
    (schedule Scheduler.currentThread).Ends k Q E ↔ Q th k := by
  rw [ends_schedule]
  unfold Scheduler.currentThread
  rw [ends_bind, ends_get, Scheduler.ends_thread found]

end

/-! ## Memory -/

/-- A step that leads from memory that requests lead to, to memory that requests lead to. -/
def KeepsMemory (t : Running α) : Prop :=
  ∀ k : Kernel, k.memory.Reached → (t k).state.memory.Reached

namespace KeepsMemory

theorem pure (a : α) : KeepsMemory (pure a : Running α) := fun _ h => h

theorem gets (f : Kernel → α) : KeepsMemory (gets f) := fun _ h => h

theorem emit (severity : Severity) (message : String) :
    KeepsMemory (emit severity message : Running Unit) := fun _ h => h

theorem stop (x : Violation) : KeepsMemory (stop x : Running α) := fun _ h => h

theorem bind {t : Running α} {next : α → Running β} (first : KeepsMemory t)
    (rest : ∀ a, KeepsMemory (next a)) : KeepsMemory (t >>= next) := by
  intro k h
  rw [bind_apply]
  cases (t k).result with
  | ok a => exact rest a _ (first k h)
  | error x => exact first k h

/-- The scheduler leaves memory alone. -/
theorem schedule (t : Scheduling α) : KeepsMemory (schedule t) := fun _ h => h

theorem memory (r : VirtualMemory.Request) :
    KeepsMemory (within (·.memory) (fun memory k => { k with memory }) (VirtualMemory.perform r)) :=
  fun _ h => h.perform r

/-- A service that a request asks for leaves what the request leaves. -/
theorem page {t : Paging α} {r : VirtualMemory.Request} {reply : α → VirtualMemory.Reply}
    (serves : VirtualMemory.serve r = t >>= fun a => Pure.pure (reply a)) : KeepsMemory (page t) := by
  intro k h
  have served : (VirtualMemory.serve r k.memory).state = (t k.memory).state := by
    rw [serves, bind_apply]
    cases (t k.memory).result <;> rfl
  have same : (VirtualMemory.perform r k.memory).state = (t k.memory).state := by
    rw [← served, ← state_onlyViolations]
    unfold VirtualMemory.perform
    rw [bind_apply]
    rcases (onlyViolations (VirtualMemory.serve r) k.memory).result with _ | ⟨_ | _⟩ <;> rfl
  change ((onlyViolations t) k.memory).state.Reached
  rw [state_onlyViolations, ← same]
  exact h.perform r

end KeepsMemory

/-! ## Processes -/

/-- Giving up a space fails only if there is none. -/
theorem abandonSpace_ends (coherent : VirtualMemory.Coherent k.memory none)
    (regions : VirtualMemory.RegionsBacked k.memory) (space : SpaceId) (complaint : String)
    {E : Violation → Kernel → Prop} :
    (abandonSpace space complaint).Ends k
      (fun _ k' => k'.scheduler = k.scheduler ∧ ((k.memory.spaces.find? space).isSome = true →
        VirtualMemory.SpaceDestroyed k.memory space k'.memory)) E := by
  unfold abandonSpace
  rw [ends_bind]
  refine ends_page ((VirtualMemory.destroySpace_ends coherent regions).mono
    (fun _ _ destroyed => ⟨rfl, fun _ => destroyed⟩) fun e memory stopped => ?_)
  obtain ⟨⟨e, rfl⟩, missing, rfl⟩ := stopped
  refine ⟨rfl, fun live => ?_⟩
  rw [missing] at live
  cases live

theorem abandonSpace_keepsMemory (space : SpaceId) (complaint : String) :
    KeepsMemory (abandonSpace space complaint) := by
  refine .bind (.page (r := .destroySpace space) rfl) fun x => ?_
  cases x with
  | ok => exact .pure _
  | error e => exact .emit _ _

theorem exitProcess_keepsMemory (status : Int) : KeepsMemory (exitProcess status) := by
  refine .bind (.schedule _) fun th => ?_
  cases th.space with
  | none => exact .bind (.pure _) fun _ => .schedule _
  | some space =>
    exact .bind (abandonSpace_keepsMemory _ _) fun _ => .bind (.schedule _) fun _ => .schedule _

theorem pageFault_keepsMemory (a : VirtAddr) (flags : FaultFlags) (trapPointer : Nat) :
    KeepsMemory (pageFault a flags trapPointer) := by
  refine .bind (.schedule _) fun th => ?_
  cases th.space with
  | none => exact .stop _
  | some space =>
    refine .bind (.page (r := .fault space a flags (userPointerAt th flags trapPointer)) rfl)
      fun x => ?_
    cases x with
    | ok => exact .pure _
    | error e =>
      dsimp only
      split
      · exact .bind (.emit _ _) fun _ => .stop _
      · exact .bind (.emit _ _) fun _ => .bind (exitProcess_keepsMemory _) fun _ => .pure _

theorem spawnChild_keepsMemory (name : String) (parent child : SpaceId) :
    KeepsMemory (spawnChild name parent child) := by
  refine .bind (.schedule _) fun th => .bind (.schedule _) fun x => ?_
  cases x with
  | ok t =>
    exact .bind (.schedule _) fun _ => .bind (.gets _) fun _ => .bind (.emit _ _) fun _ => .pure _
  | error e =>
    exact .bind (.emit _ _) fun _ => .bind (abandonSpace_keepsMemory _ _) fun _ => .pure _

theorem fork_keepsMemory (name : String) : KeepsMemory (fork name) := by
  refine .bind (.schedule _) fun th => ?_
  cases th.space with
  | none => exact .pure _
  | some parent =>
    refine .bind (.page (r := .createSpace) rfl) fun x => ?_
    cases x with
    | error e => exact .pure _
    | ok child =>
      refine .bind (.page (r := .duplicateSpace parent child) rfl) fun x => ?_
      cases x with
      | ok => exact spawnChild_keepsMemory _ _ _
      | error e =>
        exact .bind (.emit _ _) fun _ => .bind (abandonSpace_keepsMemory _ _) fun _ => .pure _

/-! ## Requests -/

theorem externalInterrupt_keepsMemory {handler : Running α} (h : KeepsMemory handler) :
    KeepsMemory (externalInterrupt handler) :=
  .bind (.schedule _) fun _ => .bind h fun _ => .bind (.schedule _) fun _ => .pure _

mutual

theorem perform_keepsMemory : ∀ r, KeepsMemory (perform r)
  | .interrupt handler =>
    .bind (externalInterrupt_keepsMemory (performAll_keepsMemory handler)) fun _ => .pure _
  | .scheduler _ => .bind (.schedule _) fun _ => .pure _
  | .memory r => .bind (.memory r) fun _ => .pure _
  | .pageFault .. => .bind (pageFault_keepsMemory _ _ _) fun _ => .pure _
  | .enterSystemCall _ => .bind (.schedule _) fun _ => .pure _
  | .exitProcess _ => .bind (exitProcess_keepsMemory _) fun _ => .pure _
  | .fork _ => .bind (fork_keepsMemory _) fun _ => .pure _
  | .forkCall _ => .bind (fork_keepsMemory _) fun _ => .pure _

theorem performAll_keepsMemory : ∀ rs, KeepsMemory (performAll rs)
  | [] => .pure _
  | r :: rest =>
    .bind (perform_keepsMemory r) fun _ => .bind (.gets _) fun _ =>
      .bind (performAll_keepsMemory rest) fun _ => .pure _

end

/-! ## Runs -/

/-- The state after some requests, each of them made in the state the one before it left, whatever
that one stopped for. -/
def after (k : Kernel) (rs : List Request) : Kernel :=
  rs.foldl (fun k r => (perform r k).state) k

/-- Some requests made of some new kernel lead to the state. -/
def Reached (k : Kernel) : Prop :=
  ∃ feedback threads frames sectors first rs,
    (new feedback threads frames sectors).1 = .ok first ∧ k = after first rs

theorem memory_new {feedback : Bool} {threads frames sectors : Nat} {first : Kernel}
    (made : (new feedback threads frames sectors).1 = .ok first) :
    first.memory = (VirtualMemory.new frames sectors).1 := by
  unfold new at made
  dsimp only at made
  cases scheduler : (Scheduler.new feedback threads).1 with
  | error e =>
    rw [scheduler] at made
    cases made
  | ok s =>
    rw [scheduler] at made
    cases made
    rfl

theorem after_keepsMemory (h : k.memory.Reached) (rs : List Request) :
    (after k rs).memory.Reached := by
  induction rs generalizing k with
  | nil => exact h
  | cons r rest ih => exact ih (perform_keepsMemory r k h)

/-- The memory of a kernel is one that memory requests lead to. -/
theorem Reached.memory (h : Reached k) : k.memory.Reached := by
  obtain ⟨feedback, threads, frames, sectors, first, rs, made, rfl⟩ := h
  refine after_keepsMemory ?_ rs
  rw [memory_new made]
  exact VirtualMemory.reached_after frames sectors []

/-- A kernel for two threads. -/
def booted (frames sectors : Nat) : Kernel :=
  ⟨Scheduler.start false 2, (VirtualMemory.new frames sectors).1⟩

theorem reached_booted (frames sectors : Nat) (rs : List Request) :
    Reached (after (booted frames sectors) rs) :=
  ⟨false, 2, frames, sectors, _, rs, rfl, rfl⟩

end KernelCore.Kernel
