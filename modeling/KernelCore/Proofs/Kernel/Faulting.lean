import KernelCore.Proofs.Kernel.Runs
import KernelCore.Proofs.Paging.Faulting

/-!
# Faults of processes

A process that accesses a page of its own, as the page permits, is not killed for it, unless room
has to be made for the page and the page that is to leave memory cannot go back to its file. That
page may be one of another process.
-/
namespace KernelCore.Kernel

open Transition

variable {k : Kernel} {th : Thread} {space : SpaceId} {a : VirtAddr} {p : Page}
  {flags : FaultFlags} {trapPointer : Nat}

/-- The thread that runs is bound to the space. -/
structure RunsIn (k : Kernel) (th : Thread) (space : SpaceId) : Prop where
  thread : k.scheduler.thread? k.scheduler.current = some th
  space : th.space = some space

/-- The page of the address, which a user program may access as the fault says it does. -/
structure Permitted (k : Kernel) (space : SpaceId) (a : VirtAddr) (flags : FaultFlags) (p : Page) :
    Prop where
  page : VirtualMemory.pageIn? k.memory.spaces space a.floor = some p
  notPresent : flags.isNotPresent = true
  permits : flags.isWrite = true → p.writable = true

theorem pageFault_ends (runs : RunsIn k th space) {Q : FaultOutcome → Kernel → Prop}
    {E : Violation → Kernel → Prop}
    (h : (VirtualMemory.handleFault space a flags (userPointerAt th flags trapPointer)).Ends k.memory
      (fun _ memory => Q .resumed { k with memory })
      (fun e memory => match e with
        | .refused e =>
          if e.isFatal then E (.exhausted e) { k with memory }
          else (exitProcess (-1)).Ends { k with memory } (fun _ k' => Q .killed k') E
        | .violated x => E x { k with memory })) :
    (pageFault a flags trapPointer).Ends k Q E := by
  unfold pageFault
  rw [ends_bind, ends_currentThread runs.thread, runs.space]
  dsimp only
  rw [ends_bind]
  refine ends_page (h.mono (fun _ _ h => h) fun e memory stopped => ?_)
  cases e with
  | violated x => exact stopped
  | refused e =>
    dsimp only at stopped ⊢
    split
    · rename_i fatal
      rw [if_pos fatal] at stopped
      exact stopped
    · rename_i mild
      rw [if_neg mild] at stopped
      simp only [ends_bind, ends_emit, ends_pure]
      exact stopped

/-- In every state that requests lead to: a process that accesses a page of its own as the page
permits, and whose page can be loaded, goes on, or the machine has run out of frames or of swap,
provided that every changed page of a file can go back to it. -/
theorem pageFault_not_killed (reached : Reached k) (runs : RunsIn k th space)
    (permitted : Permitted k space a flags p) (loads : k.memory.Loadable p)
    (unhampered : k.memory.Unhampered) :
    (pageFault a flags trapPointer k).result = .ok .resumed ∨
      (pageFault a flags trapPointer k).result = .error (.exhausted .outOfMemory) ∨
      (pageFault a flags trapPointer k).result = .error (.exhausted .outOfSwap) := by
  obtain ⟨coherent, -⟩ := reached.memory.inOrder
  have ends : (pageFault a flags trapPointer).Ends k (fun outcome _ => outcome = .resumed)
      (fun x _ => x = .exhausted .outOfMemory ∨ x = .exhausted .outOfSwap) := by
    refine pageFault_ends runs ?_
    refine (VirtualMemory.handleFault_ends_of_loadable coherent permitted.page
      permitted.notPresent permitted.permits loads).mono (fun _ _ _ => rfl) fun e memory reason => ?_
    rcases reason.isFatal unhampered with rfl | rfl
    · exact .inl rfl
    · exact .inr rfl
  cases result : (pageFault a flags trapPointer k).result with
  | ok outcome => exact .inl (congrArg _ (ends.of_ok result))
  | error x => exact .inr ((ends.of_error result).imp (congrArg _) (congrArg _))

/-- The first thread, bound to a space of its own, reads the one page of that space for the first
time. -/
def bound : List Request :=
  [.memory .createSpace, .memory (.allocateAnonymous ⟨1⟩ ⟨4096⟩ true),
    .scheduler (.setSpace 1 (some ⟨1⟩))]

/-- The first thread, bound to the first space. -/
def mainInSpace : Thread :=
  { Thread.create 1 "main" defaultPriority none with state := .running, space := some ⟨1⟩ }

theorem pageFault_not_killed_first :
    (pageFault ⟨4096⟩ ⟨4⟩ 0 (after (booted 1 0) bound)).result = .ok .resumed ∨
      (pageFault ⟨4096⟩ ⟨4⟩ 0 (after (booted 1 0) bound)).result =
        .error (.exhausted .outOfMemory) ∨
      (pageFault ⟨4096⟩ ⟨4⟩ 0 (after (booted 1 0) bound)).result =
        .error (.exhausted .outOfSwap) := by
  generalize is : after (booted 1 0) bound = k
  have reached : Reached k := is ▸ reached_booted 1 0 bound
  have page : VirtualMemory.pageIn? k.memory.spaces ⟨1⟩ (⟨4096⟩ : VirtAddr).floor =
      some (.fresh true .anonymous .zeroFill) := is ▸ by decide +kernel
  have thread : k.scheduler.thread? k.scheduler.current = some mainInSpace :=
    is ▸ by decide +kernel
  have maps : k.memory.mmu.failures = 0 := is ▸ by decide +kernel
  have empty : k.memory.frames.frames = [] := is ▸ by decide +kernel
  have unhampered : k.memory.Unhampered := by
    intro o p b other _ resident
    obtain ⟨f, holds⟩ := Option.isSome_iff_exists.mp resident
    obtain ⟨x, frame, -⟩ := reached.memory.inOrder.1.resident other holds
    simp [FrameTable.frame?, empty] at frame
  exact pageFault_not_killed reached ⟨thread, rfl⟩ ⟨page, by decide, fun _ => rfl⟩
    ⟨trivial, by decide, maps⟩ unhampered

/-! ## Processes killed for pages of others -/

/-- A process that exits is gone if the scheduler lets it go. -/
theorem exitProcess_ends (coherent : VirtualMemory.Coherent k.memory none)
    (regions : VirtualMemory.RegionsBacked k.memory) (runs : RunsIn k th space) {status : Int}
    {E : Violation → Scheduler → Prop}
    (exits : (Scheduler.setSpace th.tid none >>= fun _ => Scheduler.exit status).Ends k.scheduler
      (fun _ _ => True) E) :
    (exitProcess status).Ends k (fun _ _ => True) (fun x k' => E x k'.scheduler) := by
  unfold exitProcess
  rw [ends_bind, ends_currentThread runs.thread, runs.space]
  dsimp only
  rw [ends_bind]
  refine (abandonSpace_ends coherent regions space _).mono (fun _ k' abandoned => ?_) fun _ _ h => h
  rw [ends_bind, ends_schedule, abandoned.1]
  exact (ends_bind.mp exits).mono (fun _ _ rest => ends_schedule.mpr rest) fun _ _ h => h

/-- If a page has to leave memory for the page of the fault and does not get back to its file, the
process is killed. -/
theorem pageFault_killed (reached : Reached k) (runs : RunsIn k th space)
    (permitted : Permitted k space a flags p) (away : p.frame = none)
    (stuck : VirtualMemory.obtainFrame.Ends k.memory.faulted (fun _ _ => False)
      (fun e _ => e = .refused .io))
    (exits : (Scheduler.setSpace th.tid none >>= fun _ => Scheduler.exit (-1)).Ends k.scheduler
      (fun _ _ => True) fun _ _ => False) :
    (pageFault a flags trapPointer k).result = .ok .killed := by
  obtain ⟨coherent, regions⟩ := reached.memory.inOrder
  have ends : (pageFault a flags trapPointer).Ends k (fun outcome _ => outcome = .killed)
      (fun _ _ => False) := by
    refine pageFault_ends runs ?_
    have failed : (VirtualMemory.handleFault space a flags
        (userPointerAt th flags trapPointer)).Ends k.memory (fun _ _ => False)
        (fun e _ => e = .refused .io) := by
      refine (VirtualMemory.handleFault_ends_of_page coherent permitted.page permitted.notPresent
        permitted.permits).mpr ⟨fun resident => ?_, fun _ => ?_⟩
      · rw [Page.isResident, away] at resident
        cases resident
      · exact VirtualMemory.claim_ends_of_stuck (v := k.memory.faulted) permitted.page away stuck
    have keeps : VirtualMemory.Keeps (MemoryEvent.IsFault space) CacheEvent.IsPaging Stop.IsRefusal
        (VirtualMemory.handleFault space a flags (userPointerAt th flags trapPointer)) k.memory :=
      VirtualMemory.handleFault_keeps coherent flags _
    refine (failed.and keeps).mono (fun _ _ h => h.1.elim) fun e memory stopped => ?_
    obtain ⟨rfl, -, coherent', follows, -⟩ := stopped
    have left : RunsIn { k with memory } th space := ⟨runs.thread, runs.space⟩
    exact (exitProcess_ends coherent' (regions.follows follows) left exits).mono
      (fun _ _ _ => rfl) fun _ _ h => h
  cases result : (pageFault a flags trapPointer k).result with
  | ok outcome => rw [ends.of_ok result]
  | error x => exact (ends.of_error result).elim

/-- The access was the process's own to make, and the process is killed for it. -/
structure KilledInVain (k : Kernel) (th : Thread) (space : SpaceId) (a : VirtAddr)
    (flags : FaultFlags) (trapPointer : Nat) (p : Page) : Prop where
  reached : Reached k
  runs : RunsIn k th space
  permitted : Permitted k space a flags p
  loads : k.memory.Loadable p
  killed : (pageFault a flags trapPointer k).result = .ok .killed

/-- The first thread is bound to a space of its own and reads its one page for the first time. The
only frame holds a changed page of a file, in another space, and a write to the file is to come
short. -/
def crowded : List Request :=
  [.memory .createSpace, .memory (.allocateAnonymous ⟨1⟩ ⟨4096⟩ true), .memory .createSpace,
    .memory (.createFile #[17]), .memory (.mapFile ⟨2⟩ ⟨4096⟩ 1 true ⟨0⟩ 0),
    .memory (.claim ⟨2⟩ ⟨4096⟩), .memory (.touch ⟨2⟩ ⟨4096⟩ true),
    .memory (.setShortWrites ⟨0⟩ 1), .scheduler (.setSpace 1 (some ⟨1⟩))]

/-- No frame is found then. -/
theorem obtainFrame_crowded (is : k = after (booted 1 0) crowded) :
    VirtualMemory.obtainFrame.Ends k.memory.faulted (fun _ _ => False)
      (fun e _ => e = .refused .io) := by
  have coherent := ((is ▸ reached_booted 1 0 crowded : Reached k).memory.inOrder.1).faulted
  have full : k.memory.pool.acquire.1 = none := is ▸ by decide +kernel
  have victim : (k.memory.frames.selectVictim k.memory.mmu).1 = some ⟨0⟩ := is ▸ by decide +kernel
  have frame : k.memory.frames.frame? ⟨0⟩ = some ⟨⟨0x100000⟩, some ⟨⟨2⟩, ⟨4096⟩⟩, false⟩ :=
    is ▸ by decide +kernel
  have page : VirtualMemory.pageIn? k.memory.spaces ⟨2⟩ ⟨4096⟩ =
      some ⟨true, some ⟨0⟩, .file ⟨⟨1⟩, 0, 1, by decide⟩⟩ := is ▸ by decide +kernel
  have dirty : k.memory.mmu.isDirty ⟨2⟩ ⟨4096⟩ = true := is ▸ by decide +kernel
  have left : 0 < k.memory.files.shortWrites (k.memory.files.fileOf ⟨1⟩) := is ▸ by decide +kernel
  have size : (k.memory.files.image.contents ⟨1⟩).size = 1 := is ▸ by decide +kernel
  have within : FileBacking.Within ⟨⟨1⟩, 0, 1, by decide⟩ k.memory.files.image := by
    intro j hj
    dsimp only at hj ⊢
    omega
  exact (VirtualMemory.obtainFrame_ends_of_hampered coherent full victim frame rfl page rfl dirty
    within Nat.one_pos left).mono (fun _ _ h => h) fun _ _ stopped => stopped.1

/-- The process goes for the write that comes short. -/
theorem killedInVain_crowded : KilledInVain (after (booted 1 0) crowded) mainInSpace ⟨1⟩ ⟨4096⟩ ⟨4⟩ 0
    (.fresh true .anonymous .zeroFill) := by
  generalize is : after (booted 1 0) crowded = k
  have reached : Reached k := is ▸ reached_booted 1 0 crowded
  have page : VirtualMemory.pageIn? k.memory.spaces ⟨1⟩ (⟨4096⟩ : VirtAddr).floor =
      some (.fresh true .anonymous .zeroFill) := is ▸ by decide +kernel
  have thread : k.scheduler.thread? k.scheduler.current = some mainInSpace :=
    is ▸ by decide +kernel
  have maps : k.memory.mmu.failures = 0 := is ▸ by decide +kernel
  have exits : ((Scheduler.setSpace 1 none >>= fun _ => Scheduler.exit (-1)) k.scheduler).result =
      .ok () := is ▸ by decide +kernel
  have runs : RunsIn k mainInSpace ⟨1⟩ := ⟨thread, rfl⟩
  have permitted : Permitted k ⟨1⟩ ⟨4096⟩ ⟨4⟩ (.fresh true .anonymous .zeroFill) :=
    ⟨page, by decide, fun _ => rfl⟩
  refine ⟨reached, runs, permitted, ⟨trivial, by decide, maps⟩, ?_⟩
  refine pageFault_killed reached runs permitted rfl (obtainFrame_crowded is.symm) ?_
  refine ends_iff.mpr ⟨fun _ _ => trivial, fun x stopped => ?_⟩
  cases exits.symm.trans stopped

end KernelCore.Kernel
