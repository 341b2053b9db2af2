import KernelCore.Kernel.Process

/-!
# Forking

A process forks into two: a new thread in a copy of the address space, with the base priority and
the saved user stack pointer of its parent. Whatever fails, the half-made copy of the space goes.
-/
namespace KernelCore.Kernel

open Transition

/-- Give up the address space of a child that never came to be. -/
def discardChild (child : SpaceId) : Running Unit :=
  abandonSpace child ("fork: destroy of child space " ++ toString child.number)

/-- Spawn the thread of a child process. -/
def spawnChild (name : String) (parent child : SpaceId) : Running (Except Errno Tid) := do
  let th ← schedule Scheduler.currentThread
  match ← schedule (Scheduler.spawn name th.basePriority 0 (some child)) with
  | .ok t =>
    schedule (Scheduler.updateThread t fun x => { x with userStack := th.userStack })
    let current ← gets fun k => k.scheduler.current
    emit .debug
      ("fork: " ++ toString current ++ " -> " ++ toString t ++ " (space " ++
        toString child.number ++ ")")
    pure (.ok t)
  | .error e =>
    emit .warn
      ("fork: spawning child of space " ++ toString parent.number ++ " failed: " ++ e.text)
    discardChild child
    pure (.error e.errno)

/-- The current process forks; yields the number of the child's thread. -/
def fork (name : String) : Running (Except Errno Tid) := do
  let th ← schedule Scheduler.currentThread
  match th.space with
  | none => pure (.error .invalidArgument)
  | some parent =>
    match ← page VirtualMemory.createSpace with
    | .error e => pure (.error e.errno)
    | .ok child =>
      match ← page (VirtualMemory.duplicateSpace parent child) with
      | .ok () => spawnChild name parent child
      | .error e =>
        emit .warn
          ("fork: copying space " ++ toString parent.number ++ " failed: " ++ e.text)
        discardChild child
        pure (.error e.errno)

end KernelCore.Kernel
