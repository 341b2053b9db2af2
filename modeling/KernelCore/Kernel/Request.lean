import KernelCore.Kernel.Fork

/-!
# Kernel requests

Everything that can be asked of the kernel, as data: what the scheduler and memory management
offer by themselves, and what concerns processes.
-/
namespace KernelCore.Kernel

open Transition

inductive Request where
  /-- An external interrupt whose handler makes the given requests. -/
  | interrupt (handler : List Request)
  | scheduler (r : Scheduler.Request)
  | memory (r : VirtualMemory.Request)
  | pageFault (a : VirtAddr) (flags : FaultFlags) (trapPointer : Nat)
  | enterSystemCall (pointer : Nat)
  | exitProcess (status : Int)
  | fork (name : String)
  /-- Fork as the system call does, which answers with a thread number in any case. -/
  | forkCall (name : String)

inductive Reply where
  | done
  | scheduler (r : Scheduler.Reply)
  | memory (r : VirtualMemory.Reply)
  | fault (outcome : FaultOutcome)
  | forked (child : Except Errno Tid)
  | thread (t : Tid)
  | handled (steps : List (Reply × Scheduler.Glimpse))

/-- Run a handler on top of the current thread. -/
def externalInterrupt {α : Type} (handler : Running α) : Running α := do
  let level ← schedule Scheduler.enterHandler
  let result ← handler
  schedule (Scheduler.leaveHandler level)
  pure result

/-- What the fork system call answers: the child's thread number, or none that a thread has. -/
def forkAnswer (child : Except Errno Tid) : Tid :=
  match child with
  | .ok t => t
  | .error _ => noTid

mutual

def perform : Request → Running Reply
  | .interrupt handler => do
    let steps ← externalInterrupt (performAll handler)
    pure (.handled steps)
  | .scheduler r => do
    let reply ← schedule (Scheduler.perform r)
    pure (.scheduler reply)
  | .memory r => do
    let reply ←
      within (·.memory) (fun memory k => { k with memory }) (VirtualMemory.perform r)
    pure (.memory reply)
  | .pageFault a flags trapPointer => do
    let outcome ← pageFault a flags trapPointer
    pure (.fault outcome)
  | .enterSystemCall pointer => do
    enterSystemCall pointer
    pure .done
  | .exitProcess status => do
    exitProcess status
    pure .done
  | .fork name => do
    let child ← fork name
    pure (.forked child)
  | .forkCall name => do
    let child ← fork name
    pure (.thread (forkAnswer child))

/-- One request after the other, with a look at the scheduler after each. -/
def performAll : List Request → Running (List (Reply × Scheduler.Glimpse))
  | [] => pure []
  | r :: rest => do
    let reply ← perform r
    let seen ← gets fun k => Scheduler.glimpse k.scheduler
    let more ← performAll rest
    pure ((reply, seen) :: more)

end

end KernelCore.Kernel
