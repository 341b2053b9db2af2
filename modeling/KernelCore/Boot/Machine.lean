import KernelCore.Boot.CommandLine
import KernelCore.Kernel.Basic

/-!
# A machine that boots

A machine has at most one scheduler and one virtual memory. Each is set up once, by whoever boots
it; before that, what asks for it gets no answer.
-/
namespace KernelCore.Boot

open Transition

structure Machine where
  scheduler : Option Scheduler
  memory : Option VirtualMemory

/-- What goes on while a machine is set up. -/
abbrev Booting := Transition Violation Machine

namespace Machine

variable {α : Type}

/-- A machine that was just switched on. -/
def blank : Machine := ⟨none, none⟩

def logAll : List LogRecord → Booting Unit :=
  forAll fun r => emit r.severity r.message

/-- Set up the scheduler. -/
def startScheduler (feedback : Bool) : Booting Unit := do
  let s ← get
  ensure (s.scheduler.isNone = true) .schedulerExists
  let (scheduler, log) := Scheduler.new feedback maxThreads
  logAll log
  let scheduler ← ofExcept scheduler
  modify fun s => { s with scheduler := some scheduler }

/-- Read the command line and set up the scheduler by it. -/
def boot (line : String) : Booting Options := do
  let (options, log) := parse line
  logAll log
  emit .info
    (kernelName ++ " v" ++ kernelVersion ++ ": booting, scheduler=" ++
      Scheduler.modeLabel options.feedback)
  startScheduler options.feedback
  pure options

/-- Set up virtual memory on a machine with the given numbers of physical pages and of sectors of
its swap device. -/
def startMemory (frames sectors : Nat) : Booting Unit := do
  let (memory, log) := VirtualMemory.new frames sectors
  logAll log
  let s ← get
  ensure (s.memory.isNone = true) .memoryExists
  modify fun s => { s with memory := some memory }

/-- Use the scheduler, if it is set up. -/
def withScheduler (t : Scheduling α) : Booting (Option α) := fun s =>
  match s.scheduler with
  | none => ⟨.ok none, s, []⟩
  | some scheduler =>
    let o := t scheduler
    ⟨o.result.map some, { s with scheduler := some o.state }, o.log⟩

/-- Use virtual memory, if it is set up. -/
def withMemory (t : Paging α) : Booting (Option (Except MemoryError α)) := fun s =>
  match s.memory with
  | none => ⟨.ok none, s, []⟩
  | some memory =>
    let o := onlyViolations t memory
    ⟨o.result.map some, { s with memory := some o.state }, o.log⟩

end Machine

end KernelCore.Boot
