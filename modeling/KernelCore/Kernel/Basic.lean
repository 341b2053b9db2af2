import KernelCore.Paging.Request
import KernelCore.Scheduler.Request

/-!
# The kernel

The scheduler and the memory of the machine side by side. A process is a thread that is bound to
an address space; what concerns processes acts on both.
-/
namespace KernelCore

structure Kernel where
  scheduler : Scheduler
  memory : VirtualMemory

/-- What the kernel does. -/
abbrev Running := Transition Violation Kernel

namespace Kernel

open Transition

variable {α : Type}

/-- A kernel with one thread and no address spaces. -/
def new (feedback : Bool) (threads frames sectors : Nat) :
    Except Violation Kernel × List LogRecord :=
  let (scheduler, log) := Scheduler.new feedback threads
  match scheduler with
  | .error e => (.error e, log)
  | .ok scheduler =>
    let (memory, more) := VirtualMemory.new frames sectors
    (.ok ⟨scheduler, memory⟩, log ++ more)

def schedule (t : Scheduling α) : Running α :=
  within (·.scheduler) (fun scheduler k => { k with scheduler }) t

/-- Ask for a service of memory management, which may be refused. -/
def page (t : Paging α) : Running (Except MemoryError α) :=
  within (·.memory) (fun memory k => { k with memory }) (onlyViolations t)

end Kernel

end KernelCore
