import KernelCore.Scheduler.Dispatch

/-!
# Feedback scheduling

Under feedback scheduling a thread's priority falls with the processor time it used lately and
with its nice value. Every tick counts for the current thread; every fourth tick all priorities
are recomputed; once a second the load average takes in the number of runnable threads, and the
recent processor time of every thread decays by a factor that grows with the load. The idle
thread takes no part.
-/
namespace KernelCore

/-- `63 - recent / 4 - 2 * nice`, rounded and brought into range. -/
def feedbackPriority (recent : Fixed) (nice : Int) : Except ArithmeticFault Int := do
  let quarter ← recent.divInt 4
  let rounded ← quarter.round
  pure (clampPriority (maxPriority - rounded - nice * 2))

/-- `59/60 * load + 1/60 * runnable`. -/
def nextLoadAverage (load : Fixed) (runnable : Int) : Except ArithmeticFault Fixed := do
  let fiftyNine ← Fixed.ofInt 59
  let weight ← fiftyNine.divInt 60
  let kept ← weight.mul load
  let count ← Fixed.ofInt runnable
  let added ← count.divInt 60
  kept.add added

/-- `2 * load / (2 * load + 1)`. -/
def decayFactor (load : Fixed) : Except ArithmeticFault Fixed := do
  let twice ← load.mulInt 2
  let more ← twice.addInt 1
  twice.div more

/-- `decay * recent + nice`. -/
def decayedRecent (decay recent : Fixed) (nice : Int) : Except ArithmeticFault Fixed := do
  let kept ← decay.mul recent
  kept.addInt nice

/-- The thread with the priority its processor use and nice value give it. -/
def Thread.reprioritized (th : Thread) : Except ArithmeticFault Thread := do
  let p ← feedbackPriority th.recentCpu th.nice
  pure { th with basePriority := p, priority := p }

def Thread.decayed (decay : Fixed) (th : Thread) : Except ArithmeticFault Thread := do
  let r ← decayedRecent decay th.recentCpu th.nice
  pure { th with recentCpu := r }

namespace Scheduler

open Transition

/-- Change every thread but the idle one. -/
def updateOthers (f : Thread → Except ArithmeticFault Thread) : Scheduling Unit := do
  let s ← get
  let threads ← arithmetic (s.threads.traverse fun t th => if t = s.idle then .ok th else f th)
  modify fun s => { s with threads }

/-- The tick counts for the current thread. -/
def countTick : Scheduling Unit := do
  let s ← get
  if s.current = s.idle then pure ()
  else
    let th ← thread s.current
    let r ← arithmetic (th.recentCpu.addInt 1)
    updateThread s.current fun th => { th with recentCpu := r }

/-- The ready threads, and the current one unless it is the idle thread. -/
def runnable (s : Scheduler) : Nat := s.ready.length + if s.current = s.idle then 0 else 1

/-- The update made once a second. -/
def secondPassed : Scheduling Unit := do
  let s ← get
  let load ← arithmetic (nextLoadAverage s.loadAverage s.runnable)
  modify fun s => { s with loadAverage := load }
  let decay ← arithmetic (decayFactor load)
  updateOthers (Thread.decayed decay)

/-- The accounting of one tick. Priorities are recomputed before the second's decay. -/
def feedbackTick : Scheduling Unit := do
  countTick
  let s ← get
  if s.ticks % priorityPeriod = 0 then updateOthers Thread.reprioritized else pure ()
  if s.ticks % timerFrequency = 0 then secondPassed else pure ()

/-- A hundred times the load average, rounded. -/
def loadPercent (s : Scheduler) : Int := s.loadAverage.roundScaled 100

/-- A hundred times the recent processor time of the current thread, rounded and kept within 32
bits. -/
def recentPercent : Scheduling Int := do
  let s ← get
  let th ← thread s.current
  pure (max (-2147483648) (min (th.recentCpu.roundScaled 100) 2147483647))

/-- Set the nice value of the current thread, brought into range. -/
def setNice (nice : Int) : Scheduling Unit := do
  let level ← disableInterrupts
  let s ← get
  updateThread s.current fun th => { th with nice := clampNice nice }
  if s.feedback then
    let th ← thread s.current
    let p ← arithmetic th.reprioritized
    updateThread s.current fun _ => p
  else pure ()
  restoreInterrupts level
  preemptCheck

end Scheduler

end KernelCore
