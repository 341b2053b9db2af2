import KernelCore.Scheduler.Feedback

/-!
# Interrupts, the timer, sleeping

An external interrupt runs its handler on top of the current thread, with interrupts off. What
the handler wakes does not run at once: the current thread yields when the handler has returned.
The timer interrupt is such a handler. It counts the tick, wakes the threads whose time has
come, and ends the current thread's time slice.
-/
namespace KernelCore.Scheduler

open Transition

/-- Enter a handler; yields the interrupt level to return to. -/
def enterHandler : Scheduling InterruptLevel := do
  let s ← get
  ensure (s.inHandler = false) .nestedInterrupt
  let level ← disableInterrupts
  modify fun s => { s with inHandler := true }
  pure level

/-- Return from a handler, and yield if it asked for that. -/
def leaveHandler (level : InterruptLevel) : Scheduling Unit := do
  modify fun s => { s with inHandler := false }
  let s ← get
  if s.yieldOnReturn then
    modify fun s => { s with yieldOnReturn := false }
    yield
  else pure ()
  restoreInterrupts level

def externalInterrupt {α : Type} (handler : Scheduling α) : Scheduling α := do
  let level ← enterHandler
  let result ← handler
  leaveHandler level
  pure result

/-- Count the tick for what runs. -/
def accountTick : Scheduling Unit := do
  let s ← get
  if s.current = s.idle then
    modify fun s => { s with tickCounts := { s.tickCounts with idle := s.tickCounts.idle + 1 } }
  else
    let th ← thread s.current
    if th.space.isSome then
      modify fun s => { s with tickCounts := { s.tickCounts with user := s.tickCounts.user + 1 } }
    else
      modify fun s =>
        { s with tickCounts := { s.tickCounts with kernel := s.tickCounts.kernel + 1 } }

/-- Use up one tick of the time slice. -/
def useSlice : Scheduling Unit :=
  modify fun s =>
    let used := s.sliceTicks + 1
    { s with sliceTicks := used, yieldOnReturn := s.yieldOnReturn || timeSlice ≤ used }

/-- Make a thread ready that has been taken out of the sleep queue. -/
def wake (t : Tid) : Scheduling Unit := do
  updateThread t fun th => { th with membership := .none }
  unblock t

/-- Wake the first thread of the sleep queue if its wake-up tick has come. -/
def wakeFirst : Scheduling Unit := do
  let s ← get
  match s.sleepers.popExpired s.ticks with
  | (none, _) => pure ()
  | (some t, sleepers) =>
    modify fun s => { s with sleepers }
    wake t

/-- Wake the threads whose wake-up tick has come, first to last. There are no more of them than
sleepers, and once all are awake nothing is left to do. -/
def wakeSleepers : Scheduling Unit := do
  let s ← get
  times s.sleepers.length wakeFirst

/-- What the timer interrupt does. -/
def timerHandler : Scheduling Unit := do
  modify fun s => { s with ticks := s.ticks + 1 }
  accountTick
  let s ← get
  if s.feedback then feedbackTick else pure ()
  useSlice
  wakeSleepers
  preemptCheck

def timerInterrupt : Scheduling Unit := externalInterrupt timerHandler

/-- Ticks since an earlier tick. -/
def elapsed (s : Scheduler) (since : Nat) : Nat := s.ticks - since

/-- The current thread sleeps until the given tick, or not at all if it has passed. -/
def sleepUntil (wakeTick : Nat) : Scheduling Unit := do
  let s ← get
  if wakeTick ≤ s.ticks then pure ()
  else
    ensure (s.inHandler = false) .sleptInHandler
    ensure (s.current ≠ s.idle) .idleSlept
    let level ← disableInterrupts
    updateThread s.current fun th => { th with membership := .sleep }
    modify fun s => { s with sleepers := s.sleepers.push s.current wakeTick }
    block
    restoreInterrupts level

/-- The current thread sleeps for a number of ticks; none if it is not positive. -/
def sleep (ticks : Int) : Scheduling Unit := do
  let s ← get
  if ticks ≤ 0 then pure () else sleepUntil (s.ticks + ticks.toNat)

end KernelCore.Scheduler
