import KernelCore.Memory.Mmu
import KernelCore.Violation

/-!
# The frame table

The physical pages that hold user pages. A frame records the page it holds, and the page records
the number of its frame. When a page has to leave memory, the clock hand goes round the table:
a page accessed since the hand last passed gets a second chance, the first one that was not
accessed has to go. Frames with input or output in progress are pinned and passed over.
-/
namespace KernelCore

/-- A page of an address space. -/
structure PageRef where
  space : SpaceId
  va : VirtAddr
  deriving DecidableEq, Repr

structure Frame where
  page : PhysAddr
  owner : Option PageRef
  pinned : Bool
  deriving DecidableEq, Repr

structure FrameTable where
  frames : List (Option Frame)
  /-- Where the clock hand points. -/
  hand : Nat
  deriving DecidableEq, Repr

namespace FrameTable

def empty : FrameTable := ⟨[], 0⟩

def frame? (t : FrameTable) (f : FrameId) : Option Frame := (t.frames[f.index]?).join

/-- Enter a physical page, in the first place that is not in use. -/
def insert (t : FrameTable) (page : PhysAddr) : FrameId × FrameTable :=
  let fresh := some ⟨page, none, false⟩
  match t.frames.findIdx? Option.isNone with
  | some i => (⟨i⟩, { t with frames := t.frames.set i fresh })
  | none => (⟨t.frames.length⟩, { t with frames := t.frames ++ [fresh] })

def get (t : FrameTable) (f : FrameId) : Except Violation Frame :=
  match t.frame? f with
  | some frame => .ok frame
  | none => .error (.frameNotAllocated f)

def update (t : FrameTable) (f : FrameId) (change : Frame → Frame) : Except Violation FrameTable :=
  match t.frame? f with
  | some frame => .ok { t with frames := t.frames.set f.index (some (change frame)) }
  | none => .error (.frameNotAllocated f)

/-- Strike out a frame; yields its physical page. -/
def remove (t : FrameTable) (f : FrameId) : Except Violation (PhysAddr × FrameTable) :=
  match t.frame? f with
  | some frame => .ok (frame.page, { t with frames := t.frames.set f.index none })
  | none => .error (.frameNotAllocated f)

/-- The frames in use. -/
def count (t : FrameTable) : Nat := t.frames.countP Option.isSome

/-- The page in a place of the table, if it may be put out of memory. -/
def candidate (t : FrameTable) (i : Nat) : Option PageRef :=
  match t.frame? ⟨i⟩ with
  | some frame => if frame.pinned then none else frame.owner
  | none => none

/-- Move the hand on by at most the given number of places, to the first candidate that was not
accessed, and clear the marks of those it passes. -/
def sweep : Nat → FrameTable → Mmu → Option FrameId × FrameTable × Mmu
  | 0, t, m => (none, t, m)
  | steps + 1, t, m =>
    let here := t.hand
    let t := { t with hand := (here + 1) % t.frames.length }
    match t.candidate here with
    | none => sweep steps t m
    | some owner =>
      if m.isAccessed owner.space owner.va then
        sweep steps t (m.clearAccessed owner.space owner.va)
      else (some ⟨here⟩, t, m)

/-- The frame whose page has to leave memory. After one round no candidate is marked any more,
so two rounds find one unless there is none. -/
def selectVictim (t : FrameTable) (m : Mmu) : Option FrameId × FrameTable × Mmu :=
  sweep (2 * t.frames.length) t m

end FrameTable

end KernelCore
