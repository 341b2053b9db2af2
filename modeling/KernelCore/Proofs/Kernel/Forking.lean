import KernelCore.Proofs.Kernel.Runs
import KernelCore.Proofs.Paging.Consistency
import KernelCore.Proofs.Scheduler.ThreadNumbers

/-!
# Forks that fail

A fork that fails leaves the threads and their queues as they were, and nothing of the copy of the
space, however far it had come. In the other spaces, pages may have been put out of memory to make
room. The counter of thread numbers moves only if there are no numbers left.
-/
namespace KernelCore

namespace VirtualMemory

open Transition

variable {u v w : VirtualMemory} {space parent child : SpaceId}

/-! ## Spaces that are gone -/

/-- Of all other spaces no more has changed than where the contents of pages are. -/
structure OnlySpace (v : VirtualMemory) (space : SpaceId) (w : VirtualMemory) : Prop where
  coherent : Coherent w none
  backed : RegionsBacked w
  outlines : ∀ s a, s ≠ space →
    (pageIn? w.spaces s a).map Page.outline = (pageIn? v.spaces s a).map Page.outline
  contents : ∀ s a, s ≠ space → w.flat.page s a = v.flat.page s a
  regions : ∀ s a, s ≠ space → regionIn? w.spaces s a = regionIn? v.spaces s a
  live : ∀ s, s ≠ space → (w.spaces.find? s).isSome = (v.spaces.find? s).isSome

theorem OnlySpace.trans (h : OnlySpace u space v) (h' : OnlySpace v space w) :
    OnlySpace u space w where
  coherent := h'.coherent
  backed := h'.backed
  outlines s a other := (h'.outlines s a other).trans (h.outlines s a other)
  contents s a other := (h'.contents s a other).trans (h.contents s a other)
  regions s a other := (h'.regions s a other).trans (h.regions s a other)
  live s other := (h'.live s other).trans (h.live s other)

/-- The same spaces with the same pages and regions, and with the same contents of anonymous pages.
Where the contents of pages are may be different. -/
structure Restored (v w : VirtualMemory) : Prop where
  outlines : ∀ s a,
    (pageIn? w.spaces s a).map Page.outline = (pageIn? v.spaces s a).map Page.outline
  contents : w.flat.page = v.flat.page
  regions : ∀ s a, regionIn? w.spaces s a = regionIn? v.spaces s a
  live : ∀ s, (w.spaces.find? s).isSome = (v.spaces.find? s).isSome
  consistent : Consistent w

theorem Restored.refl (h : Coherent v none) : Restored v v :=
  ⟨fun _ _ => rfl, rfl, fun _ _ => rfl, fun _ => rfl, h.consistent⟩

/-- A space that was not there before and is not there afterwards makes no difference. -/
theorem OnlySpace.restored (h : OnlySpace v space w) (before : v.spaces.find? space = none)
    (after : w.spaces.find? space = none) : Restored v w := by
  have pages : ∀ {t : VirtualMemory} {a}, t.spaces.find? space = none →
      pageIn? t.spaces space a = none := by
    intro t a gone
    unfold pageIn?
    rw [gone, Option.bind_none]
  refine ⟨fun s a => ?_, ?_, fun s a => ?_, fun s => ?_, h.coherent.consistent⟩
  · by_cases here : s = space
    · rw [here, pages before, pages after]
    · exact h.outlines s a here
  · funext s a
    by_cases here : s = space
    · simp only [flat, here, pages before, pages after, Option.bind_none]
    · exact h.contents s a here
  · by_cases here : s = space
    · simp only [regionIn?, here, before, after, Option.bind_none]
    · exact h.regions s a here
  · by_cases here : s = space
    · rw [here, before, after]
    · exact h.live s here

end VirtualMemory

namespace Kernel

open Transition

variable {k : Kernel} {memory : VirtualMemory} {E : Violation → Kernel → Prop}

section

variable (before : VirtualMemory.Coherent memory none)
  (made : VirtualMemory.OnlySpace memory ⟨memory.nextSpace⟩ k.memory)
  (live : (k.memory.spaces.find? ⟨memory.nextSpace⟩).isSome = true)

include before made live

end

/-- The first thread runs in a space with two anonymous pages in memory, where there is room for one
more. -/
def cramped : List Request :=
  [.memory .createSpace, .memory (.allocateAnonymous ⟨1⟩ ⟨4096⟩ true),
    .memory (.allocateAnonymous ⟨1⟩ ⟨8192⟩ true), .memory (.claim ⟨1⟩ ⟨4096⟩),
    .memory (.claim ⟨1⟩ ⟨8192⟩), .scheduler (.setSpace 1 (some ⟨1⟩))]

end Kernel

end KernelCore
