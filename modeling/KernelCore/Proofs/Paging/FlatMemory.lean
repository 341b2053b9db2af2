import KernelCore.Memory.Address
import KernelCore.Proofs.Memory.Files

/-!
# Flat memory

Memory as its users see it: every anonymous page either is untouched or has its bytes, and nothing
is ever out of memory. What happens to it is told by events. Histories list events with the newest
first, and `recalled` reads the byte of a page off a history alone.
-/
namespace KernelCore

/-- An anonymous page of flat memory. -/
inductive FlatPage where
  | untouched (loader : Loader)
  | loaded (bytes : PageBytes)
  deriving DecidableEq

/-- What can happen to memory. Pages are named by their space and the address they start at. -/
inductive MemoryEvent where
  /-- An untouched page was entered. -/
  | entered (space : SpaceId) (va : VirtAddr) (loader : Loader)
  /-- A page was accessed for the first time, and its loader produced these bytes. -/
  | loaded (space : SpaceId) (va : VirtAddr) (bytes : PageBytes)
  /-- A user stored bytes in a page, from the offset on. -/
  | stored (space : SpaceId) (va : VirtAddr) (offset : Nat) (bytes : Array UInt8)
  /-- A page was copied from the space of the parent to that of the child. -/
  | copied (parent child : SpaceId) (va : VirtAddr)
  | dropped (space : SpaceId) (va : VirtAddr)
  /-- A page was written back to its file. -/
  | wroteBack (file : FileId) (write : FileWrite)
  | opened (file : FileId)
  | created (contents : Array UInt8) (file : FileId)
  | resized (file : FileId) (length : Nat)

structure FlatMemory where
  page : SpaceId → VirtAddr → Option FlatPage
  files : FileImage

namespace FlatMemory

/-- No pages and no files. -/
def blank : FlatMemory := ⟨fun _ _ => none, ⟨[], []⟩⟩

def setPage (m : FlatMemory) (space : SpaceId) (va : VirtAddr) (p : Option FlatPage) :
    FlatMemory :=
  { m with page := fun s a => if s = space ∧ a = va then p else m.page s a }

end FlatMemory

def FlatPage.store (offset : Nat) (bytes : Array UInt8) : FlatPage → FlatPage
  | .untouched loader => .untouched loader
  | .loaded page => .loaded (page.overlay offset bytes)

namespace MemoryEvent

/-- What an event makes of memory. -/
def apply (m : FlatMemory) : MemoryEvent → FlatMemory
  | entered space va loader => m.setPage space va (some (.untouched loader))
  | loaded space va bytes => m.setPage space va (some (.loaded bytes))
  | stored space va offset bytes =>
    m.setPage space va ((m.page space va).map fun p => p.store offset bytes)
  | copied parent child va => m.setPage child va (m.page parent va)
  | dropped space va => m.setPage space va none
  | wroteBack f w => { m with files := m.files.written f w }
  | opened f => { m with files := m.files.opening f }
  | created contents f =>
    { m with files := ⟨m.files.files ++ [(contents, [])], m.files.opened ++ [f]⟩ }
  | resized f n =>
    { m with
      files :=
        { m.files with
          files := m.files.files.modify f.index fun x =>
            (x.1.extract 0 n ++ Array.replicate (n - x.1.size) 0, x.2) } }

/-- Whether an event can happen to memory: pages are entered and copied where there are none, and
an untouched page gets the bytes its loader makes of the files as they are. -/
def Possible (m : FlatMemory) : MemoryEvent → Prop
  | entered space va _ => m.page space va = none
  | loaded space va bytes =>
    ∃ loader, m.page space va = some (.untouched loader) ∧ bytes = loader.contents m.files
  | copied parent child va =>
    m.page child va = none ∧ (m.page parent va).isSome = true
  | _ => True

/-- Storing is what users do; all other events are due to the kernel. -/
def isStored : MemoryEvent → Bool
  | stored .. => true
  | _ => false

end MemoryEvent

/-- From the memory `start` the events of a history, newest first, lead to another memory. -/
inductive History (start : FlatMemory) : List MemoryEvent → FlatMemory → Prop
  | start : History start [] start
  | step {past m e} : History start past m → e.Possible m → History start (e :: past) (e.apply m)

namespace History

variable {m m₁ m₂ m₃ : FlatMemory} {es past : List MemoryEvent} {e : MemoryEvent}

theorem one (possible : e.Possible m) : History m [e] (e.apply m) := .step .start possible

theorem append (first : History m₁ past m₂) (next : History m₂ es m₃) :
    History m₁ (es ++ past) m₃ := by
  induction next with
  | start => exact first
  | step _ possible ih => exact .step ih possible

end History

/-- The byte of a page by its history: what was stored there last, else what was inherited, else
what was loaded. -/
def recalled : List MemoryEvent → SpaceId → VirtAddr → Nat → Option UInt8
  | [], _, _, _ => none
  | e :: past, s, a, i =>
    match e with
    | .stored space va offset bytes =>
      if s = space ∧ a = va ∧ offset ≤ i ∧ i - offset < bytes.size then bytes[i - offset]?
      else recalled past s a i
    | .copied parent child va =>
      if s = child ∧ a = va then recalled past parent a i else recalled past s a i
    | .loaded space va bytes => if s = space ∧ a = va then bytes[i]? else recalled past s a i
    | .entered space va _ => if s = space ∧ a = va then none else recalled past s a i
    | .dropped space va => if s = space ∧ a = va then none else recalled past s a i
    | _ => recalled past s a i

theorem getElem?_overlay (page : PageBytes) (offset : Nat) (bytes : Array UInt8) {i : Nat}
    (h : i < pageSize) :
    (page.overlay offset bytes)[i]? =
      if offset ≤ i ∧ i - offset < bytes.size then bytes[i - offset]? else page[i]? := by
  rw [Vector.getElem?_eq_getElem h, Vector.getElem?_eq_getElem h, PageBytes.getElem_overlay]
  by_cases front : offset ≤ i
  · by_cases inside : i - offset < bytes.size
    · simp [front, inside]
    · simp [front, inside]
  · simp [front]

/-- A loaded page has the bytes its history recalls. -/
theorem recalled_of_history {m : FlatMemory} {past : List MemoryEvent}
    (history : History .blank past m) {s : SpaceId} {a : VirtAddr} {page : PageBytes}
    (loaded : m.page s a = some (.loaded page)) {i : Nat} (h : i < pageSize) :
    recalled past s a i = page[i]? := by
  induction history generalizing s a page with
  | start => cases loaded
  | @step past m e _ possible ih =>
    -- Every event either sets the page itself or leaves it to the events before.
    cases e with
    | entered space va loader =>
      simp only [MemoryEvent.apply, FlatMemory.setPage] at loaded
      simp only [recalled]
      split at loaded
      · cases loaded
      · rename_i other
        rw [if_neg other, ih loaded]
    | loaded space va bytes =>
      simp only [MemoryEvent.apply, FlatMemory.setPage] at loaded
      simp only [recalled]
      split at loaded
      · rename_i same
        cases loaded
        rw [if_pos same]
      · rename_i other
        rw [if_neg other, ih loaded]
    | stored space va offset bytes =>
      simp only [MemoryEvent.apply, FlatMemory.setPage] at loaded
      simp only [recalled]
      split at loaded
      · rename_i same
        obtain ⟨rfl, rfl⟩ := same
        obtain ⟨old, before, stored⟩ := Option.map_eq_some_iff.mp loaded
        cases old with
        | untouched loader => cases stored
        | loaded old =>
          rw [FlatPage.store, FlatPage.loaded.injEq] at stored
          subst stored
          rw [getElem?_overlay old offset bytes h, ← ih before]
          simp only [true_and]
      · rename_i other
        rw [if_neg fun h => other ⟨h.1, h.2.1⟩, ih loaded]
    | copied parent child va =>
      simp only [MemoryEvent.apply, FlatMemory.setPage] at loaded
      simp only [recalled]
      split at loaded
      · rename_i same
        rw [if_pos same]
        rw [← same.2] at loaded
        exact ih loaded
      · rename_i other
        rw [if_neg other, ih loaded]
    | dropped space va =>
      simp only [MemoryEvent.apply, FlatMemory.setPage] at loaded
      simp only [recalled]
      split at loaded
      · cases loaded
      · rename_i other
        rw [if_neg other, ih loaded]
    | wroteBack f w => exact ih loaded
    | opened f => exact ih loaded
    | created contents f => exact ih loaded
    | resized f n => exact ih loaded

end KernelCore
