import KernelCore.Memory.AddressSpace
import KernelCore.Proofs.Paging.FlatMemory

/-!
# The page cache

File pages as a cache of files: each shows a stretch of a file, and while it is in memory it has
bytes of its own and remembers whether they were changed. What happens to the cache is told by
events, as what happens to flat memory is. Histories list events with the newest first.
-/
namespace KernelCore

/-- A file page that is in memory. -/
structure HeldPage where
  bytes : PageBytes
  /-- Whether it was written to since it last came from its file or went back to it. -/
  dirty : Bool

/-- A file page: the stretch it shows, and what it holds while it is in memory. -/
structure CachedPage where
  backing : FileBacking
  held : Option HeldPage

/-- The file pages and the mapped regions of all spaces, and the files. -/
structure PageCache where
  page : SpaceId → VirtAddr → Option CachedPage
  region : SpaceId → VirtAddr → Option Region
  files : FileImage
  /-- How many writes to a file are still to come short. -/
  shortWrites : FileId → Nat

/-- What can happen to the page cache. Pages are named by their space and the address they start
at. -/
inductive CacheEvent where
  /-- A page that was never accessed was entered. -/
  | entered (space : SpaceId) (va : VirtAddr)
  /-- A page was copied from the space of the parent to that of the child. -/
  | copied (parent child : SpaceId) (va : VirtAddr)
  /-- A page came into memory from its file. -/
  | fetched (space : SpaceId) (va : VirtAddr)
  /-- A page left memory. -/
  | left (space : SpaceId) (va : VirtAddr)
  /-- A page that was changed was written back to its file. -/
  | wroteBack (space : SpaceId) (va : VirtAddr) (file : FileId) (write : Option FileWrite)
  /-- A page was to be written back, and the write came short. -/
  | cameShort (space : SpaceId) (va : VirtAddr) (file : FileId) (write : Option FileWrite)
  /-- A page was taken out after the write of its changes had come short. -/
  | lost (space : SpaceId) (va : VirtAddr) (file : FileId) (write : Option FileWrite)
  /-- A page without changes was taken out. -/
  | removed (space : SpaceId) (va : VirtAddr)
  /-- A user stored bytes in a page, from the offset on. -/
  | stored (space : SpaceId) (va : VirtAddr) (offset : Nat) (bytes : Array UInt8)
  /-- The front of a page was overwritten behind the back of the hardware. -/
  | poked (space : SpaceId) (va : VirtAddr) (bytes : Array UInt8)
  /-- The hardware was made to record a write. -/
  | marked (space : SpaceId) (va : VirtAddr)
  | mapped (space : SpaceId) (start : VirtAddr) (region : Region)
  | unmapped (space : SpaceId) (start : VirtAddr)
  | opened (file : FileId)
  | created (contents : Array UInt8) (file : FileId)
  | resized (file : FileId) (length : Nat)
  /-- The next `count` writes to a file are to come short. -/
  | hampered (file : FileId) (count : Nat)

namespace PageCache

def setPage (c : PageCache) (space : SpaceId) (va : VirtAddr) (p : Option CachedPage) : PageCache :=
  { c with page := fun s a => if s = space ∧ a = va then p else c.page s a }

def setRegion (c : PageCache) (space : SpaceId) (start : VirtAddr) (r : Option Region) :
    PageCache :=
  { c with region := fun s a => if s = space ∧ a = start then r else c.region s a }

/-- The first `n` bytes of a page go to its stretch of the file. -/
def send (c : PageCache) (b : FileBacking) (page : PageBytes) (n : Nat) (short : FileId → Nat) :
    PageCache :=
  { c with
    files := c.files.received (c.files.fileOf b.file) (b.sent c.files page n)
    shortWrites := short }

theorem setPage_setPage (c : PageCache) (space : SpaceId) (va : VirtAddr) (p q : Option CachedPage) :
    (c.setPage space va p).setPage space va q = c.setPage space va q := by
  unfold setPage
  congr 1
  funext s a
  dsimp only
  split <;> rfl

theorem setPage_page (c : PageCache) (space : SpaceId) (va : VirtAddr) (p : Option CachedPage) :
    (c.setPage space va p).page space va = p := if_pos ⟨rfl, rfl⟩

theorem setPage_page_of_ne (c : PageCache) {space s : SpaceId} {va a : VirtAddr}
    (p : Option CachedPage) (other : ¬(s = space ∧ a = va)) :
    (c.setPage space va p).page s a = c.page s a := if_neg other

theorem setPage_comm (c : PageCache) {space s : SpaceId} {va a : VirtAddr} (p q : Option CachedPage)
    (other : ¬(s = space ∧ a = va)) :
    (c.setPage space va p).setPage s a q = (c.setPage s a q).setPage space va p := by
  unfold setPage
  congr 1
  funext t b
  dsimp only
  by_cases here : t = s ∧ b = a
  · rw [if_pos here, if_pos here, if_neg fun there => other (here.1 ▸ here.2 ▸ there)]
  · rw [if_neg here, if_neg here]

/-- Nothing changes where a page is set to what it is. -/
theorem setPage_self {c : PageCache} {space : SpaceId} {va : VirtAddr} {p : Option CachedPage}
    (same : c.page space va = p) : c.setPage space va p = c := by
  have pages : (c.setPage space va p).page = c.page := by
    funext s a
    unfold setPage
    dsimp only
    split
    · rename_i here
      rw [here.1, here.2, same]
    · rfl
  show ({ c with page := (c.setPage space va p).page } : PageCache) = c
  rw [pages]

end PageCache

namespace HeldPage

/-- What is left when bytes are written over those from the offset on. -/
def poke (offset : Nat) (bytes : Array UInt8) (h : HeldPage) : HeldPage :=
  { h with bytes := h.bytes.overlay offset bytes }

def mark (h : HeldPage) : HeldPage := { h with dirty := true }

/-- What a store of a user leaves. -/
def store (offset : Nat) (bytes : Array UInt8) (h : HeldPage) : HeldPage :=
  h.mark.poke offset bytes

end HeldPage

namespace CachedPage

def change (f : HeldPage → HeldPage) (p : CachedPage) : CachedPage := { p with held := p.held.map f }

/-- It is in memory, and was changed. -/
def isDirty (p : CachedPage) : Bool := (p.held.map HeldPage.dirty).getD false

end CachedPage

/-- The stretch has byte number `k` of the file `f`. -/
structure FileBacking.Shows (b : FileBacking) (m : FileImage) (f : FileId) (k : Nat) : Prop where
  file : m.fileOf b.file = f
  first : b.offset ≤ k
  last : k < b.offset + b.readBytes

open PageCache in
/-- What an event makes of the cache. -/
inductive CacheStep (c : PageCache) : CacheEvent → PageCache → Prop
  | entered {s a} (b : FileBacking) (absent : c.page s a = none) :
    CacheStep c (.entered s a) (c.setPage s a (some ⟨b, none⟩))
  | copied {p ch a} {q : CachedPage} {held : Option HeldPage} (absent : c.page ch a = none)
    (original : c.page p a = some q)
    (copy : held = q.held ∨ q.held = none ∧ held = some ⟨q.backing.contents c.files, false⟩) :
    CacheStep c (.copied p ch a) (c.setPage ch a (some ⟨q.backing, held⟩))
  | fetched {s a b} (away : c.page s a = some ⟨b, none⟩) :
    CacheStep c (.fetched s a) (c.setPage s a (some ⟨b, some ⟨b.contents c.files, false⟩⟩))
  | left {s a b bytes} (clean : c.page s a = some ⟨b, some ⟨bytes, false⟩⟩) :
    CacheStep c (.left s a) (c.setPage s a (some ⟨b, none⟩))
  | wroteBack {s a b bytes short} (dirty : c.page s a = some ⟨b, some ⟨bytes, true⟩⟩)
    (within : b.Within c.files) (fewer : ∀ f, short f ≤ c.shortWrites f) :
    CacheStep c (.wroteBack s a (c.files.fileOf b.file) (b.sent c.files bytes b.readBytes))
      ((c.send b bytes b.readBytes short).setPage s a (some ⟨b, some ⟨bytes, false⟩⟩))
  | cameShort {s a b bytes n short} (dirty : c.page s a = some ⟨b, some ⟨bytes, true⟩⟩)
    (most : n ≤ b.readBytes) (reason : b.Within c.files → 0 < c.shortWrites (c.files.fileOf b.file))
    (fewer : ∀ f, short f ≤ c.shortWrites f) :
    CacheStep c (.cameShort s a (c.files.fileOf b.file) (b.sent c.files bytes n))
      (c.send b bytes n short)
  | lost {s a b bytes n short} (dirty : c.page s a = some ⟨b, some ⟨bytes, true⟩⟩)
    (most : n ≤ b.readBytes) (reason : b.Within c.files → 0 < c.shortWrites (c.files.fileOf b.file))
    (fewer : ∀ f, short f ≤ c.shortWrites f) :
    CacheStep c (.lost s a (c.files.fileOf b.file) (b.sent c.files bytes n))
      ((c.send b bytes n short).setPage s a none)
  | removed {s a} (clean : ∀ p, c.page s a = some p → p.isDirty = false) :
    CacheStep c (.removed s a) (c.setPage s a none)
  | stored {s a offset bytes} (held : ∀ p, c.page s a = some p → p.held.isSome = true) :
    CacheStep c (.stored s a offset bytes)
      (c.setPage s a ((c.page s a).map (CachedPage.change (HeldPage.store offset bytes))))
  | poked {s a bytes} :
    CacheStep c (.poked s a bytes)
      (c.setPage s a ((c.page s a).map (CachedPage.change (HeldPage.poke 0 bytes))))
  | marked {s a} :
    CacheStep c (.marked s a) (c.setPage s a ((c.page s a).map (CachedPage.change HeldPage.mark)))
  | mapped {s a r} (absent : c.region s a = none) :
    CacheStep c (.mapped s a r) (c.setRegion s a (some r))
  | unmapped {s a} : CacheStep c (.unmapped s a) (c.setRegion s a none)
  | opened {f} : CacheStep c (.opened f) { c with files := c.files.opening f }
  | created {contents} :
    CacheStep c (.created contents ⟨c.files.files.length⟩)
      { c with files := c.files.creating contents }
  | resized {f n} : CacheStep c (.resized f n) { c with files := c.files.resizing f n }
  | hampered {f n} :
    CacheStep c (.hampered f n)
      { c with shortWrites := fun g => if g = f then n else c.shortWrites g }

/-- From the cache `start` the events of a history, newest first, lead to another cache. -/
inductive CacheHistory (start : PageCache) : List CacheEvent → PageCache → Prop
  | start : CacheHistory start [] start
  | step {past c e c'} : CacheHistory start past c → CacheStep c e c' →
    CacheHistory start (e :: past) c'

namespace CacheHistory

variable {c c₁ c₂ c₃ : PageCache} {es past : List CacheEvent} {e : CacheEvent}

theorem one (step : CacheStep c₁ e c₂) : CacheHistory c₁ [e] c₂ := .step .start step

theorem append (first : CacheHistory c₁ past c₂) (next : CacheHistory c₂ es c₃) :
    CacheHistory c₁ (es ++ past) c₃ := by
  induction next with
  | start => exact first
  | step _ step ih => exact .step ih step

end CacheHistory

/-- Some events of the kind `K` lead from one cache to another. -/
def Leads (K : CacheEvent → Prop) (c c' : PageCache) : Prop :=
  ∃ es, (∀ e ∈ es, K e) ∧ CacheHistory c es c'

namespace Leads

variable {K K' : CacheEvent → Prop} {c c₁ c₂ c₃ : PageCache} {e : CacheEvent}

theorem refl (c : PageCache) : Leads K c c := ⟨[], by simp, .start⟩

theorem one (step : CacheStep c₁ e c₂) (kind : K e) : Leads K c₁ c₂ :=
  ⟨[e], by simpa using kind, .one step⟩

theorem trans (h : Leads K c₁ c₂) (h' : Leads K c₂ c₃) : Leads K c₁ c₃ := by
  obtain ⟨es, hes, first⟩ := h
  obtain ⟨es', hes', next⟩ := h'
  refine ⟨es' ++ es, fun e he => ?_, first.append next⟩
  rcases List.mem_append.mp he with he | he
  · exact hes' e he
  · exact hes e he

theorem mono (h : Leads K c₁ c₂) (imp : ∀ e, K e → K' e) : Leads K' c₁ c₂ := by
  obtain ⟨es, hes, history⟩ := h
  exact ⟨es, fun e he => imp e (hes e he), history⟩

end Leads

end KernelCore
