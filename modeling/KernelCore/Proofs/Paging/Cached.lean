import KernelCore.Proofs.Paging.PageCache
import KernelCore.Proofs.Paging.Progress

/-!
# The page cache of a machine

What memory shows of the files: its file pages with what their frames hold, and its regions. A
change of one page and one frame changes the cache at that page only.
-/
namespace KernelCore

/-- Making room and bringing pages back: file pages move between memory and their files. -/
def CacheEvent.IsPaging : CacheEvent → Prop
  | .fetched .. | .left .. | .wroteBack .. | .cameShort .. => True
  | _ => False

/-- Paging does not need a page that is not changed. -/
theorem Leads.without {c c' : PageCache} (h : Leads CacheEvent.IsPaging c c') {s : SpaceId}
    {a : VirtAddr} (clean : ∀ p, c.page s a = some p → p.isDirty = false) :
    Leads CacheEvent.IsPaging (c.setPage s a none) (c'.setPage s a none) := by
  suffices both : Leads CacheEvent.IsPaging (c.setPage s a none) (c'.setPage s a none) ∧
      ∀ p, c'.page s a = some p → p.isDirty = false from both.1
  obtain ⟨es, kinds, history⟩ := h
  induction history with
  | start => exact ⟨.refl _, clean⟩
  | @step past c₁ e c₂ _ step ih =>
    obtain ⟨first, clean₁⟩ := ih fun e he => kinds e (List.mem_cons_of_mem _ he)
    have kind := kinds e List.mem_cons_self
    have still : ∀ {t b q}, ¬(s = t ∧ a = b) → c₁.page t b = q →
        (c₁.setPage s a none).page t b = q := by
      intro t b q other shown
      rw [PageCache.setPage_page_of_ne _ _ fun same => other ⟨same.1.symm, same.2.symm⟩, shown]
    have dirty_elsewhere : ∀ {t b q}, c₁.page t b = some q → q.isDirty = true →
        ¬(s = t ∧ a = b) := by
      rintro t b q shown dirty ⟨rfl, rfl⟩
      rw [clean₁ q shown] at dirty
      cases dirty
    -- A step of the page itself is left out; one of another page does not depend on it.
    cases step with
    | @fetched t b k away =>
      by_cases here : s = t ∧ a = b
      · obtain ⟨rfl, rfl⟩ := here
        rw [PageCache.setPage_setPage]
        refine ⟨first, fun p hp => ?_⟩
        rw [PageCache.setPage_page] at hp
        cases hp
        rfl
      · rw [PageCache.setPage_comm _ _ _ here, PageCache.setPage_page_of_ne _ _ here]
        exact ⟨first.trans (.one (.fetched (still here away)) trivial), clean₁⟩
    | @left t b k bytes held =>
      by_cases here : s = t ∧ a = b
      · obtain ⟨rfl, rfl⟩ := here
        rw [PageCache.setPage_setPage]
        refine ⟨first, fun p hp => ?_⟩
        rw [PageCache.setPage_page] at hp
        cases hp
        rfl
      · rw [PageCache.setPage_comm _ _ _ here, PageCache.setPage_page_of_ne _ _ here]
        exact ⟨first.trans (.one (.left (still here held)) trivial), clean₁⟩
    | @wroteBack t b k bytes short dirty within fewer =>
      have here := dirty_elsewhere dirty rfl
      rw [PageCache.setPage_comm _ _ _ here, PageCache.setPage_page_of_ne _ _ here]
      exact ⟨first.trans (.one (.wroteBack (still here dirty) within fewer) trivial), clean₁⟩
    | @cameShort t b k bytes n short dirty most reason fewer =>
      have here := dirty_elsewhere dirty rfl
      exact ⟨first.trans (.one (.cameShort (still here dirty) most reason fewer) trivial), clean₁⟩
    | _ => exact kind.elim

/-- What users stored, as events of flat memory. -/
def CacheEvent.store? : CacheEvent → Option MemoryEvent
  | .stored s a offset bytes => some (.stored s a offset bytes)
  | .poked s a bytes => some (.stored s a 0 bytes)
  | _ => none

theorem CacheEvent.store?_of_isPaging {e : CacheEvent} (h : e.IsPaging) : e.store? = none := by
  cases e <;> first | rfl | exact h.elim

/-- A store by a program, or what serving its faults causes. -/
def CacheEvent.IsStoreOrPaging (space : SpaceId) (e : CacheEvent) : Prop :=
  (∃ a offset bytes, e = .stored space a offset bytes) ∨ e.IsPaging

/-- Exactly the given stores happened to the cache, first to last, besides what serving faults
causes. -/
def CacheStores (space : SpaceId) (stores : List MemoryEvent) (c c' : PageCache) : Prop :=
  ∃ es, CacheHistory c es c' ∧ (∀ e ∈ es, e.IsStoreOrPaging space) ∧
    es.reverse.filterMap CacheEvent.store? = stores

section

variable {space : SpaceId} {c c₁ c₂ c₃ : PageCache} {first next : List MemoryEvent}

theorem CacheStores.of_paging (h : Leads CacheEvent.IsPaging c₁ c₂) : CacheStores space [] c₁ c₂ := by
  obtain ⟨es, kinds, history⟩ := h
  refine ⟨es, history, fun e he => .inr (kinds e he), ?_⟩
  rw [List.filterMap_eq_nil_iff]
  intro e he
  exact CacheEvent.store?_of_isPaging (kinds e (List.mem_reverse.mp he))

theorem CacheStores.trans (h : CacheStores space first c₁ c₂) (h' : CacheStores space next c₂ c₃) :
    CacheStores space (first ++ next) c₁ c₃ := by
  obtain ⟨es, history, kinds, stored⟩ := h
  obtain ⟨es', history', kinds', stored'⟩ := h'
  refine ⟨es' ++ es, history.append history', fun e he => ?_, ?_⟩
  · rcases List.mem_append.mp he with he | he
    · exact kinds' e he
    · exact kinds e he
  · rw [List.reverse_append, List.filterMap_append, stored, stored']

/-- A page in memory that is marked and overwritten was stored to. -/
theorem CacheStores.one {va : VirtAddr} {offset : Nat} {bytes : Array UInt8}
    (held : ∀ p, c.page space va = some p → p.held.isSome = true)
    (marked : c₁ = c.setPage space va ((c.page space va).map (CachedPage.change HeldPage.mark)))
    (poked : c₂ = c₁.setPage space va
      ((c₁.page space va).map (CachedPage.change (HeldPage.poke offset bytes)))) :
    CacheStores space [.stored space va offset bytes] c c₂ := by
  have stored : CacheStep c (.stored space va offset bytes) c₂ := by
    subst marked
    have step : CacheStep c (.stored space va offset bytes) _ := .stored held
    rw [PageCache.setPage_setPage, PageCache.setPage_page, Option.map_map] at poked
    have both : CachedPage.change (HeldPage.poke offset bytes) ∘ CachedPage.change HeldPage.mark =
        CachedPage.change (HeldPage.store offset bytes) := by
      funext p
      simp only [Function.comp_apply, CachedPage.change, Option.map_map]
      rfl
    rw [poked, both]
    exact step
  refine ⟨_, .one stored, fun e he => .inl ⟨va, offset, bytes, List.mem_singleton.mp he⟩, rfl⟩

end

namespace VirtualMemory

/-- What a page holds while it is in memory. -/
def heldPage (v : VirtualMemory) (s : SpaceId) (a : VirtAddr) (p : Page) : Option HeldPage :=
  p.frame.bind fun f => (v.frames.frame? f).map fun x =>
    ⟨v.pool.page x.page, v.mmu.isDirty s a⟩

/-- What the cache has of a page, which is nothing if it shows no file. -/
def cachedPage (v : VirtualMemory) (s : SpaceId) (a : VirtAddr) (p : Page) : Option CachedPage :=
  p.mapped?.map fun b => ⟨b, v.heldPage s a p⟩

/-- The file pages, the regions and the files. -/
def cache (v : VirtualMemory) : PageCache where
  page s a := (pageIn? v.spaces s a).bind (v.cachedPage s a)
  region := regionIn? v.spaces
  files := v.files.image
  shortWrites := v.files.shortWrites

variable {v v' w : VirtualMemory} {o : PageRef} {f : FrameId} {p : Page} {p' : Option Page}
  {x : Frame} {x' : Option Frame} {spare : Option FrameId} {s : SpaceId} {a : VirtAddr}
  {b : FileBacking}

theorem cache_eq {c : PageCache} (pages : ∀ s a, v.cache.page s a = c.page s a)
    (regions : ∀ s a, regionIn? v.spaces s a = c.region s a) (image : v.files.image = c.files)
    (short : ∀ f, v.files.shortWrites f = c.shortWrites f) : v.cache = c := by
  obtain ⟨page, region, files, shortWrites⟩ := c
  have samePages : v.cache.page = page := funext fun s => funext fun a => pages s a
  have sameRegions : regionIn? v.spaces = region := funext fun s => funext fun a => regions s a
  have sameShort : v.files.shortWrites = shortWrites := funext short
  dsimp only at image
  rw [← samePages, ← sameRegions, ← image, ← sameShort]
  rfl

theorem cachedPage_of_mapped? (h : p.mapped? = some b) :
    v.cachedPage s a p = some ⟨b, v.heldPage s a p⟩ := by
  unfold cachedPage
  rw [h, Option.map_some]

theorem cachedPage_of_unmapped (h : p.mapped? = none) : v.cachedPage s a p = none := by
  unfold cachedPage
  rw [h, Option.map_none]

theorem heldPage_of_away (away : p.frame = none) : v.heldPage s a p = none := by
  unfold heldPage
  rw [away, Option.bind_none]

theorem heldPage_of_frame (holds : p.frame = some f) (frame : v.frames.frame? f = some x) :
    v.heldPage s a p = some ⟨v.pool.page x.page, v.mmu.isDirty s a⟩ := by
  unfold heldPage
  rw [holds, Option.bind_some, frame, Option.map_some]

theorem cache_page_of_page (page : pageIn? v.spaces s a = some p) :
    v.cache.page s a = v.cachedPage s a p := by
  unfold cache
  dsimp only
  rw [page, Option.bind_some]

theorem cache_page_of_absent (page : pageIn? v.spaces s a = none) : v.cache.page s a = none := by
  unfold cache
  dsimp only
  rw [page, Option.bind_none]

/-- A page of the cache is a page of the machine. -/
theorem exists_of_cached {q : CachedPage} (h : v.cache.page s a = some q) :
    ∃ p, pageIn? v.spaces s a = some p ∧ p.mapped? = some q.backing ∧
      q.held = v.heldPage s a p := by
  obtain ⟨p, page, cached⟩ := Option.bind_eq_some_iff.mp h
  obtain ⟨b, mapped, rfl⟩ := Option.map_eq_some_iff.mp cached
  exact ⟨p, page, mapped, rfl⟩

theorem backing_cache (v : VirtualMemory) (s : SpaceId) (a : VirtAddr) :
    (v.cache.page s a).map CachedPage.backing = mappedIn? v.spaces s a := by
  unfold mappedIn?
  cases page : pageIn? v.spaces s a with
  | none => rw [cache_page_of_absent page, Option.map_none, Option.bind_none]
  | some p =>
    rw [cache_page_of_page page, Option.bind_some]
    unfold cachedPage
    rw [Option.map_map]
    exact Option.map_id_apply

/-- A change of one page and one frame leaves the rest of the cache. -/
theorem Coherent.cache_change (h : Coherent v spare) (c : LocalChange v v' o f p' x')
    (elsewhere : ∀ s a, ¬(s = o.space ∧ a = o.va) → v'.mmu.isDirty s a = v.mmu.isDirty s a) (s a) :
    v'.cache.page s a =
      if s = o.space ∧ a = o.va then p'.bind (v'.cachedPage s a) else v.cache.page s a := by
  unfold cache
  dsimp only
  rw [c.pages]
  by_cases here : s = o.space ∧ a = o.va
  · rw [if_pos here, if_pos here]
  · rw [if_neg here, if_neg here]
    cases page : pageIn? v.spaces s a with
    | none => rw [Option.bind_none, Option.bind_none]
    | some p =>
      rw [Option.bind_some, Option.bind_some]
      have held : v'.heldPage s a p = v.heldPage s a p := by
        cases holds : p.frame with
        | none => rw [heldPage_of_away holds, heldPage_of_away holds]
        | some g =>
          have ne := h.frame_ne c here page holds
          obtain ⟨y, frame, -⟩ := h.resident page holds
          have frame' : v'.frames.frame? g = some y := by rw [c.frames, if_neg ne, frame]
          rw [heldPage_of_frame holds frame, heldPage_of_frame holds frame', elsewhere s a here,
            c.contents y.page ((h.taken _).mpr ⟨g, y, frame, rfl⟩) (h.page_ne frame ne)]
      unfold cachedPage
      rw [held]

/-- What one page holds changed. -/
theorem cache_of_held {g : HeldPage → HeldPage} (spaces : w.spaces = v.spaces)
    (files : v.files.Alike w.files)
    (held : ∀ s b q, pageIn? v.spaces s b = some q → w.heldPage s b q =
      if s = o.space ∧ b = o.va then (v.heldPage s b q).map g else v.heldPage s b q) :
    w.cache = v.cache.setPage o.space o.va
      ((v.cache.page o.space o.va).map (CachedPage.change g)) := by
  refine cache_eq (fun s b => ?_) (fun _ _ => by rw [spaces]; rfl) files.image files.short
  have page : w.cache.page s b = (v.cache.page s b).map
      (if s = o.space ∧ b = o.va then CachedPage.change g else id) := by
    cases page : pageIn? v.spaces s b with
    | none =>
      rw [cache_page_of_absent page, cache_page_of_absent (by rw [spaces, page]), Option.map_none]
    | some q =>
      rw [cache_page_of_page page, cache_page_of_page (by rw [spaces, page])]
      unfold cachedPage
      rw [Option.map_map, held s b q page]
      congr 1
      funext c
      split <;> rfl
  rw [page]
  unfold PageCache.setPage
  dsimp only
  split
  · rename_i here
    rw [here.1, here.2]
  · exact Option.map_id_apply

/-- A frame that holds no page does not show. -/
theorem FrameChange.cache (c : FrameChange v v' f x') (h : Coherent v spare)
    (dirty : v.mmu.SameDirty v'.mmu) (files : v.files.Alike v'.files) : v'.cache = v.cache := by
  refine cache_eq (fun s a => ?_) (fun _ _ => by rw [c.spaces]; rfl) files.image files.short
  rw [h.cache_change (c.toLocal h) fun s a _ => dirty s a]
  split
  · rename_i here
    have absent : pageIn? v.spaces s a = none := by rw [here.1, h.page_of_next]
    rw [Option.bind_none, cache_page_of_absent absent]
  · rfl

/-- Marks of accesses, anonymous pages and counts do not show in the cache. -/
theorem cache_of_same (pages : ∀ s a, pageIn? w.spaces s a = pageIn? v.spaces s a)
    (regions : ∀ s a, regionIn? w.spaces s a = regionIn? v.spaces s a)
    (frames : ∀ g, w.frames.frame? g = v.frames.frame? g) (dirty : v.mmu.SameDirty w.mmu)
    (pool : w.pool = v.pool) (files : v.files.Alike w.files) : w.cache = v.cache := by
  have same : w.cachedPage = v.cachedPage := by
    funext s a p
    unfold cachedPage heldPage
    simp only [frames, pool, dirty s a]
  refine cache_eq (fun s a => ?_) regions files.image files.short
  unfold cache
  dsimp only
  rw [pages, same]

end VirtualMemory

end KernelCore
