import Mathlib.Data.List.Induction
import KernelCore.Paging.Request
import KernelCore.Proofs.Paging.Accessing
import KernelCore.Proofs.Paging.Duplicating
import KernelCore.Proofs.Paging.Mapping

/-!
# Serving requests

Every request leaves memory in order, whatever it stops for. What it did to flat memory is told by
events of the kinds it may cause, and the only contracts it violates are those of its own terms.
-/
namespace KernelCore.VirtualMemory

open Transition

/-! ## What a request may cause -/

/-- The creator of a file holds a description of it. -/
def Holds (v : VirtualMemory) (f : FileId) (d : DescriptionId) : Prop :=
  ∃ x, v.files.files[f.index]? = some x ∧ x.handle = some d

/-- A file was named that does not exist, or that its creator let go. -/
def Misnamed (v : VirtualMemory) (f : FileId) (x : Violation) : Prop :=
  v.files.files[f.index]? = none ∧ x = .noSuchHandle v.files.files.length f.index ∨
    ∃ y, v.files.files[f.index]? = some y ∧ y.handle = none ∧ x = .check

/-- The loader of an untouched page by what it is to be filled with. -/
def Source.Gives (v : VirtualMemory) : Source → Loader → Prop
  | .zeroFill, loader => loader = .zeroFill
  | .segment file offset readBytes zeroBytes, loader => ∃ d b, v.Holds file d ∧
    FileBacking.make d offset readBytes zeroBytes = .ok b ∧ loader = .segment b

namespace Request

/-- What a request may cause to happen to flat memory. -/
def Causes (v : VirtualMemory) : Request → MemoryEvent → Prop
  | .destroySpace space, e => e.IsDrop space
  | .duplicateSpace parent child, e => e.IsCopyAttempt parent child
  | .allocateAnonymous space va _, e => e = .entered space va .zeroFill
  | .allocateLazy space va _ _ source, e =>
    ∃ loader, source.Gives v loader ∧ e = .entered space va loader
  | .setupStack space, e => e.IsFault space
  | .loadSegment space file offset start readBytes _ _, e =>
    ∃ d, v.Holds file d ∧ e.IsSegmentEntry space d offset start readBytes
  | .claim space _, e => e.IsPaging space
  | .mapFile .., e => e.IsOpening
  | .unmapFile .., e => e.IsWriteBack
  | .fault space _ _ _, e => e.IsFault space
  | .poke space va bytes, e => e = .stored space va.floor 0 bytes
  | .store space _ _, e => IsStoreOrFault space e
  | .load space _ _, e => e.IsFault space
  | .createFile contents, e => ∃ f, e = .created contents f
  | .setFileLength f n, e => e = .resized f n
  | _, _ => False

/-- What a request may cause to happen to the page cache. -/
def CausesInCache (v : VirtualMemory) : Request → CacheEvent → Prop
  | .destroySpace space, e => e.IsTaking space (fun _ => True) fun _ => True
  | .duplicateSpace parent child, e => e.IsCopyAttempt parent child
  | .allocateLazy space _ _ target _, e => e.IsEntry target space
  | .setupStack _, e | .claim .., e | .fault .., e | .load .., e => e.IsPaging
  | .mapFile space start _ _ _ _, e => e.IsMapping space start
  | .unmapFile space start, e => e.IsTaking space (v.RegionPages space start) (· = start)
  | .poke space va bytes, e => e = .poked space va.floor bytes
  | .touch space va write, e => write = true ∧ e = .marked space va.floor
  | .store space _ _, e => e.IsStoreOrPaging space
  | .createFile contents, e => ∃ f, e = .created contents f
  | .setFileLength f n, e => e = .resized f n
  | .setShortWrites f n, e => e = .hampered f n
  | _, _ => False

/-- What the request asks to be stored, first to last. -/
def stores : Request → List MemoryEvent
  | .poke space va bytes => [.stored space va.floor 0 bytes]
  | .store space a bytes => storesFrom space a bytes 0
  | _ => []

def isStore : Request → Bool
  | .poke .. => true
  | .store .. => true
  | _ => false

theorem not_isStored_of_causes {v : VirtualMemory} {r : Request} {e : MemoryEvent}
    (h : r.isStore = false) (c : r.Causes v e) : e.isStored = false := by
  cases e with
  | stored space va offset bytes =>
    cases r with
    | allocateLazy =>
      obtain ⟨_, _, same⟩ := c
      cases same
    | loadSegment =>
      obtain ⟨_, _, kind⟩ := c
      exact kind.elim
    | createFile =>
      obtain ⟨_, same⟩ := c
      cases same
    | allocateAnonymous => cases c
    | setFileLength => cases c
    | poke => cases h
    | store => cases h
    | _ => exact c.elim
  | _ => rfl

theorem store?_of_causesInCache {v : VirtualMemory} {r : Request} {e : CacheEvent}
    (h : r.isStore = false) (c : r.CausesInCache v e) : e.store? = none := by
  cases e with
  | stored | poked =>
    cases r with
    | createFile =>
      obtain ⟨_, same⟩ := c
      cases same
    | touch => cases c.2
    | setFileLength => cases c
    | setShortWrites => cases c
    | poke => cases h
    | store => cases h
    | _ => exact c.elim
  | _ => rfl

/-- Why a request may stop the kernel: one space more than there are numbers for, a file that is not
there, sizes that make up no page or places that are no addresses, and more bytes than a page has. -/
def Blamed (v : VirtualMemory) : Request → Violation → Prop
  | .createSpace, x => x = .arithmetic .addition ∧ spaceLimit ≤ v.nextSpace
  | .allocateLazy _ _ _ _ (.segment file offset readBytes zeroBytes), x =>
    v.Misnamed file x ∨ ∃ d, FileBacking.make d offset readBytes zeroBytes = .error x
  | .loadSegment _ file _ _ _ _ _, x => v.Misnamed file x ∨ ∃ f, x = .arithmetic f
  | .mapFile _ _ _ _ file _, x => v.Misnamed file x ∨ ∃ f, x = .arithmetic f
  | .poke _ _ bytes, x => x = .tooFewBytes bytes.size pageSize ∧ pageSize < bytes.size
  | .dropFile f, x | .setFileLength f _, x | .setShortReads f _, x | .setShortWrites f _, x
  | .setReopenable f _, x | .fileContents f, x | .fileWrites f, x => v.Misnamed f x
  | _, _ => False

end Request

/-! ## What a request leaves -/

/-- The events, newest first, tell what a request did to flat memory. -/
structure Accounts (r : Request) (v : VirtualMemory) (result : Except Violation Reply)
    (w : VirtualMemory) (es : List MemoryEvent) : Prop where
  history : History v.flat es w.flat
  caused : ∀ e ∈ es, r.Causes v e
  /-- Bytes are stored in order. -/
  stored : es.reverse.filter MemoryEvent.isStored <+: r.stores
  /-- A store that is done has stored everything. -/
  complete : result = .ok .done → es.reverse.filter MemoryEvent.isStored = r.stores
  /-- A copy that is done has everything users see in the original, and nothing else. -/
  copied : ∀ parent child, r = .duplicateSpace parent child → result = .ok .done →
    (∀ e ∈ es, e.IsCopy parent child) ∧
      ∀ a p, v.flat.page parent a = some p → w.flat.page child a = some p

/-- The events, newest first, tell what a request did to the page cache. -/
structure Tells (r : Request) (v : VirtualMemory) (result : Except Violation Reply)
    (w : VirtualMemory) (es : List CacheEvent) : Prop where
  history : CacheHistory v.cache es w.cache
  caused : ∀ e ∈ es, r.CausesInCache v e
  /-- Bytes are stored in order. -/
  stored : es.reverse.filterMap CacheEvent.store? <+: r.stores
  /-- A store that is done has stored everything. -/
  complete : result = .ok .done → es.reverse.filterMap CacheEvent.store? = r.stores

/-- What some requests have done besides, if they were carried out. -/
def Request.Fulfilled (v w : VirtualMemory) : Request → Reply → Prop
  | .destroySpace space, .done => ∀ a, pageIn? w.spaces space a = none
  | .unmapFile space start, .done =>
    ∀ a, v.RegionPages space start a → pageIn? w.spaces space a = none
  | .duplicateSpace parent child, .done => SpaceCopied v parent child w
  | .load space a _, .bytes bytes => CachedFrom v space a bytes
  | _, _ => True

/-- The state a request leaves and what it replies. -/
structure Served (r : Request) (v : VirtualMemory) (result : Except Violation Reply)
    (w : VirtualMemory) : Prop where
  coherent : Coherent w none
  regions : RegionsBacked w
  accounts : ∃ es, Accounts r v result w es
  told : ∃ es, Tells r v result w es
  loaded : ∀ space a length bytes, r = .load space a length → result = .ok (.bytes bytes) →
    LoadedFrom w space a length bytes
  fulfilled : ∀ reply, result = .ok reply → r.Fulfilled v w reply

/-- How serving a request ends. -/
def Serves (r : Request) (v : VirtualMemory) : Prop :=
  (serve r).Ends v (fun reply w => Served r v (.ok reply) w) fun e w => match e with
    | .refused e => Served r v (.ok (.refused e)) w
    | .violated x => Served r v (.error x) w ∧ r.Blamed v x

variable {α : Type} {v w : VirtualMemory} {r : Request} {result : Except Violation Reply}
  {P : MemoryEvent → Prop} {K : CacheEvent → Prop}

/-- A request that neither stores nor loads nor copies, and takes nothing away. -/
def Request.isPlain : Request → Bool
  | .poke .. | .store .. | .load .. | .duplicateSpace .. | .destroySpace .. | .unmapFile .. => false
  | _ => true

theorem Request.fulfilled_of_isPlain (plain : r.isPlain = true) (reply : Reply) :
    r.Fulfilled v w reply := by
  cases r <;> first | exact trivial | cases plain

theorem Accounts.of_happens (store : r.isStore = false)
    (copy : ∀ parent child, r ≠ .duplicateSpace parent child)
    (happens : Happens (r.Causes v) v.flat w.flat) : ∃ es, Accounts r v result w es := by
  obtain ⟨es, kinds, history⟩ := happens
  have none : es.reverse.filter MemoryEvent.isStored = [] := by
    rw [List.filter_eq_nil_iff]
    intro e he
    have kind := kinds e (List.mem_reverse.mp he)
    simp [Request.not_isStored_of_causes store kind]
  have nothing : r.stores = [] := by
    cases r <;> first | rfl | cases store
  refine ⟨es, history, kinds, ?_, fun _ => ?_, fun parent child same => absurd same (copy _ _)⟩
  · rw [none]
    exact List.nil_prefix
  · rw [none, nothing]

theorem Tells.of_leads (store : r.isStore = false)
    (leads : Leads (r.CausesInCache v) v.cache w.cache) : ∃ es, Tells r v result w es := by
  obtain ⟨es, kinds, history⟩ := leads
  have none : es.reverse.filterMap CacheEvent.store? = [] := by
    rw [List.filterMap_eq_nil_iff]
    intro e he
    exact Request.store?_of_causesInCache store (kinds e (List.mem_reverse.mp he))
  have nothing : r.stores = [] := by
    cases r <;> first | rfl | cases store
  refine ⟨es, history, kinds, ?_, fun _ => ?_⟩
  · rw [none]
    exact List.nil_prefix
  · rw [none, nothing]

/-- Requests that neither store nor load nor copy. -/
theorem Served.of_fulfilled (store : r.isStore = false)
    (copy : ∀ parent child, r ≠ .duplicateSpace parent child)
    (load : ∀ space a length, r ≠ .load space a length)
    (h : InOrder (r.Causes v) (r.CausesInCache v) v w)
    (fulfilled : ∀ reply, result = .ok reply → r.Fulfilled v w reply) : Served r v result w where
  coherent := h.coherent
  regions := h.regions
  accounts := Accounts.of_happens store copy h.happens
  told := Tells.of_leads store h.cached
  loaded space a length _ same := absurd same (load space a length)
  fulfilled := fulfilled

theorem Served.of_inOrder (plain : r.isPlain = true)
    (h : InOrder (r.Causes v) (r.CausesInCache v) v w) : Served r v result w := by
  refine .of_fulfilled ?_ ?_ ?_ h fun reply _ => Request.fulfilled_of_isPlain plain reply
  · cases r <;> first | rfl | cases plain
  · rintro parent child rfl
    cases plain
  · rintro space a length rfl
    cases plain

theorem InOrder.refl (coherent : Coherent v none) (regions : RegionsBacked v) : InOrder P K v v :=
  ⟨coherent, regions, .refl _, .refl _⟩

/-- A request that is carried out by a transition which keeps memory in order. -/
theorem serves_of_ends {t : Paging α} {reply : α → Reply} (plain : r.isPlain = true)
    (h : t.Ends v (fun _ w => InOrder (r.Causes v) (r.CausesInCache v) v w)
      (fun e w => InOrder (r.Causes v) (r.CausesInCache v) v w ∧
        ∀ x, e = .violated x → r.Blamed v x)) :
    (t >>= fun a => pure (reply a)).Ends v (fun reply w => Served r v (.ok reply) w)
      fun e w => match e with
        | .refused e => Served r v (.ok (.refused e)) w
        | .violated x => Served r v (.error x) w ∧ r.Blamed v x := by
  rw [ends_bind]
  refine h.mono (fun a w inOrder => ?_) fun e w stopped => ?_
  · exact .of_inOrder plain inOrder
  · cases e with
    | refused e => exact .of_inOrder plain stopped.1
    | violated x => exact ⟨.of_inOrder plain stopped.1, stopped.2 x rfl⟩

theorem ends_of_keeps {t : Paging α} {A : Stop → Prop} (regions : RegionsBacked v)
    (k : Keeps P K A t v) (imp : ∀ e, P e → r.Causes v e)
    (cached : ∀ e, K e → r.CausesInCache v e) (blame : ∀ x, A (.violated x) → r.Blamed v x) :
    t.Ends v (fun _ w => InOrder (r.Causes v) (r.CausesInCache v) v w)
      (fun e w => InOrder (r.Causes v) (r.CausesInCache v) v w ∧
        ∀ x, e = .violated x → r.Blamed v x) := by
  refine Ends.mono k (fun _ w ⟨coherent, follows, leads⟩ => ?_)
    fun e w ⟨reason, coherent, follows, leads⟩ => ?_
  · exact .of_follows coherent regions (follows.mono imp) (leads.mono cached)
  · refine ⟨.of_follows coherent regions (follows.mono imp) (leads.mono cached), fun x hx => blame x ?_⟩
    rwa [← hx]

theorem not_isRefusal_violated {x : Violation} : ¬(Stop.violated x).IsRefusal := by
  rintro ⟨r, hr⟩
  cases hr

theorem eq_arithmetic_of_isRefusalOrFault {x : Violation}
    (h : (Stop.violated x).IsRefusalOrFault) : ∃ f, x = .arithmetic f := by
  rcases h with refusal | ⟨f, hf⟩
  · exact absurd refusal not_isRefusal_violated
  · cases hf
    exact ⟨f, rfl⟩

/-! ## Files that are named -/

theorem fileNumbered_ends (f : FileId) :
    (fileNumbered f).Ends v (fun x w => w = v ∧ v.files.files[f.index]? = some x)
      (fun e w => w = v ∧ ∃ x, e = .violated x ∧ v.Misnamed f x) := by
  unfold fileNumbered
  rw [ends_bind, ends_get]
  cases found : v.files.files[f.index]? with
  | none => exact ⟨rfl, _, rfl, .inl ⟨found, rfl⟩⟩
  | some x => exact ⟨rfl, rfl⟩

theorem handle_ends (f : FileId) :
    (handle f).Ends v (fun d w => w = v ∧ v.Holds f d)
      (fun e w => w = v ∧ ∃ x, e = .violated x ∧ v.Misnamed f x) := by
  unfold handle
  rw [ends_bind]
  refine (fileNumbered_ends f).mono (fun x w found => ?_) fun _ _ h => h
  obtain ⟨rfl, found⟩ := found
  cases held : x.handle with
  | none => exact ⟨rfl, _, rfl, .inr ⟨x, found, held, rfl⟩⟩
  | some d => exact ⟨rfl, x, found, held⟩

theorem Source.loader_ends (source : Source) :
    source.loader.Ends v (fun loader w => w = v ∧ source.Gives v loader)
      (fun e w => w = v ∧ ∃ x, e = .violated x ∧
        ∀ space va writable target,
          Request.Blamed v (.allocateLazy space va writable target source) x) := by
  cases source with
  | zeroFill => exact ⟨rfl, rfl⟩
  | segment file offset readBytes zeroBytes =>
    unfold loader
    rw [ends_bind]
    refine (handle_ends file).mono (fun d w held => ?_) fun e w stopped => ?_
    · obtain ⟨rfl, held⟩ := held
      rw [ends_bind]
      cases made : FileBacking.make d offset readBytes zeroBytes with
      | error x => exact ⟨rfl, x, rfl, fun _ _ _ _ => .inr ⟨d, made⟩⟩
      | ok b => exact ⟨rfl, d, b, held, made, rfl⟩
    · obtain ⟨rfl, x, rfl, misnamed⟩ := stopped
      exact ⟨rfl, x, rfl, fun _ _ _ _ => .inl misnamed⟩

/-- A change of a file that either does not show or shows as an event. -/
theorem changeFile_serves {f : FileId} {change : FileStore → FileStore} (h : Coherent v none)
    (regions : RegionsBacked v) (plain : r.isPlain = true)
    (shown : Happens (r.Causes v) v.flat ⟨v.flat.page, (change v.files).image⟩)
    (cached : ∀ x, v.files.files[f.index]? = some x → Leads (r.CausesInCache v) v.cache
      (VirtualMemory.cache { v with files := change v.files }))
    (blame : ∀ x, v.Misnamed f x → r.Blamed v x) :
    (changeFile f change).Ends v (fun reply w => Served r v (.ok reply) w)
      fun e w => match e with
        | .refused e => Served r v (.ok (.refused e)) w
        | .violated x => Served r v (.error x) w ∧ r.Blamed v x := by
  unfold changeFile
  rw [ends_bind]
  refine (fileNumbered_ends f).mono (fun x w found => ?_) fun e w stopped => ?_
  · obtain ⟨rfl, found⟩ := found
    rw [ends_bind, ends_modify, ends_pure]
    have places : SamePlaces w { w with files := change w.files } := .of_spaces (by rfl)
    have follows : Follows (r.Causes w) w { w with files := change w.files } :=
      places.follows shown
    have coherent : Coherent { w with files := change w.files } none :=
      h.of_same rfl (fun _ => rfl) (.refl _) rfl rfl rfl
    exact .of_inOrder plain (.of_follows coherent regions follows (cached x found))
  · obtain ⟨rfl, x, rfl, misnamed⟩ := stopped
    exact ⟨.of_inOrder plain (.refl h regions), blame x misnamed⟩

/-- What a look at a file ends with. -/
theorem readFile_serves {f : FileId} {reply : StoredFile → Reply} (h : Coherent v none)
    (regions : RegionsBacked v) (plain : r.isPlain = true)
    (blame : ∀ x, v.Misnamed f x → r.Blamed v x) :
    (fileNumbered f >>= fun x => pure (reply x)).Ends v
      (fun reply w => Served r v (.ok reply) w)
      fun e w => match e with
        | .refused e => Served r v (.ok (.refused e)) w
        | .violated x => Served r v (.error x) w ∧ r.Blamed v x := by
  rw [ends_bind]
  refine (fileNumbered_ends f).mono (fun x w found => ?_) fun e w stopped => ?_
  · obtain ⟨rfl, -⟩ := found
    exact .of_inOrder plain (.refl h regions)
  · obtain ⟨rfl, x, rfl, misnamed⟩ := stopped
    exact ⟨.of_inOrder plain (.refl h regions), blame x misnamed⟩

/-! ## Single requests -/

/-- Only pages in memory have a physical page. -/
theorem inMemory_of_physicalPage {space : SpaceId} {va : VirtAddr} {pa : PhysAddr}
    (place : v.physicalPage? space va = some pa) :
    InMemory v space va.floor := by
  unfold physicalPage? at place
  obtain ⟨f, resident, -⟩ := Option.bind_eq_some_iff.mp place
  obtain ⟨p, page, frame⟩ := Option.bind_eq_some_iff.mp resident
  exact ⟨p, f, page, frame⟩

/-- The next space was added, without pages. -/
structure SpaceCreated (v w : VirtualMemory) : Prop where
  coherent : Coherent w none
  backed : RegionsBacked w
  flat : w.flat = v.flat
  cache : w.cache = v.cache
  pages : ∀ s a, pageIn? w.spaces s a = pageIn? v.spaces s a
  regions : ∀ s a, regionIn? w.spaces s a = regionIn? v.spaces s a
  created : (w.spaces.find? ⟨v.nextSpace⟩).isSome = true
  live : ∀ s, s ≠ ⟨v.nextSpace⟩ → (w.spaces.find? s).isSome = (v.spaces.find? s).isSome

section

variable (h : Coherent v none) (regions : RegionsBacked v) {space : SpaceId} {va a : VirtAddr}

include h regions

/-- A change that users of anonymous pages do not see. -/
theorem serves_silently (plain : r.isPlain = true) (spaces : w.spaces = v.spaces)
    (frames : w.frames = v.frames) (targets : v.mmu.SameTargets w.mmu) (pool : w.pool = v.pool)
    (swap : w.swap = v.swap) (files : w.files = v.files) (next : w.nextSpace = v.nextSpace)
    (cached : Leads (r.CausesInCache v) v.cache w.cache) : Served r v result w := by
  have frame : ∀ g, w.frames.frame? g = v.frames.frame? g := fun g => by rw [frames]
  have flat : w.flat = v.flat :=
    flat_of_same (fun _ _ => by rw [spaces]) frame pool swap (by rw [files])
  have places : SamePlaces v w := .of_spaces spaces
  exact .of_inOrder plain (.of_follows (h.of_same spaces frame targets pool swap next) regions
    (places.silent flat) cached)

theorem touch_serves (write : Bool) : Serves (.touch space va write) v := by
  refine serves_silently h regions rfl rfl rfl (Mmu.sameTargets_touch write) rfl rfl rfl rfl ?_
  cases write with
  | false =>
    have same : VirtualMemory.cache { v with mmu := v.mmu.touch space va false } = v.cache :=
      cache_touch_of_read
    change Leads _ v.cache (VirtualMemory.cache { v with mmu := v.mmu.touch space va false })
    rw [same]
    exact .refl _
  | true =>
    change Leads _ v.cache (VirtualMemory.cache { v with mmu := v.mmu.touch space va true })
    rw [h.cache_touch]
    exact .one .marked ⟨rfl, rfl⟩

theorem createSpace_ends :
    createSpace.Ends v (fun space w => space = ⟨v.nextSpace⟩ ∧ SpaceCreated v w)
      (fun e w => w = v ∧ e = .violated (.arithmetic .addition) ∧ spaceLimit ≤ v.nextSpace) := by
  unfold createSpace
  simp only [ends_bind, ends_get, ends_ensure, ends_modify, ends_emit, ends_pure, true_and]
  refine ⟨fun _ => ?_, Nat.le_of_not_lt⟩
  have pages : ∀ s a, pageIn? (v.spaces.insert ⟨v.nextSpace⟩ .empty) s a = pageIn? v.spaces s a := by
    intro s a
    rw [pageIn?_insert]
    split
    · rename_i here
      rw [here, h.page_of_next]
      rfl
    · rfl
  have same : ∀ s a, regionIn? (v.spaces.insert ⟨v.nextSpace⟩ .empty) s a =
      regionIn? v.spaces s a := by
    intro s a
    rw [regionIn?_insert]
    split
    · rename_i here
      simp only [here, regionIn?, h.find?_next, Option.bind_none]
      rfl
    · rfl
  refine ⟨?_, ?_, ?_, ?_, pages, same, ?_, fun s other => ?_⟩
  · refine h.of_pages pages (fun _ => rfl) (.refl _) rfl rfl fun s hs => ?_
    dsimp only at hs ⊢
    rw [Table.find?_insert] at hs
    split at hs
    · rename_i here
      rw [here]
      exact Nat.lt_succ_self _
    · exact Nat.lt_succ_of_lt (h.numbered hs)
  · refine regions.shrink (fun region => ?_) fun _ _ => ?_
    · rw [← same]
      exact region
    · unfold mappedIn?
      rw [pages]
  · exact flat_of_same pages (fun _ => rfl) rfl rfl rfl
  · exact cache_of_same pages same (fun _ => rfl) (.refl _) rfl (.refl _)
  · dsimp only
    rw [Table.find?_insert, if_pos rfl, Option.isSome_some]
  · dsimp only
    rw [Table.find?_insert, if_neg other]

theorem createSpace_serves : Serves .createSpace v := by
  unfold Serves serve
  rw [ends_bind]
  refine (createSpace_ends h regions).mono (fun _ w created => ?_) fun _ w stopped => ?_
  · obtain ⟨-, created⟩ := created
    rw [ends_pure]
    refine .of_inOrder rfl ⟨created.coherent, created.backed, ?_, ?_⟩
    · rw [created.flat]
      exact .refl _
    · rw [created.cache]
      exact .refl _
  · obtain ⟨rfl, rfl, used⟩ := stopped
    exact ⟨.of_inOrder rfl (.refl h regions), rfl, used⟩

theorem allocateLazy_serves (writable : Bool) (target : PageType) (source : Source) :
    Serves (.allocateLazy space va writable target source) v := by
  unfold Serves serve
  rw [ends_bind]
  refine source.loader_ends.mono (fun loader w given => ?_) fun e w stopped => ?_
  · obtain ⟨rfl, given⟩ := given
    refine serves_of_ends rfl (ends_of_keeps regions
      (allocateLazy_keeps h writable target loader) (fun e he => ⟨loader, given, he⟩)
      (fun _ he => he) fun x hx => ?_)
    exact absurd hx not_isRefusal_violated
  · obtain ⟨rfl, x, rfl, blamed⟩ := stopped
    exact ⟨.of_inOrder rfl (.refl h regions), blamed space va writable target⟩

theorem loadSegment_serves (file : FileId) (offset : Nat) (readBytes zeroBytes : Nat)
    (writable : Bool) :
    Serves (.loadSegment space file offset va readBytes zeroBytes writable) v := by
  unfold Serves serve
  rw [ends_bind]
  refine (handle_ends file).mono (fun d w held => ?_) fun e w stopped => ?_
  · obtain ⟨rfl, held⟩ := held
    refine serves_of_ends rfl (ends_of_keeps regions
      (loadSegment_keeps h d offset va readBytes zeroBytes writable)
      (fun e he => ⟨d, held, he⟩) (fun _ he => he) fun x hx => ?_)
    exact .inr (eq_arithmetic_of_isRefusalOrFault hx)
  · obtain ⟨rfl, x, rfl, misnamed⟩ := stopped
    exact ⟨.of_inOrder rfl (.refl h regions), .inl misnamed⟩

theorem mapFile_serves (length : Nat) (writable : Bool) (file : FileId) (offset : Nat) :
    Serves (.mapFile space va length writable file offset) v := by
  unfold Serves serve
  rw [ends_bind]
  refine (handle_ends file).mono (fun d w held => ?_) fun e w stopped => ?_
  · obtain ⟨rfl, held⟩ := held
    refine serves_of_ends rfl
      ((mapFile_ends h regions length writable d).mono (fun _ w mapped => mapped.2.1.inOrder)
        fun e w stopped => ⟨stopped.inOrder h regions, fun x hx => ?_⟩)
    have reason := stopped.isRefusalOrFault
    rw [hx] at reason
    exact .inr (eq_arithmetic_of_isRefusalOrFault reason)
  · obtain ⟨rfl, x, rfl, misnamed⟩ := stopped
    exact ⟨.of_inOrder rfl (.refl h regions), .inl misnamed⟩

/-- A request that stops only before it has done anything. -/
theorem serves_of_all_or_nothing {t : Paging Unit} (store : r.isStore = false)
    (copy : ∀ parent child, r ≠ .duplicateSpace parent child)
    (load : ∀ space a length, r ≠ .load space a length)
    (refused : ∀ e, r.Fulfilled v v (.refused e))
    (k : t.Ends v
      (fun _ w => InOrder (r.Causes v) (r.CausesInCache v) v w ∧ r.Fulfilled v w .done)
      (fun e w => e.IsRefusal ∧ w = v)) :
    (done t).Ends v (fun reply w => Served r v (.ok reply) w)
      fun e w => match e with
        | .refused e => Served r v (.ok (.refused e)) w
        | .violated x => Served r v (.error x) w ∧ r.Blamed v x := by
  unfold done
  rw [ends_bind]
  refine k.mono (fun _ w finished => ?_) fun e w stopped => ?_
  · obtain ⟨inOrder, fulfilled⟩ := finished
    refine .of_fulfilled store copy load inOrder fun reply same => ?_
    cases same
    exact fulfilled
  · obtain ⟨⟨e, rfl⟩, rfl⟩ := stopped
    refine .of_fulfilled store copy load (.refl h regions) fun reply same => ?_
    cases same
    exact refused e

theorem destroySpace_serves : Serves (.destroySpace space) v :=
  serves_of_all_or_nothing h regions rfl nofun nofun (fun _ => trivial)
    ((destroySpace_ends h regions).mono (fun _ _ destroyed => ⟨destroyed.inOrder, destroyed.absent⟩)
      fun _ _ stopped => ⟨stopped.1, stopped.2.2⟩)

theorem unmapFile_serves : Serves (.unmapFile space va) v :=
  serves_of_all_or_nothing h regions rfl nofun nofun (fun _ => trivial)
    ((unmapFile_ends h regions).mono (fun _ _ unmapped => ⟨unmapped.inOrder, unmapped.absent⟩)
      fun _ _ stopped => ⟨stopped.1, stopped.2.2⟩)

theorem duplicateSpace_serves (parent child : SpaceId) :
    Serves (.duplicateSpace parent child) v := by
  have stores : ∀ {e : MemoryEvent}, e.IsCopyAttempt parent child → e.isStored = false := by
    intro e kind
    exact Request.not_isStored_of_causes (v := v) (r := .duplicateSpace parent child) rfl kind
  have none : ∀ {es : List MemoryEvent}, (∀ e ∈ es, e.IsCopyAttempt parent child) →
      es.reverse.filter MemoryEvent.isStored = [] := by
    intro es kinds
    rw [List.filter_eq_nil_iff]
    intro e he
    simp [stores (kinds e (List.mem_reverse.mp he))]
  unfold Serves serve done
  rw [ends_bind]
  refine (duplicateSpace_ends h regions).mono (fun _ w copied => ?_) fun e w stopped => ?_
  · obtain ⟨es, kinds, history⟩ := copied.inOrder.happens
    have attempts : ∀ e ∈ es, e.IsCopyAttempt parent child :=
      fun e he => (kinds e he).isCopyAttempt
    refine ⟨copied.inOrder.coherent, copied.inOrder.regions, ⟨es, history, attempts, ?_,
      fun _ => ?_, fun p c same _ => ?_⟩,
      Tells.of_leads rfl (copied.inOrder.cached.mono fun _ e => e.isCopyAttempt), nofun,
      fun reply same => ?_⟩
    · rw [none attempts]
      exact List.nil_prefix
    · rw [none attempts]
      rfl
    · cases same
      exact ⟨kinds, copied.shown⟩
    · cases same
      exact copied
  · obtain ⟨⟨m, rfl⟩, ⟨inOrder, -, -, -⟩⟩ := stopped
    obtain ⟨es, kinds, history⟩ := inOrder.happens
    refine ⟨inOrder.coherent, inOrder.regions, ⟨es, history, kinds, ?_, nofun, nofun⟩,
      Tells.of_leads rfl inOrder.cached, nofun, fun reply same => ?_⟩
    · rw [none kinds]
      exact List.nil_prefix
    · cases same
      exact trivial

theorem load_serves (length : Nat) : Serves (.load space a length) v := by
  have accounts : ∀ {w result}, Faulted v space w →
      (∃ es, Accounts (.load space a length) v result w es) ∧
        ∃ es, Tells (.load space a length) v result w es :=
    fun served => ⟨Accounts.of_happens rfl nofun served.follows.happens,
      Tells.of_leads rfl served.cached⟩
  unfold Serves serve
  rw [ends_bind]
  refine (load_ends h length).mono (fun bytes w loaded => ?_) fun e w stopped => ?_
  · obtain ⟨served, contents⟩ := loaded
    refine ⟨served.coherent, regions.follows served.follows, (accounts served).1,
      (accounts served).2, fun s b n found same reply => ?_, fun reply same => ?_⟩
    · cases same
      cases bytes with
      | none => cases reply
      | some bytes =>
        cases reply
        exact (contents _ rfl).1
    · cases same
      cases bytes with
      | none => exact trivial
      | some bytes => exact (contents _ rfl).2
  · obtain ⟨⟨m, rfl⟩, served⟩ := stopped
    refine ⟨served.coherent, regions.follows served.follows, (accounts served).1,
      (accounts served).2, nofun, fun reply same => ?_⟩
    cases same
    exact trivial

theorem store_serves (bytes : Array UInt8) : Serves (.store space a bytes) v := by
  have fulfilled : ∀ {w : VirtualMemory} (reply : Reply),
      Request.Fulfilled v w (.store space a bytes) reply := fun _ => trivial
  unfold Serves serve
  rw [ends_bind]
  refine (storeFrom_ends h bytes 0).mono (fun all w stored => ?_) fun e w stopped => ?_
  · obtain ⟨stores, happened, front, complete⟩ := stored.stores
    obtain ⟨es, history, kinds, filtered⟩ := happened.memory
    obtain ⟨es', history', kinds', filtered'⟩ := happened.cache
    refine ⟨stored.coherent, regions.follows stored.follows,
      ⟨es, history, kinds, filtered ▸ front, fun reply => ?_, nofun⟩,
      ⟨es', history', kinds', filtered' ▸ front, fun reply => ?_⟩, nofun, fun reply _ =>
      fulfilled reply⟩
    · cases all with
      | false => cases reply
      | true => exact filtered.trans (complete rfl)
    · cases all with
      | false => cases reply
      | true => exact filtered'.trans (complete rfl)
  · obtain ⟨⟨m, rfl⟩, stored⟩ := stopped
    obtain ⟨stores, happened, front, -⟩ := stored.stores
    obtain ⟨es, history, kinds, filtered⟩ := happened.memory
    obtain ⟨es', history', kinds', filtered'⟩ := happened.cache
    exact ⟨stored.coherent, regions.follows stored.follows,
      ⟨es, history, kinds, filtered ▸ front, nofun, nofun⟩,
      ⟨es', history', kinds', filtered' ▸ front, nofun⟩, nofun, fun reply _ => fulfilled reply⟩

theorem poke_serves (bytes : Array UInt8) : Serves (.poke space va bytes) v := by
  have fulfilled : ∀ {w : VirtualMemory} (reply : Reply),
      Request.Fulfilled v w (.poke space va bytes) reply := fun _ => trivial
  have untouched : ∀ {result}, result ≠ .ok .done →
      Served (.poke space va bytes) v result v := by
    intro result other
    exact ⟨h, regions, ⟨[], .start, by simp, List.nil_prefix, fun same => absurd same other,
      nofun⟩, ⟨[], .start, by simp, List.nil_prefix, fun same => absurd same other⟩, nofun,
      fun reply _ => fulfilled reply⟩
  unfold Serves serve
  rw [ends_bind, ends_get]
  cases place : v.physicalPage? space va with
  | none => exact untouched nofun
  | some pa =>
    dsimp only
    rw [ends_bind, ends_ensure]
    refine ⟨fun room => ?_, fun long => ⟨untouched nofun, rfl, Nat.lt_of_not_le long⟩⟩
    obtain ⟨p, f, x, located⟩ := (inMemory_of_physicalPage place).located h
    have same : pa = x.page := by
      have there := located.place
      rw [place] at there
      exact Option.some.inj there
    subst same
    rw [ends_bind, ends_setPage, ends_pure]
    obtain ⟨coherent, places, stored⟩ := located.store h 0 bytes rfl
    have possible : (MemoryEvent.stored space va.floor 0 bytes).Possible v.flat := trivial
    have history := History.one possible
    rw [← stored] at history
    have happens : Happens (· = .stored space va.floor 0 bytes) v.flat _ := ⟨_, by simp, history⟩
    have poked : CacheStep v.cache (.poked space va.floor bytes) _ := .poked
    rw [← located.cache_poke h 0 bytes] at poked
    refine ⟨coherent, regions.follows (places.follows happens), ⟨_, history, ?_, ?_, ?_, nofun⟩,
      ⟨_, .one poked, ?_, ?_, ?_⟩, nofun, fun reply _ => fulfilled reply⟩
    · intro e he
      exact List.mem_singleton.mp he
    · exact List.prefix_rfl
    · exact fun _ => rfl
    · intro e he
      exact List.mem_singleton.mp he
    · exact List.prefix_rfl
    · exact fun _ => rfl

theorem createFile_serves (contents : Array UInt8) : Serves (.createFile contents) v := by
  have places : SamePlaces v { v with files := (v.files.create contents).2 } := .of_spaces (by rfl)
  have shown : Happens (Request.Causes v (.createFile contents)) v.flat
      ⟨v.flat.page, (v.files.create contents).2.image⟩ := by
    rw [FileStore.image_create]
    exact .one (e := .created contents ⟨v.files.files.length⟩) trivial ⟨_, rfl⟩
  have follows : Follows (Request.Causes v (.createFile contents)) v
      { v with files := (v.files.create contents).2 } := places.follows shown
  have coherent : Coherent { v with files := (v.files.create contents).2 } none :=
    h.of_same rfl (fun _ => rfl) (.refl _) rfl rfl rfl
  have after : VirtualMemory.cache { v with files := (v.files.create contents).2 } =
      { v.cache with files := v.cache.files.creating contents } := by
    exact cache_eq (fun _ _ => rfl) (fun _ _ => rfl) (FileStore.image_creating contents)
      (FileStore.shortWrites_create contents)
  have cached : Leads (Request.CausesInCache v (.createFile contents)) v.cache
      (VirtualMemory.cache { v with files := (v.files.create contents).2 }) := by
    rw [after]
    exact .one .created ⟨_, rfl⟩
  exact .of_inOrder rfl (.of_follows coherent regions follows cached)

/-- A change of the files that does not show. -/
theorem alike_serves {f : FileId} {change : FileStore → FileStore} (plain : r.isPlain = true)
    (alike : v.files.Alike (change v.files)) (blame : ∀ x, v.Misnamed f x → r.Blamed v x) :
    (changeFile f change).Ends v (fun reply w => Served r v (.ok reply) w)
      fun e w => match e with
        | .refused e => Served r v (.ok (.refused e)) w
        | .violated x => Served r v (.error x) w ∧ r.Blamed v x := by
  refine changeFile_serves h regions plain ?_ (fun x _ => ?_) blame
  · rw [alike.image]
    exact .refl _
  · have after : VirtualMemory.cache { v with files := change v.files } = v.cache :=
      cache_eq (fun _ _ => rfl) (fun _ _ => rfl) alike.image alike.short
    rw [after]
    exact .refl _

/-- How many writes come short shows only in the cache. -/
theorem setShortWrites_serves (f : FileId) (count : Nat) : Serves (.setShortWrites f count) v := by
  have image : (v.files.updateFile f fun x => { x with shortWrites := count }).image =
      v.files.image := FileStore.image_updateFile_of_same fun _ => ⟨rfl, rfl⟩
  refine changeFile_serves h regions rfl ?_ (fun x found => ?_) fun x hx => hx
  · rw [image]
    exact .refl _
  · have present := (List.getElem?_eq_some_iff.mp found).1
    have after : VirtualMemory.cache { v with
        files := v.files.updateFile f fun x => { x with shortWrites := count } } =
        { v.cache with shortWrites := fun g => if g = f then count else v.cache.shortWrites g } := by
      refine cache_eq (fun _ _ => rfl) (fun _ _ => rfl) image fun g => ?_
      dsimp only
      rw [FileStore.shortWrites_updateFile]
      by_cases here : g = f
      · rw [if_pos ⟨here, present⟩, if_pos here]
      · rw [if_neg fun h => here h.1, if_neg here]
        rfl
    rw [after]
    exact .one .hampered rfl

theorem setFileLength_serves (f : FileId) (length : Nat) : Serves (.setFileLength f length) v := by
  refine changeFile_serves h regions rfl ?_ (fun x _ => ?_) fun x hx => hx
  · rw [FileStore.image_setLength]
    exact .one (e := .resized f length) trivial rfl
  · have after : VirtualMemory.cache { v with files := v.files.setLength f length } =
        { v.cache with files := v.cache.files.resizing f length } :=
      cache_eq (fun _ _ => rfl) (fun _ _ => rfl) (FileStore.image_setLength length)
        (FileStore.shortWrites_setLength length)
    rw [after]
    exact .one .resized rfl

omit h in
/-- A request whose transition stops only for refusals. -/
theorem serves_of_keeps {t : Paging α} {reply : α → Reply} (plain : r.isPlain = true)
    (k : Keeps P K Stop.IsRefusal t v) (imp : ∀ e, P e → r.Causes v e)
    (cached : ∀ e, K e → r.CausesInCache v e) :
    (t >>= fun a => pure (reply a)).Ends v (fun reply w => Served r v (.ok reply) w)
      fun e w => match e with
        | .refused e => Served r v (.ok (.refused e)) w
        | .violated x => Served r v (.error x) w ∧ r.Blamed v x :=
  serves_of_ends plain
    (ends_of_keeps regions k imp cached fun _ hx => absurd hx not_isRefusal_violated)

/-- Every request leaves memory in order and is accounted for. -/
theorem serve_ends (r : Request) : Serves r v := by
  cases r with
  | createSpace => exact createSpace_serves h regions
  | destroySpace space => exact destroySpace_serves h regions
  | duplicateSpace parent child => exact duplicateSpace_serves h regions parent child
  | allocateAnonymous space va writable =>
    exact serves_of_keeps regions rfl
      (allocateLazy_anonymous_keeps h writable .zeroFill) (fun _ he => he) fun _ he => he
  | allocateLazy space va writable target source =>
    exact allocateLazy_serves h regions writable target source
  | setupStack space =>
    exact serves_of_keeps regions rfl (setupStack_keeps h) (fun _ he => he) fun _ he => he
  | loadSegment space file offset start readBytes zeroBytes writable =>
    exact loadSegment_serves h regions file offset readBytes zeroBytes writable
  | claim space va =>
    exact serves_of_keeps regions rfl (claim_keeps h) (fun _ he => he) fun _ he => he
  | mapFile space start length writable file offset =>
    exact mapFile_serves h regions length writable file offset
  | unmapFile space start => exact unmapFile_serves h regions
  | fault space a flags pointer =>
    exact serves_of_keeps regions rfl (handleFault_keeps h flags pointer)
      (fun _ he => he) fun _ he => he
  | locate space va => exact .of_inOrder rfl (.refl h regions)
  | peek space va => exact .of_inOrder rfl (.refl h regions)
  | poke space va bytes => exact poke_serves h regions bytes
  | touch space va write => exact touch_serves h regions write
  | setUserPointer pointer =>
    exact serves_silently h regions rfl rfl rfl (.refl _) rfl rfl rfl rfl (.refl _)
  | store space a bytes => exact store_serves h regions bytes
  | load space a length => exact load_serves h regions length
  | failMaps count failure =>
    exact serves_silently h regions rfl rfl rfl (fun _ _ => rfl) rfl rfl rfl rfl (.refl _)
  | createFile contents => exact createFile_serves h regions contents
  | dropFile f => exact alike_serves h regions rfl FileStore.alike_dropHandle fun _ hx => hx
  | setFileLength f length => exact setFileLength_serves h regions f length
  | setShortReads f count =>
    exact alike_serves h regions rfl (FileStore.alike_updateFile fun _ => ⟨rfl, rfl, rfl⟩)
      fun _ hx => hx
  | setShortWrites f count => exact setShortWrites_serves h regions f count
  | setReopenable f reopenable =>
    exact alike_serves h regions rfl (FileStore.alike_updateFile fun _ => ⟨rfl, rfl, rfl⟩)
      fun _ hx => hx
  | fileContents f => exact readFile_serves h regions rfl fun _ hx => hx
  | fileWrites f => exact readFile_serves h regions rfl fun _ hx => hx

omit h regions in
/-- A refusal is a reply like any other. -/
theorem perform_ends_of_serve {Q : Reply → VirtualMemory → Prop}
    {E : Violation → VirtualMemory → Prop}
    (served : (serve r).Ends v Q fun e w => match e with
      | .refused e => Q (.refused e) w
      | .violated x => E x w) : (perform r).Ends v Q E := by
  unfold perform
  rw [ends_bind]
  exact Ends.onlyViolations served

omit h regions in
/-- A request that is carried out or refused stops nothing but itself. -/
theorem perform_ends_of_done {t : Paging Unit} (is : serve r = VirtualMemory.done t)
    {F : VirtualMemory → Prop} {R : MemoryError → VirtualMemory → Prop}
    (ends : t.Ends v (fun _ w => F w) (fun e w => ∃ x, e = .refused x ∧ R x w)) :
    (perform r).Ends v (fun reply w => reply = .done ∧ F w ∨ ∃ e, reply = .refused e ∧ R e w)
      (fun _ _ => False) := by
  refine perform_ends_of_serve ?_
  rw [is, VirtualMemory.done, ends_bind]
  refine ends.mono (fun _ w carried => .inl ⟨rfl, carried⟩) fun e w stopped => ?_
  obtain ⟨x, rfl, refused⟩ := stopped
  exact .inr ⟨x, rfl, refused⟩

theorem perform_ends (r : Request) :
    (perform r).Ends v (fun reply w => Served r v (.ok reply) w)
      (fun x w => Served r v (.error x) w ∧ r.Blamed v x) := by
  refine perform_ends_of_serve ((serve_ends h regions r).mono (fun _ _ served => served) ?_)
  intro e w stopped
  cases e with
  | refused e => exact stopped
  | violated x => exact stopped

end

/-- The bytes of an answer that has some. -/
def Reply.bytes? : Reply → Option (Array UInt8)
  | .bytes b => some b
  | _ => none

theorem exists_bytes {x : Except Violation Reply}
    (has : (x.toOption.bind Reply.bytes?).isSome = true) : ∃ bytes, x = .ok (.bytes bytes) := by
  cases x with
  | error => simp [Except.toOption] at has
  | ok answer =>
    cases answer with
    | bytes bytes => exact ⟨bytes, rfl⟩
    | _ => cases has

/-! ## Runs -/

/-- The state after some requests, each of them made in the state the one before it left, whatever
that one stopped for. -/
def after (v : VirtualMemory) (rs : List Request) : VirtualMemory :=
  rs.foldl (fun v r => (perform r v).state) v

theorem after_concat (v : VirtualMemory) (rs : List Request) (r : Request) :
    after v (rs ++ [r]) = (perform r (after v rs)).state := by
  simp only [after, List.foldl_append, List.foldl_cons, List.foldl_nil]

theorem coherent_new (capacity sectors : Nat) : Coherent (new capacity sectors).1 none where
  pool := PagePool.regular_new capacity
  swap := SwapArea.regular_new sectors
  resident := nofun
  owned := nofun
  unowned := nofun
  spare_unowned := nofun
  unpinned := nofun
  taken _ := ⟨fun taken => absurd taken (PagePool.not_taken_new capacity), nofun⟩
  distinct := nofun
  translated _ _ := rfl
  settled := nofun
  used _ := ⟨fun used => absurd used (SwapArea.not_used_new sectors), nofun⟩
  unshared := nofun
  placed := nofun
  numbered := nofun

theorem regionsBacked_new (capacity sectors : Nat) : RegionsBacked (new capacity sectors).1 :=
  ⟨nofun, nofun, nofun⟩

/-- What a request leaves, whether it stops the kernel or not. -/
theorem perform_served (h : Coherent v none) (regions : RegionsBacked v) (r : Request) :
    Served r v (perform r v).result (perform r v).state := by
  have ends := ends_iff.mp (perform_ends h regions r)
  cases result : (perform r v).result with
  | ok reply => exact ends.1 reply result
  | error x => exact (ends.2 x result).1

/-- Between requests memory stays in order. -/
theorem inOrder_after_of {start : VirtualMemory} (coherent : Coherent start none)
    (regions : RegionsBacked start) (rs : List Request) :
    Coherent (after start rs) none ∧ RegionsBacked (after start rs) := by
  induction rs using List.reverseRecOn with
  | nil => exact ⟨coherent, regions⟩
  | append_singleton rs r ih =>
    have served := perform_served ih.1 ih.2 r
    rw [after_concat]
    exact ⟨served.coherent, served.regions⟩

theorem inOrder_after (capacity sectors : Nat) (rs : List Request) :
    Coherent (after (new capacity sectors).1 rs) none ∧
      RegionsBacked (after (new capacity sectors).1 rs) :=
  inOrder_after_of (coherent_new capacity sectors) (regionsBacked_new capacity sectors) rs

/-- Some requests made of some new machine lead to the state. -/
def Reached (v : VirtualMemory) : Prop :=
  ∃ capacity sectors rs, v = after (new capacity sectors).1 rs

theorem Reached.inOrder (h : Reached v) : Coherent v none ∧ RegionsBacked v := by
  obtain ⟨capacity, sectors, rs, rfl⟩ := h
  exact inOrder_after capacity sectors rs

theorem Reached.perform (h : Reached v) (r : Request) :
    Reached (VirtualMemory.perform r v).state := by
  obtain ⟨capacity, sectors, rs, rfl⟩ := h
  exact ⟨capacity, sectors, rs ++ [r], (after_concat _ rs r).symm⟩

theorem Reached.served (h : Reached v) (r : Request) :
    Served r v (VirtualMemory.perform r v).result (VirtualMemory.perform r v).state :=
  perform_served h.inOrder.1 h.inOrder.2 r

theorem reached_after (capacity sectors : Nat) (rs : List Request) :
    Reached (after (new capacity sectors).1 rs) := ⟨capacity, sectors, rs, rfl⟩

end KernelCore.VirtualMemory
