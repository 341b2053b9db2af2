import KernelCore.Proofs.Paging.Consistency
import KernelCore.Proofs.Paging.Reflecting

/-!
# Faithful copies of spaces

A copy that succeeds has the pages of the original with the same contents, wherever these are at
the time and whatever has to leave memory for the copy, and the original stays as it was. What a
file page shows of its file is copied too, provided that no other page shows the same bytes and
that the file still has what was fetched from it: a page without changes of its own is fetched
again when it is needed next.
-/
namespace KernelCore

/-- No two pages show the same byte of a file. -/
def PageCache.Unaliased (c : PageCache) : Prop :=
  ∀ s a p t d q f k, c.page s a = some p → c.page t d = some q →
    p.backing.Shows c.files f k → q.backing.Shows c.files f k → s = t ∧ a = d

/-- Pages of the space that are in memory and were not changed have what their files have. -/
def PageCache.InSync (c : PageCache) (space : SpaceId) : Prop :=
  ∀ a b bytes, c.page space a = some ⟨b, some ⟨bytes, false⟩⟩ →
    ∀ i, i < b.readBytes → bytes[i]? = (b.contents c.files)[i]?

/-- What a page shows of its file, whether it is in memory or not. -/
def PageCache.fileBytes (c : PageCache) (s : SpaceId) (a : VirtAddr) :
    Option (FileBacking × Array UInt8) :=
  (c.page s a).map fun p =>
    (p.backing, (p.contents c.files).toArray.extract 0 p.backing.readBytes)

/-- All pages that show byte number `k` of the file `f` have `x` there, and the file has it too
unless one of them was changed and is still to go back. -/
def PageCache.Agree (c : PageCache) (f : FileId) (k : Nat) (x : UInt8) : Prop :=
  ∀ s a p, c.page s a = some p → p.backing.Shows c.files f k →
    Reflects c.files p.backing f k x p.held

namespace PageCache

variable {c c' : PageCache} {e : CacheEvent} {parent child s : SpaceId} {a : VirtAddr}
  {b : FileBacking} {p : CachedPage} {f : FileId} {k : Nat} {x : UInt8}

/-- Where pages are only moved and copied they keep agreeing. -/
theorem Agree.step (h : c.Agree f k x) (step : CacheStep c e c') (kind : e.IsCopy parent child) :
    c'.Agree f k x := by
  have unopened : ¬e.Opens := by
    cases e <;> first | exact id | exact kind.elim
  have unmade : ¬e.Remakes f := by
    cases e <;> first | exact id | exact kind.elim
  -- What goes back to the file comes from a page that agrees.
  have byte : c'.files.byte f k = c.files.byte f k ∨ c'.files.byte f k = x := by
    refine (step.byte_cases unmade k).imp_right ?_
    rintro ⟨t, d, b, bytes, g, w, -, dirty, shows, new⟩
    have old := (h t d _ dirty shows).holds _ rfl
    rw [new] at old
    exact Option.some.inj old
  rintro s a ⟨b, held'⟩ page shows
  rw [step.shows unopened] at shows
  rcases step.origin page with ⟨⟨b, held⟩, before, rfl⟩ | rfl | ⟨t, q, rfl, original, same, copy⟩
  · rcases step.page_cases before with ⟨gone, -⟩ | ⟨_, after, changed⟩
    · rw [gone] at page
      cases page
    · rw [page] at after
      cases after
      refine (h s a _ before shows).step shows step before changed ?_ ?_ byte
      · rintro offset bytes rfl
        exact kind.elim
      · rintro bytes rfl
        exact kind.elim
  · exact kind.elim
  · have files : c'.files = c.files := by
      cases step
      rfl
    rw [same] at shows ⊢
    have r := h t a q original shows
    rw [files]
    rcases copy with holds | ⟨away, fetched⟩
    · rwa [holds]
    · have file : c.files.byte f k = x := r.file fun _ holds => by
        rw [away] at holds
        cases holds
      refine ⟨fun h holds => ?_, fun _ => file⟩
      rw [fetched] at holds
      rw [← Option.some.inj holds, shows.contents, file]

/-- Over a whole copy, the pages keep agreeing and show what they showed. -/
theorem Agree.leads (h : c.Agree f k x) (leads : Leads (CacheEvent.IsCopy parent child) c c') :
    c'.Agree f k x ∧ ∀ b : FileBacking, b.Shows c'.files f k ↔ b.Shows c.files f k := by
  obtain ⟨es, kinds, history⟩ := leads
  induction history with
  | start => exact ⟨h, fun _ => .rfl⟩
  | @step past c₁ e c₂ _ step ih =>
    obtain ⟨agree, shows⟩ := ih fun e he => kinds e (List.mem_cons_of_mem _ he)
    have kind := kinds e List.mem_cons_self
    have unopened : ¬e.Opens := by
      cases e <;> first | exact id | exact kind.elim
    exact ⟨agree.step step kind, fun b => (step.shows unopened).trans (shows b)⟩

/-- The only page that shows a byte agrees with itself. -/
theorem agree_of_unaliased (unaliased : c.Unaliased) (sync : c.InSync s)
    (page : c.page s a = some p) (shows : p.backing.Shows c.files f k)
    (byte : (p.contents c.files)[k - p.backing.offset]? = some x) : c.Agree f k x := by
  intro t d q there shows'
  obtain ⟨rfl, rfl⟩ := unaliased t d q s a p f k there page shows' shows
  rw [page] at there
  cases there
  obtain ⟨b, held⟩ := p
  have first := shows.first
  have last := shows.last
  dsimp only at first last
  have fetched := shows.contents
  refine ⟨fun h holds => ?_, fun clean => ?_⟩
  · cases holds
    exact byte
  · cases held with
    | none => exact Option.some.inj (fetched.symm.trans byte)
    | some h =>
      obtain ⟨bytes, dirty⟩ := h
      cases clean _ rfl
      have same := sync d b bytes page (k - b.offset) (by omega)
      rw [shows.contents] at same
      exact Option.some.inj (same.symm.trans byte)

/-- Pages of the same stretch show the same if they have the same bytes in front. -/
theorem fileBytes_eq {t : SpaceId} {d : VirtAddr} {q : CachedPage} (page : c.page s a = some p)
    (there : c'.page t d = some q) (backing : q.backing = p.backing)
    (bytes : ∀ i, i < p.backing.readBytes → (q.contents c'.files)[i]? = (p.contents c.files)[i]?) :
    c'.fileBytes t d = c.fileBytes s a := by
  unfold fileBytes
  rw [page, there, Option.map_some, Option.map_some, backing]
  have front : (q.contents c'.files).toArray.extract 0 p.backing.readBytes =
      (p.contents c.files).toArray.extract 0 p.backing.readBytes := by
    apply Array.ext_getElem?
    intro i
    rw [Array.getElem?_extract, Array.getElem?_extract, Vector.size_toArray, Vector.size_toArray]
    split
    · rename_i inside
      rw [Nat.zero_add, Vector.getElem?_toArray, Vector.getElem?_toArray]
      exact bytes i (by omega)
    · rfl
  rw [front]

/-- After a copy, pages of the same stretch show what a page that is alone and in sync showed. -/
theorem fileBytes_of_copied {t : SpaceId} {d : VirtAddr}
    (leads : Leads (CacheEvent.IsCopy parent child) c c') (unaliased : c.Unaliased)
    (sync : c.InSync s)
    (backing : (c'.page t d).map CachedPage.backing = (c.page s a).map CachedPage.backing) :
    c'.fileBytes t d = c.fileBytes s a := by
  cases page : c.page s a with
  | none =>
    rw [page, Option.map_none, Option.map_eq_none_iff] at backing
    unfold fileBytes
    rw [page, backing, Option.map_none, Option.map_none]
  | some p =>
    rw [page, Option.map_some] at backing
    obtain ⟨⟨_, held⟩, there, rfl⟩ := Option.map_eq_some_iff.mp backing
    refine fileBytes_eq page there rfl fun i hi => ?_
    have fits := p.backing.fits
    have shows : p.backing.Shows c.files (c.files.fileOf p.backing.file) (p.backing.offset + i) :=
      ⟨rfl, by omega, by omega⟩
    have here : p.backing.offset + i - p.backing.offset = i := Nat.add_sub_cancel_left _ _
    have byte : (p.contents c.files)[p.backing.offset + i - p.backing.offset]? =
        some (p.contents c.files)[i] := by
      rw [here]
      exact Vector.getElem?_eq_getElem (Nat.lt_of_lt_of_le hi fits)
    obtain ⟨agree, stretches⟩ := (agree_of_unaliased unaliased sync page shows byte).leads leads
    have shows' := (stretches p.backing).mpr shows
    have after := (agree t d _ there shows').contents shows'
    rw [← byte, here] at after
    exact after

end PageCache

namespace VirtualMemory

variable {v w : VirtualMemory} {parent child : SpaceId} {a : VirtAddr} {p q : Page}

/-- The child is a copy of what the parent was, and the parent still is what it was. -/
structure Replicated (v : VirtualMemory) (parent child : SpaceId) (w : VirtualMemory) : Prop where
  /-- The child has pages exactly where the parent has, of the same types and rights. -/
  pages : ∀ a, (pageIn? w.spaces child a).map (fun q => (q.type, q.writable)) =
    (pageIn? v.spaces parent a).map fun p => (p.type, p.writable)
  regions : ∀ a, regionIn? w.spaces child a = regionIn? v.spaces parent a
  /-- Pages that were never accessed are left so, with their loaders. -/
  untouched : ∀ a p, pageIn? v.spaces parent a = some p → p.isUntouched = true →
    pageIn? w.spaces child a = some p
  /-- Anonymous pages have the same bytes, whether they are in memory or out in the swap area. -/
  anonymous : ∀ a x, v.flat.page parent a = some x → w.flat.page child a = some x
  fileBytes : v.cache.Unaliased → v.cache.InSync parent →
    ∀ a, w.cache.fileBytes child a = v.cache.fileBytes parent a
  /-- The pages of the parent are the same, apart from where their contents are. -/
  keptPages : ∀ a, (pageIn? w.spaces parent a).map Page.outline =
    (pageIn? v.spaces parent a).map Page.outline
  keptRegions : ∀ a, regionIn? w.spaces parent a = regionIn? v.spaces parent a
  keptAnonymous : ∀ a x, v.flat.page parent a = some x → w.flat.page parent a = some x
  keptFileBytes : v.cache.Unaliased → v.cache.InSync parent →
    ∀ a, w.cache.fileBytes parent a = v.cache.fileBytes parent a
  /-- No frame and no slot belongs to both spaces. -/
  unshared : ∀ a b p q, pageIn? w.spaces parent a = some p → pageIn? w.spaces child b = some q →
    (∀ f, p.frame = some f → q.frame ≠ some f) ∧ ∀ i, p.slot = some i → q.slot ≠ some i

/-- An untouched page is known by its outline. -/
theorem Coherent.eq_of_outline (h : Coherent w none) (page : pageIn? w.spaces child a = some q)
    (fresh : p.isUntouched = true) (away : p.frame = none) (same : q.outline = p.outline) :
    q = p := by
  obtain ⟨writable, frame, kind⟩ := p
  obtain ⟨writable', frame', kind'⟩ := q
  cases kind with
  | untouched target loader =>
    simp only [Page.outline, Page.mk.injEq] at same
    obtain ⟨rfl, -, same⟩ := same
    cases kind' with
    | untouched target' loader' =>
      cases same
      cases away
      cases frame' with
      | none => rfl
      | some f => cases (h.settled page rfl).1
    | anonymous => cases same
    | file => cases same
  | anonymous => cases fresh
  | file => cases fresh

/-- Pages that are alike but for their frames and slots show the same stretch. -/
private theorem mappedIn?_of_outline {s : SpaceId}
    (same : (pageIn? w.spaces s a).map Page.outline = (pageIn? v.spaces s a).map Page.outline) :
    mappedIn? w.spaces s a = mappedIn? v.spaces s a := by
  unfold mappedIn?
  cases page : pageIn? v.spaces s a with
  | none =>
    rw [page, Option.map_none, Option.map_eq_none_iff] at same
    rw [same]
  | some p =>
    rw [page, Option.map_some] at same
    obtain ⟨q, there, outline⟩ := Option.map_eq_some_iff.mp same
    rw [there, Option.bind_some, Option.bind_some, Page.mapped?_of_outline outline]

/-- The child shows the same stretches as the parent did. -/
private theorem SpaceCopied.mappedIn? (copied : SpaceCopied v parent child w)
    (noPages : ∀ a, pageIn? v.spaces child a = none) (a : VirtAddr) :
    VirtualMemory.mappedIn? w.spaces child a = VirtualMemory.mappedIn? v.spaces parent a := by
  unfold VirtualMemory.mappedIn?
  cases page : pageIn? v.spaces parent a with
  | none =>
    have same := copied.others child a fun _ => page
    rw [noPages, Option.map_none, Option.map_eq_none_iff] at same
    rw [same]
  | some p =>
    obtain ⟨q, there, copy⟩ := copied.copies a p page
    rw [there, Option.bind_some, Option.bind_some, copy.mapped]

theorem SpaceCopied.replicated (copied : SpaceCopied v parent child w) (h : Coherent v none)
    (noPages : ∀ a, pageIn? v.spaces child a = none)
    (noRegions : ∀ a, regionIn? v.spaces child a = none) : Replicated v parent child w := by
  have coherent := copied.inOrder.coherent
  have absent : ∀ a, pageIn? v.spaces parent a = none → pageIn? w.spaces child a = none := by
    intro a none
    have same := copied.others child a fun _ => none
    rwa [noPages, Option.map_none, Option.map_eq_none_iff] at same
  have keptPages : ∀ a, (pageIn? w.spaces parent a).map Page.outline =
      (pageIn? v.spaces parent a).map Page.outline :=
    fun a => copied.others parent a fun same => same ▸ noPages a
  -- Two spaces with pages are two, since the child had none.
  have apart : ∀ {a b p q}, pageIn? w.spaces parent a = some p → pageIn? w.spaces child b = some q →
      parent ≠ child := by
    rintro a b p q here there rfl
    rw [absent a (noPages a)] at here
    cases here
  have leads := copied.inOrder.cached
  refine ⟨fun a => ?_, fun a => ?_, fun a p page fresh => ?_, copied.shown,
    fun unaliased sync a => ?_, keptPages, fun a => ?_, fun a x shown => ?_,
    fun unaliased sync a => ?_, fun a b p q here there => ⟨fun f frame frame' => ?_,
      fun i slot slot' => ?_⟩⟩
  · cases page : pageIn? v.spaces parent a with
    | none => rw [absent a page]
    | some p =>
      obtain ⟨q, there, copy⟩ := copied.copies a p page
      rw [there, Option.map_some, Option.map_some, copy.use.1, copy.use.2]
  · apply Option.ext
    intro r
    rw [copied.regions, noRegions]
    simp
  · obtain ⟨q, there, copy⟩ := copied.copies a p page
    have away : p.frame = none := by
      cases holds : p.frame with
      | none => rfl
      | some f =>
        have touched := (h.settled page holds).1
        rw [fresh] at touched
        cases touched
    rw [there, coherent.eq_of_outline there fresh away (copy.untouched fresh)]
  · refine PageCache.fileBytes_of_copied leads unaliased sync ?_
    rw [backing_cache, backing_cache]
    exact copied.mappedIn? noPages a
  · by_cases same : parent = child
    · subst same
      apply Option.ext
      intro r
      rw [copied.regions, noRegions]
      simp
    · exact copied.otherRegions parent a same
  · exact copied.inOrder.happens.page_of_copies shown
  · refine PageCache.fileBytes_of_copied leads unaliased sync ?_
    rw [backing_cache, backing_cache]
    exact mappedIn?_of_outline (keptPages a)
  · obtain ⟨x, hx, owner⟩ := coherent.resident here frame
    obtain ⟨y, hy, owner'⟩ := coherent.resident there frame'
    rw [hx] at hy
    cases hy
    rw [owner] at owner'
    cases owner'
    exact apart here there rfl
  · exact apart here there (coherent.unshared here slot there slot').1

/-- In every state that requests lead to, a copy of a space into an empty one replicates it, if it
succeeds. -/
theorem duplicateSpace_replicates (reached : Reached v)
    (empty : v.spaces.find? child = some .empty)
    (done : (perform (.duplicateSpace parent child) v).result = .ok .done) :
    Replicated v parent child (perform (.duplicateSpace parent child) v).state := by
  have copied := (reached.served (.duplicateSpace parent child)).fulfilled .done done
  refine SpaceCopied.replicated copied reached.inOrder.1 (fun a => ?_) fun a => ?_
  · rw [pageIn?_of_find empty]
    rfl
  · unfold regionIn?
    rw [empty]
    rfl

/-- A space with a page of a file and an anonymous page in memory, where there is room for one
more. -/
def crowded : List Request :=
  [.createSpace, .createFile #[17], .mapFile ⟨1⟩ ⟨8192⟩ 1 true ⟨0⟩ 0, .claim ⟨1⟩ ⟨8192⟩,
    .allocateAnonymous ⟨1⟩ ⟨4096⟩ true, .claim ⟨1⟩ ⟨4096⟩, .createSpace]

/-- The page of the file leaves memory for its own copy. -/
theorem duplicateSpace_replicates_crowded :
    (pageIn? (after (new 3 0).1 crowded).spaces ⟨1⟩ ⟨8192⟩).bind Page.frame = some ⟨0⟩ ∧
      (pageIn? (perform (.duplicateSpace ⟨1⟩ ⟨2⟩) (after (new 3 0).1 crowded)).state.spaces
        ⟨1⟩ ⟨8192⟩).bind Page.frame = none ∧
      Replicated (after (new 3 0).1 crowded) ⟨1⟩ ⟨2⟩
        (perform (.duplicateSpace ⟨1⟩ ⟨2⟩) (after (new 3 0).1 crowded)).state := by
  refine ⟨by decide +kernel, by decide +kernel, ?_⟩
  exact duplicateSpace_replicates (reached_after 3 0 crowded) (by decide +kernel)
    (by decide +kernel)

/-! ## Pages that are behind their files -/

/-- The space is copied into an empty one while no two pages show the same byte of a file, and yet
the copy shows something else of a file. -/
structure Miscopied (v : VirtualMemory) (parent child : SpaceId) : Prop where
  reached : Reached v
  empty : v.spaces.find? child = some .empty
  done : (perform (.duplicateSpace parent child) v).result = .ok .done
  unaliased : v.cache.Unaliased
  differs : ∃ a, (perform (.duplicateSpace parent child) v).state.cache.fileBytes child a ≠
    v.cache.fileBytes parent a

/-- What a page in memory shows of its file is in its frame. -/
theorem fileBytes_of_resident {s : SpaceId} {b : FileBacking} {f : FrameId} {x : Frame}
    (page : pageIn? v.spaces s a = some p) (mapped : p.mapped? = some b) (holds : p.frame = some f)
    (frame : v.frames.frame? f = some x) :
    v.cache.fileBytes s a = some (b, (v.pool.page x.page).toArray.extract 0 b.readBytes) := by
  unfold PageCache.fileBytes
  rw [cache_page_of_page page, cachedPage_of_mapped? mapped, heldPage_of_frame holds frame]
  rfl

/-- Two pages in memory that differ in their first byte, which is of a file, show different
things. -/
theorem fileBytes_ne_of_resident {s t : SpaceId} {d : VirtAddr} {b c : FileBacking}
    {f g : FrameId} {x y : Frame}
    (page : pageIn? v.spaces s a = some p) (mapped : p.mapped? = some b) (holds : p.frame = some f)
    (frame : v.frames.frame? f = some x) (page' : pageIn? w.spaces t d = some q)
    (mapped' : q.mapped? = some c) (holds' : q.frame = some g) (frame' : w.frames.frame? g = some y)
    (nonempty : 0 < b.readBytes)
    (differ : (w.pool.page y.page)[0]? ≠ (v.pool.page x.page)[0]?) :
    w.cache.fileBytes t d ≠ v.cache.fileBytes s a := by
  rw [fileBytes_of_resident page mapped holds frame, fileBytes_of_resident page' mapped' holds' frame']
  intro same
  obtain ⟨rfl, bytes⟩ := Prod.mk.inj (Option.some.inj same)
  have first := congrArg (fun z => z[0]?) bytes
  simp only [Array.getElem?_extract, Nat.zero_add, Vector.size_toArray, Vector.getElem?_toArray,
    Nat.sub_zero, Nat.lt_min, nonempty, pageSize_pos, and_self, if_true] at first
  exact differ first

/-- Where only one page is of a file, no two pages show the same byte. -/
theorem unaliased_of_single {o : PageRef} (single : ∀ x ∈ v.allPages, x.2.mapped?.isSome → x.1 = o) :
    v.cache.Unaliased := by
  have only : ∀ s a p, v.cache.page s a = some p → (⟨s, a⟩ : PageRef) = o := by
    intro s a p cached
    obtain ⟨q, page, mapped, -⟩ := exists_of_cached cached
    exact single (⟨s, a⟩, q) (mem_allPages.mpr page) (by rw [mapped]; rfl)
  intro s a p t d q f k here there _ _
  have same := (only s a p here).trans (only t d q there).symm
  exact ⟨congrArg PageRef.space same, congrArg PageRef.va same⟩

/-- A page of a file was brought into memory. The file was emptied since, and filled with zeros. -/
def refilled : List Request :=
  [.createSpace, .createFile #[17], .mapFile ⟨1⟩ ⟨4096⟩ 1 true ⟨0⟩ 0, .claim ⟨1⟩ ⟨4096⟩,
    .setFileLength ⟨0⟩ 0, .setFileLength ⟨0⟩ 1, .createSpace]

set_option maxRecDepth 50000 in
theorem refilled_byte :
    ((after (new 1 0).1 refilled).pool.page ⟨0x100000⟩)[0]? = some 17 := by
  decide +kernel

set_option maxRecDepth 50000 in
theorem refilled_copied_byte :
    ((perform (.duplicateSpace ⟨1⟩ ⟨2⟩) (after (new 1 0).1 refilled)).state.pool.page
      ⟨0x100000⟩)[0]? = some 0 := by
  decide +kernel

/-- The page has to leave memory for its own copy, and its contents with it. -/
theorem behind_page_miscopied : Miscopied (after (new 1 0).1 refilled) ⟨1⟩ ⟨2⟩ := by
  refine ⟨reached_after 1 0 refilled, by decide +kernel, by decide +kernel,
    unaliased_of_single (o := ⟨⟨1⟩, ⟨4096⟩⟩) (by decide +kernel), ⟨4096⟩, ?_⟩
  refine fileBytes_ne_of_resident (p := ⟨true, some ⟨0⟩, .file ⟨⟨1⟩, 0, 1, by decide⟩⟩)
    (q := ⟨true, some ⟨0⟩, .file ⟨⟨1⟩, 0, 1, by decide⟩⟩)
    (x := ⟨⟨0x100000⟩, some ⟨⟨1⟩, ⟨4096⟩⟩, false⟩) (y := ⟨⟨0x100000⟩, some ⟨⟨2⟩, ⟨4096⟩⟩, false⟩)
    (by decide +kernel) rfl rfl (by decide +kernel) (by decide +kernel) rfl rfl (by decide +kernel)
    Nat.one_pos ?_
  dsimp only
  rw [refilled_byte, refilled_copied_byte]
  decide

end VirtualMemory

end KernelCore
