import KernelCore.Proofs.Paging.FlatHistories
import KernelCore.Proofs.Paging.Serving

/-!
# Paged memory refines flat memory

Whatever paging does meanwhile, a program that loads from an anonymous page gets what it would get
from flat memory: what was stored there last, else what was inherited when its space was copied,
else what the loader of the page produced.
-/
namespace KernelCore.VirtualMemory

open Transition

/-- The events of a run, newest first, tell request by request what happened to flat memory. -/
inductive Accounted (start : VirtualMemory) : List Request → VirtualMemory → List MemoryEvent → Prop
  | nil : Accounted start [] start []
  | concat {rs : List Request} {v : VirtualMemory} {past es : List MemoryEvent} (r : Request) :
    Accounted start rs v past →
    Accounts r v (perform r v).result (perform r v).state es →
    Accounted start (rs ++ [r]) (perform r v).state (es ++ past)

variable {start v : VirtualMemory} {rs : List Request} {past : List MemoryEvent}

theorem Accounted.state (h : Accounted start rs v past) : v = after start rs := by
  induction h with
  | nil => rfl
  | concat r _ _ ih => rw [after_concat, ih]

/-- The events lead from the flat memory of the first state to that of the last. -/
theorem Accounted.history (h : Accounted start rs v past) : History start.flat past v.flat := by
  induction h with
  | nil => exact .start
  | concat r _ accounts ih => exact ih.append accounts.history

/-- A history of a run ends with what the last request did. -/
theorem Accounted.last {r : Request} (h : Accounted start (rs ++ [r]) v past) :
    ∃ es before, past = es ++ before ∧ Accounts r (after start rs)
      (perform r (after start rs)).result (perform r (after start rs)).state es := by
  generalize whole : rs ++ [r] = all at h
  cases h with
  | nil => simp at whole
  | concat r' accounted accounts =>
    obtain ⟨rfl, same⟩ := List.append_inj' whole rfl
    cases same
    rw [accounted.state] at accounts
    exact ⟨_, _, rfl, accounts⟩

/-- Pages are dropped only with their space. -/
theorem Request.not_dropped_of_causes {r : Request} {e : MemoryEvent} {s : SpaceId}
    (keeps : r ≠ .destroySpace s) (caused : r.Causes v e) (a : VirtAddr) : e ≠ .dropped s a := by
  rintro rfl
  cases r with
  | destroySpace => exact keeps (congrArg Request.destroySpace caused.symm)
  | allocateLazy =>
    obtain ⟨_, _, same⟩ := caused
    cases same
  | loadSegment =>
    obtain ⟨_, _, kind⟩ := caused
    exact kind.elim
  | createFile =>
    obtain ⟨_, same⟩ := caused
    cases same
  | allocateAnonymous | poke | setFileLength => cases caused
  | store =>
    rcases caused with stored | fault
    · cases stored
    · exact fault.elim
  | _ => exact caused.elim

/-- What holds of all events that the requests of a run may cause holds of the events of the run. -/
theorem Accounted.all {P : MemoryEvent → Prop} (h : Accounted start rs v past)
    (each : ∀ r ∈ rs, ∀ (u : VirtualMemory) (e : MemoryEvent), r.Causes u e → P e) :
    ∀ e ∈ past, P e := by
  induction h with
  | nil => nofun
  | concat r _ accounts ih =>
    intro e he
    rcases List.mem_append.mp he with last | before
    · exact each r (by simp) _ e (accounts.caused e last)
    · exact ih (fun r' hr' => each r' (by simp [hr'])) e before

theorem Accounted.not_dropped {s : SpaceId} (h : Accounted start rs v past)
    (keeps : ∀ r ∈ rs, r ≠ .destroySpace s) : ∀ e ∈ past, ∀ a, e ≠ .dropped s a :=
  h.all fun r hr _ _ => Request.not_dropped_of_causes (keeps r hr)

theorem flat_new (capacity sectors : Nat) : (new capacity sectors).1.flat = .blank := rfl

/-- Every run from memory in order can be accounted for. -/
theorem exists_accounted_of (coherent : Coherent start none) (regions : RegionsBacked start)
    (rs : List Request) : ∃ past, Accounted start rs (after start rs) past := by
  induction rs using List.reverseRecOn with
  | nil => exact ⟨[], .nil⟩
  | append_singleton rs r ih =>
    obtain ⟨past, accounted⟩ := ih
    obtain ⟨coherent, regions⟩ := inOrder_after_of coherent regions rs
    obtain ⟨es, accounts⟩ := (perform_served coherent regions r).accounts
    rw [after_concat]
    exact ⟨es ++ past, accounted.concat r accounts⟩

/-- Every run can be accounted for. -/
theorem exists_accounted (capacity sectors : Nat) (rs : List Request) :
    ∃ past, Accounted (new capacity sectors).1 rs (after (new capacity sectors).1 rs) past :=
  exists_accounted_of (coherent_new capacity sectors) (regionsBacked_new capacity sectors) rs

/-- The byte number `i` of what was loaded, if its page is anonymous, is the one the history of
the page recalls. -/
theorem recalled_of_loadedFrom {w : VirtualMemory} {space : SpaceId} {a : VirtAddr} {length : Nat}
    {bytes : Array UInt8} (history : History .blank past w.flat)
    (loaded : LoadedFrom w space a length bytes) {i : Nat} (hi : i < length) :
    ∃ p, w.page? space ⟨a.toNat + i⟩ = some p ∧ (p.type = .anonymous →
      bytes[i]? = recalled past space (⟨a.toNat + i⟩ : VirtAddr).floor
        (⟨a.toNat + i⟩ : VirtAddr).pageOffset) := by
  obtain ⟨p, page, contents⟩ := loaded.byte i hi
  refine ⟨p, page, fun anonymous => ?_⟩
  obtain ⟨b, shown, byte⟩ := contents anonymous
  have inside : (⟨a.toNat + i⟩ : VirtAddr).pageOffset < pageSize := Nat.mod_lt _ pageSize_pos
  rw [byte, recalled_of_history history shown inside]

/-- For every number of physical pages and of sectors of swap and every sequence of requests: what
the requests did to flat memory can be told by events of the kinds they may cause, and however it
is told, a load that succeeds yields for every byte of an anonymous page what the history recalls
of that byte. -/
theorem load_eq_recalled (capacity sectors : Nat) (rs : List Request) :
    (∃ past, Accounted (new capacity sectors).1 rs (after (new capacity sectors).1 rs) past) ∧
      ∀ v past, Accounted (new capacity sectors).1 rs v past →
        ∀ space a length bytes,
          (perform (.load space a length) v).result = .ok (.bytes bytes) →
          ∀ es, Accounts (.load space a length) v (perform (.load space a length) v).result
              (perform (.load space a length) v).state es →
            bytes.size = length ∧ ∀ i, i < length →
              ∃ p, (perform (.load space a length) v).state.page? space ⟨a.toNat + i⟩ = some p ∧
                (p.type = .anonymous →
                  bytes[i]? = recalled (es ++ past) space (⟨a.toNat + i⟩ : VirtAddr).floor
                    (⟨a.toNat + i⟩ : VirtAddr).pageOffset) := by
  refine ⟨exists_accounted capacity sectors rs, ?_⟩
  intro v past accounted space a length bytes reply es accounts
  have state := accounted.state
  obtain ⟨coherent, regions⟩ := inOrder_after capacity sectors rs
  rw [← state] at coherent regions
  have served := perform_served coherent regions (.load space a length)
  have loaded := served.loaded space a length bytes rfl reply
  have history : History .blank (es ++ past) (perform (.load space a length) v).state.flat := by
    have first := accounted.history
    rw [flat_new] at first
    exact first.append accounts.history
  exact ⟨loaded.size, fun i hi => recalled_of_loadedFrom history loaded hi⟩

/-- A request that has stored everything leaves of the bytes of a page that was loaded what it stored
there, and else what was there before. -/
theorem Accounts.recalled_eq {r : Request} {result : Except Violation Reply} {w : VirtualMemory}
    {es : List MemoryEvent} {space : SpaceId} {va : VirtAddr} {page : PageBytes}
    (accounts : Accounts r v result w es) (keeps : r ≠ .destroySpace space)
    (whole : es.reverse.filter MemoryEvent.isStored = r.stores)
    (loaded : v.flat.page space va = some (.loaded page)) (i : Nat) :
    recalled (es ++ past) space va i = recalled (r.stores.reverse ++ past) space va i := by
  have kept : ∀ e ∈ es, e ≠ .dropped space va :=
    fun e he => Request.not_dropped_of_causes keeps (accounts.caused e he) va
  rw [recalled_of_stores accounts.history loaded kept, ← whole, List.filter_reverse,
    List.reverse_reverse]

/-- A page with contents is loaded. -/
theorem loaded_of_isMaterialised {space : SpaceId} {va : VirtAddr} {p : Page}
    {slot : Option SwapSlot} (page : pageIn? v.spaces space va = some p)
    (anonymous : p.kind = .anonymous slot) (contents : p.isMaterialised = true) :
    v.flat.page space va = some (.loaded (v.anonymousBytes p)) := by
  simp only [flat, page, Option.bind_some, flatPage, anonymous, contents, if_true]

/-- Two pages share the only frame, and the first one is out in the swap area. -/
def sharing : List Request :=
  [.createSpace, .allocateAnonymous ⟨1⟩ ⟨4096⟩ true, .claim ⟨1⟩ ⟨4096⟩,
    .allocateAnonymous ⟨1⟩ ⟨8192⟩ true, .claim ⟨1⟩ ⟨8192⟩]

/-- A byte is stored in the first page, which comes back for it. -/
def shared : List Request := sharing ++ [.store ⟨1⟩ ⟨4097⟩ #[5]]

/-- A load of the byte succeeds, and yields what was stored. -/
theorem load_eq_recalled_shared :
    (pageIn? (after (new 1 64).1 sharing).spaces ⟨1⟩ ⟨4096⟩).bind Page.slot = some ⟨0⟩ ∧
      (∃ past, Accounted (new 1 64).1 shared (after (new 1 64).1 shared) past) ∧
      ∃ bytes, (perform (.load ⟨1⟩ ⟨4096⟩ 2) (after (new 1 64).1 shared)).result =
          .ok (.bytes bytes) ∧ bytes.size = 2 ∧ bytes[1]? = some 5 := by
  obtain ⟨⟨past, accounted⟩, recalls⟩ := load_eq_recalled 1 64 shared
  refine ⟨by decide +kernel, ⟨past, accounted⟩, ?_⟩
  obtain ⟨bytes, reply⟩ : ∃ bytes, (perform (.load ⟨1⟩ ⟨4096⟩ 2)
      (after (new 1 64).1 shared)).result = .ok (.bytes bytes) :=
    exists_bytes (by decide +kernel)
  obtain ⟨coherent, regions⟩ := inOrder_after 1 64 shared
  obtain ⟨seen, looked⟩ := (perform_served coherent regions (.load ⟨1⟩ ⟨4096⟩ 2)).accounts
  obtain ⟨size, byte⟩ := recalls _ past accounted _ _ _ bytes reply seen looked
  refine ⟨bytes, reply, size, ?_⟩
  obtain ⟨p, page, recalled_byte⟩ := byte 1 (by decide)
  have anonymous : p.type = .anonymous := by
    have kind : ((perform (.load ⟨1⟩ ⟨4096⟩ 2) (after (new 1 64).1 shared)).state.page? ⟨1⟩
        ⟨4097⟩).map Page.type = some .anonymous := by decide +kernel
    rw [show (⟨4097⟩ : VirtAddr) = ⟨(⟨4096⟩ : VirtAddr).toNat + 1⟩ from rfl, page] at kind
    exact Option.some.inj kind
  rw [recalled_byte anonymous]
  -- Of all events only the last store has to do with the byte.
  obtain ⟨es, before, rfl, stored⟩ := accounted.last
  have done : (perform (.store ⟨1⟩ ⟨4097⟩ #[5]) (after (new 1 64).1 sharing)).result = .ok .done := by
    decide +kernel
  obtain ⟨_, out⟩ : ∃ page, (after (new 1 64).1 sharing).flat.page ⟨1⟩ ⟨4096⟩ = some (.loaded page) :=
    ⟨_, loaded_of_isMaterialised (p := ⟨true, none, .anonymous (some ⟨0⟩)⟩) (by decide +kernel) rfl rfl⟩
  obtain ⟨_, back⟩ : ∃ page, (after (new 1 64).1 shared).flat.page ⟨1⟩ ⟨4096⟩ = some (.loaded page) :=
    ⟨_, loaded_of_isMaterialised (p := ⟨true, some ⟨0⟩, .anonymous none⟩) (by decide +kernel) rfl rfl⟩
  have stores : (Request.store ⟨1⟩ ⟨4097⟩ #[5]).stores = [.stored ⟨1⟩ ⟨4096⟩ 1 #[5]] := by
    simp [Request.stores, storesFrom, bytesInPage, VirtAddr.pageOffset, VirtAddr.floor, pageSize]
  have place : (⟨4096 + 1⟩ : VirtAddr).floor = ⟨4096⟩ := by decide
  have offset : (⟨4096 + 1⟩ : VirtAddr).pageOffset = 1 := by decide
  have silent : (Request.load ⟨1⟩ ⟨4096⟩ 2).stores = [] := rfl
  rw [place, offset, looked.recalled_eq (by simp) (List.prefix_nil.mp looked.stored) back, silent,
    List.reverse_nil, List.nil_append, stored.recalled_eq (by simp) (stored.complete done) out, stores]
  simp [recalled]

end KernelCore.VirtualMemory
