import KernelCore.Proofs.Paging.StackGrowth

/-!
# Which accesses are illegal

A fault is answered with an error of the access only for what the access is: for its address, its
flags and the stack pointer, and for the pages of the space and which of them may be written. Where
the pages are does not matter, and nothing that has to be done for a legal access ends in such an
error.
-/
namespace KernelCore.VirtualMemory

open Transition

/-- The accesses that no program may make, by the pages of its space and whether they may be
written. -/
inductive Illegal (pages : VirtAddr → Option Bool) (a : VirtAddr) (flags : FaultFlags)
    (pointer : Nat) : Prop where
  | null (first : a.toNat < pageSize)
  | kernel (above : kernelBase ≤ a.toNat)
  | present (flag : flags.bits.testBit 0 = true)
  /-- There is no page, and the stack may not reach the address. -/
  | unmapped (absent : pages a.floor = none)
      (beyond : ¬(userStackTop - stackLimit ≤ a.toNat ∧ a.toNat < userStackTop ∧
        pointer ≤ a.toNat + 8))
  | readOnly (page : pages a.floor = some false) (write : flags.isWrite = true)

variable {v w : VirtualMemory} {space : SpaceId} {va a : VirtAddr} {flags : FaultFlags}
  {pointer : Nat} {pages : VirtAddr → Option Bool}

theorem isAccessError_of_denial {e : MemoryError} (h : denial pages a flags pointer = some e) :
    e.isAccessError = true := by
  unfold denial at h
  split at h
  · cases h
    rfl
  split at h
  · cases h
    rfl
  split at h
  · cases h
    rfl
  split at h <;> split at h <;> cases h <;> rfl

/-- An error is found exactly if the access is illegal. -/
theorem isSome_denial_iff :
    (denial pages a flags pointer).isSome = true ↔ Illegal pages a flags pointer := by
  have null : a.floor.toNat = 0 ↔ a.toNat < pageSize := by
    simp only [VirtAddr.floor, pageSize]
    omega
  have kernel : a.isUser = false ↔ kernelBase ≤ a.toNat := by
    simp only [VirtAddr.isUser, decide_eq_false_iff_not, Nat.not_lt]
  have present : flags.isNotPresent = false ↔ flags.bits.testBit 0 = true := by
    simp only [FaultFlags.isNotPresent, Bool.not_eq_false']
  unfold denial
  split
  · rename_i first
    exact iff_of_true rfl (.null (null.mp first))
  rename_i notNull
  split
  · rename_i above
    exact iff_of_true rfl (.kernel (kernel.mp above))
  rename_i notKernel
  split
  · rename_i flag
    exact iff_of_true rfl (.present (present.mp flag))
  rename_i notPresent
  -- What is left depends on the page, which only two of the cases speak of.
  have left : Illegal pages a flags pointer ↔
      pages a.floor = none ∧ isStackAccess a pointer = false ∨
        pages a.floor = some false ∧ flags.isWrite = true := by
    rw [← Bool.not_eq_true, isStackAccess_iff]
    constructor
    · rintro (first | above | flag | ⟨absent, beyond⟩ | ⟨page, write⟩)
      · exact absurd (null.mpr first) notNull
      · exact absurd (kernel.mpr above) notKernel
      · exact absurd (present.mpr flag) notPresent
      · exact .inl ⟨absent, beyond⟩
      · exact .inr ⟨page, write⟩
    · rintro (⟨absent, beyond⟩ | ⟨page, write⟩)
      · exact .unmapped absent beyond
      · exact .readOnly page write
  rw [left]
  cases pages a.floor with
  | none => cases isStackAccess a pointer <;> simp
  | some writable => cases writable <;> cases flags.isWrite <;> simp

/-! ## Faults and their errors -/

/-- A fault is refused with the error of its access, before anything was done, or with another one,
if there is none. -/
def RefusedFor (v : VirtualMemory) (denied : Option MemoryError) (e : MemoryError)
    (w : VirtualMemory) : Prop :=
  denied = some e ∧ w = v.faulted ∨ denied = none ∧ e.isAccessError = false

theorem refusedFor_of_blameless {e : Stop} {denied : Option MemoryError} (h : e.IsBlameless)
    (allowed : denied = none) : ∃ r, e = .refused r ∧ RefusedFor v denied r w := by
  obtain ⟨r, rfl, other⟩ := h
  exact ⟨r, rfl, .inr ⟨allowed, other⟩⟩

theorem handleFault_denies (h : Coherent v none) (live : (v.spaces.find? space).isSome = true) :
    (handleFault space a flags pointer).Ends v
      (fun _ _ => denial (v.rights space) a flags pointer = none)
      (fun e w => ∃ r, e = .refused r ∧
        RefusedFor v (denial (v.rights space) a flags pointer) r w) := by
  refine handleFault_cases (fun gone => ?_) (fun e denied => ⟨e, rfl, .inl ⟨denied, rfl⟩⟩)
    (fun allowed _ stack => ?_) fun allowed p _ _ => ⟨fun _ => allowed, fun _ => ?_⟩
  · rw [gone] at live
    cases live
  · exact (growStack_fills h.faulted stack).mono (fun _ _ _ => allowed)
      fun _ _ stopped => refusedFor_of_blameless stopped allowed
  · exact (claim_blameless h.faulted).mono (fun _ _ _ => allowed)
      fun _ _ stopped => refusedFor_of_blameless stopped allowed

/-! ## The verdict of a fault -/

/-- How a fault is answered, and what that says of the access. -/
structure Judged (v : VirtualMemory) (space : SpaceId) (a : VirtAddr) (flags : FaultFlags)
    (pointer : Nat) : Prop where
  answered : (perform (.fault space a flags pointer) v).result = .ok .done ∨
    ∃ e, (perform (.fault space a flags pointer) v).result = .ok (.refused e)
  /-- The answer is an error of the access exactly if the access is illegal. -/
  verdict : (∃ e, e.isAccessError = true ∧
      (perform (.fault space a flags pointer) v).result = .ok (.refused e)) ↔
    Illegal (v.rights space) a flags pointer
  /-- Then the fault was counted, and nothing else was done. -/
  unharmed : ∀ e, e.isAccessError = true →
    (perform (.fault space a flags pointer) v).result = .ok (.refused e) →
    (perform (.fault space a flags pointer) v).state = v.faulted

theorem perform_fault_denies (reached : Reached v)
    (live : (v.spaces.find? space).isSome = true) :
    (perform (.fault space a flags pointer)).Ends v
      (fun reply w => reply = .done ∧ denial (v.rights space) a flags pointer = none ∨
        ∃ e, reply = .refused e ∧
          RefusedFor v (denial (v.rights space) a flags pointer) e w)
      (fun _ _ => False) :=
  perform_ends_of_done rfl (handleFault_denies reached.inOrder.1 live)

/-- The error of an access is what a fault is answered with, if it is answered with such an error. -/
theorem fault_refused_iff (reached : Reached v) (live : (v.spaces.find? space).isSome = true)
    {e : MemoryError} (access : e.isAccessError = true) :
    (perform (.fault space a flags pointer) v).result = .ok (.refused e) ↔
      denial (v.rights space) a flags pointer = some e := by
  have ends : (perform (.fault space a flags pointer)).Ends v _ _ :=
    perform_fault_denies reached live
  constructor
  · intro refused
    rcases ends.of_ok refused with ⟨done, -⟩ | ⟨e', same, ⟨denied, -⟩ | ⟨-, other⟩⟩
    · cases done
    · cases same
      exact denied
    · cases same
      rw [access] at other
      cases other
  · intro denied
    obtain ⟨reply, result, answer⟩ := ends.exists_ok
    rcases answer with ⟨-, allowed⟩ | ⟨e', rfl, ⟨same, -⟩ | ⟨allowed, -⟩⟩
    · rw [denied] at allowed
      cases allowed
    · rw [denied] at same
      cases same
      exact result
    · rw [denied] at allowed
      cases allowed

theorem judged (reached : Reached v) (live : (v.spaces.find? space).isSome = true) :
    Judged v space a flags pointer where
  answered := by
    have ends : (perform (.fault space a flags pointer)).Ends v _ _ :=
      perform_fault_denies reached live
    obtain ⟨reply, result, ⟨rfl, -⟩ | ⟨e, rfl, -⟩⟩ := ends.exists_ok
    · exact .inl result
    · exact .inr ⟨e, result⟩
  verdict := by
    rw [← isSome_denial_iff, Option.isSome_iff_exists]
    constructor
    · rintro ⟨e, access, refused⟩
      exact ⟨e, (fault_refused_iff reached live access).mp refused⟩
    · rintro ⟨e, denied⟩
      have access := isAccessError_of_denial denied
      exact ⟨e, access, (fault_refused_iff reached live access).mpr denied⟩
  unharmed e access refused := by
    rcases (perform_fault_denies reached live).of_ok refused with
      ⟨done, -⟩ | ⟨e', same, ⟨-, state⟩ | ⟨-, other⟩⟩
    · cases done
    · exact state
    · cases same
      rw [access] at other
      cases other

/-- In every state that requests lead to, a fault of a space that exists is answered with an error
of the access exactly if the access is illegal, and nothing but the count of faults changes then. In
another state in which the space has the same pages with the same rights, wherever they are, the
fault is answered with the same error of the access or with none as well. No claim is refused with
such an error. -/
theorem fault_judged (reached : Reached v) (live : (v.spaces.find? space).isSome = true) :
    Judged v space a flags pointer ∧
      (∀ w, Reached w → (w.spaces.find? space).isSome = true → w.rights space = v.rights space →
        ∀ e, e.isAccessError = true →
          ((perform (.fault space a flags pointer) w).result = .ok (.refused e) ↔
            (perform (.fault space a flags pointer) v).result = .ok (.refused e))) ∧
      ∀ s b e, (perform (.claim s b) v).result = .ok (.refused e) → e.isAccessError = false := by
  refine ⟨judged reached live, fun w reached' live' same e access => ?_, fun s b e refused => ?_⟩
  · rw [fault_refused_iff reached' live' access, fault_refused_iff reached live access, same]
  · have ends : (perform (.claim s b)).Ends v _ _ :=
      perform_ends_of_done rfl (claim_blameless reached.inOrder.1)
    rcases ends.of_ok refused with ⟨done, -⟩ | ⟨e', same, other⟩
    · cases done
    · cases same
      exact other

/-- The read-only page of a space has the only frame. -/
def settled : List Request :=
  [.createSpace, .createSpace, .allocateAnonymous ⟨1⟩ ⟨4096⟩ false, .claim ⟨1⟩ ⟨4096⟩,
    .allocateAnonymous ⟨2⟩ ⟨4096⟩ true]

/-- The page of another space has taken its place. -/
def ousted : List Request := settled ++ [.claim ⟨2⟩ ⟨4096⟩]

theorem rights_single {p : Page}
    (found : v.spaces.find? space = some ⟨Table.empty.insert va p, .empty⟩) :
    v.rights space = fun b => if b = va then some p.writable else none := by
  funext b
  unfold rights
  rw [pageIn?_of_find found, Table.find?_insert]
  split <;> rfl

/-- A write to the page is refused alike, whether it is in memory or out in the swap area. -/
theorem fault_judged_ousted :
    (pageIn? (after (new 1 64).1 settled).spaces ⟨1⟩ ⟨4096⟩).bind Page.frame = some ⟨0⟩ ∧
      (pageIn? (after (new 1 64).1 ousted).spaces ⟨1⟩ ⟨4096⟩).bind Page.slot = some ⟨0⟩ ∧
      Judged (after (new 1 64).1 settled) ⟨1⟩ ⟨4096⟩ ⟨6⟩ 0 ∧
      ((perform (.fault ⟨1⟩ ⟨4096⟩ ⟨6⟩ 0) (after (new 1 64).1 ousted)).result =
          .ok (.refused .writeProtected) ↔
        (perform (.fault ⟨1⟩ ⟨4096⟩ ⟨6⟩ 0) (after (new 1 64).1 settled)).result =
          .ok (.refused .writeProtected)) := by
  have before : (after (new 1 64).1 settled).rights ⟨1⟩ =
      fun b => if b = ⟨4096⟩ then some false else none :=
    rights_single (p := ⟨false, some ⟨0⟩, .anonymous none⟩) (by decide +kernel)
  have later : (after (new 1 64).1 ousted).rights ⟨1⟩ =
      fun b => if b = ⟨4096⟩ then some false else none :=
    rights_single (p := ⟨false, none, .anonymous (some ⟨0⟩)⟩) (by decide +kernel)
  obtain ⟨judged, alike, -⟩ : Judged (after (new 1 64).1 settled) ⟨1⟩ ⟨4096⟩ ⟨6⟩ 0 ∧ _ :=
    fault_judged (reached_after 1 64 settled) (by decide +kernel)
  refine ⟨by decide +kernel, by decide +kernel, judged, ?_⟩
  exact alike _ (reached_after 1 64 ousted) (by decide +kernel) (later.trans before.symm) _ rfl

end KernelCore.VirtualMemory
