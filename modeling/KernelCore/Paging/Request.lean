import KernelCore.Paging.Duplicate
import KernelCore.Paging.FileMapping
import KernelCore.Paging.UserAccess

/-!
# Memory requests

Everything that can be asked of the memory of the machine, as data: the services of the kernel,
the accesses of user programs, and the experiments on the devices beneath. Files are named by
their numbers, counted from zero in order of creation; requests that use a file go through the
description its creator holds.
-/
namespace KernelCore.VirtualMemory

open Transition

/-- What fills a page that is entered untouched. -/
inductive Source where
  | zeroFill
  | segment (file : FileId) (offset readBytes zeroBytes : Nat)

inductive Request where
  | createSpace
  | destroySpace (space : SpaceId)
  | duplicateSpace (parent child : SpaceId)
  | allocateAnonymous (space : SpaceId) (va : VirtAddr) (writable : Bool)
  | allocateLazy (space : SpaceId) (va : VirtAddr) (writable : Bool) (target : PageType)
      (source : Source)
  | setupStack (space : SpaceId)
  | loadSegment (space : SpaceId) (file : FileId) (offset : Nat) (start : VirtAddr)
      (readBytes zeroBytes : Nat) (writable : Bool)
  | claim (space : SpaceId) (va : VirtAddr)
  | mapFile (space : SpaceId) (start : VirtAddr) (length : Nat) (writable : Bool) (file : FileId)
      (offset : Nat)
  | unmapFile (space : SpaceId) (start : VirtAddr)
  | fault (space : SpaceId) (a : VirtAddr) (flags : FaultFlags) (pointer : Nat)
  /-- Which physical page holds a page. -/
  | locate (space : SpaceId) (va : VirtAddr)
  /-- The contents of a page in memory. -/
  | peek (space : SpaceId) (va : VirtAddr)
  /-- Overwrite the front of a page in memory, which must be long enough. -/
  | poke (space : SpaceId) (va : VirtAddr) (bytes : Array UInt8)
  /-- Let the hardware record an access. -/
  | touch (space : SpaceId) (va : VirtAddr) (write : Bool)
  | setUserPointer (pointer : Nat)
  | store (space : SpaceId) (a : VirtAddr) (bytes : Array UInt8)
  | load (space : SpaceId) (a : VirtAddr) (length : Nat)
  /-- Let the next `count` mappings of pages fail. -/
  | failMaps (count : Nat) (failure : MapError)
  | createFile (contents : Array UInt8)
  | dropFile (file : FileId)
  | setFileLength (file : FileId) (length : Nat)
  | setShortReads (file : FileId) (count : Nat)
  | setShortWrites (file : FileId) (count : Nat)
  | setReopenable (file : FileId) (reopenable : Bool)
  | fileContents (file : FileId)
  | fileWrites (file : FileId)

inductive Reply where
  | done
  | refused (e : MemoryError)
  /-- An access whose page could not be mapped. -/
  | unmapped
  | number (n : Nat)
  | address (va : VirtAddr)
  | location (pa : Option PhysAddr)
  | bytes (b : Array UInt8)
  | writes (ws : List FileWrite)
  /-- The page asked for is not in memory. -/
  | absent
  deriving DecidableEq

/-- The file of a number, which has to exist. -/
def fileNumbered (f : FileId) : Paging StoredFile := do
  let v ← get
  match v.files.files[f.index]? with
  | some x => pure x
  | none => violate (.noSuchHandle v.files.files.length f.index)

/-- The description the creator of a file holds. -/
def handle (f : FileId) : Paging DescriptionId := do
  let x ← fileNumbered f
  match x.handle with
  | some d => pure d
  | none => violate .check

def Source.loader : Source → Paging Loader
  | .zeroFill => pure .zeroFill
  | .segment file offset readBytes zeroBytes => do
    let d ← handle file
    let b ← ofExcept
      ((FileBacking.make d offset readBytes zeroBytes).mapError Stop.violated)
    pure (.segment b)

/-- Change a file that has to exist. -/
def changeFile (f : FileId) (change : FileStore → FileStore) : Paging Reply := do
  let _ ← fileNumbered f
  modify fun v => { v with files := change v.files }
  pure .done

/-- A request that has nothing to say but that it was carried out. -/
def done (t : Paging Unit) : Paging Reply := do
  t
  pure .done

/-- Carry a request out; a refusal stops it. -/
def serve : Request → Paging Reply
  | .createSpace => do
    let space ← createSpace
    pure (.number space.number)
  | .destroySpace space => done (destroySpace space)
  | .duplicateSpace parent child => done (duplicateSpace parent child)
  | .allocateAnonymous space va writable => done (allocateAnonymous space va writable)
  | .allocateLazy space va writable target source => do
    let loader ← source.loader
    done (allocateLazy space va writable target loader)
  | .setupStack space => do
    let top ← setupStack space
    pure (.address top)
  | .loadSegment space file offset start readBytes zeroBytes writable => do
    let d ← handle file
    done (loadSegment space d offset start readBytes zeroBytes writable)
  | .claim space va => done (claim space va)
  | .mapFile space start length writable file offset => do
    let d ← handle file
    let va ← mapFile space start length writable d offset
    pure (.address va)
  | .unmapFile space start => done (unmapFile space start)
  | .fault space a flags pointer => done (handleFault space a flags pointer)
  | .locate space va => gets fun v => .location (v.physicalPage? space va)
  | .peek space va => gets fun v =>
    match v.pageBytes? space va with
    | some page => .bytes page.toArray
    | none => .absent
  | .poke space va bytes => do
    let v ← get
    match v.physicalPage? space va with
    | some pa =>
      ensure (bytes.size ≤ pageSize) (.violated (.tooFewBytes bytes.size pageSize))
      setPage pa ((v.pool.page pa).overlay 0 bytes)
      pure .done
    | none => pure .absent
  | .touch space va write => done (modify fun v => { v with mmu := v.mmu.touch space va write })
  | .setUserPointer pointer => done (modify fun v => { v with userPointer := pointer })
  | .store space a bytes => do
    let stored ← store space a bytes
    pure (if stored then .done else .unmapped)
  | .load space a length => do
    let bytes ← load space a length
    pure ((bytes.map Reply.bytes).getD .unmapped)
  | .failMaps count failure => done (modify fun v =>
    { v with mmu := { v.mmu with failures := count, failure } })
  | .createFile contents => modifyGet fun v =>
    let (f, files) := v.files.create contents
    (.number f.index, { v with files })
  | .dropFile f => changeFile f fun files => files.dropHandle f
  | .setFileLength f length => changeFile f fun files => files.setLength f length
  | .setShortReads f count => changeFile f fun files =>
    files.updateFile f fun x => { x with shortReads := count }
  | .setShortWrites f count => changeFile f fun files =>
    files.updateFile f fun x => { x with shortWrites := count }
  | .setReopenable f reopenable => changeFile f fun files =>
    files.updateFile f fun x => { x with reopenable }
  | .fileContents f => do
    let x ← fileNumbered f
    pure (.bytes x.contents)
  | .fileWrites f => do
    let x ← fileNumbered f
    pure (.writes x.writes)

/-- Carry a request out; a refusal is a reply like any other. -/
def perform (r : Request) : Transition Violation VirtualMemory Reply := do
  let result ← onlyViolations (serve r)
  match result with
  | .ok reply => pure reply
  | .error e => pure (.refused e)

end KernelCore.VirtualMemory
