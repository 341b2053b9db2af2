import KernelCore.Memory.FileStore
import KernelCore.Memory.Swap

/-!
# Pages

What is known of a page of an address space: whether it may be written, the frame it is in while
it is in memory, and where its contents come from. A page starts untouched, with a loader that
produces its contents at the first access. From then on it is an anonymous page, which goes to a
swap slot when it leaves memory, or a file page, which is written back if it was changed.
-/
namespace KernelCore

/-- What a page becomes when it is first loaded. -/
inductive PageType where
  | anonymous | file
  deriving DecidableEq, Repr

def PageType.label : PageType → String
  | .anonymous => "Anon"
  | .file => "File"

/-- A stretch of a file that fills the front of a page; the rest of the page is zero. -/
structure FileBacking where
  file : DescriptionId
  offset : Nat
  readBytes : Nat
  fits : readBytes ≤ pageSize
  deriving DecidableEq

namespace FileBacking

/-- The bytes of the page that do not come from the file. -/
def zeroBytes (b : FileBacking) : Nat := pageSize - b.readBytes

/-- A backing of the given counts of file bytes and of zeros, which must make up one page. -/
def make (file : DescriptionId) (offset readBytes zeroBytes : Nat) :
    Except Violation FileBacking :=
  match addWords readBytes zeroBytes with
  | .error f => .error (.arithmetic f)
  | .ok sum =>
    if h : sum = pageSize ∧ readBytes ≤ pageSize then .ok ⟨file, offset, readBytes, h.2⟩
    else .error .partialPage

/-- Page number `i` of a stretch of `length` bytes of a file. -/
def ofStretch (file : DescriptionId) (offset length i : Nat) :
    Except ArithmeticFault FileBacking := do
  let skipped ← mulWords i pageSize
  let start ← addWords offset skipped
  pure ⟨file, start, min (length - i * pageSize) pageSize, Nat.min_le_right _ _⟩

end FileBacking

/-- What fills an untouched page. -/
inductive Loader where
  | zeroFill
  | segment (backing : FileBacking)
  deriving DecidableEq

/-- The file stretch a page keeps if it becomes a file page. -/
def Loader.backing? : Loader → Option FileBacking
  | .zeroFill => none
  | .segment b => some b

inductive PageKind where
  | untouched (target : PageType) (loader : Loader)
  /-- The slot is the one it was put out to. -/
  | anonymous (slot : Option SwapSlot)
  | file (backing : FileBacking)
  deriving DecidableEq

namespace PageKind

/-- The description a page of this kind holds. -/
def description? : PageKind → Option DescriptionId
  | untouched _ loader => loader.backing?.map FileBacking.file
  | anonymous _ => none
  | file b => some b.file

def text : PageKind → String
  | untouched target _ => "Uninit(" ++ target.label ++ ")"
  | anonymous none => "Anon(None)"
  | anonymous (some s) => "Anon(Some(" ++ s.text ++ "))"
  | file b => "File(offset=" ++ toString b.offset ++ ", read=" ++ toString b.readBytes ++ ")"

end PageKind

structure Page where
  writable : Bool
  /-- The frame it is in while it is in memory. -/
  frame : Option FrameId
  kind : PageKind
  deriving DecidableEq

namespace Page

/-- A page that was never accessed. -/
def fresh (writable : Bool) (target : PageType) (loader : Loader) : Page :=
  ⟨writable, none, .untouched target loader⟩

/-- The type of a page; an untouched one has the type it will have. -/
def type (p : Page) : PageType :=
  match p.kind with
  | .untouched target _ => target
  | .anonymous _ => .anonymous
  | .file _ => .file

def isResident (p : Page) : Bool := p.frame.isSome

def isUntouched (p : Page) : Bool :=
  match p.kind with
  | .untouched .. => true
  | _ => false

/-- The slot an anonymous page was put out to. -/
def slot (p : Page) : Option SwapSlot :=
  match p.kind with
  | .anonymous slot => slot
  | _ => none

def text (p : Page) (va : VirtAddr) : String :=
  "Page \x7b va: " ++ va.description ++ ", writable: " ++ toString p.writable ++ ", frame: " ++
    (match p.frame with
      | none => "None"
      | some f => "Some(" ++ f.text ++ ")") ++
    ", kind: " ++ p.kind.text ++ " \x7d"

end Page

/-! ## Filling pages from files -/

/-- A page on its way between memory and the files. -/
structure PageTransfer where
  files : FileStore
  page : PageBytes

abbrev Transferring := Transition Stop PageTransfer

namespace FileBacking

open Transition

/-- Read the stretch into the front of the page; yields how many bytes came. -/
def fill (b : FileBacking) : Transferring Nat :=
  modifyGet fun x =>
    let (bytes, files) := x.files.read b.file b.readBytes b.offset
    (bytes.size, ⟨files, x.page.overlay 0 bytes⟩)

def clearRest (b : FileBacking) : Transferring Unit :=
  modify fun x => { x with page := x.page.zeroFrom b.readBytes }

/-- Bring a file page into memory. -/
def bringIn (b : FileBacking) : Transferring Unit := do
  let n ← b.fill
  ensure (n = b.readBytes) (.refused .io)
  b.clearRest

/-- Write the page's part of the file back. There must be at least that many bytes. -/
def writeBack (b : FileBacking) (bytes : Array UInt8) : Transition Stop FileStore Unit := do
  ensure (b.readBytes ≤ bytes.size) (.violated (.tooFewBytes b.readBytes bytes.size))
  let n ← modifyGet fun files => files.write b.file (bytes.extract 0 b.readBytes) b.offset
  if n = b.readBytes then pure ()
  else
    emit .warn
      ("mmap: short write " ++ toString n ++ " of " ++ toString b.readBytes ++ " at offset " ++
        toString b.offset)
    refuse .io

end FileBacking

open Transition in
/-- Produce the first contents of a page. -/
def Loader.load : Loader → Transferring Unit
  | .zeroFill => modify fun x => { x with page := .zeros }
  | .segment b => do
    let n ← b.fill
    if n = b.readBytes then b.clearRest
    else
      emit .warn
        ("vm: short read " ++ toString n ++ " of " ++ toString b.readBytes ++
          " bytes at offset " ++ toString b.offset)
      refuse .io

end KernelCore
