import KernelCore.Parameters

/-!
# Files

Files in memory and the open descriptions of them. Several holders can share one description; it
counts them, and is closed when the last one lets go. Whoever opens a file afresh gets a
description of its own. Files never grow by being written to, and each one keeps a record of
what was done to it. For the sake of experiments the next few transfers of a file can be made to
move one byte too few.
-/
namespace KernelCore

structure FileId where
  index : Nat
  deriving DecidableEq, Repr

/-- An open file description. -/
structure DescriptionId where
  index : Nat
  deriving DecidableEq, Repr

structure FileWrite where
  offset : Nat
  bytes : Array UInt8
  deriving DecidableEq, Repr

structure StoredFile where
  contents : Array UInt8
  reads : Nat
  /-- First to last. -/
  writes : List FileWrite
  opens : Nat
  closes : Nat
  /-- How many reads are still to come short, of those that move anything. -/
  shortReads : Nat
  /-- How many writes are still to come short, of those that move anything. -/
  shortWrites : Nat
  /-- Whether the file can be opened afresh. -/
  reopenable : Bool
  /-- The description its creator holds, until it lets go. -/
  handle : Option DescriptionId
  deriving DecidableEq, Repr

instance : Inhabited StoredFile := ⟨⟨#[], 0, [], 0, 0, 0, 0, true, none⟩⟩

structure Description where
  file : FileId
  /-- How many hold this description; none if it is closed. -/
  holders : Nat
  deriving DecidableEq, Repr

structure FileStore where
  files : List StoredFile
  descriptions : List Description
  deriving DecidableEq, Repr

namespace FileStore

def empty : FileStore := ⟨[], []⟩

def file (s : FileStore) (f : FileId) : StoredFile := s.files[f.index]?.getD default

def updateFile (s : FileStore) (f : FileId) (change : StoredFile → StoredFile) : FileStore :=
  { s with files := s.files.modify f.index change }

/-- The file a description is of. -/
def fileOf (s : FileStore) (d : DescriptionId) : FileId :=
  (s.descriptions[d.index]?.map Description.file).getD ⟨0⟩

def holders (s : FileStore) (d : DescriptionId) : Nat :=
  (s.descriptions[d.index]?.map Description.holders).getD 0

/-- Create a file, opened once by its creator. -/
def create (s : FileStore) (contents : Array UInt8) : FileId × FileStore :=
  let f : FileId := ⟨s.files.length⟩
  let d : DescriptionId := ⟨s.descriptions.length⟩
  (f,
    { files := s.files ++ [{ contents, reads := 0, writes := [], opens := 1, closes := 0,
                             shortReads := 0, shortWrites := 0, reopenable := true,
                             handle := some d }]
      descriptions := s.descriptions ++ [⟨f, 1⟩] })

def updateHolders (s : FileStore) (d : DescriptionId) (change : Nat → Nat) : FileStore :=
  { s with
    descriptions := s.descriptions.modify d.index fun x => { x with holders := change x.holders } }

/-- One more holds the description. -/
def retain (s : FileStore) (d : DescriptionId) : FileStore := s.updateHolders d (· + 1)

/-- One holder lets go; the last one closes the description. -/
def release (s : FileStore) (d : DescriptionId) : FileStore :=
  let s' := s.updateHolders d (· - 1)
  if s.holders d = 1 then s'.updateFile (s.fileOf d) fun x => { x with closes := x.closes + 1 }
  else s'

def retain? (s : FileStore) (d : Option DescriptionId) : FileStore := (d.map s.retain).getD s

def release? (s : FileStore) (d : Option DescriptionId) : FileStore := (d.map s.release).getD s

/-- Open the file of a description afresh; the new description has one holder. -/
def reopen (s : FileStore) (d : DescriptionId) : Option DescriptionId × FileStore :=
  let f := s.fileOf d
  if (s.file f).reopenable then
    let s := s.updateFile f fun x => { x with opens := x.opens + 1 }
    (some ⟨s.descriptions.length⟩, { s with descriptions := s.descriptions ++ [⟨f, 1⟩] })
  else (none, s)

/-- The creator of a file lets go of it. -/
def dropHandle (s : FileStore) (f : FileId) : FileStore :=
  match (s.file f).handle with
  | none => s
  | some d => (s.release d).updateFile f fun x => { x with handle := none }

def length (s : FileStore) (d : DescriptionId) : Nat := (s.file (s.fileOf d)).contents.size

/-- The bytes a transfer moves when it could move `possible`, with `short` transfers still to
come short, and how many of those are left. -/
def transferred (possible short : Nat) : Nat × Nat :=
  if 0 < possible ∧ 0 < short then (possible - 1, short - 1) else (possible, short)

/-- Read at most `count` bytes from `offset` on. -/
def read (s : FileStore) (d : DescriptionId) (count offset : Nat) : Array UInt8 × FileStore :=
  let f := s.fileOf d
  let x := s.file f
  if x.contents.size ≤ offset then
    (#[], s.updateFile f fun x => { x with reads := x.reads + 1 })
  else
    let (n, short) := transferred (min count (x.contents.size - offset)) x.shortReads
    (x.contents.extract offset (offset + n),
      s.updateFile f fun x => { x with reads := x.reads + 1, shortReads := short })

/-- The contents with `bytes` in the place of those from `offset` on. -/
def overwritten (contents : Array UInt8) (offset : Nat) (bytes : Array UInt8) : Array UInt8 :=
  contents.mapIdx fun i b => if offset ≤ i then (bytes[i - offset]?).getD b else b

/-- Write bytes from `offset` on, as far as the file goes; yields how many were written. -/
def write (s : FileStore) (d : DescriptionId) (bytes : Array UInt8) (offset : Nat) :
    Nat × FileStore :=
  let f := s.fileOf d
  let x := s.file f
  if x.contents.size ≤ offset then (0, s)
  else
    let (n, short) := transferred (min bytes.size (x.contents.size - offset)) x.shortWrites
    let moved := bytes.extract 0 n
    (n,
      s.updateFile f fun x =>
        { x with
          contents := overwritten x.contents offset moved
          writes := x.writes ++ [⟨offset, moved⟩]
          shortWrites := short })

/-- Cut a file, or lengthen it with zeros. -/
def setLength (s : FileStore) (f : FileId) (n : Nat) : FileStore :=
  s.updateFile f fun x =>
    { x with
      contents := x.contents.extract 0 n ++ Array.replicate (n - x.contents.size) 0 }

/-- A description and the number of its holders. -/
def text (s : FileStore) (d : DescriptionId) : String :=
  "FileHandle(refs=" ++ toString (s.holders d) ++ ")"

end FileStore

end KernelCore
