import KernelCore.Config.Toml.Date
import KernelCore.Config.Toml.Line
import KernelCore.Text.Lines

/-!
# Documents in TOML

The part of the format TOML that kernel configurations use: tables, keys with one value each, and
comments. A key is defined at most once, and so is a table; the tables on the way to another may
be named by their members before they are opened. A table whose first key is the date key stands
for the date that the key's value spells, and what else is in it does not count.
-/
namespace KernelCore.Config.Toml

open KernelCore.Text

/-- How a table came about. -/
inductive Origin where
  /-- A line opened it. -/
  | opened
  /-- A line opened a table in it. -/
  | implied
  /-- A key with dots leads through it. -/
  | dotted
  deriving DecidableEq, Repr

/-- What a path leads to. -/
inductive Item where
  | value (v : Scalar)
  | table (origin : Origin)
  deriving DecidableEq, Repr

/-- A document as far as it is read. -/
structure Document where
  /-- By path, the latest first. A table takes its place when it comes about, and once more when
  it is opened. -/
  items : List (List String × Item)
  /-- The table that was opened last. -/
  current : List String
  deriving DecidableEq, Repr

namespace Document

def empty : Document := ⟨[], []⟩

def item? (d : Document) (path : List String) : Option Item := d.items.lookup path

/-- Let a path lead to an item, in the latest place. -/
def put (d : Document) (path : List String) (item : Item) : Document :=
  { d with items := (path, item) :: d.items.filter fun x => x.1 ≠ path }

/-! ## Lines -/

/-- Go down from a table through the tables of the given keys, which come about on the way. Keys
with dots must not lead through a table that a line has opened. -/
def descend (viaKey : Bool) (d : Document) (table : List String) :
    List String → Option Document
  | [] => some d
  | key :: keys =>
    let path := table ++ [key]
    match d.item? path with
    | none =>
      descend viaKey (d.put path (.table (if viaKey then .dotted else .implied))) path keys
    | some (.value _) => none
    | some (.table origin) =>
      if viaKey ∧ origin = .opened then none else descend viaKey d path keys

/-- A line opens a table. -/
def openTable (d : Document) (path : List String) : Option Document := do
  let d ← descend false d [] path.dropLast
  match d.item? path with
  | none | some (.table .implied) => pure { d.put path (.table .opened) with current := path }
  | _ => none

/-- A line gives a key of the current table a value. -/
def define (d : Document) (path : List String) (value : Scalar) : Option Document := do
  let way := path.dropLast
  let full := d.current ++ path
  let d ← descend true d d.current way
  if way ≠ [] ∧ d.item? (d.current ++ way) ≠ some (.table .dotted) then none
  else if (d.item? full).isSome then none
  else pure (d.put full (.value value))

def addLine (d : Document) (line : List Char) : Option Document := do
  match ← readLine line with
  | .blank => pure d
  | .table path => d.openTable path
  | .entry path value => d.define path value

/-! ## Dates -/

/-- The key that makes a table stand for a date. -/
def dateKey : String := "$__toml_private_datetime"

/-- What the first key of a table leads to, if that is the date key. -/
def dateItem? (d : Document) (table : List String) : Option Item :=
  match d.items.reverse.find? fun x => x.1 ≠ [] ∧ x.1.dropLast = table with
  | some (path, item) => if path.getLast? = some dateKey then some item else none
  | none => none

/-- Whether a path lies in a table that stands for a date. -/
def inDate (d : Document) (path : List String) : Bool :=
  (List.range path.length).any fun n => (d.dateItem? (path.take n)).isSome

/-- The tables of a document, the one of all others included. -/
def tables (d : Document) : List (List String) :=
  [] :: d.items.filterMap fun x =>
    match x.2 with
    | .table _ => some x.1
    | .value _ => none

/-- Whether a table stands for no date or for one that is spelled correctly. -/
def isSpelled (d : Document) (table : List String) : Bool :=
  match d.dateItem? table with
  | none => true
  | some (.value (.string s)) => isDate s.toList
  | some _ => false

/-- Whether all tables that stand for dates are spelled correctly. -/
def datesSpelled (d : Document) : Bool := d.tables.all fun t => d.inDate t || d.isSpelled t

/-- The values of a document. -/
def settings (d : Document) : Settings :=
  ⟨d.items.filterMap fun x =>
    match x.2 with
    | .value v => if d.inDate x.1 then none else some (x.1, v)
    | .table _ => none⟩

end Document

/-- The text without the byte order mark it may start with. -/
def dropMark (text : List Char) : List Char :=
  match text with
  | '\ufeff' :: rest => rest
  | _ => text

/-- The settings of a document, if it is one. -/
def read (text : List Char) : Option Settings := do
  let d ← (lines (dropMark text)).foldlM Document.addLine Document.empty
  if d.datesSpelled then pure d.settings else none

end KernelCore.Config.Toml
