import KernelCore.Memory.Page

/-!
# Address spaces

The pages of an address space by the addresses they start at, in memory or not, and the regions
of files mapped into it by their start.
-/
namespace KernelCore

/-- A stretch of a file mapped into an address space. -/
structure Region where
  pageCount : Nat
  file : DescriptionId
  deriving DecidableEq, Repr

structure AddressSpace where
  pages : Table VirtAddr Page
  regions : Table VirtAddr Region
  deriving DecidableEq

namespace AddressSpace

def empty : AddressSpace := ⟨.empty, .empty⟩

/-- The page an address lies in. -/
def page? (a : AddressSpace) (va : VirtAddr) : Option Page := a.pages.find? va.floor

def contains (a : AddressSpace) (va : VirtAddr) : Bool := (a.page? va).isSome

/-- Enter a page at an aligned address, if there is none yet. -/
def insertPage (a : AddressSpace) (va : VirtAddr) (p : Page) : Except Stop AddressSpace :=
  if va.isAligned = false then .error (.violated .check)
  else if a.pages.contains va then .error (.refused .alreadyMapped)
  else .ok { a with pages := a.pages.insert va p }

def updatePage (a : AddressSpace) (va : VirtAddr) (f : Page → Page) : AddressSpace :=
  { a with pages := a.pages.modify va.floor f }

def removePage (a : AddressSpace) (va : VirtAddr) : AddressSpace :=
  { a with pages := a.pages.erase va.floor }

/-- Whether one of `count` pages from `start` on exists. -/
def occupied (a : AddressSpace) (start : VirtAddr) (count : Nat) : Bool :=
  a.pages.keys.any fun va =>
    start.toNat ≤ va.toNat && va.toNat < start.toNat + count * pageSize

def insertRegion (a : AddressSpace) (start : VirtAddr) (r : Region) : AddressSpace :=
  { a with regions := a.regions.insert start r }

def removeRegion (a : AddressSpace) (start : VirtAddr) : AddressSpace :=
  { a with regions := a.regions.erase start }

/-- The descriptions its pages and regions hold, once for each of them. -/
def descriptions (a : AddressSpace) : List DescriptionId :=
  a.pages.values.filterMap (·.kind.description?) ++ a.regions.values.map Region.file

end AddressSpace

def Region.text (r : Region) (start : VirtAddr) (files : FileStore) : String :=
  "MmapRegion \x7b start: " ++ start.description ++ ", page_count: " ++ toString r.pageCount ++
    ", file: " ++ files.text r.file ++ " \x7d"

end KernelCore
