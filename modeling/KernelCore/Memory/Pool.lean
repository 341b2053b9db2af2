import KernelCore.Memory.Address
import KernelCore.Memory.Bytes
import KernelCore.Violation

/-!
# The pool of physical pages

The pool hands out at most `capacity` pages of physical memory. A released page is handed out
again before a new one is made, the last released first. Released pages are overwritten, so a
use after release shows.
-/
namespace KernelCore

structure PagePool where
  pages : Table PhysAddr PageBytes
  /-- Released pages, the last one first. -/
  free : List PhysAddr
  capacity : Nat

namespace PagePool

/-- The address of the first page. -/
def base : Nat := 0x100000

def new (capacity : Nat) : PagePool := ⟨.empty, [], capacity⟩

def page (p : PagePool) (pa : PhysAddr) : PageBytes := (p.pages.find? pa).getD .zeros

def setPage (p : PagePool) (pa : PhysAddr) (bytes : PageBytes) : PagePool :=
  { p with pages := p.pages.modify pa fun _ => bytes }

/-- A page full of zeros, if the pool has one left. -/
def acquire (p : PagePool) : Option PhysAddr × PagePool :=
  match p.free with
  | pa :: rest => (some pa, { p with free := rest }.setPage pa .zeros)
  | [] =>
    if p.pages.size < p.capacity then
      let pa : PhysAddr := ⟨base + p.pages.size * pageSize⟩
      (some pa, { p with pages := p.pages.insert pa .zeros })
    else (none, p)

/-- Take a page back, which must not be free already. -/
def release (p : PagePool) (pa : PhysAddr) : Except Violation PagePool :=
  if pa ∈ p.free then .error (.pageReleasedTwice pa)
  else .ok { p.setPage pa (.filled 0xcc) with free := pa :: p.free }

/-- Copy a whole page. -/
def copy (p : PagePool) (dst src : PhysAddr) : PagePool := p.setPage dst (p.page src)

end PagePool

end KernelCore
