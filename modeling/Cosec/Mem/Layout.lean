import Mathlib.Init

/-!
# Constants of the memory layout

The size of a page, and where the kernel is mapped.
-/

namespace Cosec.Mem.Layout

/-- `PAGE_BYTES`. -/
def pageBytes : Nat := 0x1000

/-- `KERN_OFF`. -/
def kernOff : Nat := 0xc0000000

end Cosec.Mem.Layout
