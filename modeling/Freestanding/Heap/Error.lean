import Freestanding.Fault
import Freestanding.Hex

/-!
# Refusals of a Heap

Why a heap does not do what it is asked.

There may be no room, or the handle it is given may not be one. A handle can
be wrong in two ways: its header would be outside of the region, or it is
inside but is not that of a live allocation. And the list of blocks may be
damaged, which the heap notices when it follows a link to a place where no
header is.

All of these are answers. A caller can act on them, and the heap goes on
working. A fault is something else; an operation stops for either reason, and
`Stop` keeps them apart.

## Main definitions

* `Heap.Error`: Why a heap refuses.
* `Heap.Error.message`: The same in words.
* `Heap.Stop`: Why an operation ends early.
-/

namespace Freestanding

namespace Heap

/-- Why a heap does not do what it is asked. -/
inductive Error where
  /-- No free block holds so many bytes. -/
  | exhausted (requested : Nat)
  /-- The header of this handle would be outside of the region. -/
  | outOfRange (offset : Nat)
  /-- This handle is not that of a live allocation. -/
  | notAllocated (offset : Nat)
  /-- There is no header at this offset, or not the one there should be. -/
  | corrupted (offset : Nat)
  deriving DecidableEq, Repr

/-- A refusal in words. -/
def Error.message : Error → String
  | exhausted requested => s!"heap exhausted: no free block holds {requested} bytes"
  | outOfRange offset => s!"pointer {hex offset} is outside the heap"
  | notAllocated offset => s!"pointer {hex offset} is not a live allocation"
  | corrupted offset => s!"block list corrupted at {hex offset}"

/-- Why an operation on a heap ends before its answer. -/
inductive Stop where
  /-- The heap refuses. -/
  | refused (reason : Error)
  /-- A step broke a rule of the machine. -/
  | fault (reason : Fault)
  deriving DecidableEq, Repr

end Heap

end Freestanding
