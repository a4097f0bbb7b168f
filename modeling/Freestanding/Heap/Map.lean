import Freestanding.Heap.Basic

/-!
# Block Maps

How the blocks of a heap are written for people.

A block is its use, its size and its offset in brackets, and a map is its
blocks with a space between them. A description gives the bounds of the region
and the ends of the list in front of the map.

## Main definitions

* `BlockInfo.text`: One block in words.
* `BlockInfo.map`: Blocks in words.
* `Heap.map`: The blocks of a heap in words.
* `Heap.description`: All a heap knows about itself.
-/

namespace Freestanding

namespace BlockInfo

/-- The words for the use of a block. -/
def useText (used : Bool) : String :=
  if used then "used" else "free"

/-- One block in words. -/
def text (b : BlockInfo) : String :=
  s!"[{useText b.used} {b.size} @{b.offset}]"

/-- Blocks in words. -/
def map (blocks : List BlockInfo) : String :=
  " ".intercalate (blocks.map text)

end BlockInfo

namespace Heap

variable {N : Nat}

/-- The blocks of a heap in words. -/
def map (h : Heap N) : String :=
  BlockInfo.map h.blocks

/-- The bounds of the region, the ends of the list, and the blocks. -/
def description (h : Heap N) : String :=
  s!"Heap \x7b start: 0, end: {N}, first: {h.first}, last: {h.last}, blocks: {h.map} \x7d"

end Heap

end Freestanding
