import Freestanding.Heap.Basic

/-!
# Tilings

What it means for blocks to cover a region.

`Heap.check` follows the links of a heap and stops at the first thing that is
wrong. That is how a heap is tested, but it is no account of what is being
tested for. A `Tiling` says it without a walk: it takes a list of blocks and
states what each of them has to be and how neighbours have to fit together.
The header of a block is determined by the list alone, since its links have to
be the offsets of the blocks before and behind it.

Every condition is about one block or two neighbours, which makes a tiling
easy to change in one place: only what is said about the blocks next to that
place has to be shown again.

## Main definitions

* `BlockInfo.stop`: The offset behind a block.
* `Heap.offsetAt?`: The offset of a block of a list, by its index.
* `Heap.Tiling`: A list of blocks that covers the region of a heap.
-/

namespace Freestanding

/-- The offset behind the payload of a block. -/
def BlockInfo.stop (b : BlockInfo) : Nat :=
  b.offset + Header.byteSize + b.size

namespace Heap

variable {N : Nat}

/-- The offset of the block with this index. -/
def offsetAt? (bs : List BlockInfo) (i : Nat) : Option Nat :=
  bs[i]?.map (·.offset)

/-- The offset of the block before the one with this index. -/
def offsetBefore? (bs : List BlockInfo) : Nat → Option Nat
  | 0 => none
  | i + 1 => offsetAt? bs i

/-- The header that the block with this index has to have. -/
def headerAt (bs : List BlockInfo) (i : Nat) (b : BlockInfo) : Header where
  used := b.used
  size := b.size
  previous := offsetBefore? bs i
  next := offsetAt? bs (i + 1)

/-- These blocks cover the region, one behind the other, and the heap agrees
    with that in every header and at both ends. -/
structure Tiling (h : Heap N) (bs : List BlockInfo) : Prop where
  /-- The list starts where the heap says and at the start of the region. -/
  start : h.first = 0 ∧ offsetAt? bs 0 = some 0
  /-- The last block ends the region and is the one the heap knows. -/
  finish : ∃ b, bs.getLast? = some b ∧ b.stop = N ∧ h.last = b.offset
  /-- Each block starts where the one before it stops. -/
  adjacent : ∀ i b c, bs[i]? = some b → bs[i + 1]? = some c → c.offset = b.stop
  /-- Of two neighbours one is in use. -/
  separated : ∀ i b c, bs[i]? = some b → bs[i + 1]? = some c → b.used ∨ c.used
  /-- The header of each block is the one it has to have. -/
  header : ∀ i b, bs[i]? = some b → h.header? b.offset = some (headerAt bs i b)

end Heap

end Freestanding
