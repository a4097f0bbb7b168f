import Freestanding.Header
import Freestanding.Heap.Error

/-!
# Heaps

A region that is cut into blocks, and what can be read off it.

Each block is a header and the payload behind it. The headers link the blocks
into a list in the order of their offsets, and the heap itself knows only
where that list starts and where it ends. A link is an offset into the region,
so the whole heap can be moved or copied without touching a byte of it.

All there is to know about the blocks is in the bytes of the region, where
users of the heap write as well. Reading has to make sense for any bytes. A
walk along the links stops where no header can be read, and since every header
takes up bytes of its own, a walk that has seen as many headers as the region
has room for is not going to see a new one and stops there as well.

A handle is the offset of a payload. It is good only if the walk from the
first block meets its header and that block is in use, which is what `live?`
tests; bytes in a payload that look like a header are never met. `check` tests
the list as a whole.

A heap is larger than one header and small enough for its offsets to fit into
links. Both facts are part of the type, since no operation changes the size.

## Main definitions

* `Heap`: A region with a list of blocks in it.
* `Heap.initial`: One free block that takes up the whole region.
* `Handle`: The offset of a payload.
* `Handle.headerIn?`: The offset of its header.
* `BlockInfo`: What a walk reports about a block.
* `Heap.blocks`: The blocks, from first to last.
* `Heap.blockCount`, `Heap.freeBytes`, `Heap.largestFree`: Their number, the
  free payload bytes, and the most that are in one block.
* `Heap.live?`: The header of a block in use.
* `Heap.payload?`: The payload of a live allocation.
* `Heap.check`: Whether the list of blocks is in order.

## Theorems

* `Heap.length_blocks_le`: A walk ends.
-/

namespace Freestanding

/-- A region of `N` bytes that is cut into a list of blocks. -/
structure Heap (N : Nat) where
  /-- The bytes of all headers and payloads. -/
  region : Region N
  /-- The offset of the first header. -/
  first : Nat
  /-- The offset of the last header. -/
  last : Nat
  /-- There is room for a header and a payload byte. -/
  room : Header.byteSize < N
  /-- Every offset fits into a link. -/
  small : N < Header.maxRegion

/-- A handle to an allocation, which is the offset of its payload. -/
structure Handle where
  /-- The offset of the payload. -/
  offset : Nat
  deriving DecidableEq, Repr

/-- The offset of the header that belongs to a handle, if it is in a region of
    `N` bytes. -/
def Handle.headerIn? (p : Handle) (N : Nat) : Option Nat :=
  if Header.byteSize ≤ p.offset ∧ p.offset - Header.byteSize < N then
    some (p.offset - Header.byteSize)
  else none

/-- What a walk along the blocks reports about one of them. -/
structure BlockInfo where
  /-- The offset of the header. -/
  offset : Nat
  /-- Whether the payload is in use. -/
  used : Bool
  /-- The number of payload bytes. -/
  size : Nat
  deriving DecidableEq, Repr

/-- The handle to the payload of a block. -/
def BlockInfo.payload (b : BlockInfo) : Handle :=
  ⟨b.offset + Header.byteSize⟩

namespace Heap

variable {N : Nat}

/-- The size of a region, unless another one is asked for. -/
def defaultSize : Nat := 0x100

/-- The header of the one block of a fresh region. -/
def initialHeader (N : Nat) : Header where
  used := false
  size := N - Header.byteSize
  previous := none
  next := none

/-- The heap with a single free block, in a region that is zero otherwise. -/
def initial (room : Header.byteSize < N) (small : N < Header.maxRegion) : Heap N where
  region := (Region.zeros N).overwrite 0 (initialHeader N).encode
  first := 0
  last := 0
  room
  small

/-- The number of bytes of the region, headers included. -/
def capacity (_ : Heap N) : Nat := N

/-- The header at an offset, if there is one. -/
def header? (h : Heap N) (pos : Nat) : Option Header :=
  Header.read? h.region pos

/-- The blocks on the walk from a link on, at most `n` of them. -/
def walk (h : Heap N) : Nat → Option Nat → List BlockInfo
  | 0, _ => []
  | _ + 1, none => []
  | n + 1, some pos =>
    match h.header? pos with
    | none => []
    | some b => ⟨pos, b.used, b.size⟩ :: h.walk n b.next

/-- The number of headers that a region of `N` bytes has room for. -/
def visits (N : Nat) : Nat := N / Header.byteSize

/-- The blocks of a heap, from the first one on. -/
def blocks (h : Heap N) : List BlockInfo :=
  h.walk (visits N) (some h.first)

/-- The number of blocks. -/
def blockCount (h : Heap N) : Nat :=
  h.blocks.length

/-- The sizes of the free blocks. -/
def freeSizes (h : Heap N) : List Nat :=
  (h.blocks.filter fun b => !b.used).map (·.size)

/-- The number of payload bytes that are free. -/
def freeBytes (h : Heap N) : Nat :=
  h.freeSizes.foldr (· + ·) 0

/-- The number of payload bytes of the largest free block. -/
def largestFree (h : Heap N) : Nat :=
  h.freeSizes.foldl max 0

/-- The header at an offset, if the walk from the first block meets it there
    and the block is in use. Offsets grow along the list, so the walk is over
    at the first offset that is not smaller. -/
def live? (h : Heap N) (pos : Nat) : Option Header := do
  let found ← h.blocks.find? fun b => pos ≤ b.offset
  if found.offset = pos ∧ found.used then h.header? pos else none

/-- The header of a live allocation. -/
def allocation? (h : Heap N) (p : Handle) : Option Header := do
  h.live? (← p.headerIn? N)

/-- The payload of a live allocation, which is all of its block. -/
def payload? (h : Heap N) (p : Handle) : Option Bytes := do
  let b ← h.allocation? p
  h.region.slice? p.offset b.size

/-- Follows the list from a link on, where `expected` is the offset the next
    header has to have, and `before` is the offset and the use of the block
    before it. -/
def checkFrom (h : Heap N) :
    Nat → Option Nat → Nat → Option (Nat × Bool) → Except Error Unit
  | _, none, expected, _ => if expected = N then .ok () else .error (.corrupted expected)
  | 0, some pos, _, _ => .error (.corrupted pos)
  | n + 1, some pos, expected, before =>
    match h.header? pos with
    | none => .error (.corrupted pos)
    | some b =>
      let inPlace := pos = expected
      let linkedBack := b.previous = before.map (·.1)
      let separated := b.used ∨ ∀ c ∈ before, c.2
      let lastKnown := b.next = none → pos = h.last
      if inPlace ∧ linkedBack ∧ separated ∧ lastKnown then
        h.checkFrom n b.next (pos + (Header.byteSize + b.size)) (some (pos, b.used))
      else .error (.corrupted pos)

/-- Tests that the blocks cover the region one behind the other, that their
    links agree, that the last block is the one the heap knows, and that no
    two free blocks are next to each other. -/
def check (h : Heap N) : Except Error Unit :=
  if h.first = 0 then h.checkFrom (visits N) (some h.first) 0 none
  else .error (.corrupted h.first)

/-- A walk reports at most as many blocks as it may visit. -/
theorem length_walk_le (h : Heap N) (n : Nat) (cursor : Option Nat) :
    (h.walk n cursor).length ≤ n := by
  induction n generalizing cursor with
  | zero => exact Nat.le_refl 0
  | succ n ih =>
      cases cursor with
      | none => exact Nat.zero_le _
      | some pos =>
          rw [walk]
          cases h.header? pos with
          | none => exact Nat.zero_le _
          | some b => exact Nat.succ_le_succ (ih b.next)

/-- A heap has at most as many blocks as its region has room for headers, even
    if its links run in circles. -/
theorem length_blocks_le (h : Heap N) : h.blocks.length ≤ N / Header.byteSize :=
  length_walk_le h _ _

end Heap

end Freestanding
