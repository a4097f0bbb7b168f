import Freestanding.Log

/-!
# Replaying a Log

The blocks of a heap, as the log tells them.

A record says what was done to the blocks: where one was cut, where two were
joined, which one was handed out or taken back. Doing the same to the blocks
that were there before has to give the blocks that are there afterwards, or
the log is not true. Here it is done, on a list of blocks and without a heap.

Each change has to find what its record says. A block that is cut has to be
free and as large as the two parts and the header between them, and blocks
that are joined have to be free and next to each other. If they are not, there
is nothing to replay.

An allocation is reported after the cut that it needed. A release is reported
after the joins that followed it, though it came before them. An operation
that reports nothing has done nothing.

## Main definitions

* `Replay.cut`, `Replay.join`: Cutting a free block and joining two of them.
* `Replay.mark`: Handing out or taking back a block.
* `Replay.steps`: Cuts and joins one after the other.
* `Replay.log`: What the records of one operation do to the blocks.
* `Replay.Tells`: What the printed records of one operation tell.
-/

namespace Freestanding

namespace Replay

/-- Changes the blocks from the one at `pos` on. -/
def atBlock (pos : Nat) (change : BlockInfo → List BlockInfo → Option (List BlockInfo)) :
    List BlockInfo → Option (List BlockInfo)
  | [] => none
  | b :: bs => if b.offset = pos then change b bs else (atBlock pos change bs).map (b :: ·)

/-- Cuts the free block at `pos` into one of `size` bytes and one of `rest`
    bytes at `restPos`. -/
def cut (pos size rest restPos : Nat) : List BlockInfo → Option (List BlockInfo) :=
  atBlock pos fun b bs =>
    if b.used = false ∧ b.size = size + rest + Header.byteSize ∧
        restPos = pos + Header.byteSize + size then
      some (⟨pos, false, size⟩ :: ⟨restPos, false, rest⟩ :: bs)
    else none

/-- Joins the free block at `secondPos` to the free one at `firstPos` before
    it, which makes one of `size` bytes. -/
def join (secondPos firstPos size : Nat) : List BlockInfo → Option (List BlockInfo) :=
  atBlock firstPos fun b bs =>
    match bs with
    | [] => none
    | c :: bs =>
      if b.used = false ∧ c.used = false ∧ c.offset = secondPos ∧
          size = b.size + c.size + Header.byteSize then
        some (⟨firstPos, false, size⟩ :: bs)
      else none

/-- Changes the use of the block that a handle belongs to. A handle in front of
    the first payload belongs to none. -/
def mark (used : Bool) (p : Handle) (bs : List BlockInfo) : Option (List BlockInfo) :=
  if Header.byteSize ≤ p.offset then
    atBlock (p.offset - Header.byteSize)
      (fun b bs => if b.used = !used then some ({ b with used } :: bs) else none) bs
  else none

/-- What a record of a part of an operation does to the blocks. -/
def step : Record → List BlockInfo → Option (List BlockInfo)
  | .split pos size rest restPos, bs => cut pos size rest restPos bs
  | .merged secondPos firstPos size, bs => join secondPos firstPos size bs
  | .growthRefused, bs => some bs
  | _, _ => none

/-- The parts that are reported, one after the other. -/
def steps : List Record → List BlockInfo → Option (List BlockInfo)
  | [], bs => some bs
  | r :: rs, bs => (step r bs).bind (steps rs)

/-- What the records of one operation do to the blocks. The last of them says
    which operation it was. -/
def log (records : List Record) (bs : List BlockInfo) : Option (List BlockInfo) :=
  match records.getLast? with
  | none => some bs
  | some (.allocated _ p) => (steps records.dropLast bs).bind (mark true p)
  | some (.allocationFailed _ _) => steps records.dropLast bs
  | some (.released p _) => (mark false p bs).bind (steps records.dropLast)
  | some (.releaseIgnored _) => steps records.dropLast bs
  | some _ => none

/-- The texts of the records and of the blocks before tell the blocks after.
    Whoever has read records and blocks from them has ones that replay to the
    blocks after. -/
def Tells (records : List Record) (before after : List BlockInfo) : Prop :=
  ∀ rs bs, rs.map Record.message = records.map Record.message →
    BlockInfo.map bs = BlockInfo.map before → log rs bs = some after

end Replay

end Freestanding
