import Freestanding.Heap.Access
import Freestanding.Loop

/-!
# Allocating and Releasing

How a heap hands blocks out and takes them back.

Allocation takes the first free block that is large enough, in the order of
offsets. If more is left over than a header and another header's worth of
payload, the block is cut in two and the rest stays free; otherwise the whole
block is handed out. A release marks the block free and joins it with the
blocks on both sides that are free too, so free blocks never stay next to each
other.

Both are written as the sequence of reads and writes of headers that they are.
The order matters, because the region can hold anything: a link may lead to a
place where no header is, and then the operation stops there, with everything
written up to that point. A write that would leave the region, and a sum or
difference that is not a word, are faults.

Writing a header drops what has no room in its fields, silently, and a caller
has to see to it that nothing is dropped. Whether that is so cannot be read off
the heap an operation leaves, for most of the headers it writes are written
over or taken away before it ends. So the function that writes headers is left
open here. Every step gets it as an argument and hands on to it what is to be
written, and the function may be one that looks at the header first. The
operations of `Heap.Through` are made with any such function, and those of the
heap are the ones that are made with `writeHeader`.

The search for a block has no bound of its own. It follows the links until it
finds a block or the list ends, and on a damaged list it may do so forever.
There are at most `N` offsets at which a header can be read, so a search that
has looked at `N` headers has been at one of them twice; `search` is given
that many steps and reports the fault if they are not enough.

## Main definitions

* `Heap.search`: The first free block that is large enough.
* `Heap.split`: Cutting a block in two.
* `Heap.merge`: Joining a block to the one before it.
* `Heap.grow`: The request for a larger region.
* `Heap.round`: One search for a block, and what follows it.
* `Heap.Through.allocate`, `Heap.Through.tryRelease`: The operations, with any
  function that writes headers.
* `Heap.allocate`: Handing out a block.
* `Heap.tryRelease`: Taking a block back.
* `Heap.release`: The same, where a wrong handle is ignored.
* `Heap.reset`: Starting over with an empty heap.

## Theorems

* `Heap.round_ne_again`: The first round is the last one.
* `Heap.allocateWithin_succ`: More rounds make no difference.
* `Heap.Through.allocate_of_error`, `Heap.Through.allocate_of_none`,
  `Heap.Through.allocate_of_some`: An allocation by what its search found.
* `Heap.Through.tryRelease_of_outOfRange`, `Heap.Through.tryRelease_of_notLive`,
  `Heap.Through.tryRelease_of_live`: A release by what its handle is.
* `Heap.release_of_ok`, `Heap.release_of_refused`: A release that reports
  nothing.
-/

namespace Freestanding

namespace Heap

open Change

variable {N : Nat}

/-- The first free block with at least `size` bytes on the walk from a link
    on, looking at no more than `n` headers. -/
def search (h : Heap N) (size : Nat) : Nat → Option Nat → Except Stop (Option (Nat × Header))
  | _, none => .ok none
  | 0, some _ => .error (.fault .endless)
  | n + 1, some pos =>
    match h.header? pos with
    | none => .error (.refused (.corrupted pos))
    | some b =>
      if b.used = false ∧ size ≤ b.size then .ok (some (pos, b))
      else h.search size n b.next

/-- The first free block with at least `size` bytes. -/
def firstFit (h : Heap N) (size : Nat) : Except Stop (Option (Nat × Header)) :=
  h.search size N (some h.first)

/-- Whether a free block is large enough to be cut when `size` bytes of it are
    handed out. -/
def Splits (b : Header) (size : Nat) : Prop :=
  size + 2 * Header.byteSize < b.size

instance (b : Header) (size : Nat) : Decidable (Splits b size) :=
  inferInstanceAs (Decidable (_ < _))

/-- Asks for a larger region. It has the size it has, so the answer is no. -/
def grow : HeapM N Bool := do
  emit .growthRefused
  return false

section

variable (write : Nat → Header → HeapM N Unit)

/-- Cuts the block at `pos` behind `size` payload bytes and makes a free block
    of the rest. The answer is the header that is to be written at `pos`. -/
def split (pos : Nat) (b : Header) (size : Nat) : HeapM N Header := do
  let restPos ← Word.add (← Word.add pos Header.byteSize) size
  let rest ← Word.sub (← Word.sub b.size size) Header.byteSize
  -- The block behind learns of the rest before the rest has a header.
  relinkNext write b.next restPos
  write restPos ⟨false, rest, some pos, b.next⟩
  moveLast pos restPos
  emit (.split pos size rest restPos)
  return { b with size, next := some restPos }

/-- Hands out the free block at `pos`, cut if it is large enough for that. -/
def place (pos : Nat) (b : Header) (size : Nat) : HeapM N Handle := do
  let b ← if Splits b size then split write pos b size else pure b
  write pos { b with used := true }
  return ⟨← Word.add pos Header.byteSize⟩

/-- One round of an allocation. It searches once, and then it hands a block out
    or asks for a larger region. -/
def round (size : Nat) : HeapM N (Turn Unit Handle) := do
  match ← ofExcept ((← state).firstFit size) with
  | some (pos, b) =>
    let p ← place write pos b size
    emit (.allocated size p)
    return .done p
  | none =>
    if ← grow then return .again ()
    else
      emit (.allocationFailed size (← state).blocks)
      refuse (.exhausted size)

/-- Hands out a block with at least `size` payload bytes, in `n` rounds at
    most. -/
def allocateWithin : Nat → Nat → HeapM N Handle
  | 0, _ => stop (.fault .endless)
  | n + 1, size => do
    match ← round write size with
    | .done p => return p
    | .again () => allocateWithin n size

/-- Hands out a block with at least `size` payload bytes. A region that does
    not grow needs no second round. -/
def Through.allocate (size : Nat) : HeapM N Handle :=
  allocateWithin write 1 size

/-- Joins the block at `secondPos` to the one at `firstPos`, which is right
    before it. The answer is the header of the block that is left. -/
def merge (firstPos : Nat) (first : Header) (secondPos : Nat) (second : Header) :
    HeapM N Header := do
  -- A damaged link is noticed here, before anything is joined.
  relinkNext write second.next firstPos
  let size ← Word.add first.size (← Word.add second.size Header.byteSize)
  let joined := { first with size, next := second.next }
  write firstPos joined
  eraseHeader secondPos
  moveLast secondPos firstPos
  emit (.merged secondPos firstPos size)
  return joined

/-- Joins the free block at `pos` with the block behind it, if that is free. -/
def mergeNext (pos : Nat) (b : Header) : HeapM N Header := do
  match b.next with
  | none => return b
  | some nextPos =>
    let next ← readHeader nextPos
    if next.used then return b else merge write pos b nextPos next

/-- Joins the free block at `pos` to the block before it, if that is free. -/
def mergePrevious (pos : Nat) (b : Header) : HeapM N Unit := do
  match b.previous with
  | none => return ()
  | some previousPos =>
    let previous ← readHeader previousPos
    if previous.used then return ()
    else
      let _ ← merge write previousPos previous pos b
      return ()

/-- Takes an allocation back, or refuses a handle that is not one. -/
def Through.tryRelease (p : Handle) : HeapM N Unit := do
  let h ← state
  match p.headerIn? N with
  | none => refuse (.outOfRange p.offset)
  | some pos =>
    match h.live? pos with
    | none => refuse (.notAllocated p.offset)
    | some b =>
      -- The block is free from here on, also if joining it fails.
      let b := { b with used := false }
      write pos b
      let b ← mergeNext write pos b
      mergePrevious write pos b
      emit (.released p (← state).blocks)

end

/-- Hands out a block with at least `size` payload bytes. -/
def allocate (size : Nat) : HeapM N Handle :=
  Through.allocate writeHeader size

/-- Takes an allocation back, or refuses a handle that is not one. -/
def tryRelease (p : Handle) : HeapM N Unit :=
  Through.tryRelease writeHeader p

/-- Takes an allocation back, and ignores a handle that is not one. -/
def release (p : Handle) : HeapM N Unit := do
  match ← attempt (tryRelease p) with
  | .ok () => return ()
  | .error reason => emit (.releaseIgnored reason)

/-- Starts over with an empty heap. -/
def reset : HeapM N Unit := do
  update fun h => Heap.initial h.room h.small
  emit (.heapInitialized N)

section

variable {write : Nat → Header → HeapM N Unit} {h : Heap N} {size : Nat} {p : Handle}

/-- A round with a search that fails ends there, and nothing is reported. -/
theorem round_of_error {e : Stop} (hf : h.firstFit size = .error e) :
    round write size h = ⟨.error e, h, []⟩ := by
  rw [round, state_bind, hf]
  rfl

/-- A round with a search that finds nothing leaves the heap as it is. -/
theorem round_of_none (hf : h.firstFit size = .ok none) :
    round write size h =
      ⟨.error (.refused (.exhausted size)), h,
        [.growthRefused, .allocationFailed size h.blocks]⟩ := by
  rw [round, state_bind, hf]
  rfl

/-- A round with a search that finds a block hands it out. -/
theorem round_of_some {pos : Nat} {b : Header} (hf : h.firstFit size = .ok (some (pos, b))) :
    round write size h =
      (do
        let p ← place write pos b size
        emit (.allocated size p)
        return .done p : HeapM N (Turn Unit Handle)) h := by
  rw [round, state_bind, hf]
  rfl

/-- The region never grows, so no round asks for another one. -/
theorem round_ne_again (t : Heap N) (log : List Record) :
    round write size h ≠ ⟨.ok (.again ()), t, log⟩ := by
  intro hr
  rcases hf : h.firstFit size with e | _ | ⟨pos, b⟩
  · rw [round_of_error hf] at hr
    cases hr
  · rw [round_of_none hf] at hr
    cases hr
  · rw [round_of_some hf] at hr
    rcases hp : place write pos b size h with ⟨e | p, u, more⟩
    · rw [bind_of_error hp] at hr
      cases hr
    · rw [bind_of_ok hp] at hr
      cases hr

/-- A round that fails is all of an allocation. -/
theorem allocateWithin_of_error {e : Stop} {t : Heap N} {log : List Record}
    (hr : round write size h = ⟨.error e, t, log⟩) (n : Nat) :
    allocateWithin write (n + 1) size h = ⟨.error e, t, log⟩ := by
  rw [allocateWithin, bind_of_error hr]

/-- A round that hands a block out is all of an allocation. -/
theorem allocateWithin_of_done {t : Heap N} {log : List Record}
    (hr : round write size h = ⟨.ok (.done p), t, log⟩) (n : Nat) :
    allocateWithin write (n + 1) size h = ⟨.ok p, t, log⟩ := by
  rw [allocateWithin, bind_of_ok hr]
  simp only [pure_apply, List.append_nil]

/-- More rounds make no difference. -/
theorem allocateWithin_succ (n size : Nat) :
    allocateWithin write (n + 1) size = Through.allocate write size := by
  funext h
  rcases hr : round write size h with ⟨e | ⟨⟨⟩⟩ | p, t, log⟩
  · rw [Through.allocate, allocateWithin_of_error hr, allocateWithin_of_error hr]
  · exact absurd hr (round_ne_again t log)
  · rw [Through.allocate, allocateWithin_of_done hr, allocateWithin_of_done hr]

/-- A search that fails ends an allocation, and nothing is reported. -/
theorem Through.allocate_of_error {e : Stop} (hf : h.firstFit size = .error e) :
    Through.allocate write size h = ⟨.error e, h, []⟩ :=
  allocateWithin_of_error (round_of_error hf) 0

/-- A search that finds nothing leaves the heap as it is. -/
theorem Through.allocate_of_none (hf : h.firstFit size = .ok none) :
    Through.allocate write size h =
      ⟨.error (.refused (.exhausted size)), h,
        [.growthRefused, .allocationFailed size h.blocks]⟩ :=
  allocateWithin_of_error (round_of_none hf) 0

/-- A block that is found is handed out. -/
theorem Through.allocate_of_some {pos : Nat} {b : Header}
    (hf : h.firstFit size = .ok (some (pos, b))) :
    Through.allocate write size h =
      (do
        let p ← place write pos b size
        emit (.allocated size p)
        return p : HeapM N Handle) h := by
  have hr : round write size h = _ := round_of_some hf
  rcases hp : place write pos b size h with ⟨e | p, t, log⟩
  · rw [bind_of_error hp] at hr ⊢
    exact allocateWithin_of_error hr 0
  · rw [bind_of_ok hp] at hr ⊢
    exact allocateWithin_of_done hr 0

/-- A handle with a header outside of the region is refused. -/
theorem Through.tryRelease_of_outOfRange (hp : p.headerIn? N = none) :
    Through.tryRelease write p h = ⟨.error (.refused (.outOfRange p.offset)), h, []⟩ := by
  rw [Through.tryRelease, state_bind, hp]
  rfl

/-- A handle that is not that of a live allocation is refused. -/
theorem Through.tryRelease_of_notLive {pos : Nat} (hp : p.headerIn? N = some pos)
    (hb : h.live? pos = none) :
    Through.tryRelease write p h = ⟨.error (.refused (.notAllocated p.offset)), h, []⟩ := by
  rw [Through.tryRelease, state_bind, hp]
  dsimp only
  rw [hb]
  rfl

/-- A live allocation is marked free and joined with its neighbours. -/
theorem Through.tryRelease_of_live {pos : Nat} {b : Header} (hp : p.headerIn? N = some pos)
    (hb : h.live? pos = some b) :
    Through.tryRelease write p h =
      (do
        write pos { b with used := false }
        let joined ← mergeNext write pos { b with used := false }
        mergePrevious write pos joined
        emit (.released p (← state).blocks) : HeapM N Unit) h := by
  rw [Through.tryRelease, state_bind, hp]
  dsimp only
  rw [hb]

end

/-- A release that succeeds has nothing to ignore. -/
theorem release_of_ok {h t : Heap N} {p : Handle} {log : List Record}
    (hr : tryRelease p h = ⟨.ok (), t, log⟩) : release p h = ⟨.ok (), t, log⟩ := by
  have ha : attempt (tryRelease p) h = ⟨.ok (.ok ()), t, log⟩ := by rw [attempt, hr]
  rw [release, bind_of_ok ha]
  simp only [pure_apply, List.append_nil]

/-- A release that is refused answers all the same and says so in the log. -/
theorem release_of_refused {h t : Heap N} {p : Handle} {e : Error} {log : List Record}
    (hr : tryRelease p h = ⟨.error (.refused e), t, log⟩) :
    release p h = ⟨.ok (), t, log ++ [.releaseIgnored e]⟩ := by
  have ha : attempt (tryRelease p) h = ⟨.ok (.error e), t, log⟩ := by rw [attempt, hr]
  rw [release, bind_of_ok ha]
  rfl

end Heap

end Freestanding
