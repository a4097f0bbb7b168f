import Freestanding.Change
import Freestanding.Log
import Freestanding.Word

/-!
# Reading and Writing Headers

The single steps that operations on a heap are made of.

An operation reads headers and writes them, and each of these steps has one
way to fail. Reading stops where no header is: the list of blocks is damaged,
and the heap refuses. Writing has to stay in the region: a header that does
not fit there is a fault. What a step does to the heap when it does not fail
is a function on heaps, `setHeader` or `clearTag`, so that the theorems can
speak of the heap that results without running anything.

A change of a link is made of two steps, and it gets the function that writes
the header as an argument. That is `writeHeader` unless the theorems want to
look at the header first.

## Main definitions

* `HeapM`: An operation on a heap.
* `Heap.attempt`: A refusal as an answer.
* `Heap.setHeader`, `Heap.clearTag`, `Heap.setLast`: The heap after a step.
* `Heap.readHeader`, `Heap.writeHeader`, `Heap.eraseHeader`: The steps.
* `Heap.relink`, `Heap.moveLast`: Changes of a link and of the last offset.

## Theorems

* `Heap.lift_bind`: What follows a value that is there.
* `Heap.readHeader_of_some`, `Heap.readHeader_of_none`: Reading a header.
* `Heap.writeHeader_apply`, `Heap.eraseHeader_apply`: Writing a header.
* `Heap.header?_setHeader_self`, `Heap.header?_setHeader_of_disjoint`: What is
  read after writing.
* `Heap.header?_clearTag_of_disjoint`: What is read after taking a tag away.
-/

namespace Freestanding

/-- An operation on a heap of `N` bytes. -/
abbrev HeapM (N : Nat) (α : Type) : Type :=
  Change Record Heap.Stop (Heap N) α

namespace Heap

open Change

variable {N : Nat} {α β : Type}

/-- A step that breaks a rule stops an operation. -/
instance : MonadLift Checked (HeapM N) where
  monadLift x := ofExcept (x.mapError .fault)

/-- Stops because the heap refuses. -/
def refuse (e : Error) : HeapM N α :=
  stop (.refused e)

/-- Runs an operation and answers a refusal instead of stopping for it. -/
def attempt (x : HeapM N α) : HeapM N (Except Error α) :=
  fun h => match x h with
    | ⟨.ok a, t, log⟩ => ⟨.ok (.ok a), t, log⟩
    | ⟨.error (.refused e), t, log⟩ => ⟨.ok (.error e), t, log⟩
    | ⟨.error (.fault f), t, log⟩ => ⟨.error (.fault f), t, log⟩

/-- The heap with a header written at an offset. -/
def setHeader (h : Heap N) (pos : Nat) (b : Header) : Heap N :=
  { h with region := h.region.overwrite pos b.encode }

/-- The heap with the tag at an offset taken away. -/
def clearTag (h : Heap N) (pos : Nat) : Heap N :=
  { h with region := h.region.overwrite pos Header.noTag }

/-- The heap with its last block at `new` if it was at `old`. -/
def setLast (h : Heap N) (old new : Nat) : Heap N :=
  if h.last = old then { h with last := new } else h

/-- The header at an offset where there has to be one. -/
def readHeader (pos : Nat) : HeapM N Header := do
  match (← state).header? pos with
  | some b => return b
  | none => refuse (.corrupted pos)

/-- Writes a header. -/
def writeHeader (pos : Nat) (b : Header) : HeapM N Unit := do
  let region ← Header.write (← state).region pos b
  update fun h => { h with region }

/-- Takes the tag of a header away. -/
def eraseHeader (pos : Nat) : HeapM N Unit := do
  let region ← Header.erase (← state).region pos
  update fun h => { h with region }

section

variable (write : Nat → Header → HeapM N Unit)

/-- Links the block at `pos` back to the one at `previous`. -/
def relink (pos previous : Nat) : HeapM N Unit := do
  let b ← readHeader pos
  write pos { b with previous := some previous }

/-- Links the block that a link leads to back to the one at `previous`. -/
def relinkNext (next : Option Nat) (previous : Nat) : HeapM N Unit :=
  match next with
  | some pos => relink write pos previous
  | none => return ()

end

/-- Makes the block at `new` the last one if the block at `old` was. -/
def moveLast (old new : Nat) : HeapM N Unit :=
  update fun h => h.setLast old new

/-- A value that is there does not stop an operation. -/
theorem lift_bind {x : Checked α} {a : α} (hx : x = .ok a) (f : α → HeapM N β) :
    ((liftM x : HeapM N α) >>= f) = f a := by
  subst hx
  rfl

/-- A header that is there is read. -/
theorem readHeader_of_some {h : Heap N} {pos : Nat} {b : Header} (hb : h.header? pos = some b) :
    readHeader pos h = ⟨.ok b, h, []⟩ := by
  rw [readHeader, state_bind, hb]
  rfl

/-- Where no header is, the heap refuses. -/
theorem readHeader_of_none {h : Heap N} {pos : Nat} (hb : h.header? pos = none) :
    readHeader pos h = ⟨.error (.refused (.corrupted pos)), h, []⟩ := by
  rw [readHeader, state_bind, hb]
  rfl

/-- A header is written where there is room for it. -/
theorem writeHeader_apply {h : Heap N} {pos : Nat} (b : Header) (hN : pos + Header.byteSize ≤ N) :
    writeHeader pos b h = ⟨.ok (), h.setHeader pos b, []⟩ := by
  have hw : Header.write h.region pos b = .ok (h.region.overwrite pos b.encode) :=
    Region.write_eq_ok (by rw [Header.length_encode]; exact hN)
  rw [writeHeader, state_bind, lift_bind hw]
  rfl

/-- Where there is no room, writing a header is a fault. -/
theorem writeHeader_fault {h : Heap N} {pos : Nat} (b : Header) (hN : N < pos + Header.byteSize) :
    writeHeader pos b h = ⟨.error (.fault .outOfRange), h, []⟩ := by
  have hw : Header.write h.region pos b = .error .outOfRange :=
    if_neg (by rw [Header.length_encode]; omega)
  rw [writeHeader, state_bind, hw]
  rfl

/-- A tag is taken away where there is one. -/
theorem eraseHeader_apply {h : Heap N} {pos : Nat} (hN : pos + Header.fieldSize ≤ N) :
    eraseHeader pos h = ⟨.ok (), h.clearTag pos, []⟩ := by
  have hw : Header.erase h.region pos = .ok (h.region.overwrite pos Header.noTag) :=
    Region.write_eq_ok hN
  rw [eraseHeader, state_bind, lift_bind hw]
  rfl

/-- A header that is there is linked back. -/
theorem relink_of_some {h : Heap N} {pos previous : Nat} {b : Header}
    (hb : h.header? pos = some b) :
    relink writeHeader pos previous h =
      ⟨.ok (), h.setHeader pos { b with previous := some previous }, []⟩ := by
  rw [relink, bind_of_ok (readHeader_of_some hb),
    writeHeader_apply _ (Header.read?_eq_some_bounds hb)]
  rfl

/-- Where no header is, nothing is linked back. -/
theorem relink_of_none {h : Heap N} {pos previous : Nat} (hb : h.header? pos = none) :
    relink writeHeader pos previous h = ⟨.error (.refused (.corrupted pos)), h, []⟩ := by
  rw [relink, bind_of_error (readHeader_of_none hb)]

/-- A header whose fields fit is there after it is written. -/
theorem header?_setHeader_self {h : Heap N} {pos : Nat} {b : Header}
    (hN : pos + Header.byteSize ≤ N) (hb : b.Fits) : (h.setHeader pos b).header? pos = some b :=
  Header.read?_overwrite_self hN hb

/-- A header that does not overlap with the one written reads as before. -/
theorem header?_setHeader_of_disjoint {h : Heap N} {pos p : Nat} {b : Header}
    (hp : p + Header.byteSize ≤ pos ∨ pos + Header.byteSize ≤ p) :
    (h.setHeader pos b).header? p = h.header? p :=
  Header.read?_overwrite_of_disjoint (by rw [Header.length_encode]; exact hp)

/-- A header that does not overlap with a tag taken away reads as before. -/
theorem header?_clearTag_of_disjoint {h : Heap N} {pos p : Nat}
    (hp : p + Header.byteSize ≤ pos ∨ pos + Header.fieldSize ≤ p) :
    (h.clearTag pos).header? p = h.header? p :=
  Header.read?_overwrite_of_disjoint hp

/-- Where the last block is said to be does not matter for headers. -/
@[simp] theorem header?_setLast (h : Heap N) (old new p : Nat) :
    (h.setLast old new).header? p = h.header? p := by
  unfold setLast
  split <;> rfl

end Heap

end Freestanding
