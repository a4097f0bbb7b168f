import Freestanding.CString.Basic
import Freestanding.Heap.Operation

/-!
# Using an Allocation

Reading and writing the bytes of a live allocation, and copying strings into
new ones.

A handle gives access to the payload of its block and to nothing else. A change
of a payload is a function on its bytes; what it makes of them is written back
where they were. A payload keeps its length, so bytes behind it are not
written, whatever the function returns.

A string is copied into an allocation of its own, one byte longer than the
string because of the zero that ends it.

## Main definitions

* `Heap.store`: The heap with other bytes in a payload.
* `Heap.onPayload`: A change of a payload.
* `Heap.writePayload`: Writing some bytes of a payload.
* `Heap.Through.duplicate`, `Heap.duplicate`: Characters in an allocation of
  their own, with any function that writes headers and with `writeHeader`.
* `Heap.Through.strdup`, `Heap.strdup`, `Heap.Through.strndup`, `Heap.strndup`:
  The same for the string in a buffer.
-/

namespace Freestanding

namespace Heap

open Change

variable {N : Nat} {α : Type}

/-- The heap with these bytes from the handle on. -/
def store (h : Heap N) (p : Handle) (s : Bytes) : Heap N :=
  { h with region := h.region.overwrite p.offset s }

/-- Runs a change on the payload of a live allocation and writes back what it
    leaves. There is no answer if the handle is not that of one. -/
def onPayload (p : Handle) (change : Bytes → Checked (α × Bytes)) : HeapM N (Option α) := do
  match (← state).payload? p with
  | none => return none
  | some s =>
    let (answer, t) ← change s
    update fun h => h.store p (t.take s.length)
    return some answer

/-- Writes bytes to a payload, from the index `pos` on and as far as it goes.
    The answer is the length of the payload. -/
def writePayload (p : Handle) (pos : Nat) (t : Bytes) : HeapM N (Option Nat) :=
  onPayload p fun s => return (s.length, s.overlay pos t)

section

variable (write : Nat → Header → HeapM N Unit)

/-- Copies characters and a final zero into an allocation of their own. -/
def Through.duplicate (s : Bytes) : HeapM N Handle := do
  let length ← Word.add s.length 1
  let p ← Through.allocate write length
  match (← state).payload? p with
  | none => refuse (.corrupted p.offset)
  | some copy =>
    let copy ← copy.replace 0 s.length s
    let copy ← copy.put s.length 0
    update fun h => h.store p copy
    emit (.duplicated length p)
    return p

/-- Copies the string in `s` into an allocation of its own. -/
def Through.strdup (s : Bytes) : HeapM N Handle := do
  Through.duplicate write (← CString.content s)

/-- Copies at most `n` characters of the string in `s` into an allocation of
    their own. -/
def Through.strndup (s : Bytes) (n : Nat) : HeapM N Handle := do
  let length ← CString.strnlen s n
  Through.duplicate write (← s.slice 0 length)

end

/-- Copies characters and a final zero into an allocation of their own. -/
def duplicate (s : Bytes) : HeapM N Handle :=
  Through.duplicate writeHeader s

/-- Copies the string in `s` into an allocation of its own. -/
def strdup (s : Bytes) : HeapM N Handle :=
  Through.strdup writeHeader s

/-- Copies at most `n` characters of the string in `s` into an allocation of
    their own. -/
def strndup (s : Bytes) (n : Nat) : HeapM N Handle :=
  Through.strndup writeHeader s n

end Heap

end Freestanding
