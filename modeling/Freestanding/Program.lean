import Freestanding.Errno
import Freestanding.Heap.Payload

/-!
# Programs

The state of a running program: its heap, and the error number of the last
failure it was told about.

The operations of a heap answer with the reason for a failure. A program that
calls `malloc` is only told that there is no memory and finds the number of
the error in a cell that the next failure overwrites. Nothing else writes that
cell, apart from the program itself: a call that succeeds leaves it as it was,
and so does an operation on the heap that does not go through here.

## Main definitions

* `Program`: A heap and an error number.
* `ProgramM`: What a program does.
* `Program.start`: The state of a program at its start.
* `Program.onHeap`: An operation on the heap of a program.
* `Program.malloc`, `Program.free`, `Program.strdup`: Allocation for programs.
* `Program.setErrno`: Writing the error number.
* `Program.exit`: The end of a program.
-/

namespace Freestanding

/-- The state of a running program with a heap of `N` bytes. -/
structure Program (N : Nat) where
  /-- The heap. -/
  heap : Heap N
  /-- The number of the last error reported, or of none. -/
  errno : Int

/-- What a program with a heap of `N` bytes does. -/
abbrev ProgramM (N : Nat) (α : Type) : Type :=
  Change Record Fault (Program N) α

namespace Program

open Change

variable {N : Nat} {α : Type}

/-- The status of a program that did what it was to do. -/
def exitSuccess : Int := 0

/-- The status of a program that did not. -/
def exitFailure : Int := 1

/-- The state of a program at its start, and the records of starting it. -/
def start (room : Header.byteSize < N) (small : N < Header.maxRegion) :
    Program N × List Record :=
  (⟨Heap.initial room small, 0⟩, [.heapInitialized N, .programInitialized])

/-- Runs an operation on the heap of a program. A refusal is an answer. -/
def onHeap (x : HeapM N α) : ProgramM N (Except Heap.Error α) :=
  fun p => match x p.heap with
    | ⟨.ok a, heap, log⟩ => ⟨.ok (.ok a), { p with heap }, log⟩
    | ⟨.error (.refused e), heap, log⟩ => ⟨.ok (.error e), { p with heap }, log⟩
    | ⟨.error (.fault f), heap, log⟩ => ⟨.error f, { p with heap }, log⟩

/-- Writes the error number. -/
def setErrno (code : Int) : ProgramM N Unit :=
  update fun p => { p with errno := code }

/-- Allocates `size` bytes, or sets the error number. -/
def malloc (size : Nat) : ProgramM N (Option Handle) := do
  match ← onHeap (Heap.allocate size) with
  | .ok p => return some p
  | .error reason =>
    emit (.mallocFailed size reason)
    setErrno Errno.enomem
    return none

/-- Releases an allocation. A handle that is not one is ignored. -/
def free (p : Handle) : ProgramM N Unit := do
  let _ ← onHeap (Heap.release p)
  return ()

/-- Copies the string in `s` into an allocation of its own, or sets the error
    number. -/
def strdup (s : Bytes) : ProgramM N (Option Handle) := do
  match ← onHeap (Heap.strdup s) with
  | .ok p => return some p
  | .error _ =>
    setErrno Errno.enomem
    return none

/-- Ends the program. The answer is the status that its host receives. -/
def exit (status : Int) : ProgramM N Int := do
  emit (.exiting status)
  return status

end Program

end Freestanding
