import Freestanding.Program
import Freestanding.Routine

/-!
# Calls of a Program

Everything a program can ask for, as values.

A program that uses a heap makes one call after the other: it allocates and
releases, on the heap itself or through the calls that set the error number,
it writes to what it has allocated and runs the string routines on it. A `Call`
is one such step with its arguments, a `Reply` is what comes back, and a run
is a list of calls. What holds after every run is what a program may rely on.

## Main definitions

* `Call`: A step of a program.
* `Call.Reply`: What a step answers.
* `Call.perform`: Carrying out a step.
* `Call.performAll`: Carrying out one step after the other.
-/

namespace Freestanding

/-- A step of a program that uses a heap. -/
inductive Call where
  /-- Allocate on the heap. -/
  | allocate (size : Nat)
  /-- Release on the heap, reporting a wrong handle. -/
  | tryRelease (p : Handle)
  /-- Release on the heap, ignoring a wrong handle. -/
  | release (p : Handle)
  /-- Copy a string on the heap. -/
  | strdup (s : Bytes)
  /-- Copy a bounded number of characters on the heap. -/
  | strndup (s : Bytes) (n : Nat)
  /-- Write to an allocation. -/
  | write (p : Handle) (pos : Nat) (t : Bytes)
  /-- Run a routine on an allocation. -/
  | routine (p : Handle) (r : Routine)
  /-- Empty the heap. -/
  | reset
  /-- Allocate, setting the error number. -/
  | malloc (size : Nat)
  /-- Release. -/
  | free (p : Handle)
  /-- Copy a string, setting the error number. -/
  | duplicate (s : Bytes)
  /-- Set the error number. -/
  | setErrno (code : Int)
  deriving DecidableEq, Repr

namespace Call

open Program

variable {N : Nat}

/-- What a step answers. -/
inductive Reply where
  /-- Nothing beyond having been carried out. -/
  | done
  /-- A handle, or why there is none. -/
  | allocated (result : Except Heap.Error Handle)
  /-- A handle, or none. -/
  | given (handle : Option Handle)
  /-- That an allocation was released, or why not. -/
  | released (result : Except Heap.Error Unit)
  /-- The length of the payload written to, if there is one. -/
  | written (length : Option Nat)
  /-- What a routine answered and left in the payload, if there is one. -/
  | answered (result : Option (Routine.Answer × Bytes))

/-- Carries out a step. -/
def perform : Call → ProgramM N Reply
  | allocate size => return .allocated (← onHeap (Heap.allocate size))
  | tryRelease p => return .released (← onHeap (Heap.tryRelease p))
  | release p => do
    let _ ← onHeap (Heap.release p)
    return .done
  | strdup s => return .allocated (← onHeap (Heap.strdup s))
  | strndup s n => return .allocated (← onHeap (Heap.strndup s n))
  | write p pos t => do
    match ← onHeap (Heap.writePayload p pos t) with
    | .ok length => return .written length
    | .error _ => return .written none
  | routine p r => do
    match ← onHeap (Heap.onPayload p fun s => do let a ← r.run s; return (a, a.2)) with
    | .ok result => return .answered result
    | .error _ => return .answered none
  | reset => do
    let _ ← onHeap Heap.reset
    return .done
  | malloc size => return .given (← Program.malloc size)
  | free p => do
    Program.free p
    return .done
  | duplicate s => return .given (← Program.strdup s)
  | setErrno code => do
    Program.setErrno code
    return .done

/-- Carries out one step after the other. -/
def performAll : List Call → ProgramM N (List Reply)
  | [] => return []
  | call :: calls => do
    let reply ← call.perform
    return reply :: (← performAll calls)

end Call

end Freestanding
