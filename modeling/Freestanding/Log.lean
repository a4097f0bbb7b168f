import Freestanding.Heap.Map

/-!
# Records

What the library reports while it works.

Every operation says what it did to the blocks. A record holds the offsets and
sizes themselves and, where the text shows a map, the blocks as they were when
it was written. The text is made from that and only from that, so a fact about
records is a fact about what the log says.

## Main definitions

* `Level`: How much a record matters.
* `Record`: Something that was done.
* `Record.level`, `Record.message`: How it is reported.
* `Record.text`: The line of the log.
-/

namespace Freestanding

/-- How much a record matters. -/
inductive Level where
  /-- Something a caller did wrong. -/
  | warn
  /-- The start and the end of a program. -/
  | info
  /-- What an operation did. -/
  | debug
  /-- How it was done. -/
  | trace
  deriving DecidableEq, Repr

/-- The name of a level. -/
def Level.name : Level → String
  | warn => "WARN"
  | info => "INFO"
  | debug => "DEBUG"
  | trace => "TRACE"

/-- Something that was done. -/
inductive Record where
  /-- A heap was set up in a region of so many bytes. -/
  | heapInitialized (capacity : Nat)
  /-- A program was started. -/
  | programInitialized
  /-- Bytes were allocated. -/
  | allocated (size : Nat) (p : Handle)
  /-- No free block was large enough. -/
  | allocationFailed (size : Nat) (blocks : List BlockInfo)
  /-- An allocation was returned. -/
  | released (p : Handle) (blocks : List BlockInfo)
  /-- A handle was not that of an allocation. -/
  | releaseIgnored (reason : Heap.Error)
  /-- A block was cut in two. -/
  | split (pos size rest restPos : Nat)
  /-- A block was joined to the one before it. -/
  | merged (secondPos firstPos size : Nat)
  /-- The region was to grow and cannot. -/
  | growthRefused
  /-- A program was told that there is no memory. -/
  | mallocFailed (size : Nat) (reason : Heap.Error)
  /-- A string was copied into an allocation. -/
  | duplicated (length : Nat) (p : Handle)
  /-- A program ends. -/
  | exiting (status : Int)
  deriving DecidableEq, Repr

namespace Record

/-- The level a record is written at. -/
def level : Record → Level
  | heapInitialized _ | programInitialized | exiting _ => .info
  | allocated _ _ | allocationFailed _ _ | released _ _ | mallocFailed _ _ => .debug
  | releaseIgnored _ => .warn
  | split _ _ _ _ | merged _ _ _ | growthRefused | duplicated _ _ => .trace

/-- A record in words. -/
def message : Record → String
  | heapInitialized capacity =>
    s!"heap initialized: {capacity} bytes, {Header.byteSize} byte headers, " ++
      s!"{capacity - Header.byteSize} bytes free"
  | programInitialized => "runtime initialized"
  | allocated size p => s!"allocate({size}) -> {hex p.offset}"
  | allocationFailed size blocks => s!"allocate({size}) failed: {BlockInfo.map blocks}"
  | released p blocks => s!"release({hex p.offset}): {BlockInfo.map blocks}"
  | releaseIgnored reason => s!"release ignored: {Heap.Error.message reason}"
  | split pos size rest restPos =>
    s!"split block {hex pos}: {size} + {rest} bytes at {hex restPos}"
  | merged secondPos firstPos size =>
    s!"merged block {hex secondPos} into {hex firstPos}: {size} bytes"
  | growthRefused => "expand: heap growth is not supported"
  | mallocFailed size reason => s!"malloc({size}): {Heap.Error.message reason}"
  | duplicated length p => s!"duplicated {length} bytes at {hex p.offset}"
  | exiting status => s!"exit({status})"

/-- The line of the log. -/
def text (r : Record) : String :=
  s!"{r.level.name} {r.message}"

end Record

end Freestanding
