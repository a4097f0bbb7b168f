import Freestanding.Program

/-!
# A Walk through the Heap

A short program that shows blocks being cut and joined.

It starts with a region that has room for one header and a hundred payload
bytes and prints the map of its blocks after every step: an allocation that
cuts the block, one that takes all of the rest, one that there is no room for,
and two releases that put everything back together. A second release of the
same handle is refused. Then it copies a string and asks for far too much the
way a program does, with an error number, and ends with success.

Nothing is read from outside, so the text is a constant of the library.

## Main definitions

* `Walkthrough.overview`: The state of a heap in two lines.
* `Walkthrough.heapLines`: What is printed about the small region.
* `Walkthrough.programLines`: What is printed about the program, and its
  status.
* `Walkthrough.transcript`: All of it.
-/

namespace Freestanding

namespace Walkthrough

open Change

variable {N : Nat}

/-- The size of a region with one header and a hundred payload bytes. -/
def regionSize : Nat := Header.byteSize + 100

/-- The numbers of a heap, and its blocks in a second line. -/
def overview (label : String) (h : Heap N) : List String :=
  [s!"[{label}] {h.blockCount} blocks, {h.freeBytes} bytes free, largest {h.largestFree}",
    s!"      {h.map}"]

/-- The characters that bytes stand for, in quotes. All of them are ASCII. -/
def quoted (s : Bytes) : String :=
  "\"" ++ String.ofList (s.map fun b => Char.ofNat b.toNat) ++ "\""

/-- Allocates and releases in a small region. -/
def heapLines : HeapM regionSize (List String) := do
  let fresh := overview "start" (← state)
  let p ← Heap.allocate 40
  let one := ["", s!"[1] allocate(40) -> {hex p.offset}"] ++ overview "1" (← state)
  let q ← Heap.allocate 20
  let two := ["", s!"[2] allocate(20) -> {hex q.offset}"] ++ overview "2" (← state)
  let three := match ← Heap.attempt (Heap.allocate 1) with
    | .ok r => ["", s!"[3] allocate(1) -> {hex r.offset}"]
    | .error reason => ["", s!"[3] allocate(1) failed: {reason.message}"]
  Heap.release p
  let half := overview "4a" (← state)
  Heap.release q
  let whole := overview "4b" (← state)
  let five := match ← Heap.attempt (Heap.tryRelease q) with
    | .ok () => []
    | .error reason => ["", s!"[5] second release rejected: {reason.message}"]
  return fresh ++ one ++ two ++ three ++ half ++ whole ++ five

/-- The string that is copied, and the zero that ends it. -/
def greeting : Bytes :=
  "hello from the arena".toUTF8.data.toList ++ [0]

/-- Copies a string, asks for more than there is, and ends. -/
def programLines : ProgramM Heap.defaultSize (List String × Int) := do
  let copied ← match ← Program.strdup greeting with
    | none => pure []
    | some p => do
      let s := ((← state).heap.payload? p).getD []
      let lines := ["", s!"[6] strdup -> {hex p.offset}: {quoted (CString.chars s)}"]
      let refused ← match ← Program.malloc (Word.limit - 1) with
        | some _ => pure []
        | none => do
          let code := (← state).errno
          pure [s!"[6] malloc(usize::MAX): errno {code} ({Errno.strerror code})"]
      Program.free p
      pure (lines ++ refused ++ overview "6" (← state).heap)
  return (copied, ← Program.exit Program.exitSuccess)

/-- The lines of the small region and of the program, and the status the
    program ends with. -/
def transcript : List String × Int :=
  let small : Heap regionSize := Heap.initial (by decide) (by decide)
  let program := Program.start (by decide) (by decide)
  match (heapLines small).result, (programLines program.1).result with
  | .ok lines, .ok (more, status) => (lines ++ more, status)
  | _, _ => ([], Program.exitFailure)

/-- The lines as they are printed. -/
def text : String :=
  String.join (transcript.1.map (· ++ "\n"))

end Walkthrough

end Freestanding
