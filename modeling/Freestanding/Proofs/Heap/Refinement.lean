import Mathlib.Data.List.Forall2
import Freestanding.Proofs.Heap.Effect

/-!
# Heaps Refine Layouts

A heap answers what a list of segments answers.

A layout has no bytes. It says which segments are in use and how large they
are, and allocating and releasing are defined on that. A heap has bytes only,
some of them headers and some of them written by its users. This module runs
both on the same requests, one after the other and whatever they are, and the
answers are the same at each step, as are the blocks and the last offset.

A step that refuses leaves a state as well, and the run goes on from there, so
a run cannot be cut short. The invariant is `Holds`, and it holds for every
step because the three operations have been shown to preserve it, each on its
own, for any bytes outside of the headers.

## Main definitions

* `Request`: An operation on a heap that a layout can answer.
* `Request.Answer`: What an operation answers.
* `Request.onHeap`, `Request.onLayout`: Carrying out a request.
* `Request.runHeap`, `Request.runLayout`: Carrying out one request after the
  other.
* `Request.Agrees`: That two runs are at the same point.

## Theorems

* `Request.onHeap_holds`: The step.
* `Request.agrees_of_holds`: The run.
* `Request.heap_refines_layout`: Runs from the beginning.
-/

namespace Freestanding

/-- An operation that the layout of a heap decides. -/
inductive Request where
  /-- Hand out a block. -/
  | allocate (size : Nat)
  /-- Take a block back. -/
  | tryRelease (p : Handle)
  /-- Write bytes to a payload, from the index `pos` on. -/
  | write (p : Handle) (pos : Nat) (t : Bytes)
  deriving DecidableEq, Repr

namespace Request

open Layout Change

variable {N : Nat}

/-- What an operation answers. -/
inductive Answer where
  /-- The handle to a block. -/
  | allocated (p : Handle)
  /-- That a block was taken back. -/
  | released
  /-- The length of the payload written to, if there is one. -/
  | written (length : Option Nat)
  deriving DecidableEq, Repr

/-- Carries out a request on the bytes of a heap. -/
def onHeap : Request → HeapM N Answer
  | allocate size => return .allocated (← Heap.allocate size)
  | tryRelease p => do
    Heap.tryRelease p
    return .released
  | write p pos t => return .written (← Heap.writePayload p pos t)

/-- The number of payload bytes of a segment in use. -/
def payloadSize? (l : Layout) (p : Handle) : Option Nat :=
  if p.offset < Header.byteSize then none
  else (l.locate? (p.offset - Header.byteSize)).bind fun f =>
    if f.here.used then some f.here.size else none

/-- Carries out a request on a list of segments. -/
def onLayout (l : Layout) : Request → Except Heap.Error Answer × Layout
  | allocate size => ((l.allocate size).1.map .allocated, (l.allocate size).2)
  | tryRelease p => ((l.release p).1.map fun _ => .released, (l.release p).2)
  | write p _ _ => (.ok (.written (payloadSize? l p)), l)

/-- The answers and the heaps along a run. -/
def runHeap (h : Heap N) : List Request → List (Except Heap.Stop Answer × Heap N)
  | [] => []
  | r :: rs => ((r.onHeap h).result, (r.onHeap h).state) :: runHeap (r.onHeap h).state rs

/-- The answers and the layouts along a run. -/
def runLayout (l : Layout) : List Request → List (Except Heap.Error Answer × Layout)
  | [] => []
  | r :: rs => r.onLayout l :: runLayout (r.onLayout l).2 rs

/-- A heap and a layout at the same point of a run. -/
structure Agrees (c : Except Heap.Stop Answer × Heap N)
    (a : Except Heap.Error Answer × Layout) : Prop where
  /-- They have given the same answer. -/
  answer : c.1 = a.1.mapError .refused
  /-- The blocks are the segments with their offsets. -/
  blocks : c.2.blocks = a.2.blocks
  /-- The last block is the last segment. -/
  last : c.2.last = a.2.last
  /-- The segments take up the region. -/
  span : a.2.span = N

/-- An answer that is renamed is refused where the answer was. -/
theorem mapError_map {α β : Type} (f : α → β) (x : Except Heap.Error α) :
    (x.map f).mapError Heap.Stop.refused = (x.mapError Heap.Stop.refused).map f := by
  cases x <;> rfl

theorem result_bind_pure {α β : Type} (x : HeapM N α) (f : α → β) (h : Heap N) :
    ((x >>= fun a => pure (f a) : HeapM N β) h).result = (x h).result.map f ∧
      ((x >>= fun a => pure (f a) : HeapM N β) h).state = (x h).state := by
  rcases hx : x h with ⟨e | a, t, log⟩
  · rw [bind_of_error hx]
    exact ⟨rfl, rfl⟩
  · rw [bind_of_ok hx]
    exact ⟨rfl, rfl⟩

/-- The length of a payload is the size of its segment. -/
theorem length_payload? {h : Heap N} {l : Layout} (hl : h.Holds l) (p : Handle) :
    (h.payload? p).map List.length = payloadSize? l p := by
  cases hp : h.payload? p with
  | some s =>
      rcases hl.exists_focus_of_payload? hp with ⟨f, rfl, hused, rfl, hlength⟩
      have hstart : f.handle.offset = f.before.span + Header.byteSize := rfl
      rw [payloadSize?, hstart, if_neg (by omega), Nat.add_sub_cancel, locate?_layout,
        Option.bind_some, if_pos hused, ← hlength]
      rfl
  | none =>
      rw [payloadSize?]
      split
      · rfl
      · rename_i hrange
        cases hloc : l.locate? (p.offset - Header.byteSize) with
        | none => rfl
        | some f =>
            -- A segment in use would be the payload that is missing.
            rw [Option.bind_some, if_neg]
            · rfl
            · intro hused
              rcases hl.exists_payload?_of_locate? (by omega) hloc hused with ⟨s, hs, -⟩
              rw [hp] at hs
              cases hs

/-- A write answers the size of the segment and leaves all segments. -/
theorem writePayload_holds {h : Heap N} {l : Layout} (hl : h.Holds l) (p : Handle) (pos : Nat)
    (t : Bytes) :
    (Heap.writePayload p pos t h).result = .ok (payloadSize? l p) ∧
      (Heap.writePayload p pos t h).state.Holds l := by
  rw [← length_payload? hl p, Heap.writePayload]
  cases hp : h.payload? p with
  | none =>
      rw [Heap.onPayload_of_none _ hp]
      exact ⟨rfl, hl⟩
  | some s =>
      rw [Heap.onPayload_of_ok hp rfl]
      exact ⟨rfl, hl.store hp (List.length_take_le _ _)⟩

/-- A request answers on a heap what it answers on the layout, and the heap
    that it leaves holds the layout that it leaves. -/
theorem onHeap_holds {h : Heap N} {l : Layout} (hl : h.Holds l) (r : Request) :
    (r.onHeap h).result = (r.onLayout l).1.mapError .refused ∧
      (r.onHeap h).state.Holds (r.onLayout l).2 := by
  cases r with
  | allocate size =>
      rcases hl.allocate size with ⟨hresult, hstate, -⟩
      rcases result_bind_pure (Heap.allocate size) Answer.allocated h with ⟨hmap, hsame⟩
      rw [onHeap, onLayout, hmap, hsame, hresult, mapError_map]
      exact ⟨rfl, hstate⟩
  | tryRelease p =>
      rcases hl.tryRelease p with ⟨hresult, hstate, -⟩
      rcases result_bind_pure (Heap.tryRelease p) (fun _ => Answer.released) h with ⟨hmap, hsame⟩
      rw [onHeap, onLayout, hmap, hsame, hresult, mapError_map]
      exact ⟨rfl, hstate⟩
  | write p pos t =>
      rcases writePayload_holds hl p pos t with ⟨hresult, hstate⟩
      rcases result_bind_pure (Heap.writePayload p pos t) Answer.written h with ⟨hmap, hsame⟩
      rw [onHeap, onLayout, hmap, hsame, hresult]
      exact ⟨rfl, hstate⟩

/-- A run on a heap that holds a layout stays in step with the run on the
    layout. -/
theorem agrees_of_holds {h : Heap N} {l : Layout} (hl : h.Holds l) (rs : List Request) :
    List.Forall₂ Agrees (runHeap h rs) (runLayout l rs) := by
  -- The induction is on the requests, and the heap that a step leaves holds
  -- the layout from which the other run goes on.
  induction rs generalizing h l with
  | nil => exact .nil
  | cons r rs ih =>
      rcases onHeap_holds hl r with ⟨hanswer, hstate⟩
      exact .cons ⟨hanswer, hstate.blocks_eq, hstate.last_eq, hstate.span⟩ (ih hstate)

/-- A new heap is one free segment, and from there on a heap answers every
    request as its segments do and keeps their blocks, whatever is written to
    the payloads. -/
theorem heap_refines_layout (room : Header.byteSize < N) (small : N < Header.maxRegion)
    (rs : List Request) :
    (Heap.initial room small).blocks = (Layout.initial N).blocks ∧
      (Heap.initial room small).last = (Layout.initial N).last ∧
      List.Forall₂ Agrees (runHeap (Heap.initial room small) rs)
        (runLayout (Layout.initial N) rs) := by
  have hl := Heap.holds_initial room small
  exact ⟨hl.blocks_eq, hl.last_eq, agrees_of_holds hl rs⟩

/-- A block is handed out, written to, taken back and refused. -/
theorem agrees_until_second_release :
    List.Forall₂ Agrees
      (runHeap (Heap.initial (N := 256) (by decide) (by decide))
        [.allocate 100, .write ⟨16⟩ 0 [1, 2, 3], .tryRelease ⟨16⟩, .tryRelease ⟨16⟩])
      [(.ok (.allocated ⟨16⟩), [⟨true, 100⟩, ⟨false, 124⟩]),
        (.ok (.written (some 100)), [⟨true, 100⟩, ⟨false, 124⟩]),
        (.ok .released, [⟨false, 240⟩]),
        (.error (.notAllocated 16), [⟨false, 240⟩])] :=
  (heap_refines_layout (by decide) (by decide) _).2.2

end Request

end Freestanding
