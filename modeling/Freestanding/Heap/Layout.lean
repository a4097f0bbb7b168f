import Freestanding.Heap.Basic

/-!
# Layouts

A heap without its bytes: the sizes of its segments, in order.

Everything about where blocks are follows from their order and their sizes. A
segment is what a block is apart from its place, and a layout is a list of
segments, so there are no links that could be wrong and no offsets that could
disagree. Allocating and releasing are changes of the list at one place. The
part before that place and the part behind it stay as they are, and the place
is found by what is before it: `Focus` is a layout taken apart there.

This is what the operations on the bytes of a region are for. Their answers
are the answers given here.

## Main definitions

* `Segment`: A block without its place.
* `Layout`: The segments of a region, in order.
* `Layout.blocks`: The blocks, with the places that follow.
* `Layout.Separated`: No two free segments are next to each other.
* `Layout.initial`, `Layout.allocate`, `Layout.release`: What a heap does.

## Theorems

* `Layout.span_append`: Bytes add up.
* `Layout.blocksFrom_append`: Places add up.
* `Layout.eq_of_firstFit?`, `Layout.eq_of_locate?`: A layout taken apart is
  the layout.
-/

namespace Freestanding

/-- A block without its place. -/
structure Segment where
  /-- Whether the payload is in use. -/
  used : Bool
  /-- The number of payload bytes. -/
  size : Nat
  deriving DecidableEq, Repr

/-- The number of bytes of a segment, its header included. -/
def Segment.span (s : Segment) : Nat :=
  Header.byteSize + s.size

/-- The segments of a region, in order. -/
abbrev Layout : Type := List Segment

namespace Layout

/-- A layout taken apart at a segment. -/
structure Focus where
  /-- The segments before it. -/
  before : Layout
  /-- The segment. -/
  here : Segment
  /-- The segments behind it. -/
  after : Layout
  deriving DecidableEq, Repr

/-- The layout with the segment in place. -/
def Focus.layout (f : Focus) : Layout :=
  f.before ++ f.here :: f.after

/-- The same place, with one more segment in front of everything. -/
def Focus.push (s : Segment) (f : Focus) : Focus :=
  { f with before := s :: f.before }

/-- The number of bytes of all segments. -/
def span : Layout → Nat
  | [] => 0
  | s :: l => s.span + span l

/-- The blocks of a layout whose first segment is at `pos`. -/
def blocksFrom : Nat → Layout → List BlockInfo
  | _, [] => []
  | pos, s :: l => ⟨pos, s.used, s.size⟩ :: blocksFrom (pos + s.span) l

/-- The blocks of a layout. -/
def blocks (l : Layout) : List BlockInfo :=
  blocksFrom 0 l

/-- The offset of the last block. -/
def last (l : Layout) : Nat :=
  span l.dropLast

/-- No two free segments are next to each other. -/
def Separated : Layout → Prop
  | [] => True
  | [_] => True
  | s :: t :: l => (s.used ∨ t.used) ∧ Separated (t :: l)

/-- One free segment in a region of `N` bytes. -/
def initial (N : Nat) : Layout :=
  [⟨false, N - Header.byteSize⟩]

/-- The first free segment with at least `size` bytes. -/
def firstFit? (size : Nat) : Layout → Option Focus
  | [] => none
  | s :: l =>
    if s.used = false ∧ size ≤ s.size then some ⟨[], s, l⟩
    else (firstFit? size l).map (·.push s)

/-- What a free segment is turned into when `size` bytes of it are handed out:
    two segments if more than a header and another header's worth of payload
    is left over, and one if not. -/
def cut (s : Segment) (size : Nat) : Layout :=
  if size + 2 * Header.byteSize < s.size then
    [⟨true, size⟩, ⟨false, s.size - size - Header.byteSize⟩]
  else [⟨true, s.size⟩]

/-- Hands out the first free segment with at least `size` bytes. -/
def allocate (l : Layout) (size : Nat) : Except Heap.Error Handle × Layout :=
  match l.firstFit? size with
  | some f => (.ok ⟨f.before.span + Header.byteSize⟩, f.before ++ cut f.here size ++ f.after)
  | none => (.error (.exhausted size), l)

/-- The segment that starts at an offset. -/
def locate? (offset : Nat) : Layout → Option Focus
  | [] => none
  | s :: l =>
    if offset = 0 then some ⟨[], s, l⟩
    else if offset < s.span then none
    else (locate? (offset - s.span) l).map (·.push s)

/-- Two free segments and the header between them, as one. -/
def join (s t : Segment) : Segment :=
  ⟨false, s.size + Header.byteSize + t.size⟩

/-- A free segment in front of others, joined with the next one if that is
    free. -/
def joinAfter (s : Segment) : Layout → Layout
  | [] => [s]
  | t :: l => if t.used then s :: t :: l else join s t :: l

/-- A free segment in front of others, joined to the one before it if that is
    free. -/
def joinBefore (before : Layout) (l : Layout) : Layout :=
  match before.getLast? with
  | none => l
  | some s => if s.used then before ++ l else before.dropLast ++ joinAfter s l

/-- Makes the segment in the focus free and joins it with its neighbours. -/
def Focus.free (f : Focus) : Layout :=
  joinBefore f.before (joinAfter ⟨false, f.here.size⟩ f.after)

/-- Takes back the segment that a handle belongs to. -/
def release (l : Layout) (p : Handle) : Except Heap.Error Unit × Layout :=
  if p.offset < Header.byteSize ∨ l.span ≤ p.offset - Header.byteSize then
    (.error (.outOfRange p.offset), l)
  else
    match l.locate? (p.offset - Header.byteSize) with
    | some f => if f.here.used then (.ok (), f.free) else (.error (.notAllocated p.offset), l)
    | none => (.error (.notAllocated p.offset), l)

@[simp] theorem span_nil : span [] = 0 := rfl

@[simp] theorem span_cons (s : Segment) (l : Layout) : span (s :: l) = s.span + span l := rfl

/-- The bytes of two layouts, one behind the other, add up. -/
@[simp] theorem span_append (l m : Layout) : span (l ++ m) = span l + span m := by
  induction l with
  | nil => rw [List.nil_append, span_nil, Nat.zero_add]
  | cons s l ih => rw [List.cons_append, span_cons, span_cons, ih, Nat.add_assoc]

/-- The blocks of two layouts, one behind the other, are those of the first
    and those of the second from where the first stops. -/
theorem blocksFrom_append (pos : Nat) (l m : Layout) :
    blocksFrom pos (l ++ m) = blocksFrom pos l ++ blocksFrom (pos + span l) m := by
  induction l generalizing pos with
  | nil => rfl
  | cons s l ih =>
      rw [List.cons_append, blocksFrom, blocksFrom, ih, span_cons, List.cons_append, Nat.add_assoc]

/-- A layout taken apart at its first fit is the layout. -/
theorem eq_of_firstFit? {size : Nat} {l : Layout} {f : Focus} (h : l.firstFit? size = some f) :
    f.layout = l ∧ f.here.used = false ∧ size ≤ f.here.size := by
  induction l generalizing f with
  | nil => cases h
  | cons s l ih =>
      rw [firstFit?] at h
      split at h
      · rename_i hs
        cases h
        exact ⟨rfl, hs.1, hs.2⟩
      · obtain ⟨g, hg, rfl⟩ := Option.map_eq_some_iff.mp h
        obtain ⟨hl, hu, hsize⟩ := ih hg
        exact ⟨congrArg (s :: ·) hl, hu, hsize⟩

/-- A layout taken apart at an offset is the layout, and the offset is the
    number of bytes before the place. -/
theorem eq_of_locate? {offset : Nat} {l : Layout} {f : Focus} (h : l.locate? offset = some f) :
    f.layout = l ∧ f.before.span = offset := by
  induction l generalizing offset f with
  | nil => cases h
  | cons s l ih =>
      rw [locate?] at h
      split at h
      · rename_i h0
        cases h
        exact ⟨rfl, h0.symm⟩
      · split at h
        · cases h
        · rename_i hge
          obtain ⟨g, hg, rfl⟩ := Option.map_eq_some_iff.mp h
          obtain ⟨hl, hspan⟩ := ih hg
          refine ⟨congrArg (s :: ·) hl, ?_⟩
          show span (s :: g.before) = offset
          rw [span_cons, hspan]
          omega

end Layout

end Freestanding
