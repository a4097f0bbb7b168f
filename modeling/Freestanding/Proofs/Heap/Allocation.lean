import Freestanding.Proofs.Heap.Frame

/-!
# Allocating from a Layout

An allocation on a heap that holds a layout is an allocation on the layout.

There is one fact for each function. `split_apply` and the two facts about
`place` say what is written, for any region in which the writes are possible.
`Carries.place` says what that does to the layout: the segment that was found
becomes `cut`, and nothing is written outside of the headers that the layout
has afterwards. An allocation is the search and, if that finds something,
`place`.

A block can be cut only if it is larger than the request, so the rest has room
for its header and no sum in `split` leaves the range of words. That is why
the facts about layouts ask for nothing besides the layout.

## Main definitions

* `Layout.cutLog`: The record of a cut, if there is one.

## Theorems

* `Heap.split_eq_of_splits`, `Heap.split_apply`: What cutting a block writes.
* `Heap.place_of_splits`, `Heap.place_of_not_splits`: What handing out a block
  writes.
* `Heap.Carries.place`: The layout when a block is handed out.
* `Heap.Holds.allocate_of_fit`, `Heap.Holds.allocate_of_noFit`: An allocation
  by what the layout has room for.
* `Heap.Holds.allocate`: An allocation answers and does what it does on the
  layout.
-/

namespace Freestanding

/-- The record of a cut, if a segment at `pos` is cut when `size` bytes of it
    are handed out. -/
def Layout.cutLog (pos : Nat) (s : Segment) (size : Nat) : List Record :=
  if size + 2 * Header.byteSize < s.size then
    [.split pos size (s.size - size - Header.byteSize) (pos + Header.byteSize + size)]
  else []

namespace Heap

open Layout Change

variable {N : Nat}

/-- The heap after the block at `pos` is cut, but for the header at `pos`. -/
def cutAt (h : Heap N) (pos : Nat) (b : Header) (size : Nat) : Heap N :=
  let restPos := pos + Header.byteSize + size
  ((h.relinked b.next restPos).setHeader restPos
    ⟨false, b.size - size - Header.byteSize, some pos, b.next⟩).setLast pos restPos

/-- A block that is larger than what is cut off leaves a rest, so all that can
    stop a cut is in the region. -/
theorem split_eq_of_splits {write : Nat → Header → HeapM N Unit} {pos size : Nat} {b : Header}
    (hsplits : Splits b size) (hword : pos + Header.byteSize + size < Word.limit) :
    split write pos b size = do
      relinkNext write b.next (pos + Header.byteSize + size)
      write (pos + Header.byteSize + size)
        ⟨false, b.size - size - Header.byteSize, some pos, b.next⟩
      moveLast pos (pos + Header.byteSize + size)
      emit (.split pos size (b.size - size - Header.byteSize) (pos + Header.byteSize + size))
      return { b with size, next := some (pos + Header.byteSize + size) } := by
  have hsize : size + 2 * Header.byteSize < b.size := hsplits
  have hpos : Word.add pos Header.byteSize = .ok (pos + Header.byteSize) :=
    Word.add_eq_ok (by omega)
  have hrest : Word.add (pos + Header.byteSize) size = .ok (pos + Header.byteSize + size) :=
    Word.add_eq_ok hword
  have hleft : Word.sub b.size size = .ok (b.size - size) := Word.sub_eq_ok (by omega)
  have hover : Word.sub (b.size - size) Header.byteSize =
      .ok (b.size - size - Header.byteSize) := Word.sub_eq_ok (by omega)
  rw [split, lift_bind hpos, lift_bind hrest, lift_bind hleft, lift_bind hover]

/-- Cutting a block writes the link back to the rest, the header of the rest
    and the last offset. -/
theorem split_apply {h : Heap N} {pos size : Nat} {b : Header}
    (hnext : ∀ q, b.next = some q → ∃ c, h.header? q = some c) (hsplits : Splits b size)
    (hN : pos + Header.byteSize + size + Header.byteSize ≤ N) :
    split writeHeader pos b size h =
      ⟨.ok { b with size, next := some (pos + Header.byteSize + size) }, h.cutAt pos b size,
        [.split pos size (b.size - size - Header.byteSize) (pos + Header.byteSize + size)]⟩ := by
  have hlimit := h.lt_limit
  rw [split_eq_of_splits hsplits (by omega), bind_of_ok (relinkNext_apply _ hnext),
    bind_of_ok (writeHeader_apply _ hN)]
  rfl

/-- A block that is large enough to be cut is cut and marked. -/
theorem place_of_splits {h : Heap N} {pos size : Nat} {b : Header}
    (hnext : ∀ q, b.next = some q → ∃ c, h.header? q = some c) (hsplits : Splits b size)
    (hN : pos + Header.byteSize + size + Header.byteSize ≤ N) :
    place writeHeader pos b size h =
      ⟨.ok ⟨pos + Header.byteSize⟩,
        (h.cutAt pos b size).setHeader pos
          { b with used := true, size, next := some (pos + Header.byteSize + size) },
        [.split pos size (b.size - size - Header.byteSize) (pos + Header.byteSize + size)]⟩ := by
  have hlimit := h.lt_limit
  have hpos : Word.add pos Header.byteSize = .ok (pos + Header.byteSize) :=
    Word.add_eq_ok (by omega)
  rw [place, if_pos hsplits, bind_of_ok (split_apply hnext hsplits hN)]
  dsimp only
  rw [bind_of_ok (writeHeader_apply _ (by omega)), lift_bind hpos]
  rfl

/-- Any other block is marked. -/
theorem place_of_not_splits {h : Heap N} {pos size : Nat} {b : Header}
    (hsplits : ¬ Splits b size) (hN : pos + Header.byteSize ≤ N) :
    place writeHeader pos b size h =
      ⟨.ok ⟨pos + Header.byteSize⟩, h.setHeader pos { b with used := true }, []⟩ := by
  have hlimit := h.lt_limit
  have hpos : Word.add pos Header.byteSize = .ok (pos + Header.byteSize) :=
    Word.add_eq_ok (by omega)
  rw [place, if_neg hsplits, pure_bind]
  dsimp only
  rw [bind_of_ok (writeHeader_apply _ hN), lift_bind hpos]
  rfl

/-- Cutting a segment and marking its front puts two segments in its place. -/
theorem Carries.cutAt {h : Heap N} {f : Focus} {size : Nat} (hc : h.Carries f.layout)
    (hsplits : Splits f.header size) :
    ((h.cutAt f.before.span f.header size).setHeader f.before.span
      { f.header with
        used := true, size, next := some (f.before.span + Header.byteSize + size) }).Carries
      (f.before ++ ⟨true, size⟩ :: ⟨false, f.here.size - size - Header.byteSize⟩ :: f.after) := by
  have hlimit := h.lt_wordLimit
  have hlink : N < Header.noLink := h.small
  have hsize : size + 2 * Header.byteSize < f.here.size := hsplits
  have hspan := hc.span_le
  have hhere : f.here.span = Header.byteSize + f.here.size := rfl
  have hfits := Header.fits_of_read? hc.header
  -- The rest starts behind the front and ends where the segment ended.
  have hfront : f.before.span + Segment.span ⟨true, size⟩ =
      f.before.span + Header.byteSize + size := by
    simp only [Segment.span]
    omega
  have hrest : f.before.span + Segment.span ⟨true, size⟩ +
      Segment.span ⟨false, f.here.size - size - Header.byteSize⟩ =
        f.before.span + f.here.span := by
    simp only [Segment.span]
    omega
  have hback := hc.back.2
  have hnext : ∀ q, f.header.next = some q → q = f.before.span + f.here.span :=
    fun q hq => eq_of_linkTo hq
  unfold Heap.cutAt
  refine hc.replace (List.cons_ne_nil _ _) (List.cons_ne_nil _ _) ?_ ?_ ?_ ?_ ⟨?_, ?_, ?_⟩
  · -- Both together are as long as the segment was.
    simp only [span_cons, Segment.span]
    omega
  · simp only [first_setHeader, first_setLast, first_relinked]
  · -- The rest is the last segment if the one that was cut has been.
    have hlast : linkBack (some f.before.span) (f.before.span + f.here.span) f.after =
        some h.last := hc.last_back
    have hnew := linkBack_of_setLast (f.before.span + Header.byteSize + size) hlast (by omega)
    simp only [last_setHeader, last_setLast, last_relinked]
    rw [← hnew, ← hrest, ← hfront]
    rfl
  · -- Headers in front of the segment are in front of all that is written.
    intro q hq
    rw [header?_setHeader_of_disjoint (Or.inl hq), header?_setLast,
      header?_setHeader_of_disjoint (Or.inl (by omega)), header?_relinked_of_disjoint]
    intro p hp
    have := hnext p hp
    omega
  · -- The front keeps its link back and leads on to the rest.
    rw [header?_setHeader_self (by omega)]
    · rw [linkTo, hfront]
      rfl
    · refine ⟨?_, hfits.previous, ?_⟩
      · show size < Header.wordLimit
        omega
      · intro p hp
        cases hp
        omega
  · -- The rest lies behind the front and is not touched when that is marked.
    rw [hrest, hfront, header?_setHeader_of_disjoint (Or.inr (by omega)), header?_setLast,
      header?_setHeader_self (by omega)]
    · rfl
    · refine ⟨?_, ?_, hfits.next⟩
      · show f.here.size - size - Header.byteSize < Header.wordLimit
        omega
      · intro p hp
        cases hp
        omega
  · -- What is behind was linked back to the rest before anything else.
    have hrelinked := hback.relinked (f.before.span + Header.byteSize + size) (by omega)
    rw [hrest, hfront]
    refine hrelinked.congr fun q hq _ => ?_
    rw [header?_setHeader_of_disjoint (Or.inr (by omega)), header?_setLast,
      header?_setHeader_of_disjoint (Or.inr (by omega))]
    rfl

/-- Cutting a segment writes no byte outside of the headers that are there
    afterwards. -/
theorem agreeOutside_cutAt (h : Heap N) {f : Focus} {size : Nat} (hsplits : Splits f.header size)
    (b : Header) :
    h.AgreeOutside ((h.cutAt f.before.span f.header size).setHeader f.before.span b)
      (offsetsFrom 0 (f.before ++ cut f.here size ++ f.after)) := by
  have hspan := span_cut f.here size
  have hcut : cut f.here size =
      [⟨true, size⟩, ⟨false, f.here.size - size - Header.byteSize⟩] := if_pos hsplits
  -- The front, the rest and what is behind them are blocks afterwards.
  have hpos : f.before.span ∈ offsetsFrom 0 (f.before ++ cut f.here size ++ f.after) := by
    rw [hcut, List.append_assoc]
    exact mem_offsetsFrom_of_linkTo rfl
  have hrest : f.before.span + Header.byteSize + size ∈
      offsetsFrom 0 (f.before ++ cut f.here size ++ f.after) := by
    rw [hcut, List.append_assoc, List.cons_append, List.append_cons]
    apply mem_offsetsFrom_of_linkTo
    rw [span_append, span_cons, span_nil, Nat.add_zero, Segment.span, ← Nat.add_assoc]
    rfl
  have hnext : ∀ q, f.header.next = some q →
      q ∈ offsetsFrom 0 (f.before ++ cut f.here size ++ f.after) := by
    intro q hq
    apply mem_offsetsFrom_of_linkTo
    rw [span_append, hspan]
    exact hq
  exact (((agreeOutside_relinked h _ hnext).trans (agreeOutside_setHeader _ _ hrest)).trans
    (agreeOutside_setLast _ _ _ _)).trans (agreeOutside_setHeader _ b hpos)

/-- Handing out bytes of a segment cuts it or marks it, and writes nothing
    outside of the headers that are there afterwards. -/
theorem Carries.place {h : Heap N} {f : Focus} (hc : h.Carries f.layout) (size : Nat) :
    ∃ t, Heap.place writeHeader f.before.span f.header size h =
        ⟨.ok ⟨f.before.span + Header.byteSize⟩, t, cutLog f.before.span f.here size⟩ ∧
      t.Carries (f.before ++ cut f.here size ++ f.after) ∧
      h.AgreeOutside t (offsetsFrom 0 (f.before ++ cut f.here size ++ f.after)) := by
  have hspan := hc.span_le
  have hhere : f.here.span = Header.byteSize + f.here.size := rfl
  by_cases hsplits : Splits f.header size
  · have hsize : size + 2 * Header.byteSize < f.here.size := hsplits
    have hnext : ∀ q, f.header.next = some q → ∃ c, h.header? q = some c :=
      hc.back.2.readable
    have hcut : cut f.here size =
        [⟨true, size⟩, ⟨false, f.here.size - size - Header.byteSize⟩] := if_pos hsize
    have hN : f.before.span + Header.byteSize + size + Header.byteSize ≤ N := by omega
    have hplace := place_of_splits hnext hsplits hN
    have hlog : cutLog f.before.span f.here size =
        [.split f.before.span size (f.header.size - size - Header.byteSize)
          (f.before.span + Header.byteSize + size)] := if_pos hsize
    rw [← hlog] at hplace
    refine ⟨_, hplace, ?_, agreeOutside_cutAt h hsplits _⟩
    rw [hcut, List.append_assoc]
    exact hc.cutAt hsplits
  · -- The segment stays as long as it is, and one header is written.
    have hsize : ¬ size + 2 * Header.byteSize < f.here.size := hsplits
    refine ⟨h.setHeader f.before.span { f.header with used := true }, ?_, ?_, ?_⟩
    · rw [place_of_not_splits hsplits (by omega), cutLog, if_neg hsize]
    · rw [cut, if_neg hsize, List.append_assoc]
      exact hc.setUsed true
    · rw [cut, if_neg hsize, List.append_assoc]
      exact agreeOutside_setHeader h _ (mem_offsetsFrom_of_linkTo rfl)

/-- An allocation that the layout has room for hands out its first fit. -/
theorem Holds.allocate_of_fit {h : Heap N} {l : Layout} {size : Nat} {f : Focus} (hl : h.Holds l)
    (hf : l.firstFit? size = some f) :
    ∃ t, Heap.allocate size h =
        ⟨.ok ⟨f.before.span + Header.byteSize⟩, t,
          cutLog f.before.span f.here size ++ [.allocated size ⟨f.before.span + Header.byteSize⟩]⟩ ∧
      t.Holds (f.before ++ cut f.here size ++ f.after) ∧
      h.AgreeOutside t (offsetsFrom 0 (f.before ++ cut f.here size ++ f.after)) := by
  rcases eq_of_firstFit? hf with ⟨rfl, hfree, -⟩
  have hsearch := hl.firstFit_eq size
  rw [hf] at hsearch
  rcases hl.toCarries.place size with ⟨t, hplace, ht, hagree⟩
  refine ⟨t, ?_, ⟨ht, separated_cut size hfree hl.separated⟩, hagree⟩
  rw [Heap.allocate, Through.allocate_of_some hsearch, bind_of_ok hplace]
  rfl

/-- An allocation that the layout has no room for changes nothing. -/
theorem Holds.allocate_of_noFit {h : Heap N} {l : Layout} {size : Nat} (hl : h.Holds l)
    (hf : l.firstFit? size = none) :
    Heap.allocate size h =
      ⟨.error (.refused (.exhausted size)), h,
        [.growthRefused, .allocationFailed size l.blocks]⟩ := by
  have hsearch := hl.firstFit_eq size
  rw [hf] at hsearch
  rw [Heap.allocate, Through.allocate_of_none hsearch, hl.blocks_eq]

/-- An allocation answers what it answers on the layout and leaves a heap that
    holds what it leaves of the layout. -/
theorem Holds.allocate {h : Heap N} {l : Layout} (hl : h.Holds l) (size : Nat) :
    (Heap.allocate size h).result = (l.allocate size).1.mapError .refused ∧
      (Heap.allocate size h).state.Holds (l.allocate size).2 ∧
      h.AgreeOutside (Heap.allocate size h).state (offsetsFrom 0 (l.allocate size).2) := by
  rw [Layout.allocate]
  cases hf : l.firstFit? size with
  | none =>
      rw [hl.allocate_of_noFit hf]
      exact ⟨rfl, hl, AgreeOutside.refl h _⟩
  | some f =>
      rcases hl.allocate_of_fit hf with ⟨t, ht, hholds, hagree⟩
      rw [ht]
      exact ⟨rfl, hholds, hagree⟩

end Heap

end Freestanding
