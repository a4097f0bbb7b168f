import Freestanding.Proofs.Heap.Frame
import Freestanding.Proofs.Joins

/-!
# Releasing to a Layout

A release on a heap that holds a layout is a release on the layout.

A release marks the block and then joins it with the block behind it and with
the one before it. In between, free segments are next to each other, so the
steps are about layouts that are carried and not about ones that are held.
Each step hands the header of the free block on to the next one. That header
is a copy and not read again, and it has to be the one that is in the region:
`Carries.mergeNext` says that it is, by naming it as the header of the focus
in the layout that the step leaves.

Joining reads the header of the second block before anything is written and
writes inside of headers that are there at that time. So nothing outside of
the headers before a release is touched by it.

## Main definitions

* `Layout.joinAfterLog`, `Layout.joinBeforeLog`: The records of joins.
* `Layout.Focus.freeLog`: The records of joining a free segment with both
  neighbours.

## Theorems

* `Heap.merge_apply`: What joining two blocks writes.
* `Heap.Carries.joinedAt`, `Heap.absorbs_joinedAt`: The layout when two segments
  are joined, and the bytes that are written.
* `Heap.Carries.mergeNext`, `Heap.Carries.mergePrevious`: The layout after
  joining with a neighbour.
* `Heap.Holds.tryRelease_of_used`: A release of a segment in use.
* `Heap.Holds.tryRelease`: A release answers and does what it does on the
  layout.
-/

namespace Freestanding

namespace Layout

/-- The record of joining what is behind a segment at `pos` to it. -/
def joinAfterLog (pos : Nat) (s : Segment) : Layout → List Record
  | [] => []
  | t :: _ => if t.used then [] else [.merged (pos + s.span) pos (join s t).size]

/-- The record of joining segments to the one before them. -/
def joinBeforeLog (before l : Layout) : List Record :=
  match before.getLast? with
  | none => []
  | some s => if s.used then [] else joinAfterLog (span before.dropLast) s l

/-- The records of joining a segment that becomes free with its neighbours. -/
def Focus.freeLog (f : Focus) : List Record :=
  joinAfterLog f.before.span ⟨false, f.here.size⟩ f.after ++
    joinBeforeLog f.before (joinAfter ⟨false, f.here.size⟩ f.after)

end Layout

namespace Heap

open Layout Change

variable {N : Nat}

/-- The header of two blocks that are joined. -/
def joinedHeader (first second : Header) : Header :=
  { first with size := first.size + (second.size + Header.byteSize), next := second.next }

/-- The heap after the block at `secondPos` is joined to the one at
    `firstPos`. -/
def joinedAt (h : Heap N) (firstPos : Nat) (first : Header) (secondPos : Nat) (second : Header) :
    Heap N :=
  (((h.relinked second.next firstPos).setHeader firstPos (joinedHeader first second)).clearTag
    secondPos).setLast secondPos firstPos

/-- A size that is a word leaves the writes of a join, in their order. -/
theorem merge_eq_of_lt {write : Nat → Header → HeapM N Unit} {firstPos secondPos : Nat}
    {first second : Header} (hword : first.size + (second.size + Header.byteSize) < Word.limit) :
    merge write firstPos first secondPos second = do
      relinkNext write second.next firstPos
      write firstPos (joinedHeader first second)
      eraseHeader secondPos
      moveLast secondPos firstPos
      emit (.merged secondPos firstPos (first.size + (second.size + Header.byteSize)))
      return joinedHeader first second := by
  have hinner : Word.add second.size Header.byteSize = .ok (second.size + Header.byteSize) :=
    Word.add_eq_ok (by omega)
  have hsize : Word.add first.size (second.size + Header.byteSize) =
      .ok (first.size + (second.size + Header.byteSize)) := Word.add_eq_ok hword
  -- The size is made out between the first write and the second.
  refine bind_congr fun _ => ?_
  rw [lift_bind hinner, lift_bind hsize]
  rfl

/-- Joining two blocks writes the link back to the first one, its header, the
    tag of the second one and the last offset. -/
theorem merge_apply {h : Heap N} {firstPos secondPos : Nat} {first second : Header}
    (hnext : ∀ q, second.next = some q → ∃ c, h.header? q = some c)
    (hword : first.size + (second.size + Header.byteSize) < Word.limit)
    (hfirst : firstPos + Header.byteSize ≤ N) (hsecond : secondPos + Header.byteSize ≤ N) :
    merge writeHeader firstPos first secondPos second h =
      ⟨.ok (joinedHeader first second), h.joinedAt firstPos first secondPos second,
        [.merged secondPos firstPos (first.size + (second.size + Header.byteSize))]⟩ := by
  have htag := Header.fieldSize_le_byteSize
  rw [merge_eq_of_lt hword, bind_of_ok (relinkNext_apply _ hnext)]
  dsimp only
  rw [bind_of_ok (writeHeader_apply _ hfirst)]
  dsimp only
  rw [bind_of_ok (eraseHeader_apply (by omega))]
  rfl

/-- The header behind a segment is that of the next one. -/
theorem Carries.header_behind {h : Heap N} {l m : Layout} {s t : Segment}
    (hc : h.Carries (l ++ s :: t :: m)) :
    h.header? (l.span + s.span) = some (Focus.header ⟨l ++ [s], t, m⟩) := by
  rw [List.append_cons] at hc
  rw [← span_concat]
  exact Carries.header (f := ⟨l ++ [s], t, m⟩) hc

/-- The header behind two segments is linked from the second one. -/
theorem next_behind (l m : Layout) (s t : Segment) :
    (Focus.header ⟨l ++ [s], t, m⟩).next = linkTo (l.span + s.span + t.span) none m := by
  rw [← span_concat]
  rfl

/-- The header behind a segment is linked back to it. -/
theorem previous_behind (l m : Layout) (s t : Segment) :
    (Focus.header ⟨l ++ [s], t, m⟩).previous = some l.span := by
  show linkBack none 0 (l ++ [s]) = some l.span
  rw [linkBack_append, Nat.zero_add]
  rfl

/-- The header of two segments that are joined is that of the joined one. -/
theorem joinedHeader_focus (l m : Layout) {s : Segment} (t : Segment) (hs : s.used = false) :
    joinedHeader (Focus.header ⟨l, s, t :: m⟩) (Focus.header ⟨l ++ [s], t, m⟩) =
      Focus.header ⟨l, join s t, m⟩ := by
  have hsize : (join s t).size = s.size + (t.size + Header.byteSize) := by
    simp only [join]
    omega
  rw [joinedHeader, next_behind]
  simp only [Focus.header, Segment.header, span_join, hsize, hs, ← Nat.add_assoc]
  rfl

/-- Joining a free segment with the one behind it puts one in their place. -/
theorem Carries.joinedAt {h : Heap N} {l m : Layout} {s t : Segment}
    (hc : h.Carries (l ++ s :: t :: m)) (hs : s.used = false) :
    (h.joinedAt l.span (Focus.header ⟨l, s, t :: m⟩) (l.span + s.span)
      (Focus.header ⟨l ++ [s], t, m⟩)).Carries (l ++ join s t :: m) := by
  have hlimit := h.lt_wordLimit
  have hsize := Header.byteSize_pos
  have htag := Header.fieldSize_le_byteSize
  have hspan := hc.span
  rw [span_append, span_cons, span_cons] at hspan
  have hsspan := byteSize_le_span s
  have htspan := byteSize_le_span t
  have hjoin : (join s t).span = Header.byteSize + (join s t).size := rfl
  rw [span_join] at hjoin
  have hback : h.Linked none (some (l.span + s.span)) (l.span + s.span + t.span) m := hc.back.2.2
  -- What is joined ends where the second segment did, and so does its link.
  have hfits : (Focus.header ⟨l, join s t, m⟩).Fits := by
    refine ⟨?_, (Header.fits_of_read? (Carries.header (f := ⟨l, s, t :: m⟩) hc)).previous,
      fun q hq => ?_⟩
    · show (join s t).size < Header.wordLimit
      omega
    · have hq' : linkTo (l.span + (join s t).span) none m = some q := hq
      rw [span_join, ← Nat.add_assoc, ← next_behind] at hq'
      exact (Header.fits_of_read? hc.header_behind).next q hq'
  have hnext : ∀ q, linkTo (l.span + s.span + t.span) none m = some q →
      q = l.span + s.span + t.span :=
    fun q hq => eq_of_linkTo hq
  unfold Heap.joinedAt
  rw [joinedHeader_focus l m t hs, next_behind]
  refine hc.replace (List.cons_ne_nil _ _) (List.cons_ne_nil _ _) ?_ ?_ ?_ ?_ ⟨?_, ?_⟩
  · rw [span_cons, span_cons, span_cons, span_join, Nat.add_assoc]
  · simp only [first_setHeader, first_clearTag, first_setLast, first_relinked]
  · -- The first segment is the last one if the second has been.
    have hlast : linkBack (some (l.span + s.span)) (l.span + s.span + t.span) m =
        some h.last := hc.last_back
    have hnew := linkBack_of_setLast l.span hlast (by omega)
    simp only [last_setHeader, last_clearTag, last_setLast, last_relinked]
    rw [linkBack, span_join, ← Nat.add_assoc]
    exact hnew
  · -- Headers in front of both are in front of all that is written.
    intro q hq
    rw [header?_setLast, header?_clearTag_of_disjoint (Or.inl (by omega)),
      header?_setHeader_of_disjoint (Or.inl hq), header?_relinked_of_disjoint]
    intro p hp
    have := hnext p hp
    omega
  · -- The tag that is taken away is inside of what is joined.
    rw [header?_setLast, header?_clearTag_of_disjoint (Or.inl (by omega)),
      header?_setHeader_self (by omega) hfits]
    rfl
  · -- What is behind has been linked back to the first segment.
    have hrelinked := hback.relinked l.span (Nat.lt_of_le_of_lt (by omega) h.small)
    rw [span_join, ← Nat.add_assoc]
    refine hrelinked.congr fun q hq _ => ?_
    rw [header?_setLast, header?_clearTag_of_disjoint (Or.inr (by omega)),
      header?_setHeader_of_disjoint (Or.inr (by omega))]

/-- Joining two segments writes no byte outside of the headers that are there
    before. -/
theorem agreeOutside_joinedAt (h : Heap N) (l m : Layout) (s t : Segment) (first : Header) :
    h.AgreeOutside (h.joinedAt l.span first (l.span + s.span) (Focus.header ⟨l ++ [s], t, m⟩))
      (offsetsFrom 0 (l ++ s :: t :: m)) := by
  have hfirst : l.span ∈ offsetsFrom 0 (l ++ s :: t :: m) := mem_offsetsFrom_of_linkTo rfl
  have hsecond : l.span + s.span ∈ offsetsFrom 0 (l ++ s :: t :: m) := by
    rw [List.append_cons, ← span_concat]
    exact mem_offsetsFrom_of_linkTo rfl
  have hnext : ∀ q, (Focus.header ⟨l ++ [s], t, m⟩).next = some q →
      q ∈ offsetsFrom 0 (l ++ s :: t :: m) := by
    intro q hq
    rw [next_behind, ← span_concat, ← span_concat] at hq
    rw [List.append_cons, List.append_cons]
    exact mem_offsetsFrom_of_linkTo hq
  exact (((agreeOutside_relinked h _ hnext).trans (agreeOutside_setHeader _ _ hfirst)).trans
    (agreeOutside_clearTag _ hsecond)).trans (agreeOutside_setLast _ _ _ _)

/-- Joining two segments takes the tag of the second one away. -/
theorem absorbs_joinedAt (h : Heap N) (l m : Layout) (s t : Segment) (first : Header)
    (hN : l.span + s.span + Header.byteSize ≤ N) :
    h.Absorbs (h.joinedAt l.span first (l.span + s.span) (Focus.header ⟨l ++ [s], t, m⟩))
      (offsetsFrom 0 (l ++ s :: t :: m)) (offsetsFrom 0 (l ++ join s t :: m)) := by
  refine ⟨offsetsFrom_join_sublist 0 l s t m, agreeOutside_joinedAt h l m s t first, ?_, ?_⟩
  · intro q hq hgone
    rw [eq_of_mem_offsetsFrom_join hq hgone, Nat.zero_add]
    -- The tag is the last thing that is written.
    have htag : Header.noTag.length ≤ Header.byteSize := Header.fieldSize_le_byteSize
    rw [Heap.joinedAt, region_setLast]
    exact Region.slice?_overwrite_self (Nat.le_trans (Nat.add_le_add_left htag _) hN)
  · intro hlength
    rw [length_offsetsFrom, length_offsetsFrom, List.length_append, List.length_append,
      List.length_cons, List.length_cons, List.length_cons] at hlength
    omega

/-- Joining a free segment with the one behind it makes one of both, and the
    answer is its header. -/
theorem Carries.merge {h : Heap N} {l m : Layout} {s t : Segment}
    (hc : h.Carries (l ++ s :: t :: m)) (hs : s.used = false) :
    ∃ u, Heap.merge writeHeader l.span (Focus.header ⟨l, s, t :: m⟩) (l.span + s.span)
        (Focus.header ⟨l ++ [s], t, m⟩) h =
          ⟨.ok (Focus.header ⟨l, join s t, m⟩), u,
            [.merged (l.span + s.span) l.span (join s t).size]⟩ ∧
      u.Carries (l ++ join s t :: m) ∧
      h.Absorbs u (offsetsFrom 0 (l ++ s :: t :: m)) (offsetsFrom 0 (l ++ join s t :: m)) := by
  have hlimit := h.lt_limit
  have hspan := hc.span
  rw [span_append, span_cons, span_cons] at hspan
  have hsspan : s.span = Header.byteSize + s.size := rfl
  have htspan : t.span = Header.byteSize + t.size := rfl
  have hsize : (join s t).size = s.size + (t.size + Header.byteSize) := by
    simp only [join]
    omega
  have hreadable : ∀ q, (Focus.header ⟨l ++ [s], t, m⟩).next = some q →
      ∃ b, h.header? q = some b := by
    rw [next_behind]
    exact hc.back.2.2.readable
  have hword : s.size + (t.size + Header.byteSize) < Word.limit := by omega
  refine ⟨_, ?_, hc.joinedAt hs, absorbs_joinedAt h l m s t _ (by omega)⟩
  rw [merge_apply hreadable hword (by omega) (by omega), joinedHeader_focus l m t hs, hsize]
  rfl

/-- A free segment joined with what is behind it is a free segment, and the
    answer is its header. -/
theorem Carries.mergeNext {h : Heap N} {l m : Layout} {s : Segment}
    (hc : h.Carries (l ++ s :: m)) (hs : s.used = false) :
    ∃ u s' m', joinAfter s m = s' :: m' ∧ s'.used = false ∧
      Heap.mergeNext writeHeader l.span (Focus.header ⟨l, s, m⟩) h =
        ⟨.ok (Focus.header ⟨l, s', m'⟩), u, joinAfterLog l.span s m⟩ ∧
      u.Carries (l ++ s' :: m') ∧
      h.Absorbs u (offsetsFrom 0 (l ++ s :: m)) (offsetsFrom 0 (l ++ s' :: m')) := by
  cases m with
  | nil => exact ⟨h, s, [], rfl, hs, rfl, hc, Absorbs.refl h _⟩
  | cons t m =>
      have hlink : (Focus.header ⟨l, s, t :: m⟩).next = some (l.span + s.span) := rfl
      have hused : (Focus.header ⟨l ++ [s], t, m⟩).used = t.used := rfl
      rw [Heap.mergeNext, hlink]
      dsimp only
      rw [bind_of_ok (readHeader_of_some hc.header_behind), hused, joinAfter, joinAfterLog]
      -- The answer, the layout and the records ask for the same thing.
      by_cases ht : t.used = true
      · rw [if_pos ht, if_pos ht, if_pos ht]
        exact ⟨h, s, t :: m, rfl, hs, rfl, hc, Absorbs.refl h _⟩
      · rcases hc.merge hs with ⟨u, hu, hcarries, habsorbs⟩
        rw [if_neg ht, if_neg ht, if_neg ht, hu]
        exact ⟨u, join s t, m, rfl, rfl, rfl, hcarries, habsorbs⟩

/-- A free segment is joined to what is before it. -/
theorem Carries.mergePrevious {h : Heap N} {l m : Layout} {s : Segment}
    (hc : h.Carries (l ++ s :: m)) (hs : s.used = false) :
    ∃ u, Heap.mergePrevious writeHeader l.span (Focus.header ⟨l, s, m⟩) h =
        ⟨.ok (), u, joinBeforeLog l (s :: m)⟩ ∧
      u.Carries (joinBefore l (s :: m)) ∧
      h.Absorbs u (offsetsFrom 0 (l ++ s :: m)) (offsetsFrom 0 (joinBefore l (s :: m))) := by
  rcases List.eq_nil_or_concat' l with rfl | ⟨before, r, rfl⟩
  · exact ⟨h, rfl, hc, Absorbs.refl h _⟩
  · rw [List.append_assoc, List.singleton_append] at hc ⊢
    have hprevious : h.header? (Layout.span before) = some (Focus.header ⟨before, r, s :: m⟩) :=
      Carries.header (f := ⟨before, r, s :: m⟩) hc
    have hused : (Focus.header ⟨before, r, s :: m⟩).used = r.used := rfl
    -- The link back of the free segment leads to the last one before it.
    rw [Heap.mergePrevious, previous_behind]
    dsimp only
    rw [bind_of_ok (readHeader_of_some hprevious), hused, joinBeforeLog, List.getLast?_concat,
      List.dropLast_concat, joinBefore_concat before r s m hs, span_concat]
    dsimp only
    by_cases hr : r.used = true
    · rw [if_pos hr, if_pos hr, if_pos hr, List.append_assoc]
      exact ⟨h, rfl, hc, Absorbs.refl h _⟩
    · have hfree : r.used = false := Bool.eq_false_iff.mpr hr
      rcases hc.merge hfree with ⟨u, hu, hcarries, habsorbs⟩
      rw [if_neg hr, if_neg hr, if_neg hr, bind_of_ok hu, joinAfterLog, hs]
      exact ⟨u, rfl, hcarries, habsorbs⟩

/-- A release of a segment in use makes it free and joins it with its
    neighbours. Nothing outside of the headers before is written, and nothing
    but its own header unless a block is absorbed. -/
theorem Holds.tryRelease_of_used {h : Heap N} {f : Focus} (hl : h.Holds f.layout)
    (hused : f.here.used = true) :
    ∃ t, Heap.tryRelease f.handle h =
        ⟨.ok (), t, f.freeLog ++ [.released f.handle f.free.blocks]⟩ ∧
      t.Holds f.free ∧ h.AgreeOutside t (offsetsFrom 0 f.layout) ∧
      (h.setHeader f.before.span { f.header with used := false }).Absorbs t
        (offsetsFrom 0 f.layout) (offsetsFrom 0 f.free) := by
  have hheader := hl.header
  have hspan := hl.span_le
  have hsize := Header.byteSize_pos
  have hhere := byteSize_le_span f.here
  have hpos : f.handle.headerIn? N = some f.before.span := by
    rw [Handle.headerIn?, Focus.handle, Nat.add_sub_cancel, if_pos ⟨Nat.le_add_left _ _, by omega⟩]
  have hlive : h.live? f.before.span = some f.header := by
    rw [hl.live?_eq, locate?_layout]
    exact if_pos hused
  -- The three steps, each with the layout it leaves.
  have hmarked := hl.toCarries.setUsed false
  rcases hmarked.mergeNext rfl with ⟨t, s, m, hjoin, hs, ht, hcarries, habsorbs⟩
  have hnext : Heap.mergeNext writeHeader f.before.span { f.header with used := false }
      (h.setHeader f.before.span { f.header with used := false }) =
        ⟨.ok (Focus.header ⟨f.before, s, m⟩), t,
          joinAfterLog f.before.span ⟨false, f.here.size⟩ f.after⟩ := ht
  rcases hcarries.mergePrevious hs with ⟨u, hu, hcarries', habsorbs'⟩
  have hfree : f.free = joinBefore f.before (s :: m) := by rw [Focus.free, hjoin]
  have hlog : f.freeLog = joinAfterLog f.before.span ⟨false, f.here.size⟩ f.after ++
      joinBeforeLog f.before (s :: m) := by rw [Focus.freeLog, hjoin]
  rw [← hfree] at hcarries' habsorbs'
  -- Marking moves no block, so all that is written is in headers that are there
  -- before.
  have hoffsets : offsetsFrom 0 (f.before ++ ⟨false, f.here.size⟩ :: f.after) =
      offsetsFrom 0 f.layout := by
    rw [Focus.layout, offsetsFrom_append, offsetsFrom_append]
    rfl
  rw [hoffsets] at habsorbs
  have hboth := habsorbs.trans habsorbs' fun a ha b hb => apart_of_mem_offsetsFrom ha hb
  refine ⟨u, ?_, ⟨hcarries', separated_free hl.separated⟩, ?_, hboth⟩
  · rw [Heap.tryRelease, Through.tryRelease_of_live hpos hlive,
      bind_of_ok (writeHeader_apply _ (Header.read?_eq_some_bounds hheader))]
    dsimp only
    rw [bind_of_ok hnext]
    dsimp only
    rw [bind_of_ok hu, state_bind, hcarries'.blocks_eq, hlog]
    simp only [emit_apply, List.nil_append, List.append_assoc]
  · have hmark : f.before.span ∈ offsetsFrom 0 f.layout := mem_offsetsFrom_of_linkTo rfl
    exact (agreeOutside_setHeader h _ hmark).trans hboth.agree

/-- A release answers what it answers on the layout and leaves a heap that
    holds what it leaves of the layout. One that is refused leaves the heap as
    it is. -/
theorem Holds.tryRelease {h : Heap N} {l : Layout} (hl : h.Holds l) (p : Handle) :
    (Heap.tryRelease p h).result = (l.release p).1.mapError .refused ∧
      (Heap.tryRelease p h).state.Holds (l.release p).2 ∧
      h.AgreeOutside (Heap.tryRelease p h).state (offsetsFrom 0 l) := by
  rw [Layout.release, hl.span]
  by_cases hrange : p.offset < Header.byteSize ∨ N ≤ p.offset - Header.byteSize
  · have hpos : p.headerIn? N = none := if_neg (by omega)
    rw [if_pos hrange, Heap.tryRelease, Through.tryRelease_of_outOfRange hpos]
    exact ⟨rfl, hl, AgreeOutside.refl h _⟩
  · have hpos : p.headerIn? N = some (p.offset - Header.byteSize) := if_pos (by omega)
    have hlive := hl.live?_eq (p.offset - Header.byteSize)
    rw [if_neg hrange]
    cases hloc : l.locate? (p.offset - Header.byteSize) with
    | none =>
        rw [hloc] at hlive
        rw [Heap.tryRelease, Through.tryRelease_of_notLive hpos hlive]
        exact ⟨rfl, hl, AgreeOutside.refl h _⟩
    | some f =>
        rw [hloc] at hlive
        by_cases hused : f.here.used = true
        · -- The handle is that of the segment that was located.
          rcases eq_of_locate? hloc with ⟨rfl, hspan⟩
          have hp : p = f.handle := by
            show p = ⟨f.before.span + Header.byteSize⟩
            rw [hspan, Nat.sub_add_cancel (by omega)]
          rcases hl.tryRelease_of_used hused with ⟨t, ht, hholds, hagree, -⟩
          rw [hp, ht]
          dsimp only
          rw [if_pos hused]
          exact ⟨rfl, hholds, hagree⟩
        · have hnone : h.live? (p.offset - Header.byteSize) = none := hlive.trans (if_neg hused)
          rw [Heap.tryRelease, Through.tryRelease_of_notLive hpos hnone]
          dsimp only
          rw [if_neg hused]
          exact ⟨rfl, hl, AgreeOutside.refl h _⟩

end Heap

end Freestanding
