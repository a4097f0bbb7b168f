import Mathlib.Data.List.Chain
import Freestanding.Heap.Layout

/-!
# Layouts Taken Apart

What happens to a layout when segments in its middle are replaced.

Every change of a heap replaces one or two segments and leaves those before
and those behind them alone. So the facts here are about `l ++ m`: where the
last segment of it starts, where its links lead, which blocks it has and
whether free segments stay apart. `linkTo` and `linkBack` are the two links
that cross such a seam. They take the link that is there if a part is empty
as an argument, which is what makes them add up.

The blocks in use deserve a list of their own. Cutting a free segment and
joining two of them changes the blocks of a layout, but not those in use, so
an allocation adds one block to `usedFrom`, a release takes one away, and
neither moves any of the others.

## Main definitions

* `Layout.linkTo`: The link to what starts at an offset.
* `Layout.linkBack`: The link back from behind a layout.
* `Segment.header`: The header of a segment between two links.
* `Layout.Focus.header`, `Layout.Focus.handle`: The header of the segment in a
  focus, and the handle to its payload.
* `Layout.offsetsFrom`: The offsets of the blocks.
* `Layout.usedFrom`, `Layout.Focus.others`: The blocks in use, and those of them
  that are not in the focus.
* `Layout.handedOut`: The size of a block that is handed out.

## Theorems

* `Layout.linkTo_append`, `Layout.linkBack_append`: Links across a seam.
* `Layout.blocks_append`: Blocks across a seam.
* `Layout.linkBack_of_setLast`: The last offset after the block before
  changes.
* `Layout.separated_append`: Separation across a seam.
* `Layout.span_cut`, `Layout.separated_cut`: An allocation keeps the number of
  bytes and the separation.
* `Layout.separated_free`: A release keeps the separation.
* `Layout.le_handedOut`, `Layout.handedOut_le`: What an allocation gives.
* `Layout.apart_of_mem_blocksFrom`: Blocks do not overlap.
* `Layout.getElem?_blocksFrom`, `Layout.exists_focus_of_getElem?`: Blocks by
  their index.
* `Layout.locate?_layout`: A focus is found at its offset.
* `Layout.find?_blocksFrom`: Looking for a block finds what `locate?` does.
* `Layout.mem_usedFrom_cut`, `Layout.usedFrom_free`: What is in use afterwards.
* `Layout.payload_ne_of_mem_others`: Handles of blocks in use are different.
-/

namespace Freestanding

/-- The header of a segment between the links before and behind it. -/
def Segment.header (s : Segment) (previous next : Option Nat) : Header :=
  ⟨s.used, s.size, previous, next⟩

namespace Layout

/-- The link to a layout at `pos`, or `next` if it has no segments. -/
def linkTo (pos : Nat) (next : Option Nat) : Layout → Option Nat
  | [] => next
  | _ :: _ => some pos

/-- The link back from behind a layout at `pos`: the offset of its last
    segment, or `previous` if it has none. -/
def linkBack (previous : Option Nat) (pos : Nat) : Layout → Option Nat
  | [] => previous
  | s :: l => linkBack (some pos) (pos + s.span) l

/-- The header of the segment in the focus. -/
def Focus.header (f : Focus) : Header :=
  f.here.header (linkBack none 0 f.before) (linkTo (f.before.span + f.here.span) none f.after)

/-- The handle to the payload of the segment in the focus. -/
def Focus.handle (f : Focus) : Handle :=
  ⟨f.before.span + Header.byteSize⟩

/-- The offsets of the blocks of a layout at `pos`. -/
def offsetsFrom (pos : Nat) (l : Layout) : List Nat :=
  (blocksFrom pos l).map (·.offset)

/-- The blocks in use of a layout at `pos`. -/
def usedFrom (pos : Nat) (l : Layout) : List BlockInfo :=
  (blocksFrom pos l).filter (·.used)

/-- The blocks in use of a layout, without the segment in the focus. -/
def Focus.others (f : Focus) : List BlockInfo :=
  usedFrom 0 f.before ++ usedFrom (f.before.span + f.here.span) f.after

theorem byteSize_le_span (s : Segment) : Header.byteSize ≤ s.span :=
  Nat.le_add_right _ _

theorem span_concat (l : Layout) (s : Segment) : span (l ++ [s]) = l.span + s.span := by
  rw [span_append, span_cons, span_nil, Nat.add_zero]

theorem length_mul_le_span (l : Layout) : Header.byteSize * l.length ≤ l.span := by
  induction l with
  | nil => exact Nat.zero_le _
  | cons s l ih =>
      have hs := byteSize_le_span s
      rw [List.length_cons, span_cons, Nat.mul_succ]
      omega

theorem linkTo_append (pos : Nat) (next : Option Nat) (l m : Layout) :
    linkTo pos next (l ++ m) = linkTo pos (linkTo (pos + l.span) next m) l := by
  cases l <;> rfl

theorem linkBack_append (previous : Option Nat) (pos : Nat) (l m : Layout) :
    linkBack previous pos (l ++ m) = linkBack (linkBack previous pos l) (pos + l.span) m := by
  induction l generalizing previous pos with
  | nil => rfl
  | cons s l ih =>
      -- The link back from behind the first segment is its own offset.
      rw [List.cons_append, linkBack, ih, linkBack, span_cons, Nat.add_assoc]

theorem le_of_linkBack {p pos last : Nat} {l : Layout}
    (h : linkBack (some p) pos l = some last) (hp : p ≤ pos) : p ≤ last := by
  induction l generalizing p pos with
  | nil =>
      cases h
      exact Nat.le_refl _
  | cons s l ih =>
      have := ih h (Nat.le_add_right _ _)
      omega

/-- The last offset when the block before a layout changes from `old` to
    `new`. It is what `Heap.setLast` makes of it. -/
theorem linkBack_of_setLast {old pos last : Nat} {l : Layout} (new : Nat)
    (h : linkBack (some old) pos l = some last) (hold : old < pos) :
    linkBack (some new) pos l = some (if last = old then new else last) := by
  cases l with
  | nil =>
      cases h
      rw [if_pos rfl]
      rfl
  | cons s l =>
      -- The layout has a last segment of its own, which is behind `old`.
      have hback : linkBack (some pos) (pos + s.span) l = some last := h
      have hle := le_of_linkBack hback (Nat.le_add_right _ _)
      rw [if_neg (by omega)]
      exact h

theorem linkBack_eq_last {l : Layout} (h : l ≠ []) : linkBack none 0 l = some l.last := by
  rcases List.eq_nil_or_concat' l with rfl | ⟨front, s, rfl⟩
  · exact absurd rfl h
  · rw [linkBack_append, Nat.zero_add, last, List.dropLast_concat]
    rfl

theorem separated_iff_isChain (l : Layout) :
    l.Separated ↔ l.IsChain fun s t => s.used ∨ t.used := by
  induction l with
  | nil => exact ⟨fun _ => .nil, fun _ => trivial⟩
  | cons s l ih =>
      cases l with
      | nil => exact ⟨fun _ => .singleton s, fun _ => trivial⟩
      | cons t l => rw [Separated, List.isChain_cons_cons, ih]

/-- Two layouts behind each other are separated if both are and the segments
    at the seam are. -/
theorem separated_append (l m : Layout) :
    (l ++ m).Separated ↔ l.Separated ∧ m.Separated ∧
      ∀ s ∈ l.getLast?, ∀ t ∈ m.head?, s.used ∨ t.used := by
  rw [separated_iff_isChain, separated_iff_isChain, separated_iff_isChain, List.isChain_append]

theorem separated_cons (s : Segment) (l : Layout) :
    Separated (s :: l) ↔ l.Separated ∧ ∀ t ∈ l.head?, s.used ∨ t.used := by
  rw [separated_iff_isChain, separated_iff_isChain, List.isChain_cons]
  exact And.comm

theorem blocksFrom_bounds {pos : Nat} {l : Layout} {b : BlockInfo} (h : b ∈ blocksFrom pos l) :
    pos ≤ b.offset ∧ b.offset + Header.byteSize + b.size ≤ pos + l.span := by
  induction l generalizing pos with
  | nil => cases h
  | cons s l ih =>
      rw [span_cons]
      rcases List.mem_cons.mp h with rfl | h
      · simp only [Segment.span]
        omega
      · have := ih h
        omega

/-- Of two blocks of a layout, one ends before the other starts. -/
theorem apart_of_mem_blocksFrom {pos : Nat} {l : Layout} {b c : BlockInfo}
    (hb : b ∈ blocksFrom pos l) (hc : c ∈ blocksFrom pos l) :
    b = c ∨ b.offset + Header.byteSize + b.size ≤ c.offset ∨
      c.offset + Header.byteSize + c.size ≤ b.offset := by
  induction l generalizing pos with
  | nil => cases hb
  | cons s l ih =>
      have hs : s.span = Header.byteSize + s.size := rfl
      rcases List.mem_cons.mp hb with rfl | hb
      · rcases List.mem_cons.mp hc with rfl | hc
        · exact Or.inl rfl
        · have := blocksFrom_bounds hc
          dsimp only
          exact Or.inr (Or.inl (by omega))
      · rcases List.mem_cons.mp hc with rfl | hc
        · have := blocksFrom_bounds hb
          dsimp only
          exact Or.inr (Or.inr (by omega))
        · exact ih hb hc

@[simp] theorem length_blocksFrom (pos : Nat) (l : Layout) :
    (blocksFrom pos l).length = l.length := by
  induction l generalizing pos with
  | nil => rfl
  | cons s l ih => rw [blocksFrom, List.length_cons, List.length_cons, ih]

/-- The block of the segment in a focus, by the number of segments before
    it. -/
theorem getElem?_blocksFrom (pos : Nat) (f : Focus) :
    (blocksFrom pos f.layout)[f.before.length]? =
      some ⟨pos + f.before.span, f.here.used, f.here.size⟩ := by
  rw [Focus.layout, blocksFrom_append, List.getElem?_append_right (by rw [length_blocksFrom]),
    length_blocksFrom, Nat.sub_self]
  rfl

/-- Every block of a layout is that of a segment. -/
theorem exists_focus_of_getElem? {pos i : Nat} {l : Layout} {b : BlockInfo}
    (h : (blocksFrom pos l)[i]? = some b) :
    ∃ f : Focus, f.layout = l ∧ f.before.length = i ∧
      b = ⟨pos + f.before.span, f.here.used, f.here.size⟩ := by
  induction l generalizing pos i with
  | nil => cases h
  | cons s l ih =>
      cases i with
      | zero =>
          cases h
          exact ⟨⟨[], s, l⟩, rfl, rfl, rfl⟩
      | succ i =>
          rcases ih h with ⟨f, rfl, rfl, rfl⟩
          refine ⟨f.push s, rfl, rfl, ?_⟩
          simp only [Focus.push, span_cons, Nat.add_assoc]

theorem offsetsFrom_append (pos : Nat) (l m : Layout) :
    offsetsFrom pos (l ++ m) = offsetsFrom pos l ++ offsetsFrom (pos + l.span) m := by
  rw [offsetsFrom, blocksFrom_append, List.map_append]
  rfl

@[simp] theorem length_offsetsFrom (pos : Nat) (l : Layout) :
    (offsetsFrom pos l).length = l.length := by
  rw [offsetsFrom, List.length_map, length_blocksFrom]

/-- Two headers of a layout are the same one or do not overlap. -/
theorem apart_of_mem_offsetsFrom {pos a b : Nat} {l : Layout} (ha : a ∈ offsetsFrom pos l)
    (hb : b ∈ offsetsFrom pos l) :
    a = b ∨ a + Header.byteSize ≤ b ∨ b + Header.byteSize ≤ a := by
  rcases List.mem_map.mp ha with ⟨c, hc, rfl⟩
  rcases List.mem_map.mp hb with ⟨d, hd, rfl⟩
  rcases apart_of_mem_blocksFrom hc hd with rfl | hbefore | hbehind
  · exact Or.inl rfl
  · exact Or.inr (Or.inl (by omega))
  · exact Or.inr (Or.inr (by omega))

/-- A link across a seam leads to the offset of a block. -/
theorem mem_offsetsFrom_of_linkTo {q : Nat} {l m : Layout}
    (h : linkTo l.span none m = some q) : q ∈ offsetsFrom 0 (l ++ m) := by
  rw [offsetsFrom_append, Nat.zero_add]
  cases m with
  | nil => cases h
  | cons s m =>
      cases h
      exact List.mem_append_right _ List.mem_cons_self

theorem usedFrom_append (pos : Nat) (l m : Layout) :
    usedFrom pos (l ++ m) = usedFrom pos l ++ usedFrom (pos + l.span) m := by
  rw [usedFrom, blocksFrom_append, List.filter_append]
  rfl

theorem usedFrom_cons_of_used (pos : Nat) {s : Segment} (l : Layout) (h : s.used = true) :
    usedFrom pos (s :: l) = ⟨pos, true, s.size⟩ :: usedFrom (pos + s.span) l := by
  rw [usedFrom, blocksFrom, h]
  rfl

theorem usedFrom_cons_of_free (pos : Nat) {s : Segment} (l : Layout) (h : s.used = false) :
    usedFrom pos (s :: l) = usedFrom (pos + s.span) l := by
  rw [usedFrom, blocksFrom, h]
  rfl

/-- The number of payload bytes that are handed out of a segment. -/
def handedOut (s : Segment) (size : Nat) : Nat :=
  if size + 2 * Header.byteSize < s.size then size else s.size

theorem le_handedOut {s : Segment} {size : Nat} (h : size ≤ s.size) : size ≤ handedOut s size := by
  unfold handedOut
  split <;> omega

/-- What is handed out is no more than what is too little to be cut. -/
theorem handedOut_le (s : Segment) (size : Nat) :
    handedOut s size ≤ size + 2 * Header.byteSize := by
  unfold handedOut
  split <;> omega

theorem span_cut (s : Segment) (size : Nat) : span (cut s size) = s.span := by
  unfold cut
  split
  · simp only [span_cons, span_nil, Segment.span]
    omega
  · simp only [span_cons, span_nil, Segment.span]
    omega

theorem separated_cut {l m : Layout} {s : Segment} (size : Nat) (hs : s.used = false)
    (h : (l ++ s :: m).Separated) : (l ++ cut s size ++ m).Separated := by
  rw [separated_append, separated_cons] at h
  rcases h with ⟨hl, ⟨hm, hhead⟩, -⟩
  -- Behind a free segment comes one in use, so a rest can stay free there.
  have hused : ∀ t ∈ m.head?, t.used = true := by
    intro t ht
    rcases hhead t ht with hf | hu
    · rw [hs] at hf
      cases hf
    · exact hu
  rw [List.append_assoc, separated_append]
  unfold cut
  split
  · refine ⟨hl, ?_, fun _ _ t ht => ?_⟩
    · rw [List.cons_append, List.cons_append, List.nil_append, separated_cons, separated_cons]
      exact ⟨⟨hm, fun t ht => Or.inr (hused t ht)⟩, fun _ _ => Or.inl rfl⟩
    · cases ht
      exact Or.inr rfl
  · refine ⟨hl, ?_, fun _ _ t ht => ?_⟩
    · rw [List.cons_append, List.nil_append, separated_cons]
      exact ⟨hm, fun _ _ => Or.inl rfl⟩
    · cases ht
      exact Or.inr rfl

/-- The blocks of a layout, split at a seam. -/
theorem blocks_append (l m : Layout) : (l ++ m).blocks = l.blocks ++ blocksFrom l.span m := by
  rw [blocks, blocksFrom_append, Nat.zero_add]
  rfl

/-- Handing out bytes of a segment leaves one block in use in its place. -/
theorem mem_usedFrom_cut (f : Focus) (size : Nat) (b : BlockInfo) :
    b ∈ usedFrom 0 (f.before ++ cut f.here size ++ f.after) ↔
      b = ⟨f.before.span, true, handedOut f.here size⟩ ∨ b ∈ f.others := by
  have hcut : usedFrom f.before.span (cut f.here size) =
      [⟨f.before.span, true, handedOut f.here size⟩] := by
    unfold cut handedOut
    split <;> rfl
  rw [List.append_assoc, usedFrom_append, usedFrom_append, span_cut, Nat.zero_add, hcut,
    Focus.others]
  simp only [List.mem_append, List.mem_singleton]
  exact or_left_comm

theorem usedFrom_layout_of_free {f : Focus} (h : f.here.used = false) :
    usedFrom 0 f.layout = f.others := by
  rw [Focus.layout, usedFrom_append, Nat.zero_add, usedFrom_cons_of_free _ _ h, Focus.others]

theorem mem_usedFrom_layout_of_used {f : Focus} (h : f.here.used = true) (b : BlockInfo) :
    b ∈ usedFrom 0 f.layout ↔ b = ⟨f.before.span, true, f.here.size⟩ ∨ b ∈ f.others := by
  rw [Focus.layout, usedFrom_append, Nat.zero_add, usedFrom_cons_of_used _ _ h, Focus.others]
  simp only [List.mem_append, List.mem_cons]
  exact or_left_comm

/-- No other block has the handle of the segment in the focus. -/
theorem payload_ne_of_mem_others {f : Focus} {b : BlockInfo} (h : b ∈ f.others) :
    b.payload ≠ f.handle := by
  intro he
  have hsame : b.offset + Header.byteSize = f.before.span + Header.byteSize :=
    congrArg Handle.offset he
  have hpos := Header.byteSize_pos
  have hspan := byteSize_le_span f.here
  -- The blocks before the segment end where it starts, and those behind it
  -- start where it ends.
  rcases List.mem_append.mp h with hbefore | hafter
  · have := blocksFrom_bounds (List.mem_of_mem_filter hbefore)
    omega
  · have := blocksFrom_bounds (List.mem_of_mem_filter hafter)
    omega

theorem span_join (s t : Segment) : (join s t).span = s.span + t.span := by
  simp only [join, Segment.span]
  omega

/-- A free segment stays at the front when what is behind it is joined to it. -/
theorem joinAfter_eq_cons {s : Segment} (l : Layout) (hs : s.used = false) :
    ∃ t m, joinAfter s l = t :: m ∧ t.used = false := by
  cases l with
  | nil => exact ⟨s, [], rfl, hs⟩
  | cons t l =>
      rw [joinAfter]
      split
      · exact ⟨s, t :: l, rfl, hs⟩
      · exact ⟨join s t, l, rfl, rfl⟩

theorem separated_joinAfter {s : Segment} {l : Layout} (h : l.Separated) :
    (joinAfter s l).Separated := by
  cases l with
  | nil => trivial
  | cons t l =>
      rw [joinAfter]
      split
      · rename_i ht
        rw [separated_cons]
        refine ⟨h, fun u hu => ?_⟩
        cases hu
        exact Or.inr ht
      · -- What comes behind a free segment is in use.
        rename_i ht
        rw [separated_cons] at h ⊢
        exact ⟨h.1, fun u hu => Or.inr ((h.2 u hu).resolve_left ht)⟩

theorem usedFrom_joinAfter (pos : Nat) {s : Segment} (l : Layout) (hs : s.used = false) :
    usedFrom pos (joinAfter s l) = usedFrom (pos + s.span) l := by
  cases l with
  | nil => rw [joinAfter, usedFrom_cons_of_free pos [] hs]
  | cons t l =>
      rw [joinAfter]
      split
      · rw [usedFrom_cons_of_free pos _ hs]
      · rename_i ht
        -- Neither of the joined segments is in use, and the rest stays in place.
        rw [usedFrom_cons_of_free pos l rfl, span_join, ← Nat.add_assoc,
          usedFrom_cons_of_free _ l (Bool.eq_false_iff.mpr ht)]

/-- What is left when a free segment is joined to the one before it. -/
theorem joinBefore_concat (l : Layout) (r s : Segment) (m : Layout) (hs : s.used = false) :
    joinBefore (l ++ [r]) (s :: m) =
      if r.used then l ++ [r] ++ s :: m else l ++ join r s :: m := by
  rw [joinBefore, List.getLast?_concat]
  dsimp only
  split
  · rfl
  · rw [List.dropLast_concat, joinAfter, hs]
    rfl

theorem separated_joinBefore {s : Segment} {l m : Layout} (hs : s.used = false)
    (hl : l.Separated) (hm : Separated (s :: m)) : (joinBefore l (s :: m)).Separated := by
  rcases List.eq_nil_or_concat' l with rfl | ⟨l, r, rfl⟩
  · exact hm
  · rw [joinBefore_concat l r s m hs]
    split
    · rename_i hr
      rw [separated_append]
      refine ⟨hl, hm, fun t ht _ _ => ?_⟩
      rw [List.getLast?_concat] at ht
      cases ht
      exact Or.inl hr
    · rename_i hr
      -- Both neighbours of the joined segment were next to a free one.
      rw [separated_cons, hs] at hm
      rw [separated_append] at hl ⊢
      refine ⟨hl.1, ?_, fun t ht _ _ => ?_⟩
      · rw [separated_cons]
        exact ⟨hm.1, fun u hu => Or.inr ((hm.2 u hu).resolve_left Bool.false_ne_true)⟩
      · exact Or.inl ((hl.2.2 t ht r rfl).resolve_right hr)

theorem usedFrom_joinBefore (pos : Nat) {s : Segment} (l m : Layout) (hs : s.used = false) :
    usedFrom pos (joinBefore l (s :: m)) =
      usedFrom pos l ++ usedFrom (pos + l.span) (s :: m) := by
  rcases List.eq_nil_or_concat' l with rfl | ⟨l, r, rfl⟩
  · rfl
  · rw [joinBefore_concat l r s m hs]
    split
    · rw [usedFrom_append]
    · rename_i hr
      rw [usedFrom_append, usedFrom_append, span_append, usedFrom_cons_of_free _ m rfl, span_join,
        usedFrom_cons_of_free _ [] (Bool.eq_false_iff.mpr hr), usedFrom_cons_of_free _ m hs,
        span_cons, span_nil]
      simp only [Nat.add_assoc, Nat.add_zero, usedFrom, blocksFrom, List.filter_nil,
        List.append_nil]

theorem separated_free {f : Focus} (h : f.layout.Separated) : f.free.Separated := by
  rw [Focus.layout, separated_append, separated_cons] at h
  rcases joinAfter_eq_cons (s := ⟨false, f.here.size⟩) f.after rfl with ⟨t, m, hj, ht⟩
  have hsep : (joinAfter ⟨false, f.here.size⟩ f.after).Separated := separated_joinAfter h.2.1.1
  rw [Focus.free, hj]
  rw [hj] at hsep
  exact separated_joinBefore ht h.1 hsep

/-- A release takes the block of the focus from those in use. -/
theorem usedFrom_free (f : Focus) : usedFrom 0 f.free = f.others := by
  -- After joining what is behind, there is still a free segment in front.
  rcases joinAfter_eq_cons (s := ⟨false, f.here.size⟩) f.after rfl with ⟨t, m, hj, ht⟩
  have hused := usedFrom_joinAfter f.before.span (s := ⟨false, f.here.size⟩) f.after rfl
  rw [hj] at hused
  rw [Focus.free, hj, usedFrom_joinBefore 0 _ _ ht, Nat.zero_add, hused]
  rfl

theorem locate?_layout (f : Focus) : f.layout.locate? f.before.span = some f := by
  rcases f with ⟨l, s, m⟩
  induction l with
  | nil => rfl
  | cons t l ih =>
      have ht := byteSize_le_span t
      have h16 : Header.byteSize = 16 := rfl
      have hrest : locate? (span l) (l ++ s :: m) = some ⟨l, s, m⟩ := ih
      show locate? (span (t :: l)) (t :: (l ++ s :: m)) = _
      rw [locate?, span_cons, if_neg (by omega), if_neg (by omega), Nat.add_sub_cancel_left, hrest]
      rfl

/-- The first block from an offset on starts there exactly if a segment
    does. -/
theorem find?_blocksFrom {start pos : Nat} (l : Layout) (h : start ≤ pos) :
    ((blocksFrom start l).find? fun b => pos ≤ b.offset).filter (fun b => b.offset = pos) =
      (l.locate? (pos - start)).map fun f => ⟨pos, f.here.used, f.here.size⟩ := by
  induction l generalizing start with
  | nil => rfl
  | cons s l ih =>
      rw [blocksFrom, locate?]
      rcases Nat.lt_or_ge start pos with hlt | hge
      · rw [List.find?_cons_of_neg (by simpa using hlt), if_neg (by omega)]
        split
        · -- Between two segments, the next one starts too late.
          rename_i hin
          cases l with
          | nil => rfl
          | cons t l =>
              have hle : pos ≤ start + s.span := by omega
              have hne : start + s.span ≠ pos := by omega
              rw [blocksFrom, List.find?_cons_of_pos (by simpa using hle)]
              exact Option.filter_some_neg (by simpa using hne)
        · -- The offset is behind this segment, and so is what is found.
          rename_i hout
          rw [ih (by omega), Nat.sub_add_eq, Option.map_map]
          rfl
      · have hpos : pos = start := by omega
        subst hpos
        rw [List.find?_cons_of_pos (by simp), if_pos (Nat.sub_self _)]
        exact Option.filter_some_pos (by simp)

end Layout

end Freestanding
