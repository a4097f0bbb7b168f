import Mathlib.Order.Bounds.Basic
import Freestanding.Heap.Tiling
import Freestanding.Proofs.Heap.Representation

/-!
# Tilings of a Region

The test of a heap accepts exactly the regions that are tiled by blocks.

A tiling says about a list of blocks what each of them has to be, by index,
and never mentions a walk. A layout has no offsets and no links at all. Both
describe the same thing: the blocks of a layout tile the region that holds it,
and blocks that tile a region are the blocks of their segments. So the test,
which passes exactly if there is a layout, passes exactly if there is a tiling.

The header that a tiling asks for is given by the neighbours in the list, and
the one that a layout asks for by the links across the place where it is taken
apart. `headerAt_blocks` is where these meet. The conditions on neighbours are
chains on either side, and a chain is what an index has to say about the next.

A region has at most one tiling, since the walk along its links reports it. It
reports all of it, because the bound of the walk is the number of headers that
fit into the region, and every block has one.

## Main definitions

* `Layout.ofBlocks`: The segments of blocks.

## Theorems

* `Layout.blocksFrom_ofBlocks`: Blocks behind each other are those of their
  segments.
* `Layout.eq_of_blocks_eq`: A layout is told from its blocks.
* `Heap.headerAt_blocks`: The header that a block of a layout has to have.
* `Heap.linked_of_focus`: Headers that are in place one by one are linked.
* `Heap.Holds.tiling`, `Heap.Tiling.holds`: Tilings are blocks of layouts.
* `Heap.isGreatest_largestFree`: The largest free block.
* `Heap.check_iff_tiling`: What the test accepts, and what is read off then.
-/

namespace Freestanding

namespace Layout

/-- The segments of blocks. -/
def ofBlocks (bs : List BlockInfo) : Layout :=
  bs.map fun b => ⟨b.used, b.size⟩

theorem isChain_iff_getElem? {α : Type} {R : α → α → Prop} {l : List α} :
    l.IsChain R ↔ ∀ i a b, l[i]? = some a → l[i + 1]? = some b → R a b := by
  rw [List.isChain_iff_getElem]
  constructor
  · intro h i a b ha hb
    rcases List.getElem?_eq_some_iff.mp ha with ⟨hi, rfl⟩
    rcases List.getElem?_eq_some_iff.mp hb with ⟨hnext, rfl⟩
    exact h i hnext
  · intro h i hi
    exact h i _ _ (List.getElem?_eq_getElem (by omega)) (List.getElem?_eq_getElem hi)

theorem ofBlocks_blocksFrom (pos : Nat) (l : Layout) : ofBlocks (blocksFrom pos l) = l := by
  induction l generalizing pos with
  | nil => rfl
  | cons s l ih => exact congrArg (s :: ·) (ih (pos + s.span))

theorem eq_of_blocks_eq {l m : Layout} (h : l.blocks = m.blocks) : l = m := by
  rw [← ofBlocks_blocksFrom 0 l, ← ofBlocks_blocksFrom 0 m]
  exact congrArg ofBlocks h

theorem isChain_blocksFrom (pos : Nat) (l : Layout) :
    (blocksFrom pos l).IsChain fun b c => c.offset = b.stop := by
  induction l generalizing pos with
  | nil => exact .nil
  | cons s l ih =>
      rw [blocksFrom, List.isChain_cons]
      refine ⟨?_, ih _⟩
      intro c hc
      cases l with
      | nil => cases hc
      | cons t l =>
          cases hc
          exact (Nat.add_assoc _ _ _).symm

/-- Blocks that start where the one before them stops are the blocks of their
    segments. -/
theorem blocksFrom_ofBlocks {pos : Nat} {bs : List BlockInfo}
    (hstart : ∀ b ∈ bs.head?, b.offset = pos)
    (hchain : bs.IsChain fun b c => c.offset = b.stop) : blocksFrom pos (ofBlocks bs) = bs := by
  induction bs generalizing pos with
  | nil => rfl
  | cons b bs ih =>
      rw [List.isChain_cons] at hchain
      have hpos : b.offset = pos := hstart b rfl
      subst hpos
      have hrest : blocksFrom (b.offset + (Header.byteSize + b.size)) (ofBlocks bs) = bs :=
        ih (fun c hc => (hchain.1 c hc).trans (Nat.add_assoc _ _ _)) hchain.2
      exact congrArg (b :: ·) hrest

theorem separated_ofBlocks (bs : List BlockInfo) :
    (ofBlocks bs).Separated ↔ bs.IsChain fun b c => b.used ∨ c.used := by
  rw [separated_iff_isChain, ofBlocks, List.isChain_map]

theorem total_blocksFrom (pos : Nat) (l : Layout) :
    ((blocksFrom pos l).map fun b => Header.byteSize + b.size).foldr (· + ·) 0 = l.span := by
  induction l generalizing pos with
  | nil => rfl
  | cons s l ih =>
      rw [blocksFrom, List.map_cons, List.foldr_cons, ih, span_cons]
      rfl

end Layout

namespace Heap

open Layout

variable {N : Nat}

theorem offsetBefore?_blocks (f : Focus) :
    offsetBefore? f.layout.blocks f.before.length = linkBack none 0 f.before := by
  rcases f with ⟨l, s, m⟩
  rcases List.eq_nil_or_concat' l with rfl | ⟨l, r, rfl⟩
  · rfl
  · -- The segment before that of the focus is in a focus of its own.
    have hget := getElem?_blocksFrom 0 ⟨l, r, s :: m⟩
    rw [Nat.zero_add] at hget
    rw [Focus.layout, List.append_assoc, List.length_append, linkBack_append, Nat.zero_add]
    exact congrArg (Option.map BlockInfo.offset) hget

theorem offsetAt?_blocks (f : Focus) :
    offsetAt? f.layout.blocks (f.before.length + 1) =
      linkTo (f.before.span + f.here.span) none f.after := by
  rcases f with ⟨l, s, m⟩
  cases m with
  | nil =>
      rw [offsetAt?, List.getElem?_eq_none]
      · rfl
      · rw [Layout.blocks, length_blocksFrom, Focus.layout, List.length_append]
        exact Nat.le_refl _
  | cons t m =>
      have hget := getElem?_blocksFrom 0 ⟨l ++ [s], t, m⟩
      rw [Nat.zero_add, span_concat, List.length_append] at hget
      rw [Focus.layout, List.append_cons]
      exact congrArg (Option.map BlockInfo.offset) hget

/-- The header that the block of a focus has to have is that of the focus. -/
theorem headerAt_blocks (f : Focus) :
    headerAt f.layout.blocks f.before.length ⟨f.before.span, f.here.used, f.here.size⟩ =
      f.header := by
  rw [headerAt, offsetBefore?_blocks, offsetAt?_blocks]
  rfl

/-- Segments whose headers are in place, each for itself, are linked. -/
theorem linked_of_focus {h : Heap N} (l m : Layout)
    (hm : ∀ f : Focus, f.layout = l ++ m → h.header? f.before.span = some f.header) :
    h.Linked none (linkBack none 0 l) l.span m := by
  -- The induction moves one segment after the other to the front.
  induction m generalizing l with
  | nil => trivial
  | cons s m ih =>
      have hrest := ih (l ++ [s]) (by rwa [← List.append_cons])
      rw [linkBack_append, Nat.zero_add, span_concat] at hrest
      exact ⟨hm ⟨l, s, m⟩ rfl, hrest⟩

/-- The blocks of a layout tile the region that holds it. -/
theorem Holds.tiling {h : Heap N} {l : Layout} (hl : h.Holds l) : h.Tiling l.blocks where
  start := by
    refine ⟨hl.first, ?_⟩
    cases l with
    | nil => exact absurd rfl hl.ne_nil
    | cons s l => rfl
  finish := by
    rcases List.eq_nil_or_concat' l with rfl | ⟨front, s, rfl⟩
    · exact absurd rfl hl.ne_nil
    · have hspan := hl.span
      have hlast := hl.last_eq
      rw [span_concat, Segment.span, ← Nat.add_assoc] at hspan
      rw [Layout.last, List.dropLast_concat] at hlast
      refine ⟨⟨Layout.span front, s.used, s.size⟩, ?_, hspan, hlast⟩
      rw [Layout.blocks, blocksFrom_append, Nat.zero_add]
      exact List.getLast?_concat
  -- What is said about neighbours is a chain along the blocks.
  adjacent := isChain_iff_getElem?.mp (isChain_blocksFrom 0 l)
  separated := by
    refine isChain_iff_getElem?.mp ((separated_ofBlocks _).mp ?_)
    rw [Layout.blocks, ofBlocks_blocksFrom]
    exact hl.separated
  header := by
    intro i b hb
    rcases exists_focus_of_getElem? hb with ⟨f, rfl, rfl, rfl⟩
    rw [Nat.zero_add, headerAt_blocks]
    exact hl.toCarries.header

/-- Blocks that tile a region are those of a layout that is in it. -/
theorem Tiling.holds {h : Heap N} {bs : List BlockInfo} (hb : h.Tiling bs) :
    h.Holds (ofBlocks bs) ∧ (ofBlocks bs).blocks = bs := by
  have hblocks : (ofBlocks bs).blocks = bs := by
    refine blocksFrom_ofBlocks ?_ (isChain_iff_getElem?.mpr hb.adjacent)
    intro b hhead
    have hstart := hb.start.2
    rw [offsetAt?, ← List.head?_eq_getElem?, Option.mem_def.mp hhead] at hstart
    exact Option.some.inj hstart
  -- The header of each focus is the one asked for at its index.
  have hlinked : h.Linked none none 0 (ofBlocks bs) := by
    refine linked_of_focus [] (ofBlocks bs) ?_
    intro f hf
    have hget := getElem?_blocksFrom 0 f
    have hheader := headerAt_blocks f
    rw [Nat.zero_add, hf, List.nil_append] at hget
    rw [hf, List.nil_append, hblocks] at hheader
    rw [Layout.blocks] at hblocks
    rw [hblocks] at hget
    rw [← hheader]
    exact hb.header _ _ hget
  -- The last block tells where the layout ends and what its last offset is.
  rcases hb.finish with ⟨b, hget, hstop, hlast⟩
  rcases List.eq_nil_or_concat' bs with rfl | ⟨front, c, rfl⟩
  · cases hget
  · rw [List.getLast?_concat] at hget
    cases hget
    have hsplit : ofBlocks (front ++ [b]) = ofBlocks front ++ [⟨b.used, b.size⟩] :=
      List.map_append
    have hoffset : (ofBlocks front).span = b.offset := by
      rw [hsplit, Layout.blocks, blocksFrom_append, Nat.zero_add] at hblocks
      have hend := (List.append_inj hblocks (by rw [length_blocksFrom, ofBlocks, List.length_map])).2
      exact congrArg BlockInfo.offset (List.singleton_inj.mp hend)
    refine ⟨⟨⟨hb.start.1, ?_, ?_, hlinked⟩, ?_⟩, hblocks⟩
    · rw [hsplit, linkBack_append, Nat.zero_add, hoffset, hlast]
      rfl
    · rw [hsplit, span_concat, hoffset, ← hstop, BlockInfo.stop, Nat.add_assoc]
      rfl
    · exact (separated_ofBlocks _).mpr (isChain_iff_getElem?.mpr hb.separated)

/-- The largest free block is the largest of all free blocks, and zero stands
    for having none. -/
theorem isGreatest_largestFree (h : Heap N) :
    IsGreatest (insert 0 {n | ∃ b ∈ h.blocks, b.used = false ∧ b.size = n}) h.largestFree := by
  have hmax : (0 :: h.freeSizes).max? = some h.largestFree := List.max?_cons'
  have hmem : ∀ n, n ∈ h.freeSizes ↔ ∃ b ∈ h.blocks, b.used = false ∧ b.size = n := by
    intro n
    simp only [freeSizes, List.mem_map, List.mem_filter, Bool.not_eq_true', and_assoc]
  rcases List.max?_eq_some_iff.mp hmax with ⟨hin, hle⟩
  constructor
  · -- The maximum is the zero in front or one of the sizes.
    exact (List.mem_cons.mp hin).imp_right (hmem _).mp
  · rintro n (rfl | hn)
    · exact Nat.zero_le _
    · exact hle n (List.mem_cons_of_mem _ ((hmem n).mpr hn))

/-- The test passes exactly if there are blocks that tile the region. They are
    the only ones, a walk reports all of them, and so does one that may visit
    more; they take up every byte of the region; and the number of blocks, the
    free bytes and the largest free block are those of this list. -/
theorem check_iff_tiling (h : Heap N) :
    (h.check = .ok () ↔ ∃ bs, h.Tiling bs) ∧
      ∀ bs, h.Tiling bs →
        (∀ cs, h.Tiling cs → cs = bs) ∧
        h.blocks = bs ∧
        (∀ n, visits N ≤ n → h.walk n (some h.first) = bs) ∧
        (bs.map fun b => Header.byteSize + b.size).foldr (· + ·) 0 = N ∧
        h.blockCount = bs.length ∧
        h.freeBytes = ((bs.filter fun b => !b.used).map (·.size)).foldr (· + ·) 0 ∧
        IsGreatest (insert 0 {n | ∃ b ∈ bs, b.used = false ∧ b.size = n}) h.largestFree := by
  -- Two tilings are both what the walk reports.
  have hreported : ∀ bs, h.Tiling bs → h.blocks = bs := by
    intro bs hb
    rcases hb.holds with ⟨hl, hsegments⟩
    exact hl.blocks_eq.trans hsegments
  constructor
  · rw [check_eq_ok_iff]
    constructor
    · rintro ⟨l, hl⟩
      exact ⟨l.blocks, hl.tiling⟩
    · rintro ⟨bs, hb⟩
      exact ⟨ofBlocks bs, hb.holds.1⟩
  · intro bs hb
    have hblocks := hreported bs hb
    rcases hb.holds with ⟨hl, hsegments⟩
    refine ⟨?_, hblocks, ?_, ?_, ?_, ?_, ?_⟩
    · intro cs hc
      exact (hreported cs hc).symm.trans hblocks
    · intro n hn
      rw [hl.linkTo_first, hl.linked.walk_eq (Nat.le_trans hl.length_le hn)]
      exact hsegments
    · rw [← hsegments, Layout.blocks, total_blocksFrom]
      exact hl.span
    · rw [blockCount, hblocks]
    · rw [freeBytes, freeSizes, hblocks]
    · rw [← hblocks]
      exact h.isGreatest_largestFree

set_option maxRecDepth 4000 in
/-- After an allocation two blocks tile the region. If the heap takes another
    one for the last, no blocks do. -/
theorem tiling_after_allocation :
    ∃ h : Heap 96, h = (Heap.allocate 16 (Heap.initial (by decide) (by decide))).state ∧
      h.Tiling [⟨0, true, 16⟩, ⟨32, false, 48⟩] ∧ h.freeBytes = 48 ∧
      ¬ ∃ bs, Tiling { h with last := 0 } bs := by
  have hcheck : (Heap.allocate 16 (Heap.initial (N := 96) (by decide) (by decide))).state.check =
      .ok () := rfl
  have hwalk : (Heap.allocate 16 (Heap.initial (N := 96) (by decide) (by decide))).state.blocks =
      [⟨0, true, 16⟩, ⟨32, false, 48⟩] := rfl
  rcases (check_iff_tiling _).1.mp hcheck with ⟨bs, hbs⟩
  rcases (check_iff_tiling _).2 bs hbs with ⟨-, hblocks, -, -, -, hfree, -⟩
  rw [hwalk] at hblocks
  subst hblocks
  refine ⟨_, rfl, hbs, hfree, fun hbroken => ?_⟩
  have hpasses := (check_iff_tiling _).1.mpr hbroken
  cases hpasses

end Heap

end Freestanding
