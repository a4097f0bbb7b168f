import Freestanding.Proofs.Heap.Payload

/-!
# Canonical Layouts

What is in use decides where everything else is.

The blocks in use leave gaps, and a gap is one free block. It cannot be two,
since free blocks are not next to each other, and it cannot be empty, since
every block has a header. So there is one way to fill up a region around given
blocks, and two layouts of a region with the same blocks in use are the same
layout. That is `eq_of_usedFrom`, by induction on the segments: the first of
them is in use in both layouts or in none, and if it is free, the block in use
behind it, or the end of the region, tells where it stops.

A heap whose test passes holds a layout, so all that it says about its blocks
is decided by those in use. These in turn are seen from outside: a block in
use is a handle and the number of bytes that it stands for.

## Main definitions

* `Heap.SameUsed`: The same blocks are in use in two heaps.
* `Heap.SameMap`: Two heaps give the same account of their blocks.
* `Heap.payloadLength?`: The number of bytes that a handle stands for.

## Theorems

* `Layout.eq_of_usedFrom`: Layouts with the same blocks in use.
* `Heap.sameMap_of_sameUsed`: Heaps with the same blocks in use.
* `Heap.sameUsed_of_payloadLength?`, `Heap.sameMap_of_payloadLength?`: Heaps with
  the same handles.
-/

namespace Freestanding

attribute [ext] Segment BlockInfo

namespace Layout

/-- What is behind the first segment starts behind its offset. -/
theorem mem_usedFrom_tail {pos : Nat} {s : Segment} {l : Layout} {b : BlockInfo} :
    b ∈ usedFrom (pos + s.span) l ↔ b ∈ usedFrom pos (s :: l) ∧ pos < b.offset := by
  have hspan := byteSize_le_span s
  have hsize := Header.byteSize_pos
  constructor
  · intro hb
    have hbounds := blocksFrom_bounds (List.mem_of_mem_filter hb)
    refine ⟨?_, by omega⟩
    by_cases hs : s.used = true
    · rw [usedFrom_cons_of_used pos l hs]
      exact List.mem_cons_of_mem _ hb
    · rwa [usedFrom_cons_of_free pos l (Bool.eq_false_iff.mpr hs)]
  · rintro ⟨hb, hpos⟩
    by_cases hs : s.used = true
    · rw [usedFrom_cons_of_used pos l hs] at hb
      rcases List.mem_cons.mp hb with rfl | hb
      · exact absurd hpos (Nat.lt_irrefl pos)
      · exact hb
    · rwa [usedFrom_cons_of_free pos l (Bool.eq_false_iff.mpr hs)] at hb

theorem eq_cons_of_used {pos : Nat} {s : Segment} {l m : Layout} (hs : s.used = true)
    (hused : ∀ b ∈ usedFrom pos (s :: l), b ∈ usedFrom pos m) : ∃ n, m = s :: n := by
  have hb : (⟨pos, true, s.size⟩ : BlockInfo) ∈ usedFrom pos m := by
    apply hused
    rw [usedFrom_cons_of_used pos l hs]
    exact List.mem_cons_self
  cases m with
  | nil => cases hb
  | cons t m =>
      -- A block at this offset is not behind the first segment.
      have hfront : (⟨pos, true, s.size⟩ : BlockInfo) ∉ usedFrom (pos + t.span) m := by
        intro htail
        exact absurd (mem_usedFrom_tail.mp htail).2 (Nat.lt_irrefl pos)
      by_cases ht : t.used = true
      · rw [usedFrom_cons_of_used pos m ht] at hb
        have hsize := congrArg BlockInfo.size ((List.mem_cons.mp hb).resolve_right hfront)
        exact ⟨m, congrArg (· :: m) (Segment.ext (ht.trans hs.symm) hsize.symm)⟩
      · rw [usedFrom_cons_of_free pos m (Bool.eq_false_iff.mpr ht)] at hb
        exact absurd hb hfront

theorem span_le_of_free {pos : Nat} {s t : Segment} {l m : Layout} (hs : s.used = false)
    (ht : t.used = false) (hsep : Separated (s :: l)) (hspan : span (s :: l) = span (t :: m))
    (hused : ∀ b ∈ usedFrom pos (s :: l), b ∈ usedFrom pos (t :: m)) : t.span ≤ s.span := by
  rw [span_cons, span_cons] at hspan
  cases l with
  | nil =>
      rw [span_nil] at hspan
      omega
  | cons u l =>
      -- What is behind a free segment is in use, and is so in the other layout.
      have hu : u.used = true := by
        rw [separated_cons, hs] at hsep
        exact (hsep.2 u rfl).resolve_left Bool.false_ne_true
      have hb : (⟨pos + s.span, true, u.size⟩ : BlockInfo) ∈ usedFrom pos (t :: m) := by
        apply hused
        rw [usedFrom_cons_of_free pos _ hs, usedFrom_cons_of_used _ l hu]
        exact List.mem_cons_self
      rw [usedFrom_cons_of_free pos m ht] at hb
      have hbounds := (blocksFrom_bounds (List.mem_of_mem_filter hb)).1
      dsimp only at hbounds
      omega

/-- Layouts of a region without free neighbours are the same if the blocks in
    use are. -/
theorem eq_of_usedFrom {pos : Nat} {l m : Layout} (hl : l.Separated) (hm : m.Separated)
    (hspan : l.span = m.span) (hused : ∀ b, b ∈ usedFrom pos l ↔ b ∈ usedFrom pos m) :
    l = m := by
  -- The induction is on the segments, and the region gets shorter by one.
  induction l generalizing pos m with
  | nil =>
      cases m with
      | nil => rfl
      | cons t m =>
          have ht := byteSize_le_span t
          have hsize := Header.byteSize_pos
          rw [span_nil, span_cons] at hspan
          omega
  | cons s l ih =>
      have hfront : ∃ n, m = s :: n := by
        by_cases hs : s.used = true
        · exact eq_cons_of_used hs fun b hb => (hused b).mp hb
        · cases m with
          | nil =>
              have hspan' := byteSize_le_span s
              have hsize := Header.byteSize_pos
              rw [span_nil, span_cons] at hspan
              omega
          | cons t m =>
              have hsfree : s.used = false := Bool.eq_false_iff.mpr hs
              have htfree : t.used = false := by
                rw [Bool.eq_false_iff]
                intro ht
                rcases eq_cons_of_used ht fun b hb => (hused b).mpr hb with ⟨n, hn⟩
                cases hn
                exact hs ht
              have hle := span_le_of_free hsfree htfree hl hspan fun b hb => (hused b).mp hb
              have hge := span_le_of_free htfree hsfree hm hspan.symm fun b hb => (hused b).mpr hb
              have hsize : s.size = t.size := by
                simp only [Segment.span] at hle hge
                omega
              exact ⟨m, congrArg (· :: m) (Segment.ext (htfree.trans hsfree.symm) hsize.symm)⟩
      rcases hfront with ⟨n, rfl⟩
      rw [separated_cons] at hl hm
      rw [span_cons, span_cons] at hspan
      have hbehind : ∀ b, b ∈ usedFrom (pos + s.span) l ↔ b ∈ usedFrom (pos + s.span) n := by
        intro b
        rw [mem_usedFrom_tail, mem_usedFrom_tail, hused]
      have hrest : l = n := ih hl.1 hm.1 (by omega) hbehind
      rw [hrest]

end Layout

namespace Heap

open Layout

variable {N : Nat}

/-- The same blocks are in use in two heaps. -/
def SameUsed (h t : Heap N) : Prop :=
  ∀ b : BlockInfo, b.used = true → (b ∈ h.blocks ↔ b ∈ t.blocks)

/-- Two heaps give the same account of their blocks. -/
structure SameMap (h t : Heap N) : Prop where
  blocks : h.blocks = t.blocks
  first : h.first = t.first
  last : h.last = t.last
  freeBytes : h.freeBytes = t.freeBytes
  largestFree : h.largestFree = t.largestFree

/-- The number of bytes that a handle stands for. -/
def payloadLength? (h : Heap N) (p : Handle) : Option Nat :=
  (h.payload? p).map List.length

/-- Heaps that hold the same layout give the same account of it. -/
theorem Holds.sameMap {h t : Heap N} {l : Layout} (hl : h.Holds l) (ht : t.Holds l) :
    h.SameMap t := by
  have hblocks : h.blocks = t.blocks := hl.blocks_eq.trans ht.blocks_eq.symm
  refine ⟨hblocks, hl.first.trans ht.first.symm, hl.last_eq.trans ht.last_eq.symm, ?_, ?_⟩
  · rw [freeBytes, freeBytes, freeSizes, freeSizes, hblocks]
  · rw [largestFree, largestFree, freeSizes, freeSizes, hblocks]

/-- Two heaps in order that have the same blocks in use give the same account
    of all blocks. -/
theorem sameMap_of_sameUsed {h t : Heap N} (hh : h.check = .ok ()) (ht : t.check = .ok ())
    (hused : h.SameUsed t) : h.SameMap t := by
  rcases (check_eq_ok_iff h).mp hh with ⟨l, hl⟩
  rcases (check_eq_ok_iff t).mp ht with ⟨m, hm⟩
  have hboth : ∀ b, b ∈ usedFrom 0 l ↔ b ∈ usedFrom 0 m := by
    intro b
    rw [usedFrom, usedFrom, List.mem_filter, List.mem_filter]
    have hb := hused b
    rw [hl.blocks_eq, hm.blocks_eq] at hb
    exact and_congr_left hb
  have hsame : l = m :=
    eq_of_usedFrom hl.separated hm.separated (hl.span.trans hm.span.symm) hboth
  subst hsame
  exact hl.sameMap hm

/-- A block is in use exactly if its handle stands for as many bytes. -/
theorem Holds.mem_usedFrom_iff {h : Heap N} {l : Layout} {b : BlockInfo} (hl : h.Holds l)
    (hused : b.used = true) : b ∈ usedFrom 0 l ↔ h.payloadLength? b.payload = some b.size := by
  constructor
  · intro hb
    rcases hl.exists_payload? hb with ⟨s, hs, hlength⟩
    rw [payloadLength?, hs, Option.map_some, hlength]
  · intro hb
    rcases Option.map_eq_some_iff.mp hb with ⟨s, hs, hlength⟩
    rcases hl.exists_mem_of_payload? hs with ⟨c, hc, hpayload⟩
    rcases hl.exists_payload? hc with ⟨u, hu, hsize⟩
    -- The block that the handle leads to has the same offset and size.
    have hoffset : c.offset + Header.byteSize = b.offset + Header.byteSize :=
      congrArg Handle.offset hpayload
    rw [hpayload, hs] at hu
    cases hu
    have hcused : c.used = true := (List.mem_filter.mp hc).2
    have hcb : c = b := BlockInfo.ext (Nat.add_right_cancel hoffset) (hcused.trans hused.symm)
      (hsize.symm.trans hlength)
    rw [← hcb]
    exact hc

/-- Heaps in which every handle stands for as many bytes have the same blocks in
    use. -/
theorem sameUsed_of_payloadLength? {h t : Heap N} (hh : h.check = .ok ()) (ht : t.check = .ok ())
    (hlength : ∀ p, h.payloadLength? p = t.payloadLength? p) : h.SameUsed t := by
  rcases (check_eq_ok_iff h).mp hh with ⟨l, hl⟩
  rcases (check_eq_ok_iff t).mp ht with ⟨m, hm⟩
  intro b hused
  have hb : b ∈ usedFrom 0 l ↔ b ∈ usedFrom 0 m := by
    rw [hl.mem_usedFrom_iff hused, hm.mem_usedFrom_iff hused, hlength]
  rw [usedFrom, usedFrom, List.mem_filter, List.mem_filter] at hb
  rw [hl.blocks_eq, hm.blocks_eq]
  exact (and_iff_left hused).symm.trans (hb.trans (and_iff_left hused))

/-- Two heaps in order in which every handle stands for as many bytes give the
    same account of all blocks. -/
theorem sameMap_of_payloadLength? {h t : Heap N} (hh : h.check = .ok ()) (ht : t.check = .ok ())
    (hlength : ∀ p, h.payloadLength? p = t.payloadLength? p) : h.SameMap t :=
  sameMap_of_sameUsed hh ht (sameUsed_of_payloadLength? hh ht hlength)

end Heap

end Freestanding
