import Mathlib.Order.Bounds.Basic
import Freestanding.Proofs.Heap.Tiling
import Freestanding.Proofs.Heap.Effect

/-!
# What an Allocation Gives

When there is room, where it is found, and what is left of it.

A search along the blocks takes the first free one that is large enough, and
the blocks are in the order of their offsets. So it finds one exactly if there
is one, and what it finds is the one with the lowest offset. The largest free
block tells whether there is one, except to a request of no bytes: the largest
of no free blocks is reported as zero, and zero bytes do not fit into nothing.

What is handed out is the block or its front, so the payload has the bytes
that were asked for and, where the block was too small to be cut, up to two
headers' worth more. The number of free bytes is a sum over the segments, and
an allocation changes one of them. It takes the payload out of the sum, and if
there is a rest, the header of the rest.

## Main definitions

* `Layout.freeBytes`: The number of free payload bytes of a layout.

## Theorems

* `Layout.freeBytes_cut`, `Layout.freeBytes_place`: What handing out bytes takes
  from the free ones.
* `Layout.blocksFrom_cut`, `Layout.blocks_place`: The blocks afterwards.
* `Layout.lt_of_mem_before`: Nothing in front of a first fit is one.
* `Heap.Carries.freeBytes_eq`: The free bytes are those of the layout.
* `Heap.Holds.exists_ok_allocate_iff`: When there is room.
* `Heap.le_largestFree_iff`: What the largest free block tells.
* `Heap.Holds.allocate_of_full`: A heap without free blocks.
* `Heap.isLeast_firstFit`: Where room is found.
* `Heap.Holds.exists_of_allocate`: What a success does to the layout.
* `Heap.allocation_contract`: What an allocation gives.
-/

namespace Freestanding

namespace Layout

/-- The number of payload bytes of the free segments. -/
def freeBytes : Layout → Nat
  | [] => 0
  | s :: l => (if s.used then 0 else s.size) + freeBytes l

@[simp] theorem freeBytes_nil : freeBytes [] = 0 := rfl

theorem freeBytes_cons (s : Segment) (l : Layout) :
    freeBytes (s :: l) = (if s.used then 0 else s.size) + freeBytes l := rfl

@[simp] theorem freeBytes_append (l m : Layout) :
    freeBytes (l ++ m) = freeBytes l + freeBytes m := by
  induction l with
  | nil => rw [List.nil_append, freeBytes_nil, Nat.zero_add]
  | cons s l ih => rw [List.cons_append, freeBytes_cons, freeBytes_cons, ih, Nat.add_assoc]

/-- The sizes of the free blocks add up to the free bytes of the layout. -/
theorem freeBytes_blocksFrom (pos : Nat) (l : Layout) :
    (((blocksFrom pos l).filter fun b => !b.used).map (·.size)).foldr (· + ·) 0 =
      l.freeBytes := by
  induction l generalizing pos with
  | nil => rfl
  | cons s l ih =>
      rw [blocksFrom, freeBytes_cons, ← ih (pos + s.span)]
      cases hs : s.used with
      | true =>
          rw [List.filter_cons_of_neg (by simp)]
          exact (Nat.zero_add _).symm
      | false =>
          rw [List.filter_cons_of_pos (by simp)]
          rfl

/-- Handing out bytes of a free segment takes them from the free ones, and the
    header of the rest if there is one. -/
theorem freeBytes_cut {s : Segment} (size : Nat) :
    (cut s size).freeBytes + (handedOut s size + Header.byteSize * ((cut s size).length - 1)) =
      s.size := by
  unfold cut handedOut
  by_cases hsplits : size + 2 * Header.byteSize < s.size
  · simp only [if_pos hsplits, freeBytes_cons, freeBytes_nil, List.length_cons, List.length_nil]
    simp only [if_true, Bool.false_eq_true, if_false]
    omega
  · simp only [if_neg hsplits, freeBytes_cons, freeBytes_nil, List.length_cons, List.length_nil]
    simp only [if_true]
    omega

/-- The segments in front of a first fit are in use or too small. -/
theorem lt_of_mem_before {size : Nat} {l : Layout} {f : Focus} (h : l.firstFit? size = some f) :
    ∀ s ∈ f.before, s.used = false → s.size < size := by
  induction l generalizing f with
  | nil => cases h
  | cons t l ih =>
      rw [firstFit?] at h
      split at h
      · cases h
        exact fun s hs => by cases hs
      · rename_i ht
        rcases Option.map_eq_some_iff.mp h with ⟨g, hg, rfl⟩
        intro s hs hfree
        rcases List.mem_cons.mp hs with rfl | hs
        · exact not_le.mp fun hle => ht ⟨hfree, hle⟩
        · exact ih hg s hs hfree

/-- A search finds nothing exactly if every free segment is too small. -/
theorem firstFit?_eq_none_iff {size : Nat} {l : Layout} :
    l.firstFit? size = none ↔ ∀ s ∈ l, s.used = false → s.size < size := by
  induction l with
  | nil => exact iff_of_true rfl fun s hs => by cases hs
  | cons t l ih =>
      rw [firstFit?, List.forall_mem_cons]
      split
      · rename_i ht
        refine iff_of_false (fun h => by cases h) fun h => ?_
        have := h.1 ht.1
        omega
      · rename_i ht
        rw [Option.map_eq_none_iff, ih]
        refine ⟨fun h => ⟨fun hfree => ?_, h⟩, fun h => h.2⟩
        exact not_le.mp fun hle => ht ⟨hfree, hle⟩

/-- The segments of a layout are its blocks without their places. -/
theorem mem_iff_mem_blocksFrom (pos : Nat) {l : Layout} {s : Segment} :
    s ∈ l ↔ ∃ b ∈ blocksFrom pos l, b.used = s.used ∧ b.size = s.size := by
  have hsegments := ofBlocks_blocksFrom pos l
  constructor
  · intro hs
    rw [← hsegments, ofBlocks] at hs
    rcases List.mem_map.mp hs with ⟨b, hb, rfl⟩
    exact ⟨b, hb, rfl, rfl⟩
  · rintro ⟨b, hb, hused, hsize⟩
    rw [← hsegments, ofBlocks]
    refine List.mem_map.mpr ⟨b, hb, ?_⟩
    rw [hused, hsize]

/-- The blocks of a segment that bytes have been handed out of. -/
theorem blocksFrom_cut (pos : Nat) (s : Segment) (size : Nat) :
    ∃ created, blocksFrom pos (cut s size) = ⟨pos, true, handedOut s size⟩ :: created ∧
      created.length = (cut s size).length - 1 ∧
      (created = [] ∨ ∃ c, created = [c] ∧ size + 2 * Header.byteSize < s.size ∧ c.used = false ∧
        c.offset = pos + Header.byteSize + handedOut s size ∧ Header.byteSize < c.size) := by
  unfold cut handedOut
  by_cases hsplits : size + 2 * Header.byteSize < s.size
  · rw [if_pos hsplits, if_pos hsplits]
    refine ⟨_, rfl, rfl, Or.inr ⟨_, rfl, hsplits, rfl, (Nat.add_assoc _ _ _).symm, ?_⟩⟩
    dsimp only
    omega
  · rw [if_neg hsplits, if_neg hsplits]
    exact ⟨[], rfl, rfl, Or.inl rfl⟩

theorem blocks_layout_of_free {f : Focus} (hfree : f.here.used = false) :
    f.layout.blocks = f.before.blocks ++ ⟨f.before.span, false, f.here.size⟩ ::
      blocksFrom (f.before.span + f.here.span) f.after := by
  rw [Focus.layout, blocks_append, blocksFrom, hfree]

/-- Handing out a segment changes no block in front of it or behind it. -/
theorem blocks_place {f : Focus} {size : Nat} {b : BlockInfo} {created : List BlockInfo}
    (hcut : blocksFrom f.before.span (cut f.here size) = b :: created) :
    (f.before ++ cut f.here size ++ f.after).blocks = f.before.blocks ++ b ::
      (created ++ blocksFrom (f.before.span + f.here.span) f.after) := by
  rw [List.append_assoc, blocks_append, blocksFrom_append, hcut, span_cut, List.cons_append]

/-- Handing out a segment takes from the free bytes what it takes from those of
    the segment. -/
theorem freeBytes_place {f : Focus} (size : Nat) (hfree : f.here.used = false) :
    (f.before ++ cut f.here size ++ f.after).freeBytes +
      (handedOut f.here size + Header.byteSize * ((cut f.here size).length - 1)) =
        f.layout.freeBytes := by
  have hpart := freeBytes_cut (s := f.here) size
  rw [Focus.layout, freeBytes_append, freeBytes_append, freeBytes_append, freeBytes_cons, hfree,
    if_neg Bool.false_ne_true]
  omega

end Layout

namespace Heap

open Layout

variable {N : Nat}

theorem Carries.freeBytes_eq {h : Heap N} {l : Layout} (hl : h.Carries l) :
    h.freeBytes = l.freeBytes := by
  rw [Heap.freeBytes, freeSizes, hl.blocks_eq]
  exact freeBytes_blocksFrom 0 l

/-- An allocation succeeds exactly if some free block is large enough. -/
theorem Holds.exists_ok_allocate_iff {h : Heap N} {l : Layout} (hl : h.Holds l) (size : Nat) :
    (∃ p, (Heap.allocate size h).result = .ok p) ↔
      ∃ b ∈ h.blocks, b.used = false ∧ size ≤ b.size := by
  rw [hl.blocks_eq]
  cases hf : l.firstFit? size with
  | none =>
      have hsmall := firstFit?_eq_none_iff.mp hf
      rw [hl.allocate_of_noFit hf]
      constructor
      · rintro ⟨p, hp⟩
        cases hp
      · rintro ⟨b, hb, hfree, hsize⟩
        have := hsmall ⟨b.used, b.size⟩ ((mem_iff_mem_blocksFrom 0).mpr ⟨b, hb, rfl, rfl⟩) hfree
        exact absurd hsize (not_le.mpr this)
  | some f =>
      rcases hl.allocate_of_fit hf with ⟨t, ht, -⟩
      rcases eq_of_firstFit? hf with ⟨rfl, hfree, hsize⟩
      have hmem : f.here ∈ f.layout := List.mem_append_right _ List.mem_cons_self
      rcases (mem_iff_mem_blocksFrom 0).mp hmem with ⟨b, hb, hused, hbsize⟩
      rw [ht]
      exact ⟨fun _ => ⟨b, hb, hused.trans hfree, hbsize ▸ hsize⟩, fun _ => ⟨_, rfl⟩⟩

/-- A request of some bytes fits into some free block exactly if it fits into
    the largest one. -/
theorem le_largestFree_iff {h : Heap N} {size : Nat} (hsize : 0 < size) :
    size ≤ h.largestFree ↔ ∃ b ∈ h.blocks, b.used = false ∧ size ≤ b.size := by
  rcases h.isGreatest_largestFree with ⟨hmem, hupper⟩
  constructor
  · intro hle
    rcases hmem with h0 | ⟨b, hb, hfree, hlargest⟩
    · omega
    · exact ⟨b, hb, hfree, by omega⟩
  · rintro ⟨b, hb, hfree, hle⟩
    have hbound : b.size ≤ h.largestFree := hupper (Or.inr ⟨b, hb, hfree, rfl⟩)
    omega

/-- Without a free block, even a request of no bytes finds no room, though none
    is what is said to be there. -/
theorem Holds.allocate_of_full {h : Heap N} {l : Layout} (hl : h.Holds l)
    (hused : ∀ b ∈ h.blocks, b.used = true) :
    h.largestFree = 0 ∧ (Heap.allocate 0 h).result = .error (.refused (.exhausted 0)) := by
  have hfull : ¬∃ b ∈ h.blocks, b.used = false ∧ 0 ≤ b.size := by
    rintro ⟨b, hb, hfree, -⟩
    rw [hused b hb] at hfree
    cases hfree
  constructor
  · refine Nat.eq_zero_of_not_pos fun hpos => hfull ?_
    rcases (le_largestFree_iff hpos).mp (Nat.le_refl _) with ⟨b, hb, hfree, -⟩
    exact ⟨b, hb, hfree, Nat.zero_le _⟩
  · rcases ha : Heap.allocate 0 h with ⟨e | p, t, log⟩
    · rw [(hl.of_allocate_error ha).1]
    · refine absurd ((hl.exists_ok_allocate_iff 0).mp ⟨p, ?_⟩) hfull
      rw [ha]

/-- What is found has the lowest offset of all free blocks that are large
    enough. -/
theorem isLeast_firstFit {size : Nat} {l : Layout} {f : Focus} (hf : l.firstFit? size = some f) :
    IsLeast {o | ∃ c ∈ l.blocks, c.used = false ∧ size ≤ c.size ∧ c.offset = o} f.before.span := by
  have hbefore := lt_of_mem_before hf
  rcases eq_of_firstFit? hf with ⟨rfl, hfree, hsize⟩
  rw [Focus.layout, blocks_append]
  constructor
  · exact ⟨_, List.mem_append_right _ List.mem_cons_self, hfree, hsize, rfl⟩
  · rintro o ⟨c, hc, hcfree, hcsize, rfl⟩
    rcases List.mem_append.mp hc with hc | hc
    · -- In front of it, nothing that is free is large enough.
      have := hbefore ⟨c.used, c.size⟩ ((mem_iff_mem_blocksFrom 0).mpr ⟨c, hc, rfl, rfl⟩) hcfree
      exact absurd hcsize (not_le.mpr this)
    · exact (blocksFrom_bounds hc).1

/-- What an allocation that succeeds does to a layout: which segment it takes,
    and what is there afterwards. -/
theorem Holds.exists_of_allocate {h : Heap N} {l : Layout} {size : Nat} {p : Handle}
    (hl : h.Holds l) (hp : (Heap.allocate size h).result = .ok p) :
    ∃ f t, l = f.layout ∧ l.firstFit? size = some f ∧ p = f.handle ∧
      (Heap.allocate size h).state = t ∧ t.Holds (f.before ++ cut f.here size ++ f.after) ∧
      ∃ s, t.payload? p = some s ∧ s.length = handedOut f.here size := by
  cases hf : l.firstFit? size with
  | none =>
      rw [hl.allocate_of_noFit hf] at hp
      cases hp
  | some f =>
      rcases hl.allocate_of_fit hf with ⟨t, ht, hm, -⟩
      rw [ht] at hp ⊢
      cases hp
      have hmem := (mem_usedFrom_cut f size _).mpr (Or.inl rfl)
      exact ⟨f, t, (eq_of_firstFit? hf).1.symm, rfl, rfl, rfl, hm, hm.exists_payload? hmem⟩

/-- On a heap in order, a request of some bytes succeeds exactly if the largest
    free block has as many, and a request of none if there is a free block; if
    there is none, it fails, though zero is what is said to be the largest.
    What is handed out is the free block with the lowest offset of those that
    are large enough, or its front. The payload has the bytes asked for and no
    more than two headers' worth besides, and none if the block had more than
    that. If it was cut, a free block comes behind it with more payload than a
    header, and the free bytes are fewer by the payload and by a header for a
    block that is new. -/
theorem allocation_contract {h : Heap N} (hh : h.check = .ok ()) (size : Nat) :
    (0 < size → ((∃ p, (allocate size h).result = .ok p) ↔ size ≤ h.largestFree)) ∧
    ((∃ p, (allocate 0 h).result = .ok p) ↔ ∃ b ∈ h.blocks, b.used = false) ∧
    ((∀ b ∈ h.blocks, b.used = true) →
      h.largestFree = 0 ∧ (allocate 0 h).result = .error (.refused (.exhausted 0))) ∧
    ∀ p, (allocate size h).result = .ok p →
      ∃ before b after created s,
        h.blocks = before ++ b :: after ∧ b.used = false ∧ p.offset = 16 + b.offset ∧
        IsLeast {o | ∃ c ∈ h.blocks, c.used = false ∧ size ≤ c.size ∧ c.offset = o} b.offset ∧
        (allocate size h).state.payload? p = some s ∧
        size ≤ s.length ∧ s.length ≤ size + 32 ∧ (size + 32 < b.size → s.length = size) ∧
        (allocate size h).state.blocks =
          before ++ ⟨b.offset, true, s.length⟩ :: (created ++ after) ∧
        (created = [] ∨ ∃ c, created = [c] ∧ size + 32 < b.size ∧ c.used = false ∧
          c.offset = p.offset + s.length ∧ 17 ≤ c.size) ∧
        (allocate size h).state.freeBytes + (s.length + 16 * created.length) = h.freeBytes := by
  rcases (check_eq_ok_iff h).mp hh with ⟨l, hl⟩
  refine ⟨fun hpos => ?_, ?_, fun hused => ?_, fun p hp => ?_⟩
  · rw [hl.exists_ok_allocate_iff, le_largestFree_iff hpos]
  · rw [hl.exists_ok_allocate_iff]
    simp only [Nat.zero_le, and_true]
  · exact hl.allocate_of_full hused
  · rcases hl.exists_of_allocate hp with ⟨f, t, rfl, hf, rfl, ht, hm, s, hs, hlength⟩
    have hfree := (eq_of_firstFit? hf).2.1
    have hsize := (eq_of_firstFit? hf).2.2
    have hleast := isLeast_firstFit hf
    rcases blocksFrom_cut f.before.span f.here size with ⟨created, hcut, hcount, hcreated⟩
    have hbefore := blocks_layout_of_free hfree
    have hafter := blocks_place hcut
    have hbytes := freeBytes_place size hfree
    -- The blocks and the free bytes of the layouts are those of the heaps.
    rw [← hl.blocks_eq] at hbefore hleast
    rw [← hm.blocks_eq, ← hlength] at hafter
    rw [← hm.freeBytes_eq, ← hl.freeBytes_eq, ← hcount, ← hlength] at hbytes
    rw [ht]
    refine ⟨_, _, _, created, s, hbefore, rfl, Nat.add_comm _ _, hleast, hs, ?_, ?_, ?_, hafter, ?_,
      hbytes⟩
    · rw [hlength]
      exact le_handedOut hsize
    · rw [hlength]
      exact handedOut_le f.here size
    · exact fun hlarge => hlength.trans (if_pos hlarge)
    · rcases hcreated with hnone | ⟨c, hc, hlarge, hcfree, hoffset, hrest⟩
      · exact Or.inl hnone
      · rw [← hlength] at hoffset
        exact Or.inr ⟨c, hc, hlarge, hcfree, hoffset.trans (by rw [Focus.handle]), hrest⟩

/-- Twenty bytes do not fit into the first free block, but into the front of
    the one behind it; one byte more than that block has fits nowhere. A block
    that is handed out as a whole leaves no room for a request of no bytes. -/
theorem contract_of_cut :
    ∃ h : Heap 160, h.check = .ok () ∧
      h.blocks = [⟨0, false, 16⟩, ⟨32, true, 16⟩, ⟨64, false, 80⟩] ∧
      (allocate 20 h).result = .ok ⟨80⟩ ∧
      (allocate 20 h).state.blocks =
        [⟨0, false, 16⟩, ⟨32, true, 16⟩, ⟨64, true, 20⟩, ⟨100, false, 44⟩] ∧
      IsLeast {o | ∃ c ∈ h.blocks, c.used = false ∧ 20 ≤ c.size ∧ c.offset = o} 64 ∧
      (¬∃ p, (allocate 81 h).result = .ok p) ∧
      ∃ full : Heap 32, full.check = .ok () ∧ full.blocks = [⟨0, true, 16⟩] ∧
        (allocate 0 full).result = .error (.refused (.exhausted 0)) := by
  let h : Heap 160 := (tryRelease ⟨16⟩ (allocate 16 (allocate 16
    (Heap.initial (by decide) (by decide))).state).state).state
  let full : Heap 32 := (allocate 0 (Heap.initial (by decide) (by decide))).state
  have hcheck : h.check = .ok () := by decide +kernel
  have hfull : full.check = .ok () := by decide +kernel
  have hblocks : full.blocks = [⟨0, true, 16⟩] := by decide +kernel
  have hok : (allocate 20 h).result = .ok ⟨80⟩ := by decide +kernel
  have hlarge : ¬81 ≤ h.largestFree := by decide +kernel
  rcases (allocation_contract hcheck 20).2.2.2 _ hok with
    ⟨_, b, _, _, _, -, -, hoffset, hleast, -⟩
  have hfirst : b.offset = 64 := by
    have : (80 : Nat) = 16 + b.offset := hoffset
    omega
  rw [hfirst] at hleast
  refine ⟨h, hcheck, by decide +kernel, hok, by decide +kernel, hleast, ?_, full, hfull, hblocks,
    ?_⟩
  · exact fun hp => hlarge (((allocation_contract hcheck 81).1 (by decide)).mp hp)
  · have hused : ∀ b ∈ full.blocks, b.used = true := by
      rw [hblocks]
      decide
    exact ((allocation_contract hfull 0).2.2.1 hused).2

end Heap

end Freestanding
