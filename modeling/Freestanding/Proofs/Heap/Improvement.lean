import Freestanding.Proofs.Heap.Contract
import Freestanding.Proofs.Joins

/-!
# What a Release Gives Back

A heap after a release has room for everything it had room for before.

A release makes one segment free and then only joins. Every block that was free
before is part of a free block afterwards, and so is the block that was
released. An allocation succeeds exactly if some free block is large enough, so
it does not fail where it would have succeeded, and a request of no more bytes
than the payload had is one that the released block can take. What is found for
it is the free block with the lowest offset, and the one that covers the
released block does not start behind it.

The free bytes grow by the payload and by the headers that joins make room of,
one for each of them.

## Theorems

* `Layout.freeBytes_join`, `Layout.Joined.freeBytes_eq`: Each join makes the
  bytes of a header free.
* `Layout.freeBytes_mark`, `Layout.mem_blocks_mark`: What making a segment free
  changes.
* `Layout.exists_cover_free`, `Layout.exists_cover_here`: Where free blocks are
  after a release.
* `Heap.Holds.allocates_of_cover`: When an allocation succeeds that did before.
* `Heap.Holds.exists_allocate_before`: Where a request is met.
* `Heap.release_loses_nothing`: What a release gives back.
-/

namespace Freestanding

namespace Layout

/-- Joining two free segments makes the bytes of the header between them
    free. -/
theorem freeBytes_join (front : Layout) {s t : Segment} (back : Layout) (hs : s.used = false)
    (ht : t.used = false) :
    (front ++ join s t :: back).freeBytes =
      (front ++ s :: t :: back).freeBytes + Header.byteSize := by
  simp only [freeBytes_append, freeBytes_cons, join, hs, ht, Bool.false_eq_true, if_false]
  omega

theorem Joined.freeBytes_eq {n : Nat} {l m : Layout} (h : l.Joined n m) :
    m.freeBytes = l.freeBytes + Header.byteSize * n := by
  induction h with
  | start => rfl
  | join before hs ht ih =>
      rw [freeBytes_join _ _ hs ht, ih, Nat.mul_succ, Nat.add_assoc]

/-- Making a segment free adds its payload to the free bytes. -/
theorem freeBytes_mark {f : Focus} (hused : f.here.used = true) :
    (f.before ++ ⟨false, f.here.size⟩ :: f.after).freeBytes =
      f.layout.freeBytes + f.here.size := by
  simp only [Focus.layout, freeBytes_append, freeBytes_cons, hused, Bool.false_eq_true, if_true,
    if_false]
  omega

/-- A block that is free stays one when another becomes free. -/
theorem mem_blocks_mark {f : Focus} (hused : f.here.used = true) {b : BlockInfo}
    (hb : b ∈ f.layout.blocks) (hfree : b.used = false) :
    b ∈ (f.before ++ ⟨false, f.here.size⟩ :: f.after).blocks := by
  rw [Focus.layout, blocks_append] at hb
  rw [blocks_append]
  rcases List.mem_append.mp hb with hfront | hb
  · exact List.mem_append_left _ hfront
  · rcases List.mem_cons.mp hb with rfl | hback
    · rw [hused] at hfree
      cases hfree
    · exact List.mem_append_right _ (List.mem_cons_of_mem _ hback)

/-- After a release, every block that was free is part of a free block. -/
theorem exists_cover_free {f : Focus} (hused : f.here.used = true) {b : BlockInfo}
    (hb : b ∈ f.layout.blocks) (hfree : b.used = false) :
    ∃ c ∈ f.free.blocks, c.used = false ∧ b.size ≤ c.size := by
  rcases joined_free f with ⟨n, -, hjoined⟩
  rcases hjoined.exists_cover (mem_blocks_mark hused hb hfree) hfree with ⟨c, hc, hcfree, hlo, hhi⟩
  exact ⟨c, hc, hcfree, by omega⟩

/-- After a release, the block that was released is part of a free block. -/
theorem exists_cover_here (f : Focus) :
    ∃ c ∈ f.free.blocks, c.used = false ∧ c.offset ≤ f.before.span ∧ f.here.size ≤ c.size := by
  have hhere : (⟨f.before.span, false, f.here.size⟩ : BlockInfo) ∈
      (f.before ++ ⟨false, f.here.size⟩ :: f.after).blocks := by
    rw [blocks_append]
    exact List.mem_append_right _ List.mem_cons_self
  rcases joined_free f with ⟨n, -, hjoined⟩
  rcases hjoined.exists_cover hhere rfl with ⟨c, hc, hcfree, hlo, hhi⟩
  dsimp only at hlo hhi
  exact ⟨c, hc, hcfree, hlo, by omega⟩

end Layout

namespace Heap

open Layout

variable {N : Nat}

/-- Where every free block finds a free one that is as large, every request
    that could be met can be met, and the largest free block is as large. -/
theorem Holds.allocates_of_cover {h t : Heap N} {l m : Layout} (hl : h.Holds l) (hm : t.Holds m)
    (hcover : ∀ b ∈ h.blocks, b.used = false → ∃ c ∈ t.blocks, c.used = false ∧ b.size ≤ c.size) :
    (∀ size, (∃ q, (Heap.allocate size h).result = .ok q) →
      ∃ q, (Heap.allocate size t).result = .ok q) ∧ h.largestFree ≤ t.largestFree := by
  have hfit : ∀ size, (∃ b ∈ h.blocks, b.used = false ∧ size ≤ b.size) →
      ∃ c ∈ t.blocks, c.used = false ∧ size ≤ c.size := by
    rintro size ⟨b, hb, hfree, hsize⟩
    rcases hcover b hb hfree with ⟨c, hc, hcfree, hle⟩
    exact ⟨c, hc, hcfree, Nat.le_trans hsize hle⟩
  constructor
  · intro size
    rw [hl.exists_ok_allocate_iff, hm.exists_ok_allocate_iff]
    exact hfit size
  · rcases Nat.eq_zero_or_pos h.largestFree with hzero | hpos
    · rw [hzero]
      exact Nat.zero_le _
    · exact (le_largestFree_iff hpos).mpr (hfit _ ((le_largestFree_iff hpos).mp (Nat.le_refl _)))

/-- A request that fits into a free block is met by that block or by one in
    front of it. -/
theorem Holds.exists_allocate_before {h : Heap N} {l : Layout} (hl : h.Holds l) {size : Nat}
    {c : BlockInfo} (hc : c ∈ h.blocks) (hfree : c.used = false) (hsize : size ≤ c.size) :
    ∃ q, (Heap.allocate size h).result = .ok q ∧ q.offset ≤ c.offset + Header.byteSize := by
  rcases (hl.exists_ok_allocate_iff size).mpr ⟨c, hc, hfree, hsize⟩ with ⟨q, hq⟩
  rcases hl.exists_of_allocate hq with ⟨f, t, rfl, hf, rfl, -⟩
  rw [hl.blocks_eq] at hc
  have hleast : f.before.span ≤ c.offset := (isLeast_firstFit hf).2 ⟨c, hc, hfree, hsize, rfl⟩
  exact ⟨f.handle, hq, Nat.add_le_add_right hleast _⟩

/-- On a heap in order, the release of a live allocation succeeds, and then
    every request that could be met before can be met. So can a request of no
    more bytes than the payload had, and the handle for it is not behind the
    one that was given up. The largest free block is not smaller, and the free
    bytes are more by the payload and by a header for every block that is gone,
    which is two at most. -/
theorem release_loses_nothing {h : Heap N} (hh : h.check = .ok ()) {p : Handle} {s : Bytes}
    (hp : h.payload? p = some s) :
    ∃ t log, tryRelease p h = ⟨.ok (), t, log⟩ ∧ release p h = ⟨.ok (), t, log⟩ ∧
      (∀ size, (∃ q, (allocate size h).result = .ok q) → ∃ q, (allocate size t).result = .ok q) ∧
      (∀ k, k ≤ s.length → ∃ q, (allocate k t).result = .ok q ∧ q.offset ≤ p.offset) ∧
      h.largestFree ≤ t.largestFree ∧
      ∃ m, m ≤ 2 ∧ h.blockCount = t.blockCount + m ∧
        t.freeBytes = h.freeBytes + (s.length + 16 * m) := by
  rcases (check_eq_ok_iff h).mp hh with ⟨l, hl⟩
  rcases hl.exists_focus_of_payload? hp with ⟨f, rfl, hused, rfl, hlength⟩
  rcases hl.tryRelease_of_used hused with ⟨t, ht, hm, -⟩
  have hcover : ∀ b ∈ h.blocks, b.used = false →
      ∃ c ∈ t.blocks, c.used = false ∧ b.size ≤ c.size := by
    rw [hl.blocks_eq, hm.blocks_eq]
    exact fun b hb hfree => exists_cover_free hused hb hfree
  have hroom := hl.allocates_of_cover hm hcover
  refine ⟨t, _, ht, release_of_ok ht, hroom.1, fun k hk => ?_, hroom.2, ?_⟩
  · rcases exists_cover_here f with ⟨c, hc, hfree, hlo, hsize⟩
    rw [← hm.blocks_eq] at hc
    rcases hm.exists_allocate_before hc hfree (Nat.le_trans hk (hlength ▸ hsize)) with
      ⟨q, hq, hle⟩
    exact ⟨q, hq, Nat.le_trans hle (Nat.add_le_add_right hlo _)⟩
  · rcases joined_free f with ⟨m, hm2, hjoined⟩
    have hcount := hjoined.length_eq
    have hbytes := hjoined.freeBytes_eq
    rw [List.length_append, List.length_cons] at hcount
    refine ⟨m, hm2, ?_, ?_⟩
    · rw [blockCount, blockCount, hl.blocks_eq, hm.blocks_eq, Layout.blocks, Layout.blocks,
        length_blocksFrom, length_blocksFrom, Focus.layout, List.length_append, List.length_cons,
        hcount]
    · rw [hm.freeBytes_eq, hl.freeBytes_eq, hbytes, freeBytes_mark hused, hlength, Nat.add_assoc]
      rfl

/-- A block between two free ones is released. What could be had before can
    still be had, and a request of as many bytes as it held is met at its place
    or in front of it. -/
theorem gain_between_free_blocks :
    ∃ h : Heap 160, h.check = .ok () ∧
      h.blocks = [⟨0, false, 16⟩, ⟨32, true, 16⟩, ⟨64, false, 80⟩] ∧
      (h.payload? ⟨48⟩).isSome ∧
      ∃ t log, tryRelease ⟨48⟩ h = ⟨.ok (), t, log⟩ ∧
        (∃ q, (allocate 80 t).result = .ok q) ∧
        (∃ q, (allocate 16 t).result = .ok q ∧ q.offset ≤ 48) ∧
        80 ≤ t.largestFree ∧
        ∃ m, m ≤ 2 ∧ 3 = t.blockCount + m ∧ t.freeBytes = 96 + (16 + 16 * m) := by
  let h : Heap 160 := (tryRelease ⟨16⟩ (allocate 16 (allocate 16
    (Heap.initial (by decide) (by decide))).state).state).state
  have hcheck : h.check = .ok () := by decide +kernel
  have hsome : (h.payload? ⟨48⟩).isSome := by decide +kernel
  have hbefore : (allocate 80 h).result = .ok ⟨80⟩ := by decide +kernel
  have hlargest : h.largestFree = 80 := by decide +kernel
  have hcount : h.blockCount = 3 := by decide +kernel
  have hbytes : h.freeBytes = 96 := by decide +kernel
  have hlength : (h.payload? ⟨48⟩).map (·.length) = some 16 := by decide +kernel
  rcases Option.isSome_iff_exists.mp hsome with ⟨s, hs⟩
  rw [hs] at hlength
  have hs16 : s.length = 16 := Option.some.inj hlength
  rcases release_loses_nothing hcheck hs with
    ⟨t, log, ht, -, hroom, hagain, hlarge, m, hm, hblocks, hfree⟩
  rw [hlargest] at hlarge
  rw [hcount] at hblocks
  rw [hbytes, hs16] at hfree
  exact ⟨h, hcheck, by decide +kernel, hsome, t, log, ht, hroom 80 ⟨_, hbefore⟩,
    hagain 16 (Nat.le_of_eq hs16.symm), hlarge, m, hm, hblocks, hfree⟩

end Heap

end Freestanding
