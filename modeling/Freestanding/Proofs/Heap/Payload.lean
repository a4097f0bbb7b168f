import Freestanding.Heap.Payload
import Freestanding.Proofs.Heap.Allocation
import Freestanding.Proofs.Heap.Release

/-!
# Payloads of a Layout

What a program sees of a heap through its handles.

A program does not see a layout. It has handles, and `payload?` is what a
handle stands for: some bytes, or nothing. On a heap that holds a layout it is
some bytes for the segments in use and nothing for all other offsets, whatever
the bytes of the region look like. Seen that way, an operation has an effect
on one handle at most. An allocation gives bytes to a handle that had none, a
release takes them away, a write changes them, and every other handle stands
for the same bytes as before.

The reason is the same for all of them. Blocks do not overlap, so a payload
shares no byte with a header and none with another payload. Allocations and
releases write to headers, and writes through a handle stay in its payload.

## Main definitions

* `Heap.SameExcept`: Every handle but one stands for what it stood for.

## Theorems

* `Heap.Holds.exists_focus_of_payload?`: Whose handle stands for something.
* `Heap.Holds.payload?_of_mem`: What the handle of a segment in use stands for.
* `Heap.AgreeOutside.slice?_payload`: No header is written over a payload.
* `Heap.Holds.sameExcept`: Payloads of blocks that stay in use.
* `Heap.Holds.store`, `Heap.Holds.payload?_store`,
  `Heap.Holds.sameExcept_store`: A write through a handle.
-/

namespace Freestanding

namespace Layout

theorem exists_focus_of_mem_blocksFrom {pos : Nat} {l : Layout} {b : BlockInfo}
    (h : b ∈ blocksFrom pos l) :
    ∃ f : Focus, f.layout = l ∧ b = ⟨pos + f.before.span, f.here.used, f.here.size⟩ := by
  rcases List.mem_iff_getElem?.mp h with ⟨i, hi⟩
  rcases exists_focus_of_getElem? hi with ⟨f, hf, -, hb⟩
  exact ⟨f, hf, hb⟩

/-- A block in use is that of a segment in use. -/
theorem exists_focus_of_mem_usedFrom {l : Layout} {b : BlockInfo} (h : b ∈ usedFrom 0 l) :
    ∃ f : Focus, f.layout = l ∧ f.here.used = true ∧ b.offset = f.before.span ∧
      b.size = f.here.size := by
  rcases List.mem_filter.mp h with ⟨hb, hused⟩
  rcases exists_focus_of_mem_blocksFrom hb with ⟨f, hf, rfl⟩
  exact ⟨f, hf, hused, Nat.zero_add _, rfl⟩

end Layout

namespace Heap

open Layout Change

variable {N : Nat}

/-- Every handle but `p` stands for what it stood for. -/
def SameExcept (p : Handle) (h t : Heap N) : Prop :=
  ∀ q, q ≠ p → t.payload? q = h.payload? q

/-- The payload of a segment in use is its bytes. -/
theorem Holds.payload?_of_mem {h : Heap N} {l : Layout} {b : BlockInfo} (hl : h.Holds l)
    (hb : b ∈ usedFrom 0 l) :
    h.payload? b.payload = h.region.slice? b.payload.offset b.size := by
  rcases exists_focus_of_mem_usedFrom hb with ⟨f, rfl, hused, hoffset, hsize⟩
  have hspan := hl.span_le
  have hhere := byteSize_le_span f.here
  have hpos := Header.byteSize_pos
  -- The handle leads to the header, the walk comes to it, and it is in use.
  have hheader : b.payload.headerIn? N = some f.before.span := by
    rw [Handle.headerIn?, BlockInfo.payload, hoffset, Nat.add_sub_cancel,
      if_pos ⟨Nat.le_add_left _ _, by omega⟩]
  have hlive : h.live? f.before.span = some f.header := by
    rw [hl.live?_eq, locate?_layout]
    exact if_pos hused
  have hallocation : h.allocation? b.payload = some f.header := by
    rw [allocation?, hheader]
    exact hlive
  rw [payload?, hallocation, hsize]
  rfl

/-- A handle that stands for something is that of a segment in use. -/
theorem Holds.exists_mem_of_payload? {h : Heap N} {l : Layout} {p : Handle} {s : Bytes}
    (hl : h.Holds l) (hp : h.payload? p = some s) : ∃ b ∈ usedFrom 0 l, b.payload = p := by
  rw [payload?] at hp
  cases ha : h.allocation? p with
  | none =>
      rw [ha] at hp
      cases hp
  | some header =>
      rw [allocation?] at ha
      rcases Option.bind_eq_some_iff.mp ha with ⟨pos, hpos, hlive⟩
      rw [hl.live?_eq] at hlive
      rcases Option.bind_eq_some_iff.mp hlive with ⟨f, hloc, hf⟩
      rcases eq_of_locate? hloc with ⟨rfl, hspan⟩
      -- The segment that was located is in use, or there is no live header.
      rw [Handle.headerIn?] at hpos
      split at hpos
      · rename_i hrange
        cases hpos
        by_cases hused : f.here.used = true
        · refine ⟨_, (mem_usedFrom_layout_of_used hused _).mpr (Or.inl rfl), ?_⟩
          show Handle.mk (f.before.span + Header.byteSize) = p
          rw [hspan, Nat.sub_add_cancel hrange.1]
        · rw [if_neg hused] at hf
          cases hf
      · cases hpos

theorem Holds.payload?_eq_none {h : Heap N} {l : Layout} {p : Handle} (hl : h.Holds l)
    (hp : ∀ b ∈ usedFrom 0 l, b.payload ≠ p) : h.payload? p = none := by
  cases hs : h.payload? p with
  | none => rfl
  | some s =>
      rcases hl.exists_mem_of_payload? hs with ⟨b, hb, hpayload⟩
      exact absurd hpayload (hp b hb)

/-- A segment in use has a payload as long as its block. -/
theorem Holds.exists_payload? {h : Heap N} {l : Layout} {b : BlockInfo} (hl : h.Holds l)
    (hb : b ∈ usedFrom 0 l) : ∃ s, h.payload? b.payload = some s ∧ s.length = b.size := by
  have hbounds := blocksFrom_bounds (List.mem_of_mem_filter hb)
  rw [Nat.zero_add, hl.span] at hbounds
  cases hs : h.region.slice? b.payload.offset b.size with
  | none =>
      have hout : N < b.offset + Header.byteSize + b.size := Region.slice?_eq_none_iff.mp hs
      omega
  | some s => exact ⟨s, (hl.payload?_of_mem hb).trans hs, Region.length_of_slice? hs⟩

/-- A segment in use where the header of a handle would be is the payload of
    the handle. -/
theorem Holds.exists_payload?_of_locate? {h : Heap N} {l : Layout} {p : Handle} {f : Focus}
    (hl : h.Holds l) (hp : Header.byteSize ≤ p.offset)
    (hf : l.locate? (p.offset - Header.byteSize) = some f) (hused : f.here.used = true) :
    ∃ s, h.payload? p = some s ∧ s.length = f.here.size := by
  rcases eq_of_locate? hf with ⟨rfl, hspan⟩
  have hpayload : BlockInfo.payload ⟨f.before.span, true, f.here.size⟩ = p := by
    show Handle.mk (f.before.span + Header.byteSize) = p
    rw [hspan, Nat.sub_add_cancel hp]
  rw [← hpayload]
  exact hl.exists_payload? ((mem_usedFrom_layout_of_used hused _).mpr (Or.inl rfl))

/-- A handle that stands for something is that of a segment in use, and its
    payload is as long as the segment says. -/
theorem Holds.exists_focus_of_payload? {h : Heap N} {l : Layout} {p : Handle} {s : Bytes}
    (hl : h.Holds l) (hp : h.payload? p = some s) :
    ∃ f : Focus, f.layout = l ∧ f.here.used = true ∧ f.handle = p ∧ s.length = f.here.size := by
  rcases hl.exists_mem_of_payload? hp with ⟨b, hb, rfl⟩
  rcases exists_focus_of_mem_usedFrom hb with ⟨f, hf, hused, hoffset, hsize⟩
  rcases hl.exists_payload? hb with ⟨t, ht, hlength⟩
  rw [hp] at ht
  cases ht
  refine ⟨f, hf, hused, ?_, hlength.trans hsize⟩
  rw [Focus.handle, BlockInfo.payload, hoffset]

/-- A payload keeps its bytes if only headers of blocks beside it are
    written. -/
theorem AgreeOutside.slice?_payload {h t : Heap N} {l : Layout} {b : BlockInfo}
    (hagree : h.AgreeOutside t (offsetsFrom 0 l)) (hb : b ∈ blocksFrom 0 l) :
    t.region.slice? b.payload.offset b.size = h.region.slice? b.payload.offset b.size := by
  apply Region.slice?_congr
  intro i hlo hhi
  have hoffset : b.payload.offset = b.offset + Header.byteSize := rfl
  apply hagree
  intro q hq
  rcases List.mem_map.mp hq with ⟨c, hc, rfl⟩
  -- The header is that of the payload itself or of another block.
  rcases apart_of_mem_blocksFrom hb hc with rfl | hbefore | hbehind
  · exact Or.inr (by omega)
  · exact Or.inl (by omega)
  · exact Or.inr (by omega)

/-- Handles stand for the same bytes where the blocks in use are the same and
    their bytes are. -/
theorem Holds.sameExcept {h t : Heap N} {l m : Layout} {p : Handle} (hl : h.Holds l)
    (ht : t.Holds m)
    (hused : ∀ b, b.payload ≠ p → (b ∈ usedFrom 0 m ↔ b ∈ usedFrom 0 l))
    (hbytes : ∀ b ∈ usedFrom 0 l, b.payload ≠ p →
      t.region.slice? b.payload.offset b.size = h.region.slice? b.payload.offset b.size) :
    h.SameExcept p t := by
  intro q hq
  by_cases hlive : ∃ b ∈ usedFrom 0 l, b.payload = q
  · rcases hlive with ⟨b, hb, rfl⟩
    rw [hl.payload?_of_mem hb, ht.payload?_of_mem ((hused b hq).mpr hb)]
    exact hbytes b hb hq
  · -- A handle that stood for nothing has no block among the new ones either.
    have hdead : ∀ b ∈ usedFrom 0 l, b.payload ≠ q := fun b hb he => hlive ⟨b, hb, he⟩
    rw [hl.payload?_eq_none hdead]
    apply ht.payload?_eq_none
    rintro b hb rfl
    exact hdead b ((hused b hq).mp hb) rfl

@[simp] theorem first_store (h : Heap N) (p : Handle) (s : Bytes) :
    (h.store p s).first = h.first := by
  simp only [store]

@[simp] theorem last_store (h : Heap N) (p : Handle) (s : Bytes) :
    (h.store p s).last = h.last := by
  simp only [store]

/-- A header that does not overlap with the bytes written reads as before. -/
theorem header?_store_of_disjoint {h : Heap N} {p : Handle} {s : Bytes} {q : Nat}
    (hq : q + Header.byteSize ≤ p.offset ∨ p.offset + s.length ≤ q) :
    (h.store p s).header? q = h.header? q :=
  Header.read?_overwrite_of_disjoint hq

/-- A write that stays in its payload keeps the layout. -/
theorem Holds.store {h : Heap N} {l : Layout} {p : Handle} {s t : Bytes} (hl : h.Holds l)
    (hp : h.payload? p = some s) (ht : t.length ≤ s.length) : (h.store p t).Holds l := by
  rcases hl.exists_focus_of_payload? hp with ⟨f, rfl, -, rfl, hlength⟩
  have hspan : f.here.span = Header.byteSize + f.here.size := rfl
  have hstart : f.handle.offset = f.before.span + Header.byteSize := rfl
  have hlast := hl.last_back
  rw [← last_store h f.handle t] at hlast
  refine ⟨hl.toCarries.replace (List.cons_ne_nil _ _) (List.cons_ne_nil _ _) rfl
    (first_store _ _ _) hlast ?_ ⟨?_, ?_⟩, hl.separated⟩
  · intro q hq
    exact header?_store_of_disjoint (Or.inl (by omega))
  · -- The payload starts where its own header ends.
    rw [header?_store_of_disjoint (Or.inl (by omega))]
    exact hl.header
  · -- The payload ends where the next header starts.
    exact hl.back.2.congr fun q hq _ => header?_store_of_disjoint (Or.inr (by omega))

/-- What is written to a payload is there, and what is not stays. -/
theorem Holds.payload?_store {h : Heap N} {l : Layout} {p : Handle} {s t : Bytes}
    (hl : h.Holds l) (hp : h.payload? p = some s) (ht : t.length ≤ s.length) :
    (h.store p t).payload? p = some (t ++ s.drop t.length) := by
  have hstore := hl.store hp ht
  rcases hl.exists_mem_of_payload? hp with ⟨b, hb, rfl⟩
  rw [hl.payload?_of_mem hb] at hp
  rw [Region.length_of_slice? hp] at ht
  rw [hstore.payload?_of_mem hb]
  exact Region.slice?_overwrite_front hp ht

/-- A write through a handle does not reach any other payload. -/
theorem Holds.sameExcept_store {h : Heap N} {l : Layout} {p : Handle} {s t : Bytes}
    (hl : h.Holds l) (hp : h.payload? p = some s) (ht : t.length ≤ s.length) :
    h.SameExcept p (h.store p t) := by
  refine hl.sameExcept (hl.store hp ht) (fun _ _ => Iff.rfl) fun c hc hne => ?_
  rcases hl.exists_mem_of_payload? hp with ⟨b, hb, rfl⟩
  rw [hl.payload?_of_mem hb] at hp
  rw [Region.length_of_slice? hp] at ht
  have hstart : b.payload.offset = b.offset + Header.byteSize := rfl
  have hother : c.payload.offset = c.offset + Header.byteSize := rfl
  apply Region.slice?_overwrite_of_disjoint
  rcases apart_of_mem_blocksFrom (List.mem_of_mem_filter hb) (List.mem_of_mem_filter hc) with
    rfl | hbefore | hbehind
  · exact absurd rfl hne
  · exact Or.inr (by omega)
  · exact Or.inl (by omega)

end Heap

end Freestanding
