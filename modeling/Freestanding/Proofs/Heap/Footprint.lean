import Freestanding.Proofs.Heap.Effect

/-!
# What an Operation Writes

Which bytes of the region an allocation or a release may change.

Both write headers and nothing else. An allocation may make a new header, in
what was free payload, so the headers it writes are those of the blocks that
there are afterwards. A release makes none and takes some away, so it writes
headers of blocks that there were before. Everything else in the region stays:
payloads, free bytes and whatever is left in them from earlier.

A header is always written as a whole, also where one field of it is new. The
rest is what was read there before, so a block that is only marked free has
four bytes that may differ. A block that is absorbed may be written twice, but
the last thing that happens to its header is that the tag is taken away, and
nothing that is written later reaches it.

## Theorems

* `Heap.getElem?_setUsed`: Marking a block.
* `Heap.Absorbs.gone`: What is at the offset of a block that was absorbed.
* `Heap.writes_stay_in_headers`: What an allocation and a release write.
-/

namespace Freestanding

namespace Heap

open Layout

variable {N : Nat}

/-- Writing a header back with another use changes the bytes of its tag and no
    others. -/
theorem getElem?_setUsed {h : Heap N} {pos : Nat} {b : Header} (hb : h.header? pos = some b)
    (used : Bool) {i : Nat} (hi : i < pos ∨ pos + Header.fieldSize ≤ i) :
    (h.setHeader pos { b with used }).region[i]? = h.region[i]? := by
  have hregion : (h.setHeader pos { b with used }).region =
      h.region.overwrite pos (LittleEndian.encode Header.fieldSize (Header.tag used)) :=
    Header.overwrite_used hb used
  rw [hregion]
  apply Region.getElem?_overwrite_of_notMem
  rw [LittleEndian.length_encode]
  exact hi

/-- No header is read where a block was absorbed. -/
theorem Absorbs.gone {h t : Heap N} {old new : List Nat} (ht : h.Absorbs t old new) {q : Nat}
    (hq : q ∈ old) (hgone : q ∉ new) :
    t.region.slice? q Header.fieldSize = some Header.noTag ∧ t.header? q = none := by
  have herased := ht.erased q hq hgone
  exact ⟨herased, Header.read?_of_noTag herased⟩

/-- On a heap in order, an allocation that succeeds writes inside of headers of
    blocks that there are afterwards, and a release that succeeds inside of
    headers of blocks that there were before. A release takes the tag of every
    block away that is not there any more, so that no header is read at its
    offset, and if all blocks are still there, it writes the tag of the block
    that was released and nothing else. -/
theorem writes_stay_in_headers {h : Heap N} (hh : h.check = .ok ()) :
    (∀ size p, (allocate size h).result = .ok p →
      h.AgreeOutside (allocate size h).state ((allocate size h).state.blocks.map (·.offset))) ∧
    ∀ p, (tryRelease p h).result = .ok () →
      ∃ t, (tryRelease p h).state = t ∧ (release p h).state = t ∧
        h.AgreeOutside t (h.blocks.map (·.offset)) ∧
        (∀ b ∈ h.blocks, b.offset ∉ t.blocks.map (·.offset) →
          t.region.slice? b.offset 4 = some [0, 0, 0, 0] ∧ t.header? b.offset = none) ∧
        (t.blockCount = h.blockCount →
          ∀ i, i < p.offset - 16 ∨ p.offset - 12 ≤ i → t.region[i]? = h.region[i]?) := by
  rcases (check_eq_ok_iff h).mp hh with ⟨l, hl⟩
  constructor
  · intro size p _
    rcases hl.allocate size with ⟨-, ht, hagree⟩
    rw [ht.blocks_eq]
    exact hagree
  · intro p hok
    cases hp : h.payload? p with
    | none =>
        rw [hl.tryRelease_of_noPayload hp] at hok
        cases hok
    | some s =>
        rcases hl.exists_focus_of_payload? hp with ⟨f, rfl, hused, rfl, -⟩
        rcases hl.tryRelease_of_used hused with ⟨t, ht, hm, hagree, habsorbs⟩
        rw [release_of_ok ht, ht]
        refine ⟨t, rfl, rfl, ?_, ?_, ?_⟩
        · rw [hl.blocks_eq]
          exact hagree
        · intro b hb hgone
          rw [hl.blocks_eq] at hb
          rw [hm.blocks_eq] at hgone
          exact habsorbs.gone (List.mem_map_of_mem hb) hgone
        · intro hcount i hi
          rw [blockCount, blockCount, hl.blocks_eq, hm.blocks_eq] at hcount
          have hlength : (offsetsFrom 0 f.free).length = (offsetsFrom 0 f.layout).length := by
            rw [offsetsFrom, offsetsFrom, List.length_map, List.length_map]
            exact hcount
          -- Nothing is written after the block is marked.
          rw [habsorbs.idle hlength]
          have hoffset : f.handle.offset = f.before.span + Header.byteSize := rfl
          have hsize : Header.byteSize = 16 := rfl
          have hfield : Header.fieldSize = 4 := rfl
          exact getElem?_setUsed hl.header false (by omega)

/-- A block between two free ones takes part in two joins, and the headers of
    two blocks are gone. Between blocks in use it loses the bytes of its tag. -/
theorem footprint_of_releases :
    (∃ h : Heap 160, h.check = .ok () ∧
      h.AgreeOutside (allocate 20 h).state [0, 32, 64, 100] ∧
      ∃ t, (release ⟨48⟩ h).state = t ∧ h.AgreeOutside t [0, 32, 64] ∧
        t.region.slice? 32 4 = some [0, 0, 0, 0] ∧ t.header? 32 = none ∧ t.header? 64 = none) ∧
    ∃ h : Heap 160, h.check = .ok () ∧
      ∃ t, (release ⟨48⟩ h).state = t ∧
        ∀ i, i < 32 ∨ 36 ≤ i → t.region[i]? = h.region[i]? := by
  let fresh : Heap 160 := Heap.initial (by decide) (by decide)
  let full : Heap 160 := { ((fresh.setHeader 0 ⟨true, 16, none, some 32⟩).setHeader 32
    ⟨true, 16, some 0, some 64⟩).setHeader 64 ⟨true, 80, some 32, none⟩ with last := 64 }
  let h : Heap 160 := (full.setHeader 0 ⟨false, 16, none, some 32⟩).setHeader 64
    ⟨false, 80, some 32, none⟩
  have hcheck : h.check = .ok () := by decide +kernel
  have hfull : full.check = .ok () := by decide +kernel
  have hallocate : (allocate 20 h).result = .ok ⟨80⟩ := by decide +kernel
  have hrelease : (tryRelease ⟨48⟩ h).result = .ok () := by decide +kernel
  have hmark : (tryRelease ⟨48⟩ full).result = .ok () := by decide +kernel
  have hbefore : h.blocks = [⟨0, false, 16⟩, ⟨32, true, 16⟩, ⟨64, false, 80⟩] := by decide +kernel
  have hcut : (allocate 20 h).state.blocks.map (·.offset) = [0, 32, 64, 100] := by decide +kernel
  have hafter : (tryRelease ⟨48⟩ h).state.blocks.map (·.offset) = [0] := by decide +kernel
  have hcount : (tryRelease ⟨48⟩ full).state.blockCount = full.blockCount := by decide +kernel
  rcases writes_stay_in_headers hcheck with ⟨hwrites, hreleases⟩
  have hnew := hwrites 20 _ hallocate
  rw [hcut] at hnew
  constructor
  · rcases hreleases _ hrelease with ⟨t, ht, hstate, hagree, hgone, -⟩
    rw [ht] at hafter
    rw [hbefore] at hagree hgone
    rw [hafter] at hgone
    have hhere := hgone ⟨32, true, 16⟩ (by decide) (by decide)
    have hbehind := hgone ⟨64, false, 80⟩ (by decide) (by decide)
    exact ⟨h, hcheck, hnew, t, hstate, hagree, hhere.1, hhere.2, hbehind.2⟩
  · rcases (writes_stay_in_headers hfull).2 _ hmark with ⟨t, ht, hstate, -, -, hidle⟩
    rw [ht] at hcount
    exact ⟨full, hfull, t, hstate, hidle hcount⟩

end Heap

end Freestanding
