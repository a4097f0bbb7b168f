import Freestanding.Proofs.Heap.Limits

/-!
# Copies of Strings

What a copy of a string is, and what it leaves behind.

A copy is an allocation and a write through the handle that was handed out. The
handle is looked up again in between, and on a heap in order the payload that
it stands for is the one that was asked for: a block that was cut has exactly
as many bytes, and a block that was too small to be cut has a few more. Either
way there is room for the zero behind the characters, so the write happens and
stays in the payload. It touches no header, and the blocks are those that the
allocation left.

That leaves nothing for a copy to fail at but the allocation, and an allocation
that fails leaves the heap as it was. No block is taken for a string that was
not copied.

Where the string ends makes no difference. It may be at a zero, at the end of
the buffer or after a number of characters, and the copy has a zero there each
time.

## Theorems

* `Heap.Holds.duplicate_cases`: A copy beside the allocation for it.
* `Heap.strndup_eq_strdup`: A part of a string is the string of a part.
* `Heap.strdup_faithful`: What a copy of a string is.
-/

namespace Freestanding

namespace Heap

open Layout Change

variable {N : Nat}

/-- A copy fails as the allocation for it does. Otherwise it leaves what the
    allocation leaves, but for the characters and the zero at the front of the
    payload that was handed out. -/
theorem Holds.duplicate_cases {h : Heap N} {l : Layout} (hl : h.Holds l) {s : Bytes}
    (hs : s.length + 1 < Word.limit) :
    ((Heap.allocate (s.length + 1) h).result = .error (.refused (.exhausted (s.length + 1))) ∧
      (Heap.allocate (s.length + 1) h).state = h ∧
      (Heap.duplicate s h).result = .error (.refused (.exhausted (s.length + 1))) ∧
      (Heap.duplicate s h).state = h) ∨
      ∃ p t rest, (Heap.allocate (s.length + 1) h).result = .ok p ∧
        (Heap.allocate (s.length + 1) h).state = t ∧
        (Heap.duplicate s h).result = .ok p ∧
        (Heap.duplicate s h).state = t.store p (s ++ [0]) ∧
        (t.store p (s ++ [0])).payload? p = some (s ++ [0] ++ rest) ∧
        (t.store p (s ++ [0])).blocks = t.blocks := by
  rcases ha : Heap.allocate (s.length + 1) h with ⟨e | p, t, log⟩
  · rcases hl.of_allocate_error ha with ⟨rfl, rfl⟩
    rw [duplicate_of_error hs ha]
    exact Or.inl ⟨rfl, rfl, rfl, rfl⟩
  · rcases hl.of_allocate ha with ⟨m, u, hm, -, hu, hlength, -⟩
    have hcopy : (s ++ [0]).length = s.length + 1 := by
      rw [List.length_append, List.length_singleton]
    have hfits : (s ++ [0]).length ≤ u.length := by omega
    -- The bytes behind the copy are written as they are, so they need not be.
    have hfront : t.store p (s ++ 0 :: u.drop (s.length + 1)) = t.store p (s ++ [0]) := by
      rcases Option.bind_eq_some_iff.mp hu with ⟨b, -, hslice⟩
      have hsame := Region.overwrite_front (s ++ [0]) hslice
      rw [hcopy, List.append_assoc] at hsame
      unfold Heap.store
      exact congrArg (fun region => { t with region }) hsame
    have hblocks := (hm.store hu hfits).blocks_eq.trans hm.blocks_eq.symm
    refine Or.inr ⟨p, t, _, rfl, rfl, ?_, ?_, hm.payload?_store hu hfits, hblocks⟩
    · rw [duplicate_of_ok hs ha hu hlength]
    · rw [duplicate_of_ok hs ha hu hlength, hfront]

/-- Copying at most so many characters is copying the string in as many bytes
    of the buffer. -/
theorem strndup_eq_strdup (s : Bytes) (n : Nat) :
    (strndup s n : HeapM N Handle) = strdup (s.take (min n s.length)) := by
  have hle := CString.length_chars_le s
  have htake : (CString.chars s).take (min n s.length) = (CString.chars s).take n := by
    rcases Nat.le_total n s.length with hn | hn
    · rw [Nat.min_eq_left hn]
    · rw [Nat.min_eq_right hn, List.take_of_length_le hle, List.take_of_length_le (by omega)]
  rw [strndup_eq, strdup_eq, CString.chars_take, htake]

/-- On a heap in order, a copy of a string answers what an allocation of one
    byte more than the string answers, and leaves the same blocks. The payload
    starts with the characters and a zero, so it holds the same string, and
    apart from those bytes the heap is the one that the allocation leaves. A
    copy that fails does so because there is no room, and leaves the heap as it
    is. -/
theorem strdup_faithful {h : Heap N} (hh : h.check = .ok ()) {s : Bytes}
    (hs : s.length + 1 < Word.limit) :
    ((strdup s h).result = (allocate (CString.strlen s + 1) h).result ∧
      (strdup s h).state.blocks = (allocate (CString.strlen s + 1) h).state.blocks) ∧
      (∀ p, (strdup s h).result = .ok p →
        (∃ u, (strdup s h).state.payload? p = some u ∧ s.take (CString.strlen s) ++ [0] <+: u ∧
          CString.strlen u = CString.strlen s ∧ CString.strcmp u s = .ok .eq) ∧
        (strdup s h).state.first = (allocate (CString.strlen s + 1) h).state.first ∧
        (strdup s h).state.last = (allocate (CString.strlen s + 1) h).state.last ∧
        ∀ i, i < p.offset ∨ p.offset + (CString.strlen s + 1) ≤ i →
          (strdup s h).state.region[i]? =
            (allocate (CString.strlen s + 1) h).state.region[i]?) ∧
      (∀ e, (strdup s h).result = .error e →
        e = .refused (.exhausted (CString.strlen s + 1)) ∧ (strdup s h).state = h) ∧
      ∀ n, strndup s n h = strdup (s.take (min n s.length)) h := by
  rcases (check_eq_ok_iff h).mp hh with ⟨l, hl⟩
  have hle := CString.length_chars_le s
  have hcases := hl.duplicate_cases (s := CString.chars s) (by omega)
  rw [CString.length_chars] at hcases
  rw [strdup_eq]
  rcases hcases with ⟨ha, ht, hr, hu⟩ | ⟨p, t, rest, ha, ht, hr, hu, hpayload, hblocks⟩
  · rw [hr, hu, ha, ht]
    refine ⟨⟨rfl, rfl⟩, fun p hp => ?_, fun e he => ?_, fun n => ?_⟩
    · cases hp
    · cases he
      exact ⟨rfl, rfl⟩
    · exact congrFun (strndup_eq_strdup s n) h
  · rw [hr, hu, ha, ht]
    refine ⟨⟨rfl, hblocks⟩, fun q hq => ?_, fun e he => ?_, fun n => ?_⟩
    · cases hq
      have hchars : CString.chars (CString.chars s ++ [0] ++ rest) = CString.chars s := by
        rw [List.append_assoc]
        exact CString.chars_append_zero (CString.zero_notMem_chars s) rest
      refine ⟨⟨_, hpayload, ?_, ?_, CString.strcmp_of_chars_eq hchars⟩, first_store _ _ _,
        last_store _ _ _, fun i hi => ?_⟩
      · rw [CString.take_strlen]
        exact List.prefix_append _ _
      · rw [← CString.length_chars, hchars, CString.length_chars]
      · apply Region.getElem?_overwrite_of_notMem
        rw [List.length_append, CString.length_chars, List.length_singleton]
        exact hi
    · cases he
    · exact congrFun (strndup_eq_strdup s n) h

/-- Two characters in front of a zero are copied into a fresh heap, and a
    string of fifty does not fit into it. -/
theorem strdup_before_zero :
    ∃ h : Heap 64, h.check = .ok () ∧ (strdup [104, 105, 0, 7] h).result = .ok ⟨16⟩ ∧
      (∃ u, (strdup [104, 105, 0, 7] h).state.payload? ⟨16⟩ = some u ∧ [104, 105, 0] <+: u ∧
        CString.strlen u = 2) ∧
      (strdup [104, 105, 0, 7] h).state.blocks = (allocate 3 h).state.blocks ∧
      (strdup (List.replicate 50 104) h).result = .error (.refused (.exhausted 51)) ∧
      (strdup (List.replicate 50 104) h).state = h := by
  have hstart := (holds_initial (N := 64) (by decide) (by decide)).check
  rcases strdup_faithful hstart (s := [104, 105, 0, 7]) (by decide) with ⟨⟨-, hblocks⟩, hcopy, -, -⟩
  rcases strdup_faithful hstart (s := List.replicate 50 104) (by decide) with ⟨-, -, hfail, -⟩
  have hanswer : (strdup [104, 105, 0, 7]
      (Heap.initial (N := 64) (by decide) (by decide))).result = .ok ⟨16⟩ := by
    decide +kernel
  have hfull : (strdup (List.replicate 50 104)
      (Heap.initial (N := 64) (by decide) (by decide))).result =
        .error (.refused (.exhausted 51)) := by
    decide +kernel
  rcases hcopy _ hanswer with ⟨⟨u, hu, hfront, hlength, -⟩, -⟩
  exact ⟨_, hstart, hanswer, ⟨u, hu, hfront, hlength⟩, hblocks, hfull, (hfail _ hfull).2⟩

end Heap

end Freestanding
