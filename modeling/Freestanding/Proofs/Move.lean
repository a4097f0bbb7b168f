import Freestanding.Proofs.Routine.Safety

/-!
# Moving Within a Buffer

A move between two ranges of one buffer is a copy from a buffer that the move
does not change.

Where the ranges overlap, the bytes to be moved are among the bytes that are
written. A copy that goes through the buffer byte by byte reads some of them after
it has written them, unless it goes in the right direction. Here the bytes of the
source are taken out of the buffer before anything is written, so a byte behind
`dest` is one that was there before the move, and the direction in which the ranges
overlap plays no part.

Both ranges are cut to the buffer, and the number of bytes that fits in both is
moved. That number is the least of three, and it is zero if one of the ranges
starts behind the end. Then nothing is written, and it does not matter that the
ranges are not in the buffer at all. If it is not zero, both ranges are in the
buffer with all of their bytes.

## Main definitions

* `Memory.moved`: What a move leaves.

## Theorems

* `Memory.memmove_eq_moved`: A move within bounds.
* `Memory.moved_self`, `Memory.moved_zero`: Moves that change nothing.
* `Memory.moved_getElem?`: What a move leaves at each place.
* `Memory.onTail_memcpy_eq_moved`: A move as a copy.
* `Memory.move_copies_saved`: What a move does.
-/

namespace Freestanding

namespace Memory

/-- The buffer with `m` bytes from `src` on moved to `dest`. -/
def moved (s : Bytes) (dest src m : Nat) : Bytes :=
  s.take dest ++ (s.drop src).take m ++ s.drop (dest + m)

variable {s : Bytes} {dest src m : Nat}

/-- The number of bytes that fits in both ranges is moved. -/
theorem memmove_eq_moved (hs : s.length < Word.limit) (dest src n : Nat) :
    let m := min n (min (s.length - dest) (s.length - src))
    memmove s dest src n = .ok (m, moved s dest src m) :=
  memmove_eq dest src n hs

/-- Moving bytes to where they are changes nothing. -/
theorem moved_self (s : Bytes) (dest m : Nat) : moved s dest dest m = s := by
  rw [moved, ← List.drop_drop, List.append_assoc, List.take_append_drop, List.take_append_drop]

/-- Moving no bytes changes nothing. -/
theorem moved_zero (s : Bytes) (dest src : Nat) : moved s dest src 0 = s := by
  rw [moved, List.take_zero, List.append_nil, Nat.add_zero, List.take_append_drop]

/-- A move between two ranges of the buffer leaves in the first one what was in the
    second one before, and keeps all other bytes. -/
theorem moved_getElem? (hdest : dest + m ≤ s.length) (hsrc : src + m ≤ s.length) (i : Nat) :
    (moved s dest src m)[i]? =
      if dest ≤ i ∧ i < dest + m then s[src + (i - dest)]? else s[i]? := by
  have hfront : (s.take dest).length = dest := List.length_take_of_le (by omega)
  have hrange : ((s.drop src).take m).length = m := by
    rw [List.length_take, List.length_drop]
    omega
  rw [moved, List.append_assoc]
  -- The three parts of what is left are the places before, in and behind the range.
  by_cases hlo : dest ≤ i
  · rw [List.getElem?_append_right (by omega), hfront]
    by_cases hhi : i < dest + m
    · rw [if_pos ⟨hlo, hhi⟩, List.getElem?_append_left (by omega),
        List.getElem?_take_of_lt (by omega), List.getElem?_drop]
    · have hplace : dest + m + (i - dest - m) = i := by omega
      rw [if_neg fun h => hhi h.2, List.getElem?_append_right (by omega), hrange,
        List.getElem?_drop, hplace]
  · rw [if_neg fun h => hlo h.1, List.getElem?_append_left (by omega),
      List.getElem?_take_of_lt (by omega)]

/-- A move is a copy of bytes that were taken out of the buffer before it to the
    part of the buffer that starts at `dest`. How many of them are to be copied
    does not matter if it is all of them or more. -/
theorem onTail_memcpy_eq_moved {k : Nat} (hdest : m ≤ s.length - dest)
    (hsrc : m ≤ s.length - src) (hk : m ≤ k) :
    s.onTail (min dest s.length) (memcpy · ((s.drop src).take m) k) =
      .ok (m, moved s dest src m) := by
  have hcount :
      min k (min (s.drop (min dest s.length)).length ((s.drop src).take m).length) = m := by
    simp only [List.length_take, List.length_drop]
    omega
  have hfront : s.take (min dest s.length) = s.take dest := by
    rw [List.take_eq_take_iff]
    omega
  -- The part behind `dest` has no bytes if `dest` is behind the end, and then
  -- no bytes are copied.
  have hback : s.drop (min dest s.length + m) = s.drop (dest + m) := by
    rw [List.drop_eq_drop_iff]
    omega
  rw [Bytes.onTail_eq (Nat.min_le_right _ _), memcpy_eq]
  dsimp only
  rw [hcount, List.take_take, Nat.min_self, List.drop_drop, hback, hfront, moved, List.append_assoc]
  rfl

/-- A move answers the number of bytes that there are to be moved, which is cut off
    where either range leaves the buffer. At the places it writes there are the
    bytes that were at the places it reads before it, and all other bytes are
    as they were. A range that starts at the end or behind it has no bytes. What a
    move leaves is what copying the bytes from a second buffer leaves, and moving
    bytes to where they are changes nothing. -/
theorem move_copies_saved {s : Bytes} (hs : s.length < Word.limit) (dest src n : Nat) :
    let m := min n (min (s.length - dest) (s.length - src))
    ∃ t, memmove s dest src n = .ok (m, t) ∧ t.length = s.length ∧
      (∀ i, dest ≤ i → i < dest + m →
        src + (i - dest) < s.length ∧ t[i]? = s[src + (i - dest)]?) ∧
      (∀ i, i < dest ∨ dest + m ≤ i → t[i]? = s[i]?) ∧
      (s.length ≤ dest ∨ s.length ≤ src → m = 0 ∧ t = s) ∧
      (∀ k, m ≤ k →
        s.onTail (min dest s.length) (memcpy · ((s.drop src).take m) k) = .ok (m, t)) ∧
      (dest = src → t = s) := by
  dsimp only
  have hmove := memmove_eq_moved hs dest src n
  have hlength : (moved s dest src _).length = s.length := length_moved s dest src n
  dsimp only at hmove
  generalize hm : min n (min (s.length - dest) (s.length - src)) = m at hmove hlength ⊢
  have hnone : s.length ≤ dest ∨ s.length ≤ src → m = 0 := by omega
  refine ⟨moved s dest src m, hmove, hlength, fun i hlo hhi => ⟨by omega, ?_⟩, fun i hi => ?_,
    fun hout => ⟨hnone hout, ?_⟩, fun k hk => onTail_memcpy_eq_moved (by omega) (by omega) hk, ?_⟩
  · rw [moved_getElem? (by omega) (by omega), if_pos ⟨hlo, hhi⟩]
  · rcases Nat.eq_zero_or_pos m with rfl | hpos
    · rw [moved_zero]
    · rw [moved_getElem? (by omega) (by omega), if_neg (by omega)]
  · rw [hnone hout, moved_zero]
  · rintro rfl
    exact moved_self s dest m

/-- Four bytes that are moved by two places, onto two of themselves. -/
theorem moved_onto_itself :
    ∃ t, memmove [65, 66, 67, 68, 69, 70] 2 0 9 = .ok (4, t) ∧ t[4]? = some 67 ∧
      t[1]? = some 66 ∧
      Bytes.onTail [65, 66, 67, 68, 69, 70] 2 (memcpy · [65, 66, 67, 68] 9) = .ok (4, t) := by
  have hs : ([65, 66, 67, 68, 69, 70] : Bytes).length < Word.limit := by decide
  rcases move_copies_saved hs 2 0 9 with ⟨t, hmove, -, hrange, hothers, -, hcopy, -⟩
  exact ⟨t, hmove, (hrange 4 (by decide) (by decide)).2, hothers 1 (by decide), hcopy 9 (by decide)⟩

end Memory

end Freestanding
