import Freestanding.Bytes

/-!
# Regions

A fixed number of bytes that are addressed by offset.

A region is a vector rather than a list because it is large and is read and
written in small pieces at many places. What a piece holds is given as a list
of bytes, as everywhere else.

There are two ways to write. `overwrite` writes what fits and drops the rest,
and is total. `write` insists that everything fits. The facts are stated for
`overwrite`, since `write` is nothing but `overwrite` behind a test.

## Main definitions

* `Region`: So many bytes.
* `Region.zeros`: A region without content.
* `Region.ofBytes`: A region with given content.
* `Region.slice?`: The bytes at an offset, if they are in the region.
* `Region.overwrite`: Writing what fits.
* `Region.write`: Writing what must fit.

## Theorems

* `Region.getElem_overwrite`: Every byte after a write.
* `Region.slice?_eq_some_iff`: When bytes are read, and which.
* `Region.slice?_take`: Reading less.
* `Region.slice?_overwrite_of_disjoint`: Writing elsewhere changes nothing.
* `Region.slice?_overwrite_self`, `Region.slice?_overwrite_front`: Writing and
  reading back.
* `Region.overwrite_self`, `Region.overwrite_front`: Writing what is there
  changes nothing.
-/

namespace Freestanding

/-- A region of `N` bytes. -/
abbrev Region (N : Nat) : Type := Vector UInt8 N

namespace Region

variable {N : Nat}

/-- A region of zero bytes. -/
def zeros (N : Nat) : Region N :=
  Vector.replicate N 0

/-- The region that holds exactly these bytes. -/
def ofBytes (s : Bytes) : Region s.length :=
  ⟨s.toArray, List.size_toArray⟩

/-- The `len` bytes from offset `pos` on, if the region has them. -/
def slice? (r : Region N) (pos len : Nat) : Option Bytes :=
  if pos + len ≤ N then some (r.toArray.extract pos (pos + len)).toList else none

/-- Writes bytes from offset `pos` on. What would be behind the end of the
    region is dropped. -/
def overwrite (r : Region N) : Nat → Bytes → Region N
  | _, [] => r
  | pos, b :: s => overwrite (r.setIfInBounds pos b) (pos + 1) s

/-- Writes bytes from offset `pos` on, all of which have to be in the
    region. -/
def write (r : Region N) (pos : Nat) (s : Bytes) : Checked (Region N) :=
  if pos + s.length ≤ N then .ok (r.overwrite pos s) else .error .outOfRange

/-- Bytes that fit are written. -/
theorem write_eq_ok {r : Region N} {pos : Nat} {s : Bytes} (h : pos + s.length ≤ N) :
    r.write pos s = .ok (r.overwrite pos s) :=
  if_pos h

/-- After a write, the bytes in its range are the ones written and all others
    are as before. -/
theorem getElem_overwrite (r : Region N) (pos : Nat) (s : Bytes) (i : Nat) (hi : i < N) :
    (r.overwrite pos s)[i] = if pos ≤ i then (s[i - pos]?).getD r[i] else r[i] := by
  induction s generalizing r pos with
  | nil => simp [overwrite]
  | cons b s ih =>
      rw [overwrite, ih, Vector.getElem_setIfInBounds hi]
      rcases Nat.lt_trichotomy i pos with h | h | h
      · rw [if_neg (by omega), if_neg (by omega), if_neg (by omega)]
      · subst h
        rw [if_neg (by omega), if_pos rfl, if_pos (Nat.le_refl i), Nat.sub_self]
        rfl
      · rw [if_pos (by omega), if_neg (by omega), if_pos (by omega),
          show i - pos = i - (pos + 1) + 1 by omega, List.getElem?_cons_succ]

/-- Bytes are read exactly if the region has them, and they are the bytes at
    those offsets. -/
theorem slice?_eq_some_iff {r : Region N} {pos len : Nat} {s : Bytes} :
    r.slice? pos len = some s ↔
      pos + len ≤ N ∧ s.length = len ∧ ∀ i, i < len → s[i]? = r[pos + i]? := by
  unfold slice?
  split
  · rename_i h
    have hlen : (r.toArray.extract pos (pos + len)).toList.length = len := by
      simp only [Array.length_toList, Array.size_extract, Vector.size_toArray]
      omega
    have hget : ∀ i, i < len →
        (r.toArray.extract pos (pos + len)).toList[i]? = r[pos + i]? := by
      intro i hi
      rw [Array.getElem?_toList, Array.getElem?_extract, if_pos (by simp; omega)]
      simp
    constructor
    · intro he
      rw [Option.some.injEq] at he
      subst he
      exact ⟨h, hlen, hget⟩
    · rintro ⟨-, hs, hi⟩
      rw [Option.some.injEq]
      apply List.ext_getElem?
      intro i
      rcases Nat.lt_or_ge i len with hlt | hge
      · rw [hget i hlt, hi i hlt]
      · rw [List.getElem?_eq_none (by omega), List.getElem?_eq_none (by omega)]
  · rename_i h
    simp only [reduceCtorEq, false_iff, not_and]
    exact fun hle => absurd hle h

/-- Nothing is read behind the end. -/
theorem slice?_eq_none_iff {r : Region N} {pos len : Nat} :
    r.slice? pos len = none ↔ N < pos + len := by
  unfold slice?
  split <;> simp <;> omega

/-- What is read has the length asked for. -/
theorem length_of_slice? {r : Region N} {pos len : Nat} {s : Bytes}
    (h : r.slice? pos len = some s) : s.length = len :=
  (slice?_eq_some_iff.mp h).2.1

/-- Two regions that agree on a range have the same bytes there. -/
theorem slice?_congr {r t : Region N} {pos len : Nat}
    (h : ∀ i, pos ≤ i → i < pos + len → r[i]? = t[i]?) :
    r.slice? pos len = t.slice? pos len := by
  apply Option.ext
  intro s
  rw [slice?_eq_some_iff, slice?_eq_some_iff]
  constructor
  · rintro ⟨hN, hlen, hi⟩
    exact ⟨hN, hlen, fun i hlt => (hi i hlt).trans (h _ (by omega) (by omega))⟩
  · rintro ⟨hN, hlen, hi⟩
    exact ⟨hN, hlen, fun i hlt => (hi i hlt).trans (h _ (by omega) (by omega)).symm⟩

/-- The front of a range that is read is read as well. -/
theorem slice?_take {r : Region N} {pos len n : Nat} {s : Bytes} (h : r.slice? pos len = some s)
    (hn : n ≤ len) : r.slice? pos n = some (s.take n) := by
  obtain ⟨hN, hlen, hget⟩ := slice?_eq_some_iff.mp h
  rw [slice?_eq_some_iff]
  refine ⟨by omega, by rw [List.length_take]; omega, fun i hi => ?_⟩
  rw [List.getElem?_take_of_lt hi]
  exact hget i (by omega)

/-- A write leaves every byte outside of its range. -/
theorem getElem?_overwrite_of_notMem {r : Region N} {pos : Nat} {s : Bytes} {i : Nat}
    (h : i < pos ∨ pos + s.length ≤ i) : (r.overwrite pos s)[i]? = r[i]? := by
  rcases Nat.lt_or_ge i N with hi | hi
  · rw [Vector.getElem?_eq_getElem hi, Vector.getElem?_eq_getElem hi, getElem_overwrite]
    split
    · rw [List.getElem?_eq_none (by omega), Option.getD_none]
    · rfl
  · rw [Vector.getElem?_eq_none hi, Vector.getElem?_eq_none hi]

/-- A range that a write does not touch reads the same after it. -/
theorem slice?_overwrite_of_disjoint {r : Region N} {pos : Nat} {s : Bytes} {p len : Nat}
    (h : p + len ≤ pos ∨ pos + s.length ≤ p) :
    (r.overwrite pos s).slice? p len = r.slice? p len := by
  apply slice?_congr
  intro i hlo hhi
  exact getElem?_overwrite_of_notMem (by omega)

/-- Bytes that fit are there after they are written. -/
theorem slice?_overwrite_self {r : Region N} {pos : Nat} {s : Bytes} (h : pos + s.length ≤ N) :
    (r.overwrite pos s).slice? pos s.length = some s := by
  rw [slice?_eq_some_iff]
  refine ⟨h, rfl, fun i hi => ?_⟩
  have hN : pos + i < N := by omega
  rw [Vector.getElem?_eq_getElem hN, getElem_overwrite, if_pos (by omega),
    Nat.add_sub_cancel_left, List.getElem?_eq_getElem hi, Option.getD_some]

/-- Writing over the front of a range leaves what is behind it. -/
theorem slice?_overwrite_front {r : Region N} {pos len : Nat} {s t : Bytes}
    (h : r.slice? pos len = some s) (ht : t.length ≤ len) :
    (r.overwrite pos t).slice? pos len = some (t ++ s.drop t.length) := by
  obtain ⟨hN, hlen, hget⟩ := slice?_eq_some_iff.mp h
  rw [slice?_eq_some_iff]
  refine ⟨hN, by simp only [List.length_append, List.length_drop]; omega, fun i hi => ?_⟩
  have hiN : pos + i < N := by omega
  rw [Vector.getElem?_eq_getElem hiN, getElem_overwrite, if_pos (by omega),
    Nat.add_sub_cancel_left]
  rcases Nat.lt_or_ge i t.length with hlt | hge
  · rw [List.getElem?_append_left hlt, List.getElem?_eq_getElem hlt, Option.getD_some]
  · rw [List.getElem?_append_right hge, List.getElem?_drop, List.getElem?_eq_none hge,
      Option.getD_none, Nat.add_sub_cancel' hge, hget i hi, Vector.getElem?_eq_getElem hiN]

/-- Writing the front of a range and the rest of it as it was is writing the
    front. -/
theorem overwrite_front {r : Region N} {pos len : Nat} {s : Bytes} (t : Bytes)
    (h : r.slice? pos len = some s) :
    r.overwrite pos (t ++ s.drop t.length) = r.overwrite pos t := by
  obtain ⟨-, hlen, hget⟩ := slice?_eq_some_iff.mp h
  apply Vector.ext
  intro i hi
  rw [getElem_overwrite, getElem_overwrite]
  split
  · rename_i hle
    rcases Nat.lt_or_ge (i - pos) t.length with hlt | hge
    · rw [List.getElem?_append_left hlt]
    · -- Behind the front, the byte written is the one that is there.
      rw [List.getElem?_append_right hge, List.getElem?_drop, Nat.add_sub_cancel' hge,
        List.getElem?_eq_none hge, Option.getD_none]
      rcases Nat.lt_or_ge (i - pos) len with hin | hout
      · rw [hget _ hin, show pos + (i - pos) = i by omega, Vector.getElem?_eq_getElem hi,
          Option.getD_some]
      · rw [List.getElem?_eq_none (by omega), Option.getD_none]
  · rfl

/-- Writing the bytes that are there changes nothing. -/
theorem overwrite_self {r : Region N} {pos len : Nat} {s : Bytes}
    (h : r.slice? pos len = some s) : r.overwrite pos s = r := by
  obtain ⟨hN, hlen, hget⟩ := slice?_eq_some_iff.mp h
  apply Vector.ext
  intro i hi
  rw [getElem_overwrite]
  split
  · rename_i hle
    rcases Nat.lt_or_ge (i - pos) len with hlt | hge
    · rw [hget _ hlt, show pos + (i - pos) = i by omega, Vector.getElem?_eq_getElem hi,
        Option.getD_some]
    · rw [List.getElem?_eq_none (by omega), Option.getD_none]
  · rfl

end Region

end Freestanding
