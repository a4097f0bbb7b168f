import Freestanding.Bytes
import Freestanding.Word

/-!
# Memory Routines

Searching, comparing, setting and copying plain bytes.

A zero byte means nothing here; the routines for strings that end at one are
in `CString`. Lengths come from the buffers. Where a routine also takes a
count, the count is an upper bound, and what happens is bounded by it and by
every buffer involved, so no count is too large.

What is wanted of a search is always the first index with a property, of a
byte or of a run of bytes. An empty run is found before it is looked for, since
a buffer has no runs to compare with it. A routine that writes returns the
buffer it leaves beside its answer. The copies take their ranges from the
buffers through `Checked`, even though the clamping before it makes every range
fit: that it does is a fact about the clamping, and it should be possible to
state it. The same goes for the index that a copy counts on the way, which is
at most the length of a buffer.

## Main definitions

* `memchr`, `memrchr`: The first and the last index of a byte.
* `memcmp`: The order of two buffers by their first bytes.
* `memmem`: The first index of a run of bytes.
* `memset`: One byte everywhere.
* `memcpy`: A copy from one buffer to another.
* `memccpy`: A copy that stops behind a given byte.
* `memmove`: A copy within one buffer, whichever way the ranges overlap.

## Theorems

* `memmem_eq`: The first index of a run, without the search for it.
* `memchr_lt`, `memrchr_lt`, `memmem_le`: Where an index can be.
* `memcpy_eq`, `memccpy_eq`, `memmove_eq`: What a copy leaves.
* `length_memset`: Setting keeps the length.
-/

namespace Freestanding

namespace Memory

/-- The index of the first `c`. -/
def memchr (s : Bytes) (c : UInt8) : Option Nat :=
  s.findIdx? (· == c)

/-- The index of the last `c`. -/
def memrchr : Bytes → UInt8 → Option Nat
  | [], _ => none
  | b :: s, c => match memrchr s c with
    | some i => some (i + 1)
    | none => if b = c then some 0 else none

/-- The order of the first bytes that differ, among the first `n` of both. -/
def memcmp : Bytes → Bytes → Nat → Ordering
  | a :: s, b :: t, n + 1 => if a = b then memcmp s t n else compare a b
  | _, _, _ => .eq

/-- The first index at which `needle` occurs. An empty one occurs at once. -/
def memmem (s needle : Bytes) : Checked (Option Nat) := do
  if needle.isEmpty then
    return some 0
  else
    return (← s.windows needle.length).findIdx? (· == needle)

/-- The buffer with every byte set to `c`. -/
def memset (s : Bytes) (c : UInt8) : Bytes :=
  s.map fun _ => c

/-- Copies `n` bytes, or as many as both buffers have, to the front of `dest`.
    The answer is the number of bytes copied. -/
def memcpy (dest src : Bytes) (n : Nat) : Checked (Nat × Bytes) := do
  let n := min n (min dest.length src.length)
  let dest ← dest.replace 0 n (← src.slice 0 n)
  return (n, dest)

/-- Copies the rest of a buffer to the rest of another one up to and including
    the first `c`, where `index` is the number of bytes copied before. -/
def memccpyFrom (index : Nat) : Bytes → Bytes → UInt8 → Checked (Option Nat × Bytes)
  | _ :: dest, b :: src, c => do
    let behind ← Word.add index 1
    if b = c then
      return (some behind, b :: dest)
    else
      let (stop, dest) ← memccpyFrom behind dest src c
      return (stop, b :: dest)
  | dest, _, _ => return (none, dest)

/-- Copies `src` to the front of `dest` up to and including the first `c`.
    The answer is the index behind the copied `c`, if there was one among the
    bytes that `dest` had room for. -/
def memccpy (dest src : Bytes) (c : UInt8) : Checked (Option Nat × Bytes) :=
  memccpyFrom 0 dest src c

/-- Moves `n` bytes, or as many as there are behind both indices, from index
    `src` to index `dest` of one buffer. The bytes written are the ones that
    were there before the move. The answer is the number of bytes moved. -/
def memmove (s : Bytes) (dest src n : Nat) : Checked (Nat × Bytes) := do
  let n := min n (min (s.length - dest) (s.length - src))
  if n = 0 then
    return (0, s)
  else
    let moved ← s.slice src (← Word.add src n)
    let s ← s.replace dest (← Word.add dest n) moved
    return (n, s)

theorem memchr_lt {s : Bytes} {c : UInt8} {i : Nat} (h : memchr s c = some i) : i < s.length :=
  (List.findIdx?_eq_some_iff_getElem.mp h).1

theorem memrchr_lt {s : Bytes} {c : UInt8} {i : Nat} (h : memrchr s c = some i) :
    i < s.length := by
  induction s generalizing i with
  | nil => cases h
  | cons b s ih =>
      unfold memrchr at h
      cases hlast : memrchr s c with
      | some j =>
          simp only [hlast, Option.some.injEq] at h
          rw [List.length_cons, ← h]
          exact Nat.succ_lt_succ (ih hlast)
      | none =>
          simp only [hlast, Option.ite_none_right_eq_some, Option.some.injEq] at h
          rw [← h.2]
          exact Nat.succ_pos _

/-- What a copy leaves: the bytes copied, then the rest of the buffer. -/
theorem memcpy_eq (dest src : Bytes) (n : Nat) :
    memcpy dest src n =
      let m := min n (min dest.length src.length)
      .ok (m, src.take m ++ dest.drop m) := by
  have hd : min n (min dest.length src.length) ≤ dest.length := by omega
  have hs : min n (min dest.length src.length) ≤ src.length := by omega
  simp only [memcpy, Bytes.slice_zero hs, Checked.ok_bind,
    Bytes.replace_zero hd (List.length_take_of_le hs), Checked.pure_eq_ok]

/-- A run of bytes is found where it first occurs, and an empty one at the
    front. -/
theorem memmem_eq (s needle : Bytes) :
    memmem s needle = .ok (if needle = [] then some 0 else
      ((List.range (s.length + 1 - needle.length)).map
        fun i => (s.drop i).take needle.length).findIdx? (· == needle)) := by
  unfold memmem
  by_cases hneedle : needle = []
  · rw [if_pos hneedle, hneedle]
    rfl
  · have hlength : 0 < needle.length := List.length_pos_iff.mpr hneedle
    rw [if_neg hneedle, if_neg (by simpa using hneedle), Bytes.windows_eq_ok hlength]
    rfl

/-- A run of bytes is found within its buffer, and an empty one at its end at
    the latest. -/
theorem memmem_le {s needle : Bytes} {i : Nat} (h : memmem s needle = .ok (some i)) :
    i ≤ s.length := by
  rw [memmem_eq] at h
  by_cases hneedle : needle = []
  · rw [if_pos hneedle] at h
    cases h
    exact Nat.zero_le _
  · have hlength : 0 < needle.length := List.length_pos_iff.mpr hneedle
    rw [if_neg hneedle] at h
    rcases List.findIdx?_eq_some_iff_getElem.mp (Except.ok.inj h) with ⟨hi, -⟩
    rw [List.length_map, List.length_range] at hi
    omega

/-- What is left of a copy up to a byte leaves what is left of the bytes that
    are copied. -/
theorem memccpyFrom_eq {index : Nat} {dest src : Bytes} (c : UInt8)
    (h : index + dest.length < Word.limit) :
    memccpyFrom index dest src c =
      let stop := (memchr (src.take dest.length) c).map (· + 1)
      let m := stop.getD (min dest.length src.length)
      .ok (stop.map (index + ·), src.take m ++ dest.drop m) := by
  induction dest generalizing index src with
  | nil => cases src <;> rfl
  | cons d dest ih =>
      cases src with
      | nil => rfl
      | cons b src =>
          rw [List.length_cons] at h
          rw [memccpyFrom, Word.add_eq_ok (by omega), Checked.ok_bind, memchr,
            List.length_cons, List.take_succ_cons, List.findIdx?_cons]
          by_cases hb : b = c
          · simp [hb]
          · rw [if_neg hb, ih (by omega), if_neg (by simpa using hb)]
            -- The rest is copied as it is alone, one place further on.
            cases hfound : (src.take dest.length).findIdx? (· == c) with
            | none => simp [memchr, hfound]
            | some i => simp [memchr, hfound, Nat.add_comm, Nat.add_left_comm]

/-- A copy up to a byte leaves the bytes up to there, or as many as both
    buffers have, then the rest of the buffer. -/
theorem memccpy_eq {dest : Bytes} (src : Bytes) (c : UInt8) (h : dest.length < Word.limit) :
    memccpy dest src c =
      let stop := (memchr (src.take dest.length) c).map (· + 1)
      let m := stop.getD (min dest.length src.length)
      .ok (stop, src.take m ++ dest.drop m) := by
  rw [memccpy, memccpyFrom_eq c (by omega)]
  simp only [Nat.zero_add, Option.map_id']

/-- A move leaves the bytes that were there before it, as many as there are
    behind both indices. -/
theorem memmove_eq {s : Bytes} (dest src n : Nat) (h : s.length < Word.limit) :
    memmove s dest src n =
      let m := min n (min (s.length - dest) (s.length - src))
      .ok (m, s.take dest ++ (s.drop src).take m ++ s.drop (dest + m)) := by
  unfold memmove
  dsimp only
  generalize hm : min n (min (s.length - dest) (s.length - src)) = m
  by_cases hnone : m = 0
  · rw [if_pos hnone, hnone, List.take_zero, List.append_nil, Nat.add_zero,
      List.take_append_drop]
    rfl
  · -- Behind both indices, there are as many bytes as are moved.
    have hsrc : src + m ≤ s.length := by omega
    have hdest : dest + m ≤ s.length := by omega
    have hmoved : ((s.take (src + m)).drop src).length = dest + m - dest := by
      rw [List.length_drop, List.length_take]
      omega
    rw [if_neg hnone, Word.add_eq_ok (by omega), Checked.ok_bind,
      Bytes.slice_eq_ok (Nat.le_add_right _ _) hsrc, Checked.ok_bind, Word.add_eq_ok (by omega),
      Checked.ok_bind, Bytes.replace_eq_ok (Nat.le_add_right _ _) hdest hmoved, Checked.ok_bind,
      List.drop_take, Nat.add_sub_cancel_left]
    rfl

/-- Setting every byte keeps the length. -/
theorem length_memset (s : Bytes) (c : UInt8) : (memset s c).length = s.length :=
  List.length_map _

end Memory

end Freestanding
