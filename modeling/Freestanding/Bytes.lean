import Freestanding.Fault

/-!
# Byte Buffers

A buffer is the list of its bytes, and the ways of reading and changing a part
of one.

A buffer never changes its length. Every write here replaces a range by as
many bytes as it had, so the length of the result is the length of the
argument, and that is the one fact the routines built on top need about all of
them. The ranges are half open: `lo` is in, `hi` is out.

The reads and writes with a range in them are `Checked`. The range has to lie
in the buffer, in order, and what is copied into it has to be as long as the
range is.

## Main definitions

* `Bytes`: A buffer.
* `Bytes.slice`: The bytes of a range.
* `Bytes.windows`: All runs of so many bytes.
* `Bytes.replace`: Copying bytes onto a range.
* `Bytes.fill`: One byte written all over a range.
* `Bytes.put`: One byte written at an index.
* `Bytes.overlay`: Bytes written as far as there is room.
* `Bytes.onTail`: A change of everything from an index on.

## Theorems

* `Bytes.slice_eq_ok`, `Bytes.replace_eq_ok`, `Bytes.fill_eq_ok`,
  `Bytes.put_eq_ok`, `Bytes.onTail_eq`: The value within range.
* `Bytes.windows_eq_ok`: The runs of at least one byte.
* `Bytes.slice_zero`, `Bytes.slice_length`, `Bytes.replace_zero`: The same for
  the front and the end of a buffer.
* `Bytes.length_overlay`: Writing as far as there is room keeps the length.
-/

namespace Freestanding

/-- A buffer of bytes, first byte first. -/
abbrev Bytes : Type := List UInt8

namespace Bytes

/-- The bytes from `lo` up to `hi`. -/
def slice (s : Bytes) (lo hi : Nat) : Checked Bytes :=
  if lo ≤ hi ∧ hi ≤ s.length then .ok ((s.take hi).drop lo) else .error .outOfRange

/-- The runs of `n` bytes, one from each index that has as many behind it. A
    run has at least one byte. -/
def windows (s : Bytes) (n : Nat) : Checked (List Bytes) :=
  if 0 < n then .ok ((List.range (s.length + 1 - n)).map fun i => (s.drop i).take n)
  else .error .emptyRun

/-- The buffer with the bytes from `lo` up to `hi` replaced by `src`, which
    has to be as long as that range. -/
def replace (s : Bytes) (lo hi : Nat) (src : Bytes) : Checked Bytes :=
  if lo ≤ hi ∧ hi ≤ s.length then
    if src.length = hi - lo then .ok (s.take lo ++ src ++ s.drop hi)
    else .error .lengthMismatch
  else .error .outOfRange

/-- The buffer with every byte from `lo` up to `hi` set to `c`. -/
def fill (s : Bytes) (lo hi : Nat) (c : UInt8) : Checked Bytes :=
  if lo ≤ hi ∧ hi ≤ s.length then
    .ok (s.take lo ++ List.replicate (hi - lo) c ++ s.drop hi)
  else .error .outOfRange

/-- The buffer with the byte at `pos` set to `c`. -/
def put (s : Bytes) (pos : Nat) (c : UInt8) : Checked Bytes :=
  if pos < s.length then .ok (s.set pos c) else .error .outOfRange

/-- The buffer with bytes written from `pos` on, as many as there is room
    for. -/
def overlay (s : Bytes) (pos : Nat) (t : Bytes) : Bytes :=
  s.take pos ++ t.take (s.length - pos) ++ s.drop (pos + t.length)

/-- Runs a change on the bytes from `pos` on and puts the result back behind
    the bytes before `pos`. -/
def onTail {α : Type} (s : Bytes) (pos : Nat) (change : Bytes → Checked (α × Bytes)) :
    Checked (α × Bytes) := do
  let tail ← s.slice pos s.length
  let (answer, tail) ← change tail
  return (answer, s.take pos ++ tail)

/-- A range in order and within the buffer is read. -/
theorem slice_eq_ok {s : Bytes} {lo hi : Nat} (h : lo ≤ hi) (hs : hi ≤ s.length) :
    s.slice lo hi = .ok ((s.take hi).drop lo) :=
  if_pos ⟨h, hs⟩

/-- The first bytes of a buffer. -/
theorem slice_zero {s : Bytes} {n : Nat} (h : n ≤ s.length) :
    s.slice 0 n = .ok (s.take n) := by
  rw [slice_eq_ok (Nat.zero_le n) h, List.drop_zero]

/-- The last bytes of a buffer. -/
theorem slice_length {s : Bytes} {n : Nat} (h : n ≤ s.length) :
    s.slice n s.length = .ok (s.drop n) := by
  rw [slice_eq_ok h (Nat.le_refl _), List.take_length]

/-- Runs of at least one byte are found. -/
theorem windows_eq_ok {s : Bytes} {n : Nat} (h : 0 < n) :
    s.windows n = .ok ((List.range (s.length + 1 - n)).map fun i => (s.drop i).take n) :=
  if_pos h

/-- Bytes of the right number are copied onto a range within the buffer. -/
theorem replace_eq_ok {s src : Bytes} {lo hi : Nat} (h : lo ≤ hi) (hs : hi ≤ s.length)
    (hsrc : src.length = hi - lo) :
    s.replace lo hi src = .ok (s.take lo ++ src ++ s.drop hi) := by
  rw [replace, if_pos ⟨h, hs⟩, if_pos hsrc]

/-- Bytes are copied onto the front of a buffer that has as many. -/
theorem replace_zero {s src : Bytes} {n : Nat} (h : n ≤ s.length) (hsrc : src.length = n) :
    s.replace 0 n src = .ok (src ++ s.drop n) := by
  rw [replace_eq_ok (Nat.zero_le n) h hsrc, List.take_zero, List.nil_append]

/-- A range within the buffer is filled. -/
theorem fill_eq_ok {s : Bytes} {lo hi : Nat} (c : UInt8) (h : lo ≤ hi) (hs : hi ≤ s.length) :
    s.fill lo hi c = .ok (s.take lo ++ List.replicate (hi - lo) c ++ s.drop hi) :=
  if_pos ⟨h, hs⟩

/-- An index within the buffer is written. -/
theorem put_eq_ok {s : Bytes} {pos : Nat} (c : UInt8) (h : pos < s.length) :
    s.put pos c = .ok (s.set pos c) :=
  if_pos h

/-- From an index within the buffer on, the change sees exactly the bytes
    that are there. -/
theorem onTail_eq {α : Type} {s : Bytes} {pos : Nat} (h : pos ≤ s.length)
    (change : Bytes → Checked (α × Bytes)) :
    s.onTail pos change =
      (change (s.drop pos)).map fun r => (r.1, s.take pos ++ r.2) := by
  rw [onTail, slice_length h, Checked.ok_bind]
  cases change (s.drop pos) <;> rfl

/-- Writing as far as there is room keeps the length. -/
theorem length_overlay (s : Bytes) (pos : Nat) (t : Bytes) :
    (s.overlay pos t).length = s.length := by
  simp only [overlay, List.length_append, List.length_take, List.length_drop]
  omega

end Bytes

end Freestanding
