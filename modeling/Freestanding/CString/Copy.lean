import Freestanding.CString.Basic

/-!
# Copying Strings

Writing a string into a buffer, from its front or behind the string that is
already there.

The routines differ in what they do where the room runs out. The plain copies
stop when the buffer is full and then leave it without a final zero. The
counted ones fill the first bytes of the buffer, with zeros behind the string,
and write no final zero when the string is as long as the count. The ones with
an `l` in their name always end the string, one character earlier if they must,
and answer the length they would have needed, which is how a caller learns
that something was cut off.

Appending is copying into the part of the buffer that starts where its string
ends, and that is how it is written: the copy runs on that part with
`Bytes.onTail` and knows nothing of what is before it.

What all of them leave has one form, `withText`: some characters at the front,
a zero behind them where there is room for one, and the rest as it was. The
routines differ only in how many characters that is, and the theorems say how
many.

## Main definitions

* `stpcpy`, `strcpy`: Copying until the buffer is full.
* `stpncpy`, `strncpy`: Filling the first bytes of the buffer.
* `strlcpy`: Copying with a final zero in any case.
* `strcat`, `strncat`, `strlcat`: The same behind the string in the buffer.
* `withText`: Characters at the front of a buffer.

## Theorems

* `stpcpy_eq`, `stpncpy_eq`, `strlcpy_eq`: What a copy leaves.
* `strcat_eq`, `strncat_eq`, `strlcat_eq`: What appending leaves.
* `length_withText`: Text that fits keeps the length.
* `withText_of_lt`, `withText_of_length_eq`: Text with and without room behind
  it.
-/

namespace Freestanding

namespace CString

/-- Copies the string in `src` and a final zero to the front of `dest`, as far
    as there is room. The answer is the index behind the last character
    copied. -/
def stpcpy (dest src : Bytes) : Checked (Nat × Bytes) := do
  let src ← content src
  let n := min src.length dest.length
  let dest ← dest.replace 0 n (← src.slice 0 n)
  return (n, dest.set n 0)

/-- Copies the string in `src` and a final zero to the front of `dest`, as far
    as there is room. -/
def strcpy (dest src : Bytes) : Checked Bytes := do
  let (_, dest) ← stpcpy dest src
  return dest

/-- Writes the string in `src`, then zeros, to the first `n` bytes of `dest`,
    or to all of `dest` if it is shorter. The answer is the index of the first
    zero written, or the number of bytes if there is none. -/
def stpncpy (dest src : Bytes) (n : Nat) : Checked (Nat × Bytes) := do
  let n := min n dest.length
  let len ← strnlen src n
  let dest ← dest.replace 0 len (← src.slice 0 len)
  let dest ← dest.fill len n 0
  return (len, dest)

/-- Writes the string in `src`, then zeros, to the first `n` bytes of `dest`,
    or to all of `dest` if it is shorter. -/
def strncpy (dest src : Bytes) (n : Nat) : Checked Bytes := do
  let (_, dest) ← stpncpy dest src n
  return dest

/-- Copies as much of the string in `src` to the front of `dest` as leaves
    room for a final zero, and writes that zero. A buffer without bytes stays
    as it is. The answer is the length of the string in `src`. -/
def strlcpy (dest src : Bytes) : Checked (Nat × Bytes) := do
  let src ← content src
  if dest.isEmpty then
    return (src.length, dest)
  else
    let n := min src.length (dest.length - 1)
    let dest ← dest.replace 0 n (← src.slice 0 n)
    let dest ← dest.put n 0
    return (src.length, dest)

/-- Appends the string in `src` to the one in `dest`, as far as there is
    room. -/
def strcat (dest src : Bytes) : Checked Bytes := do
  let (_, dest) ← dest.onTail (strlen dest) (stpcpy · src)
  return dest

/-- Appends at most `n` characters of the string in `src` to the one in `dest`,
    as far as there is room, and a final zero if room is left. -/
def strncat (dest src : Bytes) (n : Nat) : Checked Bytes := do
  let (_, dest) ← dest.onTail (strlen dest) fun tail => do
    let len := min (← strnlen src n) tail.length
    let tail ← tail.replace 0 len (← src.slice 0 len)
    return ((), tail.set len 0)
  return dest

/-- Appends as much of the string in `src` to the one in `dest` as leaves room
    for a final zero. A buffer that its string fills stays as it is. The answer
    is the length of both strings together. -/
def strlcat (dest src : Bytes) : Checked (Nat × Bytes) := do
  let len := strlen dest
  if len = dest.length then
    return (← Word.add dest.length (strlen src), dest)
  else
    let (copied, dest) ← dest.onTail len (strlcpy · src)
    return (← Word.add len copied, dest)

/-- The buffer with characters at the front and a zero behind them, if there
    is room for it. -/
def withText (dest text : Bytes) : Bytes :=
  (text ++ dest.drop text.length).set text.length 0

/-- Text that fits keeps the length of a buffer. -/
theorem length_withText {dest text : Bytes} (h : text.length ≤ dest.length) :
    (withText dest text).length = dest.length := by
  simp only [withText, List.length_set, List.length_append, List.length_drop]
  omega

/-- Behind the text, the buffer starts with a zero, if there is any more of
    it. -/
theorem withText_eq (dest text : Bytes) :
    withText dest text = text ++ (dest.drop text.length).set 0 0 := by
  rw [withText, List.set_append_right _ _ (Nat.le_refl _), Nat.sub_self]

/-- Text that is shorter than the buffer has a zero behind it. -/
theorem withText_of_lt {dest text : Bytes} (h : text.length < dest.length) :
    withText dest text = text ++ 0 :: dest.drop (text.length + 1) := by
  rw [withText_eq, List.drop_eq_getElem_cons h, List.set_cons_zero]

/-- Text as long as the buffer is all that is left of it. -/
theorem withText_of_length_eq {dest text : Bytes} (h : text.length = dest.length) :
    withText dest text = text := by
  rw [withText_eq, h, List.drop_length, List.set_nil, List.append_nil]

/-- The front of a string, cut out of its buffer. -/
theorem take_eq_take_chars {s : Bytes} {n : Nat} (h : n ≤ strlen s) :
    s.take n = (chars s).take n := by
  rw [← take_strlen, List.take_take, Nat.min_eq_left h]

/-- Copying leaves as many characters as the buffer has room for. -/
theorem stpcpy_eq (dest src : Bytes) :
    stpcpy dest src =
      .ok (min (strlen src) dest.length, withText dest ((chars src).take dest.length)) := by
  have hd : min (chars src).length dest.length ≤ dest.length := Nat.min_le_right _ _
  have hs : min (chars src).length dest.length ≤ (chars src).length := Nat.min_le_left _ _
  have htake : (chars src).take (min (chars src).length dest.length)
      = (chars src).take dest.length := by
    rw [List.take_eq_take_iff]
    omega
  have hlen : ((chars src).take dest.length).length = min (chars src).length dest.length := by
    rw [List.length_take, Nat.min_comm]
  simp only [stpcpy, content_eq, Checked.ok_bind, Bytes.slice_zero hs, htake,
    Bytes.replace_zero hd hlen, Checked.pure_eq_ok]
  rw [withText, hlen, length_chars]

/-- The copy alone. -/
theorem strcpy_eq (dest src : Bytes) :
    strcpy dest src = .ok (withText dest ((chars src).take dest.length)) := by
  rw [strcpy, stpcpy_eq]
  rfl

/-- Filling the first bytes leaves the characters, then zeros, then the rest
    of the buffer. -/
theorem stpncpy_eq (dest src : Bytes) (n : Nat) :
    stpncpy dest src n =
      let m := min n dest.length
      let len := min m (strlen src)
      .ok (len, (chars src).take m ++ List.replicate (m - len) 0 ++ dest.drop m) := by
  have hk := strlen_le src
  have hm : min n dest.length ≤ dest.length := Nat.min_le_right _ _
  have hle : min (min n dest.length) (strlen src) ≤ min n dest.length := Nat.min_le_left _ _
  have hs : min (min n dest.length) (strlen src) ≤ src.length := by omega
  have hlen := List.length_take_of_le hs
  have htake : src.take (min (min n dest.length) (strlen src))
      = (chars src).take (min n dest.length) := by
    rw [take_eq_take_chars (Nat.min_le_right _ _), List.take_eq_take_iff, length_chars]
    omega
  have hfill : ∀ t : Bytes, t.length = min (min n dest.length) (strlen src) →
      (t ++ dest.drop (min (min n dest.length) (strlen src))).fill
        (min (min n dest.length) (strlen src)) (min n dest.length) 0 =
      .ok (t ++ List.replicate (min n dest.length - min (min n dest.length) (strlen src)) 0 ++
        dest.drop (min n dest.length)) := by
    intro t ht
    have hfits : min n dest.length ≤
        (t ++ dest.drop (min (min n dest.length) (strlen src))).length := by
      rw [List.length_append, ht, List.length_drop]
      omega
    rw [Bytes.fill_eq_ok 0 hle hfits, List.take_left' ht, List.drop_append, ht, List.drop_drop,
      List.drop_eq_nil_of_le (by omega), List.nil_append, Nat.add_sub_cancel' hle]
  simp only [stpncpy, strnlen_eq, Checked.ok_bind, Bytes.slice_zero hs,
    Bytes.replace_zero (Nat.le_trans hle hm) hlen, hfill _ hlen, Checked.pure_eq_ok]
  rw [htake]

/-- The filling alone. -/
theorem strncpy_eq (dest src : Bytes) (n : Nat) :
    strncpy dest src n =
      let m := min n dest.length
      let len := min m (strlen src)
      .ok ((chars src).take m ++ List.replicate (m - len) 0 ++ dest.drop m) := by
  rw [strncpy, stpncpy_eq]
  rfl

/-- Copying with a final zero in any case leaves one character less than the
    buffer has bytes. -/
theorem strlcpy_eq (dest src : Bytes) :
    strlcpy dest src =
      .ok (strlen src, withText dest ((chars src).take (dest.length - 1))) := by
  cases dest with
  | nil => simp [strlcpy, withText, length_chars]
  | cons d dest =>
      have hroom : (d :: dest).length - 1 = dest.length := rfl
      have hs : min (chars src).length dest.length ≤ (chars src).length := Nat.min_le_left _ _
      have hd : min (chars src).length dest.length ≤ (d :: dest).length := by
        rw [List.length_cons]
        omega
      have htake : (chars src).take (min (chars src).length dest.length)
          = (chars src).take dest.length := by
        rw [List.take_eq_take_iff]
        omega
      have hlen : ((chars src).take dest.length).length = min (chars src).length dest.length := by
        rw [List.length_take, Nat.min_comm]
      have hput : min (chars src).length dest.length <
          ((chars src).take dest.length ++
            (d :: dest).drop (min (chars src).length dest.length)).length := by
        rw [List.length_append, hlen, List.length_drop, List.length_cons]
        omega
      simp only [strlcpy, content_eq, Checked.ok_bind, List.isEmpty_cons, Bool.false_eq_true,
        if_false, hroom, Bytes.slice_zero hs, htake, Bytes.replace_zero hd hlen,
        Bytes.put_eq_ok 0 hput, Checked.pure_eq_ok]
      rw [withText, hlen, length_chars]

/-- Appending leaves the string that was there and as many characters behind
    it as there is room for. -/
theorem strcat_eq (dest src : Bytes) :
    strcat dest src =
      .ok (chars dest ++ withText (dest.drop (strlen dest))
        ((chars src).take (dest.length - strlen dest))) := by
  rw [strcat, Bytes.onTail_eq (strlen_le dest), stpcpy_eq, List.length_drop, take_strlen]
  rfl

/-- Appending a bounded number of characters is appending the front of a
    string. -/
theorem strncat_eq (dest src : Bytes) (n : Nat) :
    strncat dest src n =
      .ok (chars dest ++ withText (dest.drop (strlen dest))
        ((chars src).take (min n (dest.length - strlen dest)))) := by
  have hk := strlen_le src
  have hs : min (min n (strlen src)) (dest.drop (strlen dest)).length ≤ src.length := by omega
  have hd : min (min n (strlen src)) (dest.drop (strlen dest)).length
      ≤ (dest.drop (strlen dest)).length := Nat.min_le_right _ _
  have htake : src.take (min (min n (strlen src)) (dest.drop (strlen dest)).length)
      = (chars src).take (min n (dest.length - strlen dest)) := by
    rw [take_eq_take_chars (by omega), List.take_eq_take_iff, length_chars, List.length_drop]
    omega
  have hlen : ((chars src).take (min n (dest.length - strlen dest))).length
      = min (min n (strlen src)) (dest.drop (strlen dest)).length := by
    rw [List.length_take, length_chars, List.length_drop]
    omega
  rw [strncat, Bytes.onTail_eq (strlen_le dest)]
  simp only [strnlen_eq, Checked.ok_bind, Bytes.slice_zero hs, htake,
    Bytes.replace_zero hd hlen, Checked.pure_eq_ok]
  rw [withText, hlen, take_strlen]
  rfl

/-- Appending with a final zero in any case answers the length of both strings
    together and leaves one character less than there is room for. -/
theorem strlcat_eq {dest src : Bytes} (h : dest.length + strlen src < Word.limit) :
    strlcat dest src =
      .ok (strlen dest + strlen src, chars dest ++ withText (dest.drop (strlen dest))
        ((chars src).take (dest.length - strlen dest - 1))) := by
  have hd := strlen_le dest
  rw [strlcat]
  dsimp only
  split
  · rename_i hfull
    rw [Word.add_eq_ok h, hfull, List.drop_length, Nat.sub_self, chars_of_full hfull]
    simp [withText]
  · rw [Bytes.onTail_eq hd, strlcpy_eq, List.length_drop, take_strlen]
    simp only [Except.map, Checked.ok_bind]
    rw [Word.add_eq_ok (by omega)]
    rfl

end CString

end Freestanding
