import Freestanding.Memory

/-!
# Strings in Buffers

Where the string in a buffer ends.

A buffer holds a string by convention: the string is the bytes before the
first zero byte, and the whole buffer when it has none. Every routine that
reads a string starts by finding that end and from then on sees only the bytes
before it, so bytes behind the first zero can never matter.

`content` is the range the routines work on, taken out of the buffer at the
length that `strlen` reports. `chars` says what those bytes are without
speaking of lengths or ranges, and `content_eq` says that the two agree. The
facts about strings are stated with `chars`.

## Main definitions

* `strlen`: The length of the string in a buffer.
* `strnlen`: The same, looking at a bounded number of bytes.
* `content`: The bytes of the string.
* `chars`: The bytes before the first zero.

## Theorems

* `length_chars`: `strlen` is the number of those bytes.
* `content_eq`: The content is the bytes before the first zero.
* `strnlen_eq`: A bounded length is the length or the bound.
* `zero_notMem_chars`: A string holds no zero.
* `chars_append_zero`, `exists_eq_chars_append`, `memchr_zero`: The zero that
  ends a string.
-/

namespace Freestanding

namespace CString

open Memory

/-- The number of bytes before the first zero, or of all bytes. -/
def strlen (s : Bytes) : Nat :=
  (memchr s 0).getD s.length

/-- The length of the string in the first `limit` bytes. -/
def strnlen (s : Bytes) (limit : Nat) : Checked Nat := do
  let front ← s.slice 0 (min limit s.length)
  return strlen front

/-- The string in a buffer, cut off at its length. -/
def content (s : Bytes) : Checked Bytes :=
  s.slice 0 (strlen s)

/-- The bytes of a buffer before its first zero. -/
def chars (s : Bytes) : Bytes :=
  s.takeWhile (· ≠ 0)

@[simp] theorem chars_nil : chars [] = [] := rfl

theorem chars_cons (b : UInt8) (s : Bytes) :
    chars (b :: s) = if b = 0 then [] else b :: chars s := by
  by_cases h : b = 0 <;> simp [chars, h]

/-- A string is the front of its buffer. -/
theorem chars_front (s : Bytes) : chars s <+: s :=
  List.takeWhile_prefix _

/-- A string is at most as long as its buffer. -/
theorem length_chars_le (s : Bytes) : (chars s).length ≤ s.length :=
  (chars_front s).length_le

/-- A string holds no zero. -/
theorem zero_notMem_chars (s : Bytes) : 0 ∉ chars s := by
  induction s with
  | nil => simp
  | cons b s ih =>
      rw [chars_cons]
      split
      · simp
      · rename_i h
        simp only [List.mem_cons, not_or]
        exact ⟨fun h0 => h h0.symm, ih⟩

/-- Bytes without a zero are a string as they are. -/
theorem chars_eq_self {s : Bytes} (h : 0 ∉ s) : chars s = s := by
  induction s with
  | nil => rfl
  | cons b s ih =>
      simp only [List.mem_cons, not_or] at h
      rw [chars_cons, if_neg fun hb => h.1 hb.symm, ih h.2]

/-- The string of a string is that string. -/
@[simp] theorem chars_chars (s : Bytes) : chars (chars s) = chars s :=
  chars_eq_self (zero_notMem_chars s)

/-- A zero behind bytes without one ends the string there. -/
theorem chars_append_zero {s : Bytes} (h : 0 ∉ s) (rest : Bytes) :
    chars (s ++ 0 :: rest) = s := by
  induction s with
  | nil => simp [chars_cons]
  | cons b s ih =>
      simp only [List.mem_cons, not_or] at h
      rw [List.cons_append, chars_cons, if_neg fun hb => h.1 hb.symm, ih h.2]

/-- The length of a string is the number of its bytes. -/
theorem length_chars (s : Bytes) : (chars s).length = strlen s := by
  induction s with
  | nil => rfl
  | cons b s ih =>
      rw [chars_cons, strlen, memchr, List.findIdx?_cons]
      by_cases h : b = 0
      · simp [h]
      · rw [if_neg h, List.length_cons, ih, strlen, memchr]
        cases hf : s.findIdx? (· == 0) <;> simp [h]

/-- The length of a string is that of the string alone. -/
@[simp] theorem strlen_chars (s : Bytes) : strlen (chars s) = strlen s := by
  rw [← length_chars, chars_chars, length_chars]

/-- A string is at most as long as its buffer. -/
theorem strlen_le (s : Bytes) : strlen s ≤ s.length :=
  length_chars s ▸ length_chars_le s

/-- A string is the front of its buffer, as long as the string is. -/
theorem take_strlen (s : Bytes) : s.take (strlen s) = chars s := by
  rw [← length_chars]
  exact (List.prefix_iff_eq_take.mp (chars_front s)).symm

/-- The content of a buffer is the bytes before its first zero. -/
@[simp] theorem content_eq (s : Bytes) : content s = .ok (chars s) := by
  rw [content, Bytes.slice_zero (strlen_le s), take_strlen]

/-- Cutting a buffer cuts its string. -/
theorem chars_take (s : Bytes) (n : Nat) : chars (s.take n) = (chars s).take n := by
  induction s generalizing n with
  | nil => simp
  | cons b s ih =>
      cases n with
      | zero => simp
      | succ n =>
          rw [List.take_succ_cons, chars_cons, chars_cons]
          split
          · rfl
          · rw [List.take_succ_cons, ih]

/-- Cutting a buffer cuts the length of its string. -/
theorem strlen_take (s : Bytes) (n : Nat) : strlen (s.take n) = min n (strlen s) := by
  rw [← length_chars, chars_take, List.length_take, length_chars]

/-- A string has no more characters than its length. -/
theorem take_chars {s : Bytes} {n : Nat} (h : strlen s ≤ n) : (chars s).take n = chars s :=
  List.take_of_length_le (by rwa [length_chars])

/-- A string that fills its buffer is the buffer. -/
theorem chars_of_full {s : Bytes} (h : strlen s = s.length) : chars s = s := by
  rw [← take_strlen, h, List.take_length]

/-- A bounded length is the length, or the bound where that is smaller. -/
@[simp] theorem strnlen_eq (s : Bytes) (limit : Nat) :
    strnlen s limit = .ok (min limit (strlen s)) := by
  have h := strlen_le s
  rw [strnlen, Bytes.slice_zero (by omega), Checked.ok_bind, Checked.pure_eq_ok, strlen_take]
  congr 1
  omega

/-- A buffer with a zero in it is its string, a zero, and what is behind. -/
theorem exists_eq_chars_append {s : Bytes} (h : 0 ∈ s) : ∃ rest, s = chars s ++ 0 :: rest := by
  induction s with
  | nil => exact absurd h List.not_mem_nil
  | cons b s ih =>
      rw [chars_cons]
      by_cases hb : b = 0
      · exact ⟨s, by rw [if_pos hb, hb, List.nil_append]⟩
      · rcases ih ((List.mem_cons.mp h).resolve_left fun h0 => hb h0.symm) with ⟨rest, hrest⟩
        refine ⟨rest, ?_⟩
        rw [if_neg hb, List.cons_append, ← hrest]

/-- The first zero of a buffer is where its string ends. -/
theorem memchr_zero (s : Bytes) :
    memchr s 0 = if strlen s < s.length then some (strlen s) else none := by
  cases hfound : memchr s 0 with
  | none =>
      have hlen : strlen s = s.length := by rw [strlen, hfound, Option.getD_none]
      rw [if_neg (by omega)]
  | some i =>
      have hlen : strlen s = i := by rw [strlen, hfound, Option.getD_some]
      rw [hlen, if_pos (memchr_lt hfound)]

end CString

end Freestanding
