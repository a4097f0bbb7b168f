import Freestanding.CString.Basic

/-!
# Comparing Strings

The order of two strings, character by character, as unsigned bytes.

A string that has ended counts as a zero byte from there on, which is smaller
than every character, so a string that is the front of another one comes
before it. Two zero bytes at the same place mean that both strings have ended
and nothing is left to compare.

## Main definitions

* `strcmp`: The order of two strings.
* `strncmp`: Their order by a bounded number of characters.

## Theorems

* `strncmp_eq`: The order is decided by the bytes before the ends.
* `strcmp_of_chars_eq`: Buffers that hold the same string are equal.
-/

namespace Freestanding

namespace CString

/-- The order of two runs of characters by the first `n` of each, where a run
    that has ended goes on with zero bytes. -/
def compareChars : Nat → Bytes → Bytes → Ordering
  | 0, _, _ => .eq
  | n + 1, s, t =>
    let a := s.headD 0
    let b := t.headD 0
    if a ≠ b then compare a b
    else if a = 0 then .eq
    else compareChars n s.tail t.tail

/-- The order of two strings by at most `n` characters of each. -/
def strncmp (s t : Bytes) (n : Nat) : Checked Ordering := do
  return compareChars n (← content s) (← content t)

/-- The order of two strings. A word counts more characters than a buffer can
    hold. -/
def strcmp (s t : Bytes) : Checked Ordering :=
  strncmp s t (Word.limit - 1)

theorem strncmp_eq (s t : Bytes) (n : Nat) :
    strncmp s t n = .ok (compareChars n (chars s) (chars t)) := by
  simp [strncmp]

theorem compareChars_self (n : Nat) (s : Bytes) : compareChars n s s = .eq := by
  induction n generalizing s with
  | zero => rfl
  | succ n ih => simp [compareChars, ih]

/-- Buffers that hold the same string are equal, whatever is behind it. -/
theorem strcmp_of_chars_eq {s t : Bytes} (h : chars s = chars t) : strcmp s t = .ok .eq := by
  rw [strcmp, strncmp_eq, h, compareChars_self]

end CString

end Freestanding
