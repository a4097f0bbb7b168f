import Freestanding.CString.Basic

/-!
# Searching in Strings

The first and last place of a character, of a set of characters, and of
another string.

The end of a string counts as a place: asking for the zero byte finds it, at
the length of the string, also in a buffer that holds no zero. Everything else
is looked for among the bytes before the end.

A set of characters is given as a string of its own, so the bytes behind its
end do not belong to the set and the zero byte never does.

## Main definitions

* `strchr`, `strrchr`: The first and the last place of a character.
* `strspn`, `strcspn`: The length of the run of characters in a set, or
  outside of it, that a string starts with.
* `strpbrk`: The first place of a character from a set.
* `strstr`: The first place of another string.

## Theorems

* `strchr_eq`, `strrchr_eq`, `strspn_eq`, `strcspn_eq`, `strpbrk_eq`,
  `strstr_eq`: The value on the bytes before the end.
-/

namespace Freestanding

namespace CString

open Memory

/-- The first place of `c`. The zero byte is found where the string ends. -/
def strchr (s : Bytes) (c : UInt8) : Checked (Option Nat) := do
  if c = 0 then
    return some (strlen s)
  else
    return memchr (← content s) c

/-- The last place of `c`. The zero byte is found where the string ends. -/
def strrchr (s : Bytes) (c : UInt8) : Checked (Option Nat) := do
  if c = 0 then
    return some (strlen s)
  else
    return memrchr (← content s) c

/-- The number of characters from `accept` that `s` starts with. -/
def strspn (s accept : Bytes) : Checked Nat := do
  let accept ← content accept
  let s ← content s
  return (s.takeWhile accept.contains).length

/-- The number of characters not from `reject` that `s` starts with. -/
def strcspn (s reject : Bytes) : Checked Nat := do
  let reject ← content reject
  let s ← content s
  return (s.takeWhile fun b => !reject.contains b).length

/-- The first place of a character from `accept`. -/
def strpbrk (s accept : Bytes) : Checked (Option Nat) := do
  let place ← strcspn s accept
  return if place < strlen s then some place else none

/-- The first place of the string `needle`. An empty one is found at once. -/
def strstr (haystack needle : Bytes) : Checked (Option Nat) := do
  memmem (← content haystack) (← content needle)

theorem strchr_eq (s : Bytes) (c : UInt8) :
    strchr s c = .ok (if c = 0 then some (strlen s) else memchr (chars s) c) := by
  unfold strchr
  split <;> simp

theorem strrchr_eq (s : Bytes) (c : UInt8) :
    strrchr s c = .ok (if c = 0 then some (strlen s) else memrchr (chars s) c) := by
  unfold strrchr
  split <;> simp

theorem strspn_eq (s accept : Bytes) :
    strspn s accept = .ok ((chars s).takeWhile (chars accept).contains).length := by
  simp [strspn]

theorem strcspn_eq (s reject : Bytes) :
    strcspn s reject = .ok ((chars s).takeWhile fun b => !(chars reject).contains b).length := by
  simp [strcspn]

theorem strpbrk_eq (s accept : Bytes) :
    strpbrk s accept =
      let place := ((chars s).takeWhile fun b => !(chars accept).contains b).length
      .ok (if place < strlen s then some place else none) := by
  rw [strpbrk, strcspn_eq]
  rfl

theorem strstr_eq (haystack needle : Bytes) :
    strstr haystack needle = memmem (chars haystack) (chars needle) := by
  simp [strstr]

end CString

end Freestanding
