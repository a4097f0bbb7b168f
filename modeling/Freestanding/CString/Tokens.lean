import Freestanding.CString.Search

/-!
# Splitting Strings

The runs of characters between delimiters, one after the other.

What is left to split is kept as a value, so two strings can be split at the
same time and the buffers they are in are not changed. Delimiters next to each
other, in front or at the end produce nothing: a token has at least one
character.

Every token takes characters away from what is left, so there are at most as
many tokens as characters. `toList` asks for one more than that and meets the
end on the way.

## Main definitions

* `Tokens`: A string that is being split.
* `tokens`: The string in a buffer, with nothing split off yet.
* `Tokens.next`: The next token.
* `Tokens.toList`: All tokens to come.
* `split`: All tokens of a string.

## Theorems

* `Tokens.next_eq`: The next token, and what is left behind it.
* `Tokens.length_next_lt`: Splitting a token off leaves less.
* `Tokens.exists_collect`, `exists_split`: Splitting comes to an end.
* `tokens_eq`, `split_eq`: The value on the bytes before the ends.
-/

namespace Freestanding

namespace CString

/-- The part of a string that is still to be split, and the characters that
    separate tokens. -/
structure Tokens where
  /-- The characters behind the last delimiter seen. -/
  rest : Bytes
  /-- The characters that are not part of tokens. -/
  delims : Bytes
  deriving DecidableEq, Repr

/-- Starts to split the string in `s` at the characters in `delims`. -/
def tokens (s delims : Bytes) : Checked Tokens := do
  return ⟨← content s, ← content delims⟩

namespace Tokens

/-- Splits off the next token, and the delimiter behind it. -/
def next (t : Tokens) : Checked (Option Bytes × Tokens) := do
  let start ← strspn t.rest t.delims
  let rest ← t.rest.slice start t.rest.length
  if rest.isEmpty then
    return (none, { t with rest })
  else
    let stop ← strcspn rest t.delims
    let after ← Word.add stop 1
    let token ← rest.slice 0 stop
    return (some token, { t with rest := rest.drop after })

/-- Behind the run of bytes with a property comes the rest. -/
theorem drop_length_takeWhile (p : UInt8 → Bool) (s : Bytes) :
    s.drop (s.takeWhile p).length = s.dropWhile p := by
  have h : (s.takeWhile p ++ s.dropWhile p).drop (s.takeWhile p).length = s.dropWhile p :=
    List.drop_left
  rwa [List.takeWhile_append_dropWhile] at h

/-- The next token is the run behind the delimiters in front, and what is left
    starts behind the delimiter that ends it. -/
theorem next_eq {t : Tokens} (hzero : 0 ∉ t.rest) (hlen : t.rest.length + 1 < Word.limit) :
    t.next =
      let delim := (chars t.delims).contains
      let rest := t.rest.dropWhile delim
      .ok (if rest.isEmpty then (none, { t with rest })
        else (some (rest.takeWhile fun b => !delim b),
          { t with rest := (rest.dropWhile fun b => !delim b).drop 1 })) := by
  have hskip : (t.rest.takeWhile (chars t.delims).contains).length ≤ t.rest.length :=
    (List.takeWhile_prefix _).length_le
  have hsuffix : t.rest.dropWhile (chars t.delims).contains <:+ t.rest := List.dropWhile_suffix _
  have hzero' : 0 ∉ t.rest.dropWhile (chars t.delims).contains :=
    fun h => hzero (hsuffix.subset h)
  simp only [next, strspn_eq, chars_eq_self hzero, Checked.ok_bind, Bytes.slice_length hskip,
    drop_length_takeWhile]
  split
  · rfl
  · have hstop : ((t.rest.dropWhile (chars t.delims).contains).takeWhile
        fun b => !(chars t.delims).contains b).length
        ≤ (t.rest.dropWhile (chars t.delims).contains).length :=
      (List.takeWhile_prefix _).length_le
    have hword := hsuffix.length_le
    rw [strcspn_eq, chars_eq_self hzero', Checked.ok_bind, Word.add_eq_ok (by omega),
      Checked.ok_bind, Bytes.slice_zero hstop, Checked.ok_bind, Checked.pure_eq_ok,
      ← List.drop_drop, drop_length_takeWhile,
      ← List.prefix_iff_eq_take.mp (List.takeWhile_prefix _)]

/-- Splitting a token off leaves fewer characters, and none that were not
    there before. -/
theorem length_next_lt {t u : Tokens} {token : Bytes} (hzero : 0 ∉ t.rest)
    (hlen : t.rest.length + 1 < Word.limit) (h : t.next = .ok (some token, u)) :
    u.rest.length < t.rest.length ∧ 0 ∉ u.rest ∧ u.delims = t.delims := by
  rw [next_eq hzero hlen] at h
  dsimp only at h
  split at h
  · cases h
  · rename_i hne
    cases h
    have hrest : t.rest.dropWhile (chars t.delims).contains <:+ t.rest := List.dropWhile_suffix _
    have hpos : 0 < (t.rest.dropWhile (chars t.delims).contains).length := by
      rw [List.length_pos_iff]
      exact fun hnil => hne (List.isEmpty_iff.mpr hnil)
    have hafter := (List.dropWhile_suffix (fun b => !(chars t.delims).contains b)
      (l := t.rest.dropWhile (chars t.delims).contains)).length_le
    have hle := hrest.length_le
    refine ⟨?_, fun hmem => hzero ?_, rfl⟩
    · dsimp only
      rw [List.length_drop]
      omega
    · exact hrest.subset ((List.dropWhile_suffix _).subset ((List.drop_suffix 1 _).subset hmem))

/-- The tokens to come, if they end before the `n`th. -/
def collect : Nat → Tokens → Checked (List Bytes)
  | 0, _ => .error .endless
  | n + 1, t => do
    match ← t.next with
    | (none, _) => return []
    | (some token, t) => return token :: (← collect n t)

/-- Asking for one more token than there are characters meets the end. -/
theorem exists_collect {n : Nat} {t : Tokens} (hzero : 0 ∉ t.rest)
    (hlen : t.rest.length + 1 < Word.limit) (hn : t.rest.length < n) :
    ∃ tokens, collect n t = .ok tokens := by
  induction n generalizing t with
  | zero => omega
  | succ n ih =>
      rcases hnext : t.next with f | ⟨token, u⟩
      · rw [next_eq hzero hlen] at hnext
        cases hnext
      · unfold collect
        rw [hnext, Checked.ok_bind]
        cases token with
        | none => exact ⟨[], rfl⟩
        | some token =>
            -- What is left is shorter, so there is still one to ask for too many.
            rcases length_next_lt hzero hlen hnext with ⟨hless, hzero', -⟩
            rcases ih hzero' (by omega) (by omega) with ⟨tokens, htokens⟩
            refine ⟨token :: tokens, ?_⟩
            dsimp only
            rw [htokens]
            rfl

/-- The tokens to come. -/
def toList (t : Tokens) : Checked (List Bytes) :=
  collect (t.rest.length + 1) t

end Tokens

/-- All tokens of the string in `s`, in order. -/
def split (s delims : Bytes) : Checked (List Bytes) := do
  (← tokens s delims).toList

theorem tokens_eq (s delims : Bytes) : tokens s delims = .ok ⟨chars s, chars delims⟩ := by
  simp [tokens]

theorem split_eq (s delims : Bytes) :
    split s delims = Tokens.toList ⟨chars s, chars delims⟩ := by
  rw [split, tokens_eq, Checked.ok_bind]

/-- Every string comes apart. -/
theorem exists_split {s : Bytes} (delims : Bytes) (hs : s.length + 1 < Word.limit) :
    ∃ pieces, split s delims = .ok pieces := by
  have hle := length_chars_le s
  rw [split_eq, Tokens.toList]
  exact Tokens.exists_collect (zero_notMem_chars s) (by dsimp only; omega) (Nat.lt_succ_self _)

end CString

end Freestanding
