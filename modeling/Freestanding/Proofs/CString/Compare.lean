import Freestanding.CString.Compare

/-!
# The Order of Strings

Strings are compared as words in a dictionary are: by the first characters in
which they differ, and a string that is the front of another one comes before
it.

The comparison does not look for the ends of the strings as it goes. It reads
one character of each at a time, takes a zero for what is behind an end, and
stops where both of them have a zero or where it has read as many as it was
told to. That this is the order of words depends on what strings are. A string
has no zero, so the zero behind the shorter one is different from the character
in that place of the longer one, and smaller than it. And two zeros in one place
are two ends, since neither of them can be a character.

With their zeros, strings can be compared as plain bytes as well. Plain bytes are
compared no further than the shorter buffer goes, which is as far as needed: the
zero of the shorter string is there to be different.

The order of words is the order that lists of bytes have in the library, so what
is known of that one holds here: it is total, and it carries over from one pair
of words to the next.

## Theorems

* `compare_eq_lt_iff`, `compare_trans`: The order of lists.
* `compareChars_cons`, `memcmp_cons`: One step of each comparison.
* `compareChars_eq`: Characters are compared as words.
* `memcmp_concat_zero`: With their zeros, strings are compared as bytes.
* `compareChars_of_le`, `strncmp_of_le`: What has been decided stays decided.
* `strncmp_eq_compare`, `strcmp_eq_compare`: Strings are compared as words.
* `strcmp_take`: The fronts of strings.
* `comparison_is_lexicographic`: The order of strings.
-/

namespace Freestanding

namespace CString

open Memory

section

variable {a b : UInt8} {s t u : Bytes}

/-- A list that compares as less comes before the other one. -/
theorem compare_eq_lt_iff : compare s t = .lt ↔ s < t := by
  induction s generalizing t with
  | nil =>
      cases t with
      | nil => rw [List.compare_nil_nil, iff_false_right (List.not_lt_nil _)]; decide
      | cons b t => rw [List.compare_nil_cons, iff_true_left rfl]; exact List.nil_lt_cons b t
  | cons a s ih =>
      cases t with
      | nil => rw [List.compare_cons_nil, iff_false_right (List.not_lt_nil _)]; decide
      | cons b t =>
          rw [List.compare_cons_cons, Ordering.then_eq_lt, Std.compare_eq_lt,
            Std.compare_eq_iff_eq, ih, List.cons_lt_cons_iff]

/-- Two comparisons that do not go against each other decide a third one. -/
theorem compare_trans
    (h : compare s t = compare t u ∨ compare s t = .eq ∨ compare t u = .eq) :
    compare s u = (compare s t).then (compare t u) := by
  rcases h with hsame | hleft | hright
  · rw [← hsame]
    cases hst : compare s t with
    | lt => exact Std.TransCmp.lt_trans hst (hsame ▸ hst)
    | eq => exact Std.TransCmp.eq_trans hst (hsame ▸ hst)
    | gt => exact Std.TransCmp.gt_trans hst (hsame ▸ hst)
  · rw [hleft, Ordering.eq_then, Std.compare_eq_iff_eq.mp hleft]
  · rw [hright, Ordering.then_eq, Std.compare_eq_iff_eq.mp hright]

/-- Different bytes decide, whatever is behind them. -/
theorem compare_then (h : a ≠ b) (o : Ordering) : (compare a b).then o = compare a b := by
  have hne := Std.compare_ne_eq_iff_ne.mpr h
  cases hab : compare a b with
  | lt => rfl
  | eq => exact absurd hab hne
  | gt => rfl

theorem compareChars_succ (n : Nat) :
    compareChars (n + 1) s t =
      if s.headD 0 ≠ t.headD 0 then compare (s.headD 0) (t.headD 0)
      else if s.headD 0 = 0 then .eq
      else compareChars n s.tail t.tail := rfl

/-- The comparison of two runs goes on behind two characters if they are the
    same. -/
theorem compareChars_cons (n : Nat) (ha : a ≠ 0) :
    compareChars (n + 1) (a :: s) (b :: t) = (compare a b).then (compareChars n s t) := by
  rw [compareChars_succ, List.headD_cons, List.headD_cons, List.tail_cons, List.tail_cons]
  by_cases h : a = b
  · rw [if_neg (not_not_intro h), if_neg ha, h, Std.compare_self, Ordering.eq_then]
  · rw [if_pos h, compare_then h]

/-- The comparison of plain bytes goes on behind two bytes if they are the same. -/
theorem memcmp_cons (n : Nat) :
    memcmp (a :: s) (b :: t) (n + 1) = (compare a b).then (memcmp s t n) := by
  rw [memcmp]
  by_cases h : a = b
  · rw [if_pos h, h, Std.compare_self, Ordering.eq_then]
  · rw [if_neg h, compare_then h]

/-- A zero comes before every character. -/
theorem compare_zero_left (hb : b ≠ 0) : compare 0 b = .lt :=
  Std.compare_eq_lt.mpr (UInt8.pos_iff_ne_zero.mpr hb)

theorem compare_zero_right (ha : a ≠ 0) : compare a 0 = .gt :=
  Std.compare_eq_gt.mpr (UInt8.pos_iff_ne_zero.mpr ha)

theorem compareChars_nil_cons (n : Nat) (hb : b ≠ 0) :
    compareChars (n + 1) [] (b :: t) = .lt :=
  (if_pos hb.symm).trans (compare_zero_left hb)

theorem compareChars_cons_nil (n : Nat) (ha : a ≠ 0) :
    compareChars (n + 1) (a :: s) [] = .gt :=
  (if_pos ha).trans (compare_zero_right ha)

/-- Runs of characters are compared as words, cut off at as many characters as
    are to be compared. -/
theorem compareChars_eq (n : Nat) (hs : 0 ∉ s) (ht : 0 ∉ t) :
    compareChars n s t = compare (s.take n) (t.take n) := by
  induction n generalizing s t with
  | zero => rw [List.take_zero, List.take_zero, Std.compare_self]; rfl
  | succ n ih =>
      cases s with
      | nil =>
          cases t with
          | nil => rfl
          | cons b t =>
              rw [compareChars_nil_cons n (List.ne_of_not_mem_cons ht).symm]
              rfl
      | cons a s =>
          have ha : a ≠ 0 := (List.ne_of_not_mem_cons hs).symm
          cases t with
          | nil =>
              rw [compareChars_cons_nil n ha]
              rfl
          | cons b t =>
              rw [compareChars_cons n ha, ih (List.not_mem_of_not_mem_cons hs)
                (List.not_mem_of_not_mem_cons ht), List.take_succ_cons, List.take_succ_cons,
                List.compare_cons_cons]

/-- With a zero behind each of them, runs of characters are compared as words
    if as many bytes are compared as the shorter one has with its zero. -/
theorem memcmp_concat_zero {n : Nat} (hs : 0 ∉ s) (ht : 0 ∉ t)
    (hn : min s.length t.length < n) : memcmp (s ++ [0]) (t ++ [0]) n = compare s t := by
  induction s generalizing t n with
  | nil =>
      rcases Nat.exists_eq_add_one_of_ne_zero (Nat.ne_zero_of_lt hn) with ⟨m, rfl⟩
      cases t with
      | nil => rw [List.nil_append, memcmp_cons, Std.compare_self, Ordering.eq_then]; rfl
      | cons b t =>
          -- The zero of the shorter one is different from the character.
          have hb : b ≠ 0 := (List.ne_of_not_mem_cons ht).symm
          rw [List.nil_append, List.cons_append, memcmp_cons, compare_then hb.symm,
            compare_zero_left hb, List.compare_nil_cons]
  | cons a s ih =>
      rcases Nat.exists_eq_add_one_of_ne_zero (Nat.ne_zero_of_lt hn) with ⟨m, rfl⟩
      cases t with
      | nil =>
          have ha : a ≠ 0 := (List.ne_of_not_mem_cons hs).symm
          rw [List.nil_append, List.cons_append, memcmp_cons, compare_then ha,
            compare_zero_right ha, List.compare_cons_nil]
      | cons b t =>
          have hm : min s.length t.length < m := by
            simp only [List.length_cons] at hn
            omega
          rw [List.cons_append, List.cons_append, memcmp_cons, List.compare_cons_cons,
            ih (List.not_mem_of_not_mem_cons hs) (List.not_mem_of_not_mem_cons ht) hm]

end

/-- A comparison that was decided by some characters of each run has the same
    outcome if more of them are compared. -/
theorem compareChars_of_le {n m : Nat} {s t : Bytes} (hle : n ≤ m)
    (hne : compareChars n s t ≠ .eq) : compareChars m s t = compareChars n s t := by
  -- Both go the same way until the first one has come to a difference.
  induction n generalizing m s t with
  | zero => exact absurd rfl hne
  | succ n ih =>
      rcases Nat.exists_eq_add_of_le hle with ⟨k, rfl⟩
      rw [compareChars_succ] at hne
      rw [Nat.add_right_comm, compareChars_succ, compareChars_succ]
      by_cases hdiff : s.headD 0 ≠ t.headD 0
      · rw [if_pos hdiff, if_pos hdiff]
      · rw [if_neg hdiff] at hne
        rw [if_neg hdiff, if_neg hdiff]
        by_cases hend : s.headD 0 = 0
        · rw [if_pos hend, if_pos hend]
        · rw [if_neg hend] at hne
          rw [if_neg hend, if_neg hend]
          exact ih (Nat.le_add_right n k) hne

/-- The order of two strings by a number of characters is that of their fronts
    as words. -/
theorem strncmp_eq_compare (s t : Bytes) (n : Nat) :
    strncmp s t n = .ok (compare ((chars s).take n) ((chars t).take n)) := by
  rw [strncmp_eq, compareChars_eq n (zero_notMem_chars s) (zero_notMem_chars t)]

/-- An answer other than equality by a number of characters is the answer by all
    larger numbers, too. -/
theorem strncmp_of_le {s t : Bytes} {n m : Nat} {o : Ordering} (hle : n ≤ m)
    (h : strncmp s t n = .ok o) (hne : o ≠ .eq) : strncmp s t m = .ok o := by
  rw [strncmp_eq, Except.ok.injEq] at h
  rw [strncmp_eq, compareChars_of_le hle (h ▸ hne), h]

/-- The order of two strings is that of words. -/
theorem strcmp_eq_compare {s t : Bytes} (hs : s.length < Word.limit) (ht : t.length < Word.limit) :
    strcmp s t = .ok (compare (chars s) (chars t)) := by
  have hsle := strlen_le s
  have htle := strlen_le t
  rw [strcmp, strncmp_eq_compare, take_chars (by omega), take_chars (by omega)]

theorem length_take_chars_lt {s : Bytes} (n : Nat) (hs : s.length < Word.limit) :
    ((chars s).take n).length < Word.limit :=
  Nat.lt_of_le_of_lt (Nat.le_trans (List.length_take_le' n _) (length_chars_le s)) hs

/-- Cutting off the fronts of two strings and comparing them is comparing as many
    characters. -/
theorem strcmp_take {s t : Bytes} (n : Nat) (hs : s.length < Word.limit)
    (ht : t.length < Word.limit) :
    strcmp ((chars s).take n) ((chars t).take n) = strncmp s t n := by
  rw [strcmp_eq_compare (length_take_chars_lt n hs) (length_take_chars_lt n ht),
    strncmp_eq_compare, chars_take, chars_take, chars_chars, chars_chars]

/-- Two strings compare as less if the first one comes before the second one as
    a word does, by unsigned bytes and with a string before all that it is the
    front of. They compare as equal if they are the same. Comparing them the
    other way around turns the answer around, and two comparisons in a row that
    do not go against each other give the answer of a third one. With their
    zeros, the strings compare in the same way as bytes if at least as many are
    compared as the shorter one has. Comparing a number of characters is
    comparing the fronts of the strings, for every number there is, and an
    answer that is not equality stays the answer for all larger numbers. -/
theorem comparison_is_lexicographic {s t u : Bytes} (hs : s.length < Word.limit)
    (ht : t.length < Word.limit) (hu : u.length < Word.limit) :
    (∃ o p, strcmp s t = .ok o ∧ strcmp t u = .ok p ∧
      (o = .lt ↔ chars s < chars t) ∧ (o = .eq ↔ chars s = chars t) ∧
      (o = .gt ↔ chars t < chars s) ∧ strcmp t s = .ok o.swap ∧
      (o = p ∨ o = .eq ∨ p = .eq → strcmp s u = .ok (o.then p)) ∧
      ∀ n, min (strlen s) (strlen t) + 1 ≤ n → memcmp (chars s ++ [0]) (chars t ++ [0]) n = o) ∧
    ∀ n, ∃ o, strncmp s t n = .ok o ∧
      strcmp ((chars s).take n) ((chars t).take n) = .ok o ∧
      (o ≠ .eq → ∀ m, n ≤ m → strncmp s t m = .ok o) := by
  refine ⟨⟨_, _, strcmp_eq_compare hs ht, strcmp_eq_compare ht hu, compare_eq_lt_iff,
    Std.compare_eq_iff_eq, ?_, ?_, fun h => ?_, fun n hn => ?_⟩, fun n => ?_⟩
  · rw [Std.OrientedOrd.eq_swap, Ordering.swap_eq_gt, compare_eq_lt_iff]
  · rw [strcmp_eq_compare ht hs, Std.OrientedOrd.eq_swap]
  · rw [strcmp_eq_compare hs hu, compare_trans h]
  · rw [← length_chars s, ← length_chars t] at hn
    exact memcmp_concat_zero (zero_notMem_chars s) (zero_notMem_chars t) hn
  · have hfronts := strncmp_eq_compare s t n
    exact ⟨_, hfronts, (strcmp_take n hs ht).trans hfronts,
      fun hne m hm => strncmp_of_le hm hfronts hne⟩

/-- A string and a longer one that it is the front of, whose last character has
    the highest bit. The third place decides, and with it every number of
    characters from three on. -/
theorem compared_at_an_end :
    strcmp [65, 66, 0, 9] [65, 66, 200] = .ok .lt ∧
    memcmp [65, 66, 0] [65, 66, 200, 0] 3 = .lt ∧
    ∀ m, 3 ≤ m → strncmp [65, 66, 0, 9] [65, 66, 200] m = .ok .lt := by
  have hs : ([65, 66, 0, 9] : Bytes).length < Word.limit := by decide
  have ht : ([65, 66, 200] : Bytes).length < Word.limit := by decide
  rcases comparison_is_lexicographic hs ht ht with
    ⟨⟨o, -, hcmp, -, hless, -, -, -, -, hbytes⟩, hfronts⟩
  have ho : o = .lt := hless.mpr (by decide)
  rcases hfronts 3 with ⟨q, hthree, -, hmore⟩
  have hq : q = .lt := (Except.ok.inj hthree).symm
  exact ⟨ho ▸ hcmp, (hbytes 3 (by decide)).trans ho, hq ▸ hmore (by rw [hq]; decide)⟩

end CString

end Freestanding
