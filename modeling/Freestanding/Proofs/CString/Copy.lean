import Freestanding.CString.Copy

/-!
# Copies Compared

What the routines that copy a string have in common, and where they part.

There are four ways to copy a string to the front of a buffer. One takes a
range and writes a zero behind it if there is a place for one, one keeps the
last place free, one fills a number of bytes, and one goes byte by byte until it
has copied a zero. Where the string is shorter than the buffer they leave the
same: the string, a zero, and the rest of the buffer as it was. The one that
fills has to be told to fill exactly so many bytes, and the one that goes byte
by byte needs a zero that it can copy.

Where the string is not shorter, none of them can leave it with a zero. All but
one fill the buffer with as much of the string as there is room for. The one
that keeps the last place free has its zero there, so it differs in that byte,
and in no byte if the buffer has none.

What the filling leaves is also said place by place, for every number of bytes.

## Theorems

* `stpcpy_of_lt`, `strlcpy_of_lt`, `stpncpy_of_lt`, `memccpy_of_lt`: Copies of a
  string that is shorter than the buffer.
* `stpcpy_of_le`, `strlcpy_of_le`, `stpncpy_of_le`, `memccpy_of_le`: Copies of one
  that is not.
* `stpncpy_getElem?`: What the filling leaves at each place.
* `copies_agree`: The copies compared.
-/

namespace Freestanding

namespace CString

open Memory

section

variable {dest src : Bytes}

/-- A copy that stops at the end of the string leaves one that is shorter than the
    buffer with its zero. -/
theorem stpcpy_of_lt (h : strlen src < dest.length) :
    stpcpy dest src = .ok (strlen src, chars src ++ 0 :: dest.drop (strlen src + 1)) := by
  rw [stpcpy_eq, take_chars (Nat.le_of_lt h), withText_of_lt (by rwa [length_chars]),
    length_chars, Nat.min_eq_left (Nat.le_of_lt h)]

/-- A copy that keeps the last place free leaves a string that is shorter than the
    buffer with its zero. -/
theorem strlcpy_of_lt (h : strlen src < dest.length) :
    strlcpy dest src = .ok (strlen src, chars src ++ 0 :: dest.drop (strlen src + 1)) := by
  rw [strlcpy_eq, take_chars (Nat.le_sub_one_of_lt h), withText_of_lt (by rwa [length_chars]),
    length_chars]

/-- A copy that fills leaves a string that is shorter than the buffer with its zero,
    if it is to fill one byte more than there are characters. -/
theorem stpncpy_of_lt (h : strlen src < dest.length) :
    stpncpy dest src (strlen src + 1) =
      .ok (strlen src, chars src ++ 0 :: dest.drop (strlen src + 1)) := by
  have hmin : min (strlen src + 1) dest.length = strlen src + 1 := Nat.min_eq_left h
  rw [stpncpy_eq, hmin]
  dsimp only
  rw [Nat.min_eq_right (Nat.le_add_right _ 1), take_chars (Nat.le_add_right _ 1),
    Nat.add_sub_cancel_left, List.append_assoc]
  rfl

/-- A copy byte by byte up to a zero leaves a string that is shorter than the buffer
    with its zero, if there is a zero to come to. -/
theorem memccpy_of_lt (h : strlen src < dest.length) (hword : dest.length < Word.limit)
    (hzero : 0 ∈ src) :
    memccpy dest src 0 =
      .ok (some (strlen src + 1), chars src ++ 0 :: dest.drop (strlen src + 1)) := by
  -- The zero that ends the string is the first one to be found, and it is
  -- copied with the string.
  rcases exists_eq_chars_append hzero with ⟨rest, hrest⟩
  have hlength : src.length = strlen src + (rest.length + 1) := by
    have hsum := congrArg List.length hrest
    rwa [List.length_append, List.length_cons, length_chars] at hsum
  have hfound : memchr (src.take dest.length) 0 = some (strlen src) := by
    rw [memchr_zero, strlen_take, List.length_take, if_pos (by omega),
      Nat.min_eq_right (Nat.le_of_lt h)]
  have hcopied : src.take (strlen src + 1) = chars src ++ [0] :=
    calc src.take (strlen src + 1)
      _ = (chars src ++ 0 :: rest).take ((chars src).length + 1) := by rw [← hrest, length_chars]
      _ = chars src ++ [0] := List.take_length_add_append 1
  rw [memccpy_eq src 0 hword, hfound]
  simp only [Option.map_some, Option.getD_some, hcopied, List.append_assoc, List.cons_append,
    List.nil_append]

/-- Where a string is not shorter than a buffer, its characters fill it. -/
theorem zero_notMem_take (h : dest.length ≤ strlen src) : 0 ∉ src.take dest.length := by
  rw [take_eq_take_chars h]
  exact fun h0 => zero_notMem_chars src (List.mem_of_mem_take h0)

theorem length_take_strlen (h : dest.length ≤ strlen src) :
    (src.take dest.length).length = dest.length :=
  List.length_take_of_le (Nat.le_trans h (strlen_le src))

/-- A copy of a string that is not shorter than the buffer stops where the buffer
    is full. -/
theorem stpcpy_of_le (h : dest.length ≤ strlen src) :
    stpcpy dest src = .ok (dest.length, src.take dest.length) := by
  rw [stpcpy_eq, ← take_eq_take_chars h, withText_of_length_eq (length_take_strlen h),
    Nat.min_eq_right h]

/-- A copy that is to fill the buffer or more leaves no zero of a string that is not
    shorter than the buffer. -/
theorem stpncpy_of_le {n : Nat} (h : dest.length ≤ strlen src) (hn : dest.length ≤ n) :
    stpncpy dest src n = .ok (dest.length, src.take dest.length) := by
  rw [stpncpy_eq]
  dsimp only
  rw [Nat.min_eq_right hn, Nat.min_eq_left h, ← take_eq_take_chars h, Nat.sub_self,
    List.drop_length, List.replicate_zero, List.append_nil, List.append_nil]

/-- A copy byte by byte of a string that is not shorter than the buffer stops where
    the buffer is full, without having come to a zero. -/
theorem memccpy_of_le (h : dest.length ≤ strlen src) (hword : dest.length < Word.limit) :
    memccpy dest src 0 = .ok (none, src.take dest.length) := by
  have hnone : memchr (src.take dest.length) 0 = none := by
    rw [memchr_zero, strlen_take, length_take_strlen h, Nat.min_eq_left h,
      if_neg (Nat.lt_irrefl _)]
  have hmin : min dest.length src.length = dest.length :=
    Nat.min_eq_left (Nat.le_trans h (strlen_le src))
  rw [memccpy_eq src 0 hword, hnone]
  simp only [Option.map_none, Option.getD_none, hmin, List.drop_length, List.append_nil]

/-- A zero in the place of the last of some bytes. -/
theorem set_take {s : Bytes} {n : Nat} (h : n < s.length) :
    (s.take (n + 1)).set n 0 = s.take n ++ [0] := by
  have hlength : (s.take n).length = n := List.length_take_of_le (Nat.le_of_lt h)
  rw [List.take_succ_eq_append_getElem h, List.set_append_right _ _ (Nat.le_of_eq hlength), hlength,
    Nat.sub_self, List.set_cons_zero]

/-- A copy that keeps the last place free has a zero there if the string is not
    shorter than the buffer, unless there is no last place. -/
theorem strlcpy_of_le (h : dest.length ≤ strlen src) :
    strlcpy dest src = .ok (strlen src, (src.take dest.length).set (dest.length - 1) 0) := by
  rw [strlcpy_eq]
  cases hroom : dest.length with
  | zero =>
      rw [List.length_eq_zero_iff] at hroom
      rw [hroom]
      rfl
  | succ room =>
      have hle := strlen_le src
      have hlast : room < src.length := by omega
      have hlength : (src.take room).length = room := List.length_take_of_le (Nat.le_of_lt hlast)
      -- One character less than there are places leaves the last one for the zero.
      rw [Nat.add_sub_cancel, ← take_eq_take_chars (by omega), withText_of_lt (by omega), hlength,
        ← hroom, List.drop_length, hroom, set_take hlast]

/-- The first bytes of a buffer that are filled have the characters of the
    string, as many as there are, and zeros behind them. The other bytes are as
    they were. -/
theorem stpncpy_getElem? (n : Nat) :
    ∃ left, stpncpy dest src n = .ok (min (strlen src) (min n dest.length), left) ∧
      left.length = dest.length ∧
      (∀ i, i < min (strlen src) (min n dest.length) → left[i]? = src[i]?) ∧
      (∀ i, min (strlen src) (min n dest.length) ≤ i → i < min n dest.length →
        left[i]? = some 0) ∧
      ∀ i, min n dest.length ≤ i → left[i]? = dest[i]? := by
  rw [stpncpy_eq]
  dsimp only
  rw [Nat.min_comm (min n dest.length) (strlen src)]
  generalize hm : min n dest.length = m
  have hle : m ≤ dest.length := by omega
  have htext : ((chars src).take m).length = min (strlen src) m := by
    rw [List.length_take, length_chars, Nat.min_comm]
  have hfilled : ((chars src).take m ++ List.replicate (m - min (strlen src) m) 0).length = m := by
    rw [List.length_append, htext, List.length_replicate]
    omega
  refine ⟨_, rfl, ?_, ?_, ?_, ?_⟩
  · rw [List.length_append, hfilled, List.length_drop]
    omega
  -- The three ranges are the three parts of what is left.
  · intro i hi
    rw [List.getElem?_append_left (by omega), List.getElem?_append_left (by omega),
      ← take_strlen, List.take_take, List.getElem?_take_of_lt (by omega)]
  · intro i hlo hhi
    rw [List.getElem?_append_left (by omega), List.getElem?_append_right (by omega), htext,
      List.getElem?_replicate_of_lt (by omega)]
  · intro i hi
    rw [List.getElem?_append_right (by omega), hfilled, List.getElem?_drop]
    congr 1
    omega

end

/-- A string that is shorter than the buffer is left there with its zero,
    whichever routine copies it, and the rest of the buffer is as it was. The
    one that fills has to be told to fill exactly as many bytes, and the one
    that copies up to a zero has to find one. Of a string that is not shorter,
    they leave as many characters as there is room for and no zero, but for the
    routine that has its zero in the last place, if there is one. For every
    number of bytes, the one that fills leaves the characters, then zeros, then
    what was there. -/
theorem copies_agree {dest : Bytes} (src : Bytes) (hdest : dest.length < Word.limit) :
    (strlen src < dest.length →
      let left := chars src ++ 0 :: dest.drop (strlen src + 1)
      strcpy dest src = .ok left ∧ stpcpy dest src = .ok (strlen src, left) ∧
        strlcpy dest src = .ok (strlen src, left) ∧
        stpncpy dest src (strlen src + 1) = .ok (strlen src, left) ∧
        (0 ∈ src → memccpy dest src 0 = .ok (some (strlen src + 1), left))) ∧
    (dest.length ≤ strlen src →
      let left := src.take dest.length
      0 ∉ left ∧ strcpy dest src = .ok left ∧ stpcpy dest src = .ok (dest.length, left) ∧
        (∀ n, dest.length ≤ n → stpncpy dest src n = .ok (dest.length, left)) ∧
        memccpy dest src 0 = .ok (none, left) ∧
        strlcpy dest src = .ok (strlen src, left.set (dest.length - 1) 0)) ∧
    ∀ n, ∃ left, stpncpy dest src n = .ok (min (strlen src) (min n dest.length), left) ∧
      left.length = dest.length ∧
      (∀ i, i < min (strlen src) (min n dest.length) → left[i]? = src[i]?) ∧
      (∀ i, min (strlen src) (min n dest.length) ≤ i → i < min n dest.length →
        left[i]? = some 0) ∧
      ∀ i, min n dest.length ≤ i → left[i]? = dest[i]? := by
  refine ⟨fun h => ⟨?_, stpcpy_of_lt h, strlcpy_of_lt h, stpncpy_of_lt h, memccpy_of_lt h hdest⟩,
    fun h => ⟨zero_notMem_take h, ?_, stpcpy_of_le h, fun n => stpncpy_of_le h,
      memccpy_of_le h hdest, strlcpy_of_le h⟩, stpncpy_getElem?⟩
  · rw [strcpy, stpcpy_of_lt h]
    rfl
  · rw [strcpy, stpcpy_of_le h]
    rfl

/-- Two characters and their zero in a buffer of three bytes, and without a
    place for the zero in one of two. -/
theorem copies_with_and_without_zero :
    stpcpy [9, 9, 9] [65, 66, 0, 67] = .ok (2, [65, 66, 0]) ∧
    memccpy [9, 9, 9] [65, 66, 0, 67] 0 = .ok (some 3, [65, 66, 0]) ∧
    stpncpy [9, 9] [65, 66, 0, 67] 7 = .ok (2, [65, 66]) ∧
    strlcpy [9, 9] [65, 66, 0, 67] = .ok (2, [65, 0]) := by
  have hthree : ([9, 9, 9] : Bytes).length < Word.limit := by decide
  have htwo : ([9, 9] : Bytes).length < Word.limit := by decide
  rcases (copies_agree [65, 66, 0, 67] hthree).1 (by decide) with ⟨-, hcopy, -, -, hbytes⟩
  rcases (copies_agree [65, 66, 0, 67] htwo).2.1 (by decide) with ⟨-, -, -, hfill, -, hkeep⟩
  exact ⟨hcopy, hbytes (by decide), hfill 7 (by decide), hkeep⟩

end CString

end Freestanding
