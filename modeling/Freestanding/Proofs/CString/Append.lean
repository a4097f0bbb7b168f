import Freestanding.Proofs.CString.Copy
import Freestanding.Routine

/-!
# Appending

Appending is copying behind the string that is there, and strings that are
appended one after the other are one string.

The three routines that append look for the end of the string in the buffer and
copy to what is behind it. So they differ as the copies do, on a buffer that is
shorter by the string: not at all where both strings and a zero fit, and in the
last byte where they do not. The one that counts characters appends the front of
its string. A caller finds out that something was left out from the length that
one of them answers, which is the length of both strings and takes no notice of
the room.

A string can be put together in a buffer piece by piece. Every piece is written
where the pieces before it end, and that place has to be found again. What makes
this come out right is that a text without a zero is found again as a whole: the
string in a buffer that holds text is the text, cut off where the buffer ends or
not, and so text behind it continues it. Text that was cut off fills the room,
and then there is no room for any other. So after each step the buffer holds
all the pieces so far, cut off at the room for them, and which routine wrote
them says only how much room there is.

## Main definitions

* `Routine.leave`: What calls leave, one after the other.

## Theorems

* `strcat_of_stpcpy`, `strlcat_of_strlcpy`: Appending is copying.
* `strncat_eq_strcat`: Appending some characters of a string.
* `strcat_of_lt`, `strlcat_of_lt`, `strcat_of_le`, `strlcat_of_le`: Appending with
  and without enough room.
* `appenders_agree`: The routines that append, compared.
* `chars_withText`: The string in a buffer that holds text.
* `withText_getElem?`, `withText_take_of_le`: What is behind text, and text that is
  cut off.
* `append_withText`, `append_withText_take`: Text behind text.
* `Routine.leave_pieces`: What appending the pieces of a text leaves.
* `Routine.built_like_whole`: A string put together is copied as a whole.
-/

namespace Freestanding

namespace CString

section

variable {dest src : Bytes}

/-- Appending leaves what copying to the buffer behind its string leaves. -/
theorem strcat_of_stpcpy {n : Nat} {tail : Bytes}
    (h : stpcpy (dest.drop (strlen dest)) src = .ok (n, tail)) :
    strcat dest src = .ok (chars dest ++ tail) := by
  rw [strcat, Bytes.onTail_eq (strlen_le dest), h, take_strlen]
  rfl

/-- Appending with a final zero leaves what copying with one to the buffer behind its
    string leaves, also where the string fills the buffer. -/
theorem strlcat_of_strlcpy {n : Nat} {tail : Bytes}
    (hword : dest.length + strlen src < Word.limit)
    (h : strlcpy (dest.drop (strlen dest)) src = .ok (n, tail)) :
    strlcat dest src = .ok (strlen dest + strlen src, chars dest ++ tail) := by
  rw [strlcpy_eq, List.length_drop] at h
  cases h
  exact strlcat_eq hword

/-- Appending some characters of a string is appending the front of it. -/
theorem strncat_eq_strcat (n : Nat) :
    strncat dest src n = strcat dest (src.take (min n src.length)) := by
  have hle := length_chars_le src
  rw [strncat_eq, strcat_eq, chars_take, List.take_take]
  congr 3
  rw [List.take_eq_take_iff]
  omega

/-- Appending all characters of a string is appending it. -/
theorem strncat_of_le {n : Nat} (h : strlen src ≤ n) : strncat dest src n = strcat dest src := by
  have hle := strlen_le src
  rw [strncat_eq_strcat, strcat_eq, strcat_eq, chars_take, take_chars (by omega)]

theorem lt_length_drop_iff :
    strlen src < (dest.drop (strlen dest)).length ↔ strlen dest + strlen src < dest.length := by
  rw [List.length_drop]
  omega

theorem length_drop_le_iff :
    (dest.drop (strlen dest)).length ≤ strlen src ↔ dest.length ≤ strlen dest + strlen src := by
  rw [List.length_drop]
  omega

/-- Where both strings and a zero fit, appending leaves them and the rest of the
    buffer. -/
theorem strcat_of_lt (h : strlen dest + strlen src < dest.length) :
    strcat dest src =
      .ok (chars dest ++ chars src ++ 0 :: dest.drop (strlen dest + strlen src + 1)) := by
  rw [strcat_of_stpcpy (stpcpy_of_lt (lt_length_drop_iff.mpr h)), List.drop_drop,
    List.append_assoc, Nat.add_assoc]

theorem strlcat_of_lt (hword : dest.length + strlen src < Word.limit)
    (h : strlen dest + strlen src < dest.length) :
    strlcat dest src = .ok (strlen dest + strlen src,
      chars dest ++ chars src ++ 0 :: dest.drop (strlen dest + strlen src + 1)) := by
  rw [strlcat_of_strlcpy hword (strlcpy_of_lt (lt_length_drop_iff.mpr h)), List.drop_drop,
    List.append_assoc, Nat.add_assoc]

/-- Where they do not, appending fills the buffer. -/
theorem strcat_of_le (h : dest.length ≤ strlen dest + strlen src) :
    strcat dest src = .ok (chars dest ++ src.take (dest.length - strlen dest)) := by
  rw [strcat_of_stpcpy (stpcpy_of_le (length_drop_le_iff.mpr h)), List.length_drop]

theorem strlcat_of_le (hword : dest.length + strlen src < Word.limit)
    (h : dest.length ≤ strlen dest + strlen src) :
    strlcat dest src = .ok (strlen dest + strlen src, chars dest ++
      (src.take (dest.length - strlen dest)).set (dest.length - strlen dest - 1) 0) := by
  rw [strlcat_of_strlcpy hword (strlcpy_of_le (length_drop_le_iff.mpr h)), List.length_drop]

/-- The last character of a string that is written where there is no room for
    more, and a zero in its place. -/
theorem exists_take_concat {room : Nat} (hpos : 0 < room) (h : room ≤ strlen src) :
    ∃ front c, src.take room = front ++ [c] ∧ (src.take room).set (room - 1) 0 = front ++ [0] ∧
      c ≠ 0 ∧ c ∈ chars src := by
  cases room with
  | zero => exact absurd hpos (Nat.lt_irrefl 0)
  | succ room =>
      have hlast : room < src.length := Nat.lt_of_lt_of_le h (strlen_le src)
      have htake : src.take (room + 1) = src.take room ++ [src[room]] :=
        List.take_succ_eq_append_getElem hlast
      have hmem : src[room] ∈ chars src := by
        have hin : src[room] ∈ src.take (room + 1) := by
          rw [htake]
          exact List.mem_append_right _ List.mem_cons_self
        rw [take_eq_take_chars h] at hin
        exact List.mem_of_mem_take hin
      refine ⟨src.take room, src[room], htake, ?_, ?_, hmem⟩
      · rw [Nat.add_sub_cancel, set_take hlast]
      · exact fun h0 => zero_notMem_chars src (h0 ▸ hmem)

end

/-- Appending a number of characters is appending the front of a string. Where
    both strings and a zero fit, the routines leave the same. Where the second
    string does not fit behind the first one, one routine fills the buffer with
    characters and the other one has a zero instead of the last of them. Where
    the first string fills the buffer, nothing is changed. The length that is
    answered is that of both strings, and it is at least that of the buffer
    exactly where the strings and a zero are not what is left. -/
theorem appenders_agree {dest src : Bytes} (hdest : 2 * dest.length < Word.limit)
    (hsrc : 2 * src.length < Word.limit) :
    (∀ n, ∃ left, strncat dest src n = .ok left ∧
      strcat dest (src.take (min n src.length)) = .ok left) ∧
    ∃ left kept, strcat dest src = .ok left ∧
      strlcat dest src = .ok (strlen dest + strlen src, kept) ∧
      (strlen dest + strlen src < dest.length →
        left = chars dest ++ chars src ++ 0 :: dest.drop (strlen dest + strlen src + 1) ∧
          kept = left ∧ ∀ n, strlen src ≤ n → strncat dest src n = .ok left) ∧
      (strlen dest < dest.length → dest.length ≤ strlen dest + strlen src →
        left = (chars dest ++ chars src).take dest.length ∧ 0 ∉ left ∧
          ∃ front c, left = front ++ [c] ∧ kept = front ++ [0] ∧ c ≠ 0 ∧ c ∈ chars src) ∧
      (strlen dest = dest.length → left = dest ∧ kept = dest) ∧
      (dest.length ≤ strlen dest + strlen src ↔ ¬chars dest ++ chars src ++ [0] <+: kept) := by
  have hle := strlen_le dest
  have hk := strlen_le src
  have hword : dest.length + strlen src < Word.limit := by omega
  refine ⟨fun n => ⟨_, strncat_eq_strcat n ▸ strcat_eq _ _, strcat_eq _ _⟩, ?_⟩
  rcases Nat.lt_or_ge (strlen dest + strlen src) dest.length with hfits | hfull
  · refine ⟨_, _, strcat_of_lt hfits, strlcat_of_lt hword hfits, ?_, ?_, ?_, ?_⟩
    · intro _
      refine ⟨rfl, rfl, fun n hn => ?_⟩
      rw [strncat_of_le hn, strcat_of_lt hfits]
    · intro _ hfull
      exact absurd hfits (Nat.not_lt_of_le hfull)
    · intro hall
      omega
    · refine ⟨fun hfull => absurd hfits (Nat.not_lt_of_le hfull), fun hnot => absurd ?_ hnot⟩
      refine ⟨dest.drop (strlen dest + strlen src + 1), ?_⟩
      rw [List.append_assoc, List.singleton_append]
  · have hrest : dest.length - strlen dest ≤ strlen src := by omega
    refine ⟨_, _, strcat_of_le hfull, strlcat_of_le hword hfull, ?_, ?_, ?_, ?_⟩
    · intro hfits
      exact absurd hfits (Nat.not_lt_of_le hfull)
    · intro hroom _
      refine ⟨?_, ?_, ?_⟩
      · rw [List.take_append, take_chars hle, length_chars, take_eq_take_chars hrest]
      · rw [List.mem_append, not_or, take_eq_take_chars hrest]
        exact ⟨zero_notMem_chars dest, fun h0 => zero_notMem_chars src (List.mem_of_mem_take h0)⟩
      · rcases exists_take_concat (Nat.sub_pos_of_lt hroom) hrest with
          ⟨front, c, hleft, hkept, hc⟩
        refine ⟨chars dest ++ front, c, ?_, ?_, hc⟩
        · rw [hleft, List.append_assoc]
        · rw [hkept, List.append_assoc]
    · -- There is no room behind the string, so the rest that is written is empty.
      intro hall
      rw [hall, Nat.sub_self, chars_of_full hall]
      simp only [List.take_zero, List.set_nil, List.append_nil, and_self]
    · refine ⟨fun _ hfits => ?_, fun _ => hfull⟩
      -- The strings and the zero are longer than the buffer.
      have hlonger := hfits.length_le
      simp only [List.length_append, List.length_set, List.length_take, List.length_cons,
        List.length_nil, length_chars] at hlonger
      omega

/-- In a buffer of four bytes, two characters have room for one more and a zero,
    and not for two more. -/
theorem appended_with_and_without_zero :
    (∃ left, strcat [65, 66, 0, 9] [67, 0, 68] = .ok left ∧
      strlcat [65, 66, 0, 9] [67, 0, 68] = .ok (3, left) ∧
      strncat [65, 66, 0, 9] [67, 0, 68] 7 = .ok left) ∧
    ∃ front c, strcat [65, 66, 0, 9] [67, 68] = .ok (front ++ [c]) ∧
      strlcat [65, 66, 0, 9] [67, 68] = .ok (4, front ++ [0]) ∧ c ≠ 0 := by
  have hdest : 2 * ([65, 66, 0, 9] : Bytes).length < Word.limit := by decide
  have hone : 2 * ([67, 0, 68] : Bytes).length < Word.limit := by decide
  have htwo : 2 * ([67, 68] : Bytes).length < Word.limit := by decide
  rcases (appenders_agree hdest hone).2 with ⟨left, kept, hleft, hkept, hfits, -⟩
  rcases hfits (by decide) with ⟨-, rfl, hcount⟩
  rcases (appenders_agree hdest htwo).2 with ⟨left', kept', hleft', hkept', -, hfull, -⟩
  rcases hfull (by decide) (by decide) with ⟨-, -, front, c, rfl, rfl, hc, -⟩
  exact ⟨⟨kept, hleft, hkept, hcount 7 (by decide)⟩, front, c, hleft', hkept', hc⟩

/-- The string in a buffer that holds text without a zero is the text. -/
theorem chars_withText {dest text : Bytes} (hzero : 0 ∉ text) (h : text.length ≤ dest.length) :
    chars (withText dest text) = text := by
  rcases Nat.lt_or_eq_of_le h with hlt | hsame
  · rw [withText_of_lt hlt, chars_append_zero hzero]
  · rw [withText_of_length_eq hsame, chars_eq_self hzero]

/-- Behind its zero, text leaves a buffer as it was. -/
theorem withText_getElem? {dest text : Bytes} {i : Nat} (hi : text.length < i) :
    (withText dest text)[i]? = dest[i]? := by
  rw [withText, List.getElem?_set_ne (Nat.ne_of_lt hi), List.getElem?_append_right (Nat.le_of_lt hi),
    List.getElem?_drop, Nat.add_sub_cancel' (Nat.le_of_lt hi)]

/-- Text that is not shorter than a buffer, with the last place of the buffer kept
    free for the zero. -/
theorem withText_take_of_le {dest text : Bytes} (hpos : 0 < dest.length)
    (h : dest.length ≤ text.length) :
    withText dest (text.take (dest.length - 1)) = text.take (dest.length - 1) ++ [0] := by
  have hlength : (text.take (dest.length - 1)).length = dest.length - 1 :=
    List.length_take_of_le (by omega)
  rw [withText_of_lt (by omega), hlength, Nat.sub_add_cancel hpos, List.drop_length]

/-- Text that is written behind text without a zero continues it. -/
theorem append_withText {dest text : Bytes} (more : Bytes) (hzero : 0 ∉ text)
    (h : text.length ≤ dest.length) :
    chars (withText dest text) ++
        withText ((withText dest text).drop (strlen (withText dest text))) more =
      withText dest (text ++ more) := by
  -- The zero behind the text gives way to what is written over it.
  have hover : ∀ (s : Bytes) (n : Nat), ((s.set 0 0).drop n).set 0 0 = (s.drop n).set 0 0 := by
    intro s n
    cases s with
    | nil => rfl
    | cons b s => cases n <;> rfl
  have htail : (withText dest text).drop text.length = (dest.drop text.length).set 0 0 := by
    rw [withText_eq, List.drop_left]
  rw [← length_chars, chars_withText hzero h, htail, withText_eq, withText_eq, hover,
    List.drop_drop, List.length_append, List.append_assoc]

/-- Text that is cut off at the room for it is continued as far as there is room
    left, which is not at all if it was cut off. -/
theorem append_withText_take {dest text : Bytes} {room : Nat} (more : Bytes) (hzero : 0 ∉ text)
    (hroom : room ≤ dest.length) :
    chars (withText dest (text.take room)) ++
        withText ((withText dest (text.take room)).drop (strlen (withText dest (text.take room))))
          (more.take (room - strlen (withText dest (text.take room)))) =
      withText dest ((text ++ more).take room) := by
  have hcut : 0 ∉ text.take room := fun h0 => hzero (List.mem_of_mem_take h0)
  have hfits : (text.take room).length ≤ dest.length :=
    Nat.le_trans (List.length_take_le _ _) hroom
  have hlen : strlen (withText dest (text.take room)) = min room text.length := by
    rw [← length_chars, chars_withText hcut hfits, List.length_take]
  have hleft : room - min room text.length = room - text.length := by omega
  rw [append_withText _ hcut hfits, hlen, hleft, List.take_append]

/-- Strings one after the other have no zero. -/
theorem zero_notMem_flatMap (strings : List Bytes) : 0 ∉ strings.flatMap chars := by
  intro h0
  rcases List.mem_flatMap.mp h0 with ⟨s, -, h0⟩
  exact zero_notMem_chars s h0

end CString

namespace Routine

open CString

/-- What calls leave that are made on a buffer one after the other. -/
def leave (s : Bytes) (calls : List Routine) : Checked Bytes :=
  calls.foldlM (fun s r => (r.run s).map Prod.snd) s

theorem leave_nil (s : Bytes) : leave s [] = .ok s := rfl

theorem leave_cons {s t : Bytes} {r : Routine} (calls : List Routine)
    (h : (r.run s).map Prod.snd = .ok t) : leave s (r :: calls) = leave t calls := by
  rw [leave, List.foldlM_cons, h]
  rfl

/-- Pieces that are appended to text, with room for `room` characters, leave
    the text and all of the pieces as far as there is room. -/
theorem leave_pieces {dest text : Bytes} {room : Nat} {call : Bytes → Routine}
    {pieces : List Bytes} (hroom : room ≤ dest.length)
    (hcall : ∀ piece ∈ pieces, ∀ s : Bytes, s.length = dest.length →
      ((call piece).run s).map Prod.snd = .ok (chars s ++
        withText (s.drop (CString.strlen s)) ((chars piece).take (room - CString.strlen s))))
    (hzero : 0 ∉ text) :
    leave (withText dest (text.take room)) (pieces.map call) =
      .ok (withText dest ((text ++ pieces.flatMap chars).take room)) := by
  -- Each piece is appended to a buffer that holds the text so far, cut off at
  -- the room, and leaves one that holds the longer text.
  induction pieces generalizing text with
  | nil => rw [List.map_nil, leave_nil, List.flatMap_nil, List.append_nil]
  | cons piece pieces ih =>
      rcases List.forall_mem_cons.mp hcall with ⟨hfirst, hothers⟩
      have hlength : (withText dest (text.take room)).length = dest.length :=
        length_withText (Nat.le_trans (List.length_take_le _ _) hroom)
      have hzero' : 0 ∉ text ++ chars piece := by
        rw [List.mem_append, not_or]
        exact ⟨hzero, zero_notMem_chars piece⟩
      rw [List.map_cons, leave_cons _ (hfirst _ hlength), append_withText_take _ hzero hroom,
        ih hothers hzero', List.flatMap_cons, List.append_assoc]

theorem left_by_strcpy (s t : Bytes) :
    ((strcpy t).run s).map Prod.snd = .ok (withText s ((chars t).take s.length)) := by
  rw [run, strcpy_eq]
  rfl

theorem left_by_strlcpy (s t : Bytes) :
    ((strlcpy t).run s).map Prod.snd = .ok (withText s ((chars t).take (s.length - 1))) := by
  rw [run, strlcpy_eq]
  rfl

theorem left_by_strcat (s t : Bytes) :
    ((strcat t).run s).map Prod.snd = .ok (chars s ++
      withText (s.drop (CString.strlen s)) ((chars t).take (s.length - CString.strlen s))) := by
  rw [run, strcat_eq]
  rfl

theorem left_by_strlcat {s t : Bytes} (h : s.length + CString.strlen t < Word.limit) :
    ((strlcat t).run s).map Prod.snd = .ok (chars s ++
      withText (s.drop (CString.strlen s)) ((chars t).take (s.length - 1 - CString.strlen s))) := by
  rw [run, strlcat_eq h, Nat.sub_right_comm]
  rfl

/-- A string that is copied to a buffer and others that are appended to it, one
    after the other, leave what a copy of all of them as one string leaves, in
    every byte of the buffer. So it is with a final zero in any case and without
    one, and wherever the room ends. -/
theorem built_like_whole {dest : Bytes} (s : Bytes) {others : List Bytes}
    (hdest : 2 * dest.length < Word.limit) (hothers : ∀ t ∈ others, 2 * t.length < Word.limit) :
    (∃ left, leave dest (strlcpy s :: others.map strlcat) = .ok left ∧
      leave dest [strlcpy ((s :: others).flatMap chars)] = .ok left) ∧
    ∃ left, leave dest (strcpy s :: others.map strcat) = .ok left ∧
      leave dest [strcpy ((s :: others).flatMap chars)] = .ok left := by
  have hwhole : chars ((s :: others).flatMap chars) = chars s ++ others.flatMap chars := by
    rw [chars_eq_self (zero_notMem_flatMap _), List.flatMap_cons]
  have hzero := zero_notMem_chars s
  refine ⟨⟨_, ?_, leave_cons _ (left_by_strlcpy _ _)⟩, _, ?_, leave_cons _ (left_by_strcpy _ _)⟩
  · rw [leave_cons _ (left_by_strlcpy dest s), leave_pieces (Nat.sub_le _ _) ?_ hzero, hwhole]
    intro t ht u hu
    have hle := strlen_le t
    have hlimit := hothers t ht
    rw [← hu]
    exact left_by_strlcat (by omega)
  · rw [leave_cons _ (left_by_strcpy dest s), leave_pieces (Nat.le_refl _) ?_ hzero, hwhole]
    intro t ht u hu
    rw [← hu]
    exact left_by_strcat u t

/-- Three pieces, of which the second one is cut off by a zero and the third one
    finds no room. -/
theorem built_from_three :
    ∃ left, leave [9, 9, 9] [strlcpy [65], strlcat [66, 0, 67], strlcat [68]] = .ok left ∧
      leave [9, 9, 9] [strlcpy [65, 66, 68]] = .ok left := by
  have hdest : 2 * ([9, 9, 9] : Bytes).length < Word.limit := by decide
  have hothers : ∀ t ∈ ([[66, 0, 67], [68]] : List Bytes), 2 * t.length < Word.limit := by decide
  exact (built_like_whole [65] hdest hothers).1

end Routine

end Freestanding
