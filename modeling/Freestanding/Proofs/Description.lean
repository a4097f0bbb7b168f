import Freestanding.Errno
import Freestanding.Proofs.CString.Append

/-!
# Descriptions in Buffers

A caller that asks for the description of an error in a buffer learns whether all of
it is there.

The description is copied as a string, and what is reported is a comparison of the
length that the copy answers with the length of the buffer. That length is the
one of the string, which ends at the first zero. A description with a zero in it
would be cut off there and reported as complete, so it matters that no entry of
the table has one. With this, the string that is copied is the whole description,
and it fits exactly where it is shorter than the buffer: one byte is needed for the
zero.

Where it does not fit, the buffer is filled with the front of the description and
a zero in the last place, so it holds a string in any case, unless it has no bytes.

## Theorems

* `Errno.strerror_mem`: Every number has a description from the table, or the one
  of unknown numbers.
* `Errno.zero_notMem_text`: No description has a zero in it.
* `Errno.strerror_r_eq`: What is reported and what is left.
* `Errno.description_complete_or_reported`: What the caller learns.
-/

namespace Freestanding

namespace Errno

open CString

/-- Every number is described by an entry of the table or as an unknown one. -/
theorem strerror_mem (code : Int) : strerror code ∈ unknown :: descriptions := by
  unfold strerror
  split
  · exact List.mem_cons_self
  · rw [List.getD_eq_getElem?_getD]
    cases hentry : descriptions[code.toNat]? with
    | none => exact List.mem_cons_self
    | some d => exact List.mem_cons_of_mem _ (List.mem_of_getElem? hentry)

/-- No description has a zero among its bytes, which is read off the table. -/
theorem zero_notMem_entry : ∀ d ∈ unknown :: descriptions, 0 ∉ d.toUTF8.data.toList := by
  decide +kernel

theorem zero_notMem_text (code : Int) : 0 ∉ text code :=
  zero_notMem_entry _ (strerror_mem code)

/-- The string that is copied is the whole description, which has no zero in it. -/
theorem chars_text (code : Int) : chars (text code) = text code :=
  chars_eq_self (zero_notMem_text code)

theorem strlen_text (code : Int) : strlen (text code) = (text code).length := by
  rw [← length_chars, chars_text]

/-- The length of the description is compared with that of the buffer, and as much
    of it as leaves room for a zero is written. -/
theorem strerror_r_eq (code : Int) (s : Bytes) :
    strerror_r code s =
      .ok (if s.length ≤ (text code).length then .error erange else .ok (),
        withText s ((text code).take (s.length - 1))) := by
  have hlength : (withText s ((text code).take (s.length - 1))).length = s.length :=
    length_withText (Nat.le_trans (List.length_take_le _ _) (Nat.sub_le _ _))
  rw [strerror_r, strlcpy_eq, Checked.ok_bind, strlen_text, chars_text]
  dsimp only
  rw [hlength]
  split <;> rfl

/-- Numbers that no error has are described as unknown. -/
theorem strerror_of_unknown {code : Int} (h : code < 0 ∨ 79 ≤ code) : strerror code = unknown := by
  rcases h with hneg | hlarge
  · exact strerror_of_neg hneg
  · exact strerror_of_count_le (by rwa [count_eq])

/-- A call for a description succeeds exactly if the description is shorter than the
    buffer, and then the string in the buffer is the description. Otherwise it
    reports that the result is too large, and a buffer that has any bytes holds as
    much of the description as leaves room for a zero, and that zero. Behind the
    zero, the bytes of the buffer are as they were. A number that no error has is
    described as unknown, and all calls with such numbers are alike. -/
theorem description_complete_or_reported (code : Int) (s : Bytes) :
    (∃ result left, strerror_r code s = .ok (result, left) ∧ left.length = s.length ∧
      (result = .ok () ↔ (text code).length < s.length) ∧
      ((text code).length < s.length → chars left = text code) ∧
      (s.length ≤ (text code).length → result = .error 69 ∧
        (0 < s.length → left = (text code).take (s.length - 1) ++ [0]) ∧
        (s.length = 0 → left = s)) ∧
      ∀ i, min (text code).length (s.length - 1) < i → left[i]? = s[i]?) ∧
    (code < 0 ∨ 79 ≤ code → strerror code = "Unknown error" ∧
      ∀ other, other < 0 ∨ 79 ≤ other → strerror_r code s = strerror_r other s) := by
  have hroom : ((text code).take (s.length - 1)).length ≤ s.length :=
    Nat.le_trans (List.length_take_le _ _) (Nat.sub_le _ _)
  refine ⟨⟨_, _, strerror_r_eq code s, length_withText hroom, ?_, fun hfits => ?_, fun hfull => ?_,
    fun i hi => ?_⟩, fun hunknown => ⟨strerror_of_unknown hunknown, fun other hother => ?_⟩⟩
  · rw [← Nat.not_le]
    split <;> simp [*]
  · have hwhole : (text code).take (s.length - 1) = text code :=
      List.take_of_length_le (Nat.le_sub_one_of_lt hfits)
    rw [hwhole, chars_withText (zero_notMem_text code) (Nat.le_of_lt hfits)]
  · refine ⟨if_pos hfull, fun hpos => withText_take_of_le hpos hfull, fun hnone => ?_⟩
    rw [List.length_eq_zero_iff] at hnone
    rw [hnone]
    rfl
  · exact withText_getElem? (by rw [List.length_take]; omega)
  · rw [strerror_r, strerror_r, text, text, strerror_of_unknown hunknown,
      strerror_of_unknown hother]

/-- A buffer of four bytes has room for three characters of a description, and a
    negative number is described like a large one. -/
theorem reported_as_cut_off :
    (∃ left, strerror_r enomem [9, 9, 9, 9] = .ok (.error 69, left) ∧
      left = (text enomem).take 3 ++ [0]) ∧
    strerror (-5) = "Unknown error" ∧ strerror_r (-5) [9, 9] = strerror_r 79 [9, 9] := by
  rcases (description_complete_or_reported enomem [9, 9, 9, 9]).1 with
    ⟨result, left, hcall, -, -, -, hfull, -⟩
  rcases hfull (by decide) with ⟨rfl, hleft, -⟩
  rcases (description_complete_or_reported (-5) [9, 9]).2 (by decide) with ⟨hunknown, halike⟩
  exact ⟨⟨left, hcall, hleft (by decide)⟩, hunknown, halike 79 (by decide)⟩

end Errno

end Freestanding
