import Freestanding.Routine

/-!
# Routines That Do Not Fault

Every call answers, whatever the buffers, the counts and the indices are.

A routine takes ranges out of buffers, copies between ranges and adds to
lengths, and each of these can be a fault. What keeps the ranges in their
buffers is the clamping in front of them, so there is nothing that a caller has
to see to: an index may lie far behind the end, and a count may be larger than
any buffer. What keeps the sums in the range of words is that buffers are not
as long as that. Only the sum of two lengths could be too large, where one
string is appended to another, and there half the range for each is enough.

A call that writes works on the buffer in place. So the one it leaves has the
length that it had, also where the text that is written would have needed more
room or less.

## Main definitions

* `Routine.Answers`: A call answers within bounds.

## Theorems

* `Memory.length_memccpy`, `Memory.length_moved`, `CString.length_filled`,
  `CString.length_append_withText`: What is written stays in the buffer.
* `Routine.answers_of_number`, `Routine.answers_of_place`,
  `Routine.answers_of_verdict`, `Routine.answers_of_write`,
  `Routine.answers_of_copy`: Calls by what they answer.
* `Routine.answers_run`: Every call answers.
* `Routine.answers_within_bounds`: No call is a fault.
-/

namespace Freestanding

namespace Memory

/-- Bytes copied to the front of a buffer that has as many keep its length. -/
theorem length_copied {dest src : Bytes} {m : Nat} (hdest : m ≤ dest.length)
    (hsrc : m ≤ src.length) : (src.take m ++ dest.drop m).length = dest.length := by
  rw [List.length_append, List.length_take_of_le hsrc, List.length_drop]
  omega

/-- A copy up to a byte stays in both buffers. -/
theorem length_memccpy {dest src t : Bytes} {c : UInt8} {stop : Option Nat}
    (hword : dest.length < Word.limit) (h : memccpy dest src c = .ok (stop, t)) :
    t.length = dest.length ∧ ∀ i, stop = some i → i ≤ dest.length := by
  rw [memccpy_eq src c hword] at h
  dsimp only at h
  cases hfound : memchr (src.take dest.length) c with
  | none =>
      rw [hfound] at h
      cases h
      refine ⟨length_copied (Nat.min_le_left _ _) (Nat.min_le_right _ _), fun i hi => ?_⟩
      cases hi
  | some i =>
      have hi := memchr_lt hfound
      rw [List.length_take] at hi
      rw [hfound] at h
      cases h
      have hdest : i + 1 ≤ dest.length := by omega
      have hsrc : i + 1 ≤ src.length := by omega
      refine ⟨length_copied hdest hsrc, fun j hj => ?_⟩
      cases hj
      exact hdest

/-- A move stays in the buffer. -/
theorem length_moved (s : Bytes) (dest src n : Nat) :
    let m := min n (min (s.length - dest) (s.length - src))
    (s.take dest ++ (s.drop src).take m ++ s.drop (dest + m)).length = s.length := by
  simp only [List.length_append, List.length_take, List.length_drop]
  omega

end Memory

namespace CString

/-- Text that is appended where there is room for it keeps the length of a
    buffer. -/
theorem length_append_withText {dest text : Bytes}
    (h : text.length ≤ dest.length - strlen dest) :
    (chars dest ++ withText (dest.drop (strlen dest)) text).length = dest.length := by
  have hle := strlen_le dest
  rw [List.length_append, length_chars, length_withText (by rwa [List.length_drop]),
    List.length_drop]
  omega

/-- Characters with zeros behind them fill the front of a buffer. -/
theorem length_filled (dest src : Bytes) (n : Nat) :
    let m := min n dest.length
    ((chars src).take m ++ List.replicate (m - min m (strlen src)) 0 ++
      dest.drop m).length = dest.length := by
  simp only [List.length_append, List.length_take, length_chars, List.length_replicate,
    List.length_drop]
  omega

/-- A place is found among the characters or where they end. -/
theorem le_of_found {s : Bytes} {c : UInt8} {found : Option Nat} {i : Nat}
    (hfound : ∀ j, found = some j → j < (chars s).length)
    (hi : (if c = 0 then some (strlen s) else found) = some i) : i ≤ s.length := by
  have hlen := strlen_le s
  by_cases hc : c = 0
  · rw [if_pos hc] at hi
    cases hi
    exact hlen
  · rw [if_neg hc] at hi
    have hlt := hfound i hi
    rw [length_chars] at hlt
    omega

end CString

namespace Routine

open Memory CString

/-- A call on `s` answers. No number in its answer is larger than `bound`, and
    the buffer that it leaves is as long as the one that it was given. -/
def Answers (s : Bytes) (bound : Nat) (x : Checked (Answer × Bytes)) : Prop :=
  ∃ a t, x = .ok (a, t) ∧ t.length = s.length ∧ ∀ n, a.number? = some n → n ≤ bound

section

variable {s t : Bytes} {bound : Nat}

/-- A call that only reads leaves the buffer that it was given. -/
theorem answers_of_read {α : Type} {x : Checked α} {v : α} {f : α → Answer} (hx : x = .ok v)
    (hv : ∀ n, (f v).number? = some n → n ≤ bound) : Answers s bound (x.map (f ·, s)) := by
  rw [hx]
  exact ⟨f v, s, rfl, rfl, hv⟩

theorem answers_of_number {x : Checked Nat} {n : Nat} (hx : x = .ok n) (hn : n ≤ bound) :
    Answers s bound (x.map (.count ·, s)) := by
  refine answers_of_read hx fun m hm => ?_
  cases hm
  exact hn

theorem answers_of_place {x : Checked (Option Nat)} {found : Option Nat} (hx : x = .ok found)
    (hfound : ∀ i, found = some i → i ≤ bound) : Answers s bound (x.map (.place ·, s)) :=
  answers_of_read hx hfound

/-- A call that reads and answers something else than a number. -/
theorem answers_of_verdict {α : Type} {x : Checked α} {v : α} {f : α → Answer} (hx : x = .ok v)
    (hv : (f v).number? = none) : Answers s bound (x.map (f ·, s)) := by
  refine answers_of_read hx fun n hn => ?_
  rw [hv] at hn
  cases hn

/-- A call that writes and has nothing to say. -/
theorem answers_of_write {x : Checked Bytes} (hx : x = .ok t) (ht : t.length = s.length) :
    Answers s bound (x.map (.done, ·)) := by
  rw [hx]
  refine ⟨.done, t, rfl, ht, fun m hm => ?_⟩
  cases hm

/-- A call that writes and answers a number of bytes. -/
theorem answers_of_copy {x : Checked (Nat × Bytes)} {n : Nat} (hx : x = .ok (n, t))
    (hn : n ≤ bound) (ht : t.length = s.length) :
    Answers s bound (x.map (Prod.map .count id)) := by
  rw [hx]
  refine ⟨.count n, t, rfl, ht, fun m hm => ?_⟩
  cases hm
  exact hn

end

/-- Every call answers, with a number that is at most the length of both
    buffers together. -/
theorem answers_run (r : Routine) {s : Bytes} (hs : 2 * s.length < Word.limit)
    (ht : 2 * r.operand.length < Word.limit) :
    Answers s (s.length + r.operand.length) (r.run s) := by
  have hlen := strlen_le s
  have hchars := length_chars_le s
  cases r with
  -- The calls that look for the end of the string or for a byte.
  | strlen => exact answers_of_number (x := .ok _) rfl (by omega)
  | strnlen n => exact answers_of_number (strnlen_eq s n) (by omega)
  | strchr c =>
      refine answers_of_place (strchr_eq s c) fun i hi => ?_
      exact Nat.le_add_right_of_le (le_of_found (fun _ => memchr_lt) hi)
  | strrchr c =>
      refine answers_of_place (strrchr_eq s c) fun i hi => ?_
      exact Nat.le_add_right_of_le (le_of_found (fun _ => memrchr_lt) hi)
  | memchr c =>
      refine answers_of_place (x := .ok _) rfl fun i hi => ?_
      exact Nat.le_add_right_of_le (Nat.le_of_lt (memchr_lt hi))
  | memrchr c =>
      refine answers_of_place (x := .ok _) rfl fun i hi => ?_
      exact Nat.le_add_right_of_le (Nat.le_of_lt (memrchr_lt hi))
  -- The calls that compare the buffers or look for one in the other.
  | strcmp t => exact answers_of_verdict (strncmp_eq s t _) rfl
  | strncmp t n => exact answers_of_verdict (strncmp_eq s t n) rfl
  | memcmp t n => exact answers_of_verdict (x := .ok _) rfl rfl
  | strspn t =>
      have hrun := (List.takeWhile_prefix (l := chars s) (chars t).contains).length_le
      exact answers_of_number (strspn_eq s t) (by omega)
  | strcspn t =>
      have hrun :=
        (List.takeWhile_prefix (l := chars s) fun b => !(chars t).contains b).length_le
      exact answers_of_number (strcspn_eq s t) (by omega)
  | strpbrk t =>
      refine answers_of_place (strpbrk_eq s t) fun i hi => ?_
      rcases Option.ite_none_right_eq_some.mp hi with ⟨hlt, hi⟩
      cases hi
      omega
  | strstr t =>
      refine answers_of_place ((strstr_eq s t).trans (memmem_eq _ _)) fun i hi => ?_
      have hle := memmem_le ((memmem_eq (chars s) (chars t)).trans (congrArg _ hi))
      omega
  | memmem t =>
      refine answers_of_place (memmem_eq s t) fun i hi => ?_
      have hle := memmem_le ((memmem_eq s t).trans (congrArg _ hi))
      omega
  | tokens t =>
      have hword : 2 < Word.limit := by decide
      rcases exists_split (s := s) t (by omega) with ⟨pieces, hpieces⟩
      exact answers_of_verdict hpieces rfl
  -- The calls that write a string.
  | strcpy t => exact answers_of_write (strcpy_eq s t) (length_withText (List.length_take_le _ _))
  | strcat t =>
      exact answers_of_write (strcat_eq s t) (length_append_withText (List.length_take_le _ _))
  | strncpy t n => exact answers_of_write (strncpy_eq s t n) (length_filled s t n)
  | strncat t n =>
      refine answers_of_write (strncat_eq s t n) (length_append_withText ?_)
      exact Nat.le_trans (List.length_take_le _ _) (Nat.min_le_right _ _)
  | stpcpy t =>
      refine answers_of_copy (stpcpy_eq s t) ?_ (length_withText (List.length_take_le _ _))
      exact Nat.le_add_right_of_le (Nat.min_le_right _ _)
  | strlcpy t =>
      have htext := strlen_le t
      refine answers_of_copy (strlcpy_eq s t) (Nat.le_add_left_of_le htext) (length_withText ?_)
      exact Nat.le_trans (List.length_take_le _ _) (Nat.sub_le _ _)
  | strlcat t =>
      have htext := strlen_le t
      have hsum : s.length + CString.strlen t < Word.limit := by
        rw [operand] at ht
        omega
      refine answers_of_copy (strlcat_eq hsum) (Nat.add_le_add hlen htext)
        (length_append_withText ?_)
      exact Nat.le_trans (List.length_take_le _ _) (Nat.sub_le _ _)
  | stpncpy t n =>
      refine answers_of_copy (stpncpy_eq s t n) ?_ (length_filled s t n)
      omega
  -- The calls that write bytes.
  | memcpy t n =>
      refine answers_of_copy (memcpy_eq s t n) ?_ (length_copied ?_ ?_)
      all_goals omega
  | memset c =>
      refine ⟨.done, _, rfl, length_memset s c, fun n hn => ?_⟩
      cases hn
  | memccpy t c =>
      have hword : s.length < Word.limit := by omega
      have hcopy := memccpy_eq t c hword
      rcases length_memccpy hword hcopy with ⟨hlength, hstop⟩
      rw [run, hcopy]
      exact ⟨_, _, rfl, hlength, fun n hn => Nat.le_add_right_of_le (hstop n hn)⟩
  | memmove dest src n =>
      refine answers_of_copy (memmove_eq dest src n (by omega)) ?_ (length_moved s dest src n)
      omega
  | strerror_r code =>
      have hlength : (withText s ((chars (Errno.text code)).take (s.length - 1))).length =
          s.length :=
        length_withText (Nat.le_trans (List.length_take_le _ _) (Nat.sub_le _ _))
      rw [run, Errno.strerror_r, strlcpy_eq, Checked.ok_bind]
      dsimp only
      split
      · exact ⟨_, _, rfl, hlength, fun n hn => by cases hn⟩
      · exact ⟨_, _, rfl, hlength, fun n hn => by cases hn⟩

/-- On buffers with fewer bytes than half the number of words, that is at most
    `2 ^ 63 - 1`, no call is a fault, whatever its bytes, counts, indices and
    codes are. It answers, the lengths and indices in its answer are no larger
    than both buffers together and so are words, and the buffer that it leaves
    has the length that it had. It is the same buffer if the call only reads. -/
theorem answers_within_bounds (r : Routine) {s : Bytes} (hs : 2 * s.length < Word.limit)
    (ht : 2 * r.operand.length < Word.limit) :
    ∃ a t, r.run s = .ok (a, t) ∧ t.length = s.length ∧ (r.writes = false → t = s) ∧
      ∀ n, a.number? = some n → n ≤ s.length + r.operand.length ∧ n < Word.limit := by
  rcases answers_run r hs ht with ⟨a, t, hrun, hlength, hnumber⟩
  refine ⟨a, t, hrun, hlength, fun hreads => run_of_not_writes hreads hrun, fun n hn => ?_⟩
  have hle := hnumber n hn
  exact ⟨hle, by omega⟩

/-- A move from and to places far behind the end of a buffer, and an appending
    with the largest count to a buffer without bytes. -/
theorem answers_at_corners :
    (∃ a t, (memmove 5 (Word.limit - 1) (Word.limit - 1)).run [1, 2, 3] = .ok (a, t) ∧
      t.length = 3) ∧
    ∃ a t, (strncat [1, 2] (Word.limit - 1)).run [] = .ok (a, t) ∧ t.length = 0 := by
  have hbuffer : 2 * ([1, 2, 3] : Bytes).length < Word.limit := by decide
  have hempty : 2 * ([] : Bytes).length < Word.limit := by decide
  have htext : 2 * (strncat [1, 2] (Word.limit - 1)).operand.length < Word.limit := by decide
  rcases answers_within_bounds (memmove 5 (Word.limit - 1) (Word.limit - 1)) hbuffer hempty with
    ⟨a, t, hmoved, hlength, -⟩
  rcases answers_within_bounds (strncat [1, 2] (Word.limit - 1)) hempty htext with
    ⟨b, u, hcopied, hlength', -⟩
  exact ⟨⟨a, t, hmoved, hlength⟩, b, u, hcopied, hlength'⟩

end Routine

end Freestanding
