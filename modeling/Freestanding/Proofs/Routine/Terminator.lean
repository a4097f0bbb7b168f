import Freestanding.Proofs.Program
import Freestanding.Routine

/-!
# Where Strings End

What is behind the end of a string has no influence on a call that reads it.

Buffers hold the same string if they agree before their first zeros, and a
buffer without a zero holds all of its bytes. A call that reads a string should
not be able to tell such buffers apart. But the routines come to their strings
in different ways. Some cut out the content first, some count up to a limit and
take a range of the buffer as long as the count, and the copies write a zero of
their own instead of the one they found. A range that is cut from a buffer at
the wrong length shows only where the zero is in front of that length.

The way to see that all of them agree is to put the string alone in place of
the buffer that holds it. A call that gives the same result on both gives the
same result on any two buffers with that string. It has to be the same result
as a whole, with the buffer that is written and whether there is a fault, and
for a copy in a heap the same heap and the same log.

## Theorems

* `CString.strlcat_chars`: Appending a string alone.
* `Routine.run_chars`: A call with the string alone as its operand.
* `Routine.answer_chars`: A call on the string alone.
* `Routine.ends_respected`: Buffers with the same string are alike.
-/

namespace Freestanding

namespace CString

/-- Appending reads no more of a buffer than the string in it. The sum of the
    lengths is of strings as well, so it is a word for both or for none. -/
theorem strlcat_chars (dest src : Bytes) : strlcat dest (chars src) = strlcat dest src := by
  have hcopy : ∀ d, strlcpy d (chars src) = strlcpy d src := by
    intro d
    rw [strlcpy_eq, strlcpy_eq, strlen_chars, chars_chars]
  unfold strlcat
  simp only [strlen_chars, hcopy]

end CString

namespace Routine

open CString

/-- A call that reads its operand as a string reads no more than the string. -/
theorem run_chars {r : Routine} (h : r.readsOperandString = true) (s u : Bytes) :
    (r.withOperand (chars u)).run s = (r.withOperand u).run s := by
  cases r with
  | strcmp t => simp only [withOperand, run, CString.strcmp, strncmp_eq, chars_chars]
  | strncmp t n => simp only [withOperand, run, strncmp_eq, chars_chars]
  | strspn t => simp only [withOperand, run, strspn_eq, chars_chars]
  | strcspn t => simp only [withOperand, run, strcspn_eq, chars_chars]
  | strpbrk t => simp only [withOperand, run, strpbrk_eq, chars_chars]
  | strstr t => simp only [withOperand, run, strstr_eq, chars_chars]
  | tokens t => simp only [withOperand, run, split_eq, chars_chars]
  | strcpy t => simp only [withOperand, run, strcpy_eq, chars_chars]
  | strcat t => simp only [withOperand, run, strcat_eq, chars_chars]
  | strncpy t n => simp only [withOperand, run, strncpy_eq, chars_chars, strlen_chars]
  | strncat t n => simp only [withOperand, run, strncat_eq, chars_chars]
  | stpcpy t => simp only [withOperand, run, stpcpy_eq, chars_chars, strlen_chars]
  | strlcpy t => simp only [withOperand, run, strlcpy_eq, chars_chars, strlen_chars]
  | strlcat t => simp only [withOperand, run, strlcat_chars]
  | stpncpy t n => simp only [withOperand, run, stpncpy_eq, chars_chars, strlen_chars]
  | _ => cases h

/-- The answer of a call that only reads does not have its buffer in it. -/
theorem answer_of_read {α : Type} (x : Checked α) (f : α → Answer) (s : Bytes) :
    (x.map (f ·, s)).map Prod.fst = x.map f := by
  cases x <;> rfl

/-- A call that reads its buffer as a string answers what it answers on the
    string alone. -/
theorem answer_chars {r : Routine} (h : r.readsString = true) (s : Bytes) :
    (r.run (chars s)).map Prod.fst = (r.run s).map Prod.fst := by
  cases r with
  | strlen => simp only [run, strlen_chars, Except.map]
  | strnlen n => simp only [run, answer_of_read, strnlen_eq, strlen_chars]
  | strchr c => simp only [run, answer_of_read, strchr_eq, strlen_chars, chars_chars]
  | strrchr c => simp only [run, answer_of_read, strrchr_eq, strlen_chars, chars_chars]
  | strcmp t => simp only [run, answer_of_read, CString.strcmp, strncmp_eq, chars_chars]
  | strncmp t n => simp only [run, answer_of_read, strncmp_eq, chars_chars]
  | strspn t => simp only [run, answer_of_read, strspn_eq, chars_chars]
  | strcspn t => simp only [run, answer_of_read, strcspn_eq, chars_chars]
  | strpbrk t => simp only [run, answer_of_read, strpbrk_eq, strlen_chars, chars_chars]
  | strstr t => simp only [run, answer_of_read, strstr_eq, chars_chars]
  | tokens t => simp only [run, answer_of_read, split_eq, chars_chars]
  | _ => cases h

theorem readsString_withOperand (r : Routine) (u : Bytes) :
    (r.withOperand u).readsString = r.readsString := by
  cases r <;> rfl

/-- The operand of a call that reads its buffer as a string is a string too, if
    there is one. -/
theorem run_chars_of_readsString {r : Routine} (h : r.readsString = true) (s u : Bytes) :
    (r.withOperand (chars u)).run s = (r.withOperand u).run s := by
  by_cases hoperand : r.readsOperandString = true
  · exact run_chars hoperand s u
  · cases r with
    | strlen | strnlen n | strchr c | strrchr c => rfl
    | strcmp t | strncmp t n | strspn t | strcspn t | strpbrk t | strstr t | tokens t =>
        exact absurd rfl hoperand
    | _ => cases h

/-- A zero behind a string that had none, and whatever is behind that zero,
    leaves the string as it is. Buffers that hold the same string are alike as
    operands of the calls that read or copy one: the answer and the buffer that
    is written are the same. They are alike as the buffers that a call reads as
    a string, and may be different on both sides of it at once. Splitting
    starts from the same characters and the same delimiters. A copy in a heap
    has the same outcome, which is the handle, the heap and the log, and so it
    has for a program with its error number. -/
theorem ends_respected :
    (∀ s rest : Bytes, 0 ∉ s → chars (s ++ 0 :: rest) = chars s) ∧
    (∀ (r : Routine) (s t u : Bytes), r.readsOperandString = true → chars t = chars u →
      (r.withOperand t).run s = (r.withOperand u).run s) ∧
    (∀ (r : Routine) (s s' t u : Bytes), r.readsString = true → chars s = chars s' →
      chars t = chars u →
      ((r.withOperand t).run s).map Prod.fst = ((r.withOperand u).run s').map Prod.fst) ∧
    (∀ s s' t u : Bytes, chars s = chars s' → chars t = chars u →
      CString.tokens s t = CString.tokens s' u) ∧
    ∀ (N : Nat) (s t : Bytes), chars s = chars t →
      (∀ h : Heap N, Heap.strdup s h = Heap.strdup t h ∧
        ∀ n, Heap.strndup s n h = Heap.strndup t n h) ∧
      ∀ p : Program N, Program.strdup s p = Program.strdup t p := by
  refine ⟨fun s rest hs => ?_, fun r s t u hr htu => ?_, fun r s s' t u hr hss htu => ?_,
    fun s s' t u hss htu => ?_, fun N s t hst => ?_⟩
  · rw [chars_append_zero hs, chars_eq_self hs]
  · rw [← run_chars hr s t, htu, run_chars hr s u]
  · have hreads : ∀ v, (r.withOperand v).readsString = true := fun v =>
      (readsString_withOperand r v).trans hr
    rw [← answer_chars (hreads t) s, ← answer_chars (hreads u) s', hss,
      ← run_chars_of_readsString hr _ t, htu, run_chars_of_readsString hr _ u]
  · rw [tokens_eq, tokens_eq, hss, htu]
  · have hcopy : (Heap.strdup s : HeapM N Handle) = Heap.strdup t := by
      rw [Heap.strdup_eq, Heap.strdup_eq, hst]
    refine ⟨fun h => ⟨congrFun hcopy h, fun n => ?_⟩, fun p => ?_⟩
    · rw [Heap.strndup_eq, Heap.strndup_eq, hst]
    · rw [Program.strdup, Program.strdup, hcopy]

/-- The copy of a string that a zero ends in front of other bytes is the copy
    of its characters alone, in a buffer and in a heap, and comparing finds no
    difference to them. -/
theorem terminated_and_unterminated :
    chars [65, 66, 0, 67] = chars [65, 66] ∧
    (strncpy [65, 66, 0, 67] 4).run [1, 2, 3, 4, 5] = (strncpy [65, 66] 4).run [1, 2, 3, 4, 5] ∧
    ((strcmp [66, 0]).run [65, 66, 0, 67]).map Prod.fst =
      ((strcmp [66]).run [65, 66]).map Prod.fst ∧
    ∀ h : Heap 64, Heap.strdup [65, 66, 0, 67] h = Heap.strdup [65, 66] h := by
  have hsame : chars [65, 66, 0, 67] = chars [65, 66] := by decide
  have hended : chars [66, 0] = chars [66] := by decide
  rcases ends_respected with ⟨-, hoperand, hbuffer, -, hheap⟩
  exact ⟨hsame, hoperand (strncpy [] 4) _ _ _ rfl hsame,
    hbuffer (strcmp []) _ _ _ _ rfl hsame hended, fun h => ((hheap 64 _ _ hsame).1 h).1⟩

end Routine

end Freestanding
