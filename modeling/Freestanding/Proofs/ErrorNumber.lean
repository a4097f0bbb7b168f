import Freestanding.Proofs.Heap.Damage
import Freestanding.Proofs.Heap.Duplicate

/-!
# The Error Number

What the error number of a program says about its past.

The cell is written in two ways. A program writes it, and a call of `malloc` or
`strdup` that gives nothing writes the number for no memory. An `Event` is one
of these, and the cell holds what the latest event wrote. Everything else a
program does leaves the cell alone, however it turns out. That includes any
operation on the heap of the program, since a refusal by the heap is not
reported unless the program has asked through one of the two calls.

`Ran` has the states that programs come to, with the events on the way. An
operation on the heap in it is any function on heaps at all, so it may leave a
heap that is damaged, and what comes later may fault. The error number is the
one of the latest event all the same.

Apart from the cell, the two calls do what the operations on the heap do. They
share the way they report it, and `Reports` says what that is.

## Main definitions

* `Program.Event`: A write of the error number.
* `Program.Ran`: The states of programs, with the events before them.
* `Program.Reports`: A call that sets the error number if it gives nothing.

## Theorems

* `Program.reports_malloc`, `Program.reports_strdup`: The two calls.
* `Program.errno_onHeap`, `Program.free_apply`: What leaves the error number.
* `Program.Ran.errno_eq`: The error number is that of the latest event.
* `Program.InOrder.heap_of_malloc`, `Program.InOrder.heap_of_strdup`: A call
  that gives nothing leaves the heap.
* `Program.errno_of_latest_event`: The same with what the calls do.
-/

namespace Freestanding

namespace Program

open Change

variable {N : Nat} {α : Type}

/-- A write of the error number. -/
inductive Event where
  /-- The program wrote this number. -/
  | set (code : Int)
  /-- An allocation for the program gave nothing. -/
  | failed

/-- The number that the latest event wrote, with the latest one first. -/
def Event.latest : List Event → Int
  | [] => 0
  | .set code :: _ => code
  | .failed :: _ => Errno.enomem

/-- The states that programs come to, with the events before them, the latest
    one first. -/
inductive Ran (room : Header.byteSize < N) (small : N < Header.maxRegion) :
    List Event → Program N → Prop where
  /-- A program starts without an event. -/
  | start : Ran room small [] (start room small).1
  /-- The program writes the error number. -/
  | setErrno {es : List Event} {p : Program N} (code : Int) (before : Ran room small es p) :
      Ran room small (.set code :: es) (setErrno code p).state
  /-- An allocation gives a handle, or faults. -/
  | malloc {es : List Event} {p : Program N} (size : Nat) (before : Ran room small es p)
      (given : (malloc size p).result ≠ .ok none) : Ran room small es (malloc size p).state
  /-- An allocation gives nothing. -/
  | mallocFailed {es : List Event} {p : Program N} (size : Nat) (before : Ran room small es p)
      (none : (malloc size p).result = .ok none) :
      Ran room small (.failed :: es) (malloc size p).state
  /-- A copy gives a handle, or faults. -/
  | strdup {es : List Event} {p : Program N} (s : Bytes) (before : Ran room small es p)
      (given : (strdup s p).result ≠ .ok none) : Ran room small es (strdup s p).state
  /-- A copy gives nothing. -/
  | strdupFailed {es : List Event} {p : Program N} (s : Bytes) (before : Ran room small es p)
      (none : (strdup s p).result = .ok none) :
      Ran room small (.failed :: es) (strdup s p).state
  /-- A handle is released. -/
  | free {es : List Event} {p : Program N} (a : Handle) (before : Ran room small es p) :
      Ran room small es (free a p).state
  /-- Something is done on the heap. -/
  | onHeap {es : List Event} {p : Program N} {α : Type} (x : HeapM N α)
      (before : Ran room small es p) : Ran room small es (onHeap x p).state

/-- A call `y` that does `x` on the heap and gives what `x` answers, or nothing
    if `x` is refused. Only in that case it writes the error number. -/
structure Reports (x : HeapM N α) (y : ProgramM N (Option α)) : Prop where
  /-- It gives what is answered on the heap. -/
  given : ∀ p a, (y p).result = .ok (some a) ↔ (x p.heap).result = .ok a
  /-- It gives nothing for a refusal. -/
  refused : ∀ p, (y p).result = .ok none ↔ ∃ e, (x p.heap).result = .error (.refused e)
  /-- It leaves the heap that the operation leaves. -/
  heap : ∀ p, (y p).state.heap = (x p.heap).state
  /-- It sets the error number where it gives nothing. -/
  errno_of_none : ∀ p, (y p).result = .ok none → (y p).state.errno = Errno.enomem
  /-- It leaves the error number otherwise. -/
  errno_of_ne : ∀ p, (y p).result ≠ .ok none → (y p).state.errno = p.errno

theorem reports_of_cases {x : HeapM N α} {y : ProgramM N (Option α)}
    (hok : ∀ p a t log, x p.heap = ⟨.ok a, t, log⟩ →
      (y p).result = .ok (some a) ∧ (y p).state = { p with heap := t })
    (hrefused : ∀ p e t log, x p.heap = ⟨.error (.refused e), t, log⟩ →
      (y p).result = .ok none ∧ (y p).state = ⟨t, Errno.enomem⟩)
    (hfault : ∀ p f t log, x p.heap = ⟨.error (.fault f), t, log⟩ →
      (y p).result = .error f ∧ (y p).state = { p with heap := t }) : Reports x y := by
  -- Every field of `Reports` is about one of three outcomes on the heap.
  have hcases : ∀ p, (∃ a, (x p.heap).result = .ok a ∧ (y p).result = .ok (some a) ∧
        (y p).state = { p with heap := (x p.heap).state }) ∨
      (∃ e, (x p.heap).result = .error (.refused e) ∧ (y p).result = .ok none ∧
        (y p).state = ⟨(x p.heap).state, Errno.enomem⟩) ∨
      ∃ f, (x p.heap).result = .error (.fault f) ∧ (y p).result = .error f ∧
        (y p).state = { p with heap := (x p.heap).state } := by
    intro p
    rcases hx : x p.heap with ⟨(e | f) | a, t, log⟩
    · exact Or.inr (Or.inl ⟨e, rfl, hrefused p e t log hx⟩)
    · exact Or.inr (Or.inr ⟨f, rfl, hfault p f t log hx⟩)
    · exact Or.inl ⟨a, rfl, hok p a t log hx⟩
  constructor
  all_goals
    intro p
    rcases hcases p with ⟨a, hx, hy, ht⟩ | ⟨e, hx, hy, ht⟩ | ⟨f, hx, hy, ht⟩ <;>
      simp [hx, hy, ht]

/-- What an allocation for a program does. -/
theorem reports_malloc (size : Nat) :
    Reports (Heap.allocate size) (malloc size : ProgramM N (Option Handle)) := by
  apply reports_of_cases
  · intro p a t log hx
    rw [malloc, bind_of_ok (onHeap_of_ok hx)]
    exact ⟨rfl, rfl⟩
  · intro p e t log hx
    rw [malloc, bind_of_ok (onHeap_of_refused hx)]
    exact ⟨rfl, rfl⟩
  · intro p f t log hx
    rw [malloc, bind_of_error (onHeap_of_fault hx)]
    exact ⟨rfl, rfl⟩

/-- What a copy for a program does. -/
theorem reports_strdup (s : Bytes) :
    Reports (Heap.strdup s) (strdup s : ProgramM N (Option Handle)) := by
  apply reports_of_cases
  · intro p a t log hx
    rw [strdup, bind_of_ok (onHeap_of_ok hx)]
    exact ⟨rfl, rfl⟩
  · intro p e t log hx
    rw [strdup, bind_of_ok (onHeap_of_refused hx)]
    exact ⟨rfl, rfl⟩
  · intro p f t log hx
    rw [strdup, bind_of_error (onHeap_of_fault hx)]
    exact ⟨rfl, rfl⟩

/-- Nothing that is done on the heap writes the error number. -/
theorem errno_onHeap (x : HeapM N α) (p : Program N) : (onHeap x p).state.errno = p.errno := by
  rcases hx : x p.heap with ⟨(e | f) | a, t, log⟩
  · rw [onHeap_of_refused hx]
  · rw [onHeap_of_fault hx]
  · rw [onHeap_of_ok hx]

/-- A release answers for any handle and leaves the error number. -/
theorem free_apply (a : Handle) (p : Program N) :
    (free a p).result = .ok () ∧ (free a p).state.errno = p.errno := by
  have hresult := Heap.result_release p.heap a
  rcases hx : Heap.release a p.heap with ⟨r, t, log⟩
  rw [hx] at hresult
  cases hresult
  rw [free, bind_of_ok (onHeap_of_ok hx)]
  exact ⟨rfl, rfl⟩

/-- The error number is that of the latest event, or zero if there was none. -/
theorem Ran.errno_eq {room : Header.byteSize < N} {small : N < Header.maxRegion}
    {es : List Event} {p : Program N} (h : Ran room small es p) : p.errno = Event.latest es := by
  induction h with
  | start => rfl
  | setErrno code before ih => rfl
  | malloc size before given ih => exact ((reports_malloc size).errno_of_ne _ given).trans ih
  | mallocFailed size before none ih => exact (reports_malloc size).errno_of_none _ none
  | strdup s before given ih => exact ((reports_strdup s).errno_of_ne _ given).trans ih
  | strdupFailed s before none ih => exact (reports_strdup s).errno_of_none _ none
  | free a before ih => exact (free_apply a _).2.trans ih
  | onHeap x before ih => exact (errno_onHeap x _).trans ih

/-- An allocation that gives nothing leaves a heap in order as it is. -/
theorem InOrder.heap_of_malloc {p : Program N} (hp : p.InOrder) {size : Nat}
    (hnone : (malloc size p).result = .ok none) : (malloc size p).state.heap = p.heap := by
  rcases (Heap.check_eq_ok_iff p.heap).mp hp with ⟨l, hl⟩
  rcases ((reports_malloc size).refused p).mp hnone with ⟨e, he⟩
  rw [(reports_malloc size).heap]
  rcases ha : Heap.allocate size p.heap with ⟨r, t, log⟩
  rw [ha] at he
  cases he
  exact (hl.of_allocate_error ha).2

/-- A copy that gives nothing leaves a heap in order as it is. -/
theorem InOrder.heap_of_strdup {p : Program N} (hp : p.InOrder) {s : Bytes}
    (hnone : (strdup s p).result = .ok none) : (strdup s p).state.heap = p.heap := by
  rcases (Heap.check_eq_ok_iff p.heap).mp hp with ⟨l, hl⟩
  rcases ((reports_strdup s).refused p).mp hnone with ⟨e, he⟩
  rw [Heap.strdup_eq] at he
  rw [(reports_strdup s).heap, Heap.strdup_eq]
  by_cases hs : (CString.chars s).length + 1 < Word.limit
  · rcases hl.duplicate_cases hs with ⟨-, -, -, hheap⟩ | ⟨a, t, rest, -, -, hanswer, -⟩
    · exact hheap
    · rw [hanswer] at he
      cases he
  · -- A string too long to be counted is a fault and not a refusal.
    rw [Heap.duplicate_of_limit (by omega)] at he
    cases he

/-- After any run of a program, the error number is what the program has
    written, if that was the latest event, and the number for no memory if that
    was an allocation or a copy that gave nothing. Without an event it is zero.
    Both calls give what the operations on the heap answer and leave the same
    heap, and they write the error number only if they give nothing. Then a
    heap in order stays as it is. No release and nothing that is done on the
    heap writes it. -/
theorem errno_of_latest_event (room : Header.byteSize < N) (small : N < Header.maxRegion) :
    (∀ es (p : Program N), Ran room small es p →
      (es = [] → p.errno = 0) ∧ (∀ code before, es = .set code :: before → p.errno = code) ∧
        ∀ before, es = .failed :: before → p.errno = 48) ∧
      (∀ size, Reports (Heap.allocate size) (malloc size : ProgramM N (Option Handle))) ∧
      (∀ s, Reports (Heap.strdup s) (strdup s : ProgramM N (Option Handle))) ∧
      (∀ a (p : Program N), (free a p).result = .ok () ∧ (free a p).state.errno = p.errno) ∧
      (∀ (α : Type) (x : HeapM N α) p, (onHeap x p).state.errno = p.errno) ∧
      ∀ p : Program N, p.InOrder →
        (∀ size, (malloc size p).result = .ok none → (malloc size p).state.heap = p.heap) ∧
          ∀ s, (strdup s p).result = .ok none → (strdup s p).state.heap = p.heap := by
  refine ⟨fun es p hran => ⟨?_, ?_, ?_⟩, reports_malloc, reports_strdup, free_apply,
    fun α x p => errno_onHeap x p,
    fun p hp => ⟨fun size hnone => hp.heap_of_malloc hnone, fun s hnone => hp.heap_of_strdup hnone⟩⟩
  · rintro rfl
    exact hran.errno_eq
  · rintro code before rfl
    exact hran.errno_eq
  · rintro before rfl
    exact hran.errno_eq

/-- A program asks for too much, clears the error number, is refused by its
    heap and releases a wrong handle. The error number stays zero. -/
theorem errno_after_clearing :
    ∃ p q : Program 64, Ran (by decide) (by decide) [.failed] p ∧ p.errno = 48 ∧
      (onHeap (Heap.allocate 64) p).result = .ok (.error (.exhausted 64)) ∧
      Ran (by decide) (by decide) [.set 0, .failed] q ∧ q.errno = 0 := by
  rcases errno_of_latest_event (N := 64) (by decide) (by decide) with ⟨hrun, -⟩
  have hstart : Ran (N := 64) (by decide) (by decide) [] (start (by decide) (by decide)).1 := .start
  have hfailed := hstart.mallocFailed 64 (by decide +kernel)
  have hcleared := ((hfailed.setErrno 0).onHeap (Heap.allocate 64)).free ⟨7⟩
  exact ⟨_, _, hfailed, (hrun _ _ hfailed).2.2 _ rfl, by decide +kernel, hcleared,
    (hrun _ _ hcleared).2.1 _ _ rfl⟩

end Program

end Freestanding
