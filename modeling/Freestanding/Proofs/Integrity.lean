import Freestanding.Proofs.Program

/-!
# Integrity of the Heap

Whatever a program does, the test of its heap passes.

That is so for each operation on its own, on any heap for which the test
passes and not only on those that a program can get to, and it is so for runs
of any length and in any order. Writes to payloads are among the operations,
with any bytes, so a payload may well hold something that looks like headers.

A run goes on to its end if no step of it breaks a rule by its arguments
alone, and `Total` is what that asks for. It asks for nothing on the side of
the heap: sizes and handles may be anything.

## Main definitions

* `Call.Total`: A step whose arguments do not break a rule.

## Theorems

* `Call.preserves_perform`, `Call.completes_perform`: The step.
* `Call.preserves_performAll`, `Call.completes_performAll`: The run.
* `Program.heap_stays_in_order`: Integrity is an invariant of every operation
  and of every run.
-/

namespace Freestanding

open Change Program

variable {N : Nat}

namespace Call

/-- A step whose arguments do not break a rule. A string can be counted along
    with the zero behind it, and a routine answers on every buffer. -/
def Total : Call → Prop
  | strdup s | strndup s _ | duplicate s => s.length + 1 < Word.limit
  | routine _ r => ∀ s, ∃ a, r.run s = .ok a
  | _ => True

/-- A step with arguments that do not break a rule answers. -/
theorem completes_perform {c : Call} (hc : c.Total) :
    Completes InOrder (c.perform : ProgramM N Reply) := by
  cases c with
  | allocate size =>
      exact (completes_onHeap (Heap.sound_allocate size)).bind fun _ => completes_pure _
  | tryRelease p =>
      exact (completes_onHeap (Heap.sound_tryRelease p)).bind fun _ => completes_pure _
  | release p => exact (completes_onHeap (Heap.sound_release p)).bind fun _ => completes_pure _
  | strdup s => exact (completes_onHeap (Heap.sound_strdup hc)).bind fun _ => completes_pure _
  | strndup s n =>
      exact (completes_onHeap (Heap.sound_strndup n hc)).bind fun _ => completes_pure _
  | write p pos t =>
      have hsound : Heap.Sound (Heap.writePayload p pos t : HeapM N (Option Nat)) :=
        Heap.sound_onPayload p fun s => ⟨(s.length, s.overlay pos t), rfl⟩
      refine (completes_onHeap hsound).bind fun result => ?_
      cases result with
      | ok length => exact completes_pure _
      | error e => exact completes_pure _
  | routine p r =>
      -- The routine answers, so what is made of its answer does.
      have hchange : ∀ s, ∃ a, (do let a ← r.run s; return (a, a.2) :
          Checked ((Routine.Answer × Bytes) × Bytes)) = .ok a := by
        intro s
        rcases hc s with ⟨a, ha⟩
        rw [ha]
        exact ⟨_, rfl⟩
      refine (completes_onHeap (Heap.sound_onPayload p hchange)).bind fun result => ?_
      cases result with
      | ok answer => exact completes_pure _
      | error e => exact completes_pure _
  | reset => exact (completes_onHeap Heap.sound_reset).bind fun _ => completes_pure _
  | malloc size => exact (completes_malloc size).bind fun _ => completes_pure _
  | free p => exact (completes_free p).bind fun _ => completes_pure _
  | duplicate s => exact (Program.completes_strdup hc).bind fun _ => completes_pure _
  | setErrno code => exact (completes_setErrno code).bind fun _ => completes_pure _

/-- Every step keeps the heap in order, also one that faults. -/
theorem preserves_perform (c : Call) : Preserves InOrder (c.perform : ProgramM N Reply) := by
  cases c with
  | strdup s =>
      exact (preserves_onHeap (Heap.preserves_strdup s)).bind fun _ => preserves_pure _
  | strndup s n =>
      exact (preserves_onHeap (Heap.preserves_strndup s n)).bind fun _ => preserves_pure _
  | duplicate s => exact (Program.preserves_strdup s).bind fun _ => preserves_pure _
  | routine p r =>
      refine (preserves_onHeap (Heap.preserves_onPayload p _)).bind fun result => ?_
      cases result with
      | ok answer => exact preserves_pure _
      | error e => exact preserves_pure _
  -- The other steps answer, whatever their arguments are.
  | _ =>
      refine (completes_perform ?_).preserves
      exact trivial

theorem preserves_performAll (calls : List Call) :
    Preserves InOrder (performAll calls : ProgramM N (List Reply)) := by
  induction calls with
  | nil => exact preserves_pure _
  | cons c calls ih =>
      exact (preserves_perform c).bind fun _ => ih.bind fun _ => preserves_pure _

theorem completes_performAll {calls : List Call} (hcalls : ∀ c ∈ calls, c.Total) :
    Completes InOrder (performAll calls : ProgramM N (List Reply)) := by
  induction calls with
  | nil => exact completes_pure _
  | cons c calls ih =>
      have hc := hcalls c List.mem_cons_self
      have hrest := ih fun d hd => hcalls d (List.mem_cons_of_mem c hd)
      exact (completes_perform hc).bind fun _ => hrest.bind fun _ => completes_pure _

end Call

namespace Program

/-- A new heap is in order. Every operation on a heap in order leaves one, and
    so does every run, whatever its steps are and whether they succeed. -/
theorem heap_stays_in_order (room : Header.byteSize < N) (small : N < Header.maxRegion) :
    (Heap.initial room small).check = .ok () ∧
      (∀ size, Heap.Sound (Heap.allocate size : HeapM N Handle)) ∧
      (∀ p, Heap.Sound (Heap.tryRelease p : HeapM N Unit)) ∧
      (∀ p, Heap.Sound (Heap.release p : HeapM N Unit)) ∧
      (∀ s, Preserves (·.check = .ok ()) (Heap.strdup s : HeapM N Handle) ∧
        (s.length + 1 < Word.limit → Heap.Sound (Heap.strdup s : HeapM N Handle))) ∧
      (∀ s n, Preserves (·.check = .ok ()) (Heap.strndup s n : HeapM N Handle) ∧
        (s.length + 1 < Word.limit → Heap.Sound (Heap.strndup s n : HeapM N Handle))) ∧
      (∀ p (change : Bytes → Bytes),
        Heap.Sound (Heap.onPayload p fun s => .ok ((), change s) : HeapM N (Option Unit))) ∧
      (∀ size, Completes InOrder (malloc size : ProgramM N (Option Handle))) ∧
      (∀ p, Completes InOrder (free p : ProgramM N Unit)) ∧
      (∀ s, Preserves InOrder (strdup s : ProgramM N (Option Handle)) ∧
        (s.length + 1 < Word.limit →
          Completes InOrder (strdup s : ProgramM N (Option Handle)))) ∧
      (∀ calls, Preserves InOrder (Call.performAll calls : ProgramM N (List Call.Reply)) ∧
        ((∀ c ∈ calls, c.Total) →
          Completes InOrder (Call.performAll calls : ProgramM N (List Call.Reply)))) :=
  ⟨(Heap.holds_initial room small).check,
    Heap.sound_allocate,
    Heap.sound_tryRelease,
    Heap.sound_release,
    fun s => ⟨Heap.preserves_strdup s, Heap.sound_strdup⟩,
    fun s n => ⟨Heap.preserves_strndup s n, Heap.sound_strndup n⟩,
    fun p change => Heap.sound_onPayload p fun s => ⟨((), change s), rfl⟩,
    completes_malloc,
    completes_free,
    fun s => ⟨preserves_strdup s, completes_strdup⟩,
    fun calls => ⟨Call.preserves_performAll calls, Call.completes_performAll⟩⟩

/-- The bytes of a header are written to a payload, and a handle behind them
    is released. -/
theorem forged_header_keeps_order :
    ∃ replies p log, Call.performAll
        [.malloc 40, .write ⟨16⟩ 0 (Header.encode ⟨true, 8, none, none⟩), .free ⟨32⟩, .free ⟨16⟩]
        (Program.start (N := 128) (by decide) (by decide)).1 = ⟨.ok replies, p, log⟩ ∧
      p.InOrder := by
  rcases heap_stays_in_order (N := 128) (by decide) (by decide) with
    ⟨hnew, -, -, -, -, -, -, -, -, -, hrun⟩
  refine (hrun _).2 (fun c hc => ?_) _ hnew
  simp only [List.mem_cons, List.not_mem_nil, or_false] at hc
  rcases hc with rfl | rfl | rfl | rfl <;> trivial

end Program

end Freestanding
