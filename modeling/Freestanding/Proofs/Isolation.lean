import Freestanding.Proofs.Handles

/-!
# Isolation of Payloads

What is written through a handle is what is read through it.

From the step that hands out a handle to the one that takes it back, its
payload has one length, and its bytes are what the writes through the handle
made of them. Nothing else a program does can be seen there: no other handle
that is given or taken back, no block cut or joined next to it, no refused
request, and no write through another handle, whatever its bytes are. The
other way round, a write through the handle cannot be seen in any other
payload or in the blocks.

`Spared` is a run on which the handle is not taken back. What is read at the
end of it is `rewrite` of its steps, one after the other, and that is the
identity for every step that does not write through the handle.

## Main definitions

* `Call.Targets`: A step that writes through a handle.
* `Call.Spared`: A run on which a handle is not taken back.

## Theorems

* `Call.Spared.payload?_eq`: What is read at the end of a run.
* `Call.Reaches.payload_isolated`: The payload of a handle for as long as it
  is held.
-/

namespace Freestanding

namespace Call

open Change Program

variable {N : Nat}

/-- A step that writes through the handle `a`, if that stands for anything. -/
def Targets (a : Handle) : Call → Prop
  | write q _ _ | routine q _ => q = a
  | _ => False

/-- A run from one state to another on which the handle `a` is not taken back
    and the heap is not emptied. -/
inductive Spared (a : Handle) : Program N → List Call → Program N → Prop where
  | nil (p : Program N) : Spared a p [] p
  | cons {p q t : Program N} {c : Call} {calls : List Call} {r : Reply} {log : List Record}
      (reset : c ≠ .reset) (spared : ¬ c.Releases p.heap a)
      (answer : c.perform p = ⟨.ok r, q, log⟩) (rest : Spared a q calls t) :
      Spared a p (c :: calls) t

theorem length_rewrite (a : Handle) (s : Bytes) (c : Call) : (c.rewrite a s).length = s.length := by
  cases c with
  | write q pos t =>
      rw [rewrite]
      split
      · exact Bytes.length_overlay s pos t
      · rfl
  | routine q r =>
      rw [rewrite]
      split
      · split
        · exact Bytes.length_overlay s 0 _
        · rfl
      · rfl
  | _ => rfl

theorem rewrite_of_not_targets {a : Handle} {c : Call} (h : ¬ c.Targets a) (s : Bytes) :
    c.rewrite a s = s := by
  cases c with
  | write q pos t => exact if_neg h
  | routine q r => exact if_neg h
  | _ => rfl

/-- The writes of a run keep the length. -/
theorem length_foldl_rewrite (a : Handle) (calls : List Call) (s : Bytes) :
    (calls.foldl (fun s c => c.rewrite a s) s).length = s.length := by
  induction calls generalizing s with
  | nil => rfl
  | cons c calls ih => rw [List.foldl_cons, ih, length_rewrite]

/-- A run without a write leaves the bytes as they are. -/
theorem foldl_rewrite_of_not_targets {a : Handle} {calls : List Call}
    (h : ∀ c ∈ calls, ¬ c.Targets a) (s : Bytes) :
    calls.foldl (fun s c => c.rewrite a s) s = s := by
  induction calls generalizing s with
  | nil => rfl
  | cons c calls ih =>
      rw [List.foldl_cons, rewrite_of_not_targets (h c List.mem_cons_self),
        ih fun d hd => h d (List.mem_cons_of_mem c hd)]

/-- At the end of a run on which a handle is not taken back, its payload is
    what the steps have written through it. -/
theorem Spared.payload?_eq {a : Handle} {p q : Program N} {calls : List Call} {s : Bytes}
    (h : Spared a p calls q) (hp : p.InOrder) (hs : p.heap.payload? a = some s) :
    q.InOrder ∧ q.heap.payload? a = some (calls.foldl (fun s c => c.rewrite a s) s) := by
  induction h generalizing s with
  | nil p => exact ⟨hp, hs⟩
  | @cons p q t c calls r log hreset hspared answer rest ih =>
      have hmoves := moves_perform hp hreset answer
      -- The handle stands for something, so the step cannot hand it out.
      have hgained : r.handle? ≠ some a := by
        intro hr
        have hnone := (hmoves.gained a hr).1
        rw [hs] at hnone
        cases hnone
      have hkept := hmoves.kept a hgained hspared
      rw [hs, Option.map_some] at hkept
      exact ih hmoves.sound hkept

/-- From the step that answers with a handle, and for as long as it is not
    taken back, the payload of the handle has the length it had at first and
    holds what was written through it. If nothing was, it holds what it held
    at first. Whatever is written through it next, the blocks and all other
    payloads stay as they are. -/
theorem Reaches.payload_isolated {room : Header.byteSize < N} {small : N < Header.maxRegion}
    {held : Set Handle} {p q t : Program N} {c : Call} {r : Reply} {log : List Record}
    {a : Handle} {calls : List Call} (hp : Reaches room small held p)
    (answer : c.perform p = ⟨.ok r, q, log⟩) (ha : r.handle? = some a)
    (hrun : Spared a q calls t) :
    ∃ s, q.heap.payload? a = some s ∧
      t.heap.payload? a = some (calls.foldl (fun s c => c.rewrite a s) s) ∧
      (calls.foldl (fun s c => c.rewrite a s) s).length = s.length ∧
      ((∀ d ∈ calls, ¬ d.Targets a) → t.heap.payload? a = some s) ∧
      ∀ (α : Type) (change : Bytes → Checked (α × Bytes)),
        (Heap.onPayload a change t.heap).state.blocks = t.heap.blocks ∧
          ∀ b, b ≠ a →
            (Heap.onPayload a change t.heap).state.payload? b = t.heap.payload? b := by
  have hreset : c ≠ .reset := by
    rintro rfl
    rw [perform_reset] at answer
    cases answer
    cases ha
  have hmoves := moves_perform hp.inOrder hreset answer
  rcases Option.isSome_iff_exists.mp (hmoves.gained a ha).2 with ⟨s, hs⟩
  rcases hrun.payload?_eq hmoves.sound hs with ⟨ht, hpayload⟩
  refine ⟨s, hs, hpayload, length_foldl_rewrite a calls s, fun hcalls => ?_,
    fun α change => ?_⟩
  · rw [hpayload, foldl_rewrite_of_not_targets hcalls]
  · rcases (Heap.check_eq_ok_iff t.heap).mp ht with ⟨l, hl⟩
    have hrevises := hl.revises_onPayload a change
    generalize Heap.onPayload a change t.heap = o at hrevises ⊢
    cases hrevises with
    | absent hdead => exact ⟨rfl, fun _ _ => rfl⟩
    | faulted hown hfault => exact ⟨rfl, fun _ _ => rfl⟩
    | revised _ _ _ _ hothers hblocks => exact ⟨hblocks, hothers⟩

set_option maxRecDepth 4000 in
/-- A second allocation is written to and released, and the payload of the
    first one stays as it is. -/
theorem payload_beside_release :
    ∃ (p q : Program 96) (log : List Record),
      (Call.malloc 8).perform (Program.start (by decide) (by decide)).1 =
        ⟨.ok (.given (some ⟨16⟩)), p, log⟩ ∧
      Spared ⟨16⟩ p [.malloc 8, .write ⟨40⟩ 0 [1, 2, 3], .free ⟨40⟩] q ∧
      q.heap.payload? ⟨16⟩ = p.heap.payload? ⟨16⟩ := by
  have hresult : ((Call.malloc 8).perform
      (Program.start (N := 96) (by decide) (by decide)).1).result =
        .ok (.given (some ⟨16⟩)) := rfl
  have hanswer := eq_of_result hresult
  have hother : (⟨40⟩ : Handle) ≠ ⟨16⟩ := by decide
  have hstart : Reaches (by decide) (by decide) ∅
      (Program.start (N := 96) (by decide) (by decide)).1 := .start
  rcases completes_perform (c := .malloc 8) trivial _ (hstart.step hanswer).inOrder with
    ⟨_, _, _, hmalloc, hin⟩
  rcases completes_perform (c := .write ⟨40⟩ 0 [1, 2, 3]) trivial _ hin with
    ⟨_, _, _, hwrite, hin'⟩
  rcases completes_perform (c := .free ⟨40⟩) trivial _ hin' with ⟨_, q, _, hfree, -⟩
  have hrun : Spared ⟨16⟩ _ [.malloc 8, .write ⟨40⟩ 0 [1, 2, 3], .free ⟨40⟩] q :=
    .cons (by decide) (fun hr => hr) hmalloc (.cons (by decide) (fun hr => hr) hwrite
      (.cons (by decide) (fun hr => hother hr.1) hfree (.nil q)))
  rcases hstart.payload_isolated hanswer rfl hrun with ⟨s, hs, -, -, hq, -⟩
  refine ⟨_, q, _, hanswer, hrun, ?_⟩
  rw [hs]
  refine hq fun c hc => ?_
  simp only [List.mem_cons, List.not_mem_nil, or_false] at hc
  rcases hc with rfl | rfl | rfl
  · exact fun ht => ht
  · exact hother
  · exact fun ht => ht

end Call

end Freestanding
