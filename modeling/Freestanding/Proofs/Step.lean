import Freestanding.Proofs.Integrity

/-!
# Steps of a Program

What a step of a program does to the payloads.

A step is one operation on the heap, if any, and what is made of its answer.
The operations fall into three kinds by what they can do to a handle, and so
do the steps: some may hand out a handle, some may take one back, and some
change the bytes that one stands for. `Moves` says this for all steps at once.
One handle may be gained, one may be lost, and all others stand for what they
stood for, but for the bytes that the step writes through them. That is all
that runs need to know about a step, since what is to be said about them is
said in terms of payloads.

Emptying the heap is the exception. It takes back everything.

## Main definitions

* `Call.Reply.handle?`: The handle that a step answers with.
* `Call.Releases`: A step that takes back a handle.
* `Call.rewrite`: What a step writes through a handle.
* `Call.Moves`: What a step does to the payloads.

## Theorems

* `Call.moves_of_handsOut`, `Call.moves_of_takesBack`, `Call.moves_of_revises`:
  The three kinds of steps.
* `Call.moves_perform`: The step.
-/

namespace Freestanding

/-- Bytes that are as many as there were take the place of all of them. -/
theorem Bytes.overlay_zero {s t : Bytes} (h : t.length = s.length) : s.overlay 0 t = t := by
  rw [overlay, List.take_zero, List.nil_append, Nat.sub_zero, Nat.zero_add, h, List.drop_length,
    List.append_nil, ← h, List.take_length]

namespace Call

open Change Program

variable {N : Nat}

/-- The handle that a step answers with. -/
def Reply.handle? : Reply → Option Handle
  | allocated result => result.toOption
  | given handle => handle
  | _ => none

/-- A step that takes the handle `p` back when it is carried out on `h`. -/
def Releases (h : Heap N) (p : Handle) : Call → Prop
  | tryRelease q | release q | free q => q = p ∧ (Heap.tryRelease p h).result = .ok ()
  | _ => False

/-- What a step writes through the handle `p` where it stands for `s`. -/
def rewrite (p : Handle) (s : Bytes) : Call → Bytes
  | write q pos t => if q = p then s.overlay pos t else s
  | routine q r =>
    if q = p then
      match r.run s with
      | .ok (_, t) => s.overlay 0 t
      | .error _ => s
    else s
  | _ => s

/-- What a step that answers `r` does to the payloads. -/
structure Moves (c : Call) (r : Reply) (h t : Heap N) : Prop where
  /-- The heap stays in order. -/
  sound : t.check = .ok ()
  /-- A handle that is answered stood for nothing, and now it does. -/
  gained : ∀ p, r.handle? = some p → h.payload? p = none ∧ (t.payload? p).isSome
  /-- A handle that is released stands for nothing any more. -/
  lost : ∀ p, c.Releases h p → t.payload? p = none
  /-- All others stand for what they stood for and what is written to that. -/
  kept : ∀ p, r.handle? ≠ some p → ¬ c.Releases h p →
    t.payload? p = (h.payload? p).map fun s => c.rewrite p s

theorem toOption_mapError (result : Except Heap.Error Handle) :
    (result.mapError Heap.Stop.refused).toOption = result.toOption := by
  cases result <;> rfl

/-- A step that does not write through a handle leaves what is read there. -/
theorem map_rewrite {c : Call} {p : Handle} (h : ∀ s, c.rewrite p s = s) (x : Option Bytes) :
    x.map (fun s => c.rewrite p s) = x := by
  cases x with
  | none => rfl
  | some s => exact congrArg some (h s)

theorem moves_of_handsOut {c : Call} {r : Reply} {h : Heap N}
    {o : Outcome Record Heap.Stop (Heap N) Handle} {result : Except Heap.Error Handle}
    (ho : h.HandsOut o) (hh : h.check = .ok ()) (hresult : o.result = result.mapError .refused)
    (hr : r.handle? = result.toOption) (hreleases : ∀ p, ¬ c.Releases h p)
    (hrewrite : ∀ p s, c.rewrite p s = s) : c.Moves r h o.state := by
  rw [← toOption_mapError, ← hresult] at hr
  cases ho with
  | refused e log =>
      refine ⟨hh, fun p hp => ?_, fun p hp => absurd hp (hreleases p),
        fun p _ _ => (map_rewrite (hrewrite p) _).symm⟩
      rw [hr] at hp
      cases hp
  | @given t p s log hsound hfresh hown hothers =>
      refine ⟨hsound, fun q hq => ?_, fun q hq => absurd hq (hreleases q), fun q hq _ => ?_⟩
      · rw [hr] at hq
        cases hq
        exact ⟨hfresh, by rw [hown]; rfl⟩
      · rw [map_rewrite (hrewrite q)]
        exact hothers q fun he => hq (by rw [hr, he]; rfl)

theorem moves_of_takesBack {c : Call} {r : Reply} {h : Heap N} {p : Handle}
    (ho : h.TakesBack p (Heap.tryRelease p h)) (hh : h.check = .ok ()) (hr : r.handle? = none)
    (hreleases : ∀ q, c.Releases h q ↔ p = q ∧ (Heap.tryRelease q h).result = .ok ())
    (hrewrite : ∀ p s, c.rewrite p s = s) : c.Moves r h (Heap.tryRelease p h).state := by
  have hgained : ∀ q, r.handle? = some q →
      h.payload? q = none ∧ ((Heap.tryRelease p h).state.payload? q).isSome := by
    intro q hq
    rw [hr] at hq
    cases hq
  generalize hx : Heap.tryRelease p h = o at ho hgained ⊢
  cases ho with
  | refused e log hdead =>
      refine ⟨hh, hgained, fun q hq => ?_, fun q _ _ => (map_rewrite (hrewrite q) _).symm⟩
      rcases (hreleases q).mp hq with ⟨rfl, hok⟩
      exact hdead
  | taken hsound hown hdead hothers =>
      refine ⟨hsound, hgained, fun q hq => ?_, fun q _ hq => ?_⟩
      · rcases (hreleases q).mp hq with ⟨rfl, hok⟩
        exact hdead
      · rw [map_rewrite (hrewrite q)]
        refine hothers q fun he => hq ((hreleases q).mpr ⟨he.symm, ?_⟩)
        rw [he, hx]

theorem moves_of_revises {α : Type} {c : Call} {r : Reply} {h : Heap N} {p : Handle}
    {change : Bytes → Checked (α × Bytes)} {o : Outcome Record Heap.Stop (Heap N) (Option α)}
    (ho : h.Revises p change o) (hh : h.check = .ok ()) (hr : r.handle? = none)
    (hreleases : ∀ q, ¬ c.Releases h q) (hother : ∀ q s, q ≠ p → c.rewrite q s = s)
    (hown : ∀ s a u, change s = .ok (a, u) → c.rewrite p s = s.overlay 0 u)
    (hfault : ∀ s f, change s = .error f → c.rewrite p s = s) : c.Moves r h o.state := by
  have hgained : ∀ q, r.handle? = some q → h.payload? q = none ∧ (o.state.payload? q).isSome := by
    intro q hq
    rw [hr] at hq
    cases hq
  refine ⟨?_, hgained, fun q hq => absurd hq (hreleases q), fun q _ _ => ?_⟩
  · cases ho with
    | absent hdead => exact hh
    | faulted hpayload hchange => exact hh
    | revised hsound _ _ _ _ _ => exact hsound
  · by_cases hq : q = p
    · subst hq
      cases ho with
      | absent hdead => rw [hdead]; rfl
      | faulted hpayload hchange => rw [hpayload, Option.map_some, hfault _ _ hchange]
      | revised _ hpayload hchange hwritten _ _ =>
          rw [hpayload, Option.map_some, hown _ _ _ hchange, hwritten]
    · rw [map_rewrite fun s => hother q s hq]
      cases ho with
      | absent hdead => rfl
      | faulted hpayload hchange => rfl
      | revised _ _ _ _ hothers _ => exact hothers q hq

/-- A copy that answers a program, with a handle or a refusal, is one of the
    outcomes of handing out. -/
theorem handsOut_of_answer {h : Heap N} {l : Layout} (hl : h.Holds l) {s : Bytes}
    {result : Except Heap.Error Handle}
    (hresult : (Heap.duplicate s h).result = result.mapError .refused) :
    h.HandsOut (Heap.duplicate s h) := by
  by_cases hs : s.length + 1 < Word.limit
  · exact hl.handsOut_duplicate hs
  · rw [Heap.duplicate_of_limit (by omega)] at hresult
    cases result with
    | ok p => cases hresult
    | error e => cases hresult

/-- What a step that answers does to the payloads. -/
theorem moves_perform {c : Call} {r : Reply} {p q : Program N} {log : List Record}
    (hp : p.InOrder) (hreset : c ≠ .reset) (h : c.perform p = ⟨.ok r, q, log⟩) :
    c.Moves r p.heap q.heap := by
  rcases (Heap.check_eq_ok_iff p.heap).mp hp with ⟨l, hl⟩
  -- In each case, the step is one operation on the heap and an answer.
  cases c with
  | allocate size =>
      rcases of_onHeap_bind_pure h with ⟨result, rfl, hresult, hheap⟩
      rw [hheap]
      exact moves_of_handsOut (hl.handsOut_allocate size) hp hresult rfl (fun _ hr => hr)
        fun _ _ => rfl
  | strdup s =>
      rcases of_onHeap_bind_pure h with ⟨result, rfl, hresult, hheap⟩
      rw [Heap.strdup_eq] at hresult hheap
      rw [hheap]
      exact moves_of_handsOut (handsOut_of_answer hl hresult) hp hresult rfl (fun _ hr => hr)
        fun _ _ => rfl
  | strndup s n =>
      rcases of_onHeap_bind_pure h with ⟨result, rfl, hresult, hheap⟩
      rw [Heap.strndup_eq] at hresult hheap
      rw [hheap]
      exact moves_of_handsOut (handsOut_of_answer hl hresult) hp hresult rfl (fun _ hr => hr)
        fun _ _ => rfl
  | malloc size =>
      rcases exists_of_bind h with ⟨handle, p', before, after, hx, hf⟩
      rcases of_malloc hx with ⟨result, hresult, hhandle, hheap⟩
      cases hf
      rw [hheap]
      exact moves_of_handsOut (hl.handsOut_allocate size) hp hresult hhandle.symm
        (fun _ hr => hr) fun _ _ => rfl
  | duplicate s =>
      rcases exists_of_bind h with ⟨handle, p', before, after, hx, hf⟩
      rcases of_strdup hx with ⟨result, hresult, hhandle, hheap⟩
      cases hf
      rw [Heap.strdup_eq] at hresult hheap
      rw [hheap]
      exact moves_of_handsOut (handsOut_of_answer hl hresult) hp hresult hhandle.symm
        (fun _ hr => hr) fun _ _ => rfl
  | tryRelease a =>
      rcases of_onHeap_bind_pure h with ⟨result, rfl, hresult, hheap⟩
      rw [hheap]
      exact moves_of_takesBack (hl.takesBack_tryRelease a) hp rfl (fun _ => Iff.rfl)
        fun _ _ => rfl
  | release a =>
      rcases of_onHeap_bind_pure h with ⟨result, rfl, hresult, hheap⟩
      rcases (hl.takesBack_tryRelease a).release with ⟨log', hrelease⟩
      rw [hheap, hrelease]
      exact moves_of_takesBack (hl.takesBack_tryRelease a) hp rfl (fun _ => Iff.rfl)
        fun _ _ => rfl
  | free a =>
      rcases exists_of_bind h with ⟨_, p', before, after, hx, hf⟩
      rcases (hl.takesBack_tryRelease a).release with ⟨log', hrelease⟩
      cases hf
      rw [of_free hx, hrelease]
      exact moves_of_takesBack (hl.takesBack_tryRelease a) hp rfl (fun _ => Iff.rfl)
        fun _ _ => rfl
  | write a pos t =>
      rcases exists_of_bind h with ⟨result, p', before, after, hx, hf⟩
      rcases of_onHeap hx with ⟨hresult, hheap⟩
      -- Whether there was a payload or not, the reply has no handle.
      have hr : r.handle? = none ∧ q = p' := by
        cases result with
        | ok length => cases hf; exact ⟨rfl, rfl⟩
        | error e => cases hf; exact ⟨rfl, rfl⟩
      rw [hr.2, hheap]
      refine moves_of_revises (hl.revises_onPayload a _) hp hr.1 (fun _ hr => hr)
        (fun q s hq => if_neg hq.symm) (fun s n u hu => ?_) fun s f hf => by cases hf
      -- What is written has the length of the payload.
      cases hu
      exact (if_pos rfl).trans (Bytes.overlay_zero (Bytes.length_overlay s pos t)).symm
  | routine a f =>
      rcases exists_of_bind h with ⟨result, p', before, after, hx, hf⟩
      rcases of_onHeap hx with ⟨hresult, hheap⟩
      have hr : r.handle? = none ∧ q = p' := by
        cases result with
        | ok answer => cases hf; exact ⟨rfl, rfl⟩
        | error e => cases hf; exact ⟨rfl, rfl⟩
      rw [hr.2, hheap]
      refine moves_of_revises (hl.revises_onPayload a _) hp hr.1 (fun _ hr => hr)
        (fun q s hq => if_neg hq.symm) (fun s b u hu => ?_) fun s e he => ?_
      · -- The buffer that the routine leaves is what is written back.
        rw [rewrite, if_pos rfl]
        cases hrun : f.run s with
        | error e =>
            rw [hrun] at hu
            cases hu
        | ok b =>
            rw [hrun] at hu
            cases hu
            rfl
      · rw [rewrite, if_pos rfl]
        cases hrun : f.run s with
        | error e => rfl
        | ok b =>
            rw [hrun] at he
            cases he
  | setErrno code =>
      rcases exists_of_bind h with ⟨_, p', before, after, hx, hf⟩
      cases hx
      cases hf
      exact ⟨hp, (fun a ha => by cases ha), (fun a ha => ha.elim), fun a _ _ =>
        Option.map_id'.symm⟩
  | reset => exact absurd rfl hreset

end Call

end Freestanding
