import Mathlib.Data.Set.Insert
import Freestanding.Proofs.Step

/-!
# Handles of a Program

A handle is accepted exactly while it is held.

What a program holds is a matter of its history: the handles it was given and
has not released since. The heap keeps no such history. It walks along headers
that are stored between bytes of users, and takes a handle for good if the
walk comes to a block in use at the right offset. That both are the same in
every reachable state is an invariant. It holds at the start, where no handle
stands for anything, and a step keeps it because the handles that a step gives
and takes back are the ones whose payloads it makes and ends.

## Main definitions

* `Call.ledger`: The handles that are held after a step.
* `Call.Reaches`: The states of a program and the handles it holds there.

## Theorems

* `Call.Reaches.isSome_payload?_iff`: The invariant.
* `Call.Reaches.tryRelease_of_held`, `Call.Reaches.tryRelease_of_not_held`,
  `Call.Reaches.onPayload_eq_none_iff`, `Call.Reaches.not_held_of_allocate`: What
  an operation makes of a handle.
* `Call.Reaches.accepted_iff_held`: What is accepted, in every reachable state.
-/

namespace Freestanding

namespace Call

open Change Program

variable {N : Nat}

/-- The handles that are held after a step: those that it does not take back,
    and the one that it answers with. -/
def ledger (h : Heap N) (held : Set Handle) (r : Reply) : Call → Set Handle
  | reset => ∅
  | c => {p | p ∈ held ∧ ¬ c.Releases h p ∨ r.handle? = some p}

/-- The states that a program can get to, each with the handles that it holds
    there. -/
inductive Reaches (room : Header.byteSize < N) (small : N < Header.maxRegion) :
    Set Handle → Program N → Prop where
  | start : Reaches room small ∅ (Program.start room small).1
  | step {held : Set Handle} {p q : Program N} {c : Call} {r : Reply} {log : List Record}
      (before : Reaches room small held p) (answer : c.perform p = ⟨.ok r, q, log⟩) :
      Reaches room small (c.ledger p.heap held r) q

theorem ledger_of_ne_reset {c : Call} (hc : c ≠ .reset) (h : Heap N) (held : Set Handle)
    (r : Reply) :
    c.ledger h held r = {p | p ∈ held ∧ ¬ c.Releases h p ∨ r.handle? = some p} := by
  cases c with
  | reset => exact absurd rfl hc
  | _ => rfl

theorem perform_reset (p : Program N) :
    (reset.perform : ProgramM N Reply) p =
      ⟨.ok .done, { p with heap := Heap.initial p.heap.room p.heap.small },
        [.heapInitialized N]⟩ := rfl

/-- No handle stands for anything on a new heap. -/
theorem payload?_initial (room : Header.byteSize < N) (small : N < Header.maxRegion)
    (p : Handle) : (Heap.initial room small).payload? p = none :=
  (Heap.holds_initial room small).payload?_eq_none fun b hb => by cases hb

namespace Reaches

variable {room : Header.byteSize < N} {small : N < Header.maxRegion} {held : Set Handle}
  {p : Program N}

theorem inOrder (h : Reaches room small held p) : p.InOrder := by
  induction h with
  | start => exact (Heap.holds_initial room small).check
  | @step held p q c r log before answer ih =>
      have hq := preserves_perform c p ih
      rw [answer] at hq
      exact hq

/-- A handle stands for something exactly if it is held. -/
theorem isSome_payload?_iff (h : Reaches room small held p) (a : Handle) :
    (p.heap.payload? a).isSome ↔ a ∈ held := by
  -- The induction is on the steps, and it is `Moves` that carries it.
  induction h with
  | start =>
      rw [Program.start, payload?_initial]
      exact ⟨(fun hs => by cases hs), fun hs => hs.elim⟩
  | @step held p q c r log before answer ih =>
      by_cases hreset : c = .reset
      · subst hreset
        rw [perform_reset] at answer
        cases answer
        rw [payload?_initial]
        exact ⟨(fun hs => by cases hs), fun hs => hs.elim⟩
      · have hmoves := moves_perform before.inOrder hreset answer
        rw [ledger_of_ne_reset hreset]
        -- A handle is answered, or taken back, or it is kept.
        by_cases hgained : r.handle? = some a
        · exact ⟨fun _ => Or.inr hgained, fun _ => (hmoves.gained a hgained).2⟩
        · by_cases hlost : c.Releases p.heap a
          · rw [hmoves.lost a hlost]
            refine ⟨fun hs => (by cases hs), fun ha => ?_⟩
            rcases ha with ⟨-, hkept⟩ | hanswer
            · exact absurd hlost hkept
            · exact absurd hanswer hgained
          · rw [hmoves.kept a hgained hlost, Option.isSome_map, ih]
            exact ⟨fun ha => Or.inl ⟨ha, hlost⟩, fun ha => (ha.resolve_right hgained).1⟩

theorem exists_payload? (h : Reaches room small held p) {a : Handle} (ha : a ∈ held) :
    ∃ s, p.heap.payload? a = some s :=
  Option.isSome_iff_exists.mp ((h.isSome_payload?_iff a).mpr ha)

theorem payload?_eq_none (h : Reaches room small held p) {a : Handle} (ha : a ∉ held) :
    p.heap.payload? a = none := by
  rw [← Option.not_isSome_iff_eq_none, h.isSome_payload?_iff]
  exact ha

/-- A handle that is held is released, and the program holds all others
    afterwards. -/
theorem tryRelease_of_held (h : Reaches room small held p) {a : Handle} (ha : a ∈ held) :
    ∃ t log, Heap.tryRelease a p.heap = ⟨.ok (), t, log⟩ ∧
      Reaches room small (held \ {a}) { p with heap := t } := by
  rcases (Heap.check_eq_ok_iff p.heap).mp h.inOrder with ⟨l, hl⟩
  rcases h.exists_payload? ha with ⟨s, hs⟩
  rcases hl.tryRelease_of_payload hs with ⟨t, m, log, ht, -, -, -⟩
  have hstep : (Call.tryRelease a).perform p =
      ⟨.ok (.released (.ok ())), { p with heap := t }, log ++ []⟩ :=
    bind_of_ok (onHeap_of_ok ht)
  have hheld : (Call.tryRelease a).ledger p.heap held (.released (.ok ())) = held \ {a} := by
    ext q
    constructor
    · rintro (⟨hq, hkept⟩ | hq)
      · refine ⟨hq, fun he => hkept ⟨he.symm, ?_⟩⟩
        rw [he, ht]
      · cases hq
    · rintro ⟨hq, hne⟩
      exact Or.inl ⟨hq, fun hr => hne hr.1.symm⟩
  refine ⟨t, log, ht, ?_⟩
  rw [← hheld]
  exact h.step hstep

/-- A handle that is not held is refused. -/
theorem tryRelease_of_not_held (h : Reaches room small held p) {a : Handle} (ha : a ∉ held) :
    (Heap.tryRelease a p.heap).result =
      .error (.refused (if a.offset < Header.byteSize ∨ N ≤ a.offset - Header.byteSize then
        .outOfRange a.offset else .notAllocated a.offset)) := by
  rcases (Heap.check_eq_ok_iff p.heap).mp h.inOrder with ⟨l, hl⟩
  rw [hl.tryRelease_of_noPayload (h.payload?_eq_none ha)]

/-- The header of a handle that is held is in the region. -/
theorem inRange_of_held (h : Reaches room small held p) {a : Handle} (ha : a ∈ held) :
    ¬ (a.offset < Header.byteSize ∨ N ≤ a.offset - Header.byteSize) := by
  intro hrange
  have hheader : a.headerIn? N = none := if_neg (by omega)
  rcases h.tryRelease_of_held ha with ⟨t, log, ht, -⟩
  rw [Heap.tryRelease, Heap.Through.tryRelease_of_outOfRange hheader] at ht
  cases ht

/-- A change is run on a payload exactly if the handle is held. -/
theorem onPayload_eq_none_iff (h : Reaches room small held p) (a : Handle) {α : Type}
    (change : Bytes → Checked (α × Bytes)) :
    (Heap.onPayload a change p.heap).result = .ok none ↔ a ∉ held := by
  constructor
  · intro hnone ha
    rcases h.exists_payload? ha with ⟨s, hs⟩
    cases hc : change s with
    | error f =>
        rw [Heap.onPayload_of_error hs hc] at hnone
        cases hnone
    | ok r =>
        rw [Heap.onPayload_of_ok hs hc] at hnone
        cases hnone
  · intro ha
    rw [Heap.onPayload_of_none change (h.payload?_eq_none ha)]

/-- What is handed out stood for nothing, so it is not a handle that is
    held. -/
theorem not_held_of_allocate (h : Reaches room small held p) {a : Handle} {size : Nat}
    (hsize : (Heap.allocate size p.heap).result = .ok a) : a ∉ held := by
  intro ha
  rcases (Heap.check_eq_ok_iff p.heap).mp h.inOrder with ⟨l, hl⟩
  rcases h.exists_payload? ha with ⟨s, hs⟩
  have hgiven := hl.handsOut_allocate size
  generalize Heap.allocate size p.heap = o at hgiven hsize
  cases hgiven with
  | refused e log => cases hsize
  | given _ hfresh _ _ =>
      cases hsize
      rw [hs] at hfresh
      cases hfresh

/-- In every reachable state, and for every handle: a release refuses a handle
    whose header is not in the region, refuses all others that are not held,
    and takes a handle that is held from those that are, and no other. A
    handle gives access to bytes exactly if it is held, and an allocation never
    hands out one that is. -/
theorem accepted_iff_held (h : Reaches room small held p) (a : Handle) :
    ((Heap.tryRelease a p.heap).result = .error (.refused (.outOfRange a.offset)) ↔
        a.offset < Header.byteSize ∨ N ≤ a.offset - Header.byteSize) ∧
      (¬ (a.offset < Header.byteSize ∨ N ≤ a.offset - Header.byteSize) →
        ((Heap.tryRelease a p.heap).result = .error (.refused (.notAllocated a.offset)) ↔
          a ∉ held)) ∧
      (a ∈ held → ∃ t log, Heap.tryRelease a p.heap = ⟨.ok (), t, log⟩ ∧
        Reaches room small (held \ {a}) { p with heap := t }) ∧
      ((p.heap.payload? a).isSome ↔ a ∈ held) ∧
      (∀ (α : Type) (change : Bytes → Checked (α × Bytes)),
        (Heap.onPayload a change p.heap).result = .ok none ↔ a ∉ held) ∧
      (∀ size, (Heap.allocate size p.heap).result = .ok a → a ∉ held) := by
  refine ⟨?_, fun hrange => ?_, h.tryRelease_of_held, h.isSome_payload?_iff a,
    fun _ change => h.onPayload_eq_none_iff a change, fun _ => h.not_held_of_allocate⟩
  · by_cases ha : a ∈ held
    · rcases h.tryRelease_of_held ha with ⟨t, log, ht, -⟩
      rw [ht]
      exact ⟨(fun he => by cases he), fun hrange => absurd hrange (h.inRange_of_held ha)⟩
    · rw [h.tryRelease_of_not_held ha]
      split
      · rename_i hrange
        exact ⟨fun _ => hrange, fun _ => rfl⟩
      · rename_i hrange
        exact ⟨(fun he => by cases he), fun hr => absurd hr hrange⟩
  · by_cases ha : a ∈ held
    · rcases h.tryRelease_of_held ha with ⟨t, log, ht, -⟩
      rw [ht]
      exact ⟨(fun he => by cases he), fun hn => absurd ha hn⟩
    · rw [h.tryRelease_of_not_held ha, if_neg hrange]
      exact ⟨fun _ => ha, fun _ => rfl⟩

set_option maxRecDepth 4000 in
/-- After an allocation, its handle is accepted, and an offset inside of its
    payload is not. -/
theorem accepted_after_allocation :
    ∃ (p : Program 64) (log : List Record),
      (Call.allocate 8).perform (Program.start (by decide) (by decide)).1 =
        ⟨.ok (.allocated (.ok ⟨16⟩)), p, log⟩ ∧
      (p.heap.payload? ⟨16⟩).isSome ∧
      (Heap.tryRelease ⟨20⟩ p.heap).result = .error (.refused (.notAllocated 20)) := by
  have hresult : ((Call.allocate 8).perform
      (Program.start (N := 64) (by decide) (by decide)).1).result =
        .ok (.allocated (.ok ⟨16⟩)) := rfl
  have hanswer := eq_of_result hresult
  have hp := Reaches.start.step hanswer
  refine ⟨_, _, hanswer, (hp.accepted_iff_held ⟨16⟩).2.2.2.1.mpr (Or.inr rfl),
    ((hp.accepted_iff_held ⟨20⟩).2.1 (by decide)).mpr ?_⟩
  rintro (⟨hheld, -⟩ | hgiven)
  · exact hheld
  · cases hgiven

end Reaches

end Call

end Freestanding
