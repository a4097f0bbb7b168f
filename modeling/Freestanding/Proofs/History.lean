import Freestanding.Proofs.Heap.Canonical
import Freestanding.Proofs.Isolation

/-!
# Independence of History

The map of a heap does not remember how it came about.

Two runs can take blocks in different sizes and give them back in different
orders, with cuts and joins that have nothing to do with each other, and the
bytes of their regions differ afterwards. Their maps are the same as soon as
they hold the same blocks, since what is in use decides the rest. So all that
has to be said about a run is what its handles stand for at the end.

For releases that is simple: the handles that are taken back stand for nothing
and all others for what they stood for, in whatever order it is done. A run
that also allocates may be handed an offset that it has given back before. For
`Borrows` this does not matter, because it keeps account of what has been given
and not been taken back yet. Handles in that account stood for nothing at the
beginning, and all others stand for as many bytes as they did then.

## Main definitions

* `Heap.releaseAll`: Taking back one allocation after the other.
* `Call.Borrows`: Runs that take back only what they have been given.

## Theorems

* `Heap.releaseAll_apply`: What handles stand for after releases.
* `Call.Borrows.payloadLength?_eq`: What handles stand for after such a run.
* `Call.borrows_tryRelease`: An allocation and its release.
* `Program.map_independent_of_history`: Maps by the blocks in use, and what
  follows for releases and for runs.
-/

namespace Freestanding

open Change Program

variable {N : Nat}

namespace Heap

/-- Takes back one allocation after the other. -/
def releaseAll : List Handle → HeapM N Unit
  | [] => return ()
  | p :: ps => do
    tryRelease p
    releaseAll ps

/-- Different handles that stand for something are all taken back. -/
theorem releaseAll_apply {h : Heap N} {ps : List Handle} (hh : h.check = .ok ())
    (hnodup : ps.Nodup) (hlive : ∀ p ∈ ps, (h.payload? p).isSome) :
    ∃ t log, releaseAll ps h = ⟨.ok (), t, log⟩ ∧ t.check = .ok () ∧
      ∀ q, t.payload? q = if q ∈ ps then none else h.payload? q := by
  -- The induction is on the handles, and the ones that are left still stand
  -- for something because a release has no effect on them.
  induction ps generalizing h with
  | nil => exact ⟨h, [], rfl, hh, fun q => rfl⟩
  | cons p ps ih =>
      rw [List.nodup_cons] at hnodup
      rcases (check_eq_ok_iff h).mp hh with ⟨l, hl⟩
      rcases Option.isSome_iff_exists.mp (hlive p List.mem_cons_self) with ⟨s, hs⟩
      rcases hl.tryRelease_of_payload hs with ⟨t, m, log, ht, hm, hdead, hothers⟩
      have hrest : ∀ q ∈ ps, (t.payload? q).isSome := by
        intro q hq
        rw [hothers q fun he => hnodup.1 (he ▸ hq)]
        exact hlive q (List.mem_cons_of_mem p hq)
      rcases ih hm.check hnodup.2 hrest with ⟨u, log', hu, hcheck, hpayload⟩
      refine ⟨u, log ++ log', ?_, hcheck, ?_⟩
      · rw [releaseAll, bind_of_ok ht, hu]
      · intro q
        rw [hpayload q]
        by_cases hq : q = p
        · subst hq
          rw [if_neg hnodup.1, if_pos List.mem_cons_self, hdead]
        · simp only [List.mem_cons, hq, false_or]
          rw [hothers q hq]

/-- The order in which allocations are taken back does not show in the map. -/
theorem sameMap_releaseAll {h : Heap N} {ps qs : List Handle} (hh : h.check = .ok ())
    (hnodup : ps.Nodup) (hperm : qs.Perm ps) (hlive : ∀ p ∈ ps, (h.payload? p).isSome) :
    ∃ t u log log', releaseAll ps h = ⟨.ok (), t, log⟩ ∧ releaseAll qs h = ⟨.ok (), u, log'⟩ ∧
      t.SameMap u := by
  rcases releaseAll_apply hh hnodup hlive with ⟨t, log, ht, hcheck, hpayload⟩
  rcases releaseAll_apply hh (hperm.nodup_iff.mpr hnodup) fun q hq => hlive q (hperm.subset hq) with
    ⟨u, log', hu, hcheck', hpayload'⟩
  refine ⟨t, u, log, log', ht, hu, sameMap_of_payloadLength? hcheck hcheck' ?_⟩
  intro q
  rw [payloadLength?, payloadLength?, hpayload, hpayload']
  simp only [hperm.mem_iff]

/-- A heap on which no handle stands for anything has the map of a new one. -/
theorem sameMap_initial {h : Heap N} (hh : h.check = .ok ())
    (hdead : ∀ p, h.payload? p = none) : h.SameMap (Heap.initial h.room h.small) := by
  have hnew := holds_initial h.room h.small
  refine sameMap_of_payloadLength? hh hnew.check ?_
  intro p
  rw [payloadLength?, payloadLength?, hdead, hnew.payload?_eq_none fun b hb => by cases hb]

end Heap

namespace Call

/-- Runs from `p` that take back only what they have been given, each with the
    handles that it has been given and has not returned yet. -/
inductive Borrows (p : Program N) : Set Handle → Program N → Prop where
  | start : Borrows p ∅ p
  | step {own : Set Handle} {q t : Program N} {c : Call} {r : Reply} {log : List Record}
      (before : Borrows p own q) (reset : c ≠ .reset)
      (given : ∀ a, c.Releases q.heap a → a ∈ own) (answer : c.perform q = ⟨.ok r, t, log⟩) :
      Borrows p (c.ledger q.heap own r) t

/-- What a run has been given stood for nothing before it, and all other
    handles stand for as many bytes as before. -/
theorem Borrows.payloadLength?_eq {p q : Program N} {own : Set Handle} (h : Borrows p own q)
    (hp : p.InOrder) :
    q.InOrder ∧ ∀ a, (a ∈ own → p.heap.payloadLength? a = none) ∧
      (a ∉ own → q.heap.payloadLength? a = p.heap.payloadLength? a) := by
  induction h with
  | start => exact ⟨hp, fun a => ⟨fun ha => ha.elim, fun _ => rfl⟩⟩
  | @step own q t c r log before hreset hgiven answer ih =>
      rcases ih with ⟨hq, hown⟩
      have hmoves := moves_perform hq hreset answer
      refine ⟨hmoves.sound, fun a => ?_⟩
      rw [ledger_of_ne_reset hreset]
      constructor
      · rintro (⟨ha, -⟩ | ha)
        · exact (hown a).1 ha
        · -- A handle that is handed out stood for nothing right before.
          by_cases hold : a ∈ own
          · exact (hown a).1 hold
          · rw [← (hown a).2 hold, Heap.payloadLength?, (hmoves.gained a ha).1]
            rfl
      · intro ha
        have hgained : r.handle? ≠ some a := fun hr => ha (Or.inr hr)
        by_cases hlost : c.Releases q.heap a
        · rw [Heap.payloadLength?, hmoves.lost a hlost, (hown a).1 (hgiven a hlost)]
          rfl
        · have hold : a ∉ own := fun ho => ha (Or.inl ⟨ho, hlost⟩)
          rw [← (hown a).2 hold, Heap.payloadLength?, Heap.payloadLength?,
            hmoves.kept a hgained hlost, Option.map_map]
          -- What is written through a handle keeps the length.
          congr 1
          funext s
          exact length_rewrite a s c

/-- A run that has returned all that it was given leaves the map that it
    found. -/
theorem Borrows.sameMap {p q : Program N} (h : Borrows p ∅ q) (hp : p.InOrder) :
    p.heap.SameMap q.heap := by
  rcases h.payloadLength?_eq hp with ⟨hq, hlength⟩
  refine Heap.sameMap_of_payloadLength? hp hq ?_
  intro a
  exact ((hlength a).2 fun ha => ha).symm

/-- The shortest run that returns what it was given: an allocation and its
    release, which succeeds. -/
theorem borrows_tryRelease {p q : Program N} {size : Nat} {a : Handle} {log : List Record}
    (hp : p.InOrder) (answer : (allocate size).perform p = ⟨.ok (.allocated (.ok a)), q, log⟩) :
    ∃ t log', (tryRelease a).perform q = ⟨.ok (.released (.ok ())), t, log'⟩ ∧
      Borrows p ∅ t := by
  have htake : allocate size ≠ reset := by simp
  have hreturn : tryRelease a ≠ reset := by simp
  have hmoves := moves_perform hp htake answer
  have hgiven : Borrows p ((allocate size).ledger p.heap ∅ (.allocated (.ok a))) q :=
    Borrows.start.step htake (fun b hb => False.elim hb) answer
  rcases (Heap.check_eq_ok_iff q.heap).mp hmoves.sound with ⟨l, hl⟩
  rcases Option.isSome_iff_exists.mp (hmoves.gained a rfl).2 with ⟨s, hs⟩
  rcases hl.tryRelease_of_payload hs with ⟨t, m, log', ht, -, -, -⟩
  have hreturned : (tryRelease a).perform q =
      ⟨.ok (.released (.ok ())), { q with heap := t }, log' ++ []⟩ :=
    bind_of_ok (onHeap_of_ok ht)
  have hstep := hgiven.step hreturn (fun b hb => Or.inr (congrArg some hb.1)) hreturned
  -- The handle is the only one in the account, and it is taken back.
  have hempty : (tryRelease a).ledger q.heap
      ((allocate size).ledger p.heap ∅ (.allocated (.ok a))) (.released (.ok ())) = ∅ := by
    ext b
    constructor
    · rintro (⟨hb | hb, hkept⟩ | hb)
      · exact hb.1
      · cases hb
        exact absurd ⟨rfl, by rw [ht]⟩ hkept
      · cases hb
    · exact fun hb => hb.elim
  rw [hempty] at hstep
  exact ⟨_, _, hreturned, hstep⟩

end Call

namespace Program

/-- The map of a heap in order is a matter of the blocks in use: two heaps of
    the same size that have the same ones have the same map, such as the heaps
    at the end of any two runs. So the order of releases does not show in the
    map, a run that returns what it was given restores the map it started from,
    as an allocation and its release do, and a heap from which everything was
    released is one free block. -/
theorem map_independent_of_history :
    (∀ h t : Heap N, h.check = .ok () → t.check = .ok () → h.SameUsed t → h.SameMap t) ∧
      (∀ (room : Header.byteSize < N) (small : N < Header.maxRegion) (calls calls' : List Call),
        (Call.performAll calls (start room small).1).state.heap.SameUsed
            (Call.performAll calls' (start room small).1).state.heap →
          (Call.performAll calls (start room small).1).state.heap.SameMap
            (Call.performAll calls' (start room small).1).state.heap) ∧
      (∀ (h : Heap N) (ps qs : List Handle), h.check = .ok () → ps.Nodup → qs.Perm ps →
        (∀ p ∈ ps, (h.payload? p).isSome) →
          ∃ t u log log', Heap.releaseAll ps h = ⟨.ok (), t, log⟩ ∧
            Heap.releaseAll qs h = ⟨.ok (), u, log'⟩ ∧ t.SameMap u) ∧
      (∀ p q : Program N, p.InOrder → Call.Borrows p ∅ q → p.heap.SameMap q.heap) ∧
      (∀ (p q : Program N) (size : Nat) (a : Handle) (log : List Record), p.InOrder →
        (Call.allocate size).perform p = ⟨.ok (.allocated (.ok a)), q, log⟩ →
          ∃ t log', (Call.tryRelease a).perform q = ⟨.ok (.released (.ok ())), t, log'⟩ ∧
            p.heap.SameMap t.heap) ∧
      (∀ (h : Heap N) (ps : List Handle), h.check = .ok () → ps.Nodup →
        (∀ p, p ∈ ps ↔ (h.payload? p).isSome) →
          ∃ t log, Heap.releaseAll ps h = ⟨.ok (), t, log⟩ ∧
            t.blocks = [⟨0, false, N - Header.byteSize⟩] ∧ t.first = 0 ∧ t.last = 0) := by
  refine ⟨?_, ?_, ?_, ?_, ?_, ?_⟩
  · intro h t hh ht hused
    exact Heap.sameMap_of_sameUsed hh ht hused
  · intro room small calls calls' hused
    have hstart : InOrder (start room small).1 := (Heap.holds_initial room small).check
    exact Heap.sameMap_of_sameUsed (Call.preserves_performAll calls _ hstart)
      (Call.preserves_performAll calls' _ hstart) hused
  · intro h ps qs hh hnodup hperm hlive
    exact Heap.sameMap_releaseAll hh hnodup hperm hlive
  · intro p q hp hborrows
    exact hborrows.sameMap hp
  · intro p q size a log hp answer
    rcases Call.borrows_tryRelease hp answer with ⟨t, log', ht, hborrows⟩
    exact ⟨t, log', ht, hborrows.sameMap hp⟩
  · intro h ps hh hnodup hlive
    rcases Heap.releaseAll_apply hh hnodup fun p hp => (hlive p).mp hp with
      ⟨t, log, ht, hcheck, hpayload⟩
    have hdead : ∀ p, t.payload? p = none := by
      intro p
      rw [hpayload]
      by_cases hp : p ∈ ps
      · exact if_pos hp
      · rw [if_neg hp, ← Option.not_isSome_iff_eq_none]
        exact fun hs => hp ((hlive p).mpr hs)
    -- Nothing is in use, as on a new heap.
    have hmap := Heap.sameMap_initial hcheck hdead
    have hnew := Heap.holds_initial t.room t.small
    exact ⟨t, log, ht, hmap.blocks.trans hnew.blocks_eq, hmap.first, hmap.last⟩

/-- Beside two allocations a third one is made and returned, and the two are
    released in either order. -/
theorem map_after_return :
    ∃ p t : Program 128, p.heap.blocks = [⟨0, true, 16⟩, ⟨32, true, 8⟩, ⟨56, false, 56⟩] ∧
      Call.Borrows p ∅ t ∧ p.heap.SameMap t.heap ∧
      ∃ u v log log', Heap.releaseAll [⟨16⟩, ⟨48⟩] p.heap = ⟨.ok (), u, log⟩ ∧
        Heap.releaseAll [⟨48⟩, ⟨16⟩] p.heap = ⟨.ok (), v, log'⟩ ∧ u.SameMap v := by
  rcases map_independent_of_history (N := 128) with ⟨-, -, horder, hborrows, -, -⟩
  have hstart : InOrder (start (N := 128) (by decide) (by decide)).1 :=
    (Heap.holds_initial _ _).check
  have hp := Call.preserves_performAll [.malloc 16, .malloc 8] _ hstart
  have hmap : (Call.performAll [.malloc 16, .malloc 8]
      (start (N := 128) (by decide) (by decide)).1).state.heap.blocks =
        [⟨0, true, 16⟩, ⟨32, true, 8⟩, ⟨56, false, 56⟩] := by decide +kernel
  have hlive : ∀ a ∈ [(⟨16⟩ : Handle), ⟨48⟩], ((Call.performAll [.malloc 16, .malloc 8]
      (start (N := 128) (by decide) (by decide)).1).state.heap.payload? a).isSome := by
    decide +kernel
  have hgiven : ((Call.allocate 4).perform (Call.performAll [.malloc 16, .malloc 8]
      (start (N := 128) (by decide) (by decide)).1).state).result =
        .ok (.allocated (.ok ⟨72⟩)) := by cbv
  rcases Call.borrows_tryRelease hp (eq_of_result hgiven) with ⟨t, log, -, ht⟩
  exact ⟨_, t, hmap, ht, hborrows _ t hp ht, horder _ _ _ hp (by decide) (.swap _ _ _) hlive⟩

end Program

end Freestanding
