import Freestanding.Proofs.Heap.Payload

/-!
# Effects of Operations

What an operation on a heap in order does to the handles.

Layouts end here. An operation that may hand out a handle either refuses and
leaves the heap as it is, or there is one handle that stood for nothing before
and for some bytes afterwards, while all others stand for what they stood for.
An operation that may take one back is the same thing the other way round.
`HandsOut` and `TakesBack` say this about an outcome, so that each operation
has one theorem, and what is built from an operation, such as the copy of a
string or a release that ignores wrong handles, has a proof by cases of it.

None of the outcomes is a fault. An operation that is handed more bytes than a
word can count is the exception: copying a string adds one to its length.

## Main definitions

* `Heap.HandsOut`: The outcomes of an operation that answers with a handle.
* `Heap.TakesBack`: The outcomes of an operation that gives up a handle.
* `Heap.Revises`: The outcomes of a change of a payload.

## Theorems

* `Heap.Holds.of_allocate`: A handle that is handed out.
* `Heap.Holds.handsOut_allocate`, `Heap.Holds.handsOut_duplicate`: Operations
  that hand out a handle.
* `Heap.Holds.tryRelease_of_payload`, `Heap.Holds.tryRelease_of_noPayload`: A
  release by what the handle stands for.
* `Heap.Holds.takesBack_tryRelease`, `Heap.TakesBack.release`: Operations that
  give up a handle.
* `Heap.onPayload_of_none`, `Heap.onPayload_of_error`, `Heap.onPayload_of_ok`,
  `Heap.Holds.revises_onPayload`: A change of a payload.
-/

namespace Freestanding

namespace Heap

open Layout Change

variable {N : Nat} {α : Type}

/-- The outcomes on `h` of an operation that answers with a handle. -/
inductive HandsOut (h : Heap N) : Outcome Record Stop (Heap N) Handle → Prop where
  /-- Nothing is handed out and nothing changes. -/
  | refused (e : Error) (log : List Record) : HandsOut h ⟨.error (.refused e), h, log⟩
  /-- A handle that stood for nothing stands for something. -/
  | given {t : Heap N} {p : Handle} {s : Bytes} {log : List Record} (sound : t.check = .ok ())
      (fresh : h.payload? p = none) (own : t.payload? p = some s) (others : h.SameExcept p t) :
      HandsOut h ⟨.ok p, t, log⟩

/-- The outcomes on `h` of an operation that gives up the handle `p`. -/
inductive TakesBack (h : Heap N) (p : Handle) : Outcome Record Stop (Heap N) Unit → Prop where
  /-- The handle stands for nothing and nothing changes. -/
  | refused (e : Error) (log : List Record) (dead : h.payload? p = none) :
      TakesBack h p ⟨.error (.refused e), h, log⟩
  /-- The handle stands for nothing any more. -/
  | taken {t : Heap N} {s : Bytes} {log : List Record} (sound : t.check = .ok ())
      (own : h.payload? p = some s) (dead : t.payload? p = none) (others : h.SameExcept p t) :
      TakesBack h p ⟨.ok (), t, log⟩

/-- The outcomes on `h` of a change of the payload of `p`. -/
inductive Revises (h : Heap N) (p : Handle) (change : Bytes → Checked (α × Bytes)) :
    Outcome Record Stop (Heap N) (Option α) → Prop where
  /-- There is no payload to change. -/
  | absent (dead : h.payload? p = none) : Revises h p change ⟨.ok none, h, []⟩
  /-- The change faults before anything is written. -/
  | faulted {s : Bytes} {f : Fault} (own : h.payload? p = some s) (fault : change s = .error f) :
      Revises h p change ⟨.error (.fault f), h, []⟩
  /-- What the change makes of the payload is written over it. -/
  | revised {t : Heap N} {s u : Bytes} {a : α} (sound : t.check = .ok ())
      (own : h.payload? p = some s) (answer : change s = .ok (a, u))
      (written : t.payload? p = some (s.overlay 0 u)) (others : h.SameExcept p t)
      (blocks : t.blocks = h.blocks) : Revises h p change ⟨.ok (some a), t, []⟩

theorem SameExcept.trans {h t u : Heap N} {p : Handle} (ht : h.SameExcept p t)
    (hu : t.SameExcept p u) : h.SameExcept p u :=
  fun q hq => (hu q hq).trans (ht q hq)

/-- An allocation that answers hands out a handle that stood for nothing, with
    as many bytes as were asked for. -/
theorem Holds.of_allocate {h t : Heap N} {l : Layout} {size : Nat} {p : Handle}
    {log : List Record} (hl : h.Holds l) (ha : Heap.allocate size h = ⟨.ok p, t, log⟩) :
    ∃ m s, t.Holds m ∧ h.payload? p = none ∧ t.payload? p = some s ∧ size ≤ s.length ∧
      h.SameExcept p t := by
  cases hf : l.firstFit? size with
  | none =>
      rw [hl.allocate_of_noFit hf] at ha
      cases ha
  | some f =>
      rcases hl.allocate_of_fit hf with ⟨t', ht, hm, hagree⟩
      rw [ht] at ha
      cases ha
      rcases eq_of_firstFit? hf with ⟨rfl, hfree, hsize⟩
      -- One block is in use that was not, and the others are as before.
      have hold := usedFrom_layout_of_free hfree
      have hnew := mem_usedFrom_cut f size
      have hkeep : ∀ b : BlockInfo, b.payload ≠ f.handle →
          (b ∈ usedFrom 0 (f.before ++ cut f.here size ++ f.after) ↔
            b ∈ usedFrom 0 f.layout) := by
        intro b hb
        rw [hnew, hold]
        exact or_iff_right fun he => hb (congrArg BlockInfo.payload he)
      rcases hm.exists_payload? ((hnew _).mpr (Or.inl rfl)) with ⟨s, hs, hlength⟩
      refine ⟨_, s, hm, ?_, hs, ?_, ?_⟩
      · refine hl.payload?_eq_none fun b hb => ?_
        rw [hold] at hb
        exact payload_ne_of_mem_others hb
      · rw [hlength]
        exact le_handedOut hsize
      · -- No header that is written is in the payload of a block that stays.
        exact hl.sameExcept hm hkeep fun b hb hne =>
          hagree.slice?_payload (List.mem_of_mem_filter ((hkeep b hne).mpr hb))

/-- An allocation that does not answer is refused and changes nothing. -/
theorem Holds.of_allocate_error {h t : Heap N} {l : Layout} {size : Nat} {e : Stop}
    {log : List Record} (hl : h.Holds l) (ha : Heap.allocate size h = ⟨.error e, t, log⟩) :
    e = .refused (.exhausted size) ∧ t = h := by
  cases hf : l.firstFit? size with
  | none =>
      rw [hl.allocate_of_noFit hf] at ha
      cases ha
      exact ⟨rfl, rfl⟩
  | some f =>
      rcases hl.allocate_of_fit hf with ⟨t', ht, -, -⟩
      rw [ht] at ha
      cases ha

theorem Holds.handsOut_allocate {h : Heap N} {l : Layout} (hl : h.Holds l) (size : Nat) :
    h.HandsOut (Heap.allocate size h) := by
  rcases ha : Heap.allocate size h with ⟨e | p, t, log⟩
  · rcases hl.of_allocate_error ha with ⟨rfl, rfl⟩
    exact .refused _ _
  · rcases hl.of_allocate ha with ⟨m, s, hm, hfresh, hown, -, hothers⟩
    exact .given hm.check hfresh hown hothers

/-- A copy of more bytes than a word can count is a fault. -/
theorem duplicate_of_limit {h : Heap N} {s : Bytes} (hs : Word.limit ≤ s.length + 1) :
    Heap.duplicate s h = ⟨.error (.fault .overflow), h, []⟩ := by
  have hlength : Word.add s.length 1 = .error .overflow := if_neg (by omega)
  rw [duplicate, Through.duplicate, hlength]
  rfl

/-- A copy for which there is no room is refused. -/
theorem duplicate_of_error {h t : Heap N} {s : Bytes} {e : Stop} {log : List Record}
    (hs : s.length + 1 < Word.limit)
    (ha : Heap.allocate (s.length + 1) h = ⟨.error e, t, log⟩) :
    Heap.duplicate s h = ⟨.error e, t, log⟩ := by
  rw [Heap.allocate] at ha
  rw [duplicate, Through.duplicate, lift_bind (Word.add_eq_ok hs), bind_of_error ha]

/-- A copy is written to the front of an allocation, with a zero behind it. -/
theorem duplicate_of_ok {h t : Heap N} {s u : Bytes} {p : Handle} {log : List Record}
    (hs : s.length + 1 < Word.limit) (ha : Heap.allocate (s.length + 1) h = ⟨.ok p, t, log⟩)
    (hu : t.payload? p = some u) (hlength : s.length + 1 ≤ u.length) :
    Heap.duplicate s h =
      ⟨.ok p, t.store p (s ++ 0 :: u.drop (s.length + 1)),
        log ++ [.duplicated (s.length + 1) p]⟩ := by
  -- The payload has room for the characters and the zero behind them.
  have hreplace : Bytes.replace u 0 s.length s = .ok (s ++ u.drop s.length) :=
    Bytes.replace_zero (by omega) rfl
  have hput : Bytes.put (s ++ u.drop s.length) s.length 0 =
      .ok (s ++ 0 :: u.drop (s.length + 1)) := by
    rw [Bytes.put_eq_ok 0 (by simp only [List.length_append, List.length_drop]; omega),
      List.set_append_right _ _ (Nat.le_refl _), Nat.sub_self,
      List.drop_eq_getElem_cons (by omega : s.length < u.length), List.set_cons_zero]
  rw [Heap.allocate] at ha
  rw [duplicate, Through.duplicate, lift_bind (Word.add_eq_ok hs), bind_of_ok ha]
  dsimp only
  rw [state_bind, hu]
  dsimp only
  rw [lift_bind hreplace, lift_bind hput]
  rfl

theorem Holds.handsOut_duplicate {h : Heap N} {l : Layout} (hl : h.Holds l) {s : Bytes}
    (hs : s.length + 1 < Word.limit) : h.HandsOut (Heap.duplicate s h) := by
  rcases ha : Heap.allocate (s.length + 1) h with ⟨e | p, t, log⟩
  · rw [duplicate_of_error hs ha]
    rcases hl.of_allocate_error ha with ⟨rfl, rfl⟩
    exact .refused _ _
  · -- The copy is a write through the handle that has just been handed out.
    rcases hl.of_allocate ha with ⟨m, u, hm, hfresh, hu, hlength, hothers⟩
    have hcopy : (s ++ 0 :: u.drop (s.length + 1)).length ≤ u.length := by
      simp only [List.length_append, List.length_cons, List.length_drop]
      omega
    rw [duplicate_of_ok hs ha hu hlength]
    exact .given (hm.store hu hcopy).check hfresh (hm.payload?_store hu hcopy)
      (hothers.trans (hm.sameExcept_store hu hcopy))

/-- A handle that stands for nothing is refused, and nothing changes. -/
theorem Holds.tryRelease_of_noPayload {h : Heap N} {l : Layout} {p : Handle} (hl : h.Holds l)
    (hp : h.payload? p = none) :
    Heap.tryRelease p h =
      ⟨.error (.refused (if p.offset < Header.byteSize ∨ N ≤ p.offset - Header.byteSize then
        .outOfRange p.offset else .notAllocated p.offset)), h, []⟩ := by
  by_cases hrange : p.offset < Header.byteSize ∨ N ≤ p.offset - Header.byteSize
  · have hheader : p.headerIn? N = none := if_neg (by omega)
    rw [if_pos hrange, Heap.tryRelease, Through.tryRelease_of_outOfRange hheader]
  · have hheader : p.headerIn? N = some (p.offset - Header.byteSize) := if_pos (by omega)
    have hlive : h.live? (p.offset - Header.byteSize) = none := by
      rw [hl.live?_eq]
      cases hloc : l.locate? (p.offset - Header.byteSize) with
      | none => rfl
      | some f =>
          -- A segment in use would be a payload for the handle.
          refine if_neg fun hused => ?_
          rcases hl.exists_payload?_of_locate? (by omega) hloc hused with ⟨s, hs, -⟩
          rw [hp] at hs
          cases hs
    rw [if_neg hrange, Heap.tryRelease, Through.tryRelease_of_notLive hheader hlive]

/-- A handle that stands for something is taken back. -/
theorem Holds.tryRelease_of_payload {h : Heap N} {l : Layout} {p : Handle} {s : Bytes}
    (hl : h.Holds l) (hp : h.payload? p = some s) :
    ∃ t m log, Heap.tryRelease p h = ⟨.ok (), t, log⟩ ∧ t.Holds m ∧ t.payload? p = none ∧
      h.SameExcept p t := by
  rcases hl.exists_focus_of_payload? hp with ⟨f, rfl, hused, rfl, -⟩
  rcases hl.tryRelease_of_used hused with ⟨t, ht, hm, hagree, -⟩
  -- One block is not in use any more, and the others are as before.
  have hold := mem_usedFrom_layout_of_used hused
  have hnew := usedFrom_free f
  have hkeep : ∀ b : BlockInfo, b.payload ≠ f.handle →
      (b ∈ usedFrom 0 f.free ↔ b ∈ usedFrom 0 f.layout) := by
    intro b hb
    have hne : b ≠ ⟨f.before.span, true, f.here.size⟩ := by
      rintro rfl
      exact hb rfl
    rw [hnew, hold]
    exact (or_iff_right hne).symm
  refine ⟨t, f.free, _, ht, hm, ?_, ?_⟩
  · refine hm.payload?_eq_none fun b hb => ?_
    rw [hnew] at hb
    exact payload_ne_of_mem_others hb
  · exact hl.sameExcept hm hkeep fun b hb _ => hagree.slice?_payload (List.mem_of_mem_filter hb)

theorem Holds.takesBack_tryRelease {h : Heap N} {l : Layout} (hl : h.Holds l) (p : Handle) :
    h.TakesBack p (Heap.tryRelease p h) := by
  cases hp : h.payload? p with
  | none =>
      rw [hl.tryRelease_of_noPayload hp]
      exact .refused _ _ hp
  | some s =>
      rcases hl.tryRelease_of_payload hp with ⟨t, m, log, ht, hm, hdead, hothers⟩
      rw [ht]
      exact .taken hm.check hp hdead hothers

/-- A release that ignores wrong handles leaves the heap that the other one
    leaves, and always answers. -/
theorem TakesBack.release {h : Heap N} {p : Handle}
    (hr : h.TakesBack p (Heap.tryRelease p h)) :
    ∃ log, Heap.release p h = ⟨.ok (), (Heap.tryRelease p h).state, log⟩ := by
  rcases ht : Heap.tryRelease p h with ⟨e | ⟨⟩, t, log⟩
  · rw [ht] at hr
    cases hr with
    | refused e log hdead => exact ⟨_, release_of_refused ht⟩
  · exact ⟨_, release_of_ok ht⟩

/-- Without a payload there is nothing to change. -/
theorem onPayload_of_none {h : Heap N} {p : Handle} (change : Bytes → Checked (α × Bytes))
    (hp : h.payload? p = none) : Heap.onPayload p change h = ⟨.ok none, h, []⟩ := by
  rw [onPayload, state_bind, hp]
  rfl

/-- A change that faults writes nothing. -/
theorem onPayload_of_error {h : Heap N} {p : Handle} {s : Bytes} {f : Fault}
    {change : Bytes → Checked (α × Bytes)} (hp : h.payload? p = some s)
    (hc : change s = .error f) : Heap.onPayload p change h = ⟨.error (.fault f), h, []⟩ := by
  rw [onPayload, state_bind, hp]
  dsimp only
  rw [hc]
  rfl

/-- What a change makes of a payload is written where the payload is. -/
theorem onPayload_of_ok {h : Heap N} {p : Handle} {s u : Bytes} {a : α}
    {change : Bytes → Checked (α × Bytes)} (hp : h.payload? p = some s)
    (hc : change s = .ok (a, u)) :
    Heap.onPayload p change h = ⟨.ok (some a), h.store p (u.take s.length), []⟩ := by
  rw [onPayload, state_bind, hp]
  dsimp only
  rw [lift_bind hc]
  rfl

/-- A change of a payload writes what it makes of it to that payload. -/
theorem Holds.revises_onPayload {h : Heap N} {l : Layout} (hl : h.Holds l) (p : Handle)
    (change : Bytes → Checked (α × Bytes)) : h.Revises p change (Heap.onPayload p change h) := by
  cases hp : h.payload? p with
  | none =>
      rw [onPayload_of_none change hp]
      exact .absent hp
  | some s =>
      cases hc : change s with
      | error f =>
          rw [onPayload_of_error hp hc]
          exact .faulted hp hc
      | ok r =>
          rcases r with ⟨a, u⟩
          have hlength : (u.take s.length).length ≤ s.length := List.length_take_le _ _
          have hstore := hl.store hp hlength
          have hwritten := hl.payload?_store hp hlength
          -- Bytes that are too many are dropped, and missing ones are kept.
          have hoverlay : u.take s.length ++ s.drop (u.take s.length).length =
              s.overlay 0 u := by
            rw [Bytes.overlay, List.take_zero, List.nil_append, Nat.sub_zero, Nat.zero_add,
              List.length_take]
            rcases Nat.le_total s.length u.length with hle | hle
            · rw [Nat.min_eq_left hle, List.drop_length, List.drop_eq_nil_of_le hle]
            · rw [Nat.min_eq_right hle]
          rw [hoverlay] at hwritten
          rw [onPayload_of_ok hp hc]
          exact .revised hstore.check hp hc hwritten (hl.sameExcept_store hp hlength)
            (hstore.blocks_eq.trans hl.blocks_eq.symm)

end Heap

end Freestanding
