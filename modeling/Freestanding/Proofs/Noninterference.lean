import Freestanding.Proofs.Heap.Canonical
import Freestanding.Proofs.Heap.Refinement
import Freestanding.Proofs.Heap.Tiling
import Freestanding.Proofs.Integrity

/-!
# Noninterference

No operation looks at the bytes of a payload or of free space.

This is about two runs. They start on heaps with the same blocks, and apart
from the headers of these blocks no byte of one region has to be that of the
other: programs have written what they like, and where blocks were joined,
headers have been left behind. On both of them a program takes the same steps,
but for the bytes that it writes. Whatever these are, both runs get the same
answers, write the same records and have the same blocks after every step.

`Agree` is the relation between two changes that this is made of. It is shown
for each operation, with the same layout on both sides as the invariant: since
an operation on a heap answers what it answers on the layout, it does so on
both. For what is put together from operations there are rules, and the rest
follows the text of the program.

A step that runs a routine on a payload is not among those compared, for its
answer is about the bytes.

## Main definitions

* `Outcome.Agree`, `Change.Agree`: Changes that cannot be told apart.
* `Heap.SameLayout`: Heaps with the same layout.
* `Program.Indistinct`: Programs with the same layout and error number.
* `Call.Alike`: Steps that differ only in the bytes they write.
* `Call.View`, `Call.views`: What is seen of a step and of a run.

## Theorems

* `Outcome.Agree.exists_eq`: Outcomes that agree.
* `Change.Agree.bind`: One change after another.
* `Heap.agree_allocate`, `Heap.agree_tryRelease`, `Heap.agree_release`,
  `Heap.agree_onPayload`, `Heap.agree_duplicate`: The operations.
* `Call.agree_perform`: The step.
* `Call.views_eq_of_alike`: The run.
-/

namespace Freestanding

/-- Two outcomes with the same answer and the same records, whose states are
    related. -/
structure Outcome.Agree {ρ ε σ α : Type} (R : σ → σ → Prop) (o o' : Outcome ρ ε σ α) : Prop where
  result : o.result = o'.result
  log : o.log = o'.log
  state : R o.state o'.state

/-- Outcomes that agree are the same but for their states. -/
theorem Outcome.Agree.exists_eq {ρ ε σ α : Type} {R : σ → σ → Prop} {o o' : Outcome ρ ε σ α}
    (h : Outcome.Agree R o o') :
    ∃ result log s t, o = ⟨result, s, log⟩ ∧ o' = ⟨result, t, log⟩ ∧ R s t := by
  rcases o with ⟨result, s, log⟩
  rcases o' with ⟨result', t, log'⟩
  rcases h with ⟨hresult, hlog, hstate⟩
  cases hresult
  cases hlog
  exact ⟨result, log, s, t, rfl, rfl, hstate⟩

namespace Change

variable {ρ ε σ α β : Type} {R : σ → σ → Prop}

/-- Two changes agree if they do on all states that are related. -/
def Agree (R : σ → σ → Prop) (x y : Change ρ ε σ α) : Prop :=
  ∀ s t, R s t → Outcome.Agree R (x s) (y t)

theorem agree_pure (a : α) : Agree R (pure a : Change ρ ε σ α) (pure a) :=
  fun _ _ h => ⟨rfl, rfl, h⟩

theorem agree_emit (r : ρ) : Agree R (emit r : Change ρ ε σ Unit) (emit r) :=
  fun _ _ h => ⟨rfl, rfl, h⟩

/-- What follows changes that agree only has to agree for the same answer. -/
theorem Agree.bind {x y : Change ρ ε σ α} {f g : α → Change ρ ε σ β} (hxy : Agree R x y)
    (hfg : ∀ a, Agree R (f a) (g a)) : Agree R (x >>= f) (y >>= g) := by
  intro s t h
  rcases (hxy s t h).exists_eq with ⟨result, log, s', t', hx, hy, hstate⟩
  cases result with
  | error e =>
      rw [bind_of_error hx, bind_of_error hy]
      exact ⟨rfl, rfl, hstate⟩
  | ok a =>
      rcases hfg a s' t' hstate with ⟨hresult, hlog, hlater⟩
      rw [bind_of_ok hx, bind_of_ok hy]
      exact ⟨hresult, congrArg (log ++ ·) hlog, hlater⟩

end Change

namespace Heap

open Layout Change

variable {N : Nat} {α : Type}

/-- Two heaps hold the same layout, whatever their other bytes are. -/
def SameLayout (h t : Heap N) : Prop :=
  ∃ l, h.Holds l ∧ t.Holds l

/-- The blocks of a heap in order tell its layout. -/
theorem sameLayout_of_blocks_eq {h t : Heap N} (hh : h.check = .ok ()) (ht : t.check = .ok ())
    (hblocks : h.blocks = t.blocks) : h.SameLayout t := by
  rcases (check_eq_ok_iff h).mp hh with ⟨l, hl⟩
  rcases (check_eq_ok_iff t).mp ht with ⟨m, hm⟩
  have hsame : l = m := by
    apply Layout.eq_of_blocks_eq
    rw [← hl.blocks_eq, ← hm.blocks_eq, hblocks]
  subst hsame
  exact ⟨l, hl, hm⟩

theorem SameLayout.blocks_eq {h t : Heap N} (hs : h.SameLayout t) : h.blocks = t.blocks := by
  rcases hs with ⟨l, hl, ht⟩
  exact hl.blocks_eq.trans ht.blocks_eq.symm

theorem SameLayout.payloadLength?_eq {h t : Heap N} (hs : h.SameLayout t) :
    h.payloadLength? = t.payloadLength? := by
  rcases hs with ⟨l, hl, ht⟩
  funext p
  rw [payloadLength?, payloadLength?, Request.length_payload? hl, Request.length_payload? ht]

theorem SameLayout.payload?_eq_none {h t : Heap N} (hs : h.SameLayout t) {p : Handle}
    (hp : h.payload? p = none) : t.payload? p = none := by
  have hlength := congrFun hs.payloadLength?_eq p
  rw [payloadLength?, payloadLength?, hp] at hlength
  exact Option.map_eq_none_iff.mp hlength.symm

theorem SameLayout.exists_payload? {h t : Heap N} (hs : h.SameLayout t) {p : Handle} {s : Bytes}
    (hp : h.payload? p = some s) : ∃ u, t.payload? p = some u ∧ s.length = u.length := by
  have hlength := congrFun hs.payloadLength?_eq p
  rw [payloadLength?, payloadLength?, hp] at hlength
  rcases Option.map_eq_some_iff.mp hlength.symm with ⟨u, hu, hsize⟩
  exact ⟨u, hu, hsize.symm⟩

/-- Bytes written to a payload do not have to be the same. -/
theorem SameLayout.store {h t : Heap N} {p : Handle} {s u s' u' : Bytes} (hs : h.SameLayout t)
    (hp : h.payload? p = some s) (hq : t.payload? p = some u) (hlength : s'.length ≤ s.length)
    (hlength' : u'.length ≤ u.length) : (h.store p s').SameLayout (t.store p u') := by
  rcases hs with ⟨l, hl, ht⟩
  exact ⟨l, hl.store hp hlength, ht.store hq hlength'⟩

theorem agree_allocate (size : Nat) :
    Agree SameLayout (allocate size : HeapM N Handle) (allocate size) := by
  intro h t hs
  rcases hs with ⟨l, hl, ht⟩
  cases hf : l.firstFit? size with
  | none =>
      rw [hl.allocate_of_noFit hf, ht.allocate_of_noFit hf]
      exact ⟨rfl, rfl, l, hl, ht⟩
  | some f =>
      rcases hl.allocate_of_fit hf with ⟨h', hh, hholds, -⟩
      rcases ht.allocate_of_fit hf with ⟨t', ht, hholds', -⟩
      rw [hh, ht]
      exact ⟨rfl, rfl, _, hholds, hholds'⟩

theorem agree_tryRelease (p : Handle) :
    Agree SameLayout (tryRelease p : HeapM N Unit) (tryRelease p) := by
  intro h t hs
  cases hp : h.payload? p with
  | none =>
      -- No bytes at the offset make it a handle, so both heaps refuse.
      have hq := hs.payload?_eq_none hp
      rcases hs with ⟨l, hl, ht⟩
      rw [hl.tryRelease_of_noPayload hp, ht.tryRelease_of_noPayload hq]
      exact ⟨rfl, rfl, l, hl, ht⟩
  | some s =>
      rcases hs with ⟨l, hl, ht⟩
      rcases hl.exists_focus_of_payload? hp with ⟨f, rfl, hused, rfl, -⟩
      rcases hl.tryRelease_of_used hused with ⟨h', hh, hholds, -⟩
      rcases ht.tryRelease_of_used hused with ⟨t', ht, hholds', -⟩
      rw [hh, ht]
      exact ⟨rfl, rfl, _, hholds, hholds'⟩

theorem agree_attempt {R : Heap N → Heap N → Prop} {x y : HeapM N α} (hxy : Agree R x y) :
    Agree R (attempt x) (attempt y) := by
  intro h t hs
  rcases (hxy h t hs).exists_eq with ⟨result, log, h', t', hx, hy, hstate⟩
  rw [attempt, attempt, hx, hy]
  rcases result with (e | f) | a
  · exact ⟨rfl, rfl, hstate⟩
  · exact ⟨rfl, rfl, hstate⟩
  · exact ⟨rfl, rfl, hstate⟩

theorem agree_release (p : Handle) :
    Agree SameLayout (release p : HeapM N Unit) (release p) := by
  refine (agree_attempt (agree_tryRelease p)).bind fun result => ?_
  cases result with
  | ok => exact agree_pure ()
  | error reason => exact agree_emit _

/-- Changes of a payload agree if their answers do, whatever they make of its
    bytes. -/
theorem agree_onPayload (p : Handle) {f g : Bytes → Checked (α × Bytes)}
    (hfg : ∀ s u : Bytes, s.length = u.length →
      ∃ a s' u', f s = .ok (a, s') ∧ g u = .ok (a, u')) :
    Agree SameLayout (onPayload p f : HeapM N (Option α)) (onPayload p g) := by
  intro h t hs
  cases hp : h.payload? p with
  | none =>
      rw [onPayload_of_none f hp, onPayload_of_none g (hs.payload?_eq_none hp)]
      exact ⟨rfl, rfl, hs⟩
  | some s =>
      rcases hs.exists_payload? hp with ⟨u, hq, hlength⟩
      rcases hfg s u hlength with ⟨a, s', u', hf, hg⟩
      rw [onPayload_of_ok hp hf, onPayload_of_ok hq hg]
      exact ⟨rfl, rfl, hs.store hp hq (List.length_take_le _ _) (List.length_take_le _ _)⟩

theorem agree_writePayload (p : Handle) (pos pos' : Nat) (u u' : Bytes) :
    Agree SameLayout (writePayload p pos u : HeapM N (Option Nat)) (writePayload p pos' u') := by
  refine agree_onPayload p fun s t hlength => ⟨s.length, s.overlay pos u, t.overlay pos' u', rfl, ?_⟩
  rw [hlength]
  rfl

/-- Copies agree if there is as much to copy. -/
theorem agree_duplicate {s u : Bytes} (hlength : s.length = u.length) :
    Agree SameLayout (duplicate s : HeapM N Handle) (duplicate u) := by
  intro h t hs
  by_cases hlimit : Word.limit ≤ s.length + 1
  · rw [duplicate_of_limit hlimit, duplicate_of_limit (hlength ▸ hlimit)]
    exact ⟨rfl, rfl, hs⟩
  · rcases (agree_allocate (s.length + 1) h t hs).exists_eq with
      ⟨result, log, h', t', ha, hb, hstate⟩
    rw [not_le] at hlimit
    cases result with
    | error e =>
        rw [duplicate_of_error hlimit ha, duplicate_of_error (hlength ▸ hlimit) (hlength ▸ hb)]
        exact ⟨rfl, rfl, hstate⟩
    | ok p =>
        -- The handle stands for as many bytes in both, so both copies fit.
        rcases hs with ⟨l, hl, -⟩
        rcases hl.of_allocate ha with ⟨m, v, -, -, hv, hfit, -⟩
        rcases hstate.exists_payload? hv with ⟨w, hw, hsize⟩
        rw [duplicate_of_ok hlimit ha hv hfit,
          duplicate_of_ok (hlength ▸ hlimit) (hlength ▸ hb) hw (by omega), hlength]
        refine ⟨rfl, rfl, hstate.store hv hw ?_ ?_⟩
        · simp only [List.length_append, List.length_cons, List.length_drop]
          omega
        · simp only [List.length_append, List.length_cons, List.length_drop]
          omega

theorem agree_reset : Agree SameLayout (reset : HeapM N Unit) reset :=
  fun h t _ => ⟨rfl, rfl, _, holds_initial h.room h.small, holds_initial t.room t.small⟩

end Heap

namespace Program

open Change

variable {N : Nat} {α : Type}

/-- Two programs with the same layout and the same error number. -/
structure Indistinct (p q : Program N) : Prop where
  heap : p.heap.SameLayout q.heap
  errno : p.errno = q.errno

theorem agree_onHeap {x y : HeapM N α} (hxy : Agree Heap.SameLayout x y) :
    Agree Indistinct (onHeap x) (onHeap y) := by
  intro p q hpq
  rcases (hxy p.heap q.heap hpq.heap).exists_eq with ⟨result, log, h, t, hx, hy, hstate⟩
  rcases result with (e | f) | a
  · rw [onHeap_of_refused hx, onHeap_of_refused hy]
    exact ⟨rfl, rfl, hstate, hpq.errno⟩
  · rw [onHeap_of_fault hx, onHeap_of_fault hy]
    exact ⟨rfl, rfl, hstate, hpq.errno⟩
  · rw [onHeap_of_ok hx, onHeap_of_ok hy]
    exact ⟨rfl, rfl, hstate, hpq.errno⟩

theorem agree_setErrno (code : Int) :
    Agree Indistinct (setErrno code : ProgramM N Unit) (setErrno code) :=
  fun _ _ hpq => ⟨rfl, rfl, hpq.heap, rfl⟩

theorem agree_malloc (size : Nat) :
    Agree Indistinct (malloc size : ProgramM N (Option Handle)) (malloc size) := by
  refine (agree_onHeap (Heap.agree_allocate size)).bind fun result => ?_
  cases result with
  | ok a => exact agree_pure _
  | error reason =>
      exact (agree_emit _).bind fun _ => (agree_setErrno _).bind fun _ => agree_pure _

theorem agree_free (a : Handle) : Agree Indistinct (free a : ProgramM N Unit) (free a) :=
  (agree_onHeap (Heap.agree_release a)).bind fun _ => agree_pure _

theorem agree_strdup {s u : Bytes} (hlength : (CString.chars s).length = (CString.chars u).length) :
    Agree Indistinct (strdup s : ProgramM N (Option Handle)) (strdup u) := by
  have hcopy : Agree Heap.SameLayout (Heap.strdup s : HeapM N Handle) (Heap.strdup u) := by
    rw [Heap.strdup_eq, Heap.strdup_eq]
    exact Heap.agree_duplicate hlength
  refine (agree_onHeap hcopy).bind fun result => ?_
  cases result with
  | ok a => exact agree_pure _
  | error reason => exact (agree_setErrno _).bind fun _ => agree_pure _

end Program

namespace Call

open Change Program

variable {N : Nat}

/-- Steps that ask the same of a heap. What they write can differ, and so can
    the characters of strings with as many of them. -/
inductive Alike : Call → Call → Prop where
  | allocate (size : Nat) : Alike (allocate size) (allocate size)
  | tryRelease (p : Handle) : Alike (tryRelease p) (tryRelease p)
  | release (p : Handle) : Alike (release p) (release p)
  | strdup {s u : Bytes} (length : (CString.chars s).length = (CString.chars u).length) :
      Alike (strdup s) (strdup u)
  | strndup {s u : Bytes} {n m : Nat}
      (length : ((CString.chars s).take n).length = ((CString.chars u).take m).length) :
      Alike (strndup s n) (strndup u m)
  | write (p : Handle) (pos pos' : Nat) (t t' : Bytes) : Alike (write p pos t) (write p pos' t')
  | reset : Alike reset reset
  | malloc (size : Nat) : Alike (malloc size) (malloc size)
  | free (p : Handle) : Alike (free p) (free p)
  | duplicate {s u : Bytes} (length : (CString.chars s).length = (CString.chars u).length) :
      Alike (duplicate s) (duplicate u)
  | setErrno (code : Int) : Alike (setErrno code) (setErrno code)

/-- Steps that ask the same agree. -/
theorem agree_perform {c d : Call} (h : Alike c d) :
    Agree Indistinct (c.perform : ProgramM N Reply) d.perform := by
  cases h with
  | allocate size => exact (agree_onHeap (Heap.agree_allocate size)).bind fun _ => agree_pure _
  | tryRelease a => exact (agree_onHeap (Heap.agree_tryRelease a)).bind fun _ => agree_pure _
  | release a => exact (agree_onHeap (Heap.agree_release a)).bind fun _ => agree_pure _
  | strdup hlength =>
      rw [perform, perform, Heap.strdup_eq, Heap.strdup_eq]
      exact (agree_onHeap (Heap.agree_duplicate hlength)).bind fun _ => agree_pure _
  | strndup hlength =>
      rw [perform, perform, Heap.strndup_eq, Heap.strndup_eq]
      exact (agree_onHeap (Heap.agree_duplicate hlength)).bind fun _ => agree_pure _
  | write a pos pos' t t' =>
      refine (agree_onHeap (Heap.agree_writePayload a pos pos' t t')).bind fun result => ?_
      cases result with
      | ok length => exact agree_pure _
      | error e => exact agree_pure _
  | reset => exact (agree_onHeap Heap.agree_reset).bind fun _ => agree_pure _
  | malloc size => exact (agree_malloc size).bind fun _ => agree_pure _
  | free a => exact (agree_free a).bind fun _ => agree_pure _
  | duplicate hlength => exact (agree_strdup hlength).bind fun _ => agree_pure _
  | setErrno code => exact (agree_setErrno code).bind fun _ => agree_pure _

/-- What is seen of a step from outside: its answer, its records, and the
    blocks, payload lengths and error number that there are after it. -/
structure View where
  result : Except Fault Reply
  log : List Record
  blocks : List BlockInfo
  lengths : Handle → Option Nat
  errno : Int

/-- What is seen of a step that is carried out on a program. -/
def view (c : Call) (p : Program N) : View where
  result := (c.perform p).result
  log := (c.perform p).log
  blocks := (c.perform p).state.heap.blocks
  lengths := (c.perform p).state.heap.payloadLength?
  errno := (c.perform p).state.errno

/-- What is seen of one step after the other, also of those after a fault. -/
def views (p : Program N) : List Call → List View
  | [] => []
  | c :: cs => c.view p :: views (c.perform p).state cs

theorem view_eq_of_alike {c d : Call} {p q : Program N} (h : Alike c d) (hpq : Indistinct p q) :
    c.view p = d.view q := by
  rcases agree_perform h p q hpq with ⟨hresult, hlog, hstate⟩
  rw [view, view, hresult, hlog, hstate.heap.blocks_eq, hstate.heap.payloadLength?_eq,
    hstate.errno]

/-- On heaps in order with the same blocks, two runs that take the same steps
    look the same after every one of them. The bytes outside of the headers do
    not show, neither those that were there at first nor those that the two
    runs write. -/
theorem views_eq_of_alike {p q : Program N} {cs ds : List Call} (hp : p.InOrder) (hq : q.InOrder)
    (hblocks : p.heap.blocks = q.heap.blocks) (herrno : p.errno = q.errno)
    (halike : List.Forall₂ Alike cs ds) : views p cs = views q ds := by
  have hpq : Indistinct p q := ⟨Heap.sameLayout_of_blocks_eq hp hq hblocks, herrno⟩
  clear hp hq hblocks herrno
  -- The induction is on the steps, and the states after a step are as much
  -- alike as those before it.
  induction halike generalizing p q with
  | nil => rfl
  | cons hstep hrest ih =>
      rw [views, views, view_eq_of_alike hstep hpq, ih (agree_perform hstep p q hpq).state]

/-- In one of two heaps a header has been forged in what is free now, and in
    one of the runs another one is forged in a payload. Both runs refuse the
    handle behind it, and both find the same room. -/
theorem views_beside_forged_headers :
    ∃ p q : Program 128, p.heap.blocks = [⟨0, true, 16⟩, ⟨32, false, 80⟩] ∧
      (p.heap.header? 64).isSome ∧ q.heap.header? 64 = none ∧
      views p [.write ⟨16⟩ 0 (Header.encode ⟨true, 8, none, none⟩), .tryRelease ⟨32⟩,
          .release ⟨80⟩, .malloc 16, .write ⟨48⟩ 0 [1, 2, 3], .free ⟨16⟩] =
        views q [.write ⟨16⟩ 4 [], .tryRelease ⟨32⟩, .release ⟨80⟩, .malloc 16,
          .write ⟨48⟩ 2 [4], .free ⟨16⟩] := by
  have hstart : InOrder (start (N := 128) (by decide) (by decide)).1 :=
    (Heap.holds_initial _ _).check
  obtain ⟨p, hp, hblocks, herrno, hforged⟩ : ∃ p : Program 128, p.InOrder ∧
      p.heap.blocks = [⟨0, true, 16⟩, ⟨32, false, 80⟩] ∧ p.errno = 0 ∧
      (p.heap.header? 64).isSome :=
    ⟨_, preserves_performAll [.malloc 16, .malloc 64,
      .write ⟨48⟩ 16 (Header.encode ⟨true, 8, some 32, none⟩), .free ⟨48⟩] _ hstart,
      by decide +kernel, by decide +kernel, by decide +kernel⟩
  obtain ⟨q, hq, hblocks', herrno', hclean⟩ : ∃ q : Program 128, q.InOrder ∧
      q.heap.blocks = [⟨0, true, 16⟩, ⟨32, false, 80⟩] ∧ q.errno = 0 ∧
      q.heap.header? 64 = none :=
    ⟨_, preserves_performAll [.malloc 16] _ hstart,
      by decide +kernel, by decide +kernel, by decide +kernel⟩
  refine ⟨p, q, hblocks, hforged, hclean, views_eq_of_alike hp hq (hblocks.trans hblocks'.symm)
    (herrno.trans herrno'.symm) ?_⟩
  exact .cons (.write _ _ _ _ _) (.cons (.tryRelease _) (.cons (.release _) (.cons (.malloc _)
    (.cons (.write _ _ _ _ _) (.cons (.free _) .nil)))))

end Call

end Freestanding
