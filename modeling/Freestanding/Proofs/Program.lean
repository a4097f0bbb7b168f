import Freestanding.Call
import Freestanding.Proofs.Heap.Effect

/-!
# Programs on a Heap in Order

What a program does to its heap, and that it can always go on.

A program is put together from operations on its heap, and a property of the
heap that each of them preserves is preserved by the program. `Preserves` says
that for any change of any state, and it is shown once for what follows one
step after another. `Completes` adds that the change answers. It needs the
property at each step, because an operation is only known to answer on a heap
that is in order.

A refusal is an answer for a program, so all that can stop one is a fault.
That leaves two reasons. A string of nearly as many bytes as there are words
cannot be copied, since its length and the zero behind it have no sum, and a
change of a payload may fault on its own.

## Main definitions

* `Change.Preserves`: A property that holds after a change if it did before.
* `Change.Completes`: The same, and the change answers.
* `Program.InOrder`: The heap of a program passes its test.
* `Heap.Sound`: An operation that keeps heaps in order and does not fault on
  them.

## Theorems

* `Change.Preserves.bind`, `Change.Completes.bind`: One change after another.
* `Heap.sound_allocate`, `Heap.sound_tryRelease`, `Heap.sound_release`,
  `Heap.sound_duplicate`, `Heap.sound_onPayload`: The operations.
* `Program.completes_onHeap`: Operations on the heap of a program.
* `Change.exists_of_bind`, `Program.of_onHeap`: What an answer tells about the
  steps that led to it.
-/

namespace Freestanding

namespace Change

variable {ρ ε σ α β : Type} {P : σ → Prop}

/-- A property of states holds after a change if it holds before. -/
def Preserves (P : σ → Prop) (x : Change ρ ε σ α) : Prop :=
  ∀ s, P s → P (x s).state

/-- A change answers on states with a property and leaves such states. -/
def Completes (P : σ → Prop) (x : Change ρ ε σ α) : Prop :=
  ∀ s, P s → ∃ a t log, x s = ⟨.ok a, t, log⟩ ∧ P t

theorem preserves_pure (a : α) : Preserves P (pure a : Change ρ ε σ α) :=
  fun _ hs => hs

theorem Preserves.bind {x : Change ρ ε σ α} {f : α → Change ρ ε σ β} (hx : Preserves P x)
    (hf : ∀ a, Preserves P (f a)) : Preserves P (x >>= f) := by
  intro s hs
  have ht := hx s hs
  rcases h : x s with ⟨e | a, t, log⟩
  · rw [h] at ht
    rw [bind_of_error h]
    exact ht
  · rw [h] at ht
    rw [bind_of_ok h]
    exact hf a t ht

theorem eq_of_result {o : Outcome ρ ε σ α} {a : α} (h : o.result = .ok a) :
    o = ⟨.ok a, o.state, o.log⟩ := by
  cases o
  cases h
  rfl

/-- What follows a change has answered only if the change has. -/
theorem exists_of_bind {x : Change ρ ε σ α} {f : α → Change ρ ε σ β} {s u : σ} {b : β}
    {log : List ρ} (h : (x >>= f) s = ⟨.ok b, u, log⟩) :
    ∃ a t before after, x s = ⟨.ok a, t, before⟩ ∧ f a t = ⟨.ok b, u, after⟩ := by
  rcases hx : x s with ⟨e | a, t, before⟩
  · rw [bind_of_error hx] at h
    cases h
  · rw [bind_of_ok hx] at h
    rcases hf : f a t with ⟨result, v, after⟩
    rw [hf] at h
    cases h
    exact ⟨a, t, before, after, rfl, hf⟩

theorem completes_pure (a : α) : Completes P (pure a : Change ρ ε σ α) :=
  fun s hs => ⟨a, s, [], rfl, hs⟩

theorem completes_emit (r : ρ) : Completes P (emit r : Change ρ ε σ Unit) :=
  fun s hs => ⟨(), s, [r], rfl, hs⟩

theorem Completes.bind {x : Change ρ ε σ α} {f : α → Change ρ ε σ β} (hx : Completes P x)
    (hf : ∀ a, Completes P (f a)) : Completes P (x >>= f) := by
  intro s hs
  rcases hx s hs with ⟨a, t, log, h, ht⟩
  rcases hf a t ht with ⟨b, u, log', h', hu⟩
  refine ⟨b, u, log ++ log', ?_, hu⟩
  rw [bind_of_ok h, h']

theorem Completes.preserves {x : Change ρ ε σ α} (hx : Completes P x) : Preserves P x := by
  intro s hs
  rcases hx s hs with ⟨a, t, log, h, ht⟩
  rw [h]
  exact ht

end Change

namespace Heap

open Change

variable {N : Nat} {α : Type}

/-- An operation leaves heaps in order that are in order, and does not fault
    on them. -/
def Sound (x : HeapM N α) : Prop :=
  ∀ h : Heap N, h.check = .ok () → (x h).state.check = .ok () ∧ ∀ f, (x h).result ≠ .error (.fault f)

theorem Sound.preserves {x : HeapM N α} (hx : Sound x) : Preserves (·.check = .ok ()) x :=
  fun h hh => (hx h hh).1

theorem HandsOut.sound {h : Heap N} {o : Outcome Record Stop (Heap N) Handle}
    (ho : h.HandsOut o) (hh : h.check = .ok ()) :
    o.state.check = .ok () ∧ ∀ f, o.result ≠ .error (.fault f) := by
  cases ho with
  | refused e log => exact ⟨hh, fun f hf => by cases hf⟩
  | given hsound _ _ _ => exact ⟨hsound, fun f hf => by cases hf⟩

theorem TakesBack.sound {h : Heap N} {p : Handle} {o : Outcome Record Stop (Heap N) Unit}
    (ho : h.TakesBack p o) (hh : h.check = .ok ()) :
    o.state.check = .ok () ∧ ∀ f, o.result ≠ .error (.fault f) := by
  cases ho with
  | refused e log hdead => exact ⟨hh, fun f hf => by cases hf⟩
  | taken hsound _ _ _ => exact ⟨hsound, fun f hf => by cases hf⟩

theorem sound_allocate (size : Nat) : Sound (allocate size : HeapM N Handle) := by
  intro h hh
  rcases (check_eq_ok_iff h).mp hh with ⟨l, hl⟩
  exact (hl.handsOut_allocate size).sound hh

theorem sound_tryRelease (p : Handle) : Sound (tryRelease p : HeapM N Unit) := by
  intro h hh
  rcases (check_eq_ok_iff h).mp hh with ⟨l, hl⟩
  exact (hl.takesBack_tryRelease p).sound hh

theorem sound_release (p : Handle) : Sound (release p : HeapM N Unit) := by
  intro h hh
  rcases (check_eq_ok_iff h).mp hh with ⟨l, hl⟩
  have htakes := hl.takesBack_tryRelease p
  rcases htakes.release with ⟨log, hr⟩
  rw [hr]
  exact ⟨(htakes.sound hh).1, fun f hf => by cases hf⟩

theorem sound_duplicate {s : Bytes} (hs : s.length + 1 < Word.limit) :
    Sound (duplicate s : HeapM N Handle) := by
  intro h hh
  rcases (check_eq_ok_iff h).mp hh with ⟨l, hl⟩
  exact (hl.handsOut_duplicate hs).sound hh

/-- A copy that faults has not written anything. -/
theorem preserves_duplicate (s : Bytes) :
    Preserves (·.check = .ok ()) (duplicate s : HeapM N Handle) := by
  by_cases hs : s.length + 1 < Word.limit
  · exact (sound_duplicate hs).preserves
  · intro h hh
    rw [duplicate_of_limit (by omega)]
    exact hh

/-- The string in a buffer is what is copied. -/
theorem strdup_eq (s : Bytes) : (strdup s : HeapM N Handle) = duplicate (CString.chars s) := by
  rw [strdup, Through.strdup, lift_bind (CString.content_eq s), duplicate]

/-- At most `n` of its characters are what is copied. -/
theorem strndup_eq (s : Bytes) (n : Nat) :
    (strndup s n : HeapM N Handle) = duplicate ((CString.chars s).take n) := by
  have hle := CString.strlen_le s
  rw [strndup, Through.strndup, lift_bind (CString.strnlen_eq s n),
    lift_bind (Bytes.slice_zero (by omega)), duplicate]
  congr 1
  rw [← List.take_take, CString.take_strlen]

theorem sound_strdup {s : Bytes} (hs : s.length + 1 < Word.limit) :
    Sound (strdup s : HeapM N Handle) := by
  have hle := CString.length_chars_le s
  rw [strdup_eq]
  exact sound_duplicate (by omega)

theorem sound_strndup {s : Bytes} (n : Nat) (hs : s.length + 1 < Word.limit) :
    Sound (strndup s n : HeapM N Handle) := by
  have hle := CString.length_chars_le s
  have htake := List.length_take_le' n (CString.chars s)
  rw [strndup_eq]
  exact sound_duplicate (by omega)

theorem preserves_strdup (s : Bytes) :
    Preserves (·.check = .ok ()) (strdup s : HeapM N Handle) := by
  rw [strdup_eq]
  exact preserves_duplicate _

theorem preserves_strndup (s : Bytes) (n : Nat) :
    Preserves (·.check = .ok ()) (strndup s n : HeapM N Handle) := by
  rw [strndup_eq]
  exact preserves_duplicate _

/-- Whatever a change makes of a payload, it is written to that payload. -/
theorem preserves_onPayload (p : Handle) (change : Bytes → Checked (α × Bytes)) :
    Preserves (·.check = .ok ()) (onPayload p change : HeapM N (Option α)) := by
  intro h hh
  rcases (check_eq_ok_iff h).mp hh with ⟨l, hl⟩
  have hrevises := hl.revises_onPayload p change
  generalize onPayload p change h = o at hrevises ⊢
  cases hrevises with
  | absent hdead => exact hh
  | faulted hown hfault => exact hh
  | revised hsound _ _ _ _ _ => exact hsound

/-- A change of a payload faults only if what it does to the bytes does. -/
theorem sound_onPayload (p : Handle) {change : Bytes → Checked (α × Bytes)}
    (hchange : ∀ s, ∃ r, change s = .ok r) : Sound (onPayload p change : HeapM N (Option α)) := by
  intro h hh
  refine ⟨preserves_onPayload p change h hh, ?_⟩
  rcases (check_eq_ok_iff h).mp hh with ⟨l, hl⟩
  have hrevises := hl.revises_onPayload p change
  generalize onPayload p change h = o at hrevises ⊢
  intro f hf
  cases hrevises with
  | absent hdead => cases hf
  | faulted hown hfault =>
      rcases hchange _ with ⟨r, hr⟩
      rw [hr] at hfault
      cases hfault
  | revised _ _ _ _ _ _ => cases hf

theorem sound_reset : Sound (reset : HeapM N Unit) :=
  fun h _ => ⟨(holds_initial h.room h.small).check, fun f hf => by cases hf⟩

end Heap

namespace Program

open Change

variable {N : Nat} {α : Type}

/-- The heap of a program passes its test. -/
def InOrder (p : Program N) : Prop :=
  p.heap.check = .ok ()

theorem onHeap_of_ok {x : HeapM N α} {p : Program N} {t : Heap N} {a : α} {log : List Record}
    (hx : x p.heap = ⟨.ok a, t, log⟩) : onHeap x p = ⟨.ok (.ok a), { p with heap := t }, log⟩ := by
  rw [onHeap, hx]

theorem onHeap_of_refused {x : HeapM N α} {p : Program N} {t : Heap N} {e : Heap.Error}
    {log : List Record} (hx : x p.heap = ⟨.error (.refused e), t, log⟩) :
    onHeap x p = ⟨.ok (.error e), { p with heap := t }, log⟩ := by
  rw [onHeap, hx]

theorem onHeap_of_fault {x : HeapM N α} {p : Program N} {t : Heap N} {f : Fault}
    {log : List Record} (hx : x p.heap = ⟨.error (.fault f), t, log⟩) :
    onHeap x p = ⟨.error f, { p with heap := t }, log⟩ := by
  rw [onHeap, hx]

/-- An answer on the heap of a program comes from the operation, and so does
    the heap. -/
theorem of_onHeap {x : HeapM N α} {p q : Program N} {result : Except Heap.Error α}
    {log : List Record} (h : onHeap x p = ⟨.ok result, q, log⟩) :
    (x p.heap).result = result.mapError .refused ∧ q.heap = (x p.heap).state := by
  rcases hx : x p.heap with ⟨(e | f) | a, t, before⟩
  · rw [onHeap_of_refused hx] at h
    cases h
    exact ⟨rfl, rfl⟩
  · rw [onHeap_of_fault hx] at h
    cases h
  · rw [onHeap_of_ok hx] at h
    cases h
    exact ⟨rfl, rfl⟩

/-- An operation of which a program only puts the answer into other words leaves the
    heap of the program as it leaves the heap. -/
theorem of_onHeap_bind_pure {β : Type} {x : HeapM N α} {f : Except Heap.Error α → β}
    {p q : Program N} {b : β} {log : List Record}
    (h : (onHeap x >>= fun a => pure (f a) : ProgramM N β) p = ⟨.ok b, q, log⟩) :
    ∃ result, f result = b ∧ (x p.heap).result = result.mapError .refused ∧
      q.heap = (x p.heap).state := by
  rcases exists_of_bind h with ⟨result, p', before, after, hx, hf⟩
  cases hf
  exact ⟨result, rfl, of_onHeap hx⟩

theorem of_malloc {size : Nat} {p q : Program N} {r : Option Handle} {log : List Record}
    (h : malloc size p = ⟨.ok r, q, log⟩) :
    ∃ result : Except Heap.Error Handle,
      (Heap.allocate size p.heap).result = result.mapError .refused ∧
      result.toOption = r ∧ q.heap = (Heap.allocate size p.heap).state := by
  rcases exists_of_bind h with ⟨result, p', before, after, hx, hf⟩
  rcases of_onHeap hx with ⟨hresult, hheap⟩
  refine ⟨result, hresult, ?_⟩
  cases result with
  | ok a =>
      cases hf
      exact ⟨rfl, hheap⟩
  | error e =>
      cases hf
      exact ⟨rfl, hheap⟩

theorem of_strdup {s : Bytes} {p q : Program N} {r : Option Handle} {log : List Record}
    (h : strdup s p = ⟨.ok r, q, log⟩) :
    ∃ result : Except Heap.Error Handle,
      (Heap.strdup s p.heap).result = result.mapError .refused ∧
      result.toOption = r ∧ q.heap = (Heap.strdup s p.heap).state := by
  rcases exists_of_bind h with ⟨result, p', before, after, hx, hf⟩
  rcases of_onHeap hx with ⟨hresult, hheap⟩
  refine ⟨result, hresult, ?_⟩
  cases result with
  | ok a =>
      cases hf
      exact ⟨rfl, hheap⟩
  | error e =>
      cases hf
      exact ⟨rfl, hheap⟩

theorem of_free {a : Handle} {p q : Program N} {log : List Record}
    (h : free a p = ⟨.ok (), q, log⟩) : q.heap = (Heap.release a p.heap).state := by
  rcases exists_of_bind h with ⟨result, p', before, after, hx, hf⟩
  cases hf
  exact (of_onHeap hx).2

theorem preserves_onHeap {x : HeapM N α} (hx : Preserves (·.check = .ok ()) x) :
    Preserves InOrder (onHeap x) := by
  intro p hp
  have ht := hx p.heap hp
  rcases h : x p.heap with ⟨(e | f) | a, t, log⟩
  · rw [h] at ht
    rw [onHeap_of_refused h]
    exact ht
  · rw [h] at ht
    rw [onHeap_of_fault h]
    exact ht
  · rw [h] at ht
    rw [onHeap_of_ok h]
    exact ht

/-- An operation that does not fault is an answer for a program. -/
theorem completes_onHeap {x : HeapM N α} (hx : Heap.Sound x) : Completes InOrder (onHeap x) := by
  intro p hp
  -- An answer and a refusal are both answers; a fault does not happen.
  rcases hx p.heap hp with ⟨ht, hfault⟩
  rcases h : x p.heap with ⟨(e | f) | a, t, log⟩
  · rw [h] at ht
    exact ⟨_, _, _, onHeap_of_refused h, ht⟩
  · rw [h] at hfault
    exact absurd rfl (hfault f)
  · rw [h] at ht
    exact ⟨_, _, _, onHeap_of_ok h, ht⟩

theorem preserves_setErrno (code : Int) :
    Preserves InOrder (setErrno code : ProgramM N Unit) :=
  fun _ hp => hp

theorem completes_setErrno (code : Int) :
    Completes InOrder (setErrno code : ProgramM N Unit) :=
  fun _ hp => ⟨_, _, _, rfl, hp⟩

theorem completes_malloc (size : Nat) :
    Completes InOrder (malloc size : ProgramM N (Option Handle)) := by
  refine (completes_onHeap (Heap.sound_allocate size)).bind fun result => ?_
  cases result with
  | ok p => exact completes_pure _
  | error reason =>
      exact (completes_emit _).bind fun _ => (completes_setErrno _).bind fun _ =>
        completes_pure _

theorem completes_free (p : Handle) : Completes InOrder (free p : ProgramM N Unit) :=
  (completes_onHeap (Heap.sound_release p)).bind fun _ => completes_pure _

theorem completes_strdup {s : Bytes} (hs : s.length + 1 < Word.limit) :
    Completes InOrder (strdup s : ProgramM N (Option Handle)) := by
  refine (completes_onHeap (Heap.sound_strdup hs)).bind fun result => ?_
  cases result with
  | ok p => exact completes_pure _
  | error reason => exact (completes_setErrno _).bind fun _ => completes_pure _

theorem preserves_strdup (s : Bytes) :
    Preserves InOrder (strdup s : ProgramM N (Option Handle)) := by
  refine (preserves_onHeap (Heap.preserves_strdup s)).bind fun result => ?_
  cases result with
  | ok p => exact preserves_pure _
  | error reason => exact (preserves_setErrno _).bind fun _ => preserves_pure _

end Program

end Freestanding
