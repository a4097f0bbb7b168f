import Freestanding.Proofs.Heap.Allocation
import Freestanding.Proofs.Heap.Release
import Freestanding.Proofs.Heap.Search

/-!
# Operations on a Damaged Heap

What allocating and releasing do when the region may hold anything.

Nothing is known here about the blocks. A size may reach behind the region, a
link may lead into a payload, and two headers may overlap. What is left is what
an operation has read itself. A header that was read lies in the region and its
size is the word of a field, and that is still so after other headers have been
written over it. A release needs no more. All the places it writes to are
places it has read a header from, and the sum of a few sizes is a word, so the
only way it can end early is to find no header behind a link.

An allocation writes to one place that it has not read, which is where the rest
of a block starts when the block is cut. That place comes from the size in the
header. If the header claims more than the region has, the place is outside and
the write is a fault. The link behind the block is followed before, so a link
that leads nowhere is noticed first, while nothing has been written. `Overruns`
is the condition for the fault.

## Main definitions

* `Heap.Robust`: An operation that can only end early for a damaged list.
* `Heap.Overruns`: The rest of a block would be outside of the region.

## Theorems

* `Heap.robust_merge`, `Heap.robust_mergeNext`, `Heap.robust_mergePrevious`:
  Joining blocks on any heap.
* `Heap.tryRelease_cases`, `Heap.result_release`: A release on any heap.
* `Heap.place_cases`: Handing out a block on any heap.
* `Heap.refusals_change_nothing`: An allocation that is refused, and a release
  of a handle that is refused, leave the heap as it is.
-/

namespace Freestanding

namespace Heap

open Change

variable {N : Nat} {α β : Type}

/-- On every heap, an operation answers something with the property `Q`, or it
    finds no header where a link leads. -/
def Robust (x : HeapM N α) (Q : α → Prop) : Prop :=
  ∀ h, (∃ a, (x h).result = .ok a ∧ Q a) ∨
    ∃ pos, (x h).result = .error (.refused (.corrupted pos))

theorem robust_pure {a : α} {Q : α → Prop} (ha : Q a) : Robust (pure a : HeapM N α) Q :=
  fun _ => Or.inl ⟨a, rfl, ha⟩

theorem robust_state : Robust (state : HeapM N (Heap N)) fun _ => True :=
  fun h => Or.inl ⟨h, rfl, trivial⟩

theorem robust_update (f : Heap N → Heap N) : Robust (update f : HeapM N Unit) fun _ => True :=
  fun _ => Or.inl ⟨(), rfl, trivial⟩

theorem robust_emit (r : Record) : Robust (emit r : HeapM N Unit) fun _ => True :=
  fun _ => Or.inl ⟨(), rfl, trivial⟩

theorem Robust.bind {x : HeapM N α} {f : α → HeapM N β} {Q : α → Prop} {R : β → Prop}
    (hx : Robust x Q) (hf : ∀ a, Q a → Robust (f a) R) : Robust (x >>= f) R := by
  intro h
  have hres := hx h
  rcases ho : x h with ⟨e | a, t, log⟩
  · rw [ho] at hres
    rw [bind_of_error ho]
    rcases hres with ⟨a, ha, -⟩ | ⟨pos, hpos⟩
    · cases ha
    · cases hpos
      exact Or.inr ⟨pos, rfl⟩
  · rw [ho] at hres
    rw [bind_of_ok ho]
    rcases hres with ⟨b, hb, hQ⟩ | ⟨pos, hpos⟩
    · cases hb
      exact hf a hQ t
    · cases hpos

theorem Robust.mono {x : HeapM N α} {Q R : α → Prop} (hx : Robust x Q) (h : ∀ a, Q a → R a) :
    Robust x R := by
  intro t
  rcases hx t with ⟨a, ha, hQ⟩ | hlost
  · exact Or.inl ⟨a, ha, h a hQ⟩
  · exact Or.inr hlost

/-- A header that is read lies in the region, and its fields fit. -/
theorem robust_readHeader (pos : Nat) :
    Robust (readHeader pos : HeapM N Header) fun b => pos + Header.byteSize ≤ N ∧ b.Fits := by
  intro h
  cases hb : h.header? pos with
  | none =>
      rw [readHeader_of_none hb]
      exact Or.inr ⟨pos, rfl⟩
  | some b =>
      rw [readHeader_of_some hb]
      exact Or.inl ⟨b, rfl, Header.read?_eq_some_bounds hb, Header.fits_of_read? hb⟩

theorem robust_writeHeader {pos : Nat} (b : Header) (hN : pos + Header.byteSize ≤ N) :
    Robust (writeHeader pos b : HeapM N Unit) fun _ => True := by
  intro h
  rw [writeHeader_apply b hN]
  exact Or.inl ⟨(), rfl, trivial⟩

theorem robust_eraseHeader {pos : Nat} (hN : pos + Header.byteSize ≤ N) :
    Robust (eraseHeader pos : HeapM N Unit) fun _ => True := by
  intro h
  have htag := Header.fieldSize_le_byteSize
  rw [eraseHeader_apply (by omega)]
  exact Or.inl ⟨(), rfl, trivial⟩

/-- A link is followed, or it leads nowhere. -/
theorem robust_relinkNext (next : Option Nat) (previous : Nat) :
    Robust (relinkNext writeHeader next previous : HeapM N Unit) fun _ => True := by
  unfold relinkNext
  split
  · exact (robust_readHeader _).bind fun b hb => robust_writeHeader _ hb.1
  · exact robust_pure trivial

/-- Two blocks whose headers lie in the region are joined. -/
theorem robust_merge {firstPos secondPos : Nat} (first second : Header)
    (hfirst : firstPos + Header.byteSize ≤ N) (hsecond : secondPos + Header.byteSize ≤ N)
    (hword : first.size + (second.size + Header.byteSize) < Word.limit) :
    Robust (merge writeHeader firstPos first secondPos second : HeapM N Header)
      fun b => b.size = first.size + (second.size + Header.byteSize) := by
  rw [merge_eq_of_lt hword]
  refine (robust_relinkNext _ _).bind fun _ _ => ?_
  refine (robust_writeHeader _ hfirst).bind fun _ _ => ?_
  refine (robust_eraseHeader hsecond).bind fun _ _ => ?_
  refine (robust_update _).bind fun _ _ => ?_
  refine (robust_emit _).bind fun _ _ => ?_
  exact robust_pure rfl

/-- Joining a block with the one behind it adds the size of a field and of a
    header at most. -/
theorem robust_mergeNext {pos : Nat} (b : Header) (hN : pos + Header.byteSize ≤ N)
    (hsize : b.size < Header.wordLimit) :
    Robust (mergeNext writeHeader pos b : HeapM N Header)
      fun c => c.size < 2 * Header.wordLimit + Header.byteSize := by
  have hlimit : 2 * Header.wordLimit + Header.byteSize < Word.limit := by decide
  unfold mergeNext
  split
  · exact robust_pure (by omega)
  · -- Whatever else is wrong with the next block, its header has been read.
    refine (robust_readHeader _).bind fun next hnext => ?_
    have hfits := hnext.2.size
    split
    · exact robust_pure (by omega)
    · refine (robust_merge b next hN hnext.1 (by omega)).mono fun c hc => ?_
      omega

/-- A block that has been joined already is joined once more. -/
theorem robust_mergePrevious {pos : Nat} (b : Header) (hN : pos + Header.byteSize ≤ N)
    (hsize : b.size < 2 * Header.wordLimit + Header.byteSize) :
    Robust (mergePrevious writeHeader pos b : HeapM N Unit) fun _ => True := by
  have hlimit : 3 * Header.wordLimit + 2 * Header.byteSize < Word.limit := by decide
  unfold mergePrevious
  split
  · exact robust_pure trivial
  · refine (robust_readHeader _).bind fun previous hprevious => ?_
    have hfits := hprevious.2.size
    split
    · exact robust_pure trivial
    · exact (robust_merge previous b hprevious.1 hN (by omega)).bind fun _ _ => robust_pure trivial

/-- The header of a live block is the one at its offset. -/
theorem header?_of_live? {h : Heap N} {pos : Nat} {b : Header} (hb : h.live? pos = some b) :
    h.header? pos = some b := by
  rcases Option.bind_eq_some_iff.mp hb with ⟨found, -, hfound⟩
  split at hfound
  · exact hfound
  · cases hfound

/-- A release refuses a handle and leaves the heap as it is, or it takes the
    block back and may find on the way that the list is damaged. -/
theorem tryRelease_cases (h : Heap N) (p : Handle) :
    tryRelease p h = ⟨.error (.refused (.outOfRange p.offset)), h, []⟩ ∨
      tryRelease p h = ⟨.error (.refused (.notAllocated p.offset)), h, []⟩ ∨
      (tryRelease p h).result = .ok () ∨
      ∃ pos, (tryRelease p h).result = .error (.refused (.corrupted pos)) := by
  cases hp : p.headerIn? N with
  | none => exact Or.inl (Through.tryRelease_of_outOfRange hp)
  | some pos =>
      cases hb : h.live? pos with
      | none => exact Or.inr (Or.inl (Through.tryRelease_of_notLive hp hb))
      | some b =>
          have hheader := header?_of_live? hb
          have hN := Header.read?_eq_some_bounds hheader
          have hfits := (Header.fits_of_read? hheader).size
          rw [tryRelease, Through.tryRelease_of_live hp hb]
          -- From here on nothing is known about the region any more.
          have hrobust : Robust (do
              writeHeader pos { b with used := false }
              let joined ← mergeNext writeHeader pos { b with used := false }
              mergePrevious writeHeader pos joined
              emit (.released p (← state).blocks) : HeapM N Unit) fun _ => True := by
            refine (robust_writeHeader _ hN).bind fun _ _ => ?_
            refine (robust_mergeNext { b with used := false } hN hfits).bind fun joined hjoined => ?_
            refine (robust_mergePrevious joined hN hjoined).bind fun _ _ => ?_
            exact robust_state.bind fun _ _ => robust_emit _
          rcases hrobust h with ⟨_, hok, -⟩ | hlost
          · exact Or.inr (Or.inr (Or.inl hok))
          · exact Or.inr (Or.inr (Or.inr hlost))

/-- A release that ignores what is wrong answers on any heap. -/
theorem result_release (h : Heap N) (p : Handle) : (release p h).result = .ok () := by
  rcases ho : tryRelease p h with ⟨r, t, log⟩
  rcases tryRelease_cases h p with he | he | he | ⟨pos, he⟩ <;> rw [ho] at he <;> cases he
  · rw [release_of_refused ho]
  · rw [release_of_refused ho]
  · rw [release_of_ok ho]
  · rw [release_of_refused ho]

/-- Cutting the block at `pos` behind `size` bytes would put the header of the
    rest outside of the region, and nothing else stops it before. -/
def Overruns (h : Heap N) (pos : Nat) (b : Header) (size : Nat) : Prop :=
  size + 2 * Header.byteSize < b.size ∧
    (∀ q, b.next = some q → ∃ c, h.header? q = some c) ∧
      N < pos + Header.byteSize + size + Header.byteSize

/-- Sums of offsets in a region and of a size that was read are words. -/
theorem lt_limit_of_splits (h : Heap N) {pos size : Nat} {b : Header}
    (hb : h.header? pos = some b) (hsplits : Splits b size) :
    pos + Header.byteSize + size < Word.limit := by
  have hsmall := h.lt_wordLimit
  have hN := Header.read?_eq_some_bounds hb
  have hfits := (Header.fits_of_read? hb).size
  have hsize : size + 2 * Header.byteSize < b.size := hsplits
  have hlimit : 2 * Header.wordLimit < Word.limit := by decide
  omega

/-- A block that was found is handed out unless it is to be cut. Then a link
    that leads nowhere is refused, and a rest outside of the region is a
    fault. -/
theorem place_cases {h : Heap N} {pos : Nat} {b : Header} (hb : h.header? pos = some b)
    (size : Nat) :
    (¬ h.Overruns pos b size ∧ ∃ p t log, place writeHeader pos b size h = ⟨.ok p, t, log⟩) ∨
      (¬ h.Overruns pos b size ∧ ∃ q, h.header? q = none ∧
        place writeHeader pos b size h = ⟨.error (.refused (.corrupted q)), h, []⟩) ∨
      h.Overruns pos b size ∧ (place writeHeader pos b size h).result = .error (.fault .outOfRange) := by
  have hN := Header.read?_eq_some_bounds hb
  by_cases hsplits : Splits b size
  · have hsplit : split writeHeader pos b size = (_ : HeapM N Header) :=
      split_eq_of_splits hsplits (h.lt_limit_of_splits hb hsplits)
    by_cases hnext : ∀ q, b.next = some q → ∃ c, h.header? q = some c
    · by_cases hrest : pos + Header.byteSize + size + Header.byteSize ≤ N
      · exact Or.inl ⟨fun ho => by have := ho.2.2; omega, _, _, _,
          place_of_splits hnext hsplits hrest⟩
      · -- The link back has been written when the rest turns out to be outside.
        have hfault : (split writeHeader pos b size h).result = .error (.fault .outOfRange) := by
          rw [hsplit, bind_of_ok (relinkNext_apply _ hnext),
            bind_of_error (writeHeader_fault _ (by omega))]
        refine Or.inr (Or.inr ⟨⟨hsplits, hnext, by omega⟩, ?_⟩)
        rcases ho : split writeHeader pos b size h with ⟨r, t, log⟩
        rw [ho] at hfault
        cases hfault
        rw [place, if_pos hsplits, bind_of_error ho]
    · push Not at hnext
      rcases hnext with ⟨q, hq, hlost⟩
      have hnone : h.header? q = none := Option.eq_none_iff_forall_ne_some.mpr hlost
      have hstop : split writeHeader pos b size h = ⟨.error (.refused (.corrupted q)), h, []⟩ := by
        rw [hsplit, hq, relinkNext, bind_of_error (relink_of_none hnone)]
      refine Or.inr (Or.inl ⟨fun ho => ?_, q, hnone, ?_⟩)
      · rcases ho.2.1 q hq with ⟨c, hc⟩
        exact hlost c hc
      · rw [place, if_pos hsplits, bind_of_error hstop]
  · exact Or.inl ⟨fun ho => hsplits ho.1, _, _, _, place_of_not_splits hsplits hN⟩

/-- An allocation by what its search has come to, on any heap on which the
    search ends. -/
theorem allocate_cases {h : Heap N} {size : Nat} {r : Except Error (Option (Nat × Header))}
    (hends : (h.searchLoop size).Ends (some h.first) r) :
    (∃ e log, allocate size h = ⟨.error (.refused e), h, log⟩ ∧
        (∀ pos, e = .corrupted pos → h.header? pos = none) ∧
        ∀ pos b, r = .ok (some (pos, b)) → ¬ h.Overruns pos b size) ∨
      (∃ p, (allocate size h).result = .ok p ∧
        ∀ pos b, r = .ok (some (pos, b)) → ¬ h.Overruns pos b size) ∨
      ∃ pos b, r = .ok (some (pos, b)) ∧ h.Overruns pos b size ∧
        (allocate size h).result = .error (.fault .outOfRange) := by
  have hfirst := firstFit_of_ends hends
  -- The list has ended, or it is damaged, or a block has been found.
  rcases of_searchLoop_ends hends with rfl | ⟨pos, hb, rfl⟩ | ⟨pos, b, hb, -, rfl⟩
  · refine Or.inl ⟨_, _, Through.allocate_of_none hfirst, fun pos he => ?_, fun pos b hr => ?_⟩
    · cases he
    · cases hr
  · refine Or.inl ⟨_, _, Through.allocate_of_error hfirst, fun q he => ?_, fun q b hr => ?_⟩
    · cases he
      exact hb
    · cases hr
  · rw [allocate, Through.allocate_of_some hfirst]
    rcases place_cases hb size with ⟨hno, p, t, log, hplace⟩ | ⟨hno, q, hq, hplace⟩ |
      ⟨hover, hplace⟩
    · refine Or.inr (Or.inl ⟨p, ?_, fun q c hr => ?_⟩)
      · rw [bind_of_ok hplace]
        rfl
      · cases hr
        exact hno
    · refine Or.inl ⟨_, _, bind_of_error hplace, fun o he => ?_, fun o c hr => ?_⟩
      · cases he
        exact hq
      · cases hr
        exact hno
    · refine Or.inr (Or.inr ⟨pos, b, rfl, hover, ?_⟩)
      rcases ho : place writeHeader pos b size h with ⟨result, t, log⟩
      rw [ho] at hplace
      cases hplace
      rw [bind_of_error ho]

/-- On any heap, an allocation whose search ends and that is refused leaves the
    heap as it is, and if it reports a damaged list there is no header at the
    offset it names. It faults exactly if the block that was found is to be cut
    and claims more than the region has. A release of a handle that is refused
    leaves the heap as it is too. -/
theorem refusals_change_nothing (h : Heap N) :
    (∀ size r, (h.searchLoop size).Ends (some h.first) r →
      (∀ e, (allocate size h).result = .error (.refused e) →
        (allocate size h).state = h ∧ ∀ pos, e = .corrupted pos → h.header? pos = none) ∧
      ((∃ f, (allocate size h).result = .error (.fault f)) ↔
        ∃ pos b, r = .ok (some (pos, b)) ∧ h.Overruns pos b size)) ∧
      ∀ p q, (tryRelease p h).result = .error (.refused (.outOfRange q)) ∨
        (tryRelease p h).result = .error (.refused (.notAllocated q)) →
          (tryRelease p h).state = h := by
  refine ⟨fun size r hends => ?_, fun p q hq => ?_⟩
  · rcases allocate_cases hends with ⟨e, log, he, hlost, hno⟩ | ⟨p, hp, hno⟩ |
      ⟨pos, b, hr, hover, hfault⟩
    · rw [he]
      refine ⟨fun e' he' => ?_, ⟨?_, ?_⟩⟩
      · cases he'
        exact ⟨rfl, hlost⟩
      · rintro ⟨f, hf⟩
        cases hf
      · rintro ⟨pos, b, hr, hover⟩
        exact absurd hover (hno pos b hr)
    · rw [hp]
      refine ⟨fun e he => ?_, ⟨?_, ?_⟩⟩
      · cases he
      · rintro ⟨f, hf⟩
        cases hf
      · rintro ⟨pos, b, hr, hover⟩
        exact absurd hover (hno pos b hr)
    · rw [hfault]
      refine ⟨fun e he => ?_, ⟨fun _ => ⟨pos, b, hr, hover⟩, fun _ => ⟨_, rfl⟩⟩⟩
      cases he
  · rcases tryRelease_cases h p with he | he | he | ⟨pos, he⟩
    · rw [he]
    · rw [he]
    · rw [he] at hq
      rcases hq with hq | hq <;> cases hq
    · rw [he] at hq
      rcases hq with hq | hq <;> cases hq

/-- A header that claims a thousand bytes in a region of 64 makes an allocation
    fault, unless its link leads nowhere. Then the allocation is refused and
    leaves the heap as it is. -/
theorem refusal_before_overrun :
    ∃ h t : Heap 64, h.header? 0 = some ⟨false, 1000, none, none⟩ ∧
      t.header? 0 = some ⟨false, 1000, none, some 50⟩ ∧
      (∃ f, (allocate 40 h).result = .error (.fault f)) ∧
      (allocate 40 t).result = .error (.refused (.corrupted 50)) ∧
      (allocate 40 t).state = t ∧ t.header? 50 = none := by
  have hread : ∀ b : Header, b.Fits → ((Heap.initial (N := 64) (by decide) (by decide)).setHeader
      0 b).header? 0 = some b :=
    fun b hb => header?_setHeader_self (by decide) hb
  have hh := hread ⟨false, 1000, none, none⟩ ⟨by decide, (fun p hp => by cases hp),
    fun p hp => by cases hp⟩
  have ht := hread ⟨false, 1000, none, some 50⟩ ⟨by decide, (fun p hp => by cases hp), fun p hp => by
    cases hp
    decide⟩
  have hover := ((refusals_change_nothing _).1 40 _ ⟨1, .done (searchLoop_of_fit hh
    ⟨rfl, by decide⟩)⟩).2.mpr ⟨0, _, rfl, by decide, (fun q hq => by cases hq), by decide⟩
  have hstop : (allocate 40 ((Heap.initial (N := 64) (by decide) (by decide)).setHeader 0
      ⟨false, 1000, none, some 50⟩)).result = .error (.refused (.corrupted 50)) := by
    decide +kernel
  have hsame := ((refusals_change_nothing _).1 40 _ ⟨1, .done (searchLoop_of_fit ht
    ⟨rfl, by decide⟩)⟩).1 _ hstop
  exact ⟨_, _, hh, ht, hover, hstop, hsame.1, hsame.2 50 rfl⟩

end Heap

end Freestanding
