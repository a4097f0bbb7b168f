import Freestanding.Proofs.Program

/-!
# Limits of What Is Written

On a heap in order no operation reaches a limit of the machine or of a header.

There are two kinds of limits. A range, a sum or a difference that breaks one
is a fault, and an operation that faults says so. Hence a list of all answers
that an operation can give on a heap in order settles that there are no faults.
It also shows that no operation finds such a heap damaged.

The fields of a header are the other kind. A size or an offset that has no room
there is cut off without notice, and the largest word stands for no link. That
no such header is written is said by way of `Through`: if the function that
writes headers is replaced by any other one that does the same for headers
within the limits, an operation on a heap in order still does what it did. The
other function may well fault for all headers that are not, as `guarded` does,
and then nothing faults.

The reason is that sizes and offsets of a layout are smaller than the region,
and what is written is a header of a layout or has been read from one, but for
a size or a link that is one of the layout as well.

## Main definitions

* `Header.WithinLimits`: Sizes and offsets are below the mark for no link.
* `Heap.Through.Faithful`: A write that is like `writeHeader` for headers within
  the limits.
* `Heap.Through.guarded`: The one that faults for all others.

## Theorems

* `Header.WithinLimits.decode?_encode`: A header within the limits is read back.
* `Heap.Carries.withinLimits`: The headers of a layout are within the limits.
* `Heap.Holds.through_allocate`, `Heap.Holds.through_tryRelease`,
  `Heap.Holds.through_duplicate`: Operations through another write.
* `Heap.Holds.result_allocate`, `Heap.Holds.result_tryRelease`,
  `Heap.Holds.result_duplicate`: What operations answer.
* `Heap.limits_respected`: What can go wrong on a heap in order.
-/

namespace Freestanding

/-- The size and the links are below the mark for no link. -/
structure Header.WithinLimits (b : Header) : Prop where
  size : b.size < noLink
  previous : ∀ p, b.previous = some p → p < noLink
  next : ∀ p, b.next = some p → p < noLink

namespace Header

/-- A header within the limits is read back as it was written. -/
theorem WithinLimits.decode?_encode {b : Header} (hb : b.WithinLimits) :
    decode? b.encode = some b :=
  Header.decode?_encode ⟨Nat.lt_trans hb.size maxRegion_lt_wordLimit, hb.previous, hb.next⟩

end Header

namespace Heap

open Layout Change

variable {N : Nat}

/-- A write that is like `writeHeader` for headers within the limits. -/
def Through.Faithful (write : Nat → Header → HeapM N Unit) : Prop :=
  ∀ pos (b : Header), b.WithinLimits → write pos b = writeHeader pos b

/-- What follows a step that is checked only has to be the same for its answer. -/
theorem lift_bind_congr {α β : Type} {x : Checked α} {f g : α → HeapM N β} {h : Heap N}
    (hfg : ∀ a, x = .ok a → f a h = g a h) :
    ((liftM x : HeapM N α) >>= f) h = ((liftM x : HeapM N α) >>= g) h := by
  refine bind_congr_at rfl fun a t log ha => ?_
  cases x with
  | error e => cases ha
  | ok b =>
      cases ha
      exact hfg a rfl

/-- The header of a segment is within the limits, because the segment is within
    the region. -/
theorem Carries.withinLimits {h : Heap N} {f : Focus} (hc : h.Carries f.layout) :
    f.header.WithinLimits := by
  have hspan := hc.span_le
  have hhere : f.here.span = Header.byteSize + f.here.size := rfl
  have hsmall : N < Header.noLink := h.small
  have hfits := Header.fits_of_read? hc.header
  refine ⟨?_, hfits.previous, hfits.next⟩
  show f.here.size < Header.noLink
  omega

section

variable {write : Nat → Header → HeapM N Unit}

/-- What is behind a place is linked back to an offset of the region. -/
theorem Linked.through_relinkNext {h : Heap N} {previous : Option Nat} {pos new : Nat}
    {l : Layout} (hl : h.Linked none previous pos l) (hw : Through.Faithful write)
    (hspan : pos + l.span ≤ N) (hnew : new < N) :
    relinkNext write (linkTo pos none l) new h =
      relinkNext writeHeader (linkTo pos none l) new h := by
  have hsmall : N < Header.noLink := h.small
  cases l with
  | nil => rfl
  | cons s l =>
      have hfits := Header.fits_of_read? hl.1
      have hhere : s.span = Header.byteSize + s.size := rfl
      rw [span_cons] at hspan
      rw [linkTo, relinkNext, relinkNext, relink, relink]
      refine bind_congr_of_ok rfl (readHeader_of_some hl.1) ?_
      -- Only the link back is not what has been read.
      rw [hw]
      refine ⟨?_, ?_, hfits.next⟩
      · show s.size < Header.noLink
        omega
      · intro p hp
        cases hp
        omega

theorem Carries.through_split {h : Heap N} {f : Focus} {size : Nat} (hc : h.Carries f.layout)
    (hw : Through.Faithful write) (hsplits : Splits f.header size) :
    split write f.before.span f.header size h =
      split writeHeader f.before.span f.header size h := by
  have hsmall : N < Header.noLink := h.small
  have hlimit := h.lt_limit
  have hsize : size + 2 * Header.byteSize < f.here.size := hsplits
  have hspan := hc.span_le
  have hhere : f.here.span = Header.byteSize + f.here.size := rfl
  have hrelink : relinkNext write f.header.next (f.before.span + Header.byteSize + size) h =
      relinkNext writeHeader f.header.next (f.before.span + Header.byteSize + size) h :=
    hc.back.2.through_relinkNext hw (by omega) (by omega)
  rw [split_eq_of_splits hsplits (by omega), split_eq_of_splits hsplits (by omega)]
  refine bind_congr_at hrelink fun _ t log _ => ?_
  rw [hw]
  -- The rest is smaller than the segment and lies behind its offset.
  refine ⟨?_, ?_, hc.withinLimits.next⟩
  · show f.here.size - size - Header.byteSize < Header.noLink
    omega
  · intro p hp
    cases hp
    omega

theorem Carries.through_place {h : Heap N} {f : Focus} (hc : h.Carries f.layout)
    (hw : Through.Faithful write) (size : Nat) :
    Heap.place write f.before.span f.header size h =
      Heap.place writeHeader f.before.span f.header size h := by
  have hsmall : N < Header.noLink := h.small
  have hspan := hc.span_le
  have hhere : f.here.span = Header.byteSize + f.here.size := rfl
  have hlimits := hc.withinLimits
  rw [Heap.place, Heap.place]
  by_cases hsplits : Splits f.header size
  · have hsize : size + 2 * Header.byteSize < f.here.size := hsplits
    have hsplit := split_apply hc.back.2.readable hsplits
      (by omega : f.before.span + Header.byteSize + size + Header.byteSize ≤ N)
    rw [if_pos hsplits, if_pos hsplits]
    refine bind_congr_of_ok (hc.through_split hw hsplits) hsplit ?_
    dsimp only
    -- The header that is left to be written ends where the rest starts.
    rw [hw]
    refine ⟨?_, hlimits.previous, ?_⟩
    · show size < Header.noLink
      omega
    · intro p hp
      cases hp
      omega
  · rw [if_neg hsplits, if_neg hsplits, pure_bind, pure_bind]
    dsimp only
    rw [hw]
    exact ⟨hlimits.size, hlimits.previous, hlimits.next⟩

theorem Holds.through_allocate {h : Heap N} {l : Layout} (hl : h.Holds l)
    (hw : Through.Faithful write) (size : Nat) :
    Through.allocate write size h = Heap.allocate size h := by
  have hsearch := hl.firstFit_eq size
  rw [Heap.allocate]
  cases hf : l.firstFit? size with
  | none =>
      rw [hf] at hsearch
      rw [Through.allocate_of_none hsearch, Through.allocate_of_none hsearch]
  | some f =>
      rcases eq_of_firstFit? hf with ⟨rfl, -, -⟩
      rw [hf] at hsearch
      rw [Through.allocate_of_some hsearch, Through.allocate_of_some hsearch]
      exact bind_congr_at (hl.toCarries.through_place hw size) fun _ _ _ _ => rfl

/-- Joining a free segment with the one behind it writes the header of both as
    one. -/
theorem Carries.through_merge {h : Heap N} {l m : Layout} {s t : Segment}
    (hc : h.Carries (l ++ s :: t :: m)) (hw : Through.Faithful write) :
    Heap.merge write l.span (Focus.header ⟨l, s, t :: m⟩) (l.span + s.span)
        (Focus.header ⟨l ++ [s], t, m⟩) h =
      Heap.merge writeHeader l.span (Focus.header ⟨l, s, t :: m⟩) (l.span + s.span)
        (Focus.header ⟨l ++ [s], t, m⟩) h := by
  have hspan := hc.span
  rw [span_append, span_cons, span_cons] at hspan
  have hsspan : s.span = Header.byteSize + s.size := rfl
  have htspan : t.span = Header.byteSize + t.size := rfl
  have hsmall : N < Header.noLink := h.small
  have hpos := Header.byteSize_pos
  have hback : h.Linked none (some (l.span + s.span)) (l.span + s.span + t.span) m := hc.back.2.2
  have hrelink : relinkNext write (Focus.header ⟨l ++ [s], t, m⟩).next l.span h =
      relinkNext writeHeader (Focus.header ⟨l ++ [s], t, m⟩).next l.span h := by
    rw [next_behind]
    exact hback.through_relinkNext hw (by omega) (by omega)
  have hword : s.size + (t.size + Header.byteSize) < Word.limit := by
    have hlimit := h.lt_limit
    omega
  rw [merge_eq_of_lt hword, merge_eq_of_lt hword]
  refine bind_congr_at hrelink fun _ u log _ => ?_
  rw [hw]
  -- Both links are links that have been read.
  refine ⟨?_, (Carries.withinLimits (f := ⟨l, s, t :: m⟩) hc).previous,
    (Header.fits_of_read? hc.header_behind).next⟩
  show s.size + (t.size + Header.byteSize) < Header.noLink
  omega

theorem Carries.through_mergeNext {h : Heap N} {l m : Layout} {s : Segment}
    (hc : h.Carries (l ++ s :: m)) (hw : Through.Faithful write) :
    Heap.mergeNext write l.span (Focus.header ⟨l, s, m⟩) h =
      Heap.mergeNext writeHeader l.span (Focus.header ⟨l, s, m⟩) h := by
  cases m with
  | nil => rfl
  | cons t m =>
      have hlink : (Focus.header ⟨l, s, t :: m⟩).next = some (l.span + s.span) := rfl
      rw [Heap.mergeNext, Heap.mergeNext, hlink]
      refine bind_congr_of_ok rfl (readHeader_of_some hc.header_behind) ?_
      by_cases ht : (Focus.header ⟨l ++ [s], t, m⟩).used = true
      · rw [if_pos ht, if_pos ht]
      · rw [if_neg ht, if_neg ht, hc.through_merge hw]

theorem Carries.through_mergePrevious {h : Heap N} {l m : Layout} {s : Segment}
    (hc : h.Carries (l ++ s :: m)) (hw : Through.Faithful write) :
    Heap.mergePrevious write l.span (Focus.header ⟨l, s, m⟩) h =
      Heap.mergePrevious writeHeader l.span (Focus.header ⟨l, s, m⟩) h := by
  rcases List.eq_nil_or_concat' l with rfl | ⟨before, r, rfl⟩
  · rfl
  · rw [List.append_assoc, List.singleton_append] at hc
    have hprevious : h.header? (Layout.span before) = some (Focus.header ⟨before, r, s :: m⟩) :=
      Carries.header (f := ⟨before, r, s :: m⟩) hc
    rw [Heap.mergePrevious, Heap.mergePrevious, previous_behind]
    refine bind_congr_of_ok rfl (readHeader_of_some hprevious) ?_
    by_cases hr : (Focus.header ⟨before, r, s :: m⟩).used = true
    · rw [if_pos hr, if_pos hr]
    · rw [if_neg hr, if_neg hr, span_concat]
      exact bind_congr_at (hc.through_merge hw) fun _ _ _ _ => rfl

/-- The three steps of a release write headers of the layouts between them. -/
theorem Carries.through_free {h : Heap N} {l m : Layout} {s : Segment}
    (hc : h.Carries (l ++ s :: m)) (hw : Through.Faithful write) (p : Handle) :
    (do
      write l.span (Focus.header ⟨l, ⟨false, s.size⟩, m⟩)
      let b ← Heap.mergeNext write l.span (Focus.header ⟨l, ⟨false, s.size⟩, m⟩)
      Heap.mergePrevious write l.span b
      emit (.released p (← state).blocks) : HeapM N Unit) h =
    (do
      writeHeader l.span (Focus.header ⟨l, ⟨false, s.size⟩, m⟩)
      let b ← Heap.mergeNext writeHeader l.span (Focus.header ⟨l, ⟨false, s.size⟩, m⟩)
      Heap.mergePrevious writeHeader l.span b
      emit (.released p (← state).blocks) : HeapM N Unit) h := by
  have hmarked : (h.setHeader l.span (Focus.header ⟨l, ⟨false, s.size⟩, m⟩)).Carries
      (l ++ ⟨false, s.size⟩ :: m) := Carries.setUsed (f := ⟨l, s, m⟩) hc false
  have hlimits := Carries.withinLimits (f := ⟨l, ⟨false, s.size⟩, m⟩) hmarked
  have hbounds := Header.read?_eq_some_bounds (Carries.header (f := ⟨l, s, m⟩) hc)
  rw [hw _ _ hlimits]
  refine bind_congr_of_ok rfl (writeHeader_apply _ hbounds) ?_
  -- What is joined with the block before is the header that joining with the
  -- block behind leaves.
  rcases hmarked.mergeNext rfl with ⟨u, s', m', -, -, hu, hcarries, -⟩
  refine bind_congr_of_ok (hmarked.through_mergeNext hw) hu ?_
  exact bind_congr_at (hcarries.through_mergePrevious hw) fun _ _ _ _ => rfl

theorem Holds.through_tryRelease {h : Heap N} {l : Layout} (hl : h.Holds l)
    (hw : Through.Faithful write) (p : Handle) :
    Through.tryRelease write p h = Heap.tryRelease p h := by
  rw [Heap.tryRelease]
  cases hp : p.headerIn? N with
  | none => rw [Through.tryRelease_of_outOfRange hp, Through.tryRelease_of_outOfRange hp]
  | some pos =>
      have hlive := hl.live?_eq pos
      cases hloc : l.locate? pos with
      | none =>
          rw [hloc] at hlive
          rw [Through.tryRelease_of_notLive hp hlive, Through.tryRelease_of_notLive hp hlive]
      | some f =>
          rcases eq_of_locate? hloc with ⟨rfl, rfl⟩
          rw [hloc, Option.bind_some] at hlive
          by_cases hused : f.here.used = true
          · rw [if_pos hused] at hlive
            rw [Through.tryRelease_of_live hp hlive, Through.tryRelease_of_live hp hlive]
            exact hl.toCarries.through_free hw p
          · rw [if_neg hused] at hlive
            rw [Through.tryRelease_of_notLive hp hlive, Through.tryRelease_of_notLive hp hlive]

theorem Holds.through_duplicate {h : Heap N} {l : Layout} (hl : h.Holds l)
    (hw : Through.Faithful write) (s : Bytes) :
    Through.duplicate write s h = duplicate s h := by
  rw [duplicate, Through.duplicate, Through.duplicate]
  refine lift_bind_congr fun length _ => ?_
  exact bind_congr_at (hl.through_allocate hw length) fun _ _ _ _ => rfl

theorem Holds.through_strdup {h : Heap N} {l : Layout} (hl : h.Holds l)
    (hw : Through.Faithful write) (s : Bytes) : Through.strdup write s h = Heap.strdup s h := by
  rw [Heap.strdup, Through.strdup, Through.strdup]
  exact lift_bind_congr fun content _ => hl.through_duplicate hw content

theorem Holds.through_strndup {h : Heap N} {l : Layout} (hl : h.Holds l)
    (hw : Through.Faithful write) (s : Bytes) (n : Nat) :
    Through.strndup write s n h = Heap.strndup s n h := by
  rw [Heap.strndup, Through.strndup, Through.strndup]
  refine lift_bind_congr fun length _ => ?_
  exact lift_bind_congr fun content _ => hl.through_duplicate hw content

end

/-- An allocation on a heap in order hands out a handle, or there is no room. -/
theorem Holds.result_allocate {h : Heap N} {l : Layout} (hl : h.Holds l) (size : Nat) :
    (∃ p, (Heap.allocate size h).result = .ok p) ∨
      (Heap.allocate size h).result = .error (.refused (.exhausted size)) := by
  rcases ha : Heap.allocate size h with ⟨e | p, t, log⟩
  · rcases hl.of_allocate_error ha with ⟨rfl, -⟩
    exact Or.inr rfl
  · exact Or.inl ⟨p, rfl⟩

/-- A release on a heap in order is one, or the handle is wrong in one of two
    ways. -/
theorem Holds.result_tryRelease {h : Heap N} {l : Layout} (hl : h.Holds l) (p : Handle) :
    (Heap.tryRelease p h).result = .ok () ∨
      (Heap.tryRelease p h).result = .error (.refused (.outOfRange p.offset)) ∨
      (Heap.tryRelease p h).result = .error (.refused (.notAllocated p.offset)) := by
  cases hp : h.payload? p with
  | none =>
      rw [hl.tryRelease_of_noPayload hp]
      by_cases hrange : p.offset < Header.byteSize ∨ N ≤ p.offset - Header.byteSize
      · rw [if_pos hrange]
        exact Or.inr (Or.inl rfl)
      · rw [if_neg hrange]
        exact Or.inr (Or.inr rfl)
  | some s =>
      rcases hl.tryRelease_of_payload hp with ⟨t, m, log, ht, -⟩
      rw [ht]
      exact Or.inl rfl

/-- A copy answers what the allocation for it answers. The payload that it
    looks for is there, and it is long enough. -/
theorem Holds.result_duplicate {h : Heap N} {l : Layout} (hl : h.Holds l) {s : Bytes}
    (hs : s.length + 1 < Word.limit) :
    (Heap.duplicate s h).result = (Heap.allocate (s.length + 1) h).result := by
  rcases ha : Heap.allocate (s.length + 1) h with ⟨e | p, t, log⟩
  · rw [duplicate_of_error hs ha]
  · rcases hl.of_allocate ha with ⟨m, u, -, -, hu, hlength, -⟩
    rw [duplicate_of_ok hs ha hu hlength]

/-- The write that faults for headers that are not within the limits. -/
def Through.guarded (pos : Nat) (b : Header) : HeapM N Unit :=
  if b.size < Header.noLink ∧ (∀ p ∈ b.previous, p < Header.noLink) ∧
      ∀ p ∈ b.next, p < Header.noLink then
    writeHeader pos b
  else stop (.fault .overflow)

theorem Through.faithful_guarded : Through.Faithful (Through.guarded (N := N)) :=
  fun _ _ hb => if_pos ⟨hb.size, hb.previous, hb.next⟩

/-- On a heap in order, an allocation and the copy of a string answer with a
    handle or that there is no room, and a release answers or says that the
    handle is wrong. There are no faults, and no such heap is found damaged.
    All headers that are written are within the limits, so another write that
    only treats other headers differently makes no difference, and what is
    written is read back. A buffer is always short enough for its bytes to be
    counted with one more. -/
theorem limits_respected {h : Heap N} (hh : h.check = .ok ()) :
    (∀ size, (∃ p, (allocate size h).result = .ok p) ∨
      (allocate size h).result = .error (.refused (.exhausted size))) ∧
      (∀ p, (tryRelease p h).result = .ok () ∨
        (tryRelease p h).result = .error (.refused (.outOfRange p.offset)) ∨
        (tryRelease p h).result = .error (.refused (.notAllocated p.offset))) ∧
      (∀ s, s.length + 1 < Word.limit → (∃ p, (strdup s h).result = .ok p) ∨
        (strdup s h).result =
          .error (.refused (.exhausted ((CString.chars s).length + 1)))) ∧
      (∀ s n, s.length + 1 < Word.limit → (∃ p, (strndup s n h).result = .ok p) ∨
        (strndup s n h).result =
          .error (.refused (.exhausted (((CString.chars s).take n).length + 1)))) ∧
      (∀ write, Through.Faithful write →
        (∀ size, Through.allocate write size h = allocate size h) ∧
          (∀ p, Through.tryRelease write p h = tryRelease p h) ∧
          (∀ s, Through.strdup write s h = strdup s h) ∧
          ∀ s n, Through.strndup write s n h = strndup s n h) ∧
      (initialHeader N).WithinLimits ∧
      ∀ b : Header, b.WithinLimits → Header.decode? b.encode = some b := by
  rcases (check_eq_ok_iff h).mp hh with ⟨l, hl⟩
  refine ⟨hl.result_allocate, hl.result_tryRelease, ?_, ?_, ?_, ?_,
    fun b hb => hb.decode?_encode⟩
  · intro s hs
    have hle := CString.length_chars_le s
    rw [strdup_eq, hl.result_duplicate (by omega)]
    exact hl.result_allocate _
  · intro s n hs
    have hle := CString.length_chars_le s
    have htake := List.length_take_le' n (CString.chars s)
    rw [strndup_eq, hl.result_duplicate (by omega)]
    exact hl.result_allocate _
  · intro write hw
    exact ⟨hl.through_allocate hw, hl.through_tryRelease hw, hl.through_strdup hw,
      hl.through_strndup hw⟩
  · exact Carries.withinLimits (f := ⟨[], ⟨false, N - Header.byteSize⟩, []⟩)
      (holds_initial h.room h.small).toCarries

/-- A block between two free ones is released through the guard, which joins all
    three. The guard is not noticed in the largest region that there can be
    either, when the largest word is asked for. -/
theorem limits_respected_at_release :
    (∃ h : Heap 128, h.check = .ok () ∧
      h.blocks = [⟨0, false, 16⟩, ⟨32, true, 16⟩, ⟨64, false, 48⟩] ∧
      Through.tryRelease Through.guarded ⟨48⟩ h = tryRelease ⟨48⟩ h ∧
      (Through.tryRelease Through.guarded ⟨48⟩ h).result = .ok () ∧
      (Through.tryRelease Through.guarded ⟨48⟩ h).state.blocks = [⟨0, false, 112⟩]) ∧
      ∃ h : Heap 0xFFFFFFFE, h.check = .ok () ∧
        Through.allocate Through.guarded 0xFFFFFFFFFFFFFFFF h = allocate 0xFFFFFFFFFFFFFFFF h := by
  constructor
  · have hstart : (Heap.initial (N := 128) (by decide) (by decide)).check = .ok () :=
      (holds_initial _ _).check
    have hrun := (((sound_allocate 16).preserves.bind fun p =>
      (sound_allocate 16).preserves.bind fun _ => (sound_tryRelease p).preserves) _ hstart)
    rcases limits_respected hrun with ⟨-, -, -, -, hwrite, -, -⟩
    have hsame := (hwrite _ Through.faithful_guarded).2.1 ⟨48⟩
    refine ⟨_, hrun, by decide +kernel, hsame, ?_, ?_⟩
    · rw [hsame]
      decide +kernel
    · rw [hsame]
      decide +kernel
  · have hstart := (holds_initial (N := 0xFFFFFFFE) (by decide) (by decide)).check
    rcases limits_respected hstart with ⟨-, -, -, -, hwrite, -, -⟩
    exact ⟨_, hstart, (hwrite _ Through.faithful_guarded).1 _⟩

end Heap

end Freestanding
