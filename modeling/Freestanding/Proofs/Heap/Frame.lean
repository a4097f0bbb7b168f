import Freestanding.Proofs.Heap.Representation

/-!
# Writing Headers of a Layout

What a single write does to the layout in a region.

Operations write headers one at a time, and each write has two sides. On the
one hand the header is there afterwards and all headers that do not overlap
with it read as before, which is what a layout needs. On the other hand no
byte outside of the header changes, which is what the payloads need.
`AgreeOutside` is the second side. It names the headers by their offsets, so
it adds up over the writes of an operation. `Absorbs` says more about joins,
which leave only some of the headers: the others have lost their tags.

`Heap.relinked` is what following a link to write the link back comes to, as a
function on heaps. `Carries.replace` is the general form of a change: the
segments before it keep their headers, those from it on are shown to be there,
and nothing else is asked for.

## Main definitions

* `Heap.AgreeOutside`: No byte outside of the headers at some offsets differs.
* `Heap.Absorbs`: Some of the headers are gone, and how that shows.
* `Heap.relinked`: The heap with a block linked back to another one.

## Theorems

* `Heap.Absorbs.trans`: Absorbing more blocks.
* `Heap.relinkNext_apply`: A link that leads to a header is followed.
* `Heap.Linked.relinked`: Linking the rest of a layout back to a new block.
* `Heap.Carries.replace`: Replacing the segments from a place on.
* `Heap.Carries.setUsed`: Marking a segment.
-/

namespace Freestanding

namespace Heap

open Layout Change

variable {N : Nat}

/-- The bytes of two heaps agree outside of the headers at these offsets. -/
def AgreeOutside (h t : Heap N) (offsets : List Nat) : Prop :=
  ∀ i, (∀ q ∈ offsets, i < q ∨ q + Header.byteSize ≤ i) → t.region[i]? = h.region[i]?

/-- Of the blocks at the offsets `old`, those at `new` are left. No byte outside
    of the old headers differs, where a header is gone there is no tag, and if
    none is gone there is no byte that differs. -/
structure Absorbs (h t : Heap N) (old new : List Nat) : Prop where
  sublist : new.Sublist old
  agree : h.AgreeOutside t old
  erased : ∀ q ∈ old, q ∉ new → t.region.slice? q Header.fieldSize = some Header.noTag
  idle : new.length = old.length → t.region = h.region

/-- The heap with the block that a link leads to linked back to the one at
    `previous`. -/
def relinked (h : Heap N) (next : Option Nat) (previous : Nat) : Heap N :=
  match next with
  | none => h
  | some pos =>
    match h.header? pos with
    | none => h
    | some b => h.setHeader pos { b with previous := some previous }

theorem AgreeOutside.refl (h : Heap N) (offsets : List Nat) : h.AgreeOutside h offsets :=
  fun _ _ => rfl

theorem AgreeOutside.trans {h t u : Heap N} {offsets : List Nat} (ht : h.AgreeOutside t offsets)
    (hu : t.AgreeOutside u offsets) : h.AgreeOutside u offsets :=
  fun i hi => (hu i hi).trans (ht i hi)

theorem AgreeOutside.mono {h t : Heap N} {offsets more : List Nat}
    (ht : h.AgreeOutside t offsets) (hsub : offsets ⊆ more) : h.AgreeOutside t more :=
  fun i hi => ht i fun q hq => hi q (hsub hq)

theorem Absorbs.refl (h : Heap N) (offsets : List Nat) : h.Absorbs h offsets offsets :=
  ⟨List.Sublist.refl _, AgreeOutside.refl h _, fun _ hq hnew => absurd hq hnew, fun _ => rfl⟩

/-- Blocks that are gone stay gone when more of them are absorbed, as long as
    headers do not overlap. -/
theorem Absorbs.trans {h t u : Heap N} {old mid new : List Nat} (ht : h.Absorbs t old mid)
    (hu : t.Absorbs u mid new)
    (hapart : ∀ a ∈ old, ∀ b ∈ old, a = b ∨ a + Header.byteSize ≤ b ∨ b + Header.byteSize ≤ a) :
    h.Absorbs u old new := by
  have htag := Header.fieldSize_le_byteSize
  refine ⟨hu.sublist.trans ht.sublist, ht.agree.trans (hu.agree.mono ht.sublist.subset), ?_, ?_⟩
  · intro q hq hnew
    by_cases hmid : q ∈ mid
    · exact hu.erased q hmid hnew
    · -- The tag that is gone is not in any header that is written later.
      rw [← ht.erased q hq hmid]
      apply Region.slice?_congr
      intro i hlo hhi
      refine hu.agree i fun b hb => ?_
      rcases hapart q hq b (ht.sublist.subset hb) with rfl | hbefore | hbehind
      · exact absurd hb hmid
      · exact Or.inl (by omega)
      · exact Or.inr (by omega)
  · intro hlength
    have hold := ht.sublist.length_le
    have hmid := hu.sublist.length_le
    rw [hu.idle (by omega), ht.idle (by omega)]

theorem agreeOutside_setHeader (h : Heap N) {pos : Nat} (b : Header) {offsets : List Nat}
    (hpos : pos ∈ offsets) : h.AgreeOutside (h.setHeader pos b) offsets := by
  intro i hi
  apply Region.getElem?_overwrite_of_notMem
  rw [Header.length_encode]
  exact hi pos hpos

theorem agreeOutside_clearTag (h : Heap N) {pos : Nat} {offsets : List Nat}
    (hpos : pos ∈ offsets) : h.AgreeOutside (h.clearTag pos) offsets := by
  intro i hi
  have hsize : Header.noTag.length ≤ Header.byteSize := Header.fieldSize_le_byteSize
  apply Region.getElem?_overwrite_of_notMem
  rcases hi pos hpos with hlt | hge
  · exact Or.inl hlt
  · exact Or.inr (by omega)

@[simp] theorem region_setLast (h : Heap N) (old new : Nat) :
    (h.setLast old new).region = h.region := by
  unfold setLast
  split <;> rfl

theorem agreeOutside_setLast (h : Heap N) (old new : Nat) (offsets : List Nat) :
    h.AgreeOutside (h.setLast old new) offsets := by
  intro i _
  rw [region_setLast]

theorem agreeOutside_relinked (h : Heap N) {next : Option Nat} (previous : Nat)
    {offsets : List Nat} (hnext : ∀ q, next = some q → q ∈ offsets) :
    h.AgreeOutside (h.relinked next previous) offsets := by
  unfold relinked
  split
  · exact AgreeOutside.refl h offsets
  · split
    · exact AgreeOutside.refl h offsets
    · exact agreeOutside_setHeader h _ (hnext _ rfl)

@[simp] theorem first_setHeader (h : Heap N) (pos : Nat) (b : Header) :
    (h.setHeader pos b).first = h.first := by
  simp only [setHeader]

@[simp] theorem last_setHeader (h : Heap N) (pos : Nat) (b : Header) :
    (h.setHeader pos b).last = h.last := by
  simp only [setHeader]

@[simp] theorem first_clearTag (h : Heap N) (pos : Nat) : (h.clearTag pos).first = h.first := by
  simp only [clearTag]

@[simp] theorem last_clearTag (h : Heap N) (pos : Nat) : (h.clearTag pos).last = h.last := by
  simp only [clearTag]

@[simp] theorem first_setLast (h : Heap N) (old new : Nat) :
    (h.setLast old new).first = h.first := by
  unfold setLast
  split <;> rfl

@[simp] theorem last_setLast (h : Heap N) (old new : Nat) :
    (h.setLast old new).last = if h.last = old then new else h.last := by
  unfold setLast
  split <;> rfl

@[simp] theorem first_relinked (h : Heap N) (next : Option Nat) (previous : Nat) :
    (h.relinked next previous).first = h.first := by
  unfold relinked
  split
  · rfl
  · split
    · rfl
    · exact first_setHeader h _ _

@[simp] theorem last_relinked (h : Heap N) (next : Option Nat) (previous : Nat) :
    (h.relinked next previous).last = h.last := by
  unfold relinked
  split
  · rfl
  · split
    · rfl
    · exact last_setHeader h _ _

theorem header?_relinked_of_disjoint (h : Heap N) {next : Option Nat} (previous : Nat) {p : Nat}
    (hp : ∀ q, next = some q → p + Header.byteSize ≤ q ∨ q + Header.byteSize ≤ p) :
    (h.relinked next previous).header? p = h.header? p := by
  unfold relinked
  split
  · rfl
  · split
    · rfl
    · exact header?_setHeader_of_disjoint (hp _ rfl)

/-- A link that leads nowhere or to a header is followed. -/
theorem relinkNext_apply {h : Heap N} {next : Option Nat} (previous : Nat)
    (hnext : ∀ q, next = some q → ∃ b, h.header? q = some b) :
    relinkNext writeHeader next previous h = ⟨.ok (), h.relinked next previous, []⟩ := by
  cases next with
  | none => rfl
  | some pos =>
      rcases hnext pos rfl with ⟨b, hb⟩
      rw [relinkNext, relink_of_some hb, relinked, hb]

/-- A link to a part of a layout does not lead in front of it. -/
theorem eq_of_linkTo {pos q : Nat} {l : Layout} (h : linkTo pos none l = some q) : q = pos := by
  cases l with
  | nil => cases h
  | cons s l =>
      cases h
      rfl

/-- What is behind a block can be linked back to another one. -/
theorem Linked.relinked {h : Heap N} {previous : Option Nat} {pos : Nat} {l : Layout}
    (hl : h.Linked none previous pos l) (new : Nat) (hnew : new < Header.noLink) :
    (h.relinked (linkTo pos none l) new).Linked none (some new) pos l := by
  cases l with
  | nil => trivial
  | cons s l =>
      rcases hl with ⟨hs, hl⟩
      have hfits := Header.fits_of_read? hs
      have hspan := byteSize_le_span s
      rw [linkTo, Heap.relinked, hs]
      constructor
      · refine header?_setHeader_self (Header.read?_eq_some_bounds hs) ⟨hfits.size, ?_, hfits.next⟩
        intro p hp
        cases hp
        exact hnew
      · -- Only the first header is written.
        exact hl.congr fun q hq _ => header?_setHeader_of_disjoint (by omega)

/-- The segments from a place on are replaced. Those before it keep their
    headers. -/
theorem Carries.replace {h t : Heap N} {l m n : Layout} (hc : h.Carries (l ++ m))
    (hm : m ≠ []) (hn : n ≠ []) (hspan : n.span = m.span) (hfirst : t.first = h.first)
    (hlast : linkBack (linkBack none 0 l) l.span n = some t.last)
    (hfront : ∀ q, q + Header.byteSize ≤ l.span → t.header? q = h.header? q)
    (hback : t.Linked none (linkBack none 0 l) l.span n) : t.Carries (l ++ n) := by
  have hlinked := hc.linked
  rw [linked_append, Nat.zero_add] at hlinked
  -- The link across the seam leads to the same offset as before.
  have hseam : linkTo l.span none n = linkTo l.span none m := by
    cases m with
    | nil => exact absurd rfl hm
    | cons s m =>
        cases n with
        | nil => exact absurd rfl hn
        | cons u n => rfl
  refine ⟨hfirst.trans hc.first, ?_, ?_, ?_⟩
  · rw [linkBack_append, Nat.zero_add]
    exact hlast
  · rw [span_append, hspan, ← span_append]
    exact hc.span
  · rw [linked_append, Nat.zero_add, hseam]
    exact ⟨hlinked.1.congr fun q _ hq => hfront q (by omega), hback⟩

/-- The headers behind a place, seen from it. -/
theorem Carries.back {h : Heap N} {l m : Layout} (hc : h.Carries (l ++ m)) :
    h.Linked none (linkBack none 0 l) l.span m := by
  have hlinked := hc.linked
  rw [linked_append, Nat.zero_add] at hlinked
  exact hlinked.2

theorem Carries.last_back {h : Heap N} {l m : Layout} (hc : h.Carries (l ++ m)) :
    linkBack (linkBack none 0 l) l.span m = some h.last := by
  have hlast := hc.last
  rw [linkBack_append, Nat.zero_add] at hlast
  exact hlast

/-- Writing the header of a segment with another use marks the segment. -/
theorem Carries.setUsed {h : Heap N} {f : Focus} (hc : h.Carries f.layout) (used : Bool) :
    (h.setHeader f.before.span { f.header with used }).Carries
      (f.before ++ ⟨used, f.here.size⟩ :: f.after) := by
  have hheader := hc.header
  have hfits := Header.fits_of_read? hheader
  have hspan := byteSize_le_span f.here
  have hlast := hc.last_back
  rw [← last_setHeader h f.before.span { f.header with used }] at hlast
  refine hc.replace (List.cons_ne_nil _ _) (List.cons_ne_nil _ _) rfl (first_setHeader _ _ _)
    hlast ?_ ?_
  · intro q hq
    exact header?_setHeader_of_disjoint (Or.inl hq)
  · constructor
    · exact header?_setHeader_self (Header.read?_eq_some_bounds hheader)
        ⟨hfits.size, hfits.previous, hfits.next⟩
    · -- The size is the same, so what is behind stays where it is.
      exact hc.back.2.congr fun q hq _ => header?_setHeader_of_disjoint (by omega)

end Heap

end Freestanding
