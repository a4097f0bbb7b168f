import Freestanding.Heap.Operation
import Freestanding.Proofs.Layout

/-!
# Layouts in a Region

When the bytes of a heap stand for a layout.

`Linked` says it of the headers: each of them is where the sizes before it put
it, and its links lead to its neighbours. A part of a layout has links at both
ends that lead out of it, so these are arguments, and two parts behind each
other are linked exactly if each of them is and the links at the seam agree.
That is what the proofs about operations use. They take a layout apart around
the place of the change, show for every part that its headers are there, and
put it together again.

`Carries` adds the two offsets that a heap keeps outside of its region. While
an operation is under way, two free segments can be next to each other;
`Holds` says that they are not, and that is what a heap is like between
operations. It is also what `check` tests: `check_eq_ok_iff` has no more to
say than that.

Everything a heap reads off its region is read off the headers, so it is a
function of the layout. The walk reports its blocks, the search finds its
first fit, and a header is live if a segment in use is located at its offset.

## Main definitions

* `Heap.Linked`: The headers of a part of a layout are in the region.
* `Heap.Carries`: The headers of a layout are in the region.
* `Heap.Holds`: The same for a layout without free neighbours.

## Theorems

* `Heap.linked_append`: Linked parts at a seam.
* `Heap.Linked.congr`: Headers that read the same are linked the same.
* `Heap.Linked.header`: The header of a segment in the middle.
* `Heap.Carries.blocks_eq`, `Heap.Carries.firstFit_eq`,
  `Heap.Carries.live?_eq`: What is read off a layout.
* `Heap.check_eq_ok_iff`: The test passes exactly if there is a layout.
* `Heap.holds_initial`: The layout of a new heap.
-/

namespace Freestanding

namespace Heap

open Layout

variable {N : Nat}

/-- The headers of a layout at `pos` are in the region, the first one linked
    back to `previous` and the last one onwards to `next`. -/
def Linked (h : Heap N) (next : Option Nat) : Option Nat → Nat → Layout → Prop
  | _, _, [] => True
  | previous, pos, s :: l =>
    h.header? pos = some (s.header previous (linkTo (pos + s.span) next l)) ∧
      h.Linked next (some pos) (pos + s.span) l

/-- The region is cut into the segments of a layout, and the heap knows where
    the first and the last of them are. -/
structure Carries (h : Heap N) (l : Layout) : Prop where
  first : h.first = 0
  last : linkBack none 0 l = some h.last
  span : l.span = N
  linked : h.Linked none none 0 l

/-- A layout in which no two free segments are next to each other is in the
    region. -/
structure Holds (h : Heap N) (l : Layout) : Prop extends Carries h l where
  separated : l.Separated

/-- Sizes and offsets of a region fit into the fields of a header. -/
theorem lt_wordLimit (h : Heap N) : N < Header.wordLimit :=
  Nat.lt_trans h.small Header.maxRegion_lt_wordLimit

/-- Sums of a few of them are words. -/
theorem lt_limit (h : Heap N) : 2 * N < Word.limit :=
  Nat.lt_trans (Nat.mul_lt_mul_of_pos_left h.small Nat.two_pos) (by decide)

theorem linked_append (h : Heap N) (next previous : Option Nat) (pos : Nat) (l m : Layout) :
    h.Linked next previous pos (l ++ m) ↔
      h.Linked (linkTo (pos + l.span) next m) previous pos l ∧
        h.Linked next (linkBack previous pos l) (pos + l.span) m := by
  induction l generalizing previous pos with
  | nil => exact ⟨fun hm => ⟨trivial, hm⟩, fun hm => hm.2⟩
  | cons s l ih =>
      rw [List.cons_append, Linked, Linked, ih, linkTo_append, linkBack, span_cons, Nat.add_assoc,
        and_assoc]

/-- Headers that read the same in another heap are linked there as well. -/
theorem Linked.congr {h t : Heap N} {next previous : Option Nat} {pos : Nat} {l : Layout}
    (hl : h.Linked next previous pos l)
    (hsame : ∀ q, pos ≤ q → q + Header.byteSize ≤ pos + l.span → t.header? q = h.header? q) :
    t.Linked next previous pos l := by
  induction l generalizing previous pos with
  | nil => trivial
  | cons s l ih =>
      rcases hl with ⟨hs, hl⟩
      have hspan := byteSize_le_span s
      rw [span_cons] at hsame
      constructor
      · rw [hsame pos (Nat.le_refl _) (by omega)]
        exact hs
      · exact ih hl fun q hlo hhi => hsame q (by omega) (by omega)

theorem Linked.header {h : Heap N} {previous : Option Nat} {pos : Nat} {l m : Layout} {s : Segment}
    (hl : h.Linked none previous pos (l ++ s :: m)) :
    h.header? (pos + l.span) =
      some (s.header (linkBack previous pos l) (linkTo (pos + l.span + s.span) none m)) := by
  rw [linked_append] at hl
  exact hl.2.1

/-- A link to a part that is linked leads to a header. -/
theorem Linked.readable {h : Heap N} {previous : Option Nat} {pos : Nat} {l : Layout}
    (hl : h.Linked none previous pos l) :
    ∀ q, linkTo pos none l = some q → ∃ b, h.header? q = some b := by
  intro q hq
  cases l with
  | nil => cases hq
  | cons s l =>
      cases hq
      exact ⟨_, hl.1⟩

/-- A walk reports the blocks of the layout it goes along. -/
theorem Linked.walk_eq {h : Heap N} {previous : Option Nat} {pos n : Nat} {l : Layout}
    (hl : h.Linked none previous pos l) (hn : l.length ≤ n) :
    h.walk n (linkTo pos none l) = blocksFrom pos l := by
  -- The induction is on the segments; the bound only has to be as large as
  -- their number.
  induction l generalizing previous pos n with
  | nil => cases n <;> rfl
  | cons s l ih =>
      cases n with
      | zero => exact absurd hn (Nat.not_succ_le_zero _)
      | succ n =>
          rw [linkTo, walk, hl.1, blocksFrom]
          dsimp only [Segment.header]
          rw [ih hl.2 (Nat.le_of_succ_le_succ hn)]

/-- A search finds the first fit of the layout it goes along. -/
theorem Linked.search_eq {h : Heap N} {previous : Option Nat} {pos n : Nat} {l : Layout}
    (size : Nat) (hl : h.Linked none previous pos l) (hn : l.length ≤ n) :
    h.search size n (linkTo pos none l) =
      .ok ((l.firstFit? size).map fun f =>
        (pos + f.before.span, f.here.header (linkBack previous pos f.before)
          (linkTo (pos + f.before.span + f.here.span) none f.after))) := by
  induction l generalizing previous pos n with
  | nil => cases n <;> rfl
  | cons s l ih =>
      cases n with
      | zero => exact absurd hn (Nat.not_succ_le_zero _)
      | succ n =>
          rw [linkTo, search, hl.1, firstFit?]
          dsimp only [Segment.header]
          split
          · rfl
          · -- What is found further on is found one segment further on.
            rw [ih hl.2 (Nat.le_of_succ_le_succ hn), Option.map_map]
            congr 2
            funext f
            simp only [Function.comp_apply, Focus.push, span_cons, linkBack, Nat.add_assoc]
            rfl

namespace Carries

variable {h : Heap N} {l : Layout}

theorem ne_nil (hl : h.Carries l) : l ≠ [] := by
  rintro rfl
  cases hl.last

theorem last_eq (hl : h.Carries l) : h.last = l.last := by
  have hlast := hl.last
  rw [linkBack_eq_last hl.ne_nil] at hlast
  exact (Option.some.inj hlast).symm

theorem linkTo_first (hl : h.Carries l) : some h.first = linkTo 0 none l := by
  rw [hl.first]
  cases l with
  | nil => exact absurd rfl hl.ne_nil
  | cons s l => rfl

theorem length_le (hl : h.Carries l) : l.length ≤ visits N := by
  -- Every segment takes up the bytes of a header at least.
  have hspan := length_mul_le_span l
  rw [hl.span] at hspan
  rw [visits, Nat.le_div_iff_mul_le Header.byteSize_pos, Nat.mul_comm]
  exact hspan

/-- The walk from the first block reports the blocks of the layout. -/
theorem blocks_eq (hl : h.Carries l) : h.blocks = l.blocks := by
  rw [Heap.blocks, hl.linkTo_first]
  exact hl.linked.walk_eq hl.length_le

/-- The search from the first block finds the first fit of the layout. -/
theorem firstFit_eq (hl : h.Carries l) (size : Nat) :
    h.firstFit size = .ok ((l.firstFit? size).map fun f => (f.before.span, f.header)) := by
  have hn : l.length ≤ N := Nat.le_trans hl.length_le (Nat.div_le_self _ _)
  rw [Heap.firstFit, hl.linkTo_first, hl.linked.search_eq size hn]
  simp only [Nat.zero_add]
  rfl

/-- The header of the segment in a focus is at its offset. -/
theorem header {f : Focus} (hl : h.Carries f.layout) :
    h.header? f.before.span = some f.header := by
  have hf := hl.linked.header
  rw [Nat.zero_add] at hf
  exact hf

/-- The segment of a focus ends within the region. -/
theorem span_le {f : Focus} (hl : h.Carries f.layout) :
    f.before.span + f.here.span + f.after.span = N := by
  have hspan := hl.span
  rw [Focus.layout, span_append, span_cons] at hspan
  omega

/-- A header is live exactly if a segment in use is located at its offset. -/
theorem live?_eq (hl : h.Carries l) (pos : Nat) :
    h.live? pos = (l.locate? pos).bind fun f => if f.here.used then some f.header else none := by
  have hfind := find?_blocksFrom l (Nat.zero_le pos)
  rw [Nat.sub_zero] at hfind
  rw [live?, hl.blocks_eq, Layout.blocks]
  cases hf : (blocksFrom 0 l).find? fun b => pos ≤ b.offset with
  | none =>
      rw [hf] at hfind
      cases hloc : l.locate? pos with
      | none => rfl
      | some f =>
          rw [hloc] at hfind
          cases hfind
  | some found =>
      rw [hf] at hfind
      cases hloc : l.locate? pos with
      | none =>
          -- The walk comes past the offset without meeting a block there.
          have hne : found.offset ≠ pos := by
            intro he
            rw [hloc, Option.filter_some_pos (by simpa using he)] at hfind
            cases hfind
          exact if_neg fun hc => hne hc.1
      | some f =>
          rw [hloc, Option.filter_some] at hfind
          split at hfind
          · cases hfind
            rcases eq_of_locate? hloc with ⟨rfl, hpos⟩
            show (if _ ∧ _ then _ else _) = if _ then _ else _
            rw [← hpos, hl.header]
            simp only [true_and]
          · cases hfind

end Carries

/-- What a test that passes has gone along is a layout that ends the
    region. -/
theorem exists_linked_of_checkFrom {h : Heap N} {n expected : Nat} {cursor : Option Nat}
    {before : Option (Nat × Bool)} (hc : h.checkFrom n cursor expected before = .ok ()) :
    ∃ l, cursor = linkTo expected none l ∧ h.Linked none (before.map (·.1)) expected l ∧
      expected + l.span = N ∧ l.Separated ∧ (∀ c ∈ before, ∀ s ∈ l.head?, c.2 ∨ s.used) ∧
      (l ≠ [] → linkBack (before.map (·.1)) expected l = some h.last) := by
  -- The induction is on the run of the test. Only the end of the region and a
  -- header that is in order are not errors.
  fun_induction Heap.checkFrom h n cursor expected before with
  | case1 n before =>
      exact ⟨[], rfl, trivial, rfl, trivial, (fun _ _ _ hs => by cases hs), fun hn => absurd rfl hn⟩
  | case5 n pos expected before b hb inPlace linkedBack separated lastKnown hgood ih =>
      have hpos : pos = expected := hgood.1
      have hprevious : b.previous = before.map (·.1) := hgood.2.1
      have hsep : b.used ∨ ∀ c ∈ before, c.2 := hgood.2.2.1
      have hlast : b.next = none → pos = h.last := hgood.2.2.2
      clear hgood lastKnown separated linkedBack inPlace
      subst hpos
      rcases ih hc with ⟨l, hnext, hl, hspan, hlsep, hhead, hllast⟩
      refine ⟨⟨b.used, b.size⟩ :: l, rfl, ⟨?_, hl⟩, ?_, ?_, ?_, fun _ => ?_⟩
      · rw [hb, Segment.header, ← hprevious]
        exact congrArg some (congrArg (Header.mk b.used b.size b.previous) hnext)
      · rw [span_cons, ← Nat.add_assoc]
        exact hspan
      · rw [separated_cons]
        exact ⟨hlsep, hhead _ rfl⟩
      · intro c hcb s hs
        cases hs
        exact hsep.symm.imp_left fun hall => hall c hcb
      · -- The block is the last one, or the last one is behind it.
        by_cases hnil : l = []
        · subst hnil
          exact congrArg some (hlast hnext)
        · exact hllast hnil
  | _ => cases hc

/-- The test passes along a layout that ends the region. -/
theorem checkFrom_of_linked {h : Heap N} {n expected : Nat} {before : Option (Nat × Bool)}
    {l : Layout} (hn : l.length ≤ n) (hl : h.Linked none (before.map (·.1)) expected l)
    (hspan : expected + l.span = N) (hsep : l.Separated)
    (hhead : ∀ c ∈ before, ∀ s ∈ l.head?, c.2 ∨ s.used)
    (hlast : l ≠ [] → linkBack (before.map (·.1)) expected l = some h.last) :
    h.checkFrom n (linkTo expected none l) expected before = .ok () := by
  induction l generalizing n expected before with
  | nil =>
      rw [linkTo]
      cases n <;> exact if_pos hspan
  | cons s l ih =>
      cases n with
      | zero => exact absurd hn (Nat.not_succ_le_zero _)
      | succ n =>
          rw [separated_cons] at hsep
          rw [span_cons, ← Nat.add_assoc] at hspan
          have hback : linkBack (some expected) (expected + s.span) l = some h.last :=
            hlast (List.cons_ne_nil s l)
          have hrest : h.checkFrom n (linkTo (expected + s.span) none l) (expected + s.span)
              (some (expected, s.used)) = .ok () :=
            ih (Nat.le_of_succ_le_succ hn) hl.2 hspan hsep.1
              (fun c hc t ht => by cases hc; exact hsep.2 t ht) fun _ => hback
          rw [linkTo, checkFrom, hl.1]
          dsimp only [Segment.header]
          rw [if_pos]
          · exact hrest
          · -- The header is in place and linked back because it is that of `s`.
            refine ⟨rfl, rfl, ?_, fun hnext => ?_⟩
            · by_cases hu : s.used = true
              · exact Or.inl hu
              · exact Or.inr fun c hc => (hhead c hc s rfl).resolve_right hu
            · cases l with
              | nil => exact Option.some.inj hback
              | cons t l => cases hnext

/-- The blocks of a heap are in order exactly if its region holds a layout. -/
theorem check_eq_ok_iff (h : Heap N) : h.check = .ok () ↔ ∃ l, h.Holds l := by
  constructor
  · intro hc
    rw [check] at hc
    split at hc
    · rename_i hfirst
      rcases exists_linked_of_checkFrom hc with ⟨l, hcursor, hl, hspan, hsep, -, hlast⟩
      have hne : l ≠ [] := by
        rintro rfl
        cases hcursor
      rw [Nat.zero_add] at hspan
      exact ⟨l, ⟨hfirst, hlast hne, hspan, hl⟩, hsep⟩
    · cases hc
  · rintro ⟨l, hl⟩
    rw [check, if_pos hl.first, hl.linkTo_first]
    exact checkFrom_of_linked hl.length_le hl.linked (by rw [Nat.zero_add, hl.span]) hl.separated
      (fun _ hc => by cases hc) fun _ => hl.last

theorem Holds.check {h : Heap N} {l : Layout} (hl : h.Holds l) : h.check = .ok () :=
  (check_eq_ok_iff h).mpr ⟨l, hl⟩

/-- A new heap holds one free segment. -/
theorem holds_initial (room : Header.byteSize < N) (small : N < Header.maxRegion) :
    (Heap.initial room small).Holds (Layout.initial N) := by
  have hlimit := lt_wordLimit (Heap.initial room small)
  have hfits : (initialHeader N).Fits :=
    ⟨Nat.lt_of_le_of_lt (Nat.sub_le _ _) hlimit, (fun _ hp => by cases hp),
      fun _ hp => by cases hp⟩
  refine ⟨⟨rfl, rfl, ?_, ?_, trivial⟩, trivial⟩
  · show Header.byteSize + (N - Header.byteSize) + 0 = N
    omega
  · exact Header.read?_overwrite_self (by omega) hfits

end Heap

end Freestanding
