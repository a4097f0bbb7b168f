import Mathlib.Order.Bounds.Basic
import Freestanding.CString.Search

/-!
# First Places

A search answers the least place at which something is to be found, and answers
that there is none only where there is none.

This is said once, of any property that places can have. An answer with it is
determined, so two searches for the same thing answer the same, however they go
about it: one walks along the characters, one tries the runs of a length one
after the other, and one measures how far it can go without meeting a character
from a set and then asks whether that was all the way. What they look for differs
only for runs of more than one byte and for sets of more than one character.

Runs that overlap are not treated in a special way, since each place is tried by
itself. A run occurs where its last byte is still in the buffer, so a run of
characters that is looked for in a string ends before the zero, and the bytes
behind the zero are not searched.

The first place of a character from a set is the least of the first places of its
members. Only those count that have a place.

## Main definitions

* `FindsFirst`: An answer is the first place with a property.
* `OccursAt`: A place of a run of bytes.

## Theorems

* `FindsFirst.unique`: There is one such answer.
* `FindsFirst.of_members`: The first of several first places.
* `findsFirst_findIdx?`, `Memory.findsFirst_memchr`, `Memory.findsFirst_memmem`:
  Searching in a buffer.
* `CString.strpbrk_eq_findIdx?`, `CString.strcspn_eq_findIdx?`: Searching for a
  character from a set.
* `CString.strchr_eq_memchr`, `CString.strstr_singleton`,
  `CString.findIdx?_singleton`: Searching for one character.
* `CString.searches_find_leftmost`: What the searches find.
-/

namespace Freestanding

/-- The answer is the least place with a property, or that there is none. -/
structure FindsFirst (P : Nat → Prop) (found : Option Nat) : Prop where
  some_iff : ∀ i, found = some i ↔ IsLeast {j | P j} i
  none_iff : found = none ↔ ∀ j, ¬P j

/-- From the place `i` on, the bytes of `needle` follow each other in `s`. -/
structure OccursAt (s needle : Bytes) (i : Nat) : Prop where
  fits : i + needle.length ≤ s.length
  same : (s.drop i).take needle.length = needle

namespace FindsFirst

variable {P Q : Nat → Prop} {found other : Option Nat}

theorem of_isLeast {i : Nat} (h : IsLeast {j | P j} i) : FindsFirst P (some i) where
  some_iff _ := ⟨fun hj => Option.some.inj hj ▸ h, fun hj => congrArg some (h.unique hj)⟩
  none_iff := iff_of_false (Option.some_ne_none i) fun hnone => hnone i h.1

theorem of_none (h : ∀ j, ¬P j) : FindsFirst P none where
  some_iff j := iff_of_false (Option.some_ne_none j).symm fun hj => h j hj.1
  none_iff := iff_of_true rfl h

/-- What is looked for determines the answer. -/
theorem unique (h : FindsFirst P found) (h' : FindsFirst P other) : found = other := by
  cases found with
  | none => exact (h'.none_iff.mpr (h.none_iff.mp rfl)).symm
  | some i => exact ((h'.some_iff i).mpr ((h.some_iff i).mp rfl)).symm

theorem congr (h : FindsFirst P found) (hPQ : ∀ j, P j ↔ Q j) : FindsFirst Q found := by
  have hsame : P = Q := funext fun j => propext (hPQ j)
  rwa [← hsame]

/-- The first place at which one of several things is to be found is the least
    of the first places of each of them. -/
theorem of_members {members : Bytes} {P : UInt8 → Nat → Prop} {find : UInt8 → Option Nat}
    (hfind : ∀ c ∈ members, FindsFirst (P c) (find c))
    (h : FindsFirst (fun i => ∃ c ∈ members, P c i) found) :
    FindsFirst (fun i => ∃ c ∈ members, find c = some i) found := by
  have hplace : ∀ c ∈ members, ∀ i, find c = some i → P c i :=
    fun c hc i hi => (((hfind c hc).some_iff i).mp hi).1
  cases found with
  | none =>
      apply of_none
      rintro i ⟨c, hc, hi⟩
      exact h.none_iff.mp rfl i ⟨c, hc, hplace c hc i hi⟩
  | some i =>
      rcases (h.some_iff i).mp rfl with ⟨⟨c, hc, hi⟩, hleast⟩
      -- Nothing has an earlier place, so this one is the first of its own.
      have hown : find c = some i :=
        ((hfind c hc).some_iff i).mpr ⟨hi, fun j hj => hleast ⟨c, hc, hj⟩⟩
      refine of_isLeast ⟨⟨c, hc, hown⟩, ?_⟩
      rintro j ⟨d, hd, hj⟩
      exact hleast ⟨d, hd, hplace d hd j hj⟩

/-- An empty run is found at the front of a buffer. -/
theorem eq_some_zero {s needle : Bytes} (h : FindsFirst (OccursAt s needle) found)
    (hempty : needle = []) : found = some 0 := by
  subst hempty
  exact (h.some_iff 0).mpr ⟨⟨Nat.zero_le _, rfl⟩, fun j _ => Nat.zero_le j⟩

/-- A run that is longer than a buffer is not found. -/
theorem eq_none {s needle : Bytes} (h : FindsFirst (OccursAt s needle) found)
    (hlonger : s.length < needle.length) : found = none := by
  refine h.none_iff.mpr fun j hj => ?_
  have hfits := hj.fits
  omega

end FindsFirst

/-- The index of the first element with a property is the first place of one. -/
theorem findsFirst_findIdx? {α : Type} (p : α → Bool) (s : List α) :
    FindsFirst (fun i => ∃ b, s[i]? = some b ∧ p b = true) (s.findIdx? p) := by
  cases hfound : s.findIdx? p with
  | none =>
      have hall := List.findIdx?_eq_none_iff.mp hfound
      apply FindsFirst.of_none
      rintro j ⟨b, hb, hp⟩
      exact absurd hp (Bool.eq_false_iff.mp (hall b (List.mem_of_getElem? hb)))
  | some i =>
      rcases List.findIdx?_eq_some_iff_getElem.mp hfound with ⟨hi, hp, hbefore⟩
      refine FindsFirst.of_isLeast ⟨⟨_, List.getElem?_eq_getElem hi, hp⟩, ?_⟩
      rintro j ⟨b, hb, hpb⟩
      rcases List.getElem?_eq_some_iff.mp hb with ⟨hj, rfl⟩
      exact Nat.le_of_not_lt fun hlt => hbefore j hlt hpb

namespace Memory

/-- A byte is found at its first place. -/
theorem findsFirst_memchr (s : Bytes) (c : UInt8) :
    FindsFirst (fun i => s[i]? = some c) (memchr s c) := by
  refine (findsFirst_findIdx? _ s).congr fun i => ⟨?_, fun hi => ⟨c, hi, beq_self_eq_true c⟩⟩
  rintro ⟨b, hb, hbc⟩
  rw [hb, eq_of_beq hbc]

/-- A run of bytes is found at its first place, and an empty one at the front. -/
theorem findsFirst_memmem (s needle : Bytes) :
    ∃ found, memmem s needle = .ok found ∧ FindsFirst (OccursAt s needle) found := by
  refine ⟨_, memmem_eq s needle, ?_⟩
  split
  · rename_i hempty
    subst hempty
    exact FindsFirst.of_isLeast ⟨⟨Nat.zero_le _, rfl⟩, fun j _ => Nat.zero_le j⟩
  · refine (findsFirst_findIdx? _ _).congr fun i => ⟨?_, fun hi => ?_⟩
    · rintro ⟨run, hrun, hsame⟩
      rw [List.getElem?_map, Option.map_eq_some_iff] at hrun
      rcases hrun with ⟨j, hj, rfl⟩
      rcases List.getElem?_eq_some_iff.mp hj with ⟨hlt, hji⟩
      rw [List.length_range] at hlt
      rw [List.getElem_range] at hji
      exact ⟨by omega, hji ▸ eq_of_beq hsame⟩
    · have hfits := hi.fits
      refine ⟨needle, ?_, beq_self_eq_true needle⟩
      rw [List.getElem?_map, List.getElem?_range (by omega), Option.map_some, hi.same]

/-- A run of one byte occurs where the byte is. -/
theorem occursAt_singleton_iff {s : Bytes} {c : UInt8} {i : Nat} :
    OccursAt s [c] i ↔ s[i]? = some c := by
  have hrun : (s.drop i).take 1 = s[i]?.toList := by rw [List.take_one, List.head?_drop]
  refine ⟨fun h => ?_, fun h => ⟨?_, ?_⟩⟩
  · have hsame : s[i]?.toList = [c] := hrun ▸ h.same
    rwa [Option.toList_eq_singleton_iff] at hsame
  · exact (List.getElem?_eq_some_iff.mp h).1
  · rw [List.length_singleton, hrun, h, Option.toList_some]

end Memory

namespace CString

open Memory

/-- How far a run of other elements goes is where the first element with a
    property is. -/
theorem length_takeWhile_not (p : UInt8 → Bool) (s : Bytes) :
    (s.takeWhile fun b => !p b).length = s.findIdx p := by
  rw [List.takeWhile_eq_take_findIdx_not, List.length_take]
  simp only [Bool.not_not]
  exact Nat.min_eq_left List.findIdx_le_length

/-- A character from a set is found where it first occurs. -/
theorem strpbrk_eq_findIdx? (s accept : Bytes) :
    strpbrk s accept = .ok ((chars s).findIdx? (chars accept).contains) := by
  rw [strpbrk_eq]
  dsimp only
  rw [length_takeWhile_not, List.findIdx?_eq_guard_findIdx_lt, Option.guard_eq_ite, length_chars]
  simp only [decide_eq_true_eq]

/-- The run of characters that are not in a set ends at the first one that is,
    or with the string. -/
theorem strcspn_eq_findIdx? (s reject : Bytes) :
    strcspn s reject = .ok (((chars s).findIdx? (chars reject).contains).getD (strlen s)) := by
  rw [strcspn_eq, length_takeWhile_not]
  cases hfound : (chars s).findIdx? (chars reject).contains with
  | none => rw [List.findIdx?_eq_none_iff_findIdx_eq.mp hfound, length_chars, Option.getD_none]
  | some i => rw [(List.findIdx?_eq_some_iff_findIdx_eq.mp hfound).2, Option.getD_some]

/-- A character from a set is found at the first place of a member. -/
theorem findsFirst_contains (s accept : Bytes) :
    FindsFirst (fun i => ∃ c ∈ accept, s[i]? = some c) (s.findIdx? accept.contains) := by
  refine (findsFirst_findIdx? _ s).congr fun i => ⟨?_, ?_⟩
  · rintro ⟨c, hc, hmem⟩
    exact ⟨c, List.contains_iff_mem.mp hmem, hc⟩
  · rintro ⟨c, hmem, hc⟩
    exact ⟨c, hc, List.contains_iff_mem.mpr hmem⟩

/-- One character is a string. -/
theorem chars_singleton {c : UInt8} (hc : c ≠ 0) : chars [c] = [c] :=
  chars_eq_self fun h0 => hc (List.mem_singleton.mp h0).symm

/-- A character other than zero is found in a string where it is found among the
    bytes before the end. -/
theorem strchr_eq_memchr (s : Bytes) {c : UInt8} (hc : c ≠ 0) :
    strchr s c = .ok (memchr (chars s) c) := by
  rw [strchr_eq, if_neg hc]

/-- A string of one character is found in a string at the same place as the
    character. -/
theorem strstr_singleton (s : Bytes) {c : UInt8} (hc : c ≠ 0) :
    strstr s [c] = .ok (memchr (chars s) c) := by
  rcases findsFirst_memmem (chars s) [c] with ⟨found, hfound, hfirst⟩
  rw [strstr_eq, chars_singleton hc, hfound,
    (hfirst.congr fun i => occursAt_singleton_iff).unique (findsFirst_memchr (chars s) c)]

/-- A member of a set of one byte is found where the byte is. -/
theorem findIdx?_singleton (s : Bytes) (c : UInt8) :
    s.findIdx? [c].contains = memchr s c :=
  have hone : ∀ i, (∃ d ∈ [c], s[i]? = some d) ↔ s[i]? = some c := fun i => by
    simp only [List.mem_singleton, exists_eq_left]
  ((findsFirst_contains s [c]).congr hone).unique (findsFirst_memchr s c)

/-- A search for a run of bytes answers the least index at which the bytes fit and
    are the ones looked for, and that there is none exactly where there is none.
    An empty run is found at the front, and one that is longer than the buffer
    is not found. A search for a string is one among the characters, so what it
    finds ends where the string ends or before. One character is found at the
    same place by all searches for it, and the run of others in front of it
    ends there or with the string. A character from a set is found at the least
    of the places where the members are found. -/
theorem searches_find_leftmost :
    (∀ s needle, ∃ found, memmem s needle = .ok found ∧ FindsFirst (OccursAt s needle) found ∧
      (needle = [] → found = some 0) ∧ (s.length < needle.length → found = none)) ∧
    (∀ s needle, ∃ found, strstr s needle = .ok found ∧
      FindsFirst (OccursAt (chars s) (chars needle)) found ∧
      (chars needle = [] → found = some 0) ∧ (strlen s < strlen needle → found = none) ∧
      ∀ i, found = some i → i + strlen needle ≤ strlen s) ∧
    (∀ s c, c ≠ 0 → ∃ found, strchr s c = .ok found ∧ strstr s [c] = .ok found ∧
      strpbrk s [c] = .ok found ∧ strcspn s [c] = .ok (found.getD (strlen s))) ∧
    ∀ s accept, ∃ found, strpbrk s accept = .ok found ∧
      FindsFirst (fun i => ∃ c ∈ chars accept, strchr s c = .ok (some i)) found := by
  refine ⟨fun s needle => ?_, fun s needle => ?_, fun s c hc => ?_, fun s accept => ?_⟩
  · rcases findsFirst_memmem s needle with ⟨found, hfound, hfirst⟩
    exact ⟨found, hfound, hfirst, hfirst.eq_some_zero, hfirst.eq_none⟩
  · rcases findsFirst_memmem (chars s) (chars needle) with ⟨found, hfound, hfirst⟩
    rw [← length_chars, ← length_chars]
    exact ⟨found, strstr_eq s needle ▸ hfound, hfirst, hfirst.eq_some_zero, hfirst.eq_none,
      fun i hi => ((hfirst.some_iff i).mp hi).1.fits⟩
  · refine ⟨_, strchr_eq_memchr s hc, strstr_singleton s hc, ?_, ?_⟩
    · rw [strpbrk_eq_findIdx?, chars_singleton hc, findIdx?_singleton]
    · rw [strcspn_eq_findIdx?, chars_singleton hc, findIdx?_singleton]
  · refine ⟨_, strpbrk_eq_findIdx? s accept, ?_⟩
    have hmembers : ∀ c ∈ chars accept,
        FindsFirst (fun i => (chars s)[i]? = some c) (memchr (chars s) c) :=
      fun c _ => findsFirst_memchr (chars s) c
    refine (FindsFirst.of_members hmembers (findsFirst_contains _ _)).congr fun i => ?_
    -- A set has no zero, so each member is looked for among the characters.
    refine exists_congr fun c => and_congr_right fun hc => ?_
    have hzero : c ≠ 0 := fun h0 => zero_notMem_chars accept (h0 ▸ hc)
    rw [strchr_eq_memchr s hzero, Except.ok.injEq]

/-- A run that occurs twice, at places that overlap, and a character that stands
    only behind the end of a string. -/
theorem found_at_first_of_two :
    memmem [65, 65, 66, 65, 66, 65] [65, 66, 65] = .ok (some 1) ∧
    ∃ found, strchr [65, 66, 0, 67] 67 = .ok found ∧ strstr [65, 66, 0, 67] [67] = .ok found ∧
      strcspn [65, 66, 0, 67] [67] = .ok (found.getD 2) := by
  rcases searches_find_leftmost with ⟨hruns, -, hones, -⟩
  rcases hruns [65, 65, 66, 65, 66, 65] [65, 66, 65] with ⟨found, hfound, hfirst, -⟩
  have hone : found = some 1 := by
    refine (hfirst.some_iff 1).mpr ⟨⟨by decide, rfl⟩, fun j hj => Nat.pos_of_ne_zero ?_⟩
    rintro rfl
    exact absurd hj.same (by decide)
  rcases hones [65, 66, 0, 67] 67 (by decide) with ⟨other, hchr, hstr, -, hspan⟩
  exact ⟨hone ▸ hfound, other, hchr, hstr, hspan⟩

end CString

end Freestanding
