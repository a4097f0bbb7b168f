import Freestanding.Proofs.Layout

/-!
# Joins

What is left of a layout when free segments are joined.

A release joins the segment it makes free with the one behind it and with the
one before it, if those are free. Whichever of the two it does, and in whatever
order, the layout changes by steps of one kind: two free segments that are next
to each other become one. `Joined` says that so many of these steps lead from
one layout to another, and what is true of one step is true of all of them by
induction. The cases that a release goes through are in `joined_free` and
nowhere else.

A step takes the offset of the second segment away and moves no other. The
first segment grows over the second and the header between them, so wherever
there were free bytes in a row, there are as many or more afterwards, and they
start at the same place or before it.

## Main definitions

* `Layout.Joined`: A layout after so many joins.

## Theorems

* `Layout.joined_free`: A release makes two joins at most.
* `Layout.Joined.length_eq`: Each of them takes a segment away.
* `Layout.offsetsFrom_join_sublist`, `Layout.eq_of_mem_offsetsFrom_join`: A join
  takes one offset away.
* `Layout.Joined.exists_cover`: A free block is part of a free block afterwards.
-/

namespace Freestanding

namespace Layout

/-- What `n` joins of free neighbours, one after the other, make of the layout
    `l`. -/
inductive Joined (l : Layout) : Nat → Layout → Prop where
  | start : Joined l 0 l
  | join {n : Nat} {front : Layout} {s t : Segment} {back : Layout}
      (before : Joined l n (front ++ s :: t :: back)) (hs : s.used = false)
      (ht : t.used = false) : Joined l (n + 1) (front ++ Layout.join s t :: back)

/-- Joins behind each other add up. -/
theorem Joined.trans {k l m : Layout} {i j : Nat} (hl : k.Joined i l) (hm : l.Joined j m) :
    k.Joined (i + j) m := by
  induction hm with
  | start => exact hl
  | join before hs ht ih => exact .join ih hs ht

/-- Joining what is behind a free segment to it is one join or none. -/
theorem joined_joinAfter (front : Layout) {s : Segment} (back : Layout) (hs : s.used = false) :
    ∃ n ≤ 1, (front ++ s :: back).Joined n (front ++ joinAfter s back) := by
  cases back with
  | nil => exact ⟨0, Nat.zero_le 1, .start⟩
  | cons t back =>
      rw [joinAfter]
      split
      · exact ⟨0, Nat.zero_le 1, .start⟩
      · rename_i ht
        exact ⟨1, Nat.le_refl 1, .join .start hs (Bool.eq_false_iff.mpr ht)⟩

/-- Joining a free segment to what is before it is one join or none. -/
theorem joined_joinBefore (front : Layout) {s : Segment} (back : Layout) (hs : s.used = false) :
    ∃ n ≤ 1, (front ++ s :: back).Joined n (joinBefore front (s :: back)) := by
  rcases List.eq_nil_or_concat' front with rfl | ⟨front, r, rfl⟩
  · exact ⟨0, Nat.zero_le 1, .start⟩
  · rw [joinBefore_concat front r s back hs]
    split
    · exact ⟨0, Nat.zero_le 1, .start⟩
    · rename_i hr
      rw [List.append_assoc, List.singleton_append]
      exact ⟨1, Nat.le_refl 1, .join .start (Bool.eq_false_iff.mpr hr) hs⟩

/-- A release makes its segment free and joins it at most twice. -/
theorem joined_free (f : Focus) :
    ∃ n ≤ 2, (f.before ++ ⟨false, f.here.size⟩ :: f.after).Joined n f.free := by
  rcases joined_joinAfter f.before (s := ⟨false, f.here.size⟩) f.after rfl with ⟨i, hi, hafter⟩
  -- After joining what is behind, there is still a free segment in front.
  rcases joinAfter_eq_cons (s := ⟨false, f.here.size⟩) f.after rfl with ⟨t, m, hj, ht⟩
  rcases joined_joinBefore f.before m ht with ⟨j, hj', hbefore⟩
  rw [hj] at hafter
  rw [Focus.free, hj]
  exact ⟨i + j, by omega, hafter.trans hbefore⟩

/-- Every join makes one segment of two. -/
theorem Joined.length_eq {n : Nat} {l m : Layout} (h : l.Joined n m) :
    m.length + n = l.length := by
  induction h with
  | start => rfl
  | join before hs ht ih =>
      rw [List.length_append, List.length_cons, List.length_cons] at ih
      rw [List.length_append, List.length_cons]
      omega

/-- Joining two segments leaves the offsets without that of the second one. -/
theorem offsetsFrom_join_sublist (pos : Nat) (front : Layout) (s t : Segment) (back : Layout) :
    (offsetsFrom pos (front ++ join s t :: back)).Sublist
      (offsetsFrom pos (front ++ s :: t :: back)) := by
  rw [offsetsFrom_append, offsetsFrom_append]
  refine List.Sublist.append_left ?_ _
  show ((pos + front.span) :: offsetsFrom (pos + front.span + (join s t).span) back).Sublist
    ((pos + front.span) :: (pos + front.span + s.span) ::
      offsetsFrom (pos + front.span + s.span + t.span) back)
  rw [span_join, ← Nat.add_assoc]
  exact (List.sublist_cons_self _ _).cons_cons _

/-- The offset that is not left is that of the second segment. -/
theorem eq_of_mem_offsetsFrom_join {pos q : Nat} {front back : Layout} {s t : Segment}
    (hq : q ∈ offsetsFrom pos (front ++ s :: t :: back))
    (hgone : q ∉ offsetsFrom pos (front ++ join s t :: back)) : q = pos + front.span + s.span := by
  rw [offsetsFrom_append] at hq hgone
  rcases List.mem_append.mp hq with hfront | hq
  · exact absurd (List.mem_append_left _ hfront) hgone
  rcases List.mem_cons.mp hq with rfl | hq
  · exact absurd (List.mem_append_right _ List.mem_cons_self) hgone
  rcases List.mem_cons.mp hq with rfl | hback
  · rfl
  · refine absurd (List.mem_append_right _ (List.mem_cons_of_mem _ ?_)) hgone
    rw [span_join, ← Nat.add_assoc]
    exact hback

/-- When two free segments are joined, a free block stays what it is or becomes
    part of what is joined. -/
theorem exists_cover_join {pos : Nat} {front back : Layout} {s t : Segment} {b : BlockInfo}
    (hb : b ∈ blocksFrom pos (front ++ s :: t :: back)) (hfree : b.used = false) :
    ∃ c ∈ blocksFrom pos (front ++ join s t :: back),
      c.used = false ∧ c.offset ≤ b.offset ∧ b.offset + b.size ≤ c.offset + c.size := by
  have hjoined : (⟨pos + front.span, false, (join s t).size⟩ : BlockInfo) ∈
      blocksFrom pos (front ++ join s t :: back) := by
    rw [blocksFrom_append]
    exact List.mem_append_right _ List.mem_cons_self
  have hsize : (join s t).size = s.size + Header.byteSize + t.size := rfl
  have hspan : s.span = Header.byteSize + s.size := rfl
  rw [blocksFrom_append] at hb
  rcases List.mem_append.mp hb with hfront | hb
  · refine ⟨b, ?_, hfree, Nat.le_refl _, Nat.le_refl _⟩
    rw [blocksFrom_append]
    exact List.mem_append_left _ hfront
  rcases List.mem_cons.mp hb with rfl | hb
  · refine ⟨_, hjoined, rfl, Nat.le_refl _, ?_⟩
    dsimp only
    omega
  rcases List.mem_cons.mp hb with rfl | hback
  · refine ⟨_, hjoined, rfl, Nat.le_add_right _ _, ?_⟩
    dsimp only
    omega
  · refine ⟨b, ?_, hfree, Nat.le_refl _, Nat.le_refl _⟩
    rw [blocksFrom_append, blocksFrom, span_join, ← Nat.add_assoc]
    exact List.mem_append_right _ (List.mem_cons_of_mem _ hback)

/-- After any number of joins, a free block is part of a free block. -/
theorem Joined.exists_cover {n pos : Nat} {l m : Layout} {b : BlockInfo} (h : l.Joined n m)
    (hb : b ∈ blocksFrom pos l) (hfree : b.used = false) :
    ∃ c ∈ blocksFrom pos m,
      c.used = false ∧ c.offset ≤ b.offset ∧ b.offset + b.size ≤ c.offset + c.size := by
  induction h with
  | start => exact ⟨b, hb, hfree, Nat.le_refl _, Nat.le_refl _⟩
  | join before hs ht ih =>
      rcases ih with ⟨c, hc, hcfree, hlo, hhi⟩
      rcases exists_cover_join hc hcfree with ⟨d, hd, hdfree, hdlo, hdhi⟩
      exact ⟨d, hd, hdfree, Nat.le_trans hdlo hlo, Nat.le_trans hhi hdhi⟩

end Layout

end Freestanding
