import Mathlib.Data.Finset.Card
import Mathlib.Data.Finset.Range
import Freestanding.Heap.Loops
import Freestanding.Heap.Operation

/-!
# The Search for a Block

The loop that looks for a free block, and when it ends.

The search has no counter. It follows links through a region that may hold
anything, so it may well go on forever, and all that can be said for every
region is what it does if it ends. `firstFit` is a function and gives up after
as many headers as there are bytes. These two have to be told apart: that a
loop ends says nothing about how soon, and giving up is not what the loop does.

They agree because a search that ends is a short one. A loop that comes back to
a link that it has followed goes around forever, so one that is going to end
never does. The links it goes on from lead to headers, and there are fewer
offsets at which a header has room than there are bytes. A search that ends
has therefore ended long before `firstFit` gives up.

## Main definitions

* `Heap.places`: Where a link can lead to a header.

## Theorems

* `Loop.Passes.exists_twice`: A loop that goes on for long comes back.
* `Loop.EndsIn.le_card`: A loop that ends has as many turns as it has states,
  or fewer.
* `Heap.searchLoop_cases`: What one turn of a search comes to.
* `Heap.of_searchLoop_ends`: What a search that ends has come to.
* `Heap.endsIn_searchLoop_le`: The turns of a search that ends.
* `Heap.firstFit_of_ends`: A search that ends is the one that `firstFit` makes.
-/

namespace Freestanding

/-- A loop that has gone on more often than there are states that it goes on
    from has been in one of them twice. -/
theorem Loop.Passes.exists_twice {σ α : Type} {l : Loop σ α} {n : Nat} {s u : σ}
    (hn : l.Passes n s u) (states : Finset σ)
    (hstates : ∀ t v, l t = .ok (.again v) → t ∈ states) (hcard : states.card < n) :
    ∃ i j t, i < j ∧ j < n ∧ l.Passes i s t ∧ l.Passes j s t := by
  have hway : ∀ k, ∃ t, k < n → l.Passes k s t ∧ t ∈ states := by
    intro k
    by_cases hk : k < n
    · rcases hn.exists_of_le (Nat.succ_le_of_lt hk) with ⟨v, hv⟩
      cases hv with
      | again before turn => exact ⟨_, fun _ => ⟨before, hstates _ _ turn⟩⟩
    · exact ⟨s, fun hc => absurd hc hk⟩
  choose state hstate using hway
  have hmaps : ∀ k ∈ Finset.range n, state k ∈ states :=
    fun k hk => (hstate k (Finset.mem_range.mp hk)).2
  -- There are more numbers of turns than there are states.
  rcases Finset.exists_ne_map_eq_of_card_lt_of_maps_to
    (by rw [Finset.card_range]; exact hcard) hmaps with ⟨i, hi, j, hj, hne, heq⟩
  have hi := Finset.mem_range.mp hi
  have hj := Finset.mem_range.mp hj
  have hit := (hstate i hi).1
  have hjt := (hstate j hj).1
  rcases Nat.lt_or_gt_of_ne hne with hlt | hgt
  · rw [← heq] at hjt
    exact ⟨i, j, state i, hlt, hj, hit, hjt⟩
  · rw [heq] at hit
    exact ⟨j, i, state j, hgt, hi, hjt, hit⟩

/-- A loop that ends has at most one turn more than there are states that it
    goes on from. -/
theorem Loop.EndsIn.le_card {σ α : Type} {l : Loop σ α} {n : Nat} {s : σ} {a : α}
    (h : l.EndsIn n s a) (states : Finset σ)
    (hstates : ∀ t u, l t = .ok (.again u) → t ∈ states) : n ≤ states.card + 1 := by
  refine Nat.le_of_not_lt fun hlt => ?_
  rcases h.exists_passes hlt with ⟨u, hu⟩
  rcases hu.exists_twice states hstates (Nat.lt_succ_self _) with ⟨i, j, t, hij, -, hi, hj⟩
  exact (endless_of_twice hij hi hj).not_endsIn h

namespace Heap

variable {N : Nat} {h : Heap N} {size : Nat}

theorem searchLoop_of_lost {pos : Nat} (hb : h.header? pos = none) :
    h.searchLoop size (some pos) = .ok (.done (.error (.corrupted pos))) := by
  simp only [searchLoop, load_eq, hb, Checked.ok_bind, Checked.pure_eq_ok]

theorem searchLoop_of_fit {pos : Nat} {b : Header} (hb : h.header? pos = some b)
    (hfit : b.used = false ∧ size ≤ b.size) :
    h.searchLoop size (some pos) = .ok (.done (.ok (some (pos, b)))) := by
  simp only [searchLoop, load_eq, hb, Checked.ok_bind, Checked.pure_eq_ok]
  rw [if_pos hfit]

theorem searchLoop_of_noFit {pos : Nat} {b : Header} (hb : h.header? pos = some b)
    (hfit : ¬ (b.used = false ∧ size ≤ b.size)) :
    h.searchLoop size (some pos) = .ok (.again b.next) := by
  simp only [searchLoop, load_eq, hb, Checked.ok_bind, Checked.pure_eq_ok]
  rw [if_neg hfit]

/-- What a turn of the search can come to. -/
theorem searchLoop_cases (h : Heap N) (size : Nat) (link : Option Nat) :
    (link = none ∧ h.searchLoop size link = .ok (.done (.ok none))) ∨
      (∃ pos, link = some pos ∧ h.header? pos = none ∧
        h.searchLoop size link = .ok (.done (.error (.corrupted pos)))) ∨
      (∃ pos b, link = some pos ∧ h.header? pos = some b ∧ (b.used = false ∧ size ≤ b.size) ∧
        h.searchLoop size link = .ok (.done (.ok (some (pos, b))))) ∨
      ∃ pos b, link = some pos ∧ h.header? pos = some b ∧ ¬ (b.used = false ∧ size ≤ b.size) ∧
        h.searchLoop size link = .ok (.again b.next) := by
  cases link with
  | none => exact Or.inl ⟨rfl, rfl⟩
  | some pos =>
      cases hb : h.header? pos with
      | none => exact Or.inr (Or.inl ⟨pos, rfl, hb, searchLoop_of_lost hb⟩)
      | some b =>
          by_cases hfit : b.used = false ∧ size ≤ b.size
          · exact Or.inr (Or.inr (Or.inl ⟨pos, b, rfl, hb, hfit, searchLoop_of_fit hb hfit⟩))
          · exact Or.inr (Or.inr (Or.inr ⟨pos, b, rfl, hb, hfit, searchLoop_of_noFit hb hfit⟩))

/-- The search goes on from a link that leads to a block that does not fit. -/
theorem of_searchLoop_again {link next : Option Nat}
    (hturn : h.searchLoop size link = .ok (.again next)) :
    ∃ pos b, link = some pos ∧ h.header? pos = some b ∧ ¬ (b.used = false ∧ size ≤ b.size) ∧
      next = b.next := by
  rcases searchLoop_cases h size link with ⟨-, hs⟩ | ⟨_, -, -, hs⟩ | ⟨_, _, -, -, -, hs⟩ |
    ⟨pos, b, hlink, hb, hfit, hs⟩
  all_goals rw [hs] at hturn; cases hturn
  exact ⟨pos, b, hlink, hb, hfit, rfl⟩

/-- The search ends with the list, where no header is, or at a block that
    fits. -/
theorem of_searchLoop_done {link : Option Nat} {r : Except Error (Option (Nat × Header))}
    (hturn : h.searchLoop size link = .ok (.done r)) :
    (link = none ∧ r = .ok none) ∨
      (∃ pos, link = some pos ∧ h.header? pos = none ∧ r = .error (.corrupted pos)) ∨
      ∃ pos b, link = some pos ∧ h.header? pos = some b ∧ (b.used = false ∧ size ≤ b.size) ∧
        r = .ok (some (pos, b)) := by
  rcases searchLoop_cases h size link with ⟨hlink, hs⟩ | ⟨pos, hlink, hb, hs⟩ |
    ⟨pos, b, hlink, hb, hfit, hs⟩ | ⟨_, _, -, -, -, hs⟩
  all_goals rw [hs] at hturn; cases hturn
  · exact Or.inl ⟨hlink, rfl⟩
  · exact Or.inr (Or.inl ⟨pos, hlink, hb, rfl⟩)
  · exact Or.inr (Or.inr ⟨pos, b, hlink, hb, hfit, rfl⟩)

/-- A search that ends has come to the end of the list, to a place where no
    header is, or to a block that fits. -/
theorem of_searchLoop_ends {link : Option Nat} {r : Except Error (Option (Nat × Header))}
    (hends : (h.searchLoop size).Ends link r) :
    r = .ok none ∨ (∃ pos, h.header? pos = none ∧ r = .error (.corrupted pos)) ∨
      ∃ pos b, h.header? pos = some b ∧ (b.used = false ∧ size ≤ b.size) ∧
        r = .ok (some (pos, b)) := by
  rcases hends with ⟨n, hn⟩
  induction hn with
  | done turn =>
      rcases of_searchLoop_done turn with ⟨-, hr⟩ | ⟨pos, -, hb, hr⟩ | ⟨pos, b, -, hb, hfit, hr⟩
      · exact Or.inl hr
      · exact Or.inr (Or.inl ⟨pos, hb, hr⟩)
      · exact Or.inr (Or.inr ⟨pos, b, hb, hfit, hr⟩)
  | again turn rest ih => exact ih

/-- The links that lead to an offset at which a header has room. -/
def places (N : Nat) : Finset (Option Nat) :=
  (Finset.range (N - Header.byteSize + 1)).map .some

theorem card_places (N : Nat) : (places N).card = N - Header.byteSize + 1 := by
  rw [places, Finset.card_map, Finset.card_range]

/-- A link that the search follows leads to a header, and that has room. -/
theorem mem_places_of_again {link next : Option Nat}
    (hturn : h.searchLoop size link = .ok (.again next)) : link ∈ places N := by
  rcases of_searchLoop_again hturn with ⟨pos, b, rfl, hb, -, -⟩
  have hbounds := Header.read?_eq_some_bounds hb
  rw [places, Finset.mem_map]
  exact ⟨pos, Finset.mem_range.mpr (by omega), rfl⟩

/-- A search that ends has a turn for every offset that a header can be at, and
    one more, or fewer turns. -/
theorem endsIn_searchLoop_le {n : Nat} {link : Option Nat}
    {r : Except Error (Option (Nat × Header))} (hends : (h.searchLoop size).EndsIn n link r) :
    n ≤ N - Header.byteSize + 2 := by
  have hle := hends.le_card (places N) fun _ _ => mem_places_of_again
  rw [card_places] at hle
  exact hle

/-- A search along the same links with enough steps comes to the same. -/
theorem search_of_endsIn {k n : Nat} {link : Option Nat}
    {r : Except Error (Option (Nat × Header))} (hends : (h.searchLoop size).EndsIn k link r)
    (hk : k ≤ n) : h.search size n link = r.mapError .refused := by
  -- The induction is on the turns, and each of them takes one step at most.
  induction hends generalizing n with
  | @done link r turn =>
      cases n with
      | zero => omega
      | succ n =>
          rcases of_searchLoop_done turn with ⟨rfl, rfl⟩ | ⟨pos, rfl, hb, rfl⟩ |
            ⟨pos, b, rfl, hb, hfit, rfl⟩
          · rfl
          · rw [search, hb]
            rfl
          · rw [search, hb]
            exact if_pos hfit
  | @again k link next r turn rest ih =>
      cases n with
      | zero => omega
      | succ n =>
          rcases of_searchLoop_again turn with ⟨pos, b, rfl, hb, hfit, rfl⟩
          rw [search, hb]
          exact (if_neg hfit).trans (ih (by omega))

/-- A search that ends is the search that is made with as many steps as there
    are bytes. -/
theorem firstFit_of_ends {r : Except Error (Option (Nat × Header))}
    (hends : (h.searchLoop size).Ends (some h.first) r) :
    h.firstFit size = r.mapError .refused := by
  have hroom : 16 < N := h.room
  have hsize : Header.byteSize = 16 := rfl
  rcases hends with ⟨n, hn⟩
  have hle := endsIn_searchLoop_le hn
  exact search_of_endsIn hn (by omega)

end Heap

end Freestanding
