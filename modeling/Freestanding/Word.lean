import Freestanding.Fault

/-!
# Machine Words

Sums and differences that have to fit in 64 bits.

Lengths, offsets and counts are natural numbers throughout, because that is
what they are: the facts about them are facts of arithmetic and `omega`
settles them. The machine has words instead, and the difference shows where a
sum needs a 65th bit or a difference falls below zero. Those places are written
with `Word.add` and `Word.sub`, which agree with `+` and `-` as long as the
result is a word and fault otherwise.

## Main definitions

* `Word.limit`: The number of words.
* `Word.add`: A sum that must fit in a word.
* `Word.sub`: A difference that must not be negative.
* `Word.wrap`: An integer reduced to a word.

## Theorems

* `Word.add_eq_ok`: A sum below the limit is the sum.
* `Word.sub_eq_ok`: A difference of a smaller number is the difference.
-/

namespace Freestanding

namespace Word

/-- One more than the largest word: a word has 64 bits. -/
def limit : Nat := 0x10000000000000000

/-- The sum of two words, which must be a word. -/
def add (a b : Nat) : Checked Nat :=
  if a + b < limit then .ok (a + b) else .error .overflow

/-- The difference of two words, which must not be negative. -/
def sub (a b : Nat) : Checked Nat :=
  if b ≤ a then .ok (a - b) else .error .underflow

/-- An integer counted around the circle of words. -/
def wrap (i : Int) : Nat := (i % (limit : Int)).toNat

/-- A sum below the limit is the sum. -/
theorem add_eq_ok {a b : Nat} (h : a + b < limit) : add a b = .ok (a + b) :=
  if_pos h

/-- A difference of a number that is not larger is the difference. -/
theorem sub_eq_ok {a b : Nat} (h : b ≤ a) : sub a b = .ok (a - b) :=
  if_pos h

end Word

end Freestanding
