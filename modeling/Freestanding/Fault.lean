/-!
# Faults

What it means, in this library, for a computation to break a rule of the
machine it is written for.

The routines here work on byte buffers and on 64-bit words. A range can be
taken that its buffer does not have, two ranges of different lengths can be
copied onto each other, runs of no bytes can be looked for, a sum can outgrow
a word, and a walk along links can run in circles. None of these is an answer
of the library: a caller can do nothing about them, and a correct routine never
gets there. They are kept apart from the refusals a caller is expected to
handle, such as a heap that has no room left.

Every step that could break such a rule is written in `Checked`, where doing
so is a value. That is what makes it possible to say that a routine never
faults, as opposed to saying it with definitions under which faulting has no
meaning.

## Main definitions

* `Fault`: The rules a step can break.
* `Checked`: A computation that answers or faults.

## Theorems

* `Checked.ok_bind`: A step that answered passes its answer on.
-/

namespace Freestanding

/-- A rule of the machine that a step can break. -/
inductive Fault where
  /-- A range or an index reaches outside the buffer it is taken from. -/
  | outOfRange
  /-- Two ranges of different lengths are copied onto each other. -/
  | lengthMismatch
  /-- A buffer is gone through in runs that have no bytes. -/
  | emptyRun
  /-- A sum does not fit in a machine word. -/
  | overflow
  /-- A difference would be negative. -/
  | underflow
  /-- A walk along links came back to where it had been. -/
  | endless
  deriving DecidableEq, Repr

/-- A computation that answers, or faults at the first step that breaks a
    rule. -/
abbrev Checked (α : Type) : Type := Except Fault α

namespace Checked

/-- Answering at once is answering. -/
@[simp] theorem pure_eq_ok {α : Type} (a : α) :
    (pure a : Checked α) = .ok a := rfl

/-- A step that answered passes its answer on. -/
@[simp] theorem ok_bind {α β : Type} (a : α) (f : α → Checked β) :
    ((.ok a : Checked α) >>= f) = f a := rfl

end Checked

end Freestanding
