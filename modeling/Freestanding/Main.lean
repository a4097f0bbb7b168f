import Freestanding.Walkthrough

/-!
# The Command

Prints the walk through the heap and ends with its status.

## Main definitions

* `main`: The command.
-/

/-- Prints the walk through the heap. The answer is the status it ends with. -/
def main : IO UInt32 := do
  IO.print Freestanding.Walkthrough.text
  return UInt32.ofNat Freestanding.Walkthrough.transcript.2.toNat
