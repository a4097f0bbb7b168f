/-!
# Hexadecimal Text

How an offset is written for people: `0x`, then the digits in base sixteen,
letters in lower case and no zeros in front.

## Main definitions

* `hex`: The text of a number.
-/

namespace Freestanding

/-- The number in base sixteen, after `0x`. -/
def hex (n : Nat) : String :=
  "0x" ++ String.ofList (Nat.toDigits 16 n)

/-- Zero has one digit. -/
example : hex 0 = "0x0" := by decide

/-- Letters are lower case and no digit is added in front. -/
example : hex 0xab0 = "0xab0" := by decide

end Freestanding
