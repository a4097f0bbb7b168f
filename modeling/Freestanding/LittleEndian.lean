import Freestanding.Bytes

/-!
# Little-Endian Numbers

Natural numbers as bytes, the least significant byte first.

A number is written with a given number of bytes, and what does not fit is
lost: writing keeps the number modulo the number of values that so many bytes
have, and reading back gives that remainder. In the other direction nothing is
lost at all, since every list of bytes is the way some number is written.

## Main definitions

* `LittleEndian.encode`: A number in so many bytes.
* `LittleEndian.decode`: The number that bytes stand for.
* `LittleEndian.values`: How many numbers so many bytes have.

## Theorems

* `LittleEndian.length_encode`: How many bytes are written.
* `LittleEndian.decode_lt`: How large a number bytes can stand for.
* `LittleEndian.decode_encode`: Reading back gives the remainder.
* `LittleEndian.encode_decode`: Writing back gives the bytes.
-/

namespace Freestanding

namespace LittleEndian

/-- The `k` lowest bytes of a number. -/
def encode : Nat → Nat → Bytes
  | 0, _ => []
  | k + 1, n => UInt8.ofNat n :: encode k (n / 256)

/-- How many numbers there are with `k` bytes, which is a power of 256. -/
def values : Nat → Nat
  | 0 => 1
  | k + 1 => 256 * values k

/-- The number that bytes stand for. -/
def decode : Bytes → Nat
  | [] => 0
  | b :: s => b.toNat + 256 * decode s

/-- As many bytes are written as were asked for. -/
@[simp] theorem length_encode (k n : Nat) : (encode k n).length = k := by
  induction k generalizing n with
  | zero => rfl
  | succ k ih => rw [encode, List.length_cons, ih]

/-- More bytes have more values. -/
theorem values_mono {k m : Nat} (h : k ≤ m) : values k ≤ values m := by
  induction h with
  | refl => exact Nat.le_refl _
  | @step m _ ih =>
      rw [values]
      omega

/-- Bytes stand for one of the numbers that so many bytes have. -/
theorem decode_lt (s : Bytes) : decode s < values s.length := by
  induction s with
  | nil => exact Nat.one_pos
  | cons b s ih =>
      have hb := b.toNat_lt
      rw [decode, List.length_cons, values]
      omega

/-- Reading back what was written gives the number, without the part that had
    no room. -/
theorem decode_encode (k n : Nat) : decode (encode k n) = n % values k := by
  induction k generalizing n with
  | zero =>
      rw [values, Nat.mod_one]
      rfl
  | succ k ih =>
      have hb : (UInt8.ofNat n).toNat = n % 256 := UInt8.toNat_ofNat'
      rw [encode, decode, ih, hb, values, Nat.mod_mul]

/-- Writing back what was read gives the bytes. -/
theorem encode_decode (s : Bytes) : encode s.length (decode s) = s := by
  induction s with
  | nil => rfl
  | cons b s ih =>
      have hb := b.toNat_lt
      have hdiv : (b.toNat + 256 * decode s) / 256 = decode s := by omega
      have hmod : UInt8.ofNat (b.toNat + 256 * decode s) = b := by
        apply UInt8.toNat_inj.mp
        rw [UInt8.toNat_ofNat']
        omega
      rw [decode, List.length_cons, encode, hdiv, hmod, ih]

end LittleEndian

end Freestanding
