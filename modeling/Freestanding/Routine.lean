import Freestanding.CString.Compare
import Freestanding.CString.Tokens
import Freestanding.Errno

/-!
# Routines

A call of a string or memory routine as a value.

The routines have different arguments and different answers, but all of them
are called on a buffer and leave one. A call with its arguments, the buffer
apart, is a `Routine`, and `Routine.run` carries it out. That is how a sequence
of calls on one buffer can be held and run, wherever the buffer is: in a
variable, or in the payload of a block of a heap.

A routine that only reads leaves the buffer it was given.

## Main definitions

* `Routine`: A call without its buffer.
* `Routine.Answer`: What a call answers.
* `Routine.operand`, `Routine.withOperand`: The other buffer of a call.
* `Routine.writes`: Whether a call may change its buffer.
* `Routine.readsString`, `Routine.readsOperandString`: Whether a call ends
  where a string ends.
* `Routine.Answer.number?`: The number in an answer.
* `Routine.run`: Carrying out a call.

## Theorems

* `Routine.run_of_not_writes`: Reading leaves the buffer as it is.
-/

namespace Freestanding

/-- A call of a routine, without the buffer it is called on. -/
inductive Routine where
  | strlen
  | strnlen (n : Nat)
  | strchr (c : UInt8)
  | strrchr (c : UInt8)
  | memchr (c : UInt8)
  | memrchr (c : UInt8)
  | strcmp (t : Bytes)
  | strncmp (t : Bytes) (n : Nat)
  | memcmp (t : Bytes) (n : Nat)
  | strspn (t : Bytes)
  | strcspn (t : Bytes)
  | strpbrk (t : Bytes)
  | strstr (t : Bytes)
  | memmem (t : Bytes)
  | tokens (t : Bytes)
  | strcpy (t : Bytes)
  | strcat (t : Bytes)
  | strncpy (t : Bytes) (n : Nat)
  | strncat (t : Bytes) (n : Nat)
  | stpcpy (t : Bytes)
  | strlcpy (t : Bytes)
  | strlcat (t : Bytes)
  | stpncpy (t : Bytes) (n : Nat)
  | memcpy (t : Bytes) (n : Nat)
  | memset (c : UInt8)
  | memccpy (t : Bytes) (c : UInt8)
  | memmove (dest src n : Nat)
  | strerror_r (code : Int)
  deriving DecidableEq, Repr

namespace Routine

/-- The buffer that a call reads besides the one that it is called on. It has
    no bytes if there is none. -/
def operand : Routine → Bytes
  | strlen | strnlen _ | strchr _ | strrchr _ | memchr _ | memrchr _ => []
  | strcmp t | strncmp t _ | memcmp t _ => t
  | strspn t | strcspn t | strpbrk t | strstr t | memmem t | tokens t => t
  | strcpy t | strcat t | strncpy t _ | strncat t _ => t
  | stpcpy t | strlcpy t | strlcat t | stpncpy t _ | memcpy t _ | memccpy t _ => t
  | memset _ | memmove _ _ _ | strerror_r _ => []

/-- The call with another buffer in place of its operand, if it has one. -/
def withOperand (u : Bytes) : Routine → Routine
  | strcmp _ => strcmp u
  | strncmp _ n => strncmp u n
  | memcmp _ n => memcmp u n
  | strspn _ => strspn u
  | strcspn _ => strcspn u
  | strpbrk _ => strpbrk u
  | strstr _ => strstr u
  | memmem _ => memmem u
  | tokens _ => tokens u
  | strcpy _ => strcpy u
  | strcat _ => strcat u
  | strncpy _ n => strncpy u n
  | strncat _ n => strncat u n
  | stpcpy _ => stpcpy u
  | strlcpy _ => strlcpy u
  | strlcat _ => strlcat u
  | stpncpy _ n => stpncpy u n
  | memcpy _ n => memcpy u n
  | memccpy _ c => memccpy u c
  | r => r

/-- Whether a call reads the buffer that it is called on as a string, and does
    nothing else with it. -/
def readsString : Routine → Bool
  | strlen | strnlen _ | strchr _ | strrchr _ | strcmp _ | strncmp _ _ => true
  | strspn _ | strcspn _ | strpbrk _ | strstr _ | tokens _ => true
  | _ => false

/-- Whether a call reads its operand as a string. -/
def readsOperandString : Routine → Bool
  | strcmp _ | strncmp _ _ => true
  | strspn _ | strcspn _ | strpbrk _ | strstr _ | tokens _ => true
  | strcpy _ | strcat _ | strncpy _ _ | strncat _ _ => true
  | stpcpy _ | strlcpy _ | strlcat _ | stpncpy _ _ => true
  | _ => false

/-- What a call answers. -/
inductive Answer where
  /-- Nothing beyond having been carried out. -/
  | done
  /-- A length, an index or a number of bytes. -/
  | count (n : Nat)
  /-- An index, if there is one. -/
  | place (found : Option Nat)
  /-- The order of two buffers. -/
  | order (o : Ordering)
  /-- The pieces of a string. -/
  | pieces (tokens : List Bytes)
  /-- Whether the call did all it was asked to. -/
  | status (result : Except Int Unit)

/-- The length, the index or the number of bytes in an answer. -/
def Answer.number? : Answer → Option Nat
  | .count n => some n
  | .place found => found
  | _ => none

/-- Whether a call may change the buffer it is called on. -/
def writes : Routine → Bool
  | strlen | strnlen _ | strchr _ | strrchr _ | memchr _ | memrchr _ => false
  | strcmp _ | strncmp _ _ | memcmp _ _ => false
  | strspn _ | strcspn _ | strpbrk _ | strstr _ | memmem _ | tokens _ => false
  | strcpy _ | strcat _ | strncpy _ _ | strncat _ _ => true
  | stpcpy _ | strlcpy _ | strlcat _ | stpncpy _ _ | memcpy _ _ => true
  | memset _ | memccpy _ _ | memmove _ _ _ | strerror_r _ => true

/-- The answer of a call and the buffer it leaves. -/
def run (s : Bytes) : Routine → Checked (Answer × Bytes)
  | strlen => .ok (.count (CString.strlen s), s)
  | strnlen n => (CString.strnlen s n).map (.count ·, s)
  | strchr c => (CString.strchr s c).map (.place ·, s)
  | strrchr c => (CString.strrchr s c).map (.place ·, s)
  | memchr c => .ok (.place (Memory.memchr s c), s)
  | memrchr c => .ok (.place (Memory.memrchr s c), s)
  | strcmp t => (CString.strcmp s t).map (.order ·, s)
  | strncmp t n => (CString.strncmp s t n).map (.order ·, s)
  | memcmp t n => .ok (.order (Memory.memcmp s t n), s)
  | strspn t => (CString.strspn s t).map (.count ·, s)
  | strcspn t => (CString.strcspn s t).map (.count ·, s)
  | strpbrk t => (CString.strpbrk s t).map (.place ·, s)
  | strstr t => (CString.strstr s t).map (.place ·, s)
  | memmem t => (Memory.memmem s t).map (.place ·, s)
  | tokens t => (CString.split s t).map (.pieces ·, s)
  | strcpy t => (CString.strcpy s t).map (.done, ·)
  | strcat t => (CString.strcat s t).map (.done, ·)
  | strncpy t n => (CString.strncpy s t n).map (.done, ·)
  | strncat t n => (CString.strncat s t n).map (.done, ·)
  | stpcpy t => (CString.stpcpy s t).map (Prod.map .count id)
  | strlcpy t => (CString.strlcpy s t).map (Prod.map .count id)
  | strlcat t => (CString.strlcat s t).map (Prod.map .count id)
  | stpncpy t n => (CString.stpncpy s t n).map (Prod.map .count id)
  | memcpy t n => (Memory.memcpy s t n).map (Prod.map .count id)
  | memset c => .ok (.done, Memory.memset s c)
  | memccpy t c => (Memory.memccpy s t c).map (Prod.map .place id)
  | memmove dest src n => (Memory.memmove s dest src n).map (Prod.map .count id)
  | strerror_r code => (Errno.strerror_r code s).map (Prod.map .status id)

/-- An answer put beside a buffer leaves that buffer. -/
theorem eq_of_map_eq_ok {α : Type} {x : Checked α} {f : α → Answer} {s t : Bytes} {a : Answer}
    (h : x.map (f ·, s) = .ok (a, t)) : t = s := by
  cases x with
  | error e => cases h
  | ok v => cases h; rfl

/-- A call that only reads leaves the buffer it was given. -/
theorem run_of_not_writes {r : Routine} {s t : Bytes} {a : Answer} (h : r.writes = false)
    (hr : r.run s = .ok (a, t)) : t = s := by
  cases r with
  | strlen | memchr c | memrchr c | memcmp u n => cases hr; rfl
  | strnlen n | strchr c | strrchr c | strcmp u | strncmp u n | strspn u | strcspn u
  | strpbrk u | strstr u | memmem u | tokens u => exact eq_of_map_eq_ok hr
  | _ => cases h

end Routine

end Freestanding
