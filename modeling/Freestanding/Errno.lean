import Freestanding.CString.Copy

/-!
# Error Numbers

The numbers a program reports failures with, their names, and their
descriptions.

The numbering is this library's own. The names are in alphabetical order and
an error's number is its place in that order, counted from one, so a single
table holds everything there is to know: names, numbers and descriptions
cannot disagree. Zero is the number of no error. Numbers that no error has,
negative ones among them, share one description.

`strerror_r` writes a description into a buffer as a string. A description
that is cut off there is reported with `erange`, and the buffer holds what fit.

## Main definitions

* `Errno.table`: The names and descriptions, in the order of their numbers.
* `Errno.number?`: The number with a name.
* `Errno.count`: One more than the largest number.
* `Errno.strerror`: The description of a number.
* `Errno.strerror_r`: The description, written into a buffer.

## Theorems

* `Errno.number_enomem`, `Errno.number_erange`: The two numbers that the
  library itself reports.
* `Errno.strerror_of_neg`, `Errno.strerror_of_count_le`: Where descriptions
  end.
-/

namespace Freestanding

namespace Errno

/-- The names of the errors with their descriptions, from number one on. -/
def table : List (String × String) :=
  [ ("E2BIG", "Argument list too long"),
    ("EACCES", "Permission denied"),
    ("EADDRINUSE", "Address in use"),
    ("EADDRNOTAVAIL", "Address not available"),
    ("EAFNOSUPPORT", "Address family not supported"),
    ("EAGAIN", "Resource temporarily unavailable"),
    ("EALREADY", "Connection already in progress"),
    ("EBADF", "Bad file descriptor"),
    ("EBADMSG", "Bad message"),
    ("EBUSY", "Device or resource busy"),
    ("ECANCELED", "Operation canceled"),
    ("ECHILD", "No child processes"),
    ("ECONNABORTED", "Connection aborted"),
    ("ECONNREFUSED", "Connection refused"),
    ("ECONNRESET", "Connection reset"),
    ("EDEADLK", "Resource deadlock avoided"),
    ("EDESTADDRREQ", "Destination address required"),
    ("EDOM", "Mathematics argument out of domain"),
    ("EDQUOT", "Disk quota exceeded"),
    ("EEXIST", "File exists"),
    ("EFAULT", "Bad address"),
    ("EFBIG", "File too large"),
    ("EHOSTUNREACH", "Host is unreachable"),
    ("EIDRM", "Identifier removed"),
    ("EILSEQ", "Illegal byte sequence"),
    ("EINPROGRESS", "Operation in progress"),
    ("EINTR", "Interrupted function call"),
    ("EINVAL", "Invalid argument"),
    ("EIO", "I/O error"),
    ("EISCONN", "Socket is connected"),
    ("EISDIR", "Is a directory"),
    ("ELOOP", "Too many levels of symbolic links"),
    ("EMFILE", "Too many open files"),
    ("EMLINK", "Too many links"),
    ("EMSGSIZE", "Message too large"),
    ("EMULTIHOP", "Multihop attempted"),
    ("ENAMETOOLONG", "Filename too long"),
    ("ENETDOWN", "Network is down"),
    ("ENETRESET", "Network reset"),
    ("ENETUNREACH", "Network unreachable"),
    ("ENFILE", "Too many open files in system"),
    ("ENOBUFS", "No buffer space available"),
    ("ENODEV", "No such device"),
    ("ENOENT", "No such file or directory"),
    ("ENOEXEC", "Exec format error"),
    ("ENOLCK", "No locks available"),
    ("ENOLINK", "Link has been severed"),
    ("ENOMEM", "Not enough memory"),
    ("ENOMSG", "No message of the desired type"),
    ("ENOPROTOOPT", "Protocol not available"),
    ("ENOSPC", "No space left on device"),
    ("ENOSYS", "Function not implemented"),
    ("ENOTCONN", "Socket is not connected"),
    ("ENOTDIR", "Not a directory"),
    ("ENOTEMPTY", "Directory not empty"),
    ("ENOTRECOVERABLE", "State not recoverable"),
    ("ENOTSOCK", "Not a socket"),
    ("ENOTSUP", "Operation not supported"),
    ("ENOTTY", "Inappropriate I/O control operation"),
    ("ENXIO", "No such device or address"),
    ("EOPNOTSUPP", "Operation not supported on socket"),
    ("EOVERFLOW", "Value too large to be stored in data type"),
    ("EOWNERDEAD", "Owner died"),
    ("EPERM", "Operation not permitted"),
    ("EPIPE", "Broken pipe"),
    ("EPROTO", "Protocol error"),
    ("EPROTONOSUPPORT", "Protocol not supported"),
    ("EPROTOTYPE", "Protocol wrong type for socket"),
    ("ERANGE", "Result too large"),
    ("EROFS", "Read-only file system"),
    ("ESOCKTNOSUPPORT", "Socket type not supported"),
    ("ESPIPE", "Invalid seek"),
    ("ESRCH", "No such process"),
    ("ESTALE", "Stale file handle"),
    ("ETIMEDOUT", "Connection timed out"),
    ("ETXTBSY", "Text file busy"),
    ("EWOULDBLOCK", "Operation would block"),
    ("EXDEV", "Cross-device link")
  ]

/-- The number of the error with this name. -/
def number? (name : String) : Option Nat :=
  (table.findIdx? fun entry => entry.1 == name).map (· + 1)

/-- One more than the largest error number. -/
def count : Nat := table.length + 1

/-- Memory is exhausted. -/
def enomem : Int := 48

/-- A result does not fit where it is to be put. -/
def erange : Int := 69

/-- The description of numbers that no error has. -/
def unknown : String := "Unknown error"

/-- The description of every number, from zero on. -/
def descriptions : List String :=
  "Success" :: table.map (·.2)

/-- The description of a number. -/
def strerror (code : Int) : String :=
  if code < 0 then unknown else descriptions.getD code.toNat unknown

/-- The bytes of the description of a number. -/
def text (code : Int) : Bytes :=
  (strerror code).toUTF8.data.toList

/-- Writes the description of a number into a buffer, cut off where it has to
    be, and reports with `erange` that it was. -/
def strerror_r (code : Int) (s : Bytes) : Checked (Except Int Unit × Bytes) := do
  let (needed, s) ← CString.strlcpy s (text code)
  if s.length ≤ needed then
    return (.error erange, s)
  else
    return (.ok (), s)

/-- There are seventy-eight errors. -/
theorem count_eq : count = 79 := rfl

theorem number_enomem : (number? "ENOMEM").map Int.ofNat = some enomem := by decide

theorem number_erange : (number? "ERANGE").map Int.ofNat = some erange := by decide

/-- No error has a negative number. -/
theorem strerror_of_neg {code : Int} (h : code < 0) : strerror code = unknown :=
  if_pos h

/-- No error has a number from `count` on. -/
theorem strerror_of_count_le {code : Int} (h : (count : Int) ≤ code) :
    strerror code = unknown := by
  have hlen : descriptions.length = count := rfl
  have hout : descriptions.length ≤ code.toNat := by omega
  have hneg : ¬ code < 0 := by omega
  rw [strerror, if_neg hneg, List.getD_eq_getElem?_getD,
    List.getElem?_eq_none hout, Option.getD_none]

end Errno

end Freestanding
