import Mathlib.Data.List.Basic

/-!
# Strings of the user library

The string functions of `ulib.c` that path handling uses. A C string is the list of the bytes before its terminating 0; a
32-bit unsigned value is a natural number, reduced with `wrap32` where the C arithmetic can leave the range.
-/

namespace NanoS32

/-- A C string: the bytes before the terminating 0. -/
abbrev CStr : Type := List UInt8

/-- Reduction of a result to 32 bits. -/
def wrap32 (n : Nat) : Nat := n % 4294967296

/-- 32-bit subtraction. -/
def sub32 (a b : Nat) : Nat := wrap32 (a + 4294967296 - b)

/-- `noError` .. `errorNotFound`: the special error codes of `ulib.h`. -/
def noError : Nat := 0x00000000
def errorAny : Nat := 0xFFFFFFFA
def errorNotAvailable : Nat := 0xFFFFFFFB
def errorNoSpace : Nat := 0xFFFFFFFC
def errorIo : Nat := 0xFFFFFFFD
def errorExists : Nat := 0xFFFFFFFE
def errorNotFound : Nat := 0xFFFFFFFF
def unknownValue : Nat := 0xFFFFFFFF

/-- `strncpy`: the string a buffer of `n` bytes holds after the copy. -/
def strncpy (src : CStr) (n : Nat) : CStr := src.take (n - 1)

/-- `strncat`: the string a buffer of `n` bytes holds after the concatenation. -/
def strncat (dst src : CStr) (n : Nat) : CStr := dst ++ src.take (n - 1 - dst.length)

/-- `strtok`: the number of delimiters skipped before the first token, the token, and the string after the delimiter that
ends it. -/
def strtok (src : CStr) (delim : UInt8) : Nat × CStr × CStr :=
  let skipped := (src.takeWhile (· == delim)).length
  let tok := (src.drop skipped).takeWhile (· != delim)
  (skipped, tok, src.drop (skipped + tok.length + 1))

end NanoS32
