import NanoS32.Ulib.Mem
import NanoS32.Ulib.Str

/-!
# Tokens in memory

`strtok` of `ulib.c` on the memory that it changes, and the loop with which its callers go through all the tokens of a string. A
pointer is an address. The loops end at a 0 in the memory: a bound stands for them, and there is no result where it is used up.
-/

namespace NanoS32

namespace Mem

/-- A string with the 0 that ends it is stored at `p`. -/
def HasStr (m : Mem) (p : Nat) (str : CStr) : Prop := 0 ∉ str ∧ ∀ i ≤ str.length, m (p + i) = str.getD i 0

/-- `while(*src == delim)`: clear the delimiters at `src`. -/
def skipLoop (delim : UInt8) : Nat → Mem → Nat → Option (Mem × Nat)
  | 0, _, _ => none
  | fuel + 1, m, src => if m src = delim then skipLoop delim fuel (m.set src 0) (src + 1) else some (m, src)

/-- `while(*s)`: the memory with the end of the token cleared, and the address behind it. -/
def endLoop (delim : UInt8) : Nat → Mem → Nat → Option (Mem × Nat)
  | 0, _, _ => none
  | fuel + 1, m, s =>
    if m s = 0 then some (m, s)
    else if m s = delim then some (m.set s 0, s + 1)
    else endLoop delim fuel m (s + 1)

/-- `strtok`: the memory, the token, and what it stores in `*next`. -/
def strtok (fuel : Nat) (m : Mem) (src : Nat) (delim : UInt8) : Option (Mem × Nat × Nat) := do
  let (m, src) ← skipLoop delim fuel m src
  let (m, next) ← endLoop delim fuel m src
  some (m, src, next)

/-- The loop over the tokens of a string, with the tokens that have been kept. -/
def tokensLoop (bound : Nat) (delim : UInt8) : Nat → Mem → Nat → Nat → List Nat → Option (Mem × List Nat)
  | 0, _, _, _, _ => none
  | fuel + 1, m, tok, nexttok, toks =>
    if m tok ≠ 0 ∧ m nexttok ≠ 0 then do
      let (m, tok, nexttok) ← m.strtok bound tok delim
      tokensLoop bound delim fuel m nexttok nexttok (if m tok ≠ 0 then toks ++ [tok] else toks)
    else some (m, toks)

/-- The tokens of the string at `str`, with which every caller starts its loop. -/
def tokens (bound : Nat) (m : Mem) (str : Nat) (delim : UInt8) : Option (Mem × List Nat) :=
  tokensLoop bound delim bound m str str []

end Mem

end NanoS32
