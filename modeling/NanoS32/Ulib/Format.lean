import NanoS32.Ulib.Ip
import NanoS32.Ulib.Mem

/-!
# Formatting in memory

`formatstr` of `ulib.c` on the memory that it writes, with a record of the addresses that it reads and writes through its pointer to
the buffer. The loop of `strlen` ends at a 0 in the memory: a bound stands for it, and there is no result where it is used up.
-/

namespace NanoS32

/-- The conversions of a format with an argument of their kind, in order: the character, the count of digits and the argument. -/
def formatConversions : Nat → CStr → List FormatArg → Nat → List (UInt8 × Nat × FormatArg)
  | 0, _, _, _ => []
  | _ + 1, [], _, _ => []
  | fuel + 1, ch :: format, args, count =>
    if ch = 37 then
      let (nDigits, rest) := formatWidth format 0
      match args, rest with
      | arg :: args, conv :: rest =>
        match formatConversion conv nDigits count arg with
        | some out => (conv, nDigits, arg) :: formatConversions fuel rest args (count + out.length)
        | none => formatConversions fuel (conv :: rest) args count
      | args, rest => formatConversions fuel rest args count
    else formatConversions fuel format args (count + 1)

/-- What `formatstr_putf` writes to its local array `digit` for one conversion after the other. -/
def formatPutfWrites (format : CStr) (args : List FormatArg) : List (Int × UInt8) :=
  (formatConversions format.length format args 0).flatMap fun (conv, nDigits, arg) =>
    match arg with
    | .num value => formatWrites conv nDigits value
    | .str _ => []

namespace Mem

/-- `strlen`: the count of characters before the first 0, with `len` of them counted. -/
def strlenLoop (m : Mem) (str : Nat) : Nat → Nat → Option Nat
  | 0, _ => none
  | fuel + 1, len => if m (str + len) ≠ 0 then strlenLoop m str fuel (len + 1) else some len

/-- The memory, and the addresses that have been read and written. -/
abbrev Traced : Type := Mem × List Nat

/-- `ststr[min(strlen(ststr), ststr_size-1)] = c`. -/
def stcatchar (bound ststr ststrSize : Nat) (t : Traced) (c : UInt8) : Option Traced := do
  let len ← strlenLoop t.1 ststr bound 0
  let place := ststr + min len (ststrSize - 1)
  some (t.1.set place c, t.2 ++ List.range' ststr (len + 1) ++ [place])

/-- `formatstr`: the memory after it, and the addresses that it has read and written. -/
def formatstr (bound : Nat) (m : Mem) (str size : Nat) (format : CStr) (args : List FormatArg) : Option Traced := do
  let t ← (formatPutf format.length format args 0).foldlM (stcatchar bound str size)
    (m.memset str 0 size, List.range' str size)
  stcatchar bound str size t 0

end Mem

end NanoS32
