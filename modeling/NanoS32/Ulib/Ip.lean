import NanoS32.Net.Wire
import NanoS32.Ulib.Str

/-!
# Numbers and addresses as text

The functions of `ulib.c` that format a string and that read a number or an IP address. The buffers that `formatstr` writes to
and that `str_to_ip` copies to are modelled by their size.
-/

namespace NanoS32

/-! ## Formatting -/

/-- An argument of `formatstr`. -/
inductive FormatArg where
  | num (value : Nat)
  | str (value : CStr)

/-- A digit, as `formatstr_putf` writes it. -/
def formatDigit (d : Nat) : UInt8 := if d ≤ 9 then UInt8.ofNat (48 + d) else UInt8.ofNat (65 + d - 10)

/-- The loop of `formatstr_putf` over the digits of a number, the last first, with `n` digits in `acc`. There are at most 23 digits,
or as many as are asked for. -/
def formatDigits (base nDigits : Nat) : Nat → Nat → Nat → CStr → CStr
  | 0, _, _, acc => acc
  | fuel + 1, value, n, acc =>
    let acc := formatDigit (value % base) :: acc
    let value := value / base
    if (value ≠ 0 ∧ n + 1 < 23) ∨ n + 1 < nDigits then formatDigits base nDigits fuel value (n + 1) acc else acc

/-- The same loop on its local array `digit`, of `D_STR_SIZE` = 24 characters with a 0 in the last: the places it writes and what
it puts there, in order. A place below 0 is before the array. -/
def digitWrites (base nDigits : Nat) : Nat → Nat → Nat → List (Int × UInt8)
  | 0, _, _ => []
  | fuel + 1, value, n =>
    (24 - 1 - (n + 1 : Int), formatDigit (value % base)) ::
      if (value / base ≠ 0 ∧ n + 1 < 23) ∨ n + 1 < nDigits then digitWrites base nDigits fuel (value / base) (n + 1) else []

/-- The number that a format asks for as the count of digits, and the format after it. -/
def formatWidth : CStr → Nat → Nat × CStr
  | [], n => (n, [])
  | ch :: format, n => if 48 ≤ ch ∧ ch ≤ 57 then formatWidth format (wrap32 (n * 10 + (ch.toNat - 48))) else (n, ch :: format)

/-- The characters a conversion `%d`, `%u`, `%x`, `%s` or `%c` writes, after `count` characters, or none for another one. -/
def formatConversion (conv : UInt8) (nDigits count : Nat) (arg : FormatArg) : Option CStr :=
  match arg with
  | .str value => if conv = 115 then some value else none
  | .num value =>
    if conv = 100 then
      if 2147483648 ≤ value then some (45 :: formatDigits 10 nDigits (23 + nDigits) (sub32 0 value) 0 [])
      else some (formatDigits 10 nDigits (23 + nDigits) value 0 [])
    else if conv = 117 then some (formatDigits 10 nDigits (23 + nDigits) value 0 [])
    else if conv = 120 then
      let nDigits := if nDigits = 0 then 8 else nDigits
      some (48 :: 120 :: formatDigits 16 nDigits (23 + nDigits) value 0 [])
    else if conv = 99 then
      if nDigits = 0 then some [UInt8.ofNat value] else some (List.replicate (nDigits - count) (UInt8.ofNat value))
    else none

/-- What a conversion of a number writes to `digit`. -/
def formatWrites (conv : UInt8) (nDigits value : Nat) : List (Int × UInt8) :=
  if conv = 100 then digitWrites 10 nDigits (23 + nDigits) (if 2147483648 ≤ value then sub32 0 value else value) 0
  else if conv = 117 then digitWrites 10 nDigits (23 + nDigits) value 0
  else if conv = 120 then
    let nDigits := if nDigits = 0 then 8 else nDigits
    digitWrites 16 nDigits (23 + nDigits) value 0
  else []

/-- `formatstr_putf`: the characters it puts, after `count` characters. A turn takes at least one character of the format. -/
def formatPutf : Nat → CStr → List FormatArg → Nat → CStr
  | 0, _, _, _ => []
  | _ + 1, [], _, _ => []
  | fuel + 1, ch :: format, args, count =>
    if ch = 37 then
      let (nDigits, rest) := formatWidth format 0
      match args, rest with
      | arg :: args, conv :: rest =>
        match formatConversion conv nDigits count arg with
        | some out => out ++ formatPutf fuel rest args (count + out.length)
        | none => formatPutf fuel (conv :: rest) args count
      | args, rest => formatPutf fuel rest args count
    else ch :: formatPutf fuel format args (count + 1)

/-- `stcatchar`: put a character at the end of the string in a buffer of `size` bytes, or in its last place. -/
def stcatchar (size : Nat) (str : CStr) (ch : UInt8) : CStr := str.take (size - 1) ++ [ch]

/-- `formatstr`: the string in a buffer of `size` bytes. -/
def formatstr (size : Nat) (format : CStr) (args : List FormatArg) : CStr :=
  ((formatPutf format.length format args 0).foldl (stcatchar size) []).take (size - 1)

/-! ## Reading numbers -/

/-- A `char` as an `int`: it is signed. -/
def charValue (ch : UInt8) : Nat := if ch.toNat < 128 then ch.toNat else ch.toNat + 4294967040

/-- The digit that `stou` reads. -/
def stouDigit (ch : UInt8) : Nat :=
  if ch ≤ 57 ∨ 128 ≤ ch then sub32 (charValue ch) 48
  else if 97 ≤ ch then sub32 (10 + charValue ch) 97
  else sub32 (10 + charValue ch) 65

/-- The loop of `stou`. -/
def stouLoop (base : Nat) : CStr → Nat → Nat
  | [], value => value
  | ch :: src, value => stouLoop base src (wrap32 (value * base + stouDigit ch))

/-- `stou`. -/
def stou (src : CStr) : Nat :=
  match src with
  | 48 :: 120 :: src => stouLoop 16 src 0
  | src => stouLoop 10 src 0

/-! ## Addresses -/

/-- The loop of `str_to_ip`, at byte `i` of the address. Every turn takes at least one character of the string. -/
def strToIpLoop : Nat → CStr → Nat → Ip → Ip
  | 0, _, _, ip => ip
  | fuel + 1, tok, i, ip =>
    if tok ≠ [] ∧ i < 4 then
      let (_, tok, nexttok) := strtok tok 46
      if tok ≠ [] then strToIpLoop fuel nexttok (i + 1) fun k => if k.val = i then UInt8.ofNat (stou tok) else ip k
      else strToIpLoop fuel nexttok i ip
    else ip

/-- `str_to_ip`: the address, which keeps the bytes that the string has no number for. -/
def strToIp (ip : Ip) (str : CStr) : Ip :=
  let tokStr := strncpy str 24
  strToIpLoop tokStr.length tokStr 0 ip

/-- `"%u.%u.%u.%u"`. -/
def ipFormat : CStr := [37, 117, 46, 37, 117, 46, 37, 117, 46, 37, 117]

/-- `ip_to_str`. -/
def ipToStr (ip : Ip) : CStr := formatstr 16 ipFormat ((List.ofFn ip).map fun v => .num v.toNat)

end NanoS32
