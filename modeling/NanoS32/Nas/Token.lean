import NanoS32.Ulib.Ip

/-!
# The text of the assembler

How `nas.c` reads its source file: a line at a time into a buffer, the line cut into tokens, and the tokens that are numbers. The
functions that take a part of the buffer get the string in it, up to its 0.
-/

namespace NanoS32

/-! ## Numbers -/

/-- The loop of `sisu`. -/
def sisuLoop (base : Nat) : CStr → Bool
  | [] => true
  | ch :: src => if base ≤ stouDigit ch then false else sisuLoop base src

/-- `sisu`: is the string a number? -/
def sisu (src : CStr) : Bool :=
  match src with
  | [] => false
  | 48 :: 120 :: ch :: src => sisuLoop 16 (ch :: src)
  | src => sisuLoop 10 src

/-! ## Lines -/

/-- `sizeof(fbuff)`, and the size of `tokv`. -/
def fbuffSize : Nat := 2048
def maxTok : Nat := 32

/-- The results of `read_line` other than an offset. -/
inductive LineError where
  | eof
  | any
  deriving DecidableEq, Repr

/-- The loop of `read_line`, with the bytes that are read: the line, and the number of bytes it takes. A line that the file ends
in the middle of is clamped after its last byte. -/
def clampLine (full : Bool) : List UInt8 → Option (List UInt8 × Nat)
  | [] => none
  | ch :: rest =>
    let ch := if ch = 13 then 32 else ch
    if ch = 10 then some ([], 1)
    else if rest = [] ∧ ¬full then some ([ch], 1)
    else (clampLine full rest).map fun p => (ch :: p.1, p.2 + 1)

/-- `read_line`, for a file with these bytes: the string in the buffer, and the offset of the next line. -/
def readLine (file : List UInt8) (offset : Nat) : Except LineError (CStr × Nat) :=
  let buff := (file.drop offset).take fbuffSize
  if buff = [] then .error .eof
  else
    match clampLine (buff.length = fbuffSize) buff with
    | some (line, n) => .ok (line.takeWhile (· ≠ 0), offset + n)
    | none => .error .any

/-! ## Tokens -/

/-- `' '`, `'\t'` and `','`. -/
def isSeparator (ch : UInt8) : Bool := ch = 32 ∨ ch = 9 ∨ ch = 44

/-- `';'`. -/
def semicolon : UInt8 := 59

/-- `tokenize_line`, with room for as many tokens: the strings that they are at the end. A token is ended when the loop goes on to
the next one, so the one that takes the last place goes on to the end of the line. -/
def tokenizeLine : Nat → CStr → List CStr
  | 0, _ => []
  | room + 1, buff =>
    let buff := buff.dropWhile isSeparator
    let tok := buff.takeWhile fun ch => !isSeparator ch && ch != semicolon
    let rest := buff.drop tok.length
    if tok = [] then []
    else (if room = 0 then buff else tok) :: tokenizeLine room rest

end NanoS32
