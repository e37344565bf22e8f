import Mathlib.Data.UInt

/-!
# The keyboard

`kb_get` and `io_getkey` of `hwio.c`. A poll is what the two ports of the keyboard controller have when `kb_get` is called; the
static variable `shift` is passed from one call to the next.
-/

namespace NanoS32

/-- `KB_DATA_IN_BUFF`. -/
def kbDataInBuff : UInt8 := 0x01

/-- `SHIFT`. -/
def kbShift : BitVec 32 := 1 <<< 0

/-- `CTL`. -/
def kbCtl : BitVec 32 := 1 <<< 1

/-- `ALT`. -/
def kbAlt : BitVec 32 := 1 <<< 2

/-- `CAPSLOCK`. -/
def kbCapslock : BitVec 32 := 1 <<< 3

/-- `NUMLOCK`, which is also the first value of `shift`. -/
def kbNumlock : BitVec 32 := 1 <<< 4

/-- `SCROLLLOCK`. -/
def kbScrolllock : BitVec 32 := 1 <<< 5

/-- `E0ESC`. -/
def kbE0esc : BitVec 32 := 1 <<< 6

/-- The table `shift_code`. -/
def shiftCode (data : UInt8) : BitVec 32 :=
  ([(0x1D, kbCtl), (0x2A, kbShift), (0x36, kbShift), (0x38, kbAlt), (0x9D, kbCtl), (0xB8, kbAlt)].lookup data).getD 0

/-- The table `toggle_code`. -/
def toggleCode (data : UInt8) : BitVec 32 :=
  ([(0x3A, kbCapslock), (0x45, kbNumlock), (0x46, kbScrolllock)].lookup data).getD 0

/-- A table of characters: its first entries, and those that are given with their codes. -/
def scanMap (first : List UInt8) (coded : List (UInt8 × UInt8)) (data : UInt8) : UInt8 :=
  (coded.lookup data).getD (first.getD data.toNat 0)

/-- The entries of the special keys, and of the `/` of the keypad. -/
def codedKeys (slash : UInt8) : List (UInt8 × UInt8) :=
  [(0x9C, 0x0D), (0xB5, slash), (0xC8, 0xE7), (0xD0, 0xEA), (0xC9, 0xE5), (0xD1, 0xE4), (0xCB, 0xE8), (0xCD, 0xE9), (0x97, 0xE2),
    (0xCF, 0xE1), (0xD2, 0xE3), (0xD3, 0xE0)]

/-- The table `normal_map`. -/
def normalMap : UInt8 → UInt8 :=
  scanMap
    [0, 0x1B, 49, 50, 51, 52, 53, 54,
      55, 56, 57, 48, 45, 61, 0x08, 0x09,
      113, 119, 101, 114, 116, 121, 117, 105, -- `qwertyui`
      111, 112, 91, 93, 0x0D, 0, 97, 115,
      100, 102, 103, 104, 106, 107, 108, 59,
      39, 96, 0, 92, 122, 120, 99, 118,
      98, 110, 109, 44, 46, 47, 0, 42,
      0, 32, 0, 0xF1, 0xF2, 0xF3, 0xF4, 0xF5,
      0xF6, 0xF7, 0xF8, 0xF9, 0xFA, 0, 0, 55,
      56, 57, 45, 52, 53, 54, 43, 49,
      50, 51, 48, 46, 0, 0, 0, 0xFB,
      0xFC]
    (codedKeys 47)

/-- The table `shift_map`. -/
def shiftMap : UInt8 → UInt8 :=
  scanMap
    [0, 0x1B, 33, 64, 35, 36, 37, 94,
      38, 42, 40, 41, 95, 43, 0x08, 0x09,
      81, 87, 69, 82, 84, 89, 85, 73, -- `QWERTYUI`
      79, 80, 123, 125, 0x0D, 0, 65, 83,
      68, 70, 71, 72, 74, 75, 76, 58,
      34, 126, 0, 124, 90, 88, 67, 86,
      66, 78, 77, 60, 62, 63, 0, 42,
      0, 32, 0, 0, 0, 0, 0, 0,
      0, 0, 0, 0, 0, 0, 0, 55,
      56, 57, 45, 52, 53, 54, 43, 49,
      50, 51, 48, 46, 0, 0, 0, 0]
    (codedKeys 47)

/-- `C(x)`, the character of a key with control. -/
def ctlChar (x : UInt8) : UInt8 := x - 64

/-- The table `ctl_map`. -/
def ctlMap : UInt8 → UInt8 :=
  scanMap
    [0, 0, 0, 0, 0, 0, 0, 0,
      0, 0, 0, 0, 0, 0, 0, 0,
      ctlChar 81, ctlChar 87, ctlChar 69, ctlChar 82, ctlChar 84, ctlChar 89, ctlChar 85, ctlChar 73,
      ctlChar 79, ctlChar 80, 0, 0, 0x0D, 0, ctlChar 65, ctlChar 83,
      ctlChar 68, ctlChar 70, ctlChar 71, ctlChar 72, ctlChar 74, ctlChar 75, ctlChar 76, 0,
      0, 0, 0, ctlChar 92, ctlChar 90, ctlChar 88, ctlChar 67, ctlChar 86,
      ctlChar 66, ctlChar 78, ctlChar 77, 0, 0, ctlChar 47, 0, 0]
    (codedKeys (ctlChar 47))

/-- The table `charcode`, whose index is `shift & (CTL | SHIFT)`. -/
def charcode (index : BitVec 32) : UInt8 → UInt8 :=
  [normalMap, shiftMap, ctlMap, ctlMap].getD index.toNat ctlMap

/-- "Handle CAPSLOCK enabled". -/
def capsCase (c : UInt8) : UInt8 :=
  if 97 ≤ c ∧ c ≤ 122 then c + (65 - 97)
  else if 65 ≤ c ∧ c ≤ 90 then c + (97 - 65)
  else c

/-- The ports `KB_PORT_STATUS` and `KB_PORT_DATA`. -/
structure KbPoll where
  status : UInt8
  data : UInt8

/-- The part of `kb_get` that is for a byte of the keyboard: the character or 0, and `shift`. -/
def kbDecode (data : UInt8) (shift : BitVec 32) : UInt8 × BitVec 32 :=
  if data = 0xE0 then (0, shift ||| kbE0esc)
  else if data &&& 0x80 ≠ 0 then
    let data := if shift &&& kbE0esc ≠ 0 then data else data &&& 0x7F
    (0, shift &&& ~~~(shiftCode data ||| kbE0esc))
  else
    let index := if shift &&& kbE0esc ≠ 0 then data ||| 0x80 else data
    let shift := if shift &&& kbE0esc ≠ 0 then shift &&& ~~~kbE0esc else shift
    let shift := shift ||| shiftCode index
    let shift := shift ^^^ toggleCode index
    let c := charcode (shift &&& (kbCtl ||| kbShift)) index
    (if shift &&& kbCapslock ≠ 0 then capsCase c else c, shift)

/-- `kb_get`. -/
def kbGet (poll : KbPoll) (shift : BitVec 32) : UInt8 × BitVec 32 :=
  if poll.status &&& kbDataInBuff = 0 then (0, shift)
  else if poll.status &&& 0x20 ≠ 0 then (0, shift)
  else kbDecode poll.data shift

/-- `io_getkey`, for what its polls find: the key, the polls that are left, and `shift`. Nothing when they end before it does. -/
def ioGetkey (wait : Bool) : List KbPoll → BitVec 32 → Option (UInt8 × List KbPoll × BitVec 32)
  | [], _ => none
  | poll :: polls, shift =>
    let r := kbGet poll shift
    if r.1 = 0 ∧ wait = true then ioGetkey wait polls r.2 else some (r.1, polls, r.2)

/-- The keys that `n` calls of `io_getkey` in a row return. -/
def getkeys (wait : Bool) : Nat → List KbPoll → BitVec 32 → Option (List UInt8)
  | 0, _, _ => some []
  | n + 1, polls, shift =>
    (ioGetkey wait polls shift).bind fun r => (getkeys wait n r.2.1 r.2.2).map (r.1 :: ·)

end NanoS32
