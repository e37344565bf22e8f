import NanoS32.Ulib.Mem
import NanoS32.Ulib.Str

/-!
# The console of the user library

The keys of `ulib.h`, and `getstr` of `ulib.c`, which lets the user edit a line. The memory starts where the buffer of the line
does. The system calls that show the line are recorded in order.
-/

namespace NanoS32

/-! ## Keys, from `ulib.h` -/

def keyBackspace : Nat := 0x08
def keyReturn : Nat := 0x0D
def keyEsc : Nat := 0x1B
def keyDel : Nat := 0xE0
def keyEnd : Nat := 0xE1
def keyHome : Nat := 0xE2
def keyIns : Nat := 0xE3
def keyPgDn : Nat := 0xE4
def keyPgUp : Nat := 0xE5
def keyPrtSc : Nat := 0xE6
def keyTab : Nat := 0x09
def keyUp : Nat := 0xE7
def keyLeft : Nat := 0xE8
def keyRight : Nat := 0xE9
def keyDown : Nat := 0xEA
def keyF1 : Nat := 0xF1
def keyF10 : Nat := 0xFA
def keyF11 : Nat := 0xFB
def keyF12 : Nat := 0xFC

/-! ## Strings in a memory -/

/-- The string at `p`, which ends before the first 0. The addresses are those of a 32-bit memory. -/
def Mem.strFrom (m : Mem) : Nat → Nat → CStr
  | 0, _ => []
  | k + 1, p => if m p = 0 then [] else m p :: Mem.strFrom m k (p + 1)

/-- The string at the start of the memory. -/
def Mem.str (m : Mem) : CStr := m.strFrom 4294967296 0

/-! ## Editing a line -/

/-- A system call of `getstr` that shows something. -/
inductive ConsoleCall where
  | showCursor (visible : Bool)
  | cursorPos (col row : Nat)
  | putc (ch : UInt8)
  deriving DecidableEq, Repr

/-- The variables of `getstr`, and the calls it has made. -/
structure Getstr where
  str : Mem
  i : Nat
  calls : List ConsoleCall

/-- How the keys of one turn of the loop of `getstr` are handled: `continue`, `break`, or the buffer and the index that are shown
next. -/
inductive GetstrKey where
  | again
  | leave
  | redraw (str : Mem) (i : Nat)

/-- The tests of `getstr` on a key, in a buffer of `n` bytes. -/
def getstrKey (n : Nat) (str : Mem) (i k : Nat) : GetstrKey :=
  if k = 0 then .again
  else if k = keyBackspace then
    if 0 < i then .redraw (str.memcpy (i - 1) i (sub32 n i)) (i - 1) else .redraw str i
  else if k = keyDel then
    if i < sub32 n 1 then .redraw (str.memcpy i (i + 1) (sub32 (sub32 n i) 1)) i else .redraw str i
  else if k = keyReturn then .leave
  else if k = keyLeft ∧ 0 < i then .redraw str (i - 1)
  else if k = keyRight ∧ i < str.str.length then .redraw str (i + 1)
  else if k = keyHome then .redraw str 0
  else if k = keyEnd then .redraw str str.str.length
  else if k ≠ keyTab ∧ (k < 0x20 ∨ 0x7E < k) then .again
  else if str.str.length < sub32 n 1 ∧ k &&& 0xFF ≠ 0 then
    .redraw ((str.memcpy (i + 1) i (sub32 (sub32 n i) 2)).set i (UInt8.ofNat (k &&& 0xFF))) (i + 1)
  else .redraw str i

/-- The calls that show the line again, from the position where it starts. -/
def getstrRedraw (n col row : Nat) (str : Mem) (i : Nat) : List ConsoleCall :=
  [.showCursor false, .cursorPos col row] ++ (List.range n).map (fun p => .putc (str p)) ++
    [.cursorPos (wrap32 (col + i)) row, .showCursor true]

/-- The loop of `getstr`, for the keys that are pressed: the variables, and whether the loop has ended. -/
def getstrLoop (n col row : Nat) : List Nat → Getstr → Getstr × Bool
  | [], st => (st, false)
  | k :: keys, st =>
    match getstrKey n st.str st.i k with
    | .again => getstrLoop n col row keys st
    | .leave => (st, true)
    | .redraw str i => getstrLoop n col row keys { str := str, i := i, calls := st.calls ++ getstrRedraw n col row str i }

/-- The variables of `getstr` before its loop. -/
def getstrInit (n : Nat) (heap : Mem) : Getstr := { str := heap.memset 0 0 n, i := 0, calls := [.showCursor true] }

/-- `getstr`, with the cursor at a position: the number it returns and the variables at its end, or none while no key has ended
it. -/
def getstr (n : Nat) (heap : Mem) (col row : Nat) (keys : List Nat) : Option (Nat × Getstr) :=
  match getstrLoop n col row keys (getstrInit n heap) with
  | (_, false) => none
  | (st, true) =>
    let str := st.str.set (sub32 n 1) 0
    some (str.str.length, { str := str, i := st.i, calls := st.calls ++ [.putc 10] })

end NanoS32
