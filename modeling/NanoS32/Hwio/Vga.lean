import NanoS32.Ulib.Mem

/-!
# The screen

`io_vga_putc` of `hwio.c` and the functions for the position of the cursor. The memory starts where video memory does; the position
is kept in two registers of the controller, which is reached through an index port and a data port.
-/

namespace NanoS32

def vgaWidth : Nat := 80
def vgaHeight : Nat := 28

/-- `AT_DEFAULT`. -/
def atDefault : UInt8 := 0x07

/-- Video memory, the index port and the registers behind the data port. -/
structure Vga where
  mem : Mem
  index : UInt8
  reg : UInt8 → UInt8

namespace Vga

/-- `outb(VGA_PORT, v)`. -/
def outIndex (s : Vga) (v : UInt8) : Vga := { s with index := v }

/-- `outb(VGA_PORT+1, v)`. The value is cut to a byte. -/
def outData (s : Vga) (v : Nat) : Vga := { s with reg := fun r => if r = s.index then UInt8.ofNat v else s.reg r }

/-- `inb(VGA_PORT+1)`. -/
def inData (s : Vga) : Nat := (s.reg s.index).toNat

/-- "Get cursor position": `pos`, and the state after the ports were used. -/
def readPos (s : Vga) : Nat × Vga :=
  let s := s.outIndex 14
  let pos := s.inData <<< 8
  let s := s.outIndex 15
  (pos ||| s.inData, s)

/-- "Set cursor position". -/
def writePos (s : Vga) (pos : Nat) : Vga := (((s.outIndex 14).outData (pos >>> 8)).outIndex 15).outData pos

/-- `VGA_MEMORY[i] = v`. -/
def setCell (s : Vga) (i v : Nat) : Vga := { s with mem := s.mem.put16 (2 * i) v }

/-- `empty`. -/
def emptyCell : Nat := 32 ||| (atDefault.toNat <<< 8)

/-- The loop that clears the cells from `i` on, as many as are left. -/
def clearCells : Nat → Nat → Vga → Vga
  | 0, _, s => s
  | k + 1, i, s => clearCells k (i + 1) (s.setCell i emptyCell)

/-- "Scroll": the position, and the screen. -/
def scroll (s : Vga) (pos : Nat) : Nat × Vga :=
  if vgaHeight - 1 < pos / vgaWidth then
    let s := { s with mem := s.mem.memcpy 0 (2 * vgaWidth) (2 * (vgaHeight - 1) * vgaWidth) }
    let pos := pos - vgaWidth
    (pos, clearCells (vgaHeight * vgaWidth - pos) pos s)
  else (pos, s)

/-- `io_vga_putc`. -/
def ioVgaPutc (s : Vga) (ch attr : UInt8) : Vga :=
  let attr := if attr = 0 then atDefault else attr
  let ch := if ch = 9 then 32 else ch
  let (pos, s) := s.readPos
  let (pos, s) :=
    if ch = 10 then (pos + (vgaWidth - pos % vgaWidth), s)
    else if ch = 13 then (pos - pos % vgaWidth, s)
    else (pos + 1, s.setCell pos ((ch.toNat &&& 0xFF) ||| (attr.toNat <<< 8)))
  let (pos, s) := s.scroll pos
  s.writePos pos

/-- `io_vga_putc_attr`. -/
def ioVgaPutcAttr (s : Vga) (x y : Nat) (ch attr : UInt8) : Vga :=
  let attr := if attr = 0 then atDefault else attr
  let ch := if ch = 9 ∨ ch = 10 then 32 else ch
  s.setCell (vgaWidth * y + x) ((ch.toNat &&& 0xFF) ||| (attr.toNat <<< 8))

/-- `io_vga_setcursorpos`. -/
def ioVgaSetcursorpos (s : Vga) (x y : Nat) : Vga := s.writePos (vgaWidth * y + x)

/-- `io_vga_clear`. -/
def ioVgaClear (s : Vga) : Vga :=
  let s := (List.range vgaWidth).foldl
    (fun s x => (List.range vgaHeight).foldl (fun s y => s.setCell (vgaWidth * y + x) emptyCell) s) s
  s.ioVgaSetcursorpos 0 0

/-- `io_vga_showcursor`, for the byte that `inb(VGA_PORT+8)` reads. -/
def ioVgaShowcursor (s : Vga) (visible : Bool) (byte : UInt8) : Vga :=
  if visible then
    let s := s.outIndex 0x0A
    let s := s.outData ((s.inData &&& 0xC0) ||| 0xC)
    let s := s.outIndex 0x0B
    s.outData ((byte.toNat &&& 0xE0) ||| 0xE)
  else (s.outIndex 0x0A).outData 0x20

/-- A run of calls of `io_vga_putc`, each with a character and its attributes. -/
def putcs (s : Vga) (chars : List (UInt8 × UInt8)) : Vga := chars.foldl (fun s p => s.ioVgaPutc p.1 p.2) s

end Vga

end NanoS32
