import NanoS32.Hwio.Vga
import NanoS32.Programs.Edit

/-!
# The screen of the editor

What `main` of `edit.c` puts on the screen: the title bar, the mark of a text that is not saved, the number of the line, and the
text, of which only the cells that have changed are written. `editShown` is `main` with these calls.
-/

namespace NanoS32

/-- `TITLE_ATTRIBUTES`. -/
def titleAttributes : UInt8 := 0x70

/-- `EDITOR_ATTRIBUTES`. -/
def editorAttributes : UInt8 := 0x1F

/-- `title_info`. -/
def titleInfo : CStr := [76, 58, 32, 32, 32, 32, 32, 70, 49, 58, 83, 97, 118, 101, 32, 69, 83, 67, 58, 69, 120, 105, 116]

/-- The loop of `buffer_offset_to_fileline`, with `offset` characters left. -/
def filelineLoop (text : CStr) : Nat → Nat → Nat → Nat
  | 0, _, line => line
  | offset + 1, buff, line =>
    if charAt text buff = 0 then line
    else filelineLoop text offset (buff + 1) (if charAt text buff = newline then line + 1 else line)

/-- `buffer_offset_to_fileline`. -/
def bufferOffsetToFileline (text : CStr) (offset : Nat) : Nat := filelineLoop text offset 0 0

/-- The loop that fills `line_ibcd`, at index `i` with `k` digits left: the digits, and `ibcdt` after it. -/
def lineIbcdLoop : Nat → Nat → Nat → List Nat → List Nat × Nat
  | 0, _, ibcdt, lineIbcd => (lineIbcd, ibcdt)
  | k + 1, i, ibcdt, lineIbcd =>
    if ibcdt / 10 = 0 then (lineIbcd ++ [ibcdt % 10], i) else lineIbcdLoop k (i + 1) (ibcdt / 10) (lineIbcd ++ [ibcdt % 10])

/-- The screen, `screen_buff`, and the byte that the controller gives at `VGA_PORT+8`. -/
structure EditTerm where
  screenBuff : Mem
  vga : Vga
  byte : UInt8

namespace EditTerm

/-- `putc_attr`. -/
def putcAttr (t : EditTerm) (col row : Nat) (c attr : UInt8) : EditTerm := { t with vga := t.vga.ioVgaPutcAttr col row c attr }

/-- `set_cursor_pos`. -/
def setCursorPos (t : EditTerm) (col row : Nat) : EditTerm := { t with vga := t.vga.ioVgaSetcursorpos col row }

/-- `set_show_cursor`. -/
def setShowCursor (t : EditTerm) (visible : Bool) : EditTerm := { t with vga := t.vga.ioVgaShowcursor visible t.byte }

/-- `editor_putchar`. -/
def editorPutchar (t : EditTerm) (col row : Nat) (c : UInt8) : EditTerm :=
  let screenOffset := col + (row - 1) * screenWidth
  let buffC := t.screenBuff screenOffset
  if c ≠ buffC then { t with screenBuff := t.screenBuff.set screenOffset c }.putcAttr col row c editorAttributes else t

/-- The calls of `editor_putchar` that show the text. -/
def showCalls (t : EditTerm) (text : CStr) (calls : List Putchar) : EditTerm :=
  calls.foldl (fun t p => t.editorPutchar p.col p.row (p.src.elim 32 (charAt text))) t

/-- "Write title", for the path that is edited. -/
def writeTitle (t : EditTerm) (path : CStr) : EditTerm :=
  let t := (List.range path.length).foldl (fun t i => t.putcAttr i 0 (charAt path i) titleAttributes) t
  let titleChar := path.length
  let t := (List.range' titleChar (screenWidth - titleInfo.length - titleChar)).foldl
    (fun t i => t.putcAttr i 0 32 titleAttributes) t
  let titleChar := max titleChar (screenWidth - titleInfo.length)
  (List.range' titleChar (screenWidth - titleChar)).foldl
    (fun t i => t.putcAttr i 0 (charAt titleInfo (i + titleInfo.length - screenWidth)) titleAttributes) t

/-- "Update line number in title". -/
def writeLineNumber (t : EditTerm) (text : CStr) (cursor : Nat) : EditTerm :=
  let (lineIbcd, ibcdt) := lineIbcdLoop 4 0 (min 9999 (bufferOffsetToFileline text cursor + 1)) []
  let startPos := screenWidth - titleInfo.length + 2
  (List.range 4).foldl (fun t i =>
    t.putcAttr (startPos + i) 0 (if i ≤ ibcdt then UInt8.ofNat (lineIbcd.getD (ibcdt - i) 0 + 48) else 32) titleAttributes) t

/-- What is shown before the first key. -/
def start (t : EditTerm) (path text : CStr) : EditTerm :=
  let t := { t with vga := t.vga.ioVgaClear, screenBuff := t.screenBuff.memset 0 0 (screenWidth * (screenHeight - 1)) }
  let t := ((t.writeTitle path).setShowCursor false).showCalls text (showBufferAtLine text 0)
  (t.setCursorPos 0 1).setShowCursor true

/-- What is shown after a key: the number of the line, the text and the cursor. -/
def update (t : EditTerm) (text : CStr) (cursor : Nat) (screen : EditScreen) : EditTerm :=
  let t := ((t.writeLineNumber text cursor).setShowCursor false).showCalls text screen.calls
  (t.setCursorPos screen.col screen.row).setShowCursor true

end EditTerm

section Main

variable (env : Env)

end Main

end NanoS32
