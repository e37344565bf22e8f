import NanoS32.Fs.File
import NanoS32.Ulib.Console

/-!
# The text editor

The program `edit.c`: how it loads a file into its buffer, what each key does, and how it shows the text. A position in the text
is an offset; the functions that take the buffer get the text in it, up to the first 0. Line and column numbers are below the
length of the text, and are not reduced to 32 bits.
-/

namespace NanoS32

def screenWidth : Nat := 80
def screenHeight : Nat := 28

/-- `'\n'`. -/
def newline : UInt8 := 10

/-! ## Showing the text -/

/-- `*p`, for a position in the text or its end. -/
def charAt (text : CStr) (p : Nat) : UInt8 := text.getD p 0

/-- A call of `editor_putchar`: the cell, and the position in the text of the character it draws, or none for a space. -/
structure Putchar where
  col : Nat
  row : Nat
  src : Option Nat
  deriving DecidableEq, Repr

/-- The modes of `next_line`. -/
inductive LineMode where
  | showCurrent
  | skipCurrent
  deriving DecidableEq, Repr

/-- The first loop of `next_line`, with `k` columns left: the calls, and the column and position where it ends. -/
def nextLineLoop (text : CStr) (mode : LineMode) (row : Nat) : Nat → Nat → Nat → List Putchar × Nat × Nat
  | 0, col, line => ([], col, line)
  | k + 1, col, line =>
    if charAt text line ≠ 0 ∧ charAt text line ≠ newline then
      let (calls, last) := nextLineLoop text mode row k (col + 1) (line + 1)
      (if mode = .showCurrent then { col := col, row := row, src := some line } :: calls else calls, last)
    else ([], col, line)

/-- The second loop of `next_line`. -/
def clearLine (mode : LineMode) (row col : Nat) : List Putchar :=
  if mode = .showCurrent then
    (List.range' col (screenWidth - col)).map fun c => { col := c, row := row, src := none }
  else []

/-- `next_line` of a position in the text: its calls, and the position it returns. -/
def nextLine (text : CStr) (mode : LineMode) (row line : Nat) : List Putchar × Nat :=
  let (calls, col, line) := nextLineLoop text mode row screenWidth 0 line
  (calls ++ clearLine mode row col, if charAt text line = newline then line + 1 else line)

/-- The first loop of `show_buffer_at_line`: skip lines, as many as are left. -/
def skipLines (text : CStr) : Nat → Nat → Nat
  | 0, buff => buff
  | k + 1, buff => if charAt text buff ≠ 0 then skipLines text k (nextLine text .skipCurrent 0 buff).2 else buff

/-- The second loop of `show_buffer_at_line`: show lines from row `l` on, as many as are left. Where the text has ended,
`next_line` gets a null pointer and clears the row. -/
def showLines (text : CStr) : Nat → Nat → Nat → List Putchar
  | 0, _, _ => []
  | k + 1, l, buff =>
    if charAt text buff ≠ 0 then
      let (calls, buff) := nextLine text .showCurrent l buff
      calls ++ showLines text k (l + 1) buff
    else clearLine .showCurrent l 0 ++ showLines text k (l + 1) buff

/-- `show_buffer_at_line`: its calls of `editor_putchar`. -/
def showBufferAtLine (text : CStr) (n : Nat) : List Putchar :=
  showLines text (screenHeight - 1) 1 (skipLines text n 0)

/-! ## Offsets, lines and columns -/

/-- The loop of `buffer_offset_to_linecol`, with `offset` characters left. -/
def linecolLoop (text : CStr) : Nat → Nat → Nat → Nat → Nat × Nat
  | 0, _, col, line => (col, line)
  | offset + 1, buff, col, line =>
    if charAt text buff = 0 then (col, line)
    else if charAt text buff = newline then linecolLoop text offset (buff + 1) 0 (line + 1)
    else if screenWidth ≤ col + 1 then linecolLoop text offset (buff + 1) 0 (line + 1)
    else linecolLoop text offset (buff + 1) (col + 1) line

/-- `buffer_offset_to_linecol`: the column and the line. -/
def bufferOffsetToLinecol (text : CStr) (offset : Nat) : Nat × Nat := linecolLoop text offset 0 0 0

/-- The first loop of `linecol_to_buffer_offset`, on the rest of the text: the rest and the offset where it ends. -/
def lineOffsetLoop : CStr → Nat → Nat → Nat → CStr × Nat
  | [], _, _, offset => ([], offset)
  | ch :: buff, c, line, offset =>
    if 0 < line then
      if ch = newline ∨ screenWidth ≤ c then lineOffsetLoop buff 1 (line - 1) (offset + 1)
      else lineOffsetLoop buff (c + 1) line (offset + 1)
    else (ch :: buff, offset)

/-- The second loop of `linecol_to_buffer_offset`. -/
def colOffsetLoop : CStr → Nat → Nat → Nat
  | [], _, offset => offset
  | ch :: buff, col, offset =>
    if 0 < col then if ch = newline then offset else colOffsetLoop buff (col - 1) (offset + 1) else offset

/-- `linecol_to_buffer_offset`. -/
def linecolToBufferOffset (text : CStr) (col line : Nat) : Nat :=
  let (buff, offset) := lineOffsetLoop text 0 line 0
  colOffsetLoop buff col offset

/-! ## The main loop -/

/-- The variables of `main` in its loop. The memory starts where the buffer does. -/
structure EditState where
  buff : Mem
  buffSize : Nat
  cursor : Nat
  currentLine : Nat

/-- What `main` shows after a key: the calls that draw the text, and the cell of the cursor. -/
structure EditScreen where
  calls : List Putchar
  col : Nat
  row : Nat

/-- The first line to display, for a cursor on this line. -/
def scrollTo (currentLine line : Nat) : Nat :=
  if line < currentLine then line
  else if currentLine + screenHeight - 2 < line then line + 2 - screenHeight
  else currentLine

/-- "Update cursor position and display": the first line to display, and what is shown. -/
def editDisplay (text : CStr) (cursor currentLine : Nat) : Nat × EditScreen :=
  let (col, line) := bufferOffsetToLinecol text cursor
  let currentLine := scrollTo currentLine line
  (currentLine, { calls := showBufferAtLine text currentLine, col := col, row := line - currentLine + 1 })

/-- The keys that `main` ignores. -/
def ignoredKey (k : Nat) : Bool :=
  (keyF1 < k ∧ k ≤ keyF10) ∨ k = keyF11 ∨ k = keyF12 ∨ k = keyPrtSc ∨ k = keyIns ∨ k = 0

/-- What a key that is not ignored does to the text and the cursor. -/
def keyAction (st : EditState) (k : Nat) : EditState :=
  let (col, line) := bufferOffsetToLinecol st.buff.str st.cursor
  let moveTo := fun col line => { st with cursor := linecolToBufferOffset st.buff.str col line }
  if k = keyF1 then st
  else if k = keyUp then if 0 < line then moveTo col (line - 1) else st
  else if k = keyDown then moveTo col (line + 1)
  else if k = keyLeft then if 0 < st.cursor then { st with cursor := st.cursor - 1 } else st
  else if k = keyRight then if st.cursor < st.buffSize - 1 then { st with cursor := st.cursor + 1 } else st
  else if k = keyHome then moveTo 0 line
  else if k = keyEnd then moveTo 0xFFFF line
  else if k = keyPgDn then moveTo col (line + (screenHeight - 1))
  else if k = keyPgUp then moveTo col (line - min line (screenHeight - 1))
  else if k = keyBackspace then
    if 0 < st.cursor then
      { st with
        buff := st.buff.memcpy (st.cursor - 1) st.cursor (st.buffSize - st.cursor)
        buffSize := st.buffSize - 1
        cursor := st.cursor - 1 }
    else st
  else if k = keyDel then
    if st.cursor < st.buffSize - 1 then
      { st with
        buff := st.buff.memcpy st.cursor (st.cursor + 1) (st.buffSize - st.cursor - 1)
        buffSize := st.buffSize - 1 }
    else st
  else if k ≠ keyEsc then
    let k := if k = keyReturn then 10 else k
    { st with
      buff := (st.buff.memcpy (st.cursor + 1) st.cursor (st.buffSize - st.cursor)).set st.cursor (UInt8.ofNat k)
      buffSize := st.buffSize + 1
      cursor := st.cursor + 1 }
  else st

section Main

variable (env : Env)

/-- "Key F1: Save". The result is only shown. -/
def saveAction (path : CStr) (st : EditState) (k : Nat) : FsM Unit :=
  if k = keyF1 then do
    let _ ← (fsWriteFile env (List.ofFn (st.buff.array 0 st.buffSize)) path 0 (wfCreate ||| wfTruncate)).attempt
    pure ()
  else pure ()

/-- One turn of the main loop, for a key. -/
def editKey (path : CStr) (st : EditState) (k : Nat) : FsM EditState :=
  if ignoredKey k then pure st
  else do
    saveAction env path st k
    let st := keyAction st k
    pure { st with currentLine := (editDisplay st.buff.str st.cursor st.currentLine).1 }

/-- The main loop, for the keys that are pressed. -/
def editLoop (path : CStr) : List Nat → EditState → FsM EditState
  | [], st => pure st
  | k :: keys, st => do
    let st ← editKey env path st k
    if k = keyEsc then pure st else editLoop path keys st

/-- "Load file or show error": the buffer and its size, or none when `main` returns. The memory is what `malloc` returned. -/
def editLoad (path : CStr) (heap : Mem) : FsM (Option (Mem × Nat)) := do
  let found ← (fsGetEntry env path unknownValue unknownValue).attempt
  match found with
  | .error _ => pure (some (heap.memset 0 0 1, 1))
  | .ok (_, entry) =>
    if entry.isFile then
      if 0xFFFE ≤ entry.size.toNat then pure none
      else do
        let buff := heap.memset 0 0 entry.size.toNat
        let result ← (fsReadFile env path 0 entry.size.toNat).attempt
        match result with
        | .error _ => pure none
        | .ok bytes =>
          if bytes.length ≠ entry.size.toNat then pure none
          else
            let buff := buff.store 0 bytes
            -- the buffer must finish with a 0
            if entry.size.toNat = 0 ∨ buff (entry.size.toNat - 1) ≠ 0 then pure (some (buff, entry.size.toNat + 1))
            else pure (some (buff, entry.size.toNat))
    else pure none

/-- `main`, for the keys that are pressed: the variables at the top of the loop after the last of them, or none when the file
cannot be edited. -/
def editMain (path : CStr) (heap : Mem) (keys : List Nat) : FsM (Option EditState) := do
  let loaded ← editLoad env path heap
  match loaded with
  | none => pure none
  | some (buff, buffSize) => do
    let st ← editLoop env path keys { buff := buff, buffSize := buffSize, cursor := 0, currentLine := 0 }
    pure (some st)

end Main

end NanoS32
