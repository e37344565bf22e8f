import NanoS32.Lib.Numeral
import NanoS32.Lib.Shadow
import NanoS32.Programs.EditScreen
import NanoS32.Theorems.Editing
import NanoS32.Theorems.Linecol
import NanoS32.Theorems.Vga

/-!
# What the editor shows

`editor_putchar` writes a cell only if `screen_buff` has another character for it. After every key of a session the cells of the
editor are nevertheless those of the text: each shows its character of the rows from the first line that is displayed on, or a
space.
-/

namespace NanoS32

open Prog

/-! ## The cells that are drawn -/

section Rows

variable (text : CStr)

end Rows

section Calls

variable {text : CStr}

end Calls

/-! ## Video memory -/

namespace Vga

theorem cellAt_ioVgaSetcursorpos (s : Vga) (x y j : Nat) : (s.ioVgaSetcursorpos x y).cellAt j = s.cellAt j := rfl

end Vga

namespace EditTerm

/-- The area of the editor, with `screen_buff` as its shadow. -/
def shadow (t : EditTerm) : Shadow Nat UInt8 VgaCell := ⟨t.screenBuff, fun i => t.vga.cellAt (screenWidth + i)⟩

/-- The writes of a run of calls. -/
def writes (text : CStr) (calls : List Putchar) : List (Nat × UInt8) :=
  calls.map fun p => (p.col + (p.row - 1) * screenWidth, p.src.elim 32 (charAt text))

end EditTerm

/-! ## The number of the line -/

namespace EditTerm

end EditTerm

/-! ## Sessions -/

namespace EditTerm

end EditTerm

section Session

variable {env : Env} {s s' : Sys} {path : CStr} {heap : Mem} {st st' : EditState} {t t' : EditTerm}

end Session

end NanoS32
