import NanoS32.Hwio.Vga
import NanoS32.Lemmas.Mem
import NanoS32.Lib.Terminal

/-!
# The screen is a terminal

`io_vga_putc` works on one linear position. Whatever it is called with, the screen it leaves is the one a scrolling terminal of 28
rows and 80 columns shows.
-/

namespace NanoS32

/-- A cell of the screen: a character and its attributes. -/
structure VgaCell where
  ch : UInt8
  attr : UInt8

/-- The cell of a blank row. -/
def blankCell : VgaCell := ⟨32, atDefault⟩

/-- A character on the terminal: a newline and a carriage return move the cursor, a tab is a space, and no attributes stand for the
default ones. -/
def putChar (t : Terminal VgaCell vgaHeight vgaWidth) (p : UInt8 × UInt8) : Terminal VgaCell vgaHeight vgaWidth :=
  if p.1 = 10 then t.lineFeed blankCell
  else if p.1 = 13 then t.carriageReturn
  else t.put blankCell ⟨if p.1 = 9 then 32 else p.1, if p.2 = 0 then atDefault else p.2⟩

namespace Vga

/-- The position of the cursor. -/
def pos (s : Vga) : Nat := s.readPos.1

/-- A cell of video memory. -/
def cellAt (s : Vga) (i : Nat) : VgaCell := ⟨s.mem (2 * i), s.mem (2 * i + 1)⟩

/-- The terminal that video memory and the cursor show, when the cursor is inside the screen. -/
def terminal (s : Vga) (h : s.pos < vgaHeight * vgaWidth) : Terminal VgaCell vgaHeight vgaWidth where
  rows := (List.range vgaHeight).map fun r => (List.range vgaWidth).map fun k => s.cellAt (vgaWidth * r + k)
  row := s.pos / vgaWidth
  col := s.pos % vgaWidth
  height := by rw [List.length_map, List.length_range]
  width := by
    intro line hline
    obtain ⟨r, -, rfl⟩ := List.mem_map.1 hline
    rw [List.length_map, List.length_range]
  row_lt := Nat.div_lt_of_lt_mul (by rwa [Nat.mul_comm] at h)
  col_lt := Nat.mod_lt _ (by decide)

/-- The screen shows the terminal. -/
structure Shows (s : Vga) (t : Terminal VgaCell vgaHeight vgaWidth) : Prop where
  cell : ∀ r < vgaHeight, ∀ k < vgaWidth, t.cell r k = some (s.cellAt (vgaWidth * r + k))
  pos : s.pos = vgaWidth * t.row + t.col

theorem shows_terminal (s : Vga) (h : s.pos < vgaHeight * vgaWidth) : s.Shows (s.terminal h) := by
  refine ⟨fun r hr k hk => ?_, (Nat.div_add_mod _ _).symm⟩
  rw [Terminal.cell, terminal, List.getElem?_map, List.getElem?_range hr, Option.map_some, Option.bind_some, List.getElem?_map,
    List.getElem?_range hk, Option.map_some]

theorem Shows.pos_lt {s : Vga} {t : Terminal VgaCell vgaHeight vgaWidth} (h : s.Shows t) : s.pos < vgaHeight * vgaWidth := by
  have hrow := t.row_lt
  have hcol := t.col_lt
  have hpos := h.pos
  simp only [vgaHeight, vgaWidth] at *
  omega

/-- The screen shows only one terminal. -/
theorem Shows.eq_terminal {s : Vga} {t : Terminal VgaCell vgaHeight vgaWidth} (h : s.Shows t) : s.terminal h.pos_lt = t := by
  have ht := s.shows_terminal h.pos_lt
  have hcol := t.col_lt
  refine Terminal.eq_of_cell (fun r hr k hk => (ht.cell r hr k hk).trans (h.cell r hr k hk).symm) ?_ ?_
  · simp only [terminal, h.pos]
    rw [Nat.mul_add_div (by decide), Nat.div_eq_of_lt hcol, Nat.add_zero]
  · simp only [terminal, h.pos]
    rw [Nat.mul_add_mod, Nat.mod_eq_of_lt hcol]

/-! ## The position -/

/-- Two bytes put together. -/
theorem shiftLeft_or (a b : UInt8) : a.toNat <<< 8 ||| b.toNat = 256 * a.toNat + b.toNat := by
  have hb : b.toNat < 2 ^ 8 := b.toNat_lt
  rw [← Nat.shiftLeft_add_eq_or_of_lt hb, Nat.shiftLeft_eq, Nat.mul_comm]

theorem pos_eq (s : Vga) : s.pos = 256 * (s.reg 14).toNat + (s.reg 15).toNat := shiftLeft_or _ _

/-- Reading back the position that was written. -/
theorem pos_writePos (s : Vga) {p : Nat} (hp : p < 65536) : (s.writePos p).pos = p := by
  have hhigh : (s.writePos p).reg 14 = UInt8.ofNat (p >>> 8) := rfl
  have hlow : (s.writePos p).reg 15 = UInt8.ofNat p := rfl
  rw [pos_eq, hhigh, hlow, UInt8.toNat_ofNat', UInt8.toNat_ofNat', Nat.shiftRight_eq_div_pow]
  omega

/-! ## Cells -/

theorem cellAt_congr {s s' : Vga} (h : s.mem = s'.mem) (i : Nat) : s.cellAt i = s'.cellAt i := by
  rw [cellAt, cellAt, h]

theorem cellAt_setCell (s : Vga) (i v j : Nat) :
    (s.setCell i v).cellAt j = if j = i then ⟨UInt8.ofNat v, UInt8.ofNat (v / 256)⟩ else s.cellAt j := by
  have hmem : (s.setCell i v).mem = s.mem.put16 (2 * i) v := rfl
  rw [cellAt, hmem]
  by_cases h : j = i
  · rw [if_pos h, h, Mem.put16, Mem.set_ne _ _ (by omega), Mem.set_self, Mem.set_self]
  · rw [if_neg h, Mem.put16_of_ne _ _ (by omega), Mem.put16_of_ne _ _ (by omega), cellAt]

/-- A character with its attributes, as a word. -/
theorem cell_word (ch attr : UInt8) :
    (⟨UInt8.ofNat ((ch.toNat &&& 0xFF) ||| attr.toNat <<< 8), UInt8.ofNat (((ch.toNat &&& 0xFF) ||| attr.toNat <<< 8) / 256)⟩ : VgaCell) =
      ⟨ch, attr⟩ := by
  have hlt := ch.toNat_lt
  have hmask : ch.toNat &&& 0xFF = ch.toNat := (Nat.and_two_pow_sub_one_eq_mod ch.toNat 8).trans (Nat.mod_eq_of_lt hlt)
  have hdiv : (256 * attr.toNat + ch.toNat) / 256 = attr.toNat := by omega
  have hlow : UInt8.ofNat (256 * attr.toNat + ch.toNat) = ch := by
    refine UInt8.toNat_inj.1 ?_
    rw [UInt8.toNat_ofNat']
    omega
  rw [hmask, Nat.or_comm, shiftLeft_or, hdiv, hlow, UInt8.ofNat_toNat]

theorem cellAt_clearCells : ∀ (k i : Nat) (s : Vga) (j : Nat),
    (clearCells k i s).cellAt j = if i ≤ j ∧ j < i + k then blankCell else s.cellAt j := by
  intro k
  induction k with
  | zero => exact fun i s j => (if_neg (by omega)).symm
  | succ k ih =>
    intro i s j
    rw [clearCells, ih, cellAt_setCell]
    by_cases h : j = i
    · rw [if_neg (by omega), if_pos h, if_pos (by omega)]
      rfl
    · rw [if_neg h]
      exact if_congr (by omega) rfl rfl

/-- A position on the screen is left alone. -/
theorem scroll_of_lt (s : Vga) {p : Nat} (hp : p < vgaHeight * vgaWidth) : s.scroll p = (p, s) := by
  rw [scroll, if_neg]
  simp only [vgaHeight, vgaWidth] at hp ⊢
  omega

/-- The position behind the screen: the rows move up, and the last one is blank. -/
theorem scroll_end (s : Vga) : (s.scroll (vgaHeight * vgaWidth)).1 = vgaWidth * (vgaHeight - 1) ∧
    ∀ r < vgaHeight, ∀ k < vgaWidth, (s.scroll (vgaHeight * vgaWidth)).2.cellAt (vgaWidth * r + k) =
      if r + 1 < vgaHeight then s.cellAt (vgaWidth * (r + 1) + k) else blankCell := by
  have hscroll : s.scroll (vgaHeight * vgaWidth) = (vgaWidth * (vgaHeight - 1),
      clearCells vgaWidth (vgaWidth * (vgaHeight - 1))
        { s with mem := s.mem.memcpy 0 (2 * vgaWidth) (2 * (vgaHeight - 1) * vgaWidth) }) := by
    rw [scroll, if_pos (by decide)]
    rfl
  rw [hscroll]
  refine ⟨rfl, fun r hr k hk => ?_⟩
  rw [cellAt_clearCells]
  by_cases hlast : r + 1 < vgaHeight
  · rw [if_pos hlast, if_neg (by simp only [vgaHeight, vgaWidth] at *; omega), cellAt, cellAt]
    simp only [Mem.memcpy_apply, vgaHeight, vgaWidth] at *
    rw [if_pos (by omega), if_pos (by omega)]
    congr 2 <;> omega
  · rw [if_neg hlast, if_pos (by simp only [vgaHeight, vgaWidth] at *; omega)]

/-! ## One character -/

/-- The end of `io_vga_putc`: where the row of the new position is on the screen, nothing moves. -/
theorem shows_of_lt {s : Vga} {t : Terminal VgaCell vgaHeight vgaWidth} {p : Nat}
    (hcell : ∀ r < vgaHeight, ∀ k < vgaWidth, t.cell r k = some (s.cellAt (vgaWidth * r + k))) (hp : p = vgaWidth * t.row + t.col) :
    ((s.scroll p).2.writePos (s.scroll p).1).Shows t := by
  have hrow := t.row_lt
  have hcol := t.col_lt
  have hlt : p < vgaHeight * vgaWidth := by simp only [vgaHeight, vgaWidth] at *; omega
  rw [scroll_of_lt s hlt]
  refine ⟨hcell, ?_⟩
  rw [pos_writePos s (by simp only [vgaHeight, vgaWidth] at hlt; omega), hp]

/-- The end of `io_vga_putc` at the start of the next row, which scrolls the screen below the last one. -/
theorem shows_lineFeed {s : Vga} {t : Terminal VgaCell vgaHeight vgaWidth} {p : Nat}
    (hcell : ∀ r < vgaHeight, ∀ k < vgaWidth, t.cell r k = some (s.cellAt (vgaWidth * r + k))) (hp : p = vgaWidth * (t.row + 1)) :
    ((s.scroll p).2.writePos (s.scroll p).1).Shows (t.lineFeed blankCell) := by
  have hrow := t.row_lt
  by_cases hlast : t.row + 1 < vgaHeight
  · rw [Terminal.lineFeed, dif_pos hlast]
    exact shows_of_lt hcell hp
  · have hend : t.row = vgaHeight - 1 := by omega
    have hpend : p = vgaHeight * vgaWidth := by rw [hp, hend]; rfl
    obtain ⟨hpos, hmoved⟩ := s.scroll_end
    rw [Terminal.lineFeed, dif_neg hlast, hpend]
    refine ⟨fun r hr k hk => ?_, ?_⟩
    · rw [Terminal.cell, Terminal.cell_scrolled t blankCell r k hr hk]
      refine Eq.trans ?_ (congrArg some (hmoved r hr k hk).symm)
      split_ifs with hnext
      · exact hcell (r + 1) hnext k hk
      · rfl
    · rw [hpos, pos_writePos _ (by decide), ← hend]
      rfl

/-- A character in the cell at the cursor, which moves on. -/
theorem shows_put {s : Vga} {t : Terminal VgaCell vgaHeight vgaWidth} {p : Nat}
    (hcell : ∀ r < vgaHeight, ∀ k < vgaWidth, t.cell r k = some (s.cellAt (vgaWidth * r + k))) (hp : p = vgaWidth * t.row + t.col)
    (ch attr : UInt8) :
    (((s.setCell p ((ch.toNat &&& 0xFF) ||| attr.toNat <<< 8)).scroll (p + 1)).2.writePos
      ((s.setCell p ((ch.toNat &&& 0xFF) ||| attr.toNat <<< 8)).scroll (p + 1)).1).Shows (t.put blankCell ⟨ch, attr⟩) := by
  have hcol := t.col_lt
  have hwrite : ∀ r < vgaHeight, ∀ k < vgaWidth, (t.write ⟨ch, attr⟩).cell r k =
      some ((s.setCell p ((ch.toNat &&& 0xFF) ||| attr.toNat <<< 8)).cellAt (vgaWidth * r + k)) := by
    intro r hr k hk
    have hplace : vgaWidth * r + k = p ↔ r = t.row ∧ k = t.col := by
      rw [hp]
      simp only [vgaWidth] at hk hcol ⊢
      omega
    rw [Terminal.cell_write _ _ _ _ hk, cellAt_setCell, cell_word, hcell r hr k hk, if_congr hplace rfl rfl]
    split_ifs
    · rfl
    · rfl
  rw [Terminal.put]
  by_cases hend : t.col + 1 < vgaWidth
  · rw [dif_pos hend]
    refine shows_of_lt hwrite ?_
    dsimp only [Terminal.write]
    rw [hp, Nat.add_assoc]
  · rw [dif_neg hend]
    refine shows_lineFeed hwrite ?_
    dsimp only [Terminal.write]
    simp only [vgaWidth] at hcol hend hp ⊢
    omega

/-- One character keeps the screen that of the terminal. -/
theorem Shows.putChar {s : Vga} {t : Terminal VgaCell vgaHeight vgaWidth} (h : s.Shows t) (ch attr : UInt8) :
    (s.ioVgaPutc ch attr).Shows (NanoS32.putChar t (ch, attr)) := by
  have hcol := t.col_lt
  have hpos : s.readPos.1 = vgaWidth * t.row + t.col := h.pos
  have hmem : s.readPos.2.mem = s.mem := rfl
  have hcell : ∀ r < vgaHeight, ∀ k < vgaWidth, t.cell r k = some (s.readPos.2.cellAt (vgaWidth * r + k)) := fun r hr k hk =>
    (h.cell r hr k hk).trans (congrArg some (cellAt_congr hmem _))
  have hmod : (vgaWidth * t.row + t.col) % vgaWidth = t.col := by rw [Nat.mul_add_mod, Nat.mod_eq_of_lt hcol]
  unfold ioVgaPutc NanoS32.putChar
  generalize s.readPos = q at hpos hcell
  obtain ⟨p, s⟩ := q
  dsimp only at hpos hcell ⊢
  by_cases h10 : ch = 10
  · -- the start of the next row
    have hnine : ¬ch = 9 := by rw [h10]; decide
    rw [if_neg hnine, if_pos h10, if_pos h10]
    refine shows_lineFeed hcell ?_
    dsimp only
    rw [hpos, hmod]
    simp only [vgaWidth] at hcol ⊢
    omega
  have htab10 : ¬(if ch = 9 then 32 else ch) = 10 := by split_ifs; exacts [by decide, h10]
  rw [if_neg h10, if_neg htab10]
  by_cases h13 : ch = 13
  · have hnine : ¬ch = 9 := by rw [h13]; decide
    rw [if_neg hnine, if_pos h13, if_pos h13]
    refine shows_of_lt (t := t.carriageReturn) hcell ?_
    dsimp only [Terminal.carriageReturn]
    rw [hpos, hmod, Nat.add_sub_cancel, Nat.add_zero]
  have htab13 : ¬(if ch = 9 then 32 else ch) = 13 := by split_ifs; exacts [by decide, h13]
  rw [if_neg h13, if_neg htab13]
  exact shows_put hcell hpos _ _

end Vga

open Vga in
/-- `io_vga_putc` refines the terminal: from any position of the cursor inside the screen, after any characters the cursor is inside
it and the screen is that of the terminal after the same characters. -/
theorem io_vga_putc_terminal (s : Vga) (h : s.pos < vgaHeight * vgaWidth) (chars : List (UInt8 × UInt8)) :
    ∃ h' : (s.putcs chars).pos < vgaHeight * vgaWidth, (s.putcs chars).terminal h' = chars.foldl putChar (s.terminal h) := by
  have hrun : ∀ (chars : List (UInt8 × UInt8)) (s : Vga) (t : Terminal VgaCell vgaHeight vgaWidth), s.Shows t →
      (s.putcs chars).Shows (chars.foldl putChar t) := by
    intro chars
    induction chars with
    | nil => exact fun s t hshow => hshow
    | cons p chars ih => exact fun s t hshow => ih _ _ (hshow.putChar p.1 p.2)
  have hshow := hrun chars s _ (s.shows_terminal h)
  exact ⟨hshow.pos_lt, hshow.eq_terminal⟩

theorem io_vga_putc_terminal_last :
    ∃ h' : (Vga.putcs ⟨fun _ => 0, 0, fun r => if r = 14 then 8 else 191⟩ [(65, 7), (10, 0)]).pos < vgaHeight * vgaWidth,
      (Vga.putcs ⟨fun _ => 0, 0, fun r => if r = 14 then 8 else 191⟩ [(65, 7), (10, 0)]).terminal h' =
        [(65, 7), (10, 0)].foldl putChar (Vga.terminal ⟨fun _ => 0, 0, fun r => if r = 14 then 8 else 191⟩ (by decide)) :=
  io_vga_putc_terminal ⟨fun _ => 0, 0, fun r => if r = 14 then 8 else 191⟩ (by decide) [(65, 7), (10, 0)]

end NanoS32
