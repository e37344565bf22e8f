import NanoS32.Lib.LineEditor
import NanoS32.Lemmas.Mem
import NanoS32.Ulib.Console

/-!
# The line editor

`getstr` edits its buffer in place. The buffer is the text of an abstract line editor, followed by zeros, after every key.
-/

namespace NanoS32

open LineEditor (Edit)

/-- The edit that a key makes. -/
def keyEdit (k : Nat) : Option (Edit UInt8) :=
  if k = keyBackspace then some .backspace
  else if k = keyDel then some .delete
  else if k = keyLeft then some .left
  else if k = keyRight then some .right
  else if k = keyHome then some .home
  else if k = keyEnd then some .last
  else if k = keyTab ∨ 0x20 ≤ k ∧ k ≤ 0x7E then some (.insert (UInt8.ofNat k))
  else none

/-- The line after the keys that come before RETURN is pressed. -/
def editedLine (cap : Nat) (keys : List Nat) : LineEditor UInt8 cap :=
  LineEditor.empty.run ((keys.takeWhile (· ≠ keyReturn)).filterMap keyEdit)

/-- The buffer of `n` bytes holds the text of the line and then zeros, the index is its cursor, and the memory behind the buffer
is that of the heap. -/
structure HoldsLine (n : Nat) (heap : Mem) (str : Mem) (i : Nat) (l : LineEditor UInt8 (n - 1)) : Prop where
  byte : ∀ j < n, str j = l.text.getD j 0
  past : ∀ j, n ≤ j → str j = heap j
  index : i = l.cursor
  chars : ∀ ch ∈ l.text, ch ≠ 0

/-! ## The string in the buffer -/

/-- The string at a place where a text is followed by a zero. -/
theorem Mem.strFrom_eq (m : Mem) : ∀ (text : CStr) (k p : Nat), text.length < k → (∀ j ≤ text.length, m (p + j) = text.getD j 0) →
    (∀ ch ∈ text, ch ≠ 0) → m.strFrom k p = text := by
  intro text
  induction text with
  | nil =>
    intro k p hk h _
    obtain ⟨k, rfl⟩ : ∃ k', k = k' + 1 := ⟨k - 1, by simp only [List.length_nil] at hk; omega⟩
    have h0 : m p = 0 := h 0 (Nat.le_refl 0)
    rw [Mem.strFrom, if_pos h0]
  | cons ch text ih =>
    intro k p hk h hchars
    rw [List.length_cons] at hk h
    obtain ⟨k, rfl⟩ : ∃ k', k = k' + 1 := ⟨k - 1, by omega⟩
    have h0 : m p = ch := h 0 (Nat.zero_le _)
    have hch : ch ≠ 0 := hchars ch List.mem_cons_self
    have hrest : m.strFrom k (p + 1) = text := by
      refine ih k (p + 1) (by omega) (fun j hj => ?_) fun a ha => hchars a (List.mem_cons_of_mem _ ha)
      rw [Nat.add_assoc, Nat.add_comm 1 j]
      exact h (j + 1) (by omega)
    rw [Mem.strFrom, h0, if_neg hch, hrest]

theorem HoldsLine.str_eq {n : Nat} {heap str : Mem} {i : Nat} {l : LineEditor UInt8 (n - 1)} (h : HoldsLine n heap str i l)
    (hn : 2 ≤ n) (hlt : n < 4294967296) : str.str = l.text := by
  have hfits := l.fits
  refine Mem.strFrom_eq str l.text _ 0 (by omega) (fun j hj => ?_) h.chars
  rw [Nat.zero_add]
  exact h.byte j (by omega)

/-! ## One key -/

section Key

variable {n : Nat} {heap str : Mem} {i : Nat} {l : LineEditor UInt8 (n - 1)}

theorem sub32_of_le {a b : Nat} (hb : b ≤ a) (ha : a < 4294967296) : sub32 a b = a - b := by
  unfold sub32 wrap32
  omega

/-- Backspace moves the text behind the cursor, and the zeros after it, one place down. -/
theorem HoldsLine.backspace (h : HoldsLine n heap str i l) (hn : 2 ≤ n) (hi : 0 < i) :
    HoldsLine n heap (str.memcpy (i - 1) i (n - i)) (i - 1) l.backspace := by
  have hfits := l.fits
  have hin := l.inside
  have hidx := h.index
  refine ⟨fun j hj => ?_, fun j hj => ?_, ?_, ?_⟩
  · rw [Mem.memcpy_apply]
    simp only [LineEditor.backspace, ← hidx, if_pos hi, LineEditor.getD_eraseIdx]
    by_cases hlt : j < i - 1
    · rw [if_neg (by omega), if_pos hlt]
      exact h.byte j hj
    · rw [if_neg hlt]
      by_cases hlast : j < n - 1
      · have hmove : i + (j - (i - 1)) = j + 1 := by omega
        rw [if_pos (by omega), hmove]
        exact h.byte (j + 1) (by omega)
      · rw [if_neg (by omega), h.byte j hj, List.getD_eq_default _ _ (by omega), List.getD_eq_default _ _ (by omega)]
  · rw [Mem.memcpy_apply, if_neg (by omega)]
    exact h.past j hj
  · simp only [LineEditor.backspace, ← hidx]
  · exact LineEditor.forall_apply (e := .backspace) h.chars (fun _ he => by cases he)

/-- Delete moves the text behind the place of the cursor one place down. -/
theorem HoldsLine.delete (h : HoldsLine n heap str i l) :
    HoldsLine n heap (str.memcpy i (i + 1) (n - i - 1)) i l.delete := by
  have hfits := l.fits
  have hidx := h.index
  refine ⟨fun j hj => ?_, fun j hj => ?_, hidx, ?_⟩
  · rw [Mem.memcpy_apply]
    simp only [LineEditor.delete, ← hidx, LineEditor.getD_eraseIdx]
    by_cases hlt : j < i
    · rw [if_neg (by omega), if_pos hlt]
      exact h.byte j hj
    · rw [if_neg hlt]
      by_cases hlast : j < n - 1
      · have hmove : i + 1 + (j - i) = j + 1 := by omega
        rw [if_pos (by omega), hmove]
        exact h.byte (j + 1) (by omega)
      · rw [if_neg (by omega), h.byte j hj, List.getD_eq_default _ _ (by omega), List.getD_eq_default _ _ (by omega)]
  · rw [Mem.memcpy_apply, if_neg (by omega)]
    exact h.past j hj
  · exact LineEditor.forall_apply (e := .delete) h.chars (fun _ he => by cases he)

/-- At the last place of the buffer there is nothing to delete. -/
theorem HoldsLine.delete_last (h : HoldsLine n heap str i l) (hi : ¬i < n - 1) : HoldsLine n heap str i l.delete := by
  have hfits := l.fits
  have hin := l.inside
  have hidx := h.index
  have htext : l.text.eraseIdx l.cursor = l.text := List.eraseIdx_of_length_le (by omega)
  have heq : l.delete = l := LineEditor.ext htext rfl
  rwa [heq]

/-- An insertion moves the text behind the cursor one place up; the last byte stays zero. -/
theorem HoldsLine.insert (h : HoldsLine n heap str i l) (hfree : l.text.length < n - 1) {ch : UInt8} (hch : ch ≠ 0) :
    HoldsLine n heap ((str.memcpy (i + 1) i (n - i - 2)).set i ch) (i + 1) (l.insert ch) := by
  have hin := l.inside
  have hidx := h.index
  have htext : (l.insert ch).text = l.text.insertIdx i ch := by simp only [LineEditor.insert, dif_pos hfree, hidx]
  have hbyte : ∀ j, ((str.memcpy (i + 1) i (n - i - 2)).set i ch) j =
      if j = i then ch else if i + 1 ≤ j ∧ j < n - 1 then str (j - 1) else str j := by
    intro j
    by_cases hj : j = i
    · rw [if_pos hj, hj, Mem.set_self]
    · rw [if_neg hj, Mem.set_ne _ _ hj, Mem.memcpy_apply]
      by_cases hmoved : i + 1 ≤ j ∧ j < n - 1
      · have hmove : i + (j - (i + 1)) = j - 1 := by omega
        rw [if_pos (by omega), if_pos hmoved, hmove]
      · rw [if_neg (by omega), if_neg hmoved]
  refine ⟨fun j hj => ?_, fun j hj => ?_, ?_, ?_⟩
  · rw [hbyte, htext, LineEditor.getD_insertIdx (by omega)]
    by_cases heq : j = i
    · rw [if_pos heq, if_neg (by omega), if_pos heq]
    · rw [if_neg heq, if_neg heq]
      by_cases hlt : j < i
      · rw [if_neg (by omega), if_pos hlt]
        exact h.byte j hj
      · rw [if_neg hlt]
        by_cases hlast : j < n - 1
        · rw [if_pos (by omega)]
          exact h.byte (j - 1) (by omega)
        · rw [if_neg (by omega), h.byte j hj, List.getD_eq_default _ _ (by omega), List.getD_eq_default _ _ (by omega)]
  · rw [hbyte, if_neg (by omega), if_neg (by omega)]
    exact h.past j hj
  · simp only [LineEditor.insert, dif_pos hfree, hidx]
  · refine LineEditor.forall_apply (e := .insert ch) h.chars fun a ha => ?_
    cases ha
    exact hch

/-- A move of the cursor leaves the buffer. -/
theorem HoldsLine.moveTo (h : HoldsLine n heap str i l) {i' : Nat} (hi : i' ≤ l.text.length) :
    HoldsLine n heap str i' (l.moveTo i' hi) := ⟨h.byte, h.past, rfl, h.chars⟩

/-- The line after a key. -/
def editKeyLine {cap : Nat} (l : LineEditor UInt8 cap) (k : Nat) : LineEditor UInt8 cap := (keyEdit k).elim l l.apply

/-- A key that is not RETURN leaves the buffer with the line that its edit gives, whether the line is shown again or not. -/
theorem HoldsLine.key (h : HoldsLine n heap str i l) (hn : 2 ≤ n) (hlt : n < 4294967296) {k : Nat} (hk : k ≠ keyReturn) :
    (getstrKey n str i k = .again ∧ editKeyLine l k = l) ∨
      ∃ str' i', getstrKey n str i k = .redraw str' i' ∧ HoldsLine n heap str' i' (editKeyLine l k) := by
  have hin := l.inside
  have hfits := l.fits
  have hidx := h.index
  have hlen := h.str_eq hn hlt
  have hn1 : sub32 n 1 = n - 1 := sub32_of_le (by omega) hlt
  have hni : sub32 n i = n - i := sub32_of_le (by omega) hlt
  unfold getstrKey editKeyLine keyEdit
  rw [hlen, hn1, hni]
  by_cases h0 : k = 0
  · subst h0
    exact Or.inl ⟨rfl, rfl⟩
  rw [if_neg h0]
  by_cases hback : k = keyBackspace
  · rw [if_pos hback, if_pos hback]
    by_cases hi : 0 < i
    · rw [if_pos hi]
      exact Or.inr ⟨_, _, rfl, h.backspace hn hi⟩
    · rw [if_neg hi]
      have htext : l.backspace.text = l.text := by simp only [LineEditor.backspace, ← hidx, if_neg hi]
      have hcursor : l.backspace.cursor = l.cursor := by simp only [LineEditor.backspace]; omega
      have heq : l.backspace = l := LineEditor.ext htext hcursor
      refine Or.inr ⟨_, _, rfl, ?_⟩
      simp only [Option.elim, LineEditor.apply]
      rwa [heq]
  rw [if_neg hback, if_neg hback]
  by_cases hdel : k = keyDel
  · rw [if_pos hdel, if_pos hdel]
    by_cases hi : i < n - 1
    · rw [if_pos hi, sub32_of_le (by omega) (by omega)]
      exact Or.inr ⟨_, _, rfl, h.delete⟩
    · rw [if_neg hi]
      exact Or.inr ⟨_, _, rfl, h.delete_last hi⟩
  rw [if_neg hdel, if_neg hdel, if_neg hk]
  by_cases hleft : k = keyLeft
  · subst hleft
    rw [if_pos rfl]
    by_cases hi : 0 < i
    · rw [if_pos ⟨rfl, hi⟩]
      have hprev : i - 1 = l.cursor - 1 := by rw [hidx]
      refine Or.inr ⟨_, _, rfl, ?_⟩
      rw [hprev]
      exact h.moveTo _
    · have heq : l.apply .left = l := LineEditor.ext rfl (by simp only [LineEditor.apply, LineEditor.moveTo]; omega)
      refine Or.inl ⟨?_, heq⟩
      rw [if_neg (by simp [hi])]
      rfl
  rw [if_neg (by simp [hleft]), if_neg hleft]
  by_cases hright : k = keyRight
  · subst hright
    rw [if_pos rfl]
    by_cases hi : i < l.text.length
    · rw [if_pos ⟨rfl, hi⟩]
      have hmin : i + 1 = min (l.cursor + 1) l.text.length := by omega
      refine Or.inr ⟨_, _, rfl, ?_⟩
      rw [hmin]
      exact h.moveTo _
    · have heq : l.apply .right = l := LineEditor.ext rfl (by simp only [LineEditor.apply, LineEditor.moveTo]; omega)
      refine Or.inl ⟨?_, heq⟩
      rw [if_neg (by simp [hi])]
      rfl
  rw [if_neg (by simp [hright]), if_neg hright]
  by_cases hhome : k = keyHome
  · rw [if_pos hhome, if_pos hhome]
    exact Or.inr ⟨_, _, rfl, h.moveTo (Nat.zero_le _)⟩
  rw [if_neg hhome, if_neg hhome]
  by_cases hend : k = keyEnd
  · rw [if_pos hend, if_pos hend]
    exact Or.inr ⟨_, _, rfl, h.moveTo (Nat.le_refl _)⟩
  rw [if_neg hend, if_neg hend]
  by_cases hchar : k = keyTab ∨ 0x20 ≤ k ∧ k ≤ 0x7E
  · -- a character: its code is not 0, and goes in unless the line is full
    have hrange : 0 < k ∧ k < 256 := by
      rcases hchar with rfl | hchar
      · exact ⟨by decide, by decide⟩
      · omega
    have hmask : k &&& 0xFF = k := (Nat.and_two_pow_sub_one_eq_mod k 8).trans (Nat.mod_eq_of_lt hrange.2)
    have hcode : UInt8.ofNat k ≠ 0 := by
      intro hzero
      have h := congrArg UInt8.toNat hzero
      rw [UInt8.toNat_ofNat'] at h
      have h0 : (0 : UInt8).toNat = 0 := rfl
      omega
    rw [if_neg (by omega), if_pos hchar, hmask]
    by_cases hfree : l.text.length < n - 1
    · rw [if_pos ⟨hfree, by omega⟩, sub32_of_le (by omega) (by omega)]
      exact Or.inr ⟨_, _, rfl, h.insert hfree hcode⟩
    · rw [if_neg fun hc => hfree hc.1]
      have heq : l.insert (UInt8.ofNat k) = l := by rw [LineEditor.insert, dif_neg hfree]
      refine Or.inr ⟨_, _, rfl, ?_⟩
      simp only [Option.elim, LineEditor.apply]
      rwa [heq]
  · rw [if_neg hchar, if_pos (by omega)]
    exact Or.inl ⟨rfl, rfl⟩

end Key

/-! ## A run of keys -/

/-- The keys after the first RETURN are not looked at; those before it edit the line. -/
theorem getstrLoop_holds {n : Nat} (hn : 2 ≤ n) (hlt : n < 4294967296) (heap : Mem) (col row : Nat) :
    ∀ (keys : List Nat) (st : Getstr) (l : LineEditor UInt8 (n - 1)), HoldsLine n heap st.str st.i l →
      HoldsLine n heap (getstrLoop n col row keys st).1.str (getstrLoop n col row keys st).1.i
          (l.run ((keys.takeWhile (· ≠ keyReturn)).filterMap keyEdit)) ∧
        ((getstrLoop n col row keys st).2 = true ↔ keyReturn ∈ keys) := by
  intro keys
  induction keys with
  | nil => exact fun st l h => ⟨h, iff_of_false Bool.false_ne_true List.not_mem_nil⟩
  | cons k keys ih =>
    intro st l h
    by_cases hk : k = keyReturn
    · have hleave : getstrKey n st.str st.i k = .leave := by rw [hk]; rfl
      rw [getstrLoop, hleave, List.takeWhile_cons_of_neg (by simp [hk])]
      exact ⟨h, iff_of_true rfl (by simp [hk])⟩
    · have hrun : l.run (((k :: keys).takeWhile (· ≠ keyReturn)).filterMap keyEdit) =
          (editKeyLine l k).run ((keys.takeWhile (· ≠ keyReturn)).filterMap keyEdit) := by
        rw [List.takeWhile_cons_of_pos (by simp [hk]), List.filterMap_cons, editKeyLine]
        cases keyEdit k with
        | none => rfl
        | some e => rfl
      have hmem : keyReturn ∈ k :: keys ↔ keyReturn ∈ keys := by
        rw [List.mem_cons]
        exact ⟨fun hor => hor.resolve_left fun he => hk he.symm, Or.inr⟩
      rw [hrun, hmem]
      rcases h.key hn hlt hk with ⟨hagain, hsame⟩ | ⟨str', i', hredraw, h'⟩
      · rw [getstrLoop, hagain, hsame]
        exact ih st l h
      · rw [getstrLoop, hredraw]
        exact ih _ _ h'

/-- `getstr` refines the line editor: after any keys its buffer and its index are those of the line they edit, and once RETURN is
among them it returns the length of the text that the keys before RETURN made. -/
theorem getstr_line_editor {n : Nat} (hn : 2 ≤ n) (hlt : n < 4294967296) (heap : Mem) (col row : Nat) (keys : List Nat) :
    HoldsLine n heap (getstrLoop n col row keys (getstrInit n heap)).1.str
        (getstrLoop n col row keys (getstrInit n heap)).1.i (editedLine (n - 1) keys) ∧
      (keyReturn ∈ keys → ∃ st, getstr n heap col row keys = some ((editedLine (n - 1) keys).text.length, st) ∧
        HoldsLine n heap st.str st.i (editedLine (n - 1) keys)) := by
  have hinit : HoldsLine n heap (getstrInit n heap).str (getstrInit n heap).i (LineEditor.empty : LineEditor UInt8 (n - 1)) := by
    refine ⟨fun j hj => ?_, fun j hj => ?_, rfl, fun ch hch => absurd hch List.not_mem_nil⟩
    · simp only [getstrInit]
      rw [Mem.memset_apply, if_pos (by omega)]
      rfl
    · simp only [getstrInit]
      rw [Mem.memset_apply, if_neg (by omega)]
  obtain ⟨hloop, hend⟩ := getstrLoop_holds hn hlt heap col row keys _ _ hinit
  refine ⟨hloop, fun hret => ?_⟩
  have hdone := hend.2 hret
  have hfits := (editedLine (n - 1) keys).fits
  unfold getstr
  generalize getstrLoop n col row keys (getstrInit n heap) = r at hloop hdone
  obtain ⟨st, ended⟩ := r
  obtain rfl : ended = true := hdone
  -- the last byte of the buffer is 0 already
  have hlast : st.str.set (sub32 n 1) 0 = st.str := by
    funext j
    by_cases hj : j = n - 1
    · have hzero := hloop.byte j (by omega)
      rw [sub32_of_le (by omega) hlt, ← hj, Mem.set_self, hzero]
      exact (List.getD_eq_default _ _ (show (editedLine (n - 1) keys).text.length ≤ j by omega)).symm
    · rw [sub32_of_le (by omega) hlt, Mem.set_ne _ _ hj]
  refine ⟨{ str := st.str, i := st.i, calls := st.calls ++ [.putc 10] }, ?_, hloop⟩
  simp only [hlast]
  rw [hloop.str_eq hn hlt]
  rfl

theorem getstr_line_editor_three :
    HoldsLine 3 (fun _ => 7) (getstrLoop 3 0 0 [97, 98, 99, keyLeft, keyDel] (getstrInit 3 fun _ => 7)).1.str
      (getstrLoop 3 0 0 [97, 98, 99, keyLeft, keyDel] (getstrInit 3 fun _ => 7)).1.i
      (editedLine 2 [97, 98, 99, keyLeft, keyDel]) :=
  (getstr_line_editor (by decide) (by decide) (fun _ => 7) 0 0 [97, 98, 99, keyLeft, keyDel]).1

end NanoS32
