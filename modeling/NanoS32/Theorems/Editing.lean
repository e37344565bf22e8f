import NanoS32.Lib.LineEditor
import NanoS32.Theorems.Contents
import NanoS32.Theorems.Edit
import Mathlib.Data.List.TakeWhile

/-!
# The editor edits a text

The text that the editor stands for: a text with a cursor, and what each key does to it. While no insertion finds the memory full,
the buffer holds this text and a 0 after every key of a session, whatever the keys are, and it is this that is saved.
-/

namespace NanoS32

open Prog
open LineEditor (Edit)

/-! ## The text and the keys -/

/-- A text that fits the editor. The final 0 takes the last of the bytes that are allocated. -/
abbrev EditText : Type := LineEditor UInt8 (allocated - 1)

/-- The edit that a key makes at the cursor. -/
def editAt (k : Nat) : Option (Edit UInt8) :=
  if insertKey k = true then some (.insert (UInt8.ofNat (if k = keyReturn then 10 else k)))
  else if k = keyLeft then some .left
  else if k = keyRight then some .right
  else if k = keyBackspace then some .backspace
  else if k = keyDel then some .delete
  else none

/-- The column and the line that a key asks for, from those of the cursor. -/
def editTarget (k col line : Nat) : Option (Nat × Nat) :=
  if k = keyUp then if 0 < line then some (col, line - 1) else none
  else if k = keyDown then some (col, line + 1)
  else if k = keyHome then some (0, line)
  else if k = keyEnd then some (0xFFFF, line)
  else if k = keyPgDn then some (col, line + (screenHeight - 1))
  else if k = keyPgUp then some (col, line - min line (screenHeight - 1))
  else none

/-- The part of a text that is shown: up to its first 0. -/
def shownText (text : CStr) : CStr := text.takeWhile (· ≠ 0)

theorem length_shownText_le (text : CStr) : (shownText text).length ≤ text.length := (List.takeWhile_prefix _).length_le

/-- The text with its cursor at a column and a line of what is shown. -/
def EditText.goTo (l : EditText) (p : Nat × Nat) : EditText :=
  l.moveTo (linecolToBufferOffset (shownText l.text) p.1 p.2)
    (Nat.le_trans (linecolToBufferOffset_le _ _ _) (length_shownText_le _))

/-- What a key does. -/
def EditText.press (l : EditText) (k : Nat) : EditText :=
  ((editAt k).map l.apply).getD
    ((editTarget k (bufferOffsetToLinecol (shownText l.text) l.cursor).1
      (bufferOffsetToLinecol (shownText l.text) l.cursor).2).elim l l.goTo)

/-- What the keys do up to the escape key, which ends the session. -/
def EditText.typed (l : EditText) (keys : List Nat) : EditText := (keys.takeWhile (· ≠ keyEsc)).foldl EditText.press l

/-- No key inserts a character into a text that is as long as it can be. -/
def EditText.Fits (l : EditText) (keys : List Nat) : Prop :=
  ∀ ks k, ks ++ [k] <+: keys → keyEsc ∉ ks → insertKey k = true → (l.typed ks).text.length < allocated - 1

theorem EditText.length_press_le (l : EditText) (k : Nat) : (l.press k).text.length ≤ l.text.length + 1 := by
  unfold EditText.press
  cases editAt k with
  | none =>
    cases editTarget k (bufferOffsetToLinecol (shownText l.text) l.cursor).1 (bufferOffsetToLinecol (shownText l.text) l.cursor).2 with
    | none => exact Nat.le_succ _
    | some p => exact Nat.le_succ _
  | some e => exact l.length_apply_le e

/-- A session of fewer keys than there are free bytes. -/
theorem EditText.fits_of_length {l : EditText} {keys : List Nat} (h : l.text.length + keys.length ≤ allocated - 1) : l.Fits keys := by
  have hlength : ∀ (ks : List Nat) (t : EditText), (ks.foldl EditText.press t).text.length ≤ t.text.length + ks.length := by
    intro ks
    induction ks with
    | nil => exact fun t => Nat.le_refl _
    | cons k ks ih =>
      intro t
      have hpress := t.length_press_le k
      have hrest := ih (t.press k)
      simp only [List.foldl_cons, List.length_cons]
      omega
  intro ks k hpre _ _
  have htyped := hlength (ks.takeWhile (· ≠ keyEsc)) l
  have htake := (List.takeWhile_prefix (p := fun k => decide (k ≠ keyEsc)) (l := ks)).length_le
  have hkeys := hpre.length_le
  rw [List.length_append, List.length_singleton] at hkeys
  exact Nat.lt_of_le_of_lt (Nat.le_trans htyped (Nat.add_le_add_left htake _)) (by omega)

/-! ## The buffer -/

/-- The buffer holds a text and a 0 behind it, with the cursor where it is in the text. -/
structure ShowsText (st : EditState) (l : EditText) : Prop where
  size : st.buffSize = l.text.length + 1
  bytes : ∀ j ≤ l.text.length, st.buff j = l.text.getD j 0
  cursor : st.cursor = l.cursor

/-- The string at a place where a text and a 0 are. -/
theorem Mem.strFrom_takeWhile (m : Mem) : ∀ (text : CStr) (k p : Nat), text.length < k → (∀ j ≤ text.length, m (p + j) = text.getD j 0) →
    m.strFrom k p = shownText text := by
  intro text
  induction text with
  | nil =>
    intro k p hk h
    obtain ⟨k, rfl⟩ := Nat.exists_eq_add_of_lt hk
    have h0 : m p = 0 := h 0 (Nat.le_refl 0)
    simp [Mem.strFrom, h0, shownText]
  | cons ch text ih =>
    intro k p hk h
    obtain ⟨k, rfl⟩ : ∃ k', k = k' + 1 := ⟨k - 1, by simp at hk; omega⟩
    have hch : m p = ch := h 0 (Nat.zero_le _)
    have hrest : m.strFrom k (p + 1) = shownText text := by
      refine ih k (p + 1) (by simpa using hk) fun j hj => ?_
      have hj' := h (j + 1) (by simpa using hj)
      rwa [Nat.add_comm j 1, ← Nat.add_assoc, Nat.add_comm 1 j] at hj'
    by_cases hz : ch = 0
    · simp [Mem.strFrom, hch, shownText, hz]
    · simp [Mem.strFrom, hch, shownText, hz, hrest]

namespace ShowsText

variable {st : EditState} {l : EditText}

theorem length_lt (l : EditText) : l.text.length < allocated := Nat.lt_of_le_of_lt l.fits (by decide)

/-- The string that the functions for lines and columns get. -/
theorem str (h : ShowsText st l) : st.buff.str = shownText l.text := by
  refine st.buff.strFrom_takeWhile l.text _ 0 (Nat.lt_trans (length_lt l) (by decide)) fun j hj => ?_
  rw [Nat.zero_add]
  exact h.bytes j hj

/-- What is saved. -/
theorem saved (h : ShowsText st l) : List.ofFn (st.buff.array 0 st.buffSize) = l.text ++ [0] := by
  refine List.ext_getElem (by simp [h.size]) fun j hj _ => ?_
  have hj' : j ≤ l.text.length := by simpa [h.size, Nat.lt_succ_iff] using hj
  simp only [List.getElem_ofFn, Mem.array, Nat.zero_add]
  rw [h.bytes j hj', List.getElem_append]
  split_ifs with hlt
  · exact List.getD_eq_getElem _ _ hlt
  · rw [List.getD_eq_default _ _ (Nat.le_of_not_lt hlt), List.getElem_singleton]

/-- The cursor keys leave the text. -/
theorem moveTo (h : ShowsText st l) {i : Nat} (hi : i ≤ l.text.length) : ShowsText { st with cursor := i } (l.moveTo i hi) :=
  ⟨h.size, h.bytes, rfl⟩

theorem goTo (h : ShowsText st l) (p : Nat × Nat) :
    ShowsText { st with cursor := linecolToBufferOffset st.buff.str p.1 p.2 } (l.goTo p) := by
  rw [h.str]
  exact h.moveTo _

/-- An insertion moves what is behind the cursor, and the 0, one place up. -/
theorem insert (h : ShowsText st l) (hroom : l.text.length < allocated - 1) (v : UInt8) :
    ShowsText
      { st with
        buff := (st.buff.memcpy (st.cursor + 1) st.cursor (st.buffSize - st.cursor)).set st.cursor v
        buffSize := st.buffSize + 1
        cursor := st.cursor + 1 }
      (l.apply (.insert v)) := by
  have hin := l.inside
  have htext : (l.apply (.insert v)).text = l.text.insertIdx l.cursor v := by
    simp only [LineEditor.apply, LineEditor.insert, dif_pos hroom]
  have hlength : (l.apply (.insert v)).text.length = l.text.length + 1 := by
    rw [htext, List.length_insertIdx_of_le_length hin]
  refine ⟨by rw [hlength, ← h.size], fun j hj => ?_, ?_⟩
  · rw [hlength] at hj
    change (st.buff.memcpy (st.cursor + 1) st.cursor (st.buffSize - st.cursor)).set st.cursor v j = _
    rw [htext, LineEditor.getD_insertIdx hin, h.cursor, h.size]
    by_cases heq : j = l.cursor
    · simp [heq, Mem.set_self]
    · rw [Mem.set_ne _ _ heq, Mem.memcpy_apply, if_neg heq]
      by_cases hlt : j < l.cursor
      · rw [if_neg (by omega), if_pos hlt]
        exact h.bytes j (by omega)
      · have hmove : l.cursor + (j - (l.cursor + 1)) = j - 1 := by omega
        rw [if_pos (by omega), if_neg hlt, hmove]
        exact h.bytes (j - 1) (by omega)
  · simp only [LineEditor.apply, LineEditor.insert, dif_pos hroom, h.cursor]

/-- What a deletion at a place moves down. -/
theorem erased (h : ShowsText st l) {i : Nat} (hi : i < l.text.length) {j : Nat} (hj : j ≤ (l.text.eraseIdx i).length) :
    st.buff.memcpy i (i + 1) (l.text.length - i) j = (l.text.eraseIdx i).getD j 0 := by
  rw [List.length_eraseIdx_of_lt hi] at hj
  rw [Mem.memcpy_apply, LineEditor.getD_eraseIdx]
  by_cases hlt : j < i
  · rw [if_neg (by omega), if_pos hlt]
    exact h.bytes j (by omega)
  · have hmove : i + 1 + (j - i) = j + 1 := by omega
    rw [if_pos (by omega), if_neg hlt, hmove]
    exact h.bytes (j + 1) (by omega)

/-- The deletion of the character before the cursor. -/
theorem backspace (h : ShowsText st l) (hc : 0 < st.cursor) :
    ShowsText
      { st with
        buff := st.buff.memcpy (st.cursor - 1) st.cursor (st.buffSize - st.cursor)
        buffSize := st.buffSize - 1
        cursor := st.cursor - 1 }
      (l.apply .backspace) := by
  rw [h.cursor] at hc
  have hi : l.cursor - 1 < l.text.length := Nat.lt_of_lt_of_le (Nat.sub_lt hc Nat.one_pos) l.inside
  have htext : (l.apply .backspace).text = l.text.eraseIdx (l.cursor - 1) := if_pos hc
  refine ⟨?_, fun j hj => ?_, congrArg (· - 1) h.cursor⟩
  · have hpos : 1 ≤ l.text.length := Nat.lt_of_le_of_lt (Nat.zero_le _) hi
    simp only [htext, List.length_eraseIdx_of_lt hi, h.size, Nat.add_sub_cancel, Nat.sub_add_cancel hpos]
  · have hcount : l.text.length + 1 - l.cursor = l.text.length - (l.cursor - 1) := by omega
    rw [htext] at hj ⊢
    rw [← h.erased hi hj, ← hcount, Nat.sub_add_cancel hc, ← h.size, ← h.cursor]

/-- The deletion of the character at the cursor. -/
theorem delete (h : ShowsText st l) (hc : st.cursor < st.buffSize - 1) :
    ShowsText
      { st with
        buff := st.buff.memcpy st.cursor (st.cursor + 1) (st.buffSize - st.cursor - 1)
        buffSize := st.buffSize - 1 }
      (l.apply .delete) := by
  rw [h.cursor, h.size, Nat.add_sub_cancel] at hc
  have htext : (l.apply .delete).text = l.text.eraseIdx l.cursor := rfl
  refine ⟨?_, fun j hj => ?_, h.cursor⟩
  · have hpos : 1 ≤ l.text.length := Nat.lt_of_le_of_lt (Nat.zero_le _) hc
    simp only [htext, List.length_eraseIdx_of_lt hc, h.size, Nat.add_sub_cancel, Nat.sub_add_cancel hpos]
  · have hcount : l.text.length + 1 - l.cursor - 1 = l.text.length - l.cursor := by omega
    rw [htext] at hj ⊢
    rw [← h.erased hc hj, ← hcount, ← h.size, ← h.cursor]

/-! ## The keys -/

/-- A key that goes to a column and a line. -/
theorem jump (h : ShowsText st l) {k : Nat} (hk : editAt k = none) {p : Nat × Nat}
    (hp : editTarget k (bufferOffsetToLinecol st.buff.str st.cursor).1 (bufferOffsetToLinecol st.buff.str st.cursor).2 = some p) :
    ShowsText { st with cursor := linecolToBufferOffset st.buff.str p.1 p.2 } (l.press k) := by
  have hgo : l.press k = l.goTo p := by
    rw [EditText.press, hk, ← h.str, ← h.cursor, hp]
    rfl
  exact hgo ▸ h.goTo p

/-- A key that does nothing to the text. -/
theorem stay (h : ShowsText st l) {k : Nat} (hk : editAt k = none)
    (hnone : editTarget k (bufferOffsetToLinecol st.buff.str st.cursor).1 (bufferOffsetToLinecol st.buff.str st.cursor).2 = none) :
    ShowsText st (l.press k) := by
  have hsame : l.press k = l := by
    rw [EditText.press, hk, ← h.str, ← h.cursor, hnone]
    rfl
  exact hsame.symm ▸ h

/-- A key that is ignored does nothing to the text either. -/
theorem press_ignored {k : Nat} (hk : ignoredKey k = true) : l.press k = l := by
  have hinsert : ¬insertKey k = true := by simp [insertKey, hk]
  have hne : ∀ key, ignoredKey key = false → k ≠ key := by
    rintro key hkey rfl
    exact absurd (hk.symm.trans hkey) (by decide)
  rw [EditText.press, editAt, if_neg hinsert, if_neg (hne keyLeft rfl), if_neg (hne keyRight rfl), if_neg (hne keyBackspace rfl),
    if_neg (hne keyDel rfl), editTarget, if_neg (hne keyUp rfl), if_neg (hne keyDown rfl), if_neg (hne keyHome rfl),
    if_neg (hne keyEnd rfl), if_neg (hne keyPgDn rfl), if_neg (hne keyPgUp rfl)]
  rfl

/-- A key that makes an edit. -/
theorem press_edit {k : Nat} {e : Edit UInt8} (hk : editAt k = some e) : l.press k = l.apply e := by
  rw [EditText.press, hk]
  rfl

/-- Every key that is not ignored does to the buffer what it does to the text. -/
theorem key (h : ShowsText st l) {k : Nat} (hignored : ignoredKey k = false)
    (hroom : insertKey k = true → l.text.length < allocated - 1) : ShowsText (keyAction st k) (l.press k) := by
  by_cases hk : insertKey k = true
  · rw [keyAction_insert st hk, press_edit (if_pos hk)]
    exact h.insert (hroom hk) _
  · have hlist : k ∈ [keyF1, keyUp, keyDown, keyLeft, keyRight, keyHome, keyEnd, keyPgDn, keyPgUp, keyBackspace, keyDel,
        keyEsc] := by
      by_contra hno
      rw [← List.contains_iff_mem, Bool.not_eq_true] at hno
      exact hk (by rw [insertKey, hignored, hno]; rfl)
    simp only [List.mem_cons, List.not_mem_nil, or_false] at hlist
    rcases hlist with rfl | rfl | rfl | rfl | rfl | rfl | rfl | rfl | rfl | rfl | rfl | rfl
    · exact h.stay rfl rfl
    · by_cases hline : 0 < (bufferOffsetToLinecol st.buff.str st.cursor).2
      · have hact : keyAction st keyUp = _ := if_pos hline
        exact hact ▸ h.jump (k := keyUp) rfl (if_pos hline)
      · have hact : keyAction st keyUp = st := if_neg hline
        exact hact.symm ▸ h.stay (k := keyUp) rfl (if_neg hline)
    · exact h.jump (k := keyDown) rfl rfl
    · rw [press_edit (e := .left) rfl]
      change ShowsText (if _ then _ else st) _
      split_ifs with hc
      · exact ⟨h.size, h.bytes, congrArg (· - 1) h.cursor⟩
      · exact ⟨h.size, h.bytes, by rw [h.cursor] at hc ⊢; simp [LineEditor.apply, LineEditor.moveTo]; omega⟩
    · rw [press_edit (e := .right) rfl]
      change ShowsText (if _ then _ else st) _
      have hin := l.inside
      split_ifs with hc
      · rw [h.cursor, h.size, Nat.add_sub_cancel] at hc
        exact ⟨h.size, h.bytes, (congrArg (· + 1) h.cursor).trans (Nat.min_eq_left hc).symm⟩
      · rw [h.cursor, h.size, Nat.add_sub_cancel] at hc
        have hend : l.cursor = l.text.length := Nat.le_antisymm hin (Nat.le_of_not_lt hc)
        exact ⟨h.size, h.bytes, (h.cursor.trans hend).trans (Nat.min_eq_right (by rw [hend]; exact Nat.le_succ _)).symm⟩
    · exact h.jump (k := keyHome) rfl rfl
    · exact h.jump (k := keyEnd) rfl rfl
    · exact h.jump (k := keyPgDn) rfl rfl
    · exact h.jump (k := keyPgUp) rfl rfl
    · rw [press_edit (e := .backspace) rfl]
      change ShowsText (if _ then _ else st) _
      split_ifs with hc
      · exact h.backspace hc
      · have hsame : l.apply .backspace = l := by
          rw [h.cursor] at hc
          have hzero : l.cursor = 0 := by omega
          exact LineEditor.ext (if_neg hc) (by simp [LineEditor.apply, LineEditor.backspace, hzero])
        exact hsame.symm ▸ h
    · rw [press_edit (e := .delete) rfl]
      change ShowsText (if _ then _ else st) _
      split_ifs with hc
      · exact h.delete hc
      · rw [h.cursor, h.size, Nat.add_sub_cancel] at hc
        have hsame : l.apply .delete = l := LineEditor.ext (List.eraseIdx_of_length_le (Nat.le_of_not_lt hc)) rfl
        exact hsame.symm ▸ h
    · exact h.stay rfl rfl

end ShowsText

/-! ## Sessions -/

/-- The text of a file: a 0 at its end is taken for the final one. -/
def fileText (bytes : List UInt8) : CStr := if bytes.getLast? = some 0 then bytes.dropLast else bytes

/-- The text that a session starts with: that of the file, or none where there is no file. -/
structure OpensText (env : Env) (s : Sys) (path : CStr) (l : EditText) : Prop where
  cursor : l.cursor = 0
  new : ∀ code s₁, (fsGetEntry env path unknownValue unknownValue).run s = .error code s₁ → l.text = []
  file : ∀ n entry s₁ bytes s₂, (fsGetEntry env path unknownValue unknownValue).run s = .ok (n, entry) s₁ →
    (fsReadFile env path 0 entry.size.toNat).run s₁ = .ok bytes s₂ → l.text = fileText bytes

section Session

variable {env : Env} {s : Sys} {path : CStr} {heap : Mem} {l : EditText}

/-- The buffer that a file is loaded into. -/
theorem loaded_showsText (heap : Mem) {bytes : List UInt8} {size : Nat} (hlen : bytes.length = size)
    (hz : bytes.getLast? = some 0 ∨ heap size = 0) (hcursor : l.cursor = 0) (htext : l.text = fileText bytes) :
    ShowsText
      { buff := (heap.memset 0 0 size).store 0 bytes
        buffSize := if bytes.getLast? = some 0 then size else size + 1
        cursor := 0
        currentLine := 0 } l := by
  obtain ⟨hend, hafter⟩ := loaded_byte heap hlen
  have hbyte : ∀ j < size, ((heap.memset 0 0 size).store 0 bytes) j = bytes.getD j 0 := by
    intro j hj
    rw [Mem.store_of_mem _ (Nat.zero_le j) (by omega), Nat.sub_zero]
  unfold fileText at htext
  by_cases hlast : bytes.getLast? = some 0
  · rw [if_pos hlast] at htext ⊢
    have hpos : 0 < size := by
      rw [← hlen, List.length_pos_iff]
      rintro rfl
      cases hlast
    have hlength : l.text.length = size - 1 := by rw [htext, List.length_dropLast, hlen]
    refine ⟨by simp only [hlength]; omega, fun j hj => ?_, hcursor.symm⟩
    rw [hlength] at hj
    rcases Nat.lt_or_eq_of_le hj with hlt | rfl
    · refine (hbyte j (by omega)).trans ?_
      rw [htext, List.getD_eq_getElem _ _ (by omega), List.getD_eq_getElem _ _ (by rw [List.length_dropLast]; omega),
        List.getElem_dropLast]
    · exact (hend hlast).trans (List.getD_eq_default _ _ (Nat.le_of_eq hlength)).symm
  · rw [if_neg hlast] at htext ⊢
    refine ⟨by rw [htext, hlen], fun j hj => ?_, hcursor.symm⟩
    rw [htext, hlen] at hj
    rw [htext]
    rcases Nat.lt_or_eq_of_le hj with hlt | rfl
    · exact hbyte j hlt
    · exact (hafter.trans (hz.resolve_left hlast)).trans (List.getD_eq_default _ _ (Nat.le_of_eq hlen)).symm

theorem editLoad_showsText (hz : EndsInZero env s path heap) (hl : OpensText env s path l) {buff : Mem} {size : Nat} {s' : Sys}
    (h : (editLoad env path heap).run s = .ok (some (buff, size)) s') :
    ShowsText { buff := buff, buffSize := size, cursor := 0, currentLine := 0 } l := by
  rcases editLoad_ok h with ⟨code, hget, rfl, rfl⟩ | ⟨n, entry, s₁, bytes, hget, hfile, hsize, hread, hlen⟩
  · have htext := hl.new code s' hget
    refine ⟨by rw [htext]; rfl, fun j hj => ?_, hl.cursor.symm⟩
    rw [htext] at hj ⊢
    obtain rfl : j = 0 := Nat.le_zero.1 hj
    rfl
  · rw [editLoad_file heap hget hfile hsize hread hlen] at h
    cases h
    exact loaded_showsText heap hlen (hz n entry s₁ bytes _ hget hfile hsize hread hlen) hl.cursor
      (hl.file n entry s₁ bytes _ hget hread)

/-- One more key that is typed before the session has ended. -/
theorem EditText.typed_snoc (l : EditText) {keys : List Nat} (hesc : keyEsc ∉ keys) (k : Nat) :
    l.typed (keys ++ [k]) = (l.typed keys).press k := by
  have hall : ∀ key ∈ keys, decide (key ≠ keyEsc) = true := fun key hkey => decide_eq_true fun h => hesc (h ▸ hkey)
  rw [EditText.typed, EditText.typed, List.takeWhile_append_of_pos hall, List.takeWhile_eq_self_iff.2 hall, List.foldl_append]
  by_cases hk : k = keyEsc
  · subst hk
    rfl
  · simp [hk]

/-- Keys that are typed after the session has ended. -/
theorem EditText.typed_esc (l : EditText) {keys : List Nat} (hesc : keyEsc ∈ keys) (k : Nat) : l.typed (keys ++ [k]) = l.typed keys := by
  have hshort : (keys.takeWhile (· ≠ keyEsc)).length ≠ keys.length := by
    intro hlength
    have hself : keys.takeWhile (· ≠ keyEsc) = keys := (List.takeWhile_prefix _).eq_of_length hlength
    exact absurd (List.takeWhile_eq_self_iff.1 hself keyEsc hesc) (by decide)
  rw [EditText.typed, EditText.typed, List.takeWhile_append, if_neg hshort]

/-- The buffer after any keys. -/
theorem showsText_typed (hz : EndsInZero env s path heap) (hl : OpensText env s path l) {keys : List Nat} (hfits : l.Fits keys)
    {st : EditState} (hst : EditReaches env s path heap keys st) : ShowsText st (l.typed keys) := by
  induction keys using List.reverseRecOn generalizing st with
  | nil =>
    obtain ⟨buff, size, s', hload, rfl⟩ := editReaches_nil hst
    exact editLoad_showsText hz hl hload
  | append_singleton keys k ih =>
    have hfits' : l.Fits keys := fun ks k' hpre => hfits ks k' (hpre.trans (List.prefix_append keys [k]))
    by_cases hesc : keyEsc ∈ keys
    · rw [l.typed_esc hesc]
      exact ih hfits' (editReaches_esc hesc hst)
    · obtain ⟨st₁, s₁, s₂, hrun, hkey⟩ := (editReaches_snoc hesc).1 hst
      have h := ih hfits' ⟨s₁, hrun⟩
      rw [l.typed_snoc hesc]
      rcases editKey_ok hkey with ⟨hk, rfl⟩ | ⟨hk, n, rfl⟩
      · rw [ShowsText.press_ignored hk]
        exact h
      · have hact := h.key hk (hfits keys k (List.prefix_refl _) hesc)
        exact ⟨hact.size, hact.bytes, hact.cursor⟩

/-- A session on a path where nothing is starts with no text, whatever the memory holds. -/
theorem opensText_new {code : Nat} {s₁ : Sys} (hget : (fsGetEntry env path unknownValue unknownValue).run s = .error code s₁)
    (heap : Mem) : OpensText env s path LineEditor.empty ∧ EndsInZero env s path heap := by
  refine ⟨⟨rfl, fun _ _ _ => rfl, fun n entry s₁ bytes s₂ hok => ?_⟩, fun n entry s₁ bytes s₂ hok => ?_⟩
  · cases hget.symm.trans hok
  · cases hget.symm.trans hok

/-- Without the key that saves, the disks are left as they are. -/
theorem editLoop_unsaved : ∀ (keys : List Nat) (st : EditState) (s : Sys), keyF1 ∉ keys →
    ∃ st', (editLoop env path keys st).run s = .ok st' s := by
  intro keys
  induction keys with
  | nil => exact fun st s _ => ⟨st, rfl⟩
  | cons k keys ih =>
    intro st s hkeys
    have hk : k ≠ keyF1 := fun h => hkeys (h ▸ List.mem_cons_self)
    obtain ⟨st₁, hkey⟩ : ∃ st₁, (editKey env path st k).run s = .ok st₁ s := by
      unfold editKey saveAction
      split_ifs
      · exact ⟨st, rfl⟩
      · exact ⟨_, rfl⟩
    rw [editLoop, bind_ok hkey]
    split_ifs
    · exact ⟨st₁, rfl⟩
    · exact ih st₁ s fun h => hkeys (List.mem_cons_of_mem _ h)

theorem editMain_unsaved {code : Nat} (hget : (fsGetEntry env path unknownValue unknownValue).run s = .error code s) (heap : Mem)
    {keys : List Nat} (hkeys : keyF1 ∉ keys) : ∃ st, (editMain env path heap keys).run s = .ok (some st) s := by
  have hload : (editLoad env path heap).run s = .ok (some (heap.memset 0 0 1, 1)) s := bind_ok (attempt_error hget)
  let st₀ : EditState := { buff := heap.memset 0 0 1, buffSize := 1, cursor := 0, currentLine := 0 }
  obtain ⟨st, hloop⟩ : ∃ st, (editLoop env path keys st₀).run s = .ok st s := editLoop_unsaved keys st₀ s hkeys
  exact ⟨st, (bind_ok hload).trans (bind_ok hloop)⟩

/-- In every session the buffer is the text that the keys make of the text of the file, and a 0; the bytes that are saved are these,
and the string that is shown is the text up to its first 0. The memory that the editor gets has a 0 where the file ends without one,
and no key inserts a character into a text that fills the memory. -/
theorem edit_text (hz : EndsInZero env s path heap) (hl : OpensText env s path l) {keys : List Nat} (hfits : l.Fits keys)
    {st : EditState} (hst : EditReaches env s path heap keys st) :
    ShowsText st (l.typed keys) ∧ List.ofFn (st.buff.array 0 st.buffSize) = (l.typed keys).text ++ [0] ∧
      st.buff.str = shownText (l.typed keys).text := by
  have h := showsText_typed hz hl hfits hst
  exact ⟨h, h.saved, h.str⟩

end Session

/-- Nothing is at the path `g` of the disk with one file. -/
theorem oneFile_free : (fsGetEntry sampleEnv [103] unknownValue unknownValue).run oneFile = .error errorNotFound oneFile := by
  have hs : Stays Kept.names True sampleEnv 2 oneFile := freshSys_fresh.stays.run (writeF_safe Kept.names)
  obtain ⟨hr, hdead | ⟨C, hf, -, -⟩⟩ := hs
  · exact absurd hdead.nent (by decide +kernel)
  · have hget := fsGetEntry_run hr hf.geo (show pathGetDisk sampleEnv [103] = 2 by decide)
    have hres : Vol.resolve (oneFile.disk 2) sampleEnv [103] = none := by decide +kernel
    rwa [hres, Sys.withVol_self] at hget

/-- Keys that make the text `acb`. -/
def sampleKeys : List Nat := [97, 98, keyLeft, 99]

theorem edit_text_sample : ∃ st, EditReaches sampleEnv oneFile [103] (fun _ => 255) sampleKeys st ∧
    List.ofFn (st.buff.array 0 st.buffSize) = [97, 99, 98, 0] := by
  obtain ⟨hopens, hz⟩ := opensText_new oneFile_free fun _ => 255
  obtain ⟨st, hrun⟩ := editMain_unsaved oneFile_free (fun _ => 255) (show keyF1 ∉ sampleKeys by decide)
  have htext := (edit_text hz hopens (EditText.fits_of_length (by decide)) ⟨oneFile, hrun⟩).2.1
  exact ⟨st, ⟨oneFile, hrun⟩, htext.trans (by decide +kernel)⟩

/-! ## Saving -/

section Save

variable {env : Env} {d : Nat} {s₀ s s' : Sys} {path : CStr} {heap : Mem}

end Save

end NanoS32
