import NanoS32.Lemmas.Mem
import NanoS32.Programs.Edit
import NanoS32.Fs.Small
import Mathlib.Data.List.Induction

/-!
# The buffer of the editor

What holds at the top of the main loop: the buffer ends in a 0, inside the memory that was allocated, and the cursor is in the
buffer. The load does not clear the byte after the file, and an insertion does not look at the size of the memory.
-/

namespace NanoS32

open Prog

/-- The bytes that `main` allocates for the buffer. -/
def allocated : Nat := 0xFFFF

/-- The buffer is as long as its size says, ends in a 0, and holds the cursor. -/
structure EditState.Inv (st : EditState) : Prop where
  size : 1 ≤ st.buffSize ∧ st.buffSize ≤ allocated
  final : st.buff (st.buffSize - 1) = 0
  cursor : st.cursor ≤ st.buffSize - 1

/-- The keys that insert a character. -/
def insertKey (k : Nat) : Bool :=
  !ignoredKey k && !([keyF1, keyUp, keyDown, keyLeft, keyRight, keyHome, keyEnd, keyPgDn, keyPgUp, keyBackspace, keyDel,
    keyEsc].contains k)

/-! ## Offsets stay in the text -/

/-- A string ends before any 0. -/
theorem Mem.length_strFrom_le (m : Mem) : ∀ (k p j : Nat), m (p + j) = 0 → (m.strFrom k p).length ≤ j := by
  intro k
  induction k with
  | zero => exact fun p j _ => Nat.zero_le j
  | succ k ih =>
    intro p j h
    unfold Mem.strFrom
    split_ifs with hp
    · exact Nat.zero_le j
    · cases j with
      | zero => exact absurd h hp
      | succ j =>
        rw [Nat.add_comm j 1, ← Nat.add_assoc] at h
        exact Nat.succ_le_succ (ih (p + 1) j h)

theorem lineOffsetLoop_sum : ∀ (buff : CStr) (c line offset : Nat),
    (lineOffsetLoop buff c line offset).2 + (lineOffsetLoop buff c line offset).1.length = offset + buff.length := by
  intro buff
  induction buff with
  | nil => exact fun _ _ _ => rfl
  | cons ch buff ih =>
    intro c line offset
    unfold lineOffsetLoop
    split_ifs with h1 h2
    · rw [ih, List.length_cons, Nat.add_assoc, Nat.add_comm 1]
    · rw [ih, List.length_cons, Nat.add_assoc, Nat.add_comm 1]
    · rfl

theorem colOffsetLoop_le : ∀ (buff : CStr) (col offset : Nat), colOffsetLoop buff col offset ≤ offset + buff.length := by
  intro buff
  induction buff with
  | nil => exact fun _ offset => Nat.le_refl offset
  | cons ch buff ih =>
    intro col offset
    unfold colOffsetLoop
    rw [List.length_cons]
    split_ifs with h1 h2
    · omega
    · have := ih (col - 1) (offset + 1)
      omega
    · omega

/-- A line and a column are taken to an offset in the text, or its end. -/
theorem linecolToBufferOffset_le (text : CStr) (col line : Nat) : linecolToBufferOffset text col line ≤ text.length := by
  have hsum := lineOffsetLoop_sum text 0 line 0
  have hle := colOffsetLoop_le (lineOffsetLoop text 0 line 0).1 col (lineOffsetLoop text 0 line 0).2
  rw [Nat.zero_add] at hsum
  exact Nat.le_trans hle (Nat.le_of_eq hsum)

/-! ## One key -/

namespace EditState.Inv

variable {st : EditState}

/-- The cursor keys put the cursor in the text. -/
theorem move (h : st.Inv) (col line : Nat) : EditState.Inv { st with cursor := linecolToBufferOffset st.buff.str col line } := by
  have htext : st.buff.str.length ≤ st.buffSize - 1 :=
    st.buff.length_strFrom_le _ 0 _ (by rw [Nat.zero_add]; exact h.final)
  exact ⟨h.size, h.final, Nat.le_trans (linecolToBufferOffset_le _ _ _) htext⟩

/-- The deletion of the character before the cursor. -/
theorem backspace (h : st.Inv) (hc : 0 < st.cursor) :
    EditState.Inv
      { st with
        buff := st.buff.memcpy (st.cursor - 1) st.cursor (st.buffSize - st.cursor)
        buffSize := st.buffSize - 1
        cursor := st.cursor - 1 } := by
  obtain ⟨hsize, hfinal, hcursor⟩ := h
  have hlast : st.cursor + (st.buffSize - 1 - 1 - (st.cursor - 1)) = st.buffSize - 1 := by omega
  have hbyte : st.buff.memcpy (st.cursor - 1) st.cursor (st.buffSize - st.cursor) (st.buffSize - 1 - 1) = 0 := by
    rw [Mem.memcpy_apply, if_pos ⟨by omega, by omega⟩, hlast, hfinal]
  exact ⟨⟨by simp only; omega, Nat.le_trans (Nat.sub_le _ 1) hsize.2⟩, hbyte, by simp only; omega⟩

/-- The deletion of the character at the cursor. -/
theorem delete (h : st.Inv) (hc : st.cursor < st.buffSize - 1) :
    EditState.Inv
      { st with
        buff := st.buff.memcpy st.cursor (st.cursor + 1) (st.buffSize - st.cursor - 1)
        buffSize := st.buffSize - 1 } := by
  obtain ⟨hsize, hfinal, hcursor⟩ := h
  have hlast : st.cursor + 1 + (st.buffSize - 1 - 1 - st.cursor) = st.buffSize - 1 := by omega
  have hbyte : st.buff.memcpy st.cursor (st.cursor + 1) (st.buffSize - st.cursor - 1) (st.buffSize - 1 - 1) = 0 := by
    rw [Mem.memcpy_apply, if_pos ⟨by omega, by omega⟩, hlast, hfinal]
  exact ⟨⟨by simp only; omega, Nat.le_trans (Nat.sub_le _ 1) hsize.2⟩, hbyte, by simp only; omega⟩

/-- An insertion that leaves the buffer in the memory that was allocated. -/
theorem insert (h : st.Inv) (hroom : st.buffSize < allocated) (v : UInt8) :
    EditState.Inv
      { st with
        buff := (st.buff.memcpy (st.cursor + 1) st.cursor (st.buffSize - st.cursor)).set st.cursor v
        buffSize := st.buffSize + 1
        cursor := st.cursor + 1 } := by
  obtain ⟨hsize, hfinal, hcursor⟩ := h
  have hlast : st.cursor + (st.buffSize + 1 - 1 - (st.cursor + 1)) = st.buffSize - 1 := by omega
  have hbyte : (st.buff.memcpy (st.cursor + 1) st.cursor (st.buffSize - st.cursor)).set st.cursor v
      (st.buffSize + 1 - 1) = 0 := by
    rw [Mem.set_ne _ _ (by omega), Mem.memcpy_apply, if_pos ⟨by omega, by omega⟩, hlast, hfinal]
  exact ⟨⟨Nat.le_add_left 1 _, hroom⟩, hbyte, by simp only; omega⟩

end EditState.Inv

/-- A key that inserts makes the buffer longer. -/
theorem keyAction_insert {k : Nat} (st : EditState) (hk : insertKey k = true) :
    keyAction st k =
      { st with
        buff := (st.buff.memcpy (st.cursor + 1) st.cursor (st.buffSize - st.cursor)).set st.cursor
          (UInt8.ofNat (if k = keyReturn then 10 else k))
        buffSize := st.buffSize + 1
        cursor := st.cursor + 1 } := by
  simp only [insertKey, Bool.and_eq_true, Bool.not_eq_true', List.contains_eq_mem, decide_eq_false_iff_not, List.mem_cons,
    List.not_mem_nil, or_false, not_or] at hk
  obtain ⟨-, h1, h2, h3, h4, h5, h6, h7, h8, h9, h10, h11, h12⟩ := hk
  unfold keyAction
  rcases bufferOffsetToLinecol st.buff.str st.cursor with ⟨col, line⟩
  simp only [h1, h2, h3, h4, h5, h6, h7, h8, h9, h10, h11, h12, if_false, if_true, ne_eq, not_false_eq_true]

/-- Every key keeps the invariant, when there is room for what it inserts. -/
theorem keyAction_inv {st : EditState} (h : st.Inv) {k : Nat} (hignored : ignoredKey k = false)
    (hroom : insertKey k = true → st.buffSize < allocated) : (keyAction st k).Inv := by
  by_cases hk : insertKey k = true
  · rw [keyAction_insert st hk]
    exact h.insert (hroom hk) _
  · have hlist : k ∈ [keyF1, keyUp, keyDown, keyLeft, keyRight, keyHome, keyEnd, keyPgDn, keyPgUp, keyBackspace, keyDel,
        keyEsc] := by
      by_contra hno
      rw [← List.contains_iff_mem, Bool.not_eq_true] at hno
      exact hk (by rw [insertKey, hignored, hno]; rfl)
    obtain ⟨hsize, hfinal, hcursor⟩ := h
    have hinv : st.Inv := ⟨hsize, hfinal, hcursor⟩
    simp only [List.mem_cons, List.not_mem_nil, or_false] at hlist
    rcases hlist with rfl | rfl | rfl | rfl | rfl | rfl | rfl | rfl | rfl | rfl | rfl | rfl
    · exact hinv
    · change (if _ then _ else st).Inv
      split_ifs
      · exact hinv.move _ _
      · exact hinv
    · exact hinv.move _ _
    · change (if _ then _ else st).Inv
      split_ifs with hc
      · exact ⟨hsize, hfinal, Nat.le_trans (Nat.sub_le _ 1) hcursor⟩
      · exact hinv
    · change (if _ then _ else st).Inv
      split_ifs with hc
      · exact ⟨hsize, hfinal, hc⟩
      · exact hinv
    · exact hinv.move _ _
    · exact hinv.move _ _
    · exact hinv.move _ _
    · exact hinv.move _ _
    · change (if _ then _ else st).Inv
      split_ifs with hc
      · exact hinv.backspace hc
      · exact hinv
    · change (if _ then _ else st).Inv
      split_ifs with hc
      · exact hinv.delete hc
      · exact hinv
    · exact hinv

/-- The states at the top of the main loop. -/
def EditReaches (env : Env) (s : Sys) (path : CStr) (heap : Mem) (keys : List Nat) (st : EditState) : Prop :=
  ∃ s', (editMain env path heap keys).run s = .ok (some st) s'

/-- The byte where the buffer ends is 0 after the load: it is the last byte of the file, or the byte of the allocated memory that
follows the file. -/
def EndsInZero (env : Env) (s : Sys) (path : CStr) (heap : Mem) : Prop :=
  ∀ n entry s₁ bytes s₂, (fsGetEntry env path unknownValue unknownValue).run s = .ok (n, entry) s₁ → entry.isFile = true →
    entry.size.toNat < 0xFFFE → (fsReadFile env path 0 entry.size.toNat).run s₁ = .ok bytes s₂ →
      bytes.length = entry.size.toNat → bytes.getLast? = some 0 ∨ heap entry.size.toNat = 0

section Session

variable {env : Env} {s : Sys} {path : CStr} {heap : Mem}

/-- What a turn of the main loop leaves. -/
theorem editKey_ok {st st' : EditState} {k : Nat} {s' : Sys} (h : (editKey env path st k).run s = .ok st' s') :
    (ignoredKey k = true ∧ st' = st) ∨
      (ignoredKey k = false ∧ ∃ n, st' = { keyAction st k with currentLine := n }) := by
  unfold editKey at h
  cases hk : ignoredKey k with
  | true =>
    rw [if_pos hk] at h
    cases h
    exact Or.inl ⟨rfl, rfl⟩
  | false =>
    rw [if_neg (by rw [hk]; decide)] at h
    obtain ⟨u, s₁, -, h₂⟩ := bind_eq_ok h
    cases h₂
    exact Or.inr ⟨rfl, _, rfl⟩

theorem editKey_inv {st st' : EditState} {k : Nat} {s' : Sys} (hst : st.Inv) (h : (editKey env path st k).run s = .ok st' s')
    (hroom : insertKey k = true → st.buffSize < allocated) : st'.Inv := by
  rcases editKey_ok h with ⟨-, rfl⟩ | ⟨hk, n, rfl⟩
  · exact hst
  · have hinv := keyAction_inv hst hk hroom
    exact ⟨hinv.size, hinv.final, hinv.cursor⟩

/-- An insertion does not fail. -/
theorem editKey_insert (env : Env) (s : Sys) (path : CStr) (st : EditState) {k : Nat} (hk : insertKey k = true) :
    ∃ st', (editKey env path st k).run s = .ok st' s ∧ st'.buffSize = st.buffSize + 1 := by
  have hlist := hk
  simp only [insertKey, Bool.and_eq_true, Bool.not_eq_true'] at hlist
  have hf1 : k ≠ keyF1 := by
    rintro rfl
    cases hlist.2
  unfold editKey saveAction
  rw [if_neg (by rw [hlist.1]; decide), if_neg hf1, bind_ok (run_pure _ _)]
  refine ⟨_, rfl, ?_⟩
  rw [keyAction_insert st hk]

/-- The main loop for one more key. -/
theorem editLoop_snoc (env : Env) (path : CStr) (k : Nat) : ∀ (keys : List Nat) (st : EditState), keyEsc ∉ keys →
    ∀ s, (editLoop env path (keys ++ [k]) st).run s =
      (editLoop env path keys st >>= fun st => editKey env path st k).run s := by
  intro keys
  induction keys with
  | nil =>
    intro st _ s
    rw [List.nil_append, editLoop, editLoop, bind_ok (run_pure _ _), run_bind]
    cases (editKey env path st k).run s with
    | ok st' s' =>
      unfold editLoop
      split_ifs <;> rfl
    | error code s' => rfl
    | stuck s' => rfl
  | cons key keys ih =>
    intro st hesc s
    have hkey : key ≠ keyEsc := fun h => hesc (h ▸ List.mem_cons_self)
    have hkeys : keyEsc ∉ keys := fun h => hesc (List.mem_cons_of_mem _ h)
    rw [List.cons_append, editLoop, editLoop, run_bind, run_bind, run_bind]
    cases (editKey env path st key).run s with
    | ok st' s' =>
      simp only [if_neg hkey]
      rw [ih st' hkeys, run_bind]
    | error code s' => rfl
    | stuck s' => rfl

/-- A load of a file. -/
theorem editLoad_file (heap : Mem) {n : Nat} {entry : SfsEntry} {s₁ s₂ : Sys} {bytes : List UInt8}
    (hget : (fsGetEntry env path unknownValue unknownValue).run s = .ok (n, entry) s₁) (hfile : entry.isFile = true)
    (hsize : entry.size.toNat < 0xFFFE) (hread : (fsReadFile env path 0 entry.size.toNat).run s₁ = .ok bytes s₂)
    (hlen : bytes.length = entry.size.toNat) :
    (editLoad env path heap).run s =
      .ok (some ((heap.memset 0 0 entry.size.toNat).store 0 bytes,
        if bytes.getLast? = some 0 then entry.size.toNat else entry.size.toNat + 1)) s₂ := by
  obtain ⟨buff, hbuff⟩ : ∃ buff, buff = (heap.memset 0 0 entry.size.toNat).store 0 bytes := ⟨_, rfl⟩
  have hlast : (entry.size.toNat = 0 ∨ buff (entry.size.toNat - 1) ≠ 0) ↔ ¬bytes.getLast? = some 0 := by
    rw [List.getLast?_eq_getElem?, hlen, hbuff]
    by_cases h0 : entry.size.toNat = 0
    · have hnone : bytes[0 - 1]? = none := List.getElem?_eq_none (by omega)
      rw [h0, hnone]
      simp
    · rw [Mem.store_of_mem _ (Nat.zero_le _) (by omega), List.getElem?_eq_getElem (by omega), List.getD_eq_getElem _ _ (by omega)]
      simp [h0]
  unfold editLoad
  rw [bind_ok (attempt_ok hget)]
  simp only [hfile, if_true, if_neg (Nat.not_le_of_lt hsize)]
  rw [bind_ok (attempt_ok hread)]
  simp only [hlen, ne_eq, not_true_eq_false, if_false, ← hbuff]
  by_cases h : bytes.getLast? = some 0
  · rw [if_neg fun hc => hlast.1 hc h, if_pos h, run_pure]
  · rw [if_pos (hlast.2 h), if_neg h, run_pure]

/-- What a load leaves, when `main` does not return. -/
theorem editLoad_ok {buff : Mem} {size : Nat} {s' : Sys} (h : (editLoad env path heap).run s = .ok (some (buff, size)) s') :
    (∃ code, (fsGetEntry env path unknownValue unknownValue).run s = .error code s' ∧ buff = heap.memset 0 0 1 ∧ size = 1) ∨
      ∃ n entry s₁ bytes, (fsGetEntry env path unknownValue unknownValue).run s = .ok (n, entry) s₁ ∧ entry.isFile = true ∧
        entry.size.toNat < 0xFFFE ∧ (fsReadFile env path 0 entry.size.toNat).run s₁ = .ok bytes s' ∧
          bytes.length = entry.size.toNat := by
  unfold editLoad at h
  obtain ⟨found, s₁, h₁, h₂⟩ := bind_eq_ok h
  cases found with
  | error code =>
    cases h₂
    exact Or.inl ⟨code, attempt_eq_error h₁, rfl, rfl⟩
  | ok p =>
    obtain ⟨n, entry⟩ := p
    have hget := attempt_eq_ok h₁
    by_cases hfile : entry.isFile = true
    · by_cases hsize : 0xFFFE ≤ entry.size.toNat
      · simp only [hfile, if_true, if_pos hsize] at h₂
        cases h₂
      · simp only [hfile, if_true, if_neg hsize] at h₂
        obtain ⟨result, s₂, h₃, h₄⟩ := bind_eq_ok h₂
        cases result with
        | error code => cases h₄
        | ok bytes =>
          by_cases hlen : bytes.length = entry.size.toNat
          · have hs : s₂ = s' := by
              simp only [hlen, ne_eq, not_true_eq_false, if_false] at h₄
              split_ifs at h₄ <;> cases h₄ <;> rfl
            exact Or.inr ⟨n, entry, s₁, bytes, hget, hfile, Nat.lt_of_not_le hsize, hs ▸ attempt_eq_ok h₃, hlen⟩
          · simp only [ne_eq, hlen, not_false_eq_true, if_true] at h₄
            cases h₄
    · simp only [hfile, Bool.false_eq_true, if_false] at h₂
      cases h₂

/-- The bytes of the buffer after a load, at the end of the file and after it. -/
theorem loaded_byte (heap : Mem) {bytes : List UInt8} {size : Nat} (hlen : bytes.length = size) :
    (bytes.getLast? = some 0 → ((heap.memset 0 0 size).store 0 bytes) (size - 1) = 0) ∧
      ((heap.memset 0 0 size).store 0 bytes) size = heap size := by
  constructor
  · intro h
    rw [List.getLast?_eq_getElem?, hlen] at h
    obtain ⟨hlt, hget⟩ := List.getElem?_eq_some_iff.1 h
    rw [Mem.store_of_mem _ (Nat.zero_le _) (by omega), Nat.sub_zero, List.getD_eq_getElem _ _ hlt, hget]
  · rw [Mem.store_of_not_mem _ (Or.inr (by omega)), Mem.memset_apply, if_neg (by omega)]

/-- The load establishes the invariant just when the buffer ends in a 0. -/
theorem editLoad_inv : EndsInZero env s path heap ↔ ∀ buff size s', (editLoad env path heap).run s = .ok (some (buff, size)) s' →
    EditState.Inv { buff := buff, buffSize := size, cursor := 0, currentLine := 0 } := by
  constructor
  · intro hz buff size s' h
    rcases editLoad_ok h with ⟨-, -, rfl, rfl⟩ | ⟨n, entry, s₁, bytes, hget, hfile, hsize, hread, hlen⟩
    · exact ⟨⟨Nat.le_refl 1, Nat.le_add_left 1 65534⟩, rfl, Nat.zero_le _⟩
    · have hrun := editLoad_file heap hget hfile hsize hread hlen
      obtain ⟨hend, hafter⟩ := loaded_byte heap hlen
      rw [hrun] at h
      cases h
      by_cases hlast : bytes.getLast? = some 0
      · have hpos : 0 < entry.size.toNat := by
          rw [← hlen, List.length_pos_iff]
          rintro rfl
          cases hlast
        rw [if_pos hlast]
        exact ⟨⟨hpos, by simp only [allocated]; omega⟩, hend hlast, Nat.zero_le _⟩
      · rw [if_neg hlast]
        refine ⟨⟨Nat.le_add_left 1 _, by simp only [allocated]; omega⟩, ?_, Nat.zero_le _⟩
        exact hafter.trans ((hz n entry s₁ bytes _ hget hfile hsize hread hlen).resolve_left hlast)
  · intro h n entry s₁ bytes s₂ hget hfile hsize hread hlen
    by_cases hlast : bytes.getLast? = some 0
    · exact Or.inl hlast
    · have hinv := h _ _ _ (editLoad_file heap hget hfile hsize hread hlen)
      rw [if_neg hlast] at hinv
      exact Or.inr ((loaded_byte heap hlen).2.symm.trans hinv.final)

/-! ## Sessions -/

theorem editReaches_nil {st : EditState} (h : EditReaches env s path heap [] st) :
    ∃ buff size s', (editLoad env path heap).run s = .ok (some (buff, size)) s' ∧
      st = { buff := buff, buffSize := size, cursor := 0, currentLine := 0 } := by
  obtain ⟨s', h⟩ := h
  obtain ⟨loaded, s₁, h₁, h₂⟩ := bind_eq_ok h
  cases loaded with
  | none => cases h₂
  | some p =>
    cases h₂
    exact ⟨_, _, _, h₁, rfl⟩

/-- A state after one more key comes from the state before it. -/
theorem editReaches_snoc {keys : List Nat} (hesc : keyEsc ∉ keys) {k : Nat} {st' : EditState} :
    EditReaches env s path heap (keys ++ [k]) st' ↔
      ∃ st s₁ s₂, (editMain env path heap keys).run s = .ok (some st) s₁ ∧ (editKey env path st k).run s₁ = .ok st' s₂ := by
  unfold EditReaches editMain
  constructor
  · rintro ⟨s', h⟩
    obtain ⟨loaded, s₁, h₁, h₂⟩ := bind_eq_ok h
    cases loaded with
    | none => cases h₂
    | some p =>
      obtain ⟨st₁, s₃, h₃, h₄⟩ := bind_eq_ok h₂
      cases h₄
      rw [editLoop_snoc env path k keys _ hesc] at h₃
      obtain ⟨st, s₄, h₅, h₆⟩ := bind_eq_ok h₃
      refine ⟨st, s₄, s', ?_, h₆⟩
      rw [bind_ok h₁]
      simp only
      rw [bind_ok h₅, run_pure]
  · rintro ⟨st, s₁, s₂, h, hk⟩
    obtain ⟨loaded, s₃, h₁, h₂⟩ := bind_eq_ok h
    cases loaded with
    | none => cases h₂
    | some p =>
      obtain ⟨st₁, s₄, h₃, h₄⟩ := bind_eq_ok h₂
      cases h₄
      refine ⟨s₂, ?_⟩
      rw [bind_ok h₁]
      have hloop := editLoop_snoc env path k keys { buff := p.1, buffSize := p.2, cursor := 0, currentLine := 0 } hesc s₃
      rw [bind_ok h₃, hk] at hloop
      simp only
      rw [bind_ok hloop, run_pure]

/-- After the escape key, the main loop has ended. -/
theorem editLoop_esc (env : Env) (path : CStr) (k : Nat) : ∀ (keys : List Nat) (st : EditState) (s : Sys), keyEsc ∈ keys →
    (editLoop env path (keys ++ [k]) st).run s = (editLoop env path keys st).run s := by
  intro keys
  induction keys with
  | nil => exact fun _ _ h => absurd h List.not_mem_nil
  | cons key keys ih =>
    intro st s hesc
    rw [List.cons_append, editLoop, editLoop, run_bind, run_bind]
    cases (editKey env path st key).run s with
    | ok st' s' =>
      by_cases hkey : key = keyEsc
      · simp only [if_pos hkey]
      · simp only [if_neg hkey]
        exact ih st' s' ((List.mem_cons.1 hesc).resolve_left (Ne.symm hkey))
    | error code s' => rfl
    | stuck s' => rfl

theorem editReaches_esc {keys : List Nat} (hesc : keyEsc ∈ keys) {k : Nat} {st : EditState}
    (h : EditReaches env s path heap (keys ++ [k]) st) : EditReaches env s path heap keys st := by
  obtain ⟨s', h⟩ := h
  obtain ⟨loaded, s₁, h₁, h₂⟩ := bind_eq_ok h
  refine ⟨s', ?_⟩
  unfold editMain
  rw [bind_ok h₁]
  cases loaded with
  | none => exact h₂
  | some p =>
    simp only [run_bind, editLoop_esc env path k keys _ s₁ hesc] at h₂ ⊢
    exact h₂

/-- The buffer of the editor keeps its invariant through a session just when the load ends it in a 0, and no key inserts a
character when the buffer fills the memory that was allocated. -/
theorem edit_invariant (env : Env) (s : Sys) (path : CStr) (heap : Mem) (keys : List Nat) :
    (∀ ks, ks <+: keys → ∀ st, EditReaches env s path heap ks st → st.Inv) ↔
      EndsInZero env s path heap ∧
        ∀ ks k, ks ++ [k] <+: keys → keyEsc ∉ ks → insertKey k = true →
          ∀ st, EditReaches env s path heap ks st → st.buffSize ≠ allocated := by
  constructor
  · intro h
    refine ⟨editLoad_inv.2 fun buff size s' hload => ?_, fun ks k hpre hesc hk st hst hfull => ?_⟩
    · refine h [] (List.nil_prefix) _ ⟨s', ?_⟩
      unfold editMain
      rw [bind_ok hload]
      rfl
    · obtain ⟨s₁, hrun⟩ := hst
      obtain ⟨st', hkey, hsize⟩ := editKey_insert env s₁ path st hk
      have hinv := h _ hpre st' ((editReaches_snoc hesc).2 ⟨st, s₁, s₁, hrun, hkey⟩)
      have hle := hinv.size.2
      rw [hsize, hfull] at hle
      exact absurd hle (Nat.not_succ_le_self _)
  · rintro ⟨hz, hroom⟩ ks
    induction ks using List.reverseRecOn with
    | nil =>
      intro _ st hst
      obtain ⟨buff, size, s', hload, rfl⟩ := editReaches_nil hst
      exact editLoad_inv.1 hz buff size s' hload
    | append_singleton ks k ih =>
      intro hpre st' hst'
      have hks : ks <+: keys := (List.prefix_append ks [k]).trans hpre
      by_cases hesc : keyEsc ∈ ks
      · exact ih hks st' (editReaches_esc hesc hst')
      · obtain ⟨st, s₁, s₂, hrun, hkey⟩ := (editReaches_snoc hesc).1 hst'
        have hst : EditReaches env s path heap ks st := ⟨s₁, hrun⟩
        have hinv := ih hks st hst
        refine editKey_inv hinv hkey fun hk => ?_
        exact Nat.lt_of_le_of_ne hinv.size.2 (hroom ks k hpre hesc hk st hst)

end Session

/-! ## A file without a final 0 -/

/-- With 1 in the allocated memory, the invariant does not hold when a file of three bytes has been loaded. -/
theorem edit_unterminated : ¬∀ ks, ks <+: [] → ∀ st, EditReaches smallEnv sampleSys [102] (fun _ => 1) ks st → st.Inv := by
  intro h
  have hbyte : (match (editMain smallEnv [102] (fun _ => 1) []).run sampleSys with
      | .ok (some st) _ => some (st.buff (st.buffSize - 1))
      | _ => none) = some 1 := by decide +kernel
  cases hrun : (editMain smallEnv [102] (fun _ => 1) []).run sampleSys with
  | ok loaded s' =>
    cases loaded with
    | some st =>
      have hfinal := (h [] (List.nil_prefix) st ⟨s', hrun⟩).final
      rw [hrun] at hbyte
      exact absurd (hfinal.symm.trans (Option.some.inj hbyte)) (by decide)
    | none =>
      rw [hrun] at hbyte
      cases hbyte
  | error code s' =>
    rw [hrun] at hbyte
    cases hbyte
  | stuck s' =>
    rw [hrun] at hbyte
    cases hbyte

end NanoS32
