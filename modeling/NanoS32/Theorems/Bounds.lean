import NanoS32.Lemmas.DataLine
import NanoS32.Lemmas.Reference

/-!
# The arrays of the assembler

The output, the operands and the symbols have fixed sizes, and nothing tests them. A program whose lines fit these sizes is assembled
without an access outside its array.
-/

namespace NanoS32

/-! ## What fits -/

/-- The instruction of a line, by its name and the types of its operands. -/
def instructionOf (mnemonic : CStr) (ops : List CStr) : Option InstrId :=
  instrIds.find? fun id => strncpy mnemonic 6 = (iData id).mnemonic ∧ ops.length = (iData id).nops ∧
    ∀ i : Fin 2, i.val < ops.length → operandType (ops.getD i.val []) = (iData id).opType i

/-- An instruction fits: there are not too many operands, its bytes are inside the output buffer, and a symbol whose reference is kept
has an entry. -/
structure InstructionFits (st : Asm) (mnemonic : CStr) (ops : List CStr) : Prop where
  operands : ops.length ≤ iMaxOps
  code : ∀ id, instructionOf mnemonic ops = some id → st.ooffset + encodeLength id ≤ obuffSize
  symbols : KeepsReference st → ∀ tok ∈ ops, ∀ name, symbolOf tok = some name → HasEntry st.sTable name

/-- A line fits: the symbol that it defines has an entry, its data are inside the output buffer, and its instruction fits. -/
structure LineFits (st : Asm) (tokv : List CStr) : Prop where
  defined : ∀ name, definedName tokv = some name → HasEntry st.sTable name
  data : ∀ name dir values type, tokv = name :: dir :: values → values ≠ [] → dataType dir = some type →
    st.ooffset + dataWidth type * values.length ≤ obuffSize
  instruction : ∀ mnemonic ops, tokv = mnemonic :: ops → IsInstruction mnemonic ops → InstructionFits st mnemonic ops

/-- The symbols of the references are in the table. -/
def RefsInTable (st : Asm) : Prop := ∀ r, (st.sRef r).offset ≠ 0 → (st.sRef r).symbol < sMax

/-! ## Operands -/

/-- Operands that there is room for are taken. -/
theorem operandLoop_ok : ∀ (ops : List CStr) (op : Nat) (v : Operands), op + ops.length ≤ iMaxOps →
    ∃ v', operandLoop ops op v = .ok v' := by
  intro ops
  induction ops with
  | nil => exact fun _ v _ => ⟨v, rfl⟩
  | cons tok ops ih =>
    intro op v hle
    rw [List.length_cons] at hle
    obtain ⟨w, value, hw, -⟩ := parseOperand_type v (show op < iMaxOps by omega) tok
    rw [operandLoop, hw]
    exact ih (op + 1) w (by omega)

/-- What the loop over the operands leaves of the instruction: its name, and the types of the operands. -/
theorem operandLoop_types : ∀ (ops : List CStr) (op : Nat) (v v' : Operands), operandLoop ops op v = .ok v' →
    v'.ci.mnemonic = v.ci.mnemonic ∧ v'.ci.nops = v.ci.nops ∧
      ∀ i : Fin 2, (i.val < op → v'.ci.opType i = v.ci.opType i) ∧
        (op ≤ i.val → i.val < op + ops.length → v'.ci.opType i = operandType (ops.getD (i.val - op) [])) := by
  intro ops
  induction ops with
  | nil =>
    intro op v v' h
    obtain rfl := Except.ok.inj h
    refine ⟨rfl, rfl, fun i => ⟨fun _ => rfl, fun hle hlt => ?_⟩⟩
    rw [List.length_nil] at hlt
    omega
  | cons tok ops ih =>
    intro op v v' h
    rw [operandLoop] at h
    obtain ⟨w, hw, h⟩ := except_bind_eq_ok h
    obtain ⟨w', value, hw', hci⟩ := parseOperand_type v (parseOperand_eq_ok hw).1 tok
    obtain rfl := Except.ok.inj (hw.symm.trans hw')
    obtain ⟨hname, hnops, htypes⟩ := ih (op + 1) w v' h
    rw [hci] at hname hnops
    refine ⟨hname, hnops, fun i => ⟨fun hlt => ?_, fun hle hlt => ?_⟩⟩
    · rw [(htypes i).1 (by omega), hci]
      exact if_neg (Nat.ne_of_lt hlt)
    · rw [List.length_cons] at hlt
      by_cases hop : i.val = op
      · rw [(htypes i).1 (by omega), hci, hop, Nat.sub_self, List.getD_cons_zero]
        exact if_pos hop
      · rw [(htypes i).2 (by omega) (by omega), show i.val - op = i.val - (op + 1) + 1 by omega, List.getD_cons_succ]

/-- Without an operand that names a symbol, no reference is kept. -/
theorem operandLoop_no_symbol : ∀ (ops : List CStr) (op : Nat) (v v' : Operands), (∀ tok ∈ ops, symbolOf tok = none) →
    operandLoop ops op v = .ok v' → v'.symbolId = v.symbolId := by
  intro ops
  induction ops with
  | nil =>
    intro op v v' _ h
    rw [← Except.ok.inj h]
  | cons tok ops ih =>
    intro op v v' hnone h
    obtain ⟨htok, hops⟩ := List.forall_mem_cons.1 hnone
    rw [operandLoop] at h
    obtain ⟨w, hw, h⟩ := except_bind_eq_ok h
    obtain ⟨value, hw'⟩ := parseOperand_other htok (parseOperand_eq_ok hw).1 v
    obtain rfl := Except.ok.inj (hw.symm.trans hw')
    exact ih (op + 1) { v with ci := v.ci.setOp op (operandType tok) value } v' hops h

/-- The instruction that is found is the one of the line: no entry of the table asks for the value of an operand. -/
theorem findInstruction_eq {T : Nat → Symbol} {mnemonic : CStr} {ops : List CStr} {v : Operands}
    (h : operandLoop ops 0 (operandsInit T mnemonic ops.length) = .ok v) : findInstruction v.ci = instructionOf mnemonic ops := by
  obtain ⟨hname, hnops, htypes⟩ := operandLoop_types _ _ _ _ h
  have hnops : v.ci.nops = ops.length := hnops
  have hvalue : ∀ id (i : Fin 2), (iData id).opValue i = 0 := by
    intro id i
    have hall : ∀ id ∈ instrIds, ∀ i : Fin 2, (iData id).opValue i = 0 := by
      decide
    exact hall id (by cases id <;> decide) i
  unfold findInstruction instructionOf
  congr 1
  funext id
  unfold matchesInstr
  refine decide_eq_decide.2 ?_
  rw [hname, hnops]
  refine and_congr Iff.rfl (and_congr Iff.rfl (forall_congr' fun i => ?_))
  refine forall_congr' fun hi => ?_
  have htype := (htypes i).2 (Nat.zero_le _) (by omega)
  rw [Nat.sub_zero] at htype
  rw [htype]
  exact and_iff_left (Or.inl (hvalue id i))

/-! ## Lines -/

/-- The references after an instruction that fits have their symbols in the table. -/
theorem refsAfter_inTable {st : Asm} {mnemonic : CStr} {ops : List CStr} {v : Operands} {id : InstrId}
    (hv : operandLoop ops 0 (operandsInit st.sTable mnemonic ops.length) = .ok v) (hfind : findInstruction v.ci = some id)
    (hfits : InstructionFits st mnemonic ops) (hrefs : RefsInTable st) (r : Nat) (hr : (refsAfter st v id r).offset ≠ 0) :
    (refsAfter st v id r).symbol < sMax := by
  unfold refsAfter at hr ⊢
  by_cases hsym : v.symbolId ≠ 0xFFFF
  · rw [if_pos hsym] at hr ⊢
    obtain ⟨tok, htok, name, hname⟩ : ∃ tok ∈ ops, ∃ name, symbolOf tok = some name := by
      by_contra hnone
      refine hsym (operandLoop_no_symbol ops 0 _ v (fun tok htok => ?_) hv)
      exact Option.eq_none_iff_forall_ne_some.2 fun name hname => hnone ⟨tok, htok, name, hname⟩
    obtain ⟨k, hk⟩ := List.getElem?_of_mem htok
    obtain ⟨-, -, hfound⟩ := operandLoop_symbol hv hfind hk hname
    have happended := appendSymbolRef_appended st.sRef (newRef st v id)
    generalize appendSymbolRef st.sRef (newRef st v id) = sRef' at happended hr ⊢
    cases happended with
    | @added t hlt hempty hbefore =>
      by_cases hrt : r = t
      · subst hrt
        rw [setAt_self] at hr ⊢
        exact hfound.lt (hfits.symbols ⟨hr, r, hlt, hempty⟩ tok htok name hname)
      · rw [setAt_ne _ _ hrt] at hr ⊢
        exact hrefs r hr
    | full => exact hrefs r hr
  · rw [if_neg hsym] at hr ⊢
    exact hrefs r hr

/-- An instruction that fits is written, or it is an error. -/
theorem instructionLine_fits {st : Asm} {mnemonic : CStr} {ops : List CStr} (hfits : InstructionFits st mnemonic ops)
    (hrefs : RefsInTable st) : instructionLine st mnemonic ops = .error .error ∨
      ∃ st', instructionLine st mnemonic ops = .ok st' ∧ RefsInTable st' := by
  obtain ⟨v, hv⟩ := operandLoop_ok ops 0 (operandsInit st.sTable mnemonic ops.length) (by rw [Nat.zero_add]; exact hfits.operands)
  have hins : instructionLine st mnemonic ops = emitInstruction st v := by
    rw [instructionLine, hv]
    rfl
  rw [hins]
  unfold emitInstruction
  cases hfind : findInstruction v.ci with
  | none => exact Or.inl rfl
  | some id =>
    have hcode := hfits.code id (findInstruction_eq hv ▸ hfind)
    have hout : ∀ op0 op1, checkOutput (encodeInstruction st.cgOrigin st.obuff st.ooffset id op0 op1) =
        .ok (encodeInstruction st.cgOrigin st.obuff st.ooffset id op0 op1) := by
      intro op0 op1
      refine if_pos ?_
      unfold encodeInstruction
      dsimp only
      rwa [length_encodeBytes]
    right
    dsimp only
    rw [hout]
    exact ⟨_, rfl, refsAfter_inTable hv hfind hfits hrefs⟩

/-- A line that fits is processed, or it is an error. -/
theorem asmLine_fits {st : Asm} {tokv : List CStr} (hi : st.ooffset ≤ obuffSize) (hfits : LineFits st tokv) (hrefs : RefsInTable st) :
    asmLine st tokv = .error .error ∨ ∃ st', asmLine st tokv = .ok st' ∧ RefsInTable st' := by
  cases tokv with
  | nil => exact Or.inr ⟨st, rfl, hrefs⟩
  | cons name toks =>
    have hdata : ∀ type, 2 ≤ toks.length → dataType (toks.headD []) = some type →
        ∃ st', dataLine st type name (toks.drop 1) = .ok st' ∧ RefsInTable st' := by
      intro type hlen htype
      match toks, hlen, htype with
      | dir :: v₀ :: values, _, htype =>
        have hname : definedName (name :: dir :: v₀ :: values) = some name := by
          unfold definedName
          dsimp only
          rw [if_neg fun h => absurd h.1 (List.cons_ne_nil _ _), if_pos ⟨by simp, dataType_mem htype⟩]
        obtain ⟨T, hline⟩ := dataLine_ok hi (hfits.defined name hname)
          (hfits.data name dir (v₀ :: values) type rfl (List.cons_ne_nil _ _) htype)
        exact ⟨_, hline, hrefs⟩
    unfold asmLine
    dsimp only
    split_ifs with horg hlabel hdd hdw hdb
    · exact Or.inr ⟨_, rfl, hrefs⟩
    · obtain ⟨T, hdef⟩ := defineSymbol_ok (hfits.defined _ (if_pos hlabel)) .label
      exact Or.inr ⟨_, hdef, hrefs⟩
    · exact Or.inr (hdata .datad hdd.1 (by rw [hdd.2]; rfl))
    · exact Or.inr (hdata .dataw hdw.1 (by rw [hdw.2]; rfl))
    · exact Or.inr (hdata .datab hdb.1 (by rw [hdb.2]; rfl))
    · refine instructionLine_fits (hfits.instruction name toks rfl ⟨horg, ?_⟩) hrefs
      exact (if_neg hlabel).trans (if_neg (not_data hdd hdw hdb))

/-! ## Runs -/

/-- Lines that fit when they are reached are processed, up to an error. -/
theorem asmLines_fits : ∀ (lines : List (List CStr)) (st : Asm), AsmInv st → RefsInTable st →
    (∀ before line after st', lines = before ++ line :: after → asmLines st before = .ok st' → LineFits st' line) →
    asmLines st lines = .error .error ∨ ∃ st', asmLines st lines = .ok st' ∧ RefsInTable st' := by
  intro lines
  induction lines with
  | nil => exact fun st _ hrefs _ => Or.inr ⟨st, rfl, hrefs⟩
  | cons line lines ih =>
    intro st hi hrefs hfits
    rw [asmLines_cons]
    rcases asmLine_fits hi.bound (hfits [] line lines st rfl rfl) hrefs with herror | ⟨st₁, h₁, hrefs₁⟩
    · rw [herror]
      exact Or.inl rfl
    · rw [h₁]
      refine ih st₁ (hi.step (asmLine_step hi.bound h₁)) hrefs₁ fun before line' after st' hlines hst => ?_
      refine hfits (line :: before) line' after st' (by rw [hlines]; rfl) ?_
      rw [asmLines_cons, h₁]
      exact hst

theorem RefsInTable.patch {st : Asm} (hrefs : RefsInTable st) (r : Nat) : RefsInTable (st.patch r) := by
  intro i hi
  unfold Asm.patch at hi ⊢
  by_cases hir : i = r
  · subst hir
    dsimp only at hi ⊢
    rw [setAt_self] at hi ⊢
    exact hrefs i hi
  · dsimp only at hi ⊢
    rw [setAt_ne _ _ hir] at hi ⊢
    exact hrefs i hi

/-- References whose symbols are in the table are resolved. -/
theorem resolveLoop_ok : ∀ (k r : Nat) (st : Asm), AsmInv st → RefsInTable st → ∃ st', resolveLoop k r st = .ok st' := by
  intro k
  induction k with
  | zero => exact fun _ st _ _ => ⟨st, rfl⟩
  | succ k ih =>
    intro r st hi hrefs
    obtain ⟨st', h⟩ := ih (r + 1) (st.patch r) (hi.patch r) (hrefs.patch r)
    rw [resolveLoop]
    dsimp only
    by_cases hoff : (st.sRef r).offset = 0
    · rw [if_pos hoff]
      exact ⟨st, rfl⟩
    · have hlen : (st.sRef r).offset + (st.refBytes (st.sRef r)).length ≤ obuffSize := by
        unfold Asm.refBytes
        rw [length_encodeBytes]
        exact Nat.le_trans (hi.inside r hoff) hi.bound
      have hout : checkOutput (st.obuff.store (st.sRef r).offset (st.refBytes (st.sRef r)),
          (st.sRef r).offset + (st.refBytes (st.sRef r)).length) = .ok _ := if_pos hlen
      rw [if_neg hoff, if_neg (Nat.not_le.2 (hi.operand r hoff)), if_neg (Nat.not_le.2 (hrefs r hoff))]
      refine ⟨st', ?_⟩
      rw [← h]
      exact congrArg (· >>= fun out : Mem × Nat => resolveLoop k (r + 1) { st.patch r with obuff := out.1 }) hout

/-- A program whose lines fit when they are reached is assembled without an access outside its array. -/
theorem asm_in_bounds {file : List UInt8}
    (hfits : ∀ before line after st, sourceLines file = before ++ line :: after → asmLines asmInit before = .ok st → LineFits st line)
    (array : AsmArray) : asmMain file ≠ .error (.outside array) := by
  have hinit : RefsInTable asmInit := fun _ h => absurd rfl h
  have hlines := asmLines_fits (sourceLines file) asmInit asmInit_inv hinit hfits
  obtain ⟨hok, houtside⟩ := asmLoop_lines file (file.length + 1) asmInit 0
  unfold asmMain
  cases hloop : asmLoop file (file.length + 1) asmInit 0 with
  | error e =>
    intro h
    obtain rfl : e = .outside array := Except.error.inj h
    have hrun := houtside array hloop
    rcases hlines with herror | ⟨st', hst', -⟩
    · cases herror.symm.trans hrun
    · cases hst'.symm.trans hrun
  | ok st =>
    have hrun := hok st hloop
    have hinv := (asmLines_inv _ _ _ asmInit_inv hrun).1
    rcases hlines with herror | ⟨st', hst', hrefs⟩
    · cases herror.symm.trans hrun
    · obtain rfl := Except.ok.inj (hst'.symm.trans hrun)
      obtain ⟨st'', hresolved⟩ := resolveLoop_ok sMaxRef 0 st' hinv hrefs
      change (if st'.ooffset ≠ 0 then resolveLoop sMaxRef 0 st' else .ok st') ≠ _
      rw [hresolved]
      split_ifs
      · exact fun h => nomatch h
      · exact fun h => nomatch h

/-- A program of one data line. -/
theorem asm_in_bounds_sample : asmMain (ascii "x dd 1 2\n") ≠ .error (.outside .obuff) := by
  have hlines : sourceLines (ascii "x dd 1 2\n") = [[ascii "x", ascii "dd", ascii "1", ascii "2"]] := by
    decide +kernel
  refine asm_in_bounds (fun before line after st hsplit hst => ?_) .obuff
  rw [hlines] at hsplit
  obtain ⟨rfl, hcons⟩ | ⟨rest, rfl, htail⟩ := List.cons_eq_append_iff.1 hsplit
  · obtain ⟨rfl, rfl⟩ := List.cons.inj hcons
    obtain rfl := Except.ok.inj hst
    refine ⟨fun name _ => ⟨0, by decide, Or.inr rfl⟩, fun name dir values type htokv _ htype => ?_, fun mnemonic ops htokv hins => ?_⟩
    · obtain ⟨-, htokv⟩ := List.cons.inj htokv
      obtain ⟨rfl, rfl⟩ := List.cons.inj htokv
      obtain rfl := Option.some.inj htype
      decide
    · obtain ⟨rfl, rfl⟩ := List.cons.inj htokv
      exact absurd hins.2 (by decide)
  · exact absurd htail.symm (List.append_ne_nil_of_right_ne_nil _ (List.cons_ne_nil _ _))

/-- A third operand, a symbol when the table is full, and data behind the end of the output buffer. -/
theorem arrays_overrun : asmMain (ascii "a b c d\n") = .error (.outside .ops) ∧
    asmMain ((List.range 33).flatMap fun n => [UInt8.ofNat (64 + n), 58, 10]) = .error (.outside .sTable) ∧
    asmMain (List.replicate 9 (ascii "x dd" ++ (List.replicate 30 (ascii " 1")).flatten ++ [10])).flatten =
      .error (.outside .obuff) := by
  refine ⟨eq_error_of_map rfl, eq_error_of_map ?_, eq_error_of_map ?_⟩
  · decide +kernel
  · decide +kernel

end NanoS32
