import NanoS32.Lemmas.Resolve

/-!
# References

An operand that names a symbol is encoded with the address of the symbol when the resolution gets to its reference. References are
told from empty entries by their offset, so an instruction at offset 0 has none, and a reference that the table has no room for is
dropped.
-/

namespace NanoS32

/-! ## Operands that name a symbol -/

/-- The operand is in brackets. -/
def InBrackets (tok : CStr) : Prop := tok.head? = some 91 ∧ tok.getLast? = some 93

instance (tok : CStr) : Decidable (InBrackets tok) := inferInstanceAs (Decidable (_ ∧ _))

/-- An operand without its brackets. -/
def operandName (tok : CStr) : CStr := if InBrackets tok then tok.dropLast.drop 1 else tok

/-- The type of an operand that names a register, or that it is unknown. -/
def registerType (tok : CStr) : OType :=
  match rData.findIdx? fun r => r.name = operandName tok with
  | some r => if InBrackets tok then .rmd else (rData.map RegData.type).getD r .any
  | none => .any

/-- The symbol that an operand names, when it is not taken for a register or a number. -/
def symbolOf (tok : CStr) : Option CStr :=
  if registerType tok ≠ .any ∨ sisu (operandName tok) = true then none else some (operandName tok)

/-- The type of an operand. -/
def operandType (tok : CStr) : OType :=
  if registerType tok ≠ .any then registerType tok else if InBrackets tok then .md else .ix

theorem operandType_symbol {tok name : CStr} (h : symbolOf tok = some name) :
    operandType tok = if InBrackets tok then .md else .ix := by
  unfold symbolOf at h
  split_ifs at h with hno
  · exact if_neg (not_or.1 hno).1

theorem parseOperand_eq (v : Operands) {op : Nat} (hop : op < iMaxOps) (tok : CStr) : parseOperand v op tok =
    if registerType tok ≠ .any then
      .ok { v with ci := v.ci.setOp op (registerType tok) ((rData.findIdx? fun r => r.name = operandName tok).getD 0) }
    else if sisu (operandName tok) = true then
      .ok { v with ci := v.ci.setOp op (if InBrackets tok then .md else .ix) (stou (operandName tok)) }
    else
      .ok { sTable := (findOrAddSymbol v.sTable (operandName tok)).1, symbolId := (findOrAddSymbol v.sTable (operandName tok)).2
            nas := op, ci := v.ci.setOp op (if InBrackets tok then .md else .ix) (stou (operandName tok)) } :=
  if_pos hop

/-- An operand that names a symbol. -/
theorem parseOperand_symbol {tok name : CStr} (h : symbolOf tok = some name) {op : Nat} (hop : op < iMaxOps) (v : Operands) :
    parseOperand v op tok =
      .ok { sTable := (findOrAddSymbol v.sTable name).1, symbolId := (findOrAddSymbol v.sTable name).2, nas := op
            ci := v.ci.setOp op (if InBrackets tok then .md else .ix) (stou name) } := by
  unfold symbolOf at h
  split_ifs at h with hno
  · obtain rfl := Option.some.inj h
    obtain ⟨hreg, hnum⟩ := not_or.1 hno
    rw [parseOperand_eq v hop, if_neg hreg, if_neg hnum]

/-- An operand that does not. -/
theorem parseOperand_other {tok : CStr} (h : symbolOf tok = none) {op : Nat} (hop : op < iMaxOps) (v : Operands) :
    ∃ value, parseOperand v op tok = .ok { v with ci := v.ci.setOp op (operandType tok) value } := by
  unfold symbolOf at h
  unfold operandType
  rw [parseOperand_eq v hop]
  split_ifs at h with hyes
  by_cases hreg : registerType tok ≠ .any
  · rw [if_pos hreg, if_pos hreg]
    exact ⟨_, rfl⟩
  · rw [if_neg hreg, if_neg hreg, if_pos (hyes.resolve_left hreg)]
    exact ⟨_, rfl⟩

/-- An operand that there is room for is taken, with its type. -/
theorem parseOperand_type (v : Operands) {op : Nat} (hop : op < iMaxOps) (tok : CStr) :
    ∃ v' value, parseOperand v op tok = .ok v' ∧ v'.ci = v.ci.setOp op (operandType tok) value := by
  cases hsym : symbolOf tok with
  | none =>
    obtain ⟨value, h⟩ := parseOperand_other hsym hop v
    exact ⟨_, value, h, rfl⟩
  | some name =>
    refine ⟨_, stou name, parseOperand_symbol hsym hop v, ?_⟩
    rw [operandType_symbol hsym]

/-- No instruction has an address or an immediate for both of its operands. -/
theorem findInstruction_ops {ci : IData} {id : InstrId} (h : findInstruction ci = some id) :
    ci.nops = (iData id).nops ∧ ci.mnemonic = (iData id).mnemonic ∧
      ∀ i : Fin 2, i.val < ci.nops → ci.opType i = (iData id).opType i := by
  have hmatch := List.find?_some h
  unfold matchesInstr at hmatch
  obtain ⟨hname, hnops, hops⟩ := of_decide_eq_true hmatch
  exact ⟨hnops, hname, fun i hi => (hops i hi).1⟩

theorem iData_ops (id : InstrId) : ¬(((iData id).opType 0 = .md ∨ (iData id).opType 0 = .ix) ∧
    ((iData id).opType 1 = .md ∨ (iData id).opType 1 = .ix)) := by
  cases id <;> decide

theorem InBrackets.type (tok : CStr) :
    (if InBrackets tok then OType.md else .ix) = .md ∨ (if InBrackets tok then OType.md else .ix) = .ix := by
  split_ifs
  · exact Or.inl rfl
  · exact Or.inr rfl

/-- There is no instruction for two operands that name symbols. -/
theorem two_symbols {t₀ t₁ name₀ name₁ : CStr} (h₀ : symbolOf t₀ = some name₀) (h₁ : symbolOf t₁ = some name₁) {ci : IData}
    {id : InstrId} (htype₀ : ci.opType 0 = operandType t₀) (htype₁ : ci.opType 1 = operandType t₁) (hnops : ci.nops = 2) :
    findInstruction ci ≠ some id := by
  intro hfind
  obtain ⟨-, -, hops⟩ := findInstruction_ops hfind
  have h0 := (hops 0 (by omega)).symm.trans htype₀
  have h1 := (hops 1 (by omega)).symm.trans htype₁
  rw [operandType_symbol h₀] at h0
  rw [operandType_symbol h₁] at h1
  exact iData_ops id ⟨h0 ▸ InBrackets.type t₀, h1 ▸ InBrackets.type t₁⟩

theorem Found.index {T T' : Nat → Symbol} {name : CStr} {r : Nat} (h : Found T name T' r) : r ≠ 0xFFFF := by
  cases h with
  | found hs =>
    have := hs.lt
    unfold sMax at this
    omega
  | added hlt =>
    unfold sMax at hlt
    omega
  | full => decide

/-- The operand that names a symbol is the one that the loop keeps. -/
theorem operandLoop_symbol {T : Nat → Symbol} {mnemonic : CStr} {ops : List CStr} {v : Operands} {id : InstrId}
    (h : operandLoop ops 0 (operandsInit T mnemonic ops.length) = .ok v) (hfind : findInstruction v.ci = some id) {k : Nat}
    {tok name : CStr} (hk : ops[k]? = some tok) (hname : symbolOf tok = some name) :
    v.nas = k ∧ v.symbolId ≠ 0xFFFF ∧ Found T name v.sTable v.symbolId := by
  match ops, h, hk with
  | [], _, hk => cases hk
  | [t0], h, hk =>
    obtain ⟨rfl, rfl⟩ : k = 0 ∧ t0 = tok := by
      cases k with
      | zero => exact ⟨rfl, Option.some.inj hk⟩
      | succ k => cases hk
    rw [operandLoop, parseOperand_symbol hname (by decide)] at h
    obtain rfl := Except.ok.inj h
    exact ⟨rfl, (findOrAddSymbol_found _ _).index, findOrAddSymbol_found _ _⟩
  | [t0, t1], h, hk =>
    rw [operandLoop] at h
    obtain ⟨v₀, h₀, h⟩ := except_bind_eq_ok h
    rw [operandLoop] at h
    obtain ⟨v₁, h₁, h⟩ := except_bind_eq_ok h
    obtain rfl := Except.ok.inj h
    cases k with
    | zero =>
      obtain rfl := Option.some.inj hk
      rw [parseOperand_symbol hname (by decide)] at h₀
      obtain rfl := Except.ok.inj h₀
      cases hsym : symbolOf t1 with
      | none =>
        obtain ⟨value, hother⟩ := parseOperand_other hsym (show 0 + 1 < iMaxOps by decide) _
        rw [hother] at h₁
        obtain rfl := Except.ok.inj h₁
        exact ⟨rfl, (findOrAddSymbol_found _ _).index, findOrAddSymbol_found _ _⟩
      | some name' =>
        rw [parseOperand_symbol hsym (by decide)] at h₁
        obtain rfl := Except.ok.inj h₁
        exact absurd hfind (two_symbols hname hsym (operandType_symbol hname).symm (operandType_symbol hsym).symm rfl)
    | succ k =>
      obtain ⟨rfl, rfl⟩ : k = 0 ∧ t1 = tok := by
        cases k with
        | zero => exact ⟨rfl, Option.some.inj hk⟩
        | succ k => cases hk
      cases hsym : symbolOf t0 with
      | none =>
        obtain ⟨value, hother⟩ := parseOperand_other hsym (show 0 < iMaxOps by decide) _
        rw [hother] at h₀
        obtain rfl := Except.ok.inj h₀
        rw [parseOperand_symbol hname (by decide)] at h₁
        obtain rfl := Except.ok.inj h₁
        exact ⟨rfl, (findOrAddSymbol_found _ _).index, findOrAddSymbol_found _ _⟩
      | some name' =>
        rw [parseOperand_symbol hsym (by decide)] at h₀
        obtain rfl := Except.ok.inj h₀
        rw [parseOperand_symbol hname (by decide)] at h₁
        obtain rfl := Except.ok.inj h₁
        exact absurd hfind (two_symbols hsym hname (operandType_symbol hsym).symm (operandType_symbol hname).symm rfl)
  | t0 :: t1 :: t2 :: rest, h, _ =>
    rw [operandLoop] at h
    obtain ⟨v₀, h₀, h⟩ := except_bind_eq_ok h
    rw [operandLoop] at h
    obtain ⟨v₁, h₁, h⟩ := except_bind_eq_ok h
    rw [operandLoop] at h
    obtain ⟨v₂, h₂, h⟩ := except_bind_eq_ok h
    exact absurd (parseOperand_eq_ok h₂).1 (by decide)

/-! ## From the line to the end of the run -/

/-- The last line that defines the symbol is at this offset of the output. -/
def DefinedAt (lines : List (List CStr)) (name : CStr) (offset : Nat) : Prop :=
  ∃ before line after st, lines = before ++ line :: after ∧ asmLines asmInit before = .ok st ∧ definedName line = some name ∧
    st.ooffset = offset ∧ ∀ l ∈ after, definedName l ≠ some name

/-- At the end of a run, a symbol has the offset where it was defined last. -/
theorem asmLines_defined {lines : List (List CStr)} {st' : Asm} (h : asmLines asmInit lines = .ok st') {name : CStr} {offset : Nat}
    (hdef : DefinedAt lines name offset) (hne : name ≠ []) (hlen : name.length ≤ 7) :
    ∃ s, SymbolAt st'.sTable name s ∧ (st'.sTable s).value = offset := by
  obtain ⟨before, line, after, st, rfl, hst, hline, rfl, hafter⟩ := hdef
  rw [asmLines_append, hst] at h
  obtain ⟨st₁, h₁, h⟩ := except_bind_eq_ok ((asmLines_cons st line after).symm.trans h)
  have hi := (asmLines_inv _ _ _ asmInit_inv hst).1
  have hstep := asmLine_step hi.bound h₁
  obtain ⟨s, hs, hvalue⟩ := hstep.defined name hline hlen
  obtain ⟨hs', hvalue'⟩ := asmLines_value hne after st₁ st' s (hi.step hstep) h hs hafter
  exact ⟨s, hs', hvalue'.trans hvalue⟩

/-- A line that is an instruction. -/
def IsInstruction (mnemonic : CStr) (ops : List CStr) : Prop :=
  ¬(ops.length = 1 ∧ mnemonic = ascii "ORG") ∧ definedName (mnemonic :: ops) = none

theorem asmLine_instruction {mnemonic : CStr} {ops : List CStr} (h : IsInstruction mnemonic ops) (st : Asm) :
    asmLine st (mnemonic :: ops) = instructionLine st mnemonic ops := by
  obtain ⟨horg, hdef⟩ := h
  unfold definedName at hdef
  dsimp only at hdef
  split_ifs at hdef with hlabel hdata
  unfold asmLine
  dsimp only
  have hdir : ∀ d ∈ [ascii "dd", ascii "dw", ascii "db"], ¬(2 ≤ ops.length ∧ ops.headD [] = d) :=
    fun d hd hc => hdata ⟨hc.1, hc.2 ▸ hd⟩
  rw [if_neg horg, if_neg hlabel, if_neg (hdir _ (by simp)), if_neg (hdir _ (by simp)), if_neg (hdir _ (by simp))]

/-- What an instruction needs to have its reference kept: it is not at offset 0, and there is room in the table. -/
structure KeepsReference (st : Asm) : Prop where
  offset : st.ooffset ≠ 0
  room : ∃ r < sMaxRef, (st.sRef r).offset = 0

theorem Appended.kept {sRef sRef' : Nat → SRef} {ref : SRef} (h : Appended sRef ref sRef')
    (hroom : ∃ r < sMaxRef, (sRef r).offset = 0) : ∃ r, sRef' r = ref := by
  obtain ⟨r, hr, hempty⟩ := hroom
  cases h with
  | @added t => exact ⟨t, setAt_self _ _ _⟩
  | full hfull => exact absurd hempty (hfull r hr)

/-- The reference of an instruction is in the table at the end of the run, with the index of the symbol that its operand names. -/
theorem reference_kept {before after : List (List CStr)} {mnemonic : CStr} {ops : List CStr} {st st₂ : Asm}
    (hrun : asmLines asmInit (before ++ (mnemonic :: ops) :: after) = .ok st₂) (hst : asmLines asmInit before = .ok st)
    (hins : IsInstruction mnemonic ops) {k : Nat} {tok name : CStr} (hk : ops[k]? = some tok) (hname : symbolOf tok = some name)
    (hne : name ≠ []) (hlen : name.length ≤ 7) (hkeep : KeepsReference st) :
    ∃ v id r, operandLoop ops 0 (operandsInit st.sTable mnemonic ops.length) = .ok v ∧ findInstruction v.ci = some id ∧
      v.nas = k ∧ st₂.sRef r = newRef st v id ∧ (v.symbolId < sMax → SymbolAt st₂.sTable name v.symbolId) := by
  rw [asmLines_append, hst] at hrun
  obtain ⟨st₁, h₁, hafter⟩ := except_bind_eq_ok ((asmLines_cons st _ after).symm.trans hrun)
  have hi := (asmLines_inv _ _ _ asmInit_inv hst).1
  have hstep := (asmLines_inv _ _ _ (hi.step (asmLine_step hi.bound h₁)) hafter).2
  rw [asmLine_instruction hins] at h₁
  unfold instructionLine at h₁
  obtain ⟨v, hv, hemit⟩ := except_bind_eq_ok h₁
  obtain ⟨id, hfind, -, hst₁⟩ := emitInstruction_eq_ok hemit
  obtain ⟨hnas, hsym, hfound⟩ := operandLoop_symbol hv hfind hk hname
  -- the reference is in the table after the line, and stays there
  obtain ⟨r, hr⟩ : ∃ r, st₁.sRef r = newRef st v id := by
    have hkept := (appendSymbolRef_appended st.sRef (newRef st v id)).kept hkeep.room
    rw [hst₁]
    unfold Asm.append refsAfter
    dsimp only
    rw [if_pos hsym]
    exact hkept
  have hoff : (st₁.sRef r).offset ≠ 0 := by
    rw [hr]
    exact hkeep.offset
  refine ⟨v, id, r, hv, hfind, hnas, (hstep.refs r hoff).trans hr, fun hlt => ?_⟩
  have hat : SymbolAt st₁.sTable name v.symbolId := by
    rw [hst₁]
    exact hfound.symbolAt hlen hlt
  exact hat.keep hne hstep.names

/-- In a program that is assembled, an instruction whose operand names a symbol that is defined ends up encoded with the address of
this symbol, when its reference is kept and the name fits the table. -/
theorem reference_resolved {file : List UInt8} {st' : Asm} (hok : asmMain file = .ok st') {before after : List (List CStr)}
    {mnemonic : CStr} {ops : List CStr} {st : Asm} (hlines : sourceLines file = before ++ (mnemonic :: ops) :: after)
    (hst : asmLines asmInit before = .ok st) (hins : IsInstruction mnemonic ops) {k : Nat} {tok name : CStr}
    (hk : ops[k]? = some tok) (hname : symbolOf tok = some name) (hne : name ≠ []) (hlen : name.length ≤ 7) {offset : Nat}
    (hdef : DefinedAt (sourceLines file) name offset) (hkeep : KeepsReference st) :
    ∃ v id, operandLoop ops 0 (operandsInit st.sTable mnemonic ops.length) = .ok v ∧ findInstruction v.ci = some id ∧
      ∀ j < encodeLength id, st'.obuff (st.ooffset + j) =
        (encodeBytes st'.cgOrigin st.ooffset id (if k = 0 then wrap32 (offset + st'.cgOrigin) else v.ci.opValue 0)
          (if k = 1 then wrap32 (offset + st'.cgOrigin) else v.ci.opValue 1)).getD j 0 := by
  obtain ⟨st₂, hrun, -, -, -, horigin, hresolved⟩ := asmMain_eq_ok hok
  obtain ⟨s, hs, hvalue⟩ := asmLines_defined hrun hdef hne hlen
  rw [hlines] at hrun
  obtain ⟨v, id, r, hv, hfind, hnas, hr, hat⟩ := reference_kept hrun hst hins hk hname hne hlen hkeep
  refine ⟨v, id, hv, hfind, ?_⟩
  obtain ⟨hlt, hbytes⟩ := hresolved r (by rw [hr]; exact hkeep.offset)
  rw [hr] at hlt hbytes
  obtain rfl := (hat hlt).unique hs
  intro j hj
  have hj' := hbytes j hj
  unfold Asm.refBytes SRef.resolved newRef at hj'
  dsimp only at hj'
  rw [hvalue, ← horigin, hnas] at hj'
  rw [hj']
  congr 2
  · by_cases h0 : k = 0
    · rw [if_pos h0]
      exact if_pos h0.symm
    · rw [if_neg h0]
      exact if_neg fun h => h0 h.symm
  · by_cases h1 : k = 1
    · rw [if_pos h1]
      exact if_pos h1.symm
    · rw [if_neg h1]
      exact if_neg fun h => h1 h.symm

end NanoS32
