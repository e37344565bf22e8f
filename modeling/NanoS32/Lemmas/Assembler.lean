import NanoS32.Nas.Assembler
import NanoS32.Lemmas.Mem

/-!
# A line of the assembler

What a line does to the tables and to the output: one statement for each of them, from the operations of the source up to
`asmLine`.
-/

namespace NanoS32

/-- A sequence that returns has a first part that does. -/
theorem except_bind_eq_ok {ε α β : Type} {x : Except ε α} {f : α → Except ε β} {b : β} (h : x >>= f = .ok b) :
    ∃ a, x = .ok a ∧ f a = .ok b := by
  cases x with
  | error e => cases h
  | ok a => exact ⟨a, rfl, h⟩

/-- A closed computation that returns a value with a property, when evaluation says so. -/
theorem exists_ok_of_any {ε α : Type} {x : Except ε α} {p : α → Bool} (h : x.toOption.any p = true) :
    ∃ a, x = .ok a ∧ p a = true := by
  cases x with
  | error e => cases h
  | ok a => exact ⟨a, rfl, h⟩

/-- An error stays when the value is forgotten. -/
theorem eq_error_of_map {ε α : Type} {x : Except ε α} {e : ε} (h : x.map (fun _ => ()) = .error e) : x = .error e := by
  cases x with
  | error e' => exact congrArg _ (Except.error.inj h)
  | ok a => cases h

theorem setAt_self {α : Type} (f : Nat → α) (i : Nat) (v : α) : setAt f i v i = v := if_pos rfl

theorem setAt_ne {α : Type} (f : Nat → α) {i j : Nat} (v : α) (h : j ≠ i) : setAt f i v j = f j := if_neg h

/-! ## Symbols -/

/-- The name is the first of its kind at this index, and no entry before it is empty. -/
structure SymbolAt (sTable : Nat → Symbol) (name : CStr) (s : Nat) : Prop where
  lt : s < sMax
  name_eq : (sTable s).name = name
  before : ∀ i < s, (sTable i).name ≠ [] ∧ (sTable i).name ≠ name

/-- The names that are in the table stay. -/
def KeepsNames (sTable sTable' : Nat → Symbol) : Prop := ∀ i, (sTable i).name ≠ [] → (sTable' i).name = (sTable i).name

/-- The ways `find_or_add_symbol` ends. -/
inductive Found (sTable : Nat → Symbol) (name : CStr) : (Nat → Symbol) → Nat → Prop where
  | found {s : Nat} (hs : SymbolAt sTable name s) : Found sTable name sTable s
  | added {s : Nat} (hlt : s < sMax) (hempty : (sTable s).name = [])
      (hbefore : ∀ i < s, (sTable i).name ≠ [] ∧ (sTable i).name ≠ name) :
      Found sTable name (setAt sTable s { sTable s with name := strncpy name 8 }) s
  | full (hfull : ∀ i < sMax, (sTable i).name ≠ [] ∧ (sTable i).name ≠ name) : Found sTable name sTable errorNotFound

theorem findOrAddLoop_found (sTable : Nat → Symbol) (name : CStr) : ∀ k s, s + k = sMax →
    (∀ i < s, (sTable i).name ≠ [] ∧ (sTable i).name ≠ name) →
    Found sTable name (findOrAddLoop sTable name k s).1 (findOrAddLoop sTable name k s).2 := by
  intro k
  induction k with
  | zero =>
    intro s hs hbefore
    rw [Nat.add_zero] at hs
    exact Found.full (hs ▸ hbefore)
  | succ k ih =>
    intro s hs hbefore
    unfold findOrAddLoop
    split_ifs with hempty hname
    · exact Found.added (by omega) hempty hbefore
    · exact Found.found ⟨by omega, hname, hbefore⟩
    · refine ih (s + 1) (by omega) fun i hi => ?_
      rcases Nat.lt_or_eq_of_le (Nat.le_of_lt_succ hi) with hlt | rfl
      · exact hbefore i hlt
      · exact ⟨hempty, hname⟩

theorem findOrAddSymbol_found (sTable : Nat → Symbol) (name : CStr) :
    Found sTable name (findOrAddSymbol sTable name).1 (findOrAddSymbol sTable name).2 :=
  findOrAddLoop_found sTable name sMax 0 (Nat.zero_add _) fun _ h => absurd h (Nat.not_lt_zero _)

theorem KeepsNames.refl (sTable : Nat → Symbol) : KeepsNames sTable sTable := fun _ _ => rfl

theorem KeepsNames.trans {T T' T'' : Nat → Symbol} (h : KeepsNames T T') (h' : KeepsNames T' T'') : KeepsNames T T'' := by
  intro i hi
  have hT := h i hi
  exact (h' i (hT ▸ hi)).trans hT

/-- A symbol keeps its index. -/
theorem SymbolAt.keep {T T' : Nat → Symbol} {name : CStr} {s : Nat} (h : SymbolAt T name s) (hne : name ≠ []) (hk : KeepsNames T T') :
    SymbolAt T' name s := by
  refine ⟨h.lt, (hk s (h.name_eq ▸ hne)).trans h.name_eq, fun i hi => ?_⟩
  have hb := h.before i hi
  rw [hk i hb.1]
  exact hb

theorem SymbolAt.unique {T : Nat → Symbol} {name : CStr} {s s' : Nat} (h : SymbolAt T name s) (h' : SymbolAt T name s') :
    s = s' := by
  rcases Nat.lt_trichotomy s s' with hlt | heq | hlt
  · exact absurd h.name_eq (h'.before s hlt).2
  · exact heq
  · exact absurd h'.name_eq (h.before s' hlt).2

section Found

variable {T T' : Nat → Symbol} {name : CStr} {r : Nat}

theorem Found.keeps (h : Found T name T' r) : KeepsNames T T' := by
  cases h with
  | found => exact KeepsNames.refl T
  | added hlt hempty hbefore =>
    intro i hi
    have hne : i ≠ r := fun h => hi (h ▸ hempty)
    rw [setAt_ne _ _ hne]
  | full => exact KeepsNames.refl T

/-- Finding or adding a symbol changes no value. -/
theorem Found.value (h : Found T name T' r) (i : Nat) : (T' i).value = (T i).value := by
  cases h with
  | found => rfl
  | added hlt hempty hbefore =>
    by_cases hi : i = r
    · rw [hi, setAt_self]
    · rw [setAt_ne _ _ hi]
  | full => rfl

/-- A name that fits its entry is at the index that is returned. -/
theorem Found.symbolAt (h : Found T name T' r) (hlen : name.length ≤ 7) (hr : r < sMax) : SymbolAt T' name r := by
  cases h with
  | found hs => exact hs
  | added hlt hempty hbefore =>
    refine ⟨hlt, ?_, fun i hi => ?_⟩
    · rw [setAt_self]
      exact List.take_of_length_le hlen
    · rw [setAt_ne _ _ (Nat.ne_of_lt hi)]
      exact hbefore i hi
  | full => exact absurd hr (by decide)

/-- What is returned for one name is not the index of another. -/
theorem Found.ne (h : Found T name T' r) {name' : CStr} {s : Nat} (hne : name' ≠ []) (hs : SymbolAt T name' s) (hname : name ≠ name') :
    r ≠ s := by
  cases h with
  | found hs' =>
    rintro rfl
    exact hname (hs'.name_eq.symm.trans hs.name_eq)
  | added hlt hempty hbefore =>
    rintro rfl
    exact hne (hs.name_eq.symm.trans hempty)
  | full =>
    intro h
    have := hs.lt
    rw [← h] at this
    exact absurd this (by decide)

end Found

/-! ## References -/

/-- The references are the first entries of the table. -/
def Packed (sRef : Nat → SRef) : Prop := ∀ r, (sRef r).offset ≠ 0 → ∀ i ≤ r, (sRef i).offset ≠ 0

/-- The ways `append_symbol_ref` ends. -/
inductive Appended (sRef : Nat → SRef) (ref : SRef) : (Nat → SRef) → Prop where
  | added {r : Nat} (hlt : r < sMaxRef) (hempty : (sRef r).offset = 0) (hbefore : ∀ i < r, (sRef i).offset ≠ 0) :
      Appended sRef ref (setAt sRef r ref)
  | full (hfull : ∀ i < sMaxRef, (sRef i).offset ≠ 0) : Appended sRef ref sRef

theorem appendRefLoop_appended (sRef : Nat → SRef) (ref : SRef) : ∀ k r, r + k = sMaxRef → (∀ i < r, (sRef i).offset ≠ 0) →
    Appended sRef ref (appendRefLoop sRef ref k r) := by
  intro k
  induction k with
  | zero =>
    intro r hr hbefore
    rw [Nat.add_zero] at hr
    exact Appended.full (hr ▸ hbefore)
  | succ k ih =>
    intro r hr hbefore
    unfold appendRefLoop
    split_ifs with hempty
    · exact Appended.added (by omega) hempty hbefore
    · refine ih (r + 1) (by omega) fun i hi => ?_
      rcases Nat.lt_or_eq_of_le (Nat.le_of_lt_succ hi) with hlt | rfl
      · exact hbefore i hlt
      · exact hempty

theorem appendSymbolRef_appended (sRef : Nat → SRef) (ref : SRef) : Appended sRef ref (appendSymbolRef sRef ref) :=
  appendRefLoop_appended sRef ref sMaxRef 0 (Nat.zero_add _) fun _ h => absurd h (Nat.not_lt_zero _)

section Appended

variable {sRef sRef' : Nat → SRef} {ref : SRef}

/-- The references in the table stay. -/
theorem Appended.keeps (h : Appended sRef ref sRef') {r : Nat} (hr : (sRef r).offset ≠ 0) : sRef' r = sRef r := by
  cases h with
  | added hlt hempty hbefore => exact setAt_ne _ _ fun heq => hr (heq ▸ hempty)
  | full => rfl

/-- What is new in the table is the reference, in one place. -/
theorem Appended.fresh (h : Appended sRef ref sRef') : ∃ t, (t < sMaxRef ∧ sRef' t = ref ∨ sRef' t = sRef t) ∧
    ∀ r, r ≠ t → sRef' r = sRef r := by
  cases h with
  | @added t hlt hempty hbefore => exact ⟨t, Or.inl ⟨hlt, setAt_self _ _ _⟩, fun r hr => setAt_ne _ _ hr⟩
  | full => exact ⟨0, Or.inr rfl, fun _ _ => rfl⟩

theorem Appended.packed (h : Appended sRef ref sRef') (hp : Packed sRef) : Packed sRef' := by
  cases h with
  | @added t hlt hempty hbefore =>
    intro r hr i hi
    have hle : r ≤ t := by
      by_contra hlt
      rw [setAt_ne _ _ (by omega)] at hr
      exact hp r hr t (by omega) hempty
    by_cases ht : i = t
    · have hrt : i = r := by omega
      rwa [hrt]
    · rw [setAt_ne _ _ ht]
      exact hbefore i (by omega)
  | full => exact hp

end Appended

/-! ## The output -/

theorem checkOutput_eq_ok {out out' : Mem × Nat} (h : checkOutput out = .ok out') : out' = out ∧ out.2 ≤ obuffSize := by
  unfold checkOutput at h
  split_ifs at h with hle
  · exact ⟨(Except.ok.inj h).symm, hle⟩

/-- The state with bytes appended to the output. -/
def Asm.append (st : Asm) (bytes : List UInt8) : Asm :=
  { st with obuff := st.obuff.store st.ooffset bytes, ooffset := st.ooffset + bytes.length }

/-- The bytes of the values of a data line. -/
def valueBytes (type : SType) (values : List CStr) : List UInt8 := values.flatMap fun tok => dataBytes type (stou tok)

/-- The loop over the values appends their bytes, when they are inside the output buffer. -/
theorem dataLoop_eq (type : SType) : ∀ (values : List CStr) (st : Asm), st.ooffset ≤ obuffSize →
    dataLoop type values st =
      if st.ooffset + (valueBytes type values).length ≤ obuffSize then .ok (st.append (valueBytes type values))
      else .error (.outside .obuff) := by
  intro values
  induction values with
  | nil =>
    intro st hst
    have hsame : st.append [] = st := by
      unfold Asm.append
      rw [Mem.store_nil]
      rfl
    rw [valueBytes, List.flatMap_nil, List.length_nil, Nat.add_zero, if_pos hst, hsame, dataLoop]
  | cons tok values ih =>
    intro st hst
    have hbytes : valueBytes type (tok :: values) = dataBytes type (stou tok) ++ valueBytes type values := List.flatMap_cons
    rw [dataLoop, encodeData, checkOutput, hbytes, List.length_append]
    by_cases hfit : st.ooffset + (dataBytes type (stou tok)).length ≤ obuffSize
    · rw [if_pos hfit]
      have hrest := ih (st.append (dataBytes type (stou tok))) hfit
      have happ : (st.append (dataBytes type (stou tok))).append (valueBytes type values) =
          st.append (dataBytes type (stou tok) ++ valueBytes type values) := by
        unfold Asm.append
        rw [Mem.store_store, List.length_append, Nat.add_assoc]
      rw [happ] at hrest
      unfold Asm.append at hrest ⊢
      rw [Nat.add_assoc] at hrest
      exact hrest
    · rw [if_neg hfit, if_neg (by omega)]
      rfl

/-! ## Operands -/

/-- What the loop over the operands does to the symbols, and what it keeps of the last one that names a symbol. -/
structure OperandsStep (T : Nat → Symbol) (v : Operands) : Prop where
  names : KeepsNames T v.sTable
  values : ∀ i, (v.sTable i).value = (T i).value
  nas : v.symbolId ≠ 0xFFFF → v.nas < iMaxOps

/-- A turn of the loop over the operands: a register or a number, or a symbol. -/
theorem parseOperand_eq_ok {v v' : Operands} {op : Nat} {tok : CStr} (h : parseOperand v op tok = .ok v') : op < iMaxOps ∧
    ((∃ type value, v' = { v with ci := v.ci.setOp op type value }) ∨
      ∃ name type, Found v.sTable name v'.sTable v'.symbolId ∧ v'.nas = op ∧ v'.ci = v.ci.setOp op type (stou name)) := by
  unfold parseOperand at h
  by_cases hop : op < iMaxOps
  · refine ⟨hop, ?_⟩
    rw [if_pos hop] at h
    dsimp only at h
    split_ifs at h
    all_goals
      obtain rfl := Except.ok.inj h
      first
        | exact Or.inl ⟨_, _, rfl⟩
        | exact Or.inr ⟨_, _, findOrAddSymbol_found _ _, rfl, rfl⟩
  · rw [if_neg hop] at h
    cases h

theorem operandLoop_step {T : Nat → Symbol} : ∀ (toks : List CStr) (op : Nat) (v v' : Operands), OperandsStep T v →
    operandLoop toks op v = .ok v' → OperandsStep T v' := by
  intro toks
  induction toks with
  | nil =>
    intro op v v' hv h
    rw [operandLoop] at h
    exact Except.ok.inj h ▸ hv
  | cons tok toks ih =>
    intro op v v' hv h
    rw [operandLoop] at h
    obtain ⟨w, hw, h⟩ := except_bind_eq_ok h
    refine ih (op + 1) w v' ?_ h
    obtain ⟨hop, ⟨type, value, rfl⟩ | ⟨name, type, hfound, hnas, -⟩⟩ := parseOperand_eq_ok hw
    · exact ⟨hv.names, hv.values, hv.nas⟩
    · exact ⟨hv.names.trans hfound.keeps, fun i => (hfound.value i).trans (hv.values i), fun _ => hnas ▸ hop⟩

/-- The operands before the loop. -/
theorem operandsInit_step (T : Nat → Symbol) (mnemonic : CStr) (nops : Nat) : OperandsStep T (operandsInit T mnemonic nops) :=
  ⟨KeepsNames.refl T, fun _ => rfl, fun h => absurd rfl h⟩

/-! ## Instructions -/

/-- The bytes that an instruction takes. -/
def encodeLength (id : InstrId) : Nat := (encodeBytes 0 0 id 0 0).length

theorem length_encodeBytes (cgOrigin offset : Nat) (id : InstrId) (op0 op1 : Nat) :
    (encodeBytes cgOrigin offset id op0 op1).length = encodeLength id := by
  cases id <;> simp only [encodeLength, encodeBytes, Ia32.le32, List.length_cons, List.length_nil]

/-- The reference that an instruction leaves. -/
def newRef (st : Asm) (v : Operands) (id : InstrId) : SRef :=
  { offset := st.ooffset, symbol := v.symbolId, operand := v.nas, instrId := id
    instruction := { v.ci with opcode := (iData id).opcode } }

/-- The table of references after an instruction. -/
def refsAfter (st : Asm) (v : Operands) (id : InstrId) : Nat → SRef :=
  if v.symbolId ≠ 0xFFFF then appendSymbolRef st.sRef (newRef st v id) else st.sRef

theorem emitInstruction_eq_ok {st st' : Asm} {v : Operands} (h : emitInstruction st v = .ok st') :
    ∃ id, findInstruction v.ci = some id ∧ st'.ooffset ≤ obuffSize ∧
      st' = Asm.append { st with sTable := v.sTable, sRef := refsAfter st v id }
        (encodeBytes st.cgOrigin st.ooffset id (v.ci.opValue 0) (v.ci.opValue 1)) := by
  unfold emitInstruction at h
  cases hfind : findInstruction v.ci with
  | none =>
    rw [hfind] at h
    cases h
  | some id =>
    rw [hfind] at h
    obtain ⟨out, hout, h⟩ := except_bind_eq_ok h
    obtain ⟨rfl, hle⟩ := checkOutput_eq_ok hout
    have hst := (Except.ok.inj h).symm
    unfold encodeInstruction at hst hle
    dsimp only at hst hle
    refine ⟨id, rfl, ?_, ?_⟩
    · rw [hst]
      exact hle
    · rw [hst, Asm.append, refsAfter, newRef]
      rfl

/-! ## Lines -/

/-- The name that a line defines. -/
def definedName (tokv : List CStr) : Option CStr :=
  match tokv with
  | [] => none
  | name :: toks =>
    if toks = [] ∧ name.getLast? = some 58 then some name.dropLast
    else if 2 ≤ toks.length ∧ toks.headD [] ∈ [ascii "dd", ascii "dw", ascii "db"] then some name
    else none

/-- What a line does: it defines at most one symbol, adds at most one reference, and appends to the output. -/
structure LineStep (st : Asm) (defined : Option CStr) (st' : Asm) : Prop where
  names : KeepsNames st.sTable st'.sTable
  value : ∀ name s, name ≠ [] → SymbolAt st.sTable name s → defined ≠ some name → (st'.sTable s).value = (st.sTable s).value
  defined : ∀ name, defined = some name → name.length ≤ 7 →
    ∃ s, SymbolAt st'.sTable name s ∧ (st'.sTable s).value = st.ooffset
  refs : ∀ r, (st.sRef r).offset ≠ 0 → st'.sRef r = st.sRef r
  packed : Packed st.sRef → Packed st'.sRef
  fresh : ∀ r, st'.sRef r ≠ st.sRef r → r < sMaxRef ∧ (st'.sRef r).offset = st.ooffset ∧ (st'.sRef r).operand < iMaxOps ∧
    st.ooffset + encodeLength (st'.sRef r).instrId = st'.ooffset
  single : ∀ r r', st'.sRef r ≠ st.sRef r → st'.sRef r' ≠ st.sRef r' → r = r'
  grows : st.ooffset ≤ st'.ooffset
  bound : st.ooffset ≤ obuffSize → st'.ooffset ≤ obuffSize
  origin : st.cgOrigin < 2 ^ 32 → st'.cgOrigin < 2 ^ 32

/-- A line that changes neither the tables nor the output. -/
theorem LineStep.origin_only {st : Asm} {v : Nat} (hv : st.cgOrigin < 2 ^ 32 → v < 2 ^ 32) :
    LineStep st none { st with cgOrigin := v } where
  names := KeepsNames.refl _
  value := fun _ _ _ _ _ => rfl
  defined := fun name h => absurd h (Option.some_ne_none name).symm
  refs := fun _ _ => rfl
  packed := id
  fresh := fun _ h => absurd rfl h
  single := fun _ _ h => absurd rfl h
  grows := Nat.le_refl _
  bound := id
  origin := hv

/-- Finding or adding a symbol, and defining it. -/
theorem defineSymbol_eq_ok {st st' : Asm} {name : CStr} {type : SType} (h : defineSymbol st name type = .ok st') :
    ∃ T s, Found st.sTable name T s ∧ s < sMax ∧
      st' = { st with sTable := setAt T s { T s with value := st.ooffset, type := type } } := by
  unfold defineSymbol setSymbol at h
  dsimp only at h
  split_ifs at h with hlt
  · exact ⟨_, _, findOrAddSymbol_found _ _, hlt, (Except.ok.inj h).symm⟩

theorem defineSymbol_step {st st' : Asm} {name : CStr} {type : SType} (h : defineSymbol st name type = .ok st') :
    LineStep st (some name) st' := by
  obtain ⟨T, s, hfound, hlt, rfl⟩ := defineSymbol_eq_ok h
  have hnames : KeepsNames T (setAt T s { T s with value := st.ooffset, type := type }) := by
    intro i _
    by_cases hi : i = s
    · rw [hi, setAt_self]
    · rw [setAt_ne _ _ hi]
  have hsame : ∀ i, (setAt T s { T s with value := st.ooffset, type := type } i).name = (T i).name := by
    intro i
    by_cases hi : i = s
    · rw [hi, setAt_self]
    · rw [setAt_ne _ _ hi]
  exact
    { names := hfound.keeps.trans hnames
      value := fun nm t hne ht hdef => by
        have hst : s ≠ t := hfound.ne hne ht fun heq => hdef (congrArg some heq)
        dsimp only
        rw [setAt_ne _ _ hst.symm]
        exact hfound.value t
      defined := fun nm hnm hlen => by
        obtain rfl := Option.some.inj hnm
        have hat := hfound.symbolAt hlen hlt
        refine ⟨s, ⟨hlt, (hsame s).trans hat.name_eq, fun i hi => ?_⟩, by dsimp only; rw [setAt_self]⟩
        dsimp only
        rw [hsame i]
        exact hat.before i hi
      refs := fun _ _ => rfl
      packed := id
      fresh := fun _ hr => absurd rfl hr
      single := fun _ _ hr => absurd rfl hr
      grows := Nat.le_refl _
      bound := id
      origin := id }

theorem instructionLine_step {st st' : Asm} {mnemonic : CStr} {operands : List CStr}
    (h : instructionLine st mnemonic operands = .ok st') : LineStep st none st' := by
  unfold instructionLine at h
  obtain ⟨v, hv, h⟩ := except_bind_eq_ok h
  obtain ⟨hnames, hvalues, hnas⟩ := operandLoop_step _ _ _ _ (operandsInit_step _ _ _) hv
  obtain ⟨id, -, hle, rfl⟩ := emitInstruction_eq_ok h
  refine
    { names := hnames
      value := fun _ s _ _ _ => hvalues s
      defined := fun name h => absurd h (Option.some_ne_none name).symm
      refs := ?_
      packed := ?_
      fresh := ?_
      single := ?_
      grows := Nat.le_add_right _ _
      bound := fun _ => hle
      origin := fun h => h }
  · intro r hr
    simp only [Asm.append, refsAfter]
    split_ifs with hsym
    · exact (appendSymbolRef_appended _ _).keeps hr
    · rfl
  · intro hp
    simp only [Asm.append, refsAfter]
    split_ifs with hsym
    · exact (appendSymbolRef_appended _ _).packed hp
    · exact hp
  · intro r hr
    simp only [Asm.append, refsAfter] at hr ⊢
    split_ifs at hr ⊢ with hsym
    · obtain ⟨t, ht, hne⟩ := (appendSymbolRef_appended st.sRef (newRef st v id)).fresh
      obtain rfl : r = t := by
        by_contra hrt
        exact hr (hne r hrt)
      obtain ⟨hlt, heq⟩ := ht.resolve_right hr
      rw [heq, length_encodeBytes]
      exact ⟨hlt, rfl, hnas hsym, rfl⟩
    · exact absurd rfl hr
  · intro r r' hr hr'
    simp only [Asm.append, refsAfter] at hr hr'
    split_ifs at hr hr' with hsym
    · obtain ⟨t, -, hne⟩ := (appendSymbolRef_appended st.sRef (newRef st v id)).fresh
      by_cases hrt : r = t
      · by_contra hrr
        exact hr' (hne r' fun ht => hrr (hrt.trans ht.symm))
      · exact absurd (hne r hrt) hr
    · exact absurd rfl hr

/-- Bytes appended to the output change no table. -/
theorem LineStep.append {st st' : Asm} {defined : Option CStr} (h : LineStep st defined st') {bytes : List UInt8}
    (hrefs : st'.sRef = st.sRef) (hle : st.ooffset ≤ obuffSize → st'.ooffset + bytes.length ≤ obuffSize) :
    LineStep st defined (st'.append bytes) where
  names := h.names
  value := h.value
  defined := h.defined
  refs := h.refs
  packed := h.packed
  fresh := fun r hr => absurd (congrFun hrefs r) hr
  single := fun r _ hr => absurd (congrFun hrefs r) hr
  grows := Nat.le_trans h.grows (Nat.le_add_right _ _)
  bound := hle
  origin := h.origin

theorem dataLine_step {st st' : Asm} {type : SType} {name : CStr} {values : List CStr} (hst : st.ooffset ≤ obuffSize)
    (h : dataLine st type name values = .ok st') : LineStep st (some name) st' := by
  unfold dataLine at h
  obtain ⟨st₁, h₁, h⟩ := except_bind_eq_ok h
  have hstep := defineSymbol_step h₁
  obtain ⟨T, s, -, -, hdef⟩ := defineSymbol_eq_ok h₁
  have hrefs : st₁.sRef = st.sRef := by rw [hdef]
  have hoffset : st₁.ooffset = st.ooffset := by rw [hdef]
  rw [dataLoop_eq _ _ _ (hoffset ▸ hst)] at h
  split_ifs at h with hfit
  · obtain rfl := Except.ok.inj h
    exact hstep.append hrefs fun _ => hfit

theorem stouLoop_lt (base : Nat) : ∀ (src : CStr) (value : Nat), value < 2 ^ 32 → stouLoop base src value < 2 ^ 32 := by
  intro src
  induction src with
  | nil => exact fun value h => h
  | cons ch src ih => exact fun value _ => ih _ (Nat.mod_lt _ (by decide))

theorem stou_lt (src : CStr) : stou src < 2 ^ 32 := by
  unfold stou
  split
  · exact stouLoop_lt _ _ _ (by decide)
  · exact stouLoop_lt _ _ _ (by decide)

/-- The directives of data lines, one by one. -/
theorem not_data {toks : List CStr} (hdd : ¬(2 ≤ toks.length ∧ toks.headD [] = ascii "dd"))
    (hdw : ¬(2 ≤ toks.length ∧ toks.headD [] = ascii "dw")) (hdb : ¬(2 ≤ toks.length ∧ toks.headD [] = ascii "db")) :
    ¬(2 ≤ toks.length ∧ toks.headD [] ∈ [ascii "dd", ascii "dw", ascii "db"]) := by
  rintro ⟨hlen, hmem⟩
  simp only [List.mem_cons, List.not_mem_nil, or_false] at hmem
  rcases hmem with hmem | hmem | hmem
  · exact hdd ⟨hlen, hmem⟩
  · exact hdw ⟨hlen, hmem⟩
  · exact hdb ⟨hlen, hmem⟩

/-- Every line of the assembler is such a step. -/
theorem asmLine_step {st st' : Asm} {tokv : List CStr} (hst : st.ooffset ≤ obuffSize) (h : asmLine st tokv = .ok st') :
    LineStep st (definedName tokv) st' := by
  cases tokv with
  | nil =>
    obtain rfl := Except.ok.inj h
    exact LineStep.origin_only id
  | cons name toks =>
    unfold asmLine at h
    unfold definedName
    dsimp only at h ⊢
    split_ifs at h with horg hlabel hdd hdw hdb
    · obtain rfl := Except.ok.inj h
      have hlen := horg.1
      have hne : toks ≠ [] := fun hnil => by simp [hnil] at hlen
      rw [if_neg fun hc => hne hc.1, if_neg fun hc => by omega]
      exact LineStep.origin_only fun _ => stou_lt _
    · rw [if_pos hlabel]
      exact defineSymbol_step h
    · have hne : toks ≠ [] := fun hnil => by simp [hnil] at hdd
      rw [if_neg fun hc => hne hc.1, if_pos ⟨hdd.1, hdd.2 ▸ List.mem_cons_self⟩]
      exact dataLine_step hst h
    · have hne : toks ≠ [] := fun hnil => by simp [hnil] at hdw
      rw [if_neg fun hc => hne hc.1, if_pos ⟨hdw.1, hdw.2 ▸ List.mem_cons_of_mem _ List.mem_cons_self⟩]
      exact dataLine_step hst h
    · have hne : toks ≠ [] := fun hnil => by simp [hnil] at hdb
      rw [if_neg fun hc => hne hc.1, if_pos ⟨hdb.1, hdb.2 ▸ List.mem_cons_of_mem _ (List.mem_cons_of_mem _ List.mem_cons_self)⟩]
      exact dataLine_step hst h
    · rw [if_neg hlabel, if_neg (not_data hdd hdw hdb)]
      exact instructionLine_step h

end NanoS32
