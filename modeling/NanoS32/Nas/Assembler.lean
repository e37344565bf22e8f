import NanoS32.Nas.Instruction
import NanoS32.Nas.Token

/-!
# The assembler

The tables of symbols and of references of `nas.c`, what `main` does with a line of the source, and the resolution of the references
at the end. Where an access would be outside its array, the model stops there. Variables that are not initialised are 0.
-/

namespace NanoS32

/-! ## Tables -/

/-- The symbol types. -/
inductive SType where
  | label | datad | dataw | datab
  deriving DecidableEq

/-- An entry of `s_table`. The name is the string in its 8 characters. -/
structure Symbol where
  name : CStr
  type : SType
  value : Nat

/-- An entry of `s_ref`. -/
structure SRef where
  offset : Nat
  symbol : Nat
  operand : Nat
  instrId : InstrId
  instruction : IData

/-- `S_MAX`, `S_MAX_REF` and `I_MAX_OPS`, and the size of `obuff`. -/
def sMax : Nat := 32
def sMaxRef : Nat := 32
def iMaxOps : Nat := 2
def obuffSize : Nat := 1024

/-- The arrays whose indexes depend on the source file: the output, the operands of an instruction, and the symbols. -/
inductive AsmArray where
  | obuff | ops | sTable
  deriving DecidableEq

/-- Why the assembler stops: an access outside an array, or an error that it shows. -/
inductive AsmStop where
  | outside (array : AsmArray)
  | error
  deriving DecidableEq

/-- The variables of `main` in its loop, with the tables and the origin. -/
structure Asm where
  sTable : Nat → Symbol
  sRef : Nat → SRef
  obuff : Mem
  ooffset : Nat
  cgOrigin : Nat

/-- An array with one element replaced. -/
def setAt {α : Type} (f : Nat → α) (i : Nat) (v : α) : Nat → α := fun j => if j = i then v else f j

/-- The loop of `find_or_add_symbol`, from symbol `s` on. -/
def findOrAddLoop (sTable : Nat → Symbol) (name : CStr) : Nat → Nat → (Nat → Symbol) × Nat
  | 0, _ => (sTable, errorNotFound)
  | k + 1, s =>
    if (sTable s).name = [] then (setAt sTable s { sTable s with name := strncpy name 8 }, s)
    else if (sTable s).name = name then (sTable, s)
    else findOrAddLoop sTable name k (s + 1)

/-- `find_or_add_symbol`: the table, and the index of the symbol. -/
def findOrAddSymbol (sTable : Nat → Symbol) (name : CStr) : (Nat → Symbol) × Nat := findOrAddLoop sTable name sMax 0

/-- The loop of `find_symbol`, from symbol `s` on. -/
def findSymbolLoop (sTable : Nat → Symbol) (name : CStr) : Nat → Nat → Nat
  | 0, _ => errorNotFound
  | k + 1, s =>
    if (sTable s).name = [] then errorNotFound
    else if (sTable s).name = name then s
    else findSymbolLoop sTable name k (s + 1)

/-- `find_symbol`. -/
def findSymbol (sTable : Nat → Symbol) (name : CStr) : Nat := findSymbolLoop sTable name sMax 0

/-- The loop of `append_symbol_ref`, from reference `r` on. -/
def appendRefLoop (sRef : Nat → SRef) (ref : SRef) : Nat → Nat → Nat → SRef
  | 0, _ => sRef
  | k + 1, r => if (sRef r).offset = 0 then setAt sRef r ref else appendRefLoop sRef ref k (r + 1)

/-- `append_symbol_ref`. -/
def appendSymbolRef (sRef : Nat → SRef) (ref : SRef) : Nat → SRef := appendRefLoop sRef ref sMaxRef 0

/-- The instruction identifiers below `I_COUNT`, in order. -/
def instrIds : List InstrId :=
  [.push, .pop, .movRid, .movRrd, .movRmd, .movMrd, .movRrmd, .movRmrd, .cmpRid, .cmpRrd, .cmpRmd, .cmpMrd,
    .cmpRrmd, .cmpRmrd, .ret, .int, .call, .jmp, .je, .jne, .jg, .jge, .jl, .jle, .jc, .jnc, .addRid, .addRrd,
    .addRmd, .addMrd, .addRrmd, .addRmrd, .subRid, .subRrd, .subRmd, .subMrd, .subRrmd, .subRmrd, .mulRd,
    .divRd, .notRd, .andRid, .andRrd, .andRmd, .andMrd, .andRrmd, .andRmrd, .orRid, .orRrd, .orRmd, .orMrd,
    .orRrmd, .orRmrd]

/-- The test of `find_instruction`: the name, the number of operands, and each of these operands. -/
def matchesInstr (ci : IData) (id : InstrId) : Bool :=
  ci.mnemonic = (iData id).mnemonic ∧ ci.nops = (iData id).nops ∧
    ∀ i : Fin 2, i.val < ci.nops → ci.opType i = (iData id).opType i ∧
      ((iData id).opValue i = 0 ∨ (iData id).opValue i = ci.opValue i)

/-- `find_instruction`. -/
def findInstruction (ci : IData) : Option InstrId := instrIds.find? (matchesInstr ci)

/-! ## Writing the output -/

/-- What is written is in `obuff`: the buffer, and the offset behind what is written. -/
def checkOutput (out : Mem × Nat) : Except AsmStop (Mem × Nat) :=
  if out.2 ≤ obuffSize then .ok out else .error (.outside .obuff)

open Ia32 (le32) in
/-- The bytes of a value of a data type. -/
def dataBytes (type : SType) (value : Nat) : List UInt8 :=
  match type with
  | .datad => le32 value
  | .dataw => [byte value, byte (value >>> 8)]
  | .datab => [byte value]
  | .label => []

/-- `encode_data`. -/
def encodeData (buffer : Mem) (offset : Nat) (type : SType) (value : Nat) : Mem × Nat :=
  (buffer.store offset (dataBytes type value), offset + (dataBytes type value).length)

/-! ## Lines -/

/-- Give a symbol the offset of the output for its value, and a type. -/
def setSymbol (st : Asm) (symbol : Nat) (type : SType) : Except AsmStop Asm :=
  if symbol < sMax then
    .ok { st with sTable := setAt st.sTable symbol { st.sTable symbol with value := st.ooffset, type := type } }
  else .error (.outside .sTable)

/-- Find or add a symbol, and define it here. -/
def defineSymbol (st : Asm) (name : CStr) (type : SType) : Except AsmStop Asm :=
  let (sTable, symbol) := findOrAddSymbol st.sTable name
  setSymbol { st with sTable := sTable } symbol type

/-- The loop over the values of a data line. -/
def dataLoop (type : SType) : List CStr → Asm → Except AsmStop Asm
  | [], st => .ok st
  | tok :: toks, st => do
    let (obuff, ooffset) ← checkOutput (encodeData st.obuff st.ooffset type (stou tok))
    dataLoop type toks { st with obuff := obuff, ooffset := ooffset }

/-- "Check memory addresses", for one of the data types. -/
def dataLine (st : Asm) (type : SType) (name : CStr) (values : List CStr) : Except AsmStop Asm := do
  let st ← defineSymbol st name type
  dataLoop type values st

/-- The variables of the loop over the operands. -/
structure Operands where
  sTable : Nat → Symbol
  symbolId : Nat
  nas : Nat
  ci : IData

/-- One operand of the current instruction: its type and its value. -/
def IData.setOp (ci : IData) (op : Nat) (type : OType) (value : Nat) : IData :=
  { ci with
    opType := fun i => if i.val = op then type else ci.opType i
    opValue := fun i => if i.val = op then value else ci.opValue i }

/-- A turn of the loop over the operands: a register, a number, or a symbol. -/
def parseOperand (v : Operands) (op : Nat) (tok : CStr) : Except AsmStop Operands :=
  if op < iMaxOps then
    let isPointer := tok.head? = some 91 ∧ tok.getLast? = some 93
    let tok := if isPointer then tok.dropLast.drop 1 else tok
    let reg := rData.findIdx? fun r => r.name = tok
    let type :=
      match reg with
      | some r => if isPointer then .rmd else (rData.map RegData.type).getD r .any
      | none => .any
    if type ≠ .any then .ok { v with ci := v.ci.setOp op type (reg.getD 0) }
    else
      let type := if isPointer then .md else .ix
      if sisu tok then .ok { v with ci := v.ci.setOp op type (stou tok) }
      else
        let (sTable, symbolId) := findOrAddSymbol v.sTable tok
        .ok { sTable := sTable, symbolId := symbolId, nas := op, ci := v.ci.setOp op type (stou tok) }
  else .error (.outside .ops)

/-- The loop over the operands, from operand `op` on. -/
def operandLoop : List CStr → Nat → Operands → Except AsmStop Operands
  | [], _, v => .ok v
  | tok :: toks, op, v => do
    let v ← parseOperand v op tok
    operandLoop toks (op + 1) v

/-- The variables before the loop over the operands. -/
def operandsInit (sTable : Nat → Symbol) (mnemonic : CStr) (nops : Nat) : Operands :=
  { sTable := sTable
    symbolId := 0xFFFF
    nas := 0xFFFF
    ci := { mnemonic := strncpy mnemonic 6, opcode := 0, nops := nops, opType := fun _ => .any, opValue := fun _ => 0 } }

/-- "Process line": find the instruction, keep a reference to its symbol, and write it. -/
def emitInstruction (st : Asm) (v : Operands) : Except AsmStop Asm :=
  match findInstruction v.ci with
  | none => .error .error
  | some id => do
    let ci := { v.ci with opcode := (iData id).opcode }
    let sRef :=
      if v.symbolId ≠ 0xFFFF then
        appendSymbolRef st.sRef
          { offset := st.ooffset, symbol := v.symbolId, operand := v.nas, instrId := id, instruction := ci }
      else st.sRef
    let (obuff, ooffset) ← checkOutput
      (encodeInstruction st.cgOrigin st.obuff st.ooffset id (ci.opValue ⟨0, Nat.zero_lt_two⟩) (ci.opValue ⟨1, Nat.one_lt_two⟩))
    .ok { st with sTable := v.sTable, sRef := sRef, obuff := obuff, ooffset := ooffset }

/-- "Check instructions". -/
def instructionLine (st : Asm) (mnemonic : CStr) (operands : List CStr) : Except AsmStop Asm := do
  let v ← operandLoop operands 0 (operandsInit st.sTable mnemonic operands.length)
  emitInstruction st v

/-- What the loop of `main` does with the tokens of a line. -/
def asmLine (st : Asm) (tokv : List CStr) : Except AsmStop Asm :=
  match tokv with
  | [] => .ok st
  | name :: toks =>
    if toks.length = 1 ∧ name = ascii "ORG" then .ok { st with cgOrigin := stou (toks.headD []) }
    else if toks = [] ∧ name.getLast? = some 58 then defineSymbol st name.dropLast .label
    else if 2 ≤ toks.length ∧ toks.headD [] = ascii "dd" then dataLine st .datad name (toks.drop 1)
    else if 2 ≤ toks.length ∧ toks.headD [] = ascii "dw" then dataLine st .dataw name (toks.drop 1)
    else if 2 ≤ toks.length ∧ toks.headD [] = ascii "db" then dataLine st .datab name (toks.drop 1)
    else instructionLine st name toks

/-! ## The source file -/

/-- A turn of the loop of `main`, at an offset of the source: none at its end. -/
def asmTurn (file : List UInt8) (st : Asm) (foffset : Nat) : Except AsmStop (Option (Asm × Nat)) :=
  match readLine file foffset with
  | .error .eof => .ok none
  | .error .any => .error .error
  | .ok (line, foffset) => do
    let st ← asmLine st (tokenizeLine maxTok line)
    .ok (some (st, foffset))

/-- The loop of `main`. A turn takes at least one byte of the source. -/
def asmLoop (file : List UInt8) : Nat → Asm → Nat → Except AsmStop Asm
  | 0, st, _ => .ok st
  | fuel + 1, st, foffset => do
    match ← asmTurn file st foffset with
    | none => .ok st
    | some (st, foffset) => asmLoop file fuel st foffset

/-- "Resolve references", from reference `r` on. -/
def resolveLoop : Nat → Nat → Asm → Except AsmStop Asm
  | 0, _, st => .ok st
  | k + 1, r, st => do
    let ref := st.sRef r
    if ref.offset = 0 then .ok st
    else if iMaxOps ≤ ref.operand then .error (.outside .ops)
    else if sMax ≤ ref.symbol then .error (.outside .sTable)
    else
      let value := wrap32 ((st.sTable ref.symbol).value + st.cgOrigin)
      let ci := { ref.instruction with opValue := fun i => if i.val = ref.operand then value else ref.instruction.opValue i }
      let (obuff, _) ← checkOutput
        (encodeInstruction st.cgOrigin st.obuff ref.offset ref.instrId (ci.opValue ⟨0, Nat.zero_lt_two⟩)
          (ci.opValue ⟨1, Nat.one_lt_two⟩))
      resolveLoop k (r + 1) { st with sRef := setAt st.sRef r { ref with instruction := ci }, obuff := obuff }

/-- The variables before the loop of `main`: the tables and the output are cleared. -/
def asmInit : Asm :=
  { sTable := fun _ => { name := [], type := .label, value := 0 }
    sRef := fun _ => { offset := 0, symbol := 0, operand := 0, instrId := .push, instruction := iData .push }
    obuff := fun _ => 0
    ooffset := 0
    cgOrigin := 0x20000 }

/-- `main`, up to the output file: the variables with which it is written. -/
def asmMain (file : List UInt8) : Except AsmStop Asm := do
  let st ← asmLoop file (file.length + 1) asmInit 0
  if st.ooffset ≠ 0 then resolveLoop sMaxRef 0 st else .ok st

/-- The bytes of the output file; none is written when there are none. -/
def Asm.output (st : Asm) : List UInt8 := List.ofFn (st.obuff.array 0 st.ooffset)

end NanoS32
