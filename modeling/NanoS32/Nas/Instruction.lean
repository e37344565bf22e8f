import Mathlib.Data.Fin.VecNotation
import NanoS32.Lib.Ia32
import NanoS32.Ulib.Str
import NanoS32.Ulib.Mem

/-!
# The instructions of the assembler

The tables of `nas.c`, and the encoding of an instruction into the output buffer.
-/

namespace NanoS32

/-- The operand types: unknown, a register, the memory at a register, the memory at an address, an immediate. -/
inductive OType where
  | any | rd | rmd | md | ix
  deriving DecidableEq

/-- An entry of `r_data`. -/
structure RegData where
  name : CStr
  type : OType
  encoding : Nat

/-- The bytes of a name in the tables. -/
def ascii (s : String) : CStr := s.toList.map fun c => UInt8.ofNat c.toNat

/-- `r_data`. -/
def rData : List RegData :=
  [⟨ascii "NO", .any, 0x00⟩,
    ⟨ascii "eax", .rd, 0x00⟩,
    ⟨ascii "ecx", .rd, 0x01⟩,
    ⟨ascii "edx", .rd, 0x02⟩,
    ⟨ascii "ebx", .rd, 0x03⟩,
    ⟨ascii "esp", .rd, 0x04⟩,
    ⟨ascii "ebp", .rd, 0x05⟩,
    ⟨ascii "esi", .rd, 0x06⟩,
    ⟨ascii "edi", .rd, 0x07⟩]

/-- `R_SP` and `R_BP`, the indexes of esp and ebp in `r_data`. -/
def rSp : Nat := 5
def rBp : Nat := 6

/-- The encoding of a register. -/
def regEncoding (r : Nat) : Nat := (rData.map RegData.encoding).getD r 0

/-- The instruction identifiers, in the order of `I_DEF`. -/
inductive InstrId where
  | push | pop | movRid | movRrd | movRmd | movMrd | movRrmd | movRmrd | cmpRid | cmpRrd | cmpRmd | cmpMrd
  | cmpRrmd | cmpRmrd | ret | int | call | jmp | je | jne | jg | jge | jl | jle | jc | jnc | addRid | addRrd
  | addRmd | addMrd | addRrmd | addRmrd | subRid | subRrd | subRmd | subMrd | subRrmd | subRmrd | mulRd
  | divRd | notRd | andRid | andRrd | andRmd | andMrd | andRrmd | andRmrd | orRid | orRrd | orRmd | orMrd
  | orRrmd | orRmrd
  deriving DecidableEq

/-- An entry of `i_data`. -/
structure IData where
  mnemonic : CStr
  opcode : Nat
  nops : Nat
  opType : Fin 2 → OType
  opValue : Fin 2 → Nat

/-- `i_data`. -/
def iData : InstrId → IData
  | .push => ⟨ascii "push", 0x50, 1, ![.rd, .any], ![0, 0]⟩
  | .pop => ⟨ascii "pop", 0x58, 1, ![.rd, .any], ![0, 0]⟩
  | .movRid => ⟨ascii "mov", 0xB8, 2, ![.rd, .ix], ![0, 0]⟩
  | .movRrd => ⟨ascii "mov", 0x89, 2, ![.rd, .rd], ![0, 0]⟩
  | .movRmd => ⟨ascii "mov", 0x8B, 2, ![.rd, .md], ![0, 0]⟩
  | .movMrd => ⟨ascii "mov", 0x89, 2, ![.md, .rd], ![0, 0]⟩
  | .movRrmd => ⟨ascii "mov", 0x8B, 2, ![.rd, .rmd], ![0, 0]⟩
  | .movRmrd => ⟨ascii "mov", 0x89, 2, ![.rmd, .rd], ![0, 0]⟩
  | .cmpRid => ⟨ascii "cmp", 0x81, 2, ![.rd, .ix], ![0, 0]⟩
  | .cmpRrd => ⟨ascii "cmp", 0x39, 2, ![.rd, .rd], ![0, 0]⟩
  | .cmpRmd => ⟨ascii "cmp", 0x3B, 2, ![.rd, .md], ![0, 0]⟩
  | .cmpMrd => ⟨ascii "cmp", 0x39, 2, ![.md, .rd], ![0, 0]⟩
  | .cmpRrmd => ⟨ascii "cmp", 0x3B, 2, ![.rd, .rmd], ![0, 0]⟩
  | .cmpRmrd => ⟨ascii "cmp", 0x39, 2, ![.rmd, .rd], ![0, 0]⟩
  | .ret => ⟨ascii "ret", 0xC3, 0, ![.any, .any], ![0, 0]⟩
  | .int => ⟨ascii "int", 0xCD, 1, ![.ix, .any], ![0, 0]⟩
  | .call => ⟨ascii "call", 0xE8, 1, ![.ix, .any], ![0, 0]⟩
  | .jmp => ⟨ascii "jmp", 0xE9, 1, ![.ix, .any], ![0, 0]⟩
  | .je => ⟨ascii "je", 0x74, 1, ![.ix, .any], ![0, 0]⟩
  | .jne => ⟨ascii "jne", 0x75, 1, ![.ix, .any], ![0, 0]⟩
  | .jg => ⟨ascii "jg", 0x7F, 1, ![.ix, .any], ![0, 0]⟩
  | .jge => ⟨ascii "jge", 0x7D, 1, ![.ix, .any], ![0, 0]⟩
  | .jl => ⟨ascii "jl", 0x7C, 1, ![.ix, .any], ![0, 0]⟩
  | .jle => ⟨ascii "jle", 0x7E, 1, ![.ix, .any], ![0, 0]⟩
  | .jc => ⟨ascii "jc", 0x72, 1, ![.ix, .any], ![0, 0]⟩
  | .jnc => ⟨ascii "jnc", 0x73, 1, ![.ix, .any], ![0, 0]⟩
  | .addRid => ⟨ascii "add", 0x81, 2, ![.rd, .ix], ![0, 0]⟩
  | .addRrd => ⟨ascii "add", 0x01, 2, ![.rd, .rd], ![0, 0]⟩
  | .addRmd => ⟨ascii "add", 0x03, 2, ![.rd, .md], ![0, 0]⟩
  | .addMrd => ⟨ascii "add", 0x01, 2, ![.md, .rd], ![0, 0]⟩
  | .addRrmd => ⟨ascii "add", 0x03, 2, ![.rd, .rmd], ![0, 0]⟩
  | .addRmrd => ⟨ascii "add", 0x01, 2, ![.rmd, .rd], ![0, 0]⟩
  | .subRid => ⟨ascii "sub", 0x81, 2, ![.rd, .ix], ![0, 0]⟩
  | .subRrd => ⟨ascii "sub", 0x29, 2, ![.rd, .rd], ![0, 0]⟩
  | .subRmd => ⟨ascii "sub", 0x2B, 2, ![.rd, .md], ![0, 0]⟩
  | .subMrd => ⟨ascii "sub", 0x29, 2, ![.md, .rd], ![0, 0]⟩
  | .subRrmd => ⟨ascii "sub", 0x2B, 2, ![.rd, .rmd], ![0, 0]⟩
  | .subRmrd => ⟨ascii "sub", 0x29, 2, ![.rmd, .rd], ![0, 0]⟩
  | .mulRd => ⟨ascii "mul", 0xF7, 2, ![.rd, .any], ![0, 0]⟩
  | .divRd => ⟨ascii "div", 0xF7, 2, ![.rd, .any], ![0, 0]⟩
  | .notRd => ⟨ascii "not", 0xF7, 2, ![.rd, .any], ![0, 0]⟩
  | .andRid => ⟨ascii "and", 0x81, 2, ![.rd, .ix], ![0, 0]⟩
  | .andRrd => ⟨ascii "and", 0x21, 2, ![.rd, .rd], ![0, 0]⟩
  | .andRmd => ⟨ascii "and", 0x23, 2, ![.rd, .md], ![0, 0]⟩
  | .andMrd => ⟨ascii "and", 0x21, 2, ![.md, .rd], ![0, 0]⟩
  | .andRrmd => ⟨ascii "and", 0x23, 2, ![.rd, .rmd], ![0, 0]⟩
  | .andRmrd => ⟨ascii "and", 0x21, 2, ![.rmd, .rd], ![0, 0]⟩
  | .orRid => ⟨ascii "or", 0x81, 2, ![.rd, .ix], ![0, 0]⟩
  | .orRrd => ⟨ascii "or", 0x09, 2, ![.rd, .rd], ![0, 0]⟩
  | .orRmd => ⟨ascii "or", 0x0B, 2, ![.rd, .md], ![0, 0]⟩
  | .orMrd => ⟨ascii "or", 0x09, 2, ![.md, .rd], ![0, 0]⟩
  | .orRrmd => ⟨ascii "or", 0x0B, 2, ![.rd, .rmd], ![0, 0]⟩
  | .orRmrd => ⟨ascii "or", 0x09, 2, ![.rmd, .rd], ![0, 0]⟩

/-! ## Encoding -/

/-- A value stored in a byte. -/
def byte (v : Nat) : UInt8 := UInt8.ofNat v

open Ia32 (le32) in
/-- The bytes that `encode_instruction` writes at `offset`. -/
def encodeBytes (cgOrigin offset : Nat) (id : InstrId) (op0 op1 : Nat) : List UInt8 :=
  let opcode := (iData id).opcode
  match id with
  | .ret => [byte opcode]
  | .push | .pop => [byte (opcode + regEncoding op0)]
  | .int => [byte opcode, byte op0]
  | .jg | .jge | .jl | .jle | .jc | .jnc | .je | .jne =>
    [byte opcode, byte (sub32 (sub32 op0 cgOrigin) (offset + 1 + 1))]
  | .call | .jmp => byte opcode :: le32 (sub32 (sub32 op0 cgOrigin) (offset + 5))
  | .orRid => byte opcode :: byte (0xC0 ||| (0x01 <<< 3) ||| regEncoding op0) :: le32 op1
  | .andRid => byte opcode :: byte (0xC0 ||| (0x04 <<< 3) ||| regEncoding op0) :: le32 op1
  | .notRd => [byte opcode, byte (0xC0 ||| (0x02 <<< 3) ||| regEncoding op0)]
  | .mulRd => [byte opcode, byte (0xC0 ||| (0x04 <<< 3) ||| regEncoding op0)]
  | .divRd => [byte opcode, byte (0xC0 ||| (0x06 <<< 3) ||| regEncoding op0)]
  | .subRid => byte opcode :: byte (0xC0 ||| (0x05 <<< 3) ||| regEncoding op0) :: le32 op1
  | .addRid => byte opcode :: byte (0xC0 ||| regEncoding op0) :: le32 op1
  | .cmpRid => byte opcode :: byte (0xC0 ||| (0x07 <<< 3) ||| regEncoding op0) :: le32 op1
  | .movRid => byte (opcode + regEncoding op0) :: le32 op1
  | .movRmd => byte opcode :: byte (0x05 ||| (regEncoding op0 <<< 3)) :: le32 op1
  | .cmpMrd => byte opcode :: byte (0x05 ||| (regEncoding op1 <<< 3)) :: le32 op1
  | .cmpRmrd => [byte opcode, byte ((regEncoding op1 <<< 3) ||| regEncoding op0)]
  | .orRrd | .andRrd | .subRrd | .addRrd | .cmpRrd | .movRrd =>
    [byte opcode, byte (0xC0 ||| (regEncoding op1 <<< 3) ||| regEncoding op0)]
  | .orRmd | .andRmd | .subRmd | .addRmd | .cmpRmd => byte opcode :: byte (0x05 ||| (regEncoding op0 <<< 3)) :: le32 op1
  | .orMrd | .andMrd | .subMrd | .addMrd | .movMrd => byte opcode :: byte (0x05 ||| (regEncoding op1 <<< 3)) :: le32 op1
  | .orRrmd | .andRrmd | .subRrmd | .addRrmd | .cmpRrmd | .movRrmd =>
    [byte opcode, byte ((regEncoding op0 <<< 3) ||| regEncoding op1)]
  | .orRmrd | .andRmrd | .subRmrd | .addRmrd | .movRmrd => [byte opcode, byte ((regEncoding op1 <<< 3) ||| regEncoding op0)]

/-- `encode_instruction`: the buffer with the instruction at `offset`, and the offset behind it. -/
def encodeInstruction (cgOrigin : Nat) (buffer : Mem) (offset : Nat) (id : InstrId) (op0 op1 : Nat) : Mem × Nat :=
  let bytes := encodeBytes cgOrigin offset id op0 op1
  (buffer.store offset bytes, offset + bytes.length)

end NanoS32
