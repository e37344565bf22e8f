import Mathlib.Data.Fin.Basic
import Mathlib.Data.List.Basic
import Mathlib.Tactic.IntervalCases

/-!
# Decoding IA-32 instructions

The integer instructions of 32-bit code with 32-bit operands: the ModRM byte with its SIB byte and displacement, immediates, and
the opcodes of data movement, arithmetic, stack and software interrupts. Numbers of 32 bits are natural numbers below `2 ^ 32`.
-/

namespace Ia32

/-- A general register, by its number: eax, ecx, edx, ebx, esp, ebp, esi, edi. -/
abbrev Reg : Type := Fin 8

/-- An effective address: a base, an index with the logarithm of its scale, and a displacement. -/
structure Address where
  base : Option Reg
  index : Option (Reg × Nat)
  disp : Nat
  deriving DecidableEq

/-- An operand. -/
inductive Operand where
  | reg (r : Reg)
  | mem (a : Address)
  | imm (v : Nat)
  deriving DecidableEq

/-- An operation. -/
inductive Op where
  | add | or | adc | sbb | and | sub | xor | cmp
  | mov | push | pop | ret | int
  | not | neg | mul | imul | div | idiv
  deriving DecidableEq

/-- An instruction: its operation, and its operands with the destination first. -/
structure Instr where
  op : Op
  operands : List Operand
  deriving DecidableEq

/-! ## Numbers -/

/-- The bytes of a 32-bit number, the lowest first. -/
def le32 (v : Nat) : List UInt8 :=
  [UInt8.ofNat v, UInt8.ofNat (v / 2 ^ 8), UInt8.ofNat (v / 2 ^ 16), UInt8.ofNat (v / 2 ^ 24)]

/-- Read a 32-bit number. -/
def read32 : List UInt8 → Option (Nat × List UInt8)
  | a :: b :: c :: d :: rest => some (a.toNat + 2 ^ 8 * b.toNat + 2 ^ 16 * c.toNat + 2 ^ 24 * d.toNat, rest)
  | _ => none

/-- Read a byte. -/
def read8 : List UInt8 → Option (Nat × List UInt8)
  | a :: rest => some (a.toNat, rest)
  | [] => none

/-- The sign extension of a byte to 32 bits. -/
def signExtend (v : Nat) : Nat := if v < 128 then v else v + (2 ^ 32 - 2 ^ 8)

theorem read32_le32 {v : Nat} (h : v < 2 ^ 32) (rest : List UInt8) : read32 (le32 v ++ rest) = some (v, rest) := by
  simp only [le32, List.cons_append, List.nil_append, read32, UInt8.toNat_ofNat', Option.some.injEq, Prod.mk.injEq, and_true]
  omega

/-! ## The ModRM byte -/

/-- The register with a number, which counts modulo 8. -/
def regOf (n : Nat) : Reg := ⟨n % 8, Nat.mod_lt _ (by decide)⟩

/-- The displacement of an address, by the mod field and the number of the base. -/
def readDisp (mode base : Nat) (bytes : List UInt8) : Option (Nat × List UInt8) :=
  if mode = 0 then
    if base = 5 then read32 bytes else some (0, bytes)
  else if mode = 1 then (read8 bytes).map fun p => (signExtend p.1, p.2)
  else read32 bytes

/-- The base of an address: with mod 0 and number 5 there is none. -/
def baseOf (mode base : Nat) : Option Reg := if mode = 0 ∧ base = 5 then none else some (regOf base)

/-- Decode a ModRM byte and what follows it: the reg field, and the operand that the other fields name. -/
def decodeModRm : List UInt8 → Option (Nat × Operand × List UInt8)
  | [] => none
  | b :: bytes =>
    let mode := b.toNat / 64
    let field := b.toNat / 8 % 8
    let rm := b.toNat % 8
    if mode = 3 then some (field, .reg (regOf rm), bytes)
    else if rm = 4 then
      match bytes with
      | [] => none
      | s :: bytes =>
        let index := s.toNat / 8 % 8
        (readDisp mode (s.toNat % 8) bytes).map fun p =>
          (field, .mem {
            base := baseOf mode (s.toNat % 8)
            index := if index = 4 then none else some (regOf index, s.toNat / 64)
            disp := p.1 }, p.2)
    else (readDisp mode rm bytes).map fun p => (field, .mem { base := baseOf mode rm, index := none, disp := p.1 }, p.2)

/-- A ModRM byte. -/
def modRm (mode field rm : Nat) : UInt8 := UInt8.ofNat (mode * 64 + field * 8 + rm)

theorem modRm_toNat {mode field rm : Nat} (hm : mode < 4) (hf : field < 8) (hr : rm < 8) :
    (modRm mode field rm).toNat = mode * 64 + field * 8 + rm := by
  rw [modRm, UInt8.toNat_ofNat']
  omega

/-- A register operand. -/
theorem decodeModRm_reg {field rm : Nat} (hf : field < 8) (hr : rm < 8) (rest : List UInt8) :
    decodeModRm (modRm 3 field rm :: rest) = some (field, .reg (regOf rm), rest) := by
  have h := modRm_toNat (show 3 < 4 by decide) hf hr
  simp only [decodeModRm, h]
  have h1 : (3 * 64 + field * 8 + rm) / 64 = 3 := by omega
  have h2 : (3 * 64 + field * 8 + rm) / 8 % 8 = field := by omega
  have h3 : (3 * 64 + field * 8 + rm) % 8 = rm := by omega
  rw [h1, h2, h3, if_pos rfl]

/-- The fields of a ModRM byte with mod 0. -/
theorem modRm_zero_fields {field rm : Nat} (hf : field < 8) (hr : rm < 8) :
    (modRm 0 field rm).toNat / 64 = 0 ∧ (modRm 0 field rm).toNat / 8 % 8 = field ∧ (modRm 0 field rm).toNat % 8 = rm := by
  rw [modRm_toNat (by decide) hf hr]
  omega

/-- An address that is a displacement only. -/
theorem decodeModRm_disp {field v : Nat} (hf : field < 8) (hv : v < 2 ^ 32) (rest : List UInt8) :
    decodeModRm (modRm 0 field 5 :: (le32 v ++ rest)) = some (field, .mem { base := none, index := none, disp := v }, rest) := by
  obtain ⟨h1, h2, h3⟩ := modRm_zero_fields hf (show 5 < 8 by decide)
  simp only [decodeModRm, h1, h2, h3]
  rw [if_neg (by decide), if_neg (by decide), readDisp, if_pos rfl, if_pos rfl, read32_le32 hv]
  rfl

/-- An address that is a register. -/
theorem decodeModRm_base {field rm : Nat} (hf : field < 8) (hr : rm < 8) (h4 : rm ≠ 4) (h5 : rm ≠ 5) (rest : List UInt8) :
    decodeModRm (modRm 0 field rm :: rest) =
      some (field, .mem { base := some (regOf rm), index := none, disp := 0 }, rest) := by
  obtain ⟨h1, h2, h3⟩ := modRm_zero_fields hf hr
  simp only [decodeModRm, h1, h2, h3]
  rw [if_neg (by decide), if_neg h4, readDisp, if_pos rfl, if_neg h5, baseOf, if_neg fun h => h5 h.2]
  rfl

/-- The numbers 4 and 5 in the rm field ask for more bytes. -/
theorem decodeModRm_short {field rm : Nat} (hf : field < 8) (hr : rm = 4 ∨ rm = 5) :
    decodeModRm [modRm 0 field rm] = none := by
  obtain ⟨h1, h2, h3⟩ := modRm_zero_fields hf (show rm < 8 by omega)
  simp only [decodeModRm, h1, h2, h3]
  rcases hr with rfl | rfl <;> rfl

/-! ## Instructions -/

/-- The arithmetic operations, in the order of their opcodes and of the reg field of opcode 0x81. -/
def arithmetic : List Op := [.add, .or, .adc, .sbb, .and, .sub, .xor, .cmp]

/-- The one-operand operations of opcode 0xF7 with one operand, by the reg field. -/
def unary (field : Nat) : Option Op :=
  match field with
  | 2 => some .not
  | 3 => some .neg
  | 4 => some .mul
  | 5 => some .imul
  | 6 => some .div
  | 7 => some .idiv
  | _ => none

/-- Decode one instruction: what it is, and the bytes behind it. -/
def decode : List UInt8 → Option (Instr × List UInt8)
  | [] => none
  | b :: bytes =>
    let opcode := b.toNat
    if opcode < 0x40 ∧ opcode % 8 = 1 then
      (decodeModRm bytes).map fun (field, rm, rest) => (⟨arithmetic.getD (opcode / 8) .add, [rm, .reg (regOf field)]⟩, rest)
    else if opcode < 0x40 ∧ opcode % 8 = 3 then
      (decodeModRm bytes).map fun (field, rm, rest) => (⟨arithmetic.getD (opcode / 8) .add, [.reg (regOf field), rm]⟩, rest)
    else if opcode / 8 = 0x50 / 8 then some (⟨.push, [.reg (regOf opcode)]⟩, bytes)
    else if opcode / 8 = 0x58 / 8 then some (⟨.pop, [.reg (regOf opcode)]⟩, bytes)
    else if opcode = 0x81 then do
      let (field, rm, rest) ← decodeModRm bytes
      let (v, rest) ← read32 rest
      some (⟨arithmetic.getD field .add, [rm, .imm v]⟩, rest)
    else if opcode = 0x89 then
      (decodeModRm bytes).map fun (field, rm, rest) => (⟨.mov, [rm, .reg (regOf field)]⟩, rest)
    else if opcode = 0x8B then
      (decodeModRm bytes).map fun (field, rm, rest) => (⟨.mov, [.reg (regOf field), rm]⟩, rest)
    else if opcode / 8 = 0xB8 / 8 then
      (read32 bytes).map fun (v, rest) => (⟨.mov, [.reg (regOf opcode), .imm v]⟩, rest)
    else if opcode = 0xC3 then some (⟨.ret, []⟩, bytes)
    else if opcode = 0xCD then (read8 bytes).map fun (v, rest) => (⟨.int, [.imm v]⟩, rest)
    else if opcode = 0xF7 then do
      let (field, rm, rest) ← decodeModRm bytes
      let op ← unary field
      some (⟨op, [rm]⟩, rest)
    else none

/-! ## The opcodes -/

/-- The opcodes of the form `op r/m32, r32`. -/
def storeOpcodes : List (Nat × Op) :=
  [(0x01, .add), (0x09, .or), (0x11, .adc), (0x19, .sbb), (0x21, .and), (0x29, .sub), (0x31, .xor), (0x39, .cmp), (0x89, .mov)]

/-- The opcodes of the form `op r32, r/m32`. -/
def loadOpcodes : List (Nat × Op) :=
  [(0x03, .add), (0x0B, .or), (0x13, .adc), (0x1B, .sbb), (0x23, .and), (0x2B, .sub), (0x33, .xor), (0x3B, .cmp), (0x8B, .mov)]

theorem decode_store {opcode : Nat} {op : Op} (h : (opcode, op) ∈ storeOpcodes) (bytes : List UInt8) :
    decode (UInt8.ofNat opcode :: bytes) =
      (decodeModRm bytes).map fun p => (⟨op, [p.2.1, .reg (regOf p.1)]⟩, p.2.2) := by
  simp only [storeOpcodes, List.mem_cons, Prod.mk.injEq, List.not_mem_nil, or_false] at h
  rcases h with ⟨rfl, rfl⟩ | ⟨rfl, rfl⟩ | ⟨rfl, rfl⟩ | ⟨rfl, rfl⟩ | ⟨rfl, rfl⟩ | ⟨rfl, rfl⟩ | ⟨rfl, rfl⟩ | ⟨rfl, rfl⟩ |
    ⟨rfl, rfl⟩ <;> rfl

theorem decode_load {opcode : Nat} {op : Op} (h : (opcode, op) ∈ loadOpcodes) (bytes : List UInt8) :
    decode (UInt8.ofNat opcode :: bytes) =
      (decodeModRm bytes).map fun p => (⟨op, [.reg (regOf p.1), p.2.1]⟩, p.2.2) := by
  simp only [loadOpcodes, List.mem_cons, Prod.mk.injEq, List.not_mem_nil, or_false] at h
  rcases h with ⟨rfl, rfl⟩ | ⟨rfl, rfl⟩ | ⟨rfl, rfl⟩ | ⟨rfl, rfl⟩ | ⟨rfl, rfl⟩ | ⟨rfl, rfl⟩ | ⟨rfl, rfl⟩ | ⟨rfl, rfl⟩ |
    ⟨rfl, rfl⟩ <;> rfl

/-- Opcode 0x81: an operation on a register and an immediate. -/
theorem decode_immediate {field rm v : Nat} (hf : field < 8) (hr : rm < 8) (hv : v < 2 ^ 32) (rest : List UInt8) :
    decode (UInt8.ofNat 0x81 :: modRm 3 field rm :: (le32 v ++ rest)) =
      some (⟨arithmetic.getD field .add, [.reg (regOf rm), .imm v]⟩, rest) := by
  have h : decode (UInt8.ofNat 0x81 :: modRm 3 field rm :: (le32 v ++ rest)) =
      (decodeModRm (modRm 3 field rm :: (le32 v ++ rest))).bind fun p =>
        (read32 p.2.2).bind fun q => some (⟨arithmetic.getD p.1 .add, [p.2.1, .imm q.1]⟩, q.2) := rfl
  rw [h, decodeModRm_reg hf hr, Option.bind_some, read32_le32 hv, Option.bind_some]

/-- Opcode 0xF7: an operation on a register. -/
theorem decode_unary {field rm : Nat} {op : Op} (hf : field < 8) (hr : rm < 8) (hop : unary field = some op)
    (rest : List UInt8) :
    decode (UInt8.ofNat 0xF7 :: modRm 3 field rm :: rest) = some (⟨op, [.reg (regOf rm)]⟩, rest) := by
  have h : decode (UInt8.ofNat 0xF7 :: modRm 3 field rm :: rest) =
      (decodeModRm (modRm 3 field rm :: rest)).bind fun p => (unary p.1).bind fun op => some (⟨op, [p.2.1]⟩, p.2.2) := rfl
  rw [h, decodeModRm_reg hf hr, Option.bind_some, hop, Option.bind_some]

/-- The opcodes that hold a register: push, pop, and mov of an immediate. -/
theorem decode_push {r : Nat} (hr : r < 8) (rest : List UInt8) :
    decode (UInt8.ofNat (0x50 + r) :: rest) = some (⟨.push, [.reg (regOf r)]⟩, rest) := by
  interval_cases r <;> rfl

theorem decode_pop {r : Nat} (hr : r < 8) (rest : List UInt8) :
    decode (UInt8.ofNat (0x58 + r) :: rest) = some (⟨.pop, [.reg (regOf r)]⟩, rest) := by
  interval_cases r <;> rfl

theorem decode_movImmediate {r v : Nat} (hr : r < 8) (hv : v < 2 ^ 32) (rest : List UInt8) :
    decode (UInt8.ofNat (0xB8 + r) :: (le32 v ++ rest)) = some (⟨.mov, [.reg (regOf r), .imm v]⟩, rest) := by
  have h : ∀ bytes, decode (UInt8.ofNat (0xB8 + r) :: bytes) =
      (read32 bytes).map fun p => (⟨.mov, [.reg (regOf r), .imm p.1]⟩, p.2) := by
    intro bytes
    interval_cases r <;> rfl
  rw [h, read32_le32 hv, Option.map_some]

end Ia32
