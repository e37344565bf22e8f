import NanoS32.Lemmas.Mem
import NanoS32.Nas.Instruction

/-!
# The encoding of instructions

What the bytes that `encode_instruction` writes mean: for each form of instruction in `i_data`, the operands for which they decode
to the operation and the operands of the form.
-/

namespace NanoS32

open Ia32

/-- The operation that a mnemonic names. -/
def opOf (mnemonic : CStr) : Option Op :=
  ([(ascii "push", Op.push), (ascii "pop", .pop), (ascii "mov", .mov), (ascii "cmp", .cmp), (ascii "ret", .ret),
    (ascii "int", .int), (ascii "add", .add), (ascii "sub", .sub), (ascii "mul", .mul), (ascii "div", .div),
    (ascii "not", .not), (ascii "and", .and), (ascii "or", .or)].find? fun p => p.1 = mnemonic).map Prod.snd

/-- The register that a name names. -/
def regOfName (name : CStr) : Reg :=
  regOf ([ascii "eax", ascii "ecx", ascii "edx", ascii "ebx", ascii "esp", ascii "ebp", ascii "esi", ascii "edi"].idxOf name)

/-- The register with an index in `r_data`. -/
def regAt (r : Nat) : Reg := regOfName ((rData.map RegData.name).getD r [])

/-- The operand that an operand of a type stands for. -/
def operandOf (type : OType) (v : Nat) : Option Operand :=
  match type with
  | .any => none
  | .rd => some (.reg (regAt v))
  | .rmd => some (.mem { base := some (regAt v), index := none, disp := 0 })
  | .md => some (.mem { base := none, index := none, disp := v })
  | .ix => some (.imm v)

/-- The values an operand of a type can have: an index of a register, or a 32-bit number. -/
def Allowed (type : OType) (v : Nat) : Prop :=
  match type with
  | .any => True
  | .rd | .rmd => 1 ≤ v ∧ v ≤ 8
  | .md | .ix => v < 2 ^ 32

/-- The forms whose operand is encoded relative to the instruction. -/
def relativeForms : List InstrId := [.call, .jmp, .je, .jne, .jg, .jge, .jl, .jle, .jc, .jnc]

/-- The instruction that a form with its operands stands for. -/
def intended (id : InstrId) (op0 op1 : Nat) : Option Instr :=
  (opOf (iData id).mnemonic).map fun op =>
    ⟨op, ((operandOf ((iData id).opType 0) op0).toList ++ (operandOf ((iData id).opType 1) op1).toList)⟩

/-- The bytes that `encode_instruction` writes. -/
def emitted (cgOrigin : Nat) (buffer : Mem) (offset : Nat) (id : InstrId) (op0 op1 : Nat) : List UInt8 :=
  let r := encodeInstruction cgOrigin buffer offset id op0 op1
  (List.range (r.2 - offset)).map fun i => r.1 (offset + i)

/-- The operands of a form for which its bytes mean what it stands for: a store to an address takes its displacement from the
second operand, the encodings of esp and ebp in a memory operand ask for more bytes, and an interrupt number is a byte. -/
def Encodable (id : InstrId) (op0 op1 : Nat) : Prop :=
  ((iData id).opType 0 = .md → op0 = op1) ∧ ((iData id).opType 0 = .rmd → op0 ≠ rSp ∧ op0 ≠ rBp) ∧
    ((iData id).opType 1 = .rmd → op1 ≠ rSp ∧ op1 ≠ rBp) ∧ (id = .int → op0 < 256)

/-- Bytes that decode to the instruction that a form stands for, and to nothing more. -/
def DecodesTo (bytes : List UInt8) (id : InstrId) (op0 op1 : Nat) : Prop :=
  ∃ i, intended id op0 op1 = some i ∧ ∀ rest, decode (bytes ++ rest) = some (i, rest)

theorem emitted_eq (cgOrigin : Nat) (buffer : Mem) (offset : Nat) (id : InstrId) (op0 op1 : Nat) :
    emitted cgOrigin buffer offset id op0 op1 = encodeBytes cgOrigin offset id op0 op1 := by
  rw [emitted, encodeInstruction]
  simp only [Nat.add_sub_cancel_left]
  generalize encodeBytes cgOrigin offset id op0 op1 = bytes
  refine List.ext_getElem (by simp) fun i h1 h2 => ?_
  rw [List.getElem_map, List.getElem_range, Mem.store_of_mem _ (by omega) (by omega), Nat.add_sub_cancel_left,
    List.getD_eq_getElem?_getD, List.getElem?_eq_getElem h2, Option.getD_some]

/-! ## Registers and ModRM bytes -/

theorem regEncoding_lt {r : Nat} (h : 1 ≤ r ∧ r ≤ 8) : regEncoding r < 8 := by
  obtain ⟨h1, h8⟩ := h
  interval_cases r <;> decide

/-- The encodings in `r_data` are the numbers of the registers. -/
theorem regAt_eq {r : Nat} (h : 1 ≤ r ∧ r ≤ 8) : regAt r = regOf (regEncoding r) := by
  obtain ⟨h1, h8⟩ := h
  interval_cases r <;> rfl

theorem regEncoding_special {r : Nat} (h : 1 ≤ r ∧ r ≤ 8) :
    (regEncoding r = 4 ↔ r = rSp) ∧ (regEncoding r = 5 ↔ r = rBp) := by
  obtain ⟨h1, h8⟩ := h
  interval_cases r <;> decide

/-- The bytes that the code puts together with shifts are ModRM bytes. -/
theorem byte_fields {a b : Nat} (ha : a < 8) (hb : b < 8) :
    byte (0xC0 ||| (a <<< 3) ||| b) = modRm 3 a b ∧ byte (0x05 ||| (a <<< 3)) = modRm 0 a 5 ∧
      byte ((a <<< 3) ||| b) = modRm 0 a b := by
  interval_cases a <;> interval_cases b <;> decide

theorem decodesTo_iff {bytes : List UInt8} {id : InstrId} {op0 op1 : Nat} {i : Instr} (hi : intended id op0 op1 = some i) :
    DecodesTo bytes id op0 op1 ↔ ∀ rest, decode (bytes ++ rest) = some (i, rest) := by
  refine ⟨?_, fun h => ⟨i, hi, h⟩⟩
  rintro ⟨j, hj, h⟩
  obtain rfl : i = j := Option.some.inj (hi.symm.trans hj)
  exact h

/-! ## The families of forms -/

section

variable {id : InstrId} {opcode : Nat} {op : Op} {a b : Nat}

/-- Register to register. -/
theorem regReg_decodes (hop : (opcode, op) ∈ storeOpcodes)
    (hi : intended id a b = some ⟨op, [.reg (regAt a), .reg (regAt b)]⟩) (ha : 1 ≤ a ∧ a ≤ 8) (hb : 1 ≤ b ∧ b ≤ 8) :
    DecodesTo [byte opcode, byte (0xC0 ||| (regEncoding b <<< 3) ||| regEncoding a)] id a b := by
  rw [decodesTo_iff hi]
  intro rest
  rw [(byte_fields (regEncoding_lt hb) (regEncoding_lt ha)).1, byte, List.cons_append, List.cons_append, List.nil_append,
    decode_store hop, decodeModRm_reg (regEncoding_lt hb) (regEncoding_lt ha), regAt_eq ha, regAt_eq hb]
  rfl

/-- From the memory at an address to a register. -/
theorem regMem_decodes (hop : (opcode, op) ∈ loadOpcodes)
    (hi : intended id a b = some ⟨op, [.reg (regAt a), .mem { base := none, index := none, disp := b }]⟩)
    (ha : 1 ≤ a ∧ a ≤ 8) (hb : b < 2 ^ 32) :
    DecodesTo (byte opcode :: byte (0x05 ||| (regEncoding a <<< 3)) :: le32 b) id a b := by
  rw [decodesTo_iff hi]
  intro rest
  rw [(byte_fields (regEncoding_lt ha) (show 0 < 8 by decide)).2.1, byte, List.cons_append, List.cons_append,
    decode_load hop, decodeModRm_disp (regEncoding_lt ha) hb, regAt_eq ha]
  rfl

/-- From a register to the memory at an address: the displacement is the index of the register. -/
theorem memReg_decodes (hop : (opcode, op) ∈ storeOpcodes)
    (hi : intended id a b = some ⟨op, [.mem { base := none, index := none, disp := a }, .reg (regAt b)]⟩)
    (hb : 1 ≤ b ∧ b ≤ 8) :
    DecodesTo (byte opcode :: byte (0x05 ||| (regEncoding b <<< 3)) :: le32 b) id a b ↔ a = b := by
  have hdec : ∀ rest, decode ((byte opcode :: byte (0x05 ||| (regEncoding b <<< 3)) :: le32 b) ++ rest) =
      some (⟨op, [.mem { base := none, index := none, disp := b }, .reg (regAt b)]⟩, rest) := by
    intro rest
    rw [(byte_fields (regEncoding_lt hb) (show 0 < 8 by decide)).2.1, byte, List.cons_append, List.cons_append,
      decode_store hop, decodeModRm_disp (regEncoding_lt hb) (by omega), regAt_eq hb]
    rfl
  rw [decodesTo_iff hi]
  simp only [hdec]
  refine ⟨fun h => ?_, fun h => by rw [h]; exact fun _ => rfl⟩
  have h0 := h []
  simp only [Option.some.injEq, Prod.mk.injEq, Instr.mk.injEq, List.cons.injEq, Operand.mem.injEq, Address.mk.injEq, and_true,
    true_and] at h0
  exact h0.symm

/-- From the memory at a register to a register. -/
theorem regBase_decodes (hop : (opcode, op) ∈ loadOpcodes)
    (hi : intended id a b =
      some ⟨op, [.reg (regAt a), .mem { base := some (regAt b), index := none, disp := 0 }]⟩)
    (ha : 1 ≤ a ∧ a ≤ 8) (hb : 1 ≤ b ∧ b ≤ 8) :
    DecodesTo [byte opcode, byte ((regEncoding a <<< 3) ||| regEncoding b)] id a b ↔ b ≠ rSp ∧ b ≠ rBp := by
  obtain ⟨h4, h5⟩ := regEncoding_special hb
  rw [decodesTo_iff hi, (byte_fields (regEncoding_lt ha) (regEncoding_lt hb)).2.2]
  refine ⟨fun h => ?_, fun ⟨hsp, hbp⟩ rest => ?_⟩
  · by_contra hbad
    have hshort : regEncoding b = 4 ∨ regEncoding b = 5 := by
      rw [h4, h5]
      exact Decidable.or_iff_not_not_and_not.2 hbad
    have h0 := h []
    rw [List.append_nil, byte, decode_load hop, decodeModRm_short (regEncoding_lt ha) hshort] at h0
    cases h0
  · rw [byte, List.cons_append, List.cons_append, List.nil_append, decode_load hop,
      decodeModRm_base (regEncoding_lt ha) (regEncoding_lt hb) (fun h => hsp (h4.1 h)) (fun h => hbp (h5.1 h)), regAt_eq ha,
      regAt_eq hb]
    rfl

/-- From a register to the memory at a register. -/
theorem baseReg_decodes (hop : (opcode, op) ∈ storeOpcodes)
    (hi : intended id a b =
      some ⟨op, [.mem { base := some (regAt a), index := none, disp := 0 }, .reg (regAt b)]⟩)
    (ha : 1 ≤ a ∧ a ≤ 8) (hb : 1 ≤ b ∧ b ≤ 8) :
    DecodesTo [byte opcode, byte ((regEncoding b <<< 3) ||| regEncoding a)] id a b ↔ a ≠ rSp ∧ a ≠ rBp := by
  obtain ⟨h4, h5⟩ := regEncoding_special ha
  rw [decodesTo_iff hi, (byte_fields (regEncoding_lt hb) (regEncoding_lt ha)).2.2]
  refine ⟨fun h => ?_, fun ⟨hsp, hbp⟩ rest => ?_⟩
  · by_contra hbad
    have hshort : regEncoding a = 4 ∨ regEncoding a = 5 := by
      rw [h4, h5]
      exact Decidable.or_iff_not_not_and_not.2 hbad
    have h0 := h []
    rw [List.append_nil, byte, decode_store hop, decodeModRm_short (regEncoding_lt hb) hshort] at h0
    cases h0
  · rw [byte, List.cons_append, List.cons_append, List.nil_append, decode_store hop,
      decodeModRm_base (regEncoding_lt hb) (regEncoding_lt ha) (fun h => hsp (h4.1 h)) (fun h => hbp (h5.1 h)), regAt_eq ha,
      regAt_eq hb]
    rfl

/-- An immediate and a register, with opcode 0x81. -/
theorem regImm_decodes (field : Nat) (hf : field < 8) (hop : arithmetic.getD field .add = op)
    (hi : intended id a b = some ⟨op, [.reg (regAt a), .imm b]⟩) (ha : 1 ≤ a ∧ a ≤ 8) (hb : b < 2 ^ 32) :
    DecodesTo (byte 0x81 :: byte (0xC0 ||| (field <<< 3) ||| regEncoding a) :: le32 b) id a b := by
  rw [decodesTo_iff hi]
  intro rest
  rw [(byte_fields hf (regEncoding_lt ha)).1, byte, List.cons_append, List.cons_append,
    decode_immediate hf (regEncoding_lt ha) hb, hop, regAt_eq ha]

/-- A register, with opcode 0xF7. -/
theorem regOnly_decodes (field : Nat) (hf : field < 8) (hop : unary field = some op)
    (hi : intended id a b = some ⟨op, [.reg (regAt a)]⟩) (ha : 1 ≤ a ∧ a ≤ 8) :
    DecodesTo [byte 0xF7, byte (0xC0 ||| (field <<< 3) ||| regEncoding a)] id a b := by
  rw [decodesTo_iff hi]
  intro rest
  rw [(byte_fields hf (regEncoding_lt ha)).1, byte, List.cons_append, List.cons_append, List.nil_append,
    decode_unary hf (regEncoding_lt ha) hop, regAt_eq ha]

/-- The forms whose opcode holds the register. -/
theorem push_decodes (ha : 1 ≤ a ∧ a ≤ 8) : DecodesTo [byte (0x50 + regEncoding a)] .push a b := by
  refine ⟨⟨.push, [.reg (regAt a)]⟩, rfl, fun rest => ?_⟩
  rw [regAt_eq ha]
  exact decode_push (regEncoding_lt ha) rest

theorem pop_decodes (ha : 1 ≤ a ∧ a ≤ 8) : DecodesTo [byte (0x58 + regEncoding a)] .pop a b := by
  refine ⟨⟨.pop, [.reg (regAt a)]⟩, rfl, fun rest => ?_⟩
  rw [regAt_eq ha]
  exact decode_pop (regEncoding_lt ha) rest

theorem movImm_decodes (ha : 1 ≤ a ∧ a ≤ 8) (hb : b < 2 ^ 32) :
    DecodesTo (byte (0xB8 + regEncoding a) :: le32 b) .movRid a b := by
  refine ⟨⟨.mov, [.reg (regAt a), .imm b]⟩, rfl, fun rest => ?_⟩
  rw [regAt_eq ha]
  exact decode_movImmediate (regEncoding_lt ha) hb rest

/-- A software interrupt. -/
theorem int_decodes {cgOrigin offset : Nat} (ha : a < 2 ^ 32) :
    DecodesTo (encodeBytes cgOrigin offset .int a b) .int a b ↔ a < 256 := by
  have hi : intended .int a b = some ⟨.int, [.imm a]⟩ := rfl
  have hdec : ∀ rest, decode ([byte 0xCD, byte a] ++ rest) = some (⟨.int, [.imm (a % 256)]⟩, rest) := by
    intro rest
    have h : ∀ c, decode (byte 0xCD :: c :: rest) = some (⟨.int, [.imm c.toNat]⟩, rest) := fun _ => rfl
    rw [List.cons_append, List.cons_append, List.nil_append, h, byte, UInt8.toNat_ofNat']
  have hbytes : encodeBytes cgOrigin offset .int a b = [byte 0xCD, byte a] := rfl
  rw [decodesTo_iff hi, hbytes]
  simp only [hdec]
  refine ⟨fun h => ?_, fun h => by rw [Nat.mod_eq_of_lt h]; exact fun _ => rfl⟩
  have h0 := h []
  simp only [Option.some.injEq, Prod.mk.injEq, Instr.mk.injEq, List.cons.injEq, Operand.imm.injEq, and_true, true_and] at h0
  omega

end

/-- The bytes of an instruction, whatever the operands and wherever it stands, decode to the operation of its form on exactly its
operands, and to nothing more, exactly when the operands are encodable. -/
theorem encoding_decodes (cgOrigin : Nat) (buffer : Mem) (offset : Nat) (id : InstrId) (op0 op1 : Nat)
    (hid : id ∉ relativeForms) (h0 : Allowed ((iData id).opType 0) op0) (h1 : Allowed ((iData id).opType 1) op1) :
    DecodesTo (emitted cgOrigin buffer offset id op0 op1) id op0 op1 ↔ Encodable id op0 op1 := by
  rw [emitted_eq]
  -- where every operand is encodable
  have hall : DecodesTo (encodeBytes cgOrigin offset id op0 op1) id op0 op1 → Encodable id op0 op1 →
      (DecodesTo (encodeBytes cgOrigin offset id op0 op1) id op0 op1 ↔ Encodable id op0 op1) :=
    fun h h' => ⟨fun _ => h', fun _ => h⟩
  have hnone : (iData id).opType 0 ≠ .md → (iData id).opType 0 ≠ .rmd → (iData id).opType 1 ≠ .rmd → id ≠ .int →
      Encodable id op0 op1 :=
    fun hmd hrmd hrmd' hint => ⟨fun h => absurd h hmd, fun h => absurd h hrmd, fun h => absurd h hrmd', fun h => absurd h hint⟩
  cases id
  case call | jmp | je | jne | jg | jge | jl | jle | jc | jnc => exact absurd (by decide) hid
  case movRrd | cmpRrd | addRrd | subRrd | andRrd | orRrd =>
    exact hall (regReg_decodes (by decide) rfl h0 h1) (hnone nofun nofun nofun nofun)
  case movRmd | cmpRmd | addRmd | subRmd | andRmd | orRmd =>
    exact hall (regMem_decodes (by decide) rfl h0 h1) (hnone nofun nofun nofun nofun)
  case movMrd | cmpMrd | addMrd | subMrd | andMrd | orMrd =>
    refine (memReg_decodes (by decide) rfl h1).trans ⟨fun h => ⟨fun _ => h, nofun, nofun, nofun⟩, fun h => h.1 rfl⟩
  case movRrmd | cmpRrmd | addRrmd | subRrmd | andRrmd | orRrmd =>
    refine (regBase_decodes (by decide) rfl h0 h1).trans ⟨fun h => ⟨nofun, nofun, fun _ => h, nofun⟩, fun h => h.2.2.1 rfl⟩
  case movRmrd | cmpRmrd | addRmrd | subRmrd | andRmrd | orRmrd =>
    refine (baseReg_decodes (by decide) rfl h0 h1).trans ⟨fun h => ⟨nofun, fun _ => h, nofun, nofun⟩, fun h => h.2.1 rfl⟩
  case addRid => exact hall (regImm_decodes 0 (by decide) rfl rfl h0 h1) (hnone nofun nofun nofun nofun)
  case orRid => exact hall (regImm_decodes 1 (by decide) rfl rfl h0 h1) (hnone nofun nofun nofun nofun)
  case andRid => exact hall (regImm_decodes 4 (by decide) rfl rfl h0 h1) (hnone nofun nofun nofun nofun)
  case subRid => exact hall (regImm_decodes 5 (by decide) rfl rfl h0 h1) (hnone nofun nofun nofun nofun)
  case cmpRid => exact hall (regImm_decodes 7 (by decide) rfl rfl h0 h1) (hnone nofun nofun nofun nofun)
  case notRd => exact hall (regOnly_decodes 2 (by decide) rfl rfl h0) (hnone nofun nofun nofun nofun)
  case mulRd => exact hall (regOnly_decodes 4 (by decide) rfl rfl h0) (hnone nofun nofun nofun nofun)
  case divRd => exact hall (regOnly_decodes 6 (by decide) rfl rfl h0) (hnone nofun nofun nofun nofun)
  case int =>
    exact (int_decodes h0).trans ⟨fun h => ⟨nofun, nofun, nofun, fun _ => h⟩, fun h => h.2.2.2 rfl⟩
  case push => exact hall (push_decodes h0) (hnone nofun nofun nofun nofun)
  case pop => exact hall (pop_decodes h0) (hnone nofun nofun nofun nofun)
  case movRid => exact hall (movImm_decodes h0 h1) (hnone nofun nofun nofun nofun)
  case ret => exact hall ⟨_, rfl, fun _ => rfl⟩ (hnone nofun nofun nofun nofun)

theorem encoding_decodes_load :
    DecodesTo (emitted 0x20000 (fun _ => 0) 0 .movRmd 1 0x20010) .movRmd 1 0x20010 ↔ Encodable .movRmd 1 0x20010 :=
  encoding_decodes 0x20000 (fun _ => 0) 0 .movRmd 1 0x20010 (by decide) ⟨by decide, by decide⟩
    (show 0x20010 < 2 ^ 32 by decide)

/-- `mov [0x20010], eax` stores to address 1. -/
theorem encoding_store_address :
    intended .movMrd 0x20010 1 =
        some ⟨.mov, [.mem { base := none, index := none, disp := 0x20010 }, .reg 0]⟩ ∧
      decode (emitted 0x20000 (fun _ => 0) 0 .movMrd 0x20010 1) =
        some (⟨.mov, [.mem { base := none, index := none, disp := 1 }, .reg 0]⟩, []) ∧
      ¬DecodesTo (emitted 0x20000 (fun _ => 0) 0 .movMrd 0x20010 1) .movMrd 0x20010 1 := by
  have hdec : decode (emitted 0x20000 (fun _ => 0) 0 .movMrd 0x20010 1) =
      some (⟨.mov, [.mem { base := none, index := none, disp := 1 }, .reg 0]⟩, []) := by decide
  refine ⟨by decide, hdec, ?_⟩
  rintro ⟨i, hi, h⟩
  have h0 := h []
  rw [List.append_nil, hdec] at h0
  cases h0
  exact absurd hi (by decide)

end NanoS32
