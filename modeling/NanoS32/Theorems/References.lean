import NanoS32.Lemmas.Reference

/-!
# References of a program

An operand that names a symbol is recorded once in the table of references, and its instruction is encoded again with the address of
the symbol.
-/

namespace NanoS32

/-- An operand of an instruction of the program that names a symbol, with the state before its line. -/
structure SymbolOperand (file : List UInt8) (st : Asm) (mnemonic : CStr) (ops : List CStr) (k : Nat) (name : CStr) : Prop where
  line : ∃ before after, sourceLines file = before ++ (mnemonic :: ops) :: after ∧ asmLines asmInit before = .ok st
  instruction : IsInstruction mnemonic ops
  symbol : ∃ tok, ops[k]? = some tok ∧ symbolOf tok = some name

/-- What an operand needs to be resolved: its reference is kept, its symbol is defined, and the name of the symbol fits the table. -/
structure Resolvable (file : List UInt8) (st : Asm) (name : CStr) (offset : Nat) : Prop where
  keeps : KeepsReference st
  defined : DefinedAt (sourceLines file) name offset
  nonempty : name ≠ []
  fits : name.length ≤ 7

/-- The operand has one entry among the first ones of the table, those that the resolution gets to. -/
structure RecordedOnce (sRef : Nat → SRef) (offset k : Nat) : Prop where
  entry : ∃ r < sMaxRef, (sRef r).offset = offset ∧ (sRef r).operand = k ∧ ∀ i ≤ r, (sRef i).offset ≠ 0
  unique : ∀ r r', (sRef r).offset = offset → (sRef r').offset = offset → r = r'

/-- The instruction of a line is in the output, with this value for one of its operands. -/
def EncodedWith (out : Asm) (st : Asm) (mnemonic : CStr) (ops : List CStr) (k value : Nat) : Prop :=
  ∃ v id, operandLoop ops 0 (operandsInit st.sTable mnemonic ops.length) = .ok v ∧ findInstruction v.ci = some id ∧
    ∀ j < encodeLength id, out.obuff (st.ooffset + j) =
      (encodeBytes out.cgOrigin st.ooffset id (if k = 0 then value else v.ci.opValue ⟨0, Nat.zero_lt_two⟩)
        (if k = 1 then value else v.ci.opValue ⟨1, Nat.one_lt_two⟩)).getD j 0

theorem encodeLength_pos (id : InstrId) : 0 < encodeLength id := by
  unfold encodeLength encodeBytes
  cases id <;> exact Nat.succ_pos _

/-- Two references are not at one offset. -/
theorem AsmInv.unique {st : Asm} (hi : AsmInv st) {offset : Nat} (hne : offset ≠ 0) {r r' : Nat} (hr : (st.sRef r).offset = offset)
    (hr' : (st.sRef r').offset = offset) : r = r' := by
  by_contra hrr
  have hpos := encodeLength_pos (st.sRef r).instrId
  have hpos' := encodeLength_pos (st.sRef r').instrId
  have hapart := hi.apart r r' hrr (by omega) (by omega)
  omega

/-- In a program that is assembled, an operand that names a symbol and can be resolved is recorded once, and is encoded with the
address of its symbol. -/
theorem symbol_operand_resolved {file : List UInt8} {st' : Asm} (hok : asmMain file = .ok st') {st : Asm} {mnemonic : CStr}
    {ops : List CStr} {k : Nat} {name : CStr} (hop : SymbolOperand file st mnemonic ops k name) {offset : Nat}
    (hres : Resolvable file st name offset) :
    (∃ st₂, asmLines asmInit (sourceLines file) = .ok st₂ ∧ RecordedOnce st₂.sRef st.ooffset k) ∧
      EncodedWith st' st mnemonic ops k (wrap32 (offset + st'.cgOrigin)) := by
  obtain ⟨⟨before, after, hlines, hst⟩, hins, tok, hk, hname⟩ := hop
  refine ⟨?_, reference_resolved hok hlines hst hins hk hname hres.nonempty hres.fits hres.defined hres.keeps⟩
  obtain ⟨st₂, hrun, hi, -⟩ := asmMain_eq_ok hok
  refine ⟨st₂, hrun, ?_⟩
  rw [hlines] at hrun
  obtain ⟨v, id, r, -, -, hnas, hr, -⟩ := reference_kept hrun hst hins hk hname hres.nonempty hres.fits hres.keeps
  have hoffset : (st₂.sRef r).offset = st.ooffset := by
    rw [hr]
    rfl
  have hne : (st₂.sRef r).offset ≠ 0 := hoffset ▸ hres.keeps.offset
  refine ⟨⟨r, hi.limit r hne, hoffset, ?_, hi.packed r hne⟩, fun i i' => hi.unique hres.keeps.offset⟩
  rw [hr]
  exact hnas

/-- The address of a value, moved into a register. -/
theorem symbol_operand_resolved_sample : ∃ st' st, asmMain (ascii "ret\nx dd 5\nmov eax x\n") = .ok st' ∧
    EncodedWith st' st (ascii "mov") [ascii "eax", ascii "x"] 1 (wrap32 (1 + st'.cgOrigin)) := by
  have hlines : sourceLines (ascii "ret\nx dd 5\nmov eax x\n") =
      [[ascii "ret"], [ascii "x", ascii "dd", ascii "5"], [ascii "mov", ascii "eax", ascii "x"]] := by
    decide +kernel
  obtain ⟨st', hok, -⟩ := exists_ok_of_any (x := asmMain (ascii "ret\nx dd 5\nmov eax x\n")) (p := fun _ => true)
    (by decide +kernel)
  obtain ⟨st, hst, hp⟩ := exists_ok_of_any (x := asmLines asmInit [[ascii "ret"], [ascii "x", ascii "dd", ascii "5"]])
    (p := fun st => st.ooffset = 5 && (st.sRef 0).offset = 0) (by decide +kernel)
  obtain ⟨st₀, hst₀, hp₀⟩ := exists_ok_of_any (x := asmLines asmInit [[ascii "ret"]]) (p := fun st => st.ooffset = 1)
    (by decide +kernel)
  obtain ⟨hoffset, hempty⟩ := Bool.and_eq_true_iff.1 hp
  have hop : SymbolOperand (ascii "ret\nx dd 5\nmov eax x\n") st (ascii "mov") [ascii "eax", ascii "x"] 1 (ascii "x") := by
    refine ⟨⟨_, [], hlines, hst⟩, ?_, ascii "x", rfl, by decide⟩
    exact ⟨by decide, by decide⟩
  have hdef : DefinedAt (sourceLines (ascii "ret\nx dd 5\nmov eax x\n")) (ascii "x") 1 := by
    refine ⟨[[ascii "ret"]], _, [[ascii "mov", ascii "eax", ascii "x"]], st₀, hlines, hst₀, by decide, of_decide_eq_true hp₀, ?_⟩
    decide
  have hkeep : KeepsReference st := by
    refine ⟨?_, 0, by decide, of_decide_eq_true hempty⟩
    rw [of_decide_eq_true hoffset]
    exact Nat.succ_ne_zero 4
  exact ⟨st', st, hok, (symbol_operand_resolved hok hop ⟨hkeep, hdef, by decide, by decide⟩).2⟩

/-- A call that is the first instruction is not encoded with the address of its symbol, and a symbol that is not defined is not
reported. -/
theorem first_call_unresolved : (∃ st', asmMain (ascii "call f\nf:\nret\n") = .ok st' ∧
      SymbolOperand (ascii "call f\nf:\nret\n") asmInit (ascii "call") [ascii "f"] 0 (ascii "f") ∧
      DefinedAt (sourceLines (ascii "call f\nf:\nret\n")) (ascii "f") 5 ∧
      st'.obuff 1 ≠ (encodeBytes st'.cgOrigin 0 .call (wrap32 (5 + st'.cgOrigin)) 0).getD 1 0) ∧
    ∃ st', asmMain (ascii "ret\ncall f\n") = .ok st' := by
  have hlines : sourceLines (ascii "call f\nf:\nret\n") = [[ascii "call", ascii "f"], [ascii "f:"], [ascii "ret"]] := by
    decide +kernel
  obtain ⟨st, hst, hp⟩ := exists_ok_of_any (x := asmLines asmInit [[ascii "call", ascii "f"]]) (p := fun st => st.ooffset = 5)
    (by decide +kernel)
  refine ⟨?_, ?_⟩
  · obtain ⟨st', hok, hp'⟩ := exists_ok_of_any (x := asmMain (ascii "call f\nf:\nret\n"))
      (p := fun st => st.obuff 1 ≠ (encodeBytes st.cgOrigin 0 .call (wrap32 (5 + st.cgOrigin)) 0).getD 1 0) (by decide +kernel)
    refine ⟨st', hok, ⟨⟨[], _, hlines, rfl⟩, ⟨by decide, by decide⟩, ascii "f", rfl, by decide⟩, ?_, of_decide_eq_true hp'⟩
    refine ⟨[[ascii "call", ascii "f"]], [ascii "f:"], [[ascii "ret"]], st, hlines, hst, by decide, of_decide_eq_true hp, ?_⟩
    decide
  · obtain ⟨st', hok, -⟩ := exists_ok_of_any (x := asmMain (ascii "ret\ncall f\n")) (p := fun _ => true) (by decide +kernel)
    exact ⟨st', hok⟩

end NanoS32
