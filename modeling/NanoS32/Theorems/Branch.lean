import NanoS32.Lemmas.Reference

/-!
# Branches

The displacement of a branch whose reference is resolved is the distance from the next instruction to the label. For a short branch
it is the low byte of this distance, which is the distance just when it is in the range of a byte with a sign.
-/

namespace NanoS32

/-- The branches with a displacement of four bytes, and those with a displacement of one. -/
def nearBranches : List InstrId := [.call, .jmp]
def shortBranches : List InstrId := [.je, .jne, .jg, .jge, .jl, .jle, .jc, .jnc]

/-- The displacement of a branch at an offset of the output, extended with its sign to 32 bits. -/
def displacement (out : Mem) (offset : Nat) (id : InstrId) : Nat :=
  if id ∈ shortBranches then Ia32.signExtend (out (offset + 1)).toNat
  else (out (offset + 1)).toNat + 2 ^ 8 * (out (offset + 2)).toNat + 2 ^ 16 * (out (offset + 3)).toNat +
    2 ^ 24 * (out (offset + 4)).toNat

/-- The branch at this offset goes to the target: both are offsets of the output, which is loaded at the origin. -/
def BranchReaches (st : Asm) (offset : Nat) (id : InstrId) (target : Nat) : Prop :=
  (st.cgOrigin + (offset + encodeLength id) + displacement st.obuff offset id) % 2 ^ 32 = (st.cgOrigin + target) % 2 ^ 32

instance (st : Asm) (offset : Nat) (id : InstrId) (target : Nat) : Decidable (BranchReaches st offset id target) :=
  inferInstanceAs (Decidable (_ = _))

/-- A short branch at this offset can reach the target. -/
def InReach (id : InstrId) (offset target : Nat) : Prop :=
  id ∈ shortBranches → -128 ≤ (target : Int) - (offset + 2) ∧ (target : Int) - (offset + 2) ≤ 127

/-- What the reference of a branch needs to be resolved: it is kept, the operand is taken for a symbol, and its name fits the
table. -/
structure BranchResolved (st : Asm) (name : CStr) : Prop where
  keeps : KeepsReference st
  symbol : symbolOf name = some name
  nonempty : name ≠ []
  fits : name.length ≤ 7

/-! ## The distance -/

/-- The displacement that is encoded for an address. -/
theorem sub32_origin {cgOrigin target next : Nat} (horigin : cgOrigin < 2 ^ 32) (ht : target ≤ 1024) (hn : next ≤ 2048) :
    sub32 (sub32 (wrap32 (target + cgOrigin)) cgOrigin) next = (target + 2 ^ 32 - next) % 2 ^ 32 := by
  unfold sub32 wrap32
  omega

theorem short_reach {cgOrigin target next : Nat} (ht : target ≤ 1024) (hn : next ≤ 2048) :
    (cgOrigin + next + Ia32.signExtend (UInt8.ofNat ((target + 2 ^ 32 - next) % 2 ^ 32)).toNat) % 2 ^ 32 =
      (cgOrigin + target) % 2 ^ 32 ↔ -128 ≤ (target : Int) - next ∧ (target : Int) - next ≤ 127 := by
  unfold Ia32.signExtend
  rw [UInt8.toNat_ofNat']
  split_ifs <;> omega

theorem near_reach {cgOrigin target next : Nat} (ht : target ≤ 1024) (hn : next ≤ 2048) :
    (cgOrigin + next + (target + 2 ^ 32 - next) % 2 ^ 32) % 2 ^ 32 = (cgOrigin + target) % 2 ^ 32 := by
  omega

/-! ## The instruction -/

/-- The mnemonic of a branch is the mnemonic of no other instruction. -/
theorem branch_mnemonic {id : InstrId} (hid : id ∈ nearBranches ++ shortBranches) {ci : IData}
    (hname : ci.mnemonic = strncpy (iData id).mnemonic 6) {id' : InstrId} (hfind : findInstruction ci = some id') : id' = id := by
  have hall : ∀ id ∈ nearBranches ++ shortBranches, ∀ id' ∈ instrIds,
      strncpy (iData id).mnemonic 6 = (iData id').mnemonic → id' = id := by
    decide +kernel
  exact hall id hid id' (List.mem_of_find?_eq_some hfind) (hname.symm.trans (findInstruction_ops hfind).2.1)

/-- A branch line is an instruction. -/
theorem branch_isInstruction {id : InstrId} (hid : id ∈ nearBranches ++ shortBranches) (name : CStr) :
    IsInstruction (iData id).mnemonic [name] := by
  have horg : ∀ id ∈ nearBranches ++ shortBranches, (iData id).mnemonic ≠ ascii "ORG" := by
    decide +kernel
  refine ⟨fun h => horg id hid h.2, ?_⟩
  unfold definedName
  dsimp only
  have hshort : ¬2 ≤ [name].length := Nat.not_succ_le_self 1
  rw [if_neg fun h => absurd h.1 (List.cons_ne_nil _ _), if_neg fun h => hshort h.1]

/-- What a branch is encoded with for an address. -/
theorem near_bytes {id : InstrId} (hid : id ∈ nearBranches) (cgOrigin offset op0 op1 : Nat) :
    encodeLength id = 5 ∧ encodeBytes cgOrigin offset id op0 op1 =
      byte (iData id).opcode :: Ia32.le32 (sub32 (sub32 op0 cgOrigin) (offset + 5)) := by
  simp only [nearBranches, List.mem_cons, List.not_mem_nil, or_false] at hid
  rcases hid with rfl | rfl
  · exact ⟨rfl, rfl⟩
  · exact ⟨rfl, rfl⟩

theorem short_bytes {id : InstrId} (hid : id ∈ shortBranches) (cgOrigin offset op0 op1 : Nat) :
    encodeLength id = 2 ∧ encodeBytes cgOrigin offset id op0 op1 =
      [byte (iData id).opcode, byte (sub32 (sub32 op0 cgOrigin) (offset + 2))] := by
  simp only [shortBranches, List.mem_cons, List.not_mem_nil, or_false] at hid
  rcases hid with rfl | rfl | rfl | rfl | rfl | rfl | rfl | rfl
  all_goals exact ⟨rfl, rfl⟩

theorem near_not_short {id : InstrId} (hid : id ∈ nearBranches) : id ∉ shortBranches := by
  have hall : ∀ id ∈ nearBranches, id ∉ shortBranches := by
    decide
  exact hall id hid

/-! ## Programs -/

/-- A label is at an offset of the output buffer. -/
theorem DefinedAt.le {lines : List (List CStr)} {name : CStr} {target : Nat} (h : DefinedAt lines name target) :
    target ≤ obuffSize := by
  obtain ⟨before, line, after, st, -, hst, -, rfl, -⟩ := h
  exact (asmLines_inv _ _ _ asmInit_inv hst).1.bound

/-- A branch whose reference is resolved goes to its label, unless it is a short one that cannot reach it. -/
theorem branch_displacement {file : List UInt8} {st' : Asm} (hok : asmMain file = .ok st') {before after : List (List CStr)}
    {id : InstrId} {name : CStr} {st : Asm} (hlines : sourceLines file = before ++ [(iData id).mnemonic, name] :: after)
    (hst : asmLines asmInit before = .ok st) (hid : id ∈ nearBranches ++ shortBranches) {target : Nat}
    (hdef : DefinedAt (sourceLines file) name target) (hres : BranchResolved st name) :
    BranchReaches st' st.ooffset id target ↔ InReach id st.ooffset target := by
  obtain ⟨v, id', hv, hfind, hbytes⟩ := reference_resolved hok hlines hst (branch_isInstruction hid name) (k := 0)
    rfl hres.symbol hres.nonempty hres.fits hdef hres.keeps
  -- the instruction that is found is the branch
  have hname : v.ci.mnemonic = strncpy (iData id).mnemonic 6 := by
    rw [operandLoop, parseOperand_symbol hres.symbol (by decide)] at hv
    rw [← Except.ok.inj hv]
    rfl
  obtain rfl := branch_mnemonic hid hname hfind
  rw [if_pos rfl] at hbytes
  -- it is inside the output buffer
  have hi := (asmLines_inv _ _ _ asmInit_inv hst).1
  obtain ⟨st₂, hrun, hi₂, -, hooffset, horigin, -⟩ := asmMain_eq_ok hok
  have hcg : st'.cgOrigin < 2 ^ 32 := by
    rw [horigin]
    exact hi₂.origin
  have ht : target ≤ 1024 := hdef.le
  have hn : st.ooffset ≤ 1024 := hi.bound
  unfold BranchReaches InReach displacement
  rcases List.mem_append.1 hid with hnear | hshort
  · have hnot := near_not_short hnear
    obtain ⟨hlen, hcode⟩ := near_bytes hnear st'.cgOrigin st.ooffset (wrap32 (target + st'.cgOrigin))
      (if (0 : Nat) = 1 then wrap32 (target + st'.cgOrigin) else v.ci.opValue 1)
    rw [hcode, sub32_origin hcg ht (by omega)] at hbytes
    rw [if_neg hnot, hbytes 1 (by omega), hbytes 2 (by omega), hbytes 3 (by omega), hbytes 4 (by omega), hlen]
    refine iff_of_true ?_ fun h => absurd h hnot
    have hreach : (st'.cgOrigin + (st.ooffset + 5) + (target + 2 ^ 32 - (st.ooffset + 5)) % 2 ^ 32) % 2 ^ 32 =
        (st'.cgOrigin + target) % 2 ^ 32 := near_reach ht (by omega)
    rw [← hreach]
    simp only [Ia32.le32, List.getD_cons_succ, List.getD_cons_zero, UInt8.toNat_ofNat']
    omega
  · obtain ⟨hlen, hcode⟩ := short_bytes hshort st'.cgOrigin st.ooffset (wrap32 (target + st'.cgOrigin))
      (if (0 : Nat) = 1 then wrap32 (target + st'.cgOrigin) else v.ci.opValue 1)
    rw [hcode, sub32_origin hcg ht (by omega)] at hbytes
    rw [if_pos hshort, hbytes 1 (by omega), hlen]
    exact (short_reach ht (by omega)).trans ⟨fun h _ => h, fun h => h hshort⟩

/-- A jump to a label before it. -/
theorem branch_displacement_sample : ∃ st' st, asmMain (ascii "ret\nend:\njmp end\n") = .ok st' ∧
    asmLines asmInit [[ascii "ret"], [ascii "end:"]] = .ok st ∧ (BranchReaches st' st.ooffset .jmp 1 ↔ InReach .jmp st.ooffset 1) := by
  have hlines : sourceLines (ascii "ret\nend:\njmp end\n") = [[ascii "ret"], [ascii "end:"], [ascii "jmp", ascii "end"]] := by
    decide +kernel
  obtain ⟨st', hok, -⟩ := exists_ok_of_any (x := asmMain (ascii "ret\nend:\njmp end\n")) (p := fun _ => true) (by decide +kernel)
  obtain ⟨st, hst, hp⟩ := exists_ok_of_any (x := asmLines asmInit [[ascii "ret"], [ascii "end:"]])
    (p := fun st => st.ooffset = 1 && (st.sRef 0).offset = 0) (by decide +kernel)
  obtain ⟨st₀, hst₀, hp₀⟩ := exists_ok_of_any (x := asmLines asmInit [[ascii "ret"]]) (p := fun st => st.ooffset = 1)
    (by decide +kernel)
  obtain ⟨hoffset, hempty⟩ := Bool.and_eq_true_iff.1 hp
  have hdef : DefinedAt (sourceLines (ascii "ret\nend:\njmp end\n")) (ascii "end") 1 := by
    refine ⟨[[ascii "ret"]], [ascii "end:"], [[ascii "jmp", ascii "end"]], st₀, hlines, hst₀, by decide, of_decide_eq_true hp₀, ?_⟩
    decide
  have hkeep : KeepsReference st := by
    refine ⟨?_, 0, by decide, of_decide_eq_true hempty⟩
    rw [of_decide_eq_true hoffset]
    exact Nat.one_ne_zero
  have hjump : sourceLines (ascii "ret\nend:\njmp end\n") =
      [[ascii "ret"], [ascii "end:"]] ++ [(iData .jmp).mnemonic, ascii "end"] :: [] := hlines
  exact ⟨st', st, hok, hst, branch_displacement hok hjump hst (by decide) hdef ⟨hkeep, by decide, by decide, by decide⟩⟩

/-- A jump that is the first instruction: its reference is an empty entry, and the jump goes to where its label taken for a number
is. -/
theorem first_jump_astray : ∃ st', asmMain (ascii "jmp end\nend:\nret\n") = .ok st' ∧
    sourceLines (ascii "jmp end\nend:\nret\n") = [[ascii "jmp", ascii "end"], [ascii "end:"], [ascii "ret"]] ∧
    DefinedAt (sourceLines (ascii "jmp end\nend:\nret\n")) (ascii "end") 5 ∧ ¬BranchReaches st' asmInit.ooffset .jmp 5 := by
  have hlines : sourceLines (ascii "jmp end\nend:\nret\n") = [[ascii "jmp", ascii "end"], [ascii "end:"], [ascii "ret"]] := by
    decide +kernel
  obtain ⟨st', hok, hp⟩ := exists_ok_of_any (x := asmMain (ascii "jmp end\nend:\nret\n"))
    (p := fun st => ¬BranchReaches st asmInit.ooffset .jmp 5) (by decide +kernel)
  obtain ⟨st, hst, hp'⟩ := exists_ok_of_any (x := asmLines asmInit [[ascii "jmp", ascii "end"]]) (p := fun st => st.ooffset = 5)
    (by decide +kernel)
  refine ⟨st', hok, hlines, ?_, of_decide_eq_true hp⟩
  refine ⟨[[ascii "jmp", ascii "end"]], [ascii "end:"], [[ascii "ret"]], st, hlines, hst, by decide, of_decide_eq_true hp', ?_⟩
  decide

end NanoS32
