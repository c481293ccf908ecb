import SpsVp.Rv32.Decode

/-!
# Encoding and decoding

`expand_compressed` encodes the instruction that stands for a compressed one, and it is then decoded
like any other. `encoding_inverse` says for every constructor that the expander uses that the
accessors read back the operands and that `decode_normal` finds the operation: the formats scatter
the bits of the operands to the places where the accessors gather them, and leave the bits of
`Mapping.mask` to the operation. -/

namespace SpsVp.Rv32

open Lib BitVec

namespace InstructionFactory

/-! ## The formats -/

variable (rd rs1 rs2 : BitVec 5) (opcode : BitVec 7) (funct3 : BitVec 3)

/-- A field of a word, bit by bit. -/
theorem extractLsb'_eq_of_bits {w : Nat} {word : BitVec 32} {start : Nat} {field : BitVec w}
    (h : ∀ i < w, word.getLsbD (start + i) = field.getLsbD i) :
    word.extractLsb' start w = field := by
  refine eq_of_getLsbD_eq fun i hi => ?_
  rw [getLsbD_extractLsb', h i hi, decide_eq_true hi, Bool.true_and]

/-- The bits of a word that a format leaves to the operation. -/
theorem and_eq_of_bits {word mask code : BitVec 32}
    (h : ∀ i < 32, (word.getLsbD i && mask.getLsbD i) = code.getLsbD i) : word &&& mask = code :=
  eq_of_getLsbD_eq fun i hi => (getLsbD_and).trans (h i hi)

theorem formatR_fields (funct7 : BitVec 7) :
    let instr := formatR rd rs1 rs2 (opcode.setWidth 32) (funct3.setWidth 32) (funct7.setWidth 32)
    (instr.rd = rd ∧ instr.rs1 = rs1 ∧ instr.rs2 = rs2) ∧
      instr.data &&& 0xfe00707f#32 = funct7 ++ 0#10 ++ funct3 ++ 0#5 ++ opcode := by
  refine ⟨⟨extractLsb'_eq_of_bits ?_, extractLsb'_eq_of_bits ?_, extractLsb'_eq_of_bits ?_⟩,
    and_eq_of_bits ?_⟩
  all_goals
    intro i hi
    simp only [formatR, registers, getLsbD_or, getLsbD_shiftLeft,
      getLsbD_setWidth, getLsbD_append]
    interval_cases i <;> simp

theorem formatI_fields (imm : BitVec 12) :
    let instr := formatI rd rs1 (imm.signExtend 32) (opcode.setWidth 32) (funct3.setWidth 32)
    (instr.rd = rd ∧ instr.rs1 = rs1 ∧ instr.iImm = imm.signExtend 32) ∧
      instr.data &&& 0x0000707f#32 = 0#17 ++ funct3 ++ 0#5 ++ opcode := by
  refine ⟨⟨extractLsb'_eq_of_bits ?_, extractLsb'_eq_of_bits ?_,
    (Instruction.iImm_eq _).trans (congrArg _ (extractLsb'_eq_of_bits ?_))⟩, and_eq_of_bits ?_⟩
  all_goals
    intro i hi
    simp only [formatI, registers, getLsbD_or, getLsbD_and, getLsbD_shiftLeft,
      getLsbD_setWidth, getLsbD_signExtend, getLsbD_append]
    interval_cases i <;> simp

theorem formatShift_fields (shamt : BitVec 6) (funct6 : BitVec 6) :
    let instr := formatShift rd rs1 (shamt.setWidth 32) (opcode.setWidth 32) (funct3.setWidth 32)
      ((funct6 ++ 0#1).setWidth 32)
    (instr.rd = rd ∧ instr.rs1 = rs1 ∧ instr.shamt = shamt.setWidth 32) ∧
      instr.data &&& 0xfc00707f#32 = funct6 ++ 0#11 ++ funct3 ++ 0#5 ++ opcode ∧
      (shamt.toNat < 32 → instr.data &&& 0xfe00707f#32 = funct6 ++ 0#11 ++ funct3 ++
        0#5 ++ opcode) := by
  refine ⟨⟨extractLsb'_eq_of_bits ?_, extractLsb'_eq_of_bits ?_,
    (Instruction.shamt_eq _).trans (congrArg _ (extractLsb'_eq_of_bits ?_))⟩, and_eq_of_bits ?_,
    fun hlt => and_eq_of_bits ?_⟩
  rotate_right
  · have hbit : shamt[5] = false := Nat.testBit_lt_two_pow hlt
    intro i hi
    simp only [formatShift, registers, getLsbD_or, getLsbD_and,
      getLsbD_shiftLeft, getLsbD_setWidth, getLsbD_append]
    interval_cases i <;> simp [hbit]
  all_goals
    intro i hi
    simp only [formatShift, registers, getLsbD_or, getLsbD_and,
      getLsbD_shiftLeft, getLsbD_setWidth, getLsbD_append]
    interval_cases i <;> simp

theorem formatS_fields (imm : BitVec 12) :
    let instr := formatS rs1 rs2 (imm.signExtend 32) (opcode.setWidth 32) (funct3.setWidth 32)
    (instr.rs1 = rs1 ∧ instr.rs2 = rs2 ∧ instr.sImm = imm.signExtend 32) ∧
      instr.data &&& 0x0000707f#32 = 0#17 ++ funct3 ++ 0#5 ++ opcode := by
  refine ⟨⟨extractLsb'_eq_of_bits ?_, extractLsb'_eq_of_bits ?_,
    (Instruction.sImm_eq _).trans (congrArg _ (eq_of_getLsbD_eq ?_))⟩, and_eq_of_bits ?_⟩
  all_goals
    intro i hi
    simp only [formatS, registers, getLsbD_or, getLsbD_and, getLsbD_shiftLeft,
      getLsbD_setWidth, getLsbD_signExtend, getLsbD_append,
        getLsbD_extractLsb']
    interval_cases i <;> simp

theorem formatB_fields (imm : BitVec 12) :
    let instr :=
      formatB rs1 rs2 ((imm ++ 0#1).signExtend 32) (opcode.setWidth 32) (funct3.setWidth 32)
    (instr.rs1 = rs1 ∧ instr.rs2 = rs2 ∧ instr.bImm = (imm ++ 0#1).signExtend 32) ∧
      instr.data &&& 0x0000707f#32 = 0#17 ++ funct3 ++ 0#5 ++ opcode := by
  refine ⟨⟨extractLsb'_eq_of_bits ?_, extractLsb'_eq_of_bits ?_,
    (Instruction.bImm_eq _).trans (congrArg _ (eq_of_getLsbD_eq ?_))⟩, and_eq_of_bits ?_⟩
  all_goals
    intro i hi
    simp only [formatB, registers, getLsbD_or, getLsbD_and, getLsbD_shiftLeft,
      getLsbD_setWidth, getLsbD_signExtend, getLsbD_append,
      getLsbD_extractLsb', getLsbD_sshiftRight, msb_eq_getLsbD_last]
    interval_cases i <;> simp

theorem LUI_fields (imm : BitVec 20) :
    ((LUI rd (imm ++ 0#12)).rd = rd ∧ (LUI rd (imm ++ 0#12)).uImm = imm ++ 0#12) ∧
      (LUI rd (imm ++ 0#12)).data &&& 0x0000007f#32 = 0x00000037#32 := by
  refine ⟨⟨extractLsb'_eq_of_bits ?_,
    (Instruction.uImm_eq _).trans (congrArg (· ++ 0#12) (extractLsb'_eq_of_bits ?_))⟩,
      and_eq_of_bits ?_⟩
  all_goals
    intro i hi
    simp only [LUI, getLsbD_or, getLsbD_and, getLsbD_shiftLeft,
      getLsbD_setWidth, getLsbD_append]
    interval_cases i <;> simp

theorem JAL_fields (imm : BitVec 20) :
    ((JAL rd ((imm ++ 0#1).signExtend 32)).rd = rd ∧
      (JAL rd ((imm ++ 0#1).signExtend 32)).jImm = (imm ++ 0#1).signExtend 32) ∧
      (JAL rd ((imm ++ 0#1).signExtend 32)).data &&& 0x0000007f#32 = 0x0000006f#32 := by
  refine ⟨⟨extractLsb'_eq_of_bits ?_,
    (Instruction.jImm_eq _).trans (congrArg _ (eq_of_getLsbD_eq ?_))⟩, and_eq_of_bits ?_⟩
  all_goals
    intro i hi
    simp only [JAL, getLsbD_or, getLsbD_and, getLsbD_shiftLeft,
      getLsbD_setWidth,
      getLsbD_signExtend, getLsbD_append, getLsbD_extractLsb']
    interval_cases i <;> simp

end InstructionFactory

namespace Instruction

/-! ## Decoding -/

variable {instr : Instruction} {m : Mapping}

/-- A field that the mask of an operation covers. -/
theorem extractLsb'_of_and {data mask code : BitVec 32} (h : data &&& mask = code) (start len : Nat)
    (hmask : mask.extractLsb' start len = allOnes len) :
    data.extractLsb' start len = code.extractLsb' start len := by
  rw [← h, extractLsb'_and, hmask, and_allOnes]

theorem matchInstr_eq (h : instr.data &&& m.mask = m.encoding) : instr.matchInstr m = m :=
  if_neg (not_not.mpr h)

theorem decodeNormal_register (arch : Architecture)
    (hm : m ∈ [.ADD, .AND, .OR, .XOR, .SUB, .ADDW, .SUBW])
    (h : instr.data &&& 0xfe00707f#32 = m.encoding) : instr.decodeNormal arch = m := by
  have hopcode : instr.opcode = _ := extractLsb'_of_and h 0 7 (by decide)
  have hfunct3 : instr.funct3 = _ := extractLsb'_of_and h 12 3 (by decide)
  have hfunct7 : instr.funct7 = _ := extractLsb'_of_and h 25 7 (by decide)
  unfold decodeNormal decodeOpAdd decodeOpAddw
  rw [hopcode, hfunct3, hfunct7]
  simp only [List.mem_cons, List.not_mem_nil, or_false] at hm
  rcases hm with rfl | rfl | rfl | rfl | rfl | rfl | rfl <;> exact matchInstr_eq h

theorem decodeNormal_immediate (arch : Architecture)
    (hm : m ∈ [.LW, .LD, .FLW, .FLD, .ADDI, .ANDI, .JALR, .SW, .SD, .FSW, .FSD, .BEQ, .BNE])
    (h : instr.data &&& 0x0000707f#32 = m.encoding) : instr.decodeNormal arch = m := by
  have hopcode : instr.opcode = _ := extractLsb'_of_and h 0 7 (by decide)
  have hfunct3 : instr.funct3 = _ := extractLsb'_of_and h 12 3 (by decide)
  unfold decodeNormal decodeOpAddi
  rw [hopcode, hfunct3]
  simp only [List.mem_cons, List.not_mem_nil, or_false] at hm
  rcases hm with rfl | rfl | rfl | rfl | rfl | rfl | rfl | rfl | rfl | rfl | rfl | rfl | rfl <;>
    exact matchInstr_eq h

/-- On RV32 the shift amount has five bits. -/
theorem decodeNormal_shift (hm : m ∈ [.SRLI, .SRAI, .SLLI])
    (h : instr.data &&& 0xfc00707f#32 = m.encoding) : instr.decodeNormal .RV64 = m ∧
      (instr.data &&& 0xfe00707f#32 = m.encoding → instr.decodeNormal .RV32 = m) := by
  have hopcode : instr.opcode = _ := extractLsb'_of_and h 0 7 (by decide)
  have hfunct3 : instr.funct3 = _ := extractLsb'_of_and h 12 3 (by decide)
  have hfunct6 : instr.funct6 = _ := extractLsb'_of_and h 26 6 (by decide)
  unfold decodeNormal decodeOpAddi
  rw [hopcode, hfunct3, hfunct6]
  simp only [List.mem_cons, List.not_mem_nil, or_false] at hm
  rcases hm with rfl | rfl | rfl <;> exact ⟨matchInstr_eq h, fun h => if_neg (not_not.mpr h)⟩

theorem decodeNormal_upper (arch : Architecture) (hm : m ∈ [.LUI, .JAL])
    (h : instr.data &&& 0x0000007f#32 = m.encoding) : instr.decodeNormal arch = m := by
  have hopcode : instr.opcode = _ := extractLsb'_of_and h 0 7 (by decide)
  unfold decodeNormal
  rw [hopcode]
  simp only [List.mem_cons, List.not_mem_nil, or_false] at hm
  rcases hm with rfl | rfl <;> exact matchInstr_eq h

end Instruction

namespace InstructionFactory

/-! ## The constructors -/

/-- The accessors return the operands, and `decode_normal` the operation, of what a constructor for
two source registers encodes. -/
def RegisterInverse (m : Mapping) (encode : BitVec 5 → BitVec 5 → BitVec 5 → Instruction) : Prop :=
  ∀ rd rs1 rs2, let instr := encode rd rs1 rs2
    (instr.rd = rd ∧ instr.rs1 = rs1 ∧ instr.rs2 = rs2) ∧ ∀ arch, instr.decodeNormal arch = m

/-- The same for a constructor with an immediate, which is the value of some bits, or with a shift
amount of six bits. On RV32 a shift amount is below 32. -/
def ImmediateInverse (m : Mapping) (encode : BitVec 5 → BitVec 5 → BitVec 32 → Instruction) :
    Prop :=
  ∀ rd rs1 (bits : BitVec 12), let instr := encode rd rs1 (bits.signExtend 32)
    (instr.rd = rd ∧ instr.rs1 = rs1 ∧ instr.iImm = bits.signExtend 32) ∧
      ∀ arch, instr.decodeNormal arch = m

@[inherit_doc ImmediateInverse]
def ShiftInverse (m : Mapping) (encode : BitVec 5 → BitVec 5 → BitVec 32 → Instruction) : Prop :=
  ∀ rd rs1 (shamt : BitVec 6), let instr := encode rd rs1 (shamt.setWidth 32)
    (instr.rd = rd ∧ instr.rs1 = rs1 ∧ instr.shamt = shamt.setWidth 32) ∧
      instr.decodeNormal .RV64 = m ∧ (shamt.toNat < 32 → instr.decodeNormal .RV32 = m)

@[inherit_doc ImmediateInverse]
def StoreInverse (m : Mapping) (encode : BitVec 5 → BitVec 5 → BitVec 32 → Instruction) : Prop :=
  ∀ rs1 rs2 (bits : BitVec 12), let instr := encode rs1 rs2 (bits.signExtend 32)
    (instr.rs1 = rs1 ∧ instr.rs2 = rs2 ∧ instr.sImm = bits.signExtend 32) ∧
      ∀ arch, instr.decodeNormal arch = m

@[inherit_doc ImmediateInverse]
def BranchInverse (m : Mapping) (encode : BitVec 5 → BitVec 5 → BitVec 32 → Instruction) : Prop :=
  ∀ rs1 rs2 (bits : BitVec 12), let instr := encode rs1 rs2 ((bits ++ 0#1).signExtend 32)
    (instr.rs1 = rs1 ∧ instr.rs2 = rs2 ∧ instr.bImm = (bits ++ 0#1).signExtend 32) ∧
      ∀ arch, instr.decodeNormal arch = m

variable {m : Mapping} (opcode : BitVec 7) (funct3 : BitVec 3)

theorem registerInverse (funct7 : BitVec 7) (hm : m ∈ [.ADD, .AND, .OR, .XOR, .SUB, .ADDW, .SUBW])
    (hcode : funct7 ++ 0#10 ++ funct3 ++ 0#5 ++ opcode = m.encoding) :
    RegisterInverse m fun rd rs1 rs2 =>
      formatR rd rs1 rs2 (opcode.setWidth 32) (funct3.setWidth 32) (funct7.setWidth 32) := by
  intro rd rs1 rs2
  obtain ⟨hfields, hdata⟩ := formatR_fields rd rs1 rs2 opcode funct3 funct7
  exact ⟨hfields, fun arch => Instruction.decodeNormal_register arch hm (hdata.trans hcode)⟩

section

variable (hm : m ∈ [.LW, .LD, .FLW, .FLD, .ADDI, .ANDI, .JALR, .SW, .SD, .FSW, .FSD, .BEQ, .BNE])
  (hcode : 0#17 ++ funct3 ++ 0#5 ++ opcode = m.encoding)
include hm hcode

theorem immediateInverse : ImmediateInverse m fun rd rs1 imm =>
    formatI rd rs1 imm (opcode.setWidth 32) (funct3.setWidth 32) := by
  intro rd rs1 bits
  obtain ⟨hfields, hdata⟩ := formatI_fields rd rs1 opcode funct3 bits
  exact ⟨hfields, fun arch => Instruction.decodeNormal_immediate arch hm (hdata.trans hcode)⟩

theorem storeInverse : StoreInverse m fun rs1 rs2 imm =>
    formatS rs1 rs2 imm (opcode.setWidth 32) (funct3.setWidth 32) := by
  intro rs1 rs2 bits
  obtain ⟨hfields, hdata⟩ := formatS_fields rs1 rs2 opcode funct3 bits
  exact ⟨hfields, fun arch => Instruction.decodeNormal_immediate arch hm (hdata.trans hcode)⟩

theorem branchInverse : BranchInverse m fun rs1 rs2 imm =>
    formatB rs1 rs2 imm (opcode.setWidth 32) (funct3.setWidth 32) := by
  intro rs1 rs2 bits
  obtain ⟨hfields, hdata⟩ := formatB_fields rs1 rs2 opcode funct3 bits
  exact ⟨hfields, fun arch => Instruction.decodeNormal_immediate arch hm (hdata.trans hcode)⟩

end

theorem shiftInverse (funct6 : BitVec 6) (hm : m ∈ [.SRLI, .SRAI, .SLLI])
    (hcode : funct6 ++ 0#11 ++ funct3 ++ 0#5 ++ opcode = m.encoding) :
    ShiftInverse m fun rd rs1 shamt =>
      formatShift rd rs1 shamt (opcode.setWidth 32) (funct3.setWidth 32)
        ((funct6 ++ 0#1).setWidth 32) := by
  intro rd rs1 shamt
  obtain ⟨hfields, hdata, hdata32⟩ := formatShift_fields rd rs1 opcode funct3 shamt funct6
  obtain ⟨hdecode, hdecode32⟩ := Instruction.decodeNormal_shift hm (hdata.trans hcode)
  exact ⟨hfields, hdecode, fun hlt => hdecode32 ((hdata32 hlt).trans hcode)⟩

/-- For every constructor that the expander uses, encoding and decoding are inverse. -/
theorem encoding_inverse :
    (∀ c ∈ [(.ADD, ADD), (.AND, AND), (.OR, OR), (.XOR, XOR), (.SUB, SUB),
      (.ADDW, ADDW), (.SUBW, SUBW)], RegisterInverse c.1 c.2) ∧
    (∀ c ∈ [(.LW, LW), (.LD, LD), (.FLW, FLW), (.FLD, FLD), (.ADDI, ADDI),
      (.ANDI, ANDI), (.JALR, JALR)], ImmediateInverse c.1 c.2) ∧
    (∀ c ∈ [(.SRLI, SRLI), (.SRAI, SRAI), (.SLLI, SLLI)], ShiftInverse c.1 c.2) ∧
    (∀ c ∈ [(.SW, SW), (.SD, SD), (.FSW, FSW), (.FSD, FSD)], StoreInverse c.1 c.2) ∧
    (∀ c ∈ [(.BEQ, BEQ), (.BNE, BNE)], BranchInverse c.1 c.2) ∧
    (∀ rd (bits : BitVec 20), let instr := LUI rd (bits ++ 0#12)
      (instr.rd = rd ∧ instr.uImm = bits ++ 0#12) ∧ ∀ arch, instr.decodeNormal arch = .LUI) ∧
    (∀ rd (bits : BitVec 20), let instr := JAL rd ((bits ++ 0#1).signExtend 32)
      (instr.rd = rd ∧ instr.jImm = (bits ++ 0#1).signExtend 32) ∧
        ∀ arch, instr.decodeNormal arch = .JAL) ∧
    ∀ arch, EBREAK.decodeNormal arch = .EBREAK := by
  simp only [List.forall_mem_cons, List.not_mem_nil, false_imp_iff, implies_true, and_true]
  refine ⟨⟨?_, ?_, ?_, ?_, ?_, ?_, ?_⟩, ⟨?_, ?_, ?_, ?_, ?_, ?_, ?_⟩, ⟨?_, ?_, ?_⟩,
    ⟨?_, ?_, ?_, ?_⟩,
    ⟨?_, ?_⟩, fun rd bits => ?_, fun rd bits => ?_, fun arch => by cases arch <;> decide⟩
  · exact registerInverse 51 0 0 (by decide) (by decide)
  · exact registerInverse 51 7 0 (by decide) (by decide)
  · exact registerInverse 51 6 0 (by decide) (by decide)
  · exact registerInverse 51 4 0 (by decide) (by decide)
  · exact registerInverse 51 0 32 (by decide) (by decide)
  · exact registerInverse 0x3b 0 0 (by decide) (by decide)
  · exact registerInverse 0x3b 0 32 (by decide) (by decide)
  · exact immediateInverse 3 2 (by decide) (by decide)
  · exact immediateInverse 3 3 (by decide) (by decide)
  · exact immediateInverse 7 2 (by decide) (by decide)
  · exact immediateInverse 7 3 (by decide) (by decide)
  · exact immediateInverse 19 0 (by decide) (by decide)
  · exact immediateInverse 19 7 (by decide) (by decide)
  · exact immediateInverse 103 0 (by decide) (by decide)
  · exact shiftInverse 19 5 0 (by decide) (by decide)
  · exact shiftInverse 19 5 16 (by decide) (by decide)
  · exact shiftInverse 19 1 0 (by decide) (by decide)
  · exact storeInverse 35 2 (by decide) (by decide)
  · exact storeInverse 35 3 (by decide) (by decide)
  · exact storeInverse 39 2 (by decide) (by decide)
  · exact storeInverse 39 3 (by decide) (by decide)
  · exact branchInverse 99 0 (by decide) (by decide)
  · exact branchInverse 99 1 (by decide) (by decide)
  · obtain ⟨hfields, hdata⟩ := LUI_fields rd bits
    exact ⟨hfields, fun arch => Instruction.decodeNormal_upper arch (by decide) hdata⟩
  · obtain ⟨hfields, hdata⟩ := JAL_fields rd bits
    exact ⟨hfields, fun arch => Instruction.decodeNormal_upper arch (by decide) hdata⟩

end InstructionFactory

end SpsVp.Rv32
