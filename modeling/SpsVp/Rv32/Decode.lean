import SpsVp.Lib.Effect
import SpsVp.Rv32.Instruction

/-!
# Decoding

`Instruction::decode_normal` and `Instruction::decode_and_expand_compressed` of
`core/common/instr.cpp`. A 32-bit word is looked up by its function codes and then compared with the
encoding of the instruction it was looked up as. A compressed word is first replaced by the 32-bit
word of the instruction it stands for.

Every `case` of the source returns or breaks out of the function, so a `switch` without a match
yields the value after it.
-/

namespace SpsVp.Rv32

open Lib

/-- `Architecture`. -/
inductive Architecture where
  | RV32 | RV64 | RV128
deriving DecidableEq

/-- `Opcode::Mapping`. -/
inductive Mapping where
  | UNDEF
  -- RV32I base instruction set
  | LUI | AUIPC | JAL | JALR | BEQ | BNE | BLT | BGE | BLTU | BGEU | LB | LH | LW | LBU | LHU
  | SB | SH | SW | ADDI | SLTI | SLTIU | XORI | ORI | ANDI | SLLI | SRLI | SRAI | ADD | SUB | SLL
  | SLT | SLTU | XOR | SRL | SRA | OR | AND | FENCE | ECALL | EBREAK
  -- Zifencei standard extension
  | FENCE_I
  -- Zicsr standard extension
  | CSRRW | CSRRS | CSRRC | CSRRWI | CSRRSI | CSRRCI
  -- RV32M standard extension
  | MUL | MULH | MULHSU | MULHU | DIV | DIVU | REM | REMU
  -- RV32A standard extension
  | LR_W | SC_W | AMOSWAP_W | AMOADD_W | AMOXOR_W | AMOAND_W | AMOOR_W | AMOMIN_W | AMOMAX_W
  | AMOMINU_W | AMOMAXU_W
  -- RV64I base integer set (addition to RV32I)
  | LWU | LD | SD | ADDIW | SLLIW | SRLIW | SRAIW | ADDW | SUBW | SLLW | SRLW | SRAW
  -- RV64M standard extension (addition to RV32M)
  | MULW | DIVW | DIVUW | REMW | REMUW
  -- RV64A standard extension (addition to RV32A)
  | LR_D | SC_D | AMOSWAP_D | AMOADD_D | AMOXOR_D | AMOAND_D | AMOOR_D | AMOMIN_D | AMOMAX_D
  | AMOMINU_D | AMOMAXU_D
  -- RV32F standard extension
  | FLW | FSW | FMADD_S | FMSUB_S | FNMADD_S | FNMSUB_S | FADD_S | FSUB_S | FMUL_S | FDIV_S
  | FSQRT_S | FSGNJ_S | FSGNJN_S | FSGNJX_S | FMIN_S | FMAX_S | FCVT_W_S | FCVT_WU_S | FMV_X_W
  | FEQ_S | FLT_S | FLE_S | FCLASS_S | FCVT_S_W | FCVT_S_WU | FMV_W_X
  -- RV64F standard extension (addition to RV32F)
  | FCVT_L_S | FCVT_LU_S | FCVT_S_L | FCVT_S_LU
  -- RV32D standard extension
  | FLD | FSD | FMADD_D | FMSUB_D | FNMSUB_D | FNMADD_D | FADD_D | FSUB_D | FMUL_D | FDIV_D
  | FSQRT_D | FSGNJ_D | FSGNJN_D | FSGNJX_D | FMIN_D | FMAX_D | FCVT_S_D | FCVT_D_S | FEQ_D
  | FLT_D | FLE_D | FCLASS_D | FCVT_W_D | FCVT_WU_D | FCVT_D_W | FCVT_D_WU
  -- RV64D standard extension (addition to RV32D)
  | FCVT_L_D | FCVT_LU_D | FMV_X_D | FCVT_D_L | FCVT_D_LU | FMV_D_X
  -- privileged instructions
  | URET | SRET | MRET | WFI | SFENCE_VMA
deriving DecidableEq

namespace Mapping

/-- The `_MASK` constants. -/
def mask : Mapping → BitVec 32
  | .UNDEF => 0#32
  | .LUI | .AUIPC | .JAL => 0x0000007f#32
  | .JALR | .BEQ | .BNE | .BLT | .BGE | .BLTU | .BGEU | .LB | .LH | .LW | .LBU | .LHU | .SB
  | .SH | .SW | .ADDI | .SLTI | .SLTIU | .XORI | .ORI | .ANDI | .FENCE | .FENCE_I | .CSRRW
  | .CSRRS | .CSRRC | .CSRRWI | .CSRRSI | .CSRRCI | .LWU | .LD | .SD | .ADDIW | .FLW | .FSW
  | .FLD | .FSD => 0x0000707f#32
  | .SLLI | .SRLI | .SRAI => 0xfc00707f#32
  | .ADD | .SUB | .SLL | .SLT | .SLTU | .XOR | .SRL | .SRA | .OR | .AND | .MUL | .MULH
  | .MULHSU | .MULHU | .DIV | .DIVU | .REM | .REMU | .SLLIW | .SRLIW | .SRAIW | .ADDW
  | .SUBW | .SLLW | .SRLW | .SRAW | .MULW | .DIVW | .DIVUW | .REMW | .REMUW | .FSGNJ_S
  | .FSGNJN_S | .FSGNJX_S | .FMIN_S | .FMAX_S | .FEQ_S | .FLT_S | .FLE_S | .FSGNJ_D
  | .FSGNJN_D | .FSGNJX_D | .FMIN_D | .FMAX_D | .FEQ_D | .FLT_D | .FLE_D => 0xfe00707f#32
  | .ECALL | .EBREAK | .URET | .SRET | .MRET | .WFI => 0xffffffff#32
  | .LR_W | .LR_D => 0xf9f0707f#32
  | .SC_W | .AMOSWAP_W | .AMOADD_W | .AMOXOR_W | .AMOAND_W | .AMOOR_W | .AMOMIN_W
  | .AMOMAX_W | .AMOMINU_W | .AMOMAXU_W | .SC_D | .AMOSWAP_D | .AMOADD_D | .AMOXOR_D
  | .AMOAND_D | .AMOOR_D | .AMOMIN_D | .AMOMAX_D | .AMOMINU_D | .AMOMAXU_D => 0xf800707f#32
  | .FMADD_S | .FMSUB_S | .FNMADD_S | .FNMSUB_S | .FMADD_D | .FMSUB_D | .FNMSUB_D
  | .FNMADD_D => 0x0600007f#32
  | .FADD_S | .FSUB_S | .FMUL_S | .FDIV_S | .FADD_D | .FSUB_D | .FMUL_D | .FDIV_D =>
    0xfe00007f#32
  | .FSQRT_S | .FCVT_W_S | .FCVT_WU_S | .FCVT_S_W | .FCVT_S_WU | .FCVT_L_S | .FCVT_LU_S
  | .FCVT_S_L | .FCVT_S_LU | .FSQRT_D | .FCVT_S_D | .FCVT_D_S | .FCVT_W_D | .FCVT_WU_D
  | .FCVT_D_W | .FCVT_D_WU | .FCVT_L_D | .FCVT_LU_D | .FCVT_D_L | .FCVT_D_LU =>
    0xfff0007f#32
  | .FMV_X_W | .FCLASS_S | .FMV_W_X | .FCLASS_D | .FMV_X_D | .FMV_D_X => 0xfff0707f#32
  | .SFENCE_VMA => 0xfe007fff#32

/-- The `_ENCODING` constants. -/
def encoding : Mapping → BitVec 32
  | .UNDEF => 0#32 | .LUI => 0x00000037#32 | .AUIPC => 0x00000017#32 | .JAL => 0x0000006f#32
  | .JALR => 0x00000067#32 | .BEQ => 0x00000063#32 | .BNE => 0x00001063#32 | .BLT => 0x00004063#32
  | .BGE => 0x00005063#32 | .BLTU => 0x00006063#32 | .BGEU => 0x00007063#32 | .LB => 0x00000003#32
  | .LH => 0x00001003#32 | .LW => 0x00002003#32 | .LBU => 0x00004003#32 | .LHU => 0x00005003#32
  | .SB => 0x00000023#32 | .SH => 0x00001023#32 | .SW => 0x00002023#32 | .ADDI => 0x00000013#32
  | .SLTI => 0x00002013#32 | .SLTIU => 0x00003013#32 | .XORI => 0x00004013#32
  | .ORI => 0x00006013#32 | .ANDI => 0x00007013#32 | .SLLI => 0x00001013#32
  | .SRLI => 0x00005013#32 | .SRAI => 0x40005013#32 | .ADD => 0x00000033#32
  | .SUB => 0x40000033#32 | .SLL => 0x00001033#32 | .SLT => 0x00002033#32 | .SLTU => 0x00003033#32
  | .XOR => 0x00004033#32 | .SRL => 0x00005033#32 | .SRA => 0x40005033#32 | .OR => 0x00006033#32
  | .AND => 0x00007033#32 | .FENCE => 0x0000000f#32 | .ECALL => 0x00000073#32
  | .EBREAK => 0x00100073#32 | .FENCE_I => 0x0000100f#32 | .CSRRW => 0x00001073#32
  | .CSRRS => 0x00002073#32 | .CSRRC => 0x00003073#32 | .CSRRWI => 0x00005073#32
  | .CSRRSI => 0x00006073#32 | .CSRRCI => 0x00007073#32 | .MUL => 0x02000033#32
  | .MULH => 0x02001033#32 | .MULHSU => 0x02002033#32 | .MULHU => 0x02003033#32
  | .DIV => 0x02004033#32 | .DIVU => 0x02005033#32 | .REM => 0x02006033#32
  | .REMU => 0x02007033#32 | .LR_W => 0x1000202f#32 | .SC_W => 0x1800202f#32
  | .AMOSWAP_W => 0x0800202f#32 | .AMOADD_W => 0x0000202f#32 | .AMOXOR_W => 0x2000202f#32
  | .AMOAND_W => 0x6000202f#32 | .AMOOR_W => 0x4000202f#32 | .AMOMIN_W => 0x8000202f#32
  | .AMOMAX_W => 0xa000202f#32 | .AMOMINU_W => 0xc000202f#32 | .AMOMAXU_W => 0xe000202f#32
  | .LWU => 0x00006003#32 | .LD => 0x00003003#32 | .SD => 0x00003023#32 | .ADDIW => 0x0000001b#32
  | .SLLIW => 0x0000101b#32 | .SRLIW => 0x0000501b#32 | .SRAIW => 0x4000501b#32
  | .ADDW => 0x0000003b#32 | .SUBW => 0x4000003b#32 | .SLLW => 0x0000103b#32
  | .SRLW => 0x0000503b#32 | .SRAW => 0x4000503b#32 | .MULW => 0x0200003b#32
  | .DIVW => 0x0200403b#32 | .DIVUW => 0x0200503b#32 | .REMW => 0x0200603b#32
  | .REMUW => 0x0200703b#32 | .LR_D => 0x1000302f#32 | .SC_D => 0x1800302f#32
  | .AMOSWAP_D => 0x0800302f#32 | .AMOADD_D => 0x0000302f#32 | .AMOXOR_D => 0x2000302f#32
  | .AMOAND_D => 0x6000302f#32 | .AMOOR_D => 0x4000302f#32 | .AMOMIN_D => 0x8000302f#32
  | .AMOMAX_D => 0xa000302f#32 | .AMOMINU_D => 0xc000302f#32 | .AMOMAXU_D => 0xe000302f#32
  | .FLW => 0x00002007#32 | .FSW => 0x00002027#32 | .FMADD_S => 0x00000043#32
  | .FMSUB_S => 0x00000047#32 | .FNMADD_S => 0x0000004f#32 | .FNMSUB_S => 0x0000004b#32
  | .FADD_S => 0x00000053#32 | .FSUB_S => 0x08000053#32 | .FMUL_S => 0x10000053#32
  | .FDIV_S => 0x18000053#32 | .FSQRT_S => 0x58000053#32 | .FSGNJ_S => 0x20000053#32
  | .FSGNJN_S => 0x20001053#32 | .FSGNJX_S => 0x20002053#32 | .FMIN_S => 0x28000053#32
  | .FMAX_S => 0x28001053#32 | .FCVT_W_S => 0xc0000053#32 | .FCVT_WU_S => 0xc0100053#32
  | .FMV_X_W => 0xe0000053#32 | .FEQ_S => 0xa0002053#32 | .FLT_S => 0xa0001053#32
  | .FLE_S => 0xa0000053#32 | .FCLASS_S => 0xe0001053#32 | .FCVT_S_W => 0xd0000053#32
  | .FCVT_S_WU => 0xd0100053#32 | .FMV_W_X => 0xf0000053#32 | .FCVT_L_S => 0xc0200053#32
  | .FCVT_LU_S => 0xc0300053#32 | .FCVT_S_L => 0xd0200053#32 | .FCVT_S_LU => 0xd0300053#32
  | .FLD => 0x00003007#32 | .FSD => 0x00003027#32 | .FMADD_D => 0x02000043#32
  | .FMSUB_D => 0x02000047#32 | .FNMSUB_D => 0x0200004b#32 | .FNMADD_D => 0x0200004f#32
  | .FADD_D => 0x02000053#32 | .FSUB_D => 0x0a000053#32 | .FMUL_D => 0x12000053#32
  | .FDIV_D => 0x1a000053#32 | .FSQRT_D => 0x5a000053#32 | .FSGNJ_D => 0x22000053#32
  | .FSGNJN_D => 0x22001053#32 | .FSGNJX_D => 0x22002053#32 | .FMIN_D => 0x2a000053#32
  | .FMAX_D => 0x2a001053#32 | .FCVT_S_D => 0x40100053#32 | .FCVT_D_S => 0x42000053#32
  | .FEQ_D => 0xa2002053#32 | .FLT_D => 0xa2001053#32 | .FLE_D => 0xa2000053#32
  | .FCLASS_D => 0xe2001053#32 | .FCVT_W_D => 0xc2000053#32 | .FCVT_WU_D => 0xc2100053#32
  | .FCVT_D_W => 0xd2000053#32 | .FCVT_D_WU => 0xd2100053#32 | .FCVT_L_D => 0xc2200053#32
  | .FCVT_LU_D => 0xc2300053#32 | .FMV_X_D => 0xe2000053#32 | .FCVT_D_L => 0xd2200053#32
  | .FCVT_D_LU => 0xd2300053#32 | .FMV_D_X => 0xf2000053#32 | .URET => 0x00200073#32
  | .SRET => 0x10200073#32 | .MRET => 0x30200073#32 | .WFI => 0x10500073#32
  | .SFENCE_VMA => 0x12000073#32

end Mapping

namespace Instruction

/-- `MATCH_AND_RETURN_INSTR2`. -/
def matchAndReturn (instr : Instruction) (mask encoding : BitVec 32) (result : Mapping) : Mapping :=
  if instr.data &&& mask ≠ encoding then .UNDEF else result

/-- `MATCH_AND_RETURN_INSTR`. -/
def matchInstr (instr : Instruction) (result : Mapping) : Mapping :=
  instr.matchAndReturn result.mask result.encoding result

/-- The shifts by an immediate, which have a mask of their own, `SLLI_32_MASK` and so on, on
RV32. -/
def matchShift (instr : Instruction) (arch : Architecture) (result : Mapping) : Mapping :=
  if arch = .RV32 then instr.matchAndReturn 0xfe00707f#32 result.encoding result
  else instr.matchInstr result

/-- The instructions of `OP_AMO`, with a word and a doubleword form. -/
def matchAmo (instr : Instruction) (word double : Mapping) : Mapping :=
  if instr.funct3 = 0b011#3 then instr.matchInstr double else instr.matchInstr word

/-- The cases of `OP_ADDI`. -/
def decodeOpAddi (instr : Instruction) (arch : Architecture) : Mapping :=
  switch instr.funct3
    [(0b000#3, instr.matchInstr .ADDI), (0b010#3, instr.matchInstr .SLTI),
      (0b011#3, instr.matchInstr .SLTIU), (0b100#3, instr.matchInstr .XORI),
      (0b110#3, instr.matchInstr .ORI), (0b111#3, instr.matchInstr .ANDI),
      (0b001#3, instr.matchShift arch .SLLI),
      (0b101#3, switch instr.funct6
        [(0b000000#6, instr.matchShift arch .SRLI), (0b010000#6, instr.matchShift arch .SRAI)]
        .UNDEF)] .UNDEF

/-- The cases of `OP_ADD`. -/
def decodeOpAdd (instr : Instruction) : Mapping :=
  switch instr.funct7
    [(0b0000000#7, switch instr.funct3
      [(0b000#3, instr.matchInstr .ADD), (0b001#3, instr.matchInstr .SLL),
        (0b010#3, instr.matchInstr .SLT), (0b011#3, instr.matchInstr .SLTU),
        (0b100#3, instr.matchInstr .XOR), (0b101#3, instr.matchInstr .SRL),
        (0b110#3, instr.matchInstr .OR), (0b111#3, instr.matchInstr .AND)] .UNDEF),
      (0b0100000#7, switch instr.funct3
        [(0b000#3, instr.matchInstr .SUB), (0b101#3, instr.matchInstr .SRA)] .UNDEF),
      (0b0000001#7, switch instr.funct3
        [(0b000#3, instr.matchInstr .MUL), (0b001#3, instr.matchInstr .MULH),
          (0b010#3, instr.matchInstr .MULHSU), (0b011#3, instr.matchInstr .MULHU),
          (0b100#3, instr.matchInstr .DIV), (0b101#3, instr.matchInstr .DIVU),
          (0b110#3, instr.matchInstr .REM), (0b111#3, instr.matchInstr .REMU)] .UNDEF)] .UNDEF

/-- The cases of `OP_ADDIW`. -/
def decodeOpAddiw (instr : Instruction) : Mapping :=
  switch instr.funct3
    [(0b000#3, instr.matchInstr .ADDIW), (0b001#3, instr.matchInstr .SLLIW),
      (0b101#3, switch instr.funct7
        [(0b0000000#7, instr.matchInstr .SRLIW), (0b0100000#7, instr.matchInstr .SRAIW)]
        .UNDEF)] .UNDEF

/-- The cases of `OP_ADDW`. -/
def decodeOpAddw (instr : Instruction) : Mapping :=
  switch instr.funct7
    [(0b0000000#7, switch instr.funct3
      [(0b000#3, instr.matchInstr .ADDW), (0b001#3, instr.matchInstr .SLLW),
        (0b101#3, instr.matchInstr .SRLW)] .UNDEF),
      (0b0100000#7, switch instr.funct3
        [(0b000#3, instr.matchInstr .SUBW), (0b101#3, instr.matchInstr .SRAW)] .UNDEF),
      (0b0000001#7, switch instr.funct3
        [(0b000#3, instr.matchInstr .MULW), (0b100#3, instr.matchInstr .DIVW),
          (0b101#3, instr.matchInstr .DIVUW), (0b110#3, instr.matchInstr .REMW),
          (0b111#3, instr.matchInstr .REMUW)] .UNDEF)] .UNDEF

/-- The cases of `OP_ECALL`. -/
def decodeOpEcall (instr : Instruction) : Mapping :=
  switch instr.funct3
    [(0b000#3, switch instr.funct12
      [(0b000000000000#12, instr.matchInstr .ECALL), (0b000000000001#12, instr.matchInstr .EBREAK),
        (0b000000000010#12, instr.matchInstr .URET), (0b000100000010#12, instr.matchInstr .SRET),
        (0b001100000010#12, instr.matchInstr .MRET), (0b000100000101#12, instr.matchInstr .WFI)]
      (instr.matchInstr .SFENCE_VMA)),
      (0b001#3, instr.matchInstr .CSRRW), (0b010#3, instr.matchInstr .CSRRS),
      (0b011#3, instr.matchInstr .CSRRC), (0b101#3, instr.matchInstr .CSRRWI),
      (0b110#3, instr.matchInstr .CSRRSI), (0b111#3, instr.matchInstr .CSRRCI)] .UNDEF

/-- The cases of `OP_AMO`. -/
def decodeOpAmo (instr : Instruction) : Mapping :=
  switch instr.funct5
    [(0b00010#5, instr.matchAmo .LR_W .LR_D), (0b00011#5, instr.matchAmo .SC_W .SC_D),
      (0b00001#5, instr.matchAmo .AMOSWAP_W .AMOSWAP_D),
      (0b00000#5, instr.matchAmo .AMOADD_W .AMOADD_D),
      (0b00100#5, instr.matchAmo .AMOXOR_W .AMOXOR_D),
      (0b01100#5, instr.matchAmo .AMOAND_W .AMOAND_D),
      (0b01000#5, instr.matchAmo .AMOOR_W .AMOOR_D),
      (0b10000#5, instr.matchAmo .AMOMIN_W .AMOMIN_D),
      (0b10100#5, instr.matchAmo .AMOMAX_W .AMOMAX_D),
      (0b11000#5, instr.matchAmo .AMOMINU_W .AMOMINU_D),
      (0b11100#5, instr.matchAmo .AMOMAXU_W .AMOMAXU_D)] .UNDEF

/-- The cases of `OP_FADD_S`. -/
def decodeOpFadd (instr : Instruction) : Mapping :=
  switch instr.funct7
    [(0b0000000#7, instr.matchInstr .FADD_S), (0b0000001#7, instr.matchInstr .FADD_D),
      (0b0000100#7, instr.matchInstr .FSUB_S), (0b0000101#7, instr.matchInstr .FSUB_D),
      (0b0100001#7, instr.matchInstr .FCVT_D_S), (0b0001000#7, instr.matchInstr .FMUL_S),
      (0b0001001#7, instr.matchInstr .FMUL_D), (0b0001100#7, instr.matchInstr .FDIV_S),
      (0b0001101#7, instr.matchInstr .FDIV_D),
      (0b1010000#7, switch instr.funct3
        [(0b000#3, instr.matchInstr .FLE_S), (0b001#3, instr.matchInstr .FLT_S),
          (0b010#3, instr.matchInstr .FEQ_S)] .UNDEF),
      (0b0010001#7, switch instr.funct3
        [(0b000#3, instr.matchInstr .FSGNJ_D), (0b001#3, instr.matchInstr .FSGNJN_D),
          (0b010#3, instr.matchInstr .FSGNJX_D)] .UNDEF),
      (0b0010100#7, switch instr.funct3
        [(0b000#3, instr.matchInstr .FMIN_S), (0b001#3, instr.matchInstr .FMAX_S)] .UNDEF),
      (0b0010101#7, switch instr.funct3
        [(0b000#3, instr.matchInstr .FMIN_D), (0b001#3, instr.matchInstr .FMAX_D)] .UNDEF),
      (0b0100000#7, instr.matchInstr .FCVT_S_D),
      (0b0010000#7, switch instr.funct3
        [(0b000#3, instr.matchInstr .FSGNJ_S), (0b001#3, instr.matchInstr .FSGNJN_S),
          (0b010#3, instr.matchInstr .FSGNJX_S)] .UNDEF),
      (0b1010001#7, switch instr.funct3
        [(0b000#3, instr.matchInstr .FLE_D), (0b001#3, instr.matchInstr .FLT_D),
          (0b010#3, instr.matchInstr .FEQ_D)] .UNDEF),
      (0b1101000#7, switch instr.rs2
        [(0b00000#5, instr.matchInstr .FCVT_S_W), (0b00001#5, instr.matchInstr .FCVT_S_WU),
          (0b00010#5, instr.matchInstr .FCVT_S_L), (0b00011#5, instr.matchInstr .FCVT_S_LU)]
        .UNDEF),
      (0b1101001#7, switch instr.rs2
        [(0b00000#5, instr.matchInstr .FCVT_D_W), (0b00001#5, instr.matchInstr .FCVT_D_WU),
          (0b00010#5, instr.matchInstr .FCVT_D_L), (0b00011#5, instr.matchInstr .FCVT_D_LU)]
        .UNDEF),
      (0b1100001#7, switch instr.rs2
        [(0b00000#5, instr.matchInstr .FCVT_W_D), (0b00001#5, instr.matchInstr .FCVT_WU_D),
          (0b00010#5, instr.matchInstr .FCVT_L_D), (0b00011#5, instr.matchInstr .FCVT_LU_D)]
        .UNDEF),
      (0b0101100#7, instr.matchInstr .FSQRT_S), (0b0101101#7, instr.matchInstr .FSQRT_D),
      (0b1100000#7, switch instr.rs2
        [(0b00000#5, instr.matchInstr .FCVT_W_S), (0b00001#5, instr.matchInstr .FCVT_WU_S),
          (0b00010#5, instr.matchInstr .FCVT_L_S), (0b00011#5, instr.matchInstr .FCVT_LU_S)]
        .UNDEF),
      (0b1110000#7, switch instr.funct3
        [(0b000#3, instr.matchInstr .FMV_X_W), (0b001#3, instr.matchInstr .FCLASS_S)] .UNDEF),
      (0b1110001#7, switch instr.funct3
        [(0b000#3, instr.matchInstr .FMV_X_D), (0b001#3, instr.matchInstr .FCLASS_D)] .UNDEF),
      (0b1111000#7, instr.matchInstr .FMV_W_X), (0b1111001#7, instr.matchInstr .FMV_D_X)] .UNDEF

/-- The fused multiply-add instructions, which a two-bit code tells apart. -/
def decodeFused (instr : Instruction) (single double : Mapping) : Mapping :=
  switch instr.funct2
    [(0b00#2, instr.matchInstr single), (0b01#2, instr.matchInstr double)] .UNDEF

def decodeNormal (instr : Instruction) (arch : Architecture) : Mapping :=
  switch instr.opcode
    [(0b0110111#7, instr.matchInstr .LUI), (0b0010111#7, instr.matchInstr .AUIPC),
      (0b1101111#7, instr.matchInstr .JAL), (0b1100111#7, instr.matchInstr .JALR),
      (0b1100011#7, switch instr.funct3
        [(0b000#3, instr.matchInstr .BEQ), (0b001#3, instr.matchInstr .BNE),
          (0b100#3, instr.matchInstr .BLT), (0b101#3, instr.matchInstr .BGE),
          (0b110#3, instr.matchInstr .BLTU), (0b111#3, instr.matchInstr .BGEU)] .UNDEF),
      (0b0000011#7, switch instr.funct3
        [(0b000#3, instr.matchInstr .LB), (0b001#3, instr.matchInstr .LH),
          (0b010#3, instr.matchInstr .LW), (0b100#3, instr.matchInstr .LBU),
          (0b101#3, instr.matchInstr .LHU), (0b110#3, instr.matchInstr .LWU),
          (0b011#3, instr.matchInstr .LD)] .UNDEF),
      (0b0100011#7, switch instr.funct3
        [(0b000#3, instr.matchInstr .SB), (0b001#3, instr.matchInstr .SH),
          (0b010#3, instr.matchInstr .SW), (0b011#3, instr.matchInstr .SD)] .UNDEF),
      (0b0010011#7, instr.decodeOpAddi arch), (0b0011011#7, instr.decodeOpAddiw),
      (0b0110011#7, instr.decodeOpAdd), (0b0111011#7, instr.decodeOpAddw),
      (0b0001111#7, switch instr.funct3
        [(0b000#3, instr.matchInstr .FENCE), (0b001#3, instr.matchInstr .FENCE_I)] .UNDEF),
      (0b1110011#7, instr.decodeOpEcall), (0b0101111#7, instr.decodeOpAmo),
      (0b1000011#7, instr.decodeFused .FMADD_S .FMADD_D), (0b1010011#7, instr.decodeOpFadd),
      (0b0000111#7, switch instr.funct3
        [(0b010#3, instr.matchInstr .FLW), (0b011#3, instr.matchInstr .FLD)] .UNDEF),
      (0b0100111#7, switch instr.funct3
        [(0b010#3, instr.matchInstr .FSW), (0b011#3, instr.matchInstr .FSD)] .UNDEF),
      (0b1000111#7, instr.decodeFused .FMSUB_S .FMSUB_D),
      (0b1001011#7, instr.decodeFused .FNMSUB_S .FNMSUB_D),
      (0b1001111#7, instr.decodeFused .FNMADD_S .FNMADD_D)] .UNDEF

end Instruction

/-! ## Compressed instructions -/

/-- `Compressed::Opcode`. -/
inductive Compressed where
  -- quadrant zero
  | C_Illegal | C_Reserved | C_ADDI4SPN | C_FLD | C_LQ | C_LW | C_FLW | C_LD
  | C_FSD | C_SQ | C_SW | C_FSW | C_SD
  -- quadrant one
  | C_NOP | C_ADDI | C_JAL | C_ADDIW | C_LI | C_ADDI16SP | C_LUI | C_SRLI | C_SRAI | C_ANDI
  | C_SUB | C_XOR | C_OR | C_AND | C_SUBW | C_ADDW | C_J | C_BEQZ | C_BNEZ
  -- quadrant two
  | C_SLLI | C_FLDSP | C_LQSP | C_LWSP | C_FLWSP | C_LDSP | C_JR | C_MV | C_EBREAK | C_JALR
  | C_ADD | C_FSDSP | C_SQSP | C_SWSP | C_FSWSP | C_SDSP
deriving DecidableEq

def C_ADDI4SPN_NZUIMM (n : BitVec 32) : BitVec 32 :=
  (bitSlice n 12 11 <<< 4) ||| (bitSlice n 10 7 <<< 6) ||| (bitSingleP1 n 6 <<< 2) |||
    (bitSingleP1 n 5 <<< 3)

def C_LW_UIMM (n : BitVec 32) : BitVec 32 :=
  (bitSlice n 12 10 <<< 3) ||| (bitSingleP1 n 6 <<< 2) ||| (bitSingleP1 n 5 <<< 6)

def C_LD_UIMM (n : BitVec 32) : BitVec 32 := (bitSlice n 12 10 <<< 3) ||| (bitSlice n 6 5 <<< 6)

def C_SW_UIMM (n : BitVec 32) : BitVec 32 := C_LW_UIMM n

def C_SD_UIMM (n : BitVec 32) : BitVec 32 := C_LD_UIMM n

def C_JAL_IMM (n : BitVec 32) : BitVec 32 :=
  extractSignBit n 12 11 ||| bitSinglePN n 11 4 ||| (bitSlice n 10 9 <<< 8) |||
    bitSinglePN n 8 10 ||| bitSinglePN n 7 6 ||| bitSinglePN n 6 7 ||| (bitSlice n 5 3 <<< 1) |||
    bitSinglePN n 2 5

def C_ADDI16SP_NZIMM (n : BitVec 32) : BitVec 32 :=
  extractSignBit n 12 9 ||| bitSinglePN n 6 4 ||| bitSinglePN n 5 6 ||| (bitSlice n 4 3 <<< 7) |||
    bitSinglePN n 2 5

def C_LUI_NZIMM (n : BitVec 32) : BitVec 32 := extractSignBit n 12 17 ||| (bitSlice n 6 2 <<< 12)

def C_J_IMM (n : BitVec 32) : BitVec 32 := C_JAL_IMM n

def C_BRANCH_IMM (n : BitVec 32) : BitVec 32 :=
  extractSignBit n 12 8 ||| (bitSlice n 11 10 <<< 3) ||| (bitSlice n 6 5 <<< 6) |||
    (bitSlice n 4 3 <<< 1) ||| bitSinglePN n 2 5

def C_LWSP_UIMM (n : BitVec 32) : BitVec 32 :=
  bitSinglePN n 12 5 ||| (bitSlice n 6 4 <<< 2) ||| (bitSlice n 3 2 <<< 6)

def C_SWSP_UIMM (n : BitVec 32) : BitVec 32 := (bitSlice n 12 9 <<< 2) ||| (bitSlice n 8 7 <<< 6)

def C_LDSP_UIMM (n : BitVec 32) : BitVec 32 :=
  bitSinglePN n 12 5 ||| (bitSlice n 6 5 <<< 3) ||| (bitSlice n 4 2 <<< 6)

def C_SDSP_UIMM (n : BitVec 32) : BitVec 32 := (bitSlice n 12 10 <<< 3) ||| (bitSlice n 9 7 <<< 6)

/-! `InstructionFactory`, by format. -/

namespace InstructionFactory

/-- The three register fields in their places. -/
def registers (rd rs1 rs2 : BitVec 5) : BitVec 32 :=
  (rd.setWidth 32 <<< 7) ||| (rs1.setWidth 32 <<< 15) ||| (rs2.setWidth 32 <<< 20)

/-- The format of the register-register instructions. -/
def formatR (rd rs1 rs2 : BitVec 5) (opcode funct3 funct7 : BitVec 32) : Instruction :=
  ⟨registers rd rs1 rs2 ||| opcode ||| (funct3 <<< 12) ||| (funct7 <<< 25)⟩

/-- The format of the register-immediate instructions and the loads. -/
def formatI (rd rs1 : BitVec 5) (imm opcode funct3 : BitVec 32) : Instruction :=
  ⟨((imm &&& 4095#32) <<< 20) ||| registers rd rs1 0 ||| opcode ||| (funct3 <<< 12)⟩

/-- The format of the stores. -/
def formatS (rs1 rs2 : BitVec 5) (imm opcode funct3 : BitVec 32) : Instruction :=
  ⟨(((imm &&& 0b11111#32) <<< 7) ||| ((imm &&& (0b1111111#32 <<< 5)) <<< 20)) |||
    registers 0 rs1 rs2 ||| opcode ||| (funct3 <<< 12)⟩

/-- The format of the branches. -/
def formatB (rs1 rs2 : BitVec 5) (imm opcode funct3 : BitVec 32) : Instruction :=
  ⟨((((imm &&& 0b11110#32) <<< 7) ||| (imm &&& (1#32 <<< 11)).sshiftRight 4) |||
    (((imm &&& (0b111111#32 <<< 5)) <<< 20) ||| ((imm &&& (1#32 <<< 12)) <<< 19))) |||
    registers 0 rs1 rs2 ||| opcode ||| (funct3 <<< 12)⟩

/-- The format of the shifts by an immediate. -/
def formatShift (rd rs1 : BitVec 5) (shamt opcode funct3 funct7 : BitVec 32) : Instruction :=
  ⟨registers rd rs1 0 ||| ((shamt &&& 63#32) <<< 20) ||| opcode ||| (funct3 <<< 12) |||
    (funct7 <<< 25)⟩

def ADD (rd rs1 rs2 : BitVec 5) : Instruction := formatR rd rs1 rs2 51#32 0#32 0#32
def AND (rd rs1 rs2 : BitVec 5) : Instruction := formatR rd rs1 rs2 51#32 7#32 0#32
def OR (rd rs1 rs2 : BitVec 5) : Instruction := formatR rd rs1 rs2 51#32 6#32 0#32
def XOR (rd rs1 rs2 : BitVec 5) : Instruction := formatR rd rs1 rs2 51#32 4#32 0#32
def SUB (rd rs1 rs2 : BitVec 5) : Instruction := formatR rd rs1 rs2 51#32 0#32 32#32
def ADDW (rd rs1 rs2 : BitVec 5) : Instruction := formatR rd rs1 rs2 0x3b#32 0#32 0#32
def SUBW (rd rs1 rs2 : BitVec 5) : Instruction := formatR rd rs1 rs2 0x3b#32 0#32 32#32
def LW (rd rs1 : BitVec 5) (imm : BitVec 32) : Instruction := formatI rd rs1 imm 3#32 2#32
def LD (rd rs1 : BitVec 5) (imm : BitVec 32) : Instruction := formatI rd rs1 imm 3#32 3#32
def FLW (rd rs1 : BitVec 5) (imm : BitVec 32) : Instruction := formatI rd rs1 imm 7#32 2#32
def FLD (rd rs1 : BitVec 5) (imm : BitVec 32) : Instruction := formatI rd rs1 imm 7#32 3#32
def ADDI (rd rs1 : BitVec 5) (imm : BitVec 32) : Instruction := formatI rd rs1 imm 19#32 0#32
def ANDI (rd rs1 : BitVec 5) (imm : BitVec 32) : Instruction := formatI rd rs1 imm 19#32 7#32
def JALR (rd rs1 : BitVec 5) (imm : BitVec 32) : Instruction := formatI rd rs1 imm 103#32 0#32
def SW (rs1 rs2 : BitVec 5) (imm : BitVec 32) : Instruction := formatS rs1 rs2 imm 35#32 2#32
def SD (rs1 rs2 : BitVec 5) (imm : BitVec 32) : Instruction := formatS rs1 rs2 imm 35#32 3#32
def FSW (rs1 rs2 : BitVec 5) (imm : BitVec 32) : Instruction := formatS rs1 rs2 imm 39#32 2#32
def FSD (rs1 rs2 : BitVec 5) (imm : BitVec 32) : Instruction := formatS rs1 rs2 imm 39#32 3#32
def BEQ (rs1 rs2 : BitVec 5) (imm : BitVec 32) : Instruction := formatB rs1 rs2 imm 99#32 0#32
def BNE (rs1 rs2 : BitVec 5) (imm : BitVec 32) : Instruction := formatB rs1 rs2 imm 99#32 1#32

def SRLI (rd rs1 : BitVec 5) (shamt : BitVec 32) : Instruction :=
  formatShift rd rs1 shamt 19#32 5#32 0#32

def SRAI (rd rs1 : BitVec 5) (shamt : BitVec 32) : Instruction :=
  formatShift rd rs1 shamt 19#32 5#32 32#32

def SLLI (rd rs1 : BitVec 5) (shamt : BitVec 32) : Instruction :=
  formatShift rd rs1 shamt 19#32 1#32 0#32

def LUI (rd : BitVec 5) (imm : BitVec 32) : Instruction :=
  ⟨(imm &&& (1048575#32 <<< 12)) ||| (rd.setWidth 32 <<< 7) ||| 55#32⟩

def JAL (rd : BitVec 5) (imm : BitVec 32) : Instruction :=
  ⟨111#32 ||| (rd.setWidth 32 <<< 7) |||
    ((imm &&& (0b11111111#32 <<< 12)) ||| ((imm &&& (1#32 <<< 11)) <<< 9) |||
      ((imm &&& 0b11111111110#32) <<< 20) ||| ((imm &&& (1#32 <<< 20)) <<< 11))⟩

def EBREAK : Instruction := ⟨1048691#32⟩

end InstructionFactory

namespace Instruction

/-- `decode_compressed`. -/
def decodeCompressed (instr : Instruction) (arch : Architecture) : Except String Compressed :=
  switch instr.quadrant
    [(0#2, .ok (switch instr.cOpcode
      [(0b000#3, if instr.cFormat = 0#16 then .C_Illegal else .C_ADDI4SPN), (0b001#3, .C_FLD),
        (0b010#3, .C_LW), (0b011#3, if arch = .RV32 then .C_FLW else .C_LD),
        (0b100#3, .C_Reserved), (0b101#3, .C_FSD), (0b110#3, .C_SW),
        (0b111#3, if arch = .RV32 then .C_FSW else .C_SD)] .C_Illegal)),
      (1#2, .ok (switch instr.cOpcode
        [(0b000#3, if instr.cFormat = 1#16 then .C_NOP else .C_ADDI),
          (0b001#3, if arch = .RV32 then .C_JAL else .C_ADDIW), (0b010#3, .C_LI),
          (0b011#3, if instr.cRd = 2#5 then .C_ADDI16SP else .C_LUI),
          (0b100#3, switch instr.cF2High
            [(0b00#2, .C_SRLI), (0b01#2, .C_SRAI), (0b10#2, .C_ANDI),
              (0b11#2, if instr.cB12 ≠ 0#1 then
                  switch instr.cF2Low [(0b00#2, .C_SUBW), (0b01#2, .C_ADDW)] .C_Reserved
                else switch instr.cF2Low
                  [(0b00#2, .C_SUB), (0b01#2, .C_XOR), (0b10#2, .C_OR), (0b11#2, .C_AND)]
                  .C_Illegal)] .C_Illegal),
          (0b101#3, .C_J), (0b110#3, .C_BEQZ), (0b111#3, .C_BNEZ)] .C_Illegal)),
      (2#2, .ok (switch instr.cOpcode
        [(0b000#3, .C_SLLI), (0b001#3, .C_FLDSP), (0b010#3, .C_LWSP),
          (0b011#3, if arch = .RV32 then .C_FLWSP else .C_LDSP),
          (0b100#3, if instr.cB12 ≠ 0#1 then
              if instr.cRd ≠ 0#5 then if instr.cRs2 ≠ 0#5 then .C_ADD else .C_JALR else .C_EBREAK
            else if instr.cRs2 ≠ 0#5 then .C_MV else .C_JR),
          (0b101#3, .C_FSDSP), (0b110#3, .C_SWSP),
          (0b111#3, if arch = .RV32 then .C_FSWSP else .C_SDSP)] .C_Illegal))]
    (.error "compressed instruction expected, but uncompressed found")

open InstructionFactory in
/-- `expand_compressed`: the instruction that takes the place of a compressed one, and its
operation. -/
def expandCompressed (instr : Instruction) (op : Compressed) (arch : Architecture) :
    Instruction × Mapping :=
  match op with
  | .C_Illegal | .C_LQ | .C_LQSP | .C_SQ | .C_SQSP | .C_Reserved => (instr, .UNDEF)
  | .C_NOP => (ADD 0 0 0, .ADD)
  | .C_ADD => (ADD instr.cRd instr.cRd instr.cRs2, .ADD)
  | .C_MV => (ADD instr.cRd 0 instr.cRs2, .ADD)
  | .C_AND => (AND instr.cRdSmall instr.cRdSmall instr.cRs2Small, .AND)
  | .C_OR => (OR instr.cRdSmall instr.cRdSmall instr.cRs2Small, .OR)
  | .C_XOR => (XOR instr.cRdSmall instr.cRdSmall instr.cRs2Small, .XOR)
  | .C_SUB => (SUB instr.cRdSmall instr.cRdSmall instr.cRs2Small, .SUB)
  | .C_ADDW => (ADDW instr.cRdSmall instr.cRdSmall instr.cRs2Small, .ADDW)
  | .C_SUBW => (SUBW instr.cRdSmall instr.cRdSmall instr.cRs2Small, .SUBW)
  | .C_LW => (LW instr.cRs2Small instr.cRdSmall (C_LW_UIMM instr.data), .LW)
  | .C_LD => (LD instr.cRs2Small instr.cRdSmall (C_LD_UIMM instr.data), .LD)
  | .C_FLW => (FLW instr.cRs2Small instr.cRdSmall (C_LW_UIMM instr.data), .FLW)
  | .C_FLD => (FLD instr.cRs2Small instr.cRdSmall (C_LD_UIMM instr.data), .FLD)
  | .C_SW => (SW instr.cRdSmall instr.cRs2Small (C_SW_UIMM instr.data), .SW)
  | .C_SD => (SD instr.cRdSmall instr.cRs2Small (C_SD_UIMM instr.data), .SD)
  | .C_FSW => (FSW instr.cRdSmall instr.cRs2Small (C_SW_UIMM instr.data), .FSW)
  | .C_FSD => (FSD instr.cRdSmall instr.cRs2Small (C_SD_UIMM instr.data), .FSD)
  | .C_ADDI4SPN =>
    let n := C_ADDI4SPN_NZUIMM instr.data
    if n = 0#32 then (instr, .UNDEF) else (ADDI instr.cRs2Small 2 n, .ADDI)
  | .C_ADDI => (ADDI instr.cRd instr.cRd instr.cImm, .ADDI)
  | .C_JAL => (JAL 1 (C_JAL_IMM instr.data), .JAL)
  | .C_ADDIW =>
    if instr.cRd = 0#5 then (instr, .UNDEF) else (ADDI instr.cRd instr.cRd instr.cImm, .ADDIW)
  | .C_LI => (ADDI instr.cRd 0 instr.cImm, .ADDI)
  | .C_ADDI16SP =>
    let n := C_ADDI16SP_NZIMM instr.data
    if n = 0#32 then (instr, .UNDEF) else (ADDI 2 2 n, .ADDI)
  | .C_LUI =>
    let n := C_LUI_NZIMM instr.data
    if n = 0#32 then (instr, .UNDEF) else (LUI instr.cRd n, .LUI)
  | .C_SLLI =>
    let n := instr.cUimm
    if arch = .RV32 ∧ n > 31#32 then (instr, .UNDEF) else (SLLI instr.cRd instr.cRd n, .SLLI)
  | .C_SRLI =>
    let n := instr.cUimm
    if arch = .RV32 ∧ n > 31#32 then (instr, .UNDEF)
    else (SRLI instr.cRdSmall instr.cRdSmall n, .SRLI)
  | .C_SRAI =>
    let n := instr.cUimm
    if arch = .RV32 ∧ n > 31#32 then (instr, .UNDEF)
    else (SRAI instr.cRdSmall instr.cRdSmall n, .SRAI)
  | .C_ANDI => (ANDI instr.cRdSmall instr.cRdSmall instr.cImm, .ANDI)
  | .C_J => (JAL 0 (C_J_IMM instr.data), .JAL)
  | .C_BEQZ => (BEQ instr.cRdSmall 0 (C_BRANCH_IMM instr.data), .BEQ)
  | .C_BNEZ => (BNE instr.cRdSmall 0 (C_BRANCH_IMM instr.data), .BNE)
  | .C_LWSP =>
    if instr.cRd = 0#5 then (instr, .UNDEF)
    else (LW instr.cRd 2 (C_LWSP_UIMM instr.data), .LW)
  | .C_LDSP =>
    if instr.cRd = 0#5 then (instr, .UNDEF)
    else (LD instr.cRd 2 (C_LDSP_UIMM instr.data), .LD)
  | .C_FLWSP => (FLW instr.cRd 2 (C_LWSP_UIMM instr.data), .FLW)
  | .C_FLDSP => (FLD instr.cRd 2 (C_LDSP_UIMM instr.data), .FLD)
  | .C_SWSP => (SW 2 instr.cRs2 (C_SWSP_UIMM instr.data), .SW)
  | .C_SDSP => (SD 2 instr.cRs2 (C_SDSP_UIMM instr.data), .SD)
  | .C_FSWSP => (FSW 2 instr.cRs2 (C_SWSP_UIMM instr.data), .FSW)
  | .C_FSDSP => (FSD 2 instr.cRs2 (C_SDSP_UIMM instr.data), .FSD)
  | .C_EBREAK => (EBREAK, .EBREAK)
  | .C_JR => if instr.cRd = 0#5 then (instr, .UNDEF) else (JALR 0 instr.cRd 0, .JALR)
  | .C_JALR => (JALR 1 instr.cRd 0, .JALR)

def decodeAndExpandCompressed (instr : Instruction) (arch : Architecture) :
    Except String (Instruction × Mapping) := do
  let op ← instr.decodeCompressed arch
  return instr.expandCompressed op arch

/-! ## What is decoded -/

/-- The mask that `decode_normal` compares a word under. -/
def decodeMask (arch : Architecture) (m : Mapping) : BitVec 32 :=
  if arch = .RV32 ∧ m ∈ [.SLLI, .SRLI, .SRAI] then 0xfe00707f#32 else m.mask

/-- A word carries the encoding of an operation. -/
def Carries (instr : Instruction) (arch : Architecture) (m : Mapping) : Prop :=
  m ≠ .UNDEF → instr.data &&& decodeMask arch m = m.encoding

variable {instr : Instruction} {arch : Architecture}

theorem carries_undef : Carries instr arch .UNDEF := fun h => (h rfl).elim

variable {m : Mapping}

theorem carries_matchInstr (hm : m ∉ [.SLLI, .SRLI, .SRAI]) :
    Carries instr arch (instr.matchInstr m) := by
  unfold matchInstr matchAndReturn
  split
  · exact carries_undef
  · next h =>
    intro _
    rw [decodeMask, if_neg fun hand => hm hand.2]
    exact not_not.mp h

theorem carries_matchShift (hm : m ∈ [.SLLI, .SRLI, .SRAI]) :
    Carries instr arch (instr.matchShift arch m) := by
  unfold matchShift matchInstr matchAndReturn
  by_cases harch : arch = .RV32
  · rw [if_pos harch]
    split
    · exact carries_undef
    · next h =>
      intro _
      rw [decodeMask, if_pos ⟨harch, hm⟩]
      exact not_not.mp h
  · rw [if_neg harch]
    split
    · exact carries_undef
    · next h =>
      intro _
      rw [decodeMask, if_neg fun hand => harch hand.1]
      exact not_not.mp h

/-- A word that is decoded carries the encoding of its operation. -/
theorem carries_decodeNormal (instr : Instruction) (arch : Architecture) :
    Carries instr arch (instr.decodeNormal arch) := by
  unfold decodeNormal decodeOpAddi decodeOpAdd decodeOpAddiw decodeOpAddw decodeOpEcall decodeOpAmo
    decodeOpFadd decodeFused matchAmo
  repeat' first
    | with_reducible exact carries_undef
    | with_reducible exact carries_matchInstr (by decide)
    | with_reducible exact carries_matchShift (by decide)
    | refine switch_induction (fun _ => ?_) (List.forall_mem_cons.mpr ⟨fun _ => ?_, ?_⟩)
    | refine List.forall_mem_cons.mpr ⟨fun _ => ?_, ?_⟩
    | exact fun _ h => (List.not_mem_nil h).elim
    | split

/-- With bit 25 clear a shift amount has five bits. -/
theorem shamt_eq_of_getElem (h : instr.data[25] = false) :
    instr.shamt = (instr.data.extractLsb' 20 5).setWidth 32 := by
  rw [shamt_eq]
  refine BitVec.eq_of_getLsbD_eq fun i hi => ?_
  simp only [BitVec.getLsbD_setWidth, BitVec.getLsbD_extractLsb']
  rcases Nat.lt_trichotomy i 5 with hlt | rfl | hgt
  · simp [hlt, Nat.lt_succ_of_lt hlt]
  · simp [h]
  · simp [show ¬ i < 6 by omega, show ¬ i < 5 by omega]

/-- A shift that `decode_normal` accepts on RV32 has a shift amount of five bits. -/
theorem getElem_decodeNormal (h : instr.decodeNormal .RV32 ∈ [.SLLI, .SRLI, .SRAI]) :
    instr.data[25] = false := by
  have hne : instr.decodeNormal .RV32 ≠ .UNDEF := by
    intro he
    simp [he] at h
  have hcarries := carries_decodeNormal instr .RV32 hne
  rw [decodeMask, if_pos ⟨rfl, h⟩] at hcarries
  have hbit := congrArg (fun word : BitVec 32 => word[25]) hcarries
  have hencoding : ∀ m ∈ [Mapping.SLLI, .SRLI, .SRAI], m.encoding[25] = false := by decide
  simpa [hencoding _ h] using hbit

theorem getElem_formatShift (rd rs1 : BitVec 5) {n opcode funct3 funct7 : BitVec 32}
    (hn : ¬ n > 31#32) (hcodes : (opcode ||| (funct3 <<< 12) ||| (funct7 <<< 25))[25] = false) :
    (InstructionFactory.formatShift rd rs1 n opcode funct3 funct7).data[25] = false := by
  have hbit : n[5] = false := by
    have hlt : n.toNat < 2 ^ 5 := by
      simp only [gt_iff_lt, BitVec.lt_def, not_lt] at hn
      exact Nat.lt_succ_of_le hn
    have := Nat.testBit_lt_two_pow hlt
    simpa [← BitVec.getLsbD_eq_getElem, BitVec.getLsbD] using this
  simp_all [InstructionFactory.formatShift, InstructionFactory.registers]

/-- So has one that `expand_compressed` builds on RV32. -/
theorem getElem_expandCompressed {op : Compressed} {expanded : Instruction}
    (h : instr.expandCompressed op .RV32 = (expanded, m)) (hm : m ∈ [Mapping.SLLI, .SRLI, .SRAI]) :
    expanded.data[25] = false := by
  cases op with
  | C_SLLI | C_SRLI | C_SRAI =>
    simp only [expandCompressed, true_and] at h
    split at h
    · cases h
      simp at hm
    · next hn =>
      cases h
      exact getElem_formatShift _ _ hn (by decide)
  | C_ADDI4SPN | C_ADDIW | C_ADDI16SP | C_LUI | C_LWSP | C_LDSP | C_JR =>
    simp only [expandCompressed] at h
    split at h <;> cases h <;> simp at hm
  | _ =>
    cases h
    simp at hm

end Instruction

end SpsVp.Rv32
