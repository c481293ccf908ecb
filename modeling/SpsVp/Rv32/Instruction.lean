import Mathlib.Tactic.IntervalCases
import Mathlib.Data.BitVec

/-!
# Instruction words

`Instruction` of `core/common/instr.h`: the fields of an instruction word and the immediates of the
instruction formats. Register numbers and function codes are as wide as their field. The immediates
are 32-bit words built by the shifts of the source, whose operand is signed, so a right shift fills
with the sign.
-/

namespace SpsVp.Rv32

open BitVec

/-! ## Bit macros -/

/-- `BIT_RANGE`: the bits `lower` to `upper`, in place. -/
def bitRange (instr : BitVec 32) (upper lower : Nat) : BitVec 32 :=
  instr &&& (((1#32 <<< (upper - lower + 1)) - 1#32) <<< lower)

/-- `BIT_SLICE`. -/
def bitSlice (instr : BitVec 32) (upper lower : Nat) : BitVec 32 :=
  bitRange instr upper lower >>> lower

/-- `BIT_SINGLE`. -/
def bitSingle (instr : BitVec 32) (pos : Nat) : BitVec 32 := instr &&& (1#32 <<< pos)

/-- `BIT_SINGLE_P1`. -/
def bitSingleP1 (instr : BitVec 32) (pos : Nat) : BitVec 32 := bitSingle instr pos >>> pos

/-- `BIT_SINGLE_PN`. -/
def bitSinglePN (instr : BitVec 32) (pos newPos : Nat) : BitVec 32 :=
  (bitSingle instr pos >>> pos) <<< newPos

/-- `EXTRACT_SIGN_BIT`. -/
def extractSignBit (instr : BitVec 32) (pos newPos : Nat) : BitVec 32 :=
  (bitSingleP1 instr pos <<< 31).sshiftRight (31 - newPos)

/-! ## Fields -/

/-- An instruction word. -/
structure Instruction where
  data : BitVec 32
deriving DecidableEq

namespace Instruction

variable (instr : Instruction)

def quadrant : BitVec 2 := instr.data.extractLsb' 0 2
def isCompressed : Bool := instr.quadrant.toNat < 3
def cFormat : BitVec 16 := instr.data.extractLsb' 0 16
def cOpcode : BitVec 3 := instr.data.extractLsb' 13 3
def cB12 : BitVec 1 := instr.data.extractLsb' 12 1
def cF2High : BitVec 2 := instr.data.extractLsb' 10 2
def cF2Low : BitVec 2 := instr.data.extractLsb' 5 2
def cRs2 : BitVec 5 := instr.data.extractLsb' 2 5
def cRdSmall : BitVec 5 := (instr.data.extractLsb' 7 3).setWidth 5 ||| 8#5
def cRs2Small : BitVec 5 := (instr.data.extractLsb' 2 3).setWidth 5 ||| 8#5

def opcode : BitVec 7 := instr.data.extractLsb' 0 7
def funct2 : BitVec 2 := instr.data.extractLsb' 25 2
def funct3 : BitVec 3 := instr.data.extractLsb' 12 3
def funct5 : BitVec 5 := instr.data.extractLsb' 27 5
def funct6 : BitVec 6 := instr.data.extractLsb' 26 6
def funct7 : BitVec 7 := instr.data.extractLsb' 25 7
def funct12 : BitVec 12 := instr.data.extractLsb' 20 12
def csr : BitVec 12 := instr.data.extractLsb' 20 12
def rd : BitVec 5 := instr.data.extractLsb' 7 5
def rs1 : BitVec 5 := instr.data.extractLsb' 15 5
def rs2 : BitVec 5 := instr.data.extractLsb' 20 5

/-- `c_rd` is `rd`. -/
def cRd : BitVec 5 := instr.rd

/-! ## Immediates -/

def cImm : BitVec 32 := bitSlice instr.data 6 2 ||| extractSignBit instr.data 12 5
def cUimm : BitVec 32 := bitSlice instr.data 6 2 ||| (bitSingleP1 instr.data 12 <<< 5)

def zimm : BitVec 32 := bitRange instr.data 19 15 >>> 15

/-- `shamt`, six bits wide for the sake of RV64. -/
def shamt : BitVec 32 := bitRange instr.data 25 20 >>> 20

def jImm : BitVec 32 :=
  (bitSingle instr.data 31).sshiftRight 11 ||| bitRange instr.data 19 12 |||
    (bitSingle instr.data 20).sshiftRight 9 ||| (bitRange instr.data 30 21).sshiftRight 20

def iImm : BitVec 32 := (bitRange instr.data 31 20).sshiftRight 20

def sImm : BitVec 32 :=
  (bitRange instr.data 31 25).sshiftRight 20 ||| (bitRange instr.data 11 7).sshiftRight 7

def bImm : BitVec 32 :=
  (bitSingle instr.data 31).sshiftRight 19 ||| (bitSingle instr.data 7 <<< 4) |||
    (bitRange instr.data 30 25).sshiftRight 20 ||| (bitRange instr.data 11 8).sshiftRight 7

def uImm : BitVec 32 := bitRange instr.data 31 12

/-! ## The immediates as the formats define them -/

theorem iImm_eq : instr.iImm = (instr.data.extractLsb' 20 12).signExtend 32 := by
  refine eq_of_getLsbD_eq fun i hi => ?_
  simp only [iImm, bitRange, getLsbD_sshiftRight, getLsbD_signExtend,
    msb_eq_getLsbD_last, getLsbD_and, getLsbD_extractLsb']
  interval_cases i <;> simp

theorem sImm_eq : instr.sImm =
    (instr.data.extractLsb' 25 7 ++ instr.data.extractLsb' 7 5).signExtend 32 := by
  refine eq_of_getLsbD_eq fun i hi => ?_
  simp only [sImm, bitRange, getLsbD_sshiftRight, getLsbD_signExtend,
    msb_eq_getLsbD_last, getLsbD_and, getLsbD_or, getLsbD_append,
    getLsbD_extractLsb']
  interval_cases i <;> simp

theorem bImm_eq : instr.bImm =
    (instr.data.extractLsb' 31 1 ++ instr.data.extractLsb' 7 1 ++ instr.data.extractLsb' 25 6 ++
      instr.data.extractLsb' 8 4 ++ 0#1).signExtend 32 := by
  refine eq_of_getLsbD_eq fun i hi => ?_
  simp only [bImm, bitRange, bitSingle, getLsbD_sshiftRight, getLsbD_signExtend,
    msb_eq_getLsbD_last, getLsbD_and, getLsbD_or, getLsbD_append,
    getLsbD_extractLsb', getLsbD_shiftLeft]
  interval_cases i <;> simp

theorem jImm_eq : instr.jImm =
    (instr.data.extractLsb' 31 1 ++ instr.data.extractLsb' 12 8 ++ instr.data.extractLsb' 20 1 ++
      instr.data.extractLsb' 21 10 ++ 0#1).signExtend 32 := by
  refine eq_of_getLsbD_eq fun i hi => ?_
  simp only [jImm, bitRange, bitSingle, getLsbD_sshiftRight, getLsbD_signExtend,
    msb_eq_getLsbD_last, getLsbD_and, getLsbD_or, getLsbD_append,
    getLsbD_extractLsb', getLsbD_shiftLeft]
  interval_cases i <;> simp

theorem uImm_eq : instr.uImm = instr.data.extractLsb' 12 20 ++ 0#12 := by
  refine eq_of_getLsbD_eq fun i hi => ?_
  simp only [uImm, bitRange, getLsbD_and, getLsbD_append, getLsbD_extractLsb']
  interval_cases i <;> simp

theorem shamt_eq : instr.shamt = (instr.data.extractLsb' 20 6).setWidth 32 := by
  refine eq_of_getLsbD_eq fun i hi => ?_
  simp only [shamt, bitRange, getLsbD_and, getLsbD_setWidth,
    getLsbD_extractLsb', getLsbD_ushiftRight]
  interval_cases i <;> simp

end Instruction

end SpsVp.Rv32
