import Mathlib.Logic.Function.Basic
import SpsVp.Lib.Effect

/-!
# Control and status registers

The tables of `core/rv32/csr.h`: the registers of `csr_table`, their bit fields, the masks under
which they are read and written, and the addresses that `register_mapping` gives them. A 64-bit
counter is a pair of words, as the union in the source has it.
-/

namespace SpsVp.Rv32

open Lib

/-- The 32-bit words of `csr_table`. -/
inductive Csr where
  | cycle | cycleh | time | timeh | instret | instreth
  | mvendorid | marchid | mimpid | mhartid
  | mstatus | misa | medeleg | mideleg | mie | mtvec | mcounteren | mcountinhibit
  | mscratch | mepc | mcause | mtval | mip
  | pmpaddr (i : Fin 16) | pmpcfg (i : Fin 4)
  | sedeleg | sideleg | stvec | scounteren | sscratch | sepc | scause | stval | satp
  | utvec | uscratch | uepc | ucause | utval
  | fcsr
deriving DecidableEq

/-- `csr_table`. -/
abbrev CsrTable := Csr → BitVec 32

namespace CsrTable

def set (t : CsrTable) (csr : Csr) (value : BitVec 32) : CsrTable := Function.update t csr value

@[simp] theorem set_same (t : CsrTable) (csr : Csr) (value : BitVec 32) :
    t.set csr value csr = value :=
  Function.update_self ..

@[simp] theorem set_of_ne {csr other : Csr} (h : other ≠ csr) (t : CsrTable) (value : BitVec 32) :
    t.set csr value other = t other :=
  Function.update_of_ne h ..

/-- A 64-bit counter. -/
def get64 (t : CsrTable) (low high : Csr) : BitVec 64 := t high ++ t low

def set64 (t : CsrTable) (low high : Csr) (value : BitVec 64) : CsrTable :=
  (t.set low (value.extractLsb' 0 32)).set high (value.extractLsb' 32 32)

/-- The write of a register under a mask. -/
def setMasked (t : CsrTable) (csr : Csr) (mask value : BitVec 32) : CsrTable :=
  t.set csr ((t csr &&& ~~~mask) ||| (value &&& mask))

/-- Assignment to a bit field. -/
def setField {w : Nat} (t : CsrTable) (csr : Csr) (lo : Nat) (value : BitVec w) : CsrTable :=
  t.setMasked csr ((BitVec.allOnes w).setWidth 32 <<< lo) (value.setWidth 32 <<< lo)

theorem setMasked_same (t : CsrTable) (csr : Csr) (mask value : BitVec 32) :
    t.setMasked csr mask value csr = (t csr &&& ~~~mask) ||| (value &&& mask) :=
  set_same ..

theorem setMasked_of_ne {csr other : Csr} (h : other ≠ csr) (t : CsrTable)
    (mask value : BitVec 32) :
    t.setMasked csr mask value other = t other :=
  set_of_ne h ..

/-- A register after a masked write, bit by bit. -/
theorem getLsbD_setMasked (t : CsrTable) (csr : Csr) (mask value : BitVec 32) (i : Nat) :
    (t.setMasked csr mask value csr).getLsbD i =
      if mask.getLsbD i then value.getLsbD i else (t csr).getLsbD i := by
  rw [setMasked_same, BitVec.getLsbD_or, BitVec.getLsbD_and, BitVec.getLsbD_and, BitVec.getLsbD_not]
  by_cases hi : i < 32
  · cases mask.getLsbD i <;> simp [hi]
  · have hge : ∀ x : BitVec 32, x.getLsbD i = false := fun x =>
      BitVec.getLsbD_of_ge x i (by omega)
    simp [hge]

theorem setField_of_ne {w : Nat} {csr other : Csr} (h : other ≠ csr) (t : CsrTable) (lo : Nat)
    (value : BitVec w) : t.setField csr lo value other = t other :=
  setMasked_of_ne h ..

/-- A register after an assignment to a field, bit by bit. -/
theorem getLsbD_setField {w lo : Nat} (h : lo + w ≤ 32) (t : CsrTable) (csr : Csr)
    (value : BitVec w) (i : Nat) :
    (t.setField csr lo value csr).getLsbD i =
      if lo ≤ i ∧ i < lo + w then value.getLsbD (i - lo) else (t csr).getLsbD i := by
  have hmask : ((BitVec.allOnes w).setWidth 32 <<< lo).getLsbD i = true ↔ lo ≤ i ∧ i < lo + w := by
    simp only [BitVec.getLsbD_shiftLeft, BitVec.getLsbD_setWidth, BitVec.getLsbD_allOnes]
    simp
    omega
  rw [setField, getLsbD_setMasked]
  by_cases hi : lo ≤ i ∧ i < lo + w
  · rw [if_pos (hmask.mpr hi), if_pos hi, BitVec.getLsbD_shiftLeft, BitVec.getLsbD_setWidth,
      decide_eq_true (by omega), decide_eq_false (by omega), decide_eq_true (by omega)]
    rfl
  · rw [if_neg fun hm => hi (hmask.mp hm), if_neg hi]

/-- A field of one bit. -/
theorem getLsbD_setField_one {lo : Nat} (h : lo < 32) (t : CsrTable) (csr : Csr) (value : BitVec 1)
    (i : Nat) : (t.setField csr lo value csr).getLsbD i =
      if i = lo then value.getLsbD 0 else (t csr).getLsbD i := by
  rw [getLsbD_setField h]
  by_cases hi : i = lo
  · rw [if_pos (by omega), if_pos hi, hi, Nat.sub_self]
  · rw [if_neg (by omega), if_neg hi]

/-! ## Bit fields -/

variable (t : CsrTable)

def hasExtension (mask : BitVec 32) : Bool := t .misa &&& mask ≠ 0#32

/-- The bits of `misa`. -/
abbrev A_ISA_EXT : BitVec 32 := 1#32
abbrev C_ISA_EXT : BitVec 32 := 1#32 <<< 2
abbrev E_BASE_ISA : BitVec 32 := 1#32 <<< 4
abbrev F_ISA_EXT : BitVec 32 := 1#32 <<< 5
abbrev I_BASE_ISA : BitVec 32 := 1#32 <<< 8
abbrev M_ISA_EXT : BitVec 32 := 1#32 <<< 12
abbrev S_MODE_EXT : BitVec 32 := 1#32 <<< 18
abbrev U_MODE_EXT : BitVec 32 := 1#32 <<< 20

def hasCExtension : Bool := t.hasExtension C_ISA_EXT
def hasEBaseIsa : Bool := t.hasExtension E_BASE_ISA
def hasUserModeExtension : Bool := t.hasExtension U_MODE_EXT
def hasSupervisorModeExtension : Bool := t.hasExtension S_MODE_EXT

/-- One bit of a register, as a condition. -/
def bit (csr : Csr) (i : Nat) : Bool := (t csr).getLsbD i

/-- `mstatus.mpp`. -/
def mpp : BitVec 2 := (t .mstatus).extractLsb' 11 2

/-- `mcause.exception_code` and its likes. -/
def exceptionCode (csr : Csr) : BitVec 31 := (t csr).extractLsb' 0 31

/-- `get_base_address` of a trap vector. -/
def getBaseAddress (csr : Csr) : BitVec 32 := (t csr).extractLsb' 2 30 ++ 0#2

/-- The field `mode` of a trap vector is `Vectored`. -/
def isVectored (csr : Csr) : Bool := (t csr).extractLsb' 0 2 = 1#2

/-- `misa` after `csr_misa::init`: RV32 with `IMACF` and `NUS`. -/
def misaInit : BitVec 32 := 0x40143125#32

/-- A table as it is constructed. -/
def init (hartId : BitVec 32) (useEBaseIsa : Bool) : CsrTable
  | .mhartid => hartId
  | .misa => if useEBaseIsa then (misaInit &&& ~~~I_BASE_ISA) ||| E_BASE_ISA else misaInit
  | _ => 0#32

end CsrTable

/-! ## Masks -/

abbrev MIE_MASK : BitVec 32 := 0b101110111011#32
abbrev SIE_MASK : BitVec 32 := 0b001100110011#32
abbrev UIE_MASK : BitVec 32 := 0b000100010001#32
abbrev MIP_WRITE_MASK : BitVec 32 := 0b001100110011#32
abbrev MIP_READ_MASK : BitVec 32 := MIE_MASK
abbrev SIP_MASK : BitVec 32 := 0b11#32
abbrev UIP_MASK : BitVec 32 := 0b1#32
abbrev MEDELEG_MASK : BitVec 32 := 0b1011101111111111#32
abbrev MIDELEG_MASK : BitVec 32 := MIE_MASK
abbrev MTVEC_MASK : BitVec 32 := ~~~2#32
abbrev MCOUNTEREN_MASK : BitVec 32 := 0b111#32
abbrev MCOUNTINHIBIT_MASK : BitVec 32 := 0b101#32
abbrev SEDELEG_MASK : BitVec 32 := 0b1011000111111111#32
abbrev SIDELEG_MASK : BitVec 32 := MIDELEG_MASK
abbrev MSTATUS_MASK : BitVec 32 := 0b10000000011111111111100110111011#32
abbrev SSTATUS_MASK : BitVec 32 := 0b10000000000011011110000100110011#32
abbrev USTATUS_MASK : BitVec 32 := 0b00000000000000000000000000010001#32
abbrev SATP_MASK : BitVec 32 := 0b10000000001111111111111111111111#32
abbrev FCSR_MASK : BitVec 32 := 0b11111111#32

/-! ## Addresses -/

-- 64 bit timer csrs
abbrev CYCLE_ADDR : BitVec 12 := 0xc00#12
abbrev CYCLEH_ADDR : BitVec 12 := 0xc80#12
abbrev TIME_ADDR : BitVec 12 := 0xc01#12
abbrev TIMEH_ADDR : BitVec 12 := 0xc81#12
abbrev INSTRET_ADDR : BitVec 12 := 0xc02#12
abbrev INSTRETH_ADDR : BitVec 12 := 0xc82#12

-- shadows for the above CSRs
abbrev MCYCLE_ADDR : BitVec 12 := 0xb00#12
abbrev MCYCLEH_ADDR : BitVec 12 := 0xb80#12
abbrev MTIME_ADDR : BitVec 12 := 0xb01#12
abbrev MTIMEH_ADDR : BitVec 12 := 0xb81#12
abbrev MINSTRET_ADDR : BitVec 12 := 0xb02#12
abbrev MINSTRETH_ADDR : BitVec 12 := 0xb82#12

-- debug CSRs
abbrev TSELECT_ADDR : BitVec 12 := 0x7a0#12
abbrev TDATA1_ADDR : BitVec 12 := 0x7a1#12
abbrev TDATA2_ADDR : BitVec 12 := 0x7a2#12
abbrev TDATA3_ADDR : BitVec 12 := 0x7a3#12
abbrev DCSR_ADDR : BitVec 12 := 0x7b0#12
abbrev DPC_ADDR : BitVec 12 := 0x7b1#12
abbrev DSCRATCH0_ADDR : BitVec 12 := 0x7b2#12
abbrev DSCRATCH1_ADDR : BitVec 12 := 0x7b3#12

-- 32 bit machine CSRs
abbrev MVENDORID_ADDR : BitVec 12 := 0xf11#12
abbrev MARCHID_ADDR : BitVec 12 := 0xf12#12
abbrev MIMPID_ADDR : BitVec 12 := 0xf13#12
abbrev MHARTID_ADDR : BitVec 12 := 0xf14#12
abbrev MSTATUS_ADDR : BitVec 12 := 0x300#12
abbrev MISA_ADDR : BitVec 12 := 0x301#12
abbrev MEDELEG_ADDR : BitVec 12 := 0x302#12
abbrev MIDELEG_ADDR : BitVec 12 := 0x303#12
abbrev MIE_ADDR : BitVec 12 := 0x304#12
abbrev MTVEC_ADDR : BitVec 12 := 0x305#12
abbrev MCOUNTEREN_ADDR : BitVec 12 := 0x306#12
abbrev MCOUNTINHIBIT_ADDR : BitVec 12 := 0x320#12
abbrev MSCRATCH_ADDR : BitVec 12 := 0x340#12
abbrev MEPC_ADDR : BitVec 12 := 0x341#12
abbrev MCAUSE_ADDR : BitVec 12 := 0x342#12
abbrev MTVAL_ADDR : BitVec 12 := 0x343#12
abbrev MIP_ADDR : BitVec 12 := 0x344#12
abbrev PMPCFG0_ADDR : BitVec 12 := 0x3a0#12
abbrev PMPADDR0_ADDR : BitVec 12 := 0x3b0#12

-- 32 bit supervisor CSRs
abbrev SSTATUS_ADDR : BitVec 12 := 0x100#12
abbrev SEDELEG_ADDR : BitVec 12 := 0x102#12
abbrev SIDELEG_ADDR : BitVec 12 := 0x103#12
abbrev SIE_ADDR : BitVec 12 := 0x104#12
abbrev STVEC_ADDR : BitVec 12 := 0x105#12
abbrev SCOUNTEREN_ADDR : BitVec 12 := 0x106#12
abbrev SSCRATCH_ADDR : BitVec 12 := 0x140#12
abbrev SEPC_ADDR : BitVec 12 := 0x141#12
abbrev SCAUSE_ADDR : BitVec 12 := 0x142#12
abbrev STVAL_ADDR : BitVec 12 := 0x143#12
abbrev SIP_ADDR : BitVec 12 := 0x144#12
abbrev SATP_ADDR : BitVec 12 := 0x180#12

-- 32 bit user CSRs
abbrev USTATUS_ADDR : BitVec 12 := 0x000#12
abbrev UIE_ADDR : BitVec 12 := 0x004#12
abbrev UTVEC_ADDR : BitVec 12 := 0x005#12
abbrev USCRATCH_ADDR : BitVec 12 := 0x040#12
abbrev UEPC_ADDR : BitVec 12 := 0x041#12
abbrev UCAUSE_ADDR : BitVec 12 := 0x042#12
abbrev UTVAL_ADDR : BitVec 12 := 0x043#12
abbrev UIP_ADDR : BitVec 12 := 0x044#12

-- floating point CSRs
abbrev FFLAGS_ADDR : BitVec 12 := 0x001#12
abbrev FRM_ADDR : BitVec 12 := 0x002#12
abbrev FCSR_ADDR : BitVec 12 := 0x003#12

/-- The addresses of `SWITCH_CASE_MATCH_ANY_HPMCOUNTER_RV32`: the counters 3 to 31, their upper
halves, the machine mode views of both, and the event selectors. -/
def isHpmCounter (addr : BitVec 12) : Bool :=
  (0xc03#12 ≤ addr && addr ≤ 0xc1f#12) || (0xc83#12 ≤ addr && addr ≤ 0xc9f#12) ||
    (0xb03#12 ≤ addr && addr ≤ 0xb1f#12) || (0xb83#12 ≤ addr && addr ≤ 0xb9f#12) ||
    (0x323#12 ≤ addr && addr ≤ 0x33f#12)

/-- The registers with addresses of their own in `register_mapping`. -/
def registerTable : List (BitVec 12 × Csr) :=
  [(CYCLE_ADDR, .cycle), (CYCLEH_ADDR, .cycleh), (TIME_ADDR, .time), (TIMEH_ADDR, .timeh),
    (INSTRET_ADDR, .instret), (INSTRETH_ADDR, .instreth), (MCYCLE_ADDR, .cycle),
    (MCYCLEH_ADDR, .cycleh), (MTIME_ADDR, .time), (MTIMEH_ADDR, .timeh), (MINSTRET_ADDR, .instret),
    (MINSTRETH_ADDR, .instreth), (MVENDORID_ADDR, .mvendorid), (MARCHID_ADDR, .marchid),
    (MIMPID_ADDR, .mimpid), (MHARTID_ADDR, .mhartid), (MSTATUS_ADDR, .mstatus), (MISA_ADDR, .misa),
    (MEDELEG_ADDR, .medeleg), (MIDELEG_ADDR, .mideleg), (MIE_ADDR, .mie), (MTVEC_ADDR, .mtvec),
    (MCOUNTEREN_ADDR, .mcounteren), (MCOUNTINHIBIT_ADDR, .mcountinhibit),
    (MSCRATCH_ADDR, .mscratch), (MEPC_ADDR, .mepc), (MCAUSE_ADDR, .mcause), (MTVAL_ADDR, .mtval),
    (MIP_ADDR, .mip), (SEDELEG_ADDR, .sedeleg), (SIDELEG_ADDR, .sideleg), (STVEC_ADDR, .stvec),
    (SCOUNTEREN_ADDR, .scounteren), (SSCRATCH_ADDR, .sscratch), (SEPC_ADDR, .sepc),
    (SCAUSE_ADDR, .scause), (STVAL_ADDR, .stval), (SATP_ADDR, .satp), (UTVEC_ADDR, .utvec),
    (USCRATCH_ADDR, .uscratch), (UEPC_ADDR, .uepc), (UCAUSE_ADDR, .ucause), (UTVAL_ADDR, .utval),
    (FCSR_ADDR, .fcsr)]

/-- `register_mapping`, with the two loops over the registers of the memory protection. -/
def registerMapping (addr : BitVec 12) : Option Csr :=
  if h : (addr - PMPADDR0_ADDR).toNat < 16 then some (.pmpaddr ⟨_, h⟩)
  else if h : (addr - PMPCFG0_ADDR).toNat < 4 then some (.pmpcfg ⟨_, h⟩)
  else registerTable.lookup addr

end SpsVp.Rv32
