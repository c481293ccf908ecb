import SpsVp.Rv32.Csr
import SpsVp.Rv32.Decode
import SpsVp.Rv32.MemoryInterface

/-!
# Control state of the core

The members of `ISS` in `core/rv32/iss.h` that hold no concolic value, and the functions of
`core/rv32/iss.cpp` that use nothing else: the access to control and status registers, traps and
interrupts, and the counters.

What SystemC and the rest of the platform contribute is a stream: the values that the CLINT returns
as the time, and the changes of the interrupt lines each time the core lets other processes run.
-/

namespace SpsVp.Rv32

open Lib

/-- `CoreExecStatus`. -/
inductive CoreExecStatus where
  | Runnable | HitBreakpoint | Terminated
deriving DecidableEq

/-- `Coverage`: what has been executed of the instructions and the branches of the program. -/
structure Coverage where
  instrs : BitVec 32 → Option Bool
  branchInstrs : BitVec 32 → Option (Bool × Bool)

namespace Coverage

def coverInstr (c : Coverage) (addr : BitVec 32) : Coverage :=
  { c with instrs := Function.update c.instrs addr ((c.instrs addr).map fun _ => true) }

def coverBranch (c : Coverage) (addr : BitVec 32) (condition : Bool) : Coverage :=
  let covered := (c.branchInstrs addr).map fun bc =>
    if condition then (true, bc.2) else (bc.1, true)
  { c with branchInstrs := Function.update c.branchInstrs addr covered }

end Coverage

/-- The changes of the interrupt lines while other processes run. -/
abbrev Arrivals := List (Fin 32 × Bool)

/-- Whether an address is a breakpoint is decided with this instance. -/
instance lawfulBEq_address : LawfulBEq (BitVec 32) := inferInstance

/-- The members of `ISS` without the registers, the memory and the system calls. -/
structure Control where
  pc : BitVec 32
  lastPc : BitVec 32 := 0
  shallExit : Bool := false
  ignoreWfi : Bool := false
  csrs : CsrTable
  prv : PrivilegeLevel := MachineMode
  lrScCounter : Nat := 0
  coverage : Option Coverage := none
  instr : Instruction := ⟨0⟩
  op : Mapping := .UNDEF
  status : CoreExecStatus := .Runnable
  breakpoints : List (BitVec 32) := []
  debugMode : Bool := false
  /-- `cycle_counter` in units of `cycle_time`. -/
  cycleCounter : Nat := 0
  /-- The packet counters of the `SymbolicContext`. -/
  currentPacketIndex : Nat := 0
  packetSequenceLength : Nat := 0
  /-- What `update_and_get_mtime` returns, call by call. -/
  mtime : Nat → BitVec 64 := fun _ => 0
  /-- What happens at each synchronisation. -/
  arrivals : Nat → Arrivals := fun _ => []
  /-- The changes of the interrupt lines so far, which is not part of the program. -/
  lines : Arrivals := []

abbrev ControlM := Effect Exception Control

namespace Control

/-- `RAISE_ILLEGAL_INSTRUCTION`. -/
def raiseIllegalInstruction {α : Type} : ControlM α := do
  raiseTrap .EXC_ILLEGAL_INSTR ((← get).instr.data.setWidth 64)

/-- `REQUIRE_ISA`. -/
def requireIsa (ext : BitVec 32) : ControlM Unit := do
  if !(← get).csrs.hasExtension ext then raiseIllegalInstruction

def setPc (pc : BitVec 32) : ControlM Unit := modify fun s => { s with pc }

def modifyCsrs (f : CsrTable → CsrTable) : ControlM Unit :=
  modify fun s => { s with csrs := f s.csrs }

/-- What the memory interface sees of the core. -/
def view (s : Control) : CoreView := ⟨s.csrs .mhartid, s.prv, s.csrs .mstatus, s.csrs .satp⟩

def sMode (s : Control) : Bool := s.prv = SupervisorMode
def uMode (s : Control) : Bool := s.prv = UserMode

def pcAlignmentMask (s : Control) : BitVec 32 :=
  if s.csrs.hasCExtension then ~~~1#32 else ~~~3#32

/-- The address of a jump is one that raises a trap. -/
def isMisaligned (s : Control) : Bool := s.pc &&& 3#32 ≠ 0#32 && !s.csrs.hasCExtension

/-- `trap_check_pc_alignment` does not return. -/
def refusesPc (s : Control) : Bool := s.pc &&& 1#32 ≠ 0#32 || s.isMisaligned

def trapCheckPcAlignment : ControlM Unit := do
  let s ← get
  ensure .oddTarget (s.pc &&& 1#32 = 0#32)
  if s.isMisaligned then raiseTrap .EXC_INSTR_ADDR_MISALIGNED (s.pc.setWidth 64)

/-! ## Control and status registers -/

def isInvalidCsrAccess (addr : BitVec 12) (isWrite : Bool) : ControlM Bool := do
  if addr = FFLAGS_ADDR ∨ addr = FRM_ADDR ∨ addr = FCSR_ADDR then requireIsa CsrTable.F_ISA_EXT
  let s ← get
  let csrPrv : PrivilegeLevel := addr.extractLsb' 8 2
  let csrReadonly : Bool := addr.extractLsb' 10 2 = 3#2
  let sInvalid := csrPrv = SupervisorMode && !s.csrs.hasSupervisorModeExtension
  let uInvalid := csrPrv = UserMode && !s.csrs.hasUserModeExtension
  return (isWrite && csrReadonly) || s.prv < csrPrv || sInvalid || uInvalid

def validateCsrCounterReadAccessRights (addr : BitVec 12) : ControlM Unit := do
  let s ← get
  if (0xc00#12 ≤ addr && addr ≤ 0xc1f#12) || (0xc80#12 ≤ addr && addr ≤ 0xc9f#12) then
    let cnt := (addr &&& 0x1f#12).toNat
    if s.sMode && !s.csrs.bit .mcounteren cnt then raiseIllegalInstruction
    if s.uMode && (!s.csrs.bit .mcounteren cnt || !s.csrs.bit .scounteren cnt) then
      raiseIllegalInstruction

def readCsr (csr : Csr) : ControlM (BitVec 32) := return (← get).csrs csr

def readMasked (csr : Csr) (mask : BitVec 32) : ControlM (BitVec 32) :=
  return (← get).csrs csr &&& mask

/-- A word of `csrs.time` after `update_and_get_mtime`. -/
def readTime (csr : Csr) : ControlM (BitVec 32) := do
  modify fun s => { s with
    csrs := s.csrs.set64 .time .timeh (s.mtime 0)
    mtime := fun n => s.mtime (n + 1) }
  readCsr csr

/-- A word of `csrs.cycle` after `_compute_and_get_current_cycles`. -/
def readCycle (csr : Csr) : ControlM (BitVec 32) := do
  modify fun s => { s with
    csrs := s.csrs.set64 .cycle .cycleh (BitVec.ofNat 64 s.cycleCounter) }
  readCsr csr

/-- `default_read32` of a valid address. -/
def defaultRead32 (addr : BitVec 12) : ControlM (BitVec 32) :=
  match registerMapping addr with
  | some csr => readCsr csr
  | none => raiseIllegalInstruction

def getCsrValue (addr : BitVec 12) : ControlM (BitVec 32) := do
  validateCsrCounterReadAccessRights addr
  if isHpmCounter addr then return 0#32
  else
    switch addr
      [(TIME_ADDR, readTime .time), (MTIME_ADDR, readTime .time), (TIMEH_ADDR, readTime .timeh),
        (MTIMEH_ADDR, readTime .timeh), (MCYCLE_ADDR, readCycle .cycle),
        (MCYCLEH_ADDR, readCycle .cycleh), (MINSTRET_ADDR, readCsr .instret),
        (MINSTRETH_ADDR, readCsr .instreth), (MSTATUS_ADDR, readMasked .mstatus MSTATUS_MASK),
        (SSTATUS_ADDR, readMasked .mstatus SSTATUS_MASK),
        (USTATUS_ADDR, readMasked .mstatus USTATUS_MASK), (MIP_ADDR, readMasked .mip MIP_READ_MASK),
        (SIP_ADDR, readMasked .mip SIP_MASK), (UIP_ADDR, readMasked .mip UIP_MASK),
        (MIE_ADDR, readMasked .mie MIE_MASK), (SIE_ADDR, readMasked .mie SIE_MASK),
        (UIE_ADDR, readMasked .mie UIE_MASK),
        (SATP_ADDR, do
          if (← get).csrs.bit .mstatus 20 then raiseIllegalInstruction
          defaultRead32 addr),
        (FCSR_ADDR, readMasked .fcsr FCSR_MASK), (FFLAGS_ADDR, readMasked .fcsr 0b11111#32),
        (FRM_ADDR, return ((← get).csrs .fcsr).extractLsb' 5 3 |>.setWidth 32),
        (TSELECT_ADDR, return 1#32), (TDATA1_ADDR, return 0#32), (TDATA2_ADDR, return 0#32),
        (TDATA3_ADDR, return 0#32), (DCSR_ADDR, return 0#32), (DPC_ADDR, return 0#32),
        (DSCRATCH0_ADDR, return 0#32), (DSCRATCH1_ADDR, return 0#32)]
      (defaultRead32 addr)

/-- The lambda `write` of `set_csr_value`. -/
def writeMasked (csr : Csr) (mask value : BitVec 32) : ControlM Unit :=
  modifyCsrs fun t => t.setMasked csr mask value

/-- `default_write32` of a valid address. -/
def defaultWrite32 (addr : BitVec 12) (value : BitVec 32) : ControlM Unit :=
  match registerMapping addr with
  | some csr => modifyCsrs fun t => t.set csr value
  | none => raiseIllegalInstruction

def setCsrValue (addr : BitVec 12) (value : BitVec 32) : ControlM Unit := do
  if isHpmCounter addr then return ()
  let mask := (← get).pcAlignmentMask
  switch addr
    [(MISA_ADDR, return ()),
      (SATP_ADDR, do
        if (← get).csrs.bit .mstatus 20 then raiseIllegalInstruction
        writeMasked .satp SATP_MASK value),
      (MTVEC_ADDR, writeMasked .mtvec MTVEC_MASK value),
      (STVEC_ADDR, writeMasked .stvec MTVEC_MASK value),
      (UTVEC_ADDR, writeMasked .utvec MTVEC_MASK value), (MEPC_ADDR, writeMasked .mepc mask value),
      (SEPC_ADDR, writeMasked .sepc mask value), (UEPC_ADDR, writeMasked .uepc mask value),
      (MSTATUS_ADDR, writeMasked .mstatus MSTATUS_MASK value),
      (SSTATUS_ADDR, writeMasked .mstatus SSTATUS_MASK value),
      (USTATUS_ADDR, writeMasked .mstatus USTATUS_MASK value),
      (MIP_ADDR, writeMasked .mip MIP_WRITE_MASK value),
      (SIP_ADDR, writeMasked .mip SIP_MASK value), (UIP_ADDR, writeMasked .mip UIP_MASK value),
      (MIE_ADDR, writeMasked .mie MIE_MASK value), (SIE_ADDR, writeMasked .mie SIE_MASK value),
      (UIE_ADDR, writeMasked .mie UIE_MASK value),
      (MIDELEG_ADDR, writeMasked .mideleg MIDELEG_MASK value),
      (MEDELEG_ADDR, writeMasked .medeleg MEDELEG_MASK value),
      (SIDELEG_ADDR, writeMasked .sideleg SIDELEG_MASK value),
      (SEDELEG_ADDR, writeMasked .sedeleg SEDELEG_MASK value),
      (MCOUNTEREN_ADDR, writeMasked .mcounteren MCOUNTEREN_MASK value),
      (SCOUNTEREN_ADDR, writeMasked .scounteren MCOUNTEREN_MASK value),
      (MCOUNTINHIBIT_ADDR, writeMasked .mcountinhibit MCOUNTINHIBIT_MASK value),
      (FCSR_ADDR, writeMasked .fcsr FCSR_MASK value),
      (FFLAGS_ADDR, modifyCsrs fun t => t.setField .fcsr 0 (value.setWidth 5)),
      (FRM_ADDR, modifyCsrs fun t => t.setField .fcsr 5 (value.setWidth 3)),
      (TSELECT_ADDR, return ()), (TDATA1_ADDR, return ()), (TDATA2_ADDR, return ()),
      (TDATA3_ADDR, return ()), (DCSR_ADDR, return ()), (DPC_ADDR, return ()),
      (DSCRATCH0_ADDR, return ()), (DSCRATCH1_ADDR, return ())]
    (defaultWrite32 addr value)

/-! ## Traps and interrupts -/

/-- A pending interrupt of `mip` that is enabled in `mie`. -/
def hasLocalPendingEnabledInterrupts (s : Control) : Bool := s.csrs .mie &&& s.csrs .mip ≠ 0#32

/-- `compute_pending_interrupts`; `none` is `NoneMode`. -/
def computePendingInterrupts (s : Control) : Option (PrivilegeLevel × BitVec 32) :=
  let pending := s.csrs .mie &&& s.csrs .mip
  let mPending := pending &&& ~~~s.csrs .mideleg
  let sPending := pending &&& s.csrs .mideleg &&& ~~~s.csrs .sideleg
  let uPending := pending &&& s.csrs .mideleg &&& s.csrs .sideleg
  if pending = 0#32 then none
  else if mPending ≠ 0#32 ∧
      (s.prv < MachineMode ∨ (s.prv = MachineMode ∧ s.csrs.bit .mstatus 3)) then
    some (MachineMode, mPending)
  else if sPending ≠ 0#32 ∧
      (s.prv < SupervisorMode ∨ (s.prv = SupervisorMode ∧ s.csrs.bit .mstatus 1)) then
    some (SupervisorMode, sPending)
  else if uPending ≠ 0#32 ∧ s.prv = UserMode ∧ s.csrs.bit .mstatus 0 then
    some (UserMode, uPending)
  else none

/-- The cause of the pending interrupt of highest priority. -/
def interruptCause (pending : BitVec 32) : Option ExceptionCode :=
  if pending.getLsbD 11 then some .EXC_M_EXTERNAL_INTERRUPT
  else if pending.getLsbD 3 then some .EXC_M_SOFTWARE_INTERRUPT
  else if pending.getLsbD 7 then some .EXC_M_TIMER_INTERRUPT
  else if pending.getLsbD 9 then some .EXC_S_EXTERNAL_INTERRUPT
  else if pending.getLsbD 1 then some .EXC_S_SOFTWARE_INTERRUPT
  else if pending.getLsbD 5 then some .EXC_S_TIMER_INTERRUPT
  else if pending.getLsbD 8 then some .EXC_U_EXTERNAL_INTERRUPT
  else if pending.getLsbD 0 then some .EXC_U_SOFTWARE_INTERRUPT
  else if pending.getLsbD 4 then some .EXC_U_TIMER_INTERRUPT
  else none

/-- The cause register of a privilege mode: `interrupt` and `exception_code`. -/
def causeOf (interrupt : Bool) (exc : ExceptionCode) : BitVec 32 :=
  BitVec.ofBool interrupt ++ BitVec.ofNat 31 exc.toNat

/-- The exception about a privilege level that no `case` handles. -/
def unknownPrivilegeLevel {α : Type} (level : PrivilegeLevel) : ControlM α :=
  throw (.runtimeError ("unknown privilege level " ++ toString level.toNat))

/-- `prepare_interrupt` of pending interrupts and their target mode. -/
def prepareInterrupt (targetMode : PrivilegeLevel) (pending : BitVec 32) : ControlM Unit := do
  match interruptCause pending with
  | none => throw (.runtimeError "some pending interrupt must be available here")
  | some exc =>
    if targetMode = MachineMode then modifyCsrs fun t => t.set .mcause (causeOf true exc)
    else if targetMode = SupervisorMode then modifyCsrs fun t => t.set .scause (causeOf true exc)
    else if targetMode = UserMode then modifyCsrs fun t => t.set .ucause (causeOf true exc)
    else unknownPrivilegeLevel targetMode

/-- The cause and the value of a trap; the conversion of the value throws when it has more than 32
bits, and the cause is already set then. -/
def setTrap (cause tval : Csr) (reason : ExceptionCode) (mtval : BitVec 64) : ControlM Unit := do
  modifyCsrs fun t => t.set cause (causeOf false reason)
  if mtval.toNat < 2 ^ 32 then modifyCsrs fun t => t.set tval (mtval.setWidth 32)
  else
    throw (.runtimeError "bad lexical cast: source type value could not be interpreted as target")

def prepareTrap (reason : ExceptionCode) (mtval : BitVec 64) : ControlM PrivilegeLevel := do
  modify fun s => { s with pc := s.lastPc }
  let s ← get
  if s.prv = MachineMode ∨ !s.csrs.bit .medeleg reason.toNat then do
    setTrap .mcause .mtval reason mtval
    return MachineMode
  else if s.prv = SupervisorMode ∨ !s.csrs.bit .sedeleg reason.toNat then do
    setTrap .scause .stval reason mtval
    return SupervisorMode
  else do
    ensure .privilegeMode (s.prv = UserMode)
    setTrap .ucause .utval reason mtval
    return UserMode

/-- The address of a trap handler. -/
def handlerAddress (t : CsrTable) (vector cause : Csr) : BitVec 32 :=
  t.getBaseAddress vector +
    if t.bit cause 31 && t.isVectored vector then 4#32 * (t.exceptionCode cause).setWidth 32
      else 0#32

/-- `switch_to_trap_handler` after the reservation is released. -/
def switchToTrapHandler (targetMode : PrivilegeLevel) : ControlM Unit := do
  let pp := (← get).prv
  modify fun s => { s with prv := targetMode }
  if targetMode = MachineMode then
    modify fun s =>
      let csrs := ((((s.csrs.set .mepc s.pc).setField .mstatus 7
        (BitVec.ofBool (s.csrs.bit .mstatus 3))).setField .mstatus 3 0#1).setField .mstatus 11 pp)
      { s with csrs, pc := handlerAddress csrs .mtvec .mcause }
  else if targetMode = SupervisorMode then do
    let s ← get
    ensure .privilegeMode (s.prv = SupervisorMode || s.prv = UserMode)
    modify fun s =>
      let csrs := ((((s.csrs.set .sepc s.pc).setField .mstatus 5
        (BitVec.ofBool (s.csrs.bit .mstatus 1))).setField .mstatus 1 0#1).setField .mstatus 8
        (pp.setWidth 1))
      { s with csrs, pc := handlerAddress csrs .stvec .scause }
  else if targetMode = UserMode then do
    let s ← get
    ensure .privilegeMode (s.prv = UserMode)
    modify fun s =>
      let csrs := (((s.csrs.set .uepc s.pc).setField .mstatus 4
        (BitVec.ofBool (s.csrs.bit .mstatus 0))).setField .mstatus 0 0#1)
      { s with csrs, pc := handlerAddress csrs .utvec .ucause }
  else unknownPrivilegeLevel targetMode

/-- `return_from_trap_handler` of machine mode, the only one that an instruction uses. -/
def returnFromTrapHandler : ControlM Unit :=
  modify fun s =>
    let csrs := ((s.csrs.setField .mstatus 3 (BitVec.ofBool (s.csrs.bit .mstatus 7))).setField
      .mstatus 7 1#1)
    { s with
      prv := s.csrs.mpp
      pc := s.csrs .mepc
      csrs := csrs.setField .mstatus 11
        (if s.csrs.hasUserModeExtension then UserMode else MachineMode) }

/-- The level of an interrupt line. -/
def setInterrupt (line : Fin 32) (level : Bool) (s : Control) : Control :=
  { s with
    csrs := s.csrs.setField .mip line (BitVec.ofBool level)
    lines := s.lines ++ [(line, level)] }

/-- Other processes run. -/
def synchronise : ControlM Unit :=
  modify fun s =>
    { (s.arrivals 0).foldl (fun s (line, level) => s.setInterrupt line level) s with
      arrivals := fun n => s.arrivals (n + 1) }

/-! ## Counters -/

/-- `instr_cycles`. -/
def instrCycles (op : Mapping) : Nat :=
  if op ∈ [.LB, .LBU, .LH, .LHU, .LW, .SB, .SH, .SW] then 4
  else if op ∈ [.MUL, .MULH, .MULHU, .MULHSU, .DIV, .DIVU, .REM, .REMU] then 8
  else 1

/-- The instruction counter of `performance_and_sync_update`. -/
def countInstruction : ControlM Unit :=
  modify fun s =>
    if s.csrs.bit .mcountinhibit 2 then s
    else { s with csrs := s.csrs.set64 .instret .instreth (s.csrs.get64 .instret .instreth + 1) }

/-- The cycle counter of `performance_and_sync_update`. -/
def countCycles : ControlM Unit :=
  modify fun s =>
    if s.csrs.bit .mcountinhibit 0 then s
    else { s with cycleCounter := s.cycleCounter + instrCycles s.op }

/-- `sys_processed_packet`, without the store that the context keeps for longer sequences. -/
def sysProcessedPacket (s : Control) : Control :=
  let index := s.currentPacketIndex + 1
  { s with currentPacketIndex := index, shallExit := decide (s.packetSequenceLength ≤ index) }

def sysExit (s : Control) : Control := { s with shallExit := true }

end Control

end SpsVp.Rv32
