import SpsVp.Rv32.Control

/-!
# The instruction set simulator

`ISS` of `core/rv32/iss.h` and `core/rv32/iss.cpp`: the register file, system calls, `exec_step`
with one case for every instruction that the source does not leave out, and `run_step` around it.

A register holds a shared pointer to a concolic value. The memory interface compares such pointers
to find out whether a store conditional has the address of the reservation, so a register has the
number of the object it refers to beside the value. Every operator of concolic values makes a new
object.

A target may ask something of the core while the memory interface is at work. The core does it when
the memory interface is done, which makes no difference, since neither looks at the other's state.
-/

namespace SpsVp.Rv32

open Lib Effect Clover Klee Platform Interface Control

/-- `RegFile::RegValue`: an object and the value in it. -/
structure RegValue where
  object : Nat
  value : ConcolicValue 32

/-- A system call: its number and its arguments. -/
structure Syscall where
  n : BitVec 32
  a0 : BitVec 32
  a1 : BitVec 32
  a2 : BitVec 32
  a3 : BitVec 32
deriving DecidableEq

/-- How the host answers a system call. -/
inductive SyscallResult where
  | returned (ans : BitVec 32) (shallExit : Bool)
  | failed (what : String)
  | aborted

/-- `SyscallHandler`: the answer to the last call of a history. -/
structure SyscallHandler where
  executeSyscall : List Syscall → SyscallResult
  history : List Syscall := []

/-- The state of an `ISS`. -/
structure Iss extends Control where
  regs : BitVec 5 → RegValue
  /-- The number of the next object. -/
  nextObject : Nat
  io : Interface
  /-- How deep transactions may nest. -/
  depth : Nat := 1
  /-- The pointer `sys` is set. -/
  sys : Bool := false
  handler : SyscallHandler := { executeSyscall := fun _ => .aborted }

abbrev IssM := Effect Exception Iss

namespace Iss

/-- A function that uses the control state only. -/
def control {α : Type} (x : ControlM α) : IssM α :=
  zoom Iss.toControl (fun c s => { s with toControl := c }) x

/-- A function that uses the memory interface only. -/
def interface {α : Type} (x : MemM α) : IssM α :=
  zoom Iss.io (fun io s => { s with io }) x

/-- `Solver::getValue` of a concrete part. -/
def getValue {w : Nat} (value : ConcolicValue w) : IssM (BitVec w) :=
  interface (Interface.getValue value)

/-! ## Registers -/

abbrev zero : BitVec 5 := 0#5
abbrev sp : BitVec 5 := 2#5
abbrev a0 : BitVec 5 := 10#5
abbrev a1 : BitVec 5 := 11#5
abbrev a2 : BitVec 5 := 12#5
abbrev a3 : BitVec 5 := 13#5
abbrev a5 : BitVec 5 := 15#5
abbrev a7 : BitVec 5 := 17#5

/-- `solver.BVC(std::nullopt, value)`. -/
def constant (value : BitVec 32) : ConcolicValue 32 := BVC .uint32 none value

/-- A register refers to a new object. -/
def assign (s : Iss) (index : BitVec 5) (value : ConcolicValue 32) : Iss :=
  { s with
    regs := Function.update s.regs index ⟨s.nextObject, value⟩
    nextObject := s.nextObject + 1 }

/-- `RegFile::write` of a new object. A narrower value is extended with zeros. A wider one is not
stored, since the assertion on that branch is about a string. -/
def write {w : Nat} (index : BitVec 5) (value : ConcolicValue w) : IssM Unit :=
  if w < 32 then modify (·.assign index (value.zext 32))
  else if h : w = 32 then modify (·.assign index (value.cast h))
  else pure ()

/-- `RegFile::write` of an object that exists. -/
def writeObject (index : BitVec 5) (value : RegValue) : IssM Unit :=
  modify fun s => { s with regs := Function.update s.regs index value }

/-- `regs[RS1]`. -/
def rs1 : IssM RegValue := do
  let s ← get
  return s.regs s.instr.rs1

/-- `regs[RS2]`. -/
def rs2 : IssM RegValue := do
  let s ← get
  return s.regs s.instr.rs2

/-- `regs.write(RD, value)`. -/
def writeRd {w : Nat} (value : ConcolicValue w) : IssM Unit := do
  write (← get).instr.rd value

/-- `RegFile::shamt`. -/
def shamt (value : ConcolicValue 32) : ConcolicValue 32 := (value.extract 0 5 (by omega)).zext 32

def I_IMM (instr : Instruction) : ConcolicValue 32 := (constant instr.iImm).sext 32
def S_IMM (instr : Instruction) : ConcolicValue 32 := (constant instr.sImm).sext 32
def U_IMM (instr : Instruction) : ConcolicValue 32 := constant instr.uImm
def SHAMT (instr : Instruction) : ConcolicValue 32 := constant instr.shamt

abbrev REG_UINT32_MAX : ConcolicValue 32 := constant (-1)
abbrev REG_INT32_MIN : ConcolicValue 32 := constant 0x80000000#32
abbrev REG_ZERO : ConcolicValue 32 := constant 0#32
abbrev REG_ONE : ConcolicValue 32 := constant 1#32

/-- The core after its constructor and `ISS::init`. -/
def init (csrs : CsrTable) (io : Interface) (entrypoint stackPointer : BitVec 32) : Iss where
  pc := entrypoint
  csrs := csrs
  coverage := some ⟨fun _ => none, fun _ => none⟩
  regs := fun index => ⟨index.toNat, constant (if index = sp then stackPointer else 0#32)⟩
  nextObject := 32
  io := io

/-! ## System calls -/

def readRegister (idx : BitVec 5) : IssM (BitVec 32) := do
  getValue ((← get).regs idx).value

def writeRegister (idx : BitVec 5) (value : BitVec 64) : IssM Unit := do
  ensure .registerValue (value.toNat < 2 ^ 32)
  write idx (constant (value.setWidth 32))

def getSyscallRegisterIndex (s : Iss) : BitVec 5 := if s.csrs.hasEBaseIsa then a5 else a7

/-- The host executes a system call. -/
def callHost (call : Syscall) : IssM SyscallResult :=
  modifyGet fun s =>
    let history := s.handler.history ++ [call]
    (s.handler.executeSyscall history, { s with handler := { s.handler with history } })

/-- `SyscallHandler::execute_syscall`; the answer is widened as a signed number. -/
def executeSyscall : IssM Unit := do
  let n ← readRegister (← get).getSyscallRegisterIndex
  let x3 ← readRegister a3
  let x2 ← readRegister a2
  let x1 ← readRegister a1
  let x0 ← readRegister a0
  match ← callHost ⟨n, x0, x1, x2, x3⟩ with
  | .failed what => throw (.hostError what)
  | .aborted => throw (.abort .syscall)
  | .returned ans shallExit => do
      writeRegister a0 (ans.signExtend 64)
      if shallExit then control (modify sysExit)

/-! ## Memory -/

/-- What a target has asked for. -/
def serve : CoreRequest → IssM Unit
  | .interrupt line level => control (modify (setInterrupt line level))
  | .syscall => executeSyscall
  | .exit => control (modify sysExit)
  | .processedPacket => control (modify sysProcessedPacket)

/-- The requests of the targets, which are done with then. -/
def takeRequests : MemM (List CoreRequest) :=
  modifyGet fun io => (io.requests, { io with requests := [] })

/-- A call of the memory interface, and then what the targets have asked for. -/
def memory {α : Type} (x : Transact → CoreView → MemM α) : IssM α := do
  let s ← get
  let result ← attempt (interface (x (Interface.transact s.view s.depth) s.view))
  let requests ← interface takeRequests
  requests.forM serve
  match result with
  | .ok a => return a
  | .error e => throw e

def releaseLrScReservation : IssM Unit := do
  control (modify fun s => { s with lrScCounter := 0 })
  let s ← get
  interface (atomicUnlock s.view)

def trapCheckAddrAlignment (alignment : Nat) (isLoad : Bool) (addr : ConcolicValue 32) :
    IssM Unit := do
  let caddr ← getValue addr
  if caddr.toNat % alignment ≠ 0 then
    raiseTrap (if isLoad then .EXC_LOAD_ADDR_MISALIGNED else .EXC_STORE_AMO_ADDR_MISALIGNED)
      (caddr.setWidth 64)

/-! ## Branches -/

def trackAndTraceBranch (cond : Bool) (expr : ConcolicValue 1) : IssM Unit := do
  control (modify fun s => { s with coverage := s.coverage.map (·.coverBranch s.lastPc cond) })
  let s ← get
  match expr.symbolic with
  | none => pure ()
  | some bv => interface (Interface.note (.branch cond bv s.lastPc (s.currentPacketIndex + 1)))

/-- What depends on the concrete part of a condition, and the condition handed to the tracer. -/
def evalAndTrace (res : ConcolicValue 1) (body : Bool → IssM Unit) : IssM Unit := do
  let cond : Bool := res.concrete = 1#1
  body cond
  trackAndTraceBranch cond res

/-! ## Instructions -/

/-- `regs.write(RD, regs[RS1]->op(I_IMM))`. -/
def registerImmediate {w : Nat} (op : ConcolicValue 32 → ConcolicValue 32 → ConcolicValue w) :
    IssM Unit := do
  writeRd (op (← rs1).value (I_IMM (← get).instr))

/-- `regs.write(RD, regs[RS1]->op(regs[RS2]))`. -/
def registerRegister {w : Nat} (op : ConcolicValue 32 → ConcolicValue 32 → ConcolicValue w) :
    IssM Unit := do
  writeRd (op (← rs1).value (← rs2).value)

/-- `regs.write(RD, regs[RS1]->op(regs.shamt(RS2)))`. -/
def shiftRegister (op : ConcolicValue 32 → ConcolicValue 32 → ConcolicValue 32) : IssM Unit := do
  writeRd (op (← rs1).value (shamt (← rs2).value))

/-- `regs.write(RD, regs[RS1]->op(SHAMT))`. -/
def shiftImmediate (op : ConcolicValue 32 → ConcolicValue 32 → ConcolicValue 32) : IssM Unit := do
  writeRd (op (← rs1).value (SHAMT (← get).instr))

def lui : IssM Unit := do
  writeRd (U_IMM (← get).instr)

def auipc : IssM Unit := do
  let s ← get
  writeRd ((constant s.lastPc).add (U_IMM s.instr))

def jal : IssM Unit := do
  let s ← get
  let link := constant s.pc
  control (setPc (s.lastPc + s.instr.jImm))
  control trapCheckPcAlignment
  writeRd link

def jalr : IssM Unit := do
  let s ← get
  let link := constant s.pc
  let base ← getValue (← rs1).value
  control (setPc ((base + s.instr.iImm) &&& ~~~1#32))
  control trapCheckPcAlignment
  writeRd link

/-- A branch that is taken. A misaligned target raises its trap before the condition is handed to
the tracer, so the condition counts as concretised then. -/
def takeBranch (res : ConcolicValue 1) : IssM Unit := do
  let s ← get
  control (setPc (s.lastPc + s.instr.bImm))
  if (← get).refusesPc then interface (Interface.note (.concretised ⟨1, res⟩))
  control trapCheckPcAlignment

/-- A conditional branch. -/
def branch (op : ConcolicValue 32 → ConcolicValue 32 → ConcolicValue 1) : IssM Unit := do
  let res := op (← rs1).value (← rs2).value
  evalAndTrace res fun cond => if cond then takeBranch res else pure ()

/-- A store; an alignment of one byte is not checked. -/
def store (op : Transact → CoreView → ConcolicValue 32 → ConcolicValue 32 → MemM Unit)
    (alignment : Nat) : IssM Unit := do
  let s ← get
  let addr := (← rs1).value.add (S_IMM s.instr)
  if alignment ≠ 1 then trapCheckAddrAlignment alignment false addr
  let value := (← rs2).value
  memory fun transact view => op transact view addr value

/-- A load that extends its value to the width of a register. -/
def signed (op : Transact → CoreView → ConcolicValue 32 → MemM (ConcolicValue 32)) :
    Transact → CoreView → ConcolicValue 32 → MemM Concolic :=
  fun transact view addr => do return ⟨32, ← op transact view addr⟩

/-- A load; an alignment of one byte is not checked. -/
def load (op : Transact → CoreView → ConcolicValue 32 → MemM Concolic)
    (alignment : Nat) : IssM Unit := do
  let s ← get
  let addr := (← rs1).value.add (I_IMM s.instr)
  if alignment ≠ 1 then trapCheckAddrAlignment alignment true addr
  let data ← memory fun transact view => op transact view addr
  writeRd data.value

def ecall : IssM Unit := do
  let s ← get
  if s.sys then executeSyscall
  else if s.prv = MachineMode then raiseTrap .EXC_ECALL_M_MODE (s.lastPc.setWidth 64)
  else if s.prv = SupervisorMode then raiseTrap .EXC_ECALL_S_MODE (s.lastPc.setWidth 64)
  else if s.prv = UserMode then raiseTrap .EXC_ECALL_U_MODE (s.lastPc.setWidth 64)
  else control (unknownPrivilegeLevel s.prv)

/-- The body of an instruction on a control and status register, for a valid access. -/
def accessCsr (isWrite : Bool) (body : BitVec 12 → IssM Unit) : IssM Unit := do
  let addr := (← get).instr.csr
  if ← control (isInvalidCsrAccess addr isWrite) then
    control raiseIllegalInstruction
  else body addr

/-- The old value goes to a register other than `zero`. -/
def writeOld (value : BitVec 32) : IssM Unit := do
  if (← get).instr.rd ≠ zero then writeRd (constant value)

def csrrw : IssM Unit :=
  accessCsr true fun addr => do
    let rs1Val ← rs1
    if (← get).instr.rd ≠ zero then
      writeRd (constant (← control (getCsrValue addr)))
    control (setCsrValue addr (← getValue rs1Val.value))

def csrrs : IssM Unit := do
  let isWrite : Bool := (← get).instr.rs1 ≠ zero
  accessCsr isWrite fun addr => do
    let rs1Val ← rs1
    let csrVal ← control (getCsrValue addr)
    writeOld csrVal
    if isWrite then control (setCsrValue addr (csrVal ||| (← getValue rs1Val.value)))

/-- In contrast to the others this one concretises the operand before the register is read. -/
def csrrc : IssM Unit := do
  let isWrite : Bool := (← get).instr.rs1 ≠ zero
  accessCsr isWrite fun addr => do
    let rs1Val ← getValue (← rs1).value
    let csrVal ← control (getCsrValue addr)
    writeOld csrVal
    if isWrite then control (setCsrValue addr (csrVal &&& ~~~rs1Val))

def csrrwi : IssM Unit :=
  accessCsr true fun addr => do
    if (← get).instr.rd ≠ zero then
      writeRd (constant (← control (getCsrValue addr)))
    control (setCsrValue addr (← get).instr.zimm)

/-- `CSRRSI` and `CSRRCI`: the new value from the old one and the immediate. -/
def csrImmediate (op : BitVec 32 → BitVec 32 → BitVec 32) : IssM Unit := do
  let zimm := (← get).instr.zimm
  accessCsr (zimm ≠ 0#32) fun addr => do
    let csrVal ← control (getCsrValue addr)
    writeOld csrVal
    if zimm ≠ 0#32 then control (setCsrValue addr (op csrVal zimm))

def csrrsi : IssM Unit := csrImmediate fun old zimm => old ||| zimm
def csrrci : IssM Unit := csrImmediate fun old zimm => old &&& ~~~zimm

/-- A half of the product of two operands that are extended to 64 bits. -/
def multiply (left right : ConcolicValue 32 → ConcolicValue 64) (offset : Nat)
    (h : offset + 32 ≤ 64) : IssM Unit := do
  control (requireIsa CsrTable.M_ISA_EXT)
  writeRd (((left (← rs1).value).mul (right (← rs2).value)).extract offset 32 h)

/-- A division or a remainder: what is done for a zero divisor, and the value otherwise. -/
def divide (whenZero : RegValue → IssM Unit)
    (otherwise : ConcolicValue 32 → ConcolicValue 32 → ConcolicValue 32) : IssM Unit := do
  control (requireIsa CsrTable.M_ISA_EXT)
  let x ← rs1
  let y ← rs2
  evalAndTrace (y.value.eq REG_ZERO) fun isZero =>
    if isZero then whenZero x else writeRd (otherwise x.value y.value)

/-- `expr_min_rs2_m`: the quotient is not representable. -/
def overflows (x y : ConcolicValue 32) : ConcolicValue 1 :=
  (x.eq REG_INT32_MIN).band (y.eq REG_UINT32_MAX)

/-- `DIV` and `DIVU` yield the greatest word for a zero divisor. -/
def writeAllOnes (_ : RegValue) : IssM Unit := writeRd REG_UINT32_MAX

/-- `REM` and `REMU` yield the dividend for a zero divisor, and the register refers to the same
object then. -/
def writeDividend (x : RegValue) : IssM Unit := do
  writeObject (← get).instr.rd x

def lrW : IssM Unit := do
  control (requireIsa CsrTable.A_ISA_EXT)
  let addr ← rs1
  trapCheckAddrAlignment 4 true addr.value
  let data ← memory fun transact view =>
    atomicLoadReservedWord transact view addr.object addr.value
  writeRd data
  control (modify fun s => if s.lrScCounter = 0 then { s with lrScCounter := 17 } else s)

def scW : IssM Unit := do
  control (requireIsa CsrTable.A_ISA_EXT)
  let addr ← rs1
  trapCheckAddrAlignment 4 false addr.value
  let val ← rs2
  writeRd REG_ONE
  let stored ← memory fun transact view =>
    atomicStoreConditionalWord transact view addr.object addr.value val.value
  writeRd (if stored then REG_ZERO else REG_ONE)
  control (modify fun s => { s with lrScCounter := 0 })

/-- `execute_amo` with the check of the extension. -/
def executeAmo (operation : ConcolicValue 32 → ConcolicValue 32 → ConcolicValue 32) :
    IssM Unit := do
  control (requireIsa CsrTable.A_ISA_EXT)
  let addr ← rs1
  trapCheckAddrAlignment 4 false addr.value
  match ← attempt (memory fun transact view =>
      atomicLoadWord transact view addr.value) with
  | .error (.trap .EXC_LOAD_ACCESS_FAULT mtval) => raiseTrap .EXC_STORE_AMO_ACCESS_FAULT mtval
  | .error e => throw e
  | .ok data => do
      let val := operation data (← rs2).value
      memory fun transact view => atomicStoreWord transact view addr.value val
      writeRd data

def wfi : IssM Unit := do
  releaseLrScReservation
  control do
    let s ← get
    if s.sMode && s.csrs.bit .mstatus 21 then raiseIllegalInstruction
    if s.uMode && s.csrs.hasSupervisorModeExtension then raiseIllegalInstruction
    if !s.ignoreWfi && !s.hasLocalPendingEnabledInterrupts then synchronise

/-- The `switch` of `exec_step`. -/
def execute : Mapping → IssM Unit
  | .UNDEF => control raiseIllegalInstruction
  | .ADDI => registerImmediate .add
  | .SLTI => registerImmediate .slt
  | .SLTIU => registerImmediate .ult
  | .XORI => registerImmediate .bxor
  | .ORI => registerImmediate .bor
  | .ANDI => registerImmediate .band
  | .ADD => registerRegister .add
  | .SUB => registerRegister .sub
  | .SLL => shiftRegister .lshl
  | .SLT => registerRegister .slt
  | .SLTU => registerRegister .ult
  | .SRL => shiftRegister .lshr
  | .SRA => shiftRegister .ashr
  | .XOR => registerRegister .bxor
  | .OR => registerRegister .bor
  | .AND => registerRegister .band
  | .SLLI => shiftImmediate .lshl
  | .SRLI => shiftImmediate .lshr
  | .SRAI => shiftImmediate .ashr
  | .LUI => lui
  | .AUIPC => auipc
  | .JAL => jal
  | .JALR => jalr
  | .SB => store storeByte 1
  | .SH => store storeHalf 2
  | .SW => store storeWord 4
  | .LB => load (signed loadByte) 1
  | .LH => load (signed loadHalf) 2
  | .LW => load (signed loadWord) 4
  | .LBU => load loadUbyte 1
  | .LHU => load loadUhalf 2
  | .BEQ => branch .eq
  | .BNE => branch .ne
  | .BLT => branch .slt
  | .BGE => branch .sge
  | .BLTU => branch .ult
  | .BGEU => branch .uge
  | .FENCE | .FENCE_I => pure ()
  | .ECALL => ecall
  | .EBREAK => control (modify fun s => { s with status := .HitBreakpoint })
  | .CSRRW => csrrw
  | .CSRRS => csrrs
  | .CSRRC => csrrc
  | .CSRRWI => csrrwi
  | .CSRRSI => csrrsi
  | .CSRRCI => csrrci
  | .MUL => multiply (·.sext 64) (·.sext 64) 0 (by omega)
  | .MULH => multiply (·.sext 64) (·.sext 64) 32 (by omega)
  | .MULHU => multiply (·.zext 64) (·.zext 64) 32 (by omega)
  | .MULHSU => multiply (·.sext 64) (·.zext 64) 32 (by omega)
  | .DIV => divide writeAllOnes fun x y => (overflows x y).select x (x.sdiv y)
  | .DIVU => divide writeAllOnes .udiv
  | .REM => divide writeDividend fun x y => (overflows x y).select REG_ZERO (x.srem y)
  | .REMU => divide writeDividend .urem
  | .LR_W => lrW
  | .SC_W => scW
  | .AMOSWAP_W => executeAmo fun _ b => b
  | .AMOADD_W => executeAmo .add
  | .AMOXOR_W => executeAmo .bxor
  | .AMOAND_W => executeAmo .band
  | .AMOOR_W => executeAmo .bor
  | .AMOMIN_W => executeAmo fun a b => (a.sge b).select b a
  | .AMOMINU_W => executeAmo fun a b => (a.uge b).select b a
  | .AMOMAX_W => executeAmo fun a b => (a.sge b).select a b
  | .AMOMAXU_W => executeAmo fun a b => (a.uge b).select a b
  | .WFI => wfi
  | .MRET => control returnFromTrapHandler
  | _ => throw (.runtimeError "unknown opcode")

/-! ## Steps -/

/-- The instruction word is loaded; when that raises a trap there is no instruction. -/
def fetch : IssM Unit := do
  let s ← get
  ensure .misalignedInstruction (s.pc &&& ~~~s.pcAlignmentMask = 0#32)
  interface (Interface.note (.pc s.pc))
  match ← attempt (memory fun transact view => loadInstr transact view s.pc) with
  | .ok memWord => control (modify fun s => { s with instr := ⟨memWord⟩ })
  | .error (.trap reason mtval) => do
      control (modify fun s => { s with op := .UNDEF, instr := ⟨0#32⟩ })
      raiseTrap reason mtval
  | .error e => throw e

/-- The instruction is decoded and the program counter moves past it. -/
def decode : ControlM Unit := do
  let s ← get
  if s.instr.isCompressed then
    match s.instr.decodeAndExpandCompressed .RV32 with
    | .error what => throw (.runtimeError what)
    | .ok (instr, op) => do
        modify fun s => { s with instr, op, pc := s.pc + 2 }
        if op ≠ .UNDEF then requireIsa CsrTable.C_ISA_EXT
  else
    modify fun s => { s with op := s.instr.decodeNormal .RV32, pc := s.pc + 4 }

/-- `coverage->cover_instr(last_pc)`, through a pointer that is not checked. -/
def coverInstr : ControlM Unit := do
  let s ← get
  match s.coverage with
  | none => throw (.abort .coverage)
  | some coverage => modify fun s => { s with coverage := some (coverage.coverInstr s.lastPc) }

def execStep : IssM Unit := do
  fetch
  control decode
  control coverInstr
  execute (← get).op

def switchToTrapHandler (targetMode : PrivilegeLevel) : IssM Unit := do
  releaseLrScReservation
  control (Control.switchToTrapHandler targetMode)

/-- An interrupt that is pending is taken. -/
def takeInterrupt : IssM Unit := do
  match (← get).computePendingInterrupts with
  | none => pure ()
  | some (targetMode, pending) => do
      control (prepareInterrupt targetMode pending)
      switchToTrapHandler targetMode

/-- The reservation ends some instructions after it was made. -/
def ageReservation : IssM Unit := do
  let counter := (← get).lrScCounter
  if counter ≠ 0 then do
    control (modify fun s => { s with lrScCounter := counter - 1 })
    if counter - 1 = 0 then releaseLrScReservation

def performanceAndSyncUpdate : IssM Unit := do
  control countInstruction
  ageReservation
  control countCycles
  if (← get).lrScCounter = 0 then control synchronise

/-- The `try` block of `run_step` with its handler. -/
def stepOrTrap : IssM Unit := do
  match ← attempt (do execStep; takeInterrupt) with
  | .ok () => pure ()
  | .error (.trap reason mtval) => do
      let targetMode ← control (prepareTrap reason mtval)
      switchToTrapHandler targetMode
  | .error e => throw e

def runStep : IssM Unit := do
  let x0 ← readRegister zero
  ensure .zeroRegister (x0 = 0#32)
  let s ← get
  if s.debugMode ∧ s.pc ∈ s.breakpoints then
    control (modify fun s => { s with status := .HitBreakpoint })
  else do
    control (modify fun s => { s with lastPc := s.pc })
    stepOrTrap
    write zero REG_ZERO
    control (modify fun s => if s.shallExit then { s with status := .Terminated } else s)
    performanceAndSyncUpdate

/-! ## A platform -/

/-- A memory of 4 KiB at address zero, with a program at its start. -/
def programMemory (program : List (BitVec 32)) : Interface where
  bus := [(⟨0#64, 0xfff#64⟩, .memory ⟨0x1000, ⟨fun addr =>
    (program.flatMap bytesOfWord)[addr.toNat]?.map fun byte => ⟨byte, none⟩⟩⟩)]

/-- A core after reset, in front of its program. -/
def boot (program : List (BitVec 32)) : Iss :=
  init (CsrTable.init 0#32 false) (programMemory program) 0#32 0x1000#32

/-- A core that translates addresses, with an MMU that has its memory interface. The root table is
at address zero, in the memory of the program. -/
def paged (program : List (BitVec 32)) (prv : PrivilegeLevel) (pc : BitVec 32) : Iss :=
  let s := boot program
  { s with
    pc := pc
    prv := prv
    csrs := s.csrs.set .satp 0x80000000#32
    io := { s.io with mmu := some { connected := true } } }

end Iss

end SpsVp.Rv32
