import SpsVp.Lib.Effect
import SpsVp.Platform.Bus

/-!
# The memory interface of the core

`CombinedMemoryInterface` of `core/rv32/mem.h` and `GenericMMU` of `core/common/mmu.h`, with Sv32 as
the only translation scheme, since `satp.mode` has one bit. Addresses are concretised before they
are translated. A load takes its value from the symbolic extension of the transaction, while a
fetched instruction and a page-table entry are read as concrete bytes.

A target of the bus may ask the core to store a symbolic value while a transaction is under way, and
that store is a transaction itself. `transact` has the depth of such a nesting as its argument; the
stack of the host overflows at depth zero.

`Interface.log` is not part of the program. It records what a run shows: the program counters, the
addresses of loads and stores, the branch conditions handed to the tracer, and every concolic value
whose concrete part was used in its place.
-/

namespace SpsVp.Rv32

open Lib Clover Klee Platform

/-- `ExceptionCode`. -/
inductive ExceptionCode where
  | EXC_U_SOFTWARE_INTERRUPT | EXC_S_SOFTWARE_INTERRUPT | EXC_M_SOFTWARE_INTERRUPT
  | EXC_U_TIMER_INTERRUPT | EXC_S_TIMER_INTERRUPT | EXC_M_TIMER_INTERRUPT
  | EXC_U_EXTERNAL_INTERRUPT | EXC_S_EXTERNAL_INTERRUPT | EXC_M_EXTERNAL_INTERRUPT
  | EXC_INSTR_ADDR_MISALIGNED | EXC_INSTR_ACCESS_FAULT | EXC_ILLEGAL_INSTR | EXC_BREAKPOINT
  | EXC_LOAD_ADDR_MISALIGNED | EXC_LOAD_ACCESS_FAULT | EXC_STORE_AMO_ADDR_MISALIGNED
  | EXC_STORE_AMO_ACCESS_FAULT | EXC_ECALL_U_MODE | EXC_ECALL_S_MODE | EXC_ECALL_M_MODE
  | EXC_INSTR_PAGE_FAULT | EXC_LOAD_PAGE_FAULT | EXC_STORE_AMO_PAGE_FAULT
deriving DecidableEq

/-- The number of an exception code. -/
def ExceptionCode.toNat : ExceptionCode → Nat
  | .EXC_U_SOFTWARE_INTERRUPT | .EXC_INSTR_ADDR_MISALIGNED => 0
  | .EXC_S_SOFTWARE_INTERRUPT | .EXC_INSTR_ACCESS_FAULT => 1
  | .EXC_ILLEGAL_INSTR => 2
  | .EXC_M_SOFTWARE_INTERRUPT | .EXC_BREAKPOINT => 3
  | .EXC_U_TIMER_INTERRUPT | .EXC_LOAD_ADDR_MISALIGNED => 4
  | .EXC_S_TIMER_INTERRUPT | .EXC_LOAD_ACCESS_FAULT => 5
  | .EXC_STORE_AMO_ADDR_MISALIGNED => 6
  | .EXC_M_TIMER_INTERRUPT | .EXC_STORE_AMO_ACCESS_FAULT => 7
  | .EXC_U_EXTERNAL_INTERRUPT | .EXC_ECALL_U_MODE => 8
  | .EXC_S_EXTERNAL_INTERRUPT | .EXC_ECALL_S_MODE => 9
  | .EXC_M_EXTERNAL_INTERRUPT | .EXC_ECALL_M_MODE => 11
  | .EXC_INSTR_PAGE_FAULT => 12
  | .EXC_LOAD_PAGE_FAULT => 13
  | .EXC_STORE_AMO_PAGE_FAULT => 15

/-- What ends the process: an assertion of the core that does not hold, or what the host does not
survive. -/
inductive Assertion where
  /-- `run_step`: the register `zero` is zero. -/
  | zeroRegister
  /-- `exec_step`: "misaligned instruction". -/
  | misalignedInstruction
  /-- `trap_check_pc_alignment`: "not possible due to immediate formats and jump execution". -/
  | oddTarget
  /-- `prepare_trap`, `switch_to_trap_handler` and the MMU: the privilege mode. -/
  | privilegeMode
  /-- `walk`: the pointer `mem` is set. -/
  | pageTableMemory
  /-- `atomic_store_word`: the core holds the lock of the bus. -/
  | busLock
  /-- `write_register`: the value has 32 bits. -/
  | registerValue
  /-- The pointer `coverage` is set, which the source does not check. -/
  | coverage
  /-- A symbolic value of a size other than zero, since the null pointer stands for that one. -/
  | symbolicSize
  /-- The stack of the host overflows. -/
  | stack
  /-- A target of the bus fails. -/
  | target
  /-- The emulation of a system call fails. -/
  | syscall
deriving DecidableEq

/-- What is thrown. -/
inductive Exception where
  /-- `SimulationTrap`. -/
  | trap (reason : ExceptionCode) (mtval : BitVec 64)
  /-- `std::runtime_error` and the like, which nothing catches. -/
  | runtimeError (what : String)
  /-- The same from the emulation of a system call. -/
  | hostError (what : String)
  | abort (assertion : Assertion)
deriving DecidableEq

/-- What a run shows. -/
inductive Event where
  /-- `exec_step` starts at a program counter. -/
  | pc (pc : BitVec 32)
  /-- A load or a store at a virtual address. -/
  | access (command : Command) (addr : BitVec 32)
  /-- `Trace::add`. -/
  | branch (cond : Bool) (bv : Expr 1) (pc : BitVec 32) (pktSeqLen : Nat)
  /-- The concrete part of a concolic value is used in its place. -/
  | concretised (value : Concolic)

/-! ## State -/

/-- `PrivilegeLevel`; what fits `mstatus.mpp`. -/
abbrev PrivilegeLevel := BitVec 2

abbrev MachineMode : PrivilegeLevel := 0b11#2
abbrev SupervisorMode : PrivilegeLevel := 0b01#2
abbrev UserMode : PrivilegeLevel := 0b00#2

/-- `MemoryAccessType`. -/
inductive MemoryAccessType where
  | FETCH | LOAD | STORE
deriving DecidableEq

/-- `tlb_entry_t`. -/
structure TlbEntry where
  ppn : BitVec 64 := -1
  vpn : BitVec 64 := -1
deriving DecidableEq

/-- The state of a `GenericMMU`. -/
structure Mmu where
  /-- The pointer `mem` to the memory interface is set. -/
  connected : Bool := false
  pageFaultOnAD : Bool := false
  tlb : PrivilegeLevel → MemoryAccessType → BitVec 8 → TlbEntry := fun _ _ _ => {}

/-- What a target has asked of the core and the core has yet to do. -/
inductive CoreRequest where
  | interrupt (line : Fin 32) (level : Bool)
  | syscall
  | exit
  | processedPacket
deriving DecidableEq

/-- The memory interface with what is behind it. -/
structure Interface where
  busLock : BusLock := {}
  /-- The object that `lr_addr` points to. -/
  lrAddr : Option Nat := none
  mmu : Option Mmu := none
  bus : SimpleBus
  requests : List CoreRequest := []
  log : List Event := []

/-- What the memory interface reads of the core. -/
structure CoreView where
  hartId : BitVec 32
  prv : PrivilegeLevel
  mstatus : BitVec 32
  satp : BitVec 32

abbrev MemM := Effect Exception Interface

def raiseTrap {S α : Type} (exc : ExceptionCode) (mtval : BitVec 64) : Effect Exception S α :=
  throw (.trap exc mtval)

/-- `assert`. -/
def ensure {S : Type} (assertion : Assertion) (cond : Bool) : Effect Exception S Unit :=
  if cond then pure () else throw (.abort assertion)

namespace Interface

def note (event : Event) : MemM Unit := modify fun io => { io with log := io.log ++ [event] }

/-- `Solver::getValue` of a concrete part. -/
def getValue {w : Nat} (value : ConcolicValue w) : MemM (BitVec w) := do
  note (.concretised ⟨w, value⟩)
  return value.concrete

/-- The bytes of a transaction are used in place of its symbolic extension. -/
def noteExtension : Option Concolic → MemM Unit
  | none => pure ()
  | some value => note (.concretised value)

def atomicUnlock (view : CoreView) : MemM Unit :=
  modify fun io => { io with busLock := io.busLock.unlock view.hartId }

def waitForAccessRights (view : CoreView) : MemM Unit :=
  modify fun io => { io with busLock := io.busLock.waitForAccessRights view.hartId }

/-! ## Transactions -/

/-- A function that performs a transaction. -/
abbrev Transact := Payload → MemM Payload

/-- `isock->b_transport`, without the requests that come of it. -/
def transport (payload : Payload) : MemM Outcome := do
  let outcome ← modifyGet fun io =>
    let (outcome, bus) := io.bus.transport payload
    (outcome, { io with bus })
  noteExtension outcome.seen
  ensure .target (!outcome.hostError)
  return outcome

/-- A request that a target makes; `store` is `symbolic_store_data`. For size zero the value is the
null pointer. -/
def serve (store : (size : Nat) → BitVec 32 → ConcolicValue (8 * size) → MemM Unit) :
    Request → MemM Unit
  | .makeSymbolic addr size value =>
    if size = 0 then throw (.abort .symbolicSize) else store size addr value
  | .interrupt line level =>
    modify fun io => { io with requests := io.requests ++ [.interrupt line level] }
  | .syscall => modify fun io => { io with requests := io.requests ++ [.syscall] }
  | .exit => modify fun io => { io with requests := io.requests ++ [.exit] }
  | .processedPacket => modify fun io => { io with requests := io.requests ++ [.processedPacket] }

/-- `_do_transaction` of a payload. -/
def doTransaction (store : (size : Nat) → BitVec 32 → ConcolicValue (8 * size) → MemM Unit) :
    Transact := fun payload => do
  let outcome ← transport payload
  outcome.requests.forM (serve store)
  if outcome.payload.isResponseError then
    match outcome.payload.command with
    | .read => raiseTrap .EXC_LOAD_PAGE_FAULT outcome.payload.address
    | .write => raiseTrap .EXC_STORE_AMO_PAGE_FAULT outcome.payload.address
  else return outcome.payload

/-- The little-endian word of four bytes. -/
def wordOfBytes (bytes : List (BitVec 8)) : BitVec 32 :=
  bytes.getD 3 0 ++ bytes.getD 2 0 ++ bytes.getD 1 0 ++ bytes.getD 0 0

def bytesOfWord (word : BitVec 32) : List (BitVec 8) :=
  [word.extractLsb' 0 8, word.extractLsb' 8 8, word.extractLsb' 16 8, word.extractLsb' 24 8]

section

variable (transact : Transact) (view : CoreView)

/-- `concrete_load_data<uint32_t>`. -/
def concreteLoadData (addr : BitVec 64) : MemM (BitVec 32) := do
  waitForAccessRights view
  let payload ← transact
    { command := .read, address := addr, data := List.replicate 4 0#8, length := 4 }
  noteExtension payload.extension
  return wordOfBytes payload.data

/-- `concrete_store_data<uint32_t>`. -/
def concreteStoreData (addr : BitVec 64) (value : BitVec 32) : MemM Unit := do
  waitForAccessRights view
  let _ ← transact { command := .write, address := addr, data := bytesOfWord value, length := 4 }
  atomicUnlock view

/-! ## Address translation -/

abbrev PTE_V : BitVec 64 := 1#64
abbrev PTE_R : BitVec 64 := 1#64 <<< 1
abbrev PTE_W : BitVec 64 := 1#64 <<< 2
abbrev PTE_X : BitVec 64 := 1#64 <<< 3
abbrev PTE_U : BitVec 64 := 1#64 <<< 4
abbrev PTE_A : BitVec 64 := 1#64 <<< 6
abbrev PTE_D : BitVec 64 := 1#64 <<< 7

/-- A flag of a page-table entry. -/
def pteFlag (pte flag : BitVec 64) : Bool := pte &&& flag ≠ 0#64

/-- A leaf entry refuses the access. -/
def refuses (pte : BitVec 64) (type : MemoryAccessType) (sMode : Bool) : Bool :=
  let sum := view.mstatus.getLsbD 18
  let mxr := view.mstatus.getLsbD 19
  (type = .FETCH && !pteFlag pte PTE_X) ||
    (type = .LOAD && !pteFlag pte PTE_R && !(mxr && pteFlag pte PTE_X)) ||
    (type = .STORE && !(pteFlag pte PTE_R && pteFlag pte PTE_W)) ||
    (if pteFlag pte PTE_U then sMode && (type = .FETCH || !sum) else !sMode)

/-- The loop of `walk` from level `i - 1` down, where the table is at `base`; `none` is a page
fault. -/
def walkLevels (vaddr : BitVec 64) (type : MemoryAccessType) (sMode : Bool) :
    Nat → BitVec 64 → MemM (Option (BitVec 64))
  | 0, _ => return none
  | i + 1, base => do
      let ptshift := i * 10
      let vpnField := (vaddr >>> (12 + ptshift)) &&& 0x3ff#64
      let ptePaddr := base + vpnField * 4
      ensure .pageTableMemory ((← get).mmu.any (·.connected))
      let pte := (← concreteLoadData transact view ptePaddr).setWidth 64
      let ppn := pte >>> 10
      let mask := (1#64 <<< ptshift) - 1
      if !pteFlag pte PTE_V || (!pteFlag pte PTE_R && pteFlag pte PTE_W) then return none
      else if !pteFlag pte PTE_R && !pteFlag pte PTE_X then
        walkLevels vaddr type sMode i (ppn <<< 12)
      else if refuses view pte type sMode then return none
      -- a superpage whose physical page is not aligned
      else if ppn &&& mask ≠ 0#64 then return none
      else
        let ad := PTE_A ||| (if type = .STORE then PTE_D else 0#64)
        let paddr := (((ppn &&& ~~~mask) ||| ((vaddr >>> 12) &&& mask)) <<< 12) |||
          (vaddr &&& 0xfff#64)
        if pte &&& ad = ad then return some paddr
        else if (← get).mmu.any (·.pageFaultOnAD) then return none
        else do
          concreteStoreData transact view ptePaddr ((pte ||| ad).setWidth 32)
          return some paddr

/-- `walk`; the check of the sign extension accepts every address of 32 bits. -/
def walk (vaddr : BitVec 64) (type : MemoryAccessType) (mode : PrivilegeLevel) :
    MemM (BitVec 64) := do
  let ptbase := ((view.satp.extractLsb' 0 22).setWidth 64) <<< 12
  match ← walkLevels transact view vaddr type (mode = SupervisorMode) 2 ptbase with
  | some paddr => return paddr
  | none =>
    match type with
    | .FETCH => raiseTrap .EXC_INSTR_PAGE_FAULT vaddr
    | .LOAD => raiseTrap .EXC_LOAD_PAGE_FAULT vaddr
    | .STORE => raiseTrap .EXC_STORE_AMO_PAGE_FAULT vaddr

/-- The privilege mode under which an access is translated. -/
def effectiveMode (type : MemoryAccessType) : PrivilegeLevel :=
  if type ≠ .FETCH ∧ view.mstatus.getLsbD 17 then view.mstatus.extractLsb' 11 2 else view.prv

/-- An entry of the translation cache. -/
def setTlb (mode : PrivilegeLevel) (type : MemoryAccessType) (idx : BitVec 8) (entry : TlbEntry) :
    MemM Unit :=
  modify fun io => { io with mmu := io.mmu.map fun mmu => { mmu with
    tlb := fun m t i => if m = mode ∧ t = type ∧ i = idx then entry else mmu.tlb m t i } }

def translateVirtualToPhysicalAddr (mmu : Mmu) (vaddr : BitVec 64) (type : MemoryAccessType) :
    MemM (BitVec 64) := do
  if view.satp.getLsbD 31 = false then return vaddr
  else
    let mode := effectiveMode view type
    if mode = MachineMode then return vaddr
    else do
      ensure .privilegeMode (mode = UserMode || mode = SupervisorMode)
      let vpn := vaddr >>> 12
      let idx := vpn.setWidth 8
      let x := mmu.tlb mode type idx
      if x.vpn = vpn then return x.ppn ||| (vaddr &&& 0xfff#64)
      else do
        let paddr ← walk transact view vaddr type mode
        -- `PGMASK` is 32 bits wide, so its complement also clears the bits from 32 on
        setTlb mode type idx ⟨paddr &&& 0xfffff000#64, vpn⟩
        return paddr

def v2p (vaddr : BitVec 64) (type : MemoryAccessType) : MemM (BitVec 64) := do
  match (← get).mmu with
  | none => return vaddr
  | some mmu => translateVirtualToPhysicalAddr transact view mmu vaddr type

/-! ## Loads and stores -/

/-- `symbolic_store_data`. -/
def symbolicStoreData {w : Nat} (addr : ConcolicValue 32) (data : ConcolicValue w)
    (numBytes : Nat) : MemM Unit := do
  waitForAccessRights view
  let caddr ← getValue addr
  note (.access .write caddr)
  let paddr ← v2p transact view (caddr.setWidth 64) .STORE
  let _ ← transact
    { command := .write, address := paddr, data := data.toBytes numBytes, length := numBytes,
      extension := some ⟨w, data⟩ }
  atomicUnlock view

/-- `symbolic_load_data`, which translates the address of a load as that of a store. -/
def symbolicLoadData (addr : ConcolicValue 32) (numBytes : Nat) : MemM Concolic := do
  waitForAccessRights view
  let caddr ← getValue addr
  note (.access .read caddr)
  let paddr ← v2p transact view (caddr.setWidth 64) .STORE
  let payload ← transact
    { command := .read, address := paddr, data := List.replicate numBytes 0#8, length := numBytes }
  return payload.extension.getD ⟨_, ConcolicValue.ofBuffer payload.data⟩

def loadInstr (addr : BitVec 32) : MemM (BitVec 32) := do
  let paddr ← v2p transact view (addr.setWidth 64) .FETCH
  concreteLoadData transact view paddr

/-- `load_word`, `load_half` and `load_byte`: a signed load of some bytes. -/
def loadSigned (numBytes : Nat) (addr : ConcolicValue 32) : MemM (ConcolicValue 32) := do
  let r ← symbolicLoadData transact view addr numBytes
  return r.value.sext 32

/-- `load_uhalf` and `load_ubyte`: an unsigned load of some bytes. -/
def loadUnsigned (numBytes : Nat) (addr : ConcolicValue 32) : MemM Concolic := do
  let r ← symbolicLoadData transact view addr numBytes
  return if r.width < 32 then ⟨32, r.value.zext 32⟩ else r

def loadWord := loadSigned transact view 4
def loadHalf := loadSigned transact view 2
def loadByte := loadSigned transact view 1
def loadUhalf := loadUnsigned transact view 2
def loadUbyte := loadUnsigned transact view 1

def storeWord (addr value : ConcolicValue 32) : MemM Unit :=
  symbolicStoreData transact view addr value 4

def storeHalf (addr value : ConcolicValue 32) : MemM Unit :=
  symbolicStoreData transact view addr value 2

def storeByte (addr value : ConcolicValue 32) : MemM Unit :=
  symbolicStoreData transact view addr value 1

/-! ## Atomic accesses -/

/-- `bus_lock->lock`. -/
def lock : MemM Unit := modify fun io => { io with busLock := io.busLock.lock view.hartId }

def atomicLoadWord (addr : ConcolicValue 32) : MemM (ConcolicValue 32) := do
  lock view
  loadWord transact view addr

def atomicStoreWord (addr value : ConcolicValue 32) : MemM Unit := do
  ensure .busLock ((← get).busLock.isLocked view.hartId)
  storeWord transact view addr value

/-- `atomic_load_reserved_word`; `object` is the object of the address. -/
def atomicLoadReservedWord (object : Nat) (addr : ConcolicValue 32) :
    MemM (ConcolicValue 32) := do
  lock view
  modify fun io => { io with lrAddr := some object }
  loadWord transact view addr

/-- `atomic_store_conditional_word`, which compares the addresses as pointers. -/
def atomicStoreConditionalWord (object : Nat) (addr value : ConcolicValue 32) : MemM Bool := do
  let io ← get
  if io.busLock.isLocked view.hartId then
    if io.lrAddr = some object then do
      storeWord transact view addr value
      return true
    else do
      atomicUnlock view
      return false
  else return false

end

/-- Transactions nested up to a given depth. -/
def transact (view : CoreView) : Nat → Transact
  | 0 => fun _ => throw (.abort .stack)
  | depth + 1 => doTransaction fun size addr value =>
    symbolicStoreData (transact view depth) view ⟨addr, none⟩ value size

end Interface

end SpsVp.Rv32
