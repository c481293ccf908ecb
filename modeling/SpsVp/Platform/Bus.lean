import SpsVp.Clover.Memory

/-!
# The interconnect

A transaction as the memory interface of the core issues it, the targets that serve it, and
`SimpleBus` of `platform/common/bus.h`, which finds the target by address and replaces the address
of the transaction by the one inside the target.

The memory of the symbolic platforms is `SymbolicMemory`. Any other target sees the concrete bytes
of a transaction only, so it is a function of the accesses made to it so far: what it answers, and
what it asks of the core while it serves the access. The time that a transaction takes is left out.
-/

namespace SpsVp.Platform

open Clover

/-- `tlm_command`. -/
inductive Command where
  | read | write
deriving DecidableEq

/-- `tlm_generic_payload`, with the fields that the targets of this repository use. -/
structure Payload where
  command : Command
  address : BitVec 64
  /-- The buffer behind the data pointer. -/
  data : List (BitVec 8)
  length : Nat
  /-- The value of the `SymbolicExtension`, if there is one. -/
  extension : Option Concolic := none
  isResponseError : Bool := false

/-! ## Targets -/

/-- `SymbolicMemory` of `symex/symbolic_memory.cpp`. -/
structure SymbolicMemory where
  size : Nat
  memory : ConcolicMemory

namespace SymbolicMemory

def readData (m : SymbolicMemory) (payload : Payload) : Payload :=
  let data := m.memory.load (payload.address.setWidth 32) payload.length
  { payload with data := data.toBytes payload.length, extension := some ⟨_, data⟩ }

/-- `write_data` takes the value of the extension, or the bytes when there is none. -/
def writeData (m : SymbolicMemory) (payload : Payload) : SymbolicMemory :=
  let value : Concolic := payload.extension.getD ⟨_, ConcolicValue.ofBuffer payload.data⟩
  { m with memory := m.memory.store (payload.address.setWidth 32) value.value payload.length }

/-- `transport_dbg`; the sum is one of 64-bit words. -/
def transport (m : SymbolicMemory) (payload : Payload) : Payload × SymbolicMemory :=
  if (payload.address + BitVec.ofNat 64 payload.length).toNat > m.size then
    ({ payload with isResponseError := true }, m)
  else
    match payload.command with
    | .read => (m.readData payload, m)
    | .write => (payload, m.writeData payload)

end SymbolicMemory

/-- An access to a target as it sees it: its own address and the concrete bytes. -/
structure Access where
  command : Command
  address : BitVec 64
  data : List (BitVec 8)
  length : Nat
deriving DecidableEq

/-- What a target asks of the core while it serves an access. -/
inductive Request where
  /-- `symbolic_iss_if::make_symbolic`, with the value that the execution context has handed out. -/
  | makeSymbolic (addr : BitVec 32) (size : Nat) (value : ConcolicValue (8 * size))
  /-- The level of an interrupt line, a bit of `mip`. -/
  | interrupt (line : Fin 32) (level : Bool)
  /-- `SyscallHandler::transport`. -/
  | syscall
  /-- `sys_exit`. -/
  | exit
  /-- `sys_processed_packet`. -/
  | processedPacket

/-- What a target returns: the bytes that are read, as they are or with a symbolic extension beside
them. -/
inductive Answer where
  | none
  | bytes (data : List (BitVec 8))
  | extended (data : List (BitVec 8)) (value : Concolic)

/-- How a target serves an access. -/
inductive Response where
  /-- The access is served and the requests are made, in this order. -/
  | served (answer : Answer) (requests : List Request)
  /-- `TLM_ADDRESS_ERROR_RESPONSE`. -/
  | addressError
  /-- An assertion of the target fails, or it throws. -/
  | hostError

/-- A target other than the memory. -/
structure Device where
  /-- The response to the last access of a history. -/
  respond : List Access → Response
  history : List Access

/-- A target of the bus. -/
inductive Target where
  | memory (memory : SymbolicMemory)
  | device (device : Device)

/-- What comes of a transaction: the payload after it, what the target asks of the core, and the
value whose bytes a device has seen. -/
structure Outcome where
  payload : Payload
  requests : List Request := []
  seen : Option Concolic := none
  hostError : Bool := false

/-- The payload with what was read. -/
def Payload.answered (payload : Payload) : Answer → Payload
  | .none => payload
  | .bytes data => { payload with data := data }
  | .extended data value => { payload with data := data, extension := some value }

/-- The value that a device sees the bytes of. -/
def Payload.shown (payload : Payload) : Option Concolic :=
  if payload.command = .write then payload.extension else none

namespace Device

/-- A device serves an access. -/
def transport (d : Device) (payload : Payload) : Outcome × Device :=
  let history := d.history ++ [⟨payload.command, payload.address, payload.data, payload.length⟩]
  let outcome : Outcome :=
    match d.respond history with
    | .served answer requests =>
      { payload := payload.answered answer, requests, seen := payload.shown }
    | .addressError =>
      { payload := { payload with isResponseError := true }, seen := payload.shown }
    | .hostError => { payload, seen := payload.shown, hostError := true }
  (outcome, { d with history })

end Device

def Target.transport (target : Target) (payload : Payload) : Outcome × Target :=
  match target with
  | .memory m =>
    let (payload, m) := m.transport payload
    ({ payload }, .memory m)
  | .device d =>
    let (outcome, d) := d.transport payload
    (outcome, .device d)

/-! ## Bus -/

/-- `PortMapping`. -/
structure PortMapping where
  start : BitVec 64
  last : BitVec 64
deriving DecidableEq

namespace PortMapping

def contains (port : PortMapping) (addr : BitVec 64) : Bool :=
  port.start ≤ addr && addr ≤ port.last

def globalToLocal (port : PortMapping) (addr : BitVec 64) : BitVec 64 := addr - port.start

end PortMapping

/-- `SimpleBus`: the ports with the targets bound to them. -/
abbrev SimpleBus := List (PortMapping × Target)

/-- `SimpleBus::transport`: the first port that contains the address. -/
def SimpleBus.transport : SimpleBus → Payload → Outcome × SimpleBus
  | [], payload => ({ payload := { payload with isResponseError := true } }, [])
  | (port, target) :: rest, payload =>
    if port.contains payload.address then
      let (outcome, target) :=
        target.transport { payload with address := port.globalToLocal payload.address }
      (outcome, (port, target) :: rest)
    else
      let (outcome, rest) := SimpleBus.transport rest payload
      (outcome, (port, target) :: rest)

/-! ## Bus lock -/

/-- `BusLock`: the hart that holds the lock. -/
structure BusLock where
  owner : Option (BitVec 32) := none
deriving DecidableEq

namespace BusLock

def isLocked (l : BusLock) (hartId : BitVec 32) : Bool := l.owner == some hartId

/-- `wait_for_access_rights` returns when no other hart holds the lock. -/
def waitForAccessRights (l : BusLock) (hartId : BitVec 32) : BusLock :=
  if l.isLocked hartId then l else ⟨none⟩

def lock (_ : BusLock) (hartId : BitVec 32) : BusLock := ⟨some hartId⟩

def unlock (l : BusLock) (hartId : BitVec 32) : BusLock :=
  if l.isLocked hartId then ⟨none⟩ else l

variable {l : BusLock} {hart hart' : BitVec 32}

theorem isLocked_of_waitForAccessRights (h : (l.waitForAccessRights hart).isLocked hart' = true) :
    l.isLocked hart' = true := by
  unfold waitForAccessRights at h
  split at h
  · exact h
  · cases h

theorem isLocked_of_unlock (h : (l.unlock hart).isLocked hart' = true) :
    l.isLocked hart' = true := by
  unfold unlock at h
  split at h
  · cases h
  · exact h

theorem isLocked_unlock (l : BusLock) (hart : BitVec 32) :
    (l.unlock hart).isLocked hart = false := by
  unfold unlock
  split
  · rfl
  · next h => exact Bool.eq_false_of_not_eq_true h

theorem isLocked_waitForAccessRights (l : BusLock) (hart : BitVec 32) :
    (l.waitForAccessRights hart).isLocked hart = l.isLocked hart := by
  unfold waitForAccessRights
  split
  · rfl
  · next h => exact (Bool.eq_false_of_not_eq_true h).symm

end BusLock

end SpsVp.Platform
