import SpsVp.Platform.RegisterMap
import SpsVp.Platform.Slip
import SpsVp.Symex.Message

/-!
# The symbolic UART

`SymbolicUART` of `platform/hifive/symbolic_uart.cpp` with `ProtocolStates` behind it. A frame that
the guest sends is passed to the protocol server, which answers with a message. The guest reads the
message byte by byte from `rxdata`; a byte whose value is one of the reserved values of SLIP, or
between them, is replaced by its remainder. When no byte is left the device returns `END` and then
the empty flag.

The device does not know whether the guest has seen the `END` of a message. It looks at the last
value of `rxdata` instead.

The server is a function from the packets that were sent so far to its answer. The delay of a
notification is left out.
-/

namespace SpsVp.Platform

open Lib Effect Clover Klee Symex

/-- A message that was not read yet. -/
structure Message where
  format : SymbolicFormat
  fresh : format.offset = format.input.width
  nonempty : 0 < format.offset

/-- The message that `SymbolicFormat` makes of the answer of the server to some packets, or the
exception that is thrown. -/
abbrev Server := List Packet → Except String Message

/-- The registers. -/
inductive UartRegister where
  | txdata | rxdata | txctrl | rxctrl | ie | ip | div
deriving DecidableEq

/-- `SymbolicUART` and its `ProtocolStates`. -/
structure Uart where
  txdata : BitVec 32 := 0#32
  rxdata : BitVec 32 := 0#32
  txctrl : BitVec 32 := 0#32
  rxctrl : BitVec 32 := 0#32
  ie : BitVec 32 := 0#32
  ip : BitVec 32 := 0#32
  div : BitVec 32 := 0#32
  pktCnt : Nat := 0
  transmitter : SymbolicUart := {}
  lastMsg : Option SymbolicFormat := none
  /-- `asyncEvent` is notified. -/
  asyncEvent : Bool := false

inductive UartError where
  | slip (e : SlipError)
  /-- `ProtocolStates::next_byte`: "no low-level SISL message available". -/
  | noMessage
  /-- An access through the null pointer that `SymbolicFormat::next_byte` returns. -/
  | nullPointer

abbrev UART_TXWM : BitVec 32 := 1#32 <<< 0
abbrev UART_RXWM : BitVec 32 := 1#32 <<< 1
abbrev UART_FULL : BitVec 32 := 1#32 <<< 31

/-- `UART_CTRL_CNT`. -/
def ctrlCnt (reg : BitVec 32) : BitVec 32 := reg >>> 16

namespace Uart

abbrev UartM := Effect UartError Uart

/-! ## Protocol states -/

def remainingBytes (s : Uart) : Nat := s.lastMsg.elim 0 SymbolicFormat.remainingBytes

def empty (s : Uart) : Bool := s.remainingBytes == 0

def nextByte : UartM (ConcolicValue 8) := fun s =>
  match s.lastMsg with
  | none => .error .noMessage s
  | some msg =>
    match msg.nextByte with
    | (none, msg) => .error .nullPointer { s with lastMsg := some msg }
    | (some byte, msg) => .ok byte { s with lastMsg := some msg }

/-- What `ProtocolStates::send_message` throws for a packet, if anything. -/
def sendMessage (server : Server) (s : Uart) (packet : Packet) : Option String :=
  if s.empty = false then some "previous message has not been fully received"
  else match server (s.transmitter.messages ++ [packet]) with
    | .ok _ => none
    | .error what => some what

/-! ## Receiver -/

/-- A byte that is none of the reserved ones. -/
def remap (reg : ConcolicValue 8) : ConcolicValue 8 :=
  let slipEnd : ConcolicValue 8 := ⟨SLIP_END, none⟩
  let slipEscEsc : ConcolicValue 8 := ⟨SLIP_ESC_ESC, none⟩
  ((reg.uge slipEnd).band (reg.ule slipEscEsc)).select (reg.urem slipEnd) reg

/-- The read of `rxdata` when a message is there. -/
def receive : UartM (Option Concolic) := do
  let byte ← nextByte
  let reg := (remap byte).zext 32
  modify fun s => { s with rxdata := reg.concrete }
  return some ⟨32, reg⟩

/-- The read of `rxdata` when all bytes were read. -/
def drain (s : Uart) : Uart :=
  if s.rxdata = SLIP_END.setWidth 32 then { s with rxdata := UART_FULL }
  else { s with pktCnt := s.pktCnt + 1, rxdata := SLIP_END.setWidth 32 }

/-- The read of `rxdata`, with the extension. -/
def readRxdata : UartM (Option Concolic) := do
  let s ← get
  if s.ie &&& UART_RXWM = 0#32 then do
    set { s with rxdata := UART_FULL }
    return none
  else if s.empty then do
    set s.drain
    return none
  else receive

/-- The value of `ip`. -/
def pendingInterrupts (s : Uart) : BitVec 32 :=
  if (ctrlCnt s.rxctrl).toNat < s.remainingBytes then UART_TXWM ||| UART_RXWM else UART_TXWM

/-- The first part of `register_access_callback` for a read. -/
def prepareRead : UartRegister → UartM (Option Concolic)
  | .txdata => do
      modify fun s => { s with txdata := 0#32 }
      return none
  | .rxdata => readRxdata
  | .ip => do
      modify fun s => { s with ip := s.pendingInterrupts }
      return none
  | _ => return none

/-! ## Transmitter -/

/-- The byte ends a frame that is not empty. -/
def completes (s : Uart) (nv : BitVec 32) : Bool :=
  nv.setWidth 8 == SLIP_END && 0 < s.transmitter.sndbuf.bytes.length

/-- The byte is the second one of an escape sequence, after which the callback returns. -/
def unescapes (s : Uart) (nv : BitVec 32) : Bool :=
  nv.setWidth 8 != SLIP_END && (s.transmitter.sndbuf.unescape (nv.setWidth 8)).isSome

/-- The answer of the server becomes the last message, and `tx_callback` triggers the interrupt. -/
def answered (server : Server) (s : Uart) : Uart :=
  match server s.transmitter.messages with
  | .ok message => { s with lastMsg := some message.format, asyncEvent := true }
  | .error _ => s

/-- The write of `txdata`. -/
def transmit (server : Server) (nv : BitVec 32) : UartM Unit := do
  let s ← get
  zoom Uart.transmitter (fun transmitter s => { s with transmitter })
    (mapError .slip (SymbolicUart.txdataWritten (sendMessage server s) nv))
  if s.completes nv then modify (answered server)

/-! ## Registers -/

def value : UartRegister → Uart → BitVec 32
  | .txdata, s => s.txdata
  | .rxdata, s => s.rxdata
  | .txctrl, s => s.txctrl
  | .rxctrl, s => s.rxctrl
  | .ie, s => s.ie
  | .ip, s => s.ip
  | .div, s => s.div

def assign : UartRegister → BitVec 32 → Uart → Uart
  | .txdata, value, s => { s with txdata := value }
  | .rxdata, value, s => { s with rxdata := value }
  | .txctrl, value, s => { s with txctrl := value }
  | .rxctrl, value, s => { s with rxctrl := value }
  | .ie, value, s => { s with ie := value }
  | .ip, value, s => { s with ip := value }
  | .div, value, s => { s with div := value }

def find (addr : BitVec 64) : Option UartRegister :=
  [(0x0#64, .txdata), (0x4#64, .rxdata), (0x8#64, .txctrl), (0xC#64, .rxctrl), (0x10#64, .ie),
    (0x14#64, .ip), (0x18#64, .div)].lookup addr

/-- `notify`. -/
def notifies (s : Uart) (command : Command) (r : UartRegister) (nv : BitVec 32) : Bool :=
  (command == .write && (r == .txctrl && ctrlCnt nv < ctrlCnt s.txctrl ||
    r == .rxctrl && ctrlCnt nv < ctrlCnt s.rxctrl)) || s.ie &&& UART_TXWM != 0#32

/-- The last part of `register_access_callback`: the access is performed. -/
def finish (command : Command) (r : UartRegister) (nv : BitVec 32) (fn : UartM (Option (BitVec 32)))
    (extension : Option Concolic) : UartM Handled := do
  let s ← get
  let read ← fn
  modify fun t => { t with
    asyncEvent := t.asyncEvent || command == .write && r == .ie || s.notifies command r nv }
  return { read, extension }

/-- `register_access_callback` for a write to `txdata`. -/
def txdataCallback (server : Server) (nv : BitVec 32) (fn : UartM (Option (BitVec 32))) :
    UartM Handled := do
  let s ← get
  transmit server nv
  if s.unescapes nv then return {} else finish .write .txdata nv fn none

def registerAccessCallback (server : Server) (command : Command) (r : UartRegister) (nv : BitVec 32)
    (fn : UartM (Option (BitVec 32))) : UartM Handled :=
  match command with
  | .read => do
      let extension ← prepareRead r
      finish .read r nv fn extension
  | .write => if r = .txdata then txdataCallback server nv fn else finish .write r nv fn none

def bank (server : Server) : RegisterBank UartError Uart UartRegister where
  find := find
  value := value
  assign := assign
  handler := registerAccessCallback server

def transport (server : Server) : Access → Effect (RegisterError UartError) Uart Answer :=
  (bank server).transport

end Uart

end SpsVp.Platform
