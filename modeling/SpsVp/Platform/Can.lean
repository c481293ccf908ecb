import Mathlib.Data.Fintype.Pi
import Mathlib.Data.BitVec
import Mathlib.Tactic.IntervalCases
import SpsVp.Lib.Bits
import SpsVp.Lib.Effect

/-!
# The CAN controller

`CAN` of `platform/hifive/can.cpp`, a device behind the SPI master that stands for an MCP2515: the
guest sends it one byte at a time, and each byte is answered by one. Which instruction a byte
belongs to is kept in `state`; how far an instruction has come is kept in the static variables of
the functions, which are members here. The listener thread puts the frames that arrive into two
buffers.

The constructor sets `state`, `status` and `stop`. The registers and the buffers hold what was in
memory before, so nothing is assumed about them. An access outside of an array has no result
(`none`). The socket is the list of the frames that were written to it.
-/

namespace SpsVp.Platform

open Lib BitVec

/-! ## Frames -/

/-- `struct can_frame`. -/
@[ext] structure CanFrame where
  can_id : BitVec 32
  can_dlc : BitVec 8
  data : Fin 8 → BitVec 8
deriving DecidableEq

/-- `MCPFrame`: four bytes of identifier, the length and the payload. -/
structure MCPFrame where
  raw : Fin 69 → BitVec 8
deriving DecidableEq

namespace MCPFrame

variable (f : MCPFrame)

def id (i : Fin 4) : BitVec 8 := f.raw ⟨i, by omega⟩
def length : BitVec 8 := f.raw 4
def payload (i : Fin 64) : BitVec 8 := f.raw ⟨5 + i, by omega⟩

def setId (i : Fin 4) (byte : BitVec 8) : MCPFrame := ⟨Function.update f.raw ⟨i, by omega⟩ byte⟩
def setLength (byte : BitVec 8) : MCPFrame := ⟨Function.update f.raw 4 byte⟩

def setPayload (i : Fin 64) (byte : BitVec 8) : MCPFrame :=
  ⟨Function.update f.raw ⟨5 + i, by omega⟩ byte⟩

end MCPFrame

/-! ## Identifiers -/

local instance neZero_idLength : NeZero 4 := ⟨by decide⟩

abbrev MCP_SIDH : Fin 4 := 0
abbrev MCP_SIDL : Fin 4 := 1
abbrev MCP_EID8 : Fin 4 := 2
abbrev MCP_EID0 : Fin 4 := 3
abbrev MCP_TXB_EXIDE_M : BitVec 8 := 0x08#8

/-- The four bytes of an identifier. -/
abbrev IdField := Fin 4 → BitVec 8

/-- `mcp2515_id_to_buf`. -/
def mcp2515IdToBuf (id : BitVec 64) (idField : IdField) (extended : Bool) : IdField :=
  let canid := (id &&& 0x0FFFF#64).setWidth 16
  if extended then
    let idField := Function.update idField MCP_EID0 ((canid &&& 0xFF#16).setWidth 8)
    let idField := Function.update idField MCP_EID8 ((canid >>> 8).setWidth 8)
    let canid := (id >>> 16).setWidth 16
    let idField := Function.update idField MCP_SIDL ((canid &&& 0x03#16).setWidth 8)
    let idField := Function.update idField MCP_SIDL
      (idField MCP_SIDL + ((canid &&& 0x1C#16) <<< 3).setWidth 8)
    let idField := Function.update idField MCP_SIDL (idField MCP_SIDL ||| MCP_TXB_EXIDE_M)
    Function.update idField MCP_SIDH ((canid >>> 5).setWidth 8)
  else
    let idField := Function.update idField MCP_SIDH ((canid >>> 3).setWidth 8)
    let idField := Function.update idField MCP_SIDL (((canid &&& 0x07#16) <<< 5).setWidth 8)
    let idField := Function.update idField MCP_EID0 0#8
    Function.update idField MCP_EID8 0#8

/-- `mcp2515_buf_to_id`: the identifier, and whether it is an extended one. -/
def mcp2515BufToId (idField : IdField) : BitVec 32 × Bool :=
  let id := ((idField MCP_SIDH).setWidth 32 <<< 3) + (idField MCP_SIDL >>> 5).setWidth 32
  if idField MCP_SIDL &&& MCP_TXB_EXIDE_M = MCP_TXB_EXIDE_M then
    let id := (id <<< 2) + (idField MCP_SIDL &&& 0x03#8).setWidth 32
    let id := (id <<< 8) + (idField MCP_EID8).setWidth 32
    let id := (id <<< 8) + (idField MCP_EID0).setWidth 32
    (id, true)
  else (id, false)

/-! The layout of the four bytes. -/

theorem mcp2515BufToId_of_extended {idField : IdField}
    (h : idField MCP_SIDL &&& MCP_TXB_EXIDE_M = MCP_TXB_EXIDE_M) :
    mcp2515BufToId idField =
      ((idField MCP_SIDH ++ (idField MCP_SIDL).extractLsb' 5 3 ++
        (idField MCP_SIDL).extractLsb' 0 2 ++ idField MCP_EID8 ++ idField MCP_EID0).setWidth 32,
        true) := by
  have hhigh : (idField MCP_SIDL >>> 5).setWidth 32 =
      ((idField MCP_SIDL).extractLsb' 5 3).setWidth 32 := by
    refine eq_of_getLsbD_eq fun i hi => ?_
    rw [getLsbD_setWidth, getLsbD_setWidth, getLsbD_ushiftRight,
      getLsbD_extractLsb']
    by_cases h3 : i < 3
    · simp [h3]
    · simp [h3, getLsbD_of_ge (idField MCP_SIDL) (5 + i) (by omega)]
  have hlow : (idField MCP_SIDL &&& 0x03#8).setWidth 32 =
      ((idField MCP_SIDL).extractLsb' 0 2).setWidth 32 := by
    refine eq_of_getLsbD_eq fun i hi => ?_
    rw [getLsbD_setWidth, getLsbD_setWidth, getLsbD_and,
      getLsbD_extractLsb']
    interval_cases i <;> simp
  simp only [mcp2515BufToId, if_pos h, hhigh, hlow]
  rw [setWidth_append_eq_add, setWidth_append_eq_add, setWidth_append_eq_add,
    setWidth_append_eq_add]

theorem mcp2515IdToBuf_of_extended (id : BitVec 29) (idField : IdField) :
    (mcp2515IdToBuf (id.setWidth 64) idField true) MCP_SIDH = id.extractLsb' 21 8 ∧
    (mcp2515IdToBuf (id.setWidth 64) idField true) MCP_SIDL =
      id.extractLsb' 18 3 ++ 0b010#3 ++ id.extractLsb' 16 2 ∧
    (mcp2515IdToBuf (id.setWidth 64) idField true) MCP_EID8 = id.extractLsb' 8 8 ∧
    (mcp2515IdToBuf (id.setWidth 64) idField true) MCP_EID0 = id.extractLsb' 0 8 := by
  -- the two groups of bits that are added do not meet
  have hdisjoint : ((id.setWidth 64 >>> 16).setWidth 16 &&& 0x03#16).setWidth 8 &&&
      (((id.setWidth 64 >>> 16).setWidth 16 &&& 0x1C#16) <<< 3).setWidth 8 = 0#8 := by
    refine eq_of_getLsbD_eq fun i hi => ?_
    simp only [getLsbD_and, getLsbD_setWidth, getLsbD_shiftLeft]
    interval_cases i <;> simp
  simp only [MCP_SIDH, MCP_SIDL, MCP_EID8, MCP_EID0, mcp2515IdToBuf, if_true, Function.update_self,
    ne_eq, Fin.reduceEq, not_false_eq_true, Function.update_of_ne,
    add_eq_or_of_and_eq_zero _ _ hdisjoint]
  refine ⟨?_, ?_, ?_, ?_⟩
  all_goals
    refine eq_of_getLsbD_eq fun i hi => ?_
    simp only [getLsbD_ushiftRight, getLsbD_setWidth, getLsbD_extractLsb',
      getLsbD_and, getLsbD_or, getLsbD_shiftLeft, getLsbD_append,
      MCP_TXB_EXIDE_M]
    interval_cases i <;> simp

theorem mcp2515BufToId_extended (id : BitVec 29) (idField : IdField) :
    mcp2515BufToId (mcp2515IdToBuf (id.setWidth 64) idField true) = (id.setWidth 32, true) := by
  obtain ⟨hsidh, hsidl, heid8, heid0⟩ := mcp2515IdToBuf_of_extended id idField
  rw [mcp2515BufToId_of_extended, hsidh, hsidl, heid8, heid0]
  · refine congrArg (·, true) (eq_of_getLsbD_eq fun i hi => ?_)
    simp only [getLsbD_setWidth, getLsbD_extractLsb', getLsbD_append]
    interval_cases i <;> simp
  · rw [hsidl]
    refine eq_of_getLsbD_eq fun i hi => ?_
    simp only [getLsbD_and, getLsbD_extractLsb', getLsbD_append,
      MCP_TXB_EXIDE_M]
    interval_cases i <;> simp

theorem mcp2515BufToId_standard (id : BitVec 11) (idField : IdField) :
    mcp2515BufToId (mcp2515IdToBuf (id.setWidth 64) idField false) = (id.setWidth 32, false) := by
  simp only [MCP_SIDH, MCP_SIDL, MCP_EID8, MCP_EID0, mcp2515BufToId, mcp2515IdToBuf,
    Bool.false_eq_true, if_false, Function.update_self, ne_eq, Fin.reduceEq, not_false_eq_true,
    Function.update_of_ne]
  revert id
  decide +kernel

/-- Every identifier comes back from the four bytes, with its kind. -/
theorem mcp2515BufToId_mcp2515IdToBuf (idField : IdField) :
    (∀ id : BitVec 11,
      mcp2515BufToId (mcp2515IdToBuf (id.setWidth 64) idField false) = (id.setWidth 32, false)) ∧
    ∀ id : BitVec 29,
      mcp2515BufToId (mcp2515IdToBuf (id.setWidth 64) idField true) = (id.setWidth 32, true) :=
  ⟨fun id => mcp2515BufToId_standard id idField, fun id => mcp2515BufToId_extended id idField⟩

/-! ## The device -/

/-- `CAN::State`, without the values that are never used. -/
inductive CanState where
  | init | readRegister | writeRegister | bitmod
  | loadTX0 | loadTX1 | loadTX2
  | sendTX0 | sendTX1 | sendTX2 | sendALL
  | readRX0 | readRX1
  | getStatus
deriving DecidableEq

/-- The states of `ModReg`. -/
inductive ModRegState where
  | address | mask | data
deriving DecidableEq

/-- `command` of `modifyRegister`. -/
structure ModReg where
  state : ModRegState := .address
  address : BitVec 8 := 0#8
  mask : BitVec 8 := 0#8
  data : BitVec 8 := 0#8
deriving DecidableEq

/-- The states of `LoadTX`. -/
inductive LoadTXState where
  | id | length | payload
deriving DecidableEq

/-- `command` of `loadTxBuf`. -/
structure LoadTX where
  state : LoadTXState := .id
  payload_ptr : BitVec 8 := 0#8
deriving DecidableEq

abbrev MCP_RXB1SIDH : Nat := 0x71
abbrev MCP_TXB0CTRL : Fin (MCP_RXB1SIDH + 1) := 0x30

/-- `CAN`. -/
structure Can where
  state : CanState := .init
  registers : Fin (MCP_RXB1SIDH + 1) → BitVec 8
  txBuf : Fin 3 → MCPFrame
  rxBuf : Fin 2 → MCPFrame
  status : BitVec 8 := 0#8
  /-- The frames that were written to the socket. -/
  sent : List CanFrame := []
  /-- `selectedRegister` of `readRegister`. -/
  readSelected : BitVec 16 := -1
  /-- `selectedRegister` of `writeRegister`. -/
  writeSelected : BitVec 16 := -1
  modReg : ModReg := {}
  loadTX : LoadTX := {}
  /-- `payload_ptr` of `readRxBuf`. -/
  rxPtr : BitVec 8 := 0#8

namespace Can

abbrev MCP_WRITE : BitVec 8 := 0x02#8
abbrev MCP_READ : BitVec 8 := 0x03#8
abbrev MCP_BITMOD : BitVec 8 := 0x05#8
abbrev MCP_LOAD_TX0 : BitVec 8 := 0x40#8
abbrev MCP_LOAD_TX1 : BitVec 8 := 0x42#8
abbrev MCP_LOAD_TX2 : BitVec 8 := 0x44#8
abbrev MCP_RTS_TX0 : BitVec 8 := 0x81#8
abbrev MCP_RTS_TX1 : BitVec 8 := 0x82#8
abbrev MCP_RTS_TX2 : BitVec 8 := 0x84#8
abbrev MCP_RTS_ALL : BitVec 8 := 0x87#8
abbrev MCP_READ_RX0 : BitVec 8 := 0x90#8
abbrev MCP_READ_RX1 : BitVec 8 := 0x94#8
abbrev MCP_READ_STATUS : BitVec 8 := 0xA0#8
abbrev MCP_RX_STATUS : BitVec 8 := 0xB0#8
abbrev MCP_RESET : BitVec 8 := 0xC0#8

/-- The state that an instruction begins in. `MCP_RX_STATUS` and the unknown instructions change
nothing. -/
def stateOf (byte : BitVec 8) : Option CanState :=
  switch byte
    [(MCP_WRITE, some .writeRegister), (MCP_READ, some .readRegister), (MCP_BITMOD, some .bitmod),
      (MCP_LOAD_TX0, some .loadTX0), (MCP_LOAD_TX1, some .loadTX1), (MCP_LOAD_TX2, some .loadTX2),
      (MCP_RTS_TX0, some .sendTX0), (MCP_RTS_TX1, some .sendTX1), (MCP_RTS_TX2, some .sendTX2),
      (MCP_RTS_ALL, some .sendALL), (MCP_READ_RX0, some .readRX0), (MCP_READ_RX1, some .readRX1),
      (MCP_READ_STATUS, some .getStatus), (MCP_RX_STATUS, none), (MCP_RESET, some .init)] none

def command (c : Can) (byte : BitVec 8) : Can := { c with state := (stateOf byte).getD c.state }

/-- The byte that is answered, and the device after it. -/
abbrev Answer := Option (BitVec 8 × Can)

/-- `readRegister`. The register number is signed; it is increased with every byte. -/
def readRegister (c : Can) (byte : BitVec 8) : Answer :=
  if c.readSelected.slt 0#16 then some (0#8, { c with readSelected := byte.setWidth 16 })
  else if byte ≠ 0#8 then some (0#8, command { c with readSelected := -1 } byte)
  else
    let ret := if h : c.readSelected.toNat < MCP_RXB1SIDH + 1 then c.registers ⟨_, h⟩ else 0#8
    some (ret, { c with readSelected := c.readSelected + 1 })

def writeRegister (c : Can) (byte : BitVec 8) : Answer :=
  if c.writeSelected.slt 0#16 then some (0#8, { c with writeSelected := byte.setWidth 16 })
  else if h : c.writeSelected.toNat < MCP_RXB1SIDH + 1 then
    some (0#8, { c with
      registers := Function.update c.registers ⟨_, h⟩ byte
      writeSelected := -1
      state := .init })
  else some (0#8, c)

/-- `modifyRegister`. The register number is not checked. -/
def modifyRegister (c : Can) (byte : BitVec 8) : Answer :=
  match c.modReg.state with
  | .address => some (0#8, { c with modReg := { c.modReg with address := byte, state := .mask } })
  | .mask => some (0#8, { c with modReg := { c.modReg with mask := byte, state := .data } })
  | .data =>
    if h : c.modReg.address.toNat < MCP_RXB1SIDH + 1 then
      some (0#8, { c with
        modReg := { c.modReg with data := byte, state := .address }
        state := .init
        registers := Function.update c.registers ⟨_, h⟩
          ((c.registers ⟨_, h⟩ &&& ~~~c.modReg.mask) ||| byte) })
    else none

/-- `loadTxBuf`. -/
def loadTxBuf (c : Can) (no : Fin 3) (byte : BitVec 8) : Answer :=
  let ptr := c.loadTX.payload_ptr
  match c.loadTX.state with
  | .id =>
    if h : ptr.toNat < 4 then
      let c := { c with txBuf := Function.update c.txBuf no ((c.txBuf no).setId ⟨_, h⟩ byte) }
      if ptr + 1 = 4#8 then
        some (0#8, { c with loadTX := { state := .length, payload_ptr := 0#8 } })
      else some (0#8, { c with loadTX := { c.loadTX with payload_ptr := ptr + 1 } })
    else none
  | .length =>
    some (0#8, { c with
      loadTX := { c.loadTX with state := .payload }
      txBuf := Function.update c.txBuf no ((c.txBuf no).setLength byte) })
  | .payload =>
    if h : ptr.toNat < 64 then
      let c := { c with
        txBuf := Function.update c.txBuf no ((c.txBuf no).setPayload ⟨_, h⟩ byte) }
      if ptr + 1 = (c.txBuf no).length then some (0#8, { c with loadTX := {}, state := .init })
      else some (0#8, { c with loadTX := { c.loadTX with payload_ptr := ptr + 1 } })
    else none

/-- The frame that is made of a buffer. The rest of the data is zero. -/
def frameOf (f : MCPFrame) : CanFrame where
  can_id := (mcp2515BufToId f.id).1
  can_dlc := f.length
  data := fun i => if i.val < f.length.toNat then f.payload ⟨i, by omega⟩ else 0#8

/-- `sendTxBuf`. The payload is copied to the eight bytes of a frame. -/
def sendTxBuf (c : Can) (no : Nat) : Answer :=
  let no := if no = 4 then 0 else no
  if h : no < 3 then
    let f := c.txBuf ⟨no, h⟩
    if f.length.toNat ≤ 8 then
      some (0#8, { c with
        sent := c.sent ++ [frameOf f]
        registers := Function.update c.registers MCP_TXB0CTRL 0#8
        state := .readRegister })
    else none
  else none

/-- `readRxBuf`. -/
def readRxBuf (c : Can) (no : Fin 2) : Answer :=
  if h : c.rxPtr.toNat < 69 then
    let ret := (c.rxBuf no).raw ⟨_, h⟩
    let ptr := c.rxPtr + 1
    if ptr.toNat > (c.rxBuf no).length.toNat + 4 then
      some (ret, { c with
        rxPtr := 0#8
        state := .init
        status := c.status &&& ~~~(1#8 <<< no.val) })
    else some (ret, { c with rxPtr := ptr })
  else none

/-- `write`: a byte from the SPI master. -/
def write (c : Can) (byte : BitVec 8) : Answer :=
  match c.state with
  | .init => some (0#8, c.command byte)
  | .readRegister => c.readRegister byte
  | .writeRegister => c.writeRegister byte
  | .bitmod => c.modifyRegister byte
  | .loadTX2 => c.loadTxBuf 2 byte
  | .loadTX1 => c.loadTxBuf 1 byte
  | .loadTX0 => c.loadTxBuf 0 byte
  | .sendALL => c.sendTxBuf 3
  | .sendTX2 => c.sendTxBuf 2
  | .sendTX1 => c.sendTxBuf 1
  | .sendTX0 => c.sendTxBuf 0
  | .readRX1 => c.readRxBuf 1
  | .readRX0 => c.readRxBuf 0
  | .getStatus => some (c.status, { c with state := .init })

/-- The buffer that a received frame is stored in. -/
def bufferOf (frame : CanFrame) : MCPFrame where
  raw i :=
    if h : i.val < 4 then
      mcp2515IdToBuf (frame.can_id.setWidth 64) (fun _ => 0#8) false ⟨i, h⟩
    else if i.val = 4 then frame.can_dlc
    else if h : i.val - 5 < 8 ∧ i.val - 5 < frame.can_dlc.toNat then frame.data ⟨i.val - 5, h.1⟩
    else 0#8

/-- A frame is put into a buffer. -/
def store (c : Can) (i : Fin 2) (frame : CanFrame) : Can :=
  { c with
    rxBuf := Function.update c.rxBuf i (bufferOf frame)
    status := c.status ||| (1#8 <<< i.val) }

/-- `enqueueIncomingCanFrame`. A frame has at most eight bytes of data. -/
def enqueueIncomingCanFrame (c : Can) (frame : CanFrame) : Option Can :=
  if c.status &&& 0b11#8 = 0b11#8 then some c
  else if frame.can_dlc.toNat > 8 then none
  else if c.status &&& (1#8 <<< 0) = 0#8 then some (c.store 0 frame)
  else if c.status &&& (1#8 <<< 1) = 0#8 then some (c.store 1 frame)
  else some c

/-- A sequence of bytes from the SPI master, with what is answered. -/
def writes (c : Can) : List (BitVec 8) → Option (List (BitVec 8) × Can)
  | [] => some ([], c)
  | byte :: bytes => do
      let (ret, c) ← c.write byte
      let (rets, c) ← c.writes bytes
      return (ret :: rets, c)

/-! ## Between two instructions -/

/-- The device waits for an instruction. -/
structure AtRest (c : Can) : Prop where
  state : c.state = .init
  readSelected : c.readSelected = -1
  writeSelected : c.writeSelected = -1
  modReg : c.modReg.state = .address
  loadTX : c.loadTX = {}
  rxPtr : c.rxPtr = 0#8

/-- The next byte is taken for the first one of an instruction. -/
def Interprets (c : Can) : Prop :=
  ∀ byte ≠ 0#8, c.write byte = some (0#8, command { c with readSelected := -1 } byte)

variable {c : Can}

theorem write_init (h : c.state = .init) (byte : BitVec 8) :
    c.write byte = some (0#8, c.command byte) := by
  rw [write, h]

theorem AtRest.interprets (h : c.AtRest) : c.Interprets := by
  intro byte _
  obtain ⟨state, registers, txBuf, rxBuf, status, sent, readSelected, writeSelected, modReg, loadTX,
    rxPtr⟩ := c
  obtain rfl : state = .init := h.state
  obtain rfl : readSelected = -1 := h.readSelected
  rfl

/-- A device whose memory was zero before. -/
def zeroed : Can where
  registers := fun _ => 0#8
  txBuf := fun _ => ⟨fun _ => 0#8⟩
  rxBuf := fun _ => ⟨fun _ => 0#8⟩

theorem zeroed_atRest : zeroed.AtRest := ⟨rfl, rfl, rfl, rfl, rfl, rfl⟩

/-! ## Sequences of bytes -/

theorem writes_cons {byte ret : BitVec 8} {c' : Can} (h : c.write byte = some (ret, c'))
    (bytes : List (BitVec 8)) :
    c.writes (byte :: bytes) = (c'.writes bytes).map fun r => (ret :: r.1, r.2) := by
  rw [writes, h]
  change (do let r ← c'.writes bytes; pure (ret :: r.1, r.2)) = _
  cases c'.writes bytes with
  | none | some => rfl

theorem writes_append {bytes : List (BitVec 8)} {rets : List (BitVec 8)} {c' : Can}
    (h : c.writes bytes = some (rets, c')) (more : List (BitVec 8)) :
    c.writes (bytes ++ more) = (c'.writes more).map fun r => (rets ++ r.1, r.2) := by
  induction bytes generalizing c rets with
  | nil =>
    cases h
    rw [List.nil_append]
    exact Option.map_id'.symm
  | cons byte bytes ih =>
    cases hw : c.write byte with
    | none => simp [writes, hw] at h
    | some r =>
      obtain ⟨ret, d⟩ := r
      rw [writes_cons hw, Option.map_eq_some_iff] at h
      obtain ⟨⟨rest, e⟩, hrest, heq⟩ := h
      cases heq
      rw [List.cons_append, writes_cons hw, ih hrest, Option.map_map]
      rfl

end Can

end SpsVp.Platform
