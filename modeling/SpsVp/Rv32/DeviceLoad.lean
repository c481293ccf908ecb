import SpsVp.Platform.Sensor
import SpsVp.Platform.UartFrames
import SpsVp.Rv32.Load

/-!
# Loads from devices

A load gets its value from two places: the bytes in the buffer of the transaction and the symbolic
extension, which is used alone when there is one. `LoadsBytes` says that they agree, so that the
register is the extension of the bytes that were read. The concolic memory, the sensor and the
register banks keep them in step. The symbolic UART does not: its extension is the whole of
`rxdata`, whatever part of the register is read (`loadsBytes_iff`).
-/

namespace SpsVp.Platform

open Lib Clover

/-- The callback of a bank never sets an extension. -/
def RegisterBank.Plain {ε S R : Type} (bank : RegisterBank ε S R) : Prop :=
  ∀ command r nv fn s handled t, bank.handler command r nv fn s = .ok handled t →
    handled.extension = none

/-- The targets that a load can read, in some state. -/
inductive Source : Type 1 where
  | memory (m : SymbolicMemory)
  | uart (server : Server) (s : Uart)
  | sensor (s : Sensor)
  | bank {ε S R : Type} (registers : RegisterBank ε S R) (plain : registers.Plain) (s : S)

namespace Source

def target : Source → Target
  | .memory m => .memory m
  | .uart server s => .device (.ofState (serveWith (Uart.transport server)) s)
  | .sensor s => .device (.ofState Sensor.transport s)
  | .bank registers _ s => .device (.ofState (serveWith registers.transport) s)

/-- A byte of a message is read from the UART by a load that is not one of a word. -/
def Widens (source : Source) (addr : BitVec 64) (numBytes : Nat) : Prop :=
  match source with
  | .uart _ s => Uart.find (addr - addr % 4#64) = some .rxdata ∧ s.ie &&& UART_RXWM ≠ 0#32 ∧
      s.empty = false ∧ numBytes ≠ 4
  | _ => False

end Source

end SpsVp.Platform

namespace SpsVp.Rv32

open Lib Effect Clover Klee Platform Interface

namespace Iss

/-! ## Bytes and values -/

/-- The value of a transaction is that of the bytes that a load has read, and the register gets its
extension, concretely and under every assignment. -/
structure LoadsBytes (op : Mapping) (payload : Payload) : Prop where
  width : (loadedValue payload).width = 8 * loadSize op
  bytes : (loadedValue payload).value.toBytes (loadSize op) = payload.data
  register : ∀ s : Iss, ∃ y : ConcolicValue 32,
    writeRd (extended op (loadedValue payload)).value s = .ok () (s.assign s.instr.rd y) ∧
    ∀ m, y.part m = extend op ((loadedValue payload).value.part m)

variable {op : Mapping} {payload : Payload}

/-- A value of the right width with the right bytes. -/
theorem loadsBytes_of_value (hop : op ∈ loads)
    (hwidth : (loadedValue payload).width = 8 * loadSize op)
    (hbytes : (loadedValue payload).value.toBytes (loadSize op) = payload.data) :
    LoadsBytes op payload := by
  refine ⟨hwidth, hbytes, fun s => ?_⟩
  generalize loadedValue payload = value at hwidth
  obtain ⟨w, x⟩ := value
  subst hwidth
  exact writeRd_extended hop x s

theorem toBytes_ofBuffer (buf : List (BitVec 8)) :
    (ConcolicValue.ofBuffer buf).toBytes buf.length = buf := by
  apply List.ext_getElem
  · exact List.length_ofFn
  · intro i hi hi'
    have hbyte := ConcolicValue.part_byte none (ConcolicValue.ofBuffer buf) ⟨i, hi'⟩
    rw [ConcolicValue.ofBuffer, ConcolicValue.part_ofBytes,
      ByteMemory.extract_littleEndian _ hi'] at hbyte
    simp only [ConcolicValue.toBytes, List.getElem_ofFn]
    refine hbyte.trans ?_
    change buf.getD i 0 = buf[i]
    rw [List.getD_eq_getElem?_getD, List.getElem?_eq_getElem hi', Option.getD_some]

/-- Bytes without an extension. -/
theorem loadsBytes_of_bytes (hop : op ∈ loads) (hextension : payload.extension = none)
    (hlength : payload.data.length = loadSize op) : LoadsBytes op payload := by
  have hvalue : loadedValue payload = ⟨_, ConcolicValue.ofBuffer payload.data⟩ := by
    rw [loadedValue, hextension]
    rfl
  refine loadsBytes_of_value hop ?_ ?_
  · rw [hvalue]
    exact congrArg (8 * ·) hlength
  · rw [hvalue, ← hlength]
    exact toBytes_ofBuffer _

/-- An extension beside its bytes. -/
theorem loadsBytes_of_extension (hop : op ∈ loads) {value : Concolic}
    (hextension : payload.extension = some value) (hwidth : value.width = 8 * loadSize op)
    (hbytes : value.value.toBytes (loadSize op) = payload.data) : LoadsBytes op payload := by
  have hvalue : loadedValue payload = value := by
    rw [loadedValue, hextension]
    rfl
  exact loadsBytes_of_value hop (by rw [hvalue, hwidth]) (by rw [hvalue, hbytes])

/-! ## The targets -/

/-- The access of a load. -/
def loadAccess (addr : BitVec 64) (numBytes : Nat) : Access :=
  ⟨.read, addr, List.replicate numBytes 0#8, numBytes⟩

/-- What comes of a load that a device responds to. -/
def loadOutcome (addr : BitVec 64) (numBytes : Nat) : Response → Outcome
  | .served answer requests =>
    { payload := (loadPayload addr numBytes).answered answer, requests }
  | .addressError => { payload := { loadPayload addr numBytes with isResponseError := true } }
  | .hostError => { payload := loadPayload addr numBytes, hostError := true }

theorem transport_ofState {S : Type} (serve : S → Access → Response × S) (s : S) (addr : BitVec 64)
    (numBytes : Nat) : ((Target.device (.ofState serve s)).transport
      (loadPayload addr numBytes)).1 =
        loadOutcome addr numBytes (serve s (loadAccess addr numBytes)).1 := rfl

variable {addr : BitVec 64}

theorem loadsBytes_memory (hop : op ∈ loads) {m : SymbolicMemory}
    (h : (m.transport (loadPayload addr (loadSize op))).1.isResponseError = false) :
    LoadsBytes op (m.transport (loadPayload addr (loadSize op))).1 := by
  unfold SymbolicMemory.transport at h ⊢
  split_ifs at h ⊢
  exact loadsBytes_of_extension hop rfl rfl rfl

/-- A bank returns the bytes of a register, or it leaves the buffer alone. -/
theorem loadsBytes_answer (hop : op ∈ loads) {handled : Handled}
    (h : handled.extension = none) : LoadsBytes op
      ((loadPayload addr (loadSize op)).answered
        (RegisterBank.answer (loadAccess addr (loadSize op)) handled)) := by
  obtain ⟨read, extension⟩ := handled
  cases h
  cases read with
  | none => exact loadsBytes_of_bytes hop rfl List.length_replicate
  | some word => exact loadsBytes_of_bytes hop rfl List.length_ofFn

/-- The bytes of a word that is read as a whole. -/
theorem toBytes_word (word : ConcolicValue 32) : word.toBytes 4 = wordBytes word.concrete 0 4 := by
  unfold ConcolicValue.toBytes wordBytes
  congr 1
  funext i
  rw [Nat.zero_add]
  exact ConcolicValue.part_byte none word i

/-- A bank whose callback has answered a load. -/
theorem transport_serveWith {ε S : Type} {transport : Access → Effect ε S Answer}
    {s : S} {numBytes : Nat} (h : ((Target.device (.ofState (serveWith transport) s)).transport
      (loadPayload addr numBytes)).1.hostError = false) :
    ∃ answer t, transport (loadAccess addr numBytes) s = .ok answer t ∧
      ((Target.device (.ofState (serveWith transport) s)).transport
        (loadPayload addr numBytes)).1.payload =
        (loadPayload addr numBytes).answered answer := by
  rw [transport_ofState, serveWith] at h ⊢
  cases htransport : transport (loadAccess addr numBytes) s with
  | ok answer t => exact ⟨answer, t, rfl, rfl⟩
  | error e t =>
    rw [htransport] at h
    cases h

/-- A load from the UART. -/
theorem loadsBytes_uart (hop : op ∈ loads) {server : Server} {s t : Uart}
    {answer : Answer} (h : Uart.transport server (loadAccess addr (loadSize op)) s = .ok answer t) :
    LoadsBytes op ((loadPayload addr (loadSize op)).answered answer) ↔
      ¬ (Source.uart server s).Widens addr (loadSize op) := by
  obtain ⟨r, _, hregister, hbeyond, _, _⟩ := RegisterBank.transport_eq_ok h
  obtain ⟨extension, u, _, hprepare, _, rfl⟩ := Uart.transport_read ⟨rfl, hregister⟩ h
  -- without an extension the bytes are those of the register
  have hplain : extension = none → LoadsBytes op ((loadPayload addr (loadSize op)).answered
      (RegisterBank.answer (loadAccess addr (loadSize op)) ⟨some (Uart.value r u), extension⟩)) :=
    fun hnone => loadsBytes_answer hop hnone
  by_cases hr : r = .rxdata
  · subst hr
    by_cases hie : s.ie &&& UART_RXWM = 0#32
    · refine iff_of_true (hplain ?_) fun hwidens => hwidens.2.1 hie
      obtain ⟨_, _, hget, hread⟩ := bind_eq_ok hprepare
      cases hget
      rw [if_pos hie] at hread
      cases hread
      rfl
    · cases Uart.receives_of_readRxdata hie hprepare with
      | nothing hempty _ | frameEnd hempty _ =>
        exact iff_of_true (hplain rfl) fun hwidens => nomatch hempty.symm.trans hwidens.2.2.1
      | @byte msg msg' byte hmsg hbytes =>
        have hempty : s.empty = false := by
          by_contra hne
          have hleft := Uart.bytesLeft_of_empty (Bool.eq_true_of_not_eq_false hne)
          rw [Uart.bytesLeft, hmsg] at hleft
          exact absurd (hbytes.symm.trans hleft) (List.cons_ne_nil _ _)
        by_cases hword : loadSize op = 4
        · refine iff_of_true (loadsBytes_of_extension hop rfl ?_ ?_) fun hwidens =>
            hwidens.2.2.2 hword
          · change 32 = 8 * loadSize op
            rw [hword]
          · have hoffset : (loadAccess addr (loadSize op)).offset = 0 := by
              change loadSize op + _ ≤ 4 at hbeyond
              omega
            change ((Uart.remap byte).zext 32).toBytes (loadSize op) =
              wordBytes ((Uart.remap byte).zext 32).concrete _ (loadSize op)
            rw [hoffset, hword]
            exact toBytes_word _
        · refine iff_of_false (fun hloads => ?_) fun hnot => hnot ⟨hregister, hie, hempty, hword⟩
          have hwidth : 32 = 8 * loadSize op := hloads.width
          omega
  · refine iff_of_true (hplain ?_) fun hwidens =>
      hr (Option.some.inj (hregister.symm.trans hwidens.1))
    cases r with
    | rxdata => exact absurd rfl hr
    | _ =>
      cases hprepare
      rfl

theorem transport_loadAccess (s : Sensor) (addr : BitVec 64) (numBytes : Nat) :
    s.transport (loadAccess addr numBytes) =
      if numBytes ≠ 4 ∨ addr ≠ 0x8#64 ∨ s.upperBound ≤ s.lowerBound then (.addressError, s)
      else s.read := by
  change (if numBytes ≠ 4 then (.addressError, s) else if addr ≠ 0x8#64 ∨
    s.upperBound ≤ s.lowerBound then (.addressError, s) else s.read) = _
  by_cases hsize : numBytes = 4 <;> simp [hsize]

/-- The sensor answers loads of a word only. -/
theorem transport_sensor {s : Sensor} {numBytes : Nat}
    (hhost : ((Target.device (.ofState Sensor.transport s)).transport
      (loadPayload addr numBytes)).1.hostError = false)
    (hresponse : ((Target.device (.ofState Sensor.transport s)).transport
      (loadPayload addr numBytes)).1.payload.isResponseError = false) :
    ∃ x : ConcolicValue 32, numBytes = 4 ∧
      ((Target.device (.ofState Sensor.transport s)).transport
        (loadPayload addr numBytes)).1.payload =
        (loadPayload addr numBytes).answered (.extended (x.toBytes 4) ⟨32, x⟩) := by
  rw [transport_ofState, transport_loadAccess] at hhost hresponse ⊢
  split_ifs at hhost hresponse ⊢ with herror
  · cases hresponse
  · obtain rfl : numBytes = 4 := not_not.mp (not_or.mp herror).1
    unfold Sensor.read at hhost ⊢
    split at hhost
    · cases hhost
    · exact ⟨_, rfl, rfl⟩

/-- A load gets the bytes of its target just if it does not read a byte of a message from the UART
as less than a word. -/
theorem loadsBytes_iff (hop : op ∈ loads) (source : Source) (addr : BitVec 64)
    (hhost : (source.target.transport (loadPayload addr (loadSize op))).1.hostError = false)
    (hresponse : (source.target.transport
      (loadPayload addr (loadSize op))).1.payload.isResponseError = false) :
    LoadsBytes op (source.target.transport (loadPayload addr (loadSize op))).1.payload ↔
      ¬ source.Widens addr (loadSize op) := by
  cases source with
  | memory m => exact iff_of_true (loadsBytes_memory hop hresponse) id
  | uart server s =>
    obtain ⟨answer, t, htransport, hpayload⟩ := transport_serveWith hhost
    have hiff := loadsBytes_uart hop htransport
    rwa [← hpayload] at hiff
  | bank registers plain s =>
    refine iff_of_true ?_ id
    obtain ⟨answer, t, htransport, hpayload⟩ := transport_serveWith hhost
    obtain ⟨r, handled, _, _, hhandler, rfl⟩ := RegisterBank.transport_eq_ok htransport
    have hloads : LoadsBytes op ((loadPayload addr (loadSize op)).answered _) :=
      loadsBytes_answer hop (plain _ _ _ _ _ _ _ hhandler)
    rwa [← hpayload] at hloads
  | sensor s =>
    obtain ⟨x, hsize, hpayload⟩ := transport_sensor hhost hresponse
    refine iff_of_true (loadsBytes_of_extension hop (congrArg Payload.extension hpayload) ?_ ?_) id
    · rw [hsize]
    · rw [hsize] at hpayload ⊢
      exact (congrArg Payload.data hpayload).symm

/-! ## Load instructions -/

/-- A transaction that succeeds returns the payload of its target. -/
theorem transact_eq_ok {view : CoreView} {depth : Nat} {answer : Payload} {io io' : Interface}
    (h : Interface.transact view depth payload io = .ok answer io') :
    (io.bus.transport payload).1.hostError = false ∧
      answer = (io.bus.transport payload).1.payload ∧ answer.isResponseError = false := by
  cases depth with
  | zero => cases h
  | succ depth =>
    obtain ⟨outcome, io₁, htransport, h⟩ := bind_eq_ok h
    obtain ⟨_, io₂, _, h⟩ := bind_eq_ok h
    obtain ⟨outcome', io₃, hget, htransport⟩ := bind_eq_ok htransport
    cases hget
    obtain ⟨_, io₄, _, htransport⟩ := bind_eq_ok htransport
    obtain ⟨_, io₅, hensure, htransport⟩ := bind_eq_ok htransport
    cases htransport
    have hhost : (io.bus.transport payload).1.hostError = false := by
      unfold ensure at hensure
      split_ifs at hensure with hhost
      · simpa using hhost
      · cases hensure
    split_ifs at h with hresponse
    · generalize (io.bus.transport payload).1.payload.command = command at h
      cases command <;> cases h
    · cases h
      exact ⟨hhost, rfl, Bool.eq_false_of_not_eq_true hresponse⟩

/-- How a load in the state `d` comes to its value: its address is translated on the bus of `d`,
there is a transaction at the physical address, and what the targets ask for is served before the
register is written. -/
structure Transacts (d : Iss) (paddr : BitVec 64) (io₀ io io' : Interface) (u e : Iss) : Prop where
  started : Alike d.view.hartId d.io io₀
  translated : Interface.v2p (Interface.transact d.view d.depth) d.view
    (d.loadAddress.concrete.setWidth 64) .STORE io₀ = .ok paddr io
  hostError : (io.bus.transport (loadPayload paddr (loadSize d.op))).1.hostError = false
  accepted : (io.bus.transport
    (loadPayload paddr (loadSize d.op))).1.payload.isResponseError = false
  transacted : Interface.transact d.view d.depth (loadPayload paddr (loadSize d.op)) io =
    .ok (io.bus.transport (loadPayload paddr (loadSize d.op))).1.payload io'
  served : io'.requests.forM serve { d with io := { io' with requests := [] } } = .ok () u
  written : writeRd (extended d.op (loadedValue (io.bus.transport
    (loadPayload paddr (loadSize d.op))).1.payload)).value u = .ok () e

/-- A load that completes has put the value of a transaction at the translated address into its
register. -/
theorem execute_load_transaction {d e : Iss} (hop : d.op ∈ loads) (h : execute d.op d = .ok () e) :
    ∃ paddr io₀ io io' u, Transacts d paddr io₀ io io' u e := by
  rw [execute_load hop] at h
  obtain ⟨data, u, hrun, hwrite⟩ := load_eq_ok h
  obtain ⟨io₁, hchecked, hio₁⟩ := checked_eq d (loadSize d.op) d.loadAddress
  change memory (fun transact view => loadOperation d.op transact view d.loadAddress)
    (d.checked (loadSize d.op) d.loadAddress) = .ok data u at hrun
  rw [hchecked] at hrun
  obtain ⟨io', hload, hserved⟩ := memory_eq_ok hrun
  change loadOperation d.op (Interface.transact d.view d.depth) d.view d.loadAddress io₁ = _
    at hload
  rw [loadOperation_eq] at hload
  obtain ⟨r, _, hsymbolic, hreturn⟩ := bind_eq_ok hload
  cases hreturn
  obtain ⟨_, io₂, hwait, hsymbolic⟩ := bind_eq_ok hsymbolic
  obtain ⟨caddr, io₃, hvalue, hsymbolic⟩ := bind_eq_ok hsymbolic
  cases hvalue
  obtain ⟨_, io₄, hnote, hsymbolic⟩ := bind_eq_ok hsymbolic
  obtain ⟨paddr, io, hv2p, hsymbolic⟩ := bind_eq_ok hsymbolic
  obtain ⟨payload, _, htransact, hreturn⟩ := bind_eq_ok hsymbolic
  cases hreturn
  obtain ⟨hhost, rfl, hresponse⟩ := transact_eq_ok htransact
  -- waiting for the bus and taking notes leave the bus and the MMU alone
  have hio₂ := (alike_waitForAccessRights (E := fun _ _ => True)).of_ok hio₁ hwait
  have hio₄ := (alike_note (E := fun _ _ => True) _).of_ok
    ((alike_note (E := fun _ _ => True) (.concretised ⟨_, d.loadAddress⟩)).of_ok hio₂ rfl) hnote
  exact ⟨paddr, io₄, io, io', u, hio₄, hv2p, hhost, hresponse, htransact, hserved, hwrite⟩

/-- A load from a dirty page. -/
theorem execute_load_transaction_dirty : ∃ e paddr io₀ io io' u,
    execute .LW loadsDirty = .ok () e ∧ Transacts loadsDirty paddr io₀ io io' u e := by
  have hreturns : returnsIn (fun _ => true) (execute .LW loadsDirty) = true := by decide +kernel
  obtain ⟨_, e, he, -⟩ := eq_ok_of_returnsIn hreturns
  obtain ⟨paddr, io₀, io, io', u, htransacts⟩ :=
    execute_load_transaction (d := loadsDirty) (by decide) he
  exact ⟨e, paddr, io₀, io, io', u, he, htransacts⟩

/-! ## A byte of a message -/

/-- The UART when a message of one byte has arrived. -/
def uartWith (byte : BitVec 8) : Uart :=
  { ie := UART_RXWM
    transmitter := default
    lastMsg := some ⟨⟨8, ⟨byte, none⟩⟩, 8, Nat.mod_self 8, Nat.mod_self 8, Nat.le_refl 8⟩ }

def byteSource (byte : BitVec 8) : Source := .uart (fun _ => .error "") (uartWith byte)

/-- A word that is loaded from `rxdata`. -/
theorem loadsBytes_word : LoadsBytes .LW
    ((byteSource 0x80#8).target.transport (loadPayload 4#64 4)).1.payload :=
  (loadsBytes_iff (show Mapping.LW ∈ loads by decide) (byteSource 0x80#8) 4#64 rfl rfl).mpr
    fun hwidens => hwidens.2.2.2 rfl

/-- A byte that is loaded from `rxdata` is not sign-extended, and a byte that is loaded from behind
it is the message byte, while the buffer holds zero. -/
theorem widened_bytes : ¬ LoadsBytes .LB
      ((byteSource 0x80#8).target.transport (loadPayload 4#64 1)).1.payload ∧
    ((byteSource 0x80#8).target.transport (loadPayload 4#64 1)).1.payload.data = [0x80#8] ∧
    (extended .LB (loadedValue ((byteSource 0x80#8).target.transport
      (loadPayload 4#64 1)).1.payload)).value.concrete.toNat = 0x80 ∧
    ((byteSource 0x80#8).target.transport (loadPayload 5#64 1)).1.payload.data = [0#8] ∧
    (extended .LBU (loadedValue ((byteSource 0x80#8).target.transport
      (loadPayload 5#64 1)).1.payload)).value.concrete.toNat = 0x80 := by
  refine ⟨fun hloads => ?_, ?_, ?_, ?_, ?_⟩
  · exact absurd hloads.width (by decide +kernel)
  all_goals decide +kernel

end Iss

end SpsVp.Rv32
