import SpsVp.Platform.Uart

/-!
# Frames of the symbolic UART

What the guest reads of the symbolic UART should be the messages of the server as SLIP frames.
`Frames` is a queue that does that: the bytes of a message and then its `END`, before the next
message. The device follows it in the runs whose accesses are `Careful` (`wellFramed_of_careful`).
In other runs `END` is delivered without a message, again after the empty flag, or not at all.
-/

namespace SpsVp.Symex.SymbolicFormat

open Clover

/-- The next bytes of a message, at most this many. -/
def take : Nat → SymbolicFormat → List (ConcolicValue 8)
  | 0, _ => []
  | n + 1, f =>
    match f.nextByte with
    | (none, _) => []
    | (some byte, f) => byte :: take n f

/-- The bytes of a message that were not read yet. -/
def bytes (f : SymbolicFormat) : List (ConcolicValue 8) := f.take f.remainingBytes

variable {f : SymbolicFormat}

theorem remainingBytes_eq (f : SymbolicFormat) : f.remainingBytes = f.offset / 8 := by
  have hle := f.offset_le
  unfold remainingBytes
  split_ifs with h
  · rw [h]
  · congr 1
    omega

theorem remainingBytes_pos (h : 0 < f.offset) : 0 < f.remainingBytes := by
  have haligned := f.offset_aligned
  rw [remainingBytes_eq]
  omega

/-- A message with bytes left has a next one. -/
theorem nextByte_of_remaining (h : f.remainingBytes ≠ 0) :
    ∃ byte f', f.nextByte = (some byte, f') ∧ f.bytes = byte :: f'.bytes := by
  rw [remainingBytes_eq] at h
  have hoffset : f.offset ≠ 0 := fun hzero => h (by rw [hzero])
  have hnext : f.nextByte = (some _, _) := dif_neg hoffset
  refine ⟨_, _, hnext, ?_⟩
  have hcount : f.remainingBytes = (f.offset - 8) / 8 + 1 := by
    rw [remainingBytes_eq]
    omega
  rw [bytes, hcount, take, hnext]
  dsimp only
  rw [bytes, remainingBytes_eq]

theorem bytes_of_remaining (h : f.remainingBytes = 0) : f.bytes = [] := by
  rw [bytes, h, take]

end SpsVp.Symex.SymbolicFormat

namespace SpsVp.Platform

open Lib Effect Clover Klee Symex

/-! ## The queue -/

/-- What the guest has to read, `none` being an `END`, and how many of them it has read. -/
structure Frames where
  queue : List (Option (ConcolicValue 8)) := []
  delivered : Nat := 0

/-- The frame of a message. -/
def Message.frame (m : Message) : List (Option (ConcolicValue 8)) :=
  m.format.bytes.map some ++ [none]

abbrev controlValues : List (BitVec 8) := [SLIP_END, SLIP_ESC, SLIP_ESC_END, SLIP_ESC_ESC]

/-- A word stands for a byte of a message, and it is no control value of SLIP under any
assignment. -/
def Carries (word : ConcolicValue 32) (byte : ConcolicValue 8) : Prop :=
  ∀ m, ∃ x : BitVec 8, word.part m = x.setWidth 32 ∧ x ∉ controlValues ∧
    (byte.part m < SLIP_END ∨ SLIP_ESC_ESC < byte.part m → x = byte.part m)

/-- What is seen of a successful access, with the message that has arrived by it. -/
structure Observation where
  access : Access
  answer : Answer
  arrival : Option Message

/-- The access is of a register. -/
def Access.IsOf (access : Access) (command : Command) (r : UartRegister) : Prop :=
  access.command = command ∧ Uart.find (access.address - access.address % 4#64) = some r

instance (access : Access) (command : Command) (r : UartRegister) :
    Decidable (access.IsOf command r) := inferInstanceAs (Decidable (_ ∧ _))

/-- The bytes of a word that an access reads. -/
def Access.view (access : Access) (word : BitVec 32) : List (BitVec 8) :=
  wordBytes word access.offset access.length

namespace Frames

/-- The queue serves an access. -/
inductive Step : Frames → Observation → Frames → Prop where
  | byte {byte : ConcolicValue 8} {queue : List (Option (ConcolicValue 8))}
    {n : Nat} {access : Access}
      {word : ConcolicValue 32} (hread : access.IsOf .read .rxdata) (h : Carries word byte) :
      Step ⟨some byte :: queue, n⟩ ⟨access, .extended (access.view word.concrete) ⟨32, word⟩, none⟩
        ⟨queue, n⟩
  | frameEnd {queue : List (Option (ConcolicValue 8))} {n : Nat} {access : Access}
      (hread : access.IsOf .read .rxdata) :
      Step ⟨none :: queue, n⟩ ⟨access, .bytes (access.view (SLIP_END.setWidth 32)), none⟩
        ⟨queue, n + 1⟩
  | nothing {n : Nat} {access : Access} (hread : access.IsOf .read .rxdata) :
      Step ⟨[], n⟩ ⟨access, .bytes (access.view UART_FULL), none⟩ ⟨[], n⟩
  | message {n : Nat} {access : Access} {answer : Answer} {m : Message}
      (hread : ¬ access.IsOf .read .rxdata) : Step ⟨[], n⟩ ⟨access, answer, some m⟩ ⟨m.frame, n⟩
  | other {q : Frames} {access : Access} {answer : Answer} (hread : ¬ access.IsOf .read .rxdata) :
      Step q ⟨access, answer, none⟩ q

/-- The queue after some accesses. -/
inductive Serves : List Observation → Frames → Prop where
  | init : Serves [] {}
  | step {history : List Observation} {q q' : Frames} {o : Observation} (h : Serves history q)
      (hstep : Step q o q') : Serves (history ++ [o]) q'

/-- The messages that have arrived. -/
def arrivals (history : List Observation) : Nat := (history.filterMap Observation.arrival).length

/-- Every message is ended once. -/
theorem Serves.arrivals_eq {history : List Observation} {q : Frames} (h : Serves history q) :
    arrivals history = q.delivered + q.queue.countP Option.isNone := by
  induction h with
  | init => rfl
  | @step history q q' o _ hstep ih =>
    have happend : arrivals (history ++ [o]) = arrivals history + o.arrival.toList.length := by
      rw [arrivals, arrivals, List.filterMap_append, List.length_append]
      cases harrival : o.arrival <;> simp [harrival]
    rw [happend, ih]
    cases hstep with
    | byte _ _ => simp
    | frameEnd _ => simp [Nat.add_assoc, Nat.add_comm]
    | nothing _ => rfl
    | message _ => simp [Message.frame, List.countP_map, Function.comp_def]
    | other _ => rfl

end Frames

namespace Uart

/-! ## Runs -/

/-- The message that has arrived between two states. -/
def arrival (server : Server) (s t : Uart) : Option Message :=
  if t.transmitter.messages = s.transmitter.messages then none
  else (server t.transmitter.messages).toOption

/-- The runs from the reset whose accesses have the property `P`. -/
inductive Runs (server : Server) (P : Uart → Access → Prop) : List Observation → Uart → Prop where
  | init : Runs server P [] {}
  | step {history : List Observation} {s t : Uart} {access : Access} {answer : Answer}
      (h : Runs server P history s) (hP : P s access)
      (hstep : transport server access s = .ok answer t) :
      Runs server P (history ++ [⟨access, answer, arrival server s t⟩]) t

/-- The guest reads `rxdata` while the interrupt of the receiver is enabled, and it does not write
it. -/
def Permitted (s : Uart) (access : Access) : Prop :=
  (access.IsOf .read .rxdata → s.ie &&& UART_RXWM ≠ 0#32) ∧ ¬ access.IsOf .write .rxdata

/-- The access ends a frame. -/
def EndsFrame (s : Uart) (access : Access) : Prop :=
  access.IsOf .write .txdata ∧ s.completes (RegisterBank.newValue access) = true

/-- The guest does not read on after the empty flag, nor before the first message, and it ends no
frame before it has read the `END` of the last message. -/
def Careful (s : Uart) (access : Access) : Prop :=
  Permitted s access ∧
  (access.IsOf .read .rxdata → s.empty = true → s.pktCnt < s.transmitter.messages.length ∨
    s.rxdata = SLIP_END.setWidth 32) ∧
  (EndsFrame s access → s.pktCnt = s.transmitter.messages.length)

/-- The guest reads well-formed frames in the runs whose accesses have the property `P`. -/
def WellFramed (server : Server) (P : Uart → Access → Prop) : Prop :=
  ∀ history s, Runs server P history s → ∃ q, Frames.Serves history q ∧ s.pktCnt = q.delivered

/-! ## Steps -/

/-- What the guest cannot tell from the frames. -/
structure SameFrames (s t : Uart) : Prop where
  rxdata : t.rxdata = s.rxdata
  pktCnt : t.pktCnt = s.pktCnt
  lastMsg : t.lastMsg = s.lastMsg
  messages : t.transmitter.messages = s.transmitter.messages

theorem SameFrames.refl (s : Uart) : SameFrames s s := ⟨rfl, rfl, rfl, rfl⟩

theorem SameFrames.trans {s t u : Uart} (h : SameFrames s t) (h' : SameFrames t u) :
    SameFrames s u :=
  ⟨h'.rxdata.trans h.rxdata, h'.pktCnt.trans h.pktCnt, h'.lastMsg.trans h.lastMsg,
    h'.messages.trans h.messages⟩

/-- A message has arrived. -/
structure Arrives (server : Server) (s t : Uart) (m : Message) : Prop where
  pktCnt : t.pktCnt = s.pktCnt
  lastMsg : t.lastMsg = some m.format
  arrival : arrival server s t = some m
  count : t.transmitter.messages.length = s.transmitter.messages.length + 1

variable {server : Server} {s t : Uart} {access : Access} {answer : Answer} {nv : BitVec 32}

theorem SameFrames.arrival (h : SameFrames s t) : Uart.arrival server s t = none :=
  if_pos h.messages

variable {r : UartRegister} {extension : Option Concolic} {q : Frames}
  {history : List Observation}

theorem sameFrames_assign (hr : r ≠ .rxdata) (value : BitVec 32) (s : Uart) :
    SameFrames s (assign r value s) := by
  cases r with
  | rxdata => exact absurd rfl hr
  | _ => exact ⟨rfl, rfl, rfl, rfl⟩

theorem sameFrames_asyncEvent (s : Uart) (asyncEvent : Bool) :
    SameFrames s { s with asyncEvent } := ⟨rfl, rfl, rfl, rfl⟩

/-- A read returns the register as the first part of the callback leaves it. -/
theorem transport_read (hread : access.IsOf .read r)
    (h : transport server access s = .ok answer t) : ∃ extension u asyncEvent,
      prepareRead r s = .ok extension u ∧ t = { u with asyncEvent } ∧
      answer = RegisterBank.answer access ⟨some (value r u), extension⟩ := by
  obtain ⟨hcommand, hfind⟩ := hread
  obtain ⟨r', handled, hregister, _, hhandler, rfl⟩ := RegisterBank.transport_eq_ok h
  cases hfind.symm.trans hregister
  rw [hcommand] at hhandler
  obtain ⟨extension, u, hprepare, hfinish⟩ := bind_eq_ok hhandler
  have hfn : (bank server).fn access r u = .ok (some (value r u)) u := by
    rw [RegisterBank.fn, hcommand]
    rfl
  obtain ⟨_, _, hget, hfinish⟩ := bind_eq_ok hfinish
  cases hget
  obtain ⟨read, u', hread, hreturn⟩ := bind_eq_ok hfinish
  cases hfn.symm.trans hread
  cases hreturn
  exact ⟨extension, u, _, hprepare, rfl, rfl⟩

/-- The last part of the callback for a write. -/
theorem sameFrames_finish {handled : Handled} (hcommand : access.command = .write)
    (hr : r ≠ .rxdata) (h : finish .write r nv ((bank server).fn access r) none s = .ok handled t) :
    SameFrames s t := by
  obtain ⟨_, _, hget, h⟩ := bind_eq_ok h
  cases hget
  obtain ⟨read, u, hread, hreturn⟩ := bind_eq_ok h
  rw [RegisterBank.fn, hcommand] at hread
  cases hread
  cases hreturn
  exact (sameFrames_assign hr _ s).trans (sameFrames_asyncEvent _ _)

/-! ## Sent frames -/

/-- A byte that the guest sends ends a frame, or it is kept in the buffer. -/
theorem messages_txdataWritten {sendMessage : Packet → Option String} {tx tx' : SymbolicUart}
    (h : SymbolicUart.txdataWritten sendMessage nv tx = .ok () tx') :
    if nv.setWidth 8 = SLIP_END ∧ tx.sndbuf.bytes.length > 0 then
      tx'.messages = tx.messages ++ [tx.sndbuf.bytes] ∧ sendMessage tx.sndbuf.bytes = none
    else tx'.messages = tx.messages := by
  rw [SymbolicUart.txdataWritten_apply] at h
  split_ifs at h ⊢ with hends hdata
  · rw [SymbolicUart.runTxCallback_apply] at h
    cases hsend : sendMessage tx.sndbuf.bytes with
    | some what =>
      rw [hsend] at h
      cases h
    | none =>
      rw [hsend] at h
      cases h
      exact ⟨rfl, rfl⟩
  · cases hunescape : tx.sndbuf.unescape (nv.setWidth 8) with
    | some | none =>
      rw [hunescape] at h
      cases h
      rfl
  · cases h
    rfl

theorem completes_iff : s.completes nv = true ↔
    nv.setWidth 8 = SLIP_END ∧ s.transmitter.sndbuf.bytes.length > 0 := by
  simp [completes]

/-- The server is asked only when the last message was read. -/
theorem sendMessage_eq_none {packet : Packet} (h : sendMessage server s packet = none) :
    s.empty = true ∧ ∃ m, server (s.transmitter.messages ++ [packet]) = .ok m := by
  unfold sendMessage at h
  split_ifs at h with hempty
  refine ⟨Bool.eq_true_of_not_eq_false hempty, ?_⟩
  cases hserver : server (s.transmitter.messages ++ [packet]) with
  | ok m => exact ⟨m, rfl⟩
  | error what =>
    rw [hserver] at h
    cases h

/-- The first part of the callback for `txdata`. -/
theorem transmit_eq_ok (h : transmit server nv s = .ok () t) :
    if s.completes nv = true then s.empty = true ∧ ∃ m, Arrives server s t m
      else SameFrames s t := by
  obtain ⟨_, _, hget, h⟩ := bind_eq_ok h
  cases hget
  obtain ⟨_, u, hwritten, hanswered⟩ := bind_eq_ok h
  cases hx : mapError UartError.slip (SymbolicUart.txdataWritten (sendMessage server s) nv)
      s.transmitter with
  | error e tx =>
    cases (zoom_of_error hx).symm.trans hwritten
  | ok _ tx =>
    cases (zoom_of_ok hx).symm.trans hwritten
    have hmessages := messages_txdataWritten (mapError_eq_ok.mp hx)
    simp only [← completes_iff (s := s)] at hmessages
    by_cases hends : s.completes nv = true
    · rw [if_pos hends] at hmessages ⊢
      obtain ⟨hempty, m, hserver⟩ := sendMessage_eq_none hmessages.2
      rw [if_pos hends] at hanswered
      cases hanswered
      rw [← hmessages.1] at hserver
      have hanswer : answered server { s with transmitter := tx } =
          { s with transmitter := tx, lastMsg := some m.format, asyncEvent := true } := by
        simp only [answered, hserver]
      refine ⟨hempty, m, ?_, ?_, ?_, ?_⟩
      · rw [hanswer]
      · rw [hanswer]
      · have hne : tx.messages ≠ s.transmitter.messages := by
          intro heq
          have hlength := congrArg List.length (heq.symm.trans hmessages.1)
          simp at hlength
        rw [hanswer, arrival, if_neg hne, hserver]
        rfl
      · rw [hanswer, hmessages.1, List.length_append, List.length_singleton]
    · rw [if_neg hends] at hmessages hanswered ⊢
      cases hanswered
      exact ⟨rfl, rfl, rfl, hmessages⟩

/-! ## Received bytes -/

/-- The value that stands for a byte. -/
def remapped (x : BitVec 8) : BitVec 8 :=
  if SLIP_END ≤ x ∧ x ≤ SLIP_ESC_ESC then x % SLIP_END else x

theorem part_remap (reg : ConcolicValue 8) (m : Option Valuation) :
    (remap reg).part m = remapped (reg.part m) := by
  have hconcrete : ∀ x : BitVec 8, (⟨x, none⟩ : ConcolicValue 8).part m = x := fun _ =>
    ConcolicValue.part_of_concrete m rfl
  have hcond : ∀ x : BitVec 8, BinaryKind.And.apply (CmpKind.Uge.apply x SLIP_END)
      (CmpKind.Ule.apply x SLIP_ESC_ESC) = 1#1 ↔ SLIP_END ≤ x ∧ x ≤ SLIP_ESC_ESC := by
        decide +kernel
  rw [remap, ConcolicValue.part_select]
  · simp only [ConcolicValue.part_arithmetic, ConcolicValue.part_compare, hconcrete, hcond]
    rfl
  · intro h
    have hreg := (ConcolicValue.symbolic_compare_eq_none.mp
      (ConcolicValue.symbolic_arithmetic_eq_none.mp h).1).1
    exact ⟨ConcolicValue.symbolic_arithmetic_eq_none.mpr ⟨hreg, rfl⟩, hreg⟩

/-- No byte is mapped to a control value: what is in their range gets below it. -/
theorem remapped_notMem : ∀ x : BitVec 8, remapped x ∉ controlValues := by decide +kernel

theorem carries_remap (byte : ConcolicValue 8) : Carries ((remap byte).zext 32) byte := by
  intro m
  refine ⟨remapped (byte.part m), ?_, remapped_notMem _, fun h => if_neg ?_⟩
  · rw [ConcolicValue.part_zext, part_remap]
  · rintro ⟨hend, hesc⟩
    rw [BitVec.le_def] at hend hesc
    rw [BitVec.lt_def, BitVec.lt_def] at h
    omega

theorem concrete_remap_ne_end (byte : ConcolicValue 8) :
    ((remap byte).zext 32).concrete ≠ SLIP_END.setWidth 32 := by
  intro h
  obtain ⟨x, hx, hnotMem, _⟩ := carries_remap byte none
  have hend : x = SLIP_END := by
    have heq : x.setWidth 32 = SLIP_END.setWidth 32 := hx.symm.trans h
    simpa using congrArg (BitVec.setWidth 8) heq
  exact hnotMem (hend ▸ List.mem_cons_self)

/-- What a read of `rxdata` does. -/
inductive Receives (s : Uart) : Option Concolic → Uart → Prop where
  | nothing (hempty : s.empty = true) (hend : s.rxdata = SLIP_END.setWidth 32) :
      Receives s none { s with rxdata := UART_FULL }
  | frameEnd (hempty : s.empty = true) (hend : s.rxdata ≠ SLIP_END.setWidth 32) :
      Receives s none { s with pktCnt := s.pktCnt + 1, rxdata := SLIP_END.setWidth 32 }
  | byte {msg msg' : SymbolicFormat} {byte : ConcolicValue 8} (hmsg : s.lastMsg = some msg)
      (hbytes : msg.bytes = byte :: msg'.bytes) :
      Receives s (some ⟨32, (remap byte).zext 32⟩)
        { s with lastMsg := some msg', rxdata := ((remap byte).zext 32).concrete }

theorem receives_of_readRxdata (hie : s.ie &&& UART_RXWM ≠ 0#32)
    (h : readRxdata s = .ok extension t) : Receives s extension t := by
  obtain ⟨_, _, hget, h⟩ := bind_eq_ok h
  cases hget
  rw [if_neg hie] at h
  by_cases hempty : s.empty = true
  · rw [if_pos hempty] at h
    obtain ⟨rfl, rfl⟩ : extension = none ∧ t = s.drain := by
      cases h
      exact ⟨rfl, rfl⟩
    unfold drain
    split_ifs with hend
    · exact .nothing hempty hend
    · exact .frameEnd hempty hend
  · rw [if_neg hempty] at h
    have hremaining : s.remainingBytes ≠ 0 := by simpa [empty] using hempty
    cases hmsg : s.lastMsg with
    | none =>
      rw [remainingBytes, hmsg] at hremaining
      exact absurd rfl hremaining
    | some msg =>
      rw [remainingBytes, hmsg] at hremaining
      obtain ⟨byte, msg', hnext, hbytes⟩ := SymbolicFormat.nextByte_of_remaining hremaining
      have hbyte : nextByte s = .ok byte { s with lastMsg := some msg' } := by
        simp only [nextByte, hmsg, hnext]
      rw [receive, bind_of_ok hbyte] at h
      cases h
      exact .byte hmsg hbytes

/-! ## Simulation -/

/-- The bytes of the last message that were not read yet. -/
def bytesLeft (s : Uart) : List (ConcolicValue 8) := s.lastMsg.elim [] SymbolicFormat.bytes

/-- The last message still has to be ended. -/
def endDue (s : Uart) : Bool := s.pktCnt < s.transmitter.messages.length

/-- The device stands for the queue: what is left of the last message, and its `END` if it was not
read. -/
structure Simulates (s : Uart) (q : Frames) : Prop where
  queue : q.queue = s.bytesLeft.map some ++ if s.endDue then [none] else []
  delivered : s.pktCnt = q.delivered
  count : s.transmitter.messages.length = s.pktCnt + if s.endDue then 1 else 0
  due : s.bytesLeft ≠ [] → s.endDue = true
  /-- The register does not say that the `END` was read. -/
  notRead : s.endDue = true → s.bytesLeft = [] → s.rxdata ≠ SLIP_END.setWidth 32

theorem Simulates.init : Simulates {} {} := ⟨rfl, rfl, rfl, nofun, nofun⟩

theorem bytesLeft_of_empty (h : s.empty = true) : s.bytesLeft = [] := by
  have hremaining : s.remainingBytes = 0 := by simpa [empty] using h
  unfold bytesLeft
  cases hmsg : s.lastMsg with
  | none => rfl
  | some msg =>
    rw [remainingBytes, hmsg] at hremaining
    exact SymbolicFormat.bytes_of_remaining hremaining

theorem Simulates.congr (h : Simulates s q) (hsame : SameFrames s t) : Simulates t q := by
  have hleft : t.bytesLeft = s.bytesLeft := by rw [bytesLeft, hsame.lastMsg, bytesLeft]
  have hdue : t.endDue = s.endDue := by rw [endDue, hsame.pktCnt, hsame.messages, endDue]
  constructor
  · rw [hleft, hdue, h.queue]
  · rw [hsame.pktCnt, h.delivered]
  · rw [hsame.messages, hsame.pktCnt, hdue, h.count]
  · rw [hleft, hdue]
    exact h.due
  · rw [hleft, hdue, hsame.rxdata]
    exact h.notRead

/-- A message that arrives when the `END` of the last one was read. -/
theorem Simulates.arrives {m : Message} (h : Simulates s q) (hempty : s.empty = true)
    (hread : s.pktCnt = s.transmitter.messages.length) (harrives : Arrives server s t m) :
    q.queue = [] ∧ Simulates t ⟨m.frame, q.delivered⟩ := by
  have hdue : s.endDue = false := by
    rw [endDue, hread]
    exact decide_eq_false (Nat.lt_irrefl _)
  have hdue' : t.endDue = true := by
    rw [endDue, harrives.pktCnt, harrives.count, hread]
    exact decide_eq_true (Nat.lt_succ_self _)
  have hleft : t.bytesLeft = m.format.bytes := by rw [bytesLeft, harrives.lastMsg]; rfl
  refine ⟨?_, ?_, ?_, ?_, ?_, ?_⟩
  · rw [h.queue, bytesLeft_of_empty hempty, hdue]
    rfl
  · rw [hleft, hdue']
    rfl
  · exact harrives.pktCnt.trans h.delivered
  · rw [harrives.count, harrives.pktCnt, hread, hdue']
    rfl
  · exact fun _ => hdue'
  · intro _ hnil
    obtain ⟨byte, f, _, hbytes⟩ := SymbolicFormat.nextByte_of_remaining
      (SymbolicFormat.remainingBytes_pos m.nonempty).ne'
    exact absurd (hbytes.symm.trans (hleft.symm.trans hnil)) (List.cons_ne_nil _ _)

theorem Arrives.congr {u : Uart} {m : Message} (h : Arrives server s t m) (hsame : SameFrames t u) :
    Arrives server s u m where
  pktCnt := hsame.pktCnt.trans h.pktCnt
  lastMsg := hsame.lastMsg.trans h.lastMsg
  arrival := by rw [Uart.arrival, hsame.messages, ← Uart.arrival, h.arrival]
  count := by rw [hsame.messages, h.count]

theorem sameFrames_prepareRead (hr : r ≠ .rxdata)
    (h : prepareRead r s = .ok extension t) : SameFrames s t := by
  cases r with
  | rxdata => exact absurd rfl hr
  | _ =>
    cases h
    exact ⟨rfl, rfl, rfl, rfl⟩

/-- What an access of another register does. -/
theorem arrives_or_sameFrames (hread : ¬ access.IsOf .read .rxdata)
    (hwrite : ¬ access.IsOf .write .rxdata) (h : transport server access s = .ok answer t) :
    (EndsFrame s access ∧ s.empty = true ∧ ∃ m, Arrives server s t m) ∨ SameFrames s t := by
  obtain ⟨r, handled, hregister, _, hhandler, _⟩ := RegisterBank.transport_eq_ok h
  cases hcommand : access.command with
  | read =>
    have hr : r ≠ .rxdata := by
      rintro rfl
      exact hread ⟨hcommand, hregister⟩
    obtain ⟨extension, u, asyncEvent, hprepare, rfl, _⟩ := transport_read ⟨hcommand, hregister⟩ h
    exact .inr ((sameFrames_prepareRead hr hprepare).trans (sameFrames_asyncEvent _ _))
  | write =>
    have hr : r ≠ .rxdata := by
      rintro rfl
      exact hwrite ⟨hcommand, hregister⟩
    rw [hcommand] at hhandler
    change (if r = .txdata then txdataCallback server (RegisterBank.newValue access)
      ((bank server).fn access r) else finish .write r (RegisterBank.newValue access)
      ((bank server).fn access r) none) s = .ok handled t at hhandler
    split_ifs at hhandler with htxdata
    · subst htxdata
      obtain ⟨_, _, hget, hcallback⟩ := bind_eq_ok hhandler
      cases hget
      obtain ⟨_, u, htransmit, hfinish⟩ := bind_eq_ok hcallback
      -- the access may be performed or not
      have hsame : SameFrames u t := by
        split_ifs at hfinish
        · cases hfinish
          exact .refl _
        · exact sameFrames_finish hcommand hr hfinish
      have hsent := transmit_eq_ok htransmit
      split_ifs at hsent with hcompletes
      · obtain ⟨hempty, m, harrives⟩ := hsent
        exact .inl ⟨⟨⟨hcommand, hregister⟩, hcompletes⟩, hempty, m, harrives.congr hsame⟩
      · exact .inr (hsent.trans hsame)
    · exact .inr (sameFrames_finish hcommand hr hhandler)

/-- A read of `rxdata` follows the queue. -/
theorem Simulates.receives (h : Simulates s q)
    (hread : access.IsOf .read .rxdata)
    (hcareful : s.empty = true → s.pktCnt < s.transmitter.messages.length ∨
      s.rxdata = SLIP_END.setWidth 32) (hreceives : Receives s extension t) :
    ∃ q', Frames.Step q ⟨access, RegisterBank.answer access ⟨some t.rxdata, extension⟩, none⟩ q' ∧
      Simulates t q' := by
  obtain ⟨queue, delivered⟩ := q
  obtain ⟨hqueue, hdelivered, hcount, hdue, hnotRead⟩ := h
  dsimp only at hqueue hdelivered
  have hanswer : ∀ word extension, RegisterBank.answer access ⟨some word, extension⟩ =
      extension.elim (.bytes (access.view word)) (.extended (access.view word)) := by
    intro word extension
    rw [RegisterBank.answer, hread.1]
    rfl
  rw [hanswer]
  cases hreceives with
  | nothing hempty hend =>
    have hleft := bytesLeft_of_empty hempty
    have hdone : s.endDue = false := by
      by_contra hne
      exact hnotRead (Bool.eq_true_of_not_eq_false hne) hleft hend
    rw [hleft, hdone] at hqueue
    cases hqueue
    refine ⟨_, .nothing hread, ⟨?_, hdelivered, hcount, hdue, fun hdue' => ?_⟩⟩
    · change [] = s.bytesLeft.map some ++ if s.endDue then [none] else []
      rw [hleft, hdone]
      rfl
    · exact absurd (hdone.symm.trans hdue') Bool.false_ne_true
  | frameEnd hempty hend =>
    have hleft := bytesLeft_of_empty hempty
    have hdueTrue : s.endDue = true := decide_eq_true ((hcareful hempty).resolve_right hend)
    rw [hleft, hdueTrue] at hqueue
    cases hqueue
    rw [hdueTrue] at hcount
    have hdone : endDue { s with pktCnt := s.pktCnt + 1, rxdata := SLIP_END.setWidth 32 } = false :=
      decide_eq_false (by
        change ¬ s.pktCnt + 1 < s.transmitter.messages.length
        rw [hcount]
        exact Nat.lt_irrefl _)
    refine ⟨_, .frameEnd hread, ⟨?_, congrArg (· + 1) hdelivered, ?_, fun hne => ?_, fun h => ?_⟩⟩
    · change [] = s.bytesLeft.map some ++ if _ then [none] else []
      rw [hleft, hdone]
      rfl
    · rw [hdone]
      exact hcount
    · exact absurd hleft hne
    · exact absurd (hdone.symm.trans h) Bool.false_ne_true
  | @byte msg msg' byte hmsg hbytes =>
    have hleft : s.bytesLeft = byte :: msg'.bytes := by rw [bytesLeft, hmsg, ← hbytes]; rfl
    have hdueTrue : s.endDue = true := hdue (hleft ▸ List.cons_ne_nil _ _)
    rw [hleft, hdueTrue] at hqueue
    cases hqueue
    refine ⟨_, .byte hread (carries_remap byte), ⟨?_, hdelivered, hcount, fun _ => hdueTrue,
      fun _ _ => concrete_remap_ne_end byte⟩⟩
    change _ = msg'.bytes.map some ++ if s.endDue then [none] else []
    rw [hdueTrue]
    rfl

/-- A careful access follows the queue. -/
theorem Simulates.step (h : Simulates s q) (hcareful : Careful s access)
    (hstep : transport server access s = .ok answer t) :
    ∃ q', Frames.Step q ⟨access, answer, arrival server s t⟩ q' ∧ Simulates t q' := by
  obtain ⟨⟨hie, hwrite⟩, hempty, hends⟩ := hcareful
  by_cases hread : access.IsOf .read .rxdata
  · obtain ⟨extension, u, asyncEvent, hprepare, rfl, rfl⟩ := transport_read hread hstep
    have hreceives := receives_of_readRxdata (hie hread) hprepare
    have hnone : arrival server s { u with asyncEvent } = none := by
      cases hreceives <;> exact if_pos rfl
    obtain ⟨q', hserves, hsimulates⟩ := h.receives hread (hempty hread) hreceives
    rw [hnone]
    exact ⟨q', hserves, hsimulates.congr (sameFrames_asyncEvent _ _)⟩
  · obtain ⟨hendsFrame, hread', m, harrives⟩ | hsame := arrives_or_sameFrames hread hwrite hstep
    · obtain ⟨hnil, hsimulates⟩ := h.arrives hread' (hends hendsFrame) harrives
      obtain ⟨queue, delivered⟩ := q
      cases hnil
      rw [harrives.arrival]
      exact ⟨_, .message hread, hsimulates⟩
    · rw [hsame.arrival]
      exact ⟨q, .other hread, h.congr hsame⟩

theorem simulates_of_runs (h : Runs server Careful history s) :
    ∃ q, Frames.Serves history q ∧ Simulates s q := by
  induction h with
  | init => exact ⟨_, .init, .init⟩
  | step _ hcareful hstep ih =>
    obtain ⟨q, hserves, hsimulates⟩ := ih
    obtain ⟨q', hqueue, hsimulates'⟩ := hsimulates.step hcareful hstep
    exact ⟨q', .step hserves hqueue, hsimulates'⟩

/-- A careful guest reads well-formed frames. -/
theorem wellFramed_of_careful (server : Server) : WellFramed server Careful := by
  intro history s h
  obtain ⟨q, hserves, hsimulates⟩ := simulates_of_runs h
  exact ⟨q, hserves, hsimulates.delivered⟩

/-! ## Runs of some guests -/

section

variable (server) (P : Uart → Access → Prop) [∀ s access, Decidable (P s access)]

/-- The run of some accesses that have the property `P`. -/
def runOf : List Access → List Observation → Uart → Option (List Observation × Uart)
  | [], history, s => some (history, s)
  | access :: accesses, history, s =>
    if P s access then
      match transport server access s with
      | .ok answer t => runOf accesses (history ++ [⟨access, answer, arrival server s t⟩]) t
      | .error _ _ => none
    else none

theorem runs_of_runOf {accesses : List Access} {history' : List Observation}
    (hruns : Runs server P history s) (h : runOf server P accesses history s = some (history', t)) :
    Runs server P history' t := by
  induction accesses generalizing history s with
  | nil =>
    cases h
    exact hruns
  | cons access accesses ih =>
    rw [runOf] at h
    split_ifs at h with hP
    cases hstep : transport server access s with
    | error e u =>
      rw [hstep] at h
      cases h
    | ok answer u =>
      rw [hstep] at h
      exact ih (.step hruns hP hstep) h

theorem exists_runs (accesses : List Access) {p : List Observation × Uart → Bool}
    (h : (runOf server P accesses [] {}).any p = true) :
    ∃ history s, Runs server P history s ∧ p (history, s) = true := by
  cases hrun : runOf server P accesses [] {} with
  | none =>
    rw [hrun] at h
    cases h
  | some result =>
    rw [hrun] at h
    exact ⟨result.1, result.2, runs_of_runOf server P .init hrun, h⟩

end

instance (s : Uart) (access : Access) : Decidable (Permitted s access) :=
  inferInstanceAs (Decidable ((_ → _) ∧ _))

instance (s : Uart) (access : Access) : Decidable (EndsFrame s access) :=
  inferInstanceAs (Decidable (_ ∧ _))

instance (s : Uart) (access : Access) : Decidable (Careful s access) :=
  inferInstanceAs (Decidable (_ ∧ (_ → _ → _) ∧ (_ → _)))

/-- The bytes that a guest has read. -/
def bytesRead (history : List Observation) : List (List (BitVec 8)) :=
  history.filterMap fun o => match o.answer with
    | .none => none
    | .bytes data => some data
    | .extended data _ => some data

/-- A server that answers every packet with the byte `A`. -/
def oneByte : Server := fun _ => .ok ⟨⟨⟨8, ⟨0x41#8, none⟩⟩, 8, rfl, rfl, le_rfl⟩, rfl, by decide⟩

def readWord (addr : BitVec 64) : Access := ⟨.read, addr, List.replicate 4 0#8, 4⟩

def writeByte (addr : BitVec 64) (byte : BitVec 8) : Access := ⟨.write, addr, [byte, 0, 0, 0], 4⟩

/-- The guest enables the interrupt and sends a packet of one byte. -/
def requests : List Access :=
  [writeByte 0x10#64 2#8, writeByte 0#64 0x78#8, writeByte 0#64 SLIP_END]

/-- A careful guest that sends two packets, and reads up to the `END` of each message. -/
theorem wellFramed_oneByte : ∃ history s, Runs oneByte Careful history s ∧
    bytesRead history = [[0x41#8, 0, 0, 0], [SLIP_END, 0, 0, 0], [0x41#8, 0, 0, 0],
      [SLIP_END, 0, 0, 0]] ∧
    ∃ q, Frames.Serves history q ∧ q.delivered = 2 := by
  obtain ⟨history, s, hruns, h⟩ := exists_runs oneByte Careful
    (requests ++ List.replicate 2 (readWord 4#64) ++ requests ++ List.replicate 2 (readWord 4#64))
    (p := fun r => r.2.pktCnt = 2 ∧ bytesRead r.1 = [[0x41#8, 0, 0, 0], [SLIP_END, 0, 0, 0],
      [0x41#8, 0, 0, 0], [SLIP_END, 0, 0, 0]])
    (by decide +kernel)
  obtain ⟨hpktCnt, hbytes⟩ : s.pktCnt = 2 ∧ bytesRead history = _ := of_decide_eq_true h
  obtain ⟨q, hserves, hdelivered⟩ := wellFramed_of_careful oneByte history s hruns
  exact ⟨history, s, hruns, hbytes, q, hserves, hdelivered ▸ hpktCnt⟩

/-- A guest that reads on after the empty flag gets the `END` of the message a second time, and one
that sends the next packet before it has read the `END` never gets it. -/
theorem misframed_messages : ¬ WellFramed oneByte Permitted ∧
    (∃ history s, Runs oneByte Permitted history s ∧ s.transmitter.messages.length = 1 ∧
      s.pktCnt = 2 ∧ bytesRead history = [[0x41#8, 0, 0, 0], [SLIP_END, 0, 0, 0], [0, 0, 0, 0x80#8],
        [SLIP_END, 0, 0, 0]]) ∧
    ∃ history s, Runs oneByte Permitted history s ∧ s.transmitter.messages.length = 2 ∧
      s.pktCnt = 1 ∧ bytesRead history = [[0x41#8, 0, 0, 0], [0x41#8, 0, 0, 0],
        [SLIP_END, 0, 0, 0], [0, 0, 0, 0x80#8]] := by
  refine ⟨fun hframed => ?_, ?_, ?_⟩
  · obtain ⟨history, s, hruns, h⟩ := exists_runs oneByte Permitted
      (requests ++ List.replicate 4 (readWord 4#64))
      (p := fun r => r.2.pktCnt = 2 ∧ Frames.arrivals r.1 = 1) (by decide +kernel)
    obtain ⟨hpktCnt, harrivals⟩ : s.pktCnt = 2 ∧ Frames.arrivals history = 1 := of_decide_eq_true h
    obtain ⟨q, hserves, hdelivered⟩ := hframed history s hruns
    have hcount := hserves.arrivals_eq
    omega
  · obtain ⟨history, s, hruns, h⟩ := exists_runs oneByte Permitted
      (requests ++ List.replicate 4 (readWord 4#64))
      (p := fun r => r.2.transmitter.messages.length = 1 ∧ r.2.pktCnt = 2 ∧ bytesRead r.1 =
        [[0x41#8, 0, 0, 0], [SLIP_END, 0, 0, 0], [0, 0, 0, 0x80#8], [SLIP_END, 0, 0, 0]])
      (by decide +kernel)
    exact ⟨history, s, hruns, of_decide_eq_true h⟩
  · obtain ⟨history, s, hruns, h⟩ := exists_runs oneByte Permitted
      (requests ++ readWord 4#64 :: requests ++ List.replicate 3 (readWord 4#64))
      (p := fun r => r.2.transmitter.messages.length = 2 ∧ r.2.pktCnt = 1 ∧ bytesRead r.1 =
        [[0x41#8, 0, 0, 0], [0x41#8, 0, 0, 0], [SLIP_END, 0, 0, 0], [0, 0, 0, 0x80#8]])
      (by decide +kernel)
    exact ⟨history, s, hruns, of_decide_eq_true h⟩

end Uart

end SpsVp.Platform
