import SpsVp.Platform.Uart

/-!
# The UART with threads

`AbstractUART` of `platform/common/abstract_uart.cpp`, before it is shut down. The thread of the
guest, the transmit thread and the receive thread share two queues, which two semaphores guard:
`txfull` counts the bytes to transmit, and `rxempty` the places that are left for bytes received. A
section under a mutex is one step here, and so is an operation on a semaphore. What the threads
notify the PLIC of is left out, and the two sections of a read of `ip`, which only look at the
queues, are one.

`Balanced` relates the semaphores to the queues wherever the threads are, and `lossless_of_run`
derives from it that the queues are bounded and that no byte is lost, in every interleaving.
-/

namespace SpsVp.Platform

open Lib Effect

/-- Where the transmit thread is: at `swait`, behind it, or with a byte for `write_data`. -/
inductive Transmitter where
  | waiting | taking
  | writing (data : BitVec 8)
  deriving DecidableEq

/-- Where the receive thread is: outside of `rxpush`, at its `swait`, or behind it. -/
inductive Receiver where
  | idle
  | waiting (data : BitVec 8)
  | pushing (data : BitVec 8)
  deriving DecidableEq

/-- The byte that a thread holds. -/
def Transmitter.held : Transmitter → List (BitVec 8)
  | .waiting | .taking => []
  | .writing data => [data]

@[inherit_doc Transmitter.held]
def Receiver.held : Receiver → List (BitVec 8)
  | .idle => []
  | .waiting data | .pushing data => [data]

/-- What a thread has counted down and not used yet. -/
def Transmitter.claims : Transmitter → Nat
  | .waiting | .writing _ => 0
  | .taking => 1

@[inherit_doc Transmitter.claims]
def Receiver.claims : Receiver → Nat
  | .idle | .waiting _ => 0
  | .pushing _ => 1

/-- What is left to do for a thread, if a byte in a queue counts for three before it is transmitted,
and for one before it is read. -/
def Transmitter.work : Transmitter → Nat
  | .taking => 0
  | .waiting => 1
  | .writing _ => 2

@[inherit_doc Transmitter.work]
def Receiver.work : Receiver → Nat
  | .idle => 0
  | .pushing _ => 2
  | .waiting _ => 3

/-- The device and its threads. `posting` says that the guest has a `spost(&txfull)` to do. The last
four fields record the bytes that were accepted from the guest, handed to `write_data`, given to
`rxpush` and taken by reads of `rxdata`. -/
structure AbstractUart where
  reg : UartRegister → BitVec 32 := fun _ => 0#32
  txFifo : List (BitVec 8) := []
  rxFifo : List (BitVec 8) := []
  txfull : Nat := 0
  rxempty : Nat := 8
  posting : Bool := false
  transmitter : Transmitter := .waiting
  receiver : Receiver := .idle
  accepted : List (BitVec 8) := []
  written : List (BitVec 8) := []
  given : List (BitVec 8) := []
  taken : List (BitVec 8) := []

namespace AbstractUart

variable {s t : AbstractUart} {access : Access} {out : Answer}

abbrev UART_FIFO_DEPTH : Nat := 8

def assign (r : UartRegister) (word : BitVec 32) (s : AbstractUart) : AbstractUart :=
  { s with reg := Function.update s.reg r word }

/-- The read of `rxdata`. -/
def readRxdata (s : AbstractUart) : AbstractUart :=
  match s.rxFifo with
  | [] => s.assign .rxdata (1#32 <<< 31)
  | data :: rest =>
    { s.assign .rxdata (data.setWidth 32) with
      rxFifo := rest
      rxempty := s.rxempty + 1
      taken := s.taken ++ [data] }

/-- The value of `ip`. -/
def pendingInterrupts (s : AbstractUart) : BitVec 32 :=
  (if s.txFifo.length < (ctrlCnt (s.reg .txctrl)).toNat then UART_TXWM else 0#32) |||
    (if (ctrlCnt (s.reg .rxctrl)).toNat < s.rxFifo.length then UART_RXWM else 0#32)

/-- The first part of `register_access_callback`, for a read. -/
def prepareRead (s : AbstractUart) : UartRegister → AbstractUart
  | .txdata => s.assign .txdata (if UART_FIFO_DEPTH ≤ s.txFifo.length then UART_FULL else 0#32)
  | .rxdata => s.readRxdata
  | .ip => s.assign .ip s.pendingInterrupts
  | .txctrl | .rxctrl | .ie | .div => s

/-- The last part, for a write of `txdata`, up to the `spost`. -/
def pushTx (s : AbstractUart) : AbstractUart :=
  if UART_FIFO_DEPTH ≤ s.txFifo.length then s
  else
    let data := (s.reg .txdata).setWidth 8
    { s with txFifo := s.txFifo ++ [data], posting := true, accepted := s.accepted ++ [data] }

def registerAccessCallback (command : Command) (r : UartRegister) (_nv : BitVec 32)
    (fn : Effect Empty AbstractUart (Option (BitVec 32))) : Effect Empty AbstractUart Handled := do
  if command = .read then modify (prepareRead · r)
  let read ← fn
  if command = .write ∧ r = .txdata then modify pushTx
  return { read }

def bank : RegisterBank Empty AbstractUart UartRegister where
  find := Uart.find
  value r s := s.reg r
  assign := assign
  handler := registerAccessCallback

inductive Event where
  | access (access : Access)
  | post
  | waitFull | take | writeData
  | rxpush (data : BitVec 8)
  | waitEmpty | push

/-- A step of a thread, where it can take one. -/
def step (s : AbstractUart) : Event → Option AbstractUart
  | .access access =>
    if s.posting then none
    else match bank.transport access s with
      | .ok _ t => some t
      | .error _ _ => none
  | .post => if s.posting then some { s with posting := false, txfull := s.txfull + 1 } else none
  | .waitFull =>
    if s.transmitter = .waiting ∧ 0 < s.txfull then
      some { s with transmitter := .taking, txfull := s.txfull - 1 }
    else none
  | .take =>
    match s.transmitter, s.txFifo with
    | .taking, data :: rest => some { s with transmitter := .writing data, txFifo := rest }
    | _, _ => none
  | .writeData =>
    match s.transmitter with
    | .writing data => some { s with transmitter := .waiting, written := s.written ++ [data] }
    | _ => none
  | .rxpush data =>
    if s.receiver = .idle then some { s with receiver := .waiting data, given := s.given ++ [data] }
    else none
  | .waitEmpty =>
    match s.receiver with
    | .waiting data =>
      if 0 < s.rxempty then some { s with receiver := .pushing data, rxempty := s.rxempty - 1 }
        else none
    | _ => none
  | .push =>
    match s.receiver with
    | .pushing data => some { s with receiver := .idle, rxFifo := s.rxFifo ++ [data] }
    | _ => none

/-! ## The invariant -/

/-- The semaphores count what is in the queues, but for the threads between a semaphore and a queue,
and every byte is somewhere on its way. -/
structure Balanced (s : AbstractUart) : Prop where
  txfull : s.txfull + s.posting.toNat + s.transmitter.claims = s.txFifo.length
  rxempty : s.rxempty + s.rxFifo.length + s.receiver.claims = UART_FIFO_DEPTH
  bounded : s.txFifo.length ≤ UART_FIFO_DEPTH
  sent : s.accepted = s.written ++ (s.transmitter.held ++ s.txFifo)
  received : s.given = s.taken ++ (s.rxFifo ++ s.receiver.held)

theorem Balanced.assign (h : Balanced s) (r : UartRegister) (word : BitVec 32) :
    Balanced (s.assign r word) := ⟨h.txfull, h.rxempty, h.bounded, h.sent, h.received⟩

theorem Balanced.readRxdata (h : Balanced s) : Balanced s.readRxdata := by
  have hrxempty := h.rxempty
  have hreceived := h.received
  unfold AbstractUart.readRxdata
  split
  · exact h.assign _ _
  next data rest hfifo =>
    rw [hfifo] at hrxempty hreceived
    refine ⟨h.txfull, ?_, h.bounded, h.sent, hreceived.trans (by rw [List.append_assoc]; rfl)⟩
    change s.rxempty + 1 + rest.length + s.receiver.claims = _
    rw [List.length_cons] at hrxempty
    omega

theorem Balanced.prepareRead (h : Balanced s) (r : UartRegister) : Balanced (s.prepareRead r) := by
  cases r with
  | txdata | ip => exact h.assign _ _
  | rxdata => exact h.readRxdata
  | txctrl | rxctrl | ie | div => exact h

theorem Balanced.pushTx (h : Balanced s) (hposting : s.posting = false) : Balanced s.pushTx := by
  have htxfull := h.txfull
  unfold AbstractUart.pushTx
  split_ifs with hfull
  · exact h
  · rw [hposting] at htxfull
    refine ⟨?_, h.rxempty, ?_, ?_, h.received⟩
    · change s.txfull + 1 + s.transmitter.claims = _
      rw [List.length_append, List.length_singleton, ← htxfull]
      change _ = s.txfull + 0 + s.transmitter.claims + 1
      omega
    · rw [List.length_append, List.length_singleton]
      omega
    · change s.accepted ++ _ = _
      rw [h.sent, List.append_assoc, List.append_assoc]

/-- What a transaction comes to. -/
theorem transport_cases (h : bank.transport access s = .ok out t) :
    ∃ r, bank.register access = some r ∧ (access.command = .read ∧ t = s.prepareRead r ∧
        out = .bytes (wordBytes (t.reg r) access.offset access.length) ∨
      access.command = .write ∧
        t = if r = .txdata then (bank.written access r s).pushTx else bank.written access r s) := by
  obtain ⟨r, handled, hr, -, hhandler, rfl⟩ := RegisterBank.transport_eq_ok h
  refine ⟨r, hr, ?_⟩
  change registerAccessCallback access.command r (RegisterBank.newValue access)
    (bank.fn access r) s = _
    at hhandler
  unfold registerAccessCallback at hhandler
  cases hcommand : access.command with
  | read =>
    rw [RegisterBank.fn, hcommand] at hhandler
    cases hhandler
    refine .inl ⟨rfl, rfl, ?_⟩
    rw [RegisterBank.answer, hcommand]
    rfl
  | write =>
    rw [hcommand] at hhandler
    obtain ⟨read, v, hfn, hhandler⟩ := bind_eq_ok hhandler
    rw [RegisterBank.fn_of_write hcommand] at hfn
    cases hfn
    refine .inr ⟨rfl, ?_⟩
    split_ifs with htxdata
    · rw [if_pos ⟨rfl, htxdata⟩] at hhandler
      cases hhandler
      rfl
    · rw [if_neg fun hand => htxdata hand.2] at hhandler
      cases hhandler
      rfl

theorem Balanced.transport (h : Balanced s) (hposting : s.posting = false)
    (haccess : bank.transport access s = .ok out t) : Balanced t := by
  obtain ⟨r, -, ⟨-, rfl, -⟩ | ⟨-, rfl⟩⟩ := transport_cases haccess
  · exact h.prepareRead r
  · have hwritten : Balanced (bank.written access r s) := h.assign _ _
    split_ifs
    · exact hwritten.pushTx hposting
    · exact hwritten

theorem Balanced.step (h : Balanced s) {e : Event} (hstep : s.step e = some t) : Balanced t := by
  have htxfull := h.txfull
  have hrxempty := h.rxempty
  have hbounded := h.bounded
  have hsent := h.sent
  have hreceived := h.received
  unfold AbstractUart.step at hstep
  cases e with
  | access access =>
    dsimp only at hstep
    split_ifs at hstep with hposting
    split at hstep
    next out u htransport =>
      cases hstep
      exact h.transport (Bool.eq_false_iff.mpr hposting) htransport
    · cases hstep
  | post =>
    dsimp only at hstep
    split_ifs at hstep with hposting
    cases hstep
    rw [hposting] at htxfull
    exact ⟨htxfull, hrxempty, hbounded, hsent, hreceived⟩
  | waitFull =>
    obtain ⟨⟨hwaiting, hpos⟩, rfl⟩ := Option.ite_some_none_eq_some.mp hstep
    rw [hwaiting] at htxfull hsent
    refine ⟨?_, hrxempty, hbounded, hsent, hreceived⟩
    change s.txfull - 1 + s.posting.toNat + 1 = s.txFifo.length
    change s.txfull + s.posting.toNat + 0 = _ at htxfull
    omega
  | take =>
    dsimp only at hstep
    split at hstep
    next data rest htaking hfifo =>
      cases hstep
      rw [htaking, hfifo] at htxfull hsent
      rw [hfifo] at hbounded
      rw [List.length_cons] at htxfull hbounded
      refine ⟨?_, hrxempty, Nat.le_of_succ_le hbounded, hsent, hreceived⟩
      exact Nat.succ.inj htxfull
    · cases hstep
  | writeData =>
    dsimp only at hstep
    split at hstep
    next data hwriting =>
      cases hstep
      rw [hwriting] at htxfull hsent
      refine ⟨htxfull, hrxempty, hbounded, hsent.trans ?_, hreceived⟩
      exact List.append_cons _ _ _
    · cases hstep
  | rxpush data =>
    obtain ⟨hidle, rfl⟩ := Option.ite_some_none_eq_some.mp hstep
    rw [hidle] at hrxempty hreceived
    refine ⟨htxfull, hrxempty, hbounded, hsent, ?_⟩
    change s.given ++ [data] = s.taken ++ (s.rxFifo ++ [data])
    rw [hreceived]
    change s.taken ++ (s.rxFifo ++ []) ++ [data] = _
    rw [List.append_nil, List.append_assoc]
  | waitEmpty =>
    dsimp only at hstep
    split at hstep
    next data hwaiting =>
      obtain ⟨hpos, rfl⟩ := Option.ite_some_none_eq_some.mp hstep
      rw [hwaiting] at hrxempty hreceived
      refine ⟨htxfull, ?_, hbounded, hsent, hreceived⟩
      change s.rxempty - 1 + s.rxFifo.length + 1 = UART_FIFO_DEPTH
      change s.rxempty + s.rxFifo.length + 0 = _ at hrxempty
      omega
    · cases hstep
  | push =>
    dsimp only at hstep
    split at hstep
    next data hpushing =>
      cases hstep
      rw [hpushing] at hrxempty hreceived
      refine ⟨htxfull, ?_, hbounded, hsent, ?_⟩
      · change s.rxempty + (s.rxFifo ++ [data]).length + 0 = _
        change s.rxempty + s.rxFifo.length + 1 = _ at hrxempty
        rw [List.length_append, List.length_singleton]
        omega
      · change s.given = s.taken ++ (s.rxFifo ++ [data] ++ [])
        rw [List.append_nil]
        exact hreceived
    · cases hstep

theorem Balanced.run (h : Balanced s) {events : List Event}
    (hrun : events.foldlM AbstractUart.step s = some t) :
    Balanced t := by
  induction events generalizing s with
  | nil =>
    cases hrun
    exact h
  | cons e events ih =>
    rw [List.foldlM_cons] at hrun
    obtain ⟨u, hstep, hrun⟩ := Option.bind_eq_some_iff.mp hrun
    exact ih (h.step hstep) hrun

/-! ## Progress -/

/-- What is left to do for the bytes on their way. -/
def work (s : AbstractUart) : Nat :=
  3 * s.txFifo.length + s.posting.toNat + s.transmitter.work + (s.rxFifo.length + s.receiver.work)

/-- A read of the whole of `rxdata`. -/
def rxdataRead : Access := ⟨.read, 4, [], 4⟩

theorem step_rxdataRead (hposting : s.posting = false) :
    s.step (.access rxdataRead) = some s.readRxdata := by
  unfold step
  dsimp only
  rw [hposting]
  rfl

theorem readRxdata_of_cons {data : BitVec 8} {rest : List (BitVec 8)}
    (h : s.rxFifo = data :: rest) :
    s.readRxdata = { s.assign .rxdata (data.setWidth 32) with
      rxFifo := rest, rxempty := s.rxempty + 1, taken := s.taken ++ [data] } := by
  unfold readRxdata
  rw [h]

/-- A step that brings the bytes on their way. -/
def Advances (s t : AbstractUart) : Prop :=
  work t < work s ∧ t.accepted = s.accepted ∧ t.given = s.given

theorem advances_readRxdata (hposting : s.posting = false) (hfifo : s.rxFifo ≠ []) :
    ∃ e t, s.step e = some t ∧ Advances s t := by
  obtain ⟨data, rest, hcons⟩ := List.exists_cons_of_ne_nil hfifo
  refine ⟨.access rxdataRead, _, step_rxdataRead hposting, ?_⟩
  rw [readRxdata_of_cons hcons]
  refine ⟨?_, rfl, rfl⟩
  change _ + (rest.length + s.receiver.work) < _ + (s.rxFifo.length + s.receiver.work)
  rw [hcons, List.length_cons]
  exact Nat.add_lt_add_left (by omega) _

theorem Balanced.transmits (h : Balanced s) (hposting : s.posting = false) :
    s.written = s.accepted ∨ ∃ e t, s.step e = some t ∧ Advances s t := by
  have htxfull := h.txfull
  have hsent := h.sent
  rw [hposting] at htxfull
  cases htransmitter : s.transmitter with
  | waiting =>
    rw [htransmitter] at htxfull hsent
    change s.txfull + 0 + 0 = _ at htxfull
    by_cases hpos : 0 < s.txfull
    · refine .inr ⟨.waitFull, _, if_pos ⟨htransmitter, hpos⟩, ?_, rfl, rfl⟩
      unfold work
      rw [htransmitter]
      exact Nat.add_lt_add_right (Nat.lt_succ_self _) _
    · rw [List.eq_nil_of_length_eq_zero (by omega : s.txFifo.length = 0)] at hsent
      exact .inl (hsent.trans (List.append_nil _)).symm
  | taking =>
    rw [htransmitter] at htxfull
    have hne : s.txFifo ≠ [] := List.ne_nil_of_length_eq_add_one htxfull.symm
    obtain ⟨data, rest, hcons⟩ := List.exists_cons_of_ne_nil hne
    refine .inr ⟨.take, { s with transmitter := .writing data, txFifo := rest }, ?_, ?_, rfl, rfl⟩
    · unfold AbstractUart.step
      rw [htransmitter, hcons]
    · simp only [work, htransmitter, hcons, List.length_cons, Transmitter.work]
      omega
  | writing data =>
    refine .inr ⟨.writeData, { s with transmitter := .waiting, written := s.written ++ [data] },
      ?_, ?_, rfl, rfl⟩
    · unfold AbstractUart.step
      rw [htransmitter]
    · unfold work
      rw [htransmitter]
      exact Nat.add_lt_add_right (Nat.lt_succ_self _) _

theorem Balanced.receives (h : Balanced s) (hposting : s.posting = false) :
    s.taken = s.given ∨ ∃ e t, s.step e = some t ∧ Advances s t := by
  have hrxempty := h.rxempty
  have hreceived := h.received
  cases hreceiver : s.receiver with
  | idle =>
    rw [hreceiver] at hreceived
    by_cases hfifo : s.rxFifo = []
    · rw [hfifo] at hreceived
      exact .inl (hreceived.trans (List.append_nil _)).symm
    · exact .inr (advances_readRxdata hposting hfifo)
  | waiting data =>
    by_cases hpos : 0 < s.rxempty
    · refine .inr ⟨.waitEmpty, { s with receiver := .pushing data, rxempty := s.rxempty - 1 },
        ?_, ?_, rfl, rfl⟩
      · unfold AbstractUart.step
        rw [hreceiver]
        exact if_pos hpos
      · unfold work
        rw [hreceiver]
        exact Nat.lt_succ_self _
    · -- all places are taken, so that there is something to read
      rw [hreceiver] at hrxempty
      change s.rxempty + s.rxFifo.length + 0 = 8 at hrxempty
      exact .inr (advances_readRxdata hposting (List.ne_nil_of_length_pos (by omega)))
  | pushing data =>
    refine .inr ⟨.push, { s with receiver := .idle, rxFifo := s.rxFifo ++ [data] },
      ?_, ?_, rfl, rfl⟩
    · unfold AbstractUart.step
      rw [hreceiver]
    · unfold work
      rw [hreceiver]
      change _ + ((s.rxFifo ++ [data]).length + 0) < _ + (s.rxFifo.length + 2)
      rw [List.length_append, List.length_singleton]
      exact Nat.add_lt_add_left (by omega) _

/-- While a byte is on its way, some thread can bring it on. -/
theorem Balanced.progress (h : Balanced s) :
    s.written = s.accepted ∧ s.taken = s.given ∨ ∃ e t, s.step e = some t ∧ Advances s t := by
  cases hposting : s.posting with
  | true =>
    refine .inr ⟨.post, _, if_pos hposting, ?_, rfl, rfl⟩
    simp only [work, hposting, Bool.toNat_false, Bool.toNat_true]
    omega
  | false =>
    obtain hwritten | hadvances := h.transmits hposting
    · obtain htaken | hadvances := h.receives hposting
      · exact .inl ⟨hwritten, htaken⟩
      · exact .inr hadvances
    · exact .inr hadvances

theorem Balanced.drains (h : Balanced s) :
    ∃ (events : List Event) (t : AbstractUart), events.foldlM AbstractUart.step s = some t ∧
      t.written = s.accepted ∧ t.taken = s.given := by
  induction hwork : s.work using Nat.strongRecOn generalizing s with
  | ind n ih =>
    obtain ⟨hwritten, htaken⟩ | ⟨e, t, hstep, hless, haccepted, hgiven⟩ := h.progress
    · exact ⟨[], s, rfl, hwritten, htaken⟩
    · obtain ⟨events, u, hrun, hwritten, htaken⟩ := ih _ (hwork ▸ hless) (h.step hstep) rfl
      refine ⟨e :: events, u, ?_, hwritten.trans haccepted, htaken.trans hgiven⟩
      rw [List.foldlM_cons, hstep]
      exact hrun

/-! ## No byte is lost -/

/-- What holds between any two steps of the threads. -/
structure Lossless (s : AbstractUart) : Prop where
  txBounded : s.txFifo.length ≤ UART_FIFO_DEPTH
  rxBounded : s.rxFifo.length ≤ UART_FIFO_DEPTH
  available : s.transmitter = .taking → s.txFifo ≠ []
  /-- A write to `txdata` is ignored if the queue is full, and else its lowest byte is accepted. -/
  accepts : ∀ access out t, access.command = .write → bank.register access = some .txdata →
    bank.transport access s = .ok out t →
      t.accepted = if UART_FIFO_DEPTH ≤ s.txFifo.length then s.accepted
      else s.accepted ++ [(t.reg .txdata).setWidth 8]
  sent : s.accepted = s.written ++ (s.transmitter.held ++ s.txFifo)
  received : s.given = s.taken ++ (s.rxFifo ++ s.receiver.held)
  /-- A read of `rxdata` takes the first byte, and returns it if it covers the lowest byte. -/
  returns : ∀ access out t data rest, access.command = .read → bank.register access = some .rxdata →
    bank.transport access s = .ok out t → s.rxFifo = data :: rest →
    t.taken = s.taken ++ [data] ∧ t.rxFifo = rest ∧
      (access.offset = 0 → 0 < access.length → ∃ bytes, out = .bytes (data :: bytes))
  drains : ∃ (events : List Event) (t : AbstractUart), events.foldlM step s = some t ∧
    t.written = s.accepted ∧ t.taken = s.given

theorem wordBytes_setWidth (data : BitVec 8) {len : Nat} (h : 0 < len) :
    ∃ bytes, wordBytes (data.setWidth 32) 0 len = data :: bytes := by
  obtain ⟨len, rfl⟩ := Nat.exists_eq_succ_of_ne_zero (Nat.ne_of_gt h)
  rw [wordBytes, List.ofFn_succ]
  have hlow : (data.setWidth 32).extractLsb' 0 8 = data := by
    ext i hi
    simp [(by omega : i < 32), BitVec.getLsbD_eq_getElem hi]
  exact ⟨_, congrArg (· :: _) hlow⟩

theorem Balanced.accepts (hwrite : access.command = .write)
    (hr : bank.register access = some .txdata) (h : bank.transport access s = .ok out t) :
    t.accepted = if UART_FIFO_DEPTH ≤ s.txFifo.length then s.accepted
      else s.accepted ++ [(t.reg .txdata).setWidth 8] := by
  obtain ⟨r, hr', ⟨hread, -⟩ | ⟨-, rfl⟩⟩ := transport_cases h
  · cases hwrite.symm.trans hread
  · cases hr.symm.trans hr'
    rw [if_pos rfl]
    unfold AbstractUart.pushTx
    change AbstractUart.accepted (if UART_FIFO_DEPTH ≤ s.txFifo.length then _ else _) = _
    split_ifs <;> rfl

theorem Balanced.returns {data : BitVec 8} {rest : List (BitVec 8)} (hread : access.command = .read)
    (hr : bank.register access = some .rxdata) (h : bank.transport access s = .ok out t)
    (hfifo : s.rxFifo = data :: rest) : t.taken = s.taken ++ [data] ∧ t.rxFifo = rest ∧
      (access.offset = 0 → 0 < access.length → ∃ bytes, out = .bytes (data :: bytes)) := by
  obtain ⟨r, hr', ⟨-, ht, hout⟩ | ⟨hwrite, -⟩⟩ := transport_cases h
  · cases hr.symm.trans hr'
    have ht' : t = _ := ht.trans (readRxdata_of_cons hfifo)
    refine ⟨by rw [ht'], by rw [ht'], fun hoffset hlength => ?_⟩
    have hreg : t.reg .rxdata = data.setWidth 32 := by
      rw [ht']
      exact Function.update_self UartRegister.rxdata _ s.reg
    obtain ⟨bytes, hbytes⟩ := wordBytes_setWidth data hlength
    rw [hout, hreg, hoffset, hbytes]
    exact ⟨bytes, rfl⟩
  · cases hread.symm.trans hwrite

/-- In every interleaving of the threads the queues are bounded and no byte is lost. -/
theorem lossless_of_run {events : List Event} (h : events.foldlM step {} = some s) :
    Lossless s := by
  have hbalanced : Balanced s := Balanced.run ⟨rfl, rfl, Nat.zero_le _, rfl, rfl⟩ h
  refine ⟨hbalanced.bounded, ?_, ?_, fun _ _ _ => Balanced.accepts, hbalanced.sent,
    hbalanced.received, fun _ _ _ _ _ => Balanced.returns, hbalanced.drains⟩
  · have := hbalanced.rxempty
    omega
  · intro htaking
    have htxfull := hbalanced.txfull
    rw [htaking] at htxfull
    exact List.ne_nil_of_length_eq_add_one htxfull.symm

/-- A byte is received. -/
def oneReceived : List Event := [.rxpush 0x41, .waitEmpty, .push]

theorem oneReceived_lossless :
    ∃ s, oneReceived.foldlM step {} = some s ∧ s.rxFifo = [0x41] ∧ Lossless s :=
  ⟨_, rfl, rfl, lossless_of_run (show oneReceived.foldlM step {} = some _ from rfl)⟩

/-- A read of the second byte of `rxdata` takes the byte that was received, and returns zero. -/
theorem oneReceived_lost : ∃ s t, oneReceived.foldlM step {} = some s ∧ s.given = [0x41] ∧
    bank.transport ⟨.read, 5, [0], 1⟩ s = .ok (.bytes [0]) t ∧ t.rxFifo = [] :=
  ⟨_, _, rfl, rfl, rfl, rfl⟩

end AbstractUart

end SpsVp.Platform
