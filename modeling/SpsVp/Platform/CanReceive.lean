import SpsVp.Platform.Can

/-!
# Reception of the CAN controller

Two buffers take the frames that arrive, each with a bit of `status` that says that it is full. A
READ RX BUFFER answers with the identifier, the length and the data of a buffer, and makes it empty
with the last of these bytes. `exactAll_iff` says that nothing goes wrong but a read of a buffer
whose length byte was never written: the constructor leaves the buffers as they are, and a length
above 64 leads out of the array.
-/

namespace SpsVp.Platform

open Lib

/-- The bytes of a buffer as they are read: the identifier, the length, and that many bytes of data.
-/
def MCPFrame.contents (f : MCPFrame) : List (BitVec 8) :=
  List.ofFn f.id ++ f.length :: (List.ofFn f.payload).take f.length.toNat

/-- A frame arrives, or the guest reads a buffer. -/
inductive RxEvent where
  | frame (frame : CanFrame) (h : frame.can_dlc.toNat ≤ 8)
  | readRx (no : Fin 2)

namespace Can

/-- The bit of `status` for a buffer. -/
def full (c : Can) (i : Fin 2) : Bool := c.status.getLsbD i

/-- The instruction that reads a buffer. -/
def readRxByte : Fin 2 → BitVec 8
  | 0 => MCP_READ_RX0
  | 1 => MCP_READ_RX1

/-- The state in which a buffer is read. -/
def readRxState : Fin 2 → CanState
  | 0 => .readRX0
  | 1 => .readRX1

/-! ## What is specified -/

/-- A frame is stored in an empty buffer, or dropped if there is none. A full buffer is not changed.
-/
def StoresFrame (c : Can) (frame : CanFrame) (c' : Can) : Prop :=
  c.enqueueIncomingCanFrame frame = some c' ∧
    ((∃ i, c.full i = false ∧ c' = c.store i frame) ∨ (∀ i, c.full i = true) ∧ c' = c) ∧
    ∀ i, c.full i = true → c'.rxBuf i = c.rxBuf i

/-- A read answers with the contents of the buffer, whatever the guest sends meanwhile. The bit is
cleared with the last byte and not before. -/
def ReadsBuffer (c : Can) (no : Fin 2) (c' : Can) : Prop :=
  (∀ dummies : List (BitVec 8), dummies.length = 5 + (c.rxBuf no).length.toNat →
    c.writes (readRxByte no :: dummies) = some (0#8 :: (c.rxBuf no).contents, c')) ∧
  (∀ dummies : List (BitVec 8), dummies.length < 5 + (c.rxBuf no).length.toNat →
    ∃ rets d, c.writes (readRxByte no :: dummies) = some (rets, d) ∧ d.status = c.status) ∧
  c'.rxBuf = c.rxBuf ∧ c'.status = c.status &&& ~~~(1#8 <<< no.val)

/-- An event leads from one state of the device to another. -/
def Exact (c : Can) : RxEvent → Can → Prop
  | .frame frame _, c' => c.StoresFrame frame c'
  | .readRx no, c' => c.ReadsBuffer no c'

/-- All events of a sequence are exact. -/
def ExactAll (c : Can) : List RxEvent → Prop
  | [] => True
  | event :: events => ∃ c', c.Exact event c' ∧ c'.ExactAll events

/-- The device after an event. -/
def after (c : Can) : RxEvent → Can
  | .frame frame _ => (c.enqueueIncomingCanFrame frame).getD c
  | .readRx no => { c with status := c.status &&& ~~~(1#8 <<< no.val) }

/-- The length of a buffer that is read is one that a buffer can have. -/
def Legible (c : Can) : RxEvent → Prop
  | .frame _ _ => True
  | .readRx no => (c.rxBuf no).length.toNat ≤ 64

def LegibleAll (c : Can) : List RxEvent → Prop
  | [] => True
  | event :: events => c.Legible event ∧ (c.after event).LegibleAll events

variable {c : Can} {no : Fin 2}

/-! ## Frames that arrive -/

theorem status_and_eq_zero_iff (c : Can) (i : Fin 2) :
    c.status &&& (1#8 <<< i.val) = 0#8 ↔ c.full i = false := by
  have hbits : ∀ (i : Fin 2) (status : BitVec 8),
      status &&& (1#8 <<< i.val) = 0#8 ↔ status.getLsbD i = false := by decide
  exact hbits i c.status

theorem status_and_eq_three_iff (c : Can) :
    c.status &&& 0b11#8 = 0b11#8 ↔ ∀ i, c.full i = true := by
  have hbits : ∀ status : BitVec 8,
      status &&& 0b11#8 = 0b11#8 ↔ ∀ i : Fin 2, status.getLsbD i = true := by decide
  exact hbits c.status

theorem store_rxBuf_of_full {i : Fin 2} (h : c.full i = false) (frame : CanFrame) (k : Fin 2)
    (hk : c.full k = true) : (c.store i frame).rxBuf k = c.rxBuf k := by
  have hne : k ≠ i := by
    rintro rfl
    rw [h] at hk
    cases hk
  exact Function.update_of_ne hne _ _

/-- A frame of at most eight bytes is always stored or dropped as it should. -/
theorem storesFrame_after {frame : CanFrame} (h : frame.can_dlc.toNat ≤ 8) :
    c.StoresFrame frame (c.after (.frame frame h)) := by
  have hstore : ∀ i, c.full i = false → c.enqueueIncomingCanFrame frame = some (c.store i frame) →
      c.StoresFrame frame (c.after (.frame frame h)) := by
    intro i hi heq
    have hafter : c.after (.frame frame h) = c.store i frame := by rw [after, heq, Option.getD_some]
    rw [hafter]
    exact ⟨heq, .inl ⟨i, hi, rfl⟩, store_rxBuf_of_full hi frame⟩
  by_cases hfull : ∀ i, c.full i = true
  · have heq : c.enqueueIncomingCanFrame frame = some c := by
      rw [enqueueIncomingCanFrame, if_pos (c.status_and_eq_three_iff.mpr hfull)]
    have hafter : c.after (.frame frame h) = c := by rw [after, heq, Option.getD_some]
    rw [hafter]
    exact ⟨heq, .inr ⟨hfull, rfl⟩, fun _ _ => rfl⟩
  · have hthree : ¬ c.status &&& 0b11#8 = 0b11#8 := fun heq =>
      hfull (c.status_and_eq_three_iff.mp heq)
    cases h0 : c.full 0 with
    | false =>
      have hzero : c.status &&& (1#8 <<< 0) = 0#8 := (c.status_and_eq_zero_iff 0).mpr h0
      refine hstore 0 h0 ?_
      rw [enqueueIncomingCanFrame, if_neg hthree, if_neg (by omega), if_pos hzero]
    | true =>
      have h1 : c.full 1 = false := by
        refine Bool.eq_false_iff.mpr fun h1 => hfull fun i => ?_
        match i with
        | 0 => exact h0
        | 1 => exact h1
      have hzero : ¬ c.status &&& (1#8 <<< 0) = 0#8 := fun heq => by
        have hempty : c.full 0 = false := (c.status_and_eq_zero_iff 0).mp heq
        rw [h0] at hempty
        cases hempty
      have hone : c.status &&& (1#8 <<< 1) = 0#8 := (c.status_and_eq_zero_iff 1).mpr h1
      refine hstore 1 h1 ?_
      rw [enqueueIncomingCanFrame, if_neg hthree, if_neg (by omega), if_neg hzero, if_pos hone]

/-! ## Reading a buffer -/

theorem ofFn_raw (f : MCPFrame) :
    List.ofFn f.raw = List.ofFn f.id ++ f.length :: List.ofFn f.payload := by
  refine (List.ofFn_add (n := 4) (m := 65) (f := f.raw)).trans ?_
  exact congrArg (List.ofFn f.id ++ ·) List.ofFn_succ

/-- What is read are the first bytes of the buffer. -/
theorem contents_eq_take (f : MCPFrame) :
    f.contents = (List.ofFn f.raw).take (5 + f.length.toNat) := by
  have hlength : (List.ofFn f.id).length = 4 := List.length_ofFn
  rw [ofFn_raw, List.take_append, hlength, List.take_of_length_le (by omega),
    show 5 + f.length.toNat - 4 = f.length.toNat + 1 by omega, List.take_succ_cons]
  rfl

theorem write_readRx (no : Fin 2) (h : c.state = readRxState no) (byte : BitVec 8) :
    c.write byte = c.readRxBuf no := by
  match no with
  | 0 => rw [write, h]; rfl
  | 1 => rw [write, h]; rfl

theorem command_readRxByte (c : Can) (no : Fin 2) :
    c.command (readRxByte no) = { c with state := readRxState no } := by
  match no with
  | 0 => rfl
  | 1 => rfl

/-- A byte that is not the last one. -/
theorem readRxBuf_next {j : Nat} (hj : j < 69) (hptr : c.rxPtr = BitVec.ofNat 8 j)
    (hlt : j < (c.rxBuf no).length.toNat + 4) :
    c.readRxBuf no =
      some ((c.rxBuf no).raw ⟨j, hj⟩, { c with rxPtr := BitVec.ofNat 8 (j + 1) }) := by
  have hj' : c.rxPtr.toNat = j := by
    rw [hptr, BitVec.toNat_ofNat]
    omega
  have hnext : c.rxPtr + 1 = BitVec.ofNat 8 (j + 1) := by
    rw [hptr, BitVec.ofNat_add]
    rfl
  have hle : ¬ (BitVec.ofNat 8 (j + 1)).toNat > (c.rxBuf no).length.toNat + 4 := by
    rw [BitVec.toNat_ofNat]
    omega
  rw [readRxBuf, dif_pos (by omega)]
  simp only [hnext, hj', if_neg hle]

/-- The last byte. -/
theorem readRxBuf_last (h64 : (c.rxBuf no).length.toNat ≤ 64)
    (hptr : c.rxPtr = BitVec.ofNat 8 ((c.rxBuf no).length.toNat + 4)) :
    c.readRxBuf no = some ((c.rxBuf no).raw ⟨(c.rxBuf no).length.toNat + 4, by omega⟩,
      { c with
        rxPtr := 0#8
        state := .init
        status := c.status &&& ~~~(1#8 <<< no.val) }) := by
  have hj : c.rxPtr.toNat = (c.rxBuf no).length.toNat + 4 := by
    rw [hptr, BitVec.toNat_ofNat]
    omega
  have hgt : (c.rxPtr + 1).toNat > (c.rxBuf no).length.toNat + 4 := by
    rw [BitVec.toNat_add, hj, show (1 : BitVec 8).toNat = 1 from rfl]
    omega
  rw [readRxBuf, dif_pos (by omega)]
  simp only [if_pos hgt, hj]

/-- The bytes before the last one. -/
theorem writes_readRx (no : Fin 2) (h : c.state = readRxState no) {j : Nat}
    (hptr : c.rxPtr = BitVec.ofNat 8 j) (dummies : List (BitVec 8)) (h69 : j + dummies.length ≤ 69)
    (hle : j + dummies.length ≤ (c.rxBuf no).length.toNat + 4) :
    c.writes dummies = some (((List.ofFn (c.rxBuf no).raw).drop j).take dummies.length,
      { c with rxPtr := BitVec.ofNat 8 (j + dummies.length) }) := by
  induction dummies generalizing c j with
  | nil =>
    rw [List.length_nil, Nat.add_zero, ← hptr, List.take_zero]
    rfl
  | cons byte dummies ih =>
    rw [List.length_cons] at h69 hle
    have hj : j < 69 := by omega
    have hfirst : c.write byte = some ((c.rxBuf no).raw ⟨j, hj⟩,
        { c with rxPtr := BitVec.ofNat 8 (j + 1) }) :=
      (write_readRx no h byte).trans (readRxBuf_next hj hptr (by omega))
    have hlength : j < (List.ofFn (c.rxBuf no).raw).length := by
      rw [List.length_ofFn]
      exact hj
    rw [writes_cons hfirst, ih (c := { c with rxPtr := BitVec.ofNat 8 (j + 1) }) h rfl (by omega)
      (show j + 1 + dummies.length ≤ (c.rxBuf no).length.toNat + 4 by omega),
      List.drop_eq_getElem_cons hlength, List.length_cons, List.take_succ_cons, List.getElem_ofFn,
      Nat.add_right_comm j 1 dummies.length]
    rfl

theorem AtRest.writes_readRxByte (h : c.AtRest) (dummies : List (BitVec 8))
    (h69 : dummies.length ≤ 69) (hle : dummies.length ≤ (c.rxBuf no).length.toNat + 4) :
    c.writes (readRxByte no :: dummies) =
      some (0#8 :: (List.ofFn (c.rxBuf no).raw).take dummies.length,
        { c with state := readRxState no, rxPtr := BitVec.ofNat 8 dummies.length }) := by
  have hrun :=
    writes_readRx (c := { c with state := readRxState no }) no (j := 0) rfl h.rxPtr dummies
    (by omega) (show 0 + dummies.length ≤ (c.rxBuf no).length.toNat + 4 by omega)
  rw [writes_cons (write_init h.state _), command_readRxByte, hrun, List.drop_zero, Nat.zero_add]
  rfl

theorem AtRest.eq_after (h : c.AtRest) :
    { c with rxPtr := 0#8, state := .init, status := c.status &&& ~~~(1#8 <<< no.val) } =
      c.after (.readRx no) := by
  rw [after, ← h.state, ← h.rxPtr]

/-- A read with as many bytes as the buffer has. -/
theorem AtRest.writes_readRxByte_all (h : c.AtRest) (h64 : (c.rxBuf no).length.toNat ≤ 64)
    (dummies : List (BitVec 8)) (hlength : dummies.length = 5 + (c.rxBuf no).length.toNat) :
    c.writes (readRxByte no :: dummies) =
      some (0#8 :: (c.rxBuf no).contents, c.after (.readRx no)) := by
  obtain ⟨front, last, rfl⟩ : ∃ front last, dummies = front ++ [last] :=
    ⟨_, _, (List.dropLast_concat_getLast (List.ne_nil_of_length_pos (by omega))).symm⟩
  rw [List.length_append, List.length_singleton] at hlength
  have hfront : front.length = (c.rxBuf no).length.toNat + 4 := by omega
  have hlast : Can.write { c with
        state := readRxState no, rxPtr := BitVec.ofNat 8 front.length } last =
      some ((c.rxBuf no).raw ⟨(c.rxBuf no).length.toNat + 4, by omega⟩, c.after (.readRx no)) := by
    rw [write_readRx no rfl, hfront, ← h.eq_after]
    exact readRxBuf_last
      (c := { c with
        state := readRxState no
        rxPtr := BitVec.ofNat 8 ((c.rxBuf no).length.toNat + 4) })
      h64 rfl
  have hget : front.length < (List.ofFn (c.rxBuf no).raw).length := by
    rw [List.length_ofFn]
    omega
  rw [← List.cons_append, writes_append (h.writes_readRxByte front (by omega) (by omega)),
    writes_cons hlast, contents_eq_take,
    show 5 + (c.rxBuf no).length.toNat =
      front.length + 1 by omega, List.take_succ_eq_append_getElem hget, List.getElem_ofFn]
  simp only [hfront]
  rfl

theorem AtRest.readsBuffer_after (h : c.AtRest) (h64 : (c.rxBuf no).length.toNat ≤ 64) :
    c.ReadsBuffer no (c.after (.readRx no)) := by
  refine ⟨h.writes_readRxByte_all h64, fun dummies hlt => ?_, rfl, rfl⟩
  exact ⟨_, _, h.writes_readRxByte dummies (by omega) (by omega), rfl⟩

variable {c' : Can} {event : RxEvent}

theorem length_of_writes {bytes rets : List (BitVec 8)}
    (h : c.writes bytes = some (rets, c')) : rets.length = bytes.length := by
  induction bytes generalizing c rets with
  | nil =>
    cases h
    rfl
  | cons byte bytes ih =>
    cases hw : c.write byte with
    | none => simp [writes, hw] at h
    | some r =>
      obtain ⟨ret, d⟩ := r
      rw [writes_cons hw, Option.map_eq_some_iff] at h
      obtain ⟨⟨rest, e⟩, hrest, heq⟩ := h
      cases heq
      rw [List.length_cons, List.length_cons, ih hrest]

/-- A buffer that is longer than it can be does not have as many bytes as are read. -/
theorem ReadsBuffer.length_le (h : c.ReadsBuffer no c') :
    (c.rxBuf no).length.toNat ≤ 64 := by
  have hlength := length_of_writes (h.1 (List.replicate (5 + (c.rxBuf no).length.toNat) 0#8)
    List.length_replicate)
  rw [contents_eq_take, List.length_cons, List.length_cons, List.length_take, List.length_ofFn,
    List.length_replicate] at hlength
  omega

/-! ## Sequences of events -/

theorem AtRest.after (h : c.AtRest) (event : RxEvent) : (c.after event).AtRest := by
  cases event with
  | frame frame hdlc =>
    obtain ⟨-, ⟨i, -, heq⟩ | ⟨-, heq⟩, -⟩ := storesFrame_after (c := c) hdlc
    · rw [heq]
      exact ⟨h.state, h.readSelected, h.writeSelected, h.modReg, h.loadTX, h.rxPtr⟩
    · rw [heq]
      exact h
  | readRx no => exact ⟨h.state, h.readSelected, h.writeSelected, h.modReg, h.loadTX, h.rxPtr⟩

theorem AtRest.exact_after (h : c.AtRest) (hlegible : c.Legible event) :
    c.Exact event (c.after event) := by
  cases event with
  | frame frame hdlc => exact storesFrame_after hdlc
  | readRx no => exact h.readsBuffer_after hlegible

theorem Exact.legible (h : c.Exact event c') : c.Legible event := by
  cases event with
  | frame frame hdlc => trivial
  | readRx no => exact ReadsBuffer.length_le h

theorem AtRest.eq_after_of_exact (h : c.AtRest)
    (hexact : c.Exact event c') : c' = c.after event := by
  cases event with
  | frame frame hdlc => exact Option.some.inj (hexact.1.symm.trans (storesFrame_after hdlc).1)
  | readRx no =>
    have h64 := ReadsBuffer.length_le hexact
    have heq := (hexact.1 (List.replicate (5 + (c.rxBuf no).length.toNat) 0#8)
      List.length_replicate).symm.trans (h.writes_readRxByte_all h64 _ List.length_replicate)
    exact congrArg Prod.snd (Option.some.inj heq)

/-- Frames and reads are exact as long as no buffer is read whose length is above 64. -/
theorem exactAll_iff (h : c.AtRest) (events : List RxEvent) :
    c.ExactAll events ↔ c.LegibleAll events := by
  induction events generalizing c with
  | nil => exact Iff.rfl
  | cons event events ih =>
    constructor
    · rintro ⟨c', hexact, hrest⟩
      obtain rfl := h.eq_after_of_exact hexact
      exact ⟨hexact.legible, (ih (h.after event)).mp hrest⟩
    · rintro ⟨hlegible, hrest⟩
      exact ⟨_, h.exact_after hlegible, (ih (h.after event)).mpr hrest⟩

/-- A frame that is stored leaves a length that can be read. -/
theorem length_after_le (h : ∀ i, (c.rxBuf i).length.toNat ≤ 64) (event : RxEvent) (i : Fin 2) :
    ((c.after event).rxBuf i).length.toNat ≤ 64 := by
  cases event with
  | readRx no => exact h i
  | frame frame hdlc =>
    obtain ⟨-, ⟨k, -, heq⟩ | ⟨-, heq⟩, -⟩ := storesFrame_after (c := c) hdlc
    · rw [heq]
      by_cases hik : i = k
      · have hbuf : (c.store k frame).rxBuf i = bufferOf frame := by
          rw [hik]
          exact Function.update_self _ _ _
        rw [hbuf]
        exact hdlc.trans (by decide)
      · have hbuf : (c.store k frame).rxBuf i = c.rxBuf i := Function.update_of_ne hik _ _
        rw [hbuf]
        exact h i
    · rw [heq]
      exact h i

/-- So nothing goes wrong once the lengths are right. -/
theorem legibleAll_of_length_le (h : ∀ i, (c.rxBuf i).length.toNat ≤ 64) (events : List RxEvent) :
    c.LegibleAll events := by
  induction events generalizing c with
  | nil => trivial
  | cons event events ih =>
    refine ⟨?_, ih (length_after_le h event)⟩
    cases event with
    | frame frame hdlc => trivial
    | readRx no => exact h no

/-- A frame with two bytes of data. -/
def twoBytes : CanFrame where
  can_id := 0x123#32
  can_dlc := 2#8
  data := fun i => if i.val = 0 then 0xAB#8 else if i.val = 1 then 0xCD#8 else 0#8

/-- Three frames arrive, of which the last one is dropped, and the second one is read. -/
theorem exactAll_dropped : zeroed.AtRest ∧
    zeroed.ExactAll [.frame twoBytes (by decide), .frame twoBytes (by decide),
      .frame twoBytes (by decide), .readRx 1, .readRx 0] :=
  ⟨zeroed_atRest, (exactAll_iff zeroed_atRest _).mpr (legibleAll_of_length_le (by decide) _)⟩

/-- A device whose buffers were full of ones before. -/
def filled : Can := { zeroed with rxBuf := fun _ => ⟨fun _ => 0xFF#8⟩ }

/-- A buffer is read before any frame has arrived: the read goes on beyond the end of the buffer. -/
theorem filled_not_exactAll :
    filled.AtRest ∧ filled.status = 0#8 ∧ ¬ filled.ExactAll [.readRx 0] ∧
    filled.writes (MCP_READ_RX0 :: List.replicate 70 0#8) = none := by
  refine ⟨⟨rfl, rfl, rfl, rfl, rfl, rfl⟩, rfl, ?_,
    Option.isNone_iff_eq_none.mp (by decide +kernel)⟩
  rintro ⟨c', hexact, -⟩
  have h64 : (0xFF#8).toNat ≤ 64 := ReadsBuffer.length_le hexact
  exact absurd h64 (by decide)

end Can

end SpsVp.Platform
