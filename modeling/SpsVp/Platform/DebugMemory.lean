import Mathlib.Data.List.GetD
import SpsVp.Platform.Elf

/-!
# Memory accesses of the debugger

`DebugMemoryInterface` of `core/common/debug_memory.cpp`. The debugger sends and gets the bytes of a
memory as a text with two hexadecimal digits for each byte. `write_memory` decodes the text to a
buffer, and the loop that does so goes through the digits but stops at the number of bytes: the
second half of the buffer keeps its zeros. `roundTrips_iff` says which texts are read back
nevertheless.
-/

namespace SpsVp.Platform

open Clover Lib SymbolicMemory

/-! ## Debug transactions -/

/-- `SimpleMemory::transport_dbg`, which has no result when an assertion fails. -/
def SimpleMemory.transportDbg (m : SimpleMemory) (payload : Payload) :
    Option (Payload × SimpleMemory) :=
  let addr : BitVec 32 := payload.address.setWidth 32
  if ¬ addr < m.size then none
  else if ¬ addr + BitVec.ofNat 32 payload.length ≤ m.size then none
  -- The sum above can wrap around, and then `memcpy` leaves the array.
  else if ¬ addr.toNat + payload.length ≤ m.size.toNat then none
  else
    match payload.command with
    | .read =>
      some ({ payload with
        data := List.ofFn fun off : Fin payload.length => m.data (addr.toNat + off) }, m)
    | .write =>
      some (payload, { m with
        data := ByteMemory.write m.data (List.ofFn fun off : Fin payload.length =>
          (addr.toNat + off, payload.data.getD off 0#8)) })

namespace LoadMemory

/-- `transport_dbg`. `SymbolicMemory` makes a null pointer of no bytes, and uses it. -/
def transportDbg : LoadMemory → Payload → Option (Payload × LoadMemory)
  | .simple m, payload =>
    (m.transportDbg payload).map fun result => (result.1, .simple result.2)
  | .symbolic m, payload =>
    if payload.Fits m.size ∧ payload.length = 0 then none
    else some ((m.transport payload).1, .symbolic (m.transport payload).2)

/-- What is stored at an address. -/
def byteAt : LoadMemory → BitVec 32 → ConcolicValue 8
  | .simple m, addr => ⟨m.data addr.toNat, none⟩
  | .symbolic m, addr => m.memory.byteAt addr

/-- The address of a byte of a range. -/
def addressAt (start : BitVec 64) (off : Nat) : BitVec 32 :=
  start.setWidth 32 + BitVec.ofNat 32 off

/-- A range of addresses is one of a memory. -/
structure Inside (memory : LoadMemory) (start : BitVec 64) (n : Nat) : Prop where
  start_lt : start.toNat < memory.size
  end_le : start.toNat + n ≤ memory.size

/-- A memory has transactions of a length. -/
def Transacts : LoadMemory → Nat → Prop
  | .simple _, _ => True
  | .symbolic _, n => n ≠ 0

instance : (memory : LoadMemory) → (n : Nat) → Decidable (memory.Transacts n)
  | .simple _, _ => .isTrue trivial
  | .symbolic _, n => inferInstanceAs (Decidable (n ≠ 0))

/-! ## The interface -/

/-- The payload of `_do_dbg_transaction`. -/
def dbgPayload (cmd : Command) (addr : BitVec 64) (data : List (BitVec 8)) : Payload where
  command := cmd
  address := addr
  data := data
  length := data.length

/-- `_do_dbg_transaction`, with the bytes that are behind the data pointer afterwards. The length
that it returns is the one of the buffer. -/
def doDbgTransaction (memory : LoadMemory) (cmd : Command) (addr : BitVec 64)
    (data : List (BitVec 8)) : Option (List (BitVec 8) × LoadMemory) :=
  match memory.transportDbg (dbgPayload cmd addr data) with
  | none => none
  | some (reply, memory) => if reply.isResponseError then none else some (reply.data, memory)

/-- Two digits, the first one zero for a small byte. -/
def hexByte (byte : BitVec 8) : List Char :=
  [Nat.digitChar (byte.toNat / 16), Nat.digitChar (byte.toNat % 16)]

def readMemory (memory : LoadMemory) (start : BitVec 64) (nbytes : BitVec 32) :
    Option (List Char × LoadMemory) :=
  match memory.doDbgTransaction .read start (List.replicate nbytes.toNat 0#8) with
  | none => none
  | some (buf, memory) => some (buf.flatMap hexByte, memory)

/-- The value of a digit with base 16. -/
def hexValue (c : Char) : Option Nat :=
  if '0' ≤ c ∧ c ≤ '9' then some (c.toNat - '0'.toNat)
  else if 'a' ≤ c ∧ c ≤ 'f' then some (c.toNat - 'a'.toNat + 10)
  else if 'A' ≤ c ∧ c ≤ 'F' then some (c.toNat - 'A'.toNat + 10)
  else none

/-- `isspace`. -/
def isSpace (c : Char) : Bool := c = ' ' ∨ '\t' ≤ c ∧ c ≤ '\r'

/-- `strtol` with base 16, for two characters: a blank or a sign may come first, and the first
character that is no digit ends the number. -/
def strtol (c c' : Char) : Int :=
  match hexValue c, hexValue c' with
  | some d, some d' => 16 * d + d'
  | some d, none => d
  | none, some d' => if isSpace c ∨ c = '+' then d' else if c = '-' then -d' else 0
  | none, none => 0

/-- The body of the loop of `write_memory`, where `i` is `2 * j`. -/
def decodeByte (data : List Char) (buf : List (BitVec 8)) (j : Nat) : Option (List (BitVec 8)) :=
  let num := strtol (data.getD (2 * j) '0') (data.getD (2 * j + 1) '0')
  if 0 ≤ num ∧ num ≤ 255 then some (buf.set j (BitVec.ofInt 8 num)) else none

/-- `write_memory`. The loop goes on as long as `i + 1 < nbytes`. -/
def writeMemory (memory : LoadMemory) (start : BitVec 64) (nbytes : BitVec 32)
    (data : List Char) : Option LoadMemory :=
  if data.length % 2 ≠ 0 then none
  else if data.length / 2 ≠ nbytes.toNat then none
  else
    match (List.range (nbytes.toNat / 2)).foldlM (decodeByte data)
      (List.replicate (data.length / 2) 0#8) with
    | none => none
    | some buf => (memory.doDbgTransaction .write start buf).map Prod.snd

/-! ## Transactions inside a memory -/

/-- What a transaction that writes does to a memory. -/
structure Stores (memory : LoadMemory) (start : BitVec 64) (data : List (BitVec 8))
    (written : LoadMemory) : Prop where
  inside : written.Inside start data.length
  transacts : written.Transacts data.length
  /-- The bytes of the range are the ones of the buffer. -/
  inner : ∀ off (h : off < data.length), (written.byteAt (addressAt start off)).concrete = data[off]
  /-- Every other byte is left alone. -/
  outer : ∀ addr, (∀ off < data.length, addr ≠ addressAt start off) →
    written.byteAt addr = memory.byteAt addr

section Simple

variable {m : SimpleMemory} {start : BitVec 64} {n : Nat}

theorem Inside.toNat_setWidth (h : (LoadMemory.simple m).Inside start n) :
    (start.setWidth 32).toNat = start.toNat := by
  have hstart : start.toNat < m.size.toNat := h.start_lt
  rw [BitVec.toNat_setWidth, Nat.mod_eq_of_lt (by omega)]

theorem Inside.toNat_addressAt (h : (LoadMemory.simple m).Inside start n) {off : Nat}
    (hoff : off < n) : (addressAt start off).toNat = start.toNat + off := by
  have hend : start.toNat + n ≤ m.size.toNat := h.end_le
  rw [addressAt, BitVec.toNat_add, h.toNat_setWidth, BitVec.toNat_ofNat]
  omega

/-- No assertion fails for a range of the memory. -/
theorem Inside.transportDbg_simple (payload : Payload)
    (h : (LoadMemory.simple m).Inside payload.address payload.length) :
    m.transportDbg payload =
      match payload.command with
      | .read =>
        some ({ payload with
          data := List.ofFn fun off : Fin payload.length =>
            m.data (payload.address.toNat + off) }, m)
      | .write =>
        some (payload, { m with
          data := ByteMemory.write m.data (List.ofFn fun off : Fin payload.length =>
            (payload.address.toNat + off, payload.data.getD off 0#8)) }) := by
  have hstart : payload.address.toNat < m.size.toNat := h.start_lt
  have hend : payload.address.toNat + payload.length ≤ m.size.toNat := h.end_le
  have haddr := h.toNat_setWidth
  have hlt : payload.address.setWidth 32 < m.size := by
    rw [BitVec.lt_def, haddr]
    exact hstart
  have hle : payload.address.setWidth 32 + BitVec.ofNat 32 payload.length ≤ m.size := by
    rw [BitVec.le_def, BitVec.toNat_add, haddr, BitVec.toNat_ofNat]
    omega
  unfold SimpleMemory.transportDbg
  simp only [haddr]
  rw [if_neg (not_not.mpr hlt), if_neg (not_not.mpr hle), if_neg (not_not.mpr hend)]

end Simple

section Symbolic

variable {m : SymbolicMemory} (payload : Payload)

theorem Inside.fits (h : (LoadMemory.symbolic m).Inside payload.address payload.length) :
    payload.Fits m.size := by
  have hend : payload.address.toNat + payload.length ≤ m.size := h.end_le
  refine Nat.le_trans ?_ hend
  rw [BitVec.toNat_add, BitVec.toNat_ofNat]
  exact (Nat.mod_le _ _).trans (Nat.add_le_add_left (Nat.mod_le _ _) _)

theorem transportDbg_symbolic (h : payload.length ≠ 0) :
    (LoadMemory.symbolic m).transportDbg payload =
      some ((m.transport payload).1, .symbolic (m.transport payload).2) :=
  if_neg fun hzero => h hzero.2

end Symbolic

variable {memory : LoadMemory} {start : BitVec 64} {data : List (BitVec 8)}

/-- A transaction that reads a range of a memory. -/
theorem Inside.doDbgTransaction_read (h : memory.Inside start data.length)
    (hlength : memory.Transacts data.length) :
    memory.doDbgTransaction .read start data =
      some (List.ofFn fun off : Fin data.length =>
        (memory.byteAt (addressAt start off)).concrete, memory) := by
  cases memory with
  | simple m =>
    have htransport := Inside.transportDbg_simple (dbgPayload .read start data) h
    simp only [doDbgTransaction, transportDbg, htransport]
    refine congrArg (fun bytes => some (bytes, _)) (congrArg List.ofFn (funext fun off => ?_))
    rw [byteAt, h.toNat_addressAt off.isLt]
    rfl
  | symbolic m =>
    have hfits := Inside.fits (dbgPayload .read start data) h
    rw [doDbgTransaction, transportDbg_symbolic (dbgPayload .read start data) hlength,
      transport_of_read hfits rfl]
    exact congrArg (fun bytes => some (bytes, _)) (data_readData m _)

/-- The buffer of a transaction that reads what another one has written. -/
theorem Stores.doDbgTransaction_read {written : LoadMemory} {buf : List (BitVec 8)}
    (h : memory.Stores start data written) (hlength : buf.length = data.length) :
    written.doDbgTransaction .read start buf = some (data, written) := by
  have hinside : written.Inside start buf.length := hlength ▸ h.inside
  rw [hinside.doDbgTransaction_read (hlength ▸ h.transacts)]
  refine congrArg (fun bytes => some (bytes, written))
    (List.ext_getElem ?_ fun off hoff hoff' => ?_)
  · rw [List.length_ofFn, hlength]
  · rw [List.getElem_ofFn]
    exact h.inner off hoff'

/-- A transaction that writes a range of a memory. -/
theorem Inside.doDbgTransaction_write (h : memory.Inside start data.length)
    (hlength : memory.Transacts data.length) (hbound : data.length < 2 ^ 32) :
    ∃ written, memory.doDbgTransaction .write start data = some (data, written) ∧
      memory.Stores start data written := by
  cases memory with
  | simple m =>
    have htransport := Inside.transportDbg_simple (dbgPayload .write start data) h
    simp only [doDbgTransaction, transportDbg, htransport]
    refine ⟨_, rfl, ⟨h.1, h.2⟩, hlength, fun off hoff => ?_, fun addr haddr => ?_⟩
    · rw [byteAt, h.toNat_addressAt hoff]
      refine (ByteMemory.write_of_mem (List.mem_ofFn.mpr ⟨⟨off, hoff⟩, rfl⟩)
        fun other hother heq => ?_).trans (List.getD_eq_getElem _ _ hoff)
      obtain ⟨off', rfl⟩ := List.mem_ofFn.mp hother
      exact congrArg (fun off => data.getD off 0#8) (Nat.add_left_cancel heq)
    · refine congrArg (fun byte => (⟨byte, none⟩ : ConcolicValue 8))
        (ByteMemory.write_of_notMem fun hmem => ?_)
      obtain ⟨entry, hentry, heq⟩ := List.mem_map.mp hmem
      obtain ⟨off, rfl⟩ := List.mem_ofFn.mp hentry
      refine haddr off off.isLt (BitVec.eq_of_toNat_eq ?_)
      rw [h.toNat_addressAt off.isLt]
      exact heq.symm
  | symbolic m =>
    have hfits := Inside.fits (dbgPayload .write start data) h
    have hwrite := transport_of_write hfits rfl
    refine ⟨.symbolic (m.writeData (dbgPayload .write start data)), ?_, ⟨h.1, h.2⟩, hlength,
      fun off hoff => ?_, fun addr haddr => ?_⟩
    · rw [doDbgTransaction, transportDbg_symbolic (dbgPayload .write start data) hlength, hwrite]
      rfl
    · have hbyte : (m.writeData (dbgPayload .write start data)).flat none
          (addressAt start off) = data.getD off 0#8 :=
        flat_writeData_addressOf none m hbound.le hoff
      exact hbyte.trans (List.getD_eq_getElem _ _ hoff)
    · have hdata : (m.transport (dbgPayload .write start data)).2.memory.data addr =
          m.memory.data addr := data_transport_of_ne m haddr
      rw [hwrite] at hdata
      exact congrArg (fun byte : Option (ConcolicValue 8) => byte.getD ⟨0#8, none⟩) hdata

/-! ## Digits -/

/-- The digits of the texts that are exchanged. -/
def lowerHex : List Char :=
  ['0', '1', '2', '3', '4', '5', '6', '7', '8', '9', 'a', 'b', 'c', 'd', 'e', 'f']

theorem exists_of_mem_lowerHex {c : Char} (h : c ∈ lowerHex) : ∃ d < 16, Nat.digitChar d = c := by
  have hdigits : lowerHex = (List.range 16).map Nat.digitChar := rfl
  rw [hdigits, List.mem_map] at h
  obtain ⟨d, hd, hc⟩ := h
  exact ⟨d, List.mem_range.mp hd, hc⟩

theorem hexValue_digitChar : ∀ d < 16, hexValue (Nat.digitChar d) = some d := by decide

theorem hexByte_strtol {c c' : Char} (h : c ∈ lowerHex) (h' : c' ∈ lowerHex) :
    (0 ≤ strtol c c' ∧ strtol c c' ≤ 255) ∧ hexByte (BitVec.ofInt 8 (strtol c c')) = [c, c'] := by
  obtain ⟨d, hd, rfl⟩ := exists_of_mem_lowerHex h
  obtain ⟨d', hd', rfl⟩ := exists_of_mem_lowerHex h'
  have hnum : strtol (Nat.digitChar d) (Nat.digitChar d') = ((16 * d + d' : Nat) : Int) := by
    rw [strtol, hexValue_digitChar d hd, hexValue_digitChar d' hd']
    rfl
  have hbyte : (BitVec.ofInt 8 ((16 * d + d' : Nat) : Int)).toNat = 16 * d + d' := by
    rw [BitVec.ofInt_natCast, BitVec.toNat_ofNat]
    omega
  rw [hnum, hexByte, hbyte, show (16 * d + d') / 16 = d by omega,
    show (16 * d + d') % 16 = d' by omega]
  exact ⟨by omega, rfl⟩

section Texts

variable {text : List Char} {n : Nat}

/-- After some turns of the loop of `write_memory`, the buffer has the bytes of as many pairs of
digits at its beginning. -/
theorem foldlM_decodeByte (hdigits : ∀ c ∈ text, c ∈ lowerHex) (hlength : text.length = 2 * n)
    {k : Nat} (hk : k ≤ n) :
    ∃ bytes : List (BitVec 8), bytes.length = k ∧ bytes.flatMap hexByte = text.take (2 * k) ∧
      (List.range k).foldlM (decodeByte text) (List.replicate n 0#8) =
        some (bytes ++ List.replicate (n - k) 0#8) := by
  induction k with
  | zero => exact ⟨[], rfl, rfl, rfl⟩
  | succ k ih =>
    obtain ⟨bytes, hbytes, htext, hloop⟩ := ih (by omega)
    have hfst : 2 * k < text.length := by omega
    have hsnd : 2 * k + 1 < text.length := by omega
    obtain ⟨hnum, hbyte⟩ := hexByte_strtol (hdigits _ (List.getElem_mem hfst))
      (hdigits _ (List.getElem_mem hsnd))
    have hset : ∀ byte, (bytes ++ List.replicate (n - k) 0#8).set k byte =
        bytes ++ [byte] ++ List.replicate (n - (k + 1)) 0#8 := by
      intro byte
      rw [show n - k = n - (k + 1) + 1 by omega, List.replicate_succ,
        List.set_append_right _ _ hbytes.le, hbytes, Nat.sub_self, List.set_cons_zero,
        List.append_assoc]
      rfl
    refine ⟨bytes ++ [BitVec.ofInt 8 (strtol text[2 * k] text[2 * k + 1])], ?_, ?_, ?_⟩
    · rw [List.length_append, hbytes, List.length_singleton]
    · rw [List.flatMap_append, htext, List.flatMap_singleton, hbyte,
        show 2 * (k + 1) = 2 * k + 1 + 1 by omega, List.take_succ_eq_append_getElem hsnd,
        List.take_succ_eq_append_getElem hfst, List.append_assoc]
      rfl
    · rw [List.range_succ, List.foldlM_append, hloop]
      simp only [Option.bind_eq_bind, Option.bind_some, List.foldlM_cons, List.foldlM_nil]
      rw [decodeByte, List.getD_eq_getElem _ _ hfst, List.getD_eq_getElem _ _ hsnd, if_pos hnum,
        hset]
      rfl

theorem flatMap_hexByte_replicate (k : Nat) :
    (List.replicate k 0#8).flatMap hexByte = List.replicate (2 * k) '0' := by
  induction k with
  | zero => rfl
  | succ k ih =>
    rw [List.replicate_succ, List.flatMap_cons, ih, Nat.mul_succ, Nat.add_comm,
      List.replicate_add]
    rfl

end Texts

/-! ## Reading back what was written -/

/-- A text that is written to a range of a memory is read back from it, and the rest of the memory
is what it was. -/
def RoundTrips (memory : LoadMemory) (start : BitVec 64) (nbytes : BitVec 32) (text : List Char) :
    Prop :=
  ∃ written, memory.writeMemory start nbytes text = some written ∧
    written.readMemory start nbytes = some (text, written) ∧
    ∀ addr, (∀ off < nbytes.toNat, addr ≠ addressAt start off) →
      written.byteAt addr = memory.byteAt addr

section

variable {nbytes : BitVec 32} {text : List Char}

/-- The text that is read back: the bytes of the second half are zeros. -/
theorem Inside.readMemory_writeMemory (hinside : memory.Inside start nbytes.toNat)
    (htransacts : memory.Transacts nbytes.toNat) (hdigits : ∀ c ∈ text, c ∈ lowerHex)
    (hlength : text.length = 2 * nbytes.toNat) :
    ∃ written, memory.writeMemory start nbytes text = some written ∧
      written.readMemory start nbytes =
        some (text.take (2 * (nbytes.toNat / 2)) ++
          List.replicate (2 * (nbytes.toNat - nbytes.toNat / 2)) '0', written) ∧
      ∀ addr, (∀ off < nbytes.toNat, addr ≠ addressAt start off) →
        written.byteAt addr = memory.byteAt addr := by
  obtain ⟨bytes, hbytes, htext, hloop⟩ :=
    foldlM_decodeByte hdigits hlength (Nat.div_le_self nbytes.toNat 2)
  have hdata : (bytes ++ List.replicate (nbytes.toNat - nbytes.toNat / 2) 0#8).length =
      nbytes.toNat := by
    rw [List.length_append, hbytes, List.length_replicate]
    omega
  rw [← hdata] at hinside htransacts
  obtain ⟨written, hwrite, hstores⟩ :=
    hinside.doDbgTransaction_write htransacts (hdata.trans_lt nbytes.isLt)
  refine ⟨written, ?_, ?_, hdata ▸ hstores.outer⟩
  · rw [writeMemory, if_neg (by omega), if_neg (by omega),
      show text.length / 2 = nbytes.toNat by omega, hloop]
    simp only [hwrite, Option.map_some]
  · rw [readMemory, hstores.doDbgTransaction_read (List.length_replicate.trans hdata.symm)]
    simp only [List.flatMap_append, htext, flatMap_hexByte_replicate]

/-- Nothing is written when there are no bytes and the memory is symbolic. -/
theorem writeMemory_of_not_transacts (hinside : memory.Inside start nbytes.toNat)
    (h : ¬ memory.Transacts nbytes.toNat) (hlength : text.length = 2 * nbytes.toNat) :
    memory.writeMemory start nbytes text = none := by
  cases memory with
  | simple m => exact absurd trivial h
  | symbolic m =>
    have hzero : nbytes.toNat = 0 := not_not.mp h
    rw [hzero] at hinside
    have hfits : (dbgPayload .write start []).Fits m.size := Inside.fits _ hinside
    rw [writeMemory, if_neg (by omega), if_neg (by omega), hlength, hzero]
    change ((LoadMemory.symbolic m).doDbgTransaction .write start []).map Prod.snd = none
    rw [doDbgTransaction, transportDbg, if_pos ⟨hfits, rfl⟩]
    rfl

/-- Exactly the texts are read back that describe zeros for the second half of the bytes. -/
theorem roundTrips_iff (hinside : memory.Inside start nbytes.toNat)
    (hdigits : ∀ c ∈ text, c ∈ lowerHex) (hlength : text.length = 2 * nbytes.toNat) :
    memory.RoundTrips start nbytes text ↔
      memory.Transacts nbytes.toNat ∧ ∀ c ∈ text.drop (2 * (nbytes.toNat / 2)), c = '0' := by
  by_cases htransacts : memory.Transacts nbytes.toNat
  · obtain ⟨written, hwrite, hread, houter⟩ :=
      hinside.readMemory_writeMemory htransacts hdigits hlength
    have hzeros : (∀ c ∈ text.drop (2 * (nbytes.toNat / 2)), c = '0') ↔
        text.drop (2 * (nbytes.toNat / 2)) =
          List.replicate (2 * (nbytes.toNat - nbytes.toNat / 2)) '0' := by
      rw [List.eq_replicate_iff, List.length_drop, and_iff_right (by omega)]
    rw [hzeros, and_iff_right htransacts]
    constructor
    · rintro ⟨written', hwrite', hread', -⟩
      obtain rfl := Option.some.inj (hwrite'.symm.trans hwrite)
      have htext := congrArg Prod.fst (Option.some.inj (hread'.symm.trans hread))
      exact List.append_cancel_left ((List.take_append_drop _ text).trans htext)
    · intro hdrop
      rw [← hdrop, List.take_append_drop] at hread
      exact ⟨written, hwrite, hread, houter⟩
  · refine iff_of_false ?_ fun h => htransacts h.1
    rintro ⟨written, hwrite, -⟩
    rw [writeMemory_of_not_transacts hinside htransacts hlength] at hwrite
    exact nomatch hwrite

end

/-- A memory of sixteen bytes that were never written. -/
def blank : LoadMemory := .symbolic { size := 16, memory := ⟨fun _ => none⟩ }

/-- Two bytes, of which the second one is zero. -/
theorem roundTrips_ab00 : blank.RoundTrips 4#64 2#32 ['a', 'b', '0', '0'] :=
  (roundTrips_iff ⟨by decide, by decide⟩ (by simp [lowerHex]) rfl).mpr
    ⟨by decide, by simp⟩

/-- The text `deadbeef`. -/
def deadbeef : List Char := ['d', 'e', 'a', 'd', 'b', 'e', 'e', 'f']

/-- Of the four bytes `deadbeef` the debugger gets `dead0000` back. -/
theorem deadbeef_not_roundTrips :
    blank.Inside 4#64 4 ∧
    (∃ written, blank.writeMemory 4#64 4#32 deadbeef = some written ∧
      written.readMemory 4#64 4#32 = some (['d', 'e', 'a', 'd', '0', '0', '0', '0'], written)) ∧
    ¬ blank.RoundTrips 4#64 4#32 deadbeef := by
  have hinside : blank.Inside 4#64 (4#32).toNat := ⟨by decide, by decide⟩
  have hdigits : ∀ c ∈ deadbeef, c ∈ lowerHex := by simp [deadbeef, lowerHex]
  obtain ⟨written, hwrite, hread, -⟩ := hinside.readMemory_writeMemory (by decide) hdigits rfl
  refine ⟨hinside, ⟨written, hwrite, hread⟩, ?_⟩
  rintro ⟨written', hwrite', hread', -⟩
  obtain rfl := Option.some.inj (hwrite'.symm.trans hwrite)
  have htext : deadbeef = ['d', 'e', 'a', 'd', '0', '0', '0', '0'] :=
    congrArg Prod.fst (Option.some.inj (hread'.symm.trans hread))
  exact absurd htext (by decide)

end LoadMemory
end SpsVp.Platform
