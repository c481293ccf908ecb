import Mathlib.Data.List.Basic
import SpsVp.Lib.Effect

/-!
# Packets over a serial line

`SLIP` of `platform/common/slip.cpp` connects the UART of the guest to a network device. Packets for
the guest are escaped (`handle_input`); the bytes that the guest sends are collected in a buffer,
unescaped, and handed to the device as a packet at every `END` (`write_data`). `SymbolicUART`
decodes what the guest sends in the same way and hands the packets to the protocol server.

Neither decoder remembers that it has seen an `ESC`: it looks at the last byte of its buffer. So an
`ESC` that belongs to the packet is taken for the start of an escape sequence when the next byte of
the packet happens to be one of the two that may follow an `ESC`. `slip_lossless_iff` says that this
is the only way in which a packet is lost. The host is taken to have memory for the buffer.
-/

namespace SpsVp.Platform

open Lib Effect

abbrev SLIP_SNDBUF_STEP : Nat := 1500

abbrev SLIP_END : BitVec 8 := 0o300#8
abbrev SLIP_ESC : BitVec 8 := 0o333#8
abbrev SLIP_ESC_END : BitVec 8 := 0o334#8
abbrev SLIP_ESC_ESC : BitVec 8 := 0o335#8

abbrev Packet := List (BitVec 8)

/-! ## The buffer -/

/-- `sndbuf`, allocated for `capacity` bytes, with `sndsiz` bytes in it. -/
structure SendBuffer where
  bytes : Packet := []
  capacity : Nat := SLIP_SNDBUF_STEP
  allocated : 0 < capacity := by decide
  fits : bytes.length ≤ capacity := by decide
  steps : SLIP_SNDBUF_STEP ∣ capacity := by decide
deriving DecidableEq

namespace SendBuffer

/-- Room for one more byte. -/
def grow (b : SendBuffer) : Nat :=
  if b.bytes.length ≠ 0 ∧ b.bytes.length % SLIP_SNDBUF_STEP = 0 then
    b.bytes.length + SLIP_SNDBUF_STEP
  else b.capacity

/-- The byte that is appended is one of the allocated ones. -/
theorem length_lt_grow (b : SendBuffer) : b.bytes.length < b.grow := by
  obtain ⟨bytes, capacity, allocated, fits, steps⟩ := b
  unfold grow
  split_ifs with h
  · exact Nat.lt_add_of_pos_right (by decide)
  · refine Nat.lt_of_le_of_ne fits fun heq => h ⟨?_, ?_⟩
    · exact heq ▸ Nat.pos_iff_ne_zero.mp allocated
    · exact heq ▸ Nat.mod_eq_zero_of_dvd steps

theorem step_dvd_grow (b : SendBuffer) : SLIP_SNDBUF_STEP ∣ b.grow := by
  unfold grow
  split_ifs with h
  · exact Nat.dvd_add (Nat.dvd_of_mod_eq_zero h.2) (Nat.dvd_refl _)
  · exact b.steps

/-- `sndbuf[sndsiz++] = data`, with the reallocation before it. -/
def push (b : SendBuffer) (data : BitVec 8) : SendBuffer where
  bytes := b.bytes ++ [data]
  capacity := b.grow
  allocated := Nat.zero_lt_of_lt b.length_lt_grow
  fits := by
    rw [List.length_append]
    exact b.length_lt_grow
  steps := b.step_dvd_grow

/-- `sndbuf[sndsiz - 1] = data`. -/
def replaceLast (b : SendBuffer) (data : BitVec 8) (h : b.bytes ≠ []) : SendBuffer where
  bytes := b.bytes.dropLast ++ [data]
  capacity := b.capacity
  allocated := b.allocated
  fits := by
    have hlength := List.length_pos_of_ne_nil h
    have := b.fits
    rw [List.length_append, List.length_dropLast, List.length_singleton]
    omega
  steps := b.steps

/-- `sndsiz = 0`, with the reallocation before it. -/
def clear (b : SendBuffer) : SendBuffer :=
  if b.bytes.length > SLIP_SNDBUF_STEP then {}
  else ⟨[], b.capacity, b.allocated, Nat.zero_le _, b.steps⟩

/-- The second byte of an escape sequence, if the last byte is `ESC`. -/
def unescape (b : SendBuffer) (data : BitVec 8) : Option SendBuffer :=
  if h : b.bytes.getLast? = some SLIP_ESC then
    have hne : b.bytes ≠ [] := by
      intro hnil
      rw [hnil] at h
      cases h
    if data = SLIP_ESC_END then some (b.replaceLast SLIP_END hne)
    else if data = SLIP_ESC_ESC then some (b.replaceLast SLIP_ESC hne)
    else none
  else none

end SendBuffer

/-! ## Encoder and decoders -/

/-- What is thrown. -/
inductive SlipError where
  /-- `std::system_error` of a system call. -/
  | systemError
  | runtimeError (what : String)
deriving DecidableEq

/-- `SLIP`. -/
structure Slip where
  sndbuf : SendBuffer := {}
  /-- The bytes that were passed to `rxpush`. -/
  rx : List (BitVec 8) := []
  /-- The packets that were written to the network device. -/
  tun : List Packet := []

namespace Slip

abbrev SlipM := Effect SlipError Slip

def rxpush (data : BitVec 8) : SlipM Unit := modify fun s => { s with rx := s.rx ++ [data] }

/-- `handle_input`, on what the system call `read` returns. -/
def handleInput (input : Option Packet) : SlipM Unit :=
  match input with
  | none => throw .systemError
  | some rcvbuf => do
      rcvbuf.forM fun byte =>
        if byte = SLIP_END then do
          rxpush SLIP_ESC
          rxpush SLIP_ESC_END
        else if byte = SLIP_ESC then do
          rxpush SLIP_ESC
          rxpush SLIP_ESC_ESC
        else rxpush byte
      rxpush SLIP_END

section

-- what the system call `write` returns for a packet
variable (write : Packet → Option Nat)

def sendPacket : SlipM Unit := do
  let s ← get
  match write s.sndbuf.bytes with
  | none => throw .systemError
  | some ret => do
      modify fun s => { s with tun := s.tun ++ [s.sndbuf.bytes.take ret] }
      if ret ≠ s.sndbuf.bytes.length then throw (.runtimeError "short write")
      modify fun s => { s with sndbuf := s.sndbuf.clear }

def writeData (data : BitVec 8) : SlipM Unit := do
  let s ← get
  if data = SLIP_END then
    if s.sndbuf.bytes.length > 0 then sendPacket write
  else
    match s.sndbuf.unescape data with
    | some sndbuf => modify fun s => { s with sndbuf }
    | none => modify fun s => { s with sndbuf := s.sndbuf.push data }

end

end Slip

/-- The transmitter of `SymbolicUART`. -/
structure SymbolicUart where
  sndbuf : SendBuffer := {}
  /-- The messages that were passed to `ProtocolStates::send_message`. -/
  messages : List Packet := []

instance : Inhabited SymbolicUart := ⟨{}⟩

namespace SymbolicUart

abbrev UartM := Effect SlipError SymbolicUart

section

-- what `ProtocolStates::send_message` throws for a message, if anything
variable (sendMessage : Packet → Option String)

def runTxCallback : UartM Unit := do
  let s ← get
  modify fun s => { s with messages := s.messages ++ [s.sndbuf.bytes] }
  match sendMessage s.sndbuf.bytes with
  | some what => throw (.runtimeError what)
  | none => modify fun s => { s with sndbuf := s.sndbuf.clear }

/-- A write of `register_access_callback` to `txdata`. -/
def txdataWritten (nv : BitVec 32) : UartM Unit := do
  let s ← get
  let data := nv.setWidth 8
  if data = SLIP_END ∧ s.sndbuf.bytes.length > 0 then runTxCallback sendMessage
  else if data ≠ SLIP_END then
    match s.sndbuf.unescape data with
    | some sndbuf => modify fun s => { s with sndbuf }
    | none => modify fun s => { s with sndbuf := s.sndbuf.push data }

theorem runTxCallback_apply (s : SymbolicUart) : runTxCallback sendMessage s =
    (match sendMessage s.sndbuf.bytes with
    | some what => throw (.runtimeError what)
    | none => modify fun s => { s with sndbuf := s.sndbuf.clear } : UartM Unit)
      { s with messages := s.messages ++ [s.sndbuf.bytes] } := rfl

theorem txdataWritten_apply (nv : BitVec 32) (s : SymbolicUart) : txdataWritten sendMessage nv s =
    (if nv.setWidth 8 = SLIP_END ∧ s.sndbuf.bytes.length > 0 then runTxCallback sendMessage
    else if nv.setWidth 8 ≠ SLIP_END then
      match s.sndbuf.unescape (nv.setWidth 8) with
      | some sndbuf => modify fun s => { s with sndbuf }
      | none => modify fun s => { s with sndbuf := s.sndbuf.push (nv.setWidth 8) }
    else pure () : UartM Unit) s := rfl

end

end SymbolicUart

/-- The bytes that the guest receives for a packet. -/
def encoded (p : Packet) : List (BitVec 8) := (Effect.final (Slip.handleInput (some p) {})).rx

/-! ## What the encoder sends -/

/-- The bytes for one byte of a packet. -/
def escape (byte : BitVec 8) : List (BitVec 8) :=
  if byte = SLIP_END then [SLIP_ESC, SLIP_ESC_END]
  else if byte = SLIP_ESC then [SLIP_ESC, SLIP_ESC_ESC]
  else [byte]

theorem end_notMem_escape (byte : BitVec 8) : SLIP_END ∉ escape byte := by
  unfold escape
  split_ifs with hend hesc
  · decide
  · decide
  · rw [List.mem_singleton]
    exact Ne.symm hend

theorem Slip.handleInput_apply (p : Packet) (s : Slip) : handleInput (some p) s =
    .ok () { s with rx := s.rx ++ (p.flatMap escape ++ [SLIP_END]) } := by
  induction p generalizing s with
  | nil => rfl
  | cons byte p ih =>
    have hbyte : (if byte = SLIP_END then do
          rxpush SLIP_ESC
          rxpush SLIP_ESC_END
        else if byte = SLIP_ESC then do
          rxpush SLIP_ESC
          rxpush SLIP_ESC_ESC
        else rxpush byte : SlipM Unit) s = .ok () { s with rx := s.rx ++ escape byte } := by
      unfold escape
      split_ifs
      · change EStateM.Result.ok () { s with rx := s.rx ++ [SLIP_ESC] ++ [SLIP_ESC_END] } = _
        rw [List.append_assoc]
        rfl
      · change EStateM.Result.ok () { s with rx := s.rx ++ [SLIP_ESC] ++ [SLIP_ESC_ESC] } = _
        rw [List.append_assoc]
        rfl
      · rfl
    have hrest := ih { s with rx := s.rx ++ escape byte }
    rw [handleInput] at hrest ⊢
    simp only [List.forM_eq_forM, List.forM_cons, bind_assoc] at hrest ⊢
    rw [bind_of_ok hbyte, hrest, List.flatMap_cons, List.append_assoc, List.append_assoc]

theorem encoded_eq (p : Packet) : encoded p = p.flatMap escape ++ [SLIP_END] := by
  rw [encoded, Slip.handleInput_apply]
  rfl

/-! ## What a decoder stores -/

/-- The decoder takes a byte for the second one of an escape sequence. -/
def Merges (w : Packet) (byte : BitVec 8) : Prop :=
  w.getLast? = some SLIP_ESC ∧ (byte = SLIP_ESC_END ∨ byte = SLIP_ESC_ESC)

/-- The bytes in the buffer after a byte other than `END`. -/
def stored (w : Packet) (byte : BitVec 8) : Packet :=
  if w.getLast? = some SLIP_ESC ∧ byte = SLIP_ESC_END then w.dropLast ++ [SLIP_END]
  else if w.getLast? = some SLIP_ESC ∧ byte = SLIP_ESC_ESC then w.dropLast ++ [SLIP_ESC]
  else w ++ [byte]

theorem stored_ne_nil (w : Packet) (byte : BitVec 8) : stored w byte ≠ [] := by
  unfold stored
  split_ifs <;> exact List.append_ne_nil_of_right_ne_nil _ (List.cons_ne_nil _ _)

variable {w : Packet} {byte : BitVec 8} {write : Packet → Option Nat}
  {sendMessage : Packet → Option String}

theorem stored_of_not_merges (h : ¬ Merges w byte) :
    stored w byte = w ++ [byte] := by
  rw [stored, if_neg fun h' => h ⟨h'.1, .inl h'.2⟩, if_neg fun h' => h ⟨h'.1, .inr h'.2⟩]

/-- A byte of the packet that is merged is lost. -/
theorem stored_of_merges (h : Merges w byte) :
    ∃ x, x ≠ byte ∧ stored w byte = w.dropLast ++ [x] := by
  obtain ⟨hlast, rfl | rfl⟩ := h
  · exact ⟨SLIP_END, by decide, if_pos ⟨hlast, rfl⟩⟩
  · refine ⟨SLIP_ESC, by decide, ?_⟩
    rw [stored, if_neg (fun h => absurd h.2 (by decide)), if_pos ⟨hlast, rfl⟩]

/-- The escape sequence of a byte has the effect of the byte. -/
theorem foldl_escape (w : Packet) (byte : BitVec 8) :
    (escape byte).foldl stored w = stored w byte := by
  have hesc : stored w SLIP_ESC = w ++ [SLIP_ESC] :=
    stored_of_not_merges fun h => absurd h.2 (by decide)
  unfold escape
  split_ifs with hend hbyte
  · subst hend
    have hstored : stored w SLIP_END = w ++ [SLIP_END] :=
      stored_of_not_merges fun h => absurd h.2 (by decide)
    rw [List.foldl_cons, List.foldl_cons, List.foldl_nil, hesc, hstored, stored,
      if_pos ⟨List.getLast?_concat, rfl⟩, List.dropLast_concat]
  · subst hbyte
    rw [List.foldl_cons, List.foldl_cons, List.foldl_nil, hesc, stored,
      if_neg (fun h => absurd h.2 (by decide)), if_pos ⟨List.getLast?_concat, rfl⟩,
      List.dropLast_concat]
  · rfl

theorem foldl_flatMap_escape (p w : Packet) :
    (p.flatMap escape).foldl stored w = p.foldl stored w := by
  induction p generalizing w with
  | nil => rfl
  | cons byte p ih => rw [List.flatMap_cons, List.foldl_append, foldl_escape, ih, List.foldl_cons]

/-- A packet whose first byte the decoder has merged is not at the end of the buffer. -/
theorem not_merges_of_suffix {p : Packet}
    (hrest : p <:+ p.foldl stored (stored w byte) →
      p.foldl stored (stored w byte) = stored w byte ++ p)
    (h : byte :: p <:+ p.foldl stored (stored w byte)) : ¬ Merges w byte := by
  intro hmerges
  obtain ⟨x, hx, hstored⟩ := stored_of_merges hmerges
  rw [hrest ((List.suffix_cons byte p).trans h), hstored, List.append_assoc,
    List.singleton_append] at h
  have hsuffix := List.suffix_of_suffix_length_le h (List.suffix_append _ _) (Nat.le_refl _)
  exact absurd (List.cons.inj (hsuffix.eq_of_length rfl)).1.symm hx

/-- A packet is at the end of the buffer only if it was stored byte by byte. -/
theorem foldl_stored_of_suffix {p : Packet} (h : p <:+ p.foldl stored w) :
    p.foldl stored w = w ++ p := by
  induction p generalizing w with
  | nil => exact (List.append_nil w).symm
  | cons byte p ih =>
    have hmerges := not_merges_of_suffix ih h
    rw [List.foldl_cons, ih ((List.suffix_cons byte p).trans h), stored_of_not_merges hmerges,
      List.append_assoc, List.singleton_append]

/-- No `ESC` of the packet is followed by a byte that may follow an `ESC` in an encoded packet. -/
def Unambiguous (p : Packet) : Prop :=
  p.IsChain fun a b => ¬ (a = SLIP_ESC ∧ (b = SLIP_ESC_END ∨ b = SLIP_ESC_ESC))

instance (p : Packet) : Decidable (Unambiguous p) := inferInstanceAs (Decidable (List.IsChain _ _))

theorem unambiguous_cons (w p : Packet) (byte : BitVec 8) :
    Unambiguous (w.getLast?.toList ++ byte :: p) ↔ ¬ Merges w byte ∧ Unambiguous (byte :: p) := by
  cases hlast : w.getLast? with
  | none => simp [Merges, hlast]
  | some last => simp [Merges, Unambiguous, hlast]

/-- A packet is stored byte by byte exactly if none of its bytes is merged. -/
theorem foldl_stored_eq_append_iff (p w : Packet) :
    p.foldl stored w = w ++ p ↔ Unambiguous (w.getLast?.toList ++ p) := by
  induction p generalizing w with
  | nil => cases w.getLast? <;> simp [Unambiguous]
  | cons byte p ih =>
    rw [unambiguous_cons, List.foldl_cons]
    have hstep (hmerges : ¬ Merges w byte) :
        p.foldl stored (stored w byte) = w ++ byte :: p ↔ Unambiguous (byte :: p) := by
      have := ih (w ++ [byte])
      rwa [List.getLast?_concat, List.append_assoc, ← stored_of_not_merges hmerges] at this
    refine ⟨fun h => ?_, fun h => (hstep h.1).mpr h.2⟩
    have hmerges :=
      not_merges_of_suffix foldl_stored_of_suffix (h ▸ List.suffix_append w (byte :: p))
    exact ⟨hmerges, (hstep hmerges).mp h⟩

/-- The buffer holds the packet alone exactly if it was empty and no byte is merged. -/
theorem foldl_stored_eq_iff (p w : Packet) : p.foldl stored w = p ↔ w = [] ∧ Unambiguous p := by
  have hempty := foldl_stored_eq_append_iff p []
  constructor
  · intro h
    have hsuffix : p <:+ p.foldl stored w := h.symm ▸ List.suffix_refl p
    have happend := (foldl_stored_of_suffix hsuffix).symm.trans h
    obtain rfl : w = [] := List.append_left_eq_self.mp happend
    exact ⟨rfl, hempty.mp h⟩
  · rintro ⟨rfl, h⟩
    exact hempty.mpr h

/-! ## Delivery -/

/-- A decoder, fed with items of which it uses a byte, collects the bytes in a buffer and delivers
the buffer at every `END`. -/
structure Collects {ε S ι : Type} (byte : ι → BitVec 8) (step : ι → Effect ε S Unit)
    (buffer : S → Packet) (delivered : S → List Packet) : Prop where
  store : ∀ i s, byte i ≠ SLIP_END → ∃ t, step i s = .ok () t ∧
    buffer t = stored (buffer s) (byte i) ∧ delivered t = delivered s
  deliver : ∀ i s, byte i = SLIP_END → buffer s ≠ [] → ∃ t, step i s = .ok () t ∧
    buffer t = [] ∧ delivered t = delivered s ++ [buffer s]

namespace Collects

variable {ε S ι : Type} {byte : ι → BitVec 8} {step : ι → Effect ε S Unit} {buffer : S → Packet}
  {delivered : S → List Packet} (h : Collects byte step buffer delivered)
include h

theorem store_run (items : List ι) (s : S) (hitems : SLIP_END ∉ items.map byte) :
    ∃ t, items.forM step s = .ok () t ∧ buffer t = (items.map byte).foldl stored (buffer s) ∧
      delivered t = delivered s := by
  induction items generalizing s with
  | nil => exact ⟨s, rfl, rfl, rfl⟩
  | cons i items ih =>
    rw [List.map_cons, List.mem_cons, not_or] at hitems
    obtain ⟨t, ht, hbuffer, hdelivered⟩ := h.store i s (Ne.symm hitems.1)
    obtain ⟨u, hu, hbuffer', hdelivered'⟩ := ih t hitems.2
    refine ⟨u, (bind_of_ok ht).trans hu, ?_, hdelivered'.trans hdelivered⟩
    rw [hbuffer', hbuffer, List.map_cons, List.foldl_cons]

variable {items : List ι}

/-- A packet arrives as what it leaves in the buffer. -/
theorem packet_run {p : Packet} (hp : p ≠ []) (hitems : items.map byte = encoded p)
    (s : S) : ∃ t, items.forM step s = .ok () t ∧ buffer t = [] ∧
      delivered t = delivered s ++ [p.foldl stored (buffer s)] := by
  rw [encoded_eq] at hitems
  obtain ⟨front, last, rfl, hfront, hlast⟩ := List.map_eq_append_iff.mp hitems
  obtain ⟨i, rest, rfl, hi, hrest⟩ := List.map_eq_cons_iff.mp hlast
  obtain rfl := List.map_eq_nil_iff.mp hrest
  have hend : SLIP_END ∉ front.map byte := by
    rw [hfront, List.mem_flatMap]
    rintro ⟨b, _, hb⟩
    exact end_notMem_escape b hb
  obtain ⟨t, ht, hbuffer, hdelivered⟩ := h.store_run front s hend
  rw [hfront, foldl_flatMap_escape] at hbuffer
  have hne : buffer t ≠ [] := by
    rw [hbuffer, ← List.dropLast_concat_getLast hp, List.foldl_append]
    exact stored_ne_nil _ _
  obtain ⟨u, hu, hempty, hdelivered'⟩ := h.deliver i t hi hne
  refine ⟨u, ?_, hempty, ?_⟩
  · rw [List.forM_eq_forM, List.forM_append, ← List.forM_eq_forM, bind_of_ok ht]
    exact (bind_of_ok hu).trans rfl
  · rw [hdelivered', hdelivered, hbuffer]

/-- A decoder delivers exactly the packet that was encoded if its buffer was empty and the packet is
unambiguous, and only then. -/
theorem delivers_packet_iff {p : Packet} (hp : p ≠ []) (hitems : items.map byte = encoded p)
    (s : S) : (∃ t, items.forM step s = .ok () t ∧ delivered t = delivered s ++ [p]) ↔
      buffer s = [] ∧ Unambiguous p := by
  obtain ⟨u, hu, -, hdelivered⟩ := h.packet_run hp hitems s
  rw [← foldl_stored_eq_iff]
  constructor
  · rintro ⟨t, ht, hpacket⟩
    obtain ⟨-, rfl⟩ := EStateM.Result.ok.inj (hu.symm.trans ht)
    rw [hdelivered] at hpacket
    exact List.cons.inj (List.append_cancel_left hpacket) |>.1
  · intro heq
    exact ⟨u, hu, by rw [hdelivered, heq]⟩

/-- Packets that are encoded one after the other arrive one after the other. -/
theorem delivers_all {ps : List Packet} (hps : ∀ p ∈ ps, p ≠ [] ∧ Unambiguous p) {s : S}
    (hs : buffer s = []) (hitems : items.map byte = ps.flatMap encoded) :
    ∃ t, items.forM step s = .ok () t ∧ buffer t = [] ∧ delivered t = delivered s ++ ps := by
  induction ps generalizing s items with
  | nil =>
    obtain rfl := List.map_eq_nil_iff.mp hitems
    exact ⟨s, rfl, hs, (List.append_nil _).symm⟩
  | cons p ps ih =>
    rw [List.flatMap_cons] at hitems
    obtain ⟨front, rest, rfl, hfront, hrest⟩ := List.map_eq_append_iff.mp hitems
    obtain ⟨hp, hunambiguous⟩ := hps p List.mem_cons_self
    obtain ⟨t, ht, hbuffer, hdelivered⟩ := h.packet_run hp hfront s
    rw [(foldl_stored_eq_iff p _).mpr ⟨hs, hunambiguous⟩] at hdelivered
    obtain ⟨u, hu, hempty, hdelivered'⟩ :=
      ih (fun q hq => hps q (List.mem_cons_of_mem p hq)) hbuffer hrest
    refine ⟨u, ?_, hempty, ?_⟩
    · rw [List.forM_eq_forM, List.forM_append, ← List.forM_eq_forM, bind_of_ok ht]
      exact hu
    · rw [hdelivered', hdelivered, List.append_assoc, List.singleton_append]

end Collects

/-! ## The two decoders -/

namespace SendBuffer

theorem bytes_clear (b : SendBuffer) : b.clear.bytes = [] := by
  unfold clear
  split_ifs <;> rfl

/-- Both decoders store a byte in the same way. -/
theorem bytes_unescape (b : SendBuffer) (data : BitVec 8) :
    (match b.unescape data with
      | some sndbuf => sndbuf
      | none => b.push data).bytes = stored b.bytes data := by
  unfold unescape stored
  by_cases hlast : b.bytes.getLast? = some SLIP_ESC
  · rw [dif_pos hlast]
    simp only [hlast, true_and]
    split_ifs <;> rfl
  · rw [dif_neg hlast]
    simp only [hlast, false_and, if_false]
    rfl

end SendBuffer

theorem Slip.collects (hwrite : ∀ p, write p = some p.length) :
    Collects id (writeData write) (·.sndbuf.bytes) (·.tun) where
  store := by
    intro data s (hdata : data ≠ SLIP_END)
    refine ⟨{ s with sndbuf := match s.sndbuf.unescape data with
      | some sndbuf => sndbuf
      | none => s.sndbuf.push data }, ?_, s.sndbuf.bytes_unescape data, rfl⟩
    change (if data = SLIP_END then _ else _ : SlipM Unit) s = _
    rw [if_neg hdata]
    cases s.sndbuf.unescape data <;> rfl
  deliver := by
    intro data s (hdata : data = SLIP_END) hne
    refine ⟨{ s with sndbuf := s.sndbuf.clear, tun := s.tun ++ [s.sndbuf.bytes] }, ?_,
      s.sndbuf.bytes_clear, rfl⟩
    change (if data = SLIP_END then _ else _ : SlipM Unit) s = _
    rw [if_pos hdata, if_pos (List.length_pos_of_ne_nil hne)]
    change (match write s.sndbuf.bytes with
      | none => throw .systemError
      | some ret => _ : SlipM Unit) s = _
    rw [hwrite]
    change (if s.sndbuf.bytes.length ≠ s.sndbuf.bytes.length then _ else _ : SlipM Unit)
      { s with tun := s.tun ++ [s.sndbuf.bytes.take s.sndbuf.bytes.length] } = _
    rw [if_neg (not_not.mpr rfl), List.take_length]
    rfl

theorem SymbolicUart.collects
    (hsend : ∀ p, sendMessage p = none) :
    Collects (·.setWidth 8) (txdataWritten sendMessage) (·.sndbuf.bytes) (·.messages) where
  store := by
    intro nv s hdata
    refine ⟨{ s with sndbuf := match s.sndbuf.unescape (nv.setWidth 8) with
      | some sndbuf => sndbuf
      | none => s.sndbuf.push (nv.setWidth 8) }, ?_, s.sndbuf.bytes_unescape _, rfl⟩
    rw [txdataWritten_apply, if_neg fun h => hdata h.1, if_pos hdata]
    cases s.sndbuf.unescape (nv.setWidth 8) <;> rfl
  deliver := by
    intro nv s hdata hne
    refine ⟨{ s with sndbuf := s.sndbuf.clear, messages := s.messages ++ [s.sndbuf.bytes] }, ?_,
      s.sndbuf.bytes_clear, rfl⟩
    rw [txdataWritten_apply, if_pos ⟨hdata, List.length_pos_of_ne_nil hne⟩,
      runTxCallback_apply, hsend]
    rfl

/-- A stream of unambiguous packets reaches the network device unchanged and in order. -/
theorem Slip.writeData_stream {ps : List Packet} (hps : ∀ p ∈ ps, p ≠ [] ∧ Unambiguous p)
    (hwrite : ∀ q, write q = some q.length) {s : Slip} (hs : s.sndbuf.bytes = []) :
    ∃ t, (ps.flatMap encoded).forM (writeData write) s = .ok () t ∧ t.sndbuf.bytes = [] ∧
      t.tun = s.tun ++ ps :=
  (collects hwrite).delivers_all hps hs (List.map_id _)

/-- A packet with an `END` in it, and one with an `ESC`. -/
theorem Slip.writeData_stream_escaped :
    ∃ t, ([[SLIP_END], [SLIP_ESC]].flatMap encoded).forM (writeData fun q => some q.length) {} =
      .ok () t ∧ t.sndbuf.bytes = [] ∧ t.tun = [[SLIP_END], [SLIP_ESC]] :=
  writeData_stream (by decide) (fun _ => rfl) rfl

/-- A stream of unambiguous messages reaches the protocol server unchanged and in order. -/
theorem SymbolicUart.txdataWritten_stream {ps : List Packet}
    (hps : ∀ p ∈ ps, p ≠ [] ∧ Unambiguous p)
    (hsend : ∀ q, sendMessage q = none) {u : SymbolicUart} (hu : u.sndbuf.bytes = [])
    {nvs : List (BitVec 32)} (hnvs : nvs.map (·.setWidth 8) = ps.flatMap encoded) :
    ∃ t, nvs.forM (txdataWritten sendMessage) u = .ok () t ∧ t.sndbuf.bytes = [] ∧
      t.messages = u.messages ++ ps :=
  (collects hsend).delivers_all hps hu hnvs

/-- An encoded packet arrives at either decoder exactly if the buffer of the decoder is empty and no
`ESC` of the packet is followed by `ESC_END` or `ESC_ESC`. -/
theorem slip_lossless_iff (p : Packet) (hp : p ≠ []) (write : Packet → Option Nat)
    (hwrite : ∀ q, write q = some q.length) (sendMessage : Packet → Option String)
    (hsend : ∀ q, sendMessage q = none) (s : Slip) (u : SymbolicUart) (nvs : List (BitVec 32))
    (hnvs : nvs.map (·.setWidth 8) = encoded p) :
    ((∃ t, (encoded p).forM (Slip.writeData write) s = .ok () t ∧ t.tun = s.tun ++ [p]) ↔
      s.sndbuf.bytes = [] ∧ Unambiguous p) ∧
    ((∃ t, nvs.forM (SymbolicUart.txdataWritten sendMessage) u = .ok () t ∧
        t.messages = u.messages ++ [p]) ↔
      u.sndbuf.bytes = [] ∧ Unambiguous p) :=
  ⟨(Slip.collects hwrite).delivers_packet_iff hp (List.map_id _) s,
    (SymbolicUart.collects hsend).delivers_packet_iff hp hnvs u⟩

/-- A packet with both bytes that are escaped. -/
theorem slip_lossless_escaped : ∃ t, (encoded [SLIP_END, SLIP_ESC, 1#8]).forM
    (Slip.writeData fun q => some q.length) {} = .ok () t ∧ t.tun = [[SLIP_END, SLIP_ESC, 1#8]] :=
  (slip_lossless_iff [SLIP_END, SLIP_ESC, 1#8] (List.cons_ne_nil _ _) _ (fun _ => rfl)
    (fun _ => none) (fun _ => rfl) {} {} ((encoded [SLIP_END, SLIP_ESC, 1#8]).map (·.setWidth 32))
    (by decide)).1.mpr ⟨rfl, by decide⟩

/-- The packet `ESC, ESC_END` arrives as `END` at both decoders. -/
theorem slip_loses_escape :
    (∃ t, (encoded [SLIP_ESC, SLIP_ESC_END]).forM (Slip.writeData fun q => some q.length) {} =
      .ok () t ∧ t.tun = [[SLIP_END]]) ∧
    ∃ t, ((encoded [SLIP_ESC, SLIP_ESC_END]).map (·.setWidth 32)).forM
      (SymbolicUart.txdataWritten fun _ => none) {} = .ok () t ∧ t.messages = [[SLIP_END]] :=
  ⟨⟨_, rfl, rfl⟩, ⟨_, rfl, rfl⟩⟩

end SpsVp.Platform
