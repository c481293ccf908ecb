import SpsVp.Platform.Bus

/-!
# The memory of the symbolic platforms

`SymbolicMemory` keeps a concolic value for every byte and takes the values of a transaction apart
and together again. `flat` forgets that: it is the memory of bytes that one sees concretely, or
under an assignment of the symbolic variables. Every transaction acts on it like a transaction on a
memory of bytes (`flat_transport`), and so a load returns what was most recently stored
(`loads_most_recent_stores`).
-/

namespace SpsVp.Platform

open Clover Klee Lib ByteMemory

namespace Payload

/-- The address of a byte of a transaction, as `ConcolicMemory` computes it. -/
def addressOf (payload : Payload) (off : Nat) : BitVec 32 :=
  payload.address.setWidth 32 + BitVec.ofNat 32 off

/-- The transaction stays inside a memory; the sum is one of 64-bit words. -/
def Fits (payload : Payload) (size : Nat) : Prop :=
  (payload.address + BitVec.ofNat 64 payload.length).toNat ≤ size

instance (payload : Payload) (size : Nat) : Decidable (payload.Fits size) :=
  inferInstanceAs (Decidable (_ ≤ _))

variable (m : Option Valuation)

/-- A byte that a transaction brings: one of its concolic value, or one of its buffer. -/
def byte (payload : Payload) (off : Nat) : BitVec 8 :=
  match payload.extension with
  | some value => (value.value.part m).extractLsb' (8 * off) 8
  | none => payload.data.getD off 0#8

/-- What a transaction writes to a memory of bytes of a given size. -/
def writes (size : Nat) (payload : Payload) : List (BitVec 32 × BitVec 8) :=
  if payload.Fits size ∧ payload.command = .write then
    List.ofFn fun off : Fin payload.length => (payload.addressOf off, payload.byte m off)
  else []

end Payload

namespace SymbolicMemory

variable (m : Option Valuation)

/-- The memory of bytes that is seen concretely or under an assignment. -/
def flat (memory : SymbolicMemory) (addr : BitVec 32) : BitVec 8 :=
  (memory.memory.byteAt addr).part m

/-- The memory after some transactions. -/
def serve (memory : SymbolicMemory) (history : List Payload) : SymbolicMemory :=
  history.foldl (fun memory payload => (memory.transport payload).2) memory

variable {memory : SymbolicMemory} {payload : Payload}

theorem transport_of_not_fits
    (h : ¬ payload.Fits memory.size) :
    memory.transport payload = ({ payload with isResponseError := true }, memory) :=
  if_pos (Nat.not_le.mp h)

theorem transport_of_read
    (hfits : payload.Fits memory.size) (h : payload.command = .read) :
    memory.transport payload = (memory.readData payload, memory) := by
  rw [transport, if_neg (Nat.not_lt.mpr hfits), h]

theorem transport_of_write
    (hfits : payload.Fits memory.size) (h : payload.command = .write) :
    memory.transport payload = (payload, memory.writeData payload) := by
  rw [transport, if_neg (Nat.not_lt.mpr hfits), h]

/-- What `write_data` stores for a byte. -/
theorem part_byte_value (payload : Payload) (off : Fin payload.length) :
    (((payload.extension.getD ⟨_, ConcolicValue.ofBuffer payload.data⟩).value.byte payload.length
      off).part m) = payload.byte m off := by
  rw [ConcolicValue.part_byte, Payload.byte]
  cases payload.extension with
  | some value => rfl
  | none => exact ConcolicValue.extract_part_ofBuffer m payload.data off

variable (memory)

theorem flat_writeData (payload : Payload) :
    (memory.writeData payload).flat m = write (memory.flat m)
      (List.ofFn fun off : Fin payload.length => (payload.addressOf off, payload.byte m off)) := by
  funext addr
  rw [flat, writeData, ConcolicMemory.byteAt_store,
    map_write (fun byte : ConcolicValue 8 => byte.part m), ConcolicMemory.writes,
    List.map_ofFn]
  simp only [Function.comp_def, part_byte_value]
  rfl

/-- A transaction acts on the memory of bytes. -/
theorem flat_transport (payload : Payload) :
    (memory.transport payload).2.flat m =
      write (memory.flat m) (payload.writes m memory.size) := by
  unfold Payload.writes
  by_cases hfits : payload.Fits memory.size
  · cases hcommand : payload.command with
    | read =>
      rw [transport_of_read hfits hcommand, if_neg (fun h => nomatch h.2)]
      rfl
    | write =>
      rw [transport_of_write hfits hcommand, if_pos ⟨hfits, rfl⟩]
      exact flat_writeData m memory payload
  · rw [transport_of_not_fits hfits, if_neg (fun h => hfits h.1)]
    rfl

theorem size_transport (payload : Payload) :
    (memory.transport payload).2.size = memory.size := by
  unfold transport
  split
  · rfl
  · split <;> rfl

theorem size_serve (history : List Payload) :
    (memory.serve history).size = memory.size := by
  induction history generalizing memory with
  | nil => rfl
  | cons payload history ih => exact (ih _).trans (size_transport memory payload)

/-- A sequence of transactions acts on the memory of bytes. -/
theorem flat_serve (history : List Payload) :
    (memory.serve history).flat m =
      write (memory.flat m) (history.flatMap (Payload.writes m memory.size)) := by
  induction history generalizing memory with
  | nil => rfl
  | cons payload history ih =>
    have := ih (memory.transport payload).2
    rw [size_transport, flat_transport] at this
    rw [List.flatMap_cons, write_append]
    exact this

/-- What a transaction that reads returns. -/
theorem part_readData (payload : Payload) :
    ((memory.memory.load (payload.address.setWidth 32) payload.length).part m) =
      littleEndian (fun off => memory.flat m (payload.addressOf off)) payload.length :=
  ConcolicMemory.part_load m _ _ _

theorem data_readData (payload : Payload) :
    (memory.readData payload).data =
      List.ofFn fun off : Fin payload.length => memory.flat none (payload.addressOf off) := by
  refine congrArg List.ofFn (funext fun off => ?_)
  have hbyte := ConcolicValue.part_byte none
    (memory.memory.load (payload.address.setWidth 32) payload.length) off
  rw [part_readData, extract_littleEndian _ off.isLt] at hbyte
  exact hbyte

/-- A store changes the bytes that it addresses and no other. -/
theorem data_transport_of_ne {addr : BitVec 32}
    (h : ∀ off < payload.length, addr ≠ payload.addressOf off) :
    (memory.transport payload).2.memory.data addr = memory.memory.data addr := by
  by_cases hfits : payload.Fits memory.size
  · cases hcommand : payload.command with
    | read => rw [transport_of_read hfits hcommand]
    | write =>
      rw [transport_of_write hfits hcommand, writeData, ConcolicMemory.data_store]
      refine write_of_notMem ?_
      rw [List.map_map, List.mem_map, ConcolicMemory.writes]
      rintro ⟨_, hmem, heq⟩
      obtain ⟨off, rfl⟩ := List.mem_ofFn.mp hmem
      exact h off off.isLt heq.symm
  · rw [transport_of_not_fits hfits]

/-- The word of some bytes at an address. -/
def contents (memory : SymbolicMemory) (addr : BitVec 64) (n : Nat) : BitVec (8 * n) :=
  littleEndian (fun off => memory.flat m (addr.setWidth 32 + BitVec.ofNat 32 off)) n

/-- What a load has read. -/
theorem part_load_contents (addr : BitVec 64) (n : Nat) :
    (memory.memory.load (addr.setWidth 32) n).part m = memory.contents m addr n :=
  ConcolicMemory.part_load m _ _ _

/-- A byte that a store has written. -/
theorem flat_writeData_addressOf
    (hlength : payload.length ≤ 2 ^ 32) {off : Nat} (hoff : off < payload.length) :
    (memory.writeData payload).flat m (payload.addressOf off) = payload.byte m off := by
  rw [flat_writeData]
  refine write_of_mem
    (List.mem_ofFn.mpr ⟨⟨off, hoff⟩, rfl⟩) fun other hother haddr => ?_
  obtain ⟨off', rfl⟩ := List.mem_ofFn.mp hother
  have hnat : (BitVec.ofNat 32 off').toNat = (BitVec.ofNat 32 off).toNat :=
    congrArg BitVec.toNat ((BitVec.add_right_inj _).mp haddr)
  have hoff' := off'.isLt
  rw [BitVec.toNat_ofNat, BitVec.toNat_ofNat, Nat.mod_eq_of_lt (by omega),
    Nat.mod_eq_of_lt (by omega)] at hnat
  exact congrArg (payload.byte m) hnat

/-- A store of a value of its width is read back. -/
theorem contents_writeData
    {value : ConcolicValue (8 * payload.length)} (hlength : payload.length ≤ 2 ^ 32)
    (hvalue : payload.extension = some ⟨_, value⟩) :
    (memory.writeData payload).contents m payload.address payload.length = value.part m := by
  rw [← littleEndian_extract (value.part m)]
  refine littleEndian_congr fun off hoff => ?_
  have hbyte := flat_writeData_addressOf m memory hlength hoff
  rw [Payload.byte, hvalue] at hbyte
  exact hbyte

/-- After any transactions, a load returns the bytes that were most recently stored, concretely and
under every assignment, and a store leaves every other byte alone. A byte that was never stored is
what it was initially. -/
theorem loads_most_recent_stores (memory : SymbolicMemory) (history : List Payload)
    (payload : Payload) :
    (payload.Fits memory.size → payload.command = .read →
      ∃ value : ConcolicValue (8 * payload.length),
        (memory.serve history).transport payload =
          ({ payload with
              data := List.ofFn fun off : Fin payload.length =>
                (latest (history.flatMap (Payload.writes none memory.size))
                  (payload.addressOf off)).getD (memory.flat none (payload.addressOf off))
              extension := some ⟨_, value⟩ }, memory.serve history) ∧
        ∀ m, value.part m = littleEndian (fun off =>
          (latest (history.flatMap (Payload.writes m memory.size))
            (payload.addressOf off)).getD (memory.flat m (payload.addressOf off))) payload.length) ∧
    (payload.command = .write → ∀ addr, (∀ off < payload.length, addr ≠ payload.addressOf off) →
      ((memory.serve history).transport payload).2.memory.data addr =
        (memory.serve history).memory.data addr) := by
  have hflat : ∀ m addr, (memory.serve history).flat m addr =
      (latest (history.flatMap (Payload.writes m memory.size)) addr).getD
        (memory.flat m addr) := by
    intro m addr
    rw [flat_serve, write_apply]
  refine ⟨fun hfits hread => ⟨(memory.serve history).memory.load (payload.address.setWidth 32)
    payload.length, ?_, fun m => ?_⟩, fun _ addr h => data_transport_of_ne _ h⟩
  · rw [transport_of_read ((size_serve memory history).symm ▸ hfits) hread]
    simp only [← hflat, ← data_readData]
    rfl
  · simp only [← hflat]
    exact part_readData m _ _

/-- A symbolic byte, here with the concrete value one. -/
def symbolicByte : ConcolicValue 8 := ⟨1#8, some (.createTempReadByte "x")⟩

/-- A store of two bytes with a symbolic value of one, and one of the byte 0xab behind it. -/
def overlapping : List Payload :=
  [{ command := .write, address := 3#64, data := [1#8, 0#8], length := 2,
      extension := some ⟨8, symbolicByte⟩ },
    { command := .write, address := 4#64, data := [0xab#8], length := 1 }]

/-- A load of both bytes. -/
theorem loads_most_recent_stores_overlapping : ∃ value : ConcolicValue 16,
    (((⟨16, ⟨fun _ => none⟩⟩ : SymbolicMemory).serve overlapping).transport
        { command := .read, address := 3#64, data := [], length := 2 }).1.extension =
      some ⟨16, value⟩ ∧ ∀ m, value.part m =
        littleEndian (fun off => if off = 0 then symbolicByte.part m else 0xab#8) 2 := by
  obtain ⟨value, htransport, hvalue⟩ := (loads_most_recent_stores ⟨16, ⟨fun _ => none⟩⟩ overlapping
    { command := .read, address := 3#64, data := [], length := 2 }).1 (by decide) rfl
  refine ⟨value, congrArg (fun served => served.1.extension) htransport,
    fun m => (hvalue m).trans ?_⟩
  refine littleEndian_congr fun off (hoff : off < 2) => ?_
  obtain rfl | rfl : off = 0 ∨ off = 1 := by omega
  · exact BitVec.extractLsb'_eq_self
  · rfl

end SymbolicMemory

end SpsVp.Platform
