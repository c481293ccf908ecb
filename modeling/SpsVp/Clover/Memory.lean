import SpsVp.Clover.Context
import SpsVp.Lib.ByteMemory

/-!
# Concolic memory

`clover::ConcolicMemory` of `symex/clover/memory.cpp`, a map from addresses to concolic bytes, with
the conversions between concolic values and byte buffers of `symex/clover/solver.cpp`. The least
significant byte of a value has the lowest address.
-/

namespace SpsVp.Clover

open Klee Lib BitVec

namespace ConcolicValue

variable {w : Nat}

/-- A value extended with zeros to a given number of bits, if it has fewer. -/
def widen (x : ConcolicValue w) (bits : Nat) : ConcolicValue (max w bits) :=
  if h : w < bits then (x.zext bits).cast (by omega) else x.cast (by omega)

/-- Byte `i` of the `n` bytes of a value. -/
def byte (x : ConcolicValue w) (n : Nat) (i : Fin n) : ConcolicValue 8 :=
  (x.widen (8 * n)).extract (8 * i) 8 (by omega)

/-- `Solver::BVCToBytes`. -/
def toBytes (x : ConcolicValue w) (buflen : Nat) : List (BitVec 8) :=
  List.ofFn fun i : Fin buflen => (x.byte buflen i).concrete

/-- The loop that `Solver::BVC` of a buffer, `ConcolicMemory::load` and `getSymbolicBytes` share:
every further byte goes to the front. -/
def ofBytes (bytes : Nat → ConcolicValue 8) : (n : Nat) → ConcolicValue (8 * n)
  | 0 => ⟨0#0, none⟩
  | n + 1 => ExecutionContext.prependByte (bytes n) (ofBytes bytes n)

/-- `Solver::BVC` of a buffer, with the bytes in the order `ReadMSB`. -/
def ofBuffer (buf : List (BitVec 8)) : ConcolicValue (8 * buf.length) :=
  ofBytes (fun i => ⟨buf.getD i 0, none⟩) buf.length

variable (m : Option Valuation)

/-- The bytes of a value, those beyond its width being zero. -/
theorem part_byte (x : ConcolicValue w) {n : Nat} (i : Fin n) :
    (x.byte n i).part m = (x.part m).extractLsb' (8 * i) 8 := by
  have hi := i.isLt
  rw [byte, part_extract, widen]
  apply eq_of_getLsbD_eq
  intro k hk
  split_ifs with h
  · rw [part_cast, part_zext]
    simp only [getLsbD_extractLsb', getLsbD_cast, getLsbD_setWidth]
    rw [decide_eq_true (show 8 * i.val + k < 8 * n by omega), Bool.true_and]
  · simp only [part_cast, getLsbD_extractLsb', getLsbD_cast]

theorem part_ofBytes (bytes : Nat → ConcolicValue 8) (n : Nat) :
    (ofBytes bytes n).part m = ByteMemory.littleEndian (fun i => (bytes i).part m) n := by
  induction n with
  | zero => exact eq_of_zero_length rfl
  | succ n ih =>
    rw [ofBytes, ByteMemory.littleEndian, ← ih]
    cases n with
    | zero =>
      apply eq_of_getLsbD_eq
      intro k hk
      rw [getLsbD_cast, getLsbD_append, if_neg (by omega)]
      rfl
    | succ n => rw [ExecutionContext.prependByte, part_cast, part_concat]

/-- The bytes of a buffer, those behind its end being zero. -/
theorem extract_part_ofBuffer (buf : List (BitVec 8)) (i : Nat) :
    ((ofBuffer buf).part m).extractLsb' (8 * i) 8 = buf.getD i 0#8 := by
  by_cases h : i < buf.length
  · rw [ofBuffer, part_ofBytes, ByteMemory.extract_littleEndian _ h, part_of_concrete m rfl]
    rfl
  · apply eq_of_getLsbD_eq
    intro k hk
    rw [List.getD_eq_getElem?_getD, List.getElem?_eq_none (Nat.not_lt.mp h),
      getLsbD_extractLsb', getLsbD_of_ge _ _ (by omega), Bool.and_false,
      Option.getD_none, getLsbD_zero]

end ConcolicValue

/-- `data_memory_if::Concolic`, what a shared pointer to a concolic value refers to: a value of some
width. -/
structure Concolic where
  width : Nat
  value : ConcolicValue width
deriving DecidableEq

/-- `ConcolicMemory`. -/
structure ConcolicMemory where
  data : BitVec 32 → Option (ConcolicValue 8)

namespace ConcolicMemory

/-- The byte at an address; one that was never written is zero. -/
def byteAt (memory : ConcolicMemory) (addr : BitVec 32) : ConcolicValue 8 :=
  (memory.data addr).getD ⟨0#8, none⟩

def load (memory : ConcolicMemory) (addr : BitVec 32) (bytesize : Nat) :
    ConcolicValue (8 * bytesize) :=
  ConcolicValue.ofBytes (fun off => memory.byteAt (addr + BitVec.ofNat 32 off)) bytesize

def store {w : Nat} (memory : ConcolicMemory) (addr : BitVec 32) (value : ConcolicValue w)
    (bytesize : Nat) : ConcolicMemory :=
  (List.finRange bytesize).foldl (fun memory (off : Fin bytesize) =>
    ⟨Function.update memory.data (addr + BitVec.ofNat 32 off) (some (value.byte bytesize off))⟩)
    memory

/-- What `store` writes, byte by byte. -/
def writes {w : Nat} (addr : BitVec 32) (value : ConcolicValue w) (bytesize : Nat) :
    List (BitVec 32 × ConcolicValue 8) :=
  List.ofFn fun off : Fin bytesize => (addr + BitVec.ofNat 32 off, value.byte bytesize off)

theorem data_store {w : Nat} (memory : ConcolicMemory) (addr : BitVec 32) (value : ConcolicValue w)
    (bytesize : Nat) : (memory.store addr value bytesize).data =
      ByteMemory.write memory.data
        ((writes addr value bytesize).map fun entry => (entry.1, some entry.2)) := by
  rw [store, writes, ByteMemory.write, List.map_ofFn, List.ofFn_eq_map, List.foldl_map]
  symm
  exact List.foldl_hom ConcolicMemory.data fun _ _ => rfl

theorem byteAt_store {w : Nat} (memory : ConcolicMemory) (addr : BitVec 32)
    (value : ConcolicValue w) (bytesize : Nat) : (memory.store addr value bytesize).byteAt =
      ByteMemory.write memory.byteAt (writes addr value bytesize) := by
  funext a
  have hview := ByteMemory.map_write (fun byte : Option (ConcolicValue 8) => byte.getD ⟨0#8, none⟩)
    memory.data ((writes addr value bytesize).map fun entry => (entry.1, some entry.2)) a
  rw [← data_store, List.map_map] at hview
  refine hview.trans ?_
  simp only [Function.comp_def, Option.getD_some, Prod.mk.eta, List.map_id']
  rfl

theorem part_load (m : Option Valuation) (memory : ConcolicMemory) (addr : BitVec 32)
    (bytesize : Nat) : (memory.load addr bytesize).part m =
      ByteMemory.littleEndian (fun off => (memory.byteAt (addr + BitVec.ofNat 32 off)).part m)
        bytesize :=
  ConcolicValue.part_ofBytes m _ _

end ConcolicMemory

end SpsVp.Clover
