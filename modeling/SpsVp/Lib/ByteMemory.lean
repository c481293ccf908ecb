import Mathlib.Data.List.Induction
import Mathlib.Logic.Function.Basic

/-!
# Memories of bytes

A memory is a function from addresses, and what was written to it is a log of the writes of single
bytes, in order. `write_apply` is what a memory is for: at every address it holds what was most
recently written there, and else what was there before. `littleEndian` is the word of some bytes,
the one with the lowest address in the least significant place.
-/

namespace SpsVp.Lib.ByteMemory

section

variable {A B C : Type*} [DecidableEq A]

/-- The memory after some writes. -/
def write (memory : A → B) (log : List (A × B)) : A → B :=
  log.foldl (fun memory entry => Function.update memory entry.1 entry.2) memory

/-- What was most recently written to an address. -/
def latest (log : List (A × B)) (addr : A) : Option B :=
  (log.reverse.find? fun entry => entry.1 = addr).map Prod.snd

theorem write_append (memory : A → B) (log log' : List (A × B)) :
    write memory (log ++ log') = write (write memory log) log' :=
  List.foldl_append

theorem latest_concat (log : List (A × B)) (entry : A × B) (addr : A) :
    latest (log ++ [entry]) addr = if entry.1 = addr then some entry.2 else latest log addr := by
  rw [latest, List.reverse_append, List.reverse_singleton, List.singleton_append, List.find?_cons]
  by_cases h : entry.1 = addr
  · simp [h]
  · simp [h, latest]

/-- A memory holds what was most recently written. -/
theorem write_apply (memory : A → B) (log : List (A × B)) (addr : A) :
    write memory log addr = (latest log addr).getD (memory addr) := by
  induction log using List.reverseRecOn with
  | nil => rfl
  | append_singleton log entry ih =>
    rw [write_append, latest_concat]
    change Function.update (write memory log) entry.1 entry.2 addr = _
    by_cases h : entry.1 = addr
    · rw [if_pos h, ← h, Function.update_self, Option.getD_some]
    · rw [if_neg h, Function.update_of_ne (Ne.symm h), ih]

/-- A byte is kept or one that was written to its address. -/
theorem write_cases (memory : A → B) (log : List (A × B)) (addr : A) :
    write memory log addr = memory addr ∨
      ∃ entry ∈ log, entry.1 = addr ∧ write memory log addr = entry.2 := by
  rw [write_apply, latest]
  cases hfind : log.reverse.find? fun entry => entry.1 = addr with
  | none => exact .inl rfl
  | some entry =>
    have haddr := List.find?_some hfind
    exact .inr ⟨entry, List.mem_reverse.mp (List.mem_of_find?_eq_some hfind),
      of_decide_eq_true haddr, rfl⟩

/-- An address that is written, with one value only. -/
theorem write_of_mem {memory : A → B} {log : List (A × B)} {entry : A × B} (h : entry ∈ log)
    (hunique : ∀ other ∈ log, other.1 = entry.1 → other.2 = entry.2) :
    write memory log entry.1 = entry.2 := by
  rw [write_apply, latest]
  cases hfind : log.reverse.find? fun other => other.1 = entry.1 with
  | none =>
    exact absurd (decide_eq_true rfl) (List.find?_eq_none.mp hfind entry (List.mem_reverse.mpr h))
  | some other =>
    have haddr : decide (other.1 = entry.1) = true := by simpa using List.find?_some hfind
    exact hunique other (List.mem_reverse.mp (List.mem_of_find?_eq_some hfind))
      (of_decide_eq_true haddr)

/-- An address that is not written to keeps what it holds. -/
theorem write_of_notMem {memory : A → B} {log : List (A × B)} {addr : A}
    (h : addr ∉ log.map Prod.fst) : write memory log addr = memory addr := by
  have hnone : latest log addr = none := by
    rw [latest, Option.map_eq_none_iff, List.find?_eq_none]
    intro entry hentry heq
    rw [List.mem_reverse] at hentry
    exact h (of_decide_eq_true heq ▸ List.mem_map_of_mem hentry)
  rw [write_apply, hnone, Option.getD_none]

/-- A view of the bytes sees the writes. -/
theorem map_write (f : B → C) (memory : A → B) (log : List (A × B)) (addr : A) :
    f (write memory log addr) =
      write (fun a => f (memory a)) (log.map fun entry => (entry.1, f entry.2)) addr := by
  induction log generalizing memory with
  | nil => rfl
  | cons entry log ih =>
    have hview : (fun a => f (Function.update memory entry.1 entry.2 a)) =
        Function.update (fun a => f (memory a)) entry.1 (f entry.2) := by
      funext a
      exact Function.apply_update (fun _ => f) memory entry.1 entry.2 a
    change f (write (Function.update memory entry.1 entry.2) log addr) =
      write (Function.update (fun a => f (memory a)) entry.1 (f entry.2)) _ addr
    rw [ih, hview]

end

/-! ## Words -/

theorem width_succ (n : Nat) : 8 + 8 * n = 8 * (n + 1) := by omega

/-- The word of `n` bytes. -/
def littleEndian (bytes : Nat → BitVec 8) : (n : Nat) → BitVec (8 * n)
  | 0 => 0#0
  | n + 1 => (bytes n ++ littleEndian bytes n).cast (width_succ n)

variable {n : Nat}

theorem littleEndian_congr {bytes bytes' : Nat → BitVec 8}
    (h : ∀ i < n, bytes i = bytes' i) : littleEndian bytes n = littleEndian bytes' n := by
  induction n with
  | zero => rfl
  | succ n ih => rw [littleEndian, littleEndian, h n n.lt_succ_self, ih fun i hi => h i (by omega)]

/-- The bytes of a word. -/
theorem extract_littleEndian (bytes : Nat → BitVec 8) {i : Nat} (hi : i < n) :
    (littleEndian bytes n).extractLsb' (8 * i) 8 = bytes i := by
  induction n with
  | zero => omega
  | succ n ih =>
    apply BitVec.eq_of_getLsbD_eq
    intro k hk
    rw [littleEndian, BitVec.getLsbD_extractLsb', BitVec.getLsbD_cast, BitVec.getLsbD_append]
    obtain hlow | rfl := Nat.lt_succ_iff_lt_or_eq.mp hi
    · have := congrArg (·.getLsbD k) (ih hlow)
      simp only [BitVec.getLsbD_extractLsb'] at this
      rw [if_pos (by omega), this]
    · rw [if_neg (by omega), Nat.add_sub_cancel_left, decide_eq_true hk, Bool.true_and]

/-- A word is the word of its bytes. -/
theorem littleEndian_extract (x : BitVec (8 * n)) :
    littleEndian (fun i => x.extractLsb' (8 * i) 8) n = x := by
  apply BitVec.eq_of_getLsbD_eq
  intro k hk
  have hbyte :=
    extract_littleEndian (fun i => x.extractLsb' (8 * i) 8) (n := n) (i := k / 8) (by omega)
  have hbit := congrArg (·.getLsbD (k % 8)) hbyte
  simp only [BitVec.getLsbD_extractLsb', Nat.div_add_mod, Nat.mod_lt k (by decide : 0 < 8),
    decide_true, Bool.true_and] at hbit
  exact hbit

end SpsVp.Lib.ByteMemory
