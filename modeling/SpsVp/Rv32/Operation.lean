import SpsVp.Rv32.Arithmetic
import SpsVp.Rv32.Cause
import SpsVp.Rv32.Keep

/-!
# Completed accesses to memory

An instruction that accesses memory and completes has called the memory interface, which has
returned, and what it has returned is what the instruction has written to its register. These are
the inversions of the fetch, of the loads, and of the atomic instructions.
-/

namespace SpsVp.Rv32

open Lib Effect Clover Klee Platform Interface

namespace Iss

variable {s d e f t u : Iss}

/-- A fetch that returns. -/
theorem fetch_eq_ok (h : fetch s = .ok () f) : ∃ word u,
    memory (fun transact view => loadInstr transact view s.pc) s.fetching = .ok word u ∧
      f = { u with instr := ⟨word⟩ } := by
  obtain ⟨_, _, hget, h⟩ := bind_eq_ok h
  cases hget
  obtain ⟨_, _, hensure, h⟩ := bind_eq_ok h
  obtain ⟨_, rfl⟩ := ensure_eq_ok hensure
  obtain ⟨_, _, hnote, h⟩ := bind_eq_ok h
  cases hnote
  obtain ⟨r, u, hmemory, h⟩ := bind_eq_ok h
  cases r with
  | ok word =>
    cases h
    exact ⟨word, u, attempt_eq_ok hmemory, rfl⟩
  | error e => cases e <;> cases h

/-- The check of an address that passes. -/
theorem check_eq_ok {α : Type} {alignment : Nat} {isLoad : Bool}
    {addr : ConcolicValue 32} {k : IssM α}
    {a : α} (h : (if alignment ≠ 1 then trapCheckAddrAlignment alignment isLoad addr >>= fun _ => k
      else k) d = .ok a e) : k (d.checked alignment addr) = .ok a e := by
  by_cases hone : alignment = 1
  · rw [if_neg (not_not.mpr hone)] at h
    rwa [checked, if_pos hone]
  · rw [if_pos hone] at h
    rw [checked, if_neg hone]
    have hcheck := trapCheckAddrAlignment_apply alignment isLoad addr d
    by_cases haligned : addr.concrete.toNat % alignment = 0
    · rw [if_pos haligned] at hcheck
      rwa [bind_of_ok hcheck] at h
    · rw [if_neg haligned] at hcheck
      rw [bind_of_error hcheck] at h
      cases h

/-- The number of bytes that a load reads. -/
def loadSize : Mapping → Nat
  | .LB | .LBU => 1
  | .LH | .LHU => 2
  | _ => 4

/-- What a load asks of the memory interface. -/
def loadOperation (op : Mapping) (transact : Transact) (view : CoreView)
    (addr : ConcolicValue 32) : MemM Concolic :=
  if op = .LBU ∨ op = .LHU then loadUnsigned transact view (loadSize op) addr
  else signed (fun transact view => loadSigned transact view (loadSize op)) transact view addr

theorem execute_load {op : Mapping} (hop : op ∈ loads) :
    execute op = load (loadOperation op) (loadSize op) := by
  simp only [loads, List.mem_cons, List.not_mem_nil, or_false] at hop
  obtain rfl | rfl | rfl | rfl | rfl := hop <;> rfl

/-- A load that completes. -/
theorem load_eq_ok {op : Transact → CoreView → ConcolicValue 32 → MemM Concolic}
    {alignment : Nat} (h : load op alignment d = .ok () e) : ∃ data u,
      memory
        (fun transact view => op transact view ((d.regs d.instr.rs1).value.add (I_IMM d.instr)))
        (d.checked alignment ((d.regs d.instr.rs1).value.add (I_IMM d.instr))) = .ok data u ∧
      writeRd data.value u = .ok () e :=
  have hload := check_eq_ok (k := do
    let data ← memory fun transact view =>
      op transact view ((d.regs d.instr.rs1).value.add (I_IMM d.instr))
    writeRd data.value) h
  bind_eq_ok hload

/-- An atomic instruction passes its checks. -/
def Permitted (d : Iss) : Prop :=
  d.csrs.hasExtension CsrTable.A_ISA_EXT = true ∧ (d.regs d.instr.rs1).value.concrete.toNat % 4 = 0

/-- What follows the checks of an atomic instruction that completes. -/
theorem atomic_eq_ok {k : RegValue → IssM Unit} {isLoad : Bool}
    (h : (do
      control (Control.requireIsa CsrTable.A_ISA_EXT)
      let addr ← rs1
      trapCheckAddrAlignment 4 isLoad addr.value
      k addr) d = .ok () e) :
    d.Permitted ∧ k (d.regs d.instr.rs1) (d.noted (d.regs d.instr.rs1).value) = .ok () e := by
  have hrequire := control_requireIsa CsrTable.A_ISA_EXT d
  have hrs1 : rs1 d = .ok (d.regs d.instr.rs1) d := rfl
  split_ifs at hrequire with hext
  · rw [bind_of_ok hrequire, bind_of_ok hrs1] at h
    have hcheck := trapCheckAddrAlignment_apply 4 isLoad (d.regs d.instr.rs1).value d
    by_cases haligned : (d.regs d.instr.rs1).value.concrete.toNat % 4 = 0
    · rw [if_pos haligned] at hcheck
      rw [bind_of_ok hcheck] at h
      exact ⟨⟨hext, haligned⟩, h⟩
    · rw [if_neg haligned] at hcheck
      rw [bind_of_error hcheck] at h
      cases h
  · rw [bind_of_error hrequire] at h
    cases h

/-- The age of a reservation after a load reserved. -/
def reservationAge (counter : Nat) : Nat := if counter = 0 then 17 else counter

/-- A load reserved that completes. -/
theorem lrW_eq_ok (h : lrW d = .ok () e) : ∃ data u,
    memory (fun transact view => atomicLoadReservedWord transact view
      (d.regs d.instr.rs1).object (d.regs d.instr.rs1).value) (d.noted (d.regs d.instr.rs1).value) =
      .ok data u ∧
    e = { u.assign u.instr.rd data with lrScCounter := reservationAge u.lrScCounter } := by
  obtain ⟨data, u, hmemory, h⟩ := bind_eq_ok (atomic_eq_ok h).2
  rw [bind_of_ok (writeRd_word data u)] at h
  refine ⟨data, u, hmemory, ?_⟩
  have hcounter : ∀ c : Control, (if c.lrScCounter = 0 then { c with lrScCounter := 17 } else c) =
      { c with lrScCounter := reservationAge c.lrScCounter } := by
    intro c
    unfold reservationAge
    split
    · rfl
    · rfl
  cases h
  exact congrArg (fun c => { u.assign u.instr.rd data with toControl := c }) (hcounter _)

/-- An atomic memory operation that completes. -/
theorem executeAmo_eq_ok {operation : ConcolicValue 32 → ConcolicValue 32 → ConcolicValue 32}
    (h : executeAmo operation d = .ok () e) : d.Permitted ∧ ∃ data t u,
      amoLoad (d.regs d.instr.rs1).value (d.noted (d.regs d.instr.rs1).value) = .ok data t ∧
      memory (fun transact view => atomicStoreWord transact view
        (d.regs d.instr.rs1).value (operation data (t.regs t.instr.rs2).value)) t = .ok () u ∧
      e = u.assign u.instr.rd data := by
  obtain ⟨hpermitted, h⟩ := atomic_eq_ok h
  refine ⟨hpermitted, ?_⟩
  obtain ⟨r, t, hload, h⟩ := bind_eq_ok h
  cases r with
  | error e => cases e with
    | trap reason mtval => cases reason <;> cases h
    | _ => cases h
  | ok data =>
    have hrs2 : rs2 t = .ok (t.regs t.instr.rs2) t := rfl
    dsimp only at h
    rw [bind_of_ok hrs2] at h
    obtain ⟨_, u, hstore, h⟩ := bind_eq_ok h
    rw [writeRd_word data u] at h
    cases h
    exact ⟨data, t, u, attempt_eq_ok hload, hstore, rfl⟩

end Iss

end SpsVp.Rv32
