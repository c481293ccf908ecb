import SpsVp.Rv32.Drift
import SpsVp.Rv32.Specification

/-!
# Rules for the instructions

An instruction checks its operands, and then writes a register or the memory. `Framed A B E` has
what a property of both parts has to survive: `A` holds until something is written and `B` from then
on, and `E` holds where an exception is thrown. There is one rule for every shape of an instruction,
and they serve the effects of an instruction on the control state, its traps and the invariants of
the core alike. -/

namespace SpsVp.Rv32

open Lib Effect Clover Klee Platform Interface Control

namespace Iss

open Specification

/-- The instructions that only compute the value of a register. -/
def computations : List Mapping :=
  upperImmediates ++ registerImmediates ++ shiftImmediates ++ registerRegisters ++ extensionM

/-- What holds before and after the first write of an instruction, and where it throws. -/
structure Framed (A B : Iss → Prop) (E : Exception → Iss → Prop) : Prop where
  weaken : ∀ s, A s → B s
  log : ∀ s log, A s → A { s with io := { s.io with log } }
  illegal : ∀ s, A s → E s.illegalInstruction s
  assign : ∀ s index value, B s → B (s.assign index value)
  copy : ∀ s index source, B s → B { s with regs := Function.update s.regs index (s.regs source) }
  trace : ∀ s cond log, B s → B { s with
    coverage := s.coverage.map (·.coverBranch s.lastPc cond), io := { s.io with log } }

/-- The same for an instruction that accesses memory, which checks its address. -/
structure FramedAccess (A B : Iss → Prop) (E : Exception → Iss → Prop) :
    Prop extends Framed A B E where
  misaligned : ∀ s isLoad mtval, A s → E (.trap (if isLoad = true then .EXC_LOAD_ADDR_MISALIGNED
    else .EXC_STORE_AMO_ADDR_MISALIGNED) mtval) s

variable {A B : Iss → Prop} {E : Exception → Iss → Prop} {α : Type} {w : Nat}

theorem triple_trackAndTraceBranch {P Q : Iss → Prop} {cond : Bool}
    (htrace : ∀ s log, P s → Q { s with
      coverage := s.coverage.map (·.coverBranch s.lastPc cond), io := { s.io with log } })
    (expr : ConcolicValue 1) : Triple P (trackAndTraceBranch cond expr) (fun _ => Q) E := by
  intro s hs
  obtain ⟨concrete, symbolic⟩ := expr
  cases symbolic with
  | none => exact htrace s s.io.log hs
  | some bv => exact htrace s _ hs

/-- The part of `WFI` on the control state. -/
theorem triple_wfiControl {P Q : Control → Prop} {F : Exception → Control → Prop}
    (hraise : ∀ c, P c → F c.illegalInstruction c) (hweaken : ∀ c, P c → Q c)
    (hsynchronise : Triple P synchronise (fun _ => Q) F) : Triple P (do
      let s ← get
      if s.sMode && s.csrs.bit .mstatus 21 then raiseIllegalInstruction
      if s.uMode && s.csrs.hasSupervisorModeExtension then raiseIllegalInstruction
      if !s.ignoreWfi && !s.hasLocalPendingEnabledInterrupts then synchronise : ControlM Unit)
      (fun _ => Q) F := by
  refine .bind .keepGet fun c => ?_
  have hillegal : Maintains P F (raiseIllegalInstruction : ControlM PUnit) := hraise
  have hwait : Triple P (if (!c.ignoreWfi && !c.hasLocalPendingEnabledInterrupts) = true
      then synchronise else pure PUnit.unit) (fun _ => Q) F :=
    .ite (fun _ => hsynchronise) fun _ => .pure hweaken
  have huser := Triple.ite (c := (c.uMode && c.csrs.hasSupervisorModeExtension) = true)
    (fun _ => Triple.bind hillegal fun _ => hwait) fun _ => hwait
  exact .ite (fun _ => .bind hillegal fun _ => huser) fun _ => huser

namespace Framed

variable (h : Framed A B E)
include h

theorem note (event : Event) : Maintains A E (interface (Interface.note event)) :=
  fun s hs => h.log s _ hs

theorem getValue (value : ConcolicValue w) : Maintains A E (getValue value) :=
  fun s hs => h.log s _ hs

theorem checks {Q : Control → α → Prop} {x : ControlM α} (hx : ∀ c, Checks (Q c) x c) :
    Maintains A E (control x) := by
  intro s hs
  obtain ⟨a, ha, _⟩ | hx := hx s.toControl
  · rw [control_ok ha]
    exact hs
  · rw [control_error hx]
    exact h.illegal s hs

theorem requireIsa (ext : BitVec 32) : Maintains A E (control (requireIsa ext)) :=
  h.checks fun _ => checks_requireIsa ext

/-- The first write of a register, or a later one. -/
theorem writeRd (value : ConcolicValue w) : Triple A (writeRd value) (fun _ => B) E :=
  .bind .keepGet fun _ => triple_write _ _ h.weaken fun s v hs => h.assign s _ v (h.weaken s hs)

theorem rewriteRd (value : ConcolicValue w) : Maintains B E (Iss.writeRd value) :=
  .bind .keepGet fun _ => triple_write _ _ (fun _ hs => hs) fun s v hs => h.assign s _ v hs

theorem trackAndTraceBranch (cond : Bool) (expr : ConcolicValue 1) :
    Maintains B E (trackAndTraceBranch cond expr) :=
  triple_trackAndTraceBranch (fun s log hs => h.trace s cond log hs) expr

/-! ## Computations -/

theorem registerImmediate (f : ConcolicValue 32 → ConcolicValue 32 → ConcolicValue w) :
    Triple A (registerImmediate f) (fun _ => B) E :=
  .bind maintains_rs1 fun _ => .bind .keepGet fun _ => h.writeRd _

theorem registerRegister (f : ConcolicValue 32 → ConcolicValue 32 → ConcolicValue w) :
    Triple A (registerRegister f) (fun _ => B) E :=
  .bind maintains_rs1 fun _ => .bind maintains_rs2 fun _ => h.writeRd _

theorem shiftRegister (f : ConcolicValue 32 → ConcolicValue 32 → ConcolicValue 32) :
    Triple A (shiftRegister f) (fun _ => B) E :=
  .bind maintains_rs1 fun _ => .bind maintains_rs2 fun _ => h.writeRd _

theorem shiftImmediate (f : ConcolicValue 32 → ConcolicValue 32 → ConcolicValue 32) :
    Triple A (shiftImmediate f) (fun _ => B) E :=
  .bind maintains_rs1 fun _ => .bind .keepGet fun _ => h.writeRd _

theorem multiply (left right : ConcolicValue 32 → ConcolicValue 64) (offset : Nat)
    (hoffset : offset + 32 ≤ 64) : Triple A (multiply left right offset hoffset) (fun _ => B) E :=
  .bind (h.requireIsa _) fun _ => .bind maintains_rs1 fun _ =>
    .bind maintains_rs2 fun _ => h.writeRd _

/-- A division; what is done for a zero divisor gets the dividend. -/
theorem divide {whenZero : RegValue → IssM Unit}
    (hzero : ∀ x, Triple (fun s => A s ∧ x = s.regs s.instr.rs1) (whenZero x) (fun _ => B) E)
    (otherwise : ConcolicValue 32 → ConcolicValue 32 → ConcolicValue 32) :
    Triple A (divide whenZero otherwise) (fun _ => B) E := by
  refine .bind (h.requireIsa _) fun _ => ?_
  refine .bind (Q := fun x s => A s ∧ x = s.regs s.instr.rs1) (fun s hs => ⟨hs, rfl⟩) fun x => ?_
  refine .bind (Q := fun _ s => A s ∧ x = s.regs s.instr.rs1) (fun s hs => hs) fun y => ?_
  refine .bind (Q := fun _ => B) ?_ fun _ => h.trackAndTraceBranch _ _
  exact .ite (fun _ => hzero x) fun _ => (h.writeRd _).pre fun _ hs => hs.1

theorem writeAllOnes (x : RegValue) :
    Triple (fun s => A s ∧ x = s.regs s.instr.rs1) (writeAllOnes x) (fun _ => B) E :=
  (h.writeRd _).pre fun _ hs => hs.1

theorem writeDividend (x : RegValue) :
    Triple (fun s => A s ∧ x = s.regs s.instr.rs1) (writeDividend x) (fun _ => B) E := by
  rintro s ⟨hs, rfl⟩
  exact h.copy s _ _ (h.weaken s hs)

/-- A computation reads its operands and then writes `rd`. -/
theorem execute {op : Mapping} (hop : op ∈ computations) :
    Triple A (execute op) (fun _ => B) E := by
  cases op with
  | ADDI | SLTI | SLTIU | XORI | ORI | ANDI => exact h.registerImmediate _
  | ADD | SUB | SLT | SLTU | XOR | OR | AND => exact h.registerRegister _
  | SLL | SRL | SRA => exact h.shiftRegister _
  | SLLI | SRLI | SRAI => exact h.shiftImmediate _
  | LUI | AUIPC => exact .bind .keepGet fun _ => h.writeRd _
  | MUL | MULH | MULHU | MULHSU => exact h.multiply _ _ _ _
  | DIV | DIVU =>
    rw [Iss.execute]
    exact h.divide h.writeAllOnes _
  | REM | REMU =>
    rw [Iss.execute]
    exact h.divide h.writeDividend _
  | _ => exact absurd hop (by decide)

end Framed

/-! ## Accesses to memory -/

namespace FramedAccess

variable {Q : Unit → Iss → Prop} (h : FramedAccess A B E)
include h

theorem trapCheckAddrAlignment (alignment : Nat) (isLoad : Bool) (addr : ConcolicValue 32) :
    Maintains A E (trapCheckAddrAlignment alignment isLoad addr) :=
  .bind (h.getValue _) fun _ =>
    .ite (fun _ => .throw fun s hs => h.misaligned s isLoad _ hs) fun _ =>
    .keepPure

/-- The alignment may be checked before the access. -/
theorem load {f : Transact → CoreView → ConcolicValue 32 → MemM Concolic}
    (hf : ∀ addr, Maintains A E (memory fun transact view => f transact view addr))
    (alignment : Nat) :
    Triple A (load f alignment) (fun _ => B) E := by
  refine .bind .keepGet fun s => .bind maintains_rs1 fun addr => ?_
  have hload : Triple A (do
      let data ← memory fun transact view => f transact view (addr.value.add (I_IMM s.instr))
      Iss.writeRd data.value) (fun _ => B) E :=
    .bind (hf _) fun _ => h.writeRd _
  exact .ite (fun _ => .bind (h.trapCheckAddrAlignment _ _ _) fun _ => hload) fun _ => hload

theorem store {f : Transact → CoreView → ConcolicValue 32 → ConcolicValue 32 → MemM Unit}
    (hf : ∀ addr value,
      Triple A (memory fun transact view => f transact view addr value) (fun _ => B) E)
    (alignment : Nat) : Triple A (store f alignment) (fun _ => B) E := by
  refine .bind .keepGet fun s => .bind maintains_rs1 fun addr => ?_
  have hstore : Triple A (do
      let value := (← rs2).value
      memory fun transact view => f transact view (addr.value.add (S_IMM s.instr)) value)
      (fun _ => B) E :=
    .bind maintains_rs2 fun _ => hf _ _
  exact .ite (fun _ => .bind (h.trapCheckAddrAlignment _ _ _) fun _ => hstore) fun _ => hstore

/-- The checks of an atomic operation. -/
theorem atomic {isLoad : Bool} {k : RegValue → IssM Unit} (hk : ∀ addr, Triple A (k addr) Q E) :
    Triple A (do
      control (requireIsa CsrTable.A_ISA_EXT)
      let addr ← rs1
      Iss.trapCheckAddrAlignment 4 isLoad addr.value
      k addr) Q E :=
  .bind (h.requireIsa _) fun _ => .bind maintains_rs1 fun addr =>
    .bind (h.trapCheckAddrAlignment _ _ _) fun _ => hk addr

/-- A load fault is thrown again as a store fault, hence `hfault`. -/
theorem executeAmo
    (hfault : ∀ s mtval, E (.trap .EXC_LOAD_ACCESS_FAULT mtval) s →
      E (.trap .EXC_STORE_AMO_ACCESS_FAULT mtval) s)
    (hload : ∀ addr, Maintains A E (memory fun transact view => atomicLoadWord transact view addr))
    (hstore : ∀ addr value, Triple A (memory fun transact view =>
      atomicStoreWord transact view addr value) Q E)
    (hwrite : ∀ value : ConcolicValue 32, Triple (Q ()) (Iss.writeRd value) Q E)
    (f : ConcolicValue 32 → ConcolicValue 32 → ConcolicValue 32) :
    Triple A (executeAmo f) Q E := by
  refine h.atomic fun _ => .bind (hload _).attempt fun result => ?_
  cases result with
  | ok data =>
    exact .bind maintains_rs2 fun _ => .bind (hstore _ _) fun _ => hwrite _
  | error e =>
    cases e with
    | trap reason mtval =>
      cases reason with
      | EXC_LOAD_ACCESS_FAULT => exact .throw fun s => hfault s mtval
      | _ => exact .throw fun _ hs => hs
    | _ => exact .throw fun _ hs => hs

section

variable (hcounter : ∀ s counter, B s → B { s with lrScCounter := counter })
include hcounter

/-- The counter starts only after the load has returned. -/
theorem lrW (hload : ∀ object addr, Maintains A E (memory fun transact view =>
    atomicLoadReservedWord transact view object addr)) : Triple A lrW (fun _ => B) E :=
  h.atomic fun _ => .bind (hload _ _) fun _ => .bind (h.writeRd _) fun _ => .modify fun s hs => by
    dsimp only
    split
    · exact hcounter s 17 hs
    · exact hs

/-- `rd` is written before the store too, so the store starts from `B`. -/
theorem scW (hstore : ∀ object addr value, Maintains B E (memory fun transact view =>
    atomicStoreConditionalWord transact view object addr value)) : Triple A scW (fun _ => B) E :=
  h.atomic fun _ => .bind maintains_rs2 fun _ => .bind (h.writeRd _) fun _ =>
    .bind (hstore _ _ _) fun _ => .bind (h.rewriteRd _) fun _ => .modify fun s hs => hcounter s 0 hs

end

end FramedAccess

end Iss

end SpsVp.Rv32
