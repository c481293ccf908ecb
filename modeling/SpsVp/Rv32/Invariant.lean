import SpsVp.Lib.Machine
import SpsVp.Rv32.Turn

/-!
# Invariants of the core

The rule for invariants of the control state over whole runs. `Inductive` lists what such an
invariant has to survive: what changes by itself, a new program counter, a write to a control and
status register, the return from a trap handler, and the entry into one. A run starts after reset,
and the interrupt lines, the targets of the bus and the host do what they like meanwhile.

The alignment of the program counter, the privilege modes and the enabled interrupts are instances.
-/

namespace SpsVp.Rv32

open Lib Clover Klee Platform Control

namespace Control

/-- The registers that change without an instruction that writes them: the pending interrupts, the
counters, and what a trap reports. -/
def volatile : List Csr :=
  [.mip, .time, .timeh, .cycle, .cycleh, .instret, .instreth, .mcause, .mtval, .scause, .stval,
    .ucause, .utval]

/-- Two states agree on what an invariant may be about. -/
structure Agrees (c c' : Control) : Prop where
  pc : c'.pc = c.pc
  prv : c'.prv = c.prv
  csrs : ∀ csr ∉ volatile, c'.csrs csr = c.csrs csr

variable {c c' : Control}

theorem Agrees.trans {c'' : Control} (h : Agrees c c') (h' : Agrees c' c'') : Agrees c c'' :=
  ⟨h'.pc.trans h.pc, h'.prv.trans h.prv, fun csr hcsr => (h'.csrs csr hcsr).trans (h.csrs csr hcsr)⟩

theorem Drifts.agrees (h : Drifts c c') : Agrees c c' :=
  ⟨h.pc, h.prv, fun csr hcsr => h.csrs fun hmip => hcsr (hmip ▸ by decide)⟩

theorem Reads.agrees (h : Reads c c') : Agrees c c' := by
  have hcounters : ∀ csr ∈ counterRegisters, csr ∈ volatile := by decide
  exact ⟨by rw [h.same], by rw [h.same], fun csr hcsr =>
    h.csrs csr fun hcounter => hcsr (hcounters csr hcounter)⟩

theorem Agrees.hasCExtension (h : Agrees c c') : c'.csrs.hasCExtension = c.csrs.hasCExtension := by
  rw [CsrTable.hasCExtension, CsrTable.hasExtension, h.csrs .misa (by decide)]
  rfl

/-- An address that an instruction may have. -/
def AlignedPc (t : CsrTable) (pc : BitVec 32) : Prop :=
  pc.toNat % 2 = 0 ∧ (t.hasCExtension = false → pc.toNat % 4 = 0)

/-- A predicate that everything keeps that happens to the control state of a core, as far as the
writes to control and status registers are allowed ones. -/
structure Inductive (allowed : BitVec 12 → BitVec 32 → Prop) (I : Control → Prop) : Prop where
  agrees : ∀ {c c'}, Agrees c c' → I c → I c'
  setPc : ∀ {c target}, AlignedPc c.csrs target → I c → I { c with pc := target }
  write : ∀ {c addr value t}, csrPrv addr ≤ c.prv → allowed addr value → Writes c addr value t →
    I c → I { c with csrs := t }
  mret : ∀ {c}, I c → I (Effect.final (returnFromTrapHandler c))
  enter : ∀ {c mode}, mode ≠ 2#2 → I c → I (c.enter mode)

end Control

namespace Iss

open Control (Agrees AlignedPc Inductive)

variable {s₀ s s' d e : Iss} {word : Instruction} {allowed : BitVec 12 → BitVec 32 → Prop}
  {I : Control → Prop}

/-! ## Turns -/

/-- The instruction after one that is legal is aligned as well. -/
theorem Prepared.alignedPc (h : Prepared s₀ word d) (hop : d.op ≠ .UNDEF) :
    AlignedPc s₀.csrs (s₀.pc + Specification.length word.data) := by
  obtain ⟨heven, hfour⟩ := (aligned_iff _ _).mp h.aligned
  by_cases hcompressed : word.isCompressed = true
  · have hC := (h.extension hcompressed).resolve_left hop
    rw [Instruction.length_of_isCompressed hcompressed]
    refine ⟨?_, fun h => absurd (hC.symm.trans h) (by decide)⟩
    rw [BitVec.toNat_add, show (2 : BitVec 32).toNat = 2 from rfl]
    omega
  · rw [Instruction.length_of_not_isCompressed hcompressed]
    refine ⟨?_, fun h => ?_⟩
    · rw [BitVec.toNat_add, show (4 : BitVec 32).toNat = 4 from rfl]
      omega
    · have := hfour h
      rw [BitVec.toNat_add, show (4 : BitVec 32).toNat = 4 from rfl]
      omega

/-- The writes to control and status registers in a turn are allowed ones. -/
def Obeys (allowed : BitVec 12 → BitVec 32 → Prop) (s : Iss) : Prop :=
  ∀ d value, prepare s.begun = .ok () d → d.op ∈ csrInstructions → Operand d d.op value →
    csrPrv d.instr.csr ≤ d.prv → allowed d.instr.csr value

variable (hI : Inductive allowed I)
include hI

theorem Executed.keeps {op : Mapping} (h : Executed d op e) (hd : I d.toControl)
    (hallowed : ∀ value, op ∈ csrInstructions → Operand d op value →
      csrPrv d.instr.csr ≤ d.prv → allowed d.instr.csr value) : I e.toControl := by
  cases h with
  | idle h => exact hI.agrees h.drifts.agrees hd
  | jump target hop heven haligned h =>
    exact hI.agrees h.drifts.agrees (hI.setPc ⟨heven, haligned⟩ hd)
  | csr hop hprv hread hvalue hwrite hcontrol hmmu =>
    rw [hcontrol]
    exact hI.write (hread.agrees.prv ▸ hprv) (hallowed _ hop hvalue hprv) hwrite
      (hI.agrees hread.agrees hd)
  | mret hop hcontrol hmmu => exact hcontrol ▸ hI.mret hd

theorem Completed.keeps (h : Completed s.begun e word d) (hs : I s.toControl)
    (hallowed : Obeys allowed s) : I e.toControl := by
  refine h.executed.keeps hI ?_ fun value => hallowed d value h.prepare
  have hnext := hI.setPc (c := s.toControl) (h.prepared.alignedPc h.legal) hs
  have hbegun : Agrees { s.toControl with pc := s.pc + Specification.length word.data }
      { s.begun.toControl with
        instr := d.instr, op := d.op, pc := s.pc + Specification.length word.data } :=
    ⟨rfl, rfl, fun _ _ => rfl⟩
  exact hI.agrees (hbegun.trans h.prepared.calm.drifts.agrees) hnext

theorem Enters.keeps {mode : PrivilegeLevel} (hmode : mode ≠ 2#2) (h : Enters s₀ mode s)
    (hs : I s₀.toControl) : I s.toControl := by
  obtain ⟨t, ht, hcontrol, _⟩ := h
  rw [hcontrol]
  exact hI.enter hmode (hI.agrees ht.drifts.agrees hs)

omit hI in
theorem agrees_set_cause (c : Control) (mode : PrivilegeLevel) (value : BitVec 32) :
    Agrees c { c with csrs := c.csrs.set (causeRegister mode) value } := by
  refine ⟨rfl, rfl, fun csr hcsr => CsrTable.set_of_ne (fun h => hcsr ?_) _ _⟩
  rw [h, causeRegister]
  split_ifs <;> decide

omit hI in
/-- A trap is taken at the instruction that the turn started with. -/
theorem agrees_trapped (h : Settles s.begun e) (mode : PrivilegeLevel) (reason : ExceptionCode)
    (mtval : BitVec 64) : Agrees s.toControl (e.toControl.trapped mode reason mtval) := by
  obtain ⟨pc, instr, op, hcalm⟩ := h
  refine ⟨hcalm.drifts.lastPc, hcalm.drifts.prv, fun csr hcsr => ?_⟩
  have htval : csr ≠ tvalRegister mode := by
    rintro rfl
    revert hcsr
    rw [tvalRegister]
    split_ifs <;> decide
  have hset : (e.toControl.trapped mode reason mtval).csrs csr =
      (e.csrs.set (causeRegister mode) (causeOf false reason)) csr :=
    CsrTable.set_of_ne htval _ _
  rw [hset]
  exact ((agrees_set_cause e.toControl mode _).csrs csr hcsr).trans
    (hcalm.drifts.agrees.csrs csr hcsr)

theorem Ends.keeps (h : Ends s.begun e) (hs : I s.toControl) (hallowed : Obeys allowed s) :
    I e.toControl := by
  cases h with
  | completed h hpending => exact h.keeps hI hs hallowed
  | interrupted h hpending hcause hs' =>
    exact hs'.keeps hI (computePendingInterrupts_mode hpending)
      (hI.agrees (agrees_set_cause _ _ _) (h.keeps hI hs hallowed))
  | trapped h hmode hs' =>
    exact hs'.keeps hI (trapMode_ne hmode) (hI.agrees (agrees_trapped h _ _ _) hs)

omit hI in
theorem Retires.agrees (h : Retires s s') : Agrees s.toControl s'.toControl := by
  obtain ⟨c, hcounts, hcalm⟩ := h
  have hcounters : ∀ csr ∈ [Csr.instret, .instreth], csr ∈ volatile := by decide
  have hagrees : Agrees s.toControl c :=
    ⟨by rw [hcounts.same], by rw [hcounts.same], fun csr hcsr =>
      hcounts.csrs csr fun hcounter => hcsr (hcounters csr hcounter)⟩
  exact hagrees.trans hcalm.drifts.agrees

theorem Turn.keeps (h : Turn s s') (hs : I s.toControl) (hallowed : Obeys allowed s) :
    I s'.toControl := by
  cases h with
  | breakpoint h => exact hI.agrees h.drifts.agrees hs
  | step hends hretires => exact hI.agrees hretires.agrees (hends.keeps hI hs hallowed)

/-! ## Runs -/

/-- `run_step` as a step of a machine, which ends where nothing catches an exception. -/
def step (s : Iss) : Option Iss :=
  match runStep s with
  | .ok _ s' => some s'
  | .error _ _ => none

/-- A core after reset, with any instruction set, program, memory map and platform. -/
structure Reset (s : Iss) : Prop where
  prv : s.prv = MachineMode
  csrs : ∀ csr, csr ≠ .misa → csr ≠ .mhartid → s.csrs csr = 0#32

omit hI in
theorem runStep_of_step (h : step s = some s') : runStep s = .ok () s' := by
  unfold step at h
  cases hrun : runStep s with
  | ok _ t =>
    rw [hrun] at h
    cases h
    rfl
  | error e t =>
    rw [hrun] at h
    cases h

omit hI in
theorem turn_of_step (h : step s = some s') : Turn s s' :=
  triple_runStep.of_ok rfl (runStep_of_step h)

/-- An invariant holds after a run whose writes to control and status registers are allowed. -/
theorem keeps_run {n : Nat} (hs : I s.toControl) (hrun : runSteps step n s = some s')
    (hallowed : ∀ m u, m < n → runSteps step m s = some u → Obeys allowed u) : I s'.toControl := by
  induction n generalizing s with
  | zero =>
    cases hrun
    exact hs
  | succ n ih =>
    simp only [runSteps, Option.bind_eq_bind, Option.bind_eq_some_iff] at hrun
    obtain ⟨mid, hmid, hrun⟩ := hrun
    have hmid' : I mid.toControl :=
      (turn_of_step hmid).keeps hI hs (hallowed 0 s (Nat.succ_pos n) rfl)
    refine ih hmid' hrun fun m u hm hu => hallowed (m + 1) u (Nat.succ_lt_succ hm) ?_
    rw [runSteps, hmid]
    exact hu

omit hI in
/-- An invariant that every write keeps holds in every reachable state. -/
theorem keeps_reachable {initial : Iss → Prop} (hI : Inductive (fun _ _ => True) I)
    (hinitial : ∀ s, initial s → I s.toControl) (hs : Reachable initial step s) :
    I s.toControl :=
  hs.invariant (P := fun s => I s.toControl) hinitial fun _ _ _ h hstep =>
    (turn_of_step hstep).keeps hI h fun _ _ _ _ _ _ => trivial

end Iss

end SpsVp.Rv32
