import SpsVp.Rv32.Invariant

/-!
# What holds in every reachable state

The instances of the rule for invariants. The program counter is aligned, so the two assertions
about it cannot fail. The interrupts that are enabled are ones that the core knows. The privilege
modes are legal as long as the program does not write the reserved one to `mstatus.mpp`, which the
mask of `mstatus` does not prevent.
-/

namespace SpsVp.Rv32

open Lib Clover Klee Platform Control CsrTable BitVec

namespace Control

/-! ## Trap handlers -/

variable {c : Control} {mode : PrivilegeLevel}

theorem enter_machine (c : Control) : c.enter MachineMode =
    let csrs := (((c.csrs.set .mepc c.pc).setField .mstatus 7
      (BitVec.ofBool (c.csrs.bit .mstatus 3))).setField .mstatus 3 0#1).setField .mstatus 11 c.prv
    { c with prv := MachineMode, csrs, pc := handlerAddress csrs .mtvec .mcause } :=
  rfl

theorem enter_supervisor (c : Control) : c.enter SupervisorMode =
    let csrs := (((c.csrs.set .sepc c.pc).setField .mstatus 5
      (BitVec.ofBool (c.csrs.bit .mstatus 1))).setField .mstatus 1 0#1).setField .mstatus 8
      (c.prv.setWidth 1)
    { c with prv := SupervisorMode, csrs, pc := handlerAddress csrs .stvec .scause } :=
  rfl

theorem enter_user (c : Control) : c.enter UserMode =
    let csrs := ((c.csrs.set .uepc c.pc).setField .mstatus 4
      (BitVec.ofBool (c.csrs.bit .mstatus 0))).setField .mstatus 0 0#1
    { c with prv := UserMode, csrs, pc := handlerAddress csrs .utvec .ucause } :=
  rfl

theorem enter_prv (h : mode ≠ 2#2) : (c.enter mode).prv = mode := by
  obtain rfl | rfl | rfl := mode_cases h <;> rfl

/-- The entry into a trap handler writes `mstatus` and the address of the trap. -/
theorem enter_csrs_of_ne (h : mode ≠ 2#2) {csr : Csr} (hstatus : csr ≠ .mstatus)
    (hepc : csr ≠ epcRegister mode) : (c.enter mode).csrs csr = c.csrs csr := by
  obtain rfl | rfl | rfl := mode_cases h
  · rw [enter_machine]
    simp only [setField_of_ne hstatus]
    exact set_of_ne hepc _ _
  · rw [enter_supervisor]
    simp only [setField_of_ne hstatus]
    exact set_of_ne hepc _ _
  · rw [enter_user]
    simp only [setField_of_ne hstatus]
    exact set_of_ne hepc _ _

theorem enter_epc (h : mode ≠ 2#2) : (c.enter mode).csrs (epcRegister mode) = c.pc := by
  obtain rfl | rfl | rfl := mode_cases h
  · rw [enter_machine, show epcRegister MachineMode = .mepc from rfl]
    simp [setField_of_ne]
  · rw [enter_supervisor, show epcRegister SupervisorMode = .sepc from rfl]
    simp [setField_of_ne]
  · rw [enter_user, show epcRegister UserMode = .uepc from rfl]
    simp [setField_of_ne]

/-- Every trap handler is at a multiple of four. -/
theorem handlerAddress_aligned (t : CsrTable) (vector cause : Csr) :
    (handlerAddress t vector cause).toNat % 4 = 0 := by
  have hbase : (t.getBaseAddress vector).toNat % 4 = 0 := by
    rw [CsrTable.getBaseAddress, toNat_append]
    simp only [toNat_ofNat, Nat.zero_mod, Nat.or_zero, Nat.shiftLeft_eq]
    omega
  rw [handlerAddress, toNat_add]
  split
  · rw [toNat_mul, show (4#32).toNat = 4 from rfl]
    omega
  · rw [show (0#32).toNat = 0 from rfl]
    omega

theorem enter_pc_aligned (h : mode ≠ 2#2) : (c.enter mode).pc.toNat % 4 = 0 := by
  obtain rfl | rfl | rfl := mode_cases h
  all_goals exact handlerAddress_aligned _ _ _

/-- The state after the return from a trap handler. -/
def returned (c : Control) : Control := Effect.final (returnFromTrapHandler c)

theorem returned_csrs_of_ne {csr : Csr} (h : csr ≠ .mstatus) :
    c.returned.csrs csr = c.csrs csr := by
  change ((((c.csrs.setField _ _ _).setField _ _ _).setField _ _ _) csr) = _
  rw [setField_of_ne h, setField_of_ne h, setField_of_ne h]

/-! ## Writes -/

variable {addr : BitVec 12} {value : BitVec 32} {t : CsrTable}

/-- `misa` cannot be written. -/
theorem Writes.misa (h : Writes c addr value t) : t .misa = c.csrs .misa := by
  have hrows : ∀ row ∈ writtenRegisters, row.2.1 ≠ .misa := by decide
  obtain h | ⟨mask, hrow, _⟩ | ⟨hrow, _⟩ | hcsr | hcsr := h.register .misa
  · exact h
  · exact absurd rfl (hrows _ hrow)
  · simp [epcRegisters] at hrow
  · cases hcsr
  · cases hcsr

theorem Writes.hasCExtension (h : Writes c addr value t) :
    t.hasCExtension = c.csrs.hasCExtension := by
  rw [CsrTable.hasCExtension, CsrTable.hasExtension, h.misa]
  rfl

/-- `mepc` is written under the mask of aligned addresses. -/
theorem Writes.mepc (h : Writes c addr value t) : t .mepc = c.csrs .mepc ∨
    t .mepc = (c.csrs .mepc &&& ~~~c.pcAlignmentMask) ||| (value &&& c.pcAlignmentMask) := by
  have hrows : ∀ row ∈ writtenRegisters, row.2.1 ≠ .mepc := by decide
  obtain h | ⟨mask, hrow, _⟩ | ⟨_, h⟩ | hcsr | hcsr := h.register .mepc
  · exact .inl h
  · exact absurd rfl (hrows _ hrow)
  · exact .inr (h.trans (setMasked_same ..))
  · cases hcsr
  · cases hcsr

/-- The interrupts that are enabled are those of the mask. -/
theorem Writes.mie (h : Writes c addr value t) : t .mie = c.csrs .mie ∨
    ∃ mask, mask &&& ~~~MIE_MASK = 0#32 ∧
      t .mie = (c.csrs .mie &&& ~~~mask) ||| (value &&& mask) := by
  have hrows : ∀ row ∈ writtenRegisters, row.2.1 = .mie → row.2.2 &&& ~~~MIE_MASK = 0#32 := by
    decide
  obtain h | ⟨mask, hrow, h⟩ | ⟨hrow, _⟩ | hcsr | hcsr := h.register .mie
  · exact .inl h
  · exact .inr ⟨mask, hrows _ hrow rfl, h.trans (setMasked_same ..)⟩
  · simp [epcRegisters] at hrow
  · cases hcsr
  · cases hcsr

/-- Of the views of `mstatus` only the one of machine mode has the field `mpp`. -/
theorem Writes.mpp (h : Writes c addr value t) : t.mpp = c.csrs.mpp ∨
    addr = MSTATUS_ADDR ∧ t.mpp = value.extractLsb' 11 2 := by
  have hrows : ∀ row ∈ writtenRegisters, row.2.1 = .mstatus →
      (row.2.2.extractLsb' 11 2 = 0#2 ∨
        row.1 = MSTATUS_ADDR ∧ row.2.2.extractLsb' 11 2 = BitVec.allOnes 2) := by
    decide
  obtain h | ⟨mask, hrow, h⟩ | ⟨hrow, _⟩ | hcsr | hcsr := h.register .mstatus
  · exact .inl (by rw [CsrTable.mpp, h, CsrTable.mpp])
  · rw [CsrTable.mpp, h, setMasked_same, extractLsb'_or, extractLsb'_and,
      extractLsb'_and, extractLsb'_not_of_lt (by decide)]
    obtain hmask | ⟨haddr, hmask⟩ := hrows _ hrow rfl
    · left
      rw [hmask, show ~~~(0#2) = BitVec.allOnes 2 from rfl, and_allOnes, and_zero,
        or_zero, CsrTable.mpp]
    · refine .inr ⟨haddr, ?_⟩
      rw [hmask, not_allOnes, and_zero, and_allOnes, zero_or]
  · simp [epcRegisters] at hrow
  · cases hcsr
  · cases hcsr

/-! ## Alignment -/

/-- The program counter and the address that `MRET` returns to are aligned. -/
def Aligned (c : Control) : Prop := AlignedPc c.csrs c.pc ∧ AlignedPc c.csrs (c.csrs .mepc)

variable {pc : BitVec 32}

theorem alignedPc_iff :
    AlignedPc c.csrs pc ↔ pc &&& ~~~c.pcAlignmentMask = 0#32 :=
  (Iss.aligned_iff c pc).symm

theorem and_or_and_not (x value mask : BitVec 32) :
    ((x &&& ~~~mask) ||| (value &&& mask)) &&& ~~~mask = x &&& ~~~mask := by
  apply eq_of_getLsbD_eq
  intro i hi
  simp only [getLsbD_and, getLsbD_or, getLsbD_not]
  cases mask.getLsbD i <;> simp

theorem AlignedPc.of_misa {t' : CsrTable} (h : AlignedPc t pc)
    (hmisa : t'.hasCExtension = t.hasCExtension) : AlignedPc t' pc :=
  ⟨h.1, hmisa ▸ h.2⟩

theorem AlignedPc.of_four (h : pc.toNat % 4 = 0) : AlignedPc t pc :=
  ⟨by omega, fun _ => h⟩

theorem inductive_aligned : Inductive (fun _ _ => True) Aligned where
  agrees := by
    rintro c c' h ⟨hpc, hmepc⟩
    unfold Aligned
    rw [h.pc, h.csrs .mepc (by decide)]
    exact ⟨hpc.of_misa h.hasCExtension, hmepc.of_misa h.hasCExtension⟩
  setPc := fun hpc h => ⟨hpc, h.2⟩
  write := by
    rintro c addr value t - - h ⟨hpc, hmepc⟩
    refine ⟨hpc.of_misa h.hasCExtension, ?_⟩
    refine AlignedPc.of_misa (t := c.csrs) ?_ h.hasCExtension
    change AlignedPc c.csrs (t .mepc)
    obtain heq | heq := h.mepc
    · rw [heq]
      exact hmepc
    · rw [heq, alignedPc_iff, and_or_and_not]
      exact alignedPc_iff.mp hmepc
  mret := by
    rintro c ⟨-, hmepc⟩
    have hC : c.returned.csrs.hasCExtension = c.csrs.hasCExtension := by
      rw [CsrTable.hasCExtension, CsrTable.hasExtension, returned_csrs_of_ne (by decide)]
      rfl
    refine ⟨AlignedPc.of_misa hmepc hC, AlignedPc.of_misa ?_ hC⟩
    change AlignedPc c.csrs (c.returned.csrs .mepc)
    rw [returned_csrs_of_ne (by decide)]
    exact hmepc
  enter := by
    rintro c mode hmode ⟨hpc, hmepc⟩
    have hne : ∀ csr ∈ [Csr.mepc, .sepc, .uepc], Csr.misa ≠ csr := by decide
    have hC : (c.enter mode).csrs.hasCExtension = c.csrs.hasCExtension := by
      rw [CsrTable.hasCExtension, CsrTable.hasExtension,
        enter_csrs_of_ne hmode (by decide) (hne _ (by unfold epcRegister; split_ifs <;> decide))]
      rfl
    refine ⟨.of_four (enter_pc_aligned hmode), AlignedPc.of_misa ?_ hC⟩
    by_cases hepc : Csr.mepc = epcRegister mode
    · rw [hepc, enter_epc hmode]
      exact hpc
    · rw [enter_csrs_of_ne hmode (by decide) hepc]
      exact hmepc

end Control

namespace Iss

open Control (AlignedPc)

variable {s d : Iss} {word : Instruction}

/-- What `run_step` throws, it throws in `exec_step` or in the parts around it. -/
theorem turnThrows_of_runStep {e : Exception} {t : Iss} (h : runStep s = .error e t) :
    TurnThrows s.begun e ∨ e = .abort .zeroRegister :=
  (triple_runStep.of_error rfl h).imp_right And.left

theorem Prepared.lastPc (h : Prepared s word d) : d.lastPc = s.lastPc := h.calm.drifts.lastPc

/-- The assertions about alignment hold at an aligned program counter. -/
theorem StepThrows.ne_of_aligned {e : Exception} (h : StepThrows s e) (hpc : AlignedPc s.csrs s.pc)
    (hlast : s.lastPc = s.pc) : e ≠ .abort .misalignedInstruction ∧ e ≠ .abort .oddTarget := by
  have hdisturbs : ∀ {s : Iss} {e : Exception}, Disturbs s e →
      e ≠ .abort .misalignedInstruction ∧ e ≠ .abort .oddTarget := by
    rintro s e (_ | _ | h | _ | _)
    · exact ⟨nofun, nofun⟩
    · exact ⟨nofun, nofun⟩
    · constructor <;> (rintro ⟨⟩; revert h; decide)
    · exact ⟨nofun, nofun⟩
    · exact ⟨nofun, nofun⟩
  cases h with
  | disturbs h => exact hdisturbs h
  | misalignedInstruction h => exact absurd (alignedPc_iff.mp hpc) h
  | coverage h => exact ⟨nofun, nofun⟩
  | execute hrun hd h =>
    cases h with
    | disturbs h => exact hdisturbs h
    | oddTarget h => exact absurd (hd.lastPc.trans hlast ▸ hpc.1) h
    | _ => exact ⟨nofun, nofun⟩

/-- From an aligned entry point the program counter is aligned at every instruction, whatever the
program writes to the registers for traps, and neither assertion about it can fail. -/
theorem pc_always_aligned
    (hs : Reachable (fun s => Reset s ∧ AlignedPc s.csrs s.pc) step s) :
    AlignedPc s.csrs s.pc ∧ ∀ e t, runStep s = .error e t →
      e ≠ .abort .misalignedInstruction ∧ e ≠ .abort .oddTarget := by
  have haligned : s.toControl.Aligned := by
    refine keeps_reachable inductive_aligned (fun s hs => ⟨hs.2, ?_⟩) hs
    rw [hs.1.csrs .mepc (by decide) (by decide)]
    exact .of_four rfl
  refine ⟨haligned.1, fun e t h => ?_⟩
  obtain h | rfl := turnThrows_of_runStep h
  · cases h with
    | step h => exact h.ne_of_aligned haligned.1 rfl
    | _ => exact ⟨nofun, nofun⟩
  · exact ⟨nofun, nofun⟩

theorem boot_reset (program : List (BitVec 32)) : Reset (boot program) := by
  refine ⟨rfl, fun csr hmisa hhart => ?_⟩
  change CsrTable.init 0#32 false csr = 0#32
  unfold CsrTable.init
  split
  · exact absurd rfl hhart
  · exact absurd rfl hmisa
  · rfl

/-- After a jump over an instruction. -/
theorem pc_always_aligned_jump : ∃ s, step (boot [0x0080006f#32]) = some s ∧ s.pc = 8#32 ∧
    AlignedPc s.csrs s.pc ∧ ∀ e t, runStep s = .error e t →
      e ≠ .abort .misalignedInstruction ∧ e ≠ .abort .oddTarget := by
  obtain ⟨s, hstep, hpc⟩ : ∃ s, step (boot [0x0080006f#32]) = some s ∧ s.pc = 8#32 :=
    ⟨_, rfl, rfl⟩
  exact ⟨s, hstep, hpc, pc_always_aligned (.step (.initial ⟨boot_reset _, .of_four rfl⟩) hstep)⟩

end Iss

/-! ## Privilege modes -/

namespace CsrTable

variable {w lo : Nat}

theorem mpp_congr {t t' : CsrTable} (h : t .mstatus = t' .mstatus) : t.mpp = t'.mpp := by
  rw [mpp, h, mpp]

theorem mpp_setField (t : CsrTable) (value : BitVec 2) :
    (t.setField .mstatus 11 value).mpp = value := by
  apply eq_of_getLsbD_eq
  intro i hi
  rw [mpp, getLsbD_extractLsb', getLsbD_setField (by decide), if_pos (by omega),
    decide_eq_true hi, Nat.add_sub_cancel_left, Bool.true_and]

theorem mpp_setField_of_disjoint (t : CsrTable) (value : BitVec w) (hlo : lo + w ≤ 32)
    (h : lo + w ≤ 11 ∨ 13 ≤ lo) : (t.setField .mstatus lo value).mpp = t.mpp := by
  apply eq_of_getLsbD_eq
  intro i hi
  rw [mpp, mpp, getLsbD_extractLsb', getLsbD_extractLsb', getLsbD_setField hlo,
    if_neg (by omega)]

end CsrTable

namespace Control

/-- The current privilege mode and the one that `MRET` returns to are legal. -/
def Modes (c : Control) : Prop := c.prv ≠ 2#2 ∧ c.csrs.mpp ≠ 2#2

/-- A write that does not put the reserved mode into `mstatus.mpp`. -/
def KeepsModes (addr : BitVec 12) (value : BitVec 32) : Prop :=
  addr = MSTATUS_ADDR → value.extractLsb' 11 2 ≠ 2#2

theorem returned_mpp (c : Control) : c.returned.csrs.mpp =
    if c.csrs.hasUserModeExtension then UserMode else MachineMode :=
  mpp_setField _ _

theorem enter_mpp (c : Control) {mode : PrivilegeLevel} (h : mode ≠ 2#2) :
    (c.enter mode).csrs.mpp = if mode = MachineMode then c.prv else c.csrs.mpp := by
  obtain rfl | rfl | rfl := mode_cases h
  · rw [if_pos rfl]
    exact mpp_setField _ _
  · rw [if_neg (by decide), enter_supervisor]
    simp (disch := decide) only [mpp_setField_of_disjoint]
    exact mpp_congr (set_of_ne (by decide) _ _)
  · rw [if_neg (by decide), enter_user]
    simp (disch := decide) only [mpp_setField_of_disjoint]
    exact mpp_congr (set_of_ne (by decide) _ _)

theorem inductive_modes : Inductive KeepsModes Modes where
  agrees := by
    rintro c c' h ⟨hprv, hmpp⟩
    unfold Modes
    rw [h.prv, mpp_congr (h.csrs .mstatus (by decide))]
    exact ⟨hprv, hmpp⟩
  setPc := fun _ h => h
  write := by
    rintro c addr value t - hallowed h ⟨hprv, hmpp⟩
    refine ⟨hprv, ?_⟩
    change t.mpp ≠ 2#2
    obtain heq | ⟨haddr, heq⟩ := h.mpp
    · rw [heq]
      exact hmpp
    · rw [heq]
      exact hallowed haddr
  mret := by
    rintro c ⟨-, hmpp⟩
    refine ⟨hmpp, ?_⟩
    change c.returned.csrs.mpp ≠ 2#2
    rw [returned_mpp]
    split <;> decide
  enter := by
    rintro c mode hmode ⟨hprv, hmpp⟩
    unfold Modes
    rw [enter_prv hmode, enter_mpp c hmode]
    refine ⟨hmode, ?_⟩
    split
    · exact hprv
    · exact hmpp

theorem Modes.legalModes {c : Control} (h : c.Modes) : Iss.LegalModes c := ⟨h.1, fun _ => h.2⟩

end Control

namespace Iss

variable {s d t : Iss} {word : Instruction} {n : Nat}

/-- The instruction of a turn writes the reserved privilege mode to `mstatus.mpp`. -/
def WritesReservedMode (s : Iss) : Prop :=
  ∃ d, prepare s.begun = .ok () d ∧ d.op ∈ csrInstructions ∧ d.prv = MachineMode ∧
    d.instr.csr = MSTATUS_ADDR ∧
    (csrOperand d d.op (d.csrs .mstatus &&& MSTATUS_MASK)).extractLsb' 11 2 = 2#2

theorem obeys_of_not_writesReservedMode (h : ¬ WritesReservedMode s) :
    Obeys KeepsModes s := by
  intro d value hrun hop hvalue hprv haddr hmpp
  rw [haddr] at hprv
  have hmachine : ∀ prv : PrivilegeLevel, csrPrv MSTATUS_ADDR ≤ prv → prv = MachineMode := by
    decide
  have hread : getCsrValue d.instr.csr d.toControl =
      .ok (d.csrs .mstatus &&& MSTATUS_MASK) d.toControl := by
    rw [haddr]
    rfl
  refine h ⟨d, hrun, hop, hmachine _ hprv, haddr, ?_⟩
  rw [← hvalue _ _ hread]
  exact hmpp

theorem LegalModes.of_drifts {c c' : Control} (h : LegalModes c) (hdrifts : Drifts c c') :
    LegalModes c' := by
  unfold LegalModes
  rw [hdrifts.prv, hdrifts.bit (by decide), mpp_congr (hdrifts.csrs (by decide))]
  exact h

/-- The exception about a privilege mode that no `case` handles. -/
def unknownMode (level : PrivilegeLevel) : Exception :=
  .runtimeError ("unknown privilege level " ++ toString level.toNat)

/-- An exception that has nothing to do with the privilege modes. -/
def ModeFree (e : Exception) : Prop := e ≠ .abort .privilegeMode ∧ ∀ level, e ≠ unknownMode level

theorem modeFree_runtimeError {what : String}
    (h : what ∈ ["unknown opcode", "some pending interrupt must be available here",
      "bad lexical cast: source type value could not be interpreted as target"]) :
    ModeFree (.runtimeError what) := by
  refine ⟨nofun, fun level heq => ?_⟩
  cases heq
  revert level
  decide

theorem Disturbs.modeFree {e : Exception} (h : Disturbs s e) (hmodes : LegalModes s.toControl) :
    ModeFree e := by
  cases h with
  | trap | hostError => exact ⟨nofun, nofun⟩
  | abort h =>
    refine ⟨?_, nofun⟩
    rintro ⟨⟩
    revert h
    decide
  | pageTableMemory => exact ⟨nofun, nofun⟩
  | privilegeMode h => exact absurd hmodes h

/-- In a legal mode `exec_step` gets along with the modes. -/
theorem StepThrows.modeFree {e : Exception} (h : StepThrows s e) (hmodes : LegalModes s.toControl) :
    ModeFree e := by
  cases h with
  | disturbs h => exact h.modeFree hmodes
  | misalignedInstruction | coverage => exact ⟨nofun, nofun⟩
  | @execute word d _ hrun hd h =>
    have hd' : LegalModes d.toControl :=
      LegalModes.of_drifts (c := { s.toControl with
        instr := d.instr, op := d.op, pc := s.pc + Specification.length word.data }) hmodes
        hd.calm.drifts
    cases h with
    | disturbs h => exact h.modeFree hd'
    | oddTarget h => exact ⟨nofun, nofun⟩
    | unknownPrivilegeLevel h => exact absurd h hd'.1
    | busLock h => exact ⟨nofun, nofun⟩
    | unknownOpcode h => exact modeFree_runtimeError (by decide)

/-- In every run after reset in which no instruction writes the reserved mode to `mstatus.mpp`, the
privilege modes are legal ones, and nothing is ever thrown about them. -/
theorem modes_legal_of_not_writesReservedMode (hs : Reset s) (hrun : runSteps step n s = some t)
    (hwrites : ∀ m u, m < n → runSteps step m s = some u → ¬ WritesReservedMode u) :
    (t.prv = MachineMode ∨ t.prv = SupervisorMode ∨ t.prv = UserMode) ∧
      (t.csrs.bit .mstatus 17 = true → t.csrs.mpp = MachineMode ∨ t.csrs.mpp = SupervisorMode ∨
        t.csrs.mpp = UserMode) ∧
      ∀ e u, runStep t = .error e u → e ≠ .abort .privilegeMode ∧
        ∀ level, e ≠ unknownMode level := by
  have hreset : s.toControl.Modes := by
    unfold Modes
    rw [hs.prv, CsrTable.mpp, hs.csrs .mstatus (by decide) (by decide)]
    decide
  have hmodes : t.toControl.Modes := keeps_run inductive_modes hreset hrun
    fun m u hm hu => obeys_of_not_writesReservedMode (hwrites m u hm hu)
  refine ⟨mode_cases hmodes.1, fun _ => mode_cases hmodes.2, fun e u h => ?_⟩
  obtain h | rfl := turnThrows_of_runStep h
  · cases h with
    | step h => exact h.modeFree hmodes.legalModes
    | interruptCause | badCast => exact modeFree_runtimeError (by decide)
    | privilegeMode hprv => exact absurd hprv hmodes.1
  · exact ⟨nofun, nofun⟩

/-- A return to user mode. -/
theorem modes_legal_mret : ∃ t, runSteps step 1 (boot [0x30200073#32]) = some t ∧
    (t.prv = MachineMode ∨ t.prv = SupervisorMode ∨ t.prv = UserMode) ∧
      (t.csrs.bit .mstatus 17 = true → t.csrs.mpp = MachineMode ∨ t.csrs.mpp = SupervisorMode ∨
        t.csrs.mpp = UserMode) ∧
      ∀ e u, runStep t = .error e u →
        e ≠ .abort .privilegeMode ∧ ∀ level, e ≠ unknownMode level := by
  obtain ⟨t, hrun⟩ : ∃ t, runSteps step 1 (boot [0x30200073#32]) = some t := ⟨_, rfl⟩
  obtain ⟨d, hd, hop⟩ : ∃ d, prepare (boot [0x30200073#32]).begun = .ok () d ∧ d.op = .MRET :=
    ⟨_, rfl, rfl⟩
  refine ⟨t, hrun, modes_legal_of_not_writesReservedMode (boot_reset _) hrun fun m u hm hu => ?_⟩
  rw [Nat.lt_one_iff.mp hm] at hu
  cases hu
  rintro ⟨d', hd', hcsr, _⟩
  cases hd.symm.trans hd'
  rw [hop] at hcsr
  revert hcsr
  decide

/-- A program that returns to the reserved mode and makes a call there. -/
def reservedMode : List (BitVec 32) :=
  [0x000010b7#32, 0x30009073#32, 0x01400113#32, 0x34111073#32, 0x30200073#32, 0x00000073#32]

theorem reservedMode_reachable : Reset (boot reservedMode) ∧
    ∃ t, runSteps step 5 (boot reservedMode) = some t ∧ t.prv = 2#2 ∧
      ∃ u, runStep t = .error (unknownMode 2#2) u := by
  have hrun : (runSteps step 5 (boot reservedMode)).map
      (fun t => (t.prv, Effect.thrown (runStep t))) = some (2#2, some (unknownMode 2#2)) := by
    decide +kernel
  obtain ⟨t, hrun, ht⟩ := Option.map_eq_some_iff.mp hrun
  obtain ⟨hprv, hthrown⟩ := Prod.mk.inj ht
  exact ⟨boot_reset _, t, hrun, hprv, Effect.eq_error_of_thrown hthrown⟩

end Iss

/-! ## Enabled interrupts -/

namespace Control

/-- The tables that masked writes to registers lead to, while the hardware changes every register
but `mie`. -/
inductive Written : CsrTable → Prop where
  | reset {t : CsrTable} (h : t .mie = 0#32) : Written t
  | write {c : Control} {addr : BitVec 12} {value : BitVec 32} {t : CsrTable} (h : Written c.csrs)
      (hwrite : Writes c addr value t) : Written t
  | hardware {t t' : CsrTable} (h : Written t) (hmie : t' .mie = t .mie) : Written t'

/-- Only interrupts that the core knows are ever enabled. -/
theorem Written.mie {t : CsrTable} (h : Written t) : t .mie &&& ~~~MIE_MASK = 0#32 := by
  induction h with
  | reset h => rw [h, zero_and]
  | @write c addr value t h hwrite ih =>
    obtain heq | ⟨mask, hmask, heq⟩ := hwrite.mie
    · rw [heq, ih]
    · apply eq_of_getLsbD_eq
      intro i hi
      have hold := congrArg (·.getLsbD i) ih
      have hrow := congrArg (·.getLsbD i) hmask
      rw [heq]
      simp only [getLsbD_and, getLsbD_or, getLsbD_not, getLsbD_zero]
        at hold hrow ⊢
      revert hold hrow
      cases (c.csrs .mie).getLsbD i <;> cases mask.getLsbD i <;> cases MIE_MASK.getLsbD i <;>
        simp [hi]
  | hardware h hmie ih => rw [hmie, ih]

theorem inductive_written : Inductive (fun _ _ => True) fun c => Written c.csrs where
  agrees := fun h hc => .hardware hc (h.csrs .mie (by decide))
  setPc := fun _ hc => hc
  write := fun _ _ h hc => .write hc h
  mret := fun hc => .hardware hc (returned_csrs_of_ne (by decide))
  enter := by
    intro c mode hmode hc
    refine .hardware hc (enter_csrs_of_ne hmode (by decide) ?_)
    unfold epcRegister
    split_ifs <;> decide

end Control

end SpsVp.Rv32
