import SpsVp.Rv32.Precise
import SpsVp.Rv32.Return

/-!
# The step that takes a trap

What `run_step` leaves of the state before an instruction that raises a trap. The entry into the
handler writes the registers of the trap and the interrupt stack in `mstatus`. Besides, the step
counts as an instruction, the interrupt lines may change, and a store conditional that faults has
written its result register.
-/

namespace SpsVp.Rv32

open Lib Effect Clover Klee Platform Control CsrTable

namespace Control

/-- The bits of `mstatus` that the entry into a trap handler of a mode writes. -/
def entryBits (mode : PrivilegeLevel) : List Nat :=
  if mode = MachineMode then [3, 7, 11, 12] else if mode = SupervisorMode then [1, 5, 8] else [0, 4]

theorem getLsbD_enter_of_notMem (c : Control) {mode : PrivilegeLevel} (hmode : mode ≠ 2#2) {i : Nat}
    (hi : i ∉ entryBits mode) :
    ((c.enter mode).csrs .mstatus).getLsbD i = (c.csrs .mstatus).getLsbD i := by
  obtain rfl | rfl | rfl := mode_cases hmode
  · have hi : i ∉ [3, 7, 11, 12] := hi
    simp only [List.mem_cons, List.not_mem_nil, or_false, not_or] at hi
    rw [getLsbD_enter_mstatus, if_neg (by omega), if_neg hi.1, if_neg hi.2.1]
  · have hi : i ∉ [1, 5, 8] := hi
    simp only [List.mem_cons, List.not_mem_nil, or_false, not_or] at hi
    rw [enter_supervisor]
    dsimp only
    rw [getLsbD_setField_one (by decide), if_neg hi.2.2,
      getLsbD_setField_one (by decide), if_neg hi.1,
      getLsbD_setField_one (by decide), if_neg hi.2.1, set_of_ne (by decide)]
  · have hi : i ∉ [0, 4] := hi
    simp only [List.mem_cons, List.not_mem_nil, or_false, not_or] at hi
    rw [enter_user]
    dsimp only
    rw [getLsbD_setField_one (by decide), if_neg hi.1,
      getLsbD_setField_one (by decide), if_neg hi.2, set_of_ne (by decide)]

/-- The pending interrupts have changed as the interrupt lines have. -/
def FollowsLines (c c' : Control) : Prop :=
  ∃ changes, c'.lines = c.lines ++ changes ∧ c'.csrs .mip = withLines changes (c.csrs .mip)

theorem FollowsLines.trans {c c' c'' : Control} (h : FollowsLines c c') (h' : FollowsLines c' c'') :
    FollowsLines c c'' := by
  obtain ⟨changes, hlines, hmip⟩ := h
  obtain ⟨changes', hlines', hmip'⟩ := h'
  refine ⟨changes ++ changes', ?_, ?_⟩
  · rw [hlines', hlines, List.append_assoc]
  · rw [hmip', hmip, withLines, withLines, withLines, List.foldl_append]

theorem followsLines_of_eq {c c' : Control} (hlines : c'.lines = c.lines)
    (hmip : c'.csrs .mip = c.csrs .mip) : FollowsLines c c' :=
  ⟨[], by rw [hlines, List.append_nil], hmip⟩

/-- The registers that the entry into a trap handler writes, the pending interrupts and the
counters. -/
def entryRegisters (mode : PrivilegeLevel) : List Csr :=
  [causeRegister mode, tvalRegister mode, epcRegister mode, .mstatus, .mip, .instret, .instreth]

end Control

namespace Iss

/-- What a step that raises a trap leaves of the state before it. `t` is the state in which the trap
is raised. -/
structure TrapsPrecisely (s t : Iss) (reason : ExceptionCode) (s' : Iss) : Prop where
  registers : ∀ i ≠ zero, s'.regs i = s.regs i ∨
    (i = t.instr.rd ∧ t.op = .SC_W ∧ reason ∈ memoryFaults)
  failed : t.op = .SC_W → reason ∈ memoryFaults → t.instr.rd ≠ zero →
    (s'.regs t.instr.rd).value = REG_ONE
  memory : ∃ table entries,
    Interface.Walks (Interface.rootTable s.view) s.io.bus s'.io.bus table entries ∧
    Interface.KeptBus entries s.io.bus s'.io.bus
  csrs : ∀ csr ∉ entryRegisters s'.prv, s'.csrs csr = s.csrs csr
  mstatus : ∀ i ∉ entryBits s'.prv, s'.csrs.bit .mstatus i = s.csrs.bit .mstatus i
  mip : FollowsLines s.toControl s'.toControl
  epc : s'.csrs (epcRegister s'.prv) = s.pc

/-- The registers but `zero` and the bus are given ones. -/
def Holds (regs : BitVec 5 → RegValue) (bus : SimpleBus) (s : Iss) : Prop :=
  (∀ i ≠ zero, s.regs i = regs i) ∧ s.io.bus = bus

variable {regs : BitVec 5 → RegValue} {bus : SimpleBus} {E : Exception → Iss → Prop}

theorem holds_control {α : Type} (x : ControlM α) (hE : ∀ e s, Holds regs bus s → E e s) :
    Maintains (Holds regs bus) E (control x) := by
  intro s hs
  rw [control, zoom]
  cases x s.toControl with
  | ok a c => exact hs
  | error e c => exact hE e _ hs

theorem holds_releaseLrScReservation :
    Maintains (Holds regs bus) E releaseLrScReservation :=
  .bind (Q := fun _ => Holds regs bus) (.modify fun _ h => h) fun _ =>
    .bind .keepGet fun _ => .modify fun _ h => h

theorem holds_switchToTrapHandler (mode : PrivilegeLevel) :
    Maintains (Holds regs bus) (fun _ => Holds regs bus) (switchToTrapHandler mode) :=
  .bind holds_releaseLrScReservation fun _ => holds_control _ fun _ _ h => h

theorem holds_retire : Maintains (Holds regs bus) (fun _ => Holds regs bus) retire := by
  have hage : Maintains (Holds regs bus) (fun _ => Holds regs bus) ageReservation :=
    .bind .keepGet fun _ => .ite (fun _ => .bind (.modify fun _ h => h) fun _ =>
      .ite (fun _ => holds_releaseLrScReservation) fun _ => .keepPure) fun _ => .keepPure
  refine .bind (.modify fun s h => ⟨fun i hi => ?_, h.2⟩) fun _ =>
    .bind (.modify fun _ h => h) fun _ =>
    .bind (holds_control _ fun _ _ h => h) fun _ => .bind hage fun _ =>
    .bind (holds_control _ fun _ _ h => h) fun _ => .bind .keepGet fun _ =>
    .ite (fun _ => holds_control _ fun _ _ h => h) fun _ => .keepPure
  exact (Function.update_of_ne hi _ _).trans (h.1 i hi)

/-- The control state after a step that raises a trap. -/
structure TrapControl (s : Control) (mode : PrivilegeLevel) (mtval : BitVec 64) (s' : Control) :
    Prop where
  prv : s'.prv = mode
  tval : s'.csrs (tvalRegister mode) = mtval.setWidth 32
  csrs : ∀ csr ∉ entryRegisters mode, s'.csrs csr = s.csrs csr
  mstatus : ∀ i ∉ entryBits mode, s'.csrs.bit .mstatus i = s.csrs.bit .mstatus i
  mip : FollowsLines s s'
  epc : s'.csrs (epcRegister mode) = s.pc

variable {s t u s' : Iss} {mode : PrivilegeLevel} {reason : ExceptionCode} {mtval : BitVec 64}

/-- The registers of a trap are none of the others that a step may change. -/
theorem entryRegisters_ne (mode : PrivilegeLevel) :
    causeRegister mode ∉ [Csr.mip, .mstatus, .instret, .instreth] ∧
      tvalRegister mode ∉ [Csr.mip, .mstatus, .instret, .instreth] ∧
      epcRegister mode ∉ [Csr.mip, .mstatus, .instret, .instreth] := by
  revert mode
  decide

theorem tvalRegister_ne_epcRegister (mode : PrivilegeLevel) :
    tvalRegister mode ≠ epcRegister mode := by
  revert mode
  decide

theorem trapped_csrs_of_ne (c : Control) {csr : Csr} (hcause : csr ≠ causeRegister mode)
    (htval : csr ≠ tvalRegister mode) : (c.trapped mode reason mtval).csrs csr = c.csrs csr :=
  (set_of_ne htval _ _).trans (set_of_ne hcause _ _)

theorem trapControl_of_enters (hmode : mode ≠ 2#2) (hsettles : Settles s.begun t)
    (henters : Enters { t with toControl := t.toControl.trapped mode reason mtval } mode u)
    (hretires : Retires u s') : TrapControl s.toControl mode mtval s'.toControl := by
  obtain ⟨pc, instr, op, hcalm⟩ := hsettles
  obtain ⟨w, hw, hu, _⟩ := henters
  obtain ⟨c, hcounts, hs'⟩ := hretires
  obtain ⟨hcause, htval, hepc⟩ := entryRegisters_ne mode
  simp only [List.mem_cons, List.not_mem_nil, or_false, not_or] at hcause htval hepc
  have hlast : t.lastPc = s.pc := hcalm.drifts.lastPc
  have hafter :
      ∀ csr, csr ≠ .mip → csr ≠ .instret → csr ≠ .instreth → s'.csrs csr = u.csrs csr := by
    intro csr hmip hlow hhigh
    refine (hs'.drifts.csrs hmip).trans (hcounts.csrs csr ?_)
    simp only [List.mem_cons, List.not_mem_nil, or_false, not_or]
    exact ⟨hlow, hhigh⟩
  have hbefore : ∀ csr, csr ≠ .mip → csr ≠ causeRegister mode →
      csr ≠ tvalRegister mode → w.csrs csr = s.csrs csr := by
    intro csr hmip hcause htval
    rw [hw.drifts.csrs hmip]
    exact (trapped_csrs_of_ne t.toControl hcause htval).trans (hcalm.drifts.csrs hmip)
  refine ⟨?_, ?_, fun csr hcsr => ?_, fun i hi => ?_, ?_, ?_⟩
  · rw [show s'.prv = c.prv from hs'.drifts.prv, hcounts.same, hu]
    exact enter_prv hmode
  · rw [hafter _ htval.1 htval.2.2.1 htval.2.2.2, hu,
      enter_csrs_of_ne hmode htval.2.1 (tvalRegister_ne_epcRegister mode),
      hw.drifts.csrs htval.1]
    exact set_same _ _ _
  · simp only [entryRegisters, List.mem_cons, List.not_mem_nil, or_false, not_or] at hcsr
    obtain ⟨hc, hv, he, hstatus, hmip, hlow, hhigh⟩ := hcsr
    rw [hafter csr hmip hlow hhigh, hu, enter_csrs_of_ne hmode hstatus he, hbefore csr hmip hc hv]
  · rw [CsrTable.bit, CsrTable.bit, hafter .mstatus (by decide) (by decide) (by decide), hu,
      getLsbD_enter_of_notMem w.toControl hmode hi,
      hbefore .mstatus (by decide) (Ne.symm hcause.2.1) (Ne.symm htval.2.1)]
  · have htrap : FollowsLines t.toControl (t.toControl.trapped mode reason mtval) :=
      followsLines_of_eq rfl (trapped_csrs_of_ne _ (Ne.symm hcause.1) (Ne.symm htval.1))
    have henter : FollowsLines w.toControl u.toControl := by
      refine followsLines_of_eq ?_ ?_
      · rw [hu]
        obtain rfl | rfl | rfl := mode_cases hmode <;> rfl
      · rw [hu]
        exact enter_csrs_of_ne hmode (by decide) (Ne.symm hepc.1)
    have hcount : FollowsLines u.toControl c :=
      followsLines_of_eq (by rw [hcounts.same]) (hcounts.csrs .mip (by decide))
    exact FollowsLines.trans hcalm.drifts.lines (htrap.trans (.trans hw.drifts.lines
      (henter.trans (hcount.trans hs'.drifts.lines))))
  · rw [hafter _ hepc.1 hepc.2.2.1 hepc.2.2.2, hu, enter_epc hmode, hw.drifts.pc]
    exact hlast

/-- An instruction that traps does not change where its trap is handled. -/
theorem trapMode_of_settles (h : Settles s.begun t) : t.trapMode reason = s.trapMode reason := by
  obtain ⟨pc, instr, op, hcalm⟩ := h
  have hprv : t.prv = s.prv := hcalm.drifts.prv
  have hmedeleg : t.csrs .medeleg = s.csrs .medeleg := hcalm.drifts.csrs (by decide)
  have hsedeleg : t.csrs .sedeleg = s.csrs .sedeleg := hcalm.drifts.csrs (by decide)
  unfold trapMode CsrTable.bit
  rw [hprv, hmedeleg, hsedeleg]

section

variable (hzero : (s.regs zero).value.concrete = 0#32)
  (hbreak : ¬(s.debugMode = true ∧ s.pc ∈ s.breakpoints)) (htarget : s.trapMode reason ≠ none)
  (hstep : execStep s.begun = .error (.trap reason mtval) t)

include hzero hbreak htarget hstep

/-- A trap whose value fits the register for it is taken. -/
theorem runStep_of_trap (hmtval : mtval.toNat < 2 ^ 32) : ∃ mode s', runStep s = .ok () s' ∧
    TrapControl s.toControl mode mtval s'.toControl ∧ Holds t.regs t.io.bus s' := by
  obtain ⟨_, hsettles⟩ := triple_execStep.of_error rfl hstep
  obtain ⟨mode, hmode⟩ := Option.ne_none_iff_exists'.mp htarget
  rw [← trapMode_of_settles hsettles] at hmode
  have hne := trapMode_ne hmode
  have hprepare := prepareTrap_of_some mtval hmode
  rw [if_pos hmtval] at hprepare
  obtain ⟨_, u, hswitch, henters⟩ := (triple_switchToTrapHandler hne).returns
    (Calm.refl { t with toControl := t.toControl.trapped mode reason mtval })
  obtain ⟨_, s', hretire, hretires⟩ := (triple_retire (E := fun _ _ => False)).returns rfl
  have htry : stepOrTrap s.begun = .ok () u := by
    rw [stepOrTrap_of_trap hstep, bind_of_ok (control_ok hprepare)]
    exact hswitch
  have htrapped : Holds t.regs t.io.bus
      { t with toControl := t.toControl.trapped mode reason mtval } := ⟨fun _ _ => rfl, rfl⟩
  have hu : Holds t.regs t.io.bus u := (holds_switchToTrapHandler mode).of_ok htrapped hswitch
  have hs' : Holds u.regs u.io.bus s' := holds_retire.of_ok ⟨fun _ _ => rfl, rfl⟩ hretire
  have hrun : runStep s = .ok () s' := by
    rw [runStep_eq hzero hbreak, bind_of_ok htry]
    exact hretire
  exact ⟨mode, s', hrun, trapControl_of_enters hne hsettles henters hretires,
    fun i hi => (hs'.1 i hi).trans (hu.1 i hi), hs'.2.trans hu.2⟩

/-- A trap whose value does not fit the register for it ends the simulation. -/
theorem runStep_of_wide_trap (hmtval : ¬ mtval.toNat < 2 ^ 32) (s' : Iss) :
    runStep s ≠ .ok () s' := by
  obtain ⟨_, hsettles⟩ := triple_execStep.of_error rfl hstep
  obtain ⟨mode, hmode⟩ := Option.ne_none_iff_exists'.mp htarget
  rw [← trapMode_of_settles hsettles] at hmode
  have hprepare := prepareTrap_of_some mtval hmode
  rw [if_neg hmtval] at hprepare
  have htry := stepOrTrap_of_trap hstep
  rw [bind_of_error (control_error hprepare)] at htry
  intro hrun
  rw [runStep_eq hzero hbreak, bind_of_error htry] at hrun
  cases hrun

end

/-- Memories do not call back. -/
theorem not_calledBack_of_memories {bus' : SimpleBus}
    (h : ∀ p ∈ bus, ∃ m, p.2 = Target.memory m) : ¬ SimpleBus.CalledBack bus bus' := by
  rintro ⟨⟨p, p'⟩, hmem, hcalled⟩
  obtain ⟨m, hm⟩ := h p (List.of_mem_zip hmem).1
  dsimp only at hcalled
  rw [hm] at hcalled
  exact hcalled

/-- A store conditional with a reservation for an address that no target has, while a timer
interrupt is about to arrive. -/
def refusedConditional : Iss :=
  { boot [0x183120af#32] with
    arrivals := fun _ => [(⟨7, by decide⟩, true)]
    io := { programMemory [0x183120af#32] with busLock := ⟨some 0#32⟩, lrAddr := some 2 } }

/-- A core that executes from a target which asks for a system call on every access. -/
def executesFromDevice : Iss :=
  { boot [] with
    io := { bus := [(⟨0#64, 0xfff#64⟩, .device
      ⟨fun _ => .served (.bytes (List.replicate 4 0#8)) [.syscall], []⟩)] }
    handler := { executeSyscall := fun _ => .returned 7#32 false } }

end Iss

end SpsVp.Rv32
