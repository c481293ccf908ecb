import SpsVp.Rv32.Legality

/-!
# The return from a trap handler

`MRET` undoes the entry into a trap handler of machine mode: after any run of the handler that
leaves `mepc` and `mstatus` alone, the program goes on where it was interrupted, in the mode it was
in. -/

namespace SpsVp.Rv32

open Lib Effect Clover Klee Platform Control

namespace CsrTable

/-- The least privileged mode that is supported. -/
def leastMode (t : CsrTable) : PrivilegeLevel :=
  if t.hasUserModeExtension then UserMode else MachineMode

/-- `mstatus` with `MPIE` set and the least privileged mode in `MPP`. -/
def released (t : CsrTable) : BitVec 32 :=
  (t.setField .mstatus 7 1#1).setField .mstatus 11 t.leastMode .mstatus

theorem getLsbD_released (t : CsrTable) (i : Nat) : t.released.getLsbD i =
    if 11 ≤ i ∧ i < 13 then t.leastMode.getLsbD (i - 11) else
    if i = 7 then true else (t .mstatus).getLsbD i := by
  rw [released, getLsbD_setField (by decide), getLsbD_setField_one (by decide)]
  rfl

theorem leastMode_congr {t t' : CsrTable} (h : t .misa = t' .misa) :
    t.leastMode = t'.leastMode := by
  rw [leastMode, hasUserModeExtension, hasExtension, h]
  rfl

theorem released_congr {t t' : CsrTable} (hmisa : t .misa = t' .misa)
    (hmstatus : t .mstatus = t' .mstatus) : t.released = t'.released := by
  apply BitVec.eq_of_getLsbD_eq
  intro i hi
  rw [getLsbD_released, getLsbD_released, leastMode_congr hmisa, hmstatus]

end CsrTable

namespace Control

/-- `mstatus` in the trap handler of machine mode, bit by bit. -/
theorem getLsbD_enter_mstatus (c : Control) (i : Nat) :
    ((c.enter MachineMode).csrs .mstatus).getLsbD i =
      if 11 ≤ i ∧ i < 13 then c.prv.getLsbD (i - 11) else
      if i = 3 then false else
      if i = 7 then c.csrs.bit .mstatus 3 else (c.csrs .mstatus).getLsbD i := by
  have hbit : (BitVec.ofBool (c.csrs.bit .mstatus 3)).getLsbD 0 = c.csrs.bit .mstatus 3 := by
    cases c.csrs.bit .mstatus 3 <;> rfl
  rw [enter_machine]
  dsimp only
  rw [CsrTable.getLsbD_setField (by decide), CsrTable.getLsbD_setField_one (by decide),
    CsrTable.getLsbD_setField_one (by decide), CsrTable.set_of_ne (by decide), hbit]
  rfl

/-- `mstatus` after the return from a trap handler, bit by bit. -/
theorem getLsbD_returned_mstatus (c : Control) (i : Nat) :
    (c.returned.csrs .mstatus).getLsbD i =
      if 11 ≤ i ∧ i < 13 then c.csrs.leastMode.getLsbD (i - 11) else
      if i = 7 then true else
      if i = 3 then c.csrs.bit .mstatus 7 else (c.csrs .mstatus).getLsbD i := by
  have hbit : (BitVec.ofBool (c.csrs.bit .mstatus 7)).getLsbD 0 = c.csrs.bit .mstatus 7 := by
    cases c.csrs.bit .mstatus 7 <;> rfl
  change ((((c.csrs.setField _ _ _).setField _ _ _).setField .mstatus 11 c.csrs.leastMode)
    .mstatus).getLsbD i = _
  rw [CsrTable.getLsbD_setField (by decide), CsrTable.getLsbD_setField_one (by decide),
    CsrTable.getLsbD_setField_one (by decide), hbit]
  rfl

/-- `MRET` in a state with the `mstatus` of the entry into the handler. -/
theorem returned_mstatus {c d : Control} (hmisa : d.csrs .misa = c.csrs .misa)
    (hmstatus : d.csrs .mstatus = (c.enter MachineMode).csrs .mstatus) :
    d.returned.csrs .mstatus = c.csrs.released := by
  apply BitVec.eq_of_getLsbD_eq
  intro i hi
  rw [getLsbD_returned_mstatus, CsrTable.getLsbD_released, CsrTable.leastMode_congr hmisa]
  split_ifs with hmpp hmpie hmie
  · rfl
  · rfl
  · rw [CsrTable.bit, hmstatus, getLsbD_enter_mstatus, hmie]
    rfl
  · rw [hmstatus, getLsbD_enter_mstatus, if_neg hmpp, if_neg hmie, if_neg hmpie]

theorem returned_prv {c d : Control}
    (hmstatus : d.csrs .mstatus = (c.enter MachineMode).csrs .mstatus) :
    d.returned.prv = c.prv := by
  change d.csrs.mpp = c.prv
  rw [CsrTable.mpp_congr hmstatus, enter_mpp c (by decide), if_pos rfl]

theorem inductive_misa (misa : BitVec 32) :
    Inductive (fun _ _ => True) fun c => c.csrs .misa = misa where
  agrees := fun h hc => (h.csrs .misa (by decide)).trans hc
  setPc := fun _ hc => hc
  write := fun _ _ h hc => h.misa.trans hc
  mret := fun hc => (returned_csrs_of_ne (by decide)).trans hc
  enter := by
    intro c mode hmode hc
    refine (enter_csrs_of_ne hmode (by decide) ?_).trans hc
    unfold epcRegister
    split_ifs <;> decide

end Control

namespace Iss

open Control (Agrees)

/-- An exception or an interrupt of a turn is taken into machine mode, in the control state `c`: for
an exception the one before the instruction, and for an interrupt the one after it. -/
inductive TakenIntoMachineMode (s : Iss) : Control → Prop where
  | exception {e : Iss} {reason : ExceptionCode} {mtval : BitVec 64}
      (hexec : execStep s.begun = .error (.trap reason mtval) e)
      (hmode : e.trapMode reason = some MachineMode) : TakenIntoMachineMode s s.toControl
  | interrupt {e : Iss} {pending : BitVec 32} (hexec : execStep s.begun = .ok () e)
      (hpending : e.computePendingInterrupts = some (MachineMode, pending)) :
      TakenIntoMachineMode s e.toControl

theorem Enters.agrees {s₀ s : Iss} {mode : PrivilegeLevel} (h : Enters s₀ mode s) :
    ∃ w, Agrees s₀.toControl w ∧ s.toControl = w.enter mode := by
  obtain ⟨t, ht, hcontrol, _⟩ := h
  exact ⟨_, ht.drifts.agrees, hcontrol⟩

/-- The entry into the handler. -/
theorem TakenIntoMachineMode.enters {s t : Iss} {c : Control} (h : TakenIntoMachineMode s c)
    (ht : stepOrTrap s.begun = .ok () t) :
    ∃ w, Agrees c w ∧ t.toControl = w.enter MachineMode := by
  cases h with
  | @exception e reason mtval hexec hmode =>
    have hsettles := (triple_execStep.of_error rfl hexec).2
    rw [stepOrTrap_of_trap hexec] at ht
    have hprepare := prepareTrap_of_some mtval hmode
    split_ifs at hprepare
    · rw [bind_of_ok (control_ok hprepare)] at ht
      have hentered := (triple_switchToTrapHandler (E := fun _ _ => True)
        (trapMode_ne hmode)).of_ok (.refl _) ht
      obtain ⟨w, hw, hcontrol⟩ := hentered.agrees
      exact ⟨w, (agrees_trapped hsettles _ _ _).trans hw, hcontrol⟩
    · rw [bind_of_error (control_error hprepare)] at ht
      cases ht
  | @interrupt e pending hexec hpending =>
    cases hcause : interruptCause pending with
    | some exc =>
      have hmode : MachineMode ≠ 2#2 := by decide
      obtain ⟨_, t', hswitch, hentered⟩ := (triple_switchToTrapHandler hmode).returns
        (Calm.refl { e with
          csrs := e.csrs.set (causeRegister MachineMode) (causeOf true exc) })
      have ht' := stepOrTrap_of_ok hexec ((takeInterrupt_of_some hpending hcause).trans hswitch)
      cases ht.symm.trans ht'
      obtain ⟨w, hw, hcontrol⟩ := hentered.agrees
      exact ⟨w, (agrees_set_cause _ _ _).trans hw, hcontrol⟩
    | none =>
      have hthrows := stepOrTrap_of_runtimeError hexec (takeInterrupt_of_not_cause hpending hcause)
      cases ht.symm.trans hthrows

/-- `MRET` undoes the entry into a trap handler of machine mode. A turn takes an exception or an
interrupt into machine mode, the handler runs for any number of turns without a change of `mepc` and
`mstatus`, and then executes `MRET`. -/
theorem mret_undoes_trap {s t u d : Iss} {c : Control} {n : Nat}
    (hbreak : ¬(s.debugMode = true ∧ s.pc ∈ s.breakpoints)) (htaken : TakenIntoMachineMode s c)
    (hturn : runStep s = .ok () t) (hhandler : runSteps step n t = some u)
    (hmepc : u.csrs .mepc = t.csrs .mepc) (hmstatus : u.csrs .mstatus = t.csrs .mstatus)
    (hmret : prepare u.begun = .ok () d) (hop : d.op = .MRET) :
    ∃ v, execStep u.begun = .ok () v ∧ v.prv = c.prv ∧ v.csrs .mstatus = c.csrs.released ∧
      v.pc = c.pc := by
  rw [runStep_eq (zero_of_runStep hturn) hbreak] at hturn
  obtain ⟨_, t₀, hstep, hretire⟩ := bind_eq_ok hturn
  obtain ⟨w, hw, ht₀⟩ := htaken.enters hstep
  have hretires : Retires t₀ t := (triple_retire (E := fun _ _ => True)).of_ok rfl hretire
  have hcsrs : ∀ csr ∉ volatile, t.csrs csr = (w.enter MachineMode).csrs csr := by
    intro csr hcsr
    rw [hretires.agrees.csrs csr hcsr, ht₀]
  have hmisa : u.csrs .misa = t.csrs .misa :=
    keeps_run (inductive_misa _) rfl hhandler fun _ _ _ _ _ _ _ _ _ _ => trivial
  obtain ⟨word, hprepared⟩ := triple_prepare.of_ok rfl hmret
  have hd : ∀ csr ≠ .mip, d.csrs csr = u.csrs csr := fun _ h => hprepared.calm.drifts.csrs h
  have hdstatus : d.csrs .mstatus = (w.enter MachineMode).csrs .mstatus := by
    rw [hd _ (by decide), hmstatus, hcsrs _ (by decide)]
  have hdmisa : d.csrs .misa = w.csrs .misa := by
    rw [hd _ (by decide), hmisa, hcsrs _ (by decide),
      enter_csrs_of_ne (by decide) (by decide) (by decide)]
  have hdepc : d.csrs .mepc = w.pc := by
    rw [hd _ (by decide), hmepc, hcsrs _ (by decide)]
    exact enter_epc (by decide)
  refine ⟨{ d with toControl := d.toControl.returned }, ?_, ?_, ?_, ?_⟩
  · rw [execStep_of_prepare hmret, hop]
    rfl
  · exact (returned_prv hdstatus).trans hw.prv
  · exact (returned_mstatus hdmisa hdstatus).trans
      (CsrTable.released_congr (hw.csrs _ (by decide)) (hw.csrs _ (by decide)))
  · exact hdepc.trans hw.pc

/-- A core in front of a call, with a trap handler that returns at once. -/
def callAndReturn : Iss :=
  { boot [0x00000073#32, 0x30200073#32] with csrs := (CsrTable.init 0#32 false).set .mtvec 4#32 }

theorem mret_undoes_trap_call : ∃ t v, runStep callAndReturn = .ok () t ∧
    execStep t.begun = .ok () v ∧ v.prv = MachineMode ∧
    v.csrs .mstatus = callAndReturn.csrs.released ∧ v.pc = 0#32 := by
  obtain ⟨e, hexec, hmode⟩ : ∃ e,
      execStep callAndReturn.begun = .error (.trap .EXC_ECALL_M_MODE 0#64) e ∧
      e.trapMode .EXC_ECALL_M_MODE = some MachineMode :=
    ⟨_, rfl, rfl⟩
  have hrun : returnsIn (fun t : Iss => returnsIn (fun d : Iss => decide (d.op = .MRET))
      (prepare t.begun)) (runStep callAndReturn) = true := by
    decide +kernel
  obtain ⟨_, t, hturn, hrun⟩ := eq_ok_of_returnsIn hrun
  obtain ⟨_, d, hmret, hop⟩ := eq_ok_of_returnsIn hrun
  obtain ⟨v, hv⟩ := mret_undoes_trap (n := 0) (by decide) (.exception hexec hmode) hturn rfl rfl rfl
    hmret (of_decide_eq_true hop)
  exact ⟨t, v, hturn, hv⟩

end Iss

end SpsVp.Rv32
