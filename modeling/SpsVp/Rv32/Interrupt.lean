import SpsVp.Rv32.Legality

/-!
# Interrupts

What the privileged architecture says about interrupts, stated over single interrupts and the modes
that they are targeted at, and that `compute_pending_interrupts` and `prepare_interrupt`, which work
on whole registers, do just that.
-/

namespace SpsVp.Rv32

open Lib Effect Clover Klee Platform Control

namespace Specification

/-! ## The architecture -/

/-- An interrupt is pending and enabled. -/
def Pending (t : CsrTable) (i : Fin 32) : Prop := t.bit .mip i = true ∧ t.bit .mie i = true

/-- The mode that an interrupt is targeted at. -/
def targetMode (t : CsrTable) (i : Fin 32) : PrivilegeLevel :=
  if t.bit .mideleg i = false then MachineMode
  else if t.bit .sideleg i = false then SupervisorMode
  else UserMode

/-- The global interrupt enable of a mode. -/
def interruptEnable (t : CsrTable) (mode : PrivilegeLevel) : Bool :=
  if mode = MachineMode then t.bit .mstatus 3
  else if mode = SupervisorMode then t.bit .mstatus 1
  else t.bit .mstatus 0

/-- A core accepts interrupts that are targeted at a mode above the current one, or at the current
one if they are enabled there. -/
def Accepts (c : Control) (mode : PrivilegeLevel) : Prop :=
  c.prv < mode ∨ (c.prv = mode ∧ interruptEnable c.csrs mode = true)

/-- An interrupt can be taken. -/
def Takeable (c : Control) (i : Fin 32) : Prop :=
  Pending c.csrs i ∧ Accepts c (targetMode c.csrs i)

/-- The highest mode with an interrupt that can be taken. -/
structure HighestMode (c : Control) (mode : PrivilegeLevel) : Prop where
  takeable : ∃ i, Takeable c i ∧ targetMode c.csrs i = mode
  highest : ∀ i, Takeable c i → targetMode c.csrs i ≤ mode

/-- The priority of an interrupt, zero being the highest: those of machine mode before those of
supervisor mode before those of user mode, and among these external ones before software ones before
timers. -/
def priority (i : Fin 32) : Nat :=
  let mode := if i.val % 4 = 3 then 0 else if i.val % 4 = 1 then 1 else 2
  let kind := if i.val / 4 = 2 then 0 else if i.val / 4 = 0 then 1 else 2
  3 * mode + kind

/-- The interrupt of highest priority among those targeted at a mode. -/
structure Selected (c : Control) (mode : PrivilegeLevel) (i : Fin 32) : Prop where
  pending : Pending c.csrs i
  target : targetMode c.csrs i = mode
  first : ∀ j, Pending c.csrs j → targetMode c.csrs j = mode → priority i ≤ priority j

end Specification

namespace Control

open Specification

variable {c : Control} {mode : PrivilegeLevel}

/-! ## Selection -/

/-- The words of `compute_pending_interrupts`. -/
def pendingAt (c : Control) (mode : PrivilegeLevel) : BitVec 32 :=
  let pending := c.csrs .mie &&& c.csrs .mip
  if mode = MachineMode then pending &&& ~~~c.csrs .mideleg
  else if mode = SupervisorMode then pending &&& c.csrs .mideleg &&& ~~~c.csrs .sideleg
  else pending &&& c.csrs .mideleg &&& c.csrs .sideleg

theorem getLsbD_pendingAt (hmode : mode ≠ 2#2) (i : Fin 32) :
    (c.pendingAt mode).getLsbD i = true ↔ Pending c.csrs i ∧ targetMode c.csrs i = mode := by
  unfold pendingAt Pending targetMode CsrTable.bit
  obtain rfl | rfl | rfl := mode_cases hmode
  all_goals
    simp only [BitVec.getLsbD_and, BitVec.getLsbD_not, i.isLt, decide_true, Bool.true_and, if_true,
      show ¬ SupervisorMode = MachineMode by decide,
      show ¬ UserMode = MachineMode by decide, show ¬ UserMode = SupervisorMode by decide, if_false]
    cases (c.csrs .mie).getLsbD i <;> cases (c.csrs .mip).getLsbD i <;>
      cases (c.csrs .mideleg).getLsbD i <;> cases (c.csrs .sideleg).getLsbD i <;> decide

theorem ne_zero_iff_getLsbD {w : Nat} (x : BitVec w) :
    x ≠ 0#w ↔ ∃ i : Fin w, x.getLsbD i = true := by
  constructor
  · intro h
    by_contra hnone
    refine h (BitVec.eq_of_getLsbD_eq fun i hi => ?_)
    rw [BitVec.getLsbD_zero]
    exact Bool.eq_false_iff.mpr fun hbit => hnone ⟨⟨i, hi⟩, hbit⟩
  · rintro ⟨i, hi⟩ rfl
    rw [BitVec.getLsbD_zero] at hi
    cases hi

instance : Decidable (Accepts c mode) := inferInstanceAs (Decidable (_ ∨ _))

/-- There is an interrupt for a mode that can be taken. -/
def Offers (c : Control) (mode : PrivilegeLevel) : Prop := c.pendingAt mode ≠ 0#32 ∧ Accepts c mode

instance : Decidable (Offers c mode) := inferInstanceAs (Decidable (_ ∧ _))

theorem offers_iff (hmode : mode ≠ 2#2) :
    Offers c mode ↔ ∃ i, Takeable c i ∧ targetMode c.csrs i = mode := by
  unfold Offers Takeable
  rw [ne_zero_iff_getLsbD]
  simp only [getLsbD_pendingAt hmode]
  constructor
  · rintro ⟨⟨i, hpending, htarget⟩, haccepts⟩
    exact ⟨i, ⟨hpending, htarget ▸ haccepts⟩, htarget⟩
  · rintro ⟨i, ⟨hpending, haccepts⟩, htarget⟩
    exact ⟨⟨i, hpending, htarget⟩, htarget ▸ haccepts⟩

/-- The modes are tried from the highest one down. -/
theorem computePendingInterrupts_eq (c : Control) : c.computePendingInterrupts =
    if Offers c MachineMode then some (MachineMode, c.pendingAt MachineMode)
    else if Offers c SupervisorMode then some (SupervisorMode, c.pendingAt SupervisorMode)
    else if Offers c UserMode then some (UserMode, c.pendingAt UserMode)
    else none := by
  have huser : Offers c UserMode ↔
      c.pendingAt UserMode ≠ 0#32 ∧ c.prv = UserMode ∧ c.csrs.bit .mstatus 0 = true := by
    have hlow : ∀ prv : PrivilegeLevel, ¬ prv < UserMode := by decide
    unfold Offers Accepts
    simp only [hlow, false_or]
    rfl
  by_cases hpending : c.csrs .mie &&& c.csrs .mip = 0#32
  · have hnone : ∀ mode, ¬ Offers c mode := by
      intro mode h
      refine h.1 ?_
      unfold pendingAt
      rw [hpending]
      split_ifs <;> simp only [BitVec.zero_and]
    rw [if_neg (hnone _), if_neg (hnone _), if_neg (hnone _)]
    exact if_pos hpending
  · refine (if_neg hpending).trans ?_
    simp only [huser]
    rfl

theorem targetMode_ne (t : CsrTable) (i : Fin 32) : targetMode t i ≠ 2#2 := by
  unfold targetMode
  split_ifs <;> decide

/-- `compute_pending_interrupts` finds the highest mode. -/
theorem computePendingInterrupts_cases (c : Control) :
    (c.computePendingInterrupts = none ∧ ∀ i, ¬ Takeable c i) ∨
      ∃ mode, c.computePendingInterrupts = some (mode, c.pendingAt mode) ∧ HighestMode c mode := by
  have hoffers : ∀ i, Takeable c i → Offers c (targetMode c.csrs i) := fun i hi =>
    (offers_iff (targetMode_ne _ _)).mpr ⟨i, hi, rfl⟩
  have htarget := fun i => mode_cases (targetMode_ne c.csrs i)
  rw [computePendingInterrupts_eq]
  split_ifs with hm hs hu
  · refine .inr ⟨_, rfl, (offers_iff (by decide)).mp hm, fun i _ => ?_⟩
    exact (by decide : ∀ mode : PrivilegeLevel, mode ≤ MachineMode) _
  · refine .inr ⟨_, rfl, (offers_iff (by decide)).mp hs, fun i hi => ?_⟩
    have hi := hoffers i hi
    obtain h | h | h := htarget i
    · exact absurd (h ▸ hi) hm
    · rw [h]
      decide
    · rw [h]
      decide
  · refine .inr ⟨_, rfl, (offers_iff (by decide)).mp hu, fun i hi => ?_⟩
    have hi := hoffers i hi
    obtain h | h | h := htarget i
    · exact absurd (h ▸ hi) hm
    · exact absurd (h ▸ hi) hs
    · rw [h]
      decide
  · refine .inl ⟨rfl, fun i hi => ?_⟩
    have hi := hoffers i hi
    obtain h | h | h := htarget i
    · exact hm (h ▸ hi)
    · exact hs (h ▸ hi)
    · exact hu (h ▸ hi)

/-! ## Causes -/

/-- The interrupts that `prepare_interrupt` knows, in the order in which it tries them. -/
def interruptOrder : List (Fin 32 × ExceptionCode) :=
  [(11, .EXC_M_EXTERNAL_INTERRUPT), (3, .EXC_M_SOFTWARE_INTERRUPT), (7, .EXC_M_TIMER_INTERRUPT),
    (9, .EXC_S_EXTERNAL_INTERRUPT), (1, .EXC_S_SOFTWARE_INTERRUPT), (5, .EXC_S_TIMER_INTERRUPT),
    (8, .EXC_U_EXTERNAL_INTERRUPT), (0, .EXC_U_SOFTWARE_INTERRUPT), (4, .EXC_U_TIMER_INTERRUPT)]

theorem interruptCause_eq (pending : BitVec 32) : interruptCause pending =
    (interruptOrder.find? fun row => pending.getLsbD row.1).map Prod.snd := by
  unfold interruptCause interruptOrder
  split_ifs <;> simp_all

/-- `prepare_interrupt` finds the interrupt of highest priority, if the pending ones are those that
it knows. -/
theorem interruptCause_of_ne_zero {pending : BitVec 32} (hmask : pending &&& ~~~MIE_MASK = 0#32)
    (hpending : pending ≠ 0#32) : ∃ (i : Fin 32) (exc : ExceptionCode),
      interruptCause pending = some exc ∧ exc.toNat = i ∧ pending.getLsbD i = true ∧
        ∀ j : Fin 32, pending.getLsbD j = true → priority i ≤ priority j := by
  have hknown : ∀ j : Fin 32, MIE_MASK.getLsbD j = true → ∃ row ∈ interruptOrder, row.1 = j := by
    decide
  have hcodes : ∀ row ∈ interruptOrder, row.2.toNat = row.1 := by decide
  have hsorted : interruptOrder.Pairwise fun row row' => priority row.1 ≤ priority row'.1 := by
    decide
  have hrow : ∀ j : Fin 32, pending.getLsbD j = true → ∃ row ∈ interruptOrder, row.1 = j := by
    intro j hj
    refine hknown j ?_
    have hbit := congrArg (·.getLsbD j) hmask
    simpa [hj] using hbit
  obtain ⟨j, hj⟩ := (ne_zero_iff_getLsbD pending).mp hpending
  cases hfind : interruptOrder.find? fun row => pending.getLsbD row.1 with
  | none =>
    obtain ⟨row, hmem, rfl⟩ := hrow j hj
    exact absurd hj (List.find?_eq_none.mp hfind row hmem)
  | some row =>
    obtain ⟨hbit, before, after, horder, hbefore⟩ := List.find?_eq_some_iff_append.mp hfind
    have hmem : row ∈ interruptOrder := List.mem_of_find?_eq_some hfind
    refine ⟨row.1, row.2, ?_, hcodes row hmem, hbit, fun k hk => ?_⟩
    · rw [interruptCause_eq, hfind]
      rfl
    obtain ⟨other, hother, rfl⟩ := hrow k hk
    rw [horder] at hother hsorted
    rw [List.mem_append, List.mem_cons] at hother
    obtain hother | rfl | hother := hother
    · have := hbefore other hother
      rw [hk] at this
      cases this
    · exact le_rfl
    · exact (List.pairwise_cons.mp (List.pairwise_append.mp hsorted).2.1).1 other hother

theorem pendingAt_and_not_mask (h : c.csrs .mie &&& ~~~MIE_MASK = 0#32) (mode : PrivilegeLevel) :
    c.pendingAt mode &&& ~~~MIE_MASK = 0#32 := by
  obtain ⟨rest, hrest⟩ : ∃ rest, c.pendingAt mode = c.csrs .mie &&& rest := by
    unfold pendingAt
    split_ifs
    · exact ⟨_, BitVec.and_assoc _ _ _⟩
    · exact ⟨_, by rw [BitVec.and_assoc, BitVec.and_assoc]⟩
    · exact ⟨_, by rw [BitVec.and_assoc, BitVec.and_assoc]⟩
  rw [hrest, BitVec.and_assoc, BitVec.and_comm rest, ← BitVec.and_assoc, h, BitVec.zero_and]

/-- The interrupt that is taken is the one of highest priority for the highest mode. -/
theorem selected_of_highestMode (hmie : c.csrs .mie &&& ~~~MIE_MASK = 0#32)
    (hmode : HighestMode c mode) : ∃ (i : Fin 32) (exc : ExceptionCode),
      interruptCause (c.pendingAt mode) = some exc ∧ exc.toNat = i ∧ Selected c mode i := by
  obtain ⟨j, hj, htarget⟩ := hmode.takeable
  have hne : mode ≠ 2#2 := htarget ▸ targetMode_ne _ _
  have hpending : c.pendingAt mode ≠ 0#32 := ((offers_iff hne).mpr ⟨j, hj, htarget⟩).1
  obtain ⟨i, exc, hcause, hcode, hbit, hfirst⟩ :=
    interruptCause_of_ne_zero (pendingAt_and_not_mask hmie mode) hpending
  obtain ⟨hi, hitarget⟩ := (getLsbD_pendingAt hne i).mp hbit
  exact ⟨i, exc, hcause, hcode, hi, hitarget, fun k hk hktarget =>
    hfirst k ((getLsbD_pendingAt hne k).mpr ⟨hk, hktarget⟩)⟩

/-- The target mode is not below the current one. -/
theorem prv_le_of_highestMode (hmode : HighestMode c mode) : c.prv ≤ mode := by
  obtain ⟨i, ⟨_, haccepts⟩, rfl⟩ := hmode.takeable
  obtain hlt | ⟨heq, _⟩ := haccepts
  · exact BitVec.le_of_lt hlt
  · rw [heq]
    exact BitVec.le_refl _

theorem causeRegister_ne (mode : PrivilegeLevel) : causeRegister mode ≠ .mip ∧
    causeRegister mode ≠ .mstatus ∧ causeRegister mode ≠ epcRegister mode := by
  revert mode
  decide

end Control

namespace Iss

open Specification

/-- The state in the handler of an interrupt or a trap. -/
theorem Enters.registers {s₀ s : Iss} {mode : PrivilegeLevel} (hmode : mode ≠ 2#2)
    (h : Enters s₀ mode s) : s.prv = mode ∧
      s.csrs (causeRegister mode) = s₀.csrs (causeRegister mode) ∧
      s.csrs (epcRegister mode) = s₀.pc := by
  obtain ⟨t, ht, hcontrol, _⟩ := h
  obtain ⟨hmip, hmstatus, hepc⟩ := causeRegister_ne mode
  rw [hcontrol, enter_prv hmode, enter_csrs_of_ne hmode hmstatus hepc,
    enter_epc hmode, ht.drifts.csrs hmip, ht.drifts.pc]
  exact ⟨rfl, rfl, rfl⟩

/-- After an instruction that raises no trap, in a state of masked writes, `run_step` takes an
interrupt just when there is one to take: for the highest mode, with the cause of highest priority,
and without an exception. -/
theorem interrupt_taken_correctly {s e : Iss} (hwritten : Written s.csrs)
    (hexec : execStep s.begun = .ok () e) :
    (e.computePendingInterrupts ≠ none ↔ ∃ i, Takeable e.toControl i) ∧
      ((¬ ∃ i, Takeable e.toControl i) → stepOrTrap s.begun = .ok () e) ∧
      ((∃ i, Takeable e.toControl i) → ∃ mode i t, HighestMode e.toControl mode ∧ e.prv ≤ mode ∧
        Selected e.toControl mode i ∧ stepOrTrap s.begun = .ok () t ∧ t.prv = mode ∧
        t.csrs (causeRegister mode) = 1#1 ++ BitVec.ofNat 31 i ∧
        t.csrs (epcRegister mode) = e.pc) := by
  obtain ⟨word, d, hcompleted⟩ := triple_execStep.of_ok rfl hexec
  have hmie : e.csrs .mie &&& ~~~MIE_MASK = 0#32 := Written.mie
    (hcompleted.keeps inductive_written hwritten fun _ _ _ _ _ _ => trivial)
  obtain ⟨hpending, hnone⟩ | ⟨mode, hpending, hmode⟩ :=
    computePendingInterrupts_cases e.toControl
  · have hnot : ¬ ∃ i, Takeable e.toControl i := fun ⟨i, hi⟩ => hnone i hi
    refine ⟨⟨fun h => absurd hpending h, fun h => absurd h hnot⟩, fun _ => ?_,
      fun h => absurd h hnot⟩
    exact stepOrTrap_of_ok hexec (takeInterrupt_of_none hpending)
  · obtain ⟨j, hj, htarget⟩ := hmode.takeable
    refine ⟨⟨fun _ => ⟨j, hj⟩, fun _ => by rw [hpending]; nofun⟩, fun h => absurd ⟨j, hj⟩ h,
      fun _ => ?_⟩
    have hne : mode ≠ 2#2 := htarget ▸ targetMode_ne _ _
    obtain ⟨i, exc, hcause, hcode, hselected⟩ := selected_of_highestMode hmie hmode
    obtain ⟨_, t, hswitch, hentered⟩ := (triple_switchToTrapHandler hne).returns
      (Calm.refl { e with
        csrs := e.csrs.set (causeRegister mode) (causeOf true exc) })
    obtain ⟨hprv, hcauseRegister, hepc⟩ := hentered.registers hne
    refine ⟨mode, i, t, hmode, prv_le_of_highestMode hmode, hselected, ?_, hprv, ?_, hepc⟩
    · exact stepOrTrap_of_ok hexec ((takeInterrupt_of_some hpending hcause).trans hswitch)
    · rw [hcauseRegister]
      exact (CsrTable.set_same _ _ _).trans (by rw [causeOf, hcode]; rfl)

/-- A core in front of an instruction, with the timer interrupt pending and enabled. -/
def pendingTimer : Iss :=
  { boot [0x00000013#32] with
    csrs := (((CsrTable.init 0#32 false).setMasked .mie MIE_MASK 0x80#32).set .mip 0x80#32).set
      .mstatus 0x8#32 }

theorem interrupt_taken_correctly_timer : ∃ e mode i t, execStep pendingTimer.begun = .ok () e ∧
    HighestMode e.toControl mode ∧ e.prv ≤ mode ∧ Selected e.toControl mode i ∧
    stepOrTrap pendingTimer.begun = .ok () t ∧ t.prv = mode ∧
    t.csrs (causeRegister mode) = 1#1 ++ BitVec.ofNat 31 i ∧
    t.csrs (epcRegister mode) = e.pc := by
  have hrun : returnsIn (fun e : Iss => decide ((e.csrs.bit .mip 7 = true ∧
      e.csrs.bit .mie 7 = true) ∧ e.prv = targetMode e.csrs 7 ∧
      interruptEnable e.csrs (targetMode e.csrs 7) = true)) (execStep pendingTimer.begun) =
        true := by
    decide +kernel
  obtain ⟨_, e, hexec, he⟩ := eq_ok_of_returnsIn hrun
  obtain ⟨hpending, haccepts⟩ := of_decide_eq_true he
  have hwrites : Writes (boot []).toControl MIE_ADDR 0x80#32
      ((CsrTable.init 0#32 false).setMasked .mie MIE_MASK 0x80#32) :=
    .masked (by decide)
  have hwritten : Written pendingTimer.csrs :=
    .hardware (.write (.reset rfl) hwrites) rfl
  obtain ⟨mode, i, t, h⟩ :=
    (interrupt_taken_correctly hwritten hexec).2.2 ⟨7, hpending, .inr haccepts⟩
  exact ⟨e, mode, i, t, hexec, h⟩

end Iss

end SpsVp.Rv32
