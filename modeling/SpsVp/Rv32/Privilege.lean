import SpsVp.Rv32.Return

/-!
# Privilege confinement

An instruction below machine mode cannot raise the privilege mode and cannot change the state of
machine mode, with one exception: `MRET` does not check the privilege mode. The interrupt lines are
not under the control of an instruction; they may change the pending interrupts at any time.
-/

namespace SpsVp.Rv32

open Lib Effect Clover Klee Platform CsrTable

namespace Control

/-! ## The state of machine mode -/

/-- The bits of a register that are visible below machine mode. For the registers of machine mode
that have views of supervisor and user mode these are the bits of the views. -/
def lowerView : Csr → BitVec 32
  | .mstatus => SSTATUS_MASK
  | .mie | .mip => SIE_MASK
  | .mtvec | .mepc | .mcause | .mtval | .mscratch | .medeleg | .mideleg | .mcounteren
  | .mcountinhibit => 0#32
  | _ => BitVec.allOnes 32

/-- A bit that belongs to the state of machine mode. -/
def MachineBit (csr : Csr) (i : Fin 32) : Prop := (lowerView csr).getLsbD i = false

/-- The privilege mode has not been raised, and the state of machine mode is as before. -/
structure Confined (c c' : Control) : Prop where
  prv : c'.prv ≤ c.prv
  bits : ∀ csr i, MachineBit csr i → c'.csrs.bit csr i = c.csrs.bit csr i

/-- The changes of the interrupt lines between two states leave the pending interrupts of machine
mode alone. -/
def LinesLeave (c c' : Control) : Prop :=
  ∀ i, MachineBit .mip i →
    (withLines (c'.lines.drop c.lines.length) (c.csrs .mip)).getLsbD i = c.csrs.bit .mip i

/-- The registers after some changes of the interrupt lines. -/
def afterLines (changes : Arrivals) (t : CsrTable) : CsrTable :=
  t.set .mip (withLines changes (t .mip))

/-- Some bits of the registers are what the interrupt lines make of them. -/
def Confines (B : Csr → Fin 32 → Prop) (c c' : Control) : Prop :=
  ∃ changes, c'.lines = c.lines ++ changes ∧
    ∀ csr i, B csr i → c'.csrs.bit csr i = (afterLines changes c.csrs).bit csr i

variable {c c' c'' : Control} {B : Csr → Fin 32 → Prop}

/-- The lines act on every bit by itself. -/
theorem getLsbD_withLines_congr {mip mip' : BitVec 32} {i : Nat} (changes : Arrivals)
    (h : mip.getLsbD i = mip'.getLsbD i) :
    (withLines changes mip).getLsbD i = (withLines changes mip').getLsbD i := by
  induction changes generalizing mip mip' with
  | nil => exact h
  | cons change changes ih =>
    refine ih ?_
    simp only [BitVec.getLsbD_or, BitVec.getLsbD_and, h]

theorem bit_afterLines_congr {t t' : CsrTable} {csr : Csr} {i : Nat} (changes : Arrivals)
    (h : t.bit csr i = t'.bit csr i) :
    (afterLines changes t).bit csr i = (afterLines changes t').bit csr i := by
  unfold afterLines CsrTable.bit
  by_cases hcsr : csr = .mip
  · subst hcsr
    rw [set_same, set_same]
    exact getLsbD_withLines_congr changes h
  · rw [set_of_ne hcsr, set_of_ne hcsr]
    exact h

theorem afterLines_append (changes changes' : Arrivals) (t : CsrTable) :
    afterLines (changes ++ changes') t = afterLines changes' (afterLines changes t) := by
  unfold afterLines
  rw [set_same, CsrTable.set, CsrTable.set, CsrTable.set, Function.update_idem, withLines,
    List.foldl_append]
  rfl

theorem Confines.trans (h : Confines B c c') (h' : Confines B c' c'') : Confines B c c'' := by
  obtain ⟨changes, hlines, hbits⟩ := h
  obtain ⟨changes', hlines', hbits'⟩ := h'
  refine ⟨changes ++ changes', ?_, fun csr i hi => ?_⟩
  · rw [hlines', hlines, List.append_assoc]
  · rw [hbits' csr i hi, afterLines_append]
    exact bit_afterLines_congr changes' (hbits csr i hi)

theorem Confines.mono {B' : Csr → Fin 32 → Prop} (h : Confines B c c')
    (hB : ∀ csr i, B' csr i → B csr i) : Confines B' c c' := by
  obtain ⟨changes, hlines, hbits⟩ := h
  exact ⟨changes, hlines, fun csr i hi => hbits csr i (hB csr i hi)⟩

theorem Drifts.confines (h : Drifts c c') : Confines B c c' := by
  obtain ⟨changes, hlines, hmip⟩ := h.lines
  refine ⟨changes, hlines, fun csr i _ => ?_⟩
  unfold afterLines CsrTable.bit
  by_cases hcsr : csr = .mip
  · rw [hcsr, hmip, set_same]
  · rw [h.csrs hcsr, set_of_ne hcsr]

/-- A change of other bits. -/
theorem Confines.of_bits (hlines : c'.lines = c.lines)
    (hbits : ∀ csr i, B csr i → c'.csrs.bit csr i = c.csrs.bit csr i) : Confines B c c' := by
  refine ⟨[], by rw [hlines, List.append_nil], fun csr i hi => ?_⟩
  rw [hbits csr i hi, afterLines, withLines, List.foldl_nil, CsrTable.set, Function.update_eq_self]

theorem not_machineBit_of_counter {csr : Csr}
    (h : csr ∈ counterRegisters ∨ csr ∈ [.instret, .instreth])
    (i : Fin 32) : ¬ MachineBit csr i := by
  have hall : (lowerView csr) = BitVec.allOnes 32 := by
    have hrows : ∀ csr ∈ counterRegisters ++ [.instret, .instreth],
        lowerView csr = BitVec.allOnes 32 := by decide
    exact hrows csr (List.mem_append.mpr h)
  unfold MachineBit
  rw [hall, BitVec.getLsbD_allOnes, decide_eq_true i.isLt]
  decide

theorem Reads.confines (h : Reads c c') : Confines MachineBit c c' := by
  refine .of_bits (by rw [h.same]) fun csr i hi => ?_
  have hcsr : csr ∉ counterRegisters := fun hmem => not_machineBit_of_counter (.inl hmem) i hi
  rw [CsrTable.bit, h.csrs csr hcsr, CsrTable.bit]

/-! ## Writes -/

/-- Below machine mode a write reaches the bits of the lower views only. -/
theorem Writes.confines {addr : BitVec 12} {value : BitVec 32} {t : CsrTable}
    (h : Writes c addr value t) (haddr : csrPrv addr ≤ c.prv) (hprv : c.prv < MachineMode) :
    Confines MachineBit c { c with csrs := t } := by
  have hmode : csrPrv addr ≠ MachineMode := by
    intro heq
    rw [heq] at haddr
    exact absurd hprv (BitVec.not_lt.mpr haddr)
  have hrows : ∀ row ∈ writtenRegisters, csrPrv row.1 ≠ MachineMode →
      row.2.2 &&& ~~~lowerView row.2.1 = 0#32 := by decide
  have hepc : ∀ row ∈ epcRegisters, csrPrv row.1 ≠ MachineMode →
      lowerView row.2 = BitVec.allOnes 32 := by decide
  have hopen : ∀ {csr : Csr} {i : Fin 32}, lowerView csr = BitVec.allOnes 32 →
      ¬ MachineBit csr i := by
    intro csr i hall hi
    rw [MachineBit, hall, BitVec.getLsbD_allOnes, decide_eq_true i.isLt] at hi
    cases hi
  refine .of_bits rfl fun csr i hi => ?_
  obtain heq | ⟨mask, hrow, heq⟩ | ⟨hrow, _⟩ | hcsr | hcsr := h.register csr
  · exact congrArg (·.getLsbD i) heq
  · have hmask : mask.getLsbD i = false := by
      have hzero := congrArg (·.getLsbD i) (hrows _ hrow hmode)
      simp only [BitVec.getLsbD_and, BitVec.getLsbD_not, BitVec.getLsbD_zero, i.isLt, decide_true,
        Bool.true_and, show (lowerView csr).getLsbD i = false from hi] at hzero
      simpa using hzero
    refine (congrArg (·.getLsbD i) heq).trans ?_
    rw [getLsbD_setMasked, hmask]
    rfl
  · exact absurd hi (hopen (hepc _ hrow hmode))
  · exact absurd hi (hopen (hcsr ▸ rfl))
  · exact absurd hi (hopen (by cases csr <;> first | rfl | cases hcsr))

end Control

namespace Iss

open Control (Confined Confines LinesLeave MachineBit)

variable {s s' d e : Iss} {word : Instruction}

/-! ## Instructions -/

theorem Prepared.confines {B : Csr → Fin 32 → Prop} (h : Prepared s.begun word d) :
    Confines B s.toControl d.toControl := by
  have hbegun : Confines B s.toControl { s.begun.toControl with
      instr := d.instr, op := d.op, pc := s.begun.pc + Specification.length word.data } :=
    .of_bits rfl fun _ _ _ => rfl
  exact hbegun.trans h.calm.drifts.confines

/-- Every instruction but `MRET` is confined. -/
theorem Executed.confines {op : Mapping} (h : Executed d op e) (hop : op ≠ .MRET)
    (hprv : d.prv < MachineMode) : e.prv = d.prv ∧ Confines MachineBit d.toControl e.toControl := by
  cases h with
  | idle h => exact ⟨h.drifts.prv, h.drifts.confines⟩
  | jump target hop heven haligned h =>
    have hjump : Confines MachineBit d.toControl { d.toControl with pc := target } :=
      .of_bits rfl fun _ _ _ => rfl
    exact ⟨h.drifts.prv, hjump.trans h.drifts.confines⟩
  | csr hop hcsr hread hvalue hwrite hcontrol hmmu =>
    rw [hcontrol]
    have hsame := hread.agrees.prv
    exact ⟨hsame, hread.confines.trans (hwrite.confines (hsame ▸ hcsr) (hsame ▸ hprv))⟩
  | mret hop' hcontrol hmmu => exact absurd hop' hop

theorem Retires.confines (h : Retires s s') : Confines MachineBit s.toControl s'.toControl := by
  obtain ⟨c, hcounts, hcalm⟩ := h
  have hcount : Confines MachineBit s.toControl c := by
    refine .of_bits (by rw [hcounts.same]) fun csr i hi => ?_
    have hcsr : csr ∉ [Csr.instret, .instreth] := fun hmem =>
      Control.not_machineBit_of_counter (.inr hmem) i hi
    rw [CsrTable.bit, hcounts.csrs csr hcsr, CsrTable.bit]
  exact hcount.trans hcalm.drifts.confines

end Iss

namespace Control

/-- What is confined up to the interrupt lines is confined if these leave machine mode alone. -/
theorem Confines.bits_iff (h : Confines B c c') (hmip : ∀ i, MachineBit .mip i → B .mip i) :
    (∀ csr i, B csr i → MachineBit csr i → c'.csrs.bit csr i = c.csrs.bit csr i) ↔
      LinesLeave c c' := by
  obtain ⟨changes, hlines, hbits⟩ := h
  unfold LinesLeave
  rw [hlines, List.drop_left]
  constructor
  · intro hsame i hi
    have hbit := hbits .mip i (hmip i hi)
    rw [afterLines, CsrTable.bit, CsrTable.bit, set_same] at hbit
    rw [← hbit]
    exact hsame .mip i (hmip i hi) hi
  · intro hleave csr i hB hi
    rw [hbits csr i hB, afterLines, CsrTable.bit]
    by_cases hcsr : csr = .mip
    · subst hcsr
      rw [set_same]
      exact hleave i hi
    · rw [set_of_ne hcsr]
      rfl

/-- A return from a trap handler that changes nothing. -/
structure HarmlessReturn (c : Control) : Prop where
  userMode : c.csrs.hasUserModeExtension = true
  mpp : c.csrs.mpp = UserMode
  mie : c.csrs.bit .mstatus 3 = true
  mpie : c.csrs.bit .mstatus 7 = true

theorem HarmlessReturn.congr (h : HarmlessReturn c) (hmisa : c'.csrs .misa = c.csrs .misa)
    (hmstatus : c'.csrs .mstatus = c.csrs .mstatus) : HarmlessReturn c' := by
  obtain ⟨huser, hmpp, hmie, hmpie⟩ := h
  refine ⟨?_, (mpp_congr hmstatus).trans hmpp, ?_, ?_⟩
  · rw [CsrTable.hasUserModeExtension, CsrTable.hasExtension, hmisa]
    exact huser
  · rw [CsrTable.bit, hmstatus]
    exact hmie
  · rw [CsrTable.bit, hmstatus]
    exact hmpie

theorem bit_mpp (t : CsrTable) {i : Nat} (h : 11 ≤ i ∧ i < 13) :
    t.bit .mstatus i = t.mpp.getLsbD (i - 11) := by
  rw [CsrTable.bit, CsrTable.mpp, BitVec.getLsbD_extractLsb', decide_eq_true (by omega),
    Bool.true_and, show 11 + (i - 11) = i by omega]

/-- Below machine mode `MRET` leaves `mstatus` alone and does not raise the mode just when it is
harmless. -/
theorem harmlessReturn_iff (hprv : c.prv < MachineMode) :
    (c.returned.prv ≤ c.prv ∧
      ∀ i, MachineBit .mstatus i → c.returned.csrs.bit .mstatus i = c.csrs.bit .mstatus i) ↔
      HarmlessReturn c := by
  have hmachine : ∀ i : Fin 32, i ∈ [3, 7, 11, 12] → MachineBit .mstatus i := by
    unfold MachineBit
    decide
  have hreturned := getLsbD_returned_mstatus c
  constructor
  · rintro ⟨hle, hbits⟩
    have hmpie : c.csrs.bit .mstatus 7 = true :=
      (hbits 7 (hmachine 7 (by decide))).symm.trans (hreturned 7)
    have hmie : c.csrs.bit .mstatus 3 = true :=
      ((hbits 3 (hmachine 3 (by decide))).symm.trans (hreturned 3)).trans hmpie
    have hmpp : c.csrs.mpp = c.csrs.leastMode := by
      refine Eq.trans ?_ (returned_mpp c)
      have hlow := hbits 11 (hmachine 11 (by decide))
      have hhigh := hbits 12 (hmachine 12 (by decide))
      rw [bit_mpp _ (by decide), bit_mpp _ (by decide)] at hlow hhigh
      apply BitVec.eq_of_getLsbD_eq
      intro i hi
      obtain rfl | rfl : i = 0 ∨ i = 1 := by omega
      · exact hlow.symm
      · exact hhigh.symm
    have huser : c.csrs.hasUserModeExtension = true := by
      by_contra hno
      rw [CsrTable.leastMode, if_neg hno] at hmpp
      change c.csrs.mpp ≤ c.prv at hle
      rw [hmpp] at hle
      exact absurd hprv (BitVec.not_lt.mpr hle)
    exact ⟨huser, hmpp.trans (if_pos huser), hmie, hmpie⟩
  · rintro ⟨huser, hmpp, hmie, hmpie⟩
    refine ⟨?_, fun i _ => ?_⟩
    · change c.csrs.mpp ≤ c.prv
      rw [hmpp]
      exact (by decide : ∀ prv : PrivilegeLevel, UserMode ≤ prv) _
    · refine (hreturned i).trans ?_
      split_ifs with hi hi hi
      · rw [bit_mpp _ hi, hmpp, CsrTable.leastMode, if_pos huser]
      · rw [hi]
        exact hmpie.symm
      · rw [hi, hmie]
        exact hmpie
      · rfl

end Control

namespace Iss

open Control (Confined Confines LinesLeave MachineBit HarmlessReturn)

variable {s s' d e : Iss} {word : Instruction}

/-- Below machine mode an instruction that completes, without a trap or an interrupt, is confined
just when it is no `MRET`, or one that changes nothing, and the interrupt lines do not change the
pending interrupts of machine mode meanwhile. -/
theorem confined_iff (hprv : s.prv < MachineMode)
    (hbreak : ¬(s.debugMode = true ∧ s.pc ∈ s.breakpoints)) (hprepare : prepare s.begun = .ok () d)
    (hexec : execStep s.begun = .ok () e) (hpending : e.computePendingInterrupts = none)
    (hturn : runStep s = .ok () s') :
    Confined s.toControl s'.toControl ↔
      (d.op = .MRET → HarmlessReturn s.toControl) ∧ LinesLeave s.toControl s'.toControl := by
  rw [runStep_eq (zero_of_runStep hturn) hbreak,
    bind_of_ok (stepOrTrap_of_ok hexec (takeInterrupt_of_none hpending))] at hturn
  have hretires : Retires e s' := (triple_retire (E := fun _ _ => True)).of_ok rfl hturn
  obtain ⟨word, d', hcompleted⟩ := triple_execStep.of_ok rfl hexec
  cases hprepare.symm.trans hcompleted.prepare
  have hdprv : d.prv = s.prv := hcompleted.prepared.calm.drifts.prv
  have hsprv : s'.prv = e.prv := hretires.agrees.prv
  by_cases hop : d.op = .MRET
  · have he : e.toControl = d.toControl.returned := by
      have hrun := hcompleted.run
      rw [hop] at hrun
      cases hrun
      rfl
    have hd : ∀ csr ≠ .mip, d.csrs csr = s.csrs csr := fun _ h =>
      hcompleted.prepared.calm.drifts.csrs h
    have hstatus : s'.csrs .mstatus = d.returned.csrs .mstatus := by
      rw [hretires.agrees.csrs _ (by decide), he]
    -- every register but `mstatus` is as the interrupt lines leave it
    have hmret : Confines (fun csr _ => csr ≠ .mstatus) d.toControl e.toControl := by
      rw [he]
      exact .of_bits rfl fun csr i hcsr => congrArg (·.getLsbD i) (Control.returned_csrs_of_ne hcsr)
    have hall :
        Confines (fun csr i => MachineBit csr i ∧ csr ≠ .mstatus) s.toControl s'.toControl :=
      (hcompleted.prepared.confines.trans (hmret.mono fun _ _ h => h.2)).trans
        (hretires.confines.mono fun _ _ h => h.1)
    have hlines := hall.bits_iff fun _ hi => ⟨hi, by decide⟩
    have hreturn := Control.harmlessReturn_iff (c := d.toControl) (hdprv ▸ hprv)
    constructor
    · intro h
      refine ⟨fun _ => ?_, hlines.mp fun csr i hi _ => h.bits csr i hi.1⟩
      refine (hreturn.mp ⟨?_, fun i hi => ?_⟩).congr (hd _ (by decide)).symm (hd _ (by decide)).symm
      · rw [← he, ← hsprv, hdprv]
        exact h.prv
      · have hbit := h.bits .mstatus i hi
        rw [CsrTable.bit, hstatus, CsrTable.bit, ← hd _ (by decide)] at hbit
        exact hbit
    · rintro ⟨hharmless, hleave⟩
      obtain ⟨hle, hbits⟩ :=
        hreturn.mpr ((hharmless hop).congr (hd _ (by decide)) (hd _ (by decide)))
      refine ⟨?_, fun csr i hi => ?_⟩
      · rw [hsprv, he, ← hdprv]
        exact hle
      · by_cases hcsr : csr = .mstatus
        · subst hcsr
          rw [CsrTable.bit, hstatus, CsrTable.bit, ← hd _ (by decide)]
          exact hbits i hi
        · exact hlines.mpr hleave csr i ⟨hi, hcsr⟩ hi
  · obtain ⟨heprv, hconfines⟩ := hcompleted.executed.confines hop (hdprv ▸ hprv)
    have hall := (hcompleted.prepared.confines.trans hconfines).trans hretires.confines
    have hiff := hall.bits_iff fun _ hi => hi
    rw [← hiff]
    refine ⟨fun h => ⟨fun hmret => absurd hmret hop, fun csr i hi _ => h.bits csr i hi⟩,
      fun h => ?_⟩
    refine ⟨?_, fun csr i hi => h.2 csr i hi hi⟩
    rw [hsprv, heprv, hdprv]
    exact BitVec.le_refl _

/-- A core in user mode in front of an addition. -/
def userAddition : Iss := { boot [0x00000013#32] with prv := UserMode }

theorem confined_iff_addition : ∃ d e s', prepare userAddition.begun = .ok () d ∧
    execStep userAddition.begun = .ok () e ∧ runStep userAddition = .ok () s' ∧
    (Confined userAddition.toControl s'.toControl ↔
      (d.op = .MRET → HarmlessReturn userAddition.toControl) ∧
        LinesLeave userAddition.toControl s'.toControl) := by
  have hprepare : returnsIn (fun _ => true) (prepare userAddition.begun) = true := by
    decide +kernel
  have hexec : returnsIn (fun e : Iss => e.computePendingInterrupts.isNone)
      (execStep userAddition.begun) = true := by
    decide +kernel
  have hturn : returnsIn (fun _ => true) (runStep userAddition) = true := by
    decide +kernel
  obtain ⟨_, d, hprepare, _⟩ := eq_ok_of_returnsIn hprepare
  obtain ⟨_, e, hexec, hpending⟩ := eq_ok_of_returnsIn hexec
  obtain ⟨_, s', hturn, _⟩ := eq_ok_of_returnsIn hturn
  exact ⟨d, e, s', hprepare, hexec, hturn,
    confined_iff (by decide) (by decide) hprepare hexec
      (Option.isNone_iff_eq_none.mp hpending) hturn⟩

/-- A program that returns to itself in user mode, where the return from a trap handler enables the
interrupts of machine mode. -/
theorem mret_below_machine_mode : ∃ s e s', Reachable Reset step s ∧ s.prv < MachineMode ∧
    execStep s.begun = .ok () e ∧ e.computePendingInterrupts = none ∧ runStep s = .ok () s' ∧
    s.csrs.bit .mstatus 3 = false ∧ s'.csrs.bit .mstatus 3 = true ∧
    ¬ Confined s.toControl s'.toControl := by
  have hrun : (step (boot [0x30200073#32])).map (fun s => (s.prv, s.csrs.bit .mstatus 3,
      returnsIn (fun e : Iss => e.computePendingInterrupts.isNone) (execStep s.begun),
      returnsIn (fun s' : Iss => s'.csrs.bit .mstatus 3) (runStep s))) =
      some (UserMode, false, true, true) := by
    decide +kernel
  obtain ⟨s, hstep, hs⟩ := Option.map_eq_some_iff.mp hrun
  simp only [Prod.mk.injEq] at hs
  obtain ⟨hprv, hbefore, hexec, hturn⟩ := hs
  obtain ⟨_, e, hexec, hpending⟩ := eq_ok_of_returnsIn hexec
  obtain ⟨_, s', hturn, hafter⟩ := eq_ok_of_returnsIn hturn
  refine ⟨s, e, s', .step (.initial (boot_reset _)) hstep, by rw [hprv]; decide, hexec,
    Option.isNone_iff_eq_none.mp hpending, hturn, hbefore, hafter, fun h => ?_⟩
  have hbit := h.bits .mstatus 3 (by unfold MachineBit; decide)
  exact Bool.noConfusion ((hafter.symm.trans hbit).trans hbefore)

end Iss

end SpsVp.Rv32
