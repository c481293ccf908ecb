import SpsVp.Rv32.Step

/-!
# What `run_step` can do

The rest of a step around the instruction: fetching and decoding, the interrupts and traps, and the
counters. `Turn` is what comes of it all, and `TurnThrows` what may be thrown.
-/

namespace SpsVp.Rv32

open Lib Effect Clover Klee Platform Control

/-! ## Decoding -/

namespace Instruction

variable {instr : Instruction}

theorem length_of_isCompressed (h : instr.isCompressed = true) :
    Specification.length instr.data = 2 := by
  rw [Specification.length, if_neg]
  intro hq
  rw [isCompressed, quadrant, hq] at h
  exact absurd h (by decide)

theorem length_of_not_isCompressed (h : ¬ instr.isCompressed = true) :
    Specification.length instr.data = 4 := by
  rw [Specification.length, if_pos]
  rw [isCompressed, decide_eq_true_iff, not_lt] at h
  apply BitVec.eq_of_toNat_eq
  exact Nat.le_antisymm (Nat.le_of_lt_succ instr.quadrant.isLt) h

/-- A compressed instruction is decoded, if only as an illegal one. -/
theorem decodeCompressed_of_isCompressed (h : instr.isCompressed = true)
    (arch : Architecture) : ∃ op, instr.decodeCompressed arch = .ok op := by
  have hquadrant : instr.quadrant ∈ [0#2, 1#2, 2#2] := by
    rw [isCompressed, decide_eq_true_iff] at h
    generalize instr.quadrant = q at h
    revert q
    decide
  refine switch_induction (P := fun r => ∃ op, r = Except.ok op) (fun hlabel => ?_) ?_
  · simp only [List.map_cons, List.map_nil] at hlabel
    exact absurd hquadrant hlabel
  · simp only [List.forall_mem_cons]
    exact ⟨fun _ => ⟨_, rfl⟩, fun _ => ⟨_, rfl⟩, fun _ => ⟨_, rfl⟩,
      fun _ h => absurd h List.not_mem_nil⟩

end Instruction

namespace Iss

open Specification

/-- What a word is decoded to: the instruction, expanded if it is compressed, and its operation. -/
def Decodes (word : Instruction) (instr : Instruction) (op : Mapping) : Prop :=
  if word.isCompressed then word.decodeAndExpandCompressed .RV32 = .ok (instr, op)
  else instr = word ∧ op = word.decodeNormal .RV32

/-- The control state after an instruction is decoded. -/
def decoded (c : Control) (instr : Instruction) (op : Mapping) : Control :=
  { c with instr, op, pc := c.pc + Specification.length c.instr.data }

/-- `decode` as one case distinction on the word. -/
theorem decode_apply (c : Control) : decode c = (if c.instr.isCompressed = true then
    match c.instr.decodeAndExpandCompressed .RV32 with
    | .error what => throw (.runtimeError what)
    | .ok (instr, op) => modify (fun c => { c with instr, op, pc := c.pc + 2 }) >>= fun _ =>
      if op ≠ .UNDEF then requireIsa CsrTable.C_ISA_EXT else pure ()
  else modify fun c => { c with op := c.instr.decodeNormal .RV32, pc := c.pc + 4 } :
  ControlM Unit) c := rfl

/-- A compressed instruction needs its extension, unless it is illegal anyway. -/
theorem decode_cases (c : Control) : ∃ instr op, Decodes c.instr instr op ∧
    decode c =
      if c.instr.isCompressed = true ∧ op ≠ .UNDEF ∧ c.csrs.hasCExtension = false then
        .error (decoded c instr op).illegalInstruction (decoded c instr op)
      else .ok () (decoded c instr op) := by
  rw [decode_apply]
  by_cases hcompressed : c.instr.isCompressed = true
  · obtain ⟨compressed, hc⟩ := Instruction.decodeCompressed_of_isCompressed hcompressed .RV32
    obtain ⟨⟨instr, op⟩, hd⟩ : ∃ r, c.instr.decodeAndExpandCompressed .RV32 = .ok r := by
      rw [Instruction.decodeAndExpandCompressed, hc]
      exact ⟨_, rfl⟩
    refine ⟨instr, op, ?_, ?_⟩
    · rw [Decodes, if_pos hcompressed]
      exact hd
    · rw [if_pos hcompressed, hd, decoded, Instruction.length_of_isCompressed hcompressed]
      change (if op ≠ .UNDEF then requireIsa CsrTable.C_ISA_EXT else pure () : ControlM Unit)
        { c with instr, op, pc := c.pc + 2 } = _
      by_cases hop : op = .UNDEF
      · rw [if_neg (not_not.mpr hop), if_neg fun h => h.2.1 hop]
        rfl
      · rw [if_pos hop, requireIsa_apply]
        change (if c.csrs.hasCExtension = true then _ else _) = _
        cases hC : c.csrs.hasCExtension with
        | true => rw [if_pos rfl, if_neg fun h => Bool.noConfusion h.2.2]
        | false => rw [if_neg Bool.noConfusion, if_pos ⟨hcompressed, hop, rfl⟩]
  · refine ⟨c.instr, c.instr.decodeNormal .RV32, ?_, ?_⟩
    · rw [Decodes, if_neg hcompressed]
      exact ⟨rfl, rfl⟩
    · rw [if_neg hcompressed, if_neg fun h => hcompressed h.1, decoded,
        Instruction.length_of_not_isCompressed hcompressed]
      rfl

/-! ## Fetching -/

variable {s₀ : Iss}

/-- Nothing architectural has changed but registers, memory, the interrupt lines, the program
counter and the current instruction. -/
def Settles (s₀ s : Iss) : Prop := ∃ pc instr op, Calm { s₀ with pc, instr, op } s

variable {s d : Iss} {word : Instruction}

theorem Calm.settles (h : Calm s₀ s) : Settles s₀ s := ⟨s₀.pc, s₀.instr, s₀.op, h⟩

/-- The state in which the instruction of a word is executed. -/
structure Prepared (s₀ : Iss) (word : Instruction) (d : Iss) : Prop where
  aligned : s₀.pc &&& ~~~s₀.pcAlignmentMask = 0#32
  decodes : Decodes word d.instr d.op
  extension : word.isCompressed = true → d.op = .UNDEF ∨ s₀.csrs.hasCExtension = true
  calm : Calm { s₀ with
    instr := d.instr, op := d.op, pc := s₀.pc + Specification.length word.data } d

/-- What `exec_step` does before it executes the instruction. -/
def prepare : IssM Unit := do
  fetch
  control decode
  control coverInstr

theorem execStep_eq_prepare : execStep = prepare >>= fun _ => get >>= fun s => execute s.op := by
  rw [prepare, bind_assoc, execStep]
  simp only [bind_assoc]

theorem execStep_of_prepare (h : prepare s = .ok () d) :
    execStep s = execute d.op d := by
  rw [execStep_eq_prepare, bind_of_ok h]
  rfl

/-- What `exec_step` may throw. -/
inductive StepThrows (s : Iss) : Exception → Prop where
  | disturbs {e : Exception} (h : Disturbs s e) : StepThrows s e
  | misalignedInstruction (h : s.pc &&& ~~~s.pcAlignmentMask ≠ 0#32) :
      StepThrows s (.abort .misalignedInstruction)
  | coverage (h : s.coverage = none) : StepThrows s (.abort .coverage)
  | execute {word : Instruction} {d : Iss} {e : Exception} (hrun : prepare s = .ok () d)
      (hd : Prepared s word d) (h : MayThrow d d.op e) : StepThrows s e

theorem Disturbs.stepThrows (e : Exception) (h : Disturbs s₀ e) : StepThrows s₀ e := .disturbs h

/-- Fetching, after the check of the alignment. -/
theorem triple_fetchWord (haligned : s₀.pc &&& ~~~s₀.pcAlignmentMask = 0#32) : Triple (Calm s₀) (do
      interface (Interface.note (.pc s₀.pc))
      match ← attempt (memory fun transact view =>
          Interface.loadInstr transact view s₀.pc) with
      | .ok memWord => control (modify fun s => { s with instr := ⟨memWord⟩ })
      | .error (.trap reason mtval) => do
          control (modify fun s => { s with op := .UNDEF, instr := ⟨0#32⟩ })
          raiseTrap reason mtval
      | .error e => throw e)
    (fun _ s => s₀.pc &&& ~~~s₀.pcAlignmentMask = 0#32 ∧ ∃ word, Calm { s₀ with instr := word } s)
    (fun e s => StepThrows s₀ e ∧ Settles s₀ s) := by
  have hload : Idles s₀ (StepThrows s₀) (memory fun transact view =>
      Interface.loadInstr transact view s₀.pc) :=
    idles_memory Disturbs.stepThrows fun _ htransact =>
      Interface.stays_loadInstr (stable_configured.reading htransact)
        (translationThrows_disturbs Disturbs.stepThrows _) _
  refine .bind (idles_note _).quiet fun _ => .bind hload.attempted fun r => ?_
  rintro u ⟨hr, hu⟩
  cases r with
  | ok word =>
    exact ⟨haligned, ⟨word⟩, hu.map (fun c => { c with instr := ⟨word⟩ }) (fun _ => rfl)
      (fun _ => rfl) fun _ => rfl⟩
  | error e =>
    cases e with
    | trap reason mtval =>
      exact ⟨.disturbs (.trap _ _), s₀.pc, ⟨0#32⟩, .UNDEF,
        hu.map (fun c => { c with op := .UNDEF, instr := ⟨0#32⟩ }) (fun _ => rfl)
          (fun _ => rfl) fun _ => rfl⟩
    | _ => exact ⟨hr _ rfl, hu.settles⟩

/-- The assertion on the alignment precedes the load of the word. -/
theorem triple_fetch : Triple (· = s₀) fetch
    (fun _ s => s₀.pc &&& ~~~s₀.pcAlignmentMask = 0#32 ∧ ∃ word, Calm { s₀ with instr := word } s)
    (fun e s => StepThrows s₀ e ∧ Settles s₀ s) := by
  refine .getBind fun s hs => ?_
  subst hs
  refine .bind (Q := fun _ t => t = s ∧ s.pc &&& ~~~s.pcAlignmentMask = 0#32) ?_ fun _ => ?_
  · refine triple_ensure (fun t ht h => ⟨ht, of_decide_eq_true h⟩) fun t ht h => ?_
    exact ⟨.misalignedInstruction (of_decide_eq_false h), ht ▸ (Calm.refl s).settles⟩
  rintro t ⟨rfl, haligned⟩
  exact triple_fetchWord haligned t (.refl t)

theorem coverInstr_apply (c : Control) : coverInstr c =
    match c.coverage with
    | none => .error (.abort .coverage) c
    | some coverage => .ok () { c with coverage := some (coverage.coverInstr c.lastPc) } := by
  change (match c.coverage with
    | none => throw (.abort .coverage)
    | some coverage => modify fun c => { c with coverage := some (coverage.coverInstr c.lastPc) } :
    ControlM Unit) c = _
  cases c.coverage <;> rfl

/-- Decoding moves the program counter even if the extension is missing. -/
theorem triple_decode : Triple
    (fun s => s₀.pc &&& ~~~s₀.pcAlignmentMask = 0#32 ∧ Calm { s₀ with instr := word } s)
    (control decode) (fun _ => Prepared s₀ word) (fun e s => StepThrows s₀ e ∧ Settles s₀ s) := by
  rintro s ⟨haligned, hcalm⟩
  obtain ⟨instr, op, hdecodes, hrun⟩ := decode_cases s.toControl
  have hword : s.instr = word := hcalm.drifts.instr
  have hpc : s.pc = s₀.pc := hcalm.drifts.pc
  have hC : s.csrs.hasCExtension = s₀.csrs.hasCExtension := hcalm.drifts.hasExtension _
  have hdecoded : Calm
      { s₀ with instr := instr, op := op, pc := s₀.pc + Specification.length word.data }
      { s with toControl := decoded s.toControl instr op } := by
    rw [decoded, hword, hpc]
    exact hcalm.map (fun c => { c with
      instr := instr, op := op, pc := s₀.pc + Specification.length word.data }) (fun _ => rfl)
      (fun _ => rfl) fun _ => rfl
  rw [control, zoom, hrun]
  split_ifs with hext
  · exact ⟨.disturbs (.trap _ _), _, _, _, hdecoded⟩
  · refine ⟨haligned, hword ▸ hdecodes, fun hcompressed => ?_, hdecoded⟩
    rw [hword, hC] at hext
    by_contra hnot
    rw [not_or, Bool.not_eq_true] at hnot
    exact hext ⟨hcompressed, hnot⟩

theorem Prepared.of_drifts {d' : Iss} (h : Prepared s₀ word d)
    (hcontrol : Drifts d.toControl d'.toControl) (hio : d'.io = d.io) :
    Prepared s₀ word d' := by
  obtain ⟨haligned, hdecodes, hext, hcalm⟩ := h
  have hinstr : d'.instr = d.instr := hcontrol.instr
  have hop : d'.op = d.op := hcontrol.op
  refine ⟨haligned, ?_, ?_, ?_⟩
  · rwa [hinstr, hop]
  · rwa [hop]
  · rw [hinstr, hop]
    exact ⟨hcalm.drifts.trans hcontrol, by rw [hio]; exact hcalm.mmu⟩

theorem Prepared.settles (h : Prepared s₀ word d) : Settles s₀ d :=
  ⟨_, _, _, h.calm⟩

theorem Calm.coverage (h : Calm s₀ s) (hs : s.coverage = none) : s₀.coverage = none := by
  have := h.drifts.field (fun c => c.coverage.map fun _ => ()) fun c => by
    rw [erase, Option.map_map]
  rw [hs] at this
  exact Option.map_eq_none_iff.mp this.symm

/-- The only failure is the missing instance of the coverage. -/
theorem triple_coverInstr : Maintains (Prepared s₀ word)
    (fun e s => StepThrows s₀ e ∧ Settles s₀ s) (control coverInstr) := by
  intro d hd
  rw [control, zoom, coverInstr_apply]
  cases hc : d.coverage with
  | none => exact ⟨.coverage (hd.calm.coverage hc), hd.settles⟩
  | some coverage =>
    refine hd.of_drifts (.of_erase ?_ rfl rfl) rfl
    simp only [erase, hc, Option.map_some]

/-! ## Executing -/

/-- The phases of `exec_step` before the `switch`, one after the other. -/
theorem triple_prepare : Triple (· = s₀) prepare (fun _ d => ∃ word, Prepared s₀ word d)
    (fun e s => StepThrows s₀ e ∧ Settles s₀ s) := by
  refine .bind triple_fetch fun _ => ?_
  rintro f ⟨haligned, word, hf⟩
  exact ((triple_decode.bind fun _ => triple_coverInstr).post (fun _ _ h => ⟨word, h⟩))
    f ⟨haligned, hf⟩

/-- The word that is decoded is the one that was fetched. -/
theorem prepared_of_fetch {f : Iss} (hfetch : fetch s = .ok () f) (h : prepare s = .ok () d) :
    Prepared s f.instr d := by
  obtain ⟨haligned, word, hf⟩ := triple_fetch.of_ok rfl hfetch
  obtain rfl : f.instr = word := hf.drifts.instr
  rw [prepare, bind_of_ok hfetch] at h
  exact (triple_decode.bind fun _ => triple_coverInstr).of_ok ⟨haligned, hf⟩ h

/-- The current instruction has been executed. -/
structure Completed (s₀ s : Iss) (word : Instruction) (d : Iss) : Prop where
  prepare : prepare s₀ = .ok () d
  prepared : Prepared s₀ word d
  legal : d.op ≠ .UNDEF
  run : execute d.op d = .ok () s
  executed : Executed d d.op s

/-- What the instruction throws is thrown from the prepared state. -/
theorem triple_execStep : Triple (· = s₀) execStep
    (fun _ s => ∃ word d, Completed s₀ s word d) (fun e s => StepThrows s₀ e ∧ Settles s₀ s) := by
  rintro s rfl
  cases hrun : prepare s with
  | error e t =>
    rw [execStep_eq_prepare, bind_of_error hrun]
    exact triple_prepare.of_error rfl hrun
  | ok _ d =>
    rw [execStep_of_prepare hrun]
    obtain ⟨word, hd⟩ := triple_prepare.of_ok rfl hrun
    by_cases hop : d.op = .UNDEF
    · rw [hop]
      exact ⟨.disturbs (.trap _ _), hd.settles⟩
    have hsteps := steps_execute d d.op
    cases hexecute : execute d.op d with
    | ok _ t => exact ⟨word, d, hrun, hd, hop, hexecute, hsteps.of_ok rfl hexecute⟩
    | error e t =>
      obtain ⟨he, pc, ht⟩ := hsteps.of_error rfl hexecute
      refine ⟨.execute hrun hd he, pc, d.instr, d.op, ?_⟩
      exact ⟨((hd.calm.setPc pc).drifts).trans ht.drifts, ht.mmu.trans hd.calm.mmu⟩

end Iss

/-! ## Traps and interrupts -/

namespace Control

/-- The cause register of a privilege mode. -/
def causeRegister (mode : PrivilegeLevel) : Csr :=
  if mode = MachineMode then .mcause else if mode = SupervisorMode then .scause else .ucause

/-- The trap value register of a privilege mode. -/
def tvalRegister (mode : PrivilegeLevel) : Csr :=
  if mode = MachineMode then .mtval else if mode = SupervisorMode then .stval else .utval

/-- The register of a privilege mode for the address of a trap. -/
def epcRegister (mode : PrivilegeLevel) : Csr :=
  if mode = MachineMode then .mepc else if mode = SupervisorMode then .sepc else .uepc

variable {mode : PrivilegeLevel} {c : Control} {reason : ExceptionCode}

/-- The modes that a trap handler runs in. -/
theorem mode_cases (h : mode ≠ 2#2) :
    mode = MachineMode ∨ mode = SupervisorMode ∨ mode = UserMode := by
  revert mode
  decide

/-- The state in the trap handler of a privilege mode. -/
def enter (c : Control) (mode : PrivilegeLevel) : Control :=
  Effect.final (switchToTrapHandler mode c)

/-- A handler exists for each privilege mode that has a name. -/
theorem switchToTrapHandler_ok (c : Control) (h : mode ≠ 2#2) :
    switchToTrapHandler mode c = .ok () (c.enter mode) := by
  obtain rfl | rfl | rfl := mode_cases h <;> rfl

theorem computePendingInterrupts_mode {pending : BitVec 32}
    (h : c.computePendingInterrupts = some (mode, pending)) : mode ≠ 2#2 := by
  simp only [computePendingInterrupts] at h
  split_ifs at h <;> cases h <;> decide

theorem prepareInterrupt_apply (c : Control) (h : mode ≠ 2#2)
    (pending : BitVec 32) : prepareInterrupt mode pending c =
      match interruptCause pending with
      | none => .error (.runtimeError "some pending interrupt must be available here") c
      | some exc =>
        .ok () { c with csrs := c.csrs.set (causeRegister mode) (causeOf true exc) } := by
  unfold prepareInterrupt
  cases interruptCause pending with
  | none => rfl
  | some exc => obtain rfl | rfl | rfl := mode_cases h <;> rfl

/-- The mode in which a trap is handled. -/
def trapMode (c : Control) (reason : ExceptionCode) : Option PrivilegeLevel :=
  if c.prv = MachineMode ∨ !c.csrs.bit .medeleg reason.toNat then some MachineMode
  else if c.prv = SupervisorMode ∨ !c.csrs.bit .sedeleg reason.toNat then some SupervisorMode
  else if c.prv = UserMode then some UserMode
  else none

/-- The state before the handler of a trap is entered. -/
def trapped (c : Control) (mode : PrivilegeLevel) (reason : ExceptionCode) (mtval : BitVec 64) :
    Control :=
  { c with
    pc := c.lastPc
    csrs := (c.csrs.set (causeRegister mode) (causeOf false reason)).set (tvalRegister mode)
      (mtval.setWidth 32) }

/-- A trap is never delegated to the reserved mode. -/
theorem trapMode_ne
    (h : c.trapMode reason = some mode) : mode ≠ 2#2 := by
  unfold trapMode at h
  split_ifs at h <;> cases h <;> decide

/-- Only the reserved mode has no handler. -/
theorem prv_of_trapMode (h : c.trapMode reason = none) :
    c.prv = 2#2 := by
  unfold trapMode at h
  split_ifs at h with hm hs hu
  rw [not_or] at hm hs
  exact Iss.privilegeLevel_cases _ hm.1 hs.1 hu

/-- The cause is written even if the cast of the trap value fails. -/
theorem setTrap_apply (cause tval : Csr) (reason : ExceptionCode) (mtval : BitVec 64)
    (c : Control) :
    setTrap cause tval reason mtval c =
      let csrs := c.csrs.set cause (causeOf false reason)
      if mtval.toNat < 2 ^ 32 then .ok () { c with csrs := csrs.set tval (mtval.setWidth 32) }
      else .error (.runtimeError
        "bad lexical cast: source type value could not be interpreted as target")
          { c with csrs } := by
  change (if mtval.toNat < 2 ^ 32 then modifyCsrs fun t => t.set tval (mtval.setWidth 32)
    else throw (.runtimeError
      "bad lexical cast: source type value could not be interpreted as target") : ControlM Unit)
    { c with csrs := c.csrs.set cause (causeOf false reason) } = _
  dsimp only
  split <;> rfl

/-- The delegation of the source as one cascade. -/
theorem prepareTrap_eq (reason : ExceptionCode) (mtval : BitVec 64) (c : Control) :
    prepareTrap reason mtval c = (
      if c.prv = MachineMode ∨ !c.csrs.bit .medeleg reason.toNat then do
        setTrap .mcause .mtval reason mtval
        return MachineMode
      else if c.prv = SupervisorMode ∨ !c.csrs.bit .sedeleg reason.toNat then do
        setTrap .scause .stval reason mtval
        return SupervisorMode
      else do
        ensure .privilegeMode (c.prv = UserMode)
        setTrap .ucause .utval reason mtval
        return UserMode : ControlM PrivilegeLevel) { c with pc := c.lastPc } :=
  rfl

/-- `prepare_trap` finds a mode, unless the current one is none of the three. -/
theorem prepareTrap_of_none (mtval : BitVec 64)
    (h : c.trapMode reason = none) :
    prepareTrap reason mtval c = .error (.abort .privilegeMode) { c with pc := c.lastPc } := by
  unfold trapMode at h
  split_ifs at h with hm hs hu
  rw [prepareTrap_eq, if_neg hm, if_neg hs, decide_eq_false hu]
  rfl

theorem prepareTrap_eq_setTrap
    (mtval : BitVec 64) (h : c.trapMode reason = some mode) :
    prepareTrap reason mtval c =
      (setTrap (causeRegister mode) (tvalRegister mode) reason mtval >>= fun _ => pure mode)
        { c with pc := c.lastPc } := by
  unfold trapMode at h
  split_ifs at h with hm hs hu
  · cases h
    rw [prepareTrap_eq, if_pos hm]
    rfl
  · cases h
    rw [prepareTrap_eq, if_neg hm, if_pos hs]
    rfl
  · cases h
    rw [prepareTrap_eq, if_neg hm, if_neg hs, decide_eq_true hu]
    rfl

/-- The value of a trap that does not fit the register ends the process. -/
theorem prepareTrap_of_some
    (mtval : BitVec 64) (h : c.trapMode reason = some mode) :
    prepareTrap reason mtval c =
      if mtval.toNat < 2 ^ 32 then .ok mode (c.trapped mode reason mtval)
      else .error (.runtimeError
        "bad lexical cast: source type value could not be interpreted as target")
        { c with
          pc := c.lastPc
          csrs := c.csrs.set (causeRegister mode) (causeOf false reason) } := by
  rw [prepareTrap_eq_setTrap mtval h]
  split
  · next hmtval =>
    rw [bind_of_ok (by rw [setTrap_apply]; exact if_pos hmtval)]
    rfl
  · next hmtval => exact bind_of_error (by rw [setTrap_apply]; exact if_neg hmtval)

end Control

/-! ## Turns -/

namespace Iss

variable {s₀ : Iss}

/-- The state in a trap handler. -/
def Enters (s₀ : Iss) (mode : PrivilegeLevel) (s : Iss) : Prop :=
  ∃ t, Calm s₀ t ∧ s.toControl = t.toControl.enter mode ∧ Configured s₀ s.io

variable {mode : PrivilegeLevel} {E : Exception → Iss → Prop} {e b s : Iss}

/-- Entering a handler first gives up the reservation. -/
theorem triple_switchToTrapHandler (hmode : mode ≠ 2#2) :
    Triple (Calm s₀) (switchToTrapHandler mode) (fun _ => Enters s₀ mode) E := by
  refine .bind idles_releaseLrScReservation.quiet fun _ => ?_
  intro t ht
  rw [control_ok (switchToTrapHandler_ok t.toControl hmode)]
  exact ⟨t, ht, rfl, ht.mmu⟩

/-- The state after the `try` block of `run_step`. -/
inductive Ends (s₀ s : Iss) : Prop where
  | completed {word : Instruction} {d : Iss} (h : Completed s₀ s word d)
      (hpending : s.computePendingInterrupts = none)
  | interrupted {word : Instruction} {d e : Iss} {mode : PrivilegeLevel} {pending : BitVec 32}
      {exc : ExceptionCode} (h : Completed s₀ e word d)
      (hpending : e.computePendingInterrupts = some (mode, pending))
      (hcause : interruptCause pending = some exc)
      (hs : Enters { e with
        csrs := e.csrs.set (causeRegister mode) (causeOf true exc) } mode s)
  | trapped {e : Iss} {reason : ExceptionCode} {mtval : BitVec 64} {mode : PrivilegeLevel}
      (h : Settles s₀ e) (hmode : e.trapMode reason = some mode)
      (hs : Enters { e with toControl := e.toControl.trapped mode reason mtval } mode s)

/-- What `run_step` may throw. -/
inductive TurnThrows (s : Iss) : Exception → Prop where
  | step {e : Exception} (h : StepThrows s e) : TurnThrows s e
  | interruptCause {word : Instruction} {d t : Iss} {mode : PrivilegeLevel} {pending : BitVec 32}
      (h : Completed s t word d)
      (hpending : t.computePendingInterrupts = some (mode, pending))
      (hcause : interruptCause pending = none) :
      TurnThrows s (.runtimeError "some pending interrupt must be available here")
  | badCast : TurnThrows s (.runtimeError
      "bad lexical cast: source type value could not be interpreted as target")
  | privilegeMode (h : s.prv = 2#2) : TurnThrows s (.abort .privilegeMode)

theorem takeInterrupt_apply (e : Iss) : takeInterrupt e = (match e.computePendingInterrupts with
    | none => pure ()
    | some (targetMode, pending) => do
        control (prepareInterrupt targetMode pending)
        switchToTrapHandler targetMode : IssM Unit) e := rfl

theorem takeInterrupt_of_none (h : e.computePendingInterrupts = none) :
    takeInterrupt e = .ok () e := by
  rw [takeInterrupt_apply, h]
  rfl

theorem takeInterrupt_of_some {pending : BitVec 32}
    {exc : ExceptionCode} (h : e.computePendingInterrupts = some (mode, pending))
    (hcause : interruptCause pending = some exc) :
    takeInterrupt e = switchToTrapHandler mode { e with
      csrs := e.csrs.set (causeRegister mode) (causeOf true exc) } := by
  rw [takeInterrupt_apply, h]
  have hprepare : prepareInterrupt mode pending e.toControl = .ok () { e.toControl with
      csrs := e.csrs.set (causeRegister mode) (causeOf true exc) } := by
    rw [prepareInterrupt_apply _ (computePendingInterrupts_mode h), hcause]
  exact bind_of_ok (control_ok hprepare)

theorem takeInterrupt_of_not_cause {pending : BitVec 32}
    (h : e.computePendingInterrupts = some (mode, pending))
    (hcause : interruptCause pending = none) : takeInterrupt e =
      .error (.runtimeError "some pending interrupt must be available here") e := by
  rw [takeInterrupt_apply, h]
  have hprepare : prepareInterrupt mode pending e.toControl =
      .error (.runtimeError "some pending interrupt must be available here") e.toControl := by
    rw [prepareInterrupt_apply _ (computePendingInterrupts_mode h), hcause]
  exact bind_of_error (control_error hprepare)

/-- The `try` block of `run_step` after an instruction. -/
theorem stepOrTrap_of_ok {t : Iss} (hstep : execStep b = .ok () e)
    (hinterrupt : takeInterrupt e = .ok () t) : stepOrTrap b = .ok () t := by
  have htry : (do execStep; takeInterrupt) b = .ok () t := (bind_of_ok hstep).trans hinterrupt
  rw [stepOrTrap, bind_of_ok (attempt_of_ok htry)]
  rfl

/-- The `try` block of `run_step` catches traps only. -/
theorem stepOrTrap_of_runtimeError {t : Iss} {what : String} (hstep : execStep b = .ok () e)
    (hinterrupt : takeInterrupt e = .error (.runtimeError what) t) :
    stepOrTrap b = .error (.runtimeError what) t := by
  have htry : (do execStep; takeInterrupt) b = .error (.runtimeError what) t :=
    (bind_of_ok hstep).trans hinterrupt
  rw [stepOrTrap, bind_of_ok (attempt_of_error htry)]
  rfl

/-- The `try` block of `run_step` after a trap. -/
theorem stepOrTrap_of_trap {reason : ExceptionCode} {mtval : BitVec 64}
    (hstep : execStep b = .error (.trap reason mtval) e) : stepOrTrap b = (do
      let targetMode ← control (prepareTrap reason mtval)
      switchToTrapHandler targetMode) e := by
  have htry : (do execStep; takeInterrupt) b = .error (.trap reason mtval) e :=
    bind_of_error hstep
  rw [stepOrTrap, bind_of_ok (attempt_of_error htry)]

/-- The instruction has been executed before an interrupt is taken. -/
theorem triple_takeInterrupt : Triple (fun s => ∃ word d, Completed s₀ s word d)
    takeInterrupt (fun _ => Ends s₀)
    (fun e s => TurnThrows s₀ e ∧ ∀ reason mtval, e = .trap reason mtval → Settles s₀ s) := by
  refine .getBind fun e h => ?_
  obtain ⟨word, d, he⟩ := h
  cases hpending : e.computePendingInterrupts with
  | none => exact .pure fun _ h => h ▸ .completed he hpending
  | some target =>
    obtain ⟨mode, pending⟩ := target
    have hmode := computePendingInterrupts_mode hpending
    refine .bind (Q := fun _ s => ∃ exc, interruptCause pending = some exc ∧ s = { e with
      csrs := e.csrs.set (causeRegister mode) (causeOf true exc) }) ?_ fun _ => ?_
    · rintro s rfl
      rw [control, zoom, prepareInterrupt_apply _ hmode]
      cases hcause : interruptCause pending with
      | none => exact ⟨.interruptCause he hpending hcause, fun _ _ h => by cases h⟩
      | some exc => exact ⟨exc, rfl, rfl⟩
    · rintro s ⟨exc, hcause, rfl⟩
      exact (triple_switchToTrapHandler hmode).conseq (fun _ h => h)
        (fun _ _ h => Ends.interrupted he hpending hcause h) (fun _ _ h => h) _ (.refl _)

theorem Settles.prv (h : Settles s₀ s) : s.prv = s₀.prv := by
  obtain ⟨pc, instr, op, hcalm⟩ := h
  exact hcalm.drifts.prv

/-- The handler of `run_step` for a trap. -/
theorem triple_handler (reason : ExceptionCode) (mtval : BitVec 64) :
    Triple (Settles s₀) (do
      let targetMode ← control (prepareTrap reason mtval)
      switchToTrapHandler targetMode) (fun _ => Ends s₀) (fun e _ => TurnThrows s₀ e) := by
  intro e he
  cases hmode : e.trapMode reason with
  | none =>
    have hprepare := prepareTrap_of_none mtval hmode
    rw [bind_of_error (control_error hprepare)]
    exact .privilegeMode (he.prv.symm.trans (prv_of_trapMode hmode))
  | some mode =>
    have hprepare := prepareTrap_of_some mtval hmode
    split_ifs at hprepare
    · rw [bind_of_ok (control_ok hprepare)]
      exact (triple_switchToTrapHandler (trapMode_ne hmode)).conseq (fun _ h => h)
        (fun _ _ h => Ends.trapped he hmode h) (fun _ _ h => h) _ (.refl _)
    · rw [bind_of_error (control_error hprepare)]
      exact .badCast

/-- The handler catches a trap; every other exception ends the run. -/
theorem triple_stepOrTrap : Triple (· = s₀) stepOrTrap (fun _ => Ends s₀)
    (fun e _ => TurnThrows s₀ e) := by
  have htry : Triple (· = s₀) (do execStep; takeInterrupt) (fun _ => Ends s₀)
      (fun e s => TurnThrows s₀ e ∧ ∀ reason mtval, e = .trap reason mtval → Settles s₀ s) :=
    .bind (triple_execStep.exc fun _ _ h => ⟨.step h.1, fun _ _ _ => h.2⟩) fun _ =>
      triple_takeInterrupt
  refine .bind htry.attempt fun r => ?_
  cases r with
  | ok _ => exact .keepPure
  | error e =>
    cases e with
    | trap reason mtval =>
      exact (triple_handler reason mtval).pre (fun _ h => h.2 reason mtval rfl)
    | _ => exact .throw fun _ h => h.1

/-! ## Counters -/

/-- What the counters of `run_step` change. -/
structure Counts (c c' : Control) : Prop where
  same : c' = { c with csrs := c'.csrs, cycleCounter := c'.cycleCounter }
  csrs : ∀ csr ∉ [Csr.instret, .instreth], c'.csrs csr = c.csrs csr

/-- Nothing architectural has changed but registers, memory, the interrupt lines and the
counters. -/
def Retires (s₀ s : Iss) : Prop :=
  ∃ c, Counts s₀.toControl c ∧ Calm { s₀ with toControl := c } s

/-- What `run_step` does after the `try` block. -/
def retire : IssM Unit := do
  write zero REG_ZERO
  control (modify fun s => if s.shallExit then { s with status := .Terminated } else s)
  performanceAndSyncUpdate

theorem retires_of_idles {α : Type} {x : IssM α} (hx : ∀ s₁, Idles s₁ (fun _ => False) x) :
    Maintains (Retires s₀) E x := by
  rintro s ⟨c, hcounts, hcalm⟩
  exact (hx _).quiet.post (fun _ _ h => ⟨c, hcounts, h⟩) s hcalm

/-- A change of the counters. -/
theorem Retires.map (h : Retires s₀ s) (low high : BitVec 32) (cycles : Nat) :
    Retires s₀ { s with
      csrs := (s.csrs.set .instret low).set .instreth high
      cycleCounter := cycles } := by
  obtain ⟨c, hcounts, hcalm⟩ := h
  let count : Control → Control := fun c =>
    { c with csrs := (c.csrs.set .instret low).set .instreth high, cycleCounter := cycles }
  refine ⟨count c, ⟨?_, fun csr hcsr => ?_⟩, hcalm.map count (fun c => ?_) (fun _ => rfl)
    fun c => ?_⟩
  · rw [hcounts.same]
  · simp only [List.mem_cons, List.not_mem_nil, or_false, not_or] at hcsr
    rw [← hcounts.csrs csr (by simpa using hcsr)]
    exact (CsrTable.set_of_ne hcsr.2 _ _).trans (CsrTable.set_of_ne hcsr.1 _ _)
  · simp only [count, erase, CsrTable.set]
    rw [Function.update_comm (show Csr.instreth ≠ .mip by decide),
      Function.update_comm (show Csr.instret ≠ .mip by decide)]
  · simp [count]

theorem set_self (t : CsrTable) (csr : Csr) : t.set csr (t csr) = t := Function.update_eq_self csr t

/-- `mcountinhibit` may leave the counter as it is. -/
theorem retires_countInstruction :
    Maintains (Retires s₀) E (control countInstruction) := by
  intro s h
  change Retires s₀ { s with toControl := if s.csrs.bit .mcountinhibit 2 = true then _ else _ }
  split_ifs
  · exact h
  · exact h.map _ _ s.cycleCounter

theorem retires_countCycles :
    Maintains (Retires s₀) E (control countCycles) := by
  intro s h
  change Retires s₀ { s with toControl := if s.csrs.bit .mcountinhibit 0 = true then _ else _ }
  split_ifs
  · exact h
  · have hmap := h.map (s.csrs .instret) (s.csrs .instreth)
      (s.cycleCounter + instrCycles s.op)
    rw [set_self, set_self] at hmap
    exact hmap

theorem idles_ageReservation {K : Exception → Prop} : Idles s₀ K ageReservation :=
  .bind .keepGet fun _ => .ite (fun _ => .bind
    (idles_control fun _ => .of_erase rfl rfl rfl) fun _ =>
      .ite (fun _ => idles_releaseLrScReservation) fun _ => .keepPure)
    fun _ => .keepPure

/-- Every part of the epilogue touches the counters or nothing of `Calm`. -/
theorem triple_retire :
    Triple (· = s₀) retire (fun _ => Retires s₀) E := by
  have hrun : Maintains (Retires s₀) E retire := by
    refine .bind (retires_of_idles fun _ => idles_write _ _) fun _ =>
      .bind (retires_of_idles fun _ => idles_control fun c => ?_) fun _ =>
      .bind retires_countInstruction fun _ =>
      .bind (retires_of_idles fun _ => idles_ageReservation) fun _ =>
      .bind retires_countCycles fun _ => .bind .keepGet fun _ =>
      .ite (fun _ => retires_of_idles fun _ => idles_synchronise) fun _ => .keepPure
    split
    · exact .of_erase rfl rfl rfl
    · exact .refl c
  exact hrun.pre (fun _ h => h ▸ ⟨_, ⟨rfl, fun _ _ => rfl⟩, .refl _⟩)

/-! ## The whole step -/

/-- The state in which `run_step` calls `exec_step`. -/
def begun (s : Iss) : Iss :=
  { s with
    lastPc := s.pc
    io := { s.io with log := s.io.log ++ [.concretised ⟨32, (s.regs zero).value⟩] } }

/-- What `run_step` comes to. -/
inductive Turn (s s' : Iss) : Prop where
  | breakpoint (h : Calm s s')
  | step {t : Iss} (hends : Ends s.begun t) (hretires : Retires t s')

theorem readRegister_zero (s : Iss) :
    readRegister zero s = .ok (s.regs zero).value.concrete { s with
    io := { s.io with log := s.io.log ++ [.concretised ⟨32, (s.regs zero).value⟩] } } := rfl

/-- Past the assertion and the breakpoint, `run_step` is its `try` block. -/
theorem runStep_eq (hzero : (s.regs zero).value.concrete = 0#32)
    (hbreak : ¬(s.debugMode = true ∧ s.pc ∈ s.breakpoints)) :
    runStep s = (stepOrTrap >>= fun _ => retire) s.begun := by
  rw [runStep, bind_of_ok (readRegister_zero s), hzero]
  change (if s.debugMode = true ∧ s.pc ∈ s.breakpoints then _ else _ : IssM Unit) _ = _
  rw [if_neg hbreak]
  rfl

/-- The assertion on the register `zero` is the first thing checked. -/
theorem runStep_of_zero_ne (hzero : (s.regs zero).value.concrete ≠ 0#32) :
    ∃ t, runStep s = .error (.abort .zeroRegister) t := by
  rw [runStep, bind_of_ok (readRegister_zero s), decide_eq_false hzero]
  exact ⟨_, rfl⟩

theorem zero_of_runStep {s' : Iss} (h : runStep s = .ok () s') :
    (s.regs zero).value.concrete = 0#32 := by
  by_contra hzero
  obtain ⟨t, ht⟩ := runStep_of_zero_ne hzero
  cases ht.symm.trans h

/-- The core stops at a breakpoint. -/
theorem runStep_of_breakpoint (hzero : (s.regs zero).value.concrete = 0#32)
    (hbreak : s.debugMode = true ∧ s.pc ∈ s.breakpoints) : runStep s = .ok () { s with
      status := .HitBreakpoint
      io := { s.io with log := s.io.log ++ [.concretised ⟨32, (s.regs zero).value⟩] } } := by
  rw [runStep, bind_of_ok (readRegister_zero s), hzero]
  change (if s.debugMode = true ∧ s.pc ∈ s.breakpoints then _ else _ : IssM Unit) _ = _
  rw [if_pos hbreak]
  rfl

/-- The assertion, the breakpoint and the `try` block, in this order. -/
theorem triple_runStep : Triple (· = s₀) runStep (fun _ => Turn s₀)
    (fun e _ => TurnThrows s₀.begun e ∨
      (e = .abort .zeroRegister ∧ (s₀.regs zero).value.concrete ≠ 0#32)) := by
  rintro s rfl
  by_cases hzero : (s.regs zero).value.concrete = 0#32
  · by_cases hbreak : s.debugMode = true ∧ s.pc ∈ s.breakpoints
    · rw [runStep_of_breakpoint hzero hbreak]
      exact .breakpoint ⟨.of_erase rfl rfl rfl, rfl⟩
    · rw [runStep_eq hzero hbreak]
      exact Triple.bind (triple_stepOrTrap.exc fun _ _ h => Or.inl h) (fun _ t ht =>
        triple_retire.post (fun _ _ h => Turn.step ht h) t rfl) s.begun rfl
  · obtain ⟨t, hrun⟩ := runStep_of_zero_ne hzero
    rw [hrun]
    exact .inr ⟨rfl, hzero⟩

end Iss

end SpsVp.Rv32
