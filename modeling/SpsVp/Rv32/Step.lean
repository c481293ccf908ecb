import SpsVp.Rv32.Rules

/-!
# What a step of the core can do

`Executed` says what an instruction may do to the control state: nothing at all, a jump, an access
to a control and status register, or the return from a trap handler. `MayThrow` says what it may
throw, and in which states. Both hold for every instruction, and the invariants of the core follow
from them. -/

namespace SpsVp.Rv32

open Lib Effect Clover Klee Platform Interface Control

namespace Iss

open Specification

/-! ## Instructions by their effect -/

def jumps : List Mapping := .JAL :: .JALR :: branches

def csrInstructions : List Mapping := [.CSRRW, .CSRRS, .CSRRC, .CSRRWI, .CSRRSI, .CSRRCI]

def amos : List Mapping :=
  [.AMOSWAP_W, .AMOADD_W, .AMOXOR_W, .AMOAND_W, .AMOOR_W, .AMOMIN_W, .AMOMINU_W, .AMOMAX_W,
    .AMOMAXU_W]

def loads : List Mapping := [.LB, .LH, .LW, .LBU, .LHU]

def stores : List Mapping := [.SB, .SH, .SW]

/-- The operations with a `case` in `exec_step`. -/
def handled : List Mapping :=
  instructions ++ [.JAL, .JALR] ++ loads ++ stores ++ csrInstructions ++ amos ++
    [.UNDEF, .FENCE, .FENCE_I, .ECALL, .EBREAK, .LR_W, .SC_W, .WFI, .MRET]

/-- The word that an instruction writes to a control and status register, from the one it read. -/
def csrOperand (s : Iss) (op : Mapping) (old : BitVec 32) : BitVec 32 :=
  let operand := (s.regs s.instr.rs1).value.concrete
  match op with
  | .CSRRS => old ||| operand
  | .CSRRC => old &&& ~~~operand
  | .CSRRWI => s.instr.zimm
  | .CSRRSI => old ||| s.instr.zimm
  | .CSRRCI => old &&& ~~~s.instr.zimm
  | _ => operand

/-- What an instruction on a control and status register would write is a given word. -/
def Operand (s : Iss) (op : Mapping) (value : BitVec 32) : Prop :=
  ∀ old c, getCsrValue s.instr.csr s.toControl = .ok old c → value = csrOperand s op old

/-- What an instruction may throw. -/
inductive MayThrow (s : Iss) (op : Mapping) : Exception → Prop where
  | disturbs {e : Exception} (h : Disturbs s e) : MayThrow s op e
  | oddTarget (h : s.lastPc.toNat % 2 ≠ 0) : MayThrow s op (.abort .oddTarget)
  | unknownPrivilegeLevel (h : s.prv = 2#2) :
      MayThrow s op (.runtimeError ("unknown privilege level " ++ toString s.prv.toNat))
  | busLock (h : op ∈ amos) : MayThrow s op (.abort .busLock)
  | unknownOpcode (h : op ∉ handled) : MayThrow s op (.runtimeError "unknown opcode")

/-- What an instruction that returns may have done to the control state. -/
inductive Executed (s₀ : Iss) (op : Mapping) (s : Iss) : Prop where
  | idle (h : Calm s₀ s)
  | jump (target : BitVec 32) (hop : op ∈ jumps) (heven : target.toNat % 2 = 0)
      (haligned : s₀.csrs.hasCExtension = false → target.toNat % 4 = 0)
      (h : Calm { s₀ with pc := target } s)
  | csr {c : Control} {value : BitVec 32} {t : CsrTable} (hop : op ∈ csrInstructions)
      (hprv : csrPrv s₀.instr.csr ≤ s₀.prv) (hread : Control.Reads s₀.toControl c)
      (hvalue : Operand s₀ op value)
      (hwrite : Writes c s₀.instr.csr value t) (hcontrol : s.toControl = { c with csrs := t })
      (hmmu : Configured s₀ s.io)
  | mret (hop : op = .MRET)
      (hcontrol : s.toControl = Effect.final (returnFromTrapHandler s₀.toControl))
      (hmmu : Configured s₀ s.io)

/-- An instruction that throws has changed nothing architectural but registers, memory, the
interrupt lines and the program counter. -/
def Stopped (s₀ : Iss) (op : Mapping) (e : Exception) (s : Iss) : Prop :=
  MayThrow s₀ op e ∧ ∃ pc, Calm { s₀ with pc } s

/-- What an instruction does, as a pre- and postcondition. -/
abbrev Steps (s₀ : Iss) (op : Mapping) (x : IssM Unit) : Prop :=
  Triple (· = s₀) x (fun _ => Executed s₀ op) (Stopped s₀ op)

variable {s₀ : Iss} {op : Mapping}

variable {x : IssM Unit} {w : Nat} {α : Type} {K : Exception → Prop} {s : Iss}
  {E : Exception → Iss → Prop} {target : BitVec 32}

/-- An instruction that leaves the control state alone. -/
theorem Steps.of_idles (hx : Idles s₀ (MayThrow s₀ op) x) : Steps s₀ op x :=
  hx.conseq (fun _ h => h ▸ .refl _) (fun _ _ h => .idle h) fun _ _ h => ⟨h.1, s₀.pc, h.2⟩

theorem Disturbs.mayThrow (e : Exception) (h : Disturbs s₀ e) : MayThrow s₀ op e := .disturbs h

theorem calm_trace (cond : Bool) (log : List Event) (h : Calm s₀ s) : Calm s₀ { s with
    coverage := s.coverage.map (·.coverBranch s.lastPc cond), io := { s.io with log } } := by
  refine ⟨h.drifts.trans (.of_erase ?_ rfl rfl), h.mmu⟩
  rw [erase, erase, Option.map_map]
  rfl

theorem framed_idles (hK : ∀ e, Disturbs s₀ e → K e) :
    FramedAccess (Calm s₀) (Calm s₀) fun e s => K e ∧ Calm s₀ s where
  weaken := fun _ h => h
  log := fun _ _ h => ⟨h.drifts, h.mmu⟩
  illegal := fun _ h => ⟨hK _ (.trap _ _), h⟩
  assign := fun _ _ _ h => ⟨h.drifts, h.mmu⟩
  copy := fun _ _ _ h => ⟨h.drifts, h.mmu⟩
  trace := fun _ cond log h => calm_trace cond log h
  misaligned := fun _ _ _ h => ⟨hK _ (.trap _ _), h⟩

theorem idles_trackAndTraceBranch (cond : Bool) (expr : ConcolicValue 1) :
    Idles s₀ K (trackAndTraceBranch cond expr) :=
  triple_trackAndTraceBranch (fun _ log h => calm_trace cond log h) expr

/-! ## Jumps -/

theorem and_one_eq_zero_iff (x : BitVec 32) : x &&& 1#32 = 0#32 ↔ x.toNat % 2 = 0 := by
  rw [← BitVec.toNat_inj, BitVec.toNat_and]
  exact Nat.and_one_is_mod x.toNat ▸ Iff.rfl

theorem and_three_eq_zero_iff (x : BitVec 32) : x &&& 3#32 = 0#32 ↔ x.toNat % 4 = 0 := by
  rw [← BitVec.toNat_inj, BitVec.toNat_and]
  exact Nat.and_two_pow_sub_one_eq_mod x.toNat 2 ▸ Iff.rfl

/-- An address that `exec_step` accepts is even, and a multiple of four without compressed
instructions. -/
theorem aligned_iff (c : Control) (pc : BitVec 32) : pc &&& ~~~c.pcAlignmentMask = 0#32 ↔
    pc.toNat % 2 = 0 ∧ (c.csrs.hasCExtension = false → pc.toNat % 4 = 0) := by
  rw [pcAlignmentMask]
  cases c.csrs.hasCExtension with
  | true =>
    rw [if_pos rfl, BitVec.not_not, and_one_eq_zero_iff]
    exact ⟨fun h => ⟨h, nofun⟩, fun h => h.1⟩
  | false =>
    rw [if_neg Bool.noConfusion, BitVec.not_not, and_three_eq_zero_iff]
    exact ⟨fun h => ⟨by omega, fun _ => h⟩, fun h => h.2 rfl⟩

/-- Only a target that is no multiple of four is refused, and only without C. -/
theorem isMisaligned_iff (c : Control) :
    c.isMisaligned = true ↔ c.pc.toNat % 4 ≠ 0 ∧ c.csrs.hasCExtension = false := by
  rw [isMisaligned, Bool.and_eq_true, decide_eq_true_iff, ne_eq, and_three_eq_zero_iff,
    Bool.not_eq_true']

/-- `trap_check_pc_alignment` by cases. -/
theorem trapCheckPcAlignment_apply (c : Control) : trapCheckPcAlignment c =
    if c.pc.toNat % 2 ≠ 0 then .error (.abort .oddTarget) c
    else if c.isMisaligned = true then
      .error (.trap .EXC_INSTR_ADDR_MISALIGNED (c.pc.setWidth 64)) c
    else .ok () c := by
  change (ensure .oddTarget (decide (c.pc &&& 1#32 = 0#32)) >>= fun _ =>
    if c.isMisaligned = true then raiseTrap .EXC_INSTR_ADDR_MISALIGNED (c.pc.setWidth 64)
    else pure () : ControlM Unit) c = _
  by_cases hodd : c.pc.toNat % 2 = 0
  · rw [if_neg (not_not.mpr hodd), (and_one_eq_zero_iff c.pc).mpr hodd]
    cases c.isMisaligned <;> rfl
  · rw [if_pos hodd, decide_eq_false fun h => hodd ((and_one_eq_zero_iff c.pc).mp h)]
    rfl

/-- A change of the control state that has nothing to do with what may drift. -/
theorem Calm.map (h : Calm s₀ s) (f : Control → Control)
    (herase : ∀ c, (f c).erase = f c.erase) (hlines : ∀ c, (f c).lines = c.lines)
    (hmip : ∀ c, (f c).csrs .mip = c.csrs .mip) :
    Calm { s₀ with toControl := f s₀.toControl } { s with toControl := f s.toControl } := by
  obtain ⟨changes, hchanges, hpending⟩ := h.drifts.lines
  refine ⟨⟨?_, changes, ?_, ?_⟩, h.mmu⟩
  · rw [herase, herase, h.drifts.erase]
  · rw [hlines, hlines, hchanges]
  · rw [hmip, hmip, hpending]

theorem Calm.setPc (h : Calm s₀ s) (pc : BitVec 32) :
    Calm { s₀ with pc } { s with pc } :=
  h.map (fun c => { c with pc }) (fun _ => rfl) (fun _ => rfl) fun _ => rfl

theorem triple_setPc (pc : BitVec 32) :
    Triple (Calm s₀) (control (setPc pc)) (fun _ => Calm { s₀ with pc }) E :=
  .modify fun _ h => h.setPc pc

/-- A jump that is not refused goes to an aligned address. -/
theorem triple_trapCheckPcAlignment : Triple (Calm s₀) (control trapCheckPcAlignment)
    (fun _ s => Calm s₀ s ∧ s₀.pc.toNat % 2 = 0 ∧
      (s₀.csrs.hasCExtension = false → s₀.pc.toNat % 4 = 0))
    fun e s => ((∃ mtval, e = .trap .EXC_INSTR_ADDR_MISALIGNED mtval) ∨
      (s₀.pc.toNat % 2 ≠ 0 ∧ e = .abort .oddTarget)) ∧ Calm s₀ s := by
  intro s hs
  have hpc : s.pc = s₀.pc := hs.drifts.pc
  have hC : s.csrs.hasCExtension = s₀.csrs.hasCExtension := hs.drifts.hasExtension _
  rw [control, zoom, trapCheckPcAlignment_apply, ← hpc, ← hC]
  split_ifs with hodd hmisaligned
  · exact ⟨.inr ⟨hodd, rfl⟩, hs⟩
  · exact ⟨.inl ⟨_, rfl⟩, hs⟩
  · refine ⟨hs, not_not.mp hodd, fun hnot => ?_⟩
    rw [isMisaligned_iff, not_and'] at hmisaligned
    exact not_not.mp (hmisaligned hnot)

/-- A refused jump, where the target is even whenever the address of the instruction is. -/
theorem stopped_of_target {e : Exception}
    (htarget : s₀.lastPc.toNat % 2 = 0 → target.toNat % 2 = 0)
    (h : ((∃ mtval, e = .trap .EXC_INSTR_ADDR_MISALIGNED mtval) ∨
      (target.toNat % 2 ≠ 0 ∧ e = .abort .oddTarget)) ∧ Calm { s₀ with pc := target } s) :
    Stopped s₀ op e s := by
  obtain ⟨⟨mtval, rfl⟩ | ⟨hodd, rfl⟩, hcalm⟩ := h
  · exact ⟨.disturbs (.trap _ _), target, hcalm⟩
  · exact ⟨.oddTarget fun heven => hodd (htarget heven), target, hcalm⟩

/-- An immediate without its lowest bit keeps a program counter even. -/
theorem even_add_of_bit {x imm : BitVec 32} (himm : imm.getLsbD 0 = false)
    (hx : x.toNat % 2 = 0) : (x + imm).toNat % 2 = 0 := by
  have hmod : imm.toNat % 2 = 0 := by
    rw [BitVec.getLsbD, Nat.testBit_zero, decide_eq_false_iff_not] at himm
    omega
  rw [BitVec.toNat_add]
  omega

theorem getLsbD_jImm (instr : Instruction) : instr.jImm.getLsbD 0 = false := by
  rw [Instruction.jImm_eq]
  simp only [BitVec.getLsbD_signExtend, BitVec.getLsbD_append]
  simp

theorem getLsbD_bImm (instr : Instruction) : instr.bImm.getLsbD 0 = false := by
  rw [Instruction.bImm_eq]
  simp only [BitVec.getLsbD_signExtend, BitVec.getLsbD_append]
  simp

theorem even_and_not_one (x : BitVec 32) : (x &&& ~~~1#32).toNat % 2 = 0 := by
  rw [← and_one_eq_zero_iff, BitVec.and_assoc]
  simp

/-- A jump that has been made, and what follows it. -/
theorem executed_jump (hop : op ∈ jumps)
    (hx : ∀ s₀, Idles s₀ (fun _ => False) x) :
    Triple (fun s => Calm { s₀ with pc := target } s ∧ target.toNat % 2 = 0 ∧
      (s₀.csrs.hasCExtension = false → target.toNat % 4 = 0)) x (fun _ => Executed s₀ op)
      (Stopped s₀ op) := by
  rintro s ⟨hcalm, heven, haligned⟩
  exact (hx _).conseq (fun _ h => h) (fun _ _ h => .jump target hop heven haligned h)
    (fun _ _ h => h.1.elim) s hcalm

theorem Idles.quiet {x : IssM α}
    (h : Idles s₀ (fun _ => False) x) : Triple (Calm s₀) x (fun _ => Calm s₀) E :=
  h.exc fun _ _ h => h.1.elim

/-- A jump to an address, and then the link. -/
theorem steps_jump (hop : op ∈ jumps)
    (htarget : s₀.lastPc.toNat % 2 = 0 → target.toNat % 2 = 0) (link : ConcolicValue 32) :
    Triple (Calm s₀) (do
      control (setPc target)
      control trapCheckPcAlignment
      writeRd link) (fun _ => Executed s₀ op) (Stopped s₀ op) :=
  .bind (triple_setPc target) fun _ =>
    .bind (triple_trapCheckPcAlignment.exc fun _ _ h => stopped_of_target htarget h) fun _ =>
    executed_jump hop fun _ => idles_writeRd link

/-- The target is relative to an even program counter. -/
theorem steps_jal (hop : op ∈ jumps) : Steps s₀ op jal := by
  refine .getBind fun s hs => ?_
  subst hs
  exact (steps_jump hop (fun h => even_add_of_bit (getLsbD_jImm _) h) _).pre
    (fun _ h => h ▸ .refl _)

/-- The lowest bit of the target is cleared, whatever the base is. -/
theorem steps_jalr (hop : op ∈ jumps) : Steps s₀ op jalr := by
  refine .getBind fun s hs => ?_
  subst hs
  have hrun : Triple (Calm s) (do
      let base ← getValue (← rs1).value
      control (setPc ((base + s.instr.iImm) &&& ~~~1#32))
      control trapCheckPcAlignment
      writeRd (constant s.pc)) (fun _ => Executed s op) (Stopped s op) :=
    .bind maintains_rs1 fun _ => .bind (idles_getValue _).quiet fun _ =>
      steps_jump hop (fun _ => even_and_not_one _) _
  exact hrun.pre (fun _ h => h ▸ .refl _)

/-- A branch that is taken. -/
theorem triple_takeBranch (res : ConcolicValue 1) : Triple (Calm s₀) (takeBranch res)
    (fun _ s => Calm { s₀ with pc := s₀.lastPc + s₀.instr.bImm } s ∧
      (s₀.lastPc + s₀.instr.bImm).toNat % 2 = 0 ∧
      (s₀.csrs.hasCExtension = false → (s₀.lastPc + s₀.instr.bImm).toNat % 4 = 0))
    (Stopped s₀ op) := by
  refine .getBind fun s hs => ?_
  rw [hs.drifts.lastPc, hs.drifts.instr]
  have hcheck : Triple (Calm { s₀ with pc := s₀.lastPc + s₀.instr.bImm })
      (control trapCheckPcAlignment) _ (Stopped s₀ op) :=
    triple_trapCheckPcAlignment.exc fun _ _ h =>
      stopped_of_target (fun h => even_add_of_bit (getLsbD_bImm _) h) h
  have hrun : Triple (Calm s₀) (do
      control (setPc (s₀.lastPc + s₀.instr.bImm))
      if (← MonadState.get).refusesPc then interface (Interface.note (.concretised ⟨1, res⟩))
      control trapCheckPcAlignment) _ (Stopped s₀ op) :=
    .bind (triple_setPc _) fun _ => .bind .keepGet fun _ =>
      .ite (fun _ => .bind (idles_note _).quiet fun _ => hcheck) fun _ => hcheck
  exact hrun.pre (fun _ h => h ▸ hs)

theorem triple_evalAndTrace {P : Iss → Prop} {Q : Unit → Iss → Prop}
    {res : ConcolicValue 1} {body : Bool → IssM Unit}
    (h : ∀ cond, Triple P (do body cond; trackAndTraceBranch cond res) Q E) :
    Triple P (evalAndTrace res body) Q E :=
  h _

/-- A branch that is not taken leaves the program counter alone. -/
theorem steps_branch (hop : op ∈ jumps)
    (f : ConcolicValue 32 → ConcolicValue 32 → ConcolicValue 1) : Steps s₀ op (branch f) := by
  have hrun : Triple (Calm s₀) (branch f) (fun _ => Executed s₀ op) (Stopped s₀ op) := by
    refine .bind maintains_rs1 fun x => .bind maintains_rs2 fun y =>
      triple_evalAndTrace fun cond => ?_
    cases cond with
    | true =>
      exact .bind (triple_takeBranch _) fun _ =>
        executed_jump hop fun _ => idles_trackAndTraceBranch _ _
    | false =>
      refine .bind (Q := fun _ => Calm s₀) .keepPure fun _ => ?_
      exact (idles_trackAndTraceBranch _ _).quiet.post (fun _ _ h => .idle h)
  exact hrun.pre (fun _ h => h ▸ .refl _)

/-! ## Memory -/

/-- A function of the memory interface that keeps what every transaction keeps. -/
def Accesses {α : Type} (x : Transact → CoreView → MemM α) : Prop :=
  ∀ (s₀ : Iss) (K : Exception → Prop) transact,
    (∀ payload, Stays (Configured s₀) K (transact payload)) →
    (∀ type, TranslationThrows (Configured s₀) K s₀.view type) →
    Stays (Configured s₀) K (x transact s₀.view)

theorem Accesses.idles {x : Transact → CoreView → MemM α} (hx : Accesses x)
    (hK : ∀ e, Disturbs s₀ e → K e) : Idles s₀ K (memory x) :=
  idles_memory hK fun transact htransact =>
    hx s₀ K transact htransact (translationThrows_disturbs hK)

theorem accesses_symbolicStoreData (addr value : ConcolicValue 32) (numBytes : Nat) :
    Accesses fun transact view => symbolicStoreData transact view addr value numBytes :=
  fun _ _ _ htransact hthrows =>
    stays_symbolicStoreData stable_configured.persistent htransact (hthrows _) _ _ _

theorem accesses_signed (numBytes : Nat) (addr : ConcolicValue 32) : Accesses fun transact view =>
    signed (fun transact view => loadSigned transact view numBytes) transact view addr :=
  fun _ _ _ htransact hthrows =>
    .bind (stays_loadSigned (stable_configured.reading htransact) (hthrows _) _ _) fun _ =>
      .keepPure

theorem accesses_loadUnsigned (numBytes : Nat) (addr : ConcolicValue 32) :
    Accesses fun transact view => loadUnsigned transact view numBytes addr :=
  fun _ _ _ htransact hthrows =>
    stays_loadUnsigned (stable_configured.reading htransact) (hthrows _) _ _

theorem framed_mayThrow :
    FramedAccess (Calm s₀) (Calm s₀) fun e s => MayThrow s₀ op e ∧ Calm s₀ s :=
  framed_idles Disturbs.mayThrow

theorem steps_store (numBytes alignment : Nat) : Steps s₀ op
    (store (fun transact view addr value => symbolicStoreData transact view addr value numBytes)
      alignment) :=
  .of_idles (framed_mayThrow.store
    (fun _ _ => (accesses_symbolicStoreData _ _ numBytes).idles Disturbs.mayThrow) alignment)

theorem steps_load {f : Transact → CoreView → ConcolicValue 32 → MemM Concolic}
    (hf : ∀ addr, Accesses fun transact view => f transact view addr) (alignment : Nat) :
    Steps s₀ op (load f alignment) :=
  .of_idles (framed_mayThrow.load (fun addr => (hf addr).idles Disturbs.mayThrow) alignment)

theorem calm_lrScCounter (s : Iss) (counter : Nat) (h : Calm s₀ s) :
    Calm s₀ { s with lrScCounter := counter } :=
  ⟨h.drifts.trans (.of_erase rfl rfl rfl), h.mmu⟩

/-- The reservation and its counter are outside what `Calm` compares. -/
theorem steps_lrW : Steps s₀ op lrW :=
  .of_idles (framed_mayThrow.lrW calm_lrScCounter fun _ _ => idles_memory Disturbs.mayThrow
    fun _ htransact =>
    stays_atomicLoadReservedWord stable_configured htransact
      (translationThrows_disturbs Disturbs.mayThrow _) _ _)

theorem steps_scW : Steps s₀ op scW :=
  .of_idles (framed_mayThrow.scW calm_lrScCounter fun _ _ _ => idles_memory Disturbs.mayThrow
    fun _ htransact =>
    stays_atomicStoreConditionalWord stable_configured.persistent htransact
      (translationThrows_disturbs Disturbs.mayThrow _) _ _ _)

theorem steps_executeAmo (hop : op ∈ amos)
    (f : ConcolicValue 32 → ConcolicValue 32 → ConcolicValue 32) : Steps s₀ op (executeAmo f) := by
  refine .of_idles
    (framed_mayThrow.executeAmo (fun _ _ h => ⟨.disturbs (.trap _ _), h.2⟩) (fun _ => ?_)
    (fun _ _ => ?_) idles_writeRd f)
  · exact idles_memory Disturbs.mayThrow fun _ htransact => stays_atomicLoadWord stable_configured
      htransact (translationThrows_disturbs Disturbs.mayThrow _) _
  · exact idles_memory Disturbs.mayThrow fun _ htransact => stays_atomicStoreWord
      stable_configured.persistent htransact (translationThrows_disturbs Disturbs.mayThrow _)
        (.busLock hop) _ _

/-! ## System instructions -/

/-- The encoding `2` is the one that names no privilege mode. -/
theorem privilegeLevel_cases (level : PrivilegeLevel) (hm : level ≠ MachineMode)
    (hs : level ≠ SupervisorMode) (hu : level ≠ UserMode) : level = 2#2 := by
  revert level
  decide

/-- In the reserved privilege mode the source throws instead of trapping. -/
theorem steps_ecall : Steps s₀ op ecall := by
  refine .getBind fun s hs => ?_
  subst hs
  refine Steps.of_idles (.ite (fun _ => idles_executeSyscall Disturbs.mayThrow) fun _ => ?_)
  refine .ite (fun _ => idles_raiseTrap Disturbs.mayThrow _ _) fun hm => ?_
  refine .ite (fun _ => idles_raiseTrap Disturbs.mayThrow _ _) fun hs => ?_
  refine .ite (fun _ => idles_raiseTrap Disturbs.mayThrow _ _) fun hu => ?_
  exact .throw fun _ h => ⟨.unknownPrivilegeLevel (privilegeLevel_cases _ hm hs hu), h⟩

/-- By induction on the changes of the interrupt lines. -/
theorem drifts_synchronise (c : Control) : Drifts c (Effect.final (synchronise c)) := by
  have hlines : ∀ (changes : Arrivals) (c : Control), Drifts c
      (changes.foldl (fun c change => c.setInterrupt change.1 change.2) c) := by
    intro changes
    induction changes with
    | nil => exact .refl
    | cons change changes ih =>
      exact fun c => (Drifts.setInterrupt change.1 change.2 c).trans (ih _)
  exact (hlines (c.arrivals 0) c).trans (.of_erase rfl rfl rfl)

theorem idles_synchronise : Idles s₀ K (control synchronise) :=
  .modify fun s h => ⟨h.drifts.trans (drifts_synchronise s.toControl), h.mmu⟩

/-- A computation on the control state that leaves the architectural part alone. -/
theorem idles_of_drifts {x : ControlM α}
    (hx : Maintains (Drifts s₀.toControl)
      (fun e c => K e ∧ Drifts s₀.toControl c) x) : Idles s₀ K (control x) :=
  Triple.zoom hx (fun _ h => h.drifts) (fun _ _ _ h hc => ⟨hc, h.mmu⟩)
    fun _ _ _ h hc => ⟨hc.1, hc.2, h.mmu⟩

theorem steps_wfi : Steps s₀ op wfi := by
  refine .of_idles (.bind idles_releaseLrScReservation fun _ => idles_of_drifts ?_)
  exact triple_wfiControl (fun _ h => ⟨.disturbs (.trap _ _), h⟩) (fun _ h => h)
    (.modify fun c h => h.trans (drifts_synchronise c))

/-! ## Control and status registers -/

/-- The control state is a given one. -/
def At (s₀ : Iss) (c : Control) (s : Iss) : Prop := s.toControl = c ∧ Configured s₀ s.io

variable {c : Control} {E : Exception → Iss → Prop}

theorem at_getValue (value : ConcolicValue w) : Triple (At s₀ c) (getValue value)
    (fun v s => v = value.concrete ∧ At s₀ c s) E :=
  fun _ h => ⟨rfl, h⟩

theorem at_writeRd (value : ConcolicValue w) :
    Maintains (At s₀ c) E (writeRd value) :=
  .bind .keepGet fun _ => triple_write _ _ (fun _ h => h) fun _ _ h => h

theorem at_writeOld (value : BitVec 32) : Maintains (At s₀ c) E (writeOld value) :=
  .bind .keepGet fun _ => .ite (fun _ => at_writeRd _) fun _ => .keepPure

/-- The control state when the register of an instruction may have been read. -/
def Looked (s₀ : Iss) (c : Control) : Prop :=
  c = s₀.toControl ∨ ∃ old, getCsrValue s₀.instr.csr s₀.toControl = .ok old c

/-- Reading a register changes at most the copies of the counters. -/
theorem Looked.reads (h : Looked s₀ c) : Control.Reads s₀.toControl c := by
  obtain rfl | ⟨old, h⟩ := h
  · exact .refl _
  · obtain ⟨_, _, hrun, hread⟩ | hrun := reads_getCsrValue (c := s₀.toControl) s₀.instr.csr
    · cases hrun.symm.trans h
      exact hread
    · cases hrun.symm.trans h

/-- Some control state is one in which the register may have been read. -/
def Ready (s₀ s : Iss) : Prop := ∃ c, Looked s₀ c ∧ At s₀ c s

/-- What keeps the control state keeps `Ready`. -/
theorem ready_of_at {x : IssM α} (hx : ∀ c, Maintains (At s₀ c) E x) :
    Maintains (Ready s₀) E x := by
  rintro s ⟨c, hlooked, hat⟩
  exact (hx c).post (fun _ _ h => ⟨c, hlooked, h⟩) s hat

theorem ready_getValue (value : ConcolicValue w) : Triple (Ready s₀) (getValue value)
    (fun v s => v = value.concrete ∧ Ready s₀ s) E :=
  fun _ h => ⟨rfl, h⟩

theorem Ready.instr (h : Ready s₀ s) : s.instr = s₀.instr := by
  obtain ⟨c, hlooked, hc, _⟩ := h
  rw [hc, hlooked.reads.same]

/-- An instruction on a control and status register writes it. -/
def csrWrites (s : Iss) (op : Mapping) : Bool :=
  match op with
  | .CSRRS | .CSRRC => s.instr.rs1 ≠ zero
  | .CSRRSI | .CSRRCI => s.instr.zimm ≠ 0#32
  | _ => true

/-- An address of registers that cannot be written. -/
def isReadOnly (addr : BitVec 12) : Bool := addr.extractLsb' 10 2 = 3#2

/-- What an instruction on a control and status register does to the control state. -/
inductive Accessed (s₀ : Iss) (op : Mapping) (s : Iss) : Prop where
  | read (hprv : csrPrv s₀.instr.csr ≤ s₀.prv) (hwrites : csrWrites s₀ op = false)
      (hlooked : Looked s₀ s.toControl) (hmmu : Configured s₀ s.io)
  | write {c : Control} {value : BitVec 32} (hprv : csrPrv s₀.instr.csr ≤ s₀.prv)
      (hwrites : csrWrites s₀ op = true) (hreadOnly : isReadOnly s₀.instr.csr = false)
      (hlooked : Looked s₀ c) (hvalue : Operand s₀ op value)
      (hrun : setCsrValue s₀.instr.csr value c = .ok () s.toControl)
      (hmmu : Configured s₀ s.io)

/-- There is a word that an instruction would write. -/
theorem exists_operand (s₀ : Iss) (op : Mapping) : ∃ value, Operand s₀ op value := by
  obtain ⟨old, c, hrun, _⟩ | hrun := reads_getCsrValue (c := s₀.toControl) s₀.instr.csr
  · refine ⟨csrOperand s₀ op old, fun old' c' h => ?_⟩
    cases hrun.symm.trans h
    rfl
  · exact ⟨0#32, fun old c h => by cases hrun.symm.trans h⟩

/-- The precise account of the access implies the one of `Executed`. -/
theorem Accessed.executed (h : Accessed s₀ op s) (hop : op ∈ csrInstructions) :
    Executed s₀ op s := by
  cases h with
  | read hprv _ hlooked hmmu =>
    obtain ⟨value, hvalue⟩ := exists_operand s₀ op
    exact .csr hop hprv hlooked.reads hvalue .ignored rfl hmmu
  | @write c value hprv _ _ hlooked hvalue hrun hmmu =>
    obtain ⟨t, hset, hwrite⟩ | ⟨hset, _⟩ := writes_setCsrValue (c := c) s₀.instr.csr value
    · rw [hset] at hrun
      injection hrun with _ hcontrol
      exact .csr hop hprv hlooked.reads hvalue hwrite hcontrol.symm hmmu
    · cases hset.symm.trans hrun

/-- A read that is refused leaves the state as it was. -/
theorem triple_getCsrValue : Triple (At s₀ s₀.toControl)
    (control (getCsrValue s₀.instr.csr))
    (fun value s => (∀ old c, getCsrValue s₀.instr.csr s₀.toControl = .ok old c →
      old = value) ∧ Ready s₀ s) (Stopped s₀ op) := by
  rintro s ⟨hcontrol, hmmu⟩
  obtain ⟨value, c, hrun, hread⟩ | hrun := reads_getCsrValue (c := s.toControl) s₀.instr.csr
  · rw [control_ok hrun]
    rw [hcontrol] at hread hrun
    refine ⟨fun old c' h => ?_, c, .inr ⟨value, hrun⟩, rfl, hmmu⟩
    cases hrun.symm.trans h
    rfl
  · rw [control_error hrun]
    refine ⟨.disturbs (.trap _ _), s₀.pc, ?_, hmmu⟩
    rw [hcontrol]
    exact .refl _

/-- What refuses a write is not among the copies of the counters. -/
theorem refuses_of_reads (hread : Control.Reads s₀.toControl c) {addr : BitVec 12}
    (h : Refuses c addr) : Refuses s₀.toControl addr := by
  obtain ⟨haddr, htvm⟩ | ⟨hhpm, hmap, haddr⟩ := h
  · rw [CsrTable.bit, hread.csrs .mstatus (by decide)] at htvm
    exact .satp haddr htvm
  · exact .unmapped hhpm hmap haddr

section

variable (hprv : csrPrv s₀.instr.csr ≤ s₀.prv)
include hprv

/-- After a read that succeeded the write cannot be refused. -/
theorem triple_setCsrValue (hwrites : csrWrites s₀ op = true)
    (hreadOnly : isReadOnly s₀.instr.csr = false) {value : BitVec 32}
    (hvalue : Operand s₀ op value) :
    Triple (Ready s₀)
    (control (setCsrValue s₀.instr.csr value)) (fun _ => Accessed s₀ op) (Stopped s₀ op) := by
  rintro s ⟨c, hlooked, rfl, hmmu⟩
  obtain ⟨t, hrun, _⟩ | ⟨hrun, hrefuses⟩ :=
    writes_setCsrValue (c := s.toControl) s₀.instr.csr value
  · rw [control_ok hrun]
    exact .write hprv hwrites hreadOnly hlooked hvalue hrun hmmu
  · rw [control_error hrun]
    obtain hcontrol | ⟨_, hread⟩ := id hlooked
    · refine ⟨.disturbs (.trap _ _), s₀.pc, ?_, hmmu⟩
      rw [hcontrol]
      exact .refl _
    · exact absurd (refuses_of_reads hlooked.reads hrefuses) (not_refuses_of_getCsrValue hread)

theorem accessed_of_ready (hwrites : csrWrites s₀ op = false) {s : Iss} (h : Ready s₀ s) :
    Accessed s₀ op s := by
  obtain ⟨c, hlooked, rfl, hmmu⟩ := h
  exact .read hprv hwrites hlooked hmmu

end

/-- What an instruction on a control and status register does, as a pre- and postcondition. -/
abbrev AccessesCsr (s₀ : Iss) (op : Mapping) (x : IssM Unit) : Prop :=
  Triple (· = s₀) x (fun _ => Accessed s₀ op) (Stopped s₀ op)

theorem isInvalidCsrAccess_of_isReadOnly {addr : BitVec 12} (h : isReadOnly addr = true)
    (c : Control) : isInvalidCsrAccess addr true c = .ok true c := by
  have haddr : ¬(addr = FFLAGS_ADDR ∨ addr = FRM_ADDR ∨ addr = FCSR_ADDR) := by
    rintro (rfl | rfl | rfl) <;> exact absurd h (by decide)
  have hreadOnly : addr.extractLsb' 10 2 = 3#2 := of_decide_eq_true h
  unfold isInvalidCsrAccess
  rw [if_neg haddr]
  change EStateM.Result.ok ((true && decide (addr.extractLsb' 10 2 = 3#2)) || _ || _ || _) c = _
  rw [decide_eq_true hreadOnly]
  simp

/-- The check throws, or it vouches for the level and for the write. -/
theorem accesses_accessCsr (isWrite : Bool) {body : BitVec 12 → IssM Unit}
    (hbody : csrPrv s₀.instr.csr ≤ s₀.prv →
      (isWrite = true → isReadOnly s₀.instr.csr = false) → AccessesCsr s₀ op (body s₀.instr.csr)) :
    AccessesCsr s₀ op (accessCsr isWrite body) := by
  refine .getBind fun s hs => ?_
  subst hs
  refine .bind (Q := fun invalid t => t = s ∧ (invalid = false → csrPrv s.instr.csr ≤ s.prv ∧
    (isWrite = true → isReadOnly s.instr.csr = false))) ?_ fun invalid => ?_
  · rintro s rfl
    obtain ⟨invalid, hrun, hprv⟩ | hrun := checks_isInvalidCsrAccess (c := s.toControl)
      s.instr.csr isWrite
    · rw [control_ok hrun]
      refine ⟨rfl, fun hvalid => ⟨hprv hvalid, fun hwrite => ?_⟩⟩
      rw [Bool.eq_false_iff]
      intro hreadOnly
      rw [hwrite, isInvalidCsrAccess_of_isReadOnly hreadOnly] at hrun
      cases hrun
      cases hvalid
    · rw [control_error hrun]
      exact ⟨.disturbs (.trap _ _), s.pc, .refl _⟩
  · cases invalid with
    | true =>
      rintro s ⟨rfl, _⟩
      exact ⟨.disturbs (.trap _ _), s.pc, .refl _⟩
    | false =>
      rintro s ⟨rfl, hvalid⟩
      exact hbody (hvalid rfl).1 (hvalid rfl).2 s rfl

/-- The body of an instruction on a register starts in the state after the check. -/
theorem AccessesCsr.of_at (hx : Triple (At s₀ s₀.toControl) x
    (fun _ => Accessed s₀ op) (Stopped s₀ op)) : AccessesCsr s₀ op x :=
  hx.pre (fun _ h => h ▸ ⟨rfl, rfl⟩)

theorem ready_of_eq (h : At s₀ s₀.toControl s) : Ready s₀ s := ⟨_, .inl rfl, h⟩

theorem triple_rs1 : Triple (· = s₀) rs1
    (fun value s => value = s₀.regs s₀.instr.rs1 ∧ At s₀ s₀.toControl s) E := by
  rintro s rfl
  exact ⟨rfl, rfl, rfl⟩

/-- The register is read only if `rd` is not zero. -/
theorem accesses_csrrw : AccessesCsr s₀ .CSRRW csrrw := by
  refine accesses_accessCsr true fun hprv hreadOnly => .bind triple_rs1 fun rs1Val =>
    .assume fun hrs1 => ?_
  have hvalue : Operand s₀ .CSRRW rs1Val.value.concrete := fun _ _ _ => hrs1 ▸ rfl
  refine .bind .keepGet fun s => ?_
  have hset : Triple (Ready s₀) (do
      control (setCsrValue s₀.instr.csr (← getValue rs1Val.value)))
      (fun _ => Accessed s₀ .CSRRW) (Stopped s₀ .CSRRW) :=
    .bind (ready_getValue _) fun _ => .assume fun h =>
      triple_setCsrValue hprv rfl (hreadOnly rfl) (h ▸ hvalue)
  refine .ite (fun _ => ?_) fun _ => ?_
  · exact .bind triple_getCsrValue fun _ => .assume fun _ =>
      .bind (ready_of_at fun _ => at_writeRd _) fun _ => hset
  · exact hset.pre (fun _ h => ready_of_eq h)

theorem accesses_csrrwi : AccessesCsr s₀ .CSRRWI csrrwi := by
  refine accesses_accessCsr true fun hprv hreadOnly => .of_at (.bind .keepGet fun s => ?_)
  have hset : Triple (Ready s₀) (do
      control (setCsrValue s₀.instr.csr (← MonadState.get).instr.zimm))
      (fun _ => Accessed s₀ .CSRRWI) (Stopped s₀ .CSRRWI) := by
    refine .getBind fun t ht => ?_
    have hvalue : Operand s₀ .CSRRWI t.instr.zimm := fun _ _ _ => by
      rw [ht.instr]
      rfl
    exact (triple_setCsrValue hprv rfl (hreadOnly rfl) hvalue).pre (fun _ h => h ▸ ht)
  refine .ite (fun _ => ?_) fun _ => ?_
  · exact .bind triple_getCsrValue fun _ => .assume fun _ =>
      .bind (ready_of_at fun _ => at_writeRd _) fun _ => hset
  · exact hset.pre (fun _ h => ready_of_eq h)

/-- The instructions that read a register before they may write it. -/
theorem accesses_readThenWrite (hprv : csrPrv s₀.instr.csr ≤ s₀.prv)
    {isWrite : Prop} [Decidable isWrite] (hwrites : csrWrites s₀ op = decide isWrite)
    (hreadOnly : decide isWrite = true → isReadOnly s₀.instr.csr = false)
    {x : BitVec 32 → IssM (BitVec 32)}
    (hx : ∀ old, Triple (Ready s₀) (x old)
      (fun value s => value = csrOperand s₀ op old ∧ Ready s₀ s) (Stopped s₀ op)) :
    Triple (At s₀ s₀.toControl) (do
      let csrVal ← control (getCsrValue s₀.instr.csr)
      writeOld csrVal
      if isWrite then control (setCsrValue s₀.instr.csr (← x csrVal)))
      (fun _ => Accessed s₀ op) (Stopped s₀ op) := by
  refine .bind triple_getCsrValue fun csrVal => .assume fun hold => ?_
  have hvalue : Operand s₀ op (csrOperand s₀ op csrVal) := fun old c h => by rw [hold old c h]
  refine .bind (ready_of_at fun _ => at_writeOld _) fun _ =>
    .ite (fun hwrite => ?_) fun hwrite => ?_
  · refine .bind (hx csrVal) fun value => .assume fun h => ?_
    have htrue : decide isWrite = true := decide_eq_true hwrite
    exact triple_setCsrValue hprv (hwrites.trans htrue) (hreadOnly htrue) (h ▸ hvalue)
  · exact .pure fun _ h => accessed_of_ready hprv (hwrites.trans (decide_eq_false hwrite)) h

theorem accesses_csrrs : AccessesCsr s₀ .CSRRS csrrs := by
  refine .getBind fun s hs => ?_
  subst hs
  refine accesses_accessCsr _ fun hprv hreadOnly => .bind triple_rs1 fun rs1Val =>
    .assume fun hrs1 => ?_
  refine accesses_readThenWrite (x := fun old => do return old ||| (← getValue rs1Val.value))
    hprv (by simp [csrWrites]) (by simpa using hreadOnly) fun old => ?_
  exact .bind (ready_getValue _) fun _ => .assume fun h =>
    .pure fun _ hs => ⟨by rw [h, hrs1]; rfl, hs⟩

theorem accesses_csrrc : AccessesCsr s₀ .CSRRC csrrc := by
  refine .getBind fun s hs => ?_
  subst hs
  refine accesses_accessCsr _ fun hprv hreadOnly => .bind triple_rs1 fun rs1Val =>
    .assume fun hrs1 => ?_
  refine .bind (at_getValue _) fun operand => .assume fun h => ?_
  exact accesses_readThenWrite (x := fun old => pure (old &&& ~~~operand)) hprv
    (by simp [csrWrites])
    (by simpa using hreadOnly) fun old => .pure fun _ hs => ⟨by rw [h, hrs1]; rfl, hs⟩

/-- The immediate is no register, so nothing is concretised. -/
theorem accesses_csrImmediate (hop : op ∈ [Mapping.CSRRSI, .CSRRCI])
    {f : BitVec 32 → BitVec 32 → BitVec 32}
    (hf : ∀ old, csrOperand s₀ op old = f old s₀.instr.zimm) :
    AccessesCsr s₀ op (csrImmediate f) := by
  refine .getBind fun s hs => ?_
  subst hs
  have hwrites : csrWrites s op = decide (s.instr.zimm ≠ 0#32) := by
    simp only [List.mem_cons, List.not_mem_nil, or_false] at hop
    obtain rfl | rfl := hop <;> rfl
  refine accesses_accessCsr _ fun hprv hreadOnly => .of_at ?_
  exact accesses_readThenWrite (x := fun old => pure (f old s.instr.zimm)) hprv hwrites hreadOnly
    fun old => .pure fun _ hs => ⟨(hf old).symm, hs⟩

/-- One case per instruction on a register. -/
theorem accesses_execute (s₀ : Iss) (hop : op ∈ csrInstructions) :
    AccessesCsr s₀ op (execute op) := by
  simp only [csrInstructions, List.mem_cons, List.not_mem_nil, or_false] at hop
  obtain rfl | rfl | rfl | rfl | rfl | rfl := hop
  · exact accesses_csrrw
  · exact accesses_csrrs
  · exact accesses_csrrc
  · exact accesses_csrrwi
  · exact accesses_csrImmediate (f := fun old zimm => old ||| zimm) (by decide) fun _ => rfl
  · exact accesses_csrImmediate (f := fun old zimm => old &&& ~~~zimm) (by decide) fun _ => rfl

theorem steps_of_csr (hop : op ∈ csrInstructions) : Steps s₀ op (execute op) :=
  (accesses_execute s₀ hop).post (fun _ _ h => h.executed hop)

/-! ## All instructions -/

theorem steps_mret : Steps s₀ .MRET (control returnFromTrapHandler) :=
  .modify fun _ h => h ▸ .mret rfl rfl rfl

theorem execute_of_not_handled (hop : op ∉ handled) :
    execute op = throw (.runtimeError "unknown opcode") := by
  cases op <;> first | rfl | exact absurd (by decide) hop

/-- Every other operation ends in the default of the `switch`. -/
theorem steps_of_not_handled (hop : op ∉ handled) : Steps s₀ op (execute op) := by
  rw [execute_of_not_handled hop]
  exact .throw fun s h => ⟨.unknownOpcode hop, s₀.pc, h ▸ .refl _⟩

/-- What an instruction does. -/
theorem steps_execute (s₀ : Iss) (op : Mapping) : Steps s₀ op (execute op) := by
  cases op with
  | UNDEF => exact .of_idles fun _ h => ⟨.disturbs (.trap _ _), h⟩
  | LUI | AUIPC | ADDI | SLTI | SLTIU | XORI | ORI | ANDI | ADD | SUB | SLT | SLTU | XOR | OR | AND
  | SLL | SRL | SRA | SLLI | SRLI | SRAI | MUL | MULH | MULHU | MULHSU | DIV | DIVU | REM | REMU =>
    exact .of_idles (framed_mayThrow.execute (by decide))
  | JAL => exact steps_jal (by decide)
  | JALR => exact steps_jalr (by decide)
  | SB => exact steps_store 1 1
  | SH => exact steps_store 2 2
  | SW => exact steps_store 4 4
  | LB => exact steps_load (accesses_signed 1) 1
  | LH => exact steps_load (accesses_signed 2) 2
  | LW => exact steps_load (accesses_signed 4) 4
  | LBU => exact steps_load (accesses_loadUnsigned 1) 1
  | LHU => exact steps_load (accesses_loadUnsigned 2) 2
  | BEQ | BNE | BLT | BGE | BLTU | BGEU => exact steps_branch (by decide) _
  | FENCE | FENCE_I => exact .of_idles .keepPure
  | ECALL => exact steps_ecall
  | EBREAK => exact .of_idles (idles_control fun _ => .of_erase rfl rfl rfl)
  | CSRRW | CSRRS | CSRRC | CSRRWI | CSRRSI | CSRRCI => exact steps_of_csr (by decide)
  | LR_W => exact steps_lrW
  | SC_W => exact steps_scW
  | AMOSWAP_W | AMOADD_W | AMOXOR_W | AMOAND_W | AMOOR_W | AMOMIN_W | AMOMINU_W | AMOMAX_W
  | AMOMAXU_W =>
    rw [execute]
    exact steps_executeAmo (by decide) _
  | WFI => exact steps_wfi
  | MRET => exact steps_mret
  | _ => exact steps_of_not_handled (by decide)

end Iss

end SpsVp.Rv32
