import SpsVp.Rv32.Legality

/-!
# Instruction words that crash the simulator

A fetched word makes `exec_step` execute an instruction of an enabled extension or raise a trap,
with two exceptions. The decoders know operations that `exec_step` does not handle any more. And an
atomic memory operation fails an assertion when the lock of the bus is lost between its load and its
store, as it is when the load makes the MMU update a page-table entry.
-/

namespace SpsVp.Rv32

open Lib Effect Clover Klee Platform Interface Control

namespace Iss

/-! ## Operations -/

/-- The operations that the decoders know and `exec_step` does not: those of RV64, the
floating-point ones, and some privileged ones. -/
def unhandled : List Mapping :=
  [.LWU, .LD, .SD, .ADDIW, .SLLIW, .SRLIW, .SRAIW, .ADDW, .SUBW, .SLLW, .SRLW, .SRAW, .MULW, .DIVW,
    .DIVUW, .REMW, .REMUW, .LR_D, .SC_D, .AMOSWAP_D, .AMOADD_D, .AMOXOR_D, .AMOAND_D, .AMOOR_D,
    .AMOMIN_D, .AMOMAX_D, .AMOMINU_D, .AMOMAXU_D, .FLW, .FSW, .FMADD_S, .FMSUB_S, .FNMADD_S,
    .FNMSUB_S, .FADD_S, .FSUB_S, .FMUL_S, .FDIV_S, .FSQRT_S, .FSGNJ_S, .FSGNJN_S,
    .FSGNJX_S, .FMIN_S,
    .FMAX_S, .FCVT_W_S, .FCVT_WU_S, .FMV_X_W, .FEQ_S, .FLT_S, .FLE_S, .FCLASS_S, .FCVT_S_W,
    .FCVT_S_WU, .FMV_W_X, .FCVT_L_S, .FCVT_LU_S, .FCVT_S_L, .FCVT_S_LU, .FLD, .FSD, .FMADD_D,
    .FMSUB_D, .FNMSUB_D, .FNMADD_D, .FADD_D, .FSUB_D, .FMUL_D, .FDIV_D, .FSQRT_D, .FSGNJ_D,
    .FSGNJN_D, .FSGNJX_D, .FMIN_D, .FMAX_D, .FCVT_S_D, .FCVT_D_S, .FEQ_D, .FLT_D, .FLE_D, .FCLASS_D,
    .FCVT_W_D, .FCVT_WU_D, .FCVT_D_W, .FCVT_D_WU, .FCVT_L_D, .FCVT_LU_D, .FMV_X_D, .FCVT_D_L,
    .FCVT_D_LU, .FMV_D_X, .URET, .SRET, .SFENCE_VMA]

theorem mem_unhandled_iff (op : Mapping) : op ∈ unhandled ↔ op ∉ handled := by
  cases op <;> decide +kernel

/-- The operations of the extension for multiplication and division. -/
def multiplications : List Mapping := [.MUL, .MULH, .MULHSU, .MULHU, .DIV, .DIVU, .REM, .REMU]

/-- The extension that an operation belongs to, beyond the base instruction set. -/
def requiredExtension (op : Mapping) : Option (BitVec 32) :=
  if op ∈ multiplications then some CsrTable.M_ISA_EXT
  else if op ∈ .LR_W :: .SC_W :: amos then some CsrTable.A_ISA_EXT
  else none

variable {α : Type} {ext : BitVec 32} {d s t : Iss} {op : Mapping} {word : Instruction}

theorem hasExtension_of_ok {f : Unit → IssM α} {e : Iss} {a : α}
    (h : (control (requireIsa ext) >>= f) d = .ok a e) : d.csrs.hasExtension ext = true := by
  obtain ⟨_, t, hrequire, _⟩ := bind_eq_ok h
  rw [control, zoom, requireIsa_apply] at hrequire
  split_ifs at hrequire with hext
  · exact hext
  · cases hrequire

theorem execute_eq_requireIsa (h : requiredExtension op = some ext) :
    ∃ f : Unit → IssM Unit, execute op = control (requireIsa ext) >>= f := by
  unfold requiredExtension at h
  split_ifs at h with hm ha
  · cases h
    simp only [multiplications, List.mem_cons, List.not_mem_nil, or_false] at hm
    obtain rfl | rfl | rfl | rfl | rfl | rfl | rfl | rfl := hm <;> exact ⟨_, rfl⟩
  · cases h
    simp only [amos, List.mem_cons, List.not_mem_nil, or_false] at ha
    obtain rfl | rfl | rfl | rfl | rfl | rfl | rfl | rfl | rfl | rfl | rfl := ha <;> exact ⟨_, rfl⟩

/-- An operation that returns is one of an enabled extension. -/
theorem hasExtension_of_execute {e : Iss}
    (hext : requiredExtension op = some ext) (h : execute op d = .ok () e) :
    d.csrs.hasExtension ext = true := by
  obtain ⟨f, hf⟩ := execute_eq_requireIsa hext
  rw [hf] at h
  exact hasExtension_of_ok h

/-! ## The lock of the bus -/

/-- The state after the concrete part of a value has been used. -/
def noted {w : Nat} (s : Iss) (value : ConcolicValue w) : Iss :=
  { s with io := { s.io with log := s.io.log ++ [.concretised ⟨w, value⟩] } }

/-- The load of an atomic memory operation. -/
def amoLoad (addr : ConcolicValue 32) : IssM (ConcolicValue 32) :=
  memory fun transact view => atomicLoadWord transact view addr

/-- An atomic memory operation loses the lock of the bus in its load. -/
def LosesLock (d : Iss) : Prop :=
  d.op ∈ amos ∧ d.csrs.hasExtension CsrTable.A_ISA_EXT = true ∧
    (d.regs d.instr.rs1).value.concrete.toNat % 4 = 0 ∧
    ∃ data t, amoLoad (d.regs d.instr.rs1).value (d.noted (d.regs d.instr.rs1).value) = .ok data t ∧
      t.io.busLock.isLocked (t.csrs .mhartid) = false

/-- The operation of an atomic memory operation. -/
def amoOperation : Mapping → ConcolicValue 32 → ConcolicValue 32 → ConcolicValue 32
  | .AMOADD_W => .add
  | .AMOXOR_W => .bxor
  | .AMOAND_W => .band
  | .AMOOR_W => .bor
  | .AMOMIN_W => fun a b => (a.sge b).select b a
  | .AMOMINU_W => fun a b => (a.uge b).select b a
  | .AMOMAX_W => fun a b => (a.sge b).select a b
  | .AMOMAXU_W => fun a b => (a.uge b).select a b
  | _ => fun _ b => b

theorem execute_eq_executeAmo (h : op ∈ amos) :
    execute op = executeAmo (amoOperation op) := by
  simp only [amos, List.mem_cons, List.not_mem_nil, or_false] at h
  obtain rfl | rfl | rfl | rfl | rfl | rfl | rfl | rfl | rfl := h
  all_goals
    rw [execute]
    rfl

theorem control_requireIsa (ext : BitVec 32) (d : Iss) : control (requireIsa ext) d =
    if d.csrs.hasExtension ext = true then .ok () d
    else .error d.toControl.illegalInstruction d := by
  rw [control, zoom, requireIsa_apply]
  split_ifs <;> rfl

theorem trapCheckAddrAlignment_apply (alignment : Nat) (isLoad : Bool) (addr : ConcolicValue 32)
    (s : Iss) : trapCheckAddrAlignment alignment isLoad addr s =
      if addr.concrete.toNat % alignment = 0 then .ok () (s.noted addr)
      else .error (.trap (if isLoad then .EXC_LOAD_ADDR_MISALIGNED
        else .EXC_STORE_AMO_ADDR_MISALIGNED) (addr.concrete.setWidth 64)) (s.noted addr) := by
  change (if addr.concrete.toNat % alignment ≠ 0 then _ else _ : IssM Unit) (s.noted addr) = _
  by_cases h : addr.concrete.toNat % alignment = 0
  · rw [if_neg (not_not.mpr h), if_pos h]
    rfl
  · rw [if_pos h, if_neg h]
    rfl

/-- What the targets have asked for raises no trap. It keeps what depends neither on the control
state nor on the registers, the log or the calls of the host. -/
theorem maintains_serve {I : Iss → Prop} {E : Exception → Iss → Prop}
    (hcontrol : ∀ s c, I s → I { s with toControl := c })
    (hregs : ∀ s regs nextObject, I s → I { s with regs := regs, nextObject := nextObject })
    (hlog : ∀ s log, I s → I { s with io := { s.io with log := log } })
    (hhandler : ∀ s handler, I s → I { s with handler := handler })
    (hthrow : ∀ s e, I s → (∀ reason mtval, e ≠ .trap reason mtval) → E e s)
    (request : CoreRequest) : Maintains I E (serve request) := by
  have hread : ∀ idx, Maintains I E (readRegister idx) :=
    fun _ => .bind .keepGet fun _ => fun s h => hlog s _ h
  have hwrite : ∀ {w : Nat} (index : BitVec 5) (value : ConcolicValue w),
      Maintains I E (write index value) := by
    intro w index value
    unfold write
    split_ifs
    · exact .modify fun s h => hregs s _ _ h
    · exact .modify fun s h => hregs s _ _ h
    · exact .keepPure
  cases request with
  | interrupt | exit | processedPacket => exact .modify fun s h => hcontrol s _ h
  | syscall =>
    refine .bind .keepGet fun s => .bind (hread _) fun n => .bind (hread _) fun x3 =>
      .bind (hread _) fun x2 => .bind (hread _) fun x1 => .bind (hread _) fun x0 =>
      .bind (Q := fun _ => I) (.modifyGet fun s h => hhandler s _ h) fun result => ?_
    cases result with
    | failed | aborted => exact .throw fun s h => hthrow s _ h fun _ _ h => by cases h
    | returned ans shallExit =>
      refine .bind (.bind (triple_ensure (fun _ h _ => h) fun s h _ =>
        hthrow s _ h fun _ _ h => by cases h) fun _ => hwrite _ _) fun _ => ?_
      exact .ite (fun _ => .modify fun s h => hcontrol s _ h) fun _ => .keepPure

/-- The targets have nothing left to ask for after a call of the memory interface. -/
theorem requests_of_memory {x : Transact → CoreView → MemM α} {a : α}
    (h : memory x s = .ok a t) : t.io.requests = [] := by
  have hserve : ∀ request, Maintains (fun t : Iss => t.io.requests = []) (fun _ _ => True)
      (serve request) :=
    maintains_serve (fun _ _ h => h) (fun _ _ _ h => h) (fun _ _ h => h) (fun _ _ h => h)
      fun _ _ _ _ => trivial
  have hmemory : Triple (fun _ => True) (memory x) (fun _ t => t.io.requests = [])
      (fun _ _ => True) :=
    triple_call (fun _ _ _ _ => rfl) (fun _ => hserve) (fun _ _ h => h) fun _ _ _ => trivial
  exact hmemory.of_ok trivial h

/-- The store of an atomic memory operation without the lock. -/
theorem storeWord_of_not_isLocked (addr value : ConcolicValue 32)
    (hrequests : t.io.requests = []) (hlock : t.io.busLock.isLocked (t.csrs .mhartid) = false) :
    memory (fun transact view => atomicStoreWord transact view addr value) t =
      .error (.abort .busLock) t := by
  refine memory_of_quiet (r := .error (.abort .busLock) t.io) ?_ hrequests
  change (ensure .busLock (t.io.busLock.isLocked (t.csrs .mhartid)) >>= fun _ => _ :
    MemM Unit) t.io = _
  rw [hlock]
  rfl

/-- An atomic memory operation after its check of the extension and the address. -/
theorem executeAmo_apply {f : ConcolicValue 32 → ConcolicValue 32 → ConcolicValue 32}
    (hext : d.csrs.hasExtension CsrTable.A_ISA_EXT = true)
    (haligned : (d.regs d.instr.rs1).value.concrete.toNat % 4 = 0) :
    executeAmo f d = (do
      match ← attempt (amoLoad (d.regs d.instr.rs1).value) with
      | .error (.trap .EXC_LOAD_ACCESS_FAULT mtval) => raiseTrap .EXC_STORE_AMO_ACCESS_FAULT mtval
      | .error e => throw e
      | .ok data => do
          let val := f data (← rs2).value
          memory fun transact view =>
            atomicStoreWord transact view (d.regs d.instr.rs1).value val
          writeRd data) (d.noted (d.regs d.instr.rs1).value) := by
  have hrequire := control_requireIsa CsrTable.A_ISA_EXT d
  rw [if_pos hext] at hrequire
  have hcheck := trapCheckAddrAlignment_apply 4 false (d.regs d.instr.rs1).value d
  rw [if_pos haligned] at hcheck
  have hrs1 : rs1 d = .ok (d.regs d.instr.rs1) d := rfl
  rw [executeAmo, bind_of_ok hrequire, bind_of_ok hrs1, bind_of_ok hcheck]
  rfl

theorem losesLock_throws (h : LosesLock d) :
    ∃ t, execute d.op d = .error (.abort .busLock) t := by
  obtain ⟨hop, hext, haligned, data, t, hload, hlock⟩ := h
  have hf := execute_eq_executeAmo hop
  have hattempt := attempt_of_ok hload
  have hrs2 : rs2 t = .ok (t.regs t.instr.rs2) t := rfl
  refine ⟨t, ?_⟩
  rw [hf, executeAmo_apply hext haligned, bind_of_ok hattempt]
  dsimp only
  rw [bind_of_ok hrs2, bind_of_error
    (storeWord_of_not_isLocked _ _ (requests_of_memory hload) hlock)]

/-- The memory and the host do not fail the assertion about the lock. -/
theorem Disturbs.ne_busLock {e : Exception} (h : Disturbs s e) : e ≠ .abort .busLock := by
  cases h with
  | trap | hostError => exact nofun
  | abort h =>
    rintro ⟨⟩
    revert h
    decide
  | pageTableMemory | privilegeMode => exact nofun

/-- A load or a store that is no atomic operation does not fail the assertion about the lock. -/
theorem ne_busLock_of_accesses {x : Transact → CoreView → MemM α}
    (hx : Accesses x) (s : Iss) : Triple (· = s) (memory x) (fun _ _ => True)
      (fun e _ => e ≠ .abort .busLock) :=
  (hx.idles (K := Disturbs s) fun _ h => h).conseq (fun _ h => h ▸ .refl _)
    (fun _ _ _ => trivial) fun _ _ h => h.1.ne_busLock

theorem accesses_atomicLoadWord (addr : ConcolicValue 32) :
    Accesses fun transact view => atomicLoadWord transact view addr :=
  fun _ _ _ htransact hthrows =>
    stays_atomicLoadWord stable_configured htransact (hthrows _) _

/-- With the lock, the store of an atomic memory operation is a store. -/
theorem atomicStoreWord_of_isLocked {u : Iss} (addr value : ConcolicValue 32)
    (hlock : u.io.busLock.isLocked (u.csrs .mhartid) = true) :
    memory (fun transact view => atomicStoreWord transact view addr value) u =
      memory (fun transact view => storeWord transact view addr value) u := by
  refine memory_congr ?_
  change (ensure .busLock (u.io.busLock.isLocked (u.csrs .mhartid)) >>= fun _ => _ :
    MemM Unit) u.io = _
  rw [hlock]
  rfl

theorem losesLock_of_throws (hop : d.op ∈ amos)
    (h : execute d.op d = .error (.abort .busLock) t) : LosesLock d := by
  rw [execute_eq_executeAmo hop] at h
  have hrequire := control_requireIsa CsrTable.A_ISA_EXT d
  have hcheck := trapCheckAddrAlignment_apply 4 false (d.regs d.instr.rs1).value d
  have hrs1 : rs1 d = .ok (d.regs d.instr.rs1) d := rfl
  have hext : d.csrs.hasExtension CsrTable.A_ISA_EXT = true := by
    by_contra hext
    rw [if_neg hext] at hrequire
    rw [executeAmo, bind_of_error hrequire] at h
    cases h
  rw [if_pos hext] at hrequire
  have haligned : (d.regs d.instr.rs1).value.concrete.toNat % 4 = 0 := by
    by_contra haligned
    rw [if_neg haligned] at hcheck
    rw [executeAmo, bind_of_ok hrequire, bind_of_ok hrs1,
      bind_of_error hcheck] at h
    cases h
  refine ⟨hop, hext, haligned, ?_⟩
  rw [executeAmo_apply hext haligned] at h
  cases hload : amoLoad (d.regs d.instr.rs1).value (d.noted (d.regs d.instr.rs1).value) with
  | error e u =>
    have hne : e ≠ .abort .busLock :=
      (ne_busLock_of_accesses (accesses_atomicLoadWord _) _).of_error rfl hload
    have hattempt := attempt_of_error hload
    rw [bind_of_ok hattempt] at h
    cases e with
    | trap reason mtval => cases reason <;> cases h
    | runtimeError | hostError => cases h
    | abort assertion =>
      cases h
      exact absurd rfl hne
  | ok data u =>
    refine ⟨data, u, rfl, ?_⟩
    by_contra hlocked
    have hattempt := attempt_of_ok hload
    have hrs2 : rs2 u = .ok (u.regs u.instr.rs2) u := rfl
    rw [bind_of_ok hattempt] at h
    dsimp only at h
    rw [bind_of_ok hrs2] at h
    have hstore := atomicStoreWord_of_isLocked (u := u) (d.regs d.instr.rs1).value
      (amoOperation d.op data (u.regs u.instr.rs2).value) (Bool.eq_true_of_not_eq_false hlocked)
    cases hresult : memory (fun transact view => storeWord transact view
        (d.regs d.instr.rs1).value (amoOperation d.op data (u.regs u.instr.rs2).value)) u with
    | error e v =>
      rw [bind_of_error (hstore.trans hresult)] at h
      cases h
      exact (ne_busLock_of_accesses (accesses_symbolicStoreData _ _ 4) u).of_error rfl hresult rfl
    | ok a v =>
      rw [bind_of_ok (hstore.trans hresult)] at h
      exact ((idles_writeRd (K := fun _ => False) data).of_error (.refl v) h).1

/-! ## The step -/

/-- The pointers of the core are set: to the coverage, and to the memory of the page tables if some
access is translated. -/
structure Wired (s : Iss) : Prop where
  coverage : s.coverage.isSome = true
  mmu : ∀ type, Translates s.view type → s.io.mmu.isSome = true →
    s.io.mmu.any (·.connected) = true

/-- A failure of a target of the bus or of the host, not of the core. -/
def PlatformFailure (e : Exception) : Prop :=
  (∃ what, e = .hostError what) ∨
    ∃ assertion ∈ [Assertion.registerValue, .symbolicSize, .stack, .target, .syscall],
      e = .abort assertion

/-- The targets of the bus and the host do their part in the next step. -/
def Dependable (s : Iss) : Prop := ∀ e t, execStep s = .error e t → ¬ PlatformFailure e

/-- The step on a fetched word executes an instruction of an enabled extension or raises a trap; `f`
is the state after the fetch. -/
def ExecutesOrTraps (s f : Iss) : Prop :=
  match execStep s with
  | .ok _ _ => ∃ d, prepare s = .ok () d ∧ Decodes f.instr d.instr d.op ∧ d.op ∈ handled ∧
      (f.instr.isCompressed = true → s.csrs.hasCExtension = true) ∧
      ∀ ext, requiredExtension d.op = some ext → s.csrs.hasExtension ext = true
  | .error e _ => ∃ reason mtval, e = .trap reason mtval

variable {s f d : Iss} {e : Exception}

theorem Disturbs.eq_trap (h : Disturbs s e) (hmodes : LegalModes s.toControl)
    (hmmu : ∀ type, Translates s.view type → s.io.mmu.isSome = true →
      s.io.mmu.any (·.connected) = true) (hplatform : ¬ PlatformFailure e) : ∃ reason mtval,
        e = .trap reason mtval := by
  cases h with
  | trap reason mtval => exact ⟨_, _, rfl⟩
  | hostError what => exact absurd (.inl ⟨what, rfl⟩) hplatform
  | abort h => exact absurd (.inr ⟨_, h, rfl⟩) hplatform
  | pageTableMemory htranslates hsome h =>
    rw [hmmu _ htranslates hsome] at h
    cases h
  | privilegeMode h => exact absurd hmodes h

theorem Prepared.legalModes (h : Prepared s word d)
    (hmodes : LegalModes s.toControl) : LegalModes d.toControl := by
  refine LegalModes.of_drifts ?_ h.calm.drifts
  exact hmodes

theorem Prepared.mmu (h : Prepared s word d)
    (hmmu : ∀ type, Translates s.view type → s.io.mmu.isSome = true →
      s.io.mmu.any (·.connected) = true) (type : MemoryAccessType) :
    Translates d.view type → d.io.mmu.isSome = true → d.io.mmu.any (·.connected) = true := by
  have hconfigured : Configured s d.io := h.calm.mmu
  have hview : d.view = s.view := h.calm.drifts.view
  rw [hview, hconfigured.isSome, hconfigured.connected]
  exact hmmu type

theorem Prepared.hasExtension (h : Prepared s word d) (ext : BitVec 32) :
    d.csrs.hasExtension ext = s.csrs.hasExtension ext := h.calm.drifts.hasExtension ext

/-- An operation that `exec_step` does not handle. -/
theorem unknownOpcode_of_unhandled (h : op ∈ unhandled) (d : Iss) :
    execute op d = .error (.runtimeError "unknown opcode") d := by
  cases op with
  | _ => first | rfl | exact absurd h (by decide)

/-- A fetched word crashes the simulator exactly if its operation is one that `exec_step` does not
handle, or an atomic memory operation that loses the lock of the bus. -/
theorem executesOrTraps_iff_losesLock (hfetch : fetch s = .ok () f) (hlast : s.lastPc = s.pc)
    (hmodes : LegalModes s.toControl) (hwired : Wired s) (hdependable : Dependable s) :
    ExecutesOrTraps s f ↔ ∀ d, prepare s = .ok () d → d.op ∉ unhandled ∧ ¬ LosesLock d := by
  constructor
  · intro h d hd
    rw [ExecutesOrTraps, execStep_of_prepare hd] at h
    constructor
    · intro hop
      rw [unknownOpcode_of_unhandled hop] at h
      obtain ⟨reason, mtval, ⟨⟩⟩ := h
    · intro hlock
      obtain ⟨t, ht⟩ := losesLock_throws hlock
      rw [ht] at h
      obtain ⟨reason, mtval, ⟨⟩⟩ := h
  · intro h
    rw [ExecutesOrTraps]
    cases hstep : execStep s with
    | ok _ t =>
      obtain ⟨_, d, hcompleted⟩ := triple_execStep.of_ok rfl hstep
      have hd := prepared_of_fetch hfetch hcompleted.prepare
      have hhandled : d.op ∈ handled := by
        have := (h d hcompleted.prepare).1
        rwa [mem_unhandled_iff, not_not] at this
      refine ⟨d, hcompleted.prepare, hd.decodes, hhandled, fun hcompressed => ?_,
        fun ext hext => ?_⟩
      · exact (hd.extension hcompressed).resolve_left hcompleted.legal
      · rw [← hd.hasExtension]
        exact hasExtension_of_execute hext hcompleted.run
    | error e t =>
      have hplatform := hdependable e t hstep
      cases (triple_execStep.of_error rfl hstep).1 with
      | disturbs he => exact he.eq_trap hmodes hwired.mmu hplatform
      | misalignedInstruction he =>
        exact absurd (triple_fetch.of_ok rfl hfetch).1 he
      | coverage he =>
        have := hwired.coverage
        rw [he] at this
        cases this
      | execute hrun hd he =>
        have hlegal := hd.legalModes hmodes
        rw [execStep_of_prepare hrun] at hstep
        cases he with
        | disturbs he => exact he.eq_trap hlegal (hd.mmu hwired.mmu) hplatform
        | oddTarget he =>
          refine absurd ?_ he
          rw [hd.lastPc, hlast]
          exact (alignedPc_iff.mpr hd.aligned).1
        | unknownPrivilegeLevel he => exact absurd he hlegal.1
        | busLock hop => exact absurd (losesLock_of_throws hop hstep) (h _ hrun).2
        | unknownOpcode he => exact absurd ((mem_unhandled_iff _).mpr he) (h _ hrun).1

theorem legalModes_boot (program : List (BitVec 32)) :
    LegalModes (boot program).begun.toControl := by
  refine ⟨?_, fun h => ?_⟩
  · change MachineMode ≠ 2#2
    decide
  · change CsrTable.bit (CsrTable.init 0#32 false) .mstatus 17 = true at h
    exact absurd h (by decide)

theorem wired_boot (program : List (BitVec 32)) : Wired (boot program).begun := by
  refine ⟨rfl, fun type h => ?_⟩
  have hsatp : CsrTable.bit (CsrTable.init 0#32 false) .satp 31 = true := h.1
  exact absurd hsatp (by decide)

theorem lastPc_begun (s : Iss) : s.begun.lastPc = s.begun.pc := rfl

end Iss

end SpsVp.Rv32
