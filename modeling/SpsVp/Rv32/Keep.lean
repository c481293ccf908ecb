import SpsVp.Rv32.Crash

/-!
# What every instruction keeps

`Kept` says what an invariant of the core has to survive: changes of the control state that leave
the number of the hart, the age of its reservation and the executed instructions alone, new values
in registers, the log of the memory interface, and calls of the host. Every instruction that does
not access memory keeps such an invariant, and so does one that does if its calls of the memory
interface do. `Lasting` adds what `run_step` does around the instruction, where the reservation may
grow old or be released.
-/

namespace SpsVp.Rv32

open Lib Effect Clover Klee Platform Interface Control CsrTable

namespace Control

/-- The instructions that the coverage knows, with those that have been executed. -/
def counted (c : Control) : Option (BitVec 32 → Option Bool) := c.coverage.map Coverage.instrs

/-- The number of the hart, the age of its reservation and the executed instructions are the
same. -/
structure Spares (c c' : Control) : Prop where
  hart : c'.csrs .mhartid = c.csrs .mhartid
  counter : c'.lrScCounter = c.lrScCounter
  counted : c'.counted = c.counted

theorem Spares.refl (c : Control) : Spares c c := ⟨rfl, rfl, rfl⟩

theorem Spares.trans {c c' c'' : Control} (h : Spares c c') (h' : Spares c' c'') : Spares c c'' :=
  ⟨h'.hart.trans h.hart, h'.counter.trans h.counter, h'.counted.trans h.counted⟩

/-- A computation leaves the hart, its reservation and the executed instructions alone. -/
abbrev Sparing {α : Type} (x : ControlM α) : Prop :=
  ∀ c₀, Maintains (Spares c₀) (fun _ => Spares c₀) x

variable {α : Type}

/-- A change of the control state that spares what is to stay. -/
theorem sparing_modify {f : Control → Control} (hf : ∀ c, Spares c (f c)) :
    Sparing (modify f : ControlM PUnit) :=
  fun _ => .modify fun c h => h.trans (hf c)

/-- A change of the registers that does not touch `mhartid`. -/
theorem sparing_modifyCsrs {f : CsrTable → CsrTable}
    (hf : ∀ t : CsrTable, f t .mhartid = t .mhartid) : Sparing (modifyCsrs f) :=
  sparing_modify fun c => ⟨hf c.csrs, rfl, rfl⟩

/-- The trap of an illegal instruction is raised without a change. -/
theorem sparing_raiseIllegalInstruction : Sparing (raiseIllegalInstruction : ControlM α) :=
  fun _ _ h => h

/-- An assertion changes nothing, whether it holds or fails. -/
theorem sparing_ensure (assertion : Assertion) (cond : Bool) :
    Sparing (ensure assertion cond : ControlM Unit) :=
  fun _ => triple_ensure (fun _ h _ => h) fun _ h _ => h

theorem sparing_checks {Q : Control → α → Prop} {x : ControlM α} (hx : ∀ c, Checks (Q c) x c) :
    Sparing x := by
  intro c₀ c hc
  obtain ⟨a, ha, _⟩ | hx := hx c
  · rw [ha]
    exact hc
  · rw [hx]
    exact hc

/-- The test for an extension of the instruction set changes nothing. -/
theorem sparing_requireIsa (ext : BitVec 32) : Sparing (requireIsa ext) :=
  sparing_checks fun _ => checks_requireIsa ext

/-- The check of the program counter changes nothing. -/
theorem sparing_trapCheckPcAlignment : Sparing trapCheckPcAlignment :=
  fun _ => .bind .keepGet fun _ => .bind (sparing_ensure _ _ _) fun _ =>
    .ite (fun _ => .throw fun _ h => h) fun _ => .keepPure

/-- An interrupt line is a bit of `mip`. -/
theorem spares_setInterrupt (line : Fin 32) (level : Bool) (c : Control) :
    Spares c (c.setInterrupt line level) :=
  ⟨setField_of_ne (show Csr.mhartid ≠ .mip by decide) c.csrs line (BitVec.ofBool level),
    rfl, rfl⟩

/-- While a core waits, only its interrupt lines change. -/
theorem sparing_synchronise : Sparing synchronise := by
  have hlines : ∀ (changes : Arrivals) (c : Control), Spares c
      (changes.foldl (fun c change => c.setInterrupt change.1 change.2) c) := by
    intro changes
    induction changes with
    | nil => exact .refl
    | cons change changes ih =>
      exact fun c => (spares_setInterrupt change.1 change.2 c).trans (ih _)
  exact sparing_modify fun c => (hlines (c.arrivals 0) c).trans ⟨rfl, rfl, rfl⟩

/-- `MRET` changes `mstatus`, the mode and the program counter. -/
theorem sparing_returnFromTrapHandler : Sparing returnFromTrapHandler := by
  refine sparing_modify fun c => ⟨?_, rfl, rfl⟩
  dsimp only
  rw [setField_of_ne (by decide), setField_of_ne (by decide),
    setField_of_ne (by decide)]

/-- The registers of a trap are written, none of which is `mhartid`. -/
theorem sparing_setTrap {cause tval : Csr} (hcause : cause ≠ .mhartid) (htval : tval ≠ .mhartid)
    (reason : ExceptionCode) (mtval : BitVec 64) : Sparing (setTrap cause tval reason mtval) :=
  fun _ => .bind (sparing_modifyCsrs (fun _ => set_of_ne hcause.symm _ _) _) fun _ =>
    .ite (fun _ => sparing_modifyCsrs (fun _ => set_of_ne htval.symm _ _) _)
      fun _ => .throw fun _ h => h

/-- A trap writes the cause and the value of the mode that is to handle it. -/
theorem sparing_prepareTrap (reason : ExceptionCode) (mtval : BitVec 64) :
    Sparing (prepareTrap reason mtval) :=
  fun c₀ =>
    .bind (Q := fun _ => Spares c₀) (.modify fun _ h => ⟨h.hart, h.counter, h.counted⟩) fun _ =>
    .bind .keepGet fun _ =>
    .ite (fun _ => .bind (sparing_setTrap (by decide) (by decide) _ _ _) fun _ => .keepPure)
      fun _ =>
    .ite (fun _ => .bind (sparing_setTrap (by decide) (by decide) _ _ _) fun _ => .keepPure)
      fun _ =>
    .bind (sparing_ensure _ _ _) fun _ => .bind (sparing_setTrap (by decide) (by decide) _ _ _)
      fun _ => .keepPure

/-- An interrupt writes the cause of the mode that is to handle it. -/
theorem sparing_prepareInterrupt (targetMode : PrivilegeLevel) (pending : BitVec 32) :
    Sparing (prepareInterrupt targetMode pending) := by
  intro c₀
  unfold prepareInterrupt
  cases interruptCause pending with
  | none => exact .throw fun _ h => h
  | some exc =>
    refine .ite (fun _ => ?_) fun _ => .ite (fun _ => ?_) fun _ => .ite (fun _ => ?_) fun _ => ?_
    · exact sparing_modifyCsrs (fun _ => set_of_ne (by decide) _ _) c₀
    · exact sparing_modifyCsrs (fun _ => set_of_ne (by decide) _ _) c₀
    · exact sparing_modifyCsrs (fun _ => set_of_ne (by decide) _ _) c₀
    · exact .throw fun _ h => h

/-- Every mode has its own registers for the entry into a handler, and `mhartid` is in none of
them. -/
theorem sparing_switchToTrapHandler (targetMode : PrivilegeLevel) :
    Sparing (switchToTrapHandler targetMode) := by
  intro c₀
  refine .bind .keepGet fun _ =>
    .bind (Q := fun _ => Spares c₀) (.modify fun _ h => ⟨h.hart, h.counter, h.counted⟩) fun _ => ?_
  refine .ite (fun _ => ?_) fun _ => .ite (fun _ => ?_) fun _ => .ite (fun _ => ?_) fun _ =>
    .throw fun _ h => h
  · refine .modify fun c h => h.trans ⟨?_, rfl, rfl⟩
    dsimp only
    rw [setField_of_ne (by decide), setField_of_ne (by decide),
      setField_of_ne (by decide), set_of_ne (by decide)]
  · refine .bind .keepGet fun _ => .bind (sparing_ensure _ _ _) fun _ =>
      .modify fun c h => h.trans ⟨?_, rfl, rfl⟩
    dsimp only
    rw [setField_of_ne (by decide), setField_of_ne (by decide),
      setField_of_ne (by decide), set_of_ne (by decide)]
  · refine .bind .keepGet fun _ => .bind (sparing_ensure _ _ _) fun _ =>
      .modify fun c h => h.trans ⟨?_, rfl, rfl⟩
    dsimp only
    rw [setField_of_ne (by decide), setField_of_ne (by decide),
      set_of_ne (by decide)]

/-- The counter of instructions is a register of its own. -/
theorem sparing_countInstruction : Sparing countInstruction := by
  refine sparing_modify fun c => ?_
  split
  · exact .refl c
  · have hhart := set64_of_notMem c.csrs (c.csrs.get64 .instret .instreth + 1)
      (show Csr.mhartid ≠ .instret by decide) (show Csr.mhartid ≠ .instreth by decide)
    exact ⟨hhart, rfl, rfl⟩

/-- The cycles are counted outside of the registers. -/
theorem sparing_countCycles : Sparing countCycles := by
  refine sparing_modify fun c => ?_
  split <;> exact ⟨rfl, rfl, rfl⟩

/-! ## Control and status registers -/

/-- A read of a register brings the time or the cycles up to date at most. -/
theorem sparing_getCsrValue (addr : BitVec 12) : Sparing (getCsrValue addr) := by
  intro c₀ c hc
  obtain ⟨value, c', hrun, hread⟩ | hrun := reads_getCsrValue (c := c) addr
  · rw [hrun]
    refine hc.trans ⟨hread.csrs .mhartid (by decide), ?_, ?_⟩
    · rw [hread.same]
    · rw [hread.same]
      rfl
  · rw [hrun]
    exact hc

/-- The number of the hart has one address. -/
theorem Writes.mhartid {c : Control} {addr : BitVec 12} {value : BitVec 32} {t : CsrTable}
    (h : Writes c addr value t) (haddr : addr ≠ MHARTID_ADDR) : t .mhartid = c.csrs .mhartid := by
  have hwritten : ∀ row ∈ writtenRegisters, row.2.1 = .mhartid → row.1 = MHARTID_ADDR := by decide
  have hepc : ∀ row ∈ epcRegisters, row.2 ≠ .mhartid := by decide
  obtain h | ⟨mask, h, _⟩ | ⟨h, _⟩ | h | h := h.register .mhartid
  · exact h
  · exact absurd (hwritten _ h rfl) haddr
  · exact absurd rfl (hepc _ h)
  · cases h
  · cases h

/-- A write to a register other than `mhartid` leaves the number of the hart alone. -/
theorem sparing_setCsrValue {addr : BitVec 12} (haddr : addr ≠ MHARTID_ADDR) (value : BitVec 32) :
    Sparing (setCsrValue addr value) := by
  intro c₀ c hc
  obtain ⟨t, hrun, hwrites⟩ | ⟨hrun, _⟩ := writes_setCsrValue (c := c) addr value
  · rw [hrun]
    exact hc.trans ⟨hwrites.mhartid haddr, rfl, rfl⟩
  · rw [hrun]
    exact hc

/-- The number of the hart cannot be written. -/
theorem isInvalidCsrAccess_mhartid (c : Control) :
    isInvalidCsrAccess MHARTID_ADDR true c = .ok true c := rfl

end Control

namespace Iss

/-- An invariant that survives what instructions do besides their calls of the memory interface. -/
structure Kept (I : Iss → Prop) : Prop where
  control : ∀ s c, Spares s.toControl c → I s → I { s with toControl := c }
  assign : ∀ s index value, I s → I (s.assign index value)
  copy : ∀ s index source, I s →
    I { s with regs := Function.update s.regs index (s.regs source) }
  log : ∀ s log, I s → I { s with io := { s.io with log } }
  handler : ∀ s handler, I s → I { s with handler }

/-- A computation keeps an invariant, also where it throws. -/
abbrev Keeps {α : Type} (I : Iss → Prop) (x : IssM α) : Prop := Maintains I (fun _ => I) x

variable {I : Iss → Prop} {α : Type}

section

variable (hI : Kept I)
include hI

/-! ## Registers and control state -/

/-- A step of the control state that spares what is to stay keeps the invariant. -/
theorem keeps_control {x : ControlM α} (hx : Sparing x) : Keeps I (control x) := by
  intro s hs
  have hc := hx s.toControl s.toControl (.refl _)
  rw [control, zoom]
  cases hr : x s.toControl with
  | ok a c | error e c =>
    rw [hr] at hc
    exact hI.control s c hc hs

/-- A change of the control state, likewise. -/
theorem keeps_modify {f : Control → Control} (hf : ∀ c, Spares c (f c)) :
    Keeps I (control (modify f)) :=
  keeps_control hI (sparing_modify hf)

variable {w : Nat}

/-- The rules for instructions apply to an invariant, before and after the register is written. -/
theorem framed_kept : FramedAccess I I fun _ => I where
  weaken := fun _ h => h
  log := hI.log
  illegal := fun _ h => h
  assign := hI.assign
  copy := hI.copy
  trace := fun s cond log h => hI.log { s with
    coverage := s.coverage.map (·.coverBranch s.lastPc cond) } log
    (hI.control s _ ⟨rfl, rfl, Option.map_map _ _ _⟩ h)
  misaligned := fun _ _ _ h => h

/-- The same rules for instructions that return. -/
theorem framed_returning : FramedAccess I I fun _ _ => True :=
  { framed_kept hI with illegal := fun _ _ => trivial, misaligned := fun _ _ _ _ => trivial }

/-- A write of a register keeps the invariant. -/
theorem keeps_write (index : BitVec 5) (value : ConcolicValue w) : Keeps I (write index value) :=
  triple_write _ _ (fun _ h => h) fun s v h => hI.assign s _ v h

/-- So does a write of the destination register. -/
theorem keeps_writeRd (value : ConcolicValue w) : Keeps I (writeRd value) :=
  (framed_kept hI).rewriteRd value

/-- So does a note in the log. -/
theorem keeps_note (event : Event) : Keeps I (interface (Interface.note event)) :=
  (framed_kept hI).note event

/-- A concolic value is concretised, which is noted in the log. -/
theorem keeps_getValue (value : ConcolicValue w) : Keeps I (getValue value) :=
  (framed_kept hI).getValue value

/-- A register is read for a system call. -/
theorem keeps_readRegister (idx : BitVec 5) : Keeps I (readRegister idx) :=
  .bind .keepGet fun _ => keeps_getValue hI _

/-! ## System calls -/

/-- A system call changes registers, memory and the state of the host. -/
theorem keeps_executeSyscall : Keeps I executeSyscall := by
  refine .bind .keepGet fun _ => .bind (keeps_readRegister hI _) fun _ =>
    .bind (keeps_readRegister hI _) fun _ => .bind (keeps_readRegister hI _) fun _ =>
    .bind (keeps_readRegister hI _) fun _ => .bind (keeps_readRegister hI _) fun _ =>
    .bind (Q := fun _ => I) (.modifyGet fun s h => hI.handler s _ h) fun result => ?_
  cases result with
  | failed | aborted => exact .throw fun _ h => h
  | returned ans shallExit =>
    refine .bind (.bind (triple_ensure (fun _ h _ => h) fun _ h _ => h)
      fun _ => keeps_write hI _ _) fun _ => ?_
    exact .ite (fun _ => keeps_modify hI fun _ => ⟨rfl, rfl, rfl⟩) fun _ => .keepPure

/-- A request of a target: an interrupt line, a system call or the end of the run. -/
theorem keeps_serve (request : CoreRequest) : Keeps I (serve request) := by
  cases request with
  | interrupt line level => exact keeps_modify hI (spares_setInterrupt line level)
  | syscall => exact keeps_executeSyscall hI
  | exit | processedPacket => exact keeps_modify hI fun _ => ⟨rfl, rfl, rfl⟩

/-! ## Memory -/

/-- A call of the memory interface keeps an invariant if the memory interface does. -/
theorem keeps_memory {x : Transact → CoreView → MemM α}
    (hx : ∀ s, I s → I { s with io := {
      Effect.final (x (Interface.transact s.view s.depth) s.view s.io) with requests := [] } }) :
    Keeps I (memory x) :=
  triple_call (C := fun _ => I) (fun s _ hs hr => hr ▸ hx s hs) (fun _ => keeps_serve hI)
    (fun _ _ h => h) fun _ _ h => h

/-- An atomic memory operation keeps what its load and its store keep. -/
theorem keeps_executeAmo
    (hload : ∀ addr, Keeps I (memory fun transact view => atomicLoadWord transact view addr))
    (hstore : ∀ addr value, Keeps I (memory fun transact view =>
      atomicStoreWord transact view addr value))
    (f : ConcolicValue 32 → ConcolicValue 32 → ConcolicValue 32) : Keeps I (executeAmo f) :=
  (framed_kept hI).executeAmo (fun _ _ h => h) hload hstore (keeps_writeRd hI) f

/-! ## Instructions that do not access memory -/

/-- A jump sets the program counter, checks it and writes the link register. -/
theorem keeps_jump (target : BitVec 32) (link : ConcolicValue 32) : Keeps I (do
    control (setPc target)
    control trapCheckPcAlignment
    writeRd link) :=
  .bind (keeps_modify hI fun _ => ⟨rfl, rfl, rfl⟩) fun _ =>
    .bind (keeps_control hI sparing_trapCheckPcAlignment) fun _ => keeps_writeRd hI _

/-- A branch that is taken sets the program counter and checks it. -/
theorem keeps_takeBranch (res : ConcolicValue 1) : Keeps I (takeBranch res) := by
  have hcheck : Keeps I (control trapCheckPcAlignment) :=
    keeps_control hI sparing_trapCheckPcAlignment
  exact .bind .keepGet fun _ => .bind (keeps_modify hI fun _ => ⟨rfl, rfl, rfl⟩) fun _ =>
    .bind .keepGet fun _ => .ite (fun _ => .bind (keeps_note hI _) fun _ => hcheck) fun _ => hcheck

/-- A branch, taken or not. -/
theorem keeps_branch (f : ConcolicValue 32 → ConcolicValue 32 → ConcolicValue 1) :
    Keeps I (branch f) :=
  .bind maintains_rs1 fun _ => .bind maintains_rs2 fun _ => triple_evalAndTrace fun _ =>
    .bind (.ite (fun _ => keeps_takeBranch hI _) fun _ => .keepPure) fun _ =>
      (framed_kept hI).trackAndTraceBranch _ _

/-- `ECALL` is a system call or a trap. -/
theorem keeps_ecall : Keeps I ecall :=
  .bind .keepGet fun _ => .ite (fun _ => keeps_executeSyscall hI) fun _ =>
    .ite (fun _ => .throw fun _ h => h) fun _ => .ite (fun _ => .throw fun _ h => h) fun _ =>
    .ite (fun _ => .throw fun _ h => h) fun _ => keeps_control hI fun _ => .throw fun _ h => h

/-- An instruction on a control and status register does not write the number of the hart. -/
theorem keeps_accessCsr (isWrite : Bool) {body : BitVec 12 → IssM Unit}
    (hbody : ∀ addr, (isWrite = true → addr ≠ MHARTID_ADDR) → Keeps I (body addr)) :
    Keeps I (accessCsr isWrite body) := by
  refine .bind .keepGet fun t => ?_
  have hchecks : Sparing (isInvalidCsrAccess t.instr.csr isWrite) :=
    sparing_checks fun _ => checks_isInvalidCsrAccess _ _
  by_cases haddr : isWrite = true → t.instr.csr ≠ MHARTID_ADDR
  · refine .bind (keeps_control hI hchecks) fun invalid => .ite (fun _ => ?_) fun _ => hbody _ haddr
    exact keeps_control hI sparing_raiseIllegalInstruction
  · obtain ⟨rfl, hmhartid⟩ := Classical.not_imp.mp haddr
    rw [not_not.mp hmhartid]
    refine .bind (Q := fun invalid s => I s ∧ invalid = true) (fun s h => ?_) fun invalid => ?_
    · rw [control_ok (isInvalidCsrAccess_mhartid s.toControl)]
      exact ⟨h, rfl⟩
    · rintro s ⟨hs, rfl⟩
      exact hs

/-- The old value of a register goes to the destination register. -/
theorem keeps_writeOld (value : BitVec 32) : Keeps I (writeOld value) :=
  .bind .keepGet fun _ => .ite (fun _ => keeps_writeRd hI _) fun _ => .keepPure

/-- A control and status register is read. -/
theorem keeps_getCsrValue (addr : BitVec 12) : Keeps I (control (getCsrValue addr)) :=
  keeps_control hI (sparing_getCsrValue addr)

/-- A control and status register is written, which is never `mhartid`. -/
theorem keeps_setCsrValue {addr : BitVec 12} (h : addr ≠ MHARTID_ADDR) (value : BitVec 32) :
    Keeps I (control (setCsrValue addr value)) :=
  keeps_control hI (sparing_setCsrValue h value)

/-- `CSRRW` reads the register only if there is a destination register. -/
theorem keeps_csrrw : Keeps I csrrw := by
  refine keeps_accessCsr hI true fun addr haddr => .bind maintains_rs1 fun rs1Val => .bind .keepGet
    fun _ => ?_
  have hset : Keeps I (do
      control (setCsrValue addr (← getValue rs1Val.value))) :=
    .bind (keeps_getValue hI _) fun _ => keeps_setCsrValue hI (haddr rfl) _
  exact .ite (fun _ => .bind (keeps_getCsrValue hI _) fun _ => .bind (keeps_writeRd hI _)
    fun _ => hset)
    fun _ => hset

/-- `CSRRWI`, whose operand is part of the instruction. -/
theorem keeps_csrrwi : Keeps I csrrwi := by
  refine keeps_accessCsr hI true fun addr haddr => .bind .keepGet fun _ => ?_
  have hset : Keeps I (do control (setCsrValue addr (← get).instr.zimm)) :=
    .bind .keepGet fun _ => keeps_setCsrValue hI (haddr rfl) _
  exact .ite (fun _ => .bind (keeps_getCsrValue hI _) fun _ => .bind (keeps_writeRd hI _)
    fun _ => hset)
    fun _ => hset

/-- `CSRRS` writes only if there is a source register. -/
theorem keeps_csrrs : Keeps I csrrs := by
  refine .bind .keepGet fun _ => keeps_accessCsr hI _ fun addr haddr => .bind maintains_rs1 fun _ =>
    .bind (keeps_getCsrValue hI _) fun _ => .bind (keeps_writeOld hI _) fun _ => ?_
  exact .ite (fun hwrite => .bind (keeps_getValue hI _)
    fun _ => keeps_setCsrValue hI (haddr hwrite) _)
    fun _ => .keepPure

/-- `CSRRC` writes only if there is a source register. -/
theorem keeps_csrrc : Keeps I csrrc := by
  refine .bind .keepGet fun _ => keeps_accessCsr hI _ fun addr haddr => .bind maintains_rs1 fun _ =>
    .bind (keeps_getValue hI _) fun _ => .bind (keeps_getCsrValue hI _) fun _ =>
    .bind (keeps_writeOld hI _) fun _ => ?_
  exact .ite (fun hwrite => keeps_setCsrValue hI (haddr hwrite) _) fun _ => .keepPure

/-- `CSRRSI` and `CSRRCI` write only if their operand is not zero. -/
theorem keeps_csrImmediate (f : BitVec 32 → BitVec 32 → BitVec 32) : Keeps I (csrImmediate f) := by
  refine .bind .keepGet fun _ => keeps_accessCsr hI _ fun addr haddr =>
    .bind (keeps_getCsrValue hI _) fun _ => .bind (keeps_writeOld hI _) fun _ => ?_
  exact .ite (fun hwrite => keeps_setCsrValue hI (haddr (decide_eq_true hwrite)) _) fun _ =>
    .keepPure

/-- Every instruction that neither accesses memory nor waits for interrupts. -/
theorem keeps_execute {op : Mapping}
    (hop : op ∉ .WFI :: loads ++ stores ++ [.LR_W, .SC_W] ++ amos) :
    Keeps I (execute op) := by
  cases op with
  | LUI | AUIPC | ADDI | SLTI | SLTIU | XORI | ORI | ANDI | ADD | SUB | SLT | SLTU | XOR | OR | AND
  | SLL | SRL | SRA | SLLI | SRLI | SRAI | MUL | MULH | MULHU | MULHSU | DIV | DIVU | REM | REMU =>
    exact (framed_kept hI).execute (by decide)
  | JAL => exact .bind .keepGet fun _ => keeps_jump hI _ _
  | JALR =>
    exact .bind .keepGet fun _ => .bind maintains_rs1 fun _ => .bind (keeps_getValue hI _) fun _ =>
      keeps_jump hI _ _
  | BEQ | BNE | BLT | BGE | BLTU | BGEU => exact keeps_branch hI _
  | FENCE | FENCE_I => exact .keepPure
  | ECALL => exact keeps_ecall hI
  | EBREAK => exact keeps_modify hI fun _ => ⟨rfl, rfl, rfl⟩
  | CSRRW => exact keeps_csrrw hI
  | CSRRS => exact keeps_csrrs hI
  | CSRRC => exact keeps_csrrc hI
  | CSRRWI => exact keeps_csrrwi hI
  | CSRRSI => exact keeps_csrImmediate hI fun old zimm => old ||| zimm
  | CSRRCI => exact keeps_csrImmediate hI fun old zimm => old &&& ~~~zimm
  | MRET => exact keeps_control hI sparing_returnFromTrapHandler
  | UNDEF => exact fun _ h => h
  | LB | LH | LW | LBU | LHU | SB | SH | SW | LR_W | SC_W | WFI | AMOSWAP_W | AMOADD_W | AMOXOR_W
  | AMOAND_W | AMOOR_W | AMOMIN_W | AMOMINU_W | AMOMAX_W | AMOMAXU_W => exact absurd (by decide) hop
  | _ => exact .throw fun _ h => h

/-! ## Fetching and decoding -/

/-- A fetch keeps what the load of an instruction keeps. -/
theorem keeps_fetch (hload : ∀ addr, Keeps I (memory fun transact view =>
    loadInstr transact view addr)) : Keeps I fetch := by
  refine .bind .keepGet fun _ => .bind (triple_ensure (fun _ h _ => h) fun _ h _ => h) fun _ =>
    .bind (keeps_note hI _) fun _ => .bind (hload _).keepAttempt fun result => ?_
  cases result with
  | ok word => exact keeps_modify hI fun _ => ⟨rfl, rfl, rfl⟩
  | error e =>
    cases e with
    | trap reason mtval =>
      exact .bind (keeps_modify hI fun _ => ⟨rfl, rfl, rfl⟩) fun _ => .throw fun _ h => h
    | _ => exact .throw fun _ h => h

omit hI in
/-- The decoder sets the operation, and the expanded instruction if it was compressed. -/
theorem sparing_decode : Sparing decode := by
  intro c₀
  refine .bind .keepGet fun c => .ite (fun _ => ?_) fun _ => .modify fun _ h =>
    ⟨h.hart, h.counter, h.counted⟩
  cases c.instr.decodeAndExpandCompressed .RV32 with
  | error what => exact .throw fun _ h => h
  | ok expanded =>
    exact .bind (Q := fun _ => Spares c₀) (.modify fun _ h => ⟨h.hart, h.counter, h.counted⟩)
      fun _ =>
      .ite (fun _ => sparing_requireIsa _ _) fun _ => .keepPure

omit hI in
/-- An invariant that is not about the coverage. -/
theorem keeps_coverInstr (hcover : ∀ s coverage, I s → I { s with coverage := some coverage }) :
    Keeps I (control coverInstr) := by
  intro s hs
  rw [control, zoom, coverInstr_apply]
  cases s.coverage with
  | none => exact hs
  | some coverage => exact hcover s _ hs

/-- Fetching, decoding and coverage, up to the instruction itself. -/
theorem keeps_prepare (hload : ∀ addr, Keeps I (memory fun transact view =>
    loadInstr transact view addr)) (hcover : Keeps I (control coverInstr)) :
    Keeps I prepare :=
  .bind (keeps_fetch hI hload) fun _ => .bind (keeps_control hI sparing_decode) fun _ => hcover

end

/-- The calls of the memory interface that do not lock the bus keep an invariant. -/
structure Unlocking (I : Iss → Prop) : Prop where
  fetch : ∀ addr, Keeps I (memory fun transact view => loadInstr transact view addr)
  signed : ∀ numBytes addr, Keeps I (memory fun transact view =>
    signed (fun transact view => loadSigned transact view numBytes) transact view addr)
  unsigned : ∀ numBytes addr, Keeps I (memory fun transact view =>
    loadUnsigned transact view numBytes addr)
  store : ∀ numBytes (addr value : ConcolicValue 32), Keeps I (memory fun transact view =>
    symbolicStoreData transact view addr value numBytes)
  conditional : ∀ object addr value, Keeps I (memory fun transact view =>
    atomicStoreConditionalWord transact view object addr value)

/-- Every instruction but those that lock the bus and those that end the reservation. -/
theorem keeps_execute_of_age (hI : Kept I) (hmemory : Unlocking I) {op : Mapping}
    (hends : op ∉ [.WFI, .SC_W]) (hop : op ∉ .LR_W :: amos) : Keeps I (execute op) := by
  by_cases hother : op ∉ .WFI :: loads ++ stores ++ [.LR_W, .SC_W] ++ amos
  · exact keeps_execute hI hother
  cases op with
  | LB => exact (framed_kept hI).load (hmemory.signed 1) 1
  | LH => exact (framed_kept hI).load (hmemory.signed 2) 2
  | LW => exact (framed_kept hI).load (hmemory.signed 4) 4
  | LBU => exact (framed_kept hI).load (hmemory.unsigned 1) 1
  | LHU => exact (framed_kept hI).load (hmemory.unsigned 2) 2
  | SB => exact (framed_kept hI).store (hmemory.store 1) 1
  | SH => exact (framed_kept hI).store (hmemory.store 2) 2
  | SW => exact (framed_kept hI).store (hmemory.store 4) 4
  | SC_W | WFI => exact absurd (by decide) hends
  | LR_W | AMOSWAP_W | AMOADD_W | AMOXOR_W | AMOAND_W | AMOOR_W | AMOMIN_W | AMOMINU_W | AMOMAX_W
  | AMOMAXU_W => exact absurd (by decide) hop
  | _ => exact absurd (by decide) hother

/-! ## The rest of a step -/

variable {x : Transact → CoreView → MemM α} {P : Iss → Prop}

/-- The rest of `WFI` keeps what holds when the reservation has ended. -/
theorem triple_wfi (hI : Kept I)
    (hrelease : Triple P releaseLrScReservation (fun _ => I) (fun _ => I)) :
    Triple P wfi (fun _ => I) (fun _ => I) :=
  .bind hrelease fun _ => keeps_control hI fun c₀ =>
    triple_wfiControl (fun _ h => h) (fun _ h => h) (sparing_synchronise c₀)

/-- The bookkeeping at the end of a step, for what holds before and after the countdown. -/
theorem triple_retire_of_age (hP : Kept P) (hI : Kept I)
    (hage : Triple P ageReservation (fun _ => I) (fun _ _ => True)) :
    Triple P retire (fun _ => I) (fun _ _ => True) :=
  .bind (keeps_write hP _ _).returning fun _ =>
    .bind (keeps_modify hP fun c => by split <;> exact ⟨rfl, rfl, rfl⟩).returning fun _ =>
    .bind (keeps_control hP sparing_countInstruction).returning fun _ =>
    .bind hage fun _ => .bind (keeps_control hI sparing_countCycles).returning fun _ =>
    .bind .keepGet fun _ => .ite (fun _ => (keeps_control hI sparing_synchronise).returning)
      fun _ => .keepPure

/-- An invariant that also survives the end of the reservation. -/
structure Lasting (I : Iss → Prop) : Prop extends Kept I where
  counter : ∀ s counter, I s → I { s with lrScCounter := counter }
  unlock : ∀ s, I s →
    I { s with io := { s.io with busLock := s.io.busLock.unlock (s.csrs .mhartid) } }

section

variable (hI : Lasting I)
include hI

/-- `LR.W` keeps what its load keeps. -/
theorem keeps_lrW (hload : ∀ object addr, Keeps I (memory fun transact view =>
    atomicLoadReservedWord transact view object addr)) : Keeps I lrW :=
  (framed_kept hI.toKept).lrW hI.counter hload

/-- `SC.W` keeps what its store keeps. -/
theorem keeps_scW (hstore : ∀ object addr value, Keeps I (memory fun transact view =>
    atomicStoreConditionalWord transact view object addr value)) : Keeps I scW :=
  (framed_kept hI.toKept).scW hI.counter hstore

/-- To release a reservation is to reset its age and to unlock the bus. -/
theorem keeps_releaseLrScReservation : Keeps I releaseLrScReservation :=
  .bind (Q := fun _ => I) (.modify fun s h => hI.counter s 0 h) fun _ =>
    .getBind fun s h _ ht => ht ▸ hI.unlock s h

/-- `WFI` releases the reservation and waits for an interrupt. -/
theorem keeps_wfi : Keeps I wfi := triple_wfi hI.toKept (keeps_releaseLrScReservation hI)

/-- Every instruction but those that lock the bus. -/
theorem keeps_execute_of_unlocking (hmemory : Unlocking I) {op : Mapping}
    (hop : op ∉ .LR_W :: amos) :
    Keeps I (execute op) := by
  by_cases hends : op ∈ [.WFI, .SC_W]
  · simp only [List.mem_cons, List.not_mem_nil, or_false] at hends
    obtain rfl | rfl := hends
    · exact keeps_wfi hI
    · exact keeps_scW hI hmemory.conditional
  · exact keeps_execute_of_age hI.toKept hmemory hends hop

/-- Every instruction, for an invariant that every call of the memory interface keeps. -/
theorem keeps_execute_of_memory (hmemory : ∀ {α : Type} (x : Transact → CoreView → MemM α),
    Keeps I (memory x)) (op : Mapping) : Keeps I (execute op) := by
  by_cases hlock : op ∈ .LR_W :: amos
  · obtain rfl | hamo := List.mem_cons.mp hlock
    · exact keeps_lrW hI fun _ _ => hmemory _
    · rw [execute_eq_executeAmo hamo]
      exact keeps_executeAmo hI.toKept (fun _ => hmemory _) (fun _ _ => hmemory _) _
  · exact keeps_execute_of_unlocking hI ⟨fun _ => hmemory _, fun _ _ => hmemory _,
      fun _ _ => hmemory _, fun _ _ _ => hmemory _, fun _ _ _ => hmemory _⟩ hlock

/-- The entry into a trap handler. -/
theorem keeps_switchToTrapHandler (mode : PrivilegeLevel) : Keeps I (switchToTrapHandler mode) :=
  .bind (keeps_releaseLrScReservation hI) fun _ =>
    keeps_control hI.toKept (sparing_switchToTrapHandler mode)

/-- An interrupt is taken if one is pending. -/
theorem keeps_takeInterrupt : Keeps I takeInterrupt := by
  refine .bind .keepGet fun s => ?_
  cases s.computePendingInterrupts with
  | none => exact .keepPure
  | some target =>
    exact .bind (keeps_control hI.toKept (sparing_prepareInterrupt _ _)) fun _ =>
      keeps_switchToTrapHandler hI _

/-- The reservation grows older, and is released in the end. -/
theorem keeps_ageReservation : Keeps I ageReservation :=
  .bind .keepGet fun _ =>
    .ite (fun _ => .bind (Q := fun _ => I) (.modify fun s h => hI.counter s _ h)
    fun _ => .ite (fun _ => keeps_releaseLrScReservation hI) fun _ => .keepPure) fun _ => .keepPure

/-- What follows an instruction: the counters, the age of the reservation and interrupts. -/
theorem keeps_retire : Keeps I retire :=
  .bind (keeps_write hI.toKept _ _) fun _ =>
    .bind (keeps_modify hI.toKept fun c => by split <;> exact ⟨rfl, rfl, rfl⟩) fun _ =>
    .bind (keeps_control hI.toKept sparing_countInstruction) fun _ =>
    .bind (keeps_ageReservation hI) fun _ =>
    .bind (keeps_control hI.toKept sparing_countCycles) fun _ => .bind .keepGet fun _ =>
    .ite (fun _ => keeps_control hI.toKept sparing_synchronise) fun _ => .keepPure

/-- A trap is prepared, and its handler is entered. -/
theorem keeps_handler (reason : ExceptionCode) (mtval : BitVec 64) : Keeps I (do
    let targetMode ← control (prepareTrap reason mtval)
    switchToTrapHandler targetMode) :=
  .bind (keeps_control hI.toKept (sparing_prepareTrap _ _)) fun _ =>
    keeps_switchToTrapHandler hI _

/-- What follows `exec_step`, for what holds when it is done. -/
theorem triple_stepOrTrap_of_execStep {P : Iss → Prop}
    (hexec : Triple P execStep (fun _ => I) (fun _ => I)) :
    Triple P stepOrTrap (fun _ => I) (fun _ => I) := by
  have hstep : Triple P (do execStep; takeInterrupt) (fun _ => I) (fun _ => I) :=
    .bind hexec fun _ => keeps_takeInterrupt hI
  refine .bind hstep.keepAttempt fun result => ?_
  cases result with
  | ok _ => exact .keepPure
  | error e =>
    cases e with
    | trap reason mtval => exact keeps_handler hI reason mtval
    | _ => exact .throw fun _ h => h

section

variable (hfetch : ∀ addr, Keeps I (memory fun transact view =>
  loadInstr transact view addr)) (hcover : Keeps I (control coverInstr))
  (hexecute : ∀ op, Keeps I (execute op))
include hfetch hcover hexecute

/-- An instruction, from its fetch on. -/
theorem keeps_execStep : Keeps I execStep := by
  rw [execStep_eq_prepare]
  exact .bind (keeps_prepare hI.toKept hfetch hcover) fun _ => .bind .keepGet fun _ => hexecute _

/-- An instruction that completes or traps. -/
theorem keeps_stepOrTrap : Keeps I stepOrTrap :=
  triple_stepOrTrap_of_execStep hI (keeps_execStep hI hfetch hcover hexecute)

/-- A whole step of the core. -/
theorem keeps_runStep : Keeps I runStep := by
  refine .bind (keeps_readRegister hI.toKept _) fun _ =>
    .bind (Q := fun _ => I) (triple_ensure (fun _ h _ => h) fun _ h _ => h) fun _ =>
    .bind .keepGet fun _ => ?_
  refine .ite (fun _ => keeps_modify hI.toKept fun _ => ⟨rfl, rfl, rfl⟩) fun _ => ?_
  exact .bind (keeps_modify hI.toKept fun _ => ⟨rfl, rfl, rfl⟩) fun _ =>
    .bind (keeps_stepOrTrap hI hfetch hcover hexecute) fun _ => keeps_retire hI

end

end

/-- A call of the memory interface that has returned. -/
theorem memory_eq_ok {s t : Iss} {a : α}
    (h : memory x s = .ok a t) :
      ∃ io, x (Interface.transact s.view s.depth) s.view s.io = .ok a io ∧
      io.requests.forM serve { s with io := { io with requests := [] } } = .ok () t := by
  cases hx : x (Interface.transact s.view s.depth) s.view s.io with
  | ok b io =>
    rw [memory_of_ok hx] at h
    obtain ⟨_, u, hserve, hpure⟩ := bind_eq_ok h
    cases hpure
    exact ⟨io, rfl, hserve⟩
  | error e io =>
    rw [memory_of_error hx] at h
    obtain ⟨_, _, _, hthrow⟩ := bind_eq_ok h
    cases hthrow

/-- The invariant that says nothing is kept. -/
theorem kept_true : Kept fun _ => True :=
  ⟨fun _ _ _ h => h, fun _ _ _ h => h, fun _ _ _ h => h, fun _ _ h => h, fun _ _ h => h⟩

/-- A call of the memory interface that returns. -/
theorem triple_memory_ok (hI : Kept I)
    (hx : ∀ s a io, P s → x (Interface.transact s.view s.depth) s.view s.io = .ok a io →
      I { s with io := { io with requests := [] } }) :
    Triple P (memory x) (fun _ => I) (fun _ _ => True) := by
  refine triple_call (C := fun r s => r.isOk = true → I s) (fun s r hs hr => ?_)
    (fun result request => ?_) (fun _ _ h => h rfl) fun _ _ _ => trivial
  · cases r with
    | ok a io => exact fun _ => hx s a io hs hr
    | error e io => exact nofun
  · cases result with
    | ok a =>
      exact (keeps_serve hI request).conseq (fun _ h => h rfl) (fun _ _ h _ => h) fun _ _ _ =>
        trivial
    | error e =>
      exact (keeps_serve kept_true request).conseq (fun _ _ => trivial) (fun _ _ _ => nofun)
        fun _ _ _ => trivial

end Iss

end SpsVp.Rv32
