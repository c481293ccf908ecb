import SpsVp.Rv32.Access
import SpsVp.Rv32.Control

/-!
# What an access to a control and status register can do

`set_csr_value` and `get_csr_value` as tables: which register an address writes and under which
mask, and which registers a read brings up to date. Everything that an invariant needs to know about
these accesses is a property of the tables.
-/

namespace SpsVp.Rv32

open Lib Effect

namespace Control

variable {c c' : Control} {addr : BitVec 12} {α β : Type}

/-! ## Checks -/

/-- The exception of an illegal instruction. -/
def illegalInstruction (c : Control) : Exception :=
  .trap .EXC_ILLEGAL_INSTR (c.instr.data.setWidth 64)

/-- A computation returns in the state it started in, with `Q`, or raises the exception of an
illegal instruction there. -/
def Checks (Q : α → Prop) (x : ControlM α) (c : Control) : Prop :=
  (∃ a, x c = .ok a c ∧ Q a) ∨ x c = .error c.illegalInstruction c

namespace Checks

variable {Q : α → Prop} {R : β → Prop}

theorem pure {a : α} (h : Q a) : Checks Q (pure a) c := .inl ⟨a, rfl, h⟩

theorem illegal : Checks Q raiseIllegalInstruction c := .inr rfl

theorem bind {x : ControlM α} {f : α → ControlM β} (hx : Checks Q x c)
    (hf : ∀ a, Q a → Checks R (f a) c) : Checks R (x >>= f) c := by
  obtain ⟨a, ha, hq⟩ | hx := hx
  · unfold Checks
    rw [bind_of_ok ha]
    exact hf a hq
  · exact .inr (bind_of_error hx)

theorem get {f : Control → ControlM β} (h : Checks R (f c) c) :
    Checks R (MonadState.get >>= f) c := h

theorem ite {p : Prop} [Decidable p] {x y : ControlM α} (hx : p → Checks Q x c)
    (hy : ¬ p → Checks Q y c) : Checks Q (if p then x else y) c := by
  split
  · next h => exact hx h
  · next h => exact hy h

end Checks

theorem requireIsa_apply (ext : BitVec 32) (c : Control) : requireIsa ext c =
    if c.csrs.hasExtension ext = true then .ok () c else .error c.illegalInstruction c := by
  change (if (!c.csrs.hasExtension ext) = true then raiseIllegalInstruction
    else pure () : ControlM Unit) c = _
  cases c.csrs.hasExtension ext <;> rfl

/-- A missing extension is the only reason the check refuses. -/
theorem checks_requireIsa (ext : BitVec 32) : Checks (fun _ => True) (requireIsa ext) c := by
  unfold Checks
  rw [requireIsa_apply]
  split
  · exact .inl ⟨(), rfl, trivial⟩
  · exact .inr rfl

/-- The lowest privilege mode that may access a register. -/
def csrPrv (addr : BitVec 12) : PrivilegeLevel := addr.extractLsb' 8 2

/-- An access that is not refused is one that the privilege mode allows. -/
theorem checks_isInvalidCsrAccess (addr : BitVec 12) (isWrite : Bool) :
    Checks (fun invalid => invalid = false → csrPrv addr ≤ c.prv)
      (isInvalidCsrAccess addr isWrite) c := by
  have hrest : Checks (fun invalid => invalid = false → csrPrv addr ≤ c.prv)
      (do
        let s ← MonadState.get
        let sInvalid := csrPrv addr = SupervisorMode && !s.csrs.hasSupervisorModeExtension
        let uInvalid := csrPrv addr = UserMode && !s.csrs.hasUserModeExtension
        return (isWrite && decide (addr.extractLsb' 10 2 = 3#2)) || decide (s.prv < csrPrv addr) ||
          sInvalid || uInvalid : ControlM Bool) c := by
    refine .get (.pure fun h => ?_)
    simp only [Bool.or_eq_false_iff, decide_eq_false_iff_not] at h
    exact BitVec.not_lt.mp h.1.1.2
  exact .ite (fun _ => (checks_requireIsa _).bind fun _ _ => hrest) fun _ => hrest

/-- Each enable bit the check consults refuses in the same way. -/
theorem checks_validateCsrCounterReadAccessRights (addr : BitVec 12) :
    Checks (fun _ => True) (validateCsrCounterReadAccessRights addr) c := by
  refine .get (.ite (fun _ => .ite (fun _ => .bind .illegal (Q := fun _ => True) fun _ _ => ?_)
    fun _ => ?_) fun _ => .pure trivial)
  all_goals exact .ite (fun _ => .illegal) fun _ => .pure trivial

/-! ## Reads -/

/-- The registers that a read brings up to date. -/
def counterRegisters : List Csr := [.time, .timeh, .cycle, .cycleh]

/-- The state after a read. -/
structure Reads (c c' : Control) : Prop where
  same : c' = { c with csrs := c'.csrs, mtime := c'.mtime }
  csrs : ∀ csr ∉ counterRegisters, c'.csrs csr = c.csrs csr

theorem Reads.refl (c : Control) : Reads c c := ⟨rfl, fun _ _ => rfl⟩

/-- A read succeeds, or raises the exception of an illegal instruction in the state it started
in. -/
def ReadsOrRefuses (x : ControlM (BitVec 32)) (c : Control) : Prop :=
  (∃ value c', x c = .ok value c' ∧ Reads c c') ∨ x c = .error c.illegalInstruction c

theorem reads_pure (value : BitVec 32) : ReadsOrRefuses (pure value) c :=
  .inl ⟨_, c, rfl, .refl c⟩

theorem reads_readCsr (csr : Csr) : ReadsOrRefuses (readCsr csr) c :=
  .inl ⟨_, c, rfl, .refl c⟩

theorem reads_readMasked (csr : Csr) (mask : BitVec 32) : ReadsOrRefuses (readMasked csr mask) c :=
  .inl ⟨_, c, rfl, .refl c⟩

variable {csr : Csr}

theorem set64_of_notMem (t : CsrTable) {low high : Csr} (value : BitVec 64)
    (hlow : csr ≠ low) (hhigh : csr ≠ high) : t.set64 low high value csr = t csr := by
  rw [CsrTable.set64, CsrTable.set_of_ne hhigh, CsrTable.set_of_ne hlow]

/-- The timer is copied into its two registers before one of them is read. -/
theorem reads_readTime (csr : Csr) : ReadsOrRefuses (readTime csr) c := by
  refine .inl ⟨_, _, rfl, rfl, fun csr hcsr => ?_⟩
  simp only [counterRegisters, List.mem_cons, not_or] at hcsr
  exact set64_of_notMem _ _ hcsr.1 hcsr.2.1

/-- The cycle counter is copied likewise. -/
theorem reads_readCycle (csr : Csr) : ReadsOrRefuses (readCycle csr) c := by
  refine .inl ⟨_, _, rfl, rfl, fun csr hcsr => ?_⟩
  simp only [counterRegisters, List.mem_cons, not_or] at hcsr
  exact set64_of_notMem _ _ hcsr.2.2.1 hcsr.2.2.2.1

theorem reads_defaultRead32 (addr : BitVec 12) : ReadsOrRefuses (defaultRead32 addr) c := by
  unfold defaultRead32
  cases registerMapping addr with
  | none => exact .inr rfl
  | some csr => exact reads_readCsr csr

/-- `mstatus.TVM` refuses the read before the table is consulted. -/
theorem readSatp_of_tvm (htvm : c.csrs.bit .mstatus 20 = true) (addr : BitVec 12) : (do
    if (← get).csrs.bit .mstatus 20 then raiseIllegalInstruction
    defaultRead32 addr : ControlM (BitVec 32)) c = .error c.illegalInstruction c := by
  change (if c.csrs.bit .mstatus 20 = true then
    raiseIllegalInstruction >>= fun _ => defaultRead32 addr else defaultRead32 addr) c = _
  rw [if_pos htvm]
  rfl

theorem reads_readSatp (addr : BitVec 12) : ReadsOrRefuses (do
    if (← get).csrs.bit .mstatus 20 then raiseIllegalInstruction
    defaultRead32 addr) c := by
  change ReadsOrRefuses (if c.csrs.bit .mstatus 20 = true then
    raiseIllegalInstruction >>= fun _ => defaultRead32 addr else defaultRead32 addr) c
  split
  · exact .inr rfl
  · exact reads_defaultRead32 addr

/-- The rights to a counter come first, then one case per address. -/
theorem reads_getCsrValue (addr : BitVec 12) : ReadsOrRefuses (getCsrValue addr) c := by
  obtain ⟨_, hcheck, _⟩ | hcheck := checks_validateCsrCounterReadAccessRights (c := c) addr
  · unfold ReadsOrRefuses getCsrValue
    rw [bind_of_ok hcheck]
    change ReadsOrRefuses _ c
    split
    · exact .inl ⟨_, c, rfl, .refl c⟩
    · refine switch_induction (P := fun x => ReadsOrRefuses x c)
        (fun _ => reads_defaultRead32 addr) ?_
      simp only [List.forall_mem_cons, List.not_mem_nil, false_imp_iff, implies_true, and_true]
      simp only [reads_readTime, reads_readCycle, reads_readCsr, reads_readMasked, reads_readSatp,
        reads_pure, implies_true, true_and, and_true]
      exact fun _ => .inl ⟨_, c, rfl, .refl c⟩
  · exact .inr (bind_of_error hcheck)

/-! ## Writes -/

/-- The registers that `set_csr_value` writes under a mask of its own, and the whole registers that
`register_mapping` leaves. -/
def writtenRegisters : List (BitVec 12 × Csr × BitVec 32) :=
  [(SATP_ADDR, .satp, SATP_MASK), (MTVEC_ADDR, .mtvec, MTVEC_MASK),
    (STVEC_ADDR, .stvec, MTVEC_MASK),
    (UTVEC_ADDR, .utvec, MTVEC_MASK), (MSTATUS_ADDR, .mstatus, MSTATUS_MASK),
    (SSTATUS_ADDR, .mstatus, SSTATUS_MASK), (USTATUS_ADDR, .mstatus, USTATUS_MASK),
    (MIP_ADDR, .mip, MIP_WRITE_MASK), (SIP_ADDR, .mip, SIP_MASK), (UIP_ADDR, .mip, UIP_MASK),
    (MIE_ADDR, .mie, MIE_MASK), (SIE_ADDR, .mie, SIE_MASK), (UIE_ADDR, .mie, UIE_MASK),
    (MIDELEG_ADDR, .mideleg, MIDELEG_MASK), (MEDELEG_ADDR, .medeleg, MEDELEG_MASK),
    (SIDELEG_ADDR, .sideleg, SIDELEG_MASK), (SEDELEG_ADDR, .sedeleg, SEDELEG_MASK),
    (MCOUNTEREN_ADDR, .mcounteren, MCOUNTEREN_MASK),
    (SCOUNTEREN_ADDR, .scounteren, MCOUNTEREN_MASK),
    (MCOUNTINHIBIT_ADDR, .mcountinhibit, MCOUNTINHIBIT_MASK), (FCSR_ADDR, .fcsr, FCSR_MASK),
    (CYCLE_ADDR, .cycle, -1), (CYCLEH_ADDR, .cycleh, -1), (TIME_ADDR, .time, -1),
    (TIMEH_ADDR, .timeh, -1), (INSTRET_ADDR, .instret, -1), (INSTRETH_ADDR, .instreth, -1),
    (MCYCLE_ADDR, .cycle, -1), (MCYCLEH_ADDR, .cycleh, -1), (MTIME_ADDR, .time, -1),
    (MTIMEH_ADDR, .timeh, -1), (MINSTRET_ADDR, .instret, -1), (MINSTRETH_ADDR, .instreth, -1),
    (MVENDORID_ADDR, .mvendorid, -1), (MARCHID_ADDR, .marchid, -1), (MIMPID_ADDR, .mimpid, -1),
    (MHARTID_ADDR, .mhartid, -1), (MSCRATCH_ADDR, .mscratch, -1), (MCAUSE_ADDR, .mcause, -1),
    (MTVAL_ADDR, .mtval, -1), (SSCRATCH_ADDR, .sscratch, -1), (SCAUSE_ADDR, .scause, -1),
    (STVAL_ADDR, .stval, -1), (USCRATCH_ADDR, .uscratch, -1), (UCAUSE_ADDR, .ucause, -1),
    (UTVAL_ADDR, .utval, -1)]

/-- The registers that hold the address of an exception. -/
def epcRegisters : List (BitVec 12 × Csr) :=
  [(MEPC_ADDR, .mepc), (SEPC_ADDR, .sepc), (UEPC_ADDR, .uepc)]

/-- The registers of the memory protection. -/
def isProtection : Csr → Bool
  | .pmpaddr _ | .pmpcfg _ => true
  | _ => false

/-- The table after a write. -/
inductive Writes (c : Control) (addr : BitVec 12) (value : BitVec 32) : CsrTable → Prop where
  | ignored : Writes c addr value c.csrs
  | masked {csr : Csr} {mask : BitVec 32} (h : (addr, csr, mask) ∈ writtenRegisters) :
      Writes c addr value (c.csrs.setMasked csr mask value)
  | epc {csr : Csr} (h : (addr, csr) ∈ epcRegisters) :
      Writes c addr value (c.csrs.setMasked csr c.pcAlignmentMask value)
  | float (word : BitVec 32) : Writes c addr value (c.csrs.set .fcsr word)
  | protection {csr : Csr} (hcsr : isProtection csr = true) (h : csrPrv addr = MachineMode) :
      Writes c addr value (c.csrs.set csr value)

/-- What a write may have done to one register. -/
theorem Writes.register {value : BitVec 32} {t : CsrTable} (h : Writes c addr value t) (csr : Csr) :
    t csr = c.csrs csr ∨
      (∃ mask, (addr, csr, mask) ∈ writtenRegisters ∧ t csr = c.csrs.setMasked csr mask value csr) ∨
      ((addr, csr) ∈ epcRegisters ∧ t csr = c.csrs.setMasked csr c.pcAlignmentMask value csr) ∨
      csr = .fcsr ∨ isProtection csr = true := by
  cases h with
  | ignored => exact .inl rfl
  | @masked other mask h =>
    by_cases hcsr : csr = other
    · subst hcsr
      exact .inr (.inl ⟨mask, h, rfl⟩)
    · exact .inl (CsrTable.setMasked_of_ne hcsr ..)
  | @epc other h =>
    by_cases hcsr : csr = other
    · subst hcsr
      exact .inr (.inr (.inl ⟨h, rfl⟩))
    · exact .inl (CsrTable.setMasked_of_ne hcsr ..)
  | float word =>
    by_cases hcsr : csr = .fcsr
    · exact .inr (.inr (.inr (.inl hcsr)))
    · exact .inl (CsrTable.set_of_ne hcsr ..)
  | @protection other hother h =>
    by_cases hcsr : csr = other
    · subst hcsr
      exact .inr (.inr (.inr (.inr hother)))
    · exact .inl (CsrTable.set_of_ne hcsr ..)

/-- The addresses with a case of their own in `set_csr_value` and no register of their own. -/
def unmappedAddresses : List (BitVec 12) :=
  [SSTATUS_ADDR, USTATUS_ADDR, SIP_ADDR, UIP_ADDR, SIE_ADDR, UIE_ADDR, FFLAGS_ADDR, FRM_ADDR,
    TSELECT_ADDR, TDATA1_ADDR, TDATA2_ADDR, TDATA3_ADDR, DCSR_ADDR, DPC_ADDR, DSCRATCH0_ADDR,
    DSCRATCH1_ADDR]

/-- The register cannot be accessed: translation is trapped, or there is no such register. -/
inductive Refuses (c : Control) (addr : BitVec 12) : Prop where
  | satp (haddr : addr = SATP_ADDR) (h : c.csrs.bit .mstatus 20 = true)
  | unmapped (hhpm : isHpmCounter addr = false) (hmap : registerMapping addr = none)
      (haddr : addr ∉ unmappedAddresses)

/-- A write succeeds, or raises the exception of an illegal instruction in the state it started
in. -/
def WritesOrRefuses (addr : BitVec 12) (value : BitVec 32) (x : ControlM Unit) (c : Control) :
    Prop :=
  (∃ t, x c = .ok () { c with csrs := t } ∧ Writes c addr value t) ∨
    (x c = .error c.illegalInstruction c ∧ Refuses c addr)

variable {value : BitVec 32}

theorem writes_pure : WritesOrRefuses addr value (pure ()) c := .inl ⟨_, rfl, .ignored⟩

theorem writes_get {f : Control → ControlM Unit} (h : WritesOrRefuses addr value (f c) c) :
    WritesOrRefuses addr value (MonadState.get >>= f) c := h

theorem writes_writeMasked {mask : BitVec 32} (h : (addr, csr, mask) ∈ writtenRegisters) :
    WritesOrRefuses addr value (writeMasked csr mask value) c :=
  .inl ⟨_, rfl, .masked h⟩

/-- The mask depends on the extensions, so it is no constant of the table. -/
theorem writes_writeEpc (h : (addr, csr) ∈ epcRegisters) :
    WritesOrRefuses addr value (writeMasked csr c.pcAlignmentMask value) c :=
  .inl ⟨_, rfl, .epc h⟩

theorem writes_writeField {w : Nat} (lo : Nat) (field : BitVec w) :
    WritesOrRefuses addr value (modifyCsrs fun t => t.setField .fcsr lo field) c :=
  .inl ⟨_, rfl, .float _⟩

/-- `mstatus.TVM` refuses the write as it does the read. -/
theorem writes_writeSatp : WritesOrRefuses SATP_ADDR value (do
    if (← get).csrs.bit .mstatus 20 then raiseIllegalInstruction
    writeMasked .satp SATP_MASK value) c := by
  change WritesOrRefuses SATP_ADDR value (if c.csrs.bit .mstatus 20 = true then
    raiseIllegalInstruction >>= fun _ => writeMasked .satp SATP_MASK value
    else writeMasked .satp SATP_MASK value) c
  split
  · next htvm => exact .inr ⟨rfl, .satp rfl htvm⟩
  · exact writes_writeMasked (by decide)

/-- An unmasked write is one whose mask has every bit. -/
theorem set_eq_setMasked (t : CsrTable) (csr : Csr) (value : BitVec 32) :
    t.set csr value = t.setMasked csr (-1) value := by
  have hmask : (-1 : BitVec 32) = BitVec.allOnes 32 := by decide
  rw [CsrTable.setMasked, hmask, BitVec.and_allOnes, BitVec.not_allOnes, BitVec.and_zero,
    BitVec.zero_or]

/-- The addresses with a case of their own in `set_csr_value` and a register of their own. -/
def specialAddresses : List (BitVec 12) :=
  [MISA_ADDR, SATP_ADDR, MTVEC_ADDR, STVEC_ADDR, UTVEC_ADDR, MEPC_ADDR, SEPC_ADDR, UEPC_ADDR,
    MSTATUS_ADDR, MIP_ADDR, MIE_ADDR, MIDELEG_ADDR, MEDELEG_ADDR, SIDELEG_ADDR, SEDELEG_ADDR,
    MCOUNTEREN_ADDR, SCOUNTEREN_ADDR, MCOUNTINHIBIT_ADDR, FCSR_ADDR]

/-- The other registers are written as a whole. -/
theorem mem_writtenRegisters_of_mem {row : BitVec 12 × Csr} (h : row ∈ registerTable)
    (hspecial : row.1 ∉ specialAddresses) : (row.1, row.2, -1) ∈ writtenRegisters := by
  revert row
  decide

/-- The ranges of memory protection lie at the addresses of machine mode. -/
theorem csrPrv_of_lt {base : BitVec 12} {n : Nat} (hn : n ≤ 16)
    (hbase : ∀ i < 16, csrPrv (base + BitVec.ofNat 12 i) = MachineMode)
    (h : (addr - base).toNat < n) : csrPrv addr = MachineMode := by
  have haddr : addr = base + BitVec.ofNat 12 (addr - base).toNat := by
    rw [BitVec.ofNat_toNat, BitVec.setWidth_eq, BitVec.add_comm, BitVec.sub_add_cancel]
  rw [haddr]
  exact hbase _ (Nat.lt_of_lt_of_le h hn)

theorem mem_of_lookup (h : registerTable.lookup addr = some csr) :
    (addr, csr) ∈ registerTable := by
  obtain ⟨before, after, htable, _⟩ := List.lookup_eq_some_iff.mp h
  simp [htable]

theorem writes_defaultWrite32 (hhpm : isHpmCounter addr = false)
    (hspecial : addr ∉ specialAddresses) (hunmapped : addr ∉ unmappedAddresses) :
    WritesOrRefuses addr value (defaultWrite32 addr value) c := by
  unfold defaultWrite32
  cases hmap : registerMapping addr with
  | none => exact .inr ⟨rfl, .unmapped hhpm hmap hunmapped⟩
  | some csr =>
    refine .inl ⟨c.csrs.set csr value, rfl, ?_⟩
    unfold registerMapping at hmap
    split_ifs at hmap with haddr hcfg
    · cases hmap
      exact .protection rfl (csrPrv_of_lt le_rfl (by decide) haddr)
    · cases hmap
      exact .protection rfl (csrPrv_of_lt (by decide) (by decide) hcfg)
    · rw [set_eq_setMasked]
      exact .masked (mem_writtenRegisters_of_mem (mem_of_lookup hmap) hspecial)

/-- One case per address the dispatch of the source names. -/
theorem writes_setCsrValue (addr : BitVec 12) (value : BitVec 32) :
    WritesOrRefuses addr value (setCsrValue addr value) c := by
  unfold setCsrValue
  split
  · exact writes_pure
  · next hhpm =>
    apply writes_get
    refine switch_induction (P := fun x => WritesOrRefuses addr value x c) (fun hlabel => ?_) ?_
    · simp only [List.map_cons, List.map_nil, List.mem_cons, not_or] at hlabel
      refine writes_defaultWrite32 (Bool.eq_false_iff.mpr hhpm) ?_ ?_
      · simp only [specialAddresses, List.mem_cons, hlabel, or_self, not_false_eq_true]
      · simp only [unmappedAddresses, List.mem_cons, hlabel, or_self, not_false_eq_true]
    · simp only [List.forall_mem_cons, List.not_mem_nil, false_imp_iff, implies_true, and_true]
      and_intros <;> rintro rfl
      all_goals first
        | with_reducible exact writes_pure
        | with_reducible exact writes_writeSatp
        | with_reducible exact writes_writeField _ _
        | with_reducible exact writes_writeEpc (by decide)
        | exact writes_writeMasked (by decide)

/-- A register that cannot be written cannot be read either. -/
theorem not_refuses_of_getCsrValue {value : BitVec 32} (h : getCsrValue addr c = .ok value c') :
    ¬ Refuses c addr := by
  intro hrefuses
  obtain ⟨_, c₁, hcheck, h⟩ := bind_eq_ok h
  obtain ⟨_, hsame, _⟩ | hsame := checks_validateCsrCounterReadAccessRights (c := c) addr
  · rw [hsame] at hcheck
    cases hcheck
    have hhpm : ¬ isHpmCounter addr = true := by
      obtain ⟨rfl, _⟩ | ⟨hhpm, _, _⟩ := hrefuses
      · decide
      · rw [hhpm]
        decide
    rw [if_neg hhpm] at h
    revert h
    refine switch_induction (P := fun x : ControlM (BitVec 32) => ¬ x c = .ok value c')
      (fun hlabel h => ?_) ?_
    · obtain ⟨rfl, _⟩ | ⟨_, hmap, _⟩ := hrefuses
      · simp at hlabel
      · rw [defaultRead32, hmap] at h
        cases h
    · simp only [List.forall_mem_cons, List.not_mem_nil, false_imp_iff, implies_true, and_true]
      and_intros
      all_goals
        rintro rfl h
        obtain ⟨haddr, htvm⟩ | ⟨_, hmap, haddr⟩ := hrefuses
        · first
          | exact absurd haddr (by decide)
          | rw [readSatp_of_tvm htvm] at h
            cases h
        · first
          | exact absurd hmap (by decide)
          | exact haddr (by decide)
  · rw [hsame] at hcheck
    cases hcheck

end Control

end SpsVp.Rv32
