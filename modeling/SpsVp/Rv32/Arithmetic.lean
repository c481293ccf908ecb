import SpsVp.Rv32.Turn

/-!
# RV32IM instructions are concolically correct

For the computational instructions, the multiplications and divisions and the conditional branches:
what `exec_step` and `run_step` leave in the registers and in the program counter is what
`Specification` says, for the concrete parts and for the symbolic parts under every assignment that
satisfies the traced conditions.

Both parts are treated at once, by `ConcolicValue.part`. A division looks at the concrete divisor to
choose between its two cases; that the choice is right under an assignment is what the traced
condition is for.
-/

namespace SpsVp.Rv32

open Lib Effect Clover Klee Platform Control BitVec ConcolicValue

namespace Specification

/-! ## The operations of the simulator -/

variable (x y : BitVec 32)

/-- A left shift multiplies by a power of two. -/
theorem shiftLeft_eq_sll (n : Nat) : x <<< n = sll x n := by
  apply eq_of_toNat_eq
  simp [sll, Nat.shiftLeft_eq]

/-- A logical right shift divides the unsigned value. -/
theorem ushiftRight_eq_srl (n : Nat) : x >>> n = srl x n := by
  have hlt : x.toNat / 2 ^ n < 2 ^ 32 := Nat.lt_of_le_of_lt (Nat.div_le_self _ _) x.isLt
  apply eq_of_toNat_eq
  simp only [srl, toNat_ushiftRight, Nat.shiftRight_eq_div_pow, toNat_ofNat]
  rw [Nat.mod_eq_of_lt hlt]

/-- An arithmetic right shift divides the signed value. -/
theorem sshiftRight_eq_sra (n : Nat) : x.sshiftRight n = sra x n := by
  simp [sra, BitVec.sshiftRight, Int.shiftRight_eq_div_pow]

/-- The signed comparison of the solver, as a word. -/
theorem slt_apply : (CmpKind.Slt.apply x y).setWidth 32 = slt x y := by
  by_cases h : x.toInt < y.toInt <;> simp [CmpKind.apply, CmpKind.test, slt, BitVec.slt, h]

/-- The unsigned comparison of the solver, as a word. -/
theorem ult_apply : (CmpKind.Ult.apply x y).setWidth 32 = sltu x y := by
  by_cases h : x.toNat < y.toNat <;> simp [CmpKind.apply, CmpKind.test, sltu, BitVec.ult, h]

/-- The lower half of a product is its value modulo two to the 32. -/
theorem extractLsb'_ofInt_low (z : Int) :
    (BitVec.ofInt 64 z).extractLsb' 0 32 = BitVec.ofInt 32 z := by
  apply eq_of_toNat_eq
  simp only [extractLsb'_toNat, toNat_ofInt, Nat.shiftRight_zero]
  omega

/-- The upper half of a product is its quotient by two to the 32. -/
theorem extractLsb'_ofInt_high (z : Int) :
    (BitVec.ofInt 64 z).extractLsb' 32 32 = BitVec.ofInt 32 (z / 2 ^ 32) := by
  apply eq_of_toNat_eq
  simp only [extractLsb'_toNat, toNat_ofInt, Nat.shiftRight_eq_div_pow]
  omega

/-- An unsigned operand is extended to the integer it stands for. -/
theorem setWidth_eq_ofInt : x.setWidth 64 = BitVec.ofInt 64 x.toNat := by
  rw [ofInt_natCast, ofNat_toNat]

/-- The lower half of a product does not depend on the signs. -/
theorem mul_apply :
    (x.signExtend 64 * y.signExtend 64).extractLsb' 0 32 = mul x y := by
  rw [BitVec.signExtend, BitVec.signExtend, ← ofInt_mul, extractLsb'_ofInt_low, mul]

/-- The upper half of the product of two signed operands. -/
theorem mulh_apply :
    (x.signExtend 64 * y.signExtend 64).extractLsb' 32 32 = mulh x y := by
  rw [BitVec.signExtend, BitVec.signExtend, ← ofInt_mul, extractLsb'_ofInt_high, mulh]

/-- The upper half of the product of a signed and an unsigned operand. -/
theorem mulhsu_apply :
    (x.signExtend 64 * y.setWidth 64).extractLsb' 32 32 = mulhsu x y := by
  rw [BitVec.signExtend, setWidth_eq_ofInt, ← ofInt_mul, extractLsb'_ofInt_high, mulhsu]

/-- The upper half of the product of two unsigned operands. -/
theorem mulhu_apply :
    (x.setWidth 64 * y.setWidth 64).extractLsb' 32 32 = mulhu x y := by
  rw [setWidth_eq_ofInt, setWidth_eq_ofInt, ← ofInt_mul, extractLsb'_ofInt_high, mulhu,
    ← ofInt_natCast]
  norm_cast

theorem toInt_eq_zero_iff : y.toInt = 0 ↔ y = 0#32 := by
  rw [← toInt_inj, toInt_zero]

theorem toNat_eq_zero_iff : y.toNat = 0 ↔ y = 0#32 := by
  rw [← toNat_inj]
  rfl

/-- A signed division overflows for one pair of operands only. -/
theorem overflow_iff : Overflow x y ↔ x = 0x80000000#32 ∧ y = -1 := by
  rw [Overflow, ← toInt_inj, ← toInt_inj]
  rfl

/-- The signed quotient of the solver is rounded towards zero, as it is specified. -/
theorem smtSDiv_eq_ofInt {y : BitVec 32} (hy : y ≠ 0#32) :
    x.smtSDiv y = BitVec.ofInt 32 (x.toInt.tdiv y.toInt) := by
  have hsdiv : x.smtSDiv y = x.sdiv y := by
    simp only [BitVec.smtSDiv, BitVec.sdiv, BitVec.smtUDiv]
    split <;> simp_all
  apply eq_of_toInt_eq
  rw [hsdiv, toInt_sdiv, toInt_ofInt]

/-- The signed remainder of the solver has the sign of the dividend, as it is specified. -/
theorem srem_eq_ofInt : x.srem y = BitVec.ofInt 32 (x.toInt.tmod y.toInt) := by
  rw [← toInt_srem, ofInt_toInt]

/-- The two cases of `DIV`. -/
theorem div_eq : div x y = if y = 0#32 then -1
    else if x = 0x80000000#32 ∧ y = -1 then x else x.smtSDiv y := by
  simp only [div, toInt_eq_zero_iff, overflow_iff]
  split
  · rfl
  · next hy => rw [smtSDiv_eq_ofInt x hy]

/-- The unsigned quotient, with the case that the instruction handles itself. -/
theorem divu_eq : divu x y = if y = 0#32 then -1 else x.smtUDiv y := by
  simp only [divu, toNat_eq_zero_iff]
  split
  · rfl
  · next hy =>
    apply eq_of_toNat_eq
    have hlt : x.toNat / y.toNat < 2 ^ 32 := Nat.lt_of_le_of_lt (Nat.div_le_self _ _) x.isLt
    rw [BitVec.smtUDiv, if_neg (by exact hy), udiv_eq, toNat_udiv, toNat_ofNat,
      Nat.mod_eq_of_lt hlt]

/-- The signed remainder, with the cases that the instruction handles itself. -/
theorem rem_eq : rem x y = if y = 0#32 then x
    else if x = 0x80000000#32 ∧ y = -1 then 0#32 else x.srem y := by
  simp only [rem, toInt_eq_zero_iff, overflow_iff, srem_eq_ofInt]
  rfl

/-- The unsigned remainder, where the divisor may be zero. -/
theorem remu_eq : remu x y = if y = 0#32 then x else x % y := by
  simp only [remu, toNat_eq_zero_iff]
  split
  · rfl
  · apply eq_of_toNat_eq
    have hlt : x.toNat % y.toNat < 2 ^ 32 := Nat.lt_of_le_of_lt (Nat.mod_le _ _) x.isLt
    simp only [toNat_ofNat, toNat_umod]
    rw [Nat.mod_eq_of_lt hlt]

end Specification

namespace Iss

/-! ## Writing the result -/

/-- The value of `rs1`. -/
def left (d : Iss) : ConcolicValue 32 := (d.regs d.instr.rs1).value

/-- The value of `rs2`. -/
def right (d : Iss) : ConcolicValue 32 := (d.regs d.instr.rs2).value

/-- What is specified for `rd`, with the operands of a state. -/
def specifiedResult (d : Iss) (m : Option Valuation) : Option (BitVec 32) :=
  Specification.result d.op d.instr.data d.lastPc (d.left.part m) (d.right.part m)

/-- A constant has one value, concretely and under every assignment. -/
@[simp] theorem part_constant (m : Option Valuation) (value : BitVec 32) :
    (constant value).part m = value :=
  part_of_concrete m rfl

theorem regs_assign_self (s : Iss) (index : BitVec 5) (value : ConcolicValue 32) :
    (s.assign index value).regs index = ⟨s.nextObject, value⟩ :=
  Function.update_self _ _ _

/-- A word is written as it is. -/
theorem write_word (index : BitVec 5) (value : ConcolicValue 32) (s : Iss) :
    write index value s = .ok () (s.assign index value) := by
  have hcast : value.cast rfl = value := by
    obtain ⟨concrete, symbolic⟩ := value
    cases symbolic <;> rfl
  rw [write, if_neg (by decide), dif_pos rfl, hcast]
  rfl

/-- The destination register gets a new object with the word. -/
theorem writeRd_word (value : ConcolicValue 32) (s : Iss) :
    writeRd value s = .ok () (s.assign s.instr.rd value) :=
  write_word _ _ _

/-- A single bit is zero-extended. -/
theorem write_bit (index : BitVec 5) (value : ConcolicValue 1) (s : Iss) :
    write index value s = .ok () (s.assign index (value.zext 32)) :=
  rfl

/-- The shift amount in a register is its value modulo 32. -/
theorem toNat_shamt (x : BitVec 32) :
    ((x.extractLsb' 0 5).setWidth 32).toNat = x.toNat % 32 := by
  simp only [toNat_setWidth, extractLsb'_toNat, Nat.shiftRight_zero]
  omega

/-- The shift amount in an instruction word whose sixth bit is clear. -/
theorem toNat_SHAMT {instr : Instruction} (h : instr.data.getLsbD 25 = false) :
    instr.shamt.toNat = Specification.immShamt instr.data := by
  rw [Instruction.shamt_eq_of_getElem h, toNat_setWidth, Specification.immShamt]
  exact Nat.mod_eq_of_lt (Nat.lt_of_lt_of_le (BitVec.isLt _) (by decide))

/-- The immediate of the I-type is the specified one. -/
@[simp] theorem part_I_IMM (m : Option Valuation) (instr : Instruction) :
    (I_IMM instr).part m = Specification.immI instr.data := by
  simp [I_IMM, Instruction.iImm_eq, Specification.immI]

/-- The immediate of the U-type is the specified one. -/
@[simp] theorem part_U_IMM (m : Option Valuation) (instr : Instruction) :
    (U_IMM instr).part m = Specification.immU instr.data := by
  simp [U_IMM, Instruction.uImm_eq, Specification.immU]

/-- An instruction writes the specified result to a new object and does nothing else. -/
def Computes (d : Iss) : Prop :=
  ∃ v, execute d.op d = .ok () (d.assign d.instr.rd v) ∧ ∀ m, d.specifiedResult m = some (v.part m)

open Specification

variable {d : Iss}

/-- `LUI` and `AUIPC` compute what is specified. -/
theorem computes_of_mem_upperImmediates (hop : d.op ∈ upperImmediates) : d.Computes := by
  unfold Computes specifiedResult
  generalize d.op = op at hop
  simp only [upperImmediates, List.mem_cons, List.not_mem_nil, or_false] at hop
  obtain rfl | rfl := hop
  all_goals exact ⟨_, write_word _ _ _, fun m => by simp [result, BinaryKind.apply]⟩

/-- The instructions on a register and an immediate compute what is specified. -/
theorem computes_of_mem_registerImmediates (hop : d.op ∈ registerImmediates) : d.Computes := by
  unfold Computes specifiedResult
  generalize d.op = op at hop
  simp only [registerImmediates, List.mem_cons, List.not_mem_nil, or_false] at hop
  obtain rfl | rfl | rfl | hop := hop
  · exact ⟨_, write_word _ _ _, fun m => by simp [result, BinaryKind.apply, left]⟩
  · exact ⟨_, write_bit _ _ _, fun m => by simp [result, slt_apply, left]⟩
  · exact ⟨_, write_bit _ _ _, fun m => by simp [result, ult_apply, left]⟩
  · obtain rfl | rfl | rfl := hop
    all_goals exact ⟨_, write_word _ _ _, fun m => by simp [result, BinaryKind.apply, left]⟩

/-- A shift amount of the instruction word is below 32 when bit 25 is clear. -/
theorem computes_of_mem_shiftImmediates (hop : d.op ∈ shiftImmediates)
    (hbit : d.instr.data.getLsbD 25 = false) : d.Computes := by
  unfold Computes specifiedResult
  generalize d.op = op at hop
  simp only [shiftImmediates, List.mem_cons, List.not_mem_nil, or_false] at hop
  obtain rfl | rfl | rfl := hop
  all_goals exact ⟨_, write_word _ _ _, fun m => by
    simp [result, BinaryKind.apply, left, SHAMT, toNat_SHAMT hbit, shiftLeft_eq_sll,
      ushiftRight_eq_srl, sshiftRight_eq_sra]⟩

/-- The instructions on two registers compute what is specified. -/
theorem computes_of_mem_registerRegisters (hop : d.op ∈ registerRegisters) : d.Computes := by
  unfold Computes specifiedResult
  generalize d.op = op at hop
  simp only [registerRegisters, List.mem_cons, List.not_mem_nil, or_false] at hop
  obtain rfl | rfl | rfl | rfl | hop := hop
  · exact ⟨_, write_word _ _ _, fun m => by simp [result, BinaryKind.apply, left, right]⟩
  · exact ⟨_, write_word _ _ _, fun m => by simp [result, BinaryKind.apply, left, right]⟩
  · exact ⟨_, write_bit _ _ _, fun m => by simp [result, slt_apply, left, right]⟩
  · exact ⟨_, write_bit _ _ _, fun m => by simp [result, ult_apply, left, right]⟩
  · obtain rfl | rfl | rfl | rfl | rfl | rfl := hop
    all_goals exact ⟨_, write_word _ _ _, fun m => by
      simp [result, BinaryKind.apply, left, right, shamt, toNat_shamt, shiftLeft_eq_sll,
        ushiftRight_eq_srl, sshiftRight_eq_sra, -toNat_setWidth]⟩

/-! ## Multiplications -/

/-- The test for an extension passes where the extension is. -/
theorem requireIsa_ok {ext : BitVec 32} (h : d.csrs.hasExtension ext = true) :
    control (requireIsa ext) d = .ok () d :=
  control_ok (by rw [requireIsa_apply, if_pos h])

/-- It raises the trap of an illegal instruction elsewhere. -/
theorem requireIsa_error {ext : BitVec 32} (h : d.csrs.hasExtension ext = false) :
    control (requireIsa ext) d =
      .error (.trap .EXC_ILLEGAL_INSTR (d.instr.data.setWidth 64)) d :=
  control_error (by rw [requireIsa_apply, h]; rfl)

/-- The multiplications compute what is specified, if the extension is there. -/
theorem computes_of_mem_multiplications (hop : d.op ∈ [.MUL, .MULH, .MULHSU, .MULHU])
    (hM : d.csrs.hasExtension CsrTable.M_ISA_EXT = true) : d.Computes := by
  unfold Computes specifiedResult
  generalize d.op = op at hop
  simp only [List.mem_cons, List.not_mem_nil, or_false] at hop
  obtain rfl | rfl | rfl | rfl := hop
  all_goals
    simp only [execute, multiply, bind_of_ok (requireIsa_ok hM)]
    exact ⟨_, write_word _ _ _, fun m => by
      simp [result, BinaryKind.apply, left, right, mul_apply, mulh_apply, mulhsu_apply,
        mulhu_apply]⟩

/-- Without the extension every instruction of it is illegal. -/
theorem execute_error_of_mem_extensionM (hop : d.op ∈ extensionM)
    (hM : d.csrs.hasExtension CsrTable.M_ISA_EXT = false) :
    execute d.op d = .error (.trap .EXC_ILLEGAL_INSTR (d.instr.data.setWidth 64)) d := by
  generalize d.op = op at hop
  simp only [extensionM, List.mem_cons, List.not_mem_nil, or_false] at hop
  obtain rfl | rfl | rfl | rfl | rfl | rfl | rfl | rfl := hop
  all_goals simp only [execute, multiply, divide, bind_of_error (requireIsa_error hM)]

/-! ## Traced conditions -/

/-- An assignment satisfies the conditions handed to the tracer. -/
def Satisfies (σ : Valuation) (log : List Event) : Prop :=
  ∀ cond bv pc pktSeqLen, Event.branch cond bv pc pktSeqLen ∈ log → (bv.eval σ = 1#1 ↔ cond = true)

/-- The concrete parts, or an assignment that satisfies the traced conditions. -/
def Admits (m : Option Valuation) (log : List Event) : Prop := ∀ σ ∈ m, Satisfies σ log

/-- The state after `track_and_trace_branch`. -/
def traced (s : Iss) (cond : Bool) (expr : ConcolicValue 1) : Iss :=
  Effect.final (trackAndTraceBranch cond expr s)

variable {s : Iss} {cond : Bool} {expr : ConcolicValue 1}

/-- Tracing a condition always succeeds. -/
theorem trackAndTraceBranch_eq : trackAndTraceBranch cond expr s = .ok () (s.traced cond expr) := by
  obtain ⟨concrete, symbolic⟩ := expr
  cases symbolic <;> rfl

/-- It leaves the registers alone. -/
@[simp] theorem traced_regs : (s.traced cond expr).regs = s.regs := by
  obtain ⟨concrete, symbolic⟩ := expr
  cases symbolic <;> rfl

/-- It leaves the program counter alone. -/
@[simp] theorem traced_pc : (s.traced cond expr).pc = s.pc := by
  obtain ⟨concrete, symbolic⟩ := expr
  cases symbolic <;> rfl

/-- A symbolic condition is handed to the tracer with its direction. -/
theorem mem_log_traced {bv : Expr 1} (h : expr.symbolic = some bv) :
    .branch cond bv s.lastPc (s.currentPacketIndex + 1) ∈ (s.traced cond expr).io.log := by
  obtain ⟨concrete, symbolic⟩ := expr
  obtain rfl : symbolic = some bv := h
  exact List.mem_append_right _ List.mem_cons_self

/-- Under an assignment that satisfies its traced direction a condition has its concrete value. -/
theorem part_eq_of_traced {m : Option Valuation}
    (h : Admits m (s.traced (expr.concrete = 1#1) expr).io.log) : expr.part m = expr.concrete := by
  cases m with
  | none => rfl
  | some σ =>
    cases hsym : expr.symbolic with
    | none => exact value_of_concrete σ hsym
    | some bv =>
      have hbv := h σ rfl _ _ _ _ (mem_log_traced hsym)
      rw [decide_eq_true_iff, ← value_of_symbolic σ hsym] at hbv
      change expr.value σ = expr.concrete
      -- two bits that are set together are equal
      generalize expr.value σ = a at hbv ⊢
      generalize expr.concrete = b at hbv ⊢
      revert hbv
      decide +revert

/-! ## What an instruction leaves behind -/

/-- The address of the next instruction that is specified for the operands of a state. -/
def specifiedNextPc (d : Iss) (m : Option Valuation) : BitVec 32 :=
  Specification.nextPc d.op d.instr.data d.lastPc d.pc (d.left.part m) (d.right.part m)

/-- The instruction of `d` has done in `e` what is specified. -/
structure Completes (d e : Iss) : Prop where
  result : d.op ∉ branches → ∀ m, Admits m e.io.log →
    d.specifiedResult m = some ((e.regs d.instr.rd).value.part m)
  others : ∀ r, r ≠ d.instr.rd ∨ d.op ∈ branches → e.regs r = d.regs r
  nextPc : ∀ m, Admits m e.io.log → e.pc = d.specifiedNextPc m

/-- No other instruction takes a branch. -/
theorem taken_eq_false (hop : d.op ∉ branches) (x y : BitVec 32) : taken d.op x y = false := by
  generalize d.op = op at hop
  unfold taken
  split <;> first | rfl | exact absurd (by decide) hop

/-- Any other instruction is followed by the next one. -/
theorem specifiedNextPc_of_not_branch (hop : d.op ∉ branches) (m : Option Valuation) :
    d.specifiedNextPc m = d.pc := by
  rw [specifiedNextPc, Specification.nextPc, taken_eq_false hop]
  rfl

/-- An instruction that writes the specified result to its register and goes on behind itself. -/
theorem completes_of_regs {t : Iss} {v : RegValue} (hop : d.op ∉ branches)
    (hregs : t.regs = Function.update d.regs d.instr.rd v) (hpc : t.pc = d.pc)
    (hv : ∀ m, Admits m t.io.log → d.specifiedResult m = some (v.value.part m)) :
    d.Completes t := by
  refine ⟨fun _ m hm => ?_, fun r hr => ?_, fun m _ => ?_⟩
  · rw [hregs, Function.update_self]
    exact hv m hm
  · rw [hregs, Function.update_of_ne (hr.resolve_right hop)]
  · rw [hpc, specifiedNextPc_of_not_branch hop]

/-- An instruction that computes what is specified completes. -/
theorem Computes.completes (h : d.Computes) (hop : d.op ∉ branches) :
    ∃ e, execute d.op d = .ok () e ∧ d.Completes e := by
  obtain ⟨v, hexec, hv⟩ := h
  exact ⟨_, hexec, completes_of_regs hop rfl rfl fun m _ => hv m⟩

/-! ## Divisions -/

/-- The condition of `select` in a signed division is concrete only if both operands are. -/
theorem symbolic_overflows_eq_none {x y : ConcolicValue 32} (h : (overflows x y).symbolic = none) :
    x.symbolic = none ∧ y.symbolic = none := by
  obtain ⟨hx, hy⟩ := symbolic_arithmetic_eq_none.mp h
  exact ⟨(symbolic_compare_eq_none.mp hx).1,
    (symbolic_compare_eq_none.mp hy).1⟩

theorem ofBool_eq_one (b : Bool) : BitVec.ofBool b = 1#1 ↔ b = true := by
  cases b <;> decide

/-- The condition of `select` says that a division overflows. -/
theorem part_overflows (m : Option Valuation) (x y : ConcolicValue 32) :
    (overflows x y).part m = 1#1 ↔ x.part m = 0x80000000#32 ∧ y.part m = -1 := by
  simp only [overflows, part_arithmetic, part_compare, part_constant,
    BinaryKind.apply, CmpKind.apply, CmpKind.test, ofBool_and_ofBool, ofBool_eq_one,
    Bool.and_eq_true, beq_iff_eq]

/-- The condition of a division says that the divisor is zero. -/
theorem part_eq_zero (m : Option Valuation) (y : ConcolicValue 32) :
    (y.eq REG_ZERO).part m = 1#1 ↔ y.part m = 0#32 := by
  rw [part_compare, part_constant, CmpKind.apply, ofBool_eq_one, CmpKind.test,
    beq_iff_eq]

variable {e f b : Iss} {op : Mapping}

/-- A condition is traced after the case for its concrete value was executed. -/
theorem evalAndTrace_ok {body : Bool → IssM Unit}
    (h : body (expr.concrete = 1#1) s = .ok () e) :
    evalAndTrace expr body s = .ok () (e.traced (expr.concrete = 1#1) expr) := by
  rw [evalAndTrace, bind_of_ok h, trackAndTraceBranch_eq]

section

variable (hM : d.csrs.hasExtension CsrTable.M_ISA_EXT = true)
include hM

/-- A division does what is specified when each of its two cases does. Under an admissible
assignment the divisor is zero exactly when the concrete one is. -/
theorem divide_completes (hop : d.op ∉ branches) {whenZero : RegValue → IssM Unit}
    {otherwise : ConcolicValue 32 → ConcolicValue 32 → ConcolicValue 32}
    (hexec : execute d.op d = divide whenZero otherwise d) {v : RegValue} {n : Nat}
    (hwhenZero : whenZero (d.regs d.instr.rs1) d =
      .ok () { d with regs := Function.update d.regs d.instr.rd v, nextObject := n })
    (hzero : ∀ m, d.right.part m = 0#32 → d.specifiedResult m = some (v.value.part m))
    (hother : ∀ m, d.right.part m ≠ 0#32 →
      d.specifiedResult m = some ((otherwise d.left d.right).part m)) :
    ∃ e, execute d.op d = .ok () e ∧ d.Completes e := by
  have hrun : execute d.op d = (evalAndTrace (d.right.eq REG_ZERO) fun isZero =>
      if isZero then whenZero (d.regs d.instr.rs1) else writeRd (otherwise d.left d.right)) d := by
    rw [hexec, divide, bind_of_ok (requireIsa_ok hM)]
    rfl
  by_cases hone : (d.right.eq REG_ZERO).concrete = 1#1
  · refine ⟨_, hrun.trans (evalAndTrace_ok
      (e := { d with regs := Function.update d.regs d.instr.rd v, nextObject := n }) ?_),
      completes_of_regs hop traced_regs traced_pc fun m hm => hzero m ?_⟩
    · rw [hone]
      exact hwhenZero
    · rw [← part_eq_zero, part_eq_of_traced hm, hone]
  · refine ⟨_,
      hrun.trans (evalAndTrace_ok (e := d.assign d.instr.rd (otherwise d.left d.right)) ?_),
      completes_of_regs hop traced_regs traced_pc fun m hm => hother m ?_⟩
    · rw [decide_eq_false hone]
      exact write_word _ _ _
    · rwa [ne_eq, ← part_eq_zero, part_eq_of_traced hm]

/-- `DIV` selects the dividend for the overflow. -/
theorem completes_of_DIV (h : d.op = .DIV) :
    ∃ e, execute d.op d = .ok () e ∧ d.Completes e := by
  have hspec : ∀ m, d.specifiedResult m = some (div (d.left.part m) (d.right.part m)) := by
    simp [specifiedResult, h, Specification.result]
  refine divide_completes hM (by simp [h, branches]) (by rw [h, execute]) (write_word _ _ _) ?_ ?_
  · intro m hy
    simp [hspec, div_eq, hy]
  · intro m hy
    rw [hspec, div_eq, if_neg hy, part_select]
    · simp only [part_overflows, part_arithmetic, BinaryKind.apply]
    · intro hc
      have hxy := symbolic_overflows_eq_none hc
      exact ⟨hxy.1, symbolic_arithmetic_eq_none.mpr hxy⟩

/-- `DIVU` has no overflow. -/
theorem completes_of_DIVU (h : d.op = .DIVU) :
    ∃ e, execute d.op d = .ok () e ∧ d.Completes e := by
  have hspec : ∀ m, d.specifiedResult m = some (divu (d.left.part m) (d.right.part m)) := by
    simp [specifiedResult, h, Specification.result]
  refine divide_completes hM (by simp [h, branches]) (by rw [h, execute]) (write_word _ _ _) ?_ ?_
  · intro m hy
    simp [hspec, divu_eq, hy]
  · intro m hy
    simp [hspec, divu_eq, hy, BinaryKind.apply]

/-- `REM` selects zero for the overflow. -/
theorem completes_of_REM (h : d.op = .REM) :
    ∃ e, execute d.op d = .ok () e ∧ d.Completes e := by
  have hspec : ∀ m, d.specifiedResult m = some (rem (d.left.part m) (d.right.part m)) := by
    simp [specifiedResult, h, Specification.result]
  refine divide_completes hM (by simp [h, branches]) (by rw [h, execute]) rfl ?_ ?_
  · intro m hy
    simp [hspec, rem_eq, hy, left]
  · intro m hy
    rw [hspec, rem_eq, if_neg hy, part_select]
    · simp only [part_overflows, part_arithmetic, BinaryKind.apply, part_constant]
    · intro hc
      exact ⟨rfl, symbolic_arithmetic_eq_none.mpr (symbolic_overflows_eq_none hc)⟩

/-- `REMU` has no overflow. -/
theorem completes_of_REMU (h : d.op = .REMU) :
    ∃ e, execute d.op d = .ok () e ∧ d.Completes e := by
  have hspec : ∀ m, d.specifiedResult m = some (remu (d.left.part m) (d.right.part m)) := by
    simp [specifiedResult, h, Specification.result]
  refine divide_completes hM (by simp [h, branches]) (by rw [h, execute]) rfl ?_ ?_
  · intro m hy
    simp [hspec, remu_eq, hy, left]
  · intro m hy
    simp [hspec, remu_eq, hy, BinaryKind.apply]

end

/-! ## Branches -/

/-- The state at the target of a branch. -/
def jumped (d : Iss) : Iss := { d with pc := d.lastPc + d.instr.bImm }

/-- The target of a branch is the specified one. -/
theorem jumped_pc : d.jumped.pc = d.lastPc + immB d.instr.data := by
  rw [jumped, Instruction.bImm_eq, immB]

/-- The target of a branch is even, like its address. -/
theorem jumped_even (h : d.lastPc.toNat % 2 = 0) : d.jumped.pc.toNat % 2 = 0 :=
  even_add_of_bit (getLsbD_bImm _) h

/-- The comparison of a branch instruction. -/
theorem execute_branch (hop : d.op ∈ branches) :
    ∃ cmp, execute d.op = branch cmp ∧ ∀ m (x y : ConcolicValue 32),
      (cmp x y).part m = 1#1 ↔ taken d.op (x.part m) (y.part m) = true := by
  generalize d.op = op at hop
  simp only [branches, List.mem_cons, List.not_mem_nil, or_false] at hop
  obtain rfl | rfl | rfl | rfl | rfl | rfl := hop
  all_goals exact ⟨_, rfl, fun m x y => by
    simp [CmpKind.apply, ofBool_eq_one, CmpKind.test, taken, BitVec.slt, BitVec.sle, BitVec.ult,
      BitVec.ule]⟩

/-- The check of the program counter fails for odd addresses and for misaligned ones. -/
theorem refusesPc_iff (c : Control) :
    c.refusesPc = true ↔ c.pc.toNat % 2 ≠ 0 ∨ c.isMisaligned = true := by
  rw [refusesPc, Bool.or_eq_true, decide_eq_true_iff, ne_eq, and_one_eq_zero_iff]

/-- A branch that is taken, in terms of the state at its target. -/
theorem takeBranch_apply : takeBranch expr d =
    (if d.jumped.refusesPc = true then (interface (Interface.note (.concretised ⟨1, expr⟩)) >>=
      fun _ => control trapCheckPcAlignment) else control trapCheckPcAlignment :
        IssM Unit) d.jumped :=
  rfl

/-- A branch to an aligned address arrives there. -/
theorem takeBranch_ok (heven : d.jumped.pc.toNat % 2 = 0)
    (haligned : d.jumped.isMisaligned = false) : takeBranch expr d = .ok () d.jumped := by
  have hrefuses : ¬ d.jumped.refusesPc = true := by simp [refusesPc_iff, heven, haligned]
  rw [takeBranch_apply, if_neg hrefuses]
  refine control_ok (s := d.jumped) ?_
  rw [trapCheckPcAlignment_apply, if_neg (not_not.mpr heven), haligned]
  rfl

/-- A branch to a misaligned address raises a trap and leaves the registers alone. -/
theorem takeBranch_error (expr : ConcolicValue 1) (heven : d.jumped.pc.toNat % 2 = 0)
    (hmisaligned : d.jumped.isMisaligned = true) :
    ∃ e, takeBranch expr d =
      .error (.trap .EXC_INSTR_ADDR_MISALIGNED (d.jumped.pc.setWidth 64)) e ∧ e.regs = d.regs := by
  have hrefuses : d.jumped.refusesPc = true := (refusesPc_iff _).mpr (.inr hmisaligned)
  let e : Iss := { d.jumped with io := { d.io with log := d.io.log ++ [.concretised ⟨1, expr⟩] } }
  refine ⟨e, ?_, rfl⟩
  rw [takeBranch_apply, if_pos hrefuses]
  refine control_error (s := e) ?_
  rw [trapCheckPcAlignment_apply]
  exact (if_neg (not_not.mpr heven)).trans (if_pos hmisaligned)

section

variable {cmp : ConcolicValue 32 → ConcolicValue 32 → ConcolicValue 1}

/-- A branch, in terms of the values of its operands. -/
theorem branch_eq : branch cmp d = (evalAndTrace (cmp d.left d.right) fun cond =>
    if cond then takeBranch (cmp d.left d.right) else pure ()) d :=
  rfl

/-- The direction of a branch is the specified one under every admissible assignment. -/
theorem completes_of_branch (hop : d.op ∈ branches) (heven : d.lastPc.toNat % 2 = 0)
    (hexc : taken d.op d.left.concrete d.right.concrete = true → d.jumped.isMisaligned = false) :
    ∃ e, execute d.op d = .ok () e ∧ d.Completes e := by
  obtain ⟨cmp, hexec, htaken⟩ := execute_branch hop
  rw [hexec, branch_eq]
  by_cases hone : (cmp d.left d.right).concrete = 1#1
  · have hrun : takeBranch (cmp d.left d.right) d = .ok () d.jumped :=
      takeBranch_ok (jumped_even heven) (hexc ((htaken none _ _).mp hone))
    refine ⟨_, evalAndTrace_ok (e := d.jumped) (by rw [hone]; exact hrun), absurd hop, ?_, ?_⟩
    · intro r _
      rw [traced_regs]
      rfl
    · intro m hm
      have hm := (htaken m _ _).mp ((part_eq_of_traced hm).trans hone)
      rw [traced_pc, jumped_pc, specifiedNextPc, Specification.nextPc, hm]
      rfl
  · refine ⟨_, evalAndTrace_ok (e := d) (by rw [decide_eq_false hone]; rfl), absurd hop, ?_, ?_⟩
    · intro r _
      rw [traced_regs]
    · intro m hm
      have hm : ¬ taken d.op (d.left.part m) (d.right.part m) = true := fun h =>
        hone ((part_eq_of_traced hm).symm.trans ((htaken m _ _).mpr h))
      rw [traced_pc, specifiedNextPc, Specification.nextPc, if_neg hm]

end

/-! ## Fetching and decoding -/

/-- What decoding changes. -/
theorem decode_ok (h : (do control decode; control coverInstr) f = .ok () d) :
    ∃ instr op coverage, Decodes f.instr instr op ∧
      d = { f with toControl := { decoded f.toControl instr op with coverage } } := by
  obtain ⟨instr, op, hdecodes, hdecode⟩ := decode_cases f.toControl
  obtain ⟨_, t, ht, h⟩ := bind_eq_ok h
  split_ifs at hdecode
  · rw [control_error hdecode] at ht
    cases ht
  · rw [control_ok hdecode] at ht
    cases ht
    have hcover := coverInstr_apply (decoded f.toControl instr op)
    cases hc : f.coverage with
    | none =>
      rw [show (decoded f.toControl instr op).coverage = none from hc] at hcover
      rw [control_error hcover] at h
      cases h
    | some coverage =>
      rw [show (decoded f.toControl instr op).coverage = some coverage from hc] at hcover
      rw [control_ok hcover] at h
      cases h
      exact ⟨instr, op, _, hdecodes, rfl⟩

/-- A shift that is decoded has a shift amount of five bits. -/
theorem getElem_of_decodes {word instr : Instruction} (h : Decodes word instr op)
    (hop : op ∈ shiftImmediates) : instr.data.getLsbD 25 = false := by
  unfold Decodes at h
  split at h
  · unfold Instruction.decodeAndExpandCompressed at h
    cases hc : word.decodeCompressed .RV32 with
    | error what =>
      rw [hc] at h
      cases h
    | ok compressed =>
      rw [hc] at h
      exact Instruction.getElem_expandCompressed (Except.ok.inj h) hop
  · obtain ⟨rfl, rfl⟩ := h
    exact Instruction.getElem_decodeNormal hop

/-- The memory interface after the word at the program counter is loaded. -/
def loaded (b : Iss) : Interface :=
  Effect.final (Interface.loadInstr (Interface.transact b.view b.depth) b.view b.pc
    { b.io with log := b.io.log ++ [.pc b.pc] })

/-- The registers stay when no target asks anything of the core. -/
theorem memory_regs {α : Type} {x : Interface.Transact → CoreView → MemM α} {s' : Iss} {a : α}
    (hquiet : (Effect.final (x (Interface.transact s.view s.depth) s.view s.io)).requests = [])
    (h : memory x s = .ok a s') : s'.regs = s.regs := by
  rw [memory_of_quiet rfl hquiet] at h
  cases hr : x (Interface.transact s.view s.depth) s.view s.io with
  | ok b io =>
    rw [hr] at h
    cases h
    rfl
  | error e io =>
    rw [hr] at h
    cases h

/-- A fetch that asks for nothing leaves the registers alone. -/
theorem fetch_regs (h : fetch b = .ok () f) (hquiet : b.loaded.requests = []) :
    f.regs = b.regs := by
  obtain ⟨_, _, hget, h⟩ := bind_eq_ok h
  cases hget
  obtain ⟨_, s₁, hensure, h⟩ := bind_eq_ok h
  obtain ⟨_, s₂, hnote, h⟩ := bind_eq_ok h
  obtain ⟨r, s₃, hmemory, h⟩ := bind_eq_ok h
  obtain ⟨_, rfl⟩ := ensure_eq_ok hensure
  cases hnote
  cases r with
  | ok memWord =>
    cases h
    have hregs := memory_regs (by exact hquiet) (attempt_eq_ok hmemory)
    exact hregs
  | error e =>
    cases e <;> cases h

/-- The exception that is specified for the operands of a state. -/
def specifiedException (d : Iss) : Option (ExceptionCode × BitVec 64) :=
  Specification.exception d.op d.instr.data d.lastPc d.left.concrete d.right.concrete
    d.csrs.hasCExtension (d.csrs.hasExtension CsrTable.M_ISA_EXT)

/-- The target is misaligned in the core just if it is by the specification. -/
theorem misaligned_iff_jumped : d.jumped.isMisaligned = true ↔
    (d.lastPc + immB d.instr.data).toNat % 4 ≠ 0 ∧ (!d.csrs.hasCExtension) = true := by
  rw [isMisaligned_iff, jumped_pc, Bool.not_eq_true']
  rfl

/-- An instruction with no specified exception has its extension and an aligned target. -/
theorem exception_eq_none {extC extM : Bool} {word pc x y : BitVec 32}
    (h : exception op word pc x y extC extM = none) :
    (op ∈ extensionM → extM = true) ∧
      (taken op x y = true → ¬((pc + immB word).toNat % 4 ≠ 0 ∧ (!extC) = true)) := by
  unfold exception at h
  split at h
  · cases h
  · next hM =>
    split at h
    · cases h
    · next htarget =>
      refine ⟨fun hop => ?_, fun ht hmisaligned => htarget ⟨ht, hmisaligned⟩⟩
      cases extM with
      | true => rfl
      | false => exact absurd ⟨hop, rfl⟩ hM

/-- The instructions of the extension are multiplications, divisions and remainders. -/
theorem extensionM_cases (h : op ∈ extensionM) :
    op ∈ [.MUL, .MULH, .MULHSU, .MULHU] ∨ op = .DIV ∨ op = .DIVU ∨ op = .REM ∨ op = .REMU := by
  revert op
  decide

/-- An instruction without a specified exception does what is specified. -/
theorem execute_ok (hop : d.op ∈ instructions) (heven : d.lastPc.toNat % 2 = 0)
    (hshift : d.op ∈ shiftImmediates → d.instr.data.getLsbD 25 = false)
    (hexc : d.specifiedException = none) : ∃ e, execute d.op d = .ok () e ∧ d.Completes e := by
  obtain ⟨hM, htarget⟩ := exception_eq_none hexc
  simp only [instructions, List.mem_append] at hop
  obtain ((((h | h) | h) | h) | h) | h := hop
  · exact (computes_of_mem_upperImmediates h).completes
      ((by decide : ∀ op ∈ upperImmediates, op ∉ branches) _ h)
  · exact (computes_of_mem_registerImmediates h).completes
      ((by decide : ∀ op ∈ registerImmediates, op ∉ branches) _ h)
  · exact (computes_of_mem_shiftImmediates h (hshift h)).completes
      ((by decide : ∀ op ∈ shiftImmediates, op ∉ branches) _ h)
  · exact (computes_of_mem_registerRegisters h).completes
      ((by decide : ∀ op ∈ registerRegisters, op ∉ branches) _ h)
  · obtain hmul | hdiv | hdivu | hrem | hremu := extensionM_cases h
    · exact (computes_of_mem_multiplications hmul (hM h)).completes
        ((by decide : ∀ op ∈ extensionM, op ∉ branches) _ h)
    · exact completes_of_DIV (hM h) hdiv
    · exact completes_of_DIVU (hM h) hdivu
    · exact completes_of_REM (hM h) hrem
    · exact completes_of_REMU (hM h) hremu
  · refine completes_of_branch h heven fun ht => ?_
    rw [Bool.eq_false_iff, ne_eq, misaligned_iff_jumped]
    exact htarget ht

/-- An instruction with a specified exception raises it and leaves the registers alone. -/
theorem execute_error (heven : d.lastPc.toNat % 2 = 0)
    {reason : ExceptionCode} {mtval : BitVec 64}
    (hexc : d.specifiedException = some (reason, mtval)) :
    ∃ e, execute d.op d = .error (.trap reason mtval) e ∧ e.regs = d.regs := by
  unfold specifiedException exception at hexc
  split at hexc
  · next hM =>
    cases hexc
    refine ⟨d, execute_error_of_mem_extensionM hM.1 ?_, rfl⟩
    simpa using hM.2
  · split at hexc
    · next htaken =>
      cases hexc
      have hop : d.op ∈ branches := by
        by_contra hop
        rw [taken_eq_false hop] at htaken
        cases htaken.1
      obtain ⟨cmp, hexec, hcmp⟩ := execute_branch hop
      have hone : (cmp d.left d.right).concrete = 1#1 := (hcmp none _ _).mpr htaken.1
      obtain ⟨e, he, hregs⟩ := takeBranch_error (cmp d.left d.right)
        (jumped_even heven) (misaligned_iff_jumped.mpr htaken.2)
      refine ⟨e, ?_, hregs⟩
      rw [hexec, branch_eq, evalAndTrace, ← jumped_pc]
      refine bind_of_error ?_
      rw [hone]
      exact he
    · cases hexc

/-! ## A whole step -/

section

variable {v : BitVec 5 → RegValue} {E : Exception → Iss → Prop}

/-- A step of the control state leaves the registers alone. -/
theorem regs_control {α : Type} (x : ControlM α) :
    Maintains (fun s : Iss => s.regs = v) (fun _ s => s.regs = v) (control x) := by
  refine Maintains.zoom ?_ ?_ x
  · exact fun _ _ h => h
  · exact fun _ _ _ h => h

/-- A call of the memory interface leaves the registers alone. -/
theorem regs_interface {α : Type} (x : MemM α) :
    Maintains (fun s : Iss => s.regs = v) (fun _ s => s.regs = v) (interface x) := by
  refine Maintains.zoom ?_ ?_ x
  · exact fun _ _ h => h
  · exact fun _ _ _ h => h

theorem regs_releaseLrScReservation : Maintains (fun s : Iss => s.regs = v)
    (fun _ s => s.regs = v) releaseLrScReservation :=
  .bind (regs_control _) fun _ => .bind .keepGet fun _ => regs_interface _

/-- Taking an interrupt changes no register. -/
theorem regs_takeInterrupt : Maintains (fun s : Iss => s.regs = v)
    (fun _ s => s.regs = v) takeInterrupt := by
  refine .bind .keepGet fun s => ?_
  cases s.computePendingInterrupts with
  | none => exact .keepPure
  | some target =>
    exact .bind (regs_control _) fun _ => .bind regs_releaseLrScReservation fun _ =>
      regs_control _

theorem regs_performanceAndSyncUpdate : Maintains (fun s : Iss => s.regs = v)
    (fun _ s => s.regs = v) performanceAndSyncUpdate := by
  refine .bind (regs_control _) fun _ => .bind ?_ fun _ => .bind (regs_control _) fun _ =>
    .bind .keepGet fun _ => .ite (fun _ => regs_control _) fun _ => .keepPure
  exact .bind .keepGet fun _ => .ite (fun _ => .bind (regs_control _) fun _ =>
    .ite (fun _ => regs_releaseLrScReservation) fun _ => .keepPure)
    fun _ => .keepPure

end

/-- After the `try` block the register `zero` is zero again, and the others and the program counter
stay. -/
theorem retire_ok (t : Iss) : ∃ s', retire t = .ok () s' ∧ (s'.regs zero).value = REG_ZERO ∧
    (∀ r, r ≠ zero → s'.regs r = t.regs r) ∧ s'.pc = t.pc := by
  have hregs : Triple (· = t) retire (fun _ s' => s'.regs = (t.assign zero REG_ZERO).regs)
      (fun _ _ => True) := by
    refine .bind (Q := fun _ s => s.regs = (t.assign zero REG_ZERO).regs) ?_ fun _ =>
      .bind (Triple.conseq (regs_control _) (fun _ h => h) (fun _ _ h => h)
        fun _ _ _ => trivial) fun _ => ?_
    · rintro s rfl
      rw [write_word]
    · exact Triple.conseq regs_performanceAndSyncUpdate (fun _ h => h) (fun _ _ h => h)
        fun _ _ _ => trivial
  obtain ⟨_, s', hrun, hs', c, hcounts, hcalm⟩ :=
    ((hregs.and (triple_retire (E := fun _ _ => False))).exc fun _ _ h => h.2).returns (s := t) rfl
  refine ⟨s', hrun, ?_, fun r hr => ?_, ?_⟩
  · rw [hs']
    simp [assign]
  · rw [hs']
    simp [assign, hr]
  · rw [hcalm.drifts.pc]
    change c.pc = t.pc
    rw [hcounts.same]

/-- A step executes the instruction that was fetched and decoded. -/
theorem execStep_eq (hfetch : fetch b = .ok () f)
    (hdecode : (do control decode; control coverInstr) f = .ok () d) :
    execStep b = execute d.op d := by
  obtain ⟨_, t, ht, hcover⟩ := bind_eq_ok hdecode
  rw [execStep, bind_of_ok hfetch, bind_of_ok ht, bind_of_ok hcover]
  rfl

/-- Nothing that follows an instruction within the `try` block changes a register. -/
theorem regs_stepOrTrap (hstep : execStep b = .ok () e) :
    Triple (· = b) stepOrTrap (fun _ t => t.regs = e.regs) (fun _ _ => True) := by
  have htry : Triple (· = b) (do execStep; takeInterrupt) (fun _ t => t.regs = e.regs)
      (fun _ t => t.regs = e.regs) := by
    refine .bind (Q := fun _ t => t.regs = e.regs) ?_ fun _ => regs_takeInterrupt
    rintro _ rfl
    rw [hstep]
  refine .bind htry.attempt fun r => ?_
  cases r with
  | ok _ => exact .keepPure
  | error x =>
    cases x with
    | trap reason mtval =>
      exact Triple.conseq (.bind (regs_control _) fun _ =>
        .bind regs_releaseLrScReservation fun _ => regs_control _) (fun _ h => h)
        (fun _ _ h => h) fun _ _ _ => trivial
    | _ => exact .throw fun _ _ => trivial

/-- After an instruction `run_step` leaves the registers alone, but for `zero`, and without an
interrupt it returns where the instruction has led. -/
theorem runStep_of_execStep (hzero : (s.regs zero).value.concrete = 0#32)
    (hbreak : ¬(s.debugMode = true ∧ s.pc ∈ s.breakpoints)) (hstep : execStep s.begun = .ok () e) :
    (∀ s', runStep s = .ok () s' →
      (s'.regs zero).value = REG_ZERO ∧ ∀ r, r ≠ zero → s'.regs r = e.regs r) ∧
    (e.computePendingInterrupts = none → ∃ s', runStep s = .ok () s' ∧ s'.pc = e.pc) := by
  rw [runStep_eq hzero hbreak]
  constructor
  · intro s' hs'
    obtain ⟨_, t, ht, hs'⟩ := bind_eq_ok hs'
    have hregs := (regs_stepOrTrap hstep).of_ok rfl ht
    obtain ⟨_, hretire, hx0, hothers, _⟩ := retire_ok t
    cases hretire.symm.trans hs'
    exact ⟨hx0, fun r hr => by rw [hothers r hr, hregs]⟩
  · intro hpending
    obtain ⟨s', hretire, _, _, hpc⟩ := retire_ok e
    have hend := stepOrTrap_of_ok hstep (takeInterrupt_of_none hpending)
    exact ⟨s', by rw [bind_of_ok hend, hretire], hpc⟩

/-- RV32IM instructions are concolically correct. The instruction of the word at the program counter
raises the exception that is specified for it, or leaves the specified result in `rd` and the
specified address in the program counter, for the concrete parts and under every assignment that
satisfies the conditions traced up to and including this instruction. No other register changes, and
`run_step` keeps `zero` zero. -/
theorem instructions_correct {s f d : Iss} (hzero : (s.regs zero).value.concrete = 0#32)
    (hbreak : ¬(s.debugMode = true ∧ s.pc ∈ s.breakpoints)) (hfetch : fetch s.begun = .ok () f)
    (hdecode : (do control decode; control coverInstr) f = .ok () d) (hop : d.op ∈ instructions) :
    d.lastPc = s.pc ∧ d.pc = s.pc + Specification.length f.instr.data ∧
      (s.begun.loaded.requests = [] → d.regs = s.regs) ∧
      (∀ reason mtval, d.specifiedException = some (reason, mtval) →
        ∃ e, execStep s.begun = .error (.trap reason mtval) e ∧ e.regs = d.regs) ∧
      (d.specifiedException = none → ∃ e, execStep s.begun = .ok () e ∧
        (d.op ∉ branches →
          d.specifiedResult none = some (e.regs d.instr.rd).value.concrete ∧
          ∀ σ, Satisfies σ e.io.log →
            d.specifiedResult (some σ) = some ((e.regs d.instr.rd).value.value σ)) ∧
        e.pc = d.specifiedNextPc none ∧
        (∀ σ, Satisfies σ e.io.log → e.pc = d.specifiedNextPc (some σ)) ∧
        (∀ r, r ≠ d.instr.rd ∨ d.op ∈ branches → e.regs r = d.regs r) ∧
        (∀ s', runStep s = .ok () s' →
          (s'.regs zero).value = REG_ZERO ∧ ∀ r, r ≠ zero → s'.regs r = e.regs r) ∧
        (e.computePendingInterrupts = none → ∃ s', runStep s = .ok () s' ∧ s'.pc = e.pc)) := by
  obtain ⟨haligned, word, hcalm⟩ := triple_fetch.of_ok rfl hfetch
  have heven : s.pc.toNat % 2 = 0 := ((aligned_iff _ _).mp haligned).1
  have hlast : f.lastPc = s.pc := hcalm.drifts.lastPc
  have hpc : f.pc = s.pc := hcalm.drifts.pc
  obtain ⟨instr, op, coverage, hdecodes, hd⟩ := decode_ok hdecode
  have hshift : d.op ∈ shiftImmediates → d.instr.data.getLsbD 25 = false := by
    rw [hd]
    exact getElem_of_decodes hdecodes
  have hlastPc : d.lastPc = s.pc := by rw [hd, ← hlast]; rfl
  have heven' : d.lastPc.toNat % 2 = 0 := by rw [hlastPc, heven]
  have hexec := execStep_eq hfetch hdecode
  refine ⟨hlastPc, ?_, fun hquiet => ?_, fun reason mtval hexc => ?_, fun hexc => ?_⟩
  · rw [hd, ← hpc]
    rfl
  · have hregs := fetch_regs hfetch hquiet
    rw [hd]
    exact hregs
  · rw [hexec]
    exact execute_error heven' hexc
  · obtain ⟨e, he, hresult, hothers, hnext⟩ := execute_ok hop heven' hshift hexc
    have hstep : execStep s.begun = .ok () e := hexec.trans he
    have hnone : Admits none e.io.log := by simp [Admits]
    have hsome : ∀ {σ}, Satisfies σ e.io.log → Admits (some σ) e.io.log := by
      rintro σ hσ _ ⟨⟩
      exact hσ
    obtain ⟨hrun, hreturns⟩ := runStep_of_execStep hzero hbreak hstep
    exact ⟨e, hstep, fun hbranch => ⟨hresult hbranch none hnone,
      fun σ hσ => hresult hbranch (some σ) (hsome hσ)⟩, hnext none hnone,
      fun σ hσ => hnext (some σ) (hsome hσ), hothers, hrun, hreturns⟩

/-- A division by zero of a symbolic value: `div x3, x1, x2` with a variable in `x1`. -/
def divisionByZero : Iss :=
  let s := boot [0x0220c1b3#32]
  { s with regs := Function.update s.regs 1#5 ⟨32, BVC .uint32 (some "x") 7#32⟩ }

theorem instructions_correct_divisionByZero : ∃ f d, fetch divisionByZero.begun = .ok () f ∧
    (do control decode; control coverInstr) f = .ok () d ∧ d.op = .DIV ∧
    d.specifiedException = none ∧ ∃ e, execStep divisionByZero.begun = .ok () e ∧
      d.specifiedResult none = some (e.regs d.instr.rd).value.concrete := by
  refine ⟨_, _, rfl, rfl, rfl, rfl, ?_⟩
  obtain ⟨_, _, _, _, hcompletes⟩ := instructions_correct (s := divisionByZero) rfl
    (fun h => Bool.noConfusion h.1) rfl rfl (List.mem_append_left _ (by decide))
  obtain ⟨e, hstep, hresult, _⟩ := hcompletes rfl
  exact ⟨e, hstep, (hresult (by decide)).1⟩

end Iss

end SpsVp.Rv32
