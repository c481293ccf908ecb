import SpsVp.Rv32.Trap

/-!
# Causes and values of memory faults

`failure` finds the access of a step that fails: its class, its virtual address, and whether the MMU
refuses it or the bus reports an error, and where. Every memory fault of a step comes from it
(`explained_execStep`). The cause that the core reports is of the class of the access just for some
of these failures, and the value that it reports is the virtual address just if the bus has not
replaced it.
-/

namespace SpsVp.Rv32

open Lib Effect Clover Klee Platform Interface Control

/-- A trap is raised because of an access that fails, and reports it. -/
def Explains (fault : Option (ExceptionCode × BitVec 64)) (ports : List PortMapping)
    (reason : ExceptionCode) (mtval : BitVec 64) : Prop :=
  ∃ origin ∈ origins, ∃ address, fault = some (origin, address) ∧
    reported origin = reason ∧ reportedAddress ports origin address = mtval

namespace Iss

variable {s d t : Iss} {reason : ExceptionCode} {mtval : BitVec 64} {α : Type}

/-! ## Failing accesses -/

/-- The state in which the instruction word is loaded. -/
def fetching (s : Iss) : Iss := { s with io := { s.io with log := s.io.log ++ [.pc s.pc] } }

/-- How the load of the instruction word fails: the origin of the fault and its address. -/
def fetchFailure (s : Iss) : Option (ExceptionCode × BitVec 64) :=
  MemoryCall.fault ⟨s.fetching, _, fun transact view => loadInstr transact view s.pc⟩

/-- The address that a load, a store or an atomic operation uses. -/
def accessAddress (d : Iss) (op : Mapping) : ConcolicValue 32 :=
  let base := (d.regs d.instr.rs1).value
  if op ∈ loads then base.add (I_IMM d.instr)
  else if op ∈ stores then base.add (S_IMM d.instr)
  else base

/-- The state after the check of an address; an alignment of one byte is not checked. -/
def checked (d : Iss) (alignment : Nat) (addr : ConcolicValue 32) : Iss :=
  if alignment = 1 then d else d.noted addr

def loadFailure (d : Iss) (op : Mapping)
    (f : Transact → CoreView → ConcolicValue 32 → MemM Concolic) (alignment : Nat) :
    Option (ExceptionCode × BitVec 64) :=
  let addr := d.accessAddress op
  MemoryCall.fault ⟨d.checked alignment addr, _, fun transact view => f transact view addr⟩

def storeFailure (d : Iss) (op : Mapping)
    (f : Transact → CoreView → ConcolicValue 32 → ConcolicValue 32 → MemM Unit)
    (alignment : Nat) : Option (ExceptionCode × BitVec 64) :=
  let addr := d.accessAddress op
  MemoryCall.fault ⟨d.checked alignment addr, _,
    fun transact view => f transact view addr (d.regs d.instr.rs2).value⟩

def lrFailure (d : Iss) : Option (ExceptionCode × BitVec 64) :=
  let addr := d.regs d.instr.rs1
  MemoryCall.fault ⟨d.noted addr.value, _, fun transact view =>
    atomicLoadReservedWord transact view addr.object addr.value⟩

def scFailure (d : Iss) : Option (ExceptionCode × BitVec 64) :=
  let addr := d.regs d.instr.rs1
  MemoryCall.fault ⟨d.conditional, _, fun transact view =>
    atomicStoreConditionalWord transact view addr.object addr.value
      (d.regs d.instr.rs2).value⟩

/-- The load of an atomic memory operation fails, or else its store. -/
def amoFailure (d : Iss) (op : Mapping) : Option (ExceptionCode × BitVec 64) :=
  let addr := (d.regs d.instr.rs1).value
  match amoLoad addr (d.noted addr) with
  | .error _ _ => MemoryCall.fault ⟨d.noted addr, _, fun transact view =>
    atomicLoadWord transact view addr⟩
  | .ok data t => MemoryCall.fault ⟨t, _, fun transact view =>
    atomicStoreWord transact view addr
      (amoOperation op data (t.regs t.instr.rs2).value)⟩

/-- The access of an instruction that fails. -/
def executeFailure (d : Iss) : Option (ExceptionCode × BitVec 64) :=
  match d.op with
  | .LB => d.loadFailure .LB (signed loadByte) 1
  | .LH => d.loadFailure .LH (signed loadHalf) 2
  | .LW => d.loadFailure .LW (signed loadWord) 4
  | .LBU => d.loadFailure .LBU loadUbyte 1
  | .LHU => d.loadFailure .LHU loadUhalf 2
  | .SB => d.storeFailure .SB storeByte 1
  | .SH => d.storeFailure .SH storeHalf 2
  | .SW => d.storeFailure .SW storeWord 4
  | .LR_W => d.lrFailure
  | .SC_W => d.scFailure
  | op => if op ∈ amos then d.amoFailure op else none

/-- The access of a step that fails. -/
def failure (s : Iss) : Option (ExceptionCode × BitVec 64) :=
  match prepare s with
  | .ok _ d => d.executeFailure
  | .error _ _ => s.fetchFailure

/-! ## Explanations -/

/-- What follows a call of the memory interface raises no trap. -/
theorem explains_bind {x : Transact → CoreView → MemM α} (hx : Classified x)
    {k : α → IssM Unit} (hk : ∀ a, Trapless (k a))
    (h : (memory x >>= k) s = .error (.trap reason mtval) t) :
    Explains (MemoryCall.fault ⟨s, α, x⟩) s.io.bus.ports reason mtval := by
  cases hmemory : memory x s with
  | ok a u =>
    rw [bind_of_ok hmemory] at h
    exact absurd ⟨reason, mtval, rfl⟩ ((hk a).of_error trivial h)
  | error e u =>
    rw [bind_of_error hmemory] at h
    cases h
    exact fault_of_memory hx hmemory

/-- A load or a store is misaligned, and the trap reports its address. -/
def Misaligned (addr : BitVec 32) (reason : ExceptionCode) (mtval : BitVec 64) : Prop :=
  reason ∈ [.EXC_LOAD_ADDR_MISALIGNED, .EXC_STORE_AMO_ADDR_MISALIGNED] ∧ mtval = addr.setWidth 64

/-- A memory fault of an instruction is explained. -/
abbrev Explained (d : Iss) (op : Mapping) (fault : Option (ExceptionCode × BitVec 64))
    (reason : ExceptionCode) (mtval : BitVec 64) : Prop :=
  Misaligned (d.accessAddress op).concrete reason mtval ∨
    Explains fault d.io.bus.ports reason mtval

variable {op : Mapping} {alignment : Nat}

theorem bus_checked (d : Iss) (alignment : Nat) (addr : ConcolicValue 32) :
    (d.checked alignment addr).io.bus = d.io.bus := by
  unfold checked
  split <;> rfl

/-- What follows the check of an address. -/
theorem check_cases {k : IssM Unit} {isLoad : Bool} {addr : ConcolicValue 32}
    (h : (if alignment ≠ 1 then trapCheckAddrAlignment alignment isLoad addr >>= fun _ => k else k)
      d = .error (.trap reason mtval) t) :
    Misaligned addr.concrete reason mtval ∨
      k (d.checked alignment addr) = .error (.trap reason mtval) t := by
  by_cases hone : alignment = 1
  · rw [if_neg (not_not.mpr hone)] at h
    rw [checked, if_pos hone]
    exact .inr h
  · rw [if_pos hone] at h
    rw [checked, if_neg hone]
    have hcheck := trapCheckAddrAlignment_apply alignment isLoad addr d
    split_ifs at hcheck
    · rw [bind_of_ok hcheck] at h
      exact .inr h
    · rw [bind_of_error hcheck] at h
      cases h
      exact .inl ⟨by decide, rfl⟩
    · rw [bind_of_error hcheck] at h
      cases h
      exact .inl ⟨by decide, rfl⟩

theorem explained_load {f : Transact → CoreView → ConcolicValue 32 → MemM Concolic}
    (hop : op ∈ loads) (hf : ∀ addr, Classified fun transact view => f transact view addr)
    (h : load f alignment d = .error (.trap reason mtval) t) :
    Explained d op (d.loadFailure op f alignment) reason mtval := by
  have haddr : d.accessAddress op = (d.regs d.instr.rs1).value.add (I_IMM d.instr) := if_pos hop
  let k : IssM Unit := do
    let data ← memory fun transact view => f transact view (d.accessAddress op)
    writeRd data.value
  have hcheck : (if alignment ≠ 1 then
      trapCheckAddrAlignment alignment true (d.accessAddress op) >>= fun _ => k else k) d =
      .error (.trap reason mtval) t := by
    simp only [k, haddr]
    exact h
  refine (check_cases hcheck).imp_right fun h => ?_
  have hexplains := explains_bind (hf _) (fun _ => trapless_writeRd _) h
  rwa [bus_checked] at hexplains

theorem explained_store
    {f : Transact → CoreView → ConcolicValue 32 → ConcolicValue 32 → MemM Unit}
    (hop : op ∈ stores)
    (hf : ∀ addr value, Classified fun transact view => f transact view addr value)
    (h : store f alignment d = .error (.trap reason mtval) t) :
    Explained d op (d.storeFailure op f alignment) reason mtval := by
  have hnot : op ∉ loads := fun hload => absurd hop (by revert op; decide)
  have haddr : d.accessAddress op = (d.regs d.instr.rs1).value.add (S_IMM d.instr) :=
    (if_neg hnot).trans (if_pos hop)
  let k : IssM Unit := do
    let value := (← rs2).value
    memory fun transact view => f transact view (d.accessAddress op) value
  have hcheck : (if alignment ≠ 1 then
      trapCheckAddrAlignment alignment false (d.accessAddress op) >>= fun _ => k else k) d =
      .error (.trap reason mtval) t := by
    simp only [k, haddr]
    exact h
  refine (check_cases hcheck).imp_right fun h => ?_
  have hrs2 : rs2 (d.checked alignment (d.accessAddress op)) =
      .ok (d.regs d.instr.rs2) (d.checked alignment (d.accessAddress op)) := by
    unfold checked
    split <;> rfl
  simp only [k] at h
  rw [bind_of_ok hrs2] at h
  have hexplains := fault_of_memory (hf _ _) h
  rwa [bus_checked] at hexplains

/-- What follows the checks of an atomic operation. -/
theorem atomic_cases {k : RegValue → IssM Unit} {isLoad : Bool} (hreason : reason ∈ addressFaults)
    (h : (do
      control (requireIsa CsrTable.A_ISA_EXT)
      let addr ← rs1
      trapCheckAddrAlignment 4 isLoad addr.value
      k addr) d = .error (.trap reason mtval) t) :
    Misaligned (d.regs d.instr.rs1).value.concrete reason mtval ∨
      k (d.regs d.instr.rs1) (d.noted (d.regs d.instr.rs1).value) =
        .error (.trap reason mtval) t := by
  have hrequire := control_requireIsa CsrTable.A_ISA_EXT d
  have hrs1 : rs1 d = .ok (d.regs d.instr.rs1) d := rfl
  split_ifs at hrequire
  · rw [bind_of_ok hrequire, bind_of_ok hrs1] at h
    have hcheck :
        (if 4 ≠ 1 then trapCheckAddrAlignment 4 isLoad (d.regs d.instr.rs1).value >>= fun _ =>
        k (d.regs d.instr.rs1) else k (d.regs d.instr.rs1)) d = .error (.trap reason mtval) t := h
    exact check_cases hcheck
  · rw [bind_of_error hrequire] at h
    cases h
    exact absurd hreason (by decide)

theorem accessAddress_atomic (hop : op ∈ .LR_W :: .SC_W :: amos) :
    d.accessAddress op = (d.regs d.instr.rs1).value := by
  have hnot : ∀ op ∈ Mapping.LR_W :: Mapping.SC_W :: amos, op ∉ loads ∧ op ∉ stores := by decide
  exact (if_neg (hnot op hop).1).trans (if_neg (hnot op hop).2)

section

variable (hreason : reason ∈ addressFaults)
include hreason

theorem explained_lrW (h : lrW d = .error (.trap reason mtval) t) :
    Explained d .LR_W d.lrFailure reason mtval := by
  rw [Explained, accessAddress_atomic (by decide)]
  exact (atomic_cases hreason h).imp_right fun h =>
    explains_bind (classified_atomicLoadReservedWord _ _)
      (fun _ => .bind (trapless_writeRd _) fun _ => trapless_modify _) h

theorem explained_scW (h : scW d = .error (.trap reason mtval) t) :
    Explained d .SC_W d.scFailure reason mtval := by
  rw [Explained, accessAddress_atomic (by decide)]
  exact (atomic_cases hreason h).imp_right fun h =>
    explains_bind (s := d.conditional) (classified_atomicStoreConditionalWord _ _ _)
      (fun _ => .bind (trapless_writeRd _) fun _ => trapless_modify _) h

theorem explained_executeAmo (hrequests : d.io.requests = []) (hop : op ∈ amos)
    (h : executeAmo (amoOperation op) d = .error (.trap reason mtval) t) :
    Explained d op (d.amoFailure op) reason mtval := by
  rw [Explained, accessAddress_atomic (List.mem_cons_of_mem _ (List.mem_cons_of_mem _ hop))]
  refine (atomic_cases hreason h).imp_right fun h => ?_
  unfold amoFailure
  dsimp only
  cases hload : amoLoad (d.regs d.instr.rs1).value (d.noted (d.regs d.instr.rs1).value) with
  | error e u =>
    have hattempt := attempt_of_error hload
    rw [amoLoad] at hattempt
    rw [bind_of_ok hattempt] at h
    cases e with
    | trap cause value =>
      have hexplains := fault_of_memory (classified_atomicLoadWord _) hload
      -- the cause that is rewritten does not occur
      have hne : cause ≠ .EXC_LOAD_ACCESS_FAULT := by
        obtain ⟨_, horigin, _, _, hcause, _⟩ := hexplains
        have hall : ∀ origin ∈ origins, reported origin ≠ .EXC_LOAD_ACCESS_FAULT := by
          decide
        rw [← hcause]
        exact hall _ horigin
      cases cause <;> first | exact absurd rfl hne | (cases h; exact hexplains)
    | _ => cases h
  | ok data u =>
    have hattempt := attempt_of_ok hload
    have hrs2 : rs2 u = .ok (u.regs u.instr.rs2) u := rfl
    have hlooks : Looks (fun _ => True) (d.noted (d.regs d.instr.rs1).value) d.regs
        (amoLoad (d.regs d.instr.rs1).value) :=
      looks_memory (fun _ _ => trivial) (classified_atomicLoadWord _)
        fun _ depth => reads_atomicLoadWord depth _
    have hports : u.io.bus.ports = d.io.bus.ports :=
      (hlooks.of_ok (.refl hrequests) hload).grows.ports
    rw [amoLoad] at hattempt
    rw [bind_of_ok hattempt] at h
    dsimp only at h
    rw [bind_of_ok hrs2] at h
    rw [← hports]
    exact explains_bind (classified_atomicStoreWord _ _) (fun _ => trapless_writeRd _) h

/-- A memory fault of an instruction comes from the access that fails. -/
theorem explained_execute (hrequests : d.io.requests = []) (hop : op ∈ memoryOperations)
    (hd : d.op = op)
    (h : execute op d = .error (.trap reason mtval) t) :
    Explained d op d.executeFailure reason mtval := by
  unfold executeFailure
  rw [hd]
  simp only [memoryOperations, List.mem_append] at hop
  obtain ((hop | hop) | hop) | hop := hop
  · simp only [loads, List.mem_cons, List.not_mem_nil, or_false] at hop
    obtain rfl | rfl | rfl | rfl | rfl := hop
    all_goals rw [execute] at h
    · exact explained_load (by decide) (classified_signed 1) h
    · exact explained_load (by decide) (classified_signed 2) h
    · exact explained_load (by decide) (classified_signed 4) h
    · exact explained_load (by decide) (classified_loadUnsigned 1) h
    · exact explained_load (by decide) (classified_loadUnsigned 2) h
  · simp only [stores, List.mem_cons, List.not_mem_nil, or_false] at hop
    obtain rfl | rfl | rfl := hop
    all_goals rw [execute] at h
    · exact explained_store (by decide) (classified_symbolicStoreData · · 1) h
    · exact explained_store (by decide) (classified_symbolicStoreData · · 2) h
    · exact explained_store (by decide) (classified_symbolicStoreData · · 4) h
  · simp only [List.mem_cons, List.not_mem_nil, or_false] at hop
    obtain rfl | rfl := hop
    · exact explained_lrW hreason h
    · exact explained_scW hreason h
  · have hexplained := explained_executeAmo hreason hrequests hop ((execute_eq_executeAmo hop) ▸ h)
    simp only [amos, List.mem_cons, List.not_mem_nil, or_false] at hop
    obtain rfl | rfl | rfl | rfl | rfl | rfl | rfl | rfl | rfl := hop <;> exact hexplained

end

section

variable (haligned : s.pc &&& ~~~s.pcAlignmentMask = 0#32)
include haligned

theorem fetch_of_aligned : fetch s = (do
    match ← attempt (memory fun transact view => loadInstr transact view s.pc) with
    | .ok memWord => control (modify fun c : Control => { c with instr := ⟨memWord⟩ })
    | .error (.trap reason mtval) => do
        control (modify fun c : Control => { c with op := .UNDEF, instr := ⟨0#32⟩ })
        raiseTrap reason mtval
    | .error e => throw e) s.fetching := by
  have hensure : ensure .misalignedInstruction
      (decide (s.pc &&& ~~~s.pcAlignmentMask = 0#32)) s = .ok () s := by
    rw [decide_eq_true haligned]
    rfl
  change (ensure .misalignedInstruction (decide (s.pc &&& ~~~s.pcAlignmentMask = 0#32)) >>=
    fun _ => _) s = _
  rw [bind_of_ok hensure]
  rfl

theorem fetch_of_loaded {word : BitVec 32} {u : Iss}
    (h : memory (fun transact view => loadInstr transact view s.pc) s.fetching =
      .ok word u) : fetch s = .ok () { u with instr := ⟨word⟩ } := by
  have hattempt := attempt_of_ok h
  rw [fetch_of_aligned haligned, bind_of_ok hattempt]
  rfl

theorem fetch_of_refused {e : Exception} {u : Iss}
    (h : memory (fun transact view => loadInstr transact view s.pc) s.fetching =
      .error e u) : ∃ t, fetch s = .error e t := by
  have hattempt := attempt_of_error h
  rw [fetch_of_aligned haligned, bind_of_ok hattempt]
  cases e with
  | _ => exact ⟨_, rfl⟩

end

theorem fetch_of_misaligned (hmisaligned : ¬ s.pc &&& ~~~s.pcAlignmentMask = 0#32) :
    fetch s = .error (.abort .misalignedInstruction) s := by
  have hensure : ensure .misalignedInstruction
      (decide (s.pc &&& ~~~s.pcAlignmentMask = 0#32)) s =
        .error (.abort .misalignedInstruction) s := by
    rw [decide_eq_false hmisaligned]
    rfl
  change (ensure .misalignedInstruction (decide (s.pc &&& ~~~s.pcAlignmentMask = 0#32)) >>=
    fun _ => _) s = _
  exact bind_of_error hensure

theorem explained_fetch (h : fetch s = .error (.trap reason mtval) t) :
    Explains s.fetchFailure s.io.bus.ports reason mtval := by
  by_cases haligned : s.pc &&& ~~~s.pcAlignmentMask = 0#32
  · cases hload : memory (fun transact view => loadInstr transact view s.pc) s.fetching with
    | ok word u => cases h.symm.trans (fetch_of_loaded haligned hload)
    | error e u =>
      obtain ⟨_, hthrown⟩ := fetch_of_refused haligned hload
      cases h.symm.trans hthrown
      exact fault_of_memory (classified_loadInstr _) hload
  · cases h.symm.trans (fetch_of_misaligned haligned)

/-- The virtual address of the access of a step: the program counter while the instruction is
fetched, and then the one that the instruction uses. -/
def vaddr (s : Iss) : BitVec 32 :=
  match prepare s with
  | .ok _ d => (d.accessAddress d.op).concrete
  | .error _ _ => s.pc

/-- A memory fault of a step comes from the access that fails. -/
theorem explained_execStep (hrequests : s.io.requests = [])
    (h : execStep s = .error (.trap reason mtval) t) (hreason : reason ∈ addressFaults) :
    Misaligned s.vaddr reason mtval ∨ Explains s.failure s.io.bus.ports reason mtval := by
  have hprepare : Looks (fun _ => True) s s.regs prepare := looks_prepare fun _ => trivial
  unfold failure vaddr
  cases hrun : prepare s with
  | error e u =>
    rw [execStep_eq_prepare, bind_of_error hrun] at h
    cases h
    exact .inr (explained_fetch (fetch_of_prepare hrun hreason))
  | ok _ d =>
    rw [execStep_of_prepare hrun] at h
    have hd := hprepare.of_ok (.refl hrequests) hrun
    have hop := ((precise_execute (.refl hd.requests) d.op).of_error rfl h _ _ rfl).1 hreason
    rw [← hd.grows.ports]
    exact explained_execute hreason hd.requests hop rfl h

/-- The class of the access of a step. -/
def accessClass (s : Iss) : MemoryAccessType :=
  match prepare s with
  | .ok _ d => if d.op ∈ loads ∨ d.op = .LR_W then .LOAD else .STORE
  | .error _ _ => .FETCH

/-- The failures of an access that are reported with a cause of its class: those of a fetch that the
MMU refuses, of a load for which the bus reports the error of a read, and of a store that the MMU
refuses or for which the bus reports the error of a write. -/
def KeepsClass : MemoryAccessType → ExceptionCode → Prop
  | .FETCH, origin => origin = .EXC_INSTR_PAGE_FAULT
  | .LOAD, origin => origin = .EXC_LOAD_ACCESS_FAULT
  | .STORE, origin => origin = .EXC_STORE_AMO_PAGE_FAULT ∨ origin = .EXC_STORE_AMO_ACCESS_FAULT

theorem accessType_reported_iff {origin : ExceptionCode} (h : origin ∈ origins)
    (type : MemoryAccessType) :
    (reported origin).accessType = some type ↔ KeepsClass type origin := by
  simp only [origins, List.mem_cons, List.not_mem_nil, or_false] at h
  obtain rfl | rfl | rfl | rfl := h <;> cases type <;> simp [KeepsClass, reported,
    ExceptionCode.accessType]

/-- A memory fault has a cause of the class of the access just for some of the ways to fail. -/
theorem faultClass_iff (hrequests : s.io.requests = [])
    (h : execStep s = .error (.trap reason mtval) t) (hreason : reason ∈ memoryFaults) :
    ∃ origin address, s.failure = some (origin, address) ∧
      (reason.accessType = some s.accessClass ↔ KeepsClass s.accessClass origin) := by
  obtain ⟨hmem, _⟩ | ⟨origin, horigin, address, hfailure, rfl, _⟩ :=
    explained_execStep hrequests h (mem_addressFaults hreason)
  · have hnot : ∀ cause ∈ [ExceptionCode.EXC_LOAD_ADDR_MISALIGNED, .EXC_STORE_AMO_ADDR_MISALIGNED],
        cause ∉ memoryFaults := by decide
    exact absurd hreason (hnot _ hmem)
  · exact ⟨origin, address, hfailure, accessType_reported_iff horigin _⟩

/-- A core in front of the load `lw x1,0(x2)`, for an address that no target has. -/
def loadsUnmapped : Iss := boot [0x00012083#32]

/-- The error of the bus for that load has a load cause, so that it is the error of a read. -/
theorem faultClass_iff_load : ∃ t mtval,
    execStep loadsUnmapped = .error (.trap .EXC_LOAD_PAGE_FAULT mtval) t ∧
    ExceptionCode.EXC_LOAD_PAGE_FAULT.accessType = some loadsUnmapped.accessClass ∧
    ∃ origin address, loadsUnmapped.failure = some (origin, address) ∧
      KeepsClass loadsUnmapped.accessClass origin := by
  have hthrown : Effect.thrown (execStep loadsUnmapped) =
      some (.trap .EXC_LOAD_PAGE_FAULT 0x1000#64) := by
    decide +kernel
  have hclass : ExceptionCode.EXC_LOAD_PAGE_FAULT.accessType = some loadsUnmapped.accessClass := by
    decide +kernel
  obtain ⟨t, ht⟩ := eq_error_of_thrown hthrown
  obtain ⟨origin, address, hfailure, hiff⟩ := faultClass_iff rfl ht (by decide)
  exact ⟨t, _, ht, hclass, origin, address, hfailure, hiff.mp hclass⟩

/-- A core whose program counter is an address that no target has. -/
def executesUnmapped : Iss := { boot [] with pc := 0x1000#32 }

/-- The error of the bus for a fetch has a load cause. -/
theorem faultClass_fetch : ∃ t mtval,
    execStep executesUnmapped = .error (.trap .EXC_LOAD_PAGE_FAULT mtval) t ∧
    executesUnmapped.accessClass = .FETCH ∧
    ExceptionCode.EXC_LOAD_PAGE_FAULT.accessType ≠ some .FETCH := by
  have hthrown : Effect.thrown (execStep executesUnmapped) =
      some (.trap .EXC_LOAD_PAGE_FAULT 0x1000#64) := by
    decide +kernel
  have hclass : executesUnmapped.accessClass = .FETCH := by decide +kernel
  obtain ⟨t, ht⟩ := eq_error_of_thrown hthrown
  exact ⟨t, _, ht, hclass, by decide⟩

/-- The address of a failing access that is reported is its virtual address: the MMU refuses that
one, or the address inside the target for which the bus reports an error happens to be equal to
it. -/
def KeepsAddress (s : Iss) : Prop :=
  ∃ origin address, s.failure = some (origin, address) ∧
    reportedAddress s.io.bus.ports origin address = s.vaddr.setWidth 64

instance (s : Iss) : Decidable s.KeepsAddress :=
  decidable_of_iff (∃ f ∈ s.failure,
    reportedAddress s.io.bus.ports f.1 f.2 = s.vaddr.setWidth 64) <| by
    simp only [KeepsAddress, Option.mem_def, Prod.exists]

/-- The value that a trap carries is the virtual address. -/
theorem mtval_eq_iff (hrequests : s.io.requests = [])
    (h : execStep s = .error (.trap reason mtval) t) (hreason : reason ∈ addressFaults) :
    mtval = s.vaddr.setWidth 64 ↔
      reason ∈ [.EXC_LOAD_ADDR_MISALIGNED, .EXC_STORE_AMO_ADDR_MISALIGNED] ∨ s.KeepsAddress := by
  obtain ⟨hmem, hmtval⟩ | ⟨origin, horigin, address, hfailure, rfl, rfl⟩ :=
    explained_execStep hrequests h hreason
  · exact ⟨fun _ => .inl hmem, fun _ => hmtval⟩
  · have haligned : ∀ origin ∈ origins, reported origin ∉
        [ExceptionCode.EXC_LOAD_ADDR_MISALIGNED, .EXC_STORE_AMO_ADDR_MISALIGNED] := by decide
    refine ⟨fun hmtval => .inr ⟨origin, address, hfailure, hmtval⟩, ?_⟩
    rintro (hmem | ⟨origin', address', hfailure', hmtval⟩)
    · exact absurd hmem (haligned origin horigin)
    · rw [hfailure] at hfailure'
      cases hfailure'
      exact hmtval

theorem eq_setWidth_iff (vaddr : BitVec 32) (mtval : BitVec 64) :
    mtval = vaddr.setWidth 64 ↔ mtval.toNat < 2 ^ 32 ∧ mtval.setWidth 32 = vaddr := by
  have hvaddr := vaddr.isLt
  simp only [← BitVec.toNat_inj, BitVec.toNat_setWidth]
  omega

/-- After a memory fault, the register for the value of the trap holds the virtual address just if
the access is misaligned or its failure keeps the address. -/
theorem faultAddress_iff (hrequests : s.io.requests = [])
    (hzero : (s.regs zero).value.concrete = 0#32)
    (hbreak : ¬(s.debugMode = true ∧ s.pc ∈ s.breakpoints)) (htarget : s.trapMode reason ≠ none)
    (hstep : execStep s.begun = .error (.trap reason mtval) t) (hreason : reason ∈ addressFaults) :
    (∃ s', runStep s = .ok () s' ∧ s'.csrs (tvalRegister s'.prv) = s.begun.vaddr) ↔
      reason ∈ [.EXC_LOAD_ADDR_MISALIGNED, .EXC_STORE_AMO_ADDR_MISALIGNED] ∨
        s.begun.KeepsAddress := by
  have hbegun : s.begun.io.requests = [] := hrequests
  rw [← mtval_eq_iff hbegun hstep hreason, eq_setWidth_iff]
  by_cases hmtval : mtval.toNat < 2 ^ 32
  · obtain ⟨mode, s', hrun, hcontrol, _⟩ := runStep_of_trap hzero hbreak htarget hstep hmtval
    have htval : s'.csrs (tvalRegister s'.prv) = mtval.setWidth 32 := by
      rw [hcontrol.prv]
      exact hcontrol.tval
    constructor
    · rintro ⟨u, hu, hvaddr⟩
      obtain rfl : s' = u := by simpa [hrun] using hu
      exact ⟨hmtval, htval.symm.trans hvaddr⟩
    · exact fun h => ⟨s', hrun, htval.trans h.2⟩
  · constructor
    · rintro ⟨u, hu, _⟩
      exact absurd hu (runStep_of_wide_trap hzero hbreak htarget hstep hmtval u)
    · exact fun h => absurd h.1 hmtval

/-- The address of a load that no target has is not replaced. -/
theorem faultAddress_iff_load : loadsUnmapped.begun.KeepsAddress ∧
    ∃ s', runStep loadsUnmapped = .ok () s' ∧
      s'.csrs (tvalRegister s'.prv) = loadsUnmapped.begun.vaddr := by
  have hthrown : Effect.thrown (execStep loadsUnmapped.begun) =
      some (.trap .EXC_LOAD_PAGE_FAULT 0x1000#64) := by
    decide +kernel
  have hkeeps : loadsUnmapped.begun.KeepsAddress := by decide +kernel
  obtain ⟨t, ht⟩ := eq_error_of_thrown hthrown
  have hbreak : ¬(loadsUnmapped.debugMode = true ∧ loadsUnmapped.pc ∈ loadsUnmapped.breakpoints) :=
    fun h => Bool.false_ne_true h.1
  exact ⟨hkeeps, (faultAddress_iff rfl (by decide +kernel) hbreak (by decide) ht (by decide)).mpr
    (.inr hkeeps)⟩

/-- A core whose program counter is the last half-word of a memory at address 0x2000. -/
def executesLast : Iss :=
  { boot [] with
    pc := 0x2ffe#32
    io := { bus := [(⟨0x2000#64, 0x2fff#64⟩, .memory ⟨0x1000, ⟨fun _ => none⟩⟩)] } }

/-- The fault for a fetch across the end of a memory reports the offset into the memory. -/
theorem faultAddress_offset : ∃ t s', execStep executesLast.begun =
      .error (.trap .EXC_LOAD_PAGE_FAULT 0xffe#64) t ∧ executesLast.begun.vaddr = 0x2ffe#32 ∧
    runStep executesLast = .ok () s' ∧ s'.prv = MachineMode ∧ s'.csrs .mtval = 0xffe#32 := by
  have hthrown : Effect.thrown (execStep executesLast.begun) =
      some (.trap .EXC_LOAD_PAGE_FAULT 0xffe#64) := by
    decide +kernel
  have hrun : returnsIn (fun s' : Iss => decide (s'.prv = MachineMode ∧
      s'.csrs .mtval = 0xffe#32)) (runStep executesLast) = true := by
    decide +kernel
  obtain ⟨t, ht⟩ := eq_error_of_thrown hthrown
  obtain ⟨_, s', hs', h⟩ := eq_ok_of_returnsIn hrun
  exact ⟨t, s', ht, by decide +kernel, hs', of_decide_eq_true h⟩

end Iss

end SpsVp.Rv32
