import SpsVp.Rv32.Keep
import SpsVp.Rv32.Tlb

/-!
# An MMU without page tables

The platforms hand an MMU to the memory interface, and none sets its pointer `mem`. Such an MMU
never fills its translation cache, so an access that it has to translate fails the assertion on that
pointer, in every state that can be reached (`yieldsAddress_iff`).
-/

namespace SpsVp.Rv32

open Lib Effect Clover Klee Platform Interface

namespace Interface

/-- An invariant that every call of the memory interface keeps. -/
structure Permanent (J : Interface → Prop) : Prop where
  persistent : ∀ view, Persistent J view
  lock : ∀ {io : Interface} busLock, J io → J { io with busLock }
  lrAddr : ∀ {io : Interface} lrAddr, J io → J { io with lrAddr }

variable {J : Interface → Prop} {view : CoreView} {depth : Nat}

section

variable (hJ : Permanent J)
include hJ

theorem Permanent.transact (payload : Payload) :
    Stays J (fun _ => True) (Interface.transact view depth payload) :=
  stays_transact (hJ.persistent view) (transactionThrows_true J view) depth payload

theorem Permanent.loadSigned (numBytes : Nat) (addr : ConcolicValue 32) :
    Stays J (fun _ => True) (loadSigned (Interface.transact view depth) view numBytes addr) :=
  stays_loadSigned ((hJ.persistent view).reading hJ.transact)
    (transactionThrows_true J view).1 numBytes
    addr

theorem Permanent.atomicLoadWord (addr : ConcolicValue 32) :
    Stays J (fun _ => True) (atomicLoadWord (Interface.transact view depth) view addr) :=
  .bind (.modify fun _ h => hJ.lock _ h) fun _ => hJ.loadSigned 4 addr

theorem Permanent.atomicLoadReservedWord (object : Nat) (addr : ConcolicValue 32) :
    Stays J (fun _ => True)
      (atomicLoadReservedWord (Interface.transact view depth) view object addr) :=
  .bind (.modify fun _ h => hJ.lock _ h) fun _ => .bind (.modify fun _ h => hJ.lrAddr _ h) fun _ =>
    hJ.loadSigned 4 addr

end

/-- What an MMU without a memory interface, whose cache is empty, makes of an address. -/
theorem v2p_of_unconnected {io : Interface} (hmmu : io.mmu = some {}) (transact : Transact)
    (view : CoreView) (vaddr : BitVec 64) (type : MemoryAccessType) :
    Triple (· = io) (v2p transact view vaddr type) (fun _ _ => ¬ Translates view type)
      (fun e _ => Translates view type ∧ ∃ assertion, e = .abort assertion) := by
  refine .getBind fun io' hio => ?_
  subst hio
  rw [hmmu]
  refine .ite (fun hbare => .pure fun _ _ h => ?_) fun hpaging => ?_
  · exact Bool.false_ne_true (hbare.symm.trans h.1)
  refine .ite (fun hmachine => .pure fun _ _ h => h.2 hmachine) fun hmode => ?_
  have htranslates : Translates view type := ⟨Bool.eq_true_of_not_eq_false hpaging, hmode⟩
  refine .bind (Q := fun _ => (· = io')) (triple_ensure (fun _ h _ => h) fun _ _ _ =>
    ⟨htranslates, _, rfl⟩) fun _ => ?_
  refine .ite (fun hvpn => absurd hvpn (vpn_ne vaddr)) fun _ => ?_
  have hconnected : io'.mmu.any (·.connected) = false := by
    rw [hmmu]
    rfl
  exact .bind (Q := fun _ _ => False) ((walk_of_not_connected hconnected vaddr type
    (effectiveMode view type) transact).conseq (fun _ h => h ▸ .refl _ _) (fun _ _ h => h)
    fun _ _ h => ⟨htranslates, _, h.1⟩) fun _ _ h => h.elim

/-- The MMU is and stays one without a memory interface. -/
theorem permanent_mmu {mmu : Mmu} (hconnected : mmu.connected = false) :
    Permanent fun io => io.mmu = some mmu where
  persistent := fun _ => {
    log := fun _ _ h => h
    requests := fun _ h => h
    wait := fun h => h
    unlock := fun h => h
    -- the cache is filled only after a walk
    tlb := by
      rintro _ _ ⟨io', hmmu, hany⟩ _
      rw [hmmu] at hany
      exact absurd (hconnected.symm.trans hany) Bool.false_ne_true
    transport := fun _ _ h => h }
  lock := fun _ h => h
  lrAddr := fun _ h => h

end Interface

namespace Iss

variable {α : Type} {J : Interface → Prop} {s d : Iss}

/-! ## Invariants of the memory interface -/

/-- An invariant of the memory interface is one of the core. -/
theorem lasting_interface (hJ : Permanent J) : Lasting fun s => J s.io where
  control := fun _ _ _ h => h
  assign := fun _ _ _ h => h
  copy := fun _ _ _ h => h
  log := fun s log h => (hJ.persistent s.view).log s.io log h
  handler := fun _ _ h => h
  counter := fun _ _ h => h
  unlock := fun _ h => hJ.lock _ h

section

variable (hJ : Permanent J)
include hJ

theorem keeps_memory_of_stays {x : Transact → CoreView → MemM α}
    (hx : ∀ view depth, Stays J (fun _ => True) (x (Interface.transact view depth) view)) :
    Keeps (fun s => J s.io) (memory x) := by
  refine keeps_memory (lasting_interface hJ).toKept fun s hs => ?_
  exact (hJ.persistent s.view).requests _ ((hx s.view s.depth).final hs)

theorem keeps_loadInstr_interface (addr : BitVec 32) : Keeps (fun s => J s.io)
    (memory fun transact view => loadInstr transact view addr) :=
  keeps_memory_of_stays hJ fun view _ => stays_loadInstr
    ((hJ.persistent view).reading hJ.transact)
    ⟨fun _ => trivial, fun _ _ _ _ _ _ _ => trivial, fun _ => trivial⟩ addr

theorem keeps_execute_interface (op : Mapping) : Keeps (fun s => J s.io) (execute op) := by
  have hthrows := fun view => transactionThrows_true J view
  have hunlocking : Unlocking fun s => J s.io := {
    fetch := keeps_loadInstr_interface hJ
    signed := fun numBytes addr => keeps_memory_of_stays hJ fun view depth =>
      .bind (hJ.loadSigned numBytes addr) fun _ => .keepPure
    unsigned := fun numBytes addr => keeps_memory_of_stays hJ fun view depth =>
      stays_loadUnsigned ((hJ.persistent view).reading hJ.transact) ((hthrows view).1) numBytes
        addr
    store := fun numBytes addr value => keeps_memory_of_stays hJ fun view depth =>
      stays_symbolicStoreData (hJ.persistent view) hJ.transact ((hthrows view).1) addr value
        numBytes
    conditional := fun object addr value => keeps_memory_of_stays hJ fun view depth =>
      stays_atomicStoreConditionalWord (hJ.persistent view) hJ.transact ((hthrows view).1)
        object addr value }
  have hlasting := lasting_interface hJ
  by_cases hlock : op ∈ .LR_W :: amos
  · obtain rfl | hamo := List.mem_cons.mp hlock
    · exact keeps_lrW hlasting fun object addr => keeps_memory_of_stays hJ fun view depth =>
        hJ.atomicLoadReservedWord object addr
    · rw [execute_eq_executeAmo hamo]
      exact keeps_executeAmo hlasting.toKept (fun addr => keeps_memory_of_stays hJ fun view depth =>
        hJ.atomicLoadWord addr) (fun addr value => keeps_memory_of_stays hJ fun view depth =>
        stays_atomicStoreWord (hJ.persistent view) hJ.transact ((hthrows view).1) trivial addr
          value) _
  · exact keeps_execute_of_unlocking hlasting hunlocking hlock

/-- An invariant of the memory interface holds in every reachable state. -/
theorem interface_of_reachable {initial : Iss → Prop} (hinitial : ∀ s, initial s → J s.io)
    (hs : Reachable initial step s) : J s.io := by
  refine hs.invariant (P := fun s => J s.io) hinitial fun s s' _ h hstep => ?_
  unfold step at hstep
  cases hrun : runStep s with
  | ok _ t =>
    rw [hrun] at hstep
    cases hstep
    exact (keeps_runStep (lasting_interface hJ) (keeps_loadInstr_interface hJ)
      (keeps_coverInstr fun _ _ h => h) (keeps_execute_interface hJ)).of_ok h hrun
  | error e t =>
    rw [hrun] at hstep
    cases hstep

end

/-! ## Accesses -/

/-- The states in which a core makes the accesses of a step: the fetch, and then a load or a
store. -/
inductive Stage (s : Iss) : Iss → Prop where
  | fetch : Stage s s.begun
  | execute {d : Iss} (h : prepare s.begun = .ok () d) : Stage s d

theorem Stage.interface (hJ : Permanent J) (h : Stage s d) (hs : J s.io) : J d.io := by
  have hbegun : J s.begun.io := (hJ.persistent s.view).log s.io _ hs
  cases h with
  | fetch => exact hbegun
  | execute h =>
    exact (keeps_prepare (lasting_interface hJ).toKept (keeps_loadInstr_interface hJ)
      (keeps_coverInstr fun _ _ h => h)).of_ok hbegun h

/-- The translation of an address returns a physical address or raises a page fault. -/
def YieldsAddress (d : Iss) (vaddr : BitVec 64) (type : MemoryAccessType) : Prop :=
  match Interface.v2p (Interface.transact d.view d.depth) d.view vaddr type d.io with
  | .ok _ _ => True
  | .error e _ => ∃ reason ∈ [ExceptionCode.EXC_INSTR_PAGE_FAULT, .EXC_LOAD_PAGE_FAULT,
      .EXC_STORE_AMO_PAGE_FAULT], ∃ mtval, e = .trap reason mtval

/-- On a platform whose MMU has no memory interface, an access yields an address just if it is not
translated. -/
theorem yieldsAddress_iff (hs : Reachable (fun s => s.io.mmu = some {}) step s) (hd : Stage s d)
    (vaddr : BitVec 64) (type : MemoryAccessType) :
    YieldsAddress d vaddr type ↔ ¬ Translates d.view type := by
  have hJ : Permanent fun io => io.mmu = some {} := permanent_mmu rfl
  have hmmu : d.io.mmu = some {} := hd.interface hJ (interface_of_reachable hJ (fun _ h => h) hs)
  have htriple := v2p_of_unconnected hmmu (Interface.transact d.view d.depth) d.view vaddr type
  unfold YieldsAddress
  cases hrun : Interface.v2p (Interface.transact d.view d.depth) d.view vaddr type d.io with
  | ok paddr io => exact iff_of_true trivial (htriple.of_ok rfl hrun)
  | error e io =>
    obtain ⟨htranslates, assertion, rfl⟩ := htriple.of_error rfl hrun
    exact iff_of_false (fun ⟨_, _, _, h⟩ => nomatch h) (not_not_intro htranslates)

/-- A core in front of a program, with the MMU as the platforms have it. -/
def bootUnconnected (program : List (BitVec 32)) : Iss :=
  { boot program with io := { programMemory program with mmu := some {} } }

/-- Address translation is switched on, and then `MPRV` is set while `MPP` is user mode. -/
def switchesPaging : List (BitVec 32) :=
  [0x800002b7#32, 0x18029073#32, 0x00020337#32, 0x30032073#32, 0x00002083#32]

theorem reachable_switchesPaging {n : Nat}
    (h : runSteps step n (bootUnconnected switchesPaging) = some s) :
    Reachable (fun s => s.io.mmu = some {}) step s := by
  have hboot : Reachable (fun s => s.io.mmu = some {}) step (bootUnconnected switchesPaging) :=
    .initial rfl
  exact hboot.run h

/-- With both in effect, machine mode still fetches without a translation, while its loads are
translated and yield no address. -/
theorem yieldsAddress_paging : ∃ s, Reachable (fun s => s.io.mmu = some {}) step s ∧
    CsrTable.bit s.csrs .satp 31 = true ∧ YieldsAddress s.begun (s.pc.setWidth 64) .FETCH ∧
    ¬ YieldsAddress s.begun 0#64 .LOAD := by
  have hrun : (runSteps step 4 (bootUnconnected switchesPaging)).map (fun s =>
      CsrTable.bit s.csrs .satp 31 && decide (¬ Translates s.begun.view .FETCH) &&
      decide (Translates s.begun.view .LOAD)) = some true := by
    decide +kernel
  obtain ⟨s, hs, h⟩ := Option.map_eq_some_iff.mp hrun
  obtain ⟨hstate, hload⟩ := Bool.and_eq_true_iff.mp h
  obtain ⟨hsatp, hfetch⟩ := Bool.and_eq_true_iff.mp hstate
  have hiff := fun vaddr type => yieldsAddress_iff (reachable_switchesPaging hs) .fetch vaddr type
  exact ⟨s, reachable_switchesPaging hs, hsatp, (hiff _ .FETCH).mpr (of_decide_eq_true hfetch),
    fun hyields => (hiff _ .LOAD).mp hyields (of_decide_eq_true hload)⟩

/-- The load that follows fails the assertion on the memory interface of the MMU. -/
theorem load_without_page_tables : ∃ s d t, Reachable (fun s => s.io.mmu = some {}) step s ∧
    Stage s d ∧ CsrTable.bit s.csrs .mstatus 17 = true ∧ d.op = .LW ∧
    runStep s = .error (.abort .pageTableMemory) t ∧ ¬ YieldsAddress d 0#64 .STORE := by
  have hrun : (runSteps step 4 (bootUnconnected switchesPaging)).map (fun s =>
      CsrTable.bit s.csrs .mstatus 17 &&
      decide (Effect.thrown (runStep s) = some (.abort .pageTableMemory)) &&
      returnsIn (fun d => decide (d.op = .LW) && decide (Effect.thrown (Interface.v2p
        (Interface.transact d.view d.depth) d.view 0#64 .STORE d.io) =
          some (.abort .pageTableMemory))) (prepare s.begun)) = some true := by
    decide +kernel
  obtain ⟨s, hs, h⟩ := Option.map_eq_some_iff.mp hrun
  obtain ⟨hstate, hprepare⟩ := Bool.and_eq_true_iff.mp h
  obtain ⟨hmprv, hthrown⟩ := Bool.and_eq_true_iff.mp hstate
  obtain ⟨_, d, hd, h⟩ := eq_ok_of_returnsIn hprepare
  obtain ⟨hop, hv2p⟩ := Bool.and_eq_true_iff.mp h
  obtain ⟨t, ht⟩ := eq_error_of_thrown (of_decide_eq_true hthrown)
  obtain ⟨io, hio⟩ := eq_error_of_thrown (of_decide_eq_true hv2p)
  refine ⟨s, d, t, reachable_switchesPaging hs, .execute hd, hmprv, of_decide_eq_true hop, ht, ?_⟩
  rw [YieldsAddress, hio]
  exact fun ⟨_, _, _, h⟩ => nomatch h

end Iss

end SpsVp.Rv32
