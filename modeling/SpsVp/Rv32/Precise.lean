import SpsVp.Rv32.Fault
import SpsVp.Rv32.Watch

/-!
# Precise traps

An instruction that raises a trap has left the registers and the memory alone: what precedes the
trap only reads, except for the accessed and dirty bits that the MMU sets in page tables. There is
one exception, made on purpose: `SC.W` writes its result register before it stores. A device may
call back into the core while it serves an access of the instruction, and then changes registers or
memory itself.

`Looks` and `Careful` are judgements about a computation of the core: where it raises a trap,
everything is as it was. One pass over the instructions shows this for each of them.
-/

namespace SpsVp.Rv32

open Lib Effect Clover Klee Platform Interface Control

namespace Iss

/-- The memory is as in `s₀`, up to entries of page tables, and the registers are given ones, unless
some target has called back. -/
structure Untouched (s₀ : Iss) (regs : BitVec 5 → RegValue) (s : Iss) : Prop where
  view : s.view = s₀.view
  requests : s.io.requests = []
  grows : SimpleBus.Grows s₀.io.bus s.io.bus
  kept : SimpleBus.CalledBack s₀.io.bus s.io.bus ∨
    (s.regs = regs ∧ Walked s₀.io.bus s₀.view s.io.bus)

/-- The same before the requests of the targets are served. -/
structure Pending (s₀ : Iss) (regs : BitVec 5 → RegValue) (s : Iss) : Prop where
  view : s.view = s₀.view
  grows : SimpleBus.Grows s₀.io.bus s.io.bus
  kept : SimpleBus.CalledBack s₀.io.bus s.io.bus ∨ (s.regs = regs ∧
    CoreRequest.syscall ∉ s.io.requests ∧ Walked s₀.io.bus s₀.view s.io.bus)

/-- A trap is raised for one of some reasons, and nothing has been touched. -/
abbrev Raises (R : ExceptionCode → Prop) (s₀ : Iss) (regs : BitVec 5 → RegValue) (e : Exception)
    (s : Iss) : Prop :=
  ∀ reason mtval, e = .trap reason mtval → R reason ∧ Untouched s₀ regs s

/-- A computation that touches nothing. -/
abbrev Looks {α : Type} (R : ExceptionCode → Prop) (s₀ : Iss) (regs : BitVec 5 → RegValue)
    (x : IssM α) : Prop :=
  Maintains (Untouched s₀ regs) (Raises R s₀ regs) x

/-- A computation that has touched nothing where it raises a trap. -/
abbrev Careful {α : Type} (R : ExceptionCode → Prop) (s₀ : Iss) (regs : BitVec 5 → RegValue)
    (x : IssM α) : Prop :=
  Triple (Untouched s₀ regs) x (fun _ _ => True) (Raises R s₀ regs)

/-- A computation that raises no trap. -/
abbrev Trapless {α : Type} (x : IssM α) : Prop :=
  Triple (fun _ => True) x (fun _ _ => True) fun e _ => ¬ e.IsTrap

variable {R : ExceptionCode → Prop} {s₀ : Iss} {regs : BitVec 5 → RegValue} {α : Type}
  {E : Exception → Iss → Prop}

variable {x : IssM α} {w : Nat} {reason : ExceptionCode} {s : Iss}

theorem Looks.careful (h : Looks R s₀ regs x) : Careful R s₀ regs x :=
  h.post (fun _ _ _ => trivial)

theorem Trapless.careful (h : Trapless x) : Careful R s₀ regs x :=
  h.conseq (fun _ _ => trivial) (fun _ _ h => h) fun _ _ h reason mtval he =>
    absurd ⟨reason, mtval, he⟩ h

/-! ## Steps that touch nothing -/

theorem untouched_modify {f : Iss → Iss} (hview : ∀ s, (f s).view = s.view)
    (hregs : ∀ s, (f s).regs = s.regs) (hbus : ∀ s, (f s).io.bus = s.io.bus)
    (hrequests : ∀ s, (f s).io.requests = s.io.requests) :
    Maintains (Untouched s₀ regs) E (modify f) := by
  refine .modify fun s h => ⟨(hview s).trans h.view, (hrequests s).trans h.requests, ?_, ?_⟩
  · rw [hbus]
    exact h.grows
  · rw [hbus, hregs]
    exact h.kept

theorem untouched_control {f : Control → Control} (hview : ∀ c, (f c).view = c.view) :
    Maintains (Untouched s₀ regs) E (control (modify f)) :=
  untouched_modify (fun s => hview s.toControl) (fun _ => rfl) (fun _ => rfl) fun _ => rfl

theorem looks_raiseTrap (hR : R reason) (mtval : BitVec 64) :
    Looks R s₀ regs (raiseTrap reason mtval : IssM α) := by
  refine .throw fun s hs => ?_
  rintro _ _ ⟨⟩
  exact ⟨hR, hs⟩

section

variable (hR : ∀ reason ∉ addressFaults, R reason)
include hR

theorem framed_careful : Framed (Untouched s₀ regs) (fun _ => True) (Raises R s₀ regs) where
  weaken := fun _ _ => trivial
  log := fun _ _ h => ⟨h.view, h.requests, h.grows, h.kept⟩
  illegal := by
    rintro s hs _ _ ⟨⟩
    exact ⟨hR _ (by decide), hs⟩
  assign := fun _ _ _ _ => trivial
  copy := fun _ _ _ _ => trivial
  trace := fun _ _ _ _ => trivial

theorem looks_trapCheckPcAlignment : Looks R s₀ regs (control trapCheckPcAlignment) := by
  intro s hs
  rw [control, zoom, trapCheckPcAlignment_apply]
  split_ifs
  · rintro _ _ ⟨⟩
  · rintro _ _ ⟨⟩
    exact ⟨hR _ (by decide), hs⟩
  · exact hs

end

theorem framed_access (hR : ∀ reason, R reason) :
    FramedAccess (Untouched s₀ regs) (fun _ => True) (Raises R s₀ regs) where
  toFramed := framed_careful fun _ _ => hR _
  misaligned := by
    rintro s isLoad mtval hs _ _ ⟨⟩
    exact ⟨hR _, hs⟩

/-! ## Steps that raise no trap -/

theorem trapless_modify (f : Iss → Iss) : Trapless (modify f) := .modify fun _ _ => trivial

theorem trapless_writeRd (value : ConcolicValue w) : Trapless (writeRd value) :=
  .bind .keepGet fun _ => triple_write _ _ (fun _ h => h) fun _ _ h => h

/-! ## Memory -/

/-- What the targets ask for changes neither the bus nor what the memory interface sees of the
core. -/
theorem undisturbed_serve {view : CoreView} {bus : SimpleBus} (request : CoreRequest) :
    Maintains (fun s : Iss => s.view = view ∧ s.io.requests = [] ∧ s.io.bus = bus)
      (fun e _ => ¬ e.IsTrap) (serve request) := by
  rintro s ⟨rfl, hrequests, rfl⟩
  have hcalm : Triple (· = s) (serve request) (fun _ => Calm s) _ :=
    (idles_serve (K := fun _ => True) (fun _ _ => trivial) request).pre fun _ h => h ▸ .refl s
  have hkeeps : Maintains (fun t : Iss => t.io.requests = [] ∧ t.io.bus = s.io.bus)
      (fun e _ => ¬ e.IsTrap) (serve request) :=
    maintains_serve (fun _ _ h => h) (fun _ _ _ h => h) (fun _ _ h => h) (fun _ _ h => h)
      (fun _ _ _ h ⟨reason, mtval, he⟩ => h reason mtval he) request
  have hkept : Triple (· = s) (serve request) _ _ := hkeeps.pre fun _ h => by
    rw [h]
    exact ⟨hrequests, rfl⟩
  exact (hcalm.and hkept).conseq (fun _ h => h) (fun _ _ h => ⟨h.1.drifts.view, h.2⟩)
    (fun _ _ h => h.2) s rfl

theorem untouched_serve {request : CoreRequest} (h : request ≠ .syscall) :
    Maintains (Untouched s₀ regs) E (serve request) := by
  cases request with
  | interrupt line level => exact untouched_control fun c => (Drifts.setInterrupt _ _ c).view
  | syscall => exact absurd rfl h
  | exit | processedPacket => exact untouched_control fun _ => rfl

variable {Q : α → Iss → Prop}

/-- The requests after a call of the memory interface. -/
theorem triple_requests (hx : Triple (Untouched s₀ regs) x Q E)
    (hE : ∀ e s, ¬ e.IsTrap → E e s) : Triple (Pending s₀ regs) (do
      let requests ← interface takeRequests
      requests.forM serve
      x) Q E := by
  refine .bind (Q := fun requests s => Untouched s₀ regs s ∧
    (SimpleBus.CalledBack s₀.io.bus s.io.bus ∨ CoreRequest.syscall ∉ requests)) ?_
      fun requests => ?_
  · rintro s ⟨hview, hgrows, hkept⟩
    exact ⟨⟨hview, rfl, hgrows, hkept.imp_right fun h => ⟨h.1, h.2.2⟩⟩,
      hkept.imp_right fun h => h.2.1⟩
  · refine .bind (Q := fun _ => Untouched s₀ regs) ?_ fun _ => hx
    rintro s ⟨hs, hcalled | hsyscall⟩
    · refine (Triple.forM undisturbed_serve requests).conseq (fun _ h => h) (fun _ t h => ?_)
        (fun e t h => hE e t h) s ⟨hs.view, hs.requests, rfl⟩
      obtain ⟨hview, hrequests, hbus⟩ := h
      refine ⟨hview, hrequests, ?_, .inl ?_⟩
      · rw [hbus]
        exact hs.grows
      · rw [hbus]
        exact hcalled
    · exact Triple.forM_mem (fun request hmem => untouched_serve fun h => hsyscall (h ▸ hmem))
        s hs

theorem trapless_requests
    (hx : Triple (fun _ => True) x Q fun e _ => ¬ e.IsTrap) :
    Triple (fun _ => True) (do
      let requests ← interface takeRequests
      requests.forM serve
      x) Q fun e _ => ¬ e.IsTrap := by
  have hserve : ∀ request, Trapless (serve request) :=
    maintains_serve (fun _ _ h => h) (fun _ _ _ h => h) (fun _ _ h => h) (fun _ _ h => h)
      fun _ _ _ h ⟨reason, mtval, he⟩ => h reason mtval he
  exact .bind (Q := fun _ _ => True) (fun _ _ => trivial) fun requests => .bind (.forM hserve _)
    fun _ => hx

theorem Untouched.unwritten (h : Untouched s₀ regs s) :
    Unwritten s₀.io.bus s₀.view s.io := by
  refine ⟨h.grows, h.kept.imp_right fun ⟨_, hwalked⟩ => ⟨?_, hwalked⟩⟩
  rw [h.requests]
  exact List.not_mem_nil

/-- A state in which nothing has been touched, seen from itself. -/
theorem Untouched.unwritten_self (h : Untouched s₀ regs s) :
    Unwritten s.io.bus s₀.view s.io := by
  refine ⟨.refl _, .inr ⟨?_, _, _, .start⟩⟩
  rw [h.requests]
  exact List.not_mem_nil

theorem Untouched.pending {io : Interface} (h : Untouched s₀ regs s)
    (hgrows : SimpleBus.Grows s.io.bus io.bus) (hio : Unwritten s₀.io.bus s₀.view io) :
    Pending s₀ regs { s with io } := by
  refine ⟨h.view, hio.1, ?_⟩
  obtain hcalled | ⟨hregs, _⟩ := h.kept
  · exact .inl (hcalled.trans hgrows)
  · exact hio.2.imp_right fun h => ⟨hregs, h⟩

/-- A call of the memory interface that has written nothing where it raises a trap, nor where it
returns under a condition. -/
theorem triple_memory {p : Prop} {x : Transact → CoreView → MemM α}
    (hx : ∀ bus depth, Triple (Unwritten bus s₀.view)
      (x (Interface.transact s₀.view depth) s₀.view) (fun _ io => p → Unwritten bus s₀.view io)
      (TrapsWith (Unwritten bus s₀.view))) :
    Triple (Untouched s₀ regs) (memory x) (fun _ s => p → Untouched s₀ regs s)
      (fun e s => e.IsTrap → Untouched s₀ regs s) := by
  refine .getBind fun s hs => ?_
  rw [hs.view]
  have hcall : Triple (· = s) (interface (x (Interface.transact s₀.view s.depth) s₀.view))
      (fun _ t => p → Pending s₀ regs t) (fun e t => e.IsTrap → Pending s₀ regs t) := by
    have hio : Triple (· = s.io) _ _ _ := (hx s₀.io.bus s.depth).pre fun _ h => h ▸ hs.unwritten
    have hself : Triple (· = s.io) _ _ _ :=
      (hx s.io.bus s.depth).pre fun _ h => h ▸ hs.unwritten_self
    refine (hio.and hself).zoom (fun _ h => h ▸ rfl) ?_ ?_
    · rintro _ a io rfl h hp
      exact hs.pending (h.2 hp).1 (h.1 hp)
    · rintro _ e io rfl h htrap
      exact hs.pending (h.2 htrap).1 (h.1 htrap)
  refine .bind hcall.attempt fun result => ?_
  cases result with
  | ok a =>
    by_cases hp : p
    · exact (triple_requests (E := fun e s => e.IsTrap → Untouched s₀ regs s) .keepPure
        fun _ _ h htrap => absurd htrap h).conseq (fun _ h => h hp) (fun _ _ h _ => h)
          fun _ _ h => h
    · exact (trapless_requests (.pure fun _ _ h => absurd h hp)).conseq (fun _ _ => trivial)
        (fun _ _ h => h) fun _ _ h htrap => absurd htrap h
  | error e =>
    by_cases htrap : e.IsTrap
    · exact (triple_requests (.throw fun _ h _ => h) fun _ _ h htrap => absurd htrap h).pre
        (fun _ h => h htrap)
    · exact (trapless_requests (.throw fun _ _ => htrap)).conseq (fun _ _ => trivial)
        (fun _ _ h => h) fun _ _ h htrap => absurd htrap h

section

variable (hR : ∀ reason ∈ memoryFaults, R reason) {x : Transact → CoreView → MemM α}
  (hclassified : Classified x)
include hR hclassified

theorem raises_memory (hx : Triple (Untouched s₀ regs) (memory x) Q
    (fun e s => e.IsTrap → Untouched s₀ regs s)) :
    Triple (Untouched s₀ regs) (memory x) Q (Raises R s₀ regs) := by
  have hfaults : Triple (Untouched s₀ regs) (memory x) _ _ :=
    (faults_memory hclassified).pre (fun _ _ => trivial)
  refine (hx.and hfaults).conseq (fun _ h => h) (fun _ _ h => h.1) fun e s h reason mtval he => ?_
  exact ⟨hR reason (h.2 reason mtval he), h.1 ⟨reason, mtval, he⟩⟩

/-- A call of the memory interface that only reads. -/
theorem looks_memory
    (hx : ∀ bus depth, Interface.Reads bus s₀.view (x (Interface.transact s₀.view depth) s₀.view)) :
    Looks R s₀ regs (memory x) :=
  raises_memory hR hclassified
    ((triple_memory (p := True) fun bus depth => (hx bus depth).post (fun _ _ h _ => h)).post
      (fun _ _ h => h trivial))

/-- A call of the memory interface that may write. -/
theorem careful_memory
    (hx : ∀ bus depth, Attempts bus s₀.view (x (Interface.transact s₀.view depth) s₀.view)) :
    Careful R s₀ regs (memory x) :=
  raises_memory hR hclassified
    ((triple_memory (p := False) fun bus depth => (hx bus depth).post (fun _ _ _ h => h.elim)).post
      (fun _ _ _ => trivial))

end

/-! ## Instructions -/

/-- The operations that access memory. -/
def memoryOperations : List Mapping := loads ++ stores ++ [.LR_W, .SC_W] ++ amos

/-- The registers where an instruction raises a trap: a store conditional that faults has failed. -/
def trapRegs (d : Iss) (op : Mapping) (reason : ExceptionCode) : BitVec 5 → RegValue :=
  if op = .SC_W ∧ reason ∈ memoryFaults then
    Function.update d.regs d.instr.rd ⟨d.nextObject, REG_ONE⟩
  else d.regs

/-- The reasons for which an operation raises traps: only the ones that access memory fault. -/
def MayFault (op : Mapping) (reason : ExceptionCode) : Prop :=
  reason ∈ addressFaults → op ∈ memoryOperations

/-- What an instruction leaves where it raises a trap. -/
def Leaves (s₀ d : Iss) (op : Mapping) (e : Exception) (s : Iss) : Prop :=
  ∀ reason mtval, e = .trap reason mtval → MayFault op reason ∧
    Untouched s₀ (trapRegs d op reason) s

/-- An instruction that starts in a given state and leaves what it should. -/
abbrev Precise (s₀ d : Iss) (op : Mapping) (x : IssM Unit) : Prop :=
  Triple (· = d) x (fun _ _ => True) (Leaves s₀ d op)

variable {d : Iss} {op : Mapping}

theorem mayFault_of_notMem (reason : ExceptionCode) (h : reason ∉ addressFaults) :
    MayFault op reason :=
  fun hmem => absurd hmem h

theorem Precise.of_careful (hop : op ≠ .SC_W) (hd : Untouched s₀ d.regs d) {x : IssM Unit}
    (hx : Careful (MayFault op) s₀ d.regs x) : Precise s₀ d op x := by
  refine hx.conseq (fun _ h => h ▸ hd) (fun _ _ h => h) fun e s h reason mtval he => ?_
  rw [trapRegs, if_neg fun h => hop h.1]
  exact h reason mtval he

theorem careful_ecall (hR : ∀ reason ∉ addressFaults, R reason) : Careful R s₀ regs ecall := by
  have hraise : ∀ {reason : ExceptionCode} (mtval : BitVec 64), reason ∉ addressFaults →
      Careful R s₀ regs (raiseTrap reason mtval : IssM Unit) :=
    fun mtval h => (looks_raiseTrap (hR _ h) mtval).careful
  have hsyscall : Trapless executeSyscall :=
    maintains_serve (fun _ _ h => h) (fun _ _ _ h => h) (fun _ _ h => h) (fun _ _ h => h)
      (fun _ _ _ h ⟨reason, mtval, he⟩ => h reason mtval he) .syscall
  refine .bind .keepGet fun s => .ite (fun _ => hsyscall.careful) fun _ =>
    .ite (fun _ => hraise _ (by decide)) fun _ => .ite (fun _ => hraise _ (by decide)) fun _ =>
    .ite (fun _ => hraise _ (by decide)) fun _ => .throw fun _ _ => nofun

section

variable (hR : ∀ reason ∉ addressFaults, R reason)
include hR

theorem careful_jump (target : BitVec 32) (link : ConcolicValue 32) : Careful R s₀ regs (do
    control (setPc target)
    control trapCheckPcAlignment
    writeRd link) :=
  .bind (untouched_control fun _ => rfl) fun _ => .bind (looks_trapCheckPcAlignment hR) fun _ =>
    (trapless_writeRd _).careful

theorem careful_jal : Careful R s₀ regs jal := .bind .keepGet fun _ => careful_jump hR _ _

theorem careful_jalr : Careful R s₀ regs jalr :=
  .bind .keepGet fun _ => .bind maintains_rs1 fun _ =>
    .bind ((framed_careful hR).getValue _) fun _ =>
    careful_jump hR _ _

theorem looks_takeBranch (res : ConcolicValue 1) : Looks R s₀ regs (takeBranch res) :=
  .bind .keepGet fun _ => .bind (untouched_control fun _ => rfl) fun _ => .bind .keepGet fun _ =>
    .ite (fun _ => .bind ((framed_careful hR).note _) fun _ => looks_trapCheckPcAlignment hR)
      fun _ => looks_trapCheckPcAlignment hR

theorem careful_branch (f : ConcolicValue 32 → ConcolicValue 32 → ConcolicValue 1) :
    Careful R s₀ regs (branch f) :=
  .bind maintains_rs1 fun _ => .bind maintains_rs2 fun _ => triple_evalAndTrace fun _ =>
    .bind ((Looks.careful (.ite (fun _ => looks_takeBranch hR _) fun _ => .keepPure))) fun _ =>
      (framed_careful hR).trackAndTraceBranch _ _

theorem careful_wfi : Careful R s₀ regs wfi := by
  have hrelease : Looks R s₀ regs releaseLrScReservation :=
    .bind (untouched_control fun _ => rfl) fun _ => .bind .keepGet fun _ =>
      untouched_modify (fun _ => rfl) (fun _ => rfl) (fun _ => rfl) fun _ => rfl
  refine .bind hrelease fun _ => ?_
  intro s hs
  have hcontrol := triple_wfiControl (P := (· = s.toControl)) (Q := fun _ => True)
    (F := fun e c => e = c.illegalInstruction ∧ c = s.toControl) (fun _ h => ⟨rfl, h⟩)
      (fun _ _ => trivial)
    (.modify fun _ _ => trivial)
  refine Triple.zoom hcontrol (P := (· = s)) (fun _ h => h ▸ rfl) (fun _ _ _ _ _ => trivial) ?_
    s rfl
  rintro t _ c rfl ⟨rfl, rfl⟩ _ _ ⟨⟩
  exact ⟨hR _ (by decide), hs⟩

end

/-! ## Instructions on memory -/

section

variable (hR : ∀ reason, R reason)
include hR

theorem careful_store (numBytes alignment : Nat) : Careful R s₀ regs
    (store (fun transact view addr value => symbolicStoreData transact view addr value numBytes)
      alignment) :=
  (framed_access hR).store (fun _ _ => careful_memory (fun _ _ => hR _)
    (classified_symbolicStoreData _ _ numBytes) fun _ depth =>
      attempts_symbolicStoreData depth _ _ _) alignment

theorem careful_signed (numBytes alignment : Nat) : Careful R s₀ regs
    (load (signed fun transact view => loadSigned transact view numBytes) alignment) :=
  (framed_access hR).load (fun _ => looks_memory (fun _ _ => hR _) (classified_signed numBytes _)
    fun _ depth => .bind (reads_loadSigned depth _ _) fun _ => .keepPure) alignment

theorem careful_unsigned (numBytes alignment : Nat) : Careful R s₀ regs
    (load (fun transact view => loadUnsigned transact view numBytes) alignment) :=
  (framed_access hR).load
    (fun _ => looks_memory (fun _ _ => hR _) (classified_loadUnsigned numBytes _)
    fun _ depth => reads_loadUnsigned depth _ _) alignment

theorem careful_lrW : Careful R s₀ regs lrW :=
  (framed_access hR).lrW (fun _ _ h => h) fun _ _ => looks_memory (fun _ _ => hR _)
    (classified_atomicLoadReservedWord _ _) fun _ depth => reads_atomicLoadReservedWord depth _ _

theorem careful_executeAmo (f : ConcolicValue 32 → ConcolicValue 32 → ConcolicValue 32) :
    Careful R s₀ regs (executeAmo f) := by
  refine (framed_access hR).executeAmo (fun s mtval h => ?_) (fun _ => ?_) (fun _ _ => ?_)
    (framed_access hR).rewriteRd f
  · rintro _ _ ⟨⟩
    exact ⟨hR _, (h _ _ rfl).2⟩
  · exact looks_memory (fun _ _ => hR _) (classified_atomicLoadWord _)
      fun _ depth => reads_atomicLoadWord depth _
  · exact careful_memory (fun _ _ => hR _) (classified_atomicStoreWord _ _)
      fun _ depth => attempts_atomicStoreWord depth _ _

end

/-- The state in which a store conditional stores. -/
def conditional (d : Iss) : Iss :=
  (d.noted (d.regs d.instr.rs1).value).assign d.instr.rd REG_ONE

/-- A store conditional after its check of the extension and the address. -/
theorem scW_apply (hext : d.csrs.hasExtension CsrTable.A_ISA_EXT = true)
    (haligned : (d.regs d.instr.rs1).value.concrete.toNat % 4 = 0) : scW d = (do
      let stored ← memory fun transact view => atomicStoreConditionalWord transact view
        (d.regs d.instr.rs1).object (d.regs d.instr.rs1).value (d.regs d.instr.rs2).value
      writeRd (if stored then REG_ZERO else REG_ONE)
      control (modify fun s : Control => { s with lrScCounter := 0 })) d.conditional := by
  have hrequire := control_requireIsa CsrTable.A_ISA_EXT d
  rw [if_pos hext] at hrequire
  have hcheck := trapCheckAddrAlignment_apply 4 false (d.regs d.instr.rs1).value d
  rw [if_pos haligned] at hcheck
  have hrs1 : rs1 d = .ok (d.regs d.instr.rs1) d := rfl
  rw [scW, bind_of_ok hrequire, bind_of_ok hrs1, bind_of_ok hcheck]
  rfl

/-- A store conditional that is refused before it stores. -/
theorem scW_of_not (h : ¬(d.csrs.hasExtension CsrTable.A_ISA_EXT = true ∧
    (d.regs d.instr.rs1).value.concrete.toNat % 4 = 0)) :
    ∃ reason ∉ memoryFaults, ∃ mtval t, scW d = .error (.trap reason mtval) t ∧
      (t = d ∨ t = d.noted (d.regs d.instr.rs1).value) := by
  have hrequire := control_requireIsa CsrTable.A_ISA_EXT d
  by_cases hext : d.csrs.hasExtension CsrTable.A_ISA_EXT = true
  · have hcheck := trapCheckAddrAlignment_apply 4 false (d.regs d.instr.rs1).value d
    have hrs1 : rs1 d = .ok (d.regs d.instr.rs1) d := rfl
    rw [if_pos hext] at hrequire
    rw [if_neg fun haligned => h ⟨hext, haligned⟩] at hcheck
    refine ⟨.EXC_STORE_AMO_ADDR_MISALIGNED, by decide,
      (d.regs d.instr.rs1).value.concrete.setWidth 64, _, ?_, .inr rfl⟩
    rw [scW, bind_of_ok hrequire, bind_of_ok hrs1, bind_of_error hcheck]
    rfl
  · rw [if_neg hext] at hrequire
    refine ⟨.EXC_ILLEGAL_INSTR, by decide, d.instr.data.setWidth 64, _, ?_, .inl rfl⟩
    rw [scW, bind_of_error hrequire]
    rfl

/-- A store conditional writes its register before it stores. -/
theorem precise_scW (hd : Untouched s₀ d.regs d) : Precise s₀ d .SC_W scW := by
  intro s hs
  obtain rfl : d = s := hs.symm
  have hnoted : Untouched s₀ d.regs (d.noted (d.regs d.instr.rs1).value) :=
    ⟨hd.view, hd.requests, hd.grows, hd.kept⟩
  by_cases h : d.csrs.hasExtension CsrTable.A_ISA_EXT = true ∧
    (d.regs d.instr.rs1).value.concrete.toNat % 4 = 0
  · let after := Function.update d.regs d.instr.rd ⟨d.nextObject, REG_ONE⟩
    have hconditional : Untouched s₀ after d.conditional :=
      ⟨hd.view, hd.requests, hd.grows, hd.kept.imp_right fun h => ⟨rfl, h.2⟩⟩
    have hstore : Careful (· ∈ memoryFaults) s₀ after (memory fun transact view =>
        atomicStoreConditionalWord transact view (d.regs d.instr.rs1).object
          (d.regs d.instr.rs1).value (d.regs d.instr.rs2).value) :=
      careful_memory (fun _ h => h) (classified_atomicStoreConditionalWord _ _ _)
        fun _ depth => attempts_atomicStoreConditionalWord depth _ _ _
    rw [scW_apply h.1 h.2]
    refine Triple.conseq (Triple.bind hstore fun stored => Triple.conseq
      (Triple.bind (trapless_writeRd _) fun _ => trapless_modify _) (fun _ h => h)
      (fun _ _ h => h) fun _ _ h reason mtval he => absurd ⟨reason, mtval, he⟩ h) (fun _ h => h)
      (fun _ _ h => h) (fun e s h reason mtval he => ?_) d.conditional hconditional
    obtain ⟨hreason, hs⟩ := h reason mtval he
    refine ⟨fun _ => by decide, ?_⟩
    rw [trapRegs, if_pos ⟨rfl, hreason⟩]
    exact hs
  · obtain ⟨reason, hreason, mtval, t, hrun, ht⟩ := scW_of_not h
    rw [hrun]
    rintro _ _ ⟨⟩
    refine ⟨fun _ => by decide, ?_⟩
    rw [trapRegs, if_neg fun h => hreason h.2]
    obtain rfl | rfl := ht
    · exact hd
    · exact hnoted

/-! ## Instructions on control and status registers -/

/-- The state at the start of the body of such an instruction, up to the log. -/
def Starting (s₀ d s : Iss) : Prop := At d d.toControl s ∧ Untouched s₀ d.regs s

/-- A register has been read, so it can be written. -/
def Granted (d s : Iss) : Prop :=
  ∃ c, Control.Reads d.toControl c ∧ At d c s ∧ ¬ Refuses d.toControl d.instr.csr

theorem starting_getValue (value : ConcolicValue w) :
    Maintains (Starting s₀ d) E (getValue value) :=
  fun _ h => ⟨h.1, h.2.view, h.2.requests, h.2.grows, h.2.kept⟩

theorem granted_of_at (hx : ∀ c, Maintains (At d c) E x) :
    Maintains (Granted d) E x := by
  rintro s ⟨c, hread, hat, hgranted⟩
  exact (hx c).post (fun _ _ h => ⟨c, hread, h, hgranted⟩) s hat

theorem granted_getValue (value : ConcolicValue w) :
    Maintains (Granted d) E (getValue value) :=
  granted_of_at fun _ _ h => h

theorem granted_getCsrValue (hR : ∀ reason ∉ addressFaults, R reason) : Triple (Starting s₀ d)
    (control (getCsrValue d.instr.csr)) (fun _ => Granted d) (Raises R s₀ d.regs) := by
  rintro s ⟨⟨hcontrol, hmmu⟩, hs⟩
  obtain ⟨value, c, hrun, hread⟩ | hrun := reads_getCsrValue (c := s.toControl) d.instr.csr
  · rw [control_ok hrun]
    rw [hcontrol] at hread hrun
    exact ⟨c, hread, ⟨rfl, hmmu⟩, not_refuses_of_getCsrValue hrun⟩
  · rw [control_error hrun]
    rintro _ _ ⟨⟩
    exact ⟨hR _ (by decide), hs⟩

/-- A register that could be read is written without a trap. -/
theorem granted_setCsrValue (value : BitVec 32) : Triple (Granted d)
    (control (setCsrValue d.instr.csr value)) (fun _ _ => True) E := by
  rintro s ⟨c, hread, ⟨rfl, hmmu⟩, hgranted⟩
  obtain ⟨t, hrun, _⟩ | ⟨_, hrefuses⟩ := writes_setCsrValue (c := s.toControl) d.instr.csr value
  · rw [control_ok hrun]
    trivial
  · exact absurd (refuses_of_reads hread hrefuses) hgranted

section

variable (hR : ∀ reason ∉ addressFaults, R reason)
include hR

theorem starting_setCsrValue (value : BitVec 32) : Triple (Starting s₀ d)
    (control (setCsrValue d.instr.csr value)) (fun _ _ => True) (Raises R s₀ d.regs) := by
  rintro s ⟨_, hs⟩
  obtain ⟨t, hrun, _⟩ | ⟨hrun, _⟩ := writes_setCsrValue (c := s.toControl) d.instr.csr value
  · rw [control_ok hrun]
    trivial
  · rw [control_error hrun]
    rintro _ _ ⟨⟩
    exact ⟨hR _ (by decide), hs⟩

theorem starting_accessCsr (isWrite : Bool) {body : BitVec 12 → IssM Unit}
    (hbody : Triple (Starting s₀ d) (body d.instr.csr) (fun _ _ => True)
      (Raises R s₀ d.regs)) :
    Triple (Starting s₀ d) (accessCsr isWrite body) (fun _ _ => True) (Raises R s₀ d.regs) := by
  refine .getBind fun s hs => ?_
  have hinstr : s.instr = d.instr := by rw [hs.1.1]
  rw [hinstr]
  refine .bind (Q := fun _ => Starting s₀ d) ?_ fun invalid => .ite (fun _ => ?_) fun _ => hbody
  · rintro _ rfl
    obtain ⟨invalid, hrun, _⟩ | hrun := checks_isInvalidCsrAccess (c := Iss.toControl _)
      d.instr.csr isWrite
    · rw [control_ok hrun]
      exact hs
    · rw [control_error hrun]
      rintro _ _ ⟨⟩
      exact ⟨hR _ (by decide), hs.2⟩
  · rintro t ht _ _ ⟨⟩
    exact ⟨hR _ (by decide), ht.2⟩

/-- The instructions that write the old value to a register, and then may write the new one. -/
theorem starting_readThenWrite {isWrite : Prop} [Decidable isWrite]
    {x : BitVec 32 → IssM (BitVec 32)}
    (hx : ∀ old, Maintains (Granted d) (Raises R s₀ d.regs) (x old)) :
    Triple (Starting s₀ d) (do
      let csrVal ← control (getCsrValue d.instr.csr)
      writeOld csrVal
      if isWrite then control (setCsrValue d.instr.csr (← x csrVal)))
      (fun _ _ => True) (Raises R s₀ d.regs) :=
  .bind (granted_getCsrValue hR) fun _ => .bind (granted_of_at fun _ => at_writeOld _) fun _ =>
    .ite (fun _ => .bind (hx _) fun _ => granted_setCsrValue _) fun _ => .pure fun _ _ => trivial

theorem starting_csrrw :
    Triple (Starting s₀ d) csrrw (fun _ _ => True) (Raises R s₀ d.regs) := by
  refine starting_accessCsr hR true (.bind maintains_rs1 fun _ => .bind .keepGet fun _ =>
    .ite (fun _ => ?_) fun _ => ?_)
  · exact .bind (granted_getCsrValue hR) fun _ =>
      .bind (granted_of_at fun _ => at_writeRd _) fun _ =>
      .bind (granted_getValue _) fun _ => granted_setCsrValue _
  · exact .bind (starting_getValue _) fun _ => starting_setCsrValue hR _

theorem starting_csrrwi :
    Triple (Starting s₀ d) csrrwi (fun _ _ => True) (Raises R s₀ d.regs) := by
  refine starting_accessCsr hR true (.bind .keepGet fun _ => .ite (fun _ => ?_) fun _ => ?_)
  · exact .bind (granted_getCsrValue hR) fun _ =>
      .bind (granted_of_at fun _ => at_writeRd _) fun _ =>
      .bind .keepGet fun _ => granted_setCsrValue _
  · exact .bind .keepGet fun _ => starting_setCsrValue hR _

theorem starting_csrrs :
    Triple (Starting s₀ d) csrrs (fun _ _ => True) (Raises R s₀ d.regs) :=
  .bind .keepGet fun _ => starting_accessCsr hR _ (.bind maintains_rs1 fun rs1Val =>
    starting_readThenWrite (x := fun old => do return old ||| (← getValue rs1Val.value)) hR
      fun _ => .bind (granted_getValue _) fun _ => .keepPure)

theorem starting_csrrc :
    Triple (Starting s₀ d) csrrc (fun _ _ => True) (Raises R s₀ d.regs) :=
  .bind .keepGet fun _ => starting_accessCsr hR _ (.bind maintains_rs1 fun _ =>
    .bind (starting_getValue _) fun operand =>
    starting_readThenWrite (x := fun old => pure (old &&& ~~~operand)) hR fun _ => .keepPure)

theorem starting_csrImmediate (f : BitVec 32 → BitVec 32 → BitVec 32) :
    Triple (Starting s₀ d) (csrImmediate f) (fun _ _ => True) (Raises R s₀ d.regs) :=
  .bind .keepGet fun s => starting_accessCsr hR _
    (starting_readThenWrite (x := fun old => pure (f old s.instr.zimm)) hR fun _ => .keepPure)

end

/-! ## All instructions -/

theorem Precise.of_starting (hop : op ≠ .SC_W) (hd : Untouched s₀ d.regs d) {x : IssM Unit}
    (hx : Triple (Starting s₀ d) x (fun _ _ => True) (Raises (MayFault op) s₀ d.regs)) :
    Precise s₀ d op x := by
  have hstart : Starting s₀ d d := ⟨⟨rfl, rfl⟩, hd⟩
  refine hx.conseq (fun _ h => h ▸ hstart) (fun _ _ h => h) fun e s h reason mtval he => ?_
  rw [trapRegs, if_neg fun h => hop h.1]
  exact h reason mtval he

theorem precise_of_not_handled (hop : op ∉ handled) : Precise s₀ d op (execute op) := by
  rw [execute_of_not_handled hop]
  exact .throw fun _ _ => nofun

/-- Every instruction leaves the registers and the memory alone where it raises a trap. -/
theorem precise_execute (hd : Untouched s₀ d.regs d) (op : Mapping) :
    Precise s₀ d op (execute op) := by
  have hR : ∀ {op : Mapping}, op ∈ memoryOperations → ∀ reason, MayFault op reason := fun h _ _ => h
  have hcareful : ∀ {op : Mapping} {x : IssM Unit}, op ≠ .SC_W → Careful (MayFault op) s₀ d.regs x →
      Precise s₀ d op x := fun hop hx => .of_careful hop hd hx
  have hstarting : ∀ {op : Mapping} {x : IssM Unit}, op ≠ .SC_W → Triple (Starting s₀ d) x
      (fun _ _ => True) (Raises (MayFault op) s₀ d.regs) → Precise s₀ d op x :=
    fun hop hx => .of_starting hop hd hx
  cases op with
  | UNDEF =>
    refine hcareful (by decide) fun s hs => ?_
    rintro _ _ ⟨⟩
    exact ⟨mayFault_of_notMem _ (by decide), hs⟩
  | LUI | AUIPC | ADDI | SLTI | SLTIU | XORI | ORI | ANDI | ADD | SUB | SLT | SLTU | XOR | OR | AND
  | SLL | SRL | SRA | SLLI | SRLI | SRAI | MUL | MULH | MULHU | MULHSU | DIV | DIVU | REM | REMU =>
    exact hcareful (by decide) ((framed_careful mayFault_of_notMem).execute (by decide))
  | JAL => exact hcareful (by decide) (careful_jal mayFault_of_notMem)
  | JALR => exact hcareful (by decide) (careful_jalr mayFault_of_notMem)
  | SB => exact hcareful (by decide) (careful_store (hR (by decide)) 1 1)
  | SH => exact hcareful (by decide) (careful_store (hR (by decide)) 2 2)
  | SW => exact hcareful (by decide) (careful_store (hR (by decide)) 4 4)
  | LB => exact hcareful (by decide) (careful_signed (hR (by decide)) 1 1)
  | LH => exact hcareful (by decide) (careful_signed (hR (by decide)) 2 2)
  | LW => exact hcareful (by decide) (careful_signed (hR (by decide)) 4 4)
  | LBU => exact hcareful (by decide) (careful_unsigned (hR (by decide)) 1 1)
  | LHU => exact hcareful (by decide) (careful_unsigned (hR (by decide)) 2 2)
  | BEQ | BNE | BLT | BGE | BLTU | BGEU =>
    exact hcareful (by decide) (careful_branch mayFault_of_notMem _)
  | FENCE | FENCE_I => exact hcareful (by decide) (.pure fun _ _ => trivial)
  | ECALL => exact hcareful (by decide) (careful_ecall mayFault_of_notMem)
  | EBREAK => exact hcareful (by decide) (trapless_modify _).careful
  | CSRRW => exact hstarting (by decide) (starting_csrrw mayFault_of_notMem)
  | CSRRS => exact hstarting (by decide) (starting_csrrs mayFault_of_notMem)
  | CSRRC => exact hstarting (by decide) (starting_csrrc mayFault_of_notMem)
  | CSRRWI => exact hstarting (by decide) (starting_csrrwi mayFault_of_notMem)
  | CSRRSI =>
    exact hstarting (by decide) (starting_csrImmediate mayFault_of_notMem
      fun old zimm => old ||| zimm)
  | CSRRCI =>
    exact hstarting (by decide) (starting_csrImmediate mayFault_of_notMem
      fun old zimm => old &&& ~~~zimm)
  | LR_W => exact hcareful (by decide) (careful_lrW (hR (by decide)))
  | SC_W => exact precise_scW hd
  | AMOSWAP_W | AMOADD_W | AMOXOR_W | AMOAND_W | AMOOR_W | AMOMIN_W | AMOMINU_W | AMOMAX_W
  | AMOMAXU_W =>
    rw [execute]
    exact hcareful (by decide) (careful_executeAmo (hR (by decide)) _)
  | WFI => exact hcareful (by decide) (careful_wfi mayFault_of_notMem)
  | MRET => exact hcareful (by decide) (trapless_modify _).careful
  | _ => exact precise_of_not_handled (by decide)

/-! ## The step -/

theorem looks_ensure (assertion : Assertion) (cond : Bool) :
    Looks R s₀ regs (ensure assertion cond) :=
  triple_ensure (fun _ h _ => h) fun _ _ _ => nofun

section

variable (hR : ∀ reason, R reason)
include hR

theorem looks_fetch : Looks R s₀ regs fetch := by
  refine .bind .keepGet fun s => .bind (looks_ensure _ _) fun _ =>
    .bind ((framed_access hR).note _) fun _ => ?_
  have hload : Looks R s₀ regs (memory fun transact view => loadInstr transact view s.pc) :=
    looks_memory (fun _ _ => hR _) (classified_loadInstr _)
      fun _ depth => reads_loadInstr depth _
  refine .bind hload.attempt fun result => ?_
  cases result with
  | ok word => exact untouched_control fun _ => rfl
  | error e =>
    cases e with
    | trap reason mtval =>
      refine Triple.conseq (P := Untouched s₀ regs) (.bind (untouched_control fun _ => rfl)
        fun _ => looks_raiseTrap (hR reason) mtval) (fun _ h => (h reason mtval rfl).2)
        (fun _ _ h => h) fun _ _ h => h
    | _ => exact .throw fun _ _ => nofun

theorem looks_decode : Looks R s₀ regs (control decode) := by
  intro s hs
  obtain ⟨instr, op, _, hrun⟩ := decode_cases s.toControl
  have hdecoded : Untouched s₀ regs { s with toControl := decoded s.toControl instr op } :=
    ⟨hs.view, hs.requests, hs.grows, hs.kept⟩
  rw [control, zoom, hrun]
  split_ifs
  · rintro _ _ ⟨⟩
    exact ⟨hR _, hdecoded⟩
  · exact hdecoded

omit hR in
theorem looks_coverInstr : Looks R s₀ regs (control coverInstr) := by
  intro s hs
  rw [control, zoom, coverInstr_apply]
  cases s.coverage with
  | none => rintro _ _ ⟨⟩
  | some coverage => exact ⟨hs.view, hs.requests, hs.grows, hs.kept⟩

theorem looks_prepare : Looks R s₀ regs prepare :=
  .bind (looks_fetch hR) fun _ => .bind (looks_decode hR) fun _ => looks_coverInstr

end

/-- A fetch that raises a trap leaves no operation to execute. -/
theorem op_of_fetch : Triple (fun _ => True) fetch (fun _ _ => True)
    (fun e t => e.IsTrap → t.op = .UNDEF) := by
  refine .bind .keepGet fun s => .bind (Q := fun _ _ => True)
    (triple_ensure (fun _ h _ => h) fun _ _ _ ⟨_, _, h⟩ => nomatch h) fun _ =>
    .bind (Q := fun _ _ => True) (fun _ _ => trivial) fun _ => ?_
  have hload : Triple (fun _ => True) (memory fun transact view =>
      loadInstr transact view s.pc) (fun _ _ => True) (fun _ _ => True) := by
    intro t _
    cases memory _ t <;> trivial
  refine .bind hload.attempt fun result => ?_
  cases result with
  | ok word => exact .modify fun _ _ => trivial
  | error e =>
    cases e with
    | trap reason mtval => exact fun _ _ _ => rfl
    | _ => exact .throw fun _ _ ⟨_, _, h⟩ => nomatch h

/-- After the fetch, nothing faults before the instruction is executed. -/
theorem notMem_addressFaults_of_decode : Triple (fun _ => True)
    (do control decode; control coverInstr) (fun _ _ => True)
    (fun e _ => ∀ reason mtval, e = .trap reason mtval → reason ∉ addressFaults) := by
  refine .bind (Q := fun _ _ => True) ?_ fun _ => ?_
  · intro s _
    obtain ⟨instr, op, _, hrun⟩ := decode_cases s.toControl
    rw [control, zoom, hrun]
    split_ifs
    · rintro _ _ ⟨⟩
      decide
    · trivial
  · intro s _
    rw [control, zoom, coverInstr_apply]
    cases s.coverage with
    | none => rintro _ _ ⟨⟩
    | some coverage => trivial

/-- A step that faults before the instruction is executed faults in the fetch. -/
theorem fetch_of_prepare {t : Iss} {mtval : BitVec 64}
    (h : prepare s = .error (.trap reason mtval) t) (hreason : reason ∈ addressFaults) :
    fetch s = .error (.trap reason mtval) t := by
  cases hfetch : fetch s with
  | ok _ f =>
    rw [prepare, bind_of_ok hfetch] at h
    exact absurd hreason (notMem_addressFaults_of_decode.of_error trivial h _ _ rfl)
  | error e f =>
    rw [prepare, bind_of_error hfetch] at h
    exact h

/-- The registers after a step that raises a trap, in the state that it leaves. -/
def RegsKept (s t : Iss) (reason : ExceptionCode) : Prop :=
  if t.op = .SC_W ∧ reason ∈ memoryFaults then
    ∃ n, t.regs = Function.update s.regs t.instr.rd ⟨n, REG_ONE⟩
  else t.regs = s.regs

theorem Untouched.refl (hrequests : s₀.io.requests = []) : Untouched s₀ s₀.regs s₀ :=
  ⟨rfl, hrequests, .refl _, .inr ⟨rfl, _, _, .start⟩⟩

/-- What a step leaves of the registers and the memory where it raises a trap. -/
theorem kept_of_execStep {t : Iss} {mtval : BitVec 64}
    (hrequests : s.io.requests = []) (hstep : execStep s = .error (.trap reason mtval) t)
    (hquiet : ¬ SimpleBus.CalledBack s.io.bus t.io.bus) :
    RegsKept s t reason ∧ Walked s.io.bus s.view t.io.bus := by
  have hprepare : Looks (fun _ => True) s s.regs prepare := looks_prepare fun _ => trivial
  cases hrun : prepare s with
  | error e t' =>
    rw [execStep_eq_prepare, bind_of_error hrun] at hstep
    cases hstep
    obtain ⟨_, ht⟩ := hprepare.of_error (.refl hrequests) hrun _ _ rfl
    obtain ⟨hregs, hwalked⟩ := ht.kept.resolve_left hquiet
    refine ⟨?_, hwalked⟩
    rw [RegsKept, if_neg]
    · exact hregs
    · rintro ⟨hop, hreason⟩
      have hfetch := fetch_of_prepare hrun (mem_addressFaults hreason)
      have hundef := op_of_fetch.of_error trivial hfetch ⟨_, _, rfl⟩
      rw [hop] at hundef
      cases hundef
  | ok _ d =>
    rw [execStep_of_prepare hrun] at hstep
    have hd := hprepare.of_ok (.refl hrequests) hrun
    have hself : Untouched s d.regs d :=
      ⟨hd.view, hd.requests, hd.grows, hd.kept.imp_right fun h => ⟨rfl, h.2⟩⟩
    have hgrows := ((precise_execute (.refl hd.requests) d.op).of_error rfl hstep _ _ rfl).2.grows
    have hdregs : d.regs = s.regs :=
      (hd.kept.resolve_left fun hcalled => hquiet (hcalled.trans hgrows)).1
    obtain ⟨_, ht⟩ := (precise_execute hself d.op).of_error rfl hstep _ _ rfl
    obtain ⟨hregs, hwalked⟩ := ht.kept.resolve_left hquiet
    obtain ⟨_, pc, hcalm⟩ := (steps_execute d d.op).of_error rfl hstep
    have hop : t.op = d.op := hcalm.drifts.op
    have hinstr : t.instr = d.instr := hcalm.drifts.instr
    refine ⟨?_, hwalked⟩
    rw [RegsKept, hop, hinstr]
    rw [trapRegs, hdregs] at hregs
    split_ifs at hregs ⊢
    · exact ⟨d.nextObject, hregs⟩
    · exact hregs

end Iss

end SpsVp.Rv32
