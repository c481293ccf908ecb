import SpsVp.Rv32.CsrAccess
import SpsVp.Rv32.Iss

/-!
# What leaves the architectural state alone

`Calm` relates the state before and after everything in the core that is not an instruction's own
effect on the control state: accesses to memory, writes to registers, and what the targets of the
bus and the host do meanwhile. Only the interrupt lines can change `mip` then, and `Control.lines`
says how.
-/

namespace SpsVp.Rv32

open Lib Effect Clover Klee Platform Interface

namespace Control

/-- The interrupt pending bits after some changes of the lines. -/
def withLines (changes : Arrivals) (mip : BitVec 32) : BitVec 32 :=
  changes.foldl (fun mip (line, level) =>
    (mip &&& ~~~((BitVec.allOnes 1).setWidth 32 <<< line.val)) |||
      (((BitVec.ofBool level).setWidth 32 <<< line.val) &&&
        ((BitVec.allOnes 1).setWidth 32 <<< line.val))) mip

/-- The control state without the pending interrupts and what is not architectural. -/
def erase (c : Control) : Control :=
  { c with
    shallExit := false
    lrScCounter := 0
    coverage := c.coverage.map fun _ => ⟨fun _ => none, fun _ => none⟩
    status := .Runnable
    currentPacketIndex := 0
    arrivals := fun _ => []
    lines := []
    csrs := c.csrs.set .mip 0#32 }

/-- Nothing architectural has changed but the interrupt lines. -/
structure Drifts (c c' : Control) : Prop where
  erase : c'.erase = c.erase
  lines : ∃ changes, c'.lines = c.lines ++ changes ∧
    c'.csrs .mip = withLines changes (c.csrs .mip)

namespace Drifts

variable {c c' c'' : Control}

theorem refl (c : Control) : Drifts c c := ⟨rfl, [], (List.append_nil _).symm, rfl⟩

/-- The changes of the interrupt lines follow each other. -/
theorem trans (h : Drifts c c') (h' : Drifts c' c'') : Drifts c c'' := by
  obtain ⟨changes, hlines, hmip⟩ := h.lines
  obtain ⟨changes', hlines', hmip'⟩ := h'.lines
  refine ⟨h'.erase.trans h.erase, changes ++ changes', ?_, ?_⟩
  · rw [hlines', hlines, List.append_assoc]
  · rw [hmip', hmip, withLines, withLines, withLines, List.foldl_append]

/-- A change of the fields that are erased. -/
theorem of_erase (herase : c'.erase = c.erase) (hlines : c'.lines = c.lines)
    (hmip : c'.csrs .mip = c.csrs .mip) : Drifts c c' :=
  ⟨herase, [], by rw [hlines, List.append_nil], hmip⟩

/-- One interrupt line changes. -/
theorem setInterrupt (line : Fin 32) (level : Bool) (c : Control) :
    Drifts c (c.setInterrupt line level) := by
  refine ⟨?_, [(line, level)], rfl, ?_⟩
  · simp [Control.erase, Control.setInterrupt, CsrTable.setField, CsrTable.setMasked, CsrTable.set]
  · simp [Control.setInterrupt, CsrTable.setField, CsrTable.setMasked, withLines]

variable (h : Drifts c c')
include h

/-- A field that is not erased. -/
theorem field {α : Type} (f : Control → α) (hf : ∀ c, f c.erase = f c) : f c' = f c := by
  rw [← hf c', h.erase, hf]

theorem pc : c'.pc = c.pc := h.field Control.pc fun _ => rfl
theorem lastPc : c'.lastPc = c.lastPc := h.field Control.lastPc fun _ => rfl
theorem prv : c'.prv = c.prv := h.field Control.prv fun _ => rfl
theorem instr : c'.instr = c.instr := h.field Control.instr fun _ => rfl
theorem op : c'.op = c.op := h.field Control.op fun _ => rfl

/-- The other registers are the same. -/
theorem csrs {csr : Csr} (hcsr : csr ≠ .mip) : c'.csrs csr = c.csrs csr := by
  have := congrArg (fun c : Control => c.csrs csr) h.erase
  simpa [Control.erase, hcsr] using this

/-- The extensions of the instruction set are the same. -/
theorem hasExtension (ext : BitVec 32) : c'.csrs.hasExtension ext = c.csrs.hasExtension ext := by
  rw [CsrTable.hasExtension, CsrTable.hasExtension, h.csrs (by decide)]

/-- The bits of the other registers are the same. -/
theorem bit {csr : Csr} (hcsr : csr ≠ .mip) (i : Nat) : c'.csrs.bit csr i = c.csrs.bit csr i := by
  rw [CsrTable.bit, CsrTable.bit, h.csrs hcsr]

/-- The memory interface sees the same of the core. -/
theorem view : c'.view = c.view := by
  rw [Control.view, Control.view, h.prv, h.csrs (by decide), h.csrs (by decide),
    h.csrs (by decide)]

end Drifts

end Control

namespace Iss

variable {c : Control} {w : Nat} {α : Type} {s : Iss}

/-- A step of the control state that returns. -/
theorem control_ok {x : ControlM α} {a : α}
    (h : x s.toControl = .ok a c) : control x s = .ok a { s with toControl := c } :=
  zoom_of_ok h

/-- A step of the control state that throws. -/
theorem control_error {x : ControlM α} {e : Exception}
    (h : x s.toControl = .error e c) : control x s = .error e { s with toControl := c } :=
  zoom_of_error h

section

variable {P Q : Iss → Prop} {E : Exception → Iss → Prop}

/-- A read of the first operand changes nothing. -/
theorem maintains_rs1 : Maintains P E rs1 := .bind .keepGet fun _ => .keepPure

/-- A read of the second operand changes nothing. -/
theorem maintains_rs2 : Maintains P E rs2 := .bind .keepGet fun _ => .keepPure

/-- A register is written, or nothing happens. -/
theorem triple_write (index : BitVec 5) (value : ConcolicValue w) (hweaken : ∀ s, P s → Q s)
    (hassign : ∀ s v, P s → Q (s.assign index v)) :
    Triple P (write index value) (fun _ => Q) E := by
  unfold write
  split_ifs
  · exact .modify fun s hs => hassign s _ hs
  · exact .modify fun s hs => hassign s _ hs
  · exact .pure hweaken

end

variable {x : Transact → CoreView → MemM α}

/-- A call of the memory interface, and then what the targets have asked for. -/
theorem memory_apply
    {r : EStateM.Result Exception Interface α}
    (hx : x (Interface.transact s.view s.depth) s.view s.io = r) :
    memory x s = (do
      (Effect.final r).requests.forM serve
      match Effect.outcome r with
      | .ok a => return a
      | .error e => throw e) { s with io := { Effect.final r with requests := [] } } := by
  have hattempt : attempt (interface (x (Interface.transact s.view s.depth) s.view)) s =
      .ok (Effect.outcome r) { s with io := Effect.final r } := by
    rw [attempt, interface, zoom, hx]
    cases r <;> rfl
  have htake : interface takeRequests { s with io := Effect.final r } =
      .ok (Effect.final r).requests { s with io := { Effect.final r with requests := [] } } := rfl
  change (attempt (interface (x (Interface.transact s.view s.depth) s.view)) >>= _) s = _
  rw [bind_of_ok hattempt]
  exact bind_of_ok htake

variable {io : Interface}

/-- A call that returns, followed by what the targets have asked for. -/
theorem memory_of_ok {a : α}
    (hx : x (Interface.transact s.view s.depth) s.view s.io = .ok a io) :
    memory x s = (do
      io.requests.forM serve
      return a) { s with io := { io with requests := [] } } :=
  memory_apply hx

/-- A call that throws, which it does after the requests of the targets were served. -/
theorem memory_of_error {e : Exception}
    (hx : x (Interface.transact s.view s.depth) s.view s.io = .error e io) :
    memory x s = (do
      io.requests.forM serve
      throw e) { s with io := { io with requests := [] } } :=
  memory_apply hx

/-- A call of the memory interface after which the targets ask for nothing. -/
theorem memory_of_quiet
    {r : EStateM.Result Exception Interface α}
    (hx : x (Interface.transact s.view s.depth) s.view s.io = r)
    (hquiet : (Effect.final r).requests = []) :
    memory x s = mapState (fun io => { s with io }) r := by
  have hsame : ∀ io : Interface, io.requests = [] → { io with requests := [] } = io := by
    rintro ⟨⟩ ⟨⟩
    rfl
  rw [memory_apply hx, hquiet, hsame _ hquiet]
  cases r <;> rfl

/-- Two calls that do the same in a state have the same effect on the core. -/
theorem memory_congr {x y : Transact → CoreView → MemM α}
    (h : x (Interface.transact s.view s.depth) s.view s.io =
      y (Interface.transact s.view s.depth) s.view s.io) : memory x s = memory y s := by
  rw [memory_apply h, memory_apply rfl]

/-- The rule for a call: what holds after it is kept where the requests of the targets are
served. -/
theorem triple_call {P : Iss → Prop}
    {Q : α → Iss → Prop} {E : Exception → Iss → Prop} {C : Except Exception α → Iss → Prop}
    (hcall : ∀ s r, P s → x (Interface.transact s.view s.depth) s.view s.io = r →
      C (Effect.outcome r) { s with io := { Effect.final r with requests := [] } })
    (hserve : ∀ result request, Maintains (C result) E (serve request))
    (hok : ∀ a s, C (.ok a) s → Q a s) (herror : ∀ e s, C (.error e) s → E e s) :
    Triple P (memory x) Q E := by
  intro s hs
  rw [memory_apply rfl]
  refine Triple.bind (.forM (hserve _) _) (fun _ => ?_) _ (hcall s _ hs rfl)
  cases Effect.outcome (x (Interface.transact s.view s.depth) s.view s.io) with
  | ok a => exact .pure (hok a)
  | error e => exact .throw (herror e)

/-- What of the memory interface stays for ever: whether there is an MMU, and how it is
configured. -/
def mmuConfiguration (io : Interface) : Option (Bool × Bool) :=
  io.mmu.map fun mmu => (mmu.connected, mmu.pageFaultOnAD)

/-- Nothing architectural has changed but registers, memory and the interrupt lines. -/
structure Calm (s₀ s : Iss) : Prop where
  drifts : Control.Drifts s₀.toControl s.toControl
  mmu : mmuConfiguration s.io = mmuConfiguration s₀.io

theorem Calm.refl (s : Iss) : Calm s s := ⟨.refl _, rfl⟩

/-- The privilege modes of a core: the current one, and the one for loads and stores. -/
def LegalModes (c : Control) : Prop :=
  c.prv ≠ 2#2 ∧ (c.csrs.bit .mstatus 17 = true → c.csrs.mpp ≠ 2#2)

/-- What the memory and the host may throw in a state. -/
inductive Disturbs (s : Iss) : Exception → Prop where
  | trap (reason : ExceptionCode) (mtval : BitVec 64) : Disturbs s (.trap reason mtval)
  | hostError (what : String) : Disturbs s (.hostError what)
  | abort {assertion : Assertion}
      (h : assertion ∈ [.registerValue, .symbolicSize, .stack, .target, .syscall]) :
      Disturbs s (.abort assertion)
  | pageTableMemory {type : MemoryAccessType} (htranslates : Translates s.view type)
      (hmmu : s.io.mmu.isSome = true) (h : s.io.mmu.any (·.connected) = false) :
      Disturbs s (.abort .pageTableMemory)
  | privilegeMode (h : ¬ LegalModes s.toControl) : Disturbs s (.abort .privilegeMode)

/-- A computation changes nothing architectural but registers, memory and the interrupt lines, and
throws what is in `K`. -/
abbrev Idles {α : Type} (s₀ : Iss) (K : Exception → Prop) (x : IssM α) : Prop :=
  Maintains (Calm s₀) (fun e s => K e ∧ Calm s₀ s) x

variable {s₀ : Iss} {K : Exception → Prop}

/-- A computation whose exception is caught. -/
theorem Idles.attempted {x : IssM α} (h : Idles s₀ K x) {E : Exception → Iss → Prop} :
    Triple (Calm s₀) (attempt x)
      (fun r s => (∀ e, r = .error e → K e) ∧ Calm s₀ s) E := by
  refine h.attempt.post (fun r s hs => ?_)
  cases r with
  | ok a => exact ⟨nofun, hs⟩
  | error e =>
    refine ⟨?_, hs.2⟩
    rintro _ ⟨⟩
    exact hs.1

/-! ## Registers and control state -/

/-- A change of registers and interrupt lines. -/
theorem idles_modify {f : Iss → Iss} (hcontrol : ∀ s, Control.Drifts s.toControl (f s).toControl)
    (hio : ∀ s, (f s).io = s.io) : Idles s₀ K (modify f) :=
  .modify fun s h => ⟨h.drifts.trans (hcontrol s), by rw [hio, h.mmu]⟩

/-- A change of interrupt lines alone. -/
theorem idles_control {f : Control → Control} (hf : ∀ c, Control.Drifts c (f c)) :
    Idles s₀ K (control (modify f)) :=
  idles_modify (fun s => hf s.toControl) fun _ => rfl

/-- A register is written. -/
theorem idles_write (index : BitVec 5) (value : ConcolicValue w) :
    Idles s₀ K (write index value) :=
  triple_write _ _ (fun _ h => h) fun _ _ h => ⟨h.drifts, h.mmu⟩

/-- The destination register is written. -/
theorem idles_writeRd (value : ConcolicValue w) : Idles s₀ K (writeRd value) :=
  .bind .keepGet fun _ => idles_write _ _

/-! ## Memory -/

/-- The memory interface is configured as in a state. -/
def Configured (s₀ : Iss) (io : Interface) : Prop :=
  mmuConfiguration io = mmuConfiguration s₀.io

/-- What an access does leaves the configuration of the MMU alone. -/
theorem stable_configured : Stable (Configured s₀) where
  essence := fun h hio => (congrArg Prod.snd h).trans hio
  transport := fun _ _ hio => hio

/-- The MMU has a memory for page tables just if it had one before. -/
theorem Configured.connected (h : Configured s₀ io) :
    io.mmu.any (·.connected) = s₀.io.mmu.any (·.connected) := by
  have hany : ∀ io : Interface,
      io.mmu.any (·.connected) = (mmuConfiguration io).any Prod.fst := by
    intro io
    rw [mmuConfiguration, Option.any_map]
  rw [hany, hany, h]

/-- There is an MMU just if there was one before. -/
theorem Configured.isSome (h : Configured s₀ io) :
    io.mmu.isSome = s₀.io.mmu.isSome := by
  have := congrArg Option.isSome h
  rwa [mmuConfiguration, mmuConfiguration, Option.isSome_map, Option.isSome_map] at this

/-- Every access of a core with legal modes has a legal mode. -/
theorem LegalModes.legalMode (h : LegalModes c) (type : MemoryAccessType) :
    LegalMode c.view type := by
  have hmode : ∀ mode : PrivilegeLevel, mode ≠ 2#2 →
      mode = MachineMode ∨ mode = SupervisorMode ∨ mode = UserMode := by decide
  unfold LegalMode effectiveMode
  split
  · next hmprv => exact hmode _ (h.2 hmprv.2)
  · exact hmode _ h.1

/-- A step of the memory interface that keeps the configuration. -/
theorem idles_interface {x : MemM α} (hx : Stays (Configured s₀) K x) :
    Idles s₀ K (interface x) :=
  Triple.zoom hx (fun _ h => h.mmu) (fun _ _ _ h hio => ⟨h.drifts, hio⟩)
    fun _ _ _ h hio => ⟨hio.1, h.drifts, hio.2⟩

/-- A concolic value is concretised. -/
theorem idles_getValue (value : ConcolicValue w) : Idles s₀ K (getValue value) :=
  idles_interface (stays_getValue (fun _ _ h => h) value)

/-- A note in the log. -/
theorem idles_note (event : Event) : Idles s₀ K (interface (Interface.note event)) :=
  idles_interface (stays_note (fun _ _ h => h) event)

/-- A register is read for a system call. -/
theorem idles_readRegister (idx : BitVec 5) : Idles s₀ K (readRegister idx) :=
  .bind .keepGet fun _ => idles_getValue _

/-- The reservation is released. -/
theorem idles_releaseLrScReservation : Idles s₀ K releaseLrScReservation :=
  .bind (idles_control fun _ => .of_erase rfl rfl rfl) fun _ => .bind .keepGet fun _ =>
    idles_interface (stays_atomicUnlock stable_configured.persistent)

section

variable (hK : ∀ e, Disturbs s₀ e → K e)
include hK

/-- A translation throws only what a core may be disturbed by. -/
theorem translationThrows_disturbs (type : MemoryAccessType) :
    TranslationThrows (Configured s₀) K s₀.view type where
  pageFault := fun _ => hK _ (.trap _ _)
  pageTableMemory := fun htranslates _ _ hio hsome hio' hconnected => hK _
    (.pageTableMemory htranslates (hio.isSome.symm.trans hsome)
      (hio'.connected.symm.trans hconnected))
  privilegeMode := fun hmode => hK _ (.privilegeMode fun hlegal => hmode (hlegal.legalMode type))

/-- A transaction throws only what a core may be disturbed by. -/
theorem transactionThrows_disturbs :
    TransactionThrows (Configured s₀) K s₀.view where
  toTranslationThrows := translationThrows_disturbs hK .STORE
  busFault := fun _ _ => hK _ (.trap _ _)
  target := hK _ (.abort (by decide))
  symbolicSize := hK _ (.abort (by decide))
  stack := hK _ (.abort (by decide))

/-- A trap is raised without a change. -/
theorem idles_raiseTrap (reason : ExceptionCode) (mtval : BitVec 64) :
    Idles s₀ K (raiseTrap reason mtval : IssM α) :=
  .throw fun _ h => ⟨hK _ (.trap _ _), h⟩

/-- A system call leaves the control state alone. -/
theorem idles_executeSyscall : Idles s₀ K executeSyscall := by
  refine .bind .keepGet fun s => .bind (idles_readRegister _) fun n =>
    .bind (idles_readRegister _) fun x3 => .bind (idles_readRegister _) fun x2 =>
    .bind (idles_readRegister _) fun x1 => .bind (idles_readRegister _) fun x0 =>
    .bind (Q := fun _ => Calm s₀) (.modifyGet fun s h => ⟨h.drifts, h.mmu⟩) fun result => ?_
  cases result with
  | failed what => exact .throw fun _ h => ⟨hK _ (.hostError _), h⟩
  | aborted => exact .throw fun _ h => ⟨hK _ (.abort (by decide)), h⟩
  | returned ans shallExit =>
    refine .bind (.bind (triple_ensure (fun _ h _ => h)
      fun _ h _ => ⟨hK _ (.abort (by decide)), h⟩) fun _ => idles_write _ _) fun _ => ?_
    exact .ite (fun _ => idles_control fun _ => .of_erase rfl rfl rfl) fun _ => .keepPure

/-- The request of a target changes interrupt lines at most. -/
theorem idles_serve (request : CoreRequest) : Idles s₀ K (serve request) := by
  cases request with
  | interrupt line level => exact idles_control (.setInterrupt line level)
  | syscall => exact idles_executeSyscall hK
  | exit | processedPacket => exact idles_control fun _ => .of_erase rfl rfl rfl

/-- A call of the memory interface. -/
theorem idles_memory
    (hx : ∀ transact, (∀ payload, Stays (Configured s₀) K (transact payload)) →
      Stays (Configured s₀) K (x transact s₀.view)) : Idles s₀ K (memory x) := by
  refine triple_call (C := fun r s => (∀ e, r = .error e → K e) ∧ Calm s₀ s) (fun s r hs hr => ?_)
    (fun result request => ?_) (fun _ _ h => h.2) fun e _ h => ⟨h.1 e rfl, h.2⟩
  · have hcall := hx _ (stays_transact stable_configured.persistent
      (transactionThrows_disturbs hK) s.depth) s.io hs.mmu
    have hview : s.view = s₀.view := hs.drifts.view
    rw [← hview, hr] at hcall
    cases r with
    | ok a io => exact ⟨nofun, hs.drifts, hcall⟩
    | error e io =>
      refine ⟨?_, hs.drifts, hcall.2⟩
      rintro _ ⟨⟩
      exact hcall.1
  · exact .assume fun hr => (idles_serve hK request).post fun _ _ h => ⟨hr, h⟩

end

end Iss

end SpsVp.Rv32
