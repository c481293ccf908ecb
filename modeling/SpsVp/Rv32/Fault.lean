import SpsVp.Lib.Rename
import SpsVp.Platform.Callback
import SpsVp.Rv32.Crash

/-!
# Where an access fails

`_do_transaction` raises a page fault for an error of the bus, as the MMU does when it refuses a
translation, so the cause of a fault does not tell the two apart. And the bus replaces the address
of a transaction by the one inside the target, so the value of the trap does not tell where the
error was. `specifiedTransact` does the same transactions with the access faults that the privileged
architecture has for errors of the bus, and with the physical address of the transaction as the
value. What an access raises with it says where the access has failed: a page fault is a refusal of
the MMU, an access fault is an error of the bus on a read or on a write. `fault_of_memory` connects
the two. -/

namespace SpsVp.Platform

namespace SimpleBus

def ports (bus : SimpleBus) : List PortMapping := bus.map Prod.fst

/-- The address inside the target that an address of the bus belongs to. An address that belongs to
no target stays as it is. -/
def localAddress : List PortMapping → BitVec 64 → BitVec 64
  | [], addr => addr
  | port :: ports, addr =>
    if port.contains addr then port.globalToLocal addr else localAddress ports addr

/-- Routing changes what a target holds, never where it is mapped. -/
theorem ports_transport (bus : SimpleBus) (payload : Payload) :
    (bus.transport payload).2.ports = bus.ports := by
  induction bus with
  | nil => rfl
  | cons p bus ih =>
    obtain ⟨port, target⟩ := p
    rw [transport]
    split_ifs
    · rfl
    · exact congrArg (port :: ·) ih

theorem Grows.ports {bus bus' : SimpleBus} (h : Grows bus bus') : bus'.ports = bus.ports := by
  induction h with
  | nil => rfl
  | cons hp _ ih => exact congrArg₂ List.cons hp.1.symm ih

theorem address_answered (payload : Payload) (answer : Answer) :
    (payload.answered answer).address = payload.address := by
  cases answer <;> rfl

/-- A target leaves the address of a transaction alone. -/
theorem address_target (target : Target) (payload : Payload) :
    (target.transport payload).1.payload.address = payload.address := by
  cases target with
  | memory m =>
    change (m.transport payload).1.address = payload.address
    unfold SymbolicMemory.transport
    split
    · rfl
    · split <;> rfl
  | device d =>
    change (d.transport payload).1.payload.address = payload.address
    unfold Device.transport
    dsimp only
    cases d.respond _ with
    | served answer requests => exact address_answered payload answer
    | addressError | hostError => rfl

/-- The address that a transaction comes back with. -/
theorem address_transport (bus : SimpleBus) (payload : Payload) :
    (bus.transport payload).1.payload.address = localAddress bus.ports payload.address := by
  induction bus with
  | nil => rfl
  | cons p bus ih =>
    obtain ⟨port, target⟩ := p
    change _ = if port.contains payload.address = true then port.globalToLocal payload.address
      else localAddress (ports bus) payload.address
    rw [transport]
    split_ifs
    · exact address_target target _
    · exact ih

end SimpleBus

end SpsVp.Platform

namespace SpsVp.Rv32

open Lib Effect Clover Klee Platform Interface

/-- The class of accesses that a cause is about. -/
def ExceptionCode.accessType : ExceptionCode → Option MemoryAccessType
  | .EXC_INSTR_ADDR_MISALIGNED | .EXC_INSTR_ACCESS_FAULT | .EXC_INSTR_PAGE_FAULT => some .FETCH
  | .EXC_LOAD_ADDR_MISALIGNED | .EXC_LOAD_ACCESS_FAULT | .EXC_LOAD_PAGE_FAULT => some .LOAD
  | .EXC_STORE_AMO_ADDR_MISALIGNED | .EXC_STORE_AMO_ACCESS_FAULT | .EXC_STORE_AMO_PAGE_FAULT =>
    some .STORE
  | _ => none

/-- The causes for an access that is refused by the MMU or fails on the bus. -/
def memoryFaults : List ExceptionCode :=
  [.EXC_INSTR_ACCESS_FAULT, .EXC_LOAD_ACCESS_FAULT, .EXC_STORE_AMO_ACCESS_FAULT,
    .EXC_INSTR_PAGE_FAULT, .EXC_LOAD_PAGE_FAULT, .EXC_STORE_AMO_PAGE_FAULT]

/-- The causes for a load or a store that is refused or misaligned. -/
def addressFaults : List ExceptionCode :=
  .EXC_LOAD_ADDR_MISALIGNED :: .EXC_STORE_AMO_ADDR_MISALIGNED :: memoryFaults

variable {reason : ExceptionCode}

theorem mem_addressFaults (h : reason ∈ memoryFaults) :
    reason ∈ addressFaults :=
  List.mem_cons_of_mem _ (List.mem_cons_of_mem _ h)

/-- The ways in which an access fails: the MMU refuses a fetch or a store, since the addresses of
loads are translated as those of stores, or the bus reports an error. -/
def origins : List ExceptionCode :=
  [.EXC_INSTR_PAGE_FAULT, .EXC_STORE_AMO_PAGE_FAULT, .EXC_LOAD_ACCESS_FAULT,
    .EXC_STORE_AMO_ACCESS_FAULT]

namespace Interface

/-! ## Transactions with access faults -/

/-- The cause for an error of the bus. -/
def accessFault : Command → ExceptionCode
  | .read => .EXC_LOAD_ACCESS_FAULT
  | .write => .EXC_STORE_AMO_ACCESS_FAULT

/-- `doTransaction` with an access fault at the physical address for an error of the bus. -/
def specifiedTransaction
    (store : (size : Nat) → BitVec 32 → ConcolicValue (8 * size) → MemM Unit) : Transact :=
  fun payload => do
    let outcome ← transport payload
    outcome.requests.forM (serve store)
    if outcome.payload.isResponseError then
      raiseTrap (accessFault outcome.payload.command) payload.address
    else return outcome.payload

/-- `transact` with access faults for errors of the bus. -/
def specifiedTransact (view : CoreView) : Nat → Transact
  | 0 => fun _ => throw (.abort .stack)
  | depth + 1 => specifiedTransaction fun size addr value =>
    symbolicStoreData (specifiedTransact view depth) view ⟨addr, none⟩ value size

/-- The page fault in place of an access fault. -/
def reported : ExceptionCode → ExceptionCode
  | .EXC_LOAD_ACCESS_FAULT => .EXC_LOAD_PAGE_FAULT
  | .EXC_STORE_AMO_ACCESS_FAULT => .EXC_STORE_AMO_PAGE_FAULT
  | reason => reason

/-- The address inside the target in place of the physical one of an access fault. -/
def reportedAddress (ports : List PortMapping) (origin : ExceptionCode) (address : BitVec 64) :
    BitVec 64 :=
  if origin = .EXC_LOAD_ACCESS_FAULT ∨ origin = .EXC_STORE_AMO_ACCESS_FAULT then
    SimpleBus.localAddress ports address
  else address

def reportedException (ports : List PortMapping) : Exception → Exception
  | .trap origin address => .trap (reported origin) (reportedAddress ports origin address)
  | e => e

/-- A computation with two kinds of transactions on a bus with given ports, the first of which
reports errors of the bus as page faults. -/
abbrev Reports {α : Type} (ports : List PortMapping) (x y : MemM α) : Prop :=
  Effect.Renames (fun io : Interface => io.bus.ports = ports) (reportedException ports) x y

section

variable {ports : List PortMapping} {t u : Transact} {view : CoreView}

theorem reports_ensure (assertion : Assertion) (cond : Bool) :
    Reports ports (ensure assertion cond) (ensure assertion cond) :=
  .ite (.pure _) (.throw rfl)

theorem reports_noteExtension (extension : Option Concolic) :
    Reports ports (noteExtension extension) (noteExtension extension) := by
  cases extension with
  | none => exact .pure _
  | some value => exact .modify fun _ h => h

theorem reports_getValue {w : Nat} (value : ConcolicValue w) :
    Reports ports (getValue value) (getValue value) :=
  .bind (.modify fun _ h => h) fun _ => .pure _

variable (h : ∀ payload, Reports ports (t payload) (u payload))
include h

theorem reports_concreteLoadData (addr : BitVec 64) :
    Reports ports (concreteLoadData t view addr) (concreteLoadData u view addr) :=
  .bind (.modify fun _ h => h) fun _ => .bind (h _) fun _ =>
    .bind (reports_noteExtension _) fun _ => .pure _

theorem reports_concreteStoreData (addr : BitVec 64) (value : BitVec 32) :
    Reports ports (concreteStoreData t view addr value) (concreteStoreData u view addr value) :=
  .bind (.modify fun _ h => h) fun _ => .bind (h _) fun _ => .modify fun _ h => h

/-- By induction on the levels that are left. -/
theorem reports_walkLevels (vaddr : BitVec 64) (type : MemoryAccessType) (sMode : Bool) (i : Nat)
    (base : BitVec 64) : Reports ports (walkLevels t view vaddr type sMode i base)
      (walkLevels u view vaddr type sMode i base) := by
  induction i generalizing base with
  | zero => exact .pure _
  | succ i ih =>
    refine .bind .get fun _ => .bind (reports_ensure _ _) fun _ =>
      .bind (reports_concreteLoadData h _) fun _ => ?_
    refine .ite (.pure _) (.ite (ih _) (.ite (.pure _) (.ite (.pure _) (.ite (.pure _) ?_))))
    exact .bind .get fun _ =>
      .ite (.pure _) (.bind (reports_concreteStoreData h _ _) fun _ => .pure _)

theorem reports_walk (vaddr : BitVec 64) (type : MemoryAccessType) (mode : PrivilegeLevel) :
    Reports ports (walk t view vaddr type mode) (walk u view vaddr type mode) := by
  refine .bind (reports_walkLevels h _ _ _ _ _) fun paddr => ?_
  cases paddr with
  | some paddr => exact .pure _
  | none => cases type <;> exact .throw rfl

/-- Only the walk has to be compared: the other branches read no memory. -/
theorem reports_v2p (vaddr : BitVec 64) (type : MemoryAccessType) :
    Reports ports (v2p t view vaddr type) (v2p u view vaddr type) := by
  refine .bind .get fun io => ?_
  cases io.mmu with
  | none => exact .pure _
  | some mmu =>
    refine .ite (.pure _) (.ite (.pure _) (.bind (reports_ensure _ _) fun _ => .ite (.pure _) ?_))
    exact .bind (reports_walk h _ _ _) fun _ => .bind (.modify fun _ h => h) fun _ => .pure _

theorem reports_symbolicStoreData {w : Nat} (addr : ConcolicValue 32) (data : ConcolicValue w)
    (numBytes : Nat) : Reports ports (symbolicStoreData t view addr data numBytes)
      (symbolicStoreData u view addr data numBytes) :=
  .bind (.modify fun _ h => h) fun _ => .bind (reports_getValue _) fun _ =>
    .bind (.modify fun _ h => h) fun _ =>
    .bind (reports_v2p h _ _) fun _ => .bind (h _) fun _ => .modify fun _ h => h

theorem reports_symbolicLoadData (addr : ConcolicValue 32) (numBytes : Nat) :
    Reports ports (symbolicLoadData t view addr numBytes) (symbolicLoadData u view addr numBytes) :=
  .bind (.modify fun _ h => h) fun _ => .bind (reports_getValue _) fun _ =>
    .bind (.modify fun _ h => h) fun _ =>
    .bind (reports_v2p h _ _) fun _ => .bind (h _) fun _ => .pure _

theorem reports_loadInstr (addr : BitVec 32) :
    Reports ports (loadInstr t view addr) (loadInstr u view addr) :=
  .bind (reports_v2p h _ _) fun _ => reports_concreteLoadData h _

theorem reports_loadSigned (numBytes : Nat) (addr : ConcolicValue 32) :
    Reports ports (loadSigned t view numBytes addr) (loadSigned u view numBytes addr) :=
  .bind (reports_symbolicLoadData h _ _) fun _ => .pure _

theorem reports_loadUnsigned (numBytes : Nat) (addr : ConcolicValue 32) :
    Reports ports (loadUnsigned t view numBytes addr) (loadUnsigned u view numBytes addr) :=
  .bind (reports_symbolicLoadData h _ _) fun _ => .pure _

theorem reports_atomicLoadWord (addr : ConcolicValue 32) :
    Reports ports (atomicLoadWord t view addr) (atomicLoadWord u view addr) :=
  .bind (.modify fun _ h => h) fun _ => reports_loadSigned h _ _

theorem reports_atomicStoreWord (addr value : ConcolicValue 32) :
    Reports ports (atomicStoreWord t view addr value) (atomicStoreWord u view addr value) :=
  .bind .get fun _ => .bind (reports_ensure _ _) fun _ => reports_symbolicStoreData h _ _ _

/-- The reservation is recorded before the load, on both sides. -/
theorem reports_atomicLoadReservedWord (object : Nat) (addr : ConcolicValue 32) :
    Reports ports (atomicLoadReservedWord t view object addr)
      (atomicLoadReservedWord u view object addr) :=
  .bind (.modify fun _ h => h) fun _ => .bind (.modify fun _ h => h) fun _ =>
    reports_loadSigned h _ _

/-- A lost reservation performs no transaction. -/
theorem reports_atomicStoreConditionalWord (object : Nat) (addr value : ConcolicValue 32) :
    Reports ports (atomicStoreConditionalWord t view object addr value)
      (atomicStoreConditionalWord u view object addr value) :=
  .bind .get fun _ => .ite (.ite (.bind (reports_symbolicStoreData h _ _ _) fun _ => .pure _)
    (.bind (.modify fun _ h => h) fun _ => .pure _)) (.pure _)

end

/-- A transport that returns has returned what the bus answered. -/
theorem transport_eq_ok {payload : Payload} {io io' : Interface} {outcome : Outcome}
    (h : transport payload io = .ok outcome io') : outcome = (io.bus.transport payload).1 := by
  obtain ⟨_, _, houtcome, hrest⟩ := bind_eq_ok h
  obtain ⟨_, _, _, hensure⟩ := bind_eq_ok hrest
  obtain ⟨_, _, _, hpure⟩ := bind_eq_ok hensure
  cases hpure
  cases houtcome
  rfl

theorem reports_transport {ports : List PortMapping} (payload : Payload) :
    Reports ports (transport payload) (transport payload) :=
  .bind (.modifyGet fun io h => (io.bus.ports_transport payload).trans h) fun _ =>
    .bind (reports_noteExtension _) fun _ => .bind (reports_ensure _ _) fun _ => .pure _

/-- By induction on the depth, since a target may call back into the memory. -/
theorem reports_transact (ports : List PortMapping) (view : CoreView) (depth : Nat)
    (payload : Payload) :
    Reports ports (transact view depth payload) (specifiedTransact view depth payload) := by
  induction depth generalizing payload with
  | zero => exact .throw rfl
  | succ depth ih =>
    refine .bindOf (Q := fun outcome => outcome.payload.address =
      SimpleBus.localAddress ports payload.address) (reports_transport payload) ?_
      fun outcome haddress => .bind (.forM (fun request => ?_) _) fun _ => ?_
    · rintro io outcome io' hports h
      rw [transport_eq_ok h, ← hports]
      exact io.bus.address_transport payload
    · cases request with
      | makeSymbolic addr size value =>
        exact .ite (.throw rfl) (reports_symbolicStoreData ih _ _ _)
      | _ => exact .modify fun _ h => h
    · refine .ite ?_ (.pure _)
      rw [haddress]
      cases outcome.payload.command <;> exact .throw rfl

/-! ## Origins -/

/-- Only the traps of `origins` are raised. -/
def Originates (e : Exception) : Prop := ∀ reason mtval, e = .trap reason mtval → reason ∈ origins

theorem Originates.trap {origin : ExceptionCode} (h : origin ∈ origins) (mtval : BitVec 64) :
    Originates (.trap origin mtval) := by
  rintro _ _ ⟨⟩
  exact h

/-- A computation that raises only the traps of `origins`. -/
abbrev Fails {α : Type} (x : MemM α) : Prop := Stays (fun _ => True) Originates x

theorem stable_true : Stable fun _ => True := ⟨fun _ _ => trivial, fun _ _ _ => trivial⟩

/-- The page fault of a load is not among `origins`, hence `h`. -/
theorem translationThrows_originates (view : CoreView) {type : MemoryAccessType}
    (h : type ≠ .LOAD) :
    TranslationThrows (fun _ => True) Originates view type where
  pageFault := by
    cases type with
    | FETCH => exact .trap (by decide)
    | LOAD => exact absurd rfl h
    | STORE => exact .trap (by decide)
  pageTableMemory := fun _ _ _ _ _ _ _ => nofun
  privilegeMode := fun _ => nofun

/-- By induction on the depth to which transactions nest. -/
theorem fails_specifiedTransact (view : CoreView) (depth : Nat) (payload : Payload) :
    Fails (specifiedTransact view depth payload) := by
  induction depth generalizing payload with
  | zero => exact .throw fun _ h => ⟨nofun, h⟩
  | succ depth ih =>
    have hpersistent : Persistent (fun _ => True) view := stable_true.persistent
    have hstore : ∀ size addr (value : ConcolicValue (8 * size)), Fails (symbolicStoreData
        (specifiedTransact view depth) view ⟨addr, none⟩ value size) := fun _ _ _ =>
      stays_symbolicStoreData hpersistent ih (translationThrows_originates view (by decide)) _ _ _
    refine .bind (stays_transport hpersistent nofun _) fun outcome =>
      .bind (.forM (stays_serve hpersistent nofun hstore) _) fun _ =>
      .ite (fun _ => .throw fun _ h => ⟨?_, h⟩) fun _ => .keepPure
    cases outcome.payload.command
    · exact .trap (by decide) _
    · exact .trap (by decide) _

/-- A call of the memory interface as `memory` makes it. It does the same with both kinds of
transactions, and the MMU does not refuse it as a load. -/
structure Classified {α : Type} (x : Transact → CoreView → MemM α) : Prop where
  reports : ∀ {ports : List PortMapping} {t u : Transact} (view : CoreView),
    (∀ payload, Reports ports (t payload) (u payload)) → Reports ports (x t view) (x u view)
  fails : ∀ {t : Transact} (view : CoreView), (∀ payload, Fails (t payload)) → Fails (x t view)

theorem classified_loadInstr (addr : BitVec 32) :
    Classified fun transact view => loadInstr transact view addr :=
  ⟨fun _ h => reports_loadInstr h _,
    fun view h =>
      stays_loadInstr (stable_true.reading h) (translationThrows_originates view (by decide)) _⟩

theorem classified_signed (numBytes : Nat) (addr : ConcolicValue 32) : Classified
    fun transact view => Iss.signed (fun transact view => loadSigned transact view numBytes)
      transact view addr :=
  ⟨fun _ h => .bind (reports_loadSigned h _ _) fun _ => .pure _,
    fun view h => .bind (stays_loadSigned (stable_true.reading h)
      (translationThrows_originates view (by decide)) _ _) fun _ => .keepPure⟩

theorem classified_loadUnsigned (numBytes : Nat) (addr : ConcolicValue 32) :
    Classified fun transact view => loadUnsigned transact view numBytes addr :=
  ⟨fun _ h => reports_loadUnsigned h _ _,
    fun view h =>
      stays_loadUnsigned (stable_true.reading h)
        (translationThrows_originates view (by decide)) _ _⟩

theorem classified_symbolicStoreData {w : Nat} (addr : ConcolicValue 32) (data : ConcolicValue w)
    (numBytes : Nat) :
    Classified fun transact view => symbolicStoreData transact view addr data numBytes :=
  ⟨fun _ h => reports_symbolicStoreData h _ _ _,
    fun view h => stays_symbolicStoreData stable_true.persistent h
      (translationThrows_originates view (by decide)) _ _ _⟩

theorem classified_atomicLoadWord (addr : ConcolicValue 32) :
    Classified fun transact view => atomicLoadWord transact view addr :=
  ⟨fun _ h => reports_atomicLoadWord h _,
    fun view h =>
      stays_atomicLoadWord stable_true h (translationThrows_originates view (by decide)) _⟩

theorem classified_atomicStoreWord (addr value : ConcolicValue 32) :
    Classified fun transact view => atomicStoreWord transact view addr value :=
  ⟨fun _ h => reports_atomicStoreWord h _ _,
    fun view h => stays_atomicStoreWord stable_true.persistent h
      (translationThrows_originates view (by decide)) nofun _ _⟩

theorem classified_atomicLoadReservedWord (object : Nat) (addr : ConcolicValue 32) :
    Classified fun transact view => atomicLoadReservedWord transact view object addr :=
  ⟨fun _ h => reports_atomicLoadReservedWord h _ _,
    fun view h => stays_atomicLoadReservedWord stable_true h
      (translationThrows_originates view (by decide)) _ _⟩

theorem classified_atomicStoreConditionalWord (object : Nat) (addr value : ConcolicValue 32) :
    Classified fun transact view => atomicStoreConditionalWord transact view object addr value :=
  ⟨fun _ h => reports_atomicStoreConditionalWord h _ _ _,
    fun view h => stays_atomicStoreConditionalWord stable_true.persistent h
      (translationThrows_originates view (by decide)) _ _ _⟩

end Interface

/-! ## Calls of the memory interface -/

/-- A call of the memory interface, and the state of the core in which it is made. -/
structure MemoryCall where
  state : Iss
  result : Type
  run : Transact → CoreView → MemM result

namespace MemoryCall

/-- How a call fails: by the refusal of a virtual address or by an error of the bus at a physical
one. -/
def fault (c : MemoryCall) : Option (ExceptionCode × BitVec 64) :=
  match Effect.thrown (c.run (specifiedTransact c.state.view c.state.depth) c.state.view
      c.state.io) with
  | some (.trap origin address) => some (origin, address)
  | _ => none

end MemoryCall

namespace Iss

variable {α : Type}

variable {x : Transact → CoreView → MemM α}

/-- A trap that a call of the memory interface raises is raised by the interface. -/
theorem interface_of_memory {s t : Iss}
    {mtval : BitVec 64} (h : memory x s = .error (.trap reason mtval) t) :
    ∃ io, x (Interface.transact s.view s.depth) s.view s.io = .error (.trap reason mtval) io := by
  have hserve : ∀ requests : List CoreRequest, Maintains (fun _ : Iss => True)
      (fun e _ => ∀ reason mtval, e ≠ .trap reason mtval) (requests.forM serve) :=
    .forM (maintains_serve (fun _ _ h => h) (fun _ _ _ h => h) (fun _ _ h => h) (fun _ _ h => h)
      fun _ _ _ h => h)
  cases hx : x (Interface.transact s.view s.depth) s.view s.io with
  | ok a io =>
    rw [memory_of_ok hx] at h
    have hrest : Triple (fun _ => True) (io.requests.forM serve >>= fun _ => pure a : IssM α)
        (fun _ _ => True) (fun e _ => ∀ reason mtval, e ≠ .trap reason mtval) :=
      .bind (hserve _) fun _ => .keepPure
    exact absurd rfl (hrest.of_error trivial h _ _)
  | error e io =>
    rw [memory_of_error hx] at h
    have hrest : Triple (fun _ => True) (io.requests.forM serve >>= fun _ => throw e : IssM α)
        (fun _ _ => True) (fun e' _ => e' = e ∨ ∀ reason mtval, e' ≠ .trap reason mtval) :=
      .bind ((hserve _).exc fun _ _ h => .inr h) fun _ => .throw fun _ _ => .inl rfl
    obtain rfl | hne := hrest.of_error trivial h
    · exact ⟨io, rfl⟩
    · exact absurd rfl (hne _ _)

/-- Where a call of the memory interface raises a trap, and why. -/
theorem fault_of_memory
    (hx : Classified x) {s t : Iss} {mtval : BitVec 64}
    (h : memory x s = .error (.trap reason mtval) t) :
    ∃ origin ∈ origins, ∃ address, MemoryCall.fault ⟨s, α, x⟩ = some (origin, address) ∧
      reported origin = reason ∧
      reportedAddress s.io.bus.ports origin address = mtval := by
  obtain ⟨io, hio⟩ := interface_of_memory h
  have hreports := hx.reports s.view (reports_transact s.io.bus.ports s.view s.depth)
  obtain ⟨e, he, hreported⟩ := hreports.of_error rfl hio
  cases e with
  | trap origin address =>
    obtain ⟨hreason, hmtval⟩ := Exception.trap.inj hreported
    have hfails := (hx.fails s.view (fails_specifiedTransact s.view s.depth)).of_error
      trivial he
    refine ⟨origin, hfails.1 _ _ rfl, address, ?_, hreason, hmtval⟩
    rw [MemoryCall.fault]
    dsimp only
    rw [he]
    rfl
  | _ => cases hreported

/-- The traps of a call of the memory interface. -/
theorem faults_memory
    (hx : Classified x) : Triple (fun _ => True) (memory x) (fun _ _ => True)
      (fun e _ => ∀ reason mtval, e = .trap reason mtval → reason ∈ memoryFaults) := by
  have horigins : ∀ origin ∈ origins, reported origin ∈ memoryFaults := by decide
  intro s _
  cases hr : memory x s with
  | ok a t => trivial
  | error e t =>
    rintro reason mtval rfl
    obtain ⟨origin, horigin, _, _, rfl, _⟩ := fault_of_memory hx hr
    exact horigins origin horigin

end Iss

end SpsVp.Rv32
