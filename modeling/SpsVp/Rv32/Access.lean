import SpsVp.Lib.Triple
import SpsVp.Rv32.MemoryInterface

/-!
# What a memory access can do

One pass over the memory interface for every invariant of it. `Stable` says what an invariant `J` of
the bus and the configuration of the MMU has to survive, and `Persistent` what any invariant has to,
besides the lock that an atomic access takes. `Reading` is for invariants that only loads and
fetches keep. `TranslationThrows` and `TransactionThrows` say which exceptions a set `K` has to
contain. Every access then keeps `J`, also where it throws, and throws nothing outside of `K`.
-/

namespace SpsVp.Rv32

open Lib Effect Clover Klee Platform

/-- The page fault of an access. -/
def MemoryAccessType.pageFault : MemoryAccessType → ExceptionCode
  | .FETCH => .EXC_INSTR_PAGE_FAULT
  | .LOAD => .EXC_LOAD_PAGE_FAULT
  | .STORE => .EXC_STORE_AMO_PAGE_FAULT

/-- The page fault that a transaction reports as. -/
def busFault : Command → ExceptionCode
  | .read => .EXC_LOAD_PAGE_FAULT
  | .write => .EXC_STORE_AMO_PAGE_FAULT

/-- An assertion that has been passed. -/
theorem ensure_eq_ok {S : Type} {a : Assertion} {c : Bool} {s s' : S} {u : Unit}
    (h : ensure a c s = .ok u s') : c = true ∧ s' = s := by
  cases c with
  | false => cases h
  | true =>
    cases h
    exact ⟨rfl, rfl⟩

/-- The rule for an assertion. -/
theorem triple_ensure {S : Type} {P : S → Prop} {Q : Unit → S → Prop} {E : Exception → S → Prop}
    {a : Assertion} {c : Bool} (hpass : ∀ s, P s → c = true → Q () s)
    (hfail : ∀ s, P s → c = false → E (.abort a) s) : Triple P (ensure a c) Q E := by
  cases c with
  | false => exact Triple.throw fun s hs => hfail s hs rfl
  | true => exact Triple.pure fun s hs => hpass s hs rfl

namespace Interface

/-- The privilege mode under which an access is translated is one that the MMU knows. -/
def LegalMode (view : CoreView) (type : MemoryAccessType) : Prop :=
  effectiveMode view type = MachineMode ∨ effectiveMode view type = SupervisorMode ∨
    effectiveMode view type = UserMode

/-- An access needs a physical address that is not the virtual one. -/
def Translates (view : CoreView) (type : MemoryAccessType) : Prop :=
  view.satp.getLsbD 31 = true ∧ effectiveMode view type ≠ MachineMode

instance (view : CoreView) (type : MemoryAccessType) : Decidable (Translates view type) :=
  inferInstanceAs (Decidable (_ ∧ _))

/-- The parts of the memory interface that an invariant may be about. -/
def essence (io : Interface) : SimpleBus × Option (Bool × Bool) :=
  (io.bus, io.mmu.map fun mmu => (mmu.connected, mmu.pageFaultOnAD))

/-- An invariant of the bus and the configuration of the MMU that every transaction keeps. -/
structure Stable (J : Interface → Prop) : Prop where
  essence : ∀ {io io' : Interface}, io'.essence = io.essence → J io → J io'
  transport : ∀ (io : Interface) (payload : Payload), J io →
    J { io with bus := (io.bus.transport payload).2 }

/-- An invariant that every access of a core keeps, except that an atomic one may not lock the bus.
An entry of the translation cache is written only by an MMU that can read page tables. -/
structure Persistent (J : Interface → Prop) (view : CoreView) : Prop where
  log : ∀ (io : Interface) log, J io → J { io with log }
  requests : ∀ {io : Interface} requests, J io → J { io with requests }
  wait : ∀ {io : Interface}, J io →
    J { io with busLock := io.busLock.waitForAccessRights view.hartId }
  unlock : ∀ {io : Interface}, J io → J { io with busLock := io.busLock.unlock view.hartId }
  tlb : ∀ {io : Interface} (tlb : Mmu → PrivilegeLevel → MemoryAccessType → BitVec 8 → TlbEntry),
    (∃ io', J io' ∧ io'.mmu.any (·.connected) = true) → J io →
    J { io with mmu := io.mmu.map fun mmu => { mmu with tlb := tlb mmu } }
  transport : ∀ (io : Interface) (payload : Payload), J io →
    J { io with bus := (io.bus.transport payload).2 }

/-- An invariant of the bus and the MMU survives what happens around an access. -/
theorem Stable.persistent {J : Interface → Prop} {view : CoreView} (hJ : Stable J) :
    Persistent J view where
  log := fun _ _ h => hJ.essence (by rfl) h
  requests := fun _ h => hJ.essence (by rfl) h
  wait := fun h => hJ.essence (by rfl) h
  unlock := fun h => hJ.essence (by rfl) h
  tlb := fun _ _ h => hJ.essence (by simp [Interface.essence, Option.map_map, Function.comp_def]) h
  transport := hJ.transport

/-- A set of exceptions with those that the translation of an access may throw, for an invariant
`J`. -/
structure TranslationThrows (J : Interface → Prop) (K : Exception → Prop) (view : CoreView)
    (type : MemoryAccessType) : Prop where
  pageFault : ∀ mtval, K (.trap type.pageFault mtval)
  pageTableMemory : Translates view type → ∀ io io', J io → io.mmu.isSome = true → J io' →
    io'.mmu.any (·.connected) = false → K (.abort .pageTableMemory)
  privilegeMode : ¬ LegalMode view type → K (.abort .privilegeMode)

/-- A set of exceptions with those that a transaction may throw. -/
structure TransactionThrows (J : Interface → Prop) (K : Exception → Prop) (view : CoreView) : Prop
    extends TranslationThrows J K view .STORE where
  busFault : ∀ command mtval, K (.trap (busFault command) mtval)
  target : K (.abort .target)
  symbolicSize : K (.abort .symbolicSize)
  stack : K (.abort .stack)

/-- A computation keeps `J` and throws what is in `K`. -/
abbrev Stays {α : Type} (J : Interface → Prop) (K : Exception → Prop) (x : MemM α) : Prop :=
  Maintains J (fun e io => K e ∧ J io) x

/-- What loads and fetches need of an invariant: their transactions keep it, and so does the update
of a page-table entry, by an MMU that makes such updates. -/
structure Reading (J : Interface → Prop) (K : Exception → Prop) (view : CoreView)
    (transact : Transact) : Prop where
  log : ∀ (io : Interface) log, J io → J { io with log }
  wait : ∀ {io : Interface}, J io →
    J { io with busLock := io.busLock.waitForAccessRights view.hartId }
  tlb : ∀ {io : Interface} (tlb : Mmu → PrivilegeLevel → MemoryAccessType → BitVec 8 → TlbEntry),
    (∃ io', J io' ∧ io'.mmu.any (·.connected) = true) → J io →
    J { io with mmu := io.mmu.map fun mmu => { mmu with tlb := tlb mmu } }
  read : ∀ payload, payload.command = .read → Stays J K (transact payload)
  update : (∃ type, Translates view type) → (∃ io, J io ∧ io.mmu.any (·.connected) = true) →
    ∀ addr value,
    Triple (fun io => J io ∧ io.mmu.any (·.pageFaultOnAD) = false)
      (concreteStoreData transact view addr value) (fun _ => J) (fun e io => K e ∧ J io)

variable {J : Interface → Prop} {K : Exception → Prop} {view : CoreView} {transact : Transact}
  {α : Type}

/-- The invariant holds in the end, whether the computation returns or throws. -/
theorem Stays.final {x : MemM α} {io : Interface} (h : Stays J K x) (hio : J io) :
    J (Effect.final (x io)) :=
  Triple.final (h.exc fun _ _ h => h.2) hio

/-! ## Bookkeeping -/

section

variable (hlog : ∀ (io : Interface) log, J io → J { io with log })
include hlog

/-- A note in the log. -/
theorem stays_note (event : Event) : Stays J K (note event) := .modify fun io h => hlog io _ h

/-- A concolic value is concretised, which is noted in the log. -/
theorem stays_getValue {w : Nat} (value : ConcolicValue w) : Stays J K (getValue value) :=
  .bind (stays_note hlog _) fun _ => .keepPure

/-- A symbolic extension is noted in the log. -/
theorem stays_noteExtension (extension : Option Concolic) :
    Stays J K (noteExtension extension) := by
  cases extension with
  | none => exact .keepPure
  | some value => exact stays_note hlog _

end

/-- The bus is unlocked. -/
theorem stays_atomicUnlock (hJ : Persistent J view) : Stays J K (atomicUnlock view) :=
  .modify fun _ h => hJ.unlock h

/-- Transactions that keep a persistent invariant are all that a read needs. -/
theorem Persistent.reading (hJ : Persistent J view)
    (htransact : ∀ payload, Stays J K (transact payload)) : Reading J K view transact where
  log := hJ.log
  wait := hJ.wait
  tlb := hJ.tlb
  read := fun payload _ => htransact payload
  update := fun _ _ _ _ => .bind (Q := fun _ => J) (.modify fun _ h => hJ.wait h.1) fun _ =>
    .bind (htransact _) fun _ => stays_atomicUnlock hJ

/-- Transactions that keep a stable invariant are all that a read needs. -/
theorem Stable.reading (hJ : Stable J) (htransact : ∀ payload, Stays J K (transact payload)) :
    Reading J K view transact :=
  hJ.persistent.reading htransact

/-! ## Translation -/

section

variable (h : Reading J K view transact)
include h

/-- The core waits until it may use the bus. -/
theorem stays_waitForAccessRights : Stays J K (waitForAccessRights view) :=
  .modify fun _ hio => h.wait hio

/-- A word is read from a physical address. -/
theorem stays_concreteLoadData (addr : BitVec 64) :
    Stays J K (concreteLoadData transact view addr) :=
  .bind (stays_waitForAccessRights h) fun _ => .bind (h.read _ rfl) fun _ =>
    .bind (stays_noteExtension h.log _) fun _ => .keepPure

variable {type : MemoryAccessType}

/-- The walk through the levels of the page table, which is found to be connected if it gives an
address. -/
theorem stays_walkLevels (hK : TranslationThrows J K view type)
    (htranslates : Translates view type) (hmmu : ∃ io, J io ∧ io.mmu.isSome = true)
    (vaddr : BitVec 64) (sMode : Bool) (i : Nat) (base : BitVec 64) :
    Triple J (walkLevels transact view vaddr type sMode i base)
      (fun paddr io => J io ∧ (paddr.isSome = true →
        ∃ io', J io' ∧ io'.mmu.any (·.connected) = true)) (fun e io => K e ∧ J io) := by
  induction i generalizing base with
  | zero => exact .pure fun _ hio => ⟨hio, nofun⟩
  | succ i ih =>
    unfold walkLevels
    refine .getBind fun io hio => ?_
    cases hconnected : io.mmu.any (·.connected) with
    | false =>
      obtain ⟨io', hio', hsome⟩ := hmmu
      refine .bind (Q := fun _ _ => False) (.throw fun t ht => ht ▸ ⟨?_, hio⟩)
        fun _ _ hfalse => hfalse.elim
      exact hK.pageTableMemory htranslates io' _ hio' hsome hio hconnected
    | true =>
      have hreader : ∃ io', J io' ∧ io'.mmu.any (·.connected) = true := ⟨io, hio, hconnected⟩
      have hnone : Triple J (pure none : MemM (Option (BitVec 64)))
          (fun paddr io => J io ∧ (paddr.isSome = true →
            ∃ io', J io' ∧ io'.mmu.any (·.connected) = true)) (fun e io => K e ∧ J io) :=
        .pure fun _ hio => ⟨hio, nofun⟩
      refine .bind (Q := fun _ => J) (.pure fun t ht => ht ▸ hio) fun _ => ?_
      refine .bind (stays_concreteLoadData h _) fun pte => ?_
      refine .ite (fun _ => hnone) fun _ => ?_
      refine .ite (fun _ => ih _) fun _ => ?_
      refine .ite (fun _ => hnone) fun _ => ?_
      refine .ite (fun _ => hnone) fun _ => ?_
      refine .ite (fun _ => .pure fun _ hio => ⟨hio, fun _ => hreader⟩) fun _ => ?_
      refine .getBind fun u hu => ?_
      cases hfault : u.mmu.any (·.pageFaultOnAD) with
      | true => exact .pure fun t ht => ht ▸ ⟨hu, nofun⟩
      | false =>
        refine .bind (Q := fun _ => J) ((h.update ⟨_, htranslates⟩ hreader _ _).conseq
          (fun t ht => ht ▸ ⟨hu, hfault⟩) (fun _ _ hio => hio) fun _ _ hio => hio) fun _ => ?_
        exact .pure fun _ hio => ⟨hio, fun _ => hreader⟩

/-- The walk gives an address or a page fault. -/
theorem stays_walk (hK : TranslationThrows J K view type)
    (htranslates : Translates view type) (hmmu : ∃ io, J io ∧ io.mmu.isSome = true)
    (vaddr : BitVec 64) (mode : PrivilegeLevel) :
    Triple J (walk transact view vaddr type mode)
      (fun _ io => J io ∧ ∃ io', J io' ∧ io'.mmu.any (·.connected) = true)
      (fun e io => K e ∧ J io) := by
  refine .bind (stays_walkLevels h hK htranslates hmmu vaddr _ 2 _) fun paddr => ?_
  cases paddr with
  | some paddr => exact .pure fun _ hio => ⟨hio.1, hio.2 rfl⟩
  | none =>
    have hfault := hK.pageFault vaddr
    cases type <;> exact .throw fun _ hio => ⟨hfault, hio.1⟩

/-- A translation walks through the page table just if the TLB has no entry. -/
theorem stays_translateVirtualToPhysicalAddr
    (hK : TranslationThrows J K view type) (hmmu : ∃ io, J io ∧ io.mmu.isSome = true) (mmu : Mmu)
    (vaddr : BitVec 64) :
    Stays J K (translateVirtualToPhysicalAddr transact view mmu vaddr type) := by
  refine .ite (fun _ => .keepPure) fun hpaging => ?_
  refine .ite (fun _ => .keepPure) fun hmachine => ?_
  refine .bind (Q := fun _ => J) ?_ fun _ => ?_
  · refine triple_ensure (fun _ h _ => h) fun io h hmode => ⟨hK.privilegeMode ?_, h⟩
    rintro (hm | hs | hu)
    · exact hmachine hm
    · simp [hs] at hmode
    · simp [hu] at hmode
  refine .ite (fun _ => .keepPure) fun _ => ?_
  refine .bind (stays_walk h hK ⟨Bool.eq_true_of_not_eq_false hpaging, hmachine⟩ hmmu vaddr _)
    fun _ => ?_
  exact .bind (Q := fun _ => J) (.modify fun _ hio => h.tlb _ hio.2 hio.1) fun _ => .keepPure

/-- An address is translated, if there is an MMU. -/
theorem stays_v2p (hK : TranslationThrows J K view type)
    (vaddr : BitVec 64) : Stays J K (v2p transact view vaddr type) := by
  refine .getBind fun io hio => ?_
  cases hmmu : io.mmu with
  | none => exact .pure fun _ h => h ▸ hio
  | some mmu =>
    have hsome : ∃ io, J io ∧ io.mmu.isSome = true := ⟨io, hio, by rw [hmmu]; rfl⟩
    exact (stays_translateVirtualToPhysicalAddr h hK hsome mmu vaddr).pre (fun _ h => h ▸ hio)

/-! ## Loads and stores -/

/-- An instruction is fetched. -/
theorem stays_loadInstr (hK : TranslationThrows J K view .FETCH) (addr : BitVec 32) :
    Stays J K (loadInstr transact view addr) :=
  .bind (stays_v2p h hK _) fun _ => stays_concreteLoadData h _

section

variable (hK : TranslationThrows J K view .STORE)
include hK

/-- A load translates its address and makes a transaction. -/
theorem stays_symbolicLoadData (addr : ConcolicValue 32) (numBytes : Nat) :
    Stays J K (symbolicLoadData transact view addr numBytes) :=
  .bind (stays_waitForAccessRights h) fun _ => .bind (stays_getValue h.log _) fun _ =>
    .bind (stays_note h.log _) fun _ => .bind (stays_v2p h hK _) fun _ =>
    .bind (h.read _ rfl) fun _ => .keepPure

/-- A load with sign extension. -/
theorem stays_loadSigned (numBytes : Nat) (addr : ConcolicValue 32) :
    Stays J K (loadSigned transact view numBytes addr) :=
  .bind (stays_symbolicLoadData h hK _ _) fun _ => .keepPure

/-- A load with zero extension. -/
theorem stays_loadUnsigned (numBytes : Nat) (addr : ConcolicValue 32) :
    Stays J K (loadUnsigned transact view numBytes addr) :=
  .bind (stays_symbolicLoadData h hK _ _) fun _ => .keepPure

end

end

section

variable (hJ : Persistent J view) (htransact : ∀ payload, Stays J K (transact payload))
  (hK : TranslationThrows J K view .STORE)
include hJ htransact hK

/-- A store translates its address, makes a transaction and unlocks the bus. -/
theorem stays_symbolicStoreData {w : Nat} (addr : ConcolicValue 32) (data : ConcolicValue w)
    (numBytes : Nat) : Stays J K (symbolicStoreData transact view addr data numBytes) :=
  .bind (stays_waitForAccessRights (hJ.reading htransact)) fun _ =>
    .bind (stays_getValue hJ.log _) fun _ => .bind (stays_note hJ.log _) fun _ =>
    .bind (stays_v2p (hJ.reading htransact) hK _) fun _ => .bind (htransact _) fun _ =>
    stays_atomicUnlock hJ

/-- The store of an atomic operation, which asserts that the bus is locked. -/
theorem stays_atomicStoreWord (hlock : K (.abort .busLock)) (addr value : ConcolicValue 32) :
    Stays J K (atomicStoreWord transact view addr value) := by
  refine .bind .keepGet fun io => ?_
  exact .bind (triple_ensure (fun _ h _ => h) fun _ h _ => ⟨hlock, h⟩) fun _ =>
    stays_symbolicStoreData hJ htransact hK _ _ _

/-- The store of `SC.W`, which is made only under the reservation of its address. -/
theorem stays_atomicStoreConditionalWord (object : Nat) (addr value : ConcolicValue 32) :
    Stays J K (atomicStoreConditionalWord transact view object addr value) := by
  refine .bind .keepGet fun io => ?_
  refine .ite (fun _ => .ite (fun _ => ?_) fun _ => ?_) fun _ => .keepPure
  · exact .bind (stays_symbolicStoreData hJ htransact hK _ _ _) fun _ => .keepPure
  · exact .bind (stays_atomicUnlock hJ) fun _ => .keepPure

end

/-- The bus is locked. -/
theorem stays_lock (hJ : Stable J) : Stays J K (lock view) :=
  .modify fun _ h => hJ.essence (by rfl) h

section

variable (hJ : Stable J) (htransact : ∀ payload, Stays J K (transact payload))
  (hK : TranslationThrows J K view .STORE)
include hJ htransact hK

/-- The load of an atomic operation locks the bus first. -/
theorem stays_atomicLoadWord (addr : ConcolicValue 32) :
    Stays J K (atomicLoadWord transact view addr) :=
  .bind (stays_lock hJ) fun _ => stays_loadSigned (hJ.reading htransact) hK _ _

/-- The load of `LR.W` locks the bus and keeps the address. -/
theorem stays_atomicLoadReservedWord (object : Nat) (addr : ConcolicValue 32) :
    Stays J K (atomicLoadReservedWord transact view object addr) :=
  .bind (stays_lock hJ) fun _ => .bind (.modify fun _ h => hJ.essence (by rfl) h) fun _ =>
    stays_loadSigned (hJ.reading htransact) hK _ _

end

/-! ## Transactions -/

/-- The bus hands a transaction to its target. -/
theorem stays_transport (hJ : Persistent J view) (htarget : K (.abort .target))
    (payload : Payload) :
    Stays J K (transport payload) :=
  .bind (.modifyGet fun io h => hJ.transport io payload h) fun _ =>
    .bind (stays_noteExtension hJ.log _) fun _ =>
    .bind (triple_ensure (fun _ h _ => h) fun _ h _ => ⟨htarget, h⟩) fun _ => .keepPure

variable {store : (size : Nat) → BitVec 32 → ConcolicValue (8 * size) → MemM Unit}

/-- A device asks for a store while it serves an access. -/
theorem stays_serve (hJ : Persistent J view) (hsize : K (.abort .symbolicSize))
    (hstore : ∀ size addr value, Stays J K (store size addr value)) (request : Request) :
    Stays J K (serve store request) := by
  cases request with
  | makeSymbolic addr size value =>
    exact .ite (fun _ => .throw fun _ h => ⟨hsize, h⟩) fun _ => hstore _ _ _
  | _ => exact .modify fun _ h => hJ.requests _ h

/-- A transaction, with what the devices ask for meanwhile. -/
theorem stays_doTransaction (hJ : Persistent J view) (hK : TransactionThrows J K view)
    (hstore : ∀ size addr value, Stays J K (store size addr value)) (payload : Payload) :
    Stays J K (doTransaction store payload) := by
  refine .bind (stays_transport hJ hK.target _) fun outcome =>
    .bind (.forM (stays_serve hJ hK.symbolicSize hstore) _) fun _ =>
    .ite (fun _ => ?_) fun _ => .keepPure
  have hfault := fun mtval => hK.busFault outcome.payload.command mtval
  cases hc : outcome.payload.command with
  | read | write =>
    rw [hc] at hfault
    exact .throw fun _ h => ⟨hfault _, h⟩

/-- Transactions that are nested to any depth. -/
theorem stays_transact (hJ : Persistent J view) (hK : TransactionThrows J K view) (depth : Nat)
    (payload : Payload) : Stays J K (Interface.transact view depth payload) := by
  induction depth generalizing payload with
  | zero => exact .throw fun _ h => ⟨hK.stack, h⟩
  | succ depth ih =>
    exact stays_doTransaction hJ hK
      (fun _ _ _ => stays_symbolicStoreData hJ ih hK.toTranslationThrows _ _ _) payload

end Interface

end SpsVp.Rv32
