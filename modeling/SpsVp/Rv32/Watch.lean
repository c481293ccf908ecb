import SpsVp.Rv32.PageTable

/-!
# What an access leaves alone

`Watched` follows the bus through the accesses of an instruction: they only read, except for the
accessed and dirty bits that the MMU sets in page tables and for the store that an instruction is
about. A device may call back into the core while it serves an access, and then changes registers or
memory itself; nothing is said about the memory after that.
-/

namespace SpsVp.Rv32

open Lib Effect Clover Klee Platform

def Exception.IsTrap (e : Exception) : Prop := ∃ reason mtval, e = .trap reason mtval

namespace Interface

/-- Some target has called back since the bus was `bus₀`, or none has asked for a system call and
the bus has a property. -/
def Watched (bus₀ : SimpleBus) (P : SimpleBus → Prop) (io : Interface) : Prop :=
  SimpleBus.Grows bus₀ io.bus ∧
    (SimpleBus.CalledBack bus₀ io.bus ∨ (CoreRequest.syscall ∉ io.requests ∧ P io.bus))

variable {bus₀ : SimpleBus} {P Q : SimpleBus → Prop} {view : CoreView} {α : Type}

theorem Watched.mono {io : Interface} (h : Watched bus₀ P io) (hPQ : ∀ bus, P bus → Q bus) :
    Watched bus₀ Q io :=
  ⟨h.1, h.2.imp_right fun h => ⟨h.1, hPQ _ h.2⟩⟩

/-- A trap in a state with an assertion. -/
abbrev TrapsWith (I : Interface → Prop) (e : Exception) (io : Interface) : Prop := e.IsTrap → I io

variable {f : Interface → Interface} {E : Exception → Interface → Prop}

theorem watched_modify
    (hbus : ∀ io, (f io).bus = io.bus) (hrequests : ∀ io, (f io).requests = io.requests) :
    Maintains (Watched bus₀ P) E (modify f : MemM PUnit) := by
  refine .modify fun io h => ?_
  unfold Watched at h ⊢
  rw [hbus, hrequests]
  exact h

theorem watched_noteExtension (extension : Option Concolic) :
    Maintains (Watched bus₀ P) E (noteExtension extension) := by
  cases extension with
  | none => exact .keepPure
  | some value => exact watched_modify (fun _ => rfl) fun _ => rfl

theorem watched_getValue {w : Nat} (value : ConcolicValue w) :
    Maintains (Watched bus₀ P) E (getValue value) :=
  .bind (watched_modify (fun _ => rfl) fun _ => rfl) fun _ => .keepPure

theorem stable_calledBack :
    Stable fun io => SimpleBus.Grows bus₀ io.bus ∧ SimpleBus.CalledBack bus₀ io.bus where
  essence := fun h hio => by
    have hbus := congrArg Prod.fst h
    dsimp only [Interface.essence] at hbus
    rwa [hbus]
  transport := fun io payload h =>
    ⟨h.1.trans (SimpleBus.grows_transport io.bus payload),
      h.2.trans (SimpleBus.grows_transport io.bus payload)⟩

/-- Whatever follows a call back, it has been made. -/
theorem watched_of_stays {x : MemM α} {R : α → SimpleBus → Prop}
    (hx : Stays (fun io => SimpleBus.Grows bus₀ io.bus ∧ SimpleBus.CalledBack bus₀ io.bus)
      (fun _ => True) x) (hE : ∀ e io, SimpleBus.Grows bus₀ io.bus →
        SimpleBus.CalledBack bus₀ io.bus → E e io) :
    Triple (fun io => SimpleBus.Grows bus₀ io.bus ∧ SimpleBus.CalledBack bus₀ io.bus) x
      (fun a => Watched bus₀ (R a)) E :=
  hx.conseq (fun _ h => h) (fun _ _ h => ⟨h.1, .inl h.2⟩) fun e io h => hE e io h.2.1 h.2.2

theorem transactionThrows_true (J : Interface → Prop) (view : CoreView) :
    TransactionThrows J (fun _ => True) view :=
  ⟨⟨fun _ => trivial, fun _ _ _ _ _ _ _ => trivial, fun _ => trivial⟩, fun _ _ => trivial, trivial,
    trivial, trivial⟩

/-- What a transaction leaves on the bus. -/
def After (payload : Payload) (P : SimpleBus → Prop) (outcome : Outcome) (bus : SimpleBus) : Prop :=
  ∃ b, P b ∧ bus = (b.transport payload).2 ∧ outcome = (b.transport payload).1

theorem watched_transport (payload : Payload) : Triple (Watched bus₀ P) (transport payload)
    (fun outcome => Watched bus₀ fun bus => After payload P outcome bus ∧
      outcome.requests.any Request.isCallback = false) (TrapsWith fun _ => False) := by
  refine .bind (Q := fun outcome => Watched bus₀ fun bus => After payload P outcome bus ∧
      outcome.requests.any Request.isCallback = false) (.modifyGet fun io h => ?_) fun outcome =>
    .bind (watched_noteExtension _) fun _ => .bind (triple_ensure (fun _ h _ => h)
      fun _ _ _ ⟨_, _, h⟩ => nomatch h) fun _ => .pure fun _ h => h
  have hgrows := SimpleBus.grows_transport io.bus payload
  refine ⟨h.1.trans hgrows, ?_⟩
  obtain hcalled | ⟨hrequests, hP⟩ := h.2
  · exact .inl (hcalled.trans hgrows)
  · by_cases hcallback : (io.bus.transport payload).1.requests.any Request.isCallback = true
    · exact .inl (.of_grows h.1 (SimpleBus.calledBack_of_requests hcallback))
    · exact .inr ⟨hrequests, ⟨io.bus, hP, rfl, rfl⟩, Bool.eq_false_of_not_eq_true hcallback⟩

/-- Requests that do not call back. -/
theorem watched_serve {store : (size : Nat) → BitVec 32 → ConcolicValue (8 * size) → MemM Unit}
    {request : Request} (h : request.isCallback = false) :
    Maintains (Watched bus₀ P) E (serve store request) := by
  have hmodify : ∀ other : CoreRequest, other ≠ .syscall → Maintains (Watched bus₀ P) E
      (modify fun io => { io with requests := io.requests ++ [other] } : MemM Unit) := by
    refine fun other hother => .modify fun io hio => ⟨hio.1, hio.2.imp_right fun h => ⟨?_, h.2⟩⟩
    rw [List.mem_append, List.mem_singleton, not_or]
    exact ⟨h.1, Ne.symm hother⟩
  cases request with
  | makeSymbolic | syscall => cases h
  | _ => exact hmodify _ nofun

/-- A transaction that returns has been made on the bus; one that raises a trap has failed there. -/
theorem watched_transact (depth : Nat) (payload : Payload) :
    Triple (Watched bus₀ P) (transact view depth payload)
      (fun answer => Watched bus₀ fun bus => ∃ outcome, After payload P outcome bus ∧
        answer = outcome.payload)
      (TrapsWith (Watched bus₀ fun bus => ∃ outcome, After payload P outcome bus ∧
        outcome.payload.isResponseError = true)) := by
  cases depth with
  | zero => exact .throw fun _ _ ⟨_, _, h⟩ => nomatch h
  | succ depth =>
    refine .bind ((watched_transport payload).exc fun _ _ h htrap => (h htrap).elim)
      fun outcome => ?_
    rintro io ⟨hgrows, hcalled | ⟨hrequests, hafter, hcallback⟩⟩
    · have hK := transactionThrows_true (fun io => SimpleBus.Grows bus₀ io.bus ∧
        SimpleBus.CalledBack bus₀ io.bus) view
      have hpersistent : Persistent (fun io => SimpleBus.Grows bus₀ io.bus ∧
        SimpleBus.CalledBack bus₀ io.bus) view := stable_calledBack.persistent
      have hstays := stays_serve hpersistent (K := fun _ => True) trivial fun size addr value =>
        stays_symbolicStoreData hpersistent (stays_transact hpersistent hK depth)
          hK.toTranslationThrows ⟨addr, none⟩ value size
      refine watched_of_stays (.bind (.forM hstays _) fun _ => .ite (fun _ => ?_)
        fun _ => .keepPure)
        (fun _ _ hgrows hcalled _ => ⟨hgrows, .inl hcalled⟩) io ⟨hgrows, hcalled⟩
      cases outcome.payload.command <;> exact .throw fun _ h => ⟨trivial, h⟩
    · have hserve : ∀ request ∈ outcome.requests, request.isCallback = false := by
        rw [List.any_eq_false] at hcallback
        exact fun request hmem => Bool.eq_false_of_not_eq_true (hcallback request hmem)
      refine Triple.bind (P := Watched bus₀ (After payload P outcome))
        (.forM_mem fun request hmem => watched_serve (hserve request hmem)) (fun _ => .ite ?_ ?_) io
        ⟨hgrows, .inr ⟨hrequests, hafter⟩⟩
      · intro herror
        cases outcome.payload.command <;>
          exact .throw fun _ h _ => h.mono fun _ h => ⟨outcome, h, herror⟩
      · exact fun _ => .pure fun _ h => h.mono fun _ h => ⟨outcome, h, rfl⟩

/-! ## Translation -/

/-- The table at which a walk starts. -/
def rootTable (view : CoreView) : BitVec 64 := (view.satp.extractLsb' 0 22).setWidth 64 <<< 12

/-- The MMU is in a page table. -/
def InTable (bus₀ : SimpleBus) (view : CoreView) (table : BitVec 64) (bus : SimpleBus) : Prop :=
  ∃ entries, Walks (rootTable view) bus₀ bus table entries

/-- Only entries of page tables have been updated. -/
def Walked (bus₀ : SimpleBus) (view : CoreView) (bus : SimpleBus) : Prop :=
  ∃ table, InTable bus₀ view table bus

/-- What was on the bus when an entry was read. -/
def Entered (P : SimpleBus → Prop) (addr pte : BitVec 64) (bus : SimpleBus) : Prop :=
  ∃ b, P b ∧ bus = (b.transport (entryRead addr)).2 ∧ pte = entryAt b addr

theorem watched_concreteLoadData (depth : Nat) (addr : BitVec 64) :
    Triple (Watched bus₀ P) (concreteLoadData (transact view depth) view addr)
      (fun word => Watched bus₀ (Entered P addr (word.setWidth 64)))
      (TrapsWith (Watched bus₀ fun bus => ∃ pte, Entered P addr pte bus)) := by
  refine .bind (watched_modify (fun _ => rfl) fun _ => rfl) fun _ =>
    .bind ((watched_transact depth _).exc fun _ _ h htrap =>
      (h htrap).mono ?_) fun answer => ?_
  · rintro _ ⟨_, ⟨b, hb, rfl, rfl⟩, _⟩
    exact ⟨_, b, hb, rfl, rfl⟩
  · refine .bind (watched_noteExtension _) fun _ => .pure fun _ h => h.mono ?_
    rintro _ ⟨_, ⟨b, hb, rfl, rfl⟩, rfl⟩
    exact ⟨b, hb, rfl, rfl⟩

/-- An entry of a table that is not used. -/
theorem InTable.read {table pte : BitVec 64} {field : BitVec 64} {bus : SimpleBus}
    (h : Entered (InTable bus₀ view table) (table + field * 4) pte bus) :
    InTable bus₀ view table bus := by
  obtain ⟨b, ⟨entries, hwalks⟩, rfl, _⟩ := h
  exact ⟨entries, .access _ hwalks rfl (.inl rfl)⟩

theorem field_le (x : BitVec 64) : x &&& 0x3ff#64 ≤ 0x3ff#64 := by
  rw [BitVec.le_def, BitVec.toNat_and]
  exact Nat.and_le_right

theorem watched_walkLevels (depth : Nat) (vaddr : BitVec 64) (type : MemoryAccessType)
    (sMode : Bool) (i : Nat) (table : BitVec 64) :
    Triple (Watched bus₀ (InTable bus₀ view table))
      (walkLevels (transact view depth) view vaddr type sMode i table)
      (fun _ => Watched bus₀ (Walked bus₀ view)) (TrapsWith (Watched bus₀ (Walked bus₀ view))) := by
  induction i generalizing table with
  | zero => exact .pure fun _ h => h.mono fun _ h => ⟨table, h⟩
  | succ i ih =>
    unfold walkLevels
    refine .bind .keepGet fun io => .bind (Q := fun _ => Watched bus₀ (InTable bus₀ view table))
      (triple_ensure (fun _ h _ => h) fun _ _ _ => by rintro ⟨_, _, ⟨⟩⟩) fun _ => ?_
    dsimp only
    refine .bind ((watched_concreteLoadData depth _).exc fun _ _ h htrap =>
      (h htrap).mono fun _ h => h.elim fun _ h => ⟨table, .read h⟩) fun word => ?_
    generalize word.setWidth 64 = pte
    have hkeep : ∀ {a : Option (BitVec 64)} {E : Exception → Interface → Prop},
        Triple (Watched bus₀ (Entered (InTable bus₀ view table)
          (table + ((vaddr >>> (12 + i * 10)) &&& 0x3ff#64) * 4) pte)) (pure a : MemM _)
          (fun _ => Watched bus₀ (Walked bus₀ view)) E :=
      .pure fun _ h => h.mono fun _ h => ⟨table, .read h⟩
    refine .ite (fun _ => hkeep) fun hvalid => ?_
    refine .ite (fun hpointer => ?_) fun hleaf => ?_
    · refine (ih _).pre (fun _ h => h.mono ?_)
      rintro _ ⟨b, ⟨entries, hwalks⟩, rfl, rfl⟩
      refine ⟨entries, .descend _ hwalks (field_le _) ?_⟩
      revert hvalid hpointer
      rw [isPointer]
      cases pteFlag _ PTE_V <;> cases pteFlag _ PTE_R <;> cases pteFlag _ PTE_W <;>
        cases pteFlag _ PTE_X <;> decide
    refine .ite (fun _ => hkeep) fun _ => ?_
    refine .ite (fun _ => hkeep) fun _ => ?_
    refine .ite (fun _ => hkeep) fun _ => ?_
    refine .bind .keepGet fun _ => ?_
    refine .ite (fun _ => hkeep) fun _ => ?_
    have hupdate : ∀ bus, (∃ outcome, After (entryWrite (table +
        ((vaddr >>> (12 + i * 10)) &&& 0x3ff#64) * 4) ((pte ||| accessBits type).setWidth 32))
        (Entered (InTable bus₀ view table) (table +
          ((vaddr >>> (12 + i * 10)) &&& 0x3ff#64) * 4) pte) outcome bus) →
            Walked bus₀ view bus := by
      rintro _ ⟨_, _, ⟨b, ⟨entries, hwalks⟩, rfl, rfl⟩, rfl, rfl⟩
      refine ⟨table, _, .update _ type hwalks (field_le _) ?_⟩
      revert hvalid hleaf
      rw [isLeaf]
      cases pteFlag _ PTE_V <;> cases pteFlag _ PTE_R <;> cases pteFlag _ PTE_W <;>
        cases pteFlag _ PTE_X <;> decide
    refine .bind (Q := fun _ => Watched bus₀ (Walked bus₀ view)) ?_ fun _ => .keepPure
    refine .bind (watched_modify (fun _ => rfl) fun _ => rfl) fun _ =>
      .bind ((watched_transact depth _).conseq (fun _ h => h)
        (fun _ _ h => h.mono fun bus h => hupdate bus (h.imp fun _ h => h.1))
        fun _ _ h htrap => (h htrap).mono fun bus h => hupdate bus (h.imp fun _ h => h.1))
      fun _ => watched_modify (fun _ => rfl) fun _ => rfl

/-! ## Loads and stores -/

/-- Only entries of page tables have been updated, unless some target has called back. -/
abbrev Unwritten (bus₀ : SimpleBus) (view : CoreView) : Interface → Prop :=
  Watched bus₀ (Walked bus₀ view)

/-- A computation that writes nothing else. -/
abbrev Reads (bus₀ : SimpleBus) (view : CoreView) (x : MemM α) : Prop :=
  Maintains (Unwritten bus₀ view) (TrapsWith (Unwritten bus₀ view)) x

/-- A computation that has written nothing else where it raises a trap. -/
abbrev Attempts (bus₀ : SimpleBus) (view : CoreView) (x : MemM α) : Prop :=
  Triple (Unwritten bus₀ view) x (fun _ _ => True) (TrapsWith (Unwritten bus₀ view))

theorem reads_modify (hbus : ∀ io, (f io).bus = io.bus)
    (hrequests : ∀ io, (f io).requests = io.requests) :
    Reads bus₀ view (modify f : MemM PUnit) :=
  watched_modify hbus hrequests

theorem reads_walk (depth : Nat) (vaddr : BitVec 64) (type : MemoryAccessType)
    (mode : PrivilegeLevel) :
    Reads bus₀ view (walk (transact view depth) view vaddr type mode) := by
  have hroot : ∀ bus, Walked bus₀ view bus → InTable bus₀ view (rootTable view) bus :=
    fun _ ⟨_, entries, h⟩ => ⟨entries, h.restart⟩
  refine .bind ((watched_walkLevels depth vaddr type _ 2 _).pre (fun _ h => h.mono hroot))
    fun paddr => ?_
  cases paddr with
  | some paddr => exact .keepPure
  | none => cases type <;> exact .throw fun _ h _ => h

theorem reads_v2p (depth : Nat) (vaddr : BitVec 64) (type : MemoryAccessType) :
    Reads bus₀ view (v2p (transact view depth) view vaddr type) := by
  refine .bind .keepGet fun io => ?_
  cases io.mmu with
  | none => exact .keepPure
  | some mmu =>
    refine .ite (fun _ => .keepPure) fun _ => .ite (fun _ => .keepPure) fun _ =>
      .bind (triple_ensure (fun _ h _ => h) fun _ _ _ ⟨_, _, h⟩ => nomatch h) fun _ =>
      .ite (fun _ => .keepPure) fun _ => .bind (reads_walk depth _ _ _) fun _ =>
      .bind (reads_modify (fun _ => rfl) fun _ => rfl) fun _ => .keepPure

/-- A transaction that reads. -/
theorem reads_transact (depth : Nat) {payload : Payload} (hfresh : payload.isResponseError = false)
    (h : payload.command = .read) : Reads bus₀ view (transact view depth payload) := by
  have haccess : ∀ bus outcome, After payload (Walked bus₀ view) outcome bus →
      Walked bus₀ view bus := by
    rintro _ _ ⟨b, ⟨table, entries, hwalks⟩, rfl, rfl⟩
    exact ⟨table, entries, .access payload hwalks hfresh (.inl h)⟩
  exact (watched_transact depth payload).conseq (fun _ h => h)
    (fun _ _ h => h.mono fun bus ⟨outcome, h, _⟩ => haccess bus outcome h)
    fun _ _ h htrap => (h htrap).mono fun bus ⟨outcome, h, _⟩ => haccess bus outcome h

/-- A transaction that may write. -/
theorem attempts_transact (depth : Nat) {payload : Payload}
    (hfresh : payload.isResponseError = false) :
    Attempts bus₀ view (transact view depth payload) := by
  refine (watched_transact depth payload).conseq (fun _ h => h) (fun _ _ _ => trivial)
    fun _ _ h htrap => (h htrap).mono ?_
  rintro _ ⟨_, ⟨b, ⟨table, entries, hwalks⟩, rfl, rfl⟩, herror⟩
  exact ⟨table, entries, .access payload hwalks hfresh (.inr herror)⟩

theorem reads_loadInstr (depth : Nat) (addr : BitVec 32) :
    Reads bus₀ view (loadInstr (transact view depth) view addr) :=
  .bind (reads_v2p depth _ _) fun _ => .bind (reads_modify (fun _ => rfl) fun _ => rfl) fun _ =>
    .bind (reads_transact depth rfl rfl) fun _ => .bind (watched_noteExtension _) fun _ => .keepPure

theorem reads_symbolicLoadData (depth : Nat) (addr : ConcolicValue 32) (numBytes : Nat) :
    Reads bus₀ view (symbolicLoadData (transact view depth) view addr numBytes) :=
  .bind (reads_modify (fun _ => rfl) fun _ => rfl) fun _ => .bind (watched_getValue _) fun _ =>
    .bind (reads_modify (fun _ => rfl) fun _ => rfl) fun _ => .bind (reads_v2p depth _ _) fun _ =>
    .bind (reads_transact depth rfl rfl) fun _ => .keepPure

theorem reads_loadSigned (depth numBytes : Nat) (addr : ConcolicValue 32) :
    Reads bus₀ view (loadSigned (transact view depth) view numBytes addr) :=
  .bind (reads_symbolicLoadData depth _ _) fun _ => .keepPure

theorem reads_loadUnsigned (depth numBytes : Nat) (addr : ConcolicValue 32) :
    Reads bus₀ view (loadUnsigned (transact view depth) view numBytes addr) :=
  .bind (reads_symbolicLoadData depth _ _) fun _ => .keepPure

theorem reads_atomicLoadWord (depth : Nat) (addr : ConcolicValue 32) :
    Reads bus₀ view (atomicLoadWord (transact view depth) view addr) :=
  .bind (reads_modify (fun _ => rfl) fun _ => rfl) fun _ => reads_loadSigned depth _ _

theorem reads_atomicLoadReservedWord (depth object : Nat) (addr : ConcolicValue 32) :
    Reads bus₀ view (atomicLoadReservedWord (transact view depth) view object addr) :=
  .bind (reads_modify (fun _ => rfl) fun _ => rfl) fun _ =>
    .bind (reads_modify (fun _ => rfl) fun _ => rfl) fun _ => reads_loadSigned depth _ _

theorem attempts_symbolicStoreData {w : Nat} (depth : Nat) (addr : ConcolicValue 32)
    (data : ConcolicValue w) (numBytes : Nat) :
    Attempts bus₀ view (symbolicStoreData (transact view depth) view addr data numBytes) :=
  .bind (reads_modify (fun _ => rfl) fun _ => rfl) fun _ => .bind (watched_getValue _) fun _ =>
    .bind (reads_modify (fun _ => rfl) fun _ => rfl) fun _ => .bind (reads_v2p depth _ _) fun _ =>
    .bind (attempts_transact depth rfl) fun _ => .modify fun _ _ => trivial

theorem attempts_atomicStoreWord (depth : Nat) (addr value : ConcolicValue 32) :
    Attempts bus₀ view (atomicStoreWord (transact view depth) view addr value) :=
  .bind .keepGet fun _ => .bind (triple_ensure (fun _ h _ => h) fun _ _ _ ⟨_, _, h⟩ => nomatch h)
    fun _ => attempts_symbolicStoreData depth _ _ _

theorem attempts_atomicStoreConditionalWord (depth object : Nat) (addr value : ConcolicValue 32) :
    Attempts bus₀ view (atomicStoreConditionalWord (transact view depth) view object addr value) :=
  .bind .keepGet fun _ => .ite (fun _ => .ite
    (fun _ => .bind (attempts_symbolicStoreData depth _ _ _) fun _ => .pure fun _ _ => trivial)
    fun _ => .bind (reads_modify (fun _ => rfl) fun _ => rfl) fun _ => .pure fun _ _ => trivial)
    fun _ => .pure fun _ _ => trivial

end Interface

end SpsVp.Rv32
