import SpsVp.Rv32.Arithmetic
import SpsVp.Rv32.Keep
import SpsVp.Rv32.Precise

/-!
# Load reserved and store conditional

A hart has a reservation for an address from an `LR.W` on, for as long as it holds the lock of the
bus. The memory interface does not know the address, but the object that held it. `Reserved` follows
the reservation through a run, and a store conditional agrees with it just if the register of its
address still refers to the object of the reservation whenever it has the reserved address.
-/

namespace SpsVp.Rv32

open Lib Effect Clover Klee Platform Interface Function

namespace Interface

/-! ## Accesses that do not lock the bus -/

/-- The lock of the bus may have been given up, and the object of the reservation is the same. -/
structure Releases (io₀ io : Interface) : Prop where
  lock : ∀ hart, io.busLock.isLocked hart = true → io₀.busLock.isLocked hart = true
  lrAddr : io.lrAddr = io₀.lrAddr

theorem Releases.refl (io : Interface) : Releases io io := ⟨fun _ h => h, rfl⟩

theorem Releases.trans {io io' io'' : Interface} (h : Releases io io') (h' : Releases io' io'') :
    Releases io io'' :=
  ⟨fun hart hlock => h.lock hart (h'.lock hart hlock), h'.lrAddr.trans h.lrAddr⟩

theorem persistent_releases (io₀ : Interface) (view : CoreView) :
    Persistent (Releases io₀) view where
  log := fun _ _ h => ⟨h.lock, h.lrAddr⟩
  requests := fun _ h => ⟨h.lock, h.lrAddr⟩
  wait := fun h => ⟨fun hart hlock => h.lock hart (BusLock.isLocked_of_waitForAccessRights hlock),
    h.lrAddr⟩
  unlock := fun h => ⟨fun hart hlock => h.lock hart (BusLock.isLocked_of_unlock hlock), h.lrAddr⟩
  tlb := fun _ _ h => ⟨h.lock, h.lrAddr⟩
  transport := fun _ _ h => ⟨h.lock, h.lrAddr⟩

theorem persistent_lrAddr (object : Option Nat) (view : CoreView) :
    Persistent (fun io => io.lrAddr = object) view where
  log := fun _ _ h => h
  requests := fun _ h => h
  wait := fun h => h
  unlock := fun h => h
  tlb := fun _ _ h => h
  transport := fun _ _ h => h

/-- A store gives up the lock. -/
theorem unlocked_symbolicStoreData {transact : Transact} {view : CoreView} {w : Nat}
    (addr : ConcolicValue 32) (data : ConcolicValue w) (numBytes : Nat) :
    Triple (fun _ => True) (symbolicStoreData transact view addr data numBytes)
      (fun _ io => io.busLock.isLocked view.hartId = false) (fun _ _ => True) :=
  .bind .top fun _ => .bind .top fun _ => .bind .top fun _ => .bind .top fun _ =>
    .bind .top fun _ =>
    .modify fun _ _ => BusLock.isLocked_unlock _ _

theorem unlocked_atomicStoreWord {transact : Transact} {view : CoreView}
    (addr value : ConcolicValue 32) :
    Triple (fun _ => True) (atomicStoreWord transact view addr value)
      (fun _ io => io.busLock.isLocked view.hartId = false) (fun _ _ => True) :=
  .bind .top fun _ => .bind .top fun _ => unlocked_symbolicStoreData _ _ _

/-- The object of the reservation is the one of its address. -/
theorem lrAddr_atomicLoadReservedWord (view : CoreView) (depth object : Nat)
    (addr : ConcolicValue 32) :
    Triple (fun _ => True) (atomicLoadReservedWord (transact view depth) view object addr)
      (fun _ io => io.lrAddr = some object) (fun _ _ => True) := by
  have hpersistent := persistent_lrAddr (some object) view
  have hthrows := transactionThrows_true (fun io => io.lrAddr = some object) view
  have hload := stays_loadSigned (hpersistent.reading (stays_transact hpersistent hthrows depth))
    hthrows.1 4 addr
  exact .bind .top fun _ =>
    .bind (Q := fun _ io => io.lrAddr = some object) (.modify fun _ _ => rfl)
    fun _ => hload.returning

end Interface

namespace Iss

variable {s₀ s d e t u s' : Iss} {r : Option (BitVec 32)} {α : Type}

/-- The hart holds the lock of the bus. -/
def holdsLock (s : Iss) : Bool := s.io.busLock.isLocked (s.csrs .mhartid)

/-! ## Objects -/

/-- Every register refers to an object that exists, and an object has one value. -/
structure Tidy (regs : BitVec 5 → RegValue) (nextObject : Nat) : Prop where
  lt : ∀ i, (regs i).object < nextObject
  shared : ∀ i j, (regs i).object = (regs j).object → (regs i).value = (regs j).value

/-- An object exists and has a given number in it. -/
structure Names (object : Nat) (addr : BitVec 32) (regs : BitVec 5 → RegValue) (nextObject : Nat) :
    Prop where
  lt : object < nextObject
  value : ∀ i, (regs i).object = object → (regs i).value.concrete = addr

section

variable {regs : BitVec 5 → RegValue} {next object : Nat} {addr : BitVec 32}

theorem Tidy.assign (h : Tidy regs next) (index : BitVec 5) (value : ConcolicValue 32) :
    Tidy (Function.update regs index ⟨next, value⟩) (next + 1) := by
  have hlt := h.lt
  refine ⟨fun i => ?_, fun i j hij => ?_⟩
  · by_cases hi : i = index
    · rw [hi, update_self]
      exact Nat.lt_succ_self next
    · rw [update_of_ne hi]
      exact Nat.lt_succ_of_lt (hlt i)
  · by_cases hi : i = index <;> by_cases hj : j = index
    · rw [hi, hj]
    · rw [hi, update_self, update_of_ne hj] at hij
      exact absurd hij.symm (hlt j).ne
    · rw [hj, update_self, update_of_ne hi] at hij
      exact absurd hij (hlt i).ne
    · rw [update_of_ne hi, update_of_ne hj] at hij ⊢
      exact h.shared i j hij

theorem Names.assign (h : Names object addr regs next) (index : BitVec 5)
    (value : ConcolicValue 32) :
    Names object addr (Function.update regs index ⟨next, value⟩) (next + 1) := by
  refine ⟨Nat.lt_succ_of_lt h.lt, fun i hi => ?_⟩
  by_cases hindex : i = index
  · rw [hindex, update_self] at hi
    exact absurd hi.symm h.lt.ne
  · rw [update_of_ne hindex] at hi ⊢
    exact h.value i hi

theorem update_eq (regs : BitVec 5 → RegValue) (index source i : BitVec 5) :
    ∃ j, Function.update regs index (regs source) i = regs j := by
  by_cases h : i = index
  · exact ⟨source, by rw [h, update_self]⟩
  · exact ⟨i, update_of_ne h _ _⟩

theorem Tidy.copy (h : Tidy regs next) (index source : BitVec 5) :
    Tidy (Function.update regs index (regs source)) next := by
  refine ⟨fun i => ?_, fun i j hij => ?_⟩
  · obtain ⟨k, hk⟩ := update_eq regs index source i
    rw [hk]
    exact h.lt k
  · obtain ⟨k, hk⟩ := update_eq regs index source i
    obtain ⟨l, hl⟩ := update_eq regs index source j
    rw [hk, hl] at hij ⊢
    exact h.shared k l hij

theorem Names.copy (h : Names object addr regs next) (index source : BitVec 5) :
    Names object addr (Function.update regs index (regs source)) next := by
  refine ⟨h.lt, fun i hi => ?_⟩
  obtain ⟨j, hj⟩ := update_eq regs index source i
  rw [hj] at hi ⊢
  exact h.value j hi

end

/-- The hart is the same, no request is open, and objects have kept their values. -/
structure Carries (s₀ s : Iss) : Prop where
  hart : s.csrs .mhartid = s₀.csrs .mhartid
  requests : s.io.requests = []
  tidy : Tidy s.regs s.nextObject
  names : ∀ object addr, Names object addr s₀.regs s₀.nextObject →
    Names object addr s.regs s.nextObject

theorem lasting_carries : Lasting (Carries s₀) where
  control := fun _ _ hc h => ⟨hc.hart.trans h.hart, h.requests, h.tidy, h.names⟩
  assign := fun _ _ _ h => ⟨h.hart, h.requests, h.tidy.assign _ _,
    fun o a ho => (h.names o a ho).assign _ _⟩
  copy := fun _ _ _ h =>
    ⟨h.hart, h.requests, h.tidy.copy _ _, fun o a ho => (h.names o a ho).copy _ _⟩
  log := fun _ _ h => ⟨h.hart, h.requests, h.tidy, h.names⟩
  handler := fun _ _ h => ⟨h.hart, h.requests, h.tidy, h.names⟩
  counter := fun _ _ h => ⟨h.hart, h.requests, h.tidy, h.names⟩
  unlock := fun _ h => ⟨h.hart, h.requests, h.tidy, h.names⟩

theorem carries_memory (x : Transact → CoreView → MemM α) :
    Keeps (Carries s₀) (memory x) :=
  keeps_memory lasting_carries.toKept fun _ h => ⟨h.hart, rfl, h.tidy, h.names⟩

theorem carries_execute (op : Mapping) : Keeps (Carries s₀) (execute op) :=
  keeps_execute_of_memory lasting_carries carries_memory op

theorem carries_coverInstr : Keeps (Carries s₀) (control coverInstr) :=
  keeps_coverInstr fun _ _ h => ⟨h.hart, h.requests, h.tidy, h.names⟩

theorem carries_runStep : Keeps (Carries s₀) runStep :=
  keeps_runStep lasting_carries (fun _ => carries_memory _) carries_coverInstr carries_execute

/-! ## The lock of the bus -/

theorem lasting_releases (io₀ : Interface) : Lasting fun s => Releases io₀ s.io where
  control := fun _ _ _ h => h
  assign := fun _ _ _ h => h
  copy := fun _ _ _ h => h
  log := fun _ _ h => ⟨h.lock, h.lrAddr⟩
  handler := fun _ _ h => h
  counter := fun _ _ h => h
  unlock := fun _ h => ⟨fun hart hlock => h.lock hart (BusLock.isLocked_of_unlock hlock), h.lrAddr⟩

section

variable {I : Iss → Prop} (hI : Kept I)
  (hreleases : ∀ s io, I s → Releases s.io io → I { s with io })
include hI hreleases

/-- A call of the memory interface that does not lock the bus keeps an invariant that survives the
loss of the lock. -/
theorem keeps_memory_of_releases {x : Transact → CoreView → MemM α}
    (hx : ∀ io₀ view depth, Stays (Releases io₀) (fun _ => True)
      (x (Interface.transact view depth) view)) : Keeps I (memory x) := by
  refine keeps_memory hI fun s hs => hreleases s _ hs ?_
  have hio := (hx s.io s.view s.depth).final (.refl _)
  exact ⟨hio.lock, hio.lrAddr⟩

theorem unlocking_of_releases : Unlocking I := by
  have hpersistent := fun io₀ view => persistent_releases io₀ view
  have hthrows := fun io₀ view => transactionThrows_true (Releases io₀) view
  have htransact := fun io₀ view depth =>
    stays_transact (hpersistent io₀ view) (hthrows io₀ view) depth
  have hreading := fun io₀ view depth => (hpersistent io₀ view).reading (htransact io₀ view depth)
  have hmemory := fun {α : Type} {x : Transact → CoreView → MemM α} =>
    keeps_memory_of_releases (α := α) hI hreleases (x := x)
  exact {
    fetch := fun addr => hmemory fun io₀ view depth => stays_loadInstr
      (hreading io₀ view depth) ⟨fun _ => trivial, fun _ _ _ _ _ _ _ => trivial, fun _ => trivial⟩ _
    signed := fun numBytes addr => hmemory fun io₀ view depth =>
      .bind (stays_loadSigned (hreading io₀ view depth) (hthrows io₀ view).1 _ _) fun _ =>
        .keepPure
    unsigned := fun numBytes addr => hmemory fun io₀ view depth =>
      stays_loadUnsigned (hreading io₀ view depth) (hthrows io₀ view).1 _ _
    store := fun numBytes addr value => hmemory fun io₀ view depth =>
      stays_symbolicStoreData (hpersistent io₀ view) (htransact io₀ view depth)
        (hthrows io₀ view).1 _ _ _
    conditional := fun object addr value => hmemory fun io₀ view depth =>
      stays_atomicStoreConditionalWord (hpersistent io₀ view) (htransact io₀ view depth)
        (hthrows io₀ view).1 _ _ _ }

end

theorem unlocking_releases (io₀ : Interface) : Unlocking fun s => Releases io₀ s.io :=
  unlocking_of_releases (lasting_releases io₀).toKept fun _ _ h h' => h.trans h'

theorem releases_execute {io₀ : Interface} {op : Mapping} (hop : op ∉ .LR_W :: amos) :
    Keeps (fun s => Releases io₀ s.io) (execute op) :=
  keeps_execute_of_unlocking (lasting_releases io₀) (unlocking_releases io₀) hop

/-- A hart does not hold the lock. -/
def Unlocked (hart : BitVec 32) (s : Iss) : Prop :=
  s.csrs .mhartid = hart ∧ s.io.busLock.isLocked hart = false

variable {hart : BitVec 32}

theorem Unlocked.holdsLock (h : Unlocked hart s) : s.holdsLock = false := by
  rw [Iss.holdsLock, h.1]
  exact h.2

theorem lasting_unlocked (hart : BitVec 32) : Lasting (Unlocked hart) where
  control := fun _ _ hc h => ⟨hc.hart.trans h.1, h.2⟩
  assign := fun _ _ _ h => h
  copy := fun _ _ _ h => h
  log := fun _ _ h => h
  handler := fun _ _ h => h
  counter := fun _ _ h => h
  unlock := fun _ h => ⟨h.1, Bool.eq_false_of_not_eq_true fun hlock =>
    Bool.false_ne_true (h.2.symm.trans (BusLock.isLocked_of_unlock hlock))⟩

theorem lasting_hart (hart : BitVec 32) : Lasting fun s => s.csrs .mhartid = hart where
  control := fun _ _ hc h => hc.hart.trans h
  assign := fun _ _ _ h => h
  copy := fun _ _ _ h => h
  log := fun _ _ h => h
  handler := fun _ _ h => h
  counter := fun _ _ h => h
  unlock := fun _ h => h

/-- The entry into a trap handler gives up the lock. -/
theorem unlocked_switchToTrapHandler (mode : PrivilegeLevel) :
    Triple (fun s => s.csrs .mhartid = hart) (switchToTrapHandler mode)
      (fun _ => Unlocked hart) (fun _ => Unlocked hart) := by
  refine .bind (Q := fun _ => Unlocked hart) ?_ fun _ =>
    keeps_control (lasting_unlocked hart).toKept (Control.sparing_switchToTrapHandler mode)
  rintro s rfl
  exact ⟨rfl, BusLock.isLocked_unlock _ _⟩

/-- An atomic memory operation that returns has given up the lock. -/
theorem unlocked_executeAmo (f : ConcolicValue 32 → ConcolicValue 32 → ConcolicValue 32) :
    Triple (fun s => s.csrs .mhartid = hart) (executeAmo f)
      (fun _ => Unlocked hart) (fun _ _ => True) := by
  have hkept := (lasting_hart hart).toKept
  have hstore : ∀ addr value, Triple (fun s => s.csrs .mhartid = hart)
      (memory fun transact view => atomicStoreWord transact view addr value)
      (fun _ => Unlocked hart) (fun _ _ => True) := fun addr value =>
    triple_memory_ok (lasting_unlocked hart).toKept fun s a io hs hr =>
      ⟨hs, hs ▸ (unlocked_atomicStoreWord addr value).of_ok trivial hr⟩
  have hload : ∀ addr, Keeps (fun s => s.csrs .mhartid = hart)
      (memory fun transact view => atomicLoadWord transact view addr) :=
    fun _ => keeps_memory hkept fun _ h => h
  exact (framed_returning hkept).executeAmo (fun _ _ h => h)
    (fun addr => (hload addr).returning) hstore
    (fun _ => (keeps_writeRd (lasting_unlocked hart).toKept _).returning) f

/-- A load reserved that returns has reserved the object of its address. -/
theorem lrAddr_lrW {object : Nat} :
    Triple (fun s => (s.regs s.instr.rs1).object = object) lrW
      (fun _ s => s.io.lrAddr = some object) (fun _ _ => True) := by
  have hkept : Kept fun s => s.io.lrAddr = some object :=
    ⟨fun _ _ _ h => h, fun _ _ _ h => h, fun _ _ _ h => h, fun _ _ h => h, fun _ _ h => h⟩
  refine .bind (Q := fun _ s => (s.regs s.instr.rs1).object = object) (fun s hs => ?_) fun _ => ?_
  · rw [control_requireIsa]
    split_ifs
    · exact hs
    · trivial
  refine .bind (Q := fun addr (_ : Iss) => addr.object = object ∧ True) (fun _ h => ⟨h, trivial⟩)
    fun addr => .assume fun hobject => ?_
  subst hobject
  refine .bind .top fun _ => .bind (Q := fun _ (s : Iss) => s.io.lrAddr = some addr.object)
    (triple_memory_ok hkept fun t a io _ hr => ?_) fun _ =>
    .bind (keeps_writeRd hkept _).returning fun _ => .modify fun _ h => h
  have hlrAddr : io.lrAddr = some addr.object :=
    (lrAddr_atomicLoadReservedWord _ _ _ _).of_ok trivial hr
  exact hlrAddr

/-! ## The reservation in a run -/

/-- The state in which the instruction of a step is executed, if it completes. -/
def completed (s : Iss) : Option Iss :=
  if s.debugMode = true ∧ s.pc ∈ s.breakpoints then none
  else
    match prepare s.begun with
    | .error _ _ => none
    | .ok _ d =>
      match execute d.op d with
      | .error _ _ => none
      | .ok _ _ => some d

/-- The reservation of a hart after a step: the address of the `LR.W` that made it, as long as the
hart holds the lock. -/
def nextReservation (r : Option (BitVec 32)) (s s' : Iss) : Option (BitVec 32) :=
  if s'.holdsLock then
    match s.completed with
    | none => r
    | some d => if d.op = .LR_W then some (d.regs d.instr.rs1).value.concrete else r
  else none

/-- The reservation of a hart in a run that starts without the lock. -/
inductive Reserved : Iss → Option (BitVec 32) → Prop where
  | start {s : Iss} (hlock : s.holdsLock = false) (hrequests : s.io.requests = [])
      (htidy : Tidy s.regs s.nextObject) : Reserved s none
  | step {s s' : Iss} {r : Option (BitVec 32)} (h : Reserved s r) (hrun : runStep s = .ok () s') :
      Reserved s' (nextReservation r s s')

/-- The memory interface has the object of the reserved address. -/
structure Reserves (r : Option (BitVec 32)) (s : Iss) : Prop where
  requests : s.io.requests = []
  tidy : Tidy s.regs s.nextObject
  held : s.holdsLock = true → ∃ object addr, s.io.lrAddr = some object ∧ r = some addr ∧
    Names object addr s.regs s.nextObject

theorem Reserves.carries (h : Reserves r s) : Carries s s :=
  ⟨rfl, h.requests, h.tidy, fun _ _ h => h⟩

theorem Reserves.of_releases (h : Reserves r s) (hcarries : Carries s t)
    (hreleases : Releases s.io t.io) : Reserves r t := by
  refine ⟨hcarries.requests, hcarries.tidy, fun hlock => ?_⟩
  rw [holdsLock, hcarries.hart] at hlock
  obtain ⟨object, addr, hlrAddr, hr, hnames⟩ := h.held (hreleases.lock _ hlock)
  exact ⟨object, addr, hreleases.lrAddr.trans hlrAddr, hr, hcarries.names _ _ hnames⟩

theorem reserves_begun (h : Reserves r s) : Reserves r s.begun := ⟨h.requests, h.tidy, h.held⟩

theorem reserves_prepare (h : Reserves r s) (hd : prepare s = .ok () d) : Reserves r d :=
  h.of_releases
    ((keeps_prepare lasting_carries.toKept (fun _ => carries_memory _) carries_coverInstr).of_ok
      h.carries hd)
    ((keeps_prepare (lasting_releases s.io).toKept (unlocking_releases s.io).fetch
      (keeps_coverInstr fun _ _ h => h)).of_ok (.refl _) hd)

/-- What a completed instruction does to the reservation. -/
theorem reserves_execute (h : Reserves r d) (he : execute d.op d = .ok () e) :
    Reserves (if d.op = .LR_W then some (d.regs d.instr.rs1).value.concrete else r) e := by
  have hcarries := (carries_execute d.op).of_ok h.carries he
  by_cases hlr : d.op = .LR_W
  · rw [if_pos hlr]
    rw [hlr] at he
    have hlrAddr := lrAddr_lrW.of_ok rfl he
    refine ⟨hcarries.requests, hcarries.tidy, fun _ => ⟨_, _, hlrAddr, rfl, hcarries.names _ _ ?_⟩⟩
    refine ⟨h.tidy.lt _, fun i hi => ?_⟩
    rw [h.tidy.shared i _ hi]
  rw [if_neg hlr]
  by_cases hamo : d.op ∈ amos
  · rw [execute_eq_executeAmo hamo] at he
    have hunlocked := (unlocked_executeAmo _).of_ok rfl he
    refine ⟨hcarries.requests, hcarries.tidy, fun hlock => ?_⟩
    exact absurd (hunlocked.holdsLock.symm.trans hlock) Bool.false_ne_true
  · refine h.of_releases hcarries ((releases_execute fun hmem => ?_).of_ok (.refl _) he)
    exact (List.mem_cons.mp hmem).elim hlr hamo

/-- How `run_step` comes to the end of its `try` block. -/
theorem stepOrTrap_cases (h : stepOrTrap s = .ok () t) :
    (∃ e, execStep s = .ok () e ∧ takeInterrupt e = .ok () t) ∨
      ∃ u mode, switchToTrapHandler mode u = .ok () t := by
  cases hrun : (do execStep; takeInterrupt : IssM Unit) s with
  | ok _ u =>
    have hattempt := attempt_of_ok hrun
    rw [stepOrTrap, bind_of_ok hattempt] at h
    cases h
    obtain ⟨_, e, he, ht⟩ := bind_eq_ok hrun
    exact .inl ⟨e, he, ht⟩
  | error e u =>
    have hattempt := attempt_of_error hrun
    rw [stepOrTrap, bind_of_ok hattempt] at h
    cases e with
    | trap reason mtval =>
      obtain ⟨mode, v, _, hswitch⟩ := bind_eq_ok h
      exact .inr ⟨v, mode, hswitch⟩
    | _ => cases h

/-- A step that raises a trap gives up the lock. -/
theorem unlocked_of_trap {mode : PrivilegeLevel} (hswitch : switchToTrapHandler mode u = .ok () e)
    (hretire : retire e = .ok () s') : s'.holdsLock = false := by
  have hunlocked := (unlocked_switchToTrapHandler mode).of_ok rfl hswitch
  exact ((keeps_retire (lasting_unlocked _)).of_ok hunlocked hretire).holdsLock

theorem completed_eq (hbreak : ¬(s.debugMode = true ∧ s.pc ∈ s.breakpoints))
    (hd : prepare s.begun = .ok () d) (he : execute d.op d = .ok () e) : s.completed = some d := by
  rw [completed, if_neg hbreak, hd]
  dsimp only
  rw [he]

theorem reserves_runStep (h : Reserves r s) (hrun : runStep s = .ok () s') :
    Reserves (nextReservation r s s') s' := by
  have hcarries := carries_runStep.of_ok h.carries hrun
  unfold nextReservation
  by_cases hheld : s'.holdsLock = true
  · rw [if_pos hheld]
    have hzero := zero_of_runStep hrun
    by_cases hbreak : s.debugMode = true ∧ s.pc ∈ s.breakpoints
    · have hcompleted : s.completed = none := if_pos hbreak
      rw [runStep_of_breakpoint hzero hbreak] at hrun
      cases hrun
      rw [hcompleted]
      exact ⟨h.requests, h.tidy, h.held⟩
    rw [runStep_eq hzero hbreak] at hrun
    obtain ⟨_, t, htry, hretire⟩ := bind_eq_ok hrun
    obtain ⟨e, hstep, hinterrupt⟩ | ⟨_, _, hswitch⟩ := stepOrTrap_cases htry
    · rw [execStep_eq_prepare] at hstep
      obtain ⟨_, d, hd, he⟩ := bind_eq_ok hstep
      rw [completed_eq hbreak hd he]
      have hreserves := reserves_execute (reserves_prepare (reserves_begun h) hd) he
      have htaken := hreserves.of_releases
        ((keeps_takeInterrupt lasting_carries).of_ok hreserves.carries hinterrupt)
        ((keeps_takeInterrupt (lasting_releases e.io)).of_ok (.refl _) hinterrupt)
      exact htaken.of_releases ((keeps_retire lasting_carries).of_ok htaken.carries hretire)
        ((keeps_retire (lasting_releases t.io)).of_ok (.refl _) hretire)
    · exact absurd (hheld.symm.trans (unlocked_of_trap hswitch hretire)) nofun
  · rw [if_neg hheld]
    exact ⟨hcarries.requests, hcarries.tidy, fun hlock => absurd hlock hheld⟩

theorem Reserved.reserves (h : Reserved s r) : Reserves r s := by
  induction h with
  | start hlock hrequests htidy =>
    exact ⟨hrequests, htidy, fun hheld => absurd (hlock.symm.trans hheld) Bool.false_ne_true⟩
  | step _ hrun ih => exact reserves_runStep ih hrun

/-! ## Store conditional -/

/-- A store conditional has stored its operand as a store does. -/
def Stores (d t : Iss) : Prop :=
  ∃ u, memory (fun transact view => storeWord transact view (d.regs d.instr.rs1).value
    (d.regs d.instr.rs2).value) d.conditional = .ok () u ∧ t.io.bus = u.io.bus

/-- What a store conditional should do: it succeeds if the hart holds the lock for the reservation
of its address, and fails otherwise. -/
def MatchesReservation (r : Option (BitVec 32)) (d t : Iss) : Prop :=
  if d.holdsLock = true ∧ r = some (d.regs d.instr.rs1).value.concrete then
    (t.regs d.instr.rd).value = REG_ZERO ∧ Stores d t
  else (t.regs d.instr.rd).value = REG_ONE ∧ t.io.bus = d.io.bus ∧ t.holdsLock = false

theorem atomicStoreConditionalWord_apply (transact : Transact) (view : CoreView) (object : Nat)
    (addr value : ConcolicValue 32) (io : Interface) :
    atomicStoreConditionalWord transact view object addr value io =
      if io.busLock.isLocked view.hartId = true then
        if io.lrAddr = some object then
          (do
            storeWord transact view addr value
            return true) io
        else .ok false { io with busLock := io.busLock.unlock view.hartId }
      else .ok false io := by
  change (if io.busLock.isLocked view.hartId = true then
    if io.lrAddr = some object then _ else _ else _ : MemM Bool) io = _
  split_ifs <;> rfl

/-- A store conditional that completes: it stores just if the hart holds the lock and the memory
interface has the object of the address. -/
theorem scW_cases (hrequests : d.io.requests = []) (h : scW d = .ok () t) :
    if d.holdsLock = true ∧ d.io.lrAddr = some (d.regs d.instr.rs1).object then
      (t.regs d.instr.rd).value = REG_ZERO ∧ Stores d t
    else (t.regs d.instr.rd).value = REG_ONE ∧ t.io.bus = d.io.bus ∧ t.holdsLock = false := by
  by_cases hchecks : d.csrs.hasExtension CsrTable.A_ISA_EXT = true ∧
      (d.regs d.instr.rs1).value.concrete.toNat % 4 = 0
  · rw [scW_apply hchecks.1 hchecks.2] at h
    obtain ⟨stored, u, hmemory, h⟩ := bind_eq_ok h
    rw [bind_of_ok (writeRd_word _ u)] at h
    cases h
    obtain ⟨io, hstore, hserve⟩ := memory_eq_ok hmemory
    have hserved : Calm { d.conditional with io := { io with requests := [] } } u := (Triple.forM
      (idles_serve (K := fun _ => True) fun _ _ => trivial) io.requests).of_ok (.refl _) hserve
    have hinstr : u.instr = d.instr := hserved.drifts.instr
    have hvalue : ∀ value, ((u.assign u.instr.rd value).regs d.instr.rd).value = value :=
      fun value => by
      rw [hinstr, regs_assign_self]
    have hserve' :
        io.requests = [] → u = { d.conditional with io := { io with requests := [] } } := by
      intro hio
      rw [hio] at hserve
      cases hserve
      rfl
    rw [atomicStoreConditionalWord_apply] at hstore
    change (if d.holdsLock = true then if d.io.lrAddr = some (d.regs d.instr.rs1).object then _
      else _
      else _) = _ at hstore
    by_cases hheld : d.holdsLock = true
    · rw [if_pos hheld] at hstore
      by_cases hobject : d.io.lrAddr = some (d.regs d.instr.rs1).object
      · rw [if_pos hobject] at hstore
        rw [if_pos ⟨hheld, hobject⟩]
        obtain ⟨_, _, hword, hpure⟩ := bind_eq_ok hstore
        cases hpure
        refine ⟨hvalue _, u, ?_, rfl⟩
        rw [memory_of_ok hword, bind_of_ok hserve]
        rfl
      · rw [if_neg hobject] at hstore
        rw [if_neg fun h => hobject h.2]
        cases hstore
        refine ⟨hvalue _, ?_⟩
        rw [hserve' hrequests]
        exact ⟨rfl, BusLock.isLocked_unlock _ _⟩
    · rw [if_neg hheld] at hstore
      rw [if_neg fun h => hheld h.1]
      cases hstore
      refine ⟨hvalue _, ?_⟩
      rw [hserve' hrequests]
      exact ⟨rfl, Bool.eq_false_of_not_eq_true hheld⟩
  · obtain ⟨_, _, _, _, hrun, _⟩ := scW_of_not hchecks
    cases hrun.symm.trans h

/-- A store conditional does what the reservation says just if the register of its address refers to
the object of the reservation whenever it has the reserved address. -/
theorem matchesReservation_iff (h : Reserved s r) (hd : prepare s.begun = .ok () d)
    (hop : d.op = .SC_W) (ht : execute d.op d = .ok () t) :
    MatchesReservation r d t ↔
      (d.holdsLock = true → r = some (d.regs d.instr.rs1).value.concrete →
        d.io.lrAddr = some (d.regs d.instr.rs1).object) := by
  have hreserves := reserves_prepare (reserves_begun h.reserves) hd
  rw [hop] at ht
  have hcases := scW_cases hreserves.requests ht
  -- the object of the reservation has the reserved address
  have haddress : d.holdsLock = true → d.io.lrAddr = some (d.regs d.instr.rs1).object →
      r = some (d.regs d.instr.rs1).value.concrete := by
    intro hheld hobject
    obtain ⟨object, addr, hlrAddr, hr, hnames⟩ := hreserves.held hheld
    rw [hnames.value _ (Option.some.inj (hobject.symm.trans hlrAddr)), hr]
  unfold MatchesReservation
  refine ⟨fun hmatches hheld hr => ?_, fun hsame => ?_⟩
  · by_contra hobject
    rw [if_pos ⟨hheld, hr⟩] at hmatches
    rw [if_neg fun h => hobject h.2] at hcases
    exact absurd (hmatches.1.symm.trans hcases.1) (by decide)
  · by_cases hstores : d.holdsLock = true ∧ r = some (d.regs d.instr.rs1).value.concrete
    · rw [if_pos hstores]
      rwa [if_pos ⟨hstores.1, hsame hstores.1 hstores.2⟩] at hcases
    · rw [if_neg hstores]
      rwa [if_neg fun h => hstores ⟨h.1, haddress h.1 h.2⟩] at hcases

/-- Some steps, and the reservation after them. -/
def follow : Nat → Iss → Option (BitVec 32) → Option (Iss × Option (BitVec 32))
  | 0, s, r => some (s, r)
  | n + 1, s, r =>
    match runStep s with
    | .ok _ s' => follow n s' (nextReservation r s s')
    | .error _ _ => none

theorem Reserved.follow {n : Nat} {r' : Option (BitVec 32)} (h : Reserved s r)
    (hfollow : follow n s r = some (t, r')) : Reserved t r' := by
  induction n generalizing s r with
  | zero =>
    cases hfollow
    exact h
  | succ n ih =>
    rw [Iss.follow] at hfollow
    split at hfollow
    · next s' hrun => exact ih (h.step hrun) hfollow
    · cases hfollow

theorem reserved_boot (program : List (BitVec 32)) : Reserved (boot program) none := by
  refine .start rfl rfl ⟨fun i => i.isLt, fun i j hij => ?_⟩
  obtain rfl : i = j := BitVec.eq_of_toNat_eq hij
  rfl

/-- `lr.w x5, (x1)` and `sc.w x6, x7, (x1)`. -/
def storesReserved : List (BitVec 32) := [0x1000a2af#32, 0x1870a32f#32]

/-- A store conditional with the register of the reservation. -/
theorem matchesReservation_iff_reserves : ∃ s d t, Reserved s (some 0#32) ∧
    prepare s.begun = .ok () d ∧ d.op = .SC_W ∧ execute d.op d = .ok () t ∧
    MatchesReservation (some 0#32) d t := by
  have hrun : (follow 1 (boot storesReserved) none).map (fun (s, r) => (r,
      returnsIn (fun d => decide (d.op = .SC_W ∧
        d.io.lrAddr = some (d.regs d.instr.rs1).object) &&
        returnsIn (fun _ => true) (execute d.op d)) (prepare s.begun))) =
      some (some 0#32, true) := by
    decide +kernel
  obtain ⟨⟨s, r⟩, hfollow, hs⟩ := Option.map_eq_some_iff.mp hrun
  obtain ⟨rfl, hprepare⟩ := Prod.mk.inj hs
  obtain ⟨_, d, hd, h⟩ := eq_ok_of_returnsIn hprepare
  obtain ⟨hstate, hexecute⟩ := Bool.and_eq_true_iff.mp h
  obtain ⟨hop, hobject⟩ := of_decide_eq_true hstate
  obtain ⟨_, t, ht, _⟩ := eq_ok_of_returnsIn hexecute
  have hreserved := (reserved_boot storesReserved).follow hfollow
  exact ⟨s, d, t, hreserved, hd, hop, ht,
    (matchesReservation_iff hreserved hd hop ht).mpr fun _ _ => hobject⟩

/-- `lr.w x5, (x1)`, then `addi x1, x1, 0` and `sc.w x6, x7, (x1)`. -/
def storesRecomputed : List (BitVec 32) := [0x1000a2af#32, 0x00008093#32, 0x1870a32f#32]

/-- A store conditional fails when the address has been computed again, to the same value. -/
theorem scW_recomputed_address : ∃ s d t, Reserved s (some 0#32) ∧ prepare s.begun = .ok () d ∧
    d.op = .SC_W ∧ execute d.op d = .ok () t ∧
    d.holdsLock = true ∧ (d.regs d.instr.rs1).value.concrete = 0#32 ∧
    (t.regs d.instr.rd).value = REG_ONE ∧ ¬ MatchesReservation (some 0#32) d t := by
  have hrun : (follow 2 (boot storesRecomputed) none).map (fun (s, r) => (r,
      returnsIn (fun d => decide (d.op = .SC_W ∧ d.holdsLock = true ∧
        (d.regs d.instr.rs1).value.concrete = 0#32) &&
        returnsIn (fun t => decide ((t.regs d.instr.rd).value = REG_ONE))
          (execute d.op d)) (prepare s.begun))) =
      some (some 0#32, true) := by
    decide +kernel
  obtain ⟨⟨s, r⟩, hfollow, hs⟩ := Option.map_eq_some_iff.mp hrun
  obtain ⟨rfl, hprepare⟩ := Prod.mk.inj hs
  obtain ⟨_, d, hd, h⟩ := eq_ok_of_returnsIn hprepare
  obtain ⟨hstate, hexecute⟩ := Bool.and_eq_true_iff.mp h
  obtain ⟨hop, hheld, haddr⟩ := of_decide_eq_true hstate
  obtain ⟨_, t, ht, hvalue⟩ := eq_ok_of_returnsIn hexecute
  have hone := of_decide_eq_true hvalue
  refine ⟨s, d, t, (reserved_boot storesRecomputed).follow hfollow, hd, hop, ht,
    hheld, haddr, hone, ?_⟩
  intro hmatches
  rw [MatchesReservation, if_pos ⟨hheld, congrArg some haddr.symm⟩] at hmatches
  exact absurd (hmatches.1.symm.trans hone) (by decide)

end Iss

end SpsVp.Rv32
