import SpsVp.Rv32.Operation
import SpsVp.Rv32.Reservation

/-!
# Harts that share a bus

Several cores with one bus and its lock, where each core does a whole `run_step` at a time. A core
that has to wait for the lock does so at the start of its step, when it fetches the instruction.

`lr_sc_counter` and the lock are changed in different places: by the instructions, by every store,
at the entry into a trap handler and at the end of the step. `lock_in_step` says that they stay in
step, in every run of such a system. Updates of page-table entries need no exception: they can only
give up the lock. -/

namespace SpsVp.Rv32

open Lib Effect Clover Klee Platform Interface Control

namespace Interface

variable {hart : BitVec 32} {view : CoreView} {depth : Nat}

/-- No hart but the given one holds the lock. -/
def Owned (hart : BitVec 32) (io : Interface) : Prop :=
  ∀ owner, io.busLock.isLocked owner = true → owner = hart

theorem persistent_owned : Persistent (Owned hart) view where
  log := fun _ _ h => h
  requests := fun _ h => h
  wait := fun h owner hlock => h owner (BusLock.isLocked_of_waitForAccessRights hlock)
  unlock := fun h owner hlock => h owner (BusLock.isLocked_of_unlock hlock)
  tlb := fun _ _ h => h
  transport := fun _ _ h => h

/-- A hart locks the bus for itself. -/
theorem owned_lock : Stays (Owned view.hartId) (fun _ => True) (lock view) :=
  .modify fun _ _ _ hlock => (Option.some.inj (eq_of_beq hlock)).symm

section

variable (hart view depth)

theorem owned_transact (payload : Payload) :
    Stays (Owned hart) (fun _ => True) (transact view depth payload) :=
  stays_transact persistent_owned (transactionThrows_true _ view) depth payload

theorem owned_loadSigned (numBytes : Nat) (addr : ConcolicValue 32) :
    Stays (Owned hart) (fun _ => True) (loadSigned (transact view depth) view numBytes addr) :=
  stays_loadSigned (persistent_owned.reading (owned_transact hart view depth))
    (transactionThrows_true _ view).1 _ _

theorem owned_atomicLoadWord (addr : ConcolicValue 32) :
    Stays (Owned view.hartId) (fun _ => True) (atomicLoadWord (transact view depth) view addr) :=
  .bind owned_lock fun _ => owned_loadSigned _ view depth 4 addr

theorem owned_atomicLoadReservedWord (object : Nat) (addr : ConcolicValue 32) :
    Stays (Owned view.hartId) (fun _ => True)
      (atomicLoadReservedWord (transact view depth) view object addr) :=
  .bind owned_lock fun _ => .bind (Q := fun _ => Owned view.hartId) (.modify fun _ h => h) fun _ =>
    owned_loadSigned _ view depth 4 addr

theorem owned_atomicStoreWord (addr value : ConcolicValue 32) :
    Stays (Owned hart) (fun _ => True) (atomicStoreWord (transact view depth) view addr value) :=
  stays_atomicStoreWord persistent_owned (owned_transact hart view depth)
    (transactionThrows_true _ view).1 trivial _ _

end

/-- A store conditional that returns has given up the lock. -/
theorem unlocked_atomicStoreConditionalWord {transact : Transact} (object : Nat)
    (addr value : ConcolicValue 32) :
    Triple (fun _ => True) (atomicStoreConditionalWord transact view object addr value)
      (fun _ io => io.busLock.isLocked view.hartId = false) (fun _ _ => True) := by
  refine .getBind fun io _ => .ite (fun _ => .ite (fun _ => ?_) fun _ => ?_) fun hlock => ?_
  · exact .bind ((unlocked_symbolicStoreData _ _ _).pre (fun _ _ => trivial)) fun _ =>
      .pure fun _ h => h
  · exact .bind (Q := fun _ io => io.busLock.isLocked view.hartId = false)
      (.modify fun _ _ => BusLock.isLocked_unlock _ _) fun _ => .pure fun _ h => h
  · exact .pure fun t ht => ht ▸ Bool.eq_false_of_not_eq_true hlock

end Interface

namespace Iss

variable {s d e t u s' : Iss} {hart : BitVec 32} {bound : Nat} {α : Type}

/-! ## The counter and the lock -/

/-- The counter is bounded, and it is positive if the hart holds the lock. -/
structure Paced (hart : BitVec 32) (bound : Nat) (s : Iss) : Prop where
  id : s.csrs .mhartid = hart
  counter : s.lrScCounter ≤ bound
  lock : s.io.busLock.isLocked hart = true → 0 < s.lrScCounter

/-- The hart does not hold the lock, and the counter is bounded. -/
structure Idle (hart : BitVec 32) (bound : Nat) (s : Iss) : Prop where
  unlocked : Unlocked hart s
  counter : s.lrScCounter ≤ bound

theorem kept_paced : Kept (Paced hart bound) where
  control := fun _ _ hc h => ⟨hc.hart.trans h.id, hc.counter.symm ▸ h.counter,
    fun hlock => hc.counter.symm ▸ h.lock hlock⟩
  assign := fun _ _ _ h => ⟨h.id, h.counter, h.lock⟩
  copy := fun _ _ _ h => ⟨h.id, h.counter, h.lock⟩
  log := fun _ _ h => ⟨h.id, h.counter, h.lock⟩
  handler := fun _ _ h => ⟨h.id, h.counter, h.lock⟩

theorem kept_idle : Kept (Idle hart bound) where
  control := fun s c hc h =>
    ⟨(lasting_unlocked hart).control s c hc h.unlocked, hc.counter.symm ▸ h.counter⟩
  assign := fun _ _ _ h => ⟨h.unlocked, h.counter⟩
  copy := fun _ _ _ h => ⟨h.unlocked, h.counter⟩
  log := fun _ _ h => ⟨h.unlocked, h.counter⟩
  handler := fun _ _ h => ⟨h.unlocked, h.counter⟩

theorem unlocking_paced : Unlocking (Paced hart bound) :=
  unlocking_of_releases kept_paced fun _ _ h hreleases =>
    ⟨h.id, h.counter, fun hlock => h.lock (hreleases.lock _ hlock)⟩

theorem Paced.mono {bound' : Nat} (h : Paced hart bound s) (hle : bound ≤ bound') :
    Paced hart bound' s :=
  ⟨h.id, h.counter.trans hle, h.lock⟩

theorem Idle.mono {bound' : Nat} (h : Idle hart bound s) (hle : bound ≤ bound') :
    Idle hart bound' s :=
  ⟨h.unlocked, h.counter.trans hle⟩

theorem Idle.paced (h : Idle hart bound s) : Paced hart bound s :=
  ⟨h.unlocked.1, h.counter, fun hlock => absurd (h.unlocked.2.symm.trans hlock) Bool.false_ne_true⟩

theorem idle_releaseLrScReservation {E : Exception → Iss → Prop} :
    Triple (fun s => s.csrs .mhartid = hart) releaseLrScReservation (fun _ => Idle hart 0) E := by
  rintro s rfl
  exact ⟨⟨rfl, BusLock.isLocked_unlock _ _⟩, le_rfl⟩

theorem idle_wfi : Triple (fun s => s.csrs .mhartid = hart) wfi (fun _ => Idle hart 0)
    (fun _ => Idle hart 0) :=
  triple_wfi kept_idle idle_releaseLrScReservation

/-- The entry into a trap handler ends the reservation. -/
theorem idle_switchToTrapHandler (mode : PrivilegeLevel) :
    Triple (fun s => s.csrs .mhartid = hart) (switchToTrapHandler mode)
      (fun _ => Idle hart 0) (fun _ => Idle hart 0) :=
  .bind idle_releaseLrScReservation fun _ =>
    keeps_control kept_idle (sparing_switchToTrapHandler mode)

/-! ## Instructions -/

/-- The number of the hart, and a bound of the counter. -/
def Bounded (hart : BitVec 32) (bound : Nat) (s : Iss) : Prop :=
  s.csrs .mhartid = hart ∧ s.lrScCounter ≤ bound

theorem kept_bounded : Kept (Bounded hart bound) where
  control := fun _ _ hc h => ⟨hc.hart.trans h.1, hc.counter.symm ▸ h.2⟩
  assign := fun _ _ _ h => h
  copy := fun _ _ _ h => h
  log := fun _ _ h => h
  handler := fun _ _ h => h

theorem bounded_memory (x : Transact → CoreView → MemM α) :
    Keeps (Bounded hart bound) (memory x) :=
  keeps_memory kept_bounded fun _ h => h

/-- A load reserved starts the counter, unless it runs already. -/
theorem paced_lrW (h : Paced hart 16 d) (he : lrW d = .ok () e) : Paced hart 17 e := by
  obtain ⟨data, u, hmemory, rfl⟩ := lrW_eq_ok he
  have hd : Bounded hart 16 (d.noted (d.regs d.instr.rs1).value) := ⟨h.id, h.counter⟩
  have hu : Bounded hart 16 u := (bounded_memory _).of_ok hd hmemory
  have hage : 0 < reservationAge u.lrScCounter ∧ reservationAge u.lrScCounter ≤ 17 := by
    have hcounter := hu.2
    unfold reservationAge
    split <;> omega
  exact ⟨hu.1, hage.2, fun _ => hage.1⟩

/-- A store conditional ends the reservation, whether it succeeds or not. -/
theorem idle_scW : Triple (fun s => s.csrs .mhartid = hart) scW (fun _ => Idle hart 0)
    (fun _ _ => True) := by
  have hid := (lasting_hart hart).toKept
  have hstore : ∀ object addr value, Triple (fun s => s.csrs .mhartid = hart)
      (memory fun transact view => atomicStoreConditionalWord transact view object addr value)
      (fun _ => Unlocked hart) (fun _ _ => True) := fun object addr value =>
    triple_memory_ok (lasting_unlocked hart).toKept fun s a io hs hr =>
      ⟨hs, hs ▸ (unlocked_atomicStoreConditionalWord object addr value).of_ok trivial hr⟩
  exact (framed_returning hid).atomic fun _ => .bind maintains_rs2 fun _ =>
    .bind (keeps_writeRd hid _).returning fun _ => .bind (hstore _ _ _) fun _ =>
    .bind (keeps_writeRd (lasting_unlocked hart).toKept _).returning fun _ =>
    .modify fun _ h => ⟨h, le_rfl⟩

/-- An atomic memory operation that completes has given up the lock. -/
theorem idle_executeAmo (f : ConcolicValue 32 → ConcolicValue 32 → ConcolicValue 32)
    (h : Paced hart 16 d) (he : executeAmo f d = .ok () e) : Idle hart 16 e := by
  have hbounded : Bounded hart 16 e :=
    (keeps_executeAmo kept_bounded (fun _ => bounded_memory _)
      (fun _ _ => bounded_memory _) f).of_ok
      ⟨h.id, h.counter⟩ he
  exact ⟨(unlocked_executeAmo f).of_ok h.id he, hbounded.2⟩

/-- The instructions that end with a reservation given up. -/
def lockEnds : List Mapping := .WFI :: .SC_W :: amos

theorem idle_execute (h : Paced hart 16 d) (hop : d.op ∈ lockEnds)
    (he : execute d.op d = .ok () e) :
    Idle hart 16 e := by
  rw [lockEnds, List.mem_cons, List.mem_cons] at hop
  obtain hop | hop | hop := hop
  · rw [hop] at he
    exact (idle_wfi.of_ok h.id he).mono (Nat.zero_le _)
  · rw [hop] at he
    exact (idle_scW.of_ok h.id he).mono (Nat.zero_le _)
  · rw [execute_eq_executeAmo hop] at he
    exact idle_executeAmo _ h he

theorem paced_execute (h : Paced hart 16 d) (he : execute d.op d = .ok () e) : Paced hart 17 e := by
  by_cases hends : d.op ∈ lockEnds
  · exact ((idle_execute h hends he).mono (Nat.le_succ _)).paced
  by_cases hlr : d.op = .LR_W
  · rw [hlr] at he
    exact paced_lrW h he
  · rw [lockEnds, List.mem_cons, List.mem_cons, not_or, not_or] at hends
    refine ((keeps_execute_of_age kept_paced unlocking_paced (fun hmem => ?_)
      fun hmem => ?_).of_ok h
      he).mono (Nat.le_succ _)
    · rw [List.mem_cons, List.mem_singleton] at hmem
      exact hmem.elim hends.1 hends.2.1
    · exact (List.mem_cons.mp hmem).elim hlr hends.2.2

/-! ## A step -/

/-- The countdown at the end of a step gives up the lock at zero. -/
theorem paced_ageReservation : Triple (Paced hart 17) ageReservation (fun _ => Paced hart 16)
    (fun _ _ => True) := by
  refine .getBind fun s hs => .ite (fun hcounter => ?_) fun hcounter => .pure fun t ht => ?_
  · have hbound := hs.counter
    refine .bind (Q := fun _ t => t.csrs .mhartid = hart ∧ t.lrScCounter = s.lrScCounter - 1)
      (.modify fun t ht => ?_) fun _ => .ite (fun hend => ?_) fun hlasts => .pure fun t ht => ?_
    · subst ht
      exact ⟨hs.id, rfl⟩
    · refine idle_releaseLrScReservation.conseq (fun t ht => ht.1) (fun _ t ht => ?_) fun _ _ h => h
      exact (ht.mono (Nat.zero_le _)).paced
    · refine ⟨ht.1, ?_, fun _ => ?_⟩ <;> omega
  · subst ht
    exact ⟨hs.id, by omega, hs.lock⟩

theorem paced_retire (h : Paced hart 17 e) (hretire : retire e = .ok () s') : Paced hart 16 s' :=
  (triple_retire_of_age kept_paced kept_paced paced_ageReservation).of_ok h hretire

theorem paced_prepare (h : Paced hart 16 s) (hd : prepare s = .ok () d) : Paced hart 16 d :=
  (keeps_prepare kept_paced unlocking_paced.fetch
    (keeps_coverInstr fun _ _ h => ⟨h.id, h.counter, h.lock⟩)).of_ok h hd

/-- An interrupt that is taken ends the reservation. -/
theorem paced_takeInterrupt (h : Paced hart bound e) (ht : takeInterrupt e = .ok () t) :
    Paced hart bound t ∧ (e.computePendingInterrupts ≠ none → Idle hart bound t) := by
  obtain ⟨_, _, hget, ht⟩ := bind_eq_ok ht
  cases hget
  cases hpending : e.computePendingInterrupts with
  | none =>
    rw [hpending] at ht
    cases ht
    exact ⟨h, fun hne => absurd rfl hne⟩
  | some target =>
    rw [hpending] at ht
    obtain ⟨_, u, hprepare, hswitch⟩ := bind_eq_ok ht
    have hu := (keeps_control (lasting_hart hart).toKept
      (sparing_prepareInterrupt _ _)).of_ok h.id hprepare
    have hidle := ((idle_switchToTrapHandler _).of_ok hu hswitch).mono (Nat.zero_le bound)
    exact ⟨hidle.paced, fun _ => hidle⟩

/-- The step takes a trap or an interrupt, or it executes an instruction that gives up the lock. -/
def relinquishes (s : Iss) : Bool :=
  !(s.debugMode && decide (s.pc ∈ s.breakpoints)) &&
    match prepare s.begun with
    | .error (.trap _ _) _ => true
    | .error _ _ => false
    | .ok _ d =>
      match execute d.op d with
      | .error (.trap _ _) _ => true
      | .error _ _ => false
      | .ok _ e => e.computePendingInterrupts.isSome || decide (d.op ∈ lockEnds)

theorem relinquishes_cases (hd : prepare s.begun = .ok () d) (he : execute d.op d = .ok () e)
    (h : s.relinquishes = true) : e.computePendingInterrupts ≠ none ∨ d.op ∈ lockEnds := by
  simp only [relinquishes, hd, he, Bool.and_eq_true, Bool.or_eq_true, decide_eq_true_eq] at h
  exact h.2.imp_left fun hsome => Option.ne_none_iff_isSome.mpr hsome

theorem hart_runStep : Keeps (fun s => s.csrs .mhartid = hart) runStep :=
  have hlasting := lasting_hart hart
  have hmemory := fun {α : Type} (x : Transact → CoreView → MemM α) =>
    keeps_memory (x := x) hlasting.toKept fun _ h => h
  keeps_runStep hlasting (fun _ => hmemory _) (keeps_coverInstr fun _ _ h => h)
    (keeps_execute_of_memory hlasting hmemory)

/-- A whole step keeps the counter and the lock in step. -/
theorem paced_runStep (h : Paced hart 16 s) (hrun : runStep s = .ok () s') :
    Paced hart 16 s' ∧ (s.relinquishes = true → s'.holdsLock = false) := by
  have hid : s'.csrs .mhartid = hart := hart_runStep.of_ok h.id hrun
  have hzero := zero_of_runStep hrun
  by_cases hbreak : s.debugMode = true ∧ s.pc ∈ s.breakpoints
  · have hstays : s.relinquishes = false := by
      rw [relinquishes, hbreak.1, decide_eq_true hbreak.2]
      rfl
    rw [runStep_of_breakpoint hzero hbreak] at hrun
    cases hrun
    exact ⟨⟨h.id, h.counter, h.lock⟩,
      fun hends => absurd (hstays.symm.trans hends) Bool.false_ne_true⟩
  rw [runStep_eq hzero hbreak] at hrun
  obtain ⟨_, t, htry, hretire⟩ := bind_eq_ok hrun
  obtain ⟨e, hstep, hinterrupt⟩ | ⟨u, mode, hswitch⟩ := stepOrTrap_cases htry
  · rw [execStep_eq_prepare] at hstep
    obtain ⟨_, d, hd, he⟩ := bind_eq_ok hstep
    have hbegun : Paced hart 16 s.begun := ⟨h.id, h.counter, h.lock⟩
    have hprepared := paced_prepare hbegun hd
    have htaken := paced_takeInterrupt (paced_execute hprepared he) hinterrupt
    refine ⟨paced_retire htaken.1 hretire, fun hends => ?_⟩
    have hunlocked : Unlocked hart t := by
      obtain hpending | hop := relinquishes_cases hd he hends
      · exact (htaken.2 hpending).unlocked
      · exact (keeps_takeInterrupt (lasting_unlocked hart)).of_ok
          (idle_execute hprepared hop he).unlocked hinterrupt
    exact ((keeps_retire (lasting_unlocked hart)).of_ok hunlocked hretire).holdsLock
  · have hidle := (idle_switchToTrapHandler mode).of_ok rfl hswitch
    have hpaced := paced_retire (hidle.mono (Nat.zero_le 17)).paced hretire
    rw [← hid, hpaced.id]
    exact ⟨hpaced, fun _ => unlocked_of_trap hswitch hretire⟩

/-! ## The locks of other harts -/

/-- The number of the hart, where no other one holds the lock. -/
def Alone (hart : BitVec 32) (s : Iss) : Prop := s.csrs .mhartid = hart ∧ Owned hart s.io

theorem lasting_alone (hart : BitVec 32) : Lasting (Alone hart) where
  control := fun _ _ hc h => ⟨hc.hart.trans h.1, h.2⟩
  assign := fun _ _ _ h => h
  copy := fun _ _ _ h => h
  log := fun _ _ h => h
  handler := fun _ _ h => h
  counter := fun _ _ h => h
  unlock := fun _ h => ⟨h.1, fun owner hlock => h.2 owner (BusLock.isLocked_of_unlock hlock)⟩

theorem unlocking_alone : Unlocking (Alone hart) :=
  unlocking_of_releases (lasting_alone hart).toKept fun _ _ h hreleases =>
    ⟨h.1, fun owner hlock => h.2 owner (hreleases.lock owner hlock)⟩

theorem alone_memory {x : Transact → CoreView → MemM α}
    (hx : ∀ view depth, Stays (Owned view.hartId) (fun _ => True)
      (x (Interface.transact view depth) view)) : Keeps (Alone hart) (memory x) := by
  refine keeps_memory (lasting_alone hart).toKept fun s hs => ⟨hs.1, ?_⟩
  obtain ⟨rfl, howned⟩ := hs
  exact (hx s.view s.depth).final howned

/-- The instructions that lock the bus lock it for their own hart. -/
theorem alone_execute (op : Mapping) : Keeps (Alone hart) (execute op) := by
  by_cases hlock : op ∈ .LR_W :: amos
  · obtain rfl | hamo := List.mem_cons.mp hlock
    · exact keeps_lrW (lasting_alone hart) fun object addr => alone_memory fun view depth =>
        owned_atomicLoadReservedWord view depth object addr
    · rw [execute_eq_executeAmo hamo]
      exact keeps_executeAmo (lasting_alone hart).toKept
        (fun addr => alone_memory fun view depth => owned_atomicLoadWord view depth addr)
        (fun addr value => alone_memory fun view depth =>
          owned_atomicStoreWord _ view depth addr value) _
  · exact keeps_execute_of_unlocking (lasting_alone hart) unlocking_alone hlock

theorem alone_runStep : Keeps (Alone hart) runStep :=
  keeps_runStep (lasting_alone hart) unlocking_alone.fetch (keeps_coverInstr fun _ _ h => h)
    alone_execute

end Iss

/-! ## Interleaved steps -/

/-- Cores that share a bus and its lock. The copies of both in the cores are not used. -/
structure Harts (ι : Type) where
  hart : ι → Iss
  busLock : BusLock
  bus : SimpleBus

namespace Harts

variable {ι : Type}

/-- A core with the shared bus. -/
def core (m : Harts ι) (i : ι) : Iss :=
  { m.hart i with io := { (m.hart i).io with busLock := m.busLock, bus := m.bus } }

/-- The number under which a core holds the lock. -/
def hartId (m : Harts ι) (i : ι) : BitVec 32 := (m.hart i).csrs .mhartid

def holdsLock (m : Harts ι) (i : ι) : Bool := m.busLock.isLocked (m.hartId i)

/-- The fetch at the start of a step waits while another hart holds the lock. A core that stops at a
breakpoint does not fetch. -/
def waits (m : Harts ι) (i : ι) : Bool :=
  m.busLock.owner.any (· != m.hartId i) &&
    !((m.hart i).debugMode && decide ((m.hart i).pc ∈ (m.hart i).breakpoints))

/-- The state after a reset. -/
structure Reset (m : Harts ι) : Prop where
  distinct : Function.Injective m.hartId
  counter : ∀ i, (m.hart i).lrScCounter = 0
  free : m.busLock = {}

/-- The reservation of every core is in step with the lock. -/
structure InStep (m : Harts ι) : Prop where
  distinct : Function.Injective m.hartId
  counter : ∀ i, (m.hart i).lrScCounter ≤ 16
  lock : ∀ i, m.holdsLock i = true → 0 < (m.hart i).lrScCounter

variable {m m' m₀ : Harts ι} {i j : ι}

theorem Reset.inStep (h : Reset m) : InStep m where
  distinct := h.distinct
  counter := fun i => (h.counter i).trans_le (Nat.zero_le 16)
  lock := fun i hlock => by
    rw [holdsLock, h.free] at hlock
    cases hlock

theorem InStep.paced (h : InStep m) (i : ι) : Iss.Paced (m.hartId i) 16 (m.core i) :=
  ⟨rfl, h.counter i, h.lock i⟩

/-- A core that does not have to wait holds the lock itself, or nobody does. -/
theorem owned_of_not_waits (hwaits : m.waits i = false)
    (hbreak : ¬((m.core i).debugMode = true ∧ (m.core i).pc ∈ (m.core i).breakpoints)) :
    Owned (m.hartId i) (m.core i).io := by
  intro owner hlock
  by_contra hne
  have hforeign : m.busLock.owner.any (· != m.hartId i) = true := by
    have howner : m.busLock.owner = some owner := eq_of_beq hlock
    rw [howner]
    exact bne_iff_ne.mpr hne
  rw [waits, hforeign, Bool.true_and, Bool.not_eq_false', Bool.and_eq_true,
    decide_eq_true_eq] at hwaits
  exact hbreak hwaits

variable [DecidableEq ι]

/-- The system after a step of a core. -/
def set (m : Harts ι) (i : ι) (s : Iss) : Harts ι :=
  ⟨Function.update m.hart i s, s.io.busLock, s.io.bus⟩

/-- A `run_step` of a core, if it does not have to wait and does not end the simulation. -/
def run (m : Harts ι) (i : ι) : Option (Harts ι) :=
  if m.waits i then none else (Iss.step (m.core i)).map (m.set i)

/-- What happens at step boundaries: a step of a core, an interrupt of a core, and a change in the
devices. -/
inductive Step (m : Harts ι) : Harts ι → Prop where
  | run {m' : Harts ι} (i : ι) (h : m.run i = some m') : Step m m'
  | interrupt (i : ι) (line : Fin 32) (level : Bool) : Step m { m with
      hart := Function.update m.hart i
        { m.hart i with toControl := (m.hart i).toControl.setInterrupt line level } }
  | devices (bus : SimpleBus) : Step m { m with bus }

theorem run_eq_some (h : m.run i = some m') :
    m.waits i = false ∧ ∃ s', Iss.runStep (m.core i) = .ok () s' ∧ m' = m.set i s' := by
  unfold run at h
  split at h
  · cases h
  · next hwaits =>
    obtain ⟨s', hs', rfl⟩ := Option.map_eq_some_iff.mp h
    exact ⟨Bool.eq_false_of_not_eq_true hwaits, s', Iss.runStep_of_step hs', rfl⟩

theorem hart_set_self (m : Harts ι) (i : ι) (s : Iss) : (m.set i s).hart i = s := by
  rw [set]
  exact Function.update_self (f := m.hart) i s

theorem hart_set_of_ne (hj : j ≠ i) (s : Iss) : (m.set i s).hart j = m.hart j := by
  rw [set]
  exact Function.update_of_ne (f := m.hart) hj s

theorem hartId_set (i : ι) {s' : Iss} (hrun : Iss.runStep (m.core i) = .ok () s') (j : ι) :
    (m.set i s').hartId j = m.hartId j := by
  by_cases hj : j = i
  · subst hj
    rw [hartId, hart_set_self]
    have hcore : (m.core j).csrs .mhartid = m.hartId j := rfl
    exact Iss.hart_runStep.of_ok hcore hrun
  · rw [hartId, hart_set_of_ne hj]
    rfl

/-- A step changes nothing in the locks of other harts. -/
theorem isLocked_of_run (h : m.run i = some m') {owner : BitVec 32} (hne : owner ≠ m.hartId i) :
    m'.busLock.isLocked owner = m.busLock.isLocked owner := by
  obtain ⟨hwaits, s', hrun, rfl⟩ := run_eq_some h
  by_cases hbreak : (m.core i).debugMode = true ∧ (m.core i).pc ∈ (m.core i).breakpoints
  · rw [Iss.runStep_of_breakpoint (Iss.zero_of_runStep hrun) hbreak] at hrun
    cases hrun
    rfl
  · have howned := owned_of_not_waits hwaits hbreak
    have hafter := Iss.alone_runStep.of_ok ⟨rfl, howned⟩ hrun
    have hbefore : m.busLock.isLocked owner = false :=
      Bool.eq_false_of_not_eq_true fun hlock => hne (howned owner hlock)
    rw [hbefore]
    exact Bool.eq_false_of_not_eq_true fun hlock => hne (hafter.2 owner hlock)

theorem InStep.run (hm : InStep m) (h : m.run i = some m') : InStep m' := by
  obtain ⟨_, s', hrun, rfl⟩ := run_eq_some h
  have hid := hartId_set i hrun
  have hpaced := (Iss.paced_runStep (hm.paced i) hrun).1
  refine ⟨fun j k hjk => ?_, fun j => ?_, fun j hlock => ?_⟩
  · rw [hid, hid] at hjk
    exact hm.distinct hjk
  · by_cases hj : j = i
    · subst hj
      rw [hart_set_self]
      exact hpaced.counter
    · rw [hart_set_of_ne hj]
      exact hm.counter j
  · rw [holdsLock, hid] at hlock
    by_cases hj : j = i
    · subst hj
      rw [hart_set_self]
      exact hpaced.lock hlock
    · have hlocks := isLocked_of_run h fun heq => hj (hm.distinct heq)
      rw [hart_set_of_ne hj]
      exact hm.lock j (hlocks.symm.trans hlock)

theorem InStep.step (hm : InStep m) (h : Step m m') : InStep m' := by
  cases h with
  | run i h => exact hm.run h
  | devices bus => exact ⟨hm.distinct, hm.counter, hm.lock⟩
  | interrupt i line level =>
    have hspares : ∀ j, Spares (m.hart j).toControl (Function.update m.hart i
        { m.hart i with toControl := (m.hart i).toControl.setInterrupt line level }
          j).toControl := by
      intro j
      by_cases hj : j = i
      · subst hj
        rw [Function.update_self]
        exact spares_setInterrupt line level _
      · rw [Function.update_of_ne hj]
        exact .refl _
    refine ⟨fun j k hjk => hm.distinct ?_, fun j => ?_, fun j hlock => ?_⟩
    · exact (hspares j).hart.symm.trans (hjk.trans (hspares k).hart)
    · exact (hspares j).counter.trans_le (hm.counter j)
    · rw [holdsLock, hartId, (hspares j).hart] at hlock
      exact (hm.lock j hlock).trans_eq (hspares j).counter.symm

theorem InStep.reachable (hm : InStep m₀) (h : Relation.ReflTransGen Step m₀ m) : InStep m := by
  induction h with
  | refl => exact hm
  | tail _ hstep ih => exact ih.step hstep

/-- In every run of cores that share a bus: after a step the counter of each core is at most 16 and
positive if the core holds the lock, no other core has lost its lock, and a core that took a trap or
an interrupt, or executed an instruction that gives up the lock, does not hold it. -/
theorem lock_in_step (hstart : m₀.Reset) (hreach : Relation.ReflTransGen Step m₀ m)
    (hrun : m.run i = some m') :
    (∀ j, (m'.hart j).lrScCounter ≤ 16 ∧ (m'.holdsLock j = true → 0 < (m'.hart j).lrScCounter)) ∧
      (∀ j, j ≠ i → m'.holdsLock j = m.holdsLock j) ∧
      ((m.core i).relinquishes = true → m'.holdsLock i = false) := by
  have hm := hstart.inStep.reachable hreach
  have hm' := hm.run hrun
  have hlocks : ∀ {owner : BitVec 32}, owner ≠ m.hartId i →
      m'.busLock.isLocked owner = m.busLock.isLocked owner := isLocked_of_run hrun
  obtain ⟨_, s', hs', rfl⟩ := run_eq_some hrun
  refine ⟨fun j => ⟨hm'.counter j, hm'.lock j⟩, fun j hj => ?_, fun hends => ?_⟩
  · rw [holdsLock, hartId_set i hs']
    exact hlocks fun heq => hj (hm.distinct heq)
  · have hheld := (Iss.paced_runStep (hm.paced i) hs').2 hends
    rw [holdsLock, hartId, hart_set_self]
    exact hheld

/-- Two cores in front of one program. -/
def pair (program : List (BitVec 32)) : Harts (Fin 2) where
  hart i :=
    Iss.init (CsrTable.init (BitVec.ofNat 32 i) false) (Iss.programMemory program) 0#32 0x1000#32
  busLock := {}
  bus := (Iss.programMemory program).bus

theorem reset_pair (program : List (BitVec 32)) : (pair program).Reset where
  distinct := fun i j hij =>
    have hinj : ∀ i j : Fin 2, BitVec.ofNat 32 i = BitVec.ofNat 32 j → i = j := by decide
    hinj i j hij
  counter := fun _ => rfl
  free := rfl

/-- `lr.w x5, (x1)` and `sc.w x6, x5, (x1)`. -/
def reservesAndStores : List (BitVec 32) := [0x1000a2af#32, 0x1850a32f#32]

/-- The first core locks the bus, and gives up the lock with its store conditional. The other core
waits in between. -/
theorem lock_in_step_pair : ∃ m m', (pair reservesAndStores).run 0 = some m ∧ m.holdsLock 0 = true ∧
    m.waits 1 = true ∧ m.run 0 = some m' ∧ m'.holdsLock 0 = false := by
  have hfirst : ((pair reservesAndStores).run 0).map (fun m =>
      (m.holdsLock 0, m.waits 1, (m.core 0).relinquishes, (m.run 0).isSome)) =
      some (true, true, true, true) := by
    decide +kernel
  obtain ⟨m, hm, h⟩ := Option.map_eq_some_iff.mp hfirst
  obtain ⟨hlock, h⟩ := Prod.mk.inj h
  obtain ⟨hwaits, h⟩ := Prod.mk.inj h
  obtain ⟨hends, hsome⟩ := Prod.mk.inj h
  obtain ⟨m', hm'⟩ := Option.isSome_iff_exists.mp hsome
  have hinStep := lock_in_step (reset_pair reservesAndStores) (.single (.run 0 hm)) hm'
  exact ⟨m, m', hm, hlock, hwaits, hm', hinStep.2.2 hends⟩

end Harts

end SpsVp.Rv32
