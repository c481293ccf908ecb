import SpsVp.Platform.Callback
import SpsVp.Rv32.Operation
import SpsVp.Rv32.Reservation

/-!
# Forward progress of load reserved

A reservation lasts for a number of instructions that `lr_sc_counter` counts down. A load reserved
starts the countdown only when none is under way, so a reservation lasts as long as it should just
if the countdown of an abandoned one has ended or is long enough (`reservation_lasts_iff`). A store
gives up the lock of the bus, and so does the update of a page-table entry or what a target of the
bus stores while it is read.
-/

namespace SpsVp.Rv32

open Lib Effect Clover Klee Platform Interface

namespace Interface

variable {J : Interface → Prop} {view : CoreView} {io₀ : Interface}

/-- The MMU may write an entry of a page table. -/
def UpdatesEntries (io : Interface) (view : CoreView) : Prop :=
  io.mmu.any (fun mmu => mmu.connected && !mmu.pageFaultOnAD) = true ∧ ∃ type, Translates view type

/-- A target that is read asks for no store. -/
theorem stays_read (hlog : ∀ (io : Interface) log, J io → J { io with log })
    (hrequests : ∀ (io : Interface) requests, J io → J { io with requests })
    (htransport : ∀ (io : Interface) payload, J io →
      J { io with bus := (io.bus.transport payload).2 })
    (hsilent : ∀ io : Interface, J io → io.bus.Silent) (depth : Nat) {payload : Payload}
    (hread : payload.command = .read) :
    Stays J (fun _ => True) (transact view depth payload) := by
  cases depth with
  | zero => exact .throw fun _ h => ⟨trivial, h⟩
  | succ depth =>
    refine .bind (Q := fun outcome io => (∀ request ∈ outcome.requests, request.isStore = false) ∧
      J io) ?_ fun outcome => .assume fun hrequest => ?_
    · refine .bind (Q := fun outcome io => (∀ request ∈ outcome.requests, request.isStore = false) ∧
        J io) (.modifyGet fun io h => ⟨(hsilent io h).requests hread, htransport io payload h⟩)
        fun outcome => .assume fun hrequest => ?_
      exact .bind (stays_noteExtension hlog _) fun _ =>
        .bind (triple_ensure (fun _ h _ => h) fun _ h _ => ⟨trivial, h⟩) fun _ =>
        .pure fun _ h => ⟨hrequest, h⟩
    · refine .bind (Q := fun _ => J) (.forM_mem fun request hmem => ?_) fun _ => ?_
      · cases request with
        | makeSymbolic addr size value => cases hrequest _ hmem
        | _ => exact .modify fun _ h => hrequests _ _ h
      · refine .ite (fun _ => ?_) fun _ => .keepPure
        cases outcome.payload.command <;> exact .throw fun _ h => ⟨trivial, h⟩

/-- The MMU is configured as in an earlier state, and no target asks for a store while it is
read. -/
structure Settled (io₀ io : Interface) : Prop where
  mmu : Iss.mmuConfiguration io = Iss.mmuConfiguration io₀
  silent : io.bus.Silent

theorem stable_settled : Stable (Settled io₀) where
  essence := fun {io io'} h hio => by
    have hbus : io'.bus = io.bus := congrArg Prod.fst h
    exact ⟨(congrArg Prod.snd h).trans hio.mmu, hbus ▸ hio.silent⟩
  transport := fun io payload h => ⟨h.mmu, h.silent.of_grows (io.bus.grows_transport payload)⟩

/-- A hart holds the lock besides. -/
structure Locked (hart : BitVec 32) (io₀ io : Interface) : Prop extends Settled io₀ io where
  lock : io.busLock.isLocked hart = true

/-- An MMU that reads page tables and does not fault on the bits that it would have to set updates
entries. -/
theorem updatesEntries_of_settled {io io' : Interface} (h : Settled io₀ io) (h' : Settled io₀ io')
    (htranslates : ∃ type, Translates view type) (hconnected : io'.mmu.any (·.connected) = true)
    (hfault : io.mmu.any (·.pageFaultOnAD) = false) : UpdatesEntries io₀ view := by
  refine ⟨?_, htranslates⟩
  have hmmu := h.mmu
  have hmmu' := h'.mmu
  unfold Iss.mmuConfiguration at hmmu hmmu'
  cases hm : io₀.mmu <;> cases hm' : io'.mmu <;> cases hm'' : io.mmu <;>
    simp_all

/-- Loads and fetches keep the lock when the MMU writes no entry. -/
theorem reading_locked (h : ¬ UpdatesEntries io₀ view) (depth : Nat) :
    Reading (Locked view.hartId io₀) (fun _ => True) view (transact view depth) where
  log := fun _ _ h => ⟨⟨h.mmu, h.silent⟩, h.lock⟩
  wait := fun {io} h => by
    have hwait : io.busLock.waitForAccessRights view.hartId = io.busLock := if_pos h.lock
    rw [hwait]
    exact h
  tlb := fun tlb ⟨io', hio', hconnected⟩ h =>
    ⟨(stable_settled.persistent : Persistent _ view).tlb tlb ⟨io', hio'.toSettled, hconnected⟩
      h.toSettled, h.lock⟩
  read := fun payload hread => stays_read (fun _ _ h => ⟨⟨h.mmu, h.silent⟩, h.lock⟩)
    (fun _ _ h => ⟨⟨h.mmu, h.silent⟩, h.lock⟩)
    (fun io payload h => ⟨stable_settled.transport io payload h.toSettled, h.lock⟩)
    (fun _ h => h.silent) depth hread
  update := fun htranslates ⟨io', hio', hconnected⟩ _ _ _ hio => absurd
    (updatesEntries_of_settled hio.1.toSettled hio'.toSettled htranslates hconnected hio.2) h

end Interface

namespace Iss

variable {s₀ s d e f t u s' : Iss} {counter : Nat} {α : Type}

/-- The age of the reservation of a hart, with the platform of an earlier state. -/
structure Timed (s₀ : Iss) (counter : Nat) (s : Iss) : Prop where
  hart : s.csrs .mhartid = s₀.csrs .mhartid
  counter : s.lrScCounter = counter
  settled : Settled s₀.io s.io

theorem kept_timed : Kept (Timed s₀ counter) where
  control := fun _ _ hc h => ⟨hc.hart.trans h.hart, hc.counter.trans h.counter, h.settled⟩
  assign := fun _ _ _ h => ⟨h.hart, h.counter, h.settled⟩
  copy := fun _ _ _ h => ⟨h.hart, h.counter, h.settled⟩
  log := fun _ _ h => ⟨h.hart, h.counter, h.settled.mmu, h.settled.silent⟩
  handler := fun _ _ h => ⟨h.hart, h.counter, h.settled⟩

/-- Whether the hart holds the lock besides. -/
structure Holding (s₀ : Iss) (counter : Nat) (held : Bool) (s : Iss) : Prop
    extends Timed s₀ counter s where
  lock : s.io.busLock.isLocked (s₀.csrs .mhartid) = held

theorem kept_holding {held : Bool} : Kept (Holding s₀ counter held) where
  control := fun s c hc h => ⟨kept_timed.control s c hc h.toTimed, h.lock⟩
  assign := fun s i v h => ⟨kept_timed.assign s i v h.toTimed, h.lock⟩
  copy := fun s i j h => ⟨kept_timed.copy s i j h.toTimed, h.lock⟩
  log := fun s log h => ⟨kept_timed.log s log h.toTimed, h.lock⟩
  handler := fun s handler h => ⟨kept_timed.handler s handler h.toTimed, h.lock⟩

/-! ## One instruction -/

/-- A fetch, whatever it does to the lock. -/
theorem timed_prepare (h : Timed s₀ counter s) (hd : prepare s = .ok () d) :
    Timed s₀ counter d := by
  have hthrows := transactionThrows_true (Settled s₀.io)
  refine (keeps_prepare kept_timed (fun addr => keeps_memory kept_timed fun t ht => ?_)
    (keeps_coverInstr fun _ _ h => ⟨h.hart, h.counter, h.settled⟩)).of_ok h hd
  have hreading : Reading (Settled s₀.io) (fun _ => True) t.view
      (Interface.transact t.view t.depth) :=
    stable_settled.reading (stays_transact stable_settled.persistent
      (hthrows t.view) t.depth)
  have hfinal := (stays_loadInstr hreading
    ⟨fun _ => trivial, fun _ _ _ _ _ _ _ => trivial, fun _ => trivial⟩ addr).final ht.settled
  exact ⟨ht.hart, ht.counter, hfinal.mmu, hfinal.silent⟩

/-- A call of the memory interface that ends with the lock. -/
theorem holding_memory {x : Transact → CoreView → MemM α} {a : α}
    {P : Interface → Prop} (h : memory x s = .ok a u) (hs : Timed s₀ counter s) (hP : P s.io)
    (hx : Triple P (x (Interface.transact s.view s.depth) s.view)
      (fun _ => Locked s.view.hartId s₀.io) (fun _ _ => True)) : Holding s₀ counter true u := by
  obtain ⟨io, hio, hserve⟩ := memory_eq_ok h
  have hlocked := hx.of_ok hP hio
  have hhart : s.view.hartId = s₀.csrs .mhartid := hs.hart
  rw [hhart] at hlocked
  have hreturned : Holding s₀ counter true { s with io := { io with requests := [] } } :=
    ⟨⟨hs.hart, hs.counter, hlocked.mmu, hlocked.silent⟩, hlocked.lock⟩
  exact (Triple.forM (keeps_serve kept_holding) io.requests).of_ok hreturned hserve

theorem Holding.locked (h : Holding s₀ counter true s) :
    Locked s.view.hartId s₀.io s.io := by
  have hhart : s.view.hartId = s₀.csrs .mhartid := h.hart
  rw [hhart]
  exact ⟨h.settled, h.lock⟩

section

variable (hentries : ¬ UpdatesEntries s₀.io s₀.view)
include hentries

/-- A fetch keeps the lock. -/
theorem holding_prepare (h : Holding s₀ counter true s) (hview : s.view = s₀.view)
    (hd : prepare s = .ok () d) : Holding s₀ counter true d := by
  obtain ⟨_, f, hfetch, hd⟩ := bind_eq_ok hd
  obtain ⟨word, u, hmemory, rfl⟩ := fetch_eq_ok hfetch
  have hfetching : Holding s₀ counter true s.fetching := kept_holding.log s _ h
  have hview' : s.fetching.view = s₀.view := hview
  have hu :
      Holding s₀ counter true u := holding_memory hmemory hfetching.toTimed hfetching.locked (by
    rw [hview']
    exact (stays_loadInstr (reading_locked hentries _)
      ⟨fun _ => trivial, fun _ _ _ _ _ _ _ => trivial, fun _ => trivial⟩ _).returning)
  have hfetched : Holding s₀ counter true { u with instr := ⟨word⟩ } :=
    kept_holding.control u { u.toControl with instr := ⟨word⟩ } ⟨rfl, rfl, rfl⟩ hu
  exact (Triple.bind (keeps_control kept_holding sparing_decode) fun _ =>
    keeps_coverInstr fun _ _ h => ⟨⟨h.hart, h.counter, h.settled⟩, h.lock⟩).of_ok hfetched hd

/-- A load keeps the lock. -/
theorem holding_load (h : Holding s₀ counter true d) (hview : d.view = s₀.view) (hop : d.op ∈ loads)
    (he : execute d.op d = .ok () e) : Holding s₀ counter true e := by
  rw [execute_load hop] at he
  obtain ⟨data, u, hmemory, hwrite⟩ := load_eq_ok he
  generalize (d.regs d.instr.rs1).value.add (I_IMM d.instr) = addr at hmemory
  have hchecked : Holding s₀ counter true (d.checked (loadSize d.op) addr) ∧
      (d.checked (loadSize d.op) addr).view = s₀.view := by
    unfold checked
    split
    · exact ⟨h, hview⟩
    · exact ⟨kept_holding.log d _ h, hview⟩
  have hreading := reading_locked hentries (d.checked (loadSize d.op) addr).depth
  have hthrows : TranslationThrows (Locked s₀.view.hartId s₀.io) (fun _ => True)
      s₀.view .STORE :=
    ⟨fun _ => trivial, fun _ _ _ _ _ _ _ => trivial, fun _ => trivial⟩
  have hu : Holding s₀ counter true u :=
    holding_memory hmemory hchecked.1.toTimed hchecked.1.locked (by
      rw [hchecked.2]
      unfold loadOperation
      refine .ite (fun _ => ?_) fun _ => .bind ?_ fun _ => .keepPure
      · exact (stays_loadUnsigned hreading hthrows _ _).returning
      · exact (stays_loadSigned hreading hthrows _ _).returning)
  exact (keeps_writeRd kept_holding _).of_ok hu hwrite

/-- A load reserved takes the lock. -/
theorem holding_lrW (h : Timed s₀ counter d) (hview : d.view = s₀.view) (he : lrW d = .ok () e) :
    Holding s₀ (reservationAge counter) true e := by
  obtain ⟨data, u, hmemory, rfl⟩ := lrW_eq_ok he
  have hnoted : Timed s₀ counter (d.noted (d.regs d.instr.rs1).value) := kept_timed.log d _ h
  have hview' : (d.noted (d.regs d.instr.rs1).value).view = s₀.view := hview
  have hthrows : TranslationThrows (Locked s₀.view.hartId s₀.io) (fun _ => True)
      s₀.view .STORE :=
    ⟨fun _ => trivial, fun _ _ _ _ _ _ _ => trivial, fun _ => trivial⟩
  have hu : Holding s₀ counter true u := holding_memory hmemory hnoted hnoted.settled (by
    rw [hview']
    refine .bind (Q := fun _ => Locked s₀.view.hartId s₀.io)
      (.modify fun _ h => ⟨⟨h.mmu, h.silent⟩, by simp [BusLock.lock, BusLock.isLocked]⟩) fun _ => ?_
    refine .bind (Q := fun _ => Locked s₀.view.hartId s₀.io)
      (.modify fun _ h => ⟨⟨h.mmu, h.silent⟩, h.lock⟩) fun _ => ?_
    exact (stays_loadSigned (reading_locked hentries _) hthrows _ _).returning)
  exact ⟨⟨hu.hart, congrArg reservationAge hu.counter, hu.settled⟩, hu.lock⟩

end

/-- The instructions that may end a reservation. -/
def reservationEnds : List Mapping := .WFI :: .SC_W :: stores ++ amos

/-- The age of a reservation at the end of an instruction. -/
theorem holding_execute (hentries : ¬ UpdatesEntries s₀.io s₀.view) (h : Timed s₀ counter d)
    (hview : d.view = s₀.view)
    (hop : d.op = .LR_W ∨ d.op ∉ reservationEnds ∧ counter ≠ 0 ∧ Holding s₀ counter true d)
    (he : execute d.op d = .ok () e) : Holding s₀ (reservationAge counter) true e := by
  by_cases hlr : d.op = .LR_W
  · rw [hlr] at he
    exact holding_lrW hentries h hview he
  obtain ⟨hends, hcounter, hheld⟩ := hop.resolve_left hlr
  rw [reservationAge, if_neg hcounter]
  by_cases hload : d.op ∈ loads
  · exact holding_load hentries hheld hview hload he
  · refine (keeps_execute kept_holding fun hmem => ?_).of_ok hheld he
    simp only [reservationEnds, List.mem_append, List.mem_cons, List.not_mem_nil,
      or_false] at hends hmem
    tauto

/-! ## One step -/

/-- A step whose instruction completes and in which no interrupt is taken. -/
structure Uninterrupted (s d e : Iss) : Prop where
  breakpoint : ¬(s.debugMode = true ∧ s.pc ∈ s.breakpoints)
  prepare : prepare s.begun = .ok () d
  execute : execute d.op d = .ok () e
  interrupts : e.computePendingInterrupts = none

theorem retire_of_uninterrupted (h : Uninterrupted s d e) (hrun : runStep s = .ok () s') :
    retire e = .ok () s' := by
  have hstep : execStep s.begun = .ok () e := by
    rw [execStep_eq_prepare, bind_of_ok h.prepare]
    exact h.execute
  have htry := stepOrTrap_of_ok hstep (takeInterrupt_of_none h.interrupts)
  rwa [runStep_eq (zero_of_runStep hrun) h.breakpoint, bind_of_ok htry] at hrun

theorem holding_releaseLrScReservation :
    Triple (Holding s₀ counter true) releaseLrScReservation (fun _ => Holding s₀ 0 false)
      (fun _ _ => True) := by
  refine .bind (Q := fun _ => Holding s₀ 0 true)
    (.modify fun _ h => ⟨⟨h.hart, rfl, h.settled⟩, h.lock⟩) fun _ => .getBind fun t ht => ?_
  refine .modify fun u hu => ?_
  subst hu
  have hhart : u.view.hartId = s₀.csrs .mhartid := ht.hart
  refine ⟨⟨ht.hart, ht.counter, ht.settled.mmu, ht.settled.silent⟩, ?_⟩
  rw [hhart]
  exact BusLock.isLocked_unlock _ _

/-- The countdown at the end of a step. -/
theorem holding_ageReservation (hcounter : counter ≠ 0) :
    Triple (Holding s₀ counter true) ageReservation
      (fun _ => Holding s₀ (counter - 1) (decide (counter ≠ 1))) (fun _ _ => True) := by
  refine .getBind fun s hs => ?_
  rw [hs.counter]
  refine .ite (fun _ => ?_) fun hzero => absurd hcounter hzero
  refine .bind (Q := fun _ => Holding s₀ (counter - 1) true) (.modify fun t ht => ?_) fun _ =>
    .ite (fun hend => ?_) fun hlasts => ?_
  · subst ht
    exact ⟨⟨hs.hart, rfl, hs.settled⟩, hs.lock⟩
  · have hone : decide (counter ≠ 1) = false := decide_eq_false (by omega)
    rw [hone, hend]
    exact holding_releaseLrScReservation
  · have hone : decide (counter ≠ 1) = true := decide_eq_true (by omega)
    rw [hone]
    exact .keepPure

theorem holding_retire (h : Holding s₀ counter true e) (hcounter : counter ≠ 0)
    (hretire : retire e = .ok () s') : Holding s₀ (counter - 1) (decide (counter ≠ 1)) s' :=
  (triple_retire_of_age kept_holding kept_holding (holding_ageReservation hcounter)).of_ok h hretire

/-- A step from a load reserved, or with the lock held. -/
theorem holding_step (hsilent : s.io.bus.Silent) (hentries : ¬ UpdatesEntries s.io s.view)
    (h : Uninterrupted s d e)
    (hop : d.op = .LR_W ∨ d.op ∉ reservationEnds ∧ s.lrScCounter ≠ 0 ∧ s.holdsLock = true)
    (hstep : step s = some s') :
    Holding s (reservationAge s.lrScCounter - 1)
      (decide (reservationAge s.lrScCounter ≠ 1)) s' := by
  have hrun := runStep_of_step hstep
  have hbegun : Timed s s.lrScCounter s.begun := ⟨rfl, rfl, rfl, hsilent⟩
  obtain ⟨word, hprepared⟩ := triple_prepare.of_ok rfl h.prepare
  have hview : d.view = s.view := hprepared.calm.drifts.view
  have hexecuted := holding_execute hentries (timed_prepare hbegun h.prepare) hview
    (hop.imp_right fun hplain => ⟨hplain.1, hplain.2.1,
      holding_prepare hentries ⟨hbegun, hplain.2.2⟩ rfl h.prepare⟩) h.execute
  refine holding_retire hexecuted ?_ (retire_of_uninterrupted h hrun)
  unfold reservationAge
  split <;> omega

theorem Holding.holdsLock {held : Bool} (h : Holding s₀ counter held s) : s.holdsLock = held := by
  rw [Iss.holdsLock, h.hart]
  exact h.lock

/-! ## Runs -/

section

variable {n : Nat} (hsilent : s.io.bus.Silent) (hlr : Uninterrupted s d e) (hop : d.op = .LR_W)
  (hplain : ∀ m u, 0 < m → m ≤ n → runSteps step m s = some u →
    ∃ d e, Uninterrupted u d e ∧ d.op ∉ reservationEnds)
  (hentries : ∀ m u, m ≤ n → runSteps step m s = some u → ¬ UpdatesEntries u.io u.view)
include hsilent hlr hop hplain hentries

/-- The countdown in a run from a load reserved, up to its end. -/
theorem countdown {m : Nat} (hm : m ≤ n) (hage : m + 1 ≤ reservationAge s.lrScCounter)
    (hrun : runSteps step (m + 1) s = some u) :
    u.lrScCounter = reservationAge s.lrScCounter - (m + 1) ∧
      u.holdsLock = decide (m + 1 < reservationAge s.lrScCounter) ∧ u.io.bus.Silent := by
  induction m generalizing u with
  | zero =>
    rw [runSteps_succ] at hrun
    have hholding := holding_step hsilent (hentries 0 s (Nat.zero_le n) rfl) hlr (.inl hop) hrun
    refine ⟨hholding.counter, hholding.holdsLock.trans ?_, hholding.settled.silent⟩
    exact decide_eq_decide.mpr (by omega)
  | succ m ih =>
    rw [runSteps_succ] at hrun
    obtain ⟨v, hv, hstep⟩ := Option.bind_eq_some_iff.mp hrun
    obtain ⟨hcounter, hheld, hsilent'⟩ := ih (by omega) (by omega) hv
    obtain ⟨d', e', hv', hop'⟩ := hplain (m + 1) v (Nat.succ_pos m) hm hv
    have hage' : reservationAge v.lrScCounter = reservationAge s.lrScCounter - (m + 1) := by
      rw [hcounter, reservationAge, if_neg (by omega)]
    have hholding := holding_step hsilent' (hentries (m + 1) v hm hv) hv'
      (.inr ⟨hop', by omega, hheld.trans (decide_eq_true (by omega))⟩) hstep
    rw [hage'] at hholding
    refine ⟨hholding.counter.trans (by omega), hholding.holdsLock.trans ?_,
      hholding.settled.silent⟩
    exact decide_eq_decide.mpr (by omega)

/-- The lock is held from a load reserved through the next instructions just if no countdown was
under way or it was long enough. -/
theorem reservation_lasts_iff (hn : n ≤ 15) (hrun : runSteps step (n + 1) s = some t) :
    (∀ m u, m ≤ n → runSteps step (m + 1) s = some u → u.holdsLock = true) ↔
      s.lrScCounter = 0 ∨ n + 2 ≤ s.lrScCounter := by
  have hcountdown := fun {m u} => countdown (u := u) hsilent hlr hop hplain hentries (m := m)
  constructor
  · intro hheld
    by_contra hshort
    have hage : reservationAge s.lrScCounter = s.lrScCounter := if_neg (by omega)
    -- the countdown ends within the run
    obtain ⟨u, hu⟩ := runSteps_of_le (m := s.lrScCounter - 1 + 1) (by omega) hrun
    obtain ⟨_, hreleased, _⟩ := hcountdown (m := s.lrScCounter - 1) (by omega) (by omega) hu
    rw [hheld _ u (by omega) hu] at hreleased
    exact absurd (of_decide_eq_true hreleased.symm) (by omega)
  · intro hlong m u hm hu
    have hage : n + 2 ≤ reservationAge s.lrScCounter := by
      unfold reservationAge
      split <;> omega
    exact (hcountdown hm (by omega) hu).2.1.trans (decide_eq_true (by omega))

end

/-- A step whose instruction completes, is in a list and after which no interrupt is taken. -/
def completes (ops : List Mapping) (s : Iss) : Bool :=
  decide (¬(s.debugMode = true ∧ s.pc ∈ s.breakpoints)) &&
    returnsIn (fun d => decide (d.op ∈ ops) &&
      returnsIn (fun e : Iss => decide (e.computePendingInterrupts = none)) (execute d.op d))
      (prepare s.begun)

theorem uninterrupted_of_completes {ops : List Mapping} (h : completes ops s = true) :
    ∃ d e, Uninterrupted s d e ∧ d.op ∈ ops := by
  obtain ⟨hbreak, hprepare⟩ := Bool.and_eq_true_iff.mp h
  obtain ⟨_, d, hd, h⟩ := eq_ok_of_returnsIn hprepare
  obtain ⟨hop, hexecute⟩ := Bool.and_eq_true_iff.mp h
  obtain ⟨_, e, he, hinterrupts⟩ := eq_ok_of_returnsIn hexecute
  exact ⟨d, e, ⟨of_decide_eq_true hbreak, hd, he, of_decide_eq_true hinterrupts⟩,
    of_decide_eq_true hop⟩

/-- `lr.w x5, (x1)` and `addi x1, x1, 0`. -/
def reservesAndAdds : List (BitVec 32) := [0x1000a2af#32, 0x00008093#32]

/-- The lock is held after both instructions. -/
theorem reservation_lasts_addi : ∃ t, runSteps step 2 (boot reservesAndAdds) = some t ∧
    ∀ m u, m ≤ 1 → runSteps step (m + 1) (boot reservesAndAdds) = some u → u.holdsLock = true := by
  have hfirst : completes [.LR_W] (boot reservesAndAdds) = true := by decide +kernel
  have hsecond : (runSteps step 1 (boot reservesAndAdds)).map (fun u =>
      (completes [.ADDI] u, u.io.mmu.isNone)) = some (true, true) := by
    decide +kernel
  have hlast : (runSteps step 2 (boot reservesAndAdds)).isSome = true := by decide +kernel
  obtain ⟨d, e, hlr, hop⟩ := uninterrupted_of_completes hfirst
  obtain ⟨v, hv, h⟩ := Option.map_eq_some_iff.mp hsecond
  obtain ⟨hv', hmmu⟩ := Prod.mk.inj h
  obtain ⟨t, ht⟩ := Option.isSome_iff_exists.mp hlast
  refine ⟨t, ht,
    (reservation_lasts_iff (n := 1) ?_ hlr (List.mem_singleton.mp hop) ?_ ?_ (by decide)
    ht).mpr (.inl rfl)⟩
  · exact List.forall_mem_singleton.mpr trivial
  · intro m u hpos hm hu
    obtain rfl : m = 1 := by omega
    obtain rfl := Option.some.inj (hv.symm.trans hu)
    obtain ⟨d, e, hstep, hop⟩ := uninterrupted_of_completes hv'
    refine ⟨d, e, hstep, ?_⟩
    rw [List.mem_singleton.mp hop]
    decide
  · intro m u hm hu
    obtain rfl | rfl : m = 0 ∨ m = 1 := by omega
    · cases hu
      exact fun h => absurd h.1 (by decide)
    · obtain rfl := Option.some.inj (hv.symm.trans hu)
      rintro ⟨h, _⟩
      rw [Option.isNone_iff_eq_none.mp hmmu] at h
      cases h

/-- A load reserved, 15 times `addi x1, x1, 0`, and a load reserved. -/
def reservesTwice : List (BitVec 32) :=
  0x1000a2af#32 :: List.replicate 15 0x00008093#32 ++ [0x1000a2af#32]

/-- The second load reserved ends with the countdown of the first one, and the lock is given up at
once. -/
theorem reservation_ends_at_once : ∃ s d e s', runSteps step 16 (boot reservesTwice) = some s ∧
    Uninterrupted s d e ∧ d.op = .LR_W ∧ step s = some s' ∧ s'.holdsLock = false := by
  have hrun : (runSteps step 16 (boot reservesTwice)).map (fun s =>
      (completes [.LR_W] s, (step s).map (·.holdsLock))) = some (true, some false) := by
    decide +kernel
  obtain ⟨s, hs, h⟩ := Option.map_eq_some_iff.mp hrun
  obtain ⟨hcompletes, hstep⟩ := Prod.mk.inj h
  obtain ⟨d, e, hlr, hop⟩ := uninterrupted_of_completes hcompletes
  obtain ⟨s', hs', hheld⟩ := Option.map_eq_some_iff.mp hstep
  exact ⟨s, d, e, s', hs, hlr, List.mem_singleton.mp hop, hs', hheld⟩

end Iss

end SpsVp.Rv32
