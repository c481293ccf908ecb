import SpsVp.Symex.Explore

/-!
# Runs and partially explored paths

Two invariants of the exploration. `RunInvariant` relates the run in progress and the recorded runs
to the state of the machine. `KeepsPartial` follows an input that `early_exit` has kept: it stays in
`partially_explored` until the sequence length reaches its own, and is taken out exactly for a run.
From them, `partial_paths_replayed` says what becomes of every kept input.
-/

namespace SpsVp.Symex

open Klee Clover SymbolicContext

namespace RunRecord

/-- The run passed no constraint to `assume` that was not assumed before it. -/
def OnlyKnown (r : RunRecord) : Prop := ∀ p ∈ r.assumed, eqTrue p.2 ∈ r.known

end RunRecord

namespace Machine

variable {cm : ConstraintManager} {P : Answers → Prop} {m m' : Machine}

/-- The run in progress and the recorded runs. -/
structure RunInvariant (m : Machine) : Prop where
  length : m.control = .running → m.current.length = m.pktseqlen.toNat
  sequence : m.control = .running → m.sym.packetSequenceLength = m.pktseqlen.toNat
  known : m.control = .running → m.current.known = m.sym.constraints
  running : m.control = .running → m.current.stopped = false ∧ m.current.recorded = none
  passed : m.control = .running → m.current.OnlyKnown
  stopped : ∀ r, .run r ∈ m.history → (r.stopped = false ↔ r.OnlyKnown)

theorem runInvariant_start {maxpktseq : BitVec 32} {rng : Rand} {answers : Answers}
    {actions : Nat → Action} {branches : Nat → Nat} :
    (start maxpktseq rng answers actions branches).RunInvariant := by
  constructor <;> simp [start]

/-- A run that starts has met nothing yet. -/
theorem RunInvariant.startRun (h : m.RunInvariant) (replayed : Option ConcreteStore) :
    (m.startRun replayed).RunInvariant where
  length _ := rfl
  sequence _ := rfl
  known _ := rfl
  running _ := ⟨rfl, rfl⟩
  passed _ := by simp [Machine.startRun, RunRecord.OnlyKnown]
  stopped := h.stopped

/-- A run that ends is recorded. -/
theorem RunInvariant.endRun
    (hstopped : ∀ r, .run r ∈ m.history → (r.stopped = false ↔ r.OnlyKnown))
    (hcurrent : m.current.stopped = false ↔ m.current.OnlyKnown) (ret : Nat) :
    (m.endRun ret).RunInvariant := by
  have hcontrol := (m.endRun_control_ne ret).1
  refine ⟨fun h => absurd h hcontrol, fun h => absurd h hcontrol, fun h => absurd h hcontrol,
    fun h => absurd h hcontrol, fun h => absurd h hcontrol, fun r hr => ?_⟩
  simp only [Machine.endRun, List.mem_append, List.mem_singleton, Entry.run.injEq] at hr
  obtain hr | rfl := hr
  · exact hstopped r hr
  · exact hcurrent

/-- Outside a run only the recorded runs matter. -/
theorem RunInvariant.outside (h : m.RunInvariant) (hcontrol : m'.control ≠ .running)
    (hhistory : ∀ r, .run r ∈ m'.history → .run r ∈ m.history) : m'.RunInvariant where
  length hc := absurd hc hcontrol
  sequence hc := absurd hc hcontrol
  known hc := absurd hc hcontrol
  running hc := absurd hc hcontrol
  passed hc := absurd hc hcontrol
  stopped r hr := h.stopped r (hhistory r hr)

theorem run_mem_isStuck {r : RunRecord} : .run r ∈ m.isStuck.2.history ↔ .run r ∈ m.history := by
  simp only [isStuck]
  split_ifs <;> simp

/-- Every step keeps the invariant. -/
theorem runInvariant_step (h : m.RunInvariant) (hstep : Step cm m m') : m'.RunInvariant := by
  cases hstep with
  | outer hc =>
    refine h.outside ?_ (fun r hr => hr)
    show (if m.foundAssig then Control.explore else Control.lengthen) ≠ .running
    split_ifs <;> simp
  | explore hc => exact h.startRun none
  | request | branch =>
    exact ⟨h.length, h.sequence, h.known, h.running, h.passed, h.stopped⟩
  | assumeKnown hc constraint hknown =>
    refine ⟨h.length, h.sequence, h.known, fun _ => ⟨rfl, (h.running hc).2⟩, fun _ => ?_,
      h.stopped⟩
    intro p hp
    rw [List.mem_append, List.mem_singleton] at hp
    obtain hp | rfl := hp
    · exact h.passed hc p hp
    · rw [← h.known hc] at hknown
      exact hknown
  | assumeNew hc constraint trace hnew hassume =>
    refine RunInvariant.endRun ?_ (iff_of_false (by simp) fun honly => ?_) 1
    · exact h.stopped
    -- the last constraint was not known
    have hlast : eqTrue constraint ∈ m.current.known :=
      honly (m.current.directions, constraint) (by simp)
    rw [h.known hc] at hlast
    exact absurd hlast hnew
  | packet hc hmore =>
    exact ⟨h.length, h.sequence, h.known, h.running, h.passed, h.stopped⟩
  | lastPacket hc hlast =>
    refine RunInvariant.endRun ?_ (iff_of_true ?_ ?_) 0
    · exact h.stopped
    · exact (h.running hc).1
    · exact h.passed hc
  | exit hc ret =>
    refine RunInvariant.endRun ?_ (iff_of_true ?_ ?_) ret
    · exact h.stopped
    · exact (h.running hc).1
    · exact h.passed hc
  | negateStuck hc hstuck =>
    exact h.outside (by simp) (fun r hr => run_mem_isStuck.mp hr)
  | negate hc hstuck setup sym rng answers hsetup =>
    refine h.outside ?_ (fun r hr => run_mem_isStuck.mp hr)
    show setup.afterNegate ≠ .running
    cases setup <;> simp [Setup.afterNegate]
  | lengthen hc =>
    refine h.outside ?_ (fun r hr => hr)
    dsimp only
    split_ifs <;> simp
  | replayEmpty hc hnone => exact h.outside (by simp) (fun r hr => hr)
  | replayStuck hc store sym rng hpop hstuck =>
    exact h.outside (by simp) (fun r hr => run_mem_isStuck.mp hr)
  | replay hc store sym rng hpop hstuck =>
    have hcontrol : m.isStuck.2.control ≠ .running := by simp [isStuck, hc]
    refine RunInvariant.startRun ?_ (some store)
    exact h.outside hcontrol (fun r hr => run_mem_isStuck.mp hr)
  | assign hc setup sym rng answers hne hsetup =>
    exact h.outside (by simp [isStuckReset]) (fun r hr => hr)
  | assignThrow hc sym rng answers hsetup => exact h.outside (by simp) (fun r hr => hr)

/-- The invariant holds in every exploration. -/
theorem reachable_runInvariant (hm : Reachable cm P m) : m.RunInvariant := by
  refine hm.invariant ?_ ?_
  · rintro s ⟨maxpktseq, rng, answers, actions, branches, -, rfl⟩
    exact runInvariant_start
  · intro s s' _ hs hstep
    exact runInvariant_step hs (step_cases hstep)

/-! ## Kept inputs -/

/-- One of the entries is a run at length `n` that was started with the input. -/
def Replayed (entries : List Entry) (n : Nat) (store : ConcreteStore) : Prop :=
  ∃ r, .run r ∈ entries ∧ r.length = n ∧ r.replayed = some store

/-- The machine is in the loop over partial paths. -/
def InReplayLoop (m : Machine) : Prop :=
  m.control = .replay ∨ m.control = .running ∧ m.current.replayed ≠ none

/-- Where an input is that was kept for length `n`, when `later` are the entries since. When the
length is still to come, the input can have been used before the counter has wrapped. -/
structure Kept (m : Machine) (n : Nat) (store : ConcreteStore) (later : List Entry) : Prop where
  before : m.pktseqlen.toNat < n → store ∈ m.sym.partiallyExplored n ∨ Replayed later n store
  during : m.pktseqlen.toNat = n → m.InReplayLoop →
    store ∈ m.sym.partiallyExplored n ∨ Replayed later n store ∨
      m.control = .running ∧ m.current.replayed = some store
  after : m.pktseqlen.toNat = n → ¬ m.InReplayLoop → (∀ ret, m.control ≠ .returned ret) →
    Replayed later n store
  passed : n < m.pktseqlen.toNat → Replayed later n store

/-- Every input that was kept for a length is where it should be, unless `is_stuck` has fired
since. -/
def KeepsPartial (m : Machine) : Prop :=
  ∀ earlier r later store, m.history = earlier ++ .run r :: later → r.recorded = some store →
    .stuck ∉ later → r.length + 1 < 0x100000000 → m.Kept (r.length + 1) store later

variable {entries later : List Entry} {n : Nat} {store : ConcreteStore}

theorem Replayed.append
    (h : Replayed entries n store) (more : List Entry) : Replayed (entries ++ more) n store := by
  obtain ⟨r, hr, hlength, hreplayed⟩ := h
  exact ⟨r, List.mem_append_left _ hr, hlength, hreplayed⟩

/-- Steps that neither end a run nor fire `is_stuck` only have to move the inputs along. -/
theorem KeepsPartial.of_same_history (h : m.KeepsPartial) (hhistory : m'.history = m.history)
    (hkept : ∀ n store later, 0 < n → n < 0x100000000 → m.Kept n store later →
      m'.Kept n store later) : m'.KeepsPartial :=
  fun earlier r later store hsplit hrecorded hstuck hn =>
    hkept _ _ _ (Nat.succ_pos _) hn
      (h earlier r later store (hhistory ▸ hsplit) hrecorded hstuck hn)

/-- Splitting a history at an entry: the last entry is behind it, or is it. -/
theorem concat_eq_split {earlier : List Entry} {last e : Entry}
    (h : entries ++ [last] = earlier ++ e :: later) :
    (∃ rest, later = rest ++ [last] ∧ entries = earlier ++ e :: rest) ∨
      later = [] ∧ entries = earlier ∧ last = e := by
  cases later using List.reverseRecOn with
  | nil =>
    obtain ⟨hentries, hlast⟩ := List.append_inj' h rfl
    exact .inr ⟨rfl, hentries, List.head_eq_of_cons_eq hlast⟩
  | append_singleton rest e' =>
    rw [← List.cons_append, ← List.append_assoc] at h
    obtain ⟨hentries, hlast⟩ := List.append_inj' h rfl
    exact .inl ⟨rest, by rw [List.head_eq_of_cons_eq hlast], hentries⟩

/-- Nothing is claimed once `is_stuck` has fired. -/
theorem keepsPartial_stuck (hhistory : m'.history = entries ++ [.stuck]) :
    m'.KeepsPartial := by
  intro earlier r later store hsplit _ hstuck _
  rw [hhistory] at hsplit
  obtain ⟨rest, rfl, -⟩ | ⟨-, -, he⟩ := concat_eq_split hsplit
  · exact absurd (by simp) hstuck
  · cases he

/-- Between program points outside the loop over partial paths nothing moves. -/
theorem Kept.outside
    (h : m.Kept n store later) (hloop : ¬ m.InReplayLoop) (hret : ∀ ret, m.control ≠ .returned ret)
    (hloop' : ¬ m'.InReplayLoop) (hlen : m'.pktseqlen = m.pktseqlen)
    (hstores : m'.sym.partiallyExplored = m.sym.partiallyExplored) :
    m'.Kept n store later where
  before hn := hstores ▸ h.before (hlen ▸ hn)
  during _ hl := absurd hl hloop'
  after hn _ _ := h.after (hlen ▸ hn) hloop hret
  passed hn := h.passed (hlen ▸ hn)

/-- Inside a run nothing moves. -/
theorem Kept.running
    (h : m.Kept n store later) (hc : m.control = .running) (hc' : m'.control = .running)
    (hreplayed : m'.current.replayed = m.current.replayed) (hlen : m'.pktseqlen = m.pktseqlen)
    (hstores : m'.sym.partiallyExplored = m.sym.partiallyExplored) :
    m'.Kept n store later := by
  have hloop : m'.InReplayLoop ↔ m.InReplayLoop := by
    simp [InReplayLoop, hc, hc', hreplayed]
  exact {
    before := fun hn => hstores ▸ h.before (hlen ▸ hn)
    during := fun hn hl => by
      rw [hstores, hreplayed, hc'.trans hc.symm]
      exact h.during (hlen ▸ hn) (hloop.mp hl)
    after := fun hn hl _ => h.after (hlen ▸ hn) (fun hm => hl (hloop.mpr hm)) (by simp [hc])
    passed := fun hn => h.passed (hlen ▸ hn) }

/-- The end of a run moves an input that the run was started with into the history. -/
theorem Kept.endRun
    (h : m.Kept n store later) (hc : m.control = .running)
    (hreplayed : m'.current.replayed = m.current.replayed) (hlen : m'.pktseqlen = m.pktseqlen)
    (hlength : m'.current.length = m.pktseqlen.toNat)
    (hstores : ∀ k, m.sym.partiallyExplored k ⊆ m'.sym.partiallyExplored k) (ret : Nat) :
    (m'.endRun ret).Kept n store
      (later ++ [.run { m'.current with store := m'.sym.ctx.getPrevStore }]) where
  before hn := (h.before (hlen ▸ hn)).imp (fun hkept => hstores n hkept) (·.append _)
  during hn hl := by
    have hsome : m.current.replayed ≠ none := by
      intro hnone
      simp only [InReplayLoop, Machine.endRun, hreplayed, hnone] at hl
      split_ifs at hl <;> simp_all
    obtain hkept | hdone | ⟨-, hnow⟩ := h.during (hlen ▸ hn) (.inr ⟨hc, hsome⟩)
    · exact .inl (hstores n hkept)
    · exact .inr (.inl (hdone.append _))
    · refine .inr (.inl ⟨_, List.mem_append_right _ (List.mem_singleton_self _), ?_, ?_⟩)
      · exact hlength.trans (hlen ▸ hn)
      · exact hreplayed.trans hnow
  after hn hl hret := by
    refine (h.after (hlen ▸ hn) ?_ (by simp [hc])).append _
    rintro (hcontrol | ⟨-, hsome⟩)
    · rw [hc] at hcontrol
      cases hcontrol
    · refine hl (.inl ?_)
      simp only [Machine.endRun] at hret ⊢
      split_ifs at hret ⊢ with hfail hrep
      · exact absurd rfl (hret ret)
      · rfl
      · rw [hreplayed, Option.isSome_iff_ne_none] at hrep
        exact absurd hsome hrep
  passed hn := (h.passed (hlen ▸ hn)).append _

/-- The end of a run keeps every input where it should be, the run's own one included. -/
theorem KeepsPartial.endRun (h : m.KeepsPartial) (hc : m.control = .running)
    (hrun : m.RunInvariant)
    (hsame : m'.history = m.history ∧ m'.current.replayed = m.current.replayed ∧
      m'.pktseqlen = m.pktseqlen ∧ m'.current.length = m.current.length)
    (hstores : ∀ k, m.sym.partiallyExplored k ⊆ m'.sym.partiallyExplored k)
    (hrecorded : ∀ store, m'.current.recorded = some store →
      store ∈ m'.sym.partiallyExplored ((m.pktseqlen.toNat + 1) % 0x100000000)) (ret : Nat) :
    (m'.endRun ret).KeepsPartial := by
  obtain ⟨hhistory, hreplayed, hlen, hlength⟩ := hsame
  rw [hrun.length hc] at hlength
  intro earlier r later store hsplit hr hstuck hn
  simp only [Machine.endRun, hhistory] at hsplit
  obtain ⟨rest, rfl, hrest⟩ | ⟨rfl, -, he⟩ := concat_eq_split hsplit
  · have hkept := h earlier r rest store hrest hr (fun hm => hstuck (List.mem_append_left _ hm)) hn
    exact hkept.endRun hc hreplayed hlen hlength hstores ret
  · cases he
    -- the run that ends is the one that was kept: its length is the current one
    have hstore := hrecorded store hr
    have hend : (m'.endRun ret).pktseqlen.toNat = m.pktseqlen.toNat := congrArg BitVec.toNat hlen
    dsimp only at hn ⊢
    rw [hlength] at hn ⊢
    rw [Nat.mod_eq_of_lt hn] at hstore
    refine ⟨fun _ => .inl hstore, fun hn => ?_, fun hn => ?_, fun hn => ?_⟩ <;> omega

theorem isStuck_history (h : m.isStuck.1 = false) : m.isStuck.2.history = m.history := by
  simp only [isStuck, decide_eq_false_iff_not] at h ⊢
  simp [h]

theorem isStuck_history_stuck (h : m.isStuck.1 = true) :
    m.isStuck.2.history = m.history ++ [.stuck] := by
  simp only [isStuck, decide_eq_true_eq] at h ⊢
  simp [h]

/-- The longer sequence starts with the loop over the paths that were kept for it. -/
theorem Kept.lengthen (h : m.Kept n store later) (hpos : 0 < n) (hn : n < 0x100000000)
    (hc : m.control = .lengthen) :
    Kept { m with
      pktseqlen := m.pktseqlen + 1#32
      control :=
        if m.maxpktseq ≠ 0 ∧ m.pktseqlen + 1#32 > m.maxpktseq then .returned 0 else .replay }
      n store later := by
  -- a length that is not still to come has been passed, also when the counter wraps
  have hreached : n ≤ m.pktseqlen.toNat → Replayed later n store := by
    intro hle
    obtain hlt | heq := Nat.lt_or_eq_of_le hle
    · exact h.passed hlt
    · exact h.after heq.symm (by simp [InReplayLoop, hc]) (by simp [hc])
  have hnext : (m.pktseqlen + 1#32).toNat = (m.pktseqlen.toNat + 1) % 0x100000000 :=
    BitVec.toNat_add _ _
  refine ⟨fun _ => ?_, fun hlen _ => ?_, fun _ hl hret => ?_, fun hlen => ?_⟩
  · obtain hlt | hle := Nat.lt_or_ge m.pktseqlen.toNat n
    · exact h.before hlt
    · exact .inr (hreached hle)
  · obtain hkept | hdone := h.before (by dsimp only at hlen; omega)
    · exact .inl hkept
    · exact .inr (.inl hdone)
  · simp only [InReplayLoop] at hl hret
    split_ifs at hl hret
    · exact absurd rfl (hret 0)
    · exact absurd (.inl rfl) hl
  · exact hreached (by dsimp only at hlen; omega)

/-- A path that is taken out is the one the next run is started with. -/
theorem Kept.replay {idx : Nat} {popped : ConcreteStore}
    (h : m.Kept n store later) (hc : m.control = .replay)
    (hpop : (m.sym.partiallyExplored m.pktseqlen.toNat)[idx]? = some popped)
    (hstores : m'.sym.partiallyExplored =
      Function.update m.sym.partiallyExplored m.pktseqlen.toNat
        ((m.sym.partiallyExplored m.pktseqlen.toNat).eraseIdx idx))
    (hc' : m'.control = .running) (hreplayed : m'.current.replayed = some popped)
    (hlen : m'.pktseqlen = m.pktseqlen) : m'.Kept n store later where
  before hn := by
    rw [hlen] at hn
    rw [hstores, Function.update_of_ne (by omega)]
    exact h.before hn
  during hn _ := by
    obtain rfl : m.pktseqlen.toNat = n := hlen ▸ hn
    obtain hkept | hdone | ⟨hrunning, -⟩ := h.during rfl (.inl hc)
    · rw [hstores, Function.update_self]
      by_cases hstore : store = popped
      · exact .inr (.inr ⟨hc', hstore ▸ hreplayed⟩)
      · refine .inl ?_
        obtain ⟨i, hi⟩ := List.mem_iff_getElem?.mp hkept
        have hne : i ≠ idx := by
          rintro rfl
          exact hstore (Option.some.inj (hi.symm.trans hpop))
        exact List.mem_eraseIdx_iff_getElem?.mpr ⟨i, hne, hi⟩
    · exact .inr (.inl hdone)
    · rw [hc] at hrunning
      cases hrunning
  after _ hl _ := absurd (.inr ⟨hc', by simp [hreplayed]⟩) hl
  passed hn := h.passed (hlen ▸ hn)

/-- Every step keeps the kept inputs where they should be. -/
theorem keepsPartial_step (hrun : m.RunInvariant) (h : m.KeepsPartial) (hstep : Step cm m m') :
    m'.KeepsPartial := by
  cases hstep with
  | outer hc =>
    refine h.of_same_history rfl fun n store later _ _ hk => hk.outside ?_ ?_ ?_ rfl rfl
    · simp [InReplayLoop, hc]
    · simp [hc]
    · simp only [InReplayLoop]
      split_ifs <;> simp
  | explore hc =>
    refine h.of_same_history rfl fun n store later _ _ hk => hk.outside ?_ ?_ ?_ rfl rfl
    · simp [InReplayLoop, hc]
    · simp [hc]
    · simp [InReplayLoop, Machine.startRun]
  | request hc T name value ctx rng hfind =>
    exact h.of_same_history rfl fun n store later _ _ hk => hk.running hc hc rfl rfl rfl
  | branch hc cond bv pc trace hadd =>
    exact h.of_same_history rfl fun n store later _ _ hk => hk.running hc hc rfl rfl rfl
  | assumeKnown hc constraint hknown =>
    exact h.of_same_history rfl fun n store later _ _ hk => hk.running hc hc rfl rfl rfl
  | assumeNew hc constraint trace hnew hassume =>
    refine h.endRun hc hrun ?_ ?_ ?_ 1
    · exact ⟨rfl, rfl, rfl, rfl⟩
    · exact fun k => List.Subset.refl _
    · exact fun store hs => absurd ((hrun.running hc).2.symm.trans hs) (by simp)
  | packet hc hmore =>
    exact h.of_same_history rfl fun n store later _ _ hk => hk.running hc hc rfl rfl rfl
  | lastPacket hc hlast =>
    refine h.endRun hc hrun ?_ ?_ ?_ 0
    · exact ⟨rfl, rfl, rfl, rfl⟩
    · exact subset_earlyExit m.sym.processedPacket.1 _
    · rintro store ⟨⟩
      rw [← hrun.sequence hc]
      exact mem_earlyExit m.sym.processedPacket.1 _
  | exit hc ret =>
    refine h.endRun hc hrun ?_ ?_ ?_ ret
    · exact ⟨rfl, rfl, rfl, rfl⟩
    · exact fun k => List.Subset.refl _
    · exact fun store hs => absurd ((hrun.running hc).2.symm.trans hs) (by simp)
  | negateStuck hc hstuck => exact keepsPartial_stuck (isStuck_history_stuck hstuck)
  | negate hc hstuck setup sym rng answers hsetup =>
    have hframe := setupNewValues_frame hsetup
    refine h.of_same_history (isStuck_history hstuck) fun n store later _ _ hk =>
      hk.outside ?_ ?_ ?_ rfl hframe.2.1
    · simp [InReplayLoop, hc]
    · simp [hc]
    · cases setup <;> simp [InReplayLoop, Setup.afterNegate]
  | lengthen hc =>
    exact h.of_same_history rfl fun n store later hpos hn hk => hk.lengthen hpos hn hc
  | replayEmpty hc hnone =>
    have hempty := randomPartial_eq_none hnone
    refine h.of_same_history rfl fun n store later _ _ hk =>
      ⟨hk.before, fun _ hl => ?_, fun hn _ _ => ?_, hk.passed⟩
    · simp [InReplayLoop] at hl
    -- nothing is left at this length, so the input has been taken out for a run
    · obtain rfl : m.pktseqlen.toNat = n := hn
      obtain hkept | hdone | ⟨hrunning, -⟩ := hk.during rfl (.inl hc)
      · rw [hempty] at hkept
        cases hkept
      · exact hdone
      · rw [hc] at hrunning
        cases hrunning
  | replayStuck hc store sym rng hpop hstuck =>
    exact keepsPartial_stuck (isStuck_history_stuck hstuck)
  | replay hc store sym rng hpop hstuck =>
    obtain ⟨idx, hidx, rfl⟩ := randomPartial_cases hpop
    exact h.of_same_history (isStuck_history hstuck) fun n s later _ _ hk =>
      hk.replay hc hidx rfl rfl rfl rfl
  | assign hc setup sym rng answers hne hsetup =>
    have hframe := setupNewValues_frame hsetup
    refine h.of_same_history rfl fun n store later _ _ hk => hk.outside ?_ ?_ ?_ rfl hframe.2.1
    · simp [InReplayLoop, hc]
    · simp [hc]
    · simp [InReplayLoop, isStuckReset]
  | assignThrow hc sym rng answers hsetup =>
    have hframe := setupNewValues_frame hsetup
    refine h.of_same_history rfl fun n store later _ _ hk => hk.outside ?_ ?_ ?_ rfl hframe.2.1
    · simp [InReplayLoop, hc]
    · simp [hc]
    · simp [InReplayLoop]

theorem reachable_keepsPartial (hm : Reachable cm P m) : m.KeepsPartial := by
  refine Lib.Reachable.invariant ?_ ?_ hm
  · rintro _ ⟨maxpktseq, rng, answers, actions, branches, -, rfl⟩ earlier r later store hsplit
    simp [start] at hsplit
  · intro s s' hs hkeeps hstep
    exact keepsPartial_step (reachable_runInvariant hs) hkeeps (step_cases hstep)

/-- An input that `early_exit` has kept at length `k` is the input of a run at length `k + 1` before
the exploration goes on to length `k + 2`, unless `is_stuck` has fired. One of these runs is not
stopped by an assumption exactly when one of them passes only constraints that were known when it
started. -/
theorem partial_paths_replayed (hm : Reachable cm P m) {earlier later : List Entry} {r : RunRecord}
    {store : ConcreteStore} (hsplit : m.history = earlier ++ .run r :: later)
    (hrecorded : r.recorded = some store) (hstuck : .stuck ∉ later)
    (hlen : r.length + 2 ≤ m.pktseqlen.toNat) :
    Replayed later (r.length + 1) store ∧
      ((∃ r', .run r' ∈ later ∧ r'.length = r.length + 1 ∧ r'.replayed = some store ∧
          r'.stopped = false) ↔
        ∃ r', .run r' ∈ later ∧ r'.length = r.length + 1 ∧ r'.replayed = some store ∧
          r'.OnlyKnown) := by
  have hkept := reachable_keepsPartial hm earlier r later store hsplit hrecorded hstuck (by omega)
  refine ⟨hkept.passed hlen, exists_congr fun r' => ?_⟩
  refine and_congr_right fun hr' => and_congr_right fun _ => and_congr_right fun _ => ?_
  have hmem : .run r' ∈ m.history := by
    rw [hsplit]
    exact List.mem_append_right _ (List.mem_cons_of_mem _ hr')
  exact (reachable_runInvariant hm).stopped r' hmem

/-- A guest that handles two packets, the first of which has a symbolic field. -/
noncomputable def twoPackets : Machine :=
  start 0 (Fin.ofNat _) (.preferring fun _ _ => 0#8)
    (Action.script [.request .uint8 "pkt0:x:byte0", .processedPacket,
      .request .uint8 "pkt0:x:byte0", .processedPacket, .processedPacket]) (· + 1)

/-- The input of its first run is used again at length two. -/
theorem partial_paths_replayed_twoPackets :
    ∃ m earlier r later store, Lib.runSteps (step .plain) 14 twoPackets = some m ∧
      m.history = earlier ++ .run r :: later ∧ r.recorded = some store ∧
      ∃ r', .run r' ∈ later ∧ r'.length = r.length + 1 ∧ r'.replayed = some store ∧
        r'.stopped = false := by
  obtain ⟨m, r₁, r₂, store, hrun, hhistory, hrecorded, hreplayed, hlength, hlen, hassumed⟩ :
      ∃ m r₁ r₂ store, Lib.runSteps (step .plain) 14 twoPackets = some m ∧
        m.history = [.run r₁, .run r₂] ∧ r₁.recorded = some store ∧ r₂.replayed = some store ∧
        (r₁.length = 1 ∧ r₂.length = 2) ∧ m.pktseqlen.toNat = 3 ∧ r₂.assumed = [] :=
    ⟨_, _, _, _, rfl, rfl, rfl, rfl, ⟨rfl, rfl⟩, rfl, rfl⟩
  have hstart : Initial (fun _ => True) twoPackets := ⟨_, _, _, _, _, trivial, rfl⟩
  have hm := Lib.Reachable.run (.initial hstart) hrun
  have hsplit : m.history = [] ++ .run r₁ :: [.run r₂] := hhistory
  refine ⟨m, [], r₁, [.run r₂], store, hrun, hsplit, hrecorded, ?_⟩
  refine (partial_paths_replayed hm hsplit hrecorded (by simp) (by omega)).2.mpr ?_
  exact ⟨r₂,
    List.mem_singleton_self _, by omega, hreplayed, by simp [RunRecord.OnlyKnown, hassumed]⟩

/-- The condition that the field of the second packet is zero. -/
def secondPacketZero : Expr 1 :=
  .comparison .Eq (Expr.createTempReadByte "pkt1:y:byte0") (.Constant 0#8)

/-- A guest and a server that assumes a constraint on the second packet. -/
noncomputable def constrainedPacket : Machine :=
  start 0 (Fin.ofNat _) (.preferring fun _ _ => 0#8)
    (Action.script [.request .uint8 "pkt0:x:byte0", .processedPacket,
      .request .uint8 "pkt0:x:byte0", .processedPacket,
      .request .uint8 "pkt1:y:byte0", .assume secondPacketZero,
      .request .uint8 "pkt0:x:byte0", .processedPacket,
      .request .uint8 "pkt1:y:byte0", .assume secondPacketZero]) (· + 1)

/-- Its kept input is lost: the only run that is started with it is stopped by the constraint, and
the run after that gets another first packet. -/
theorem constrainedPacket_lost :
    ∃ m earlier r later store, Reachable .plain (fun a => a.Correct ∧ a.Complete) m ∧
      m.history = earlier ++ .run r :: later ∧ r.recorded = some store ∧ .stuck ∉ later ∧
      r.length + 2 ≤ m.pktseqlen.toNat ∧
      (¬ ∃ r', .run r' ∈ later ∧ r'.length = r.length + 1 ∧ r'.replayed = some store ∧
        r'.stopped = false) ∧
      ∀ r', .run r' ∈ later → r'.stopped = false →
        r'.store "pkt0:x:byte0" ≠ store "pkt0:x:byte0" := by
  obtain ⟨m, r₁, r₂, r₃, store, hrun, hhistory, hrecorded, hlength, hlen, hstopped, hfresh, hx⟩ :
      ∃ m r₁ r₂ r₃ store, Lib.runSteps (step .plain) 22 constrainedPacket = some m ∧
        m.history = [.run r₁, .run r₂, .run r₃] ∧ r₁.recorded = some store ∧
        r₁.length = 1 ∧ m.pktseqlen.toNat = 3 ∧ r₂.stopped = true ∧ r₃.replayed = none ∧
        r₃.store "pkt0:x:byte0" = some (.uint8 3#8) ∧ store "pkt0:x:byte0" = some (.uint8 0#8) :=
    ⟨_, _, _, _, _, rfl, rfl, rfl, rfl, rfl, rfl, rfl, rfl, rfl⟩
  have hstart : Initial (fun a => a.Correct ∧ a.Complete) constrainedPacket :=
    ⟨_, _, _, _, _, ⟨Answers.preferring_correct _, Answers.preferring_complete _⟩, rfl⟩
  have hm := Lib.Reachable.run (.initial hstart) hrun
  refine ⟨m, [], r₁, [.run r₂, .run r₃], store, hm, hhistory, hrecorded, by simp, by omega, ?_, ?_⟩
  · rintro ⟨r', hr', -, hreplayed, hgoes⟩
    simp only [List.mem_cons, Entry.run.injEq, List.not_mem_nil, or_false] at hr'
    obtain rfl | rfl := hr'
    · simp [hstopped] at hgoes
    · simp [hfresh] at hreplayed
  · intro r' hr' hgoes
    simp only [List.mem_cons, Entry.run.injEq, List.not_mem_nil, or_false] at hr'
    obtain rfl | rfl := hr'
    · simp [hstopped] at hgoes
    · simp [hx]

end Machine

end SpsVp.Symex
