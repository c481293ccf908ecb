import SpsVp.Symex.Assumptions

/-!
# When the exploration stops

An iteration of the outer loop of `explore_paths` executes a path if the last search has found an
assignment, or if a partial path is kept for the next sequence length. Otherwise it only increments
the sequence length and searches again, with the length of the last path and thus in vain, and
`explore_paths` returns from it only if the next length exceeds a bound. Without a bound it never
does: the loop goes on for ever and executes nothing.
-/

namespace SpsVp.Symex

open Klee Clover

namespace Machine

variable {cm : ConstraintManager} {P : Answers → Prop} {m m' : Machine}

/-! ## Heads of the outer loop -/

/-- The search has nothing to do: no constraint is to be enforced, and no branch is left to be
negated at the length of the last path. -/
structure Searched (m : Machine) : Prop where
  settled : m.sym.enforcingAssume = false
  exhausted : ∀ d value,
    ¬ Candidate m.sym.packetSequenceLength m.sym.trace.pathCondsRoot d value

/-- At the head of the outer loop `is_stuck` starts afresh, and there is no assignment only after a
search that has been exhausted. -/
structure AtHead (m : Machine) : Prop where
  fresh : m.noNewBranch = 0
  searched : m.foundAssig = false → m.Searched

theorem atHead_of_step (hwf : m.sym.trace.pathCondsRoot.WellFormed) (h : Step cm m m')
    (hc : m'.control = .outer) : m'.AtHead := by
  cases h with
  | outer => exact absurd hc (by split <;> exact nofun)
  | assign _ setup sym rng answers hne hsetup =>
    refine ⟨rfl, fun hfound => ?_⟩
    cases SymbolicContext.setupNewValues_cases hsetup with
    | exhausted search henforcing hsearch hexhausted =>
      subst hsearch
      exact ⟨henforcing, (Trace.findNewPath_searches cm _ hwf _ _).exhausted_spec hexhausted⟩
    | unsatisfiable => exact absurd rfl hne
    | fromAssume | found => cases hfound
  | request hrunning | branch hrunning | assumeKnown hrunning | packet hrunning =>
    cases hrunning.symm.trans hc
  | assumeNew | lastPacket | exit => exact absurd hc (endRun_control_ne _ _).2
  | negate _ _ setup => cases setup <;> cases hc
  | lengthen => exact absurd hc (by split <;> exact nofun)
  | explore | negateStuck | replayEmpty | replayStuck | replay | assignThrow => cases hc

theorem atHead_of_reachable (hm : Reachable cm P m) (hc : m.control = .outer) : m.AtHead := by
  cases hm with
  | initial h =>
    obtain ⟨maxpktseq, rng, answers, actions, branches, -, rfl⟩ := h
    exact ⟨rfl, nofun⟩
  | step hs h => exact atHead_of_step (reachable_traced hs).wellFormed (step_cases h) hc

/-! ## One iteration -/

/-- The iteration of the outer loop that starts in a state comes to execute a path, or
`explore_paths` returns in it. -/
def Productive (cm : ConstraintManager) (m : Machine) : Prop :=
  ∃ n m', Lib.runSteps (step cm) n m = some m' ∧
    (m'.control = .running ∨ ∃ ret, m'.control = .returned ret) ∧
    ∀ k u, 0 < k → k ≤ n → Lib.runSteps (step cm) k m = some u → u.control ≠ .outer

/-- The next sequence length exceeds the bound. -/
def ExceedsBound (m : Machine) : Prop := m.maxpktseq ≠ 0 ∧ m.maxpktseq < m.pktseqlen + 1#32

instance (m : Machine) : Decidable m.ExceedsBound := inferInstanceAs (Decidable (_ ∧ _))

/-- There is an assignment to execute a path with, or a partial path of the next length. -/
def HasWork (m : Machine) : Prop :=
  m.foundAssig = true ∨ m.sym.partiallyExplored (m.pktseqlen + 1#32).toNat ≠ []

theorem step_outer (hc : m.control = .outer) : m.step cm =
    some { m with control := if m.foundAssig then .explore else .lengthen } := by
  rw [step, hc]

theorem step_lengthen (hc : m.control = .lengthen) : m.step cm =
    some { m with
      pktseqlen := m.pktseqlen + 1#32
      control := if m.ExceedsBound then .returned 0 else .replay } := by
  rw [step, hc]
  rfl

theorem step_replay_of_nil (hc : m.control = .replay)
    (hnil : m.sym.partiallyExplored m.pktseqlen.toNat = []) :
    m.step cm = some { m with control := .assign } := by
  have hnone : m.sym.randomPartial m.pktseqlen.toNat m.rng = none := by
    unfold SymbolicContext.randomPartial
    rw [hnil]
    rfl
  rw [step, hc]
  dsimp only
  rw [hnone]

/-- `is_stuck` does not hold at its first call after it has been reset. -/
theorem isStuck_of_fresh (h : m.noNewBranch = 0) : m.isStuck.1 = false := by
  unfold isStuck
  dsimp only
  rw [h, decide_eq_false_iff_not]
  split <;> omega

theorem step_replay_of_ne (hc : m.control = .replay) (hfresh : m.noNewBranch = 0)
    (hne : m.sym.partiallyExplored m.pktseqlen.toNat ≠ []) :
    ∃ m', m.step cm = some m' ∧ m'.control = .running := by
  cases hpop : m.sym.randomPartial m.pktseqlen.toNat m.rng with
  | none => exact absurd (SymbolicContext.randomPartial_eq_none hpop) hne
  | some p =>
    obtain ⟨store, sym, rng⟩ := p
    let m₁ : Machine := { m with
      sym := { sym with ctx := sym.ctx.setupNewValues store }, rng := rng, control := .replay }
    have hstuck : m₁.isStuck = (false, m₁.isStuck.2) := Prod.ext (isStuck_of_fresh hfresh) rfl
    refine ⟨m₁.isStuck.2.startRun (some store), ?_, rfl⟩
    rw [step, hc]
    dsimp only
    rw [hpop]
    dsimp only
    rw [hstuck]

/-- A search that has been exhausted is exhausted once more and changes nothing. -/
theorem Searched.setupNewValues (h : m.Searched) (hwf : m.sym.trace.pathCondsRoot.WellFormed) :
    ∃ rng, m.sym.setupNewValues cm m.rng m.answers = some (.exhausted, m.sym, rng, m.answers) := by
  have hsearch := Trace.findNewPath_searches cm m.sym.packetSequenceLength hwf m.rng m.answers
  unfold SymbolicContext.setupNewValues
  rw [if_neg (by rw [h.settled]; exact Bool.false_ne_true)]
  generalize Trace.findNewPath cm _ _ _ _ = search at hsearch
  cases hsearch with
  | exhausted rng => exact ⟨rng, rfl⟩
  | aborted _ d value _ hcand => exact absurd hcand (h.exhausted d value)
  | found _ d value _ _ _ _ hcand => exact absurd hcand (h.exhausted d value)
  | unsat d value _ _ _ _ hcand => exact absurd hcand (h.exhausted d value)

theorem step_assign_of_searched (hc : m.control = .assign) (h : m.Searched)
    (hwf : m.sym.trace.pathCondsRoot.WellFormed) : ∃ rng, m.step cm =
      some (isStuckReset { m with rng := rng, foundAssig := false, control := .outer }) := by
  obtain ⟨rng, hrng⟩ := h.setupNewValues hwf
  refine ⟨rng, ?_⟩
  rw [step, hc]
  dsimp only
  rw [hrng]
  rfl

/-- The next sequence length, at the head of the loop over partial paths. -/
def advanced (m : Machine) : Machine :=
  { m with pktseqlen := m.pktseqlen + 1#32, control := .replay }

/-- The next head of the outer loop, for an iteration in which nothing has been done. -/
def skipped (m : Machine) (rng : Rand) : Machine :=
  { m with
    pktseqlen := m.pktseqlen + 1#32
    foundAssig := false
    prevExecutedBranches := 0
    noNewBranch := 0
    control := .outer
    rng := rng }

theorem step_outer_of_false (hc : m.control = .outer) (hfound : m.foundAssig = false) :
    m.step cm = some { m with control := .lengthen } := by
  rw [step_outer hc, hfound]
  rfl

section

variable (hc : m.control = .outer) (hfound : m.foundAssig = false)
include hc hfound

theorem runSteps_of_exceedsBound (hbound : m.ExceedsBound) : Lib.runSteps (step cm) 2 m =
    some { m with pktseqlen := m.pktseqlen + 1#32, control := .returned 0 } := by
  rw [Lib.runSteps_of_eq_some (step_outer_of_false hc hfound),
    Lib.runSteps_of_eq_some (step_lengthen rfl)]
  exact congrArg some
    (by rw [if_pos (show ExceedsBound { m with control := .lengthen } from hbound)])

theorem runSteps_advanced (hbound : ¬ m.ExceedsBound) (n : Nat) :
    Lib.runSteps (step cm) (n + 2) m = Lib.runSteps (step cm) n m.advanced := by
  rw [Lib.runSteps_of_eq_some (step_outer_of_false hc hfound),
    Lib.runSteps_of_eq_some (step_lengthen rfl),
    if_neg (show ¬ ExceedsBound { m with control := .lengthen } from hbound)]
  rfl

/-- An iteration with nothing to do. -/
theorem runSteps_skipped (hbound : ¬ m.ExceedsBound)
    (hnil : m.sym.partiallyExplored (m.pktseqlen + 1#32).toNat = []) (h : m.Searched)
    (hwf : m.sym.trace.pathCondsRoot.WellFormed) :
    ∃ rng, ∀ n, Lib.runSteps (step cm) (n + 4) m = Lib.runSteps (step cm) n (m.skipped rng) := by
  have hreplay : m.advanced.step cm = some { m.advanced with control := .assign } :=
    step_replay_of_nil rfl hnil
  obtain ⟨rng, hassign⟩ := step_assign_of_searched
    (m := { m.advanced with control := .assign }) rfl ⟨h.settled, h.exhausted⟩ hwf
  refine ⟨rng, fun n => ?_⟩
  rw [runSteps_advanced hc hfound hbound, Lib.runSteps_of_eq_some hreplay,
    Lib.runSteps_of_eq_some hassign]
  rfl

end

/-! ## Productive iterations -/

theorem productive_of_foundAssig (hc : m.control = .outer) (hfound : m.foundAssig = true) :
    m.Productive cm := by
  have hhead : m.step cm = some { m with control := .explore } := by
    rw [step_outer hc, hfound]
    rfl
  have hrun : Lib.runSteps (step cm) 2 m = some (startRun { m with control := .explore } none) := by
    rw [Lib.runSteps_of_eq_some hhead]
    rfl
  refine ⟨2, _, hrun, .inl rfl, fun k u hpos hle hu => ?_⟩
  obtain rfl | rfl : k = 1 ∨ k = 2 := by omega
  · cases (Lib.runSteps_of_eq_some hhead 0).symm.trans hu
    exact nofun
  · cases hrun.symm.trans hu
    exact nofun

theorem productive_of_exceedsBound (hc : m.control = .outer) (hfound : m.foundAssig = false)
    (hbound : m.ExceedsBound) : m.Productive cm := by
  have hrun : Lib.runSteps (step cm) 2 m =
      some { m with pktseqlen := m.pktseqlen + 1#32, control := .returned 0 } :=
    runSteps_of_exceedsBound hc hfound hbound
  refine ⟨2, _, hrun, .inr ⟨0, rfl⟩, fun k u hpos hle hu => ?_⟩
  obtain rfl | rfl : k = 1 ∨ k = 2 := by omega
  · cases (Lib.runSteps_of_eq_some (step_outer_of_false hc hfound) 0).symm.trans hu
    exact nofun
  · cases hrun.symm.trans hu
    exact nofun

theorem productive_of_partial (hc : m.control = .outer) (hfound : m.foundAssig = false)
    (hbound : ¬ m.ExceedsBound) (hfresh : m.noNewBranch = 0)
    (hne : m.sym.partiallyExplored (m.pktseqlen + 1#32).toNat ≠ []) : m.Productive cm := by
  obtain ⟨m', hstep, hrunning⟩ := step_replay_of_ne (m := m.advanced) rfl hfresh hne
  have hrun : Lib.runSteps (step cm) 3 m = some m' := by
    rw [runSteps_advanced hc hfound hbound, Lib.runSteps_of_eq_some hstep]
    rfl
  refine ⟨3, m', hrun, .inl hrunning, fun k u hpos hle hu => ?_⟩
  obtain rfl | rfl | rfl : k = 1 ∨ k = 2 ∨ k = 3 := by omega
  · cases (Lib.runSteps_of_eq_some (step_outer_of_false hc hfound) 0).symm.trans hu
    exact nofun
  · cases (runSteps_advanced hc hfound hbound 0).symm.trans hu
    exact nofun
  · cases hrun.symm.trans hu
    rw [hrunning]
    exact nofun

/-! ## An exploration that has come to its end -/

/-- No sequence length exceeds the bound: there is none, or it is the largest length. -/
def Unbounded (m : Machine) : Prop := m.maxpktseq = 0 ∨ m.maxpktseq = 0xffffffff#32

/-- The lengths that the exploration comes to. They are all lengths if it has no bound, as the
counter then wraps. -/
def Later (m : Machine) (k : Nat) : Prop := m.Unbounded ∨ m.pktseqlen.toNat < k

/-- The current length is not above the bound. -/
def WithinBound (m : Machine) : Prop :=
  (∀ ret, m.control ≠ .returned ret) → m.maxpktseq = 0 ∨ m.pktseqlen ≤ m.maxpktseq

/-- Every step keeps the length within the bound. -/
theorem withinBound_step (h : m.WithinBound) (hstep : Step cm m m') : m'.WithinBound := by
  have hbound : m.maxpktseq = 0 ∨ m.pktseqlen ≤ m.maxpktseq := h (by cases hstep <;> simp [*])
  cases hstep with
  | lengthen hc =>
    intro hret
    dsimp only at hret ⊢
    split_ifs at hret with hexceeds
    · exact absurd rfl (hret 0)
    · by_cases hzero : m.maxpktseq = 0
      · exact .inl hzero
      · exact .inr (BitVec.not_lt.mp fun hlt => hexceeds ⟨hzero, hlt⟩)
  | _ => exact fun _ => hbound

theorem reachable_withinBound (hm : Reachable cm P m) : m.WithinBound := by
  refine hm.invariant ?_ ?_
  · rintro _ ⟨maxpktseq, rng, answers, actions, branches, -, rfl⟩ -
    by_cases hzero : maxpktseq = 0
    · exact .inl hzero
    · right
      change 1#32 ≤ maxpktseq
      bv_omega
  · intro s s' _ hs hstep
    exact withinBound_step hs (step_cases hstep)

/-- A head of the outer loop with nothing left to do. -/
structure Idle (m : Machine) : Prop where
  outer : m.control = .outer
  unassigned : m.foundAssig = false
  searched : m.Searched
  wellFormed : m.sym.trace.pathCondsRoot.WellFormed
  within : m.maxpktseq = 0 ∨ m.pktseqlen ≤ m.maxpktseq
  nothingKept : ∀ k, m.Later k → m.sym.partiallyExplored k = []

theorem not_exceedsBound (h : m.Unbounded) : ¬ m.ExceedsBound := by
  rintro ⟨hne, hlt⟩
  have hmax := h.resolve_left hne
  rw [hmax] at hlt
  bv_omega

/-- A length below a bound that can be exceeded has a successor. -/
theorem toNat_succ (h : ¬ m.Unbounded) (hwithin : m.maxpktseq = 0 ∨ m.pktseqlen ≤ m.maxpktseq) :
    (m.pktseqlen + 1#32).toNat = m.pktseqlen.toNat + 1 := by
  obtain ⟨hne, hmax⟩ := not_or.mp h
  have hle := hwithin.resolve_left hne
  bv_omega

theorem Idle.next_nil (h : m.Idle) : m.sym.partiallyExplored (m.pktseqlen + 1#32).toNat = [] := by
  refine h.nothingKept _ ?_
  by_cases hunbounded : m.Unbounded
  · exact .inl hunbounded
  · right
    rw [toNat_succ hunbounded h.within]
    exact Nat.lt_succ_self _

theorem Idle.skipped (h : m.Idle) (hbound : ¬ m.ExceedsBound) (rng : Rand) :
    (m.skipped rng).Idle where
  outer := rfl
  unassigned := rfl
  searched := ⟨h.searched.settled, h.searched.exhausted⟩
  wellFormed := h.wellFormed
  within := by
    by_cases hzero : m.maxpktseq = 0
    · exact .inl hzero
    · exact .inr (BitVec.not_lt.mp fun hlt => hbound ⟨hzero, hlt⟩)
  nothingKept k hk := by
    by_cases hunbounded : m.Unbounded
    · exact h.nothingKept k (.inl hunbounded)
    · have hlt : (m.pktseqlen + 1#32).toNat < k := hk.resolve_left hunbounded
      rw [toNat_succ hunbounded h.within] at hlt
      exact h.nothingKept k (.inr (Nat.lt_of_succ_lt hlt))

/-- Neither has a path been started nor has `explore_paths` returned. -/
def Waits (m : Machine) : Prop := m.control ≠ .running ∧ ∀ ret, m.control ≠ .returned ret

/-- The steps of an iteration with nothing to do. -/
theorem waits_of_lt (hc : m.control = .outer) (hfound : m.foundAssig = false)
    (hbound : ¬ m.ExceedsBound) (hnil : m.sym.partiallyExplored (m.pktseqlen + 1#32).toNat = [])
    {n : Nat} (hn : n < 4) : ∃ m', Lib.runSteps (step cm) n m = some m' ∧ m'.Waits := by
  have hreplay : m.advanced.step cm = some { m.advanced with control := .assign } :=
    step_replay_of_nil rfl hnil
  obtain rfl | rfl | rfl | rfl : n = 0 ∨ n = 1 ∨ n = 2 ∨ n = 3 := by omega
  · exact ⟨m, rfl, by simp [Waits, hc]⟩
  · exact ⟨_, Lib.runSteps_of_eq_some (step_outer_of_false hc hfound) 0, nofun, nofun⟩
  · exact ⟨_, runSteps_advanced hc hfound hbound 0, nofun, nofun⟩
  · refine ⟨{ m.advanced with control := .assign }, ?_, nofun, nofun⟩
    rw [runSteps_advanced hc hfound hbound, Lib.runSteps_of_eq_some hreplay]
    rfl

/-- An iteration executes a path or returns just if it has work or the next length exceeds the
bound. -/
theorem productive_iff_hasWork (hc : m.control = .outer) (hhead : m.AtHead)
    (hwf : m.sym.trace.pathCondsRoot.WellFormed) :
    m.Productive cm ↔ m.HasWork ∨ m.ExceedsBound := by
  constructor
  · rintro ⟨n, m', hrun, hcontrol, hhere⟩
    by_contra hidle
    obtain ⟨hwork, hbound⟩ := not_or.mp hidle
    obtain ⟨hfound, hnil⟩ := not_or.mp hwork
    rw [Bool.not_eq_true] at hfound
    rw [ne_eq, not_not] at hnil
    by_cases hn : n < 4
    · obtain ⟨u, hu, hrunning, hreturned⟩ := waits_of_lt hc hfound hbound hnil hn
      cases hrun.symm.trans hu
      obtain hcontrol | ⟨ret, hcontrol⟩ := hcontrol
      · exact hrunning hcontrol
      · exact hreturned ret hcontrol
    · obtain ⟨rng, hskip⟩ := runSteps_skipped hc hfound hbound hnil
        (hhead.searched hfound) hwf
      exact hhere 4 _ (by decide) (by omega) (hskip 0) rfl
  · intro h
    by_cases hfound : m.foundAssig = true
    · exact productive_of_foundAssig hc hfound
    · rw [Bool.not_eq_true] at hfound
      by_cases hbound : m.ExceedsBound
      · exact productive_of_exceedsBound hc hfound hbound
      · obtain (hassigned | hne) | hexceeds := h
        · cases hfound.symm.trans hassigned
        · exact productive_of_partial hc hfound hbound hhead.fresh hne
        · exact absurd hexceeds hbound

/-- Without a bound the exploration goes on for ever. -/
theorem Idle.waits (h : m.Idle) (hunbounded : m.Unbounded) (n : Nat) :
    ∃ m', Lib.runSteps (step cm) n m = some m' ∧ m'.Waits := by
  induction n using Nat.strongRecOn generalizing m with
  | ind n ih =>
    have hbound := not_exceedsBound hunbounded
    by_cases hn : n < 4
    · exact waits_of_lt h.outer h.unassigned hbound h.next_nil hn
    · obtain ⟨rng, hskip⟩ := runSteps_skipped h.outer h.unassigned hbound h.next_nil h.searched
        h.wellFormed
      obtain ⟨n, rfl⟩ := Nat.exists_eq_add_of_le' (Nat.le_of_not_lt hn)
      rw [hskip n]
      exact ih n (by omega) (h.skipped hbound rng) hunbounded

/-- With a bound it returns. -/
theorem Idle.returns (h : m.Idle) (hbounded : ¬ m.Unbounded) :
    ∃ n m', Lib.runSteps (step cm) n m = some m' ∧ m'.control = .returned 0 := by
  induction hd : m.maxpktseq.toNat - m.pktseqlen.toNat generalizing m with
  | zero =>
    have hexceeds : m.ExceedsBound := by
      refine ⟨fun hzero => hbounded (.inl hzero), ?_⟩
      have hnext := toNat_succ hbounded h.within
      bv_omega
    exact ⟨2, _, runSteps_of_exceedsBound h.outer h.unassigned hexceeds, rfl⟩
  | succ d ih =>
    have hnext := toNat_succ hbounded h.within
    have hbound : ¬ m.ExceedsBound := by
      rintro ⟨_, hlt⟩
      bv_omega
    obtain ⟨rng, hskip⟩ := runSteps_skipped h.outer h.unassigned hbound h.next_nil h.searched
      h.wellFormed
    obtain ⟨n, m', hrun, hreturned⟩ := ih (h.skipped hbound rng) hbounded (by
      change m.maxpktseq.toNat - (m.pktseqlen + 1#32).toNat = d
      omega)
    exact ⟨n + 4, m', (hskip n).trans hrun, hreturned⟩

/-- The last search has found no branch to negate, and no partial path is kept for a later
length. -/
def Exhausted (m : Machine) : Prop :=
  m.foundAssig = false ∧ ∀ k, m.Later k → m.sym.partiallyExplored k = []

theorem idle_of_exhausted (hm : Reachable cm P m) (hc : m.control = .outer) (h : m.Exhausted) :
    m.Idle where
  outer := hc
  unassigned := h.1
  searched := (atHead_of_reachable hm hc).searched h.1
  wellFormed := (reachable_traced hm).wellFormed
  within := reachable_withinBound hm (by simp [hc])
  nothingKept := h.2

/-- An iteration of the outer loop executes a path or returns just if an assignment has been found,
a partial path is kept for the next length, or that length exceeds the bound. When nothing is left,
an exploration without a bound neither executes a path nor returns any more, and one with a bound
returns. -/
theorem productive_iff (hm : Reachable cm P m) (hc : m.control = .outer) :
    (m.Productive cm ↔ m.HasWork ∨ m.ExceedsBound) ∧
    (m.Exhausted → m.Unbounded →
      ∀ n, ∃ m', Lib.runSteps (step cm) n m = some m' ∧ m'.Waits) ∧
    (m.Exhausted → ¬ m.Unbounded →
      ∃ n m', Lib.runSteps (step cm) n m = some m' ∧ m'.control = .returned 0) :=
  ⟨productive_iff_hasWork hc (atHead_of_reachable hm hc) (reachable_traced hm).wellFormed,
    fun hexhausted hunbounded => (idle_of_exhausted hm hc hexhausted).waits hunbounded,
    fun hexhausted hbounded => (idle_of_exhausted hm hc hexhausted).returns hbounded⟩

/-- A guest that ends at once, without a bound on the sequence length. -/
noncomputable def quietGuest : Machine :=
  start 0 (Fin.ofNat _) (.preferring fun _ _ => 0#8) (Action.script []) (· + 1)

theorem initial_quietGuest : Initial (fun a => a.Correct ∧ a.Complete) quietGuest :=
  ⟨_, _, _, _, _, ⟨Answers.preferring_correct _, Answers.preferring_complete _⟩, rfl⟩

/-- Its first iteration executes a path. -/
theorem productive_quietGuest : quietGuest.control = .outer ∧ quietGuest.Productive .plain :=
  ⟨rfl, (productive_iff (.initial initial_quietGuest) rfl).1.mpr (.inl (.inl rfl))⟩

/-- There is only this path, but `explore_paths` does not return. -/
theorem quietGuest_never_returns :
    ∃ m, Reachable .plain (fun a => a.Correct ∧ a.Complete) m ∧ m.control = .outer ∧ m.Exhausted ∧
      ¬ m.Productive .plain ∧
      ∀ n, ∃ m', Lib.runSteps (step .plain) n m = some m' ∧ m'.Waits := by
  obtain ⟨m, hrun, hc, hbound, hfound, hkept⟩ :
      ∃ m, Lib.runSteps (step .plain) 7 quietGuest = some m ∧ m.control = .outer ∧
        m.maxpktseq = 0 ∧ m.foundAssig = false ∧ m.sym.partiallyExplored = fun _ => [] :=
    ⟨_, rfl, rfl, rfl, rfl, rfl⟩
  have hm := Lib.Reachable.run (.initial initial_quietGuest) hrun
  have hexhausted : m.Exhausted := ⟨hfound, fun k _ => congrFun hkept k⟩
  refine ⟨m, hm, hc, hexhausted, ?_, (idle_of_exhausted hm hc hexhausted).waits (.inl hbound)⟩
  rw [productive_iff_hasWork hc (atHead_of_reachable hm hc) (reachable_traced hm).wellFormed]
  rintro ((hassigned | hne) | hexceeds)
  · cases hfound.symm.trans hassigned
  · exact hne (congrFun hkept _)
  · exact hexceeds.1 hbound

end Machine

end SpsVp.Symex
