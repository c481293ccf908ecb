import SpsVp.Symex.Assumptions

/-!
# Constraints of one path and of all paths

The constraints of all runs are kept in one set, while a constraint is passed at a certain place of
a path. `passed` lists the constraints with the directions taken before them, `KeepsAll` says
that the set is the one of all these constraints, and `Compatible` that the constraints of the other
paths do not get in the way of a path. `paths_not_poisoned` says what this condition is good for: no
exception, no failed assertion and no unsat answer is due to the constraints of another path.
-/

namespace SpsVp.Symex

open Klee Clover Lib SymbolicContext

/-- The constraints passed at a place that leads to `d`. -/
def SatOwn (σ : Valuation) (passed : List (List Bool × Expr 1)) (d : List Bool) : Prop :=
  ∀ p ∈ passed, p.1 <+: d → Holds σ p.2

/-- The constraints passed anywhere. -/
def SatAll (σ : Valuation) (passed : List (List Bool × Expr 1)) : Prop :=
  ∀ p ∈ passed, Holds σ p.2

theorem SatAll.own {σ : Valuation} {passed : List (List Bool × Expr 1)} (h : SatAll σ passed)
    (d : List Bool) : SatOwn σ passed d :=
  fun p hp _ => h p hp

/-- What can be satisfied together with the constraints of an explored path can be satisfied
together with those of all paths: the path itself, and the way out of it in a direction that no run
has taken. -/
structure Compatible (n : Node) (passed : List (List Bool × Expr 1)) : Prop where
  path : ∀ d, n.valueAt d ≠ none → (∃ σ, Follows σ n d ∧ SatOwn σ passed d) →
    ∃ σ, Follows σ n d ∧ SatAll σ passed
  missing : ∀ d value b, n.valueAt d = some (some value) → Trace.OnlyMissing n d b →
    (∃ σ, Follows σ n d ∧ value.bv.eval σ = BitVec.ofBool b ∧ SatOwn σ passed d) →
    ∃ σ, Follows σ n d ∧ value.bv.eval σ = BitVec.ofBool b ∧ SatAll σ passed

/-- Every explored path can be taken with the constraints that are passed on it. -/
def OwnSatisfiable (n : Node) (passed : List (List Bool × Expr 1)) : Prop :=
  ∀ d, n.valueAt d ≠ none → ∃ σ, Follows σ n d ∧ SatOwn σ passed d

/-- The constraints of an entry of the history. -/
def Entry.assumed : Entry → List (List Bool × Expr 1)
  | .run r => r.assumed
  | .stuck => []

namespace Machine

variable {cm : ConstraintManager} {P : Answers → Prop} {m m' : Machine}

/-- The constraints passed so far, the run in progress included. -/
def passed (m : Machine) : List (List Bool × Expr 1) :=
  m.history.flatMap Entry.assumed ++ if m.control = .running then m.current.assumed else []

/-- The execution tree. -/
def tree (m : Machine) : Node := m.sym.trace.pathCondsRoot

/-! ## The set of all constraints -/

/-- The constraints of the context are those passed so far. -/
def KeepsAll (m : Machine) : Prop :=
  ∀ c, c ∈ m.sym.constraints ↔ ∃ p ∈ m.passed, c = eqTrue p.2

theorem KeepsAll.of_same (h : m.KeepsAll) (hconstraints : m'.sym.constraints = m.sym.constraints)
    (hpassed : m'.passed = m.passed) : m'.KeepsAll := by
  intro c
  rw [hconstraints, hpassed]
  exact h c

/-- One more constraint. -/
theorem KeepsAll.pass (h : m.KeepsAll) (d : List Bool) (constraint : Expr 1)
    (hpassed : m'.passed = m.passed ++ [(d, constraint)])
    (hconstraints : ∀ c, c ∈ m'.sym.constraints ↔ c ∈ m.sym.constraints ∨ c = eqTrue constraint) :
    m'.KeepsAll := by
  intro c
  rw [hconstraints, h c, hpassed]
  simp [or_and_right, exists_or]

theorem passed_startRun (hc : m.control ≠ .running) (replayed : Option ConcreteStore) :
    (m.startRun replayed).passed = m.passed := by
  simp [passed, startRun, hc]

theorem passed_endRun (ret : Nat) :
    (m.endRun ret).passed = m.history.flatMap Entry.assumed ++ m.current.assumed := by
  have hcontrol : (m.endRun ret).control ≠ .running := by
    simp only [endRun]
    split_ifs <;> simp
  simp only [passed, hcontrol, if_false]
  simp [endRun, Entry.assumed]

theorem passed_outside (hc : m.control ≠ .running) (hc' : m'.control ≠ .running)
    (hentries : m'.history.flatMap Entry.assumed = m.history.flatMap Entry.assumed) :
    m'.passed = m.passed := by
  simp [passed, hc, hc', hentries]

theorem flatMap_isStuck :
    m.isStuck.2.history.flatMap Entry.assumed = m.history.flatMap Entry.assumed := by
  simp only [isStuck]
  split_ifs <;> simp [Entry.assumed]

/-- Every step keeps the constraints of the context and those passed together. -/
theorem keepsAll_step (h : m.KeepsAll) (hstep : Step cm m m') : m'.KeepsAll := by
  cases hstep with
  | outer hc =>
    refine h.of_same rfl (passed_outside (by simp [hc]) ?_ rfl)
    dsimp only
    split_ifs <;> simp
  | explore hc => exact h.of_same rfl (passed_startRun (by simp [hc]) none)
  | request | branch => exact h.of_same rfl rfl
  | assumeKnown hc constraint hknown =>
    refine h.pass m.current.directions constraint ?_ fun c => ?_
    · simp [passed, taken, hc]
    · simp only [taken, iff_self_or]
      rintro rfl
      exact hknown
  | assumeNew hc constraint trace hnew hassume =>
    refine h.pass m.current.directions constraint ?_ fun c => ?_
    · rw [passed_endRun]
      simp [passed, taken, hc]
    · simp [endRun]
  | packet hc hmore => exact h.of_same rfl rfl
  | lastPacket hc hlast | exit hc ret =>
    refine h.of_same rfl ?_
    rw [passed_endRun]
    simp [passed, taken, hc]
  | negateStuck hc hstuck =>
    exact h.of_same rfl (passed_outside (by simp [hc]) (by simp) flatMap_isStuck)
  | negate hc hstuck setup sym rng answers hsetup =>
    refine h.of_same (setupNewValues_frame hsetup).1
      (passed_outside (by simp [hc]) ?_ flatMap_isStuck)
    cases setup <;> simp [Setup.afterNegate]
  | lengthen hc =>
    refine h.of_same rfl (passed_outside (by simp [hc]) ?_ rfl)
    dsimp only
    split_ifs <;> simp
  | replayEmpty hc hnone => exact h.of_same rfl (passed_outside (by simp [hc]) (by simp) rfl)
  | replayStuck hc store sym rng hpop hstuck =>
    obtain ⟨idx, -, rfl⟩ := randomPartial_cases hpop
    exact h.of_same rfl (passed_outside (by simp [hc]) (by simp) flatMap_isStuck)
  | replay hc store sym rng hpop hstuck =>
    obtain ⟨idx, -, rfl⟩ := randomPartial_cases hpop
    have hcontrol : m.isStuck.2.control ≠ .running := by simp [isStuck, hc]
    refine h.of_same rfl ((passed_startRun ?_ (some store)).trans ?_)
    · exact hcontrol
    · exact passed_outside (by simp [hc]) hcontrol flatMap_isStuck
  | assign hc setup sym rng answers hne hsetup =>
    exact h.of_same (setupNewValues_frame hsetup).1
      (passed_outside (by simp [hc]) (by simp [isStuckReset]) rfl)
  | assignThrow hc sym rng answers hsetup =>
    exact h.of_same (setupNewValues_frame hsetup).1
      (passed_outside (by simp [hc]) (by simp) rfl)

theorem reachable_keepsAll (hm : Reachable cm P m) : m.KeepsAll := by
  refine Lib.Reachable.invariant ?_ ?_ hm
  · rintro _ ⟨maxpktseq, rng, answers, actions, branches, -, rfl⟩ c
    simp [start, passed, SymbolicContext.init]
  · intro s s' _ h hstep
    exact keepsAll_step h (step_cases hstep)

/-- The constraint set of the trace means all constraints passed so far. -/
theorem sat_assumeCs (hcm : cm.Sound) (hm : Reachable cm P m) (σ : Valuation) :
    Sat σ m.sym.trace.assumeCs ↔ SatAll σ m.passed := by
  rw [(reachable_traced hm).assumed hcm σ]
  constructor
  · intro h p hp
    exact holds_eqTrue.mp (h _ ((reachable_keepsAll hm _).mpr ⟨p, hp, rfl⟩))
  · intro h c hc
    obtain ⟨p, hp, rfl⟩ := (reachable_keepsAll hm c).mp hc
    exact holds_eqTrue.mpr (h p hp)

theorem tree_root (hm : Reachable cm P m) : m.tree.valueAt [] ≠ none := by
  obtain ⟨l, hinv, hl, -⟩ := reachable_traced hm
  have hroot := hinv.represents []
  rw [if_pos (.inl rfl), hl] at hroot
  obtain ⟨value, hvalue, -⟩ := Option.map_eq_some_iff.mp hroot
  simp [tree, hvalue]

/-! ## No path poisons another -/

/-- As long as every explored path can be taken with its own constraints and is compatible with
those of the other paths, the assumed constraints are never found unsatisfiable, no constant-false
constraint is added to a set, and a negation is answered unsat only when it contradicts the
constraints of its own path. -/
theorem paths_not_poisoned (hcm : cm.Sound) (hm : Reachable cm Answers.Complete m) :
    (∀ constraint, OwnSatisfiable m.tree (m.passed ++ [(m.current.directions, constraint)]) →
      Compatible m.tree (m.passed ++ [(m.current.directions, constraint)]) →
      m.sym.trace.assume cm (eqTrue constraint) ≠ none) ∧
    (OwnSatisfiable m.tree m.passed → Compatible m.tree m.passed →
      (∀ s rng answers, m.sym.setupNewValues cm m.rng m.answers ≠
        some (.unsatisfiable, s, rng, answers)) ∧
      ∀ k, let search := m.sym.trace.findNewPath cm k m.rng m.answers
        search.outcome ≠ .aborted ∧
        ∀ d ∈ search.unsat, ∀ value b, m.tree.valueAt d = some (some value) →
          Trace.OnlyMissing m.tree d b →
          ¬ ∃ σ, Follows σ m.tree d ∧ value.bv.eval σ = BitVec.ofBool b ∧ SatOwn σ m.passed d) := by
  have hwf := (reachable_traced hm).wellFormed
  have hcomplete : m.answers.Complete := reachable_answers (fun _ => .rest) hm
  have hall := sat_assumeCs hcm hm
  refine ⟨fun constraint hown hcompat hnone => ?_, fun hown hcompat => ⟨?_, fun k => ⟨?_, ?_⟩⟩⟩
  · obtain ⟨σ, -, hσ⟩ := hcompat.path [] (tree_root hm) (hown [] (tree_root hm))
    have hadd : cm.addConstraint m.sym.trace.assumeCs (eqTrue constraint) = none :=
      Option.eq_none_iff_forall_ne_some.mpr (by simpa [Trace.assume] using hnone)
    refine hcm.addConstraint_none hadd σ ((hall σ).mpr fun p hp => ?_) (holds_eqTrue.mpr ?_)
    · exact hσ p (List.mem_append_left _ hp)
    · exact hσ (m.current.directions, constraint) (by simp)
  · intro s rng answers hsetup
    obtain ⟨σ, -, hσ⟩ := hcompat.path [] (tree_root hm) (hown [] (tree_root hm))
    cases setupNewValues_cases hsetup with
    | unsatisfiable _ _ hassume =>
      exact Trace.fromAssume_complete hcm hcomplete hassume σ ((hall σ).mpr hσ)
  · intro haborted
    obtain ⟨d, value, hcand, hconflict⟩ :=
      (Trace.findNewPath_searches cm _ hwf _ _).conflict hcm haborted
    have hd : m.tree.valueAt d ≠ none := by simp [tree, hcand.labelled]
    obtain ⟨σ, hfollows, hσ⟩ := hcompat.path d hd (hown d hd)
    exact hconflict σ ((hall σ).mpr hσ) hfollows
  · intro d hd value b hvalue hmissing hsat
    obtain ⟨σ, hfollows, hlast, hσ⟩ := hcompat.missing d value b hvalue hmissing hsat
    exact (Trace.findNewPath_searches cm _ hwf _ _).closed hcm hcomplete hd value
      b hvalue hmissing σ
      ((hall σ).mpr hσ) hfollows hlast

/-- The constraint of `constrainedPacket` is found satisfiable when new input is looked for. -/
theorem paths_not_poisoned_constrainedPacket :
    ∃ m, Lib.runSteps (step .plain) 12 constrainedPacket = some m ∧
      m.passed = [([], secondPacketZero)] ∧
      ∀ s rng answers, m.sym.setupNewValues .plain m.rng m.answers ≠
        some (.unsatisfiable, s, rng, answers) := by
  obtain ⟨m, hrun, htree, hpassed⟩ : ∃ m, Lib.runSteps (step .plain) 12 constrainedPacket = some m ∧
      m.tree = .node none .null .null ∧ m.passed = [([], secondPacketZero)] :=
    ⟨_, rfl, rfl, rfl⟩
  have hstart : Initial Answers.Complete constrainedPacket :=
    ⟨_, _, _, _, _, Answers.preferring_complete _, rfl⟩
  have hm := Lib.Reachable.run (.initial hstart) hrun
  have hall : SatAll (fun _ _ => 0#8) m.passed := by
    rw [hpassed]
    simp only [SatAll]
    decide
  have hfollows : ∀ σ d, Follows σ m.tree d := by
    intro σ d p b value _ hvalue
    rw [htree, DirTree.valueAt_placeholder] at hvalue
    split_ifs at hvalue
    cases hvalue
  refine ⟨m, hrun, hpassed, ((paths_not_poisoned ConstraintManager.plain_sound hm).2 ?_ ?_).1⟩
  · exact fun d _ => ⟨_, hfollows _ d, hall.own d⟩
  · refine ⟨fun d _ _ => ⟨_, hfollows _ d, hall⟩, fun d value b hvalue => ?_⟩
    rw [htree, DirTree.valueAt_placeholder] at hvalue
    split_ifs at hvalue
    cases hvalue

theorem holds_eq_constant {σ : Valuation} {e : Expr 8} {value : BitVec 8} :
    Holds σ (.comparison .Eq e (.Constant value)) ↔ e.eval σ = value := by
  simp only [Holds, Expr.eval, CmpKind.apply, CmpKind.test, BitVec.cast_eq]
  generalize e.eval σ = x
  by_cases h : x = value
  · simp [h]
  · simp [beq_eq_false_iff_ne.mpr h, h]

/-- The guest of `branchingPackets` with a server whose constraint on the second packet depends on
the first one. -/
noncomputable def conflictingPackets : Machine :=
  start 0 (fun _ => 0) (.preferring fun _ _ => 1#8)
    (Action.script [
      .request .uint8 "pkt0:x:byte0", .branch true firstPacketZero 4096#32, .processedPacket,
      .request .uint8 "pkt0:x:byte0", .branch false firstPacketZero 4096#32, .processedPacket,
      .request .uint8 "pkt0:x:byte0", .branch true firstPacketZero 4096#32, .processedPacket,
      .request .uint8 "pkt1:y:byte0", .assume secondPacketOne,
      .request .uint8 "pkt0:x:byte0", .branch false firstPacketZero 4096#32, .processedPacket,
      .request .uint8 "pkt1:y:byte0", .assume secondPacketZero]) (· + 1)

/-- Every path can be taken with its own constraint, but the two constraints together are reported
as unsatisfiable. -/
theorem conflictingPackets_poisoned :
    ∃ m, Reachable .plain (fun a => a.Correct ∧ a.Complete) m ∧ OwnSatisfiable m.tree m.passed ∧
      ∃ s rng answers, m.sym.setupNewValues .plain m.rng m.answers =
        some (.unsatisfiable, s, rng, answers) := by
  obtain ⟨m, value, hrun, htree, hvalue, hpassed, henforcing, hassume⟩ :
      ∃ m value, Lib.runSteps (step .plain) 25 conflictingPackets = some m ∧
        m.tree = .node (some value) (.node none .null .null) (.node none .null .null) ∧
        value.bv = firstPacketZero ∧
        m.passed = [([true], secondPacketOne), ([false], secondPacketZero)] ∧
        m.sym.enforcingAssume = true ∧
        m.sym.trace.assumeCs = [eqTrue secondPacketOne, eqTrue secondPacketZero] :=
    ⟨_, _, rfl, rfl, rfl, rfl, rfl, rfl⟩
  have hstart : Initial (fun a => a.Correct ∧ a.Complete) conflictingPackets :=
    ⟨_, _, _, _, _, ⟨Answers.preferring_correct _, Answers.preferring_complete _⟩, rfl⟩
  have hm := Lib.Reachable.run (.initial hstart) hrun
  have hcorrect : m.answers.Correct :=
    (reachable_answers (fun _ h => ⟨h.1.rest, h.2.rest⟩) hm).1
  refine ⟨m, hm, fun d hd => ?_, ?_⟩
  · rw [htree, hpassed]
    rw [htree] at hd
    match d with
    | [] => exact ⟨fun _ _ => 0#8, follows_nil _ _, by simp [SatOwn]⟩
    | [b] =>
      let σ : Valuation := fun array _ =>
        if decide (array.name = "pkt0:x:byte0") = b then 0#8 else 1#8
      refine ⟨σ, (follows_cons rfl b []).mpr ⟨?_, follows_nil _ _⟩, ?_⟩
      · rw [hvalue]
        cases b <;> decide
      · simp only [SatOwn]
        cases b <;> decide
    | b :: c :: d => cases b <;> cases c <;> simp [DirTree.valueAt, DirTree.child] at hd
  · cases hfrom : m.sym.trace.fromAssume .plain m.answers with
    | mk found answers =>
      cases found with
      | none =>
        exact ⟨{ m.sym with enforcingAssume := false }, m.rng, answers,
          by simp [SymbolicContext.setupNewValues, henforcing, hfrom]⟩
      | some a =>
        have hsat := Trace.fromAssume_sound ConstraintManager.plain_sound hcorrect hfrom
          (σ := a.values) fun _ _ => rfl
        rw [hassume, sat_cons, sat_cons, holds_eqTrue, holds_eqTrue] at hsat
        -- the byte cannot be one and zero
        obtain ⟨hone, hzero, -⟩ := hsat
        rw [secondPacketOne, holds_eq_constant] at hone
        rw [secondPacketZero, holds_eq_constant, hone] at hzero
        cases hzero

end Machine

end SpsVp.Symex
