import SpsVp.Clover.Replay
import SpsVp.Symex.Assumptions

/-!
# Runs that are stopped for an assumption

A constraint that is assumed for the first time stops its run, and the next input is taken from the
constraints alone. `restarts_iff` says that no constraint stops two runs, and that this input
satisfies all constraints of all runs unless two of their variables have one name, since a store
holds one value for a name.
-/

namespace SpsVp.Symex

open Klee Clover SymbolicContext

/-- The constraint that has stopped a run. -/
def stoppedBy : Entry → Option (Expr 1)
  | .run r => if r.stopped then r.assumed.getLast?.map fun p => eqTrue p.2 else none
  | .stuck => none

/-- The store has a value for every variable. -/
def BindsAll (store : ConcreteStore) (objects : List SymbolicArray) : Prop :=
  ∀ array ∈ objects, ∃ T value,
    array = variableArray T array.name ∧ store array.name = some (IntValue.mk T value)

namespace Machine

variable {cm : ConstraintManager} {m m' : Machine}

/-- The variables for which `fromAssume` asks: those of the constraint set, and those of a constant,
which has none. -/
def assumeObjects (cm : ConstraintManager) (m : Machine) : List SymbolicArray :=
  (Query.negateExpr cm (Query.negateExpr cm
    (Query.withFalse ⟨m.sym.trace.assumeCs, .Constant 0#1⟩))).objects

/-- The store that is entered binds the variables of the constraint set, and whatever agrees with it
satisfies all constraints that were assumed. -/
def Effective (cm : ConstraintManager) (m : Machine) (s : SymbolicContext) : Prop :=
  ∃ store, s.ctx = m.sym.ctx.setupNewValues store ∧ BindsAll store (m.assumeObjects cm) ∧
    ∀ r, .run r ∈ m.history → ∀ p ∈ r.assumed, ∀ σ, Agrees σ store → Holds σ p.2

/-- The constraints that have stopped runs differ, and they are known, as is every constraint of a
recorded run. -/
structure Restarted (m : Machine) : Prop where
  once : (m.history.filterMap stoppedBy).Nodup
  known : ∀ c ∈ m.history.filterMap stoppedBy, c ∈ m.sym.constraints
  assumed : ∀ r, .run r ∈ m.history → ∀ p ∈ r.assumed, eqTrue p.2 ∈ m.sym.constraints

theorem Restarted.keep (h : m.Restarted) (hhistory : m'.history = m.history)
    (hconstraints : m'.sym.constraints = m.sym.constraints) : m'.Restarted := by
  refine ⟨?_, ?_, ?_⟩
  · rw [hhistory]
    exact h.once
  · rw [hhistory, hconstraints]
    exact h.known
  · rw [hhistory, hconstraints]
    exact h.assumed

/-- One more entry. The constraint by which it was stopped is new. -/
theorem Restarted.add (h : m.Restarted) {entry : Entry}
    (hhistory : m'.history = m.history ++ [entry])
    (hconstraints : ∀ c ∈ m.sym.constraints, c ∈ m'.sym.constraints)
    (hnew : ∀ c, stoppedBy entry = some c → c ∉ m.sym.constraints ∧ c ∈ m'.sym.constraints)
    (hassumed : ∀ r, entry = .run r → ∀ p ∈ r.assumed, eqTrue p.2 ∈ m'.sym.constraints) :
    m'.Restarted := by
  have hlist : m'.history.filterMap stoppedBy =
      m.history.filterMap stoppedBy ++ (stoppedBy entry).toList := by
    rw [hhistory, List.filterMap_append]
    cases hentry : stoppedBy entry <;> simp [hentry]
  refine ⟨?_, ?_, ?_⟩
  · rw [hlist]
    cases hentry : stoppedBy entry with
    | none => simpa using h.once
    | some c =>
      refine List.nodup_append'.mpr ⟨h.once, List.nodup_singleton c, fun d hd hc => ?_⟩
      rw [Option.toList_some, List.mem_singleton] at hc
      exact (hnew c hentry).1 (hc ▸ h.known d hd)
  · intro c hc
    rw [hlist, List.mem_append, Option.mem_toList] at hc
    obtain hc | hc := hc
    · exact hconstraints c (h.known c hc)
    · exact (hnew c hc).2
  · intro r hr p hp
    rw [hhistory, List.mem_append, List.mem_singleton] at hr
    obtain hr | hr := hr
    · exact hconstraints _ (h.assumed r hr p hp)
    · exact hassumed r hr.symm p hp

/-- A run that ends by itself. -/
theorem Restarted.endRun (h : m.Restarted) (hrun : m.RunInvariant) (hc : m.control = .running)
    (hhistory : ∃ store recorded, m'.history = m.history ++
      [.run { m.current with store := store, recorded := recorded }])
    (hconstraints : m'.sym.constraints = m.sym.constraints) : m'.Restarted := by
  obtain ⟨store, recorded, hhistory⟩ := hhistory
  refine h.add hhistory (fun c hc => hconstraints ▸ hc) (fun c hstopped => ?_) ?_
  · simp [stoppedBy, (hrun.running hc).1] at hstopped
  · rintro r ⟨⟩ p hp
    rw [hconstraints, ← hrun.known hc]
    exact hrun.passed hc p hp

theorem Restarted.isStuck (h : m.Restarted) (hhistory : m'.history = m.isStuck.2.history)
    (hconstraints : m'.sym.constraints = m.sym.constraints) : m'.Restarted := by
  have hcases : m.isStuck.2.history = m.history ++ [.stuck] ∨ m.isStuck.2.history = m.history := by
    simp only [Machine.isStuck]
    split_ifs <;> simp
  obtain hstuck | hstuck := hcases
  · refine h.add (hhistory.trans hstuck) (fun c hc => hconstraints ▸ hc) ?_ ?_
    · rintro _ ⟨⟩
    · rintro _ ⟨⟩
  · exact h.keep (hhistory.trans hstuck) hconstraints

theorem restarted_step (hrun : m.RunInvariant) (h : m.Restarted) (hstep : Step cm m m') :
    m'.Restarted := by
  cases hstep with
  | outer | explore | request | branch | assumeKnown | packet | lengthen | replayEmpty =>
    exact h.keep rfl rfl
  | assumeNew hc constraint trace hnew hassume =>
    refine h.add rfl (fun c hc => List.mem_append_left _ hc) ?_ ?_
    · intro c hc
      simp [stoppedBy] at hc
      subst hc
      exact ⟨hnew, List.mem_append_right _ List.mem_cons_self⟩
    · rintro r ⟨⟩ p hp
      rw [List.mem_append, List.mem_singleton] at hp
      obtain hp | rfl := hp
      · exact List.mem_append_left _ (hrun.known hc ▸ hrun.passed hc p hp)
      · exact List.mem_append_right _ List.mem_cons_self
  | lastPacket hc hlast => exact h.endRun hrun hc ⟨_, _, rfl⟩ rfl
  | exit hc ret => exact h.endRun hrun hc ⟨_, _, rfl⟩ rfl
  | negateStuck hc hstuck => exact h.isStuck rfl rfl
  | negate hc hstuck setup sym rng answers hsetup =>
    exact h.isStuck rfl (setupNewValues_frame hsetup).1
  | replayStuck hc store sym rng hpop hstuck =>
    obtain ⟨idx, -, rfl⟩ := randomPartial_cases hpop
    exact h.isStuck rfl rfl
  | replay hc store sym rng hpop hstuck =>
    obtain ⟨idx, -, rfl⟩ := randomPartial_cases hpop
    exact h.isStuck rfl rfl
  | assign hc setup sym rng answers hne hsetup =>
    exact h.keep rfl (setupNewValues_frame hsetup).1
  | assignThrow hc sym rng answers hsetup =>
    exact h.keep rfl (setupNewValues_frame hsetup).1

theorem reachable_restarted {P : Answers → Prop} (hm : Reachable cm P m) : m.Restarted := by
  refine Lib.Reachable.invariant ?_ ?_ hm
  · rintro _ ⟨maxpktseq, rng, answers, actions, branches, -, rfl⟩
    exact ⟨List.nodup_nil, nofun, nofun⟩
  · intro s s' hs h hstep
    exact restarted_step (reachable_runInvariant hs) h (step_cases hstep)

end Machine

/-- A store has one value for a name. -/
theorem BindsAll.oneSize {store : ConcreteStore} {objects : List SymbolicArray}
    (h : BindsAll store objects) : OneSize objects := by
  intro x hx y hy hname
  obtain ⟨T, v, hxT, hv⟩ := h x hx
  obtain ⟨T', v', hyT, hv'⟩ := h y hy
  rw [← hname, hv, Option.some.injEq] at hv'
  rw [hxT, hyT, hname, IntValue.mk_eq_mk hv']

namespace Machine

variable {cm : ConstraintManager} {m : Machine}

theorem objects_of_getAssignment {query : Query} {answers answers' : Answers} {a : Assignment}
    (h : getAssignment cm query answers = (some a, answers')) :
    a.objects = (query.negateExpr cm).objects := by
  unfold getAssignment at h
  dsimp only at h
  split_ifs at h
  · cases h
  · obtain ⟨values, -, rfl⟩ := Option.map_eq_some_iff.mp (congrArg Prod.fst h)
    rfl

/-- In every exploration, no constraint stops two runs, and the input after a run that was stopped
is as it should be exactly when the variables of the constraint set have different names. -/
theorem restarts_iff (hcm : cm.Sound) (hm : Reachable cm Answers.Correct m) :
    (m.history.filterMap stoppedBy).Nodup ∧
    ∀ s rng answers, m.sym.enforcingAssume = true →
      m.sym.setupNewValues cm m.rng m.answers = some (.assigned, s, rng, answers) →
        (m.Effective cm s ↔ OneSize (m.assumeObjects cm)) := by
  have hrestarted := reachable_restarted hm
  refine ⟨hrestarted.once, fun s rng answers henforcing hsetup => ?_⟩
  refine ⟨fun ⟨_, _, hbinds, _⟩ => hbinds.oneSize, fun hone => ?_⟩
  cases setupNewValues_cases hsetup with
  | found search assign store hno => cases henforcing.symm.trans hno
  | fromAssume assign store answers _ hassume hstore =>
    have hcorrect := reachable_answers (fun _ => .rest) hm
    have hobjects : assign.objects = m.assumeObjects cm := objects_of_getAssignment hassume
    rw [← hobjects] at hone
    refine ⟨store, rfl, fun array harray => ?_, fun r hr p hp σ hσ => ?_⟩
    · rw [← hobjects] at harray
      obtain ⟨T, harrayT, hvalue⟩ := getStore_of_oneSize hstore hone harray
      exact ⟨T, _, harrayT, hvalue⟩
    · have hbinds := binds_of_agrees hstore hone hσ
      have hsat := Trace.fromAssume_sound hcm hcorrect hassume hbinds
      have hknown := ((reachable_traced hm).assumed hcm σ).mp hsat _ (hrestarted.assumed r hr p hp)
      exact holds_eqTrue.mp hknown

/-- A server that assumes a constraint on a field. -/
noncomputable def constrainedField : Machine :=
  start 0 (fun _ => 0) (.preferring fun _ _ => 0#8)
    (Action.script [.request .uint8 "pkt1:y:byte0", .assume secondPacketZero]) (· + 1)

/-- The run is stopped, and the next input satisfies the constraint. -/
theorem constrainedField_restarts :
    ∃ m s rng answers, Lib.runSteps (step .plain) 4 constrainedField = some m ∧
      m.history.filterMap stoppedBy = [eqTrue secondPacketZero] ∧
      m.sym.setupNewValues .plain m.rng m.answers = some (.assigned, s, rng, answers) ∧
      m.Effective .plain s := by
  obtain ⟨m, s, rng, answers, hrun, hstopped, henforcing, hsetup, hobjects⟩ :
      ∃ m s rng answers, Lib.runSteps (step .plain) 4 constrainedField = some m ∧
        m.history.filterMap stoppedBy = [eqTrue secondPacketZero] ∧
        m.sym.enforcingAssume = true ∧
        m.sym.setupNewValues .plain m.rng m.answers = some (.assigned, s, rng, answers) ∧
        m.assumeObjects .plain = [⟨"pkt1:y:byte0", 1⟩] :=
    ⟨_, _, _, _, rfl, rfl, rfl, rfl, rfl⟩
  have hstart : Initial Answers.Correct constrainedField :=
    ⟨_, _, _, _, _, Answers.preferring_correct _, rfl⟩
  have hiff := (restarts_iff ConstraintManager.plain_sound
    (Lib.Reachable.run (.initial hstart) hrun)).2 s rng answers henforcing hsetup
  refine ⟨m, s, rng, answers, hrun, hstopped, hsetup, hiff.mpr ?_⟩
  rw [hobjects]
  decide

/-- A server that assumes constraints on a byte and on a word of the same name. -/
noncomputable def byteAndWordAssumed : Machine :=
  start 0 (fun _ => 0) (.preferring fun _ _ => 1#8)
    (Action.script [
      .assume (.comparison .Eq (Expr.createTempReadByte "x") (.Constant 1#8)),
      .assume (.comparison .Eq (Expr.createTempReadWord "x") (.Constant 0x01010101#32))]) (· + 1)

/-- The input after the second run has no value for one of them. -/
theorem byteAndWordAssumed_not_effective :
    ∃ m s rng answers, Reachable .plain (fun a => a.Correct ∧ a.Complete) m ∧
      m.sym.enforcingAssume = true ∧
      m.sym.setupNewValues .plain m.rng m.answers = some (.assigned, s, rng, answers) ∧
      ¬ m.Effective .plain s := by
  obtain ⟨m, s, rng, answers, hrun, henforcing, hsetup, hobjects⟩ :
      ∃ m s rng answers, Lib.runSteps (step .plain) 6 byteAndWordAssumed = some m ∧
        m.sym.enforcingAssume = true ∧
        m.sym.setupNewValues .plain m.rng m.answers = some (.assigned, s, rng, answers) ∧
        (⟨"x", 1⟩ : SymbolicArray) ∈ m.assumeObjects .plain ∧
        (⟨"x", 4⟩ : SymbolicArray) ∈ m.assumeObjects .plain :=
    ⟨_, _, _, _, rfl, rfl, rfl, by decide, by decide⟩
  have hstart : Initial (fun a => a.Correct ∧ a.Complete) byteAndWordAssumed :=
    ⟨_, _, _, _, _, ⟨Answers.preferring_correct _, Answers.preferring_complete _⟩, rfl⟩
  refine ⟨m, s, rng, answers, .run (.initial hstart) hrun, henforcing, hsetup, ?_⟩
  rintro ⟨_, _, hbinds, _⟩
  cases hbinds.oneSize _ hobjects.1 _ hobjects.2 rfl

end Machine

end SpsVp.Symex
