import SpsVp.Symex.Partial

/-!
# Assumed constraints and the input of runs

How the constraints that the protocol server assumes reach the runs. `Traced` says that the trace is
one that calls of its public functions produce, so that the results about a trace apply to it.
`Supplied` follows the input of a run: it comes from an assignment that satisfies all constraints
known when the run starts, or it is the input of a partially explored path. `assumptions_enforced`
derives from this when the values handed out in a run satisfy the constraints passed in it.
-/

namespace SpsVp.Symex

open Klee Clover

/-! ## The trace of the exploration -/

namespace SymbolicContext

variable {cm : ConstraintManager} {s s' : SymbolicContext}

/-- The trace is the result of calls of its functions, with the constraints of the context. -/
def Traced (cm : ConstraintManager) (s : SymbolicContext) : Prop :=
  ∃ l : Life, l.Invariant cm ∧ l.trace = s.trace ∧ l.assumed = s.constraints

theorem traced_init : init.Traced cm := ⟨.init, Life.invariant_init, rfl, rfl⟩

theorem Traced.of_eq (h : s.Traced cm) (htrace : s'.trace = s.trace)
    (hconstraints : s'.constraints = s.constraints) : s'.Traced cm := by
  obtain ⟨l, hinv, hl, hassumed⟩ := h
  exact ⟨l, hinv, hl.trans htrace.symm, hassumed.trans hconstraints.symm⟩

theorem Traced.wellFormed (h : s.Traced cm) : s.trace.pathCondsRoot.WellFormed := by
  obtain ⟨l, hinv, hl, -⟩ := h
  exact hl ▸ hinv.wellFormed

/-- The constraint set of the trace means the constraints of the context. -/
theorem Traced.assumed (h : s.Traced cm) (hcm : cm.Sound) (σ : Valuation) :
    Sat σ s.trace.assumeCs ↔ Sat σ s.constraints := by
  obtain ⟨l, hinv, hl, hassumed⟩ := h
  rw [← hl, ← hassumed]
  exact hinv.assumed hcm σ

theorem Traced.reset (h : s.Traced cm) (htrace : s'.trace = s.trace.reset)
    (hconstraints : s'.constraints = s.constraints) : s'.Traced cm := by
  obtain ⟨l, hinv, hl, hassumed⟩ := h
  refine ⟨_, hinv.reset rfl, ?_, hassumed.trans hconstraints.symm⟩
  rw [htrace, ← hl]

theorem Traced.add (h : s.Traced cm) {cond : Bool} {bv : Expr 1} {pc : BitVec 32} {k : Nat}
    (hadd : s.trace.add cm cond bv pc k = some s'.trace)
    (hconstraints : s'.constraints = s.constraints) : s'.Traced cm := by
  obtain ⟨l, hinv, hl, hassumed⟩ := h
  rw [← hl] at hadd
  have hcall : l.call cm (.add cond bv pc k) = some { l with
      trace := s'.trace
      current := some (l.current.getD [] ++ [⟨bv, pc, k, cond⟩]) } := by
    simp [Life.call, hadd]
  exact ⟨_, hinv.add hcall, rfl, hassumed.trans hconstraints.symm⟩

theorem Traced.assume (h : s.Traced cm) {constraint : Expr 1}
    (hassume : s.trace.assume cm constraint = some s'.trace)
    (hconstraints : s'.constraints = s.constraints ++ [constraint]) : s'.Traced cm := by
  obtain ⟨l, hinv, hl, hassumed⟩ := h
  rw [← hl] at hassume
  have hcall : l.call cm (.assume constraint) = some { l with
      trace := s'.trace
      assumed := l.assumed ++ [constraint] } := by
    simp [Life.call, hassume]
  refine ⟨_, hinv.assume hcall, rfl, ?_⟩
  rw [hconstraints, ← hassumed]

variable {rng : Rand} {answers : Answers}

theorem Traced.search (h : s.Traced cm) {k : Nat}
    (htrace : s'.trace = (s.trace.findNewPath cm k rng answers).trace)
    (hconstraints : s'.constraints = s.constraints) : s'.Traced cm := by
  obtain ⟨l, hinv, hl, hassumed⟩ := h
  have hsearch := (Trace.findNewPath_searches cm k hinv.wellFormed rng answers).negations
  refine ⟨_, hinv.negations hsearch, ?_, hassumed.trans hconstraints.symm⟩
  rw [htrace, ← hl]

theorem Traced.setup (h : s.Traced cm) {rng' : Rand} {answers' : Answers}
    {setup : Setup} (hsetup : s.setupNewValues cm rng answers = some (setup, s', rng', answers')) :
    s'.Traced cm := by
  cases setupNewValues_cases hsetup with
  | unsatisfiable | fromAssume => exact h.of_eq rfl rfl
  | found search assign store henforcing hsearch => exact h.search (by rw [hsearch]) rfl
  | exhausted search henforcing hsearch => exact h.search (by rw [hsearch]) rfl

/-- What is left of the answers after new input has been found. -/
theorem setupNewValues_answers {Q : Answers → Prop} (hrest : ∀ a, Q a → Q a.rest)
    (h : s.Traced cm) {rng' : Rand} {answers' : Answers} {setup : Setup}
    (hsetup : s.setupNewValues cm rng answers = some (setup, s', rng', answers'))
    (hQ : Q answers) : Q answers' := by
  cases setupNewValues_cases hsetup with
  | unsatisfiable _ _ hassume => exact getAssignment_answers hrest hQ hassume
  | fromAssume _ _ _ _ hassume => exact getAssignment_answers hrest hQ hassume
  | found search assign store henforcing hsearch | exhausted search henforcing hsearch =>
    subst hsearch
    exact (Trace.findNewPath_searches cm _ h.wellFormed _ _).answers_spec hrest hQ

end SymbolicContext

namespace Machine

variable {cm : ConstraintManager} {P : Answers → Prop} {m m' : Machine}

theorem traced_step (h : m.sym.Traced cm) (hstep : Step cm m m') : m'.sym.Traced cm := by
  cases hstep with
  | outer | lengthen | replayEmpty => exact h
  | explore => exact h.reset rfl rfl
  | request | packet => exact h.of_eq rfl rfl
  | branch hc cond bv pc trace hadd => exact h.add hadd rfl
  | assumeKnown => exact h
  | assumeNew hc constraint trace hnew hassume => exact h.assume hassume rfl
  | lastPacket => exact h.of_eq rfl rfl
  | exit | negateStuck => exact h
  | negate hc hstuck setup sym rng answers hsetup => exact h.setup hsetup
  | replayStuck hc store sym rng hpop =>
    obtain ⟨idx, -, rfl⟩ := SymbolicContext.randomPartial_cases hpop
    exact h.of_eq rfl rfl
  | replay hc store sym rng hpop =>
    obtain ⟨idx, -, rfl⟩ := SymbolicContext.randomPartial_cases hpop
    exact h.reset rfl rfl
  | assign hc setup sym rng answers hne hsetup => exact h.setup hsetup
  | assignThrow hc sym rng answers hsetup => exact h.setup hsetup

theorem reachable_traced (hm : Reachable cm P m) : m.sym.Traced cm := by
  refine Lib.Reachable.invariant (P := fun m => m.sym.Traced cm) ?_ ?_ hm
  · rintro _ ⟨maxpktseq, rng, answers, actions, branches, -, rfl⟩
    exact SymbolicContext.traced_init
  · intro s s' _ h hstep
    exact traced_step h (step_cases hstep)

/-- A condition on the answers of the solver that does not depend on when they are asked for holds
of the ones still to come. -/
theorem reachable_answers (hrest : ∀ a, P a → P a.rest) (hm : Reachable cm P m) : P m.answers := by
  refine Lib.Reachable.invariant (P := fun m => P m.answers) ?_ ?_ hm
  · rintro _ ⟨maxpktseq, rng, answers, actions, branches, hP, rfl⟩
    exact hP
  · intro s s' hs h hstep
    cases step_cases hstep with
    | negate hc hstuck setup sym rng answers hsetup =>
      exact SymbolicContext.setupNewValues_answers hrest (reachable_traced hs) hsetup h
    | assign hc setup sym rng answers hne hsetup =>
      exact SymbolicContext.setupNewValues_answers hrest (reachable_traced hs) hsetup h
    | assignThrow hc sym rng answers hsetup =>
      exact SymbolicContext.setupNewValues_answers hrest (reachable_traced hs) hsetup h
    | _ => exact h

end Machine

/-! ## The input of a run -/

/-- The store comes from an assignment that satisfies the known constraints, or there are none. -/
def FromAssignment (known : List (Expr 1)) (store : ConcreteStore) : Prop :=
  known = [] ∨ ∃ a part, getStore a = some part ∧ Extends store part ∧
    ∀ σ, a.Binds σ → Sat σ known

/-- Where the values come from that a run starts with. -/
def Origin (r : RunRecord) (store : ConcreteStore) : Prop :=
  match r.replayed with
  | some kept => Extends store kept
  | none => FromAssignment r.known store

/-- Every variable that is requested once has a value of its type, the one it starts with if there
is one. -/
def Handed (start : ConcreteStore) (requests : List (IntType × String)) (store : ConcreteStore) :
    Prop :=
  (requests.map Prod.snd).Nodup → ∀ q ∈ requests, ∃ value : BitVec q.1.width,
    store q.2 = some (IntValue.mk q.1 value) ∧ ∀ v, start q.2 = some v → v = IntValue.mk q.1 value

theorem handed_nil (start store : ConcreteStore) : Handed start [] store := by
  simp [Handed]

/-- One more request. -/
theorem Handed.request {start : ConcreteStore} {requests : List (IntType × String)}
    {ctx ctx' : ExecutionContext} (h : Handed start requests ctx.lastRun)
    (hnext : ∀ name, name ∉ requests.map Prod.snd → ctx.nextRun name = start name) {T : IntType}
    {name : String} {rng rng' : Rand} {value : BitVec T.width}
    (hfind : ctx.findRemoveOrRandom T name rng = some (value, ctx', rng')) :
    Handed start (requests ++ [(T, name)]) ctx'.lastRun := by
  intro hnodup q hq
  obtain ⟨rfl, hvalue⟩ := ExecutionContext.find_cases hfind
  rw [List.map_append, List.nodup_append'] at hnodup
  obtain ⟨hbefore, -, hdisjoint⟩ := hnodup
  have hnew : name ∉ requests.map Prod.snd := fun hmem => hdisjoint hmem (by simp)
  rw [List.mem_append, List.mem_singleton] at hq
  obtain hq | rfl := hq
  · have hne : q.2 ≠ name := fun heq => hnew (heq ▸ List.mem_map_of_mem hq)
    obtain ⟨v, hstore, hstart⟩ := h hbefore q hq
    exact ⟨v, by rw [← hstore]; exact Function.update_of_ne hne _ _, hstart⟩
  · refine ⟨value, Function.update_self _ _ _, fun v hv => ?_⟩
    -- the variable is still as the run started with it
    rw [← hnext name hnew] at hv
    obtain ⟨hfound, -⟩ | ⟨hnone, -⟩ := hvalue
    · exact Option.some.inj (hv.symm.trans hfound)
    · rw [hnone] at hv
      cases hv

/-- New input comes from an assignment that satisfies all constraints assumed so far. -/
theorem SymbolicContext.Traced.fromAssignment {cm : ConstraintManager} (hcm : cm.Sound)
    {s s' : SymbolicContext} (h : s.Traced cm) {rng rng' : Rand} {answers answers' : Answers}
    (hcorrect : answers.Correct)
    (hsetup : s.setupNewValues cm rng answers = some (.assigned, s', rng', answers')) :
    FromAssignment s'.constraints s'.ctx.nextRun := by
  cases setupNewValues_cases hsetup with
  | fromAssume assign store answers' henforcing hassume hstore =>
    refine .inr ⟨assign, store, hstore, extends_setupNewValues _ _, fun σ hσ => ?_⟩
    exact (h.assumed hcm σ).mp (Trace.fromAssume_sound hcm hcorrect hassume hσ)
  | found search assign store henforcing hsearch hfound hstore =>
    subst hsearch
    refine .inr ⟨assign, store, hstore, extends_setupNewValues _ _, fun σ hσ => ?_⟩
    obtain ⟨d, value, -, hall⟩ :=
      (Trace.findNewPath_searches cm _ h.wellFormed _ _).sound hcm hcorrect hfound
    exact (h.assumed hcm σ).mp (hall σ hσ).1

/-- The constraints passed in the run only read variables that it has requested. -/
def RunRecord.Scoped (r : RunRecord) : Prop :=
  ∀ p ∈ r.assumed, ∀ array ∈ p.2.arrays, ∃ q ∈ r.requests, array = variableArray q.1 q.2

theorem holds_eqTrue {σ : Valuation} {e : Expr 1} : Holds σ (eqTrue e) ↔ Holds σ e :=
  holds_eqDirection σ true e

namespace Machine

variable {cm : ConstraintManager} {P : Answers → Prop} {m m' : Machine}

/-- The input of the next run, of the run in progress and of the recorded runs. -/
structure Supplied (m : Machine) : Prop where
  ready : m.control = .explore ∨ m.control = .outer ∧ m.foundAssig = true →
    FromAssignment m.sym.constraints m.sym.ctx.nextRun
  running : m.control = .running → ∃ start, Origin m.current start ∧
    Handed start m.current.requests m.sym.ctx.lastRun ∧
    ∀ name, name ∉ m.current.requests.map Prod.snd → m.sym.ctx.nextRun name = start name
  recorded : ∀ r, .run r ∈ m.history → ∃ start, Origin r start ∧ Handed start r.requests r.store

/-- A run that starts has been handed nothing yet. -/
theorem Supplied.startRun {replayed : Option ConcreteStore}
    (hrecorded : ∀ r, .run r ∈ m.history → ∃ start, Origin r start ∧
      Handed start r.requests r.store)
    (horigin : Origin (m.startRun replayed).current m.sym.ctx.nextRun) :
    (m.startRun replayed).Supplied where
  ready h := by simp [Machine.startRun] at h
  running _ := ⟨m.sym.ctx.nextRun, horigin, handed_nil _ _, fun _ _ => rfl⟩
  recorded := hrecorded

/-- A run that ends is recorded with what it was handed. -/
theorem Supplied.endRun (start : ConcreteStore)
    (hrecorded : ∀ r, .run r ∈ m.history → ∃ start, Origin r start ∧
      Handed start r.requests r.store)
    (horigin : Origin m.current start)
    (hhanded : Handed start m.current.requests m.sym.ctx.lastRun) (ret : Nat) :
    (m.endRun ret).Supplied := by
  have hcontrol : ∀ c, (m.endRun ret).control = c → c ≠ .explore ∧ c ≠ .outer ∧ c ≠ .running := by
    rintro c rfl
    simp only [Machine.endRun]
    split_ifs <;> simp
  refine ⟨fun h => ?_, fun h => ?_, fun r hr => ?_⟩
  · obtain h | ⟨h, -⟩ := h
    · exact absurd rfl (hcontrol _ h).1
    · exact absurd rfl (hcontrol _ h).2.1
  · exact absurd rfl (hcontrol _ h).2.2
  · simp only [Machine.endRun, List.mem_append, List.mem_singleton, Entry.run.injEq] at hr
    obtain hr | rfl := hr
    · exact hrecorded r hr
    · exact ⟨start, horigin, hhanded⟩

/-- Elsewhere only the recorded runs matter. -/
theorem Supplied.outside (h : m.Supplied) (hc : m'.control ≠ .running)
    (hready : m'.control = .explore ∨ m'.control = .outer ∧ m'.foundAssig = true →
      FromAssignment m'.sym.constraints m'.sym.ctx.nextRun)
    (hhistory : ∀ r, .run r ∈ m'.history → .run r ∈ m.history) : m'.Supplied where
  ready := hready
  running hrun := absurd hrun hc
  recorded r hr := h.recorded r (hhistory r hr)

/-- Every step keeps the input accounted for. -/
theorem supplied_step (hcm : cm.Sound) (htraced : m.sym.Traced cm) (hcorrect : m.answers.Correct)
    (h : m.Supplied) (hstep : Step cm m m') : m'.Supplied := by
  cases hstep with
  | outer hc =>
    refine h.outside ?_ (fun hready => h.ready (.inr ⟨hc, ?_⟩)) (fun r hr => hr)
    · dsimp only
      split_ifs <;> simp
    · dsimp only at hready
      by_contra hnot
      simp [hnot] at hready
  | explore hc => exact Supplied.startRun h.recorded (h.ready (.inl hc))
  | request hc T name value ctx rng hfind =>
    obtain ⟨start, horigin, hhanded, hnext⟩ := h.running hc
    refine ⟨?_, fun _ => ⟨start, horigin, hhanded.request hnext hfind, fun other hother => ?_⟩,
      h.recorded⟩
    · simp [taken, hc]
    · obtain ⟨rfl, -⟩ := ExecutionContext.find_cases hfind
      simp only [List.map_append, List.map_cons, List.map_nil, List.mem_append,
        List.mem_singleton, not_or] at hother
      exact (Function.update_of_ne hother.2 _ _).trans (hnext other hother.1)
  | branch hc cond bv pc trace hadd => exact ⟨by simp [taken, hc], h.running, h.recorded⟩
  | assumeKnown hc constraint hknown => exact ⟨by simp [taken, hc], h.running, h.recorded⟩
  | assumeNew hc constraint trace hnew hassume =>
    obtain ⟨start, horigin, hhanded, -⟩ := h.running hc
    refine Supplied.endRun start ?_ ?_ ?_ 1
    · exact h.recorded
    · exact horigin
    · exact hhanded
  | packet hc hmore => exact ⟨by simp [taken, hc], h.running, h.recorded⟩
  | lastPacket hc hlast =>
    obtain ⟨start, horigin, hhanded, -⟩ := h.running hc
    refine Supplied.endRun start ?_ ?_ ?_ 0
    · exact h.recorded
    · exact horigin
    · exact hhanded
  | exit hc ret =>
    obtain ⟨start, horigin, hhanded, -⟩ := h.running hc
    refine Supplied.endRun start ?_ ?_ ?_ ret
    · exact h.recorded
    · exact horigin
    · exact hhanded
  | negateStuck hc hstuck =>
    exact h.outside (by simp) (by simp) (fun r hr => run_mem_isStuck.mp hr)
  | negate hc hstuck setup sym rng answers hsetup =>
    refine h.outside ?_ (fun hready => ?_) (fun r hr => run_mem_isStuck.mp hr)
    · cases setup <;> simp [Setup.afterNegate]
    · obtain rfl : setup = .assigned := by cases setup <;> simp [Setup.afterNegate] at hready ⊢
      exact htraced.fromAssignment hcm hcorrect hsetup
  | lengthen hc =>
    refine h.outside ?_ (fun hready => ?_) (fun r hr => hr)
    · dsimp only
      split_ifs <;> simp
    · dsimp only at hready
      split_ifs at hready <;> simp at hready
  | replayEmpty hc hnone => exact h.outside (by simp) (by simp) (fun r hr => hr)
  | replayStuck hc store sym rng hpop hstuck =>
    exact h.outside (by simp) (by simp) (fun r hr => run_mem_isStuck.mp hr)
  | replay hc store sym rng hpop hstuck =>
    refine Supplied.startRun (fun r hr => h.recorded r (run_mem_isStuck.mp hr)) ?_
    exact extends_setupNewValues _ _
  | assign hc setup sym rng answers hne hsetup =>
    refine h.outside (by simp [isStuckReset]) (fun hready => ?_) (fun r hr => hr)
    obtain rfl : setup = .assigned := by simpa [isStuckReset] using hready
    exact htraced.fromAssignment hcm hcorrect hsetup
  | assignThrow hc sym rng answers hsetup =>
    exact h.outside (by simp) (by simp) (fun r hr => hr)

theorem reachable_supplied (hcm : cm.Sound) (hm : Reachable cm Answers.Correct m) :
    m.Supplied := by
  refine Lib.Reachable.invariant ?_ ?_ hm
  · rintro _ ⟨maxpktseq, rng, answers, actions, branches, -, rfl⟩
    exact ⟨fun _ => .inl rfl, by simp [start], by simp [start]⟩
  · intro s s' hs h hstep
    exact supplied_step hcm (reachable_traced hs) (reachable_answers (fun _ => .rest) hs) h
      (step_cases hstep)

/-- The values handed out in a run that is not stopped satisfy the constraints passed in it,
provided that no variable is requested twice, and that a re-executed path passes only constraints
which its kept input already satisfies, whatever the variables are that it does not hold. -/
theorem assumptions_enforced (hcm : cm.Sound) (hm : Reachable cm Answers.Correct m) {r : RunRecord}
    (hr : .run r ∈ m.history) (hgoes : r.stopped = false) (hscoped : r.Scoped)
    (hnames : (r.requests.map Prod.snd).Nodup)
    (hreplay : ∀ kept, r.replayed = some kept → ∀ p ∈ r.assumed, ∀ σ,
      (∀ q ∈ r.requests, AgreesAt σ kept q.2) → Holds σ p.2) :
    ∀ p ∈ r.assumed, ∀ σ, Agrees σ r.store → Holds σ p.2 := by
  intro p hp σ hσ
  obtain ⟨start, horigin, hhanded⟩ := (reachable_supplied hcm hm).recorded r hr
  have hknown : eqTrue p.2 ∈ r.known :=
    ((reachable_runInvariant hm).stopped r hr).mp hgoes p hp
  unfold Origin at horigin
  split at horigin
  · rename_i kept hkept
    refine hreplay kept hkept p hp σ fun q hq T value hvalue => ?_
    obtain ⟨v, hstore, hstart⟩ := hhanded hnames q hq
    refine hσ q.2 T value ?_
    rw [hstore, hstart _ (horigin _ _ hvalue)]
  · obtain hnone | ⟨a, part, hpart, hextends, hsat⟩ := horigin
    · simp [hnone] at hknown
    -- on the requested variables the valuation is the assignment, elsewhere it is made so
    let requested := r.requests.map fun q => variableArray q.1 q.2
    let τ : Valuation := fun array => if array ∈ requested then σ array else a.values array
    have hbinds : a.Binds τ := by
      intro array harray
      by_cases hmem : array ∈ requested
      · obtain ⟨q, hq, rfl⟩ := List.mem_map.mp hmem
        obtain ⟨value, hstore, hstart⟩ := hhanded hnames q hq
        have harray' := array_eq_of_store hpart harray
          (fun v hv => hstart v (hextends _ _ hv)) (hσ q.2 q.1 value hstore)
        simpa [τ, hmem] using harray'
      · simp [τ, hmem]
    have hholds : Holds τ p.2 := holds_eqTrue.mp (hsat τ hbinds _ hknown)
    have heval : p.2.eval τ = p.2.eval σ := by
      refine p.2.eval_congr fun array harray => ?_
      obtain ⟨q, hq, rfl⟩ := hscoped p hp array harray
      exact if_pos (List.mem_map_of_mem (f := fun q => variableArray q.1 q.2) hq)
    rwa [Holds, heval] at hholds

/-- In the last run of `constrainedPacket`, whose input comes from the assumed constraint, the
second packet satisfies it. -/
theorem assumptions_enforced_constrainedPacket :
    ∃ m r, Lib.runSteps (step .plain) 20 constrainedPacket = some m ∧ .run r ∈ m.history ∧
      r.stopped = false ∧ r.assumed = [([], secondPacketZero)] ∧
      ∀ p ∈ r.assumed, ∀ σ, Agrees σ r.store → Holds σ p.2 := by
  obtain ⟨m, r₁, r₂, r, hrun, hhistory, hgoes, hassumed, hrequests, hreplayed⟩ :
      ∃ m r₁ r₂ r, Lib.runSteps (step .plain) 20 constrainedPacket = some m ∧
        m.history = [.run r₁, .run r₂, .run r] ∧ r.stopped = false ∧
        r.assumed = [([], secondPacketZero)] ∧
        r.requests = [(.uint8, "pkt0:x:byte0"), (.uint8, "pkt1:y:byte0")] ∧ r.replayed = none :=
    ⟨_, _, _, _, rfl, rfl, rfl, rfl, rfl, rfl⟩
  have hstart : Initial Answers.Correct constrainedPacket :=
    ⟨_, _, _, _, _, Answers.preferring_correct _, rfl⟩
  have hr : .run r ∈ m.history := by simp [hhistory]
  refine ⟨m, r, hrun, hr, hgoes, hassumed, ?_⟩
  refine assumptions_enforced ConstraintManager.plain_sound
    (Lib.Reachable.run (.initial hstart) hrun) hr hgoes ?_ ?_ ?_
  · simp only [RunRecord.Scoped, hassumed, hrequests]
    decide
  · rw [hrequests]
    decide
  · simp [hreplayed]

/-- The condition on the field of the first packet. -/
def firstPacketZero : Expr 1 :=
  .comparison .Eq (Expr.createTempReadByte "pkt0:x:byte0") (.Constant 0#8)

/-- The constraint on the field of the second packet. -/
def secondPacketOne : Expr 1 :=
  .comparison .Eq (Expr.createTempReadByte "pkt1:y:byte0") (.Constant 1#8)

/-- A guest that branches on the first packet, and a server that assumes a constraint on the second
one. -/
noncomputable def branchingPackets : Machine :=
  start 0 (fun _ => 0) (.preferring fun _ _ => 1#8)
    (Action.script [
      .request .uint8 "pkt0:x:byte0", .branch true firstPacketZero 4096#32, .processedPacket,
      .request .uint8 "pkt0:x:byte0", .branch false firstPacketZero 4096#32, .processedPacket,
      .request .uint8 "pkt0:x:byte0", .branch true firstPacketZero 4096#32, .processedPacket,
      .request .uint8 "pkt1:y:byte0", .assume secondPacketOne,
      .request .uint8 "pkt0:x:byte0", .branch false firstPacketZero 4096#32, .processedPacket,
      .request .uint8 "pkt1:y:byte0", .assume secondPacketOne]) (· + 1)

/-- The second path that is re-executed gets a random second packet that violates the constraint,
and is not stopped since the first one has made the constraint known. -/
theorem branchingPackets_violates :
    ∃ m r, Reachable .plain (fun a => a.Correct ∧ a.Complete) m ∧ .run r ∈ m.history ∧
      r.stopped = false ∧ r.Scoped ∧ (r.requests.map Prod.snd).Nodup ∧
      ∃ p ∈ r.assumed, ∃ σ, Agrees σ r.store ∧ ¬ Holds σ p.2 := by
  obtain ⟨m, r₁, r₂, r₃, r, hrun, hhistory, hgoes, hassumed, hrequests, hstore⟩ :
      ∃ m r₁ r₂ r₃ r, Lib.runSteps (step .plain) 25 branchingPackets = some m ∧
        m.history = [.run r₁, .run r₂, .run r₃, .run r] ∧ r.stopped = false ∧
        r.assumed = [([false], secondPacketOne)] ∧
        r.requests = [(.uint8, "pkt0:x:byte0"), (.uint8, "pkt1:y:byte0")] ∧
        r.store = Function.update (Function.update (fun _ => none) "pkt0:x:byte0"
          (some (.uint8 1#8))) "pkt1:y:byte0" (some (.uint8 0#8)) :=
    ⟨_, _, _, _, _, rfl, rfl, rfl, rfl, rfl, rfl⟩
  have hstart : Initial (fun a => a.Correct ∧ a.Complete) branchingPackets :=
    ⟨_, _, _, _, _, ⟨Answers.preferring_correct _, Answers.preferring_complete _⟩, rfl⟩
  refine ⟨m, r, Lib.Reachable.run (.initial hstart) hrun, by simp [hhistory], hgoes, ?_, ?_, ?_⟩
  · simp only [RunRecord.Scoped, hassumed, hrequests]
    decide
  · rw [hrequests]
    decide
  · let σ : Valuation := fun array _ => if array.name = "pkt0:x:byte0" then 1#8 else 0#8
    refine ⟨([false], secondPacketOne), by simp [hassumed], σ, ?_, by decide⟩
    rw [hstore]
    exact ((agrees_empty σ).update .uint8 "pkt0:x:byte0" rfl).update .uint8 "pkt1:y:byte0" rfl

end Machine

end SpsVp.Symex
