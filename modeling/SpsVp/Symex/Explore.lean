import SpsVp.Lib.Machine
import SpsVp.Symex.SymbolicContext

/-!
# The exploration loop

`explore_paths` of `symex/symbolic_explore.cpp` as a machine that takes one step at a time. The
outer loop alternates between negating branches at the current packet sequence length and
re-executing the partially explored paths at the next one. A run of the guest is a sequence of
actions: requests for symbolic input, branches on symbolic conditions, assumptions of the protocol
server, the notification that a packet has been processed, and the end of the simulation.

Everything that the machine does not control is a stream of inputs: the values of `rand()`, the
answers of the solver, the actions of the guest together with the server, and the results of
`executed_branches`. A statement about all machines is thus one about every guest program, every
server and every outcome. `history` only records what happened, for the statements to refer to.
-/

namespace SpsVp.Symex

open Klee Clover

/-- What the guest and its environment do next in a run. -/
inductive Action where
  | request (T : IntType) (name : String)
  | branch (cond : Bool) (bv : Expr 1) (pc : BitVec 32)
  | assume (constraint : Expr 1)
  | processedPacket
  | exit (ret : Nat)

/-- The actions of a list, and then the end of the simulation. -/
def Action.script (actions : List Action) : Nat → Action := fun i => actions.getD i (.exit 0)

/-- A record of one run. `replayed` is the input that it was started with in the loop over partial
paths, `known` are the constraints assumed before it, `assumed` the conditions passed to `assume`
with the directions taken before, `recorded` the input that `early_exit` kept, and `store` the input
handed out. -/
structure RunRecord where
  length : Nat
  replayed : Option ConcreteStore
  known : List (Expr 1)
  requests : List (IntType × String)
  directions : List Bool
  assumed : List (List Bool × Expr 1)
  recorded : Option ConcreteStore
  store : ConcreteStore
  stopped : Bool

/-- An entry of the history: a run, or that `is_stuck` returned true. -/
inductive Entry where
  | run (record : RunRecord)
  | stuck

/-- The program points of `explore_paths`. `outer` is the head of the outer loop, `explore` the
start of a run in the loop that negates branches, `running` a run in progress, `negate` the end of
that loop's body, `lengthen` the increment of the sequence length, `replay` the head of the loop
over partial paths and `assign` the call of `setupNewValues` after it. -/
inductive Control where
  | outer
  | explore
  | running
  | negate
  | lengthen
  | replay
  | assign
  | returned (ret : Nat)
  | threw
deriving DecidableEq

/-- Where the loop that negates branches goes after `setupNewValues`. -/
def Setup.afterNegate : Setup → Control
  | .assigned => .explore
  | .exhausted => .lengthen
  | .unsatisfiable => .threw

/-- The state of the exploration. -/
structure Machine where
  sym : SymbolicContext
  maxpktseq : BitVec 32
  pktseqlen : BitVec 32
  foundAssig : Bool
  prevExecutedBranches : Nat
  noNewBranch : Nat
  control : Control
  current : RunRecord
  rng : Rand
  answers : Answers
  actions : Nat → Action
  branches : Nat → Nat
  history : List Entry

namespace Machine

/-- `is_stuck`: fifty checks in a row without a new branch. -/
def isStuck (m : Machine) : Bool × Machine :=
  let count := m.branches 0
  let no_new := if count = m.prevExecutedBranches then m.noNewBranch + 1 else 0
  let ret := decide (50 ≤ no_new)
  (ret, { m with
    prevExecutedBranches := count
    noNewBranch := if ret then 0 else no_new
    branches := fun i => m.branches (i + 1)
    history := if ret then m.history ++ [.stuck] else m.history })

def isStuckReset (m : Machine) : Machine :=
  { m with prevExecutedBranches := 0, noNewBranch := 0 }

/-- The start of `explore_path` for the current sequence length. -/
def startRun (m : Machine) (replayed : Option ConcreteStore) : Machine :=
  let sym := m.sym.preparePacketSequence m.pktseqlen.toNat
  { m with
    sym := { sym with trace := sym.trace.reset }
    control := .running
    current := {
      length := m.pktseqlen.toNat
      replayed := replayed
      known := m.sym.constraints
      requests := []
      directions := []
      assumed := []
      recorded := none
      store := fun _ => none
      stopped := false } }

/-- The end of `explore_path`: a failed run that was not stopped by an assumption ends the
exploration, any other one goes back to its loop. -/
def endRun (m : Machine) (ret : Nat) : Machine :=
  let record := { m.current with store := m.sym.ctx.getPrevStore }
  { m with
    history := m.history ++ [.run record]
    control :=
      if ret ≠ 0 ∧ record.stopped = false then .returned ret
      else if record.replayed.isSome then .replay
      else .negate }

/-- After a run there is no other one yet, and the outer loop does not go on. -/
theorem endRun_control_ne (m : Machine) (ret : Nat) :
    (m.endRun ret).control ≠ .running ∧ (m.endRun ret).control ≠ .outer := by
  simp only [endRun]
  split_ifs <;> simp

/-- One action of a run. -/
def act (cm : ConstraintManager) (m : Machine) : Action → Option Machine
  | .request T name => do
      let (_, ctx, rng) ← m.sym.ctx.findRemoveOrRandom T name m.rng
      some { m with
        sym := { m.sym with ctx := ctx }
        rng := rng
        current := { m.current with requests := m.current.requests ++ [(T, name)] } }
  | .branch cond bv pc => do
      let trace ← m.sym.trace.add cm cond bv pc (m.sym.currentPacketIndex + 1)
      some { m with
        sym := { m.sym with trace := trace }
        current := { m.current with directions := m.current.directions ++ [cond] } }
  | .assume constraint => do
      let (sym, isNew) ← m.sym.assume cm constraint
      let m := { m with
        sym := sym
        current := { m.current with
          assumed := m.current.assumed ++ [(m.current.directions, constraint)]
          stopped := isNew } }
      -- a new constraint stops the simulation, which then counts as failed
      some (if isNew then m.endRun 1 else m)
  | .processedPacket =>
    let (sym, last) := m.sym.processedPacket
    if last then
      let store := sym.ctx.getPrevStore
      some (endRun { m with
        sym := sym.earlyExit ((sym.packetSequenceLength + 1) % 0x100000000)
        current := { m.current with recorded := some store } } 0)
    else some { m with sym := sym }
  | .exit ret => some (m.endRun ret)

/-- One step of the exploration; `none` when an assertion fails or when it is over. -/
def step (cm : ConstraintManager) (m : Machine) : Option Machine :=
  match m.control with
  | .outer => some { m with control := if m.foundAssig then .explore else .lengthen }
  | .explore => some (m.startRun none)
  | .running => { m with actions := fun i => m.actions (i + 1) }.act cm (m.actions 0)
  | .negate =>
    match m.isStuck with
    | (true, m) => some { m with control := .lengthen }
    | (false, m) => do
        let (setup, sym, rng, answers) ← m.sym.setupNewValues cm m.rng m.answers
        some { m with sym := sym, rng := rng, answers := answers, control := setup.afterNegate }
  | .lengthen =>
    let pktseqlen := m.pktseqlen + 1#32
    some { m with
      pktseqlen := pktseqlen
      control := if m.maxpktseq ≠ 0 ∧ pktseqlen > m.maxpktseq then .returned 0 else .replay }
  | .replay =>
    match m.sym.randomPartial m.pktseqlen.toNat m.rng with
    | none => some { m with control := .assign }
    | some (store, sym, rng) =>
      let m := { m with sym := { sym with ctx := sym.ctx.setupNewValues store }, rng := rng }
      match m.isStuck with
      | (true, m) => some { m with sym := m.sym.clearPartial, control := .assign }
      | (false, m) => some (m.startRun (some store))
  | .assign => do
      let (setup, sym, rng, answers) ← m.sym.setupNewValues cm m.rng m.answers
      let m := { m with sym := sym, rng := rng, answers := answers }
      match setup with
      | .unsatisfiable => some { m with control := .threw }
      | .assigned => some { m with foundAssig := true, control := .outer }.isStuckReset
      | .exhausted => some { m with foundAssig := false, control := .outer }.isStuckReset
  | .returned _ => none
  | .threw => none

/-- The exploration before its first step, for given inputs. -/
def start (maxpktseq : BitVec 32) (rng : Rand) (answers : Answers) (actions : Nat → Action)
    (branches : Nat → Nat) : Machine where
  sym := .init
  maxpktseq := maxpktseq
  pktseqlen := 1
  foundAssig := true
  prevExecutedBranches := 0
  noNewBranch := 0
  control := .outer
  current := ⟨0, none, [], [], [], [], none, fun _ => none, false⟩
  rng := rng
  answers := answers
  actions := actions
  branches := branches
  history := []

/-- A machine before its first step, with answers of the solver that satisfy a condition. -/
def Initial (P : Answers → Prop) (m : Machine) : Prop :=
  ∃ maxpktseq rng answers actions branches, P answers ∧
    m = start maxpktseq rng answers actions branches

/-- The states that an exploration reaches when the answers of the solver satisfy a condition. -/
abbrev Reachable (cm : ConstraintManager) (P : Answers → Prop) : Machine → Prop :=
  Lib.Reachable (Initial P) (step cm)

/-! ## What a step can do -/

/-- The machine after its next action has been taken from the stream. -/
def taken (m : Machine) : Machine := { m with actions := fun i => m.actions (i + 1) }

/-- The transitions of the exploration. -/
inductive Step (cm : ConstraintManager) (m : Machine) : Machine → Prop where
  | outer (h : m.control = .outer) :
      Step cm m { m with control := if m.foundAssig then .explore else .lengthen }
  | explore (h : m.control = .explore) : Step cm m (m.startRun none)
  | request (h : m.control = .running) (T : IntType) (name : String) (value : BitVec T.width)
      (ctx : ExecutionContext) (rng : Rand)
      (hfind : m.sym.ctx.findRemoveOrRandom T name m.rng = some (value, ctx, rng)) :
      Step cm m { m.taken with
        sym := { m.sym with ctx := ctx }
        rng := rng
        current := { m.current with requests := m.current.requests ++ [(T, name)] } }
  | branch (h : m.control = .running) (cond : Bool) (bv : Expr 1) (pc : BitVec 32) (trace : Trace)
      (hadd : m.sym.trace.add cm cond bv pc (m.sym.currentPacketIndex + 1) = some trace) :
      Step cm m { m.taken with
        sym := { m.sym with trace := trace }
        current := { m.current with directions := m.current.directions ++ [cond] } }
  | assumeKnown (h : m.control = .running) (constraint : Expr 1)
      (hknown : eqTrue constraint ∈ m.sym.constraints) :
      Step cm m { m.taken with
        current := { m.current with
          assumed := m.current.assumed ++ [(m.current.directions, constraint)]
          stopped := false } }
  | assumeNew (h : m.control = .running) (constraint : Expr 1) (trace : Trace)
      (hnew : eqTrue constraint ∉ m.sym.constraints)
      (hassume : m.sym.trace.assume cm (eqTrue constraint) = some trace) :
      Step cm m (endRun { m.taken with
        sym := { m.sym with
          trace := trace
          constraints := m.sym.constraints ++ [eqTrue constraint]
          enforcingAssume := true }
        current := { m.current with
          assumed := m.current.assumed ++ [(m.current.directions, constraint)]
          stopped := true } } 1)
  | packet (h : m.control = .running)
      (hmore : m.sym.currentPacketIndex + 1 < m.sym.packetSequenceLength) :
      Step cm m { m.taken with sym := m.sym.processedPacket.1 }
  | lastPacket (h : m.control = .running)
      (hlast : m.sym.packetSequenceLength ≤ m.sym.currentPacketIndex + 1) :
      Step cm m (endRun { m.taken with
        sym := m.sym.processedPacket.1.earlyExit ((m.sym.packetSequenceLength + 1) % 0x100000000)
        current := { m.current with recorded := some m.sym.ctx.getPrevStore } } 0)
  | exit (h : m.control = .running) (ret : Nat) : Step cm m (m.taken.endRun ret)
  | negateStuck (h : m.control = .negate) (hstuck : m.isStuck.1 = true) :
      Step cm m { m.isStuck.2 with control := .lengthen }
  | negate (h : m.control = .negate) (hstuck : m.isStuck.1 = false) (setup : Setup)
      (sym : SymbolicContext) (rng : Rand) (answers : Answers)
      (hsetup : m.sym.setupNewValues cm m.rng m.answers = some (setup, sym, rng, answers)) :
      Step cm m { m.isStuck.2 with
        sym := sym, rng := rng, answers := answers, control := setup.afterNegate }
  | lengthen (h : m.control = .lengthen) :
      Step cm m { m with
        pktseqlen := m.pktseqlen + 1#32
        control :=
          if m.maxpktseq ≠ 0 ∧ m.pktseqlen + 1#32 > m.maxpktseq then .returned 0 else .replay }
  | replayEmpty (h : m.control = .replay)
      (hnone : m.sym.randomPartial m.pktseqlen.toNat m.rng = none) :
      Step cm m { m with control := .assign }
  | replayStuck (h : m.control = .replay) (store : ConcreteStore) (sym : SymbolicContext)
      (rng : Rand) (hpop : m.sym.randomPartial m.pktseqlen.toNat m.rng = some (store, sym, rng))
      (hstuck : m.isStuck.1 = true) :
      Step cm m { m.isStuck.2 with
        sym := SymbolicContext.clearPartial { sym with ctx := sym.ctx.setupNewValues store }
        rng := rng
        control := .assign }
  | replay (h : m.control = .replay) (store : ConcreteStore) (sym : SymbolicContext)
      (rng : Rand) (hpop : m.sym.randomPartial m.pktseqlen.toNat m.rng = some (store, sym, rng))
      (hstuck : m.isStuck.1 = false) :
      Step cm m (startRun { m.isStuck.2 with
        sym := { sym with ctx := sym.ctx.setupNewValues store }, rng := rng } (some store))
  | assign (h : m.control = .assign) (setup : Setup) (sym : SymbolicContext) (rng : Rand)
      (answers : Answers) (hne : setup ≠ .unsatisfiable)
      (hsetup : m.sym.setupNewValues cm m.rng m.answers = some (setup, sym, rng, answers)) :
      Step cm m (isStuckReset { m with
        sym := sym
        rng := rng
        answers := answers
        foundAssig := decide (setup = .assigned)
        control := .outer })
  | assignThrow (h : m.control = .assign) (sym : SymbolicContext) (rng : Rand) (answers : Answers)
      (hsetup : m.sym.setupNewValues cm m.rng m.answers =
        some (.unsatisfiable, sym, rng, answers)) :
      Step cm m { m with sym := sym, rng := rng, answers := answers, control := .threw }

variable {cm : ConstraintManager}

/-- Every action is one of the transitions of a run. -/
theorem act_step {m m' : Machine} {a : Action}
    (hrunning : m.control = .running) (h : m.taken.act cm a = some m') : Step cm m m' := by
  cases a with
  | request T name =>
    simp only [act, taken, Option.bind_eq_bind, Option.bind_eq_some_iff] at h
    obtain ⟨⟨value, ctx, rng⟩, hfind, h⟩ := h
    cases h
    exact .request hrunning T name value ctx rng hfind
  | branch cond bv pc =>
    simp only [act, taken, Option.bind_eq_bind, Option.bind_eq_some_iff] at h
    obtain ⟨trace, hadd, h⟩ := h
    cases h
    exact .branch hrunning cond bv pc trace hadd
  | assume constraint =>
    simp only [act, Option.bind_eq_bind, Option.bind_eq_some_iff] at h
    obtain ⟨⟨sym, isNew⟩, hassume, h⟩ := h
    obtain ⟨hknown, rfl, rfl⟩ | ⟨hnew, rfl, trace, htrace, rfl⟩ :=
      SymbolicContext.assume_cases hassume
    · cases h
      exact .assumeKnown hrunning constraint hknown
    · cases h
      exact .assumeNew hrunning constraint trace hnew htrace
  | processedPacket =>
    by_cases hlast : m.sym.packetSequenceLength ≤ m.sym.currentPacketIndex + 1
    · have hflag : m.taken.sym.processedPacket.2 = true := decide_eq_true hlast
      simp only [act, hflag, if_true] at h
      cases h
      exact .lastPacket hrunning hlast
    · have hflag : m.taken.sym.processedPacket.2 = false := decide_eq_false hlast
      simp only [act, hflag, Bool.false_eq_true, if_false] at h
      cases h
      exact .packet hrunning (Nat.lt_of_not_le hlast)
  | exit ret =>
    cases h
    exact .exit hrunning ret

/-- Every step is one of the transitions. -/
theorem step_cases {m m' : Machine} (h : m.step cm = some m') :
    Step cm m m' := by
  unfold step at h
  split at h
  · rename_i hc
    cases h
    exact .outer hc
  · rename_i hc
    cases h
    exact .explore hc
  · rename_i hc
    exact act_step hc h
  · rename_i hc
    split at h
    · rename_i m₁ hstuck
      cases h
      have hm₁ : m₁ = m.isStuck.2 := by rw [hstuck]
      subst hm₁
      exact .negateStuck hc (by rw [hstuck])
    · rename_i m₁ hstuck
      have hm₁ : m₁ = m.isStuck.2 := by rw [hstuck]
      subst hm₁
      simp only [Option.bind_eq_bind, Option.bind_eq_some_iff] at h
      obtain ⟨⟨setup, sym, rng, answers⟩, hsetup, h⟩ := h
      cases h
      exact .negate hc (by rw [hstuck]) setup sym rng answers hsetup
  · rename_i hc
    cases h
    exact .lengthen hc
  · rename_i hc
    split at h
    · rename_i hnone
      cases h
      exact .replayEmpty hc hnone
    · rename_i store sym rng hpop
      dsimp only at h
      split at h
      · rename_i m₁ hstuck
        cases h
        have hm₁ : m₁ = { m.isStuck.2 with
            sym := { sym with ctx := sym.ctx.setupNewValues store }, rng := rng } := by
          rw [isStuck] at hstuck
          exact (Prod.mk.inj hstuck).2.symm
        subst hm₁
        exact .replayStuck hc store sym rng hpop (Prod.mk.inj hstuck).1
      · rename_i m₁ hstuck
        cases h
        have hm₁ : m₁ = { m.isStuck.2 with
            sym := { sym with ctx := sym.ctx.setupNewValues store }, rng := rng } := by
          rw [isStuck] at hstuck
          exact (Prod.mk.inj hstuck).2.symm
        subst hm₁
        exact .replay hc store sym rng hpop (Prod.mk.inj hstuck).1
  · rename_i hc
    simp only [Option.bind_eq_bind, Option.bind_eq_some_iff] at h
    obtain ⟨⟨setup, sym, rng, answers⟩, hsetup, h⟩ := h
    cases setup with
    | assigned =>
      cases h
      exact .assign hc .assigned sym rng answers (by decide) hsetup
    | exhausted =>
      cases h
      exact .assign hc .exhausted sym rng answers (by decide) hsetup
    | unsatisfiable =>
      cases h
      exact .assignThrow hc sym rng answers hsetup
  · cases h
  · cases h

end Machine

end SpsVp.Symex
