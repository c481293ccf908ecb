import SpsVp.Clover.Life
import SpsVp.Clover.Store

/-!
# The symbolic context

`SymbolicContext` of `symex/symbolic_context.cpp`: the packet counters of a run, the constraints
assumed so far, the inputs of partially explored paths, and the trace and execution context of
clover that they act on.

A failed C++ assertion is `none`. Of the two ways in which `setupNewValues` finds new input, a
failed one is `exhausted` for the search in the tree and `unsatisfiable` for the exception that is
thrown when the assumed constraints have no solution.
-/

namespace SpsVp.Symex

open Klee Clover

/-- The state of the `SymbolicContext`. -/
structure SymbolicContext where
  currentPacketIndex : Nat
  packetSequenceLength : Nat
  constraints : List (Expr 1)
  enforcingAssume : Bool
  partiallyExplored : Nat → List ConcreteStore
  trace : Trace
  ctx : ExecutionContext

/-- How `setupNewValues` ends. -/
inductive Setup where
  | assigned
  | exhausted
  | unsatisfiable
deriving DecidableEq

namespace SymbolicContext

/-- The context as it is constructed. -/
def init : SymbolicContext where
  currentPacketIndex := 0
  packetSequenceLength := 0
  constraints := []
  enforcingAssume := false
  partiallyExplored := fun _ => []
  trace := .init
  ctx := .empty

/-- `assume`; the flag says that the constraint is new, and then the run is stopped. -/
def assume (cm : ConstraintManager) (s : SymbolicContext) (constraint : Expr 1) :
    Option (SymbolicContext × Bool) :=
  let expr := eqTrue constraint
  if expr ∈ s.constraints then some (s, false)
  else do
    let trace ← s.trace.assume cm expr
    some ({ s with
      trace := trace
      constraints := s.constraints ++ [expr]
      enforcingAssume := true }, true)

variable {cm : ConstraintManager} {s s' : SymbolicContext} {rng rng' : Rand}

/-- A constraint is known, or it is handed to the trace. -/
theorem assume_cases {constraint : Expr 1}
    {isNew : Bool} (h : s.assume cm constraint = some (s', isNew)) :
    (eqTrue constraint ∈ s.constraints ∧ s' = s ∧ isNew = false) ∨
    (eqTrue constraint ∉ s.constraints ∧ isNew = true ∧
      ∃ trace, s.trace.assume cm (eqTrue constraint) = some trace ∧
        s' = { s with
          trace := trace
          constraints := s.constraints ++ [eqTrue constraint]
          enforcingAssume := true }) := by
  unfold assume at h
  dsimp only at h
  split_ifs at h with hknown
  · cases h
    exact .inl ⟨hknown, rfl, rfl⟩
  · simp only [Option.bind_eq_bind, Option.bind_eq_some_iff] at h
    obtain ⟨trace, htrace, h⟩ := h
    cases h
    exact .inr ⟨hknown, rfl, trace, htrace, rfl⟩

/-- `setupNewValues`. -/
def setupNewValues (cm : ConstraintManager) (s : SymbolicContext) (rng : Rand) (answers : Answers) :
    Option (Setup × SymbolicContext × Rand × Answers) :=
  if s.enforcingAssume then
    let s := { s with enforcingAssume := false }
    match s.trace.fromAssume cm answers with
    | (none, answers) => some (.unsatisfiable, s, rng, answers)
    | (some assign, answers) => do
        let store ← getStore assign
        some (.assigned, { s with ctx := s.ctx.setupNewValues store }, rng, answers)
  else
    let search := s.trace.findNewPath cm s.packetSequenceLength rng answers
    let s := { s with trace := search.trace }
    match search.outcome with
    | .found assign => do
        let store ← getStore assign
        some (.assigned, { s with ctx := s.ctx.setupNewValues store }, search.rng, search.answers)
    | .exhausted => some (.exhausted, s, search.rng, search.answers)
    | .aborted | .outOfFuel => none

def preparePacketSequence (s : SymbolicContext) (k : Nat) : SymbolicContext :=
  { s with currentPacketIndex := 0, packetSequenceLength := k }

/-- `processed_packet`; the flag says that this was the last packet of the sequence. -/
def processedPacket (s : SymbolicContext) : SymbolicContext × Bool :=
  let index := s.currentPacketIndex + 1
  ({ s with currentPacketIndex := index }, decide (s.packetSequenceLength ≤ index))

/-- `early_exit`: the input of this run is kept for sequence length `k`. -/
def earlyExit (s : SymbolicContext) (k : Nat) : SymbolicContext :=
  let stores := s.partiallyExplored k ++ [s.ctx.getPrevStore]
  { s with partiallyExplored := Function.update s.partiallyExplored k stores }

theorem mem_earlyExit (s : SymbolicContext) (k : Nat) :
    s.ctx.getPrevStore ∈ (s.earlyExit k).partiallyExplored k := by
  simp [earlyExit]

theorem subset_earlyExit (s : SymbolicContext) (k n : Nat) :
    s.partiallyExplored n ⊆ (s.earlyExit k).partiallyExplored n := by
  by_cases hn : n = k
  · subst hn
    simp [earlyExit]
  · simp [earlyExit, Function.update_of_ne hn]

def clearPartial (s : SymbolicContext) : SymbolicContext :=
  { s with partiallyExplored := fun _ => [] }

/-- `random_partial`: takes out one of the inputs kept for length `k`. -/
def randomPartial (s : SymbolicContext) (k : Nat) (rng : Rand) :
    Option (ConcreteStore × SymbolicContext × Rand) :=
  let stores := s.partiallyExplored k
  let idx := (rng 0).val % stores.length
  stores[idx]?.map fun store =>
    let rest := Function.update s.partiallyExplored k (stores.eraseIdx idx)
    (store, { s with partiallyExplored := rest }, rng.rest)

/-- The ways in which `setupNewValues` returns: from the assumed constraints when a run has been
stopped for them, and from the tree otherwise. -/
inductive SetupCases (cm : ConstraintManager) (s : SymbolicContext) (rng : Rand)
    (answers : Answers) : Setup → SymbolicContext → Rand → Answers → Prop where
  | unsatisfiable (answers' : Answers) (henforcing : s.enforcingAssume = true)
      (hassume : s.trace.fromAssume cm answers = (none, answers')) :
      SetupCases cm s rng answers .unsatisfiable { s with enforcingAssume := false } rng answers'
  | fromAssume (assign : Assignment) (store : ConcreteStore) (answers' : Answers)
      (henforcing : s.enforcingAssume = true)
      (hassume : s.trace.fromAssume cm answers = (some assign, answers'))
      (hstore : getStore assign = some store) :
      SetupCases cm s rng answers .assigned
        { s with enforcingAssume := false, ctx := s.ctx.setupNewValues store } rng answers'
  | found (search : Trace.Search) (assign : Assignment) (store : ConcreteStore)
      (henforcing : s.enforcingAssume = false)
      (hsearch : s.trace.findNewPath cm s.packetSequenceLength rng answers = search)
      (hfound : search.outcome = .found assign) (hstore : getStore assign = some store) :
      SetupCases cm s rng answers .assigned
        { s with trace := search.trace, ctx := s.ctx.setupNewValues store } search.rng
        search.answers
  | exhausted (search : Trace.Search) (henforcing : s.enforcingAssume = false)
      (hsearch : s.trace.findNewPath cm s.packetSequenceLength rng answers = search)
      (hexhausted : search.outcome = .exhausted) :
      SetupCases cm s rng answers .exhausted { s with trace := search.trace } search.rng
        search.answers

theorem setupNewValues_cases
    {answers answers' : Answers} {setup : Setup}
    (h : s.setupNewValues cm rng answers = some (setup, s', rng', answers')) :
    SetupCases cm s rng answers setup s' rng' answers' := by
  unfold setupNewValues at h
  split_ifs at h with henforcing
  · dsimp only at h
    split at h
    · rename_i answers₁ hassume
      cases h
      exact .unsatisfiable _ henforcing hassume
    · rename_i assign answers₁ hassume
      simp only [Option.bind_eq_bind, Option.bind_eq_some_iff] at h
      obtain ⟨store, hstore, h⟩ := h
      cases h
      exact .fromAssume assign store _ henforcing hassume hstore
  · rw [Bool.not_eq_true] at henforcing
    dsimp only at h
    split at h
    · rename_i assign hfound
      simp only [Option.bind_eq_bind, Option.bind_eq_some_iff] at h
      obtain ⟨store, hstore, h⟩ := h
      cases h
      exact .found _ assign store henforcing rfl hfound hstore
    · rename_i hexhausted
      cases h
      exact .exhausted _ henforcing rfl hexhausted
    · cases h
    · cases h

/-- Finding new input only changes the trace, the execution context and the flag. -/
theorem setupNewValues_frame
    {answers answers' : Answers} {setup : Setup}
    (h : s.setupNewValues cm rng answers = some (setup, s', rng', answers')) :
    s'.constraints = s.constraints ∧ s'.partiallyExplored = s.partiallyExplored ∧
      s'.packetSequenceLength = s.packetSequenceLength := by
  cases setupNewValues_cases h <;> exact ⟨rfl, rfl, rfl⟩

/-- Everything that taking out a kept input does. -/
theorem randomPartial_cases {k : Nat}
    {store : ConcreteStore} (h : s.randomPartial k rng = some (store, s', rng')) :
    ∃ idx, (s.partiallyExplored k)[idx]? = some store ∧
      s' = { s with partiallyExplored :=
        Function.update s.partiallyExplored k ((s.partiallyExplored k).eraseIdx idx) } := by
  unfold randomPartial at h
  dsimp only at h
  obtain ⟨found, hfound, h⟩ := Option.map_eq_some_iff.mp h
  cases h
  exact ⟨_, hfound, rfl⟩

/-- Nothing is taken out only when nothing is kept. -/
theorem randomPartial_eq_none {k : Nat}
    (h : s.randomPartial k rng = none) : s.partiallyExplored k = [] := by
  unfold randomPartial at h
  dsimp only at h
  rw [Option.map_eq_none_iff, List.getElem?_eq_none_iff] at h
  by_contra hne
  have hpos : 0 < (s.partiallyExplored k).length := List.length_pos_iff.mpr hne
  exact absurd (Nat.mod_lt (rng 0).val hpos) (Nat.not_lt.mpr h)

end SymbolicContext

end SpsVp.Symex
