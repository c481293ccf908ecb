import SpsVp.Clover.Context
import SpsVp.Klee.Solver
import SpsVp.Lib.DirTree

/-!
# The execution tree

`clover::Trace` of `symex/clover/trace.cpp` and `symex/clover/node.cpp`. Each node of the tree holds
a branch condition, and a run adds the conditions it meets below the directions it has taken.
`findNewPath` walks the tree at random to a node with an undiscovered direction, marks the node and
asks the solver for input that takes this direction, until an answer is sat or no node is left.

A node is never moved or deleted, so a pointer to it is the direction sequence that leads to it. The
shared pointer to a `Branch` that a `Path` holds is the pointer to the node together with the branch
as it was read; marking goes through the pointer. The constraint manager and the answers of the
solver are parameters, as in `SpsVp.Klee.Solver`.
-/

namespace SpsVp.Clover

open Klee Lib

/-- `BitVector::eqTrue`, allocated without any rewriting. -/
def eqTrue (bv : Expr 1) : Expr 1 := .comparison .Eq bv (.Constant 1#1)

/-- `BitVector::eqFalse`. -/
def eqFalse (bv : Expr 1) : Expr 1 := .comparison .Eq bv (.Constant 0#1)

/-- The constraint that a condition has a given truth value. -/
def eqDirection (cond : Bool) (bv : Expr 1) : Expr 1 := if cond then eqTrue bv else eqFalse bv

/-- `Trace::Branch`. -/
structure Branch where
  bv : Expr 1
  wasNegated : Bool
  addr : BitVec 32
  pktSeqLen : Nat
deriving DecidableEq

/-- `Trace::Node`; a placeholder is a node without a branch. -/
abbrev Node := DirTree Branch

/-- `Trace::PathElement`: a branch with the pointer to its node, and the direction taken there. -/
structure PathElement where
  node : List Bool
  branch : Branch
  second : Bool
deriving DecidableEq

/-- `Trace::Path`. -/
abbrev Path := List PathElement

/-- `path[idx].second = value`. -/
def Path.setSecond (path : Path) (idx : Nat) (value : Bool) : Path :=
  path.modify idx fun element => { element with second := value }

/-- The body of `Node::randomUnnegated` on the labelled node `this` at address `pos`, where `visit`
searches a child. The two arms of the source that follow `rand() % 2` are one, with the direction
that is tried first as a variable. -/
def Node.walk (k : Nat) (this : Node) (value : Branch)
    (visit : Bool → Path → Rand → Bool × Path × Rand) (pos : List Bool) (path : Path) (rng : Rand) :
    Bool × Path × Rand :=
  let path := path ++ [⟨pos, value, false⟩]
  let idx := path.length - 1
  let first : Bool := (rng 0).val % 2 == 0
  match visit first path rng.rest with
  | (true, path, rng) => (true, Path.setSecond path idx first, rng)
  | (false, path, rng) =>
    match visit (!first) path rng with
    | (true, path, rng) => (true, Path.setSecond path idx (!first), rng)
    | (false, path, rng) =>
      if value.pktSeqLen ≥ k ∧ value.wasNegated = false ∧
          ((this.child true).isNull ∨ (this.child false).isNull) then
        (true, Path.setSecond path idx (!(this.child true).isNull), rng)
      else (false, path.dropLast, rng)

/-- `Node::randomUnnegated` on the node at address `pos`; a null pointer is not searched. -/
def Node.randomUnnegated (k : Nat) : Node → List Bool → Path → Rand → Bool × Path × Rand
  | .null, _, path, rng => (false, path, rng)
  | .node none _ _, _, path, rng => (false, path, rng)
  | .node (some value) trueBranch falseBranch, pos, path, rng =>
    let visit : Bool → Path → Rand → Bool × Path × Rand := fun b path rng =>
      match b with
      | true => randomUnnegated k trueBranch (pos ++ [true]) path rng
      | false => randomUnnegated k falseBranch (pos ++ [false]) path rng
    Node.walk k (.node (some value) trueBranch falseBranch) value visit pos path rng

/-- The state of a `Trace`. -/
structure Trace where
  cs : ConstraintSet
  assumeCs : ConstraintSet
  pathCondsRoot : Node
  pathCondsCurrent : Option (List Bool)

namespace Trace

/-- A trace as it is constructed: the root is a placeholder. -/
def init : Trace := ⟨[], [], .node none .null .null, none⟩

/-- The node that the next branch goes to. -/
def position (t : Trace) : List Bool := t.pathCondsCurrent.getD []

def reset (t : Trace) : Trace := { t with cs := [], pathCondsCurrent := none }

/-- `Trace::addBranch`. -/
def addBranch (t : Trace) (branch : Branch) (condition : Bool) : Trace :=
  { t with
    pathCondsRoot := t.pathCondsRoot.grow branch condition t.position
    pathCondsCurrent := some (t.position ++ [condition]) }

/-- `Trace::add`. -/
def add (cm : ConstraintManager) (t : Trace) (condition : Bool) (bv : Expr 1) (pc : BitVec 32)
    (pktSeqLen : Nat) : Option Trace := do
  let cs ← cm.addConstraint t.cs (eqDirection condition bv)
  some ({ t with cs := cs }.addBranch ⟨bv, false, pc, pktSeqLen⟩ condition)

/-- `Trace::assume`. -/
def assume (cm : ConstraintManager) (t : Trace) (constraint : Expr 1) : Option Trace := do
  let cs ← cm.addConstraint t.assumeCs constraint
  some { t with assumeCs := cs }

/-- The mark that `newQuery` leaves at the last node of its path. -/
def setNegated (branch : Branch) : Branch := { branch with wasNegated := true }

/-- `Trace::newQuery`: the constraints of the path without its last element, and the negation of the
last one. -/
def newQuery (cm : ConstraintManager) (t : Trace) (path : Path) : Option (Query × Trace) := do
  let cs ← cm.addAll [] t.assumeCs
  let cs ← cm.addAll cs (path.dropLast.map fun element =>
    eqDirection element.second element.branch.bv)
  let last ← path.getLast?
  let expr := cm.simplifyExpr cs (eqDirection last.second last.branch.bv)
  some (Query.negateExpr cm ⟨cs, expr⟩,
    { t with pathCondsRoot := t.pathCondsRoot.relabel setNegated last.node })

end Trace

/-- `Solver::getAssignment`. The solver is not asked when the negated expression is constantly
true. -/
def getAssignment (cm : ConstraintManager) (query : Query) (answers : Answers) :
    Option Assignment × Answers :=
  let nq := query.negateExpr cm
  if nq.expr = .Constant 1#1 then (none, answers)
  else ((answers 0 nq).map fun values => ⟨nq.objects, values⟩, answers.rest)

namespace Trace

/-- `Trace::fromAssume`. -/
def fromAssume (cm : ConstraintManager) (t : Trace) (answers : Answers) :
    Option Assignment × Answers :=
  getAssignment cm (Query.negateExpr cm (Query.withFalse ⟨t.assumeCs, .Constant 0#1⟩)) answers

/-- How a call of `findNewPath` ends. `aborted` is a failed assertion of the constraint manager, and
`outOfFuel` does not happen, see `Searches.outcome_ne`. -/
inductive Outcome where
  | found (assign : Assignment)
  | exhausted
  | aborted
  | outOfFuel

/-- The end of a call of `findNewPath`, with the nodes whose conditions it has negated. -/
structure Search where
  outcome : Outcome
  trace : Trace
  rng : Rand
  answers : Answers
  negated : List (List Bool)

/-- The loop of `findNewPath`. -/
def findLoop (cm : ConstraintManager) (k : Nat) : Nat → Trace → Rand → Answers → Search
  | 0, t, rng, answers => ⟨.outOfFuel, t, rng, answers, []⟩
  | fuel + 1, t, rng, answers =>
    match t.pathCondsRoot.randomUnnegated k [] [] rng with
    | (false, _, rng) => ⟨.exhausted, t, rng, answers, []⟩
    | (true, path, rng) =>
      match t.newQuery cm path with
      | none => ⟨.aborted, t, rng, answers, []⟩
      | some (query, t) =>
        let node := (path.getLast?.map PathElement.node).toList
        match getAssignment cm query answers with
        | (some assign, answers) => ⟨.found assign, t, rng, answers, node⟩
        | (none, answers) =>
          let search := findLoop cm k fuel t rng answers
          { search with negated := node ++ search.negated }

/-- `Trace::findNewPath`. Every turn of the loop marks a node, so their number bounds it. -/
def findNewPath (cm : ConstraintManager) (k : Nat) (t : Trace) (rng : Rand) (answers : Answers) :
    Search :=
  findLoop cm k (t.pathCondsRoot.size + 1) t rng answers

end Trace

end SpsVp.Clover
