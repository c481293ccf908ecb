import SpsVp.Klee.ExprBuilder

/-!
# KLEE's constraint manager and solver

What clover uses of `klee/Expr/Constraints.h` and `klee/Solver/Solver.h`. The simplifications of the
constraint manager and the solver chain itself are not embedded: a `ConstraintManager` is any
implementation of the three functions, `ConstraintManager.Sound` says that it only rewrites
constraints into equivalent ones, and the solver is a stream of answers to the queries it is asked,
restricted by `Answers.Correct` and `Answers.Complete` where a result needs it.

`addConstraint` is `none` when the assertion "attempt to add invalid (false) constraint" fails.
-/

namespace SpsVp.Klee

/-- `klee::ConstraintSet`. -/
abbrev ConstraintSet := List (Expr 1)

/-- The boolean expression is true under the valuation. -/
def Holds (σ : Valuation) (e : Expr 1) : Prop := e.eval σ = 1#1

instance (σ : Valuation) (e : Expr 1) : Decidable (Holds σ e) :=
  inferInstanceAs (Decidable (_ = _))

/-- The valuation satisfies every constraint of the set. -/
def Sat (σ : Valuation) (cs : ConstraintSet) : Prop := ∀ c ∈ cs, Holds σ c

instance (σ : Valuation) (cs : ConstraintSet) : Decidable (Sat σ cs) :=
  inferInstanceAs (Decidable (∀ c ∈ cs, Holds σ c))

@[simp] theorem sat_nil (σ : Valuation) : Sat σ [] := by simp [Sat]

@[simp] theorem sat_cons {σ : Valuation} {c : Expr 1} {cs : ConstraintSet} :
    Sat σ (c :: cs) ↔ Holds σ c ∧ Sat σ cs := by simp [Sat]

@[simp] theorem sat_append {σ : Valuation} {cs ds : ConstraintSet} :
    Sat σ (cs ++ ds) ↔ Sat σ cs ∧ Sat σ ds := by
  simp [Sat, or_imp, forall_and]

/-- The functions of `klee::ConstraintManager` and `klee::Expr` that clover calls. -/
structure ConstraintManager where
  addConstraint : ConstraintSet → Expr 1 → Option ConstraintSet
  simplifyExpr : ConstraintSet → Expr 1 → Expr 1
  createIsZero : Expr 1 → Expr 1

namespace ConstraintManager

/-- The manager keeps the meaning of what it is given: the new set is equivalent to the old one with
the constraint, a constraint is rejected only when it contradicts the set, and an expression is
simplified to one that is equal wherever the constraints hold. -/
structure Sound (cm : ConstraintManager) : Prop where
  addConstraint_some : ∀ {cs cs' : ConstraintSet} {e : Expr 1},
    cm.addConstraint cs e = some cs' → ∀ σ, Sat σ cs' ↔ Sat σ cs ∧ Holds σ e
  addConstraint_none : ∀ {cs : ConstraintSet} {e : Expr 1},
    cm.addConstraint cs e = none → ∀ σ, Sat σ cs → ¬ Holds σ e
  simplifyExpr_eval : ∀ {cs : ConstraintSet} {e : Expr 1} {σ : Valuation},
    Sat σ cs → (cm.simplifyExpr cs e).eval σ = e.eval σ
  createIsZero_eval : ∀ (e : Expr 1) (σ : Valuation),
    (cm.createIsZero e).eval σ = BitVec.ofBool (e.eval σ == 0#1)

/-- Add the constraints of a list one after the other. -/
def addAll (cm : ConstraintManager) (cs : ConstraintSet) (es : List (Expr 1)) :
    Option ConstraintSet :=
  es.foldlM cm.addConstraint cs

variable {cm : ConstraintManager} {cs : ConstraintSet}

theorem addAll_some (hcm : cm.Sound) {cs' : ConstraintSet}
    {es : List (Expr 1)} (h : cm.addAll cs es = some cs') (σ : Valuation) :
    Sat σ cs' ↔ Sat σ cs ∧ Sat σ es := by
  induction es generalizing cs with
  | nil =>
    cases h
    simp
  | cons e es ih =>
    simp only [addAll, List.foldlM_cons, Option.bind_eq_bind, Option.bind_eq_some_iff] at h
    obtain ⟨mid, hmid, h⟩ := h
    rw [ih h, hcm.addConstraint_some hmid, sat_cons, and_assoc]

theorem addAll_none (hcm : cm.Sound)
    {es : List (Expr 1)} (h : cm.addAll cs es = none) (σ : Valuation) (hcs : Sat σ cs) :
    ¬ Sat σ es := by
  induction es generalizing cs with
  | nil => cases h
  | cons e es ih =>
    rw [sat_cons]
    rintro ⟨he, hes⟩
    simp only [addAll, List.foldlM_cons, Option.bind_eq_bind] at h
    cases hmid : cm.addConstraint cs e with
    | none => exact hcm.addConstraint_none hmid σ hcs he
    | some mid =>
      rw [hmid, Option.bind_some] at h
      exact ih h ((hcm.addConstraint_some hmid σ).mpr ⟨hcs, he⟩) hes

/-- The conjuncts into which `addConstraintInternal` splits a constraint. -/
def conjuncts : {w : Nat} → Expr w → List (Expr w)
  | _, .Binary .And left right => conjuncts left ++ conjuncts right
  | _, e => [e]

/-- A conjunct is added as it is, and a constant one must be true. -/
def addConjunct (cs : ConstraintSet) : Expr 1 → Option ConstraintSet
  | .Constant c => if c = 1#1 then some cs else none
  | e => some (cs ++ [e])

/-- A manager that splits conjunctions but simplifies nothing. -/
def plain : ConstraintManager where
  addConstraint := fun cs e => (conjuncts e).foldlM addConjunct cs
  simplifyExpr := fun _ e => e
  createIsZero := fun e => ExprBuilder.eq e (.Constant 0#1)

/-- A boolean expression holds exactly when its conjuncts do. -/
theorem sat_conjuncts {w : Nat} (hw : w = 1) (e : Expr w) (σ : Valuation) :
    (∀ c ∈ conjuncts e, c.eval σ = BitVec.allOnes w) ↔ e.eval σ = BitVec.allOnes w := by
  induction e with
  | Binary kind left right ihl ihr =>
    cases kind with
    | And =>
      subst hw
      simp only [conjuncts, List.mem_append, or_imp, forall_and, ihl, ihr, Expr.eval,
        BinaryKind.apply]
      generalize left.eval σ = x
      generalize right.eval σ = y
      decide +revert
    | _ => simp [conjuncts]
  | _ => simp [conjuncts]

theorem addConjunct_some {cs' : ConstraintSet} {e : Expr 1} (h : addConjunct cs e = some cs')
    (σ : Valuation) : Sat σ cs' ↔ Sat σ cs ∧ Holds σ e := by
  unfold addConjunct at h
  split at h
  · split_ifs at h with hc
    cases h
    simp [Holds, Expr.eval, hc]
  · cases h
    simp

theorem addConjunct_none {e : Expr 1} (h : addConjunct cs e = none)
    (σ : Valuation) : ¬ Holds σ e := by
  unfold addConjunct at h
  split at h
  · split_ifs at h with hc
    simpa [Holds, Expr.eval] using hc
  · cases h

/-- Adding conjuncts one by one. -/
theorem foldlM_addConjunct (es : List (Expr 1)) (cs : ConstraintSet) (σ : Valuation) :
    match es.foldlM addConjunct cs with
    | some cs' => Sat σ cs' ↔ Sat σ cs ∧ Sat σ es
    | none => ¬ Sat σ es := by
  induction es generalizing cs with
  | nil => simp
  | cons e es ih =>
    simp only [List.foldlM_cons, Option.bind_eq_bind, sat_cons]
    cases h : addConjunct cs e with
    | none => simp [addConjunct_none h σ]
    | some mid =>
      have hrest := ih mid
      rw [Option.bind_some]
      split at hrest
      · rw [hrest, addConjunct_some h, and_assoc]
      · exact fun hall => hrest hall.2

theorem plain_sound : plain.Sound where
  addConstraint_some {cs cs' e} h σ := by
    have hall := foldlM_addConjunct (conjuncts e) cs σ
    rw [show (conjuncts e).foldlM addConjunct cs = some cs' from h] at hall
    exact hall.trans (and_congr_right fun _ => sat_conjuncts rfl e σ)
  addConstraint_none {cs e} h σ _ he := by
    have hall := foldlM_addConjunct (conjuncts e) cs σ
    rw [show (conjuncts e).foldlM addConjunct cs = none from h] at hall
    exact hall ((sat_conjuncts rfl e σ).mpr he)
  simplifyExpr_eval _ := rfl
  createIsZero_eval e σ := by
    simp [plain, ExprBuilder.eval_eq, CmpKind.apply, CmpKind.test, Expr.eval]

end ConstraintManager

/-! ## Queries and answers -/

/-- `klee::Query`. -/
structure Query where
  constraints : ConstraintSet
  expr : Expr 1

/-- `Query::negateExpr`. -/
def Query.negateExpr (cm : ConstraintManager) (q : Query) : Query :=
  { q with expr := cm.createIsZero q.expr }

/-- `Query::withFalse`. -/
def Query.withFalse (q : Query) : Query := { q with expr := .Constant 0#1 }

/-- The arrays of a query, as `findSymbolicObjects` collects them. -/
def Query.objects (q : Query) : List SymbolicArray :=
  q.expr.arrays ++ q.constraints.flatMap Expr.arrays

/-- What `getInitialValues` looks for: the constraints hold and the expression is false. -/
def Query.Counterexample (q : Query) (σ : Valuation) : Prop :=
  Sat σ q.constraints ∧ ¬ Holds σ q.expr

instance (q : Query) (σ : Valuation) : Decidable (q.Counterexample σ) :=
  inferInstanceAs (Decidable (_ ∧ _))

/-- `klee::Assignment`: the bytes of the arrays of a query. -/
structure Assignment where
  objects : List SymbolicArray
  values : Valuation

/-- The valuation gives the assigned arrays their bytes. -/
def Assignment.Binds (a : Assignment) (σ : Valuation) : Prop :=
  ∀ array ∈ a.objects, σ array = a.values array

/-- The answers of `getInitialValues` to the queries still to come, `none` for unsat. -/
abbrev Answers := Nat → Query → Option Valuation

namespace Answers

/-- The answers after the first one. -/
def rest (answers : Answers) : Answers := fun i => answers (i + 1)

/-- Every assignment that is returned answers its query. -/
def Correct (answers : Answers) : Prop :=
  ∀ i q σ, answers i q = some σ → q.Counterexample σ

/-- No query with an answer is answered unsat. -/
def Complete (answers : Answers) : Prop :=
  ∀ i q, answers i q = none → ∀ σ, ¬ q.Counterexample σ

open Classical in
/-- A solver that finds an answer to every query that has one. -/
noncomputable def perfect : Answers := fun _ q =>
  if h : ∃ τ, q.Counterexample τ then some h.choose else none

/-- A perfect solver that answers with a given valuation whenever it can. -/
noncomputable def preferring (σ : Valuation) : Answers := fun i q =>
  if q.Counterexample σ then some σ else perfect i q

theorem preferring_correct (σ : Valuation) : (preferring σ).Correct := by
  intro i q τ h
  simp only [preferring, perfect] at h
  split_ifs at h with hσ hτ
  · cases h
    exact hσ
  · cases h
    exact hτ.choose_spec

theorem preferring_complete (σ : Valuation) : (preferring σ).Complete := by
  intro i q h τ hτ
  simp only [preferring, perfect] at h
  split_ifs at h with hσ hnone
  exact hnone ⟨τ, hτ⟩

theorem Correct.rest {answers : Answers} (h : answers.Correct) : answers.rest.Correct :=
  fun i => h (i + 1)

theorem Complete.rest {answers : Answers} (h : answers.Complete) : answers.rest.Complete :=
  fun i => h (i + 1)

end Answers

/-- A query only constrains its own arrays. -/
theorem Query.counterexample_congr {q : Query} {σ τ : Valuation}
    (h : ∀ array ∈ q.objects, σ array = τ array) : q.Counterexample σ ↔ q.Counterexample τ := by
  have hexpr : q.expr.eval σ = q.expr.eval τ :=
    q.expr.eval_congr fun a ha => h a (List.mem_append_left _ ha)
  have hcs : ∀ c ∈ q.constraints, c.eval σ = c.eval τ := fun c hc =>
    c.eval_congr fun a ha => h a (List.mem_append_right _ (List.mem_flatMap.mpr ⟨c, hc, ha⟩))
  simp only [Query.Counterexample, Sat, Holds, hexpr]
  refine and_congr_left fun _ => forall₂_congr fun c hc => ?_
  rw [hcs c hc]

end SpsVp.Klee
