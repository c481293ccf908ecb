import SpsVp.Clover.Trace

/-!
# The search for an undiscovered direction

What `Node::randomUnnegated` and the loop of `Trace::findNewPath` do for every outcome of `rand()`
and every sequence of answers. `randomUnnegated_spec` says once what the random walk returns: on
success the path to a candidate, on failure nothing, and then a well-formed tree has no candidate.
`findLoop_searches` says what the loop does turn by turn, and the properties of whole searches are
proved by induction on that.
-/

namespace SpsVp.Clover

open Klee Lib DirTree

/-! ## The random walk -/

/-- A node whose negation is still to be tried at sequence length `k`: its branch was met at this
length or later, it is unmarked, and it lacks a child. -/
structure Candidate (k : Nat) (n : Node) (d : List Bool) (value : Branch) : Prop where
  labelled : n.valueAt d = some (some value)
  pktSeqLen : k ≤ value.pktSeqLen
  unmarked : value.wasNegated = false
  openDirection : ∃ b, n.valueAt (d ++ [b]) = none

/-- The path that leads to the node at `d`: the directions of `d`, and at the last node the
direction of its true child if it has one. -/
def pathTo : Node → List Bool → List Bool → Path
  | .node (some value) trueBranch _, pos, [] => [⟨pos, value, !trueBranch.isNull⟩]
  | .node (some value) trueBranch falseBranch, pos, b :: d =>
    ⟨pos, value, b⟩ :: pathTo (if b then trueBranch else falseBranch) (pos ++ [b]) d
  | _, _, _ => []

/-- Patching the last element that was there does not touch what was pushed after it. -/
theorem setSecond_push (path : Path) (element : PathElement) (tail : Path) (b : Bool) :
    Path.setSecond (path ++ [element] ++ tail) ((path ++ [element]).length - 1) b =
      path ++ { element with second := b } :: tail := by
  have hidx : (path ++ [element]).length - 1 = path.length := by simp
  rw [hidx, List.append_assoc, Path.setSecond]
  induction path with
  | nil => simp
  | cons first path ih => simpa using ih (by simp)

theorem setSecond_push_last (path : Path) (element : PathElement) (b : Bool) :
    Path.setSecond (path ++ [element]) ((path ++ [element]).length - 1) b =
      path ++ [{ element with second := b }] := by
  simpa using setSecond_push path element [] b

theorem pathTo_cons (value : Branch) (trueBranch falseBranch : Node) (pos d : List Bool)
    (b : Bool) :
    pathTo (.node (some value) trueBranch falseBranch) pos (b :: d) =
      ⟨pos, value, b⟩ ::
        pathTo (child (.node (some value) trueBranch falseBranch) b) (pos ++ [b]) d := by
  cases b <;> rfl

/-- What a call of `randomUnnegated` has to deliver. -/
def WalkSpec (k : Nat) (n : Node) (pos : List Bool) (path : Path) :
    Bool × Path × Rand → Prop
  | (true, path', _) => ∃ d value, Candidate k n d value ∧ path' = path ++ pathTo n pos d
  | (false, path', _) => path' = path ∧ (n.WellFormed → ∀ d value, ¬ Candidate k n d value)

variable {k : Nat} {n : Node} {b : Bool} {d : List Bool} {value : Branch}

/-- A candidate in a child is one in the tree. -/
theorem Candidate.of_child
    (h : Candidate k (n.child b) d value) : Candidate k n (b :: d) value :=
  ⟨h.labelled, h.pktSeqLen, h.unmarked, h.openDirection⟩

theorem Candidate.child
    (h : Candidate k n (b :: d) value) : Candidate k (n.child b) d value :=
  ⟨h.labelled, h.pktSeqLen, h.unmarked, h.openDirection⟩

/-- The check that `randomUnnegated` makes at the node itself. -/
theorem candidate_root_iff {found : Branch}
    (hn : n.value? = some (some value)) :
    Candidate k n [] found ↔
      found = value ∧ value.pktSeqLen ≥ k ∧ value.wasNegated = false ∧
        ((n.child true).isNull ∨ (n.child false).isNull) := by
  have hopen : (∃ b, n.valueAt ([] ++ [b]) = none) ↔
      ((n.child true).isNull ∨ (n.child false).isNull) := by
    simp [valueAt, or_comm]
  constructor
  · intro h
    have hfound : value = found := by
      have := h.labelled
      rw [valueAt, sub_nil, hn] at this
      simpa using this
    subst hfound
    exact ⟨rfl, h.pktSeqLen, h.unmarked, hopen.mp h.openDirection⟩
  · rintro ⟨rfl, hlen, hunmarked, hchild⟩
    exact ⟨hn, hlen, hunmarked, hopen.mpr hchild⟩

/-- The body of the walk delivers when the searches of the two children do. -/
theorem walk_spec {trueBranch falseBranch : Node}
    {visit : Bool → Path → Rand → Bool × Path × Rand} {pos : List Bool}
    (hvisit : ∀ b path rng, WalkSpec k
      (child (.node (some value) trueBranch falseBranch) b) (pos ++ [b]) path
      (visit b path rng)) (path : Path) (rng : Rand) :
    WalkSpec k (.node (some value) trueBranch falseBranch) pos path
      (Node.walk k (.node (some value) trueBranch falseBranch) value visit pos path rng) := by
  unfold Node.walk
  dsimp only
  generalize ((rng 0).val % 2 == 0) = first
  have hfirst := hvisit first (path ++ [⟨pos, value, false⟩]) rng.rest
  split
  · rename_i path₁ rng₁ heq
    rw [heq] at hfirst
    obtain ⟨d, found, hcand, rfl⟩ := hfirst
    exact ⟨first :: d, found, hcand.of_child, by rw [setSecond_push, pathTo_cons]⟩
  · rename_i path₁ rng₁ heq
    rw [heq] at hfirst
    obtain ⟨rfl, hnone⟩ := hfirst
    have hsecond := hvisit (!first) (path ++ [⟨pos, value, false⟩]) rng₁
    split
    · rename_i path₂ rng₂ heq₂
      rw [heq₂] at hsecond
      obtain ⟨d, found, hcand, rfl⟩ := hsecond
      exact ⟨(!first) :: d, found, hcand.of_child, by rw [setSecond_push, pathTo_cons]⟩
    · rename_i path₂ rng₂ heq₂
      rw [heq₂] at hsecond
      obtain ⟨rfl, hnone₂⟩ := hsecond
      split_ifs with hown
      · refine ⟨[], value, (candidate_root_iff rfl).mpr ⟨rfl, hown⟩, ?_⟩
        rw [setSecond_push_last]
        rfl
      · refine ⟨List.dropLast_concat, fun hwf d found hcand => ?_⟩
        cases d with
        | nil => exact hown ((candidate_root_iff rfl).mp hcand).2
        | cons b d =>
          rcases Bool.eq_or_eq_not b first with rfl | rfl
          · exact hnone (hwf.child _) d found hcand.child
          · exact hnone₂ (hwf.child _) d found hcand.child

/-- The random walk delivers, whatever `rand()` returns. -/
theorem randomUnnegated_spec (k : Nat) (n : Node) (pos : List Bool) (path : Path) (rng : Rand) :
    WalkSpec k n pos path (n.randomUnnegated k pos path rng) := by
  induction n generalizing pos path rng with
  | null =>
    refine ⟨rfl, fun _ d value h => ?_⟩
    simpa [valueAt, value?] using h.labelled
  | node value trueBranch falseBranch iht ihf =>
    cases value with
    | none =>
      refine ⟨rfl, fun hwf d value h => ?_⟩
      -- below a placeholder there is nothing
      cases d with
      | nil => simpa [valueAt, value?] using h.labelled
      | cons b d =>
        have hb := hwf.placeholder [] b rfl
        have hlabel := h.labelled
        simp only [valueAt, List.nil_append, sub_cons, sub_nil,
          value?_eq_none] at hb hlabel
        simp [hb, value?] at hlabel
    | some value =>
      rw [Node.randomUnnegated]
      refine walk_spec (fun b path rng => ?_) path rng
      cases b with
      | true => exact iht _ _ _
      | false => exact ihf _ _ _

/-! ## The path to a candidate -/

@[simp] theorem holds_eqDirection (σ : Valuation) (cond : Bool) (bv : Expr 1) :
    Holds σ (eqDirection cond bv) ↔ bv.eval σ = BitVec.ofBool cond := by
  cases cond <;>
    simp only [eqDirection, eqTrue, eqFalse, Holds, Expr.eval, CmpKind.apply, CmpKind.test,
      BitVec.cast_eq, if_true, Bool.false_eq_true, if_false] <;>
    generalize bv.eval σ = x <;> decide +revert

/-- Under `σ` every condition above the node at `d` has the direction that leads to the node. -/
def Follows (σ : Valuation) (n : Node) (d : List Bool) : Prop :=
  ∀ p b value, p ++ [b] <+: d → n.valueAt p = some (some value) →
    value.bv.eval σ = BitVec.ofBool b

theorem follows_nil (σ : Valuation) (n : Node) : Follows σ n [] := by
  intro p b value h
  simp at h

variable {σ : Valuation}

theorem follows_cons (hn : n.value? = some (some value))
    (b : Bool) (d : List Bool) :
    Follows σ n (b :: d) ↔ value.bv.eval σ = BitVec.ofBool b ∧ Follows σ (n.child b) d := by
  constructor
  · intro h
    refine ⟨h [] b value (by simp) hn, fun p c v hp hv => h (b :: p) c v ?_ hv⟩
    simpa using hp
  · rintro ⟨hroot, hchild⟩ p c v hp hv
    cases p with
    | nil =>
      obtain rfl : c = b := by simpa using hp
      have hvalue : v = value := by
        rw [valueAt, sub_nil, hn] at hv
        simpa using hv.symm
      exact hvalue ▸ hroot
    | cons a p =>
      obtain ⟨rfl, hbelow⟩ : a = b ∧ p ++ [c] <+: d := by simpa using hp
      exact hchild p c v hbelow hv

/-- Only labelled nodes have anything below them. -/
theorem value?_of_below (hwf : n.WellFormed)
    {v : Option Branch} (h : n.valueAt (b :: d) = some v) :
    ∃ value trueBranch falseBranch, n = .node (some value) trueBranch falseBranch := by
  cases n with
  | null => simp [valueAt, child, value?] at h
  | node value trueBranch falseBranch =>
    cases value with
    | some value => exact ⟨value, trueBranch, falseBranch, rfl⟩
    | none =>
      have hb := hwf.placeholder [] b rfl
      simp only [valueAt, List.nil_append, sub_cons, sub_nil,
        value?_eq_none] at hb h
      simp [hb, value?] at h

/-- The last element of the path points to the node, with the direction of its child. -/
theorem pathTo_getLast? (hwf : n.WellFormed)
    (h : n.valueAt d = some (some value)) (pos : List Bool) :
    (pathTo n pos d).getLast? =
      some ⟨pos ++ d, value, !(n.sub (d ++ [true])).isNull⟩ := by
  induction d generalizing n pos with
  | nil =>
    cases n with
    | null => simp [valueAt, value?] at h
    | node v trueBranch falseBranch =>
      have hv : v = some value := by simpa [valueAt, value?] using h
      subst hv
      simp [pathTo, child]
  | cons b d ih =>
    obtain ⟨v, trueBranch, falseBranch, rfl⟩ := value?_of_below hwf h
    have hlast := ih (hwf.child b) h (pos ++ [b])
    rw [pathTo_cons, List.getLast?_cons, hlast]
    simp

/-- The other elements of the path stand for the conditions above the node. -/
theorem sat_pathTo (hwf : n.WellFormed)
    (h : n.valueAt d = some (some value)) (pos : List Bool) (σ : Valuation) :
    Sat σ ((pathTo n pos d).dropLast.map fun element =>
      eqDirection element.second element.branch.bv) ↔ Follows σ n d := by
  induction d generalizing n pos with
  | nil =>
    cases n with
    | null => simp [valueAt, value?] at h
    | node v trueBranch falseBranch =>
      have hv : v = some value := by simpa [valueAt, value?] using h
      subst hv
      simp [pathTo, follows_nil]
  | cons b d ih =>
    obtain ⟨v, trueBranch, falseBranch, rfl⟩ := value?_of_below hwf h
    have hne : pathTo (child (.node (some v) trueBranch falseBranch) b) (pos ++ [b]) d
        ≠ [] := by
      intro hnil
      have hlast := pathTo_getLast? (hwf.child b) h (pos ++ [b])
      simp [hnil] at hlast
    rw [pathTo_cons, List.dropLast_cons_of_ne_nil hne, List.map_cons, sat_cons,
      holds_eqDirection, ih (hwf.child b) h, follows_cons rfl]

/-! ## Queries and their answers -/

section Queries

variable {cm : ConstraintManager} {answers answers' : Answers}

theorem holds_createIsZero (hcm : cm.Sound) (e : Expr 1) (σ : Valuation) :
    Holds σ (cm.createIsZero e) ↔ ¬ Holds σ e := by
  rw [Holds, Holds, hcm.createIsZero_eval]
  generalize e.eval σ = x
  decide +revert

variable {query : Query}

/-- What the two negations of a query come to: an assignment that is returned satisfies the
constraints and the expression of the query. -/
theorem getAssignment_sound (hcm : cm.Sound) (hcorrect : answers.Correct)
    {a : Assignment} (h : getAssignment cm query answers = (some a, answers'))
    (hσ : a.Binds σ) : Sat σ query.constraints ∧ Holds σ query.expr := by
  unfold getAssignment at h
  dsimp only at h
  split_ifs at h
  · simp at h
  · obtain ⟨values, hvalues, rfl⟩ := Option.map_eq_some_iff.mp (Prod.mk.inj h).1
    have hcex := (Query.counterexample_congr hσ).mpr (hcorrect 0 _ _ hvalues)
    exact ⟨hcex.1, by simpa [Query.negateExpr, holds_createIsZero hcm] using hcex.2⟩

/-- An unsat answer means that no valuation satisfies the constraints and the expression. -/
theorem getAssignment_complete (hcm : cm.Sound) (hcomplete : answers.Complete)
    (h : getAssignment cm query answers = (none, answers')) (σ : Valuation)
    (hsat : Sat σ query.constraints) : ¬ Holds σ query.expr := by
  unfold getAssignment at h
  dsimp only at h
  rw [← holds_createIsZero hcm]
  split_ifs at h with hconst
  · have hexpr : cm.createIsZero query.expr = .Constant 1#1 := hconst
    rw [hexpr]
    rfl
  · have hnone : answers 0 (query.negateExpr cm) = none :=
      Option.map_eq_none_iff.mp (Prod.mk.inj h).1
    have hcex := hcomplete 0 _ hnone σ
    simpa [Query.Counterexample, Query.negateExpr, hsat] using hcex

/-- A call of the solver consumes at most one answer. -/
theorem getAssignment_answers {Q : Answers → Prop} (hrest : ∀ a, Q a → Q a.rest) (hQ : Q answers)
    {a : Option Assignment} (h : getAssignment cm query answers = (a, answers')) : Q answers' := by
  unfold getAssignment at h
  dsimp only at h
  split_ifs at h
  · exact (Prod.mk.inj h).2 ▸ hQ
  · exact (Prod.mk.inj h).2 ▸ hrest answers hQ

end Queries

/-! ## The loop -/

namespace Trace

variable {cm : ConstraintManager} {k : Nat}

/-- The trace with the node at `d` marked. -/
def mark (t : Trace) (d : List Bool) : Trace :=
  { t with pathCondsRoot := t.pathCondsRoot.relabel setNegated d }

variable {t : Trace} {s : Search} {d e : List Bool} {value : Branch} {n : Node} {fuel : Nat}
  {rng : Rand}
  {answers : Answers}

/-- The query of `newQuery` for the node at `d`: its constraints are the assumed ones together with
the conditions above the node, and its expression is the direction of the node that has no child. -/
theorem newQuery_some (hcm : cm.Sound) {t' : Trace} (hwf : t.pathCondsRoot.WellFormed)
    (hd : t.pathCondsRoot.valueAt d = some (some value))
    {query : Query} (h : t.newQuery cm (pathTo t.pathCondsRoot [] d) = some (query, t'))
    (σ : Valuation) :
    (Sat σ query.constraints ↔ Sat σ t.assumeCs ∧ Follows σ t.pathCondsRoot d) ∧
      (Sat σ query.constraints → (Holds σ query.expr ↔
        value.bv.eval σ = BitVec.ofBool (t.pathCondsRoot.sub (d ++ [true])).isNull)) := by
  simp only [newQuery, pathTo_getLast? hwf hd, Option.bind_eq_bind, Option.bind_eq_some_iff,
    Option.some.injEq, Prod.mk.injEq, List.nil_append] at h
  obtain ⟨cs₁, hassume, cs₂, hpath, last, rfl, rfl, -⟩ := h
  constructor
  · rw [Query.negateExpr, ConstraintManager.addAll_some hcm hpath,
      ConstraintManager.addAll_some hcm hassume, sat_pathTo hwf hd]
    simp
  · intro hsat
    simp only [Query.negateExpr] at hsat ⊢
    rw [holds_createIsZero hcm, Holds, hcm.simplifyExpr_eval hsat, ← Holds, holds_eqDirection]
    generalize value.bv.eval σ = x
    generalize (t.pathCondsRoot.sub (d ++ [true])).isNull = b
    decide +revert

/-- `newQuery` is aborted only when the conditions above the node contradict the assumptions. -/
theorem newQuery_none (hcm : cm.Sound) (hwf : t.pathCondsRoot.WellFormed)
    (hd : t.pathCondsRoot.valueAt d = some (some value))
    (h : t.newQuery cm (pathTo t.pathCondsRoot [] d) = none) (σ : Valuation)
    (hassumed : Sat σ t.assumeCs) : ¬ Follows σ t.pathCondsRoot d := by
  intro hfollows
  simp only [newQuery, pathTo_getLast? hwf hd, Option.bind_eq_bind] at h
  cases hassume : cm.addAll [] t.assumeCs with
  | none => exact ConstraintManager.addAll_none hcm hassume σ (sat_nil σ) hassumed
  | some cs =>
    rw [hassume, Option.bind_some] at h
    have hcs : Sat σ cs := (ConstraintManager.addAll_some hcm hassume σ).mpr ⟨sat_nil σ, hassumed⟩
    cases hpath : cm.addAll cs ((pathTo t.pathCondsRoot [] d).dropLast.map fun element =>
        eqDirection element.second element.branch.bv) with
    | none =>
      exact ConstraintManager.addAll_none hcm hpath σ hcs ((sat_pathTo hwf hd [] σ).mpr hfollows)
    | some cs' =>
      rw [hpath] at h
      cases h

/-- `newQuery` marks the node at the end of its path. -/
theorem newQuery_trace {t' : Trace} (hwf : t.pathCondsRoot.WellFormed)
    (hd : t.pathCondsRoot.valueAt d = some (some value)) {query : Query}
    (h : t.newQuery cm (pathTo t.pathCondsRoot [] d) = some (query, t')) : t' = t.mark d := by
  simp only [newQuery, pathTo_getLast? hwf hd, Option.bind_eq_bind, Option.bind_eq_some_iff,
    Option.some.injEq, Prod.mk.injEq, List.nil_append] at h
  obtain ⟨cs₁, -, cs₂, -, last, rfl, -, rfl⟩ := h
  rfl

/-- Everything that the loop can do from a well-formed tree, turn by turn. -/
inductive Searches (cm : ConstraintManager) (k : Nat) : Nat → Trace → Answers → Search → Prop where
  | outOfFuel (t : Trace) (rng : Rand) (answers : Answers) :
      Searches cm k 0 t answers ⟨.outOfFuel, t, rng, answers, []⟩
  | exhausted {fuel : Nat} {t : Trace} {answers : Answers} (rng : Rand)
      (hnone : ∀ d value, ¬ Candidate k t.pathCondsRoot d value) :
      Searches cm k (fuel + 1) t answers ⟨.exhausted, t, rng, answers, []⟩
  | aborted {fuel : Nat} {t : Trace} {answers : Answers} (rng : Rand) (d : List Bool)
      (value : Branch) (hwf : t.pathCondsRoot.WellFormed)
      (hcand : Candidate k t.pathCondsRoot d value)
      (hquery : t.newQuery cm (pathTo t.pathCondsRoot [] d) = none) :
      Searches cm k (fuel + 1) t answers ⟨.aborted, t, rng, answers, []⟩
  | found {fuel : Nat} {t : Trace} {answers : Answers} (rng : Rand) (d : List Bool)
      (value : Branch) (query : Query) (a : Assignment) (answers' : Answers)
      (hwf : t.pathCondsRoot.WellFormed) (hcand : Candidate k t.pathCondsRoot d value)
      (hquery : t.newQuery cm (pathTo t.pathCondsRoot [] d) = some (query, t.mark d))
      (hanswer : getAssignment cm query answers = (some a, answers')) :
      Searches cm k (fuel + 1) t answers ⟨.found a, t.mark d, rng, answers', [d]⟩
  | unsat {fuel : Nat} {t : Trace} {answers : Answers} (d : List Bool) (value : Branch)
      (query : Query) (answers' : Answers) (next : Search) (hwf : t.pathCondsRoot.WellFormed)
      (hcand : Candidate k t.pathCondsRoot d value)
      (hquery : t.newQuery cm (pathTo t.pathCondsRoot [] d) = some (query, t.mark d))
      (hanswer : getAssignment cm query answers = (none, answers'))
      (hnext : Searches cm k fuel (t.mark d) answers' next) :
      Searches cm k (fuel + 1) t answers { next with negated := d :: next.negated }

theorem wellFormed_mark (h : t.pathCondsRoot.WellFormed) (d : List Bool) :
    (t.mark d).pathCondsRoot.WellFormed :=
  h.relabel _ _

theorem findLoop_searches (cm : ConstraintManager) (k : Nat) (hwf : t.pathCondsRoot.WellFormed)
    (fuel : Nat) (rng : Rand) (answers : Answers) :
    Searches cm k fuel t answers (findLoop cm k fuel t rng answers) := by
  induction fuel generalizing t rng answers with
  | zero => exact .outOfFuel t rng answers
  | succ fuel ih =>
    have hwalk := randomUnnegated_spec k t.pathCondsRoot [] [] rng
    unfold findLoop
    split
    · rename_i path rng₁ heq
      rw [heq] at hwalk
      exact .exhausted rng₁ (hwalk.2 hwf)
    · rename_i path rng₁ heq
      rw [heq] at hwalk
      obtain ⟨d, value, hcand, rfl⟩ := hwalk
      rw [List.nil_append]
      split
      · rename_i hquery
        exact .aborted rng₁ d value hwf hcand hquery
      · rename_i query t' hquery
        obtain rfl := newQuery_trace hwf hcand.labelled hquery
        simp only [pathTo_getLast? hwf hcand.labelled, Option.map_some, Option.toList_some,
          List.nil_append, List.cons_append]
        split
        · rename_i a answers' hanswer
          exact .found rng₁ d value query a answers' hwf hcand hquery hanswer
        · rename_i answers' hanswer
          exact .unsat d value query answers' _ hwf hcand hquery hanswer
            (ih (wellFormed_mark hwf d) rng₁ answers')

theorem findNewPath_searches (cm : ConstraintManager) (k : Nat)
    (hwf : t.pathCondsRoot.WellFormed) (rng : Rand) (answers : Answers) :
    Searches cm k (t.pathCondsRoot.size + 1) t answers (t.findNewPath cm k rng answers) :=
  findLoop_searches cm k hwf _ rng answers

/-! ## Whole searches -/

/-- A marked node is a candidate no more, and marking leaves the other candidates. -/
theorem candidate_mark
    (h : Candidate k (n.relabel setNegated e) d value) : d ≠ e ∧ Candidate k n d value := by
  have hlabel := h.labelled
  rw [valueAt_relabel] at hlabel
  have hne : d ≠ e := by
    rintro rfl
    simp only [if_true, Option.map_eq_some_iff] at hlabel
    obtain ⟨_, -, old, -, rfl⟩ := hlabel
    exact absurd h.unmarked (by simp [setNegated])
  rw [if_neg hne] at hlabel
  obtain ⟨b, hb⟩ := h.openDirection
  have hnode := map_isSome_valueAt_relabel setNegated e (d ++ [b]) n
  rw [hb] at hnode
  exact ⟨hne, hlabel, h.pktSeqLen, h.unmarked, b, by simpa using hnode.symm⟩

theorem isNull_sub_relabel (n : Node) (d e : List Bool) (f : Branch → Branch) :
    ((n.relabel f e).sub d).isNull = (n.sub d).isNull := by
  have hnode := map_isSome_valueAt_relabel f e d n
  simp only [valueAt] at hnode
  cases h₁ : (n.relabel f e).sub d <;> cases h₂ : n.sub d <;>
    simp_all [isNull, value?]

/-- Marking does not change the conditions of the tree. -/
theorem follows_mark :
    Follows σ (n.relabel setNegated e) d ↔ Follows σ n d := by
  have hbv : ∀ p (P : Expr 1 → Prop),
      (∀ value, (n.relabel setNegated e).valueAt p = some (some value) → P value.bv) ↔
        ∀ value, n.valueAt p = some (some value) → P value.bv := by
    intro p P
    rw [valueAt_relabel]
    split_ifs with hp
    · subst hp
      cases n.valueAt p with
      | none => simp
      | some v => cases v <;> simp [setNegated]
    · rfl
  constructor
  · intro h p b value hp hv
    exact (hbv p fun bv => bv.eval σ = BitVec.ofBool b).mp (fun v hv => h p b v hp hv) value hv
  · intro h p b value hp hv
    exact (hbv p fun bv => bv.eval σ = BitVec.ofBool b).mpr (fun v hv => h p b v hp hv) value hv

/-- The node at `d` has exactly one child, and `b` is the direction without one. -/
def OnlyMissing (n : Node) (d : List Bool) (b : Bool) : Prop :=
  n.valueAt (d ++ [b]) = none ∧ n.valueAt (d ++ [!b]) ≠ none

/-- A candidate of a well-formed tree has exactly one child; the direction that is missing is `true`
exactly when there is no true child. -/
theorem onlyMissing_of_candidate (hwf : n.WellFormed)
    (h : Candidate k n d value) :
    OnlyMissing n d (n.sub (d ++ [true])).isNull := by
  obtain ⟨b, hb⟩ := h.openDirection
  obtain ⟨c, hc⟩ := hwf.labelled d value h.labelled
  have hbc : c = !b := by
    cases b <;> cases c <;> simp_all
  subst hbc
  have hdir : (n.sub (d ++ [true])).isNull = b := by
    simp only [valueAt, ne_eq, value?_eq_none] at hb hc
    cases b with
    | true => simpa using hb
    | false => simpa using hc
  rw [hdir]
  exact ⟨hb, hc⟩

/-- The negations of a search in order: each turn marks one candidate of the tree as it is then, and
the candidate has exactly one child. -/
inductive Negations (k : Nat) : Trace → List (List Bool) → Trace → Prop where
  | nil (t : Trace) : Negations k t [] t
  | cons {t t' : Trace} {d : List Bool} {ds : List (List Bool)} {value : Branch} {b : Bool}
      (hcand : Candidate k t.pathCondsRoot d value) (hchild : OnlyMissing t.pathCondsRoot d b)
      (hrest : Negations k (t.mark d) ds t') : Negations k t (d :: ds) t'

theorem Searches.negations (h : Searches cm k fuel t answers s) :
    Negations k t s.negated s.trace := by
  induction h with
  | outOfFuel | exhausted | aborted => exact .nil _
  | found _ d value _ _ _ hwf hcand =>
    exact .cons hcand (onlyMissing_of_candidate hwf hcand) (.nil _)
  | unsat d value _ _ _ hwf hcand _ _ _ ih =>
    exact .cons hcand (onlyMissing_of_candidate hwf hcand) ih

/-- Each turn marks a node, so a search with more fuel than unmarked nodes comes to an end. -/
theorem Searches.outcome_ne (h : Searches cm k fuel t answers s)
    (hfuel : t.pathCondsRoot.countP (fun b => !b.wasNegated) < fuel) :
    s.outcome ≠ .outOfFuel := by
  induction h with
  | outOfFuel => omega
  | exhausted | aborted | found => simp
  | unsat d value _ _ _ _ hcand _ _ _ ih =>
    apply ih
    have hcount := countP_relabel (f := setNegated)
      (p := fun b : Branch => !b.wasNegated) hcand.labelled (by simp [hcand.unmarked])
      (by simp [setNegated])
    simp only [mark]
    omega

theorem Searches.exhausted_spec (h : Searches cm k fuel t answers s)
    (hs : s.outcome = .exhausted) (d : List Bool) (value : Branch) :
    ¬ Candidate k s.trace.pathCondsRoot d value := by
  induction h with
  | exhausted _ hnone => exact hnone d value
  | outOfFuel | aborted | found => cases hs
  | unsat _ _ _ _ _ _ _ _ _ _ ih => exact ih hs

/-- The assignment that a search returns takes the missing direction of a candidate. -/
theorem Searches.sound (hcm : cm.Sound) (h : Searches cm k fuel t answers s)
    (hcorrect : answers.Correct) {a : Assignment} (hs : s.outcome = .found a) :
    ∃ d value, Candidate k t.pathCondsRoot d value ∧ ∀ σ, a.Binds σ →
      Sat σ t.assumeCs ∧ Follows σ t.pathCondsRoot d ∧
        value.bv.eval σ = BitVec.ofBool (t.pathCondsRoot.sub (d ++ [true])).isNull := by
  induction h with
  | outOfFuel | exhausted | aborted => cases hs
  | found _ d value query _ _ hwf hcand hquery hanswer =>
    cases hs
    refine ⟨d, value, hcand, fun σ hσ => ?_⟩
    obtain ⟨hsat, hexpr⟩ := getAssignment_sound hcm hcorrect hanswer hσ
    obtain ⟨hcs, hlast⟩ := newQuery_some hcm hwf hcand.labelled hquery σ
    exact ⟨(hcs.mp hsat).1, (hcs.mp hsat).2, (hlast hsat).mp hexpr⟩
  | unsat e _ _ _ _ _ _ _ hanswer _ ih =>
    obtain ⟨d, value, hcand, hall⟩ :=
      ih (getAssignment_answers (fun _ => .rest) hcorrect hanswer) hs
    refine ⟨d, value, (candidate_mark hcand).2, fun σ hσ => ?_⟩
    obtain ⟨hassume, hfollows, hlast⟩ := hall σ hσ
    refine ⟨hassume, follows_mark.mp hfollows, ?_⟩
    rw [hlast, mark, isNull_sub_relabel]

/-- The nodes of a search whose negation was answered unsat: all but the one that gave the
assignment. -/
def Search.unsat (s : Search) : List (List Bool) :=
  match s.outcome with
  | .found _ => s.negated.dropLast
  | _ => s.negated

theorem Search.mem_unsat_cons {s : Search}
    (h : d ∈ Search.unsat { s with negated := e :: s.negated }) : d = e ∨ d ∈ s.unsat := by
  obtain ⟨outcome, trace, rng, answers, negated⟩ := s
  cases outcome with
  | found a =>
    cases negated with
    | nil => simp [unsat] at h
    | cons first rest => simpa [unsat] using h
  | exhausted | aborted | outOfFuel => simpa [unsat] using h

/-- No valuation that satisfies the assumptions and the conditions above the node at `d` takes its
missing direction. -/
def Closed (t : Trace) (d : List Bool) : Prop :=
  ∀ value b, t.pathCondsRoot.valueAt d = some (some value) → OnlyMissing t.pathCondsRoot d b →
    ∀ σ, Sat σ t.assumeCs → Follows σ t.pathCondsRoot d → value.bv.eval σ ≠ BitVec.ofBool b

theorem OnlyMissing.eq_isNull {b : Bool} (h : OnlyMissing n d b) :
    b = (n.sub (d ++ [true])).isNull := by
  obtain ⟨hnone, hsome⟩ := h
  simp only [valueAt, ne_eq, value?_eq_none] at hnone hsome
  cases b with
  | true => simp [hnone, isNull]
  | false => simpa using hsome

/-- Marks do not open a node. -/
theorem Closed.of_mark (h : (t.mark e).Closed d) : t.Closed d := by
  intro value b hvalue hmissing σ hassume hfollows
  have hnode : ∀ p, (t.mark e).pathCondsRoot.valueAt p = none ↔
      t.pathCondsRoot.valueAt p = none := by
    intro p
    have hsome := map_isSome_valueAt_relabel setNegated e p t.pathCondsRoot
    simp only [mark]
    cases h₁ : (t.pathCondsRoot.relabel setNegated e).valueAt p <;>
      cases h₂ : t.pathCondsRoot.valueAt p <;> simp_all
  obtain ⟨marked, hmarked, hbv⟩ : ∃ v, (t.mark e).pathCondsRoot.valueAt d = some (some v) ∧
      v.bv = value.bv := by
    rw [mark, valueAt_relabel]
    split_ifs with hde
    · exact ⟨setNegated value, by rw [← hde, hvalue]; rfl, rfl⟩
    · exact ⟨value, hvalue, rfl⟩
  rw [← hbv]
  refine h marked b hmarked ⟨(hnode _).mpr hmissing.1, fun hnone => ?_⟩ σ hassume
    (follows_mark.mpr hfollows)
  exact hmissing.2 ((hnode _).mp hnone)

/-- An unsat answer is right about the assumptions and the path. -/
theorem Searches.closed (hcm : cm.Sound) (h : Searches cm k fuel t answers s)
    (hcomplete : answers.Complete) (hd : d ∈ s.unsat) : t.Closed d := by
  induction h with
  | outOfFuel | exhausted | aborted | found => simp [Search.unsat] at hd
  | unsat e _ query _ next hwf _ hquery hanswer _ ih =>
    obtain rfl | hd := Search.mem_unsat_cons hd
    · intro value b hvalue hmissing σ hassume hfollows
      obtain ⟨hcs, hlast⟩ := newQuery_some hcm hwf hvalue hquery σ
      have hsat := hcs.mpr ⟨hassume, hfollows⟩
      rw [hmissing.eq_isNull, ne_eq, ← hlast hsat]
      exact getAssignment_complete hcm hcomplete hanswer σ hsat
    · exact (ih (getAssignment_answers (fun _ => .rest) hcomplete hanswer) hd).of_mark

/-- A search that has come to an end does not change with more fuel. -/
theorem findLoop_add
    (h : (findLoop cm k fuel t rng answers).outcome ≠ .outOfFuel) (more : Nat) :
    findLoop cm k (fuel + more) t rng answers = findLoop cm k fuel t rng answers := by
  induction fuel generalizing t rng answers with
  | zero => exact absurd rfl h
  | succ fuel ih =>
    rw [Nat.succ_add]
    unfold findLoop at h ⊢
    split
    · rfl
    · rename_i path rng₁ heq
      rw [heq] at h
      dsimp only at h
      split
      · rfl
      · rename_i query t' hquery
        rw [hquery] at h
        dsimp only at h
        split
        · rfl
        · rename_i answers' hanswer
          rw [hanswer] at h
          dsimp only at h ⊢
          rw [ih h]

theorem Searches.aborted_spec (h : Searches cm k fuel t answers s) (hs : s.outcome = .aborted) :
    ∃ d value, Candidate k s.trace.pathCondsRoot d value ∧
      s.trace.newQuery cm (pathTo s.trace.pathCondsRoot [] d) = none := by
  induction h with
  | outOfFuel | exhausted | found => cases hs
  | aborted _ d value _ hcand hquery => exact ⟨d, value, hcand, hquery⟩
  | unsat _ _ _ _ _ _ _ _ _ _ ih => exact ih hs

/-- A search is aborted only when the assumptions contradict the conditions above a candidate. -/
theorem Searches.conflict (hcm : cm.Sound) (h : Searches cm k fuel t answers s)
    (hs : s.outcome = .aborted) : ∃ d value, Candidate k t.pathCondsRoot d value ∧
      ∀ σ, Sat σ t.assumeCs → ¬ Follows σ t.pathCondsRoot d := by
  induction h with
  | outOfFuel | exhausted | found => cases hs
  | aborted _ d value hwf hcand hquery =>
    exact ⟨d, value, hcand, newQuery_none hcm hwf hcand.labelled hquery⟩
  | unsat e _ _ _ _ _ _ _ _ _ ih =>
    obtain ⟨d, value, hcand, hall⟩ := ih hs
    refine ⟨d, value, (candidate_mark hcand).2, fun σ hassume hfollows => ?_⟩
    exact hall σ hassume (follows_mark.mpr hfollows)

/-- What is left of the answers after a search. -/
theorem Searches.answers_spec {Q : Answers → Prop} (hrest : ∀ a, Q a → Q a.rest)
    (h : Searches cm k fuel t answers s) (hQ : Q answers) : Q s.answers := by
  induction h with
  | outOfFuel | exhausted | aborted => exact hQ
  | found _ _ _ _ _ _ _ _ _ hanswer => exact getAssignment_answers hrest hQ hanswer
  | unsat _ _ _ _ _ _ _ _ hanswer _ ih => exact ih (getAssignment_answers hrest hQ hanswer)

/-! ## Assignments from the assumptions -/

theorem fromAssume_sound (hcm : cm.Sound) {answers' : Answers}
    (hcorrect : answers.Correct) {a : Assignment}
    (h : t.fromAssume cm answers = (some a, answers')) (hσ : a.Binds σ) :
    Sat σ t.assumeCs :=
  (getAssignment_sound hcm hcorrect h hσ).1

/-- No assignment means that the assumptions have no solution. -/
theorem fromAssume_complete (hcm : cm.Sound) {answers' : Answers}
    (hcomplete : answers.Complete) (h : t.fromAssume cm answers = (none, answers'))
    (σ : Valuation) : ¬ Sat σ t.assumeCs := by
  intro hsat
  refine getAssignment_complete hcm hcomplete h σ hsat ((holds_createIsZero hcm _ σ).mpr ?_)
  simp [Query.withFalse, Holds, Expr.eval]

end Trace

end SpsVp.Clover
