import SpsVp.Clover.Search

/-!
# The life of a trace

Any interleaving of calls of `Trace::reset`, `add`, `assume` and `findNewPath`, with the history
that the statements below speak about: the runs so far, the constraints assumed so far and the nodes
negated so far. `Life.Invariant` says how the trace reflects this history, `call_invariant` that
every call keeps it, and `invariant_of_calls` that it holds after all of them.

The tree is described by the runs alone: `Represents` gives for every direction sequence what stands
there, up to the marks of `findNewPath`.
-/

namespace SpsVp.Clover

open Klee Lib

/-- One branch of a run: what `Trace::add` is told, and the direction that is taken. -/
structure Taken where
  bv : Expr 1
  addr : BitVec 32
  pktSeqLen : Nat
  direction : Bool
deriving DecidableEq

/-- A run is the sequence of its branches. -/
abbrev Run := List Taken

/-- The directions of a run. -/
def Run.directions (run : Run) : List Bool := run.map Taken.direction

/-- The branch that a run presents after the directions `d`. -/
def Run.next : Run → List Bool → Option Taken
  | [], _ => none
  | taken :: _, [] => some taken
  | taken :: run, b :: d => if taken.direction = b then Run.next run d else none

/-- The part of a branch that no negation changes. -/
def Branch.data (value : Branch) : Expr 1 × BitVec 32 × Nat :=
  (value.bv, value.addr, value.pktSeqLen)

/-- What `Trace::add` stores of a branch. -/
def Taken.data (taken : Taken) : Expr 1 × BitVec 32 × Nat :=
  (taken.bv, taken.addr, taken.pktSeqLen)

/-- The tree that the runs leave: below the root there are nodes along every run, and a node stores
the branch of the first run that presented one there. -/
def Represents (n : Node) (runs : List Run) : Prop :=
  ∀ d, (n.valueAt d).map (Option.map Branch.data) =
    if d = [] ∨ ∃ run ∈ runs, d <+: run.directions then
      some ((runs.findSome? (Run.next · d)).map Taken.data)
    else none

/-! ## Calls -/

/-- A call of a public function of `Trace`. -/
inductive Call where
  | reset
  | add (condition : Bool) (bv : Expr 1) (pc : BitVec 32) (pktSeqLen : Nat)
  | assume (constraint : Expr 1)
  | findNewPath (k : Nat) (rng : Rand) (answers : Answers)

/-- A trace with its history: the finished runs, the run in progress, the constraints passed to
`assume` and the nodes negated by `findNewPath`, each in order. -/
structure Life where
  trace : Trace
  earlier : List Run
  current : Option Run
  assumed : List (Expr 1)
  negated : List (List Bool)

namespace Life

/-- A new trace. -/
def init : Life := ⟨.init, [], none, [], []⟩

/-- All runs so far. -/
def runs (l : Life) : List Run := l.earlier ++ l.current.toList

/-- The effect of a call, `none` when an assertion fails in it. -/
def call (cm : ConstraintManager) (l : Life) : Call → Option Life
  | .reset => some { l with
      trace := l.trace.reset
      earlier := l.runs
      current := some [] }
  | .add condition bv pc pktSeqLen => do
      let trace ← l.trace.add cm condition bv pc pktSeqLen
      some { l with
        trace := trace
        current := some (l.current.getD [] ++ [⟨bv, pc, pktSeqLen, condition⟩]) }
  | .assume constraint => do
      let trace ← l.trace.assume cm constraint
      some { l with trace := trace, assumed := l.assumed ++ [constraint] }
  | .findNewPath k rng answers =>
    let search := l.trace.findNewPath cm k rng answers
    match search.outcome with
    | .found _ | .exhausted =>
      some { l with trace := search.trace, negated := l.negated ++ search.negated }
    | .aborted | .outOfFuel => none

/-- Calls one after the other. -/
def calls (cm : ConstraintManager) (l : Life) (cs : List Call) : Option Life :=
  cs.foldlM (call cm) l

/-- How a trace reflects its history. -/
structure Invariant (cm : ConstraintManager) (l : Life) : Prop where
  wellFormed : l.trace.pathCondsRoot.WellFormed
  represents : Represents l.trace.pathCondsRoot l.runs
  position : l.trace.position = (l.current.getD []).directions
  assumed : cm.Sound → ∀ σ, Sat σ l.trace.assumeCs ↔ Sat σ l.assumed
  marked : ∀ d ∈ l.negated, ∃ value,
    l.trace.pathCondsRoot.valueAt d = some (some value) ∧ value.wasNegated = true
  nodup : l.negated.Nodup

end Life

/-! ## The tree and the runs -/

namespace Run

theorem directions_append (run : Run) (taken : Taken) :
    directions (run ++ [taken]) = run.directions ++ [taken.direction] := by
  simp [directions]

/-- A run presents a branch after `d` exactly when it continues past `d`. -/
theorem next_ne_none_iff (run : Run) (d : List Bool) :
    run.next d ≠ none ↔ ∃ b, d ++ [b] <+: run.directions := by
  induction run generalizing d with
  | nil => simp [next, directions]
  | cons taken run ih =>
    cases d with
    | nil => simp [next, directions]
    | cons b d =>
      have hrest := ih d
      by_cases hb : taken.direction = b
      · subst hb
        simpa [next, directions] using hrest
      · simp [next, directions, hb, Ne.symm hb]

/-- The branch that is added to a run is the one presented after its directions so far, and the
others stay. -/
theorem next_append (run : Run) (taken : Taken) (d : List Bool) :
    next (run ++ [taken]) d = if d = run.directions then some taken else run.next d := by
  induction run generalizing d with
  | nil => cases d <;> simp [next, directions]
  | cons first run ih =>
    cases d with
    | nil => simp [next, directions]
    | cons b d =>
      by_cases hb : first.direction = b
      · subst hb
        show (if first.direction = first.direction then next (run ++ [taken]) d else none) = _
        have hdirs : first.direction :: d = directions (first :: run) ↔ d = directions run := by
          simp [directions]
        rw [if_pos rfl, ih d, next, if_pos rfl]
        simp only [hdirs]
      · simp [next, directions, hb, Ne.symm hb]

theorem next_directions (run : Run) : run.next run.directions = none := by
  by_contra h
  obtain ⟨b, hb⟩ := (next_ne_none_iff run run.directions).mp h
  have hlength := hb.length_le
  simp at hlength

/-- Nothing is presented after directions that the run does not take. -/
theorem next_eq_none_of_not_prefix {run : Run} {d : List Bool} (h : ¬ d <+: run.directions) :
    run.next d = none := by
  by_contra hne
  obtain ⟨b, hb⟩ := (next_ne_none_iff run d).mp hne
  exact h ((List.prefix_append d [b]).trans hb)

end Run

/-- The root is there before any run. -/
theorem represents_init : Represents Trace.init.pathCondsRoot [] := by
  intro d
  cases d with
  | nil => rfl
  | cons b d => cases b <;> simp [Trace.init, DirTree.valueAt, DirTree.child, DirTree.value?]

variable {n : Node}

/-- A run without branches changes nothing. -/
theorem Represents.start {runs : List Run} (h : Represents n runs) :
    Represents n (runs ++ [[]]) := by
  intro d
  rw [h d]
  have hexists : (d = [] ∨ ∃ run ∈ runs ++ [[]], d <+: Run.directions run) ↔
      (d = [] ∨ ∃ run ∈ runs, d <+: run.directions) := by
    simp only [List.mem_append, List.mem_singleton, or_and_right, exists_or, exists_eq_left]
    have hnil : d <+: Run.directions [] ↔ d = [] := by simp [Run.directions]
    rw [hnil, or_comm (b := d = []), or_self_left]
  have hnext : (runs ++ [[]]).findSome? (Run.next · d) = runs.findSome? (Run.next · d) := by
    simp [List.findSome?_append, Run.next]
  simp only [hexists, hnext]

/-- Marking changes nothing that the runs describe. -/
theorem Represents.mark {runs : List Run} (h : Represents n runs) (e : List Bool) :
    Represents (n.relabel Trace.setNegated e) runs := by
  intro d
  rw [← h d, DirTree.valueAt_relabel]
  split_ifs with hd
  · subst hd
    cases n.valueAt d with
    | none => rfl
    | some v => cases v <;> rfl
  · rfl

/-- Adding a branch to the run in progress grows the tree where the run stands. -/
theorem Represents.grow {earlier : List Run} {run : Run}
    (h : Represents n (earlier ++ [run])) (taken : Taken) :
    (∃ v, n.valueAt run.directions = some v) ∧
    Represents (n.grow ⟨taken.bv, false, taken.addr, taken.pktSeqLen⟩ taken.direction
      run.directions) (earlier ++ [run ++ [taken]]) := by
  have hhere : (n.valueAt run.directions).map (Option.map Branch.data) =
      some ((earlier.findSome? (Run.next · run.directions)).map Taken.data) := by
    rw [h run.directions, if_pos (.inr ⟨run, by simp, List.prefix_rfl⟩)]
    simp [List.findSome?_append, Run.next_directions]
  obtain ⟨v, hv, hdata⟩ := Option.map_eq_some_iff.mp hhere
  refine ⟨⟨v, hv⟩, fun d => ?_⟩
  rw [DirTree.valueAt_grow hv]
  have hnext : (earlier ++ [run ++ [taken]]).findSome? (Run.next · d) =
      if d = run.directions then some ((earlier.findSome? (Run.next · d)).getD taken)
      else (earlier ++ [run]).findSome? (Run.next · d) := by
    simp only [List.findSome?_append, List.findSome?_cons, List.findSome?_nil, Run.next_append]
    split_ifs with hd
    · cases earlier.findSome? (Run.next · d) <;> rfl
    · rfl
  have hexists : (d = [] ∨ ∃ r ∈ earlier ++ [run ++ [taken]], d <+: Run.directions r) ↔
      (d = run.directions ++ [taken.direction] ∨
        (d = [] ∨ ∃ r ∈ earlier ++ [run], d <+: Run.directions r)) := by
    simp only [List.mem_append, List.mem_singleton, or_and_right, exists_or, exists_eq_left,
      Run.directions_append, List.prefix_concat_iff]
    rw [or_left_comm (b := d = run.directions ++ [taken.direction]),
      or_left_comm (b := d = run.directions ++ [taken.direction])]
  simp only [hnext, hexists]
  by_cases hd : d = run.directions
  · -- the branch of an earlier run stays, a placeholder gets the new one
    subst hd
    have hroot : (run.directions = run.directions ++ [taken.direction] ∨
        (run.directions = [] ∨ ∃ r ∈ earlier ++ [run], run.directions <+: Run.directions r)) :=
      .inr (.inr ⟨run, by simp, List.prefix_rfl⟩)
    rw [if_pos rfl, if_pos hroot, if_pos rfl]
    cases hfirst : earlier.findSome? (Run.next · run.directions) with
    | none =>
      obtain rfl : v = none := by simpa [hfirst] using hdata
      rfl
    | some first =>
      rw [hfirst] at hdata
      obtain ⟨value, rfl, hvalue⟩ := Option.map_eq_some_iff.mp hdata
      simpa using hvalue
  · rw [if_neg hd, if_neg hd]
    by_cases hchild : d = run.directions ++ [taken.direction]
    · -- the child is a placeholder when no earlier run has come this way
      rw [if_pos hchild, if_pos (.inl hchild)]
      have hold := h d
      split_ifs at hold with hthere
      · obtain ⟨old, hold, hdata⟩ := Option.map_eq_some_iff.mp hold
        simp [hold, hdata]
      · have hnone : (earlier ++ [run]).findSome? (Run.next · d) = none := by
          rw [List.findSome?_eq_none_iff]
          intro r hr
          refine Run.next_eq_none_of_not_prefix fun hpre => hthere (.inr ⟨r, hr, hpre⟩)
        rw [hnone, Option.map_eq_none_iff.mp hold]
        rfl
    · rw [if_neg hchild, h d]
      simp [hchild]

/-! ## The invariant -/

namespace Life

variable {cm : ConstraintManager} {l l' : Life}

theorem invariant_init : init.Invariant cm where
  wellFormed := DirTree.wellFormed_placeholder
  represents := represents_init
  position := rfl
  assumed _ _ := Iff.rfl
  marked := by simp [init]
  nodup := List.nodup_nil

theorem Invariant.reset (h : l.Invariant cm) (hcall : l.call cm .reset = some l') :
    l'.Invariant cm := by
  cases hcall
  exact {
    wellFormed := h.wellFormed
    represents := h.represents.start
    position := rfl
    assumed := h.assumed
    marked := h.marked
    nodup := h.nodup }

/-- The runs so far, with an empty run in progress when there is none yet. -/
theorem Invariant.represents_current (h : l.Invariant cm) :
    Represents l.trace.pathCondsRoot (l.earlier ++ [l.current.getD []]) := by
  have hruns := h.represents
  cases hcurrent : l.current with
  | none => simpa [runs, hcurrent] using hruns.start
  | some run => simpa [runs, hcurrent] using hruns

theorem Invariant.add (h : l.Invariant cm) {condition : Bool} {bv : Expr 1} {pc : BitVec 32}
    {pktSeqLen : Nat} (hcall : l.call cm (.add condition bv pc pktSeqLen) = some l') :
    l'.Invariant cm := by
  simp only [call, Trace.add, Option.bind_eq_bind, Option.bind_eq_some_iff] at hcall
  obtain ⟨trace, ⟨cs, hcs, htrace⟩, hcall⟩ := hcall
  cases htrace
  cases hcall
  obtain ⟨⟨v, hv⟩, hgrow⟩ := h.represents_current.grow ⟨bv, pc, pktSeqLen, condition⟩
  rw [← h.position] at hv hgrow
  exact {
    wellFormed := h.wellFormed.grow _ _ hv
    represents := by simpa [runs, Trace.addBranch, Trace.position] using hgrow
    position := by
      rw [Option.getD_some, Run.directions_append, ← h.position]
      rfl
    assumed := h.assumed
    marked := fun d hd => by
      obtain ⟨value, hvalue, hmark⟩ := h.marked d hd
      exact ⟨value, DirTree.valueAt_grow_of_label hv hvalue, hmark⟩
    nodup := h.nodup }

theorem Invariant.assume (h : l.Invariant cm) {constraint : Expr 1}
    (hcall : l.call cm (.assume constraint) = some l') : l'.Invariant cm := by
  simp only [call, Trace.assume, Option.bind_eq_bind, Option.bind_eq_some_iff] at hcall
  obtain ⟨trace, ⟨cs, hcs, htrace⟩, hcall⟩ := hcall
  cases htrace
  cases hcall
  exact {
    wellFormed := h.wellFormed
    represents := h.represents
    position := h.position
    assumed := fun hcm σ => by
      rw [hcm.addConstraint_some hcs, h.assumed hcm, sat_append, sat_cons]
      simp
    marked := h.marked
    nodup := h.nodup }

variable {k : Nat}

/-- One turn of a search marks a node that was never negated before. -/
theorem Invariant.mark (h : l.Invariant cm) {d : List Bool} {value : Branch}
    (hcand : Candidate k l.trace.pathCondsRoot d value) :
    Invariant cm { l with trace := l.trace.mark d, negated := l.negated ++ [d] } where
  wellFormed := h.wellFormed.relabel _ _
  represents := h.represents.mark d
  position := h.position
  assumed := h.assumed
  marked := fun e he => by
    simp only [Trace.mark, DirTree.valueAt_relabel]
    by_cases hed : e = d
    · subst hed
      exact ⟨Trace.setNegated value, by simp [hcand.labelled], rfl⟩
    · rw [if_neg hed]
      have hmem : e ∈ l.negated := by simpa [hed] using he
      exact h.marked e hmem
  nodup := by
    have hfresh : d ∉ l.negated := by
      intro hmem
      obtain ⟨old, hold, hmark⟩ := h.marked d hmem
      have hsame : value = old := by simpa [hcand.labelled] using hold
      rw [← hsame, hcand.unmarked] at hmark
      cases hmark
    exact List.nodup_append.mpr ⟨h.nodup, List.nodup_singleton d, by
      intro a ha b hb
      rw [List.mem_singleton] at hb
      rintro rfl
      exact hfresh (hb ▸ ha)⟩

/-- A whole search keeps the invariant. -/
theorem Invariant.negations (h : l.Invariant cm) {ds : List (List Bool)} {t : Trace}
    (hsearch : Trace.Negations k l.trace ds t) :
    Invariant cm { l with trace := t, negated := l.negated ++ ds } := by
  generalize htrace : l.trace = start at hsearch
  induction hsearch generalizing l with
  | nil t =>
    subst htrace
    simpa using h
  | cons hcand hchild hrest ih =>
    subst htrace
    have := ih (h.mark hcand) rfl
    simpa using this

theorem Invariant.findNewPath (h : l.Invariant cm) {rng : Rand} {answers : Answers}
    (hcall : l.call cm (.findNewPath k rng answers) = some l') : l'.Invariant cm := by
  have hsearch := (Trace.findNewPath_searches cm k h.wellFormed rng answers).negations
  simp only [call] at hcall
  split at hcall
  · cases hcall
    exact h.negations hsearch
  · cases hcall
    exact h.negations hsearch
  · cases hcall
  · cases hcall

/-- Every call keeps the invariant. -/
theorem call_invariant (h : l.Invariant cm) {c : Call} (hcall : l.call cm c = some l') :
    l'.Invariant cm := by
  cases c with
  | reset => exact h.reset hcall
  | add condition bv pc pktSeqLen => exact h.add hcall
  | assume constraint => exact h.assume hcall
  | findNewPath k rng answers => exact h.findNewPath hcall

/-- The invariant holds after any calls. -/
theorem invariant_of_calls {cs : List Call} (h : init.calls cm cs = some l) : l.Invariant cm := by
  have hall : ∀ {start : Life}, start.Invariant cm → start.calls cm cs = some l →
      l.Invariant cm := by
    clear h
    induction cs with
    | nil =>
      intro start hstart h
      cases h
      exact hstart
    | cons c cs ih =>
      intro start hstart h
      simp only [calls, List.foldlM_cons, Option.bind_eq_bind, Option.bind_eq_some_iff] at h
      obtain ⟨mid, hmid, h⟩ := h
      exact ih (call_invariant hstart hmid) h
  exact hall invariant_init h

/-! ## Results -/

/-- The condition that the byte `x` is zero. -/
def zeroCondition : Expr 1 :=
  .comparison .Eq (Expr.createTempReadByte "x") (.Constant 0#8)

/-- One run in which the byte is zero. -/
def zeroRun : List Call := [.reset, .add true zeroCondition 4096#32 1]

/-- The trace after this run. -/
def afterZeroRun : Life where
  trace := ⟨[eqTrue zeroCondition], [],
    .node (some ⟨zeroCondition, false, 4096#32, 1⟩) (.node none .null .null) .null, some [true]⟩
  earlier := []
  current := some [⟨zeroCondition, 4096#32, 1, true⟩]
  assumed := []
  negated := []

theorem calls_zeroRun : init.calls .plain zeroRun = some afterZeroRun := rfl

/-- The tree after any calls is the one that the runs describe. A node stands at `d` exactly when
`d` is empty or a prefix of a run, it is a placeholder exactly when no run continued past `d`, and
otherwise it has a child and stores the branch of the first run that presented one at `d`. When all
runs present the same condition there, the stored condition is that of every run. -/
theorem tree_represents_runs {cs : List Call} (h : init.calls cm cs = some l) (d : List Bool) :
    (l.trace.pathCondsRoot.valueAt d ≠ none ↔
      d = [] ∨ ∃ run ∈ l.runs, d <+: run.directions) ∧
    (l.trace.pathCondsRoot.valueAt d = some none ↔
      (d = [] ∨ ∃ run ∈ l.runs, d <+: run.directions) ∧
        ∀ run ∈ l.runs, ¬ ∃ b, d ++ [b] <+: run.directions) ∧
    ∀ value, l.trace.pathCondsRoot.valueAt d = some (some value) →
      (∃ b, l.trace.pathCondsRoot.valueAt (d ++ [b]) ≠ none) ∧
      (∃ before run after taken, l.runs = before ++ run :: after ∧ run.next d = some taken ∧
        (∀ r ∈ before, r.next d = none) ∧
        value.bv = taken.bv ∧ value.addr = taken.addr ∧ value.pktSeqLen = taken.pktSeqLen) ∧
      ((∀ r ∈ l.runs, ∀ r' ∈ l.runs, ∀ taken taken', r.next d = some taken →
          r'.next d = some taken' → taken.bv = taken'.bv) →
        ∀ r ∈ l.runs, ∀ taken, r.next d = some taken → value.bv = taken.bv) := by
  have hinv := invariant_of_calls h
  have hrep := hinv.represents d
  refine ⟨?_, ?_, fun value hvalue => ⟨hinv.wellFormed.labelled d value hvalue, ?_⟩⟩
  · split_ifs at hrep with hd
    · obtain ⟨v, hv, -⟩ := Option.map_eq_some_iff.mp hrep
      simp [hv, hd]
    · simp [Option.map_eq_none_iff.mp hrep, hd]
  · have hpast : (∀ run ∈ l.runs, ¬ ∃ b, d ++ [b] <+: run.directions) ↔
        l.runs.findSome? (Run.next · d) = none := by
      simp only [← Run.next_ne_none_iff, not_not, List.findSome?_eq_none_iff]
    rw [hpast]
    split_ifs at hrep with hd
    · obtain ⟨v, hv, hdata⟩ := Option.map_eq_some_iff.mp hrep
      rw [hv, Option.some.injEq, ← Option.map_eq_none_iff (f := Branch.data), hdata,
        Option.map_eq_none_iff]
      simp [hd]
    · simp [Option.map_eq_none_iff.mp hrep, hd]
  · rw [hvalue] at hrep
    split_ifs at hrep with hd
    · have hdata : (l.runs.findSome? (Run.next · d)).map Taken.data = some value.data := by
        simpa using hrep.symm
      obtain ⟨taken, hfirst, hdata⟩ := Option.map_eq_some_iff.mp hdata
      obtain ⟨before, run, after, hruns, hnext, hbefore⟩ :=
        List.findSome?_eq_some_iff.mp hfirst
      simp only [Taken.data, Branch.data, Prod.mk.injEq] at hdata
      obtain ⟨hbv, haddr, hlen⟩ := hdata
      refine ⟨⟨before, run, after, taken, hruns, hnext, hbefore, hbv.symm, haddr.symm, hlen.symm⟩,
        fun hsame r hr t ht => ?_⟩
      rw [← hbv]
      exact hsame run (by simp [hruns]) r hr taken t hnext ht
    · simp at hrep

/-- The node below the root after the run with byte zero. -/
theorem tree_represents_runs_zeroRun :
    init.calls .plain zeroRun = some afterZeroRun ∧
    (afterZeroRun.trace.pathCondsRoot.valueAt [true] ≠ none ↔
      [true] = [] ∨ ∃ run ∈ afterZeroRun.runs, [true] <+: run.directions) :=
  ⟨calls_zeroRun, (tree_represents_runs calls_zeroRun [true]).1⟩

/-- A root stands there before the first run, and the first run that reaches a node need not be the
one that it describes: here the first run ends at the root, which then stores the branch of the
second one. -/
theorem root_without_run_and_late_branch :
    (init.calls .plain [] = some init ∧ init.runs = [] ∧
      init.trace.pathCondsRoot.valueAt [] ≠ none) ∧
    ∃ l, init.calls .plain (.reset :: zeroRun) = some l ∧
      l.runs = [[], [⟨zeroCondition, 4096#32, 1, true⟩]] ∧
      (∀ r ∈ l.runs, ∀ r' ∈ l.runs, ∀ d taken taken', r.next d = some taken →
        r'.next d = some taken' → taken.bv = taken'.bv) ∧
      l.trace.pathCondsRoot.valueAt [] = some (some ⟨zeroCondition, false, 4096#32, 1⟩) ∧
      [] <+: Run.directions [] ∧ Run.next [] [] = none := by
  refine ⟨⟨rfl, rfl, by simp [init, Trace.init, DirTree.valueAt, DirTree.sub, DirTree.value?]⟩, ?_⟩
  obtain ⟨l, hcalls, hruns, hroot⟩ : ∃ l, init.calls .plain (.reset :: zeroRun) = some l ∧
      l.runs = [[], [⟨zeroCondition, 4096#32, 1, true⟩]] ∧
      l.trace.pathCondsRoot.valueAt [] = some (some ⟨zeroCondition, false, 4096#32, 1⟩) :=
    ⟨_, rfl, rfl, rfl⟩
  refine ⟨l, hcalls, hruns, ?_, hroot, List.nil_prefix, rfl⟩
  intro r hr r' hr' d taken taken' hnext hnext'
  rw [hruns, List.mem_pair] at hr hr'
  obtain rfl | rfl := hr
  · cases hnext
  · obtain rfl | rfl := hr'
    · cases hnext'
    · rw [hnext] at hnext'
      cases hnext'
      rfl

/-- An assignment that `findNewPath` returns leads to a node that was never negated and has exactly
one child: it satisfies all assumed constraints, every condition above the node in the direction
that leads to it, and the condition of the node in the direction that has no child. -/
theorem path_negation_sound (hcm : cm.Sound) {cs : List Call} (h : init.calls cm cs = some l)
    (k : Nat) (rng : Rand) {answers : Answers} (hcorrect : answers.Correct) {a : Assignment}
    (hfound : (l.trace.findNewPath cm k rng answers).outcome = .found a) :
    ∃ d value b, l.trace.pathCondsRoot.valueAt d = some (some value) ∧
      k ≤ value.pktSeqLen ∧ value.wasNegated = false ∧ d ∉ l.negated ∧
      Trace.OnlyMissing l.trace.pathCondsRoot d b ∧
      ∀ σ, a.Binds σ → Sat σ l.assumed ∧ Follows σ l.trace.pathCondsRoot d ∧
        value.bv.eval σ = BitVec.ofBool b := by
  have hinv := invariant_of_calls h
  obtain ⟨d, value, hcand, hall⟩ :=
    (Trace.findNewPath_searches cm k hinv.wellFormed rng answers).sound hcm hcorrect hfound
  refine ⟨d, value, _, hcand.labelled, hcand.pktSeqLen, hcand.unmarked, ?_,
    Trace.onlyMissing_of_candidate hinv.wellFormed hcand, fun σ hσ => ?_⟩
  · intro hmem
    obtain ⟨old, hold, hmark⟩ := hinv.marked d hmem
    have hsame : value = old := by simpa [hcand.labelled] using hold
    rw [← hsame, hcand.unmarked] at hmark
    cases hmark
  · obtain ⟨hassumed, hfollows, hlast⟩ := hall σ hσ
    exact ⟨(hinv.assumed hcm σ).mp hassumed, hfollows, hlast⟩

/-- After the run with byte zero, the search returns a byte that is not zero. -/
theorem path_negation_sound_zeroRun :
    ∃ d value b, afterZeroRun.trace.pathCondsRoot.valueAt d = some (some value) ∧
      1 ≤ value.pktSeqLen ∧ value.wasNegated = false ∧ d ∉ afterZeroRun.negated ∧
      Trace.OnlyMissing afterZeroRun.trace.pathCondsRoot d b ∧
      ∀ σ, Assignment.Binds ⟨[⟨"x", 1⟩], fun _ _ => 1#8⟩ σ →
        Sat σ afterZeroRun.assumed ∧ Follows σ afterZeroRun.trace.pathCondsRoot d ∧
          value.bv.eval σ = BitVec.ofBool b :=
  path_negation_sound ConstraintManager.plain_sound calls_zeroRun 1 (fun _ => 0)
    (Answers.preferring_correct fun _ _ => 1#8) rfl

/-- Every call of `findNewPath` comes to an end. Each of its turns marks one candidate with exactly
one child, it returns no assignment only when no candidate is left, and over the whole life of the
trace no node is negated twice. An abort is the assertion of the constraint manager on the query of
a candidate. -/
theorem path_negation_complete {cs : List Call} (h : init.calls cm cs = some l) (k : Nat)
    (rng : Rand) (answers : Answers) :
    let search := l.trace.findNewPath cm k rng answers
    search.outcome ≠ .outOfFuel ∧
    (∀ fuel, l.trace.pathCondsRoot.size < fuel →
      Trace.findLoop cm k fuel l.trace rng answers = search) ∧
    Trace.Negations k l.trace search.negated search.trace ∧
    (search.outcome = .exhausted → ∀ d value,
      ¬ Candidate k search.trace.pathCondsRoot d value) ∧
    (search.outcome = .aborted → ∃ d value, Candidate k search.trace.pathCondsRoot d value ∧
      search.trace.newQuery cm (pathTo search.trace.pathCondsRoot [] d) = none) ∧
    (l.negated ++ search.negated).Nodup := by
  have hinv := invariant_of_calls h
  have hcount := DirTree.countP_le_size (fun b : Branch => !b.wasNegated) l.trace.pathCondsRoot
  have hsearch := Trace.findNewPath_searches cm k hinv.wellFormed rng answers
  have hfuel := hsearch.outcome_ne (Nat.lt_succ_of_le hcount)
  refine ⟨hfuel, fun fuel hlt => ?_, hsearch.negations, hsearch.exhausted_spec,
    hsearch.aborted_spec, (hinv.negations hsearch.negations).nodup⟩
  obtain ⟨more, rfl⟩ := Nat.exists_eq_add_of_le (Nat.succ_le_of_lt hlt)
  exact Trace.findLoop_add hfuel more

/-- After the run with byte zero there is one node to negate, and an unsat answer exhausts the
tree. -/
theorem path_negation_complete_zeroRun :
    init.calls .plain zeroRun = some afterZeroRun ∧
    (afterZeroRun.trace.findNewPath .plain 1 (fun _ => 0) fun _ _ => none).negated = [[]] ∧
    (afterZeroRun.trace.findNewPath .plain 1 (fun _ => 0) fun _ _ => none).outcome ≠ .outOfFuel :=
  ⟨calls_zeroRun, rfl, (path_negation_complete calls_zeroRun 1 (fun _ => 0) fun _ _ => none).1⟩

end Life

end SpsVp.Clover
