import SpsVp.Klee.ExprBuilder

/-!
# Concolic values

`clover::ConcolicValue`: a concrete bit vector together with an optional symbolic expression, and
the operators of `symex/clover/concolic.cpp`. Every operator computes on the concrete parts and
decides by its own rule whether the result keeps a symbolic part. The binary operators keep one as
soon as either operand has one, `bnot`, `extract`, `sext` and `zext` when their operand has one, and
`select` only when its condition has one.

`Term` is the language of all compositions of these operators. `keeps_dependence_iff` says for which
compositions the symbolic part follows its operands under every assignment.
-/

namespace SpsVp.Clover

open Klee ExprBuilder

/-- A `ConcolicValue` of width `w`. The C++ constructor asserts that the concrete part is a
`ConstantExpr`; here it is the constant itself. -/
structure ConcolicValue (w : Nat) where
  concrete : BitVec w
  symbolic : Option (Expr w) := none
deriving DecidableEq

namespace ConcolicValue

variable {u v w : Nat}

/-- The symbolic part, or the concrete part as a constant when there is none. -/
def toExpr (x : ConcolicValue w) : Expr w :=
  x.symbolic.getD (.Constant x.concrete)

/-- What a value denotes under an assignment of the symbolic variables. -/
def value (σ : Valuation) (x : ConcolicValue w) : BitVec w :=
  x.toExpr.eval σ

/-- A value whose symbolic part evaluates to its concrete part. -/
def Agrees (σ : Valuation) (x : ConcolicValue w) : Prop :=
  x.value σ = x.concrete

/-- The same value at an equal width. -/
def cast (h : v = w) (x : ConcolicValue v) : ConcolicValue w where
  concrete := x.concrete.cast h
  symbolic := x.symbolic.map (h ▸ ·)

/-! ## Operators -/

/-- `BINARY_OPERATOR`: the builder function `fn` on the symbolic parts as soon as one operand has
one. On two constants `fn` folds to the operation `op`. -/
def binaryOperator (op : BitVec u → BitVec v → BitVec w) (fn : Expr u → Expr v → Expr w)
    (x : ConcolicValue u) (y : ConcolicValue v) : ConcolicValue w where
  concrete := op x.concrete y.concrete
  symbolic :=
    if x.symbolic.isSome || y.symbolic.isSome then some (fn x.toExpr y.toExpr) else none

/-- The shape shared by `bnot`, `extract`, `sext` and `zext`. -/
def unaryOperator (op : BitVec v → BitVec w) (fn : Expr v → Expr w) (x : ConcolicValue v) :
    ConcolicValue w where
  concrete := op x.concrete
  symbolic := x.symbolic.map fn

/-- The members of `BINARY_OPERATOR` that keep the width. -/
def arithmetic (kind : BinaryKind) : ConcolicValue w → ConcolicValue w → ConcolicValue w :=
  binaryOperator kind.apply (ExprBuilder.ofBinary kind)

/-- The members of `BINARY_OPERATOR` that compare. -/
def compare (kind : CmpKind) : ConcolicValue v → ConcolicValue v → ConcolicValue 1 :=
  binaryOperator kind.apply (ExprBuilder.ofCmp kind)

abbrev eq (x y : ConcolicValue v) : ConcolicValue 1 := compare .Eq x y
abbrev ne (x y : ConcolicValue v) : ConcolicValue 1 := compare .Ne x y
abbrev lshl (x y : ConcolicValue w) : ConcolicValue w := arithmetic .Shl x y
abbrev lshr (x y : ConcolicValue w) : ConcolicValue w := arithmetic .LShr x y
abbrev ashr (x y : ConcolicValue w) : ConcolicValue w := arithmetic .AShr x y
abbrev add (x y : ConcolicValue w) : ConcolicValue w := arithmetic .Add x y
abbrev mul (x y : ConcolicValue w) : ConcolicValue w := arithmetic .Mul x y
abbrev udiv (x y : ConcolicValue w) : ConcolicValue w := arithmetic .UDiv x y
abbrev sdiv (x y : ConcolicValue w) : ConcolicValue w := arithmetic .SDiv x y
abbrev urem (x y : ConcolicValue w) : ConcolicValue w := arithmetic .URem x y
abbrev srem (x y : ConcolicValue w) : ConcolicValue w := arithmetic .SRem x y
abbrev sub (x y : ConcolicValue w) : ConcolicValue w := arithmetic .Sub x y
abbrev slt (x y : ConcolicValue v) : ConcolicValue 1 := compare .Slt x y
abbrev sge (x y : ConcolicValue v) : ConcolicValue 1 := compare .Sge x y
abbrev ule (x y : ConcolicValue v) : ConcolicValue 1 := compare .Ule x y
abbrev ult (x y : ConcolicValue v) : ConcolicValue 1 := compare .Ult x y
abbrev uge (x y : ConcolicValue v) : ConcolicValue 1 := compare .Uge x y
abbrev band (x y : ConcolicValue w) : ConcolicValue w := arithmetic .And x y
abbrev bor (x y : ConcolicValue w) : ConcolicValue w := arithmetic .Or x y
abbrev bxor (x y : ConcolicValue w) : ConcolicValue w := arithmetic .Xor x y

def concat (x : ConcolicValue v) (y : ConcolicValue w) : ConcolicValue (v + w) :=
  binaryOperator (· ++ ·) ExprBuilder.concat x y

def bnot (x : ConcolicValue w) : ConcolicValue w :=
  unaryOperator (~~~ ·) ExprBuilder.not x

/-- `extract`; the range condition is asserted by `ExtractExpr::create`. -/
def extract (x : ConcolicValue v) (offset w : Nat) (h : offset + w ≤ v) : ConcolicValue w :=
  unaryOperator (·.extractLsb' offset w) (ExprBuilder.extract offset h) x

def sext (x : ConcolicValue v) (w : Nat) : ConcolicValue w :=
  unaryOperator (·.signExtend w) ExprBuilder.sext x

def zext (x : ConcolicValue v) (w : Nat) : ConcolicValue w :=
  unaryOperator (·.setWidth w) ExprBuilder.zext x

/-- `select`: a symbolic part is built only when the condition has one, whatever the two
expressions are. -/
def select (cond : ConcolicValue 1) (texpr fexpr : ConcolicValue w) : ConcolicValue w where
  concrete := if cond.concrete = 1#1 then texpr.concrete else fexpr.concrete
  symbolic := cond.symbolic.map fun c => ExprBuilder.select c texpr.toExpr fexpr.toExpr

/-! ## Values of the operators -/

variable (σ : Valuation)

variable {x : ConcolicValue w} {cond : ConcolicValue 1}

theorem value_of_symbolic {e : Expr w} (h : x.symbolic = some e) :
    x.value σ = e.eval σ := by
  simp [value, toExpr, h]

theorem value_of_concrete (h : x.symbolic = none) :
    x.value σ = x.concrete := by
  simp [value, toExpr, h, Expr.eval]

/-- A builder function that has the meaning of `op` makes a binary operator follow `op`. -/
theorem value_binaryOperator {op : BitVec u → BitVec v → BitVec w}
    {fn : Expr u → Expr v → Expr w}
    (hfn : ∀ l r, (fn l r).eval σ = op (l.eval σ) (r.eval σ))
    (x : ConcolicValue u) (y : ConcolicValue v) :
    (binaryOperator op fn x y).value σ = op (x.value σ) (y.value σ) := by
  by_cases h : x.symbolic.isSome || y.symbolic.isSome
  · rw [value_of_symbolic σ (e := fn x.toExpr y.toExpr) (by simp [binaryOperator, h]), hfn]
    rfl
  · have hx : x.symbolic = none := by simp_all
    have hy : y.symbolic = none := by simp_all
    rw [value_of_concrete σ (by simp [binaryOperator, hx, hy]), value_of_concrete σ hx,
      value_of_concrete σ hy]
    rfl

theorem value_unaryOperator {op : BitVec v → BitVec w} {fn : Expr v → Expr w}
    (hfn : ∀ e, (fn e).eval σ = op (e.eval σ)) (x : ConcolicValue v) :
    (unaryOperator op fn x).value σ = op (x.value σ) := by
  cases h : x.symbolic with
  | none =>
    rw [value_of_concrete σ h, value_of_concrete σ (by simp [unaryOperator, h])]
    rfl
  | some e =>
    rw [value_of_symbolic σ h, value_of_symbolic σ (e := fn e) (by simp [unaryOperator, h]), hfn]

@[simp] theorem value_arithmetic (kind : BinaryKind) (x y : ConcolicValue w) :
    (arithmetic kind x y).value σ = kind.apply (x.value σ) (y.value σ) :=
  value_binaryOperator σ (eval_ofBinary σ kind) x y

@[simp] theorem value_compare (kind : CmpKind) (x y : ConcolicValue v) :
    (compare kind x y).value σ = kind.apply (x.value σ) (y.value σ) :=
  value_binaryOperator σ (eval_ofCmp σ kind) x y

@[simp] theorem value_concat (x : ConcolicValue v) (y : ConcolicValue w) :
    (concat x y).value σ = x.value σ ++ y.value σ :=
  value_binaryOperator σ (eval_concat σ) x y

@[simp] theorem value_bnot (x : ConcolicValue w) : x.bnot.value σ = ~~~(x.value σ) :=
  value_unaryOperator σ (eval_not σ) x

@[simp] theorem value_extract (x : ConcolicValue v) (offset : Nat) (h : offset + w ≤ v) :
    (x.extract offset w h).value σ = (x.value σ).extractLsb' offset w :=
  value_unaryOperator σ (eval_extract σ offset h) x

@[simp] theorem value_sext (x : ConcolicValue v) :
    (x.sext w).value σ = (x.value σ).signExtend w :=
  value_unaryOperator σ (eval_sext σ) x

@[simp] theorem value_zext (x : ConcolicValue v) :
    (x.zext w).value σ = (x.value σ).setWidth w :=
  value_unaryOperator σ (eval_zext σ) x

/-- With a symbolic condition `select` follows all three operands. -/
theorem value_select_symbolic (hc : cond.symbolic ≠ none)
    (texpr fexpr : ConcolicValue w) :
    (select cond texpr fexpr).value σ =
      if cond.value σ = 1#1 then texpr.value σ else fexpr.value σ := by
  obtain ⟨c, hc⟩ := Option.ne_none_iff_exists'.mp hc
  rw [value_of_symbolic σ hc, value_of_symbolic σ (x := select cond texpr fexpr)
    (e := ExprBuilder.select c texpr.toExpr fexpr.toExpr) (by simp [select, hc]),
    eval_select]
  rfl

/-- With a concrete condition `select` yields the concrete part of the arm it picks. -/
theorem value_select_concrete (hc : cond.symbolic = none)
    (texpr fexpr : ConcolicValue w) :
    (select cond texpr fexpr).value σ =
      if cond.concrete = 1#1 then texpr.concrete else fexpr.concrete :=
  value_of_concrete σ (by simp [select, hc])

/-! ## Both parts at once -/

/-- The concrete part, or what the value denotes under an assignment. -/
def part (m : Option Valuation) (x : ConcolicValue w) : BitVec w :=
  m.elim x.concrete fun σ => x.value σ

variable (m : Option Valuation)

theorem part_of_concrete (h : x.symbolic = none) : x.part m = x.concrete := by
  cases m with
  | none => rfl
  | some σ => exact value_of_concrete σ h

@[simp] theorem part_arithmetic (kind : BinaryKind) (x y : ConcolicValue w) :
    (arithmetic kind x y).part m = kind.apply (x.part m) (y.part m) := by
  cases m with
  | none => rfl
  | some σ => exact value_arithmetic σ kind x y

@[simp] theorem part_compare (kind : CmpKind) (x y : ConcolicValue v) :
    (compare kind x y).part m = kind.apply (x.part m) (y.part m) := by
  cases m with
  | none => rfl
  | some σ => exact value_compare σ kind x y

@[simp] theorem part_extract (x : ConcolicValue v) (offset : Nat) (h : offset + w ≤ v) :
    (x.extract offset w h).part m = (x.part m).extractLsb' offset w := by
  cases m with
  | none => rfl
  | some σ => exact value_extract σ x offset h

@[simp] theorem part_sext (x : ConcolicValue v) :
    (x.sext w).part m = (x.part m).signExtend w := by
  cases m with
  | none => rfl
  | some σ => exact value_sext σ x

@[simp] theorem part_zext (x : ConcolicValue v) :
    (x.zext w).part m = (x.part m).setWidth w := by
  cases m with
  | none => rfl
  | some σ => exact value_zext σ x

@[simp] theorem part_concat (x : ConcolicValue v) (y : ConcolicValue w) :
    (concat x y).part m = x.part m ++ y.part m := by
  cases m with
  | none => rfl
  | some σ => exact value_concat σ x y

@[simp] theorem part_cast (h : v = w) (x : ConcolicValue v) :
    (x.cast h).part m = (x.part m).cast h := by
  subst h
  obtain ⟨concrete, symbolic⟩ := x
  cases symbolic <;> rfl

/-- `select` follows its operands when they are concrete as soon as the condition is. -/
theorem part_select {texpr fexpr : ConcolicValue w}
    (h : cond.symbolic = none → texpr.symbolic = none ∧ fexpr.symbolic = none) :
    (select cond texpr fexpr).part m =
      if cond.part m = 1#1 then texpr.part m else fexpr.part m := by
  cases m with
  | none => rfl
  | some σ =>
    by_cases hc : cond.symbolic = none
    · simp only [part, Option.elim_some, value_select_concrete σ hc, value_of_concrete σ hc,
        value_of_concrete σ (h hc).1, value_of_concrete σ (h hc).2]
    · exact value_select_symbolic σ hc texpr fexpr

theorem symbolic_arithmetic_eq_none {kind : BinaryKind} {y : ConcolicValue w} :
    (arithmetic kind x y).symbolic = none ↔ x.symbolic = none ∧ y.symbolic = none := by
  simp [arithmetic, binaryOperator]

theorem symbolic_compare_eq_none {kind : CmpKind} {x y : ConcolicValue v} :
    (compare kind x y).symbolic = none ↔ x.symbolic = none ∧ y.symbolic = none := by
  simp [compare, binaryOperator]

end ConcolicValue

/-! ## Compositions of operators -/

/-- A composition of concolic operators. Its inputs are arbitrary concolic values, concrete ones and
symbolic ones. -/
inductive Term : Nat → Type where
  | input {w : Nat} (x : ConcolicValue w) : Term w
  | arithmetic {w : Nat} (kind : BinaryKind) (left right : Term w) : Term w
  | compare {v : Nat} (kind : CmpKind) (left right : Term v) : Term 1
  | concat {v w : Nat} (left : Term v) (right : Term w) : Term (v + w)
  | bnot {w : Nat} (term : Term w) : Term w
  | extract {v : Nat} (offset w : Nat) (h : offset + w ≤ v) (term : Term v) : Term w
  | sext {v : Nat} (w : Nat) (term : Term v) : Term w
  | zext {v : Nat} (w : Nat) (term : Term v) : Term w
  | select {w : Nat} (cond : Term 1) (texpr fexpr : Term w) : Term w

namespace Term

variable {w : Nat}

/-- The value that the operators build. -/
def build : {w : Nat} → Term w → ConcolicValue w
  | _, .input x => x
  | _, .arithmetic kind left right => .arithmetic kind left.build right.build
  | _, .compare kind left right => .compare kind left.build right.build
  | _, .concat left right => .concat left.build right.build
  | _, .bnot term => term.build.bnot
  | _, .extract offset w h term => term.build.extract offset w h
  | _, .sext w term => term.build.sext w
  | _, .zext w term => term.build.zext w
  | _, .select cond texpr fexpr => .select cond.build texpr.build fexpr.build

/-- The bit-vector operation at the root of a composition, applied to the operands evaluated under
`σ`. -/
def applied (σ : Valuation) : {w : Nat} → Term w → BitVec w
  | _, .input x => x.value σ
  | _, .arithmetic kind left right => kind.apply (left.build.value σ) (right.build.value σ)
  | _, .compare kind left right => kind.apply (left.build.value σ) (right.build.value σ)
  | _, .concat left right => left.build.value σ ++ right.build.value σ
  | _, .bnot term => ~~~(term.build.value σ)
  | _, .extract offset w _ term => (term.build.value σ).extractLsb' offset w
  | _, .sext w term => (term.build.value σ).signExtend w
  | _, .zext w term => (term.build.value σ).setWidth w
  | _, .select cond texpr fexpr =>
    if cond.build.value σ = 1#1 then texpr.build.value σ else fexpr.build.value σ

/-- The meaning of the whole composition under `σ`, which builds no expression at all. -/
def denote (σ : Valuation) : {w : Nat} → Term w → BitVec w
  | _, .input x => x.value σ
  | _, .arithmetic kind left right => kind.apply (left.denote σ) (right.denote σ)
  | _, .compare kind left right => kind.apply (left.denote σ) (right.denote σ)
  | _, .concat left right => left.denote σ ++ right.denote σ
  | _, .bnot term => ~~~(term.denote σ)
  | _, .extract offset w _ term => (term.denote σ).extractLsb' offset w
  | _, .sext w term => (term.denote σ).signExtend w
  | _, .zext w term => (term.denote σ).setWidth w
  | _, .select cond texpr fexpr =>
    if cond.denote σ = 1#1 then texpr.denote σ else fexpr.denote σ

/-- `P` holds at every node of a composition. -/
def Everywhere (P : ∀ {w : Nat}, Term w → Prop) : {w : Nat} → Term w → Prop
  | _, .input x => P (.input x)
  | _, .arithmetic kind left right =>
    P (.arithmetic kind left right) ∧ left.Everywhere P ∧ right.Everywhere P
  | _, .compare kind left right =>
    P (.compare kind left right) ∧ left.Everywhere P ∧ right.Everywhere P
  | _, .concat left right => P (.concat left right) ∧ left.Everywhere P ∧ right.Everywhere P
  | _, .bnot term => P (.bnot term) ∧ term.Everywhere P
  | _, .extract offset w h term => P (.extract offset w h term) ∧ term.Everywhere P
  | _, .sext w term => P (.sext w term) ∧ term.Everywhere P
  | _, .zext w term => P (.zext w term) ∧ term.Everywhere P
  | _, .select cond texpr fexpr =>
    P (.select cond texpr fexpr) ∧
      cond.Everywhere P ∧ texpr.Everywhere P ∧ fexpr.Everywhere P

/-- The assignment gives every input of the composition its concrete value. -/
def InputsAgree (σ : Valuation) (t : Term w) : Prop :=
  t.Everywhere fun s => match s with
    | .input x => x.Agrees σ
    | _ => True

/-- The root is not a `select` that forgets: its condition has a symbolic part, or the arm that the
concrete condition picks keeps its concrete value under every assignment. -/
def SelectFollows : {w : Nat} → Term w → Prop
  | _, .select cond texpr fexpr =>
    cond.build.symbolic ≠ none ∨
      ∀ σ, (if cond.build.concrete = 1#1 then texpr.build else fexpr.build).Agrees σ
  | _, _ => True

/-- Equivalent conditions at the nodes are equivalent everywhere. -/
theorem everywhere_congr {P Q : ∀ {w : Nat}, Term w → Prop}
    (h : ∀ {w : Nat} (s : Term w), P s ↔ Q s) (t : Term w) :
    t.Everywhere P ↔ t.Everywhere Q := by
  induction t with
  | input x => exact h _
  | arithmetic kind left right ihl ihr | compare kind left right ihl ihr
  | concat left right ihl ihr => simp only [Everywhere, h, ihl, ihr]
  | bnot term ih | extract offset w hw term ih | sext w term ih | zext w term ih =>
    simp only [Everywhere, h, ih]
  | select cond texpr fexpr ihc iht ihf => simp only [Everywhere, h, ihc, iht, ihf]

/-- The root operation follows its operands exactly when it is no forgetting `select`. -/
theorem value_eq_applied_iff (t : Term w) :
    (∀ σ, t.build.value σ = t.applied σ) ↔ t.SelectFollows := by
  cases t with
  | select cond texpr fexpr =>
    simp only [build, applied, SelectFollows]
    cases hc : cond.build.symbolic with
    | some c =>
      have hne : cond.build.symbolic ≠ none := by simp [hc]
      simpa using fun σ => ConcolicValue.value_select_symbolic σ hne texpr.build fexpr.build
    | none =>
      -- the condition keeps its value, so the arm is fixed and only its symbolic part is at
      -- stake
      simp only [ne_eq, not_true_eq_false, false_or, ConcolicValue.value_of_concrete _ hc,
        ConcolicValue.value_select_concrete _ hc, ConcolicValue.Agrees]
      split <;> exact forall_congr' fun σ => eq_comm
  | _ => simp [build, applied, SelectFollows]

/-- A composition that follows its operands at every node has the meaning of its operations. -/
theorem value_eq_denote {t : Term w}
    (h : t.Everywhere fun s => ∀ σ, s.build.value σ = s.applied σ) (σ : Valuation) :
    t.build.value σ = t.denote σ := by
  induction t with
  | input x => rfl
  | arithmetic kind left right ihl ihr | compare kind left right ihl ihr
  | concat left right ihl ihr =>
    rw [h.1 σ, applied, denote, ihl h.2.1, ihr h.2.2]
  | bnot term ih | extract offset w hw term ih | sext w term ih | zext w term ih =>
    rw [h.1 σ, applied, denote, ih h.2]
  | select cond texpr fexpr ihc iht ihf =>
    rw [h.1 σ, applied, denote, ihc h.2.1, iht h.2.2.1, ihf h.2.2.2]

/-- Under an assignment that agrees with the concrete inputs the symbolic part evaluates to the
concrete part, whatever the operators keep. -/
theorem build_agrees {t : Term w} {σ : Valuation} (h : t.InputsAgree σ) : t.build.Agrees σ := by
  induction t with
  | input x => exact h
  | arithmetic kind left right ihl ihr | compare kind left right ihl ihr
  | concat left right ihl ihr =>
    have hl := ihl h.2.1
    have hr := ihr h.2.2
    simp only [ConcolicValue.Agrees] at hl hr ⊢
    simp [build, hl, hr]
    rfl
  | bnot term ih | extract offset w hw term ih | sext w term ih | zext w term ih =>
    have ht := ih h.2
    simp only [ConcolicValue.Agrees] at ht ⊢
    simp [build, ht]
    rfl
  | select cond texpr fexpr ihc iht ihf =>
    have hc := ihc h.2.1
    have ht := iht h.2.2.1
    have hf := ihf h.2.2.2
    cases hs : cond.build.symbolic with
    | none => exact ConcolicValue.value_select_concrete σ hs _ _
    | some c =>
      have hne : cond.build.symbolic ≠ none := by simp [hs]
      simp only [ConcolicValue.Agrees] at hc ht hf ⊢
      rw [build, ConcolicValue.value_select_symbolic σ hne, hc, ht, hf]
      rfl

/-- For every composition: each node follows its operands under every assignment, the whole has the
meaning of its operations, and under an agreeing assignment the symbolic part evaluates to the
concrete part, exactly when no `select` in it forgets. -/
theorem keeps_dependence_iff (t : Term w) :
    ((t.Everywhere fun s => ∀ σ, s.build.value σ = s.applied σ) ∧
      (∀ σ, t.build.value σ = t.denote σ) ∧
      ∀ σ, t.InputsAgree σ → t.build.Agrees σ) ↔
    t.Everywhere SelectFollows := by
  have hnodes := everywhere_congr value_eq_applied_iff t
  constructor
  · intro h
    exact hnodes.mp h.1
  · intro h
    exact ⟨hnodes.mpr h, value_eq_denote (hnodes.mpr h), fun σ => build_agrees⟩

/-- A `select` whose condition is concretely true, over a symbolic byte whose concrete value is
zero. -/
def forgettingSelect : Term 8 :=
  .select (.input ⟨1#1, none⟩)
    (.input ⟨0#8, some (Expr.createTempReadByte "x")⟩)
    (.input ⟨0#8, none⟩)

/-- Under the assignment that sets the byte to one, the selected value still evaluates to zero while
the operand evaluates to one. -/
theorem forgettingSelect_forgets :
    let σ : Valuation := fun _ _ => 1#8
    forgettingSelect.build.value σ = 0#8 ∧ forgettingSelect.applied σ = 1#8 := by
  decide

end Term

end SpsVp.Clover
