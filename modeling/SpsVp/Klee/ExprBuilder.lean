import Mathlib.Tactic.Linarith
import Mathlib.Tactic.Ring
import SpsVp.Klee.Expr

/-!
# KLEE's simplifying expression builder

`clover::Solver` builds every expression through the chain `SimplifyingExprBuilder` over
`ConstantFoldingExprBuilder` over `DefaultExprBuilder` of `klee/lib/Expr/ExprBuilder.cpp`. The
default builder allocates the expression as it is. The two others rewrite it first, and the results
`eval_ofBinary` to `eval_select` below say that no rewriting changes the meaning.

The folding of sums and differences calls itself on rewritten operands. Its rules are collected in
`foldRule`, one line for each rule of the source, and `fold` runs them with a bound on the number of
nested calls; `folds_iff` shows that the recursion ends within it.
-/

namespace SpsVp.Klee

/-- The two operators that `ConstantFoldingBuilder` rewrites into each other. -/
inductive SumKind where
  | add | sub
deriving DecidableEq, Repr

/-- The arithmetic kind of a sum or difference. -/
def SumKind.toBinary : SumKind → BinaryKind
  | .add => .Add
  | .sub => .Sub

/-- What a rule of `ConstantFoldingBuilder` asks for: an expression as it stands, one call of the
builder, or a call whose right operand is itself built by a call. -/
inductive FoldRule (w : Nat) where
  | done (result : Expr w)
  | call (kind : SumKind) (left right : Expr w)
  | nest (kind : SumKind) (left : Expr w) (inner : SumKind) (innerLeft innerRight : Expr w)

namespace ConstantFoldingBuilder

variable {w : Nat}

/-- `Add` of a constant and a non-constant operand. -/
def addConstant (c : BitVec w) (right : Expr w) : FoldRule w :=
  -- 0 + X ==> X
  if c = 0 then .done right
  else match right with
  -- C_0 + (C_1 + X) ==> (C_0 + C1) + X, and the same with the operands swapped
  | .Binary .Add (.Constant d) x => .call .add (.Constant (c + d)) x
  | .Binary .Add x (.Constant d) => .call .add (.Constant (c + d)) x
  -- C_0 + (C_1 - X) ==> (C_0 + C1) - X
  | .Binary .Sub (.Constant d) x => .call .sub (.Constant (c + d)) x
  -- C_0 + (X - C_1) ==> (C_0 - C1) + X
  | .Binary .Sub x (.Constant d) => .call .add (.Constant (c - d)) x
  | _ => .done (.Binary .Add (.Constant c) right)

/-- `Sub` of a non-constant operand from a constant. -/
def subConstant (c : BitVec w) : Expr w → FoldRule w
  | .Binary .Add (.Constant d) x => .call .sub (.Constant (c - d)) x
  | .Binary .Add x (.Constant d) => .call .sub (.Constant (c - d)) x
  | .Binary .Sub (.Constant d) x => .call .add (.Constant (c - d)) x
  | .Binary .Sub x (.Constant d) => .call .sub (.Constant (c + d)) x
  | right => .done (.Binary .Sub (.Constant c) right)

/-- `Add` of two operands. -/
def addRule : Expr w → Expr w → FoldRule w
  | .Constant c, .Constant d => .done (.Constant (c + d))
  | .Constant c, right => addConstant c right
  | left, .Constant c => addConstant c left
  -- (X + Y) + Z ==> X + (Y + Z)
  | .Binary .Add x y, right => .nest .add x .add y right
  -- (X - Y) + Z ==> X + (Z - Y)
  | .Binary .Sub x y, right => .nest .add x .sub right y
  -- X + (C_0 + Y) ==> C_0 + (X + Y), and the same with the inner operands swapped
  | left, .Binary .Add (.Constant c) y => .nest .add (.Constant c) .add left y
  | left, .Binary .Add y (.Constant c) => .nest .add (.Constant c) .add left y
  -- X + (C_0 - Y) ==> C_0 + (X - Y)
  | left, .Binary .Sub (.Constant c) y => .nest .add (.Constant c) .sub left y
  -- X + (Y - C_0) ==> -C_0 + (X + Y)
  | left, .Binary .Sub y (.Constant c) => .nest .add (.Constant (-c)) .add left y
  | left, right => .done (.Binary .Add left right)

/-- `Sub` of two operands. -/
def subRule : Expr w → Expr w → FoldRule w
  | .Constant c, .Constant d => .done (.Constant (c - d))
  | .Constant c, right => subConstant c right
  -- X - C_0 ==> -C_0 + X
  | left, .Constant c => addConstant (-c) left
  -- (X + Y) - Z ==> X + (Y - Z)
  | .Binary .Add x y, right => .nest .add x .sub y right
  -- (X - Y) - Z ==> X - (Y + Z)
  | .Binary .Sub x y, right => .nest .sub x .add y right
  -- X - (C + Y) ==> -C + (X - Y), and the same with the inner operands swapped
  | left, .Binary .Add (.Constant c) y => .nest .add (.Constant (-c)) .sub left y
  | left, .Binary .Add y (.Constant c) => .nest .add (.Constant (-c)) .sub left y
  -- X - (C - Y) ==> -C + (X + Y)
  | left, .Binary .Sub (.Constant c) y => .nest .add (.Constant (-c)) .add left y
  -- X - (Y - C) ==> C + (X - Y)
  | left, .Binary .Sub y (.Constant c) => .nest .add (.Constant c) .sub left y
  | left, right => .done (.Binary .Sub left right)

/-- The rule that `Add` or `Sub` applies to its operands. -/
def foldRule : SumKind → Expr w → Expr w → FoldRule w
  | .add => addRule
  | .sub => subRule

/-- Apply the rules with at most `fuel` nested calls. -/
def foldWith : Nat → SumKind → Expr w → Expr w → Expr w
  | 0, kind, left, right => .Binary kind.toBinary left right
  | fuel + 1, kind, left, right =>
    match foldRule kind left right with
    | .done result => result
    | .call kind left right => foldWith fuel kind left right
    | .nest kind left inner innerLeft innerRight =>
      foldWith fuel kind left (foldWith fuel inner innerLeft innerRight)

/-- Bound on the nested calls from two operands: a call decreases the joint size, or keeps it and
decreases the left operand. -/
def foldBound (left right : Expr w) : Nat :=
  (left.size + right.size) * (left.size + right.size) + left.size

/-- `Add` and `Sub` of the constant-folding builder. -/
def fold (kind : SumKind) (left right : Expr w) : Expr w :=
  foldWith (foldBound left right + 1) kind left right

/-! ## The rules preserve the meaning -/

/-- The meaning of the calls that a rule asks for. -/
def FoldRule.value (σ : Valuation) : FoldRule w → BitVec w
  | .done result => result.eval σ
  | .call kind left right => kind.toBinary.apply (left.eval σ) (right.eval σ)
  | .nest kind left inner innerLeft innerRight =>
    kind.toBinary.apply (left.eval σ)
      (inner.toBinary.apply (innerLeft.eval σ) (innerRight.eval σ))

variable (σ : Valuation)

@[simp] theorem value_done (result : Expr w) :
    FoldRule.value σ (.done result) = result.eval σ := rfl

@[simp] theorem value_call (kind : SumKind) (left right : Expr w) :
    FoldRule.value σ (.call kind left right) =
      kind.toBinary.apply (left.eval σ) (right.eval σ) := rfl

@[simp] theorem value_nest (kind inner : SumKind) (left innerLeft innerRight : Expr w) :
    FoldRule.value σ (.nest kind left inner innerLeft innerRight) =
      kind.toBinary.apply (left.eval σ)
        (inner.toBinary.apply (innerLeft.eval σ) (innerRight.eval σ)) := rfl

theorem addConstant_value (c : BitVec w) (right : Expr w) :
    FoldRule.value σ (addConstant c right) = c + right.eval σ := by
  unfold addConstant
  split
  · rename_i hc
    simp [hc]
  · split <;> simp only [value_done, value_call, SumKind.toBinary, BinaryKind.apply, Expr.eval] <;>
      ring

theorem subConstant_value (c : BitVec w) (right : Expr w) :
    FoldRule.value σ (subConstant c right) = c - right.eval σ := by
  unfold subConstant
  split <;> simp only [value_done, value_call, SumKind.toBinary, BinaryKind.apply, Expr.eval] <;>
    ring

theorem addRule_value (left right : Expr w) :
    FoldRule.value σ (addRule left right) = left.eval σ + right.eval σ := by
  unfold addRule
  split <;> simp only [addConstant_value, value_done, value_nest, SumKind.toBinary,
    BinaryKind.apply, Expr.eval] <;> ring

theorem subRule_value (left right : Expr w) :
    FoldRule.value σ (subRule left right) = left.eval σ - right.eval σ := by
  unfold subRule
  split <;> simp only [addConstant_value, subConstant_value, value_done, value_nest,
    SumKind.toBinary, BinaryKind.apply, Expr.eval] <;> ring

/-- Every rule of the constant-folding builder preserves the meaning. -/
theorem foldRule_value (kind : SumKind) (left right : Expr w) :
    FoldRule.value σ (foldRule kind left right) =
      kind.toBinary.apply (left.eval σ) (right.eval σ) := by
  cases kind with
  | add => exact addRule_value σ left right
  | sub => exact subRule_value σ left right

/-- Folding preserves the meaning, however many nested calls are allowed. -/
theorem eval_foldWith (fuel : Nat) (kind : SumKind) (left right : Expr w) :
    (foldWith fuel kind left right).eval σ =
      kind.toBinary.apply (left.eval σ) (right.eval σ) := by
  induction fuel generalizing kind left right with
  | zero => rfl
  | succ fuel ih =>
    rw [← foldRule_value σ kind left right]
    unfold foldWith
    cases foldRule kind left right with
    | done result => rfl
    | call kind left right => exact ih kind left right
    | nest kind left inner innerLeft innerRight =>
      simp only [ih, FoldRule.value]

/-! ## The bound on nested calls is never met -/

/-- What a rule guarantees about its calls: an expression as it stands is at most one node larger
than the operands, and calls shrink the operands. -/
def Shrinks (left right : Expr w) : FoldRule w → Prop
  | .done result => result.size ≤ left.size + right.size + 1
  | .call _ l r => l.size + r.size < left.size + right.size
  | .nest _ l _ innerLeft innerRight =>
    l.size + (innerLeft.size + innerRight.size + 1) ≤ left.size + right.size ∧
      l.size < left.size

/-- Only constants have size one. -/
theorem two_le_size (e : Expr w) (h : ∀ c, e = .Constant c → False) : 2 ≤ e.size := by
  cases e with
  | Constant c => exact (h c rfl).elim
  | Read => exact le_rfl
  | Extract _ _ e | ZExt e | SExt e | Not e => exact Nat.succ_le_succ e.size_pos
  | Concat _ l r | Binary _ l r | Compare _ _ l r | Select _ l r =>
    have := l.size_pos
    simp only [Expr.size]
    omega

variable {left right : Expr w}

theorem addConstant_shrinks (c : BitVec w) (e : Expr w)
    (h : e.size + 1 ≤ left.size + right.size) : Shrinks left right (addConstant c e) := by
  unfold addConstant
  split
  · simp only [Shrinks]
    omega
  · split <;> simp only [Shrinks, Expr.size] at h ⊢ <;> omega

theorem subConstant_shrinks (c : BitVec w) (e : Expr w)
    (h : e.size + 1 ≤ left.size + right.size) : Shrinks left right (subConstant c e) := by
  unfold subConstant
  split <;> simp only [Shrinks, Expr.size] at h ⊢ <;> omega

theorem addRule_shrinks (left right : Expr w) : Shrinks left right (addRule left right) := by
  unfold addRule
  split
  case h_1 => simp [Shrinks, Expr.size]
  case h_2 c _ => exact addConstant_shrinks c right (by simp only [Expr.size]; omega)
  case h_3 c _ => exact addConstant_shrinks c left (by simp [Expr.size])
  case h_4 x y _ | h_5 x y _ =>
      have := y.size_pos
      simp only [Shrinks, Expr.size]
      omega
  case h_6 | h_7 | h_8 | h_9 =>
      have := two_le_size left ‹_›
      simp only [Shrinks, Expr.size]
      omega
  case h_10 => exact le_rfl

theorem subRule_shrinks (left right : Expr w) : Shrinks left right (subRule left right) := by
  unfold subRule
  split
  case h_1 => simp [Shrinks, Expr.size]
  case h_2 c _ => exact subConstant_shrinks c right (by simp only [Expr.size]; omega)
  case h_3 c _ => exact addConstant_shrinks (-c) left (by simp [Expr.size])
  case h_4 x y _ | h_5 x y _ =>
      have := y.size_pos
      simp only [Shrinks, Expr.size]
      omega
  case h_6 | h_7 | h_8 | h_9 =>
      have := two_le_size left ‹_›
      simp only [Shrinks, Expr.size]
      omega
  case h_10 => exact le_rfl

theorem foldRule_shrinks (kind : SumKind) (left right : Expr w) :
    Shrinks left right (foldRule kind left right) := by
  cases kind with
  | add => exact addRule_shrinks left right
  | sub => exact subRule_shrinks left right

/-- Folding adds at most one node to its operands. -/
theorem size_foldWith_le (fuel : Nat) (kind : SumKind) (left right : Expr w) :
    (foldWith fuel kind left right).size ≤ left.size + right.size + 1 := by
  induction fuel generalizing kind left right with
  | zero => exact le_rfl
  | succ fuel ih =>
    have hrule := foldRule_shrinks kind left right
    unfold foldWith
    cases h : foldRule kind left right with
    | done result => simpa [h, Shrinks] using hrule
    | call k l r =>
      simp only [h, Shrinks] at hrule
      have hcall := ih k l r
      simp only
      omega
    | nest k l inner innerLeft innerRight =>
      simp only [h, Shrinks] at hrule
      have hinner := ih inner innerLeft innerRight
      have houter := ih k l (foldWith fuel inner innerLeft innerRight)
      simp only
      omega

/-- Smaller operands have a smaller bound. -/
theorem foldBound_lt_of_sum_lt {l r : Expr w}
    (h : l.size + r.size < left.size + right.size) : foldBound l r < foldBound left right := by
  unfold foldBound
  nlinarith [l.size_pos, r.size_pos, left.size_pos]

/-- A smaller left operand has a smaller bound when the joint size does not grow. -/
theorem foldBound_lt_of_left_lt {l r : Expr w}
    (hsum : l.size + r.size ≤ left.size + right.size) (hleft : l.size < left.size) :
    foldBound l r < foldBound left right := by
  unfold foldBound
  have := Nat.mul_le_mul hsum hsum
  omega

/-- The recursion of the source: a call ends with a result when the calls of its rule do. -/
inductive Folds : SumKind → Expr w → Expr w → Expr w → Prop where
  | done {kind : SumKind} {left right result : Expr w}
      (hrule : foldRule kind left right = .done result) : Folds kind left right result
  | call {kind k : SumKind} {left right l r result : Expr w}
      (hrule : foldRule kind left right = .call k l r) (h : Folds k l r result) :
      Folds kind left right result
  | nest {kind k inner : SumKind} {left right l innerLeft innerRight r result : Expr w}
      (hrule : foldRule kind left right = .nest k l inner innerLeft innerRight)
      (hinner : Folds inner innerLeft innerRight r) (h : Folds k l r result) :
      Folds kind left right result

/-- A call has one result. -/
theorem Folds.unique {kind : SumKind} {left right a b : Expr w} (ha : Folds kind left right a)
    (hb : Folds kind left right b) : b = a := by
  induction ha generalizing b with
  | done hrule =>
    cases hb with
    | done hrule' => exact (FoldRule.done.inj (hrule.symm.trans hrule')).symm
    | call hrule' | nest hrule' => cases hrule.symm.trans hrule'
  | call hrule _ ih =>
    cases hb with
    | done hrule' | nest hrule' => cases hrule.symm.trans hrule'
    | call hrule' h =>
      cases hrule.symm.trans hrule'
      exact ih h
  | nest hrule _ _ ihinner ih =>
    cases hb with
    | done hrule' | call hrule' => cases hrule.symm.trans hrule'
    | nest hrule' hinner h =>
      cases hrule.symm.trans hrule'
      cases ihinner hinner
      exact ih h

/-- With more nested calls than the bound the recursion comes to its end. -/
theorem foldWith_folds {fuel : Nat} (kind : SumKind) (left right : Expr w)
    (hfuel : foldBound left right < fuel) :
    Folds kind left right (foldWith fuel kind left right) := by
  induction fuel generalizing kind left right with
  | zero => omega
  | succ fuel ih =>
    have hrule := foldRule_shrinks kind left right
    unfold foldWith
    cases h : foldRule kind left right with
    | done result => exact .done h
    | call k l r =>
      simp only [h, Shrinks] at hrule
      have hbound := foldBound_lt_of_sum_lt hrule
      exact .call h (ih k l r (by omega))
    | nest k l inner innerLeft innerRight =>
      simp only [h, Shrinks] at hrule
      have hinner : foldBound innerLeft innerRight < foldBound left right :=
        foldBound_lt_of_sum_lt (by omega)
      have hsize := size_foldWith_le fuel inner innerLeft innerRight
      have houter : foldBound l (foldWith fuel inner innerLeft innerRight) <
          foldBound left right :=
        foldBound_lt_of_left_lt (by omega) hrule.2
      exact .nest h (ih inner innerLeft innerRight (by omega)) (ih k l _ (by omega))

/-- The recursion of the source ends for all operands, with `fold` as its only result. -/
theorem folds_iff {w : Nat} (kind : SumKind) (left right result : Expr w) :
    Folds kind left right result ↔ result = fold kind left right := by
  have hfold : Folds kind left right (fold kind left right) :=
    foldWith_folds kind left right (Nat.lt_succ_self _)
  constructor
  · exact hfold.unique
  · rintro rfl
    exact hfold

/-! ## The remaining operators -/

/-- `Mul`: a constant zero or one is absorbed. -/
def mul : Expr w → Expr w → Expr w
  | .Constant c, .Constant d => .Constant (c * d)
  | .Constant c, right => mulConstant c right
  | left, .Constant c => mulConstant c left
  | left, right => .Binary .Mul left right
where
  mulConstant (c : BitVec w) (right : Expr w) : Expr w :=
    if c = 0 then .Constant c
    else if c.toNat = 1 then right
    else .Binary .Mul (.Constant c) right

/-- `And`: a constant zero or all-ones is absorbed. -/
def and : Expr w → Expr w → Expr w
  | .Constant c, .Constant d => .Constant (c &&& d)
  | .Constant c, right => andConstant c right
  | left, .Constant c => andConstant c left
  | left, right => .Binary .And left right
where
  andConstant (c : BitVec w) (right : Expr w) : Expr w :=
    if c = 0 then .Constant c
    else if c = BitVec.allOnes w then right
    else .Binary .And (.Constant c) right

/-- `Or`: a constant zero or all-ones is absorbed. -/
def or : Expr w → Expr w → Expr w
  | .Constant c, .Constant d => .Constant (c ||| d)
  | .Constant c, right => orConstant c right
  | left, .Constant c => orConstant c left
  | left, right => .Binary .Or left right
where
  orConstant (c : BitVec w) (right : Expr w) : Expr w :=
    if c = 0 then right
    else if c = BitVec.allOnes w then .Constant c
    else .Binary .Or (.Constant c) right

/-- `Xor`: a constant zero is absorbed. -/
def xor : Expr w → Expr w → Expr w
  | .Constant c, .Constant d => .Constant (c ^^^ d)
  | .Constant c, right => xorConstant c right
  | left, .Constant c => xorConstant c left
  | left, right => .Binary .Xor left right
where
  xorConstant (c : BitVec w) (right : Expr w) : Expr w :=
    if c = 0 then right else .Binary .Xor (.Constant c) right

/-- `Not`: a double negation and a constant are folded. -/
def not : Expr w → Expr w
  | .Not expr => expr
  | .Constant c => .Constant (~~~c)
  | expr => .Not expr

theorem eval_fold (kind : SumKind) (left right : Expr w) :
    (fold kind left right).eval σ = kind.toBinary.apply (left.eval σ) (right.eval σ) :=
  eval_foldWith σ _ kind left right

theorem eval_mul (left right : Expr w) :
    (mul left right).eval σ = left.eval σ * right.eval σ := by
  have hconst : ∀ (c : BitVec w) (e : Expr w),
      (mul.mulConstant c e).eval σ = c * e.eval σ := by
    intro c e
    unfold mul.mulConstant
    split
    · rename_i hc
      simp [Expr.eval, hc]
    · split
      · rename_i hc
        have hone : c = 1#w := BitVec.eq_of_toNat_eq (by
          have hlt := c.isLt
          rw [hc] at hlt
          simp [hc, Nat.mod_eq_of_lt hlt])
        simp [hone]
      · rfl
  unfold mul
  split
  · rfl
  · exact hconst _ _
  · rw [hconst, BitVec.mul_comm]
    rfl
  · rfl

theorem eval_and (left right : Expr w) :
    (and left right).eval σ = left.eval σ &&& right.eval σ := by
  have hconst : ∀ (c : BitVec w) (e : Expr w),
      (and.andConstant c e).eval σ = c &&& e.eval σ := by
    intro c e
    unfold and.andConstant
    split_ifs with hzero hones
    · simp [Expr.eval, hzero]
    · simp [hones]
    · rfl
  unfold and
  split
  · rfl
  · exact hconst _ _
  · rw [hconst, BitVec.and_comm]
    rfl
  · rfl

theorem eval_or (left right : Expr w) :
    (or left right).eval σ = left.eval σ ||| right.eval σ := by
  have hconst : ∀ (c : BitVec w) (e : Expr w),
      (or.orConstant c e).eval σ = c ||| e.eval σ := by
    intro c e
    unfold or.orConstant
    split_ifs with hzero hones
    · simp [hzero]
    · simp [Expr.eval, hones]
    · rfl
  unfold or
  split
  · rfl
  · exact hconst _ _
  · rw [hconst, BitVec.or_comm]
    rfl
  · rfl

theorem eval_xor (left right : Expr w) :
    (xor left right).eval σ = left.eval σ ^^^ right.eval σ := by
  have hconst : ∀ (c : BitVec w) (e : Expr w),
      (xor.xorConstant c e).eval σ = c ^^^ e.eval σ := by
    intro c e
    unfold xor.xorConstant
    split_ifs with hzero
    · simp [hzero]
    · rfl
  unfold xor
  split
  · rfl
  · exact hconst _ _
  · rw [hconst, BitVec.xor_comm]
    rfl
  · rfl

theorem eval_not (expr : Expr w) : (not expr).eval σ = ~~~(expr.eval σ) := by
  unfold not
  split <;> simp [Expr.eval]

end ConstantFoldingBuilder

/-! ## The builder chain of `clover::Solver` -/

namespace ExprBuilder

variable {v w : Nat}

/-- An operator that no builder of the chain rewrites: two constants are folded, anything else is
allocated as it is. -/
def binary (kind : BinaryKind) : Expr w → Expr w → Expr w
  | .Constant c, .Constant d => .Constant (kind.apply c d)
  | left, right => .Binary kind left right

/-- A comparison that no builder of the chain rewrites. -/
def compare (kind : CmpKind) : Expr v → Expr v → Expr 1
  | .Constant c, .Constant d => .Constant (kind.apply c d)
  | left, right => .comparison kind left right

def add (left right : Expr w) : Expr w := ConstantFoldingBuilder.fold .add left right
def sub (left right : Expr w) : Expr w := ConstantFoldingBuilder.fold .sub left right
def mul (left right : Expr w) : Expr w := ConstantFoldingBuilder.mul left right
def udiv (left right : Expr w) : Expr w := binary .UDiv left right
def sdiv (left right : Expr w) : Expr w := binary .SDiv left right
def urem (left right : Expr w) : Expr w := binary .URem left right
def srem (left right : Expr w) : Expr w := binary .SRem left right
def and (left right : Expr w) : Expr w := ConstantFoldingBuilder.and left right
def or (left right : Expr w) : Expr w := ConstantFoldingBuilder.or left right
def xor (left right : Expr w) : Expr w := ConstantFoldingBuilder.xor left right
def shl (left right : Expr w) : Expr w := binary .Shl left right
def lshr (left right : Expr w) : Expr w := binary .LShr left right
def ashr (left right : Expr w) : Expr w := binary .AShr left right

/-- `Not`: besides the folding of the base builder, !(a or b) ==> !a and !b. -/
def not : Expr w → Expr w
  | .Binary .Or left right => ExprBuilder.and (not left) (not right)
  | expr => ConstantFoldingBuilder.not expr

/-- `Eq`: a comparison with a constant of width one is the other operand or its negation, and two
structurally equal operands are equal. -/
def eq : Expr v → Expr v → Expr 1
  | .Constant c, .Constant d => .Constant (CmpKind.Eq.apply c d)
  | .Constant c, right => eqConstant c right
  | left, .Constant c => eqConstant c left
  | left, right => if left = right then .Constant 1#1 else .comparison .Eq left right
where
  eqConstant (c : BitVec v) (right : Expr v) : Expr 1 :=
    if h : v = 1 then
      -- true == X ==> X, false == X ==> !X
      if c.toNat = 1 then h ▸ right else ConstantFoldingBuilder.not (h ▸ right)
    else .comparison .Eq (.Constant c) right

/-- `Ne`: X != Y ==> !(X == Y). -/
def ne : Expr v → Expr v → Expr 1
  | .Constant c, .Constant d => .Constant (CmpKind.Ne.apply c d)
  | left, right => ExprBuilder.not (ExprBuilder.eq left right)

def ult (left right : Expr v) : Expr 1 := compare .Ult left right
def ule (left right : Expr v) : Expr 1 := compare .Ule left right
def slt (left right : Expr v) : Expr 1 := compare .Slt left right
def sle (left right : Expr v) : Expr 1 := compare .Sle left right

/-- `Uge`: X u>= Y ==> Y u<= X. -/
def uge : Expr v → Expr v → Expr 1
  | .Constant c, .Constant d => .Constant (CmpKind.Uge.apply c d)
  | left, right => ExprBuilder.ule right left

/-- `Ugt`: X u> Y ==> Y u< X. -/
def ugt : Expr v → Expr v → Expr 1
  | .Constant c, .Constant d => .Constant (CmpKind.Ugt.apply c d)
  | left, right => ExprBuilder.ult right left

/-- `Sge`: X s>= Y ==> Y s<= X. -/
def sge : Expr v → Expr v → Expr 1
  | .Constant c, .Constant d => .Constant (CmpKind.Sge.apply c d)
  | left, right => ExprBuilder.sle right left

/-- `Sgt`: X s> Y ==> Y s< X. -/
def sgt : Expr v → Expr v → Expr 1
  | .Constant c, .Constant d => .Constant (CmpKind.Sgt.apply c d)
  | left, right => ExprBuilder.slt right left

/-- `Concat`: two constants are folded by shifting the left one, as `ConstantExpr::Concat` does. -/
def concat : Expr v → Expr w → Expr (v + w)
  | .Constant c, .Constant d =>
    .Constant (c.setWidth (v + w) <<< w ||| d.setWidth (v + w))
  | left, right => .Concat rfl left right

/-- `Extract`: `ConstantExpr::Extract` shifts arithmetically and truncates. -/
def extract (offset : Nat) (h : offset + w ≤ v) : Expr v → Expr w
  | .Constant c => .Constant ((c.sshiftRight offset).setWidth w)
  | expr => .Extract offset h expr

def zext : Expr v → Expr w
  | .Constant c => .Constant (c.setWidth w)
  | src => .ZExt src

def sext : Expr v → Expr w
  | .Constant c => .Constant (c.signExtend w)
  | src => .SExt src

/-- `Select`: a constant condition picks its branch. -/
def select (cond : Expr 1) (trueExpr falseExpr : Expr w) : Expr w :=
  match cond with
  | .Constant c => if c = 1#1 then trueExpr else falseExpr
  | cond => .Select cond trueExpr falseExpr

/-- The builder function of an arithmetic kind. -/
def ofBinary : BinaryKind → Expr w → Expr w → Expr w
  | .Add => add
  | .Sub => sub
  | .Mul => mul
  | .UDiv => udiv
  | .SDiv => sdiv
  | .URem => urem
  | .SRem => srem
  | .And => and
  | .Or => or
  | .Xor => xor
  | .Shl => shl
  | .LShr => lshr
  | .AShr => ashr

/-- The builder function of a comparison kind. -/
def ofCmp : CmpKind → Expr v → Expr v → Expr 1
  | .Eq => eq
  | .Ne => ne
  | .Ult => ult
  | .Ule => ule
  | .Ugt => ugt
  | .Uge => uge
  | .Slt => slt
  | .Sle => sle
  | .Sgt => sgt
  | .Sge => sge

/-! ## The chain preserves the meaning -/

variable (σ : Valuation)

theorem eval_binary (kind : BinaryKind) (left right : Expr w) :
    (binary kind left right).eval σ = kind.apply (left.eval σ) (right.eval σ) := by
  unfold binary
  split <;> rfl

theorem eval_compare (kind : CmpKind) (left right : Expr v) :
    (compare kind left right).eval σ = kind.apply (left.eval σ) (right.eval σ) := by
  unfold compare
  split <;> rfl

/-- Every arithmetic function of the builder has the meaning of its kind. -/
@[simp] theorem eval_ofBinary (kind : BinaryKind) (left right : Expr w) :
    (ofBinary kind left right).eval σ = kind.apply (left.eval σ) (right.eval σ) := by
  cases kind with
  | Add => exact ConstantFoldingBuilder.eval_fold σ .add left right
  | Sub => exact ConstantFoldingBuilder.eval_fold σ .sub left right
  | Mul => exact ConstantFoldingBuilder.eval_mul σ left right
  | And => exact ConstantFoldingBuilder.eval_and σ left right
  | Or => exact ConstantFoldingBuilder.eval_or σ left right
  | Xor => exact ConstantFoldingBuilder.eval_xor σ left right
  | UDiv | SDiv | URem | SRem | Shl | LShr | AShr => exact eval_binary σ _ left right

@[simp] theorem eval_not (expr : Expr w) : (not expr).eval σ = ~~~(expr.eval σ) := by
  induction expr with
  | Binary kind left right ihl ihr =>
    cases kind with
    | Or =>
      rw [not, and, ConstantFoldingBuilder.eval_and, ihl, ihr]
      exact BitVec.not_or.symm
    | _ => exact ConstantFoldingBuilder.eval_not σ _
  | _ => exact ConstantFoldingBuilder.eval_not σ _

/-- Comparing with a constant of width one. -/
theorem eval_eqConstant (c : BitVec v) (right : Expr v) :
    (eq.eqConstant c right).eval σ = CmpKind.Eq.apply c (right.eval σ) := by
  unfold eq.eqConstant
  split_ifs with hv hone
  · subst hv
    have hc : c = 1#1 := BitVec.eq_of_toNat_eq hone
    subst hc
    generalize right.eval σ = x
    decide +revert
  · subst hv
    have hc : c = 0#1 := by
      apply BitVec.eq_of_toNat_eq
      have hlt := c.isLt
      simp only [BitVec.toNat_ofNat]
      omega
    subst hc
    rw [ConstantFoldingBuilder.eval_not]
    generalize right.eval σ = x
    decide +revert
  · rfl

theorem eval_eq (left right : Expr v) :
    (eq left right).eval σ = CmpKind.Eq.apply (left.eval σ) (right.eval σ) := by
  unfold eq
  split
  · rfl
  · exact eval_eqConstant σ _ _
  · rw [eval_eqConstant]
    simp [CmpKind.apply, CmpKind.test, Expr.eval, Bool.beq_comm]
  · split_ifs with h
    · simp [h, Expr.eval, CmpKind.apply, CmpKind.test]
    · rfl

theorem eval_ne (left right : Expr v) :
    (ne left right).eval σ = CmpKind.Ne.apply (left.eval σ) (right.eval σ) := by
  unfold ne
  split
  · rfl
  · rw [eval_not, eval_eq]
    simp only [CmpKind.apply, CmpKind.test, bne]
    cases left.eval σ == right.eval σ <;> rfl

/-- Every comparison of the builder has the meaning of its kind. -/
@[simp] theorem eval_ofCmp (kind : CmpKind) (left right : Expr v) :
    (ofCmp kind left right).eval σ = kind.apply (left.eval σ) (right.eval σ) := by
  cases kind with
  | Eq => exact eval_eq σ left right
  | Ne => exact eval_ne σ left right
  | Ult | Ule | Slt | Sle => exact eval_compare σ _ left right
  | Ugt | Uge | Sgt | Sge =>
    -- the builder swaps the operands unless both are constant
    simp only [ofCmp, ugt, uge, sgt, sge]
    split
    · rfl
    · exact eval_compare σ _ right left

@[simp] theorem eval_concat (left : Expr v) (right : Expr w) :
    (concat left right).eval σ = left.eval σ ++ right.eval σ := by
  unfold concat
  split
  · simp only [Expr.eval]
    apply BitVec.eq_of_getLsbD_eq
    intro i hi
    simp only [BitVec.getLsbD_or, BitVec.getLsbD_shiftLeft, BitVec.getLsbD_setWidth,
      BitVec.getLsbD_append]
    by_cases h : i < w
    · simp [h, hi]
    · simp [h, hi, BitVec.getLsbD_of_ge _ i (Nat.le_of_not_lt h)]
      omega
  · rfl

@[simp] theorem eval_extract (offset : Nat) (h : offset + w ≤ v) (expr : Expr v) :
    (extract offset h expr).eval σ = (expr.eval σ).extractLsb' offset w := by
  unfold extract
  split
  · -- inside the range the sign bit that the arithmetic shift fills in is truncated away
    simp only [Expr.eval]
    apply BitVec.eq_of_getLsbD_eq
    intro i hi
    have hrange : offset + i < v := by omega
    simp [BitVec.getLsbD_sshiftRight, hi, hrange]
    omega
  · rfl

@[simp] theorem eval_zext (src : Expr v) :
    (zext src : Expr w).eval σ = (src.eval σ).setWidth w := by
  unfold zext
  split <;> rfl

@[simp] theorem eval_sext (src : Expr v) :
    (sext src : Expr w).eval σ = (src.eval σ).signExtend w := by
  unfold sext
  split <;> rfl

@[simp] theorem eval_select (cond : Expr 1) (trueExpr falseExpr : Expr w) :
    (select cond trueExpr falseExpr).eval σ =
      if cond.eval σ = 1#1 then trueExpr.eval σ else falseExpr.eval σ := by
  unfold select
  split
  · simp only [Expr.eval]
    split <;> simp [*]
  · rfl

end ExprBuilder

end SpsVp.Klee
