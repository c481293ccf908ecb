import Mathlib.Data.BitVec

/-!
# KLEE expressions

The expression language of `klee/Expr/Expr.h`, as far as clover builds it, and its meaning. An
expression carries its width in its type, so the width assertions of the C++ constructors cannot
fail here; the fields `hw` fix the width of the constructors that have a given one. Symbolic input
enters only through `Read`, which reads one byte of a named array. `Expr.eval` is the bit-vector
meaning that the solver gives to an expression, and `eval_congr` says that it depends only on the
arrays that occur in it.
-/

namespace SpsVp.Klee

/-- A symbolic `klee::Array`. `ArrayCache::CreateArray` returns the same array whenever name and
size agree, so the pair is its identity. -/
structure SymbolicArray where
  name : String
  size : Nat
deriving DecidableEq, Repr

/-- The arithmetic kinds of `ARITHMETIC_EXPR_CLASS`. -/
inductive BinaryKind where
  | Add | Sub | Mul | UDiv | SDiv | URem | SRem | And | Or | Xor | Shl | LShr | AShr
deriving DecidableEq, Repr

/-- The comparison kinds of `COMPARISON_EXPR_CLASS`. -/
inductive CmpKind where
  | Eq | Ne | Ult | Ule | Ugt | Uge | Slt | Sle | Sgt | Sge
deriving DecidableEq, Repr

/-- `Expr w` is a KLEE expression of width `w`. `Extract` carries the range condition that
`ExtractExpr::create` asserts. Clover reads an array only at constant indices inside it. -/
inductive Expr : Nat → Type where
  | Constant {w : Nat} (value : BitVec w) : Expr w
  | Read {w : Nat} (hw : w = 8) (array : SymbolicArray) (index : Fin array.size) : Expr w
  | Select {w : Nat} (cond : Expr 1) (trueExpr falseExpr : Expr w) : Expr w
  | Concat {a b w : Nat} (hw : w = a + b) (left : Expr a) (right : Expr b) : Expr w
  | Extract {v w : Nat} (offset : Nat) (hw : offset + w ≤ v) (expr : Expr v) : Expr w
  | ZExt {v w : Nat} (src : Expr v) : Expr w
  | SExt {v w : Nat} (src : Expr v) : Expr w
  | Not {w : Nat} (expr : Expr w) : Expr w
  | Binary {w : Nat} (kind : BinaryKind) (left right : Expr w) : Expr w
  | Compare {v w : Nat} (hw : w = 1) (kind : CmpKind) (left right : Expr v) : Expr w
deriving DecidableEq

/-- The operation of an arithmetic kind. A zero divisor gets its SMT-LIB value: the solver uses
that value, while `llvm::APInt` rejects a zero divisor, so no constant is ever folded there. -/
def BinaryKind.apply {w : Nat} : BinaryKind → BitVec w → BitVec w → BitVec w
  | .Add, x, y => x + y
  | .Sub, x, y => x - y
  | .Mul, x, y => x * y
  | .UDiv, x, y => x.smtUDiv y
  | .SDiv, x, y => x.smtSDiv y
  | .URem, x, y => x % y
  | .SRem, x, y => x.srem y
  | .And, x, y => x &&& y
  | .Or, x, y => x ||| y
  | .Xor, x, y => x ^^^ y
  | .Shl, x, y => x <<< y
  | .LShr, x, y => x >>> y
  | .AShr, x, y => x.sshiftRight' y

/-- The comparison of a comparison kind. -/
def CmpKind.test {w : Nat} : CmpKind → BitVec w → BitVec w → Bool
  | .Eq, x, y => x == y
  | .Ne, x, y => x != y
  | .Ult, x, y => x.ult y
  | .Ule, x, y => x.ule y
  | .Ugt, x, y => y.ult x
  | .Uge, x, y => y.ule x
  | .Slt, x, y => x.slt y
  | .Sle, x, y => x.sle y
  | .Sgt, x, y => y.slt x
  | .Sge, x, y => y.sle x

/-- Comparisons yield an expression of width `Expr::Bool`. -/
def CmpKind.apply {w : Nat} (kind : CmpKind) (x y : BitVec w) : BitVec 1 :=
  BitVec.ofBool (kind.test x y)

/-- The bytes of every array, `klee::Assignment` extended to a total function. -/
abbrev Valuation := (array : SymbolicArray) → Fin array.size → BitVec 8

namespace Expr

/-- The value of an expression under a valuation of the arrays. -/
def eval (σ : Valuation) : {w : Nat} → Expr w → BitVec w
  | _, .Constant value => value
  | _, .Read hw array index => (σ array index).cast hw.symm
  | _, .Select cond trueExpr falseExpr =>
    if cond.eval σ = 1#1 then trueExpr.eval σ else falseExpr.eval σ
  | _, .Concat hw left right => (left.eval σ ++ right.eval σ).cast hw.symm
  | _, .Extract offset _ expr => (expr.eval σ).extractLsb' offset _
  | _, .ZExt src => (src.eval σ).setWidth _
  | _, .SExt src => (src.eval σ).signExtend _
  | _, .Not expr => ~~~(expr.eval σ)
  | _, .Binary kind left right => kind.apply (left.eval σ) (right.eval σ)
  | _, .Compare hw kind left right => (kind.apply (left.eval σ) (right.eval σ)).cast hw.symm

/-- The arrays that occur in an expression, as `klee::findSymbolicObjects` collects them. -/
def arrays : {w : Nat} → Expr w → List SymbolicArray
  | _, .Constant _ => []
  | _, .Read _ array _ => [array]
  | _, .Select cond trueExpr falseExpr => cond.arrays ++ trueExpr.arrays ++ falseExpr.arrays
  | _, .Concat _ left right => left.arrays ++ right.arrays
  | _, .Extract _ _ expr => expr.arrays
  | _, .ZExt src => src.arrays
  | _, .SExt src => src.arrays
  | _, .Not expr => expr.arrays
  | _, .Binary _ left right => left.arrays ++ right.arrays
  | _, .Compare _ _ left right => left.arrays ++ right.arrays

/-- Two valuations that agree on the arrays of an expression give it the same value. -/
theorem eval_congr {w : Nat} (e : Expr w) {σ τ : Valuation} (h : ∀ a ∈ e.arrays, σ a = τ a) :
    e.eval σ = e.eval τ := by
  induction e with
  | Constant value => rfl
  | Read hw array index =>
    have harray : σ array = τ array := h array (by simp [arrays])
    simp [eval, harray]
  | Select cond trueExpr falseExpr ihc iht ihf =>
    simp only [arrays, List.mem_append] at h
    simp only [eval, ihc fun a ha => h a (.inl (.inl ha)), iht fun a ha => h a (.inl (.inr ha)),
      ihf fun a ha => h a (.inr ha)]
  | Concat hw left right ihl ihr =>
    simp only [arrays, List.mem_append] at h
    simp only [eval, ihl fun a ha => h a (.inl ha), ihr fun a ha => h a (.inr ha)]
  | Extract offset hw expr ih | ZExt src ih | SExt src ih | Not expr ih => simp only [eval, ih h]
  | Binary kind left right ihl ihr | Compare hw kind left right ihl ihr =>
    simp only [arrays, List.mem_append] at h
    simp only [eval, ihl fun a ha => h a (.inl ha), ihr fun a ha => h a (.inr ha)]

/-- Work measure of the constant-folding builder: constants weigh least. -/
def size : {w : Nat} → Expr w → Nat
  | _, .Constant _ => 1
  | _, .Read _ _ _ => 2
  | _, .Select cond trueExpr falseExpr => cond.size + trueExpr.size + falseExpr.size + 1
  | _, .Concat _ left right => left.size + right.size + 1
  | _, .Extract _ _ expr => expr.size + 1
  | _, .ZExt src => src.size + 1
  | _, .SExt src => src.size + 1
  | _, .Not expr => expr.size + 1
  | _, .Binary _ left right => left.size + right.size + 1
  | _, .Compare _ _ left right => left.size + right.size + 1

/-- Every expression has positive size. -/
theorem size_pos {w : Nat} (e : Expr w) : 0 < e.size := by
  cases e <;> simp [size]

/-- `Expr::createTempRead` at the width of a byte, for the array of a given name. -/
def createTempReadByte (name : String) : Expr 8 :=
  .Read rfl ⟨name, 1⟩ 0

/-- `Expr::createTempRead` at the width of a word: `ConcatExpr::create4` of the four bytes, the
last one leftmost. Reads are never constant, so `ConcatExpr::create` does not fold. -/
def createTempReadWord (name : String) : Expr 32 :=
  .Concat (a := 8) (b := 24) rfl (.Read rfl ⟨name, 4⟩ 3)
    (.Concat (a := 8) (b := 16) rfl (.Read rfl ⟨name, 4⟩ 2)
      (.Concat (a := 8) (b := 8) rfl (.Read rfl ⟨name, 4⟩ 1) (.Read rfl ⟨name, 4⟩ 0)))

/-- The comparison of two expressions, allocated without folding. -/
abbrev comparison {w : Nat} (kind : CmpKind) (left right : Expr w) : Expr 1 :=
  .Compare rfl kind left right

end Expr

end SpsVp.Klee
