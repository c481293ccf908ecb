import SpsVp.Clover.Context
import SpsVp.Klee.Solver

/-!
# Stores and assignments

`Trace::getStore` turns an assignment of the solver into the store that the next run starts with.
The other way round, a valuation agrees with a store when it gives every variable of the store its
value there. `array_eq_of_store` connects the two: on a variable that the store has from an
assignment, agreeing with the store is agreeing with the assignment.
-/

namespace SpsVp.Clover

open Klee

/-- The number of bytes of an alternative, `intByteSize`. -/
def IntType.bytes : IntType → Nat
  | .uint8 => 1
  | .uint32 => 4

/-- The array that stands for a variable. -/
def variableArray (T : IntType) (name : String) : SymbolicArray := ⟨name, T.bytes⟩

/-- `intFromVector`, for the two sizes it knows. `memcpy` puts the first byte into the least
significant place, as the host is little-endian. -/
def intFromVector : List (BitVec 8) → Option IntValue
  | [b] => some (.uint8 b)
  | [b₀, b₁, b₂, b₃] => some (.uint32 (b₃ ++ (b₂ ++ (b₁ ++ b₀))))
  | _ => none

/-- One turn of the loop of `getStore`. -/
def enterObject (σ : Valuation) (store : ConcreteStore) (array : SymbolicArray) :
    Option ConcreteStore := do
  let value ← intFromVector (List.ofFn (σ array))
  some (Function.update store array.name (some value))

/-- `Trace::getStore`; the objects are entered one after the other. -/
def getStore (a : Assignment) : Option ConcreteStore :=
  a.objects.foldlM (enterObject a.values) fun _ => none

/-- The valuation gives the variable the value that the store has for it, if it has one. -/
def AgreesAt (σ : Valuation) (store : ConcreteStore) (name : String) : Prop :=
  ∀ T value, store name = some (IntValue.mk T value) → (readVariable T name).eval σ = value

/-- The valuation agrees with the whole store. -/
def Agrees (σ : Valuation) (store : ConcreteStore) : Prop := ∀ name, AgreesAt σ store name

/-- The first store holds everything that the second one holds. -/
def Extends (store part : ConcreteStore) : Prop :=
  ∀ name value, part name = some value → store name = some value

variable {T : IntType} {σ : Valuation} {store : ConcreteStore}

theorem extends_setupNewValues (ctx : ExecutionContext) (store : ConcreteStore) :
    Extends (ctx.setupNewValues store).nextRun store := by
  intro name value h
  simp [ExecutionContext.setupNewValues, h]

theorem IntValue.mk_injective {x y : BitVec T.width} (h : mk T x = mk T y) :
    x = y := by
  cases T <;> cases h <;> rfl

theorem append_inj {v w : Nat} {a b : BitVec v} {c d : BitVec w} (h : a ++ c = b ++ d) :
    a = b ∧ c = d := by
  constructor
  · have hleft := congrArg (BitVec.extractLsb' w v) h
    simpa only [BitVec.extractLsb'_append_eq_left] using hleft
  · have hright := congrArg (BitVec.extractLsb' 0 w) h
    simpa only [BitVec.extractLsb'_append_eq_right] using hright

/-- The bytes of a variable are determined by its value. -/
theorem readVariable_injective {name : String} {τ : Valuation}
    (h : (readVariable T name).eval σ = (readVariable T name).eval τ) :
    σ (variableArray T name) = τ (variableArray T name) := by
  cases T with
  | uint8 =>
    funext i
    obtain rfl : i = (0 : Fin 1) := Fin.fin_one_eq_zero i
    exact h
  | uint32 =>
    simp only [readVariable, Expr.createTempReadWord, Expr.eval, BitVec.cast_eq] at h
    obtain ⟨h3, h⟩ := append_inj h
    obtain ⟨h2, h⟩ := append_inj h
    obtain ⟨h1, h0⟩ := append_inj h
    funext (i : Fin 4)
    exact Fin.cases h0 (Fin.cases h1 (Fin.cases h2 (Fin.cases h3 fun i => i.elim0))) i

/-- The bytes of the array of a variable make up what is read of it. -/
theorem intFromVector_variableArray (T : IntType) (name : String) :
    intFromVector (List.ofFn (σ (variableArray T name))) =
      some (IntValue.mk T ((readVariable T name).eval σ)) := by
  cases T <;> rfl

/-- What `intFromVector` returns for an array. -/
theorem intFromVector_eq_some {array : SymbolicArray} {value : IntValue}
    (h : intFromVector (List.ofFn (σ array)) = some value) :
    ∃ T, array = variableArray T array.name ∧
      value = IntValue.mk T ((readVariable T array.name).eval σ) := by
  obtain ⟨name, size⟩ := array
  match size, h with
  | 1, h =>
    exact ⟨.uint8, rfl, Option.some.inj (h.symm.trans (intFromVector_variableArray .uint8 name))⟩
  | 4, h =>
    exact ⟨.uint32, rfl, Option.some.inj (h.symm.trans (intFromVector_variableArray .uint32 name))⟩
  | 0, h | 2, h | 3, h => cases h
  | n + 5, h => simp [intFromVector, List.ofFn_succ] at h

/-- Whatever the store holds comes from an object of the assignment, and every object is in it under
its name. -/
theorem getStore_spec {a : Assignment} (h : getStore a = some store) :
    (∀ array ∈ a.objects, ∃ value, store array.name = some value) ∧
    ∀ name value, store name = some value → ∃ T, variableArray T name ∈ a.objects ∧
      value = IntValue.mk T ((readVariable T name).eval a.values) := by
  obtain ⟨objects, σ⟩ := a
  simp only [getStore] at h ⊢
  induction objects using List.reverseRecOn generalizing store with
  | nil =>
    cases h
    simp
  | append_singleton objects array ih =>
    simp only [List.foldlM_append, List.foldlM_cons, List.foldlM_nil, enterObject,
      Option.bind_eq_bind, Option.bind_eq_some_iff, Option.pure_def, Option.some.injEq] at h
    obtain ⟨before, hbefore, _, ⟨value, hvalue, rfl⟩, rfl⟩ := h
    obtain ⟨hobjects, hvalues⟩ := ih hbefore
    obtain ⟨T, harray, hvalue⟩ := intFromVector_eq_some hvalue
    constructor
    · intro other hother
      by_cases hname : other.name = array.name
      · exact ⟨value, by rw [hname, Function.update_self]⟩
      · rw [Function.update_of_ne hname]
        rw [List.mem_append, List.mem_singleton] at hother
        obtain hother | rfl := hother
        · exact hobjects other hother
        · exact absurd rfl hname
    · intro name v hv
      by_cases hname : name = array.name
      · subst hname
        rw [Function.update_self, Option.some.injEq] at hv
        subst hv
        exact ⟨T, List.mem_append_right _ (List.mem_singleton.mpr harray.symm), hvalue⟩
      · rw [Function.update_of_ne hname] at hv
        obtain ⟨T', hmem, hT'⟩ := hvalues name v hv
        exact ⟨T', List.mem_append_left _ hmem, hT'⟩

theorem IntValue.mk_eq_mk {T' : IntType} {x : BitVec T.width} {y : BitVec T'.width}
    (h : mk T x = mk T' y) : T = T' := by
  cases T <;> cases T' <;> first | rfl | cases h

theorem agrees_empty (σ : Valuation) : Agrees σ fun _ => none := by
  simp [Agrees, AgreesAt]

theorem Agrees.update (h : Agrees σ store) (T : IntType)
    (name : String) {value : BitVec T.width} (hvalue : (readVariable T name).eval σ = value) :
    Agrees σ (Function.update store name (some (IntValue.mk T value))) := by
  intro other T' value' hother
  by_cases hname : other = name
  · subst hname
    rw [Function.update_self, Option.some.injEq] at hother
    obtain rfl := IntValue.mk_eq_mk hother
    rw [hvalue]
    exact IntValue.mk_injective hother
  · rw [Function.update_of_ne hname] at hother
    exact h other T' value' hother

/-- On a variable whose value comes from an assignment, a valuation that gives it this value agrees
with the assignment. -/
theorem array_eq_of_store {a : Assignment} (h : getStore a = some store) {name : String}
    (hmem : variableArray T name ∈ a.objects) {value : BitVec T.width}
    (hvalue : ∀ v, store name = some v → v = IntValue.mk T value)
    (hσ : (readVariable T name).eval σ = value) :
    σ (variableArray T name) = a.values (variableArray T name) := by
  obtain ⟨hobjects, hvalues⟩ := getStore_spec h
  obtain ⟨v, hv⟩ := hobjects _ hmem
  obtain ⟨T', -, hv'⟩ := hvalues name v hv
  have hmk := hvalue v hv
  rw [hv'] at hmk
  obtain rfl := IntValue.mk_eq_mk hmk
  apply readVariable_injective
  rw [hσ]
  exact (IntValue.mk_injective hmk).symm

end SpsVp.Clover
