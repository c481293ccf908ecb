import Mathlib.Data.List.Nodup
import SpsVp.Clover.Concolic

/-!
# The execution context

`clover::ExecutionContext` of `symex/clover/context.cpp`, which hands out the symbolic input of a
run. The values for the next run are consumed from `next_run` as they are requested, a variable
without a value there gets one from `rand()`, and `last_run` records what was handed out.

A failed C++ assertion ends the program and is `none` here. The calls of `rand()` are answered by a
stream that every function passes on.

`one_value_per_name_iff` says when a variable has one value throughout a run, and when the store of
a run replays it.
-/

namespace SpsVp.Clover

open Klee

/-- The alternatives of the variant `IntValue`. -/
inductive IntType where
  | uint8 | uint32
deriving DecidableEq, Repr

/-- The number of bits of an alternative, `intByteSize` in bits. -/
@[reducible] def IntType.width : IntType → Nat
  | .uint8 => 8
  | .uint32 => 32

/-- `clover::IntValue`, a variant of `uint8_t` and `uint32_t`. -/
inductive IntValue where
  | uint8 (value : BitVec 8)
  | uint32 (value : BitVec 32)
deriving DecidableEq, Repr

namespace IntValue

/-- The variant that holds a value of the given alternative. -/
def mk : (T : IntType) → BitVec T.width → IntValue
  | .uint8, value => .uint8 value
  | .uint32, value => .uint32 value

/-- `std::get_if<T>`. -/
def getIf : (T : IntType) → IntValue → Option (BitVec T.width)
  | .uint8, .uint8 value => some value
  | .uint32, .uint32 value => some value
  | _, _ => none

@[simp] theorem getIf_mk (T : IntType) (value : BitVec T.width) :
    getIf T (mk T value) = some value := by
  cases T <;> rfl

theorem eq_mk_of_getIf {T : IntType} {x : IntValue} {value : BitVec T.width}
    (h : getIf T x = some value) : x = mk T value := by
  cases T <;> cases x <;> cases h <;> rfl

end IntValue

/-- `clover::ConcreteStore`, a map from variable names to values. -/
abbrev ConcreteStore := String → Option IntValue

/-- The largest value of `rand()`. -/
def RAND_MAX : Nat := 2147483647

instance (priority := 2000) neZero_randMax : NeZero (RAND_MAX + 1) := ⟨Nat.succ_ne_zero _⟩

/-- The values that `rand()` is going to return. -/
abbrev Rand := Nat → Fin (RAND_MAX + 1)

namespace Rand

/-- The values after the first one. -/
def rest (rng : Rand) : Rand := fun i => rng (i + 1)

/-- A stream with one more value in front. -/
def push (x : Fin (RAND_MAX + 1)) (rng : Rand) : Rand
  | 0 => x
  | i + 1 => rng i

end Rand

/-- `klee::Expr::createTempRead` of the array that `ArrayCache::CreateArray` gives for a name. -/
def readVariable : (T : IntType) → String → Expr T.width
  | .uint8, name => Expr.createTempReadByte name
  | .uint32, name => Expr.createTempReadWord name

/-- `Solver::BVC`: a concrete value, symbolic under the given name if there is one. -/
def BVC (T : IntType) (name : Option String) (value : BitVec T.width) : ConcolicValue T.width where
  concrete := value
  symbolic := name.map (readVariable T)

/-- The state of an `ExecutionContext`. -/
structure ExecutionContext where
  nextRun : ConcreteStore
  lastRun : ConcreteStore

namespace ExecutionContext

/-- A context as it is constructed. -/
def empty : ExecutionContext := ⟨fun _ => none, fun _ => none⟩

def getPrevStore (ctx : ExecutionContext) : ConcreteStore := ctx.lastRun

/-- `setupNewValues` enters a store into `next_run`. What an earlier store left there and the new
one does not mention stays. -/
def setupNewValues (ctx : ExecutionContext) (store : ConcreteStore) : ExecutionContext where
  nextRun := fun name => (store name).or (ctx.nextRun name)
  lastRun := fun _ => none

/-- `findRemoveOrRandom<T>`. The assertion fails on a value of the other alternative. -/
def findRemoveOrRandom (T : IntType) (name : String) (ctx : ExecutionContext) (rng : Rand) :
    Option (BitVec T.width × ExecutionContext × Rand) :=
  match ctx.nextRun name with
  | some concrete => do
      let value ← concrete.getIf T
      some (value, ⟨Function.update ctx.nextRun name none,
        Function.update ctx.lastRun name (some concrete)⟩, rng)
  | none =>
    let value := BitVec.ofNat T.width (rng 0)
    some (value, ⟨ctx.nextRun,
      Function.update ctx.lastRun name (some (IntValue.mk T value))⟩, rng.rest)

/-- The shape shared by `getSymbolicByte` and `getSymbolicWord`. -/
def getSymbolic (T : IntType) (name : String) (ctx : ExecutionContext) (rng : Rand) :
    Option (ConcolicValue T.width × ExecutionContext × Rand) := do
  let (concrete, ctx, rng) ← findRemoveOrRandom T name ctx rng
  some (BVC T (some name) concrete, ctx, rng)

def getSymbolicByte (name : String) (ctx : ExecutionContext) (rng : Rand) :
    Option (ConcolicValue 8 × ExecutionContext × Rand) :=
  getSymbolic .uint8 name ctx rng

def getSymbolicWord (name : String) (ctx : ExecutionContext) (rng : Rand) :
    Option (ConcolicValue 32 × ExecutionContext × Rand) :=
  getSymbolic .uint32 name ctx rng

/-- The name of the `i`-th byte of a variable. -/
def byteName (name : String) (i : Nat) : String := name ++ ":byte" ++ toString i

theorem width_prependByte (i : Nat) : 8 + 8 * (i + 1) = 8 * (i + 1 + 1) := by omega

/-- One turn of the loop of `getSymbolicBytes`: the first byte is the result, every later one goes
to the front. -/
def prependByte {i : Nat} (symbyte : ConcolicValue 8) (result : ConcolicValue (8 * i)) :
    ConcolicValue (8 * (i + 1)) :=
  match i with
  | 0 => symbyte
  | i + 1 => (symbyte.concat result).cast (width_prependByte i)

/-- `getSymbolicBytes`. For size zero the source returns the null pointer, here the value of width
zero. -/
def getSymbolicBytes (name : String) :
    (size : Nat) → ExecutionContext → Rand →
      Option (ConcolicValue (8 * size) × ExecutionContext × Rand)
  | 0, ctx, rng => some (⟨0#0, none⟩, ctx, rng)
  | i + 1, ctx, rng => do
      let (result, ctx, rng) ← getSymbolicBytes name i ctx rng
      let (symbyte, ctx, rng) ← getSymbolicByte (byteName name i) ctx rng
      some (prependByte symbyte result, ctx, rng)

/-! ## Requests of a run -/

/-- A request of the guest or of the environment for symbolic input. -/
inductive SymbolicRequest where
  | byte (name : String)
  | word (name : String)
  | bytes (name : String) (size : Nat)
deriving DecidableEq, Repr

namespace SymbolicRequest

/-- The width of the value that a request returns. -/
@[reducible] def width : SymbolicRequest → Nat
  | .byte _ => 8
  | .word _ => 32
  | .bytes _ size => 8 * size

/-- The function of the context that serves a request. -/
def perform : (r : SymbolicRequest) → ExecutionContext → Rand →
    Option (ConcolicValue r.width × ExecutionContext × Rand)
  | .byte name => getSymbolicByte name
  | .word name => getSymbolicWord name
  | .bytes name size => getSymbolicBytes name size

/-- The symbolic variables that a request names, in the order in which it draws them. -/
def vars : SymbolicRequest → List (IntType × String)
  | .byte name => [(.uint8, name)]
  | .word name => [(.uint32, name)]
  | .bytes name size => (List.range size).map fun i => (.uint8, byteName name i)

/-- The concrete part of a returned value, variable by variable. -/
def concreteParts : (r : SymbolicRequest) → ConcolicValue r.width → List (String × IntValue)
  | .byte name, x => [(name, .uint8 x.concrete)]
  | .word name, x => [(name, .uint32 x.concrete)]
  | .bytes name size, x =>
    (List.range size).map fun i => (byteName name i, .uint8 (x.concrete.extractLsb' (8 * i) 8))

/-- A request together with the concrete parts of what it returns. -/
def observe (r : SymbolicRequest) (ctx : ExecutionContext) (rng : Rand) :
    Option (List (String × IntValue) × ExecutionContext × Rand) := do
  let (x, ctx, rng) ← r.perform ctx rng
  some (r.concreteParts x, ctx, rng)

end SymbolicRequest

/-- The requests of a run, one after the other, with all concrete parts they return. -/
def runRequests : List SymbolicRequest → ExecutionContext → Rand →
    Option (List (String × IntValue) × ExecutionContext × Rand)
  | [], ctx, rng => some ([], ctx, rng)
  | r :: rs, ctx, rng => do
      let (parts, ctx, rng) ← r.observe ctx rng
      let (more, ctx, rng) ← runRequests rs ctx rng
      some (parts ++ more, ctx, rng)

/-- The variables drawn one by one. -/
def drawAll : List (IntType × String) → ExecutionContext → Rand →
    Option (List (String × IntValue) × ExecutionContext × Rand)
  | [], ctx, rng => some ([], ctx, rng)
  | (T, name) :: vars, ctx, rng => do
      let (value, ctx, rng) ← findRemoveOrRandom T name ctx rng
      let (more, ctx, rng) ← drawAll vars ctx rng
      some ((name, IntValue.mk T value) :: more, ctx, rng)

theorem drawAll_append (vars more : List (IntType × String)) (ctx : ExecutionContext)
    (rng : Rand) :
    drawAll (vars ++ more) ctx rng = (do
      let (parts, ctx, rng) ← drawAll vars ctx rng
      let (parts', ctx, rng) ← drawAll more ctx rng
      some (parts ++ parts', ctx, rng)) := by
  induction vars generalizing ctx rng with
  | nil => simp [drawAll]
  | cons var vars ih =>
    obtain ⟨T, name⟩ := var
    simp only [List.cons_append, drawAll, ih, Option.bind_eq_bind, Option.bind_assoc,
      Option.bind_some]

variable {i : Nat} {vars : List (IntType × String)}

/-- A turn of the loop keeps the bytes that are there. -/
theorem prependByte_low {j : Nat} (hj : j < i) (symbyte : ConcolicValue 8)
    (result : ConcolicValue (8 * i)) :
    (prependByte symbyte result).concrete.extractLsb' (8 * j) 8 =
      result.concrete.extractLsb' (8 * j) 8 := by
  cases i with
  | zero => omega
  | succ i =>
    apply BitVec.eq_of_getLsbD_eq
    intro k hk
    have hlow : 8 * j + k < 8 * (i + 1) := by omega
    simp [prependByte, ConcolicValue.cast, ConcolicValue.concat, ConcolicValue.binaryOperator,
      BitVec.getLsbD_append, hk, hlow]

/-- A turn of the loop puts its byte above them. -/
theorem prependByte_top (symbyte : ConcolicValue 8) (result : ConcolicValue (8 * i)) :
    (prependByte symbyte result).concrete.extractLsb' (8 * i) 8 = symbyte.concrete := by
  apply BitVec.eq_of_getLsbD_eq
  intro k hk
  cases i with
  | zero => simp [prependByte, hk]
  | succ i =>
    simp [prependByte, ConcolicValue.cast, ConcolicValue.concat, ConcolicValue.binaryOperator,
      BitVec.getLsbD_append, hk]

theorem concreteParts_prependByte (name : String) (symbyte : ConcolicValue 8)
    (result : ConcolicValue (8 * i)) :
    (SymbolicRequest.bytes name (i + 1)).concreteParts (prependByte symbyte result) =
      (SymbolicRequest.bytes name i).concreteParts result ++
        [(byteName name i, .uint8 symbyte.concrete)] := by
  simp only [SymbolicRequest.concreteParts, List.range_succ, List.map_append, List.map_cons,
    List.map_nil, prependByte_top]
  congr 1
  refine List.map_congr_left fun j hj => ?_
  rw [prependByte_low (List.mem_range.mp hj)]

theorem observe_bytes (name : String) (size : Nat) (ctx : ExecutionContext) (rng : Rand) :
    (SymbolicRequest.bytes name size).observe ctx rng =
      drawAll (SymbolicRequest.bytes name size).vars ctx rng := by
  induction size generalizing ctx rng with
  | zero => rfl
  | succ i ih =>
    have hvars : (SymbolicRequest.bytes name (i + 1)).vars =
        (SymbolicRequest.bytes name i).vars ++ [(.uint8, byteName name i)] := by
      simp [SymbolicRequest.vars, List.range_succ]
    rw [hvars, drawAll_append, ← ih]
    simp only [SymbolicRequest.observe, SymbolicRequest.perform, getSymbolicBytes,
      getSymbolicByte, getSymbolic, drawAll, Option.bind_eq_bind]
    cases getSymbolicBytes name i ctx rng with
    | none => rfl
    | some p =>
      obtain ⟨result, ctx, rng⟩ := p
      simp only [Option.bind_some]
      cases findRemoveOrRandom .uint8 (byteName name i) ctx rng with
      | none => rfl
      | some q =>
        obtain ⟨value, ctx, rng⟩ := q
        simp only [Option.bind_some, concreteParts_prependByte]
        rfl

/-- What a request returns for its variables is what drawing them one by one returns. -/
theorem observe_eq_drawAll (r : SymbolicRequest) (ctx : ExecutionContext) (rng : Rand) :
    r.observe ctx rng = drawAll r.vars ctx rng := by
  cases r with
  | byte name =>
    simp only [SymbolicRequest.observe, SymbolicRequest.perform, getSymbolicByte, getSymbolic,
      SymbolicRequest.vars, drawAll, Option.bind_eq_bind]
    cases findRemoveOrRandom .uint8 name ctx rng <;> rfl
  | word name =>
    simp only [SymbolicRequest.observe, SymbolicRequest.perform, getSymbolicWord, getSymbolic,
      SymbolicRequest.vars, drawAll, Option.bind_eq_bind]
    cases findRemoveOrRandom .uint32 name ctx rng <;> rfl
  | bytes name size => exact observe_bytes name size ctx rng

/-- The requests of a run draw the variables they name one by one. -/
theorem runRequests_eq_drawAll (rs : List SymbolicRequest) (ctx : ExecutionContext)
    (rng : Rand) :
    runRequests rs ctx rng = drawAll (rs.flatMap SymbolicRequest.vars) ctx rng := by
  induction rs generalizing ctx rng with
  | nil => rfl
  | cons r rs ih =>
    rw [List.flatMap_cons, drawAll_append, runRequests, observe_eq_drawAll]
    simp only [ih]

/-! ## One value for each variable -/

section Draws

variable {T : IntType} {name : String} {vars : List (IntType × String)}
variable {ctx ctx' : ExecutionContext} {rng rng' : Rand} {value : BitVec T.width}
variable {parts : List (String × IntValue)}

/-- Everything that one draw can do. -/
theorem find_cases (h : findRemoveOrRandom T name ctx rng = some (value, ctx', rng')) :
    ctx' = ⟨Function.update ctx.nextRun name none,
      Function.update ctx.lastRun name (some (IntValue.mk T value))⟩ ∧
    (ctx.nextRun name = some (IntValue.mk T value) ∧ rng' = rng ∨
      ctx.nextRun name = none ∧ value = BitVec.ofNat T.width (rng 0) ∧ rng' = rng.rest) := by
  unfold findRemoveOrRandom at h
  split at h
  · rename_i concrete hnext
    simp only [Option.bind_eq_bind, Option.bind_eq_some_iff] at h
    obtain ⟨found, hget, h⟩ := h
    cases h
    have hmk := IntValue.eq_mk_of_getIf hget
    subst hmk
    exact ⟨rfl, .inl ⟨hnext, rfl⟩⟩
  · rename_i hnext
    cases h
    refine ⟨?_, .inr ⟨hnext, rfl, rfl⟩⟩
    rw [← hnext, Function.update_eq_self]

/-- A variable that has a value of its alternative gets it, whatever `rand()` would return. -/
theorem find_of_next (h : ctx.nextRun name = some (IntValue.mk T value)) (rng : Rand) :
    findRemoveOrRandom T name ctx rng = some (value,
      ⟨Function.update ctx.nextRun name none,
        Function.update ctx.lastRun name (some (IntValue.mk T value))⟩, rng) := by
  simp [findRemoveOrRandom, h]

/-- A variable without a value gets the next one of `rand()`. -/
theorem find_of_none (h : ctx.nextRun name = none) (rng : Rand) :
    findRemoveOrRandom T name ctx rng = some (BitVec.ofNat T.width (rng 0),
      ⟨Function.update ctx.nextRun name none, Function.update ctx.lastRun name
        (some (IntValue.mk T (BitVec.ofNat T.width (rng 0))))⟩, rng.rest) := by
  have hupdate : Function.update ctx.nextRun name none = ctx.nextRun := by
    rw [← h, Function.update_eq_self]
  simp [findRemoveOrRandom, h, hupdate]

/-- The first draw of a sequence and the rest of it. -/
theorem drawAll_cons_cases
    (h : drawAll ((T, name) :: vars) ctx rng = some (parts, ctx', rng')) :
    ∃ value mid midRng more, findRemoveOrRandom T name ctx rng = some (value, mid, midRng) ∧
      drawAll vars mid midRng = some (more, ctx', rng') ∧
      parts = (name, IntValue.mk T value) :: more := by
  simp only [drawAll, Option.bind_eq_bind, Option.bind_eq_some_iff] at h
  obtain ⟨⟨value, mid, midRng⟩, hfind, ⟨more, last, lastRng⟩, hmore, h⟩ := h
  cases h
  exact ⟨value, mid, midRng, more, hfind, hmore, rfl⟩

/-- A sequence of draws returns one part for each variable, in order. -/
theorem drawAll_names (h : drawAll vars ctx rng = some (parts, ctx', rng')) :
    parts.map Prod.fst = vars.map Prod.snd := by
  induction vars generalizing ctx rng parts with
  | nil => cases h; rfl
  | cons var vars ih =>
    obtain ⟨T, name⟩ := var
    obtain ⟨value, mid, midRng, more, -, hmore, rfl⟩ := drawAll_cons_cases h
    simp [ih hmore]

/-- Draws do not touch other variables. -/
theorem drawAll_frame (h : drawAll vars ctx rng = some (parts, ctx', rng')) {other : String}
    (hother : other ∉ vars.map Prod.snd) :
    ctx'.nextRun other = ctx.nextRun other ∧ ctx'.lastRun other = ctx.lastRun other := by
  induction vars generalizing ctx rng parts with
  | nil => cases h; exact ⟨rfl, rfl⟩
  | cons var vars ih =>
    obtain ⟨T, name⟩ := var
    simp only [List.map_cons, List.mem_cons, not_or] at hother
    obtain ⟨value, mid, midRng, more, hfind, hmore, -⟩ := drawAll_cons_cases h
    obtain ⟨rfl, -⟩ := find_cases hfind
    obtain ⟨hnext, hlast⟩ := ih hmore hother.2
    rw [hnext, hlast]
    exact ⟨Function.update_of_ne hother.1 _ _, Function.update_of_ne hother.1 _ _⟩

/-- A drawn variable has no value left for a second draw. -/
theorem drawAll_consumes (h : drawAll vars ctx rng = some (parts, ctx', rng'))
    (hname : name ∈ vars.map Prod.snd) : ctx'.nextRun name = none := by
  induction vars generalizing ctx rng parts with
  | nil => simp at hname
  | cons var vars ih =>
    obtain ⟨T, first⟩ := var
    obtain ⟨value, mid, midRng, more, hfind, hmore, -⟩ := drawAll_cons_cases h
    by_cases hmem : name ∈ vars.map Prod.snd
    · exact ih hmore hmem
    · obtain ⟨rfl, -⟩ := find_cases hfind
      have hfirst : name = first := by simpa [hmem] using hname
      rw [(drawAll_frame hmore hmem).1, hfirst]
      exact Function.update_self _ _ _

/-- When all variables are different, the store of the run holds every value that was returned. -/
theorem drawAll_last (hnodup : (vars.map Prod.snd).Nodup)
    (h : drawAll vars ctx rng = some (parts, ctx', rng')) {part : String × IntValue}
    (hpart : part ∈ parts) : ctx'.lastRun part.1 = some part.2 := by
  induction vars generalizing ctx rng parts with
  | nil => cases h; simp at hpart
  | cons var vars ih =>
    obtain ⟨T, name⟩ := var
    obtain ⟨hnotin, hnodup⟩ := List.nodup_cons.mp hnodup
    obtain ⟨value, mid, midRng, more, hfind, hmore, rfl⟩ := drawAll_cons_cases h
    cases List.mem_cons.mp hpart with
    | inl heq =>
      obtain ⟨rfl, -⟩ := find_cases hfind
      rw [heq, (drawAll_frame hmore hnotin).2]
      exact Function.update_self _ _ _
    | inr hmem => exact ih hnodup hmore hmem

/-- When all variables are different, a context that holds the values of an earlier run returns them
again, whatever `rand()` would return. -/
theorem drawAll_replay (hnodup : (vars.map Prod.snd).Nodup)
    (h : drawAll vars ctx rng = some (parts, ctx', rng')) (again : ExecutionContext)
    (hnext : ∀ part ∈ parts, again.nextRun part.1 = some part.2) (rng2 : Rand) :
    ∃ last, drawAll vars again rng2 = some (parts, last, rng2) := by
  induction vars generalizing ctx rng parts again with
  | nil => cases h; exact ⟨again, rfl⟩
  | cons var vars ih =>
    obtain ⟨T, name⟩ := var
    obtain ⟨hnotin, hnodup⟩ := List.nodup_cons.mp hnodup
    obtain ⟨value, mid, midRng, more, -, hmore, rfl⟩ := drawAll_cons_cases h
    have hfind := find_of_next (hnext _ List.mem_cons_self) rng2
    -- consuming the first variable leaves the values of the later, different ones
    have hleft : ∀ part ∈ more,
        Function.update again.nextRun name none part.1 = some part.2 := by
      intro part hpart
      have hne : part.1 ≠ name := by
        rintro rfl
        exact hnotin (drawAll_names hmore ▸ List.mem_map_of_mem hpart)
      rw [Function.update_of_ne hne]
      exact hnext part (List.mem_cons_of_mem _ hpart)
    obtain ⟨last, hlast⟩ := ih hnodup hmore ⟨Function.update again.nextRun name none,
      Function.update again.lastRun name (some (IntValue.mk T value))⟩ hleft
    exact ⟨last, by simp [drawAll, hfind, hlast]⟩

/-- Whether a sequence of draws fails an assertion depends on `next_run` alone. -/
theorem drawAll_succeeds (other : ExecutionContext) (hnext : other.nextRun = ctx.nextRun)
    (h : drawAll vars ctx rng = some (parts, ctx', rng')) (rng2 : Rand) :
    ∃ result, drawAll vars other rng2 = some result := by
  induction vars generalizing ctx rng parts other rng2 with
  | nil => exact ⟨_, rfl⟩
  | cons var vars ih =>
    obtain ⟨T, name⟩ := var
    obtain ⟨value, mid, midRng, more, hfind, hmore, -⟩ := drawAll_cons_cases h
    have hfirst : ∃ value' mid' midRng',
        findRemoveOrRandom T name other rng2 = some (value', mid', midRng') := by
      obtain ⟨-, ⟨hsome, -⟩ | ⟨hnone, -⟩⟩ := find_cases hfind
      · exact ⟨_, _, _, find_of_next (hnext ▸ hsome) rng2⟩
      · exact ⟨_, _, _, find_of_none (hnext ▸ hnone) rng2⟩
    obtain ⟨value', mid', midRng', hfirst⟩ := hfirst
    have hmid : mid'.nextRun = mid.nextRun := by
      rw [(find_cases hfirst).1, (find_cases hfind).1, hnext]
    obtain ⟨result, hresult⟩ := ih mid' hmid hmore midRng'
    exact ⟨_, by simp only [drawAll, hfirst, hresult, Option.bind_eq_bind, Option.bind_some]; rfl⟩

/-- The values of `rand()` can be chosen so that a sequence of draws leaves any given ones. -/
theorem drawAll_steer (h : drawAll vars ctx rng = some (parts, ctx', rng')) :
    ∃ parts ctx', ∀ left, ∃ rng, drawAll vars ctx rng = some (parts, ctx', left) := by
  induction vars generalizing ctx rng parts ctx' rng' with
  | nil => exact ⟨[], ctx, fun left => ⟨left, rfl⟩⟩
  | cons var vars ih =>
    obtain ⟨T, name⟩ := var
    obtain ⟨value, mid, midRng, more, hfind, hmore, -⟩ := drawAll_cons_cases h
    obtain ⟨hmid, ⟨hsome, -⟩ | ⟨hnone, -⟩⟩ := find_cases hfind
    · obtain ⟨parts, last, hsteer⟩ := ih hmore
      refine ⟨(name, IntValue.mk T value) :: parts, last, fun left => ?_⟩
      obtain ⟨rng, hrng⟩ := hsteer left
      exact ⟨rng, by simp [drawAll, find_of_next hsome, ← hmid, hrng]⟩
    · -- without a value in the context, zero is put in front of the stream
      let zero : BitVec T.width := BitVec.ofNat T.width 0
      let mid0 : ExecutionContext := ⟨Function.update ctx.nextRun name none,
        Function.update ctx.lastRun name (some (IntValue.mk T zero))⟩
      have hzero : ∀ rng, findRemoveOrRandom T name ctx (Rand.push 0 rng) =
          some (zero, mid0, rng) := fun rng => find_of_none hnone _
      obtain ⟨⟨_, _, _⟩, hresult⟩ := drawAll_succeeds mid0 (by rw [hmid]) hmore rng
      obtain ⟨parts, last, hsteer⟩ := ih hresult
      refine ⟨(name, IntValue.mk T zero) :: parts, last, fun left => ?_⟩
      obtain ⟨rng, hrng⟩ := hsteer left
      exact ⟨Rand.push 0 rng, by simp [drawAll, hzero, hrng]⟩

end Draws

/-- A sequence with a repeated name has a first part that already draws the name. -/
theorem exists_repeated (h : ¬ (vars.map Prod.snd).Nodup) :
    ∃ before T name after, vars = before ++ (T, name) :: after ∧
      name ∈ before.map Prod.snd := by
  induction vars with
  | nil => simp at h
  | cons var vars ih =>
    by_cases hmem : var.2 ∈ vars.map Prod.snd
    · obtain ⟨⟨T, name⟩, hagain, hname⟩ := List.mem_map.mp hmem
      obtain ⟨mid, after, rfl⟩ := List.append_of_mem hagain
      have hfirst : name = var.2 := hname
      exact ⟨var :: mid, T, name, after, rfl, by simp [hfirst]⟩
    · have hrest : ¬ (vars.map Prod.snd).Nodup := fun hnodup =>
        h (List.nodup_cons.mpr ⟨hmem, hnodup⟩)
      obtain ⟨before, T, name, after, rfl, hname⟩ := ih hrest
      exact ⟨var :: before, T, name, after, rfl, List.mem_cons_of_mem _ hname⟩

/-- Two values of `rand()` that no alternative confuses. -/
theorem exists_other_value (T : IntType) (x : IntValue) :
    ∃ r : Fin (RAND_MAX + 1), IntValue.mk T (BitVec.ofNat T.width r) ≠ x := by
  by_cases h : IntValue.mk T (BitVec.ofNat T.width (0 : Fin (RAND_MAX + 1))) = x
  · refine ⟨1, ?_⟩
    rw [← h]
    cases T <;> decide
  · exact ⟨0, h⟩

/-- When a name is drawn twice, some outcome of `rand()` gives it two different values. -/
theorem exists_two_values {ctx : ExecutionContext}
    (hrun : ∃ rng result, drawAll vars ctx rng = some result)
    (h : ¬ (vars.map Prod.snd).Nodup) :
    ∃ rng parts ctx' rng' name x y, drawAll vars ctx rng = some (parts, ctx', rng') ∧
      (name, x) ∈ parts ∧ (name, y) ∈ parts ∧ x ≠ y := by
  obtain ⟨before, T, name, after, rfl, hname⟩ := exists_repeated h
  obtain ⟨rng, ⟨parts, last, lastRng⟩, hrun⟩ := hrun
  rw [drawAll_append] at hrun
  simp only [Option.bind_eq_bind, Option.bind_eq_some_iff] at hrun
  obtain ⟨⟨p, mid, midRng⟩, hbefore, ⟨q, last, lastRng⟩, hafter, -⟩ := hrun
  -- the first part leaves any values of `rand()` to the second request for the name
  obtain ⟨parts, mid', hsteer⟩ := drawAll_steer hbefore
  obtain ⟨rng0, hrng0⟩ := hsteer rng
  have hdrawn : name ∈ parts.map Prod.fst := drawAll_names hrng0 ▸ hname
  obtain ⟨⟨_, x⟩, hx, rfl⟩ := List.mem_map.mp hdrawn
  obtain ⟨r, hr⟩ := exists_other_value T x
  obtain ⟨rng1, hrng1⟩ := hsteer (Rand.push r rng)
  have hmid : mid'.nextRun = mid.nextRun := by
    funext other
    by_cases hother : other ∈ before.map Prod.snd
    · rw [drawAll_consumes hrng1 hother, drawAll_consumes hbefore hother]
    · rw [(drawAll_frame hrng1 hother).1, (drawAll_frame hbefore hother).1]
  obtain ⟨⟨more, last, lastRng⟩, hmore⟩ := drawAll_succeeds mid' hmid hafter (Rand.push r rng)
  obtain ⟨value, mid2, midRng2, rest, hfind, -, rfl⟩ := drawAll_cons_cases hmore
  have hvalue : value = BitVec.ofNat T.width r := by
    have hnone := drawAll_consumes hrng1 hname
    obtain ⟨-, ⟨hsome, -⟩ | ⟨-, hvalue, -⟩⟩ := find_cases hfind
    · rw [hnone] at hsome
      cases hsome
    · exact hvalue
  subst hvalue
  refine ⟨rng1, parts ++ (_, IntValue.mk T (BitVec.ofNat T.width r)) :: rest, last, lastRng, _, x,
    _, ?_, List.mem_append_left _ hx, List.mem_append_right _ List.mem_cons_self, hr.symm⟩
  simp only [drawAll_append, hrng1, hmore, Option.bind_eq_bind, Option.bind_some]

/-- In a run of `rs` every value returned for a name is the entry of that name in the store of the
run, and after this store is set up again, the same requests return the same values for every
outcome of `rand()`. -/
def OneValuePerName (rs : List SymbolicRequest) (ctx : ExecutionContext) (rng : Rand) : Prop :=
  ∀ parts ctx' rng', runRequests rs ctx rng = some (parts, ctx', rng') →
    (∀ part ∈ parts, ctx'.getPrevStore part.1 = some part.2) ∧
    ∀ rng2, ∃ last left,
      runRequests rs (ctx'.setupNewValues ctx'.getPrevStore) rng2 = some (parts, last, left)

/-- A sequence of requests that fails no assertion gives every variable one value, and is replayed
by its store, for all outcomes of `rand()` exactly when no variable is requested twice. -/
theorem one_value_per_name_iff {rs : List SymbolicRequest} {ctx : ExecutionContext}
    (hrun : ∃ rng result, runRequests rs ctx rng = some result) :
    (∀ rng, OneValuePerName rs ctx rng) ↔
      ((rs.flatMap SymbolicRequest.vars).map Prod.snd).Nodup := by
  constructor
  · intro h
    by_contra hdup
    simp only [runRequests_eq_drawAll] at hrun
    obtain ⟨rng, parts, ctx', rng', name, x, y, hdraw, hx, hy, hne⟩ := exists_two_values hrun hdup
    have hlast := (h rng parts ctx' rng' (by rw [runRequests_eq_drawAll, hdraw])).1
    have hxy : some x = some y := (hlast _ hx).symm.trans (hlast _ hy)
    exact hne (Option.some.inj hxy)
  · intro hnodup rng parts ctx' rng' h
    rw [runRequests_eq_drawAll] at h
    have hlast : ∀ part ∈ parts, ctx'.getPrevStore part.1 = some part.2 :=
      fun part hpart => drawAll_last hnodup h hpart
    refine ⟨hlast, fun rng2 => ?_⟩
    obtain ⟨last, hreplay⟩ := drawAll_replay hnodup h
      (ctx'.setupNewValues ctx'.getPrevStore)
      (fun part hpart => by simp [setupNewValues, hlast part hpart]) rng2
    exact ⟨last, rng2, by rw [runRequests_eq_drawAll, hreplay]⟩

/-- Making one byte of memory symbolic twice: `rand()` gives zero and then one for the same
variable, and the store of the run keeps only the second value. -/
theorem two_requests_two_values :
    let rs : List SymbolicRequest := [.bytes "memory<4096>" 1, .bytes "memory<4096>" 1]
    ¬ OneValuePerName rs empty (Rand.push 0 (Rand.push 1 fun _ => 0)) := by
  intro rs h
  have hfirst := (h _ _ _ rfl).1 ("memory<4096>:byte0", .uint8 0) (by decide)
  exact absurd hfirst (by decide)

/-- Two requests for different bytes of memory. -/
theorem one_value_per_name_two_bytes :
    (∃ rng result, runRequests [.bytes "memory<4096>" 1, .bytes "memory<4097>" 1] empty rng =
      some result) ∧
    ((∀ rng, OneValuePerName [.bytes "memory<4096>" 1, .bytes "memory<4097>" 1] empty rng) ↔
      (([SymbolicRequest.bytes "memory<4096>" 1, .bytes "memory<4097>" 1].flatMap
        SymbolicRequest.vars).map Prod.snd).Nodup) :=
  have hrun : ∃ rng result, runRequests
      [.bytes "memory<4096>" 1, .bytes "memory<4097>" 1] empty rng = some result :=
    ⟨fun _ => 0, _, rfl⟩
  ⟨hrun, one_value_per_name_iff hrun⟩

end ExecutionContext

end SpsVp.Clover
