import SpsVp.Clover.Memory
import SpsVp.Lib.Effect
import SpsVp.Symex.SymbolicContext

/-!
# Messages of the protocol server

`SymbolicFormat` of `symex/symbolic_format.cpp`. The server describes a message as a bencode list of
fields, each with a name, a size in bits and a list of values: bytes of a concrete field, or KQuery
constraints of a symbolic one. The constructor concatenates the fields, and `next_byte` hands the
bytes of the result to the UART.

What goes wrong there is an exception or ends the program: a failed assertion, an access through a
null pointer or an expression whose width does not fit into `klee::Expr::Width`. The parser of the
constraints is a parameter; where it gives no expression of width one it gives none here.
-/

namespace SpsVp.Symex

open Klee Clover Lib

/-! ## Data -/

/-- `bencode::data`; the integers are of type `long long`. -/
inductive Bencode where
  | integer (value : BitVec 64)
  | string (value : String)
  | list (value : List Bencode)
  | dict (value : List (String × Bencode))

/-- The exceptions that the constructor throws for a message that it rejects. -/
inductive FormatException where
  /-- `std::bad_variant_access`. -/
  | badVariantAccess
  /-- "invalid bencode field". -/
  | invalidField
  /-- "invalid bencode value format". -/
  | invalidValue
deriving DecidableEq

/-- What ends the program. -/
inductive Fatal where
  /-- A null pointer is dereferenced. -/
  | nullPointer
  /-- The assertion of `findRemoveOrRandom`. -/
  | integerType
  /-- The width of an expression does not fit into `klee::Expr::Width`. -/
  | expressionWidth
  /-- The assertion of `ExtractExpr::create`. -/
  | invalidExtract
  /-- A constraint that is not a Boolean expression. -/
  | constraint
  /-- The assertion of `addConstraintInternal` on a constraint that is false. -/
  | falseConstraint
  /-- The assertions of `get_input`. -/
  | emptyInput
  | unalignedInput
deriving DecidableEq

inductive FormatError where
  | exception (e : FormatException)
  /-- The report of `stop_assume`, which is thrown to end the run. -/
  | assumeNotification
  | fatal (f : Fatal)
deriving DecidableEq

/-- `Solver::Env`: the expressions that constraints refer to by name. -/
abbrev Env := String → Option (Σ w, Expr w)

structure FormatState where
  context : SymbolicContext
  rng : Rand
  env : Env

abbrev FormatM := Effect FormatError FormatState

/-! ## Values -/

/-- The widths below this one fit into `klee::Expr::Width`. -/
abbrev widthLimit : Nat := 2 ^ 32

def hasPadding (bitsize : BitVec 64) : Bool := bitsize.toNat % 8 != 0

/-- Rounds up to bytes; the addition can overflow. -/
def toByteSize (bitsize : BitVec 64) : BitVec 64 :=
  let rem := bitsize % 8#64
  if rem = 0#64 then bitsize / 8#64 else (bitsize - rem + 8#64) / 8#64

namespace Concolic

/-- `ConcolicValue::concat`. -/
def concat (x y : Concolic) : FormatM Concolic :=
  if x.width + y.width < widthLimit then pure ⟨x.width + y.width, x.value.concat y.value⟩
  else throw (.fatal .expressionWidth)

/-- `ConcolicValue::extract`. -/
def extract (x : Concolic) (offset w : Nat) : FormatM Concolic :=
  if h : 0 < w ∧ offset + w ≤ x.width then pure ⟨w, x.value.extract offset w h.2⟩
  else throw (.fatal .invalidExtract)

/-- The value without the padding of its last byte. -/
def withoutPadding (x : Concolic) (bitsize : BitVec 64) : FormatM Concolic :=
  if hasPadding bitsize then Concolic.extract x 0 bitsize.toNat else pure x

end Concolic

/-- `ExecutionContext::getSymbolicBytes`, which returns the null pointer for size zero. -/
def getSymbolicBytes (name : String) (size : Nat) : FormatM (Option Concolic) := fun s =>
  if size = 0 then .ok none s
  else if 8 * size < widthLimit then
    match s.context.ctx.getSymbolicBytes name size s.rng with
    | some (x, ctx, rng) => .ok (some ⟨8 * size, x⟩)
        { s with context := { s.context with ctx := ctx }, rng := rng }
    | none => .error (.fatal .integerType) s
  else .error (.fatal .expressionWidth) s

/-- The accesses through a pointer. -/
def dereference {α : Type} : Option α → FormatM α
  | some x => pure x
  | none => throw (.fatal .nullPointer)

/-- The variables of a field. -/
def fieldName (index : Nat) (name : String) : String := "pkt" ++ toString index ++ ":" ++ name

def makeSymbolic (name : String) (bitsize bytesize : BitVec 64) : FormatM Concolic := do
  let idx := (← get).context.currentPacketIndex
  let pointer ← getSymbolicBytes (fieldName idx name) bytesize.toNat
  let symbolicValue ← dereference pointer
  let symbolicValue ← Concolic.withoutPadding symbolicValue bitsize
  let symbolic ← dereference symbolicValue.value.symbolic
  modify fun s => { s with env := Function.update s.env name (some ⟨_, symbolic⟩) }
  return symbolicValue

/-- `Solver::BVC` of a buffer, with the bytes in the order `ReadLSB`. -/
def bvcBuffer : List (BitVec 8) → FormatM (Option Concolic)
  | [] => pure none
  | byte :: bytes => do
      let result ← bytes.foldlM (fun result byte => Concolic.concat result ⟨8, ⟨byte, none⟩⟩)
        (⟨8, ⟨byte, none⟩⟩ : Concolic)
      return some result

/-- The value of a byte of a concrete field. -/
def byteValue : Bencode → Option (BitVec 8)
  | .integer value => if 0 ≤ value.toInt ∧ value.toInt ≤ 255 then some (value.setWidth 8) else none
  | _ => none

/-- The branch of `get_value` for a concrete value. -/
def getConcrete (list : List Bencode) (bitsize bytesize : BitVec 64) : FormatM (Option Concolic) :=
  match list.mapM byteValue with
  | none => pure none
  | some concreteValue =>
    if concreteValue.length = bytesize.toNat then do
      let pointer ← bvcBuffer concreteValue
      let bvc ← dereference pointer
      let bvc ← Concolic.withoutPadding bvc bitsize
      return some bvc
    else pure none

section

variable (cm : ConstraintManager) (fromString : Env → String → Option (Expr 1))

/-- A constraint is parsed and enforced by `SymbolicContext::assume`. A new one is kept, and then
the report of `stop_assume` leaves the constructor. -/
def enforce (constraint : String) : FormatM Unit := fun s =>
  match fromString s.env constraint with
  | none => .error (.fatal .constraint) s
  | some bv =>
    match s.context.assume cm bv with
    | none => .error (.fatal .falseConstraint) s
    | some (context, isNew) =>
      if isNew then .error .assumeNotification { s with context } else .ok () { s with context }

/-- The loop of `get_value` over the constraints of a symbolic value. It returns whether all of them
are strings. -/
def constraintLoop : List Bencode → FormatM Bool
  | [] => pure true
  | .string constraint :: list => do
      enforce cm fromString constraint
      constraintLoop list
  | _ :: _ => pure false

/-- What the first element of the list makes of a value: a symbolic one, which is created before the
constraints are parsed, or a concrete one. The null pointer is `none`. -/
def getValue (list : List Bencode) (name : String) (bitsize : BitVec 64) :
    FormatM (Option Concolic) :=
  let bytesize := toByteSize bitsize
  match list with
  | [] => do
      let symbolicValue ← makeSymbolic name bitsize bytesize
      return some symbolicValue
  | .string constraint :: list => do
      let symbolicValue ← makeSymbolic name bitsize bytesize
      let strings ← constraintLoop cm fromString (.string constraint :: list)
      return if strings then some symbolicValue else none
  | list => getConcrete list bitsize bytesize

/-! ## Fields -/

def getList : Bencode → FormatM (List Bencode)
  | .list value => pure value
  | _ => throw (.exception .badVariantAccess)

def getString : Bencode → FormatM String
  | .string value => pure value
  | _ => throw (.exception .badVariantAccess)

def getInteger : Bencode → FormatM (BitVec 64)
  | .integer value => pure value
  | _ => throw (.exception .badVariantAccess)

/-- The body of the loop of `get_input`. -/
def inputStep (r : Option Concolic) (elem : Bencode) : FormatM (Option Concolic) := do
  match ← getList elem with
  | [first, second, third] => do
      let name ← getString first
      let size ← getInteger second
      let list ← getList third
      match ← getValue cm fromString list name size with
      | none => throw (.exception .invalidValue)
      | some v =>
        match r with
        | none => pure (some v)
        | some r => do
            let r ← Concolic.concat r v
            return some r
  | _ => throw (.exception .invalidField)

/-- The assertions at the end of `get_input`. -/
def assertInput : Option Concolic → FormatM { r : Concolic // r.width % 8 = 0 }
  | none => throw (.fatal .emptyInput)
  | some r => if h : r.width % 8 = 0 then pure ⟨r, h⟩ else throw (.fatal .unalignedInput)

def getInput (data : Bencode) : FormatM { r : Concolic // r.width % 8 = 0 } := do
  let list ← getList data
  let r ← list.foldlM (inputStep cm fromString) none
  assertInput r

/-! ## Messages -/

/-- A `SymbolicFormat`, with the offset of the byte that was returned last. -/
structure SymbolicFormat where
  input : Concolic
  offset : Nat
  width_aligned : input.width % 8 = 0
  offset_aligned : offset % 8 = 0
  offset_le : offset ≤ input.width

namespace SymbolicFormat

/-- The constructor, for the data that was decoded. -/
def construct (data : Bencode) : FormatM SymbolicFormat := do
  modify fun s => { s with env := fun _ => none }
  let input ← getInput cm fromString data
  return ⟨input.1, input.1.width, input.2, input.2, le_rfl⟩

def nextByte (f : SymbolicFormat) : Option (ConcolicValue 8) × SymbolicFormat :=
  if h : f.offset = 0 then (none, f)
  else
    have := f.offset_aligned
    have := f.offset_le
    (some (f.input.value.extract (f.offset - 8) 8 (by omega)),
      { f with
        offset := f.offset - 8
        offset_aligned := by omega
        offset_le := by omega })

def remainingBytes (f : SymbolicFormat) : Nat :=
  if f.offset = 0 then 0 else (f.input.width - (f.input.width - f.offset)) / 8

end SymbolicFormat

end

end SpsVp.Symex
