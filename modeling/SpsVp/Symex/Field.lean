import SpsVp.Lib.Bits
import SpsVp.Symex.Format

/-!
# The fields of a message

What `get_value` returns for a field, in terms of the field alone: whether it is accepted, which
symbolic variables it has, which constraints it enforces, and which bits it contributes to the
message. The bytes of a concrete field are given from the most significant one on, the variables of
a symbolic field from the least significant one on.
-/

namespace SpsVp.Symex

open Klee Clover Lib Effect ExecutionContext

/-! ## Sizes -/

/-- The bytes of a size are enough for its bits, unless the addition overflows. -/
theorem toNat_toByteSize (bitsize : BitVec 64) :
    (toByteSize bitsize).toNat =
      if bitsize.toNat % 8 = 0 then bitsize.toNat / 8
      else if bitsize.toNat - bitsize.toNat % 8 + 8 < 2 ^ 64 then bitsize.toNat / 8 + 1 else 0 := by
  have hlt := bitsize.isLt
  have hrem : (bitsize % 8#64).toNat = bitsize.toNat % 8 := BitVec.toNat_umod
  unfold toByteSize
  dsimp only
  by_cases haligned : bitsize.toNat % 8 = 0
  · have hzero : bitsize % 8#64 = 0#64 := BitVec.eq_of_toNat_eq (hrem.trans haligned)
    rw [if_pos hzero, if_pos haligned]
    exact BitVec.toNat_udiv
  · have hne : bitsize % 8#64 ≠ 0#64 := by
      intro h
      rw [h] at hrem
      exact haligned hrem.symm
    have hsub : (bitsize - bitsize % 8#64).toNat = bitsize.toNat - bitsize.toNat % 8 := by
      rw [BitVec.toNat_sub_of_le (BitVec.le_def.mpr (hrem ▸ Nat.mod_le _ _)), hrem]
    have hsum : (bitsize - bitsize % 8#64 + 8#64).toNat =
        (bitsize.toNat - bitsize.toNat % 8 + 8) % 2 ^ 64 := by
      rw [BitVec.toNat_add, hsub]
      rfl
    have hdiv : ((bitsize - bitsize % 8#64 + 8#64) / 8#64).toNat =
        (bitsize.toNat - bitsize.toNat % 8 + 8) % 2 ^ 64 / 8 := by
      rw [BitVec.toNat_udiv, hsum]
      rfl
    rw [if_neg hne, if_neg haligned, hdiv]
    split_ifs <;> omega

variable {bitsize : BitVec 64}

theorem hasPadding_iff :
    hasPadding bitsize = true ↔ bitsize.toNat % 8 ≠ 0 := by
  rw [hasPadding, bne_iff_ne]

theorem le_toByteSize (h : 0 < (toByteSize bitsize).toNat) :
    bitsize.toNat ≤ 8 * (toByteSize bitsize).toNat := by
  rw [toNat_toByteSize] at h ⊢
  split_ifs at h ⊢ <;> omega

theorem toByteSize_pos (h : 0 < bitsize.toInt) :
    0 < (toByteSize bitsize).toNat := by
  have hlt := bitsize.isLt
  have hpos : 0 < bitsize.toNat ∧ bitsize.toNat < 2 ^ 63 := by
    rw [BitVec.toInt_eq_toNat_cond] at h
    split_ifs at h <;> omega
  rw [toNat_toByteSize]
  split_ifs <;> omega

/-- A value of the right number of bytes without the padding. -/
def strip {n : Nat} (x : ConcolicValue (8 * n)) (bitsize : BitVec 64)
    (h : bitsize.toNat ≤ 8 * n) : Concolic :=
  if hasPadding bitsize then ⟨bitsize.toNat, x.extract 0 bitsize.toNat (by omega)⟩ else ⟨8 * n, x⟩

/-! ## Bits -/

/-- The low bits of a sequence of bytes that is given from the most significant one on. -/
def lowBits (bitsize : Nat) (bytes : List (BitVec 8)) : List Bool :=
  (bytes.flatMap bits).drop (8 * bytes.length - bitsize)

theorem bits_littleEndian (bytes : Nat → BitVec 8) (n : Nat) :
    bits (ByteMemory.littleEndian bytes n) = ((List.range n).map bytes).reverse.flatMap bits := by
  induction n with
  | zero => rfl
  | succ n ih =>
    rw [ByteMemory.littleEndian, bits_cast, bits_append, ih, List.range_succ, List.map_append,
      List.reverse_append]
    rfl

variable {n : Nat}

theorem width_strip (x : ConcolicValue (8 * n))
    (h : bitsize.toNat ≤ 8 * n) (hn : n = (toByteSize bitsize).toNat) :
    (strip x bitsize h).width = bitsize.toNat := by
  unfold strip
  split_ifs with hpadding
  · rfl
  · rw [hasPadding_iff, not_not] at hpadding
    rw [toNat_toByteSize, if_pos hpadding] at hn
    change 8 * n = bitsize.toNat
    omega

/-- Without the padding the low bits are left. -/
theorem bits_strip (x : ConcolicValue (8 * n))
    (h : bitsize.toNat ≤ 8 * n) (hn : n = (toByteSize bitsize).toNat) (m : Option Valuation) :
    bits ((strip x bitsize h).value.part m) = (bits (x.part m)).drop (8 * n - bitsize.toNat) := by
  by_cases hpadding : hasPadding bitsize = true
  · have hfits : 0 + bitsize.toNat ≤ 8 * n := by omega
    have hstrip : strip x bitsize h = ⟨bitsize.toNat, x.extract 0 bitsize.toNat hfits⟩ :=
      if_pos hpadding
    have hextract := bits_extractLsb' (x.part m) hfits
    rw [← ConcolicValue.part_extract m x 0 hfits] at hextract
    rw [hstrip, hextract, Nat.zero_add]
    exact List.take_of_length_le (by rw [List.length_drop, length_bits]; omega)
  · have hstrip : strip x bitsize h = ⟨8 * n, x⟩ := if_neg hpadding
    rw [hasPadding_iff, not_not] at hpadding
    rw [toNat_toByteSize, if_pos hpadding] at hn
    rw [hstrip, show 8 * n - bitsize.toNat = 0 by omega, List.drop_zero]

theorem withoutPadding_eq (x : ConcolicValue (8 * n))
    (h : bitsize.toNat ≤ 8 * n) (s : FormatState) :
    Concolic.withoutPadding ⟨8 * n, x⟩ bitsize s = .ok (strip x bitsize h) s := by
  unfold Concolic.withoutPadding strip
  split_ifs with hpadding
  · have hpos : 0 < bitsize.toNat := by
      rw [hasPadding_iff] at hpadding
      omega
    have hfits : 0 + bitsize.toNat ≤ 8 * n := by omega
    rw [Concolic.extract, dif_pos ⟨hpos, hfits⟩]
    rfl
  · rfl

/-! ## Concrete values -/

/-- The bytes of a buffer are appended one after the other. -/
theorem foldlM_concat (bytes : List (BitVec 8)) (x : Concolic) (s : FormatState)
    (h : x.width + 8 * bytes.length < widthLimit) :
    ∃ y : Concolic, bytes.foldlM (fun result byte => Concolic.concat result ⟨8, ⟨byte, none⟩⟩) x s =
        .ok y s ∧ y.width = x.width + 8 * bytes.length ∧
      ∀ m, bits (y.value.part m) = bits (x.value.part m) ++ bytes.flatMap bits := by
  induction bytes generalizing x with
  | nil => exact ⟨x, rfl, rfl, fun m => (List.append_nil _).symm⟩
  | cons byte bytes ih =>
    rw [List.length_cons] at h
    have hstep : Concolic.concat x ⟨8, ⟨byte, none⟩⟩ s =
        .ok ⟨x.width + 8, x.value.concat ⟨byte, none⟩⟩ s := by
      rw [Concolic.concat, if_pos (by change x.width + 8 < _; omega)]
      rfl
    obtain ⟨y, hy, hwidth, hbits⟩ := ih ⟨x.width + 8, x.value.concat ⟨byte, none⟩⟩
      (by change x.width + 8 + _ < _; omega)
    refine ⟨y, ?_, ?_, fun m => ?_⟩
    · rw [List.foldlM_cons, bind_of_ok hstep, hy]
    · rw [hwidth, List.length_cons]
      change x.width + 8 + _ = _
      omega
    · have hbyte : (⟨byte, none⟩ : ConcolicValue 8).part m = byte :=
        ConcolicValue.part_of_concrete m rfl
      rw [hbits, ConcolicValue.part_concat, bits_append, List.append_assoc,
        List.flatMap_cons, hbyte]

theorem foldlM_concat_of_wide (bytes : List (BitVec 8)) (x : Concolic) (s : FormatState)
    (hx : x.width < widthLimit) (h : widthLimit ≤ x.width + 8 * bytes.length) :
    bytes.foldlM (fun result byte => Concolic.concat result ⟨8, ⟨byte, none⟩⟩) x s =
      .error (.fatal .expressionWidth) s := by
  induction bytes generalizing x with
  | nil => exact absurd hx (Nat.not_lt.mpr h)
  | cons byte bytes ih =>
    rw [List.length_cons] at h
    rw [List.foldlM_cons]
    by_cases hlt : x.width + 8 < widthLimit
    · have hstep : Concolic.concat x ⟨8, ⟨byte, none⟩⟩ s =
          .ok ⟨x.width + 8, x.value.concat ⟨byte, none⟩⟩ s := by
        rw [Concolic.concat, if_pos hlt]
        rfl
      rw [bind_of_ok hstep]
      exact ih _ hlt (by change _ ≤ x.width + 8 + _; omega)
    · have hstep : Concolic.concat x ⟨8, ⟨byte, none⟩⟩ s = .error (.fatal .expressionWidth) s := by
        rw [Concolic.concat, if_neg hlt]
        rfl
      exact bind_of_error hstep

/-- `Solver::BVC` of the bytes of a concrete value. -/
theorem bvcBuffer_of_lt {bytes : List (BitVec 8)} (hne : bytes ≠ []) (s : FormatState)
    (h : 8 * bytes.length < widthLimit) :
    ∃ x : ConcolicValue (8 * bytes.length), bvcBuffer bytes s = .ok (some ⟨_, x⟩) s ∧
      ∀ m, bits (x.part m) = bytes.flatMap bits := by
  cases bytes with
  | nil => exact absurd rfl hne
  | cons byte bytes =>
    rw [List.length_cons] at h
    obtain ⟨⟨width, y⟩, hy, hwidth, hbits⟩ := foldlM_concat bytes ⟨8, ⟨byte, none⟩⟩ s
      (by change 8 + _ < _; omega)
    have hlength : width = 8 * (byte :: bytes).length := by
      rw [List.length_cons]
      change width = 8 + 8 * bytes.length at hwidth
      omega
    subst hlength
    refine ⟨y, ?_, fun m => ?_⟩
    · rw [bvcBuffer, bind_of_ok hy]
      rfl
    · rw [List.flatMap_cons]
      exact (hbits m).trans (by rw [ConcolicValue.part_of_concrete m rfl])

theorem bvcBuffer_of_wide {bytes : List (BitVec 8)} (s : FormatState)
    (h : widthLimit ≤ 8 * bytes.length) :
    bvcBuffer bytes s = .error (.fatal .expressionWidth) s := by
  cases bytes with
  | nil => exact absurd h (by decide)
  | cons byte bytes =>
    rw [List.length_cons] at h
    exact bind_of_error (foldlM_concat_of_wide bytes ⟨8, ⟨byte, none⟩⟩ s
      (show 8 < widthLimit by decide) (by change _ ≤ 8 + _; omega))

/-! ## Symbolic values -/

/-- The stored values for bytes of variables are bytes. -/
def ByteVariables (ctx : ExecutionContext) : Prop :=
  ∀ name i value, ctx.nextRun (byteName name i) = some value →
    ∃ b, value = .uint8 b

/-- The variable for a byte. -/
def byteVariable (name : String) (i : Nat) : Expr 8 :=
  readVariable .uint8 (byteName name i)

/-- The symbolic part of `n + 1` symbolic bytes. -/
def bytesExpr (name : String) : (n : Nat) → Expr (8 * (n + 1))
  | 0 => byteVariable name 0
  | n + 1 =>
    width_prependByte n ▸
      ExprBuilder.concat (byteVariable name (n + 1)) (bytesExpr name n)

section

variable {ctx ctx' : ExecutionContext} {rng rng' : Rand} {name : String}

/-- A byte can be drawn. -/
theorem find_byte (h : ByteVariables ctx) (name : String) (i : Nat) (rng : Rand) :
    ∃ value ctx' rng', findRemoveOrRandom .uint8
      (byteName name i) ctx
      rng = some (value, ctx', rng') ∧ ByteVariables ctx' := by
  have hkeep :
      ∀ last, ByteVariables ⟨Function.update ctx.nextRun (byteName name i) none,
      last⟩ := by
    intro last other j value hvalue
    by_cases hsame : byteName other j = byteName name i
    · have hnone : (none : Option IntValue) = some value := by
        rw [← hvalue, hsame]
        exact (Function.update_self (byteName name i) none ctx.nextRun).symm
      cases hnone
    · refine h other j value ?_
      rw [← hvalue]
      exact (Function.update_of_ne hsame none ctx.nextRun).symm
  cases hnext : ctx.nextRun (byteName name i) with
  | none => exact ⟨_, _, _, find_of_none hnext rng, hkeep _⟩
  | some value =>
    obtain ⟨b, rfl⟩ := h name i value hnext
    have hmk : ctx.nextRun (byteName name i) = some (IntValue.mk .uint8 b) := hnext
    exact ⟨_, _, _, find_of_next hmk rng, hkeep _⟩

theorem getSymbolicBytes_apply (h : ByteVariables ctx) (name : String) (n : Nat) (rng : Rand) :
    ∃ x ctx' rng', ctx.getSymbolicBytes name n rng = some (x, ctx', rng') ∧ ByteVariables ctx' := by
  induction n with
  | zero => exact ⟨_, ctx, rng, rfl, h⟩
  | succ n ih =>
    obtain ⟨x, ctx₁, rng₁, hx, h₁⟩ := ih
    obtain ⟨value, ctx₂, rng₂, hfind, h₂⟩ := find_byte h₁ name n rng₁
    refine ⟨prependByte
      (BVC .uint8 (some (byteName name n)) value) x, ctx₂, rng₂, ?_, h₂⟩
    rw [ExecutionContext.getSymbolicBytes, hx]
    simp only [Option.bind_eq_bind, Option.bind_some, ExecutionContext.getSymbolicByte,
      getSymbolic, hfind]

theorem symbolic_prependByte {symbyte : ConcolicValue 8}
    {result : ConcolicValue (8 * (n + 1))} {a : Expr 8} {b : Expr (8 * (n + 1))}
    (ha : symbyte.symbolic = some a) (hb : result.symbolic = some b) :
    (prependByte symbyte result).symbolic =
      some (width_prependByte n ▸ ExprBuilder.concat a b) := by
  have hconcat : (symbyte.concat result).symbolic = some (ExprBuilder.concat a b) := by
    simp [ConcolicValue.concat, ConcolicValue.binaryOperator, ConcolicValue.toExpr, ha, hb]
  rw [prependByte, ConcolicValue.cast, hconcat]
  rfl

/-- The symbolic part does not depend on what was drawn. -/
theorem symbolic_getSymbolicBytes {x : ConcolicValue (8 * (n + 1))}
    (h : ctx.getSymbolicBytes name (n + 1) rng = some (x, ctx', rng')) :
    x.symbolic = some (bytesExpr name n) := by
  induction n generalizing ctx' rng' with
  | zero =>
    simp only [ExecutionContext.getSymbolicBytes, ExecutionContext.getSymbolicByte,
      getSymbolic, Option.bind_eq_bind, Option.bind_some,
      Option.bind_eq_some_iff] at h
    obtain ⟨⟨symbyte, _, _⟩, ⟨⟨value, _, _⟩, _, hvalue⟩, h⟩ := h
    cases hvalue
    cases h
    rfl
  | succ n ih =>
    rw [ExecutionContext.getSymbolicBytes] at h
    simp only [ExecutionContext.getSymbolicByte, getSymbolic, Option.bind_eq_bind,
      Option.bind_eq_some_iff, Option.some.injEq, Prod.mk.injEq] at h
    obtain ⟨⟨result, _, _⟩, hresult, ⟨symbyte, _, _⟩, ⟨⟨value, _, _⟩, _, rfl, _⟩, rfl, _⟩ := h
    exact symbolic_prependByte rfl (ih hresult)

theorem eval_cast {v w : Nat} (h : v = w) (e : Expr v) (σ : Valuation) :
    (h ▸ e : Expr w).eval σ = (e.eval σ).cast h := by
  subst h
  rfl

theorem eval_bytesExpr (name : String) (n : Nat) (σ : Valuation) :
    (bytesExpr name n).eval σ =
      ByteMemory.littleEndian (fun i => (byteVariable name i).eval σ) (n + 1) := by
  induction n with
  | zero =>
    apply BitVec.eq_of_getLsbD_eq
    intro k hk
    rw [ByteMemory.littleEndian, BitVec.getLsbD_cast, BitVec.getLsbD_append, if_neg (by omega)]
    rfl
  | succ n ih =>
    rw [bytesExpr, eval_cast, ExprBuilder.eval_concat, ih]
    rfl

/-- The value of a drawn variable, concretely or under an assignment. -/
def variableValue (m : Option Valuation) (drawn : String × IntValue) : BitVec 8 :=
  m.elim (match drawn.2 with
    | .uint8 value => value
    | .uint32 value => value.setWidth 8) fun σ => (readVariable .uint8 drawn.1).eval σ

/-- The bits of symbolic bytes are those of the variables, the last one first. -/
theorem bits_getSymbolicBytes {x : ConcolicValue (8 * (n + 1))}
    (h : ctx.getSymbolicBytes name (n + 1) rng = some (x, ctx', rng')) (m : Option Valuation) :
    bits (x.part m) = (((ExecutionContext.SymbolicRequest.bytes name (n + 1)).concreteParts x).map
      (variableValue m)).reverse.flatMap bits := by
  rw [ExecutionContext.SymbolicRequest.concreteParts, List.map_map]
  cases m with
  | none =>
    have hbytes := ByteMemory.littleEndian_extract x.concrete
    change bits x.concrete = _
    rw [← hbytes, bits_littleEndian]
    simp only [hbytes]
    rfl
  | some σ =>
    have hvalue : x.part (some σ) = (bytesExpr name n).eval σ :=
      ConcolicValue.value_of_symbolic σ (symbolic_getSymbolicBytes h)
    rw [hvalue, eval_bytesExpr, bits_littleEndian]
    rfl

end

/-! ## Fields -/

/-- A field of a message. -/
structure Field where
  name : String
  bitsize : BitVec 64
  list : List Bencode

/-- The strings at the front of a list. -/
def leadingStrings : List Bencode → List String
  | .string constraint :: list => constraint :: leadingStrings list
  | _ => []

def allStrings : List Bencode → Bool
  | [] => true
  | .string _ :: list => allStrings list
  | _ :: _ => false

/-- The name and the expression that constraints refer to by it. -/
def variableExpr (name : String) (bitsize : BitVec 64) (n : Nat) : Σ w, Expr w :=
  if h : hasPadding bitsize = true ∧ 0 + bitsize.toNat ≤ 8 * (n + 1) then
    ⟨bitsize.toNat, ExprBuilder.extract 0 h.2 (bytesExpr name n)⟩
  else ⟨8 * (n + 1), bytesExpr name n⟩

namespace Field

/-- The field that an element of the message describes. -/
def ofData : Bencode → Option Field
  | .list [.string name, .integer bitsize, .list list] => some ⟨name, bitsize, list⟩
  | _ => none

def data (f : Field) : Bencode := .list [.string f.name, .integer f.bitsize, .list f.list]

variable (f : Field)

def bytesize : Nat := (toByteSize f.bitsize).toNat

def isSymbolic : Bool :=
  match f.list with
  | [] | .string _ :: _ => true
  | _ => false

/-- The bytes of a concrete value. -/
def bytes : Option (List (BitVec 8)) := f.list.mapM byteValue

/-- A symbolic value has constraints only, a concrete one the right number of bytes. -/
def accepted : Bool :=
  if f.isSymbolic then allStrings f.list else f.bytes.any (·.length == f.bytesize)

/-- The number of symbolic bytes. -/
def count : Nat := if f.isSymbolic then f.bytesize else 0

/-- The symbolic variables, in the order in which they are drawn. -/
def draws (index : Nat) : List (IntType × String) :=
  (ExecutionContext.SymbolicRequest.bytes (fieldName index f.name) f.count).vars

/-- What a field contributes to the message, given the values of its variables. -/
def bitsOf (m : Option Valuation) (drawn : List (String × IntValue)) : List Bool :=
  if f.isSymbolic then lowBits f.bitsize.toNat (drawn.map (variableValue m)).reverse
  else lowBits f.bitsize.toNat (f.bytes.getD [])

/-- The sizes for which the value can be built. -/
structure Fits : Prop where
  pos : f.isSymbolic = true → 0 < f.bytesize
  width : f.isSymbolic = true ∨ f.accepted = true → 8 * f.bytesize < widthLimit

end Field

/-- What becomes of the constraints of a field. -/
inductive Verdict where
  /-- One is no Boolean expression, or is false. -/
  | invalid
  /-- One is new. -/
  | notified
  /-- All are known. -/
  | known
deriving DecidableEq

section

variable (cm : ConstraintManager) (fromString : Env → String → Option (Expr 1))

/-- The constraints of a field, one after the other. A known one changes nothing, and behind another
one none is parsed. -/
def judge (c : SymbolicContext) (env : Env) : List String → Verdict
  | [] => .known
  | constraint :: constraints =>
    match (fromString env constraint).bind (c.assume cm) with
    | none => .invalid
    | some (_, true) => .notified
    | some (_, false) => judge c env constraints

/-- The names when a field has been read. -/
def Field.names (c : SymbolicContext) (env : Env) (f : Field) : Env :=
  if f.isSymbolic then Function.update env f.name
    (some (variableExpr (fieldName c.currentPacketIndex f.name) f.bitsize (f.bytesize - 1)))
  else env

/-- What becomes of the constraints of a field; they can name the field itself. -/
def Field.verdict (c : SymbolicContext) (env : Env) (f : Field) : Verdict :=
  if f.isSymbolic then judge cm fromString c (f.names c env) (leadingStrings f.list) else .known

end

/-! ## Effects on the state -/

/-- A state with the context and the names that are given, up to the values that were drawn. -/
structure Tracks (c : SymbolicContext) (env : Env) (t : FormatState) : Prop where
  context : t.context = { c with ctx := t.context.ctx }
  env : t.env = env

section

variable {cm : ConstraintManager} {fromString : Env → String → Option (Expr 1)} {s t : FormatState}

/-- The draws and the constraints do not interfere. -/
theorem assume_ctx (cm : ConstraintManager) (c : SymbolicContext) (ctx : ExecutionContext)
    (e : Expr 1) :
    ({ c with ctx := ctx } : SymbolicContext).assume cm e =
      (c.assume cm e).map fun p => ({ p.1 with ctx := ctx }, p.2) := by
  unfold SymbolicContext.assume
  dsimp only
  split_ifs with hknown
  · rfl
  · cases c.trace.assume cm (eqTrue e) <;> rfl

variable (cm fromString) in
/-- One constraint. -/
theorem Tracks.enforce {c : SymbolicContext} {env : Env} (h : Tracks c env s)
    (constraint : String) :
    match (fromString env constraint).bind (c.assume cm) with
    | none => ∃ e, Symex.enforce cm fromString constraint s = .error (.fatal e) s
    | some (_, true) => ∃ t, Symex.enforce cm fromString constraint s = .error .assumeNotification t
    | some (_, false) => Symex.enforce cm fromString constraint s = .ok () s := by
  obtain ⟨hcontext, rfl⟩ := h
  unfold Symex.enforce
  cases hparse : fromString s.env constraint with
  | none => exact ⟨_, rfl⟩
  | some bv =>
    have hassume := assume_ctx cm c s.context.ctx bv
    rw [← hcontext] at hassume
    rw [Option.bind_some]
    dsimp only
    rw [hassume]
    cases hc : c.assume cm bv with
    | none => exact ⟨_, rfl⟩
    | some p =>
      obtain ⟨c', isNew⟩ := p
      obtain ⟨_, rfl, rfl⟩ | ⟨_, rfl, _⟩ := SymbolicContext.assume_cases hc
      · change EStateM.Result.ok () { s with context := { c' with ctx := s.context.ctx } } = _
        rw [← hcontext]
      · exact ⟨_, rfl⟩

variable (cm fromString) in
/-- The loop over the constraints. -/
theorem Tracks.constraintLoop {c : SymbolicContext} {env : Env} (h : Tracks c env s)
    (list : List Bencode) :
    match judge cm fromString c env (leadingStrings list) with
    | .invalid => ∃ e t, Symex.constraintLoop cm fromString list s = .error (.fatal e) t
    | .notified => ∃ t, Symex.constraintLoop cm fromString list s = .error .assumeNotification t
    | .known => Symex.constraintLoop cm fromString list s = .ok (allStrings list) s := by
  induction list with
  | nil => rfl
  | cons elem list ih =>
    cases elem with
    | string constraint =>
      have henforce := h.enforce cm fromString constraint
      rw [leadingStrings, judge]
      cases hassume : (fromString env constraint).bind (c.assume cm) with
      | none =>
        rw [hassume] at henforce
        obtain ⟨e, herror⟩ := henforce
        exact ⟨e, s, bind_of_error herror⟩
      | some p =>
        obtain ⟨c', isNew⟩ := p
        rw [hassume] at henforce
        cases isNew with
        | true =>
          obtain ⟨t, herror⟩ := henforce
          exact ⟨t, bind_of_error herror⟩
        | false =>
          rw [Symex.constraintLoop, bind_of_ok henforce, allStrings]
          exact ih
    | _ => rfl

end

/-! ## Values of fields -/

theorem symbolic_strip {name : String} {x : ConcolicValue (8 * (n + 1))}
    (hx : x.symbolic = some (bytesExpr name n))
    (h : bitsize.toNat ≤ 8 * (n + 1)) :
    ∃ e, (strip x bitsize h).value.symbolic = some e ∧
      (⟨_, e⟩ : Σ w, Expr w) = variableExpr name bitsize n := by
  have hfits : 0 + bitsize.toNat ≤ 8 * (n + 1) := by omega
  by_cases hpadding : hasPadding bitsize = true
  · have hstrip : strip x bitsize h = ⟨bitsize.toNat, x.extract 0 bitsize.toNat hfits⟩ :=
      if_pos hpadding
    have hsymbolic : (x.extract 0 bitsize.toNat hfits).symbolic =
        some (ExprBuilder.extract 0 hfits (bytesExpr name n)) := by
      rw [ConcolicValue.extract, ConcolicValue.unaryOperator, hx]
      rfl
    rw [hstrip, variableExpr, dif_pos ⟨hpadding, hfits⟩]
    exact ⟨_, hsymbolic, rfl⟩
  · have hstrip : strip x bitsize h = ⟨8 * (n + 1), x⟩ := if_neg hpadding
    rw [hstrip, variableExpr, dif_neg fun h => hpadding h.1]
    exact ⟨_, hx, rfl⟩

section

variable {cm : ConstraintManager} {fromString : Env → String → Option (Expr 1)} {s : FormatState}

theorem makeSymbolic_apply (name : String)
    (hbytes : ByteVariables s.context.ctx) (hn : (toByteSize bitsize).toNat = n + 1)
    (hwidth : 8 * (n + 1) < widthLimit) (hle : bitsize.toNat ≤ 8 * (n + 1)) :
    ∃ x ctx rng,
      s.context.ctx.getSymbolicBytes (fieldName s.context.currentPacketIndex name) (n + 1)
        s.rng = some (x, ctx, rng) ∧ ByteVariables ctx ∧
      makeSymbolic name bitsize (toByteSize bitsize) s = .ok (strip x bitsize hle) { s with
        context := { s.context with ctx := ctx }
        rng := rng
        env := Function.update s.env name
          (some (variableExpr (fieldName s.context.currentPacketIndex name) bitsize n)) } := by
  obtain ⟨x, ctx, rng, hx, hctx⟩ := getSymbolicBytes_apply hbytes
    (fieldName s.context.currentPacketIndex name) (n + 1) s.rng
  obtain ⟨e, he, hvariable⟩ := symbolic_strip (symbolic_getSymbolicBytes hx) hle
  refine ⟨x, ctx, rng, hx, hctx, ?_⟩
  have hpointer : getSymbolicBytes (fieldName s.context.currentPacketIndex name)
      (toByteSize bitsize).toNat s = .ok (some ⟨8 * (n + 1), x⟩)
        { s with context := { s.context with ctx := ctx }, rng := rng } := by
    rw [hn, getSymbolicBytes, if_neg (Nat.succ_ne_zero n), if_pos hwidth, hx]
  change (getSymbolicBytes (fieldName s.context.currentPacketIndex name)
    (toByteSize bitsize).toNat >>= _) s = _
  rw [bind_of_ok hpointer]
  change (Concolic.withoutPadding ⟨8 * (n + 1), x⟩ bitsize >>= _) _ = _
  rw [bind_of_ok (withoutPadding_eq x hle _)]
  rw [he, ← hvariable]
  rfl

theorem makeSymbolic_of_zero (name : String)
    (h : (toByteSize bitsize).toNat = 0) :
    makeSymbolic name bitsize (toByteSize bitsize) s = .error (.fatal .nullPointer) s := by
  have hpointer : getSymbolicBytes (fieldName s.context.currentPacketIndex name)
      (toByteSize bitsize).toNat s = .ok none s := by
    rw [getSymbolicBytes, if_pos h]
  change (getSymbolicBytes (fieldName s.context.currentPacketIndex name)
    (toByteSize bitsize).toNat >>= _) s = _
  rw [bind_of_ok hpointer]
  rfl

theorem makeSymbolic_of_wide (name : String)
    (h : ¬ 8 * (toByteSize bitsize).toNat < widthLimit) :
    makeSymbolic name bitsize (toByteSize bitsize) s = .error (.fatal .expressionWidth) s := by
  have hpointer : getSymbolicBytes (fieldName s.context.currentPacketIndex name)
      (toByteSize bitsize).toNat s = .error (.fatal .expressionWidth) s := by
    rw [getSymbolicBytes, if_neg, if_neg h]
    intro hzero
    rw [hzero] at h
    exact h (by decide)
  change (getSymbolicBytes (fieldName s.context.currentPacketIndex name)
    (toByteSize bitsize).toNat >>= _) s = _
  exact bind_of_error hpointer

variable (cm fromString)

/-- What reading a field does. -/
inductive Reads (f : Field) (s : FormatState) :
    EStateM.Result FormatError FormatState (Option Concolic) → Prop where
  | fatal {e : Fatal} {t : FormatState}
      (h : f.Fits → f.verdict cm fromString s.context s.env = .invalid) :
      Reads f s (.error (.fatal e) t)
  | notified {t : FormatState} (hfits : f.Fits)
      (hverdict : f.verdict cm fromString s.context s.env = .notified) :
      Reads f s (.error .assumeNotification t)
  | rejected {t : FormatState} (hfits : f.Fits)
      (hverdict : f.verdict cm fromString s.context s.env = .known) (h : f.accepted = false) :
      Reads f s (.ok none t)
  | accepted {t : FormatState} {v : Concolic} {drawn : List (String × IntValue)} (hfits : f.Fits)
      (hverdict : f.verdict cm fromString s.context s.env = .known)
      (h : f.accepted = true) (htracks : Tracks s.context (f.names s.context s.env) t)
      (hbytes : ByteVariables t.context.ctx)
      (hwidth : v.width = f.bitsize.toNat) (hlt : v.width < widthLimit)
      (hdrawn :
        drawAll (f.draws s.context.currentPacketIndex) s.context.ctx s.rng =
        some (drawn, t.context.ctx, t.rng))
      (hbits : ∀ m, bits (v.value.part m) = f.bitsOf m drawn) :
      Reads f s (.ok (some v) t)

variable {cm fromString}

theorem getValue_of_concrete {f : Field} (h : f.isSymbolic = false) :
    getValue cm fromString f.list f.name f.bitsize =
      getConcrete f.list f.bitsize (toByteSize f.bitsize) := by
  obtain ⟨name, bitsize, list⟩ := f
  cases list with
  | nil => cases h
  | cons elem list =>
    cases elem with
    | string _ => cases h
    | _ => rfl

theorem getValue_of_symbolic {f : Field} (h : f.isSymbolic = true) :
    getValue cm fromString f.list f.name f.bitsize = do
      let symbolicValue ← makeSymbolic f.name f.bitsize (toByteSize f.bitsize)
      let strings ← constraintLoop cm fromString f.list
      return if strings then some symbolicValue else none := by
  obtain ⟨name, bitsize, list⟩ := f
  cases list with
  | nil => rfl
  | cons elem list =>
    cases elem with
    | string _ => rfl
    | _ => cases h

theorem mapM_ne_nil {list : List Bencode} {bytes : List (BitVec 8)} (hne : list ≠ [])
    (h : list.mapM byteValue = some bytes) : bytes ≠ [] := by
  rintro rfl
  cases list with
  | nil => exact hne rfl
  | cons elem list => simp [List.mapM_cons, Option.bind_eq_some_iff] at h

theorem reads_concrete {f : Field} (hsymbolic : f.isSymbolic = false)
    (hbytes : ByteVariables s.context.ctx) :
    Reads cm fromString f s (getValue cm fromString f.list f.name f.bitsize s) := by
  have hconcrete := Bool.eq_false_iff.mp hsymbolic
  have hverdict : f.verdict cm fromString s.context s.env = .known := by
    rw [Field.verdict, if_neg hconcrete]
  have hnames : f.names s.context s.env = s.env := by
    rw [Field.names, if_neg hconcrete]
  have hrejects : f.accepted = false → ∀ t, Reads cm fromString f s (.ok none t) := by
    intro hrejected t
    refine .rejected ⟨fun h => absurd h hconcrete, ?_⟩ hverdict hrejected
    exact fun h => h.elim (absurd · hconcrete) (absurd · (Bool.eq_false_iff.mp hrejected))
  have haccepted : f.accepted = f.bytes.any (·.length == f.bytesize) := by
    rw [Field.accepted, if_neg hconcrete]
  have hbits : ∀ m drawn, f.bitsOf m drawn = lowBits f.bitsize.toNat (f.bytes.getD []) := by
    intro m drawn
    rw [Field.bitsOf, if_neg hconcrete]
  have hdraws : f.draws s.context.currentPacketIndex = [] := by
    rw [Field.draws, Field.count, if_neg hconcrete]
    rfl
  rw [getValue_of_concrete hsymbolic, getConcrete]
  rw [Field.bytes] at haccepted hbits
  cases hmap : f.list.mapM byteValue with
  | none =>
    rw [hmap] at haccepted
    exact hrejects haccepted s
  | some bytes =>
    rw [hmap] at haccepted hbits
    dsimp only
    split_ifs with hlength
    · have haccepted' : f.accepted = true := haccepted.trans (beq_iff_eq.mpr hlength)
      have hne : bytes ≠ [] := by
        refine mapM_ne_nil ?_ hmap
        intro hnil
        rw [Field.isSymbolic, hnil] at hsymbolic
        cases hsymbolic
      have hpos : 0 < (toByteSize f.bitsize).toNat := hlength ▸ List.length_pos_iff.mpr hne
      by_cases hwidth : 8 * bytes.length < widthLimit
      · obtain ⟨x, hx, hxbits⟩ := bvcBuffer_of_lt hne s hwidth
        have hle : f.bitsize.toNat ≤ 8 * bytes.length := hlength ▸ le_toByteSize hpos
        have hresult : (do
            let pointer ← bvcBuffer bytes
            let bvc ← dereference pointer
            let bvc ← Concolic.withoutPadding bvc f.bitsize
            return some bvc : FormatM (Option Concolic)) s =
            .ok (some (strip x f.bitsize hle)) s := by
          rw [bind_of_ok hx]
          exact bind_of_ok (withoutPadding_eq x hle s)
        rw [hresult]
        have hdrawn : drawAll (f.draws s.context.currentPacketIndex) s.context.ctx
            s.rng = some ([], s.context.ctx, s.rng) := by
          rw [hdraws]
          rfl
        refine .accepted ⟨fun h => absurd h hconcrete, fun _ => ?_⟩ hverdict haccepted'
          ⟨rfl, hnames.symm⟩ hbytes (width_strip x hle hlength)
          (width_strip x hle hlength ▸ hle.trans_lt hwidth) hdrawn fun m => ?_
        · rwa [Field.bytesize, ← hlength]
        · rw [bits_strip x hle hlength, hxbits, hbits]
          rfl
      · have herror : (do
            let pointer ← bvcBuffer bytes
            let bvc ← dereference pointer
            let bvc ← Concolic.withoutPadding bvc f.bitsize
            return some bvc : FormatM (Option Concolic)) s = .error (.fatal .expressionWidth) s :=
          bind_of_error (bvcBuffer_of_wide s (Nat.not_lt.mp hwidth))
        rw [herror]
        refine .fatal fun hfits => absurd (hfits.width (.inr haccepted')) ?_
        rwa [Field.bytesize, ← hlength]
    · exact hrejects (haccepted.trans (beq_eq_false_iff_ne.mpr hlength)) s

theorem reads_symbolic {f : Field} (hsymbolic : f.isSymbolic = true)
    (hbytes : ByteVariables s.context.ctx) :
    Reads cm fromString f s (getValue cm fromString f.list f.name f.bitsize s) := by
  rw [getValue_of_symbolic hsymbolic]
  by_cases hwidth : 8 * (toByteSize f.bitsize).toNat < widthLimit
  · cases hsize : (toByteSize f.bitsize).toNat with
    | zero =>
      rw [bind_of_error (makeSymbolic_of_zero f.name hsize)]
      exact .fatal fun hfits => absurd hsize (Nat.pos_iff_ne_zero.mp (hfits.pos hsymbolic))
    | succ n =>
      have hle : f.bitsize.toNat ≤ 8 * (n + 1) := hsize ▸ le_toByteSize (hsize ▸ Nat.succ_pos n)
      have hpos : 0 < f.bytesize := by
        rw [Field.bytesize, hsize]
        exact Nat.succ_pos n
      have hfits : f.Fits := ⟨fun _ => hpos, fun _ => hwidth⟩
      rw [hsize] at hwidth
      obtain ⟨x, ctx, rng, hx, hctx, hmake⟩ :=
        makeSymbolic_apply f.name hbytes hsize hwidth hle
      have hnames : f.names s.context s.env = Function.update s.env f.name (some (variableExpr
          (fieldName s.context.currentPacketIndex f.name) f.bitsize n)) := by
        rw [Field.names, if_pos hsymbolic, Field.bytesize, hsize, Nat.add_sub_cancel]
      have hverdict : f.verdict cm fromString s.context s.env = judge cm fromString s.context
          (f.names s.context s.env) (leadingStrings f.list) := if_pos hsymbolic
      rw [bind_of_ok hmake, ← hnames]
      have htracks : Tracks s.context (f.names s.context s.env) { s with
          context := { s.context with ctx := ctx }
          rng := rng
          env := f.names s.context s.env } := ⟨rfl, rfl⟩
      have hloop := htracks.constraintLoop cm fromString f.list
      rw [← hverdict] at hloop
      cases hjudged : f.verdict cm fromString s.context s.env with
      | invalid =>
        rw [hjudged] at hloop
        obtain ⟨e, t, herror⟩ := hloop
        rw [bind_of_error herror]
        exact .fatal fun _ => hjudged
      | notified =>
        rw [hjudged] at hloop
        obtain ⟨t, herror⟩ := hloop
        rw [bind_of_error herror]
        exact .notified hfits hjudged
      | known =>
        rw [hjudged] at hloop
        rw [bind_of_ok hloop]
        have haccepted : f.accepted = allStrings f.list := by
          rw [Field.accepted, if_pos hsymbolic]
        cases hall : allStrings f.list with
        | false => exact .rejected hfits hjudged (haccepted.trans hall)
        | true =>
          have hobserve := observe_eq_drawAll
            (.bytes (fieldName s.context.currentPacketIndex f.name) (n + 1)) s.context.ctx s.rng
          have hdrawn : drawAll (f.draws s.context.currentPacketIndex)
              s.context.ctx s.rng = some ((ExecutionContext.SymbolicRequest.bytes
                (fieldName s.context.currentPacketIndex f.name) (n + 1)).concreteParts x,
                ctx, rng) := by
            rw [Field.draws, Field.count, if_pos hsymbolic, Field.bytesize, hsize, ← hobserve]
            simp only [ExecutionContext.SymbolicRequest.observe,
              ExecutionContext.SymbolicRequest.perform, hx, Option.bind_eq_bind, Option.bind_some]
          refine .accepted hfits hjudged (haccepted.trans hall) htracks hctx
            (width_strip x hle hsize.symm)
            (width_strip x hle hsize.symm ▸ hle.trans_lt hwidth) hdrawn fun m => ?_
          have hcount : ((ExecutionContext.SymbolicRequest.bytes
              (fieldName s.context.currentPacketIndex f.name) (n + 1)).concreteParts x).length =
              n + 1 := by
            rw [ExecutionContext.SymbolicRequest.concreteParts, List.length_map, List.length_range]
          rw [bits_strip x hle hsize.symm, bits_getSymbolicBytes hx, Field.bitsOf,
            if_pos hsymbolic, lowBits, List.length_reverse, List.length_map, hcount]
  · rw [bind_of_error (makeSymbolic_of_wide f.name hwidth)]
    exact .fatal fun hfits => absurd (hfits.width (.inl hsymbolic)) hwidth

variable (cm fromString) in
/-- What `get_value` does. -/
theorem reads_getValue (f : Field) (hbytes : ByteVariables s.context.ctx) :
    Reads cm fromString f s (getValue cm fromString f.list f.name f.bitsize s) := by
  cases hsymbolic : f.isSymbolic with
  | true => exact reads_symbolic hsymbolic hbytes
  | false => exact reads_concrete hsymbolic hbytes

end

end SpsVp.Symex
