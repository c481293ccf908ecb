import Mathlib.Algebra.Order.BigOperators.Group.List
import SpsVp.Symex.Field

/-!
# Messages of the server, accepted and rejected

The loop of `get_input` over the fields. `rejects_iff` says which messages do not end the program,
and `delivers_iff` which ones are delivered byte by byte.
-/

namespace SpsVp.Symex

open Klee Clover Lib Effect

/-! ## The fields that are read -/

/-- The size of fields in bits. -/
def total (fields : List Field) : Nat := (fields.map fun f => f.bitsize.toNat).sum

/-- The bits of a message, given the values of the variables of all fields. -/
def messageBits (m : Option Valuation) : List Field → List (String × IntValue) → List Bool
  | [], _ => []
  | f :: fields, drawn =>
    f.bitsOf m (drawn.take f.count) ++ messageBits m fields (drawn.drop f.count)

theorem ofData_eq_some {elem : Bencode} {f : Field} (h : Field.ofData elem = some f) :
    elem = f.data := by
  unfold Field.ofData at h
  split at h
  · cases h
    rfl
  · cases h

section

variable (cm : ConstraintManager) (fromString : Env → String → Option (Expr 1))

/-- The fields that are accepted and whose constraints are known, up to the first element that is no
such field; this one is the second component, with the names that it can refer to. -/
def readFields (c : SymbolicContext) (env : Env) :
    List Bencode → List Field × Option (Env × Bencode)
  | [] => ([], none)
  | elem :: list =>
    match Field.ofData elem with
    | none => ([], some (env, elem))
    | some f =>
      if f.accepted = true ∧ f.verdict cm fromString c env = .known then
        let rest := readFields c (f.names c env) list
        (f :: rest.1, rest.2)
      else ([], some (env, elem))

/-- Every field that is read has a size for which its value can be built, and so has the one at
which the message is left, whose constraints are Boolean expressions that do not contradict what was
assumed before. The widths together are one of an expression. -/
structure Harmless (c : SymbolicContext) (env : Env) (width : Nat) (list : List Bencode) :
    Prop where
  fits : ∀ f ∈ (readFields cm fromString c env list).1, f.Fits
  width : width + total (readFields cm fromString c env list).1 < widthLimit
  left : ∀ env' (f : Field), (readFields cm fromString c env list).2 = some (env', f.data) →
    f.Fits ∧ f.verdict cm fromString c env' ≠ .invalid

end

section

variable {cm : ConstraintManager} {fromString : Env → String → Option (Expr 1)} {s t : FormatState}
  {r : Option Concolic} {c : SymbolicContext} {env : Env} {f : Field} {width : Nat}
  {list : List Bencode} {elem : Bencode} {drawn : List (String × IntValue)}

/-! ## Independence of the values that were drawn -/

theorem judge_ctx (c : SymbolicContext) (ctx : ExecutionContext) (env : Env)
    (constraints : List String) : judge cm fromString { c with ctx := ctx } env constraints =
      judge cm fromString c env constraints := by
  induction constraints with
  | nil => rfl
  | cons constraint constraints ih =>
    rw [judge, judge]
    cases fromString env constraint with
    | none => rfl
    | some bv =>
      rw [Option.bind_some, Option.bind_some, assume_ctx]
      cases c.assume cm bv with
      | none => rfl
      | some p =>
        obtain ⟨c', isNew⟩ := p
        cases isNew with
        | true => rfl
        | false => exact ih

variable (cm fromString) in
theorem readFields_ctx (c : SymbolicContext) (ctx : ExecutionContext) (env : Env)
    (list : List Bencode) : readFields cm fromString { c with ctx := ctx } env list =
      readFields cm fromString c env list := by
  have hverdict : ∀ (f : Field) (env : Env), f.verdict cm fromString { c with ctx := ctx } env =
      f.verdict cm fromString c env := by
    intro f env
    rw [Field.verdict, Field.verdict, judge_ctx]
    rfl
  induction list generalizing env with
  | nil => rfl
  | cons elem list ih =>
    rw [readFields, readFields]
    cases Field.ofData elem with
    | none => rfl
    | some f =>
      dsimp only
      rw [hverdict, ih]
      rfl

/-- What is harmless does not depend on the values that were drawn. -/
theorem Harmless.iff_tracks (h : Tracks c env t) :
    Harmless cm fromString t.context t.env width list ↔
      Harmless cm fromString c env width list := by
  obtain ⟨hcontext, rfl⟩ := h
  have hread := readFields_ctx cm fromString c t.context.ctx t.env list
  have hverdict : ∀ (f : Field) env', f.verdict cm fromString t.context env' =
      f.verdict cm fromString c env' := by
    intro f env'
    rw [hcontext, Field.verdict, Field.verdict, judge_ctx]
    rfl
  rw [← hcontext] at hread
  constructor
  · rintro ⟨hfits, hwidth, hleft⟩
    simp only [hread, hverdict] at hfits hwidth hleft
    exact ⟨hfits, hwidth, hleft⟩
  · rintro ⟨hfits, hwidth, hleft⟩
    refine ⟨?_, ?_, ?_⟩ <;> simp only [hread, hverdict]
    · exact hfits
    · exact hwidth
    · exact hleft

/-! ## The loop over the fields -/

theorem ofData_data (f : Field) : Field.ofData f.data = some f := rfl

theorem readFields_of_read (haccepted : f.accepted = true)
    (hverdict : f.verdict cm fromString c env = .known) (list : List Bencode) :
    readFields cm fromString c env (f.data :: list) =
      (f :: (readFields cm fromString c (f.names c env) list).1,
        (readFields cm fromString c (f.names c env) list).2) := by
  rw [readFields, ofData_data]
  exact if_pos ⟨haccepted, hverdict⟩

theorem readFields_of_left (h : ¬(f.accepted = true ∧ f.verdict cm fromString c env = .known))
    (list : List Bencode) :
    readFields cm fromString c env (f.data :: list) = ([], some (env, f.data)) := by
  rw [readFields, ofData_data]
  exact if_neg h

theorem total_cons (f : Field) (fields : List Field) :
    total (f :: fields) = f.bitsize.toNat + total fields := by
  rw [total, List.map_cons, List.sum_cons, total]

/-- A field that cannot be read. -/
theorem not_harmless (hfatal : f.Fits → f.verdict cm fromString c env = .invalid) :
    ¬ Harmless cm fromString c env width (f.data :: list) := by
  intro hharmless
  by_cases hread : f.accepted = true ∧ f.verdict cm fromString c env = .known
  · have hfits := hharmless.fits f
    rw [readFields_of_read hread.1 hread.2] at hfits
    cases hread.2.symm.trans (hfatal (hfits List.mem_cons_self))
  · obtain ⟨hfits, hvalid⟩ := hharmless.left env f (by rw [readFields_of_left hread])
    exact hvalid (hfatal hfits)

/-- A field at which the message is left. -/
theorem harmless_of_left (h : ¬(f.accepted = true ∧ f.verdict cm fromString c env = .known))
    (hfits : f.Fits) (hvalid : f.verdict cm fromString c env ≠ .invalid)
    (hwidth : width < widthLimit) : Harmless cm fromString c env width (f.data :: list) := by
  refine ⟨?_, ?_, fun env' f' hleft => ?_⟩
  · rw [readFields_of_left h]
    exact fun _ hf => absurd hf List.not_mem_nil
  · rw [readFields_of_left h]
    exact hwidth
  · rw [readFields_of_left h] at hleft
    obtain ⟨rfl, hdata⟩ := Prod.mk.inj (Option.some.inj hleft)
    cases Option.some.inj ((congrArg Field.ofData hdata).trans (ofData_data f'))
    exact ⟨hfits, hvalid⟩

theorem harmless_cons_iff (haccepted : f.accepted = true) (hfits : f.Fits)
    (hverdict : f.verdict cm fromString c env = .known) (width : Nat) (list : List Bencode) :
    Harmless cm fromString c env width (f.data :: list) ↔
      Harmless cm fromString c (f.names c env) (width + f.bitsize.toNat) list := by
  have hread := readFields_of_read haccepted hverdict list
  constructor
  · rintro ⟨hall, hwidth, hleft⟩
    rw [hread] at hall hwidth hleft
    rw [total_cons, ← Nat.add_assoc] at hwidth
    exact ⟨fun f' hf' => hall f' (List.mem_cons_of_mem _ hf'), hwidth, hleft⟩
  · rintro ⟨hall, hwidth, hleft⟩
    refine ⟨?_, ?_, ?_⟩
    · rw [hread]
      intro f' hf'
      obtain rfl | hf' := List.mem_cons.mp hf'
      · exact hfits
      · exact hall f' hf'
    · rw [hread, total_cons, ← Nat.add_assoc]
      exact hwidth
    · rw [hread]
      exact hleft

/-- The width of the fields so far. -/
def widthOf (r : Option Concolic) : Nat := r.elim 0 Concolic.width

/-- The bits of the fields so far. -/
def inputBits (r : Option Concolic) (m : Option Valuation) : List Bool :=
  r.elim [] fun r => bits (r.value.part m)

variable (cm fromString)

/-- What the loop does. -/
inductive Loops (r : Option Concolic) (s : FormatState) (list : List Bencode) :
    EStateM.Result FormatError FormatState (Option Concolic) → Prop where
  | fatal {e : Fatal} {t : FormatState}
      (h : ¬ Harmless cm fromString s.context s.env (widthOf r) list) :
      Loops r s list (.error (.fatal e) t)
  | thrown {e : FormatError} {t : FormatState} (he : ∀ f, e ≠ .fatal f)
      (h : Harmless cm fromString s.context s.env (widthOf r) list)
      (hleft : (readFields cm fromString s.context s.env list).2 ≠ none) :
      Loops r s list (.error e t)
  | done {r' : Option Concolic} {t : FormatState} {drawn : List (String × IntValue)}
      (h : Harmless cm fromString s.context s.env (widthOf r) list)
      (hall : (readFields cm fromString s.context s.env list).2 = none)
      (hnone : r' = none ↔ r = none ∧ list = [])
      (hwidth : widthOf r' = widthOf r + total (readFields cm fromString s.context s.env list).1)
      (hdrawn : ExecutionContext.drawAll
        ((readFields cm fromString s.context s.env list).1.flatMap
          fun f => f.draws s.context.currentPacketIndex) s.context.ctx s.rng =
            some (drawn, t.context.ctx, t.rng))
      (hbits : ∀ m, inputBits r' m = inputBits r m ++
        messageBits m (readFields cm fromString s.context s.env list).1 drawn) :
      Loops r s list (.ok r' t)

variable {cm fromString}

variable (cm fromString r s) in
/-- An element that is not a field. -/
theorem inputStep_of_none (h : Field.ofData elem = none) :
    ∃ e, inputStep cm fromString r elem s = .error (.exception e) s := by
  cases elem with
  | integer _ | string _ | dict _ => exact ⟨_, rfl⟩
  | list list =>
    match list with
    | [] => exact ⟨_, rfl⟩
    | [_] => exact ⟨_, rfl⟩
    | [_, _] => exact ⟨_, rfl⟩
    | _ :: _ :: _ :: _ :: _ => exact ⟨_, rfl⟩
    | [first, second, third] =>
      cases first with
      | integer _ | list _ | dict _ => exact ⟨_, rfl⟩
      | string _ =>
        cases second with
        | string _ | list _ | dict _ => exact ⟨_, rfl⟩
        | integer _ =>
          cases third with
          | integer _ | string _ | dict _ => exact ⟨_, rfl⟩
          | list _ => cases h

/-- The value of a field is appended. -/
def appendValue (r : Option Concolic) : Option Concolic → FormatM (Option Concolic)
  | none => throw (.exception .invalidValue)
  | some v =>
    match r with
    | none => pure (some v)
    | some r => do
        let r ← Concolic.concat r v
        return some r

theorem inputStep_data (r : Option Concolic) (f : Field) : inputStep cm fromString r f.data =
    getValue cm fromString f.list f.name f.bitsize >>= appendValue r := rfl

theorem appendValue_some {v : Concolic} (s : FormatState) (hv : v.width < widthLimit) :
    if widthOf r + v.width < widthLimit then
      ∃ r', appendValue r (some v) s = .ok (some r') s ∧ r'.width = widthOf r + v.width ∧
        ∀ m, bits (r'.value.part m) = inputBits r m ++ bits (v.value.part m)
    else appendValue r (some v) s = .error (.fatal .expressionWidth) s := by
  cases r with
  | none =>
    rw [widthOf, Option.elim_none, Nat.zero_add, if_pos hv]
    exact ⟨v, rfl, rfl, fun m => rfl⟩
  | some r =>
    rw [widthOf, Option.elim_some]
    split_ifs with hwidth
    · have hconcat : Concolic.concat r v s = .ok ⟨r.width + v.width, r.value.concat v.value⟩ s := by
        rw [Concolic.concat, if_pos hwidth]
        rfl
      refine ⟨_, bind_of_ok hconcat, rfl, fun m => ?_⟩
      rw [ConcolicValue.part_concat, bits_append]
      rfl
    · have hconcat : Concolic.concat r v s = .error (.fatal .expressionWidth) s := by
        rw [Concolic.concat, if_neg hwidth]
        rfl
      exact bind_of_error hconcat

theorem length_drawn {index : Nat} {ctx ctx' : ExecutionContext} {rng rng' : Rand}
    (h : ExecutionContext.drawAll (f.draws index) ctx rng = some (drawn, ctx', rng')) :
    drawn.length = f.count := by
  have hnames := congrArg List.length (ExecutionContext.drawAll_names h)
  simpa [Field.draws, ExecutionContext.SymbolicRequest.vars] using hnames

/-- The loop from its second turn on. -/
theorem Loops.cons {r' : Concolic} {value : Option Valuation → List Bool}
    {result : EStateM.Result FormatError FormatState (Option Concolic)}
    (hrest : Loops cm fromString (some r') t list result) (haccepted : f.accepted = true)
    (hfits : f.Fits) (hverdict : f.verdict cm fromString s.context s.env = .known)
    (htracks : Tracks s.context (f.names s.context s.env) t)
    (hdrawn : ExecutionContext.drawAll (f.draws s.context.currentPacketIndex) s.context.ctx s.rng =
      some (drawn, t.context.ctx, t.rng))
    (hr' : widthOf (some r') = widthOf r + f.bitsize.toNat ∧
      ∀ m, bits (r'.value.part m) = inputBits r m ++ value m)
    (hvalue : ∀ m, value m = f.bitsOf m drawn) :
    Loops cm fromString r s (f.data :: list) result := by
  have hiff : Harmless cm fromString t.context t.env (widthOf (some r')) list ↔
      Harmless cm fromString s.context s.env (widthOf r) (f.data :: list) := by
    rw [Harmless.iff_tracks htracks, hr'.1]
    exact (harmless_cons_iff haccepted hfits hverdict (widthOf r) list).symm
  have hread : readFields cm fromString s.context s.env (f.data :: list) =
      (f :: (readFields cm fromString t.context t.env list).1,
        (readFields cm fromString t.context t.env list).2) := by
    have hctx := readFields_ctx cm fromString s.context t.context.ctx t.env list
    rw [← htracks.context] at hctx
    rw [readFields_of_read haccepted hverdict, ← htracks.env, hctx]
  have hindex : t.context.currentPacketIndex = s.context.currentPacketIndex := by
    rw [htracks.context]
  cases hrest with
  | fatal h => exact .fatal (mt hiff.mpr h)
  | thrown he h hleft => exact .thrown he (hiff.mp h) (hread ▸ hleft)
  | done h hall hnone hwidth hdrawn' hbits =>
    rename_i r'' t' drawn'
    have hboth : ExecutionContext.drawAll
        ((readFields cm fromString s.context s.env (f.data :: list)).1.flatMap
          fun f => f.draws s.context.currentPacketIndex) s.context.ctx s.rng =
            some (drawn ++ drawn', t'.context.ctx, t'.rng) := by
      rw [hindex] at hdrawn'
      rw [hread, List.flatMap_cons, ExecutionContext.drawAll_append, hdrawn]
      simp only [Option.bind_eq_bind, Option.bind_some, hdrawn']
    refine .done (hiff.mp h) (hread ▸ hall) ?_ ?_ hboth fun m => ?_
    · exact iff_of_false (fun h => nomatch (hnone.mp h).1) fun h => nomatch h.2
    · rw [hwidth, hr'.1, hread, total_cons, Nat.add_assoc]
    · have hcount := length_drawn hdrawn
      rw [hbits, hread, messageBits, ← hcount, List.take_left, List.drop_left, ← hvalue,
        ← List.append_assoc, ← hr'.2]
      rfl

variable (cm fromString) in
/-- The loop, for every list of elements. -/
theorem loops_foldlM (list : List Bencode) (hbytes : ByteVariables s.context.ctx)
    (hr : widthOf r < widthLimit) :
    Loops cm fromString r s list (list.foldlM (inputStep cm fromString) r s) := by
  induction list generalizing r s with
  | nil =>
    refine .done ⟨fun _ hf => absurd hf List.not_mem_nil, hr, fun _ _ hleft => ?_⟩ rfl (by simp) rfl
      rfl fun m => (List.append_nil _).symm
    cases hleft
  | cons elem list ih =>
    rw [List.foldlM_cons]
    cases hdata : Field.ofData elem with
    | none =>
      obtain ⟨e, herror⟩ := inputStep_of_none cm fromString s r hdata
      have hread : readFields cm fromString s.context s.env (elem :: list) =
          ([], some (s.env, elem)) := by
        rw [readFields, hdata]
      rw [bind_of_error herror]
      refine .thrown (fun f hf => ?_) ⟨?_, ?_, fun env' f hleft => ?_⟩ ?_
      · cases hf
      · rw [hread]
        exact fun _ hf => absurd hf List.not_mem_nil
      · rw [hread]
        exact hr
      · rw [hread] at hleft
        cases hdata.symm.trans (congrArg Field.ofData (Prod.mk.inj (Option.some.inj hleft)).2)
      · rw [hread]
        exact Option.some_ne_none _
    | some f =>
      obtain rfl := ofData_eq_some hdata
      have hreads := reads_getValue cm fromString f hbytes
      -- a field at which the message is left without an end of the program
      have hthrown : ∀ {e : FormatError} {t : FormatState}, (∀ f, e ≠ .fatal f) →
          ¬(f.accepted = true ∧ f.verdict cm fromString s.context s.env = .known) → f.Fits →
          f.verdict cm fromString s.context s.env ≠ .invalid →
          Loops cm fromString r s (f.data :: list) (.error e t) := by
        intro e t he hnot hfits hvalid
        refine .thrown he (harmless_of_left hnot hfits hvalid hr) ?_
        rw [readFields_of_left hnot]
        exact Option.some_ne_none _
      rw [inputStep_data]
      generalize hresult : getValue cm fromString f.list f.name f.bitsize s = result at hreads
      cases hreads with
      | fatal hfatal =>
        rw [bind_assoc, bind_of_error hresult]
        exact .fatal (not_harmless hfatal)
      | notified hfits hverdict =>
        rw [bind_assoc, bind_of_error hresult]
        refine hthrown (fun f hf => ?_) (fun h => ?_) hfits (fun h => ?_)
        · cases hf
        · cases hverdict.symm.trans h.2
        · cases hverdict.symm.trans h
      | rejected hfits hverdict hrejected =>
        rw [bind_assoc, bind_of_ok hresult]
        refine hthrown (fun f hf => ?_) (fun h => ?_) hfits (fun h => ?_)
        · cases hf
        · cases hrejected.symm.trans h.1
        · cases hverdict.symm.trans h
      | accepted hfits hverdict haccepted htracks hbytes' hwidth hlt hdrawn hbits =>
        rename_i t v drawn
        have happend := appendValue_some (r := r) t hlt
        rw [bind_assoc, bind_of_ok hresult]
        split_ifs at happend with hsum
        · obtain ⟨r', happend, hwidth', hbits'⟩ := happend
          rw [bind_of_ok happend]
          have hr' : widthOf (some r') = widthOf r + v.width := hwidth'
          have hrest := ih (r := some r') hbytes' (hr' ▸ hsum)
          exact hrest.cons haccepted hfits hverdict htracks hdrawn
            ⟨hr'.trans (hwidth ▸ rfl), hbits'⟩ hbits
        · rw [bind_of_error happend]
          refine .fatal fun hharmless => hsum ?_
          have hsmall :=
            ((harmless_cons_iff haccepted hfits hverdict (widthOf r) list).mp hharmless).width
          omega

end

/-! ## The constructor -/

/-- A message of a positive width, an exception that rejects it, or the report that ends the run as
a constraint is new. -/
inductive EndsWell : EStateM.Result FormatError FormatState SymbolicFormat → Prop where
  | message {f : SymbolicFormat} {t : FormatState} (h : 0 < f.input.width) : EndsWell (.ok f t)
  | exception {e : FormatException} {t : FormatState} : EndsWell (.error (.exception e) t)
  | notification {t : FormatState} : EndsWell (.error .assumeNotification t)

/-- The names in a new object. -/
def noNames : Env := fun _ => none

section

variable (cm : ConstraintManager) (fromString : Env → String → Option (Expr 1))

/-- The messages that do not end the program: those that are not a list, and lists of fields that
can be read up to the first one that is rejected or has a new constraint and, if there is none, are
a whole number of bytes. -/
def Acceptable (c : SymbolicContext) : Bencode → Prop
  | .list list => Harmless cm fromString c noNames 0 list ∧
      ((readFields cm fromString c noNames list).2 = none →
        list ≠ [] ∧ total (readFields cm fromString c noNames list).1 % 8 = 0)
  | _ => True

end

section

variable {cm : ConstraintManager} {fromString : Env → String → Option (Expr 1)} {s : FormatState}

theorem Field.bitsize_pos {f : Field} (hfits : f.Fits) (haccepted : f.accepted = true) :
    0 < f.bitsize.toNat := by
  have hpos : 0 < f.bytesize := by
    cases hsymbolic : f.isSymbolic with
    | true => exact hfits.pos hsymbolic
    | false =>
      rw [Field.accepted, if_neg (Bool.eq_false_iff.mp hsymbolic), Option.any_eq_true] at haccepted
      obtain ⟨bytes, hbytes, hlength⟩ := haccepted
      have hne : f.list ≠ [] := by
        intro hnil
        rw [Field.isSymbolic, hnil] at hsymbolic
        cases hsymbolic
      rw [← beq_iff_eq.mp hlength]
      exact List.length_pos_iff.mpr (mapM_ne_nil hne hbytes)
  rw [Field.bytesize, toNat_toByteSize] at hpos
  split_ifs at hpos <;> omega

theorem total_pos {c : SymbolicContext} {env : Env} {list : List Bencode}
    (h : Harmless cm fromString c env 0 list)
    (hall : (readFields cm fromString c env list).2 = none)
    (hne : list ≠ []) : 0 < total (readFields cm fromString c env list).1 := by
  cases list with
  | nil => exact absurd rfl hne
  | cons elem list =>
    have hfits := h.fits
    rw [readFields] at hall hfits ⊢
    cases hdata : Field.ofData elem with
    | none =>
      rw [hdata] at hall
      cases hall
    | some f =>
      rw [hdata] at hall hfits
      dsimp only at hall hfits ⊢
      split_ifs at hall hfits ⊢ with hread
      have hpos := Field.bitsize_pos (hfits f List.mem_cons_self) hread.1
      rw [total_cons]
      omega

theorem construct_list (list : List Bencode) (s : FormatState) :
    SymbolicFormat.construct cm fromString (.list list) s =
      (list.foldlM (inputStep cm fromString) none >>= fun r => assertInput r >>= fun input =>
        pure ⟨input.1, input.1.width, input.2, input.2, le_rfl⟩ : FormatM SymbolicFormat)
        { s with env := noNames } := by
  change ((list.foldlM (inputStep cm fromString) none >>= assertInput) >>= _ : FormatM _) _ = _
  rw [bind_assoc]
  rfl

/-- A message that is constructed has bytes, and none of them was read. -/
theorem construct_fresh (hbytes : ByteVariables s.context.ctx) {data : Bencode} {f : SymbolicFormat}
    {t : FormatState} (h : SymbolicFormat.construct cm fromString data s = .ok f t) :
    f.offset = f.input.width ∧ 0 < f.offset := by
  cases data with
  | integer | string | dict => cases h
  | list list =>
    rw [construct_list] at h
    obtain ⟨r, u, hfold, hreturn⟩ := bind_eq_ok h
    obtain ⟨input, v, hassert, hreturn⟩ := bind_eq_ok hreturn
    have hloops := loops_foldlM cm fromString (r := none)
      (s := { s with env := noNames }) list hbytes (by decide)
    rw [hfold] at hloops
    cases hloops with
    | done hharmless hall hnone hwidth _ _ =>
      cases r with
      | none => cases hassert
      | some r =>
        rw [assertInput] at hassert
        split_ifs at hassert
        · cases hassert
          cases hreturn
          refine ⟨rfl, ?_⟩
          change 0 < r.width
          have hne : list ≠ [] := fun hnil => nomatch hnone.mpr ⟨rfl, hnil⟩
          have hwidth' : r.width = total (readFields cm fromString s.context noNames list).1 :=
            hwidth.trans (Nat.zero_add _)
          rw [hwidth']
          exact total_pos hharmless hall hne
        · cases hassert

end

/-- The state before the first message, with a parser that knows no constraint. -/
def firstMessage : FormatState := ⟨.init, fun _ => 0, noNames⟩

def noParser : Env → String → Option (Expr 1) := fun _ _ => none

/-- A byte of the symbolic variable `x`. -/
def symbolicByte : Field := ⟨"x", 8#64, []⟩

theorem byteVariables_firstMessage : ByteVariables firstMessage.context.ctx := nofun

theorem harmless_symbolicByte :
    Harmless .plain noParser firstMessage.context noNames 0 [symbolicByte.data] where
  fits f hf := by
    obtain rfl : f = symbolicByte := List.mem_singleton.mp hf
    exact ⟨fun _ => by decide, fun _ => by decide⟩
  width := by decide
  left env' f hleft := by cases hleft

theorem construct_fresh_symbolicByte : ∃ f t, SymbolicFormat.construct .plain noParser
    (.list [symbolicByte.data]) firstMessage = .ok f t ∧
      f.offset = f.input.width ∧ 0 < f.offset := by
  have hreturns : returnsIn (fun _ => true) (SymbolicFormat.construct .plain noParser
      (.list [symbolicByte.data]) firstMessage) = true := by decide +kernel
  obtain ⟨f, t, h, -⟩ := eq_ok_of_returnsIn hreturns
  exact ⟨f, t, h, construct_fresh byteVariables_firstMessage h⟩

namespace SymbolicFormat

/-- The message after a number of calls of `next_byte`. -/
def after (f : SymbolicFormat) : Nat → SymbolicFormat
  | 0 => f
  | k + 1 => (f.after k).nextByte.2

/-- The calls of `next_byte` return the bits of a message from the first one on, byte by byte, and
then the null pointer. Before each call `remaining_bytes` is the number of bytes to come. -/
def Delivers (f : SymbolicFormat) (m : Option Valuation) (message : List Bool) : Prop :=
  ∀ k, (f.after k).remainingBytes = message.length / 8 - k ∧
    (f.after k).nextByte.1.map (fun byte => bits (byte.part m)) =
      if 8 * k < message.length then some ((message.drop (8 * k)).take 8) else none

theorem nextByte_of_zero {f : SymbolicFormat} (h : f.offset = 0) : f.nextByte = (none, f) :=
  dif_pos h

theorem after_input (f : SymbolicFormat) (k : Nat) :
    (f.after k).input = f.input ∧ (f.after k).offset = f.offset - 8 * k := by
  induction k with
  | zero => exact ⟨rfl, rfl⟩
  | succ k ih =>
    rw [after]
    by_cases h : (f.after k).offset = 0
    · rw [nextByte_of_zero h]
      refine ⟨ih.1, ?_⟩
      change (f.after k).offset = _
      omega
    · rw [nextByte, dif_neg h]
      refine ⟨ih.1, ?_⟩
      change (f.after k).offset - 8 = _
      omega

/-- The bits of the byte that is returned next. -/
theorem bits_nextByte (f : SymbolicFormat) (m : Option Valuation) :
    f.nextByte.1.map (fun byte => bits (byte.part m)) =
      if f.offset = 0 then none
      else some (((bits (f.input.value.part m)).drop (f.input.width - f.offset)).take 8) := by
  have haligned := f.offset_aligned
  have hle := f.offset_le
  split_ifs with h
  · rw [nextByte_of_zero h]
    rfl
  · rw [nextByte, dif_neg h, Option.map_some, ConcolicValue.part_extract,
      bits_extractLsb' _ (by omega), show f.offset - 8 + 8 = f.offset by omega]

/-- A message whose offset is at its end delivers all of its bits. -/
theorem delivers_input {f : SymbolicFormat} (h : f.offset = f.input.width) (m : Option Valuation) :
    f.Delivers m (bits (f.input.value.part m)) := by
  intro k
  obtain ⟨hinput, hoffset⟩ := f.after_input k
  have haligned := f.width_aligned
  have hbits := (f.after k).bits_nextByte m
  rw [hoffset, h, hinput] at hbits
  rw [length_bits]
  constructor
  · rw [remainingBytes, hoffset, hinput, h]
    split_ifs <;> omega
  · rw [hbits]
    by_cases hend : f.input.width - 8 * k = 0
    · rw [if_pos hend, if_neg (by omega)]
    · rw [if_neg hend, if_pos (by omega)]
      congr 3
      omega

end SymbolicFormat

section

variable {cm : ConstraintManager} {fromString : Env → String → Option (Expr 1)} {s : FormatState}

variable (cm fromString) in
/-- All constraints of a message are known when it is read. -/
def knowsAll (c : SymbolicContext) (env : Env) : List Field → Bool
  | [] => true
  | f :: fields => f.verdict cm fromString c env = .known && knowsAll c (f.names c env) fields

variable {fields : List Field}

variable (cm fromString) in
/-- Fields that are accepted are all read just if their constraints are known. -/
theorem readFields_map_data (h : ∀ f ∈ fields, f.accepted = true)
    (c : SymbolicContext) (env : Env) :
    if knowsAll cm fromString c env fields = true then
      readFields cm fromString c env (fields.map Field.data) = (fields, none)
    else (readFields cm fromString c env (fields.map Field.data)).2 ≠ none := by
  induction fields generalizing env with
  | nil => rfl
  | cons f fields ih =>
    have hrest := ih (fun f hf => h f (List.mem_cons_of_mem _ hf)) (f.names c env)
    rw [List.map_cons, knowsAll]
    by_cases hverdict : f.verdict cm fromString c env = .known
    · rw [readFields_of_read (h f List.mem_cons_self) hverdict, decide_eq_true hverdict,
        Bool.true_and]
      split_ifs at hrest ⊢
      · rw [hrest]
      · exact hrest
    · rw [readFields_of_left fun hread => hverdict hread.2, decide_eq_false hverdict,
        Bool.false_and, if_neg Bool.false_ne_true]
      exact Option.some_ne_none _

variable (cm fromString s)

/-- A message is constructed, and its bytes are those of its fields in order. -/
def DeliversExactly (fields : List Field) : Prop :=
  ∃ f t drawn, SymbolicFormat.construct cm fromString (.list (fields.map Field.data)) s = .ok f t ∧
    ExecutionContext.drawAll (fields.flatMap fun f => f.draws s.context.currentPacketIndex)
      s.context.ctx s.rng = some (drawn, t.context.ctx, t.rng) ∧
    ∀ m, (messageBits m fields drawn).length = total fields ∧
      f.Delivers m (messageBits m fields drawn)

variable {cm fromString s}

theorem fits_of_total (hvalid : ∀ f ∈ fields, f.accepted = true ∧ 0 < f.bitsize.toInt)
    (haligned : total fields % 8 = 0) (hwidth : total fields < widthLimit) :
    ∀ f ∈ fields, f.Fits := by
  intro f hf
  have hle : f.bitsize.toNat ≤ total fields := List.le_sum_of_mem (List.mem_map_of_mem hf)
  refine ⟨fun _ => toByteSize_pos (hvalid f hf).2, fun _ => ?_⟩
  rw [Field.bytesize, toNat_toByteSize]
  rw [show widthLimit = 4294967296 from rfl] at hwidth ⊢
  split_ifs <;> omega

/-- A message of fields of positive sizes, together a number of bytes, is delivered just if there
are fields, they are together less than `2 ^ 32` bits wide, and their constraints are known. -/
theorem delivers_iff (hbytes : ByteVariables s.context.ctx) (fields : List Field)
    (hvalid : ∀ f ∈ fields, f.accepted = true ∧ 0 < f.bitsize.toInt)
    (haligned : total fields % 8 = 0) :
    DeliversExactly cm fromString s fields ↔ fields ≠ [] ∧ total fields < widthLimit ∧
      knowsAll cm fromString s.context noNames fields = true := by
  have hread := readFields_map_data cm fromString (fun f hf => (hvalid f hf).1) s.context noNames
  have hloops := loops_foldlM cm fromString (r := none)
    (s := { s with env := noNames }) (fields.map Field.data) hbytes (by decide)
  unfold DeliversExactly
  rw [construct_list]
  generalize hresult : (fields.map Field.data).foldlM (inputStep cm fromString) none
    { s with env := noNames } = result at hloops
  cases hloops with
  | fatal h =>
    rw [bind_of_error hresult]
    refine iff_of_false ?_ ?_
    · rintro ⟨_, _, _, herror, _⟩
      cases herror
    · rintro ⟨_, hwidth, hknown⟩
      rw [if_pos hknown] at hread
      refine h ⟨?_, ?_, fun env' f hleft => ?_⟩
      · rw [hread]
        exact fits_of_total hvalid haligned hwidth
      · rw [hread]
        exact (Nat.zero_add _).trans_lt hwidth
      · rw [hread] at hleft
        cases hleft
  | thrown he h hleft =>
    rw [bind_of_error hresult]
    refine iff_of_false ?_ ?_
    · rintro ⟨_, _, _, herror, _⟩
      cases herror
    · rintro ⟨_, _, hknown⟩
      rw [if_pos hknown] at hread
      exact hleft (congrArg Prod.snd hread)
  | done h hall hnone hwidth hdrawn hbits =>
    rename_i r t drawn
    have hlt := h.width
    have hknown : knowsAll cm fromString s.context noNames fields = true := by
      by_contra hunknown
      rw [if_neg hunknown] at hread
      exact hread hall
    rw [if_pos hknown] at hread
    rw [hread] at hwidth hdrawn hlt hbits
    rw [bind_of_ok hresult]
    cases r with
    | none =>
      refine iff_of_false ?_ fun hne => hne.1 (List.map_eq_nil_iff.mp (hnone.mp rfl).2)
      rintro ⟨_, _, _, herror, _⟩
      cases herror
    | some r =>
      have hne : fields ≠ [] := by
        rintro rfl
        cases hnone.mpr ⟨rfl, rfl⟩
      have hwidth' : r.width = total fields := hwidth.trans (Nat.zero_add _)
      have haligned' : r.width % 8 = 0 := by rw [hwidth']; exact haligned
      have hassert : assertInput (some r) t = .ok ⟨r, haligned'⟩ t := by
        rw [assertInput, dif_pos haligned']
        rfl
      have hmessage : ∀ m, bits (r.value.part m) = messageBits m fields drawn := hbits
      rw [bind_of_ok hassert]
      refine iff_of_true ⟨_, t, drawn, rfl, hdrawn, fun m => ?_⟩
        ⟨hne, (Nat.zero_add _).symm.trans_lt hlt, hknown⟩
      rw [← hmessage, length_bits]
      exact ⟨hwidth', SymbolicFormat.delivers_input rfl m⟩

end

/-- Four bits of a variable in front of the low twelve bits of two bytes. -/
def mixedFields : List Field :=
  [⟨"x", 4#64, []⟩, ⟨"y", 12#64, [.integer 0x0a#64, .integer 0xbc#64]⟩]

theorem delivers_mixedFields : ByteVariables firstMessage.context.ctx ∧ total mixedFields % 8 = 0 ∧
    DeliversExactly .plain noParser firstMessage mixedFields := by
  have hvalid : ∀ f ∈ mixedFields, f.accepted = true ∧ 0 < f.bitsize.toInt :=
    List.forall_mem_cons.mpr ⟨by decide, List.forall_mem_cons.mpr ⟨by decide, nofun⟩⟩
  exact ⟨byteVariables_firstMessage, by decide,
    (delivers_iff byteVariables_firstMessage mixedFields hvalid (by decide)).mpr
      ⟨nofun, by decide, by decide⟩⟩

/-- A field of `2 ^ 32` bits. -/
def wideField : Field := ⟨"x", 0x100000000#64, []⟩

/-- A message without fields and one of `2 ^ 32` bits are not delivered, although their sizes are
positive and a number of bytes. -/
theorem undelivered_messages : ¬ DeliversExactly .plain noParser firstMessage [] ∧
    0 < wideField.bitsize.toInt ∧ total [wideField] % 8 = 0 ∧
    ¬ DeliversExactly .plain noParser firstMessage [wideField] := by
  refine ⟨?_, by decide, by decide, ?_⟩
  · rintro ⟨f, t, _, hok, _⟩
    cases hok
  rintro ⟨f, t, _, hok, _⟩
  have hmake :
      makeSymbolic wideField.name wideField.bitsize (toByteSize wideField.bitsize) firstMessage =
      .error (.fatal .expressionWidth) firstMessage := makeSymbolic_of_wide _ (by decide)
  have hvalue :
      getValue .plain noParser wideField.list wideField.name wideField.bitsize firstMessage =
      .error (.fatal .expressionWidth) firstMessage := by
    rw [getValue_of_symbolic rfl]
    exact bind_of_error hmake
  have hstep : inputStep .plain noParser none wideField.data firstMessage =
      .error (.fatal .expressionWidth) firstMessage := by
    rw [inputStep_data]
    exact bind_of_error hvalue
  have hloop : [wideField.data].foldlM (inputStep .plain noParser) none firstMessage =
      .error (.fatal .expressionWidth) firstMessage := by
    rw [List.foldlM_cons]
    exact bind_of_error hstep
  have herror : SymbolicFormat.construct .plain noParser (.list [wideField.data]) firstMessage =
      .error (.fatal .expressionWidth) firstMessage := by
    rw [construct_list]
    exact bind_of_error hloop
  cases herror.symm.trans hok

end SpsVp.Symex
