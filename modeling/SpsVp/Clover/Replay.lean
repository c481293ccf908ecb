import SpsVp.Clover.Store

/-!
# Assignments that are replayed

The values of an assignment go into a store, from there into the execution context, and come back as
the concrete parts of symbolic values, whose symbolic parts are reads of the same arrays. The store
has one value for a name, while an assignment may have arrays of both sizes for it. `replays_iff`
says that this is all that can go wrong.
-/

namespace SpsVp.Clover

open Klee ExecutionContext SymbolicRequest

/-- The variables of a request are bound by the assignment. -/
def Bound (a : Assignment) (r : SymbolicRequest) : Prop :=
  ∀ v ∈ r.vars, variableArray v.1 v.2 ∈ a.objects

instance (a : Assignment) (r : SymbolicRequest) : Decidable (Bound a r) :=
  inferInstanceAs (Decidable (∀ v ∈ r.vars, _))

/-- The concrete part of what a request returns is the value of its symbolic part. -/
def Faithful (σ : Valuation) (r : SymbolicRequest) (x : ConcolicValue r.width) : Prop :=
  (r.vars ≠ [] → x.symbolic ≠ none) ∧ x.value σ = x.concrete

/-- Every request for bound variables returns, and returns what the assignment says. -/
def Replays (a : Assignment) : List SymbolicRequest → ExecutionContext → Rand → Prop
  | [], _, _ => True
  | r :: rs, ctx, rng =>
    match r.perform ctx rng with
    | none => ¬ Bound a r
    | some (x, ctx, rng) => (Bound a r → Faithful a.values r x) ∧ Replays a rs ctx rng

/-- There are no arrays of two sizes for one name. -/
def OneSize (objects : List SymbolicArray) : Prop :=
  ∀ x ∈ objects, ∀ y ∈ objects, x.name = y.name → x = y

instance (objects : List SymbolicArray) : Decidable (OneSize objects) :=
  inferInstanceAs (Decidable (∀ x ∈ objects, ∀ y ∈ objects, _))

variable {a : Assignment} {store : ConcreteStore} {ctx ctx' : ExecutionContext} {rng rng' : Rand}
  {σ : Valuation} {T : IntType} {name : String} {r : SymbolicRequest}

/-- The context holds the value of a variable. -/
def Holding (σ : Valuation) (ctx : ExecutionContext) (v : IntType × String) : Prop :=
  ctx.nextRun v.2 = some (IntValue.mk v.1 ((readVariable v.1 v.2).eval σ))

/-! ## One request -/

theorem getSymbolic_of_holding (h : Holding σ ctx (T, name)) (rng : Rand) :
    ∃ x ctx', getSymbolic T name ctx rng = some (x, ctx', rng) ∧
      x.symbolic ≠ none ∧ x.value σ = x.concrete := by
  refine ⟨_, _, by rw [getSymbolic, find_of_next h]; rfl, Option.some_ne_none _, ?_⟩
  exact ConcolicValue.value_of_symbolic σ rfl

theorem value_prependByte {i : Nat} (symbyte : ConcolicValue 8) (result : ConcolicValue (8 * i))
    (hbyte : symbyte.value σ = symbyte.concrete) (hresult : result.value σ = result.concrete) :
    (prependByte symbyte result).value σ = (prependByte symbyte result).concrete := by
  cases i with
  | zero => exact hbyte
  | succ i =>
    have hpart : ∀ m, (prependByte symbyte result).part m =
        (symbyte.part m ++ result.part m).cast (by omega) := by
      intro m
      rw [prependByte, ConcolicValue.part_cast, ConcolicValue.part_concat]
    calc (prependByte symbyte result).value σ
        = (symbyte.value σ ++ result.value σ).cast (by omega) := hpart (some σ)
      _ = (symbyte.concrete ++ result.concrete).cast (by omega) := by rw [hbyte, hresult]
      _ = (prependByte symbyte result).concrete := (hpart none).symm

/-- What other requests are for stays in the context. -/
theorem nextRun_perform {x : ConcolicValue r.width} (h : r.perform ctx rng = some (x, ctx', rng'))
    {other : String} (hother : other ∉ r.vars.map Prod.snd) :
    ctx'.nextRun other = ctx.nextRun other := by
  have hdraw : drawAll r.vars ctx rng = some (r.concreteParts x, ctx', rng') := by
    rw [← observe_eq_drawAll, observe, h]
    rfl
  exact (drawAll_frame hdraw hother).1

theorem getSymbolicBytes_of_holding (name : String) (size : Nat)
    (hnodup : ((bytes name size).vars.map Prod.snd).Nodup)
    (h : ∀ v ∈ (bytes name size).vars, Holding σ ctx v) (rng : Rand) :
    ∃ x ctx', getSymbolicBytes name size ctx rng = some (x, ctx', rng) ∧
      (size ≠ 0 → x.symbolic ≠ none) ∧ x.value σ = x.concrete := by
  induction size with
  | zero => exact ⟨_, _, rfl, fun h => absurd rfl h, rfl⟩
  | succ i ih =>
    have hvars : (bytes name (i + 1)).vars =
        (bytes name i).vars ++ [(.uint8, byteName name i)] := by
      simp [vars, List.range_succ]
    rw [hvars] at hnodup h
    rw [List.map_append, List.nodup_append'] at hnodup
    obtain ⟨hnodup, -, hdisjoint⟩ := hnodup
    obtain ⟨x, mid, hx, -, hvalue⟩ := ih hnodup fun v hv => h v (List.mem_append_left _ hv)
    -- the name of the last byte is not among the others
    have hlast : Holding σ mid (.uint8, byteName name i) := by
      have hframe : mid.nextRun (byteName name i) = ctx.nextRun (byteName name i) :=
        nextRun_perform (r := .bytes name i) hx fun hmem => hdisjoint hmem List.mem_cons_self
      rw [Holding, hframe]
      exact h _ (List.mem_append_right _ List.mem_cons_self)
    obtain ⟨y, last, hy, hsymbolic, hyvalue⟩ := getSymbolic_of_holding hlast rng
    refine ⟨prependByte y x, last, ?_, fun _ => ?_, value_prependByte y x hyvalue hvalue⟩
    · rw [getSymbolicBytes, hx]
      change (getSymbolic .uint8 (byteName name i) mid rng).bind _ = _
      rw [hy]
      rfl
    · cases i with
      | zero => exact hsymbolic
      | succ i =>
        simpa [prependByte, ConcolicValue.cast, ConcolicValue.concat, ConcolicValue.binaryOperator]
          using fun h => absurd h hsymbolic

theorem perform_of_holding (hnodup : (r.vars.map Prod.snd).Nodup)
    (h : ∀ v ∈ r.vars, Holding σ ctx v) (rng : Rand) :
    ∃ x ctx', r.perform ctx rng = some (x, ctx', rng) ∧ Faithful σ r x := by
  cases r with
  | byte name =>
    obtain ⟨x, ctx', hx, hsymbolic, hvalue⟩ := getSymbolic_of_holding (h _ List.mem_cons_self) rng
    exact ⟨x, ctx', hx, fun _ => hsymbolic, hvalue⟩
  | word name =>
    obtain ⟨x, ctx', hx, hsymbolic, hvalue⟩ := getSymbolic_of_holding (h _ List.mem_cons_self) rng
    exact ⟨x, ctx', hx, fun _ => hsymbolic, hvalue⟩
  | bytes name size =>
    obtain ⟨x, ctx', hx, hsymbolic, hvalue⟩ := getSymbolicBytes_of_holding name size hnodup h rng
    refine ⟨x, ctx', hx, fun hvars => hsymbolic ?_, hvalue⟩
    rintro rfl
    exact hvars rfl

/-! ## A sequence of requests -/

theorem exists_variableArray {array : SymbolicArray} (h : array.size = 1 ∨ array.size = 4) :
    ∃ T, array = variableArray T array.name := by
  obtain ⟨name, size⟩ := array
  obtain rfl | rfl := h
  · exact ⟨.uint8, rfl⟩
  · exact ⟨.uint32, rfl⟩

/-- The store holds every bound variable. -/
theorem getStore_of_oneSize (h : getStore a = some store) (hone : OneSize a.objects)
    {array : SymbolicArray} (harray : array ∈ a.objects) :
    ∃ T, array = variableArray T array.name ∧
      store array.name = some (IntValue.mk T ((readVariable T array.name).eval a.values)) := by
  obtain ⟨hobjects, hvalues⟩ := getStore_spec h
  obtain ⟨value, hvalue⟩ := hobjects _ harray
  obtain ⟨T, hmem, rfl⟩ := hvalues array.name value hvalue
  exact ⟨T, hone _ harray _ hmem rfl, hvalue⟩

/-- What agrees with the store agrees with the assignment. -/
theorem binds_of_agrees (h : getStore a = some store) (hone : OneSize a.objects)
    (hσ : Agrees σ store) : a.Binds σ := by
  intro array harray
  obtain ⟨T, harrayT, hstore⟩ := getStore_of_oneSize h hone harray
  rw [harrayT]
  exact readVariable_injective (hσ _ T _ hstore)

theorem replays_of_holding (rs : List SymbolicRequest)
    (hnodup : ((rs.flatMap vars).map Prod.snd).Nodup)
    (h : ∀ v ∈ rs.flatMap vars, variableArray v.1 v.2 ∈ a.objects →
      Holding a.values ctx v) (rng : Rand) : Replays a rs ctx rng := by
  induction rs generalizing ctx rng with
  | nil => trivial
  | cons r rs ih =>
    rw [List.flatMap_cons, List.map_append, List.nodup_append'] at hnodup
    obtain ⟨hr, hrs, hdisjoint⟩ := hnodup
    have hfirst : Bound a r → ∃ x ctx', r.perform ctx rng = some (x, ctx', rng) ∧
        Faithful a.values r x := fun hbound => perform_of_holding hr
      (fun v hv => h v (List.mem_append_left _ hv) (hbound v hv)) rng
    rw [Replays]
    cases hperform : r.perform ctx rng with
    | none =>
      intro hbound
      obtain ⟨x, ctx', hx, -⟩ := hfirst hbound
      rw [hperform] at hx
      cases hx
    | some p =>
      obtain ⟨x, ctx', rng'⟩ := p
      refine ⟨fun hbound => ?_, ih hrs (fun v hv hmem => ?_) rng'⟩
      · obtain ⟨y, ctx'', hy, hfaithful⟩ := hfirst hbound
        cases hperform.symm.trans hy
        exact hfaithful
      · rw [Holding, nextRun_perform hperform fun hin =>
          hdisjoint hin (List.mem_map_of_mem hv)]
        exact h v (List.mem_append_right _ hv) hmem

theorem exists_getStore (hsizes : ∀ array ∈ a.objects, array.size = 1 ∨ array.size = 4) :
    ∃ store, getStore a = some store := by
  obtain ⟨objects, σ⟩ := a
  unfold getStore
  generalize (fun _ => none : ConcreteStore) = store
  induction objects generalizing store with
  | nil => exact ⟨store, rfl⟩
  | cons array objects ih =>
    obtain ⟨T, harray⟩ := exists_variableArray (hsizes array List.mem_cons_self)
    have henter : enterObject σ store array = some (Function.update store array.name
        (some (IntValue.mk T ((readVariable T array.name).eval σ)))) := by
      rw [enterObject, harray, intFromVector_variableArray]
      rfl
    rw [List.foldlM_cons, henter]
    exact ih (fun array harray => hsizes array (List.mem_cons_of_mem _ harray)) _

/-- The request for one variable. -/
def requestOf : IntType → String → SymbolicRequest
  | .uint8, name => .byte name
  | .uint32, name => .word name

theorem vars_requestOf (T : IntType) (name : String) : (requestOf T name).vars = [(T, name)] := by
  cases T <;> rfl

/-- A variable of the other size is not returned. -/
theorem perform_requestOf {T' : IntType} {value : BitVec T'.width}
    (h : ctx.nextRun name = some (IntValue.mk T' value)) (hne : T ≠ T') (rng : Rand) :
    (requestOf T name).perform ctx rng = none := by
  cases T <;> cases T' <;> first
    | exact absurd rfl hne
    | simp [requestOf, perform, getSymbolicByte, getSymbolicWord, getSymbolic,
        findRemoveOrRandom, h, IntValue.mk, IntValue.getIf]

/-- Every assignment over arrays of one and four bytes goes into a store, from which all sequences
of requests that name no variable twice are replayed exactly when it has no arrays of two sizes for
one name. -/
theorem replays_iff (hsizes : ∀ array ∈ a.objects, array.size = 1 ∨ array.size = 4) :
    (∃ store, getStore a = some store ∧ ∀ rs : List SymbolicRequest,
      ((rs.flatMap vars).map Prod.snd).Nodup →
        ∀ (ctx : ExecutionContext) rng, Replays a rs (ctx.setupNewValues store) rng) ↔
          OneSize a.objects := by
  constructor
  · rintro ⟨store, hstore, hreplays⟩
    -- the variable that the store does not hold is not returned
    have htype : ∀ {T name}, variableArray T name ∈ a.objects →
        ∃ value, store name = some (IntValue.mk T value) := by
      intro T name hmem
      obtain ⟨hobjects, hvalues⟩ := getStore_spec hstore
      obtain ⟨value, hvalue : store name = some value⟩ := hobjects _ hmem
      obtain ⟨T', -, rfl⟩ := hvalues name value hvalue
      by_cases hT : T = T'
      · subst hT
        exact ⟨_, hvalue⟩
      · have hreplay := hreplays [requestOf T name] (by simp [vars_requestOf]) .empty fun _ => 0
        rw [Replays, perform_requestOf (extends_setupNewValues _ store _ _ hvalue) hT] at hreplay
        refine absurd (fun v hv => ?_) hreplay
        rw [vars_requestOf, List.mem_singleton] at hv
        rw [hv]
        exact hmem
    intro x hx y hy hname
    obtain ⟨T, hxT⟩ := exists_variableArray (hsizes x hx)
    obtain ⟨T', hyT⟩ := exists_variableArray (hsizes y hy)
    obtain ⟨v, hv⟩ := htype (hxT ▸ hx)
    obtain ⟨v', hv'⟩ := htype (hyT ▸ hy)
    rw [← hname, hv, Option.some.injEq] at hv'
    rw [hxT, hyT, hname, IntValue.mk_eq_mk hv']
  · intro hone
    obtain ⟨store, hstore⟩ := exists_getStore hsizes
    refine ⟨store, hstore, fun rs hnodup ctx rng => ?_⟩
    refine replays_of_holding rs hnodup (fun v _ hmem => ?_) rng
    obtain ⟨T, hT, hvalue⟩ := getStore_of_oneSize hstore hone hmem
    obtain rfl : v.1 = T := by
      generalize v.1 = T' at hT
      cases T <;> cases T' <;> first | rfl | cases hT
    exact extends_setupNewValues ctx store _ _ hvalue

/-- A word that is bound. -/
def oneWord : Assignment := ⟨[⟨"x", 4⟩], fun _ i => BitVec.ofNat 8 i⟩

theorem oneWord_replays : OneSize oneWord.objects ∧ ∃ store, getStore oneWord = some store ∧
    ∀ rs : List SymbolicRequest, ((rs.flatMap vars).map Prod.snd).Nodup →
      ∀ (ctx : ExecutionContext) rng, Replays oneWord rs (ctx.setupNewValues store) rng :=
  have hone : OneSize oneWord.objects := by decide
  ⟨hone, (replays_iff (a := oneWord) (by decide)).mpr hone⟩

/-- A byte and a word of the same name. -/
def byteAndWord : Assignment := ⟨[⟨"x", 1⟩, ⟨"x", 4⟩], fun _ _ => 1#8⟩

/-- The word has taken the place of the byte in the store, and the request for the byte fails. -/
theorem byteAndWord_not_replays :
    (∀ array ∈ byteAndWord.objects, array.size = 1 ∨ array.size = 4) ∧
    Bound byteAndWord (.byte "x") ∧ ∃ store, getStore byteAndWord = some store ∧
      ¬ Replays byteAndWord [.byte "x"] (ExecutionContext.empty.setupNewValues store)
        fun _ => 0 := by
  refine ⟨by decide, by decide, _, rfl, ?_⟩
  exact fun h => absurd (show Bound byteAndWord (.byte "x") by decide) h

end SpsVp.Clover
