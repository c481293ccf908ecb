import Mathlib.Data.List.Infix

/-!
# Binary trees addressed by direction sequences

A mutable binary tree whose nodes are reached from the root by a sequence of directions. A node may
carry a label, and a node without one is a placeholder. Nodes never move and are never deleted, so
the direction sequence that leads to a node serves as its address.

The two updates are `relabel`, which changes a label in place, and `grow`, which labels a
placeholder and makes sure that it has a child in a given direction. For both, the address-wise
lemmas `valueAt_relabel` and `valueAt_grow` say what stands at an address afterwards, and
`WellFormed` is the shape that they keep: a placeholder has no child and a labelled node has one.
-/

namespace SpsVp.Lib

/-- A tree whose nodes carry optional labels; `null` is a missing child. -/
inductive DirTree (α : Type) where
  | null
  | node (value : Option α) (trueBranch falseBranch : DirTree α)
deriving DecidableEq

namespace DirTree

variable {α : Type}

/-- The tree has no node. -/
def isNull : DirTree α → Bool
  | .null => true
  | .node _ _ _ => false

@[simp] theorem isNull_eq_true {t : DirTree α} : t.isNull = true ↔ t = .null := by
  cases t <;> simp [isNull]

@[simp] theorem isNull_eq_false {t : DirTree α} : t.isNull = false ↔ t ≠ .null := by
  cases t <;> simp [isNull]

/-- The child in a direction. -/
def child : DirTree α → Bool → DirTree α
  | .null, _ => .null
  | .node _ trueBranch _, true => trueBranch
  | .node _ _ falseBranch, false => falseBranch

/-- The label at the root; `none` when there is no node, `some none` at a placeholder. -/
def value? : DirTree α → Option (Option α)
  | .null => none
  | .node value _ _ => some value

/-- The subtree at an address. -/
def sub : DirTree α → List Bool → DirTree α
  | t, [] => t
  | t, b :: d => (t.child b).sub d

/-- What stands at an address. -/
def valueAt (t : DirTree α) (d : List Bool) : Option (Option α) := (t.sub d).value?

@[simp] theorem sub_nil (t : DirTree α) : t.sub [] = t := rfl

@[simp] theorem sub_cons (t : DirTree α) (b : Bool) (d : List Bool) :
    t.sub (b :: d) = (t.child b).sub d := rfl

@[simp] theorem null_sub (d : List Bool) : (null : DirTree α).sub d = .null := by
  induction d with
  | nil => rfl
  | cons b d ih => exact ih

theorem sub_append (t : DirTree α) (d e : List Bool) : t.sub (d ++ e) = (t.sub d).sub e := by
  induction d generalizing t with
  | nil => rfl
  | cons b d ih => exact ih (t.child b)

@[simp] theorem value?_eq_none {t : DirTree α} : t.value? = none ↔ t = .null := by
  cases t <;> simp [value?]

/-- A placeholder alone has no label anywhere. -/
theorem valueAt_placeholder (d : List Bool) :
    (node none null null : DirTree α).valueAt d = if d = [] then some none else none := by
  cases d with
  | nil => rfl
  | cons b d => cases b <;> simp [valueAt, child]

/-- The number of nodes. -/
def size : DirTree α → Nat
  | .null => 0
  | .node _ trueBranch falseBranch => trueBranch.size + falseBranch.size + 1

/-- The number of labels with a property. -/
def countP (p : α → Bool) : DirTree α → Nat
  | .null => 0
  | .node value trueBranch falseBranch =>
    trueBranch.countP p + falseBranch.countP p + (value.any p).toNat

theorem countP_le_size (p : α → Bool) (t : DirTree α) : t.countP p ≤ t.size := by
  induction t with
  | null => rfl
  | node value trueBranch falseBranch iht ihf =>
    have hlabel : (value.any p).toNat ≤ 1 := Bool.toNat_le _
    simp only [countP, size]
    omega

/-! ## Changing a label -/

/-- Change the label at an address. -/
def relabel (f : α → α) : List Bool → DirTree α → DirTree α
  | _, .null => .null
  | [], .node value trueBranch falseBranch => .node (value.map f) trueBranch falseBranch
  | true :: d, .node value trueBranch falseBranch =>
    .node value (trueBranch.relabel f d) falseBranch
  | false :: d, .node value trueBranch falseBranch =>
    .node value trueBranch (falseBranch.relabel f d)

@[simp] theorem relabel_null (f : α → α) (d : List Bool) :
    (null : DirTree α).relabel f d = .null := by
  cases d with
  | nil => rfl
  | cons b d => cases b <;> rfl

theorem child_relabel_cons (f : α → α) (b : Bool) (d : List Bool) (t : DirTree α) (c : Bool) :
    (t.relabel f (b :: d)).child c = if c = b then (t.child b).relabel f d else t.child c := by
  cases t with
  | null => cases c <;> simp [child]
  | node value trueBranch falseBranch => cases b <;> cases c <;> simp [relabel, child]

/-- A relabelling changes the label at its address and nothing else. -/
theorem valueAt_relabel (f : α → α) (d e : List Bool) (t : DirTree α) :
    (t.relabel f d).valueAt e =
      if e = d then (t.valueAt d).map (Option.map f) else t.valueAt e := by
  induction d generalizing t e with
  | nil =>
    cases t with
    | null => simp [valueAt, value?]
    | node value trueBranch falseBranch =>
      cases e with
      | nil => simp [valueAt, relabel, value?]
      | cons b e => cases b <;> simp [valueAt, relabel, child]
  | cons b d ih =>
    cases e with
    | nil =>
      cases t with
      | null => simp [valueAt, value?]
      | node value trueBranch falseBranch => cases b <;> simp [valueAt, relabel, value?]
    | cons c e =>
      simp only [valueAt, sub_cons, child_relabel_cons] at ih ⊢
      by_cases hc : c = b
      · subst hc
        simpa using ih e (t.child c)
      · simp [hc]

variable {d : List Bool} {t : DirTree α} {x : α} {v : Option α}

/-- Relabelling one label out of a property lowers the count by one. -/
theorem countP_relabel {p : α → Bool} {f : α → α}
    (hx : t.valueAt d = some (some x)) (hp : p x = true) (hfx : p (f x) = false) :
    (t.relabel f d).countP p + 1 = t.countP p := by
  induction d generalizing t with
  | nil =>
    cases t with
    | null => simp [valueAt, value?] at hx
    | node value trueBranch falseBranch =>
      have hvalue : value = some x := by simpa [valueAt, value?] using hx
      simp [relabel, countP, hvalue, hp, hfx]
  | cons b d ih =>
    cases t with
    | null => simp [valueAt, value?, child] at hx
    | node value trueBranch falseBranch =>
      cases b with
      | true =>
        have := ih (t := trueBranch) hx
        simp only [relabel, countP]
        omega
      | false =>
        have := ih (t := falseBranch) hx
        simp only [relabel, countP]
        omega

/-! ## Growing -/

/-- The tree itself, or a new placeholder when there is no node. -/
def orPlaceholder : DirTree α → DirTree α
  | .null => .node none .null .null
  | t => t

/-- Label the node at an address if it is a placeholder, and create its child in direction `c` if
there is none. -/
def grow (x : α) (c : Bool) : List Bool → DirTree α → DirTree α
  | _, .null => .null
  | [], .node value trueBranch falseBranch =>
    match c with
    | true => .node (some (value.getD x)) trueBranch.orPlaceholder falseBranch
    | false => .node (some (value.getD x)) trueBranch falseBranch.orPlaceholder
  | true :: d, .node value trueBranch falseBranch =>
    .node value (trueBranch.grow x c d) falseBranch
  | false :: d, .node value trueBranch falseBranch =>
    .node value trueBranch (falseBranch.grow x c d)

theorem valueAt_orPlaceholder (t : DirTree α) (e : List Bool) :
    t.orPlaceholder.valueAt e = if e = [] then some ((t.valueAt []).getD none)
      else t.valueAt e := by
  cases t with
  | null =>
    cases e with
    | nil => rfl
    | cons b e => cases b <;> simp [orPlaceholder, valueAt, child, value?]
  | node value trueBranch falseBranch =>
    cases e with
    | nil | cons => rfl

/-- Growing labels the node at its address, makes sure of the child, and changes nothing else. -/
theorem valueAt_grow {c : Bool} {e : List Bool}
    (h : t.valueAt d = some v) :
    (t.grow x c d).valueAt e =
      if e = d then some (some (v.getD x))
      else if e = d ++ [c] then some ((t.valueAt e).getD none)
      else t.valueAt e := by
  induction d generalizing t e with
  | nil =>
    cases t with
    | null => simp [valueAt, value?] at h
    | node value trueBranch falseBranch =>
      have hvalue : value = v := by simpa [valueAt, value?] using h
      subst hvalue
      cases e with
      | nil => cases c <;> simp [grow, valueAt, value?]
      | cons b e =>
        -- only the child in direction `c` is replaced
        have hchild := valueAt_orPlaceholder (if c then trueBranch else falseBranch) e
        cases c <;> cases b <;> simp_all [grow, valueAt, child]
  | cons b d ih =>
    cases t with
    | null => simp [valueAt, value?, child] at h
    | node value trueBranch falseBranch =>
      cases e with
      | nil => cases b <;> simp [grow, valueAt, value?]
      | cons a e =>
        cases b with
        | true =>
          have := ih (e := e) (t := trueBranch) h
          cases a <;> simp_all [grow, valueAt, child]
        | false =>
          have := ih (e := e) (t := falseBranch) h
          cases a <;> simp_all [grow, valueAt, child]

/-- Growing keeps the labels that are there. -/
theorem valueAt_grow_of_label {y : α} {c : Bool} {e : List Bool} (hd : t.valueAt d = some v)
    (he : t.valueAt e = some (some y)) :
    (t.grow x c d).valueAt e = some (some y) := by
  rw [valueAt_grow hd]
  split_ifs with h1 h2
  · subst h1
    obtain rfl : v = some y := by simpa [hd] using he
    rfl
  · simp [he]
  · exact he

/-! ## Well-formed trees -/

/-- A placeholder has no child, and a labelled node has at least one. -/
structure WellFormed (t : DirTree α) : Prop where
  placeholder : ∀ d b, t.valueAt d = some none → t.valueAt (d ++ [b]) = none
  labelled : ∀ d x, t.valueAt d = some (some x) → ∃ b, t.valueAt (d ++ [b]) ≠ none

theorem WellFormed.child (h : t.WellFormed) (b : Bool) :
    (t.child b).WellFormed where
  placeholder d c := h.placeholder (b :: d) c
  labelled d x := h.labelled (b :: d) x

/-- A single placeholder. -/
theorem wellFormed_placeholder : (node none null null : DirTree α).WellFormed where
  placeholder d b _ := by
    cases d with
    | nil => cases b <;> rfl
    | cons c d => cases c <;> simp [valueAt, DirTree.child]
  labelled d x h := by
    cases d with
    | nil => simp [valueAt, value?] at h
    | cons c d => cases c <;> simp [valueAt, DirTree.child, value?] at h

/-- A relabelling neither creates nor removes nodes or labels. -/
theorem map_isSome_valueAt_relabel (f : α → α) (d e : List Bool) (t : DirTree α) :
    ((t.relabel f d).valueAt e).map Option.isSome = (t.valueAt e).map Option.isSome := by
  rw [valueAt_relabel]
  split_ifs with he
  · subst he
    cases t.valueAt e with
    | none => rfl
    | some v => cases v <;> rfl
  · rfl

/-- Well-formedness only depends on where nodes and labels are. -/
theorem WellFormed.of_map_isSome {u : DirTree α} (h : t.WellFormed)
    (hu : ∀ e, (u.valueAt e).map Option.isSome = (t.valueAt e).map Option.isSome) :
    u.WellFormed where
  placeholder e b he := by
    have ht : t.valueAt e = some none := by simpa [he] using (hu e).symm
    simpa [h.placeholder e b ht] using hu (e ++ [b])
  labelled e x he := by
    obtain ⟨y, hy⟩ : ∃ y, t.valueAt e = some (some y) := by
      have := hu e
      simp only [he, Option.map_some, Option.isSome_some] at this
      obtain ⟨v, hv, hsome⟩ := Option.map_eq_some_iff.mp this.symm
      obtain ⟨y, rfl⟩ := Option.isSome_iff_exists.mp hsome
      exact ⟨y, hv⟩
    obtain ⟨b, hb⟩ := h.labelled e y hy
    refine ⟨b, fun hnone => hb ?_⟩
    simpa [hnone] using (hu (e ++ [b])).symm

theorem WellFormed.relabel (h : t.WellFormed) (f : α → α) (d : List Bool) :
    (t.relabel f d).WellFormed :=
  h.of_map_isSome fun e => map_isSome_valueAt_relabel f d e t

theorem WellFormed.grow (h : t.WellFormed) (x : α) (c : Bool) (hd : t.valueAt d = some v) :
    (t.grow x c d).WellFormed where
  placeholder e b he := by
    rw [valueAt_grow hd] at he ⊢
    split_ifs at he with h1 h2
    · simp at he
    · -- the child in direction `c` is new or was a placeholder before
      subst h2
      have hb : t.valueAt (d ++ [c] ++ [b]) = none := by
        cases hc : t.valueAt (d ++ [c]) with
        | none =>
          simp only [valueAt, value?_eq_none] at hc ⊢
          rw [sub_append, hc, null_sub]
        | some v =>
          have hv : v = none := by simpa [hc] using he
          exact h.placeholder _ _ (hv ▸ hc)
      simpa using hb
    · have hb := h.placeholder e b he
      have h3 : e ++ [b] ≠ d := by
        rintro rfl
        simp [hb] at hd
      have h4 : e ++ [b] ≠ d ++ [c] := fun heq => h1 (List.append_inj_left' heq rfl)
      simp [h3, h4, hb]
  labelled e y he := by
    rw [valueAt_grow hd] at he
    by_cases h1 : e = d
    · subst h1
      exact ⟨c, by simp [valueAt_grow hd]⟩
    · have hold : t.valueAt e = some (some y) := by
        rw [if_neg h1] at he
        split_ifs at he with h2
        · cases hv : t.valueAt e with
          | none => simp [hv] at he
          | some v => simpa [hv] using he
        · exact he
      obtain ⟨b, hb⟩ := h.labelled e y hold
      refine ⟨b, ?_⟩
      rw [valueAt_grow hd]
      split_ifs <;> simp [hb]

end DirTree

end SpsVp.Lib
