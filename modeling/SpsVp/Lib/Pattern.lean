import Mathlib.Data.List.Basic

/-!
# Patterns with backtracking

A regular expression with groups, as a backtracking engine sees it: the ways in which it matches the
front of a text, in the order in which they are tried. The engine takes the first way, and `search`
takes the first position of the text at which there is one.
-/

namespace SpsVp.Lib

/-- What is captured and what is left of the text, for every way to match, the first ones being
tried first. -/
abbrev Pattern (κ α : Type) := List κ → List (α × List κ)

namespace Pattern

variable {κ α β : Type}

/-- The empty pattern. -/
def give (a : α) : Pattern κ α := fun s => [(a, s)]

/-- A character of a class. -/
def char (p : κ → Bool) : Pattern κ κ
  | [] => []
  | c :: s => if p c then [(c, s)] else []

/-- As many characters of a class as possible, and fewer ones after that. -/
def star (p : κ → Bool) : Pattern κ (List κ)
  | [] => [([], [])]
  | c :: s =>
    if p c then (star p s).map (fun r => (c :: r.1, r.2)) ++ [([], c :: s)] else [([], c :: s)]

/-- One pattern after the other. -/
def seq (x : Pattern κ α) (k : α → Pattern κ β) : Pattern κ β := fun s =>
  (x s).flatMap fun r => k r.1 r.2

/-- One of two patterns, the first one being preferred. -/
def alt (x y : Pattern κ α) : Pattern κ α := fun s => x s ++ y s

/-- At least one character of a class. -/
def plus (p : κ → Bool) : Pattern κ (List κ) :=
  seq (char p) fun c => seq (star p) fun cs => give (c :: cs)

/-- The characters of a text. -/
def literal [DecidableEq κ] : List κ → Pattern κ Unit
  | [] => give ()
  | c :: cs => seq (char (· == c)) fun _ => literal cs

/-- The first way at the first position with one. -/
def search (x : Pattern κ α) : List κ → Option α
  | [] => (x []).head?.map Prod.fst
  | c :: s => (x (c :: s)).head?.elim (search x s) fun r => some r.1

/-! ## What is captured -/

variable {x : Pattern κ α} {k : α → Pattern κ β} {s rest cs : List κ} {p : κ → Bool}

theorem mem_seq {b : β} :
    (b, rest) ∈ seq x k s ↔ ∃ a s', (a, s') ∈ x s ∧ (b, rest) ∈ k a s' := by
  simp only [seq, List.mem_flatMap, Prod.exists]

theorem mem_char {c : κ} :
    (c, rest) ∈ char p s ↔ s = c :: rest ∧ p c = true := by
  cases s with
  | nil => simp [char]
  | cons c' s =>
    rw [char]
    split_ifs with h
    · simp only [List.mem_singleton, Prod.mk.injEq, List.cons.injEq]
      constructor
      · rintro ⟨rfl, rfl⟩
        exact ⟨⟨rfl, rfl⟩, h⟩
      · rintro ⟨⟨rfl, rfl⟩, _⟩
        exact ⟨rfl, rfl⟩
    · simp only [List.not_mem_nil, List.cons.injEq, false_iff]
      rintro ⟨⟨rfl, _⟩, hp⟩
      exact h hp

theorem of_mem_star (h : (cs, rest) ∈ star p s) :
    s = cs ++ rest ∧ ∀ c ∈ cs, p c = true := by
  induction s generalizing cs with
  | nil =>
    obtain ⟨rfl, rfl⟩ := Prod.mk.inj (List.mem_singleton.mp h)
    exact ⟨rfl, nofun⟩
  | cons c s ih =>
    rw [star] at h
    split_ifs at h with hc
    · obtain hmore | hless := List.mem_append.mp h
      · obtain ⟨⟨cs', rest'⟩, hmem, heq⟩ := List.mem_map.mp hmore
        obtain ⟨rfl, rfl⟩ := Prod.mk.inj heq
        obtain ⟨rfl, hall⟩ := ih hmem
        refine ⟨rfl, fun d hd => ?_⟩
        obtain rfl | hd := List.mem_cons.mp hd
        · exact hc
        · exact hall d hd
      · obtain ⟨rfl, rfl⟩ := Prod.mk.inj (List.mem_singleton.mp hless)
        exact ⟨rfl, nofun⟩
    · obtain ⟨rfl, rfl⟩ := Prod.mk.inj (List.mem_singleton.mp h)
      exact ⟨rfl, nofun⟩

theorem of_mem_plus (h : (cs, rest) ∈ plus p s) :
    s = cs ++ rest ∧ cs ≠ [] ∧ ∀ c ∈ cs, p c = true := by
  obtain ⟨c, s', hchar, h⟩ := mem_seq.mp h
  obtain ⟨cs', s'', hstar, hgive⟩ := mem_seq.mp h
  obtain ⟨rfl, rfl⟩ := Prod.mk.inj (List.mem_singleton.mp hgive)
  obtain ⟨rfl, hc⟩ := mem_char.mp hchar
  obtain ⟨rfl, hall⟩ := of_mem_star hstar
  refine ⟨rfl, List.cons_ne_nil _ _, fun d hd => ?_⟩
  obtain rfl | hd := List.mem_cons.mp hd
  · exact hc
  · exact hall d hd

/-- What is found is a match at some position. -/
theorem of_search {a : α} (h : search x s = some a) :
    ∃ s' rest, (a, rest) ∈ x s' := by
  induction s with
  | nil =>
    rw [search] at h
    obtain ⟨⟨a', rest⟩, hhead, rfl⟩ := Option.map_eq_some_iff.mp h
    exact ⟨[], rest, List.mem_of_mem_head? hhead⟩
  | cons c s ih =>
    rw [search] at h
    cases hhead : (x (c :: s)).head? with
    | none =>
      rw [hhead] at h
      exact ih h
    | some r =>
      rw [hhead] at h
      cases h
      exact ⟨c :: s, r.2, List.mem_of_mem_head? hhead⟩

/-! ## What is tried first -/

theorem seq_of_eq {a : α}
    (h : x s = [(a, rest)]) : seq x k s = k a rest := by
  rw [seq, h, List.flatMap_singleton]

theorem literal_append [DecidableEq κ] (cs s : List κ) : literal cs (cs ++ s) = [((), s)] := by
  induction cs with
  | nil => rfl
  | cons c cs ih =>
    have hchar : char (· == c) (c :: (cs ++ s)) = [(c, cs ++ s)] := if_pos (beq_self_eq_true c)
    rw [literal, List.cons_append, seq_of_eq hchar, ih]

/-- A text that starts with another character. -/
theorem literal_cons_of_ne [DecidableEq κ] {c d : κ} (h : d ≠ c) (cs s : List κ) :
    literal (c :: cs) (d :: s) = [] := by
  have hchar : char (· == c) (d :: s) = [] := if_neg (by simpa using h)
  rw [literal, seq, hchar, List.flatMap_nil]

/-- The longest run of characters after which the rest of a pattern matches is tried first. -/
theorem head?_star_seq {k : List κ → Pattern κ β} {r : β × List κ}
    (hcs : ∀ c ∈ cs, p c = true) (hk : (k cs rest).head? = some r)
    (hlonger : ∀ more rest', rest = more ++ rest' → more ≠ [] → (∀ c ∈ more, p c = true) →
      k (cs ++ more) rest' = []) : (seq (star p) k (cs ++ rest)).head? = some r := by
  induction cs generalizing k with
  | nil =>
    cases rest with
    | nil =>
      rw [List.nil_append, seq_of_eq rfl]
      exact hk
    | cons c rest =>
      rw [List.nil_append, seq, star]
      split_ifs with hc
      · have hnone : ((star p rest).map fun r => (c :: r.1, r.2)).flatMap
            (fun r => k r.1 r.2) = [] := by
          rw [List.flatMap_eq_nil_iff]
          intro r' hr'
          obtain ⟨⟨more, rest'⟩, hmem, rfl⟩ := List.mem_map.mp hr'
          obtain ⟨rfl, hall⟩ := of_mem_star hmem
          refine hlonger (c :: more) rest' rfl (List.cons_ne_nil _ _) fun d hd => ?_
          obtain rfl | hd := List.mem_cons.mp hd
          · exact hc
          · exact hall d hd
        rw [List.flatMap_append, hnone, List.nil_append, List.flatMap_singleton]
        exact hk
      · rw [List.flatMap_singleton]
        exact hk
  | cons c cs ih =>
    have hrest := ih (k := fun cs => k (c :: cs)) (fun d hd => hcs d (List.mem_cons_of_mem _ hd)) hk
      hlonger
    rw [List.cons_append, seq, star, if_pos (hcs c List.mem_cons_self), List.flatMap_append,
      List.flatMap_map, List.head?_append]
    rw [seq] at hrest
    rw [hrest]
    rfl

theorem head?_plus_seq {k : List κ → Pattern κ β} {r : β × List κ}
    (hne : cs ≠ []) (hcs : ∀ c ∈ cs, p c = true) (hk : (k cs rest).head? = some r)
    (hlonger : ∀ more rest', rest = more ++ rest' → more ≠ [] → (∀ c ∈ more, p c = true) →
      k (cs ++ more) rest' = []) : (seq (plus p) k (cs ++ rest)).head? = some r := by
  cases cs with
  | nil => exact absurd rfl hne
  | cons c cs =>
    have hchar : char p (c :: (cs ++ rest)) = [(c, cs ++ rest)] :=
      if_pos (hcs c List.mem_cons_self)
    have hplus : seq (plus p) k (c :: (cs ++ rest)) =
        seq (star p) (fun cs => k (c :: cs)) (cs ++ rest) := by
      rw [seq, plus, seq_of_eq hchar, seq, seq, List.flatMap_assoc]
      simp only [give, List.flatMap_singleton]
    rw [List.cons_append, hplus]
    exact head?_star_seq (fun d hd => hcs d (List.mem_cons_of_mem _ hd)) hk hlonger

/-- A match at the start of the text. -/
theorem search_of_head? {r : α × List κ} (h : (x s).head? = some r) :
    search x s = some r.1 := by
  cases s <;> rw [search, h] <;> rfl

end Pattern

end SpsVp.Lib
