import Mathlib.Data.List.Basic

/-!
# Parsers over lists

A parser takes symbols from the front of its input, or fails. The combinators are those of a small
parser library: single symbols, sequence, ordered choice and repetition. Each has one rule that says
what it does on an input whose front is known.
-/

namespace SpsVp.Lib

/-- What is read, and the rest of the input. -/
abbrev Parser (σ α : Type) := List σ → Option (α × List σ)

namespace Parser

variable {σ α β γ : Type}

/-- A single symbol with a property. -/
def satisfy (p : σ → Bool) : Parser σ σ
  | [] => none
  | c :: cs => if p c then some (c, cs) else none

def any : Parser σ σ := satisfy fun _ => true

def char [DecidableEq σ] (c : σ) : Parser σ σ := satisfy (· = c)

def oneOf [DecidableEq σ] (s : List σ) : Parser σ σ := satisfy (· ∈ s)

def noneOf [DecidableEq σ] (s : List σ) : Parser σ σ := satisfy (· ∉ s)

def map (f : α → β) (p : Parser σ α) : Parser σ β := fun input =>
  (p input).map fun r => (f r.1, r.2)

/-- Two parsers one after the other, with the results combined. -/
def seq (f : α → β → γ) (p : Parser σ α) (q : Parser σ β) : Parser σ γ := fun input =>
  (p input).bind fun r => (q r.2).map fun s => (f r.1 s.1, s.2)

/-- The first parser that succeeds. -/
def orElse (p q : Parser σ α) : Parser σ α := fun input => (p input).or (q input)

/-- A parser is repeated until it fails, at most this many times. -/
def repeated (p : Parser σ α) : Nat → List σ → List α × List σ
  | 0, input => ([], input)
  | n + 1, input =>
    match p input with
    | none => ([], input)
    | some (a, rest) => (a :: (repeated p n rest).1, (repeated p n rest).2)

/-- A parser that takes at least one symbol is repeated until it fails. -/
def many (p : Parser σ α) : Parser σ (List α) := fun input => some (repeated p input.length input)

/-! ## Rules -/

variable {p : σ → Bool} {input : List σ}

theorem satisfy_cons {c : σ} (h : p c = true) (cs : List σ) :
    satisfy p (c :: cs) = some (c, cs) := by
  rw [satisfy, if_pos h]

theorem satisfy_cons_of_false {c : σ} (h : p c = false) (cs : List σ) :
    satisfy p (c :: cs) = none := by
  rw [satisfy, if_neg (by rw [h]; exact Bool.false_ne_true)]

theorem char_cons [DecidableEq σ] (c : σ) (cs : List σ) : char c (c :: cs) = some (c, cs) :=
  satisfy_cons (p := (· = c)) (decide_eq_true rfl) cs

theorem seq_eq_some {p : Parser σ α} {q : Parser σ β} {middle rest : List σ} {a : α} {b : β}
    (hp : p input = some (a, middle)) (hq : q middle = some (b, rest)) (f : α → β → γ) :
    seq f p q input = some (f a b, rest) := by
  rw [seq, hp, Option.bind_some, hq, Option.map_some]

theorem orElse_eq_left {p q : Parser σ α} {r : α × List σ}
    (h : p input = some r) : orElse p q input = some r := by
  rw [orElse, h, Option.some_or]

theorem orElse_eq_right {p q : Parser σ α} (h : p input = none) :
    orElse p q input = q input := by
  rw [orElse, h, Option.none_or]

/-- Symbols with a property are read up to the first one without it. -/
theorem many_satisfy (cs rest : List σ) (h : ∀ c ∈ cs, p c = true)
    (hrest : satisfy p rest = none) : many (satisfy p) (cs ++ rest) = some (cs, rest) := by
  have hloop : ∀ n, cs.length ≤ n → repeated (satisfy p) n (cs ++ rest) = (cs, rest) := by
    induction cs with
    | nil =>
      intro n _
      cases n with
      | zero => rfl
      | succ n => rw [List.nil_append, repeated, hrest]
    | cons c cs ih =>
      intro n hn
      cases n with
      | zero => exact absurd hn (Nat.not_succ_le_zero _)
      | succ n =>
        have hcs := ih (fun d hd => h d (List.mem_cons_of_mem c hd)) n (Nat.le_of_succ_le_succ hn)
        rw [List.cons_append, repeated, satisfy_cons (h c List.mem_cons_self)]
        simp only [hcs]
  rw [many, hloop _ (by rw [List.length_append]; exact Nat.le_add_right _ _)]

end Parser

end SpsVp.Lib
