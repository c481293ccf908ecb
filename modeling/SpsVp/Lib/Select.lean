import Mathlib.Data.BitVec
import Mathlib.Data.List.Basic

/-!
# Selection by priority

A loop over the numbers from one on that keeps the candidate of the highest priority so far, and the
first one among those of the same priority. Zero stands for no candidate, so a candidate has a
positive number and a positive priority.
-/

namespace SpsVp.Lib.Select

variable {w : Nat} (p : Nat → Prop) [DecidablePred p] (prio : Nat → BitVec w)

/-- The better one of the best candidate so far and another number. -/
def better (best : Nat × BitVec w) (i : Nat) : Nat × BitVec w :=
  if p i ∧ best.2 < prio i then (i, prio i) else best

/-- The first candidate of the highest priority among the numbers up to `n`. -/
inductive IsBest (n : Nat) : Nat × BitVec w → Prop where
  | none (h : ∀ i ≤ n, ¬ p i) : IsBest n (0, 0#w)
  | some {m : Nat} (hm : m ≤ n) (h : p m) (highest : ∀ i ≤ n, p i → prio i ≤ prio m)
      (lowest : ∀ i ≤ n, p i → prio i = prio m → m ≤ i) : IsBest n (m, prio m)

variable {p prio} {n : Nat} {best : Nat × BitVec w}

theorem IsBest.better (hpos : ∀ i, p i → 0#w < prio i) (h : IsBest p prio n best) :
    IsBest p prio (n + 1) (better p prio best (n + 1)) := by
  unfold Select.better
  split_ifs with hbetter
  · -- every earlier candidate has a lower priority
    have hlower : ∀ i ≤ n, p i → prio i < prio (n + 1) := by
      intro i hi hp
      cases h with
      | none hnone => exact absurd hp (hnone i hi)
      | some _ _ highest _ => exact Nat.lt_of_le_of_lt (highest i hi hp) hbetter.2
    refine .some le_rfl hbetter.1 (fun i hi hp => ?_) fun i hi hp hsame => ?_
    · obtain hle | rfl := Nat.le_or_eq_of_le_succ hi
      · exact Nat.le_of_lt (hlower i hle hp)
      · exact BitVec.le_refl _
    · obtain hle | rfl := Nat.le_or_eq_of_le_succ hi
      · exact absurd (hlower i hle hp) (hsame ▸ BitVec.lt_irrefl _)
      · exact le_rfl
  · cases h with
    | none hnone =>
      refine .none fun i hi hp => ?_
      obtain hle | rfl := Nat.le_or_eq_of_le_succ hi
      · exact hnone i hle hp
      · exact hbetter ⟨hp, hpos _ hp⟩
    | some hm hp highest lowest =>
      refine .some (Nat.le_succ_of_le hm) hp (fun i hi hi' => ?_) fun i hi hi' hsame => ?_
      · obtain hle | rfl := Nat.le_or_eq_of_le_succ hi
        · exact highest i hle hi'
        · exact BitVec.not_lt.mp fun hlt => hbetter ⟨hi', hlt⟩
      · obtain hle | rfl := Nat.le_or_eq_of_le_succ hi
        · exact lowest i hle hi' hsame
        · exact Nat.le_succ_of_le hm

/-- What the loop comes to. -/
theorem isBest_foldl (hpos : ∀ i, p i → 0 < i ∧ 0#w < prio i) (n : Nat) :
    IsBest p prio n ((List.range' 1 n).foldl (better p prio) (0, 0#w)) := by
  induction n with
  | zero =>
    refine .none fun i hi hp => ?_
    have := (hpos i hp).1
    omega
  | succ n ih =>
    rw [List.range'_1_concat, List.foldl_append, List.foldl_cons, List.foldl_nil, Nat.add_comm 1 n]
    exact ih.better fun i hp => (hpos i hp).2

end SpsVp.Lib.Select
