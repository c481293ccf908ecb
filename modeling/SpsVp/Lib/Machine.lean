import Mathlib.Logic.Basic

/-!
# Reachable states of a machine

A machine is given by its initial states and a partial step function. `Reachable.invariant` is the
rule for invariants: what holds initially and is kept by every step from a reachable state holds in
all reachable states.
-/

namespace SpsVp.Lib

/-- The states that a machine can reach. -/
inductive Reachable {S : Type*} (initial : S → Prop) (step : S → Option S) : S → Prop where
  | initial {s : S} (h : initial s) : Reachable initial step s
  | step {s s' : S} (hs : Reachable initial step s) (h : step s = some s') :
      Reachable initial step s'

variable {S : Type*}

variable {step : S → Option S}

/-- What holds initially and is kept by every step from a reachable state holds in every reachable
state. -/
theorem Reachable.invariant {initial : S → Prop} {P : S → Prop}
    (hinit : ∀ s, initial s → P s)
    (hstep : ∀ s s', Reachable initial step s → P s → step s = some s' → P s') {s : S}
    (hs : Reachable initial step s) : P s := by
  induction hs with
  | initial h => exact hinit _ h
  | step hs h ih => exact hstep _ _ hs ih h

/-- A fixed number of steps. -/
def runSteps {S : Type*} (step : S → Option S) : Nat → S → Option S
  | 0, s => some s
  | n + 1, s => step s >>= runSteps step n

/-- A run begins with a step. -/
theorem runSteps_of_eq_some {s t : S} (h : step s = some t)
    (n : Nat) : runSteps step (n + 1) s = runSteps step n t := by
  rw [runSteps, h]
  rfl

/-- A run of one more step. -/
theorem runSteps_succ (step : S → Option S) (n : Nat) (s : S) :
    runSteps step (n + 1) s = runSteps step n s >>= step := by
  induction n generalizing s with
  | zero =>
    change step s >>= some = step s
    exact Option.bind_fun_some _
  | succ n ih =>
    have hn : runSteps step (n + 1) = fun s => runSteps step n s >>= step := funext ih
    change step s >>= runSteps step (n + 1) = (step s >>= runSteps step n) >>= step
    rw [hn]
    exact (Option.bind_assoc _ _ _).symm

/-- A shorter run. -/
theorem runSteps_of_le {m n : Nat} {s t : S} (hmn : m ≤ n)
    (h : runSteps step n s = some t) : ∃ u, runSteps step m s = some u := by
  induction hmn generalizing t with
  | refl => exact ⟨t, h⟩
  | step _ ih =>
    rw [runSteps_succ] at h
    obtain ⟨u, hu, _⟩ := Option.bind_eq_some_iff.mp h
    exact ih hu

/-- A run from a reachable state ends in one. -/
theorem Reachable.run {initial : S → Prop} {n : Nat} {s s' : S}
    (hs : Reachable initial step s) (h : runSteps step n s = some s') :
    Reachable initial step s' := by
  induction n generalizing s with
  | zero =>
    cases h
    exact hs
  | succ n ih =>
    simp only [runSteps, Option.bind_eq_bind, Option.bind_eq_some_iff] at h
    obtain ⟨mid, hmid, h⟩ := h
    exact ih (hs.step hmid) h

end SpsVp.Lib
