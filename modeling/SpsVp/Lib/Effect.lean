import Mathlib.Logic.Basic

/-!
# Computations that change a state and may throw

`EStateM ε S α` with the state of the throw kept, as the members of a C++ object keep what was
assigned before an exception. `zoom` runs a computation on a part of the state, `attempt` is the
`try` block, and `switch` is the statement of C with a `break` after every case.
-/

namespace SpsVp.Lib

/-- The first case whose label is the value, or the default. -/
def switch {κ : Type*} [DecidableEq κ] {α : Type*} (x : κ) : List (κ × α) → α → α
  | [], default => default
  | (label, a) :: cases, default => if x = label then a else switch x cases default

/-- What holds of every case under its label and of the default holds of a `switch`. -/
theorem switch_induction {κ : Type*} [DecidableEq κ] {α : Type*} {P : α → Prop} {x : κ}
    {cases : List (κ × α)} {default : α} (hdefault : x ∉ cases.map Prod.fst → P default)
    (hcases : ∀ c ∈ cases, x = c.1 → P c.2) : P (switch x cases default) := by
  induction cases with
  | nil => exact hdefault List.not_mem_nil
  | cons c cases ih =>
    obtain ⟨label, a⟩ := c
    rw [switch]
    split
    · next h => exact hcases _ List.mem_cons_self h
    · next h =>
      refine ih (fun hx => hdefault ?_) fun c hc => hcases c (List.mem_cons_of_mem _ hc)
      simpa [h] using hx

/-- A computation on the state `S` that returns an `α` or throws an `ε`. -/
abbrev Effect (ε S α : Type) := EStateM ε S α

namespace Effect

variable {ε S T α β : Type}

/-- The state in which a computation returns or throws. -/
def final : EStateM.Result ε S α → S
  | .ok _ s => s
  | .error _ s => s

/-- What a computation throws. -/
def thrown : EStateM.Result ε S α → Option ε
  | .ok _ _ => none
  | .error e _ => some e

variable {r : EStateM.Result ε S α} {e : ε} {x : Effect ε S α} {f : α → Effect ε S β} {s s' : S}
  {a : α}

theorem eq_error_of_thrown (h : thrown r = some e) :
    ∃ s, r = .error e s := by
  cases r with
  | ok a s => cases h
  | error e' s =>
    cases h
    exact ⟨s, rfl⟩

/-- What a computation returns or throws. -/
def outcome : EStateM.Result ε S α → Except ε α
  | .ok a _ => .ok a
  | .error e _ => .error e

/-- A computation returns in a state with a property. -/
def returnsIn (p : S → Bool) : EStateM.Result ε S α → Bool
  | .ok _ s => p s
  | .error _ _ => false

theorem eq_ok_of_returnsIn {p : S → Bool} (h : returnsIn p r = true) :
    ∃ a s, r = .ok a s ∧ p s = true := by
  cases r with
  | ok a s => exact ⟨a, s, rfl, h⟩
  | error e s => cases h

/-- The result on a changed state. -/
def mapState (f : S → T) : EStateM.Result ε S α → EStateM.Result ε T α
  | .ok a s => .ok a (f s)
  | .error e s => .error e (f s)

/-- A computation on a part of the state. -/
def zoom (get : S → T) (set : T → S → S) (x : Effect ε T α) : Effect ε S α := fun s =>
  mapState (fun t => set t s) (x (get s))

/-- A computation with its exceptions wrapped in those of its caller. -/
def mapError {ε' : Type} (f : ε → ε') (x : Effect ε S α) : Effect ε' S α := fun s =>
  match x s with
  | .ok a t => .ok a t
  | .error e t => .error (f e) t

/-- A computation with what it throws as a value. -/
def attempt (x : Effect ε S α) : Effect ε S (Except ε α) := fun s =>
  match x s with
  | .ok a s => .ok (.ok a) s
  | .error e s => .ok (.error e) s

theorem bind_of_ok
    (h : x s = .ok a s') : (x >>= f) s = f a s' := by
  change EStateM.bind x f s = _
  rw [EStateM.bind, h]

theorem bind_of_error
    (h : x s = .error e s') : (x >>= f) s = .error e s' := by
  change EStateM.bind x f s = _
  rw [EStateM.bind, h]

theorem zoom_of_ok {get : S → T} {set : T → S → S} {x : Effect ε T α} {t : T}
    (h : x (get s) = .ok a t) : zoom get set x s = .ok a (set t s) := by
  rw [zoom, h, mapState]

theorem zoom_of_error {get : S → T} {set : T → S → S} {x : Effect ε T α} {t : T}
    (h : x (get s) = .error e t) : zoom get set x s = .error e (set t s) := by
  rw [zoom, h, mapState]

theorem mapError_eq_ok {ε' : Type} {f : ε → ε'} {t : S} :
    mapError f x s = .ok a t ↔ x s = .ok a t := by
  rw [mapError]
  cases x s <;> simp

theorem attempt_of_ok (h : x s = .ok a s') : attempt x s = .ok (.ok a) s' := by
  rw [attempt, h]

theorem attempt_of_error (h : x s = .error e s') : attempt x s = .ok (.error e) s' := by
  rw [attempt, h]

theorem attempt_eq_ok (h : attempt x s = .ok (.ok a) s') :
    x s = .ok a s' := by
  rw [attempt] at h
  cases hx : x s with
  | ok b t =>
    rw [hx] at h
    cases h
    rfl
  | error e t =>
    rw [hx] at h
    cases h

/-- A loop whose body returns without a change of the state. -/
theorem foldlM_of_ok {f : β → α → Effect ε S β} {g : β → α → β} {l : List α}
    (h : ∀ b, ∀ a ∈ l, f b a s = .ok (g b a) s) (b : β) :
    l.foldlM f b s = .ok (l.foldl g b) s := by
  induction l generalizing b with
  | nil => rfl
  | cons a l ih =>
    rw [List.foldlM_cons, bind_of_ok (h b a List.mem_cons_self), List.foldl_cons]
    exact ih (fun b a ha => h b a (List.mem_cons_of_mem _ ha)) _

/-- A loop whose body changes the state. -/
theorem forM_modify (f : α → S → S) (l : List α) (s : S) :
    (l.forM fun a => (modify (f a) : Effect ε S PUnit)) s =
      .ok ⟨⟩ (l.foldl (fun s a => f a s) s) := by
  induction l generalizing s with
  | nil => rfl
  | cons a l ih => exact ih (f a s)

/-- How a sequence of computations returns. -/
theorem bind_eq_ok {t : S} {b : β}
    (h : (x >>= f) s = .ok b t) : ∃ a s', x s = .ok a s' ∧ f a s' = .ok b t := by
  cases hx : x s with
  | ok a s' => exact ⟨a, s', rfl, (bind_of_ok hx).symm.trans h⟩
  | error e s' =>
    rw [bind_of_error hx] at h
    cases h

end Effect

end SpsVp.Lib
