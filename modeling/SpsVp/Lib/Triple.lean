import SpsVp.Lib.Effect

/-!
# Pre- and postconditions of computations with exceptions

`Triple P x Q E` says that `x`, started in a state with `P`, returns a value and a state with `Q` or
throws with `E`. There is one rule for every way to build a computation, so a property of a program
follows its text. `Maintains I E x` is the case of an invariant: `I` holds again where `x` returns.
A frame condition is the invariant that some function of the state has its old value.
-/

namespace SpsVp.Lib.Effect

variable {ε S T α β : Type}

/-- From a state with `P` a computation returns with `Q` or throws with `E`. -/
def Triple (P : S → Prop) (x : Effect ε S α) (Q : α → S → Prop) (E : ε → S → Prop) : Prop :=
  ∀ s, P s → match x s with
    | .ok a s' => Q a s'
    | .error e s' => E e s'

/-- A computation keeps `I` where it returns, and throws with `E`. -/
abbrev Maintains (I : S → Prop) (E : ε → S → Prop) (x : Effect ε S α) : Prop :=
  Triple I x (fun _ => I) E

variable {P P' I : S → Prop} {Q Q' : α → S → Prop} {R : β → S → Prop} {E E' : ε → S → Prop}

namespace Triple

variable {x : Effect ε S α} {s : S} {a : α} {f : α → Effect ε S PUnit}

theorem of_ok (h : Triple P x Q E) {s' : S} (hs : P s)
    (hx : x s = .ok a s') : Q a s' := by
  have := h s hs
  rwa [hx] at this

theorem of_error (h : Triple P x Q E) {s' : S} {e : ε} (hs : P s)
    (hx : x s = .error e s') : E e s' := by
  have := h s hs
  rwa [hx] at this

/-- What holds where a computation returns and where it throws holds at its end. -/
theorem final (h : Triple P x (fun _ => I) fun _ => I) (hs : P s) :
    I (Effect.final (x s)) := by
  have hx := h s hs
  cases hr : x s with
  | ok | error =>
    rw [hr] at hx
    exact hx

/-- A computation that cannot throw returns. -/
theorem returns (h : Triple P x Q fun _ _ => False) (hs : P s) :
    ∃ a s', x s = .ok a s' ∧ Q a s' := by
  have hx := h s hs
  cases hr : x s with
  | ok a s' =>
    rw [hr] at hx
    exact ⟨a, s', rfl, hx⟩
  | error e s' =>
    rw [hr] at hx
    exact hx.elim

/-- Two postconditions of one computation. -/
theorem and (h : Triple P x Q E) (h' : Triple P x Q' E') :
    Triple P x (fun a s => Q a s ∧ Q' a s) fun e s => E e s ∧ E' e s := by
  intro s hs
  have hx := h s hs
  have hx' := h' s hs
  cases hr : x s with
  | ok | error =>
    rw [hr] at hx hx'
    exact ⟨hx, hx'⟩

/-- The rule of consequence. -/
theorem conseq (h : Triple P x Q E) (hpre : ∀ s, P' s → P s)
    (hpost : ∀ a s, Q a s → Q' a s) (hthrow : ∀ e s, E e s → E' e s) : Triple P' x Q' E' := by
  intro s hs
  have hx := h s (hpre s hs)
  cases hr : x s with
  | ok a s' =>
    rw [hr] at hx
    exact hpost a s' hx
  | error e s' =>
    rw [hr] at hx
    exact hthrow e s' hx

/-! The same for one of the three conditions. -/

theorem pre (h : Triple P x Q E) (hpre : ∀ s, P' s → P s) : Triple P' x Q E :=
  h.conseq hpre (fun _ _ h => h) fun _ _ h => h

theorem post (h : Triple P x Q E) (hpost : ∀ a s, Q a s → Q' a s) : Triple P x Q' E :=
  h.conseq (fun _ h => h) hpost fun _ _ h => h

theorem exc (h : Triple P x Q E) (hthrow : ∀ e s, E e s → E' e s) : Triple P x Q E' :=
  h.conseq (fun _ h => h) (fun _ _ h => h) hthrow

/-- Only what returns matters. -/
theorem returning (h : Triple P x Q E) : Triple P x Q fun _ _ => True :=
  h.exc fun _ _ _ => trivial

theorem top : Triple P x (fun _ _ => True) fun _ _ => True := by
  intro s _
  cases x s with
  | ok | error => trivial

theorem pure (h : ∀ s, P s → Q a s) : Triple P (pure a : Effect ε S α) Q E := h

/-- Neither `pure` nor `get` changes the state. -/
theorem keepPure : Maintains P E (Pure.pure a : Effect ε S α) := fun _ h => h

theorem keepGet : Maintains P E (MonadState.get : Effect ε S S) := fun _ h => h

theorem throw {e : ε} (h : ∀ s, P s → E e s) : Triple P (throw e : Effect ε S α) Q E := h

theorem modify {f : S → S} {Q : PUnit → S → Prop} (h : ∀ s, P s → Q ⟨⟩ (f s)) :
    Triple P (modify f : Effect ε S PUnit) Q E := h

theorem modifyGet {f : S → α × S} (h : ∀ s, P s → Q (f s).1 (f s).2) :
    Triple P (modifyGet f : Effect ε S α) Q E := h

theorem bind {f : α → Effect ε S β} (hx : Triple P x Q E)
    (hf : ∀ a, Triple (Q a) (f a) R E) : Triple P (x >>= f) R E := by
  intro s hs
  cases hr : x s with
  | ok a s' =>
    rw [bind_of_ok hr]
    exact hf a s' (hx.of_ok hs hr)
  | error e s' =>
    rw [bind_of_error hr]
    exact hx.of_error hs hr

/-- The continuation of `get` knows that it got the current state. -/
theorem getBind {f : S → Effect ε S β} (h : ∀ s, P s → Triple (· = s) (f s) R E) :
    Triple P (MonadState.get >>= f) R E :=
  fun s hs => h s hs s rfl

/-- A fact that is not about the state. -/
theorem assume {p : Prop} (h : p → Triple P x Q E) :
    Triple (fun s => p ∧ P s) x Q E :=
  fun s hs => h hs.1 s hs.2

theorem ite {c : Prop} [Decidable c] {y : Effect ε S α} (hx : c → Triple P x Q E)
    (hy : ¬ c → Triple P y Q E) : Triple P (if c then x else y) Q E := by
  split
  · next h => exact hx h
  · next h => exact hy h

/-- The handler sees what was thrown. -/
theorem attempt (h : Triple P x Q E) :
    Triple P (attempt x) (fun r s => match r with | .ok a => Q a s | .error e => E e s) E' := by
  intro s hs
  have hx := h s hs
  unfold Effect.attempt
  cases hr : x s <;> simpa [hr] using hx

/-- What holds either way holds after the handler. -/
theorem keepAttempt (h : Triple P x (fun _ => I) fun _ => I) :
    Triple P (Effect.attempt x) (fun _ => I) E' := by
  refine h.attempt.post fun r _ hs => ?_
  cases r <;> exact hs

theorem forM_mem {l : List α} (hf : ∀ a ∈ l, Maintains I E (f a)) :
    Maintains I E (l.forM f) := by
  induction l with
  | nil => exact keepPure
  | cons a l ih =>
    exact bind (hf a List.mem_cons_self) fun _ => ih fun b hb => hf b (List.mem_cons_of_mem a hb)

theorem forM (hf : ∀ a, Maintains I E (f a)) (l : List α) :
    Maintains I E (l.forM f) :=
  forM_mem fun a _ => hf a

/-- A computation on a part of the state. -/
theorem zoom {get : S → T} {set : T → S → S} {x : Effect ε T α} {P' : T → Prop}
    {Q' : α → T → Prop} {E' : ε → T → Prop} (hx : Triple P' x Q' E') (hpre : ∀ s, P s → P' (get s))
    (hpost : ∀ s a t, P s → Q' a t → Q a (set t s))
    (hthrow : ∀ s e t, P s → E' e t → E e (set t s)) : Triple P (zoom get set x) Q E := by
  intro s hs
  have ht := hx (get s) (hpre s hs)
  cases hr : x (get s) with
  | ok a t =>
    rw [hr] at ht
    rw [zoom_of_ok hr]
    exact hpost s a t hs ht
  | error e t =>
    rw [hr] at ht
    rw [zoom_of_error hr]
    exact hthrow s e t hs ht

end Triple

namespace Maintains

/-- A computation on a part of the state on which the invariant does not depend. -/
theorem zoom {get : S → T} {set : T → S → S} (h : ∀ t s, I s → I (set t s))
    (hthrow : ∀ e t s, I s → E e (set t s)) (x : Effect ε T α) :
    Maintains I E (Effect.zoom get set x) := by
  have htop : Triple (fun _ => True) x (fun _ _ => True) (fun _ _ => True) :=
    fun s _ => by cases x s <;> trivial
  exact Triple.zoom htop (fun _ _ => trivial) (fun s _ t hs _ => h t s hs)
    (fun s e t hs _ => hthrow e t s hs)

end Maintains

end SpsVp.Lib.Effect
