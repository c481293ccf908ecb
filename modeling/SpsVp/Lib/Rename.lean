import SpsVp.Lib.Effect

/-!
# Computations that differ in the names of their exceptions

`Renames I f x y` says that `x` does what `y` does, and throws `f e` where `y` throws `e`, as long
as the state has the property `I`, which both keep. It follows the text of a program: two programs
that differ in the operations they are built from are related as soon as the operations are.
-/

namespace SpsVp.Lib.Effect

variable {ε S α β : Type} {I : S → Prop} {f : ε → ε}

/-- A result with another exception. -/
def renamed (f : ε → ε) : EStateM.Result ε S α → EStateM.Result ε S α
  | .ok a s => .ok a s
  | .error e s => .error (f e) s

/-- A computation does what another one does, up to the names of the exceptions. -/
def Renames (I : S → Prop) (f : ε → ε) (x y : Effect ε S α) : Prop :=
  ∀ s, I s → x s = renamed f (y s) ∧ I (final (y s))

namespace Renames

theorem pure (a : α) : Renames I f (pure a : Effect ε S α) (pure a) := fun _ h => ⟨rfl, h⟩

theorem get : Renames I f (get : Effect ε S S) get := fun _ h => ⟨rfl, h⟩

theorem modify {g : S → S} (hg : ∀ s, I s → I (g s)) :
    Renames I f (modify g : Effect ε S PUnit) (modify g) :=
  fun s h => ⟨rfl, hg s h⟩

theorem modifyGet {g : S → α × S} (hg : ∀ s, I s → I (g s).2) :
    Renames I f (modifyGet g : Effect ε S α) (modifyGet g) :=
  fun s h => ⟨rfl, hg s h⟩

/-- What is thrown has its other name. -/
theorem throw {e e' : ε} (h : f e' = e) : Renames I f (throw e : Effect ε S α) (throw e') :=
  fun s hs => ⟨congrArg (EStateM.Result.error · s) h.symm, hs⟩

variable {x y : Effect ε S α} {k l : α → Effect ε S β}

/-- The continuation may use what is known of the values. -/
theorem bindOf {Q : α → Prop} (hx : Renames I f x y)
    (hQ : ∀ s a t, I s → y s = .ok a t → Q a) (hk : ∀ a, Q a → Renames I f (k a) (l a)) :
    Renames I f (x >>= k) (y >>= l) := by
  intro s hI
  obtain ⟨hs, ht⟩ := hx s hI
  cases hy : y s with
  | ok a t =>
    rw [hy] at hs ht
    rw [bind_of_ok hs, bind_of_ok hy]
    exact hk a (hQ s a t hI hy) t ht
  | error e t =>
    rw [hy] at hs ht
    rw [bind_of_error hs, bind_of_error hy]
    exact ⟨rfl, ht⟩

theorem bind (hx : Renames I f x y)
    (hk : ∀ a, Renames I f (k a) (l a)) : Renames I f (x >>= k) (y >>= l) :=
  bindOf (Q := fun _ => True) hx (fun _ _ _ _ _ => trivial) fun a _ => hk a

theorem ite {c : Prop} [Decidable c] {x' y' : Effect ε S α} (hx : Renames I f x x')
    (hy : Renames I f y y') : Renames I f (if c then x else y) (if c then x' else y') := by
  split
  · exact hx
  · exact hy

theorem forM {g h : α → Effect ε S PUnit} (hg : ∀ a, Renames I f (g a) (h a)) (l : List α) :
    Renames I f (l.forM g) (l.forM h) := by
  induction l with
  | nil => exact pure _
  | cons a l ih => exact bind (hg a) fun _ => ih

/-- Where a computation throws, the other one does too. -/
theorem of_error (h : Renames I f x y) {s t : S} {e : ε} (hs : I s)
    (hx : x s = .error e t) : ∃ e', y s = .error e' t ∧ f e' = e := by
  rw [(h s hs).1] at hx
  cases hy : y s with
  | ok a t =>
    rw [hy] at hx
    cases hx
  | error e' t' =>
    rw [hy] at hx
    cases hx
    exact ⟨e', rfl, rfl⟩

end Renames

end SpsVp.Lib.Effect
