import Mathlib.Data.List.Basic
import Mathlib.Data.List.Induction
import Mathlib.Logic.Function.Basic
import Mathlib.Tactic.SplitIfs

/-!
# The core-local interrupt controller

`mtime` is written in two ways. The CSR `time` and the thread of the controller move it forward to
the simulation time. A read by the bus sets it to the local time of the initiator, which may be
ahead of the simulation time, and also behind another initiator. `proper_iff` says that time never
runs backwards, and no timer interrupt is withdrawn, just if no read by the bus comes from behind
`mtime`. -/

namespace SpsVp.Platform

/-- The controller with what it sees of the simulation. `irqEvent` has the time of the notification
that is pending, and `observed` the values of `mtime` that were read so far. -/
structure Clint (numberOfCores : Nat) where
  now : BitVec 64 := 0
  mtime : BitVec 64 := 0
  mtimecmp : Fin numberOfCores → BitVec 64 := fun _ => 0
  timerInterrupt : Fin numberOfCores → Bool := fun _ => false
  irqEvent : Option (BitVec 64) := none
  observed : List (BitVec 64) := []

namespace Clint

variable {n : Nat} {c c' : Clint n} {i : Fin n}

/-- From picoseconds to microseconds. -/
def scaler : BitVec 64 := 1000000

/-- Ten nanoseconds. -/
def clockCycle : BitVec 64 := 10000

def observe (c : Clint n) : Clint n := { c with observed := c.observed ++ [c.mtime] }

def updateAndGetMtime (c : Clint n) : Clint n :=
  let now := c.now / scaler
  observe (if c.mtime < now then { c with mtime := now } else c)

/-- Of two notifications the earlier one is kept. -/
def notify (delay : BitVec 64) (c : Clint n) : Clint n :=
  let time := c.now + delay
  { c with irqEvent := some (c.irqEvent.elim time fun pending =>
      if time < pending then time else pending) }

def triggerTimerInterrupt (i : Fin n) (status : Bool) (c : Clint n) : Clint n :=
  { c with timerInterrupt := Function.update c.timerInterrupt i status }

/-- The loop of `run` for one core. -/
def runCore (c : Clint n) (i : Fin n) : Clint n :=
  let cmp := c.mtimecmp i
  if 0 < cmp ∧ cmp ≤ c.mtime then
    c.triggerTimerInterrupt i true
  else
    let c := c.triggerTimerInterrupt i false
    if 0 < cmp ∧ cmp < BitVec.allOnes 64 then
      c.notify (cmp * scaler - c.mtime * scaler)
    else
      c

/-- What `run` does when `irq_event` has woken it. -/
def run (c : Clint n) : Clint n :=
  (List.finRange n).foldl runCore (updateAndGetMtime { c with irqEvent := none })

/-- The delay of a transaction when it reaches the registers. -/
def transport (delay : BitVec 64) : BitVec 64 := delay + 2 * clockCycle

/-- The local time of an initiator, in microseconds. -/
def localTime (delay : BitVec 64) (c : Clint n) : BitVec 64 := (c.now + delay) / scaler

def preReadMtime (delay : BitVec 64) (c : Clint n) : Clint n :=
  { c with mtime := c.localTime delay }

def postWriteMtimecmp (i : Fin n) (value delay : BitVec 64) (c : Clint n) : Clint n :=
  notify delay { c with mtimecmp := Function.update c.mtimecmp i value }

/-- The events of a simulation. Initiators come with the delay of their local time. -/
inductive Event (n : Nat) where
  | advance (time : BitVec 64)
  | readTime
  | readMtime (delay : BitVec 64)
  | writeMtimecmp (i : Fin n) (value delay : BitVec 64)
  | wake

/-- Simulation time does not decrease, and `run` wakes up when a notification is due. -/
def step (c : Clint n) : Event n → Option (Clint n)
  | .advance time => if c.now ≤ time then some { c with now := time } else none
  | .readTime => some c.updateAndGetMtime
  | .readMtime delay => some (c.preReadMtime (transport delay)).observe
  | .writeMtimecmp i value delay => some (c.postWriteMtimecmp i value (transport delay))
  | .wake => if c.irqEvent.any (· ≤ c.now) then some c.run else none

def Event.Writes (i : Fin n) : Event n → Prop
  | .writeMtimecmp j _ _ => j = i
  | .advance _ | .readTime | .readMtime _ | .wake => False

/-- The timer interrupt is raised because `mtime` has reached `mtimecmp`. -/
def Raised (i : Fin n) (c : Clint n) : Prop :=
  c.timerInterrupt i = true ∧ 0 < c.mtimecmp i ∧ c.mtimecmp i ≤ c.mtime

/-- The state after some events. -/
def after (es : List (Event n)) : Option (Clint n) := es.foldlM step {}

/-- What a run should come to: the values observed do not decrease, and an interrupt that was raised
stays as long as its `mtimecmp` is not written. -/
structure Proper (es : List (Event n)) : Prop where
  monotone : ∀ before rest c, es = before ++ rest → after before = some c →
    c.observed.Pairwise (· ≤ ·)
  stays : ∀ before rest c c' i, es = before ++ rest → after before = some c → c.Raised i →
    (∀ e ∈ rest, ¬ e.Writes i) → rest.foldlM step c = some c' → c'.timerInterrupt i = true

/-- A read by the bus does not come from behind `mtime`. -/
def InOrder (c : Clint n) : Event n → Prop
  | .readMtime delay => c.mtime ≤ c.localTime (transport delay)
  | .advance _ | .readTime | .writeMtimecmp _ _ _ | .wake => True

/-! ## One event -/

theorem le_updateAndGetMtime (c : Clint n) : c.mtime ≤ c.updateAndGetMtime.mtime := by
  unfold updateAndGetMtime
  dsimp only [observe]
  split_ifs with h
  · exact BitVec.le_of_lt h
  · exact BitVec.le_refl _

theorem observed_updateAndGetMtime (c : Clint n) :
    c.updateAndGetMtime.observed = c.observed ++ [c.updateAndGetMtime.mtime] := by
  unfold updateAndGetMtime
  dsimp only [observe]
  split_ifs <;> rfl

theorem raised_updateAndGetMtime (h : c.Raised i) : c.updateAndGetMtime.Raised i := by
  have hle := h.2.2
  unfold updateAndGetMtime observe
  dsimp only
  split_ifs with hlt
  · exact ⟨h.1, h.2.1, BitVec.le_trans hle (BitVec.le_of_lt hlt)⟩
  · exact h

/-- The loop for one core keeps what is observed, and every interrupt that was raised. -/
theorem runCore_cases (c : Clint n) (j : Fin n) :
    (c.runCore j).mtime = c.mtime ∧ (c.runCore j).observed = c.observed ∧
      ∀ i, c.Raised i → (c.runCore j).Raised i := by
  unfold runCore
  dsimp only
  split_ifs with hreached hlater
  · refine ⟨rfl, rfl, fun i h => ⟨?_, h.2⟩⟩
    change Function.update _ _ _ _ = _
    rw [Function.update_apply]
    split_ifs
    · rfl
    · exact h.1
  all_goals
    -- this core is not the one of an interrupt that was raised
    refine ⟨rfl, rfl, fun i h => ⟨?_, h.2⟩⟩
    have hne : i ≠ j := by
      rintro rfl
      exact hreached h.2
    exact (Function.update_of_ne hne _ _).trans h.1

theorem foldl_runCore (cores : List (Fin n)) (c : Clint n) :
    (cores.foldl runCore c).mtime = c.mtime ∧ (cores.foldl runCore c).observed = c.observed ∧
      ∀ i, c.Raised i → (cores.foldl runCore c).Raised i := by
  induction cores generalizing c with
  | nil => exact ⟨rfl, rfl, fun _ h => h⟩
  | cons j cores ih =>
    obtain ⟨hmtime, hobserved, hraised⟩ := c.runCore_cases j
    obtain ⟨hmtime', hobserved', hraised'⟩ := ih (c.runCore j)
    exact ⟨hmtime'.trans hmtime, hobserved'.trans hobserved, fun i h => hraised' i (hraised i h)⟩

/-- What an event does: it observes the new `mtime` or leaves it alone, `mtime` goes backwards just
if the event is out of order, and an interrupt stays if `mtime` does not go backwards. -/
structure Follows (e : Event n) (c c' : Clint n) : Prop where
  observed : c'.observed = c.observed ∧ c'.mtime = c.mtime ∨ c'.observed = c.observed ++ [c'.mtime]
  inOrder : c.InOrder e ↔ c.mtime ≤ c'.mtime
  raised : ∀ i, c.Raised i → ¬ e.Writes i → c.mtime ≤ c'.mtime → c'.Raised i

theorem follows_step {e : Event n} (h : c.step e = some c') : Follows e c c' := by
  cases e with
  | advance time =>
    obtain ⟨_, rfl⟩ := Option.ite_some_none_eq_some.mp h
    exact ⟨.inl ⟨rfl, rfl⟩, iff_of_true trivial (BitVec.le_refl _), fun _ h _ _ => h⟩
  | readTime =>
    cases h
    exact ⟨.inr c.observed_updateAndGetMtime, iff_of_true trivial c.le_updateAndGetMtime,
      fun _ h _ _ => raised_updateAndGetMtime h⟩
  | readMtime delay =>
    cases h
    exact ⟨.inr rfl, Iff.rfl, fun _ h _ hle => ⟨h.1, h.2.1, BitVec.le_trans h.2.2 hle⟩⟩
  | writeMtimecmp j value delay =>
    cases h
    refine ⟨.inl ⟨rfl, rfl⟩, iff_of_true trivial (BitVec.le_refl _), fun i h hne _ => ⟨h.1, ?_⟩⟩
    have hcmp : Function.update c.mtimecmp j value i = c.mtimecmp i :=
      Function.update_of_ne (Ne.symm hne) _ _
    change 0 < Function.update c.mtimecmp j value i ∧ Function.update c.mtimecmp j value i ≤ c.mtime
    rw [hcmp]
    exact h.2
  | wake =>
    obtain ⟨_, hrun⟩ : _ ∧ c.run = c' := by rwa [step, Option.ite_some_none_eq_some] at h
    obtain ⟨hmtime, hobserved, hraised⟩ :=
      foldl_runCore (List.finRange n) (updateAndGetMtime { c with irqEvent := none })
    have hle := le_updateAndGetMtime { c with irqEvent := none }
    rw [← hmtime] at hle
    rw [observed_updateAndGetMtime, ← hmtime] at hobserved
    rw [← hrun]
    exact ⟨.inr hobserved, iff_of_true trivial hle,
      fun i h _ _ => hraised i (raised_updateAndGetMtime h)⟩

/-! ## Runs -/

theorem after_concat (es : List (Event n)) (e : Event n) :
    after (es ++ [e]) = after es >>= fun c => step c e := by
  rw [after, List.foldlM_append]
  simp [after]

/-- `mtime` is the last value observed. -/
theorem mtime_eq_getLastD {es : List (Event n)} (h : after es = some c) :
    c.mtime = c.observed.getLastD 0 := by
  induction es using List.reverseRecOn generalizing c with
  | nil =>
    cases h
    rfl
  | append_singleton es e ih =>
    rw [after_concat] at h
    obtain ⟨c₀, hes, hstep⟩ := Option.bind_eq_some_iff.mp h
    obtain ⟨hobserved, hmtime⟩ | hobserved := (follows_step hstep).observed
    · rw [hobserved, hmtime]
      exact ih hes
    · rw [hobserved, List.getLastD_concat]

/-- The events of a run are in order. -/
def Orderly (es : List (Event n)) : Prop :=
  ∀ before e rest c, es = before ++ e :: rest → after before = some c → c.InOrder e

theorem Orderly.monotone {es : List (Event n)} (h : Orderly es) (hafter : after es = some c) :
    c.observed.Pairwise (· ≤ ·) ∧ ∀ v ∈ c.observed, v ≤ c.mtime := by
  induction es using List.reverseRecOn generalizing c with
  | nil =>
    cases hafter
    exact ⟨.nil, fun _ hv => absurd hv List.not_mem_nil⟩
  | append_singleton es e ih =>
    rw [after_concat] at hafter
    obtain ⟨c₀, hes, hstep⟩ := Option.bind_eq_some_iff.mp hafter
    have horderly : Orderly es := fun before e' rest c hsplit =>
      h before e' (rest ++ [e]) c (by rw [hsplit, List.append_assoc, List.cons_append])
    obtain ⟨hpairwise, hbounded⟩ := ih horderly hes
    have hfollows := follows_step hstep
    have hle : c₀.mtime ≤ c.mtime := hfollows.inOrder.mp (h es e [] c₀ rfl hes)
    have hbounded' : ∀ v ∈ c₀.observed, v ≤ c.mtime := fun v hv =>
      BitVec.le_trans (hbounded v hv) hle
    obtain ⟨hobserved, _⟩ | hobserved := hfollows.observed
    · rw [hobserved]
      exact ⟨hpairwise, hbounded'⟩
    · rw [hobserved]
      simp only [List.pairwise_append, List.mem_append, List.mem_singleton]
      refine ⟨⟨hpairwise, List.pairwise_singleton _ _, ?_⟩, ?_⟩
      · rintro v hv _ rfl
        exact hbounded' v hv
      · rintro v (hv | rfl)
        · exact hbounded' v hv
        · exact BitVec.le_refl _

theorem Orderly.stays {es before rest : List (Event n)} (h : Orderly es)
    (hsplit : es = before ++ rest)
    (hafter : after before = some c) (hraised : c.Raised i) (hwrites : ∀ e ∈ rest, ¬ e.Writes i)
    (hrest : rest.foldlM step c = some c') : c'.Raised i := by
  induction rest generalizing before c with
  | nil =>
    cases hrest
    exact hraised
  | cons e rest ih =>
    rw [List.foldlM_cons] at hrest
    obtain ⟨c₁, hstep, hrest⟩ := Option.bind_eq_some_iff.mp hrest
    have hfollows := follows_step hstep
    have hle : c.mtime ≤ c₁.mtime := hfollows.inOrder.mp (h before e rest c hsplit hafter)
    have hsplit' : es = (before ++ [e]) ++ rest := by
      rw [hsplit, List.append_assoc]
      rfl
    have hafter' : after (before ++ [e]) = some c₁ := by
      rw [after_concat, hafter]
      exact hstep
    exact ih hsplit' hafter' (hfollows.raised i hraised (hwrites e List.mem_cons_self) hle)
      (fun e' he' => hwrites e' (List.mem_cons_of_mem e he')) hrest

/-- A read by the bus from behind `mtime` is seen in the values observed. -/
theorem Proper.inOrder {es before rest : List (Event n)} {e : Event n} (h : Proper es)
    (hsplit : es = before ++ e :: rest) (hafter : after before = some c) : c.InOrder e := by
  cases e with
  | readMtime delay =>
    have hafter' : after (before ++ [.readMtime delay]) =
        some (c.preReadMtime (transport delay)).observe := by
      rw [after_concat, hafter]
      rfl
    have hpairwise := h.monotone (before ++ [.readMtime delay]) rest _
      (by rw [hsplit, List.append_assoc]; rfl) hafter'
    have hmtime := mtime_eq_getLastD hafter
    change (c.observed ++ [c.localTime (transport delay)]).Pairwise (· ≤ ·) at hpairwise
    change c.mtime ≤ c.localTime (transport delay)
    obtain hnil | ⟨earlier, v, hlast⟩ := c.observed.eq_nil_or_concat'
    · rw [hmtime, hnil]
      exact Nat.zero_le _
    · rw [hmtime, hlast, List.getLastD_concat]
      refine (List.pairwise_append.mp hpairwise).2.2 v ?_ _ (List.mem_singleton_self _)
      rw [hlast]
      exact List.mem_concat_self
  | advance _ | readTime | writeMtimecmp _ _ _ | wake => trivial

/-- Time never runs backwards and no timer interrupt is withdrawn, just if no read by the bus comes
from behind `mtime`. -/
theorem proper_iff (es : List (Event n)) : Proper es ↔ Orderly es := by
  refine ⟨fun h before e rest c => h.inOrder, fun h => ⟨?_, ?_⟩⟩
  · intro before rest c hsplit hafter
    have horderly : Orderly before := fun before' e rest' c hsplit' =>
      h before' e (rest' ++ rest) c (by rw [hsplit, hsplit', List.append_assoc, List.cons_append])
    exact (horderly.monotone hafter).1
  · intro before rest c c' i hsplit hafter hraised hwrites hrest
    exact (h.stays hsplit hafter hraised hwrites hrest).1

/-- The first core asks for an interrupt at 8 µs and reads `mtime` when its local time is 10 µs. A
write of the second core then wakes up the controller, which raises the interrupt. -/
def aheadOfTime : List (Event 2) :=
  [.writeMtimecmp ⟨0, Nat.two_pos⟩ 8 0, .readMtime 10000000,
    .writeMtimecmp ⟨1, Nat.one_lt_two⟩ 100 0, .advance 20000, .wake]

/-- The second core reads `mtime` at its own local time, and its next write withdraws the interrupt
of the first core. -/
theorem aheadOfTime_withdrawn :
    (after aheadOfTime).map (·.timerInterrupt 0) = some true ∧
      (after (aheadOfTime ++ [.readMtime 0, .writeMtimecmp 1 100 0, .advance 40000, .wake])).map
        (fun c => (c.timerInterrupt 0, c.observed)) = some (false, [10, 10, 0, 0]) := by
  decide +kernel

end Clint

end SpsVp.Platform
