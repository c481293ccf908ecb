import Mathlib.Algebra.Group.Nat.Defs
import Mathlib.Logic.Function.Basic
import Mathlib.Tactic.SplitIfs

/-!
# The core-local interrupt controller in real time

A write of `mtimecmp` raises the timer interrupt at once, or starts a thread that sleeps until
`mtime` should have reached the new value, and then notifies the controller. `timely_iff` says for
which values this works: for those whose distance from `mtime` is, in microseconds, a number of 64
bits. Beyond that the product wraps around, so that the thread notifies too early, or fails an
assertion if the product is zero. -/

namespace SpsVp.Platform

/-- The controller and its timers. A timer that is running has the duration it was started with. -/
structure RealClint (n : Nat) where
  mtime : BitVec 64 := 0
  mtimecmp : Fin n → BitVec 64
  timerInterrupt : Fin n → Bool := fun _ => false
  timer : Fin n → Option (BitVec 64) := fun _ => none

namespace RealClint

variable {n : Nat} {i : Fin n}

/-- A reading of the clock, in nanoseconds since the controller was constructed. The clock counts
them in a signed number of 64 bits. -/
abbrev Instant : Type := Fin (2 ^ 63)

def dividend : BitVec 64 := 15625 / 512

def usecToTicks (usec : BitVec 64) : BitVec 64 := usec / dividend

def ticksToUsec (ticks : BitVec 64) : BitVec 64 := ticks * dividend

/-- The ticks that a reading of the clock comes to. -/
def ticks (now : Instant) : BitVec 64 := usecToTicks (BitVec.ofNat 64 (now / 1000))

def updateAndGetMtime (now : Instant) (c : RealClint n) : RealClint n :=
  { c with mtime := ticks now }

def triggerTimerInterrupt (i : Fin n) (status : Bool) (c : RealClint n) : RealClint n :=
  { c with timerInterrupt := Function.update c.timerInterrupt i status }

def pause (i : Fin n) (c : RealClint n) : RealClint n :=
  { c with timer := Function.update c.timer i none }

def start (i : Fin n) (duration : BitVec 64) (c : RealClint n) : RealClint n :=
  { c with timer := Function.update c.timer i (some duration) }

/-- What follows a write to `mtimecmp`. -/
def postWriteMtimecmp (i : Fin n) (now : Instant) (c : RealClint n) : RealClint n :=
  let cmp := c.mtimecmp i
  let c := (c.updateAndGetMtime now).pause i
  if cmp ≤ c.mtime then
    c.triggerTimerInterrupt i true
  else
    (c.triggerTimerInterrupt i false).start i (ticksToUsec (cmp - c.mtime))

/-- What follows the notification of a timer. -/
def interrupt (now : Instant) (c : RealClint n) : RealClint n :=
  let c := c.updateAndGetMtime now
  { c with timerInterrupt := fun i => if c.mtimecmp i ≤ c.mtime then true else c.timerInterrupt i }

/-! ## The thread of a timer -/

@[irreducible]
def nsMax : Nat := 999999999

@[irreducible]
def usMax : Nat := nsMax / 1000

theorem usMax_eq : usMax = 999999 := by
  unfold usMax nsMax
  rfl

/-- The loop of the thread, with the nanoseconds it has slept and the microseconds that are left. -/
def sleep (slept count : Nat) : Nat × Nat :=
  if usMax < count then sleep (slept + nsMax) (count - usMax) else (slept, count)
termination_by count
decreasing_by
  have := usMax_eq
  omega

/-- The nanoseconds that a thread sleeps before it calls the function of its timer, if no assertion
fails and no signal stops it. -/
def callback (duration : BitVec 64) : Option Nat :=
  let (slept, count) := sleep 0 duration.toNat
  let ns := count * 1000 % 2 ^ 64
  if ns > count then
    if ns ≤ 2 ^ 63 - 1 then some (slept + ns) else none
  else
    none

theorem sleep_spec (slept count : Nat) :
    (sleep slept count).2 ≤ usMax ∧ (0 < count → 0 < (sleep slept count).2) ∧
      slept + 1000 * count ≤ (sleep slept count).1 + 1000 * (sleep slept count).2 := by
  have hns : nsMax = 1000 * usMax + 999 := by rw [usMax_eq, nsMax]
  fun_induction sleep slept count with
  | case1 slept count hlt ih => omega
  | case2 slept count hle => omega

/-- A thread with a duration sleeps at least that long. -/
theorem callback_eq_some {duration : BitVec 64} (h : duration ≠ 0) :
    ∃ slept, callback duration = some slept ∧ 1000 * duration.toNat ≤ slept := by
  have hpos : 0 < duration.toNat := Nat.pos_of_ne_zero fun hzero => h (BitVec.eq_of_toNat_eq hzero)
  obtain ⟨hrest, hleft, hslept⟩ := sleep_spec 0 duration.toNat
  rw [usMax_eq] at hrest
  unfold callback
  dsimp only
  rw [Nat.mod_eq_of_lt (by omega), if_pos (by omega), if_pos (by omega)]
  exact ⟨_, rfl, by omega⟩

/-! ## Writes of `mtimecmp` -/

/-- What a write should come to: the interrupt is raised, or a thread sleeps for the ticks that are
left, and if it then notifies, `mtime` has reached `mtimecmp` and the interrupt is raised. -/
def Timely (i : Fin n) (now : Instant) (c : RealClint n) : Prop :=
  if c.mtimecmp i ≤ ticks now then
    (c.postWriteMtimecmp i now).timerInterrupt i = true
  else
    ∃ duration, (c.postWriteMtimecmp i now).timer i = some duration ∧
      duration.toNat = dividend.toNat * ((c.mtimecmp i).toNat - (ticks now).toNat) ∧
      ∃ slept, callback duration = some slept ∧ 1000 * duration.toNat ≤ slept ∧
        ∀ (later : Instant) (c' : RealClint n), now + slept ≤ later.val →
          c'.mtimecmp i = c.mtimecmp i →
          c.mtimecmp i ≤ (c'.interrupt later).mtime ∧ (c'.interrupt later).timerInterrupt i = true

theorem toNat_ticks (now : Instant) : (ticks now).toNat = now / 1000 / 30 := by
  have hlt : now.val / 1000 < 2 ^ 64 := by
    have := now.isLt
    omega
  change (BitVec.ofNat 64 (now / 1000) / 30#64).toNat = _
  rw [BitVec.toNat_udiv, BitVec.toNat_ofNat, Nat.mod_eq_of_lt hlt]
  rfl

/-- The interrupt is raised when the clock has moved on by the ticks that were left. -/
theorem le_ticks {now later : Instant} {cmp : BitVec 64} (hcmp : ticks now ≤ cmp)
    (h : now + 1000 * (30 * (cmp.toNat - (ticks now).toNat)) ≤ later.val) : cmp ≤ ticks later := by
  have hle : (ticks now).toNat ≤ cmp.toNat := hcmp
  change cmp.toNat ≤ (ticks later).toNat
  rw [toNat_ticks] at hle h ⊢
  omega

theorem interrupt_of_le {later : Instant} {c : RealClint n} (h : c.mtimecmp i ≤ ticks later) :
    (c.interrupt later).timerInterrupt i = true := if_pos h

/-- A write of `mtimecmp` works just if the time that is left has no more than 64 bits. -/
theorem timely_iff (i : Fin n) (now : Instant) (c : RealClint n) :
    Timely i now c ↔ c.mtimecmp i ≤ ticks now ∨
      dividend.toNat * ((c.mtimecmp i).toNat - (ticks now).toNat) < 2 ^ 64 := by
  have hcases : c.postWriteMtimecmp i now = if c.mtimecmp i ≤ ticks now then
      ((c.updateAndGetMtime now).pause i).triggerTimerInterrupt i true
    else (((c.updateAndGetMtime now).pause i).triggerTimerInterrupt i false).start i
      (ticksToUsec (c.mtimecmp i - ticks now)) := rfl
  unfold Timely
  rw [hcases]
  split_ifs with hreached
  · exact iff_of_true (Function.update_self _ _ _) (.inl hreached)
  · have hlt : (ticks now).toNat < (c.mtimecmp i).toNat := Nat.lt_of_not_le hreached
    have hduration : (ticksToUsec (c.mtimecmp i - ticks now)).toNat =
        dividend.toNat * ((c.mtimecmp i).toNat - (ticks now).toNat) % 2 ^ 64 := by
      rw [ticksToUsec, BitVec.toNat_mul, BitVec.toNat_sub_of_le (Nat.le_of_lt hlt), Nat.mul_comm]
    rw [or_iff_right hreached]
    constructor
    · rintro ⟨duration, -, hexact, -⟩
      rw [← hexact]
      exact duration.isLt
    · intro hsmall
      rw [Nat.mod_eq_of_lt hsmall] at hduration
      have hdividend : dividend.toNat = 30 := rfl
      have hne : ticksToUsec (c.mtimecmp i - ticks now) ≠ 0 := by
        intro hzero
        rw [hzero, hdividend] at hduration
        change 0 = _ at hduration
        omega
      obtain ⟨slept, hcallback, hslept⟩ := callback_eq_some hne
      refine ⟨_, Function.update_self _ _ _, hduration, slept, hcallback, hslept, ?_⟩
      intro later c' hlater hcmp
      have hle : c.mtimecmp i ≤ ticks later := by
        refine le_ticks (Nat.le_of_lt hlt) ?_
        rw [hduration, hdividend] at hslept
        omega
      exact ⟨hle, interrupt_of_le (hcmp.symm ▸ hle)⟩

/-- A controller of one core with a new value in `mtimecmp`. -/
def comparing (cmp : BitVec 64) : RealClint 1 := { mtimecmp := fun _ => cmp }

/-- At time zero, a thread for the largest power of two is started with a duration of zero and fails
its assertion, and a thread for another value notifies after 14 microseconds, when nothing is
due. -/
theorem comparing_not_timely :
    ((comparing (1 <<< 63)).postWriteMtimecmp 0 0).timer 0 = some 0 ∧ callback 0 = none ∧
      ¬ Timely 0 0 (comparing (1 <<< 63)) ∧
      ((comparing 614891469123651721).postWriteMtimecmp 0 0).timer 0 = some 14 := by
  refine ⟨by decide, ?_, ?_, by decide⟩
  · have hsleep : sleep 0 (0 : BitVec 64).toNat = (0, 0) := by
      rw [sleep]
      exact if_neg (Nat.not_lt_zero usMax)
    rw [callback, hsleep]
    rfl
  · rw [Timely, if_neg (by decide)]
    rintro ⟨duration, hstart, hexact, -⟩
    have hzero : ((comparing (1 <<< 63)).postWriteMtimecmp 0 0).timer 0 = some 0 := by decide
    rw [hzero] at hstart
    cases hstart
    exact absurd hexact (by decide)

end RealClint

end SpsVp.Platform
