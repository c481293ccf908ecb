import SpsVp.Platform.Gpio

/-!
# Pins follow their drivers

After every write and every synchronisation an output pin should have the value of its port, and an
input pin the state of the server. A pull-up that is switched on should set its pin, and one that is
switched off none. `follows_iff` says which accesses and synchronisations keep to that, in every
run: the registers that enable pins do not bring the value up to date, a pull-up that is switched
off sets its pin like one that is switched on, and a synchronisation takes the state of the server
also for output pins. -/

namespace SpsVp.Platform.Gpio

open Lib Effect

variable {s t : Gpio} {access : Access} {r : Reg} {intGpioBase : Nat} {e : Event}

/-! ## The law -/

/-- An output pin has the value of its port. -/
def OutputsDriven (s : Gpio) : Prop :=
  ∀ i < 32, s.bit .outputEn i = true → s.bit .value i = s.bit .port i

/-- An input pin that is no output has the state of the server. -/
def InputsDriven (s : Gpio) : Prop :=
  ∀ i < 32, s.bit .inputEn i = true → s.bit .outputEn i = false → s.bit .value i = s.level i

/-- A pin that is set has a pull-up that was switched on. -/
def PullsUp (s t : Gpio) : Prop :=
  ∀ i < 32, s.bit .value i = false → t.bit .value i = true →
    s.bit .pullupEn i = false ∧ t.bit .pullupEn i = true

/-- What an event should come to. -/
def Follows (s : Gpio) : Event → Gpio → Prop
  | .access access, t => access.command = .write → OutputsDriven t ∧ InputsDriven t ∧
      (bank.register access = some .pullupEn → PullsUp s t)
  | .change _ _, _ => True
  | .synchronise, t => s.notified = true → OutputsDriven t ∧ InputsDriven t

/-! ## The condition -/

/-- For a pin, a register can be written with a bit. -/
def PinPermits (s : Gpio) (i : Nat) (r : Reg) (w : Bool) : Prop :=
  match r with
  | .inputEn => w = true → s.bit .outputEn i = false → s.bit .value i = s.level i
  | .outputEn => (w = true → s.bit .value i = s.bit .port i) ∧
      (s.bit .inputEn i = true → w = false → s.bit .value i = s.level i)
  | .pullupEn =>
    if s.bit .pullupEn i = w then
      s.bit .inputEn i = true → s.bit .outputEn i = false → s.bit .value i = s.level i
    else (s.bit .outputEn i = true → s.bit .port i = true) ∧
      (w = false → s.bit .value i = true)
  | _ => s.bit .inputEn i = true → s.bit .outputEn i = false → s.bit .value i = s.level i

/-- An event can happen in a state: a write for every pin, and a synchronisation with a change if no
output pin that is an input too is high at the server but low at the port. -/
def Permits (s : Gpio) : Event → Prop
  | .access access => access.command = .write → ∀ r, bank.register access = some r →
      ∀ i < 32, s.PinPermits i r ((s.writtenValue access r).getLsbD i)
  | .change _ _ => True
  | .synchronise => s.notified = true → s.diff ≠ 0#32 → ∀ i < 32, s.level i = true →
      s.bit .inputEn i = true → s.bit .outputEn i = true → s.bit .port i = true

/-! ## Writes -/

/-- The law for a pin, after a write. -/
def PinFollows (s t : Gpio) (r : Reg) (i : Nat) : Prop :=
  (t.bit .outputEn i = true → t.bit .value i = t.bit .port i) ∧
    (t.bit .inputEn i = true → t.bit .outputEn i = false → t.bit .value i = t.level i) ∧
    (r = .pullupEn → s.bit .value i = false → t.bit .value i = true →
      s.bit .pullupEn i = false ∧ t.bit .pullupEn i = true)

variable {i : Nat} {w : Bool}

/-- The bits of a pin after a write to the ports. -/
theorem afterWrite_port (hi : i < 32)
    (hw : (s.writtenValue access .port).getLsbD i = w) :
    (∀ r, (s.afterWrite access .port).bit r i =
      if r = .value then (s.bit .value i && !s.bit .outputEn i) || (w && s.bit .outputEn i)
      else if r = .port then w else s.bit r i) ∧
    (s.afterWrite access .port).level i =
      ((s.level i && !s.bit .outputEn i) || (w && s.bit .outputEn i)) := by
  subst hw
  refine ⟨fun r => ?_, ?_⟩
  · change (setReg .value _ (setReg .port _ s)).bit r i = _
    rw [bit_setReg, bit_setReg]
    simp [bit, hi]
  · have hi' : i < 64 := by omega
    simp [afterWrite, react, level, bit, hi, hi']

/-- The bits of a pin after a write to the pull-ups. -/
theorem afterWrite_pullupEn (hi : i < 32)
    (hw : (s.writtenValue access .pullupEn).getLsbD i = w) :
    (∀ r, (s.afterWrite access .pullupEn).bit r i =
      if r = .value then s.bit .value i || (s.bit .pullupEn i ^^ w)
      else if r = .pullupEn then w else s.bit r i) ∧
    (s.afterWrite access .pullupEn).level i = (s.level i || (s.bit .pullupEn i ^^ w)) := by
  subst hw
  refine ⟨fun r => ?_, ?_⟩
  · change (setReg .value _ (setReg .pullupEn _ s)).bit r i = _
    rw [bit_setReg, bit_setReg]
    simp [bit]
  · have hi' : i < 64 := by omega
    simp [afterWrite, react, level, bit, hi']

theorem pinPermits_of_plain (hr : r ∉ [.inputEn, .outputEn, .pullupEn]) :
    s.PinPermits i r w ↔
      (s.bit .inputEn i = true → s.bit .outputEn i = false → s.bit .value i = s.level i) := by
  cases r with
  | inputEn | outputEn | pullupEn => exact absurd (by decide) hr
  | _ => exact Iff.rfl

section

variable {i : Nat} (hi : i < 32) (hout : s.bit .outputEn i = true → s.bit .value i = s.bit .port i)
include hi hout

omit hout in
theorem pinFollows_port : PinFollows s (s.afterWrite access .port) .port i ↔
    s.PinPermits i .port ((s.writtenValue access .port).getLsbD i) := by
  have hw : (s.writtenValue access .port).getLsbD i = (s.writtenValue access .port).getLsbD i := rfl
  obtain ⟨hbit, hlevel⟩ := afterWrite_port hi hw
  rw [pinPermits_of_plain (by decide)]
  simp only [PinFollows, hbit, hlevel, reduceCtorEq, if_true, if_false, false_implies, and_true]
  cases s.bit .outputEn i with
  | true | false => simp

theorem pinFollows_pullupEn : PinFollows s (s.afterWrite access .pullupEn) .pullupEn i ↔
    s.PinPermits i .pullupEn ((s.writtenValue access .pullupEn).getLsbD i) := by
  generalize hw : (s.writtenValue access .pullupEn).getLsbD i = w
  obtain ⟨hbit, hlevel⟩ := afterWrite_pullupEn (s := s) hi hw
  simp only [PinFollows, PinPermits, hbit, hlevel, reduceCtorEq, if_true, if_false, true_implies]
  by_cases hsame : s.bit .pullupEn i = w
  · -- nothing is changed for this pin
    rw [if_pos hsame, hsame, Bool.xor_self, Bool.or_false, Bool.or_false]
    refine ⟨fun h => h.2.1, fun h => ⟨hout, h, fun hlow hhigh => ?_⟩⟩
    rw [hlow] at hhigh
    cases hhigh
  · have hchanged : (s.bit .pullupEn i ^^ w) = true := by
      cases hp : s.bit .pullupEn i <;> cases hw' : w <;> simp_all
    rw [if_neg hsame, hchanged, Bool.or_true, Bool.or_true]
    constructor
    · rintro ⟨houtput, _, hpulls⟩
      refine ⟨fun h => (houtput h).symm, fun hoff => ?_⟩
      by_contra hlow
      have hon := (hpulls (Bool.eq_false_iff.mpr hlow) rfl).2
      rw [hoff] at hon
      cases hon
    · rintro ⟨houtput, hoff⟩
      refine ⟨fun h => (houtput h).symm, fun _ _ => rfl, fun hlow _ => ?_⟩
      have hon : w = true := by
        by_contra h
        rw [hoff (Bool.eq_false_iff.mpr h)] at hlow
        cases hlow
      exact ⟨Bool.eq_false_iff.mpr fun h => hsame (h.trans hon.symm), hon⟩

omit hi in
theorem pinFollows_inputEn : PinFollows s (s.afterWrite access .inputEn) .inputEn i ↔
    s.PinPermits i .inputEn ((s.writtenValue access .inputEn).getLsbD i) := by
  rw [afterWrite_of_plain (by decide)]
  simp only [PinFollows, PinPermits, bit_setReg, reduceCtorEq, if_true, if_false,
    false_implies, and_true]
  exact ⟨fun h => h.2, fun h => ⟨hout, h⟩⟩

omit hi hout in
theorem pinFollows_outputEn : PinFollows s (s.afterWrite access .outputEn) .outputEn i ↔
    s.PinPermits i .outputEn ((s.writtenValue access .outputEn).getLsbD i) := by
  rw [afterWrite_of_plain (by decide)]
  simp only [PinFollows, PinPermits, bit_setReg, reduceCtorEq, if_true, if_false,
    false_implies, and_true]
  exact Iff.rfl

omit hi in
/-- The registers that have no part in the law, and the value register, which is not written. -/
theorem pinFollows_other (hr : r ∉ [.port, .inputEn, .outputEn, .pullupEn]) :
    PinFollows s (s.afterWrite access r) r i ↔
      s.PinPermits i r ((s.writtenValue access r).getLsbD i) := by
  have hpermits : s.PinPermits i r ((s.writtenValue access r).getLsbD i) ↔ _ :=
    pinPermits_of_plain fun h => hr (List.mem_cons_of_mem _ h)
  have hpullup : r ≠ .pullupEn := fun h => hr (by rw [h]; decide)
  have hkeeps : (∀ r' ∈ [Reg.value, .port, .inputEn, .outputEn],
      (s.afterWrite access r).bit r' i = s.bit r' i) ∧
      (s.afterWrite access r).level i = s.level i := by
    by_cases hvalue : r = .value
    · rw [afterWrite, if_pos hvalue]
      exact ⟨fun _ _ => rfl, rfl⟩
    · have hplain : r ∉ [.value, .port, .pullupEn] := by
        simp only [List.mem_cons, List.not_mem_nil, or_false, not_or] at hr ⊢
        exact ⟨hvalue, hr.1, hpullup⟩
      rw [afterWrite_of_plain hplain]
      refine ⟨fun r' hr' => ?_, rfl⟩
      rw [bit_setReg, if_neg]
      rintro rfl
      simp only [List.mem_cons, List.not_mem_nil, or_false] at hr hr'
      tauto
  obtain ⟨hbit, hlevel⟩ := hkeeps
  rw [hpermits, PinFollows, hbit .value (by decide), hbit .port (by decide),
    hbit .inputEn (by decide), hbit .outputEn (by decide), hlevel]
  exact ⟨fun h => h.2.1, fun h => ⟨hout, h, fun heq => absurd heq hpullup⟩⟩

end

/-- For every pin a write comes to what it should just if it is permitted. -/
theorem pinFollows_iff (hi : i < 32)
    (hout : s.bit .outputEn i = true → s.bit .value i = s.bit .port i) :
    PinFollows s (s.afterWrite access r) r i ↔
      s.PinPermits i r ((s.writtenValue access r).getLsbD i) := by
  by_cases hr : r ∈ [.port, .inputEn, .outputEn, .pullupEn]
  · simp only [List.mem_cons, List.not_mem_nil, or_false] at hr
    obtain rfl | rfl | rfl | rfl := hr
    · exact pinFollows_port hi
    · exact pinFollows_inputEn hout
    · exact pinFollows_outputEn
    · exact pinFollows_pullupEn hi hout
  · exact pinFollows_other hout hr

/-! ## Synchronisation -/

theorem bit_synchronousChange (intGpioBase : Nat) (s : Gpio) (i : Nat) (hvalue : r ≠ .value)
    (hr : ∀ edge : Edge, r ≠ edge.pending) :
    (synchronousChange intGpioBase s).bit r i = s.bit r i := by
  rw [bit, reg_synchronousChange intGpioBase s hvalue hr, bit]

theorem bit_value_synchronousChange (hdiff : s.diff ≠ 0#32) (hi : i < 32) :
    (synchronousChange intGpioBase s).bit .value i =
      ((s.level i && s.bit .inputEn i) || (s.bit .port i && s.bit .outputEn i)) := by
  rw [bit, value_synchronousChange intGpioBase hdiff, BitVec.getLsbD_or, BitVec.getLsbD_and,
    BitVec.getLsbD_and, BitVec.getLsbD_setWidth, decide_eq_true hi, Bool.true_and]
  rfl

/-- A synchronisation with a change keeps the law for the output pins just if none of them is set
from the server alone. -/
theorem outputsDriven_synchronousChange (hdiff : s.diff ≠ 0#32) :
    OutputsDriven (synchronousChange intGpioBase s) ↔ ∀ i < 32, s.level i = true →
      s.bit .inputEn i = true → s.bit .outputEn i = true → s.bit .port i = true := by
  refine forall₂_congr fun i hi => ?_
  rw [bit_synchronousChange (r := .outputEn) _ _ _ nofun (ne_pending nofun nofun),
    bit_synchronousChange (r := .port) _ _ _ nofun (ne_pending nofun nofun),
    bit_value_synchronousChange hdiff hi]
  cases s.bit .outputEn i with
  | false => exact iff_of_true nofun fun _ _ => nofun
  | true =>
    cases s.bit .port i with
    | true | false => simp

/-- The pins of the inputs are taken from the server. -/
theorem inputsDriven_synchronousChange (intGpioBase : Nat) (s : Gpio) :
    InputsDriven (synchronousChange intGpioBase s) := by
  intro i hi hinput houtput
  by_cases hdiff : s.diff = 0#32
  · -- no input differs from the server
    have hsame : synchronousChange intGpioBase s = s := if_pos hdiff
    rw [hsame] at hinput ⊢
    have hbit := congrArg (·.getLsbD i) hdiff
    simp only [diff, BitVec.getLsbD_and, BitVec.getLsbD_xor, BitVec.getLsbD_setWidth,
      hi, decide_true, Bool.true_and, BitVec.getLsbD_zero] at hbit
    change ((s.level i ^^ s.bit .value i) && s.bit .inputEn i) = false at hbit
    rw [hinput, Bool.and_true] at hbit
    have hlevel : s.level i = s.bit .value i := by simpa using hbit
    exact hlevel.symm
  · rw [bit_synchronousChange (r := .inputEn) _ _ _ nofun (ne_pending nofun nofun)] at hinput
    rw [bit_synchronousChange (r := .outputEn) _ _ _ nofun (ne_pending nofun nofun)] at houtput
    rw [bit_value_synchronousChange hdiff hi, hinput, houtput, Bool.and_true, Bool.and_false,
      Bool.or_false, level, level, server_synchronousChange]

/-! ## Runs -/

/-- A synchronisation comes to what it should just if it is permitted. -/
theorem follows_synchronise (hout : OutputsDriven s) :
    Follows s .synchronise (synchronise intGpioBase s) ↔ Permits s .synchronise := by
  refine forall_congr' fun hnotified => ?_
  rw [synchronise, if_pos hnotified]
  rw [and_iff_left (inputsDriven_synchronousChange _ _)]
  by_cases hdiff : s.diff = 0#32
  · have hsame : synchronousChange intGpioBase { s with notified := false } =
        { s with notified := false } := if_pos hdiff
    rw [hsame]
    exact iff_of_true hout fun h => absurd hdiff h
  · rw [outputsDriven_synchronousChange (s := { s with notified := false }) hdiff]
    exact ⟨fun h _ => h, fun h => h hdiff⟩

/-- A write comes to what it should just if it is permitted. -/
theorem follows_write (hout : OutputsDriven s) (hwrite : access.command = .write)
    (hr : bank.register access = some r) :
    Follows s (.access access) (s.afterWrite access r) ↔ Permits s (.access access) := by
  have hpins : Follows s (.access access) (s.afterWrite access r) ↔
      ∀ i < 32, PinFollows s (s.afterWrite access r) r i := by
    constructor
    · intro h i hi
      obtain ⟨houtput, hinput, hpulls⟩ := h hwrite
      exact ⟨houtput i hi, hinput i hi, fun heq => hpulls (hr.trans (congrArg some heq)) i hi⟩
    · intro h _
      refine ⟨fun i hi => (h i hi).1, fun i hi => (h i hi).2.1, fun heq i hi => ?_⟩
      exact (h i hi).2.2 (Option.some.inj (hr.symm.trans heq))
  have hpermits : Permits s (.access access) ↔
      ∀ i < 32, s.PinPermits i r ((s.writtenValue access r).getLsbD i) := by
    refine ⟨fun h => h hwrite r hr, fun h _ r' hr' => ?_⟩
    cases Option.some.inj (hr.symm.trans hr')
    exact h
  rw [hpins, hpermits]
  exact forall₂_congr fun i hi => pinFollows_iff hi (hout i hi)

/-- Every event comes to what it should just if it is permitted. -/
theorem follows_step (hout : OutputsDriven s) (h : step intGpioBase e s = .ok () t) :
    Follows s e t ↔ Permits s e := by
  cases e with
  | access access =>
    obtain ⟨out, u, htransport, hreturn⟩ := bind_eq_ok h
    cases hreturn
    obtain ⟨hread, _⟩ | ⟨hwrite, r, hr, rfl⟩ := transport_cases htransport
    · refine iff_of_true (fun hwrite => ?_) fun hwrite => ?_
      · cases hread.symm.trans hwrite
      · cases hread.symm.trans hwrite
    · exact follows_write hout hwrite hr
  | change bit val => exact Iff.rfl
  | synchronise =>
    cases h
    exact follows_synchronise hout

/-- The law for the output pins holds between the events too. -/
theorem outputsDriven_step (hout : OutputsDriven s) (h : step intGpioBase e s = .ok () t)
    (hfollows : Follows s e t) : OutputsDriven t := by
  cases e with
  | access access =>
    obtain ⟨out, u, htransport, hreturn⟩ := bind_eq_ok h
    cases hreturn
    obtain ⟨_, rfl⟩ | ⟨hwrite, _⟩ := transport_cases htransport
    · exact hout
    · exact (hfollows hwrite).1
  | change bit val =>
    cases h
    unfold OutputsDriven Gpio.bit
    rw [reg_asyncOnchange]
    exact hout
  | synchronise =>
    cases h
    by_cases hnotified : s.notified = true
    · exact (hfollows hnotified).1
    · have hsame : synchronise intGpioBase s = s := if_neg hnotified
      rwa [hsame]

/-- Every event of a run comes to what it should. -/
def FollowsAll (intGpioBase : Nat) (s : Gpio) : List Event → Prop
  | [] => True
  | e :: events => ∀ t, step intGpioBase e s = .ok () t →
      Follows s e t ∧ FollowsAll intGpioBase t events

/-- Every event of a run is permitted. -/
def PermitsAll (intGpioBase : Nat) (s : Gpio) : List Event → Prop
  | [] => True
  | e :: events => ∀ t, step intGpioBase e s = .ok () t →
      Permits s e ∧ PermitsAll intGpioBase t events

theorem followsAll_of_driven (hout : OutputsDriven s) (events : List Event) :
    FollowsAll intGpioBase s events ↔ PermitsAll intGpioBase s events := by
  induction events generalizing s with
  | nil => exact Iff.rfl
  | cons e events ih =>
    refine forall₂_congr fun t ht => ?_
    rw [← follows_step hout ht]
    exact and_congr_right fun hfollows => ih (outputsDriven_step hout ht hfollows)

/-- In every run from a reset on, every write and every synchronisation leaves the pins with the
values of their drivers just if each of them is permitted in the state before it. -/
theorem follows_iff (intGpioBase : Nat) (events : List Event) :
    FollowsAll intGpioBase init events ↔ PermitsAll intGpioBase init events :=
  followsAll_of_driven (fun i _ h => by simp [bit, init] at h) events

/-! ## Runs that break the law -/

theorem FollowsAll.last {events : List Event} {u : Gpio}
    (h : FollowsAll intGpioBase s (events ++ [e])) (hrun : runAll intGpioBase s events = some u)
    (hstep : step intGpioBase e u = .ok () t) : Follows u e t := by
  induction events generalizing s with
  | nil =>
    cases hrun
    exact (h t hstep).1
  | cons e' events ih =>
    unfold runAll at hrun
    cases hfirst : step intGpioBase e' s with
    | ok a s' =>
      rw [hfirst] at hrun
      exact ih (h s' hfirst).2 hrun
    | error err s' =>
      rw [hfirst] at hrun
      cases hrun

/-- A run is refuted by its last event. -/
theorem not_followsAll {events : List Event} (bad : Gpio → Gpio → Bool)
    (hbad : ∀ u t, bad u t = true → ¬ Follows u e t)
    (hend : (runAll intGpioBase init events).any
      (fun u => returnsIn (bad u) (step intGpioBase e u)) = true) :
    ¬ FollowsAll intGpioBase init (events ++ [e]) := by
  intro h
  cases hrun : runAll intGpioBase init events with
  | none =>
    rw [hrun] at hend
    cases hend
  | some u =>
    rw [hrun] at hend
    obtain ⟨_, t, hstep, hb⟩ := eq_ok_of_returnsIn hend
    exact hbad u t hb (h.last hrun hstep)

/-- A pin becomes an output after its port was set, a pin becomes an input after the client has
changed it, and a pull-up is switched off for a pin that the client holds low. -/
theorem pins_not_driven :
    ¬ FollowsAll 8 init ([.access (wordWrite .port 1#32)] ++ [.access (wordWrite .outputEn 1#32)]) ∧
    ¬ FollowsAll 8 init ([.change 0 .high, .synchronise] ++ [.access (wordWrite .inputEn 1#32)]) ∧
    ¬ FollowsAll 8 init ([.access (wordWrite .inputEn 1#32), .access (wordWrite .pullupEn 1#32),
      .change 0 .low, .synchronise] ++ [.access (wordWrite .pullupEn 0#32)]) := by
  refine ⟨not_followsAll (fun _ t => t.bit .outputEn 0 && (t.bit .value 0 != t.bit .port 0))
      (fun u t hbad h => ?_) (by decide +kernel),
    not_followsAll
      (fun _ t => t.bit .inputEn 0 && !t.bit .outputEn 0 && (t.bit .value 0 != t.level 0))
      (fun u t hbad h => ?_) (by decide +kernel),
    not_followsAll (fun u t => !u.bit .value 0 && t.bit .value 0 && !t.bit .pullupEn 0)
      (fun u t hbad h => ?_) (by decide +kernel)⟩
  · simp only [Bool.and_eq_true, bne_iff_ne] at hbad
    exact hbad.2 ((h rfl).1 0 (by decide) hbad.1)
  · simp only [Bool.and_eq_true, Bool.not_eq_true', bne_iff_ne] at hbad
    exact hbad.2 ((h rfl).2.1 0 (by decide) hbad.1.1 hbad.1.2)
  · simp only [Bool.and_eq_true, Bool.not_eq_true'] at hbad
    have hon := ((h rfl).2.2 (by decide) 0 (by decide) hbad.1.1 hbad.1.2).2
    rw [hbad.2] at hon
    cases hon

end SpsVp.Platform.Gpio
