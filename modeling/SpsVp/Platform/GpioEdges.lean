import SpsVp.Platform.Gpio

/-!
# Edge interrupts of different pins

The client changes pins, the guest enables interrupts and acknowledges them by a write of the bit of
a pin to a pending register. Every edge of an input pin should trigger the interrupt of that pin, if
it is enabled and was acknowledged since it was triggered before. But the write of an
acknowledgement clears the bits of all other pins, which stand for interrupts that are not
acknowledged. `edges_independent_iff` says that a run is not affected just if every acknowledgement
finds all other bits at zero. -/

namespace SpsVp.Platform.Gpio

open Lib Effect

variable {s t : Gpio} {access : Access} {r : Reg} {intGpioBase : Nat} {o : Edge → Nat → Bool}

/-! ## Events -/

/-- An access that writes a pending register. -/
def WritesPending (access : Access) : Prop :=
  access.command = .write ∧ ∃ edge : Edge, bank.register access = some edge.pending

/-- What happens to the pins. An acknowledgement is the only write to a pending register. -/
inductive PinEvent where
  | access (access : Access) (h : ¬ WritesPending access)
  | acknowledge (edge : Edge) (pin : Fin 32)
  | change (bit : Fin 64) (val : Tristate)
  | synchronise

/-- The event of the device. -/
def PinEvent.event : PinEvent → Event
  | .access access _ => .access access
  | .acknowledge edge pin => .access (wordWrite edge.pending (BitVec.twoPow 32 pin))
  | .change bit val => .change bit val
  | .synchronise => .synchronise

/-! ## Interrupts that are not acknowledged -/

/-- The edge that a synchronisation sees if a pin has changed. -/
def edgeOf (s : Gpio) (i : Nat) : Edge := .ofLevel (s.level i)

/-- A synchronisation sees an edge of an input pin. -/
def seen (s : Gpio) (i : Nat) : Bool := s.bit .inputEn i && (s.level i ^^ s.bit .value i)

/-- An edge is seen, its interrupt is enabled, and no such interrupt is left to be acknowledged. -/
def due (o : Edge → Nat → Bool) (s : Gpio) (i : Nat) : Bool :=
  s.seen i && s.bit (s.edgeOf i).enable i && !o (s.edgeOf i) i

/-- The interrupts that are not acknowledged after another event. -/
def outstanding (o : Edge → Nat → Bool) (s : Gpio) : PinEvent → Edge → Nat → Bool
  | .acknowledge edge pin, edge', i => o edge' i && !(edge' = edge && i = pin)
  | .synchronise, edge, i => o edge i || (s.notified && due o s i && s.edgeOf i = edge)
  | .access _ _, edge, i => o edge i
  | .change _ _, edge, i => o edge i

/-- What an event should come to: a synchronisation triggers the interrupts that are due, and an
acknowledgement does not change whether another pin can trigger. -/
def Independent (intGpioBase : Nat) (o : Edge → Nat → Bool) (s : Gpio) : PinEvent → Gpio → Prop
  | .synchronise, t => s.notified = true →
      t.triggered = s.triggered ++ ((List.range 32).filter (due o s)).map (intGpioBase + ·)
  | .acknowledge _ pin, t => ∀ edge : Edge, ∀ j < 32, j ≠ pin.val →
      t.bit edge.pending j = s.bit edge.pending j
  | .access _ _, _ => True
  | .change _ _, _ => True

/-- An acknowledgement finds the bits of the other pins at zero. -/
def AloneAcknowledged (s : Gpio) : PinEvent → Prop
  | .acknowledge edge pin => ∀ j < 32, j ≠ pin.val → s.bit edge.pending j = false
  | .access _ _ => True
  | .change _ _ => True
  | .synchronise => True

/-- The pending registers have a zero for the interrupts that are not acknowledged. -/
def Latched (o : Edge → Nat → Bool) (s : Gpio) : Prop :=
  ∀ edge : Edge, ∀ i < 32, s.bit edge.pending i = !o edge i

variable {edge : Edge} {i n : Nat} {pin : Fin 32}

theorem Edge.pending_inj {edge' : Edge} : edge'.pending = edge.pending ↔ edge' = edge := by
  cases edge <;> cases edge' <;> decide

/-! ## A synchronisation -/

/-- The interrupt of a pin is triggered. -/
def fired (intGpioBase : Nat) (edge : Edge) (i : Nat) (s : Gpio) : Gpio :=
  let s' := s.setReg edge.pending (s.reg edge.pending &&& ~~~BitVec.twoPow 32 i)
  { s' with triggered := s.triggered ++ [intGpioBase + i] }

theorem fire_eq (edge : Edge) (hi : i < 32) (s : Gpio) : fire intGpioBase edge i s =
    if s.bit edge.enable i && s.bit edge.pending i then fired intGpioBase edge i s else s := by
  unfold fire
  rw [BitVec.getLsbD_not, decide_eq_true hi, Bool.true_and]
  change (if s.bit edge.enable i = true then
    if (!s.bit edge.pending i) = true then s else fired intGpioBase edge i s else s) = _
  cases s.bit edge.enable i with
  | false => rfl
  | true =>
    cases s.bit edge.pending i with
    | false | true => rfl

theorem bit_fired (edge edge' : Edge) {j : Nat} (hj : j < 32) (s : Gpio) :
    (fired intGpioBase edge i s).bit edge'.pending j =
      (s.bit edge'.pending j && !(edge' = edge && j = i)) := by
  change (setReg edge.pending _ s).bit edge'.pending j = _
  rw [bit_setReg]
  by_cases hedge : edge' = edge
  · subst hedge
    rw [if_pos rfl, BitVec.getLsbD_and, BitVec.getLsbD_not, BitVec.getLsbD_twoPow,
      decide_eq_true hj, Bool.true_and]
    change (s.bit edge'.pending j && !(_ && _)) = _
    by_cases hsame : j = i
    · subst hsame
      simp [hj]
    · simp [hsame, Ne.symm hsame]
  · rw [if_neg (Edge.pending_inj.not.mpr hedge)]
    simp [hedge]

/-- A pin for which the loop triggers the interrupt. -/
def fires (s : Gpio) (i : Nat) : Bool :=
  s.seen i && s.bit (s.edgeOf i).enable i && s.bit (s.edgeOf i).pending i

theorem seen_eq (hi : i < 32) (s : Gpio) : s.diff.getLsbD i = s.seen i := by
  rw [diff, BitVec.getLsbD_and, BitVec.getLsbD_xor, BitVec.getLsbD_setWidth, decide_eq_true hi,
    Bool.true_and, Bool.and_comm]
  rfl

/-- The state after the loop has gone through some pins. -/
structure Fired (intGpioBase : Nat) (s : Gpio) (n : Nat) (t : Gpio) : Prop where
  triggered : t.triggered = s.triggered ++ ((List.range n).filter (fires s)).map (intGpioBase + ·)
  pending : ∀ edge : Edge, ∀ j < 32, t.bit edge.pending j =
    (s.bit edge.pending j && !(decide (j < n) && fires s j && s.edgeOf j = edge))
  enabled : ∀ (edge : Edge) (j : Nat), t.bit edge.enable j = s.bit edge.enable j

/-- The loop for another pin. -/
theorem changePin_eq {u : Gpio} (h : Fired intGpioBase s n u) (hn : n < 32) :
    changePin intGpioBase s.server s.diff u n =
      if fires s n then fired intGpioBase (s.edgeOf n) n u else u := by
  unfold changePin fires
  rw [seen_eq hn, fire_eq _ hn]
  change (if s.seen n = true then
    if (u.bit (s.edgeOf n).enable n && u.bit (s.edgeOf n).pending n) = true then
      fired intGpioBase (s.edgeOf n) n u else u else u) = _
  rw [h.enabled, h.pending _ n hn, decide_eq_false (Nat.lt_irrefl n),
    Bool.false_and, Bool.false_and, Bool.not_false, Bool.and_true]
  cases s.seen n with
  | false => rfl
  | true => simp only [if_true, Bool.true_and]

theorem Fired.succ {u : Gpio} (h : Fired intGpioBase s n u) (hn : n < 32) :
    Fired intGpioBase s (n + 1) (changePin intGpioBase s.server s.diff u n) := by
  rw [changePin_eq h hn]
  cases hfires : fires s n with
  | true =>
    refine ⟨?_, fun edge j hj => ?_, fun edge j => ?_⟩
    · rw [List.range_succ, List.filter_append, List.filter_cons_of_pos hfires, List.filter_nil,
        List.map_append, ← List.append_assoc, ← h.triggered]
      rfl
    · rw [if_pos rfl, bit_fired _ _ hj, h.pending edge j hj]
      by_cases hsame : j = n
      · subst hsame
        simp [hfires, eq_comm]
      · have hlt : j < n + 1 ↔ j < n := by omega
        simp [hsame, hlt]
    · rw [if_pos rfl, ← h.enabled edge j]
      refine (bit_setReg _ _ _ _).trans (if_neg ?_)
      cases edge <;> cases s.edgeOf n <;> decide
  | false =>
    refine ⟨?_, fun edge j hj => ?_, h.enabled⟩
    · rw [List.range_succ, List.filter_append, List.filter_cons_of_neg (by simp [hfires]),
        List.filter_nil, List.append_nil]
      exact h.triggered
    · rw [if_neg Bool.false_ne_true, h.pending edge j hj]
      by_cases hsame : j = n
      · subst hsame
        simp [hfires]
      · have hlt : j < n + 1 ↔ j < n := by omega
        simp [hlt]

theorem fired_foldl (intGpioBase : Nat) (s : Gpio) (hn : n ≤ 32) :
    Fired intGpioBase s n ((List.range n).foldl (changePin intGpioBase s.server s.diff) s) := by
  induction n with
  | zero => exact ⟨(List.append_nil _).symm, fun _ _ _ => by simp, fun _ _ => rfl⟩
  | succ n ih =>
    rw [List.range_succ, List.foldl_append, List.foldl_cons, List.foldl_nil]
    exact (ih (by omega)).succ (by omega)

/-- What a synchronisation does to the interrupts. -/
theorem fired_synchronousChange (intGpioBase : Nat) (s : Gpio) :
    Fired intGpioBase s 32 (synchronousChange intGpioBase s) := by
  unfold synchronousChange
  split_ifs with hdiff
  · -- no pin has changed
    have hnone : ∀ i < 32, fires s i = false := by
      intro i hi
      rw [fires, ← seen_eq hi, hdiff, BitVec.getLsbD_zero, Bool.false_and, Bool.false_and]
    have hfilter : (List.range 32).filter (fires s) = [] :=
      List.filter_eq_nil_iff.mpr fun i hi => by simp [hnone i (List.mem_range.mp hi)]
    refine ⟨?_, fun edge j hj => ?_, fun _ _ => rfl⟩
    · rw [hfilter, List.map_nil, List.append_nil]
    · rw [hnone j hj]
      simp
  · have hloop := fired_foldl intGpioBase s (Nat.le_refl 32)
    refine ⟨hloop.triggered, fun edge j hj => ?_, fun edge j => ?_⟩
    · refine Eq.trans ((bit_setReg _ _ _ _).trans (if_neg ?_)) (hloop.pending edge j hj)
      cases edge <;> decide
    · refine Eq.trans ((bit_setReg _ _ _ _).trans (if_neg ?_)) (hloop.enabled edge j)
      cases edge <;> decide

/-- Where the pending registers have what is outstanding, the loop triggers what is due. -/
theorem fires_eq_due (h : Latched o s) (hi : i < 32) : fires s i = due o s i := by
  rw [fires, due, h _ i hi]

/-! ## Runs -/

/-- A synchronisation triggers what is due, and nothing else is outstanding then. -/
theorem independent_synchronise (h : Latched o s) :
    Independent intGpioBase o s .synchronise (synchronise intGpioBase s) ∧
      Latched (outstanding o s .synchronise) (synchronise intGpioBase s) := by
  by_cases hnotified : s.notified = true
  · have hrun :
        synchronise intGpioBase s = synchronousChange intGpioBase { s with notified := false } :=
      if_pos hnotified
    have hfired := fired_synchronousChange intGpioBase { s with notified := false }
    have hfires : ∀ i < 32, fires { s with notified := false } i = due o s i := fun i hi =>
      fires_eq_due (s := s) h hi
    rw [hrun]
    refine ⟨fun _ => ?_, fun edge i hi => ?_⟩
    · rw [hfired.triggered, List.filter_congr fun i hi => hfires i (List.mem_range.mp hi)]
    · rw [hfired.pending edge i hi, hfires i hi, decide_eq_true hi, Bool.true_and]
      change (s.bit edge.pending i && !(due o s i && decide (s.edgeOf i = edge))) =
        !(o edge i || (s.notified && due o s i && decide (s.edgeOf i = edge)))
      rw [h edge i hi, hnotified, Bool.true_and, Bool.not_or]
  · have hrun : synchronise intGpioBase s = s := if_neg hnotified
    rw [hrun]
    refine ⟨fun hnotified' => absurd hnotified' hnotified, fun edge i hi => ?_⟩
    rw [h edge i hi]
    change _ = !(o edge i || (s.notified && _ && _))
    rw [Bool.eq_false_iff.mpr hnotified, Bool.false_and, Bool.false_and, Bool.or_false]

/-- The bits of the pending registers after an acknowledgement. -/
theorem bit_acknowledge (edge edge' : Edge) (pin : Fin 32) (j : Nat) :
    (s.afterWrite (wordWrite edge.pending (BitVec.twoPow 32 pin)) edge.pending).bit
      edge'.pending j = if edge' = edge then decide (j = pin) else s.bit edge'.pending j := by
  have hplain : edge.pending ∉ [.value, .port, .pullupEn] := by
    cases edge <;> decide
  rw [afterWrite_of_plain hplain, bit_setReg, writtenValue_wordWrite, BitVec.getLsbD_twoPow]
  simp only [Edge.pending_inj]
  split_ifs
  · simp [eq_comm]
  · rfl

/-- The step of an acknowledgement. -/
theorem step_acknowledge
    (h : step intGpioBase (PinEvent.acknowledge edge pin).event s = .ok () t) :
    t = s.afterWrite (wordWrite edge.pending (BitVec.twoPow 32 pin)) edge.pending := by
  obtain ⟨out, u, htransport, hreturn⟩ := bind_eq_ok h
  cases hreturn
  obtain ⟨hread, _⟩ | ⟨_, r, hr, ht⟩ := transport_cases htransport
  · cases hread
  · cases Option.some.inj ((register_wordWrite _ _).symm.trans hr)
    exact ht

/-- An acknowledgement leaves the other pins alone just if their bits are at zero. -/
theorem independent_acknowledge
    (h : step intGpioBase (PinEvent.acknowledge edge pin).event s = .ok () t) :
    Independent intGpioBase o s (.acknowledge edge pin) t ↔
      AloneAcknowledged s (.acknowledge edge pin) := by
  cases step_acknowledge h
  constructor
  · intro hindependent j hj hne
    rw [← hindependent edge j hj hne, bit_acknowledge, if_pos rfl,
      decide_eq_false hne]
  · intro halone edge' j hj hne
    rw [bit_acknowledge]
    split_ifs with hedge
    · rw [hedge, halone j hj hne, decide_eq_false hne]
    · rfl

theorem latched_acknowledge (hlatched : Latched o s)
    (h : step intGpioBase (PinEvent.acknowledge edge pin).event s = .ok () t)
    (halone : AloneAcknowledged s (.acknowledge edge pin)) :
    Latched (outstanding o s (.acknowledge edge pin)) t := by
  cases step_acknowledge h
  intro edge' i hi
  change _ = !(o edge' i && !(decide (edge' = edge) && decide (i = pin.val)))
  rw [bit_acknowledge]
  by_cases hedge : edge' = edge
  · subst hedge
    by_cases hpin : i = pin.val
    · simp [hpin]
    · have hzero := halone i hi hpin
      rw [hlatched edge' i hi] at hzero
      have hone : o edge' i = true := by simpa using hzero
      simp [hpin, hone]
  · rw [if_neg hedge, hlatched edge' i hi]
    simp [hedge]

/-- An access that does not write a pending register. -/
theorem bit_pending_of_access (hpending : ¬ WritesPending access) {out : Answer}
    (h : transport access s = .ok out t) (edge : Edge) (i : Nat) :
    t.bit edge.pending i = s.bit edge.pending i := by
  obtain ⟨_, rfl⟩ | ⟨hwrite, r, hr, rfl⟩ := transport_cases h
  · rfl
  · have hne : edge.pending ≠ r := fun heq => hpending ⟨hwrite, edge, heq ▸ hr⟩
    have hvalue : edge.pending ≠ .value := by
      cases edge <;> decide
    unfold afterWrite
    split_ifs with hr'
    · rfl
    · have hset :
          (s.setReg r (s.writtenValue access r)).bit edge.pending i = s.bit edge.pending i :=
        (bit_setReg _ _ _ _).trans (if_neg hne)
      rw [← hset]
      unfold react
      split
      · exact (bit_setReg .value _ _ _).trans (if_neg hvalue)
      · exact (bit_setReg .value _ _ _).trans (if_neg hvalue)
      · rfl

/-- Every event comes to what it should just if an acknowledgement finds the other bits at zero, and
the pending registers then have what is outstanding. -/
theorem independent_step (hlatched : Latched o s) {e : PinEvent}
    (h : step intGpioBase e.event s = .ok () t) :
    (Independent intGpioBase o s e t ↔ AloneAcknowledged s e) ∧
      (AloneAcknowledged s e → Latched (outstanding o s e) t) := by
  cases e with
  | access access hpending =>
    obtain ⟨out, u, htransport, hreturn⟩ := bind_eq_ok h
    cases hreturn
    refine ⟨Iff.rfl, fun _ edge i hi => ?_⟩
    exact (bit_pending_of_access hpending htransport edge i).trans (hlatched edge i hi)
  | acknowledge edge pin =>
    exact ⟨independent_acknowledge h, latched_acknowledge hlatched h⟩
  | change bit val =>
    cases h
    refine ⟨Iff.rfl, fun _ edge i hi => ?_⟩
    rw [Gpio.bit, reg_asyncOnchange]
    exact hlatched edge i hi
  | synchronise =>
    cases h
    obtain ⟨hindependent, hnext⟩ := independent_synchronise hlatched
    exact ⟨iff_of_true hindependent trivial, fun _ => hnext⟩

/-- Every event of a run comes to what it should. -/
def IndependentAll (intGpioBase : Nat) (o : Edge → Nat → Bool) (s : Gpio) : List PinEvent → Prop
  | [] => True
  | e :: events => ∀ t, step intGpioBase e.event s = .ok () t →
      Independent intGpioBase o s e t ∧ IndependentAll intGpioBase (outstanding o s e) t events

/-- Every acknowledgement of a run finds the bits of the other pins at zero. -/
def AloneAcknowledgedAll (intGpioBase : Nat) (s : Gpio) : List PinEvent → Prop
  | [] => True
  | e :: events => ∀ t, step intGpioBase e.event s = .ok () t →
      AloneAcknowledged s e ∧ AloneAcknowledgedAll intGpioBase t events

theorem independentAll_of_latched (hlatched : Latched o s) (events : List PinEvent) :
    IndependentAll intGpioBase o s events ↔ AloneAcknowledgedAll intGpioBase s events := by
  induction events generalizing s o with
  | nil => exact Iff.rfl
  | cons e events ih =>
    refine forall₂_congr fun t ht => ?_
    obtain ⟨hiff, hnext⟩ := independent_step hlatched ht
    rw [hiff]
    exact and_congr_right fun halone => ih (hnext halone)

/-- In every run from a reset on, the edges of the pins trigger what is due and no acknowledgement
disturbs another pin, just if every acknowledgement finds the bits of the other pins at zero. -/
theorem edges_independent_iff (intGpioBase : Nat) (events : List PinEvent) :
    IndependentAll intGpioBase (fun _ _ => false) init events ↔
      AloneAcknowledgedAll intGpioBase init events := by
  refine independentAll_of_latched (fun edge i hi => ?_) events
  have hones : init.reg edge.pending = BitVec.allOnes 32 := by
    cases edge <;> rfl
  rw [bit, hones, BitVec.getLsbD_allOnes, decide_eq_true hi]
  rfl

/-- An acknowledgement of a pin, after which the rising edge of another pin triggers nothing. -/
theorem acknowledgement_disturbs :
    ¬ IndependentAll 8 (fun _ _ => false) init [.acknowledge .rise 0] ∧
    (runAll 8 init [.access (wordWrite .inputEn 3#32), .access (wordWrite .riseIntrEn 3#32),
      (PinEvent.acknowledge .rise 0).event, .change 1 .high, .synchronise]).map triggered =
      some [] := by
  refine ⟨fun h => ?_, by decide +kernel⟩
  have hrun : returnsIn (fun t => !t.bit .riseIntrPending 1)
      (step 8 (PinEvent.acknowledge .rise 0).event init) = true := by
    decide +kernel
  obtain ⟨_, t, ht, hbit⟩ := eq_ok_of_returnsIn hrun
  have hsame := (h t ht).1 .rise 1 (by decide) (by decide)
  change t.bit .riseIntrPending 1 = init.bit .riseIntrPending 1 at hsame
  rw [hsame] at hbit
  exact absurd hbit (by decide)

end SpsVp.Platform.Gpio
