import SpsVp.Platform.PlicAccess

/-!
# Priorities of the FE310 interrupt controller

After a write to the priority registers every priority should be bounded by `MaxPriority`. The loop
in `post_write_interrupt_priorities` ends before the last register, so a priority that is out of
range stays there until it is written again.
-/

namespace SpsVp.Platform

open Lib Effect

namespace RegisterMemory

variable (bound : BitVec 32)

/-- `std::min` of a word and a bound. -/
def atMost (w : BitVec 32) : BitVec 32 := if w ≤ bound then w else bound

theorem atMost_le (w : BitVec 32) : atMost bound w ≤ bound := by
  unfold atMost
  split_ifs with h
  · exact h
  · exact BitVec.le_refl bound

variable {bound}

theorem atMost_of_le {w : BitVec 32} (h : w ≤ bound) : atMost bound w = w := if_pos h

/-- The first words of a range, each one bounded. -/
def boundWords (bound : BitVec 32) (mem : RegisterMemory) (n : Nat) : RegisterMemory :=
  (List.range n).foldl (fun mem i => mem.setWord i (atMost bound (mem.word i))) mem

theorem word_boundWords (mem : RegisterMemory) (n i : Nat) :
    (boundWords bound mem n).word i = if i < n then atMost bound (mem.word i) else mem.word i := by
  induction n generalizing i with
  | zero => rfl
  | succ n ih =>
    rw [boundWords, List.range_succ, List.foldl_append, List.foldl_cons, List.foldl_nil]
    change ((boundWords bound mem n).setWord n
      (atMost bound ((boundWords bound mem n).word n))).word i = _
    rw [word_setWord, ih n, if_neg (Nat.lt_irrefl n), ih i]
    by_cases heq : i = n
    · rw [if_pos heq, heq, if_pos n.lt_succ_self]
    · have hlt : i < n + 1 ↔ i < n := by omega
      simp only [if_neg heq, hlt]

end RegisterMemory

namespace Plic

open RegisterMemory

variable {cfg : PlicConfig} {s t : Plic} {access : Access} {out : Option (List (BitVec 8))}

/-! ## A write -/

/-- A write to the priority registers. -/
def IsPriorityWrite (cfg : PlicConfig) (access : Access) : Prop :=
  access.command = .write ∧ (regsInterruptPriorities cfg).range.contains access.address.toNat = true

/-- A write has a byte of a register. -/
def Touches (access : Access) (i : Nat) : Prop :=
  4 * i < access.address.toNat + access.length ∧ access.address.toNat < 4 * i + 4

/-- The value that is written to a priority register: the bytes of the access, and the old ones. -/
def writtenPriority (s : Plic) (access : Access) (i : Nat) : BitVec 32 :=
  (s.interruptPriorities.copy access.address.toNat (access.data.take access.length)).word i

/-- Every priority is in range. -/
def InRange (cfg : PlicConfig) (s : Plic) : Prop :=
  ∀ i ≤ cfg.numberInterrupts, s.priority i ≤ cfg.maxPriority

/-- What a write to the priority registers should come to. -/
structure Clamps (cfg : PlicConfig) (s : Plic) (access : Access) (t : Plic) : Prop where
  inRange : InRange cfg t
  kept : ∀ i ≤ cfg.numberInterrupts, s.writtenPriority access i ≤ cfg.maxPriority →
    t.priority i = s.writtenPriority access i
  unwritten : ∀ i ≤ cfg.numberInterrupts, ¬ Touches access i → t.priority i = s.priority i

theorem postWriteInterruptPriorities_apply (cfg : PlicConfig) (offset len : Nat) (s : Plic) :
    postWriteInterruptPriorities cfg offset len s = .ok () { s with
      interruptPriorities :=
        boundWords cfg.maxPriority s.interruptPriorities cfg.numberInterrupts } := by
  rw [postWriteInterruptPriorities, forM_modify]
  refine congrArg (EStateM.Result.ok ()) ?_
  rw [boundWords]
  generalize List.range cfg.numberInterrupts = l
  induction l generalizing s with
  | nil => rfl
  | cons i l ih => exact ih _

/-- The last priority register is not bounded. -/
theorem priority_of_write (hwrite : IsPriorityWrite cfg access)
    (h : transport cfg access s = .ok out t) (i : Nat) :
    t.priority i = if i < cfg.numberInterrupts then
      atMost cfg.maxPriority (s.writtenPriority access i) else s.writtenPriority access i := by
  obtain ⟨hcommand, hcontains⟩ := hwrite
  rw [transport, MappedRange.route_of_contains hcontains] at h
  by_cases hadmits : (regsInterruptPriorities cfg).Admits access
  · rw [MappedRange.process_of_write hadmits hcommand rfl rfl rfl] at h
    obtain ⟨_, u, hpost, hreturn⟩ := bind_eq_ok h
    have hbounded :=
      (postWriteInterruptPriorities_apply cfg access.address.toNat access.length _).symm.trans hpost
    cases hbounded
    cases hreturn
    exact word_boundWords _ _ i
  · obtain ⟨e, u, herror, _⟩ := MappedRange.process_of_not_admits (s := s) hadmits
    cases herror.symm.trans h

theorem writtenPriority_of_not_touches {i : Nat} (h : ¬ Touches access i) :
    s.writtenPriority access i = s.priority i := by
  have hlength : (access.data.take access.length).length ≤ access.length := List.length_take_le _ _
  refine word_copy_of_outside ?_
  unfold Touches at h
  omega

/-- A write to the priority registers in range comes to what it should just if it leaves the last
priority in range. -/
theorem clamps_iff (hwrite : IsPriorityWrite cfg access) (hs : InRange cfg s)
    (h : transport cfg access s = .ok out t) :
    Clamps cfg s access t ↔ s.writtenPriority access cfg.numberInterrupts ≤ cfg.maxPriority := by
  have hpriority := priority_of_write hwrite h
  have hlast := hpriority cfg.numberInterrupts
  rw [if_neg (Nat.lt_irrefl _)] at hlast
  refine ⟨fun hclamps => hlast ▸ hclamps.inRange _ le_rfl, fun hle => ?_⟩
  have hkept : ∀ i ≤ cfg.numberInterrupts, s.writtenPriority access i ≤ cfg.maxPriority →
      t.priority i = s.writtenPriority access i := by
    intro i _ hrange
    rw [hpriority i]
    split_ifs
    · exact atMost_of_le hrange
    · rfl
  refine ⟨fun i hi => ?_, hkept, fun i hi htouches => ?_⟩
  · obtain hlt | rfl := Nat.lt_or_eq_of_le hi
    · rw [hpriority i, if_pos hlt]
      exact atMost_le _ _
    · rw [hlast]
      exact hle
  · have hsame := writtenPriority_of_not_touches (s := s) htouches
    rw [hkept i hi (hsame ▸ hs i hi), hsame]

/-! ## Runs -/

/-- The device after a reset has the priority one for every interrupt. -/
theorem inRange_init (hmax : 1#32 ≤ cfg.maxPriority) : InRange cfg (init cfg) := by
  intro i _
  have hwords : ∀ n, word ((List.range n).foldl (fun mem i => setWord mem i 1#32) fun _ => 0#8) i ≤
      1#32 := by
    intro n
    induction n with
    | zero =>
      change word (fun _ => 0#8) i ≤ 1#32
      rw [word_blank]
      decide
    | succ n ih =>
      rw [List.range_succ, List.foldl_append, List.foldl_cons, List.foldl_nil, word_setWord]
      split_ifs
      · exact BitVec.le_refl _
      · exact ih
  exact BitVec.le_trans (hwords _) hmax

/-- Every write of a sequence comes to what it should. -/
def ClampsAll (cfg : PlicConfig) (s : Plic) : List Access → Prop
  | [] => True
  | access :: accesses => ∀ out t, transport cfg access s = .ok out t →
      Clamps cfg s access t ∧ ClampsAll cfg t accesses

/-- No write of a sequence puts a value out of range into the last priority register. -/
def LastInRange (cfg : PlicConfig) (s : Plic) : List Access → Prop
  | [] => True
  | access :: accesses => ∀ out t, transport cfg access s = .ok out t →
      s.writtenPriority access cfg.numberInterrupts ≤ cfg.maxPriority ∧ LastInRange cfg t accesses

theorem clampsAll_of_inRange {accesses : List Access}
    (hwrites : ∀ access ∈ accesses, IsPriorityWrite cfg access) (hs : InRange cfg s) :
    ClampsAll cfg s accesses ↔ LastInRange cfg s accesses := by
  induction accesses generalizing s with
  | nil => exact Iff.rfl
  | cons access accesses ih =>
    have hwrite := hwrites access List.mem_cons_self
    have hrest := fun access' h => hwrites access' (List.mem_cons_of_mem access h)
    refine forall₃_congr fun out t h => ?_
    rw [clamps_iff hwrite hs h]
    refine and_congr_right fun hle => ih hrest ?_
    exact ((clamps_iff hwrite hs h).mpr hle).inRange

/-- In every sequence of writes to the priority registers, from a reset on, every write comes to
what it should just if none of them puts a value out of range into the last register. -/
theorem priorities_clamped_iff (hmax : 1#32 ≤ cfg.maxPriority) {accesses : List Access}
    (hwrites : ∀ access ∈ accesses, IsPriorityWrite cfg access) :
    ClampsAll cfg (init cfg) accesses ↔ LastInRange cfg (init cfg) accesses :=
  clampsAll_of_inRange hwrites (inRange_init hmax)

/-- A write of a word to the priority register of an interrupt. -/
def priorityWrite (i : Nat) (value : BitVec 32) : Access :=
  ⟨.write, BitVec.ofNat 64 (4 * i), bytesOf value, 4⟩

/-- A value out of range for an interrupt that the loop covers. -/
theorem priorities_clamped_hifive :
    ClampsAll hifiveConfig (init hifiveConfig) [priorityWrite 52 9#32] := by
  refine (priorities_clamped_iff (by decide) fun access h => ?_).mpr fun out t ht => ⟨?_, trivial⟩
  · rw [List.mem_singleton.mp h]
    exact ⟨rfl, by decide⟩
  · decide +kernel

/-- A value out of range stays in the last register. -/
theorem last_priority_out_of_range : IsPriorityWrite hifiveConfig (priorityWrite 53 8#32) ∧
    ∃ out t, transport hifiveConfig (priorityWrite 53 8#32) (init hifiveConfig) = .ok out t ∧
      ¬ InRange hifiveConfig t := by
  have hrun : returnsIn (fun t => decide (¬ t.priority 53 ≤ 7#32))
      (transport hifiveConfig (priorityWrite 53 8#32) (init hifiveConfig)) = true := by
    decide +kernel
  obtain ⟨out, t, ht, hlast⟩ := eq_ok_of_returnsIn hrun
  exact ⟨⟨rfl, by decide⟩, out, t, ht, fun hrange => of_decide_eq_true hlast (hrange 53 le_rfl)⟩

end Plic

end SpsVp.Platform
