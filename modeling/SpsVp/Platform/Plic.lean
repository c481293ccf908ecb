import Mathlib.Logic.Function.Basic
import SpsVp.Lib.Select
import SpsVp.Platform.RegisterRange

/-!
# The interrupt controller of the FE310

`platform/common/fe310_plic.h`. A gateway sets the pending bit of its interrupt and notifies the
thread `run`, which raises the external interrupt of the harts. Software writes priorities,
thresholds and enable bits, claims an interrupt by a read of its claim register, which clears the
pending bit, and completes it by a write there, which raises the external interrupt once more or
clears it.

The enable bits of all harts are one array, which the device indexes by hart and entry with rows of
length one, and the callbacks for the claim registers count in words, not in harts.
-/

namespace SpsVp.Platform

open Lib Effect

/-- The template parameters of `FE310_PLIC`. Every interrupt has a bit in the entries, and the
ranges of the registers do not overlap. -/
structure PlicConfig where
  numberCores : Nat
  numberInterrupts : Nat
  numberInterruptEntries : Nat
  maxPriority : BitVec 32
  cores_pos : 0 < numberCores
  cores_le : numberCores ≤ 15360
  interrupts_pos : 0 < numberInterrupts
  entries_pos : 0 < numberInterruptEntries
  interrupts_le : numberInterrupts ≤ 32 * numberInterruptEntries
  priorities_le : 4 * (numberInterrupts + 1) ≤ 0x1000
  pending_le : 4 * numberInterruptEntries ≤ 0x1000
  enabled_le : 0x2000 + 4 * numberInterruptEntries * numberCores ≤ 0x200000

/-- The assertions of the device. -/
inductive PlicAssertion where
  | interruptId
  | callbackAlignment
  | claimSize
  | hartEip
deriving DecidableEq

/-- The registers, the state of the interrupt lines and the notification of `run`. -/
structure Plic where
  interruptPriorities : RegisterMemory
  pendingInterrupts : RegisterMemory
  hartEnabledInterrupts : RegisterMemory
  /-- The words of the structures `HartConfig`: threshold and claim response, hart by hart. -/
  hartConfig : RegisterMemory
  hartEip : Nat → Bool
  /-- The external interrupt of a hart, as it was last triggered or cleared. -/
  line : Nat → Bool
  /-- A notification of `e_run` is outstanding. -/
  eRun : Bool

abbrev PlicM := Effect (DeviceError PlicAssertion) Plic

namespace Plic

/-- `RowSize` of the view of the enable bits. -/
abbrev rowSize : Nat := 1

section

variable (cfg : PlicConfig)

/-- The constructor. -/
def init : Plic where
  interruptPriorities := (List.range cfg.numberInterrupts).foldl (fun mem i => mem.setWord i 1#32)
    fun _ => 0#8
  pendingInterrupts := fun _ => 0#8
  hartEnabledInterrupts := fun _ => 0#8
  hartConfig := fun _ => 0#8
  hartEip := fun _ => false
  line := fun _ => false
  eRun := false

/-! ## Views -/

/-- `ArrayView::operator[]`. -/
def index (size i : Nat) : PlicM Unit := if i < size then pure () else throw .rangeAssertion

/-- `ArrayView::operator()` does not check its indices. -/
def hartEnabledAt (hart entry : Nat) : PlicM (BitVec 32) := do
  let i := hart * rowSize + entry
  if i < cfg.numberInterruptEntries * cfg.numberCores then
    return (← get).hartEnabledInterrupts.word i
  else throw .outOfBounds

def pendingAt (entry : Nat) : PlicM (BitVec 32) := do
  index cfg.numberInterruptEntries entry
  return (← get).pendingInterrupts.word entry

def priorityAt (irqId : Nat) : PlicM (BitVec 32) := do
  index (cfg.numberInterrupts + 1) irqId
  return (← get).interruptPriorities.word irqId

def thresholdAt (hart : Nat) : PlicM (BitVec 32) := do
  index cfg.numberCores hart
  return (← get).hartConfig.word (2 * hart)

def setClaimResponse (hart : Nat) (value : BitVec 32) : PlicM Unit := do
  index cfg.numberCores hart
  modify fun s => { s with hartConfig := s.hartConfig.setWord (2 * hart + 1) value }

/-- `std::array::operator[]` does not check its index. -/
def hartIndex (hart : Nat) : PlicM Unit :=
  if hart < cfg.numberCores then pure () else throw .outOfBounds

/-! ## Pending interrupts -/

def gatewayTriggerInterrupt (irqId : Nat) : PlicM Unit := do
  if ¬ (0 < irqId ∧ irqId < cfg.numberInterrupts) then throw (.assertion .interruptId)
  let word ← pendingAt cfg (irqId / 32)
  modify fun s => { s with
    pendingInterrupts := s.pendingInterrupts.setWord (irqId / 32)
      (word ||| BitVec.twoPow 32 (irqId % 32)) }
  modify fun s => { s with eRun := true }

def clearPendingInterrupt (irqId : Nat) : PlicM Unit := do
  if ¬ irqId < cfg.numberInterrupts then throw (.assertion .interruptId)
  let word ← pendingAt cfg (irqId / 32)
  modify fun s => { s with
    pendingInterrupts := s.pendingInterrupts.setWord (irqId / 32)
      (word &&& ~~~BitVec.twoPow 32 (irqId % 32)) }

/-- The priority that an interrupt must exceed. -/
def limitAt (hart : Nat) (considerThreshold : Bool) : PlicM (BitVec 32) :=
  if considerThreshold then thresholdAt cfg hart else pure 0#32

/-- The body of the loop of `hart_get_next_pending_interrupt`, on `min_id` and `max_priority`. -/
def considerInterrupt (hart : Nat) (considerThreshold : Bool) (best : Nat × BitVec 32) (i : Nat) :
    PlicM (Nat × BitVec 32) := do
  if (← hartEnabledAt cfg hart (i / 32)).getLsbD (i % 32) then
    if (← pendingAt cfg (i / 32)).getLsbD (i % 32) then
      let prio ← priorityAt cfg i
      if prio > 0#32 then
        let limit ← limitAt cfg hart considerThreshold
        if prio > limit ∧ prio > best.2 then return (i, prio) else return best
      else return best
    else return best
  else return best

def hartGetNextPendingInterrupt (hart : Nat) (considerThreshold : Bool) : PlicM Nat := do
  let best ← (List.range' 1 (cfg.numberInterrupts - 1)).foldlM
    (considerInterrupt cfg hart considerThreshold) (0, 0#32)
  return best.1

def hartHasPendingEnabledInterrupts (hart : Nat) : PlicM Bool := do
  return (← hartGetNextPendingInterrupt cfg hart true) > 0

/-! ## External interrupts -/

def triggerExternalInterrupt (hart : Nat) : PlicM Unit :=
  modify fun s => { s with line := Function.update s.line hart true }

def clearExternalInterrupt (hart : Nat) : PlicM Unit :=
  modify fun s => { s with line := Function.update s.line hart false }

def setHartEip (hart : Nat) (value : Bool) : PlicM Unit := do
  hartIndex cfg hart
  modify fun s => { s with hartEip := Function.update s.hartEip hart value }

def assertHartEip (hart : Nat) : PlicM Unit := do
  hartIndex cfg hart
  if !(← get).hartEip hart then throw (.assertion .hartEip)

/-- The body of the loop of `run`, for a hart. -/
def runHart (hart : Nat) : PlicM Unit := do
  if !(← get).hartEip hart then
    if ← hartHasPendingEnabledInterrupts cfg hart then
      setHartEip cfg hart true
      triggerExternalInterrupt hart

/-- `run` after a wait for `e_run`. -/
def run : PlicM Unit := do
  modify fun s => { s with eRun := false }
  (List.range cfg.numberCores).forM (runHart cfg)

/-! ## Registers -/

/-- The loop of `post_write_interrupt_priorities` leaves out the last priority, as `ArrayView::end`
is a pointer to it. -/
def postWriteInterruptPriorities (_ _ : Nat) : PlicM Unit :=
  (List.range cfg.numberInterrupts).forM fun i =>
    modify fun s => { s with
      interruptPriorities := s.interruptPriorities.setWord i
        (if s.interruptPriorities.word i ≤ cfg.maxPriority then s.interruptPriorities.word i
          else cfg.maxPriority) }

/-- The access to a claim register in `pre_read_hart_config`. -/
def claim (idx size : Nat) : PlicM Unit := do
  if size ≠ 4 then throw (.assertion .claimSize)
  let minId ← hartGetNextPendingInterrupt cfg 0 false
  setClaimResponse cfg idx (BitVec.ofNat 32 minId)
  clearPendingInterrupt cfg minId

def preReadHartConfig (addr size : Nat) : PlicM Bool := do
  if addr % 4 ≠ 0 then throw (.assertion .callbackAlignment)
  let idx := addr / 4
  if idx % 2 = 1 then claim cfg (idx - 1) size
  return true

/-- The access to a claim register in `post_write_hart_config`. -/
def complete (idx size : Nat) : PlicM Unit := do
  if size ≠ 4 then throw (.assertion .claimSize)
  if ← hartHasPendingEnabledInterrupts cfg idx then
    assertHartEip cfg idx
    triggerExternalInterrupt idx
  else
    setHartEip cfg idx false
    clearExternalInterrupt idx

def postWriteHartConfig (addr size : Nat) : PlicM Unit := do
  if addr % 4 ≠ 0 then throw (.assertion .callbackAlignment)
  let idx := addr / 4
  if idx % 2 = 1 then complete cfg (idx - 1) size

def regsInterruptPriorities : MappedRange PlicAssertion Plic where
  range := ⟨0x0, 4 * (cfg.numberInterrupts + 1), false, 1⟩
  mem := interruptPriorities
  setMem := fun mem s => { s with interruptPriorities := mem }
  postWrite := postWriteInterruptPriorities cfg

def regsPendingInterrupts : MappedRange PlicAssertion Plic where
  range := ⟨0x1000, 4 * cfg.numberInterruptEntries, true, 1⟩
  mem := pendingInterrupts
  setMem := fun mem s => { s with pendingInterrupts := mem }

def regsHartEnabledInterrupts : MappedRange PlicAssertion Plic where
  range := ⟨0x2000, 4 * cfg.numberInterruptEntries * cfg.numberCores, false, 1⟩
  mem := hartEnabledInterrupts
  setMem := fun mem s => { s with hartEnabledInterrupts := mem }

def regsHartConfig : MappedRange PlicAssertion Plic where
  range := ⟨0x200000, 8 * cfg.numberCores, false, 4⟩
  mem := hartConfig
  setMem := fun mem s => { s with hartConfig := mem }
  preRead := preReadHartConfig cfg
  postWrite := postWriteHartConfig cfg

def transport (access : Access) : PlicM (Option (List (BitVec 8))) :=
  MappedRange.route "FE310_PLIC" [regsInterruptPriorities cfg, regsPendingInterrupts cfg,
    regsHartEnabledInterrupts cfg, regsHartConfig cfg] access

/-! ## Selection -/

/-- An interrupt is enabled for a hart. -/
def isEnabled (s : Plic) (hart i : Nat) : Bool :=
  (s.hartEnabledInterrupts.word (hart * rowSize + i / 32)).getLsbD (i % 32)

def isPending (s : Plic) (i : Nat) : Bool := (s.pendingInterrupts.word (i / 32)).getLsbD (i % 32)

def priority (s : Plic) (i : Nat) : BitVec 32 := s.interruptPriorities.word i

def threshold (s : Plic) (hart : Nat) : BitVec 32 := s.hartConfig.word (2 * hart)

def claimResponse (s : Plic) (hart : Nat) : BitVec 32 := s.hartConfig.word (2 * hart + 1)

/-- What `limitAt` returns. -/
def limit (s : Plic) (hart : Nat) (considerThreshold : Bool) : BitVec 32 :=
  if considerThreshold then s.threshold hart else 0#32

/-- An interrupt that can be selected for a hart. -/
def Eligible (s : Plic) (hart : Nat) (considerThreshold : Bool) (i : Nat) : Prop :=
  0 < i ∧ i < cfg.numberInterrupts ∧ s.isEnabled hart i = true ∧ s.isPending i = true ∧
    0#32 < s.priority i ∧ s.limit hart considerThreshold < s.priority i

instance (s : Plic) (hart : Nat) (considerThreshold : Bool) (i : Nat) :
    Decidable (Eligible cfg s hart considerThreshold i) :=
  inferInstanceAs (Decidable (_ ∧ _))

/-- The lowest interrupt of the highest priority, or zero when there is none. -/
inductive Selected (s : Plic) (hart : Nat) (considerThreshold : Bool) : Nat → Prop where
  | none (h : ∀ i, ¬ Eligible cfg s hart considerThreshold i) :
      Selected s hart considerThreshold 0
  | some {m : Nat} (h : Eligible cfg s hart considerThreshold m)
      (highest : ∀ i, Eligible cfg s hart considerThreshold i → s.priority i ≤ s.priority m)
      (lowest : ∀ i, Eligible cfg s hart considerThreshold i →
        s.priority i = s.priority m → m ≤ i) :
      Selected s hart considerThreshold m

variable {cfg} {s : Plic} {hart : Nat} {considerThreshold : Bool}

variable {i : Nat}

theorem index_of_lt {size : Nat} (h : i < size) : index size i s = .ok () s := by
  rw [index, if_pos h]
  rfl

theorem hartEnabledAt_of_lt {entry : Nat}
    (h : hart * rowSize + entry < cfg.numberInterruptEntries * cfg.numberCores) :
    hartEnabledAt cfg hart entry s =
      .ok (s.hartEnabledInterrupts.word (hart * rowSize + entry)) s := by
  rw [hartEnabledAt, if_pos h]
  rfl

theorem pendingAt_of_lt {entry : Nat} (h : entry < cfg.numberInterruptEntries) :
    pendingAt cfg entry s = .ok (s.pendingInterrupts.word entry) s := by
  rw [pendingAt, bind_of_ok (index_of_lt h)]
  rfl

theorem priorityAt_of_lt (h : i < cfg.numberInterrupts + 1) :
    priorityAt cfg i s = .ok (s.priority i) s := by
  rw [priorityAt, bind_of_ok (index_of_lt h)]
  rfl

theorem thresholdAt_of_lt (h : hart < cfg.numberCores) :
    thresholdAt cfg hart s = .ok (s.threshold hart) s := by
  rw [thresholdAt, bind_of_ok (index_of_lt h)]
  rfl

/-- The rows of all harts are in the array of the enable bits. -/
theorem row_lt (hhart : hart < cfg.numberCores) (hi : i < cfg.numberInterrupts) :
    hart * rowSize + i / 32 < cfg.numberInterruptEntries * cfg.numberCores := by
  have hentry : i / 32 < cfg.numberInterruptEntries := by
    have := cfg.interrupts_le
    omega
  have hsum : hart + i / 32 + 1 ≤ cfg.numberCores + cfg.numberInterruptEntries - 1 := by omega
  have hproduct : cfg.numberCores + cfg.numberInterruptEntries - 1 ≤
      cfg.numberInterruptEntries * cfg.numberCores := by
    obtain ⟨c, hc⟩ := Nat.exists_eq_succ_of_ne_zero (Nat.pos_iff_ne_zero.mp cfg.cores_pos)
    obtain ⟨e, he⟩ := Nat.exists_eq_succ_of_ne_zero (Nat.pos_iff_ne_zero.mp cfg.entries_pos)
    rw [hc, he, Nat.succ_mul_succ]
    omega
  rw [Nat.mul_one]
  omega

theorem considerInterrupt_apply (hhart : hart < cfg.numberCores) (best : Nat × BitVec 32)
    (hpos : 0 < i) (hi : i < cfg.numberInterrupts) :
    considerInterrupt cfg hart considerThreshold best i s =
      .ok (Select.better (Eligible cfg s hart considerThreshold) s.priority best i) s := by
  have hentry : i / 32 < cfg.numberInterruptEntries := by
    have := cfg.interrupts_le
    omega
  have hlimit : limitAt cfg hart considerThreshold s = .ok (s.limit hart considerThreshold) s := by
    unfold limit limitAt
    split_ifs
    · exact thresholdAt_of_lt hhart
    · rfl
  rw [considerInterrupt, bind_of_ok (hartEnabledAt_of_lt (row_lt hhart hi))]
  split_ifs with henabled
  · rw [bind_of_ok (pendingAt_of_lt hentry)]
    split_ifs with hpending
    · rw [bind_of_ok (priorityAt_of_lt (by omega))]
      split_ifs with hprio
      · rw [bind_of_ok hlimit]
        split_ifs with habove
        · rw [Select.better, if_pos ⟨⟨hpos, hi, henabled, hpending, hprio, habove.1⟩, habove.2⟩]
          rfl
        · rw [Select.better, if_neg fun h => habove ⟨h.1.2.2.2.2.2, h.2⟩]
          rfl
      · rw [Select.better, if_neg fun h => hprio h.1.2.2.2.2.1]
        rfl
    · rw [Select.better, if_neg fun h => hpending h.1.2.2.2.1]
      rfl
  · rw [Select.better, if_neg fun h => henabled h.1.2.2.1]
    rfl

/-- `hart_get_next_pending_interrupt` for a hart of the device. -/
theorem hartGetNextPendingInterrupt_apply (s : Plic) (hhart : hart < cfg.numberCores)
    (considerThreshold : Bool) : ∃ m, Selected cfg s hart considerThreshold m ∧
      hartGetNextPendingInterrupt cfg hart considerThreshold s = .ok m s := by
  have hloop := foldlM_of_ok (f := considerInterrupt cfg hart considerThreshold)
    (l := List.range' 1 (cfg.numberInterrupts - 1)) (s := s) (fun best i hi => by
      rw [List.mem_range'_1] at hi
      exact considerInterrupt_apply hhart best (by omega) (by omega)) (0, 0#32)
  have hbest : Select.IsBest (Eligible cfg s hart considerThreshold) s.priority
      (cfg.numberInterrupts - 1) ((List.range' 1 (cfg.numberInterrupts - 1)).foldl
        (Select.better (Eligible cfg s hart considerThreshold) s.priority) (0, 0#32)) :=
    Select.isBest_foldl (fun _ h => ⟨h.1, h.2.2.2.2.1⟩) _
  have hle : ∀ i, Eligible cfg s hart considerThreshold i → i ≤ cfg.numberInterrupts - 1 :=
    fun _ h => Nat.le_sub_one_of_lt h.2.1
  refine ⟨_, ?_, bind_of_ok hloop⟩
  generalize List.foldl _ (0, 0#32) (List.range' 1 (cfg.numberInterrupts - 1)) = best at hbest ⊢
  cases hbest with
  | none hnone => exact .none fun i h => hnone i (hle i h) h
  | some _ heligible hhighest hlowest =>
    exact .some heligible (fun i h => hhighest i (hle i h) h) fun i h => hlowest i (hle i h) h

theorem Selected.pos_iff {m : Nat} (h : Selected cfg s hart considerThreshold m) :
    0 < m ↔ ∃ i, Eligible cfg s hart considerThreshold i := by
  cases h with
  | none hnone => exact iff_of_false (Nat.lt_irrefl 0) fun ⟨i, hi⟩ => hnone i hi
  | some heligible _ _ => exact iff_of_true heligible.1 ⟨_, heligible⟩

/-- An interrupt can be delivered to a hart. -/
def Deliverable (cfg : PlicConfig) (s : Plic) (hart : Nat) : Prop := ∃ i, Eligible cfg s hart true i

theorem hartHasPendingEnabledInterrupts_apply (s : Plic) (hhart : hart < cfg.numberCores) :
    ∃ found, (found = true ↔ Deliverable cfg s hart) ∧
      hartHasPendingEnabledInterrupts cfg hart s = .ok found s := by
  obtain ⟨m, hselected, hrun⟩ := hartGetNextPendingInterrupt_apply s hhart true
  exact ⟨decide (m > 0), decide_eq_true_iff.trans hselected.pos_iff, bind_of_ok hrun⟩

end

end Plic

end SpsVp.Platform
