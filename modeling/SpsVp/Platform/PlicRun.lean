import SpsVp.Platform.PlicPriority

/-!
# Runs of the interrupt controller

A run is any sequence of triggers of the gateways, accesses to the registers and wake-ups of the
thread `run`. Pending bits are set by triggers and cleared by claims only, so a claim returns an
interrupt that was triggered since its last claim (`claims_once`). The external interrupt, in
contrast, is recomputed by `run` and by completions only: `noLoss_of_careful` says which accesses
may come in between. -/

namespace SpsVp.Platform

open Lib Effect RegisterMemory

namespace Plic

variable {cfg : PlicConfig} {s t : Plic}

/-! ## Events -/

inductive Event where
  | trigger (irqId : Nat)
  | access (access : Access)
  | wake

/-- What an event does, and what a read returns. -/
def handle (cfg : PlicConfig) : Event → PlicM (Option (List (BitVec 8)))
  | .trigger irqId => do
      gatewayTriggerInterrupt cfg irqId
      return none
  | .access access => transport cfg access
  | .wake => do
      if (← get).eRun then run cfg
      return none

/-- Events with what they return. -/
abbrev History := List (Event × Option (List (BitVec 8)))

/-- The runs from the initial state whose steps have the property `P`. -/
inductive Runs (cfg : PlicConfig) (P : Plic → Event → Prop) : History → Plic → Prop where
  | init : Runs cfg P [] (init cfg)
  | step {history : History} {s t : Plic} {e : Event} {out : Option (List (BitVec 8))}
      (h : Runs cfg P history s) (hP : P s e) (hstep : handle cfg e s = .ok out t) :
      Runs cfg P (history ++ [(e, out)]) t

/-! ## Accesses -/

/-- The claim register of the first hart. -/
abbrev claimAddress : BitVec 64 := 0x200004#64

def IsClaim (access : Access) : Prop := access.command = .read ∧ access.address = claimAddress

def IsCompletion (access : Access) : Prop := access.command = .write ∧ access.address = claimAddress

instance (access : Access) : Decidable (IsClaim access) := inferInstanceAs (Decidable (_ ∧ _))

instance (access : Access) : Decidable (IsCompletion access) := inferInstanceAs (Decidable (_ ∧ _))

/-- A word of the registers from `start` to `stop`, with the bytes of a write in place. -/
def writtenWord (mem : RegisterMemory) (start stop : Nat) (access : Access) (i : Nat) : BitVec 32 :=
  if start ≤ access.address.toNat ∧ access.address.toNat < stop then
    (mem.copy (access.address.toNat - start) (access.data.take access.length)).word i
  else mem.word i

/-- The priority that a write leaves an interrupt with. All of them are bounded by a write to
one. -/
def priorityAfter (cfg : PlicConfig) (s : Plic) (access : Access) (i : Nat) : BitVec 32 :=
  if access.address.toNat < 0x1000 then
    atMost cfg.maxPriority (writtenWord s.interruptPriorities 0 0x1000 access i)
  else s.priority i

/-- The registers before a write and the bytes that are written give a pending interrupt its enable
bit and a priority above the threshold. -/
def MakesDeliverable (cfg : PlicConfig) (s : Plic) (access : Access) : Prop :=
  ∃ i, 0 < i ∧ i < cfg.numberInterrupts ∧ s.isPending i = true ∧
    (writtenWord s.hartEnabledInterrupts 0x2000 0x200000 access (i / 32)).getLsbD (i % 32) = true ∧
    0#32 < priorityAfter cfg s access i ∧
    writtenWord s.hartConfig 0x200000 0x4000000 access 0 < priorityAfter cfg s access i

/-- What a write of other registers leaves alone, and the words that it leaves. -/
structure Frame (cfg : PlicConfig) (access : Access) (s t : Plic) : Prop where
  pending : t.pendingInterrupts = s.pendingInterrupts
  eip : t.hartEip = s.hartEip
  line : t.line = s.line
  eRun : t.eRun = s.eRun
  enabled : ∀ i, t.hartEnabledInterrupts.word i =
    writtenWord s.hartEnabledInterrupts 0x2000 0x200000 access i
  priority : ∀ i < cfg.numberInterrupts, t.priority i = priorityAfter cfg s access i
  threshold : t.threshold 0 = writtenWord s.hartConfig 0x200000 0x4000000 access 0

/-- What can be delivered after a write is made deliverable by it. -/
theorem Frame.makes {access : Access} (h : Frame cfg access s t) (hd : Deliverable cfg t 0) :
    MakesDeliverable cfg s access := by
  obtain ⟨i, hpos, hlt, henabled, hpending, hprio, habove⟩ := hd
  rw [isEnabled, Nat.zero_mul, Nat.zero_add, h.enabled] at henabled
  rw [isPending, h.pending] at hpending
  rw [h.priority i hlt] at hprio
  change t.threshold 0 < t.priority i at habove
  rw [h.priority i hlt, h.threshold] at habove
  exact ⟨i, hpos, hlt, hpending, henabled, hprio, habove⟩

/-- How a device with one hart serves an access. -/
inductive Serves (cfg : PlicConfig) (s : Plic) (access : Access) :
    Option (List (BitVec 8)) → Plic → Prop where
  | claim {m : Nat} (h : IsClaim access) (hselected : Selected cfg s 0 false m) :
      Serves cfg s access (some (bytesOf (BitVec.ofNat 32 m))) (s.claimed 0 m)
  | completion {mem : RegisterMemory} {t : Plic} (h : IsCompletion access)
      (hmem : mem.word 0 = s.hartConfig.word 0)
      (hcompletes : Completes cfg { s with hartConfig := mem } 0 (.ok () t)) :
      Serves cfg s access none t
  | read {out : Option (List (BitVec 8))} (h : access.command = .read) (hclaim : ¬ IsClaim access) :
      Serves cfg s access out s
  | write {t : Plic} (h : access.command = .write) (hcompletion : ¬ IsCompletion access)
      (hframe : Frame cfg access s t) : Serves cfg s access none t

/-- Where the assertion on `hart_eip` fails. -/
def FailsEip (cfg : PlicConfig) (s : Plic) (access : Access) (e : DeviceError PlicAssertion) :
    Prop :=
  e = .assertion .hartEip → IsCompletion access ∧ Deliverable cfg s 0 ∧ s.hartEip 0 = false

section

variable {access : Access}

theorem address_ne_of_lt (h : access.address.toNat < 0x200000) : access.address ≠ claimAddress := by
  intro heq
  rw [heq] at h
  exact absurd h (by decide)

/-- A range whose callbacks do nothing. -/
theorem triple_plain {r : MappedRange PlicAssertion Plic}
    (hlast : r.range.start + r.range.size ≤ 0x200000)
    (hread : r.preRead = fun _ _ => pure true)
    (hwrite : r.range.readonly = false → r.Admits access →
      Triple (· = r.setMem ((r.mem s).copy (r.range.toLocal access.address.toNat)
          (access.data.take access.length)) s)
        (r.postWrite (r.range.toLocal access.address.toNat) access.length)
        (fun _ => Frame cfg access s) (fun _ _ => False)) :
    Triple (· = s) (r.process access) (Serves cfg s access)
      (fun e _ => FailsEip cfg s access e) := by
  have haddress : r.Admits access → access.address ≠ claimAddress := by
    intro hadmits
    have hcontains := RegisterRange.contains_iff.mp hadmits.contains
    have hsize := hadmits.size
    have hlt : access.address.toNat < 0x200000 := by
      by_cases hempty : r.range.start + r.range.size = 0
      · rw [hempty] at hcontains
        omega
      · omega
    exact address_ne_of_lt hlt
  refine MappedRange.triple_process (fun e _ he h => absurd h (he _)) (fun hadmits hcommand => ?_)
    fun hadmits hcommand hreadonly s' hs' => ?_
  · rw [hread]
    exact .pure fun t ht => ht ▸ .read hcommand fun h => haddress hadmits h.2
  · subst hs'
    exact (hwrite hreadonly hadmits).conseq (fun _ h => h) (fun _ t h => .write hcommand
      (fun h' => haddress hadmits h'.2) h) nofun

variable {mem : RegisterMemory}

/-- The registers outside the range that is written. -/
theorem writtenWord_of_outside {start stop : Nat} (i : Nat)
    (h : access.address.toNat < start ∨ stop ≤ access.address.toNat) :
    writtenWord mem start stop access i = mem.word i :=
  if_neg (by omega)

/-- The registers in the range that is written. -/
theorem writtenWord_of_inside {start stop : Nat} (i : Nat)
    (h : start ≤ access.address.toNat ∧ access.address.toNat < stop) :
    writtenWord mem start stop access i =
      (mem.copy (access.address.toNat - start) (access.data.take access.length)).word i :=
  if_pos h

theorem triple_regsInterruptPriorities : Triple (· = s)
    ((regsInterruptPriorities cfg).process access) (Serves cfg s access)
    (fun e _ => FailsEip cfg s access e) := by
  have hle := cfg.priorities_le
  refine triple_plain ?_ rfl fun _ hadmits => ?_
  · change 0 + 4 * (cfg.numberInterrupts + 1) ≤ 0x200000
    omega
  have hcontains := RegisterRange.contains_iff.mp hadmits.contains
  change 0 ≤ access.address.toNat ∧
    access.address.toNat ≤ 0 + 4 * (cfg.numberInterrupts + 1) - 1 at hcontains
  have haddress : access.address.toNat < 0x1000 := by omega
  intro s' hs'
  have hpost : (regsInterruptPriorities cfg).postWrite = postWriteInterruptPriorities cfg := rfl
  rw [hs', hpost, postWriteInterruptPriorities_apply]
  refine ⟨rfl, rfl, rfl, rfl, fun i => ?_, fun i hi => ?_, ?_⟩
  · exact (writtenWord_of_outside i (.inl (by omega))).symm
  · rw [priorityAfter, if_pos haddress, writtenWord_of_inside i ⟨Nat.zero_le _, haddress⟩]
    exact (word_boundWords _ _ i).trans (if_pos hi)
  · exact (writtenWord_of_outside 0 (.inl (by omega))).symm

theorem triple_regsPendingInterrupts : Triple (· = s)
    ((regsPendingInterrupts cfg).process access) (Serves cfg s access)
    (fun e _ => FailsEip cfg s access e) := by
  refine triple_plain ?_ rfl nofun
  have := cfg.pending_le
  change 0x1000 + 4 * cfg.numberInterruptEntries ≤ 0x200000
  omega

/-- A write of enable bits. -/
theorem frame_enabled
    (haddress : 0x2000 ≤ access.address.toNat ∧ access.address.toNat < 0x200000)
    (hmem : mem = s.hartEnabledInterrupts.copy (access.address.toNat - 0x2000)
      (access.data.take access.length)) :
    Frame cfg access s { s with hartEnabledInterrupts := mem } where
  pending := rfl
  eip := rfl
  line := rfl
  eRun := rfl
  enabled i := by rw [hmem, writtenWord_of_inside i haddress]
  priority i _ := by
    rw [priorityAfter, if_neg (by omega)]
    rfl
  threshold := by
    rw [writtenWord_of_outside 0 (.inl haddress.2)]
    rfl

theorem triple_regsHartEnabledInterrupts : Triple (· = s)
    ((regsHartEnabledInterrupts cfg).process access) (Serves cfg s access)
    (fun e _ => FailsEip cfg s access e) := by
  have hle := cfg.enabled_le
  refine triple_plain ?_ rfl fun _ hadmits => .pure fun t ht => ?_
  · change 0x2000 + 4 * cfg.numberInterruptEntries * cfg.numberCores ≤ 0x200000
    omega
  have hcontains := RegisterRange.contains_iff.mp hadmits.contains
  change 0x2000 ≤ access.address.toNat ∧ access.address.toNat ≤
    0x2000 + 4 * cfg.numberInterruptEntries * cfg.numberCores - 1 at hcontains
  rw [ht]
  exact frame_enabled (by omega) rfl

/-- The accesses to the registers of the only hart. -/
theorem hartConfig_cases (hcores : cfg.numberCores = 1)
    (hadmits : (regsHartConfig cfg).Admits access) :
    ((regsHartConfig cfg).range.toLocal access.address.toNat = 0 ∧ access.address ≠ claimAddress) ∨
      ((regsHartConfig cfg).range.toLocal access.address.toNat = 4 ∧ access.address = claimAddress ∧
        (access.length = 0 ∨ access.length = 4)) := by
  have haddress : access.address.toNat % 4 = 0 := hadmits.address
  have hlength : access.length % 4 = 0 := hadmits.length
  have hcontains := RegisterRange.contains_iff.mp hadmits.contains
  change 0x200000 ≤ access.address.toNat ∧ access.address.toNat ≤ 0x200000 + 8 * cfg.numberCores - 1
    at hcontains
  have hsize : access.address.toNat - 0x200000 + access.length ≤ 8 * cfg.numberCores := hadmits.size
  change (access.address.toNat - 0x200000 = 0 ∧ _) ∨ (access.address.toNat - 0x200000 = 4 ∧ _)
  by_cases hclaim : access.address = claimAddress
  · have htoNat : access.address.toNat = 0x200004 := by
      rw [hclaim]
      decide
    exact .inr ⟨by omega, hclaim, by omega⟩
  · have hne : access.address.toNat ≠ 0x200004 :=
      fun h => hclaim (BitVec.eq_of_toNat_eq (h.trans (by decide)))
    exact .inl ⟨by omega, hclaim⟩

theorem triple_claim (hclaim : IsClaim access) (hlength : access.length = 0 ∨ access.length = 4) :
    Triple (· = s) (preReadHartConfig cfg 4 access.length)
      (fun b t =>
        Serves cfg s access (if b then some (t.hartConfig.bytes 4 access.length) else none) t)
      (fun e _ => FailsEip cfg s access e) := by
  intro s' hs
  rw [hs]
  obtain hlength | hlength := hlength
  · have hpre : preReadHartConfig cfg 4 0 s = .error (.assertion .claimSize) s := rfl
    rw [hlength, hpre]
    exact nofun
  · obtain ⟨m, hselected, hrun⟩ := claim_apply s 0
    have hpre : preReadHartConfig cfg 4 4 s = (claim cfg 0 4 >>= fun _ => pure true) s :=
      preReadHartConfig_claim s 0 4
    rw [if_pos cfg.cores_pos] at hrun
    rw [bind_of_ok hrun] at hpre
    have hbytes : (s.claimed 0 m).hartConfig.bytes 4 4 =
        bytesOf (BitVec.ofNat 32 m) :=
      (bytes_word _ 1).trans
        (congrArg _ (word_setWord_self _ _ _))
    rw [hlength, hpre]
    change Serves cfg s access (some ((s.claimed 0 m).hartConfig.bytes 4 4)) (s.claimed 0 m)
    rw [hbytes]
    exact .claim hclaim hselected

theorem triple_completion (hcompletion : IsCompletion access)
    (hlength : access.length = 0 ∨ access.length = 4) (hmem : mem.word 0 = s.hartConfig.word 0) :
    Triple (· = { s with hartConfig := mem }) (postWriteHartConfig cfg 4 access.length)
      (fun _ => Serves cfg s access none) (fun e _ => FailsEip cfg s access e) := by
  intro s' hs
  rw [hs]
  obtain hlength | hlength := hlength
  · have hpost : postWriteHartConfig cfg 4 0 { s with hartConfig := mem } =
      .error (.assertion .claimSize) { s with hartConfig := mem } := rfl
    rw [hlength, hpost]
    exact nofun
  · have hpost : postWriteHartConfig cfg 4 4 { s with hartConfig := mem } =
        complete cfg 0 4 { s with hartConfig := mem } := postWriteHartConfig_claim _ 0 4
    have hsame : Deliverable cfg { s with hartConfig := mem } 0 ↔ Deliverable cfg s 0 :=
      deliverable_hartConfig hmem
    have hcompletes : Completes cfg { s with hartConfig := mem } 0 _ :=
      completes_complete _ cfg.cores_pos
    rw [hlength, hpost]
    generalize complete cfg 0 4 { s with hartConfig := mem } = r at hcompletes
    cases r with
    | ok _ t => exact .completion hcompletion hmem hcompletes
    | error e t =>
      cases hcompletes with
      | fails hd heip => exact fun _ => ⟨hcompletion, hsame.mp hd, heip⟩

theorem triple_regsHartConfig (hcores : cfg.numberCores = 1) : Triple (· = s)
    ((regsHartConfig cfg).process access) (Serves cfg s access)
    (fun e _ => FailsEip cfg s access e) := by
  refine MappedRange.triple_process (fun e _ he h => absurd h (he _)) (fun hadmits hcommand => ?_)
    fun hadmits hcommand _ s' hs' => ?_
  · obtain ⟨hlocal, hne⟩ | ⟨hlocal, haddress, hlength⟩ := hartConfig_cases hcores hadmits
    · rw [hlocal]
      exact .pure fun t ht => ht ▸ .read hcommand fun h => hne h.2
    · rw [hlocal]
      exact triple_claim ⟨hcommand, haddress⟩ hlength
  · subst hs'
    obtain ⟨hlocal, hne⟩ | ⟨hlocal, haddress, hlength⟩ := hartConfig_cases hcores hadmits
    · have hle := cfg.cores_le
      have hcontains := RegisterRange.contains_iff.mp hadmits.contains
      change 0x200000 ≤ access.address.toNat ∧
        access.address.toNat ≤ 0x200000 + 8 * cfg.numberCores - 1 at hcontains
      have haddress : 0x200000 ≤ access.address.toNat ∧ access.address.toNat < 0x4000000 := by omega
      have hoffset : access.address.toNat - 0x200000 = 0 := hlocal
      rw [hlocal]
      refine .pure fun t ht => ht ▸ .write hcommand (fun h => hne h.2)
        ⟨rfl, rfl, rfl, rfl, fun i => ?_, fun i _ => ?_, ?_⟩
      · exact (writtenWord_of_outside i (.inr haddress.1)).symm
      · exact (if_neg (by omega)).symm
      · rw [writtenWord_of_inside 0 haddress, hoffset]
        rfl
    · rw [hlocal]
      exact triple_completion ⟨hcommand, haddress⟩ hlength
        (word_copy_of_outside (.inl (by decide)))

/-- An access to a device with one hart. -/
theorem triple_transport (hcores : cfg.numberCores = 1) (s : Plic) (access : Access) :
    Triple (· = s) (transport cfg access) (Serves cfg s access)
      (fun e _ => FailsEip cfg s access e) := by
  refine MappedRange.triple_route (fun e _ he h => absurd h (he _)) fun r hr => ?_
  simp only [List.mem_cons, List.not_mem_nil, or_false] at hr
  obtain rfl | rfl | rfl | rfl := hr
  · exact triple_regsInterruptPriorities
  · exact triple_regsPendingInterrupts
  · exact triple_regsHartEnabledInterrupts
  · exact triple_regsHartConfig hcores

end

/-! ## Triggers and wake-ups -/

/-- The state after a trigger. -/
def triggered (s : Plic) (irqId : Nat) : Plic :=
  { s with
    pendingInterrupts := s.pendingInterrupts.setWord (irqId / 32)
      (s.pendingInterrupts.word (irqId / 32) ||| BitVec.twoPow 32 (irqId % 32))
    eRun := true }

theorem isPending_triggered (s : Plic) (irqId i : Nat) :
    (s.triggered irqId).isPending i = (s.isPending i || decide (i = irqId)) := by
  rw [isPending, triggered]
  dsimp only
  rw [word_setWord]
  split_ifs with hentry
  · rw [BitVec.getLsbD_or, BitVec.getLsbD_twoPow, isPending, hentry]
    by_cases hbit : irqId % 32 = i % 32
    · have hsame : i = irqId := by omega
      simp [hsame, Nat.mod_lt]
    · have hne : i ≠ irqId := fun h => hbit (by rw [h])
      simp [hbit, hne]
  · have hne : i ≠ irqId := fun h => hentry (by rw [h])
    simp [isPending, hne]

theorem triple_trigger (s : Plic) (irqId : Nat) :
    Triple (· = s) (gatewayTriggerInterrupt cfg irqId)
      (fun _ t => 0 < irqId ∧ irqId < cfg.numberInterrupts ∧ t = s.triggered irqId)
      (fun e _ => e = .assertion .interruptId) := by
  intro s' hs
  rw [hs]
  by_cases hirq : 0 < irqId ∧ irqId < cfg.numberInterrupts
  · have hentry : irqId / 32 < cfg.numberInterruptEntries := by
      have := cfg.interrupts_le
      omega
    have hrun : gatewayTriggerInterrupt cfg irqId s = .ok () (s.triggered irqId) := by
      rw [gatewayTriggerInterrupt, if_neg (not_not.mpr hirq)]
      change (pendingAt cfg (irqId / 32) >>= _) s = _
      rw [bind_of_ok (pendingAt_of_lt hentry)]
      rfl
    rw [hrun]
    exact ⟨hirq.1, hirq.2, rfl⟩
  · have hrun : gatewayTriggerInterrupt cfg irqId s = .error (.assertion .interruptId) s := by
      rw [gatewayTriggerInterrupt, if_pos hirq]
      rfl
    rw [hrun]

/-- What the thread `run` does for a hart when it is woken up. -/
inductive Wakes (cfg : PlicConfig) (s : Plic) (hart : Nat) : Plic → Prop where
  | raises (heip : s.hartEip hart = false) (h : Deliverable cfg s hart) :
      Wakes cfg s hart { s with
        hartEip := Function.update s.hartEip hart true
        line := Function.update s.line hart true }
  | raised (heip : s.hartEip hart = true) : Wakes cfg s hart s
  | nothing (h : ¬ Deliverable cfg s hart) : Wakes cfg s hart s

theorem wakes_runHart (s : Plic) {hart : Nat} (hhart : hart < cfg.numberCores) :
    ∃ t, Wakes cfg s hart t ∧ runHart cfg hart s = .ok () t := by
  obtain ⟨found, hfound, hrun⟩ := hartHasPendingEnabledInterrupts_apply s hhart
  cases heip : s.hartEip hart with
  | true =>
    refine ⟨s, .raised heip, ?_⟩
    change (if !s.hartEip hart then _ else pure () : PlicM Unit) s = _
    rw [heip]
    rfl
  | false =>
    have hbranch : runHart cfg hart s = (do
        if ← hartHasPendingEnabledInterrupts cfg hart then
          setHartEip cfg hart true
          triggerExternalInterrupt hart) s := by
      change (if !s.hartEip hart then _ else pure () : PlicM Unit) s = _
      rw [heip]
      rfl
    rw [hbranch, bind_of_ok hrun]
    cases found with
    | true =>
      refine ⟨_, .raises heip (hfound.mp rfl), ?_⟩
      change (setHartEip cfg hart true >>= _) s = _
      rw [bind_of_ok (setHartEip_of_lt s hhart true)]
      rfl
    | false => exact ⟨s, .nothing fun h => Bool.false_ne_true (hfound.mpr h), rfl⟩

theorem run_apply (hcores : cfg.numberCores = 1) (s : Plic) :
    ∃ t, Wakes cfg { s with eRun := false } 0 t ∧ run cfg s = .ok () t := by
  obtain ⟨t, hwakes, hrun⟩ := wakes_runHart { s with eRun := false } cfg.cores_pos
  refine ⟨t, hwakes, ?_⟩
  have hloop :
      (List.range cfg.numberCores).forM (runHart cfg) { s with eRun := false } = .ok () t := by
    rw [hcores]
    exact bind_of_ok hrun
  exact hloop

/-! ## Steps -/

/-- How an event changes a device with one hart. -/
inductive Steps (cfg : PlicConfig) (s : Plic) : Event → Option (List (BitVec 8)) → Plic → Prop where
  | trigger {irqId : Nat} (hpos : 0 < irqId) (hlt : irqId < cfg.numberInterrupts) :
      Steps cfg s (.trigger irqId) none (s.triggered irqId)
  | access {access : Access} {out : Option (List (BitVec 8))} {t : Plic}
      (h : Serves cfg s access out t) : Steps cfg s (.access access) out t
  | wake {t : Plic} (hnotified : s.eRun = true) (h : Wakes cfg { s with eRun := false } 0 t) :
      Steps cfg s .wake none t
  | idle (hnotified : s.eRun = false) : Steps cfg s .wake none s

theorem triple_handle (hcores : cfg.numberCores = 1) (s : Plic) (e : Event) :
    Triple (· = s) (handle cfg e) (Steps cfg s e)
      (fun error _ => error = .assertion .hartEip → ∃ access, e = .access access ∧
        IsCompletion access ∧ Deliverable cfg s 0 ∧ s.hartEip 0 = false) := by
  cases e with
  | trigger irqId =>
    refine .bind ((triple_trigger s irqId).exc ?_) fun _ =>
      .pure ?_
    · rintro _ _ rfl
      exact nofun
    · rintro _ ⟨hpos, hlt, rfl⟩
      exact .trigger hpos hlt
  | access access =>
    exact (triple_transport hcores s access).conseq (fun _ h => h) (fun _ _ h => .access h)
      fun _ _ h he => ⟨access, rfl, h he⟩
  | wake =>
    refine .getBind fun s' hs => ?_
    subst hs
    cases hnotified : s'.eRun with
    | true =>
      obtain ⟨t, hwakes, hrun⟩ := run_apply hcores s'
      have hrun' : Triple (· = s') (run cfg) (fun _ => (· = t)) (fun _ _ => False) := by
        intro s'' hs
        rw [hs, hrun]
      exact .bind (hrun'.exc nofun) fun _ =>
        .pure fun _ h => h ▸ .wake hnotified hwakes
    | false =>
      refine .pure fun t ht => ?_
      rw [ht]
      exact .idle hnotified

/-! ## Claims -/

/-- The word of the bytes that were read. -/
def wordOf (bytes : List (BitVec 8)) : BitVec 32 :=
  ByteMemory.littleEndian (fun k => bytes.getD k 0#8) 4

theorem wordOf_bytesOf (w : BitVec 32) : wordOf (bytesOf w) = w := by
  have hbytes : ∀ k < 4, (bytesOf w).getD k 0#8 = w.extractLsb' (8 * k) 8 := by
    intro k hk
    rw [List.getD_eq_getElem?_getD, bytesOf, List.getElem?_ofFn, dif_pos hk,
      Option.getD_some]
  exact (ByteMemory.littleEndian_congr hbytes).trans (ByteMemory.littleEndian_extract (n := 4) w)

/-- The interrupt that a claim has returned. -/
def claimOf : Event × Option (List (BitVec 8)) → Option Nat
  | (.access access, some bytes) => if IsClaim access then some (wordOf bytes).toNat else none
  | _ => none

/-- The interrupt that was triggered. -/
def triggerOf : Event × Option (List (BitVec 8)) → Option Nat
  | (.trigger irqId, _) => some irqId
  | _ => none

/-- An interrupt was triggered since its last claim. -/
def TriggeredSince (i : Nat) (history : History) : Prop :=
  ∃ before x after, history = before ++ x :: after ∧ triggerOf x = some i ∧
    ∀ y ∈ after, claimOf y ≠ some i

/-- A claim returns an interrupt that was triggered since its last claim, so that there are no more
claims of an interrupt than triggers. -/
structure ClaimsOnce (history : History) : Prop where
  triggered : ∀ before x after i, history = before ++ x :: after → claimOf x = some i → i ≠ 0 →
    TriggeredSince i before
  once : ∀ i, i ≠ 0 → (history.filterMap claimOf).count i ≤ (history.filterMap triggerOf).count i

/-- What an event is to the pending bits. -/
inductive Marks (s t : Plic) (x : Event × Option (List (BitVec 8))) : Prop where
  | neither (hclaim : claimOf x = none) (htrigger : triggerOf x = none)
      (h : ∀ i, t.isPending i = s.isPending i)
  | trigger {irqId : Nat} (hclaim : claimOf x = none) (htrigger : triggerOf x = some irqId)
      (h : ∀ i, t.isPending i = (s.isPending i || decide (i = irqId)))
  | claim {m : Nat} (hclaim : claimOf x = some m) (htrigger : triggerOf x = none)
      (hpending : m ≠ 0 → s.isPending m = true)
      (h : ∀ i, t.isPending i = (s.isPending i && decide (i ≠ m)))

variable {out : Option (List (BitVec 8))} {history : History}
  {x : Event × Option (List (BitVec 8))}

theorem marks_of_serves {access : Access}
    (h : Serves cfg s access out t) : Marks s t (.access access, out) := by
  cases h with
  | claim hclaim hselected =>
    rename_i m
    have hm : claimOf (.access access, some (bytesOf (BitVec.ofNat 32 m))) =
        some m := by
      have hlt := hselected.lt
      have hle := cfg.priorities_le
      rw [claimOf, if_pos hclaim, wordOf_bytesOf, BitVec.toNat_ofNat, Nat.mod_eq_of_lt (by omega)]
    refine .claim hm rfl (fun hne => ?_) (isPending_claimed s 0 m)
    cases hselected with
    | none _ => exact absurd rfl hne
    | some heligible _ _ => exact heligible.2.2.2.1
  | completion hcompletion hmem hcompletes =>
    refine .neither rfl rfl fun i => ?_
    cases hcompletes with
    | retrigger | clears => rfl
  | read hcommand hclaim =>
    refine .neither ?_ rfl fun i => rfl
    cases out with
    | none => rfl
    | some bytes => exact if_neg hclaim
  | write hcommand hcompletion hframe =>
    exact .neither rfl rfl fun i => by rw [isPending, hframe.pending, isPending]

theorem marks_of_steps {e : Event} (h : Steps cfg s e out t) :
    Marks s t (e, out) := by
  cases h with
  | trigger hpos hlt => exact .trigger rfl rfl (isPending_triggered s _)
  | access h => exact marks_of_serves h
  | wake hnotified h =>
    refine .neither rfl rfl fun i => ?_
    cases h with
    | _ => rfl
  | idle hnotified => exact .neither rfl rfl fun i => rfl

theorem TriggeredSince.append {i : Nat}
    (h : TriggeredSince i history) (hx : claimOf x ≠ some i) :
    TriggeredSince i (history ++ [x]) := by
  obtain ⟨before, y, after, rfl, hy, hafter⟩ := h
  refine ⟨before, y, after ++ [x], by simp, hy, fun z hz => ?_⟩
  obtain hz | hz := List.mem_append.mp hz
  · exact hafter z hz
  · rwa [List.mem_singleton.mp hz]

/-- A pending interrupt was triggered since its last claim, and that trigger is one more than the
claims. -/
structure Accounts (history : History) (s : Plic) : Prop where
  since : ∀ i, s.isPending i = true → TriggeredSince i history
  count : ∀ i, i ≠ 0 → (history.filterMap claimOf).count i + (if s.isPending i then 1 else 0) ≤
    (history.filterMap triggerOf).count i

theorem Accounts.step
    (h : Accounts history s) (hmarks : Marks s t x) : Accounts (history ++ [x]) t := by
  cases hmarks with
  | neither hclaim htrigger hpending =>
    refine ⟨fun i hi => ?_, fun i hi => ?_⟩
    · rw [hpending] at hi
      exact (h.since i hi).append (by rw [hclaim]; exact nofun)
    · simpa [List.filterMap_append, hclaim, htrigger, hpending] using h.count i hi
  | trigger hclaim htrigger hpending =>
    rename_i irqId
    refine ⟨fun i hi => ?_, fun i hi => ?_⟩
    · by_cases hsame : i = irqId
      · subst hsame
        exact ⟨history, x, [], rfl, htrigger, nofun⟩
      · rw [hpending, decide_eq_false hsame, Bool.or_false] at hi
        exact (h.since i hi).append (by rw [hclaim]; exact nofun)
    · have hcount := h.count i hi
      by_cases hsame : i = irqId
      · subst hsame
        simp only [List.filterMap_append, List.filterMap_cons, hclaim, htrigger, List.filterMap_nil,
          List.append_nil, List.count_append, List.count_singleton_self]
        split_ifs at hcount ⊢ <;> omega
      · simpa [List.filterMap_append, hclaim, htrigger, hpending, hsame, Ne.symm hsame] using hcount
  | claim hclaim htrigger hm hpending =>
    rename_i m
    refine ⟨fun i hi => ?_, fun i hi => ?_⟩
    · rw [hpending, Bool.and_eq_true, decide_eq_true_iff] at hi
      refine (h.since i hi.1).append ?_
      rw [hclaim]
      exact fun heq => hi.2 (Option.some.inj heq).symm
    · have hcount := h.count i hi
      by_cases hsame : i = m
      · subst hsame
        rw [hm hi, if_pos rfl] at hcount
        simpa [List.filterMap_append, hclaim, htrigger, hpending] using hcount
      · simpa [List.filterMap_append, hclaim, htrigger, hpending, hsame, Ne.symm hsame] using hcount

section

variable {P : Plic → Event → Prop} {history : History} (hcores : cfg.numberCores = 1)
include hcores

omit hcores in
theorem isPending_init (cfg : PlicConfig) (i : Nat) : (init cfg).isPending i = false := by
  change (word (fun _ => 0#8) _).getLsbD _ = false
  rw [word_blank, BitVec.getLsbD_zero]

theorem steps_of_handle {e : Event} {out : Option (List (BitVec 8))}
    (h : handle cfg e s = .ok out t) : Steps cfg s e out t :=
  (triple_handle hcores s e).of_ok rfl h

theorem accounts_of_runs (h : Runs cfg P history s) : Accounts history s := by
  induction h with
  | init =>
    refine ⟨fun i hi => absurd ((isPending_init cfg i).symm.trans hi) Bool.false_ne_true,
      fun i _ => ?_⟩
    rw [isPending_init]
    exact le_rfl
  | step h hP hstep ih => exact ih.step (marks_of_steps (steps_of_handle hcores hstep))

theorem claimsOnce_of_runs (h : Runs cfg P history s) : ClaimsOnce history := by
  refine ⟨?_, fun i hi => (Nat.le_add_right _ _).trans ((accounts_of_runs hcores h).count i hi)⟩
  induction h with
  | init =>
    intro before x after i hsplit
    cases List.append_eq_nil_iff.mp hsplit.symm |>.2
  | step h hP hstep ih =>
    intro before x after i hsplit hclaim hne
    obtain rfl | ⟨after, y, rfl⟩ := List.eq_nil_or_concat after
    · -- the last event is the claim
      obtain ⟨rfl, hx⟩ := List.append_inj' hsplit rfl
      cases List.singleton_inj.mp hx
      have hmarks := marks_of_steps (steps_of_handle hcores hstep)
      cases hmarks with
      | neither hnone _ _ | trigger hnone _ _ => cases hnone.symm.trans hclaim
      | claim hsome _ hpending _ =>
        cases hsome.symm.trans hclaim
        exact (accounts_of_runs hcores h).since i (hpending hne)
    · rw [List.concat_eq_append, ← List.cons_append, ← List.append_assoc] at hsplit
      obtain ⟨hbefore, _⟩ := List.append_inj' hsplit rfl
      exact ih before x after i hbefore hclaim hne

end

/-- A claim returns the lowest interrupt of the highest priority among those that are pending and
enabled, and clears its pending bit. -/
def ClaimsHighest (cfg : PlicConfig) (s : Plic) : Prop :=
  ∃ m t, Selected cfg s 0 false m ∧
    transport cfg (claimRead 0) s = .ok (some (bytesOf (BitVec.ofNat 32 m))) t ∧
    ∀ i, t.isPending i = (s.isPending i && decide (i ≠ m))

theorem claimsHighest (s : Plic) : ClaimsHighest cfg s := by
  obtain ⟨m, hselected, htransport⟩ := transport_claimRead s cfg.cores_pos
  have hresponse : (s.claimed 0 m).claimResponse 0 = BitVec.ofNat 32 m :=
    word_setWord_self _ _ _
  rw [Nat.mul_zero, if_pos cfg.cores_pos, hresponse] at htransport
  exact ⟨m, _, hselected, htransport, isPending_claimed s 0 m⟩

/-- The claims of a device with one hart. -/
theorem claims_once (hcores : cfg.numberCores = 1) : (∀ s, ClaimsHighest cfg s) ∧
    ∀ history s, Runs cfg (fun _ _ => True) history s → ClaimsOnce history :=
  ⟨claimsHighest, fun _ _ h => claimsOnce_of_runs hcores h⟩

/-- The interrupt 3 is enabled. -/
def enabledEarly : Plic :=
  { init hifiveConfig with
    hartEnabledInterrupts := (init hifiveConfig).hartEnabledInterrupts.setWord 0 8#32 }

/-- The write that enables it. -/
abbrev enableThree : Event := .access (enableWrite hifiveConfig 0 0 8#32)

/-- The interrupt 3 is enabled and then triggered. -/
theorem runs_enabledEarly {P : Plic → Event → Prop} (hwrite : P (init hifiveConfig) enableThree)
    (htrigger : P enabledEarly (.trigger 3)) :
    Runs hifiveConfig P [(enableThree, none), (.trigger 3, none)] (enabledEarly.triggered 3) := by
  have henable : handle hifiveConfig enableThree (init hifiveConfig) = .ok none enabledEarly :=
    transport_enableWrite _ hifiveConfig.cores_pos hifiveConfig.entries_pos 8#32
  exact .step (.step .init hwrite henable) htrigger rfl

/-- A claim then returns it. -/
theorem claims_once_hifive : ∃ history s, Runs hifiveConfig (fun _ _ => True) history s ∧
    history.filterMap claimOf = [3] ∧ ClaimsOnce history := by
  obtain ⟨m, hselected, htransport⟩ :=
    transport_claimRead (enabledEarly.triggered 3) hifiveConfig.cores_pos
  have heligible : Eligible hifiveConfig (enabledEarly.triggered 3) 0 false 3 := by decide +kernel
  have hthree : m = 3 := by
    cases hselected with
    | none hnone => exact absurd heligible (hnone 3)
    | some h _ _ =>
      have hpending := h.2.2.2.1
      have hblank : enabledEarly.isPending m = false := isPending_init hifiveConfig m
      rw [isPending_triggered, hblank, Bool.false_or] at hpending
      exact of_decide_eq_true hpending
  subst hthree
  have hresponse : ((enabledEarly.triggered 3).claimed 0 3).claimResponse 0 = 3#32 :=
    word_setWord_self _ _ _
  rw [Nat.mul_zero, if_pos hifiveConfig.cores_pos, hresponse] at htransport
  have hruns := (runs_enabledEarly (P := fun _ _ => True) trivial trivial).step
    (e := .access (claimRead 0)) trivial htransport
  refine ⟨_, _, hruns, ?_, (claims_once rfl).2 _ _ hruns⟩
  have hclaim : claimOf (.access (claimRead 0), some (bytesOf 3#32)) = some 3 := by
    rw [claimOf, if_pos ⟨rfl, rfl⟩, wordOf_bytesOf]
    rfl
  simp only [List.cons_append, List.nil_append, List.filterMap_cons, List.filterMap_nil, hclaim]
  rfl

/-! ## Delivery -/

/-- Without an outstanding notification, what can be delivered has been: the external interrupt is
raised just if `hart_eip` is set. -/
structure Delivers (cfg : PlicConfig) (s : Plic) : Prop where
  eip : s.eRun = false → Deliverable cfg s 0 → s.hartEip 0 = true
  line : s.line 0 = s.hartEip 0

/-- While `hart_eip` is not set, no write gives a pending interrupt its enable bit and a priority
above the threshold unless a notification is outstanding, and there is no completion between the
notification for an interrupt and the wake-up. -/
def Careful (cfg : PlicConfig) (s : Plic) : Event → Prop
  | .access access => access.command = .write → s.hartEip 0 = false →
      if IsCompletion access then s.eRun = true → ¬ Deliverable cfg s 0
      else s.eRun = false → ¬ MakesDeliverable cfg s access
  | _ => True

/-- No interrupt is lost in the runs whose steps have the property `P`, and the assertion of the
completions holds. -/
structure NoLoss (cfg : PlicConfig) (P : Plic → Event → Prop) : Prop where
  raised : ∀ history s, Runs cfg P history s → s.eRun = false → Deliverable cfg s 0 →
    s.hartEip 0 = true ∧ s.line 0 = true
  assertion : ∀ history s e t, Runs cfg P history s → P s e →
    handle cfg e s ≠ .error (.assertion .hartEip) t

theorem deliverable_of_claimed {idx irqId : Nat} (h : Deliverable cfg (s.claimed idx irqId) 0) :
    Deliverable cfg s 0 := by
  obtain ⟨i, hpos, hlt, henabled, hpending, hprio, habove⟩ := h
  rw [isPending_claimed, Bool.and_eq_true] at hpending
  have hthreshold : (s.claimed idx irqId).threshold 0 = s.threshold 0 :=
    word_setWord_of_ne _ (by omega)
  change (s.claimed idx irqId).threshold 0 < _ at habove
  rw [hthreshold] at habove
  exact ⟨i, hpos, hlt, henabled, hpending.1, hprio, habove⟩

theorem Delivers.wakes (hline : s.line 0 = s.hartEip 0) (h : Wakes cfg s 0 t) : Delivers cfg t := by
  cases h with
  | raises _ _ =>
    have heip : Function.update s.hartEip 0 true 0 = true := Function.update_self _ _ _
    have hline : Function.update s.line 0 true 0 = true := Function.update_self _ _ _
    exact ⟨fun _ _ => heip, hline.trans heip.symm⟩
  | raised heip => exact ⟨fun _ _ => heip, hline⟩
  | nothing hnone => exact ⟨fun _ hd => absurd hd hnone, hline⟩

theorem Delivers.completes {mem : RegisterMemory}
    (hcompletes : Completes cfg { s with hartConfig := mem } 0 (.ok () t)) : Delivers cfg t := by
  cases hcompletes with
  | retrigger _ heip =>
    have hline : Function.update s.line 0 true 0 = true := Function.update_self _ _ _
    exact ⟨fun _ _ => heip, hline.trans heip.symm⟩
  | clears hnone =>
    have heip : Function.update s.hartEip 0 false 0 = false := Function.update_self _ _ _
    have hline : Function.update s.line 0 false 0 = false := Function.update_self _ _ _
    exact ⟨fun _ hd => absurd hd hnone, hline.trans heip.symm⟩

theorem Delivers.serves {access : Access} (h : Delivers cfg s)
    (hcareful : Careful cfg s (.access access)) (hserves : Serves cfg s access out t) :
    Delivers cfg t := by
  cases hserves with
  | claim _ _ => exact ⟨fun hrun hd => h.eip hrun (deliverable_of_claimed hd), h.line⟩
  | completion _ _ hcompletes => exact .completes hcompletes
  | read _ _ => exact h
  | write hcommand hcompletion hframe =>
    refine ⟨fun hrun hd => ?_, by rw [hframe.line, hframe.eip, h.line]⟩
    rw [hframe.eRun] at hrun
    rw [hframe.eip]
    by_contra heip
    have hnone := hcareful hcommand (Bool.eq_false_iff.mpr heip)
    rw [if_neg hcompletion] at hnone
    exact hnone hrun (hframe.makes hd)

theorem Delivers.step {e : Event} (h : Delivers cfg s)
    (hcareful : Careful cfg s e) (hsteps : Steps cfg s e out t) : Delivers cfg t := by
  cases hsteps with
  | trigger _ _ => exact ⟨nofun, h.line⟩
  | access hserves => exact h.serves hcareful hserves
  | wake _ hwakes =>
    have hline : ({ s with eRun := false } : Plic).line 0 = s.hartEip 0 := h.line
    exact Delivers.wakes hline hwakes
  | idle _ => exact h

theorem delivers_of_runs (hcores : cfg.numberCores = 1)
    (h : Runs cfg (Careful cfg) history s) : Delivers cfg s := by
  induction h with
  | init =>
    have hdisabled : ∀ i, (init cfg).isEnabled 0 i = false := isEnabled_blank 0
    exact ⟨fun _ hd => absurd hd (not_deliverable_of_disabled hdisabled), rfl⟩
  | step h hP hstep ih => exact ih.step hP (steps_of_handle hcores hstep)

/-- No interrupt is lost in the careful runs of a device with one hart. -/
theorem noLoss_of_careful (hcores : cfg.numberCores = 1) : NoLoss cfg (Careful cfg) where
  raised history s h hrun hd := by
    have hdelivers := delivers_of_runs hcores h
    have heip := hdelivers.eip hrun hd
    exact ⟨heip, hdelivers.line.trans heip⟩
  assertion history s e t h hcareful herror := by
    obtain ⟨access, rfl, hcompletion, hd, heip⟩ :=
      (triple_handle hcores s e).of_error rfl herror rfl
    have hnone := hcareful hcompletion.1 heip
    rw [if_pos hcompletion] at hnone
    cases hrun : s.eRun with
    | true => exact hnone hrun hd
    | false =>
      rw [(delivers_of_runs hcores h).eip hrun hd] at heip
      cases heip

/-- An interrupt that is enabled before it is triggered is delivered. -/
theorem noLoss_hifive : ∃ history s, Runs hifiveConfig (Careful hifiveConfig) history s ∧
    s.eRun = false ∧ Deliverable hifiveConfig s 0 ∧ s.hartEip 0 = true ∧ s.line 0 = true := by
  have hcareful : Careful hifiveConfig (init hifiveConfig) enableThree := by
    intro _ _
    rw [if_neg (by decide)]
    rintro _ ⟨i, _, _, hpending, _⟩
    exact Bool.false_ne_true ((isPending_init _ i).symm.trans hpending)
  have heligible : Eligible hifiveConfig (enabledEarly.triggered 3) 0 true 3 := by decide +kernel
  have hcores : hifiveConfig.numberCores = 1 := rfl
  obtain ⟨t, hwakes, hrun⟩ := run_apply hcores (enabledEarly.triggered 3)
  have hwake : handle hifiveConfig .wake (enabledEarly.triggered 3) = .ok none t :=
    bind_of_ok (f := fun _ => (pure none : PlicM (Option (List (BitVec 8))))) hrun
  have hruns := (runs_enabledEarly hcareful trivial).step (e := .wake) trivial hwake
  have hdelivered : t.eRun = false ∧ Deliverable hifiveConfig t 0 := by
    cases hwakes with
    | raises _ hd => exact ⟨rfl, hd⟩
    | raised heip => cases heip
    | nothing hnone => exact absurd ⟨3, heligible⟩ hnone
  exact ⟨_, t, hruns, hdelivered.1, hdelivered.2,
    (noLoss_of_careful hcores).raised _ t hruns hdelivered.1 hdelivered.2⟩

/-- The interrupt 3 was triggered and `run` woken up before the interrupt is enabled. -/
def enabledLate : Plic :=
  { (init hifiveConfig).triggered 3 with
    eRun := false
    hartEnabledInterrupts := (init hifiveConfig).hartEnabledInterrupts.setWord 0 8#32 }

/-- The interrupt is not delivered, and the next completion fails its assertion. -/
theorem loses_enabled_late : (∃ history, Runs hifiveConfig (fun _ _ => True) history enabledLate) ∧
    enabledLate.eRun = false ∧ Deliverable hifiveConfig enabledLate 0 ∧
    enabledLate.hartEip 0 = false ∧ enabledLate.line 0 = false ∧
    ∃ t, handle hifiveConfig (.access (completion 0 3#32)) enabledLate =
      .error (.assertion .hartEip) t := by
  have heligible : Eligible hifiveConfig enabledLate 0 true 3 := by decide +kernel
  refine ⟨?_, rfl, ⟨3, heligible⟩, rfl, rfl, ?_⟩
  · have htrigger : gatewayTriggerInterrupt hifiveConfig 3 (init hifiveConfig) =
        .ok () ((init hifiveConfig).triggered 3) := rfl
    have hdisabled : ∀ i, ((init hifiveConfig).triggered 3).isEnabled 0 i = false :=
      isEnabled_blank 0
    have hcores : hifiveConfig.numberCores = 1 := rfl
    obtain ⟨t, hwakes, hrun⟩ := run_apply hcores ((init hifiveConfig).triggered 3)
    cases hwakes with
    | raises _ hd => exact absurd hd (not_deliverable_of_disabled hdisabled)
    | raised heip => cases heip
    | nothing _ =>
      have hwrite := transport_enableWrite { (init hifiveConfig).triggered 3 with eRun := false }
        hifiveConfig.cores_pos hifiveConfig.entries_pos 8#32
      have hwake : handle hifiveConfig .wake ((init hifiveConfig).triggered 3) =
          .ok none { (init hifiveConfig).triggered 3 with eRun := false } :=
        bind_of_ok (f := fun _ => (pure none : PlicM (Option (List (BitVec 8))))) hrun
      exact ⟨_, .step (e := .access (enableWrite hifiveConfig 0 0 8#32))
        (.step (.step (e := .trigger 3) .init trivial (bind_of_ok htrigger)) trivial hwake)
        trivial hwrite⟩
  · have hcompletes := completes_complete
      { enabledLate with hartConfig := enabledLate.hartConfig.setWord 1 3#32 }
        hifiveConfig.cores_pos
    have htransport := transport_completion enabledLate hifiveConfig.cores_pos 3#32
    have hd : Deliverable hifiveConfig
        { enabledLate with hartConfig := enabledLate.hartConfig.setWord 1 3#32 } 0 :=
      (deliverable_hartConfig (word_setWord_of_ne _ (by decide))).mpr ⟨3, heligible⟩
    generalize hr : complete hifiveConfig 0 4
      { enabledLate with hartConfig := enabledLate.hartConfig.setWord 1 3#32 } = r at hcompletes
    cases hcompletes with
    | retrigger _ heip => cases heip
    | fails _ _ => exact ⟨_, htransport.trans (bind_of_error hr)⟩
    | clears hnone => exact absurd hd hnone

end Plic

end SpsVp.Platform
