import SpsVp.Platform.Plic

/-!
# Accesses to the interrupt controller

What the accesses to the registers of a hart do: a claim, a completion and a write of enable bits.
For the first hart they do what they are for (`claimsHighest`); `independent_iff` says for which
harts and registers they leave the other harts alone.
-/

namespace SpsVp.Platform

open Lib Effect RegisterMemory MappedRange

namespace Plic

variable {cfg : PlicConfig} {s t : Plic} {hart : Nat} {access : Access}
  {out : Option (List (BitVec 8))}

/-! ## Routes -/

variable {addr idx entry : Nat}

theorem priorities_not_contains (h : 0x1000 ≤ addr) :
    ¬ (regsInterruptPriorities cfg).range.contains addr = true := by
  rw [RegisterRange.contains_iff]
  have := cfg.priorities_le
  change ¬ (0 ≤ addr ∧ addr ≤ 0 + 4 * (cfg.numberInterrupts + 1) - 1)
  omega

theorem pending_not_contains (h : 0x2000 ≤ addr) :
    ¬ (regsPendingInterrupts cfg).range.contains addr = true := by
  rw [RegisterRange.contains_iff]
  have := cfg.pending_le
  change ¬ (0x1000 ≤ addr ∧ addr ≤ 0x1000 + 4 * cfg.numberInterruptEntries - 1)
  omega

theorem enabled_not_contains (h : 0x200000 ≤ addr) :
    ¬ (regsHartEnabledInterrupts cfg).range.contains addr = true := by
  rw [RegisterRange.contains_iff]
  have := cfg.enabled_le
  change ¬ (0x2000 ≤ addr ∧ addr ≤ 0x2000 + 4 * cfg.numberInterruptEntries * cfg.numberCores - 1)
  omega

theorem transport_of_hartConfig (haddr : 0x200000 ≤ access.address.toNat)
    (h : (regsHartConfig cfg).Admits access) :
    transport cfg access = (regsHartConfig cfg).process access := by
  rw [transport, route_of_not_contains (priorities_not_contains (by omega)),
    route_of_not_contains (pending_not_contains (by omega)),
    route_of_not_contains (enabled_not_contains haddr),
    route_of_contains h.contains]

theorem transport_of_enabled (haddr : 0x2000 ≤ access.address.toNat)
    (h : (regsHartEnabledInterrupts cfg).Admits access) :
    transport cfg access = (regsHartEnabledInterrupts cfg).process access := by
  rw [transport, route_of_not_contains (priorities_not_contains (by omega)),
    route_of_not_contains (pending_not_contains haddr),
    route_of_contains h.contains]

/-! ## Claims -/

/-- The read of the claim register of a hart. -/
def claimRead (hart : Nat) : Access := ⟨.read, BitVec.ofNat 64 (0x200004 + 8 * hart), [], 4⟩

/-- The state after a claim of an interrupt, with the index of the written claim register. -/
def claimed (s : Plic) (idx irqId : Nat) : Plic :=
  { s with
    hartConfig := s.hartConfig.setWord (2 * idx + 1) (BitVec.ofNat 32 irqId)
    pendingInterrupts := s.pendingInterrupts.setWord (irqId / 32)
      (s.pendingInterrupts.word (irqId / 32) &&& ~~~BitVec.twoPow 32 (irqId % 32)) }

/-- A claim clears exactly the pending bit of the interrupt. -/
theorem isPending_claimed (s : Plic) (idx irqId i : Nat) :
    (s.claimed idx irqId).isPending i = (s.isPending i && decide (i ≠ irqId)) := by
  rw [isPending, claimed]
  dsimp only
  rw [word_setWord]
  split_ifs with hentry
  · rw [BitVec.getLsbD_and, BitVec.getLsbD_not, BitVec.getLsbD_twoPow,
      decide_eq_true (Nat.mod_lt i (by decide)), isPending, hentry]
    by_cases hbit : irqId % 32 = i % 32
    · have hsame : i = irqId := by omega
      simp [hsame, Nat.mod_lt]
    · have hne : i ≠ irqId := fun h => hbit (by rw [h])
      simp [hbit, hne]
  · have hne : i ≠ irqId := fun h => hentry (by rw [h])
    simp [isPending, hne]

theorem Selected.lt {considerThreshold : Bool} {m : Nat}
    (h : Selected cfg s hart considerThreshold m) : m < cfg.numberInterrupts := by
  cases h with
  | none _ => exact cfg.interrupts_pos
  | some heligible _ _ => exact heligible.2.1

theorem clearPendingInterrupt_of_lt {irqId : Nat} (h : irqId < cfg.numberInterrupts) :
    clearPendingInterrupt cfg irqId s = .ok () { s with
      pendingInterrupts := s.pendingInterrupts.setWord (irqId / 32)
        (s.pendingInterrupts.word (irqId / 32) &&& ~~~BitVec.twoPow 32 (irqId % 32)) } := by
  have hentry : irqId / 32 < cfg.numberInterruptEntries := by
    have := cfg.interrupts_le
    omega
  rw [clearPendingInterrupt, if_neg (not_not.mpr h)]
  change (pendingAt cfg (irqId / 32) >>= _) s = _
  rw [bind_of_ok (pendingAt_of_lt hentry)]
  rfl

/-- A claim selects among the interrupts of the first hart. -/
theorem claim_apply (s : Plic) (idx : Nat) : ∃ m, Selected cfg s 0 false m ∧
    claim cfg idx 4 s = if idx < cfg.numberCores then .ok () (s.claimed idx m)
      else .error .rangeAssertion s := by
  obtain ⟨m, hselected, hnext⟩ := hartGetNextPendingInterrupt_apply s cfg.cores_pos false
  refine ⟨m, hselected, ?_⟩
  change (hartGetNextPendingInterrupt cfg 0 false >>= _) s = _
  rw [bind_of_ok hnext]
  split_ifs with hcores
  · have hset : setClaimResponse cfg idx (BitVec.ofNat 32 m) s = .ok () { s with
        hartConfig := s.hartConfig.setWord (2 * idx + 1) (BitVec.ofNat 32 m) } := by
      rw [setClaimResponse, bind_of_ok (index_of_lt hcores)]
      rfl
    rw [bind_of_ok hset, clearPendingInterrupt_of_lt hselected.lt]
    rfl
  · have hindex : index cfg.numberCores idx s = .error .rangeAssertion s := by
      rw [index, if_neg hcores]
      rfl
    have hset : setClaimResponse cfg idx (BitVec.ofNat 32 m) s = .error .rangeAssertion s := by
      rw [setClaimResponse, bind_of_error hindex]
    rw [bind_of_error hset]

theorem toNat_hartConfig (hhart : hart < cfg.numberCores) :
    (BitVec.ofNat 64 (0x200004 + 8 * hart)).toNat = 0x200004 + 8 * hart := by
  have := cfg.cores_le
  rw [BitVec.toNat_ofNat, Nat.mod_eq_of_lt (by omega)]

theorem toLocal_hartConfig (hhart : hart < cfg.numberCores) :
    (regsHartConfig cfg).range.toLocal (BitVec.ofNat 64 (0x200004 + 8 * hart)).toNat =
      4 * (2 * hart + 1) := by
  rw [toNat_hartConfig hhart]
  change 0x200004 + 8 * hart - 0x200000 = 4 * (2 * hart + 1)
  omega

/-- The claim register of a hart. -/
theorem admits_hartConfig (hhart : hart < cfg.numberCores)
    (haddress : access.address = BitVec.ofNat 64 (0x200004 + 8 * hart))
    (hlength : access.length = 4) :
    (regsHartConfig cfg).Admits access where
  address := by
    rw [haddress, toNat_hartConfig hhart]
    change (0x200004 + 8 * hart) % 4 = 0
    omega
  length := by
    rw [hlength]
    exact Nat.mod_self 4
  contains := by
    rw [haddress, toNat_hartConfig hhart, RegisterRange.contains_iff]
    change 0x200000 ≤ _ ∧ _ ≤ 0x200000 + 8 * cfg.numberCores - 1
    omega
  size := by
    rw [haddress, toLocal_hartConfig hhart, hlength]
    change 4 * (2 * hart + 1) + 4 ≤ 8 * cfg.numberCores
    omega

theorem le_hartConfig (hhart : hart < cfg.numberCores)
    (haddress : access.address = BitVec.ofNat 64 (0x200004 + 8 * hart)) :
    0x200000 ≤ access.address.toNat := by
  rw [haddress, toNat_hartConfig hhart]
  omega

theorem preReadHartConfig_claim (s : Plic) (hart size : Nat) :
    preReadHartConfig cfg (4 * (2 * hart + 1)) size s =
      (claim cfg (2 * hart) size >>= fun _ => pure true) s := by
  rw [preReadHartConfig, if_neg (show ¬ 4 * (2 * hart + 1) % 4 ≠ 0 by omega),
    Nat.mul_div_cancel_left _ (by decide : 0 < 4), if_pos (by omega)]
  rfl

/-- What the read of a claim register does. -/
theorem transport_claimRead (s : Plic) (hhart : hart < cfg.numberCores) :
    ∃ m, Selected cfg s 0 false m ∧ transport cfg (claimRead hart) s =
      if 2 * hart < cfg.numberCores then
        .ok (some (bytesOf ((s.claimed (2 * hart) m).claimResponse hart)))
          (s.claimed (2 * hart) m)
      else .error .rangeAssertion s := by
  obtain ⟨m, hselected, hclaim⟩ := claim_apply s (2 * hart)
  have hadmits : (regsHartConfig cfg).Admits (claimRead hart) := admits_hartConfig hhart rfl rfl
  have hpre : preReadHartConfig cfg (4 * (2 * hart + 1)) 4 s = _ := preReadHartConfig_claim s hart 4
  refine ⟨m, hselected, ?_⟩
  rw [transport_of_hartConfig (le_hartConfig hhart rfl) hadmits,
    process_of_read hadmits rfl (toLocal_hartConfig hhart) rfl]
  change (preReadHartConfig cfg (4 * (2 * hart + 1)) 4 >>= _) s = _
  split_ifs at hclaim ⊢ with hcores
  · rw [bind_of_ok hclaim] at hpre
    rw [bind_of_ok hpre]
    change EStateM.Result.ok
      (some ((s.claimed (2 * hart) m).hartConfig.bytes (4 * (2 * hart + 1)) 4))
      (s.claimed (2 * hart) m) = _
    rw [bytes_word]
    rfl
  · rw [bind_of_error hclaim] at hpre
    rw [bind_of_error hpre]

/-! ## Completions -/

/-- The write of the claim register of a hart. -/
def completion (hart : Nat) (value : BitVec 32) : Access :=
  ⟨.write, BitVec.ofNat 64 (0x200004 + 8 * hart), bytesOf value, 4⟩

/-- What a completion does. -/
inductive Completes (cfg : PlicConfig) (s : Plic) (idx : Nat) :
    EStateM.Result (DeviceError PlicAssertion) Plic Unit → Prop where
  | retrigger (h : Deliverable cfg s idx) (heip : s.hartEip idx = true) :
      Completes cfg s idx (.ok () { s with line := Function.update s.line idx true })
  | fails (h : Deliverable cfg s idx) (heip : s.hartEip idx = false) :
      Completes cfg s idx (.error (.assertion .hartEip) s)
  | clears (h : ¬ Deliverable cfg s idx) :
      Completes cfg s idx (.ok () { s with
        hartEip := Function.update s.hartEip idx false
        line := Function.update s.line idx false })

theorem hartIndex_of_lt (s : Plic) (h : hart < cfg.numberCores) :
    hartIndex cfg hart s = .ok () s := by
  rw [hartIndex, if_pos h]
  rfl

theorem assertHartEip_of_lt (s : Plic) (h : hart < cfg.numberCores) : assertHartEip cfg hart s =
    if s.hartEip hart then .ok () s else .error (.assertion .hartEip) s := by
  rw [assertHartEip, bind_of_ok (hartIndex_of_lt s h)]
  change (if !s.hartEip hart then throw (.assertion .hartEip) else pure () : PlicM Unit) s = _
  cases s.hartEip hart <;> rfl

theorem setHartEip_of_lt (s : Plic) (h : hart < cfg.numberCores) (value : Bool) :
    setHartEip cfg hart value s =
      .ok () { s with hartEip := Function.update s.hartEip hart value } := by
  rw [setHartEip, bind_of_ok (hartIndex_of_lt s h)]
  rfl

theorem completes_complete (s : Plic) (h : idx < cfg.numberCores) :
    Completes cfg s idx (complete cfg idx 4 s) := by
  obtain ⟨found, hfound, hrun⟩ := hartHasPendingEnabledInterrupts_apply s h
  change Completes cfg s idx ((hartHasPendingEnabledInterrupts cfg idx >>= _) s)
  rw [bind_of_ok hrun]
  cases found with
  | true =>
    have hassert := assertHartEip_of_lt s h
    change Completes cfg s idx ((assertHartEip cfg idx >>= _) s)
    cases heip : s.hartEip idx with
    | true =>
      rw [heip] at hassert
      rw [bind_of_ok hassert]
      exact .retrigger (hfound.mp rfl) heip
    | false =>
      rw [heip] at hassert
      rw [bind_of_error hassert]
      exact .fails (hfound.mp rfl) heip
  | false =>
    change Completes cfg s idx ((setHartEip cfg idx false >>= _) s)
    rw [bind_of_ok (setHartEip_of_lt s h false)]
    exact .clears fun hdeliverable => Bool.false_ne_true (hfound.mpr hdeliverable)

theorem postWriteHartConfig_claim (s : Plic) (hart size : Nat) :
    postWriteHartConfig cfg (4 * (2 * hart + 1)) size s = complete cfg (2 * hart) size s := by
  rw [postWriteHartConfig, if_neg (show ¬ 4 * (2 * hart + 1) % 4 ≠ 0 by omega),
    Nat.mul_div_cancel_left _ (by decide : 0 < 4), if_pos (by omega)]
  rfl

/-- What the write of a claim register does. -/
theorem transport_completion (s : Plic) (hhart : hart < cfg.numberCores) (value : BitVec 32) :
    transport cfg (completion hart value) s = (complete cfg (2 * hart) 4 >>= fun _ => pure none)
      { s with hartConfig := s.hartConfig.setWord (2 * hart + 1) value } := by
  have hadmits : (regsHartConfig cfg).Admits (completion hart value) :=
    admits_hartConfig hhart rfl rfl
  rw [transport_of_hartConfig (le_hartConfig hhart rfl) hadmits,
    process_of_write hadmits rfl (toLocal_hartConfig hhart) rfl rfl]
  exact congrArg (EStateM.bind · _ _) (funext fun t => postWriteHartConfig_claim t hart 4)

/-! ## Enable bits -/

/-- The write of a word of the enable bits of a hart. -/
def enableWrite (cfg : PlicConfig) (hart entry : Nat) (value : BitVec 32) : Access :=
  ⟨.write, BitVec.ofNat 64 (0x2000 + 4 * (hart * cfg.numberInterruptEntries + entry)),
    bytesOf value, 4⟩

/-- The words of all harts are in the range. -/
theorem entry_lt (hhart : hart < cfg.numberCores)
    (hentry : entry < cfg.numberInterruptEntries) :
    hart * cfg.numberInterruptEntries + entry < cfg.numberInterruptEntries * cfg.numberCores := by
  calc hart * cfg.numberInterruptEntries + entry
      < (hart + 1) * cfg.numberInterruptEntries := by
        rw [Nat.succ_mul]
        omega
    _ ≤ cfg.numberCores * cfg.numberInterruptEntries := Nat.mul_le_mul_right _ hhart
    _ = _ := Nat.mul_comm _ _

theorem transport_enableWrite (s : Plic) (hhart : hart < cfg.numberCores)
    (hentry : entry < cfg.numberInterruptEntries) (value : BitVec 32) :
    transport cfg (enableWrite cfg hart entry value) s = .ok none { s with
      hartEnabledInterrupts :=
        s.hartEnabledInterrupts.setWord (hart * cfg.numberInterruptEntries + entry) value } := by
  have hlt := entry_lt hhart hentry
  have hle := cfg.enabled_le
  rw [Nat.mul_assoc] at hle
  have htoNat : (enableWrite cfg hart entry value).address.toNat =
      0x2000 + 4 * (hart * cfg.numberInterruptEntries + entry) := by
    rw [enableWrite, BitVec.toNat_ofNat, Nat.mod_eq_of_lt (by omega)]
  have hlocal : (regsHartEnabledInterrupts cfg).range.toLocal
      (enableWrite cfg hart entry value).address.toNat =
        4 * (hart * cfg.numberInterruptEntries + entry) := by
    rw [htoNat]
    exact Nat.add_sub_cancel_left _ _
  have hadmits : (regsHartEnabledInterrupts cfg).Admits (enableWrite cfg hart entry value) := {
    address := Nat.mod_one _
    length := Nat.mod_one _
    contains := by
      rw [htoNat, RegisterRange.contains_iff]
      change 0x2000 ≤ _ ∧ _ ≤ 0x2000 + 4 * cfg.numberInterruptEntries * cfg.numberCores - 1
      rw [Nat.mul_assoc]
      omega
    size := by
      rw [hlocal]
      change 4 * (hart * cfg.numberInterruptEntries + entry) + 4 ≤
        4 * cfg.numberInterruptEntries * cfg.numberCores
      rw [Nat.mul_assoc]
      omega }
  rw [transport_of_enabled (by rw [htoNat]; omega) hadmits,
    process_of_write hadmits rfl hlocal rfl rfl]
  rfl

theorem isEnabled_setWord (s : Plic) (j : Nat) (value : BitVec 32) (other i : Nat) :
    ({ s with hartEnabledInterrupts := s.hartEnabledInterrupts.setWord j value } : Plic).isEnabled
      other i = if other + i / 32 = j then value.getLsbD (i % 32) else s.isEnabled other i := by
  change ((s.hartEnabledInterrupts.setWord j value).word (other * rowSize + i / 32)).getLsbD _ = _
  rw [word_setWord, Nat.mul_one]
  split_ifs with h
  · rfl
  · rw [isEnabled, Nat.mul_one]

/-! ## Harts -/

/-- An access through the registers of a hart. -/
inductive HartAccess where
  | enable (hart entry : Nat)
  | claim (hart : Nat)
  | complete (hart : Nat)

/-- The access is one to a register of the device. -/
def HartAccess.Valid (cfg : PlicConfig) : HartAccess → Prop
  | .enable hart entry => hart < cfg.numberCores ∧ entry < cfg.numberInterruptEntries
  | .claim hart | .complete hart => hart < cfg.numberCores

/-- An access does what it is for, and nothing to the other harts: a write of enable bits changes
those of its hart only, a claim stores what is selected for its hart in its claim register, and a
completion sets the external interrupt of its hart by what can be delivered to it. -/
def Independent (cfg : PlicConfig) (s : Plic) : HartAccess → Prop
  | .enable hart entry =>
      ∀ value, ∃ t, transport cfg (enableWrite cfg hart entry value) s = .ok none t ∧
      ∀ other < cfg.numberCores, other ≠ hart → ∀ i, 0 < i → i < cfg.numberInterrupts →
        t.isEnabled other i = s.isEnabled other i
  | .claim hart => ∃ m t, Selected cfg s hart false m ∧
      transport cfg (claimRead hart) s = .ok (some (bytesOf (BitVec.ofNat 32 m))) t ∧
      t.claimResponse hart = BitVec.ofNat 32 m ∧ t.line = s.line ∧ t.hartEip = s.hartEip ∧
      ∀ other < cfg.numberCores, other ≠ hart → t.claimResponse other = s.claimResponse other
  | .complete hart => ∀ value, match transport cfg (completion hart value) s with
      | .ok _ t => (t.line hart = true ↔ Deliverable cfg s hart) ∧
          ∀ other < cfg.numberCores, other ≠ hart →
            t.line other = s.line other ∧ t.hartEip other = s.hartEip other
      | .error e _ => e = .assertion .hartEip ∧ Deliverable cfg s hart ∧ s.hartEip hart = false

/-- The word of the enable bits is in the row of no other hart; a claim register is that of the
first hart. -/
def HartAccess.Own (cfg : PlicConfig) : HartAccess → Prop
  | .enable hart entry => cfg.numberInterrupts = 1 ∨ ∀ other < cfg.numberCores, other ≠ hart →
      hart * cfg.numberInterruptEntries + entry < other ∨
        other + (cfg.numberInterrupts - 1) / 32 < hart * cfg.numberInterruptEntries + entry
  | .claim hart | .complete hart => hart = 0

/-- A device whose memories hold zeros. -/
def blank : Plic := ⟨fun _ => 0#8, fun _ => 0#8, fun _ => 0#8, fun _ => 0#8, fun _ => false,
  fun _ => false, false⟩

theorem word_blank (i : Nat) : word (fun _ => 0#8) i = 0#32 := by
  change ByteMemory.littleEndian (fun _ => 0#8) 4 = 0#32
  decide

theorem isEnabled_blank (hart i : Nat) : blank.isEnabled hart i = false := by
  change (word (fun _ => 0#8) _).getLsbD _ = false
  rw [word_blank, BitVec.getLsbD_zero]

theorem independent_enable_iff (hhart : hart < cfg.numberCores)
    (hentry : entry < cfg.numberInterruptEntries) :
    (∀ s, Independent cfg s (.enable hart entry)) ↔ (HartAccess.enable hart entry).Own cfg := by
  have htransport := fun s => transport_enableWrite s hhart hentry
  constructor
  · intro h
    by_contra hown
    obtain ⟨hone, hrow⟩ := not_or.mp hown
    push Not at hrow
    obtain ⟨other, hother, hne, hle, hlast⟩ := hrow
    obtain ⟨t, ht, hsame⟩ := h blank (BitVec.allOnes 32)
    cases (htransport blank (BitVec.allOnes 32)).symm.trans ht
    have hpos := cfg.interrupts_pos
    -- an interrupt whose enable bit for the other hart is in the word
    let f := hart * cfg.numberInterruptEntries + entry
    obtain ⟨i, hi, hlt, hword⟩ : ∃ i, 0 < i ∧ i < cfg.numberInterrupts ∧ other + i / 32 = f := by
      by_cases hfirst : f = other
      · exact ⟨1, Nat.one_pos, by omega, by omega⟩
      · exact ⟨32 * (f - other), by omega, by omega, by omega⟩
    have hbit := hsame other hother hne i hi hlt
    rw [isEnabled_setWord, if_pos hword, BitVec.getLsbD_allOnes,
      decide_eq_true (Nat.mod_lt i (by decide)), isEnabled_blank] at hbit
    exact Bool.false_ne_true hbit.symm
  · intro hown s value
    refine ⟨_, htransport s value, fun other hother hne i hi hlt => ?_⟩
    rw [isEnabled_setWord, if_neg]
    obtain hone | hrow := hown
    · omega
    · have := hrow other hother hne
      omega

/-- The claim register of another hart is overwritten. -/
theorem independent_claim_iff (hhart : hart < cfg.numberCores) :
    (∀ s, Independent cfg s (.claim hart)) ↔ hart = 0 := by
  constructor
  · intro h
    by_contra hne
    -- the claim register that is written is not empty before
    let s : Plic := { blank with
      hartConfig := blank.hartConfig.setWord (2 * (2 * hart) + 1) 0xffffffff#32 }
    obtain ⟨m, t, _, ht, _, _, _, hothers⟩ := h s
    obtain ⟨m', hselected, htransport⟩ := transport_claimRead s hhart
    have hm := hselected.lt
    have hN := cfg.priorities_le
    split_ifs at htransport with hcores
    · have hpair := htransport.symm.trans ht
      rw [EStateM.Result.ok.injEq] at hpair
      obtain ⟨_, rfl⟩ := hpair
      have hsame := hothers (2 * hart) hcores (by omega)
      have hbefore : s.claimResponse (2 * hart) = 0xffffffff#32 :=
        word_setWord_self _ _ _
      have hafter : (s.claimed (2 * hart) m').claimResponse (2 * hart) = BitVec.ofNat 32 m' :=
        word_setWord_self _ _ _
      rw [hbefore, hafter] at hsame
      have htoNat := congrArg BitVec.toNat hsame
      rw [BitVec.toNat_ofNat, BitVec.toNat_ofNat] at htoNat
      omega
    · cases htransport.symm.trans ht
  · rintro rfl s
    obtain ⟨m, hselected, htransport⟩ := transport_claimRead s hhart
    rw [Nat.mul_zero, if_pos hhart] at htransport
    have hresponse : (s.claimed 0 m).claimResponse 0 = BitVec.ofNat 32 m :=
      word_setWord_self _ _ _
    rw [hresponse] at htransport
    refine ⟨m, _, hselected, htransport, hresponse, rfl, rfl, fun other _ hother => ?_⟩
    exact word_setWord_of_ne _ (by omega)

/-- Nothing can be delivered from a device without enable bits. -/
theorem not_deliverable_of_disabled (h : ∀ i, s.isEnabled hart i = false) :
    ¬ Deliverable cfg s hart :=
  fun ⟨i, _, _, henabled, _⟩ => Bool.false_ne_true ((h i).symm.trans henabled)

/-- The search for an interrupt of a hart without enable bits, which need not be one of the
device. -/
theorem foldlM_of_disabled (h : ∀ i, s.isEnabled idx i = false) (considerThreshold : Bool)
    (l : List Nat) (best : Nat × BitVec 32) :
    l.foldlM (considerInterrupt cfg idx considerThreshold) best s = .ok best s ∨
      l.foldlM (considerInterrupt cfg idx considerThreshold) best s = .error .outOfBounds s := by
  induction l with
  | nil => exact .inl rfl
  | cons i l ih =>
    rw [List.foldlM_cons]
    by_cases hrow : idx * rowSize + i / 32 < cfg.numberInterruptEntries * cfg.numberCores
    · have hbit :
          ¬ (s.hartEnabledInterrupts.word (idx * rowSize + i / 32)).getLsbD (i % 32) = true :=
        Bool.eq_false_iff.mp (h i)
      have hstep : considerInterrupt cfg idx considerThreshold best i s = .ok best s := by
        rw [considerInterrupt, bind_of_ok (hartEnabledAt_of_lt hrow), if_neg hbit]
        rfl
      rw [bind_of_ok hstep]
      exact ih
    · have henabled : hartEnabledAt cfg idx (i / 32) s = .error .outOfBounds s := by
        rw [hartEnabledAt, if_neg hrow]
        rfl
      have hstep :
          considerInterrupt cfg idx considerThreshold best i s = .error .outOfBounds s := by
        rw [considerInterrupt, bind_of_error henabled]
      exact .inr (bind_of_error hstep)

/-- A completion for a hart that is not one of the device. -/
theorem complete_of_disabled (hidx : ¬ idx < cfg.numberCores)
    (h : ∀ i, s.isEnabled idx i = false) : complete cfg idx 4 s = .error .outOfBounds s := by
  change (hartHasPendingEnabledInterrupts cfg idx >>= _) s = _
  obtain hloop | hloop := foldlM_of_disabled h true
    (List.range' 1 (cfg.numberInterrupts - 1)) (0, 0#32)
  · have hfound : hartHasPendingEnabledInterrupts cfg idx s = .ok false s := by
      have hnext : hartGetNextPendingInterrupt cfg idx true s = .ok 0 s := bind_of_ok hloop
      exact bind_of_ok hnext
    have hindex : hartIndex cfg idx s = .error .outOfBounds s := by
      rw [hartIndex, if_neg hidx]
      rfl
    have hset : setHartEip cfg idx false s = .error .outOfBounds s := bind_of_error hindex
    rw [bind_of_ok hfound]
    exact bind_of_error hset
  · have hnext : hartGetNextPendingInterrupt cfg idx true s = .error .outOfBounds s :=
      bind_of_error hloop
    have hfound : hartHasPendingEnabledInterrupts cfg idx s = .error .outOfBounds s :=
      bind_of_error hnext
    exact bind_of_error hfound

theorem deliverable_hartConfig {mem : RegisterMemory}
    (h : mem.word (2 * hart) = s.hartConfig.word (2 * hart)) :
    Deliverable cfg { s with hartConfig := mem } hart ↔ Deliverable cfg s hart := by
  have hlimit : ({ s with hartConfig := mem } : Plic).limit hart true = s.limit hart true := h
  refine exists_congr fun i => ?_
  rw [Eligible, Eligible, hlimit]
  rfl

/-- The external interrupt of another hart is cleared. -/
theorem independent_complete_iff (hhart : hart < cfg.numberCores) :
    (∀ s, Independent cfg s (.complete hart)) ↔ hart = 0 := by
  constructor
  · intro h
    by_contra hne
    let s : Plic := { blank with line := fun _ => true }
    let s' : Plic := { s with hartConfig := s.hartConfig.setWord (2 * hart + 1) 0#32 }
    have hs := h s 0#32
    have hdisabled : ∀ i, s'.isEnabled (2 * hart) i = false := isEnabled_blank (2 * hart)
    rw [transport_completion s hhart 0#32] at hs
    by_cases hcores : 2 * hart < cfg.numberCores
    · generalize hr : complete cfg (2 * hart) 4 s' = r
      have hcompletes := completes_complete s' hcores
      rw [hr] at hcompletes
      cases hcompletes with
      | retrigger hd _ | fails hd _ => exact not_deliverable_of_disabled hdisabled hd
      | clears _ =>
        rw [bind_of_ok hr] at hs
        have hline : Function.update s.line (2 * hart) false (2 * hart) = true :=
          (hs.2 (2 * hart) hcores (by omega)).1
        rw [Function.update_self] at hline
        exact Bool.false_ne_true hline
    · rw [bind_of_error (complete_of_disabled hcores hdisabled)] at hs
      cases hs.1
  · rintro rfl s value
    let s' : Plic := { s with hartConfig := s.hartConfig.setWord (2 * 0 + 1) value }
    have hdeliverable : Deliverable cfg s' 0 ↔ Deliverable cfg s 0 :=
      deliverable_hartConfig (word_setWord_of_ne _ (by decide))
    rw [transport_completion s hhart value]
    generalize hr : complete cfg (2 * 0) 4 s' = r
    have hcompletes := completes_complete s' hhart
    rw [show complete cfg 0 4 s' = r from hr] at hcompletes
    cases hcompletes with
    | retrigger hd _ =>
      rw [bind_of_ok hr]
      have hline : Function.update s.line 0 true 0 = true := Function.update_self _ _ _
      refine ⟨iff_of_true hline (hdeliverable.mp hd), fun other _ hne => ?_⟩
      exact ⟨Function.update_of_ne hne _ _, rfl⟩
    | fails hd heip =>
      rw [bind_of_error hr]
      exact ⟨rfl, hdeliverable.mp hd, heip⟩
    | clears hd =>
      rw [bind_of_ok hr]
      refine ⟨iff_of_false ?_ (mt hdeliverable.mpr hd), fun other _ hne => ?_⟩
      · change ¬ Function.update s.line 0 false 0 = true
        rw [Function.update_self]
        exact Bool.false_ne_true
      · exact ⟨Function.update_of_ne hne _ _, Function.update_of_ne hne _ _⟩

/-- Over all states, an access leaves the other harts alone just if its register is not one of
theirs. -/
theorem independent_iff (cfg : PlicConfig) (access : HartAccess) (hvalid : access.Valid cfg) :
    (∀ s, Independent cfg s access) ↔ access.Own cfg := by
  cases access with
  | enable hart entry => exact independent_enable_iff hvalid.1 hvalid.2
  | claim hart => exact independent_claim_iff hvalid
  | complete hart => exact independent_complete_iff hvalid

/-- The controller of the platform with one hart, and with a second one. -/
def hifiveConfig : PlicConfig where
  numberCores := 1
  numberInterrupts := 53
  numberInterruptEntries := 64
  maxPriority := 7#32
  cores_pos := by decide
  cores_le := by decide
  interrupts_pos := by decide
  entries_pos := by decide
  interrupts_le := by decide
  priorities_le := by decide
  pending_le := by decide
  enabled_le := by decide

def twoHarts : PlicConfig :=
  { hifiveConfig with
    numberCores := 2
    cores_pos := by decide
    cores_le := by decide
    enabled_le := by decide }

/-- The first word of the enable bits of the first hart. -/
theorem independent_first_word : (HartAccess.enable 0 0).Valid twoHarts ∧
    ∀ s, Independent twoHarts s (.enable 0 0) := by
  have hvalid : (HartAccess.enable 0 0).Valid twoHarts := ⟨by decide, by decide⟩
  refine ⟨hvalid,
    (independent_iff twoHarts (.enable 0 0) hvalid).mpr (.inr fun other hother hne => ?_)⟩
  exact .inl (by omega)

/-- A write of the second word of the enable bits of the first hart enables an interrupt for the
second hart, and a claim of the second hart fails an assertion. -/
theorem enables_other_hart :
    (∃ t, transport twoHarts (enableWrite twoHarts 0 1 8#32) blank = .ok none t ∧
      blank.isEnabled 1 3 = false ∧ t.isEnabled 1 3 = true) ∧
    transport twoHarts (claimRead 1) blank = .error .rangeAssertion blank := by
  refine ⟨⟨_, transport_enableWrite blank (by decide) (by decide) 8#32, isEnabled_blank 1 3, ?_⟩,
    ?_⟩
  · rw [isEnabled_setWord]
    rfl
  · have hhart : 1 < twoHarts.numberCores := by decide
    obtain ⟨m, _, htransport⟩ := transport_claimRead blank hhart
    exact htransport

end Plic

end SpsVp.Platform
