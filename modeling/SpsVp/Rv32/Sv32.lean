import SpsVp.Platform.Region
import SpsVp.Rv32.Watch

/-!
# Address translation as a function

`lookup` finds the entry of a page table for an address, and `translation` is what the MMU makes of
it: the physical address or what is thrown, and the memory interface after that. The MMU computes it
(`triple_v2p`) as long as the page tables are in a memory. A page table in a device has no contents
before it is read, which is the outcome `device`.
-/

namespace SpsVp.Platform.SimpleBus

/-- No device has an address. -/
def Plain (bus : SimpleBus) (addr : BitVec 64) : Prop :=
  ∀ port d, bus.find addr ≠ some (port, .device d)

instance (bus : SimpleBus) (addr : BitVec 64) : Decidable (bus.Plain addr) :=
  match h : bus.find addr with
  | some (port, .device d) => isFalse fun hplain => hplain port d h
  | some (_, .memory _) => isTrue fun _ _ hdevice => nomatch h.symm.trans hdevice
  | none => isTrue fun _ _ hdevice => nomatch h.symm.trans hdevice

variable {bus : SimpleBus} {payload : Payload}

/-- A transaction where no device is finds nothing or a memory. -/
theorem Plain.cases (h : bus.Plain payload.address) :
    bus.transport payload = ({ payload := { payload with isResponseError := true } }, bus) ∨
    ∃ port m, bus.find payload.address = some (port, .memory m) ∧
      (bus.transport payload).1 = { payload := (m.transport (payload.behind port)).1 } := by
  cases hfind : bus.find payload.address with
  | none => exact .inl (transport_of_find_eq_none hfind)
  | some p =>
    obtain ⟨port, m | d⟩ := p
    · exact .inr ⟨port, m, rfl, transport_of_find hfind⟩
    · exact absurd hfind (h port d)

/-- Such a transaction has no other effect. -/
theorem Plain.outcome (h : bus.Plain payload.address) :
    (bus.transport payload).1 = { payload := (bus.transport payload).1.payload } := by
  obtain h | ⟨_, _, _, h⟩ := h.cases <;> rw [h]

/-- The command of a transaction stays. -/
theorem Plain.command (h : bus.Plain payload.address) :
    (bus.transport payload).1.payload.command = payload.command := by
  obtain h | ⟨port, m, _, h⟩ := h.cases <;> rw [h]
  dsimp only [SymbolicMemory.transport]
  split_ifs
  · rfl
  · split <;> rfl

/-- A transaction that succeeds where no device is has been served by a memory. -/
theorem Plain.memory (h : bus.Plain payload.address)
    (hok : (bus.transport payload).1.payload.isResponseError = false) :
    ∃ port m, bus.find payload.address = some (port, .memory m) ∧
      (payload.behind port).Fits m.size := by
  obtain h | ⟨port, m, hfind, h⟩ := h.cases <;> rw [h] at hok
  · cases hok
  · refine ⟨port, m, hfind, ?_⟩
    by_contra hfits
    rw [SymbolicMemory.transport_of_not_fits hfits] at hok
    cases hok

/-- A read where no device is leaves the bus alone. -/
theorem Plain.unchanged (h : bus.Plain payload.address) (hfresh : payload.isResponseError = false)
    (haccess : payload.command = .read ∨ (bus.transport payload).1.payload.isResponseError = true) :
    (bus.transport payload).2 = bus := by
  obtain h | ⟨port, m, hfind, h⟩ := h.cases
  · rw [h]
  · rw [h] at haccess
    exact transport_of_unchanged hfind
      (congrArg Target.memory (Rv32.Interface.transport_access hfresh haccess))

end SpsVp.Platform.SimpleBus

namespace SpsVp.Rv32

open Lib Effect Clover Klee Platform

namespace Interface

/-! ## Page tables -/

/-- What there is at the address of an entry. -/
inductive Entry where
  | word (pte : BitVec 64)
  /-- The bus reports an error, with the address as the target sees it. -/
  | error (addr : BitVec 64)
  | device

def readEntry (bus : SimpleBus) (addr : BitVec 64) : Entry :=
  match bus.find addr with
  | some (_, .device _) => .device
  | _ =>
    let answer := (bus.transport (entryRead addr)).1.payload
    if answer.isResponseError then .error answer.address
    else .word ((wordOfBytes answer.data).setWidth 64)

/-- The entry that permits an access, and the physical address that it gives. -/
structure Leaf where
  paddr : BitVec 64
  entry : BitVec 64
  pte : BitVec 64
deriving DecidableEq

/-- The accessed and dirty bits are set. -/
def Leaf.marked (leaf : Leaf) (type : MemoryAccessType) : Bool :=
  leaf.pte &&& accessBits type = accessBits type

inductive Lookup where
  | page (leaf : Leaf)
  | fault
  | error (addr : BitVec 64)
  | device
deriving DecidableEq

/-- The address of the entry for an address in the table of a level. -/
def entryAddress (vaddr table : BitVec 64) (level : Nat) : BitVec 64 :=
  table + ((vaddr >>> (12 + level * 10)) &&& 0x3ff#64) * 4

/-- The bits of the page number that an entry of a level leaves to the address. -/
def pageMask (level : Nat) : BitVec 64 := (1#64 <<< (level * 10)) - 1

def physicalAddress (vaddr pte : BitVec 64) (level : Nat) : BitVec 64 :=
  ((((pte >>> 10) &&& ~~~pageMask level) ||| ((vaddr >>> 12) &&& pageMask level)) <<< 12) |||
    (vaddr &&& 0xfff#64)

/-- The search for an entry from a level down. -/
def lookup (bus : SimpleBus) (view : CoreView) (vaddr : BitVec 64) (type : MemoryAccessType)
    (sMode : Bool) : Nat → BitVec 64 → Lookup
  | 0, _ => .fault
  | level + 1, table =>
    match readEntry bus (entryAddress vaddr table level) with
    | .error addr => .error addr
    | .device => .device
    | .word pte =>
      if !pteFlag pte PTE_V || (!pteFlag pte PTE_R && pteFlag pte PTE_W) then .fault
      else if !pteFlag pte PTE_R && !pteFlag pte PTE_X then
        lookup bus view vaddr type sMode level (nextTable pte)
      else if refuses view pte type sMode then .fault
      else if (pte >>> 10) &&& pageMask level ≠ 0#64 then .fault
      else .page ⟨physicalAddress vaddr pte level, entryAddress vaddr table level, pte⟩

/-! ## Translation -/

inductive Translation where
  | page (paddr : BitVec 64)
  | throws (e : Exception)
  | device

/-- The memory interface after the update of an entry. -/
def mark (io : Interface) (view : CoreView) (leaf : Leaf) (type : MemoryAccessType) : Interface :=
  { io with
    bus := (io.bus.transport
      (entryWrite leaf.entry ((leaf.pte ||| accessBits type).setWidth 32))).2
    busLock := io.busLock.unlock view.hartId }

/-- What a walk makes of the entry that was found. -/
def walked (io : Interface) (view : CoreView) (vaddr : BitVec 64) (type : MemoryAccessType) :
    Lookup → Translation × Interface
  | .fault => (.throws (.trap type.pageFault vaddr), io)
  | .error addr => (.throws (.trap .EXC_LOAD_PAGE_FAULT addr), io)
  | .device => (.device, io)
  | .page leaf =>
    if leaf.marked type then (.page leaf.paddr, io)
    else if io.mmu.any (·.pageFaultOnAD) then (.throws (.trap type.pageFault vaddr), io)
    else (.page leaf.paddr, io.mark view leaf type)

/-- The memory interface with an entry of the translation cache. -/
def cache (io : Interface) (mode : PrivilegeLevel) (type : MemoryAccessType)
    (vaddr paddr : BitVec 64) :
    Interface :=
  { io with mmu := io.mmu.map fun mmu => { mmu with
      tlb := fun m t i => if m = mode ∧ t = type ∧ i = (vaddr >>> 12).setWidth 8 then
        ⟨paddr &&& 0xfffff000#64, vaddr >>> 12⟩ else mmu.tlb m t i } }

/-- A walk, and the entry of the translation cache that it leaves. -/
def walkedAndCached (io : Interface) (view : CoreView) (vaddr : BitVec 64)
    (type : MemoryAccessType) :
    Translation × Interface :=
  let mode := effectiveMode view type
  match walked io view vaddr type
      (lookup io.bus view vaddr type (mode = SupervisorMode) 2 (rootTable view)) with
  | (.page paddr, io') => (.page paddr, io'.cache mode type vaddr paddr)
  | r => r

/-- The translation of an address. -/
def translation (io : Interface) (view : CoreView) (vaddr : BitVec 64) (type : MemoryAccessType) :
    Translation × Interface :=
  match io.mmu with
  | none => (.page vaddr, io)
  | some mmu =>
    let mode := effectiveMode view type
    if view.satp.getLsbD 31 = false ∨ mode = MachineMode then (.page vaddr, io)
    else if mode ≠ UserMode ∧ mode ≠ SupervisorMode then (.throws (.abort .privilegeMode), io)
    else
      let x := mmu.tlb mode type ((vaddr >>> 12).setWidth 8)
      if x.vpn = vaddr >>> 12 then (.page (x.ppn ||| (vaddr &&& 0xfff#64)), io)
      else if mmu.connected = false then (.throws (.abort .pageTableMemory), io)
      else walkedAndCached io view vaddr type

/-! ## Repeated translation -/

theorem getLsbD_offsetMask (i : Nat) : (0xfff#64).getLsbD i = decide (i < 12) := by
  by_cases hi : i < 64
  · exact (by decide : ∀ i : Fin 64, (0xfff#64).getLsbD i = decide (i.val < 12)) ⟨i, hi⟩
  · rw [BitVec.getLsbD_of_ge _ _ (by omega)]
    exact (decide_eq_false (by omega)).symm

/-- The cache keeps the page of an address below 4 GiB. -/
theorem frame_eq_of_lt {paddr : BitVec 64} (hlow : paddr < 0x100000000#64) :
    paddr &&& 0xfffff000#64 = paddr &&& ~~~0xfff#64 := by
  have hnat : paddr.toNat < 2 ^ 32 := BitVec.lt_def.mp hlow
  have hmask : ∀ i : Fin 32, (0xfffff000#64).getLsbD i = (~~~0xfff#64).getLsbD i := by decide
  apply BitVec.eq_of_getLsbD_eq
  intro i hi
  rw [BitVec.getLsbD_and, BitVec.getLsbD_and]
  by_cases hi32 : i < 32
  · rw [hmask ⟨i, hi32⟩]
  · have hbit : paddr.getLsbD i = false :=
      Nat.testBit_lt_two_pow (hnat.trans_le (Nat.pow_le_pow_right (by omega) (by omega)))
    rw [hbit, Bool.false_and, Bool.false_and]

/-- The page of a physical address, with the offset of a virtual address. -/
theorem page_or_offset (page vaddr vaddr' : BitVec 64) :
    (((page <<< 12) ||| (vaddr &&& 0xfff#64)) &&& ~~~0xfff#64) ||| (vaddr' &&& 0xfff#64) =
      (page <<< 12) ||| (vaddr' &&& 0xfff#64) := by
  apply BitVec.eq_of_getLsbD_eq
  intro i hi
  simp only [BitVec.getLsbD_or, BitVec.getLsbD_and, BitVec.getLsbD_not, BitVec.getLsbD_shiftLeft,
    getLsbD_offsetMask, decide_eq_true hi, Bool.true_and]
  by_cases h : i < 12 <;> simp [h]

variable {bus : SimpleBus} {view : CoreView} {vaddr paddr addr : BitVec 64}
  {type : MemoryAccessType} {leaf : Leaf} {io io' : Interface} {found : Lookup} {mmu : Mmu}

theorem lookup_offset {sMode : Bool} {level : Nat} {table : BitVec 64}
    (h : lookup bus view vaddr type sMode level table = .page leaf) :
    (leaf.paddr &&& ~~~0xfff#64) ||| (vaddr &&& 0xfff#64) = leaf.paddr := by
  induction level generalizing table with
  | zero => cases h
  | succ level ih =>
    unfold lookup at h
    split at h
    · cases h
    · cases h
    · split_ifs at h
      · exact ih h
      · cases h
        exact page_or_offset _ _ _

/-- A walk that finds a page. -/
theorem walked_eq_page
    (h : walked io view vaddr type found = (.page paddr, io')) :
    ∃ leaf, found = .page leaf ∧ paddr = leaf.paddr ∧
      (leaf.marked type = true ∧ io' = io ∨ leaf.marked type = false ∧
        io.mmu.any (·.pageFaultOnAD) = false ∧ io' = io.mark view leaf type) := by
  cases found with
  | fault | error | device => cases h
  | page leaf =>
    rw [walked] at h
    split_ifs at h with hmarked hfault
    · cases h
      exact ⟨leaf, rfl, rfl, .inl ⟨hmarked, rfl⟩⟩
    · cases h
    · cases h
      exact ⟨leaf, rfl, rfl, .inr ⟨Bool.eq_false_of_not_eq_true hmarked,
        Bool.eq_false_of_not_eq_true hfault, rfl⟩⟩

/-- A walk that finds no page leaves everything alone. -/
theorem walked_of_not_page
    (h : ∀ paddr, (walked io view vaddr type found).1 ≠ .page paddr) :
    (walked io view vaddr type found).2 = io := by
  cases found with
  | fault | error | device => rfl
  | page leaf =>
    rw [walked] at h ⊢
    split_ifs at h ⊢
    · rfl
    · rfl
    · exact absurd rfl (h leaf.paddr)

/-- An access that is not translated. -/
theorem translation_of_not_translates (h : io.mmu = none ∨ ¬ Translates view type) :
    translation io view vaddr type = (.page vaddr, io) := by
  unfold translation
  cases hmmu : io.mmu with
  | none => rfl
  | some mmu =>
    have hnot := h.resolve_left (by rw [hmmu]; exact nofun)
    refine if_pos ?_
    by_cases hsatp : view.satp.getLsbD 31 = false
    · exact .inl hsatp
    · exact .inr (not_not.mp fun hmode => hnot ⟨Bool.eq_true_of_not_eq_false hsatp, hmode⟩)

/-- A page below 4 GiB that has been translated is in the cache. -/
theorem hit_of_translation (hmmu : io.mmu = some mmu) (htranslates : Translates view type)
    (h : translation io view vaddr type = (.page paddr, io')) (hlow : paddr < 0x100000000#64) :
    (effectiveMode view type = UserMode ∨ effectiveMode view type = SupervisorMode) ∧
      ∃ mmu', io'.mmu = some mmu' ∧
        (mmu'.tlb (effectiveMode view type) type ((vaddr >>> 12).setWidth 8)).vpn = vaddr >>> 12 ∧
        (mmu'.tlb (effectiveMode view type) type ((vaddr >>> 12).setWidth 8)).ppn |||
          (vaddr &&& 0xfff#64) = paddr := by
  unfold translation at h
  rw [hmmu] at h
  dsimp only at h
  split_ifs at h with hbare hmode hhit hconnected
  · obtain hsatp | hmachine := hbare
    · exact absurd (hsatp.symm.trans htranslates.1) Bool.false_ne_true
    · exact absurd hmachine htranslates.2
  · cases h
  · cases h
    exact ⟨by tauto, mmu, hmmu, hhit, rfl⟩
  · cases h
  · refine ⟨by tauto, ?_⟩
    unfold walkedAndCached at h
    dsimp only at h
    generalize hwalked : walked io view vaddr type _ = r at h
    obtain ⟨t, io₁⟩ := r
    cases t with
    | throws | device => cases h
    | page paddr' =>
      cases h
      obtain ⟨leaf, hfound, rfl, hio⟩ := walked_eq_page hwalked
      have hmmu' : io₁.mmu = some mmu := by
        obtain ⟨_, rfl⟩ | ⟨_, _, rfl⟩ := hio <;> exact hmmu
      refine ⟨_, by rw [cache, hmmu']; rfl, ?_⟩
      simp only [and_self, if_true, frame_eq_of_lt hlow, lookup_offset hfound]

/-- An address whose page is in the cache. -/
theorem translation_of_hit (hmmu : io.mmu = some mmu) (htranslates : Translates view type)
    (hlegal : effectiveMode view type = UserMode ∨ effectiveMode view type = SupervisorMode)
    (hhit : (mmu.tlb (effectiveMode view type) type ((vaddr >>> 12).setWidth 8)).vpn =
      vaddr >>> 12) :
    translation io view vaddr type = (.page ((mmu.tlb (effectiveMode view type) type
      ((vaddr >>> 12).setWidth 8)).ppn ||| (vaddr &&& 0xfff#64)), io) := by
  have hbare : ¬(view.satp.getLsbD 31 = false ∨ effectiveMode view type = MachineMode) := by
    rintro (hsatp | hmachine)
    · exact Bool.false_ne_true (hsatp.symm.trans htranslates.1)
    · exact htranslates.2 hmachine
  have hmode : ¬(effectiveMode view type ≠ UserMode ∧ effectiveMode view type ≠ SupervisorMode) :=
    fun hillegal => hlegal.elim hillegal.1 hillegal.2
  unfold translation
  rw [hmmu]
  dsimp only
  rw [if_neg hbare, if_neg hmode, if_pos hhit]

/-- An address of a page below 4 GiB that is translated again has the same translation, and nothing
changes. -/
theorem translation_again (h : translation io view vaddr type = (.page paddr, io'))
    (hlow : paddr < 0x100000000#64) : translation io' view vaddr type = (.page paddr, io') := by
  by_cases hnot : io.mmu = none ∨ ¬ Translates view type
  · have hsame : translation io view vaddr type = (.page vaddr, io) :=
      translation_of_not_translates hnot
    rw [h] at hsame
    cases hsame
    exact h
  · obtain ⟨hmmu, htranslates⟩ := not_or.mp hnot
    obtain ⟨mmu, hmmu⟩ := Option.ne_none_iff_exists'.mp hmmu
    obtain ⟨hlegal, mmu', hmmu', hhit, rfl⟩ :=
      hit_of_translation hmmu (not_not.mp htranslates) h hlow
    exact translation_of_hit hmmu' (not_not.mp htranslates) hlegal hhit

/-- The translation of an address sets the accessed or the dirty bit of its entry. -/
structure SetsBits (io : Interface) (view : CoreView) (vaddr : BitVec 64) (type : MemoryAccessType)
    (mmu : Mmu) (leaf : Leaf) : Prop where
  present : io.mmu = some mmu
  translates : Translates view type
  legal : effectiveMode view type = UserMode ∨ effectiveMode view type = SupervisorMode
  misses : (mmu.tlb (effectiveMode view type) type ((vaddr >>> 12).setWidth 8)).vpn ≠ vaddr >>> 12
  connected : mmu.connected = true
  updates : mmu.pageFaultOnAD = false
  found :
    lookup io.bus view vaddr type (effectiveMode view type = SupervisorMode) 2 (rootTable view) =
    .page leaf
  unmarked : leaf.marked type = false

theorem SetsBits.congr (hbus : io'.bus = io.bus)
    (hmmu : io'.mmu = io.mmu) (h : SetsBits io view vaddr type mmu leaf) :
    SetsBits io' view vaddr type mmu leaf := by
  refine ⟨hmmu.trans h.present, h.translates, h.legal, h.misses, h.connected,
    h.updates, ?_, h.unmarked⟩
  rw [hbus]
  exact h.found

/-- A translation sets a bit and gives up the lock, or it changes neither memory nor lock. -/
theorem translation_cases (h : translation io view vaddr type = (.page paddr, io')) :
    (∃ mmu leaf, SetsBits io view vaddr type mmu leaf ∧ paddr = leaf.paddr ∧
      io' = (io.mark view leaf type).cache (effectiveMode view type) type vaddr paddr) ∨
    (¬ ∃ mmu leaf, SetsBits io view vaddr type mmu leaf) ∧ io'.bus = io.bus ∧
      io'.busLock = io.busLock := by
  unfold translation at h
  cases hmmu : io.mmu with
  | none =>
    rw [hmmu] at h
    cases h
    refine .inr ⟨?_, rfl, rfl⟩
    rintro ⟨mmu, leaf, hsets⟩
    cases hmmu.symm.trans hsets.present
  | some mmu =>
    rw [hmmu] at h
    dsimp only at h
    split_ifs at h with hbare hmode hhit hconnected
    · cases h
      refine .inr ⟨?_, rfl, rfl⟩
      rintro ⟨_, _, hsets⟩
      obtain hbare | hmachine := hbare
      · exact Bool.false_ne_true (hbare.symm.trans hsets.translates.1)
      · exact hsets.translates.2 hmachine
    · cases h
    · cases h
      refine .inr ⟨?_, rfl, rfl⟩
      rintro ⟨mmu', _, hsets⟩
      obtain rfl := Option.some.inj (hmmu.symm.trans hsets.present)
      exact hsets.misses hhit
    · cases h
    · unfold walkedAndCached at h
      dsimp only at h
      generalize hwalked : walked io view vaddr type _ = r at h
      obtain ⟨t, io₁⟩ := r
      cases t with
      | throws | device => cases h
      | page paddr' =>
        cases h
        obtain ⟨leaf, hfound, rfl, ⟨hmarked, rfl⟩ | ⟨hunmarked, hfault, rfl⟩⟩ :=
          walked_eq_page hwalked
        · refine .inr ⟨?_, rfl, rfl⟩
          rintro ⟨_, leaf', hsets⟩
          cases hfound.symm.trans hsets.found
          exact Bool.false_ne_true (hsets.unmarked.symm.trans hmarked)
        · rw [hmmu] at hfault
          have hlegal : effectiveMode view type = UserMode ∨
              effectiveMode view type = SupervisorMode := by
            by_contra hillegal
            exact hmode (not_or.mp hillegal)
          have htranslates : Translates view type :=
            ⟨Bool.eq_true_of_not_eq_false fun h => hbare (.inl h), fun h => hbare (.inr h)⟩
          exact .inl ⟨mmu, leaf, ⟨hmmu, htranslates, hlegal, hhit,
            Bool.eq_true_of_not_eq_false hconnected, hfault, hfound, hunmarked⟩, rfl, rfl⟩

/-- A bit is set where an address has a translation. -/
theorem SetsBits.translation (h : SetsBits io view vaddr type mmu leaf) :
    translation io view vaddr type = (.page leaf.paddr,
      (io.mark view leaf type).cache (effectiveMode view type) type vaddr leaf.paddr) := by
  have hbare : ¬(view.satp.getLsbD 31 = false ∨ effectiveMode view type = MachineMode) := by
    rintro (hbare | hmachine)
    · exact Bool.false_ne_true (hbare.symm.trans h.translates.1)
    · exact h.translates.2 hmachine
  have hmode : ¬(effectiveMode view type ≠ UserMode ∧ effectiveMode view type ≠ SupervisorMode) :=
    fun hillegal => h.legal.elim hillegal.1 hillegal.2
  have hfault : io.mmu.any (·.pageFaultOnAD) = false := by
    rw [h.present]
    exact h.updates
  unfold Interface.translation
  rw [h.present]
  dsimp only
  rw [if_neg hbare, if_neg hmode, if_neg h.misses, if_neg (by rw [h.connected]; decide)]
  unfold walkedAndCached
  dsimp only
  rw [h.found, walked, if_neg (by rw [h.unmarked]; decide), if_neg (by rw [hfault]; decide)]

/-- A translation asks nothing of the core. -/
theorem requests_translation (io : Interface) (view : CoreView) (vaddr : BitVec 64)
    (type : MemoryAccessType) : (translation io view vaddr type).2.requests = io.requests := by
  have hwalked : ∀ found, (walked io view vaddr type found).2.requests = io.requests := by
    intro found
    unfold walked
    split
    · rfl
    · rfl
    · rfl
    · split_ifs <;> rfl
  unfold translation
  split
  · rfl
  · dsimp only
    split_ifs
    · rfl
    · rfl
    · rfl
    · rfl
    · unfold walkedAndCached
      dsimp only
      have hfound := hwalked (lookup io.bus view vaddr type
        (effectiveMode view type = SupervisorMode) 2 (rootTable view))
      generalize walked io view vaddr type _ = r at hfound ⊢
      obtain ⟨t, io'⟩ := r
      cases t <;> exact hfound

/-- A translation depends on the memory and the MMU only. -/
theorem translation_congr (hbus : io'.bus = io.bus) (hmmu : io'.mmu = io.mmu)
    (view : CoreView) (vaddr : BitVec 64) (type : MemoryAccessType) :
    (translation io' view vaddr type).1 = (translation io view vaddr type).1 ∧
      (translation io' view vaddr type).2.bus = (translation io view vaddr type).2.bus ∧
      (translation io' view vaddr type).2.mmu = (translation io view vaddr type).2.mmu := by
  have hwalked :
      ∀ found, (walked io' view vaddr type found).1 = (walked io view vaddr type found).1 ∧
      (walked io' view vaddr type found).2.bus = (walked io view vaddr type found).2.bus ∧
      (walked io' view vaddr type found).2.mmu = (walked io view vaddr type found).2.mmu := by
    intro found
    cases found with
    | fault | error | device => exact ⟨rfl, hbus, hmmu⟩
    | page leaf =>
      simp only [walked, hmmu]
      split_ifs
      · exact ⟨rfl, hbus, hmmu⟩
      · exact ⟨rfl, hbus, hmmu⟩
      · refine ⟨rfl, ?_, hmmu⟩
        simp only [mark, hbus]
  unfold translation
  rw [hmmu]
  cases hio : io.mmu with
  | none => exact ⟨rfl, hbus, hmmu⟩
  | some mmu =>
    dsimp only
    split_ifs
    · exact ⟨rfl, hbus, hmmu⟩
    · exact ⟨rfl, hbus, hmmu⟩
    · exact ⟨rfl, hbus, hmmu⟩
    · exact ⟨rfl, hbus, hmmu⟩
    · unfold walkedAndCached
      dsimp only
      rw [hbus]
      obtain ⟨hfst, hbus', hmmu'⟩ := hwalked (lookup io.bus view vaddr type
        (effectiveMode view type = SupervisorMode) 2 (rootTable view))
      generalize walked io' view vaddr type _ = r' at hfst hbus' hmmu' ⊢
      generalize walked io view vaddr type _ = r at hfst hbus' hmmu' ⊢
      obtain ⟨t, i⟩ := r
      obtain ⟨t', i'⟩ := r'
      dsimp only at hfst hbus' hmmu'
      subst hfst
      cases t' with
      | page paddr => exact ⟨rfl, hbus', by simp only [cache, hmmu']⟩
      | throws | device => exact ⟨rfl, hbus', hmmu'⟩

/-! ## What the MMU computes -/

/-- The same but for the log, and for a lock that another hart has given up. -/
structure Alike (hart : BitVec 32) (io₀ io : Interface) : Prop where
  bus : io.bus = io₀.bus
  mmu : io.mmu = io₀.mmu
  lock : io.busLock.isLocked hart = io₀.busLock.isLocked hart
  lrAddr : io.lrAddr = io₀.lrAddr
  requests : io.requests = io₀.requests

theorem Alike.refl (hart : BitVec 32) (io : Interface) : Alike hart io io :=
  ⟨rfl, rfl, rfl, rfl, rfl⟩

variable {io₀ : Interface} {hart : BitVec 32} {view : CoreView} {E : Exception → Interface → Prop}

theorem alike_note (event : Event) : Maintains (Alike hart io₀) E (note event) :=
  .modify fun _ h => ⟨h.bus, h.mmu, h.lock, h.lrAddr, h.requests⟩

theorem alike_noteExtension (extension : Option Concolic) :
    Maintains (Alike hart io₀) E (noteExtension extension) := by
  cases extension with
  | none => exact .keepPure
  | some value => exact alike_note _

theorem alike_waitForAccessRights :
    Maintains (Alike view.hartId io₀) E (waitForAccessRights view) :=
  .modify fun _ h =>
    ⟨h.bus, h.mmu, (BusLock.isLocked_waitForAccessRights _ _).trans h.lock, h.lrAddr, h.requests⟩

/-- The memory interface after a transaction. -/
def transported (io : Interface) (payload : Payload) : Interface :=
  { io with bus := (io.bus.transport payload).2 }

/-- A transaction where no device is. -/
theorem triple_transact {payload : Payload} (hplain : io₀.bus.Plain payload.address) (depth : Nat) :
    Triple (Alike hart io₀) (transact view (depth + 1) payload)
      (fun answer io => answer = (io₀.bus.transport payload).1.payload ∧
        answer.isResponseError = false ∧ Alike hart (io₀.transported payload) io)
      (fun e io => (io₀.bus.transport payload).1.payload.isResponseError = true ∧
        e = .trap (busFault payload.command) (io₀.bus.transport payload).1.payload.address ∧
        Alike hart (io₀.transported payload) io) := by
  have houtcome := hplain.outcome
  have hcommand := hplain.command
  generalize hanswer : (io₀.bus.transport payload).1.payload = answer at houtcome hcommand ⊢
  refine .bind (Q := fun outcome io => outcome = { payload := answer } ∧
    Alike hart (io₀.transported payload) io) ?_ fun outcome => .assume ?_
  · refine .bind (Q := fun outcome io => outcome = { payload := answer } ∧
      Alike hart (io₀.transported payload) io) (.modifyGet fun io h => ?_) fun outcome => .assume ?_
    · have hbus : io.bus.transport payload = io₀.bus.transport payload := by rw [h.bus]
      rw [hbus]
      exact ⟨houtcome, rfl, h.mmu, h.lock, h.lrAddr, h.requests⟩
    · rintro rfl
      exact .bind (alike_noteExtension _) fun _ =>
        .bind (triple_ensure (fun _ h _ => h) nofun) fun _ =>
        .pure fun _ h => ⟨rfl, h⟩
  · rintro rfl
    refine .bind (Q := fun _ => Alike hart (io₀.transported payload)) .keepPure fun _ =>
      .ite (fun herror => ?_) fun hok => .pure fun _ h => ⟨rfl, Bool.eq_false_of_not_eq_true hok, h⟩
    dsimp only
    rw [hcommand]
    cases payload.command <;> exact .throw fun _ h => ⟨herror, rfl, h⟩

theorem transported_of_read {payload : Payload} (hplain : io₀.bus.Plain payload.address)
    (hfresh : payload.isResponseError = false) (hread : payload.command = .read) :
    io₀.transported payload = io₀ := by
  rw [transported, hplain.unchanged hfresh (.inl hread)]

theorem plain_of_readEntry (h : readEntry bus addr ≠ .device) :
    bus.Plain addr := by
  intro port d hfind
  rw [readEntry, hfind] at h
  exact h rfl

theorem readEntry_of_plain (h : bus.Plain addr) :
    readEntry bus addr =
      if (bus.transport (entryRead addr)).1.payload.isResponseError then
        .error (bus.transport (entryRead addr)).1.payload.address
      else .word ((wordOfBytes (bus.transport (entryRead addr)).1.payload.data).setWidth 64) := by
  unfold readEntry
  cases hfind : bus.find addr with
  | none => rfl
  | some p =>
    obtain ⟨port, target⟩ := p
    cases target with
    | memory m => rfl
    | device d => exact absurd hfind (h port d)

/-- An entry is read. -/
theorem triple_concreteLoadData (hplain : io₀.bus.Plain addr) (depth : Nat) :
    Triple (Alike view.hartId io₀) (concreteLoadData (transact view (depth + 1)) view addr)
      (fun word io => readEntry io₀.bus addr = .word (word.setWidth 64) ∧ Alike view.hartId io₀ io)
      (fun e io => (∃ local', readEntry io₀.bus addr = .error local' ∧
        e = .trap .EXC_LOAD_PAGE_FAULT local') ∧ Alike view.hartId io₀ io) := by
  have hentry := readEntry_of_plain hplain
  have hsame : io₀.transported (entryRead addr) = io₀ := transported_of_read hplain rfl rfl
  refine .bind alike_waitForAccessRights fun _ => ?_
  refine .bind (Q := fun answer io => readEntry io₀.bus addr =
    .word ((wordOfBytes answer.data).setWidth 64) ∧ Alike view.hartId io₀ io)
    ((triple_transact (show io₀.bus.Plain (entryRead addr).address from hplain) depth).conseq
      (fun _ h => h) ?_ ?_)
    fun answer => .assume fun hword => .bind (alike_noteExtension _) fun _ =>
      .pure fun _ h => ⟨hword, h⟩
  · rintro _ io ⟨rfl, hok, h⟩
    rw [hok] at hentry
    rw [hsame] at h
    exact ⟨hentry, h⟩
  · rintro _ io ⟨herror, rfl, h⟩
    rw [herror] at hentry
    rw [hsame] at h
    exact ⟨⟨_, hentry, rfl⟩, h⟩

/-- An entry that could be read can be written. -/
theorem write_of_readEntry {pte : BitVec 64}
    (h : readEntry bus addr = .word pte) (value : BitVec 32) :
    (bus.transport (entryWrite addr value)).1.payload.isResponseError = false := by
  have hplain : bus.Plain addr := plain_of_readEntry fun hdevice => nomatch hdevice.symm.trans h
  rw [readEntry_of_plain hplain] at h
  split at h
  · cases h
  next hok =>
  cases hfind : bus.find addr with
  | none =>
    rw [SimpleBus.transport_of_find_eq_none hfind] at hok
    exact absurd rfl hok
  | some p =>
    obtain ⟨port, target⟩ := p
    rw [SimpleBus.transport_of_find hfind] at hok
    rw [SimpleBus.transport_of_find hfind]
    cases target with
    | device d => exact absurd hfind (hplain port d)
    | memory m =>
      change ¬ (m.transport ((entryRead addr).behind port)).1.isResponseError = true at hok
      change (m.transport ((entryWrite addr value).behind port)).1.isResponseError = false
      by_cases hfits : ((entryRead addr).behind port).Fits m.size
      · rw [show m.transport ((entryWrite addr value).behind port) = _ from
          SymbolicMemory.transport_of_write hfits rfl]
        rfl
      · rw [SymbolicMemory.transport_of_not_fits hfits] at hok
        exact absurd rfl hok

/-- An entry is updated. -/
theorem triple_concreteStoreData (type : MemoryAccessType)
    (h : readEntry io₀.bus leaf.entry = .word leaf.pte) (depth : Nat) :
    Triple (Alike view.hartId io₀) (concreteStoreData (transact view (depth + 1)) view
        leaf.entry ((leaf.pte ||| accessBits type).setWidth 32))
      (fun _ => Alike view.hartId (io₀.mark view leaf type)) (fun _ _ => False) := by
  have hplain : io₀.bus.Plain leaf.entry := plain_of_readEntry fun hdevice => by
    rw [hdevice] at h
    cases h
  refine .bind alike_waitForAccessRights fun _ => ?_
  refine .bind (Q := fun _ => Alike view.hartId (io₀.transported
    (entryWrite leaf.entry ((leaf.pte ||| accessBits type).setWidth 32))))
    ((triple_transact hplain depth).conseq (fun _ h => h)
      (fun _ _ h => h.2.2) fun _ _ herror => ?_) fun _ => .modify fun io hio => ?_
  · exact absurd (herror.1.symm.trans (write_of_readEntry h _)) nofun
  · exact ⟨hio.bus, hio.mmu, (BusLock.isLocked_unlock _ _).trans (BusLock.isLocked_unlock _ _).symm,
      hio.lrAddr, hio.requests⟩

/-- What is returned for the result of a walk. -/
def Translation.ofWalk (vaddr : BitVec 64) (type : MemoryAccessType) :
    Option (BitVec 64) → Translation
  | some paddr => .page paddr
  | none => .throws (.trap type.pageFault vaddr)

theorem triple_walkLevels (hconnected : io₀.mmu.any (·.connected) = true) (vaddr : BitVec 64)
    (type : MemoryAccessType) (sMode : Bool) (depth level : Nat) (table : BitVec 64)
    (hmemory : lookup io₀.bus view vaddr type sMode level table ≠ .device) :
    Triple (Alike view.hartId io₀)
      (walkLevels (transact view (depth + 1)) view vaddr type sMode level table)
      (fun r io => (walked io₀ view vaddr type
          (lookup io₀.bus view vaddr type sMode level table)).1 = .ofWalk vaddr type r ∧
        Alike view.hartId (walked io₀ view vaddr type
          (lookup io₀.bus view vaddr type sMode level table)).2 io)
      (fun e io => (walked io₀ view vaddr type
          (lookup io₀.bus view vaddr type sMode level table)).1 = .throws e ∧
        Alike view.hartId (walked io₀ view vaddr type
          (lookup io₀.bus view vaddr type sMode level table)).2 io) := by
  induction level generalizing table with
  | zero => exact .pure fun _ h => ⟨rfl, h⟩
  | succ level ih =>
    unfold walkLevels
    unfold lookup at hmemory ⊢
    have hplain : io₀.bus.Plain (entryAddress vaddr table level) :=
      plain_of_readEntry fun hdevice => by
        rw [hdevice] at hmemory
        exact hmemory rfl
    refine .getBind fun io hio => ?_
    rw [hio.mmu, hconnected]
    refine .bind (Q := fun _ => Alike view.hartId io₀) (.pure fun t ht => ht ▸ hio) fun _ => ?_
    refine .bind (Q := fun word io => readEntry io₀.bus (entryAddress vaddr table level) =
      .word (word.setWidth 64) ∧ Alike view.hartId io₀ io)
      ((triple_concreteLoadData hplain depth).exc ?_)
      fun word => .assume fun hword => ?_
    · rintro _ io ⟨⟨_, herror, rfl⟩, h⟩
      rw [herror]
      exact ⟨rfl, h⟩
    · rw [hword] at hmemory ⊢
      dsimp only at hmemory ⊢
      generalize word.setWidth 64 = pte at hword hmemory ⊢
      refine .ite (fun hinvalid => ?_) fun hvalid => ?_
      · rw [if_pos hinvalid]
        exact .pure fun _ h => ⟨rfl, h⟩
      rw [if_neg hvalid] at hmemory ⊢
      refine .ite (fun hpointer => ?_) fun hleaf => ?_
      · rw [if_pos hpointer] at hmemory ⊢
        exact ih _ hmemory
      rw [if_neg hleaf]
      refine .ite (fun hrefuses => ?_) fun hpermits => ?_
      · rw [if_pos hrefuses]
        exact .pure fun _ h => ⟨rfl, h⟩
      rw [if_neg hpermits]
      refine .ite (fun (hmisaligned : pte >>> 10 &&& pageMask level ≠ 0#64) => ?_)
        fun (haligned : ¬ pte >>> 10 &&& pageMask level ≠ 0#64) => ?_
      · rw [if_pos hmisaligned]
        exact .pure fun _ h => ⟨rfl, h⟩
      rw [if_neg haligned]
      let leaf : Leaf := ⟨physicalAddress vaddr pte level, entryAddress vaddr table level, pte⟩
      unfold walked
      dsimp only
      refine .ite (fun hmarked => ?_) fun hunmarked => ?_
      · have hmarked' : leaf.marked type = true := decide_eq_true hmarked
        rw [if_pos hmarked']
        exact .pure fun _ h => ⟨rfl, h⟩
      have hunmarked' : ¬ leaf.marked type = true := fun h => hunmarked (of_decide_eq_true h)
      rw [if_neg hunmarked']
      refine .getBind fun io hio => ?_
      rw [hio.mmu]
      refine .ite (fun hfault => ?_) fun hupdate => ?_
      · rw [if_pos hfault]
        exact .pure fun t ht => ⟨rfl, ht ▸ hio⟩
      · rw [if_neg hupdate]
        have hentry : readEntry io₀.bus leaf.entry = .word leaf.pte := hword
        refine .bind ((triple_concreteStoreData type hentry depth).conseq
          (fun t ht => ht ▸ hio) (fun _ _ h => h) fun _ _ h => h.elim) fun _ => .pure
            fun _ h => ⟨rfl, h⟩

/-- A walk from the root of the page table. -/
theorem triple_walk (hconnected : io₀.mmu.any (·.connected) = true) (vaddr : BitVec 64)
    (type : MemoryAccessType) (mode : PrivilegeLevel) (depth : Nat)
    (hfound : lookup io₀.bus view vaddr type (mode = SupervisorMode) 2 (rootTable view) = found)
    (hmemory : found ≠ .device) :
    Triple (Alike view.hartId io₀) (walk (transact view (depth + 1)) view vaddr type mode)
      (fun paddr io => (walked io₀ view vaddr type found).1 = .page paddr ∧
        Alike view.hartId (walked io₀ view vaddr type found).2 io)
      (fun e io => (walked io₀ view vaddr type found).1 = .throws e ∧
        Alike view.hartId (walked io₀ view vaddr type found).2 io) := by
  subst hfound
  refine .bind (triple_walkLevels hconnected vaddr type _ depth 2 _ hmemory) fun r => ?_
  cases r with
  | some paddr => exact .pure fun _ h => h
  | none => cases type <;> exact .throw fun _ h => h

/-- An MMU without a memory interface does not walk. -/
theorem walk_of_not_connected (hconnected : io₀.mmu.any (·.connected) = false) (vaddr : BitVec 64)
    (type : MemoryAccessType) (mode : PrivilegeLevel) (transact : Transact) :
    Triple (Alike view.hartId io₀) (walk transact view vaddr type mode) (fun _ _ => False)
      (fun e io => e = .abort .pageTableMemory ∧ Alike view.hartId io₀ io) := by
  refine .bind (Q := fun _ _ => False) ?_ fun _ _ h => h.elim
  unfold walkLevels
  refine .getBind fun io hio => ?_
  rw [hio.mmu, hconnected]
  exact .bind (Q := fun _ _ => False) (.throw fun t ht => ⟨rfl, ht ▸ hio⟩) fun _ _ h => h.elim

/-- The MMU computes the translation. -/
theorem triple_v2p (vaddr : BitVec 64) (type : MemoryAccessType) (depth : Nat)
    (hmemory : (translation io₀ view vaddr type).1 ≠ .device) :
    Triple (Alike view.hartId io₀) (v2p (transact view (depth + 1)) view vaddr type)
      (fun paddr io => (translation io₀ view vaddr type).1 = .page paddr ∧
        Alike view.hartId (translation io₀ view vaddr type).2 io)
      (fun e io => (translation io₀ view vaddr type).1 = .throws e ∧
        Alike view.hartId (translation io₀ view vaddr type).2 io) := by
  unfold translation at hmemory ⊢
  refine .getBind fun io hio => ?_
  rw [hio.mmu]
  cases hmmu : io₀.mmu with
  | none => exact .pure fun t ht => ⟨rfl, ht ▸ hio⟩
  | some mmu =>
    refine Triple.conseq (P := Alike view.hartId io₀) ?_ (fun t ht => ht ▸ hio)
      (fun _ _ h => h) fun _ _ h => h
    rw [hmmu] at hmemory
    dsimp only at hmemory ⊢
    unfold translateVirtualToPhysicalAddr
    refine .ite (fun hbare => ?_) fun hpaging => ?_
    · rw [if_pos (.inl hbare)]
      exact .pure fun _ h => ⟨rfl, h⟩
    dsimp only
    refine .ite (fun hmachine => ?_) fun htranslates => ?_
    · rw [if_pos (.inr hmachine)]
      exact .pure fun _ h => ⟨rfl, h⟩
    have hpages : ¬(view.satp.getLsbD 31 = false ∨ effectiveMode view type = MachineMode) := by
      rintro (h | h)
      · exact hpaging h
      · exact htranslates h
    rw [if_neg hpages] at hmemory ⊢
    by_cases hmode : effectiveMode view type ≠ UserMode ∧ effectiveMode view type ≠ SupervisorMode
    · rw [if_pos hmode]
      refine .bind (Q := fun _ _ => False) (triple_ensure ?_ fun _ h _ => ⟨rfl, h⟩)
        fun _ _ h => h.elim
      intro _ _ hlegal
      simp [hmode.1, hmode.2] at hlegal
    rw [if_neg hmode] at hmemory ⊢
    refine .bind (Q := fun _ => Alike view.hartId io₀) (triple_ensure (fun _ h _ => h) ?_)
      fun _ => ?_
    · intro _ _ hillegal
      exact absurd (by simpa using hillegal) hmode
    refine .ite (fun hhit => ?_) fun hmiss => ?_
    · rw [if_pos hhit]
      exact .pure fun _ h => ⟨rfl, h⟩
    rw [if_neg hmiss] at hmemory ⊢
    cases hconnected : mmu.connected with
    | false =>
      refine .bind (Q := fun _ _ => False) ((walk_of_not_connected ?_ vaddr type _ _).conseq
        (fun _ h => h) (fun _ _ h => h.elim) ?_) fun _ _ h => h.elim
      · rw [hmmu]
        exact hconnected
      · rintro _ io ⟨rfl, h⟩
        exact ⟨rfl, h⟩
    | true =>
      rw [hconnected] at hmemory
      change (walkedAndCached io₀ view vaddr type).1 ≠ .device at hmemory
      change Triple _ _ (fun paddr io => (walkedAndCached io₀ view vaddr type).1 = .page paddr ∧
        Alike view.hartId (walkedAndCached io₀ view vaddr type).2 io) (fun e io =>
        (walkedAndCached io₀ view vaddr type).1 = .throws e ∧
        Alike view.hartId (walkedAndCached io₀ view vaddr type).2 io)
      unfold walkedAndCached at hmemory ⊢
      dsimp only at hmemory ⊢
      generalize hfound : lookup io₀.bus view vaddr type
        (effectiveMode view type = SupervisorMode) 2 (rootTable view) = found at hmemory ⊢
      have hany : io₀.mmu.any (·.connected) = true := by
        rw [hmmu]
        exact hconnected
      have hfound' : found ≠ .device := by
        rintro rfl
        exact hmemory rfl
      refine .bind ((triple_walk hany vaddr type _ depth hfound hfound').exc ?_) fun paddr =>
        .assume fun hpage => ?_
      · rintro e io ⟨hthrows, h⟩
        generalize walked io₀ view vaddr type found = r at hthrows h
        obtain ⟨t, io'⟩ := r
        dsimp only at hthrows
        subst hthrows
        exact ⟨rfl, h⟩
      · generalize walked io₀ view vaddr type found = r at hpage ⊢
        obtain ⟨t, io'⟩ := r
        dsimp only at hpage
        subst hpage
        refine .bind (Q := fun _ => Alike view.hartId
          (io'.cache (effectiveMode view type) type vaddr paddr)) (.modify fun io h => ?_)
          fun _ => .pure fun _ h => ⟨rfl, h⟩
        refine ⟨h.bus, ?_, h.lock, h.lrAddr, h.requests⟩
        rw [h.mmu]
        rfl

/-! ## Loads and stores -/

/-- The transaction of a load. -/
def loadPayload (paddr : BitVec 64) (numBytes : Nat) : Payload :=
  { command := .read, address := paddr, data := List.replicate numBytes 0#8, length := numBytes }

/-- The transaction of a store. -/
def storePayload {w : Nat} (paddr : BitVec 64) (data : ConcolicValue w) (numBytes : Nat) :
    Payload :=
  { command := .write, address := paddr, data := data.toBytes numBytes, length := numBytes,
    extension := some ⟨w, data⟩ }

/-- The value of a transaction that has read. -/
def loadedValue (answer : Payload) : Concolic :=
  answer.extension.getD ⟨_, ConcolicValue.ofBuffer answer.data⟩

/-- A load that stays inside a memory succeeds. -/
theorem isResponseError_of_memory {port : PortMapping}
    {m : SymbolicMemory} {numBytes : Nat} (hfind : bus.find paddr = some (port, .memory m))
    (hfits : ((loadPayload paddr numBytes).behind port).Fits m.size) :
    (bus.transport (loadPayload paddr numBytes)).1.payload.isResponseError = false := by
  rw [SimpleBus.transport_of_find hfind]
  change (m.transport ((loadPayload paddr numBytes).behind port)).1.isResponseError = false
  rw [SymbolicMemory.transport_of_read hfits rfl]
  rfl

/-- What a load reads from a memory. -/
theorem loadedValue_of_memory {port : PortMapping}
    {m : SymbolicMemory} {numBytes : Nat} (hfind : bus.find paddr = some (port, .memory m))
    (hfits : ((loadPayload paddr numBytes).behind port).Fits m.size) :
    loadedValue (bus.transport (loadPayload paddr numBytes)).1.payload =
      ⟨_, m.memory.load ((port.globalToLocal paddr).setWidth 32) numBytes⟩ := by
  rw [SimpleBus.transport_of_find hfind]
  change loadedValue (m.transport ((loadPayload paddr numBytes).behind port)).1 = _
  rw [SymbolicMemory.transport_of_read hfits rfl]
  rfl

section

variable (addr : ConcolicValue 32) {t : Translation} {io₁ : Interface}
  (htranslation : translation io₀ view (addr.concrete.setWidth 64) .STORE = (t, io₁))
  (hmemory : t ≠ .device) (hplain : ∀ paddr, t = .page paddr → io₁.bus.Plain paddr)
include htranslation hmemory hplain

/-- A load where no device is. -/
theorem triple_symbolicLoadData (numBytes depth : Nat) :
    Triple (Alike view.hartId io₀)
      (symbolicLoadData (transact view (depth + 1)) view addr numBytes)
      (fun r io => (∃ paddr, t = .page paddr ∧
        (io₁.bus.transport (loadPayload paddr numBytes)).1.payload.isResponseError = false ∧
        r = loadedValue (io₁.bus.transport (loadPayload paddr numBytes)).1.payload) ∧
        Alike view.hartId io₁ io)
      (fun e io => (t = .throws e ∨ ∃ paddr, t = .page paddr ∧
        (io₁.bus.transport (loadPayload paddr numBytes)).1.payload.isResponseError = true ∧
        e = .trap .EXC_LOAD_PAGE_FAULT
          (io₁.bus.transport (loadPayload paddr numBytes)).1.payload.address) ∧
        Alike view.hartId io₁ io) := by
  have hv2p := triple_v2p (addr.concrete.setWidth 64) .STORE depth
    (by rwa [htranslation])
  rw [htranslation] at hv2p
  refine .bind alike_waitForAccessRights fun _ => .bind (Q := fun caddr io =>
    caddr = addr.concrete ∧ Alike view.hartId io₀ io) ?_ fun caddr => .assume ?_
  · exact .bind (alike_note _) fun _ => .pure fun _ h => ⟨rfl, h⟩
  rintro rfl
  refine .bind (alike_note _) fun _ => .bind (hv2p.exc fun _ _ h => ⟨.inl h.1, h.2⟩) fun paddr =>
    .assume fun hpage => ?_
  have hsame : io₁.transported (loadPayload paddr numBytes) = io₁ :=
    transported_of_read (hplain paddr hpage) rfl rfl
  refine .bind ((triple_transact (hplain paddr hpage)
    depth).exc ?_) fun answer => ?_
  · rintro _ io ⟨herror, rfl, h⟩
    exact ⟨.inr ⟨paddr, hpage, herror, rfl⟩, hsame ▸ h⟩
  · refine .pure fun io h => ?_
    obtain ⟨rfl, hok, h⟩ := h
    exact ⟨⟨paddr, hpage, hok, rfl⟩, hsame ▸ h⟩

/-- A store where no device is. -/
theorem triple_symbolicStoreData {w : Nat} (data : ConcolicValue w) (numBytes depth : Nat) :
    Triple (Alike view.hartId io₀)
      (symbolicStoreData (transact view (depth + 1)) view addr data numBytes)
      (fun _ io => ∃ paddr, t = .page paddr ∧
        (io₁.bus.transport (storePayload paddr data numBytes)).1.payload.isResponseError = false ∧
        Alike view.hartId { io₁ with
          bus := (io₁.bus.transport (storePayload paddr data numBytes)).2
          busLock := io₁.busLock.unlock view.hartId } io)
      (fun e io => (t = .throws e ∨ ∃ paddr, t = .page paddr ∧
        (io₁.bus.transport (storePayload paddr data numBytes)).1.payload.isResponseError = true ∧
        e = .trap .EXC_STORE_AMO_PAGE_FAULT
          (io₁.bus.transport (storePayload paddr data numBytes)).1.payload.address) ∧
        Alike view.hartId io₁ io) := by
  have hv2p := triple_v2p (addr.concrete.setWidth 64) .STORE depth
    (by rwa [htranslation])
  rw [htranslation] at hv2p
  refine .bind alike_waitForAccessRights fun _ => .bind (Q := fun caddr io =>
    caddr = addr.concrete ∧ Alike view.hartId io₀ io) ?_ fun caddr => .assume ?_
  · exact .bind (alike_note _) fun _ => .pure fun _ h => ⟨rfl, h⟩
  rintro rfl
  refine .bind (alike_note _) fun _ => .bind (hv2p.exc fun _ _ h => ⟨.inl h.1, h.2⟩) fun paddr =>
    .assume fun hpage => ?_
  refine .bind ((triple_transact (show io₁.bus.Plain (storePayload paddr data numBytes).address from
    hplain paddr hpage) depth).exc ?_) fun answer => ?_
  · rintro _ io ⟨herror, rfl, h⟩
    have hsame : io₁.transported (storePayload paddr data numBytes) = io₁ := by
      rw [transported, (hplain paddr hpage).unchanged rfl (.inr herror)]
    exact ⟨.inr ⟨paddr, hpage, herror, rfl⟩, hsame ▸ h⟩
  · refine .modify fun io h => ?_
    obtain ⟨rfl, hok, h⟩ := h
    exact ⟨paddr, hpage, hok, h.bus, h.mmu,
      (BusLock.isLocked_unlock _ _).trans (BusLock.isLocked_unlock _ _).symm, h.lrAddr, h.requests⟩

end

end Interface

end SpsVp.Rv32
