import SpsVp.Rv32.Iss
import SpsVp.Rv32.Sv32

/-!
# The translation cache

The cache of the MMU is looked up by mode, kind of access and page, so an entry of it is right only
as long as the page tables and the status bits that its walk has read stay as they were. `Coherent`
says that every entry is what a walk would give now. Translations keep it, although they update page
tables, and so does every change of the status that leaves `SUM` and `MXR` set
(`transparent_of_run`). -/

namespace SpsVp.Rv32

open Lib Clover Klee Platform BitVec SymbolicMemory

namespace Interface

/-! ## Entries that are found -/

/-- The address of an entry is aligned. -/
theorem entryAddress_aligned (vaddr : BitVec 64) {table : BitVec 64} (level : Nat)
    (h : table.toNat % 4 = 0) : (entryAddress vaddr table level).toNat % 4 = 0 := by
  have hfour : (4 : BitVec 64).toNat = 4 := rfl
  rw [entryAddress, toNat_add, toNat_mul, hfour]
  omega

theorem shiftLeft_aligned (x : BitVec 64) : (x <<< 12).toNat % 4 = 0 := by
  rw [toNat_shiftLeft, Nat.shiftLeft_eq]
  omega

/-- A walk stops at an entry with a page fault. -/
def isInvalid (pte : BitVec 64) : Bool :=
  !pteFlag pte PTE_V || (!pteFlag pte PTE_R && pteFlag pte PTE_W)

/-- A walk goes on in the table that an entry points to. -/
def isTable (pte : BitVec 64) : Bool := !pteFlag pte PTE_R && !pteFlag pte PTE_X

/-- A lookup comes to an entry. -/
inductive Finds (bus : SimpleBus) (view : CoreView) (vaddr : BitVec 64) (type : MemoryAccessType)
    (sMode : Bool) : Nat → BitVec 64 → Leaf → Prop where
  | table {level : Nat} {table pte : BitVec 64} {leaf : Leaf}
      (hread : readEntry bus (entryAddress vaddr table level) = .word pte)
      (hvalid : isInvalid pte = false) (htable : isTable pte = true)
      (h : Finds bus view vaddr type sMode level (nextTable pte) leaf) :
      Finds bus view vaddr type sMode (level + 1) table leaf
  | leaf {level : Nat} {table pte : BitVec 64}
      (hread : readEntry bus (entryAddress vaddr table level) = .word pte)
      (hvalid : isInvalid pte = false) (hleaf : isTable pte = false)
      (hpermits : refuses view pte type sMode = false)
      (haligned : (pte >>> 10) &&& pageMask level = 0#64) :
      Finds bus view vaddr type sMode (level + 1) table
        ⟨physicalAddress vaddr pte level, entryAddress vaddr table level, pte⟩

variable {bus bus' : SimpleBus} {view view' : CoreView} {vaddr vaddr' : BitVec 64}
  {type : MemoryAccessType} {sMode : Bool} {level : Nat} {table : BitVec 64} {leaf : Leaf}

theorem finds_iff : lookup bus view vaddr type sMode level table = .page leaf ↔
    Finds bus view vaddr type sMode level table leaf := by
  constructor
  · intro h
    induction level generalizing table with
    | zero => cases h
    | succ level ih =>
      unfold lookup at h
      split at h
      · cases h
      · cases h
      next pte hread =>
      split_ifs at h with hinvalid htable hrefuses hmisaligned
      · exact .table hread (Bool.eq_false_of_not_eq_true hinvalid) htable (ih h)
      · cases h
        exact .leaf hread (Bool.eq_false_of_not_eq_true hinvalid)
          (Bool.eq_false_of_not_eq_true htable) (Bool.eq_false_of_not_eq_true hrefuses)
          (not_not.mp hmisaligned)
  · intro h
    induction h with
    | table hread hvalid htable _ ih =>
      rw [lookup, hread]
      exact (if_neg (ne_of_eq_of_ne hvalid Bool.false_ne_true)).trans ((if_pos htable).trans ih)
    | leaf hread hvalid hleaf hpermits haligned =>
      rw [lookup, hread]
      exact (if_neg (ne_of_eq_of_ne hvalid Bool.false_ne_true)).trans
        ((if_neg (ne_of_eq_of_ne hleaf Bool.false_ne_true)).trans
          ((if_neg (ne_of_eq_of_ne hpermits Bool.false_ne_true)).trans
            (if_neg (not_not_intro haligned))))

/-- Another address of the page. -/
theorem Finds.of_same_page (h : Finds bus view vaddr type sMode level table leaf)
    (hpage : vaddr' >>> 12 = vaddr >>> 12) :
    Finds bus view vaddr' type sMode level table
      { leaf with paddr := (leaf.paddr &&& ~~~0xfff#64) ||| (vaddr' &&& 0xfff#64) } := by
  have hentry :
      ∀ table level, entryAddress vaddr table level = entryAddress vaddr' table level := by
    intro table level
    rw [entryAddress, entryAddress, shiftRight_add, shiftRight_add, hpage]
  induction h with
  | table hread hvalid htable _ ih =>
    rw [hentry] at hread
    exact .table hread hvalid htable ih
  | leaf hread hvalid hleaf hpermits haligned =>
    rw [hentry] at hread ⊢
    rw [physicalAddress, page_or_offset, ← hpage]
    exact .leaf hread hvalid hleaf hpermits haligned

/-- A status that refuses no more. -/
theorem Finds.of_status (h : Finds bus view vaddr type sMode level table leaf)
    (hsum : view.mstatus.getLsbD 18 = true → view'.mstatus.getLsbD 18 = true)
    (hmxr : view.mstatus.getLsbD 19 = true → view'.mstatus.getLsbD 19 = true) :
    Finds bus view' vaddr type sMode level table leaf := by
  have hpermitted :
      ∀ pte, refuses view pte type sMode = false → refuses view' pte type sMode = false := by
    intro pte
    unfold refuses
    revert hsum hmxr
    generalize view.mstatus.getLsbD 18 = sum
    generalize view'.mstatus.getLsbD 18 = sum'
    generalize view.mstatus.getLsbD 19 = mxr
    generalize view'.mstatus.getLsbD 19 = mxr'
    cases sum <;> cases sum' <;> cases mxr <;> cases mxr' <;> simp <;> grind
  induction h with
  | table hread hvalid htable _ ih => exact .table hread hvalid htable ih
  | leaf hread hvalid hleaf hpermits haligned =>
    exact .leaf hread hvalid hleaf (hpermitted _ hpermits) haligned

/-! ## Entries that are updated -/

/-- The word of a memory that an entry is read from. -/
def entryIn (m : SymbolicMemory) (addr : BitVec 32) : BitVec 64 :=
  (wordOfBytes (List.ofFn fun off : Fin 4 => m.flat none (addr + BitVec.ofNat 32 off))).setWidth 64

theorem getLsbD_entryIn (m : SymbolicMemory) (addr : BitVec 32) {off k : Nat} (hoff : off < 4)
    (hk : k < 8) :
    (entryIn m addr).getLsbD (8 * off + k) =
      (m.flat none (addr + BitVec.ofNat 32 off)).getLsbD k := by
  have hbyte := extract_wordOfBytes
    (List.ofFn fun off : Fin 4 => m.flat none (addr + BitVec.ofNat 32 off)) hoff
  rw [List.getD_eq_getElem?_getD, List.getElem?_ofFn, dif_pos hoff, Option.getD_some] at hbyte
  rw [← hbyte, getLsbD_extractLsb', entryIn, getLsbD_setWidth, decide_eq_true hk,
    decide_eq_true (show 8 * off + k < 64 by omega)]

variable {addr pte pte' : BitVec 64} {io : Interface}

/-- An entry in a memory. -/
theorem readEntry_of_memory {port : PortMapping} {m : SymbolicMemory}
    (hfind : bus.find addr = some (port, .memory m))
    (hfits : ((entryRead addr).behind port).Fits m.size) :
    readEntry bus addr = .word (entryIn m ((port.globalToLocal addr).setWidth 32)) := by
  have hread := transport_of_read hfits rfl
  rw [readEntry, hfind]
  dsimp only
  rw [SimpleBus.transport_of_find hfind]
  change (if (m.transport ((entryRead addr).behind port)).1.isResponseError then Entry.error _
    else .word ((wordOfBytes (m.transport ((entryRead addr).behind port)).1.data).setWidth 64)) = _
  rw [hread, data_readData]
  rfl

theorem memory_of_readEntry (h : readEntry bus addr = .word pte) :
    ∃ port m, bus.find addr = some (port, .memory m) ∧
      ((entryRead addr).behind port).Fits m.size ∧
      pte = entryIn m ((port.globalToLocal addr).setWidth 32) := by
  have hplain : bus.Plain addr := plain_of_readEntry fun hdevice => nomatch hdevice.symm.trans h
  have hok : (bus.transport (entryRead addr)).1.payload.isResponseError = false := by
    refine Bool.eq_false_of_not_eq_true fun herror => ?_
    rw [readEntry_of_plain hplain, if_pos herror] at h
    cases h
  obtain ⟨port, m, hfind, hfits⟩ := hplain.memory hok
  exact ⟨port, m, hfind, hfits, Entry.word.inj (h.symm.trans (readEntry_of_memory hfind hfits))⟩

section

variable (m : SymbolicMemory) (entry : BitVec 64) (value : BitVec 32)

/-- The entry that was written. -/
theorem entryIn_writeData : entryIn (m.writeData (entryWrite entry value)) (entry.setWidth 32) =
    value.setWidth 64 := by
  apply eq_of_getLsbD_eq
  intro i _
  by_cases h32 : i < 32
  · obtain ⟨off, k, hoff, hk, rfl⟩ : ∃ off k, off < 4 ∧ k < 8 ∧ i = 8 * off + k :=
      ⟨i / 8, i % 8, by omega, by omega, by omega⟩
    have hlength : (entryWrite entry value).length ≤ 2 ^ 32 := show 4 ≤ 2 ^ 32 by decide
    have hbyte := flat_writeData_addressOf none m hlength hoff
    have hvalue : (entryWrite entry value).byte none off = value.extractLsb' (8 * off) 8 :=
      getD_bytesOfWord value hoff
    rw [getLsbD_entryIn _ _ hoff hk]
    refine (congrArg (·.getLsbD k) (hbyte.trans hvalue)).trans ?_
    simp only [getLsbD_extractLsb', getLsbD_setWidth, decide_eq_true hk,
      decide_eq_true (show 8 * off + k < 64 by omega)]
  · rw [entryIn, getLsbD_setWidth, getLsbD_setWidth,
      getLsbD_of_ge _ _ (by omega), getLsbD_of_ge _ _ (by omega)]

/-- Another word is not written. -/
theorem entryIn_writeData_of_ne {addr : BitVec 32}
    (haligned : (addr - entry.setWidth 32).toNat % 4 = 0) (hne : addr ≠ entry.setWidth 32) :
    entryIn (m.writeData (entryWrite entry value)) addr = entryIn m addr := by
  have hflat : ∀ off : Fin 4, (m.writeData (entryWrite entry value)).flat none
      (addr + BitVec.ofNat 32 off) = m.flat none (addr + BitVec.ofNat 32 off) := by
    intro off
    rw [flat_writeData]
    refine ByteMemory.write_of_notMem fun hmem => ?_
    obtain ⟨_, hwrite, haddr⟩ := List.mem_map.mp hmem
    obtain ⟨off', rfl⟩ := List.mem_ofFn.mp hwrite
    -- both words are aligned alike, so that they have no byte in common
    have hoff' : off'.val < 4 := off'.isLt
    have heq := congrArg BitVec.toNat haddr
    have hne' : addr.toNat ≠ (entry.setWidth 32).toNat := fun h => hne (eq_of_toNat_eq h)
    simp only [Payload.addressOf, entryWrite, toNat_add, toNat_ofNat] at heq
    rw [toNat_sub] at haligned
    omega
  rw [entryIn, entryIn]
  simp only [hflat]

end

/-- An entry has no bits above those of a word. -/
theorem setWidth_marked {m : SymbolicMemory}
    {addr : BitVec 32} (h : pte = entryIn m addr) :
    ((pte ||| accessBits type).setWidth 32).setWidth 64 = pte ||| accessBits type := by
  apply eq_of_getLsbD_eq
  intro i hi
  rw [getLsbD_setWidth, getLsbD_setWidth, decide_eq_true hi, Bool.true_and]
  by_cases h32 : i < 32
  · rw [decide_eq_true h32, Bool.true_and]
  · rw [decide_eq_false h32, Bool.false_and, getLsbD_or,
      getLsbD_accessBits type (by omega), h,
      entryIn, getLsbD_setWidth, getLsbD_of_ge _ _ (by omega), Bool.and_false,
      Bool.or_false]

/-- An update sets two bits of its entry and leaves all others as they are. -/
theorem readEntry_mark (view : CoreView)
    (type : MemoryAccessType) (hleaf : readEntry io.bus leaf.entry = .word leaf.pte)
    (hentry : leaf.entry.toNat % 4 = 0) (haddr : addr.toNat % 4 = 0)
    (h : readEntry io.bus addr = .word pte) :
    addr ≠ leaf.entry ∧ readEntry (io.mark view leaf type).bus addr = .word pte ∨ pte = leaf.pte ∧
      readEntry (io.mark view leaf type).bus addr = .word (leaf.pte ||| accessBits type) := by
  obtain ⟨port, m, hfind, hfits, rfl⟩ := memory_of_readEntry h
  obtain ⟨port', m', hfind', hfits', hpte⟩ := memory_of_readEntry hleaf
  let value := (leaf.pte ||| accessBits type).setWidth 32
  have hafter := SimpleBus.find_transport
    (show io.bus.find (entryWrite leaf.entry value).address = _ from hfind') addr
  rw [hfind] at hafter
  change (io.mark view leaf type).bus.find addr = some (if port = port' then (port',
    .memory (m'.transport ((entryWrite leaf.entry value).behind port')).2) else _) at hafter
  rw [show m'.transport ((entryWrite leaf.entry value).behind port') = _ from
    transport_of_write hfits' rfl] at hafter
  by_cases hport : port = port'
  · subst hport
    cases SimpleBus.target_of_find hfind hfind'
    rw [if_pos rfl] at hafter
    have hread := readEntry_of_memory hafter hfits
    change _ =
      Entry.word (entryIn (m.writeData (entryWrite (port.globalToLocal leaf.entry) value)) _)
      at hread
    by_cases hsame :
      (port.globalToLocal addr).setWidth 32 = (port.globalToLocal leaf.entry).setWidth 32
    · rw [hsame, entryIn_writeData, setWidth_marked hpte] at hread
      exact .inr ⟨by rw [hsame, hpte], hread⟩
    · rw [entryIn_writeData_of_ne _ _ _ ?_ hsame] at hread
      · exact .inl ⟨fun heq => hsame (heq ▸ rfl), hread⟩
      · simp only [PortMapping.globalToLocal, toNat_sub, toNat_setWidth]
        omega
  · rw [if_neg hport] at hafter
    refine .inl ⟨?_, readEntry_of_memory hafter hfits⟩
    rintro rfl
    cases hfind.symm.trans hfind'
    exact hport rfl

/-- Two entries differ in the accessed and the dirty bit at most. -/
def SameEntry (pte pte' : BitVec 64) : Prop := ∀ i, i < 6 ∨ 8 ≤ i → pte'.getLsbD i = pte.getLsbD i

theorem sameEntry_or (pte : BitVec 64) (type : MemoryAccessType) :
    SameEntry pte (pte ||| accessBits type) := by
  intro i hi
  rw [getLsbD_or, getLsbD_accessBits type hi, Bool.or_false]

theorem SameEntry.pteFlag {flag : BitVec 64} (h : SameEntry pte pte')
    (h6 : flag.getLsbD 6 = false) (h7 : flag.getLsbD 7 = false) :
    pteFlag pte' flag = pteFlag pte flag := by
  have hand : pte' &&& flag = pte &&& flag := by
    apply eq_of_getLsbD_eq
    intro i _
    rw [getLsbD_and, getLsbD_and]
    by_cases hi : i < 6 ∨ 8 ≤ i
    · rw [h i hi]
    · obtain rfl | rfl : i = 6 ∨ i = 7 := by omega
      · rw [h6, Bool.and_false, Bool.and_false]
      · rw [h7, Bool.and_false, Bool.and_false]
  rw [Interface.pteFlag, hand, Interface.pteFlag]

theorem SameEntry.pageNumber (h : SameEntry pte pte') :
    pte' >>> 10 = pte >>> 10 := by
  apply eq_of_getLsbD_eq
  intro i _
  rw [getLsbD_ushiftRight, getLsbD_ushiftRight, h _ (.inr (by omega))]

theorem SameEntry.isInvalid (h : SameEntry pte pte') :
    isInvalid pte' = isInvalid pte := by
  unfold Interface.isInvalid
  rw [h.pteFlag rfl rfl, h.pteFlag rfl rfl, h.pteFlag rfl rfl]

theorem SameEntry.isTable (h : SameEntry pte pte') :
    isTable pte' = isTable pte := by
  unfold Interface.isTable
  rw [h.pteFlag rfl rfl, h.pteFlag rfl rfl]

theorem SameEntry.refuses (h : SameEntry pte pte') :
    refuses view pte' type sMode = refuses view pte type sMode := by
  unfold Interface.refuses
  rw [h.pteFlag rfl rfl, h.pteFlag rfl rfl, h.pteFlag rfl rfl, h.pteFlag rfl rfl]

/-- The two bits do not matter for a lookup. -/
theorem Finds.of_mark {leaf' : Leaf} {type' : MemoryAccessType} {core : CoreView}
    (h : Finds io.bus view vaddr type sMode level table leaf)
    (hleaf : readEntry io.bus leaf'.entry = .word leaf'.pte) (hentry : leaf'.entry.toNat % 4 = 0)
    (htable : table.toNat % 4 = 0) :
    ∃ pte, Finds (io.mark core leaf' type').bus view vaddr type sMode level table
      { leaf with pte } := by
  have hread : ∀ {addr pte}, addr.toNat % 4 = 0 → readEntry io.bus addr = .word pte →
      ∃ pte', readEntry (io.mark core leaf' type').bus addr = .word pte' ∧ SameEntry pte pte' := by
    intro addr pte haddr hread
    obtain ⟨_, hsame⟩ | ⟨rfl, hmarked⟩ := readEntry_mark core type' hleaf hentry haddr hread
    · exact ⟨pte, hsame, fun _ _ => rfl⟩
    · exact ⟨_, hmarked, sameEntry_or _ _⟩
  induction h with
  | @table level table pte leaf hpte hvalid hpoints _ ih =>
    obtain ⟨pte', hpte', hsame⟩ := hread (entryAddress_aligned _ _ htable) hpte
    obtain ⟨pte'', hfinds⟩ := ih (shiftLeft_aligned _)
    refine ⟨pte'', .table hpte' (hsame.isInvalid.trans hvalid) (hsame.isTable.trans hpoints) ?_⟩
    rw [nextTable, hsame.pageNumber]
    exact hfinds
  | @leaf level table pte hpte hvalid hleaf hpermits haligned =>
    obtain ⟨pte', hpte', hsame⟩ := hread (entryAddress_aligned _ _ htable) hpte
    have hfinds := Finds.leaf hpte' (hsame.isInvalid.trans hvalid) (hsame.isTable.trans hleaf)
      (hsame.refuses.trans hpermits) (by rwa [hsame.pageNumber])
    rw [physicalAddress, hsame.pageNumber] at hfinds
    exact ⟨pte', hfinds⟩

/-- The entry of a page. -/
theorem Finds.entry (h : Finds bus view vaddr type sMode level table leaf)
    (htable : table.toNat % 4 = 0) :
    readEntry bus leaf.entry = .word leaf.pte ∧ leaf.entry.toNat % 4 = 0 := by
  induction h with
  | table _ _ _ _ ih => exact ih (shiftLeft_aligned _)
  | leaf hread _ _ _ _ => exact ⟨hread, entryAddress_aligned _ _ htable⟩

/-! ## Coherence -/

/-- `flush_tlb`. -/
def flushTlb (io : Interface) : Interface :=
  { io with mmu := io.mmu.map fun mmu => { mmu with tlb := fun _ _ _ => {} } }

/-- No page has the number of an entry that is not in use. -/
theorem vpn_ne (vaddr : BitVec 64) : (-1 : BitVec 64) ≠ vaddr >>> 12 := by
  intro h
  have h63 := congrArg (·.getLsbD 63) h
  simp only [getLsbD_ushiftRight] at h63
  rw [getLsbD_of_ge vaddr _ (by omega)] at h63
  exact absurd h63 (by decide)

/-- An entry of the cache is what a walk would give. -/
structure Hit (view : CoreView) (io : Interface) (mmu : Mmu) (mode : PrivilegeLevel)
    (type : MemoryAccessType) (vaddr ppn : BitVec 64) (leaf : Leaf) : Prop where
  connected : mmu.connected = true
  found : Finds io.bus view vaddr type (mode = SupervisorMode) 2 (rootTable view) leaf
  paddr : ppn ||| (vaddr &&& 0xfff#64) = leaf.paddr
  marked : mmu.pageFaultOnAD = true → leaf.marked type = true

/-- All entries of the cache are what a walk would give. -/
def Coherent (view : CoreView) (io : Interface) : Prop :=
  ∀ mmu, io.mmu = some mmu → ∀ mode type (vaddr : BitVec 64),
    (mmu.tlb mode type ((vaddr >>> 12).setWidth 8)).vpn = vaddr >>> 12 →
    ∃ leaf, Hit view io mmu mode type vaddr (mmu.tlb mode type ((vaddr >>> 12).setWidth 8)).ppn leaf

theorem coherent_flushTlb (view : CoreView) (io : Interface) : Coherent view io.flushTlb := by
  intro mmu hmmu mode type vaddr hvpn
  obtain ⟨mmu₀, _, rfl⟩ := Option.map_eq_some_iff.mp hmmu
  exact absurd hvpn (vpn_ne vaddr)

/-- A change of the status that refuses no more. -/
theorem Coherent.of_status (h : Coherent view io) (hsatp : view'.satp = view.satp)
    (hsum : view.mstatus.getLsbD 18 = true → view'.mstatus.getLsbD 18 = true)
    (hmxr : view.mstatus.getLsbD 19 = true → view'.mstatus.getLsbD 19 = true) :
    Coherent view' io := by
  intro mmu hmmu mode type vaddr hvpn
  obtain ⟨leaf, hhit⟩ := h mmu hmmu mode type vaddr hvpn
  have hroot : rootTable view' = rootTable view := by rw [rootTable, hsatp, rootTable]
  refine ⟨leaf, hhit.connected, ?_, hhit.paddr, hhit.marked⟩
  rw [hroot]
  exact hhit.found.of_status hsum hmxr

/-- A change of the memory that leaves the page tables alone. -/
theorem Coherent.of_tables {io' : Interface} (h : Coherent view io) (hmmu : io'.mmu = io.mmu)
    (htables : ∀ vaddr type sMode, lookup io'.bus view vaddr type sMode 2 (rootTable view) =
      lookup io.bus view vaddr type sMode 2 (rootTable view)) : Coherent view io' := by
  intro mmu hmmu' mode type vaddr hvpn
  obtain ⟨leaf, hhit⟩ := h mmu (hmmu.symm.trans hmmu') mode type vaddr hvpn
  exact ⟨leaf, hhit.connected, finds_iff.mp ((htables _ _ _).trans (finds_iff.mpr hhit.found)),
    hhit.paddr, hhit.marked⟩

/-- An update of an entry. -/
theorem Coherent.mark (h : Coherent view io)
    (hfound : Finds io.bus view vaddr type sMode 2 (rootTable view) leaf)
    (hupdates : io.mmu.any (·.pageFaultOnAD) = false) :
    Coherent view (io.mark view leaf type) := by
  obtain ⟨hread, hentry⟩ := hfound.entry (shiftLeft_aligned _)
  intro mmu hmmu mode type' vaddr' hvpn
  obtain ⟨leaf', hhit⟩ := h mmu hmmu mode type' vaddr' hvpn
  have hmmu' : io.mmu = some mmu := hmmu
  rw [hmmu'] at hupdates
  obtain ⟨pte, hfound'⟩ := hhit.found.of_mark hread hentry (shiftLeft_aligned _)
  exact ⟨_, hhit.connected, hfound', hhit.paddr, fun h => absurd (hupdates.symm.trans h)
    Bool.false_ne_true⟩

/-- A new entry of the cache, for a page below 4 GiB. -/
theorem Coherent.cache {mmu : Mmu} {mode : PrivilegeLevel} (h : Coherent view io)
    (hmmu : io.mmu = some mmu) (hlow : leaf.paddr < 0x100000000#64)
    (hhit : Hit view io mmu mode type vaddr (leaf.paddr &&& ~~~0xfff#64) leaf) :
    Coherent view (io.cache mode type vaddr leaf.paddr) := by
  intro mmu' hmmu' mode' type' vaddr' hvpn
  rw [Interface.cache, hmmu] at hmmu'
  cases hmmu'
  dsimp only at hvpn ⊢
  split_ifs at hvpn ⊢ with hkey
  · obtain ⟨rfl, rfl, _⟩ := hkey
    refine ⟨_, hhit.connected, hhit.found.of_same_page hvpn.symm, ?_, hhit.marked⟩
    rw [frame_eq_of_lt hlow]
  · obtain ⟨leaf', hhit'⟩ := h mmu hmmu mode' type' vaddr' hvpn
    exact ⟨leaf', hhit'.connected, hhit'.found, hhit'.paddr, hhit'.marked⟩

/-- What a walk gives does not depend on the entry that it leaves. -/
theorem fst_walkedAndCached (io : Interface) (view : CoreView) (vaddr : BitVec 64)
    (type : MemoryAccessType) : (walkedAndCached io view vaddr type).1 =
      (walked io view vaddr type (lookup io.bus view vaddr type
        (effectiveMode view type = SupervisorMode) 2 (rootTable view))).1 := by
  unfold walkedAndCached
  dsimp only
  split
  · next hwalked => rw [hwalked]
  · rfl

/-- A translation to a page below 4 GiB keeps the cache coherent. -/
theorem Coherent.translation (h : Coherent view io) (vaddr : BitVec 64) (type : MemoryAccessType)
    (hlow : ∀ paddr, (translation io view vaddr type).1 = .page paddr → paddr < 0x100000000#64) :
    Coherent view (translation io view vaddr type).2 := by
  revert hlow
  unfold Interface.translation
  cases hmmu : io.mmu with
  | none => exact fun _ => h
  | some mmu =>
    dsimp only
    split_ifs with hbare hmode hhit hconnected <;> intro hlow
    · exact h
    · exact h
    · exact h
    · exact h
    · rw [fst_walkedAndCached] at hlow
      unfold walkedAndCached
      dsimp only
      generalize hfound : lookup io.bus view vaddr type
        (effectiveMode view type = SupervisorMode) 2 (rootTable view) = found
      have hsame : (∀ paddr, (walked io view vaddr type found).1 ≠ .page paddr) →
          (walked io view vaddr type found).2 = io := walked_of_not_page
      rw [hfound] at hlow
      generalize hwalked : walked io view vaddr type found = r at hsame hlow ⊢
      obtain ⟨t, io'⟩ := r
      cases t with
      | throws | device =>
        cases hsame nofun
        exact h
      | page paddr =>
        obtain ⟨leaf, rfl, rfl, hio⟩ := walked_eq_page hwalked
        have hfinds := finds_iff.mp hfound
        have hleaf : leaf.paddr < 0x100000000#64 := hlow _ rfl
        obtain ⟨hmarked, rfl⟩ | ⟨_, hupdates, rfl⟩ := hio
        · exact h.cache hmmu hleaf ⟨Bool.eq_true_of_not_eq_false hconnected, hfinds,
            lookup_offset hfound, fun _ => hmarked⟩
        · -- the entry is still found after its own update
          have hany := hupdates
          rw [hmmu] at hany
          obtain ⟨hread, hentry⟩ := hfinds.entry (shiftLeft_aligned _)
          obtain ⟨pte, hfinds'⟩ := hfinds.of_mark hread hentry (shiftLeft_aligned _)
          have hoffset := lookup_offset (finds_iff.mpr hfinds')
          let leaf' : Leaf := { leaf with pte }
          have hhit : Hit view (io.mark view leaf type) mmu (effectiveMode view type) type vaddr
              (leaf'.paddr &&& ~~~0xfff#64) leaf' :=
            ⟨Bool.eq_true_of_not_eq_false hconnected, hfinds', hoffset,
              fun hfault => absurd (hany.symm.trans hfault) Bool.false_ne_true⟩
          have hlow' : leaf'.paddr < 0x100000000#64 := hleaf
          have hcached := (h.mark hfinds hupdates).cache hmmu hlow' hhit
          exact hcached

/-- A coherent cache changes no translation. -/
theorem Coherent.translation_flushTlb (h : Coherent view io) (vaddr : BitVec 64)
    (type : MemoryAccessType) :
    (Interface.translation io.flushTlb view vaddr type).1 =
      (Interface.translation io view vaddr type).1 := by
  have hwalked : ∀ found, (walked io.flushTlb view vaddr type found).1 =
      (walked io view vaddr type found).1 := by
    intro found
    cases found with
    | fault | error | device => rfl
    | page leaf =>
      have hany : io.flushTlb.mmu.any (·.pageFaultOnAD) = io.mmu.any (·.pageFaultOnAD) := by
        rw [flushTlb]
        cases io.mmu <;> rfl
      rw [walked, walked, hany]
      split_ifs <;> rfl
  have hfresh : (walkedAndCached io.flushTlb view vaddr type).1 =
      (walked io view vaddr type (lookup io.bus view vaddr type
        (effectiveMode view type = SupervisorMode) 2 (rootTable view))).1 :=
    (fst_walkedAndCached _ _ _ _).trans (hwalked _)
  cases hmmu : io.mmu with
  | none =>
    rw [Interface.translation, Interface.translation, flushTlb, hmmu]
    rfl
  | some mmu =>
    have hmmu' : io.flushTlb.mmu = some { mmu with tlb := fun _ _ _ => {} } := by
      rw [flushTlb, hmmu]
      rfl
    rw [Interface.translation, Interface.translation, hmmu, hmmu']
    dsimp only
    by_cases hbare : view.satp.getLsbD 31 = false ∨ effectiveMode view type = MachineMode
    · rw [if_pos hbare, if_pos hbare]
    rw [if_neg hbare, if_neg hbare]
    by_cases hmode : effectiveMode view type ≠ UserMode ∧ effectiveMode view type ≠ SupervisorMode
    · rw [if_pos hmode, if_pos hmode]
    rw [if_neg hmode, if_neg hmode, if_neg (vpn_ne vaddr)]
    by_cases hvpn : (mmu.tlb (effectiveMode view type) type ((vaddr >>> 12).setWidth 8)).vpn =
        vaddr >>> 12
    · -- the walk finds what is in the cache
      obtain ⟨leaf, hhit⟩ := h mmu hmmu _ _ _ hvpn
      have hconnected : ¬ mmu.connected = false := by
        rw [hhit.connected]
        decide
      rw [if_pos hvpn, if_neg hconnected, hfresh, finds_iff.mpr hhit.found,
        hhit.paddr, walked, hmmu]
      split_ifs with hmarked hfault
      · rfl
      · exact absurd (hhit.marked hfault) hmarked
      · rfl
    · rw [if_neg hvpn]
      split_ifs with hconnected
      · rfl
      · rw [hfresh]
        exact (fst_walkedAndCached io view vaddr type).symm

/-- The page of an address that is translated. -/
theorem Coherent.lookup_of_page {io' : Interface} {mmu : Mmu} {paddr : BitVec 64}
    (h : Coherent view io) (hmmu : io.mmu = some mmu) (htranslates : Translates view type)
    (htranslation : Interface.translation io view vaddr type = (.page paddr, io')) :
    ∃ leaf, lookup io.bus view vaddr type (effectiveMode view type = SupervisorMode) 2
      (rootTable view) = .page leaf ∧ paddr = leaf.paddr := by
  unfold Interface.translation at htranslation
  rw [hmmu] at htranslation
  dsimp only at htranslation
  split_ifs at htranslation with hbare hmode hhit hconnected
  · obtain hsatp | hmachine := hbare
    · exact absurd (hsatp.symm.trans htranslates.1) Bool.false_ne_true
    · exact absurd hmachine htranslates.2
  · cases htranslation
  · obtain ⟨leaf, hleaf⟩ := h mmu hmmu _ _ _ hhit
    cases htranslation
    exact ⟨leaf, finds_iff.mpr hleaf.found, hleaf.paddr⟩
  · cases htranslation
  · have hwalked :=
      (fst_walkedAndCached io view vaddr type).symm.trans (congrArg Prod.fst htranslation)
    generalize hr : walked io view vaddr type _ = r at hwalked
    obtain ⟨t, io₁⟩ := r
    dsimp only at hwalked
    subst hwalked
    obtain ⟨leaf, hfound, hpaddr, _⟩ := walked_eq_page hr
    exact ⟨leaf, hfound, hpaddr⟩

/-! ## Runs -/

/-- The memory interface, with the status of the core that the MMU reads. -/
structure Paging where
  view : CoreView
  io : Interface

/-- The page tables of an address are not in a device. -/
def Paging.InMemory (s : Paging) (vaddr : BitVec 64) (type : MemoryAccessType) : Prop :=
  (translation s.io.flushTlb s.view vaddr type).1 ≠ .device

instance (s : Paging) (vaddr : BitVec 64) (type : MemoryAccessType) :
    Decidable (s.InMemory vaddr type) :=
  match h : (translation s.io.flushTlb s.view vaddr type).1 with
  | .device => isFalse fun hmemory => hmemory h
  | .page _ => isTrue fun hdevice => nomatch h.symm.trans hdevice
  | .throws _ => isTrue fun hdevice => nomatch h.symm.trans hdevice

/-- What happens to an MMU. Addresses are translated whose walk ends at a `reached` one. The status
may change between `quiet` values without a flush, and the memory without one where no walk notices;
all the rest is followed by one. -/
inductive Happens (quiet : CoreView → CoreView → Prop) (reached : BitVec 64 → Prop) :
    Paging → Paging → Prop where
  | translate {s : Paging} (vaddr : BitVec 64) (type : MemoryAccessType) (depth : Nat)
      (h : s.InMemory vaddr type)
      (hreached : ∀ paddr, (translation s.io.flushTlb s.view vaddr type).1 = .page paddr →
        reached paddr) : Happens quiet reached s
        { s with io := Effect.final (v2p (transact s.view (depth + 1)) s.view vaddr type s.io) }
  | status {s : Paging} (view : CoreView) (hsatp : view.satp = s.view.satp)
    (h : quiet s.view view) :
      Happens quiet reached s { s with view }
  | memory {s : Paging} (io : Interface) (hmmu : io.mmu = s.io.mmu)
      (htables : ∀ vaddr type sMode, lookup io.bus s.view vaddr type sMode 2 (rootTable s.view) =
        lookup s.io.bus s.view vaddr type sMode 2 (rootTable s.view)) :
      Happens quiet reached s { s with io }
  | flush {s : Paging} (s' : Paging) : Happens quiet reached s { s' with io := s'.io.flushTlb }

/-- Neither `SUM` nor `MXR` is cleared. -/
def KeepsRights (view view' : CoreView) : Prop :=
  (view.mstatus.getLsbD 18 = true → view'.mstatus.getLsbD 18 = true) ∧
    (view.mstatus.getLsbD 19 = true → view'.mstatus.getLsbD 19 = true)

/-- Addresses whose page the cache keeps. -/
def Low (paddr : BitVec 64) : Prop := paddr < 0x100000000#64

/-- A translation is what a walk gives at that moment. -/
def Transparent (s : Paging) (vaddr : BitVec 64) (type : MemoryAccessType) (depth : Nat) : Prop :=
  Effect.outcome (v2p (transact s.view (depth + 1)) s.view vaddr type s.io) =
    Effect.outcome (v2p (transact s.view (depth + 1)) s.view vaddr type s.io.flushTlb)

/-- What the translation of an address is. -/
def Translation.toExcept : Translation → Option (Except Exception (BitVec 64))
  | .page paddr => some (.ok paddr)
  | .throws e => some (.error e)
  | .device => none

theorem v2p_eq (depth : Nat) (h : (translation io view vaddr type).1 ≠ .device) :
    (translation io view vaddr type).1.toExcept =
        some (Effect.outcome (v2p (transact view (depth + 1)) view vaddr type io)) ∧
      Alike view.hartId (translation io view vaddr type).2
        (Effect.final (v2p (transact view (depth + 1)) view vaddr type io)) := by
  have htriple := triple_v2p vaddr type depth h
  cases hrun : v2p (transact view (depth + 1)) view vaddr type io with
  | ok paddr io' =>
    obtain ⟨hpage, halike⟩ := htriple.of_ok (.refl _ _) hrun
    rw [hpage]
    exact ⟨rfl, halike⟩
  | error e io' =>
    obtain ⟨hthrows, halike⟩ := htriple.of_error (.refl _ _) hrun
    rw [hthrows]
    exact ⟨rfl, halike⟩

/-- What happens keeps the cache coherent. -/
theorem Coherent.happens {s s' : Paging} (h : Coherent s.view s.io)
    (hstep : Happens KeepsRights Low s s') : Coherent s'.view s'.io := by
  cases hstep with
  | translate vaddr type depth hmemory hlow =>
    have hdevice : (Interface.translation s.io s.view vaddr type).1 ≠ .device := by
      rw [← h.translation_flushTlb]
      exact hmemory
    have halike := (v2p_eq depth hdevice).2
    rw [h.translation_flushTlb] at hlow
    exact (h.translation vaddr type hlow).of_tables halike.mmu fun _ _ _ => by rw [halike.bus]
  | status view hsatp hkeeps => exact h.of_status hsatp hkeeps.1 hkeeps.2
  | memory io hmmu htables => exact h.of_tables hmmu htables
  | flush s => exact coherent_flushTlb _ _

/-- The cache is coherent in a run. -/
theorem coherent_of_run {s₀ s : Paging}
    (hrun : Relation.ReflTransGen (Happens KeepsRights Low) { s₀ with io := s₀.io.flushTlb } s) :
    Coherent s.view s.io := by
  induction hrun with
  | refl => exact coherent_flushTlb _ _
  | tail _ hstep ih => exact ih.happens hstep

/-- The cache is transparent in every run from a flushed cache in which `SUM` and `MXR` are cleared
only together with a flush and all pages are below 4 GiB. -/
theorem transparent_of_run {s₀ s : Paging}
    (hrun : Relation.ReflTransGen (Happens KeepsRights Low) { s₀ with io := s₀.io.flushTlb } s)
    (vaddr : BitVec 64) (type : MemoryAccessType) (depth : Nat) (hmemory : s.InMemory vaddr type) :
    Transparent s vaddr type depth := by
  have hcoherent := coherent_of_run hrun
  have hsame := hcoherent.translation_flushTlb vaddr type
  have hdevice : (translation s.io s.view vaddr type).1 ≠ .device := by rwa [← hsame]
  refine Option.some.inj ((v2p_eq depth hdevice).1.symm.trans ?_)
  rw [← hsame]
  exact (v2p_eq depth hmemory).1

/-- Supervisor mode with `SUM`, and a page of user mode at address zero. -/
def userPage : Paging where
  view := ⟨0#32, SupervisorMode, 0x40000#32, 0x80000000#32⟩
  io := (Iss.paged [0xdf#32] SupervisorMode 0#32).io

/-- The state after the translation of an address in the page. -/
def userPageCached : Paging :=
  { userPage with io := Effect.final (v2p (transact userPage.view 1) userPage.view 16#64 .LOAD
      userPage.io.flushTlb) }

/-- The state after `SUM` has been cleared. -/
def userPageDenied : Paging :=
  { userPageCached with view := { userPage.view with mstatus := 0#32 } }

/-- An address that is translated again. -/
theorem transparent_of_run_again : Transparent userPageCached 16#64 .LOAD 0 := by
  have hpage : (translation userPage.io.flushTlb userPage.view 16#64 .LOAD).1.toExcept =
      some (.ok 16#64) := by
    decide +kernel
  have hrun : Relation.ReflTransGen (Happens KeepsRights Low)
      { userPage with io := userPage.io.flushTlb } userPageCached := by
    refine .single (.translate 16#64 .LOAD 0 (by decide +kernel) fun paddr h => ?_)
    cases hpage.symm.trans (congrArg Translation.toExcept h)
    exact lt_def.mpr (by decide)
  exact transparent_of_run hrun 16#64 .LOAD 0 (by decide +kernel)

/-- The page can still be read when `SUM` has been cleared. -/
theorem translation_after_sum : ∃ s : Paging,
    Relation.ReflTransGen (Happens (fun _ _ => True) fun _ => True)
      { userPage with io := userPage.io.flushTlb } s ∧
    s.io.mmu.any (·.connected) = true ∧ s.InMemory 16#64 .LOAD ∧
    Effect.outcome (v2p (transact s.view 1) s.view 16#64 .LOAD s.io) = .ok 16#64 ∧
    Effect.outcome (v2p (transact s.view 1) s.view 16#64 .LOAD s.io.flushTlb) =
      .error (.trap .EXC_LOAD_PAGE_FAULT 16#64) ∧
    ¬ Transparent s 16#64 .LOAD 0 := by
  have hcached :
      Effect.outcome (v2p (transact userPageDenied.view 1) userPageDenied.view 16#64 .LOAD
      userPageDenied.io) = .ok 16#64 := by
    decide +kernel
  have hfresh : Effect.outcome (v2p (transact userPageDenied.view 1) userPageDenied.view 16#64 .LOAD
      userPageDenied.io.flushTlb) = .error (.trap .EXC_LOAD_PAGE_FAULT 16#64) := by
    decide +kernel
  refine ⟨userPageDenied, ?_, by decide +kernel, by decide +kernel, hcached, hfresh, ?_⟩
  · exact (Relation.ReflTransGen.single (.translate 16#64 .LOAD 0 (by decide +kernel)
      fun _ _ => trivial)).tail (.status _ rfl trivial)
  · intro h
    cases hcached.symm.trans (h.trans hfresh)

end Interface

end SpsVp.Rv32
