import SpsVp.Rv32.Operation
import SpsVp.Rv32.Tlb

/-!
# Loads from pages

`symbolic_load_data` has its address translated as that of a store. So a load needs the rights of a
store, and it leaves its page dirty. What Sv32 asks of a load holds just if the page permits a store
and is dirty already (`loadsAsRead_iff`).
-/

namespace SpsVp.Rv32

open Lib Effect Clover Klee Platform Interface

namespace Interface

variable {bus : SimpleBus} {view : CoreView} {vaddr table : BitVec 64} {sMode : Bool} {level : Nat}
  {leaf : Leaf} {io : Interface}

/-! ## Rights -/

/-- A page that can be read can be written just if its entry has both bits. -/
theorem lookup_store (h : lookup bus view vaddr .LOAD sMode level table = .page leaf) :
    lookup bus view vaddr .STORE sMode level table =
      if pteFlag leaf.pte PTE_R && pteFlag leaf.pte PTE_W then .page leaf else .fault := by
  induction finds_iff.mp h with
  | table hread hvalid htable hfinds ih =>
    rw [lookup, hread]
    exact (if_neg (ne_of_eq_of_ne hvalid Bool.false_ne_true)).trans
      ((if_pos htable).trans (ih (finds_iff.mpr hfinds)))
  | @leaf level table pte hread hvalid hleaf hpermits haligned =>
    have hrefuses : refuses view pte .STORE sMode = !(pteFlag pte PTE_R && pteFlag pte PTE_W) := by
      revert hpermits
      unfold refuses
      cases pteFlag pte PTE_R <;> cases pteFlag pte PTE_W <;> cases pteFlag pte PTE_U <;> simp
    rw [lookup, hread]
    refine (if_neg (ne_of_eq_of_ne hvalid Bool.false_ne_true)).trans
      ((if_neg (ne_of_eq_of_ne hleaf Bool.false_ne_true)).trans ?_)
    rw [hrefuses]
    cases pteFlag pte PTE_R && pteFlag pte PTE_W with
    | false => rfl
    | true => exact if_neg (not_not_intro haligned)

/-- The dirty bits of all entries are the same. -/
def SameDirty (bus bus' : SimpleBus) : Prop :=
  ∀ addr pte : BitVec 64, addr.toNat % 4 = 0 → readEntry bus addr = .word pte →
    ∃ pte', readEntry bus' addr = .word pte' ∧ pte'.getLsbD 7 = pte.getLsbD 7

theorem SameDirty.refl (bus : SimpleBus) : SameDirty bus bus := fun _ pte _ h => ⟨pte, h, rfl⟩

/-- The update for a store leaves the dirty bits alone just if its page is dirty. -/
theorem sameDirty_mark_iff (hread : readEntry io.bus leaf.entry = .word leaf.pte)
    (haligned : leaf.entry.toNat % 4 = 0) :
    SameDirty io.bus (io.mark view leaf .STORE).bus ↔ leaf.pte.getLsbD 7 = true := by
  have hbit : (leaf.pte ||| accessBits .STORE).getLsbD 7 = true := by
    rw [BitVec.getLsbD_or]
    exact Bool.or_true _
  constructor
  · intro h
    obtain ⟨pte, hpte, hsame⟩ := h leaf.entry leaf.pte haligned hread
    obtain ⟨hne, _⟩ | ⟨_, hmarked⟩ := readEntry_mark view .STORE hread haligned haligned hread
    · exact absurd rfl hne
    · cases hpte.symm.trans hmarked
      exact hsame.symm.trans hbit
  · intro hdirty addr pte haddr hpte
    obtain ⟨_, hsame⟩ | ⟨rfl, hmarked⟩ := readEntry_mark view .STORE hread haligned haddr hpte
    · exact ⟨pte, hsame, rfl⟩
    · exact ⟨_, hmarked, hbit.trans hdirty.symm⟩

/-! ## Translation -/

/-- The physical address at which Sv32 permits a read of a virtual address. -/
def readAddress (io : Interface) (view : CoreView) (vaddr : BitVec 64) : Option (BitVec 64) :=
  if io.mmu.isNone = true ∨ view.satp.getLsbD 31 = false ∨
    effectiveMode view .LOAD = MachineMode then
    some vaddr
  else match lookup io.bus view vaddr .LOAD (effectiveMode view .LOAD = SupervisorMode) 2
      (rootTable view) with
    | .page leaf => some leaf.paddr
    | _ => none

/-- An entry permits a store, for which the MMU does not have to set the dirty bit. -/
structure StoresTo (mmu : Mmu) (mode : PrivilegeLevel) (vaddr : BitVec 64) (leaf : Leaf) :
    Prop where
  connected : mmu.connected = true
  readable : pteFlag leaf.pte PTE_R = true
  writable : pteFlag leaf.pte PTE_W = true
  dirty : (mmu.tlb mode .STORE ((vaddr >>> 12).setWidth 8)).vpn = vaddr >>> 12 ∨
    leaf.pte.getLsbD 7 = true ∧ (leaf.pte.getLsbD 6 = true ∨ mmu.pageFaultOnAD = false)

/-- The page of an address, if there is one, permits a store and is dirty. -/
def StoreRights (io : Interface) (view : CoreView) (vaddr : BitVec 64) : Prop :=
  ∀ mmu leaf, io.mmu = some mmu → Translates view .LOAD →
    lookup io.bus view vaddr .LOAD (effectiveMode view .LOAD = SupervisorMode) 2 (rootTable view) =
      .page leaf → StoresTo mmu (effectiveMode view .LOAD) vaddr leaf

theorem marked_store (leaf : Leaf) :
    leaf.marked .STORE = true ↔ leaf.pte.getLsbD 6 = true ∧ leaf.pte.getLsbD 7 = true := by
  have h6 : (accessBits .STORE).getLsbD 6 = true := by decide
  have h7 : (accessBits .STORE).getLsbD 7 = true := by decide
  rw [Leaf.marked, decide_eq_true_eq]
  constructor
  · intro h
    have hbit : ∀ i, (accessBits .STORE).getLsbD i = true → leaf.pte.getLsbD i = true := by
      intro i hi
      have hand := congrArg (·.getLsbD i) h
      simpa only [BitVec.getLsbD_and, hi, Bool.and_true] using hand
    exact ⟨hbit 6 h6, hbit 7 h7⟩
  · rintro ⟨hA, hD⟩
    apply BitVec.eq_of_getLsbD_eq
    intro i _
    rw [BitVec.getLsbD_and]
    by_cases hother : i < 6 ∨ 8 ≤ i
    · rw [getLsbD_accessBits .STORE hother, Bool.and_false]
    · obtain rfl | rfl : i = 6 ∨ i = 7 := by omega
      · rw [hA, Bool.true_and]
      · rw [hD, Bool.true_and]

theorem effectiveMode_store (view : CoreView) :
    effectiveMode view .STORE = effectiveMode view .LOAD := by
  simp [effectiveMode]

/-- A memory is still there after a translation. -/
theorem memory_of_translation {io₁ : Interface} {type : MemoryAccessType} {paddr paddr' : BitVec 64}
    {port : PortMapping} {m : SymbolicMemory}
    (h : translation io view vaddr type = (.page paddr, io₁))
    (hfind : io.bus.find paddr' = some (port, .memory m)) :
    ∃ m', io₁.bus.find paddr' = some (port, .memory m') ∧ m'.size = m.size := by
  obtain ⟨_, leaf, _, _, rfl⟩ | ⟨_, hbus, _⟩ := translation_cases h
  · exact SimpleBus.memory_transport _ hfind
  · exact ⟨m, by rwa [hbus], rfl⟩

section

variable {paddr : BitVec 64} (hread : readAddress io view vaddr = some paddr)
include hread

/-- An address that may be read is not translated, or it has a page. -/
theorem readAddress_cases :
    paddr = vaddr ∧ translation io view vaddr .STORE = (.page vaddr, io) ∧
    StoreRights io view vaddr ∨ ∃ mmu leaf, io.mmu = some mmu ∧ Translates view .LOAD ∧
      lookup io.bus view vaddr .LOAD (effectiveMode view .LOAD = SupervisorMode)
        2 (rootTable view) = .page leaf ∧ paddr = leaf.paddr := by
  unfold readAddress at hread
  by_cases hbare : io.mmu.isNone = true ∨ view.satp.getLsbD 31 = false ∨
      effectiveMode view .LOAD = MachineMode
  · rw [if_pos hbare] at hread
    cases hread
    refine .inl ⟨rfl, ?_, fun mmu leaf hmmu htranslates _ => ?_⟩
    · unfold translation
      cases hmmu : io.mmu with
      | none => rfl
      | some mmu =>
        rw [hmmu] at hbare
        dsimp only
        rw [effectiveMode_store, if_pos (hbare.resolve_left Bool.false_ne_true)]
    · rw [hmmu] at hbare
      obtain hsatp | hmachine := hbare.resolve_left Bool.false_ne_true
      · exact absurd (hsatp.symm.trans htranslates.1) Bool.false_ne_true
      · exact absurd hmachine htranslates.2
  · rw [if_neg hbare] at hread
    obtain ⟨hmmu, hbare⟩ := not_or.mp hbare
    obtain ⟨hsatp, hmachine⟩ := not_or.mp hbare
    obtain ⟨mmu, hmmu⟩ := Option.ne_none_iff_exists'.mp fun h =>
      hmmu (Option.isNone_iff_eq_none.mpr h)
    split at hread
    · next leaf hfound =>
      cases hread
      exact .inr ⟨mmu, leaf, hmmu, ⟨Bool.eq_true_of_not_eq_false hsatp, hmachine⟩, hfound, rfl⟩
    · cases hread

/-- A load is translated to the address of the read, and no page gets dirty, just if its page
permits a store. -/
theorem translation_store_iff (hcoherent : Coherent view io)
    (hlegal : effectiveMode view .LOAD ∈ [UserMode, SupervisorMode, MachineMode]) :
    (∃ io₁, translation io view vaddr .STORE = (.page paddr, io₁) ∧ SameDirty io.bus io₁.bus) ↔
      StoreRights io view vaddr := by
  obtain ⟨rfl, htranslation, hrights⟩ | ⟨mmu, leaf, hmmu, htranslates, hfound, rfl⟩ :=
    readAddress_cases hread
  · exact iff_of_true ⟨io, htranslation, .refl _⟩ hrights
  have hiff : StoreRights io view vaddr ↔ StoresTo mmu (effectiveMode view .LOAD) vaddr leaf := by
    constructor
    · intro h
      exact h mmu leaf hmmu htranslates hfound
    · intro h mmu' leaf' hmmu' _ hfound'
      cases hmmu.symm.trans hmmu'
      cases hfound.symm.trans hfound'
      exact h
  rw [hiff]
  have hstore := lookup_store hfound
  have hbare : ¬(view.satp.getLsbD 31 = false ∨ effectiveMode view .LOAD = MachineMode) := by
    rintro (h | h)
    · exact Bool.false_ne_true (h.symm.trans htranslates.1)
    · exact htranslates.2 h
  have hmode :
      ¬(effectiveMode view .LOAD ≠ UserMode ∧ effectiveMode view .LOAD ≠ SupervisorMode) := by
    rintro ⟨huser, hsupervisor⟩
    simp only [List.mem_cons, List.not_mem_nil, or_false] at hlegal
    obtain h | h | h := hlegal
    · exact huser h
    · exact hsupervisor h
    · exact htranslates.2 h
  unfold translation
  rw [hmmu]
  dsimp only
  rw [effectiveMode_store, if_neg hbare, if_neg hmode]
  by_cases hvpn : (mmu.tlb (effectiveMode view .LOAD) .STORE ((vaddr >>> 12).setWidth 8)).vpn =
      vaddr >>> 12
  · rw [if_pos hvpn]
    obtain ⟨leaf', hhit⟩ := hcoherent mmu hmmu _ _ _ hvpn
    rw [finds_iff.mpr hhit.found] at hstore
    split_ifs at hstore with hrights
    · cases hstore
      obtain ⟨hreadable, hwritable⟩ := Bool.and_eq_true_iff.mp hrights
      refine iff_of_true ⟨io, by rw [hhit.paddr], .refl _⟩
        ⟨hhit.connected, hreadable, hwritable, .inl hvpn⟩
  rw [if_neg hvpn]
  by_cases hconnected : mmu.connected = false
  · rw [if_pos hconnected]
    refine iff_of_false (by rintro ⟨_, ⟨⟩, _⟩) fun h => ?_
    exact Bool.false_ne_true (hconnected.symm.trans h.connected)
  rw [if_neg hconnected]
  unfold walkedAndCached
  dsimp only
  rw [effectiveMode_store, hstore]
  by_cases hrights : (pteFlag leaf.pte PTE_R && pteFlag leaf.pte PTE_W) = true
  · rw [if_pos hrights]
    obtain ⟨hreadable, hwritable⟩ := Bool.and_eq_true_iff.mp hrights
    obtain ⟨hentry, haligned⟩ := (finds_iff.mp hfound).entry (shiftLeft_aligned _)
    rw [walked, hmmu]
    by_cases hmarked : leaf.marked .STORE = true
    · -- nothing has to be set
      rw [if_pos hmarked]
      obtain ⟨hA, hD⟩ := (marked_store leaf).mp hmarked
      exact iff_of_true ⟨_, rfl, .refl _⟩ ⟨Bool.eq_true_of_not_eq_false hconnected,
        hreadable, hwritable, .inr ⟨hD, .inl hA⟩⟩
    rw [if_neg hmarked]
    by_cases hfault : (some mmu).any (·.pageFaultOnAD) = true
    · rw [if_pos hfault]
      refine iff_of_false (by rintro ⟨_, ⟨⟩, _⟩) fun h => ?_
      obtain ⟨hD, hA | hupdates⟩ := h.dirty.resolve_left hvpn
      · exact hmarked ((marked_store leaf).mpr ⟨hA, hD⟩)
      · exact Bool.false_ne_true (hupdates.symm.trans hfault)
    have hdirty : SameDirty io.bus (io.mark view leaf .STORE).bus ↔ _ :=
      sameDirty_mark_iff hentry haligned
    rw [if_neg hfault]
    constructor
    · rintro ⟨_, ⟨⟩, hsame⟩
      exact ⟨Bool.eq_true_of_not_eq_false hconnected, hreadable, hwritable,
        .inr ⟨hdirty.mp hsame,
          .inr (Bool.eq_false_of_not_eq_true hfault)⟩⟩
    · intro h
      obtain ⟨hD, _⟩ := h.dirty.resolve_left hvpn
      exact ⟨_, rfl, hdirty.mpr hD⟩
  · rw [if_neg hrights]
    refine iff_of_false (by rintro ⟨_, ⟨⟩, _⟩) fun h => hrights ?_
    rw [h.readable, h.writable]
    rfl

/-- The page tables of an address that may be read are not in a device. -/
theorem translation_store_ne_device : (translation io view vaddr .STORE).1 ≠ .device := by
  obtain ⟨_, htranslation, _⟩ | ⟨mmu, leaf, hmmu, _, hfound, _⟩ := readAddress_cases hread
  · rw [htranslation]
    rintro ⟨⟩
  · unfold translation
    rw [hmmu]
    dsimp only
    split_ifs
    · rintro ⟨⟩
    · rintro ⟨⟩
    · rintro ⟨⟩
    · rintro ⟨⟩
    · rw [fst_walkedAndCached, effectiveMode_store, lookup_store hfound]
      split_ifs
      · rw [walked]
        split_ifs <;> rintro ⟨⟩
      · rintro ⟨⟩

/-- A load is translated to the address of the read, if at all. -/
theorem eq_of_translation_store (hcoherent : Coherent view io) {paddr' : BitVec 64}
    {io₁ : Interface}
    (h : translation io view vaddr .STORE = (.page paddr', io₁)) : paddr' = paddr := by
  obtain ⟨rfl, htranslation, _⟩ | ⟨mmu, leaf, hmmu, htranslates, hfound, rfl⟩ :=
    readAddress_cases hread
  · cases htranslation.symm.trans h
    rfl
  · have htranslates' :
        Translates view .STORE := ⟨htranslates.1, effectiveMode_store view ▸ htranslates.2⟩
    obtain ⟨leaf', hfound', rfl⟩ := hcoherent.lookup_of_page hmmu htranslates' h
    rw [effectiveMode_store, lookup_store hfound] at hfound'
    split_ifs at hfound'
    cases hfound'
    rfl

end

end Interface

namespace Iss

variable {d e : Iss}

/-! ## Load instructions -/

/-- What a load makes of the value that the memory interface returns. -/
def extended (op : Mapping) (r : Concolic) : Concolic :=
  if op = .LBU ∨ op = .LHU then if r.width < 32 then ⟨32, r.value.zext 32⟩ else r
  else ⟨32, r.value.sext 32⟩

theorem loadOperation_eq (op : Mapping) (transact : Transact) (view : CoreView)
    (addr : ConcolicValue 32) : loadOperation op transact view addr = do
      let r ← symbolicLoadData transact view addr (loadSize op)
      return extended op r := by
  unfold loadOperation extended
  split
  · rfl
  · rw [signed, loadSigned, bind_assoc]
    rfl

/-- The virtual address of a load. -/
def loadAddress (d : Iss) : ConcolicValue 32 := (d.regs d.instr.rs1).value.add (I_IMM d.instr)

theorem checked_eq (d : Iss) (alignment : Nat) (addr : ConcolicValue 32) :
    ∃ io, d.checked alignment addr = { d with io } ∧ Alike d.view.hartId d.io io := by
  by_cases hone : alignment = 1
  · exact ⟨d.io, if_pos hone, .refl _ _⟩
  · exact ⟨(d.noted addr).io, if_neg hone, rfl, rfl, rfl, rfl, rfl⟩

/-- A load whose address is aligned. -/
theorem execute_load_of_aligned (hop : d.op ∈ loads)
    (haligned : d.loadAddress.concrete.toNat % loadSize d.op = 0) : execute d.op d = (do
      let data ← memory fun transact view => loadOperation d.op transact view d.loadAddress
      writeRd data.value) (d.checked (loadSize d.op) d.loadAddress) := by
  have hcheck := trapCheckAddrAlignment_apply (loadSize d.op) true d.loadAddress d
  rw [if_pos haligned] at hcheck
  generalize hk : (do
    let data ← memory fun transact view => loadOperation d.op transact view d.loadAddress
    writeRd data.value) = k
  have hload : load (loadOperation d.op) (loadSize d.op) d = (if loadSize d.op ≠ 1 then
      trapCheckAddrAlignment (loadSize d.op) true d.loadAddress >>= fun _ => k else k) d := by
    rw [← hk]
    rfl
  rw [execute_load hop, hload]
  by_cases hone : loadSize d.op = 1
  · rw [checked, if_pos hone, if_neg (not_not_intro hone)]
  · rw [checked, if_neg hone, if_pos hone, bind_of_ok hcheck]

section

variable {t : Interface.Translation} {io₁ : Interface} (hdepth : 0 < d.depth)
  (hrequests : d.io.requests = [])
  (htranslation : Interface.translation d.io d.view (d.loadAddress.concrete.setWidth 64) .STORE =
    (t, io₁)) (hmemory : t ≠ .device) (hplain : ∀ paddr, t = .page paddr → io₁.bus.Plain paddr)
include htranslation hmemory hplain

theorem triple_loadOperation (op : Mapping) (depth : Nat) :
    Triple (Alike d.view.hartId d.io)
      (loadOperation op (Interface.transact d.view (depth + 1)) d.view d.loadAddress)
      (fun data io => (∃ paddr, t = .page paddr ∧ (io₁.bus.transport
          (loadPayload paddr (loadSize op))).1.payload.isResponseError = false ∧
        data = extended op (loadedValue (io₁.bus.transport
          (loadPayload paddr (loadSize op))).1.payload)) ∧
        Alike d.view.hartId io₁ io)
      (fun _ _ => ∀ paddr, t = .page paddr → (io₁.bus.transport
        (loadPayload paddr (loadSize op))).1.payload.isResponseError = true) := by
  rw [loadOperation_eq]
  refine .bind ((triple_symbolicLoadData d.loadAddress htranslation hmemory hplain
    (loadSize op) depth).exc ?_) fun r => .pure ?_
  · rintro e io ⟨hthrows | ⟨paddr, hpage, herror, _⟩, _⟩ paddr' hpage'
    · cases hthrows.symm.trans hpage'
    · cases hpage.symm.trans hpage'
      exact herror
  · rintro io ⟨⟨paddr, hpage, hok, rfl⟩, h⟩
    exact ⟨⟨paddr, hpage, hok, rfl⟩, h⟩

include hdepth hrequests

/-- A load that completes. -/
theorem execute_load_eq_ok (hop : d.op ∈ loads) (h : execute d.op d = .ok () e) :
    ∃ paddr io, t = .page paddr ∧ Alike d.view.hartId io₁ io ∧
      writeRd (extended d.op (loadedValue (io₁.bus.transport
        (loadPayload paddr (loadSize d.op))).1.payload)).value { d with io } = .ok () e := by
  obtain ⟨depth, hdepth⟩ : ∃ depth, d.depth = depth + 1 := ⟨d.depth - 1, by omega⟩
  rw [execute_load hop] at h
  obtain ⟨data, u, hrun, hwrite⟩ := load_eq_ok h
  obtain ⟨io₀, hchecked, halike₀⟩ := checked_eq d (loadSize d.op) d.loadAddress
  change memory (fun transact view => loadOperation d.op transact view d.loadAddress)
    (d.checked (loadSize d.op) d.loadAddress) = .ok data u at hrun
  rw [hchecked] at hrun
  obtain ⟨io, hio, hserve⟩ := memory_eq_ok hrun
  change loadOperation d.op (Interface.transact d.view d.depth) d.view d.loadAddress io₀ = _ at hio
  rw [hdepth] at hio
  obtain ⟨⟨paddr, hpage, _, rfl⟩, halike⟩ :=
    (triple_loadOperation htranslation hmemory hplain d.op depth).of_ok halike₀ hio
  have hnone : io.requests = [] := by
    have hsame := requests_translation d.io d.view (d.loadAddress.concrete.setWidth 64) .STORE
    rw [htranslation] at hsame
    exact halike.requests.trans (hsame.trans hrequests)
  rw [hnone] at hserve
  cases hserve
  exact ⟨paddr, { io with requests := [] }, hpage,
    ⟨halike.bus, halike.mmu, halike.lock, halike.lrAddr, hnone.symm.trans halike.requests⟩, hwrite⟩

/-- A load whose page can be read. -/
theorem execute_load_of_page {paddr : BitVec 64} (hop : d.op ∈ loads)
    (haligned : d.loadAddress.concrete.toNat % loadSize d.op = 0) (hpage : t = .page paddr)
    (hok : (io₁.bus.transport
      (loadPayload paddr (loadSize d.op))).1.payload.isResponseError = false) :
    ∃ io, Alike d.view.hartId io₁ io ∧ execute d.op d =
      writeRd (extended d.op (loadedValue (io₁.bus.transport
        (loadPayload paddr (loadSize d.op))).1.payload)).value { d with io } := by
  obtain ⟨depth, hdepth⟩ : ∃ depth, d.depth = depth + 1 := ⟨d.depth - 1, by omega⟩
  obtain ⟨io₀, hchecked, halike₀⟩ := checked_eq d (loadSize d.op) d.loadAddress
  rw [execute_load_of_aligned hop haligned, hchecked]
  have htriple := triple_loadOperation htranslation hmemory hplain d.op depth
  cases hx : loadOperation d.op (Interface.transact d.view (depth + 1)) d.view d.loadAddress
    io₀ with
  | error e io =>
    exact absurd ((htriple.of_error halike₀ hx paddr hpage).symm.trans hok) nofun
  | ok data io =>
    obtain ⟨⟨paddr', hpage', _, rfl⟩, halike⟩ := htriple.of_ok halike₀ hx
    cases hpage.symm.trans hpage'
    have hnone : io.requests = [] := by
      have hsame := requests_translation d.io d.view (d.loadAddress.concrete.setWidth 64)
        .STORE
      rw [htranslation] at hsame
      exact halike.requests.trans (hsame.trans hrequests)
    refine ⟨{ io with requests := [] }, ⟨halike.bus, halike.mmu, halike.lock, halike.lrAddr,
      hnone.symm.trans halike.requests⟩, bind_of_ok ?_⟩
    rw [memory_of_ok (by
      change loadOperation d.op (Interface.transact d.view d.depth) d.view d.loadAddress io₀ = _
      rw [hdepth]
      exact hx), hnone]
    rfl

end

/-- What a load puts into its register for some bytes. -/
def extend (op : Mapping) {w : Nat} (bytes : BitVec w) : BitVec 32 :=
  if op = .LBU ∨ op = .LHU then bytes.setWidth 32 else bytes.signExtend 32

/-- A value of the width of the load is extended. -/
theorem writeRd_extended {op : Mapping} (hop : op ∈ loads) (x : ConcolicValue (8 * loadSize op))
    (s : Iss) : ∃ y : ConcolicValue 32, writeRd (extended op ⟨_, x⟩).value s =
      .ok () (s.assign s.instr.rd y) ∧ ∀ v, y.part v = extend op (x.part v) := by
  by_cases hunsigned : op = .LBU ∨ op = .LHU
  · have hwidth : 8 * loadSize op < 32 := by
      obtain rfl | rfl := hunsigned <;> decide
    refine ⟨x.zext 32, ?_, fun v => ?_⟩
    · rw [extended, if_pos hunsigned, if_pos hwidth]
      exact writeRd_word _ _
    · rw [extend, if_pos hunsigned, ConcolicValue.part_zext]
  · refine ⟨x.sext 32, ?_, fun v => ?_⟩
    · rw [extended, if_neg hunsigned]
      exact writeRd_word _ _
    · rw [extend, if_neg hunsigned, ConcolicValue.part_sext]

/-- What Sv32 asks of a load, for the physical address of the read. -/
structure LoadsAsRead (d : Iss) (paddr : BitVec 64) : Prop where
  completes : ∃ e, execute d.op d = .ok () e
  value : ∀ e, execute d.op d = .ok () e → ∃ port m, e.io.bus.find paddr = some (port, .memory m) ∧
    ∀ v, (e.regs d.instr.rd).value.part v =
      extend d.op (m.contents v (port.globalToLocal paddr) (loadSize d.op))
  clean : ∀ e, execute d.op d = .ok () e → SameDirty d.io.bus e.io.bus

/-- A load is one of Sv32 just if its page permits a store and is dirty. -/
theorem loadsAsRead_iff {paddr : BitVec 64} {port : PortMapping} {m : SymbolicMemory}
    (hop : d.op ∈ loads) (haligned : d.loadAddress.concrete.toNat % loadSize d.op = 0)
    (hdepth : 0 < d.depth) (hrequests : d.io.requests = [])
    (hcoherent : Coherent d.view d.io)
    (hlegal : effectiveMode d.view .LOAD ∈ [UserMode, SupervisorMode, MachineMode])
    (hread : d.io.readAddress d.view (d.loadAddress.concrete.setWidth 64) = some paddr)
    (hfind : d.io.bus.find paddr = some (port, .memory m))
    (hfits : ((loadPayload paddr (loadSize d.op)).behind port).Fits m.size) :
    LoadsAsRead d paddr ↔ StoreRights d.io d.view (d.loadAddress.concrete.setWidth 64) := by
  rw [← translation_store_iff hread hcoherent hlegal]
  generalize htranslation : Interface.translation d.io d.view (d.loadAddress.concrete.setWidth 64)
    .STORE = r
  obtain ⟨t, io₁⟩ := r
  have hmemory : t ≠ .device := by
    have hdevice := translation_store_ne_device hread
    rwa [htranslation] at hdevice
  -- a page is the one of the read, and the memory of the operand is still there
  have hpages : ∀ paddr', t = .page paddr' → paddr' = paddr ∧ ∃ m',
      io₁.bus.find paddr = some (port, .memory m') ∧ m'.size = m.size := by
    rintro paddr' rfl
    exact ⟨eq_of_translation_store hread hcoherent htranslation,
      memory_of_translation htranslation hfind⟩
  have hplain : ∀ paddr', t = .page paddr' → io₁.bus.Plain paddr' := by
    intro paddr' hpage port' device hdevice
    obtain ⟨rfl, m', hfind', _⟩ := hpages paddr' hpage
    cases hfind'.symm.trans hdevice
  -- what is written to the register
  have hwrites : ∀ paddr', t = .page paddr' → ∀ io, Alike d.view.hartId io₁ io →
      ∃ m' y, paddr' = paddr ∧ io.bus.find paddr = some (port, .memory m') ∧
        m'.size = m.size ∧ writeRd (extended d.op (loadedValue (io₁.bus.transport
          (loadPayload paddr' (loadSize d.op))).1.payload)).value { d with io } =
          .ok () (assign { d with io } d.instr.rd y) ∧
        ∀ v, y.part v = extend d.op (m'.contents v (port.globalToLocal paddr) (loadSize d.op)) := by
    intro paddr' hpage io halike
    obtain ⟨rfl, m', hfind', hsize⟩ := hpages paddr' hpage
    obtain ⟨y, hwrite, hy⟩ := writeRd_extended hop
      (m'.memory.load ((port.globalToLocal paddr').setWidth 32) (loadSize d.op)) { d with io }
    refine ⟨m', y, rfl, by rwa [halike.bus], hsize, ?_, fun v => ?_⟩
    · rw [loadedValue_of_memory hfind' (by rwa [hsize])]
      exact hwrite
    · rw [hy, SymbolicMemory.part_load_contents]
  constructor
  · intro h
    obtain ⟨e, he⟩ := h.completes
    obtain ⟨paddr', io, hpage, halike, hwrite⟩ :=
      execute_load_eq_ok hdepth hrequests htranslation hmemory hplain hop he
    obtain ⟨m', y, rfl, _, _, hwrite', _⟩ := hwrites paddr' hpage io halike
    cases hwrite'.symm.trans hwrite
    have hclean := h.clean _ he
    change SameDirty d.io.bus io.bus at hclean
    rw [halike.bus] at hclean
    exact ⟨io₁, by rw [hpage], hclean⟩
  · rintro ⟨_, heq, hsame⟩
    obtain ⟨rfl, rfl⟩ := Prod.mk.inj heq
    obtain ⟨_, m', hfind', hsize⟩ := hpages paddr rfl
    have hok := isResponseError_of_memory hfind' (by rwa [hsize])
    obtain ⟨io, halike, hexecute⟩ :=
      execute_load_of_page hdepth hrequests htranslation hmemory hplain hop haligned rfl hok
    obtain ⟨m', y, _, hfind', _, hwrite, hy⟩ := hwrites paddr rfl io halike
    have hrun := hexecute.trans hwrite
    refine ⟨⟨_, hrun⟩, fun e he => ?_, fun e he => ?_⟩
    · cases hrun.symm.trans he
      refine ⟨port, m', hfind', fun v => ?_⟩
      rw [regs_assign_self]
      exact hy v
    · cases hrun.symm.trans he
      change SameDirty d.io.bus io.bus
      rwa [halike.bus]

/-- `lw x1, 16(x0)` in supervisor mode, with an entry of the root table for the first pages. -/
def loadsWord (entry : BitVec 32) : Iss := paged [entry, 0x01002083#32] SupervisorMode 4#32

/-- The load is about to be executed, with an entry of a dirty page that permits all accesses. -/
def loadsDirty : Iss := { loadsWord 0xcf#32 with op := .LW, instr := ⟨0x01002083#32⟩ }

theorem loadsAsRead_dirty : LoadsAsRead loadsDirty 16#64 := by
  have hfound : lookup loadsDirty.io.bus loadsDirty.view 16#64 .LOAD true 2
      (rootTable loadsDirty.view) = .page ⟨16#64, 0#64, 0xcf#64⟩ := by decide +kernel
  have haddr : loadsDirty.loadAddress.concrete.setWidth 64 = 16#64 := by decide +kernel
  have hmode : effectiveMode loadsDirty.view .LOAD = SupervisorMode := by decide +kernel
  have hread : loadsDirty.io.readAddress loadsDirty.view
      (loadsDirty.loadAddress.concrete.setWidth 64) = some 16#64 := by decide +kernel
  have hcoherent : Coherent loadsDirty.view loadsDirty.io :=
    coherent_flushTlb loadsDirty.view loadsDirty.io
  obtain ⟨m, hfind, hsize⟩ :
      ∃ m, loadsDirty.io.bus.find 16#64 = some (⟨0#64, 0xfff#64⟩, .memory m) ∧
      m.size = 0x1000 := ⟨_, rfl, rfl⟩
  have hfits : ((loadPayload 16#64 4).behind ⟨0#64, 0xfff#64⟩).Fits m.size := by
    rw [hsize]
    decide
  refine (loadsAsRead_iff (by decide) (by decide +kernel) (by decide) rfl
    hcoherent (by simp [hmode])
    hread hfind hfits).mpr fun mmu leaf hmmu _ hleaf => ?_
  cases hmmu
  rw [haddr, hmode] at hleaf ⊢
  cases hfound.symm.trans hleaf
  exact ⟨rfl, by decide, by decide, .inr ⟨by decide, .inl (by decide)⟩⟩

/-- A load from a page that permits to read and to execute, but not to write. -/
theorem load_read_only_page : ∃ d t, prepare (loadsWord 0x4b#32).begun = .ok () d ∧ d.op = .LW ∧
    d.io.readAddress d.view (d.loadAddress.concrete.setWidth 64) = some 16#64 ∧
    execute d.op d = .error (.trap .EXC_STORE_AMO_PAGE_FAULT 16#64) t ∧ ¬ LoadsAsRead d 16#64 := by
  have hrun : returnsIn (fun d => decide (d.op = .LW ∧
      d.io.readAddress d.view (d.loadAddress.concrete.setWidth 64) = some 16#64) &&
      decide (Effect.thrown (execute d.op d) = some (.trap .EXC_STORE_AMO_PAGE_FAULT 16#64)))
      (prepare (loadsWord 0x4b#32).begun) = true := by
    decide +kernel
  obtain ⟨_, d, hd, h⟩ := eq_ok_of_returnsIn hrun
  obtain ⟨hstate, hthrown⟩ := Bool.and_eq_true_iff.mp h
  obtain ⟨hop, hread⟩ := of_decide_eq_true hstate
  obtain ⟨t, ht⟩ := eq_error_of_thrown (of_decide_eq_true hthrown)
  refine ⟨d, t, hd, hop, hread, ht, fun h => ?_⟩
  obtain ⟨e, he⟩ := h.completes
  cases ht.symm.trans he

end Iss

end SpsVp.Rv32
