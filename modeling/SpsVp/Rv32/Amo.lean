import SpsVp.Rv32.Reservation
import SpsVp.Rv32.Operation
import SpsVp.Rv32.Sv32

/-!
# Atomic memory operations

An atomic memory operation locks the bus, loads, and stores, and `atomic_store_word` asserts that
the lock is still held. The page-table walker stores through the same interface when it sets
accessed and dirty bits, and every store gives up the lock. So an operation is atomic just if the
translation of its address does not have to set such a bit (`readsModifiesWrites_iff`).
-/

namespace SpsVp.Rv32

open Lib Effect Clover Klee Platform Interface ConcolicValue

/-! ## Operations -/

/-- The operation of an atomic memory operation on words. -/
def Specification.amo : Mapping → BitVec 32 → BitVec 32 → BitVec 32
  | .AMOADD_W => fun a b => a + b
  | .AMOXOR_W => fun a b => a ^^^ b
  | .AMOAND_W => fun a b => a &&& b
  | .AMOOR_W => fun a b => a ||| b
  | .AMOMIN_W => fun a b => if a.toInt < b.toInt then a else b
  | .AMOMINU_W => fun a b => if a.toNat < b.toNat then a else b
  | .AMOMAX_W => fun a b => if a.toInt < b.toInt then b else a
  | .AMOMAXU_W => fun a b => if a.toNat < b.toNat then b else a
  | _ => fun _ b => b

/-- The operation on concolic values is the one on words, concretely and under every assignment. -/
theorem part_amoOperation (m : Option Valuation) (op : Mapping) (x y : ConcolicValue 32) :
    (Iss.amoOperation op x y).part m = Specification.amo op (x.part m) (y.part m) := by
  have hsecond : ∀ kind, ((x.compare kind y).select y x).part m =
      if kind.test (x.part m) (y.part m) = true then y.part m else x.part m := fun kind => by
    rw [part_select m fun h => (symbolic_compare_eq_none.mp h).symm,
      part_compare, CmpKind.apply]
    simp only [Iss.ofBool_eq_one]
  have hfirst : ∀ kind, ((x.compare kind y).select x y).part m =
      if kind.test (x.part m) (y.part m) = true then x.part m else y.part m := fun kind => by
    rw [part_select m fun h => symbolic_compare_eq_none.mp h,
      part_compare, CmpKind.apply]
    simp only [Iss.ofBool_eq_one]
  have hsigned : ∀ a b : BitVec 32, b.sle a = true ↔ ¬ a.toInt < b.toInt := by
    simp [BitVec.sle]
  have hunsigned : ∀ a b : BitVec 32, b.ule a = true ↔ ¬ a.toNat < b.toNat := by
    simp [BitVec.ule]
  cases op with
  | AMOADD_W | AMOXOR_W | AMOAND_W | AMOOR_W => exact part_arithmetic m _ x y
  | AMOMIN_W =>
    simp only [Iss.amoOperation, Specification.amo, hsecond, CmpKind.test, hsigned, ite_not]
  | AMOMINU_W =>
    simp only [Iss.amoOperation, Specification.amo, hsecond, CmpKind.test, hunsigned, ite_not]
  | AMOMAX_W =>
    simp only [Iss.amoOperation, Specification.amo, hfirst, CmpKind.test, hsigned, ite_not]
  | AMOMAXU_W =>
    simp only [Iss.amoOperation, Specification.amo, hfirst, CmpKind.test, hunsigned, ite_not]
  | _ => rfl

namespace Iss

variable {s d e t u : Iss}

/-! ## The load -/

/-- The virtual address of an atomic memory operation. -/
def amoAddress (d : Iss) : BitVec 64 := (d.regs d.instr.rs1).value.concrete.setWidth 64

/-- The memory interface when the load of an atomic memory operation starts. -/
def amoLocked (d : Iss) : Interface :=
  { (d.noted (d.regs d.instr.rs1).value).io with busLock := d.io.busLock.lock d.view.hartId }

/-- What the translation for an atomic memory operation is. -/
def amoTranslation (d : Iss) : Interface.Translation × Interface :=
  Interface.translation d.amoLocked d.view d.amoAddress .STORE

/-- The lock does not matter for the bits that a translation sets. -/
theorem setsBits_amoLocked {mmu : Mmu} {leaf : Leaf} :
    SetsBits d.amoLocked d.view d.amoAddress .STORE mmu leaf ↔
      SetsBits d.io d.view d.amoAddress .STORE mmu leaf :=
  ⟨.congr rfl rfl, .congr rfl rfl⟩

/-- Page tables and operand of an atomic memory operation are not in a device, and the operand is
below 4 GiB, where the translation cache keeps all bits of its page. -/
structure AmoInMemory (d : Iss) : Prop where
  tables : d.amoTranslation.1 ≠ .device
  operand : ∀ paddr, d.amoTranslation.1 = .page paddr → d.amoTranslation.2.bus.Plain paddr
  low : ∀ paddr, d.amoTranslation.1 = .page paddr → paddr < 0x100000000#64

instance (d : Iss) : Decidable (AmoInMemory d) :=
  match htranslation : d.amoTranslation.1 with
  | .device => isFalse fun h => h.tables htranslation
  | .throws _ => isTrue ⟨fun h => (nomatch htranslation.symm.trans h),
      fun _ h => (nomatch htranslation.symm.trans h),
      fun _ h => (nomatch htranslation.symm.trans h)⟩
  | .page paddr => decidable_of_iff
      (d.amoTranslation.2.bus.Plain paddr ∧ paddr < 0x100000000#64)
      ⟨fun hmemory => ⟨fun h => (nomatch htranslation.symm.trans h), fun _ h =>
        Interface.Translation.page.inj (htranslation.symm.trans h) ▸ hmemory.1, fun _ h =>
        Interface.Translation.page.inj (htranslation.symm.trans h) ▸ hmemory.2⟩,
      fun h => ⟨h.operand paddr htranslation, h.low paddr htranslation⟩⟩

/-- The transaction of the load, for a physical address. -/
def amoAnswer (d : Iss) (paddr : BitVec 64) : Payload :=
  (d.amoTranslation.2.bus.transport (loadPayload paddr 4)).1.payload

theorem triple_amoLoad {depth : Nat} (hmemory : AmoInMemory d) :
    Triple (· = (d.noted (d.regs d.instr.rs1).value).io)
      (atomicLoadWord (Interface.transact d.view (depth + 1)) d.view
        (d.regs d.instr.rs1).value)
      (fun data io => (∃ paddr, d.amoTranslation.1 = .page paddr ∧
        (d.amoAnswer paddr).isResponseError = false ∧
        data = (loadedValue (d.amoAnswer paddr)).value.sext 32) ∧
        Alike d.view.hartId d.amoTranslation.2 io)
      (fun _ _ => d.amoTranslation.1 ≠ .device ∧ ∀ paddr, d.amoTranslation.1 = .page paddr →
        (d.amoAnswer paddr).isResponseError = true) := by
  refine .bind (Q := fun _ => Alike d.view.hartId d.amoLocked) (.modify ?_) fun _ => ?_
  · rintro _ rfl
    exact .refl _ _
  · have hload := triple_symbolicLoadData
      (t := d.amoTranslation.1) (d.regs d.instr.rs1).value rfl
      hmemory.tables hmemory.operand 4 depth
    refine .bind (hload.exc ?_) fun r => .pure ?_
    · rintro e io ⟨hthrows | ⟨paddr, hpage, herror, _⟩, _⟩
      · refine ⟨hmemory.tables, fun paddr hpage => ?_⟩
        cases hthrows.symm.trans hpage
      · refine ⟨hmemory.tables, fun paddr' hpage' => ?_⟩
        cases hpage.symm.trans hpage'
        exact herror
    · rintro io ⟨⟨paddr, hpage, hok, rfl⟩, h⟩
      exact ⟨⟨paddr, hpage, hok, rfl⟩, h⟩

section

variable (hdepth : 0 < d.depth) (hrequests : d.io.requests = []) (hmemory : AmoInMemory d)
include hdepth hrequests hmemory

variable {data : ConcolicValue 32}

theorem amoLoad_eq_ok
    (h : amoLoad (d.regs d.instr.rs1).value (d.noted (d.regs d.instr.rs1).value) = .ok data t) :
    ∃ paddr io, d.amoTranslation.1 = .page paddr ∧ (d.amoAnswer paddr).isResponseError = false ∧
      data = (loadedValue (d.amoAnswer paddr)).value.sext 32 ∧
      Alike d.view.hartId d.amoTranslation.2 io ∧
      t = { d.noted (d.regs d.instr.rs1).value with io } := by
  obtain ⟨depth, hdepth⟩ : ∃ depth, d.depth = depth + 1 := ⟨d.depth - 1, by omega⟩
  obtain ⟨io, hio, hserve⟩ := memory_eq_ok h
  have hdepth' : (d.noted (d.regs d.instr.rs1).value).depth = depth + 1 := hdepth
  rw [hdepth'] at hio
  obtain ⟨⟨paddr, hpage, hok, hdata⟩, halike⟩ := (triple_amoLoad hmemory).of_ok rfl hio
  have hnone : io.requests = [] :=
    halike.requests.trans ((requests_translation _ _ _ _).trans hrequests)
  rw [hnone] at hserve
  cases hserve
  exact ⟨paddr, { io with requests := [] }, hpage, hok, hdata,
    ⟨halike.bus, halike.mmu, halike.lock, halike.lrAddr, hnone.symm.trans halike.requests⟩, rfl⟩

theorem amoLoad_returns {paddr : BitVec 64} (hpage : d.amoTranslation.1 = .page paddr)
    (hok : (d.amoAnswer paddr).isResponseError = false) :
    ∃ data t, amoLoad (d.regs d.instr.rs1).value (d.noted (d.regs d.instr.rs1).value) =
      .ok data t := by
  obtain ⟨depth, hdepth⟩ : ∃ depth, d.depth = depth + 1 := ⟨d.depth - 1, by omega⟩
  cases hx : atomicLoadWord (Interface.transact d.view (depth + 1)) d.view
      (d.regs d.instr.rs1).value (d.noted (d.regs d.instr.rs1).value).io with
  | ok data io =>
    have halike := ((triple_amoLoad hmemory).of_ok rfl hx).2
    have hnone : io.requests = [] :=
      halike.requests.trans ((requests_translation _ _ _ _).trans hrequests)
    refine ⟨data, { d.noted (d.regs d.instr.rs1).value with io := { io with requests := [] } }, ?_⟩
    rw [amoLoad, memory_of_ok (a := data) (by
      change atomicLoadWord (Interface.transact d.view d.depth) d.view _ _ = _
      rw [hdepth]
      exact hx), hnone]
    rfl
  | error e io =>
    have herror := ((triple_amoLoad hmemory).of_error rfl hx).2 paddr hpage
    exact absurd (hok.symm.trans herror) Bool.false_ne_true

/-- The lock is lost just if the translation sets a bit and the word can be read. -/
theorem amoLoad_isLocked
    (h : amoLoad (d.regs d.instr.rs1).value (d.noted (d.regs d.instr.rs1).value) = .ok data t) :
    t.holdsLock = true ↔
      ¬ ∃ mmu leaf, SetsBits d.io d.view d.amoAddress .STORE mmu leaf := by
  obtain ⟨paddr, io, hpage, _, _, halike, rfl⟩ := amoLoad_eq_ok hdepth hrequests hmemory h
  have hlocked : d.amoLocked.busLock.isLocked d.view.hartId = true := by
    simp [amoLocked, BusLock.lock, BusLock.isLocked]
  have hlock := halike.lock
  have htranslation : Interface.translation d.amoLocked d.view d.amoAddress .STORE =
      (.page paddr, d.amoTranslation.2) := Prod.ext hpage rfl
  change io.busLock.isLocked d.view.hartId = true ↔ _
  rw [hlock]
  obtain ⟨mmu, leaf, hsets, _, hio⟩ | ⟨hsets, _, hbusLock⟩ := translation_cases htranslation
  · refine iff_of_false ?_ (not_not_intro ⟨mmu, leaf, setsBits_amoLocked.mp hsets⟩)
    rw [hio]
    exact ne_of_eq_of_ne (BusLock.isLocked_unlock _ _) Bool.false_ne_true
  · refine iff_of_true ?_ fun ⟨mmu, leaf, h⟩ => hsets ⟨mmu, leaf, setsBits_amoLocked.mpr h⟩
    rw [hbusLock]
    exact hlocked

/-! ## The store -/

/-- The store of an atomic memory operation, with the translation of its load. -/
theorem amoStore_eq_ok {paddr : BitVec 64} {io : Interface} {value : ConcolicValue 32}
    (hpage : d.amoTranslation.1 = .page paddr)
    (halike : Alike d.view.hartId d.amoTranslation.2 io)
    (h : memory (fun transact view => atomicStoreWord transact view
      (d.regs d.instr.rs1).value value) { d.noted (d.regs d.instr.rs1).value with io } = .ok () u) :
    u.regs = d.regs ∧ u.instr = d.instr ∧ u.io.bus =
      (d.amoTranslation.2.bus.transport (storePayload paddr value 4)).2 := by
  obtain ⟨depth, hdepth⟩ : ∃ depth, d.depth = depth + 1 := ⟨d.depth - 1, by omega⟩
  obtain ⟨io', hio', hserve⟩ := memory_eq_ok h
  change atomicStoreWord (Interface.transact d.view d.depth) d.view _ _ io = _ at hio'
  rw [hdepth] at hio'
  have hagain : Interface.translation d.amoTranslation.2 d.view d.amoAddress .STORE =
      (.page paddr, d.amoTranslation.2) :=
    translation_again (Prod.ext hpage rfl) (hmemory.low paddr hpage)
  have hstore := triple_symbolicStoreData
    (t := .page paddr) (d.regs d.instr.rs1).value hagain nofun
    (fun paddr' hpaddr => hmemory.operand paddr' (hpage.trans hpaddr)) value 4 depth
  obtain ⟨_, _, hget, hasserts⟩ := bind_eq_ok hio'
  cases hget
  obtain ⟨_, _, hensure, hword⟩ := bind_eq_ok hasserts
  obtain ⟨_, rfl⟩ := ensure_eq_ok hensure
  obtain ⟨paddr', hpaddr, _, halike'⟩ := hstore.of_ok halike hword
  cases hpaddr
  have hnone : io'.requests = [] :=
    halike'.requests.trans ((requests_translation _ _ _ _).trans hrequests)
  rw [hnone] at hserve
  cases hserve
  exact ⟨rfl, rfl, halike'.bus⟩

end

/-- An atomic memory operation has put the old word into its register and the new one into
memory. -/
structure UpdatesWord (d e : Iss) (paddr : BitVec 64) (port : PortMapping) (m m' : SymbolicMemory)
    (value : ConcolicValue 32) : Prop where
  translated : (Interface.translation d.io d.view d.amoAddress .STORE).1 = .page paddr
  before : d.io.bus.find paddr = some (port, .memory m)
  after : e.io.bus.find paddr = some (port, .memory m')
  stored : e.io.bus = (d.io.bus.transport (storePayload paddr value 4)).2
  register : ∀ v, (e.regs d.instr.rd).value.part v = m.contents v (port.globalToLocal paddr) 4
  memory : ∀ v, m'.contents v (port.globalToLocal paddr) 4 = Specification.amo d.op
    (m.contents v (port.globalToLocal paddr) 4) ((d.regs d.instr.rs2).value.part v)

theorem updatesWord_of_executeAmo (hdepth : 0 < d.depth) (hrequests : d.io.requests = [])
    (hmemory : AmoInMemory d)
    (hsets : ¬ ∃ mmu leaf, SetsBits d.io d.view d.amoAddress .STORE mmu leaf)
    (h : executeAmo (amoOperation d.op) d = .ok () e) :
    ∃ paddr port m m' value, UpdatesWord d e paddr port m m' value := by
  obtain ⟨_, data, t, u, hload, hstore, rfl⟩ := executeAmo_eq_ok h
  obtain ⟨paddr, io, hpage, hok, hdata, halike, rfl⟩ := amoLoad_eq_ok hdepth hrequests hmemory hload
  obtain ⟨hregs, hinstr, hbus⟩ := amoStore_eq_ok hdepth hrequests hmemory hpage halike hstore
  have hcongr := translation_congr (show d.amoLocked.bus = d.io.bus from rfl)
    (show d.amoLocked.mmu = d.io.mmu from rfl) d.view d.amoAddress .STORE
  have hpage' : (Interface.translation d.io d.view d.amoAddress .STORE).1 = .page paddr :=
    hcongr.1.symm.trans hpage
  -- nothing has been written before the store
  have hbefore : d.amoTranslation.2.bus = d.io.bus := by
    obtain ⟨mmu, leaf, hset, _⟩ | ⟨_, hbus, _⟩ := translation_cases
      (show Interface.translation d.amoLocked d.view d.amoAddress .STORE =
        (.page paddr, d.amoTranslation.2) from Prod.ext hpage rfl)
    · exact absurd ⟨mmu, leaf, setsBits_amoLocked.mp hset⟩ hsets
    · exact hbus
  have hplain := hmemory.operand paddr hpage
  obtain ⟨port, m, hfind, hfits⟩ := hplain.memory hok
  change d.amoTranslation.2.bus.find paddr = some (port, .memory m) at hfind
  have hdata' : ∀ v, data.part v = m.contents v (port.globalToLocal paddr) 4 := by
    intro v
    rw [hdata, amoAnswer, loadedValue_of_memory hfind hfits, part_sext]
    exact (BitVec.signExtend_eq _).trans (SymbolicMemory.part_load_contents v m _ 4)
  rw [hbefore] at hbus hfind
  let value := amoOperation d.op data (d.regs d.instr.rs2).value
  refine ⟨paddr, port, m, m.writeData ((storePayload paddr value 4).behind port), value,
    hpage', hfind, ?_, hbus, fun v => ?_, fun v => ?_⟩
  · have hwrite : m.transport ((storePayload paddr value 4).behind port) = _ :=
      SymbolicMemory.transport_of_write hfits rfl
    have hafter := SimpleBus.find_transport (show d.io.bus.find
      (storePayload paddr value 4).address = some (port, .memory m) from hfind) paddr
    rw [hfind] at hafter
    change u.io.bus.find paddr = _
    rw [hbus]
    refine hafter.trans (congrArg some ((if_pos rfl).trans ?_))
    exact congrArg (fun r => (port, Target.memory r.2)) hwrite
  · rw [← hinstr, regs_assign_self]
    exact hdata' v
  · have hlength : ((storePayload paddr value 4).behind port).length ≤ 2 ^ 32 :=
      show 4 ≤ 2 ^ 32 by decide
    have hcontents := SymbolicMemory.contents_writeData v m hlength rfl
    rw [← hdata' v, ← part_amoOperation]
    exact hcontents

/-! ## Atomicity -/

/-- What an atomic memory operation should do in a step from `s`, where it is executed in `d`. -/
structure ReadsModifiesWrites (s d : Iss) : Prop where
  /-- The lock is held from before the load until the store is made. -/
  held : ∀ data t, d.Permitted →
    amoLoad (d.regs d.instr.rs1).value (d.noted (d.regs d.instr.rs1).value) = .ok data t →
    t.holdsLock = true ∧ (Interface.translation t.io t.view d.amoAddress .STORE).2.busLock.isLocked
      (t.csrs .mhartid) = true
  asserts : ∀ t, execute d.op d ≠ .error (.abort .busLock) t
  updates : ∀ e, execute d.op d = .ok () e →
    ∃ paddr port m m' value, UpdatesWord d e paddr port m m' value
  releases : ∀ s', runStep s = .ok () s' → s'.holdsLock = false

/-- The page-table walker sets a bit for the load of an atomic memory operation. -/
def AmoSetsBits (d : Iss) : Prop :=
  ∃ mmu leaf, SetsBits d.io d.view d.amoAddress .STORE mmu leaf ∧
    (d.amoAnswer leaf.paddr).isResponseError = false

/-- The lock is free at the end of the step. -/
theorem unlocked_runStep {s' : Iss} (hbreak : ¬(s.debugMode = true ∧ s.pc ∈ s.breakpoints))
    (hd : prepare s.begun = .ok () d) (hop : d.op ∈ amos) (hrun : runStep s = .ok () s') :
    s'.holdsLock = false := by
  rw [runStep_eq (zero_of_runStep hrun) hbreak] at hrun
  obtain ⟨_, t, htry, hretire⟩ := bind_eq_ok hrun
  obtain ⟨e, hstep, hinterrupt⟩ | ⟨_, _, hswitch⟩ := stepOrTrap_cases htry
  · rw [execStep_of_prepare hd, execute_eq_executeAmo hop] at hstep
    have he := (unlocked_executeAmo _).of_ok rfl hstep
    have ht := (keeps_takeInterrupt (lasting_unlocked _)).of_ok he hinterrupt
    exact ((keeps_retire (lasting_unlocked _)).of_ok ht hretire).holdsLock
  · exact unlocked_of_trap hswitch hretire

/-- Nothing is asked of the core when an instruction is about to be executed. -/
theorem requests_of_prepare (h : prepare s = .ok () d) : d.io.requests = [] := by
  obtain ⟨_, f, hfetch, hdecode⟩ := bind_eq_ok h
  obtain ⟨word, u, hmemory, rfl⟩ := fetch_eq_ok hfetch
  obtain ⟨instr, op, coverage, _, rfl⟩ := decode_ok hdecode
  have hrequests : u.io.requests = [] := requests_of_memory hmemory
  exact hrequests

theorem losesLock_iff (hop : d.op ∈ amos) (hdepth : 0 < d.depth) (hrequests : d.io.requests = [])
    (hmemory : AmoInMemory d) : LosesLock d ↔ d.Permitted ∧ AmoSetsBits d := by
  constructor
  · rintro ⟨_, hext, haligned, data, t, hload, hlock⟩
    have hlost := (amoLoad_isLocked hdepth hrequests hmemory hload).not.mp
      (ne_of_eq_of_ne hlock Bool.false_ne_true)
    obtain ⟨mmu, leaf, hsets⟩ := not_not.mp hlost
    obtain ⟨paddr, _, hpage, hok, _⟩ := amoLoad_eq_ok hdepth hrequests hmemory hload
    have hleaf := (setsBits_amoLocked.mpr hsets).translation
    cases hpage.symm.trans (congrArg Prod.fst hleaf)
    exact ⟨⟨hext, haligned⟩, mmu, leaf, hsets, hok⟩
  · rintro ⟨⟨hext, haligned⟩, mmu, leaf, hsets, hok⟩
    have hleaf := (setsBits_amoLocked.mpr hsets).translation
    obtain ⟨data, t, hload⟩ :=
      amoLoad_returns hdepth hrequests hmemory (congrArg Prod.fst hleaf) hok
    refine ⟨hop, hext, haligned, data, t, hload, Bool.eq_false_of_not_eq_true fun hlock => ?_⟩
    exact (amoLoad_isLocked hdepth hrequests hmemory hload).mp hlock ⟨mmu, leaf, hsets⟩

/-- A lock that is held after the load is held until the store is made. -/
theorem isLocked_until_store {data : ConcolicValue 32} (hdepth : 0 < d.depth)
    (hrequests : d.io.requests = []) (hmemory : AmoInMemory d)
    (hload : amoLoad (d.regs d.instr.rs1).value (d.noted (d.regs d.instr.rs1).value) = .ok data t)
    (hlock : t.holdsLock = true) :
    (Interface.translation t.io t.view d.amoAddress .STORE).2.busLock.isLocked (t.csrs .mhartid) =
      true := by
  obtain ⟨paddr, io, hpage, _, _, halike, rfl⟩ := amoLoad_eq_ok hdepth hrequests hmemory hload
  have hagain : Interface.translation d.amoTranslation.2 d.view d.amoAddress .STORE =
      (.page paddr, d.amoTranslation.2) :=
    translation_again (Prod.ext hpage rfl) (hmemory.low paddr hpage)
  have hcongr := translation_congr halike.bus halike.mmu d.view d.amoAddress .STORE
  rw [hagain] at hcongr
  -- a second update would have left the lock free after the first translation already
  obtain ⟨_, _, _, _, hio⟩ | ⟨hsets, _, _⟩ := translation_cases hagain
  · have hfree : d.amoTranslation.2.busLock.isLocked d.view.hartId = false := by
      rw [hio]
      exact BusLock.isLocked_unlock _ _
    exact absurd ((halike.lock.trans hfree).symm.trans hlock) Bool.false_ne_true
  · obtain ⟨mmu, leaf, hset, _⟩ | ⟨_, _, hbusLock⟩ := translation_cases
      (show Interface.translation io d.view d.amoAddress .STORE =
        (.page paddr, (Interface.translation io d.view d.amoAddress .STORE).2) from
        Prod.ext hcongr.1 rfl)
    · exact absurd ⟨mmu, leaf, hset.congr halike.bus.symm halike.mmu.symm⟩ hsets
    · exact (congrArg (·.isLocked d.view.hartId) hbusLock).trans hlock

/-- An atomic memory operation is atomic just if the page-table walker sets no bit for it. -/
theorem readsModifiesWrites_iff (hbreak : ¬(s.debugMode = true ∧ s.pc ∈ s.breakpoints))
    (hd : prepare s.begun = .ok () d) (hop : d.op ∈ amos) (hdepth : 0 < d.depth)
    (hmemory : AmoInMemory d) : ReadsModifiesWrites s d ↔ ¬(d.Permitted ∧ AmoSetsBits d) := by
  have hrequests := requests_of_prepare hd
  rw [← losesLock_iff hop hdepth hrequests hmemory]
  constructor
  · intro h hloses
    obtain ⟨t, ht⟩ := losesLock_throws hloses
    exact h.asserts t ht
  · intro hkeeps
    have hheld : ∀ data t, d.Permitted →
        amoLoad (d.regs d.instr.rs1).value (d.noted (d.regs d.instr.rs1).value) = .ok data t →
        t.holdsLock = true := fun data t hpermitted hload => by
      by_contra hlock
      exact hkeeps ⟨hop, hpermitted.1, hpermitted.2, data, t, hload,
        Bool.eq_false_of_not_eq_true hlock⟩
    refine ⟨fun data t hpermitted hload => ?_, fun t ht => hkeeps (losesLock_of_throws hop ht),
      fun e he => ?_, fun s' hrun => unlocked_runStep hbreak hd hop hrun⟩
    · have hlock := hheld data t hpermitted hload
      exact ⟨hlock, isLocked_until_store hdepth hrequests hmemory hload hlock⟩
    · rw [execute_eq_executeAmo hop] at he
      obtain ⟨hpermitted, data, t, u, hload, _⟩ := executeAmo_eq_ok he
      have hlock := hheld data t hpermitted hload
      exact updatesWord_of_executeAmo hdepth hrequests hmemory
        ((amoLoad_isLocked hdepth hrequests hmemory hload).mp hlock) he

/-- `amoadd.w x1, x2, (x3)` in supervisor mode, with `x3` the address 16. The word at address zero
is the entry of the root table for the first pages. -/
def addsAtomically (entry : BitVec 32) : Iss :=
  (paged [entry, 0x0021a0af#32] SupervisorMode 4#32).assign 3#5 ⟨16#32, none⟩

/-- The page is dirty. -/
theorem readsModifiesWrites_dirty : ∃ d, prepare (addsAtomically 0xcf#32).begun = .ok () d ∧
    ReadsModifiesWrites (addsAtomically 0xcf#32) d := by
  have hrun : returnsIn (fun d => decide (d.op ∈ amos ∧ 0 < d.depth ∧ AmoInMemory d) &&
      returnsIn (fun _ => true) (execute d.op d)) (prepare (addsAtomically 0xcf#32).begun) =
      true := by
    decide +kernel
  obtain ⟨_, d, hd, h⟩ := eq_ok_of_returnsIn hrun
  obtain ⟨hstate, hexecute⟩ := Bool.and_eq_true_iff.mp h
  obtain ⟨hop, hdepth, hmemory⟩ := of_decide_eq_true hstate
  obtain ⟨_, e, he, _⟩ := eq_ok_of_returnsIn hexecute
  refine ⟨d, hd, (readsModifiesWrites_iff (by decide) hd hop hdepth hmemory).mpr fun h => ?_⟩
  obtain ⟨t, ht⟩ := losesLock_throws
    ((losesLock_iff hop hdepth (requests_of_prepare hd) hmemory).mpr h)
  cases he.symm.trans ht

/-- The walker sets the dirty bit of a page that is clean, and the assertion fails. -/
theorem amoadd_clean_page : ∃ d t, prepare (addsAtomically 0x4f#32).begun = .ok () d ∧
    d.op = .AMOADD_W ∧ AmoInMemory d ∧ execute d.op d = .error (.abort .busLock) t ∧
    ¬ ReadsModifiesWrites (addsAtomically 0x4f#32) d := by
  have hrun : returnsIn (fun d => decide (d.op = .AMOADD_W ∧ AmoInMemory d) &&
      decide (Effect.thrown (execute d.op d) = some (.abort .busLock)))
      (prepare (addsAtomically 0x4f#32).begun) = true := by
    decide +kernel
  obtain ⟨_, d, hd, h⟩ := eq_ok_of_returnsIn hrun
  obtain ⟨hstate, hthrown⟩ := Bool.and_eq_true_iff.mp h
  obtain ⟨hop, hmemory⟩ := of_decide_eq_true hstate
  obtain ⟨t, ht⟩ := eq_error_of_thrown (of_decide_eq_true hthrown)
  exact ⟨d, t, hd, hop, hmemory, ht, fun h => h.asserts t ht⟩

end Iss

end SpsVp.Rv32
