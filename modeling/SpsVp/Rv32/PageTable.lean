import SpsVp.Platform.Callback
import SpsVp.Platform.Memory
import SpsVp.Rv32.Access

/-!
# What a page-table walk does to the memory

`Walks` is a machine that may do to the bus what the MMU does: it reads entries of page tables,
starting at the root, follows the pointers in them, and sets the accessed and dirty bits of leaf
entries. It may also make any transaction that reads or fails. `Walks.kept` says what this leaves of
the memory: every byte that belongs to no updated entry is unchanged, and of an updated entry only
the two bits change, concretely.
-/

namespace SpsVp.Rv32

open Lib Clover Klee Platform BitVec SymbolicMemory

namespace Interface

/-- The transaction that reads an entry of a page table. -/
def entryRead (addr : BitVec 64) : Payload :=
  { command := .read, address := addr, data := List.replicate 4 0#8, length := 4 }

/-- The transaction that writes an entry of a page table. -/
def entryWrite (addr : BitVec 64) (value : BitVec 32) : Payload :=
  { command := .write, address := addr, data := bytesOfWord value, length := 4 }

/-- The entry of a page table at an address. -/
def entryAt (bus : SimpleBus) (addr : BitVec 64) : BitVec 64 :=
  (wordOfBytes (bus.transport (entryRead addr)).1.payload.data).setWidth 64

/-- The table that an entry points to. -/
def nextTable (pte : BitVec 64) : BitVec 64 := (pte >>> 10) <<< 12

def isPointer (pte : BitVec 64) : Bool :=
  pteFlag pte PTE_V && !pteFlag pte PTE_R && !pteFlag pte PTE_W && !pteFlag pte PTE_X

def isLeaf (pte : BitVec 64) : Bool :=
  pteFlag pte PTE_V && (pteFlag pte PTE_R || pteFlag pte PTE_X)

/-- The accessed bit, and the dirty bit for a store. -/
def accessBits (type : MemoryAccessType) : BitVec 64 :=
  PTE_A ||| (if type = .STORE then PTE_D else 0#64)

/-- Bus, current table and updated entries after some transactions of the MMU and others that read
or fail. -/
inductive Walks (root : BitVec 64) (bus₀ : SimpleBus) :
    SimpleBus → BitVec 64 → List (BitVec 64) → Prop where
  | start : Walks root bus₀ bus₀ root []
  | access {bus : SimpleBus} {table : BitVec 64} {entries : List (BitVec 64)} (payload : Payload)
      (h : Walks root bus₀ bus table entries) (hfresh : payload.isResponseError = false)
      (hpayload : payload.command = .read ∨
        (bus.transport payload).1.payload.isResponseError = true) :
      Walks root bus₀ (bus.transport payload).2 table entries
  | restart {bus : SimpleBus} {table : BitVec 64} {entries : List (BitVec 64)}
      (h : Walks root bus₀ bus table entries) : Walks root bus₀ bus root entries
  | descend {bus : SimpleBus} {table : BitVec 64} {entries : List (BitVec 64)} (field : BitVec 64)
      (h : Walks root bus₀ bus table entries) (hfield : field ≤ 0x3ff#64)
      (hpointer : isPointer (entryAt bus (table + field * 4)) = true) :
      Walks root bus₀ (bus.transport (entryRead (table + field * 4))).2
        (nextTable (entryAt bus (table + field * 4))) entries
  | update {bus : SimpleBus} {table : BitVec 64} {entries : List (BitVec 64)} (field : BitVec 64)
      (type : MemoryAccessType) (h : Walks root bus₀ bus table entries) (hfield : field ≤ 0x3ff#64)
      (hleaf : isLeaf (entryAt bus (table + field * 4)) = true) :
      Walks root bus₀
        ((bus.transport (entryRead (table + field * 4))).2.transport (entryWrite (table + field * 4)
          ((entryAt bus (table + field * 4) ||| accessBits type).setWidth 32))).2
        table ((table + field * 4) :: entries)

/-! ## Memories -/

/-- The bits of a byte that are neither the accessed nor the dirty bit. -/
abbrev otherBits : BitVec 8 := 0x3f#8

/-- What the updates of entries of page tables, at some addresses of a memory, leave of it. -/
structure Kept (entries : List (BitVec 32)) (m m' : SymbolicMemory) : Prop where
  size : m'.size = m.size
  bytes : ∀ addr, (∀ entry ∈ entries, ∀ off < 4, addr ≠ entry + BitVec.ofNat 32 off) →
    m'.memory.byteAt addr = m.memory.byteAt addr
  concrete : ∀ addr ∉ entries, m'.flat none addr = m.flat none addr
  bits : ∀ addr, m'.flat none addr &&& otherBits = m.flat none addr &&& otherBits

theorem Kept.refl (entries : List (BitVec 32)) (m : SymbolicMemory) : Kept entries m m :=
  ⟨rfl, fun _ _ => rfl, fun _ _ => rfl, fun _ => rfl⟩

theorem Kept.trans {entries entries' : List (BitVec 32)} {m m' m'' : SymbolicMemory}
    (h : Kept entries m m') (h' : Kept entries' m' m'') (hsub : entries ⊆ entries') :
    Kept entries' m m'' where
  size := h'.size.trans h.size
  bytes := fun addr haddr => (h'.bytes addr haddr).trans
    (h.bytes addr fun entry hentry => haddr entry (hsub hentry))
  concrete := fun addr haddr => (h'.concrete addr haddr).trans
    (h.concrete addr fun hmem => haddr (hsub hmem))
  bits := fun addr => (h'.bits addr).trans (h.bits addr)

/-- The bytes of a word that was read from memory. -/
theorem extract_wordOfBytes (bytes : List (BitVec 8)) {off : Nat} (hoff : off < 4) :
    (wordOfBytes bytes).extractLsb' (8 * off) 8 = bytes.getD off 0#8 := by
  apply eq_of_getLsbD_eq
  intro k hk
  rw [getLsbD_extractLsb', decide_eq_true hk, Bool.true_and]
  change (bytes.getD 3 0#8 ++ bytes.getD 2 0#8 ++ bytes.getD 1 0#8 ++ bytes.getD 0 0#8).getLsbD
    (8 * off + k) = _
  simp only [getLsbD_append]
  obtain rfl | rfl | rfl | rfl : off = 0 ∨ off = 1 ∨ off = 2 ∨ off = 3 := by omega
  · rw [if_pos (by omega), Nat.mul_zero, Nat.zero_add]
  · rw [if_neg (by omega), if_pos (by omega), Nat.add_sub_cancel_left]
  · rw [if_neg (by omega), if_neg (by omega), if_pos (by omega)]
    congr 1
    omega
  · rw [if_neg (by omega), if_neg (by omega), if_neg (by omega)]
    congr 1
    omega

theorem getD_bytesOfWord (word : BitVec 32) {off : Nat} (hoff : off < 4) :
    (bytesOfWord word).getD off 0#8 = word.extractLsb' (8 * off) 8 := by
  obtain rfl | rfl | rfl | rfl : off = 0 ∨ off = 1 ∨ off = 2 ∨ off = 3 := by omega
  all_goals rfl

theorem getLsbD_accessBits (type : MemoryAccessType) {i : Nat} (h : i < 6 ∨ 8 ≤ i) :
    (accessBits type).getLsbD i = false := by
  by_cases hi : i < 64
  · have hall : ∀ (type : Bool) (i : Fin 64), i.val < 6 ∨ 8 ≤ i.val →
        (PTE_A ||| (if type then PTE_D else 0#64)).getLsbD i = false := by decide
    have := hall (type = .STORE) ⟨i, hi⟩ h
    simpa [accessBits] using this
  · exact getLsbD_of_ge _ _ (by omega)

/-- The bytes of an updated entry. -/
theorem extract_updated (word : BitVec 32) (type : MemoryAccessType) (off : Nat) :
    ((word.setWidth 64 ||| accessBits type).setWidth 32).extractLsb' (8 * off) 8 &&& otherBits =
        word.extractLsb' (8 * off) 8 &&& otherBits ∧
      (off ≠ 0 → ((word.setWidth 64 ||| accessBits type).setWidth 32).extractLsb' (8 * off) 8 =
        word.extractLsb' (8 * off) 8) := by
  have hbit : ∀ k, 8 * off + k < 6 ∨ 8 ≤ 8 * off + k →
      ((word.setWidth 64 ||| accessBits type).setWidth 32).getLsbD (8 * off + k) =
        word.getLsbD (8 * off + k) := by
    intro k hk
    rw [getLsbD_setWidth, getLsbD_or, getLsbD_setWidth,
      getLsbD_accessBits type hk, Bool.or_false]
    by_cases h32 : 8 * off + k < 32
    · rw [decide_eq_true h32, decide_eq_true (by omega), Bool.true_and, Bool.true_and]
    · rw [decide_eq_false h32, Bool.false_and, getLsbD_of_ge _ _ (by omega)]
  constructor
  · apply eq_of_getLsbD_eq
    intro k hk
    rw [getLsbD_and, getLsbD_and, getLsbD_extractLsb',
      getLsbD_extractLsb']
    by_cases h6 : k < 6
    · rw [hbit k (by omega)]
    · have hmask : otherBits.getLsbD k = false := by
        obtain rfl | rfl : k = 6 ∨ k = 7 := by omega
        all_goals rfl
      rw [hmask, Bool.and_false, Bool.and_false]
  · intro hoff
    apply eq_of_getLsbD_eq
    intro k hk
    rw [getLsbD_extractLsb', getLsbD_extractLsb', hbit k (by omega)]

/-- A memory after the update of an entry. -/
theorem kept_update (m : SymbolicMemory) (addr : BitVec 64) (type : MemoryAccessType) :
    Kept [addr.setWidth 32] m (m.transport (entryWrite addr
      (((wordOfBytes (m.transport (entryRead addr)).1.data).setWidth 64 |||
        accessBits type).setWidth 32))).2 := by
  by_cases hfits : (entryRead addr).Fits m.size
  · rw [transport_of_read hfits rfl, data_readData]
    generalize hword : wordOfBytes _ = word
    have hbyte : ∀ off < 4, word.extractLsb' (8 * off) 8 =
        m.flat none ((entryRead addr).addressOf off) := by
      intro off hoff
      rw [← hword, extract_wordOfBytes _ hoff, List.getD_eq_getElem?_getD,
        List.getElem?_ofFn, dif_pos (show off < (entryRead addr).length from hoff)]
      rfl
    let payload := entryWrite addr ((word.setWidth 64 ||| accessBits type).setWidth 32)
    change Kept _ m (m.transport payload).2
    -- what the write leaves at an address
    have hcases : ∀ a, (m.transport payload).2.flat none a = m.flat none a ∨
        ∃ off < 4, a = (entryRead addr).addressOf off ∧ (m.transport payload).2.flat none a =
          ((word.setWidth 64 ||| accessBits type).setWidth 32).extractLsb' (8 * off) 8 := by
      intro a
      rw [flat_transport, Payload.writes, if_pos ⟨hfits, rfl⟩]
      obtain h | ⟨entry, hentry, ha, h⟩ := ByteMemory.write_cases (m.flat none)
        (List.ofFn fun off : Fin payload.length => (payload.addressOf off, payload.byte none off)) a
      · exact .inl h
      · obtain ⟨off, rfl⟩ := List.mem_ofFn.mp hentry
        exact .inr ⟨off, off.isLt, ha.symm, h.trans (getD_bytesOfWord _ off.isLt)⟩
    refine ⟨size_transport m payload, fun a ha => ?_, fun a ha => ?_, fun a => ?_⟩
    · have hdata : (m.transport payload).2.memory.data a = m.memory.data a :=
        data_transport_of_ne m fun off hoff => ha _ List.mem_cons_self off hoff
      rw [ConcolicMemory.byteAt, ConcolicMemory.byteAt, hdata]
    · obtain h | ⟨off, hoff, rfl, h⟩ := hcases a
      · exact h
      · have hne : off ≠ 0 := by
          rintro rfl
          exact ha (List.mem_singleton.mpr (add_zero _))
        rw [h, (extract_updated word type off).2 hne, hbyte off hoff]
    · obtain h | ⟨off, hoff, rfl, h⟩ := hcases a
      · rw [h]
      · rw [h, (extract_updated word type off).1, hbyte off hoff]
  · rw [transport_of_not_fits (show ¬ (entryWrite addr _).Fits m.size from hfits)]
    exact .refl _ m

/-- A memory after a transaction that reads or fails. -/
theorem transport_access {m : SymbolicMemory} {payload : Payload}
    (hfresh : payload.isResponseError = false)
    (h : payload.command = .read ∨ (m.transport payload).1.isResponseError = true) :
    (m.transport payload).2 = m := by
  by_cases hfits : payload.Fits m.size
  · cases hcommand : payload.command with
    | read => rw [transport_of_read hfits hcommand]
    | write =>
      rw [hcommand, transport_of_write hfits hcommand, hfresh] at h
      obtain h | h := h <;> cases h
  · rw [transport_of_not_fits hfits]

/-! ## The bus -/

/-- What the updates of entries leave of a target behind a port. -/
def KeptTarget (entries : List (BitVec 64)) (p p' : PortMapping × Target) : Prop :=
  p'.1 = p.1 ∧
    match p.2, p'.2 with
    | .memory m, .memory m' =>
      Kept (entries.map fun entry => (p.1.globalToLocal entry).setWidth 32) m m'
    | .device _, .device _ => True
    | _, _ => False

/-- What the updates of entries at some addresses leave of the targets of a bus. -/
def KeptBus (entries : List (BitVec 64)) (bus bus' : SimpleBus) : Prop :=
  List.Forall₂ (KeptTarget entries) bus bus'

theorem KeptTarget.refl (entries : List (BitVec 64)) (p : PortMapping × Target) :
    KeptTarget entries p p := by
  obtain ⟨port, target⟩ := p
  cases target with
  | memory m => exact ⟨rfl, .refl _ m⟩
  | device d => exact ⟨rfl, trivial⟩

variable {entries entries' : List (BitVec 64)} {bus : SimpleBus}

theorem KeptTarget.trans {p p' p'' : PortMapping × Target}
    (h : KeptTarget entries p p') (h' : KeptTarget entries' p' p'') (hsub : entries ⊆ entries') :
    KeptTarget entries' p p'' := by
  obtain ⟨port, target⟩ := p
  obtain ⟨port', target'⟩ := p'
  obtain ⟨port'', target''⟩ := p''
  obtain ⟨hport, h⟩ := h
  obtain ⟨hport', h'⟩ := h'
  dsimp only at hport hport'
  subst hport hport'
  refine ⟨rfl, ?_⟩
  cases target <;> cases target' <;> cases target'' <;> dsimp only at h h' ⊢
  exact h.trans h' (List.map_subset _ hsub)

theorem KeptBus.refl (entries : List (BitVec 64)) (bus : SimpleBus) : KeptBus entries bus bus :=
  List.forall₂_same.mpr fun p _ => .refl entries p

theorem KeptBus.trans {bus' bus'' : SimpleBus}
    (h : KeptBus entries bus bus') (h' : KeptBus entries' bus' bus'') (hsub : entries ⊆ entries') :
    KeptBus entries' bus bus'' := by
  induction h generalizing bus'' with
  | nil =>
    cases h'
    exact .nil
  | cons hp _ ih =>
    cases h' with
    | cons hp' h' => exact .cons (hp.trans hp' hsub) (ih h')

theorem KeptBus.weaken {bus' : SimpleBus}
    (h : KeptBus entries bus bus') (hsub : entries ⊆ entries') : KeptBus entries' bus bus' :=
  h.trans (.refl _ _) hsub

/-- A transaction that reads or fails. -/
theorem keptBus_access {payload : Payload} (hfresh : payload.isResponseError = false)
    (h : payload.command = .read ∨ (bus.transport payload).1.payload.isResponseError = true) :
    KeptBus [] bus (bus.transport payload).2 := by
  induction bus with
  | nil => exact .nil
  | cons p bus ih =>
    obtain ⟨port, target⟩ := p
    rw [SimpleBus.transport] at h ⊢
    split_ifs at h ⊢
    · refine .cons ⟨rfl, ?_⟩ (KeptBus.refl _ bus)
      cases target with
      | memory m =>
        have hm : (m.transport { payload with
            address := port.globalToLocal payload.address }).2 = m := transport_access hfresh h
        change Kept _ m (m.transport _).2
        rw [hm]
        exact .refl _ m
      | device d => trivial
    · exact .cons (.refl _ _) (ih h)

/-- The update of an entry. -/
theorem keptBus_update (bus : SimpleBus) (addr : BitVec 64) (type : MemoryAccessType) :
    KeptBus [addr] bus ((bus.transport (entryRead addr)).2.transport
      (entryWrite addr ((entryAt bus addr ||| accessBits type).setWidth 32))).2 := by
  induction bus with
  | nil => exact .nil
  | cons p bus ih =>
    obtain ⟨port, target⟩ := p
    by_cases hport : port.contains addr = true
    · have hread (value : BitVec 32) :
          (SimpleBus.transport ((port, target) :: bus) (entryRead addr)).2.transport
            (entryWrite addr value) = (((target.transport (entryRead
              (port.globalToLocal addr))).2.transport
                (entryWrite (port.globalToLocal addr) value)).1,
            (port, ((target.transport (entryRead (port.globalToLocal addr))).2.transport
              (entryWrite (port.globalToLocal addr) value)).2) :: bus) := by
        rw [SimpleBus.transport,
          if_pos (show port.contains (entryRead addr).address = true from hport)]
        exact if_pos hport
      have hentry : entryAt ((port, target) :: bus) addr = (wordOfBytes
          (target.transport (entryRead (port.globalToLocal addr))).1.payload.data).setWidth 64 := by
        rw [entryAt, SimpleBus.transport,
          if_pos (show port.contains (entryRead addr).address = true from hport)]
        rfl
      rw [hread, hentry]
      refine .cons ⟨rfl, ?_⟩ (KeptBus.refl _ bus)
      cases target with
      | memory m =>
        have hmemory : (m.transport (entryRead (port.globalToLocal addr))).2 = m :=
          transport_access rfl (.inl rfl)
        change Kept _ m ((m.transport (entryRead (port.globalToLocal addr))).2.transport _).2
        rw [hmemory]
        exact kept_update m (port.globalToLocal addr) type
      | device d => trivial
    · have hread : SimpleBus.transport ((port, target) :: bus) (entryRead addr) =
          ((SimpleBus.transport bus (entryRead addr)).1,
            (port, target) :: (SimpleBus.transport bus (entryRead addr)).2) :=
        if_neg hport
      have hwrite (bus' : SimpleBus) (value : BitVec 32) :
          SimpleBus.transport ((port, target) :: bus') (entryWrite addr value) =
            ((bus'.transport (entryWrite addr value)).1,
              (port, target) :: (bus'.transport (entryWrite addr value)).2) :=
        if_neg hport
      rw [entryAt, hread, hwrite]
      exact .cons (.refl _ _) ih

/-- What the machine leaves of the memory. -/
theorem Walks.kept {root table : BitVec 64} {bus₀ : SimpleBus}
    (h : Walks root bus₀ bus table entries) : KeptBus entries bus₀ bus := by
  induction h with
  | start => exact .refl _ _
  | access payload _ hfresh hpayload ih =>
    exact ih.trans ((keptBus_access hfresh hpayload).weaken (List.nil_subset _))
      (List.Subset.refl _)
  | restart _ ih => exact ih
  | descend field _ hfield hpointer ih =>
    exact ih.trans ((keptBus_access rfl (.inl rfl)).weaken (List.nil_subset _)) (List.Subset.refl _)
  | update field type _ hfield hleaf ih =>
    refine ih.trans ((keptBus_update _ _ type).weaken ?_) (List.subset_cons_self _ _)
    exact List.cons_subset_cons _ (List.nil_subset _)

end Interface

end SpsVp.Rv32
