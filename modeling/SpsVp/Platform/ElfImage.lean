import Mathlib.Data.List.Pairwise
import SpsVp.Lib.Triple
import SpsVp.Platform.Elf

/-!
# Loading an ELF image

A platform calls `load_executable_image` once for each of its memories. Every segment should then be
in the memory that has its addresses, loaded once. `image_loaded_iff` says for which files and
memories that is so: the assertion on the end of a segment is strict, so that a segment must not
fill its memory to the last byte, and a memory that reaches to the end of the address space is left
out, as its own end is computed with 32 bits.
-/

namespace SpsVp.Platform

open Lib Effect BitVec

/-- A memory of a platform and where it is. -/
structure PlacedMemory where
  offset : BitVec 32
  size : BitVec 32
  memory : LoadMemory
  size_eq : memory.size = size.toNat

namespace PlacedMemory

/-- The first address behind a memory. -/
def stop (m : PlacedMemory) : Nat := m.offset.toNat + m.size.toNat

/-- Two memories have no address in common. -/
def Disjoint (m m' : PlacedMemory) : Prop := m.stop ≤ m'.offset.toNat ∨ m'.stop ≤ m.offset.toNat

instance : Std.Symm Disjoint := ⟨fun _ _ h => h.symm⟩

end PlacedMemory

namespace ElfFile

variable {elf : ElfFile} {useVaddr : Bool} {m : PlacedMemory} {p : ProgramHeader}

/-- A segment is in a memory. -/
def Contains (useVaddr : Bool) (m : PlacedMemory) (p : ProgramHeader) : Prop :=
  m.offset.toNat ≤ (p.addr useVaddr).toNat ∧
    (p.addr useVaddr).toNat + p.pMemsz.toNat ≤ m.stop

instance : Decidable (Contains useVaddr m p) := inferInstanceAs (Decidable (_ ∧ _))

/-- How a segment should be loaded: the bytes of the file, and zeros up to the size in memory. -/
def segmentLoads (elf : ElfFile) (useVaddr : Bool) (m : PlacedMemory) (p : ProgramHeader) :
    List Load :=
  [⟨(p.addr useVaddr).toNat - m.offset.toNat, elf.fileBytes p⟩,
    ⟨(p.addr useVaddr).toNat - m.offset.toNat + p.pFilesz.toNat,
      List.replicate (p.pMemsz.toNat - p.pFilesz.toNat) 0#8⟩]

/-- What a memory should get: the segments that it contains, once and in order. -/
def expectedLoads (elf : ElfFile) (useVaddr : Bool) (m : PlacedMemory) : List Load :=
  (elf.getLoadSections.filter fun p => Contains useVaddr m p).flatMap (elf.segmentLoads useVaddr m)

/-- A memory gets some loads, and its bytes are changed by them alone. -/
structure Gets (t : LoadTarget) (loads : List Load) (t' : LoadTarget) : Prop where
  log : t'.log = t.log ++ loads
  size : t'.memory.size = t.memory.size
  bytes : ∀ v, ∀ a < 2 ^ 32,
    t'.memory.byte v a = ByteMemory.write (t.memory.byte v) (loads.flatMap Load.writes) a

/-- The image is loaded into a memory. -/
def LoadedInto (elf : ElfFile) (useVaddr : Bool) (m : PlacedMemory) : Prop :=
  ∃ t, elf.loadExecutableImage m.size m.offset useVaddr ⟨m.memory, []⟩ = .ok () t ∧
    Gets ⟨m.memory, []⟩ (elf.expectedLoads useVaddr m) t

/-! ## One load -/

theorem Gets.refl (t : LoadTarget) : Gets t [] t :=
  ⟨(List.append_nil _).symm, rfl, fun _ _ _ => rfl⟩

/-- Writes agree below a bound as far as the memories do. -/
theorem write_congr {n : Nat} {mem mem' : Nat → BitVec 8} (h : ∀ a < n, mem a = mem' a)
    (log : List (Nat × BitVec 8)) :
    ∀ a < n, ByteMemory.write mem log a = ByteMemory.write mem' log a := by
  intro a ha
  rw [ByteMemory.write_apply, ByteMemory.write_apply, h a ha]

variable {t t' : LoadTarget} {sections : List ProgramHeader}

theorem Gets.trans {t'' : LoadTarget} {loads loads' : List Load} (h : Gets t loads t')
    (h' : Gets t' loads' t'') : Gets t (loads ++ loads') t'' where
  log := by rw [h'.log, h.log, List.append_assoc]
  size := h'.size.trans h.size
  bytes := fun v a ha => by
    rw [h'.bytes v a ha, List.flatMap_append, ByteMemory.write_append]
    exact write_congr (h.bytes v) _ a ha

/-- A concrete byte is stored. -/
theorem part_store_byte (v : Option Klee.Valuation) (memory : Clover.ConcolicMemory)
    (addr : BitVec 32) (b : BitVec 8) (a : BitVec 32) :
    ((memory.store addr (⟨b, none⟩ : Clover.ConcolicValue 8) 1).byteAt a).part v =
      if a = addr then b else (memory.byteAt a).part v := by
  rw [Clover.ConcolicMemory.byteAt_store]
  change (Function.update memory.byteAt (addr + 0#32) _ a).part v = _
  rw [BitVec.add_zero]
  split_ifs with h
  · rw [h, Function.update_self, Clover.ConcolicValue.part_byte,
      Clover.ConcolicValue.part_of_concrete v rfl]
    exact extractLsb'_eq_self
  · rw [Function.update_of_ne h]

/-- Concrete bytes are stored one by one. -/
theorem part_store_bytes (v : Option Klee.Valuation) {log : List (Nat × BitVec 8)}
    (hlog : ∀ entry ∈ log, entry.1 < 2 ^ 32) (memory : Clover.ConcolicMemory) : ∀ a < 2 ^ 32,
      ((log.foldl (fun memory entry => memory.store (BitVec.ofNat 32 entry.1)
        (⟨entry.2, none⟩ : Clover.ConcolicValue 8) 1) memory).byteAt (BitVec.ofNat 32 a)).part v =
        ByteMemory.write (fun a => (memory.byteAt (BitVec.ofNat 32 a)).part v) log a := by
  induction log generalizing memory with
  | nil => exact fun _ _ => rfl
  | cons entry log ih =>
    intro a ha
    rw [List.foldl_cons, ih (fun e he => hlog e (List.mem_cons_of_mem _ he)) _ a ha]
    change _ = ByteMemory.write (Function.update _ entry.1 entry.2) log a
    refine write_congr (fun a ha => ?_) log a ha
    have haddr : BitVec.ofNat 32 a = BitVec.ofNat 32 entry.1 ↔ a = entry.1 := by
      have hentry := hlog entry List.mem_cons_self
      rw [← toNat_inj, toNat_ofNat, toNat_ofNat, Nat.mod_eq_of_lt ha,
        Nat.mod_eq_of_lt hentry]
    rw [part_store_byte, Function.update_apply]
    simp only [haddr]

/-- A load to a memory that has the addresses. -/
theorem gets_load {l : Load} (hsize : t.memory.size ≤ 2 ^ 32)
    (hdst : l.dst + l.bytes.length ≤ t.memory.size) :
    ∃ t', LoadTarget.load l t = .ok () t' ∧ Gets t [l] t' := by
  obtain ⟨memory, log⟩ := t
  have hwrites : [l].flatMap Load.writes = l.writes := List.append_nil _
  cases memory with
  | simple m =>
    refine ⟨_, if_pos hdst, rfl, rfl, fun v a _ => ?_⟩
    rw [hwrites]
    rfl
  | symbolic m =>
    refine ⟨_, rfl, rfl, rfl, fun v a ha => ?_⟩
    rw [hwrites]
    refine part_store_bytes v (fun entry hentry => ?_) m.memory a ha
    obtain ⟨k, rfl⟩ := List.mem_ofFn.mp hentry
    have := k.isLt
    dsimp only
    omega

/-- Every load is recorded. -/
theorem log_load {l : Load} (h : LoadTarget.load l t = .ok () t') :
    t'.log = t.log ++ [l] := by
  obtain ⟨memory, log⟩ := t
  unfold LoadTarget.load at h
  cases memory with
  | simple m =>
    dsimp only at h
    split_ifs at h
    cases h
    rfl
  | symbolic m =>
    cases h
    rfl

/-! ## One segment -/

/-- The test of the loader for the segments of a memory. -/
def Taken (useVaddr : Bool) (m : PlacedMemory) (p : ProgramHeader) : Prop :=
  p.addr useVaddr ≥ m.offset ∧ p.addr useVaddr < m.offset + m.size

instance : Decidable (Taken useVaddr m p) := inferInstanceAs (Decidable (_ ∧ _))

/-- A segment ends before the last byte of its memory, which ends before the last address. -/
structure Fits (useVaddr : Bool) (m : PlacedMemory) (p : ProgramHeader) : Prop where
  fileSize : p.pFilesz ≤ p.pMemsz
  before : (p.addr useVaddr).toNat + p.pMemsz.toNat < m.stop
  bounded : m.stop < 2 ^ 32

theorem toNat_stop (h : m.stop < 2 ^ 32) : (m.offset + m.size).toNat = m.stop := by
  rw [toNat_add]
  exact Nat.mod_eq_of_lt h

/-- The test with 32 bits fails for every address if the end of the memory overflows. -/
theorem taken_iff : Taken useVaddr m p ↔ m.offset.toNat ≤ (p.addr useVaddr).toNat ∧
    (p.addr useVaddr).toNat < m.stop ∧ m.stop < 2 ^ 32 := by
  have hsize := m.size.isLt
  unfold Taken PlacedMemory.stop
  rw [ge_iff_le, le_def, lt_def, toNat_add]
  omega

theorem loadSection_eq : elf.loadSection m.size m.offset useVaddr p =
    if ¬ Taken useVaddr m p then pure ()
    else if ¬ p.addr useVaddr ≥ m.offset then throw .offsetOverlaps
    else if ¬ p.addr useVaddr + p.pMemsz < m.offset + m.size then throw .doesNotFit
    else (do
      LoadTarget.loadData (elf.fileBytes p) (p.addr useVaddr - m.offset)
      loadRest p (p.addr useVaddr - m.offset)) :=
  rfl

theorem loadSection_of_not_taken (h : ¬ Taken useVaddr m p) (t : LoadTarget) :
    elf.loadSection m.size m.offset useVaddr p t = .ok () t := by
  rw [loadSection_eq, if_pos h]
  rfl

/-- The loads of a segment that is taken and passes the first assertions. -/
theorem loadSection_of_taken (h : Taken useVaddr m p)
    (hbefore : p.addr useVaddr + p.pMemsz < m.offset + m.size) :
    elf.loadSection m.size m.offset useVaddr p = (do
      LoadTarget.loadData (elf.fileBytes p) (p.addr useVaddr - m.offset)
      loadRest p (p.addr useVaddr - m.offset)) := by
  rw [loadSection_eq, if_neg (not_not.mpr h), if_neg (not_not.mpr h.1),
    if_neg (not_not.mpr hbefore)]

theorem length_fileBytes (elf : ElfFile) (p : ProgramHeader) :
    (elf.fileBytes p).length = p.pFilesz.toNat :=
  List.length_ofFn

/-- A segment that fits is loaded as it should. -/
theorem gets_of_fits (htaken : Taken useVaddr m p) (hfits : Fits useVaddr m p)
    (hsize : t.memory.size = m.size.toNat) :
    ∃ t', elf.loadSection m.size m.offset useVaddr p t = .ok () t' ∧
      Gets t (elf.segmentLoads useVaddr m p) t' := by
  obtain ⟨hlow, hhigh, hstop⟩ := taken_iff.mp htaken
  have hfile : p.pFilesz.toNat ≤ p.pMemsz.toNat := hfits.fileSize
  have hend := hfits.before
  have hstop_eq : m.stop = m.offset.toNat + m.size.toNat := rfl
  have hbefore : p.addr useVaddr + p.pMemsz < m.offset + m.size := by
    rw [lt_def, toNat_stop hstop, toNat_add, Nat.mod_eq_of_lt (by omega)]
    exact hend
  have hidx : (p.addr useVaddr - m.offset).toNat = (p.addr useVaddr).toNat - m.offset.toNat :=
    toNat_sub_of_le hlow
  have hrest : (p.addr useVaddr - m.offset + p.pFilesz).toNat =
      (p.addr useVaddr).toNat - m.offset.toNat + p.pFilesz.toNat := by
    rw [toNat_add, hidx, Nat.mod_eq_of_lt (by omega)]
  have hzeros : (p.pMemsz - p.pFilesz).toNat = p.pMemsz.toNat - p.pFilesz.toNat :=
    toNat_sub_of_le hfits.fileSize
  have hbound : t.memory.size ≤ 2 ^ 32 := hsize ▸ Nat.le_of_lt m.size.isLt
  obtain ⟨u, hu, hgets⟩ := gets_load
    (l := ⟨(p.addr useVaddr).toNat - m.offset.toNat, elf.fileBytes p⟩) hbound (by
      change (p.addr useVaddr).toNat - m.offset.toNat + (elf.fileBytes p).length ≤ _
      rw [length_fileBytes, hsize]
      omega)
  obtain ⟨t', ht', hgets'⟩ := gets_load (t := u)
    (l := ⟨(p.addr useVaddr).toNat - m.offset.toNat + p.pFilesz.toNat,
      List.replicate (p.pMemsz.toNat - p.pFilesz.toNat) 0#8⟩) (hgets.size ▸ hbound) (by
      change (p.addr useVaddr).toNat - m.offset.toNat + p.pFilesz.toNat +
        (List.replicate _ _).length ≤ _
      rw [List.length_replicate, hgets.size, hsize]
      omega)
  refine ⟨t', ?_, hgets.trans hgets'⟩
  have hdata : LoadTarget.loadData (elf.fileBytes p) (p.addr useVaddr - m.offset) t = .ok () u := by
    rw [LoadTarget.loadData, hidx]
    exact hu
  rw [loadSection_of_taken htaken hbefore, bind_of_ok hdata, loadRest,
    if_neg (not_not.mpr hfits.fileSize), LoadTarget.loadZero, hrest, hzeros]
  exact ht'

/-- The segments that are taken pass the assertions and come to two loads each. -/
theorem taken_of_ok (htaken : Taken useVaddr m p)
    (h : elf.loadSection m.size m.offset useVaddr p t = .ok () t') :
    p.addr useVaddr + p.pMemsz < m.offset + m.size ∧ p.pFilesz ≤ p.pMemsz ∧
      t'.log.length = t.log.length + 2 := by
  by_cases hbefore : p.addr useVaddr + p.pMemsz < m.offset + m.size
  · rw [loadSection_of_taken htaken hbefore] at h
    obtain ⟨_, u, hdata, hrest⟩ := bind_eq_ok h
    by_cases hfile : p.pFilesz ≤ p.pMemsz
    · rw [loadRest, if_neg (not_not.mpr hfile)] at hrest
      refine ⟨hbefore, hfile, ?_⟩
      rw [log_load hrest, log_load hdata, List.length_append, List.length_append]
      rfl
    · rw [loadRest, if_pos hfile] at hrest
      cases hrest
  · rw [loadSection_eq, if_neg (not_not.mpr htaken), if_neg (not_not.mpr htaken.1),
      if_pos hbefore] at h
    cases h

/-! ## The image -/

/-- A memory gets the segments that are taken, if they fit. -/
theorem gets_sections
    (hfits : ∀ p ∈ sections, Taken useVaddr m p → Fits useVaddr m p)
    (hsize : t.memory.size = m.size.toNat) :
    ∃ t', sections.forM (elf.loadSection m.size m.offset useVaddr) t = .ok () t' ∧
      Gets t ((sections.filter fun p => Taken useVaddr m p).flatMap
        (elf.segmentLoads useVaddr m)) t' := by
  induction sections generalizing t with
  | nil => exact ⟨t, rfl, .refl t⟩
  | cons p sections ih =>
    have hrest := fun p' hp' => hfits p' (List.mem_cons_of_mem p hp')
    by_cases htaken : Taken useVaddr m p
    · obtain ⟨u, hu, hgets⟩ := gets_of_fits htaken (hfits p List.mem_cons_self htaken) hsize
      obtain ⟨t', ht', hgets'⟩ := ih hrest (hgets.size.trans hsize)
      refine ⟨t', (bind_of_ok hu).trans ht', ?_⟩
      rw [List.filter_cons_of_pos (by simpa using htaken), List.flatMap_cons]
      exact hgets.trans hgets'
    · obtain ⟨t', ht', hgets'⟩ := ih hrest hsize
      refine ⟨t', (bind_of_ok (loadSection_of_not_taken htaken t)).trans ht', ?_⟩
      rwa [List.filter_cons_of_neg (by simpa using htaken)]

theorem passes_of_ok
    (h : sections.forM (elf.loadSection m.size m.offset useVaddr) t = .ok () t') :
    (∀ p ∈ sections, Taken useVaddr m p →
      p.addr useVaddr + p.pMemsz < m.offset + m.size ∧ p.pFilesz ≤ p.pMemsz) ∧
    t'.log.length = t.log.length + 2 * (sections.filter fun p => Taken useVaddr m p).length := by
  induction sections generalizing t with
  | nil =>
    cases h
    exact ⟨nofun, rfl⟩
  | cons p sections ih =>
    obtain ⟨_, u, hu, hrest⟩ := bind_eq_ok
      (x := elf.loadSection m.size m.offset useVaddr p) h
    obtain ⟨hpasses, hlength⟩ := ih hrest
    by_cases htaken : Taken useVaddr m p
    · obtain ⟨hbefore, hfile, htwo⟩ := taken_of_ok htaken hu
      refine ⟨List.forall_mem_cons.mpr ⟨fun _ => ⟨hbefore, hfile⟩, hpasses⟩, ?_⟩
      rw [List.filter_cons_of_pos (by simpa using htaken), List.length_cons, hlength, htwo]
      omega
    · rw [loadSection_of_not_taken htaken] at hu
      cases hu
      refine ⟨List.forall_mem_cons.mpr ⟨fun h => absurd h htaken, hpasses⟩, ?_⟩
      rwa [List.filter_cons_of_neg (by simpa using htaken)]

theorem length_expectedLoads (elf : ElfFile) (useVaddr : Bool) (m : PlacedMemory) :
    (elf.expectedLoads useVaddr m).length =
      2 * (elf.getLoadSections.filter fun p => Contains useVaddr m p).length := by
  unfold expectedLoads
  generalize (elf.getLoadSections.filter fun p => Contains useVaddr m p) = sections
  induction sections with
  | nil => rfl
  | cons p sections ih =>
    rw [List.flatMap_cons, List.length_append, ih, List.length_cons]
    change 2 + _ = _
    omega

/-- A segment of some size that is taken for a memory is in no other one. -/
theorem contains_of_taken {memories : List PlacedMemory}
    (hdisjoint : memories.Pairwise PlacedMemory.Disjoint) (hm : m ∈ memories)
    (hcontained : ∃ m' ∈ memories, Contains useVaddr m' p) (hsize : 0 < p.pMemsz.toNat)
    (htaken : Taken useVaddr m p) : Contains useVaddr m p := by
  obtain ⟨m', hm', hlow', hhigh'⟩ := hcontained
  obtain ⟨hlow, hhigh, _⟩ := taken_iff.mp htaken
  by_cases heq : m = m'
  · exact heq ▸ ⟨hlow', hhigh'⟩
  · have happart : m.stop ≤ m'.offset.toNat ∨ m'.stop ≤ m.offset.toNat :=
      hdisjoint.forall hm hm' heq
    omega

/-- A segment that is loaded has a size. -/
theorem pMemsz_pos (hp : p ∈ elf.getLoadSections) (hfile : p.pFilesz ≤ p.pMemsz) :
    0 < p.pMemsz.toNat := by
  have hnonempty := (of_decide_eq_true (List.mem_filter.mp hp).2).2
  by_contra hzero
  have hmem : p.pMemsz = 0#32 := eq_of_toNat_eq (Nat.eq_zero_of_not_pos hzero)
  rw [hmem] at hfile hnonempty
  exact hnonempty ⟨le_zero_iff.mp hfile, rfl⟩

/-- Every segment is loaded once into the memory that contains it just if it ends before the last
byte of the memory, the memory ends before the last address, and no segment has more bytes in the
file than in memory. -/
theorem image_loaded_iff (elf : ElfFile) (useVaddr : Bool) {memories : List PlacedMemory}
    (hdisjoint : memories.Pairwise PlacedMemory.Disjoint)
    (hcontained : ∀ p ∈ elf.getLoadSections, ∃ m ∈ memories, Contains useVaddr m p) :
    (∀ m ∈ memories, LoadedInto elf useVaddr m) ↔
      ∀ p ∈ elf.getLoadSections, ∀ m ∈ memories, Contains useVaddr m p → Fits useVaddr m p := by
  constructor
  · intro hloaded p hp m hm hcontains
    obtain ⟨t, ht, hgets⟩ := hloaded m hm
    obtain ⟨hpasses, hlength⟩ := passes_of_ok ht
    -- the segments that are taken are among those that the memory contains, and as many
    have hsubset : ∀ p ∈ elf.getLoadSections, Taken useVaddr m p → Contains useVaddr m p :=
      fun p hp htaken => contains_of_taken hdisjoint hm (hcontained p hp)
        (pMemsz_pos hp (hpasses p hp htaken).2) htaken
    have htaken : Taken useVaddr m p := by
      have hcount : ((elf.getLoadSections.filter fun p => Contains useVaddr m p).filter
          fun p => Taken useVaddr m p).length =
          (elf.getLoadSections.filter fun p => Contains useVaddr m p).length := by
        rw [List.filter_filter, List.filter_congr (q := fun p => decide (Taken useVaddr m p))
          fun p hp => by simpa using hsubset p hp]
        have hexpected := length_expectedLoads elf useVaddr m
        rw [hgets.log] at hlength
        change (elf.expectedLoads useVaddr m).length = 0 + _ at hlength
        omega
      exact of_decide_eq_true (List.length_filter_eq_length_iff.mp hcount p
        (List.mem_filter.mpr ⟨hp, decide_eq_true hcontains⟩))
    obtain ⟨hbefore, hfile⟩ := hpasses p hp htaken
    obtain ⟨_, _, hstop⟩ := taken_iff.mp htaken
    refine ⟨hfile, ?_, hstop⟩
    have hend := hcontains.2
    rw [lt_def, toNat_stop hstop, toNat_add, Nat.mod_eq_of_lt (by omega)] at hbefore
    exact hbefore
  · intro hfits m hm
    have htaken : ∀ p ∈ elf.getLoadSections, Taken useVaddr m p ↔ Contains useVaddr m p := by
      intro p hp
      constructor
      · intro htaken
        obtain ⟨m', hm', hcontains⟩ := hcontained p hp
        exact contains_of_taken hdisjoint hm (hcontained p hp)
          (pMemsz_pos hp (hfits p hp m' hm' hcontains).fileSize) htaken
      · intro hcontains
        obtain ⟨_, hbefore, hstop⟩ := hfits p hp m hm hcontains
        exact taken_iff.mpr ⟨hcontains.1, by omega, hstop⟩
    obtain ⟨t, ht, hgets⟩ := gets_sections (m := m) (t := ⟨m.memory, []⟩)
      (fun p hp h => hfits p hp m hm ((htaken p hp).mp h)) m.size_eq
    refine ⟨t, ht, ?_⟩
    rw [expectedLoads, ← List.filter_congr fun p hp => decide_eq_decide.mpr (htaken p hp)]
    exact hgets

/-! ## Files -/

/-- A file with one segment, of which a word is in the file. -/
def oneSegment (addr memsz : BitVec 32) : ElfFile :=
  ofWords (headerWords 1#16 ++ segmentWords ptLoad 84#32 addr 4#32 memsz ++ [0xdeadbeef#32])

/-- A memory of 16 bytes. -/
def smallMemory (offset : BitVec 32) : PlacedMemory where
  offset := offset
  size := 16#32
  memory := .simple ⟨fun _ => 0#8, 16#32⟩
  size_eq := rfl

/-- A segment with room behind it. -/
theorem image_loaded_roomy :
    LoadedInto (oneSegment 0x1004#32 8#32) true (smallMemory 0x1000#32) := by
  have hsections : (oneSegment 0x1004#32 8#32).getLoadSections =
      [⟨ptLoad, 84#32, 0x1004#32, 0x1004#32, 4#32, 8#32⟩] := by
    decide +kernel
  refine (image_loaded_iff (oneSegment 0x1004#32 8#32) true (List.pairwise_singleton _ _)
    fun p hp => ⟨_, List.mem_singleton_self _, ?_⟩).mpr (fun p hp m hm _ => ?_) _
    (List.mem_singleton_self _)
  · rw [hsections, List.mem_singleton] at hp
    subst hp
    decide
  · rw [hsections, List.mem_singleton] at hp
    rw [List.mem_singleton] at hm
    subst hp hm
    exact ⟨by decide, by decide, by decide⟩

/-- A segment that ends with its memory, and one in a memory that ends with the address space. -/
theorem full_memory_not_loaded :
    (∀ p ∈ (oneSegment 0x1008#32 8#32).getLoadSections, Contains true (smallMemory 0x1000#32) p) ∧
    ¬ LoadedInto (oneSegment 0x1008#32 8#32) true (smallMemory 0x1000#32) ∧
    (∀ p ∈ (oneSegment 0xfffffff4#32 8#32).getLoadSections,
      Contains true (smallMemory 0xfffffff0#32) p) ∧
    ¬ LoadedInto (oneSegment 0xfffffff4#32 8#32) true (smallMemory 0xfffffff0#32) := by
  refine ⟨by decide +kernel, ?_, by decide +kernel, ?_⟩
  · rintro ⟨t, ht, _⟩
    have hfails :
        Effect.thrown ((oneSegment 0x1008#32 8#32).loadExecutableImage 16#32 0x1000#32 true
        ⟨(smallMemory 0x1000#32).memory, []⟩) = some .doesNotFit := by
      decide +kernel
    obtain ⟨_, hfails⟩ := eq_error_of_thrown hfails
    cases hfails.symm.trans ht
  · rintro ⟨t, ht, hgets⟩
    have hruns : returnsIn (fun t => decide (t.log = []))
        ((oneSegment 0xfffffff4#32 8#32).loadExecutableImage 16#32 0xfffffff0#32 true
          ⟨(smallMemory 0xfffffff0#32).memory, []⟩) = true := by
      decide +kernel
    have hexpected : ((oneSegment 0xfffffff4#32 8#32).expectedLoads true
        (smallMemory 0xfffffff0#32)).length = 2 := by
      decide +kernel
    obtain ⟨_, u, hu, hlog⟩ := eq_ok_of_returnsIn hruns
    cases hu.symm.trans ht
    have hnone : t.log = [] := of_decide_eq_true hlog
    rw [hgets.log, List.nil_append] at hnone
    rw [hnone] at hexpected
    cases hexpected

end ElfFile

end SpsVp.Platform
