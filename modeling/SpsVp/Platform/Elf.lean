import Mathlib.Order.Bounds.Basic
import SpsVp.Lib.Effect
import SpsVp.Platform.Memory

/-!
# The ELF loader

`core/common/elf_loader.h` for 32-bit files. The loader looks at the file as it is mapped to memory:
the ELF header says where the table of the program headers is, and every segment of the type
`PT_LOAD` is copied to the memory that has its address, followed by zeros. The loader is called once
per memory and leaves out the segments that start elsewhere.

The heap of the system calls should start behind the image. `get_heap_addr` takes the end of the
segment that comes last in the table, of any type, and `heap_follows_iff` says when that is right.
-/

namespace SpsVp.Platform

open Lib

/-! ## Files -/

/-- `PT_LOAD`. -/
abbrev ptLoad : BitVec 32 := 1#32

/-- The fields of `Elf32_Phdr` that the loader reads. -/
structure ProgramHeader where
  pType : BitVec 32
  pOffset : BitVec 32
  pVaddr : BitVec 32
  pPaddr : BitVec 32
  pFilesz : BitVec 32
  pMemsz : BitVec 32
deriving DecidableEq

/-- `use_vaddr` says which address counts. -/
def ProgramHeader.addr (p : ProgramHeader) (useVaddr : Bool) : BitVec 32 :=
  if useVaddr then p.pVaddr else p.pPaddr

/-- The file as it is mapped. -/
structure ElfFile where
  data : Nat → BitVec 8

namespace ElfFile

variable (elf : ElfFile)

def half (offset : Nat) : BitVec 16 := ByteMemory.littleEndian (fun k => elf.data (offset + k)) 2

def word (offset : Nat) : BitVec 32 := ByteMemory.littleEndian (fun k => elf.data (offset + k)) 4

def ePhoff : BitVec 32 := elf.word 28

def ePhentsize : BitVec 16 := elf.half 42

def ePhnum : BitVec 16 := elf.half 44

/-- The program header at an offset of the file. -/
def headerAt (offset : Nat) : ProgramHeader where
  pType := elf.word offset
  pOffset := elf.word (offset + 4)
  pVaddr := elf.word (offset + 8)
  pPaddr := elf.word (offset + 12)
  pFilesz := elf.word (offset + 16)
  pMemsz := elf.word (offset + 20)

/-- The table of the program headers. -/
def programHeaders : List ProgramHeader :=
  (List.range elf.ePhnum.toNat).map fun i =>
    elf.headerAt (elf.ePhoff.toNat + elf.ePhentsize.toNat * i)

def getLoadSections : List ProgramHeader :=
  elf.programHeaders.filter fun p => p.pType = ptLoad ∧ ¬ (p.pFilesz = 0#32 ∧ p.pMemsz = 0#32)

/-- The bytes of a segment that are in the file. -/
def fileBytes (p : ProgramHeader) : List (BitVec 8) :=
  List.ofFn fun k : Fin p.pFilesz.toNat => elf.data (p.pOffset.toNat + k)

end ElfFile

/-! ## Memories -/

/-- The assertions of the loader and of `SimpleMemory`. -/
inductive LoadError where
  | offsetOverlaps
  | doesNotFit
  | fileSize
  | memoryBounds
deriving DecidableEq

/-- Bytes that are loaded to an address of a memory. -/
structure Load where
  dst : Nat
  bytes : List (BitVec 8)
deriving DecidableEq

/-- A load, byte by byte. -/
def Load.writes (l : Load) : List (Nat × BitVec 8) :=
  List.ofFn fun k : Fin l.bytes.length => (l.dst + k, l.bytes.get k)

/-- `SimpleMemory`, as far as it is loaded. -/
structure SimpleMemory where
  data : Nat → BitVec 8
  size : BitVec 32

/-- The memories that implement `load_if`. -/
inductive LoadMemory where
  | simple (m : SimpleMemory)
  | symbolic (m : SymbolicMemory)

namespace LoadMemory

def size : LoadMemory → Nat
  | .simple m => m.size.toNat
  | .symbolic m => m.size

/-- A byte, as it is seen concretely or under an assignment. -/
def byte (v : Option Klee.Valuation) : LoadMemory → Nat → BitVec 8
  | .simple m, a => m.data a
  | .symbolic m, a => m.flat v (BitVec.ofNat 32 a)

end LoadMemory

/-- `load_data` and `load_zero` of `SymbolicMemory` store byte by byte. -/
def SymbolicMemory.loadBytes (m : SymbolicMemory) (l : Load) : SymbolicMemory :=
  { m with
    memory := l.writes.foldl (fun memory entry =>
      memory.store (BitVec.ofNat 32 entry.1) (⟨entry.2, none⟩ : Clover.ConcolicValue 8) 1)
      m.memory }

/-- A memory, with the loads that it got. -/
structure LoadTarget where
  memory : LoadMemory
  log : List Load

abbrev LoadM := Effect LoadError LoadTarget

namespace LoadTarget

/-- `load_data` and `load_zero`, which differ in the bytes only. -/
def load (l : Load) : LoadM Unit := fun t =>
  match t.memory with
  | .simple m =>
    if l.dst + l.bytes.length ≤ m.size.toNat then
      .ok () ⟨.simple { m with data := ByteMemory.write m.data l.writes }, t.log ++ [l]⟩
    else .error .memoryBounds t
  | .symbolic m => .ok () ⟨.symbolic (m.loadBytes l), t.log ++ [l]⟩

def loadData (src : List (BitVec 8)) (dst : BitVec 32) : LoadM Unit := load ⟨dst.toNat, src⟩

def loadZero (dst n : BitVec 32) : LoadM Unit := load ⟨dst.toNat, List.replicate n.toNat 0#8⟩

end LoadTarget

namespace ElfFile

variable (elf : ElfFile)

/-! ## Loading -/

/-- The zeros behind the bytes of the file. -/
def loadRest (p : ProgramHeader) (idx : BitVec 32) : LoadM Unit :=
  if ¬ p.pMemsz ≥ p.pFilesz then throw .fileSize
  else LoadTarget.loadZero (idx + p.pFilesz) (p.pMemsz - p.pFilesz)

/-- The body of the loop of `load_executable_image`. -/
def loadSection (size offset : BitVec 32) (useVaddr : Bool) (p : ProgramHeader) : LoadM Unit :=
  let addr := p.addr useVaddr
  if ¬ (addr ≥ offset ∧ addr < offset + size) then pure ()
  else if ¬ addr ≥ offset then throw .offsetOverlaps
  else if ¬ addr + p.pMemsz < offset + size then throw .doesNotFit
  else do
    LoadTarget.loadData (elf.fileBytes p) (addr - offset)
    loadRest p (addr - offset)

def loadExecutableImage (size offset : BitVec 32) (useVaddr : Bool) : LoadM Unit :=
  elf.getLoadSections.forM (elf.loadSection size offset useVaddr)

/-! ## The heap -/

/-- The last entry of the table. Without entries it is what stands before the table, unless that is
outside of the file. -/
def lastHeader : Option ProgramHeader :=
  if elf.ePhentsize.toNat ≤ elf.ePhoff.toNat + elf.ePhentsize.toNat * elf.ePhnum.toNat then
    some (elf.headerAt
      (elf.ePhoff.toNat + elf.ePhentsize.toNat * elf.ePhnum.toNat - elf.ePhentsize.toNat))
  else none

def getMemoryEnd : Option (BitVec 32) := elf.lastHeader.map fun last => last.pVaddr + last.pMemsz

def getHeapAddr : Option (BitVec 32) := elf.getMemoryEnd.map fun s => s + s % 8#32

/-- The ends of the segments that are loaded. -/
def loadEnds : List Nat :=
  (elf.programHeaders.filter fun p => p.pType = ptLoad).map fun p => p.pVaddr.toNat + p.pMemsz.toNat

/-- The end of the image. -/
def imageEnd : Nat := elf.loadEnds.foldr max 0

/-- The smallest address with the alignment of eight bytes that is not below the end of a
segment. -/
def IsHeapStart (a : BitVec 32) : Prop :=
  IsLeast {a : Nat | 8 ∣ a ∧ ∀ e ∈ elf.loadEnds, e ≤ a} a.toNat

/-- The next multiple of eight. -/
def roundUp (n : Nat) : Nat := (n + 7) / 8 * 8

theorem le_imageEnd_iff (n : Nat) : elf.imageEnd ≤ n ↔ ∀ e ∈ elf.loadEnds, e ≤ n := by
  unfold imageEnd
  induction elf.loadEnds with
  | nil => exact iff_of_true n.zero_le nofun
  | cons e ends ih => rw [List.foldr_cons, max_le_iff, ih, List.forall_mem_cons]

theorem isHeapStart_iff (a : BitVec 32) : elf.IsHeapStart a ↔ a.toNat = roundUp elf.imageEnd := by
  have hleast : IsLeast {a : Nat | 8 ∣ a ∧ ∀ e ∈ elf.loadEnds, e ≤ a} (roundUp elf.imageEnd) := by
    refine ⟨⟨Nat.dvd_mul_left _ _, (elf.le_imageEnd_iff _).mp ?_⟩, fun b hb => ?_⟩
    · unfold roundUp
      omega
    · have hle := (elf.le_imageEnd_iff b).mpr hb.2
      have hdvd := hb.1
      unfold roundUp
      omega
  exact ⟨fun h => h.unique hleast, fun h => (h ▸ hleast :)⟩

/-- What `get_heap_addr` computes from the end of the last segment. -/
theorem toNat_heapAddr (s : BitVec 32) :
    (s + s % 8#32).toNat = (s.toNat + s.toNat % 8) % 2 ^ 32 := by
  rw [BitVec.toNat_add, BitVec.toNat_umod]
  rfl

/-- The heap starts right behind the image just if the end of the last segment is a multiple of four
in the same eight bytes as the end of the image. The sum overflows for one end only, and then the
heap starts at zero. -/
theorem heap_follows_iff (elf : ElfFile) : (∃ a, elf.getHeapAddr = some a ∧ elf.IsHeapStart a) ↔
    ∃ s, elf.getMemoryEnd = some s ∧ s.toNat % 4 = 0 ∧
      if s.toNat = 2 ^ 32 - 4 then elf.imageEnd = 0
        else roundUp s.toNat = roundUp elf.imageEnd := by
  unfold getHeapAddr
  cases elf.getMemoryEnd with
  | none => exact iff_of_false nofun nofun
  | some s =>
    have hlt := s.isLt
    simp only [Option.map_some, Option.some.injEq, exists_eq_left', isHeapStart_iff, toNat_heapAddr]
    unfold roundUp
    split_ifs with hs
    · omega
    · omega

/-- A file of some words. -/
def ofWords (words : List (BitVec 32)) : ElfFile where
  data := fun a => (words.getD (a / 4) 0#32).extractLsb' (8 * (a % 4)) 8

/-- An ELF header with a table of some entries behind it. -/
def headerWords (entries : BitVec 16) : List (BitVec 32) :=
  [0#32, 0#32, 0#32, 0#32, 0#32, 0#32, 0#32, 52#32, 0#32, 0#32, 32#16 ++ 52#16,
    0#16 ++ entries, 0#32]

/-- An entry of the table for a segment of one address. -/
def segmentWords (type offset addr filesz memsz : BitVec 32) : List (BitVec 32) :=
  [type, offset, addr, addr, filesz, memsz, 0#32, 0#32]

/-- A segment of one byte. -/
def oneByte : ElfFile :=
  ofWords (headerWords 1#16 ++ segmentWords ptLoad 84#32 0x1000#32 0#32 1#32)

/-- Two segments of which the higher one comes first. -/
def descending : ElfFile :=
  ofWords (headerWords 2#16 ++ segmentWords ptLoad 116#32 0x2000#32 0#32 8#32 ++
    segmentWords ptLoad 116#32 0x1000#32 0#32 8#32)

/-- A segment that is loaded before one that is not. -/
def unloadedLast : ElfFile :=
  ofWords (headerWords 2#16 ++ segmentWords ptLoad 116#32 0x1000#32 0#32 8#32 ++
    segmentWords 4#32 116#32 0#32 0#32 0#32)

/-- The heap does not start behind the image for any of these files. -/
theorem heap_inside_image :
    (¬ ∃ a, oneByte.getHeapAddr = some a ∧ oneByte.IsHeapStart a) ∧
    (¬ ∃ a, descending.getHeapAddr = some a ∧ descending.IsHeapStart a) ∧
    ¬ ∃ a, unloadedLast.getHeapAddr = some a ∧ unloadedLast.IsHeapStart a := by
  have hcheck : ∀ elf : ElfFile, (elf.getHeapAddr.map BitVec.toNat ≠ some (roundUp elf.imageEnd)) →
      ¬ ∃ a, elf.getHeapAddr = some a ∧ elf.IsHeapStart a := by
    rintro elf hne ⟨a, ha, hstart⟩
    rw [ha, Option.map_some, (elf.isHeapStart_iff a).mp hstart] at hne
    exact hne rfl
  refine ⟨hcheck _ ?_, hcheck _ ?_, hcheck _ ?_⟩
  · decide +kernel
  · decide +kernel
  · decide +kernel

end ElfFile

end SpsVp.Platform
