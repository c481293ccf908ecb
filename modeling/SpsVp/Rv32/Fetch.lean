import SpsVp.Rv32.Operation
import SpsVp.Rv32.Tlb

/-!
# Fetches that straddle a page

`load_instr` translates the program counter and loads four bytes from there. An instruction of four
bytes that starts in the last half-word of a page is put together from bytes that are next to each
other in physical memory, and a compressed instruction at the end of a memory cannot be fetched.
`fetchesPerPage_iff` says when a fetch is nevertheless that of two half-words that are translated
one by one.
-/

namespace SpsVp.Rv32

open Lib Effect Clover Klee Platform Interface BitVec

namespace Interface

variable {io₀ io₁ io₂ : Interface} {view : CoreView} {t : Translation} {bus : SimpleBus}
  {vaddr vaddr' paddr : BitVec 64} {type : MemoryAccessType}

/-! ## Translation -/

theorem or_offset_of_same_page (h : vaddr' >>> 12 = vaddr >>> 12) :
    (vaddr &&& ~~~0xfff#64) ||| (vaddr' &&& 0xfff#64) = vaddr' := by
  apply eq_of_getLsbD_eq
  intro i hi
  simp only [getLsbD_or, getLsbD_and, getLsbD_not, getLsbD_offsetMask,
    decide_eq_true hi, Bool.true_and]
  by_cases h12 : i < 12
  · simp [h12]
  · have hbit := congrArg (·.getLsbD (i - 12)) h
    simp only [getLsbD_ushiftRight, show 12 + (i - 12) = i by omega] at hbit
    simp [h12, hbit]

theorem or_and_offset {ppn : BitVec 64} (h : ppn &&& 0xfff#64 = 0#64) :
    ((ppn ||| (vaddr &&& 0xfff#64)) &&& ~~~0xfff#64) = ppn := by
  apply eq_of_getLsbD_eq
  intro i hi
  have hbit := congrArg (·.getLsbD i) h
  simp only [getLsbD_or, getLsbD_and, getLsbD_not, getLsbD_offsetMask,
    getLsbD_zero, decide_eq_true hi, Bool.true_and] at hbit ⊢
  by_cases h12 : i < 12
  · simpa [h12] using hbit
  · simp [h12]

/-- The cached pages start at multiples of their size. -/
def PageAligned (io : Interface) : Prop :=
  ∀ mmu, io.mmu = some mmu → ∀ mode type (vaddr : BitVec 64),
    (mmu.tlb mode type ((vaddr >>> 12).setWidth 8)).vpn = vaddr >>> 12 →
    (mmu.tlb mode type ((vaddr >>> 12).setWidth 8)).ppn &&& 0xfff#64 = 0#64

/-- Another address of a page is translated to the same frame, with the same effect on the
memory. -/
theorem PageAligned.translation_same_page (haligned : PageAligned io₀)
    (h : Interface.translation io₀ view vaddr type = (.page paddr, io₁))
    (hpage : vaddr' >>> 12 = vaddr >>> 12) : ∃ io₂, Interface.translation io₀ view vaddr' type =
      (.page ((paddr &&& ~~~0xfff#64) ||| (vaddr' &&& 0xfff#64)), io₂) ∧ io₂.bus = io₁.bus := by
  unfold Interface.translation at h ⊢
  cases hmmu : io₀.mmu with
  | none =>
    rw [hmmu] at h
    cases h
    exact ⟨io₀, by rw [or_offset_of_same_page hpage], rfl⟩
  | some mmu =>
    rw [hmmu] at h
    dsimp only at h ⊢
    rw [hpage]
    split_ifs at h ⊢ with hbare hmode hhit hconnected
    · cases h
      exact ⟨io₀, by rw [or_offset_of_same_page hpage], rfl⟩
    · cases h
    · cases h
      exact ⟨io₀, by rw [or_and_offset (haligned mmu hmmu _ _ _ hhit)], rfl⟩
    · cases h
    · unfold walkedAndCached at h ⊢
      dsimp only at h ⊢
      generalize hwalked : walked io₀ view vaddr type _ = r at h
      obtain ⟨t, io⟩ := r
      cases t with
      | throws | device => cases h
      | page paddr' =>
        cases h
        obtain ⟨leaf, hfound, rfl, hio⟩ := walked_eq_page hwalked
        -- the entry and its bits are those of the first address
        have hbits : ∀ paddr, ({ leaf with paddr } : Leaf).marked type = leaf.marked type :=
          fun _ => rfl
        rw [finds_iff.mpr ((finds_iff.mp hfound).of_same_page hpage), walked, hbits]
        obtain ⟨hmarked, rfl⟩ | ⟨hmarked, hupdates, rfl⟩ := hio
        · rw [if_pos hmarked]
          exact ⟨_, rfl, rfl⟩
        · rw [if_neg (Bool.eq_false_iff.mp hmarked), if_neg (Bool.eq_false_iff.mp hupdates)]
          exact ⟨_, rfl, rfl⟩

/-- The next half-word of a page. -/
theorem add_two_of_same_page (heven : vaddr.toNat % 2 = 0) (hlast : vaddr.toNat % 4096 ≠ 4094) :
    (vaddr + 2) >>> 12 = vaddr >>> 12 := by
  apply eq_of_toNat_eq
  rw [toNat_ushiftRight, toNat_ushiftRight, Nat.shiftRight_eq_div_pow,
    Nat.shiftRight_eq_div_pow, toNat_add]
  have htwo : (2 : BitVec 64).toNat = 2 := rfl
  rw [htwo]
  omega

theorem toNat_page_or (page vaddr : BitVec 64) :
    ((page &&& ~~~0xfff#64) ||| (vaddr &&& 0xfff#64)).toNat =
      4096 * (page.toNat / 4096) + vaddr.toNat % 4096 := by
  have hpage : page &&& ~~~0xfff#64 = (page >>> 12) <<< 12 := by
    apply eq_of_getLsbD_eq
    intro i hi
    simp only [getLsbD_and, getLsbD_not, getLsbD_shiftLeft,
      getLsbD_ushiftRight, getLsbD_offsetMask, decide_eq_true hi, Bool.true_and]
    by_cases h12 : i < 12
    · simp [h12]
    · simp [h12, show 12 + (i - 12) = i by omega]
  have hoffset : (vaddr &&& 0xfff#64).toNat = vaddr.toNat % 2 ^ 12 := by
    rw [toNat_and]
    exact Nat.and_two_pow_sub_one_eq_mod _ 12
  have hhigh : ((page >>> 12) <<< 12).toNat = 2 ^ 12 * (page.toNat / 4096) := by
    rw [toNat_shiftLeft, toNat_ushiftRight, Nat.shiftLeft_eq,
      Nat.shiftRight_eq_div_pow]
    omega
  rw [hpage, toNat_or, hoffset,
    hhigh, ← Nat.two_pow_add_eq_or_of_lt (Nat.mod_lt _ (by decide))]

/-- The half-word at an address, if a memory has it. -/
def halfAt (bus : SimpleBus) (paddr : BitVec 64) : Option (BitVec 16) :=
  match bus.find paddr with
  | some (port, .memory m) =>
    if ((loadPayload paddr 2).behind port).Fits m.size then
      some (m.contents none (port.globalToLocal paddr) 2)
    else none
  | _ => none

theorem halfAt_eq_some {half : BitVec 16} (h : halfAt bus paddr = some half) :
    ∃ port m, bus.find paddr = some (port, .memory m) ∧
      half = m.contents none (port.globalToLocal paddr) 2 := by
  unfold halfAt at h
  split at h
  · next port m hfind =>
    split_ifs at h
    cases h
    exact ⟨port, m, hfind, rfl⟩
  · cases h

/-- The half-word that an address is translated to. -/
def halfOf : Translation × Interface → Option (BitVec 16)
  | (.page paddr, io) => halfAt io.bus paddr
  | _ => none

theorem halfOf_eq_some {r : Translation × Interface} {half : BitVec 16} (h : halfOf r = some half) :
    ∃ paddr, r.1 = .page paddr ∧ halfAt r.2.bus paddr = some half := by
  obtain ⟨t, io⟩ := r
  cases t with
  | page paddr => exact ⟨paddr, rfl, h⟩
  | throws | device => cases h

/-- The half-words of a word in a memory. -/
theorem extract_entryIn (m : SymbolicMemory) (addr : BitVec 64) (off : Nat) (hoff : off ≤ 2) :
    (entryIn m (addr.setWidth 32)).extractLsb' (8 * off) 16 =
      m.contents none (addr + BitVec.ofNat 64 off) 2 := by
  apply eq_of_getLsbD_eq
  intro i hi
  obtain ⟨k, b, hk, hb, rfl⟩ : ∃ k b, k < 2 ∧ b < 8 ∧ i = 8 * k + b :=
    ⟨i / 8, i % 8, by omega, by omega, by omega⟩
  have hbyte := congrArg (·.getLsbD b) (ByteMemory.extract_littleEndian (fun off' => m.flat none
    ((addr + BitVec.ofNat 64 off).setWidth 32 + BitVec.ofNat 32 off')) hk)
  simp only [getLsbD_extractLsb', decide_eq_true hb, Bool.true_and] at hbyte
  have haddr : (addr + BitVec.ofNat 64 off).setWidth 32 + BitVec.ofNat 32 k =
      addr.setWidth 32 + BitVec.ofNat 32 (off + k) := by
    apply eq_of_toNat_eq
    simp only [toNat_add, toNat_setWidth, toNat_ofNat]
    omega
  rw [getLsbD_extractLsb', decide_eq_true hi, Bool.true_and,
    show 8 * off + (8 * k + b) =
      8 * (off + k) + b by omega, getLsbD_entryIn _ _ (by omega) hb, ← haddr]
  exact hbyte.symm

/-! ## Loads of instruction words -/

/-- An instruction word is loaded where no device is. -/
theorem triple_loadInstr (pc : BitVec 32)
    (htranslation : translation io₀ view (pc.setWidth 64) .FETCH = (t, io₁)) (hmemory : t ≠ .device)
    (hplain : ∀ paddr, t = .page paddr → io₁.bus.Plain paddr) (depth : Nat) :
    Triple (Alike view.hartId io₀) (loadInstr (transact view (depth + 1)) view pc)
      (fun word io => (∃ paddr, t = .page paddr ∧
        readEntry io₁.bus paddr = .word (word.setWidth 64)) ∧ Alike view.hartId io₁ io)
      (fun e io => (t = .throws e ∨ ∃ paddr fault, t = .page paddr ∧
        readEntry io₁.bus paddr = .error fault ∧ e = .trap .EXC_LOAD_PAGE_FAULT fault) ∧
        Alike view.hartId io₁ io) := by
  have hv2p := triple_v2p (pc.setWidth 64) .FETCH depth
    (by rwa [htranslation])
  rw [htranslation] at hv2p
  refine .bind (hv2p.exc fun _ _ h => ⟨.inl h.1, h.2⟩)
    fun paddr => .assume fun hpage => ?_
  refine (triple_concreteLoadData (hplain paddr hpage) depth).conseq (fun _ h => h)
    (fun _ _ h => ⟨⟨paddr, hpage, h.1⟩, h.2⟩) ?_
  rintro e io ⟨⟨fault, herror, rfl⟩, h⟩
  exact ⟨.inr ⟨paddr, fault, hpage, herror, rfl⟩, h⟩

end Interface

namespace Iss

variable {s f : Iss}

/-- How the program counter is translated. -/
def pcTranslation (s : Iss) : Interface.Translation × Interface :=
  Interface.translation s.io s.view (s.pc.setWidth 64) .FETCH

/-- How the address of the next half-word is translated. -/
def nextTranslation (s : Iss) : Interface.Translation × Interface :=
  Interface.translation s.io s.view ((s.pc + 2#32).setWidth 64) .FETCH

/-- The four bytes from the program counter on in physical memory, if they can be loaded. -/
def pcWord (s : Iss) : Option (BitVec 32) :=
  match s.pcTranslation with
  | (.page paddr, io) =>
    match readEntry io.bus paddr with
    | .word word => if s.pc &&& ~~~s.pcAlignmentMask = 0#32 then some (word.setWidth 32) else none
    | _ => none
  | _ => none

variable {word : BitVec 32}

theorem pcWord_eq_some_iff : s.pcWord = some word ↔
    s.pc &&& ~~~s.pcAlignmentMask = 0#32 ∧ ∃ paddr entry, s.pcTranslation.1 = .page paddr ∧
      readEntry s.pcTranslation.2.bus paddr = .word entry ∧ entry.setWidth 32 = word := by
  unfold pcWord
  obtain ⟨t, io⟩ := s.pcTranslation
  cases t with
  | throws | device => simp
  | page paddr =>
    cases hread : readEntry io.bus paddr with
    | _ => simp [hread]

/-- Page tables and program are not in a device. -/
structure FetchInMemory (s : Iss) : Prop where
  tables : s.pcTranslation.1 ≠ .device
  program : ∀ paddr, s.pcTranslation.1 = .page paddr → s.pcTranslation.2.bus.Plain paddr

section

variable (haligned : s.pc &&& ~~~s.pcAlignmentMask = 0#32) (hdepth : 0 < s.depth)
  (hrequests : s.io.requests = []) (hmemory : FetchInMemory s)
include haligned hdepth hrequests hmemory

/-- What a fetch returns or throws. -/
theorem fetch_cases : (∃ f paddr, fetch s = .ok () f ∧ s.pcTranslation.1 = .page paddr ∧
      readEntry s.pcTranslation.2.bus paddr = .word (f.instr.data.setWidth 64)) ∨
    (∃ e u, fetch s = .error e u ∧ (s.pcTranslation.1 = .throws e ∨
      ∃ paddr fault, s.pcTranslation.1 = .page paddr ∧
        readEntry s.pcTranslation.2.bus paddr = .error fault ∧
        e = .trap .EXC_LOAD_PAGE_FAULT fault)) := by
  obtain ⟨depth, hdepth⟩ : ∃ depth, s.depth = depth + 1 := ⟨s.depth - 1, by omega⟩
  have htriple := triple_loadInstr s.pc (t := s.pcTranslation.1)
    rfl hmemory.tables hmemory.program depth
  have halike : Alike s.view.hartId s.io s.fetching.io := ⟨rfl, rfl, rfl, rfl, rfl⟩
  have hquiet : ∀ {io}, Alike s.view.hartId s.pcTranslation.2 io → io.requests = [] :=
    fun h => h.requests.trans ((requests_translation _ _ _ _).trans hrequests)
  have hmem : ∀ r, loadInstr (Interface.transact s.view (depth + 1)) s.view s.pc
      s.fetching.io = r → (Effect.final r).requests = [] →
      memory (fun transact view => loadInstr transact view s.pc) s.fetching =
        mapState (fun io => { s.fetching with io }) r := by
    intro r hr hnone
    refine memory_of_quiet ?_ hnone
    rw [← hdepth] at hr
    exact hr
  cases hx : loadInstr (Interface.transact s.view (depth + 1)) s.view s.pc s.fetching.io with
  | ok word io =>
    obtain ⟨⟨paddr, hpage, hword⟩, h⟩ := htriple.of_ok halike hx
    exact .inl ⟨_, paddr, fetch_of_loaded haligned (hmem _ hx (hquiet h)), hpage, hword⟩
  | error e io =>
    obtain ⟨hcause, h⟩ := htriple.of_error halike hx
    obtain ⟨u, hthrown⟩ := fetch_of_refused haligned (hmem _ hx (hquiet h))
    exact .inr ⟨e, u, hthrown, hcause⟩

end

/-! ## Half-words -/

/-- The first half-word of an instruction of two bytes. -/
def isCompressedHalf (low : BitVec 16) : Bool := (⟨low.setWidth 32⟩ : Instruction).isCompressed

/-- The program counter is the last half-word of a page, or of a region of the bus. -/
def Straddles (s : Iss) : Prop :=
  s.pc.toNat % 4096 = 4094 ∨ ∃ paddr, s.pcTranslation.1 = .page paddr ∧
    (s.pcTranslation.2.bus.find (paddr + 2#64)).map Prod.fst ≠
      (s.pcTranslation.2.bus.find paddr).map Prod.fst

/-- The transaction of the fetch goes on after the half-word at the program counter, and what
follows is in the next page or region. -/
def TouchesNext (s : Iss) : Prop :=
  s.Straddles ∧ ∃ paddr, s.pcTranslation.1 = .page paddr ∧ 2 < (entryRead paddr).length

/-- Every half-word of an instruction is the one that its own address is translated to, and a
compressed instruction is fetched from its own page. -/
structure FetchesPerPage (s : Iss) : Prop where
  compressed : ∀ low, halfOf s.pcTranslation = some low → isCompressedHalf low = true →
    (∃ f, fetch s = .ok () f ∧ f.instr.data.extractLsb' 0 16 = low) ∧ ¬ s.TouchesNext
  uncompressed : ∀ low high, halfOf s.pcTranslation = some low →
    isCompressedHalf low = false → halfOf s.nextTranslation = some high →
    ∃ f, fetch s = .ok () f ∧ f.instr.data = high ++ low
  refused : ∀ low mtval, halfOf s.pcTranslation = some low → isCompressedHalf low = false →
    s.nextTranslation.1 = .throws (.trap .EXC_INSTR_PAGE_FAULT mtval) →
    ∃ t, fetch s = .error (.trap .EXC_INSTR_PAGE_FAULT mtval) t

/-- Where an instruction is, there are four bytes, and the physical memory goes on as the virtual
one does. -/
structure WholeFetch (s : Iss) : Prop where
  compressed : ∀ low, halfOf s.pcTranslation = some low → isCompressedHalf low = true →
    s.pcWord ≠ none ∧ ¬ s.Straddles
  uncompressed : ∀ low high, halfOf s.pcTranslation = some low →
    isCompressedHalf low = false → halfOf s.nextTranslation = some high →
    ∃ word, s.pcWord = some word ∧ (s.Straddles → word.extractLsb' 16 16 = high)
  permitted : ∀ low mtval, halfOf s.pcTranslation = some low → isCompressedHalf low = false →
    s.nextTranslation.1 ≠ .throws (.trap .EXC_INSTR_PAGE_FAULT mtval)

theorem extract_high (high low : BitVec 16) : (high ++ low).extractLsb' 16 16 = high := by
  apply eq_of_getLsbD_eq
  intro i hi
  rw [getLsbD_extractLsb', getLsbD_append, if_neg (by omega), decide_eq_true hi,
    Bool.true_and, Nat.add_sub_cancel_left]

theorem append_halves (word : BitVec 32) :
    word.extractLsb' 16 16 ++ word.extractLsb' 0 16 = word := by
  apply eq_of_getLsbD_eq
  intro i hi
  rw [getLsbD_append, getLsbD_extractLsb', getLsbD_extractLsb']
  split_ifs with hlow
  · rw [decide_eq_true hlow, Bool.true_and, Nat.zero_add]
  · rw [decide_eq_true (show i - 16 < 16 by omega), Bool.true_and, show 16 + (i - 16) = i by omega]

/-- The first half of the word at the program counter. -/
theorem low_of_pcWord {low : BitVec 16}
    (hlow : halfOf s.pcTranslation = some low) (hword : s.pcWord = some word) :
    word.extractLsb' 0 16 = low := by
  obtain ⟨paddr, hpage, hlow⟩ := halfOf_eq_some hlow
  obtain ⟨_, paddr', entry, hpage', hread, rfl⟩ := pcWord_eq_some_iff.mp hword
  cases hpage.symm.trans hpage'
  obtain ⟨port, m, hfind, rfl⟩ := halfAt_eq_some hlow
  obtain ⟨port', m', hfind', _, rfl⟩ := memory_of_readEntry hread
  cases hfind.symm.trans hfind'
  have hextract := extract_entryIn m (port.globalToLocal paddr) 0 (by decide)
  rw [BitVec.add_zero] at hextract
  rw [extractLsb'_setWidth_of_le (by decide)]
  exact hextract

/-- The second half of the word at the program counter, where it does not straddle. -/
theorem high_of_pcWord {high : BitVec 16} (heven : s.pc.toNat % 2 = 0)
    (haligned : s.io.PageAligned) (hstraddles : ¬ s.Straddles)
    (hhigh : halfOf s.nextTranslation = some high) (hword : s.pcWord = some word) :
    word.extractLsb' 16 16 = high := by
  obtain ⟨hlast, hregion⟩ := not_or.mp hstraddles
  obtain ⟨_, paddr, entry, hpage, hread, rfl⟩ := pcWord_eq_some_iff.mp hword
  have htranslation : Interface.translation s.io s.view (s.pc.setWidth 64) .FETCH =
      (.page paddr, s.pcTranslation.2) := Prod.ext hpage rfl
  have hpc : (s.pc.setWidth 64).toNat = s.pc.toNat := by
    rw [toNat_setWidth]
    omega
  have hnext : (s.pc + 2#32).setWidth 64 = s.pc.setWidth 64 + 2 := by
    apply eq_of_toNat_eq
    rw [toNat_add, hpc, toNat_setWidth, toNat_add]
    have htwo : (2 : BitVec 64).toNat = 2 := rfl
    have htwo' : (2#32).toNat = 2 := rfl
    rw [htwo, htwo']
    omega
  have hsame : (s.pc.setWidth 64 + 2) >>> 12 = s.pc.setWidth 64 >>> 12 :=
    add_two_of_same_page (by omega) (by omega)
  have hpaddr : paddr.toNat % 4096 = s.pc.toNat % 4096 := by
    -- the program counter is an address of its own page
    obtain ⟨_, hown, _⟩ := haligned.translation_same_page htranslation rfl
    have hframe := Interface.Translation.page.inj
      (congrArg Prod.fst (htranslation.symm.trans hown))
    have htoNat := congrArg BitVec.toNat hframe
    rw [toNat_page_or, hpc] at htoNat
    omega
  have hphysical :
      (paddr &&& ~~~0xfff#64) ||| ((s.pc.setWidth 64 + 2) &&& 0xfff#64) = paddr + 2#64 := by
    apply eq_of_toNat_eq
    rw [toNat_page_or, ← hnext, toNat_setWidth, toNat_add, toNat_add]
    have htwo : (2#64).toNat = 2 := rfl
    have htwo' : (2#32).toNat = 2 := rfl
    rw [htwo, htwo']
    omega
  obtain ⟨io₂, hnextPage, hbus⟩ := haligned.translation_same_page htranslation hsame
  rw [nextTranslation, hnext, hnextPage, hphysical, halfOf, hbus] at hhigh
  obtain ⟨port, m, hfind, rfl⟩ := halfAt_eq_some hhigh
  obtain ⟨port', m', hfind', _, rfl⟩ := memory_of_readEntry hread
  have hport : port = port' := by
    by_contra hne
    refine hregion ⟨paddr, hpage, ?_⟩
    rw [hfind, hfind']
    exact fun h => hne (Option.some.inj h)
  subst hport
  cases SimpleBus.target_of_find hfind hfind'
  have hextract := extract_entryIn m (port.globalToLocal paddr) 2 (by decide)
  have hlocal : port.globalToLocal (paddr + 2#64) = port.globalToLocal paddr + 2#64 := by
    rw [PortMapping.globalToLocal, PortMapping.globalToLocal]
    bv_omega
  rw [extractLsb'_setWidth_of_le (by decide), hlocal]
  exact hextract

section

variable (hdepth : 0 < s.depth) (hrequests : s.io.requests = []) (hmemory : FetchInMemory s)
include hdepth hrequests hmemory

theorem fetch_of_pcWord {word : BitVec 32} (h : s.pcWord = some word) :
    ∃ f, fetch s = .ok () f ∧ f.instr.data = word := by
  obtain ⟨haligned, paddr, entry, hpage, hread, rfl⟩ := pcWord_eq_some_iff.mp h
  obtain ⟨f, paddr', hfetch, hpage', hread'⟩ |
      ⟨e, u, _, hthrows | ⟨paddr', fault, hpage', herror, _⟩⟩ :=
    fetch_cases haligned hdepth hrequests hmemory
  · cases hpage.symm.trans hpage'
    refine ⟨f, hfetch, ?_⟩
    rw [Entry.word.inj (hread.symm.trans hread'), setWidth_setWidth_of_le _ (by decide),
      setWidth_eq]
  · cases hpage.symm.trans hthrows
  · cases hpage.symm.trans hpage'
    cases hread.symm.trans herror

theorem pcWord_of_fetch (h : fetch s = .ok () f) : s.pcWord = some f.instr.data := by
  have haligned : s.pc &&& ~~~s.pcAlignmentMask = 0#32 := by
    by_contra hmisaligned
    cases h.symm.trans (fetch_of_misaligned hmisaligned)
  obtain ⟨f', paddr, hfetch, hpage, hread⟩ | ⟨e, u, hthrown, _⟩ :=
    fetch_cases haligned hdepth hrequests hmemory
  · cases h.symm.trans hfetch
    refine pcWord_eq_some_iff.mpr ⟨haligned, paddr, _, hpage, hread, ?_⟩
    rw [setWidth_setWidth_of_le _ (by decide), setWidth_eq]
  · cases h.symm.trans hthrown

/-- No fault is raised for an instruction page once the program counter has been translated. -/
theorem fetch_ne_instructionFault {paddr mtval : BitVec 64} {t : Iss}
    (hpage : s.pcTranslation.1 = .page paddr) :
    fetch s ≠ .error (.trap .EXC_INSTR_PAGE_FAULT mtval) t := by
  intro h
  by_cases haligned : s.pc &&& ~~~s.pcAlignmentMask = 0#32
  · obtain ⟨f, paddr', hfetch, _⟩ | ⟨e, u, hthrown, hthrows | ⟨paddr', fault, _, _, rfl⟩⟩ :=
      fetch_cases haligned hdepth hrequests hmemory
    · cases h.symm.trans hfetch
    · cases hpage.symm.trans hthrows
    · cases h.symm.trans hthrown
  · cases h.symm.trans (fetch_of_misaligned haligned)

end

end Iss

end SpsVp.Rv32
