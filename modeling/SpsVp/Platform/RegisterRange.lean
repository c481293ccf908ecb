import SpsVp.Lib.ByteMemory
import SpsVp.Lib.Triple
import SpsVp.Platform.Bus

/-!
# Register ranges

`util/memory_map.h`: a device whose registers are ranges of bytes. An access is routed to the first
range that has its address, checked against the alignment and the size of the range, and copied from
or to its bytes; callbacks run before a read and after a write. The device itself sees the bytes of
a range as an array of words.
-/

namespace SpsVp.Platform

open Lib Effect

/-- What stops the host while a device is accessed. The device has the assertions `α`. -/
inductive DeviceError (α : Type) where
  /-- An address or an index is not in its range. -/
  | rangeAssertion
  | assertion (a : α)
  | runtimeError (what : String)
  /-- Memory outside of an array is read or written. -/
  | outOfBounds
deriving DecidableEq

/-! ## Bytes -/

/-- The bytes of a range, by their offset. -/
abbrev RegisterMemory := Nat → BitVec 8

namespace RegisterMemory

/-- `memcpy` to the range. -/
def copy (mem : RegisterMemory) (offset : Nat) (src : List (BitVec 8)) : RegisterMemory := fun a =>
  if offset ≤ a then src[a - offset]?.getD (mem a) else mem a

/-- `memcpy` from the range. -/
def bytes (mem : RegisterMemory) (offset len : Nat) : List (BitVec 8) :=
  List.ofFn fun k : Fin len => mem (offset + k)

/-- The bytes of a word, as the host has them in its memory. -/
def bytesOf (w : BitVec 32) : List (BitVec 8) := List.ofFn fun k : Fin 4 => w.extractLsb' (8 * k) 8

/-- An element of an `ArrayView<uint32_t>`. -/
def word (mem : RegisterMemory) (i : Nat) : BitVec 32 :=
  ByteMemory.littleEndian (fun k => mem (4 * i + k)) 4

def setWord (mem : RegisterMemory) (i : Nat) (w : BitVec 32) : RegisterMemory :=
  mem.copy (4 * i) (bytesOf w)

variable {mem : RegisterMemory}

variable {src : List (BitVec 8)}

theorem copy_of_outside {offset a : Nat}
    (h : a < offset ∨ offset + src.length ≤ a) : mem.copy offset src a = mem a := by
  unfold copy
  split_ifs with hle
  · rw [List.getElem?_eq_none (by omega), Option.getD_none]
  · rfl

/-- A word that is not written. -/
theorem word_copy_of_outside {offset i : Nat}
    (h : 4 * i + 4 ≤ offset ∨ offset + src.length ≤ 4 * i) :
    (mem.copy offset src).word i = mem.word i :=
  ByteMemory.littleEndian_congr fun k hk => copy_of_outside (by omega)

theorem word_setWord_of_ne {i j : Nat} (w : BitVec 32) (h : i ≠ j) :
    (mem.setWord j w).word i = mem.word i := by
  refine word_copy_of_outside ?_
  change 4 * i + 4 ≤ 4 * j ∨ 4 * j + 4 ≤ 4 * i
  omega

@[simp] theorem word_setWord_self (mem : RegisterMemory) (i : Nat) (w : BitVec 32) :
    (mem.setWord i w).word i = w := by
  have hbytes : ∀ k < 4, mem.setWord i w (4 * i + k) = w.extractLsb' (8 * k) 8 := by
    intro k hk
    rw [setWord, copy, if_pos (Nat.le_add_right _ _), Nat.add_sub_cancel_left, bytesOf,
      List.getElem?_ofFn, dif_pos hk, Option.getD_some]
  exact (ByteMemory.littleEndian_congr hbytes).trans (ByteMemory.littleEndian_extract (n := 4) w)

theorem word_setWord (i j : Nat) (w : BitVec 32) :
    (mem.setWord j w).word i = if i = j then w else mem.word i := by
  split_ifs with h
  · rw [h, word_setWord_self]
  · exact word_setWord_of_ne w h

/-- The four bytes of a word. -/
theorem bytes_word (mem : RegisterMemory) (i : Nat) : mem.bytes (4 * i) 4 = bytesOf (mem.word i) :=
  List.ofFn_inj.mpr (funext fun k =>
    (ByteMemory.extract_littleEndian (fun k => mem (4 * i + k)) k.isLt).symm)

end RegisterMemory

/-! ## Ranges -/

/-- `RegisterRange`: where a range is, and which accesses it admits. -/
structure RegisterRange where
  start : Nat
  size : Nat
  readonly : Bool := false
  alignment : Nat := 1

namespace RegisterRange

def last (r : RegisterRange) : Nat := r.start + r.size - 1

def contains (r : RegisterRange) (addr : Nat) : Bool := r.start ≤ addr && addr ≤ r.last

def toLocal (r : RegisterRange) (addr : Nat) : Nat := addr - r.start

theorem contains_iff {r : RegisterRange} {addr : Nat} :
    r.contains addr = true ↔ r.start ≤ addr ∧ addr ≤ r.start + r.size - 1 := by
  rw [contains, Bool.and_eq_true, decide_eq_true_iff, decide_eq_true_iff, last]

end RegisterRange

/-- A range of a device with the state `S`: its bytes and its callbacks, which get the offset and
the length of an access. -/
structure MappedRange (α S : Type) where
  range : RegisterRange
  mem : S → RegisterMemory
  setMem : RegisterMemory → S → S
  preRead : Nat → Nat → Effect (DeviceError α) S Bool := fun _ _ => pure true
  postWrite : Nat → Nat → Effect (DeviceError α) S Unit := fun _ _ => pure ()

namespace MappedRange

variable {α S : Type}

def write (r : MappedRange α S) (addr : Nat) (src : List (BitVec 8)) (len : Nat) :
    Effect (DeviceError α) S Unit := do
  let localAddr := r.range.toLocal addr
  if !r.range.contains addr || localAddr + len > r.range.size then throw .rangeAssertion
  modify fun s => r.setMem ((r.mem s).copy localAddr (src.take len)) s
  r.postWrite localAddr len

/-- The bytes that are read, unless a callback has taken care of that. -/
def read (r : MappedRange α S) (addr len : Nat) :
    Effect (DeviceError α) S (Option (List (BitVec 8))) := do
  let localAddr := r.range.toLocal addr
  if !r.range.contains addr || localAddr + len > r.range.size then throw .rangeAssertion
  if ← r.preRead localAddr len then
    return some ((r.mem (← get)).bytes localAddr len)
  else return none

/-- The case of a write in `process`. -/
def processWrite (r : MappedRange α S) (addr : Nat) (src : List (BitVec 8)) (len : Nat) :
    Effect (DeviceError α) S (Option (List (BitVec 8))) := do
  if r.range.readonly then throw (.runtimeError "runtime assertion failed")
  r.write addr src len
  return none

def process (r : MappedRange α S) (access : Access) :
    Effect (DeviceError α) S (Option (List (BitVec 8))) := do
  let addr := access.address.toNat
  if ¬ (addr % r.range.alignment = 0 ∧ access.length % r.range.alignment = 0) then
    throw (.runtimeError "runtime assertion failed")
  match access.command with
  | .read => r.read addr access.length
  | .write => r.processWrite addr access.data access.length

/-- `vp::mm::route`. -/
def route (name : String) : List (MappedRange α S) → Access →
    Effect (DeviceError α) S (Option (List (BitVec 8)))
  | [], access =>
    throw (.runtimeError (name ++ " unable to route address " ++ toString access.address.toNat))
  | r :: ranges, access =>
    if r.range.contains access.address.toNat then r.process access else route name ranges access

variable {name : String} {r : MappedRange α S} {ranges : List (MappedRange α S)} {access : Access}

theorem route_of_contains (h : r.range.contains access.address.toNat = true) :
    route name (r :: ranges) access = r.process access :=
  if_pos h

theorem route_of_not_contains (h : ¬ r.range.contains access.address.toNat = true) :
    route name (r :: ranges) access = route name ranges access :=
  if_neg h

/-- The access is aligned and in the range. -/
structure Admits (r : MappedRange α S) (access : Access) : Prop where
  address : access.address.toNat % r.range.alignment = 0
  length : access.length % r.range.alignment = 0
  contains : r.range.contains access.address.toNat = true
  size : r.range.toLocal access.address.toNat + access.length ≤ r.range.size

theorem Admits.not_outside (h : r.Admits access) : ¬ (!r.range.contains access.address.toNat ||
    decide (r.range.toLocal access.address.toNat + access.length > r.range.size)) = true := by
  simp [h.contains, h.size]

variable {s : S}

theorem process_of_read {offset len : Nat} (h : r.Admits access)
    (hcommand : access.command = .read) (hoffset : r.range.toLocal access.address.toNat = offset)
    (hlen : access.length = len) :
    r.process access s = (do
      if ← r.preRead offset len then return some ((r.mem (← get)).bytes offset len)
      else return none) s := by
  subst hoffset hlen
  rw [process, if_neg (not_not.mpr ⟨h.address, h.length⟩), hcommand]
  change r.read access.address.toNat access.length s = _
  rw [read, if_neg h.not_outside]

theorem process_of_write {offset len : Nat} (h : r.Admits access)
    (hcommand : access.command = .write) (hoffset : r.range.toLocal access.address.toNat = offset)
    (hlen : access.length = len) (hreadonly : r.range.readonly = false) :
    r.process access s = (r.postWrite offset len >>= fun _ => pure none)
      (r.setMem ((r.mem s).copy offset (access.data.take len)) s) := by
  subst hoffset hlen
  rw [process, if_neg (not_not.mpr ⟨h.address, h.length⟩), hcommand]
  change r.processWrite access.address.toNat access.data access.length s = _
  rw [processWrite, if_neg (Bool.eq_false_iff.mp hreadonly)]
  change (r.write access.address.toNat access.data access.length >>= fun _ => pure none) s = _
  rw [write, if_neg h.not_outside]
  rfl

/-- The errors of a range itself. -/
def Rejects (x : EStateM.Result (DeviceError α) S (Option (List (BitVec 8)))) : Prop :=
  ∃ e s, x = .error e s ∧ ∀ a, e ≠ .assertion a

theorem process_of_readonly (h : r.Admits access) (hcommand : access.command = .write)
    (hreadonly : r.range.readonly = true) : Rejects (r.process access s) := by
  refine ⟨.runtimeError "runtime assertion failed", s, ?_, nofun⟩
  rw [process, if_neg (not_not.mpr ⟨h.address, h.length⟩), hcommand]
  change r.processWrite access.address.toNat access.data access.length s = _
  rw [processWrite, if_pos hreadonly]
  rfl

theorem process_of_not_admits (h : ¬ r.Admits access) : Rejects (r.process access s) := by
  by_cases haligned : access.address.toNat % r.range.alignment = 0 ∧
      access.length % r.range.alignment = 0
  · have houtside : (!r.range.contains access.address.toNat ||
        decide (r.range.toLocal access.address.toNat + access.length > r.range.size)) = true := by
      by_contra hinside
      rw [Bool.or_eq_true, not_or, Bool.not_eq_true', Bool.not_eq_false, decide_eq_true_iff,
        not_lt] at hinside
      exact h ⟨haligned.1, haligned.2, hinside.1, hinside.2⟩
    rw [process, if_neg (not_not.mpr haligned)]
    cases hcommand : access.command with
    | read =>
      refine ⟨.rangeAssertion, s, ?_, nofun⟩
      change r.read access.address.toNat access.length s = _
      rw [read, if_pos houtside]
      rfl
    | write =>
      change Rejects (r.processWrite access.address.toNat access.data access.length s)
      rw [processWrite]
      split_ifs with hreadonly
      · exact ⟨.runtimeError "runtime assertion failed", s, rfl, nofun⟩
      · refine ⟨.rangeAssertion, s, ?_, nofun⟩
        change (r.write access.address.toNat access.data access.length >>= fun _ => pure none) s = _
        rw [write, if_pos houtside]
        rfl
  · refine ⟨.runtimeError "runtime assertion failed", s, ?_, nofun⟩
    rw [process, if_pos haligned]
    rfl

/-! ## Pre- and postconditions -/

section

variable {P : S → Prop} {Q : Option (List (BitVec 8)) → S → Prop} {E : DeviceError α → S → Prop}
  (hthrow : ∀ e s, (∀ a, e ≠ .assertion a) → E e s)
include hthrow

/-- An access to a range is one that the range admits, with its callback, or throws. -/
theorem triple_process
    (hread : r.Admits access → access.command = .read →
      Triple P (r.preRead (r.range.toLocal access.address.toNat) access.length)
        (fun b t => Q (if b then
          some ((r.mem t).bytes (r.range.toLocal access.address.toNat) access.length)
          else none) t) E)
    (hwrite : r.Admits access → access.command = .write → r.range.readonly = false → ∀ s, P s →
      Triple (· = r.setMem ((r.mem s).copy (r.range.toLocal access.address.toNat)
          (access.data.take access.length)) s)
        (r.postWrite (r.range.toLocal access.address.toNat) access.length) (fun _ => Q none) E) :
    Triple P (r.process access) Q E := by
  intro s hs
  by_cases hadmits : r.Admits access
  · cases hcommand : access.command with
    | read =>
      rw [process_of_read hadmits hcommand rfl rfl]
      refine Triple.bind (hread hadmits hcommand) (fun b => ?_) s hs
      cases b with
      | true => exact .getBind fun t ht => .pure fun t' ht' => by rwa [ht']
      | false => exact .pure fun t ht => ht
    | write =>
      cases hreadonly : r.range.readonly with
      | true =>
        obtain ⟨e, t, hx, he⟩ := process_of_readonly (s := s) hadmits hcommand hreadonly
        rw [hx]
        exact hthrow e t he
      | false =>
        rw [process_of_write hadmits hcommand rfl rfl hreadonly]
        exact ((hwrite hadmits hcommand hreadonly s hs).bind fun _ => .pure fun t ht => ht) _ rfl
  · obtain ⟨e, t, hx, he⟩ := process_of_not_admits (s := s) hadmits
    rw [hx]
    exact hthrow e t he

theorem triple_route (h : ∀ r ∈ ranges, Triple P (r.process access) Q E) :
    Triple P (route name ranges access) Q E := by
  induction ranges with
  | nil => exact .throw fun s _ => hthrow _ s nofun
  | cons r ranges ih =>
    exact .ite (fun _ => h r List.mem_cons_self)
      fun _ => ih fun r' hr' => h r' (List.mem_cons_of_mem _ hr')

end

end MappedRange

end SpsVp.Platform
