import SpsVp.Lib.Effect
import SpsVp.Platform.Bus

/-!
# Register banks

`RegisterMapping` and `LocalRouter` of `util/tlm_map.h`. A transaction is one for the register of
its word, and it may be for some of the bytes only. The callback of the device is handed a function
that performs the access, so that it can prepare the register before the value is read.

What a callback gives to a transaction are two things that nothing keeps together: the bytes that
the function copies into the buffer, and the extension that the callback may set.
-/

namespace SpsVp.Platform

open Clover Lib Effect

/-- What is thrown, beside what a device throws. -/
inductive RegisterError (ε : Type) where
  /-- `LocalRouter::transport`: "access of unmapped address". -/
  | unmappedAddress
  /-- `try_handle`: "do not allow access beyond the register". -/
  | beyondRegister
  /-- `try_handle`: `mode` permits the command. -/
  | accessMode
  | device (e : ε)

/-- `access_mode`. -/
structure AccessMode where
  allowRead : Bool := true
  allowWrite : Bool := true

def AccessMode.allows (mode : AccessMode) : Command → Bool
  | .read => mode.allowRead
  | .write => mode.allowWrite

/-- What a callback has done: the value that the function has read, if it was called, and the value
of the extension that was set. -/
structure Handled where
  read : Option (BitVec 32) := none
  extension : Option Concolic := none

/-- A `RegisterMapping` with registers `R` of a device whose state is `S`. -/
structure RegisterBank (ε S R : Type) where
  /-- `addr_to_reg`. -/
  find : BitVec 64 → Option R
  mode : R → AccessMode := fun _ => {}
  mask : R → BitVec 32 := fun _ => 0xffffffff#32
  value : R → S → BitVec 32
  assign : R → BitVec 32 → S → S
  /-- The callback, with the new value and the function that performs the access. -/
  handler : Command → R → BitVec 32 → Effect ε S (Option (BitVec 32)) → Effect ε S Handled

/-- A word with some of its bytes replaced. -/
def mergeBytes (word : BitVec 32) (off : Nat) (data : List (BitVec 8)) : BitVec 32 :=
  ByteMemory.littleEndian (fun k =>
    if off ≤ k ∧ k < off + data.length then data.getD (k - off) 0#8
    else word.extractLsb' (8 * k) 8) 4

/-- Some of the bytes of a word. -/
def wordBytes (word : BitVec 32) (off len : Nat) : List (BitVec 8) :=
  List.ofFn fun k : Fin len => word.extractLsb' (8 * (off + k)) 8

/-- The offset of an access in its register. -/
def Access.offset (access : Access) : Nat := access.address.toNat % 4

namespace RegisterBank

variable {ε S R : Type} (bank : RegisterBank ε S R)

/-- The register of an access: the address is clamped to a word. -/
def register (access : Access) : Option R := bank.find (access.address - access.address % 4#64)

/-- `nv`, the word at the data pointer. What is behind a shorter buffer is zero here. -/
def newValue (access : Access) : BitVec 32 :=
  if access.command = .write then mergeBytes 0#32 0 (access.data.take 4) else 0#32

/-- The function that performs an access. -/
def fn (access : Access) (r : R) : Effect ε S (Option (BitVec 32)) :=
  match access.command with
  | .read => do return some (bank.value r (← get))
  | .write => do
      modify fun s => bank.assign r (mergeBytes (bank.value r s) access.offset
        (access.data.take access.length) &&& bank.mask r) s
      return none

/-- What the transaction comes back with. -/
def answer (access : Access) (handled : Handled) : Answer :=
  match access.command with
  | .write => .none
  | .read =>
    let data := handled.read.elim access.data fun word => wordBytes word access.offset access.length
    handled.extension.elim (.bytes data) (.extended data)

/-- `try_handle` for the register. -/
def tryHandle (access : Access) (r : R) : Effect (RegisterError ε) S Answer :=
  if 4 < access.length + access.offset then throw .beyondRegister
  else if (bank.mode r).allows access.command = false then throw .accessMode
  else do
    let handled ← mapError .device
      (bank.handler access.command r (newValue access) (bank.fn access r))
    return answer access handled

/-- `LocalRouter::transport` of a router with one bank. -/
def transport (access : Access) : Effect (RegisterError ε) S Answer :=
  match bank.register access with
  | none => throw .unmappedAddress
  | some r => bank.tryHandle access r

variable {bank} {access : Access} {s t : S} {out : Answer}

/-- A transaction that succeeds is handled by the callback of its register. -/
theorem transport_eq_ok (h : bank.transport access s = .ok out t) : ∃ r handled,
    bank.register access = some r ∧ access.length + access.offset ≤ 4 ∧
    bank.handler access.command r (newValue access) (bank.fn access r) s = .ok handled t ∧
    out = answer access handled := by
  unfold transport at h
  cases hr : bank.register access with
  | none =>
    rw [hr] at h
    cases h
  | some r =>
    rw [hr] at h
    dsimp only at h
    unfold tryHandle at h
    split_ifs at h with hlength hmode
    · cases h
    · cases h
    · obtain ⟨handled, u, hhandled, hreturn⟩ := bind_eq_ok h
      cases hreturn
      exact ⟨r, handled, rfl, Nat.not_lt.mp hlength, mapError_eq_ok.mp hhandled, rfl⟩

/-! ## What a callback is told -/

/-- A register is a variable of the device. -/
structure Lawful (bank : RegisterBank ε S R) : Prop where
  value_assign : ∀ r word s, bank.value r (bank.assign r word s) = word

/-- An access covers a byte of its register. -/
def Covers (access : Access) (k : Nat) : Prop :=
  access.offset ≤ k ∧ k < access.offset + access.length

instance (access : Access) (k : Nat) : Decidable (Covers access k) :=
  inferInstanceAs (Decidable (_ ∧ _))

/-- What the comment of `register_access_t` says of a write: `nv` is the value that `fn` assigns,
and the bytes that the access does not cover are kept. -/
structure Announces (bank : RegisterBank ε S R) (access : Access) (r : R) (s t : S) : Prop where
  value : newValue access = bank.value r t
  rest : ∀ k < 4, ¬ Covers access k →
    (bank.value r t).extractLsb' (8 * k) 8 = (bank.value r s).extractLsb' (8 * k) 8

theorem extractLsb'_mergeBytes (word : BitVec 32) (off : Nat) (data : List (BitVec 8)) {k : Nat}
    (hk : k < 4) : (mergeBytes word off data).extractLsb' (8 * k) 8 =
      if off ≤ k ∧ k < off + data.length then data.getD (k - off) 0#8
      else word.extractLsb' (8 * k) 8 :=
  ByteMemory.extract_littleEndian _ hk

/-- A word that is written as a whole. -/
theorem mergeBytes_four (word word' : BitVec 32) {data : List (BitVec 8)} (h : data.length = 4) :
    mergeBytes word 0 data = mergeBytes word' 0 data := by
  refine ByteMemory.littleEndian_congr fun k hk => ?_
  have hcovered : 0 ≤ k ∧ k < 0 + data.length := ⟨Nat.zero_le k, by omega⟩
  rw [if_pos hcovered, if_pos hcovered]

/-- The state after `fn` of a write. -/
def written (bank : RegisterBank ε S R) (access : Access) (r : R) (s : S) : S :=
  bank.assign r (mergeBytes (bank.value r s) access.offset (access.data.take access.length) &&&
    bank.mask r) s

theorem fn_of_write (hwrite : access.command = .write) (r : R) (s : S) :
    bank.fn access r s = .ok none (bank.written access r s) := by
  rw [fn, hwrite]
  rfl

/-- A write of all bits of a register is announced as it is. -/
theorem announces_of_whole (hlawful : bank.Lawful) {r : R} (hwrite : access.command = .write)
    (hoffset : access.offset = 0) (hlength : access.length = 4) (hdata : 4 ≤ access.data.length)
    (hmask : bank.mask r = BitVec.allOnes 32) (s : S) :
    Announces bank access r s (bank.written access r s) := by
  have hvalue : bank.value r (bank.written access r s) =
      mergeBytes (bank.value r s) 0 (access.data.take 4) := by
    rw [written, hlawful.value_assign, hoffset, hlength, hmask, BitVec.and_allOnes]
  refine ⟨?_, fun k hk hcovers => absurd ⟨?_, ?_⟩ hcovers⟩
  · rw [hvalue, newValue, if_pos hwrite]
    exact mergeBytes_four _ _ (by rw [List.length_take]; omega)
  · omega
  · omega

/-- A write of ones, from a buffer that is as long as a register. -/
def onesWrite (off len : Nat) : Access :=
  ⟨.write, BitVec.ofNat 64 off, List.replicate 4 0xff#8, len⟩

/-- The accesses with which a callback is told the value that is stored, whatever is written and
whatever the register held before: those to the whole of a register without a write mask. -/
theorem announces_iff (bank : RegisterBank ε S R) (hlawful : bank.Lawful) (s₀ : S) (r : R)
    {off len : Nat} (hlen : 0 < len) (hinside : len + off ≤ 4) :
    (∀ access s, access.command = .write → access.offset = off → access.length = len →
        4 ≤ access.data.length →
        ∃ t, bank.fn access r s = .ok none t ∧ Announces bank access r s t) ↔
      off = 0 ∧ len = 4 ∧ bank.mask r = BitVec.allOnes 32 := by
  constructor
  · intro hall
    have hoffset : (onesWrite off len).offset = off := by
      change (BitVec.ofNat 64 off).toNat % 4 = off
      rw [BitVec.toNat_ofNat]
      omega
    obtain ⟨t, hfn, hannounces⟩ := hall (onesWrite off len) (bank.assign r 0#32 s₀) rfl hoffset rfl
      (Nat.le_refl 4)
    rw [fn_of_write rfl] at hfn
    cases hfn
    have hnew : newValue (onesWrite off len) = BitVec.allOnes 32 := by
      change mergeBytes 0#32 0 (List.replicate 4 0xff#8) = _
      decide
    have hvalue := hannounces.value
    rw [hnew, written, hlawful.value_assign, hlawful.value_assign, hoffset] at hvalue
    obtain ⟨hmerged, hmask⟩ := BitVec.and_eq_allOnes_iff.mp hvalue.symm
    -- a byte of zero that the access does not cover would be left
    have hcovered : ∀ k < 4, off ≤ k ∧ k < off + len := by
      intro k hk
      by_contra hoff
      have hbyte := extractLsb'_mergeBytes 0#32 off ((onesWrite off len).data.take len) hk
      have htake : ((onesWrite off len).data.take len).length = len := by
        rw [List.length_take]
        change min len 4 = len
        omega
      rw [htake, if_neg hoff] at hbyte
      have hones : (BitVec.allOnes 32).extractLsb' (8 * k) 8 = (0#32).extractLsb' (8 * k) 8 := by
        rw [← hbyte, ← hmerged]
        rfl
      have hne :
          ∀ k < 4, (BitVec.allOnes 32).extractLsb' (8 * k) 8 ≠ (0#32).extractLsb' (8 * k) 8 := by
        decide
      exact hne k hk hones
    have hfirst := hcovered 0 (by omega)
    have hlast := hcovered 3 (by omega)
    exact ⟨by omega, by omega, hmask⟩
  · rintro ⟨rfl, rfl, hmask⟩ access s hwrite hoffset hlength hdata
    exact ⟨_, fn_of_write hwrite r s,
      announces_of_whole hlawful hwrite hoffset hlength hdata hmask s⟩

/-- A device with one register, whose callback performs the access. -/
def cell (mask : BitVec 32) : RegisterBank Empty (BitVec 32) Unit where
  find addr := if addr = 0#64 then some () else none
  mask _ := mask
  value _ s := s
  assign _ word _ := word
  handler _ _ _ fn := do return { read := ← fn }

theorem lawful_cell (mask : BitVec 32) : (cell mask).Lawful := ⟨fun _ _ _ => rfl⟩

theorem announces_cell : (cell 0xffffffff#32).Lawful ∧
    ∀ access s, access.command = .write → access.offset = 0 →
      access.length = 4 → 4 ≤ access.data.length →
      ∃ t, (cell 0xffffffff#32).fn access () s = .ok none t ∧
        Announces (cell 0xffffffff#32) access () s t :=
  ⟨lawful_cell _,
    (announces_iff (cell 0xffffffff#32) (lawful_cell _) 0#32 () (by decide) (by decide)).mpr
      ⟨rfl, rfl, rfl⟩⟩

/-- One byte, at an offset in its register. -/
def byteWrite (off : Nat) : Access := ⟨.write, BitVec.ofNat 64 off, [0xab#8, 0#8, 0#8, 0#8], 1⟩

/-- A byte of the data is announced as the lowest one of the register, wherever it is written. The
bytes outside of an access lose the bits that the write mask leaves out. -/
theorem unannounced_byte :
    (newValue (byteWrite 1) = 0xab#32 ∧
      (cell 0xffffffff#32).fn (byteWrite 1) () 0#32 = .ok none 0xab00#32) ∧
    (¬ Covers (byteWrite 0) 3 ∧
      (cell 0x0000ffff#32).fn (byteWrite 0) () 0x12345678#32 = .ok none 0x000056ab#32) := by
  refine ⟨⟨by decide, ?_⟩, by decide, ?_⟩
  · rw [fn_of_write rfl]
    exact congrArg (EStateM.Result.ok none) (by decide)
  · rw [fn_of_write rfl]
    exact congrArg (EStateM.Result.ok none) (by decide)

end RegisterBank

/-! ## Devices with a state -/

/-- The response to the last access of a history, by a device with a state. -/
def respondFrom {S : Type} (serve : S → Access → Response × S) (s : S) : List Access → Response
  | [] => .served .none []
  | [access] => (serve s access).1
  | access :: history => respondFrom serve (serve s access).2 history

/-- A device with a state, as the function of its accesses that the bus knows. -/
def Device.ofState {S : Type} (serve : S → Access → Response × S) (s : S) : Device :=
  ⟨respondFrom serve s, []⟩

/-- A device that answers an access or ends the program. -/
def serveWith {ε S : Type} (transport : Access → Effect ε S Answer) (s : S) (access : Access) :
    Response × S :=
  match transport access s with
  | .ok answer t => (.served answer [], t)
  | .error _ t => (.hostError, t)

end SpsVp.Platform
