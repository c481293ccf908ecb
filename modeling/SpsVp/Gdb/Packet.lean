import Mathlib.Data.BitVec
import SpsVp.Lib.Parser

/-!
# Packets of the GDB stub

Packets, their checksums and the first stage of the parser, as in `response.c`, `parser1.c` and
`util.c` of `libgdb`. `calc_csum` adds signed characters and takes the remainder of C, which has the
sign of the sum. A negative one is printed with eight digits, where two are expected. A notification
is sent with the wrong first character. `survives_iff` and `verifies_iff` say that there is nothing
else between the two ends.

Characters are bytes and strings are lists of them, without the byte that ends a string. The sum is
one of 32 bits. A program that ends in an assertion or in `errx` has no result (`none`). Assertions
are checked unless `ndebug` is set.
-/

namespace SpsVp.Gdb

open Lib BitVec

abbrev Byte := BitVec 8

/-- The byte of a character. -/
abbrev chr (c : Char) : Byte := BitVec.ofNat 8 c.toNat

/-- `gdb_kind_t`. -/
inductive Kind where
  | notify | packet | nack | ack
deriving DecidableEq

/-- `gdb_packet_t`. -/
structure GdbPacket where
  kind : Kind
  data : Option (List Byte)
  csum : Byte × Byte
deriving DecidableEq

def xassert (ndebug : Bool) (p : Prop) [Decidable p] : Option Unit :=
  if ndebug = true ∨ p then some () else none

/-! ## Checksums -/

/-- `calc_csum`. -/
def calcCsum (data : List Byte) : BitVec 32 :=
  (data.foldl (fun csum c => csum + c.signExtend 32) 0#32).srem 256#32

def hexDigit (n : Nat) : Byte := BitVec.ofNat 8 (if n < 10 then 48 + n else 87 + n)

/-- The format `%.2x`: no leading zeros, but at least two digits. -/
def formatHex (n : Nat) : List Byte :=
  let digits := (List.range 8).map fun i => hexDigit (n / 16 ^ (7 - i) % 16)
  (digits.take 6).dropWhile (· = chr '0') ++ digits.drop 6

/-- `gdb_is_valid`. `snprintf` has room for two digits, and says how many there are. -/
def gdbIsValid (ndebug : Bool) (pkt : GdbPacket) : Option Bool :=
  match pkt.data with
  | none => some true
  | some data => do
      let digits := formatHex (calcCsum data).toNat
      xassert ndebug (digits.length = 2)
      return digits.take 2 = [pkt.csum.1, pkt.csum.2]

/-- The checksum of the protocol: the sum of the bytes, as they are, modulo 256. -/
def protocolCsum (data : List Byte) : Nat := (data.map BitVec.toNat).sum % 256

/-! ## Packets as text -/

def kindToChar : Kind → Byte
  | .notify => chr '#'
  | .packet => chr '$'
  | .nack => chr '-'
  | .ack => chr '+'

/-- `gdb_serialize`. There is room for two digits of the checksum. -/
def gdbSerialize (ndebug : Bool) (kind : Kind) (data : Option (List Byte)) : Option (List Byte) :=
  if kind = .nack ∨ kind = .ack then do
    xassert ndebug (data = none)
    return [kindToChar kind]
  else do
    let data ← data
    let serialized := kindToChar kind :: data ++ chr '#' :: formatHex (calcCsum data).toNat
    if serialized.length ≥ data.length + 2 + 3 then none else some serialized

open Parser

/-- `gdbf_packet`. -/
def gdbfPacket (start : Byte) (data csum : List Byte) : GdbPacket where
  kind := if start = chr '%' then .notify else .packet
  data := some data
  csum := (csum.getD 1 0#8, csum.getD 2 0#8)

/-- `gdbf_acknowledge`. -/
def gdbfAcknowledge (c : Byte) : GdbPacket where
  kind := if c = chr '+' then .ack else .nack
  data := none
  csum := (0#8, 0#8)

def gdbCsum : Parser Byte (List Byte) :=
  seq (fun c csum => c :: csum) (char (chr '#')) (seq (fun a b => [a, b]) any any)

/-- A start character, data without some characters, and a checksum. -/
def framed (start : Byte) (excluded : List Byte) : Parser Byte GdbPacket :=
  seq (fun start r => gdbfPacket start r.1 r.2) (char start)
    (seq Prod.mk (many (noneOf excluded)) gdbCsum)

def gdbPacket : Parser Byte GdbPacket := framed (chr '$') [chr '#', chr '$']

def gdbNotification : Parser Byte GdbPacket := framed (chr '%') [chr '#', chr '$', chr '%']

def gdbAcknowledge : Parser Byte GdbPacket := map gdbfAcknowledge (oneOf [chr '+', chr '-'])

def gdbParseStage1 : Parser Byte GdbPacket :=
  orElse gdbAcknowledge (orElse gdbPacket gdbNotification)

/-! ## What is sent -/

/-- Data that may be in a packet or in a notification. -/
abbrev Payload :=
  { data : List Byte // ∀ c ∈ data, c ≠ 0#8 ∧ c ≠ chr '#' ∧ c ≠ chr '$' ∧ c ≠ chr '%' }

/-- A packet to be sent. -/
inductive Outgoing where
  | notify (data : Payload)
  | packet (data : Payload)
  | nack
  | ack

namespace Outgoing

def kind : Outgoing → Kind
  | notify _ => .notify
  | packet _ => .packet
  | nack => .nack
  | ack => .ack

def data : Outgoing → Option (List Byte)
  | notify data => some data
  | packet data => some data
  | nack => none
  | ack => none

/-- A packet is parsed as what was serialised. -/
def Survives (ndebug : Bool) (o : Outgoing) : Prop :=
  ∃ serialized pkt, gdbSerialize ndebug o.kind o.data = some serialized ∧
    gdbParseStage1 serialized = some (pkt, []) ∧ pkt.kind = o.kind ∧ pkt.data = o.data ∧
    gdbIsValid ndebug pkt = some true

/-- No notification, and no packet whose checksum is negative. -/
def Transmissible : Outgoing → Prop
  | notify _ => False
  | packet data => 0 ≤ (calcCsum data).toInt
  | nack => True
  | ack => True

end Outgoing

/-! ## The checksum -/

theorem setWidth_foldl (data : List Byte) (csum : BitVec 32) :
    (data.foldl (fun csum c => csum + c.signExtend 32) csum).setWidth 8 =
      csum.setWidth 8 + BitVec.ofNat 8 (data.map BitVec.toNat).sum := by
  induction data generalizing csum with
  | nil => simp
  | cons c data ih =>
    have hsign : (c.signExtend 32).setWidth 8 = c := by
      refine eq_of_getLsbD_eq fun i hi => ?_
      rw [getLsbD_setWidth, getLsbD_signExtend]
      simp [hi, show i < 32 by omega]
    rw [List.foldl_cons, ih, setWidth_add _ _ (by decide), hsign, List.map_cons,
      List.sum_cons, ofNat_add, ofNat_toNat, setWidth_eq, add_assoc]

/-- The remainder is the checksum of the protocol, or 256 less. -/
theorem toInt_calcCsum (data : List Byte) :
    (calcCsum data).toInt = protocolCsum data ∨
      (calcCsum data).toInt = protocolCsum data - 256 := by
  have hlow := congrArg BitVec.toNat (setWidth_foldl data 0#32)
  rw [calcCsum, toInt_srem]
  generalize data.foldl (fun csum c => csum + c.signExtend 32) 0#32 = s at hlow ⊢
  have hnat : s.toNat % 256 = protocolCsum data := by
    simpa [toNat_setWidth, protocolCsum] using hlow
  have hint : s.toInt % 256 = protocolCsum data := by
    rw [toInt_eq_toNat_cond, ← hnat]
    split_ifs <;> omega
  rw [show (256#32).toInt = 256 from rfl]
  have hdiv := Int.tmod_add_mul_tdiv s.toInt 256
  have hlt := Int.tmod_lt_of_pos s.toInt (show (0 : Int) < 256 by decide)
  have hgt := Int.lt_tmod_of_pos s.toInt (show (0 : Int) < 256 by decide)
  omega

theorem protocolCsum_lt (data : List Byte) : protocolCsum data < 256 := Nat.mod_lt _ (by decide)

/-- A sum that is not negative. -/
theorem toNat_calcCsum_of_nonneg {data : List Byte} (h : 0 ≤ (calcCsum data).toInt) :
    (calcCsum data).toNat = protocolCsum data := by
  have hcsum := toInt_calcCsum data
  have hlt := protocolCsum_lt data
  rw [toInt_eq_toNat_cond] at h hcsum
  split_ifs at h hcsum <;> omega

/-- A negative sum. -/
theorem toNat_calcCsum_of_neg {data : List Byte} (h : (calcCsum data).toInt < 0) :
    (calcCsum data).toNat = 2 ^ 32 - 256 + protocolCsum data := by
  have hcsum := toInt_calcCsum data
  have hlt := protocolCsum_lt data
  rw [toInt_eq_toNat_cond] at h hcsum
  split_ifs at h hcsum <;> omega

/-! ## The digits -/

/-- The two digits of a checksum. -/
def csumDigits (n : Nat) : Byte × Byte := (hexDigit (n / 16), hexDigit (n % 16))

variable {n : Nat}

theorem formatHex_of_lt (h : n < 256) :
    formatHex n = [(csumDigits n).1, (csumDigits n).2] := by
  revert n
  decide +kernel

/-- A negative checksum has eight digits, of which the first ones are `f`. -/
theorem formatHex_of_ge (h : n < 256) :
    (formatHex (2 ^ 32 - 256 + n)).length = 8 ∧
      (formatHex (2 ^ 32 - 256 + n)).take 2 = [chr 'f', chr 'f'] := by
  revert n
  decide +kernel

theorem csumDigits_injective {m : Nat} (hm : m < 256) (hn : n < 256)
    (h : csumDigits m = csumDigits n) : m = n := by
  have hdigit : ∀ a < 16, ∀ b < 16, hexDigit a = hexDigit b → a = b := by decide
  rw [csumDigits, csumDigits, Prod.mk.injEq] at h
  have hhigh := hdigit _ (by omega) _ (by omega) h.1
  have hlow := hdigit _ (by omega) _ (by omega) h.2
  omega

/-! ## Checking a checksum -/

variable {ndebug : Bool} {kind : Kind} {data : List Byte}

/-- A packet is valid if and only if it has the digits of the checksum of the protocol. -/
def Verifies (ndebug : Bool) (kind : Kind) (data : List Byte) : Prop :=
  ∀ csum : Byte × Byte, ∃ valid, gdbIsValid ndebug ⟨kind, some data, csum⟩ = some valid ∧
    (valid = true ↔ csum = csumDigits (protocolCsum data))

theorem gdbIsValid_of_nonneg (h : 0 ≤ (calcCsum data).toInt) (csum : Byte × Byte) :
    gdbIsValid ndebug ⟨kind, some data, csum⟩ =
      some (decide (csum = csumDigits (protocolCsum data))) := by
  have hdigits : formatHex (calcCsum data).toNat =
      [(csumDigits (protocolCsum data)).1, (csumDigits (protocolCsum data)).2] := by
    rw [toNat_calcCsum_of_nonneg h, formatHex_of_lt (protocolCsum_lt data)]
  simp only [gdbIsValid, hdigits, xassert]
  simp [Prod.ext_iff, eq_comm]

theorem gdbIsValid_of_neg (h : (calcCsum data).toInt < 0) (csum : Byte × Byte) :
    gdbIsValid ndebug ⟨kind, some data, csum⟩ =
      if ndebug then some (decide (csum = (chr 'f', chr 'f'))) else none := by
  obtain ⟨hlength, htake⟩ := formatHex_of_ge (protocolCsum_lt data)
  rw [← toNat_calcCsum_of_neg h] at hlength htake
  simp only [gdbIsValid, hlength, htake, xassert]
  cases ndebug with
  | false => simp
  | true => simp [Prod.ext_iff, eq_comm]

/-- Checksums are those of the protocol as long as the sum of the signed characters has no negative
remainder. Without assertions, the remainder `-1` does no harm. -/
theorem verifies_iff (ndebug : Bool) (kind : Kind) (data : List Byte) :
    Verifies ndebug kind data ↔
      0 ≤ (calcCsum data).toInt ∨ (ndebug = true ∧ (calcCsum data).toInt = -1) := by
  have hlt := protocolCsum_lt data
  by_cases hneg : (calcCsum data).toInt < 0
  · have hcsum : (calcCsum data).toInt = protocolCsum data - 256 := by
      have hcases := toInt_calcCsum data
      omega
    constructor
    · intro h
      obtain ⟨valid, hvalid, hiff⟩ := h (chr 'f', chr 'f')
      rw [gdbIsValid_of_neg hneg] at hvalid
      cases ndebug with
      | false => cases hvalid
      | true =>
        obtain rfl : true = valid := Option.some.inj hvalid
        have hff : csumDigits 255 = csumDigits (protocolCsum data) := hiff.mp rfl
        have h255 := csumDigits_injective (by decide) hlt hff
        exact .inr ⟨rfl, by omega⟩
    · rintro (hnonneg | ⟨rfl, hone⟩) csum
      · omega
      · have h255 : protocolCsum data = 255 := by omega
        refine ⟨_, gdbIsValid_of_neg hneg csum, ?_⟩
        rw [h255, decide_eq_true_iff]
        rfl
  · have hnonneg : 0 ≤ (calcCsum data).toInt := Int.not_lt.mp hneg
    refine iff_of_true (fun csum => ?_) (.inl hnonneg)
    exact ⟨_, gdbIsValid_of_nonneg hnonneg csum, decide_eq_true_iff⟩

/-- The byte `80` with its own checksum: the program is aborted, or the packet is rejected. -/
theorem not_verifies_high_byte :
    csumDigits (protocolCsum [0x80#8]) = (chr '8', chr '0') ∧
    gdbIsValid false ⟨.packet, some [0x80#8], (chr '8', chr '0')⟩ = none ∧
    gdbIsValid true ⟨.packet, some [0x80#8], (chr '8', chr '0')⟩ = some false := by
  decide

/-! ## Serialising and parsing -/

/-- A negative checksum does not fit. -/
theorem gdbSerialize_of_neg (hkind : ¬ (kind = .nack ∨ kind = .ack))
    (h : (calcCsum data).toInt < 0) : gdbSerialize ndebug kind (some data) = none := by
  have hlength : (formatHex (calcCsum data).toNat).length = 8 := by
    rw [toNat_calcCsum_of_neg h]
    exact (formatHex_of_ge (protocolCsum_lt data)).1
  rw [gdbSerialize, if_neg hkind]
  refine if_pos ?_
  rw [List.length_append, List.length_cons, List.length_cons, hlength]
  omega

theorem gdbSerialize_of_nonneg (hkind : ¬ (kind = .nack ∨ kind = .ack))
    (h : 0 ≤ (calcCsum data).toInt) :
    gdbSerialize ndebug kind (some data) = some (kindToChar kind :: (data ++
      [chr '#', (csumDigits (protocolCsum data)).1, (csumDigits (protocolCsum data)).2])) := by
  have hdigits : formatHex (calcCsum data).toNat =
      [(csumDigits (protocolCsum data)).1, (csumDigits (protocolCsum data)).2] := by
    rw [toNat_calcCsum_of_nonneg h, formatHex_of_lt (protocolCsum_lt data)]
  rw [gdbSerialize, if_neg hkind]
  simp only [Option.bind_eq_bind, Option.bind_some, hdigits]
  refine if_neg ?_
  rw [List.length_append, List.length_cons, List.length_cons, List.length_cons, List.length_cons,
    List.length_nil]
  omega

/-- A packet is read up to its checksum. -/
theorem framed_eq_some (start : Byte) {excluded : List Byte} (hexcluded : chr '#' ∈ excluded)
    (h : ∀ c ∈ data, c ∉ excluded) (csum : Byte × Byte) :
    framed start excluded (start :: (data ++ [chr '#', csum.1, csum.2])) =
      some (gdbfPacket start data [chr '#', csum.1, csum.2], []) := by
  have hdata : many (noneOf excluded) (data ++ [chr '#', csum.1, csum.2]) =
      some (data, [chr '#', csum.1, csum.2]) := by
    refine many_satisfy data _ (fun c hc => decide_eq_true (h c hc)) (satisfy_cons_of_false ?_ _)
    exact decide_eq_false (not_not_intro hexcluded)
  have hcsum : gdbCsum [chr '#', csum.1, csum.2] = some ([chr '#', csum.1, csum.2], []) := rfl
  exact seq_eq_some (char_cons start _) (seq_eq_some hdata hcsum Prod.mk) _

theorem gdbParseStage1_packet (h : ∀ c ∈ data, c ∉ [chr '#', chr '$']) (csum : Byte × Byte) :
    gdbParseStage1 (chr '$' :: (data ++ [chr '#', csum.1, csum.2])) =
      some (⟨.packet, some data, csum⟩, []) := by
  have hack : gdbAcknowledge (chr '$' :: (data ++ [chr '#', csum.1, csum.2])) = none := rfl
  rw [gdbParseStage1, orElse_eq_right hack]
  exact orElse_eq_left (framed_eq_some (chr '$') List.mem_cons_self h csum)

/-- Nothing begins with the character of the checksum. -/
theorem gdbParseStage1_hash (cs : List Byte) : gdbParseStage1 (chr '#' :: cs) = none := rfl

namespace Outgoing

/-- A packet survives serialisation if and only if it is no notification and its checksum is not
negative. -/
theorem survives_iff (ndebug : Bool) (o : Outgoing) : o.Survives ndebug ↔ o.Transmissible := by
  cases o with
  | nack => exact iff_of_true ⟨[chr '-'], _, by cases ndebug <;> rfl, rfl, rfl, rfl, rfl⟩ trivial
  | ack => exact iff_of_true ⟨[chr '+'], _, by cases ndebug <;> rfl, rfl, rfl, rfl, rfl⟩ trivial
  | notify data =>
    refine iff_of_false ?_ id
    rintro ⟨serialized, pkt, hserialize, hparse, -⟩
    by_cases hneg : (calcCsum data).toInt < 0
    · rw [kind, Outgoing.data, gdbSerialize_of_neg (by decide) hneg] at hserialize
      cases hserialize
    · rw [kind, Outgoing.data,
        gdbSerialize_of_nonneg (by decide) (Int.not_lt.mp hneg)] at hserialize
      cases hserialize
      rw [kindToChar, gdbParseStage1_hash] at hparse
      cases hparse
  | packet data =>
    constructor
    · rintro ⟨serialized, pkt, hserialize, -⟩
      refine Int.not_lt.mp fun hneg => ?_
      rw [kind, Outgoing.data, gdbSerialize_of_neg (by decide) hneg] at hserialize
      cases hserialize
    · intro h
      have hplain : ∀ c ∈ data.val, c ∉ [chr '#', chr '$'] := by
        intro c hc hmem
        obtain ⟨-, hhash, hdollar, -⟩ := data.property c hc
        simp only [List.mem_cons, List.not_mem_nil, or_false] at hmem
        exact hmem.elim hhash hdollar
      have hkind : ¬ (Kind.packet = .nack ∨ Kind.packet = .ack) := by decide
      refine ⟨_, _, gdbSerialize_of_nonneg hkind h, gdbParseStage1_packet hplain _, rfl, rfl, ?_⟩
      rw [gdbIsValid_of_nonneg h, decide_eq_true rfl]

/-- A notification is serialised and not parsed; a packet with the byte `80` is not serialised. -/
theorem not_survives :
    gdbSerialize false .notify (some [chr 'a']) =
    some [chr '#', chr 'a', chr '#', chr '6', chr '1'] ∧
    gdbParseStage1 [chr '#', chr 'a', chr '#', chr '6', chr '1'] = none ∧
    gdbSerialize false .packet (some [0x80#8]) = none := by
  decide

end Outgoing

end SpsVp.Gdb
