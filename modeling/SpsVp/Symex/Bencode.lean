import SpsVp.Platform.Slip
import SpsVp.Symex.Format

/-!
# Bencode

`symex/bencode.hpp`, the format in which the simulation and the protocol server exchange data. The
decoder takes characters from the front of the stream and keeps the lists and dictionaries that are
still open on a stack. The encoder follows the value. A byte of the stream is a character here.

`decode_encode` is the round trip: what was encoded is decoded to the value, and nothing behind it
is read. `messages_of_txdata` follows packets of the guest through the UART and `send_message`.
-/

namespace SpsVp.Symex.Bencode

open Platform

/-! ## Decoding -/

/-- What `*begin` gives: at the end of the stream, the character that `EOF` is converted to. -/
def front (input : List Char) : Char := input.headD '\xff'

@[simp] theorem front_cons (c : Char) (rest : List Char) : front (c :: rest) = c := rfl

def endOfString : String := "unexpected end of string"

/-- `decode_digits`: up to `n` digits that fit for sure, and one that is checked against the largest
number. `what` says that the number does not fit. -/
def decodeDigits (limit : Nat) (what : String) :
    Nat → Nat → List Char → Except String (Nat × List Char)
  | _, _, [] => throw endOfString
  | n + 1, value, c :: rest =>
    if c.isDigit then decodeDigits limit what n (10 * value + (c.toNat - '0'.toNat)) rest
    else pure (value, c :: rest)
  | 0, value, c :: rest =>
    let digit := c.toNat - '0'.toNat
    if c.isDigit then
      if limit / 10 < value ∨ (value = limit / 10 ∧ limit % 10 < digit) ∨ (front rest).isDigit then
        throw what
      else pure (10 * value + digit, rest)
    else pure (value, c :: rest)

/-- The end of `decode_int`, after the digits. -/
def endInt (sgn : Int) : Nat × List Char → Except String (BitVec 64 × List Char)
  | (value, rest) =>
    if front rest = 'e' then pure (BitVec.ofInt 64 (sgn * value), rest.tail)
    else throw "expected 'e'"

/-- `decode_int`, behind the `i`. -/
def decodeInt (input : List Char) : Except String (BitVec 64 × List Char) :=
  if front input = '-' then
    decodeDigits (2 ^ 63) "integer underflow" 18 0 input.tail >>= endInt (-1)
  else decodeDigits (2 ^ 63 - 1) "integer overflow" 18 0 input >>= endInt 1

/-- `max_size` of a `std::string`. -/
def maxSize : Nat := 0x3fffffffffffffff

/-- `decode_str`. The string is constructed with its length before it is read, which throws a
`std::length_error` if it is too long. -/
def decodeStr (input : List Char) : Except String (String × List Char) := do
  let (len, rest) ← decodeDigits (2 ^ 64 - 1) "integer overflow" 19 0 input
  if rest = [] then throw endOfString
  else if front rest ≠ ':' then throw "expected ':'"
  else if maxSize < len then throw "basic_string::_M_create"
  else if rest.tail.length < len then throw endOfString
  else pure (String.ofList (rest.tail.take len), rest.tail.drop len)

/-- A list or a dictionary on the stack. A dictionary holds the key that was read last. -/
inductive Open where
  | list (values : List Bencode)
  | dict (key : String) (entries : List (String × Bencode))

/-- `emplace` of a `std::map`, whose entries are in the order of the keys. -/
def emplace (key : String) (value : Bencode) : List (String × Bencode) → List (String × Bencode)
  | [] => [(key, value)]
  | entry :: entries =>
    if entry.1 < key then entry :: emplace key value entries else (key, value) :: entry :: entries

def Open.value : Open → Bencode
  | .list values => .list values
  | .dict _ entries => .dict entries

/-- Where `store` puts a value: it is the result, or goes into the innermost list or dictionary. -/
def store (value : Bencode) : List Open → Bencode ⊕ List Open
  | [] => .inl value
  | .list values :: state => .inr (.list (values ++ [value]) :: state)
  | .dict key entries :: state => .inr (.dict key (emplace key value entries) :: state)

/-- The exception of `store`. -/
def checkKey : List Open → Except String Unit
  | .dict key entries :: _ =>
    if key ∈ entries.map Prod.fst then throw ("duplicated key in dict: " ++ key) else pure ()
  | _ => pure ()

def readKey : List Open → List Char → Except String (List Open × List Char)
  | .dict _ entries :: state, input =>
    if (front input).isDigit then do
      let (key, rest) ← decodeStr input
      if rest = [] then throw endOfString else pure (.dict key entries :: state, rest)
    else throw "expected string token"
  | state, input => pure (state, input)

/-- The value of an element. A list or a dictionary is only opened. -/
def readValue (state : List Open) (input : List Char) :
    Except String ((Bencode ⊕ List Open) × List Char) :=
  if front input = 'i' then do
    let (value, rest) ← decodeInt input.tail
    checkKey state
    pure (store (.integer value) state, rest)
  else if front input = 'l' then do
    checkKey state
    pure (.inr (.list [] :: state), input.tail)
  else if front input = 'd' then do
    checkKey state
    pure (.inr (.dict "" [] :: state), input.tail)
  else if (front input).isDigit then do
    let (value, rest) ← decodeStr input
    checkKey state
    pure (store (.string value) state, rest)
  else throw "unexpected type"

/-- One turn of the loop of `basic_decode`. -/
def turn (state : List Open) (input : List Char) :
    Except String ((Bencode ⊕ List Open) × List Char) :=
  if input = [] then throw endOfString
  else if front input = 'e' then
    match state with
    | [] => throw "unexpected e"
    | top :: state => pure (store top.value state, input.tail)
  else do
    let (state, input) ← readKey state input
    readValue state input

/-- `basic_decode`. Every turn takes a character, so there is no input left after as many turns. -/
def decodeLoop : Nat → List Open → List Char → Except String (Bencode × List Char)
  | 0, _, _ => throw endOfString
  | n + 1, state, input => do
    match ← turn state input with
    | (.inl value, rest) => pure (value, rest)
    | (.inr state, rest) => decodeLoop n state rest

def decode (input : List Char) : Except String (Bencode × List Char) :=
  decodeLoop input.length [] input

/-! ## Encoding -/

def writeInteger (value : Int) : List Char :=
  if value < 0 then '-' :: Nat.toDigits 10 value.natAbs else Nat.toDigits 10 value.natAbs

def encodeString (value : String) : List Char :=
  Nat.toDigits 10 value.toList.length ++ ':' :: value.toList

mutual

def encode : Bencode → List Char
  | .integer value => 'i' :: writeInteger value.toInt ++ ['e']
  | .string value => encodeString value
  | .list values => 'l' :: encodeList values ++ ['e']
  | .dict entries => 'd' :: encodeEntries entries ++ ['e']

def encodeList : List Bencode → List Char
  | [] => []
  | value :: values => encode value ++ encodeList values

def encodeEntries : List (String × Bencode) → List Char
  | [] => []
  | (key, value) :: entries => encodeString key ++ encode value ++ encodeEntries entries

end

/-- What `bencode::data` can hold: the keys of a dictionary are in order, and no string is longer
than a `std::string` can be. -/
inductive Storable : Bencode → Prop where
  | integer (value : BitVec 64) : Storable (.integer value)
  | string {value : String} (h : value.toList.length ≤ maxSize) : Storable (.string value)
  | list {values : List Bencode} (h : ∀ value ∈ values, Storable value) : Storable (.list values)
  | dict {entries : List (String × Bencode)} (hkeys : entries.Pairwise (·.1 < ·.1))
      (hlengths : ∀ entry ∈ entries, entry.1.toList.length ≤ maxSize)
      (h : ∀ entry ∈ entries, Storable entry.2) : Storable (.dict entries)

/-! ## Numbers and strings -/

variable {limit : Nat} {what : String} {c : Char} {rest : List Char}

/-- Digits that make up a number within the limit are read, up to the first other character. -/
theorem decodeDigits_append (hc : c.isDigit = false) {digits : List Char} {n value : Nat}
    (hdigits : ∀ d ∈ digits, d.isDigit = true) (hlength : digits.length ≤ n + 1)
    (hlimit : Nat.ofDigitChars 10 digits value ≤ limit) :
    decodeDigits limit what n value (digits ++ c :: rest) =
      .ok (Nat.ofDigitChars 10 digits value, c :: rest) := by
  have hstop : ¬ c.isDigit = true := Bool.not_eq_true _ ▸ hc
  induction digits generalizing n value with
  | nil =>
    cases n with
    | zero | succ n =>
      rw [List.nil_append, decodeDigits, if_neg hstop]
      rfl
  | cons d digits ih =>
    have hd := hdigits d List.mem_cons_self
    rw [Nat.ofDigitChars_cons] at hlimit ⊢
    cases n with
    | succ n =>
      rw [List.cons_append, decodeDigits, if_pos hd]
      exact ih (fun d h => hdigits d (List.mem_cons_of_mem _ h)) (Nat.le_of_succ_le_succ hlength)
        hlimit
    | zero =>
      -- this is the last digit that may come, and it fits
      obtain rfl : digits = [] :=
        List.eq_nil_of_length_eq_zero (Nat.le_zero.mp (Nat.le_of_succ_le_succ hlength))
      have hfits : 10 * value + (d.toNat - '0'.toNat) ≤ limit := hlimit
      rw [List.cons_append, decodeDigits, if_pos hd, if_neg]
      · rfl
      · rintro (h | ⟨rfl, h⟩ | h)
        · omega
        · omega
        · exact hstop h

theorem decodeDigits_toDigits (hc : c.isDigit = false) {n value : Nat} (hvalue : value ≤ limit)
    (hlimit : limit < 10 ^ (n + 1)) :
    decodeDigits limit what n 0 (Nat.toDigits 10 value ++ c :: rest) = .ok (value, c :: rest) := by
  have hread : Nat.ofDigitChars 10 (Nat.toDigits 10 value) 0 = value :=
    Nat.ofDigitChars_toDigits (by decide) (by decide)
  have hlength := (Nat.length_toDigits_le_iff (b := 10) (n := value) (by decide)
    (Nat.succ_pos n)).mpr (Nat.lt_of_le_of_lt hvalue hlimit)
  rw [decodeDigits_append hc (fun d => Nat.isDigit_of_mem_toDigits (by decide) (by decide)) hlength
    (hread.trans_le hvalue), hread]

/-- The first character of a number is a digit. -/
theorem isDigit_front_toDigits (value : Nat) (rest : List Char) :
    (front (Nat.toDigits 10 value ++ rest)).isDigit = true := by
  have hdigits : ∀ d ∈ Nat.toDigits 10 value, d.isDigit = true := fun d =>
    Nat.isDigit_of_mem_toDigits (by decide) (by decide)
  cases h : Nat.toDigits 10 value with
  | nil => exact absurd h Nat.toDigits_ne_nil
  | cons d digits => exact hdigits d (h ▸ List.mem_cons_self)

theorem isDigit_front_encodeString (value : String) (rest : List Char) :
    (front (encodeString value ++ rest)).isDigit = true := by
  rw [encodeString, List.append_assoc]
  exact isDigit_front_toDigits _ _

theorem front_ne_of_isDigit {input : List Char} (h : (front input).isDigit = true)
    (hc : c.isDigit = false) : front input ≠ c := by
  rintro rfl
  exact Bool.false_ne_true (hc.symm.trans h)

theorem decodeInt_writeInteger (value : BitVec 64) (rest : List Char) :
    decodeInt (writeInteger value.toInt ++ 'e' :: rest) = .ok (value, rest) := by
  have hlow := BitVec.le_toInt value
  have hhigh := BitVec.toInt_lt (x := value)
  have hend : ∀ {sgn : Int}, sgn * value.toInt.natAbs = value.toInt →
      endInt sgn (value.toInt.natAbs, 'e' :: rest) = .ok (value, rest) := by
    intro sgn h
    rw [endInt, front_cons, if_pos rfl, h, BitVec.ofInt_toInt]
    rfl
  unfold writeInteger decodeInt
  by_cases hneg : value.toInt < 0
  · rw [if_pos hneg, List.cons_append, front_cons, if_pos rfl, List.tail_cons,
      decodeDigits_toDigits]
    · exact hend (by omega)
    · decide
    · omega
    · decide
  · rw [if_neg hneg, if_neg (front_ne_of_isDigit (isDigit_front_toDigits _ _) (by decide)),
      decodeDigits_toDigits]
    · exact hend (by omega)
    · decide
    · omega
    · decide

theorem decodeStr_encodeString {value : String} (h : value.toList.length ≤ maxSize)
    (rest : List Char) : decodeStr (encodeString value ++ rest) = .ok (value, rest) := by
  rw [encodeString, List.append_assoc, List.cons_append, decodeStr, decodeDigits_toDigits]
  · simp [bind, Except.bind, front, Nat.not_lt.mpr h]
    rfl
  · decide
  · exact h.trans (by decide)
  · decide

/-! ## The round trip -/

/-- What is left to do after a turn. -/
def resume (n : Nat) : (Bencode ⊕ List Open) × List Char → Except String (Bencode × List Char)
  | (.inl value, rest) => pure (value, rest)
  | (.inr state, rest) => decodeLoop n state rest

theorem decodeLoop_succ (n : Nat) (state : List Open) (input : List Char) :
    decodeLoop (n + 1) state input = turn state input >>= resume n := by
  rw [decodeLoop]
  refine bind_congr fun r => ?_
  obtain ⟨value | state, rest⟩ := r <;> rfl

/-- The first character of a value. It ends no list. -/
theorem front_encode (value : Bencode) (rest : List Char) :
    front (encode value ++ rest) ≠ 'e' ∧ encode value ++ rest ≠ [] := by
  cases value with
  | string value =>
    rw [encode]
    exact ⟨front_ne_of_isDigit (isDigit_front_encodeString _ _) (by decide), by simp [encodeString]⟩
  | _ =>
    rw [encode]
    exact ⟨by simp, by simp⟩

/-- Reading an encoded value comes to storing it, after one turn for each of the characters at
most. -/
def Reads (value : Bencode) : Prop :=
  ∀ state rest, checkKey state = .ok () → ∃ k < (encode value).length, ∀ n,
    readValue state (encode value ++ rest) >>= resume (n + k) = resume n (store value state, rest)

/-- The innermost open value changes, and the input is used up, in as many turns as it has
characters at most. -/
def Advances (input : List Char) (top top' : Open) : Prop :=
  ∀ state rest, ∃ k ≤ input.length, ∀ n,
    decodeLoop (n + k) (top :: state) (input ++ rest) = decodeLoop n (top' :: state) rest

variable {input more : List Char} {top mid top' : Open} {value : Bencode}

theorem Advances.refl (top : Open) : Advances [] top top :=
  fun _ _ => ⟨0, Nat.le_refl _, fun _ => rfl⟩

theorem Advances.trans (h : Advances input top mid) (h' : Advances more mid top') :
    Advances (input ++ more) top top' := by
  intro state rest
  obtain ⟨k, hk, hrun⟩ := h state (more ++ rest)
  obtain ⟨k', hk', hrun'⟩ := h' state rest
  refine ⟨k' + k, ?_, fun n => ?_⟩
  · rw [List.length_append]
    omega
  · rw [List.append_assoc, ← Nat.add_assoc, hrun, hrun']

/-- A turn reads an element; before the value of an entry it reads the key. -/
theorem Reads.advances (mid : Open) (h : Reads value)
    (hturn : ∀ state rest, turn (top :: state) (input ++ rest) =
      readValue (mid :: state) (encode value ++ rest))
    (hlength : (encode value).length ≤ input.length)
    (hkey : ∀ state, checkKey (mid :: state) = .ok ())
    (hstore : ∀ state, store value (mid :: state) = .inr (top' :: state)) :
    Advances input top top' := by
  intro state rest
  obtain ⟨k, hk, hrun⟩ := h (mid :: state) rest (hkey state)
  refine ⟨k + 1, by omega, fun n => ?_⟩
  rw [← Nat.add_assoc, decodeLoop_succ, hturn, hrun, hstore]
  rfl

theorem advances_list {values : List Bencode} (h : ∀ value ∈ values, Reads value)
    (done : List Bencode) :
    Advances (encodeList values) (.list done) (.list (done ++ values)) := by
  induction values generalizing done with
  | nil =>
    rw [List.append_nil]
    exact .refl _
  | cons value values ih =>
    have hvalue : Advances (encode value) (.list done) (.list (done ++ [value])) := by
      refine (h value List.mem_cons_self).advances (.list done) (fun state rest => ?_) le_rfl
        (fun _ => rfl) fun _ => rfl
      obtain ⟨hne, hnil⟩ := front_encode value rest
      rw [turn, if_neg hnil, if_neg hne]
      rfl
    rw [encodeList, ← List.singleton_append, ← List.append_assoc]
    exact hvalue.trans (ih (fun v hv => h v (List.mem_cons_of_mem _ hv)) _)

/-- A key that is greater than the others goes behind them. -/
theorem emplace_of_lt {key : String} {entries : List (String × Bencode)}
    (h : ∀ entry ∈ entries, entry.1 < key) (value : Bencode) :
    emplace key value entries = entries ++ [(key, value)] := by
  induction entries with
  | nil => rfl
  | cons entry entries ih =>
    rw [emplace, if_pos (h entry List.mem_cons_self), List.cons_append,
      ih fun entry hmem => h entry (List.mem_cons_of_mem _ hmem)]

theorem advances_entries {entries : List (String × Bencode)} (key : String)
    (done : List (String × Bencode))
    (hkeys : (done ++ entries).Pairwise (·.1 < ·.1))
    (hlengths : ∀ entry ∈ entries, entry.1.toList.length ≤ maxSize)
    (h : ∀ entry ∈ entries, Reads entry.2) :
    ∃ key', Advances (encodeEntries entries) (.dict key done) (.dict key' (done ++ entries)) := by
  induction entries generalizing done key with
  | nil =>
    rw [List.append_nil]
    exact ⟨key, .refl _⟩
  | cons entry entries ih =>
    obtain ⟨key', value⟩ := entry
    have hless : ∀ entry ∈ done, entry.1 < key' := fun entry hmem =>
      (List.pairwise_append.mp hkeys).2.2 entry hmem _ List.mem_cons_self
    have hentry : Advances (encodeString key' ++ encode value) (.dict key done)
        (.dict key' (done ++ [(key', value)])) := by
      refine (h _ List.mem_cons_self).advances (.dict key' done) (fun state rest => ?_)
        (by simp) (fun state => ?_) fun state => ?_
      · obtain ⟨_, hnil⟩ := front_encode value rest
        have hdigit := isDigit_front_encodeString key' (encode value ++ rest)
        rw [List.append_assoc, turn, if_neg (by simp [encodeString]),
          if_neg (front_ne_of_isDigit hdigit (by decide)), readKey, if_pos hdigit,
          decodeStr_encodeString (hlengths _ List.mem_cons_self)]
        change (if encode value ++ rest = [] then _ else _) >>= _ = _
        rw [if_neg hnil]
        rfl
      · rw [checkKey, if_neg]
        · rfl
        · intro hmem
          obtain ⟨entry, hentry, rfl⟩ := List.mem_map.mp hmem
          exact String.lt_irrefl _ (hless entry hentry)
      · rw [store, emplace_of_lt hless]
    rw [← List.singleton_append, ← List.append_assoc] at hkeys ⊢
    obtain ⟨key'', hrest⟩ := ih key' _ hkeys (fun e he => hlengths e (List.mem_cons_of_mem _ he))
      (fun e he => h e (List.mem_cons_of_mem _ he))
    exact ⟨key'', hentry.trans hrest⟩

/-- The end of a list or a dictionary. -/
theorem Advances.reads (h : Advances input top top') (hvalue : top'.value = value)
    (hencode : encode value = c :: input ++ ['e'])
    (hopen : ∀ state rest, checkKey state = .ok () →
      readValue state (c :: rest) = .ok (.inr (top :: state), rest)) : Reads value := by
  intro state rest hkey
  obtain ⟨k, hk, hrun⟩ := h state ('e' :: rest)
  refine ⟨k + 1, ?_, fun n => ?_⟩
  · rw [hencode, List.length_append, List.length_cons, List.length_singleton]
    omega
  · rw [hencode, List.append_assoc, List.cons_append, List.singleton_append, hopen _ _ hkey]
    change decodeLoop (n + (k + 1)) (top :: state) (input ++ 'e' :: rest) = _
    rw [Nat.add_comm k 1, ← Nat.add_assoc, hrun, decodeLoop_succ, ← hvalue]
    rfl

theorem reads_of_storable (h : Storable value) : Reads value := by
  induction h with
  | integer value =>
    intro state rest hkey
    refine ⟨0, by simp [encode], fun n => ?_⟩
    rw [encode, List.append_assoc, readValue, List.cons_append, front_cons, if_pos rfl,
      List.tail_cons, List.singleton_append, decodeInt_writeInteger]
    change (checkKey state >>= _) >>= _ = _
    rw [hkey]
    rfl
  | @string value hlength =>
    intro state rest hkey
    have hdigit := isDigit_front_encodeString value rest
    refine ⟨0, by simp [encode, encodeString], fun n => ?_⟩
    rw [encode, readValue, if_neg (front_ne_of_isDigit hdigit (by decide)),
      if_neg (front_ne_of_isDigit hdigit (by decide)),
      if_neg (front_ne_of_isDigit hdigit (by decide)), if_pos hdigit,
      decodeStr_encodeString hlength]
    change (checkKey state >>= _) >>= _ = _
    rw [hkey]
    rfl
  | list _ ih =>
    refine (advances_list ih []).reads rfl (by rw [encode]) fun state rest hkey => ?_
    change checkKey state >>= _ = _
    rw [hkey]
    rfl
  | dict hkeys hlengths _ ih =>
    obtain ⟨key, hentries⟩ := advances_entries "" [] hkeys hlengths ih
    refine hentries.reads rfl (by rw [encode]) fun state rest hkey => ?_
    change checkKey state >>= _ = _
    rw [hkey]
    rfl

theorem Reads.decode (h : Reads value) (rest : List Char) :
    decode (encode value ++ rest) = .ok (value, rest) := by
  obtain ⟨k, hk, hrun⟩ := h [] rest rfl
  obtain ⟨hne, hnil⟩ := front_encode value rest
  obtain ⟨n, hn⟩ : ∃ n, (encode value ++ rest).length = n + k + 1 :=
    ⟨(encode value ++ rest).length - k - 1, by rw [List.length_append]; omega⟩
  rw [Bencode.decode, hn, decodeLoop_succ, turn, if_neg hnil, if_neg hne]
  exact hrun n

/-- What was encoded is decoded to the value, whatever comes behind it. -/
theorem decode_encode (h : Storable value) (rest : List Char) :
    decode (encode value ++ rest) = .ok (value, rest) :=
  (reads_of_storable h).decode rest

theorem decode_encode_least : decode (encode (.list [.integer (BitVec.intMin 64)]) ++ ['e']) =
    .ok (.list [.integer (BitVec.intMin 64)], ['e']) :=
  decode_encode (.list fun _ h => List.mem_singleton.mp h ▸ .integer _) _

/-! ## Messages to the protocol server -/

/-- What `send_message` encodes, with the command `SPS_DATA`. -/
def dataMessage (packet : Packet) : Bencode :=
  .list [.integer 0#64, .string (String.ofList (packet.map fun byte => Char.ofNat byte.toNat))]

/-- Decode a number of messages, and what is left of the stream. -/
def decodeMessages : Nat → List Char → Except String (List Bencode × List Char)
  | 0, input => pure ([], input)
  | n + 1, input => do
    let (value, rest) ← decode input
    let (values, rest) ← decodeMessages n rest
    return (value :: values, rest)

theorem decodeMessages_encode {values : List Bencode} (h : ∀ value ∈ values, Storable value) :
    decodeMessages values.length (values.flatMap encode) = .ok (values, []) := by
  induction values with
  | nil => rfl
  | cons value values ih =>
    rw [List.length_cons, decodeMessages, List.flatMap_cons,
      (reads_of_storable (h value List.mem_cons_self)).decode]
    change decodeMessages _ _ >>= _ = _
    rw [ih fun v hv => h v (List.mem_cons_of_mem _ hv)]
    rfl

theorem storable_dataMessage {packet : Packet} (h : packet.length ≤ maxSize) :
    Storable (dataMessage packet) := by
  refine .list fun value hvalue => ?_
  rw [List.mem_pair] at hvalue
  obtain rfl | rfl := hvalue
  · exact .integer _
  · exact .string (by simpa using h)

/-- Packets that the guest encodes and writes to `txdata` are the messages that are decoded from
what `send_message` writes to the socket for them, and nothing is left behind them. -/
theorem messages_of_txdata {packets : List Packet} {sendMessage : Packet → Option String}
    (hpackets : ∀ p ∈ packets, p ≠ [] ∧ Unambiguous p)
    (hlengths : ∀ p ∈ packets, p.length ≤ maxSize) (hsend : ∀ p, sendMessage p = none)
    {nvs : List (BitVec 32)} (hnvs : nvs.map (·.setWidth 8) = packets.flatMap encoded) :
    ∃ t, nvs.forM (SymbolicUart.txdataWritten sendMessage) default = .ok () t ∧
      decodeMessages packets.length ((t.messages.map dataMessage).flatMap encode) =
        .ok (packets.map dataMessage, []) := by
  obtain ⟨t, ht, -, hmessages⟩ :=
    SymbolicUart.txdataWritten_stream hpackets hsend (u := default) rfl hnvs
  have hstorable : ∀ value ∈ packets.map dataMessage, Storable value := by
    intro value hvalue
    obtain ⟨p, hp, rfl⟩ := List.mem_map.mp hvalue
    exact storable_dataMessage (hlengths p hp)
  refine ⟨t, ht, ?_⟩
  rw [hmessages, ← List.length_map dataMessage]
  exact decodeMessages_encode hstorable

/-- A packet with an `END` in it. -/
theorem messages_of_txdata_end : ∃ t, [0xdb#32, 0xdc#32, 0xc0#32].forM
    (SymbolicUart.txdataWritten fun _ => none) default = .ok () t ∧
      decodeMessages 1 ((t.messages.map dataMessage).flatMap encode) =
        .ok ([dataMessage [SLIP_END]], []) :=
  have hpackets : ∀ p ∈ [[SLIP_END]], p ≠ [] ∧ Unambiguous p := by decide
  messages_of_txdata hpackets (by decide) (fun _ => rfl) (by decide)

end SpsVp.Symex.Bencode
