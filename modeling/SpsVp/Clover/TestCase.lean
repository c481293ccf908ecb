import SpsVp.Clover.Context
import SpsVp.Lib.Pattern

/-!
# Test cases

`clover::TestCase` of `symex/clover/testcase.cpp`. The store of a run is written to a file with a
line for every variable: its name, the type and the value, separated by tabs. The file is read back
line by line with a regular expression, whose first group is the name. It takes the longest name,
and so a tab in a name does no harm; but the group cannot span a line break, which ends a line or
makes the search start behind it. `fromFile_toFile_iff` says that this is the only way in which a
store changes.

A text is a list of characters, and a character is one of a `std::string`.
-/

namespace SpsVp.Clover

open Lib

namespace TestCase

/-- `ConcreteStore` as it is iterated over: every name occurs once. -/
structure Entries where
  entries : List (String × IntValue)
  nodup : (entries.map Prod.fst).Nodup

/-- The store of the entries. -/
def Entries.store (e : Entries) : ConcreteStore := fun name => e.entries.lookup name

/-! ## Output -/

/-- The name of a type in the file. -/
def typeName : IntType → List Char
  | .uint8 => ['u', 'i', 'n', 't', '8', '_', 't']
  | .uint32 => ['u', 'i', 'n', 't', '3', '2', '_', 't']

/-- The type and the number of a value. -/
def typed : IntValue → IntType × Nat
  | .uint8 value => (.uint8, value.toNat)
  | .uint32 value => (.uint32, value.toNat)

/-- What follows the name of a variable. -/
def valueText (value : IntValue) : List Char :=
  '\t' :: typeName (typed value).1 ++ '\t' :: Nat.toDigits 10 (typed value).2

/-- The line of a variable. -/
def line (entry : String × IntValue) : List Char := entry.1.toList ++ valueText entry.2

def toFile (store : Entries) : List Char := store.entries.flatMap fun entry => line entry ++ ['\n']

/-! ## Input -/

/-- The class `.` of a regular expression. -/
def anyChar (c : Char) : Bool := c != '\n' && c != '\r'

/-- The group `(uint8_t|uint32_t)`. -/
def typePattern : Pattern Char (List Char) :=
  .alt (.seq (.literal (typeName .uint8)) fun _ => .give (typeName .uint8))
    (.seq (.literal (typeName .uint32)) fun _ => .give (typeName .uint32))

/-- The regular expression after the group of the name. -/
def valuePattern (name : List Char) : Pattern Char (List Char × List Char × List Char) :=
  .seq (.literal ['\t']) fun _ => .seq typePattern fun type => .seq (.literal ['\t']) fun _ =>
    .seq (.plus Char.isDigit) fun digits => .give (name, type, digits)

/-- The regular expression `(..*)	(uint8_t|uint32_t)	([0-9][0-9]*)`. -/
def assignPattern : Pattern Char (List Char × List Char × List Char) :=
  .seq (.plus anyChar) valuePattern

def parseAssignType (type : List Char) : Option IntType :=
  if type = typeName .uint8 then some .uint8
  else if type = typeName .uint32 then some .uint32
  else none

/-- `sscanf` of some digits, with the largest `unsigned long` for a number that is too large. -/
def scanUnsigned (digits : List Char) : Nat := min (Nat.ofDigitChars 10 digits 0) (2 ^ 64 - 1)

/-- `parseIntVal`, of the digits that were matched. -/
def parseIntVal (type : IntType) (digits : List Char) : IntValue :=
  .mk type (BitVec.ofNat type.width (scanUnsigned digits))

def parseAssign (assign : List Char) : Option (String × IntValue) := do
  let (name, type, digits) ← assignPattern.search assign
  let type ← parseAssignType type
  return (String.ofList name, parseIntVal type digits)

structure ParserError where
  fileName : String
  line : Nat
  msg : String
deriving DecidableEq

/-- The lines that `std::getline` returns. -/
def getLines : List Char → List (List Char)
  | [] => []
  | c :: text =>
    if c = '\n' then [] :: getLines text
    else match getLines text with
      | [] => [[c]]
      | line :: lines => (c :: line) :: lines

/-- The loop of `fromFile`. -/
def readLines (name : String) :
    Nat → List (List Char) → ConcreteStore → Except ParserError ConcreteStore
  | _, [], assigns => .ok assigns
  | lineNum, line :: lines, assigns =>
    match parseAssign line with
    | none => .error ⟨name, lineNum, "invalid assignment"⟩
    | some (var, value) =>
      readLines name (lineNum + 1) lines (Function.update assigns var (some value))

def fromFile (name : String) (stream : List Char) : Except ParserError ConcreteStore :=
  readLines name 1 (getLines stream) fun _ => none

/-! ## Names -/

/-- A name that the group of the name can match. -/
def Readable (name : String) : Prop := name.toList ≠ [] ∧ ∀ c ∈ name.toList, anyChar c = true

instance (name : String) : Decidable (Readable name) :=
  decidable_of_iff (name.toList ≠ [] ∧ name.toList.all anyChar = true)
    (and_congr_right fun _ => List.all_eq_true)

theorem readable_of_parseAssign {text : List Char} {name : String} {value : IntValue}
    (h : parseAssign text = some (name, value)) : Readable name := by
  obtain ⟨⟨cs, type, digits⟩, hsearch, h⟩ := Option.bind_eq_some_iff.mp h
  obtain ⟨T, _, h⟩ := Option.bind_eq_some_iff.mp h
  cases h
  obtain ⟨s, rest, hmem⟩ := Pattern.of_search hsearch
  obtain ⟨cs', s', hplus, hvalue⟩ := Pattern.mem_seq.mp hmem
  obtain ⟨_, hne, hall⟩ := Pattern.of_mem_plus hplus
  -- the name is what the first group has captured
  obtain ⟨_, _, _, hvalue⟩ := Pattern.mem_seq.mp hvalue
  obtain ⟨_, _, _, hvalue⟩ := Pattern.mem_seq.mp hvalue
  obtain ⟨_, _, _, hvalue⟩ := Pattern.mem_seq.mp hvalue
  obtain ⟨_, _, _, hvalue⟩ := Pattern.mem_seq.mp hvalue
  cases List.mem_singleton.mp hvalue
  exact ⟨by rwa [String.toList_ofList], by rwa [String.toList_ofList]⟩

/-- Every name that is read is readable. -/
theorem readable_of_readLines {file : String} {lines : List (List Char)} {lineNum : Nat}
    {assigns store : ConcreteStore} (h : readLines file lineNum lines assigns = .ok store)
    (hassigns : ∀ name, assigns name ≠ none → Readable name) (name : String)
    (hname : store name ≠ none) : Readable name := by
  induction lines generalizing lineNum assigns with
  | nil =>
    cases h
    exact hassigns name hname
  | cons line lines ih =>
    rw [readLines] at h
    cases hparse : parseAssign line with
    | none =>
      rw [hparse] at h
      cases h
    | some assign =>
      obtain ⟨var, value⟩ := assign
      rw [hparse] at h
      refine ih h fun name' hname' => ?_
      by_cases heq : name' = var
      · exact heq ▸ readable_of_parseAssign hparse
      · rw [Function.update_of_ne heq] at hname'
        exact hassigns name' hname'

/-! ## Lines -/

/-- The only line break of a line is the one that ends it. -/
theorem getLines_append {text : List Char} (h : '\n' ∉ text) (rest : List Char) :
    getLines (text ++ '\n' :: rest) = text :: getLines rest := by
  induction text with
  | nil => rw [List.nil_append, getLines, if_pos rfl]
  | cons c text ih =>
    rw [List.mem_cons, not_or] at h
    rw [List.cons_append, getLines, if_neg (Ne.symm h.1), ih h.2]

theorem isDigit_of_mem {n : Nat} {c : Char} (h : c ∈ Nat.toDigits 10 n) : c.isDigit = true :=
  Nat.isDigit_of_mem_toDigits (by decide) (by decide) h

theorem notMem_valueText (value : IntValue) : '\n' ∉ valueText value := by
  have hdigits : '\n' ∉ Nat.toDigits 10 (typed value).2 := fun h =>
    absurd (isDigit_of_mem h) (by decide)
  have htype : ∀ T, '\n' ∉ typeName T := by
    intro T
    cases T <;> decide
  simp only [valueText, List.cons_append, List.mem_cons, List.mem_append, not_or]
  exact ⟨by decide, htype _, by decide, hdigits⟩

variable {entry : String × IntValue} {entries : List (String × IntValue)}

theorem notMem_line (h : Readable entry.1) : '\n' ∉ line entry := by
  rw [line, List.mem_append, not_or]
  exact ⟨fun hmem => absurd (h.2 _ hmem) (by decide), notMem_valueText _⟩

theorem getLines_toFile {store : Entries} (h : ∀ entry ∈ store.entries, Readable entry.1) :
    getLines (toFile store) = store.entries.map line := by
  rw [toFile]
  generalize store.entries = entries at h
  induction entries with
  | nil => rfl
  | cons entry entries ih =>
    rw [List.flatMap_cons, List.append_assoc, List.singleton_append,
      getLines_append (notMem_line (h entry List.mem_cons_self)),
      ih fun e he => h e (List.mem_cons_of_mem _ he), List.map_cons]

/-! ## A line is read back -/

/-- The last tab of a text with two of them. -/
theorem eq_of_append_cons {c : Char} {l digits more s : List Char} (hl : c ∉ l)
    (hdigits : c ∉ digits) (h : l ++ c :: digits = more ++ c :: s) : s = digits := by
  induction l generalizing more with
  | nil =>
    cases more with
    | nil => exact (List.cons.inj h).2.symm
    | cons d more =>
      refine absurd ?_ hdigits
      rw [(List.cons.inj h).2]
      exact List.mem_append_right _ List.mem_cons_self
  | cons d l ih =>
    rw [List.mem_cons, not_or] at hl
    cases more with
    | nil => exact absurd (List.cons.inj h).1.symm hl.1
    | cons e more => exact ih hl.2 (List.cons.inj h).2

theorem literal_tab (rest : List Char) : Pattern.literal ['\t'] ('\t' :: rest) = [((), rest)] :=
  Pattern.literal_append ['\t'] rest

theorem typePattern_append (T : IntType) (rest : List Char) :
    typePattern (typeName T ++ rest) = [(typeName T, rest)] := by
  cases T <;> rfl

/-- No type starts with a digit. -/
theorem typePattern_of_digits {digits : List Char} (h : ∀ c ∈ digits, c.isDigit = true) :
    typePattern digits = [] := by
  cases digits with
  | nil => rfl
  | cons c digits =>
    have hc : c ≠ 'u' := by
      rintro rfl
      exact absurd (h _ List.mem_cons_self) (by decide)
    have hliteral : ∀ T, Pattern.literal (typeName T) (c :: digits) = [] := by
      intro T
      cases T <;> exact Pattern.literal_cons_of_ne hc _ _
    rw [typePattern, Pattern.alt, Pattern.seq, Pattern.seq, hliteral, hliteral]
    rfl

/-- The text after a name matches the rest of the regular expression. -/
theorem head?_valuePattern (name : List Char) (value : IntValue) :
    (valuePattern name (valueText value)).head? =
      some ((name, typeName (typed value).1, Nat.toDigits 10 (typed value).2), []) := by
  rw [valuePattern, valueText, List.cons_append, Pattern.seq_of_eq (literal_tab _),
    Pattern.seq_of_eq (typePattern_append _ _), Pattern.seq_of_eq (literal_tab _)]
  rw [← List.append_nil (Nat.toDigits 10 (typed value).2)]
  refine Pattern.head?_plus_seq Nat.toDigits_ne_nil (fun c => isDigit_of_mem) ?_ ?_
  · rw [List.append_nil]
    rfl
  · intro more rest hnil hne
    exact absurd (List.append_eq_nil_iff.mp hnil.symm).1 hne

/-- No part of that text after its first character does. -/
theorem valuePattern_of_suffix {name more rest : List Char} {value : IntValue}
    (h : valueText value = more ++ rest) (hne : more ≠ []) : valuePattern name rest = [] := by
  cases more with
  | nil => exact absurd rfl hne
  | cons d more =>
    have htail :
        typeName (typed value).1 ++ '\t' :: Nat.toDigits 10 (typed value).2 = more ++ rest :=
      (List.cons.inj h).2
    cases rest with
    | nil => rfl
    | cons c rest =>
      by_cases hc : c = '\t'
      · subst hc
        have htype : ∀ T, '\t' ∉ typeName T := by
          intro T
          cases T <;> decide
        have hrest : rest = Nat.toDigits 10 (typed value).2 :=
          eq_of_append_cons (htype _) (fun hmem => absurd (isDigit_of_mem hmem) (by decide)) htail
        rw [valuePattern, Pattern.seq_of_eq (literal_tab rest), Pattern.seq,
          typePattern_of_digits fun c hmem => isDigit_of_mem (hrest ▸ hmem)]
        rfl
      · rw [valuePattern, Pattern.seq, Pattern.literal_cons_of_ne hc]
        rfl

theorem scanUnsigned_toDigits {n : Nat} (h : n < 2 ^ 64) :
    scanUnsigned (Nat.toDigits 10 n) = n := by
  rw [scanUnsigned, Nat.ofDigitChars_toDigits (by decide) (by decide)]
  omega

theorem parseIntVal_typed (value : IntValue) :
    parseIntVal (typed value).1 (Nat.toDigits 10 (typed value).2) = value := by
  cases value with
  | uint8 value =>
    have hlt := value.isLt
    rw [parseIntVal, typed, scanUnsigned_toDigits (by omega)]
    exact congrArg IntValue.uint8 (BitVec.ofNat_toNat 8 value |>.trans (BitVec.setWidth_eq _))
  | uint32 value =>
    have hlt := value.isLt
    rw [parseIntVal, typed, scanUnsigned_toDigits (by omega)]
    exact congrArg IntValue.uint32 (BitVec.ofNat_toNat 32 value |>.trans (BitVec.setWidth_eq _))

theorem parseAssign_line (h : Readable entry.1) :
    parseAssign (line entry) = some entry := by
  have hsearch := Pattern.search_of_head? (Pattern.head?_plus_seq h.1 h.2
    (head?_valuePattern entry.1.toList entry.2) fun more rest hrest hne _ =>
      valuePattern_of_suffix hrest hne)
  have htype : ∀ T, parseAssignType (typeName T) = some T := by
    intro T
    cases T <;> rfl
  rw [parseAssign, line, assignPattern, hsearch]
  change (parseAssignType (typeName (typed entry.2).1)).bind _ = _
  rw [htype, Option.bind_some, parseIntVal_typed, String.ofList_toList]
  rfl

/-! ## A store is read back -/

theorem readLines_map_line
    (hnodup : (entries.map Prod.fst).Nodup) (h : ∀ entry ∈ entries, Readable entry.1)
    (file : String) (lineNum : Nat) (assigns : ConcreteStore) :
    readLines file lineNum (entries.map line) assigns =
      .ok fun name => (entries.lookup name).or (assigns name) := by
  induction entries generalizing lineNum assigns with
  | nil => rfl
  | cons entry entries ih =>
    obtain ⟨var, value⟩ := entry
    rw [List.map_cons, List.nodup_cons] at hnodup
    rw [List.map_cons, readLines, parseAssign_line (h _ List.mem_cons_self)]
    dsimp only
    rw [ih hnodup.2 fun e he => h e (List.mem_cons_of_mem _ he)]
    congr 1
    funext name
    rw [List.lookup_cons]
    by_cases heq : name = var
    · subst heq
      have hnone : entries.lookup name = none := by
        rw [List.lookup_eq_none_iff]
        intro e he
        rw [bne_iff_ne]
        intro hname
        exact hnodup.1 (List.mem_map.mpr ⟨e, he, hname.symm⟩)
      rw [hnone, Function.update_self, beq_self_eq_true]
      rfl
    · rw [Function.update_of_ne heq, beq_false_of_ne heq]

theorem lookup_ne_none
    (h : entry ∈ entries) : entries.lookup entry.1 ≠ none := by
  rw [ne_eq, List.lookup_eq_none_iff]
  intro hnone
  simpa using hnone entry h

/-- A store is read back just if its names can be. -/
theorem fromFile_toFile_iff (file : String) (store : Entries) :
    fromFile file (toFile store) = .ok store.store ↔ ∀ entry ∈ store.entries, Readable entry.1 := by
  constructor
  · intro h entry hentry
    exact readable_of_readLines h (fun _ hnone => absurd rfl hnone) entry.1 (lookup_ne_none hentry)
  · intro h
    rw [fromFile, getLines_toFile h, readLines_map_line store.nodup h]
    congr 1
    funext name
    rw [Option.or_none, Entries.store]

end TestCase

end SpsVp.Clover
