import SpsVp.Gdb.Packet

/-!
# Run-length encoding and escapes of the GDB stub

`gdb_decode_runlen` and `gdb_unescape` of `libgdb`, which undo what the other side does: special
characters are escaped, and then any run of a character is replaced by the character, a `*` and a
character that stands for the number of further repetitions. The decoder takes every `*` for the
beginning of such a pair, also one that is itself the number, 13. `decodes_iff` says that all other
encodings are undone.
-/

namespace SpsVp.Gdb

open Lib

/-! ## The decoder -/

/-- There is no result, or an assertion fails. -/
inductive RunlenError where
  | null | assertion
deriving DecidableEq

/-- The loop of `gdb_decode_runlen`, with the character before the next one and with `runlen`. -/
def decodeRunlen (ndebug : Bool) : Option Byte → Int → List Byte → Except RunlenError (List Byte)
  | _, _, [] => .ok []
  | previous, runlen, c :: cs =>
    if c = chr '*' then
      match previous with
      | none => .error .null
      | some p => decodeRunlen ndebug (some c) p.toInt cs
    else if runlen = -1 then
      if ndebug = true ∨ 0 ≤ c.toInt then
        (decodeRunlen ndebug (some c) (-1) cs).map fun rest => c :: rest
      else .error .assertion
    else
      let rcount := c.toInt - 29
      if rcount ≤ 0 then .error .null
      else if ndebug = true ∨ (0 ≤ runlen ∧ runlen ≤ 127) then
        (decodeRunlen ndebug (some c) (-1) cs).map fun rest =>
          List.replicate rcount.toNat (BitVec.ofInt 8 runlen) ++ rest
      else .error .assertion

def gdbDecodeRunlen (ndebug : Bool) (data : List Byte) : Except RunlenError (List Byte) :=
  decodeRunlen ndebug none (-1) data

/-- The loop of `gdb_unescape`. -/
def unescape : Bool → List Byte → List Byte
  | _, [] => []
  | esc, c :: cs =>
    if c = chr '}' then unescape true cs
    else (if esc then c ^^^ 0x20#8 else c) :: unescape false cs

def gdbUnescape (data : List Byte) : List Byte := unescape false data

/-! ## Encodings -/

/-- The characters that are escaped. -/
def Special (c : Byte) : Prop := c = chr '#' ∨ c = chr '$' ∨ c = chr '}' ∨ c = chr '*'

instance (c : Byte) : Decidable (Special c) := inferInstanceAs (Decidable (_ ∨ _))

def escape (data : List Byte) : List Byte :=
  data.flatMap fun c => if Special c then [chr '}', c ^^^ 0x20#8] else [c]

/-- A character that stands for a number of repetitions: it is printable, and neither `#` nor
`$`. -/
abbrev Count := { k : Byte // 32 ≤ k.toNat ∧ k.toNat ≤ 126 ∧ k ≠ chr '#' ∧ k ≠ chr '$' }

/-- A character, or a run of one. -/
inductive Item where
  | char (c : Byte)
  | run (c : Byte) (count : Count)

namespace Item

/-- The characters that an item stands for. -/
def expand : Item → List Byte
  | char c => [c]
  | run c count => c :: List.replicate (count.val.toNat - 29) c

/-- The characters that are sent for an item. -/
def text : Item → List Byte
  | char c => [c]
  | run c count => [c, chr '*', count.val]

/-- The number of repetitions is not written as a `*`. -/
def Unambiguous : Item → Prop
  | char _ => True
  | run _ count => count.val ≠ chr '*'

instance : (item : Item) → Decidable item.Unambiguous
  | char _ => inferInstanceAs (Decidable True)
  | run _ count => inferInstanceAs (Decidable (count.val ≠ chr '*'))

end Item

/-- A string of 7-bit characters. -/
def SevenBit (data : List Byte) : Prop := ∀ c ∈ data, c ≠ 0#8 ∧ c.toNat < 128

instance (data : List Byte) : Decidable (SevenBit data) :=
  inferInstanceAs (Decidable (∀ c ∈ data, _))

/-- The items are an encoding of the data. -/
def Encoding (items : List Item) (data : List Byte) : Prop :=
  items.flatMap Item.expand = escape data

/-- The encoding is undone. -/
def Decodes (ndebug : Bool) (items : List Item) (data : List Byte) : Prop :=
  ∃ decoded, gdbDecodeRunlen ndebug (items.flatMap Item.text) = .ok decoded ∧
    gdbUnescape decoded = data

/-! ## Escapes -/

variable {ndebug : Bool} {data : List Byte} {items : List Item}

variable {c : Byte}

theorem special_xor (h : Special c) :
    c ^^^ 0x20#8 ≠ chr '}' ∧ c ^^^ 0x20#8 ≠ chr '*' ∧ (c ^^^ 0x20#8).toNat < 128 ∧
      c ^^^ 0x20#8 ^^^ 0x20#8 = c := by
  obtain rfl | rfl | rfl | rfl := h <;> decide

theorem escape_cons (c : Byte) (data : List Byte) :
    escape (c :: data) = (if Special c then [chr '}', c ^^^ 0x20#8] else [c]) ++ escape data :=
  List.flatMap_cons

theorem unescape_of_ne (h : c ≠ chr '}') (esc : Bool) (cs : List Byte) :
    unescape esc (c :: cs) = (if esc then c ^^^ 0x20#8 else c) :: unescape false cs := by
  rw [unescape, if_neg h]

theorem unescape_escape (data : List Byte) : unescape false (escape data) = data := by
  induction data with
  | nil => rfl
  | cons c data ih =>
    rw [escape_cons]
    by_cases h : Special c
    · obtain ⟨hne, -, -, hxor⟩ := special_xor h
      rw [if_pos h, List.cons_append, unescape, if_pos rfl, List.cons_append, List.nil_append,
        unescape_of_ne hne, ih, if_pos rfl, hxor]
    · have hne : c ≠ chr '}' := fun hc => h (.inr (.inr (.inl hc)))
      rw [if_neg h, List.cons_append, List.nil_append, unescape_of_ne hne, ih,
        if_neg Bool.false_ne_true]

/-- What is read after a character that is no escape does not depend on what was before. -/
theorem unescape_append (esc : Bool) (front : List Byte) (hc : c ≠ chr '}')
    (cs : List Byte) :
    unescape esc (front ++ c :: cs) = unescape esc (front ++ [c]) ++ unescape false cs := by
  induction front generalizing esc with
  | nil => rw [List.nil_append, List.nil_append, unescape_of_ne hc, unescape_of_ne hc]; rfl
  | cons d front ih =>
    rw [List.cons_append, List.cons_append, unescape, unescape]
    by_cases hd : d = chr '}'
    · rw [if_pos hd, if_pos hd, ih]
    · rw [if_neg hd, if_neg hd, ih, List.cons_append]

/-- Escaped data has no `*`. -/
theorem of_mem_escape (hdata : SevenBit data) (h : c ∈ escape data) :
    c ≠ chr '*' ∧ c.toNat < 128 := by
  obtain ⟨d, hd, hc⟩ := List.mem_flatMap.mp h
  by_cases hspecial : Special d
  · obtain ⟨-, hstar, hlt, -⟩ := special_xor hspecial
    rw [if_pos hspecial] at hc
    obtain rfl | hc := List.mem_cons.mp hc
    · decide
    · rw [List.mem_singleton.mp hc]
      exact ⟨hstar, hlt⟩
  · rw [if_neg hspecial] at hc
    rw [List.mem_singleton.mp hc]
    exact ⟨fun hstar => hspecial (.inr (.inr (.inr hstar))), (hdata d hd).2⟩

/-- Two escapes never follow each other. -/
theorem escape_ne (data front back : List Byte) :
    escape data ≠ front ++ chr '}' :: chr '}' :: back := by
  induction data generalizing front with
  | nil =>
    intro h
    cases front <;> cases h
  | cons c data ih =>
    intro h
    rw [escape_cons] at h
    by_cases hc : Special c
    · have hne := (special_xor hc).1
      rw [if_pos hc, List.cons_append, List.cons_append, List.nil_append] at h
      match front with
      | [] => exact hne (List.cons.inj (List.cons.inj h).2).1
      | [_] => exact hne (List.cons.inj (List.cons.inj h).2).1
      | _ :: _ :: front => exact ih front (List.cons.inj (List.cons.inj h).2).2
    · rw [if_neg hc, List.cons_append, List.nil_append] at h
      match front with
      | [] => exact hc (.inr (.inr (.inl (List.cons.inj h).1)))
      | _ :: front => exact ih front (List.cons.inj h).2

/-! ## Runs -/

theorem toInt_of_lt (h : c.toNat < 128) : c.toInt = c.toNat :=
  BitVec.toInt_eq_toNat_of_lt (by omega)

theorem decodeRunlen_of_ne (previous : Option Byte) (runlen : Int) (hc : c ≠ chr '*')
    (cs : List Byte) :
    decodeRunlen ndebug previous runlen (c :: cs) =
      if runlen = -1 then
        if ndebug = true ∨ 0 ≤ c.toInt then
          (decodeRunlen ndebug (some c) (-1) cs).map fun rest => c :: rest
        else .error .assertion
      else if c.toInt - 29 ≤ 0 then .error .null
      else if ndebug = true ∨ (0 ≤ runlen ∧ runlen ≤ 127) then
        (decodeRunlen ndebug (some c) (-1) cs).map fun rest =>
          List.replicate (c.toInt - 29).toNat (BitVec.ofInt 8 runlen) ++ rest
      else .error .assertion := by
  cases previous with
  | none | some => rw [decodeRunlen, if_neg hc]

theorem decodeRunlen_char (previous : Option Byte) (hc : c ≠ chr '*')
    (hlt : c.toNat < 128) (cs : List Byte) :
    decodeRunlen ndebug previous (-1) (c :: cs) =
      (decodeRunlen ndebug (some c) (-1) cs).map fun rest => c :: rest := by
  have hpos : ndebug = true ∨ 0 ≤ c.toInt := .inr (by rw [toInt_of_lt hlt]; omega)
  rw [decodeRunlen_of_ne previous _ hc, if_pos rfl, if_pos hpos]

theorem decodeRunlen_star (p : Byte) (runlen : Int) (cs : List Byte) :
    decodeRunlen ndebug (some p) runlen (chr '*' :: cs) =
      decodeRunlen ndebug (some (chr '*')) p.toInt cs := by
  rw [decodeRunlen, if_pos rfl]

/-- A number of repetitions. -/
theorem decodeRunlen_count (previous : Option Byte) {k : Byte} (hc : c.toNat < 128)
    (hk : k ≠ chr '*') (hlt : k.toNat < 128) (hge : 30 ≤ k.toNat) (cs : List Byte) :
    decodeRunlen ndebug previous c.toInt (k :: cs) =
      (decodeRunlen ndebug (some k) (-1) cs).map fun rest =>
        List.replicate (k.toNat - 29) c ++ rest := by
  have hcount : (k.toInt - 29).toNat = k.toNat - 29 := by
    rw [toInt_of_lt hlt]
    omega
  have hrange : ndebug = true ∨ (0 ≤ c.toInt ∧ c.toInt ≤ 127) := .inr (by
    rw [toInt_of_lt hc]
    omega)
  have hne : ¬ c.toInt = -1 := by
    rw [toInt_of_lt hc]
    omega
  have hpos : ¬ k.toInt - 29 ≤ 0 := by
    rw [toInt_of_lt hlt]
    omega
  rw [decodeRunlen_of_ne previous _ hk, if_neg hne, if_neg hpos, if_pos hrange, hcount,
    BitVec.ofInt_toInt]

/-- The characters of an item are characters of what it stands for. -/
theorem Item.head_mem_expand {item : Item} {cs : List Byte} (h : item.text = c :: cs) :
    c ∈ item.expand := by
  cases item with
  | char | run =>
    cases h
    exact List.mem_cons_self

/-- An item is undone, whatever follows it. -/
theorem decodeRunlen_text (ndebug : Bool) (item : Item) (hunambiguous : item.Unambiguous)
    (hplain : ∀ c ∈ item.expand, c ≠ chr '*' ∧ c.toNat < 128) (previous : Option Byte) :
    ∃ previous', ∀ cs, decodeRunlen ndebug previous (-1) (item.text ++ cs) =
      (decodeRunlen ndebug previous' (-1) cs).map fun rest => item.expand ++ rest := by
  cases item with
  | char c =>
    obtain ⟨hstar, hlt⟩ := hplain c List.mem_cons_self
    exact ⟨some c, fun cs => decodeRunlen_char previous hstar hlt cs⟩
  | run c count =>
    obtain ⟨hstar, hlt⟩ := hplain c List.mem_cons_self
    obtain ⟨hge, hle, -, -⟩ := count.property
    refine ⟨some count.val, fun cs => ?_⟩
    change decodeRunlen ndebug previous (-1) (c :: chr '*' :: count.val :: cs) = _
    rw [decodeRunlen_char previous hstar hlt, decodeRunlen_star,
      decodeRunlen_count _ hlt hunambiguous (by omega) (by omega)]
    cases decodeRunlen ndebug (some count.val) (-1) cs with
    | error | ok => rfl

/-- So is a list of items. -/
theorem decodeRunlen_items (ndebug : Bool) (items : List Item)
    (hunambiguous : ∀ item ∈ items, item.Unambiguous)
    (hplain : ∀ c ∈ items.flatMap Item.expand, c ≠ chr '*' ∧ c.toNat < 128)
    (previous : Option Byte) :
    ∃ previous', ∀ cs, decodeRunlen ndebug previous (-1) (items.flatMap Item.text ++ cs) =
      (decodeRunlen ndebug previous' (-1) cs).map fun rest =>
        items.flatMap Item.expand ++ rest := by
  induction items generalizing previous with
  | nil =>
    refine ⟨previous, fun cs => ?_⟩
    change decodeRunlen ndebug previous (-1) cs = (decodeRunlen ndebug previous (-1) cs).map id
    cases decodeRunlen ndebug previous (-1) cs with
    | error | ok => rfl
  | cons item items ih =>
    rw [List.flatMap_cons] at hplain
    obtain ⟨middle, hitem⟩ := decodeRunlen_text ndebug item
      (hunambiguous item List.mem_cons_self) (fun c hc => hplain c (List.mem_append_left _ hc))
      previous
    obtain ⟨previous', hitems⟩ := ih (fun i hi => hunambiguous i (List.mem_cons_of_mem _ hi))
      (fun c hc => hplain c (List.mem_append_right _ hc)) middle
    refine ⟨previous', fun cs => ?_⟩
    rw [List.flatMap_cons, List.flatMap_cons, List.append_assoc, hitem, hitems]
    cases decodeRunlen ndebug previous' (-1) cs with
    | error e => rfl
    | ok rest => exact congrArg Except.ok (List.append_assoc _ _ _).symm

/-- After two `*`, the run is one of `*`, if there is one at all. -/
theorem decodeRunlen_star_ok
    (hplain : ∀ c ∈ items.flatMap Item.expand, c ≠ chr '*' ∧ c.toNat < 128) {decoded : List Byte}
    (h : decodeRunlen ndebug (some (chr '*')) (chr '*').toInt (items.flatMap Item.text) =
      .ok decoded) :
    decoded = [] ∨ ∃ rest, decoded = chr '*' :: rest := by
  cases items with
  | nil =>
    cases h
    exact .inl rfl
  | cons item items =>
    right
    obtain ⟨c, cs, htext⟩ : ∃ c cs, item.text = c :: cs := by
      cases item with
      | char c => exact ⟨c, [], rfl⟩
      | run c count => exact ⟨c, _, rfl⟩
    obtain ⟨hstar, hlt⟩ := hplain c
      (List.mem_flatMap.mpr ⟨item, List.mem_cons_self, Item.head_mem_expand htext⟩)
    rw [List.flatMap_cons, htext, List.cons_append] at h
    by_cases hge : 30 ≤ c.toNat
    · rw [decodeRunlen_count _ (by decide) hstar hlt hge] at h
      obtain ⟨k, hk⟩ : ∃ k, c.toNat - 29 = k + 1 := ⟨c.toNat - 30, by omega⟩
      rw [hk, List.replicate_succ] at h
      cases hrest : decodeRunlen ndebug (some c) (-1) (cs ++ items.flatMap Item.text) with
      | error e =>
        rw [hrest] at h
        cases h
      | ok rest =>
        rw [hrest] at h
        cases h
        exact ⟨_, rfl⟩
    · have hle : c.toInt - 29 ≤ 0 := by
        rw [toInt_of_lt hlt]
        omega
      rw [decodeRunlen_of_ne _ _ hstar, if_neg (by decide), if_pos hle] at h
      cases h

/-- The first item whose number of repetitions is written as a `*`. -/
theorem exists_ambiguous (items : List Item) (h : ¬ ∀ item ∈ items, item.Unambiguous) :
    ∃ front c count back, items = front ++ Item.run c count :: back ∧ count.val = chr '*' ∧
      ∀ item ∈ front, item.Unambiguous := by
  induction items with
  | nil => exact absurd (fun _ hitem => absurd hitem List.not_mem_nil) h
  | cons item items ih =>
    by_cases hitem : item.Unambiguous
    · obtain ⟨front, c, count, back, rfl, hcount, hfront⟩ := ih fun hitems =>
        h (List.forall_mem_cons.mpr ⟨hitem, hitems⟩)
      exact ⟨item :: front, c, count, back, rfl, hcount, List.forall_mem_cons.mpr ⟨hitem, hfront⟩⟩
    · cases item with
      | char c => exact absurd trivial hitem
      | run c count =>
        exact ⟨[], c, count, items, rfl, not_not.mp hitem, fun _ hi =>
          absurd hi List.not_mem_nil⟩

/-- An encoding in which a `*` is a number is not undone. -/
theorem not_decodes (hdata : SevenBit data) {front back : List Item} {count : Count}
    (hcount : count.val = chr '*') (hfront : ∀ item ∈ front, item.Unambiguous)
    (hencoding : Encoding (front ++ Item.run c count :: back) data) :
    ¬ Decodes ndebug (front ++ Item.run c count :: back) data := by
  rintro ⟨decoded, hdecode, hunescape⟩
  have hplain : ∀ d ∈ (front ++ Item.run c count :: back).flatMap Item.expand,
      d ≠ chr '*' ∧ d.toNat < 128 := fun d hd => of_mem_escape hdata (hencoding ▸ hd)
  rw [List.flatMap_append, List.flatMap_cons] at hplain
  have hexpand : escape data =
      front.flatMap Item.expand ++ c :: c :: (List.replicate 12 c ++ back.flatMap Item.expand) := by
    rw [← hencoding, List.flatMap_append, List.flatMap_cons, Item.expand, hcount]
    rfl
  -- a run of escapes is no text that has been escaped
  have hescape : c ≠ chr '}' := by
    rintro rfl
    exact escape_ne data _ _ hexpand
  obtain ⟨hstar, hlt⟩ := hplain c
    (List.mem_append_right _ (List.mem_append_left _ List.mem_cons_self))
  obtain ⟨previous, hrun⟩ := decodeRunlen_items ndebug front hfront
    (fun d hd => hplain d (List.mem_append_left _ hd)) none
  rw [gdbDecodeRunlen, List.flatMap_append, List.flatMap_cons, hrun] at hdecode
  change Except.map _ (decodeRunlen ndebug previous (-1)
    (c :: chr '*' :: count.val :: back.flatMap Item.text)) = _ at hdecode
  rw [hcount, decodeRunlen_char _ hstar hlt, decodeRunlen_star, decodeRunlen_star] at hdecode
  cases hback : decodeRunlen ndebug (some (chr '*')) (chr '*').toInt (back.flatMap Item.text) with
  | error e =>
    rw [hback] at hdecode
    cases hdecode
  | ok rest =>
    rw [hback] at hdecode
    cases hdecode
    have hsame : unescape false (front.flatMap Item.expand ++ c :: rest) =
        unescape false (escape data) := hunescape.trans (unescape_escape data).symm
    rw [hexpand, unescape_append false _ hescape rest,
      unescape_append false _ hescape (c :: (List.replicate 12 c ++ back.flatMap Item.expand)),
      List.append_cancel_left_eq, unescape_of_ne hescape] at hsame
    obtain rfl | ⟨rest, rfl⟩ := decodeRunlen_star_ok
      (fun d hd => hplain d (List.mem_append_right _ (List.mem_append_right _ hd))) hback
    · cases hsame
    · rw [unescape_of_ne (by decide)] at hsame
      exact hstar (List.cons.inj hsame).1.symm

/-- Encodings are undone as long as no number of repetitions is written as a `*`. -/
theorem decodes_iff (ndebug : Bool) {data : List Byte} (hdata : SevenBit data) {items : List Item}
    (hencoding : Encoding items data) :
    Decodes ndebug items data ↔ ∀ item ∈ items, item.Unambiguous := by
  constructor
  · intro hdecodes
    by_contra hambiguous
    obtain ⟨front, c, count, back, rfl, hcount, hfront⟩ := exists_ambiguous items hambiguous
    exact not_decodes hdata hcount hfront hencoding hdecodes
  · intro hunambiguous
    have hplain : ∀ c ∈ items.flatMap Item.expand, c ≠ chr '*' ∧ c.toNat < 128 := fun c hc =>
      of_mem_escape hdata (hencoding ▸ hc)
    obtain ⟨previous, hrun⟩ := decodeRunlen_items ndebug items hunambiguous hplain none
    have hdecode := hrun []
    rw [List.append_nil] at hdecode
    refine ⟨items.flatMap Item.expand ++ [], hdecode, ?_⟩
    rw [List.append_nil, hencoding, gdbUnescape, unescape_escape]

/-- Four zeros and a special character. -/
theorem decodes_zeros :
    SevenBit [chr '0', chr '0', chr '0', chr '0', chr '#'] ∧
    Decodes false [.run (chr '0') ⟨chr ' ', by decide⟩, .char (chr '}'), .char 0x03#8]
      [chr '0', chr '0', chr '0', chr '0', chr '#'] := by
  have hdata : SevenBit [chr '0', chr '0', chr '0', chr '0', chr '#'] := by decide
  have hencoding : Encoding [.run (chr '0') ⟨chr ' ', by decide⟩, .char (chr '}'), .char 0x03#8]
      [chr '0', chr '0', chr '0', chr '0', chr '#'] := rfl
  exact ⟨hdata, (decodes_iff false hdata hencoding).mpr (by decide)⟩

/-- Fourteen zeros are written as `0**`, and read as one. -/
theorem fourteen_zeros_not_decoded :
    SevenBit (List.replicate 14 (chr '0')) ∧
    Encoding [.run (chr '0') ⟨chr '*', by decide⟩] (List.replicate 14 (chr '0')) ∧
    gdbDecodeRunlen false [chr '0', chr '*', chr '*'] = .ok [chr '0'] ∧
    ¬ Decodes false [.run (chr '0') ⟨chr '*', by decide⟩] (List.replicate 14 (chr '0')) := by
  have hdata : SevenBit (List.replicate 14 (chr '0')) := by decide
  have hencoding : Encoding ([] ++ [.run (chr '0') ⟨chr '*', by decide⟩])
      (List.replicate 14 (chr '0')) := rfl
  exact ⟨hdata, hencoding, rfl,
    not_decodes hdata rfl (fun _ h => absurd h List.not_mem_nil) hencoding⟩

end SpsVp.Gdb
