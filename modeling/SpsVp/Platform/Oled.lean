import Mathlib.Logic.Function.Basic
import Mathlib.Tactic.SplitIfs

/-!
# The display

The pin that the display asks for says whether a byte is data or a command. Commands move a cursor,
by a table of patterns with one command of two bytes, and data go to the cell at the cursor.
`data_iff` compares the cursor with its definition in numbers, and says that a byte of data has the
effect it should have unless the cursor is one page or one column beyond the frame: the bounds are
tested for values that are greater than the number of pages and columns, so that these two are let
through. -/

namespace SpsVp.Platform

namespace Ss1106

def width : Nat := 132

def height : Nat := 64

inductive Operator where
  | colLow | colHigh | pumpVoltage | displayStartLine | contrastModeSet | segmentRemap
  | entireDisplay | normalInverse | multiplexRatio | dcDcVoltage | displayOn | pageAddr
  | commonOutputDir | displayOffset | displayDivideRatio | disPreChargePeriod | commonPadsStuff
  | vcomDeselect | rmw | rmwEnd | nop
  deriving DecidableEq

def opcode : Operator → BitVec 8
  | .colLow => 0x00
  | .colHigh => 0x10
  | .pumpVoltage => 0b00110000
  | .displayStartLine => 0b01000000
  | .contrastModeSet => 0b10000001
  | .segmentRemap => 0xA0
  | .entireDisplay => 0xA4
  | .normalInverse => 0xA6
  | .multiplexRatio => 0b10101000
  | .dcDcVoltage => 0x8B
  | .displayOn => 0xAE
  | .pageAddr => 0xB0
  | .commonOutputDir => 0xC0
  | .displayOffset => 0b11010011
  | .displayDivideRatio => 0b11010101
  | .disPreChargePeriod => 0b11011001
  | .commonPadsStuff => 0b11011010
  | .vcomDeselect => 0b11011011
  | .rmw => 0b11100000
  | .rmwEnd => 0b11101110
  | .nop => 0b11100011

def mask : Operator → BitVec 8
  | .displayStartLine => 0b11000000
  | .colLow | .colHigh | .pageAddr | .commonOutputDir => 0b11110000
  | .pumpVoltage => 0b11111100
  | .segmentRemap | .entireDisplay | .normalInverse | .displayOn => 0b11111110
  | .contrastModeSet | .multiplexRatio | .dcDcVoltage | .displayOffset | .displayDivideRatio
  | .disPreChargePeriod | .commonPadsStuff | .vcomDeselect | .rmw | .rmwEnd | .nop => 0b11111111

/-- The operators in the order of the enumeration. -/
def operators : List Operator :=
  [.colLow, .colHigh, .pumpVoltage, .displayStartLine, .contrastModeSet,
    .segmentRemap, .entireDisplay,
    .normalInverse, .multiplexRatio, .dcDcVoltage, .displayOn, .pageAddr,
    .commonOutputDir, .displayOffset,
    .displayDivideRatio, .disPreChargePeriod, .commonPadsStuff, .vcomDeselect, .rmw, .rmwEnd, .nop]

structure Command where
  op : Operator
  payload : BitVec 8

def matchCommand (cmd : BitVec 8) : Command :=
  match operators.find? fun op => (cmd ^^^ opcode op) &&& mask op = 0 with
  | some op => ⟨op, cmd &&& ~~~mask op⟩
  | none => ⟨.nop, 0⟩

inductive Mode where
  | normal | secondArg
  deriving DecidableEq

end Ss1106

open Ss1106

/-- The display with the part of the shared state that it uses. `memory` has the bytes from the
beginning of the frame on, those that follow the frame included. -/
structure Ss1106 where
  changed : Bool := false
  column : BitVec 8 := 0
  page : BitVec 8 := 0
  pumpVoltage : BitVec 2 := 0
  contrast : BitVec 8 := 0
  invertColor : BitVec 1 := 0
  displayOn : BitVec 1 := 0
  memory : Nat → BitVec 8 := fun _ => 0
  mode : Mode := .normal
  lastCmd : Ss1106.Command := ⟨.nop, 0⟩

namespace Ss1106

variable {s : Ss1106}

/-- The cell of the frame. -/
def frame (s : Ss1106) (page column : Nat) : BitVec 8 := s.memory (width * page + column)

def writeData (byte : BitVec 8) (s : Ss1106) : BitVec 8 × Ss1106 :=
  if s.column.toNat > width then
    (-1, s)
  else if s.page.toNat > height / 8 then
    (-1, s)
  else
    (0, { s with
      memory := Function.update s.memory (width * s.page.toNat + s.column.toNat) byte
      changed := true
      column := s.column + 1 })

/-- The effect of a command of one byte, or of the first byte of a longer one. -/
def perform (s : Ss1106) (cmd : Command) : Ss1106 :=
  match cmd.op with
  | .colLow => { s with column := (s.column &&& 0xf0#8) ||| cmd.payload }
  | .colHigh => { s with column := (s.column &&& 0x0f#8) ||| (cmd.payload <<< 4) }
  | .pumpVoltage => { s with pumpVoltage := cmd.payload.setWidth 2 }
  | .contrastModeSet => { s with mode := .secondArg }
  | .normalInverse => { s with invertColor := cmd.payload.setWidth 1 }
  | .displayOn => { s with displayOn := cmd.payload.setWidth 1 }
  | .pageAddr => { s with page := cmd.payload }
  | _ => s

def writeCommand (byte : BitVec 8) (s : Ss1106) : Ss1106 :=
  match s.mode with
  | .normal => perform { s with lastCmd := matchCommand byte } (matchCommand byte)
  | .secondArg =>
    let s' := match s.lastCmd.op with
      | .contrastModeSet => { s with contrast := byte, changed := true }
      | _ => s
    { s' with mode := .normal }

def write (dcPin : Bool) (byte : BitVec 8) (s : Ss1106) : BitVec 8 × Ss1106 :=
  if dcPin then s.writeData byte else (0, s.writeCommand byte)

/-- The state after bytes with the pin they come with. -/
def after (bytes : List (Bool × BitVec 8)) : Ss1106 :=
  bytes.foldl (fun s b => (s.write b.1 b.2).2) {}

/-! ## What the display should do -/

/-- What a command byte means for the cursor. -/
inductive Meaning where
  | columnLow (nibble : Nat)
  | columnHigh (nibble : Nat)
  | page (page : Nat)
  | twoBytes
  | other
  deriving DecidableEq

def meaning (byte : BitVec 8) : Meaning :=
  let b := byte.toNat
  if b < 0x10 then .columnLow b
  else if b < 0x20 then .columnHigh (b - 0x10)
  else if 0xB0 ≤ b ∧ b < 0xC0 then .page (b - 0xB0)
  else if b = 0x81 then .twoBytes
  else .other

/-- Where the next byte of data should go. -/
structure Cursor where
  page : Nat := 0
  column : Nat := 0
  argument : Bool := false

def Cursor.move (k : Cursor) : Meaning → Cursor
  | .columnLow nibble => { k with column := 16 * (k.column / 16) + nibble }
  | .columnHigh nibble => { k with column := 16 * nibble + k.column % 16 }
  | .page page => { k with page := page }
  | .twoBytes => { k with argument := true }
  | .other => k

def Cursor.command (byte : BitVec 8) (k : Cursor) : Cursor :=
  if k.argument then { k with argument := false } else k.move (meaning byte)

/-- Another byte. A byte of data moves the cursor if the display has accepted it, by an answer of
zero. -/
def track (k : Cursor × Ss1106) (b : Bool × BitVec 8) : Cursor × Ss1106 :=
  let (answer, s) := k.2.write b.1 b.2
  (if b.1 then if answer = 0 then { k.1 with column := k.1.column + 1 } else k.1
    else k.1.command b.2, s)

/-- The cursor after some bytes, which begins at the first cell. -/
def cursor (bytes : List (Bool × BitVec 8)) : Cursor := (bytes.foldl track ({}, {})).1

/-- What a byte of data should do at a cursor: within the frame it changes the cell there and moves
the column, and elsewhere it is rejected. -/
def Hits (k : Cursor) (byte : BitVec 8) (s : Ss1106) : Prop :=
  if k.page < height / 8 ∧ k.column < width then
    (s.write true byte).1 = 0 ∧ (s.write true byte).2.page = s.page ∧
      (s.write true byte).2.column.toNat = k.column + 1 ∧
      ∀ page < height / 8, ∀ column < width, (s.write true byte).2.frame page column =
        if page = k.page ∧ column = k.column then byte else s.frame page column
  else
    (s.write true byte).1 ≠ 0 ∧ (s.write true byte).2 = s

/-- The cursor is one page or one column beyond the frame. -/
def Edge (k : Cursor) : Prop :=
  k.page = height / 8 ∧ k.column ≤ width ∨ k.column = width ∧ k.page ≤ height / 8

/-! ## Commands -/

/-- What an operator of the table means for the cursor. -/
def Command.meaning (cmd : Command) : Meaning :=
  match cmd.op with
  | .colLow => .columnLow cmd.payload.toNat
  | .colHigh => .columnHigh cmd.payload.toNat
  | .pageAddr => .page cmd.payload.toNat
  | .contrastModeSet => .twoBytes
  | _ => .other

theorem meaning_matchCommand (byte : BitVec 8) : (matchCommand byte).meaning = meaning byte := by
  revert byte
  decide +kernel

theorem payload_matchCommand (byte : BitVec 8) :
    (matchCommand byte).op = .colLow ∨ (matchCommand byte).op = .colHigh →
      (matchCommand byte).payload.toNat < 16 := by
  revert byte
  decide +kernel

/-- The state has the cursor. -/
structure At (k : Cursor) (s : Ss1106) : Prop where
  page : s.page.toNat = k.page
  column : s.column.toNat = k.column
  argument : s.mode = if k.argument then .secondArg else .normal

theorem toNat_columnLow (c p : BitVec 8) (hp : p.toNat < 16) :
    ((c &&& 0xf0#8) ||| p).toNat = 16 * (c.toNat / 16) + p.toNat := by
  have hhigh : ∀ c : BitVec 8, (c &&& 0xf0#8).toNat = 2 ^ 4 * (c.toNat / 16) := by decide +kernel
  rw [BitVec.toNat_or, hhigh, ← Nat.two_pow_add_eq_or_of_lt hp]

theorem toNat_columnHigh (c p : BitVec 8) (hp : p.toNat < 16) :
    ((c &&& 0x0f#8) ||| p <<< 4).toNat = 16 * p.toNat + c.toNat % 16 := by
  have hlow : ∀ c : BitVec 8, (c &&& 0x0f#8).toNat = c.toNat % 16 := by decide +kernel
  have hshift : (p <<< 4).toNat = 2 ^ 4 * p.toNat := by
    rw [BitVec.toNat_shiftLeft, Nat.shiftLeft_eq, Nat.mod_eq_of_lt (by omega), Nat.mul_comm]
  rw [BitVec.toNat_or, Nat.or_comm, hlow, hshift,
    ← Nat.two_pow_add_eq_or_of_lt (Nat.mod_lt _ (by decide))]

variable {k : Cursor}

theorem At.perform {cmd : Command} (h : At k s)
    (hpayload : cmd.op = .colLow ∨ cmd.op = .colHigh → cmd.payload.toNat < 16) :
    At (k.move cmd.meaning) (s.perform cmd) := by
  obtain ⟨op, payload⟩ := cmd
  cases op with
  | colLow =>
    refine ⟨h.page, ?_, h.argument⟩
    change _ = 16 * (k.column / 16) + payload.toNat
    rw [← h.column]
    exact toNat_columnLow _ _ (hpayload (.inl rfl))
  | colHigh =>
    refine ⟨h.page, ?_, h.argument⟩
    change _ = 16 * payload.toNat + k.column % 16
    rw [← h.column]
    exact toNat_columnHigh _ _ (hpayload (.inr rfl))
  | pageAddr => exact ⟨rfl, h.column, h.argument⟩
  | contrastModeSet => exact ⟨h.page, h.column, rfl⟩
  | _ => exact ⟨h.page, h.column, h.argument⟩

/-- A command moves the cursor by what it means. -/
theorem At.command (h : At k s) (byte : BitVec 8) :
    At (k.command byte) (s.writeCommand byte) := by
  have hmode := h.argument
  unfold Cursor.command writeCommand
  cases harg : k.argument with
  | true =>
    simp only [harg, if_true] at hmode
    simp only [hmode, if_true]
    split
    · exact ⟨h.page, h.column, rfl⟩
    · exact ⟨h.page, h.column, rfl⟩
  | false =>
    simp only [harg, Bool.false_eq_true, if_false] at hmode
    simp only [hmode, Bool.false_eq_true, if_false, ← meaning_matchCommand]
    exact At.perform ⟨h.page, h.column, by rw [harg]; rfl⟩ (payload_matchCommand byte)

/-- A command does not write to the frame. -/
theorem memory_writeCommand (byte : BitVec 8) (s : Ss1106) :
    (s.writeCommand byte).memory = s.memory := by
  unfold writeCommand
  split
  · unfold perform
    split <;> rfl
  · dsimp only
    split <;> rfl

/-! ## Data -/

/-- The byte of data is accepted. -/
theorem writeData_eq (h : At k s) (byte : BitVec 8) :
    s.write true byte = if k.column ≤ width ∧ k.page ≤ height / 8 then
      (0, { s with
        memory := Function.update s.memory (width * k.page + k.column) byte
        changed := true
        column := s.column + 1 })
    else (-1, s) := by
  rw [← h.page, ← h.column]
  change s.writeData byte = _
  unfold writeData
  split_ifs with hcolumn hpage haccepted
  all_goals first
    | rfl
    | omega

theorem toNat_column_succ (h : At k s) (hcolumn : k.column ≤ width) :
    (s.column + 1).toNat = k.column + 1 := by
  have hsmall : k.column + 1 < 2 ^ 8 := Nat.lt_of_le_of_lt (Nat.succ_le_succ hcolumn) (by decide)
  rw [BitVec.toNat_add, h.column]
  exact Nat.mod_eq_of_lt hsmall

/-- A byte of data has the effect it should have just if the cursor is not at the edge. -/
theorem hits_iff (h : At k s) (byte : BitVec 8) : Hits k byte s ↔ ¬ Edge k := by
  have hedge : Edge k ↔ (k.column ≤ width ∧ k.page ≤ height / 8) ∧
      ¬ (k.page < height / 8 ∧ k.column < width) := by
    unfold Edge
    omega
  unfold Hits
  rw [writeData_eq h, hedge]
  split_ifs with hframe haccepted haccepted
  · refine iff_of_true ⟨rfl, rfl, toNat_column_succ h haccepted.1, ?_⟩ (fun hedge => hedge.2 hframe)
    intro page hpage column hcolumn
    change Function.update s.memory _ byte _ = _
    rw [Function.update_apply]
    refine if_congr ?_ rfl rfl
    -- a cell has one page and one column
    unfold width at hcolumn hframe ⊢
    omega
  · exact absurd ⟨Nat.le_of_lt hframe.2, Nat.le_of_lt hframe.1⟩ haccepted
  · exact iff_of_false (fun hrejected => hrejected.1 rfl) (fun hedge => hedge ⟨haccepted, hframe⟩)
  · exact iff_of_true ⟨(by decide : (-1 : BitVec 8) ≠ 0), rfl⟩ (fun hedge => haccepted hedge.1)

/-! ## Sequences of bytes -/

theorem at_foldl (h : At k s) (bytes : List (Bool × BitVec 8)) :
    At (bytes.foldl track (k, s)).1 (bytes.foldl (fun s b => (s.write b.1 b.2).2) s) := by
  induction bytes generalizing k s with
  | nil => exact h
  | cons b bytes ih =>
    obtain ⟨dcPin, byte⟩ := b
    refine ih ?_
    cases dcPin with
    | true =>
      have hwrite := writeData_eq h byte
      change At (if (s.write true byte).1 = 0 then _ else _) (s.write true byte).2
      split_ifs at hwrite with haccepted
      · rw [hwrite]
        exact ⟨h.page, toNat_column_succ h haccepted.1, h.argument⟩
      · rw [hwrite]
        exact h
    | false => exact h.command byte

/-- After any bytes the state has the cursor that the commands and the accepted data give, a command
leaves the frame alone, and a byte of data hits the cell it should hit just if the cursor is not at
the edge. -/
theorem data_iff (bytes : List (Bool × BitVec 8)) :
    At (cursor bytes) (after bytes) ∧
      (∀ byte, ((after bytes).write false byte).2.memory = (after bytes).memory) ∧
      ∀ byte, Hits (cursor bytes) byte (after bytes) ↔ ¬ Edge (cursor bytes) := by
  have h : At (cursor bytes) (after bytes) := at_foldl ⟨rfl, rfl, rfl⟩ bytes
  exact ⟨h, fun byte => memory_writeCommand byte _, fun byte => hits_iff h byte⟩

/-- At column 132 of the first page, a byte of data is accepted and changes the second page. -/
theorem columnBeyond_not_hits :
    let bytes := [(false, 0x04), (false, 0x18)]
    (cursor bytes).page = 0 ∧ (cursor bytes).column = 132 ∧ (after bytes).frame 1 0 = 0 ∧
      ((after bytes).write true 0xff).2.frame 1 0 = 0xff ∧
      ¬ Hits (cursor bytes) 0xff (after bytes) := by
  refine ⟨rfl, by decide, rfl, by decide, fun h => ?_⟩
  rw [Hits, if_neg (by decide)] at h
  exact h.1 (by decide)

end Ss1106

end SpsVp.Platform
