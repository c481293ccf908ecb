import SpsVp.Platform.Can

/-!
# Register instructions of the CAN controller

A WRITE takes three bytes and a BIT MODIFY four. `modifyRegister` sets every bit of the data byte,
also those that the mask leaves out, and does not check the register number. `writeRegister` checks
it, but then stays where it is. `obeysAll_iff` says that nothing else goes wrong.
-/

namespace SpsVp.Platform

open Lib

/-! ## Instructions -/

/-- A complete instruction on a register. -/
inductive RegisterInstruction where
  | write (address data : BitVec 8)
  | bitModify (address mask data : BitVec 8)

namespace RegisterInstruction

open Can

/-- The contents of the registers. -/
abbrev Registers := Fin (MCP_RXB1SIDH + 1) → BitVec 8

def bytes : RegisterInstruction → List (BitVec 8)
  | write address data => [MCP_WRITE, address, data]
  | bitModify address mask data => [MCP_BITMOD, address, mask, data]

/-- What an instruction is to do. A register that the device does not have is not changed. -/
def specified (r : Registers) : RegisterInstruction → Registers
  | write address data =>
    if h : address.toNat < MCP_RXB1SIDH + 1 then Function.update r ⟨_, h⟩ data else r
  | bitModify address mask data =>
    if h : address.toNat < MCP_RXB1SIDH + 1 then
      Function.update r ⟨_, h⟩ ((r ⟨_, h⟩ &&& ~~~mask) ||| (data &&& mask))
    else r

/-- The register exists, and no bit outside of the mask is to be set but those that are. -/
def Sound (r : Registers) : RegisterInstruction → Prop
  | write address _ => address.toNat < MCP_RXB1SIDH + 1
  | bitModify address mask data =>
    ∃ h : address.toNat < MCP_RXB1SIDH + 1, data &&& ~~~mask &&& ~~~r ⟨_, h⟩ = 0#8

end RegisterInstruction

namespace Can

open RegisterInstruction

variable {c : Can}

theorem slt_setWidth (address : BitVec 8) : (address.setWidth 16).slt 0#16 = false := by
  revert address
  decide

theorem toNat_setWidth_byte (address : BitVec 8) : (address.setWidth 16).toNat = address.toNat :=
  BitVec.toNat_setWidth_of_le (by decide)

theorem write_writeRegister (h : c.state = .writeRegister) (byte : BitVec 8) :
    c.write byte = c.writeRegister byte := by
  rw [write, h]

theorem write_bitmod (h : c.state = .bitmod) (byte : BitVec 8) :
    c.write byte = c.modifyRegister byte := by
  rw [write, h]

theorem write_writeRegister_select (h : c.state = .writeRegister) (hselected : c.writeSelected = -1)
    (byte : BitVec 8) :
    c.write byte = some (0#8, { c with writeSelected := byte.setWidth 16 }) := by
  rw [write_writeRegister h, writeRegister, if_pos (by rw [hselected]; decide)]

variable {address : BitVec 8} {instruction : RegisterInstruction}

theorem write_writeRegister_store (h : c.state = .writeRegister)
    (hselected : c.writeSelected = address.setWidth 16) (byte : BitVec 8) :
    c.write byte = some (0#8, if hlt : address.toNat < MCP_RXB1SIDH + 1 then
      { c with
        registers := Function.update c.registers ⟨_, hlt⟩ byte
        writeSelected := -1
        state := .init }
      else c) := by
  rw [write_writeRegister h, writeRegister, hselected, if_neg (by rw [slt_setWidth]; decide)]
  simp only [toNat_setWidth_byte]
  split_ifs <;> rfl

/-- What a WRITE does. -/
theorem writes_write (h : c.AtRest) (address data : BitVec 8) :
    c.writes (RegisterInstruction.write address data).bytes = some ([0#8, 0#8, 0#8],
      if hlt : address.toNat < MCP_RXB1SIDH + 1 then
        { c with
          registers := Function.update c.registers ⟨_, hlt⟩ data
          writeSelected := -1
          state := .init }
      else { c with state := .writeRegister, writeSelected := address.setWidth 16 }) := by
  rw [RegisterInstruction.bytes, writes_cons (write_init h.state _),
    writes_cons (write_writeRegister_select (c := c.command MCP_WRITE) rfl h.writeSelected _),
    writes_cons (write_writeRegister_store rfl rfl _)]
  rfl

theorem write_bitmod_address (h : c.state = .bitmod) (hstate : c.modReg.state = .address)
    (byte : BitVec 8) :
    c.write byte =
      some (0#8, { c with modReg := { c.modReg with address := byte, state := .mask } }) := by
  rw [write_bitmod h, modifyRegister, hstate]

theorem write_bitmod_mask (h : c.state = .bitmod) (hstate : c.modReg.state = .mask)
    (byte : BitVec 8) :
    c.write byte =
      some (0#8, { c with modReg := { c.modReg with mask := byte, state := .data } }) := by
  rw [write_bitmod h, modifyRegister, hstate]

theorem write_bitmod_data (h : c.state = .bitmod) (hstate : c.modReg.state = .data)
    (byte : BitVec 8) :
    c.write byte = if hlt : c.modReg.address.toNat < MCP_RXB1SIDH + 1 then
      some (0#8, { c with
        modReg := { c.modReg with data := byte, state := .address }
        state := .init
        registers := Function.update c.registers ⟨_, hlt⟩
          ((c.registers ⟨_, hlt⟩ &&& ~~~c.modReg.mask) ||| byte) })
      else none := by
  rw [write_bitmod h, modifyRegister, hstate]

/-- What a BIT MODIFY does. -/
theorem writes_bitModify (h : c.AtRest) (address mask data : BitVec 8) :
    c.writes (RegisterInstruction.bitModify address mask data).bytes =
      if hlt : address.toNat < MCP_RXB1SIDH + 1 then
        some ([0#8, 0#8, 0#8, 0#8], { c with
          modReg := { state := .address, address, mask, data }
          state := .init
          registers := Function.update c.registers ⟨_, hlt⟩
            ((c.registers ⟨_, hlt⟩ &&& ~~~mask) ||| data) })
      else none := by
  rw [RegisterInstruction.bytes, writes_cons (write_init h.state _),
    writes_cons (write_bitmod_address (c := c.command MCP_BITMOD) rfl h.modReg _),
    writes_cons (write_bitmod_mask rfl rfl _), writes, write_bitmod_data rfl rfl]
  by_cases hlt : address.toNat < MCP_RXB1SIDH + 1
  · rw [dif_pos hlt, dif_pos hlt]
    rfl
  · rw [dif_neg hlt, dif_neg hlt]
    rfl

/-! ## What is specified -/

/-- An instruction does what is specified, and the next byte begins a new one. -/
def Obeys (c : Can) (instruction : RegisterInstruction) (c' : Can) : Prop :=
  (∃ rets, c.writes instruction.bytes = some (rets, c')) ∧
    c'.registers = instruction.specified c.registers ∧ c'.Interprets

/-- So do all instructions of a sequence. -/
def ObeysAll (c : Can) : List RegisterInstruction → Prop
  | [] => True
  | instruction :: instructions => ∃ c', c.Obeys instruction c' ∧ c'.ObeysAll instructions

/-- Setting the bits of the data is the same as setting those in the mask. -/
theorem modify_eq_iff (old mask data : BitVec 8) :
    (old &&& ~~~mask) ||| data = (old &&& ~~~mask) ||| (data &&& mask) ↔
      data &&& ~~~mask &&& ~~~old = 0#8 := by
  have hbits : ∀ o m d : Bool, (o && !m || d) = (o && !m || d && m) ↔ (d && !m && !o) = false := by
    decide
  rw [BitVec.eq_of_getLsbD_eq_iff, BitVec.eq_of_getLsbD_eq_iff]
  refine forall₂_congr fun i hi => ?_
  simp only [BitVec.getLsbD_or, BitVec.getLsbD_and, BitVec.getLsbD_not, hi, decide_true,
    Bool.true_and, BitVec.getLsbD_zero]
  exact hbits _ _ _

/-- A WRITE to a register that does not exist takes the next instruction for data. -/
theorem not_interprets_of_writeSelected (h : c.state = .writeRegister)
    (hselected : c.writeSelected = address.setWidth 16) (hge : ¬ address.toNat < MCP_RXB1SIDH + 1) :
    ¬ c.Interprets := by
  intro hinterprets
  have heq := (write_writeRegister_store h hselected MCP_READ).symm.trans
    (hinterprets MCP_READ (by decide))
  rw [dif_neg hge, Option.some.injEq, Prod.mk.injEq] at heq
  have hstate : c.state = .readRegister := congrArg Can.state heq.2
  exact absurd (h.symm.trans hstate) (by decide)

theorem AtRest.obeys_write (h : c.AtRest) {data : BitVec 8}
    (hlt : address.toNat < MCP_RXB1SIDH + 1) :
    ∃ c', c.Obeys (.write address data) c' ∧ c'.AtRest := by
  have hrest : AtRest { c with
      registers := Function.update c.registers ⟨_, hlt⟩ data
      writeSelected := -1
      state := .init } :=
    ⟨rfl, h.readSelected, rfl, h.modReg, h.loadTX, h.rxPtr⟩
  have hwrites := writes_write h address data
  rw [dif_pos hlt] at hwrites
  refine ⟨_, ⟨⟨_, hwrites⟩, ?_, hrest.interprets⟩, hrest⟩
  rw [specified, dif_pos hlt]

theorem AtRest.obeys_bitModify (h : c.AtRest) {mask data : BitVec 8}
    (hlt : address.toNat < MCP_RXB1SIDH + 1)
    (hmask : data &&& ~~~mask &&& ~~~c.registers ⟨_, hlt⟩ = 0#8) :
    ∃ c', c.Obeys (.bitModify address mask data) c' ∧ c'.AtRest := by
  have hrest : AtRest { c with
      modReg := { state := .address, address, mask, data }
      state := .init
      registers := Function.update c.registers ⟨_, hlt⟩
        ((c.registers ⟨_, hlt⟩ &&& ~~~mask) ||| data) } :=
    ⟨rfl, h.readSelected, h.writeSelected, rfl, h.loadTX, h.rxPtr⟩
  have hwrites := writes_bitModify h address mask data
  rw [dif_pos hlt] at hwrites
  refine ⟨_, ⟨⟨_, hwrites⟩, ?_, hrest.interprets⟩, hrest⟩
  rw [specified, dif_pos hlt]
  exact congrArg (Function.update c.registers _) ((modify_eq_iff _ _ _).mpr hmask)

theorem AtRest.sound_of_obeys (h : c.AtRest) {c' : Can}
    (hobeys : c.Obeys instruction c') : instruction.Sound c.registers := by
  obtain ⟨⟨rets, hwrites⟩, hregisters, hinterprets⟩ := hobeys
  cases instruction with
  | write address data =>
    by_contra hge
    have hge : ¬ address.toNat < MCP_RXB1SIDH + 1 := hge
    rw [writes_write h, dif_neg hge] at hwrites
    cases hwrites
    exact not_interprets_of_writeSelected rfl rfl hge hinterprets
  | bitModify address mask data =>
    by_cases hlt : address.toNat < MCP_RXB1SIDH + 1
    · rw [writes_bitModify h, dif_pos hlt] at hwrites
      cases hwrites
      rw [specified, dif_pos hlt] at hregisters
      refine ⟨hlt, (modify_eq_iff _ _ _).mp ?_⟩
      have hvalue := congrFun hregisters ⟨_, hlt⟩
      simpa only [Function.update_self] using hvalue
    · rw [writes_bitModify h, dif_neg hlt] at hwrites
      cases hwrites

theorem AtRest.obeys_of_sound (h : c.AtRest)
    (hsound : instruction.Sound c.registers) : ∃ c', c.Obeys instruction c' ∧ c'.AtRest := by
  cases instruction with
  | write address data => exact h.obeys_write hsound
  | bitModify address mask data =>
    obtain ⟨hlt, hmask⟩ := hsound
    exact h.obeys_bitModify hlt hmask

end Can

/-- Every instruction of a sequence is sound, with the registers that it finds. -/
def RegisterInstruction.SoundAll (r : RegisterInstruction.Registers) :
    List RegisterInstruction → Prop
  | [] => True
  | instruction :: instructions =>
    instruction.Sound r ∧ SoundAll (instruction.specified r) instructions

namespace Can

open RegisterInstruction

/-- Register instructions do what is specified as long as they name registers that exist and set no
bit outside of their mask. -/
theorem obeysAll_iff {c : Can} (h : c.AtRest) (instructions : List RegisterInstruction) :
    c.ObeysAll instructions ↔ SoundAll c.registers instructions := by
  induction instructions generalizing c with
  | nil => exact Iff.rfl
  | cons instruction instructions ih =>
    constructor
    · rintro ⟨c', hobeys, hrest⟩
      have hsound := h.sound_of_obeys hobeys
      obtain ⟨d, hd, hatRest⟩ := h.obeys_of_sound hsound
      obtain ⟨⟨rets, hc'⟩, hregisters, -⟩ := hobeys
      obtain ⟨⟨rets', hd'⟩, -⟩ := hd
      cases hc'.symm.trans hd'
      exact ⟨hsound, hregisters ▸ (ih hatRest).mp hrest⟩
    · rintro ⟨hsound, hrest⟩
      obtain ⟨c', hobeys, hatRest⟩ := h.obeys_of_sound hsound
      exact ⟨c', hobeys, (ih hatRest).mpr (hobeys.2.1 ▸ hrest)⟩

/-- The mode is set, and then changed under a mask. -/
theorem obeysAll_modes : zeroed.AtRest ∧
    zeroed.ObeysAll [.write 0x0F#8 0x80#8, .bitModify 0x0F#8 0xE0#8 0x20#8] := by
  refine ⟨zeroed_atRest, (obeysAll_iff zeroed_atRest _).mpr ⟨?_, ?_, trivial⟩⟩
  · change (0x0F#8).toNat < MCP_RXB1SIDH + 1
    decide
  · exact ⟨by decide, by decide⟩

/-- A bit outside of the mask is set, a register that does not exist is modified, and a WRITE to
such a register does not end. -/
theorem registers_not_obeyed :
    ¬ zeroed.ObeysAll [.bitModify 0x0F#8 0x01#8 0x02#8] ∧
    zeroed.writes (RegisterInstruction.bitModify 0xFF#8 0x01#8 0x01#8).bytes = none ∧
    ¬ zeroed.ObeysAll [.write 0xFF#8 0x00#8] := by
  refine ⟨fun hobeys => ?_, rfl, fun hobeys => ?_⟩
  · obtain ⟨c', hobeys, -⟩ := hobeys
    obtain ⟨hlt, hmask⟩ := zeroed_atRest.sound_of_obeys hobeys
    have hmask : 0x02#8 &&& ~~~0x01#8 &&& ~~~0#8 = 0#8 := hmask
    exact absurd hmask (by decide)
  · obtain ⟨c', hobeys, -⟩ := hobeys
    have hlt : (0xFF#8).toNat < MCP_RXB1SIDH + 1 := zeroed_atRest.sound_of_obeys hobeys
    exact absurd hlt (by decide)

end Can

end SpsVp.Platform
