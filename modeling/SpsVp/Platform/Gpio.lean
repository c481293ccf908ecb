import Mathlib.Logic.Function.Basic
import SpsVp.Platform.RegisterMap
import SpsVp.Platform.RegisterRange

/-!
# The pins of the HiFive platform

`platform/hifive/gpio.cpp`. The pins of the device are shared with a server, which a client outside
of the simulation connects to. The server changes its state at any time and notifies the device,
which takes the change over when it is synchronised and triggers the interrupts of the pins that
have changed. The guest sees the pins in the register `value` and drives them by `port`.

The pending registers are inverted: a bit of zero stands for an interrupt that was not acknowledged.
They are registers like others, so that the guest writes all of their bits at once.
-/

namespace SpsVp.Platform

open Lib Effect

namespace Gpio

/-- The registers. -/
inductive Reg where
  | value
  | inputEn
  | outputEn
  | port
  | pullupEn
  | pinDriveStrength
  | riseIntrEn
  | riseIntrPending
  | fallIntrEn
  | fallIntrPending
  | highIntrEn
  | highIntrPending
  | lowIntrEn
  | lowIntrPending
  | iofEn
  | iofSel
  | outXor
deriving DecidableEq

/-- The register bank, in the order of the addresses. -/
def Reg.all : List Reg :=
  [.value, .inputEn, .outputEn, .port, .pullupEn, .pinDriveStrength, .riseIntrEn, .riseIntrPending,
    .fallIntrEn, .fallIntrPending, .highIntrEn, .highIntrPending, .lowIntrEn,
    .lowIntrPending, .iofEn, .iofSel, .outXor]

def Reg.addr : Reg → BitVec 64
  | .value => 0x000#64
  | .inputEn => 0x004#64
  | .outputEn => 0x008#64
  | .port => 0x00C#64
  | .pullupEn => 0x010#64
  | .pinDriveStrength => 0x014#64
  | .riseIntrEn => 0x018#64
  | .riseIntrPending => 0x01C#64
  | .fallIntrEn => 0x020#64
  | .fallIntrPending => 0x024#64
  | .highIntrEn => 0x028#64
  | .highIntrPending => 0x02C#64
  | .lowIntrEn => 0x030#64
  | .lowIntrPending => 0x034#64
  | .iofEn => 0x038#64
  | .iofSel => 0x03C#64
  | .outXor => 0x040#64

/-- What a client sets a bit to. -/
inductive Tristate where
  | low
  | high
  | unset
deriving DecidableEq

/-- An edge of a pin, each with registers of its own. -/
inductive Edge where
  | rise
  | fall
deriving DecidableEq

def Edge.enable : Edge → Reg
  | .rise => .riseIntrEn
  | .fall => .fallIntrEn

def Edge.pending : Edge → Reg
  | .rise => .riseIntrPending
  | .fall => .fallIntrPending

/-- The edge of a pin that has changed, by the state of the server. -/
def Edge.ofLevel : Bool → Edge
  | true => .rise
  | false => .fall

end Gpio

open Gpio in
/-- The registers, the state of the server and the notification of the device. -/
structure Gpio where
  reg : Reg → BitVec 32
  /-- `server.state`. -/
  server : BitVec 64
  /-- `asyncEvent` is notified. -/
  notified : Bool
  /-- The interrupts for which the gateway was triggered, in order. -/
  triggered : List Nat

namespace Gpio

/-- The constructor. -/
def init : Gpio where
  reg
    | .riseIntrPending | .fallIntrPending | .highIntrPending | .lowIntrPending => 0xffffffff#32
    | _ => 0#32
  server := 0#64
  notified := false
  triggered := []

def setReg (r : Reg) (w : BitVec 32) (s : Gpio) : Gpio :=
  { s with reg := Function.update s.reg r w }

/-! ## Registers -/

/-- What follows a write to a register, with the value that `pullup_en` had before. -/
def react (r : Reg) (regBak : BitVec 32) (s : Gpio) : Gpio :=
  match r with
  | .port =>
    let outputEn := s.reg .outputEn
    let s' := s.setReg .value ((s.reg .value &&& ~~~outputEn) ||| (s.reg .port &&& outputEn))
    { s' with
      server :=
        (s.server &&& (~~~outputEn).setWidth 64) ||| (s.reg .port &&& outputEn).setWidth 64 }
  | .pullupEn =>
    let changed := regBak ^^^ s.reg .pullupEn
    let s' := s.setReg .value (s.reg .value ||| changed)
    { s' with server := s.server ||| changed.setWidth 64 }
  | _ => s

/-- `register_access_callback`. -/
def registerAccessCallback (command : Command) (r : Reg) (_nv : BitVec 32)
    (fn : Effect Empty Gpio (Option (BitVec 32))) : Effect Empty Gpio Handled :=
  match command with
  | .read => do return { read := ← fn }
  | .write =>
    -- a write to the value register is ignored
    if r = .value then return {}
    else do
      let regBak := (← get).reg .pullupEn
      let read ← fn
      modify (react r regBak)
      return { read := read }

def bank : RegisterBank Empty Gpio Reg where
  find addr := Reg.all.find? fun r => r.addr = addr
  value r s := s.reg r
  assign := setReg
  handler := registerAccessCallback

def transport (access : Access) : Effect (RegisterError Empty) Gpio Answer := bank.transport access

/-! ## The server -/

/-- `asyncOnchange`. -/
def asyncOnchange (bit : Fin 64) (val : Tristate) (s : Gpio) : Gpio :=
  match val with
  | .low =>
    if s.server.getLsbD bit = false then s
    else { s with server := s.server &&& ~~~BitVec.twoPow 64 bit, notified := true }
  | .high =>
    if s.server.getLsbD bit = true then s
    else { s with server := s.server ||| BitVec.twoPow 64 bit, notified := true }
  | .unset => s

/-- The two branches of the loop of `synchronousChange` for a pin that has changed. -/
def fire (intGpioBase : Nat) (edge : Edge) (i : Nat) (s : Gpio) : Gpio :=
  if (s.reg edge.enable).getLsbD i then
    -- interrupt pending is inverted
    if (~~~(s.reg edge.pending)).getLsbD i then s
    else
      let s' := s.setReg edge.pending (s.reg edge.pending &&& ~~~BitVec.twoPow 32 i)
      { s' with triggered := s.triggered ++ [intGpioBase + i] }
  else s

/-- The body of the loop of `synchronousChange`. -/
def changePin (intGpioBase : Nat) (snapshot : BitVec 64) (diff : BitVec 32) (s : Gpio) (i : Nat) :
    Gpio :=
  if diff.getLsbD i then fire intGpioBase (.ofLevel (snapshot.getLsbD i)) i s else s

/-- The pins that `synchronousChange` sees as changed. -/
def diff (s : Gpio) : BitVec 32 := (s.server.setWidth 32 ^^^ s.reg .value) &&& s.reg .inputEn

/-- `synchronousChange`. A change of the server during the call is one after it. -/
def synchronousChange (intGpioBase : Nat) (s : Gpio) : Gpio :=
  if s.diff = 0#32 then s
  else
    let s' := (List.range 32).foldl (changePin intGpioBase s.server s.diff) s
    s'.setReg .value
      ((s.server.setWidth 32 &&& s'.reg .inputEn) ||| (s'.reg .port &&& s'.reg .outputEn))

/-- The process is run when the event was notified. -/
def synchronise (intGpioBase : Nat) (s : Gpio) : Gpio :=
  if s.notified then synchronousChange intGpioBase { s with notified := false } else s

/-! ## Runs -/

/-- What happens to the device. -/
inductive Event where
  | access (access : Access)
  | change (bit : Fin 64) (val : Tristate)
  | synchronise

def step (intGpioBase : Nat) : Event → Effect (RegisterError Empty) Gpio Unit
  | .access access => do
      let _ ← transport access
  | .change bit val => modify (asyncOnchange bit val)
  | .synchronise => modify (synchronise intGpioBase)

/-- The state after a run that does not fail. -/
def runAll (intGpioBase : Nat) (s : Gpio) : List Event → Option Gpio
  | [] => some s
  | e :: events =>
    match step intGpioBase e s with
    | .ok _ t => runAll intGpioBase t events
    | .error _ _ => none

/-! ## Accesses -/

variable {s t : Gpio} {access : Access} {r : Reg} {edge : Edge} {intGpioBase : Nat} {out : Answer}

@[simp] theorem reg_setReg (r r' : Reg) (w : BitVec 32) (s : Gpio) :
    (s.setReg r w).reg r' = if r' = r then w else s.reg r' :=
  Function.update_apply _ _ _ _

@[simp] theorem server_setReg (r : Reg) (w : BitVec 32) (s : Gpio) :
    (s.setReg r w).server = s.server :=
  rfl

/-- The bit of a pin in a register. -/
def bit (s : Gpio) (r : Reg) (i : Nat) : Bool := (s.reg r).getLsbD i

/-- The state of a pin at the server. -/
def level (s : Gpio) (i : Nat) : Bool := s.server.getLsbD i

theorem bit_setReg (r r' : Reg) (w : BitVec 32) (i : Nat) :
    (s.setReg r w).bit r' i = if r' = r then w.getLsbD i else s.bit r' i := by
  rw [bit, reg_setReg]
  split_ifs
  · rfl
  · rfl

/-- The value that a write gives to its register. -/
def writtenValue (s : Gpio) (access : Access) (r : Reg) : BitVec 32 :=
  mergeBytes (s.reg r) access.offset (access.data.take access.length)

/-- The state after a write. -/
def afterWrite (s : Gpio) (access : Access) (r : Reg) : Gpio :=
  if r = .value then s else react r (s.reg .pullupEn) (s.setReg r (s.writtenValue access r))

/-- An access that succeeds is a read, which changes nothing, or a write to a register. -/
theorem transport_cases (h : transport access s = .ok out t) :
    (access.command = .read ∧ t = s) ∨
      access.command = .write ∧ ∃ r, bank.register access = some r ∧ t = s.afterWrite access r := by
  obtain ⟨r, handled, hr, _, hhandled, _⟩ := RegisterBank.transport_eq_ok h
  change registerAccessCallback access.command r (RegisterBank.newValue access)
    (bank.fn access r) s = .ok handled t at hhandled
  cases hcommand : access.command with
  | read =>
    rw [hcommand] at hhandled
    refine .inl ⟨rfl, ?_⟩
    unfold RegisterBank.fn at hhandled
    rw [hcommand] at hhandled
    cases hhandled
    rfl
  | write =>
    rw [hcommand] at hhandled
    refine .inr ⟨rfl, r, hr, ?_⟩
    unfold registerAccessCallback at hhandled
    dsimp only at hhandled
    unfold afterWrite
    split_ifs at hhandled ⊢ with hvalue
    · cases hhandled
      rfl
    · obtain ⟨regBak, u, hget, hrest⟩ := bind_eq_ok hhandled
      cases hget
      obtain ⟨read, u', hfn, hrest⟩ := bind_eq_ok hrest
      rw [RegisterBank.fn_of_write hcommand] at hfn
      cases hfn
      cases hrest
      have hmask : ∀ w : BitVec 32, w &&& 0xffffffff#32 = w := fun w => BitVec.and_allOnes
      change react r _ (setReg r (mergeBytes _ _ _ &&& 0xffffffff#32) s) = _
      rw [hmask]
      rfl

/-- A register without a reaction. -/
theorem afterWrite_of_plain (hr : r ∉ [.value, .port, .pullupEn]) :
    s.afterWrite access r = s.setReg r (s.writtenValue access r) := by
  simp only [List.mem_cons, List.not_mem_nil, or_false, not_or] at hr
  rw [afterWrite, if_neg hr.1]
  cases r with
  | port => exact absurd rfl hr.2.1
  | pullupEn => exact absurd rfl hr.2.2
  | _ => rfl

/-- A write of a word to a register. -/
def wordWrite (r : Reg) (w : BitVec 32) : Access := ⟨.write, r.addr, RegisterMemory.bytesOf w, 4⟩

theorem register_wordWrite (r : Reg) (w : BitVec 32) : bank.register (wordWrite r w) = some r := by
  change Reg.all.find? (fun r' => r'.addr = r.addr - r.addr % 4#64) = some r
  cases r <;> decide

theorem writtenValue_wordWrite (s : Gpio) (r r' : Reg) (w : BitVec 32) :
    s.writtenValue (wordWrite r w) r' = w := by
  have hoffset : (wordWrite r w).offset = 0 := by
    change r.addr.toNat % 4 = 0
    cases r <;> decide
  rw [writtenValue, hoffset]
  refine Eq.trans (ByteMemory.littleEndian_congr fun k hk => ?_)
    (ByteMemory.littleEndian_extract (n := 4) w)
  rw [if_pos ⟨Nat.zero_le k, by change k < 0 + 4; omega⟩]
  rw [List.getD_eq_getElem?_getD, Nat.sub_zero]
  change ((RegisterMemory.bytesOf w).take 4)[k]?.getD 0#8 = _
  rw [List.getElem?_take_of_lt hk, RegisterMemory.bytesOf, List.getElem?_ofFn, dif_pos hk,
    Option.getD_some]

theorem reg_asyncOnchange (bit : Fin 64) (val : Tristate) (s : Gpio) :
    (asyncOnchange bit val s).reg = s.reg := by
  unfold asyncOnchange
  cases val with
  | low | high => split_ifs <;> rfl
  | unset => rfl

/-! ## Synchronisation -/

section

variable {snapshot : BitVec 64} {changed : BitVec 32}

theorem ne_pending (hrise : r ≠ .riseIntrPending) (hfall : r ≠ .fallIntrPending) (edge : Edge) :
    r ≠ edge.pending := by
  cases edge with
  | rise => exact hrise
  | fall => exact hfall

/-- The loop writes the pending registers only. -/
theorem changePin_keeps (s : Gpio) (i : Nat) (hr : ∀ edge : Edge, r ≠ edge.pending) :
    (changePin intGpioBase snapshot changed s i).reg r = s.reg r := by
  unfold changePin fire
  split_ifs
  · rfl
  · exact (reg_setReg _ _ _ _).trans (if_neg (hr _))
  · rfl
  · rfl

theorem server_changePin (s : Gpio) (i : Nat) :
    (changePin intGpioBase snapshot changed s i).server = s.server := by
  unfold changePin fire
  split_ifs
  · rfl
  · rfl
  · rfl
  · rfl

theorem foldl_changePin_keeps (l : List Nat) (s : Gpio) (hr : ∀ edge : Edge, r ≠ edge.pending) :
    (l.foldl (changePin intGpioBase snapshot changed) s).reg r = s.reg r := by
  induction l generalizing s with
  | nil => rfl
  | cons i l ih => exact (ih _).trans (changePin_keeps s i hr)

theorem server_foldl_changePin (l : List Nat) (s : Gpio) :
    (l.foldl (changePin intGpioBase snapshot changed) s).server = s.server := by
  induction l generalizing s with
  | nil => rfl
  | cons i l ih => exact (ih _).trans (server_changePin s i)

end

/-- The registers that a synchronisation leaves alone. -/
theorem reg_synchronousChange (intGpioBase : Nat) (s : Gpio) (hvalue : r ≠ .value)
    (hr : ∀ edge : Edge, r ≠ edge.pending) : (synchronousChange intGpioBase s).reg r = s.reg r := by
  unfold synchronousChange
  split_ifs
  · rfl
  · exact (reg_setReg _ _ _ _).trans ((if_neg hvalue).trans (foldl_changePin_keeps _ s hr))

theorem server_synchronousChange (intGpioBase : Nat) (s : Gpio) :
    (synchronousChange intGpioBase s).server = s.server := by
  unfold synchronousChange
  split_ifs
  · rfl
  · exact server_foldl_changePin _ s

/-- The value register after a synchronisation with a change. -/
theorem value_synchronousChange (intGpioBase : Nat) (h : s.diff ≠ 0#32) :
    (synchronousChange intGpioBase s).reg .value =
      (s.server.setWidth 32 &&& s.reg .inputEn) ||| (s.reg .port &&& s.reg .outputEn) := by
  rw [synchronousChange, if_neg h]
  refine (reg_setReg _ _ _ _).trans ?_
  rw [if_pos rfl, foldl_changePin_keeps (r := .inputEn) _ s (ne_pending nofun nofun),
    foldl_changePin_keeps (r := .port) _ s (ne_pending nofun nofun),
    foldl_changePin_keeps (r := .outputEn) _ s (ne_pending nofun nofun)]

end Gpio

end SpsVp.Platform
