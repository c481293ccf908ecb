import SpsVp.Rv32.Iss

/-!
# The emulation of system calls

`SyscallHandler::execute_syscall` of `core/rv32/syscall.cpp` on the host. What the functions of the
host return is arbitrary. A result is an `int`, and `ISS::write_register` takes it as an unsigned
number of 64 bits and asserts that it has only 32 of them.

A result reaches the guest if and only if the call is `Deliverable`: the functions that use the
memory of the guest have a pointer to it, the assertions and the checked casts of the emulation let
the result pass, and the result is not negative.
-/

namespace SpsVp.Rv32

open Lib Effect BitVec

/-- The system calls of the `switch`. -/
inductive SyscallNumber where
  | SYS_fstat | SYS_gettimeofday | SYS_brk | SYS_time | SYS_write | SYS_read | SYS_lseek | SYS_open
  | SYS_close | SYS_exit | SYS_host_error | SYS_host_test_pass | SYS_host_test_fail
deriving DecidableEq

namespace SyscallNumber

def toBits : SyscallNumber → BitVec 32
  | .SYS_fstat => 80
  | .SYS_gettimeofday => 169
  | .SYS_brk => 214
  | .SYS_time => 1062
  | .SYS_write => 64
  | .SYS_read => 63
  | .SYS_lseek => 62
  | .SYS_open => 1024
  | .SYS_close => 57
  | .SYS_exit => 93
  | .SYS_host_error => 1
  | .SYS_host_test_pass => 2
  | .SYS_host_test_fail => 3

def all : List SyscallNumber :=
  [.SYS_fstat, .SYS_gettimeofday, .SYS_brk, .SYS_time, .SYS_write, .SYS_read, .SYS_lseek, .SYS_open,
    .SYS_close, .SYS_exit, .SYS_host_error, .SYS_host_test_pass, .SYS_host_test_fail]

/-- The case of the `switch` that a number belongs to. -/
def find (n : BitVec 32) : Option SyscallNumber := all.find? (·.toBits = n)

end SyscallNumber

/-- What the functions of the host return if a system call comes to use them: an `int`, or a number
of 64 bits for `time_t`, `ssize_t` and `off_t`. -/
structure HostResult where
  fstat : BitVec 32 := 0
  gettimeofday : BitVec 32 := 0
  time : BitVec 64 := 0
  write : BitVec 64 := 0
  read : BitVec 64 := 0
  lseek : BitVec 64 := 0
  openFile : BitVec 32 := 0
  close : BitVec 32 := 0

/-- The fields of `SyscallHandler`. -/
structure Emulation where
  /-- The pointer `mem` is set. -/
  mem : Bool
  hp : BitVec 64
  maxHeap : BitVec 64
  shallExit : Bool := false

inductive EmulationError where
  | assertion
  | badLexicalCast
  | runtimeError (what : String)

abbrev SysM := Effect EmulationError Emulation

namespace Emulation

/-! ## The functions of the emulation -/

/-- `assert`. -/
def require (cond : Bool) : SysM Unit := if cond then pure () else throw .assertion

/-- `guest_to_host_pointer`, of which only the assertion matters to the result. -/
def guestToHostPointer : SysM Unit := do
  require (← get).mem

/-- `boost::lexical_cast<int>` of an integer. -/
def lexicalCast (value : Int) : SysM (BitVec 32) :=
  if -2 ^ 31 ≤ value ∧ value < 2 ^ 31 then pure (BitVec.ofInt 32 value) else throw .badLexicalCast

def sysFstat (host : HostResult) : SysM (BitVec 32) := do
  if host.fstat = 0 then guestToHostPointer
  return host.fstat

def sysGettimeofday (host : HostResult) (tzp : BitVec 32) : SysM (BitVec 32) := do
  require (tzp = 0)
  guestToHostPointer
  return host.gettimeofday

def sysTime (host : HostResult) (tloc : BitVec 32) : SysM (BitVec 32) := do
  let guestAns ← lexicalCast host.time.toInt
  if tloc ≠ 0 then guestToHostPointer
  lexicalCast guestAns.toInt

/-- The flags of the guest and those of the host. -/
def flagTable : List (BitVec 32 × BitVec 32) :=
  [(0x0000, 0x0000), (0x0001, 0x0001), (0x0002, 0x0002), (0x0008, 0x0400), (0x0200, 0x0040),
    (0x0400, 0x0200)]

def hostFlags (flags : BitVec 32) : BitVec 32 :=
  flagTable.foldl (fun ret p => ret ||| if flags &&& p.1 ≠ 0 then p.2 else 0) 0

/-- The flags have none of those that are translated. -/
def UnsupportedFlag (flags : BitVec 32) : Prop := hostFlags flags = 0 ∧ flags ≠ 0

instance (flags : BitVec 32) : Decidable (UnsupportedFlag flags) :=
  inferInstanceAs (Decidable (_ ∧ _))

def translateRVFlagsToHost (flags : BitVec 32) : SysM (BitVec 32) := do
  if UnsupportedFlag flags then throw (.runtimeError "unsupported flag")
  return hostFlags flags

/-- The heap ends at another address. -/
def moveHeap (sys : Emulation) (n : BitVec 64) : Emulation :=
  { sys with hp := n, maxHeap := if sys.maxHeap < n then n else sys.maxHeap }

def sysBrk (addr : BitVec 32) : SysM (BitVec 32) := do
  if addr = 0 then
    lexicalCast (← get).hp.toNat
  else
    let n := addr.setWidth 64
    modify (·.moveHeap n)
    lexicalCast n.toNat

/-- `sys_write` and `sys_read`, with the number that the function of the host returns. The
assertions are on the number of 64 bits, which then becomes an `int`. -/
def transfer (ans : BitVec 64) : SysM (BitVec 32) := do
  guestToHostPointer
  require (0 ≤ ans.toInt)
  return ans.setWidth 32

def sysWrite (host : HostResult) : SysM (BitVec 32) := transfer host.write

def sysRead (host : HostResult) : SysM (BitVec 32) := transfer host.read

def sysLseek (host : HostResult) : SysM (BitVec 32) := return host.lseek.setWidth 32

def sysOpen (host : HostResult) (flags : BitVec 32) : SysM (BitVec 32) := do
  guestToHostPointer
  let _ ← translateRVFlagsToHost flags
  return host.openFile

/-- The number of a standard stream. -/
def IsStandardStream (fd : BitVec 32) : Prop := fd = 0 ∨ fd = 1 ∨ fd = 2

instance (fd : BitVec 32) : Decidable (IsStandardStream fd) :=
  inferInstanceAs (Decidable (_ ∨ _ ∨ _))

def sysClose (host : HostResult) (fd : BitVec 32) : SysM (BitVec 32) :=
  return if IsStandardStream fd then 0 else host.close

def exit : SysM (BitVec 32) := do
  modify fun sys => { sys with shallExit := true }
  return 0

/-- The cases of `execute_syscall`. -/
def execute (host : HostResult) (call : Syscall) : SyscallNumber → SysM (BitVec 32)
  | .SYS_fstat => sysFstat host
  | .SYS_gettimeofday => sysGettimeofday host call.a1
  | .SYS_brk => sysBrk call.a0
  | .SYS_time => sysTime host call.a0
  | .SYS_write => sysWrite host
  | .SYS_read => sysRead host
  | .SYS_lseek => sysLseek host
  | .SYS_open => sysOpen host call.a1
  | .SYS_close => sysClose host call.a0
  | .SYS_host_error => throw (.runtimeError "SYS_host_error")
  | .SYS_exit | .SYS_host_test_pass | .SYS_host_test_fail => exit

def executeSyscall (host : HostResult) (call : Syscall) : SysM (BitVec 32) :=
  match SyscallNumber.find call.n with
  | some number => execute host call number
  | none => throw (.runtimeError ("unsupported syscall '" ++ toString call.n.toNat ++ "'"))

/-! ## The handler -/

/-- What `boost::bad_lexical_cast` says. -/
def badLexicalCast : String :=
  "bad lexical cast: source type value could not be interpreted as target"

/-- What the core gets to see of a call. -/
def resultOf : EStateM.Result EmulationError Emulation (BitVec 32) → SyscallResult
  | .ok ans sys => .returned ans sys.shallExit
  | .error .assertion _ => .aborted
  | .error .badLexicalCast _ => .failed badLexicalCast
  | .error (.runtimeError what) _ => .failed what

/-- The emulation after the calls of a history. The host answers the call of every number on its
own. -/
def after (host : Nat → HostResult) (sys : Emulation) (history : List Syscall) : Emulation :=
  history.zipIdx.foldl (fun sys p => Effect.final (executeSyscall (host p.2) p.1 sys)) sys

/-- The answer to the last call of a history. -/
def answer (host : Nat → HostResult) (sys : Emulation) (history : List Syscall) : SyscallResult :=
  match history.getLast? with
  | some call => resultOf (executeSyscall (host (history.length - 1)) call
      (sys.after host history.dropLast))
  | none => .aborted

theorem answer_concat (host : Nat → HostResult) (sys : Emulation) (history : List Syscall)
    (call : Syscall) : sys.answer host (history ++ [call]) =
      resultOf (executeSyscall (host history.length) call (sys.after host history)) := by
  simp [answer]

/-! ## The result of a call -/

/-- The result that a system call has, as a number of 32 bits. -/
def result (sys : Emulation) (host : HostResult) (call : Syscall) : SyscallNumber → BitVec 32
  | .SYS_fstat => host.fstat
  | .SYS_gettimeofday => host.gettimeofday
  | .SYS_brk => if call.a0 = 0 then sys.hp.setWidth 32 else call.a0
  | .SYS_time => host.time.setWidth 32
  | .SYS_write => host.write.setWidth 32
  | .SYS_read => host.read.setWidth 32
  | .SYS_lseek => host.lseek.setWidth 32
  | .SYS_open => host.openFile
  | .SYS_close => if IsStandardStream call.a0 then 0 else host.close
  | .SYS_exit | .SYS_host_error | .SYS_host_test_pass | .SYS_host_test_fail => 0

/-- What the call needs for its result to reach the guest. -/
def Deliverable (sys : Emulation) (host : HostResult) (call : Syscall) : SyscallNumber → Prop
  | .SYS_fstat => 0 ≤ host.fstat.toInt ∧ (host.fstat = 0 → sys.mem = true)
  | .SYS_gettimeofday => call.a1 = 0 ∧ sys.mem = true ∧ 0 ≤ host.gettimeofday.toInt
  | .SYS_brk => (if call.a0 = 0 then sys.hp.toNat else call.a0.toNat) < 2 ^ 31
  | .SYS_time => 0 ≤ host.time.toInt ∧ host.time.toInt < 2 ^ 31 ∧ (call.a0 ≠ 0 → sys.mem = true)
  | .SYS_write => sys.mem = true ∧ 0 ≤ host.write.toInt ∧ 0 ≤ (host.write.setWidth 32).toInt
  | .SYS_read => sys.mem = true ∧ 0 ≤ host.read.toInt ∧ 0 ≤ (host.read.setWidth 32).toInt
  | .SYS_lseek => 0 ≤ (host.lseek.setWidth 32).toInt
  | .SYS_open => sys.mem = true ∧ (UnsupportedFlag call.a1 ∨ 0 ≤ host.openFile.toInt)
  | .SYS_close => IsStandardStream call.a0 ∨ 0 ≤ host.close.toInt
  | .SYS_exit | .SYS_host_error | .SYS_host_test_pass | .SYS_host_test_fail => True

/-- An answer that `write_register` accepts and that is the number it should be, or an exception
that no cast has thrown. -/
def Arrives (value : BitVec 32) : SyscallResult → Prop
  | .returned ans _ => ans = value ∧ 0 ≤ ans.toInt
  | .failed what => what ≠ badLexicalCast
  | .aborted => False

variable {value : BitVec 32} {sys : Emulation} {cond : Bool} {x : SysM (BitVec 32)}
  {host : HostResult}

theorem arrives_returned {ans : BitVec 32} (h : ans = value) :
    Arrives value (resultOf (.ok ans sys)) ↔ 0 ≤ ans.toInt :=
  ⟨fun hans => hans.2, fun hans => ⟨h, hans⟩⟩

theorem toInt_ofNat_nonneg_iff {n : Nat} (h : n < 2 ^ 31) :
    0 ≤ (BitVec.ofInt 32 (n : Int)).toInt := by
  rw [toInt_ofInt_eq_self (by decide) (by omega) (by omega)]
  omega

/-- A number that is cast and comes from an unsigned one. -/
theorem arrives_lexicalCast {n : Nat} (sys : Emulation)
    (h : n < 2 ^ 31 → BitVec.ofNat 32 n = value) :
    Arrives value (resultOf (lexicalCast n sys)) ↔ n < 2 ^ 31 := by
  by_cases hn : n < 2 ^ 31
  · have hcast : lexicalCast n sys = .ok (BitVec.ofInt 32 n) sys := by
      rw [lexicalCast, if_pos ⟨by omega, by omega⟩]
      rfl
    rw [hcast, arrives_returned (by rw [ofInt_natCast, h hn])]
    exact iff_of_true (toInt_ofNat_nonneg_iff hn) hn
  · have hcast : lexicalCast n sys = .error .badLexicalCast sys := by
      rw [lexicalCast, if_neg (by omega)]
      rfl
    rw [hcast]
    exact iff_of_false (fun h => h rfl) hn

theorem require_true (h : cond = true) :
    require cond sys = .ok () sys := by
  rw [h]
  rfl

theorem require_false (h : ¬ cond = true) :
    require cond sys = .error .assertion sys := by
  rw [Bool.eq_false_of_not_eq_true h]
  rfl

/-- What follows an assertion. -/
theorem arrives_require :
    Arrives value (resultOf ((do require cond; x) sys)) ↔
      cond = true ∧ Arrives value (resultOf (x sys)) := by
  by_cases h : cond = true
  · rw [bind_of_ok (require_true h), and_iff_right h]
  · rw [bind_of_error (require_false h)]
    exact iff_of_false (fun hfalse => hfalse) fun hand => h hand.1

/-- What follows the use of guest memory. -/
theorem arrives_guestToHostPointer :
    Arrives value (resultOf ((do guestToHostPointer; x) sys)) ↔
      sys.mem = true ∧ Arrives value (resultOf (x sys)) :=
  arrives_require

theorem arrives_transfer {ans : BitVec 64} :
    Arrives (ans.setWidth 32) (resultOf (transfer ans sys)) ↔
      sys.mem = true ∧ 0 ≤ ans.toInt ∧ 0 ≤ (ans.setWidth 32).toInt := by
  rw [transfer, arrives_guestToHostPointer, arrives_require, decide_eq_true_eq]
  exact and_congr_right fun _ => and_congr_right fun _ => arrives_returned rfl

theorem arrives_sysFstat :
    Arrives host.fstat (resultOf (sysFstat host sys)) ↔
      0 ≤ host.fstat.toInt ∧ (host.fstat = 0 → sys.mem = true) := by
  by_cases h : host.fstat = 0
  · have heq : sysFstat host = (do guestToHostPointer; return host.fstat) := by
      rw [sysFstat, if_pos h]
    rw [heq, arrives_guestToHostPointer]
    exact ⟨fun hand => ⟨hand.2.2, fun _ => hand.1⟩, fun hand => ⟨hand.2 h, rfl, hand.1⟩⟩
  · have heq : sysFstat host sys = .ok host.fstat sys := by
      rw [sysFstat, if_neg h]
      rfl
    rw [heq, arrives_returned rfl]
    exact ⟨fun hans => ⟨hans, fun hzero => absurd hzero h⟩, And.left⟩

/-- Keeping 32 bits of a number is the same for its signed value. -/
theorem ofInt_toInt_eq_setWidth (x : BitVec 64) : BitVec.ofInt 32 x.toInt = x.setWidth 32 := by
  apply eq_of_toNat_eq
  rw [toNat_ofInt, toNat_setWidth, toInt_eq_toNat_cond]
  split <;> omega

theorem arrives_sysTime {tloc : BitVec 32} :
    Arrives (host.time.setWidth 32) (resultOf (sysTime host tloc sys)) ↔
      0 ≤ host.time.toInt ∧ host.time.toInt < 2 ^ 31 ∧ (tloc ≠ 0 → sys.mem = true) := by
  by_cases hrange : -2 ^ 31 ≤ host.time.toInt ∧ host.time.toInt < 2 ^ 31
  · have hcast : lexicalCast host.time.toInt sys = .ok (BitVec.ofInt 32 host.time.toInt) sys := by
      rw [lexicalCast, if_pos hrange]
      rfl
    have htoInt : (BitVec.ofInt 32 host.time.toInt).toInt = host.time.toInt :=
      toInt_ofInt_eq_self (by decide) (by omega) (by omega)
    have hend : Arrives (host.time.setWidth 32)
        (resultOf (lexicalCast (BitVec.ofInt 32 host.time.toInt).toInt sys)) ↔
        0 ≤ host.time.toInt := by
      rw [htoInt, hcast, arrives_returned (ofInt_toInt_eq_setWidth _), htoInt]
    rw [sysTime, bind_of_ok hcast]
    by_cases htloc : tloc = 0
    · rw [if_neg (not_not_intro htloc)]
      exact hend.trans ⟨fun h => ⟨h, hrange.2, fun hne => absurd htloc hne⟩, And.left⟩
    · rw [if_pos htloc]
      exact (arrives_guestToHostPointer.trans (and_congr_right fun _ => hend)).trans
        ⟨fun h => ⟨h.2, hrange.2, fun _ => h.1⟩, fun h => ⟨h.2.2 htloc, h.1⟩⟩
  · have hcast : lexicalCast host.time.toInt sys = .error .badLexicalCast sys := by
      rw [lexicalCast, if_neg hrange]
      rfl
    rw [sysTime, bind_of_error hcast]
    exact iff_of_false (fun h => h rfl) (by omega)

theorem arrives_sysBrk {addr : BitVec 32} :
    Arrives (if addr = 0 then sys.hp.setWidth 32 else addr) (resultOf (sysBrk addr sys)) ↔
      (if addr = 0 then sys.hp.toNat else addr.toNat) < 2 ^ 31 := by
  by_cases h : addr = 0
  · have heq : sysBrk addr sys = lexicalCast sys.hp.toNat sys := by
      rw [sysBrk, if_pos h]
      exact bind_of_ok rfl
    rw [if_pos h, if_pos h, heq]
    exact arrives_lexicalCast sys fun _ => ofNat_toNat 32 sys.hp
  · have heq : sysBrk addr sys = lexicalCast addr.toNat (sys.moveHeap (addr.setWidth 64)) := by
      rw [sysBrk, if_neg h]
      refine (bind_of_ok rfl).trans ?_
      rw [toNat_setWidth_of_le (by decide)]
    rw [if_neg h, if_neg h, heq]
    refine arrives_lexicalCast _ fun _ => ?_
    rw [ofNat_toNat, setWidth_eq]

theorem arrives_sysOpen {flags : BitVec 32} :
    Arrives host.openFile (resultOf (sysOpen host flags sys)) ↔
      sys.mem = true ∧ (UnsupportedFlag flags ∨ 0 ≤ host.openFile.toInt) := by
  rw [sysOpen, arrives_guestToHostPointer]
  refine and_congr_right fun _ => ?_
  by_cases h : UnsupportedFlag flags
  · have heq :
        translateRVFlagsToHost flags sys = .error (.runtimeError "unsupported flag") sys := by
      rw [translateRVFlagsToHost, if_pos h]
      rfl
    rw [bind_of_error heq]
    exact iff_of_true (show "unsupported flag" ≠ badLexicalCast by decide) (.inl h)
  · have heq : translateRVFlagsToHost flags sys = .ok (hostFlags flags) sys := by
      rw [translateRVFlagsToHost, if_neg h]
      rfl
    rw [bind_of_ok heq, or_iff_right h]
    exact arrives_returned rfl

theorem arrives_sysClose {fd : BitVec 32} :
    Arrives (if IsStandardStream fd then 0 else host.close) (resultOf (sysClose host fd sys)) ↔
      IsStandardStream fd ∨ 0 ≤ host.close.toInt := by
  refine (arrives_returned rfl).trans ?_
  by_cases h : IsStandardStream fd
  · rw [if_pos h]
    exact iff_of_true (by decide) (.inl h)
  · rw [if_neg h, or_iff_right h]

/-- The answer of the emulation reaches the guest if and only if the call is deliverable. -/
theorem arrives_execute (sys : Emulation) (host : HostResult) (call : Syscall)
    (number : SyscallNumber) : Arrives (sys.result host call number)
      (resultOf (execute host call number sys)) ↔ sys.Deliverable host call number := by
  cases number with
  | SYS_fstat => exact arrives_sysFstat
  | SYS_gettimeofday =>
    refine arrives_require.trans ?_
    rw [decide_eq_true_eq]
    exact and_congr_right fun _ => arrives_guestToHostPointer.trans
      (and_congr_right fun _ => arrives_returned rfl)
  | SYS_brk => exact arrives_sysBrk
  | SYS_time => exact arrives_sysTime
  | SYS_write | SYS_read => exact arrives_transfer
  | SYS_lseek => exact arrives_returned rfl
  | SYS_open => exact arrives_sysOpen
  | SYS_close => exact arrives_sysClose
  | SYS_host_error => exact iff_of_true (show "SYS_host_error" ≠ badLexicalCast by decide) trivial
  | _ => exact iff_of_true ⟨rfl, by decide⟩ trivial

end Emulation

namespace Iss

open Emulation

/-! ## The registers -/

/-- The system call in the registers. -/
def syscall (s : Iss) : Syscall where
  n := (s.regs s.getSyscallRegisterIndex).value.concrete
  a0 := (s.regs a0).value.concrete
  a1 := (s.regs a1).value.concrete
  a2 := (s.regs a2).value.concrete
  a3 := (s.regs a3).value.concrete

/-- The core has handed the host its call. -/
def called (s : Iss) : Iss :=
  { s with
    io := { s.io with
      log := s.io.log ++ [.concretised ⟨32, (s.regs s.getSyscallRegisterIndex).value⟩]
      ++ [.concretised ⟨32, (s.regs a3).value⟩] ++ [.concretised ⟨32, (s.regs a2).value⟩]
      ++ [.concretised ⟨32, (s.regs a1).value⟩] ++ [.concretised ⟨32, (s.regs a0).value⟩] }
    handler := { s.handler with history := s.handler.history ++ [s.syscall] } }

/-- What the core does with the answer. -/
def takeAnswer : SyscallResult → IssM Unit
  | .failed what => throw (.hostError what)
  | .aborted => throw (.abort .syscall)
  | .returned ans shallExit => do
      writeRegister a0 (ans.signExtend 64)
      if shallExit then control (modify Control.sysExit)

theorem executeSyscall_eq (s : Iss) : executeSyscall s =
    takeAnswer (s.handler.executeSyscall (s.handler.history ++ [s.syscall])) s.called := by
  rfl

/-- The result of the system call in the registers reaches the guest: it is in `a0` and no other
register has changed, unless the call has failed, and then neither an assertion nor a cast has. -/
def ReachesGuest (s : Iss) (value : BitVec 32) : Prop :=
  match executeSyscall s with
  | .ok _ t => (t.regs a0).value = constant value ∧ ∀ r, r ≠ a0 → t.regs r = s.regs r
  | .error e _ => e ≠ .hostError badLexicalCast ∧ ∀ assertion, e ≠ .abort assertion

/-- `write_register` accepts a number that is not negative. -/
theorem toNat_signExtend_lt_iff (ans : BitVec 32) :
    (ans.signExtend 64).toNat < 2 ^ 32 ↔ 0 ≤ ans.toInt := by
  have hmsb : ans.msb = decide (ans.toInt < 0) := msb_eq_toInt
  rw [toNat_signExtend, toNat_setWidth_of_le (by decide), hmsb]
  by_cases h : ans.toInt < 0
  · rw [if_pos (decide_eq_true h)]
    omega
  · rw [if_neg (by simpa using h)]
    omega

theorem setWidth_signExtend (ans : BitVec 32) : (ans.signExtend 64).setWidth 32 = ans := by
  refine eq_of_getLsbD_eq fun i hi => ?_
  rw [getLsbD_setWidth, getLsbD_signExtend, if_pos hi, decide_eq_true hi,
    decide_eq_true (show i < 64 by omega)]
  rfl

theorem takeAnswer_returned {s : Iss} {ans : BitVec 32} (shallExit : Bool) (h : 0 ≤ ans.toInt) :
    ∃ t, takeAnswer (.returned ans shallExit) s = .ok () t ∧
      t.regs = Function.update s.regs a0 ⟨s.nextObject, constant ans⟩ := by
  have hensure : (ensure .registerValue (decide ((ans.signExtend 64).toNat < 2 ^ 32)) :
      IssM Unit) s = .ok () s := by
    rw [decide_eq_true ((toNat_signExtend_lt_iff ans).mpr h)]
    rfl
  have hwrite : writeRegister a0 (ans.signExtend 64) s = .ok () (s.assign a0 (constant ans)) := by
    rw [writeRegister, bind_of_ok hensure, setWidth_signExtend]
    rfl
  cases shallExit with
  | false | true => exact ⟨_, bind_of_ok hwrite, rfl⟩

theorem takeAnswer_of_neg {s : Iss} {ans : BitVec 32} (shallExit : Bool) (h : ¬ 0 ≤ ans.toInt) :
    takeAnswer (.returned ans shallExit) s = .error (.abort .registerValue) s := by
  refine bind_of_error (bind_of_error ?_)
  rw [ensure, decide_eq_false (mt (toNat_signExtend_lt_iff ans).mp h)]
  rfl

theorem reachesGuest_iff_arrives (s : Iss) (value : BitVec 32) : s.ReachesGuest value ↔
    Arrives value (s.handler.executeSyscall (s.handler.history ++ [s.syscall])) := by
  rw [ReachesGuest, executeSyscall_eq]
  cases s.handler.executeSyscall (s.handler.history ++ [s.syscall]) with
  | failed what =>
    change (Exception.hostError what ≠ .hostError badLexicalCast ∧ _) ↔ what ≠ badLexicalCast
    simp
  | aborted => exact iff_of_false (fun h => h.2 _ rfl) id
  | returned ans shallExit =>
    by_cases hans : 0 ≤ ans.toInt
    · obtain ⟨t, ht, hregs⟩ := takeAnswer_returned (s := s.called) shallExit hans
      rw [ht]
      change ((t.regs a0).value = _ ∧ ∀ r, r ≠ a0 → t.regs r = s.regs r) ↔ ans = value ∧ _
      rw [hregs]
      constructor
      · intro h
        have hvalue : constant ans = constant value := by
          simpa using h.1
        exact ⟨congrArg (·.concrete) hvalue, hans⟩
      · rintro ⟨rfl, _⟩
        exact ⟨by simp, fun r hr => by rw [Function.update_of_ne hr]; rfl⟩
    · rw [takeAnswer_of_neg shallExit hans]
      exact iff_of_false (fun h => h.2 _ rfl) fun h => hans h.2

/-- The handler of the core is an emulation that starts in a given state. -/
def Emulates (s : Iss) (host : Nat → HostResult) (sys : Emulation) : Prop :=
  s.handler.executeSyscall = sys.answer host

/-- The result of a system call reaches the guest if and only if the call is deliverable in the
state that the emulation has come to. -/
theorem reachesGuest_iff (s : Iss) (host : Nat → HostResult) (sys : Emulation)
    (number : SyscallNumber) (hemulates : s.Emulates host sys)
    (hnumber : SyscallNumber.find s.syscall.n = some number) :
    let now := sys.after host s.handler.history
    let ans := host s.handler.history.length
    s.ReachesGuest (now.result ans s.syscall number) ↔ now.Deliverable ans s.syscall number := by
  intro now ans
  rw [reachesGuest_iff_arrives, hemulates, answer_concat, Emulation.executeSyscall, hnumber]
  exact arrives_execute now ans s.syscall number

/-- A core with a system call in its registers, on a platform that gives the emulation no pointer to
the memory of the guest. -/
def asking (number : SyscallNumber) (arg : BitVec 32) (host : HostResult) : Iss :=
  { ((boot []).assign a7 (constant number.toBits)).assign a0 (constant arg) with
    sys := true
    handler := { executeSyscall :=
      (⟨false, 0x10000, 0x10000, false⟩ : Emulation).answer fun _ => host } }

/-- The heap may end below the address 2^31. -/
theorem reachesGuest_brk :
    (asking .SYS_brk 0x7fffffff {}).Emulates (fun _ => {}) ⟨false, 0x10000, 0x10000, false⟩ ∧
    SyscallNumber.find (asking .SYS_brk 0x7fffffff {}).syscall.n = some .SYS_brk ∧
    (asking .SYS_brk 0x7fffffff {}).ReachesGuest 0x7fffffff :=
  have hemulates : (asking .SYS_brk 0x7fffffff {}).Emulates (fun _ => {})
      ⟨false, 0x10000, 0x10000, false⟩ := rfl
  have hnumber : SyscallNumber.find (asking .SYS_brk 0x7fffffff {}).syscall.n = some .SYS_brk := by
    decide
  ⟨hemulates, hnumber, (reachesGuest_iff _ _ _ .SYS_brk hemulates hnumber).mpr
    (show 0x7fffffff < 2 ^ 31 by decide)⟩

def refusedClose : Iss := asking .SYS_close 5 { close := -1 }

def highHeap : Iss := asking .SYS_brk 0x80000000 {}

/-- The host cannot close a file: the negative result fails the assertion of `write_register`. And
the heap is to end at the address 2^31: the cast fails. -/
theorem not_reachesGuest :
    (SyscallNumber.find refusedClose.syscall.n = some .SYS_close ∧
      Effect.thrown (executeSyscall refusedClose) = some (.abort .registerValue) ∧
      ¬ refusedClose.ReachesGuest (-1)) ∧
    SyscallNumber.find highHeap.syscall.n = some .SYS_brk ∧
      Effect.thrown (executeSyscall highHeap) = some (.hostError badLexicalCast) ∧
      ¬ highHeap.ReachesGuest 0x80000000 := by
  refine ⟨⟨by decide, by decide +kernel, fun h => ?_⟩, by decide, by decide +kernel, fun h => ?_⟩
  · exact absurd ((reachesGuest_iff_arrives _ _).mp h).2 (by decide +kernel)
  · exact (reachesGuest_iff_arrives _ _).mp h rfl

end Iss

end SpsVp.Rv32
