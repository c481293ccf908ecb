import SpsVp.Rv32.Decode
import SpsVp.Rv32.MemoryInterface

/-!
# RV32IM as specified

What the RISC-V manual specifies for the computational instructions and the conditional branches of
the base set and for the multiplications and divisions of the `M` extension, over the values of the
operands. Nothing here is taken from the simulator. High halves of products, quotients and
remainders are those of integers, and a shift amount is a number below 32.
-/

namespace SpsVp.Rv32.Specification

/-! ## Immediates -/

def immI (word : BitVec 32) : BitVec 32 := (word.extractLsb' 20 12).signExtend 32

def immU (word : BitVec 32) : BitVec 32 := word.extractLsb' 12 20 ++ 0#12

def immB (word : BitVec 32) : BitVec 32 :=
  (word.extractLsb' 31 1 ++ word.extractLsb' 7 1 ++ word.extractLsb' 25 6 ++
    word.extractLsb' 8 4 ++ 0#1).signExtend 32

/-- The shift amount in the word of a shift by an immediate. -/
def immShamt (word : BitVec 32) : Nat := (word.extractLsb' 20 5).toNat

/-- The length of the instruction that begins with a word, in bytes. -/
def length (word : BitVec 32) : BitVec 32 := if word.extractLsb' 0 2 = 3#2 then 4 else 2

/-! ## Operations -/

section

variable (x y : BitVec 32)

def sll (amount : Nat) : BitVec 32 := BitVec.ofNat 32 (x.toNat * 2 ^ amount)
def srl (amount : Nat) : BitVec 32 := BitVec.ofNat 32 (x.toNat / 2 ^ amount)
def sra (amount : Nat) : BitVec 32 := BitVec.ofInt 32 (x.toInt / 2 ^ amount)
def slt : BitVec 32 := if x.toInt < y.toInt then 1 else 0
def sltu : BitVec 32 := if x.toNat < y.toNat then 1 else 0

def mul : BitVec 32 := BitVec.ofInt 32 (x.toInt * y.toInt)
def mulh : BitVec 32 := BitVec.ofInt 32 (x.toInt * y.toInt / 2 ^ 32)
def mulhsu : BitVec 32 := BitVec.ofInt 32 (x.toInt * y.toNat / 2 ^ 32)
def mulhu : BitVec 32 := BitVec.ofNat 32 (x.toNat * y.toNat / 2 ^ 32)

/-- The quotient of a signed division is not representable. -/
def Overflow : Prop := x.toInt = -2 ^ 31 ∧ y.toInt = -1

instance : Decidable (Overflow x y) := inferInstanceAs (Decidable (_ ∧ _))

def div : BitVec 32 :=
  if y.toInt = 0 then -1
  else if Overflow x y then x
  else BitVec.ofInt 32 (x.toInt.tdiv y.toInt)

def divu : BitVec 32 := if y.toNat = 0 then -1 else BitVec.ofNat 32 (x.toNat / y.toNat)

def rem : BitVec 32 :=
  if y.toInt = 0 then x
  else if Overflow x y then 0
  else BitVec.ofInt 32 (x.toInt.tmod y.toInt)

def remu : BitVec 32 := if y.toNat = 0 then x else BitVec.ofNat 32 (x.toNat % y.toNat)

end

/-! ## Instructions -/

def branches : List Mapping := [.BEQ, .BNE, .BLT, .BGE, .BLTU, .BGEU]

def extensionM : List Mapping := [.MUL, .MULH, .MULHSU, .MULHU, .DIV, .DIVU, .REM, .REMU]

def upperImmediates : List Mapping := [.LUI, .AUIPC]

def registerImmediates : List Mapping := [.ADDI, .SLTI, .SLTIU, .XORI, .ORI, .ANDI]

def shiftImmediates : List Mapping := [.SLLI, .SRLI, .SRAI]

def registerRegisters : List Mapping :=
  [.ADD, .SUB, .SLT, .SLTU, .XOR, .OR, .AND, .SLL, .SRL, .SRA]

/-- The computational instructions and the conditional branches of RV32I, and RV32M. -/
def instructions : List Mapping :=
  upperImmediates ++ registerImmediates ++ shiftImmediates ++ registerRegisters ++ extensionM ++
    branches

/-- The value for `rd` of the instruction in a word at an address, with the values of `rs1` and
`rs2`. -/
def result (op : Mapping) (word pc x y : BitVec 32) : Option (BitVec 32) :=
  match op with
  | .LUI => some (immU word)
  | .AUIPC => some (pc + immU word)
  | .ADDI => some (x + immI word)
  | .SLTI => some (slt x (immI word))
  | .SLTIU => some (sltu x (immI word))
  | .XORI => some (x ^^^ immI word)
  | .ORI => some (x ||| immI word)
  | .ANDI => some (x &&& immI word)
  | .SLLI => some (sll x (immShamt word))
  | .SRLI => some (srl x (immShamt word))
  | .SRAI => some (sra x (immShamt word))
  | .ADD => some (x + y)
  | .SUB => some (x - y)
  | .SLL => some (sll x (y.toNat % 32))
  | .SLT => some (slt x y)
  | .SLTU => some (sltu x y)
  | .XOR => some (x ^^^ y)
  | .SRL => some (srl x (y.toNat % 32))
  | .SRA => some (sra x (y.toNat % 32))
  | .OR => some (x ||| y)
  | .AND => some (x &&& y)
  | .MUL => some (mul x y)
  | .MULH => some (mulh x y)
  | .MULHSU => some (mulhsu x y)
  | .MULHU => some (mulhu x y)
  | .DIV => some (div x y)
  | .DIVU => some (divu x y)
  | .REM => some (rem x y)
  | .REMU => some (remu x y)
  | _ => none

/-- A conditional branch is taken. -/
def taken (op : Mapping) (x y : BitVec 32) : Bool :=
  match op with
  | .BEQ => x = y
  | .BNE => x ≠ y
  | .BLT => x.toInt < y.toInt
  | .BGE => y.toInt ≤ x.toInt
  | .BLTU => x.toNat < y.toNat
  | .BGEU => y.toNat ≤ x.toNat
  | _ => false

/-- The address of the next instruction, where `next` is the one after this instruction. -/
def nextPc (op : Mapping) (word pc next x y : BitVec 32) : BitVec 32 :=
  if taken op x y then pc + immB word else next

/-- The exception that an instruction raises: the `M` extension is missing, or a branch is taken to
an address that is not aligned to four bytes while there are no compressed instructions. -/
def exception (op : Mapping) (word pc x y : BitVec 32) (extC extM : Bool) :
    Option (ExceptionCode × BitVec 64) :=
  if op ∈ extensionM ∧ !extM then some (.EXC_ILLEGAL_INSTR, word.setWidth 64)
  else if taken op x y ∧ (pc + immB word).toNat % 4 ≠ 0 ∧ !extC then
    some (.EXC_INSTR_ADDR_MISALIGNED, (pc + immB word).setWidth 64)
  else none

end SpsVp.Rv32.Specification
