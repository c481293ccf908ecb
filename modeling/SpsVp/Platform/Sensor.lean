import SpsVp.Platform.RegisterMap

/-!
# The symbolic sensor

`SymbolicSensor` of `platform/symex/symex_sensor.cpp`: a read returns a fresh symbolic value between
two bounds that the guest has set.
-/

namespace SpsVp.Platform

open Clover Klee

/-- `SymbolicSensor`, with the execution context that its variables come from. -/
structure Sensor where
  lowerBound : BitVec 32 := 0#32
  upperBound : BitVec 32 := 0#32
  nread : Nat := 0
  ctx : ExecutionContext
  rng : Rand

namespace Sensor

/-- The value of a read, made of a symbolic word. -/
def bounded (s : Sensor) (sval : ConcolicValue 32) : ConcolicValue 32 :=
  (sval.urem ⟨s.upperBound - s.lowerBound, none⟩).add ⟨s.lowerBound, none⟩

def read (s : Sensor) : Response × Sensor :=
  match s.ctx.getSymbolicWord ("SymbolicSensorValue" ++ toString s.nread) s.rng with
  | none => (.hostError, { s with nread := s.nread + 1 })
  | some (sval, ctx, rng) =>
    let sval := s.bounded sval
    (.served (.extended (sval.toBytes 4) ⟨32, sval⟩) [], { s with nread := s.nread + 1, ctx, rng })

/-- The write of a register, as `addr2register` finds it. -/
def write (s : Sensor) (access : Access) : Response × Sensor :=
  let value := mergeBytes 0#32 0 (access.data.take 4)
  if access.address = 0x0#64 then (.served .none [], { s with lowerBound := value })
  else if access.address = 0x4#64 then (.served .none [], { s with upperBound := value })
  else (.addressError, s)

def transport (s : Sensor) (access : Access) : Response × Sensor :=
  if access.length ≠ 4 then (.addressError, s)
  else match access.command with
    | .read =>
      if access.address ≠ 0x8#64 ∨ s.upperBound ≤ s.lowerBound then (.addressError, s) else s.read
    | .write => s.write access

end Sensor

end SpsVp.Platform
