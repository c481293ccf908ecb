import SpsVp.Clover.TestCase
import SpsVp.Symex.Message

/-!
# Dumped test cases

`dump_input` of `symex/symbolic_explore.cpp` writes the store of a run to a file, and `run_test`
reads it back. The variables of a message are named after its fields, whose names the server
chooses. -/

namespace SpsVp.Symex

open Lib Clover Klee TestCase ExecutionContext

/-- A field of one byte whose name has a carriage return, or a line feed. -/
def brokenField (c : Char) : Field := ⟨String.ofList ['a', c, 'b'], 8#64, []⟩

/-- The store of a run with that field. -/
def brokenStore (c : Char) : Entries where
  entries := [(byteName (fieldName 0 (brokenField c).name) 0, .uint8 0)]
  nodup := List.nodup_singleton _

theorem getPrevStore_brokenField {c : Char} (hc : c = '\r' ∨ c = '\n') : ∃ f t,
    SymbolicFormat.construct .plain noParser (.list [(brokenField c).data]) firstMessage = .ok f t ∧
      t.context.ctx.getPrevStore = (brokenStore c).store := by
  have hconstruct : ∃ f t,
      SymbolicFormat.construct .plain noParser (.list [(brokenField c).data]) firstMessage =
        .ok f t ∧ t.context.ctx.getPrevStore = Function.update (fun _ => none)
          (byteName (fieldName 0 (brokenField c).name) 0) (some (.uint8 0)) := by
    obtain rfl | rfl := hc
    · exact ⟨_, _, rfl, rfl⟩
    · exact ⟨_, _, rfl, rfl⟩
  obtain ⟨f, t, hok, hstore⟩ := hconstruct
  refine ⟨f, t, hok, ?_⟩
  rw [hstore]
  funext name
  change Function.update (fun _ => none) (byteName (fieldName 0 (brokenField c).name) 0)
    (some (IntValue.uint8 0)) name = List.lookup name [(_, _)]
  rw [List.lookup_cons, Function.update_apply]
  by_cases h : name = byteName (fieldName 0 (brokenField c).name) 0
  · rw [if_pos h, beq_iff_eq.mpr h]
  · rw [if_neg h, beq_false_of_ne h]
    rfl

/-- A carriage return in the name of a field makes the variable another one, and after a line feed
the file is not accepted. -/
theorem renamed_variable : (∃ f t,
      SymbolicFormat.construct .plain noParser (.list [(brokenField '\r').data]) firstMessage =
        .ok f t ∧ t.context.ctx.getPrevStore = (brokenStore '\r').store) ∧
    fromFile "test" (toFile (brokenStore '\r')) =
      .ok (Function.update (fun _ => none) "b:byte0" (some (.uint8 0))) ∧
    fromFile "test" (toFile (brokenStore '\r')) ≠ .ok (brokenStore '\r').store ∧
    (∃ f t,
      SymbolicFormat.construct .plain noParser (.list [(brokenField '\n').data]) firstMessage =
        .ok f t ∧ t.context.ctx.getPrevStore = (brokenStore '\n').store) ∧
    fromFile "test" (toFile (brokenStore '\n')) = .error ⟨"test", 1, "invalid assignment"⟩ := by
  have hlines : getLines (toFile (brokenStore '\r')) = (brokenStore '\r').entries.map line := by
    decide +kernel
  have hparse : parseAssign (line (byteName (fieldName 0 (brokenField '\r').name) 0, .uint8 0)) =
      some ("b:byte0", .uint8 0) := by decide +kernel
  have hread : fromFile "test" (toFile (brokenStore '\r')) =
      .ok (Function.update (fun _ => none) "b:byte0" (some (.uint8 0))) := by
    rw [fromFile, hlines, brokenStore, List.map_singleton, readLines, hparse]
    rfl
  refine ⟨getPrevStore_brokenField (.inl rfl), hread, fun h => ?_,
    getPrevStore_brokenField (.inr rfl), ?_⟩
  · have hreadable := readable_of_readLines h (fun _ hnone => absurd rfl hnone) _
      (lookup_ne_none (List.mem_singleton_self _))
    exact absurd hreadable (by decide +kernel)
  · have hlines' : getLines (toFile (brokenStore '\n')) =
        ["pkt0:a".toList, "b:byte0\tuint8_t\t0".toList] := by decide +kernel
    have hparse' : parseAssign "pkt0:a".toList = none := by decide +kernel
    rw [fromFile, hlines', readLines, hparse']

end SpsVp.Symex
