import SpsVp.Rv32.Legality

/-!
# What no program changes

The bits of a control and status register that no write can reach keep their value, whatever program
runs and whatever interrupts arrive.
-/

namespace SpsVp.Rv32

open Lib Control

namespace Control

/-- The registers that the core writes itself, and those that are written as a whole. -/
def unmasked (csr : Csr) : Prop :=
  csr ∈ .mstatus :: .mepc :: .sepc :: .uepc :: .fcsr :: volatile ∨ isProtection csr = true

/-- No write to a control and status register reaches the bit. -/
def Unimplemented (csr : Csr) (i : Nat) : Prop :=
  ¬ unmasked csr ∧ ∀ row ∈ writtenRegisters, row.2.1 = csr → row.2.2.getLsbD i = false

variable {c : Control} {addr : BitVec 12} {value : BitVec 32} {t : CsrTable} {csr : Csr} {i : Nat}

theorem Writes.unimplemented (h : Writes c addr value t) (hcsr : Unimplemented csr i) :
    (t csr).getLsbD i = (c.csrs csr).getLsbD i := by
  obtain ⟨hmasked, hrows⟩ := hcsr
  obtain h | ⟨mask, hrow, h⟩ | ⟨hrow, _⟩ | rfl | hprotection := h.register csr
  · rw [h]
  · rw [h, CsrTable.setMasked_same]
    simp only [BitVec.getLsbD_or, BitVec.getLsbD_and, BitVec.getLsbD_not, hrows _ hrow rfl,
      Bool.not_false, Bool.and_true, Bool.and_false, Bool.or_false]
    cases hbit : (c.csrs csr).getLsbD i with
    | false => rfl
    | true => simp [BitVec.lt_of_getLsbD hbit]
  · refine absurd (.inl ?_) hmasked
    simp only [epcRegisters, List.mem_cons, Prod.mk.injEq, List.not_mem_nil, or_false] at hrow
    obtain ⟨_, rfl⟩ | ⟨_, rfl⟩ | ⟨_, rfl⟩ := hrow <;> decide
  · exact absurd (.inl (by decide)) hmasked
  · exact absurd (.inr hprotection) hmasked

theorem inductive_unimplemented (t₀ : CsrTable) : Inductive (fun _ _ => True) fun c =>
    ∀ csr i, Unimplemented csr i → (c.csrs csr).getLsbD i = (t₀ csr).getLsbD i where
  agrees := by
    intro c c' h hc csr i hcsr
    rw [h.csrs csr fun hvolatile => hcsr.1 (.inl (by simp [hvolatile])), hc csr i hcsr]
  setPc := fun _ hc => hc
  write := by
    intro c addr value t _ _ h hc csr i hcsr
    exact (h.unimplemented hcsr).trans (hc csr i hcsr)
  mret := by
    intro c hc csr i hcsr
    have hstatus : csr ≠ .mstatus := fun h => hcsr.1 (.inl (by simp [h]))
    rw [← hc csr i hcsr]
    exact congrArg (·.getLsbD i) (returned_csrs_of_ne hstatus)
  enter := by
    intro c mode hmode hc csr i hcsr
    have hstatus : csr ≠ .mstatus := fun h => hcsr.1 (.inl (by simp [h]))
    have hepc : csr ≠ epcRegister mode := by
      rintro rfl
      refine hcsr.1 (.inl ?_)
      unfold epcRegister
      split_ifs <;> decide
    rw [enter_csrs_of_ne hmode hstatus hepc, hc csr i hcsr]

end Control

namespace Iss

variable {s s' : Iss} {n : Nat}

/-- A bit that no write reaches is the same in every state of a run. -/
theorem unimplemented_of_run (hrun : runSteps step n s = some s') {csr : Csr} {i : Nat}
    (hcsr : Unimplemented csr i) : (s'.csrs csr).getLsbD i = (s.csrs csr).getLsbD i :=
  keeps_run (inductive_unimplemented s.csrs) (fun _ _ _ => rfl) hrun
    (fun _ _ _ _ _ _ _ _ _ _ => trivial) csr i hcsr

/-- The instruction `csrrwi x0, misa, 0` runs, and the core still has multiplications. -/
theorem unimplemented_misa : ∃ s', runSteps step 1 (boot [0x30105073#32]) = some s' ∧
    (s'.csrs .misa).getLsbD 12 = true := by
  have hreturns : (runSteps step 1 (boot [0x30105073#32])).isSome = true := by decide +kernel
  obtain ⟨s', hs'⟩ := Option.isSome_iff_exists.mp hreturns
  refine ⟨s', hs', (unimplemented_of_run hs' ⟨?_, by decide⟩).trans (by decide)⟩
  rintro (h | h)
  · revert h
    decide
  · cases h

end Iss

end SpsVp.Rv32
