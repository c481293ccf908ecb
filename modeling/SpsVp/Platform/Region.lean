import SpsVp.Platform.Memory

/-!
# The target of an address

`SimpleBus.transport` goes through the ports one by one. `find` is the target that it comes to, and
the lemmas here say what a transaction does in these terms: what it returns, and which target the
bus has for every address after it.
-/

namespace SpsVp.Platform

/-- A transaction as the target behind a port sees it. -/
def Payload.behind (payload : Payload) (port : PortMapping) : Payload :=
  { payload with address := port.globalToLocal payload.address }

namespace SimpleBus

variable {bus : SimpleBus} {payload : Payload} {port port' : PortMapping} {target target' : Target}
  {addr : BitVec 64}

/-- The first port that contains an address, and the target behind it. -/
def find (bus : SimpleBus) (addr : BitVec 64) : Option (PortMapping × Target) :=
  List.find? (fun p => p.1.contains addr) bus

theorem find_cons_of_contains (h : port.contains addr = true) :
    find ((port, target) :: bus) addr = some (port, target) :=
  List.find?_cons_of_pos h

theorem find_cons_of_not_contains (h : ¬ port.contains addr = true) :
    find ((port, target) :: bus) addr = find bus addr :=
  List.find?_cons_of_neg h

theorem contains_of_find (h : bus.find addr = some (port, target)) : port.contains addr = true := by
  have hcontains := List.find?_some h
  exact hcontains

theorem transport_of_find_eq_none (h : bus.find payload.address = none) :
    bus.transport payload = ({ payload := { payload with isResponseError := true } }, bus) := by
  induction bus with
  | nil => rfl
  | cons p bus ih =>
    obtain ⟨port, target⟩ := p
    by_cases hport : port.contains payload.address = true
    · rw [find_cons_of_contains hport] at h
      cases h
    · rw [find_cons_of_not_contains hport] at h
      rw [transport, if_neg hport, ih h]

/-- What a transaction returns. -/
theorem transport_of_find (h : bus.find payload.address = some (port, target)) :
    (bus.transport payload).1 = (target.transport (payload.behind port)).1 := by
  induction bus with
  | nil => cases h
  | cons p bus ih =>
    obtain ⟨port', target'⟩ := p
    rw [transport]
    by_cases hport : port'.contains payload.address = true
    · rw [find_cons_of_contains hport] at h
      cases h
      rw [if_pos hport]
      rfl
    · rw [find_cons_of_not_contains hport] at h
      rw [if_neg hport]
      exact ih h

/-- The targets after a transaction: the one that has served it has changed. -/
theorem find_transport (h : bus.find payload.address = some (port, target)) (addr : BitVec 64) :
    (bus.transport payload).2.find addr = (bus.find addr).map fun p =>
      if p.1 = port then (port, (target.transport (payload.behind port)).2) else p := by
  induction bus with
  | nil => cases h
  | cons p bus ih =>
    obtain ⟨port', target'⟩ := p
    rw [transport]
    by_cases hport : port'.contains payload.address = true
    · rw [find_cons_of_contains hport] at h
      cases h
      rw [if_pos hport]
      by_cases haddr : port.contains addr = true
      · rw [find_cons_of_contains haddr, find_cons_of_contains haddr]
        exact congrArg some (if_pos rfl).symm
      · rw [find_cons_of_not_contains haddr, find_cons_of_not_contains haddr]
        cases hfind : find bus addr with
        | none => rfl
        | some p =>
          -- no other port is the same, since this one does not have the address
          have hne : p.1 ≠ port := fun heq => haddr (heq ▸ contains_of_find hfind)
          exact congrArg some (if_neg hne).symm
    · have hne : port' ≠ port := by
        rw [find_cons_of_not_contains hport] at h
        exact fun heq => hport (heq ▸ contains_of_find h)
      rw [find_cons_of_not_contains hport] at h
      rw [if_neg hport]
      by_cases haddr : port'.contains addr = true
      · rw [find_cons_of_contains haddr, find_cons_of_contains haddr]
        exact congrArg some (if_neg hne).symm
      · rw [find_cons_of_not_contains haddr, find_cons_of_not_contains haddr]
        exact ih h

/-- There is one target behind a port. -/
theorem target_of_find {addr' : BitVec 64} (h : bus.find addr = some (port, target))
    (h' : bus.find addr' = some (port, target')) : target = target' := by
  induction bus with
  | nil => cases h
  | cons p bus ih =>
    obtain ⟨port₀, target₀⟩ := p
    by_cases hport : port₀ = port
    · subst hport
      rw [find_cons_of_contains (contains_of_find h)] at h
      rw [find_cons_of_contains (contains_of_find h')] at h'
      cases h
      cases h'
      rfl
    · have hne : ∀ {addr target}, find ((port₀, target₀) :: bus) addr = some (port, target) →
          find bus addr = some (port, target) := by
        intro addr target hfind
        by_cases hcontains : port₀.contains addr = true
        · rw [find_cons_of_contains hcontains] at hfind
          cases hfind
          exact absurd rfl hport
        · rwa [find_cons_of_not_contains hcontains] at hfind
      exact ih (hne h) (hne h')

/-- A memory is still there after a transaction. -/
theorem memory_transport {m : SymbolicMemory} (payload : Payload)
    (h : bus.find addr = some (port, .memory m)) :
    ∃ m', (bus.transport payload).2.find addr = some (port, .memory m') ∧ m'.size = m.size := by
  cases hfind : bus.find payload.address with
  | none =>
    rw [transport_of_find_eq_none hfind]
    exact ⟨m, h, rfl⟩
  | some p =>
    obtain ⟨port', target⟩ := p
    rw [find_transport hfind, h]
    by_cases hport : port = port'
    · subst hport
      cases target_of_find h hfind
      exact ⟨_, congrArg some (if_pos rfl), SymbolicMemory.size_transport m _⟩
    · exact ⟨m, congrArg some (if_neg hport), rfl⟩

/-- A transaction that leaves its target alone leaves the bus alone. -/
theorem transport_of_unchanged (h : bus.find payload.address = some (port, target))
    (hsame : (target.transport (payload.behind port)).2 = target) :
    (bus.transport payload).2 = bus := by
  induction bus with
  | nil => cases h
  | cons p bus ih =>
    obtain ⟨port', target'⟩ := p
    rw [transport]
    by_cases hport : port'.contains payload.address = true
    · rw [find_cons_of_contains hport] at h
      cases h
      rw [if_pos hport]
      exact congrArg (fun t => (port, t) :: bus) hsame
    · rw [find_cons_of_not_contains hport] at h
      rw [if_neg hport]
      exact congrArg ((port', target') :: ·) (ih h)

end SimpleBus

end SpsVp.Platform
