import Mathlib.Data.List.Forall2
import SpsVp.Platform.Bus

/-!
# Targets that call back

While a device serves an access it may ask the core to write symbolic bytes to the memory or to
execute a system call. A device keeps the history of the accesses made to it, so the bus itself
tells whether some device has called back since an earlier state of the bus. Transactions only ever
append to these histories (`grows_transport`), so a call back is never forgotten
(`CalledBack.trans`). `Silent` is for devices that ask for a store only when they are written, as
`SymbolicCTRL` does. -/

namespace SpsVp.Platform

/-- A request that changes the registers or the memory. -/
def Request.isCallback : Request → Bool
  | .makeSymbolic _ _ _ | .syscall => true
  | .interrupt _ _ | .exit | .processedPacket => false

def Response.callsBack : Response → Bool
  | .served _ requests => requests.any Request.isCallback
  | .addressError | .hostError => false

/-- A device has called back since an earlier state of it. -/
def Device.CalledBack (d d' : Device) : Prop :=
  ∃ accesses, accesses ≠ [] ∧ d.history ++ accesses <+: d'.history ∧
    (d.respond (d.history ++ accesses)).callsBack = true

namespace Target

/-- What accesses make of a target. -/
def Grows : Target → Target → Prop
  | .memory m, .memory m' => m'.size = m.size
  | .device d, .device d' => d'.respond = d.respond ∧ d.history <+: d'.history
  | _, _ => False

def CalledBack : Target → Target → Prop
  | .device d, .device d' => d.CalledBack d'
  | _, _ => False

theorem Grows.refl (t : Target) : Grows t t := by
  cases t with
  | memory m => exact rfl
  | device d => exact ⟨rfl, List.prefix_refl _⟩

variable {t u v : Target}

theorem Grows.trans (h : Grows t u) (h' : Grows u v) : Grows t v := by
  cases t <;> cases u <;> cases v <;> simp only [Grows] at h h' ⊢
  · exact h'.trans h
  · exact ⟨h'.1.trans h.1, h.2.trans h'.2⟩

theorem CalledBack.trans (h : CalledBack t u) (h' : Grows u v) : CalledBack t v := by
  cases t <;> cases u <;> cases v <;> simp only [CalledBack, Grows] at h h' ⊢
  obtain ⟨accesses, hne, hprefix, hcalls⟩ := h
  exact ⟨accesses, hne, hprefix.trans h'.2, hcalls⟩

theorem CalledBack.of_grows (h : Grows t u) (h' : CalledBack u v) :
    CalledBack t v := by
  cases t <;> cases u <;> cases v <;> simp only [CalledBack, Grows] at h h' ⊢
  obtain ⟨hrespond, before, hbefore⟩ := h
  obtain ⟨accesses, hne, hprefix, hcalls⟩ := h'
  rw [hrespond, ← hbefore, List.append_assoc] at hcalls
  rw [← hbefore, List.append_assoc] at hprefix
  exact ⟨before ++ accesses, fun h => hne (List.append_eq_nil_iff.mp h).2, hprefix, hcalls⟩

theorem grows_transport (t : Target) (payload : Payload) : Grows t (t.transport payload).2 := by
  cases t with
  | memory m =>
    change (m.transport payload).2.size = m.size
    unfold SymbolicMemory.transport
    split
    · rfl
    · split <;> rfl
  | device d => exact ⟨rfl, List.prefix_append _ _⟩

/-- A target that asks for something has called back. -/
theorem calledBack_of_requests {payload : Payload}
    (h : (t.transport payload).1.requests.any Request.isCallback = true) :
    CalledBack t (t.transport payload).2 := by
  cases t with
  | memory m => cases h
  | device d =>
    refine ⟨[⟨payload.command, payload.address, payload.data, payload.length⟩],
      List.cons_ne_nil _ _, List.prefix_refl _, ?_⟩
    change (d.transport payload).1.requests.any Request.isCallback = true at h
    unfold Device.transport at h
    dsimp only at h
    cases hrespond : d.respond (d.history ++
        [⟨payload.command, payload.address, payload.data, payload.length⟩]) with
    | served answer requests =>
      rw [hrespond] at h
      exact h
    | addressError =>
      rw [hrespond] at h
      cases h
    | hostError =>
      rw [hrespond] at h
      cases h

end Target

namespace SimpleBus

/-- What transactions make of a bus. -/
def Grows (bus bus' : SimpleBus) : Prop :=
  List.Forall₂ (fun p p' => p.1 = p'.1 ∧ p.2.Grows p'.2) bus bus'

/-- Some target has called back since an earlier state of the bus. -/
def CalledBack (bus bus' : SimpleBus) : Prop := ∃ p ∈ bus.zip bus', p.1.2.CalledBack p.2.2

theorem Grows.refl (bus : SimpleBus) : Grows bus bus :=
  List.forall₂_same.mpr fun p _ => ⟨rfl, .refl p.2⟩

variable {bus bus' bus'' : SimpleBus}

theorem Grows.trans (h : Grows bus bus') (h' : Grows bus' bus'') :
    Grows bus bus'' := by
  induction h generalizing bus'' with
  | nil => exact h'
  | cons hp _ ih =>
    cases h' with
    | cons hp' h' => exact .cons ⟨hp.1.trans hp'.1, hp.2.trans hp'.2⟩ (ih h')

theorem CalledBack.trans (h : CalledBack bus bus')
    (h' : Grows bus' bus'') : CalledBack bus bus'' := by
  induction h' generalizing bus with
  | nil => exact h
  | cons hp _ ih =>
    cases bus with
    | nil =>
      obtain ⟨_, hmem, _⟩ := h
      cases hmem
    | cons p bus =>
      obtain ⟨q, hmem, hq⟩ := h
      obtain rfl | hmem := List.mem_cons.mp hmem
      · exact ⟨_, List.mem_cons_self, hq.trans hp.2⟩
      · obtain ⟨q', hmem', hq'⟩ := ih ⟨q, hmem, hq⟩
        exact ⟨q', List.mem_cons_of_mem _ hmem', hq'⟩

theorem CalledBack.of_grows (h : Grows bus bus')
    (h' : CalledBack bus' bus'') : CalledBack bus bus'' := by
  induction h generalizing bus'' with
  | nil => exact h'
  | cons hp _ ih =>
    cases bus'' with
    | nil =>
      obtain ⟨_, hmem, _⟩ := h'
      cases hmem
    | cons p bus'' =>
      obtain ⟨q, hmem, hq⟩ := h'
      obtain rfl | hmem := List.mem_cons.mp hmem
      · exact ⟨_, List.mem_cons_self, .of_grows hp.2 hq⟩
      · obtain ⟨q', hmem', hq'⟩ := ih ⟨q, hmem, hq⟩
        exact ⟨q', List.mem_cons_of_mem _ hmem', hq'⟩

theorem grows_transport (bus : SimpleBus) (payload : Payload) :
    Grows bus (bus.transport payload).2 := by
  induction bus with
  | nil => exact .nil
  | cons p bus ih =>
    obtain ⟨port, target⟩ := p
    rw [transport]
    split_ifs
    · exact .cons ⟨rfl, target.grows_transport _⟩ (Grows.refl bus)
    · exact .cons ⟨rfl, .refl target⟩ ih

theorem calledBack_of_requests {payload : Payload}
    (h : (bus.transport payload).1.requests.any Request.isCallback = true) :
    CalledBack bus (bus.transport payload).2 := by
  induction bus with
  | nil => cases h
  | cons p bus ih =>
    obtain ⟨port, target⟩ := p
    rw [transport] at h ⊢
    split_ifs at h ⊢
    · exact ⟨_, List.mem_cons_self, Target.calledBack_of_requests h⟩
    · obtain ⟨q, hmem, hq⟩ := ih h
      exact ⟨q, List.mem_cons_of_mem _ hmem, hq⟩

end SimpleBus

/-! ## Reads -/

/-- A request to store. -/
def Request.isStore : Request → Bool
  | .makeSymbolic _ _ _ => true
  | .interrupt _ _ | .syscall | .exit | .processedPacket => false

/-- A device does not ask for a store while it is read. -/
def Device.Silent (d : Device) : Prop :=
  ∀ history access answer requests, access.command = .read →
    d.respond (history ++ [access]) = .served answer requests →
    ∀ request ∈ requests, request.isStore = false

namespace Target

def Silent : Target → Prop
  | .memory _ => True
  | .device d => d.Silent

theorem Silent.of_grows {t t' : Target} (h : Silent t) (hgrows : Grows t t') : Silent t' := by
  cases t <;> cases t' <;> simp only [Silent, Grows] at h hgrows ⊢
  unfold Device.Silent
  rwa [hgrows.1]

theorem Silent.requests {t : Target} {payload : Payload} (h : Silent t)
    (hread : payload.command = .read) :
    ∀ request ∈ (t.transport payload).1.requests, request.isStore = false := by
  cases t with
  | memory m => exact nofun
  | device d =>
    change ∀ request ∈ (d.transport payload).1.requests, request.isStore = false
    unfold Device.transport
    dsimp only
    split
    · next answer requests hrespond => exact h _ _ answer requests hread hrespond
    · exact nofun
    · exact nofun

end Target

namespace SimpleBus

/-- No target asks for a store while it is read. -/
def Silent (bus : SimpleBus) : Prop := ∀ p ∈ bus, p.2.Silent

theorem Silent.of_grows {bus bus' : SimpleBus} (h : Silent bus) (hgrows : Grows bus bus') :
    Silent bus' := by
  induction hgrows with
  | nil => exact h
  | cons hp _ ih =>
    have htail := ih fun p hmem => h p (List.mem_cons_of_mem _ hmem)
    intro p hmem
    obtain rfl | hmem := List.mem_cons.mp hmem
    · exact (h _ List.mem_cons_self).of_grows hp.2
    · exact htail p hmem

theorem Silent.requests {bus : SimpleBus} {payload : Payload} (h : Silent bus)
    (hread : payload.command = .read) :
    ∀ request ∈ (bus.transport payload).1.requests, request.isStore = false := by
  induction bus with
  | nil => exact nofun
  | cons p bus ih =>
    obtain ⟨port, target⟩ := p
    rw [transport]
    split_ifs
    · exact (h _ List.mem_cons_self : target.Silent).requests hread
    · exact ih fun q hmem => h q (List.mem_cons_of_mem _ hmem)

end SimpleBus

end SpsVp.Platform
