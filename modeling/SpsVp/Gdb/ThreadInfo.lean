import Mathlib.Data.BitVec
import SpsVp.Rv32.Control

/-!
# The thread list of the GDB stub

`GDBServer::threadInfo` answers `qfThreadInfo` with the threads that have not terminated. It writes
the numbers in base ten, where the protocol has base sixteen, and a comma after each hart but the
last one of all, terminated or not. `threadInfo_eq_iff` says when the answer is well formed
nevertheless. -/

namespace SpsVp.Gdb

open Rv32 (CoreExecStatus)

/-- What the stub sees of a hart: `get_hart_id` and `get_status` of `debug_target_if`. -/
structure Target where
  id : BitVec 64
  status : CoreExecStatus
deriving DecidableEq

namespace Target

/-- `std::to_string(hart->get_hart_id() + 1)`. -/
def decimalId (t : Target) : List Char := Nat.toDigits 10 (t.id + 1).toNat

/-- The thread as the protocol writes it. -/
def threadId (t : Target) : List Char := Nat.toDigits 16 (t.id.toNat + 1)

def live (t : Target) : Bool := t.status ≠ .Terminated

end Target

/-- The loop of `threadInfo`. -/
def threadList : List Target → List Char
  | [] => []
  | hart :: harts =>
    (if hart.status = .Terminated then []
      else hart.decimalId ++ if 0 < harts.length then [','] else []) ++ threadList harts

def threadInfo (harts : List Target) : List Char := 'm' :: threadList harts

/-- The answer of the protocol. -/
def specifiedInfo (harts : List Target) : List Char :=
  'm' :: [','].intercalate ((harts.filter Target.live).map Target.threadId)

/-! ## Numbers -/

theorem digitChar_injective {m n : Nat} (hm : m < 16) (hn : n < 16)
    (h : m.digitChar = n.digitChar) : m = n := by
  have hdigits : ∀ m < 16, ∀ n < 16, m.digitChar = n.digitChar → m = n := by decide
  exact hdigits m hm n hn h

/-- The same digits mean more in base sixteen than in base ten, unless there is only one. -/
theorem eq_or_lt_of_toDigits_eq {a b : Nat} (h : Nat.toDigits 10 a = Nat.toDigits 16 b) :
    a < 10 ∧ a = b ∨ 10 ≤ a ∧ a < b := by
  induction a using Nat.strongRecOn generalizing b with
  | ind a ih =>
    rw [Nat.toDigits_eq_if (by decide), Nat.toDigits_eq_if (b := 16) (by decide)] at h
    split_ifs at h with ha hb hb
    · left
      exact ⟨ha, digitChar_injective (by omega) hb (List.singleton_inj.mp h)⟩
    · have hlength := congrArg List.length h
      have hpos : 0 < (Nat.toDigits 16 (b / 16)).length := Nat.length_toDigits_pos
      simp only [List.length_append, List.length_singleton] at hlength
      omega
    · have hlength := congrArg List.length h
      have hpos : 0 < (Nat.toDigits 10 (a / 10)).length := Nat.length_toDigits_pos
      simp only [List.length_append, List.length_singleton] at hlength
      omega
    · right
      obtain ⟨hhigh, hlow⟩ := List.append_inj' h rfl
      have hmod := digitChar_injective (by omega) (by omega) (List.singleton_inj.mp hlow)
      have hdiv := ih (a / 10) (by omega) hhigh
      omega

theorem comma_notMem_toDigits (base n : Nat) (h : 1 < base) : ',' ∉ Nat.toDigits base n := by
  induction n using Nat.strongRecOn with
  | ind n ih =>
    rw [Nat.toDigits_eq_if h]
    split_ifs with hlt
    · rw [List.mem_singleton]
      exact (Nat.digitChar_ne ',' rfl).symm
    · rw [List.mem_append, List.mem_singleton, not_or]
      exact ⟨ih _ (Nat.div_lt_self (by omega) h), (Nat.digitChar_ne ',' rfl).symm⟩

theorem decimalId_eq_threadId_iff (t : Target) :
    t.decimalId = t.threadId ↔ t.id.toNat + 1 < 10 := by
  have hlt := t.id.isLt
  have hsum : (t.id + 1).toNat = (t.id.toNat + 1) % 2 ^ 64 := BitVec.toNat_add _ _
  rw [Target.decimalId, Target.threadId]
  constructor
  · intro h
    have hcases := eq_or_lt_of_toDigits_eq h
    omega
  · intro h
    have hsame : (t.id + 1).toNat = t.id.toNat + 1 := by omega
    rw [hsame, Nat.toDigits_of_lt_base h, Nat.toDigits_of_lt_base (by omega)]

/-! ## Commas -/

variable {harts : List Target}

theorem filter_live_of_terminated {t : Target} (h : t.status = .Terminated) (ts : List Target) :
    (t :: ts).filter Target.live = ts.filter Target.live :=
  List.filter_cons_of_neg (by simp [Target.live, h])

theorem filter_live_of_ne {t : Target} (h : ¬ t.status = .Terminated) (ts : List Target) :
    (t :: ts).filter Target.live = t :: ts.filter Target.live :=
  List.filter_cons_of_pos (by simp [Target.live, h])

/-- If the last hart is alive, the commas are where they should be. -/
theorem threadList_of_last_live {last : Target} (hlast : harts.getLast? = some last)
    (hlive : last.live = true) :
    threadList harts = [','].intercalate ((harts.filter Target.live).map Target.decimalId) := by
  induction harts with
  | nil => cases hlast
  | cons hart harts ih =>
    rw [threadList]
    cases harts with
    | nil =>
      obtain rfl : hart = last := Option.some.inj hlast
      have hstatus : ¬ hart.status = .Terminated := of_decide_eq_true hlive
      rw [if_neg hstatus, filter_live_of_ne hstatus]
      simp [threadList]
    | cons next harts =>
      have hmem : last ∈ (next :: harts).filter Target.live :=
        List.mem_filter.mpr ⟨List.mem_of_getLast? hlast, hlive⟩
      have hne : ((next :: harts).filter Target.live).map Target.decimalId ≠ [] := by
        rw [ne_eq, List.map_eq_nil_iff]
        exact List.ne_nil_of_mem hmem
      rw [ih hlast, if_pos (show 0 < (next :: harts).length from Nat.succ_pos _)]
      by_cases hstatus : hart.status = .Terminated
      · rw [if_pos hstatus, filter_live_of_terminated hstatus (next :: harts)]
        rfl
      · rw [if_neg hstatus, filter_live_of_ne hstatus (next :: harts), List.map_cons,
          List.intercalate_cons_of_ne_nil hne]

/-- If it is not, there is a comma after each number. -/
theorem threadList_of_last_terminated {last : Target} (hlast : harts.getLast? = some last)
    (hterminated : last.live = false) :
    threadList harts = (harts.filter Target.live).flatMap fun t => t.decimalId ++ [','] := by
  induction harts with
  | nil => cases hlast
  | cons hart harts ih =>
    rw [threadList]
    by_cases hstatus : hart.status = .Terminated
    · rw [if_pos hstatus, filter_live_of_terminated hstatus]
      cases harts with
      | nil => rfl
      | cons next harts => exact ih hlast
    · rw [if_neg hstatus, filter_live_of_ne hstatus, List.flatMap_cons]
      cases harts with
      | nil =>
        obtain rfl : hart = last := Option.some.inj hlast
        simp [Target.live, hstatus] at hterminated
      | cons next harts =>
        rw [ih hlast, if_pos (show 0 < (next :: harts).length from Nat.succ_pos _)]

theorem comma_notMem_threadId :
    ∀ l ∈ harts.map Target.threadId, ',' ∉ l := by
  intro l hl
  obtain ⟨t, -, rfl⟩ := List.mem_map.mp hl
  exact comma_notMem_toDigits _ _ (by decide)

theorem comma_notMem_decimalId :
    ∀ l ∈ harts.map Target.decimalId, ',' ∉ l := by
  intro l hl
  obtain ⟨t, -, rfl⟩ := List.mem_map.mp hl
  exact comma_notMem_toDigits _ _ (by decide)

/-- A comma at the end is no part of a well-formed list. -/
theorem intercalate_threadId_ne {live : List Target} (hne : live ≠ []) (front : List Char) :
    [','].intercalate (live.map Target.threadId) ≠ front ++ [','] := by
  intro h
  have hsplit := congrArg (List.splitOn ',') h
  rw [List.splitOn_intercalate ',' comma_notMem_threadId (by simpa using hne),
    List.splitOn_append_cons_self, List.splitOn_nil] at hsplit
  have hmem : [] ∈ live.map Target.threadId := by
    rw [hsplit]
    exact List.mem_append_right _ List.mem_cons_self
  obtain ⟨t, -, ht⟩ := List.mem_map.mp hmem
  exact Nat.toDigits_ne_nil ht

theorem intercalate_decimalId_eq_iff (live : List Target) :
    [','].intercalate (live.map Target.decimalId) = [','].intercalate (live.map Target.threadId) ↔
      ∀ t ∈ live, t.id.toNat + 1 < 10 := by
  cases live with
  | nil => simp
  | cons t live =>
    constructor
    · intro h
      have hsplit := congrArg (List.splitOn ',') h
      rw [List.splitOn_intercalate ',' comma_notMem_decimalId (by simp),
        List.splitOn_intercalate ',' comma_notMem_threadId (by simp), List.map_inj_left] at hsplit
      exact fun u hu => (decimalId_eq_threadId_iff u).mp (hsplit u hu)
    · intro h
      exact congrArg _ (List.map_inj_left.mpr fun u hu =>
        (decimalId_eq_threadId_iff u).mpr (h u hu))

/-- The thread list is well formed if and only if no hart is alive or the last one is, and the
numbers of the threads have one decimal digit. -/
theorem threadInfo_eq_iff (harts : List Target) :
    threadInfo harts = specifiedInfo harts ↔
      ((∀ t ∈ harts, t.live = false) ∨ ∃ last, harts.getLast? = some last ∧ last.live = true) ∧
      ∀ t ∈ harts, t.live = true → t.id.toNat + 1 < 10 := by
  have hnumbers : (∀ t ∈ harts.filter Target.live, t.id.toNat + 1 < 10) ↔
      ∀ t ∈ harts, t.live = true → t.id.toNat + 1 < 10 := by
    simp only [List.mem_filter, and_imp]
  rw [threadInfo, specifiedInfo, List.cons.injEq, ← hnumbers]
  simp only [true_and]
  cases hlast : harts.getLast? with
  | none =>
    rw [List.getLast?_eq_none_iff.mp hlast]
    simp [threadList]
  | some last =>
    cases hlive : last.live with
    | true =>
      rw [threadList_of_last_live hlast hlive, intercalate_decimalId_eq_iff]
      exact ⟨fun h => ⟨.inr ⟨last, rfl, hlive⟩, h⟩, fun h => h.2⟩
    | false =>
      rw [threadList_of_last_terminated hlast hlive]
      obtain hnil | ⟨front, t, hconcat⟩ := List.eq_nil_or_concat (harts.filter Target.live)
      · have hdead : ∀ t ∈ harts, t.live = false := fun t ht =>
          Bool.eq_false_iff.mpr fun h => List.filter_eq_nil_iff.mp hnil t ht h
        rw [hnil]
        exact iff_of_true rfl ⟨.inl hdead, fun t ht => absurd ht List.not_mem_nil⟩
      · rw [List.concat_eq_append] at hconcat
        refine iff_of_false (fun heq => ?_) ?_
        · rw [hconcat, List.flatMap_append, List.flatMap_singleton, ← List.append_assoc] at heq
          exact intercalate_threadId_ne (by simp) _ heq.symm
        · rintro ⟨hdead | ⟨other, hother, hotherLive⟩, -⟩
          · have ht : t ∈ harts.filter Target.live := by
              rw [hconcat]
              exact List.mem_append_right _ List.mem_cons_self
            obtain ⟨hmem, htrue⟩ := List.mem_filter.mp ht
            rw [hdead t hmem] at htrue
            cases htrue
          · cases hother
            rw [hlive] at hotherLive
            cases hotherLive

/-- A comma is left behind before a hart that has terminated, and the tenth thread is not `10`. -/
theorem threadInfo_ill_formed :
    threadInfo [⟨0, .Runnable⟩, ⟨1, .Terminated⟩] = ['m', '1', ','] ∧
    specifiedInfo [⟨0, .Runnable⟩, ⟨1, .Terminated⟩] = ['m', '1'] ∧
    threadInfo [⟨9, .Runnable⟩] = ['m', '1', '0'] ∧
      specifiedInfo [⟨9, .Runnable⟩] = ['m', 'a'] := by
  decide

end SpsVp.Gdb
