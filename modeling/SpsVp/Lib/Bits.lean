import Mathlib.Data.List.Basic

/-!
# The bits of a word, most significant first

Concatenation of words is concatenation of their bits, and an extracted range is a segment of them.
A word may be extended part by part.
-/

namespace SpsVp.Lib

open BitVec

variable {v w : Nat}

/-- The bits of a word, most significant first. -/
def bits (x : BitVec w) : List Bool := (List.range w).map x.getMsbD

@[simp] theorem length_bits (x : BitVec w) : (bits x).length = w := by
  rw [bits, List.length_map, List.length_range]

theorem getElem?_bits (x : BitVec w) {i : Nat} (h : i < w) : (bits x)[i]? = some (x.getMsbD i) := by
  rw [bits, List.getElem?_map, List.getElem?_range h, Option.map_some]

@[simp] theorem bits_cast (h : v = w) (x : BitVec v) : bits (x.cast h) = bits x := by
  subst h
  rfl

theorem bits_append (x : BitVec v) (y : BitVec w) : bits (x ++ y) = bits x ++ bits y := by
  apply List.ext_getElem?
  intro i
  by_cases hi : i < v + w
  · rw [getElem?_bits _ hi, List.getElem?_append, length_bits, getMsbD_append]
    split_ifs with hx hv hv
    · omega
    · rw [getElem?_bits _ (by omega)]
    · rw [getElem?_bits _ hv]
    · omega
  · rw [List.getElem?_eq_none (by rw [length_bits]; omega),
      List.getElem?_eq_none (by rw [List.length_append, length_bits, length_bits]; omega)]

/-- The bits of an extracted range. -/
theorem bits_extractLsb' (x : BitVec v) {offset : Nat} (h : offset + w ≤ v) :
    bits (x.extractLsb' offset w) = ((bits x).drop (v - (offset + w))).take w := by
  apply List.ext_getElem?
  intro i
  by_cases hi : i < w
  · have hposition : offset + (w - 1 - i) = v - 1 - (v - (offset + w) + i) := by omega
    rw [getElem?_bits _ hi, List.getElem?_take_of_lt hi, List.getElem?_drop,
      getElem?_bits _ (by omega), getMsbD_eq_getLsbD, getMsbD_eq_getLsbD,
      getLsbD_extractLsb', decide_eq_true hi, decide_eq_true (by omega),
      decide_eq_true (by omega), hposition, Bool.true_and, Bool.true_and]
  · rw [List.getElem?_eq_none (by rw [length_bits]; omega),
      List.getElem?_eq_none (by rw [List.length_take]; omega)]

/-! ## Extending a word -/

variable {l : Nat}

theorem setWidth_append_eq_or (x : BitVec v) (y : BitVec w) :
    (x ++ y).setWidth l = (x.setWidth l <<< w) ||| y.setWidth l := by
  refine eq_of_getLsbD_eq fun i hi => ?_
  rw [getLsbD_setWidth, getLsbD_append, getLsbD_or, getLsbD_shiftLeft,
    getLsbD_setWidth, getLsbD_setWidth]
  by_cases h : i < w
  · simp [h]
  · simp [h, hi, show i - w < l by omega, getLsbD_of_ge y i (by omega)]

theorem setWidth_append_eq_add (x : BitVec v) (y : BitVec w) :
    (x ++ y).setWidth l = (x.setWidth l <<< w) + y.setWidth l := by
  rw [setWidth_append_eq_or, add_eq_or_of_and_eq_zero]
  refine eq_of_getLsbD_eq fun i hi => ?_
  rw [getLsbD_and, getLsbD_shiftLeft, getLsbD_setWidth,
    getLsbD_setWidth]
  by_cases hw : i < w
  · simp [hw]
  · simp [getLsbD_of_ge y i (by omega)]

end SpsVp.Lib
