import Mathlib

/-! Flags in machine words: testing a mask, setting its bits and clearing them, and fields that setting
and clearing other bits leaves alone. -/

namespace SysuOs

variable {n : Nat}

/-- `w & mask` as a condition. -/
def hasFlag (w mask : BitVec n) : Bool := w &&& mask != 0#n

namespace Flags

theorem hasFlag_iff {w mask : BitVec n} : hasFlag w mask = true ↔ w &&& mask ≠ 0#n := by simp [hasFlag]

theorem hasFlag_eq_false {w mask : BitVec n} : hasFlag w mask = false ↔ w &&& mask = 0#n := by
  simp [hasFlag]

/-- Setting bits outside a field. -/
theorem or_and_of_disjoint {w set mask : BitVec n} (h : set &&& mask = 0#n) :
    (w ||| set) &&& mask = w &&& mask := by
  rw [BitVec.and_or_distrib_right, h, BitVec.or_zero]

/-- Clearing bits outside a field. -/
theorem clear_and_of_disjoint {w cleared mask : BitVec n} (h : cleared &&& mask = 0#n) :
    (w &&& ~~~cleared) &&& mask = w &&& mask := by
  rw [BitVec.and_assoc]
  congr 1
  apply BitVec.eq_of_getLsbD_eq
  intro i hi
  have hbit := congrArg (fun v => v.getLsbD i) h
  simp only [BitVec.getLsbD_and, BitVec.getLsbD_zero] at hbit
  simp only [BitVec.getLsbD_and, BitVec.getLsbD_not, hi, decide_true, Bool.true_and]
  cases hc : cleared.getLsbD i with
  | false => simp
  | true =>
      rw [hc, Bool.true_and] at hbit
      simp [hbit]

@[simp] theorem hasFlag_or (w w' mask : BitVec n) :
    hasFlag (w ||| w') mask = (hasFlag w mask || hasFlag w' mask) := by
  rw [Bool.eq_iff_iff, Bool.or_eq_true, hasFlag_iff, hasFlag_iff, hasFlag_iff, BitVec.and_or_distrib_right,
    ne_eq, BitVec.or_eq_zero_iff, not_and_or]

/-- Clearing bits outside a mask does not show through it. -/
theorem hasFlag_clear {w cleared mask : BitVec n} (h : cleared &&& mask = 0#n) :
    hasFlag (w &&& ~~~cleared) mask = hasFlag w mask := by
  rw [hasFlag, hasFlag, clear_and_of_disjoint h]

/-- Clearing all bits of a mask. -/
theorem hasFlag_cleared {w cleared mask : BitVec n} (h : ~~~cleared &&& mask = 0#n) :
    hasFlag (w &&& ~~~cleared) mask = false := by
  rw [hasFlag_eq_false, BitVec.and_assoc, h, BitVec.and_zero]

end Flags

end SysuOs
