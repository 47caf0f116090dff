import Mathlib
import SysuOs.MallocModel

/-! Words of the heap: what the macros read back of a tag that `PACK` has built, and of a pointer. -/

namespace SysuOs

open Flags

namespace Malloc

/-- A size that a tag can hold. -/
structure TagSize (size : Nat) : Prop where
  aligned : size % 8 = 0
  lt : size < 2 ^ 32

theorem toNat_masked (w : Word) : GET_SIZE w = w.toNat / 8 * 8 := by
  have hlt := w.isLt
  have hmask : (~~~7#32 : Word).toNat = (2 ^ 29 - 1) <<< 3 := rfl
  rw [GET_SIZE, BitVec.toNat_and, hmask]
  apply Nat.eq_of_testBit_eq
  intro i
  have hdiv : w.toNat / 8 * 8 = (w.toNat >>> 3) <<< 3 := by
    rw [Nat.shiftRight_eq_div_pow, Nat.shiftLeft_eq]
  rw [hdiv, Nat.testBit_and, Nat.testBit_shiftLeft, Nat.testBit_two_pow_sub_one, Nat.testBit_shiftLeft,
    Nat.testBit_shiftRight]
  by_cases hi : 3 ≤ i
  · have hsum : 3 + (i - 3) = i := by omega
    rw [hsum]
    by_cases hhigh : i - 3 < 29
    · simp [hi, hhigh]
    · have hbig : w.toNat.testBit i = false :=
        Nat.testBit_lt_two_pow (Nat.lt_of_lt_of_le hlt (Nat.pow_le_pow_right (by decide) (by omega)))
      simp [hbig]
  · simp [hi]

theorem and_or_small {w flags : Word} (h : flags &&& ~~~7#32 = 0#32) : GET_SIZE (w ||| flags) = GET_SIZE w := by
  rw [GET_SIZE, GET_SIZE, or_and_of_disjoint h]

section
variable {size : Nat} (h : TagSize size)
include h

theorem GET_SIZE_PACK (alloc prevAlloc : Bool) : GET_SIZE (PACK size alloc prevAlloc) = size := by
  have hsize : GET_SIZE (BitVec.ofNat 32 size) = size := by
    have haligned := h.aligned
    rw [toNat_masked, BitVec.toNat_ofNat, Nat.mod_eq_of_lt h.lt]
    omega
  have halloc : (if alloc then 1#32 else 0#32 : Word) &&& ~~~7#32 = 0#32 := by cases alloc <;> decide
  have hprev : (if prevAlloc then 2#32 else 0#32 : Word) &&& ~~~7#32 = 0#32 := by cases prevAlloc <;> decide
  rw [PACK, and_or_small hprev, and_or_small halloc, hsize]

/-- A size shows none of the bits below it. -/
theorem ofNat_and_low {mask : Word} (hmask : ~~~7#32 &&& mask = 0#32) : BitVec.ofNat 32 size &&& mask = 0#32 := by
  have hw : BitVec.ofNat 32 size &&& ~~~7#32 = BitVec.ofNat 32 size := by
    apply BitVec.eq_of_toNat_eq
    have haligned := h.aligned
    have hsize := toNat_masked (BitVec.ofNat 32 size)
    rw [GET_SIZE] at hsize
    rw [hsize, BitVec.toNat_ofNat, Nat.mod_eq_of_lt h.lt]
    omega
  rw [← hw, BitVec.and_assoc, hmask, BitVec.and_zero]

theorem GET_ALLOC_PACK (alloc prevAlloc : Bool) : GET_ALLOC (PACK size alloc prevAlloc) = alloc := by
  have hsize : hasFlag (BitVec.ofNat 32 size) 1#32 = false := hasFlag_eq_false.mpr (ofNat_and_low h (by decide))
  rw [GET_ALLOC, PACK, hasFlag_or, hasFlag_or, hsize]
  cases alloc <;> cases prevAlloc <;> decide

theorem GET_PREVALLOC_PACK (alloc prevAlloc : Bool) : GET_PREVALLOC (PACK size alloc prevAlloc) = prevAlloc := by
  have hsize : hasFlag (BitVec.ofNat 32 size) 2#32 = false := hasFlag_eq_false.mpr (ofNat_and_low h (by decide))
  rw [GET_PREVALLOC, PACK, hasFlag_or, hasFlag_or, hsize]
  cases alloc <;> cases prevAlloc <;> decide

theorem setPrevAlloc_PACK (alloc prevAlloc prevAlloc' : Bool) :
    setPrevAlloc (PACK size alloc prevAlloc) prevAlloc' = PACK size alloc prevAlloc' := by
  have hclear : BitVec.ofNat 32 size &&& ~~~2#32 = BitVec.ofNat 32 size := by
    have hlow := ofNat_and_low h (by decide : ~~~7#32 &&& 2#32 = 0#32)
    have hall : BitVec.ofNat 32 size &&& (~~~2#32 ||| 2#32) = BitVec.ofNat 32 size := by
      rw [(by decide : (~~~2#32 ||| 2#32 : Word) = BitVec.allOnes 32), BitVec.and_allOnes]
    rwa [BitVec.and_or_distrib_left, hlow, BitVec.or_zero] at hall
  have halloc : (if alloc then 1#32 else 0#32 : Word) &&& ~~~2#32 = if alloc then 1#32 else 0#32 := by
    cases alloc <;> decide
  have hprev : (if prevAlloc then 2#32 else 0#32 : Word) &&& ~~~2#32 = 0#32 := by cases prevAlloc <;> decide
  rw [setPrevAlloc, PACK, BitVec.and_or_distrib_right, BitVec.and_or_distrib_right, hclear, halloc, hprev,
    BitVec.or_zero, PACK]

end

/-! ### Memory -/

@[simp] theorem PUT_self (m : Memory) (p : Nat) (w : Word) : PUT m p w p = w := Function.update_self _ _ _

theorem PUT_of_ne {m : Memory} {p a : Nat} {w : Word} (h : a ≠ p) : PUT m p w a = m a :=
  Function.update_of_ne h _ _

theorem PUT_PTR_of_ne {m : Memory} {p a ptr : Nat} (h : a ≠ p) : PUT_PTR m p ptr a = m a := PUT_of_ne h

theorem GET_PTR_PUT_PTR {m : Memory} {p ptr : Nat} (h : ptr < 2 ^ 32) : GET_PTR (PUT_PTR m p ptr) p = ptr := by
  rw [GET_PTR, PUT_PTR, PUT_self, BitVec.toNat_ofNat, Nat.mod_eq_of_lt h]

theorem GET_PTR_of_ne {m : Memory} {p a ptr : Nat} (h : a ≠ p) : GET_PTR (PUT_PTR m p ptr) a = GET_PTR m a := by
  rw [GET_PTR, PUT_PTR_of_ne h, GET_PTR]

theorem GET_PTR_congr {m m' : Memory} {a : Nat} (h : m' a = m a) : GET_PTR m' a = GET_PTR m a := by
  rw [GET_PTR, h, GET_PTR]

theorem GET_PTR_lt (m : Memory) (a : Nat) : GET_PTR m a < 2 ^ 32 := (m a).isLt

/-- A pointer as a link: a null pointer is no link. -/
def link (p : Nat) : Option Nat := if p = 0 then none else some p

@[simp] theorem link_eq_none {p : Nat} : link p = none ↔ p = 0 := by simp [link]

theorem link_eq_some {p q : Nat} : link p = some q ↔ p = q ∧ q ≠ 0 := by
  rw [link]
  split
  · next h => simp only [reduceCtorEq, false_iff, not_and, ne_eq, not_not]
              intro hq
              rw [← hq, h]
  · next h => simp only [Option.some.injEq]
              exact ⟨fun hq => ⟨hq, hq ▸ h⟩, fun hq => hq.1⟩

theorem link_of_ne {p : Nat} (h : p ≠ 0) : link p = some p := if_neg h

end Malloc

end SysuOs
