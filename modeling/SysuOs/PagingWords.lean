import Mathlib
import SysuOs.PagingCalls

/-! Entries of page tables and directories: the frame and the flags of a word, and what the kernel's
changes of an entry leave of them. -/

namespace SysuOs

open Flags

/-! ### Addresses -/

theorem getAddress_eq (w : Word) : getAddress w = w.toNat / 4096 * 4096 := by
  have hlt := w.isLt
  have hmask : PTE_GET_ADDRESS.toNat = (2 ^ 20 - 1) <<< 12 := rfl
  rw [getAddress, BitVec.toNat_and, hmask]
  apply Nat.eq_of_testBit_eq
  intro i
  rw [Nat.testBit_and, Nat.testBit_shiftLeft, Nat.testBit_two_pow_sub_one]
  have hdiv : w.toNat / 4096 * 4096 = (w.toNat >>> 12) <<< 12 := by
    rw [Nat.shiftRight_eq_div_pow, Nat.shiftLeft_eq]
  rw [hdiv, Nat.testBit_shiftLeft, Nat.testBit_shiftRight]
  by_cases hi : 12 ≤ i
  · have hsum : 12 + (i - 12) = i := by omega
    rw [hsum]
    by_cases hhigh : i - 12 < 20
    · simp [hi, hhigh]
    · have hbig : w.toNat.testBit i = false :=
        Nat.testBit_lt_two_pow (Nat.lt_of_lt_of_le hlt (Nat.pow_le_pow_right (by decide) (by omega)))
      simp [hbig]
  · simp [hi]

/-- The frame in an entry. -/
def frameOf (w : Word) : Nat := PA2PGI (getAddress w)

theorem frameOf_eq (w : Word) : frameOf w = w.toNat / 4096 := by
  rw [frameOf, PA2PGI, getAddress_eq, Nat.mul_div_cancel _ (by decide)]

theorem getAddress_eq_frame (w : Word) : getAddress w = frameOf w * 4096 := by
  rw [frameOf_eq, getAddress_eq]

theorem frameOf_lt (w : Word) : frameOf w < 2 ^ 20 := by
  have h := w.isLt
  rw [frameOf_eq]
  omega

theorem getAddress_or {w flags : Word} (h : flags &&& PTE_GET_ADDRESS = 0#32) :
    getAddress (w ||| flags) = getAddress w := by
  rw [getAddress, getAddress, or_and_of_disjoint h]

theorem getAddress_clear {w flags : Word} (h : flags &&& PTE_GET_ADDRESS = 0#32) :
    getAddress (w &&& ~~~flags) = getAddress w := by
  rw [getAddress, getAddress, clear_and_of_disjoint h]

theorem getAddress_ofNat {paddr : Nat} (hlt : paddr < 2 ^ 32) (halign : paddr % 4096 = 0) :
    getAddress (BitVec.ofNat 32 paddr) = paddr := by
  rw [getAddress_eq, BitVec.toNat_ofNat, Nat.mod_eq_of_lt hlt]
  omega

/-- An address shows none of the flags below it. -/
theorem hasFlag_ofNat {paddr : Nat} (hlt : paddr < 2 ^ 32) (halign : paddr % 4096 = 0) {mask : Word}
    (hmask : PTE_GET_ADDRESS &&& mask = 0#32) : hasFlag (BitVec.ofNat 32 paddr) mask = false := by
  have hw : BitVec.ofNat 32 paddr &&& PTE_GET_ADDRESS = BitVec.ofNat 32 paddr := by
    apply BitVec.eq_of_toNat_eq
    have h := getAddress_ofNat hlt halign
    rw [getAddress] at h
    rw [h, BitVec.toNat_ofNat, Nat.mod_eq_of_lt hlt]
  rw [hasFlag_eq_false, ← hw, BitVec.and_assoc, hmask, BitVec.and_zero]

/-! ### Flags of an entry -/

/-- The flags of an entry that the MMU and the kernel look at. -/
def present (w : Word) : Bool := hasFlag w PTE_PRESENT
def writable (w : Word) : Bool := hasFlag w PTE_WRITABLE
def userAccess (w : Word) : Bool := hasFlag w PTE_USER_ACCESS
def cow (w : Word) : Bool := hasFlag w PTE_COW

@[simp] theorem present_zero : present 0#32 = false := by decide
@[simp] theorem writable_zero : writable 0#32 = false := by decide

theorem getAddress_cowEntry (w : Word) : getAddress (Kernel.cowEntry w) = getAddress w := by
  rw [Kernel.cowEntry, getAddress_clear (by decide), getAddress_or (by decide)]

@[simp] theorem frameOf_cowEntry (w : Word) : frameOf (Kernel.cowEntry w) = frameOf w := by
  rw [frameOf, frameOf, getAddress_cowEntry]

@[simp] theorem present_cowEntry (w : Word) : present (Kernel.cowEntry w) = present w := by
  rw [present, Kernel.cowEntry, hasFlag_clear (by decide), hasFlag_or, present]
  simp [(by decide : hasFlag PTE_COW PTE_PRESENT = false)]

@[simp] theorem userAccess_cowEntry (w : Word) : userAccess (Kernel.cowEntry w) = userAccess w := by
  rw [userAccess, Kernel.cowEntry, hasFlag_clear (by decide), hasFlag_or, userAccess]
  simp [(by decide : hasFlag PTE_COW PTE_USER_ACCESS = false)]

@[simp] theorem writable_cowEntry (w : Word) : writable (Kernel.cowEntry w) = false := by
  rw [writable, Kernel.cowEntry, hasFlag_cleared (by decide)]

@[simp] theorem cow_cowEntry (w : Word) : cow (Kernel.cowEntry w) = true := by
  rw [cow, Kernel.cowEntry, hasFlag_clear (by decide), hasFlag_or]
  simp [(by decide : hasFlag PTE_COW PTE_COW = true)]

theorem getAddress_writableEntry (w : Word) : getAddress (Kernel.writableEntry w) = getAddress w := by
  rw [Kernel.writableEntry, getAddress_or (by decide), getAddress_clear (by decide)]

@[simp] theorem frameOf_writableEntry (w : Word) : frameOf (Kernel.writableEntry w) = frameOf w := by
  rw [frameOf, frameOf, getAddress_writableEntry]

@[simp] theorem present_writableEntry (w : Word) : present (Kernel.writableEntry w) = present w := by
  rw [present, Kernel.writableEntry, hasFlag_or, hasFlag_clear (by decide), present]
  simp [(by decide : hasFlag PTE_WRITABLE PTE_PRESENT = false)]

@[simp] theorem userAccess_writableEntry (w : Word) :
    userAccess (Kernel.writableEntry w) = userAccess w := by
  rw [userAccess, Kernel.writableEntry, hasFlag_or, hasFlag_clear (by decide), userAccess]
  simp [(by decide : hasFlag PTE_WRITABLE PTE_USER_ACCESS = false)]

@[simp] theorem writable_writableEntry (w : Word) : writable (Kernel.writableEntry w) = true := by
  rw [writable, Kernel.writableEntry, hasFlag_or]
  simp [(by decide : hasFlag PTE_WRITABLE PTE_WRITABLE = true)]

section
variable {paddr : Nat} (hlt : paddr < 2 ^ 32) (halign : paddr % 4096 = 0)
include hlt halign

theorem getAddress_sharedEntry : getAddress (Kernel.sharedEntry paddr) = paddr := by
  rw [Kernel.sharedEntry, getAddress_clear (by decide), getAddress_or (by decide), getAddress_or (by decide),
    getAddress_or (by decide), getAddress_ofNat hlt halign]

theorem hasFlag_sharedEntry (mask : Word) (hmask : PTE_GET_ADDRESS &&& mask = 0#32)
    (hwritable : PTE_WRITABLE &&& mask = 0#32) : hasFlag (Kernel.sharedEntry paddr) mask =
      hasFlag (PTE_PRESENT ||| PTE_USER_ACCESS ||| PTE_COW) mask := by
  rw [Kernel.sharedEntry, hasFlag_clear hwritable]
  simp [hasFlag_ofNat hlt halign hmask]

end

@[simp] theorem writable_sharedEntry (paddr : Nat) : writable (Kernel.sharedEntry paddr) = false := by
  rw [writable, Kernel.sharedEntry, hasFlag_cleared (by decide)]

/-! ### Entries of a page directory -/

theorem getAddress_setCount (w : Word) (count : Nat) :
    getAddress (Kernel.pdeSetCount w count) = getAddress w := by
  have hcount : BitVec.ofNat 32 (min count 7 * 2 ^ 9) &&& PTE_GET_ADDRESS = 0#32 := by
    have hle : min count 7 ≤ 7 := Nat.min_le_right _ _
    generalize min count 7 = c at hle
    interval_cases c <;> decide
  rw [Kernel.pdeSetCount, getAddress_or hcount, getAddress_clear (by decide)]

@[simp] theorem frameOf_setCount (w : Word) (count : Nat) :
    frameOf (Kernel.pdeSetCount w count) = frameOf w := by
  rw [frameOf, frameOf, getAddress_setCount]

/-- The count of an entry is apart from its flags. -/
theorem hasFlag_setCount (w : Word) (count : Nat) {mask : Word} (h : PDE_COUNT_MASK &&& mask = 0#32) :
    hasFlag (Kernel.pdeSetCount w count) mask = hasFlag w mask := by
  have hle : min count 7 ≤ 7 := Nat.min_le_right _ _
  have hcount : BitVec.ofNat 32 (min count 7 * 2 ^ 9) = BitVec.ofNat 32 (min count 7 * 2 ^ 9) &&&
      PDE_COUNT_MASK := by
    generalize min count 7 = c at hle
    interval_cases c <;> decide
  have hnone : hasFlag (BitVec.ofNat 32 (min count 7 * 2 ^ 9)) mask = false := by
    rw [hasFlag_eq_false, hcount, BitVec.and_assoc, h, BitVec.and_zero]
  rw [Kernel.pdeSetCount, hasFlag_or, hasFlag_clear h, hnone, Bool.or_false]

@[simp] theorem present_setCount (w : Word) (count : Nat) :
    present (Kernel.pdeSetCount w count) = present w := hasFlag_setCount w count (by decide)

@[simp] theorem writable_setCount (w : Word) (count : Nat) :
    writable (Kernel.pdeSetCount w count) = writable w := hasFlag_setCount w count (by decide)

@[simp] theorem userAccess_setCount (w : Word) (count : Nat) :
    userAccess (Kernel.pdeSetCount w count) = userAccess w := hasFlag_setCount w count (by decide)

@[simp] theorem getCount_setCount (w : Word) (count : Nat) :
    Kernel.pdeGetCount (Kernel.pdeSetCount w count) = min count 7 := by
  have hle : min count 7 ≤ 7 := Nat.min_le_right _ _
  rw [Kernel.pdeGetCount, Kernel.pdeSetCount, BitVec.and_or_distrib_right, BitVec.and_assoc]
  have hclear : ~~~PDE_COUNT_MASK &&& PDE_COUNT_MASK = 0#32 := by decide
  rw [hclear, BitVec.and_zero, BitVec.zero_or]
  generalize min count 7 = c at hle
  interval_cases c <;> decide

end SysuOs
