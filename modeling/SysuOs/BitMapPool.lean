import Mathlib
import SysuOs.BitMap

/-! The class `BitMap` of `bitmap.cpp`: a pool of `length` resources, one bit each. -/

namespace SysuOs

/-- `BitMap`. -/
structure BitMap where
  bitmap : ByteMap
  length : Nat

namespace BitMap

def get (b : BitMap) (index : Nat) : Bool := getMap b.bitmap index

def set (b : BitMap) (index : Nat) (status : Bool) : BitMap :=
  { b with bitmap := setMap b.bitmap index status }

/-- The loop of `allocate` past resources in use. -/
def skipUsed (b : BitMap) : Nat → Nat → Nat
  | 0, index => index
  | fuel + 1, index => if index < b.length ∧ b.get index then b.skipUsed fuel (index + 1) else index

/-- The loop of `allocate` over free resources: how many of `count` there are, and where it stops. -/
def countFree (b : BitMap) (count : Nat) : Nat → Nat → Nat → Nat × Nat
  | 0, index, empty => (empty, index)
  | fuel + 1, index, empty =>
      if index < b.length ∧ b.get index = false ∧ empty < count then
        b.countFree count fuel (index + 1) (empty + 1)
      else (empty, index)

/-- `set(start + i, status)` for `i` below `count`. -/
def setRange (b : BitMap) (start : Nat) : Nat → Bool → BitMap
  | 0, _ => b
  | count + 1, status => (b.setRange start count status).set (start + count) status

/-- The outer loop of `allocate`. -/
def allocateLoop (b : BitMap) (count : Nat) : Nat → Nat → Option Nat × BitMap
  | 0, _ => (none, b)
  | fuel + 1, index =>
      if index < b.length then
        let start := b.skipUsed b.length index
        if start = b.length then (none, b)
        else
          let (empty, index) := b.countFree count b.length start 0
          if empty = count then (some start, b.setRange start count true)
          else b.allocateLoop count fuel index
      else (none, b)

/-- `BitMap::allocate` from the front; `none` is `-1`. -/
def allocate (b : BitMap) (count : Nat) : Option Nat × BitMap :=
  if count = 0 then (none, b) else b.allocateLoop count b.length 0

def release (b : BitMap) (index count : Nat) : BitMap := b.setRange index count false

/-! ### What is allocated -/

@[simp] theorem set_length (b : BitMap) (index : Nat) (status : Bool) :
    (b.set index status).length = b.length := rfl

theorem get_set (b : BitMap) (i j : Nat) (status : Bool) :
    (b.set i status).get j = if j = i then status else b.get j := getMap_setMap _ _ _ _

@[simp] theorem setRange_length (b : BitMap) (start count : Nat) (status : Bool) :
    (b.setRange start count status).length = b.length := by
  induction count with
  | zero => rfl
  | succ count ih => rw [setRange, set_length, ih]

theorem get_setRange (b : BitMap) (start count : Nat) (status : Bool) (j : Nat) :
    (b.setRange start count status).get j =
      if start ≤ j ∧ j < start + count then status else b.get j := by
  induction count with
  | zero => rw [setRange, if_neg (by omega)]
  | succ count ih =>
      rw [setRange, get_set, ih]
      by_cases hj : j = start + count
      · rw [if_pos hj, if_pos (by omega)]
      · rw [if_neg hj]
        by_cases hin : start ≤ j ∧ j < start + count
        · rw [if_pos hin, if_pos (by omega)]
        · rw [if_neg hin, if_neg (by omega)]

/-- The resources counted from `start` on are free and exist. -/
theorem countFree_spec {b : BitMap} {count fuel start index empty : Nat} (hpos : index = start + empty)
    (hfree : ∀ j, start ≤ j → j < index → j < b.length ∧ b.get j = false) :
    ∀ j, start ≤ j → j < start + (b.countFree count fuel index empty).1 → j < b.length ∧ b.get j = false := by
  induction fuel generalizing index empty with
  | zero =>
      intro j hj hj'
      exact hfree j hj (by rw [hpos]; exact hj')
  | succ fuel ih =>
      rw [countFree]
      split
      · rename_i hgo
        refine ih (by omega) fun j hj hj' => ?_
        rcases Nat.lt_or_eq_of_le (Nat.le_of_lt_succ hj') with hlt | rfl
        · exact hfree j hj hlt
        · exact ⟨hgo.1, hgo.2.1⟩
      · intro j hj hj'
        exact hfree j hj (by rw [hpos]; exact hj')

theorem allocateLoop_spec {b b' : BitMap} {count fuel index start : Nat}
    (h : b.allocateLoop count fuel index = (some start, b')) :
    (∀ j, start ≤ j → j < start + count → j < b.length ∧ b.get j = false) ∧
      b' = b.setRange start count true := by
  induction fuel generalizing index with
  | zero => simp [allocateLoop] at h
  | succ fuel ih =>
      rw [allocateLoop] at h
      split at h
      · dsimp only at h
        split at h
        · simp at h
        · split at h
          · rename_i hcount
            simp only [Prod.mk.injEq, Option.some.injEq] at h
            obtain ⟨rfl, rfl⟩ := h
            refine ⟨fun j hj hj' => ?_, rfl⟩
            rw [← hcount] at hj'
            exact countFree_spec (Nat.add_zero _).symm (fun j hj hj' => absurd hj (by omega)) j hj hj'
          · exact ih h
      · simp at h

/-- What is allocated was free, exists and is in use afterwards; nothing else changes. -/
theorem allocate_spec {b b' : BitMap} {count start : Nat} (h : b.allocate count = (some start, b')) :
    (∀ j, start ≤ j → j < start + count → j < b.length ∧ b.get j = false) ∧
      b' = b.setRange start count true := by
  rw [allocate] at h
  split at h
  · simp at h
  · exact allocateLoop_spec h

theorem allocateLoop_none {b b' : BitMap} {count fuel index : Nat}
    (h : b.allocateLoop count fuel index = (none, b')) : b' = b := by
  induction fuel generalizing index with
  | zero => exact (Prod.mk.inj h).2.symm
  | succ fuel ih =>
      rw [allocateLoop] at h
      split at h
      · dsimp only at h
        split at h
        · exact (Prod.mk.inj h).2.symm
        · split at h
          · simp at h
          · exact ih h
      · exact (Prod.mk.inj h).2.symm

theorem allocate_none {b b' : BitMap} {count : Nat} (h : b.allocate count = (none, b')) : b' = b := by
  rw [allocate] at h
  split at h
  · exact (Prod.mk.inj h).2.symm
  · exact allocateLoop_none h

end BitMap

end SysuOs
