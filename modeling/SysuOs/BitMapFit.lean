import Mathlib
import SysuOs.BitMapPool

/-! `BitMap::allocate` in both directions: which resources it finds, for every content of the table. -/

namespace SysuOs

/-- A table of bits is known by its bits. -/
theorem getMap_ext {map map' : ByteMap} (h : ∀ i, getMap map i = getMap map' i) : map = map' := by
  funext pos
  apply BitVec.eq_of_getLsbD_eq
  intro k hk
  have hdiv : (8 * pos + k) / 8 = pos := by omega
  have hmod : (8 * pos + k) % 8 = k := by omega
  have hbit := h (8 * pos + k)
  rw [getMap_eq_getLsbD, getMap_eq_getLsbD, hdiv, hmod] at hbit
  exact hbit

namespace BitMap

/-! ### From the back -/

/-- The loop of `allocate` from the back past resources in use; an index of the source is one less. -/
def skipUsedBack (b : BitMap) : Nat → Nat
  | 0 => 0
  | n + 1 => if b.get n then b.skipUsedBack n else n + 1

/-- The loop of `allocate` from the back over free resources: how many of `count` there are, and where it
stops. -/
def countFreeBack (b : BitMap) (count : Nat) : Nat → Nat → Nat × Nat
  | 0, empty => (empty, 0)
  | n + 1, empty =>
      if b.get n = false ∧ empty < count then b.countFreeBack count n (empty + 1) else (empty, n + 1)

/-- `set(start - i, true)` for `i` below `count`. -/
def setBack (b : BitMap) (start : Nat) : Nat → BitMap
  | 0 => b
  | count + 1 => (b.setBack start count).set (start - count) true

/-- The outer loop of `allocate` from the back. -/
def allocateBackLoop (b : BitMap) (count : Nat) : Nat → Nat → Option Nat × BitMap
  | 0, _ => (none, b)
  | fuel + 1, n =>
      if 0 < n then
        let n := b.skipUsedBack n
        if n = 0 then (none, b)
        else
          let start := n - 1
          let (empty, n) := b.countFreeBack count n 0
          if empty = count then (some (start + 1 - count), b.setBack start count)
          else b.allocateBackLoop count fuel n
      else (none, b)

/-- `BitMap::allocate` from the back. -/
def allocateBack (b : BitMap) (count : Nat) : Option Nat × BitMap :=
  if count = 0 then (none, b) else b.allocateBackLoop count b.length b.length

/-- `BitMap::allocate` with its argument `reverse`. -/
def allocateIn (b : BitMap) (count : Nat) (reverse : Bool) : Option Nat × BitMap :=
  if reverse then b.allocateBack count else b.allocate count

/-! ### Windows -/

/-- The `count` resources from `start` on exist and are free. -/
def Fits (b : BitMap) (count start : Nat) : Prop :=
  ∀ j, start ≤ j → j < start + count → j < b.length ∧ b.get j = false

/-- No window over a resource in use or past the last one. -/
theorem not_fits {b : BitMap} {count start i : Nat} (hi : start ≤ i) (hi' : i < start + count)
    (hused : i < b.length → b.get i = true) : ¬b.Fits count start := by
  intro hfits
  obtain ⟨hlt, hfree⟩ := hfits i hi hi'
  rw [hused hlt] at hfree
  cases hfree

section Forward

variable {b : BitMap} {count fuel index start empty : Nat}

theorem skipUsed_spec (hindex : index ≤ b.length) (hfuel : b.length ≤ index + fuel) :
    index ≤ b.skipUsed fuel index ∧ b.skipUsed fuel index ≤ b.length ∧
      (∀ j, index ≤ j → j < b.skipUsed fuel index → b.get j = true) ∧
      (b.skipUsed fuel index < b.length → b.get (b.skipUsed fuel index) = false) := by
  induction fuel generalizing index with
  | zero =>
      rw [skipUsed]
      exact ⟨le_refl index, hindex, fun j hj hj' => absurd hj (by omega), fun hlt => absurd hlt (by omega)⟩
  | succ fuel ih =>
      rw [skipUsed]
      by_cases hgo : index < b.length ∧ b.get index = true
      · rw [if_pos hgo]
        obtain ⟨hle, hle', hused, hfree⟩ := @ih (index + 1) hgo.1 (by omega)
        refine ⟨by omega, hle', fun j hj hj' => ?_, hfree⟩
        rcases Nat.eq_or_lt_of_le hj with rfl | hlt
        · exact hgo.2
        · exact hused j hlt hj'
      · rw [if_neg hgo]
        refine ⟨le_refl index, hindex, fun j hj hj' => absurd hj (by omega), fun hlt => ?_⟩
        rw [not_and, Bool.not_eq_true] at hgo
        exact hgo hlt

/-- Where the count stops: all of `count`, or at a resource in use, or past the last one. -/
theorem countFree_stop (hpos : index = start + empty) (hle : empty ≤ count) (hfuel : b.length ≤ index + fuel)
    (hindex : index ≤ b.length) :
    (b.countFree count fuel index empty).2 = start + (b.countFree count fuel index empty).1 ∧
      empty ≤ (b.countFree count fuel index empty).1 ∧ (b.countFree count fuel index empty).1 ≤ count ∧
      (b.countFree count fuel index empty).2 ≤ b.length ∧
      ((b.countFree count fuel index empty).1 < count → (b.countFree count fuel index empty).2 < b.length →
        b.get (b.countFree count fuel index empty).2 = true) := by
  induction fuel generalizing index empty with
  | zero =>
      rw [countFree]
      exact ⟨hpos, le_refl empty, hle, hindex, fun _ hlt => absurd hlt (by omega)⟩
  | succ fuel ih =>
      rw [countFree]
      by_cases hgo : index < b.length ∧ b.get index = false ∧ empty < count
      · rw [if_pos hgo]
        obtain ⟨hstop, hge, hrest⟩ := @ih (index + 1) (empty + 1) (by omega) hgo.2.2 (by omega) hgo.1
        exact ⟨hstop, by omega, hrest⟩
      · rw [if_neg hgo]
        refine ⟨hpos, le_refl empty, hle, hindex, fun hlt hlt' => ?_⟩
        rw [← Bool.not_eq_false]
        exact fun hfree => hgo ⟨hlt', hfree, hlt⟩

/-- The search from `index` on, when no window begins before. -/
theorem allocateLoop_exact (hcount : 1 ≤ count) (hindex : index ≤ b.length) (hfuel : b.length ≤ index + fuel)
    (hbefore : ∀ s, s < index → ¬b.Fits count s) :
    (∃ s, b.allocateLoop count fuel index = (some s, b.setRange s count true) ∧
        IsLeast {s | b.Fits count s} s) ∨
      (b.allocateLoop count fuel index = (none, b) ∧ ∀ s, ¬b.Fits count s) := by
  induction fuel generalizing index with
  | zero =>
      refine Or.inr ⟨rfl, fun s => ?_⟩
      by_cases hs : s < index
      · exact hbefore s hs
      · exact not_fits (le_refl s) (by omega) fun hlt => absurd hlt (by omega)
  | succ fuel ih =>
      rw [allocateLoop]
      by_cases hlt : index < b.length
      · rw [if_pos hlt]
        obtain ⟨hle, hle', hused, hfree⟩ := skipUsed_spec hindex (by omega : b.length ≤ index + b.length)
        generalize hstart : b.skipUsed b.length index = start at hle hle' hused hfree
        dsimp only
        have hskipped : ∀ s, s < start → ¬b.Fits count s := by
          intro s hs
          by_cases hs' : s < index
          · exact hbefore s hs'
          · exact not_fits (le_refl s) (by omega) fun _ => hused s (by omega) hs
        by_cases hend : start = b.length
        · rw [if_pos hend]
          refine Or.inr ⟨rfl, fun s => ?_⟩
          by_cases hs : s < start
          · exact hskipped s hs
          · exact not_fits (le_refl s) (by omega) fun hlt' => absurd hlt' (by omega)
        · rw [if_neg hend]
          have hcounted := @countFree_spec b count b.length start start 0 (Nat.add_zero start).symm
            fun j hj hj' => absurd hj (by omega)
          obtain ⟨hstop, -, hmost, hbound, hused'⟩ := @countFree_stop b count b.length start start 0
            (Nat.add_zero start).symm (Nat.zero_le count) (by omega) hle'
          generalize b.countFree count b.length start 0 = res at hcounted hstop hmost hbound hused'
          obtain ⟨found, stop⟩ := res
          dsimp only at hcounted hstop hmost hbound hused'
          dsimp only
          by_cases hfound : found = count
          · rw [if_pos hfound]
            subst hfound
            refine Or.inl ⟨start, rfl, hcounted, fun s hs => ?_⟩
            by_contra hless
            exact hskipped s (by omega) hs
          · rw [if_neg hfound]
            have hprogress : 1 ≤ found := by
              by_contra hzero
              have hused'' := hused' (by omega) (by omega)
              have hstop' : stop = start := by omega
              rw [hstop', hfree (by omega)] at hused''
              cases hused''
            refine ih hbound (by omega) fun s hs => ?_
            by_cases hs' : s < start
            · exact hskipped s hs'
            · exact not_fits (by omega : s ≤ stop) (by omega) fun hlt' => hused' (by omega) hlt'
      · rw [if_neg hlt]
        refine Or.inr ⟨rfl, fun s => ?_⟩
        by_cases hs : s < index
        · exact hbefore s hs
        · exact not_fits (le_refl s) (by omega) fun hlt' => absurd hlt' (by omega)

end Forward

section Backward

variable {b : BitMap} {count fuel n start empty : Nat}

theorem skipUsedBack_spec :
    b.skipUsedBack n ≤ n ∧ (∀ j, b.skipUsedBack n ≤ j → j < n → b.get j = true) ∧
      (0 < b.skipUsedBack n → b.get (b.skipUsedBack n - 1) = false) := by
  induction n with
  | zero => exact ⟨le_refl 0, fun j hj hj' => absurd hj' (by omega), fun h => absurd h (lt_irrefl 0)⟩
  | succ n ih =>
      rw [skipUsedBack]
      by_cases hused : b.get n = true
      · rw [if_pos hused]
        obtain ⟨hle, hbits, hfree⟩ := ih
        refine ⟨by omega, fun j hj hj' => ?_, hfree⟩
        rcases Nat.eq_or_lt_of_le (Nat.le_of_lt_succ hj') with rfl | hlt
        · exact hused
        · exact hbits j hj hlt
      · rw [if_neg hused]
        refine ⟨le_refl _, fun j hj hj' => absurd hj (by omega), fun _ => ?_⟩
        rw [Nat.add_sub_cancel]
        exact Bool.not_eq_true _ ▸ hused

/-- The count from the back: what it passed is free, and where it stopped. -/
theorem countFreeBack_spec (hpos : n + empty = start) (hle : empty ≤ count)
    (hfree : ∀ j, n ≤ j → j < start → b.get j = false) :
    (b.countFreeBack count n empty).2 + (b.countFreeBack count n empty).1 = start ∧
      (b.countFreeBack count n empty).1 ≤ count ∧
      (∀ j, (b.countFreeBack count n empty).2 ≤ j → j < start → b.get j = false) ∧
      ((b.countFreeBack count n empty).1 < count → 0 < (b.countFreeBack count n empty).2 →
        b.get ((b.countFreeBack count n empty).2 - 1) = true) := by
  induction n generalizing empty with
  | zero =>
      rw [countFreeBack]
      exact ⟨hpos, hle, hfree, fun _ h => absurd h (lt_irrefl 0)⟩
  | succ n ih =>
      rw [countFreeBack]
      by_cases hgo : b.get n = false ∧ empty < count
      · rw [if_pos hgo]
        refine ih (by omega) hgo.2 fun j hj hj' => ?_
        rcases Nat.eq_or_lt_of_le hj with rfl | hlt
        · exact hgo.1
        · exact hfree j hlt hj'
      · rw [if_neg hgo]
        refine ⟨hpos, hle, hfree, fun hlt _ => ?_⟩
        rw [Nat.add_sub_cancel, ← Bool.not_eq_false]
        exact fun h => hgo ⟨h, hlt⟩

theorem get_setBack (hcount : count ≤ start + 1) (j : Nat) :
    (b.setBack start count).get j = if start < j + count ∧ j ≤ start then true else b.get j := by
  induction count with
  | zero => rw [setBack, if_neg (by omega)]
  | succ count ih =>
      rw [setBack, get_set, ih (by omega)]
      by_cases hj : j = start - count
      · rw [if_pos hj, if_pos (by omega)]
      · rw [if_neg hj]
        by_cases hin : start < j + count ∧ j ≤ start
        · rw [if_pos hin, if_pos (by omega)]
        · rw [if_neg hin, if_neg (by omega)]

theorem setBack_length : (b.setBack start count).length = b.length := by
  induction count with
  | zero => rfl
  | succ count ih => rw [setBack, set_length, ih]

end Backward

/-- A pool is known by its length and its bits. -/
theorem ext_get {b b' : BitMap} (hlength : b.length = b'.length) (hget : ∀ i, b.get i = b'.get i) : b = b' := by
  cases b with
  | mk bitmap length =>
      cases b' with
      | mk bitmap' length' =>
          have hmap : bitmap = bitmap' := getMap_ext hget
          rw [hmap, show length = length' from hlength]

/-- Setting a window from its last resource down sets the same bits. -/
theorem setBack_eq {b : BitMap} {start count : Nat} (hcount : count ≤ start + 1) :
    b.setBack start count = b.setRange (start + 1 - count) count true := by
  refine ext_get (by rw [setBack_length, setRange_length]) fun j => ?_
  rw [get_setBack hcount, get_setRange]
  by_cases hin : start < j + count ∧ j ≤ start
  · rw [if_pos hin, if_pos (by omega)]
  · rw [if_neg hin, if_neg (by omega)]

/-- The search from the back below `n`, when no window ends after. -/
theorem allocateBackLoop_exact {b : BitMap} {count fuel n : Nat} (hcount : 1 ≤ count) (hn : n ≤ b.length)
    (hfuel : n ≤ fuel) (hafter : ∀ s, n < s + count → ¬b.Fits count s) :
    (∃ s, b.allocateBackLoop count fuel n = (some s, b.setRange s count true) ∧
        IsGreatest {s | b.Fits count s} s) ∨
      (b.allocateBackLoop count fuel n = (none, b) ∧ ∀ s, ¬b.Fits count s) := by
  induction fuel generalizing n with
  | zero => exact Or.inr ⟨rfl, fun s => hafter s (by omega)⟩
  | succ fuel ih =>
      rw [allocateBackLoop]
      by_cases hpos : 0 < n
      · rw [if_pos hpos]
        obtain ⟨hle, hused, hfree⟩ := @skipUsedBack_spec b n
        generalize b.skipUsedBack n = top at hle hused hfree
        dsimp only
        have hskipped : ∀ s, top < s + count → ¬b.Fits count s := by
          intro s hs
          by_cases hs' : n < s + count
          · exact hafter s hs'
          · exact not_fits (by omega : s ≤ s + count - 1) (by omega) fun _ => hused _ (by omega) (by omega)
        by_cases hend : top = 0
        · rw [if_pos hend]
          exact Or.inr ⟨rfl, fun s => hskipped s (by omega)⟩
        · rw [if_neg hend]
          obtain ⟨hstop, hmost, hcounted, hused'⟩ := @countFreeBack_spec b count top top 0 (Nat.add_zero top)
            (Nat.zero_le count) fun j hj hj' => absurd hj (by omega)
          generalize b.countFreeBack count top 0 = res at hstop hmost hcounted hused'
          obtain ⟨found, stop⟩ := res
          dsimp only at hstop hmost hcounted hused'
          dsimp only
          by_cases hfound : found = count
          · rw [if_pos hfound, setBack_eq (by omega), show top - 1 + 1 = top by omega]
            refine Or.inl ⟨top - count, rfl, fun j hj hj' => ?_, fun s hs => ?_⟩
            · exact ⟨by omega, hcounted j (by omega) (by omega)⟩
            · by_contra hmore
              exact hskipped s (by omega) hs
          · rw [if_neg hfound]
            have hprogress : 1 ≤ found := by
              by_contra hzero
              have hused'' := hused' (by omega) (by omega)
              rw [show stop = top by omega, hfree (by omega)] at hused''
              cases hused''
            refine ih (by omega) (by omega) fun s hs => ?_
            by_cases hs' : top < s + count
            · exact hskipped s hs'
            · exact not_fits (by omega : s ≤ stop - 1) (by omega) fun _ => hused' (by omega) (by omega)
      · rw [if_neg hpos]
        exact Or.inr ⟨rfl, fun s => hafter s (by omega)⟩

/-! ### Both directions -/

/-- The window `allocate` is to take: the first that fits, or the last. -/
def Chosen (b : BitMap) (count : Nat) (reverse : Bool) (start : Nat) : Prop :=
  if reverse then IsGreatest {s | b.Fits count s} start else IsLeast {s | b.Fits count s} start

theorem Chosen.fits {b : BitMap} {count start : Nat} {reverse : Bool} (h : b.Chosen count reverse start) :
    b.Fits count start := by
  cases reverse with
  | false => exact (show IsLeast {s | b.Fits count s} start from h).1
  | true => exact (show IsGreatest {s | b.Fits count s} start from h).1

theorem Chosen.unique {b : BitMap} {count start start' : Nat} {reverse : Bool} (h : b.Chosen count reverse start)
    (h' : b.Chosen count reverse start') : start = start' := by
  cases reverse with
  | false => exact (show IsLeast {s | b.Fits count s} start from h).unique h'
  | true => exact (show IsGreatest {s | b.Fits count s} start from h).unique h'

theorem allocateIn_cases (b : BitMap) {count : Nat} (hcount : 1 ≤ count) (reverse : Bool) :
    (∃ s, b.allocateIn count reverse = (some s, b.setRange s count true) ∧ b.Chosen count reverse s) ∨
      (b.allocateIn count reverse = (none, b) ∧ ∀ s, ¬b.Fits count s) := by
  have hne : count ≠ 0 := by omega
  cases reverse with
  | false =>
      simp only [allocateIn, Chosen, allocate, Bool.false_eq_true, if_false, if_neg hne]
      exact allocateLoop_exact hcount (Nat.zero_le _) (by omega) fun s hs => absurd hs (by omega)
  | true =>
      simp only [allocateIn, Chosen, allocateBack, if_true, if_neg hne]
      refine allocateBackLoop_exact hcount (le_refl _) (le_refl _) fun s hs => ?_
      exact not_fits (by omega : s ≤ s + count - 1) (by omega) fun hlt => absurd hlt (by omega)

/-- Releasing what was free before gives the content back. -/
theorem release_setRange {b : BitMap} {count start : Nat} (h : b.Fits count start) :
    (b.setRange start count true).release start count = b := by
  refine ext_get (by rw [release, setRange_length, setRange_length]) fun j => ?_
  rw [release, get_setRange, get_setRange]
  by_cases hin : start ≤ j ∧ j < start + count
  · rw [if_pos hin, (h j hin.1 hin.2).2]
  · rw [if_neg hin, if_neg hin]

/-- `allocate` takes the first window of free resources, or from the back the last, fails only when there is
none, and changes nothing but the window; `release` gives it back. -/
theorem allocate_exact (b : BitMap) (count : Nat) (reverse : Bool) (hcount : 1 ≤ count) :
    (∀ s, (b.allocateIn count false).1 = some s ↔ IsLeast {s | b.Fits count s} s) ∧
      (∀ s, (b.allocateIn count true).1 = some s ↔ IsGreatest {s | b.Fits count s} s) ∧
      ((b.allocateIn count reverse).1 = none ↔ ∀ s, ¬b.Fits count s) ∧
      ((b.allocateIn count reverse).1 = none → (b.allocateIn count reverse).2 = b) ∧
      ∀ s, (b.allocateIn count reverse).1 = some s →
        (b.allocateIn count reverse).2.length = b.length ∧
        (∀ j, (b.allocateIn count reverse).2.get j = if s ≤ j ∧ j < s + count then true else b.get j) ∧
        (b.allocateIn count reverse).2.release s count = b := by
  have hchosen : ∀ reverse s, (b.allocateIn count reverse).1 = some s ↔ b.Chosen count reverse s := by
    intro reverse s
    obtain ⟨s', heq, hs'⟩ | ⟨heq, hnone⟩ := b.allocateIn_cases hcount reverse
    · rw [heq]
      constructor
      · rintro ⟨⟩
        exact hs'
      · exact fun hs => congrArg some (hs'.unique hs)
    · rw [heq]
      exact ⟨fun h => (nomatch h), fun hs => absurd hs.fits (hnone s)⟩
  refine ⟨hchosen false, hchosen true, ?_⟩
  obtain ⟨s', heq, hs'⟩ | ⟨heq, hnone⟩ := b.allocateIn_cases hcount reverse
  · rw [heq]
    refine ⟨⟨fun h => (nomatch h), fun h => absurd hs'.fits (h s')⟩, fun h => (nomatch h), ?_⟩
    rintro s ⟨⟩
    exact ⟨setRange_length _ _ _ _, get_setRange b s' count true, release_setRange hs'.fits⟩
  · rw [heq]
    exact ⟨⟨fun _ => hnone, fun _ => rfl⟩, fun _ => rfl, fun s h => (nomatch h)⟩

/-- Eight resources, the first and the fourth in use. -/
def eightResources : BitMap := ⟨fun _ => 9#8, 8⟩

theorem allocate_exact_eight :
    (eightResources.allocateIn 2 false).1 = some 1 ∧ (eightResources.allocateIn 2 true).1 = some 6 ∧
      (eightResources.allocateIn 2 true).2.release 6 2 = eightResources := by
  have hback : (eightResources.allocateIn 2 true).1 = some 6 := by decide
  exact ⟨by decide, hback,
    ((allocate_exact eightResources 2 true (by decide)).2.2.2.2 6 hback).2.2⟩

end BitMap

end SysuOs
