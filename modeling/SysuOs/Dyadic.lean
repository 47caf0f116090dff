import Mathlib

/-! Aligned power-of-two blocks of natural numbers, the arithmetic under a buddy allocator. The
block of order `o` at a multiple `s` of `2 ^ o` consists of the numbers `p` with
`p / 2 ^ o = s / 2 ^ o`; every fact below is read off that description. -/

namespace Dyadic

/-- The block of `2 ^ o` numbers from `s` on. -/
def Covers (s o p : Nat) : Prop := s ≤ p ∧ p < s + 2 ^ o

instance (s o p : Nat) : Decidable (Covers s o p) := inferInstanceAs (Decidable (_ ∧ _))

/-- The block a block is merged with: the other half of the block of the next order. -/
def buddy (s o : Nat) : Nat := s ^^^ 2 ^ o

theorem covers_start (s o : Nat) : Covers s o s :=
  ⟨le_refl s, Nat.lt_add_of_pos_right (Nat.two_pow_pos o)⟩

theorem covers_iff_div {s o p : Nat} (hs : 2 ^ o ∣ s) : Covers s o p ↔ p / 2 ^ o = s / 2 ^ o := by
  obtain ⟨q, rfl⟩ := hs
  have hpos : 0 < 2 ^ o := Nat.two_pow_pos o
  rw [Nat.mul_div_cancel_left q hpos, Nat.div_eq_iff hpos, Covers, Nat.mul_comm]
  omega

theorem eq_of_div_eq {s t o : Nat} (hs : 2 ^ o ∣ s) (ht : 2 ^ o ∣ t) (h : s / 2 ^ o = t / 2 ^ o) :
    s = t := by
  rw [← Nat.mul_div_cancel' hs, h, Nat.mul_div_cancel' ht]

theorem xor_one_div_two (q : Nat) : (q ^^^ 1) / 2 = q / 2 := by
  simpa using Nat.xor_div_two_pow (a := q) (b := 1) (n := 1)

theorem xor_one_eq (q : Nat) : q ^^^ 1 = if q % 2 = 0 then q + 1 else q - 1 := by
  have hdiv := xor_one_div_two q
  have hmod := Nat.xor_mod_two_eq (m := q) (n := 1)
  split <;> omega

theorem buddy_div (s o : Nat) : buddy s o / 2 ^ o = s / 2 ^ o ^^^ 1 := by
  rw [buddy, Nat.xor_div_two_pow, Nat.div_self (Nat.two_pow_pos o)]

theorem dvd_buddy {s o : Nat} (hs : 2 ^ o ∣ s) : 2 ^ o ∣ buddy s o := by
  rw [Nat.dvd_iff_mod_eq_zero, buddy, Nat.xor_mod_two_pow, Nat.dvd_iff_mod_eq_zero.mp hs,
    Nat.mod_self, Nat.xor_self]

theorem buddy_buddy (s o : Nat) : buddy (buddy s o) o = s := by
  rw [buddy, buddy, Nat.xor_assoc, Nat.xor_self, Nat.xor_zero]

theorem buddy_ne (s o : Nat) : buddy s o ≠ s := by
  intro h
  have hx : s ^^^ 2 ^ o = s ^^^ 0 := by rw [Nat.xor_zero]; exact h
  exact absurd (Nat.xor_right_inj.mp hx) (Nat.two_pow_pos o).ne'

/-- A block is a lower half or an upper half, and its buddy is the other one. -/
theorem buddy_cases {s o : Nat} (hs : 2 ^ o ∣ s) :
    (2 ^ (o + 1) ∣ s ∧ buddy s o = s + 2 ^ o) ∨
      (2 ^ (o + 1) ∣ buddy s o ∧ s = buddy s o + 2 ^ o) := by
  obtain ⟨q, rfl⟩ := hs
  have hpos : 0 < 2 ^ o := Nat.two_pow_pos o
  have hb : buddy (2 ^ o * q) o = 2 ^ o * (q ^^^ 1) := by
    rw [← Nat.mul_div_cancel' (dvd_buddy (Nat.dvd_mul_right (2 ^ o) q)),
      buddy_div, Nat.mul_div_cancel_left q hpos]
  rw [hb, xor_one_eq]
  by_cases hq : q % 2 = 0
  · left
    rw [if_pos hq]
    exact ⟨by rw [pow_succ]; exact Nat.mul_dvd_mul_left _ (Nat.dvd_of_mod_eq_zero hq), by ring⟩
  · right
    rw [if_neg hq]
    refine ⟨?_, ?_⟩
    · rw [pow_succ]
      exact Nat.mul_dvd_mul_left _ (by omega)
    · have hq1 : q = q - 1 + 1 := by omega
      calc 2 ^ o * q = 2 ^ o * (q - 1 + 1) := by rw [← hq1]
        _ = 2 ^ o * (q - 1) + 2 ^ o := by ring

/-- The start of the block a block and its buddy make up. -/
theorem dvd_min_buddy {s o : Nat} (hs : 2 ^ o ∣ s) : 2 ^ (o + 1) ∣ min s (buddy s o) := by
  rcases buddy_cases hs with ⟨hdvd, hb⟩ | ⟨hdvd, hb⟩
  · rwa [Nat.min_eq_left (by omega)]
  · rwa [Nat.min_eq_right (by omega)]

/-- A block and its buddy make up a block of the next order. -/
theorem covers_merge {s o p : Nat} (hs : 2 ^ o ∣ s) :
    Covers (min s (buddy s o)) (o + 1) p ↔ Covers s o p ∨ Covers (buddy s o) o p := by
  have hpow : 2 ^ (o + 1) = 2 ^ o + 2 ^ o := by ring
  rcases buddy_cases hs with ⟨-, hb⟩ | ⟨-, hb⟩
  · rw [Nat.min_eq_left (by omega), hb]
    simp only [Covers, hpow]
    omega
  · rw [Nat.min_eq_right (by omega)]
    simp only [Covers, hpow]
    omega

/-- Two aligned blocks that meet are nested. -/
theorem covers_of_meet {s o t k p q : Nat} (hs : 2 ^ o ∣ s) (ht : 2 ^ k ∣ t) (hok : o ≤ k)
    (hp : Covers s o p) (hp' : Covers t k p) (hq : Covers s o q) : Covers t k q := by
  rw [covers_iff_div hs] at hp hq
  rw [covers_iff_div ht] at hp' ⊢
  obtain ⟨d, rfl⟩ := Nat.exists_eq_add_of_le hok
  rw [pow_add, ← Nat.div_div_eq_div_mul, hq, ← hp, Nat.div_div_eq_div_mul, ← pow_add, hp']

/-- Two aligned blocks of one order that meet are the same. -/
theorem eq_of_meet {s t o p : Nat} (hs : 2 ^ o ∣ s) (ht : 2 ^ o ∣ t) (hp : Covers s o p)
    (hp' : Covers t o p) : s = t :=
  eq_of_div_eq hs ht (((covers_iff_div hs).mp hp).symm.trans ((covers_iff_div ht).mp hp'))

/-- A block of order `o` ends where a multiple of a larger power begins, or before it. -/
theorem end_le_of_lt {s o m : Nat} (hs : 2 ^ o ∣ s) (hm : 2 ^ o ∣ m) (hlt : s < m) :
    s + 2 ^ o ≤ m := by
  obtain ⟨a, rfl⟩ := hs
  obtain ⟨b, rfl⟩ := hm
  have hab : a < b := lt_of_mul_lt_mul_left hlt (Nat.zero_le _)
  calc 2 ^ o * a + 2 ^ o = 2 ^ o * (a + 1) := by ring
    _ ≤ 2 ^ o * b := Nat.mul_le_mul_left _ hab

end Dyadic
