import Mathlib
import SysuOs.Dyadic

/-! Families of aligned power-of-two blocks in which no two buddies are left apart. The blocks of
such a family are the largest ones its numbers allow, so that the numbers determine the blocks: in
whatever order the blocks were merged, the same ones are left. -/

namespace Dyadic

/-- A number lies in a block of the family. -/
def Covered (B : Nat → Nat → Prop) (p : Nat) : Prop := ∃ o s, B o s ∧ Covers s o p

/-- A family of blocks, `B o s` for the block of order `o` at `s`: aligned, of order at most `top`,
and no two of them meet. Below the top order no two of them are buddies. -/
structure Family (B : Nat → Nat → Prop) (top : Nat) : Prop where
  le_top : ∀ {o s}, B o s → o ≤ top
  aligned : ∀ {o s}, B o s → 2 ^ o ∣ s
  apart : ∀ {o s o' s' p}, B o s → B o' s' → Covers s o p → Covers s' o' p → o = o' ∧ s = s'
  merged : ∀ {o s}, o < top → B o s → ¬B o (buddy s o)

theorem buddy_of_dvd_succ {s o : Nat} (hs : 2 ^ (o + 1) ∣ s) : buddy s o = s + 2 ^ o := by
  have hlow : 2 ^ o ∣ s := (Nat.pow_dvd_pow 2 (Nat.le_succ o)).trans hs
  rcases buddy_cases hlow with ⟨-, hb⟩ | ⟨hb, hsb⟩
  · exact hb
  · -- the buddy would be aligned to the next order as well
    have hpow : 2 ^ (o + 1) ∣ 2 ^ o := (Nat.dvd_add_right hb).mp (hsb ▸ hs)
    have hle := Nat.le_of_dvd (Nat.two_pow_pos o) hpow
    rw [pow_succ] at hle
    have hpos := Nat.two_pow_pos o
    omega

theorem covers_succ {s o p : Nat} (hs : 2 ^ (o + 1) ∣ s) :
    Covers s (o + 1) p ↔ Covers s o p ∨ Covers (buddy s o) o p := by
  have hlow : 2 ^ o ∣ s := (Nat.pow_dvd_pow 2 (Nat.le_succ o)).trans hs
  have hmin : min s (buddy s o) = s := by
    rw [buddy_of_dvd_succ hs]
    exact Nat.min_eq_left (Nat.le_add_right s _)
  calc Covers s (o + 1) p ↔ Covers (min s (buddy s o)) (o + 1) p := by rw [hmin]
    _ ↔ Covers s o p ∨ Covers (buddy s o) o p := covers_merge hlow

section Maximal

variable {B B' : Nat → Nat → Prop} {top : Nat}

/-- A block all of whose numbers are covered lies in a block of the family that is as large. -/
theorem Family.maximal (h : Family B top) {k t : Nat} (hk : k ≤ top) (ht : 2 ^ k ∣ t)
    (hall : ∀ p, Covers t k p → Covered B p) : ∃ o s, B o s ∧ k ≤ o ∧ Covers s o t := by
  induction k generalizing t with
  | zero =>
      obtain ⟨o, s, hB, hcov⟩ := hall t (covers_start t 0)
      exact ⟨o, s, hB, Nat.zero_le o, hcov⟩
  | succ k ih =>
      have hlow : 2 ^ k ∣ t := (Nat.pow_dvd_pow 2 (Nat.le_succ k)).trans ht
      have hup : 2 ^ k ∣ buddy t k := dvd_buddy hlow
      have hhalf := fun p => covers_succ (p := p) ht
      obtain ⟨o, s, hB, hko, hcov⟩ :=
        ih (Nat.le_of_succ_le hk) hlow fun p hp => hall p ((hhalf p).mpr (Or.inl hp))
      obtain ⟨o', s', hB', hko', hcov'⟩ :=
        ih (Nat.le_of_succ_le hk) hup fun p hp => hall p ((hhalf p).mpr (Or.inr hp))
      rcases eq_or_lt_of_le hko with rfl | hlt
      · rcases eq_or_lt_of_le hko' with rfl | hlt'
        · -- both halves are blocks of the family, but buddies are not
          obtain rfl : s = t := eq_of_meet (h.aligned hB) hlow hcov (covers_start t k)
          obtain rfl : s' = buddy s k := eq_of_meet (h.aligned hB') hup hcov' (covers_start _ k)
          exact absurd hB' (h.merged hk hB)
        · refine ⟨o', s', hB', hlt', ?_⟩
          exact covers_of_meet ht (h.aligned hB') hlt' ((hhalf _).mpr (Or.inr (covers_start _ k)))
            hcov' (covers_start t (k + 1))
      · exact ⟨o, s, hB, hlt, hcov⟩

theorem Family.mem_of_covered (h : Family B top) (h' : Family B' top)
    (hsame : ∀ p, Covered B p ↔ Covered B' p) {o s : Nat} (hB : B o s) : B' o s := by
  obtain ⟨o₁, s₁, hB₁, hle₁, hcov₁⟩ :=
    h'.maximal (h.le_top hB) (h.aligned hB) fun p hp => (hsame p).mp ⟨o, s, hB, hp⟩
  obtain ⟨o₂, s₂, hB₂, hle₂, hcov₂⟩ :=
    h.maximal (h'.le_top hB₁) (h'.aligned hB₁) fun p hp => (hsame p).mpr ⟨o₁, s₁, hB₁, hp⟩
  have hcov : Covers s₂ o₂ s :=
    covers_of_meet (h'.aligned hB₁) (h.aligned hB₂) hle₂ (covers_start s₁ o₁) hcov₂ hcov₁
  obtain ⟨rfl, rfl⟩ := h.apart hB hB₂ (covers_start s o) hcov
  obtain rfl : o₁ = o := le_antisymm hle₂ hle₁
  obtain rfl : s₁ = s :=
    eq_of_meet (h'.aligned hB₁) (h.aligned hB) hcov₁ (covers_start s o₁)
  exact hB₁

/-- Two families that cover the same numbers are the same. -/
theorem Family.unique (h : Family B top) (h' : Family B' top)
    (hsame : ∀ p, Covered B p ↔ Covered B' p) (o s : Nat) : B o s ↔ B' o s :=
  ⟨fun hB => h.mem_of_covered h' hsame hB,
    fun hB => h'.mem_of_covered h (fun p => (hsame p).symm) hB⟩

end Maximal

end Dyadic
