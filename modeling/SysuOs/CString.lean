import Mathlib
import SysuOs.Machine

/-! Strings of C in a piece of memory: the characters from a place on, up to their NUL. `strlen` counts
them. -/

namespace SysuOs

/-- The string that begins at a place of a buffer. -/
def stringAt (buf : List Char) (idx : ℕ) : List Char := (buf.drop idx).takeWhile (· ≠ '\x00')

theorem stringAt_of_drop {buf s rest : List Char} {idx : ℕ} (h : buf.drop idx = s ++ '\x00' :: rest)
    (hs : '\x00' ∉ s) : stringAt buf idx = s := by
  have hne : ∀ c ∈ s, decide (c ≠ '\x00') = true := by
    intro c hc
    have : c ≠ '\x00' := fun he => hs (he ▸ hc)
    simpa using this
  rw [stringAt, h, List.takeWhile_append_of_pos hne]
  simp

theorem stringAt_append {before s rest : List Char} (hs : '\x00' ∉ s) :
    stringAt (before ++ (s ++ '\x00' :: rest)) before.length = s :=
  stringAt_of_drop List.drop_left hs

/-- A string of `len` characters before its end. -/
structure CStr (str : ByteMap) (len : ℕ) : Prop where
  chars : ∀ j, j < len → str j ≠ 0#8
  stop : str len = 0#8

/-- The loop of `strlen`, from character `size` on. -/
def strlen (ptr : ByteMap) : ℕ → ℕ → Outcome ℕ
  | 0, _ => .diverge
  | fuel + 1, size => if ptr size ≠ 0#8 then strlen ptr fuel (size + 1) else .ret size

section

variable {str str' : ByteMap} {len fuel k idx : ℕ} {buf : List Char} {code : Char → Byte}

theorem CStr.congr (h : CStr str len) (heq : ∀ j, j ≤ len → str' j = str j) : CStr str' len where
  chars := fun j hj => (heq j (le_of_lt hj)).symm ▸ h.chars j hj
  stop := (heq len (le_refl len)).trans h.stop

theorem strlen_spec (h : CStr str len) (hk : k ≤ len) (hfuel : len < k + fuel) :
    strlen str fuel k = .ret len := by
  induction fuel generalizing k with
  | zero => omega
  | succ fuel ih =>
      rw [strlen]
      rcases Nat.eq_or_lt_of_le hk with rfl | hlt
      · rw [if_neg (not_not.mpr h.stop)]
      · rw [if_pos (h.chars k hlt)]
        exact ih hlt (by omega)

/-- A string in a buffer of characters is one of its bytes, whatever code the characters have that is zero for
the NUL only. -/
theorem cstr_stringAt (hcode : ∀ c ∈ buf, code c = 0#8 ↔ c = '\x00') (hend : '\x00' ∈ buf.drop idx) :
    CStr (fun k => code (buf.getD (idx + k) '\x00')) (stringAt buf idx).length := by
  obtain ⟨s, rest, hdrop, hs⟩ := List.eq_append_cons_of_mem hend
  have hmem : ∀ c ∈ s ++ '\x00' :: rest, c ∈ buf := fun c hc => List.mem_of_mem_drop (hdrop ▸ hc)
  have hread : ∀ k, buf.getD (idx + k) '\x00' = (s ++ '\x00' :: rest).getD k '\x00' := by
    intro k
    rw [List.getD_eq_getElem?_getD, List.getD_eq_getElem?_getD, ← hdrop, List.getElem?_drop]
  rw [stringAt_of_drop hdrop hs]
  constructor
  · intro j hj hzero
    have hin : s[j] ∈ s := List.getElem_mem hj
    rw [hread, List.getD_append _ _ _ _ hj, List.getD_eq_getElem _ _ hj] at hzero
    have hnul := (hcode _ (hmem _ (List.mem_append_left _ hin))).mp hzero
    exact hs (hnul ▸ hin)
  · rw [hread, List.getD_append_right _ _ _ _ (le_refl _), Nat.sub_self]
    exact (hcode _ (hmem _ (by simp))).mpr rfl

theorem strlen_stringAt (hcode : ∀ c ∈ buf, code c = 0#8 ↔ c = '\x00') (hend : '\x00' ∈ buf.drop idx)
    (hfuel : buf.length < fuel) :
    strlen (fun k => code (buf.getD (idx + k) '\x00')) fuel 0 = .ret (stringAt buf idx).length := by
  have hle : (stringAt buf idx).length ≤ buf.length := by
    refine (List.takeWhile_prefix _).length_le.trans ?_
    rw [List.length_drop]
    exact Nat.sub_le _ _
  exact strlen_spec (cstr_stringAt hcode hend) (Nat.zero_le _) (by omega)

end

end SysuOs
