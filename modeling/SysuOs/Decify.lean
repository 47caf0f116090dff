import SysuOs.CString
import SysuOs.Numeral

/-! `sign_decify`, `unsign_decify` and `hexify` of the `printf` family, for 32-bit numbers. They fill a
buffer from its end towards its beginning and return where the numeral begins. -/

namespace SysuOs.Vsprintf

open Numeral

/-- `MAX_NUM_LENGTH`. -/
def maxNumLength : ℕ := 128

/-- `buf[--idx] = c`; `none` is a write outside of the buffer. -/
def store (buf : List Char) (idx : ℕ) (c : Char) : Option (List Char × ℕ) :=
  if 0 < idx ∧ idx ≤ buf.length then some (buf.set (idx - 1) c, idx - 1) else none

/-- The loop `while (number > 0)`. -/
def digitLoop (base : ℕ) (hb : 1 < base) (digit : ℕ → Char) (number : ℕ) (buf : List Char) (idx : ℕ) :
    Option (List Char × ℕ) :=
  if _h : 0 < number then do
    let s ← store buf idx (digit (number % base))
    digitLoop base hb digit (number / base) s.1 s.2
  else some (buf, idx)
termination_by number
decreasing_by exact Nat.div_lt_self ‹0 < number› hb

/-- What the three functions do with a number from which the sign was taken: a zero gets its digit
here, and the loop does not run for it, nor for a number that is still negative. -/
def decify (base : ℕ) (hb : 1 < base) (digit : ℕ → Char) (number : ℤ) (buf : List Char) (idx : ℕ) :
    Option (List Char × ℕ) := do
  let s ← if number = 0 then store buf idx '0' else some (buf, idx)
  digitLoop base hb digit number.toNat s.1 s.2

/-- `'0' + d`. -/
def decDigit (d : ℕ) : Char := Char.ofNat ('0'.toNat + d)

/-- `digit < 10 ? ('0' + digit) : ('a' + digit - 10)`. -/
def hexDigit (d : ℕ) : Char :=
  if d < 10 then Char.ofNat ('0'.toNat + d) else Char.ofNat ('a'.toNat + d - 10)

/-- `sign_decify`. -/
def signDecify (number : BitVec 32) (buf : List Char) : Option (List Char × ℕ) := do
  let idx := maxNumLength
  let buf := buf.set idx '\x00'
  let negative := decide (number.toInt < 0)
  let number := if negative then -number else number
  let s ← decify 10 (by decide) decDigit number.toInt buf idx
  if negative then store s.1 s.2 '-' else some s

/-- `unsign_decify`. -/
def unsignDecify (number : BitVec 32) (buf : List Char) : Option (List Char × ℕ) :=
  decify 10 (by decide) decDigit number.toNat (buf.set maxNumLength '\x00') maxNumLength

/-- `hexify`. -/
def hexify (number : BitVec 32) (buf : List Char) : Option (List Char × ℕ) :=
  decify 16 (by decide) hexDigit number.toNat (buf.set maxNumLength '\x00') maxNumLength

/-! ### What they leave in the buffer -/

theorem decDigit_eq {d : ℕ} (h : d < 10) : decDigit d = d.digitChar := by
  interval_cases d <;> rfl

theorem hexDigit_eq {d : ℕ} (h : d < 16) : hexDigit d = d.digitChar := by
  interval_cases d <;> rfl

/-- The buffer holds `s` from `idx` on, and after it what it held from `top` on. -/
structure Filled (buf : List Char) (top : ℕ) (s : List Char) (r : List Char × ℕ) : Prop where
  length : r.1.length = buf.length
  idx : r.2 + s.length = top
  drop : r.1.drop r.2 = s ++ buf.drop top

theorem Filled.refl (buf : List Char) (top : ℕ) : Filled buf top [] (buf, top) := ⟨rfl, rfl, rfl⟩

theorem Filled.trans {buf : List Char} {top : ℕ} {s t : List Char} {r r' : List Char × ℕ}
    (h : Filled buf top s r) (h' : Filled r.1 r.2 t r') : Filled buf top (t ++ s) r' where
  length := h'.length.trans h.length
  idx := by rw [List.length_append, ← add_assoc, h'.idx, h.idx]
  drop := by rw [h'.drop, h.drop, List.append_assoc]

theorem store_filled {buf : List Char} {idx : ℕ} (c : Char) (h : 0 < idx) (hl : idx ≤ buf.length) :
    ∃ r, store buf idx c = some r ∧ Filled buf idx [c] r := by
  refine ⟨_, if_pos ⟨h, hl⟩, by simp, by simpa using Nat.sub_add_cancel h, ?_⟩
  have hi : idx - 1 < (buf.set (idx - 1) c).length := by simp; omega
  rw [List.drop_eq_getElem_cons hi, Nat.sub_add_cancel h, List.drop_set_of_lt (by omega)]
  simp

theorem digitLoop_filled {base : ℕ} (hb : 1 < base) {digit : ℕ → Char}
    (hd : ∀ d < base, digit d = d.digitChar) (number : ℕ) {buf : List Char} {idx : ℕ}
    (h : (digits base number).length ≤ idx) (hl : idx ≤ buf.length) :
    ∃ r, digitLoop base hb digit number buf idx = some r ∧ Filled buf idx (digits base number) r := by
  induction number using Nat.strong_induction_on generalizing buf idx with
  | _ number ih =>
    rw [digitLoop]
    rcases Nat.eq_zero_or_pos number with rfl | hn
    · exact ⟨_, rfl, Filled.refl buf idx⟩
    · rw [dif_pos hn, hd _ (Nat.mod_lt number (by omega))]
      rw [digits_step hb hn] at h ⊢
      simp only [List.length_append, List.length_singleton] at h
      obtain ⟨r, hr, hf⟩ := store_filled (number % base).digitChar (by omega : 0 < idx) hl
      have hidx : r.2 + 1 = idx := hf.idx
      obtain ⟨r', hr', hf'⟩ := ih _ (Nat.div_lt_self hn hb) (by omega : _ ≤ r.2)
        (by rw [hf.length]; omega)
      rw [hr]
      exact ⟨r', hr', hf.trans hf'⟩

/-- A number that is not negative leaves its numeral. -/
theorem decify_filled {base : ℕ} (hb : 1 < base) {digit : ℕ → Char}
    (hd : ∀ d < base, digit d = d.digitChar) (number : ℕ) {buf : List Char} {idx : ℕ}
    (h : (Nat.toDigits base number).length ≤ idx) (hl : idx ≤ buf.length) :
    ∃ r, decify base hb digit number buf idx = some r ∧
      Filled buf idx (Nat.toDigits base number) r := by
  rw [decify]
  rcases Nat.eq_zero_or_pos number with rfl | hn
  · rw [Nat.toDigits_zero] at h ⊢
    obtain ⟨r, hr, hf⟩ := store_filled '0' h hl
    refine ⟨r, ?_, hf⟩
    simp only [Nat.cast_zero, if_true, hr, Option.bind_eq_bind, Option.bind_some, Int.toNat_zero]
    rw [digitLoop, dif_neg (lt_irrefl 0)]
  · rw [← digits_of_pos hn] at h ⊢
    have hz : (number : ℤ) ≠ 0 := by omega
    simp only [hz, if_false, Option.bind_eq_bind, Option.bind_some, Int.toNat_natCast]
    exact digitLoop_filled hb hd number h hl

/-- A number that the negation left negative leaves nothing. -/
theorem decify_neg {base : ℕ} (hb : 1 < base) (digit : ℕ → Char) {number : ℤ} (hn : number < 0)
    (buf : List Char) (idx : ℕ) : decify base hb digit number buf idx = some (buf, idx) := by
  rw [decify, if_neg hn.ne, Int.toNat_of_nonpos hn.le]
  simp only [Option.bind_eq_bind, Option.bind_some]
  rw [digitLoop, dif_neg (lt_irrefl 0)]

/-! ### The strings they return -/

/-- The string `s` stands in the buffer before its last place, which ends it. -/
structure Returns (s : List Char) (r : List Char × ℕ) : Prop where
  inside : r.2 < maxNumLength ∧ maxNumLength < r.1.length
  string : stringAt r.1 r.2 = s

theorem Filled.returns {buf s : List Char} {r : List Char × ℕ} (hl : buf.length = maxNumLength + 1)
    (h : Filled (buf.set maxNumLength '\x00') maxNumLength s r) (hs : s ≠ []) (h0 : '\x00' ∉ s) :
    Returns s r where
  inside := by
    have := List.length_pos_iff.mpr hs
    have := h.idx
    have := h.length
    simp only [List.length_set] at *
    omega
  string := by
    have hlast : (buf.set maxNumLength '\x00').drop maxNumLength = ['\x00'] := by
      rw [List.drop_eq_getElem_cons (by simp [hl]), List.getElem_set_self]
      simp [hl]
    exact stringAt_of_drop (h.drop.trans (congrArg (s ++ ·) hlast)) h0

/-- The string that `sign_decify` returns. -/
def signed (number : BitVec 32) : List Char :=
  if number = BitVec.intMin 32 then ['-']
  else if number.toInt < 0 then '-' :: Nat.toDigits 10 number.toInt.natAbs
  else Nat.toDigits 10 number.toInt.natAbs

theorem zero_notMem_toDigits {b n : ℕ} (hb : 1 < b) : '\x00' ∉ Nat.toDigits b n := by
  intro h
  obtain ⟨d, -, hd⟩ := mem_toDigits hb h
  exact Nat.digitChar_ne '\x00' (by decide) hd

theorem length_toDigits_le {b : ℕ} (hb : 1 < b) {n : ℕ} (h : n < 2 ^ 32) :
    (Nat.toDigits b n).length ≤ 32 :=
  (Nat.length_toDigits_le_iff hb (by decide)).mpr (h.trans_le (Nat.pow_le_pow_left hb 32))

theorem unsignDecify_returns (number : BitVec 32) {buf : List Char}
    (hl : buf.length = maxNumLength + 1) :
    ∃ r, unsignDecify number buf = some r ∧ Returns (Nat.toDigits 10 number.toNat) r := by
  have hlen := length_toDigits_le (by decide : 1 < 10) number.isLt
  obtain ⟨r, hr, hf⟩ := decify_filled (by decide : 1 < 10) (fun d => decDigit_eq) number.toNat
    (hlen.trans (by decide : 32 ≤ maxNumLength)) (by simp [hl] : maxNumLength ≤ (buf.set _ '\x00').length)
  exact ⟨r, hr, hf.returns hl Nat.toDigits_ne_nil (zero_notMem_toDigits (by decide))⟩

theorem hexify_returns (number : BitVec 32) {buf : List Char} (hl : buf.length = maxNumLength + 1) :
    ∃ r, hexify number buf = some r ∧ Returns (Nat.toDigits 16 number.toNat) r := by
  have hlen := length_toDigits_le (by decide : 1 < 16) number.isLt
  obtain ⟨r, hr, hf⟩ := decify_filled (by decide : 1 < 16) (fun d => hexDigit_eq) number.toNat
    (hlen.trans (by decide : 32 ≤ maxNumLength)) (by simp [hl] : maxNumLength ≤ (buf.set _ '\x00').length)
  exact ⟨r, hr, hf.returns hl Nat.toDigits_ne_nil (zero_notMem_toDigits (by decide))⟩

theorem toInt_neg_of_neg {number : BitVec 32} (h : number.toInt < 0)
    (hm : number ≠ BitVec.intMin 32) : (-number).toInt = (number.toInt.natAbs : ℤ) := by
  rw [BitVec.toInt_neg_of_ne_intMin hm]
  omega

theorem signDecify_returns (number : BitVec 32) {buf : List Char}
    (hl : buf.length = maxNumLength + 1) :
    ∃ r, signDecify number buf = some r ∧ Returns (signed number) r := by
  have hlen := length_toDigits_le (b := 10) (n := number.toInt.natAbs) (by decide) (by
    have := number.toInt_lt
    have := number.le_toInt
    omega)
  have hbuf : maxNumLength ≤ (buf.set maxNumLength '\x00').length := by simp [hl]
  have hzero := zero_notMem_toDigits (b := 10) (n := number.toInt.natAbs) (by decide)
  rw [signed]
  by_cases hneg : number.toInt < 0
  · -- the `-` is stored before what the loop leaves, which is nothing for the least number
    simp only [signDecify, hneg, decide_true, if_true]
    by_cases hm : number = BitVec.intMin 32
    · have hfix : (-number).toInt < 0 := by rw [hm]; decide
      rw [if_pos hm, decify_neg _ _ hfix]
      obtain ⟨r, hr, hf⟩ := store_filled '-' (by decide : 0 < maxNumLength) hbuf
      exact ⟨r, hr, hf.returns hl (by simp) (by decide)⟩
    · rw [if_neg hm, toInt_neg_of_neg hneg hm]
      obtain ⟨r, hr, hf⟩ := decify_filled (by decide : 1 < 10) (fun d => decDigit_eq)
        number.toInt.natAbs (hlen.trans (by decide : 32 ≤ maxNumLength)) hbuf
      have hidx : r.2 + _ = maxNumLength := hf.idx
      have htop : maxNumLength = 128 := rfl
      obtain ⟨r', hr', hf'⟩ := store_filled '-' (by omega : 0 < r.2) (by
        rw [hf.length]
        omega)
      refine ⟨r', ?_, (hf.trans hf').returns hl (by simp) (by simpa using hzero)⟩
      rw [hr]
      exact hr'
  · have hm : number ≠ BitVec.intMin 32 := by
      rintro rfl
      exact hneg (by decide)
    have habs : number.toInt = (number.toInt.natAbs : ℤ) := by omega
    obtain ⟨r, hr, hf⟩ := decify_filled (by decide : 1 < 10) (fun d => decDigit_eq)
      number.toInt.natAbs (hlen.trans (by decide : 32 ≤ maxNumLength)) hbuf
    refine ⟨r, ?_, ?_⟩
    · simp only [signDecify, hneg, decide_false, Bool.false_eq_true, if_false]
      rw [habs, hr]
      rfl
    · rw [if_neg hm, if_neg hneg]
      exact hf.returns hl Nat.toDigits_ne_nil hzero

end SysuOs.Vsprintf
