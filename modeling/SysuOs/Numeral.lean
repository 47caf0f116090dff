import Mathlib

/-! Numerals in a base up to sixteen: their digits, and the value a string of characters is read as.
A numeral may be signed, begin with zeros and stand between blanks. -/

namespace Numeral

variable {b n : ℕ}

/-- The digits of a number, most significant first; zero has none. -/
def digits (b n : ℕ) : List Char := if n = 0 then [] else Nat.toDigits b n

@[simp] theorem digits_zero (b : ℕ) : digits b 0 = [] := rfl

theorem digits_of_pos (h : 0 < n) : digits b n = Nat.toDigits b n := if_neg h.ne'

/-- The last digit is the remainder, and the others are the digits of the quotient. -/
theorem digits_step (hb : 1 < b) (h : 0 < n) :
    digits b n = digits b (n / b) ++ [(n % b).digitChar] := by
  rw [digits_of_pos h]
  by_cases hn : n < b
  · rw [Nat.toDigits_of_lt_base hn, Nat.div_eq_of_lt hn, Nat.mod_eq_of_lt hn]
    simp
  · rw [Nat.toDigits_of_base_le hb (Nat.le_of_not_lt hn)]
    rw [digits_of_pos (Nat.div_pos (Nat.le_of_not_lt hn) (by omega))]

/-! ### Reading -/

/-- The digit a character stands for. -/
def digitOf (b : ℕ) (c : Char) : Option ℕ := (List.range b).find? fun d => d.digitChar == c

theorem digitOf_digitChar {d : ℕ} (hb : b ≤ 16) (hd : d < b) : digitOf b d.digitChar = some d := by
  interval_cases b <;> interval_cases d <;> rfl

/-- The value of the characters behind a part whose value is `n`. -/
def readFrom (b : ℕ) : ℕ → List Char → Option ℕ
  | n, [] => some n
  | n, c :: s => (digitOf b c).bind fun d => readFrom b (b * n + d) s

/-- The value of a string of digits, of which there must be one. -/
def read (b : ℕ) : List Char → Option ℕ
  | [] => none
  | c :: s => readFrom b 0 (c :: s)

/-- The value of a string of digits with an optional `-` before them. -/
def readSigned (b : ℕ) : List Char → Option ℤ
  | [] => none
  | c :: s =>
    if c = '-' then (read b s).map fun n : ℕ => -(n : ℤ)
    else (read b (c :: s)).map fun n : ℕ => (n : ℤ)

theorem readFrom_append (s t : List Char) (n : ℕ) :
    readFrom b n (s ++ t) = (readFrom b n s).bind fun m => readFrom b m t := by
  induction s generalizing n with
  | nil => rfl
  | cons c s ih =>
    rw [List.cons_append, readFrom, readFrom]
    cases digitOf b c with
    | none => rfl
    | some d => exact ih _

theorem read_eq_readFrom {s : List Char} (h : s ≠ []) : read b s = readFrom b 0 s := by
  cases s with
  | nil => exact absurd rfl h
  | cons c s => rfl

theorem readFrom_digits (hb : 1 < b) (hb' : b ≤ 16) (n : ℕ) : readFrom b 0 (digits b n) = some n := by
  induction n using Nat.strong_induction_on with
  | _ n ih =>
    rcases Nat.eq_zero_or_pos n with rfl | hn
    · rfl
    · rw [digits_step hb hn, readFrom_append, ih _ (Nat.div_lt_self hn hb)]
      simp only [Option.bind_some, readFrom, digitOf_digitChar hb' (Nat.mod_lt n (by omega))]
      rw [Nat.div_add_mod]

/-- What is read is the number that was written. -/
theorem read_toDigits (hb : 1 < b) (hb' : b ≤ 16) (n : ℕ) : read b (Nat.toDigits b n) = some n := by
  rw [read_eq_readFrom Nat.toDigits_ne_nil]
  rcases Nat.eq_zero_or_pos n with rfl | hn
  · rw [Nat.toDigits_zero]
    exact congrArg (fun d => Option.bind d fun d => some (b * 0 + d))
      (digitOf_digitChar hb' (Nat.zero_lt_of_lt hb))
  · rw [← digits_of_pos hn]
    exact readFrom_digits hb hb' n

/-- Zeros before a numeral do not change its value. -/
theorem read_zeros (hb : 0 < b) (hb' : b ≤ 16) {s : List Char} (h : s ≠ []) (k : ℕ) :
    read b (List.replicate k '0' ++ s) = read b s := by
  have h0 : readFrom b 0 (List.replicate k '0') = some 0 := by
    induction k with
    | zero => rfl
    | succ k ih =>
      have hd : digitOf b '0' = some 0 := digitOf_digitChar hb' hb
      rw [List.replicate_succ, readFrom, hd]
      exact ih
  rw [read_eq_readFrom (by simp [h]), readFrom_append, h0, read_eq_readFrom h]
  rfl

/-! ### The shape of a numeral -/

/-- No numeral of more than one digit begins with a zero. -/
def NoLeadingZero (s : List Char) : Prop := s.head? = some '0' → s = ['0']

instance (s : List Char) : Decidable (NoLeadingZero s) := inferInstanceAs (Decidable (_ → _))

theorem digits_head (hb : 1 < b) (hb' : b ≤ 16) (n : ℕ) : (digits b n).head? ≠ some '0' := by
  induction n using Nat.strong_induction_on with
  | _ n ih =>
    rcases Nat.eq_zero_or_pos n with rfl | hn
    · simp
    · rw [digits_step hb hn]
      cases hq : digits b (n / b) with
      | nil =>
        have hz : n / b = 0 := by
          by_contra h
          rw [digits_of_pos (Nat.pos_of_ne_zero h)] at hq
          exact Nat.toDigits_ne_nil hq
        have hlt : n < b := (Nat.div_eq_zero_iff.mp hz).resolve_left (by omega)
        rw [Nat.mod_eq_of_lt hlt]
        simpa using hn.ne'
      | cons c s =>
        have hc := ih _ (Nat.div_lt_self hn hb)
        rw [hq] at hc
        simpa using hc

theorem noLeadingZero_toDigits (hb : 1 < b) (hb' : b ≤ 16) (n : ℕ) :
    NoLeadingZero (Nat.toDigits b n) := by
  intro h
  rcases Nat.eq_zero_or_pos n with rfl | hn
  · exact Nat.toDigits_zero b
  · rw [← digits_of_pos hn] at h
    exact absurd h (digits_head hb hb' n)

/-- The characters of a numeral are digits. -/
theorem mem_digits (hb : 1 < b) {n : ℕ} {c : Char} (h : c ∈ digits b n) : ∃ d < b, d.digitChar = c := by
  induction n using Nat.strong_induction_on with
  | _ n ih =>
    rcases Nat.eq_zero_or_pos n with rfl | hn
    · simp at h
    · rw [digits_step hb hn, List.mem_append, List.mem_singleton] at h
      rcases h with h | rfl
      · exact ih _ (Nat.div_lt_self hn hb) h
      · exact ⟨_, Nat.mod_lt n (by omega), rfl⟩

theorem mem_toDigits (hb : 1 < b) {n : ℕ} {c : Char} (h : c ∈ Nat.toDigits b n) :
    ∃ d < b, d.digitChar = c := by
  rcases Nat.eq_zero_or_pos n with rfl | hn
  · rw [Nat.toDigits_zero, List.mem_singleton] at h
    exact ⟨0, by omega, h.symm⟩
  · rw [← digits_of_pos hn] at h
    exact mem_digits hb h

theorem readSigned_neg (b : ℕ) (s : List Char) :
    readSigned b ('-' :: s) = (read b s).map fun n : ℕ => -(n : ℤ) := by
  rw [readSigned, if_pos rfl]

theorem readSigned_of_head {s : List Char} (h : s.head? ≠ some '-') :
    readSigned b s = (read b s).map fun n : ℕ => (n : ℤ) := by
  cases s with
  | nil => rfl
  | cons c s =>
    have hc : c ≠ '-' := fun he => h (congrArg some he)
    rw [readSigned, if_neg hc]

theorem head_toDigits (hb : 1 < b) (n : ℕ) : (Nat.toDigits b n).head? ≠ some '-' := by
  intro hhead
  obtain ⟨d, -, hd⟩ := mem_toDigits hb (List.mem_of_mem_head? hhead)
  exact Nat.digitChar_ne '-' (by decide) hd

/-! ### Blanks -/

/-- A string without the blanks at its ends. -/
def trim (s : List Char) : List Char := (s.dropWhile (· = ' ')).rdropWhile (· = ' ')

theorem dropWhile_blanks {s : List Char} (h : ' ' ∉ s) (k : ℕ) :
    (List.replicate k ' ' ++ s).dropWhile (· = ' ') = s := by
  induction k with
  | zero =>
    cases s with
    | nil => rfl
    | cons c s =>
      have hc : c ≠ ' ' := fun he => h (he ▸ List.mem_cons_self)
      simp [hc]
  | succ k ih =>
    rw [List.replicate_succ, List.cons_append, List.dropWhile_cons_of_pos (by simp)]
    exact ih

theorem trim_blanks {s : List Char} (h : ' ' ∉ s) (hs : s ≠ []) (k l : ℕ) :
    trim (List.replicate k ' ' ++ (s ++ List.replicate l ' ')) = s := by
  have hfirst : (List.replicate k ' ' ++ (s ++ List.replicate l ' ')).dropWhile (· = ' ') =
      s ++ List.replicate l ' ' := by
    cases s with
    | nil => exact absurd rfl hs
    | cons c s =>
      have hc : c ≠ ' ' := fun he => h (he ▸ List.mem_cons_self)
      induction k with
      | zero => simp [hc]
      | succ k ih =>
        rw [List.replicate_succ, List.cons_append, List.dropWhile_cons_of_pos (by simp)]
        exact ih
  rw [trim, hfirst, List.rdropWhile, List.reverse_append, List.reverse_replicate]
  rw [dropWhile_blanks (by simpa using h), List.reverse_reverse]

end Numeral
