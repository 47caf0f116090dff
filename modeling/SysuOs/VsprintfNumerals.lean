import SysuOs.VsprintfCount

/-! The numerals that are printed, read back. The least `int` has no numeral, since its negation is
negative again, and no padding of `2 ^ 31` or more is put out. -/

namespace SysuOs.Vsprintf

open Numeral

/-- The conversions of `%d`, `%u` and `%x`. -/
inductive Conversion where
  | signed
  | unsigned
  | hex
  deriving DecidableEq, Repr

namespace Conversion

/-- The function that makes the numeral. -/
def call : Conversion → BitVec 32 → List Char → Option (List Char × ℕ)
  | signed => signDecify
  | unsigned => unsignDecify
  | hex => hexify

def specifiers : Conversion → List Char
  | signed => ['d', 'i']
  | unsigned => ['u']
  | hex => ['x']

def value : Conversion → BitVec 32 → ℤ
  | signed, number => number.toInt
  | unsigned, number => number.toNat
  | hex, number => number.toNat

/-- How a string is read as a number. -/
def read : Conversion → List Char → Option ℤ
  | signed, s => Numeral.readSigned 10 s
  | unsigned, s => (Numeral.read 10 s).map fun n : ℕ => (n : ℤ)
  | hex, s => (Numeral.read 16 s).map fun n : ℕ => (n : ℤ)

/-- The string that is made. -/
def string : Conversion → BitVec 32 → List Char
  | signed, number => Vsprintf.signed number
  | unsigned, number => Nat.toDigits 10 number.toNat
  | hex, number => Nat.toDigits 16 number.toNat

end Conversion

/-- A string without the `-` before it. -/
def unsignedPart (s : List Char) : List Char := if s.head? = some '-' then s.tail else s

/-- The function returns a numeral of the number that stands in its buffer. -/
def ReadsBack (conv : Conversion) (number : BitVec 32) : Prop :=
  ∀ buf : List Char, buf.length = maxNumLength + 1 →
    ∃ r s, conv.call number buf = some r ∧ Returns s r ∧ s ≠ [] ∧ NoLeadingZero (unsignedPart s) ∧
      conv.read s = some (conv.value number)

/-- The specification prints the number in as many characters as its width says, or as many as the
numeral has. -/
def PadsTo (conv : Conversion) (number : BitVec 32) (format : Format) : Prop :=
  ∀ (mem : Memory) (ap : VaList), ap.head = number →
    ∃ p, vargToCallback mem format ap = some (p, ap.tail) ∧
      conv.read (trim p.out) = some (conv.value number) ∧
      p.out.length = max format.width.toNat (conv.string number).length

/-! ### The numerals -/

theorem call_returns (conv : Conversion) (number : BitVec 32) {buf : List Char}
    (hl : buf.length = maxNumLength + 1) :
    ∃ r, conv.call number buf = some r ∧ Returns (conv.string number) r := by
  cases conv with
  | signed => exact signDecify_returns number hl
  | unsigned => exact unsignDecify_returns number hl
  | hex => exact hexify_returns number hl

theorem signed_of_neg {number : BitVec 32} (h : number.toInt < 0) (hm : number ≠ BitVec.intMin 32) :
    signed number = '-' :: Nat.toDigits 10 number.toInt.natAbs := by
  rw [signed, if_neg hm, if_pos h]

theorem signed_of_nonneg {number : BitVec 32} (h : ¬number.toInt < 0) :
    signed number = Nat.toDigits 10 number.toInt.natAbs := by
  have hm : number ≠ BitVec.intMin 32 := by
    rintro rfl
    exact h (by decide)
  rw [signed, if_neg hm, if_neg h]

theorem signed_intMin : signed (BitVec.intMin 32) = ['-'] := if_pos rfl

/-- The numerals of a number are read as it, but for the least `int`. -/
theorem read_string (conv : Conversion) {number : BitVec 32}
    (h : conv = .signed → number ≠ BitVec.intMin 32) :
    conv.read (conv.string number) = some (conv.value number) := by
  cases conv with
  | signed =>
    simp only [Conversion.read, Conversion.string, Conversion.value]
    by_cases hneg : number.toInt < 0
    · rw [signed_of_neg hneg (h rfl), readSigned_neg, read_toDigits (by decide) (by decide)]
      simp only [Option.map_some, Option.some.injEq]
      omega
    · rw [signed_of_nonneg hneg, readSigned_of_head (head_toDigits (by decide) _)]
      rw [read_toDigits (by decide) (by decide)]
      simp only [Option.map_some, Option.some.injEq]
      omega
  | unsigned =>
    simp only [Conversion.read, Conversion.string, Conversion.value]
    rw [read_toDigits (by decide) (by decide)]
    rfl
  | hex =>
    simp only [Conversion.read, Conversion.string, Conversion.value]
    rw [read_toDigits (by decide) (by decide)]
    rfl

theorem unsignedPart_toDigits {b n : ℕ} (hb : 1 < b) : unsignedPart (Nat.toDigits b n) = Nat.toDigits b n :=
  if_neg (head_toDigits hb n)

theorem noLeadingZero_string (conv : Conversion) {number : BitVec 32}
    (h : conv = .signed → number ≠ BitVec.intMin 32) :
    NoLeadingZero (unsignedPart (conv.string number)) := by
  cases conv with
  | signed =>
    simp only [Conversion.string]
    by_cases hneg : number.toInt < 0
    · rw [signed_of_neg hneg (h rfl)]
      exact noLeadingZero_toDigits (by decide) (by decide) _
    · rw [signed_of_nonneg hneg, unsignedPart_toDigits (by decide)]
      exact noLeadingZero_toDigits (by decide) (by decide) _
  | unsigned =>
    simp only [Conversion.string]
    rw [unsignedPart_toDigits (by decide)]
    exact noLeadingZero_toDigits (by decide) (by decide) _
  | hex =>
    simp only [Conversion.string]
    rw [unsignedPart_toDigits (by decide)]
    exact noLeadingZero_toDigits (by decide) (by decide) _

theorem string_ne_nil (conv : Conversion) (number : BitVec 32) : conv.string number ≠ [] := by
  cases conv with
  | signed =>
    rw [Conversion.string, signed]
    split_ifs <;> simp
  | unsigned => exact Nat.toDigits_ne_nil
  | hex => exact Nat.toDigits_ne_nil

theorem readsBack_iff (conv : Conversion) (number : BitVec 32) :
    ReadsBack conv number ↔ (conv = .signed → number ≠ BitVec.intMin 32) := by
  constructor
  · rintro h rfl rfl
    obtain ⟨r, s, hcall, hs, -, -, hread⟩ := h (List.replicate (maxNumLength + 1) '\x00') List.length_replicate
    obtain ⟨r', hcall', hs'⟩ := call_returns .signed (BitVec.intMin 32)
      (List.length_replicate : (List.replicate (maxNumLength + 1) '\x00').length = _)
    obtain rfl := Option.some.inj (hcall.symm.trans hcall')
    rw [← hs.string, hs'.string, Conversion.string, signed_intMin] at hread
    cases hread
  · intro h buf hl
    obtain ⟨r, hcall, hs⟩ := call_returns conv number hl
    exact ⟨r, _, hcall, hs, string_ne_nil conv number, noLeadingZero_string conv h, read_string conv h⟩

/-! ### The padding -/

/-- A numeral with zeros behind its sign. -/
def zeros (k : ℕ) (s : List Char) : List Char :=
  if s.head? = some '-' then '-' :: (List.replicate k '0' ++ s.tail) else List.replicate k '0' ++ s

/-- A numeral between blanks or with zeros before its digits. -/
def IsPadded (s out : List Char) : Prop :=
  (∃ k l, out = List.replicate k ' ' ++ (s ++ List.replicate l ' ')) ∨ ∃ k, out = zeros k s

theorem isPadded_left (s : List Char) (k : ℕ) : IsPadded s (List.replicate k ' ' ++ s) :=
  .inl ⟨k, 0, by simp⟩

theorem isPadded_right (s : List Char) (l : ℕ) : IsPadded s (s ++ List.replicate l ' ') := .inl ⟨0, l, rfl⟩

theorem isPadded_self (s : List Char) : IsPadded s s := .inl ⟨0, 0, by simp⟩

theorem printUnsigned_padded (format : Format) {s : List Char} (h : s.head? ≠ some '-') :
    IsPadded s (printUnsigned format s).out := by
  rw [printUnsigned]
  split_ifs
  · exact isPadded_right s _
  · exact .inr ⟨_, (if_neg h).symm⟩
  · exact isPadded_left s _
  · exact isPadded_self s

theorem printSigned_padded (format : Format) (s : List Char) : IsPadded s (printSigned format s).out := by
  have hsign : s.head? = some '-' → '-' :: s.tail = s := by
    intro h
    cases s with
    | nil => cases h
    | cons c s =>
      obtain rfl := Option.some.inj h
      rfl
  rw [printSigned]
  dsimp only
  split_ifs with hlt hleft hzneg hzpos hneg
  · exact isPadded_right s _
  · refine .inr ⟨(format.width - strlen s).toInt.toNat, ?_⟩
    rw [zeros, if_pos hzneg.2]
    rfl
  · exact .inr ⟨_, (if_neg hzpos.2).symm⟩
  · simp only [Printed.append_out, outPad_out, putc_out, outStr_out]
    rw [List.append_assoc, List.singleton_append, hsign hneg.2]
    exact isPadded_left s _
  · exact isPadded_left s _
  · exact isPadded_self s

theorem blank_notMem_string (conv : Conversion) (number : BitVec 32) : ' ' ∉ conv.string number := by
  have hdigits : ∀ b n, 1 < b → ' ' ∉ Nat.toDigits b n := by
    intro b n hb hmem
    obtain ⟨d, -, hd⟩ := mem_toDigits hb hmem
    exact Nat.digitChar_ne ' ' (by decide) hd
  cases conv with
  | signed =>
    rw [Conversion.string, signed]
    split_ifs
    · decide
    · simpa using hdigits 10 _ (by decide)
    · exact hdigits 10 _ (by decide)
  | unsigned => exact hdigits 10 _ (by decide)
  | hex => exact hdigits 16 _ (by decide)

/-- Zeros before the digits of a numeral do not change its value. -/
theorem read_zeros_string (conv : Conversion) {number : BitVec 32}
    (h : conv = .signed → number ≠ BitVec.intMin 32) (k : ℕ) :
    conv.read (zeros k (conv.string number)) = conv.read (conv.string number) := by
  have hunsigned : ∀ b n, 1 < b → b ≤ 16 →
      Numeral.read b (zeros k (Nat.toDigits b n)) = Numeral.read b (Nat.toDigits b n) := by
    intro b n hb hb'
    rw [zeros, if_neg (head_toDigits hb n), read_zeros (by omega) hb' Nat.toDigits_ne_nil]
  cases conv with
  | signed =>
    simp only [Conversion.read, Conversion.string]
    by_cases hneg : number.toInt < 0
    · rw [signed_of_neg hneg (h rfl), zeros, if_pos List.head?_cons, readSigned_neg, readSigned_neg]
      rw [List.tail_cons]
      rw [read_zeros (by decide) (by decide) Nat.toDigits_ne_nil]
    · have hhead := head_toDigits (by decide : 1 < 10) number.toInt.natAbs
      have hzeros : (zeros k (Nat.toDigits 10 number.toInt.natAbs)).head? ≠ some '-' := by
        rw [zeros, if_neg hhead]
        cases k with
        | zero => exact hhead
        | succ k => simp [List.replicate_succ]
      rw [signed_of_nonneg hneg, readSigned_of_head hzeros, readSigned_of_head hhead]
      rw [hunsigned 10 _ (by decide) (by decide)]
  | unsigned =>
    simp only [Conversion.read, Conversion.string]
    rw [hunsigned 10 _ (by decide) (by decide)]
  | hex =>
    simp only [Conversion.read, Conversion.string]
    rw [hunsigned 16 _ (by decide) (by decide)]

theorem blank_notMem_zeros {s : List Char} (h : ' ' ∉ s) (k : ℕ) : ' ' ∉ zeros k s := by
  have htail : ' ' ∉ s.tail := fun hmem => h (List.mem_of_mem_tail hmem)
  rw [zeros]
  split_ifs <;> simp [h, htail]

/-- A padded numeral is read as the numeral. -/
theorem read_padded (conv : Conversion) {number : BitVec 32}
    (h : conv = .signed → number ≠ BitVec.intMin 32) {out : List Char}
    (hout : IsPadded (conv.string number) out) :
    conv.read (trim out) = some (conv.value number) := by
  have hblank := blank_notMem_string conv number
  rw [← read_string conv h]
  rcases hout with ⟨k, l, rfl⟩ | ⟨k, rfl⟩
  · rw [trim_blanks hblank (string_ne_nil conv number)]
  · have hzeros : zeros k (conv.string number) ≠ [] := by
      have hne := string_ne_nil conv number
      rw [zeros]
      split_ifs <;> simp [hne]
    have htrim := trim_blanks (blank_notMem_zeros hblank k) hzeros 0 0
    simp only [List.replicate_zero, List.nil_append, List.append_nil] at htrim
    rw [htrim, read_zeros_string conv h]

/-! ### The number of characters -/

theorem length_string_le (conv : Conversion) (number : BitVec 32) : (conv.string number).length ≤ 33 := by
  have hdigits : ∀ b n, 1 < b → n < 2 ^ 32 → (Nat.toDigits b n).length ≤ 32 := fun b n hb hn =>
    length_toDigits_le hb hn
  have habs : number.toInt.natAbs < 2 ^ 32 := by
    have := number.toInt_lt
    have := number.le_toInt
    omega
  cases conv with
  | signed =>
    rw [Conversion.string, signed]
    split_ifs
    · simp
    · exact Nat.succ_le_succ (hdigits 10 _ (by decide) habs)
    · exact (hdigits 10 _ (by decide) habs).trans (by decide)
  | unsigned => exact (hdigits 10 _ (by decide) number.isLt).trans (by decide)
  | hex => exact (hdigits 16 _ (by decide) number.isLt).trans (by decide)

/-- A numeral is padded to the width, unless the padding is negative as an `int`. -/
theorem length_padded_iff {s : List Char} (hs : s.length ≤ 33) (width : BitVec 32) :
    s.length + (if strlen s < width then width - strlen s else 0).toInt.toNat = max width.toNat s.length ↔
      width.toNat < 2 ^ 31 + s.length := by
  have hlen : (strlen s).toNat = s.length := by
    rw [strlen, BitVec.toNat_ofNat, Nat.mod_eq_of_lt (by omega)]
  rw [toInt_toNat]
  by_cases hlt : strlen s < width
  · have hw := hlt
    rw [BitVec.lt_def, hlen] at hw
    have hsub : (width - strlen s).toNat = width.toNat - s.length := by
      rw [BitVec.toNat_sub_of_le (BitVec.le_of_lt hlt), hlen]
    rw [if_pos hlt, hsub]
    split_ifs <;> omega
  · have hw := hlt
    rw [BitVec.lt_def, hlen] at hw
    rw [if_neg hlt]
    simp
    omega

/-- What a specification of the conversion prints. -/
theorem printArg_padded (mem : Memory) {conv : Conversion} {format : Format}
    (h : format.specifier ∈ conv.specifiers) (number : BitVec 32) :
    IsPadded (conv.string number) (printArg mem format number).out ∧
      (printArg mem format number).out.length = (conv.string number).length +
        (if strlen (conv.string number) < format.width then format.width - strlen (conv.string number)
          else 0).toInt.toNat := by
  cases conv with
  | signed =>
    have hprint : printArg mem format number = printSigned format (signed number) := by
      simp only [Conversion.specifiers, List.mem_cons, List.not_mem_nil, or_false] at h
      rcases h with h | h <;> simp only [printArg, h]
    rw [hprint]
    exact ⟨printSigned_padded format _, printSigned_length format _⟩
  | unsigned =>
    have hprint : printArg mem format number = printUnsigned format (Nat.toDigits 10 number.toNat) := by
      simp only [printArg, List.mem_singleton.mp h]
    rw [hprint]
    exact ⟨printUnsigned_padded format (head_toDigits (by decide) _), printUnsigned_length format _⟩
  | hex =>
    have hprint : printArg mem format number = printUnsigned format (Nat.toDigits 16 number.toNat) := by
      simp only [printArg, List.mem_singleton.mp h]
    rw [hprint]
    exact ⟨printUnsigned_padded format (head_toDigits (by decide) _), printUnsigned_length format _⟩

theorem specifiers_subset {conv : Conversion} {c : Char} (h : c ∈ conv.specifiers) : c ∈ specifiers := by
  cases conv <;> simp only [Conversion.specifiers, List.mem_cons, List.not_mem_nil, or_false] at h <;>
    simp only [specifiers, List.mem_cons, List.not_mem_nil, or_false] <;> tauto

/-- The numeral of a number, by itself and padded to a width, reads back as the number: just if the
number is not the least `int` that is printed as one, and the padding is less than `2 ^ 31`. -/
theorem readsBack_padsTo_iff (conv : Conversion) (number : BitVec 32) (format : Format)
    (h : format.specifier ∈ conv.specifiers) :
    ReadsBack conv number ∧ PadsTo conv number format ↔
      (conv = .signed → number ≠ BitVec.intMin 32) ∧
        format.width.toNat < 2 ^ 31 + (conv.string number).length := by
  rw [readsBack_iff]
  refine and_congr_right fun hm => ?_
  rw [← length_padded_iff (length_string_le conv number)]
  constructor
  · intro hpads
    obtain ⟨p, hp, -, hlength⟩ := hpads clearMemory (Stream'.const number) rfl
    rw [vargToCallback_eq _ (specifiers_subset h)] at hp
    obtain rfl := (Prod.mk.inj (Option.some.inj hp)).1
    rw [← hlength]
    exact (printArg_padded clearMemory h number).2.symm
  · rintro hlength mem ap rfl
    obtain ⟨hpadded, hout⟩ := printArg_padded mem h ap.head
    exact ⟨_, vargToCallback_eq mem (specifiers_subset h) ap, read_padded conv hm hpadded, hout.trans hlength⟩

theorem readsBack_padsTo_iff_five :
    ReadsBack .signed (-42) ∧ PadsTo .signed (-42) { initFormat with width := 5, specifier := 'd' } ↔
      (Conversion.signed = .signed → (-42 : BitVec 32) ≠ BitVec.intMin 32) ∧
        5 < 2 ^ 31 + (Conversion.signed.string (-42)).length :=
  readsBack_padsTo_iff .signed (-42) { initFormat with width := 5, specifier := 'd' } (by decide)

/-- `sign_decify(-2147483648)` returns `-`. -/
theorem not_readsBack_intMin : ¬ ∀ conv number (format : Format),
    format.specifier ∈ Conversion.specifiers conv → ReadsBack conv number ∧ PadsTo conv number format := by
  intro h
  have hread := (h .signed (BitVec.intMin 32) { initFormat with specifier := 'd' } (by decide)).1
  exact (readsBack_iff .signed (BitVec.intMin 32)).mp hread rfl rfl

end SysuOs.Vsprintf
