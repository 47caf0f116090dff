import SysuOs.VsprintfFormat

/-! What `vsprintf_callback` returns against what it puts out. A `-` before padding is put out and not
counted, and a padding of `2 ^ 31` or more, which is negative as an `int`, is counted and not put out. -/

namespace SysuOs.Vsprintf

/-- The numeral that a specification prints. -/
def numeral (format : Format) (word : BitVec 32) : List Char :=
  match format.specifier with
  | 'd' | 'i' => signed word
  | 'u' => Nat.toDigits 10 word.toNat
  | 'x' => Nat.toDigits 16 word.toNat
  | _ => []

/-- The specifiers of numerals that are padded. -/
def padded : List Char := ['d', 'i', 'u', 'x']

/-- How many characters a numeral is padded with. -/
def padding (format : Format) (word : BitVec 32) : BitVec 32 :=
  if format.specifier ∈ padded ∧ strlen (numeral format word) < format.width then
    format.width - strlen (numeral format word)
  else 0

/-- A negative number is padded on its left. -/
def LosesSign (format : Format) (word : BitVec 32) : Prop :=
  format.specifier ∈ ['d', 'i'] ∧ word.toInt < 0 ∧ format.leftAlign = false ∧
    strlen (numeral format word) < format.width

instance (format : Format) (word : BitVec 32) : Decidable (LosesSign format word) :=
  inferInstanceAs (Decidable (_ ∧ _))

/-- What is put out and not counted, less what is counted and not put out. -/
def missed (format : Format) (word : BitVec 32) : BitVec 32 :=
  (if LosesSign format word then 1 else 0) -
    if (padding format word).toNat < 2 ^ 31 then 0 else padding format word

/-- How many characters a specification puts out. -/
def size (mem : Memory) (format : Format) (word : BitVec 32) : ℕ :=
  match format.specifier with
  | 'p' => 2 + (Nat.toDigits 16 word.toNat).length
  | 's' => if word = 0 then 6 else (mem.strings word).length
  | 'c' => 1
  | _ => (numeral format word).length +
      if (padding format word).toNat < 2 ^ 31 then (padding format word).toNat else 0

/-! ### One specification -/

@[simp] theorem outStr_counter (str : List Char) : (outStr str).counter = BitVec.ofNat 32 str.length := rfl
@[simp] theorem outStr_out (str : List Char) : (outStr str).out = str := rfl
@[simp] theorem outPad_counter (pad : Char) (num : BitVec 32) : (outPad pad num).counter = num := rfl
@[simp] theorem outPad_out (pad : Char) (num : BitVec 32) :
    (outPad pad num).out = List.replicate num.toInt.toNat pad := rfl
@[simp] theorem putc_counter (c : Char) : (putc c).counter = 0 := rfl
@[simp] theorem putc_out (c : Char) : (putc c).out = [c] := rfl

/-- How often the loop of `out_pad` runs. -/
theorem toInt_toNat (num : BitVec 32) : num.toInt.toNat = if num.toNat < 2 ^ 31 then num.toNat else 0 := by
  have := num.isLt
  rw [BitVec.toInt_eq_toNat_cond]
  split_ifs <;> omega

/-- What `printUnsigned` counts is the length of the numeral and the padding. -/
theorem printUnsigned_counter (format : Format) (str : List Char) :
    (printUnsigned format str).counter =
      strlen str + if strlen str < format.width then format.width - strlen str else 0 := by
  rw [printUnsigned]
  split_ifs <;> simp [strlen]

theorem printUnsigned_length (format : Format) (str : List Char) :
    (printUnsigned format str).out.length = str.length +
      (if strlen str < format.width then format.width - strlen str else 0).toInt.toNat := by
  rw [printUnsigned]
  split_ifs <;> simp [Nat.add_comm]

/-- `printSigned` does not count a `-` that it puts out by itself. -/
theorem printSigned_counter (format : Format) (str : List Char) :
    (printSigned format str).counter +
      (if str.head? = some '-' ∧ format.leftAlign = false ∧ strlen str < format.width then 1 else 0) =
      strlen str + if strlen str < format.width then format.width - strlen str else 0 := by
  rw [printSigned]
  dsimp only
  cases str with
  | nil => split_ifs <;> simp_all [strlen]
  | cons c str =>
    split_ifs <;> simp_all [strlen, BitVec.ofNat_add]
    · ring
    · ring
    · rename_i hle hlost
      exact absurd hlost.2.2 (BitVec.not_lt.mpr hle)

theorem printSigned_length (format : Format) (str : List Char) :
    (printSigned format str).out.length = str.length +
      (if strlen str < format.width then format.width - strlen str else 0).toInt.toNat := by
  rw [printSigned]
  dsimp only
  cases str with
  | nil => split_ifs <;> simp_all
  | cons c str => split_ifs <;> simp_all [Nat.add_comm] <;> omega

theorem signed_head (word : BitVec 32) : (signed word).head? = some '-' ↔ word.toInt < 0 := by
  rw [signed]
  split_ifs with hm hneg
  · rw [hm]
    decide
  · simp [hneg]
  · simp only [hneg, iff_false]
    intro hhead
    have hmem : '-' ∈ Nat.toDigits 10 word.toInt.natAbs := List.mem_of_mem_head? hhead
    obtain ⟨d, -, hd⟩ := Numeral.mem_toDigits (by decide) hmem
    exact Nat.digitChar_ne '-' (by decide) hd

theorem ofNat_toInt_toNat (num : BitVec 32) :
    BitVec.ofNat 32 num.toInt.toNat = num - if num.toNat < 2 ^ 31 then 0 else num := by
  rw [toInt_toNat]
  split_ifs <;> simp

/-- The length of a string that is padded, in 32 bits. -/
theorem ofNat_length {out str : List Char} {pad : BitVec 32} (h : out.length = str.length + pad.toInt.toNat) :
    BitVec.ofNat 32 out.length = strlen str + (pad - if pad.toNat < 2 ^ 31 then 0 else pad) := by
  rw [h, BitVec.ofNat_add, ofNat_toInt_toNat, strlen]

/-- How `printSigned` and `printUnsigned` pad a numeral. -/
theorem padding_eq {format : Format} (h : format.specifier ∈ padded) (word : BitVec 32) :
    padding format word = if strlen (numeral format word) < format.width then
      format.width - strlen (numeral format word) else 0 := by
  rw [padding]
  simp only [h, true_and]

theorem missed_of_notMem {format : Format} (h : format.specifier ∉ padded) (word : BitVec 32) :
    missed format word = 0 := by
  have hlost : ¬LosesSign format word := by
    rintro ⟨hd, -⟩
    refine h ?_
    simp only [padded, List.mem_cons, List.not_mem_nil, or_false] at hd ⊢
    tauto
  have hpad : padding format word = 0 := by
    rw [padding]
    simp [h]
  rw [missed, if_neg hlost, hpad]
  rfl

theorem printSigned_count {format : Format} (h : format.specifier ∈ ['d', 'i']) (word : BitVec 32) :
    BitVec.ofNat 32 (printSigned format (signed word)).out.length =
      (printSigned format (signed word)).counter + missed format word ∧
    (printSigned format (signed word)).out.length = (numeral format word).length +
      if (padding format word).toNat < 2 ^ 31 then (padding format word).toNat else 0 := by
  have hnum : numeral format word = signed word := by
    simp only [List.mem_cons, List.not_mem_nil, or_false] at h
    rw [numeral]
    rcases h with h | h <;> simp only [h]
  have hpadded : format.specifier ∈ padded := by
    simp only [padded, List.mem_cons, List.not_mem_nil, or_false] at h ⊢
    tauto
  have hpad := padding_eq hpadded word
  have hcount := printSigned_counter format (signed word)
  have hlength := printSigned_length format (signed word)
  rw [hnum] at hpad
  rw [← hpad] at hcount hlength
  have hlost : LosesSign format word ↔ (signed word).head? = some '-' ∧ format.leftAlign = false ∧
      strlen (signed word) < format.width := by
    rw [LosesSign, signed_head, hnum]
    simp only [h, true_and]
  simp only [← hlost] at hcount
  refine ⟨?_, by rw [hlength, toInt_toNat, hnum]⟩
  calc BitVec.ofNat 32 (printSigned format (signed word)).out.length
      = strlen (signed word) + (padding format word -
          if (padding format word).toNat < 2 ^ 31 then 0 else padding format word) := ofNat_length hlength
    _ = (printSigned format (signed word)).counter + missed format word := by
        rw [missed, ← add_sub_assoc, ← hcount, add_sub_assoc]

theorem printUnsigned_count {format : Format} (h : format.specifier ∈ ['u', 'x']) {word : BitVec 32}
    {str : List Char} (hnum : numeral format word = str) :
    BitVec.ofNat 32 (printUnsigned format str).out.length =
      (printUnsigned format str).counter + missed format word ∧
    (printUnsigned format str).out.length = (numeral format word).length +
      if (padding format word).toNat < 2 ^ 31 then (padding format word).toNat else 0 := by
  subst hnum
  have hpadded : format.specifier ∈ padded := by
    simp only [padded, List.mem_cons, List.not_mem_nil, or_false] at h ⊢
    tauto
  have hlost : ¬LosesSign format word := by
    rintro ⟨hd, -⟩
    simp only [List.mem_cons, List.not_mem_nil, or_false] at h hd
    rcases h with h | h <;> rw [h] at hd <;> revert hd <;> decide
  have hcount := printUnsigned_counter format (numeral format word)
  have hlength := printUnsigned_length format (numeral format word)
  rw [← padding_eq hpadded] at hcount hlength
  refine ⟨?_, by rw [hlength, toInt_toNat]⟩
  calc BitVec.ofNat 32 (printUnsigned format (numeral format word)).out.length
      = strlen (numeral format word) + (padding format word -
          if (padding format word).toNat < 2 ^ 31 then 0 else padding format word) := ofNat_length hlength
    _ = (printUnsigned format (numeral format word)).counter + missed format word := by
        rw [missed, if_neg hlost, hcount, add_assoc, zero_sub, sub_eq_add_neg]

/-- The count of a specification and what it missed make up what was put out. -/
theorem printArg_count (mem : Memory) {format : Format} (h : format.specifier ∈ specifiers)
    (word : BitVec 32) :
    BitVec.ofNat 32 (printArg mem format word).out.length =
      (printArg mem format word).counter + missed format word ∧
    (printArg mem format word).out.length = size mem format word := by
  rw [printArg, size]
  simp only [specifiers, List.mem_cons, List.not_mem_nil, or_false] at h
  rcases h with h | h | h | h | h | h | h
  · simp only [h]
    exact printSigned_count (by rw [h]; decide) word
  · simp only [h]
    exact printSigned_count (by rw [h]; decide) word
  · simp only [h]
    exact printUnsigned_count (by rw [h]; decide) (by simp only [numeral, h])
  · simp only [h]
    exact printUnsigned_count (by rw [h]; decide) (by simp only [numeral, h])
  all_goals
    rw [missed_of_notMem (by rw [h]; decide)]
    simp only [h]
  · exact ⟨rfl, rfl⟩
  · refine ⟨?_, ?_⟩
    · simp
    · simp only [outStr_out]
      split_ifs <;> rfl
  · refine ⟨?_, ?_⟩
    · simp only [Printed.append_out, Printed.append_counter, outStr_out, outStr_counter, List.length_append,
        BitVec.ofNat_add, add_zero]
    · simp only [Printed.append_out, outStr_out, List.length_append]
      rfl

/-! ### A run -/

/-- What the specifications of a run missed. -/
def missedTurns : List (ℕ × Turn) → VaList → BitVec 32
  | (_, .put _ _) :: turns, ap => missedTurns turns ap
  | (_, .spec format _) :: turns, ap => missed format ap.head + missedTurns turns ap.tail
  | _, _ => 0

/-- How many characters a run puts out. -/
def sizeTurns (mem : Memory) : List (ℕ × Turn) → VaList → ℕ
  | (_, .put _ _) :: turns, ap => 1 + sizeTurns mem turns ap
  | (_, .spec format _) :: turns, ap => size mem format ap.head + sizeTurns mem turns ap.tail
  | _, _ => 0

/-- The run counts what it puts out but for what it missed, or it ends at a specification that is not
valid. -/
theorem printTurns_count (mem : Memory) {turns : List (ℕ × Turn)} {counter : BitVec 32} {ap : VaList}
    {out : List Char} {r : Printed} (hspec : ∀ k format j, (k, Turn.spec format j) ∈ turns →
      format.specifier ∈ specifiers) (h : printTurns mem turns counter ap out = some r) :
    r.out.length = out.length + sizeTurns mem turns ap ∧
      (r.counter = -1 ∨
        BitVec.ofNat 32 (sizeTurns mem turns ap) + counter = r.counter + missedTurns turns ap) := by
  induction turns generalizing counter ap out with
  | nil =>
    obtain rfl := Option.some.inj h
    simp [sizeTurns, missedTurns]
  | cons t turns ih =>
    have hturns := fun k format j hmem => hspec k format j (List.mem_cons_of_mem t hmem)
    obtain ⟨i, t⟩ := t
    cases t with
    | stop =>
      obtain rfl := Option.some.inj h
      simp [sizeTurns, missedTurns]
    | put c j =>
      obtain ⟨hout, hcount⟩ := ih hturns h
      refine ⟨?_, hcount.imp_right fun hcount => ?_⟩
      · rw [hout, sizeTurns, List.length_append, List.length_singleton]
        omega
      · rw [missedTurns, sizeTurns, ← hcount, BitVec.ofNat_add]
        show (1 : BitVec 32) + _ + _ = _
        ring
    | invalid j =>
      obtain rfl := Option.some.inj h
      exact ⟨rfl, .inl rfl⟩
    | spec format j =>
      have hmem := hspec i format j List.mem_cons_self
      obtain ⟨hone, hlength⟩ := printArg_count mem hmem ap.head
      rw [printTurns, vargToCallback_eq mem hmem] at h
      obtain ⟨hout, hcount⟩ := ih hturns h
      dsimp only at hout hcount
      refine ⟨?_, hcount.imp_right fun hcount => ?_⟩
      · rw [hout, sizeTurns, List.length_append, hlength]
        omega
      · rw [missedTurns, sizeTurns, BitVec.ofNat_add, ← hlength, hone]
        rw [add_comm (missed format ap.head), ← add_assoc r.counter, ← hcount]
        ring

/-- The turns of `vsprintf_callback` on a format. -/
def turnsOf (fmt : List Char) : List (ℕ × Turn) := (scan fmt 0).getD []

/-- `vsprintf_callback` returns the number of characters it put out just if that is an `int` and nothing
is missed in the sum. -/
theorem vsprintfCallback_count_iff (mem : Memory) (s : List Char) (hs : '\x00' ∉ s) (ap : VaList) {r : Printed}
    (h : vsprintfCallback mem (s ++ ['\x00']) ap = some r) (hr : 0 ≤ r.counter.toInt) :
    r.counter.toInt = r.out.length ↔
      sizeTurns mem (turnsOf (s ++ ['\x00'])) ap < 2 ^ 31 ∧ missedTurns (turnsOf (s ++ ['\x00'])) ap = 0 := by
  obtain ⟨turns, hscan, hturns⟩ := scan_inside hs (Nat.zero_le s.length)
  rw [vsprintfCallback, vsprintfLoop_eq, hscan] at h
  rw [turnsOf, hscan, Option.getD_some]
  obtain ⟨hout, hcount⟩ := printTurns_count mem hturns.specifier h
  have hvalid : r.counter ≠ -1 := by
    rintro he
    rw [he] at hr
    exact absurd hr (by decide)
  replace hcount := hcount.resolve_left hvalid
  rw [List.length_nil, zero_add] at hout
  rw [add_zero] at hcount
  have hsmall : r.counter.toNat < 2 ^ 31 := by
    have := r.counter.isLt
    rw [BitVec.toInt_eq_toNat_cond] at hr
    split_ifs at hr <;> omega
  have hint : r.counter.toInt = r.counter.toNat := BitVec.toInt_eq_toNat_of_lt (by omega)
  rw [hout, hint, Nat.cast_inj]
  constructor
  · intro he
    refine ⟨he ▸ hsmall, ?_⟩
    rw [← he, BitVec.ofNat_toNat, BitVec.setWidth_eq] at hcount
    exact left_eq_add.mp hcount
  · rintro ⟨hlt, hzero⟩
    rw [hzero, add_zero] at hcount
    rw [← hcount, BitVec.toNat_ofNat, Nat.mod_eq_of_lt (by omega)]

/-- A memory without strings. -/
def clearMemory : Memory where
  strings := fun _ => []
  numBuf := List.replicate (maxNumLength + 1) '\x00'
  numBuf_length := List.length_replicate

theorem vsprintfCallback_count_iff_blank : ∃ r,
    vsprintfCallback clearMemory (['%', '5', 'd'] ++ ['\x00']) (Stream'.const 42) = some r ∧
      (r.counter.toInt = r.out.length ↔
        sizeTurns clearMemory (turnsOf (['%', '5', 'd'] ++ ['\x00'])) (Stream'.const 42) < 2 ^ 31 ∧
          missedTurns (turnsOf (['%', '5', 'd'] ++ ['\x00'])) (Stream'.const 42) = 0) := by
  have hrun : vsprintfCallback clearMemory (['%', '5', 'd'] ++ ['\x00']) (Stream'.const 42) =
      some ⟨5, [' ', ' ', ' ', '4', '2']⟩ := by decide +kernel
  exact ⟨_, hrun, vsprintfCallback_count_iff clearMemory _ (by decide) _ hrun (by decide)⟩

/-- `printf("%05d", -42)` puts out `-0042` and returns 4. -/
theorem not_count : ¬ ∀ (mem : Memory) (s : List Char) (ap : VaList) (r : Printed), '\x00' ∉ s →
    vsprintfCallback mem (s ++ ['\x00']) ap = some r → 0 ≤ r.counter.toInt →
      r.counter.toInt = r.out.length := by
  intro h
  have hrun : vsprintfCallback clearMemory (['%', '0', '5', 'd'] ++ ['\x00']) (Stream'.const (-42)) =
      some ⟨4, ['-', '0', '0', '4', '2']⟩ := by decide +kernel
  exact absurd (h clearMemory ['%', '0', '5', 'd'] _ _ (by decide) hrun (by decide)) (by decide)

end SysuOs.Vsprintf
