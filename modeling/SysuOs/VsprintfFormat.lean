import SysuOs.Vsprintf

/-! The format string is read up to its NUL and no further, and the turns of `vsprintf_callback` take
each of its characters once. `Item` are the parts of a specification between its `%` and its
specifier. -/

namespace SysuOs.Vsprintf

/-! ### Inside the string -/

section

variable {s : List Char} {idx : ℕ}

theorem read_inside (h : idx ≤ s.length) : ∃ c, (s ++ ['\x00'])[idx]? = some c ∧
    (c ≠ '\x00' → idx < s.length) := by
  rcases h.lt_or_eq with hlt | rfl
  · exact ⟨s[idx], by rw [List.getElem?_append_left hlt, List.getElem?_eq_getElem hlt], fun _ => hlt⟩
  · exact ⟨'\x00', by simp, fun hne => absurd rfl hne⟩

/-- A character that is not the NUL stands before it. -/
theorem lt_of_read {c : Char} (h : (s ++ ['\x00'])[idx]? = some c) (hc : c ≠ '\x00') :
    s[idx]? = some c := by
  obtain ⟨hlt, hget⟩ := List.getElem?_eq_some_iff.mp h
  rw [List.length_append, List.length_singleton] at hlt
  rcases (Nat.lt_succ_iff.mp hlt).lt_or_eq with hin | rfl
  · rwa [List.getElem?_append_left hin] at h
  · simp at hget
    exact absurd hget.symm hc

theorem widthLoop_inside (h : idx ≤ s.length) (sum : BitVec 32) :
    ∃ r, widthLoop (s ++ ['\x00']) idx sum = some r ∧ r.1 ≤ s.length := by
  induction hn : s.length - idx generalizing idx sum with
  | zero =>
    obtain ⟨c, hc, hlt⟩ := read_inside h
    have hnul : c = '\x00' := by
      by_contra hne
      have := hlt hne
      omega
    subst hnul
    refine ⟨(idx, sum), ?_, h⟩
    rw [widthLoop]
    split
    · simp_all
    · rename_i c' hc'
      obtain rfl := Option.some.inj (hc.symm.trans hc')
      rw [if_neg (by decide)]
  | succ n ih =>
    obtain ⟨c, hc, -⟩ := read_inside h
    rw [widthLoop]
    split
    · simp_all
    · split
      · exact ih (by omega) _ (by omega)
      · exact ⟨_, rfl, h⟩

/-- The `switch` is left by a `return`, or by a `break` before the NUL. -/
theorem analyseSwitch_inside (h : idx ≤ s.length) (format : Format) :
    ∃ t, analyseSwitch (s ++ ['\x00']) idx format = some t ∧
      ∀ idx' format', t = .brk idx' format' → idx' < s.length := by
  obtain ⟨c, hc, hlt⟩ := read_inside h
  have hsome : ∃ t, analyseSwitch (s ++ ['\x00']) idx format = some t := by
    obtain ⟨r, hr, -⟩ := widthLoop_inside h 0
    rw [analyseSwitch, hc]
    simp only [Option.bind_eq_bind, Option.bind_some, hr, Option.map_some]
    split_ifs <;> exact ⟨_, rfl⟩
  obtain ⟨t, ht⟩ := hsome
  refine ⟨t, ht, ?_⟩
  rintro idx' format' rfl
  obtain ⟨c', hc', hcases⟩ := analyseSwitch_inv ht
  obtain rfl := Option.some.inj (hc.symm.trans hc')
  rcases hcases with ⟨-, h'⟩ | ⟨rfl, -, h'⟩ | ⟨rfl, -, h'⟩ | ⟨rfl, -, h'⟩ | ⟨hd, r, hr, h'⟩ | ⟨hne, h'⟩ | h' <;>
    cases h'
  · exact hlt (by decide)
  · exact hlt (by decide)
  · exact hlt (by decide)
  · obtain ⟨r', hr', hle⟩ := widthLoop_inside h 0
    obtain rfl := Option.some.inj (hr.symm.trans hr')
    have := widthLoop_lt hc (digit_of_nonzero hd) hr
    omega
  · exact hlt hne

theorem analyseLoop_inside (h : idx ≤ s.length) (format : Format) :
    ∃ r, analyseLoop (s ++ ['\x00']) idx format = some r ∧ r.1 ≤ s.length := by
  induction hn : s.length - idx using Nat.strong_induction_on generalizing idx format with
  | _ n ih =>
    rw [analyseLoop]
    obtain ⟨t, ht, hbrk⟩ := analyseSwitch_inside h format
    split
    · split
      · simp_all
      · exact ⟨_, rfl, h⟩
      · rename_i idx' format' ht'
        have hlt := hbrk idx' format' (Option.some.inj (ht.symm.trans ht'))
        have hle := (analyseSwitch_le ht').1
        exact ih _ (by omega) (by omega) _ rfl
    · exact ⟨_, rfl, h⟩

/-- Each `%` has an analysis, which ends in the string. -/
theorem analyseFormat_inside (h : idx < s.length) :
    ∃ r, analyseFormat (s ++ ['\x00']) idx = some r ∧ idx < r.1 ∧ r.1 ≤ s.length := by
  obtain ⟨r, hr, hle⟩ := analyseLoop_inside (Nat.succ_le_of_lt h) initFormat
  exact ⟨r, hr, analyseFormat_lt hr, hle⟩

end

/-! ### What a valid specification is -/

/-- A part of a specification: a flag, the `l` or a width. -/
inductive Item where
  | zero
  | minus
  | long
  | width (digits : List Char)
  deriving DecidableEq, Repr

namespace Item

def text : Item → List Char
  | zero => ['0']
  | minus => ['-']
  | long => ['l']
  | width digits => digits

/-- A width is a number that does not begin with a zero. -/
def WellFormed : Item → Prop
  | width digits => (∃ c ∈ digits.head?, '1' ≤ c ∧ c ≤ '9') ∧ ∀ c ∈ digits, '0' ≤ c ∧ c ≤ '9'
  | _ => True

/-- A width is not followed by a further digit. -/
def Before : Item → Item → Prop
  | width _, zero => False
  | width _, width _ => False
  | _, _ => True

end Item

/-- The specification whose parts begin at `start` ends at its specifier, at `idx`. -/
structure Specification (fmt : List Char) (start idx : ℕ) (format : Format) (items : List Item) : Prop where
  text : ∃ rest, fmt.drop start = items.flatMap Item.text ++ format.specifier :: rest
  idx : idx = start + (items.flatMap Item.text).length
  specifier : format.specifier ∈ specifiers
  wellFormed : ∀ item ∈ items, item.WellFormed
  before : items.IsChain Item.Before
  zero : items.count .zero ≤ 1
  minus : items.count .minus ≤ 1
  long : items.count .long ≤ 1

/-- The digits that the loop of a width takes. -/
theorem widthLoop_digits {fmt : List Char} {idx : ℕ} {sum : BitVec 32} {r : ℕ × BitVec 32}
    (h : widthLoop fmt idx sum = some r) :
    ∃ digits rest, fmt.drop idx = digits ++ rest ∧ r.1 = idx + digits.length ∧
      (∀ c ∈ digits, '0' ≤ c ∧ c ≤ '9') ∧ ∀ c ∈ rest.head?, ¬('0' ≤ c ∧ c ≤ '9') := by
  fun_induction widthLoop fmt idx sum with
  | case1 => cases h
  | case2 idx sum c hc hd ih =>
    obtain ⟨digits, rest, htext, hidx, hdigits, hrest⟩ := ih h
    refine ⟨c :: digits, rest, ?_, ?_, ?_, hrest⟩
    · obtain ⟨hlt, rfl⟩ := List.getElem?_eq_some_iff.mp hc
      rw [List.drop_eq_getElem_cons hlt, htext, List.cons_append]
    · rw [hidx, List.length_cons]
      omega
    · intro d hmem
      rcases List.mem_cons.mp hmem with rfl | hmem
      · exact hd
      · exact hdigits d hmem
  | case3 idx sum c hc hd =>
    obtain rfl := Option.some.inj h
    refine ⟨[], fmt.drop idx, rfl, rfl, by simp, ?_⟩
    intro d hmem
    rw [List.head?_drop, hc] at hmem
    obtain rfl := Option.some.inj hmem
    exact hd

/-- The parts that the loop takes from `idx` on, with the flags that are set already. -/
structure Parsed (fmt : List Char) (idx : ℕ) (format : Format) (r : ℕ × Format) (items : List Item) : Prop where
  text : ∃ rest, fmt.drop idx = items.flatMap Item.text ++ r.2.specifier :: rest
  idx : r.1 = idx + (items.flatMap Item.text).length
  specifier : r.2.specifier ∈ specifiers
  wellFormed : ∀ item ∈ items, item.WellFormed
  before : items.IsChain Item.Before
  zero : items.count .zero + format.zeroPad.toNat ≤ 1
  minus : items.count .minus + format.leftAlign.toNat ≤ 1
  long : items.count .long + (decide (format.length = .long)).toNat ≤ 1

/-- A part of one character goes before those that follow. -/
theorem Parsed.cons {fmt : List Char} {idx : ℕ} {format format' : Format} {r : ℕ × Format} {items : List Item}
    {item : Item} {c : Char} (h : Parsed fmt (idx + 1) format' r items) (hc : fmt[idx]? = some c)
    (htext : item.text = [c]) (hwf : item.WellFormed) (hbefore : ∀ next, item.Before next)
    (hzero : [item].count .zero + format.zeroPad.toNat ≤ format'.zeroPad.toNat)
    (hminus : [item].count .minus + format.leftAlign.toNat ≤ format'.leftAlign.toNat)
    (hlong : [item].count .long + (decide (format.length = .long)).toNat ≤
      (decide (format'.length = .long)).toNat) : Parsed fmt idx format r (item :: items) where
  text := by
    obtain ⟨rest, hrest⟩ := h.text
    obtain ⟨hlt, rfl⟩ := List.getElem?_eq_some_iff.mp hc
    exact ⟨rest, by rw [List.drop_eq_getElem_cons hlt, hrest, List.flatMap_cons, htext]; rfl⟩
  idx := by
    rw [h.idx, List.flatMap_cons, htext, List.length_append, List.length_singleton]
    omega
  specifier := h.specifier
  wellFormed := by
    intro other hmem
    rcases List.mem_cons.mp hmem with rfl | hmem
    · exact hwf
    · exact h.wellFormed other hmem
  before := by
    cases items with
    | nil => exact List.IsChain.singleton _
    | cons next items => exact List.IsChain.cons_cons (hbefore next) h.before
  zero := by
    have := h.zero
    rw [← List.singleton_append, List.count_append]
    omega
  minus := by
    have := h.minus
    rw [← List.singleton_append, List.count_append]
    omega
  long := by
    have := h.long
    rw [← List.singleton_append, List.count_append]
    omega

/-- A width goes before the parts that follow, none of which begins with a digit. -/
theorem Parsed.width {fmt digits rest : List Char} {idx : ℕ} {format format' : Format} {r : ℕ × Format}
    {items : List Item} (h : Parsed fmt (idx + digits.length) format' r items)
    (hdrop : fmt.drop idx = digits ++ rest) (hwf : (Item.width digits).WellFormed)
    (hrest : ∀ c ∈ rest.head?, ¬('0' ≤ c ∧ c ≤ '9')) (hzero : format'.zeroPad = format.zeroPad)
    (hminus : format'.leftAlign = format.leftAlign) (hlong : format'.length = format.length) :
    Parsed fmt idx format r (.width digits :: items) where
  text := by
    obtain ⟨after, hafter⟩ := h.text
    refine ⟨after, ?_⟩
    rw [← List.drop_drop, hdrop, List.drop_left] at hafter
    rw [hdrop, hafter, List.flatMap_cons, Item.text, List.append_assoc]
  idx := by
    rw [h.idx, List.flatMap_cons, Item.text, List.length_append]
    omega
  specifier := h.specifier
  wellFormed := by
    intro other hmem
    rcases List.mem_cons.mp hmem with rfl | hmem
    · exact hwf
    · exact h.wellFormed other hmem
  before := by
    cases items with
    | nil => exact List.IsChain.singleton _
    | cons next items =>
      obtain ⟨after, hafter⟩ := h.text
      rw [← List.drop_drop, hdrop, List.drop_left, List.flatMap_cons, List.append_assoc] at hafter
      have hnext : (Item.width digits).Before next := by
        cases next with
        | minus => trivial
        | long => trivial
        | zero => exact hrest '0' (by rw [hafter]; rfl) ⟨by decide, by decide⟩
        | width ds =>
          obtain ⟨⟨c, hc, hd⟩, -⟩ := h.wellFormed _ List.mem_cons_self
          refine hrest c ?_ (digit_of_nonzero hd)
          rw [hafter, Item.text, List.head?_append, Option.mem_def.mp hc]
          rfl
      exact List.IsChain.cons_cons hnext h.before
  zero := by
    have := h.zero
    rw [← hzero, List.count_cons_of_ne (by simp)]
    exact this
  minus := by
    have := h.minus
    rw [← hminus, List.count_cons_of_ne (by simp)]
    exact this
  long := by
    have := h.long
    rw [← hlong, List.count_cons_of_ne (by simp)]
    exact this

/-- An analysis that leaves the format valid has gone through the parts of a specification. -/
theorem analyseLoop_parsed {fmt : List Char} {idx : ℕ} {format : Format} {r : ℕ × Format}
    (h : analyseLoop fmt idx format = some r) (hv : r.2.valid = true) :
    ∃ items, Parsed fmt idx format r items := by
  fun_induction analyseLoop fmt idx format with
  | case1 => cases h
  | case2 idx format hvalid format' hs =>
    obtain rfl := Option.some.inj h
    obtain ⟨c, hc, hcases⟩ := analyseSwitch_inv hs
    rcases hcases with ⟨hspec, ht⟩ | ⟨-, -, ht⟩ | ⟨-, -, ht⟩ | ⟨-, -, ht⟩ | ⟨-, _, -, ht⟩ | ⟨-, ht⟩ | ht <;>
      cases ht
    · obtain ⟨hlt, rfl⟩ := List.getElem?_eq_some_iff.mp hc
      exact ⟨[], ⟨fmt.drop (idx + 1), List.drop_eq_getElem_cons hlt⟩, rfl, hspec, by simp, List.IsChain.nil,
        by simp [Bool.toNat_le], by simp [Bool.toNat_le], by simp [Bool.toNat_le]⟩
    · cases hv
  | case3 idx format hvalid idx' format' hs ih =>
    obtain ⟨items, hp⟩ := ih h
    obtain ⟨c, hc, hcases⟩ := analyseSwitch_inv hs
    rcases hcases with ⟨-, ht⟩ | ⟨rfl, h0, ht⟩ | ⟨rfl, h0, ht⟩ | ⟨rfl, h0, ht⟩ | ⟨hd, w, hw, ht⟩ | ⟨-, ht⟩ |
      ht <;>
      cases ht
    · exact ⟨.zero :: items, hp.cons hc rfl trivial (fun _ => trivial) (by simp [h0]) (by simp) (by simp)⟩
    · exact ⟨.minus :: items, hp.cons hc rfl trivial (fun _ => trivial) (by simp) (by simp [h0]) (by simp)⟩
    · exact ⟨.long :: items, hp.cons hc rfl trivial (fun _ => trivial) (by simp) (by simp) (by simp [h0])⟩
    · obtain ⟨digits, rest, hdrop, hidx, hdigits, hrest⟩ := widthLoop_digits hw
      have hlt := widthLoop_lt hc (digit_of_nonzero hd) hw
      have hhead : digits.head? = some c := by
        have hread : (fmt.drop idx).head? = some c := by rw [List.head?_drop, hc]
        cases digits with
        | nil => simp only [List.length_nil] at hidx; omega
        | cons d ds =>
          rw [hdrop] at hread
          exact hread
      have hnext : w.1 - 1 + 1 = idx + digits.length := by omega
      rw [hnext] at hp
      exact ⟨.width digits :: items, hp.width hdrop ⟨⟨c, hhead, hd⟩, hdigits⟩ hrest rfl rfl rfl⟩
    · -- the loop ends with a format that is not valid
      rw [analyseLoop, if_neg (by simp)] at h
      obtain rfl := Option.some.inj h
      cases hv
  | case4 idx format hvalid =>
    obtain rfl := Option.some.inj h
    exact absurd hv hvalid

theorem analyseFormat_specification {fmt : List Char} {i : ℕ} {r : ℕ × Format}
    (h : analyseFormat fmt i = some r) (hv : r.2.valid = true) :
    ∃ items, Specification fmt (i + 1) r.1 r.2 items := by
  obtain ⟨items, hp⟩ := analyseLoop_parsed h hv
  exact ⟨items, hp.text, hp.idx, hp.specifier, hp.wellFormed, hp.before, by simpa [initFormat] using hp.zero,
    by simpa [initFormat] using hp.minus, by simpa [initFormat] using hp.long⟩

theorem Specification.read {fmt : List Char} {start idx : ℕ} {format : Format} {items : List Item}
    (h : Specification fmt start idx format items) : fmt[idx]? = some format.specifier := by
  obtain ⟨rest, hrest⟩ := h.text
  rw [h.idx, ← List.head?_drop, ← List.drop_drop, hrest, List.drop_left]
  rfl

theorem Specification.specifier_ne {fmt : List Char} {start idx : ℕ} {format : Format} {items : List Item}
    (h : Specification fmt start idx format items) : format.specifier ≠ '\x00' :=
  fun he => absurd (he ▸ h.specifier) (by decide)

/-! ### The turns of the loop -/

/-- The turns that the loop makes from `i` on, each with the index it begins at. -/
def scan (fmt : List Char) (i : ℕ) : Option (List (ℕ × Turn)) :=
  match h : turn fmt i with
  | none => none
  | some .stop => some []
  | some (.put c j) => (scan fmt (j + 1)).map ((i, .put c j) :: ·)
  | some (.invalid j) => some [(i, .invalid j)]
  | some (.spec format j) => (scan fmt (j + 1)).map ((i, .spec format j) :: ·)
termination_by fmt.length - i
decreasing_by
  · have := turn_le h
    have := this.2.1 _ _ rfl
    omega
  · have := turn_le h
    have := this.2.2 _ _ rfl
    omega

/-- The places that a turn takes: the next turn begins behind them. -/
def taken : ℕ × Turn → List ℕ
  | (_, .stop) => []
  | (i, .put _ j) => List.range' i (j + 1 - i)
  | (i, .spec _ j) => List.range' i (j + 1 - i)
  | (i, .invalid j) => List.range' i (j - i)

/-- The printing of turns. -/
def printTurns (mem : Memory) : List (ℕ × Turn) → BitVec 32 → VaList → List Char → Option Printed
  | (_, .put c _) :: turns, counter, ap, out => printTurns mem turns (counter + 1) ap (out ++ [c])
  | (_, .spec format _) :: turns, counter, ap, out =>
    (vargToCallback mem format ap).bind fun r =>
      printTurns mem turns (counter + r.1.counter) r.2 (out ++ r.1.out)
  | (_, .invalid _) :: _, _, _, out => some ⟨-1, out⟩
  | _, counter, _, out => some ⟨counter, out⟩

/-- The loop of `vsprintf_callback` is the scan and the printing of what it found. -/
theorem vsprintfLoop_eq (mem : Memory) (fmt : List Char) (i : ℕ) (counter : BitVec 32) (ap : VaList)
    (out : List Char) : vsprintfLoop mem fmt i counter ap out =
      (scan fmt i).bind fun turns => printTurns mem turns counter ap out := by
  fun_induction scan fmt i generalizing counter ap out with
  | case1 i ht =>
    rw [vsprintfLoop]
    split <;> rename_i ht' <;> cases ht.symm.trans ht'
    rfl
  | case2 i ht =>
    rw [vsprintfLoop]
    split <;> rename_i ht' <;> cases ht.symm.trans ht'
    rfl
  | case3 i c j ht ih =>
    rw [vsprintfLoop]
    split <;> rename_i ht' <;> cases ht.symm.trans ht'
    rw [ih, Option.bind_map]
    rfl
  | case4 i j ht =>
    rw [vsprintfLoop]
    split <;> rename_i ht' <;> cases ht.symm.trans ht'
    rfl
  | case5 i format j ht ih =>
    rw [vsprintfLoop]
    split <;> rename_i ht' <;> cases ht.symm.trans ht'
    rw [Option.bind_map]
    simp only [Function.comp_def, printTurns]
    cases hv : vargToCallback mem format ap with
    | none => simp
    | some r => exact ih _ _ _

/-- In the string every turn ends where the text of its turn does. -/
theorem turn_inside {s : List Char} (hs : '\x00' ∉ s) {i : ℕ} (h : i ≤ s.length) :
    ∃ t, turn (s ++ ['\x00']) i = some t ∧ (t = .stop → i = s.length) ∧
      (∀ c j, t = .put c j → i ≤ j ∧ j < s.length) ∧
      (∀ format j, t = .spec format j → i ≤ j ∧ j < s.length ∧ format.specifier ∈ specifiers) ∧
      ∀ j, t = .invalid j → i ≤ j ∧ j ≤ s.length := by
  obtain ⟨c, hc, hlt⟩ := read_inside h
  have hsome : ∃ t, turn (s ++ ['\x00']) i = some t := by
    rw [turn, hc]
    simp only [Option.bind_eq_bind, Option.bind_some]
    split_ifs with h0 hp
    · exact ⟨_, rfl⟩
    · obtain ⟨c', hc', -⟩ := read_inside (Nat.succ_le_of_lt (hlt h0))
      obtain ⟨r, hr, -⟩ := analyseFormat_inside (hlt h0)
      rw [hc', hr]
      simp only [Option.bind_some]
      split_ifs <;> exact ⟨_, rfl⟩
    · exact ⟨_, rfl⟩
  obtain ⟨t, ht⟩ := hsome
  refine ⟨t, ht, ?_⟩
  obtain ⟨c', hc', hcases⟩ := turn_inv ht
  obtain rfl := Option.some.inj (hc.symm.trans hc')
  rcases hcases with ⟨rfl, rfl⟩ | ⟨h0, -, rfl⟩ | ⟨rfl, hnext, rfl⟩ | ⟨rfl, r, hr, ⟨hv, rfl⟩ | ⟨hv, rfl⟩⟩
  · refine ⟨fun _ => ?_, by simp, by simp, by simp⟩
    by_contra hne
    have hin : i < s.length := lt_of_le_of_ne h hne
    rw [List.getElem?_append_left hin] at hc
    exact hs (List.mem_of_getElem? hc)
  · refine ⟨by simp, ?_, by simp, by simp⟩
    rintro c' j ⟨⟩
    exact ⟨le_rfl, hlt h0⟩
  · refine ⟨by simp, ?_, by simp, by simp⟩
    rintro c' j ⟨⟩
    exact ⟨Nat.le_succ i, (List.getElem?_eq_some_iff.mp (lt_of_read hnext (by decide))).1⟩
  · refine ⟨by simp, by simp, by simp, ?_⟩
    rintro j ⟨⟩
    obtain ⟨r', hr', hi, hle⟩ := analyseFormat_inside (hlt (by decide))
    obtain rfl := Option.some.inj (hr.symm.trans hr')
    exact ⟨hi.le, hle⟩
  · refine ⟨by simp, by simp, ?_, by simp⟩
    rintro format j ⟨⟩
    obtain ⟨items, hspec⟩ := analyseFormat_specification hr hv
    have hlt := (List.getElem?_eq_some_iff.mp (lt_of_read hspec.read hspec.specifier_ne)).1
    exact ⟨(analyseFormat_lt hr).le, hlt, hspec.specifier⟩

/-- From `i` on the turns take the places of the string one after the other, up to its end or to where
a specification is not valid. -/
structure Scanned (s : List Char) (i : ℕ) (turns : List (ℕ × Turn)) : Prop where
  specifier : ∀ k format j, (k, Turn.spec format j) ∈ turns → format.specifier ∈ specifiers
  taken : ∃ stop, i ≤ stop ∧ stop ≤ s.length ∧ turns.flatMap taken = List.range' i (stop - i) ∧
    (stop = s.length ∨ ∃ k, turns.getLast? = some (k, .invalid stop))

theorem Scanned.cons {s : List Char} {i j : ℕ} {t : Turn} {turns : List (ℕ × Turn)}
    (h : Scanned s (j + 1) turns) (hle : i ≤ j) (ht : Vsprintf.taken (i, t) = List.range' i (j + 1 - i))
    (hspec : ∀ format k, t = .spec format k → format.specifier ∈ specifiers) :
    Scanned s i ((i, t) :: turns) where
  specifier := by
    intro k format j' hmem
    rcases List.mem_cons.mp hmem with he | hmem
    · exact hspec format j' (Prod.mk.inj he).2.symm
    · exact h.specifier k format j' hmem
  taken := by
    obtain ⟨stop, hstop, hle', htaken, hend⟩ := h.taken
    refine ⟨stop, by omega, hle', ?_, hend.imp_right ?_⟩
    · calc ((i, t) :: turns).flatMap Vsprintf.taken
          = List.range' i (j + 1 - i) ++ List.range' (j + 1) (stop - (j + 1)) := by
            rw [List.flatMap_cons, ht, htaken]
        _ = List.range' i (j + 1 - i) ++ List.range' (i + (j + 1 - i)) (stop - (j + 1)) := by
            rw [Nat.add_sub_cancel' (by omega : i ≤ j + 1)]
        _ = List.range' i (stop - i) := by
            rw [List.range'_append_1]
            congr 1
            omega
    · rintro ⟨k, hk⟩
      exact ⟨k, by rw [List.getLast?_cons, hk]; rfl⟩

theorem scan_inside {s : List Char} (hs : '\x00' ∉ s) {i : ℕ} (h : i ≤ s.length) :
    ∃ turns, scan (s ++ ['\x00']) i = some turns ∧ Scanned s i turns := by
  induction hn : s.length - i using Nat.strong_induction_on generalizing i with
  | _ n ih =>
    obtain ⟨t, ht, hstop, hput, hspec, hinvalid⟩ := turn_inside hs h
    rw [scan]
    split <;> rename_i ht' <;> cases ht.symm.trans ht'
    · exact ⟨[], rfl, by simp, i, le_rfl, h, by simp, .inl (hstop rfl)⟩
    · rename_i c j
      obtain ⟨hle, hlt⟩ := hput c j rfl
      obtain ⟨turns, hscan, hturns⟩ := ih _ (by omega) (Nat.succ_le_of_lt hlt) rfl
      exact ⟨_, by rw [hscan]; rfl, hturns.cons hle rfl (by rintro format k ⟨⟩)⟩
    · rename_i j
      obtain ⟨hle, hlt⟩ := hinvalid j rfl
      refine ⟨[(i, .invalid j)], rfl, ?_, j, hle, hlt, by simp [taken], .inr ⟨i, rfl⟩⟩
      intro k format j' hmem
      cases List.mem_singleton.mp hmem
    · rename_i format j
      obtain ⟨hle, hlt, hmem⟩ := hspec format j rfl
      obtain ⟨turns, hscan, hturns⟩ := ih _ (by omega) (Nat.succ_le_of_lt hlt) rfl
      refine ⟨_, by rw [hscan]; rfl, hturns.cons hle rfl ?_⟩
      rintro format' k ⟨⟩
      exact hmem

/-- What was scanned can be printed. -/
theorem printTurns_some (mem : Memory) {turns : List (ℕ × Turn)}
    (h : ∀ k format j, (k, Turn.spec format j) ∈ turns → format.specifier ∈ specifiers)
    (counter : BitVec 32) (ap : VaList) (out : List Char) :
    ∃ r, printTurns mem turns counter ap out = some r := by
  induction turns generalizing counter ap out with
  | nil => exact ⟨_, rfl⟩
  | cons t turns ih =>
    have hturns := fun k format j hmem => h k format j (List.mem_cons_of_mem t hmem)
    obtain ⟨i, t⟩ := t
    cases t with
    | stop => exact ⟨_, rfl⟩
    | put c j => exact ih hturns _ _ _
    | invalid j => exact ⟨_, rfl⟩
    | spec format j =>
      rw [printTurns, vargToCallback_eq mem (h i format j List.mem_cons_self)]
      exact ih hturns _ _ _

/-- Every analysis ends inside the string, at a specifier if the specification is valid, and the loop
of `vsprintf_callback` ends after it has taken each character once, up to the NUL or to a
specification that is not valid. -/
theorem format_inside (s : List Char) (hs : '\x00' ∉ s) :
    (∀ i, s[i]? = some '%' → ∃ idx format, analyseFormat (s ++ ['\x00']) i = some (idx, format) ∧
      i < idx ∧ idx ≤ s.length ∧
      (format.valid = true → s[idx]? = some format.specifier ∧
        ∃ items, Specification (s ++ ['\x00']) (i + 1) idx format items)) ∧
    ∃ turns stop, scan (s ++ ['\x00']) 0 = some turns ∧ turns.flatMap taken = List.range stop ∧
      stop ≤ s.length ∧ (stop = s.length ∨ ∃ k, turns.getLast? = some (k, .invalid stop)) ∧
      ∀ mem ap, ∃ r, vsprintfCallback mem (s ++ ['\x00']) ap = some r ∧
        printTurns mem turns 0 ap [] = some r := by
  refine ⟨fun i hi => ?_, ?_⟩
  · obtain ⟨⟨idx, format⟩, hr, hlt, hle⟩ := analyseFormat_inside (List.getElem?_eq_some_iff.mp hi).1
    refine ⟨idx, format, hr, hlt, hle, fun hv => ?_⟩
    obtain ⟨items, hspec⟩ := analyseFormat_specification hr hv
    exact ⟨lt_of_read hspec.read hspec.specifier_ne, items, hspec⟩
  · obtain ⟨turns, hscan, hturns⟩ := scan_inside hs (Nat.zero_le s.length)
    obtain ⟨stop, -, hle, htaken, hend⟩ := hturns.taken
    refine ⟨turns, stop, hscan, ?_, hle, hend, fun mem ap => ?_⟩
    · rw [htaken, List.range_eq_range']
      rfl
    · obtain ⟨r, hr⟩ := printTurns_some mem hturns.specifier 0 ap []
      exact ⟨r, by rw [vsprintfCallback, vsprintfLoop_eq, hscan]; exact hr, hr⟩

theorem format_inside_width : ∃ idx format,
    analyseFormat (['%', '-', '5', 'd'] ++ ['\x00']) 0 = some (idx, format) ∧ 0 < idx ∧ idx ≤ 4 := by
  obtain ⟨idx, format, h, hlt, hle, -⟩ := (format_inside ['%', '-', '5', 'd'] (by decide)).1 0 rfl
  exact ⟨idx, format, h, hlt, hle⟩

end SysuOs.Vsprintf
