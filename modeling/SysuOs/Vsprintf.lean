import SysuOs.Decify

/-! `vsprintf_callback`: a format string is scanned, each specification of it is analysed and its
argument printed. A string is a list of characters that ends in its NUL, and reading behind it is an
error of the model; `out` is the list of the characters that went to the callback. -/

namespace SysuOs.Vsprintf

/-! ### Specifications -/

/-- `Format::length` where a `long` has 32 bits. -/
inductive Length where
  | int
  | long
  deriving DecidableEq, Repr

structure Format where
  width : BitVec 32
  leftAlign : Bool
  zeroPad : Bool
  valid : Bool
  length : Length
  specifier : Char
  deriving DecidableEq, Repr

/-- `DEFAULT_WIDTH`. -/
def defaultWidth : BitVec 32 := 1

/-- `init_format`. -/
def initFormat : Format where
  width := defaultWidth
  leftAlign := false
  zeroPad := false
  valid := true
  length := .int
  specifier := '\x00'

/-- The characters of the `switch` that end a specification. -/
def specifiers : List Char := ['d', 'i', 'u', 'x', 'c', 's', 'p']

/-- `while (fmt[*idx] >= '0' && fmt[*idx] <= '9')`, which adds up an `int`. -/
def widthLoop (fmt : List Char) (idx : ℕ) (sum : BitVec 32) : Option (ℕ × BitVec 32) :=
  match h : fmt[idx]? with
  | none => none
  | some c =>
    if '0' ≤ c ∧ c ≤ '9' then
      widthLoop fmt (idx + 1) (sum * 10 + BitVec.ofNat 32 (c.toNat - '0'.toNat))
    else some (idx, sum)
termination_by fmt.length - idx
decreasing_by
  have := (List.getElem?_eq_some_iff.mp h).1
  omega

/-- How the `switch` is left: `ret` by a `return`, `brk` by a `break`, after which `*idx` is increased. -/
inductive Switch where
  | ret (format : Format)
  | brk (idx : ℕ) (format : Format)
  deriving DecidableEq, Repr

/-- The `switch` of `analyse_format`. -/
def analyseSwitch (fmt : List Char) (idx : ℕ) (format : Format) : Option Switch := do
  let c ← fmt[idx]?
  if c ∈ specifiers then
    some (.ret { format with specifier := c })
  else if c = '0' then
    if !format.zeroPad then some (.brk idx { format with zeroPad := true })
    else some (.brk idx { format with valid := false })
  else if c = '-' then
    if !format.leftAlign then some (.brk idx { format with leftAlign := true })
    else some (.brk idx { format with valid := false })
  else if c = 'l' then
    if format.length = .int then some (.brk idx { format with length := .long })
    else some (.brk idx { format with valid := false })
  else if '1' ≤ c ∧ c ≤ '9' then
    if format.width ≠ defaultWidth then some (.brk idx { format with valid := false })
    else (widthLoop fmt idx 0).map fun r => .brk (r.1 - 1) { format with width := r.2 }
  else some (.ret { format with valid := false })

theorem widthLoop_le {fmt : List Char} {idx : ℕ} {sum : BitVec 32} {r : ℕ × BitVec 32}
    (h : widthLoop fmt idx sum = some r) : idx ≤ r.1 := by
  fun_induction widthLoop fmt idx sum with
  | case1 => cases h
  | case2 idx sum c hc hd ih => exact (Nat.le_succ idx).trans (ih h)
  | case3 idx sum c hc hd =>
    obtain rfl := Option.some.inj h
    exact le_rfl

/-- The first digit of a width is behind it when the loop ends. -/
theorem widthLoop_lt {fmt : List Char} {idx : ℕ} {sum : BitVec 32} {r : ℕ × BitVec 32} {c : Char}
    (hc : fmt[idx]? = some c) (hd : '0' ≤ c ∧ c ≤ '9') (h : widthLoop fmt idx sum = some r) :
    idx < r.1 := by
  rw [widthLoop] at h
  split at h
  · cases h
  · rename_i c' hc'
    obtain rfl : c = c' := Option.some.inj (hc.symm.trans hc')
    rw [if_pos hd] at h
    exact widthLoop_le h

theorem digit_of_nonzero {c : Char} (h : '1' ≤ c ∧ c ≤ '9') : '0' ≤ c ∧ c ≤ '9' :=
  ⟨le_trans (by decide) h.1, h.2⟩

/-- What the `switch` can do: end the specification, take a flag or a width, or reject. -/
theorem analyseSwitch_inv {fmt : List Char} {idx : ℕ} {format : Format} {t : Switch}
    (h : analyseSwitch fmt idx format = some t) :
    ∃ c, fmt[idx]? = some c ∧
      ((c ∈ specifiers ∧ t = .ret { format with specifier := c }) ∨
        (c = '0' ∧ format.zeroPad = false ∧ t = .brk idx { format with zeroPad := true }) ∨
        (c = '-' ∧ format.leftAlign = false ∧ t = .brk idx { format with leftAlign := true }) ∨
        (c = 'l' ∧ format.length = .int ∧ t = .brk idx { format with length := .long }) ∨
        (('1' ≤ c ∧ c ≤ '9') ∧ ∃ r, widthLoop fmt idx 0 = some r ∧
          t = .brk (r.1 - 1) { format with width := r.2 }) ∨
        (c ≠ '\x00' ∧ t = .brk idx { format with valid := false }) ∨
        t = .ret { format with valid := false }) := by
  rw [analyseSwitch] at h
  cases hc : fmt[idx]? with
  | none => simp [hc] at h
  | some c =>
    refine ⟨c, rfl, ?_⟩
    simp only [hc, Option.bind_eq_bind, Option.bind_some] at h
    split_ifs at h with hs h0 hz hm hl h1 hi hd hw
    · exact .inl ⟨hs, (Option.some.inj h).symm⟩
    · exact .inr (.inl ⟨h0, by simpa using hz, (Option.some.inj h).symm⟩)
    · exact .inr (.inr (.inr (.inr (.inr (.inl ⟨by rw [h0]; decide, (Option.some.inj h).symm⟩)))))
    · exact .inr (.inr (.inl ⟨hm, by simpa using hl, (Option.some.inj h).symm⟩))
    · exact .inr (.inr (.inr (.inr (.inr (.inl ⟨by rw [hm]; decide, (Option.some.inj h).symm⟩)))))
    · exact .inr (.inr (.inr (.inl ⟨h1, hi, (Option.some.inj h).symm⟩)))
    · exact .inr (.inr (.inr (.inr (.inr (.inl ⟨by rw [h1]; decide, (Option.some.inj h).symm⟩)))))
    · have hne : c ≠ '\x00' := by
        rintro rfl
        exact absurd hd.1 (by decide)
      exact .inr (.inr (.inr (.inr (.inr (.inl ⟨hne, (Option.some.inj h).symm⟩)))))
    · obtain ⟨r, hr, rfl⟩ := Option.map_eq_some_iff.mp h
      exact .inr (.inr (.inr (.inr (.inl ⟨hd, r, hr, rfl⟩))))
    · exact .inr (.inr (.inr (.inr (.inr (.inr (Option.some.inj h).symm)))))

/-- The `switch` never goes back, and it reads a character of the string. -/
theorem analyseSwitch_le {fmt : List Char} {idx idx' : ℕ} {format format' : Format}
    (h : analyseSwitch fmt idx format = some (.brk idx' format')) : idx ≤ idx' ∧ idx < fmt.length := by
  obtain ⟨c, hc, ht⟩ := analyseSwitch_inv h
  refine ⟨?_, (List.getElem?_eq_some_iff.mp hc).1⟩
  rcases ht with ⟨-, ht⟩ | ⟨-, -, ht⟩ | ⟨-, -, ht⟩ | ⟨-, -, ht⟩ | ⟨hd, r, hr, ht⟩ | ⟨-, ht⟩ | ht <;> cases ht
  any_goals exact le_rfl
  have := widthLoop_lt hc (digit_of_nonzero hd) hr
  omega

/-- The `while` of `analyse_format`. -/
def analyseLoop (fmt : List Char) (idx : ℕ) (format : Format) : Option (ℕ × Format) :=
  if format.valid then
    match h : analyseSwitch fmt idx format with
    | none => none
    | some (.ret format) => some (idx, format)
    | some (.brk idx' format') => analyseLoop fmt (idx' + 1) format'
  else some (idx, format)
termination_by fmt.length - idx
decreasing_by
  have := analyseSwitch_le h
  omega

/-- `analyse_format`, which returns `*idx` and `*format`. -/
def analyseFormat (fmt : List Char) (idx : ℕ) : Option (ℕ × Format) :=
  analyseLoop fmt (idx + 1) initFormat

theorem analyseLoop_le {fmt : List Char} {idx : ℕ} {format : Format} {r : ℕ × Format}
    (h : analyseLoop fmt idx format = some r) : idx ≤ r.1 := by
  fun_induction analyseLoop fmt idx format with
  | case1 => cases h
  | case2 idx format hv format' hs =>
    obtain rfl := Option.some.inj h
    exact le_rfl
  | case3 idx format hv idx' format' hs ih =>
    have := ih h
    have := (analyseSwitch_le hs).1
    omega
  | case4 =>
    obtain rfl := Option.some.inj h
    exact le_rfl

theorem analyseFormat_lt {fmt : List Char} {idx : ℕ} {r : ℕ × Format}
    (h : analyseFormat fmt idx = some r) : idx < r.1 := analyseLoop_le h

/-! ### Printing -/

/-- What a call counted and what it put out. -/
structure Printed where
  counter : BitVec 32
  out : List Char
  deriving DecidableEq, Repr

namespace Printed

instance : Append Printed where
  append p q := ⟨p.counter + q.counter, p.out ++ q.out⟩

@[simp] theorem append_counter (p q : Printed) : (p ++ q).counter = p.counter + q.counter := rfl
@[simp] theorem append_out (p q : Printed) : (p ++ q).out = p.out ++ q.out := rfl

end Printed

/-- `out(c)` with nothing counted. -/
def putc (c : Char) : Printed := ⟨0, [c]⟩

/-- `counter += out_str(out, str)`. -/
def outStr (str : List Char) : Printed := ⟨BitVec.ofNat 32 str.length, str⟩

/-- `counter += out_pad(out, pad, num)`: the loop ends at an `int`, and `num` is what is returned. -/
def outPad (pad : Char) (num : BitVec 32) : Printed := ⟨num, List.replicate num.toInt.toNat pad⟩

/-- `strlen(str)`. -/
def strlen (str : List Char) : BitVec 32 := BitVec.ofNat 32 str.length

/-- The length is what the loop of `strlen` counts in the bytes of the string and its NUL. -/
theorem strlen_eq {code : Char → Byte} {str : List Char} {fuel : Nat} (hstr : '\x00' ∉ str)
    (hcode : ∀ c ∈ str ++ ['\x00'], code c = 0#8 ↔ c = '\x00') (hfuel : str.length + 1 < fuel) :
    ∃ n, SysuOs.strlen (fun k => code ((str ++ ['\x00']).getD k '\x00')) fuel 0 = .ret n ∧
      strlen str = BitVec.ofNat 32 n := by
  have hstring : stringAt (str ++ ['\x00']) 0 = str := stringAt_of_drop rfl hstr
  have hcount := @strlen_stringAt fuel 0 (str ++ ['\x00']) code hcode (by simp) (by simpa using hfuel)
  simp only [hstring, Nat.zero_add] at hcount
  exact ⟨_, hcount, rfl⟩

/-- How `%d` and `%i` print their numeral. -/
def printSigned (format : Format) (str : List Char) : Printed :=
  let length := strlen str
  if length < format.width then
    if format.leftAlign then
      outStr str ++ outPad ' ' (format.width - length)
    else
      let negative := str.head? = some '-'
      if format.zeroPad ∧ negative then
        putc '-' ++ outPad '0' (format.width - length) ++ outStr str.tail
      else if format.zeroPad ∧ ¬negative then
        outPad '0' (format.width - length) ++ outStr str
      else if ¬format.zeroPad ∧ negative then
        outPad ' ' (format.width - length) ++ putc '-' ++ outStr str.tail
      else
        outPad ' ' (format.width - length) ++ outStr str
  else outStr str

/-- How `%u` and `%x` print their numeral. -/
def printUnsigned (format : Format) (str : List Char) : Printed :=
  let length := strlen str
  if length < format.width then
    if format.leftAlign then
      outStr str ++ outPad ' ' (format.width - length)
    else if format.zeroPad then
      outPad '0' (format.width - length) ++ outStr str
    else
      outPad ' ' (format.width - length) ++ outStr str
  else outStr str

/-- The arguments, which are words on the stack. -/
abbrev VaList := Stream' (BitVec 32)

/-- What the printing uses of the memory: the strings that words point to, and the bytes that are on
the stack where `num_buf` lies. -/
structure Memory where
  strings : BitVec 32 → List Char
  numBuf : List Char
  numBuf_length : numBuf.length = maxNumLength + 1

/-- `va_arg` at the length of the format; each of the types is a word. -/
def vaNum (length : Length) (ap : VaList) : BitVec 32 :=
  match length with
  | .int => ap.head
  | .long => ap.head

/-- `varg_to_callback`, which also returns the arguments that are left. -/
def vargToCallback (mem : Memory) (format : Format) (ap : VaList) : Option (Printed × VaList) :=
  match format.specifier with
  | 'p' => do
      let str ← hexify ap.head mem.numBuf
      some (outStr ['0', 'x'] ++ outStr (stringAt str.1 str.2), ap.tail)
  | 's' =>
      let str := if ap.head = 0 then "(null)".toList else mem.strings ap.head
      some (outStr str, ap.tail)
  | 'c' => some (⟨1, [Char.ofNat (ap.head.toNat % 256)]⟩, ap.tail)
  | 'd' | 'i' => do
      let str ← signDecify (vaNum format.length ap) mem.numBuf
      some (printSigned format (stringAt str.1 str.2), ap.tail)
  | 'u' => do
      let str ← unsignDecify (vaNum format.length ap) mem.numBuf
      some (printUnsigned format (stringAt str.1 str.2), ap.tail)
  | 'x' => do
      let str ← hexify (vaNum format.length ap) mem.numBuf
      some (printUnsigned format (stringAt str.1 str.2), ap.tail)
  | _ => some (⟨0, []⟩, ap)

@[simp] theorem vaNum_eq (length : Length) (ap : VaList) : vaNum length ap = ap.head := by
  cases length <;> rfl

/-- How a word is printed at a format. -/
def printArg (mem : Memory) (format : Format) (word : BitVec 32) : Printed :=
  match format.specifier with
  | 'p' => outStr ['0', 'x'] ++ outStr (Nat.toDigits 16 word.toNat)
  | 's' => outStr (if word = 0 then "(null)".toList else mem.strings word)
  | 'c' => ⟨1, [Char.ofNat (word.toNat % 256)]⟩
  | 'd' | 'i' => printSigned format (signed word)
  | 'u' => printUnsigned format (Nat.toDigits 10 word.toNat)
  | 'x' => printUnsigned format (Nat.toDigits 16 word.toNat)
  | _ => ⟨0, []⟩

/-- A specification takes one argument, and no numeral leaves its buffer. -/
theorem vargToCallback_eq (mem : Memory) {format : Format} (h : format.specifier ∈ specifiers)
    (ap : VaList) : vargToCallback mem format ap = some (printArg mem format ap.head, ap.tail) := by
  obtain ⟨rs, hrs, hs⟩ := signDecify_returns ap.head mem.numBuf_length
  obtain ⟨ru, hru, hu⟩ := unsignDecify_returns ap.head mem.numBuf_length
  obtain ⟨rx, hrx, hx⟩ := hexify_returns ap.head mem.numBuf_length
  rw [vargToCallback, printArg]
  simp only [specifiers, List.mem_cons, List.not_mem_nil, or_false] at h
  rcases h with h | h | h | h | h | h | h <;>
    simp only [h, vaNum_eq, hrs, hru, hrx, Option.bind_eq_bind, Option.bind_some, hs.string, hu.string,
      hx.string]

/-! ### The loop -/

/-- What a turn of the loop does: the condition fails, a character is put out, a specification is
printed, or one is not valid. The index is that before `++i`. -/
inductive Turn where
  | stop
  | put (c : Char) (i : ℕ)
  | spec (format : Format) (i : ℕ)
  | invalid (i : ℕ)
  deriving DecidableEq, Repr

/-- What a turn of the loop of `vsprintf_callback` reads of the format. -/
def turn (fmt : List Char) (i : ℕ) : Option Turn := do
  let c ← fmt[i]?
  if c = '\x00' then some .stop
  else if c = '%' then do
    let c' ← fmt[i + 1]?
    if c' = '%' then some (.put '%' (i + 1))
    else do
      let r ← analyseFormat fmt i
      if !r.2.valid then some (.invalid r.1) else some (.spec r.2 r.1)
  else some (.put c i)

theorem turn_inv {fmt : List Char} {i : ℕ} {t : Turn} (h : turn fmt i = some t) :
    ∃ c, fmt[i]? = some c ∧
      ((c = '\x00' ∧ t = .stop) ∨
        (c ≠ '\x00' ∧ c ≠ '%' ∧ t = .put c i) ∨
        (c = '%' ∧ fmt[i + 1]? = some '%' ∧ t = .put '%' (i + 1)) ∨
        (c = '%' ∧ ∃ r, analyseFormat fmt i = some r ∧
          ((r.2.valid = false ∧ t = .invalid r.1) ∨ (r.2.valid = true ∧ t = .spec r.2 r.1)))) := by
  rw [turn] at h
  cases hc : fmt[i]? with
  | none => simp [hc] at h
  | some c =>
    refine ⟨c, rfl, ?_⟩
    simp only [hc, Option.bind_eq_bind, Option.bind_some] at h
    split_ifs at h with h0 hp
    · exact .inl ⟨h0, (Option.some.inj h).symm⟩
    · right; right
      cases hc' : fmt[i + 1]? with
      | none => simp [hc'] at h
      | some c' =>
        simp only [hc', Option.bind_some] at h
        split_ifs at h with hpp
        · exact .inl ⟨hp, hpp ▸ rfl, (Option.some.inj h).symm⟩
        · right
          refine ⟨hp, ?_⟩
          cases hr : analyseFormat fmt i with
          | none => simp [hr] at h
          | some r =>
            simp only [hr, Option.bind_some] at h
            split_ifs at h with hv
            · exact ⟨r, rfl, .inl ⟨by simpa using hv, (Option.some.inj h).symm⟩⟩
            · exact ⟨r, rfl, .inr ⟨by simpa using hv, (Option.some.inj h).symm⟩⟩
    · exact .inr (.inl ⟨h0, hp, (Option.some.inj h).symm⟩)

/-- The index never falls, and the turn begins at a character of the string. -/
theorem turn_le {fmt : List Char} {i : ℕ} {t : Turn} (h : turn fmt i = some t) :
    i < fmt.length ∧ (∀ c j, t = .put c j → i ≤ j) ∧ (∀ f j, t = .spec f j → i ≤ j) := by
  obtain ⟨c, hc, hcases⟩ := turn_inv h
  refine ⟨(List.getElem?_eq_some_iff.mp hc).1, ?_, ?_⟩
  · rintro c' j rfl
    rcases hcases with ⟨-, h⟩ | ⟨-, -, h⟩ | ⟨-, -, h⟩ | ⟨-, r, -, ⟨-, h⟩ | ⟨-, h⟩⟩ <;> cases h
    · exact le_rfl
    · exact Nat.le_succ i
  · rintro f j rfl
    rcases hcases with ⟨-, h⟩ | ⟨-, -, h⟩ | ⟨-, -, h⟩ | ⟨-, r, hr, ⟨-, h⟩ | ⟨-, h⟩⟩ <;> cases h
    exact (analyseFormat_lt hr).le

/-- The loop of `vsprintf_callback`; it returns the count, and with it what was put out. -/
def vsprintfLoop (mem : Memory) (fmt : List Char) (i : ℕ) (counter : BitVec 32) (ap : VaList)
    (out : List Char) : Option Printed :=
  match h : turn fmt i with
  | none => none
  | some .stop => some ⟨counter, out⟩
  | some (.put c j) => vsprintfLoop mem fmt (j + 1) (counter + 1) ap (out ++ [c])
  | some (.invalid _) => some ⟨-1, out⟩
  | some (.spec format j) =>
    match vargToCallback mem format ap with
    | none => none
    | some (p, ap) => vsprintfLoop mem fmt (j + 1) (counter + p.counter) ap (out ++ p.out)
termination_by fmt.length - i
decreasing_by
  · have := turn_le h
    have := this.2.1 _ _ rfl
    omega
  · have := turn_le h
    have := this.2.2 _ _ rfl
    omega

/-- `vsprintf_callback`. -/
def vsprintfCallback (mem : Memory) (fmt : List Char) (ap : VaList) : Option Printed :=
  vsprintfLoop mem fmt 0 0 ap []

end SysuOs.Vsprintf
