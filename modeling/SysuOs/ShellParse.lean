import SysuOs.CString

/-! `parse_line` of the shell. It edits the line in place: `buf` is the memory of the line, a place in
it is a pointer, and `none` is a read or a write outside of the line or of `argv`. -/

namespace SysuOs.Shell

/-- `SHELL_MAX_ARGS`. -/
def maxArgs : ℕ := 16

def isBlank (c : Char) : Bool := c = ' ' || c = '\t'

def isNewline (c : Char) : Bool := c = '\n' || c = '\r'

/-- `line[p] = c`. -/
def poke (buf : List Char) (p : ℕ) (c : Char) : Option (List Char) :=
  if p < buf.length then some (buf.set p c) else none

/-- `argv[k] = p`. -/
def setArg (argv : List (Option ℕ)) (k : ℕ) (p : Option ℕ) : Option (List (Option ℕ)) :=
  if k < argv.length then some (argv.set k p) else none

/-- The loop of `trim_newline` and `trim_tail` over the last characters of the string at `s`. -/
def trimLoop (drops : Char → Bool) (s : ℕ) : ℕ → List Char → Option (List Char)
  | 0, buf => some buf
  | len + 1, buf => do
      let c ← buf[s + len]?
      if drops c then do
        let buf ← poke buf (s + len) '\x00'
        trimLoop drops s len buf
      else some buf

def strlen (buf : List Char) (s : ℕ) : ℕ := (stringAt buf s).length

/-- `trim_newline`. -/
def trimNewline (buf : List Char) (s : ℕ) : Option (List Char) := trimLoop isNewline s (strlen buf s) buf

/-- `trim_tail`. -/
def trimTail (buf : List Char) (s : ℕ) : Option (List Char) := trimLoop isBlank s (strlen buf s) buf

/-- `skip_spaces`. -/
def skipSpaces (buf : List Char) (s : ℕ) : Option ℕ :=
  match h : buf[s]? with
  | none => none
  | some c => if isBlank c then skipSpaces buf (s + 1) else some s
termination_by buf.length - s
decreasing_by
  have := (List.getElem?_eq_some_iff.mp h).1
  omega

/-- `while (*cmd && *cmd != ' ' && *cmd != '\t')`. -/
def skipWord (buf : List Char) (cmd : ℕ) : Option ℕ :=
  match h : buf[cmd]? with
  | none => none
  | some c => if c ≠ '\x00' ∧ ¬isBlank c then skipWord buf (cmd + 1) else some cmd
termination_by buf.length - cmd
decreasing_by
  have := (List.getElem?_eq_some_iff.mp h).1
  omega

/-- The line, `argv` and `argc` after the loop of `parse_line`. -/
structure Tokens where
  line : List Char
  argv : List (Option ℕ)
  argc : ℕ
  deriving DecidableEq, Repr

/-- `while (*cmd && *argc < SHELL_MAX_ARGS - 1)`. -/
def tokenLoop (buf : List Char) (argv : List (Option ℕ)) (argc cmd : ℕ) : Option Tokens :=
  match buf[cmd]? with
  | none => none
  | some c =>
    if h : c ≠ '\x00' ∧ argc < maxArgs - 1 then do
      let argv ← setArg argv argc (some cmd)
      let stop ← skipWord buf cmd
      let c ← buf[stop]?
      if c = '\x00' then some ⟨buf, argv, argc + 1⟩
      else do
        let buf ← poke buf stop '\x00'
        let next ← skipSpaces buf (stop + 1)
        tokenLoop buf argv (argc + 1) next
    else some ⟨buf, argv, argc⟩
termination_by maxArgs - 1 - argc
decreasing_by
  have := h.2
  omega

/-- What `parse_line` leaves and returns. -/
structure Parsed extends Tokens where
  bg : Bool
  ret : Bool
  deriving DecidableEq, Repr

/-- `parse_line`. -/
def parseLine (buf : List Char) (argv : List (Option ℕ)) : Option Parsed := do
  let buf ← trimNewline buf 0
  let buf ← trimTail buf 0
  let cmd ← skipSpaces buf 0
  let c ← buf[cmd]?
  if c = '\x00' then
    some { line := buf, argv := argv, argc := 0, bg := false, ret := false }
  else do
    let len := strlen buf cmd
    let last ← buf[cmd + len - 1]?
    let bg := decide (0 < len ∧ last = '&')
    let buf ← if bg then do
        let buf ← poke buf (cmd + len - 1) '\x00'
        trimTail buf cmd
      else some buf
    let t ← tokenLoop buf argv 0 cmd
    let argv ← setArg t.argv t.argc none
    some { line := t.line, argv := argv, argc := t.argc, bg := bg, ret := decide (0 < t.argc) }

/-! ### Words -/

/-- The maximal runs of characters that are no blanks. -/
def words (s : List Char) : List (List Char) := (s.splitOnP isBlank).filter (· ≠ [])

theorem words_blank {c : Char} (h : isBlank c = true) (s : List Char) : words (c :: s) = words s := by
  have hsplit : ([] ++ c :: s).splitOnP isBlank = [] :: s.splitOnP isBlank :=
    List.splitOnP_append_cons_of_forall_mem (by simp) c h s
  rw [List.nil_append] at hsplit
  rw [words, hsplit, List.filter_cons_of_neg (by simp), words]

theorem words_blanks {b : List Char} (h : ∀ c ∈ b, isBlank c = true) (s : List Char) :
    words (b ++ s) = words s := by
  induction b with
  | nil => rfl
  | cons c b ih =>
    rw [List.cons_append, words_blank (h c List.mem_cons_self)]
    exact ih fun d hd => h d (List.mem_cons_of_mem c hd)

theorem words_nil : words [] = [] := rfl

theorem words_word {w : List Char} (h : ∀ c ∈ w, isBlank c = false) (hw : w ≠ []) : words w = [w] := by
  rw [words, List.splitOnP_eq_singleton h, List.filter_cons_of_pos (by simpa using hw)]
  rfl

theorem words_cons {w : List Char} (h : ∀ c ∈ w, isBlank c = false) (hw : w ≠ []) {c : Char}
    (hc : isBlank c = true) (s : List Char) : words (w ++ c :: s) = w :: words s := by
  rw [words, List.splitOnP_append_cons_of_forall_mem h c hc, List.filter_cons_of_pos (by simpa using hw), words]

/-! ### The loops over characters -/

/-- A buffer with the string `s` at a place: `before` stands before it and `rest` behind its NUL. -/
def holding (before s rest : List Char) : List Char := before ++ (s ++ '\x00' :: rest)

theorem holding_get (before : List Char) {s : List Char} {k : ℕ} (rest : List Char) (h : k < s.length) :
    (holding before s rest)[before.length + k]? = some s[k] := by
  rw [holding, List.getElem?_append_right (Nat.le_add_right _ _), Nat.add_sub_cancel_left]
  rw [List.getElem?_append_left h, List.getElem?_eq_getElem h]

theorem holding_head (before : List Char) (c : Char) (s rest : List Char) :
    (holding before (c :: s) rest)[before.length]? = some c :=
  holding_get before (s := c :: s) (k := 0) rest (by simp)

theorem holding_end (before s rest : List Char) :
    (holding before s rest)[before.length + s.length]? = some '\x00' := by
  rw [holding, List.getElem?_append_right (Nat.le_add_right _ _), Nat.add_sub_cancel_left]
  simp

theorem holding_cons (before : List Char) (c : Char) (s rest : List Char) :
    holding before (c :: s) rest = holding (before ++ [c]) s rest := by
  rw [holding, holding, List.append_assoc]
  rfl

theorem holding_append (before s t rest : List Char) :
    holding before (s ++ t) rest = holding (before ++ s) t rest := by
  rw [holding, holding, List.append_assoc, List.append_assoc]

/-- A NUL in the string ends it there. -/
theorem poke_holding (before s : List Char) (c : Char) (t rest : List Char) :
    poke (holding before (s ++ c :: t) rest) (before.length + s.length) '\x00' =
      some (holding before s (t ++ '\x00' :: rest)) := by
  have hlt : before.length + s.length < (holding before (s ++ c :: t) rest).length := by
    simp only [holding, List.length_append, List.length_cons]
    omega
  rw [poke, if_pos hlt]
  congr 1
  rw [holding, holding, List.set_append_right _ _ (Nat.le_add_right _ _), Nat.add_sub_cancel_left,
    List.append_assoc, List.set_append_right _ _ le_rfl, Nat.sub_self]
  rfl

/-- `trim_newline` and `trim_tail` drop the last characters of the string. -/
theorem trimLoop_holding (drops : Char → Bool) (before s rest : List Char) :
    ∃ mid, trimLoop drops before.length s.length (holding before s rest) =
      some (holding before (s.rdropWhile drops) (mid ++ rest)) ∧
        (s.rdropWhile drops).length + mid.length = s.length := by
  induction s using List.reverseRecOn generalizing rest with
  | nil => exact ⟨[], rfl, rfl⟩
  | append_singleton s c ih =>
    have hget : (holding before (s ++ [c]) rest)[before.length + s.length]? = some c := by
      rw [holding_get before rest (by simp)]
      simp
    rw [List.length_append, List.length_singleton, trimLoop, hget]
    simp only [Option.bind_eq_bind, Option.bind_some]
    by_cases hc : drops c
    · rw [if_pos hc, poke_holding before s c [] rest, List.rdropWhile_concat_pos _ _ _ hc]
      obtain ⟨mid, hrun, hlength⟩ := ih ('\x00' :: rest)
      refine ⟨mid ++ ['\x00'], ?_, ?_⟩
      · rw [List.append_assoc]
        exact hrun
      · rw [List.length_append, ← add_assoc, hlength]
        rfl
    · rw [if_neg hc, List.rdropWhile_concat_neg _ _ _ hc]
      exact ⟨[], rfl, by simp⟩

/-- The length is what the loop of `strlen` counts in the bytes of the line. -/
theorem strlen_eq {code : Char → Byte} {buf : List Char} {s fuel : ℕ}
    (hcode : ∀ c ∈ buf, code c = 0#8 ↔ c = '\x00') (hend : '\x00' ∈ buf.drop s) (hfuel : buf.length < fuel) :
    SysuOs.strlen (fun k => code (buf.getD (s + k) '\x00')) fuel 0 = .ret (strlen buf s) :=
  strlen_stringAt hcode hend hfuel

theorem strlen_holding {before s : List Char} (hs : '\x00' ∉ s) (rest : List Char) :
    strlen (holding before s rest) before.length = s.length := by
  rw [strlen, holding, stringAt_append hs]

/-- `skip_spaces` goes over blanks to a character that is none. -/
theorem skipSpaces_holding (before : List Char) {b : List Char} (hb : ∀ c ∈ b, isBlank c = true)
    {s : List Char} (hs : ∀ c ∈ s.head?, isBlank c = false) (rest : List Char) :
    skipSpaces (holding before (b ++ s) rest) before.length = some (before.length + b.length) := by
  induction b generalizing before with
  | nil =>
    rw [skipSpaces]
    cases s with
    | nil =>
      have hget := holding_end before [] rest
      split <;> rename_i hget' <;> cases hget.symm.trans hget'
      rfl
    | cons c s =>
      have hget := holding_get before (s := c :: s) (k := 0) rest (by simp)
      split <;> rename_i hget' <;> cases hget.symm.trans hget'
      rw [if_neg (by simpa using hs c rfl)]
      rfl
  | cons c b ih =>
    have hget := holding_get before (s := c :: b ++ s) (k := 0) rest (by simp)
    rw [skipSpaces]
    split <;> rename_i hget' <;> cases hget.symm.trans hget'
    have hnext := ih (before ++ [c]) fun d hd => hb d (List.mem_cons_of_mem c hd)
    rw [← holding_cons, List.length_append, List.length_singleton] at hnext
    rw [if_pos (by simpa using hb c List.mem_cons_self), List.cons_append, hnext, List.length_cons]
    congr 1
    omega

/-- The scan of a word stops at the blank behind it, or at the NUL. -/
theorem skipWord_holding (before : List Char) {w : List Char}
    (hw : ∀ c ∈ w, c ≠ '\x00' ∧ isBlank c = false) {s : List Char} (hs : ∀ c ∈ s.head?, isBlank c = true)
    (rest : List Char) :
    skipWord (holding before (w ++ s) rest) before.length = some (before.length + w.length) := by
  induction w generalizing before with
  | nil =>
    rw [skipWord]
    cases s with
    | nil =>
      have hget := holding_end before [] rest
      split <;> rename_i hget' <;> cases hget.symm.trans hget'
      rfl
    | cons c s =>
      have hget := holding_get before (s := c :: s) (k := 0) rest (by simp)
      split <;> rename_i hget' <;> cases hget.symm.trans hget'
      rw [if_neg fun h => h.2 (by simpa using hs c rfl)]
      rfl
  | cons c w ih =>
    have hget := holding_get before (s := c :: w ++ s) (k := 0) rest (by simp)
    rw [skipWord]
    split <;> rename_i hget' <;> cases hget.symm.trans hget'
    have hnext := ih (before ++ [c]) fun d hd => hw d (List.mem_cons_of_mem c hd)
    rw [← holding_cons, List.length_append, List.length_singleton] at hnext
    rw [if_pos (by simpa using hw c List.mem_cons_self), List.cons_append, hnext, List.length_cons]
    congr 1
    omega

/-- The blanks a string begins with. -/
theorem split_blanks (s : List Char) : ∃ b t, s = b ++ t ∧ (∀ c ∈ b, isBlank c = true) ∧
    ∀ c ∈ t.head?, isBlank c = false := by
  refine ⟨s.takeWhile isBlank, s.dropWhile isBlank, List.takeWhile_append_dropWhile.symm, ?_, fun c hc => ?_⟩
  · exact fun c hc => List.mem_takeWhile_imp hc
  · have hfirst := List.head?_dropWhile_not isBlank s
    rw [Option.mem_def.mp hc] at hfirst
    simpa using hfirst

/-- The word a string begins with. -/
theorem split_word {c : Char} (hc : isBlank c = false) (s : List Char) : ∃ w t, c :: s = w ++ t ∧
    (∀ d ∈ w, isBlank d = false) ∧ (∀ d ∈ t.head?, isBlank d = true) ∧ w ≠ [] := by
  refine ⟨(c :: s).takeWhile fun d => !isBlank d, (c :: s).dropWhile fun d => !isBlank d,
    List.takeWhile_append_dropWhile.symm, fun d hd => ?_, fun d hd => ?_, ?_⟩
  · simpa using List.mem_takeWhile_imp hd
  · have hfirst := List.head?_dropWhile_not (fun d => !isBlank d) (c :: s)
    rw [Option.mem_def.mp hd] at hfirst
    simpa using hfirst
  · rw [List.takeWhile_cons_of_pos (by simpa using hc)]
    exact List.cons_ne_nil _ _

/-! ### The tokens -/

/-- The word `w` stands at a pointer, with a NUL behind it. -/
def Spells (buf : List Char) (p : ℕ) (w : List Char) : Prop := ∃ after, buf.drop p = w ++ '\x00' :: after

/-- The loop began with the string `t` behind `before` and set the entries of `argv` from `argc` on: they
point to the first words of `t`, of which there are at most as many as there was room for. -/
structure Tokenised (before t rest : List Char) (argv : List (Option ℕ)) (argc : ℕ) (r : Tokens)
    (ptrs : List ℕ) : Prop where
  text : ∃ t', t'.length = t.length ∧ r.line = holding before t' rest
  count : r.argc = argc + ptrs.length
  entries : r.argv = argv.take argc ++ ptrs.map some ++ argv.drop (argc + ptrs.length)
  spells : List.Forall₂ (Spells r.line) ptrs ((words t).take (maxArgs - 1 - argc))

theorem take_set_append {argv : List (Option ℕ)} {argc : ℕ} (h : argc < argv.length) (p : Option ℕ) :
    (argv.set argc p).take (argc + 1) = argv.take argc ++ [p] := by
  rw [List.take_add_one, List.take_set_of_le le_rfl, List.getElem?_set_self h]
  rfl

/-- The loop ends without a further token. -/
theorem Tokenised.stop {before t rest : List Char} {argv : List (Option ℕ)} {argc : ℕ}
    (h : (words t).take (maxArgs - 1 - argc) = []) :
    Tokenised before t rest argv argc ⟨holding before t rest, argv, argc⟩ [] where
  text := ⟨t, rfl, rfl⟩
  count := rfl
  entries := by simp
  spells := h ▸ List.Forall₂.nil

/-- The loop goes on behind a word `w` of the string, with its pointer set. -/
theorem Tokenised.cons {before w gap u rest : List Char} {argv : List (Option ℕ)} {argc : ℕ} {r : Tokens}
    {ptrs : List ℕ} (h : Tokenised (before ++ (w ++ '\x00' :: gap)) u rest
      (argv.set argc (some before.length)) (argc + 1) r ptrs) (hargc : argc < argv.length)
    (hroom : argc < maxArgs - 1) {t : List Char} (hlength : t.length = (w ++ '\x00' :: (gap ++ u)).length)
    (hwords : words t = w :: words u) : Tokenised before t rest argv argc r (before.length :: ptrs) where
  text := by
    obtain ⟨u', hu', hline⟩ := h.text
    refine ⟨w ++ '\x00' :: (gap ++ u'), ?_, ?_⟩
    · rw [hlength]
      simp [hu']
    · rw [hline, ← holding_append]
      simp
  count := by
    rw [h.count, List.length_cons]
    omega
  entries := by
    rw [h.entries, take_set_append hargc, List.length_cons, List.drop_set_of_lt (by omega)]
    simp [Nat.add_assoc, Nat.add_comm 1]
  spells := by
    obtain ⟨u', -, hline⟩ := h.text
    have hfirst : Spells r.line before.length w := by
      refine ⟨gap ++ (u' ++ '\x00' :: rest), ?_⟩
      rw [hline, holding, List.append_assoc, List.drop_left]
      simp
    have hleft : maxArgs - 1 - argc = maxArgs - 1 - (argc + 1) + 1 := by omega
    rw [hwords, hleft, List.take_succ_cons]
    exact List.Forall₂.cons hfirst h.spells

theorem tokenLoop_tokenised {before t rest : List Char} {argv : List (Option ℕ)} {argc : ℕ}
    (h0 : '\x00' ∉ t) (hhead : ∀ c ∈ t.head?, isBlank c = false) (hargv : argv.length = maxArgs)
    (hargc : argc ≤ maxArgs - 1) :
    ∃ r ptrs, tokenLoop (holding before t rest) argv argc before.length = some r ∧
      Tokenised before t rest argv argc r ptrs := by
  induction hn : maxArgs - 1 - argc generalizing before t rest argv argc with
  | zero =>
    have hroom : ¬argc < maxArgs - 1 := by omega
    refine ⟨_, [], ?_, Tokenised.stop (by rw [hn, List.take_zero])⟩
    rw [tokenLoop]
    cases t with
    | nil =>
      rw [show (holding before [] rest)[before.length]? = some '\x00' from holding_end before [] rest]
      exact dif_neg fun h => hroom h.2
    | cons c t =>
      rw [holding_head]
      exact dif_neg fun h => hroom h.2
  | succ n ih =>
    cases t with
    | nil =>
      refine ⟨_, [], ?_, Tokenised.stop (by rw [words_nil, List.take_nil])⟩
      rw [tokenLoop,
        show (holding before [] rest)[before.length]? = some '\x00' from holding_end before [] rest]
      exact dif_neg fun h => h.1 rfl
    | cons c t =>
      have hroom : argc < maxArgs - 1 := by omega
      have hc : c ≠ '\x00' := fun he => h0 (he ▸ List.mem_cons_self)
      have hcb : isBlank c = false := hhead c rfl
      -- the word at `cmd`, and what stands behind it
      obtain ⟨w, s, hws, hw, hs, hne⟩ := split_word hcb t
      have hwnul : ∀ d ∈ w, d ≠ '\x00' ∧ isBlank d = false := fun d hd =>
        ⟨fun he => h0 (hws ▸ he ▸ List.mem_append_left s hd), hw d hd⟩
      have hset : setArg argv argc (some before.length) = some (argv.set argc (some before.length)) :=
        if_pos (by omega)
      have hskip := skipWord_holding before hwnul hs rest
      rw [tokenLoop, holding_head]
      simp only [Option.bind_eq_bind]
      rw [dif_pos ⟨hc, hroom⟩, hset, Option.bind_some, hws, hskip, Option.bind_some]
      cases s with
      | nil =>
        have hstop := holding_end before w rest
        have hleft : maxArgs - 1 - argc = n + 1 := hn
        rw [List.append_nil, hstop, Option.bind_some, if_pos rfl]
        refine ⟨_, [before.length], rfl, ⟨w, rfl, rfl⟩, rfl, ?_, ?_⟩
        · rw [List.set_eq_take_append_cons_drop, if_pos (by omega)]
          simp
        · rw [words_word hw hne, hleft, List.take_succ_cons, List.take_nil]
          exact List.Forall₂.cons ⟨rest, List.drop_left⟩ List.Forall₂.nil
      | cons b s =>
        obtain ⟨gap, u, hgu, hgap, hu⟩ := split_blanks s
        have hb : isBlank b = true := hs b rfl
        have hbnul : b ≠ '\x00' := fun he => h0 (by rw [hws, he]; simp)
        have hget : (holding before (w ++ b :: s) rest)[before.length + w.length]? = some b := by
          rw [holding_get before rest (by simp)]
          simp
        have hpoke := poke_holding before w b s rest
        have hmove : holding before w (s ++ '\x00' :: rest) =
            holding (before ++ w ++ ['\x00']) (gap ++ u) rest := by
          rw [hgu]
          simp [holding]
        have hspaces := skipSpaces_holding (before ++ w ++ ['\x00']) hgap hu rest
        rw [← hmove] at hspaces
        have hlen : before.length + w.length + 1 = (before ++ w ++ ['\x00']).length := by simp; omega
        rw [hget, Option.bind_some, if_neg hbnul, hpoke, Option.bind_some, hlen, hspaces, Option.bind_some]
        have hnext : holding before w (s ++ '\x00' :: rest) =
            holding (before ++ (w ++ '\x00' :: gap)) u rest := by
          rw [hmove, holding_append]
          simp
        have hcmd : (before ++ w ++ ['\x00']).length + gap.length =
            (before ++ (w ++ '\x00' :: gap)).length := by
          simp
          omega
        rw [hnext, hcmd]
        have h0u : '\x00' ∉ u := fun hmem => h0 (by rw [hws, hgu]; simp [hmem])
        obtain ⟨r, ptrs, hrun, htok⟩ := @ih (before ++ (w ++ '\x00' :: gap)) u rest
          (argv.set argc (some before.length)) (argc + 1) h0u hu (by simpa using hargv) (by omega) (by omega)
        refine ⟨r, before.length :: ptrs, hrun, htok.cons (by omega) hroom ?_ ?_⟩
        · simp [hgu]
        · rw [words_cons hw hne hb, hgu, words_blanks hgap]

/-! ### The line -/

/-- The last character of a line that is no blank. -/
def lastNonBlank (body : List Char) : Option Char := (body.filter fun c => !isBlank c).getLast?

/-- A line without the `&` that ends it, if one does. -/
def command (body : List Char) : List Char :=
  if lastNonBlank body = some '&' then (body.rdropWhile isBlank).dropLast else body

theorem lastNonBlank_eq (body : List Char) : lastNonBlank body = (body.rdropWhile isBlank).getLast? := by
  rw [lastNonBlank]
  induction body using List.reverseRecOn with
  | nil => rfl
  | append_singleton s c ih =>
    rw [List.filter_append]
    by_cases hc : isBlank c
    · rw [List.rdropWhile_concat_pos _ _ _ hc, List.filter_cons_of_neg (by simpa using hc)]
      simpa using ih
    · rw [List.rdropWhile_concat_neg _ _ _ hc, List.filter_cons_of_pos (by simpa using hc)]
      simp

theorem words_rdropWhile (s : List Char) : words (s.rdropWhile isBlank) = words s := by
  induction s using List.reverseRecOn with
  | nil => rfl
  | append_singleton s c ih =>
    by_cases hc : isBlank c
    · rw [List.rdropWhile_concat_pos _ _ _ hc, ih, words, words, List.splitOnP_append_cons s [] hc]
      simp
    · rw [List.rdropWhile_concat_neg _ _ _ hc]

theorem rdropWhile_append {p : Char → Bool} {s t : List Char} (hs : ∀ c ∈ s, p c = false)
    (ht : ∀ c ∈ t, p c = true) :
    (s ++ t).rdropWhile p = s := by
  induction t using List.reverseRecOn with
  | nil =>
    rw [List.append_nil, List.rdropWhile_eq_self_iff]
    intro hne
    simpa using hs _ (List.getLast_mem hne)
  | append_singleton t c ih =>
    rw [← List.append_assoc, List.rdropWhile_concat_pos _ _ _ (ht c (by simp))]
    exact ih fun d hd => ht d (by simp [hd])

theorem mem_of_mem_rdropWhile {p : Char → Bool} {s : List Char} {c : Char} (h : c ∈ s.rdropWhile p) : c ∈ s :=
  (List.rdropWhile_prefix p s).subset h

/-- A line that begins with no blank is split at its end into the `&` and what stands before it. -/
theorem trimAmp {lead cmd rest : List Char} (h0 : '\x00' ∉ cmd) (hhead : ∀ c ∈ cmd.head?, isBlank c = false)
    (hlast : cmd.getLast? = some '&') :
    ∃ buf mid, poke (holding lead cmd rest) (lead.length + cmd.length - 1) '\x00' = some buf ∧
      trimTail buf lead.length = some (holding lead (cmd.dropLast.rdropWhile isBlank) (mid ++ rest)) ∧
        (cmd.dropLast.rdropWhile isBlank).length + mid.length = cmd.length ∧
        ∀ c ∈ (cmd.dropLast.rdropWhile isBlank).head?, isBlank c = false := by
  obtain ⟨s, rfl⟩ : ∃ s, cmd = s ++ ['&'] := by
    obtain ⟨s, hs⟩ := List.getLast?_eq_some_iff.mp hlast
    exact ⟨s, hs⟩
  have hs0 : '\x00' ∉ s := fun hmem => h0 (List.mem_append_left _ hmem)
  have hplace : lead.length + (s ++ ['&']).length - 1 = lead.length + s.length := by simp
  obtain ⟨mid, hrun, hlength⟩ := trimLoop_holding isBlank lead s ('\x00' :: rest)
  refine ⟨holding lead s ('\x00' :: rest), mid ++ ['\x00'], ?_, ?_, ?_, ?_⟩
  · rw [hplace]
    exact poke_holding lead s '&' [] rest
  · rw [trimTail, strlen_holding hs0, hrun, List.dropLast_concat, List.append_assoc]
    rfl
  · rw [List.dropLast_concat, List.length_append, ← add_assoc, hlength]
    simp
  · intro c hc
    rw [List.dropLast_concat] at hc
    obtain ⟨t, ht⟩ := List.rdropWhile_prefix isBlank s
    refine hhead c ?_
    rw [← ht, List.append_assoc, List.head?_append, Option.mem_def.mp hc]
    rfl

/-- What `parse_line` makes of a line: the words before a final `&`, whose pointers it leaves in `argv` with
a null behind them, unless the line is blank. -/
structure Parses (body : List Char) (size : ℕ) (rest : List Char) (argv : List (Option ℕ)) (r : Parsed)
    (ptrs : List ℕ) : Prop where
  bg : r.bg = decide (lastNonBlank body = some '&')
  count : r.argc = ptrs.length
  spells : List.Forall₂ (Spells r.line) ptrs ((words (command body)).take (maxArgs - 1))
  entries : r.argv.take r.argc = ptrs.map some
  ended : lastNonBlank body ≠ none → r.argv[r.argc]? = some none
  blank : lastNonBlank body = none → r.argv = argv
  ret : r.ret = decide (0 < r.argc)
  argv_length : r.argv.length = argv.length
  line : ∃ text, text.length = size ∧ r.line = text ++ rest

/-- The two trimmings drop the newlines and then the blanks at the end of the line. -/
theorem trims {body tail : List Char} (rest : List Char) (hbody : ∀ c ∈ body, c ≠ '\x00' ∧ isNewline c = false)
    (htail : ∀ c ∈ tail, isNewline c = true) :
    ∃ buf mid, trimNewline (body ++ tail ++ '\x00' :: rest) 0 = some buf ∧
      trimTail buf 0 = some (holding [] (body.rdropWhile isBlank) (mid ++ rest)) ∧
        (body.rdropWhile isBlank).length + mid.length = (body ++ tail).length := by
  have h0tail : ∀ c ∈ tail, c ≠ '\x00' := by
    rintro c hc rfl
    exact absurd (htail _ hc) (by decide)
  have h0body : '\x00' ∉ body := fun hmem => (hbody _ hmem).1 rfl
  have h0line : '\x00' ∉ body ++ tail := by
    intro hmem
    rcases List.mem_append.mp hmem with hmem | hmem
    · exact h0body hmem
    · exact h0tail _ hmem rfl
  obtain ⟨mid₁, hrun₁, hlen₁⟩ := trimLoop_holding isNewline [] (body ++ tail) rest
  rw [rdropWhile_append (fun c hc => (hbody c hc).2) htail] at hrun₁ hlen₁
  obtain ⟨mid₂, hrun₂, hlen₂⟩ := trimLoop_holding isBlank [] body (mid₁ ++ rest)
  refine ⟨holding [] body (mid₁ ++ rest), mid₂ ++ mid₁, ?_, ?_, ?_⟩
  · rw [trimNewline, ← hrun₁]
    congr 1
    exact @strlen_holding [] _ h0line rest
  · rw [trimTail, List.append_assoc, ← hrun₂]
    congr 1
    exact @strlen_holding [] _ h0body _
  · rw [List.length_append, ← add_assoc, hlen₂, hlen₁]

/-- A blank line has no word. -/
theorem parses_blank {body lead mid rest : List Char} {argv : List (Option ℕ)}
    (hsplit : body.rdropWhile isBlank = lead ++ []) (hlead : ∀ c ∈ lead, isBlank c = true) {size : ℕ}
    (hsize : (body.rdropWhile isBlank).length + mid.length + 1 = size) :
    Parses body size rest argv
      { line := holding lead [] (mid ++ rest), argv := argv, argc := 0, bg := false, ret := false } [] := by
  have hnil : lead = [] := by
    by_contra hne
    have hdrop : body.rdropWhile isBlank ≠ [] := by simpa [hsplit] using hne
    refine List.rdropWhile_last_not isBlank body hdrop (hlead _ ?_)
    simp [hsplit]
  subst hnil
  have hnone : lastNonBlank body = none := by
    rw [lastNonBlank_eq, hsplit]
    rfl
  have hwords : words (command body) = [] := by
    rw [command, hnone, if_neg (by simp), ← words_rdropWhile, hsplit]
    rfl
  refine ⟨?_, rfl, ?_, rfl, fun h => absurd hnone h, fun _ => rfl, rfl, rfl, ?_⟩
  · rw [hnone]
    rfl
  · rw [hwords, List.take_nil]
    exact List.Forall₂.nil
  · rw [hsplit] at hsize
    refine ⟨'\x00' :: mid, ?_, by simp [holding]⟩
    simp only [List.length_cons, List.length_append, List.length_nil, zero_add] at *
    omega

/-- The loop over the words of `t`, and the null behind them. -/
theorem parses_loop {body lead t mid rest : List Char} {argv : List (Option ℕ)} {size : ℕ}
    (hwords : words t = words (command body)) (h0 : '\x00' ∉ t) (hhead : ∀ c ∈ t.head?, isBlank c = false)
    (hargv : argv.length = maxArgs) (hsome : lastNonBlank body ≠ none)
    (hsize : lead.length + t.length + mid.length + 1 = size) :
    ∃ r ptrs, (do
        let s ← tokenLoop (holding lead t (mid ++ rest)) argv 0 lead.length
        let argv ← setArg s.argv s.argc none
        some
          { line := s.line, argv := argv, argc := s.argc,
            bg := decide (lastNonBlank body = some '&'), ret := decide (0 < s.argc) : Parsed }) = some r ∧
      Parses body size rest argv r ptrs := by
  obtain ⟨s, ptrs, hrun, htok⟩ :=
    @tokenLoop_tokenised lead t (mid ++ rest) argv 0 h0 hhead hargv (Nat.zero_le _)
  have hcount : s.argc = ptrs.length := htok.count.trans (Nat.zero_add _)
  have hfew : ptrs.length ≤ maxArgs - 1 := by
    have hspells := htok.spells.length_eq
    rw [List.length_take] at hspells
    omega
  have hmax : maxArgs = 16 := rfl
  have hargs : s.argv.length = argv.length := by
    rw [htok.entries]
    simp only [List.length_append, List.length_take, List.length_map, List.length_drop]
    omega
  have hset : setArg s.argv s.argc none = some (s.argv.set s.argc none) := if_pos (by omega)
  rw [hrun]
  simp only [Option.bind_eq_bind, Option.bind_some]
  rw [hset, Option.bind_some]
  refine ⟨_, ptrs, rfl, rfl, hcount, ?_, ?_, fun _ => ?_, fun hnone => absurd hnone hsome, rfl, ?_, ?_⟩
  · rw [← hwords]
    exact htok.spells
  · rw [List.take_set_of_le le_rfl, htok.entries, hcount, List.take_zero, List.nil_append]
    rw [List.take_append_of_le_length (by simp), List.take_of_length_le (by simp)]
  · exact List.getElem?_set_self (by omega)
  · rw [List.length_set, hargs]
  · obtain ⟨t', ht', hline⟩ := htok.text
    refine ⟨lead ++ (t' ++ '\x00' :: mid), ?_, ?_⟩
    · simp only [List.length_append, List.length_cons]
      omega
    · rw [hline]
      simp [holding]

theorem parseLine_parses {body tail : List Char} (rest : List Char) {argv : List (Option ℕ)}
    (hbody : ∀ c ∈ body, c ≠ '\x00' ∧ isNewline c = false) (htail : ∀ c ∈ tail, isNewline c = true)
    (hargv : argv.length = maxArgs) :
    ∃ r ptrs, parseLine (body ++ tail ++ '\x00' :: rest) argv = some r ∧
      Parses body ((body ++ tail).length + 1) rest argv r ptrs := by
  have h0body : '\x00' ∉ body := fun hmem => (hbody _ hmem).1 rfl
  obtain ⟨buf, mid, hnewline, htrim, hlength⟩ := trims rest hbody htail
  -- the blanks before the command
  obtain ⟨lead, cmd, hsplit, hlead, hcmd⟩ := split_blanks (body.rdropWhile isBlank)
  have hspaces := skipSpaces_holding [] hlead hcmd (mid ++ rest)
  rw [← hsplit, List.length_nil, zero_add] at hspaces
  rw [parseLine, hnewline]
  simp only [Option.bind_eq_bind, Option.bind_some]
  rw [htrim, Option.bind_some, hspaces, Option.bind_some, hsplit, holding_append, List.nil_append]
  cases cmd with
  | nil =>
    have hend : (holding lead [] (mid ++ rest))[lead.length]? = some '\x00' := holding_end lead [] _
    rw [hend, Option.bind_some, if_pos rfl]
    exact ⟨_, [], rfl, parses_blank hsplit hlead (by rw [hlength])⟩
  | cons c cmd =>
    have h0cmd : '\x00' ∉ c :: cmd := fun hmem =>
      h0body (mem_of_mem_rdropWhile (hsplit ▸ List.mem_append_right lead hmem))
    have hc : c ≠ '\x00' := fun he => h0cmd (he ▸ List.mem_cons_self)
    have hlast : lastNonBlank body = (c :: cmd).getLast? := by
      rw [lastNonBlank_eq, hsplit, List.getLast?_append_of_ne_nil _ (List.cons_ne_nil c cmd)]
    have hread : (holding lead (c :: cmd) (mid ++ rest))[lead.length + (c :: cmd).length - 1]? =
        (c :: cmd).getLast? := by
      have hplace : lead.length + (c :: cmd).length - 1 = lead.length + cmd.length := by simp
      rw [hplace, holding_get lead _ (by simp), List.getLast?_eq_getElem?, List.getElem?_eq_getElem (by simp)]
      simp
    rw [holding_head, Option.bind_some, if_neg hc, strlen_holding h0cmd, hread, ← hlast]
    obtain ⟨last, hsome⟩ : ∃ last, lastNonBlank body = some last :=
      ⟨_, hlast.trans (List.getLast?_eq_some_getLast (List.cons_ne_nil c cmd))⟩
    have hbg : decide (0 < (c :: cmd).length ∧ last = '&') = decide (lastNonBlank body = some '&') := by
      rw [hsome]
      simp
    have hne : lastNonBlank body ≠ none := by simp [hsome]
    rw [hsome, Option.bind_some]
    simp only [hbg]
    rw [hsplit, List.length_append] at hlength
    by_cases hamp : lastNonBlank body = some '&'
    · obtain ⟨buf', mid', hpoke, htail', hlength', hhead⟩ :=
        @trimAmp lead (c :: cmd) (mid ++ rest) h0cmd hcmd (hlast.symm.trans hamp)
      rw [if_pos (decide_eq_true hamp), hpoke, Option.bind_some, htail', Option.bind_some, ← List.append_assoc]
      refine parses_loop ?_ (fun hmem => ?_) hhead hargv hne ?_
      · rw [words_rdropWhile, command, if_pos hamp, hsplit,
          List.dropLast_append_of_ne_nil (List.cons_ne_nil c cmd)]
        rw [words_blanks hlead]
      · exact h0cmd (List.dropLast_subset _ (mem_of_mem_rdropWhile hmem))
      · rw [List.length_append]
        omega
    · rw [if_neg (by simpa using hamp)]
      refine parses_loop ?_ h0cmd hcmd hargv hne (by omega)
      rw [command, if_neg hamp, ← words_rdropWhile body, hsplit, words_blanks hlead]

theorem parseLine_parses_background : ∃ r ptrs,
    parseLine (['l', 's', ' ', '&'] ++ ['\n'] ++ '\x00' :: []) (List.replicate maxArgs none) = some r ∧
      Parses ['l', 's', ' ', '&'] 6 [] (List.replicate maxArgs none) r ptrs :=
  parseLine_parses [] (by simp [isNewline]) (by simp [isNewline]) rfl

/-- A blank line leaves `argv` as it was. -/
theorem not_ended_blank : ¬ ∀ (body tail rest : List Char) (argv : List (Option ℕ)) (r : Parsed),
    (∀ c ∈ body, c ≠ '\x00' ∧ isNewline c = false) → (∀ c ∈ tail, isNewline c = true) → argv.length = maxArgs →
      (body ++ tail).length < 128 → parseLine (body ++ tail ++ '\x00' :: rest) argv = some r →
        r.argv[r.argc]? = some none := by
  intro h
  have hrun : parseLine ([] ++ ['\n'] ++ '\x00' :: []) (List.replicate maxArgs (some 0)) =
      some { line := ['\x00', '\x00'], argv := List.replicate maxArgs (some 0), argc := 0, bg := false,
             ret := false } := by decide +kernel
  exact absurd (h [] ['\n'] [] _ _ (by simp) (by simp [isNewline]) rfl (by decide) hrun) (by decide)

end SysuOs.Shell
