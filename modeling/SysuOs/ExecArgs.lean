import SysuOs.CString

/-! The arguments of `execve`, from the pointers of the caller to the stack of the new program: they are
copied into rows of the page `argv` of the process, and from there pushed to the first page of the new stack. -/

namespace SysuOs.ExecArgs

def MAX_ARGC_COUNT : Nat := 16
def MAX_ARGV_LENGTH : Nat := 128
def STACK_TOP : Nat := 0xbfff0000

/-- The bytes from a pointer on. -/
abbrev Str := Nat → Byte

/-- The part of the `PCB` that holds the arguments; `argv` may be a null pointer. -/
structure Process where
  argc : Nat
  argv : Option ByteMap

/-! ### Strings -/

def strcpyLoop (dest : Nat) (src : Str) : Nat → Nat → ByteMap → Outcome ByteMap
  | 0, _, _ => .diverge
  | fuel + 1, k, m =>
      let m := Function.update m (dest + k) (src k)
      if src k = 0#8 then .ret m else strcpyLoop dest src fuel (k + 1) m

def strcpy (fuel : Nat) (m : ByteMap) (dest : Nat) (src : Str) : Outcome ByteMap :=
  strcpyLoop dest src fuel 0 m

/-- The loop of `exec_arg_strlen`, with `left` characters left. -/
def execArgStrlenLoop (str : Str) : Nat → Nat → Option Nat
  | 0, _ => none
  | left + 1, len => if str len = 0#8 then some len else execArgStrlenLoop str left (len + 1)

/-- `exec_arg_strlen`; `none` is -1. -/
def execArgStrlen : Option Str → Option Nat
  | none => none
  | some str => execArgStrlenLoop str MAX_ARGV_LENGTH 0

/-! ### Into the process -/

/-- The loop of `copy_exec_args` from argument `i` on, with `left` arguments left; `i` is `process->argc`
too. -/
def copyLoop (fuel : Nat) (argv : Nat → Option Str) :
    Nat → Nat → ByteMap → Outcome (Bool × Nat × ByteMap)
  | 0, i, page => .ret (true, i, page)
  | left + 1, i, page =>
      match argv i with
      | none => .ret (true, i, page)
      | some str =>
          match execArgStrlen (some str) with
          | none => .ret (false, i, page)
          | some _ => do
              let page ← strcpy fuel page (i * MAX_ARGV_LENGTH) str
              copyLoop fuel argv left (i + 1) page

/-- `copy_exec_args`. -/
def copyExecArgs (fuel : Nat) (process : Process) (filename : Option Str)
    (argv : Option (Nat → Option Str)) : Outcome (Bool × Process) :=
  match process.argv with
  | none => .ret (false, process)
  | some _ =>
      -- `argv && argv[0]`
      match argv.filter fun argv => (argv 0).isSome with
      | some argv => do
          let (ok, argc, page) ← copyLoop fuel argv MAX_ARGC_COUNT 0 fun _ => 0#8
          return (ok && !(argc == MAX_ARGC_COUNT && (argv MAX_ARGC_COUNT).isSome), ⟨argc, some page⟩)
      | none =>
          match execArgStrlen filename with
          | none => .ret (false, ⟨0, some fun _ => 0#8⟩)
          | some _ => do
              let page ← strcpy fuel (fun _ => 0#8) 0 (filename.getD fun _ => 0#8)
              return (true, ⟨1, some page⟩)

/-! ### Onto the stack -/

/-- `*(uint32*)a = w`. -/
def putWord (m : ByteMap) (a : Nat) (w : BitVec 32) : ByteMap := fun b =>
  if a ≤ b ∧ b < a + 4 then w.extractLsb' (8 * (b - a)) 8 else m b

/-- `*(uint32*)a`. -/
def getWord (m : ByteMap) (a : Nat) : BitVec 32 := (m (a + 3) ++ m (a + 2)) ++ (m (a + 1) ++ m a)

/-- `process->argv[i]`. -/
def row (page : ByteMap) (i : Nat) : Str := fun j => page (i * MAX_ARGV_LENGTH + j)

/-- The loop that pushes the strings, the last one first: the stack pointer, the memory and `argv_user`. -/
def pushStrings (fuel : Nat) (page : ByteMap) :
    Nat → Nat → ByteMap → (Nat → Nat) → Outcome (Nat × ByteMap × (Nat → Nat))
  | 0, sp, m, argvUser => .ret (sp, m, argvUser)
  | i + 1, sp, m, argvUser => do
      let len ← strlen (row page i) fuel 0
      let sp := sp - (len + 1)
      let m ← strcpy fuel m sp (row page i)
      pushStrings fuel page i sp m (Function.update argvUser i sp)

/-- The loop that pushes the pointers. -/
def pushPointers (argvUser : Nat → Nat) : Nat → Nat → ByteMap → Nat × ByteMap
  | 0, sp, m => (sp, m)
  | i + 1, sp, m => pushPointers argvUser i (sp - 4) (putWord m (sp - 4) (BitVec.ofNat 32 (argvUser i)))

/-- `push_exec_args_to_user_stack`. A process whose `argv` is null has no arguments. -/
def pushExecArgs (fuel : Nat) (kExit : BitVec 32) (process : Process) (m : ByteMap) :
    Outcome (Nat × ByteMap) := do
  let argc := if process.argc > MAX_ARGC_COUNT then MAX_ARGC_COUNT else process.argc
  let (sp, m, argvUser) ← pushStrings fuel (process.argv.getD fun _ => 0#8) argc (STACK_TOP - 4) m fun _ => 0
  let sp := sp / 4 * 4
  let sp := sp - 4
  let m := putWord m sp 0#32
  let (sp, m) := pushPointers argvUser argc sp m
  let argvPtr := sp
  let sp := sp - 4
  let m := putWord m sp (BitVec.ofNat 32 argvPtr)
  let sp := sp - 4
  let m := putWord m sp (BitVec.ofNat 32 argc)
  let sp := sp - 4
  let m := putWord m sp kExit
  return (sp, m)

/-! ### What strings and words are -/

section Bytes

variable {m : ByteMap} {str str' : Str} {a b len dest fuel k : Nat} {w : BitVec 32}

/-- The memory with `n` bytes of a string at `dest`. -/
def copied (m : ByteMap) (dest : Nat) (str : Str) (n : Nat) : ByteMap := fun a =>
  if dest ≤ a ∧ a < dest + n then str (a - dest) else m a

theorem strcpyLoop_spec (h : CStr str len) (hk : k ≤ len) (hfuel : len < k + fuel) :
    strcpyLoop dest str fuel k (copied m dest str k) = .ret (copied m dest str (len + 1)) := by
  induction fuel generalizing k with
  | zero => omega
  | succ fuel ih =>
      have hnext : Function.update (copied m dest str k) (dest + k) (str k) = copied m dest str (k + 1) := by
        funext a
        by_cases ha : a = dest + k
        · rw [ha, Function.update_self, copied, if_pos (by omega), Nat.add_sub_cancel_left]
        · rw [Function.update_of_ne ha, copied, copied]
          exact if_congr (by omega) rfl rfl
      rw [strcpyLoop, hnext]
      rcases Nat.eq_or_lt_of_le hk with rfl | hlt
      · rw [if_pos h.stop]
      · rw [if_neg (h.chars k hlt)]
        exact ih hlt (by omega)

theorem strcpy_spec (h : CStr str len) (hfuel : len < fuel) (m : ByteMap) (dest : Nat) :
    strcpy fuel m dest str = .ret (copied m dest str (len + 1)) := by
  have hnone : copied m dest str 0 = m := by
    funext a
    rw [copied, if_neg (by omega)]
  have hloop : strcpyLoop dest str fuel 0 (copied m dest str 0) = .ret (copied m dest str (len + 1)) :=
    strcpyLoop_spec h (Nat.zero_le len) (by omega)
  rw [hnone] at hloop
  exact hloop

/-- A string that `exec_arg_strlen` accepts ends before `MAX_ARGV_LENGTH`. -/
theorem execArgStrlen_spec (h : execArgStrlen (some str) = some len) : CStr str len ∧ len < MAX_ARGV_LENGTH := by
  have hloop : ∀ left k, (∀ j, j < k → str j ≠ 0#8) → execArgStrlenLoop str left k = some len →
      CStr str len ∧ len < k + left := by
    intro left
    induction left with
    | zero => intro k _ hnone; cases hnone
    | succ left ih =>
        intro k hchars hsome
        rw [execArgStrlenLoop] at hsome
        by_cases hstop : str k = 0#8
        · rw [if_pos hstop] at hsome
          obtain rfl := Option.some.inj hsome
          exact ⟨⟨hchars, hstop⟩, by omega⟩
        · rw [if_neg hstop] at hsome
          obtain ⟨hstr, hlt⟩ := ih (k + 1) (fun j hj => by
            rcases Nat.eq_or_lt_of_le (Nat.le_of_lt_succ hj) with rfl | hlt
            · exact hstop
            · exact hchars j hlt) hsome
          exact ⟨hstr, by omega⟩
  obtain ⟨hstr, hlt⟩ := hloop _ 0 (fun j hj => absurd hj (by omega)) h
  exact ⟨hstr, by omega⟩

theorem extractLsb'_append (w : BitVec 32) :
    (w.extractLsb' 24 8 ++ w.extractLsb' 16 8) ++ (w.extractLsb' 8 8 ++ w.extractLsb' 0 8) = w := by
  apply BitVec.eq_of_getLsbD_eq
  intro i hi
  simp only [BitVec.getLsbD_append, BitVec.getLsbD_extractLsb']
  split_ifs <;>
  · rw [decide_eq_true (by omega), Bool.true_and]
    congr 1
    omega

theorem putWord_of_outside (h : b < a ∨ a + 4 ≤ b) : putWord m a w b = m b := if_neg (by omega)

theorem getWord_putWord : getWord (putWord m a w) a = w := by
  have hbyte : ∀ k, k < 4 → putWord m a w (a + k) = w.extractLsb' (8 * k) 8 := by
    intro k hk
    rw [putWord, if_pos (by omega), Nat.add_sub_cancel_left]
  have hfirst : putWord m a w a = w.extractLsb' (8 * 0) 8 := hbyte 0 (by decide)
  rw [getWord, hbyte 3 (by decide), hbyte 2 (by decide), hbyte 1 (by decide), hfirst]
  exact extractLsb'_append w

/-- A word depends on its four bytes. -/
theorem getWord_congr {m' : ByteMap} (h : ∀ b, a ≤ b → b < a + 4 → m' b = m b) :
    getWord m' a = getWord m a := by
  rw [getWord, getWord, h (a + 3) (by omega) (by omega), h (a + 2) (by omega) (by omega),
    h (a + 1) (by omega) (by omega), h a (le_refl a) (by omega)]

end Bytes

/-! ### What the process holds -/

/-- The strings that the caller of `execve` passes: those of `argv`, or the name of the file. -/
def Given (filename : Option Str) (argv : Option (Nat → Option Str)) (strs : List Str) : Prop :=
  match argv.filter fun argv => (argv 0).isSome with
  | some argv => ∀ i, i ≤ strs.length → argv i = strs[i]?
  | none => ∃ str, filename = some str ∧ strs = [str]

/-- Row `i` of the page holds a string. -/
def Holds (page : ByteMap) (i : Nat) (str : Str) : Prop :=
  ∃ len, CStr str len ∧ len < MAX_ARGV_LENGTH ∧ ∀ j, j ≤ len → row page i j = str j

section Copy

variable {page page' : ByteMap} {fuel left i n : Nat} {str : Str} {argv : Nat → Option Str}

theorem Holds.copied (hstr : CStr str n) (hn : n < MAX_ARGV_LENGTH) :
    Holds (copied page (i * MAX_ARGV_LENGTH) str (n + 1)) i str := by
  refine ⟨n, hstr, hn, fun j hj => ?_⟩
  rw [row, ExecArgs.copied, if_pos (by omega), Nat.add_sub_cancel_left]

/-- A row stays as it is when a later one is written. -/
theorem Holds.later {k : Nat} (h : Holds page k str) (hk : k < i) (str' : Str) (n : Nat) :
    Holds (ExecArgs.copied page (i * MAX_ARGV_LENGTH) str' n) k str := by
  obtain ⟨len, hstr, hlen, hrow⟩ := h
  refine ⟨len, hstr, hlen, fun j hj => ?_⟩
  rw [← hrow j hj, row, row, ExecArgs.copied, if_neg]
  have hmul : k * MAX_ARGV_LENGTH + MAX_ARGV_LENGTH ≤ i * MAX_ARGV_LENGTH := by
    rw [← Nat.succ_mul]
    exact Nat.mul_le_mul_right _ hk
  omega

/-- The loop copies the arguments up to the first null pointer, or as many as there is room for. -/
theorem copyLoop_spec (hfuel : MAX_ARGV_LENGTH ≤ fuel) {strs : List Str} (hi : strs.length = i)
    (hstrs : ∀ k, k < i → argv k = strs[k]?) (hheld : ∀ k str, strs[k]? = some str → Holds page k str)
    (hcopy : copyLoop fuel argv left i page = .ret (true, n, page')) :
    ∃ strs' : List Str, strs'.length = n ∧ n ≤ i + left ∧ (∀ k, k < n → argv k = strs'[k]?) ∧
      (n < i + left → argv n = none) ∧ ∀ k str, strs'[k]? = some str → Holds page' k str := by
  induction left generalizing i page strs with
  | zero =>
      obtain ⟨-, hret⟩ := Prod.mk.inj (Outcome.ret.inj hcopy)
      obtain ⟨rfl, rfl⟩ := Prod.mk.inj hret
      exact ⟨strs, hi, le_refl _, hstrs, fun hlt => absurd hlt (lt_irrefl _), hheld⟩
  | succ left ih =>
      rw [copyLoop] at hcopy
      cases hargv : argv i with
      | none =>
          rw [hargv] at hcopy
          obtain ⟨-, hret⟩ := Prod.mk.inj (Outcome.ret.inj hcopy)
          obtain ⟨rfl, rfl⟩ := Prod.mk.inj hret
          exact ⟨strs, hi, Nat.le_add_right _ _, hstrs, fun _ => hargv, hheld⟩
      | some str =>
          rw [hargv] at hcopy
          dsimp only at hcopy
          cases hlen : execArgStrlen (some str) with
          | none =>
              rw [hlen] at hcopy
              cases Outcome.ret.inj hcopy
          | some len =>
              obtain ⟨hstr, hlt⟩ := execArgStrlen_spec hlen
              rw [hlen] at hcopy
              dsimp only at hcopy
              rw [strcpy_spec hstr (lt_of_lt_of_le hlt hfuel), Outcome.ret_bind] at hcopy
              have hstrs' : ∀ k, k < i + 1 → argv k = (strs ++ [str])[k]? := by
                intro k hk
                rcases Nat.eq_or_lt_of_le (Nat.le_of_lt_succ hk) with rfl | hk
                · rw [hargv, ← hi, List.getElem?_concat_length]
                · rw [List.getElem?_append_left (hi ▸ hk), hstrs k hk]
              have hheld' : ∀ k s, (strs ++ [str])[k]? = some s →
                  Holds (ExecArgs.copied page (i * MAX_ARGV_LENGTH) str (len + 1)) k s := by
                intro k s hk
                by_cases hki : k < i
                · rw [List.getElem?_append_left (hi ▸ hki)] at hk
                  exact (hheld k s hk).later hki str (len + 1)
                · obtain rfl : k = i := by
                    have hle := (List.getElem?_eq_some_iff.mp hk).1
                    rw [List.length_append, hi, List.length_singleton] at hle
                    omega
                  rw [← hi, List.getElem?_concat_length] at hk
                  obtain rfl := Option.some.inj hk
                  exact Holds.copied hstr hlt
              have hres := ih (by rw [List.length_append, hi, List.length_singleton]) hstrs' hheld' hcopy
              rwa [Nat.add_right_comm, Nat.add_assoc] at hres

/-- When `copy_exec_args` accepts its arguments, the page of the process holds them, at most 16. -/
theorem copyExecArgs_spec {process process' : Process} {filename : Option Str} {argv : Option (Nat → Option Str)}
    (hfuel : MAX_ARGV_LENGTH ≤ fuel) (hcopy : copyExecArgs fuel process filename argv = .ret (true, process')) :
    ∃ strs page, Given filename argv strs ∧ strs.length = process'.argc ∧ strs.length ≤ MAX_ARGC_COUNT ∧
      process'.argv = some page ∧ ∀ k str, strs[k]? = some str → Holds page k str := by
  rw [copyExecArgs] at hcopy
  cases hpage : process.argv with
  | none =>
      rw [hpage] at hcopy
      cases Outcome.ret.inj hcopy
  | some page₀ =>
      rw [hpage] at hcopy
      dsimp only at hcopy
      cases hargv : argv.filter fun argv => (argv 0).isSome with
      | some vector =>
          rw [hargv] at hcopy
          obtain ⟨⟨ok, n, page⟩, hloop, hret⟩ := Outcome.bind_eq_ret hcopy
          obtain ⟨hok, rfl⟩ := Prod.mk.inj (Outcome.ret.inj hret)
          rw [Bool.and_eq_true, Bool.not_eq_true', Bool.and_eq_false_iff, beq_eq_false_iff_ne] at hok
          obtain ⟨rfl, hend⟩ := hok
          have hnone : ∀ k str, ([] : List Str)[k]? = some str → Holds (fun _ => 0#8) k str := fun k str hk => by
            rw [List.getElem?_nil] at hk
            cases hk
          obtain ⟨strs, hlength, hn, hstrs, hstop, hheld⟩ :=
            copyLoop_spec hfuel (rfl : ([] : List Str).length = 0) (fun k hk => absurd hk (Nat.not_lt_zero k)) hnone
              hloop
          have hn : n ≤ MAX_ARGC_COUNT := (Nat.zero_add MAX_ARGC_COUNT) ▸ hn
          have hstop : n < MAX_ARGC_COUNT → vector n = none := (Nat.zero_add MAX_ARGC_COUNT) ▸ hstop
          refine ⟨strs, page, ?_, hlength, hlength ▸ hn, rfl, hheld⟩
          rw [Given, hargv]
          intro k hk
          rw [hlength] at hk
          rcases Nat.eq_or_lt_of_le hk with rfl | hlt
          · rw [List.getElem?_eq_none (le_of_eq hlength)]
            rcases hend with hne | hsome
            · exact hstop (lt_of_le_of_ne hn hne)
            · rcases Nat.eq_or_lt_of_le hn with rfl | hlt
              · exact Option.not_isSome_iff_eq_none.mp (by rw [hsome]; exact Bool.false_ne_true)
              · exact hstop hlt
          · exact hstrs k hlt
      | none =>
          rw [hargv] at hcopy
          dsimp only at hcopy
          cases hlen : execArgStrlen filename with
          | none =>
              rw [hlen] at hcopy
              cases Outcome.ret.inj hcopy
          | some len =>
              rw [hlen] at hcopy
              dsimp only at hcopy
              cases filename with
              | none => cases hlen
              | some str =>
                  obtain ⟨hstr, hlt⟩ := execArgStrlen_spec hlen
                  rw [Option.getD_some, strcpy_spec hstr (lt_of_lt_of_le hlt hfuel), Outcome.ret_bind] at hcopy
                  obtain ⟨-, rfl⟩ := Prod.mk.inj (Outcome.ret.inj hcopy)
                  refine ⟨[str], _, ?_, rfl, (by decide : 1 ≤ MAX_ARGC_COUNT), rfl, fun k s hk => ?_⟩
                  · rw [Given, hargv]
                    exact ⟨str, rfl, rfl⟩
                  · have hzero : k = 0 := by
                      have hle := (List.getElem?_eq_some_iff.mp hk).1
                      rw [List.length_singleton] at hle
                      omega
                    subst hzero
                    obtain rfl := Option.some.inj hk
                    have hheld : Holds (ExecArgs.copied (fun _ => 0#8) (0 * MAX_ARGV_LENGTH) str (len + 1)) 0 str :=
                      Holds.copied hstr hlt
                    rwa [Nat.zero_mul] at hheld

end Copy

/-! ### What the stack holds -/

/-- The strings of `n` rows lie in the memory from `sp` up to `top`, in order and apart, each at its pointer;
nothing else is written. -/
structure Packed (page : ByteMap) (len : Nat → Nat) (n top : Nat) (m : ByteMap) (sp : Nat) (m' : ByteMap)
    (argvUser : Nat → Nat) : Prop where
  room : top ≤ sp + n * MAX_ARGV_LENGTH
  order : ∀ i j, i < j → j < n → argvUser i + len i + 1 ≤ argvUser j
  below : ∀ i, i < n → sp ≤ argvUser i ∧ argvUser i + len i + 1 ≤ top
  bytes : ∀ i, i < n → ∀ j, j ≤ len i → m' (argvUser i + j) = row page i j
  frame : ∀ a, a < sp ∨ top ≤ a → m' a = m a
  le : sp ≤ top

section Push

variable {page m : ByteMap} {len argvUser : Nat → Nat} {fuel n top : Nat}

theorem pushStrings_spec (hfuel : MAX_ARGV_LENGTH ≤ fuel)
    (hrows : ∀ i, i < n → CStr (row page i) (len i) ∧ len i < MAX_ARGV_LENGTH)
    (htop : n * MAX_ARGV_LENGTH ≤ top) :
    ∃ sp m' argvUser', pushStrings fuel page n top m argvUser = .ret (sp, m', argvUser') ∧
      Packed page len n top m sp m' argvUser' ∧ ∀ i, n ≤ i → argvUser' i = argvUser i := by
  induction n generalizing top m argvUser with
  | zero =>
      exact ⟨top, m, argvUser, rfl, ⟨by omega, fun i j _ hj => absurd hj (by omega),
        fun i hi => absurd hi (by omega), fun i hi => absurd hi (by omega), fun _ _ => rfl, le_refl top⟩,
        fun _ _ => rfl⟩
  | succ n ih =>
      obtain ⟨hstr, hlt⟩ := hrows n (Nat.lt_succ_self n)
      rw [Nat.succ_mul] at htop
      obtain ⟨sp, m', argvUser', hpush, hpacked, hkeep⟩ :=
        @ih (copied m (top - (len n + 1)) (row page n) (len n + 1))
          (Function.update argvUser n (top - (len n + 1))) (top - (len n + 1))
          (fun i hi => hrows i (Nat.lt_succ_of_lt hi)) (by omega)
      have hlast : argvUser' n = top - (len n + 1) := (hkeep n (le_refl n)).trans (Function.update_self _ _ _)
      refine ⟨sp, m', argvUser', ?_, ?_, fun i hi => ?_⟩
      · rw [pushStrings, strlen_spec hstr (Nat.zero_le _) (by omega), Outcome.ret_bind]
        dsimp only
        rw [strcpy_spec hstr (lt_of_lt_of_le hlt hfuel), Outcome.ret_bind]
        exact hpush
      · have hbelow := hpacked.le
        have hroom := hpacked.room
        refine ⟨by rw [Nat.succ_mul]; omega, fun i j hij hj => ?_, fun i hi => ?_, fun i hi j hj => ?_,
          fun a ha => ?_, by omega⟩
        · rcases Nat.eq_or_lt_of_le (Nat.le_of_lt_succ hj) with rfl | hlt
          · rw [hlast]
            exact (hpacked.below i hij).2
          · exact hpacked.order i j hij hlt
        · rcases Nat.eq_or_lt_of_le (Nat.le_of_lt_succ hi) with rfl | hlt
          · rw [hlast]
            omega
          · obtain ⟨hlow, hhigh⟩ := hpacked.below i hlt
            omega
        · rcases Nat.eq_or_lt_of_le (Nat.le_of_lt_succ hi) with rfl | hlt
          · rw [hlast, hpacked.frame _ (Or.inr (Nat.le_add_right _ _)), copied, if_pos (by omega),
              Nat.add_sub_cancel_left]
          · exact hpacked.bytes i hlt j hj
        · rw [hpacked.frame a (by omega), copied, if_neg (by omega)]
      · rw [hkeep i (by omega), Function.update_of_ne (by omega)]

/-- The pointers lie from the new stack pointer on, and nothing else is written. -/
theorem pushPointers_spec (htop : 4 * n ≤ top) :
    (pushPointers argvUser n top m).1 = top - 4 * n ∧
      (∀ i, i < n → getWord (pushPointers argvUser n top m).2 (top - 4 * n + 4 * i) =
        BitVec.ofNat 32 (argvUser i)) ∧
      ∀ a, a < top - 4 * n ∨ top ≤ a → (pushPointers argvUser n top m).2 a = m a := by
  induction n generalizing top m with
  | zero => exact ⟨rfl, fun i hi => absurd hi (by omega), fun _ _ => rfl⟩
  | succ n ih =>
      obtain ⟨hsp, hwords, hframe⟩ :=
        @ih (putWord m (top - 4) (BitVec.ofNat 32 (argvUser n))) (top - 4) (by omega)
      rw [pushPointers]
      have heq : top - 4 - 4 * n = top - 4 * (n + 1) := by omega
      rw [heq] at hsp hwords hframe
      refine ⟨hsp, fun i hi => ?_, fun a ha => ?_⟩
      · rcases Nat.eq_or_lt_of_le (Nat.le_of_lt_succ hi) with rfl | hlt
        · have hplace : top - 4 * (i + 1) + 4 * i = top - 4 := by omega
          rw [hplace, getWord_congr fun b hb _ => hframe b (Or.inr hb), getWord_putWord]
        · exact hwords i hlt
      · rw [hframe a (by omega), putWord_of_outside (by omega)]

end Push

/-- What `_start` finds from the stack pointer on: the address to return to, `argc`, `argv`, the pointers with
a null pointer after them, and above them the strings `strs`, of `len` characters and at `place`. All that was
written lies in the page below `STACK_TOP`. -/
structure Frame (m : ByteMap) (kExit : BitVec 32) (strs : List Str) (sp : Nat) (m' : ByteMap)
    (place len : Nat → Nat) : Prop where
  aligned : sp % 4 = 0
  returnAddress : getWord m' sp = kExit
  argc : getWord m' (sp + 4) = BitVec.ofNat 32 strs.length
  argv : getWord m' (sp + 8) = BitVec.ofNat 32 (sp + 12)
  pointer : ∀ i, i < strs.length → getWord m' (sp + 12 + 4 * i) = BitVec.ofNat 32 (place i)
  null : getWord m' (sp + 12 + 4 * strs.length) = 0#32
  string : ∀ i str, strs[i]? = some str → CStr str (len i) ∧ ∀ j, j ≤ len i → m' (place i + j) = str j
  apart : ∀ i j, i < j → j < strs.length → place i + len i + 1 ≤ place j
  between : ∀ i, i < strs.length →
    sp + 12 + 4 * (strs.length + 1) ≤ place i ∧ place i + len i + 1 ≤ STACK_TOP - 4
  page : STACK_TOP - 4096 ≤ sp
  written : ∀ a, a < sp ∨ STACK_TOP - 4 ≤ a → m' a = m a

/-- `push_exec_args_to_user_stack` with the strings in the page of the process. -/
theorem pushExecArgs_spec {fuel : Nat} {process : Process} {page : ByteMap} {strs : List Str}
    (hfuel : MAX_ARGV_LENGTH ≤ fuel) (hargc : strs.length = process.argc)
    (hcount : strs.length ≤ MAX_ARGC_COUNT) (hpage : process.argv = some page)
    (hheld : ∀ k str, strs[k]? = some str → Holds page k str) (kExit : BitVec 32) (m : ByteMap) :
    ∃ sp m' place len, pushExecArgs fuel kExit process m = .ret (sp, m') ∧
      Frame m kExit strs sp m' place len := by
  have hrow : ∀ i, ∃ len, i < strs.length → CStr (row page i) len ∧ len < MAX_ARGV_LENGTH ∧
      ∀ str, strs[i]? = some str → CStr str len ∧ ∀ j, j ≤ len → row page i j = str j := by
    intro i
    by_cases hi : i < strs.length
    · obtain ⟨len, hstr, hlt, hbytes⟩ := hheld i _ (List.getElem?_eq_getElem hi)
      refine ⟨len, fun _ => ⟨hstr.congr hbytes, hlt, fun str hstr' => ?_⟩⟩
      rw [List.getElem?_eq_getElem hi] at hstr'
      obtain rfl := Option.some.inj hstr'
      exact ⟨hstr, hbytes⟩
    · exact ⟨0, fun h => absurd h hi⟩
  choose len hlen using hrow
  have hclamp : (if process.argc > MAX_ARGC_COUNT then MAX_ARGC_COUNT else process.argc) = strs.length := by
    rw [if_neg (by omega), hargc]
  generalize hn : strs.length = n at hclamp hcount
  rw [hn] at hlen
  simp only [MAX_ARGC_COUNT] at hcount
  have htop : n * MAX_ARGV_LENGTH ≤ STACK_TOP - 4 := by
    simp only [MAX_ARGV_LENGTH, STACK_TOP]
    omega
  obtain ⟨top, m₁, place, hpush, hpacked, -⟩ := @pushStrings_spec page m len (fun _ => 0) fuel n (STACK_TOP - 4)
    hfuel (fun i hi => ⟨(hlen i hi).1, (hlen i hi).2.1⟩) htop
  have hroom := hpacked.room
  have hle := hpacked.le
  simp only [STACK_TOP, MAX_ARGV_LENGTH] at hroom hle htop
  -- the null pointer, the pointers, and the three words of the call
  obtain ⟨null, hnull⟩ : ∃ null, null = top / 4 * 4 - 4 := ⟨_, rfl⟩
  obtain ⟨hsp, hpointers, hkeep⟩ := @pushPointers_spec (putWord m₁ null 0#32) place n null (by omega)
  rcases hptr : pushPointers place n null (putWord m₁ null 0#32) with ⟨base, m₃⟩
  rw [hptr] at hsp hpointers hkeep
  dsimp only at hsp hpointers hkeep
  rw [← hsp] at hpointers hkeep
  have hret : pushExecArgs fuel kExit process m = .ret (base - 4 - 4 - 4,
      putWord (putWord (putWord m₃ (base - 4) (BitVec.ofNat 32 base)) (base - 4 - 4) (BitVec.ofNat 32 n))
        (base - 4 - 4 - 4) kExit) := by
    rw [pushExecArgs]
    dsimp only
    rw [hclamp, hpage, Option.getD_some, hpush, Outcome.ret_bind]
    dsimp only
    rw [← hnull, hptr]
    rfl
  have hframe : ∀ a, a < base - 12 ∨ base ≤ a →
      putWord (putWord (putWord m₃ (base - 4) (BitVec.ofNat 32 base)) (base - 4 - 4) (BitVec.ofNat 32 n))
        (base - 4 - 4 - 4) kExit a = m₃ a := by
    intro a ha
    rw [putWord_of_outside (by omega), putWord_of_outside (by omega), putWord_of_outside (by omega)]
  have hstrings : ∀ a, null + 4 ≤ a →
      putWord (putWord (putWord m₃ (base - 4) (BitVec.ofNat 32 base)) (base - 4 - 4) (BitVec.ofNat 32 n))
        (base - 4 - 4 - 4) kExit a = m₁ a := by
    intro a ha
    rw [hframe a (by omega), hkeep a (by omega), putWord_of_outside (by omega)]
  refine ⟨_, _, place, len, hret, ⟨by omega, getWord_putWord, ?_, ?_, ?_, ?_, ?_, ?_, ?_, ?_, ?_⟩⟩
  · rw [show base - 4 - 4 - 4 + 4 = base - 4 - 4 by omega,
      getWord_congr fun b hb _ => putWord_of_outside (by omega), getWord_putWord, hn]
  · rw [show base - 4 - 4 - 4 + 8 = base - 4 by omega, getWord_congr fun b hb _ => putWord_of_outside (by omega),
      getWord_congr fun b hb _ => putWord_of_outside (by omega), getWord_putWord]
    congr 1
    omega
  · intro i hi
    rw [hn] at hi
    rw [show base - 4 - 4 - 4 + 12 + 4 * i = base + 4 * i by omega,
      getWord_congr fun b hb _ => hframe b (by omega), hpointers i hi]
  · rw [hn, show base - 4 - 4 - 4 + 12 + 4 * n = null by omega, getWord_congr fun b hb _ => hframe b (by omega),
      getWord_congr fun b hb _ => hkeep b (by omega), getWord_putWord]
  · intro i str hstr
    have hi : i < n := hn ▸ (List.getElem?_eq_some_iff.mp hstr).1
    obtain ⟨hcstr, hbytes⟩ := (hlen i hi).2.2 str hstr
    refine ⟨hcstr, fun j hj => ?_⟩
    rw [hstrings _ (by have hlow := (hpacked.below i hi).1; omega), hpacked.bytes i hi j hj, hbytes j hj]
  · rw [hn]
    exact hpacked.order
  · intro i hi
    rw [hn] at hi ⊢
    obtain ⟨hlow, hhigh⟩ := hpacked.below i hi
    exact ⟨by omega, hhigh⟩
  · simp only [STACK_TOP]
    omega
  · intro a ha
    simp only [STACK_TOP] at ha
    rcases ha with ha | ha
    · rw [hframe a (by omega), hkeep a (by omega), putWord_of_outside (by omega),
        hpacked.frame a (Or.inl (by omega))]
    · rw [hstrings a (by omega), hpacked.frame a (Or.inr (by simp only [STACK_TOP]; omega))]

/-- What `copy_exec_args` accepts arrives: `push_exec_args_to_user_stack` returns, and from the stack pointer
on the new program finds its arguments, all in the one page that `execve` has allocated. -/
theorem execArgs_arrive {fuel : Nat} {process process' : Process} {filename : Option Str}
    {argv : Option (Nat → Option Str)} (hfuel : MAX_ARGV_LENGTH ≤ fuel)
    (hcopy : copyExecArgs fuel process filename argv = .ret (true, process')) (kExit : BitVec 32) (m : ByteMap) :
    ∃ strs, Given filename argv strs ∧ strs.length ≤ MAX_ARGC_COUNT ∧ ∃ sp m' place len,
      pushExecArgs fuel kExit process' m = .ret (sp, m') ∧ Frame m kExit strs sp m' place len := by
  obtain ⟨strs, page, hgiven, hargc, hcount, hpage, hheld⟩ := copyExecArgs_spec hfuel hcopy
  exact ⟨strs, hgiven, hcount, pushExecArgs_spec hfuel hargc hcount hpage hheld kExit m⟩

/-- The arguments `"a"` and `""`. -/
def twoArguments : Nat → Option Str
  | 0 => some fun j => if j = 0 then 97#8 else 0#8
  | 1 => some fun _ => 0#8
  | _ => none

theorem execArgs_arrive_two : ∃ process strs,
    copyExecArgs 128 ⟨0, some fun _ => 0#8⟩ none (some twoArguments) = .ret (true, process) ∧
      Given none (some twoArguments) strs ∧ ∃ sp m' place len,
      pushExecArgs 128 0xc0001000#32 process (fun _ => 0#8) = .ret (sp, m') ∧
        Frame (fun _ => 0#8) 0xc0001000#32 strs sp m' place len := by
  have hcopy : ∃ process, copyExecArgs 128 ⟨0, some fun _ => 0#8⟩ none (some twoArguments) =
      .ret (true, process) := ⟨_, rfl⟩
  obtain ⟨process, hcopy⟩ := hcopy
  obtain ⟨strs, hgiven, -, harrive⟩ := execArgs_arrive (by decide) hcopy 0xc0001000#32 fun _ => 0#8
  exact ⟨process, strs, hcopy, hgiven, harrive⟩

end SysuOs.ExecArgs
