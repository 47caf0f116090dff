import Mathlib

/-! The job table of the shell: `add_job`, `delete_job` and the look-ups of `parse_job_arg`. A slot is empty
when its `pid` is 0, which is also what `parse_int` makes of a text without digits. -/

namespace SysuOs.Shell

/-- `SHELL_MAX_JOBS`. -/
def maxJobs : ℕ := 16

/-- An `int` after an operation on it. -/
def wrap (n : ℤ) : ℤ := n.bmod (2 ^ 32)

structure Job where
  pid : ℤ
  jid : ℤ
  state : ℤ
  cmdline : List Char
  deriving DecidableEq, Repr

/-- `clear_job`; the state is `JOB_UNDEF`. -/
def clearJob : Job := ⟨0, 0, 0, []⟩

/-- `jobs` and `next_jid`. -/
structure Jobs where
  jobs : Fin maxJobs → Job
  nextJid : ℤ

namespace Jobs

/-- `init_jobs`, with `next_jid` as it is at the start of the program. -/
def initJobs : Jobs := ⟨fun _ => clearJob, 1⟩

/-- `max_jid`. -/
def maxJid (s : Jobs) : ℤ :=
  (List.finRange maxJobs).foldl (fun max i => if (s.jobs i).jid > max then (s.jobs i).jid else max) 0

/-- `get_job_pid`. -/
def getJobPid (s : Jobs) (pid : ℤ) : Option (Fin maxJobs) :=
  (List.finRange maxJobs).find? fun i => (s.jobs i).pid = pid

/-- `get_job_jid`. -/
def getJobJid (s : Jobs) (jid : ℤ) : Option (Fin maxJobs) :=
  (List.finRange maxJobs).find? fun i => (s.jobs i).jid = jid

/-- `add_job`. -/
def addJob (s : Jobs) (pid state : ℤ) (cmdline : List Char) : Bool × Jobs :=
  if pid ≤ 0 then (false, s)
  else
    match (List.finRange maxJobs).find? fun i => (s.jobs i).pid = 0 with
    | none => (false, s)
    | some i =>
      let next := wrap (s.nextJid + 1)
      (true,
        { jobs := Function.update s.jobs i ⟨pid, s.nextJid, state, cmdline⟩
          nextJid := if next > maxJobs then 1 else next })

/-- `delete_job`. -/
def deleteJob (s : Jobs) (pid : ℤ) : Bool × Jobs :=
  match s.getJobPid pid with
  | none => (false, s)
  | some i =>
    let s : Jobs := { s with jobs := Function.update s.jobs i clearJob }
    let next := wrap (s.maxJid + 1)
    (true, { s with nextJid := if next ≤ 0 then 1 else next })

/-- `parse_int` from the value `v` on. -/
def parseInt (v : ℤ) : List Char → ℤ
  | [] => v
  | c :: s => if '0' ≤ c ∧ c ≤ '9' then parseInt (wrap (v * 10 + (c.toNat - '0'.toNat : ℕ))) s else v

/-- `parse_job_arg`; `none` as an argument is a null pointer. -/
def parseJobArg (s : Jobs) : Option (List Char) → Option (Fin maxJobs)
  | none => none
  | some [] => none
  | some (c :: arg) =>
    if c = '%' then s.getJobJid (parseInt 0 arg) else s.getJobPid (parseInt 0 (c :: arg))

/-! ### Runs -/

/-- The calls on the table. -/
inductive Call where
  | add (pid state : ℤ) (cmdline : List Char)
  | delete (pid : ℤ)
  | parse (arg : Option (List Char))

def step (s : Jobs) : Call → Jobs
  | .add pid state cmdline => (s.addJob pid state cmdline).2
  | .delete pid => (s.deleteJob pid).2
  | .parse _ => s

/-- The slot is in use. -/
def Occupied (s : Jobs) (i : Fin maxJobs) : Prop := (s.jobs i).pid ≠ 0

instance (s : Jobs) (i : Fin maxJobs) : Decidable (s.Occupied i) := inferInstanceAs (Decidable (_ ≠ _))

/-- No slot is empty. -/
def Full (s : Jobs) : Prop := ∀ i, s.Occupied i

/-- A job is added for a positive pid that no job has. -/
def Legal (s : Jobs) : Call → Prop
  | .add pid _ _ => 0 < pid ∧ ∀ i, (s.jobs i).pid ≠ pid
  | _ => True

/-- The job ids in use are positive and distinct. -/
structure Unique (s : Jobs) : Prop where
  pos : ∀ i, s.Occupied i → 0 < (s.jobs i).jid
  inj : ∀ i j, s.Occupied i → s.Occupied j → (s.jobs i).jid = (s.jobs j).jid → i = j

/-- The number in an argument. -/
def number : List Char → ℤ
  | [] => 0
  | c :: arg => if c = '%' then parseInt 0 arg else parseInt 0 (c :: arg)

/-- What an argument leads to is a job that has its number, as its job id behind a `%`. -/
def Answers (s : Jobs) : Call → Prop
  | .parse (some arg) => ∀ i, s.parseJobArg (some arg) = some i → s.Occupied i ∧
      (if arg.head? = some '%' then (s.jobs i).jid else (s.jobs i).pid) = number arg
  | _ => True

/-- Whether `next_jid` may have come back to an id in use: an id of `SHELL_MAX_JOBS` or more was handed out
since the last deletion, or a deletion left the greatest `int` as an id. -/
def wrapped (s : Jobs) (w : Bool) : Call → Bool
  | .add pid state cmdline => if (s.addJob pid state cmdline).1 then w || decide (maxJobs ≤ s.nextJid) else w
  | .delete pid => if (s.deleteJob pid).1 then decide ((s.deleteJob pid).2.maxJid = 2 ^ 31 - 1) else w
  | .parse _ => w

/-- What a call must find: a job added after `next_jid` has wrapped around gets a positive id that no job
has, and the number of an argument is not 0 while a slot is empty. -/
def Meets (s : Jobs) (w : Bool) : Call → Prop
  | .add _ _ _ => w = true → ¬s.Full → 0 < s.nextJid ∧ ∀ i, s.Occupied i → (s.jobs i).jid ≠ s.nextJid
  | .delete _ => True
  | .parse arg => ∀ text, arg = some text → text ≠ [] → number text ≠ 0 ∨ s.Full

instance decidableLegal (s : Jobs) : (c : Call) → Decidable (s.Legal c)
  | .add _ _ _ => inferInstanceAs (Decidable (_ ∧ _))
  | .delete _ => .isTrue trivial
  | .parse _ => .isTrue trivial

/-- All calls of a run are legal. -/
def AllLegal (s : Jobs) : List Call → Prop
  | [] => True
  | c :: calls => s.Legal c ∧ AllLegal (s.step c) calls

instance decidableAllLegal (s : Jobs) : (calls : List Call) → Decidable (s.AllLegal calls)
  | [] => .isTrue trivial
  | c :: calls => @instDecidableAnd _ _ _ (decidableAllLegal (s.step c) calls)

/-- The ids are unique in every state of a run and all its look-ups are answered rightly. -/
def AllGood (s : Jobs) : List Call → Prop
  | [] => s.Unique
  | c :: calls => s.Unique ∧ s.Answers c ∧ AllGood (s.step c) calls

/-- All calls of a run find what they must. -/
def AllMeet (s : Jobs) (w : Bool) : List Call → Prop
  | [] => True
  | c :: calls => s.Meets w c ∧ AllMeet (s.step c) (s.wrapped w c) calls

/-! ### What the calls keep -/

/-- An empty slot has no id; ids are `int`s; until `next_jid` wraps around it is greater than all ids. -/
structure Kept (s : Jobs) (w : Bool) : Prop where
  empty : ∀ i, ¬s.Occupied i → (s.jobs i).jid = 0
  jid_lt : ∀ i, (s.jobs i).jid < 2 ^ 31
  next_lt : s.nextJid < 2 ^ 31
  le_next : -2 ^ 31 ≤ s.nextJid
  fresh : w = false → 0 < s.nextJid ∧ ∀ i, s.Occupied i → (s.jobs i).jid < s.nextJid

theorem wrap_of_lt {n : ℤ} (h : -2 ^ 31 ≤ n) (h' : n < 2 ^ 31) : wrap n = n := by
  rw [wrap]
  exact Int.bmod_eq_of_le (by omega) (by omega)

theorem wrap_lt (n : ℤ) : wrap n < 2 ^ 31 := by
  have := Int.bmod_lt (x := n) (m := 2 ^ 32) (by decide)
  rw [wrap]
  omega

theorem le_wrap (n : ℤ) : -2 ^ 31 ≤ wrap n := by
  have := Int.le_bmod (x := n) (m := 2 ^ 32) (by decide)
  rw [wrap]
  omega

theorem foldl_max (f : Fin maxJobs → ℤ) (l : List (Fin maxJobs)) (n : ℤ) :
    let m := l.foldl (fun max i => if f i > max then f i else max) n
    n ≤ m ∧ (∀ i ∈ l, f i ≤ m) ∧ (m = n ∨ ∃ i ∈ l, m = f i) := by
  induction l generalizing n with
  | nil => simp
  | cons i l ih =>
    obtain ⟨hle, hall, hmem⟩ := ih (if f i > n then f i else n)
    refine ⟨?_, ?_, ?_⟩
    · refine le_trans ?_ hle
      split_ifs <;> omega
    · intro j hj
      rcases List.mem_cons.mp hj with rfl | hj
      · refine le_trans ?_ hle
        split_ifs <;> omega
      · exact hall j hj
    · rcases hmem with he | ⟨j, hj, he⟩
      · by_cases hi : f i > n
        · rw [if_pos hi] at he
          exact .inr ⟨i, List.mem_cons_self, by rw [List.foldl_cons, if_pos hi, he]⟩
        · rw [if_neg hi] at he
          exact .inl (by rw [List.foldl_cons, if_neg hi, he])
      · exact .inr ⟨j, List.mem_cons_of_mem i hj, he⟩

theorem maxJid_spec (s : Jobs) : 0 ≤ s.maxJid ∧ (∀ i, (s.jobs i).jid ≤ s.maxJid) ∧
    (s.maxJid = 0 ∨ ∃ i, s.maxJid = (s.jobs i).jid) := by
  obtain ⟨hle, hall, hmem⟩ := foldl_max (fun i => (s.jobs i).jid) (List.finRange maxJobs) 0
  refine ⟨hle, fun i => hall i (List.mem_finRange i), ?_⟩
  rcases hmem with he | ⟨i, -, he⟩
  · exact .inl he
  · exact .inr ⟨i, he⟩

variable {s : Jobs} {w : Bool}

/-! ### `add_job` -/

/-- The table with a job added in a slot. -/
def added (s : Jobs) (i : Fin maxJobs) (pid state : ℤ) (cmdline : List Char) : Jobs where
  jobs := Function.update s.jobs i ⟨pid, s.nextJid, state, cmdline⟩
  nextJid := if wrap (s.nextJid + 1) > maxJobs then 1 else wrap (s.nextJid + 1)

theorem find_slot_none {p : Fin maxJobs → Bool} (h : (List.finRange maxJobs).find? p = none) (i : Fin maxJobs) :
    p i = false := by
  simpa using List.find?_eq_none.mp h i (List.mem_finRange i)

theorem addJob_full (h : s.Full) {pid state : ℤ} {cmdline : List Char} (hp : 0 < pid) :
    s.addJob pid state cmdline = (false, s) := by
  rw [addJob, if_neg (by omega)]
  cases hfind : (List.finRange maxJobs).find? fun i => (s.jobs i).pid = 0 with
  | none => rfl
  | some i =>
    have hi := List.find?_some hfind
    exact absurd (of_decide_eq_true hi) (h i)

theorem addJob_slot (h : ¬s.Full) {pid state : ℤ} {cmdline : List Char} (hp : 0 < pid) :
    ∃ i, ¬s.Occupied i ∧ s.addJob pid state cmdline = (true, s.added i pid state cmdline) := by
  rw [addJob, if_neg (by omega)]
  cases hfind : (List.finRange maxJobs).find? fun i => (s.jobs i).pid = 0 with
  | none =>
    refine absurd (fun i => ?_) h
    exact of_decide_eq_false (find_slot_none hfind i)
  | some i => exact ⟨i, by simpa [Occupied] using List.find?_some hfind, rfl⟩

section

variable {i : Fin maxJobs} {pid state : ℤ} {cmdline : List Char}

theorem added_self : (s.added i pid state cmdline).jobs i = ⟨pid, s.nextJid, state, cmdline⟩ :=
  Function.update_self ..

theorem added_of_ne {j : Fin maxJobs} (h : j ≠ i) : (s.added i pid state cmdline).jobs j = s.jobs j :=
  Function.update_of_ne h ..

theorem added_occupied (hp : 0 < pid) {j : Fin maxJobs} :
    (s.added i pid state cmdline).Occupied j ↔ j = i ∨ s.Occupied j := by
  by_cases hj : j = i
  · subst hj
    rw [Occupied, added_self]
    exact iff_of_true hp.ne' (.inl rfl)
  · rw [Occupied, added_of_ne hj]
    exact (or_iff_right hj).symm

/-- A new job keeps the ids unique just if its id is positive and not in use. -/
theorem added_unique (hu : s.Unique) (hi : ¬s.Occupied i) (hp : 0 < pid) :
    (s.added i pid state cmdline).Unique ↔
      0 < s.nextJid ∧ ∀ j, s.Occupied j → (s.jobs j).jid ≠ s.nextJid := by
  have hne : ∀ j, s.Occupied j → j ≠ i := fun j hj he => hi (he ▸ hj)
  constructor
  · intro h
    refine ⟨?_, fun j hj he => ?_⟩
    · have hpos := h.pos i ((added_occupied hp).mpr (.inl rfl))
      rwa [added_self] at hpos
    · refine hne j hj (h.inj j i ((added_occupied hp).mpr (.inr hj)) ((added_occupied hp).mpr (.inl rfl)) ?_)
      rw [added_of_ne (hne j hj), added_self, he]
  · rintro ⟨hpos, hnew⟩
    refine ⟨fun j hj => ?_, fun j k hj hk he => ?_⟩
    · rcases (added_occupied hp).mp hj with rfl | hjs
      · rwa [added_self]
      · rw [added_of_ne (hne j hjs)]
        exact hu.pos j hjs
    · rcases (added_occupied hp).mp hj with rfl | hjs <;> rcases (added_occupied hp).mp hk with rfl | hks
      · rfl
      · rw [added_self, added_of_ne (hne k hks)] at he
        exact absurd he.symm (hnew k hks)
      · rw [added_self, added_of_ne (hne j hjs)] at he
        exact absurd he (hnew j hjs)
      · rw [added_of_ne (hne j hjs), added_of_ne (hne k hks)] at he
        exact hu.inj j k hjs hks he

theorem added_kept (hk : s.Kept w) (hi : ¬s.Occupied i) (hp : 0 < pid) :
    (s.added i pid state cmdline).Kept (w || decide ((maxJobs : ℤ) ≤ s.nextJid)) where
  empty := by
    intro j hj
    have hj' : j ≠ i ∧ ¬s.Occupied j := by
      rw [added_occupied hp] at hj
      exact not_or.mp hj
    rw [added_of_ne hj'.1]
    exact hk.empty j hj'.2
  jid_lt := by
    intro j
    by_cases hj : j = i
    · subst hj
      rw [added_self]
      exact hk.next_lt
    · rw [added_of_ne hj]
      exact hk.jid_lt j
  next_lt := by
    have := wrap_lt (s.nextJid + 1)
    dsimp only [added]
    split_ifs <;> omega
  le_next := by
    have := le_wrap (s.nextJid + 1)
    dsimp only [added]
    split_ifs <;> omega
  fresh := by
    intro hw
    obtain ⟨hw, hsmall⟩ := Bool.or_eq_false_iff.mp hw
    have hsmall' : s.nextJid < maxJobs := Int.not_le.mp (of_decide_eq_false hsmall)
    obtain ⟨hpos, hless⟩ := hk.fresh hw
    have hmax : (maxJobs : ℤ) = 16 := rfl
    have hnext : (s.added i pid state cmdline).nextJid = s.nextJid + 1 := by
      dsimp only [added]
      rw [wrap_of_lt (by omega) (by omega), if_neg (by omega)]
    rw [hnext]
    refine ⟨by omega, fun j hj => ?_⟩
    rcases (added_occupied hp).mp hj with rfl | hjs
    · rw [added_self]
      exact Int.lt_succ s.nextJid
    · have hne : j ≠ i := fun he => hi (he ▸ hjs)
      rw [added_of_ne hne]
      exact (hless j hjs).trans (Int.lt_succ s.nextJid)

end

/-! ### `delete_job` -/

/-- The table with a slot cleared. -/
def deleted (s : Jobs) (i : Fin maxJobs) : Jobs :=
  let s' : Jobs := { s with jobs := Function.update s.jobs i clearJob }
  { s' with nextJid := if wrap (s'.maxJid + 1) ≤ 0 then 1 else wrap (s'.maxJid + 1) }

theorem deleteJob_eq (s : Jobs) (pid : ℤ) :
    s.deleteJob pid = (false, s) ∨ ∃ i, s.deleteJob pid = (true, s.deleted i) := by
  rw [deleteJob]
  cases s.getJobPid pid with
  | none => exact .inl rfl
  | some i => exact .inr ⟨i, rfl⟩

section

variable {i : Fin maxJobs}

theorem deleted_self : (s.deleted i).jobs i = clearJob := Function.update_self ..

theorem deleted_of_ne {j : Fin maxJobs} (h : j ≠ i) : (s.deleted i).jobs j = s.jobs j :=
  Function.update_of_ne h ..

theorem deleted_occupied {j : Fin maxJobs} : (s.deleted i).Occupied j ↔ j ≠ i ∧ s.Occupied j := by
  by_cases hj : j = i
  · subst hj
    rw [Occupied, deleted_self]
    exact iff_of_false (not_not.mpr rfl) fun h => h.1 rfl
  · rw [Occupied, deleted_of_ne hj]
    exact (and_iff_right hj).symm

theorem deleted_unique (hu : s.Unique) : (s.deleted i).Unique where
  pos := by
    intro j hj
    obtain ⟨hne, hj⟩ := deleted_occupied.mp hj
    rw [deleted_of_ne hne]
    exact hu.pos j hj
  inj := by
    intro j k hj hk he
    obtain ⟨hj', hj⟩ := deleted_occupied.mp hj
    obtain ⟨hk', hk⟩ := deleted_occupied.mp hk
    rw [deleted_of_ne hj', deleted_of_ne hk'] at he
    exact hu.inj j k hj hk he

theorem deleted_kept (hk : s.Kept w) : (s.deleted i).Kept (decide ((s.deleted i).maxJid = 2 ^ 31 - 1)) := by
  obtain ⟨h0, hall, hmem⟩ := maxJid_spec (s.deleted i)
  have hjid : ∀ j, ((s.deleted i).jobs j).jid < 2 ^ 31 := by
    intro j
    by_cases hj : j = i
    · subst hj
      rw [deleted_self]
      decide
    · rw [deleted_of_ne hj]
      exact hk.jid_lt j
  have hnext : (s.deleted i).nextJid =
      if wrap ((s.deleted i).maxJid + 1) ≤ 0 then 1 else wrap ((s.deleted i).maxJid + 1) := rfl
  have := wrap_lt ((s.deleted i).maxJid + 1)
  refine ⟨fun j hj => ?_, hjid, ?_, ?_, fun hw => ?_⟩
  · by_cases hji : j = i
    · subst hji
      rw [deleted_self]
      rfl
    · rw [deleted_of_ne hji]
      exact hk.empty j fun hocc => hj (deleted_occupied.mpr ⟨hji, hocc⟩)
  · rw [hnext]
    split_ifs <;> omega
  · rw [hnext]
    split_ifs <;> omega
  · have hne : (s.deleted i).maxJid ≠ 2 ^ 31 - 1 := of_decide_eq_false hw
    have hlt : (s.deleted i).maxJid < 2 ^ 31 := by
      rcases hmem with he | ⟨j, he⟩
      · rw [he]
        decide
      · rw [he]
        exact hjid j
    rw [hnext, wrap_of_lt (by omega) (by omega), if_neg (by omega)]
    exact ⟨by omega, fun j _ => Int.lt_add_one_of_le (hall j)⟩

end

/-! ### `parse_job_arg` -/

theorem parseJobArg_cons (s : Jobs) (c : Char) (arg : List Char) : s.parseJobArg (some (c :: arg)) =
    if c = '%' then s.getJobJid (number (c :: arg)) else s.getJobPid (number (c :: arg)) := by
  rw [parseJobArg, number]
  split_ifs <;> rfl

theorem getJobPid_some {n : ℤ} {i : Fin maxJobs} (h : s.getJobPid n = some i) : (s.jobs i).pid = n := by
  simpa using List.find?_some h

theorem getJobJid_some {n : ℤ} {i : Fin maxJobs} (h : s.getJobJid n = some i) : (s.jobs i).jid = n := by
  simpa using List.find?_some h

/-- A slot with the key that is looked up is found, or one before it. -/
theorem getJobPid_isSome {n : ℤ} {i : Fin maxJobs} (h : (s.jobs i).pid = n) : ∃ j, s.getJobPid n = some j := by
  cases hfind : s.getJobPid n with
  | none => exact absurd h (of_decide_eq_false (find_slot_none hfind i))
  | some j => exact ⟨j, rfl⟩

theorem getJobJid_isSome {n : ℤ} {i : Fin maxJobs} (h : (s.jobs i).jid = n) : ∃ j, s.getJobJid n = some j := by
  cases hfind : s.getJobJid n with
  | none => exact absurd h (of_decide_eq_false (find_slot_none hfind i))
  | some j => exact ⟨j, rfl⟩

/-- The key 0 is that of the empty slots. -/
theorem jid_eq_zero_iff (hu : s.Unique) (hk : s.Kept w) (i : Fin maxJobs) :
    (s.jobs i).jid = 0 ↔ ¬s.Occupied i :=
  ⟨fun h hocc => (hu.pos i hocc).ne' h, hk.empty i⟩

/-- A look-up is answered rightly just if its number is not 0 or no slot is empty. -/
theorem answers_iff (hu : s.Unique) (hk : s.Kept w) (arg : Option (List Char)) :
    s.Answers (.parse arg) ↔ s.Meets w (.parse arg) := by
  cases arg with
  | none =>
    refine iff_of_true trivial ?_
    rintro text ⟨⟩
  | some arg =>
    cases arg with
    | nil =>
      refine iff_of_true ?_ ?_
      · rintro i ⟨⟩
      · rintro text ⟨⟩ hne
        exact absurd rfl hne
    | cons c arg =>
      simp only [Answers, Meets, parseJobArg_cons, List.head?_cons, Option.some.injEq]
      constructor
      · rintro h text rfl -
        by_contra hnot
        obtain ⟨hzero, hempty⟩ := not_or.mp hnot
        obtain ⟨i, hi⟩ := not_forall.mp hempty
        rw [not_not.mp hzero] at h
        by_cases hc : c = '%'
        · obtain ⟨j, hj⟩ := getJobJid_isSome (hk.empty i hi)
          have hans := h j (by rw [if_pos hc, hj])
          exact (jid_eq_zero_iff hu hk j).mp (getJobJid_some hj) hans.1
        · obtain ⟨j, hj⟩ := getJobPid_isSome (not_not.mp hi)
          have hans := h j (by rw [if_neg hc, hj])
          exact hans.1 (getJobPid_some hj)
      · intro h i hi
        have hnumber := h _ rfl (List.cons_ne_nil c arg)
        by_cases hc : c = '%'
        · rw [if_pos hc] at hi ⊢
          have hjid := getJobJid_some hi
          refine ⟨?_, hjid⟩
          rcases hnumber with hne | hfull
          · by_contra hocc
            exact hne (hjid.symm.trans (hk.empty i hocc))
          · exact hfull i
        · rw [if_neg hc] at hi ⊢
          have hpid := getJobPid_some hi
          refine ⟨?_, hpid⟩
          rcases hnumber with hne | hfull
          · exact fun h0 => hne (hpid.symm.trans h0)
          · exact hfull i

/-! ### The run -/

/-- What a call leaves is unique again just if it found what it must. -/
theorem step_unique_iff (hu : s.Unique) (hk : s.Kept w) {c : Call} (hc : s.Legal c) :
    ((s.step c).Unique ∧ s.Answers c ↔ s.Meets w c) ∧ (s.step c).Kept (s.wrapped w c) := by
  cases c with
  | add pid state cmdline =>
    simp only [step, wrapped, Answers, and_true, Meets]
    by_cases hfull : s.Full
    · rw [addJob_full hfull hc.1]
      exact ⟨iff_of_true hu fun _ hnot => absurd hfull hnot, hk⟩
    · obtain ⟨i, hi, hadd⟩ := @addJob_slot s hfull pid state cmdline hc.1
      rw [hadd]
      refine ⟨?_, added_kept hk hi hc.1⟩
      rw [added_unique hu hi hc.1]
      constructor
      · exact fun h _ _ => h
      · intro h
        cases hw : w with
        | true => exact h hw hfull
        | false =>
          obtain ⟨hpos, hless⟩ := hk.fresh hw
          exact ⟨hpos, fun j hj => (hless j hj).ne⟩
  | delete pid =>
    simp only [step, wrapped, Answers, and_true, Meets]
    rcases deleteJob_eq s pid with he | ⟨i, he⟩
    · rw [he]
      exact ⟨iff_of_true hu trivial, hk⟩
    · rw [he]
      exact ⟨iff_of_true (deleted_unique hu) trivial, deleted_kept hk⟩
  | parse arg => exact ⟨(and_iff_right hu).trans (answers_iff hu hk arg), hk⟩

theorem allGood_unique {calls : List Call} (h : s.AllGood calls) : s.Unique := by
  cases calls with
  | nil => exact h
  | cons c calls => exact h.1

theorem allGood_iff_allMeet {calls : List Call} (hu : s.Unique) (hk : s.Kept w) (hlegal : s.AllLegal calls) :
    s.AllGood calls ↔ s.AllMeet w calls := by
  induction calls generalizing s w with
  | nil => exact iff_of_true hu trivial
  | cons c calls ih =>
    obtain ⟨hc, hlegal⟩ := hlegal
    obtain ⟨hstep, hk'⟩ := step_unique_iff hu hk hc
    constructor
    · rintro ⟨-, hans, hgood⟩
      have hu' := allGood_unique hgood
      exact ⟨hstep.mp ⟨hu', hans⟩, (ih hu' hk' hlegal).mp hgood⟩
    · rintro ⟨hmeets, hall⟩
      obtain ⟨hu', hans⟩ := hstep.mpr hmeets
      exact ⟨hu, hans, (ih hu' hk' hlegal).mpr hall⟩

theorem initJobs_unique : initJobs.Unique :=
  ⟨fun _ hi => absurd rfl hi, fun _ _ hi => absurd rfl hi⟩

theorem initJobs_kept : initJobs.Kept false where
  empty _ _ := rfl
  jid_lt _ := (by decide : (0 : ℤ) < 2 ^ 31)
  next_lt := by decide
  le_next := by decide
  fresh _ := ⟨by decide, fun _ hi => absurd rfl hi⟩

/-- In every run from `init_jobs` the ids are unique and the look-ups are answered rightly, just if each
call finds what it must. -/
theorem unique_iff_meets (calls : List Call) (hlegal : initJobs.AllLegal calls) :
    initJobs.AllGood calls ↔ initJobs.AllMeet false calls :=
  allGood_iff_allMeet initJobs_unique initJobs_kept hlegal

theorem unique_iff_meets_one :
    initJobs.AllGood [.add 3 2 ['l', 's'], .parse (some ['3'])] ↔
      initJobs.AllMeet false [.add 3 2 ['l', 's'], .parse (some ['3'])] :=
  unique_iff_meets _ ⟨⟨by decide, fun i => by simp [initJobs, clearJob]⟩, trivial, trivial⟩

/-- The state at the end of a run. -/
def run (s : Jobs) (calls : List Call) : Jobs := calls.foldl step s

theorem allGood_run {calls : List Call} (h : s.AllGood calls) : (s.run calls).Unique := by
  induction calls generalizing s with
  | nil => exact h
  | cons c calls ih => exact ih h.2.2

/-- Sixteen jobs get the ids 1 to 16; two of them are deleted, and the two that are added then get the ids
17 and 1. -/
def wrapsAround : List Call :=
  (List.range maxJobs).map (fun k => .add (k + 1) 2 []) ++ [.delete 5, .delete 6, .add 17 2 [], .add 18 2 []]

theorem not_allGood : ¬ ∀ calls : List Call, initJobs.AllLegal calls → initJobs.AllGood calls := by
  intro h
  have hlegal : initJobs.AllLegal wrapsAround := by decide +kernel
  have hunique := allGood_run (h wrapsAround hlegal)
  have hsame : ((initJobs.run wrapsAround).jobs ⟨0, by decide⟩).jid =
      ((initJobs.run wrapsAround).jobs ⟨5, by decide⟩).jid := by decide +kernel
  have hfirst : (initJobs.run wrapsAround).Occupied ⟨0, by decide⟩ := by decide +kernel
  have hsixth : (initJobs.run wrapsAround).Occupied ⟨5, by decide⟩ := by decide +kernel
  exact absurd (hunique.inj _ _ hfirst hsixth hsame) (by decide)

end Jobs

end SysuOs.Shell
