import SysuOs.ProgramTable

/-! `exit` and `waitpid` over whole runs. A slot is used by one process after the other, so the processes
are numbered as they are made, and a log says what each of them did: the first thread is process 0, `init`
process 1. -/

namespace SysuOs.Programs

open ProgramManager

/-- What the calls of the processes did. -/
inductive Event where
  | fork (parent child : Nat)
  | exit (process : Nat) (ret : Int)
  | reap (caller child : Nat) (retval : Int)

/-- The caller has made the child, or it is `init` and the maker of the child has exited. -/
def ParentOf (log : List Event) (caller child : Nat) : Prop :=
  .fork caller child ∈ log ∨ caller = 1 ∧ ∃ creator ret, .fork creator child ∈ log ∧ .exit creator ret ∈ log

/-- What must have happened before: a process exits once, and a child that is reaped has exited with the
value reported, is the caller's, and has not been reaped yet. -/
def Event.Follows (before : List Event) : Event → Prop
  | .fork _ _ => True
  | .exit process _ => ∀ ret, .exit process ret ∉ before
  | .reap caller child retval => .exit child retval ∈ before ∧ ParentOf before caller child ∧
      ∀ caller' retval', .reap caller' child retval' ∉ before

/-- Every event of the log follows those before it. -/
def Orderly (log : List Event) : Prop := ∀ before e after, log = before ++ e :: after → e.Follows before

theorem Orderly.concat {log : List Event} {e : Event} (h : Orderly log) (he : e.Follows log) :
    Orderly (log ++ [e]) := by
  intro before e' after heq
  rcases List.eq_nil_or_concat after with rfl | ⟨after, e'', rfl⟩
  · obtain ⟨rfl, hlast⟩ := List.append_inj' heq rfl
    obtain rfl := List.singleton_inj.mp hlast
    exact he
  · rw [List.concat_eq_append, ← List.cons_append, ← List.append_assoc] at heq
    exact h before e' after (List.append_inj' heq rfl).1

/-- The table of the programs, the number of the process in each slot, the number of processes made so far
and the log. -/
structure World where
  s : ProgramManager
  who : Nat → Nat
  made : Nat
  log : List Event

namespace World

/-- The process in the slot `p` is about to make a system call. -/
structure Calls (w : World) (p : Nat) : Prop where
  running : w.s.running = some p
  status : (w.s.pcbSet p).status = .RUNNING
  process : (w.s.pcbSet p).pageDirectoryAddress ≠ 0

/-- `fork` has returned; without a child there was no free slot. -/
def forked (w : World) (p : Nat) (s : ProgramManager) : Option Nat → World
  | some child =>
      { s, who := Function.update w.who child w.made, made := w.made + 1,
        log := w.log ++ [.fork (w.who p) w.made] }
  | none => { w with s }

def exited (w : World) (p : Nat) (ret : Int) (s : ProgramManager) : World :=
  { w with s, log := w.log ++ [.exit (w.who p) ret] }

/-- A round of `waitpid` is over. -/
def answered (w : World) (p : Nat) (s : ProgramManager) : Answer → World
  | .child childPid retval => { w with s, log := w.log ++ [.reap (w.who p) (w.who childPid) retval] }
  | _ => { w with s }

/-- Every allocation of `fork` finds memory. -/
structure Allocated (r : ForkAllocations) : Prop where
  argv : r.argv ≠ 0
  pageDirectory : r.pageDirectory ≠ 0
  cloneFrom : r.cloneFrom = true
  setupCOWPages : r.setupCOWPages = true

/-- One step of the machine: the first thread makes `init`, a process makes a system call, or the processor
is given to another program. No allocation fails. -/
inductive Step (w : World) : World → Prop
  | makeInit {fuel : Nat} {priority : Int} {argv pageDirectory p : Nat} {s : ProgramManager} :
      w.made = 1 → w.s.running = some 0 →
      w.s.executeProcess fuel priority argv pageDirectory true = .ret (some p, s) →
      Step w { w with s, who := Function.update w.who p w.made, made := w.made + 1 }
  | fork {fuel p : Nat} {r : ForkAllocations} {pid : Option Nat} {s : ProgramManager} :
      w.Calls p → Allocated r → w.s.fork fuel r = .ret (pid, s) → Step w (w.forked p s pid)
  | exit {fuel p : Nat} {ret : Int} {s : ProgramManager} :
      w.Calls p → w.s.exit fuel ret = .ret s → Step w (w.exited p ret s)
  | waitpid {fuel p : Nat} {pid : Option Nat} {answer : Answer} {s : ProgramManager} :
      w.Calls p → w.s.waitpidRound fuel pid = .ret (answer, s) → Step w (w.answered p s answer)
  | schedule {fuel : Nat} {s : ProgramManager} : w.s.schedule fuel = .ret s → Step w { w with s }
  | timeInterrupt {fuel : Nat} {s : ProgramManager} : w.s.timeInterrupt fuel = .ret s → Step w { w with s }

/-- The worlds reached from the boot. -/
inductive Run : World → Prop
  | boot {fuel : Nat} {sType : SchedulerType} {argv : Nat} {s : ProgramManager} :
      ProgramManager.boot fuel sType argv = .ret s → Run ⟨s, fun _ => 0, 1, []⟩
  | step {w w' : World} : Run w → Step w w' → Run w'

/-- What holds between two steps. The programs with a slot are different processes, none of them has been
reaped, and the dead ones are those that have exited; each but the first two is the child of a living one
that made it, or of `init`. -/
structure Families (w : World) (l : List Nat) : Prop where
  table : Table w.s l
  scheduled : ∃ C, Scheduled w.s C
  orderly : Orderly w.log
  idle : 0 ∈ l ∧ (w.s.pcbSet 0).parentPid = 0 ∧ (w.s.pcbSet 0).pageDirectoryAddress = 0
  init : w.made = 1 ∧ l = [0] ∨ 1 ∈ l ∧ (w.s.pcbSet 1).parentPid = 0 ∧ w.who 1 = 1
  who_inj : ∀ p ∈ l, ∀ q ∈ l, w.who p = w.who q → p = q
  who_lt : ∀ p ∈ l, w.who p < w.made
  older : ∀ parent child, .fork parent child ∈ w.log → parent < child
  past : ∀ x, (∃ ret, .exit x ret ∈ w.log) ∨ (∃ caller retval, .reap caller x retval ∈ w.log) → x < w.made
  live : ∀ p ∈ l, (w.s.pcbSet p).status ≠ .DEAD → ∀ ret, .exit (w.who p) ret ∉ w.log
  dead : ∀ p ∈ l, (w.s.pcbSet p).status = .DEAD → .exit (w.who p) (w.s.pcbSet p).retValue ∈ w.log
  kept : ∀ p ∈ l, ∀ caller retval, .reap caller (w.who p) retval ∉ w.log
  parent : ∀ q ∈ l, q ≠ 0 → q ≠ 1 →
    (w.s.pcbSet q).parentPid = 1 ∧ ParentOf w.log 1 (w.who q) ∨
    (w.s.pcbSet q).parentPid ∈ l ∧ (w.s.pcbSet (w.s.pcbSet q).parentPid).status ≠ .DEAD ∧
      .fork (w.who (w.s.pcbSet q).parentPid) (w.who q) ∈ w.log

namespace Families

variable {w : World} {l : List Nat} {s' : ProgramManager} {p fuel : Nat}

theorem who_congr {log log' : List Event} (hsub : ∀ e ∈ log, e ∈ log') {caller child : Nat}
    (h : ParentOf log caller child) : ParentOf log' caller child := by
  rcases h with h | ⟨hinit, creator, ret, hfork, hexit⟩
  · exact .inl (hsub _ h)
  · exact .inr ⟨hinit, creator, ret, hsub _ hfork, hsub _ hexit⟩

/-- The running program is changed. -/
theorem switched (h : Families w l) (hl : Table s' l) (hs : Switched w.s s') (hC : ∃ C, Scheduled s' C)
    (hdead : ∀ q, (w.s.pcbSet q).status = .DEAD → (s'.pcbSet q).status = .DEAD) : Families { w with s := s' } l :=
  { h with
    table := hl
    scheduled := hC
    idle := ⟨h.idle.1, (hs.same 0).parentPid.trans h.idle.2.1, (hs.same 0).pageDirectoryAddress.trans h.idle.2.2⟩
    init := h.init.imp id fun ⟨hmem, hparent, hwho⟩ => ⟨hmem, (hs.same 1).parentPid.trans hparent, hwho⟩
    live := fun q hq hlive => h.live q hq fun hd => hlive (hdead q hd)
    dead := fun q hq hd => by
      rw [(hs.same q).retValue]
      exact h.dead q hq (hs.dead q hd)
    parent := fun q hq h0 h1 => by
      show (s'.pcbSet q).parentPid = 1 ∧ _ ∨ (s'.pcbSet q).parentPid ∈ l ∧
        (s'.pcbSet (s'.pcbSet q).parentPid).status ≠ .DEAD ∧ _
      rw [(hs.same q).parentPid]
      exact (h.parent q hq h0 h1).imp id fun ⟨hmem, hlive, hfork⟩ => ⟨hmem, fun hd => hlive (hs.dead _ hd), hfork⟩ }

theorem schedule (h : Families w l) (hs : w.s.schedule fuel = .ret s') : Families { w with s := s' } l := by
  obtain ⟨C, hC⟩ := h.scheduled
  obtain ⟨hl, hswitch⟩ := h.table.schedule hs
  exact h.switched hl hswitch (hC.schedule hs).1 fun q hq => hC.schedule_dead hs hq

theorem timeInterrupt (h : Families w l) (ht : w.s.timeInterrupt fuel = .ret s') :
    Families { w with s := s' } l := by
  obtain ⟨C, hC⟩ := h.scheduled
  obtain ⟨hl, hswitch⟩ := h.table.timeInterrupt ht
  exact h.switched hl hswitch (hC.timeInterrupt ht) fun q hq => hC.timeInterrupt_dead ht hq

theorem mem_of_running (h : Families w l) (hrun : w.s.running = some p) : p ∈ l := by
  obtain ⟨C, hC⟩ := h.scheduled
  exact (h.table.used p).mpr (hC.running p hrun)

/-- A process that makes system calls is not the first thread, and `init` has been made. -/
theorem caller (h : Families w l) (hp : w.Calls p) :
    p ∈ l ∧ p ≠ 0 ∧ (1 ∈ l ∧ (w.s.pcbSet 1).parentPid = 0 ∧ w.who 1 = 1) ∧ (w.s.pcbSet p).pid = p := by
  have hmem := h.mem_of_running hp.running
  have h0 : p ≠ 0 := by
    rintro rfl
    exact hp.process h.idle.2.2
  refine ⟨hmem, h0, ?_, h.table.pid p hmem⟩
  rcases h.init with ⟨-, rfl⟩ | hinit
  · exact absurd (by simpa using hmem) h0
  · exact hinit

/-- A process exits: it is dead, and its children are the children of `init`. -/
theorem left (ret : Int) (h : Families w l) (hp : w.Calls p) :
    Families (w.exited p ret (w.s.leave p ret l)) l := by
  obtain ⟨hmem, h0, ⟨h1, hparent1, hwho1⟩, hpid⟩ := h.caller hp
  obtain ⟨C, hC⟩ := h.scheduled
  have hpast : ∀ e ∈ w.log, e ∈ w.log ++ [.exit (w.who p) ret] := fun e he => List.mem_append_left _ he
  have hlive := h.live p hmem (by rw [hp.status]; simp)
  have hother : ∀ q, q ≠ p → (w.s.leave p ret l).pcbSet q =
      { w.s.pcbSet q with parentPid := ((w.s.leave p ret l).pcbSet q).parentPid } := by
    intro q hq
    rw [leave_of_ne hq]
    split <;> rfl
  have hzero : ∀ q, q ≠ p → (w.s.pcbSet q).parentPid ≠ p →
      ((w.s.leave p ret l).pcbSet q).parentPid = (w.s.pcbSet q).parentPid := by
    intro q hq hne
    rw [leave_of_ne hq, hpid, if_neg fun hc => hne hc.2]
  -- no one else's exit is in the log for the number of this process
  have hne : ∀ q ∈ l, q ≠ p → ∀ r, .exit (w.who q) r ∈ w.log ++ [.exit (w.who p) ret] →
      .exit (w.who q) r ∈ w.log := by
    intro q hq hqp r hr
    rcases List.mem_append.mp hr with hr | hr
    · exact hr
    · have hwho := (Event.exit.inj (List.mem_singleton.mp hr)).1
      exact absurd (h.who_inj q hq p hmem hwho) hqp
  refine { h with
    table := h.table.left ret
    scheduled := ⟨C, (hC.setFresh (hC.running_free hp.running) _).adopt p l⟩
    orderly := h.orderly.concat hlive
    idle := ⟨h.idle.1, (hzero 0 h0.symm (by rw [h.idle.2.1]; exact h0.symm)).trans h.idle.2.1, ?_⟩
    init := .inr ⟨h1, ?_, hwho1⟩
    older := fun parent child hfork => h.older parent child (by simpa [World.exited] using hfork)
    past := fun x hx => ?_
    live := fun q hq hql r hr => ?_
    dead := fun q hq hqd => ?_
    kept := fun q hq caller r hr => h.kept q hq caller r (by simpa [World.exited] using hr)
    parent := fun q hq hq0 hq1 => ?_ }
  · show ((w.s.leave p ret l).pcbSet 0).pageDirectoryAddress = 0
    rw [hother 0 h0.symm]
    exact h.idle.2.2
  · show ((w.s.leave p ret l).pcbSet 1).parentPid = 0
    by_cases hp1 : 1 = p
    · subst hp1
      rw [leave_self]
      exact hparent1
    · rw [hzero 1 hp1 (by rw [hparent1]; exact h0.symm), hparent1]
  · refine hx.elim (fun ⟨r, hr⟩ => ?_) fun ⟨caller, r, hr⟩ => h.past x (.inr ⟨caller, r, ?_⟩)
    · rcases List.mem_append.mp hr with hr | hr
      · exact h.past x (.inl ⟨r, hr⟩)
      · rw [(Event.exit.inj (List.mem_singleton.mp hr)).1]
        exact h.who_lt p hmem
    · simpa [World.exited] using hr
  · have hqp : q ≠ p := by
      rintro rfl
      exact hql (by rw [World.exited, leave_self])
    refine h.live q hq (fun hd => hql ?_) r (hne q hq hqp r hr)
    show ((w.s.leave p ret l).pcbSet q).status = .DEAD
    rwa [hother q hqp]
  · show Event.exit (w.who q) ((w.s.leave p ret l).pcbSet q).retValue ∈ _
    by_cases hqp : q = p
    · subst hqp
      rw [leave_self]
      exact List.mem_append_right _ List.mem_cons_self
    · have hd : ((w.s.leave p ret l).pcbSet q).status = .DEAD := hqd
      rw [hother q hqp] at hd ⊢
      exact hpast _ (h.dead q hq hd)
  · show ((w.s.leave p ret l).pcbSet q).parentPid = 1 ∧ ParentOf _ 1 (w.who q) ∨
      ((w.s.leave p ret l).pcbSet q).parentPid ∈ l ∧
        ((w.s.leave p ret l).pcbSet ((w.s.leave p ret l).pcbSet q).parentPid).status ≠ .DEAD ∧
        .fork (w.who ((w.s.leave p ret l).pcbSet q).parentPid) (w.who q) ∈ w.log ++ [.exit (w.who p) ret]
    by_cases hchild : q ≠ p ∧ (w.s.pcbSet q).parentPid = p
    · -- a child of the process that exits
      left
      rw [leave_of_ne hchild.1, hpid, if_pos ⟨hq, hchild.2⟩]
      refine ⟨rfl, ?_⟩
      rcases h.parent q hq hq0 hq1 with ⟨-, hinit⟩ | ⟨-, -, hfork⟩
      · exact who_congr hpast hinit
      · rw [hchild.2] at hfork
        exact .inr ⟨rfl, w.who p, ret, hpast _ hfork, List.mem_append_right _ List.mem_cons_self⟩
    · have hsame : ((w.s.leave p ret l).pcbSet q).parentPid = (w.s.pcbSet q).parentPid := by
        by_cases hqp : q = p
        · subst hqp
          rw [leave_self]
        · exact hzero q hqp fun he => hchild ⟨hqp, he⟩
      rw [hsame]
      rcases h.parent q hq hq0 hq1 with ⟨hone, hinit⟩ | ⟨hpar, hparlive, hfork⟩
      · exact .inl ⟨hone, who_congr hpast hinit⟩
      · have hparp : (w.s.pcbSet q).parentPid ≠ p := by
          intro he
          by_cases hqp : q = p
          · rw [hqp] at he hfork
            rw [he] at hfork
            exact lt_irrefl _ (h.older _ _ hfork)
          · exact hchild ⟨hqp, he⟩
        refine .inr ⟨hpar, fun hd => hparlive ?_, hpast _ hfork⟩
        rwa [hother _ hparp] at hd

theorem exited {ret : Int} (h : Families w l) (hp : w.Calls p) (he : w.s.exit fuel ret = .ret s') :
    Families (w.exited p ret s') l := (h.left ret hp).schedule (h.table.exit hp.running he)

/-- No used slot is touched. -/
theorem congr (h : Families w l) (hl : Table s' l) (hC : ∃ C, Scheduled s' C)
    (hsame : ∀ q ∈ l, s'.pcbSet q = w.s.pcbSet q) : Families { w with s := s' } l :=
  { h with
    table := hl
    scheduled := hC
    idle := by
      show 0 ∈ l ∧ (s'.pcbSet 0).parentPid = 0 ∧ (s'.pcbSet 0).pageDirectoryAddress = 0
      rw [hsame 0 h.idle.1]
      exact h.idle
    init := h.init.imp id fun ⟨hmem, hrest⟩ => ⟨hmem, by rwa [hsame 1 hmem]⟩
    live := fun q hq hlive => h.live q hq fun hd => hlive (by rwa [hsame q hq])
    dead := fun q hq hd => by
      have hd : (s'.pcbSet q).status = .DEAD := hd
      rw [hsame q hq] at hd ⊢
      exact h.dead q hq hd
    parent := fun q hq h0 h1 => by
      show (s'.pcbSet q).parentPid = 1 ∧ _ ∨ (s'.pcbSet q).parentPid ∈ l ∧
        (s'.pcbSet (s'.pcbSet q).parentPid).status ≠ .DEAD ∧ .fork (w.who (s'.pcbSet q).parentPid) _ ∈ w.log
      rw [hsame q hq]
      exact (h.parent q hq h0 h1).imp id fun ⟨hmem, hlive, hfork⟩ =>
        ⟨hmem, fun hd => hlive (by rwa [hsame _ hmem] at hd), hfork⟩ }

/-- A process is made in the slot `c`; the log may say who made it. -/
theorem push {c : Nat} {log : List Event} (h : Families w l) (hl : Table s' (l ++ [c]))
    (hC : ∃ C, Scheduled s' C) (hm : Made w.s s' c) (hlive : (s'.pcbSet c).status ≠ .DEAD)
    (hlog : ∀ e ∈ w.log, e ∈ log)
    (hnew : ∀ e ∈ log, e ∈ w.log ∨ ∃ parent < w.made, e = .fork parent w.made)
    (horderly : Orderly log)
    (hinit : 1 ∈ l ++ [c] ∧ (s'.pcbSet 1).parentPid = 0 ∧ Function.update w.who c w.made 1 = 1)
    (hparent : c ≠ 0 → c ≠ 1 → (s'.pcbSet c).parentPid ∈ l ∧ (w.s.pcbSet (s'.pcbSet c).parentPid).status ≠ .DEAD ∧
      .fork (w.who (s'.pcbSet c).parentPid) w.made ∈ log) :
    Families ⟨s', Function.update w.who c w.made, w.made + 1, log⟩ (l ++ [c]) := by
  have hcl := h.table.not_mem_of_free hm.free
  have hsame : ∀ q ∈ l, s'.pcbSet q = w.s.pcbSet q ∧ Function.update w.who c w.made q = w.who q := by
    intro q hq
    have hqc : q ≠ c := fun he => hcl (he ▸ hq)
    exact ⟨hm.others q hqc, Function.update_of_ne hqc _ _⟩
  have hself : Function.update w.who c w.made c = w.made := Function.update_self _ _ _
  have hmem : ∀ q ∈ l ++ [c], q ∈ l ∨ q = c := fun q hq => by simpa using hq
  have hexit : ∀ x r, .exit x r ∈ log → .exit x r ∈ w.log := fun x r hr => by
    simpa using hnew _ hr
  have hreap : ∀ x y r, .reap x y r ∈ log → .reap x y r ∈ w.log := fun x y r hr => by
    simpa using hnew _ hr
  refine ⟨hl, hC, horderly, ⟨List.mem_append_left _ h.idle.1, ?_⟩, .inr hinit, fun p hp q hq hpq => ?_,
    fun p hp => ?_, fun parent child hfork => ?_, fun x hx => ?_, fun q hq hql r hr => ?_, fun q hq hqd => ?_,
    fun q hq caller r hr => ?_, fun q hq hq0 hq1 => ?_⟩
  · show (s'.pcbSet 0).parentPid = 0 ∧ (s'.pcbSet 0).pageDirectoryAddress = 0
    rw [(hsame 0 h.idle.1).1]
    exact h.idle.2
  · dsimp only at hpq
    rcases hmem p hp with hpl | hpc <;> rcases hmem q hq with hql | hqc
    · rw [(hsame p hpl).2, (hsame q hql).2] at hpq
      exact h.who_inj p hpl q hql hpq
    · rw [(hsame p hpl).2, hqc, hself] at hpq
      exact absurd hpq (h.who_lt p hpl).ne
    · rw [(hsame q hql).2, hpc, hself] at hpq
      exact absurd hpq (h.who_lt q hql).ne'
    · exact hpc.trans hqc.symm
  · dsimp only
    rcases hmem p hp with hp | rfl
    · rw [(hsame p hp).2]
      exact Nat.lt_succ_of_lt (h.who_lt p hp)
    · rw [hself]
      exact Nat.lt_succ_self _
  · rcases hnew _ hfork with hfork | ⟨p, hp, hfork⟩
    · exact h.older parent child hfork
    · obtain ⟨rfl, rfl⟩ := Event.fork.inj hfork
      exact hp
  · refine Nat.lt_succ_of_lt (h.past x ?_)
    exact hx.imp (fun ⟨r, hr⟩ => ⟨r, hexit x r hr⟩) fun ⟨caller, r, hr⟩ => ⟨caller, r, hreap caller x r hr⟩
  · dsimp only at hql hr
    rcases hmem q hq with hq | rfl
    · rw [(hsame q hq).1] at hql
      rw [(hsame q hq).2] at hr
      exact h.live q hq hql r (hexit _ _ hr)
    · rw [hself] at hr
      exact lt_irrefl _ (h.past _ (.inl ⟨r, hexit _ _ hr⟩))
  · dsimp only at hqd ⊢
    rcases hmem q hq with hq | rfl
    · rw [(hsame q hq).1] at hqd ⊢
      rw [(hsame q hq).2]
      exact hlog _ (h.dead q hq hqd)
    · exact absurd hqd hlive
  · dsimp only at hr
    rcases hmem q hq with hq | rfl
    · rw [(hsame q hq).2] at hr
      exact h.kept q hq caller r (hreap _ _ _ hr)
    · rw [hself] at hr
      exact lt_irrefl _ (h.past _ (.inr ⟨caller, r, hreap _ _ _ hr⟩))
  · dsimp only
    rcases hmem q hq with hq | rfl
    · rw [(hsame q hq).1, (hsame q hq).2]
      refine (h.parent q hq hq0 hq1).imp (fun ⟨hone, hinit⟩ => ⟨hone, who_congr hlog hinit⟩) fun ⟨hpar, hl', hf⟩ => ?_
      rw [(hsame _ hpar).1, (hsame _ hpar).2]
      exact ⟨List.mem_append_left _ hpar, hl', hlog _ hf⟩
    · obtain ⟨hpar, hl', hf⟩ := hparent hq0 hq1
      rw [hself, (hsame _ hpar).1, (hsame _ hpar).2]
      exact .inr ⟨List.mem_append_left _ hpar, hl', hf⟩

/-- A process has made a child of its own. -/
theorem forked {r : ForkAllocations} {pid : Option Nat} (h : Families w l) (hp : w.Calls p)
    (hr : Allocated r) (hf : w.s.fork fuel r = .ret (pid, s')) : ∃ l', Families (w.forked p s' pid) l' := by
  obtain ⟨hmem, h0, ⟨h1, hparent1, hwho1⟩, hpid⟩ := h.caller hp
  obtain ⟨C, hC⟩ := h.scheduled
  have hC' := hC.fork (fun _ _ _ => ⟨hr.pageDirectory, hr.setupCOWPages⟩) hf
  have hrun : ∀ q, w.s.running = some q → q ∈ l := fun q hq => h.mem_of_running hq
  rcases h.table.fork hrun hf with ⟨hl, hun, rfl⟩ | ⟨c, hl, hm, ⟨rfl, hready⟩ | ⟨-, -, hno⟩⟩
  · -- there is no free slot
    exact ⟨l, h.congr hl hC' fun q hq => hun.others q ((h.table.used q).mp hq)⟩
  · have hc1 : 1 ≠ c := fun hc => by
      have hfree := hm.free
      rw [← hc, (h.table.used 1).mp h1] at hfree
      simp at hfree
    have hparent : (s'.pcbSet c).parentPid = p := by
      rw [hm.parent, runningPid, hp.running]
      exact hpid
    refine ⟨l ++ [c], h.push hl hC' hm (by rw [hready]; simp) (fun e he => List.mem_append_left _ he)
      (fun e he => ?_) (h.orderly.concat trivial) ⟨List.mem_append_left _ h1, ?_, ?_⟩ fun _ _ => ?_⟩
    · exact (List.mem_append.mp he).imp id fun he => ⟨w.who p, h.who_lt p hmem, List.mem_singleton.mp he⟩
    · rw [hm.others 1 hc1, hparent1]
    · rw [Function.update_of_ne hc1, hwho1]
    · rw [hparent, hp.status]
      exact ⟨hmem, by simp, List.mem_append_right _ List.mem_cons_self⟩
  · simp [hr.pageDirectory, hr.setupCOWPages] at hno

/-- A round of `waitpid` that returns a child frees its slot. -/
theorem answered {pid : Option Nat} {answer : Answer} (h : Families w l) (hp : w.Calls p)
    (hw : w.s.waitpidRound fuel pid = .ret (answer, s')) : ∃ l', Families (w.answered p s' answer) l' := by
  rcases h.table.waitpidRound hw with ⟨rfl, rfl, -⟩ | ⟨rfl, hs, -⟩ | ⟨z, hz, rfl, hchild, hdead, hrel⟩
  · exact ⟨l, h⟩
  · exact ⟨l, h.schedule hs⟩
  · obtain ⟨hmem, h0, ⟨h1, hparent1, hwho1⟩, hpid⟩ := h.caller hp
    obtain ⟨C, hC⟩ := h.scheduled
    obtain ⟨hl, hused, hothers, hrun⟩ := h.table.releasePCB hrel
    have hcaller : (w.s.pcbSet z).parentPid = p := by
      rw [hchild.1, runningPid, hp.running]
      exact hpid
    have hz0 : z ≠ 0 := by
      rintro rfl
      exact h0 (hcaller.symm.trans h.idle.2.1)
    have hz1 : z ≠ 1 := by
      rintro rfl
      exact h0 (hcaller.symm.trans hparent1)
    have hrunz : w.s.running ≠ some z := fun he => by
      obtain rfl := Option.some.inj (hp.running.symm.trans he)
      rw [hp.status] at hdead
      simp at hdead
    have hparent : ParentOf w.log (w.who p) (w.who z) := by
      rcases h.parent z hz hz0 hz1 with ⟨hone, hinit⟩ | ⟨-, -, hfork⟩
      · rwa [← hcaller, hone, hwho1]
      · rw [hcaller] at hfork
        exact .inl hfork
    have hmem' : ∀ q, q ∈ l.erase z ↔ q ≠ z ∧ q ∈ l := fun q => h.table.nodup.mem_erase_iff
    have hsame : ∀ q ∈ l.erase z, s'.pcbSet q = w.s.pcbSet q := fun q hq => hothers q ((hmem' q).mp hq).1
    have hl' : ∀ q ∈ l.erase z, q ∈ l := fun q hq => ((hmem' q).mp hq).2
    have hlog : ∀ e ∈ w.log, e ∈ w.log ++ [.reap (w.who p) (w.who z) (w.s.pcbSet z).retValue] :=
      fun e he => List.mem_append_left _ he
    have h0' : 0 ∈ l.erase z := (hmem' 0).mpr ⟨hz0.symm, h.idle.1⟩
    have h1' : 1 ∈ l.erase z := (hmem' 1).mpr ⟨hz1.symm, h1⟩
    refine ⟨l.erase z, hl, hC.releasePCB hdead hrunz hrel, h.orderly.concat ⟨h.dead z hz hdead, hparent, h.kept z hz⟩,
      ⟨h0', ?_⟩, .inr ⟨h1', ?_, hwho1⟩, fun q hq r hr => h.who_inj q (hl' q hq) r (hl' r hr),
      fun q hq => h.who_lt q (hl' q hq), fun parent child hfork => ?_, fun x hx => ?_,
      fun q hq hql r hr => ?_, fun q hq hqd => ?_, fun q hq caller r hr => ?_, fun q hq hq0 hq1 => ?_⟩
    · show (s'.pcbSet 0).parentPid = 0 ∧ (s'.pcbSet 0).pageDirectoryAddress = 0
      rw [hsame 0 h0']
      exact h.idle.2
    · show (s'.pcbSet 1).parentPid = 0
      rwa [hsame 1 h1']
    · exact h.older parent child (by simpa [World.answered] using hfork)
    · rcases hx with ⟨r, hr⟩ | ⟨caller, r, hr⟩
      · exact h.past x (.inl ⟨r, by simpa [World.answered] using hr⟩)
      · rcases List.mem_append.mp hr with hr | hr
        · exact h.past x (.inr ⟨caller, r, hr⟩)
        · rw [(Event.reap.inj (List.mem_singleton.mp hr)).2.1]
          exact h.who_lt z hz
    · have hql' : (s'.pcbSet q).status ≠ .DEAD := hql
      rw [hsame q hq] at hql'
      exact h.live q (hl' q hq) hql' r (by simpa [World.answered] using hr)
    · have hqd' : (s'.pcbSet q).status = .DEAD := hqd
      show Event.exit (w.who q) (s'.pcbSet q).retValue ∈ _
      rw [hsame q hq] at hqd' ⊢
      exact hlog _ (h.dead q (hl' q hq) hqd')
    · rcases List.mem_append.mp hr with hr | hr
      · exact h.kept q (hl' q hq) caller r hr
      · have hwho := (Event.reap.inj (List.mem_singleton.mp hr)).2.1
        exact ((hmem' q).mp hq).1 (h.who_inj q (hl' q hq) z hz hwho)
    · show (s'.pcbSet q).parentPid = 1 ∧ _ ∨ (s'.pcbSet q).parentPid ∈ l.erase z ∧
        (s'.pcbSet (s'.pcbSet q).parentPid).status ≠ .DEAD ∧
        Event.fork (w.who (s'.pcbSet q).parentPid) (w.who q) ∈ _
      rw [hsame q hq]
      rcases h.parent q (hl' q hq) hq0 hq1 with ⟨hone, hinit⟩ | ⟨hpar, hlive, hfork⟩
      · exact .inl ⟨hone, who_congr hlog hinit⟩
      right
      have hparz : (w.s.pcbSet (w.s.pcbSet q).parentPid) = s'.pcbSet (w.s.pcbSet q).parentPid := by
        rw [hothers]
        rintro he
        exact hlive (he ▸ hdead)
      refine ⟨(hmem' _).mpr ⟨fun he => hlive (he ▸ hdead), hpar⟩, ?_, hlog _ hfork⟩
      rwa [← hparz]

/-- The first thread makes `init`. -/
theorem makeInit {priority : Int} {argv pageDirectory : Nat} (h : Families w l) (hone : w.made = 1)
    (hrun : w.s.running = some 0)
    (he : w.s.executeProcess fuel priority argv pageDirectory true = .ret (some p, s')) :
    Families { w with s := s', who := Function.update w.who p w.made, made := w.made + 1 } (l ++ [p]) := by
  obtain ⟨C, hC⟩ := h.scheduled
  have hl : l = [0] := by
    rcases h.init with ⟨-, hl⟩ | ⟨h1, -, hwho⟩
    · exact hl
    · exact absurd (h.who_lt 1 h1) (by rw [hwho, hone]; exact lt_irrefl 1)
  subst hl
  rcases h.table.executeProcess he with ⟨-, -, hno⟩ | ⟨c, hl', hm, hno | ⟨hc, hlive⟩⟩
  · simp at hno
  · simp at hno
  · obtain rfl := Option.some.inj hc
    have hp : p = 1 := by
      by_contra hne
      have hp0 : p ≠ 0 := fun h0 => by
        have hfree := hm.free
        rw [h0, (h.table.used 0).mp h.idle.1] at hfree
        simp at hfree
      have hused := executeProcess_least he 1 (by omega)
      simpa using (h.table.used 1).mpr hused
    subst hp
    refine h.push hl' (hC.executeProcess he) hm hlive (fun _ he => he) (fun _ he => .inl he) h.orderly
      ⟨by simp, ?_, ?_⟩ fun _ h11 => absurd rfl h11
    · rw [hm.parent, runningPid, hrun]
      exact h.table.pid 0 h.idle.1
    · rw [Function.update_self, hone]

end Families

theorem Run.families {w : World} (h : Run w) : ∃ l, Families w l := by
  induction h with
  | boot hb =>
      obtain ⟨hl, hparent, hdir, hstatus, -⟩ := table_boot hb
      refine ⟨[0], hl, scheduled_boot hb, fun before e after heq => ?_, ⟨by simp, hparent, hdir⟩, .inl ⟨rfl, rfl⟩,
        by simp, by simp, by simp, by simp, by simp, ?_, by simp, fun q hq h0 => ?_⟩
      · simp at heq
      · intro p hp hd
        rw [List.mem_singleton.mp hp, hstatus] at hd
        simp at hd
      · exact absurd (List.mem_singleton.mp hq) h0
  | step _ hstep ih =>
      obtain ⟨l, h⟩ := ih
      cases hstep with
      | makeInit hone hrun he => exact ⟨_, h.makeInit hone hrun he⟩
      | fork hp hr hf => exact h.forked hp hr hf
      | exit hp he => exact ⟨l, h.exited hp he⟩
      | waitpid hp hw => exact h.answered hp hw
      | schedule hs => exact ⟨l, h.schedule hs⟩
      | timeInterrupt ht => exact ⟨l, h.timeInterrupt ht⟩

/-- The processes that exit and those that wait for them agree: every child that `waitpid` returns has
exited once, with the value returned, is reaped once and by its parent; `waitpid` returns -1 exactly when
no program with a slot that answers to `pid` is a child of the caller; and the children of a process that
exits go to pid 1. -/
structure ExitOnce (w : World) : Prop where
  orderly : Orderly w.log
  noChild : ∀ p, w.Calls p → ∀ fuel, MAX_PROGRAM_AMOUNT < fuel → ∀ pid,
    (∃ s', w.s.waitpidRound fuel pid = .ret (.noChild, s')) ↔
      ∀ q, w.s.pcbSetStatus q = true → ¬ w.s.isChild pid q
  orphans : ∀ p, w.Calls p → ∀ fuel, MAX_PROGRAM_AMOUNT < fuel → ∀ ret,
    ∃ s₁ : ProgramManager, w.s.exit fuel ret = s₁.schedule fuel ∧
      ∀ s' : ProgramManager, s' = s₁ ∨ s₁.schedule fuel = .ret s' →
      ∀ q, w.s.pcbSetStatus q = true → q ≠ p → (w.s.pcbSet q).parentPid = (w.s.pcbSet p).pid →
        s'.pcbSetStatus q = true ∧ (s'.pcbSet q).parentPid = 1

theorem exit_waitpid_once {w : World} (h : Run w) : ExitOnce w := by
  obtain ⟨l, h⟩ := h.families
  have hlen := h.table.length_le
  refine ⟨h.orderly, fun p hp fuel hfuel pid => ?_, fun p hp fuel hfuel ret => ?_⟩
  · rw [h.table.waitpidRound_noChild (hlen.trans_lt hfuel)]
    exact forall_congr' fun q => by rw [h.table.used q]
  · refine ⟨w.s.leave p ret l, h.table.exit_eq hp.running (hlen.trans_lt hfuel), fun s' hs' q hq hqp hparent => ?_⟩
    have hleft : ((w.s.leave p ret l).pcbSet q).parentPid = 1 := by
      rw [leave_of_ne hqp, if_pos ⟨(h.table.used q).mpr hq, hparent⟩]
    rcases hs' with rfl | hs'
    · exact ⟨hq, hleft⟩
    · obtain ⟨-, hswitch⟩ := (h.table.left ret).schedule hs'
      exact ⟨by rw [hswitch.used]; exact hq, (hswitch.same q).parentPid.trans hleft⟩


/-! ### A run -/

/-- `init` runs. -/
def initWorld : World := ⟨initRuns, Function.update (fun _ => 0) 1 1, 2, []⟩

theorem run_initWorld : Run initWorld := by
  have hbooted : Run ⟨booted, fun _ => 0, 1, []⟩ := .boot (show boot 20 .RR 1 = .ret booted from rfl)
  have hmade : Run ⟨madeInit, Function.update (fun _ => 0) 1 1, 2, []⟩ :=
    .step hbooted (.makeInit rfl rfl (show booted.executeProcess 20 0 1 1 true = .ret (some 1, madeInit) from rfl))
  exact .step hmade (.schedule (show madeInit.schedule 20 = .ret initRuns from rfl))

/-- `init` forks, the child exits with 7, and `init` reaps it. -/
theorem exit_waitpid_once_reaped : ∃ w : World, w.log = [.fork 1 2, .exit 2 7, .reap 1 2 7] ∧ ExitOnce w := by
  have hcalls : initWorld.Calls 1 := ⟨rfl, rfl, by decide⟩
  have hfork := run_initWorld.step (.fork hcalls ⟨by decide, by decide, rfl, rfl⟩
    (show ProgramManager.fork 20 initWorld.s ⟨1, 1, true, true⟩ = .ret (some 2, _) from rfl))
  have hfirst := hfork.step (.schedule (show ProgramManager.schedule 20 _ = .ret _ from rfl))
  have hchild := hfirst.step (.schedule (show ProgramManager.schedule 20 _ = .ret _ from rfl))
  have hexit := hchild.step (.exit (p := 2) ⟨rfl, rfl, by decide⟩
    (show ProgramManager.exit 20 _ 7 = .ret _ from rfl))
  have hreap := hexit.step (.waitpid (p := 1) ⟨rfl, rfl, by decide⟩
    (show ProgramManager.waitpidRound 20 _ none = .ret _ from rfl))
  exact ⟨_, rfl, exit_waitpid_once hreap⟩

end World

end SysuOs.Programs
