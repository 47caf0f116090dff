import SysuOs.ProgramTable

/-! Which program a `parentPid` names, over any calls. Programs are told apart by numbers, so that the
program that has a slot now is not taken for the one that had it before. The calls that end a program
without looking for its children keep the table right only if there are none. -/

namespace SysuOs.Programs

open ProgramManager

/-- The table, with the number of the program in each slot, that of the program that made it, and the
number for the next program. -/
structure Named where
  s : ProgramManager
  who : Nat → Nat
  creator : Nat → Nat
  made : Nat

namespace Named

/-- A call has led to `s`: a program in a slot that was free is new. -/
def after (w : Named) (s : ProgramManager) : Named where
  s := s
  who q := if s.pcbSetStatus q && !w.s.pcbSetStatus q then w.made else w.who q
  creator q := if s.pcbSetStatus q && !w.s.pcbSetStatus q then (w.s.running.map w.who).getD 0 else w.creator q
  made := w.made + 1

/-- The states that the calls meeting `P` reach from the boot. -/
inductive Reached (P : ProgramManager → Call → Prop) : Named → Prop
  | boot {fuel : Nat} {sType : SchedulerType} {argv : Nat} {s : ProgramManager} :
      ProgramManager.boot fuel sType argv = .ret s → Reached P ⟨s, fun _ => 0, fun _ => 0, 1⟩
  | call {w : Named} {s : ProgramManager} (fuel : Nat) (c : Call) :
      Reached P w → c.Enabled w.s → P w.s c → c.run fuel w.s = .ret s → Reached P (w.after s)

/-- Every program with a slot names pid 0 or pid 1 as its parent, or the live program that made it. -/
def NoDangling (w : Named) : Prop :=
  ∀ q, w.s.pcbSetStatus q = true → (w.s.pcbSet q).parentPid = 0 ∨ (w.s.pcbSet q).parentPid = 1 ∨
    w.s.pcbSetStatus (w.s.pcbSet q).parentPid = true ∧ (w.s.pcbSet (w.s.pcbSet q).parentPid).status ≠ .DEAD ∧
      w.who (w.s.pcbSet q).parentPid = w.creator q

/-- The running program has no child with a slot, but for the children of pid 0 and of pid 1. -/
def Childless (s : ProgramManager) : Prop :=
  ∀ p, s.running = some p → ∀ q, s.pcbSetStatus q = true → (s.pcbSet q).parentPid = (s.pcbSet p).pid →
    (s.pcbSet p).pid ≤ 1

/-- A program that ends without `exit` is childless, and one that makes another has a slot. -/
def Intact (s : ProgramManager) : Call → Prop
  | .programExit => Childless s
  | .execve pageDirectory userVirtual => pageDirectory ≠ 0 ∧ userVirtual = true ∨ Childless s
  | .fork _ => ∀ p, s.running = some p → s.pcbSetStatus p = true
  | .executeThread _ _ _ => ∀ p, s.running = some p → s.pcbSetStatus p = true
  | .executeProcess _ _ _ _ => ∀ p, s.running = some p → s.pcbSetStatus p = true
  | _ => True

/-- What `NoDangling` says, with the table; no program is its own parent but for pid 0 and pid 1. -/
structure Kin (w : Named) (l : List Nat) : Prop where
  table : Table w.s l
  parent : ∀ q ∈ l, (w.s.pcbSet q).parentPid ≤ 1 ∨
    (w.s.pcbSet q).parentPid ∈ l ∧ (w.s.pcbSet q).parentPid ≠ q ∧
      (w.s.pcbSet (w.s.pcbSet q).parentPid).status ≠ .DEAD ∧ w.who (w.s.pcbSet q).parentPid = w.creator q

theorem after_of_used {w : Named} {s : ProgramManager} {q : Nat} (hq : w.s.pcbSetStatus q = true) :
    (w.after s).who q = w.who q ∧ (w.after s).creator q = w.creator q := by
  simp [after, hq]

theorem after_of_made {w : Named} {s : ProgramManager} {p : Nat} (hm : Made w.s s p) :
    (w.after s).creator p = (w.s.running.map w.who).getD 0 := by
  simp [after, hm.free, hm.used]

namespace Kin

variable {w : Named} {l l' : List Nat} {s' : ProgramManager} {p fuel : Nat}

/-- No program is made, no parent is changed but to pid 1, and no parent dies. -/
theorem keep (h : Kin w l) (hl : Table s' l') (hsub : ∀ q ∈ l', q ∈ l)
    (hparent : ∀ q ∈ l', (s'.pcbSet q).parentPid = (w.s.pcbSet q).parentPid ∨ (s'.pcbSet q).parentPid = 1)
    (hlive : ∀ q ∈ l', ∀ parent ∈ l, (s'.pcbSet q).parentPid = parent → (w.s.pcbSet q).parentPid = parent →
      1 < parent → parent ≠ q → (w.s.pcbSet parent).status ≠ .DEAD → parent ∈ l' ∧ (s'.pcbSet parent).status ≠ .DEAD) :
    Kin (w.after s') l' := by
  refine ⟨hl, fun q hq => ?_⟩
  show (s'.pcbSet q).parentPid ≤ 1 ∨ (s'.pcbSet q).parentPid ∈ l' ∧ (s'.pcbSet q).parentPid ≠ q ∧
    (s'.pcbSet (s'.pcbSet q).parentPid).status ≠ .DEAD ∧ (w.after s').who (s'.pcbSet q).parentPid = _
  rcases hparent q hq with hsame | hone
  · by_cases hle : (w.s.pcbSet q).parentPid ≤ 1
    · exact .inl (hsame ▸ hle)
    · rcases h.parent q (hsub q hq) with hle' | ⟨hmem, hne, hdead, hwho⟩
      · exact absurd hle' hle
      · obtain ⟨hmem', hdead'⟩ := hlive q hq _ hmem hsame rfl (not_le.mp hle) hne hdead
        right
        rw [hsame, (after_of_used ((h.table.used _).mp hmem)).1, (after_of_used ((h.table.used q).mp (hsub q hq))).2]
        exact ⟨hmem', hne, hdead', hwho⟩
  · exact .inl hone.le

theorem switched {s₁ : ProgramManager} (h : Kin w l) (hl : Table s' l) (hs : Switched s₁ s')
    (hparent : ∀ q ∈ l, (s₁.pcbSet q).parentPid = (w.s.pcbSet q).parentPid ∨ (s₁.pcbSet q).parentPid = 1)
    (hlive : ∀ q ∈ l, ∀ parent ∈ l, (s₁.pcbSet q).parentPid = parent → (w.s.pcbSet q).parentPid = parent →
      1 < parent → parent ≠ q → (w.s.pcbSet parent).status ≠ .DEAD → (s₁.pcbSet parent).status ≠ .DEAD) :
    Kin (w.after s') l := by
  refine h.keep hl (fun q hq => hq) (fun q hq => ?_) fun q hq parent hmem hp' hp h1 hne hdead => ⟨hmem, fun hd => ?_⟩
  · rw [(hs.same q).parentPid]
    exact hparent q hq
  · rw [(hs.same q).parentPid] at hp'
    exact hlive q hq parent hmem hp' hp h1 hne hdead (hs.dead parent hd)

theorem schedule (h : Kin w l) (hs : w.s.schedule fuel = .ret s') : Kin (w.after s') l := by
  obtain ⟨hl, hswitch⟩ := h.table.schedule hs
  exact h.switched hl hswitch (fun _ _ => .inl rfl) fun _ _ _ _ _ _ _ _ hdead => hdead

theorem timeInterrupt (h : Kin w l) (ht : w.s.timeInterrupt fuel = .ret s') : Kin (w.after s') l := by
  obtain ⟨hl, hswitch⟩ := h.table.timeInterrupt ht
  exact h.switched hl hswitch (fun _ _ => .inl rfl) fun _ _ _ _ _ _ _ _ hdead => hdead

/-- `exit` gives the children away before the program is switched. -/
theorem exit {ret : Int} (h : Kin w l) (he : w.s.exit fuel ret = .ret s') : Kin (w.after s') l := by
  rcases hrun : w.s.running with _ | p
  · simp [ProgramManager.exit, hrun] at he
  obtain ⟨hl, hswitch⟩ := (h.table.left ret).schedule (h.table.exit hrun he)
  refine h.switched hl hswitch (fun q hq => ?_) fun q hq parent hmem hp' hp h1 hne hdead => ?_
  · by_cases hqp : q = p
    · subst hqp
      rw [leave_self]
      exact .inl rfl
    · rw [leave_of_ne hqp]
      split
      · exact .inr rfl
      · exact .inl rfl
  · have hparp : parent ≠ p := by
      rintro rfl
      rw [leave_of_ne hne.symm, if_pos ⟨hq, hp.trans (h.table.pid parent hmem).symm⟩] at hp'
      exact absurd hp' h1.ne
    rw [leave_of_ne hparp]
    split <;> exact hdead

/-- A program without children dies. -/
theorem childless {s₁ : ProgramManager} (h : Kin w l) (hrun : w.s.running = some p) (hc : Childless w.s)
    (hothers : ∀ q, q ≠ p → s₁.pcbSet q = w.s.pcbSet q)
    (hparent : (s₁.pcbSet p).parentPid = (w.s.pcbSet p).parentPid) (hl : Table s' l) (hs : Switched s₁ s') :
    Kin (w.after s') l := by
  refine h.switched hl hs (fun q hq => .inl ?_) fun q hq parent hmem _ hp h1 hne hdead => ?_
  · by_cases hqp : q = p
    · subst hqp
      exact hparent
    · rw [hothers q hqp]
  · have hparp : parent ≠ p := by
      rintro rfl
      have hpid := h.table.pid parent hmem
      have hle := hc parent hrun q ((h.table.used q).mp hq) (hp.trans hpid.symm)
      exact absurd (hpid ▸ hle) (not_le.mpr h1)
    rwa [hothers parent hparp]

theorem programExit (h : Kin w l) (hc : Childless w.s) (he : w.s.programExit fuel = .ret s') :
    Kin (w.after s') l := by
  rw [ProgramManager.programExit] at he
  split at he
  · simp at he
  · next p hrun =>
      dsimp only at he
      split at he
      · obtain ⟨hl, hswitch⟩ := (h.table.setStatus (p := p) .DEAD).schedule he
        refine h.childless hrun hc (fun q hq => setPCB_of_ne hq) ?_ hl hswitch
        rw [setPCB_self]
      · simp at he

theorem execve {pageDirectory : Nat} {userVirtual : Bool} (h : Kin w l)
    (hc : pageDirectory ≠ 0 ∧ userVirtual = true ∨ Childless w.s)
    (he : w.s.execve fuel pageDirectory userVirtual = .ret s') : Kin (w.after s') l := by
  rw [ProgramManager.execve] at he
  split at he
  · simp at he
  · next p hrun =>
      obtain ⟨-, -, he⟩ := Outcome.bind_eq_ret he
      dsimp only at he
      generalize hpcb : { w.s.pcbSet p with pageDirectoryAddress := pageDirectory } = pcb at he
      have hparent : pcb.parentPid = (w.s.pcbSet p).parentPid := by rw [← hpcb]
      have h₁ : Table (w.s.setPCB p pcb) l := h.table.setPCB pcb (by rw [← hpcb])
      have hothers : ∀ q, q ≠ p → ((w.s.setPCB p pcb).setStatus p .DEAD).pcbSet q = w.s.pcbSet q := fun q hq =>
        (setPCB_of_ne hq).trans (setPCB_of_ne hq)
      have hself : (((w.s.setPCB p pcb).setStatus p .DEAD).pcbSet p).parentPid = (w.s.pcbSet p).parentPid := by
        rw [ProgramManager.setStatus, setPCB_self, setPCB_self, hparent]
      split at he
      · next h0 =>
          obtain rfl := Outcome.ret.inj he
          have hc := hc.resolve_left fun hok => hok.1 h0
          exact h.childless hrun hc hothers hself (h₁.setStatus .DEAD) ⟨rfl, fun _ => .refl, fun _ hq => hq⟩
      · split at he
        · next hno =>
            have hc := hc.resolve_left fun hok => by simp [hok.2] at hno
            obtain ⟨hl, hswitch⟩ := (h₁.setStatus .DEAD).schedule he
            exact h.childless hrun hc hothers hself hl hswitch
        · obtain rfl := Outcome.ret.inj he
          have hstatus : pcb.status = (w.s.pcbSet p).status := by rw [← hpcb]
          refine h.keep h₁ (fun q hq => hq) (fun q _ => .inl ?_) fun q _ parent hmem _ _ _ _ hdead => ⟨hmem, ?_⟩
          · by_cases hqp : q = p
            · subst hqp
              rw [setPCB_self, hparent]
            · rw [setPCB_of_ne hqp]
          · by_cases hqp : parent = p
            · subst hqp
              rwa [setPCB_self, hstatus]
            · rwa [setPCB_of_ne hqp]

/-- A child that is reaped was dead, so it is nobody's parent. -/
theorem waitpid {pid : Option Nat} (h : Kin w l) (hw : w.s.waitpid fuel pid = .ret s') :
    ∃ l', Kin (w.after s') l' := by
  rw [waitpid_eq] at hw
  obtain ⟨⟨answer, s₁⟩, hround, hw⟩ := Outcome.bind_eq_ret hw
  obtain rfl := Outcome.ret.inj hw
  rcases h.table.waitpidRound hround with ⟨-, rfl, -⟩ | ⟨-, hs, -⟩ | ⟨z, hz, -, -, hdead, hrel⟩
  · exact ⟨l, h.keep h.table (fun q hq => hq) (fun _ _ => .inl rfl) fun _ _ _ hmem _ _ _ _ hlive => ⟨hmem, hlive⟩⟩
  · exact ⟨l, h.schedule hs⟩
  · obtain ⟨hl, -, hothers, -⟩ := h.table.releasePCB hrel
    have hmem' : ∀ q, q ∈ l.erase z ↔ q ≠ z ∧ q ∈ l := fun q => h.table.nodup.mem_erase_iff
    refine ⟨l.erase z, h.keep hl (fun q hq => ((hmem' q).mp hq).2) (fun q hq => .inl ?_)
      fun q hq parent hmem _ hp _ _ hlive => ?_⟩
    · rw [hothers q ((hmem' q).mp hq).1]
    · have hne : parent ≠ z := by
        rintro rfl
        exact hlive hdead
      rw [hothers parent hne]
      exact ⟨(hmem' parent).mpr ⟨hne, hmem⟩, hlive⟩

theorem unmade (h : Kin w l) (hl : Table s' l) (hun : Unmade w.s s') : Kin (w.after s') l := by
  have hsame : ∀ q ∈ l, s'.pcbSet q = w.s.pcbSet q := fun q hq => hun.others q ((h.table.used q).mp hq)
  refine h.keep hl (fun q hq => hq) (fun q hq => .inl ?_) fun q hq parent hmem _ _ _ _ hlive => ⟨hmem, ?_⟩
  · rw [hsame q hq]
  · rwa [hsame parent hmem]

/-- A new program is the child of the running one, which is alive. -/
theorem made {c : Nat} (h : Kin w l) (hl : Table s' (l ++ [c])) (hm : Made w.s s' c)
    (hrun : ∀ p, w.s.running = some p → p ∈ l ∧ (w.s.pcbSet p).status = .RUNNING) :
    Kin (w.after s') (l ++ [c]) := by
  have hcl := h.table.not_mem_of_free hm.free
  have hsame : ∀ q ∈ l, s'.pcbSet q = w.s.pcbSet q := fun q hq => hm.others q fun he => hcl (he ▸ hq)
  refine ⟨hl, fun q hq => ?_⟩
  show (s'.pcbSet q).parentPid ≤ 1 ∨ (s'.pcbSet q).parentPid ∈ l ++ [c] ∧ (s'.pcbSet q).parentPid ≠ q ∧
    (s'.pcbSet (s'.pcbSet q).parentPid).status ≠ .DEAD ∧ (w.after s').who (s'.pcbSet q).parentPid = _
  rcases List.mem_append.mp hq with hql | hqc
  · rw [hsame q hql, (after_of_used ((h.table.used q).mp hql)).2]
    refine (h.parent q hql).imp id fun ⟨hmem, hne, hdead, hwho⟩ => ?_
    rw [hsame _ hmem, (after_of_used ((h.table.used _).mp hmem)).1]
    exact ⟨List.mem_append_left _ hmem, hne, hdead, hwho⟩
  · obtain rfl := List.mem_singleton.mp hqc
    rw [after_of_made hm, hm.parent, runningPid]
    cases hp : w.s.running with
    | none => exact .inl (Nat.zero_le 1)
    | some p =>
        obtain ⟨hmem, hlive⟩ := hrun p hp
        right
        show (w.s.pcbSet p).pid ∈ _ ∧ (w.s.pcbSet p).pid ≠ q ∧ (s'.pcbSet (w.s.pcbSet p).pid).status ≠ .DEAD ∧
          (w.after s').who (w.s.pcbSet p).pid = w.who p
        rw [h.table.pid p hmem, hsame p hmem, hlive, (after_of_used ((h.table.used p).mp hmem)).1]
        exact ⟨List.mem_append_left _ hmem, fun he => hcl (he ▸ hmem), by simp, rfl⟩

/-- One call of an intact program. -/
theorem call {c : Call} (h : Kin w l) (hon : c.Enabled w.s) (hi : Intact w.s c) (hc : c.run fuel w.s = .ret s') :
    ∃ l', Kin (w.after s') l' := by
  have hrun : (∀ p, w.s.running = some p → w.s.pcbSetStatus p = true) →
      (∀ p, w.s.running = some p → (w.s.pcbSet p).status = .RUNNING) →
      ∀ p, w.s.running = some p → p ∈ l ∧ (w.s.pcbSet p).status = .RUNNING :=
    fun hused hlive p hp => ⟨(h.table.used p).mpr (hused p hp), hlive p hp⟩
  cases c with
  | executeThread priority needEnqueue argv =>
      obtain ⟨⟨pid, s₁⟩, he, hc⟩ := Outcome.bind_eq_ret hc
      obtain rfl := Outcome.ret.inj hc
      obtain ⟨hnone, hsome⟩ := h.table.executeThread he
      cases pid with
      | none => exact ⟨l, h.unmade (hnone rfl).1 (hnone rfl).2⟩
      | some p =>
          obtain ⟨hl, hm, -⟩ := hsome p rfl
          exact ⟨_, h.made hl hm (hrun hi hon)⟩
  | executeProcess priority argv pageDirectory userVirtual =>
      obtain ⟨⟨pid, s₁⟩, he, hc⟩ := Outcome.bind_eq_ret hc
      obtain rfl := Outcome.ret.inj hc
      rcases h.table.executeProcess he with ⟨hl, hun, -⟩ | ⟨p, hl, hm, -⟩
      · exact ⟨l, h.unmade hl hun⟩
      · exact ⟨_, h.made hl hm (hrun hi hon)⟩
  | fork r =>
      obtain ⟨⟨pid, s₁⟩, hf, hc⟩ := Outcome.bind_eq_ret hc
      obtain rfl := Outcome.ret.inj hc
      rcases h.table.fork (fun p hp => (hrun hi hon p hp).1) hf with ⟨hl, hun, -⟩ | ⟨p, hl, hm, -⟩
      · exact ⟨l, h.unmade hl hun⟩
      · exact ⟨_, h.made hl hm (hrun hi hon)⟩
  | exit ret => exact ⟨l, h.exit hc⟩
  | programExit => exact ⟨l, h.programExit hi hc⟩
  | waitpid pid => exact h.waitpid hc
  | execve pageDirectory userVirtual => exact ⟨l, h.execve hi hc⟩
  | timeInterrupt => exact ⟨l, h.timeInterrupt hc⟩
  | schedule => exact ⟨l, h.schedule hc⟩

end Kin

theorem Reached.kin {w : Named} (h : Reached Intact w) : ∃ l, Kin w l := by
  induction h with
  | boot hb =>
      obtain ⟨hl, hparent, -⟩ := table_boot hb
      refine ⟨[0], hl, fun q hq => .inl ?_⟩
      rw [List.mem_singleton.mp hq, hparent]
      exact Nat.zero_le 1
  | call fuel c _ hon hi hc ih =>
      obtain ⟨l, h⟩ := ih
      exact h.call hon hi hc

/-- No `parentPid` dangles in a run in which the programs that end without `exit` are childless. -/
theorem noDangling_of_intact {w : Named} (h : Reached Intact w) : NoDangling w := by
  obtain ⟨l, h⟩ := h.kin
  intro q hq
  rcases h.parent q ((h.table.used q).mpr hq) with hle | ⟨hmem, -, hdead, hwho⟩
  · rcases Nat.le_one_iff_eq_zero_or_eq_one.mp hle with h0 | h1
    · exact .inl h0
    · exact .inr (.inl h1)
  · exact .inr (.inr ⟨(h.table.used _).mp hmem, hdead, hwho⟩)

/-! ### Runs -/

/-- `init` runs. -/
theorem reached_init {P : ProgramManager → Call → Prop} (hprocess : P booted (.executeProcess 0 1 1 true))
    (hschedule : P madeInit .schedule) : ∃ w, Reached P w ∧ w.s = initRuns := by
  have hbooted : Reached P ⟨booted, fun _ => 0, fun _ => 0, 1⟩ := .boot (show boot 20 .RR 1 = .ret booted from rfl)
  have hlive : ∀ p, booted.running = some p → (booted.pcbSet p).status = .RUNNING := by
    intro p hp
    obtain rfl := Option.some.inj hp
    rfl
  have hmade := hbooted.call 20 (.executeProcess 0 1 1 true) hlive hprocess
    (show (Call.executeProcess 0 1 1 true).run 20 booted = .ret madeInit from rfl)
  exact ⟨_, hmade.call 20 .schedule trivial hschedule (show Call.schedule.run 20 madeInit = .ret initRuns from rfl), rfl⟩

/-- `init` forks. -/
theorem noDangling_forkedInit : ∃ w, w.s = forkedInit ⟨1, 1, true, true⟩ ∧ NoDangling w := by
  have hslot : ∀ p, booted.running = some p → booted.pcbSetStatus p = true := by
    intro p hp
    obtain rfl := Option.some.inj hp
    rfl
  obtain ⟨⟨s, who, creator, made⟩, hw, rfl⟩ := reached_init (P := Intact) hslot trivial
  have hforks : ∀ p, initRuns.running = some p → initRuns.pcbSetStatus p = true := by
    intro p hp
    obtain rfl := Option.some.inj hp
    rfl
  exact ⟨_, rfl, noDangling_of_intact (hw.call 20 (.fork ⟨1, 1, true, true⟩) initRuns_live hforks
    (show (Call.fork ⟨1, 1, true, true⟩).run 20 initRuns = .ret (forkedInit ⟨1, 1, true, true⟩) from rfl))⟩

/-- Some calls of programs that are alive. -/
def runCalls (w : Named) : List Call → Outcome Named
  | [] => .ret w
  | c :: calls =>
      if ∀ p ∈ w.s.running, (w.s.pcbSet p).status = .RUNNING then do
        let s ← c.run 20 w.s
        runCalls (w.after s) calls
      else .halt

theorem Reached.runCalls {w w' : Named} {calls : List Call} (h : Reached (fun _ _ => True) w)
    (hc : w.runCalls calls = .ret w') : Reached (fun _ _ => True) w' := by
  induction calls generalizing w with
  | nil => rwa [← Outcome.ret.inj hc]
  | cons c calls ih =>
      rw [Named.runCalls] at hc
      split at hc
      · next hlive =>
          obtain ⟨s, hs, hc⟩ := Outcome.bind_eq_ret hc
          refine ih (h.call 20 c ?_ trivial hs) hc
          cases c with
          | timeInterrupt => trivial
          | schedule => trivial
          | _ => exact hlive
      · simp at hc

/-- The child 2 of `init` makes the child 3 and dies in an `execve` without memory for its address space;
`init` reaps it and makes another child in the slot 2. -/
def reusedSlot : Outcome Named :=
  runCalls ⟨booted, fun _ => 0, fun _ => 0, 1⟩ [.executeProcess 0 1 1 true, .schedule, .fork ⟨1, 1, true, true⟩,
    .schedule, .schedule, .fork ⟨1, 1, true, true⟩, .execve 1 false, .waitpid (some 2), .fork ⟨1, 1, true, true⟩]

/-- The program 3 is now the child of one that did not make it. -/
theorem reusedSlot_parent : ∃ w, reusedSlot = .ret w ∧ w.s.pcbSetStatus 3 = true ∧
    (w.s.pcbSet 3).parentPid = 2 ∧ w.who 2 ≠ w.creator 3 := by
  have hdecide : (reusedSlot >>= fun w => .ret (decide (w.s.pcbSetStatus 3 = true ∧
      (w.s.pcbSet 3).parentPid = 2 ∧ w.who 2 ≠ w.creator 3))).getD false = true := by decide +kernel
  cases hw : reusedSlot with
  | ret w =>
      rw [hw] at hdecide
      exact ⟨w, rfl, of_decide_eq_true hdecide⟩
  | halt =>
      rw [hw] at hdecide
      cases hdecide
  | diverge =>
      rw [hw] at hdecide
      cases hdecide

theorem not_noDangling : ¬ ∀ w, Reached (fun _ _ => True) w → NoDangling w := by
  intro h
  obtain ⟨w, hw, hused, hparent, hwho⟩ := reusedSlot_parent
  have hbooted : Reached (fun _ _ => True) ⟨booted, fun _ => 0, fun _ => 0, 1⟩ :=
    .boot (show boot 20 .RR 1 = .ret booted from rfl)
  rcases h w (hbooted.runCalls hw) 3 hused with h0 | h1 | ⟨-, -, hsame⟩
  · simp [hparent] at h0
  · simp [hparent] at h1
  · rw [hparent] at hsame
    exact hwho hsame

end Named

end SysuOs.Programs
