import SysuOs.ProgramReady

/-! The programs as a table: which slots are used, and whose child the program of a slot is. `Table` says
that `allPrograms` lists the used slots; it does not look at the ready queue, which no call can make
reach into `allPrograms`. Each call is then said to do a few things to the table. -/

namespace SysuOs.Programs

open ProgramManager

/-- The items of `allPrograms`, against those of the other lists. -/
def Item.isAll : Item → Bool
  | .allPrograms => true
  | .tagInAllList _ => true
  | _ => false

/-- `allPrograms` lists the used slots `l`, and each program knows its slot. -/
structure Table (s : ProgramManager) (l : List Nat) : Prop where
  separate : s.links.Separate Item.isAll
  all : Lists s.links {.allPrograms} fun _ => l.map .tagInAllList
  used : ∀ p, p ∈ l ↔ s.pcbSetStatus p = true
  pid : ∀ p ∈ l, (s.pcbSet p).pid = p
  lt : ∀ p ∈ l, p < MAX_PROGRAM_AMOUNT

/-- The control blocks differ in the scheduling of the program at most. -/
structure PCB.Same (a b : PCB) : Prop where
  pid : b.pid = a.pid
  parentPid : b.parentPid = a.parentPid
  retValue : b.retValue = a.retValue
  pageDirectoryAddress : b.pageDirectoryAddress = a.pageDirectoryAddress

theorem PCB.Same.refl {a : PCB} : PCB.Same a a := ⟨rfl, rfl, rfl, rfl⟩

theorem PCB.Same.trans {a b c : PCB} (h : PCB.Same a b) (h' : PCB.Same b c) : PCB.Same a c where
  pid := h'.pid.trans h.pid
  parentPid := h'.parentPid.trans h.parentPid
  retValue := h'.retValue.trans h.retValue
  pageDirectoryAddress := h'.pageDirectoryAddress.trans h.pageDirectoryAddress

/-- What a change of the running program does to the table: a program may be woken, none dies. -/
structure Switched (s s' : ProgramManager) : Prop where
  used : s'.pcbSetStatus = s.pcbSetStatus
  same : ∀ q, (s.pcbSet q).Same (s'.pcbSet q)
  dead : ∀ q, (s'.pcbSet q).status = .DEAD → (s.pcbSet q).status = .DEAD

theorem Switched.trans {s s₁ s' : ProgramManager} (h : Switched s s₁) (h' : Switched s₁ s') : Switched s s' where
  used := h'.used.trans h.used
  same q := (h.same q).trans (h'.same q)
  dead q hq := h.dead q (h'.dead q hq)

/-- A call that makes no program touches no used slot. -/
structure Unmade (s s' : ProgramManager) : Prop where
  used : s'.pcbSetStatus = s.pcbSetStatus
  others : ∀ q, s.pcbSetStatus q = true → s'.pcbSet q = s.pcbSet q
  running : s'.running = s.running

/-- A call that makes the program `p`, a child of the running one, takes a free slot for it. -/
structure Made (s s' : ProgramManager) (p : Nat) : Prop where
  free : s.pcbSetStatus p = false
  used : s'.pcbSetStatus = Function.update s.pcbSetStatus p true
  others : ∀ q, q ≠ p → s'.pcbSet q = s.pcbSet q
  parent : (s'.pcbSet p).parentPid = s.runningPid
  running : s'.running = s.running

namespace Table

variable {s s' : ProgramManager} {l : List Nat} {p : Nat} {fuel : Nat}

theorem nodup (h : Table s l) : l.Nodup := List.Nodup.of_map _ (h.all.nodup rfl)

theorem not_mem_of_free (h : Table s l) (hfree : s.pcbSetStatus p = false) : p ∉ l := by
  intro hmem
  rw [(h.used p).mp hmem] at hfree
  cases hfree

theorem length_le (h : Table s l) : l.length ≤ MAX_PROGRAM_AMOUNT := by
  have hsub : l ⊆ List.range MAX_PROGRAM_AMOUNT := fun p hp => List.mem_range.mpr (h.lt p hp)
  simpa using (h.nodup.subperm hsub).length_le

/-- Control blocks may be written if the programs keep their pids. -/
theorem congr (h : Table s l) (hlinks : s'.links = s.links) (hused : s'.pcbSetStatus = s.pcbSetStatus)
    (hpid : ∀ q ∈ l, (s'.pcbSet q).pid = (s.pcbSet q).pid) : Table s' l where
  separate := by rw [hlinks]; exact h.separate
  all := by rw [hlinks]; exact h.all
  used := by rw [hused]; exact h.used
  pid q hq := (hpid q hq).trans (h.pid q hq)
  lt := h.lt

theorem setPCB (h : Table s l) (pcb : PCB) (hpid : pcb.pid = (s.pcbSet p).pid) : Table (s.setPCB p pcb) l := by
  refine h.congr rfl rfl fun q hq => ?_
  by_cases hqp : q = p
  · subst hqp
    rw [setPCB_self, hpid]
  · rw [setPCB_of_ne hqp]

theorem setStatus (h : Table s l) (status : ProgramStatus) : Table (s.setStatus p status) l :=
  h.setPCB _ rfl

/-- The other lists are written. -/
theorem within {links : Links Item} (h : Table s l) (hsep : links.Separate Item.isAll)
    (hwithin : Links.Within s.links links Item.isAll false) : Table { s with links } l := by
  refine { h with separate := hsep, all := hwithin.lists h.all fun a ha => ?_ }
  obtain rfl := Set.mem_singleton_iff.mp ha
  refine ⟨by simp [Item.isAll], fun b hb => ?_⟩
  obtain ⟨q, -, rfl⟩ := List.mem_map.mp hb
  simp [Item.isAll]

theorem enqueue (h : Table s l) (he : s.enqueue fuel p = .ret s') : ∃ links, s' = { s with links } ∧ Table s' l := by
  obtain ⟨links, hpush, he⟩ := Outcome.bind_eq_ret he
  obtain rfl := Outcome.ret.inj he
  obtain ⟨hsep, hwithin⟩ := h.separate.pushBack (k := false) rfl rfl hpush
  exact ⟨links, rfl, h.within hsep hwithin⟩

theorem pickNext (h : Table s l) : ∃ links, s.pickNext.2 = { s with links } ∧ Table { s with links } l := by
  obtain ⟨hsep, hwithin⟩ : (s.links.popFront (.readyPrograms s.sType)).Separate Item.isAll ∧
      s.links.Within (s.links.popFront (.readyPrograms s.sType)) Item.isAll false := h.separate.popFront rfl
  exact ⟨_, rfl, h.within hsep hwithin⟩

/-! ### Changing the running program -/

theorem setStatus_switched (status : ProgramStatus) (hlive : status ≠ .DEAD) :
    Switched s (s.setStatus p status) := by
  refine ⟨rfl, fun q => ?_, fun q hq => ?_⟩ <;> by_cases hqp : q = p
  · subst hqp
    rw [ProgramManager.setStatus, setPCB_self]
    exact ⟨rfl, rfl, rfl, rfl⟩
  · rw [ProgramManager.setStatus, setPCB_of_ne hqp]
    exact .refl
  · subst hqp
    rw [ProgramManager.setStatus, setPCB_self] at hq
    exact absurd hq hlive
  · rwa [ProgramManager.setStatus, setPCB_of_ne hqp] at hq

theorem links_switched (links : Links Item) (running : Option Nat) : Switched s { s with links, running } :=
  ⟨rfl, fun _ => .refl, fun _ hq => hq⟩

theorem schedule (h : Table s l) (hs : s.schedule fuel = .ret s') : Table s' l ∧ Switched s s' := by
  obtain ⟨cur, hcur, hs⟩ := schedule_cases hs
  obtain ⟨links, hpick, hlinks⟩ := h.pickNext
  have hswitch : Switched s { s with links } := links_switched links s.running
  rcases hs with ⟨-, -, rfl⟩ | ⟨next, -, ⟨-, rfl⟩ | ⟨-, s₁, he, rfl⟩⟩
  · rw [hpick]
    exact ⟨hlinks, hswitch⟩
  · rw [hpick]
    refine ⟨(hlinks.setStatus .RUNNING).congr rfl rfl fun _ _ => rfl, ?_⟩
    exact (hswitch.trans (setStatus_switched .RUNNING (by simp))).trans (links_switched _ (some next))
  · rw [hpick] at he
    obtain ⟨links', rfl, h₁⟩ := ((hlinks.setStatus .RUNNING).setStatus .READY).enqueue he
    refine ⟨h₁.congr rfl rfl fun _ _ => rfl, ?_⟩
    have hready := (hswitch.trans (setStatus_switched (p := next) .RUNNING (by simp))).trans
      (setStatus_switched (p := cur) .READY (by simp))
    exact hready.trans (links_switched links' (some next))

theorem onTick (h : Table s l) : Table s.onTick.2 l ∧ Switched s s.onTick.2 := by
  rw [ProgramManager.onTick]
  split
  · exact ⟨h, rfl, fun _ => .refl, fun _ hq => hq⟩
  · next running hrunning =>
      dsimp only
      split
      · exact ⟨h, rfl, fun _ => .refl, fun _ hq => hq⟩
      · split
        · refine ⟨h.setPCB _ rfl, rfl, fun q => ?_, fun q hq => ?_⟩ <;> by_cases hqr : q = running
          · subst hqr
            rw [setPCB_self]
            exact ⟨rfl, rfl, rfl, rfl⟩
          · rw [setPCB_of_ne hqr]
            exact .refl
          · subst hqr
            rwa [setPCB_self] at hq
          · rwa [setPCB_of_ne hqr] at hq
        · exact ⟨h, rfl, fun _ => .refl, fun _ hq => hq⟩

theorem timeInterrupt (h : Table s l) (ht : s.timeInterrupt fuel = .ret s') : Table s' l ∧ Switched s s' := by
  obtain ⟨h₁, hswitch⟩ := h.onTick
  rw [ProgramManager.timeInterrupt] at ht
  dsimp only at ht
  split at ht
  · obtain ⟨h', hswitch'⟩ := h₁.schedule ht
    exact ⟨h', hswitch.trans hswitch'⟩
  · obtain rfl := Outcome.ret.inj ht
    exact ⟨h₁, hswitch⟩

end Table

/-- A dead program stays dead: it is not in the ready queue. -/
theorem Scheduled.schedule_dead {s s' : ProgramManager} {C : Item → List Item} {fuel q : Nat}
    (h : Scheduled s C) (hs : s.schedule fuel = .ret s') (hq : (s.pcbSet q).status = .DEAD) :
    (s'.pcbSet q).status = .DEAD := by
  have hkeep : ∀ (t : ProgramManager) p status, q ≠ p → ((t.setStatus p status).pcbSet q).status = (t.pcbSet q).status :=
    fun t p status hqp => by rw [ProgramManager.setStatus, setPCB_of_ne hqp]
  obtain ⟨cur, hcur, hs⟩ := schedule_cases hs
  rcases h.pickNext with ⟨-, hpick⟩ | ⟨p, l, links, hC, hpick, -, -⟩
  · rcases hs with ⟨-, -, rfl⟩ | ⟨next, hnext, -⟩
    · rwa [hpick]
    · simp [hpick] at hnext
  · have hpready := (h.mem_ready (hC ▸ List.mem_cons_self)).1
    have hqp : q ≠ p := fun he => by
      rw [he, hpready] at hq
      simp at hq
    rw [hpick] at hs
    rcases hs with ⟨hno, -⟩ | ⟨next, hnext, ⟨-, rfl⟩ | ⟨hlive, s₁, he, rfl⟩⟩
    · simp at hno
    · obtain rfl := Option.some.inj hnext
      exact (hkeep _ _ _ hqp).trans hq
    · obtain rfl := Option.some.inj hnext
      have hqc : q ≠ cur := fun he => hlive (he ▸ hq)
      obtain ⟨links', -, he⟩ := Outcome.bind_eq_ret he
      obtain rfl := Outcome.ret.inj he
      exact ((hkeep _ _ _ hqc).trans (hkeep _ _ _ hqp)).trans hq

theorem Scheduled.timeInterrupt_dead {s s' : ProgramManager} {C : Item → List Item} {fuel q : Nat}
    (h : Scheduled s C) (ht : s.timeInterrupt fuel = .ret s') (hq : (s.pcbSet q).status = .DEAD) :
    (s'.pcbSet q).status = .DEAD := by
  have htick : (∃ C, Scheduled s.onTick.2 C) ∧ (s.onTick.2.pcbSet q).status = .DEAD := by
    rw [ProgramManager.onTick]
    split
    · exact ⟨⟨C, h⟩, hq⟩
    · next running hrunning =>
        dsimp only
        split
        · exact ⟨⟨C, h⟩, hq⟩
        · split
          · refine ⟨⟨C, h.setFresh (h.running_free hrunning) _⟩, ?_⟩
            by_cases hqr : q = running
            · subst hqr
              rwa [setPCB_self]
            · rwa [setPCB_of_ne hqr]
          · exact ⟨⟨C, h⟩, hq⟩
  obtain ⟨⟨C', h'⟩, hq'⟩ := htick
  rw [ProgramManager.timeInterrupt] at ht
  dsimp only at ht
  split at ht
  · exact h'.schedule_dead ht hq'
  · obtain rfl := Outcome.ret.inj ht
    exact hq'

/-! ### Making programs -/

namespace Table

variable {s s' : ProgramManager} {l : List Nat} {p : Nat} {fuel : Nat}

/-- A free slot is put to use. -/
theorem push {links : Links Item} (h : Table s l) (pcbSet : Nat → PCB) (hfree : s.pcbSetStatus p = false)
    (hlt : p < MAX_PROGRAM_AMOUNT) (hpid : (pcbSet p).pid = p) (hothers : ∀ q, q ≠ p → pcbSet q = s.pcbSet q)
    (hpush : s.links.pushBack fuel .allPrograms (.tagInAllList p) = .ret links) :
    Table { s with links, pcbSet, pcbSetStatus := Function.update s.pcbSetStatus p true } (l ++ [p]) := by
  have hp := h.not_mem_of_free hfree
  obtain ⟨hsep, -⟩ := h.separate.pushBack (k := true) rfl rfl hpush
  have hall := h.all.pushBack (Set.mem_singleton _) (by simp) (fun k _ hmem => by simp [hp] at hmem) hpush
  refine ⟨hsep, ?_, fun q => ?_, fun q hq => ?_, fun q hq => ?_⟩
  · refine ⟨fun a ha => ?_, fun a ha => ?_, fun a ha b hb => ?_, fun a ha b hb _ _ _ => ?_⟩
    all_goals obtain rfl := Set.mem_singleton_iff.mp ha
    · simpa using hall.walk _ rfl
    · simpa using hall.back _ rfl
    · simp
    · exact (Set.mem_singleton_iff.mp hb).symm
  · show _ ↔ Function.update s.pcbSetStatus p true q = true
    by_cases hqp : q = p
    · subst hqp
      simp
    · rw [Function.update_of_ne hqp, ← h.used q]
      simp [hqp]
  all_goals rcases List.mem_append.mp hq with hq | hq
  · have hqp : q ≠ p := fun he => hp (he ▸ hq)
    exact (congrArg PCB.pid (hothers q hqp)).trans (h.pid q hq)
  · rwa [List.mem_singleton.mp hq]
  · exact h.lt q hq
  · rwa [List.mem_singleton.mp hq]

theorem executeThread {priority : Int} {needEnqueue : Bool} {argv : Nat} {pid : Option Nat} (h : Table s l)
    (he : s.executeThread fuel priority needEnqueue argv = .ret (pid, s')) :
    (pid = none → Table s' l ∧ Unmade s s') ∧
    ∀ p, pid = some p → Table s' (l ++ [p]) ∧ Made s s' p ∧ (s'.pcbSet p).retValue = 0 ∧
      (s'.pcbSet p).pageDirectoryAddress = 0 ∧ (s'.pcbSet p).status ≠ .DEAD := by
  rw [ProgramManager.executeThread] at he
  split at he
  · obtain ⟨rfl, rfl⟩ := Prod.mk.inj (Outcome.ret.inj he)
    exact ⟨fun _ => ⟨h, rfl, fun _ _ => rfl, rfl⟩, fun p hp => by simp at hp⟩
  · next thread s₁ ha =>
      have hlt : thread < MAX_PROGRAM_AMOUNT := by
        rw [allocatePCB] at ha
        split at ha
        · simp at ha
        · next i hi =>
            obtain ⟨rfl, -⟩ := Prod.mk.inj (Option.some.inj ha)
            exact List.mem_range.mp (List.mem_of_find?_eq_some hi)
      obtain ⟨hfree, hs₁⟩ := allocatePCB_some ha
      have hinit : ∃ pcb : PCB, s₁.initPCB thread s.runningPid priority argv = { s with
            pcbSetStatus := Function.update s.pcbSetStatus thread true
            pcbSet := Function.update s.pcbSet thread pcb } ∧
          (pcb.pid = thread ∧ pcb.parentPid = s.runningPid) ∧ pcb.retValue = 0 ∧
          pcb.pageDirectoryAddress = 0 ∧ pcb.status ≠ .DEAD := by
        subst hs₁
        refine ⟨{ PCB.zero with
          priority, ticks := (priority * 10).bmod (2 ^ 32), pid := thread, parentPid := s.runningPid, argv }, ?_,
          ⟨rfl, rfl⟩, rfl, rfl, by simp [PCB.zero]⟩
        simp only [initPCB, ProgramManager.setPCB, Function.update_idem, Function.update_self]
        rfl
      obtain ⟨pcb, hpcb, ⟨hpid, hparent⟩, hrest⟩ := hinit
      have hnew : ∀ q, q ≠ thread → Function.update s.pcbSet thread pcb q = s.pcbSet q := fun q hq =>
        Function.update_of_ne hq _ _
      have hself : Function.update s.pcbSet thread pcb thread = pcb := Function.update_self _ _ _
      dsimp only at he
      rw [hpcb] at he
      split at he
      · obtain ⟨rfl, rfl⟩ := Prod.mk.inj (Outcome.ret.inj he)
        have hused : Function.update (Function.update s.pcbSetStatus thread true) thread false = s.pcbSetStatus := by
          rw [Function.update_idem, ← hfree, Function.update_eq_self]
        have hothers : ∀ q, s.pcbSetStatus q = true → Function.update s.pcbSet thread pcb q = s.pcbSet q := by
          intro q hq
          exact hnew q fun he => by simp [he, hfree] at hq
        exact ⟨fun _ => ⟨h.congr rfl hused fun q hq => congrArg PCB.pid (hothers q ((h.used q).mp hq)),
          hused, hothers, rfl⟩, fun p hp => by simp at hp⟩
      · obtain ⟨links, hpush, he⟩ := Outcome.bind_eq_ret he
        have h₁ := h.push (Function.update s.pcbSet thread pcb) hfree hlt
          (by rwa [Function.update_self]) hnew hpush
        cases needEnqueue with
        | false =>
            obtain ⟨rfl, rfl⟩ := Prod.mk.inj (Outcome.ret.inj he)
            refine ⟨fun hp => by simp at hp, fun p hp => ?_⟩
            obtain rfl := Option.some.inj hp
            refine ⟨h₁, ⟨hfree, rfl, hnew, (congrArg PCB.parentPid hself).trans hparent, rfl⟩,
              (congrArg PCB.retValue hself).trans hrest.1,
              (congrArg PCB.pageDirectoryAddress hself).trans hrest.2.1,
              fun hdead => hrest.2.2 ((congrArg PCB.status hself).symm.trans hdead)⟩
        | true =>
            obtain ⟨s₂, he₂, he⟩ := Outcome.bind_eq_ret he
            obtain ⟨rfl, rfl⟩ := Prod.mk.inj (Outcome.ret.inj he)
            obtain ⟨links', rfl, h₂⟩ := (h₁.setStatus .READY).enqueue he₂
            refine ⟨fun hp => by simp at hp, fun p hp => ?_⟩
            obtain rfl := Option.some.inj hp
            refine ⟨h₂, ⟨hfree, rfl, fun q hq => ?_, ?_, rfl⟩, ?_⟩
            · exact (setPCB_of_ne hq).trans (hnew q hq)
            all_goals simp only [ProgramManager.setStatus, setPCB_self, Function.update_self]
            · exact hparent
            · exact ⟨hrest.1, hrest.2.1, by simp⟩

/-- A write to the control block of a program just made. -/
theorem made_setPCB {s₁ : ProgramManager} (h : Table s₁ l) (hm : Made s s₁ p) (pcb : PCB)
    (hpid : pcb.pid = (s₁.pcbSet p).pid) (hparent : pcb.parentPid = (s₁.pcbSet p).parentPid) :
    Table (s₁.setPCB p pcb) l ∧ Made s (s₁.setPCB p pcb) p := by
  refine ⟨h.setPCB pcb hpid, { hm with others := fun q hq => ?_, parent := ?_ }⟩
  · exact (setPCB_of_ne hq).trans (hm.others q hq)
  · rw [setPCB_self, hparent]
    exact hm.parent

theorem made_copyPCB {s₁ : ProgramManager} {parent : Nat} (h : Table s₁ l) (hm : Made s s₁ p)
    (hpid : (s₁.pcbSet parent).pid = (s₁.pcbSet p).parentPid) :
    Table (s₁.copyPCB parent p) l ∧ Made s (s₁.copyPCB parent p) p := h.made_setPCB hm _ rfl hpid

theorem executeProcess {priority : Int} {argv pageDirectory : Nat} {userVirtual : Bool} {pid : Option Nat}
    (h : Table s l) (he : s.executeProcess fuel priority argv pageDirectory userVirtual = .ret (pid, s')) :
    Table s' l ∧ Unmade s s' ∧ pid = none ∨
    ∃ p, Table s' (l ++ [p]) ∧ Made s s' p ∧ (pid = none ∨ pid = some p ∧ (s'.pcbSet p).status ≠ .DEAD) := by
  obtain ⟨⟨made, s₁⟩, hthread, he⟩ := Outcome.bind_eq_ret he
  obtain ⟨hnone, hsome⟩ := h.executeThread hthread
  cases made with
  | none =>
      obtain ⟨rfl, rfl⟩ := Prod.mk.inj (Outcome.ret.inj he)
      exact .inl ⟨(hnone rfl).1, (hnone rfl).2, rfl⟩
  | some p =>
      right
      obtain ⟨h₁, hm₁, -, -, -⟩ := hsome p rfl
      obtain ⟨h₂, hm₂⟩ := h₁.made_setPCB hm₁ { s₁.pcbSet p with pageDirectoryAddress := pageDirectory } rfl rfl
      dsimp only at he
      split at he
      · obtain ⟨rfl, rfl⟩ := Prod.mk.inj (Outcome.ret.inj he)
        obtain ⟨h₃, hm₃⟩ := h₂.made_setPCB hm₂ { (s₁.setPCB p _).pcbSet p with status := .DEAD } rfl rfl
        exact ⟨p, h₃, hm₃, .inl rfl⟩
      · obtain ⟨s₃, he₃, he⟩ := Outcome.bind_eq_ret he
        obtain ⟨rfl, rfl⟩ := Prod.mk.inj (Outcome.ret.inj he)
        obtain ⟨h₃, hm₃⟩ := h₂.made_setPCB hm₂ { (s₁.setPCB p _).pcbSet p with status := .READY } rfl rfl
        obtain ⟨links, rfl, h₄⟩ := h₃.enqueue he₃
        refine ⟨p, h₄, { hm₃ with }, .inr ⟨rfl, ?_⟩⟩
        simp

/-- `fork` makes a child of the running program, ready or, if memory runs out, dead. -/
theorem fork {r : ForkAllocations} {pid : Option Nat} (h : Table s l)
    (hrun : ∀ q, s.running = some q → q ∈ l) (hf : s.fork fuel r = .ret (pid, s')) :
    Table s' l ∧ Unmade s s' ∧ pid = none ∨
    ∃ p, Table s' (l ++ [p]) ∧ Made s s' p ∧ (pid = some p ∧ (s'.pcbSet p).status = .READY ∨
      pid = none ∧ (s'.pcbSet p).status = .DEAD ∧ (r.pageDirectory = 0 ∨ r.setupCOWPages = false)) := by
  rw [ProgramManager.fork] at hf
  split at hf
  · simp at hf
  · next parent hparent =>
      split at hf
      · obtain ⟨rfl, rfl⟩ := Prod.mk.inj (Outcome.ret.inj hf)
        exact .inl ⟨h, ⟨rfl, fun _ _ => rfl, rfl⟩, rfl⟩
      · obtain ⟨⟨made, s₁⟩, hthread, hf⟩ := Outcome.bind_eq_ret hf
        obtain ⟨hnone, hsome⟩ := h.executeThread hthread
        cases made with
        | none =>
            obtain ⟨rfl, rfl⟩ := Prod.mk.inj (Outcome.ret.inj hf)
            exact .inl ⟨(hnone rfl).1, (hnone rfl).2, rfl⟩
        | some p =>
            right
            obtain ⟨h₁, hm₁, -, -, -⟩ := hsome p rfl
            -- the parent is not the child, which had a free slot
            have hne : parent ≠ p := fun he => by
              have hfree := hm₁.free
              rw [← he, (h.used parent).mp (hrun parent hparent)] at hfree
              simp at hfree
            have hpid : (s₁.pcbSet parent).pid = (s₁.pcbSet p).parentPid := by
              rw [hm₁.others parent hne, hm₁.parent, runningPid, hparent]
              rfl
            obtain ⟨h₂, hm₂⟩ := h₁.made_setPCB hm₁ { s₁.pcbSet p with
              needFork := true, pageDirectoryAddress := r.pageDirectory } rfl rfl
            dsimp only at hf
            split at hf
            · next hdir =>
                obtain ⟨rfl, rfl⟩ := Prod.mk.inj (Outcome.ret.inj hf)
                obtain ⟨h₃, hm₃⟩ := h₂.made_setPCB hm₂ { (s₁.setPCB p _).pcbSet p with status := .DEAD } rfl rfl
                exact ⟨p, h₃, hm₃, .inr ⟨rfl, by simp [ProgramManager.setStatus], .inl hdir⟩⟩
            · obtain ⟨-, -, hf⟩ := Outcome.bind_eq_ret hf
              obtain ⟨h₃, hm₃⟩ := h₂.made_copyPCB hm₂ (by rw [setPCB_of_ne hne, setPCB_self, hpid])
              split at hf
              · obtain ⟨rfl, rfl⟩ := Prod.mk.inj (Outcome.ret.inj hf)
                exact ⟨p, h₃, hm₃, .inl ⟨rfl, by simp [copyPCB]⟩⟩
              · next hcopy =>
                  obtain ⟨rfl, rfl⟩ := Prod.mk.inj (Outcome.ret.inj hf)
                  obtain ⟨h₄, hm₄⟩ := h₃.made_setPCB hm₃ { (ProgramManager.copyPCB _ parent p).pcbSet p with
                    status := .DEAD } rfl rfl
                  exact ⟨p, h₄, hm₄, .inr ⟨rfl, by simp [ProgramManager.setStatus], .inr (by simpa using hcopy)⟩⟩

end Table

/-! ### Ending programs -/

namespace ProgramManager

/-- The children of `p` among the programs `l` go to pid 1. -/
def adopt (s : ProgramManager) (p : Nat) (l : List Nat) : ProgramManager :=
  { s with pcbSet := fun q =>
      if q ∈ l ∧ q ≠ p ∧ (s.pcbSet q).parentPid = (s.pcbSet p).pid then { s.pcbSet q with parentPid := 1 }
      else s.pcbSet q }

/-- The table when `exit` of the program `p` gives up the processor. -/
def leave (s : ProgramManager) (p : Nat) (ret : Int) (l : List Nat) : ProgramManager :=
  (s.setPCB p { s.pcbSet p with retValue := ret, status := .DEAD }).adopt p l

/-- The running program is a parent of `q`, which answers to `pid`. -/
def isChild (s : ProgramManager) (pid : Option Nat) (q : Nat) : Prop :=
  (s.pcbSet q).parentPid = s.runningPid ∧ (pid = none ∨ pid = some (s.pcbSet q).pid)

instance (s : ProgramManager) (pid : Option Nat) (q : Nat) : Decidable (s.isChild pid q) :=
  inferInstanceAs (Decidable (_ ∧ _))

/-- What a round of the loop of `waitpid` returns: -1, nothing yet, or the pid of a child with the value it
left. -/
inductive Answer where
  | noChild
  | again
  | child (childPid : Nat) (retval : Int)
  deriving DecidableEq

/-- A round of the loop of `waitpid`, with what it returns. -/
def waitpidRound (fuel : Nat) (s : ProgramManager) (pid : Option Nat) : Outcome (Answer × ProgramManager) := do
  match ← s.scanLoop pid fuel (s.links.front .allPrograms) .noChild with
  | .noChild => pure (.noChild, s)
  | .noZombie => do
      let s ← s.schedule fuel
      pure (.again, s)
  | .zombie zombie => do
      let answer := .child (s.pcbSet zombie).pid (s.pcbSet zombie).retValue
      let s ← s.releasePCB fuel zombie
      pure (answer, s)

/-- The states are those of `waitpid`. -/
theorem waitpid_eq (fuel : Nat) (s : ProgramManager) (pid : Option Nat) :
    s.waitpid fuel pid = (do let (_, s) ← s.waitpidRound fuel pid; pure s) := by
  rw [waitpid, waitpidRound]
  cases s.scanLoop pid fuel (s.links.front .allPrograms) .noChild with
  | halt => rfl
  | diverge => rfl
  | ret scan =>
      cases scan with
      | noChild => rfl
      | noZombie =>
          simp only [Outcome.ret_bind]
          cases s.schedule fuel <;> rfl
      | zombie zombie =>
          simp only [Outcome.ret_bind]
          cases s.releasePCB fuel zombie <;> rfl

variable {s s' : ProgramManager} {p fuel : Nat} {item : Option Item} {l : List Nat}

theorem adopt_nil : s.adopt p [] = s := by simp [adopt]

/-- The first program of the list is adopted before the others. -/
theorem adopt_cons {q : Nat} (hq : q ∉ l) :
    (if q ≠ p ∧ (s.pcbSet q).parentPid = (s.pcbSet p).pid then
      s.setPCB q { s.pcbSet q with parentPid := 1 } else s).adopt p l = s.adopt p (q :: l) := by
  split
  · next hchild =>
      have hpid : ((s.setPCB q { s.pcbSet q with parentPid := 1 }).pcbSet p).pid = (s.pcbSet p).pid := by
        rw [setPCB_of_ne (Ne.symm hchild.1)]
      simp only [adopt, hpid]
      show ProgramManager.mk _ _ _ _ _ = ProgramManager.mk _ _ _ _ _
      congr 1
      funext r
      by_cases hr : r = q
      · subst hr
        simp [hq, hchild]
      · simp [setPCB_of_ne hr, hr]
  · next hno =>
      simp only [adopt]
      congr 1
      funext r
      by_cases hr : r = q
      · subst hr
        simp [hq, hno]
      · simp [hr]

theorem leave_self {ret : Int} :
    (s.leave p ret l).pcbSet p = { s.pcbSet p with retValue := ret, status := .DEAD } := by
  simp [leave, adopt]

theorem leave_of_ne {ret : Int} {q : Nat} (hq : q ≠ p) :
    (s.leave p ret l).pcbSet q =
      if q ∈ l ∧ (s.pcbSet q).parentPid = (s.pcbSet p).pid then { s.pcbSet q with parentPid := 1 }
      else s.pcbSet q := by
  simp [leave, adopt, setPCB_of_ne hq, hq]

theorem orphanLoop_spec (hwalk : Walk s.links.next item (l.map .tagInAllList)) (hnodup : l.Nodup)
    (ho : orphanLoop p fuel item s = .ret s') : s' = s.adopt p l := by
  induction l generalizing fuel item s with
  | nil =>
      obtain rfl : item = none := hwalk
      cases fuel with
      | zero => simp [orphanLoop] at ho
      | succ fuel => rw [adopt_nil, ← Outcome.ret.inj ho]
  | cons q l ih =>
      obtain ⟨rfl, hl⟩ := hwalk
      obtain ⟨hq, hnodup⟩ := List.nodup_cons.mp hnodup
      cases fuel with
      | zero => simp [orphanLoop] at ho
      | succ fuel =>
          rw [← adopt_cons hq]
          refine ih ?_ hnodup ho
          split <;> exact hl

theorem orphanLoop_returns (hwalk : Walk s.links.next item (l.map .tagInAllList)) (hfuel : l.length < fuel) :
    ∃ s', orphanLoop p fuel item s = .ret s' := by
  induction l generalizing fuel item s with
  | nil =>
      obtain rfl : item = none := hwalk
      obtain ⟨fuel, rfl⟩ := Nat.exists_eq_add_of_lt hfuel
      exact ⟨s, rfl⟩
  | cons q l ih =>
      obtain ⟨rfl, hl⟩ := hwalk
      cases fuel with
      | zero => simp at hfuel
      | succ fuel =>
          rw [orphanLoop]
          refine ih ?_ (Nat.lt_of_succ_lt_succ hfuel)
          split <;> exact hl

/-- The scan ends at a dead child, or has seen a child or none. -/
theorem scanLoop_cases {pid : Option Nat} {found r : Scan} (hwalk : Walk s.links.next item (l.map .tagInAllList))
    (hs : s.scanLoop pid fuel item found = .ret r) :
    (∃ z ∈ l, r = .zombie z ∧ s.isChild pid z ∧ (s.pcbSet z).status = .DEAD) ∨
    (r = .noZombie ∧ ∃ q ∈ l, s.isChild pid q) ∨ r = found ∧ ∀ q ∈ l, ¬ s.isChild pid q := by
  induction l generalizing fuel item found with
  | nil =>
      obtain rfl : item = none := hwalk
      cases fuel with
      | zero => simp [scanLoop] at hs
      | succ fuel => exact .inr (.inr ⟨(Outcome.ret.inj hs).symm, by simp⟩)
  | cons q l ih =>
      obtain ⟨rfl, hl⟩ := hwalk
      cases fuel with
      | zero => simp [scanLoop] at hs
      | succ fuel =>
          simp only [scanLoop, Item.pcb] at hs
          split at hs
          · next hchild =>
              split at hs
              · next hdead =>
                  exact .inl ⟨q, List.mem_cons_self, (Outcome.ret.inj hs).symm, hchild, hdead⟩
              · rcases ih hl hs with ⟨z, hz, hr⟩ | ⟨hr, -⟩ | ⟨hr, -⟩
                · exact .inl ⟨z, List.mem_cons_of_mem q hz, hr⟩
                · exact .inr (.inl ⟨hr, q, List.mem_cons_self, hchild⟩)
                · exact .inr (.inl ⟨hr, q, List.mem_cons_self, hchild⟩)
          · next hno =>
              rcases ih hl hs with ⟨z, hz, hr⟩ | ⟨hr, z, hz, hchild⟩ | ⟨hr, hall⟩
              · exact .inl ⟨z, List.mem_cons_of_mem q hz, hr⟩
              · exact .inr (.inl ⟨hr, z, List.mem_cons_of_mem q hz, hchild⟩)
              · refine .inr (.inr ⟨hr, fun z hz => ?_⟩)
                rcases List.mem_cons.mp hz with rfl | hz
                · exact hno
                · exact hall z hz

theorem scanLoop_returns {pid : Option Nat} {found : Scan} (hwalk : Walk s.links.next item (l.map .tagInAllList))
    (hfuel : l.length < fuel) : ∃ r, s.scanLoop pid fuel item found = .ret r := by
  induction l generalizing fuel item found with
  | nil =>
      obtain rfl : item = none := hwalk
      obtain ⟨fuel, rfl⟩ := Nat.exists_eq_add_of_lt hfuel
      exact ⟨found, rfl⟩
  | cons q l ih =>
      obtain ⟨rfl, hl⟩ := hwalk
      cases fuel with
      | zero => simp at hfuel
      | succ fuel =>
          simp only [scanLoop, Item.pcb]
          split
          · split
            · exact ⟨_, rfl⟩
            · exact ih hl (by simpa using hfuel)
          · exact ih hl (by simpa using hfuel)

end ProgramManager

namespace Table

variable {s s' : ProgramManager} {l : List Nat} {p : Nat} {fuel : Nat}

theorem walk (h : Table s l) : Walk s.links.next (s.links.front .allPrograms) (l.map .tagInAllList) :=
  h.all.walk _ rfl

theorem adopt (h : Table s l) : Table (s.adopt p l) l := by
  refine h.congr rfl rfl fun q _ => ?_
  simp only [ProgramManager.adopt]
  split <;> rfl

theorem left (h : Table s l) (ret : Int) : Table (s.leave p ret l) l := by
  have h₁ := h.setPCB (p := p) { s.pcbSet p with retValue := ret, status := .DEAD } rfl
  exact h₁.adopt

/-- `exit` gives the children of the running program to pid 1 and gives up the processor. -/
theorem exit_eq {ret : Int} (h : Table s l) (hrun : s.running = some p) (hfuel : l.length < fuel) :
    s.exit fuel ret = (s.leave p ret l).schedule fuel := by
  have h₁ := h.setPCB (p := p) { s.pcbSet p with retValue := ret, status := .DEAD } rfl
  obtain ⟨s₁, ho⟩ := orphanLoop_returns (p := p) h₁.walk hfuel
  rw [ProgramManager.exit, hrun]
  show (orphanLoop p fuel _ _ >>= _) = _
  rw [ho, orphanLoop_spec h₁.walk h₁.nodup ho]
  rfl

theorem exit {ret : Int} (h : Table s l) (hrun : s.running = some p) (he : s.exit fuel ret = .ret s') :
    (s.leave p ret l).schedule fuel = .ret s' := by
  have h₁ := h.setPCB (p := p) { s.pcbSet p with retValue := ret, status := .DEAD } rfl
  rw [ProgramManager.exit, hrun] at he
  obtain ⟨s₁, ho, he⟩ := Outcome.bind_eq_ret he
  rwa [leave, ← orphanLoop_spec h₁.walk h₁.nodup ho]

/-- The slot of a program is given back. -/
theorem releasePCB (h : Table s l) (hr : s.releasePCB fuel p = .ret s') :
    Table s' (l.erase p) ∧ s'.pcbSetStatus = Function.update s.pcbSetStatus p false ∧
      (∀ q, q ≠ p → s'.pcbSet q = s.pcbSet q) ∧ s'.running = s.running := by
  obtain ⟨links, herase, hr⟩ := Outcome.bind_eq_ret hr
  obtain rfl := Outcome.ret.inj hr
  have h₁ := h.setPCB (p := p) { s.pcbSet p with argv := 0 } rfl
  obtain ⟨hsep, -⟩ := h₁.separate.erase (k := true) rfl herase
  have hall := h₁.all.erase (Set.mem_singleton _) herase
  have hmem : ∀ q, q ∈ l.erase p ↔ q ≠ p ∧ q ∈ l := fun q => h.nodup.mem_erase_iff
  refine ⟨⟨hsep, ?_, fun q => ?_, fun q hq => ?_, fun q hq => h.lt q ((hmem q).mp hq).2⟩, rfl,
    fun q hq => setPCB_of_ne hq, rfl⟩
  · have hmap : (l.map Item.tagInAllList).erase (.tagInAllList p) = (l.erase p).map .tagInAllList :=
      (List.map_erase (fun _ _ => Item.tagInAllList.inj) l).symm
    rw [hmap] at hall
    refine ⟨fun a ha => ?_, fun a ha => ?_, fun a ha b hb => ?_, fun a ha b hb _ _ _ => ?_⟩
    all_goals obtain rfl := Set.mem_singleton_iff.mp ha
    · simpa using hall.walk _ rfl
    · simpa using hall.back _ rfl
    · simp
    · exact (Set.mem_singleton_iff.mp hb).symm
  · show _ ↔ Function.update s.pcbSetStatus p false q = true
    rw [hmem q, h.used q]
    by_cases hqp : q = p
    · subst hqp
      simp
    · simp [hqp]
  · obtain ⟨hqp, hql⟩ := (hmem q).mp hq
    exact (congrArg PCB.pid (setPCB_of_ne hqp)).trans (h.pid q hql)

/-- What a round of `waitpid` does: a child that it returns was dead, and its slot is free now. -/
theorem waitpidRound {pid : Option Nat} {answer : Answer} (h : Table s l)
    (hw : s.waitpidRound fuel pid = .ret (answer, s')) :
    (answer = .noChild ∧ s' = s ∧ ∀ q ∈ l, ¬ s.isChild pid q) ∨
    (answer = .again ∧ s.schedule fuel = .ret s' ∧ ∃ q ∈ l, s.isChild pid q) ∨
    ∃ z ∈ l, answer = .child z (s.pcbSet z).retValue ∧ s.isChild pid z ∧ (s.pcbSet z).status = .DEAD ∧
      s.releasePCB fuel z = .ret s' := by
  obtain ⟨scan, hscan, hw⟩ := Outcome.bind_eq_ret hw
  rcases scanLoop_cases h.walk hscan with ⟨z, hz, rfl, hchild, hdead⟩ | ⟨rfl, hchild⟩ | ⟨rfl, hno⟩
  · obtain ⟨s₁, hr, hw⟩ := Outcome.bind_eq_ret hw
    obtain ⟨rfl, rfl⟩ := Prod.mk.inj (Outcome.ret.inj hw)
    exact .inr (.inr ⟨z, hz, by rw [h.pid z hz], hchild, hdead, hr⟩)
  · obtain ⟨s₁, hs, hw⟩ := Outcome.bind_eq_ret hw
    obtain ⟨rfl, rfl⟩ := Prod.mk.inj (Outcome.ret.inj hw)
    exact .inr (.inl ⟨rfl, hs, hchild⟩)
  · obtain ⟨rfl, rfl⟩ := Prod.mk.inj (Outcome.ret.inj hw)
    exact .inl ⟨rfl, rfl, hno⟩

/-- A round of `waitpid` returns -1 exactly when no program that answers to `pid` has the caller as its
parent. -/
theorem waitpidRound_noChild (h : Table s l) (hfuel : l.length < fuel) (pid : Option Nat) :
    (∃ s', s.waitpidRound fuel pid = .ret (.noChild, s')) ↔ ∀ q ∈ l, ¬ s.isChild pid q := by
  constructor
  · rintro ⟨s', hw⟩
    rcases h.waitpidRound hw with ⟨-, -, hno⟩ | ⟨hno, -⟩ | ⟨z, -, hno, -⟩
    · exact hno
    · simp at hno
    · simp at hno
  · intro hno
    obtain ⟨r, hr⟩ : ∃ r, s.scanLoop pid fuel (s.links.front .allPrograms) .noChild = .ret r :=
      scanLoop_returns h.walk hfuel
    rcases scanLoop_cases h.walk hr with ⟨z, hz, -, hchild, -⟩ | ⟨-, q, hq, hchild⟩ | ⟨rfl, -⟩
    · exact absurd hchild (hno z hz)
    · exact absurd hchild (hno q hq)
    · exact ⟨s, by rw [ProgramManager.waitpidRound, hr]; rfl⟩

end Table

/-- The slot of a new program is the first free one. -/
theorem executeThread_least {s s' : ProgramManager} {fuel p argv : Nat} {priority : Int} {needEnqueue : Bool}
    (he : s.executeThread fuel priority needEnqueue argv = .ret (some p, s')) :
    ∀ q < p, s.pcbSetStatus q = true := by
  rw [ProgramManager.executeThread] at he
  split at he
  · simp at he
  · next thread s₁ ha =>
      have hp : thread = p := by
        dsimp only at he
        split at he
        · simp at he
        · obtain ⟨links, -, he⟩ := Outcome.bind_eq_ret he
          cases needEnqueue with
          | false => exact Option.some.inj (Prod.mk.inj (Outcome.ret.inj he)).1
          | true =>
              obtain ⟨s₂, -, he⟩ := Outcome.bind_eq_ret he
              exact Option.some.inj (Prod.mk.inj (Outcome.ret.inj he)).1
      subst hp
      rw [allocatePCB] at ha
      split at ha
      · simp at ha
      · next i hi =>
          obtain ⟨rfl, -⟩ := Prod.mk.inj (Option.some.inj ha)
          simpa using (List.find?_range_eq_some.mp hi).2.2

theorem executeProcess_least {s s' : ProgramManager} {fuel p argv pageDirectory : Nat} {priority : Int}
    {userVirtual : Bool} (he : s.executeProcess fuel priority argv pageDirectory userVirtual = .ret (some p, s')) :
    ∀ q < p, s.pcbSetStatus q = true := by
  obtain ⟨⟨made, s₁⟩, hthread, he⟩ := Outcome.bind_eq_ret he
  cases made with
  | none => simp at he
  | some process =>
      dsimp only at he
      split at he
      · simp at he
      · obtain ⟨s₂, -, he⟩ := Outcome.bind_eq_ret he
        obtain rfl := Option.some.inj (Prod.mk.inj (Outcome.ret.inj he)).1
        exact executeThread_least hthread

theorem Scheduled.adopt {s : ProgramManager} {C : Item → List Item} (h : Scheduled s C) (p : Nat) (l : List Nat) :
    Scheduled (s.adopt p l) C := by
  refine { h with ready := fun a ha => ?_ }
  obtain ⟨q, rfl, hready, hrest⟩ := h.ready a ha
  refine ⟨q, rfl, ?_, hrest⟩
  simp only [ProgramManager.adopt]
  split <;> exact hready

/-- After the boot the first thread is alone. -/
theorem table_boot {fuel : Nat} {sType : SchedulerType} {argv : Nat} {s : ProgramManager}
    (hb : boot fuel sType argv = .ret s) : Table s [0] ∧ (s.pcbSet 0).parentPid = 0 ∧
      (s.pcbSet 0).pageDirectoryAddress = 0 ∧ (s.pcbSet 0).status = .RUNNING ∧ s.running = some 0 := by
  have hinit : Table (initial sType) [] :=
    ⟨⟨fun _ _ h => by simp [initial] at h, fun _ _ h => by simp [initial] at h⟩,
      ⟨fun _ _ => rfl, fun _ _ => trivial, by simp, by simp⟩, by simp [initial], by simp, by simp⟩
  obtain ⟨⟨pid, s₁⟩, hthread, hb⟩ := Outcome.bind_eq_ret hb
  obtain ⟨-, -, C, hC, -⟩ := (scheduled_initial sType).executeThread hthread
  cases pid with
  | none => simp at hb
  | some p =>
      obtain ⟨h₁, hm, -, hdir, -⟩ := (hinit.executeThread hthread).2 p rfl
      have hp : p = 0 := by
        by_contra hne
        have hfirst := executeThread_least hthread 0 (Nat.pos_of_ne_zero hne)
        simp [initial] at hfirst
      subst hp
      obtain ⟨links, hpick, hlinks⟩ := h₁.pickNext
      rcases hC.pickNext with ⟨-, hnone⟩ | ⟨q, l, links', hq, hsome, -, -⟩
      · simp [hnone] at hb
      · -- the ready queue holds the first thread
        have hq0 : q = 0 := by
          have hused := (h₁.used q).mpr (hC.mem_ready (hq ▸ List.mem_cons_self)).2.2
          simpa using hused
        subst hq0
        rw [hsome] at hpick
        obtain rfl : links = links' := (congrArg ProgramManager.links hpick).symm
        simp only [hsome] at hb
        obtain rfl := Outcome.ret.inj hb
        refine ⟨(hlinks.setStatus .RUNNING).congr rfl rfl fun _ _ => rfl, ?_, ?_, ?_, rfl⟩
        all_goals simp only [ProgramManager.setStatus, setPCB_self]
        · exact hm.parent
        · exact hdir

end SysuOs.Programs
