import Mathlib.Tactic
import SysuOs.ProgramModel

/-! The ready queue over whole runs. `Scheduled` says what the lists of the program manager hold between
two calls; every call keeps it but a `fork` that fails after it has queued the child. -/

namespace SysuOs.Programs

open ProgramManager

/-- The heads of the lists. -/
def heads : Set Item := {a | a.pcb = none}

/-- The lists of the program manager between two calls: the ready queue of the scheduler in use holds
ready programs other than the running one, `allPrograms` the programs with a slot, and the other lists
are empty. -/
structure Scheduled (s : ProgramManager) (C : Item → List Item) : Prop where
  lists : Lists s.links heads C
  ready : ∀ a ∈ C (.readyPrograms s.sType), ∃ p, a = .tagInGeneralList p ∧
    (s.pcbSet p).status = .READY ∧ s.running ≠ some p ∧ s.pcbSetStatus p = true
  all : ∀ a ∈ C .allPrograms, ∃ p, a = .tagInAllList p ∧ s.pcbSetStatus p = true
  empty : ∀ h ∈ heads, h ≠ .readyPrograms s.sType → h ≠ .allPrograms → C h = []
  running : ∀ p, s.running = some p → s.pcbSetStatus p = true

@[simp] theorem setPCB_self (s : ProgramManager) (p : Nat) (pcb : PCB) : (s.setPCB p pcb).pcbSet p = pcb :=
  Function.update_self _ _ _

theorem setPCB_of_ne {s : ProgramManager} {p q : Nat} {pcb : PCB} (h : q ≠ p) :
    (s.setPCB p pcb).pcbSet q = s.pcbSet q := Function.update_of_ne h _ _

/-- What `schedule` does: nothing, or a dead program leaves the processor, or a live one goes to the end
of the ready queue. -/
theorem schedule_cases {s s' : ProgramManager} {fuel : Nat} (hs : s.schedule fuel = .ret s') :
    ∃ cur, s.running = some cur ∧
      (s.pickNext.1 = none ∧ (s.pcbSet cur).status ≠ .DEAD ∧ s' = s.pickNext.2 ∨
      ∃ next, s.pickNext.1 = some next ∧
        ((s.pcbSet cur).status = .DEAD ∧
            s' = { s.pickNext.2.setStatus next .RUNNING with running := some next } ∨
          (s.pcbSet cur).status ≠ .DEAD ∧
            ∃ s₁, ((s.pickNext.2.setStatus next .RUNNING).setStatus cur .READY).enqueue fuel cur = .ret s₁ ∧
              s' = { s₁ with running := some next })) := by
  rw [ProgramManager.schedule] at hs
  cases hcur : s.running with
  | none => simp [hcur] at hs
  | some cur =>
      simp only [hcur] at hs
      refine ⟨cur, rfl, ?_⟩
      rcases hpick : s.pickNext with ⟨next, s₀⟩
      rw [hpick] at hs
      cases next with
      | none =>
          dsimp only at hs
          split at hs
          · simp at hs
          · next hlive => exact .inl ⟨rfl, hlive, (Outcome.ret.inj hs).symm⟩
      | some next =>
          refine .inr ⟨next, rfl, ?_⟩
          dsimp only at hs
          split at hs
          · next hdead => exact .inl ⟨hdead, (Outcome.ret.inj hs).symm⟩
          · next hlive =>
              obtain ⟨s₁, hs₁, hs⟩ := Outcome.bind_eq_ret hs
              exact .inr ⟨hlive, s₁, hs₁, (Outcome.ret.inj hs).symm⟩

/-- The scheduler does not look at which program runs. -/
theorem enqueue_running {s s' : ProgramManager} {fuel p : Nat} (running : Option Nat)
    (he : s.enqueue fuel p = .ret s') :
    { s with running }.enqueue fuel p = .ret { s' with running } := by
  obtain ⟨links, hpush, he⟩ := Outcome.bind_eq_ret he
  obtain rfl := Outcome.ret.inj he
  rw [ProgramManager.enqueue, hpush]
  rfl

namespace Scheduled

variable {s s' : ProgramManager} {C : Item → List Item} {p q : Nat} {fuel : Nat}

theorem mem_ready (h : Scheduled s C) (hp : .tagInGeneralList p ∈ C (.readyPrograms s.sType)) :
    (s.pcbSet p).status = .READY ∧ s.running ≠ some p ∧ s.pcbSetStatus p = true := by
  obtain ⟨q, hq, hready⟩ := h.ready _ hp
  obtain rfl := Item.tagInGeneralList.inj hq
  exact hready

/-- The tag of a program that is not in the ready queue is in no list. -/
theorem general_free (h : Scheduled s C) (hp : .tagInGeneralList p ∉ C (.readyPrograms s.sType)) :
    ∀ k ∈ heads, .tagInGeneralList p ∉ C k := by
  intro k hk hmem
  by_cases hready : k = .readyPrograms s.sType
  · exact hp (hready ▸ hmem)
  by_cases hall : k = .allPrograms
  · obtain ⟨q, hq, -⟩ := h.all _ (hall ▸ hmem)
    exact absurd hq (by simp)
  · rw [h.empty k hk hready hall] at hmem
    simp at hmem

theorem all_free (h : Scheduled s C) (hp : s.pcbSetStatus p = false) :
    ∀ k ∈ heads, .tagInAllList p ∉ C k := by
  intro k hk hmem
  by_cases hready : k = .readyPrograms s.sType
  · obtain ⟨q, hq, -⟩ := h.ready _ (hready ▸ hmem)
    exact absurd hq (by simp)
  by_cases hall : k = .allPrograms
  · obtain ⟨q, hq, hused⟩ := h.all _ (hall ▸ hmem)
    obtain rfl := Item.tagInAllList.inj hq
    simp [hp] at hused
  · rw [h.empty k hk hready hall] at hmem
    simp at hmem

/-- A control block may be written if a program of the ready queue stays ready. -/
theorem setPCB (h : Scheduled s C) (p : Nat) (pcb : PCB)
    (hstatus : .tagInGeneralList p ∈ C (.readyPrograms s.sType) → pcb.status = .READY) :
    Scheduled (s.setPCB p pcb) C := by
  refine { h with ready := fun a ha => ?_ }
  obtain ⟨q, rfl, hready, hrest⟩ := h.ready a ha
  refine ⟨q, rfl, ?_, hrest⟩
  by_cases hqp : q = p
  · subst hqp
    rw [setPCB_self]
    exact hstatus ha
  · rwa [setPCB_of_ne hqp]

theorem setFresh (h : Scheduled s C) (hp : .tagInGeneralList p ∉ C (.readyPrograms s.sType)) (pcb : PCB) :
    Scheduled (s.setPCB p pcb) C := h.setPCB p pcb fun hmem => absurd hmem hp

theorem setStatus (h : Scheduled s C) (status : ProgramStatus)
    (hp : .tagInGeneralList p ∉ C (.readyPrograms s.sType)) : Scheduled (s.setStatus p status) C :=
  h.setFresh hp _

/-- A ready program that is not queued is queued. -/
theorem enqueue (h : Scheduled s C) (hp : .tagInGeneralList p ∉ C (.readyPrograms s.sType))
    (hready : (s.pcbSet p).status = .READY) (hrun : s.running ≠ some p) (hused : s.pcbSetStatus p = true)
    (he : s.enqueue fuel p = .ret s') :
    (∃ links, s' = { s with links }) ∧ Scheduled s' (Function.update C (.readyPrograms s.sType)
      (C (.readyPrograms s.sType) ++ [.tagInGeneralList p])) := by
  obtain ⟨links, hpush, he⟩ := Outcome.bind_eq_ret he
  obtain rfl := Outcome.ret.inj he
  refine ⟨⟨links, rfl⟩, h.lists.pushBack rfl (by simp [heads, Item.pcb]) (h.general_free hp) hpush,
    fun a ha => ?_, fun a ha => ?_, fun k hk hkr hka => ?_, h.running⟩
  · rw [Function.update_self] at ha
    rcases List.mem_append.mp ha with ha | ha
    · exact h.ready a ha
    · exact ⟨p, List.mem_singleton.mp ha, hready, hrun, hused⟩
  · rw [Function.update_of_ne (by simp)] at ha
    exact h.all a ha
  · rw [Function.update_of_ne hkr]
    exact h.empty k hk hkr hka

/-- `pickNext` finds the ready queue empty, or takes its first program. -/
theorem pickNext (h : Scheduled s C) :
    C (.readyPrograms s.sType) = [] ∧ s.pickNext = (none, s) ∨
    ∃ p l links, C (.readyPrograms s.sType) = .tagInGeneralList p :: l ∧
      s.pickNext = (some p, { s with links }) ∧ .tagInGeneralList p ∉ l ∧
      Scheduled { s with links } (Function.update C (.readyPrograms s.sType) l) := by
  have hhead : Item.readyPrograms s.sType ∈ heads := rfl
  have hfront := h.lists.front hhead
  have hpop := h.lists.popFront hhead
  cases hC : C (.readyPrograms s.sType) with
  | nil =>
      left
      rw [hC] at hfront
      refine ⟨rfl, ?_⟩
      rw [ProgramManager.pickNext, hfront, Links.popFront, show s.links.next _ = none from hfront]
      rfl
  | cons a l =>
      right
      obtain ⟨p, rfl, -⟩ := h.ready a (hC ▸ List.mem_cons_self)
      rw [hC] at hfront hpop
      have hmem : ∀ b ∈ l, b ∈ C (.readyPrograms s.sType) := fun b hb => hC ▸ List.mem_cons_of_mem _ hb
      refine ⟨p, l, _, rfl, ?_, (List.nodup_cons.mp (hC ▸ h.lists.nodup hhead)).1, hpop,
        fun a ha => ?_, fun a ha => ?_, fun k hk hkr hka => ?_, h.running⟩
      · rw [ProgramManager.pickNext, hfront]
        rfl
      · rw [Function.update_self] at ha
        exact h.ready a (hmem a ha)
      · rw [Function.update_of_ne (by simp)] at ha
        exact h.all a ha
      · rw [Function.update_of_ne hkr]
        exact h.empty k hk hkr hka

/-- The program that runs may change to one that is not queued. -/
theorem dispatch (h : Scheduled s C) (hp : .tagInGeneralList p ∉ C (.readyPrograms s.sType))
    (hused : s.pcbSetStatus p = true) : Scheduled { s with running := some p } C := by
  refine { h with ready := fun a ha => ?_, running := fun q hq => ?_ }
  · obtain ⟨q, rfl, hready, -, husedq⟩ := h.ready a ha
    refine ⟨q, rfl, hready, fun he => hp ?_, husedq⟩
    rwa [Option.some.inj he]
  · rwa [← Option.some.inj hq]

/-- `schedule` keeps the running program, or gives the processor to the first ready one. -/
theorem schedule (h : Scheduled s C) (hs : s.schedule fuel = .ret s') :
    (∃ C', Scheduled s' C') ∧ (s'.running = s.running ∨ ∃ p, s'.running = some p ∧
      (s.pcbSet p).status = .READY ∧ s.pcbSetStatus p = true) := by
  obtain ⟨cur, hcur, hs⟩ := schedule_cases hs
  have hcurFree : .tagInGeneralList cur ∉ C (.readyPrograms s.sType) := fun hmem =>
    (h.mem_ready hmem).2.1 hcur
  rcases h.pickNext with ⟨-, hpick⟩ | ⟨p, l, links, hC, hpick, hpl, h₁⟩
  · simp only [hpick, true_and, reduceCtorEq, false_and, exists_false, or_false] at hs
    obtain ⟨-, rfl⟩ := hs
    exact ⟨⟨C, h⟩, .inl rfl⟩
  · obtain ⟨hpready, hprun, hpused⟩ := h.mem_ready (hC ▸ List.mem_cons_self)
    have hnotin : ∀ {q}, .tagInGeneralList q ∉ l → .tagInGeneralList q ∉
        Function.update C (.readyPrograms s.sType) l (.readyPrograms s.sType) := fun hq => by
      rwa [Function.update_self]
    have h₂ := (h₁.setStatus .RUNNING (hnotin hpl)).dispatch (hnotin hpl) hpused
    simp only [hpick, reduceCtorEq, false_and, false_or, Option.some.injEq, exists_eq_left'] at hs
    rcases hs with ⟨-, rfl⟩ | ⟨-, s₁, he, rfl⟩
    · exact ⟨⟨_, h₂⟩, .inr ⟨p, rfl, hpready, hpused⟩⟩
    · have hcl : .tagInGeneralList cur ∉ l := fun hmem => hcurFree (hC ▸ List.mem_cons_of_mem _ hmem)
      have hne : p ≠ cur := fun he => hprun (he ▸ hcur)
      have h₃ := h₂.setStatus .READY (hnotin hcl)
      obtain ⟨-, h₄⟩ := h₃.enqueue (hnotin hcl) (by simp [ProgramManager.setStatus])
        (fun he => hne (Option.some.inj he)) (h.running cur hcur) (enqueue_running (some p) he)
      exact ⟨⟨_, h₄⟩, .inr ⟨p, rfl, hpready, hpused⟩⟩

/-! ### Making and ending programs -/

/-- A free slot belongs to no program that is queued or runs. -/
theorem fresh (h : Scheduled s C) (hp : s.pcbSetStatus p = false) :
    .tagInGeneralList p ∉ C (.readyPrograms s.sType) ∧ s.running ≠ some p := by
  refine ⟨fun hmem => ?_, fun hrun => ?_⟩
  · rw [(h.mem_ready hmem).2.2] at hp
    simp at hp
  · rw [h.running p hrun] at hp
    simp at hp

theorem allocate (h : Scheduled s C) :
    Scheduled { s with pcbSetStatus := Function.update s.pcbSetStatus p true } C := by
  have hkeep : ∀ q, s.pcbSetStatus q = true → Function.update s.pcbSetStatus p true q = true := by
    intro q hq
    by_cases hqp : q = p
    · subst hqp
      exact Function.update_self _ _ _
    · rwa [Function.update_of_ne hqp]
  refine { h with ready := fun a ha => ?_, all := fun a ha => ?_, running := fun q hq => hkeep q (h.running q hq) }
  · obtain ⟨q, hq, hready, hrun, hused⟩ := h.ready a ha
    exact ⟨q, hq, hready, hrun, hkeep q hused⟩
  · obtain ⟨q, hq, hused⟩ := h.all a ha
    exact ⟨q, hq, hkeep q hused⟩

/-- The slot of a program that is in no list and does not run is given back. -/
theorem release (h : Scheduled s C) (hp : .tagInGeneralList p ∉ C (.readyPrograms s.sType))
    (hall : .tagInAllList p ∉ C .allPrograms) (hrun : s.running ≠ some p) :
    Scheduled { s with pcbSetStatus := Function.update s.pcbSetStatus p false } C := by
  refine { h with ready := fun a ha => ?_, all := fun a ha => ?_, running := fun q hq => ?_ }
  · obtain ⟨q, rfl, hready, hrun, hused⟩ := h.ready a ha
    have hqp : q ≠ p := fun he => hp (he ▸ ha)
    exact ⟨q, rfl, hready, hrun, (Function.update_of_ne hqp _ _).trans hused⟩
  · obtain ⟨q, rfl, hused⟩ := h.all a ha
    have hqp : q ≠ p := fun he => hall (he ▸ ha)
    exact ⟨q, rfl, (Function.update_of_ne hqp _ _).trans hused⟩
  · have hqp : q ≠ p := fun he => hrun (he ▸ hq)
    exact (Function.update_of_ne hqp _ _).trans (h.running q hq)

/-- A program with a slot is put into `allPrograms`. -/
theorem pushAll (h : Scheduled s C) (hp : ∀ k ∈ heads, .tagInAllList p ∉ C k)
    (hused : s.pcbSetStatus p = true) {links : Links Item}
    (hpush : s.links.pushBack fuel .allPrograms (.tagInAllList p) = .ret links) :
    Scheduled { s with links }
      (Function.update C .allPrograms (C .allPrograms ++ [.tagInAllList p])) := by
  refine ⟨h.lists.pushBack rfl (by simp [heads, Item.pcb]) hp hpush, fun a ha => ?_, fun a ha => ?_,
    fun k hk hkr hka => ?_, h.running⟩
  · rw [Function.update_of_ne (by simp)] at ha
    exact h.ready a ha
  · rw [Function.update_self] at ha
    rcases List.mem_append.mp ha with ha | ha
    · exact h.all a ha
    · exact ⟨p, List.mem_singleton.mp ha, hused⟩
  · rw [Function.update_of_ne hka]
    exact h.empty k hk hkr hka

end Scheduled

theorem allocatePCB_some {s s' : ProgramManager} {p : Nat} (ha : s.allocatePCB = some (p, s')) :
    s.pcbSetStatus p = false ∧
      s' = { s with pcbSetStatus := Function.update s.pcbSetStatus p true }.setPCB p .zero := by
  rw [allocatePCB] at ha
  split at ha
  · simp at ha
  · next i hi =>
      simp only [Option.some.injEq, Prod.mk.injEq] at ha
      obtain ⟨rfl, rfl⟩ := ha
      have hfree := List.find?_some hi
      simp only [Bool.not_eq_eq_eq_not, Bool.not_true] at hfree
      exact ⟨hfree, rfl⟩

/-- The new control block of `executeThread`. -/
theorem Scheduled.newPCB {s s₁ : ProgramManager} {C : Item → List Item} {p : Nat} (h : Scheduled s C)
    (ha : s.allocatePCB = some (p, s₁)) (parentPid : Nat) (priority : Int) (argv : Nat) :
    Scheduled (s₁.initPCB p parentPid priority argv) C ∧
      s₁.initPCB p parentPid priority argv = { s with
        pcbSetStatus := Function.update s.pcbSetStatus p true
        pcbSet := (s₁.initPCB p parentPid priority argv).pcbSet } := by
  obtain ⟨hfree, rfl⟩ := allocatePCB_some ha
  obtain ⟨hqueue, -⟩ := h.fresh hfree
  have h₁ : Scheduled { s with pcbSetStatus := Function.update s.pcbSetStatus p true } C := h.allocate
  exact ⟨(h₁.setFresh hqueue .zero).setFresh hqueue _, rfl⟩

/-- What `executeThread` leaves behind: the program that runs and the scheduler are the same, and a
program it returns is queued or is in no queue, as asked. -/
theorem Scheduled.executeThread {s s' : ProgramManager} {C : Item → List Item} {fuel argv : Nat}
    {priority : Int} {needEnqueue : Bool} {pid : Option Nat} (h : Scheduled s C)
    (he : s.executeThread fuel priority needEnqueue argv = .ret (pid, s')) :
    s'.running = s.running ∧ s'.sType = s.sType ∧ ∃ C', Scheduled s' C' ∧ ∀ p, pid = some p →
      s'.pcbSetStatus p = true ∧ s'.running ≠ some p ∧
        (needEnqueue = false → .tagInGeneralList p ∉ C' (.readyPrograms s'.sType)) := by
  rw [ProgramManager.executeThread] at he
  split at he
  · obtain ⟨rfl, rfl⟩ := Prod.mk.inj (Outcome.ret.inj he)
    exact ⟨rfl, rfl, C, h, fun p hp => by simp at hp⟩
  · next thread s₁ ha =>
      obtain ⟨hfree, -⟩ := allocatePCB_some ha
      obtain ⟨hqueue, hrun⟩ := h.fresh hfree
      have hall := h.all_free hfree
      obtain ⟨h₂, hs₂⟩ := h.newPCB ha s.runningPid priority argv
      dsimp only at he
      generalize s₁.initPCB thread s.runningPid priority argv = s₂ at he h₂ hs₂
      have hused : s₂.pcbSetStatus thread = true := by rw [hs₂]; exact Function.update_self _ _ _
      have hsame : s₂.running = s.running ∧ s₂.sType = s.sType := by rw [hs₂]; exact ⟨rfl, rfl⟩
      rw [← hsame.1] at hrun ⊢
      rw [← hsame.2] at hqueue ⊢
      split at he
      · obtain ⟨rfl, rfl⟩ := Prod.mk.inj (Outcome.ret.inj he)
        exact ⟨rfl, rfl, C, h₂.release hqueue (hall .allPrograms rfl) hrun, fun p hp => by simp at hp⟩
      · obtain ⟨links, hpush, he⟩ := Outcome.bind_eq_ret he
        have h₃ := h₂.pushAll hall hused hpush
        have hqueue' : .tagInGeneralList thread ∉ Function.update C .allPrograms
            (C .allPrograms ++ [.tagInAllList thread]) (.readyPrograms s₂.sType) := by
          rwa [Function.update_of_ne (by simp)]
        cases needEnqueue with
        | false =>
            obtain ⟨rfl, rfl⟩ := Prod.mk.inj (Outcome.ret.inj he)
            refine ⟨rfl, rfl, _, h₃, fun p hp => ?_⟩
            obtain rfl := Option.some.inj hp
            exact ⟨hused, hrun, fun _ => hqueue'⟩
        | true =>
            obtain ⟨s₃, he₃, he⟩ := Outcome.bind_eq_ret he
            obtain ⟨rfl, rfl⟩ := Prod.mk.inj (Outcome.ret.inj he)
            have h₄ := h₃.setStatus .READY hqueue'
            obtain ⟨⟨links', rfl⟩, h₅⟩ := h₄.enqueue hqueue' (by simp [ProgramManager.setStatus]) hrun hused he₃
            refine ⟨rfl, rfl, _, h₅, fun p hp => ?_⟩
            obtain rfl := Option.some.inj hp
            exact ⟨hused, hrun, fun hno => by simp at hno⟩

namespace Scheduled

variable {s s' : ProgramManager} {C : Item → List Item} {p : Nat} {fuel : Nat}

theorem executeProcess {priority : Int} {argv pageDirectory : Nat} {userVirtual : Bool}
    {pid : Option Nat} (h : Scheduled s C)
    (he : s.executeProcess fuel priority argv pageDirectory userVirtual = .ret (pid, s')) :
    ∃ C', Scheduled s' C' := by
  obtain ⟨⟨made, s₁⟩, hthread, he⟩ := Outcome.bind_eq_ret he
  obtain ⟨-, -, C₁, h₁, hmade⟩ := h.executeThread hthread
  cases made with
  | none =>
      obtain ⟨-, rfl⟩ := Prod.mk.inj (Outcome.ret.inj he)
      exact ⟨C₁, h₁⟩
  | some process =>
      obtain ⟨hused, hrun, hqueue⟩ := hmade process rfl
      have h₂ := h₁.setFresh (hqueue rfl) { s₁.pcbSet process with pageDirectoryAddress := pageDirectory }
      dsimp only at he
      split at he
      · obtain ⟨-, rfl⟩ := Prod.mk.inj (Outcome.ret.inj he)
        exact ⟨C₁, h₂.setStatus .DEAD (hqueue rfl)⟩
      · obtain ⟨s₃, he₃, he⟩ := Outcome.bind_eq_ret he
        obtain ⟨-, rfl⟩ := Prod.mk.inj (Outcome.ret.inj he)
        have h₃ := h₂.setStatus .READY (hqueue rfl)
        exact ⟨_, (h₃.enqueue (hqueue rfl) (by simp [ProgramManager.setStatus]) hrun hused he₃).2⟩

end Scheduled

/-- A `fork` whose `executeThread` returns a child does not fail later on. -/
def ForkSucceeds (s : ProgramManager) (r : ForkAllocations) : Prop :=
  (∀ parent, s.running = some parent → (s.pcbSet parent).pageDirectoryAddress ≠ 0) →
    s.allocatePCB.isSome → r.argv ≠ 0 → r.pageDirectory ≠ 0 ∧ r.setupCOWPages = true

namespace Scheduled

variable {s s' : ProgramManager} {C : Item → List Item} {p : Nat} {fuel : Nat}

/-- `executeThread` returns a child only from a free slot and a page for its arguments. -/
theorem executeThread_some {priority : Int} {needEnqueue : Bool} {argv : Nat}
    (he : s.executeThread fuel priority needEnqueue argv = .ret (some p, s')) :
    s.allocatePCB.isSome ∧ argv ≠ 0 := by
  rw [ProgramManager.executeThread] at he
  split at he
  · simp at he
  · next thread s₁ ha =>
      refine ⟨by rw [ha]; rfl, fun h0 => ?_⟩
      simp [h0] at he

theorem fork {r : ForkAllocations} {pid : Option Nat} (h : Scheduled s C) (hr : ForkSucceeds s r)
    (hf : s.fork fuel r = .ret (pid, s')) : ∃ C', Scheduled s' C' := by
  rw [ProgramManager.fork] at hf
  split at hf
  · simp at hf
  · next parent hparent =>
      split at hf
      · obtain ⟨-, rfl⟩ := Prod.mk.inj (Outcome.ret.inj hf)
        exact ⟨C, h⟩
      · next hdir =>
          obtain ⟨⟨made, s₁⟩, hthread, hf⟩ := Outcome.bind_eq_ret hf
          obtain ⟨-, -, C₁, h₁, hmade⟩ := h.executeThread hthread
          cases made with
          | none =>
              obtain ⟨-, rfl⟩ := Prod.mk.inj (Outcome.ret.inj hf)
              exact ⟨C₁, h₁⟩
          | some process =>
              obtain ⟨hslot, hargv⟩ := executeThread_some hthread
              obtain ⟨hpage, hcopy⟩ := hr (fun q hq => by
                rw [hparent] at hq
                rwa [← Option.some.inj hq]) hslot hargv
              simp only [if_neg hpage] at hf
              obtain ⟨-, -, hf⟩ := Outcome.bind_eq_ret hf
              simp only [if_pos hcopy] at hf
              obtain ⟨-, rfl⟩ := Prod.mk.inj (Outcome.ret.inj hf)
              -- the child stays ready while its control block is filled
              have h₂ := h₁.setPCB process { s₁.pcbSet process with
                needFork := true, pageDirectoryAddress := r.pageDirectory }
                fun hmem => (h₁.mem_ready hmem).1
              exact ⟨C₁, h₂.setPCB process _ fun _ => rfl⟩

/-- `exit` gives the children away, whatever items it visits. -/
theorem orphanLoop {running : Nat} {item : Option Item} (h : Scheduled s C)
    (ho : ProgramManager.orphanLoop running fuel item s = .ret s') :
    Scheduled s' C := by
  induction fuel generalizing item s with
  | zero => simp [ProgramManager.orphanLoop] at ho
  | succ fuel ih =>
      cases item with
      | none =>
          obtain rfl := Outcome.ret.inj ho
          exact h
      | some item =>
          rw [ProgramManager.orphanLoop] at ho
          split at ho
          · simp at ho
          · next child hchild =>
              split at ho
              · have h₁ := h.setPCB child { s.pcbSet child with parentPid := 1 }
                  fun hmem => (h.mem_ready hmem).1
                exact ih h₁ ho
              · exact ih h ho

theorem running_free (h : Scheduled s C) (hrun : s.running = some p) :
    .tagInGeneralList p ∉ C (.readyPrograms s.sType) := fun hmem => (h.mem_ready hmem).2.1 hrun

theorem exit {ret : Int} (h : Scheduled s C) (he : s.exit fuel ret = .ret s') : ∃ C', Scheduled s' C' := by
  rw [ProgramManager.exit] at he
  split at he
  · simp at he
  · next program hprogram =>
      obtain ⟨s₁, ho, he⟩ := Outcome.bind_eq_ret he
      have h₁ := (h.setFresh (h.running_free hprogram) _).orphanLoop ho
      exact (h₁.schedule he).1

theorem programExit (h : Scheduled s C) (he : s.programExit fuel = .ret s') : ∃ C', Scheduled s' C' := by
  rw [ProgramManager.programExit] at he
  split at he
  · simp at he
  · next thread hthread =>
      dsimp only at he
      split at he
      · exact ((h.setStatus .DEAD (h.running_free hthread)).schedule he).1
      · simp at he

/-- A zombie leaves `allPrograms`, then its slot is free. -/
theorem releasePCB (h : Scheduled s C) (hdead : (s.pcbSet p).status = .DEAD) (hrun : s.running ≠ some p)
    (hr : s.releasePCB fuel p = .ret s') : ∃ C', Scheduled s' C' := by
  have hqueue : .tagInGeneralList p ∉ C (.readyPrograms s.sType) := fun hmem => by
    rw [(h.mem_ready hmem).1] at hdead
    simp at hdead
  obtain ⟨links, herase, hr⟩ := Outcome.bind_eq_ret hr
  obtain rfl := Outcome.ret.inj hr
  have h₁ := h.setFresh hqueue { s.pcbSet p with argv := 0 }
  have hall : Item.allPrograms ∈ heads := rfl
  have herased := h₁.lists.erase hall herase
  have h₂ : Scheduled { s.setPCB p { s.pcbSet p with argv := 0 } with links }
      (Function.update C .allPrograms ((C .allPrograms).erase (.tagInAllList p))) := by
    refine ⟨herased, fun a ha => ?_, fun a ha => ?_, fun k hk hkr hka => ?_, h₁.running⟩
    · rw [Function.update_of_ne (by simp)] at ha
      exact h₁.ready a ha
    · rw [Function.update_self] at ha
      exact h₁.all a (List.mem_of_mem_erase ha)
    · rw [Function.update_of_ne hka]
      exact h₁.empty k hk hkr hka
  refine ⟨_, h₂.release ?_ ?_ hrun⟩
  · rwa [Function.update_of_ne (by simp)]
  · rw [Function.update_self]
    exact (h.lists.nodup hall).not_mem_erase

theorem scanLoop_zombie {pid : Option Nat} {item : Option Item} {found : Scan} {zombie : Nat}
    (hs : s.scanLoop pid fuel item found = .ret (.zombie zombie)) (hfound : ∀ z, found ≠ .zombie z) :
    (s.pcbSet zombie).status = .DEAD := by
  induction fuel generalizing item found with
  | zero => simp [ProgramManager.scanLoop] at hs
  | succ fuel ih =>
      cases item with
      | none => exact absurd (Outcome.ret.inj hs) (hfound zombie)
      | some item =>
          rw [ProgramManager.scanLoop] at hs
          split at hs
          · simp at hs
          · next pcb hpcb =>
              split at hs
              · split at hs
                · next hdead =>
                    obtain rfl := Scan.zombie.inj (Outcome.ret.inj hs)
                    exact hdead
                · exact ih hs (by simp)
              · exact ih hs hfound

theorem waitpid {pid : Option Nat} (h : Scheduled s C)
    (hlive : ∀ p, s.running = some p → (s.pcbSet p).status = .RUNNING)
    (hw : s.waitpid fuel pid = .ret s') : ∃ C', Scheduled s' C' := by
  obtain ⟨scan, hscan, hw⟩ := Outcome.bind_eq_ret hw
  cases scan with
  | noChild =>
      obtain rfl := Outcome.ret.inj hw
      exact ⟨C, h⟩
  | noZombie => exact (h.schedule hw).1
  | zombie zombie =>
      have hdead := scanLoop_zombie hscan (by simp)
      refine h.releasePCB hdead (fun hrun => ?_) hw
      rw [hlive zombie hrun] at hdead
      simp at hdead

theorem execve {pageDirectory : Nat} {userVirtual : Bool} (h : Scheduled s C)
    (he : s.execve fuel pageDirectory userVirtual = .ret s') : ∃ C', Scheduled s' C' := by
  rw [ProgramManager.execve] at he
  split at he
  · simp at he
  · next process hprocess =>
      obtain ⟨-, -, he⟩ := Outcome.bind_eq_ret he
      have hqueue := h.running_free hprocess
      have h₁ := h.setFresh hqueue { s.pcbSet process with pageDirectoryAddress := pageDirectory }
      dsimp only at he
      split at he
      · obtain rfl := Outcome.ret.inj he
        exact ⟨C, h₁.setStatus .DEAD hqueue⟩
      · split at he
        · exact ((h₁.setStatus .DEAD hqueue).schedule he).1
        · obtain rfl := Outcome.ret.inj he
          exact ⟨C, h₁⟩

theorem timeInterrupt (h : Scheduled s C) (ht : s.timeInterrupt fuel = .ret s') :
    ∃ C', Scheduled s' C' := by
  have htick : Scheduled s.onTick.2 C := by
    rw [ProgramManager.onTick]
    split
    · exact h
    · next running hrunning =>
        dsimp only
        split
        · exact h
        · split
          · exact h.setFresh (h.running_free hrunning) _
          · exact h
  rw [ProgramManager.timeInterrupt] at ht
  dsimp only at ht
  split at ht
  · exact (htick.schedule ht).1
  · obtain rfl := Outcome.ret.inj ht
    exact ⟨C, htick⟩

end Scheduled

/-! ### Runs -/

/-- The calls that make, end and switch programs, with what their allocations return. -/
inductive Call where
  | executeThread (priority : Int) (needEnqueue : Bool) (argv : Nat)
  | executeProcess (priority : Int) (argv pageDirectory : Nat) (userVirtual : Bool)
  | fork (r : ForkAllocations)
  | exit (ret : Int)
  | programExit
  | waitpid (pid : Option Nat)
  | execve (pageDirectory : Nat) (userVirtual : Bool)
  | timeInterrupt
  | schedule

def Call.run (fuel : Nat) (s : ProgramManager) : Call → Outcome ProgramManager
  | .executeThread priority needEnqueue argv => do
      let (_, s) ← s.executeThread fuel priority needEnqueue argv
      pure s
  | .executeProcess priority argv pageDirectory userVirtual => do
      let (_, s) ← s.executeProcess fuel priority argv pageDirectory userVirtual
      pure s
  | .fork r => do
      let (_, s) ← s.fork fuel r
      pure s
  | .exit ret => s.exit fuel ret
  | .programExit => s.programExit fuel
  | .waitpid pid => s.waitpid fuel pid
  | .execve pageDirectory userVirtual => s.execve fuel pageDirectory userVirtual
  | .timeInterrupt => s.timeInterrupt fuel
  | .schedule => s.schedule fuel

/-- The running program makes calls while it is alive. An `execve` that finds no page directory leaves
it dead and without its address space: the next thing to happen is a tick, or a fault that halts. -/
def Call.Enabled (s : ProgramManager) : Call → Prop
  | .timeInterrupt => True
  | .schedule => True
  | _ => ∀ p, s.running = some p → (s.pcbSet p).status = .RUNNING

/-- A `fork` that gets its child from `executeThread` gets the rest too. -/
def Call.ForkSound (s : ProgramManager) : Call → Prop
  | .fork r => ForkSucceeds s r
  | _ => True

/-- The states that the calls meeting `P` reach from the boot. -/
inductive Reached (P : ProgramManager → Call → Prop) : ProgramManager → Prop
  | boot {fuel : Nat} {sType : SchedulerType} {argv : Nat} {s : ProgramManager} :
      ProgramManager.boot fuel sType argv = .ret s → Reached P s
  | call {s s' : ProgramManager} (fuel : Nat) (c : Call) :
      Reached P s → c.Enabled s → P s c → c.run fuel s = .ret s' → Reached P s'

/-- The programs in the ready queue of the scheduler in use are ready, there once, not running and have
a slot; `schedule` gives the processor to no other one. -/
structure ReadyQueue (s : ProgramManager) : Prop where
  queue : ∃ l : List Nat,
    Walk s.links.next (s.links.next (.readyPrograms s.sType)) (l.map .tagInGeneralList) ∧ l.Nodup ∧
      ∀ p ∈ l, (s.pcbSet p).status = .READY ∧ s.running ≠ some p ∧ s.pcbSetStatus p = true
  dispatch : ∀ fuel s', s.schedule fuel = .ret s' → s'.running = s.running ∨
    ∃ p, s'.running = some p ∧ (s.pcbSet p).status = .READY ∧ s.pcbSetStatus p = true

theorem Scheduled.readyQueue {s : ProgramManager} {C : Item → List Item} (h : Scheduled s C) :
    ReadyQueue s := by
  have hhead : Item.readyPrograms s.sType ∈ heads := rfl
  have hmap : ∀ l : List Item, (∀ a ∈ l, ∃ p, a = .tagInGeneralList p) →
      (l.filterMap Item.pcb).map .tagInGeneralList = l := by
    intro l hl
    induction l with
    | nil => rfl
    | cons a l ih =>
        obtain ⟨p, rfl⟩ := hl a List.mem_cons_self
        have hrest := ih fun b hb => hl b (List.mem_cons_of_mem _ hb)
        simpa [Item.pcb] using hrest
  have hC := hmap (C (.readyPrograms s.sType)) fun a ha => by
    obtain ⟨p, hp, -⟩ := h.ready a ha
    exact ⟨p, hp⟩
  refine ⟨⟨_, hC.symm ▸ h.lists.walk _ hhead, ?_, fun p hp => ?_⟩, fun fuel s' hs => (h.schedule hs).2⟩
  · exact List.Nodup.of_map _ (hC.symm ▸ h.lists.nodup hhead)
  · refine h.mem_ready ?_
    rw [← hC]
    exact List.mem_map_of_mem hp

theorem scheduled_initial (sType : SchedulerType) : Scheduled (initial sType) fun _ => [] := by
  refine ⟨⟨fun _ _ => rfl, fun _ _ => trivial, fun _ _ _ _ ha => ?_, fun _ _ _ _ _ ha => ?_⟩,
    fun _ ha => ?_, fun _ ha => ?_, fun _ _ _ _ => rfl, fun _ hp => ?_⟩
  · simp at ha
  · simp at ha
  · simp at ha
  · simp at ha
  · simp [initial] at hp

theorem scheduled_boot {fuel : Nat} {sType : SchedulerType} {argv : Nat} {s : ProgramManager}
    (hb : boot fuel sType argv = .ret s) : ∃ C, Scheduled s C := by
  obtain ⟨⟨pid, s₁⟩, hthread, hb⟩ := Outcome.bind_eq_ret hb
  obtain ⟨-, -, C₁, h₁, -⟩ := (scheduled_initial sType).executeThread hthread
  cases pid with
  | none => simp at hb
  | some p =>
      rcases h₁.pickNext with ⟨-, hpick⟩ | ⟨p, l, links, hC, hpick, hpl, h₂⟩
      · simp [hpick] at hb
      · simp only [hpick] at hb
        obtain rfl := Outcome.ret.inj hb
        have hpl' : .tagInGeneralList p ∉ Function.update C₁ (.readyPrograms s₁.sType) l
            (.readyPrograms s₁.sType) := by rwa [Function.update_self]
        have hused := (h₁.mem_ready (hC ▸ List.mem_cons_self)).2.2
        exact ⟨_, (h₂.setStatus .RUNNING hpl').dispatch hpl' hused⟩

/-- Every call but an unlucky `fork` keeps the lists in order. -/
theorem Scheduled.call {fuel : Nat} {c : Call} {s s' : ProgramManager} {C : Item → List Item}
    (h : Scheduled s C) (hon : c.Enabled s) (hfork : c.ForkSound s) (hc : c.run fuel s = .ret s') :
    ∃ C', Scheduled s' C' := by
  cases c with
  | executeThread priority needEnqueue argv =>
      obtain ⟨⟨pid, s₁⟩, he, hc⟩ := Outcome.bind_eq_ret hc
      obtain rfl := Outcome.ret.inj hc
      obtain ⟨-, -, C', h', -⟩ := h.executeThread he
      exact ⟨C', h'⟩
  | executeProcess priority argv pageDirectory userVirtual =>
      obtain ⟨⟨pid, s₁⟩, he, hc⟩ := Outcome.bind_eq_ret hc
      obtain rfl := Outcome.ret.inj hc
      exact h.executeProcess he
  | fork r =>
      obtain ⟨⟨pid, s₁⟩, hf, hc⟩ := Outcome.bind_eq_ret hc
      obtain rfl := Outcome.ret.inj hc
      exact h.fork hfork hf
  | exit ret => exact h.exit hc
  | programExit => exact h.programExit hc
  | waitpid pid => exact h.waitpid hon hc
  | execve pageDirectory userVirtual => exact h.execve hc
  | timeInterrupt => exact h.timeInterrupt hc
  | schedule => exact (h.schedule hc).1

theorem Reached.scheduled {s : ProgramManager} (h : Reached (fun s c => c.ForkSound s) s) :
    ∃ C, Scheduled s C := by
  induction h with
  | boot hb => exact scheduled_boot hb
  | call fuel c _ hon hfork hc ih =>
      obtain ⟨C, h⟩ := ih
      exact h.call hon hfork hc

/-- The ready queue holds ready programs only, in every run in which no `fork` fails after it has queued
its child. -/
theorem readyQueue_of_forkSound {s : ProgramManager} (h : Reached (fun s c => c.ForkSound s) s) :
    ReadyQueue s := by
  obtain ⟨C, hC⟩ := h.scheduled
  exact hC.readyQueue

/-! ### A run -/

/-- The machine after the boot. -/
def booted : ProgramManager := (boot 20 .RR 1).getD (initial .RR)

/-- The first thread has made the process `init`. -/
def madeInit : ProgramManager := ((Call.executeProcess 0 1 1 true).run 20 booted).getD booted

/-- `init` runs. -/
def initRuns : ProgramManager := (Call.schedule.run 20 madeInit).getD madeInit

/-- `init` has forked. -/
def forkedInit (r : ForkAllocations) : ProgramManager := ((Call.fork r).run 20 initRuns).getD initRuns

theorem reached_initRuns {P : ProgramManager → Call → Prop}
    (hprocess : P booted (.executeProcess 0 1 1 true)) (hschedule : P madeInit .schedule) :
    Reached P initRuns := by
  have hbooted : Reached P booted := .boot (show boot 20 .RR 1 = .ret booted from rfl)
  have hlive : ∀ p, booted.running = some p → (booted.pcbSet p).status = .RUNNING := by
    intro p hp
    obtain rfl := Option.some.inj hp
    rfl
  have hmade : Reached P madeInit := .call 20 (.executeProcess 0 1 1 true) hbooted hlive
    hprocess rfl
  exact .call 20 .schedule hmade trivial hschedule rfl

theorem initRuns_live (p : Nat) (hp : initRuns.running = some p) :
    (initRuns.pcbSet p).status = .RUNNING := by
  obtain rfl := Option.some.inj hp
  rfl

theorem readyQueue_forkedInit : ReadyQueue (forkedInit ⟨1, 1, true, true⟩) :=
  readyQueue_of_forkSound (.call 20 (.fork ⟨1, 1, true, true⟩) (reached_initRuns trivial trivial)
    initRuns_live (fun _ _ _ => ⟨by decide, rfl⟩) rfl)

/-- A `fork` without memory for the page directory leaves its dead child in the ready queue. -/
theorem not_readyQueue : ¬ ∀ s, Reached (fun _ _ => True) s → ReadyQueue s := by
  intro h
  obtain ⟨⟨l, hwalk, -, hl⟩, -⟩ := h (forkedInit ⟨1, 0, true, true⟩) (.call 20
    (.fork ⟨1, 0, true, true⟩) (reached_initRuns trivial trivial) initRuns_live trivial rfl)
  -- the queue begins with the first thread and the child
  have hfirst : (forkedInit ⟨1, 0, true, true⟩).links.next (.readyPrograms .RR) =
    some (.tagInGeneralList 0) := rfl
  have hsecond : (forkedInit ⟨1, 0, true, true⟩).links.next (.tagInGeneralList 0) =
    some (.tagInGeneralList 2) := rfl
  have hdead : ((forkedInit ⟨1, 0, true, true⟩).pcbSet 2).status = .DEAD := rfl
  have hqueue : Walk _ (some (.tagInGeneralList 0)) (l.map Item.tagInGeneralList) := hfirst ▸ hwalk
  have hmem : 2 ∈ l := by
    rcases l with - | ⟨p, - | ⟨q, l⟩⟩
    · simp at hqueue
    · obtain ⟨hp, hend⟩ := hqueue
      rw [← Option.some.inj hp, hsecond] at hend
      simp at hend
    · obtain ⟨hp, hq, -⟩ := hqueue
      rw [← Option.some.inj hp, hsecond] at hq
      simp [Item.tagInGeneralList.inj (Option.some.inj hq)]
  rw [(hl 2 hmem).1] at hdead
  simp at hdead

end SysuOs.Programs
