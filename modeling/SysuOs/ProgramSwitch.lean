import SysuOs.ProgramRounds

/-! Changing the scheduler. `switch_scheduler` fills the ready queue of the new scheduler from `allPrograms`,
which it walks up to its last program and without it. The two schedulers link the programs by the same tags,
so a queue that is not in use may hold any links. -/

namespace SysuOs.Programs

namespace ProgramManager

/-! ### `switch_scheduler` -/

/-- The loop of `RRScheduler::initialize` and `FIFSScheduler::initialize` over `allPrograms`. -/
def refillLoop (fuel : Nat) : Nat → Option Item → ProgramManager → Outcome ProgramManager
  | 0, _, _ => .diverge
  | rounds + 1, item, s => do
      let last ← s.links.back fuel .allPrograms
      if item = last then return s
      else match item with
        | none => .halt
        | some item =>
            match item.pcb with
            | none => .halt
            | some pcb => do
                let s ← (if (s.pcbSet pcb).status = .READY then s.enqueue fuel pcb else .ret s)
                refillLoop fuel rounds (s.links.next item) s

/-- `RRScheduler::initialize` and `FIFSScheduler::initialize`. -/
def refill (fuel : Nat) (s : ProgramManager) : Outcome ProgramManager := do
  let links ← s.links.clear fuel (.readyPrograms s.sType)
  let s := { s with links }
  refillLoop fuel fuel (s.links.next .allPrograms) s

/-- `ProgramManager::switch_scheduler`. -/
def switchScheduler (fuel : Nat) (s : ProgramManager) (sType : SchedulerType) : Outcome ProgramManager :=
  if sType ≠ s.sType then { s with sType }.refill fuel else return s

end ProgramManager

open ProgramManager

/-- The items of `allPrograms`. -/
def isAll : Item → Bool
  | .allPrograms => true
  | .tagInAllList _ => true
  | _ => false

/-- `allPrograms` holds the programs of `all`. Nothing is said of the other lists but that their links stay
among the other items and are finitely many. -/
structure Roster (s : ProgramManager) (all : List Nat) : Prop where
  lists : ∃ C, Lists s.links {.allPrograms} C ∧ C .allPrograms = all.map .tagInAllList
  separate : s.links.Separate isAll
  bounded : s.links.Bounded

/-- The calls that use a ready queue, in any order, with any writes to the control blocks in between. -/
inductive Switching : ProgramManager → ProgramManager → Prop
  | refl {s} : Switching s s
  | enqueue {s s₁ s' fuel p} : Switching s s₁ → s₁.enqueue fuel p = .ret s' → Switching s s'
  | schedule {s s₁ s' fuel} : Switching s s₁ → s₁.schedule fuel = .ret s' → Switching s s'
  | switch {s s₁ s' fuel sType} : Switching s s₁ → s₁.switchScheduler fuel sType = .ret s' → Switching s s'
  | setPCB {s s₁ p pcb} : Switching s s₁ → Switching s (s₁.setPCB p pcb)

/-- The ready programs of a list. -/
def readyOf (s : ProgramManager) (all : List Nat) : List Nat :=
  all.filter fun p => decide ((s.pcbSet p).status = .READY)

/-- The switch returns, and all the ready programs are queued in order. -/
def Complete (s : ProgramManager) (all : List Nat) (sType : SchedulerType) : Prop :=
  ∃ n, ∀ fuel, n ≤ fuel → ∃ s', s.switchScheduler fuel sType = .ret s' ∧ Queued s' (readyOf s all)

/-! ### What keeps the roster -/

namespace Roster

variable {s s' : ProgramManager} {all queue : List Nat} {links : Links Item} {fuel p : Nat}

theorem congr (h : Roster s all) (hlinks : s'.links = s.links) : Roster s' all :=
  ⟨hlinks ▸ h.lists, hlinks ▸ h.separate, hlinks ▸ h.bounded⟩

/-- Links among the other items may change. -/
theorem within (h : Roster s all) (hlinks : s.links.Within links isAll false) (hsep : links.Separate isAll)
    (hbounded : links.Bounded) : Roster { s with links } all := by
  obtain ⟨C, hlists, hC⟩ := h.lists
  refine ⟨⟨C, hlinks.lists hlists ?_, hC⟩, hsep, hbounded⟩
  rintro _ rfl
  refine ⟨Bool.noConfusion, fun b hb => ?_⟩
  rw [hC] at hb
  obtain ⟨q, -, rfl⟩ := List.mem_map.mp hb
  exact Bool.noConfusion

theorem enqueue (h : Roster s all) (hcall : s.enqueue fuel p = .ret s') :
    Roster s' all ∧ s'.pcbSet = s.pcbSet ∧ s'.sType = s.sType := by
  obtain ⟨links, hpush, hcall⟩ := Outcome.bind_eq_ret hcall
  obtain rfl := Outcome.ret.inj hcall
  obtain ⟨hsep, hwithin⟩ := h.separate.pushBack (k := false) rfl rfl hpush
  exact ⟨h.within hwithin hsep (h.bounded.pushBack hpush), rfl, rfl⟩

theorem pickNext (h : Roster s all) : Roster s.pickNext.2 all := by
  obtain ⟨hsep, hwithin⟩ :=
    h.separate.popFront (k := false) (show isAll (.readyPrograms s.sType) = false from rfl)
  exact h.within hwithin hsep h.bounded.popFront

theorem schedule (h : Roster s all) (hcall : s.schedule fuel = .ret s') : Roster s' all := by
  obtain ⟨cur, -, ⟨-, -, rfl⟩ | ⟨next, -, ⟨-, rfl⟩ | ⟨-, s₁, henqueue, rfl⟩⟩⟩ := schedule_cases hcall
  · exact h.pickNext
  · exact h.pickNext.congr rfl
  · have hnext : Roster ((s.pickNext.2.setStatus next .RUNNING).setStatus cur .READY) all :=
      h.pickNext.congr rfl
    exact (hnext.enqueue henqueue).1.congr rfl

theorem nodup (h : Roster s all) : all.Nodup := by
  obtain ⟨C, hlists, hC⟩ := h.lists
  have hnodup := hlists.nodup rfl
  rw [hC] at hnodup
  exact hnodup.of_map _

theorem walk (h : Roster s all) : Walk s.links.next (s.links.next .allPrograms) (all.map .tagInAllList) := by
  obtain ⟨C, hlists, hC⟩ := h.lists
  rw [← hC]
  exact hlists.walk _ rfl

theorem refillLoop {rounds : Nat} {item : Option Item} (h : Roster s all)
    (hcall : ProgramManager.refillLoop fuel rounds item s = .ret s') : Roster s' all := by
  induction rounds generalizing s item with
  | zero => cases hcall
  | succ rounds ih =>
      obtain ⟨last, -, hcall⟩ := Outcome.bind_eq_ret hcall
      by_cases hlast : item = last
      · rw [if_pos hlast] at hcall
        obtain rfl := Outcome.ret.inj hcall
        exact h
      · rw [if_neg hlast] at hcall
        cases item with
        | none => cases hcall
        | some item =>
            dsimp only at hcall
            cases hpcb : item.pcb with
            | none =>
                rw [hpcb] at hcall
                cases hcall
            | some pcb =>
                rw [hpcb] at hcall
                obtain ⟨s₁, hpush, hcall⟩ := Outcome.bind_eq_ret hcall
                refine ih ?_ hcall
                by_cases hready : (s.pcbSet pcb).status = .READY
                · rw [if_pos hready] at hpush
                  exact (h.enqueue hpush).1
                · rw [if_neg hready] at hpush
                  obtain rfl := Outcome.ret.inj hpush
                  exact h

/-- `allPrograms.back()` is its last program. -/
theorem back (h : Roster s all) {last : Option Item} (hback : s.links.back fuel .allPrograms = .ret last) :
    last = all.getLast?.map .tagInAllList := by
  rw [Links.back_eq h.walk hback, List.getLast?_map]

theorem back_returns (h : Roster s all) (hfuel : all.length < fuel) :
    ∃ last, s.links.back fuel .allPrograms = .ret last :=
  Links.back_returns h.walk (by rwa [List.length_map])

/-- From a program on, `allPrograms` goes on with the programs after it. -/
theorem walk_from {rest done : List Nat} (h : Roster s all) (hall : all = done ++ p :: rest) :
    Walk s.links.next (s.links.next (.tagInAllList p)) (rest.map .tagInAllList) := by
  have hwalk := h.walk
  rw [hall, List.map_append, List.map_cons] at hwalk
  exact hwalk.suffix.2

end Roster

/-! ### What the switch leaves -/

section Switch

variable {s s' : ProgramManager} {all queue done l : List Nat} {fuel rounds z : Nat} {item : Option Item}
  {sType : SchedulerType}

theorem refillLoop_last (hback : s.links.back fuel .allPrograms = .ret item) :
    refillLoop fuel (rounds + 1) item s = .ret s := by
  rw [refillLoop.eq_def]
  dsimp only
  rw [hback, Outcome.ret_bind, if_pos rfl]
  rfl

theorem refillLoop_step {last : Option Item} {p : Nat} (hback : s.links.back fuel .allPrograms = .ret last)
    (hlast : some (.tagInAllList p) ≠ last) :
    refillLoop fuel (rounds + 1) (some (.tagInAllList p)) s =
      (if (s.pcbSet p).status = .READY then s.enqueue fuel p else .ret s) >>= fun s =>
        refillLoop fuel rounds (s.links.next (.tagInAllList p)) s := by
  rw [refillLoop.eq_def]
  dsimp only
  rw [hback, Outcome.ret_bind, if_neg hlast]
  rfl

theorem readyOf_cons (p : Nat) : readyOf s (p :: l) =
    if (s.pcbSet p).status = .READY then p :: readyOf s l else readyOf s l := by
  rw [readyOf, List.filter_cons]
  simp only [decide_eq_true_eq, readyOf]

/-- The loop queues the ready programs up to the last one. -/
theorem refillLoop_spec (h : Roster s all) (hfuel : all.length < fuel) (hall : all = done ++ (l ++ [z]))
    (hqueue : Queued s queue) (hdone : ∀ q ∈ queue, q ∈ done) (hsize : queue.length ≤ done.length)
    (hwalk : Walk s.links.next item ((l ++ [z]).map .tagInAllList)) (hrounds : l.length < rounds) :
    ∃ s', refillLoop fuel rounds item s = .ret s' ∧ Queued s' (queue ++ readyOf s l) := by
  induction l generalizing s rounds item done queue with
  | nil =>
      obtain ⟨rounds, rfl⟩ := Nat.exists_eq_add_one_of_ne_zero (Nat.ne_zero_of_lt hrounds)
      obtain ⟨last, hback⟩ := h.back_returns hfuel
      have hlast : last = item := by
        rw [h.back hback, hall, ← List.append_assoc, List.getLast?_concat, hwalk.1]
        rfl
      rw [refillLoop_last (hlast ▸ hback), readyOf, List.filter_nil, List.append_nil]
      exact ⟨s, rfl, hqueue⟩
  | cons p l ih =>
      obtain ⟨rounds, rfl⟩ := Nat.exists_eq_add_one_of_ne_zero (Nat.ne_zero_of_lt hrounds)
      have hrounds' : l.length < rounds := Nat.lt_of_succ_lt_succ hrounds
      have hnodup := h.nodup
      rw [hall, List.nodup_append] at hnodup
      have hpz : p ≠ z := fun hpz => (List.nodup_cons.mp hnodup.2.1).1 (by rw [hpz]; simp)
      have hpqueue : p ∉ queue := fun hmem => hnodup.2.2 p (hdone p hmem) p (by simp) rfl
      have hall' : all = (done ++ [p]) ++ (l ++ [z]) := by
        rw [hall, List.append_assoc, List.singleton_append, List.cons_append]
      have hdone' : ∀ q ∈ queue, q ∈ done ++ [p] := fun q hq => List.mem_append_left _ (hdone q hq)
      obtain ⟨last, hback⟩ := h.back_returns hfuel
      have hlast : some (.tagInAllList p) ≠ last := by
        rw [h.back hback, hall, ← List.append_assoc, List.getLast?_concat]
        exact fun heq => hpz (Item.tagInAllList.inj (Option.some.inj heq))
      rw [show item = some (.tagInAllList p) from hwalk.1, refillLoop_step hback hlast, readyOf_cons]
      by_cases hready : (s.pcbSet p).status = .READY
      · rw [if_pos hready, if_pos hready]
        have hlt : queue.length < fuel := by
          rw [hall, List.length_append] at hfuel
          omega
        obtain ⟨links, hpush⟩ := hqueue.enqueue_returns hlt p
        obtain ⟨h₁, -, -⟩ := h.enqueue hpush
        have hdone₁ : ∀ q ∈ queue ++ [p], q ∈ done ++ [p] := fun q hq =>
          (List.mem_append.mp hq).elim (hdone' q) (List.mem_append_right _)
        have hsize₁ : (queue ++ [p]).length ≤ (done ++ [p]).length := by
          rw [List.length_append, List.length_append]
          exact Nat.add_le_add_right hsize _
        have hres := ih h₁ hall' (hqueue.enqueue hpqueue hpush) hdone₁ hsize₁ (h₁.walk_from hall) hrounds'
        rw [List.append_assoc] at hres
        rw [hpush]
        exact hres
      · rw [if_neg hready, if_neg hready]
        have hsize₁ : queue.length ≤ (done ++ [p]).length := by
          rw [List.length_append]
          omega
        exact ih h hall' hqueue hdone' hsize₁ (h.walk_from hall) hrounds'

/-- `clear` and `initialize` leave an empty queue and all programs in their place. -/
theorem Roster.clear {links : Links Item} (h : Roster s all)
    (hclear : s.links.clear fuel (.readyPrograms s.sType) = .ret links) :
    Roster { s with links } all ∧ Queued { s with links } [] := by
  obtain ⟨hsep, hwithin⟩ := h.separate.clear (k := false) rfl hclear
  exact ⟨h.within hwithin hsep (h.bounded.clear hclear), _, Links.clear_lists hclear, rfl⟩

/-- The new ready queue holds the ready programs of `allPrograms` but the last program. -/
theorem switchScheduler_spec (h : Roster s all) (htype : sType ≠ s.sType) :
    ∃ n, ∀ fuel, n ≤ fuel → ∃ s', s.switchScheduler fuel sType = .ret s' ∧
      Queued s' (readyOf s all.dropLast) := by
  have h₀ : Roster { s with sType } all := h.congr rfl
  obtain ⟨n, hn⟩ := h₀.bounded.clear_returns (.readyPrograms sType)
  refine ⟨max n (all.length + 1), fun fuel hfuel => ?_⟩
  obtain ⟨links, hclear⟩ := hn fuel (le_of_max_le_left hfuel)
  obtain ⟨h₁, hqueue⟩ := h₀.clear hclear
  have hlength : all.length < fuel := le_of_max_le_right hfuel
  rw [switchScheduler, if_pos htype, refill]
  dsimp only
  rw [hclear, Outcome.ret_bind]
  rcases List.eq_nil_or_concat all with hall | ⟨l, z, hall⟩
  · subst hall
    obtain ⟨fuel, rfl⟩ := Nat.exists_eq_add_one_of_ne_zero (Nat.ne_zero_of_lt hlength)
    obtain ⟨last, hback⟩ := h₁.back_returns hlength
    have hlast : last = links.next .allPrograms := (h₁.back hback).trans (h₁.walk : _ = _).symm
    exact ⟨_, refillLoop_last (hlast ▸ hback), hqueue⟩
  · rw [List.concat_eq_append] at hall
    have hwalk := h₁.walk
    rw [hall] at hwalk
    have hl : l.length < fuel := by
      rw [hall, List.length_append] at hlength
      omega
    obtain ⟨s', hloop, hres⟩ := refillLoop_spec h₁ hlength (show all = [] ++ (l ++ [z]) from hall) hqueue
      (fun q hq => absurd hq List.not_mem_nil) (le_refl _) hwalk hl
    rw [hall, List.dropLast_concat]
    exact ⟨s', hloop, hres⟩

theorem Roster.switchScheduler (h : Roster s all) (hcall : s.switchScheduler fuel sType = .ret s') :
    Roster s' all := by
  rw [ProgramManager.switchScheduler] at hcall
  by_cases htype : sType ≠ s.sType
  · rw [if_pos htype] at hcall
    obtain ⟨links, hclear, hcall⟩ := Outcome.bind_eq_ret hcall
    have h₀ : Roster { s with sType } all := h.congr rfl
    obtain ⟨h₁, -⟩ := h₀.clear hclear
    exact h₁.refillLoop hcall
  · rw [if_neg htype] at hcall
    obtain rfl := Outcome.ret.inj hcall
    exact h

theorem Switching.roster (hrun : Switching s s') (h : Roster s all) : Roster s' all := by
  induction hrun with
  | refl => exact h
  | enqueue _ hcall ih => exact (ih.enqueue hcall).1
  | schedule _ hcall ih => exact ih.schedule hcall
  | switch _ hcall ih => exact ih.switchScheduler hcall
  | setPCB _ ih => exact ih.congr rfl

/-- The loop loses the last program, so the queue is complete if that one is not ready, and only then. -/
theorem Roster.complete_iff (h : Roster s all) (htype : sType ≠ s.sType) :
    Complete s all sType ↔ ∀ p, all.getLast? = some p → (s.pcbSet p).status ≠ .READY := by
  obtain ⟨n, hn⟩ := switchScheduler_spec h htype
  rcases List.eq_nil_or_concat all with hall | ⟨l, z, hall⟩
  · subst hall
    exact ⟨fun _ p hp => (nomatch hp), fun _ => ⟨n, hn⟩⟩
  · rw [List.concat_eq_append] at hall
    subst hall
    have hlast : readyOf s (l ++ [z]) = readyOf s l ++ if (s.pcbSet z).status = .READY then [z] else [] := by
      rw [readyOf, List.filter_append, readyOf, List.filter_singleton]
      simp only [Bool.cond_decide]
    rw [List.dropLast_concat] at hn
    rw [List.getLast?_concat]
    constructor
    · rintro ⟨m, hm⟩ p hp hready
      obtain rfl := Option.some.inj hp
      obtain ⟨s₁, hcall₁, hqueue₁⟩ := hn (max n m) (le_max_left n m)
      obtain ⟨s₂, hcall₂, hqueue₂⟩ := hm (max n m) (le_max_right n m)
      rw [hcall₁] at hcall₂
      obtain rfl := Outcome.ret.inj hcall₂
      have hlength := congrArg List.length (hqueue₁.unique hqueue₂)
      rw [hlast, if_pos hready, List.length_append, List.length_singleton] at hlength
      omega
    · intro hnot
      rw [Complete, hlast, if_neg (hnot z rfl), List.append_nil]
      exact ⟨n, hn⟩

end Switch

/-- In every run, a switch to the other scheduler queues every ready program in the order of `allPrograms` if
and only if the last program of `allPrograms` is not ready. -/
theorem complete_iff_last {s₀ s : ProgramManager} {all : List Nat} {sType : SchedulerType} (h₀ : Roster s₀ all)
    (hrun : Switching s₀ s) (htype : sType ≠ s.sType) :
    Complete s all sType ↔ ∀ p, all.getLast? = some p → (s.pcbSet p).status ≠ .READY :=
  (hrun.roster h₀).complete_iff htype

/-- `allPrograms` holds the programs 1 and 2, of which 1 runs and 2 is in the ready queue of the scheduler RR, or
in no queue. -/
def twoPrograms (status : ProgramStatus) : ProgramManager where
  links :=
    { next := fun
        | .allPrograms => some (.tagInAllList 1)
        | .tagInAllList 1 => some (.tagInAllList 2)
        | .readyPrograms .RR => if status = .READY then some (.tagInGeneralList 2) else none
        | _ => none
      previous := fun
        | .tagInAllList 1 => some .allPrograms
        | .tagInAllList 2 => some (.tagInAllList 1)
        | .tagInGeneralList 2 => if status = .READY then some (.readyPrograms .RR) else none
        | _ => none }
  pcbSet := fun p => { PCB.zero with status := if p = 1 then .RUNNING else status, pid := p }
  pcbSetStatus := fun p => decide (p < 3)
  running := some 1
  sType := .RR

theorem twoPrograms_roster (status : ProgramStatus) : Roster (twoPrograms status) [1, 2] where
  lists := by
    refine ⟨fun _ => [.tagInAllList 1, .tagInAllList 2], ⟨?_, ?_, ?_, ?_⟩, rfl⟩
    · rintro _ rfl
      exact ⟨rfl, rfl, rfl⟩
    · rintro _ rfl
      exact ⟨rfl, rfl, trivial⟩
    · rintro _ rfl _ rfl
      decide
    · rintro _ rfl _ rfl _ _ _
      rfl
  separate := by
    constructor
    · intro a b hab
      simp only [twoPrograms] at hab
      split at hab
      · rw [← Option.some.inj hab]
        rfl
      · rw [← Option.some.inj hab]
        rfl
      · split at hab
        · rw [← Option.some.inj hab]
          rfl
        · cases hab
      · cases hab
    · intro a b hab
      simp only [twoPrograms] at hab
      split at hab
      · rw [← Option.some.inj hab]
        rfl
      · rw [← Option.some.inj hab]
        rfl
      · split at hab
        · rw [← Option.some.inj hab]
          rfl
        · cases hab
      · cases hab
  bounded := by
    refine ⟨{.allPrograms, .tagInAllList 1, .readyPrograms .RR}, fun a ha => ?_⟩
    simp only [twoPrograms]
    split <;> simp_all

/-- A last program that is blocked. -/
theorem complete_iff_last_blocked : Complete (twoPrograms .BLOCKED) [1, 2] .FIFS := by
  refine (complete_iff_last (twoPrograms_roster .BLOCKED) .refl (by decide)).mpr fun p hp => ?_
  obtain rfl := Option.some.inj hp
  decide

/-- The ready program 2 is lost: it is in the ready queue before the switch, and in no queue after it. -/
theorem not_complete_last : ¬∀ s₀ s all sType, Roster s₀ all → Switching s₀ s → sType ≠ s.sType →
    Complete s all sType := by
  intro h
  have hcomplete := h _ (twoPrograms .READY) [1, 2] .FIFS (twoPrograms_roster .READY) .refl (by decide)
  exact ((twoPrograms_roster .READY).complete_iff (by decide)).mp hcomplete 2 rfl (by decide)

end SysuOs.Programs
