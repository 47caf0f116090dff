import Mathlib.Data.List.Rotate
import SysuOs.ProgramReady

/-! Whose turn it is. While no program is made, blocked, woken or ended, `schedule` turns the running program
and the ready queue round, one place a call. -/

namespace SysuOs.Programs

open ProgramManager

/-- The programs in the ready queue of the scheduler in use, whatever the other lists hold. -/
def Queued (s : ProgramManager) (queue : List Nat) : Prop :=
  ∃ C, Lists s.links {.readyPrograms s.sType} C ∧
    C (.readyPrograms s.sType) = queue.map .tagInGeneralList

/-- Program `r` runs and the programs of `queue` are ready, all of them alive. -/
structure Waiting (s : ProgramManager) (r : Nat) (queue : List Nat) : Prop where
  running : s.running = some r
  ready : Queued s queue
  apart : r ∉ queue
  alive : ∀ p ∈ r :: queue, (s.pcbSet p).status ≠ .DEAD

/-- `schedule` is called `k` times, with any ticks of the clock in between. -/
inductive Rounds (fuel : Nat) (s : ProgramManager) : Nat → ProgramManager → Prop
  | zero : Rounds fuel s 0 s
  | tick {k s'} : Rounds fuel s k s' → Rounds fuel s k s'.onTick.2
  | schedule {k s' s''} : Rounds fuel s k s' → s'.schedule fuel = .ret s'' → Rounds fuel s (k + 1) s''

section Step

variable {s s' : ProgramManager} {fuel r p : Nat} {queue : List Nat}

theorem tag_mem_map : .tagInGeneralList p ∈ queue.map Item.tagInGeneralList ↔ p ∈ queue := by
  constructor
  · intro h
    obtain ⟨q, hq, heq⟩ := List.mem_map.mp h
    rwa [← Item.tagInGeneralList.inj heq]
  · exact List.mem_map_of_mem

theorem Queued.nodup (h : Queued s queue) : queue.Nodup := by
  obtain ⟨C, hlists, hC⟩ := h
  have hnodup := hlists.nodup rfl
  rw [hC] at hnodup
  exact hnodup.of_map _

/-- The queue is determined by the links. -/
theorem Queued.unique {queue' : List Nat} (h : Queued s queue) (h' : Queued s queue') :
    queue = queue' := by
  obtain ⟨C, hlists, hC⟩ := h
  obtain ⟨C', hlists', hC'⟩ := h'
  have heq := (hlists.walk _ rfl).unique (hlists'.walk _ rfl)
  rw [hC, hC'] at heq
  exact List.map_injective_iff.mpr (fun _ _ => Item.tagInGeneralList.inj) heq

/-- The queue depends on the links only. -/
theorem Queued.congr (h : Queued s queue) (hlinks : s'.links = s.links) (htype : s'.sType = s.sType) :
    Queued s' queue := by
  rw [Queued, hlinks, htype]
  exact h

theorem Queued.pickNext_nil (h : Queued s []) : s.pickNext = (none, s) := by
  obtain ⟨C, hlists, hC⟩ := h
  have hfront := hlists.front rfl
  rw [hC] at hfront
  rw [ProgramManager.pickNext, hfront, Links.popFront, show s.links.next _ = none from hfront]
  rfl

theorem Queued.pickNext_cons (h : Queued s (p :: queue)) :
    ∃ links, s.pickNext = (some p, { s with links }) ∧ Queued { s with links } queue := by
  obtain ⟨C, hlists, hC⟩ := h
  have hfront := hlists.front rfl
  have hpop := hlists.popFront rfl
  rw [hC] at hfront hpop
  refine ⟨s.links.popFront (.readyPrograms s.sType), ?_, _, hpop, Function.update_self _ _ _⟩
  rw [ProgramManager.pickNext, hfront]
  rfl

theorem Queued.enqueue_returns (h : Queued s queue) (hfuel : queue.length < fuel) (p : Nat) :
    ∃ links, s.enqueue fuel p = .ret { s with links } := by
  obtain ⟨C, hlists, hC⟩ := h
  have hlength : (C (.readyPrograms s.sType)).length < fuel := by
    rw [hC, List.length_map]
    exact hfuel
  have hreturns : ∃ links, s.links.pushBack fuel (.readyPrograms s.sType) (.tagInGeneralList p) = .ret links :=
    hlists.pushBack_returns rfl hlength
  obtain ⟨links, hpush⟩ := hreturns
  refine ⟨links, ?_⟩
  rw [ProgramManager.enqueue, hpush]
  rfl

/-- A program that is not queued goes to the end. -/
theorem Queued.enqueue (h : Queued s queue) (hp : p ∉ queue) (hcall : s.enqueue fuel p = .ret s') :
    Queued s' (queue ++ [p]) := by
  obtain ⟨C, hlists, hC⟩ := h
  obtain ⟨links, hpush, hcall⟩ := Outcome.bind_eq_ret hcall
  obtain rfl := Outcome.ret.inj hcall
  have hfree : ∀ k ∈ ({.readyPrograms s.sType} : Set Item), Item.tagInGeneralList p ∉ C k := by
    rintro k rfl
    rw [hC, tag_mem_map]
    exact hp
  refine ⟨_, hlists.pushBack rfl (fun hmem => Item.noConfusion hmem) hfree hpush, ?_⟩
  rw [Function.update_self, hC, List.map_append]
  rfl

theorem setStatus_status (q : Nat) (status : ProgramStatus) :
    ((s.setStatus p status).pcbSet q).status = if q = p then status else (s.pcbSet q).status := by
  by_cases hq : q = p
  · rw [if_pos hq, hq, ProgramManager.setStatus, setPCB_self]
  · rw [if_neg hq, ProgramManager.setStatus, setPCB_of_ne hq]

/-- One call: the first of the queue runs and the running program goes to the end. -/
theorem Waiting.schedule (h : Waiting s r queue) (hfuel : queue.length < fuel) :
    ∃ s' r' queue', s.schedule fuel = .ret s' ∧ r' :: queue' = (r :: queue).rotate 1 ∧
      Waiting s' r' queue' := by
  have hlive := h.alive r List.mem_cons_self
  cases queue with
  | nil =>
      refine ⟨s, r, [], ?_, (List.rotate_singleton r 1).symm, h⟩
      rw [ProgramManager.schedule, h.running]
      dsimp only
      rw [h.ready.pickNext_nil]
      exact if_neg hlive
  | cons p queue =>
      obtain ⟨links, hpick, hready⟩ := h.ready.pickNext_cons
      have hrp : r ≠ p ∧ r ∉ queue := by
        rw [← not_or, ← List.mem_cons]
        exact h.apart
      have hready' : Queued (({ s with links }.setStatus p .RUNNING).setStatus r .READY) queue :=
        hready.congr rfl rfl
      obtain ⟨links', henqueue⟩ := hready'.enqueue_returns (Nat.lt_of_succ_lt hfuel) r
      have hend := hready'.enqueue hrp.2 henqueue
      have hcall : s.schedule fuel = .ret { (({ s with links }.setStatus p .RUNNING).setStatus r .READY) with
          links := links', running := some p } := by
        rw [ProgramManager.schedule, h.running]
        dsimp only
        rw [hpick]
        dsimp only
        rw [if_neg hlive, henqueue]
        rfl
      have hturn : p :: (queue ++ [r]) = (r :: p :: queue).rotate 1 := by
        rw [List.rotate_cons_succ, List.rotate_zero, List.cons_append]
      refine ⟨_, p, queue ++ [r], hcall, hturn, rfl, hend.congr rfl rfl, ?_, ?_⟩
      · rw [List.mem_append, List.mem_singleton, not_or]
        exact ⟨(List.nodup_cons.mp h.ready.nodup).1, hrp.1.symm⟩
      · intro q hq
        show ((({ s with links }.setStatus p .RUNNING).setStatus r .READY).pcbSet q).status ≠ .DEAD
        rw [setStatus_status, setStatus_status]
        split_ifs with hqr hqp
        · exact fun hdead => ProgramStatus.noConfusion hdead
        · exact fun hdead => ProgramStatus.noConfusion hdead
        · refine h.alive q ?_
          rw [List.mem_cons, List.mem_append, List.mem_singleton] at hq
          rw [List.mem_cons, List.mem_cons]
          tauto

/-- A tick counts in the control block of the running program and changes nothing else. -/
theorem onTick_spec : (s.onTick.2).links = s.links ∧ (s.onTick.2).sType = s.sType ∧
    (s.onTick.2).running = s.running ∧ ∀ p, ((s.onTick.2).pcbSet p).status = (s.pcbSet p).status := by
  rw [onTick]
  cases hrun : s.running with
  | none => exact ⟨rfl, rfl, hrun, fun _ => rfl⟩
  | some r =>
      dsimp only
      by_cases hstatus : (s.pcbSet r).status ≠ .RUNNING
      · rw [if_pos hstatus]
        exact ⟨rfl, rfl, hrun, fun _ => rfl⟩
      · rw [if_neg hstatus]
        cases htype : s.sType with
        | RR =>
            refine ⟨rfl, htype, hrun, fun p => ?_⟩
            by_cases hp : p = r
            · rw [hp, setPCB_self]
            · rw [setPCB_of_ne hp]
        | FIFS => exact ⟨rfl, htype, hrun, fun _ => rfl⟩

theorem Waiting.tick (h : Waiting s r queue) : Waiting s.onTick.2 r queue := by
  obtain ⟨hlinks, htype, hrun, hstatus⟩ := @onTick_spec s
  refine ⟨hrun.trans h.running, h.ready.congr hlinks htype, h.apart, fun p hp => ?_⟩
  rw [hstatus]
  exact h.alive p hp

/-- After `k` calls the running program and the queue have turned by `k`. -/
theorem Rounds.waiting {k : Nat} (hrounds : Rounds fuel s k s') (h : Waiting s r queue)
    (hfuel : queue.length < fuel) :
    ∃ r' queue', r' :: queue' = (r :: queue).rotate k ∧ Waiting s' r' queue' := by
  induction hrounds with
  | zero => exact ⟨r, queue, (List.rotate_zero _).symm, h⟩
  | tick _ ih =>
      obtain ⟨r', queue', hturn, hwaiting⟩ := ih
      exact ⟨r', queue', hturn, hwaiting.tick⟩
  | schedule _ hcall ih =>
      obtain ⟨r', queue', hturn, hwaiting⟩ := ih
      have hlength : queue'.length = queue.length := by
        have heq := congrArg List.length hturn
        rw [List.length_rotate, List.length_cons, List.length_cons] at heq
        omega
      obtain ⟨s₁, r₁, queue₁, hcall₁, hturn₁, hwaiting₁⟩ := hwaiting.schedule (hlength ▸ hfuel)
      rw [hcall] at hcall₁
      obtain rfl := Outcome.ret.inj hcall₁
      refine ⟨r₁, queue₁, ?_, hwaiting₁⟩
      rw [hturn₁, hturn, List.rotate_rotate]

/-- The program that the `k`-th call gives the processor. -/
theorem Rounds.running {k : Nat} (hrounds : Rounds fuel s k s') (h : Waiting s r queue)
    (hfuel : queue.length < fuel) : s'.running = (r :: queue)[k % (queue.length + 1)]? := by
  obtain ⟨r', queue', hturn, hwaiting⟩ := hrounds.waiting h hfuel
  have hfirst : ((r :: queue).rotate k)[0]? = some r' := by rw [← hturn]; rfl
  rw [hwaiting.running, ← hfirst, List.getElem?_rotate (Nat.succ_pos _), Nat.zero_add, List.length_cons]

end Step

/-- Between two turns of one program every other one has its turn. -/
theorem turn_between {L : List Nat} {i j q p : Nat} (hnodup : L.Nodup) (hij : i < j)
    (hi : L[i % L.length]? = some q) (hj : L[j % L.length]? = some q) (hp : p ∈ L) (hpq : p ≠ q) :
    ∃ m, i < m ∧ m < j ∧ L[m % L.length]? = some p := by
  have hpos : 0 < L.length := List.length_pos_of_mem hp
  obtain ⟨t, ht, htp⟩ := List.getElem_of_mem hp
  have hilt := Nat.mod_lt i hpos
  have heq : i % L.length = j % L.length := (List.getElem?_inj hilt hnodup).mp (hi.trans hj.symm)
  have htne : t ≠ i % L.length := by
    rintro rfl
    rw [List.getElem?_eq_getElem hilt, htp] at hi
    exact hpq (Option.some.inj hi)
  -- the place `t` comes after `i` and before a whole round is over
  have hround : i + L.length ≤ j := by
    have hmod : (j - i) % L.length = 0 := Nat.sub_mod_eq_zero_of_mod_eq heq.symm
    exact le_of_not_gt fun hlt => absurd (Nat.mod_eq_of_lt (by omega : j - i < L.length)) (by omega)
  have hi' := Nat.div_add_mod i L.length
  by_cases hlt : i % L.length < t
  · refine ⟨L.length * (i / L.length) + t, by omega, by omega, ?_⟩
    rw [Nat.mul_add_mod, Nat.mod_eq_of_lt ht, List.getElem?_eq_getElem ht, htp]
  · refine ⟨L.length * (i / L.length) + (L.length + t), by omega, by omega, ?_⟩
    rw [Nat.mul_add_mod, Nat.add_mod_left, Nat.mod_eq_of_lt ht, List.getElem?_eq_getElem ht, htp]

/-- Every call returns; the first `n` calls give the processor to the programs of the queue in order, the next one
gives it back to `r` and leaves the state as it was; no program has a second turn while another waits. -/
theorem rounds_order {s : ProgramManager} {fuel r : Nat} {queue : List Nat} (h : Waiting s r queue)
    (hfuel : queue.length < fuel) :
    (∀ k s', Rounds fuel s k s' → ∃ s'', s'.schedule fuel = .ret s'') ∧
      (∀ k s', Rounds fuel s (k + 1) s' → k < queue.length → s'.running = queue[k]?) ∧
      (∀ s', Rounds fuel s (queue.length + 1) s' → Waiting s' r queue) ∧
      ∀ i j q p, i < j → (∃ s', Rounds fuel s i s' ∧ s'.running = some q) →
        (∃ s', Rounds fuel s j s' ∧ s'.running = some q) → p ∈ r :: queue → p ≠ q →
          ∃ m, i < m ∧ m < j ∧ ∀ s', Rounds fuel s m s' → s'.running = some p := by
  refine ⟨fun k s' hrounds => ?_, fun k s' hrounds hk => ?_, fun s' hrounds => ?_, ?_⟩
  · obtain ⟨r', queue', hturn, hwaiting⟩ := hrounds.waiting h hfuel
    have heq := congrArg List.length hturn
    rw [List.length_rotate, List.length_cons, List.length_cons] at heq
    obtain ⟨s'', -, -, hcall, -⟩ := hwaiting.schedule (by omega : queue'.length < fuel)
    exact ⟨s'', hcall⟩
  · rw [hrounds.running h hfuel, Nat.mod_eq_of_lt (by omega), List.getElem?_cons_succ]
  · obtain ⟨r', queue', hturn, hwaiting⟩ := hrounds.waiting h hfuel
    rw [← List.length_cons, List.rotate_length] at hturn
    obtain ⟨rfl, rfl⟩ := List.cons.inj hturn
    exact hwaiting
  · rintro i j q p hij ⟨s₁, hrounds₁, hrun₁⟩ ⟨s₂, hrounds₂, hrun₂⟩ hp hpq
    have hnodup : (r :: queue).Nodup := List.nodup_cons.mpr ⟨h.apart, h.ready.nodup⟩
    obtain ⟨m, him, hmj, hm⟩ := turn_between hnodup hij ((hrounds₁.running h hfuel).symm.trans hrun₁)
      ((hrounds₂.running h hfuel).symm.trans hrun₂) hp hpq
    exact ⟨m, him, hmj, fun s' hrounds => (hrounds.running h hfuel).trans hm⟩

/-- Program 1 runs, 2 and 3 are ready. -/
def threePrograms : ProgramManager where
  links :=
    { next := fun
        | .readyPrograms .RR => some (.tagInGeneralList 2)
        | .tagInGeneralList 2 => some (.tagInGeneralList 3)
        | _ => none
      previous := fun
        | .tagInGeneralList 2 => some (.readyPrograms .RR)
        | .tagInGeneralList 3 => some (.tagInGeneralList 2)
        | _ => none }
  pcbSet := fun p => { PCB.zero with status := if p = 1 then .RUNNING else .READY, pid := p, ticks := 10 }
  pcbSetStatus := fun p => decide (p < 4)
  running := some 1
  sType := .RR

theorem threePrograms_waiting : Waiting threePrograms 1 [2, 3] where
  running := rfl
  ready := by
    refine ⟨fun _ => [.tagInGeneralList 2, .tagInGeneralList 3], ⟨?_, ?_, ?_, ?_⟩, rfl⟩
    · rintro _ rfl
      exact ⟨rfl, rfl, rfl⟩
    · rintro _ rfl
      exact ⟨rfl, rfl, trivial⟩
    · rintro _ rfl _ rfl
      decide
    · rintro _ rfl _ rfl _ _ _
      rfl
  apart := by decide
  alive := by decide

theorem rounds_order_three : ∃ s', Rounds 3 threePrograms 3 s' ∧ Waiting s' 1 [2, 3] := by
  obtain ⟨hreturns, -, hround, -⟩ := rounds_order threePrograms_waiting (by decide : [2, 3].length < 3)
  obtain ⟨s₁, h₁⟩ := hreturns 0 _ .zero
  obtain ⟨s₂, h₂⟩ := hreturns 1 _ (.schedule .zero h₁)
  obtain ⟨s₃, h₃⟩ := hreturns 2 _ (.schedule (.schedule .zero h₁) h₂)
  have hrounds : Rounds 3 threePrograms 3 s₃ := .schedule (.schedule (.schedule .zero h₁) h₂) h₃
  exact ⟨s₃, hrounds, hround s₃ hrounds⟩

end SysuOs.Programs
