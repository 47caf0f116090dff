import SysuOs.TimeSlice
import SysuOs.ProgramRounds

/-! How long a program keeps the processor when nothing happens but interrupts of the timer. The round robin
scheduler counts a program's ticks down and never up again, as far as an `int` goes; the other scheduler does not
count. -/

namespace SysuOs.Programs

open ProgramManager

/-- `n` interrupts of the timer. -/
def timeInterrupts (fuel : Nat) : Nat → ProgramManager → Outcome ProgramManager
  | 0, s => pure s
  | n + 1, s => timeInterrupts fuel n s >>= ProgramManager.timeInterrupt fuel

/-- What is left of the time slices of some programs. -/
def slices (s : ProgramManager) (programs : List Nat) : List (Nat × ℤ) :=
  programs.map fun p => (p, (s.pcbSet p).ticks)

/-- `n` interrupts take no program's ticks below the least `int`. -/
def CountsDown (s : ProgramManager) (programs : List Nat) (n : Nat) : Prop :=
  ∀ p ∈ programs, -2 ^ 31 + n ≤ (s.pcbSet p).ticks ∧ (s.pcbSet p).ticks < 2 ^ 31

instance (s : ProgramManager) (programs : List Nat) (n : Nat) : Decidable (CountsDown s programs n) :=
  inferInstanceAs (Decidable (∀ p ∈ programs, _))

section Timer

variable {s s' : ProgramManager} {fuel r n p : Nat} {queue : List Nat}

theorem slices_fst (s : ProgramManager) (programs : List Nat) :
    (slices s programs).map Prod.fst = programs := by
  rw [slices, List.map_map]
  exact List.map_id _

theorem slices_cons (s : ProgramManager) (p : Nat) (programs : List Nat) :
    slices s (p :: programs) = (p, (s.pcbSet p).ticks) :: slices s programs := rfl

theorem slices_length (s : ProgramManager) (programs : List Nat) :
    (slices s programs).length = programs.length := List.length_map _

theorem slices_congr {programs : List Nat}
    (h : ∀ p ∈ programs, (s'.pcbSet p).ticks = (s.pcbSet p).ticks) : slices s' programs = slices s programs :=
  List.map_congr_left fun p hp => by rw [h p hp]

theorem countsDown_iff {programs : List Nat} :
    CountsDown s programs n ↔ ∀ m ∈ slices s programs, -2 ^ 31 + n ≤ m.2 ∧ m.2 < 2 ^ 31 := by
  simp only [CountsDown, slices, List.forall_mem_map]

/-- A tick takes no more than one from a slice. -/
theorem countsDown_tick {programs programs' : List Nat} (h : CountsDown s programs (n + 1))
    (htick : slices s' programs' = TimeSlice.tick (slices s programs)) : CountsDown s' programs' n := by
  rw [countsDown_iff] at h ⊢
  intro m hm
  rw [htick] at hm
  obtain ⟨t, ht, hle, hlt⟩ := TimeSlice.tick_mem hm
  obtain ⟨hlow, hhigh⟩ := h _ ht
  push_cast at hlow
  exact ⟨by omega, by omega⟩

theorem CountsDown.mono {programs : List Nat} {m : Nat} (h : CountsDown s programs n) (hle : m ≤ n) :
    CountsDown s programs m := fun p hp => ⟨by have := (h p hp).1; omega, (h p hp).2⟩

/-- The count of the running program does not wrap around. -/
theorem CountsDown.bmod (h : CountsDown s (r :: queue) (n + 1)) :
    ((s.pcbSet r).ticks - 1).bmod (2 ^ 32) = (s.pcbSet r).ticks - 1 := by
  obtain ⟨hlow, hhigh⟩ := h r List.mem_cons_self
  push_cast at hlow
  exact Int.bmod_eq_of_le (by omega) (by omega)

theorem setStatus_ticks (q : Nat) (status : ProgramStatus) :
    ((s.setStatus p status).pcbSet q).ticks = (s.pcbSet q).ticks := by
  by_cases hq : q = p
  · rw [hq, ProgramManager.setStatus, setPCB_self]
  · rw [ProgramManager.setStatus, setPCB_of_ne hq]

theorem enqueue_pcbSet (henqueue : s.enqueue fuel p = .ret s') :
    s'.pcbSet = s.pcbSet ∧ s'.sType = s.sType := by
  obtain ⟨links, -, hret⟩ := Outcome.bind_eq_ret henqueue
  obtain rfl := Outcome.ret.inj hret
  exact ⟨rfl, rfl⟩

/-- `schedule` leaves the time slices and the scheduler as they are, and the program it switches to is
`RUNNING`. -/
theorem schedule_frame (hcall : s.schedule fuel = .ret s') :
    s'.sType = s.sType ∧ (∀ p, (s'.pcbSet p).ticks = (s.pcbSet p).ticks) ∧
      ∀ r', s'.running = some r' → s.running ≠ some r' → (s'.pcbSet r').status = .RUNNING := by
  obtain ⟨cur, hcur, ⟨-, -, rfl⟩ | ⟨next, -, ⟨-, rfl⟩ | ⟨-, s₁, henqueue, rfl⟩⟩⟩ := schedule_cases hcall
  · exact ⟨rfl, fun _ => rfl, fun r' hrun hne => absurd hrun hne⟩
  · refine ⟨rfl, fun p => setStatus_ticks p .RUNNING, fun r' hrun _ => ?_⟩
    obtain rfl := Option.some.inj hrun
    exact (setStatus_status next .RUNNING).trans (if_pos rfl)
  · obtain ⟨hpcb, htype⟩ := enqueue_pcbSet henqueue
    refine ⟨htype, fun p => ?_, fun r' hrun hne => ?_⟩
    · show (s₁.pcbSet p).ticks = _
      rw [hpcb, setStatus_ticks, setStatus_ticks]
      rfl
    · obtain rfl := Option.some.inj hrun
      have hother : next ≠ cur := by
        rintro rfl
        exact hne hcur
      show (s₁.pcbSet next).status = _
      rw [hpcb, setStatus_status, if_neg hother, setStatus_status, if_pos rfl]

/-- One interrupt is one tick for the running program and the queue. -/
theorem timeInterrupt_tick (h : Waiting s r queue) (htype : s.sType = .RR)
    (hstatus : (s.pcbSet r).status = .RUNNING) (hfuel : queue.length < fuel)
    (hcount : CountsDown s (r :: queue) (n + 1)) :
    ∃ s' r' queue', s.timeInterrupt fuel = .ret s' ∧ Waiting s' r' queue' ∧ s'.sType = .RR ∧
      (s'.pcbSet r').status = .RUNNING ∧ queue'.length = queue.length ∧
      slices s' (r' :: queue') = TimeSlice.tick (slices s (r :: queue)) := by
  have htick : s.onTick = (decide ((s.pcbSet r).ticks - 1 ≤ 0), s.setPCB r { s.pcbSet r with
      ticks := (s.pcbSet r).ticks - 1
      ticksPassedBy := ((s.pcbSet r).ticksPassedBy + 1).bmod (2 ^ 32) }) := by
    simp only [onTick, h.running, hstatus, htype, ne_eq, not_true_eq_false, if_false, hcount.bmod]
  have hwaiting := h.tick
  rw [htick] at hwaiting
  dsimp only at hwaiting
  generalize hs₁ : s.setPCB r { s.pcbSet r with
    ticks := (s.pcbSet r).ticks - 1
    ticksPassedBy := ((s.pcbSet r).ticksPassedBy + 1).bmod (2 ^ 32) } = s₁ at htick hwaiting
  have hr : s₁.pcbSet r = { s.pcbSet r with
      ticks := (s.pcbSet r).ticks - 1
      ticksPassedBy := ((s.pcbSet r).ticksPassedBy + 1).bmod (2 ^ 32) } := by
    rw [← hs₁, setPCB_self]
  have hqueue : slices s₁ queue = slices s queue := by
    refine slices_congr fun p hp => ?_
    have hpr : p ≠ r := by
      rintro rfl
      exact h.apart hp
    rw [← hs₁, setPCB_of_ne hpr]
  have htype₁ : s₁.sType = .RR := by
    rw [← hs₁]
    exact htype
  have hstatus₁ : (s₁.pcbSet r).status = .RUNNING := by
    rw [hr]
    exact hstatus
  have hslices : slices s₁ (r :: queue) = (r, (s.pcbSet r).ticks - 1) :: slices s queue := by
    rw [slices_cons, hr, hqueue]
  by_cases hleft : (s.pcbSet r).ticks - 1 ≤ 0
  · obtain ⟨s', r', queue', hcall, hturn, hwaiting'⟩ := hwaiting.schedule hfuel
    obtain ⟨htype', hticks, hrunning⟩ := schedule_frame hcall
    refine ⟨s', r', queue', ?_, hwaiting', htype'.trans htype₁, ?_, ?_, ?_⟩
    · rw [timeInterrupt, htick]
      dsimp only
      rw [if_pos (decide_eq_true hleft)]
      exact hcall
    · by_cases hsame : r' = r
      · -- the queue is empty and the program goes on
        subst hsame
        have hnil : queue = [] := by
          cases queue with
          | nil => rfl
          | cons p queue =>
              rw [List.rotate_cons_succ, List.rotate_zero, List.cons_append] at hturn
              obtain ⟨rfl, -⟩ := List.cons.inj hturn
              exact absurd List.mem_cons_self h.apart
        subst hnil
        rw [ProgramManager.schedule, hwaiting.running] at hcall
        dsimp only at hcall
        rw [hwaiting.ready.pickNext_nil] at hcall
        dsimp only at hcall
        rw [if_neg (hwaiting.alive r' List.mem_cons_self)] at hcall
        rw [← Outcome.ret.inj hcall]
        exact hstatus₁
      · refine hrunning r' hwaiting'.running ?_
        rw [hwaiting.running]
        exact fun heq => hsame (Option.some.inj heq).symm
    · have hlength := congrArg List.length hturn
      rw [List.length_rotate, List.length_cons, List.length_cons] at hlength
      omega
    · have hmoved : slices s' (r' :: queue') = (slices s₁ (r :: queue)).rotate 1 := by
        rw [hturn, slices_congr fun p _ => hticks p, slices, List.map_rotate]
        rfl
      rw [hmoved, hslices, List.rotate_cons_succ, List.rotate_zero, slices_cons, TimeSlice.tick, if_pos hleft]
  · refine ⟨s₁, r, queue, ?_, hwaiting, htype₁, hstatus₁, rfl, ?_⟩
    · rw [timeInterrupt, htick]
      dsimp only
      rw [if_neg (by simpa using hleft)]
      rfl
    · rw [hslices, slices_cons, TimeSlice.tick, if_neg hleft]

/-- `n` interrupts are `n` ticks. -/
theorem timeInterrupts_tick (h : Waiting s r queue) (htype : s.sType = .RR)
    (hstatus : (s.pcbSet r).status = .RUNNING) (hfuel : queue.length < fuel) (n : Nat) {m : Nat}
    (hcount : CountsDown s (r :: queue) (n + m)) :
    ∃ s' r' queue', timeInterrupts fuel n s = .ret s' ∧ Waiting s' r' queue' ∧ s'.sType = .RR ∧
      (s'.pcbSet r').status = .RUNNING ∧ queue'.length = queue.length ∧
      slices s' (r' :: queue') = TimeSlice.tick^[n] (slices s (r :: queue)) ∧ CountsDown s' (r' :: queue') m := by
  induction n generalizing m with
  | zero => exact ⟨s, r, queue, rfl, h, htype, hstatus, rfl, rfl, hcount.mono (Nat.le_add_left _ _)⟩
  | succ n ih =>
      obtain ⟨s₁, r₁, queue₁, hcalls, hwaiting, htype₁, hstatus₁, hlength, hslices, hcount₁⟩ :=
        ih (m := m + 1) (by rwa [Nat.add_comm m 1, ← Nat.add_assoc])
      obtain ⟨s', r', queue', hcall, hwaiting', htype', hstatus', hlength', hslices'⟩ :=
        timeInterrupt_tick hwaiting htype₁ hstatus₁ (hlength ▸ hfuel) hcount₁
      refine ⟨s', r', queue', ?_, hwaiting', htype', hstatus', hlength'.trans hlength, ?_,
        countsDown_tick hcount₁ hslices'⟩
      · rw [timeInterrupts, hcalls]
        exact hcall
      · rw [hslices', hslices, Function.iterate_succ_apply']

/-- Under round robin the running program after `n` interrupts is the one whose turn it is, and every program
has its turn again and again, as long as no count of ticks wraps around; under the other scheduler the running
program is never interrupted. -/
theorem timer_turns (h : Waiting s r queue) (hstatus : (s.pcbSet r).status = .RUNNING)
    (hfuel : queue.length < fuel) :
    (s.sType = .RR → ∀ n, CountsDown s (r :: queue) n → ∃ s', timeInterrupts fuel n s = .ret s' ∧
        s'.running = TimeSlice.holder (slices s (r :: queue)) n) ∧
      (s.sType = .RR → ∀ n,
        CountsDown s (r :: queue) (n + (TimeSlice.round (slices s (r :: queue)) + (queue.length + 1))) →
        ∀ p ∈ r :: queue, ∃ k s', n ≤ k ∧
          k < n + (TimeSlice.round (slices s (r :: queue)) + (queue.length + 1)) ∧
          timeInterrupts fuel k s = .ret s' ∧ s'.running = some p) ∧
      (s.sType = .FIFS → ∀ n, timeInterrupts fuel n s = .ret s) := by
  have hholder : s.sType = .RR → ∀ n, CountsDown s (r :: queue) n → ∃ s', timeInterrupts fuel n s = .ret s' ∧
      s'.running = TimeSlice.holder (slices s (r :: queue)) n := by
    intro htype n hcount
    obtain ⟨s', r', queue', hcalls, hwaiting, -, -, -, hslices, -⟩ :=
      timeInterrupts_tick (m := 0) h htype hstatus hfuel n hcount
    refine ⟨s', hcalls, ?_⟩
    rw [hwaiting.running, ← TimeSlice.iterate_holder, ← hslices]
    rfl
  refine ⟨hholder, fun htype n hcount p hp => ?_, fun htype n => ?_⟩
  · rw [← slices_fst s (r :: queue)] at hp
    obtain ⟨k, hnk, hk, hturn⟩ := TimeSlice.exists_holder hp n
    rw [slices_length, List.length_cons] at hk
    obtain ⟨s', hcalls, hrunning⟩ := hholder htype k (hcount.mono hk.le)
    exact ⟨k, s', hnk, hk, hcalls, hrunning.trans hturn⟩
  · induction n with
    | zero => rfl
    | succ n ih =>
        rw [timeInterrupts, ih]
        simp only [Outcome.ret_bind, timeInterrupt, onTick, h.running, hstatus, htype, ne_eq,
          not_true_eq_false, if_false]
        rfl

end Timer

theorem timer_turns_three : ∃ s', timeInterrupts 3 31 threePrograms = .ret s' ∧ s'.running = some 2 := by
  obtain ⟨s', hcalls, hrunning⟩ :=
    (timer_turns threePrograms_waiting rfl (by decide : [2, 3].length < 3)).1 rfl 31 (by decide)
  exact ⟨s', hcalls, hrunning.trans (by decide)⟩

end SysuOs.Programs
