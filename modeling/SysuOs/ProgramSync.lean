import SysuOs.ProgramReady

/-! Semaphores. A step is one statement of `P` or `V` of the running program, a call of `schedule`, or a
tick, which may fall between any two statements. What has happened so far is kept beside the state: the
calls that have completed, and on whose waiting list a program has put itself. -/

namespace SysuOs.Programs

open ProgramManager

/-- The statements of `Semaphore::P`. -/
inductive PPoint where
  | lock
  | test
  | decrement
  | unlockReturn
  | pushBack
  | block
  | unlockSchedule
  | schedule
  deriving DecidableEq, Repr

/-- The statements of `Semaphore::V`. -/
inductive VPoint where
  | lock
  | increment
  | test
  | unlockReturn
  | front
  | popFront (program : Nat)
  | unlockWake (program : Nat)
  | wakeUp (program : Nat)
  deriving DecidableEq, Repr

/-- Where a program is. -/
inductive Place where
  | outside
  | inP (semaphore : Nat) (point : PPoint)
  | inV (semaphore : Nat) (point : VPoint)
  deriving DecidableEq, Repr

/-- Whether a program at this place holds the lock of `k`. -/
def Place.holds (k : Nat) : Place → Bool
  | .inP _ .lock => false
  | .inP _ .schedule => false
  | .inP j _ => decide (j = k)
  | .inV _ .lock => false
  | .inV _ (.wakeUp _) => false
  | .inV j _ => decide (j = k)
  | .outside => false

/-- Whether a program at this place has a unit of `k` in hand: taken by a `P` that has not returned, or to
be given by a `V`. -/
def Place.pending (k : Nat) : Place → Bool
  | .inP j .unlockReturn => decide (j = k)
  | .inV j .lock => decide (j = k)
  | .inV j .increment => decide (j = k)
  | _ => false

/-- The places of the programs as long as none has had to wait. -/
def Place.calm : Place → Bool
  | .inP _ .block => false
  | .inP _ .unlockSchedule => false
  | .inP _ .schedule => false
  | .inV _ .front => false
  | .inV _ (.popFront _) => false
  | .inV _ (.unlockWake _) => false
  | .inV _ (.wakeUp _) => false
  | _ => true

/-- The program manager, the counters and locks of the semaphores and the places of the programs; then
the history: the completed calls of `P`, the calls of `V`, and the semaphore a program has put itself on
the list of and no `V` has taken it off. -/
structure Sync where
  manager : ProgramManager
  counter : Nat → Nat
  semLock : Nat → Bool
  place : Nat → Place
  completedP : Nat → Nat
  calledV : Nat → Nat
  waitsOn : Nat → Option Nat

namespace Sync

def goto (s : Sync) (p : Nat) (place : Place) : Sync := { s with place := Function.update s.place p place }

/-- `semLock.lock` takes the lock or tries again. -/
def lock (s : Sync) (p k : Nat) (next : Place) : Sync :=
  if s.semLock k then s else { s with semLock := Function.update s.semLock k true }.goto p next

def unlock (s : Sync) (p k : Nat) (next : Place) : Sync :=
  { s with semLock := Function.update s.semLock k false }.goto p next

/-- The next statement of `P`, by the running program `p`. -/
def stepP (fuel : Nat) (s : Sync) (p k : Nat) : PPoint → Outcome Sync
  | .lock => .ret (s.lock p k (.inP k .test))
  | .test => .ret (s.goto p (.inP k (if s.counter k > 0 then .decrement else .pushBack)))
  | .decrement =>
      .ret ({ s with counter := Function.update s.counter k (u32 (s.counter k - 1)) }.goto p
        (.inP k .unlockReturn))
  | .unlockReturn =>
      .ret ({ s with completedP := Function.update s.completedP k (s.completedP k + 1) }.unlock p k .outside)
  | .pushBack => do
      let links ← s.manager.links.pushBack fuel (.waiting k) (.tagInGeneralList p)
      pure ({ s with
        manager := { s.manager with links }
        waitsOn := Function.update s.waitsOn p (some k) }.goto p (.inP k .block))
  | .block => .ret ({ s with manager := s.manager.setStatus p .BLOCKED }.goto p (.inP k .unlockSchedule))
  | .unlockSchedule => .ret (s.unlock p k (.inP k .schedule))
  | .schedule => do
      let manager ← s.manager.schedule fuel
      pure ({ s with manager }.goto p (.inP k .lock))

/-- The next statement of `V`, by the running program `p`. -/
def stepV (fuel : Nat) (s : Sync) (p k : Nat) : VPoint → Outcome Sync
  | .lock => .ret (s.lock p k (.inV k .increment))
  | .increment =>
      .ret ({ s with counter := Function.update s.counter k (u32 (s.counter k + 1)) }.goto p (.inV k .test))
  | .test => do
      let size ← s.manager.links.size fuel (.waiting k)
      pure (s.goto p (.inV k (if size ≠ 0 then .front else .unlockReturn)))
  | .unlockReturn => .ret (s.unlock p k .outside)
  | .front =>
      match (s.manager.links.front (.waiting k)).bind Item.pcb with
      | none => .halt
      | some program => .ret (s.goto p (.inV k (.popFront program)))
  | .popFront program =>
      .ret ({ s with
        manager := { s.manager with links := s.manager.links.popFront (.waiting k) }
        waitsOn := Function.update s.waitsOn program none }.goto p (.inV k (.unlockWake program)))
  | .unlockWake program => .ret (s.unlock p k (.inV k (.wakeUp program)))
  | .wakeUp program => .ret ({ s with manager := s.manager.MESA_WakeUp program }.goto p .outside)

/-- What may happen next. -/
inductive Event where
  | callP (semaphore : Nat)
  | callV (semaphore : Nat)
  | statement
  | schedule
  | timeInterrupt
  deriving DecidableEq, Repr

/-- One step. A program calls `P`, `V` or `schedule` when it is in neither of them. -/
def step (fuel : Nat) (s : Sync) (e : Event) : Outcome Sync :=
  match s.manager.running with
  | none => .halt
  | some p =>
      match e, s.place p with
      | .callP k, .outside => .ret (s.goto p (.inP k .lock))
      | .callV k, .outside =>
          .ret ({ s with calledV := Function.update s.calledV k (s.calledV k + 1) }.goto p (.inV k .lock))
      | .statement, .inP k point => s.stepP fuel p k point
      | .statement, .inV k point => s.stepV fuel p k point
      | .schedule, .outside => do
          let manager ← s.manager.schedule fuel
          pure { s with manager }
      | .timeInterrupt, _ => do
          let manager ← s.manager.timeInterrupt fuel
          pure { s with manager }
      | _, _ => .diverge

/-- Whether a step calls `schedule`. -/
def Schedules (s : Sync) (e : Event) : Prop :=
  match e with
  | .schedule => True
  | .timeInterrupt => s.manager.onTick.1 = true
  | .statement => ∃ p k, s.manager.running = some p ∧ s.place p = .inP k .schedule
  | _ => False

/-- No program waits, none is in `P` or `V` and nothing has been counted. -/
structure Start (s : Sync) : Prop where
  manager : ∃ C, Scheduled s.manager C
  place : ∀ p, s.place p = .outside
  semLock : ∀ k, s.semLock k = false
  completedP : ∀ k, s.completedP k = 0
  calledV : ∀ k, s.calledV k = 0
  waitsOn : ∀ p, s.waitsOn p = none

/-- The states that the steps meeting `P` reach. -/
inductive Run (P : Sync → Event → Prop) (s₀ : Sync) : Sync → Prop
  | start : Run P s₀ s₀
  | step {s s' : Sync} (fuel : Nat) (e : Event) : Run P s₀ s → P s e → s.step fuel e = .ret s' → Run P s₀ s'

/-! ### Counting -/

/-- The programs that have a unit of `k` in hand, and how many units there are at most. -/
def Balanced (s₀ s : Sync) (k : Nat) : Prop :=
  ∃ pending : Finset Nat, (∀ p, p ∈ pending ↔ (s.place p).pending k = true) ∧
    s.completedP k + pending.card + s.counter k ≤ s₀.counter k + s.calledV k

/-- One program holds the lock of a semaphore, and what it has read of the counter stays true. -/
structure Counted (s₀ s : Sync) : Prop where
  lock : ∀ p k, (s.place p).holds k = true → s.semLock k = true
  exclusive : ∀ p q k, (s.place p).holds k = true → (s.place q).holds k = true → p = q
  positive : ∀ p k, s.place p = .inP k .decrement → 0 < s.counter k
  balanced : ∀ k, Balanced s₀ s k

theorem Start.counted {s₀ : Sync} (h : Start s₀) : Counted s₀ s₀ := by
  refine ⟨fun p k hp => ?_, fun p q k hp => ?_, fun p k hp => ?_, fun k => ⟨∅, fun p => ?_, ?_⟩⟩
  · rw [h.place p] at hp
    simp [Place.holds] at hp
  · rw [h.place p] at hp
    simp [Place.holds] at hp
  · rw [h.place p] at hp
    simp at hp
  · simp [h.place p, Place.pending]
  · simp [h.completedP k]

theorem Balanced.move {s₀ s s' : Sync} {p k : Nat} {place : Place} (h : Balanced s₀ s k)
    (hplace : s'.place = Function.update s.place p place)
    (hcount : s'.completedP k + (place.pending k).toNat + s'.counter k + s.calledV k ≤
      s.completedP k + ((s.place p).pending k).toNat + s.counter k + s'.calledV k) :
    Balanced s₀ s' k := by
  obtain ⟨pending, hpending, hle⟩ := h
  have hp := hpending p
  have hmem : ∀ q, q ≠ p → (q ∈ pending ↔ (s'.place q).pending k = true) := fun q hq => by
    rw [hplace, Function.update_of_ne hq]
    exact hpending q
  have hself : s'.place p = place := by rw [hplace, Function.update_self]
  by_cases hnew : place.pending k = true
  · refine ⟨insert p pending, fun q => ?_, ?_⟩
    · by_cases hq : q = p
      · simp [hq, hself, hnew]
      · simp [hq, hmem q hq]
    · by_cases hold : (s.place p).pending k = true
      · rw [Finset.insert_eq_of_mem (hp.mpr hold)]
        simp only [hnew, hold, Bool.toNat_true] at hcount
        omega
      · rw [Finset.card_insert_of_notMem fun hmem => hold (hp.mp hmem)]
        simp only [hnew, hold, Bool.toNat_true, Bool.toNat_false] at hcount
        omega
  · refine ⟨pending.erase p, fun q => ?_, ?_⟩
    · by_cases hq : q = p
      · simp [hq, hself, hnew]
      · simp [hq, hmem q hq]
    · by_cases hold : (s.place p).pending k = true
      · rw [Finset.card_erase_of_mem (hp.mpr hold)]
        have hpos : 0 < pending.card := Finset.card_pos.mpr ⟨p, hp.mpr hold⟩
        simp only [hnew, hold, Bool.toNat_true, Bool.toNat_false] at hcount
        omega
      · rw [Finset.erase_eq_of_notMem fun hmem => hold (hp.mp hmem)]
        simp only [hnew, hold, Bool.toNat_false] at hcount
        omega

/-- A step that moves the program `p`: it takes a lock that is free, and it writes a counter under the
lock. -/
theorem Counted.move {s₀ s s' : Sync} {p : Nat} {place : Place} (h : Counted s₀ s)
    (hplace : s'.place = Function.update s.place p place)
    (htake : ∀ k, place.holds k = true → (s.place p).holds k = false → s.semLock k = false)
    (hlock : ∀ k, s'.semLock k = if place.holds k = (s.place p).holds k then s.semLock k
      else place.holds k)
    (hcounter : ∀ k, (s.place p).holds k = false → s'.counter k = s.counter k)
    (hpositive : ∀ k, place = .inP k .decrement → 0 < s'.counter k)
    (hcount : ∀ k, s'.completedP k + (place.pending k).toNat + s'.counter k + s.calledV k ≤
      s.completedP k + ((s.place p).pending k).toNat + s.counter k + s'.calledV k) :
    Counted s₀ s' := by
  have hself : s'.place p = place := by rw [hplace, Function.update_self]
  have hother : ∀ q, q ≠ p → s'.place q = s.place q := fun q hq => by
    rw [hplace, Function.update_of_ne hq]
  -- another program that holds a lock of which `p` is the holder after the step
  have hapart : ∀ q k, q ≠ p → (s.place q).holds k = true → place.holds k = false ∧
      (s.place p).holds k = false := by
    intro q k hq hqk
    have hold : (s.place p).holds k = false := by
      rw [Bool.eq_false_iff]
      exact fun hp => hq (h.exclusive q p k hqk hp)
    refine ⟨?_, hold⟩
    rw [Bool.eq_false_iff]
    intro hnew
    have hfree := htake k hnew hold
    rw [h.lock q k hqk] at hfree
    simp at hfree
  refine ⟨fun q k hq => ?_, fun q r k hq hr => ?_, fun q k hq => ?_, fun k => (h.balanced k).move hplace (hcount k)⟩
  · by_cases hqp : q = p
    · rw [hqp, hself] at hq
      rw [hlock k]
      split
      · next heq => exact h.lock p k (heq ▸ hq)
      · exact hq
    · rw [hother q hqp] at hq
      obtain ⟨hnew, hold⟩ := hapart q k hqp hq
      rw [hlock k, hnew, hold, if_pos rfl]
      exact h.lock q k hq
  · by_cases hqp : q = p <;> by_cases hrp : r = p
    · rw [hqp, hrp]
    · rw [hqp, hself] at hq
      rw [hother r hrp] at hr
      rw [(hapart r k hrp hr).1] at hq
      simp at hq
    · rw [hrp, hself] at hr
      rw [hother q hqp] at hq
      rw [(hapart q k hqp hq).1] at hr
      simp at hr
    · rw [hother q hqp] at hq
      rw [hother r hrp] at hr
      exact h.exclusive q r k hq hr
  · by_cases hqp : q = p
    · exact hpositive k (hself.symm.trans (hqp ▸ hq))
    · rw [hother q hqp] at hq
      have hholds : (s.place q).holds k = true := by simp [hq, Place.holds]
      rw [hcounter k (hapart q k hqp hholds).2]
      exact h.positive q k hq

/-- A step that moves no program and writes no counter. -/
theorem Counted.still {s₀ s s' : Sync} (h : Counted s₀ s) (hplace : s'.place = s.place)
    (hlock : s'.semLock = s.semLock) (hcounter : s'.counter = s.counter)
    (hcompleted : s'.completedP = s.completedP) (hcalled : s'.calledV = s.calledV) : Counted s₀ s' := by
  refine ⟨?_, ?_, ?_, fun k => ?_⟩
  · rw [hplace, hlock]
    exact h.lock
  · rw [hplace]
    exact h.exclusive
  · rw [hplace, hcounter]
    exact h.positive
  · have hk := h.balanced k
    rw [Balanced] at hk ⊢
    rwa [hplace, hcounter, hcompleted, hcalled]

theorem u32_le {n m : Nat} {i : Int} (h : i = (m : Int)) (hm : m ≤ n) : u32 i ≤ n := by
  subst h
  have hmod : ((m : Int) % 2 ^ 32).toNat ≤ m := by omega
  exact le_trans hmod hm

/-- Inside `P` and `V` a program moves on without touching the lock or the counter. -/
theorem Counted.goto {s₀ s s' : Sync} {p : Nat} {place : Place} (h : Counted s₀ s)
    (hplace : s'.place = Function.update s.place p place) (hsame : s'.semLock = s.semLock)
    (hcounter : s'.counter = s.counter) (hcompleted : s'.completedP = s.completedP)
    (hcalled : s'.calledV = s.calledV) (hholds : ∀ j, place.holds j = (s.place p).holds j)
    (hpending : ∀ j, place.pending j = (s.place p).pending j)
    (hpositive : ∀ j, place = .inP j .decrement → 0 < s.counter j) : Counted s₀ s' := by
  refine h.move hplace (fun j hnew hold => ?_) (fun j => ?_) (fun j _ => by rw [hcounter])
    (fun j hj => ?_) (fun j => ?_)
  · rw [hholds j, hold] at hnew
    simp at hnew
  · rw [hsame, if_pos (hholds j)]
  · rw [hcounter]
    exact hpositive j hj
  · rw [hcounter, hcompleted, hcalled, hpending j]

theorem Counted.takeLock {s₀ s : Sync} {p k : Nat} {place : Place} (h : Counted s₀ s)
    (hold : ∀ j, (s.place p).holds j = false) (hnew : ∀ j, place.holds j = decide (k = j))
    (hpending : ∀ j, place.pending j = (s.place p).pending j)
    (hpositive : ∀ j, place ≠ .inP j .decrement) : Counted s₀ (s.lock p k place) := by
  rw [Sync.lock]
  by_cases hbusy : s.semLock k = true
  · rwa [if_pos hbusy]
  · rw [if_neg hbusy]
    refine h.move rfl (fun j hj _ => ?_) (fun j => ?_) (fun _ _ => rfl) (fun j hj => absurd hj (hpositive j))
      (fun j => ?_)
    · obtain rfl := of_decide_eq_true ((hnew j).symm.trans hj)
      simpa using hbusy
    · rw [hold j, hnew j]
      by_cases hj : k = j
      · subst hj
        simp [Sync.goto]
      · simp [Sync.goto, hj, Function.update_of_ne (Ne.symm hj)]
    · rw [hpending j]
      exact le_refl _

/-- The release of a lock, which may complete a `P`. -/
theorem Counted.releaseLock {s₀ s s₁ : Sync} {p k : Nat} {place : Place} (h : Counted s₀ s)
    (hplace : s₁.place = s.place) (hlock : s₁.semLock = s.semLock) (hcounter : s₁.counter = s.counter)
    (hcalled : s₁.calledV = s.calledV) (hold : ∀ j, (s.place p).holds j = decide (k = j))
    (hnew : ∀ j, place.holds j = false) (hpending : ∀ j, place.pending j = false)
    (hcompleted : ∀ j, s₁.completedP j ≤ s.completedP j + ((s.place p).pending j).toNat) :
    Counted s₀ (s₁.unlock p k place) := by
  refine h.move (by rw [← hplace]; rfl) (fun j hj _ => ?_) (fun j => ?_) (fun j _ => ?_) (fun j hj => ?_)
    (fun j => ?_)
  · rw [hnew j] at hj
    simp at hj
  · rw [hold j, hnew j]
    by_cases hj : k = j
    · subst hj
      simp [Sync.unlock, Sync.goto]
    · simp [Sync.unlock, Sync.goto, hj, Function.update_of_ne (Ne.symm hj), hlock]
  · rw [← hcounter]
    rfl
  · have hheld := hnew j
    rw [hj] at hheld
    simp [Place.holds] at hheld
  · have hle := hcompleted j
    rw [hpending j]
    simp only [Sync.unlock, Sync.goto, hcounter, hcalled, Bool.toNat_false]
    omega

theorem Counted.stepP {s₀ s s' : Sync} {fuel p k : Nat} {point : PPoint} (h : Counted s₀ s)
    (hp : s.place p = .inP k point) (hs : s.stepP fuel p k point = .ret s') : Counted s₀ s' := by
  cases point with
  | lock =>
      obtain rfl := Outcome.ret.inj hs
      refine h.takeLock ?_ ?_ ?_ ?_ <;> intro j <;> simp [hp, Place.holds, Place.pending]
  | test =>
      obtain rfl := Outcome.ret.inj hs
      refine h.goto rfl rfl rfl rfl rfl (fun j => ?_) (fun j => ?_) (fun j hj => ?_)
      · rw [hp]
        split <;> rfl
      · rw [hp]
        split <;> rfl
      · split at hj
        · next hpos =>
            obtain ⟨rfl, -⟩ := Place.inP.inj hj
            exact hpos
        · simp at hj
  | decrement =>
      have hpos := h.positive p k hp
      obtain rfl := Outcome.ret.inj hs
      refine h.move rfl (fun j hnew hold => ?_) (fun j => ?_) (fun j hj => ?_) (fun j hj => by simp at hj)
        (fun j => ?_)
      · rw [hp] at hold
        exact absurd (hnew.symm.trans hold) (by simp)
      · rw [hp]
        exact (if_pos rfl).symm
      · rw [hp] at hj
        have hjk : j ≠ k := fun he => by simp [he, Place.holds] at hj
        exact Function.update_of_ne hjk _ _
      · by_cases hj : j = k
        · subst hj
          have hle : u32 (s.counter j - 1) ≤ s.counter j - 1 := u32_le (by omega) (le_refl _)
          simp [Sync.goto, hp, Place.pending]
          omega
        · simp [Sync.goto, hp, Place.pending, Function.update_of_ne hj, Ne.symm hj]
  | unlockReturn =>
      obtain rfl := Outcome.ret.inj hs
      refine h.releaseLock rfl rfl rfl rfl (fun j => ?_) (fun j => rfl) (fun j => rfl) (fun j => ?_)
      · rw [hp]
        rfl
      · by_cases hj : j = k
        · subst hj
          simp [hp, Place.pending]
        · simp [Function.update_of_ne hj]
  | pushBack =>
      obtain ⟨links, -, hs⟩ := Outcome.bind_eq_ret hs
      obtain rfl := Outcome.ret.inj hs
      refine h.goto rfl rfl rfl rfl rfl ?_ ?_ ?_ <;> intro j <;> simp [hp, Place.holds, Place.pending]
  | block =>
      obtain rfl := Outcome.ret.inj hs
      refine h.goto rfl rfl rfl rfl rfl ?_ ?_ ?_ <;> intro j <;> simp [hp, Place.holds, Place.pending]
  | unlockSchedule =>
      obtain rfl := Outcome.ret.inj hs
      refine h.releaseLock rfl rfl rfl rfl (fun j => ?_) (fun j => rfl) (fun j => rfl) (fun j => ?_)
      · rw [hp]
        rfl
      · exact Nat.le_add_right _ _
  | schedule =>
      obtain ⟨manager, -, hs⟩ := Outcome.bind_eq_ret hs
      obtain rfl := Outcome.ret.inj hs
      refine h.goto rfl rfl rfl rfl rfl ?_ ?_ ?_ <;> intro j <;> simp [hp, Place.holds, Place.pending]

theorem Counted.stepV {s₀ s s' : Sync} {fuel p k : Nat} {point : VPoint} (h : Counted s₀ s)
    (hp : s.place p = .inV k point) (hs : s.stepV fuel p k point = .ret s') : Counted s₀ s' := by
  cases point with
  | lock =>
      obtain rfl := Outcome.ret.inj hs
      refine h.takeLock ?_ ?_ ?_ ?_ <;> intro j <;> simp [hp, Place.holds, Place.pending]
  | increment =>
      obtain rfl := Outcome.ret.inj hs
      refine h.move rfl (fun j hnew hold => ?_) (fun j => ?_) (fun j hj => ?_) (fun j hj => by simp at hj)
        (fun j => ?_)
      · rw [hp] at hold
        exact absurd (hnew.symm.trans hold) (by simp)
      · rw [hp]
        exact (if_pos rfl).symm
      · rw [hp] at hj
        have hjk : j ≠ k := fun he => by simp [he, Place.holds] at hj
        exact Function.update_of_ne hjk _ _
      · by_cases hj : j = k
        · subst hj
          have hle : u32 (s.counter j + 1) ≤ s.counter j + 1 := u32_le (by omega) (le_refl _)
          simp [Sync.goto, hp, Place.pending]
          omega
        · simp [Sync.goto, hp, Place.pending, Function.update_of_ne hj, Ne.symm hj]
  | test =>
      obtain ⟨size, -, hs⟩ := Outcome.bind_eq_ret hs
      obtain rfl := Outcome.ret.inj hs
      refine h.goto rfl rfl rfl rfl rfl (fun j => ?_) (fun j => ?_) (fun j hj => ?_)
      · rw [hp]
        split <;> rfl
      · rw [hp]
        split <;> rfl
      · simp at hj
  | unlockReturn =>
      obtain rfl := Outcome.ret.inj hs
      refine h.releaseLock rfl rfl rfl rfl (fun j => ?_) (fun j => rfl) (fun j => rfl) (fun j => ?_)
      · rw [hp]
        rfl
      · exact Nat.le_add_right _ _
  | front =>
      rw [Sync.stepV] at hs
      split at hs
      · simp at hs
      · obtain rfl := Outcome.ret.inj hs
        refine h.goto rfl rfl rfl rfl rfl ?_ ?_ ?_ <;> intro j <;> simp [hp, Place.holds, Place.pending]
  | popFront program =>
      obtain rfl := Outcome.ret.inj hs
      refine h.goto rfl rfl rfl rfl rfl ?_ ?_ ?_ <;> intro j <;> simp [hp, Place.holds, Place.pending]
  | unlockWake program =>
      obtain rfl := Outcome.ret.inj hs
      refine h.releaseLock rfl rfl rfl rfl (fun j => ?_) (fun j => rfl) (fun j => rfl) (fun j => ?_)
      · rw [hp]
        rfl
      · exact Nat.le_add_right _ _
  | wakeUp program =>
      obtain rfl := Outcome.ret.inj hs
      refine h.goto rfl rfl rfl rfl rfl ?_ ?_ ?_ <;> intro j <;> simp [hp, Place.holds, Place.pending]

/-- No step lets more calls of `P` complete than there are units. -/
theorem Counted.step {s₀ s s' : Sync} {fuel : Nat} {e : Event} (h : Counted s₀ s)
    (hs : s.step fuel e = .ret s') : Counted s₀ s' := by
  rw [Sync.step] at hs
  split at hs
  · simp at hs
  · next p hp =>
      split at hs
      · next k hplace =>
          obtain rfl := Outcome.ret.inj hs
          refine h.goto rfl rfl rfl rfl rfl ?_ ?_ ?_ <;> intro j <;>
            simp [hplace, Place.holds, Place.pending]
      · next k hplace =>
          obtain rfl := Outcome.ret.inj hs
          refine h.move rfl (fun j hnew _ => by simp [Place.holds] at hnew) (fun j => ?_) (fun _ _ => rfl)
            (fun j hj => by simp at hj) (fun j => ?_)
          · simp [hplace, Place.holds, Sync.goto]
          · by_cases hj : j = k
            · subst hj
              simp [Sync.goto, hplace, Place.pending]
              omega
            · simp [Sync.goto, hplace, Place.pending, Function.update_of_ne hj, Ne.symm hj]
      · next k point hplace => exact h.stepP hplace hs
      · next k point hplace => exact h.stepV hplace hs
      · obtain ⟨manager, -, hs⟩ := Outcome.bind_eq_ret hs
        obtain rfl := Outcome.ret.inj hs
        exact h.still rfl rfl rfl rfl rfl
      · obtain ⟨manager, -, hs⟩ := Outcome.bind_eq_ret hs
        obtain rfl := Outcome.ret.inj hs
        exact h.still rfl rfl rfl rfl rfl
      · simp at hs

/-! ### Blocking -/

/-- A program that has put itself on a waiting list stays blocked and is in no ready queue, and every
program is linked in one list at most. Its status is set by the statement after the one that links it. -/
structure Blocking (s : Sync) : Prop where
  blocked : ∀ p k, s.waitsOn p = some k → s.place p ≠ .inP k .block →
    (s.manager.pcbSet p).status = .BLOCKED
  notReady : ∀ p k, s.waitsOn p = some k → ∀ sType l,
    Walk s.manager.links.next (s.manager.links.next (.readyPrograms sType)) l → .tagInGeneralList p ∉ l
  oneList : ∀ h ∈ heads, ∀ h' ∈ heads, ∀ l l', Walk s.manager.links.next (s.manager.links.next h) l →
    Walk s.manager.links.next (s.manager.links.next h') l' →
      ∀ p, .tagInGeneralList p ∈ l → .tagInGeneralList p ∈ l' → h = h'

/-- A program on a waiting list calls `schedule` only when there is no ready program. -/
def Undisturbed (s : Sync) (e : Event) : Prop :=
  Schedules s e → ∀ p, s.manager.running = some p → s.waitsOn p ≠ none →
    s.manager.links.front (.readyPrograms s.manager.sType) = none

/-- No program has had to wait yet. -/
structure Calm (s : Sync) : Prop where
  manager : ∃ C, Scheduled s.manager C
  waitsOn : ∀ p, s.waitsOn p = none
  place : ∀ p, (s.place p).calm = true
  empty : ∀ p k, s.place p = .inP k .pushBack → s.counter k = 0

/-- The running program `p` waits for `k`, goes round the loop of `P` and is never switched. -/
structure Stuck (s : Sync) (p k : Nat) : Prop where
  running : s.manager.running = some p
  waitsOn : s.waitsOn = Function.update (fun _ => none) p (some k)
  counter : s.counter k = 0
  place : ∃ point, s.place p = .inP k point ∧ point ≠ .decrement ∧ point ≠ .unlockReturn
  blocked : s.place p ≠ .inP k .block → (s.manager.pcbSet p).status = .BLOCKED
  lists : ∃ C : Item → List Item,
    (∀ h ∈ heads, Walk s.manager.links.next (s.manager.links.next h) (C h)) ∧
    (∀ h ∈ heads, ∀ h' ∈ heads, ∀ a, a ∈ C h → a ∈ C h' → h = h') ∧
    C (.waiting k) = [.tagInGeneralList p]

theorem Calm.blocking {s : Sync} (h : Calm s) : Blocking s := by
  obtain ⟨C, hC⟩ := h.manager
  refine ⟨fun p k hp => ?_, fun p k hp => ?_, fun a ha b hb l l' hl hl' p hp hp' => ?_⟩
  · simp [h.waitsOn p] at hp
  · simp [h.waitsOn p] at hp
  · rw [hl.unique (hC.lists.walk a ha)] at hp
    rw [hl'.unique (hC.lists.walk b hb)] at hp'
    exact hC.lists.apart a ha b hb _ hp hp'

theorem Stuck.blocking {s : Sync} {p k : Nat} (h : Stuck s p k) : Blocking s := by
  obtain ⟨C, hwalk, hapart, hwaiting⟩ := h.lists
  have honly : ∀ q j, s.waitsOn q = some j → q = p ∧ j = k := by
    intro q j hq
    rw [h.waitsOn] at hq
    by_cases hqp : q = p
    · rw [hqp, Function.update_self] at hq
      exact ⟨hqp, (Option.some.inj hq).symm⟩
    · rw [Function.update_of_ne hqp] at hq
      simp at hq
  refine ⟨fun q j hq hplace => ?_, fun q j hq sType l hl hmem => ?_,
    fun a ha b hb l l' hl hl' q hq hq' => ?_⟩
  · obtain ⟨rfl, rfl⟩ := honly q j hq
    exact h.blocked hplace
  · obtain ⟨rfl, rfl⟩ := honly q j hq
    have hready : Item.readyPrograms sType ∈ heads := rfl
    rw [hl.unique (hwalk _ hready)] at hmem
    have hhead := hapart _ hready (.waiting j) rfl _ hmem (by rw [hwaiting]; exact List.mem_singleton_self _)
    simp at hhead
  · rw [hl.unique (hwalk a ha)] at hq
    rw [hl'.unique (hwalk b hb)] at hq'
    exact hapart a ha b hb _ hq hq'

theorem Start.calm {s : Sync} (h : Start s) : Calm s := by
  refine ⟨h.manager, h.waitsOn, fun p => ?_, fun p k hp => ?_⟩
  · rw [h.place p]
    rfl
  · rw [h.place p] at hp
    simp at hp

/-- A step of `p` in which it does not have to wait. -/
theorem Calm.move {s₀ s s' : Sync} {p : Nat} {place : Place} (h : Calm s) (hs : Counted s₀ s)
    (hmanager : s'.manager = s.manager) (hwaits : s'.waitsOn = s.waitsOn)
    (hplace : s'.place = Function.update s.place p place) (hcalm : place.calm = true)
    (hcounter : ∀ k, (s.place p).holds k = false → s'.counter k = s.counter k)
    (hempty : ∀ k, place = .inP k .pushBack → s'.counter k = 0) : Calm s' := by
  refine ⟨hmanager ▸ h.manager, hwaits ▸ h.waitsOn, fun q => ?_, fun q k hq => ?_⟩
  · by_cases hqp : q = p
    · rwa [hplace, hqp, Function.update_self]
    · rw [hplace, Function.update_of_ne hqp]
      exact h.place q
  · by_cases hqp : q = p
    · rw [hplace, hqp, Function.update_self] at hq
      exact hempty k hq
    · rw [hplace, Function.update_of_ne hqp] at hq
      have hold : (s.place p).holds k = false := by
        rw [Bool.eq_false_iff]
        exact fun hp => hqp (hs.exclusive q p k (by simp [hq, Place.holds]) hp)
      rw [hcounter k hold]
      exact h.empty q k hq

/-- The program manager is called between two statements. -/
theorem Calm.call {s : Sync} {manager : ProgramManager} (h : Calm s) (hm : ∃ C, Scheduled manager C) :
    Calm { s with manager } := ⟨hm, h.waitsOn, h.place, h.empty⟩

theorem Calm.stepP {s₀ s s' : Sync} {fuel p k : Nat} {point : PPoint} (h : Calm s) (hs : Counted s₀ s)
    (hrun : s.manager.running = some p) (hp : s.place p = .inP k point)
    (hstep : s.stepP fuel p k point = .ret s') : Calm s' ∨ Stuck s' p k := by
  have hcalm := h.place p
  rw [hp] at hcalm
  cases point with
  | lock =>
      obtain rfl := Outcome.ret.inj hstep
      left
      rw [Sync.lock]
      split
      · exact h
      · exact h.move hs rfl rfl rfl rfl (fun _ _ => rfl) fun j hj => by simp at hj
  | test =>
      obtain rfl := Outcome.ret.inj hstep
      refine .inl (h.move hs rfl rfl rfl ?_ (fun _ _ => rfl) fun j hj => ?_)
      · split <;> rfl
      · split at hj
        · simp at hj
        · next hzero =>
            obtain ⟨rfl, -⟩ := Place.inP.inj hj
            exact Nat.eq_zero_of_not_pos hzero
  | decrement =>
      obtain rfl := Outcome.ret.inj hstep
      refine .inl (h.move hs rfl rfl rfl rfl (fun j hj => ?_) fun j hj => by simp at hj)
      have hjk : j ≠ k := fun he => by simp [hp, he, Place.holds] at hj
      exact Function.update_of_ne hjk _ _
  | unlockReturn =>
      obtain rfl := Outcome.ret.inj hstep
      exact .inl (h.move hs rfl rfl rfl rfl (fun _ _ => rfl) fun j hj => by simp at hj)
  | pushBack =>
      -- the waiting list was empty: `p` is alone on it
      obtain ⟨links, hpush, hstep⟩ := Outcome.bind_eq_ret hstep
      obtain rfl := Outcome.ret.inj hstep
      obtain ⟨C, hC⟩ := h.manager
      have hlists := hC.lists.pushBack rfl (by simp [heads, Item.pcb])
        (hC.general_free (hC.running_free hrun)) hpush
      rw [hC.empty (.waiting k) rfl (by simp) (by simp), List.nil_append] at hlists
      refine .inr ⟨hrun, ?_, h.empty p k hp, ⟨.block, Function.update_self _ _ _, by simp, by simp⟩,
        fun hne => absurd (Function.update_self _ _ _) hne, _, hlists.walk, hlists.apart,
        Function.update_self _ _ _⟩
      have hnone : s.waitsOn = fun _ => none := funext h.waitsOn
      rw [← hnone]
      rfl
  | block => simp [Place.calm] at hcalm
  | unlockSchedule => simp [Place.calm] at hcalm
  | schedule => simp [Place.calm] at hcalm

theorem Calm.stepV {s₀ s s' : Sync} {fuel p k : Nat} {point : VPoint} (h : Calm s) (hs : Counted s₀ s)
    (hp : s.place p = .inV k point) (hstep : s.stepV fuel p k point = .ret s') : Calm s' := by
  have hcalm := h.place p
  rw [hp] at hcalm
  cases point with
  | lock =>
      obtain rfl := Outcome.ret.inj hstep
      rw [Sync.lock]
      split
      · exact h
      · exact h.move hs rfl rfl rfl rfl (fun _ _ => rfl) fun j hj => by simp at hj
  | increment =>
      obtain rfl := Outcome.ret.inj hstep
      refine h.move hs rfl rfl rfl rfl (fun j hj => ?_) fun j hj => by simp at hj
      have hjk : j ≠ k := fun he => by simp [hp, he, Place.holds] at hj
      exact Function.update_of_ne hjk _ _
  | test =>
      -- no program waits
      obtain ⟨size, hsize, hstep⟩ := Outcome.bind_eq_ret hstep
      obtain rfl := Outcome.ret.inj hstep
      obtain ⟨C, hC⟩ := h.manager
      have hwaiting := hC.lists.walk (.waiting k) rfl
      rw [hC.empty (.waiting k) rfl (by simp) (by simp)] at hwaiting
      have hzero : size = 0 := by
        rw [Links.size, show s.manager.links.next (.waiting k) = none from hwaiting] at hsize
        cases fuel with
        | zero => simp [Links.sizeLoop] at hsize
        | succ fuel => exact (Outcome.ret.inj hsize).symm
      rw [hzero]
      exact h.move hs rfl rfl rfl rfl (fun _ _ => rfl) fun j hj => by simp at hj
  | unlockReturn =>
      obtain rfl := Outcome.ret.inj hstep
      exact h.move hs rfl rfl rfl rfl (fun _ _ => rfl) fun j hj => by simp at hj
  | front => simp [Place.calm] at hcalm
  | popFront program => simp [Place.calm] at hcalm
  | unlockWake program => simp [Place.calm] at hcalm
  | wakeUp program => simp [Place.calm] at hcalm

theorem Calm.step {s₀ s s' : Sync} {fuel : Nat} {e : Event} (h : Calm s) (hs : Counted s₀ s)
    (hstep : s.step fuel e = .ret s') : Calm s' ∨ ∃ p k, Stuck s' p k := by
  obtain ⟨C, hC⟩ := h.manager
  rw [Sync.step] at hstep
  split at hstep
  · simp at hstep
  · next p hrun =>
      split at hstep
      · obtain rfl := Outcome.ret.inj hstep
        exact .inl (h.move hs rfl rfl rfl rfl (fun _ _ => rfl) fun j hj => by simp at hj)
      · obtain rfl := Outcome.ret.inj hstep
        exact .inl (h.move hs rfl rfl rfl rfl (fun _ _ => rfl) fun j hj => by simp at hj)
      · next k point hp =>
          rcases h.stepP hs hrun hp hstep with h' | h'
          · exact .inl h'
          · exact .inr ⟨p, k, h'⟩
      · next k point hp => exact .inl (h.stepV hs hp hstep)
      · obtain ⟨manager, hcall, hstep⟩ := Outcome.bind_eq_ret hstep
        obtain rfl := Outcome.ret.inj hstep
        exact .inl (h.call (hC.schedule hcall).1)
      · obtain ⟨manager, hcall, hstep⟩ := Outcome.bind_eq_ret hstep
        obtain rfl := Outcome.ret.inj hstep
        exact .inl (h.call (hC.timeInterrupt hcall))
      · simp at hstep

/-- `schedule` does nothing when there is no ready program. -/
theorem schedule_empty {m m' : ProgramManager} {fuel : Nat}
    (hempty : m.links.front (.readyPrograms m.sType) = none) (hs : m.schedule fuel = .ret m') : m' = m := by
  have hpick : m.pickNext = (none, m) := by
    rw [ProgramManager.pickNext, hempty, Links.popFront, show m.links.next _ = none from hempty]
    rfl
  obtain ⟨cur, -, hs⟩ := schedule_cases hs
  simp only [hpick, true_and, reduceCtorEq, false_and, exists_false, or_false] at hs
  exact hs.2

theorem onTick_same (m : ProgramManager) : m.onTick.2.links = m.links ∧ m.onTick.2.sType = m.sType ∧
    m.onTick.2.running = m.running ∧ ∀ p, (m.onTick.2.pcbSet p).status = (m.pcbSet p).status := by
  rw [ProgramManager.onTick]
  split
  · exact ⟨rfl, rfl, rfl, fun _ => rfl⟩
  · next running hrunning =>
      dsimp only
      split
      · exact ⟨rfl, rfl, rfl, fun _ => rfl⟩
      · split
        · refine ⟨rfl, rfl, rfl, fun p => ?_⟩
          by_cases hp : p = running
          · rw [hp, setPCB_self]
          · rw [setPCB_of_ne hp]
        · exact ⟨rfl, rfl, rfl, fun _ => rfl⟩

/-- The manager may change where `Stuck` does not look. -/
theorem Stuck.call {s : Sync} {p k : Nat} {manager : ProgramManager} (h : Stuck s p k)
    (hlinks : manager.links = s.manager.links) (hrun : manager.running = s.manager.running)
    (hstatus : (manager.pcbSet p).status = (s.manager.pcbSet p).status) :
    Stuck { s with manager } p k :=
  ⟨hrun.trans h.running, h.waitsOn, h.counter, h.place, fun hne => hstatus.trans (h.blocked hne), by
    rw [hlinks]
    exact h.lists⟩

/-- The waiting program goes on in `P`. -/
theorem Stuck.move {s s' : Sync} {p k : Nat} {point : PPoint} (h : Stuck s p k)
    (hmanager : s'.manager = s.manager) (hwaits : s'.waitsOn = s.waitsOn) (hcounter : s'.counter = s.counter)
    (hplace : s'.place = Function.update s.place p (.inP k point)) (hblock : s.place p ≠ .inP k .block)
    (hpoint : point ≠ .decrement ∧ point ≠ .unlockReturn) : Stuck s' p k := by
  refine ⟨by rw [hmanager]; exact h.running, by rw [hwaits]; exact h.waitsOn,
    by rw [hcounter]; exact h.counter, ⟨point, by rw [hplace, Function.update_self], hpoint⟩, fun _ => ?_,
    by rw [hmanager]; exact h.lists⟩
  rw [hmanager]
  exact h.blocked hblock

theorem Stuck.stepP {s s' : Sync} {fuel p k : Nat} {point : PPoint} (h : Stuck s p k)
    (hp : s.place p = .inP k point)
    (hempty : point = .schedule → s.manager.links.front (.readyPrograms s.manager.sType) = none)
    (hstep : s.stepP fuel p k point = .ret s') : Stuck s' p k := by
  obtain ⟨point', hp', hdecrement, hreturn⟩ := h.place
  obtain ⟨-, rfl⟩ := Place.inP.inj (hp.symm.trans hp')
  cases point with
  | lock =>
      obtain rfl := Outcome.ret.inj hstep
      rw [Sync.lock]
      split
      · exact h
      · exact h.move rfl rfl rfl rfl (by simp [hp]) (by simp)
  | test =>
      obtain rfl := Outcome.ret.inj hstep
      rw [h.counter]
      exact h.move rfl rfl rfl rfl (by simp [hp]) (by simp)
  | decrement => exact absurd rfl hdecrement
  | unlockReturn => exact absurd rfl hreturn
  | pushBack =>
      -- the program is the last item of the list already
      obtain ⟨links, hpush, hstep⟩ := Outcome.bind_eq_ret hstep
      obtain rfl := Outcome.ret.inj hstep
      obtain ⟨last, hlast, hpush⟩ := Outcome.bind_eq_ret hpush
      obtain rfl := Outcome.ret.inj hpush
      obtain ⟨C, hwalk, hapart, hwaiting⟩ := h.lists
      have hlist := hwalk (.waiting k) rfl
      rw [hwaiting] at hlist
      rw [Links.back_spec hlist hlast, List.getLastD_cons, List.getLastD_nil, Function.update_idem]
      have hend : s.manager.links.next (.tagInGeneralList p) = none := hlist.2
      have hsame : Function.update s.manager.links.next (.tagInGeneralList p) none = s.manager.links.next := by
        rw [← hend, Function.update_eq_self]
      refine ⟨h.running, ?_, h.counter, ⟨.block, Function.update_self _ _ _, by simp, by simp⟩,
        fun hne => absurd (Function.update_self _ _ _) hne, C, ?_, hapart, hwaiting⟩
      · show Function.update s.waitsOn p (some k) = _
        rw [h.waitsOn, Function.update_idem]
      · simp only [Sync.goto, hsame]
        exact hwalk
  | block =>
      obtain rfl := Outcome.ret.inj hstep
      refine ⟨h.running, h.waitsOn, h.counter,
        ⟨.unlockSchedule, Function.update_self _ _ _, by simp, by simp⟩, fun _ => ?_, h.lists⟩
      simp [Sync.goto, ProgramManager.setStatus]
  | unlockSchedule =>
      obtain rfl := Outcome.ret.inj hstep
      exact h.move rfl rfl rfl rfl (by simp [hp]) (by simp)
  | schedule =>
      obtain ⟨manager, hcall, hstep⟩ := Outcome.bind_eq_ret hstep
      obtain rfl := Outcome.ret.inj hstep
      obtain rfl := schedule_empty (hempty rfl) hcall
      exact h.move rfl rfl rfl rfl (by simp [hp]) (by simp)

theorem Stuck.step {s s' : Sync} {fuel p k : Nat} {e : Event} (h : Stuck s p k) (he : Undisturbed s e)
    (hstep : s.step fuel e = .ret s') : Stuck s' p k := by
  obtain ⟨point, hp, -⟩ := h.place
  have hwaits : s.waitsOn p ≠ none := by simp [h.waitsOn]
  rw [Sync.step, h.running] at hstep
  simp only [hp] at hstep
  cases e with
  | callP k => simp at hstep
  | callV k => simp at hstep
  | statement =>
      refine h.stepP hp (fun hpoint => ?_) hstep
      exact he ⟨p, k, h.running, hpoint ▸ hp⟩ p h.running hwaits
  | schedule => simp at hstep
  | timeInterrupt =>
      obtain ⟨manager, hcall, hstep⟩ := Outcome.bind_eq_ret hstep
      obtain rfl := Outcome.ret.inj hstep
      obtain ⟨hlinks, hsType, hrun, hstatus⟩ := onTick_same s.manager
      have hmanager : manager = s.manager.onTick.2 := by
        rw [ProgramManager.timeInterrupt] at hcall
        dsimp only at hcall
        split at hcall
        · next hcond =>
            refine schedule_empty ?_ hcall
            rw [hlinks, hsType]
            exact he hcond p h.running hwaits
        · exact (Outcome.ret.inj hcall).symm
      rw [hmanager]
      exact h.call hlinks hrun (hstatus p)

/-- No more calls of `P` complete than there are units, in any run; and the waiting programs stay blocked
in every run in which none of them calls `schedule` while another program is ready. -/
theorem run_blocking {P : Sync → Event → Prop} {s₀ s : Sync} (h₀ : Start s₀) (h : Run P s₀ s) :
    (∀ k, s.completedP k ≤ s₀.counter k + s.calledV k) ∧
      ((∀ s e, P s e → Undisturbed s e) → Blocking s) := by
  have hinv : Counted s₀ s ∧ ((∀ s e, P s e → Undisturbed s e) → Calm s ∨ ∃ p k, Stuck s p k) := by
    induction h with
    | start => exact ⟨h₀.counted, fun _ => .inl h₀.calm⟩
    | step fuel e _ he hstep ih =>
        obtain ⟨hcounted, hblocking⟩ := ih
        refine ⟨hcounted.step hstep, fun hP => ?_⟩
        rcases hblocking hP with hcalm | ⟨p, k, hstuck⟩
        · exact hcalm.step hcounted hstep
        · exact .inr ⟨p, k, hstuck.step (hP _ e he) hstep⟩
  refine ⟨fun k => ?_, fun hP => ?_⟩
  · obtain ⟨pending, -, hle⟩ := hinv.1.balanced k
    omega
  · rcases hinv.2 hP with hcalm | ⟨p, k, hstuck⟩
    · exact hcalm.blocking
    · exact hstuck.blocking

/-! ### Two runs -/

/-- `init` runs, the first thread is ready, and every semaphore has `counter` units. -/
def fresh (counter : Nat) : Sync where
  manager := initRuns
  counter := fun _ => counter
  semLock := fun _ => false
  place := fun _ => .outside
  completedP := fun _ => 0
  calledV := fun _ => 0
  waitsOn := fun _ => none

theorem start_fresh (counter : Nat) : Start (fresh counter) :=
  ⟨(reached_initRuns (P := fun s c => c.ForkSound s) trivial trivial).scheduled, fun _ => rfl, fun _ => rfl,
    fun _ => rfl, fun _ => rfl, fun _ => rfl⟩

/-- The state after some steps. -/
def after (s : Sync) (events : List Event) : Sync := events.foldl (fun s e => (s.step 20 e).getD s) s

/-- Nothing but the thread's own `P` happens: no step calls `schedule`. -/
def Quiet (s : Sync) (e : Event) : Prop := ¬Schedules s e

theorem quiet_statement {s : Sync} {p : Nat} {place : Place} (hrun : s.manager.running = some p)
    (hplace : s.place p = place) (hnot : ∀ k, place ≠ .inP k .schedule) : Quiet s .statement := by
  rintro ⟨q, k, hq, hk⟩
  obtain rfl := Option.some.inj (hrun.symm.trans hq)
  exact hnot k (hplace.symm.trans hk)

/-- A `P` that finds no unit: the thread is blocked and waits. -/
theorem run_blocking_waits :
    (after (fresh 0) [.callP 0, .statement, .statement, .statement, .statement]).waitsOn 1 = some 0 ∧
    (∀ k, (after (fresh 0) [.callP 0, .statement, .statement, .statement, .statement]).completedP k ≤
      (fresh 0).counter k +
        (after (fresh 0) [.callP 0, .statement, .statement, .statement, .statement]).calledV k) ∧
      Blocking (after (fresh 0) [.callP 0, .statement, .statement, .statement, .statement]) := by
  have h₁ : Run Quiet (fresh 0) (after (fresh 0) [.callP 0]) := .step 20 (.callP 0) .start id rfl
  have h₂ : Run Quiet (fresh 0) (after (fresh 0) [.callP 0, .statement]) :=
    .step 20 .statement h₁ (quiet_statement rfl rfl fun _ h => by cases h) rfl
  have h₃ : Run Quiet (fresh 0) (after (fresh 0) [.callP 0, .statement, .statement]) :=
    .step 20 .statement h₂ (quiet_statement rfl rfl fun _ h => by cases h) rfl
  have h₄ : Run Quiet (fresh 0) (after (fresh 0) [.callP 0, .statement, .statement, .statement]) :=
    .step 20 .statement h₃ (quiet_statement rfl rfl fun _ h => by cases h) rfl
  have h := run_blocking (start_fresh 0)
    (.step 20 .statement h₄ (quiet_statement rfl rfl fun _ h => by cases h) rfl)
  exact ⟨rfl, h.1, h.2 fun s e hquiet hschedules => absurd hschedules hquiet⟩

theorem run_steps {s₀ s s' : Sync} (fuel : Nat) (e : Event) (h : Run (fun _ _ => True) s₀ s)
    (hs : s.step fuel e = .ret s') : Run (fun _ _ => True) s₀ s' := .step fuel e h trivial hs

/-- `init` finds no unit and waits: `schedule` makes it ready again. -/
theorem not_blocking : ¬ ∀ s₀ s, Start s₀ → Run (fun _ _ => True) s₀ s → Blocking s := by
  intro h
  have h₁ : Run _ (fresh 0) (after (fresh 0) [.callP 0]) := run_steps 20 (.callP 0) .start rfl
  have h₂ : Run _ (fresh 0) (after (fresh 0) [.callP 0, .statement]) :=
    run_steps 20 .statement h₁ rfl
  have h₃ : Run _ (fresh 0) (after (fresh 0) [.callP 0, .statement, .statement]) :=
    run_steps 20 .statement h₂ rfl
  have h₄ : Run _ (fresh 0) (after (fresh 0) [.callP 0, .statement, .statement, .statement]) :=
    run_steps 20 .statement h₃ rfl
  have h₅ : Run _ (fresh 0) (after (fresh 0) [.callP 0, .statement, .statement, .statement, .statement]) :=
    run_steps 20 .statement h₄ rfl
  have h₆ : Run _ (fresh 0)
      (after (fresh 0) [.callP 0, .statement, .statement, .statement, .statement, .statement]) :=
    run_steps 20 .statement h₅ rfl
  have h₇ : Run _ (fresh 0)
      (after (fresh 0) [.callP 0, .statement, .statement, .statement, .statement, .statement, .statement]) :=
    run_steps 20 .statement h₆ rfl
  have hblocked := (h _ _ (start_fresh 0) h₇).blocked 1 0 rfl (by decide)
  exact absurd hblocked (by decide)

end Sync

end SysuOs.Programs
