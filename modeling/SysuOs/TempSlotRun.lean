import SysuOs.TempSlotCheck
import Mathlib.Logic.Function.Basic

/-! The runs of the machine: whoever is about to call `mapTemp` finds the slot empty, as long as
`schedule` does not take the processor from a thread in `syscall_pte_dump` while it has the slot
mapped. Where it does, the next copy-on-write fault fails on the `ASSERT` of `mapTemp`. -/

namespace SysuOs.TempSlot

open Regular

namespace Machine

variable {τ : Type*} {m m' : Machine τ} {a : Act} {rest : List Act} {u : τ}

/-- What the running thread knows, if the slot is its own. -/
def view (m : Machine τ) : View :=
  ⟨m.interrupts, m.current.saved, m.slot.map Prod.snd⟩

structure Invariant (m : Machine τ) : Prop where
  /-- the slot is mapped by the running thread or by nobody -/
  owner : ∀ t site, m.slot = some (t, site) → t = m.running
  guarded : m.view.Guarded
  running : Leads View.perform m.current.todo (·.mapped = none) m.view
  waiting : ∀ t, t ≠ m.running →
    Leads View.perform (m.threads t).todo (·.mapped = none) ⟨true, (m.threads t).saved, none⟩

theorem view_mapped_eq_none : m.view.mapped = none ↔ m.slot = none := Option.map_eq_none_iff

theorem Invariant.slot_eq (h : m.Invariant) {site : Site} (hs : m.view.mapped = some site) :
    m.slot = some (m.running, site) := by
  obtain ⟨⟨t, site'⟩, hm, rfl⟩ := Option.map_eq_some_iff.mp hs
  rw [hm, h.owner t site' hm]

theorem Invariant.exclusive (h : m.Invariant) : m.Exclusive := by
  intro a ha
  cases hw : m.current.todo with
  | nil =>
      rw [hw] at ha
      cases ha
  | cons b rest =>
      rw [hw] at ha
      cases ha
      have hsafe := h.running
      rw [hw] at hsafe
      obtain ⟨v, hv, -⟩ := leads_cons.mp hsafe
      cases a with
      | mapTemp site => exact view_mapped_eq_none.mp (Option.ite_none_right_eq_some.mp hv).1
      | mapTempNull site => exact view_mapped_eq_none.mp (Option.ite_none_right_eq_some.mp hv).1
      | setTemp site => exact view_mapped_eq_none.mp (Option.ite_none_right_eq_some.mp hv).1
      | access site => exact h.slot_eq (Option.ite_none_right_eq_some.mp hv).1
      | unmapTemp site => exact h.slot_eq (Option.ite_none_right_eq_some.mp hv).1
      | _ => trivial

theorem invariant_boot (t : τ) : (boot t).Invariant where
  owner := fun t site h => by cases h
  guarded := View.Guarded.of_none rfl
  running := leads_nil.mpr rfl
  waiting := fun t _ => leads_nil.mpr rfl

variable [DecidableEq τ]

theorem become_current (thread : Thread) : (m.become thread).current = thread :=
  Function.update_self ..

theorem become_other {t : τ} (ht : t ≠ m.running) (thread : Thread) :
    (m.become thread).threads t = m.threads t :=
  Function.update_of_ne ht ..

theorem push_other {t : τ} (ht : t ≠ m.running) (w : List Act) :
    (m.push w).threads t = m.threads t :=
  become_other ht _

/-- A handler or a call is put before what the running thread has still to do. -/
theorem Invariant.push (h : m.Invariant) {w : List Act}
    (hw : Leads View.perform (w ++ m.current.todo) (·.mapped = none) m.view) :
    (m.push w).Invariant where
  owner := h.owner
  guarded := by
    have hg := h.guarded
    unfold view Machine.push at *
    rwa [become_current]
  running := by
    unfold view Machine.push
    rwa [become_current]
  waiting := fun t ht => by
    have ht : t ≠ m.running := ht
    rw [push_other ht]
    exact h.waiting t ht

/-- A thread in user mode has not mapped the slot. -/
theorem Invariant.call (h : m.Invariant) {r : RegularExpression Act} {w : List Act}
    (hr : Triple View.perform (·.mapped = none) r (·.mapped = none)) (hw : w ∈ r.matches')
    (user : m.current.todo = []) : (m.push w).Invariant := by
  have hm : m.view.mapped = none := by
    have hrunning := h.running
    rw [user, leads_nil] at hrunning
    exact hrunning
  apply h.push
  rw [user, List.append_nil]
  exact hr w hw m.view hm

theorem Invariant.handler (h : m.Invariant) {r : RegularExpression Act} {w : List Act}
    (hr : Keeps r m.view) (hw : w ∈ r.matches') : (m.push w).Invariant := by
  apply h.push
  apply hr.leads_append hw rfl
  rintro v rfl
  exact h.running

/-- The state after an action that keeps the processor. -/
def advance (m : Machine τ) (rest : List Act) (v : View) (slot : Option (τ × Site)) :
    Machine τ :=
  { m.become ⟨rest, v.saved⟩ with interrupts := v.interrupts, slot := slot }

theorem Invariant.advance (h : m.Invariant) {v : View} {slot : Option (τ × Site)}
    (hg : v.Guarded) (hv : Leads View.perform rest (·.mapped = none) v)
    (hslot : slot.map Prod.snd = v.mapped) (howner : ∀ t site, slot = some (t, site) → t = m.running) :
    (m.advance rest v slot).Invariant := by
  have hcurrent : (m.advance rest v slot).current = ⟨rest, v.saved⟩ :=
    become_current (m := m) ⟨rest, v.saved⟩
  have hview : (m.advance rest v slot).view = v := by
    unfold view
    rw [hcurrent]
    exact congrArg (View.mk v.interrupts v.saved) hslot
  refine ⟨howner, ?_, ?_, ?_⟩
  · rw [hview]
    exact hg
  · rw [hview, hcurrent]
    exact hv
  · intro t ht
    have ht : t ≠ m.running := ht
    have hthread : (m.advance rest v slot).threads t = m.threads t := become_other ht _
    rw [hthread]
    exact h.waiting t ht

/-- What the thread sees of its action is what the machine does. -/
theorem Invariant.perform_eq (h : m.Invariant) (hs : a ≠ .switch) {v : View}
    (hv : m.view.perform a = some v) (hm : m.perform u rest a = some m') :
    ∃ slot, m' = m.advance rest v slot ∧ slot.map Prod.snd = v.mapped ∧
      ∀ t site, slot = some (t, site) → t = m.running := by
  cases a with
  | switch => exact absurd rfl hs
  | save =>
      cases hv
      cases hm
      exact ⟨m.slot, rfl, rfl, h.owner⟩
  | cli =>
      cases hv
      cases hm
      exact ⟨m.slot, rfl, rfl, h.owner⟩
  | sti =>
      obtain ⟨-, rfl⟩ := View.guard_eq_some.mp hv
      cases hm
      exact ⟨m.slot, rfl, rfl, h.owner⟩
  | restore =>
      obtain ⟨-, rfl⟩ := View.guard_eq_some.mp hv
      cases hm
      exact ⟨m.slot, rfl, rfl, h.owner⟩
  | leave =>
      cases hv
      cases hm
      exact ⟨m.slot, rfl, rfl, h.owner⟩
  | other =>
      cases hv
      cases hm
      exact ⟨m.slot, rfl, rfl, h.owner⟩
  | mapTempNull site =>
      obtain ⟨-, hv⟩ := Option.ite_none_right_eq_some.mp hv
      cases hv
      cases hm
      exact ⟨m.slot, rfl, rfl, h.owner⟩
  | access site =>
      obtain ⟨-, hv⟩ := Option.ite_none_right_eq_some.mp hv
      cases hv
      cases hm
      exact ⟨m.slot, rfl, rfl, h.owner⟩
  | mapTemp site =>
      obtain ⟨-, hv⟩ := Option.ite_none_right_eq_some.mp hv
      obtain ⟨-, hm⟩ := Option.ite_none_right_eq_some.mp hm
      cases hv
      cases hm
      exact ⟨m.slot, rfl, rfl, h.owner⟩
  | setTemp site =>
      obtain ⟨-, hv⟩ := Option.ite_none_right_eq_some.mp hv
      obtain ⟨-, rfl⟩ := View.guard_eq_some.mp hv
      cases hm
      refine ⟨some (m.running, site), rfl, rfl, ?_⟩
      rintro t site' ⟨⟩
      rfl
  | unmapTemp site =>
      obtain ⟨-, hv⟩ := Option.ite_none_right_eq_some.mp hv
      obtain ⟨-, hm⟩ := Option.ite_none_right_eq_some.mp hm
      cases hv
      cases hm
      refine ⟨none, rfl, rfl, ?_⟩
      rintro t site' ⟨⟩

/-- A switch outside the window of `syscall_pte_dump`: nobody has mapped the slot. -/
theorem Invariant.switch (h : m.Invariant) (htodo : m.current.todo = .switch :: rest)
    (hp : ¬m.Preempted) (hm : m.perform u rest .switch = some m') : m'.Invariant := by
  have hrunning := h.running
  rw [htodo] at hrunning
  obtain ⟨v, hv, hrest⟩ := leads_cons.mp hrunning
  obtain ⟨hg, rfl⟩ := View.guard_eq_some.mp hv
  have hmapped : m.view.mapped = none := by
    apply (hg rfl).resolve_right
    intro hdump
    exact hp ⟨by rw [htodo]; rfl, h.slot_eq hdump⟩
  have hslot : m.slot = none := view_mapped_eq_none.mp hmapped
  have hleft : Leads View.perform rest (·.mapped = none) ⟨true, m.current.saved, none⟩ := by
    have hview : (⟨true, m.view.saved, m.view.mapped⟩ : View) = ⟨true, m.current.saved, none⟩ := by
      rw [hmapped]
      rfl
    rwa [hview] at hrest
  cases hm
  have hthread : ∀ t, Leads View.perform ((m.become ⟨rest, m.current.saved⟩).threads t).todo
      (·.mapped = none) ⟨true, ((m.become ⟨rest, m.current.saved⟩).threads t).saved, none⟩ := by
    intro t
    by_cases ht : t = m.running
    · subst ht
      rw [show (m.become ⟨rest, m.current.saved⟩).threads m.running = ⟨rest, m.current.saved⟩ from
        become_current _]
      exact hleft
    · rw [become_other ht]
      exact h.waiting t ht
  refine ⟨?_, View.Guarded.of_none (view_mapped_eq_none.mpr hslot), ?_, fun t _ => hthread t⟩
  · intro t site hs
    rw [show m.slot = some (t, site) from hs] at hslot
    cases hslot
  · change Leads View.perform ((m.become ⟨rest, m.current.saved⟩).threads u).todo
      (·.mapped = none)
      ⟨true, ((m.become ⟨rest, m.current.saved⟩).threads u).saved, m.slot.map Prod.snd⟩
    rw [hslot]
    exact hthread u

theorem Invariant.step (h : m.Invariant) (hp : ¬m.Preempted) (hs : Step m m') : m'.Invariant := by
  cases hs with
  | call c user hw => exact h.call (unmapped_call c) hw user
  | userFault user hw => exact h.call unmapped_userFault hw user
  | kernelFault hw => exact h.handler (keeps_kernelFault h.guarded) hw
  | interrupt enabled hw => exact h.handler (keeps_interrupt (h.guarded enabled)) hw
  | act u htodo hm =>
      rename_i a rest
      by_cases ha : a = .switch
      · subst ha
        exact h.switch htodo hp hm
      · have hrunning := h.running
        rw [htodo] at hrunning
        obtain ⟨v, hv, hrest⟩ := leads_cons.mp hrunning
        obtain ⟨slot, rfl, hslot, howner⟩ := h.perform_eq ha hv hm
        exact h.advance (h.guarded.perform hv) hrest hslot howner

theorem Reached.invariant (h : Reached (fun m => ¬m.Preempted) m) : m.Invariant := by
  induction h with
  | boot t => exact invariant_boot t
  | step _ ha hs ih => exact ih.step ha hs

/-- The running thread performs `n` actions; a switch among them goes to `u`. -/
def performs (u : τ) : Nat → Machine τ → Option (Machine τ)
  | 0, m => some m
  | n + 1, m =>
      match m.current.todo with
      | [] => none
      | a :: rest => (m.perform u rest a).bind (performs u n)

theorem Reached.performs {n : Nat} (h : Reached (fun _ => True) m)
    (hm : m.performs u n = some m') : Reached (fun _ => True) m' := by
  induction n generalizing m with
  | zero =>
      cases hm
      exact h
  | succ n ih =>
      unfold Machine.performs at hm
      cases hw : m.current.todo with
      | nil =>
          rw [hw] at hm
          cases hm
      | cons a rest =>
          rw [hw] at hm
          obtain ⟨m₁, h₁, hm⟩ := Option.bind_eq_some_iff.mp hm
          exact ih (h.step trivial (.act u hw h₁)) hm

/-- A copy-on-write fault on a page with several references. -/
def copyFault : List Act :=
  [.save, .cli, .mapTemp .copyOnWrite, .setTemp .copyOnWrite, .access .copyOnWrite,
    .unmapTemp .copyOnWrite, .restore, .leave]

theorem copyFault_mem : copyFault ∈ (TempSlot.handler handleUserPageFault).matches' :=
  (RegularExpression.rmatch_iff_matches' (TempSlot.handler handleUserPageFault) copyFault).mp
    (by decide)

theorem Reached.copyFault_fails (h : Reached (fun _ => True) m) (user : m.current.todo = [])
    (hslot : m.slot ≠ none) : ∃ m' : Machine τ, Reached (fun _ => True) m' ∧ ¬m'.Exclusive := by
  have hfault := h.step trivial (.userFault user copyFault_mem)
  have htodo : (m.push copyFault).current.todo = copyFault := by
    unfold Machine.push
    rw [become_current, user, List.append_nil]
  have hsave := hfault.step trivial (.act m.running htodo rfl)
  have hcli := hsave.step trivial
    (.act m.running (congrArg Thread.todo (become_current (m := m.push copyFault) _)) rfl)
  refine ⟨_, hcli, ?_⟩
  intro hex
  apply hslot
  apply hex (.mapTemp .copyOnWrite)
  exact Option.mem_def.mpr (congrArg (fun t : Thread => t.todo.head?) (become_current _))

/-- The condition leaves out nothing else: the process that gets the processor may write to a
shared page, and `mapTemp` is called with the slot still mapped. -/
theorem Preempted.reenters (h : Reached (fun _ => True) m) (hp : m.Preempted)
    (user : (m.threads u).todo = []) : ∃ m' : Machine τ, Reached (fun _ => True) m' ∧ ¬m'.Exclusive := by
  obtain ⟨hhead, hslot⟩ := hp
  obtain ⟨rest, htodo⟩ : ∃ rest, m.current.todo = .switch :: rest := by
    cases hw : m.current.todo with
    | nil =>
        rw [hw] at hhead
        cases hhead
    | cons a rest =>
        rw [hw] at hhead
        cases hhead
        exact ⟨rest, rfl⟩
  have hu : u ≠ m.running := by
    rintro rfl
    rw [show (m.threads m.running).todo = .switch :: rest from htodo] at user
    cases user
  apply (h.step trivial (.act u htodo rfl)).copyFault_fails
  · have hthread := become_other hu ⟨rest, m.current.saved⟩
    rw [← user, ← hthread]
    rfl
  · change m.slot ≠ none
    rw [hslot]
    exact Option.some_ne_none _

/-- In a run in which `schedule` never takes the processor from a thread in `syscall_pte_dump`
between its `mapTemp` and its `unmapTemp`, each `mapTemp` finds the slot empty, and each mapping
is still there when it is used and when it is removed. -/
theorem mapTemp_exclusive (h : Reached (fun m => ¬m.Preempted) m) : m.Exclusive :=
  h.invariant.exclusive

/-- A dump of a page-table entry, up to the moment it reads the entry through the slot. -/
theorem mapTemp_exclusive_pteDump : ∃ m : Machine Bool,
    m.slot = some (false, .pteDump) ∧ m.current.todo.head? = some (.access .pteDump) ∧
      m.Exclusive := by
  have hcall : [Act.save, .cli, .sti, .mapTemp .pteDump, .setTemp .pteDump, .access .pteDump,
      .unmapTemp .pteDump, .cli, .restore, .leave] ∈ Call.pteDump.body.matches' :=
    (RegularExpression.rmatch_iff_matches' Call.pteDump.body _).mp (by decide)
  have hboot : Reached (fun m : Machine Bool => ¬m.Preempted) (boot false) := .boot false
  have hdump := hboot.step (fun hp => by cases hp.1) (.call .pteDump rfl hcall)
  have hsave := hdump.step (fun hp => by cases hp.1) (.act false rfl rfl)
  have hcli := hsave.step (fun hp => by cases hp.1) (.act false rfl rfl)
  have hsti := hcli.step (fun hp => by cases hp.1) (.act false rfl rfl)
  have hmap := hsti.step (fun hp => by cases hp.1) (.act false rfl rfl)
  have hset := hmap.step (fun hp => by cases hp.1) (.act false rfl rfl)
  exact ⟨_, rfl, rfl, mapTemp_exclusive hset⟩

/-- One process dumps a page-table entry, the timer comes while it has the slot mapped, and the
other process writes to a page it shares. -/
theorem mapTemp_reentered : ¬∀ m : Machine Bool, Reached (fun _ => True) m → m.Exclusive := by
  have hcall : [Act.save, .cli, .sti, .mapTemp .pteDump, .setTemp .pteDump, .access .pteDump,
      .unmapTemp .pteDump, .cli, .restore, .leave] ∈ Call.pteDump.body.matches' :=
    (RegularExpression.rmatch_iff_matches' Call.pteDump.body _).mp (by decide)
  have htimer : [Act.save, .cli, .save, .cli, .switch, .restore, .leave, .restore, .leave] ∈
      TempSlot.interrupt.matches' :=
    (RegularExpression.rmatch_iff_matches' TempSlot.interrupt _).mp (by decide)
  intro h
  have hboot : Reached (fun _ : Machine Bool => True) (boot false) := .boot false
  have hdump := hboot.step trivial (.call .pteDump rfl hcall)
  have hmapped := hdump.performs (u := false) (n := 5) rfl
  have htick := hmapped.step trivial (.interrupt rfl htimer)
  have hschedule := htick.performs (u := true) (n := 4) rfl
  obtain ⟨m, hm, hex⟩ := Preempted.reenters (u := true) hschedule ⟨rfl, rfl⟩ rfl
  exact hex (h m hm)

end Machine

end SysuOs.TempSlot
