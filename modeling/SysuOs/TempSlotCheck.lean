import SysuOs.TempSlot

/-! One thread's view of the interrupt flag, its saved statuses and the slot is enough to check a
function: between `mapTemp` and `unmapTemp` interrupts are off, except in `syscall_pte_dump`. The
check is a triple for each function; from it the slot is free for every `mapTemp` of a run. -/

namespace SysuOs.TempSlot

open RegularExpression Regular

/-- What the running thread knows: the interrupt flag, its statuses, and its use of the slot. -/
structure View where
  interrupts : Bool
  saved : List Bool
  mapped : Option Site
  deriving DecidableEq, Repr

namespace View

/-- With interrupts enabled only `syscall_pte_dump` has the slot mapped. -/
def Guarded (v : View) : Prop :=
  v.interrupts = true → v.mapped = none ∨ v.mapped = some .pteDump

instance (v : View) : Decidable v.Guarded :=
  inferInstanceAs (Decidable (v.interrupts = true → v.mapped = none ∨ v.mapped = some .pteDump))

def guard (v : View) : Option View := if v.Guarded then some v else none

/-- An action as the thread sees it, `none` where it is not covered by what the thread knows. -/
def perform (a : Act) (v : View) : Option View :=
  match a with
  | .save => some { v with saved := v.interrupts :: v.saved }
  | .cli => some { v with interrupts := false }
  | .sti => guard { v with interrupts := true }
  | .restore => guard { v with interrupts := v.saved.headD true }
  | .leave => some { v with saved := v.saved.tail }
  | .switch => guard { v with interrupts := true }
  | .mapTemp _ => if v.mapped = none then some v else none
  | .mapTempNull _ => if v.mapped = none then some v else none
  | .setTemp site => if v.mapped = none then guard { v with mapped := some site } else none
  | .access site => if v.mapped = some site then some v else none
  | .unmapTemp site => if v.mapped = some site then some { v with mapped := none } else none
  | .other => some v

theorem guard_eq_some {v w : View} : guard v = some w ↔ v.Guarded ∧ v = w := by
  unfold guard
  split <;> simp_all

theorem guard_of {v : View} (h : v.Guarded) : guard v = some v := if_pos h

theorem Guarded.of_none {v : View} (h : v.mapped = none) : v.Guarded := fun _ => Or.inl h

theorem Guarded.perform {a : Act} {v w : View} (hv : v.Guarded) (h : v.perform a = some w) :
    w.Guarded := by
  cases a with
  | save =>
      cases h
      exact hv
  | leave =>
      cases h
      exact hv
  | other =>
      cases h
      exact hv
  | cli =>
      cases h
      intro h
      cases h
  | sti =>
      obtain ⟨hg, rfl⟩ := guard_eq_some.mp h
      exact hg
  | restore =>
      obtain ⟨hg, rfl⟩ := guard_eq_some.mp h
      exact hg
  | switch =>
      obtain ⟨hg, rfl⟩ := guard_eq_some.mp h
      exact hg
  | mapTemp site =>
      obtain ⟨-, h⟩ := Option.ite_none_right_eq_some.mp h
      cases h
      exact hv
  | mapTempNull site =>
      obtain ⟨-, h⟩ := Option.ite_none_right_eq_some.mp h
      cases h
      exact hv
  | access site =>
      obtain ⟨-, h⟩ := Option.ite_none_right_eq_some.mp h
      cases h
      exact hv
  | setTemp site =>
      obtain ⟨-, h⟩ := Option.ite_none_right_eq_some.mp h
      obtain ⟨hg, rfl⟩ := guard_eq_some.mp h
      exact hg
  | unmapTemp site =>
      obtain ⟨-, h⟩ := Option.ite_none_right_eq_some.mp h
      cases h
      exact Guarded.of_none rfl

end View

/-- Interrupts are off and the slot is not used. -/
def off (saved : List Bool) : View := ⟨false, saved, none⟩

@[simp] theorem off_mapped (saved : List Bool) : (off saved).mapped = none := rfl

/-- The code leaves the view as it found it. -/
def Keeps (r : RegularExpression Act) (v : View) : Prop :=
  Triple View.perform (· = v) r (· = v)

/-- The slot is not used, the status on top is still there, and interrupts are off or as they
were saved. -/
def AtEnd (i : Bool) (saved : List Bool) (v : View) : Prop :=
  v.saved = saved ∧ v.mapped = none ∧ (v.interrupts = false ∨ v.interrupts = i)

/-- The body of a function that saved the status `i` and disabled interrupts. -/
def Ends (r : RegularExpression Act) (i : Bool) (saved : List Bool) : Prop :=
  Triple View.perform (· = off (i :: saved)) r (AtEnd i (i :: saved))

section Rules

variable {p q r : RegularExpression Act} {v w : View} {a : Act} {i : Bool} {saved : List Bool}

theorem triple_act (h : v.perform a = some w) : Triple View.perform (· = v) (act a) (· = w) := by
  apply Triple.char
  rintro s rfl
  exact ⟨w, h, rfl⟩

theorem keeps_act (h : v.perform a = some v) : Keeps (act a) v := triple_act h

theorem keeps_one : Keeps 1 v := Triple.one

theorem Keeps.mul (hp : Keeps p v) (hq : Keeps q v) : Keeps (p * q) v := Triple.mul hp hq

theorem Keeps.add (hp : Keeps p v) (hq : Keeps q v) : Keeps (p + q) v := Triple.add hp hq

theorem Keeps.star (hp : Keeps p v) : Keeps p.star v := Triple.star hp

theorem keeps_quiet : Keeps quiet v := Keeps.star (keeps_act rfl)

theorem keeps_null {site : Site} : Keeps (act (.mapTempNull site)) (off saved) :=
  keeps_act rfl

theorem keeps_access {site : Site} : Keeps (act (.access site)) ⟨i, saved, some site⟩ :=
  keeps_act (by simp [View.perform])

/-- A window is closed again, and interrupts are off in it. -/
theorem keeps_window {site : Site} (hs : View.Guarded ⟨i, saved, some site⟩)
    (hr : Keeps r ⟨i, saved, some site⟩) : Keeps (window site r) ⟨i, saved, none⟩ := by
  have hmap : Keeps (act (.mapTemp site)) ⟨i, saved, none⟩ := keeps_act (by simp [View.perform])
  have hset : Triple View.perform (· = ⟨i, saved, none⟩) (act (.setTemp site))
      (· = ⟨i, saved, some site⟩) := by
    apply triple_act
    rw [View.perform, if_pos rfl]
    exact View.guard_of hs
  have hunmap : Triple View.perform (· = ⟨i, saved, some site⟩) (act (.unmapTemp site))
      (· = ⟨i, saved, none⟩) := triple_act (by simp [View.perform])
  exact Triple.mul (Triple.mul (Triple.mul hmap hset) hr) hunmap

theorem keeps_window_off {site : Site} (hr : Keeps r ⟨false, saved, some site⟩) :
    Keeps (window site r) (off saved) :=
  keeps_window (fun h => by cases h) hr

/-- `getInterruptStatus` and `disableInterrupt` before a body, the status dropped behind it. -/
theorem triple_withStatus (hr : Ends r i saved) :
    Triple View.perform (· = ⟨i, saved, none⟩) (withStatus r) (AtEnd i saved) := by
  have hsave : Triple View.perform (· = ⟨i, saved, none⟩) (act .save)
      (· = ⟨i, i :: saved, none⟩) := triple_act rfl
  have hcli : Triple View.perform (· = ⟨i, i :: saved, none⟩) (act .cli) (· = off (i :: saved)) :=
    triple_act rfl
  have hleave : Triple View.perform (AtEnd i (i :: saved)) (act .leave) (AtEnd i saved) := by
    apply Triple.char
    rintro ⟨j, t, m⟩ ⟨ht, hm, hj⟩
    refine ⟨_, rfl, ?_, hm, hj⟩
    rw [ht]
    rfl
  exact ((hsave.mul hcli).mul hr).mul hleave

/-- With interrupts off before the call they are off after it. -/
theorem keeps_withStatus (hr : Ends r false saved) : Keeps (withStatus r) (off saved) := by
  apply (triple_withStatus hr).weaken (fun v hv => hv)
  rintro ⟨j, t, m⟩ ⟨ht, hm, hj⟩
  simp_all [off]

theorem ends_one : Ends 1 i saved := by
  apply Triple.one.weaken (fun v hv => hv)
  rintro v rfl
  exact ⟨rfl, rfl, Or.inl rfl⟩

theorem ends_restore : Ends (act .restore) i saved := by
  apply Triple.char
  rintro v rfl
  refine ⟨⟨i, i :: saved, none⟩, ?_, rfl, rfl, Or.inr rfl⟩
  exact View.guard_of (View.Guarded.of_none rfl)

theorem Ends.add (hp : Ends p i saved) (hq : Ends q i saved) : Ends (p + q) i saved :=
  Triple.add hp hq

theorem Keeps.ends (hp : Keeps p (off (i :: saved))) (hq : Ends q i saved) : Ends (p * q) i saved :=
  Triple.mul hp hq

/-- What comes after `setInterruptStatus`. -/
theorem Ends.then (hp : Ends p i saved)
    (hq : ∀ v : View, v.mapped = none → Keeps q v) : Ends (p * q) i saved := by
  apply Triple.mul hp
  intro w hw v hv
  obtain ⟨t, ht, rfl⟩ := hq v hv.2.1 w hw v rfl
  exact ⟨t, ht, hv⟩

end Rules

section Functions

variable {i : Bool} {saved : List Bool}

theorem keeps_kernelWork (n : Nat) (saved : List Bool) : Keeps (kernelWork n) (off saved) := by
  induction n generalizing saved with
  | zero => exact keeps_quiet
  | succ n ih =>
      apply Keeps.star
      apply Keeps.add (keeps_act rfl)
      exact keeps_withStatus ((ih _).ends ends_restore)

theorem keeps_fileWork : Keeps fileWork (off saved) := keeps_kernelWork 3 saved

theorem keeps_undoProcessEntry : Keeps undoProcessEntry (off saved) :=
  keeps_null.add (keeps_window_off keeps_access)

theorem keeps_mapProcessEntry : Keeps mapProcessEntry (off saved) := by
  unfold mapProcessEntry
  apply_rules [keeps_quiet, keeps_null, keeps_access, keeps_window_off, keeps_one, keeps_undoProcessEntry,
    Keeps.star, Keeps.add, Keeps.mul]

theorem keeps_mapProcessPage : Keeps mapProcessPage (off saved) := by
  unfold mapProcessPage
  apply_rules [keeps_quiet, keeps_null, keeps_access, keeps_window_off, keeps_one, keeps_mapProcessEntry,
    Keeps.star, Keeps.add, Keeps.mul]

theorem keeps_releaseProcessPage : Keeps releaseProcessPage (off saved) := by
  unfold releaseProcessPage
  apply_rules [keeps_quiet, keeps_null, keeps_access, keeps_window_off, keeps_one,
    Keeps.star, Keeps.add, Keeps.mul]

theorem keeps_rollbackLoadedSegments : Keeps rollbackLoadedSegments (off saved) :=
  (keeps_quiet.mul keeps_releaseProcessPage).star

theorem keeps_loadSegmentPage : Keeps loadSegmentPage (off saved) := by
  unfold loadSegmentPage
  apply_rules [keeps_quiet, keeps_null, keeps_access, keeps_window_off, keeps_one, keeps_fileWork,
    Keeps.star, Keeps.add, Keeps.mul]

theorem keeps_setCOW : Keeps setCOW (off saved) :=
  keeps_quiet.mul ((keeps_window_off (keeps_access.mul keeps_quiet)).mul keeps_quiet).star

theorem keeps_setupCOWTable : Keeps setupCOWTable (off saved) := by
  unfold setupCOWTable
  apply_rules [keeps_quiet, keeps_null, keeps_access, keeps_window_off, keeps_one, keeps_setCOW,
    Keeps.star, Keeps.add, Keeps.mul]

theorem keeps_setupCOWPages : Keeps setupCOWPages (off saved) := by
  unfold setupCOWPages
  apply_rules [keeps_quiet, keeps_null, keeps_access, keeps_window_off, keeps_one, keeps_setupCOWTable,
    Keeps.star, Keeps.add, Keeps.mul]

theorem keeps_loadSegments : Keeps loadSegments (off saved) := by
  unfold loadSegments
  apply_rules [keeps_quiet, keeps_null, keeps_access, keeps_window_off, keeps_one, keeps_loadSegmentPage, keeps_mapProcessPage, keeps_rollbackLoadedSegments,
    Keeps.star, Keeps.add, Keeps.mul]

theorem keeps_createUserVirtualPool : Keeps createUserVirtualPool (off saved) :=
  keeps_quiet.mul ((keeps_one.add (keeps_quiet.mul keeps_loadSegments)).add
    ((keeps_quiet.mul keeps_setupCOWPages).mul keeps_quiet))

theorem keeps_copyProcess : Keeps copyProcess (off saved) :=
  (keeps_quiet.mul (keeps_quiet.mul keeps_setupCOWPages).star).mul (keeps_quiet.add keeps_fileWork)

/-- A section that ends in `setInterruptStatus` leaves everything as it was around it. -/
theorem keeps_section {r : RegularExpression Act} {v : View} (hv : v.Guarded)
    (hr : Triple View.perform (· = ⟨false, v.interrupts :: v.saved, v.mapped⟩) r
      (fun w => ∃ i, w = ⟨i, v.interrupts :: v.saved, v.mapped⟩)) :
    Keeps (withStatus (r * act .restore)) v := by
  have hsave : Triple View.perform (· = v) (act .save)
      (· = { v with saved := v.interrupts :: v.saved }) := triple_act rfl
  have hcli : Triple View.perform (· = { v with saved := v.interrupts :: v.saved }) (act .cli)
      (· = ⟨false, v.interrupts :: v.saved, v.mapped⟩) := triple_act rfl
  have hrestore : Triple View.perform (fun w => ∃ i, w = ⟨i, v.interrupts :: v.saved, v.mapped⟩)
      (act .restore) (· = { v with saved := v.interrupts :: v.saved }) := by
    apply Triple.char
    rintro w ⟨i, rfl⟩
    exact ⟨_, View.guard_of hv, rfl⟩
  have hleave : Triple View.perform (· = { v with saved := v.interrupts :: v.saved }) (act .leave)
      (· = v) := triple_act rfl
  exact ((hsave.mul hcli).mul (hr.mul hrestore)).mul hleave

/-- `schedule` comes back with the interrupt flag it was called with. -/
theorem keeps_schedule {v : View} (h : v.mapped = none ∨ v.mapped = some .pteDump) :
    Keeps schedule v := by
  apply keeps_section (fun _ => h)
  apply Triple.mul keeps_quiet
  apply Triple.add
  · apply (triple_act (w := ⟨true, v.interrupts :: v.saved, v.mapped⟩) ?_).weaken (fun _ hw => hw)
    · exact fun w hw => ⟨true, hw⟩
    · exact View.guard_of (fun _ => h)
  · exact Triple.one.weaken (fun _ hw => hw) (fun w hw => ⟨false, hw⟩)

theorem ends_executeThread : Ends (quiet * (1 + quiet * act .restore
    + fileWork * quiet * act .restore)) i saved := by
  apply keeps_quiet.ends
  apply Ends.add
  · exact ends_one.add (keeps_quiet.ends ends_restore)
  · exact (keeps_fileWork.mul keeps_quiet).ends ends_restore

theorem keeps_executeThread : Keeps executeThread (off saved) :=
  keeps_withStatus ends_executeThread

theorem triple_fork : Triple View.perform (· = ⟨i, saved, none⟩) fork (AtEnd i saved) := by
  apply triple_withStatus
  apply keeps_quiet.ends
  apply ends_restore.add
  apply keeps_executeThread.ends
  apply ends_restore.add
  apply keeps_quiet.ends
  apply ends_restore.add
  apply keeps_quiet.ends
  apply ends_restore.add
  apply keeps_copyProcess.ends
  apply ends_restore.add
  exact (keeps_quiet.ends ends_restore).then (fun _ _ => keeps_quiet)

theorem triple_executeProcess :
    Triple View.perform (· = ⟨i, saved, none⟩) executeProcess (AtEnd i saved) := by
  apply triple_withStatus
  apply keeps_fileWork.ends
  apply ends_restore.add
  apply keeps_executeThread.ends
  apply Ends.add
  · exact keeps_fileWork.ends ends_restore
  · apply keeps_quiet.ends
    apply Ends.add
    · exact (keeps_quiet.mul keeps_fileWork).ends ends_restore
    · exact (((keeps_createUserVirtualPool.mul keeps_quiet).mul keeps_fileWork).mul
        keeps_quiet).ends ends_restore

theorem triple_execveFails :
    Triple View.perform (· = ⟨i, saved, none⟩) execveFails (AtEnd i saved) := by
  apply triple_withStatus
  apply keeps_fileWork.ends
  apply ends_restore.add
  apply keeps_quiet.ends
  apply Ends.add
  · exact keeps_fileWork.ends ends_restore
  · apply (keeps_fileWork.mul keeps_quiet).ends
    apply Ends.add
    · exact keeps_fileWork.ends ends_restore
    · have hrestore : Ends (act .restore) i saved := ends_restore
      have hpool := ((keeps_createUserVirtualPool.mul keeps_fileWork).mul keeps_quiet).ends hrestore
      exact (hpool.then (fun _ hv => keeps_schedule (Or.inl hv))).then (fun _ _ => keeps_quiet)

/-- An action outside a window, whatever the interrupt flag is. -/
theorem triple_unmapped {a : Act}
    (h : ∀ v : View, v.mapped = none → ∃ w, v.perform a = some w ∧ w.mapped = none) :
    Triple View.perform (·.mapped = none) (act a) (·.mapped = none) :=
  Triple.char h

theorem unmapped_guard {v : View} (h : v.mapped = none) : v.guard = some v :=
  View.guard_of (View.Guarded.of_none h)

theorem unmapped_save : Triple View.perform (·.mapped = none) (act .save) (·.mapped = none) :=
  triple_unmapped (fun _ h => ⟨_, rfl, h⟩)

theorem unmapped_cli : Triple View.perform (·.mapped = none) (act .cli) (·.mapped = none) :=
  triple_unmapped (fun _ h => ⟨_, rfl, h⟩)

theorem unmapped_sti : Triple View.perform (·.mapped = none) (act .sti) (·.mapped = none) :=
  triple_unmapped (fun _ h => ⟨_, unmapped_guard h, h⟩)

theorem unmapped_restore :
    Triple View.perform (·.mapped = none) (act .restore) (·.mapped = none) :=
  triple_unmapped (fun _ h => ⟨_, unmapped_guard h, h⟩)

theorem unmapped_leave : Triple View.perform (·.mapped = none) (act .leave) (·.mapped = none) :=
  triple_unmapped (fun _ h => ⟨_, rfl, h⟩)

theorem unmapped_switch : Triple View.perform (·.mapped = none) (act .switch) (·.mapped = none) :=
  triple_unmapped (fun _ h => ⟨_, unmapped_guard h, h⟩)

theorem unmapped_quiet : Triple View.perform (·.mapped = none) quiet (·.mapped = none) :=
  Triple.star (triple_unmapped (fun v h => ⟨v, rfl, h⟩))

theorem unmapped_otherCall :
    Triple View.perform (·.mapped = none) otherCall (·.mapped = none) := by
  apply Triple.star
  have hother := triple_unmapped (a := .other) (fun v h => ⟨v, rfl, h⟩)
  exact (((((unmapped_save.add unmapped_cli).add unmapped_sti).add unmapped_restore).add
    unmapped_leave).add unmapped_switch).add hother

theorem AtEnd.unmapped {v : View} (h : AtEnd i saved v) : v.mapped = none := h.2.1

/-- A function that may be called with any interrupt status. -/
theorem unmapped_of_atEnd {r : RegularExpression Act}
    (h : ∀ i saved, Triple View.perform (· = ⟨i, saved, none⟩) r (AtEnd i saved)) :
    Triple View.perform (·.mapped = none) r (·.mapped = none) := by
  apply Triple.of_forall
  rintro ⟨i, saved, m⟩ hm
  cases hm
  exact (h i saved).weaken (fun _ hv => hv) (fun _ hv => hv.unmapped)

/-- The gate and the `sti` of `asm_system_call_handler` before the body of a call. -/
theorem unmapped_enter {r : RegularExpression Act}
    (h : ∀ saved, Triple View.perform (· = ⟨true, saved, none⟩) r (·.mapped = none)) :
    Triple View.perform (·.mapped = none) (act .save * act .cli * act .sti * r)
      (·.mapped = none) := by
  have hsti : Triple View.perform (·.mapped = none) (act .sti)
      (fun v => v.interrupts = true ∧ v.mapped = none) :=
    Triple.char (fun v hv => ⟨_, unmapped_guard hv, rfl, hv⟩)
  have hr : Triple View.perform (fun v => v.interrupts = true ∧ v.mapped = none) r
      (·.mapped = none) := by
    apply Triple.of_forall
    rintro ⟨i, saved, m⟩ ⟨hi, hm⟩
    cases hi
    cases hm
    exact h saved
  exact ((unmapped_save.mul unmapped_cli).mul hsti).mul hr

theorem unmapped_systemCall {r : RegularExpression Act}
    (h : ∀ saved, Triple View.perform (· = ⟨true, saved, none⟩) r (·.mapped = none)) :
    Triple View.perform (·.mapped = none) (systemCall r) (·.mapped = none) :=
  (((unmapped_enter h).mul unmapped_cli).mul unmapped_restore).mul unmapped_leave

/-- `syscall_pte_dump` maps the slot with interrupts enabled. -/
theorem keeps_pteDump : Keeps pteDump ⟨true, saved, none⟩ := by
  apply keeps_quiet.mul
  apply Keeps.add
  · exact keeps_one.add (keeps_act rfl)
  · exact keeps_window (fun _ => Or.inr rfl) (keeps_access.mul keeps_quiet)

theorem unmapped_execveStarts :
    Triple View.perform (·.mapped = none) execveStarts (·.mapped = none) := by
  have hbody : ∀ i saved, Triple View.perform (· = ⟨i, saved, none⟩)
      (withStatus (fileWork * quiet * fileWork * quiet * createUserVirtualPool * fileWork * quiet
        * act .restore)) (AtEnd i saved) := by
    intro i saved
    apply triple_withStatus
    exact ((((((keeps_fileWork.mul keeps_quiet).mul keeps_fileWork).mul keeps_quiet).mul
      keeps_createUserVirtualPool).mul keeps_fileWork).mul keeps_quiet).ends ends_restore
  exact ((unmapped_of_atEnd hbody).mul unmapped_sti).mul unmapped_leave

/-- Each call can be made by a thread that has not mapped the slot, and has not when it ends. -/
theorem unmapped_call (c : Call) :
    Triple View.perform (·.mapped = none) c.body (·.mapped = none) := by
  cases c with
  | fork =>
      apply unmapped_systemCall
      exact fun saved => triple_fork.weaken (fun _ hv => hv) (fun _ hv => hv.unmapped)
  | execve =>
      apply Triple.add
      · apply unmapped_systemCall
        exact fun saved => triple_execveFails.weaken (fun _ hv => hv) (fun _ hv => hv.unmapped)
      · apply unmapped_enter
        exact fun saved => unmapped_execveStarts.weaken (fun _ hv => hv ▸ rfl) (fun _ hv => hv)
  | pteDump =>
      apply unmapped_systemCall
      exact fun saved => keeps_pteDump.weaken (fun _ hv => hv) (fun _ hv => hv ▸ rfl)
  | otherSystemCall =>
      apply unmapped_systemCall
      exact fun saved => unmapped_otherCall.weaken (fun _ hv => hv ▸ rfl) (fun _ hv => hv)
  | loadProcess => exact (unmapped_cli.mul unmapped_quiet).mul unmapped_sti
  | executeProcess => exact unmapped_of_atEnd (fun _ _ => triple_executeProcess)
  | executeThread => exact unmapped_of_atEnd (fun _ _ => triple_withStatus ends_executeThread)
  | otherCall => exact unmapped_otherCall

/-- A copy-on-write fault of a process in user mode uses the slot with interrupts off. -/
theorem unmapped_userFault : Triple View.perform (·.mapped = none) (handler handleUserPageFault)
    (·.mapped = none) := by
  apply unmapped_of_atEnd
  intro i saved
  apply triple_withStatus
  apply Keeps.ends _ ends_restore
  apply keeps_quiet.mul
  apply keeps_one.add
  apply keeps_quiet.mul
  exact keeps_null.add ((keeps_window_off keeps_access).mul keeps_quiet)

theorem keeps_kernelFault {v : View} (hv : v.Guarded) : Keeps (handler handleKernelPageFault) v :=
  keeps_section hv (keeps_quiet.weaken (fun _ hw => hw) (fun _ hw => ⟨false, hw⟩))

theorem keeps_interrupt {v : View} (h : v.mapped = none ∨ v.mapped = some .pteDump) :
    Keeps interrupt v := by
  apply keeps_section (fun _ => h)
  have hschedule : Keeps schedule ⟨false, v.interrupts :: v.saved, v.mapped⟩ := keeps_schedule h
  have hbody := keeps_quiet.mul (hschedule.add keeps_one)
  exact hbody.weaken (fun _ hw => hw) (fun _ hw => ⟨false, hw⟩)

end Functions

end SysuOs.TempSlot
