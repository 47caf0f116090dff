import SysuOs.PagingCounters

/-! Reserving pages without frames, all of them or none: `allocatePagesLazy` reserves every page of its
range if it has the page tables, and does not return 0 if it lacks one. -/

namespace SysuOs.PageTables

/-- The directory entries for `count` pages from `start` on. -/
def Touched (start count i : Nat) : Prop := ∃ k, k < count ∧ (start + k) / 1024 = i

/-- Nothing has changed but the new page tables. -/
structure Restored (a : Answers) (s s' : Space) : Prop where
  reserved : s'.reserved = s.reserved
  pde : ∀ i e, s.pde i = some e → s'.pde i = some e
  frame : ∀ i e, s'.pde i = some e → e.frame ≠ 0
  entry : ∀ n, s'.entry n = s.entry n
  mem : ∀ f k, s'.mem f k ≠ s.mem f k → ∃ i, a.table i = some f

/-- Without one of its page tables `allocatePagesLazy` returns 0 and restores what it has changed; if it
does not return 0, all its pages are reserved and lazy. -/
structure AllOrNothing (a : Answers) (s : Space) (type : AddressPoolType) (start : Option Nat)
    (count : Nat) : Prop where
  failed : ∀ first, start = some first → ¬TablesFound a s first count →
    ∃ s', s.allocatePagesLazy a type start count = .ret (none, s') ∧ Restored a s s'
  complete : ∀ first s', s.allocatePagesLazy a type start count = .ret (some first, s') →
    ∀ k, k < count → s'.reserved (first + k) = true ∧ s'.entry (first + k) = PTE_LAZY ||| PTE_WRITABLE

section Lazy

variable {D : Nat → Prop} {a : Answers} {s s₁ s' : Space} {type : AddressPoolType}
  {n m start count left : Nat} {e : Pde} {w : Word}

/-- Linking a page table changes no entry. -/
theorem Distinct.linked (h : Distinct D a s) (hn : D (n / 1024)) (hlinked : Space.Linked a type s n s₁) :
    Distinct D a s₁ ∧ s₁.reserved = s.reserved ∧ ∀ m, D (m / 1024) → s₁.entry m = s.entry m := by
  cases hlinked with
  | present hpde => exact ⟨h, rfl, fun _ _ => rfl⟩
  | table hnone htable =>
      rename_i frame
      refine ⟨h.linkTable hn type htable, rfl, fun m hm => ?_⟩
      by_cases hmn : m / 1024 = n / 1024
      · have hpde : (s.linkTable type n frame).pde (m / 1024) = some ⟨frame, Space.firstCount type⟩ := by
          rw [hmn]
          exact s.linkTable_pde_self type n frame
        rw [← hmn] at hnone
        rw [Space.entry_eq hpde, Space.entry, hnone]
        exact congrFun (Function.update_self frame (fun _ => 0#32) s.mem) _
      · have hpde : (s.linkTable type n frame).pde (m / 1024) = s.pde (m / 1024) :=
          Function.update_of_ne hmn _ _
        rw [Space.entry, Space.entry, hpde]
        cases hold : s.pde (m / 1024) with
        | none => rfl
        | some e =>
            have hframe : e.frame ≠ frame := fun heq =>
              hmn (h.unused _ frame hn htable _ e hm hold heq)
            exact congrFun (Function.update_of_ne hframe (fun _ => 0#32) s.mem) _

/-- The entries after one has been written, whatever becomes of the counters. -/
theorem Distinct.write (h : Distinct D a s) (hn : D (n / 1024)) (hpde : s.pde (n / 1024) = some e)
    (hframes : ∀ i, (s'.pde i).map Pde.frame = (s.pde i).map Pde.frame)
    (hmem : s'.mem = Function.update s.mem e.frame (Function.update (s.mem e.frame) (n % 1024) w))
    (hm : D (m / 1024)) : s'.entry m = if m = n then w else s.entry m := by
  have hframe := hframes (m / 1024)
  cases hold : s.pde (m / 1024) with
  | none =>
      rw [hold, Option.map_none, Option.map_eq_none_iff] at hframe
      have hmn : m ≠ n := by
        rintro rfl
        rw [hpde] at hold
        cases hold
      rw [Space.entry_none hframe, if_neg hmn, Space.entry_none hold]
  | some e₁ =>
      rw [hold, Option.map_some, Option.map_eq_some_iff] at hframe
      obtain ⟨e₂, he₂, heq⟩ := hframe
      rw [Space.entry_eq he₂, Space.entry_eq hold, hmem, heq]
      by_cases hidx : m / 1024 = n / 1024
      · rw [hidx, hpde] at hold
        obtain rfl := Option.some.inj hold
        rw [Function.update_self]
        by_cases hmn : m = n
        · rw [hmn, if_pos rfl, Function.update_self]
        · rw [if_neg hmn, Function.update_of_ne (by omega)]
      · have hne : e₁.frame ≠ e.frame := fun heq' => hidx (h.apart _ _ e₁ e hm hn hold hpde heq')
        have hmn : m ≠ n := fun hmn => hidx (by rw [hmn])
        rw [Function.update_of_ne hne, if_neg hmn]

theorem Distinct.mapPage (h : Distinct D a s) (hn : D (n / 1024)) (hpde : s.pde (n / 1024) = some e) (w : Word) :
    Distinct D a (s.mapPage n w) ∧ (s.mapPage n w).reserved = s.reserved ∧
      ∀ m, D (m / 1024) → (s.mapPage n w).entry m = if m = n then w else s.entry m := by
  refine ⟨h.update hpde (by rw [Space.mapPage_eq hpde]), by rw [Space.mapPage_eq hpde], fun m hm => ?_⟩
  apply h.write hn hpde _ _ hm
  · intro i
    rw [Space.mapPage_eq hpde]
    by_cases hi : i = n / 1024
    · subst hi
      dsimp only
      rw [Function.update_self, hpde]
      rfl
    · dsimp only
      rw [Function.update_of_ne hi]
  · rw [Space.mapPage_eq hpde]

/-- With all its page tables the loop makes the rest of its pages lazy. -/
theorem allocatePagesLazyLoop_spec (type : AddressPoolType) (hleft : left ≤ count) (h : Distinct (Touched start count) a s)
    (hfound : TablesFound a s start count) :
    ∃ s', Space.allocatePagesLazyLoop a type start count left s = .ret s' ∧ s'.reserved = s.reserved ∧
      ∀ k, k < count → s'.entry (start + k) =
        if count - left ≤ k then PTE_LAZY ||| PTE_WRITABLE else s.entry (start + k) := by
  induction left generalizing s with
  | zero => exact ⟨s, rfl, rfl, fun k hk => (if_neg (by omega)).symm⟩
  | succ left ih =>
      have htouched : ∀ k, k < count → Touched start count ((start + k) / 1024) := fun k hk => ⟨k, hk, rfl⟩
      have hi : count - (left + 1) < count := by omega
      obtain ⟨s₁, htable, hlinked⟩ := Space.lazyTable_linked type (hfound (count - (left + 1)) hi)
      obtain ⟨e, hpde⟩ := hlinked.exists_pde
      obtain ⟨h₁, hreserved₁, hentry₁⟩ := h.linked (htouched _ hi) hlinked
      obtain ⟨h₂, hreserved₂, hentry₂⟩ :=
        h₁.mapPage (htouched _ hi) hpde (PTE_LAZY ||| PTE_WRITABLE)
      obtain ⟨s', hloop, hreserved, hentry⟩ :=
        ih (Nat.le_of_succ_le hleft) h₂ (hfound.linked hlinked _)
      rw [Space.allocatePagesLazyLoop, htable]
      refine ⟨s', hloop, hreserved.trans (hreserved₂.trans hreserved₁), fun k hk => ?_⟩
      rw [hentry k hk, hentry₂ _ (htouched k hk), hentry₁ _ (htouched k hk)]
      by_cases hlast : k = count - (left + 1)
      · rw [if_pos (by omega : start + k = start + (count - (left + 1))), ite_self, if_pos hlast.ge]
      · rw [if_neg (by omega : ¬start + k = start + (count - (left + 1)))]
        exact if_congr (by omega) rfl rfl

/-- `allocatePagesLazy` returns what the virtual pool has answered. -/
theorem allocatePagesLazy_start {start : Option Nat} {r : Option Nat × Space}
    (hres : s.allocatePagesLazy a type start count = .ret r) : r.1 = start := by
  cases start with
  | none =>
      obtain rfl := Outcome.ret.inj hres
      rfl
  | some first =>
      obtain ⟨s₁, -, hres⟩ := Outcome.bind_eq_ret hres
      obtain rfl := Outcome.ret.inj hres
      rfl

/-- `allocatePagesLazy` is all-or-nothing exactly if it finds every page table it needs, or a frame
for it. -/
theorem allOrNothing_iff {start : Option Nat}
    (h : ∀ first, start = some first → Distinct (Touched first count) a s) :
    AllOrNothing a s type start count ↔ ∀ first, start = some first → TablesFound a s first count := by
  constructor
  · intro hall first hfirst
    by_contra hmissing
    obtain ⟨s', hres, -⟩ := hall.failed first hfirst hmissing
    have hstart := allocatePagesLazy_start hres
    rw [hfirst] at hstart
    cases hstart
  · intro hfound
    refine ⟨fun first hfirst hmissing => absurd (hfound first hfirst) hmissing, fun first s' hres k hk => ?_⟩
    have hfirst := allocatePagesLazy_start hres
    dsimp only at hfirst
    subst hfirst
    have hdistinct : Distinct (Touched first count) a (s.reserve first count true) :=
      ⟨(h first rfl).unused, (h first rfl).inj, (h first rfl).apart⟩
    obtain ⟨s₁, hloop, hreserved, hentry⟩ :=
      allocatePagesLazyLoop_spec type (le_refl count) hdistinct (hfound first rfl)
    rw [Space.allocatePagesLazy, hloop] at hres
    obtain ⟨-, rfl⟩ := Prod.mk.inj (Outcome.ret.inj hres)
    rw [hreserved, hentry k hk, Nat.sub_self, if_pos (Nat.zero_le k)]
    exact ⟨if_pos ⟨by omega, by omega⟩, rfl⟩

section Instance

theorem distinct_created (D : Nat → Prop)
    (hinj : ∀ i j frame, a.table i = some frame → a.table j = some frame → i = j) :
    Distinct D a createdSpace where
  unused _ _ _ _ _ _ _ hj := (Option.some_ne_none _ hj.symm).elim
  inj i j frame _ _ := hinj i j frame
  apart _ _ _ _ _ _ hi := (Option.some_ne_none _ hi.symm).elim

/-- Two user pages with a frame for their page table. -/
theorem allOrNothing_iff_two :
    AllOrNothing oneTable createdSpace .USER (some 34000) 2 ↔
      ∀ first, some 34000 = some first → TablesFound oneTable createdSpace first 2 := by
  refine allOrNothing_iff fun first _ => distinct_created _ fun i j frame hi hj => ?_
  rw [oneTable] at hi hj
  dsimp only at hi hj
  split at hi <;> split at hj <;> simp_all

/-- A user page without a frame for its page table. -/
theorem not_allOrNothing : ¬AllOrNothing noTable createdSpace .USER (some 34000) 1 := by
  intro h
  obtain ⟨s', hres, -⟩ := h.failed 34000 rfl fun hfound =>
    absurd (hfound 0 Nat.one_pos rfl) Bool.false_ne_true
  have hstart := allocatePagesLazy_start hres
  cases hstart

end Instance

end Lazy

end SysuOs.PageTables
