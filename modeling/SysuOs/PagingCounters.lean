import SysuOs.PagingTables

/-! The counter of a directory entry against the entries of its page table. It saturates at 7 and is an
upper bound, so that a page table is not released while an entry of it is present or lazy. The one
step that breaks this is `allocatePagesLazy` without a frame for a page table, which goes on with the
page table at 0, whatever else uses that. -/

namespace SysuOs.PageTables

open Flags

/-! ### Calls and runs -/

/-- The calls that change the page tables of a process. -/
inductive Call where
  | allocatePages (start : Option Nat) (count : Nat)
  | allocatePagesLazy (start : Option Nat) (count : Nat)
  | releasePages (start count : Nat)
  | connectPhysicalVirtualPage (n paddr : Nat)
  | mapProcessPage (n paddr : Nat)
  | releaseProcessPage (n : Nat)
  | setupCOWPages (cow : Nat → Option (Nat → Nat → Bool)) (paddr n count : Nat)
  | demandZero (n : Nat)
  | copyOnWrite (n : Nat) (newPaddr : Option Nat)

namespace Call

def exec (a : Answers) (s : Space) : Call → Outcome Space
  | allocatePages start count => do
      let (_, s) ← s.allocatePages a start count
      return s
  | allocatePagesLazy start count => do
      let (_, s) ← s.allocatePagesLazy a .USER start count
      return s
  | releasePages start count => s.releasePages start count
  | connectPhysicalVirtualPage n paddr => do
      let (_, s) ← s.connectPhysicalVirtualPage a n paddr
      return s
  | mapProcessPage n paddr => do
      let (_, s) ← s.mapProcessPage a n paddr
      return s
  | releaseProcessPage n => do
      let (_, s) ← s.releaseProcessPage n
      return s
  | setupCOWPages cow paddr n count => return (Space.setupCOWPages a cow paddr count n s).2
  | demandZero n => s.demandZero a n
  | copyOnWrite n newPaddr => return s.copyOnWrite n newPaddr

/-- When a call is made: the virtual pools hand out pages that are free, and a fault is on an entry of its
kind. -/
def Enabled (s : Space) : Call → Prop
  | allocatePages (some start) count => ∀ i, i < count → s.reserved (start + i) = false
  | allocatePagesLazy (some start) count => ∀ i, i < count → s.reserved (start + i) = false
  | demandZero n => hasFlag (s.entry n) PTE_PRESENT = false ∧ hasFlag (s.entry n) PTE_WRITABLE = true ∧
      hasFlag (s.entry n) PTE_LAZY = true
  | copyOnWrite n _ => hasFlag (s.entry n) PTE_PRESENT = true
  | _ => True

end Call

/-- The frames a call is given for page tables are those of no other directory entry, and differ. -/
structure Fresh (a : Answers) (s : Space) : Prop where
  unused : ∀ i frame, a.table i = some frame → ∀ j e, s.pde j = some e → e.frame = frame → j = i
  inj : ∀ i j frame, a.table i = some frame → a.table j = some frame → i = j

/-- The address spaces reached from that of a new process, which has no page table, by calls as `ok`
allows them. -/
inductive Run (ok : Answers → Call → Space → Prop) : Space → Prop
  | create (mem : Nat → Nat → Word) : Run ok ⟨fun _ => none, mem, fun _ => false⟩
  | call {s s' : Space} {a : Answers} {c : Call} (hrun : Run ok s) (hfresh : Fresh a s)
      (henabled : c.Enabled s) (hok : ok a c s) (hres : c.exec a s = .ret s') : Run ok s'

/-! ### The bound -/

/-- An entry that is present or lazy. -/
def Marked (w : Word) : Prop := hasFlag w PTE_PRESENT = true ∨ hasFlag w PTE_LAZY = true

instance : DecidablePred Marked := fun _ => inferInstanceAs (Decidable (_ ∨ _))

theorem not_marked_zero : ¬Marked 0#32 := by decide

/-- No two directory entries share a page table, and a counter below 7 is at least the number of entries
that are present or lazy. -/
structure Bounded (s : Space) : Prop where
  apart : ∀ i j e e', s.pde i = some e → s.pde j = some e' → e.frame = e'.frame → i = j
  le : ∀ i e, s.pde i = some e → e.count ≤ 7
  bound : ∀ i e, s.pde i = some e → e.count = 7 ∨ (slots Marked (s.mem e.frame)).card ≤ e.count

/-- What holds during a call. -/
structure Held (a : Answers) (s : Space) : Prop extends Bounded s, Fresh a s

/-- Of the directory entries in `D`, no two share a page table, and none gets that of another one. -/
structure Distinct (D : Nat → Prop) (a : Answers) (s : Space) : Prop where
  unused : ∀ i frame, D i → a.table i = some frame → ∀ j e, D j → s.pde j = some e → e.frame = frame → j = i
  inj : ∀ i j frame, D i → D j → a.table i = some frame → a.table j = some frame → i = j
  apart : ∀ i j e e', D i → D j → s.pde i = some e → s.pde j = some e' → e.frame = e'.frame → i = j

section Distinct

variable {D : Nat → Prop} {a : Answers} {s s' s₁ : Space} {n : Nat} {e : Pde} {w : Word}
  {type : AddressPoolType}

theorem Held.distinct (h : Held a s) : Distinct (fun _ => True) a s where
  unused i frame _ htable j e _ := h.unused i frame htable j e
  inj i j frame _ _ := h.inj i j frame
  apart i j e e' _ _ := h.apart i j e e'

theorem Distinct.fresh (h : Distinct (fun _ => True) a s) : Fresh a s where
  unused i frame htable j e := h.unused i frame trivial htable j e trivial
  inj i j frame := h.inj i j frame trivial trivial

/-- The counter of one directory entry changes. -/
theorem Distinct.update (h : Distinct D a s) {i c : Nat} (hpde : s.pde i = some e)
    (hpde' : s'.pde = Function.update s.pde i (some { e with count := c })) : Distinct D a s' := by
  have hold : ∀ j e', s'.pde j = some e' → ∃ e₀, s.pde j = some e₀ ∧ e₀.frame = e'.frame := by
    intro j e' hj
    rw [hpde'] at hj
    by_cases hji : j = i
    · subst hji
      rw [Function.update_self] at hj
      obtain rfl := Option.some.inj hj
      exact ⟨e, hpde, rfl⟩
    · rw [Function.update_of_ne hji] at hj
      exact ⟨e', hj, rfl⟩
  refine ⟨fun j frame hD hj k e' hD' hk heq => ?_, h.inj, fun j k e₁ e₂ hD hD' hj hk heq => ?_⟩
  · obtain ⟨e₀, hk₀, hf₀⟩ := hold k e' hk
    exact h.unused j frame hD hj k e₀ hD' hk₀ (hf₀.trans heq)
  · obtain ⟨e₃, hj₃, hf₃⟩ := hold j e₁ hj
    obtain ⟨e₄, hk₄, hf₄⟩ := hold k e₂ hk
    exact h.apart j k e₃ e₄ hD hD' hj₃ hk₄ (by rw [hf₃, heq, hf₄])

/-- A directory entry is the new one, or has another frame. -/
theorem Distinct.linked_pde (h : Distinct D a s) (hn : D (n / 1024)) {frame : Nat}
    (htable : a.table (n / 1024) = some frame) {j : Nat} {e' : Pde} (hD : D j)
    (hj : (s.linkTable type n frame).pde j = some e') :
    (j = n / 1024 ∧ e' = ⟨frame, Space.firstCount type⟩) ∨
      (j ≠ n / 1024 ∧ s.pde j = some e' ∧ e'.frame ≠ frame) := by
  by_cases hji : j = n / 1024
  · subst hji
    rw [Space.linkTable_pde_self] at hj
    exact Or.inl ⟨rfl, (Option.some.inj hj).symm⟩
  · have hj' : s.pde j = some e' := (Function.update_of_ne hji _ _).symm.trans hj
    exact Or.inr ⟨hji, hj', fun heq => hji (h.unused _ frame hn htable j e' hD hj' heq)⟩

theorem Distinct.linkTable (h : Distinct D a s) (hn : D (n / 1024)) {frame : Nat} (type : AddressPoolType)
    (htable : a.table (n / 1024) = some frame) : Distinct D a (s.linkTable type n frame) := by
  refine ⟨fun j frame' hD hj k e' hD' hk heq => ?_, h.inj, fun j k e₁ e₂ hD hD' hj hk heq => ?_⟩
  · rcases h.linked_pde hn htable hD' hk with ⟨rfl, rfl⟩ | ⟨-, hk', -⟩
    · obtain rfl : frame = frame' := heq
      exact h.inj _ _ frame hn hD htable hj
    · exact h.unused j frame' hD hj k e' hD' hk' heq
  · rcases h.linked_pde hn htable hD hj with ⟨rfl, rfl⟩ | ⟨-, hj', hne⟩
    · rcases h.linked_pde hn htable hD' hk with ⟨rfl, -⟩ | ⟨-, -, hne⟩
      · rfl
      · exact absurd heq.symm hne
    · rcases h.linked_pde hn htable hD' hk with ⟨-, rfl⟩ | ⟨-, hk', -⟩
      · exact absurd heq hne
      · exact h.apart j k e₁ e₂ hD hD' hj' hk' heq

end Distinct

section Held

variable {a : Answers} {s s' : Space} {n : Nat} {e : Pde} {w : Word}

/-- The counter and the page table of one directory entry change. -/
theorem Held.update (h : Held a s) {i c : Nat} {t : Nat → Word} (hpde : s.pde i = some e) (hc : c ≤ 7)
    (hbound : c = 7 ∨ (slots Marked t).card ≤ c)
    (hpde' : s'.pde = Function.update s.pde i (some { e with count := c }))
    (hmem' : s'.mem = Function.update s.mem e.frame t) : Held a s' := by
  have hcase : ∀ j e', s'.pde j = some e' → (j = i ∧ e' = { e with count := c }) ∨
      (j ≠ i ∧ s.pde j = some e' ∧ s'.mem e'.frame = s.mem e'.frame) := by
    intro j e' hj
    rw [hpde'] at hj
    by_cases hji : j = i
    · subst hji
      rw [Function.update_self] at hj
      exact Or.inl ⟨rfl, (Option.some.inj hj).symm⟩
    · rw [Function.update_of_ne hji] at hj
      refine Or.inr ⟨hji, hj, ?_⟩
      rw [hmem', Function.update_of_ne fun heq => hji (h.apart j i e' e hj hpde heq)]
  have hdistinct := h.distinct.update hpde hpde'
  refine ⟨⟨fun j k e₁ e₂ => hdistinct.apart j k e₁ e₂ trivial trivial, fun j e' hj => ?_,
    fun j e' hj => ?_⟩, hdistinct.fresh⟩
  · rcases hcase j e' hj with ⟨-, rfl⟩ | ⟨-, hj, -⟩
    · exact hc
    · exact h.le j e' hj
  · rcases hcase j e' hj with ⟨-, rfl⟩ | ⟨-, hj, hsame⟩
    · rw [hmem', Function.update_self]
      exact hbound
    · rw [hsame]
      exact h.bound j e' hj

/-- Writing an entry and counting it. -/
theorem Held.mapPage (h : Held a s) (hpde : s.pde (n / 1024) = some e) (w : Word) :
    Held a (s.mapPage n w) := by
  have hle := h.le _ e hpde
  rw [Space.mapPage_eq hpde]
  refine h.update hpde (by omega) ?_ rfl rfl
  have hcard := card_slots_update_le (P := Marked) (t := s.mem e.frame) (k := n % 1024) (w := w)
  rcases h.bound _ e hpde with hseven | hbound
  · left
    omega
  · omega

/-- Writing an entry that is marked only if the old one is. -/
theorem Held.setPte (h : Held a s) (hw : Marked w → Marked (s.entry n)) : Held a (s.setPte n w) := by
  cases hpde : s.pde (n / 1024) with
  | none => rwa [Space.setPte, hpde]
  | some e =>
      rw [Space.entry_eq hpde] at hw
      rw [Space.setPte_eq hpde]
      refine h.update hpde (h.le _ e hpde) ?_ (Function.update_eq_self_iff.mpr hpde.symm).symm rfl
      exact (h.bound _ e hpde).imp_right fun hbound => (card_slots_update_keep hw).trans hbound

/-- Taking out a marked entry: the counter is not 0, and it becomes 0 only with the last entry. -/
theorem Held.drop (h : Held a s) (hpde : s.pde (n / 1024) = some e) (hmarked : Marked (s.entry n)) :
    ∃ empty s', (s.setPte n 0#32).pdeDec n = .ret (empty, s') ∧ Held a s' ∧
      (empty = true → slots Marked (s'.mem e.frame) = ∅) ∧ (∃ e', s'.pde (n / 1024) = some e') := by
  have hlt : n % 1024 < 1024 := Nat.mod_lt n (by decide)
  rw [Space.entry_eq hpde] at hmarked
  have hcard := card_slots_update_drop hlt hmarked not_marked_zero
  have hle := h.le _ e hpde
  have hpos : 0 < e.count := by
    rcases h.bound _ e hpde with hseven | hbound
    · omega
    · omega
  have hpde' : (s.setPte n 0#32).pde (n / 1024) = some e := by rw [Space.setPte_pde, hpde]
  rw [Space.pdeDec_eq hpde' hpos]
  by_cases hseven : e.count = 7
  · rw [if_pos hseven]
    refine ⟨false, _, rfl, h.setPte fun hzero => absurd hzero not_marked_zero,
      fun hfalse => absurd hfalse Bool.false_ne_true, e, hpde'⟩
  · rw [if_neg hseven]
    have hbound := (h.bound _ e hpde).resolve_left hseven
    refine ⟨_, _, rfl, h.update hpde (c := e.count - 1)
      (t := Function.update (s.mem e.frame) (n % 1024) 0#32) (by omega) (Or.inr ?_) ?_ ?_, fun hempty => ?_,
      ⟨_, Function.update_self _ _ _⟩⟩
    · omega
    · rw [Space.setPte_pde]
    · rw [Space.setPte_eq hpde]
    · rw [decide_eq_true_eq] at hempty
      rw [Space.setPte_eq hpde, ← Finset.card_eq_zero]
      dsimp only
      rw [Function.update_self]
      omega

/-- Linking a frame that no other directory entry has. -/
theorem Held.linkTable (h : Held a s) {frame : Nat} (type : AddressPoolType)
    (htable : a.table (n / 1024) = some frame) : Held a (s.linkTable type n frame) := by
  have hdistinct := h.distinct.linkTable trivial type htable
  refine ⟨⟨fun j k e₁ e₂ => hdistinct.apart j k e₁ e₂ trivial trivial, fun j e' hj => ?_,
    fun j e' hj => ?_⟩, hdistinct.fresh⟩
  · rcases h.distinct.linked_pde trivial htable trivial hj with ⟨-, rfl⟩ | ⟨-, hj', -⟩
    · cases type with
      | KERNEL => exact le_refl 7
      | USER => exact Nat.zero_le 7
    · exact h.le j e' hj'
  · rcases h.distinct.linked_pde trivial htable trivial hj with ⟨-, rfl⟩ | ⟨-, hj', hne⟩
    · right
      have hmem : (s.linkTable type n frame).mem frame = fun _ => 0#32 := Function.update_self _ _ _
      rw [hmem, slots_zero not_marked_zero]
      exact Nat.zero_le _
    · have hmem : (s.linkTable type n frame).mem e'.frame = s.mem e'.frame :=
        Function.update_of_ne hne _ _
      rw [hmem]
      exact h.bound j e' hj'

theorem Held.linked (h : Held a s) {type : AddressPoolType} {s₁ : Space}
    (hlinked : Space.Linked a type s n s₁) : Held a s₁ := by
  cases hlinked with
  | present hpde => exact h
  | table hnone htable => exact h.linkTable type htable

/-- A page is mapped in a page table that is there or is linked for it. -/
theorem Held.mapLinked (h : Held a s) {type : AddressPoolType} {s₁ : Space}
    (hlinked : Space.Linked a type s n s₁) (w : Word) : Held a (s₁.mapPage n w) := by
  obtain ⟨e, hpde⟩ := hlinked.exists_pde
  exact (h.linked hlinked).mapPage hpde w

theorem Held.releasePageTable (h : Held a s) (n : Nat) : Held a (s.releasePageTable n) := by
  have hold : ∀ j e', (s.releasePageTable n).pde j = some e' → s.pde j = some e' := by
    intro j e' hj
    by_cases hji : j = n / 1024
    · subst hji
      have hnone : (s.releasePageTable n).pde (n / 1024) = none := Function.update_self _ _ _
      rw [hnone] at hj
      cases hj
    · exact (Function.update_of_ne hji _ _).symm.trans hj
  exact ⟨⟨fun j k e₁ e₂ hj hk => h.apart j k e₁ e₂ (hold j e₁ hj) (hold k e₂ hk),
    fun j e' hj => h.le j e' (hold j e' hj), fun j e' hj => h.bound j e' (hold j e' hj)⟩,
    fun j frame hj k e' hk => h.unused j frame hj k e' (hold k e' hk), h.inj⟩

/-- The entries of some pages change, and none becomes marked. -/
theorem Held.mono (h : Held a s) (hpde : s'.pde = s.pde)
    (hmem : ∀ f k, Marked (s'.mem f k) → Marked (s.mem f k)) : Held a s' := by
  refine ⟨⟨?_, ?_, fun i e hi => ?_⟩, ?_, h.inj⟩
  · rw [hpde]
    exact h.apart
  · rw [hpde]
    exact h.le
  · rw [hpde] at hi
    exact (h.bound i e hi).imp_right fun hbound => (card_slots_mono (hmem e.frame)).trans hbound
  · rw [hpde]
    exact h.unused

/-! ### Every call keeps the bound -/

theorem marked_present (w : Word) : Marked (w ||| PTE_PRESENT) := by
  left
  rw [hasFlag_or, Bool.or_eq_true]
  exact Or.inr (by decide)

theorem marked_cowEntry (w : Word) : Marked (Kernel.cowEntry w) ↔ Marked w := by
  have hlazy : hasFlag (Kernel.cowEntry w) PTE_LAZY = hasFlag w PTE_LAZY := by
    rw [Kernel.cowEntry, hasFlag_clear (by decide), hasFlag_or]
    simp [(by decide : hasFlag PTE_COW PTE_LAZY = false)]
  have hpresent : hasFlag (Kernel.cowEntry w) PTE_PRESENT = hasFlag w PTE_PRESENT := present_cowEntry w
  rw [Marked, Marked, hlazy, hpresent]

theorem Held.needTable (h : Held a s) (n : Nat) :
    Held a (s.needTable a n).2 ∧
      ((s.needTable a n).1 = true → ∃ e, (s.needTable a n).2.pde (n / 1024) = some e) := by
  rcases s.needTable_linked a n with ⟨-, hlinked⟩ | hfail
  · exact ⟨h.linked hlinked, fun _ => hlinked.exists_pde⟩
  · rw [hfail]
    exact ⟨h, fun hfalse => absurd hfalse Bool.false_ne_true⟩

theorem Held.connect (h : Held a s) {paddr : Nat} {r : Bool × Space}
    (hres : s.connectPhysicalVirtualPage a n paddr = .ret r) : Held a r.2 := by
  rcases Space.connect_cases hres with ⟨-, hsame⟩ | ⟨-, s₁, hlinked, hmapped⟩
  · rw [hsame]
    exact h
  · rw [hmapped]
    exact h.mapLinked hlinked _

theorem Held.allocatePage (h : Held a s) {r : Bool × Space} (hres : s.allocatePage a n = .ret r) :
    Held a r.2 := by
  rw [Space.allocatePage] at hres
  cases hpage : a.page n with
  | none =>
      rw [hpage] at hres
      obtain rfl := Outcome.ret.inj hres
      exact h
  | some paddr =>
      rw [hpage] at hres
      exact h.connect hres

/-- `releasePages` fails no `ASSERT` over a counter. -/
theorem Held.releasePage (h : Held a s) (n : Nat) : ∃ s', s.releasePage n = .ret s' ∧ Held a s' := by
  rw [Space.releasePage]
  cases hpde : s.pde (n / 1024) with
  | none => exact ⟨s, rfl, h⟩
  | some e =>
      dsimp only
      by_cases hpresent : hasFlag (s.entry n) PTE_PRESENT = true
      · obtain ⟨empty, s₁, hdec, h₁, -, -⟩ := h.drop hpde (Or.inl hpresent)
        rw [if_neg (by simp [hpresent]), hdec]
        refine ⟨_, rfl, ?_⟩
        cases empty with
        | false => exact h₁
        | true => exact h₁.releasePageTable n
      · rw [if_pos (by simpa using hpresent)]
        exact ⟨_, rfl, h.setPte fun hzero => absurd hzero not_marked_zero⟩

theorem Held.reserve (h : Held a s) (start count : Nat) (inUse : Bool) :
    Held a (s.reserve start count inUse) :=
  ⟨⟨h.apart, h.le, h.bound⟩, h.unused, h.inj⟩

theorem Held.releasePages (h : Held a s) (start count : Nat) :
    ∃ s', s.releasePages start count = .ret s' ∧ Held a s' := by
  have hloop : ∀ count n s, Held a s → ∃ s', Space.releaseLoop count n s = .ret s' ∧ Held a s' := by
    intro count
    induction count with
    | zero => exact fun n s h => ⟨s, rfl, h⟩
    | succ count ih =>
        intro n s h
        obtain ⟨s₁, hpage, h₁⟩ := h.releasePage n
        rw [Space.releaseLoop, hpage]
        exact ih (n + 1) s₁ h₁
  obtain ⟨s₁, hrun, h₁⟩ := hloop count start s h
  rw [Space.releasePages, hrun]
  exact ⟨_, rfl, h₁.reserve start count false⟩

theorem Held.allocatePagesLoop {start count left : Nat} (h : Held a s) {r : Option Nat × Space}
    (hres : Space.allocatePagesLoop a start count left s = .ret r) : Held a r.2 := by
  induction left generalizing s with
  | zero =>
      obtain rfl := Outcome.ret.inj hres
      exact h
  | succ left ih =>
      rw [Space.allocatePagesLoop] at hres
      obtain ⟨⟨flag, s₁⟩, hpage, hres⟩ := Outcome.bind_eq_ret hres
      have h₁ : Held a s₁ := h.allocatePage hpage
      cases flag with
      | true => exact ih h₁ hres
      | false =>
          obtain ⟨s₂, hrelease, h₂⟩ := h₁.releasePages start (count - (left + 1))
          obtain ⟨s₃, hrelease', hres⟩ := Outcome.bind_eq_ret hres
          obtain rfl := Outcome.ret.inj (hrelease.symm.trans hrelease')
          obtain rfl := Outcome.ret.inj hres
          exact h₂.reserve _ _ false

/-- Every page table `allocatePagesLazy` needs is there, or there is a frame for it. -/
def TablesFound (a : Answers) (s : Space) (start count : Nat) : Prop :=
  ∀ i, i < count → s.pde ((start + i) / 1024) = none → (a.table ((start + i) / 1024)).isSome = true

theorem TablesFound.linked {start count : Nat} (h : TablesFound a s start count) {type : AddressPoolType}
    {s₁ : Space} (hlinked : Space.Linked a type s n s₁) (w : Word) :
    TablesFound a (s₁.mapPage n w) start count :=
  fun i hi hnone => h i hi (hlinked.pde_none hnone)

theorem Held.allocatePagesLazyLoop {start count left : Nat} (hleft : left ≤ count) (h : Held a s)
    (hfound : TablesFound a s start count) :
    ∃ s', Space.allocatePagesLazyLoop a .USER start count left s = .ret s' ∧ Held a s' := by
  induction left generalizing s with
  | zero => exact ⟨s, rfl, h⟩
  | succ left ih =>
      obtain ⟨s₁, htable, hlinked⟩ :=
        Space.lazyTable_linked .USER (hfound (count - (left + 1)) (by omega))
      rw [Space.allocatePagesLazyLoop, htable]
      exact ih (Nat.le_of_succ_le hleft) (h.mapLinked hlinked _) (hfound.linked hlinked _)

theorem Held.mapProcessPage (h : Held a s) {paddr : Nat} {r : Bool × Space}
    (hres : s.mapProcessPage a n paddr = .ret r) : Held a r.2 := by
  obtain ⟨hneed, htable⟩ := h.needTable n
  rw [Space.mapProcessPage] at hres
  rcases hcall : s.needTable a n with ⟨ok, s₁⟩
  rw [hcall] at hres hneed htable
  cases ok with
  | false =>
      obtain rfl := Outcome.ret.inj hres
      exact hneed
  | true =>
      obtain ⟨e, hpde⟩ := htable rfl
      dsimp only at hres hneed hpde
      by_cases hpresent : hasFlag (s₁.entry n) PTE_PRESENT = true
      · rw [if_pos hpresent] at hres
        obtain rfl := Outcome.ret.inj hres
        exact hneed
      · rw [if_neg hpresent] at hres
        have hmapped := hneed.mapPage hpde (Space.presentEntry a n paddr)
        by_cases hattach : a.attach n = true
        · rw [if_pos hattach] at hres
          obtain rfl := Outcome.ret.inj hres
          exact hmapped
        · rw [if_neg hattach] at hres
          have hpde' : ∃ e', (s₁.mapPage n (Space.presentEntry a n paddr)).pde (n / 1024) = some e' := by
            rw [Space.mapPage_eq hpde]
            exact ⟨_, Function.update_self _ _ _⟩
          obtain ⟨e', hpde'⟩ := hpde'
          have hmarked : Marked ((s₁.mapPage n (Space.presentEntry a n paddr)).entry n) := by
            rw [Space.mapPage_entry hpde]
            exact marked_present _
          obtain ⟨empty, s₂, hdec, h₂, -, -⟩ := hmapped.drop hpde' hmarked
          obtain ⟨⟨empty', s₃⟩, hdec', hres⟩ := Outcome.bind_eq_ret hres
          obtain ⟨-, rfl⟩ := Prod.mk.inj (Outcome.ret.inj (hdec.symm.trans hdec'))
          obtain rfl := Outcome.ret.inj hres
          exact h₂

theorem Held.releaseProcessPage (h : Held a s) {r : Bool × Space}
    (hres : s.releaseProcessPage n = .ret r) : Held a r.2 := by
  rw [Space.releaseProcessPage] at hres
  cases hpde : s.pde (n / 1024) with
  | none =>
      rw [hpde] at hres
      obtain rfl := Outcome.ret.inj hres
      exact h
  | some e =>
      rw [hpde] at hres
      dsimp only at hres
      by_cases hpresent : hasFlag (s.entry n) PTE_PRESENT = true
      · obtain ⟨empty, s₁, hdec, h₁, -, -⟩ := h.drop hpde (Or.inl hpresent)
        rw [if_pos hpresent, hdec] at hres
        obtain rfl := Outcome.ret.inj hres
        exact h₁
      · rw [if_neg hpresent] at hres
        obtain rfl := Outcome.ret.inj hres
        exact h

theorem Held.setCOW (h : Held a s) (slots : Nat → Nat → Bool) : Held a (s.setCOW slots) := by
  refine h.mono rfl fun f k hmarked => ?_
  change Marked (if slots f k then Kernel.cowEntry (s.mem f k) else s.mem f k) at hmarked
  split at hmarked
  · exact (marked_cowEntry _).mp hmarked
  · exact hmarked

theorem Held.setupCOWPages (h : Held a s) {cow : Nat → Option (Nat → Nat → Bool)} {paddr left : Nat} :
    Held a (Space.setupCOWPages a cow paddr left n s).2 := by
  induction left generalizing s paddr n with
  | zero => exact h
  | succ left ih =>
      obtain ⟨hneed, htable⟩ := h.needTable n
      rw [Space.setupCOWPages]
      rcases hcall : s.needTable a n with ⟨ok, s₁⟩
      rw [hcall] at hneed htable
      cases ok with
      | false => exact hneed
      | true =>
          obtain ⟨e, hpde⟩ := htable rfl
          cases hcow : cow n with
          | none => exact hneed
          | some slots => exact ih ((hneed.setCOW slots).mapPage hpde _)

theorem Held.copyOnWrite (h : Held a s) (hpresent : hasFlag (s.entry n) PTE_PRESENT = true)
    (newPaddr : Option Nat) : Held a (s.copyOnWrite n newPaddr) := by
  have hkeep : ∀ w, Held a (s.setPte n w) := fun w => h.setPte fun _ => Or.inl hpresent
  cases newPaddr with
  | none => exact hkeep _
  | some paddr => exact hkeep _

end Held

/-! ### Runs -/

/-- No call of `allocatePagesLazy` lacks a frame for a page table. -/
def LazyTablesFound (a : Answers) (c : Call) (s : Space) : Prop :=
  match c with
  | .allocatePagesLazy (some start) count => TablesFound a s start count
  | _ => True

/-- A call that finds its page tables keeps the bound. -/
theorem Held.exec {a : Answers} {s s' : Space} {c : Call} (h : Held a s) (henabled : c.Enabled s)
    (hok : LazyTablesFound a c s) (hres : c.exec a s = .ret s') : Held a s' := by
  cases c with
  | allocatePages start count =>
      obtain ⟨r, hcall, hres⟩ := Outcome.bind_eq_ret hres
      obtain rfl := Outcome.ret.inj hres
      cases start with
      | none =>
          obtain rfl := Outcome.ret.inj hcall
          exact h
      | some start => exact (h.reserve start count true).allocatePagesLoop hcall
  | allocatePagesLazy start count =>
      obtain ⟨r, hcall, hres⟩ := Outcome.bind_eq_ret hres
      obtain rfl := Outcome.ret.inj hres
      cases start with
      | none =>
          obtain rfl := Outcome.ret.inj hcall
          exact h
      | some start =>
          obtain ⟨s₁, hloop, h₁⟩ := (h.reserve start count true).allocatePagesLazyLoop (le_refl count) hok
          rw [Space.allocatePagesLazy, hloop] at hcall
          obtain rfl := Outcome.ret.inj hcall
          exact h₁
  | releasePages start count =>
      obtain ⟨s₁, hcall, h₁⟩ := h.releasePages start count
      obtain rfl := Outcome.ret.inj (hcall.symm.trans hres)
      exact h₁
  | connectPhysicalVirtualPage n paddr =>
      obtain ⟨r, hcall, hres⟩ := Outcome.bind_eq_ret hres
      obtain rfl := Outcome.ret.inj hres
      exact h.connect hcall
  | mapProcessPage n paddr =>
      obtain ⟨r, hcall, hres⟩ := Outcome.bind_eq_ret hres
      obtain rfl := Outcome.ret.inj hres
      exact h.mapProcessPage hcall
  | releaseProcessPage n =>
      obtain ⟨r, hcall, hres⟩ := Outcome.bind_eq_ret hres
      obtain rfl := Outcome.ret.inj hres
      exact h.releaseProcessPage hcall
  | setupCOWPages cow paddr n count =>
      obtain rfl := Outcome.ret.inj hres
      exact h.setupCOWPages
  | demandZero n =>
      change s.demandZero a n = _ at hres
      rw [Space.demandZero] at hres
      cases hpage : a.page n with
      | none =>
          rw [hpage] at hres
          obtain rfl := Outcome.ret.inj hres
          exact h
      | some paddr =>
          rw [hpage] at hres
          obtain ⟨r, hcall, hres⟩ := Outcome.bind_eq_ret hres
          obtain rfl := Outcome.ret.inj hres
          exact h.connect hcall
  | copyOnWrite n newPaddr =>
      obtain rfl := Outcome.ret.inj hres
      exact h.copyOnWrite henabled newPaddr

theorem Run.bounded {s : Space} (h : Run LazyTablesFound s) : Bounded s := by
  induction h with
  | create mem =>
      refine ⟨fun i j e e' hi => ?_, fun i e hi => ?_, fun i e hi => ?_⟩
      · cases hi
      · cases hi
      · cases hi
  | call hrun hfresh henabled hok hres ih =>
      exact (Held.exec ⟨ih, hfresh⟩ henabled hok hres).toBounded

/-- No page table is released too early: a counter is 7 or at least the number of entries that are present
or lazy, `PDEdec` finds no counter at 0, and a page table that is released has no such entry. -/
structure NoEarlyRelease (s : Space) : Prop where
  bound : ∀ i e, s.pde i = some e → e.count = 7 ∨ (slots Marked (s.mem e.frame)).card ≤ e.count
  asserts : ∀ n, hasFlag (s.entry n) PTE_PRESENT = true → ∃ r, (s.setPte n 0#32).pdeDec n = .ret r
  releases : ∀ start count, ∃ s', s.releasePages start count = .ret s'
  released : ∀ n s' e, s.pde (n / 1024) = some e → s.releasePage n = .ret s' → s'.pde (n / 1024) = none →
    slots Marked (s'.mem e.frame) = ∅

theorem Held.noEarlyRelease {a : Answers} {s : Space} (h : Held a s) : NoEarlyRelease s where
  bound := h.bound
  asserts n hpresent := by
    cases hpde : s.pde (n / 1024) with
    | none =>
        rw [Space.entry, hpde] at hpresent
        exact absurd hpresent (Bool.eq_false_iff.mp present_zero)
    | some e =>
        obtain ⟨empty, s', hdec, -⟩ := h.drop hpde (Or.inl hpresent)
        exact ⟨_, hdec⟩
  releases start count := by
    obtain ⟨s', hres, -⟩ := h.releasePages start count
    exact ⟨s', hres⟩
  released n s' e hpde hres hnone := by
    rw [Space.releasePage, hpde] at hres
    dsimp only at hres
    by_cases hpresent : hasFlag (s.entry n) PTE_PRESENT = true
    · obtain ⟨empty, s₁, hdec, -, hempty, e₁, hpde₁⟩ := h.drop hpde (Or.inl hpresent)
      rw [if_neg (by simp [hpresent]), hdec] at hres
      obtain rfl := Outcome.ret.inj hres
      cases empty with
      | false =>
          change s₁.pde (n / 1024) = none at hnone
          rw [hpde₁] at hnone
          cases hnone
      | true => exact hempty rfl
    · rw [if_pos (by simpa using hpresent)] at hres
      obtain rfl := Outcome.ret.inj hres
      rw [Space.setPte_pde, hpde] at hnone
      cases hnone

/-- In every run in which `allocatePagesLazy` finds the page tables it needs, no page table is released too
early. -/
theorem run_noEarlyRelease {s : Space} (hrun : Run LazyTablesFound s) : NoEarlyRelease s :=
  Held.noEarlyRelease (a := ⟨fun _ => none, fun _ => none, fun _ => 0#32, fun _ => false⟩)
    ⟨hrun.bounded, ⟨fun _ _ hi => (Option.some_ne_none _ hi.symm).elim,
      fun _ _ _ hi => (Option.some_ne_none _ hi.symm).elim⟩⟩

section Instance

def createdSpace : Space := ⟨fun _ => none, fun _ _ => 0#32, fun _ => false⟩

/-- There is a frame for one page table, and none for another one. -/
def oneTable : Answers := ⟨fun i => if i = 33 then some 0x300 else none, fun _ => none, fun _ => 0#32,
  fun _ => true⟩

def noTable : Answers := ⟨fun _ => none, fun _ => none, fun _ => 0#32, fun _ => true⟩

theorem fresh_created {a : Answers} (hinj : ∀ i j frame, a.table i = some frame → a.table j = some frame → i = j) :
    Fresh a createdSpace :=
  ⟨fun _ _ _ _ _ hj => (Option.some_ne_none _ hj.symm).elim, hinj⟩

/-- Two pages of one page table are reserved. -/
theorem run_noEarlyRelease_lazy :
    NoEarlyRelease ((Call.exec oneTable createdSpace (.allocatePagesLazy (some 34000) 2)).getD createdSpace) := by
  refine run_noEarlyRelease (Run.call (a := oneTable) (c := .allocatePagesLazy (some 34000) 2)
    (Run.create fun _ _ => 0#32) (fresh_created fun i j frame hi hj => ?_) (fun _ _ => rfl)
    (fun i hi _ => ?_) rfl)
  · rw [oneTable] at hi hj
    dsimp only at hi hj
    split at hi <;> split at hj <;> simp_all
  · have hidx : (34000 + i) / 1024 = 33 := by omega
    rw [hidx]
    rfl

/-- Without a frame for its two page tables a range of four pages is reserved with one page table at 0,
whose first counter is too small. -/
theorem not_run_noEarlyRelease :
    ¬∀ s, Run (fun _ _ _ => True) s → NoEarlyRelease s := by
  intro h
  have hsafe := h _ (Run.call (a := noTable) (c := .allocatePagesLazy (some 34815) 4)
    (Run.create fun _ _ => 0#32) (fresh_created fun _ _ _ hi => (Option.some_ne_none _ hi.symm).elim)
    (fun _ _ => rfl) trivial rfl)
  rcases hsafe.bound 33 ⟨0, 1⟩ rfl with hseven | hbound
  · exact absurd hseven (by decide)
  · refine absurd (Finset.card_le_one.mp hbound 0 (mem_slots.mpr ⟨by decide, ?_⟩) 1
      (mem_slots.mpr ⟨by decide, ?_⟩)) (by decide)
    · decide
    · decide

end Instance

end SysuOs.PageTables
