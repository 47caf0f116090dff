import SysuOs.PagingCounters

/-! The counter of a directory entry as the number of entries of its page table that are not 0, for a page
table of which at most six pages are reserved at a time. Reserving counts a page and releasing a present
page takes it off again; a demand-zero fault counts its page a second time, and releasing a lazy page does
not take it off. -/

namespace SysuOs.PageTables

open Flags

/-- The counter is the number of entries that are not 0, and a page table without such an entry is not
kept. -/
structure Counted (t : Nat) (s : Space) : Prop where
  count : ∀ e, s.pde t = some e → e.count = (slots (· ≠ 0#32) (s.mem e.frame)).card
  nonempty : ∀ e, s.pde t = some e → (slots (· ≠ 0#32) (s.mem e.frame)).Nonempty

/-- At most six pages of a page table are reserved. -/
def FewReserved (t : Nat) (s : Space) : Prop :=
  ((Finset.range 1024).filter fun k => s.reserved (t * 1024 + k) = true).card ≤ 6

/-- The four kinds of calls, which reserve at most six pages of the page table. -/
def SixReserved (t : Nat) (_ : Answers) (c : Call) (s : Space) : Prop :=
  match c with
  | .allocatePages (some start) count => FewReserved t (s.reserve start count true)
  | .allocatePagesLazy (some start) count => FewReserved t (s.reserve start count true)
  | .allocatePages none _ => True
  | .allocatePagesLazy none _ => True
  | .releasePages _ _ => True
  | .demandZero _ => True
  | _ => False

/-- The calls that count a page of the page table once: no fault is given a page, no lazy page is released,
and `allocatePagesLazy` has its page tables. -/
def CountedOnce (t : Nat) (a : Answers) (c : Call) (s : Space) : Prop :=
  match c with
  | .allocatePagesLazy (some start) count => TablesFound a s start count
  | .releasePages start count => ∀ n, start ≤ n → n < start + count → n / 1024 = t → s.entry n ≠ 0#32 →
      hasFlag (s.entry n) PTE_PRESENT = true
  | .demandZero n => n / 1024 = t → a.page n = none
  | _ => True

/-! ### One page table -/

/-- Nothing of page table `t` differs. -/
structure SameTable (t : Nat) (s s' : Space) : Prop where
  pde : s'.pde t = s.pde t
  mem : ∀ e, s.pde t = some e → s'.mem e.frame = s.mem e.frame
  reserved : s'.reserved = s.reserved

/-- What holds between the pages of a call: a page that has an entry is reserved. -/
structure Counting (t : Nat) (a : Answers) (s : Space) : Prop extends Held a s, Counted t s where
  reserved : ∀ n, n / 1024 = t → s.entry n ≠ 0#32 → s.reserved n = true
  few : FewReserved t s

section Table

variable {t n : Nat} {a : Answers} {s s' s₁ : Space} {e : Pde} {w : Word}

theorem SameTable.refl (t : Nat) (s : Space) : SameTable t s s := ⟨rfl, fun _ _ => rfl, rfl⟩

theorem SameTable.trans (h : SameTable t s s₁) (h' : SameTable t s₁ s') : SameTable t s s' where
  pde := h'.pde.trans h.pde
  mem e hpde := (h'.mem e (h.pde.trans hpde)).trans (h.mem e hpde)
  reserved := h'.reserved.trans h.reserved

theorem SameTable.entry (h : SameTable t s s') {m : Nat} (hm : m / 1024 = t) : s'.entry m = s.entry m := by
  subst hm
  rw [Space.entry, Space.entry, h.pde]
  cases hpde : s.pde (m / 1024) with
  | none => rfl
  | some e =>
      dsimp only
      rw [h.mem e hpde]

theorem Counted.congr (h : Counted t s) (hsame : SameTable t s s') : Counted t s' := by
  refine ⟨fun e hpde => ?_, fun e hpde => ?_⟩
  · rw [hsame.pde] at hpde
    rw [hsame.mem e hpde]
    exact h.count e hpde
  · rw [hsame.pde] at hpde
    rw [hsame.mem e hpde]
    exact h.nonempty e hpde

/-- The directory entry of another page table, and its frame, may change. -/
theorem Held.sameTable (h : Held a s) (hn : n / 1024 ≠ t) (hpde : s.pde (n / 1024) = some e)
    (hpde' : ∀ i, i ≠ n / 1024 → s'.pde i = s.pde i) (hmem' : ∀ f, f ≠ e.frame → s'.mem f = s.mem f)
    (hreserved : s'.reserved = s.reserved) : SameTable t s s' where
  pde := hpde' t hn.symm
  mem e' ht := hmem' e'.frame fun heq => hn (h.apart _ _ e e' hpde ht heq.symm)
  reserved := hreserved

theorem Held.sameTable_mapPage (h : Held a s) (hn : n / 1024 ≠ t) (hpde : s.pde (n / 1024) = some e)
    (w : Word) : SameTable t s (s.mapPage n w) := by
  rw [Space.mapPage_eq hpde]
  apply h.sameTable hn hpde
  · exact fun i hi => Function.update_of_ne hi _ _
  · exact fun f hf => Function.update_of_ne hf _ _
  · rfl

theorem Held.sameTable_setPte (h : Held a s) (hn : n / 1024 ≠ t) (w : Word) :
    SameTable t s (s.setPte n w) := by
  cases hpde : s.pde (n / 1024) with
  | none =>
      rw [Space.setPte, hpde]
      exact SameTable.refl t s
  | some e =>
      rw [Space.setPte_eq hpde]
      apply h.sameTable hn hpde
      · exact fun i _ => rfl
      · exact fun f hf => Function.update_of_ne hf _ _
      · rfl

theorem Held.sameTable_linkTable (h : Held a s) (hn : n / 1024 ≠ t) {frame : Nat}
    (htable : a.table (n / 1024) = some frame) : SameTable t s (s.linkTable .USER n frame) where
  pde := Function.update_of_ne hn.symm _ _
  mem e ht := Function.update_of_ne (fun heq => hn (h.unused _ frame htable t e ht heq).symm) _ _
  reserved := rfl

theorem sameTable_releasePageTable (hn : n / 1024 ≠ t) : SameTable t s (s.releasePageTable n) where
  pde := Function.update_of_ne hn.symm _ _
  mem _ _ := rfl
  reserved := rfl

theorem sameTable_pdeDec (hn : n / 1024 ≠ t) {r : Bool × Space} (hres : s.pdeDec n = .ret r) :
    SameTable t s r.2 := by
  cases hpde : s.pde (n / 1024) with
  | none =>
      rw [Space.pdeDec, hpde] at hres
      cases hres
  | some e =>
      rw [Space.pdeDec, hpde] at hres
      obtain ⟨-, -, hres⟩ := Outcome.bind_eq_ret hres
      split at hres
      · obtain rfl := Outcome.ret.inj hres
        exact SameTable.refl t s
      · obtain rfl := Outcome.ret.inj hres
        exact ⟨Function.update_of_ne hn.symm _ _, fun _ _ => rfl, rfl⟩

theorem Held.sameTable_releasePage (h : Held a s) (hn : n / 1024 ≠ t) (hres : s.releasePage n = .ret s') :
    SameTable t s s' := by
  rw [Space.releasePage] at hres
  cases hpde : s.pde (n / 1024) with
  | none =>
      rw [hpde] at hres
      obtain rfl := Outcome.ret.inj hres
      exact SameTable.refl t s
  | some e =>
      rw [hpde] at hres
      dsimp only at hres
      by_cases hpresent : hasFlag (s.entry n) PTE_PRESENT = true
      · rw [if_neg (by simp [hpresent])] at hres
        obtain ⟨⟨empty, s₁⟩, hdec, hres⟩ := Outcome.bind_eq_ret hres
        obtain rfl := Outcome.ret.inj hres
        have h₁ := (h.sameTable_setPte hn 0#32).trans (sameTable_pdeDec hn hdec)
        cases empty with
        | false => exact h₁
        | true => exact h₁.trans (sameTable_releasePageTable hn)
      · rw [if_pos (by simpa using hpresent)] at hres
        obtain rfl := Outcome.ret.inj hres
        exact h.sameTable_setPte hn 0#32

/-! ### Entries and reserved pages -/

/-- An entry that is not 0 is of a reserved page. -/
theorem Counting.slots_subset (h : Counting t a s) (hpde : s.pde t = some e) :
    slots (· ≠ 0#32) (s.mem e.frame) ⊆
      (Finset.range 1024).filter fun k => s.reserved (t * 1024 + k) = true := by
  intro k hk
  obtain ⟨hlt, hne⟩ := mem_slots.mp hk
  have hdiv : (t * 1024 + k) / 1024 = t := by omega
  have hmod : (t * 1024 + k) % 1024 = k := by omega
  refine Finset.mem_filter.mpr ⟨Finset.mem_range.mpr hlt, h.reserved _ hdiv ?_⟩
  rw [Space.entry_eq (e := e) (by rw [hdiv, hpde]), hmod]
  exact hne

theorem Counting.card_le (h : Counting t a s) (hpde : s.pde t = some e) :
    (slots (· ≠ 0#32) (s.mem e.frame)).card ≤ 6 :=
  (Finset.card_le_card (h.slots_subset hpde)).trans h.few

/-- A reserved page without an entry is one of the six. -/
theorem Counting.card_lt (h : Counting t a s) (hn : n / 1024 = t) (hpde : s.pde t = some e)
    (hreserved : s.reserved n = true) (hzero : s.entry n = 0#32) :
    (slots (· ≠ 0#32) (s.mem e.frame)).card < 6 := by
  subst hn
  rw [Space.entry_eq hpde] at hzero
  refine lt_of_lt_of_le (Finset.card_lt_card ?_) h.few
  refine (Finset.ssubset_iff_of_subset (h.slots_subset hpde)).mpr ⟨n % 1024, ?_, fun hin => ?_⟩
  · have hsum : n / 1024 * 1024 + n % 1024 = n := by omega
    refine Finset.mem_filter.mpr ⟨Finset.mem_range.mpr (Nat.mod_lt n (by decide)), ?_⟩
    rw [hsum]
    exact hreserved
  · exact (mem_slots.mp hin).2 hzero

/-- The entry of a page of the same page table after an entry is written. -/
theorem entry_update {m : Nat} (hm : m / 1024 = n / 1024) (hpde : s.pde (n / 1024) = some e)
    (hpde' : ∃ c, s'.pde (n / 1024) = some { e with count := c })
    (hmem' : s'.mem e.frame = Function.update (s.mem e.frame) (n % 1024) w) :
    s'.entry m = if m = n then w else s.entry m := by
  obtain ⟨c, hpde'⟩ := hpde'
  rw [← hm] at hpde hpde'
  rw [Space.entry_eq hpde', Space.entry_eq hpde]
  dsimp only
  rw [hmem']
  by_cases hmn : m = n
  · rw [hmn, if_pos rfl, Function.update_self]
  · rw [if_neg hmn, Function.update_of_ne (by omega)]

/-- What a call needs of the state after a page is mapped or released. -/
theorem Counting.congr (h : Counting t a s) (hheld : Held a s') (hsame : SameTable t s s') :
    Counting t a s' where
  toHeld := hheld
  toCounted := h.toCounted.congr hsame
  reserved m hm hne := by
    rw [hsame.entry hm] at hne
    rw [hsame.reserved]
    exact h.reserved m hm hne
  few := by
    rw [FewReserved, hsame.reserved]
    exact h.few

/-- A page table that has just been linked counts as one without an entry. -/
theorem Counting.linked (h : Counting (n / 1024) a s) (hlinked : Space.Linked a .USER s n s₁)
    (hreserved : s.reserved n = true) (hzero : s.entry n = 0#32) :
    ∃ e, s₁.pde (n / 1024) = some e ∧ e.count = (slots (· ≠ 0#32) (s₁.mem e.frame)).card ∧ e.count < 6 ∧
      (∀ m, m / 1024 = n / 1024 → s₁.entry m = s.entry m) ∧ s₁.reserved = s.reserved ∧ Held a s₁ := by
  cases hlinked with
  | present hpde =>
      rename_i e
      have hcount := h.count e hpde
      refine ⟨e, hpde, hcount, ?_, fun _ _ => rfl, rfl, h.toHeld⟩
      rw [hcount]
      exact h.card_lt rfl hpde hreserved hzero
  | table hnone htable =>
      rename_i frame
      have hmem : (s.linkTable .USER n frame).mem frame = fun _ => 0#32 := Function.update_self _ _ _
      refine ⟨_, s.linkTable_pde_self .USER n frame, ?_, Nat.zero_lt_succ 5, fun m hm => ?_, rfl,
        h.toHeld.linkTable .USER htable⟩
      · dsimp only
        rw [hmem, slots_zero (fun hne => hne rfl)]
        rfl
      · rw [← hm] at hnone
        have hpde : (s.linkTable .USER n frame).pde (m / 1024) = some ⟨frame, Space.firstCount .USER⟩ := by
          rw [hm]
          exact s.linkTable_pde_self .USER n frame
        rw [Space.entry_eq hpde, Space.entry, hnone]
        dsimp only
        rw [hmem]

/-- A reserved page without an entry gets one, and is counted. -/
theorem Counting.mapPage (h : Counting t a s) (hlinked : Space.Linked a .USER s n s₁) (hw : w ≠ 0#32)
    (hreserved : n / 1024 = t → s.reserved n = true) (hzero : n / 1024 = t → s.entry n = 0#32) :
    Counting t a (s₁.mapPage n w) ∧ (s₁.mapPage n w).reserved = s.reserved ∧
      ∀ m, m / 1024 = t → (s₁.mapPage n w).entry m = if m = n then w else s.entry m := by
  by_cases hn : n / 1024 = t
  · subst hn
    obtain ⟨e, hpde, hcount, hlt, hentry, hres, hheld⟩ := h.linked hlinked (hreserved rfl) (hzero rfl)
    have hslot : s₁.mem e.frame (n % 1024) = 0#32 := by
      rw [← Space.entry_eq hpde, hentry n rfl, hzero rfl]
    have hcard := card_slots_update_add (P := (· ≠ 0#32)) (t := s₁.mem e.frame) (k := n % 1024)
      (Nat.mod_lt n (by decide)) (fun hne => hne hslot) hw
    have hpde' : (s₁.mapPage n w).pde (n / 1024) = some { e with count := min (e.count + 1) 7 } := by
      rw [Space.mapPage_eq hpde]
      exact Function.update_self _ _ _
    have hmem' : (s₁.mapPage n w).mem e.frame =
        Function.update (s₁.mem e.frame) (n % 1024) w := by
      rw [Space.mapPage_eq hpde]
      exact Function.update_self _ _ _
    have hres' : (s₁.mapPage n w).reserved = s.reserved := by
      rw [Space.mapPage_eq hpde]
      exact hres
    have hentry' : ∀ m, m / 1024 = n / 1024 →
        (s₁.mapPage n w).entry m = if m = n then w else s.entry m := by
      intro m hm
      rw [← hentry m hm]
      exact entry_update hm hpde ⟨_, hpde'⟩ hmem'
    refine ⟨⟨hheld.mapPage hpde w, ⟨fun e' he => ?_, fun e' he => ?_⟩, fun m hm hne => ?_, ?_⟩, hres',
      hentry'⟩
    · obtain rfl := Option.some.inj (hpde'.symm.trans he)
      dsimp only
      rw [hmem']
      omega
    · obtain rfl := Option.some.inj (hpde'.symm.trans he)
      rw [← Finset.card_pos]
      dsimp only
      rw [hmem']
      omega
    · rw [hentry' m hm] at hne
      rw [hres']
      by_cases hmn : m = n
      · rw [hmn]
        exact hreserved rfl
      · rw [if_neg hmn] at hne
        exact h.reserved m hm hne
    · rw [FewReserved, hres']
      exact h.few
  · have hsame : Held a (s₁.mapPage n w) ∧ SameTable t s (s₁.mapPage n w) := by
      cases hlinked with
      | present hpde => exact ⟨h.toHeld.mapPage hpde w, h.toHeld.sameTable_mapPage hn hpde w⟩
      | table hnone htable =>
          have hheld := h.toHeld.linkTable .USER htable
          rename_i frame
          have hpde := s.linkTable_pde_self .USER n frame
          exact ⟨hheld.mapPage hpde w,
            (h.toHeld.sameTable_linkTable hn htable).trans (hheld.sameTable_mapPage hn hpde w)⟩
    refine ⟨h.congr hsame.1 hsame.2, hsame.2.reserved, fun m hm => ?_⟩
    have hmn : m ≠ n := by
      rintro rfl
      exact hn hm
    rw [hsame.2.entry hm, if_neg hmn]

/-- Writing 0 over an entry that is 0. -/
theorem setPte_zero (hzero : s.entry n = 0#32) : s.setPte n 0#32 = s := by
  cases hpde : s.pde (n / 1024) with
  | none => rw [Space.setPte, hpde]
  | some e =>
      rw [Space.entry_eq hpde] at hzero
      rw [Space.setPte_eq hpde, ← hzero, Function.update_eq_self, Function.update_eq_self]

/-- A present entry is taken out of the page table, which goes with its last entry. -/
theorem Counting.drop (h : Counting (n / 1024) a s) (hpde : s.pde (n / 1024) = some e)
    (hpresent : hasFlag (s.entry n) PTE_PRESENT = true) (hres : s.releasePage n = .ret s') :
    Counted (n / 1024) s' ∧ s'.reserved = s.reserved ∧
      ∀ m, m / 1024 = n / 1024 → s'.entry m = if m = n then 0#32 else s.entry m := by
  have hne : s.mem e.frame (n % 1024) ≠ 0#32 := by
    rw [← Space.entry_eq hpde]
    intro hzero
    rw [hzero] at hpresent
    exact absurd hpresent (Bool.eq_false_iff.mp present_zero)
  have hcard := card_slots_update_drop (P := (· ≠ 0#32)) (t := s.mem e.frame) (k := n % 1024) (w := 0#32)
    (Nat.mod_lt n (by decide)) hne (fun hz => hz rfl)
  have hcount := h.count e hpde
  have hle := h.card_le hpde
  obtain ⟨s₁, hdec, hpde₁, hmem₁, hreserved₁⟩ : ∃ s₁,
      (s.setPte n 0#32).pdeDec n = .ret (decide (e.count - 1 = 0), s₁) ∧
        s₁.pde (n / 1024) = some { e with count := e.count - 1 } ∧
        s₁.mem e.frame = Function.update (s.mem e.frame) (n % 1024) 0#32 ∧ s₁.reserved = s.reserved := by
    have hpde' : (s.setPte n 0#32).pde (n / 1024) = some e := by rw [Space.setPte_pde, hpde]
    rw [Space.pdeDec_eq hpde' (by omega), if_neg (by omega), Space.setPte_eq hpde]
    exact ⟨_, rfl, Function.update_self _ _ _, Function.update_self _ _ _, rfl⟩
  rw [Space.releasePage, hpde] at hres
  dsimp only at hres
  rw [if_neg (by simp [hpresent]), hdec, Outcome.ret_bind] at hres
  obtain rfl := Outcome.ret.inj hres
  by_cases hlast : e.count - 1 = 0
  · rw [if_pos (decide_eq_true hlast)]
    have hnone : (s₁.releasePageTable n).pde (n / 1024) = none := Function.update_self _ _ _
    refine ⟨⟨fun e' he => ?_, fun e' he => ?_⟩, hreserved₁, fun m hm => ?_⟩
    · rw [hnone] at he
      cases he
    · rw [hnone] at he
      cases he
    · have hzero : s₁.entry m = 0#32 := by
        rw [← hm] at hpde₁
        have hempty : slots (· ≠ 0#32) (s₁.mem e.frame) = ∅ := by
          rw [← Finset.card_eq_zero, hmem₁]
          omega
        have hnot : m % 1024 ∉ slots (· ≠ 0#32) (s₁.mem e.frame) := by
          rw [hempty]
          exact Finset.notMem_empty _
        rw [Space.entry_eq hpde₁]
        by_contra hnz
        exact hnot (mem_slots.mpr ⟨Nat.mod_lt m (by decide), hnz⟩)
      rw [Space.entry_none (by rw [hm]; exact hnone)]
      exact hzero.symm.trans (entry_update hm hpde ⟨_, hpde₁⟩ hmem₁)
  · rw [if_neg (by simpa using hlast)]
    refine ⟨⟨fun e' he => ?_, fun e' he => ?_⟩, hreserved₁, fun m hm => entry_update hm hpde ⟨_, hpde₁⟩ hmem₁⟩
    · obtain rfl := Option.some.inj (hpde₁.symm.trans he)
      dsimp only
      rw [hmem₁]
      omega
    · obtain rfl := Option.some.inj (hpde₁.symm.trans he)
      rw [← Finset.card_pos]
      dsimp only
      rw [hmem₁]
      omega

/-- Releasing a page of the page table that is present, or has no entry. -/
theorem Counting.releasePage (h : Counting t a s) (n : Nat)
    (hpresent : n / 1024 = t → s.entry n ≠ 0#32 → hasFlag (s.entry n) PTE_PRESENT = true) :
    ∃ s', s.releasePage n = .ret s' ∧ Counting t a s' ∧ s'.reserved = s.reserved ∧
      ∀ m, m / 1024 = t → s'.entry m = if m = n then 0#32 else s.entry m := by
  obtain ⟨s', hres, hheld⟩ := h.toHeld.releasePage n
  refine ⟨s', hres, ?_⟩
  by_cases hn : n / 1024 = t
  · subst hn
    by_cases hzero : s.entry n = 0#32
    · have hsame : s' = s := by
        rw [Space.releasePage, hzero, if_pos (by decide), setPte_zero hzero] at hres
        cases hpde : s.pde (n / 1024) with
        | none =>
            rw [hpde] at hres
            exact (Outcome.ret.inj hres).symm
        | some e =>
            rw [hpde] at hres
            exact (Outcome.ret.inj hres).symm
      subst hsame
      refine ⟨h, rfl, fun m _ => ?_⟩
      by_cases hmn : m = n
      · rw [if_pos hmn, hmn, hzero]
      · rw [if_neg hmn]
    · cases hpde : s.pde (n / 1024) with
      | none => exact absurd (Space.entry_none hpde) hzero
      | some e =>
          obtain ⟨hcounted, hreserved, hentry⟩ := h.drop hpde (hpresent rfl hzero) hres
          refine ⟨⟨hheld, hcounted, fun m hm hne => ?_, ?_⟩, hreserved, hentry⟩
          · rw [hentry m hm] at hne
            rw [hreserved]
            by_cases hmn : m = n
            · rw [if_pos hmn] at hne
              exact absurd rfl hne
            · rw [if_neg hmn] at hne
              exact h.reserved m hm hne
          · rw [FewReserved, hreserved]
            exact h.few
  · have hsame := h.toHeld.sameTable_releasePage hn hres
    refine ⟨h.congr hheld hsame, hsame.reserved, fun m hm => ?_⟩
    have hmn : m ≠ n := by
      rintro rfl
      exact hn hm
    rw [hsame.entry hm, if_neg hmn]

/-! ### Calls -/

theorem Counting.releaseLoop (h : Counting t a s) {count : Nat}
    (hpresent : ∀ m, n ≤ m → m < n + count → m / 1024 = t → s.entry m ≠ 0#32 →
      hasFlag (s.entry m) PTE_PRESENT = true) :
    ∃ s', Space.releaseLoop count n s = .ret s' ∧ Counting t a s' ∧ s'.reserved = s.reserved ∧
      ∀ m, m / 1024 = t → s'.entry m = if n ≤ m ∧ m < n + count then 0#32 else s.entry m := by
  induction count generalizing n s with
  | zero => exact ⟨s, rfl, h, rfl, fun m _ => (if_neg (by omega)).symm⟩
  | succ count ih =>
      obtain ⟨s₁, hpage, h₁, hreserved, hentry⟩ :=
        h.releasePage n (hpresent n (le_refl n) (by omega))
      obtain ⟨s₂, hloop, h₂, hreserved', hentry'⟩ := ih (n := n + 1) h₁ (by
        intro m hle hlt hm hne
        rw [hentry m hm, if_neg (by omega)] at hne ⊢
        exact hpresent m (by omega) (by omega) hm hne)
      rw [Space.releaseLoop, hpage]
      refine ⟨s₂, hloop, h₂, hreserved'.trans hreserved, fun m hm => ?_⟩
      rw [hentry' m hm, hentry m hm]
      by_cases hmn : m = n
      · rw [if_pos hmn, ite_self, if_pos (by omega)]
      · rw [if_neg hmn]
        exact if_congr (by omega) rfl rfl

/-- Pages without an entry are no longer reserved. -/
theorem Counting.free (h : Counting t a s) {start count : Nat}
    (hzero : ∀ m, start ≤ m → m < start + count → m / 1024 = t → s.entry m = 0#32) :
    Counting t a (s.reserve start count false) where
  toHeld := h.toHeld.reserve start count false
  toCounted := ⟨h.count, h.nonempty⟩
  reserved m hm hne := by
    rw [Space.reserve]
    dsimp only
    rw [if_neg fun hin => hne (hzero m hin.1 hin.2 hm)]
    exact h.reserved m hm hne
  few := by
    refine (Finset.card_le_card fun k hk => ?_).trans h.few
    obtain ⟨hlt, hin⟩ := Finset.mem_filter.mp hk
    refine Finset.mem_filter.mpr ⟨hlt, ?_⟩
    rw [Space.reserve] at hin
    dsimp only at hin
    split at hin
    · cases hin
    · exact hin

theorem Counting.releasePages (h : Counting t a s) (start count : Nat)
    (hpresent : ∀ m, start ≤ m → m < start + count → m / 1024 = t → s.entry m ≠ 0#32 →
      hasFlag (s.entry m) PTE_PRESENT = true) :
    ∃ s', s.releasePages start count = .ret s' ∧ Counting t a s' ∧
      ∀ m, m / 1024 = t → s'.entry m = if start ≤ m ∧ m < start + count then 0#32 else s.entry m := by
  obtain ⟨s₁, hloop, h₁, -, hentry⟩ := h.releaseLoop hpresent
  rw [Space.releasePages, hloop]
  refine ⟨_, rfl, h₁.free fun m hle hlt hm => ?_, hentry⟩
  rw [hentry m hm, if_pos ⟨hle, hlt⟩]

/-- The pages from `start` on that a call has reserved, of which the first `done` are present. -/
structure Reserving (t start count done : Nat) (s : Space) : Prop where
  reserved : ∀ m, start ≤ m → m < start + count → m / 1024 = t → s.reserved m = true
  present : ∀ m, start ≤ m → m < start + done → m / 1024 = t → hasFlag (s.entry m) PTE_PRESENT = true
  zero : ∀ m, start + done ≤ m → m < start + count → m / 1024 = t → s.entry m = 0#32

/-- Free pages become reserved. -/
theorem Counting.reserve (h : Counting t a s) {start count : Nat}
    (hfew : FewReserved t (s.reserve start count true))
    (hfree : ∀ i, i < count → s.reserved (start + i) = false) :
    Counting t a (s.reserve start count true) ∧ Reserving t start count 0 (s.reserve start count true) := by
  have hreserved : ∀ m, s.reserved m = true → (s.reserve start count true).reserved m = true := by
    intro m hm
    rw [Space.reserve]
    dsimp only
    rw [hm, ite_self]
  refine ⟨⟨h.toHeld.reserve start count true, ⟨h.count, h.nonempty⟩, fun m hm hne => ?_, hfew⟩,
    fun m hle hlt _ => if_pos ⟨hle, hlt⟩, fun m hle hlt => by omega, fun m hle hlt hm => ?_⟩
  · exact hreserved m (h.reserved m hm hne)
  · by_contra hne
    have htrue := h.reserved m hm hne
    obtain ⟨i, rfl⟩ := Nat.exists_eq_add_of_le hle
    rw [Nat.add_zero] at htrue
    rw [hfree i (by omega)] at htrue
    cases htrue

theorem presentEntry_present (a : Answers) (n paddr : Nat) :
    hasFlag (Space.presentEntry a n paddr) PTE_PRESENT = true := by
  rw [Space.presentEntry, hasFlag_or, Bool.or_eq_true]
  exact Or.inr (by decide)

theorem ne_zero_of_present (h : hasFlag w PTE_PRESENT = true) : w ≠ 0#32 := by
  rintro rfl
  exact absurd h (Bool.eq_false_iff.mp present_zero)

theorem Counting.allocatePage {start count done : Nat} (h : Counting t a s)
    (hrange : Reserving t start count done s) (hdone : done < count) {flag : Bool}
    (hres : s.allocatePage a (start + done) = .ret (flag, s')) :
    (flag = false ∧ s' = s) ∨
      (flag = true ∧ Counting t a s' ∧ Reserving t start count (done + 1) s') := by
  rw [Space.allocatePage] at hres
  cases hpage : a.page (start + done) with
  | none =>
      rw [hpage] at hres
      obtain ⟨rfl, rfl⟩ := Prod.mk.inj (Outcome.ret.inj hres)
      exact Or.inl ⟨rfl, rfl⟩
  | some paddr =>
      rw [hpage] at hres
      have hpresent := presentEntry_present a (start + done) paddr
      rcases Space.connect_cases hres with hfail | ⟨rfl, s₁, hlinked, rfl⟩
      · exact Or.inl hfail
      · obtain ⟨h₁, hreserved, hentry⟩ := h.mapPage hlinked (ne_zero_of_present hpresent)
          (hrange.reserved _ (by omega) (by omega)) (hrange.zero _ (by omega) (by omega))
        refine Or.inr ⟨rfl, h₁, fun m hle hlt hm => ?_, fun m hle hlt hm => ?_, fun m hle hlt hm => ?_⟩
        · rw [hreserved]
          exact hrange.reserved m hle hlt hm
        · rw [hentry m hm]
          split
          · exact hpresent
          · exact hrange.present m hle (by omega) hm
        · rw [hentry m hm, if_neg (by omega)]
          exact hrange.zero m (by omega) hlt hm

theorem Counting.allocatePagesLoop {start count left : Nat} (hleft : left ≤ count) (h : Counting t a s)
    (hrange : Reserving t start count (count - left) s) {r : Option Nat × Space}
    (hres : Space.allocatePagesLoop a start count left s = .ret r) : Counting t a r.2 := by
  induction left generalizing s with
  | zero =>
      obtain rfl := Outcome.ret.inj hres
      exact h
  | succ left ih =>
      rw [Space.allocatePagesLoop] at hres
      obtain ⟨⟨flag, s₁⟩, hpage, hrest⟩ := Outcome.bind_eq_ret hres
      rcases h.allocatePage hrange (by omega) hpage with ⟨rfl, rfl⟩ | ⟨rfl, h₁, hrange₁⟩
      · -- the pages before are present, the page itself and those after it have no entry
        obtain ⟨s₂, hrelease, h₂, hentry⟩ := h.releasePages start (count - (left + 1))
          fun m hle hlt hm _ => hrange.present m hle hlt hm
        obtain ⟨s₃, hrelease', hrest⟩ := Outcome.bind_eq_ret hrest
        obtain rfl := Outcome.ret.inj (hrelease.symm.trans hrelease')
        obtain rfl := Outcome.ret.inj hrest
        refine h₂.free fun m hle hlt hm => ?_
        rw [hentry m hm, if_neg (by omega)]
        exact hrange.zero m hle (by omega) hm
      · have hstep : count - (left + 1) + 1 = count - left := by omega
        rw [hstep] at hrange₁
        exact ih (Nat.le_of_succ_le hleft) h₁ hrange₁ hrest

theorem Counting.allocatePagesLazyLoop {start count left : Nat} (hleft : left ≤ count) (h : Counting t a s)
    (hfound : TablesFound a s start count)
    (hreserved : ∀ m, start ≤ m → m < start + count → m / 1024 = t → s.reserved m = true)
    (hzero : ∀ m, start + (count - left) ≤ m → m < start + count → m / 1024 = t → s.entry m = 0#32) :
    ∃ s', Space.allocatePagesLazyLoop a .USER start count left s = .ret s' ∧ Counting t a s' := by
  induction left generalizing s with
  | zero => exact ⟨s, rfl, h⟩
  | succ left ih =>
      obtain ⟨s₁, htable, hlinked⟩ :=
        Space.lazyTable_linked .USER (hfound (count - (left + 1)) (by omega))
      obtain ⟨h₁, hreserved₁, hentry⟩ := h.mapPage hlinked (w := PTE_LAZY ||| PTE_WRITABLE) (by decide)
        (hreserved _ (by omega) (by omega)) (hzero _ (by omega) (by omega))
      rw [Space.allocatePagesLazyLoop, htable]
      refine ih (Nat.le_of_succ_le hleft) h₁ (hfound.linked hlinked _) (fun m hle hlt hm => ?_)
        fun m hle hlt hm => ?_
      · rw [hreserved₁]
        exact hreserved m hle hlt hm
      · rw [hentry m hm, if_neg (by omega)]
        exact hzero m (by omega) hlt hm

/-- A fault is given a page only if it is in another page table. -/
theorem Counting.demandZero (h : Counting t a s) (hother : n / 1024 = t → a.page n = none)
    (hres : s.demandZero a n = .ret s') : Counting t a s' := by
  rw [Space.demandZero] at hres
  cases hpage : a.page n with
  | none =>
      rw [hpage] at hres
      obtain rfl := Outcome.ret.inj hres
      exact h
  | some paddr =>
      have hn : n / 1024 ≠ t := by
        intro hn
        rw [hother hn] at hpage
        cases hpage
      rw [hpage] at hres
      obtain ⟨⟨flag, s₁⟩, hconnect, hres⟩ := Outcome.bind_eq_ret hres
      obtain rfl := Outcome.ret.inj hres
      rcases Space.connect_cases hconnect with ⟨-, rfl⟩ | ⟨-, s₂, hlinked, rfl⟩
      · exact h
      · exact (h.mapPage hlinked (ne_zero_of_present (presentEntry_present a n paddr))
          (fun heq => absurd heq hn) fun heq => absurd heq hn).1

/-- A call that counts the pages of the page table once. -/
theorem Counting.exec {c : Call} (h : Counting t a s) (henabled : c.Enabled s) (hsix : SixReserved t a c s)
    (honce : CountedOnce t a c s) (hres : c.exec a s = .ret s') : Counting t a s' := by
  cases c with
  | allocatePages start count =>
      obtain ⟨r, hcall, hres⟩ := Outcome.bind_eq_ret hres
      obtain rfl := Outcome.ret.inj hres
      cases start with
      | none =>
          obtain rfl := Outcome.ret.inj hcall
          exact h
      | some start =>
          obtain ⟨h₁, hrange⟩ := h.reserve hsix henabled
          refine h₁.allocatePagesLoop (le_refl count) ?_ hcall
          rw [Nat.sub_self]
          exact hrange
  | allocatePagesLazy start count =>
      obtain ⟨r, hcall, hres⟩ := Outcome.bind_eq_ret hres
      obtain rfl := Outcome.ret.inj hres
      cases start with
      | none =>
          obtain rfl := Outcome.ret.inj hcall
          exact h
      | some start =>
          obtain ⟨h₁, hrange⟩ := h.reserve hsix henabled
          obtain ⟨s₂, hloop, h₂⟩ := h₁.allocatePagesLazyLoop (le_refl count) honce hrange.reserved
            fun m hle hlt => hrange.zero m (by omega) hlt
          rw [Space.allocatePagesLazy, hloop] at hcall
          obtain rfl := Outcome.ret.inj hcall
          exact h₂
  | releasePages start count =>
      obtain ⟨s₁, hcall, h₁, -⟩ := h.releasePages start count honce
      obtain rfl := Outcome.ret.inj (hcall.symm.trans hres)
      exact h₁
  | demandZero n => exact h.demandZero honce hres
  | connectPhysicalVirtualPage n paddr => exact hsix.elim
  | mapProcessPage n paddr => exact hsix.elim
  | releaseProcessPage n => exact hsix.elim
  | setupCOWPages cow paddr n count => exact hsix.elim
  | copyOnWrite n newPaddr => exact hsix.elim

end Table

/-! ### Runs -/

theorem Counting.withAnswers {t : Nat} {a a' : Answers} {s : Space} (h : Counting t a s) (hfresh : Fresh a' s) :
    Counting t a' s where
  toBounded := h.toBounded
  toFresh := hfresh
  toCounted := h.toCounted
  reserved := h.reserved
  few := h.few

theorem Run.counting {t : Nat} {s : Space}
    (h : Run (fun a c s => SixReserved t a c s ∧ CountedOnce t a c s) s) :
    ∀ a, Fresh a s → Counting t a s := by
  induction h with
  | create mem =>
      intro a hfresh
      refine ⟨⟨⟨fun i j e e' hi => ?_, fun i e hi => ?_, fun i e hi => ?_⟩, hfresh⟩,
        ⟨fun e hi => ?_, fun e hi => ?_⟩, fun n _ hne => absurd rfl hne, ?_⟩
      · cases hi
      · cases hi
      · cases hi
      · cases hi
      · cases hi
      · rw [FewReserved, Finset.filter_false_of_mem fun _ _ => Bool.false_ne_true]
        exact Nat.zero_le 6
  | call hrun hfresh henabled hok hres ih =>
      intro a hfresh'
      exact ((ih _ hfresh).exec henabled hok.1 hok.2 hres).withAnswers hfresh'

/-- In every run of the four kinds of calls that reserves at most six pages of a page table at a time and
counts a page once, the counter is the number of entries that are not 0, and the page table goes with the
last one. -/
theorem run_counted {t : Nat} {s : Space}
    (hrun : Run (fun a c s => SixReserved t a c s ∧ CountedOnce t a c s) s) : Counted t s :=
  (hrun.counting noTable ⟨fun _ _ hi => (Option.some_ne_none _ hi.symm).elim,
    fun _ _ _ hi => (Option.some_ne_none _ hi.symm).elim⟩).toCounted

section Instance

/-- There is a frame for one page table, and pages. -/
def onePageTable : Answers := ⟨fun i => if i = 33 then some 0x300 else none, fun _ => some 0x500000,
  fun _ => PTE_WRITABLE, fun _ => true⟩

theorem fresh_onePageTable : Fresh onePageTable createdSpace := by
  refine fresh_created fun i j frame hi hj => ?_
  rw [onePageTable] at hi hj
  dsimp only at hi hj
  split at hi <;> split at hj <;> simp_all

theorem fewReserved_created {t start count : Nat} (hcount : count ≤ 6) :
    FewReserved t (createdSpace.reserve start count true) := by
  have hcard : (Finset.Ico start (start + count)).card ≤ 6 := by
    rw [Nat.card_Ico]
    omega
  refine (Finset.card_le_card_of_injOn (t * 1024 + ·) (fun k hk => ?_) fun i _ j _ hij => ?_).trans hcard
  · rw [Finset.mem_coe, Finset.mem_filter, Space.reserve] at hk
    rw [Finset.mem_coe, Finset.mem_Ico]
    by_contra hout
    have hin := hk.2
    dsimp only at hin
    rw [if_neg hout] at hin
    cases hin
  · exact Nat.add_left_cancel hij

/-- Two pages of one page table are reserved and present. -/
theorem run_counted_two :
    Counted 33 ((Call.exec onePageTable createdSpace (.allocatePages (some 34000) 2)).getD createdSpace) :=
  run_counted (Run.call (a := onePageTable) (c := .allocatePages (some 34000) 2) (Run.create fun _ _ => 0#32)
    fresh_onePageTable (fun _ _ => rfl) ⟨fewReserved_created (by decide), trivial⟩ rfl)

/-- A page is reserved, and a fault on it counts it once more. -/
theorem not_run_counted : ¬∀ t s, Run (SixReserved t) s → Counted t s := by
  intro h
  have hreserved : Run (SixReserved 33) _ := Run.call (a := onePageTable)
    (c := .allocatePagesLazy (some 34000) 1) (Run.create fun _ _ => 0#32) fresh_onePageTable (fun _ _ => rfl) (fewReserved_created (by decide)) rfl
  have hfault := Run.call (a := onePageTable) (c := .demandZero 34000) hreserved
    ⟨fun i frame hi j e hj _ => ?_, fresh_onePageTable.inj⟩ ⟨rfl, rfl, rfl⟩ trivial rfl
  · have hcount := (h 33 _ hfault).count ⟨0x300, 2⟩ rfl
    have hcard : ∀ w w' : Word, (slots (· ≠ 0#32)
        (Function.update (Function.update (fun _ => 0#32) 208 w) 208 w')).card ≤ 1 := by
      intro w w'
      rw [Function.update_idem]
      refine card_slots_update_le.trans ?_
      rw [slots_zero (fun hne => hne rfl)]
      exact le_refl 1
    exact absurd (hcount.trans_le (hcard _ _)) (by decide)
  · have hi33 : i = 33 := by
      by_contra hne
      have hnone : onePageTable.table i = none := if_neg hne
      rw [hnone] at hi
      cases hi
    by_contra hne
    have hj33 : j ≠ 33 := by
      rintro rfl
      exact hne hi33.symm
    have hnone := (Function.update_of_ne hj33 _ _).symm.trans hj
    exact Option.some_ne_none e (hnone.symm.trans (Function.update_of_ne hj33 _ _))

end Instance

end SysuOs.PageTables
