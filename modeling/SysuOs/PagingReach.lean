import SysuOs.PagingFork
import SysuOs.PoolOffers

/-! How far `copyProcess` gets: where it stops, there is no page for a page table of the child, or a page of the
parent has no reverse mapping. -/

namespace SysuOs

open Kernel Flags

variable {s s' : Kernel} {g : Ghost} {q d f n page : Nat}

namespace Kernel

/-! ### Page tables of the child -/

/-- A page of the parent below `n` needs the page table of page `n`. -/
def TableBelow (s : Kernel) (dir n : Nat) : Prop :=
  ∃ m, startPage ≤ m ∧ m < n ∧ present (s.pageEntry dir m) = true ∧ m / 1024 = n / 1024

/-- How many page tables the child needs for the pages below `n`. -/
def tablesBelow (s : Kernel) (dir n : Nat) : Nat :=
  (((Finset.range n).filter fun m => startPage ≤ m ∧ present (s.pageEntry dir m) = true).image (· / 1024)).card

theorem tablesBelow_mono {dir m : Nat} (hle : m ≤ n) : s.tablesBelow dir m ≤ s.tablesBelow dir n :=
  Finset.card_le_card (Finset.image_subset_image (Finset.filter_subset_filter _ (Finset.range_mono hle)))

theorem tablesBelow_start (s : Kernel) (dir : Nat) : s.tablesBelow dir startPage = 0 := by
  rw [tablesBelow, Finset.card_eq_zero, Finset.image_eq_empty, Finset.filter_eq_empty_iff]
  rintro m hm ⟨hle, -⟩
  exact absurd (Finset.mem_range.mp hm) (Nat.not_lt.mpr hle)

theorem tablesBelow_skip {dir : Nat} (habsent : present (s.pageEntry dir n) = false) :
    s.tablesBelow dir (n + 1) = s.tablesBelow dir n := by
  rw [tablesBelow, Finset.range_add_one, Finset.filter_insert, if_neg (by simp [habsent])]
  rfl

theorem tablesBelow_old {dir : Nat} (hold : s.TableBelow dir n) :
    s.tablesBelow dir (n + 1) = s.tablesBelow dir n := by
  obtain ⟨m, hm, hlt, hpresent, hsame⟩ := hold
  rw [tablesBelow, Finset.range_add_one, Finset.filter_insert]
  split
  · rw [Finset.image_insert, Finset.insert_eq_of_mem]
    · rfl
    · exact Finset.mem_image.mpr ⟨m, Finset.mem_filter.mpr ⟨Finset.mem_range.mpr hlt, hm, hpresent⟩, hsame⟩
  · rfl

theorem tablesBelow_new {dir : Nat} (hn : startPage ≤ n) (hpresent : present (s.pageEntry dir n) = true)
    (hnew : ¬s.TableBelow dir n) : s.tablesBelow dir (n + 1) = s.tablesBelow dir n + 1 := by
  rw [tablesBelow, Finset.range_add_one, Finset.filter_insert, if_pos ⟨hn, hpresent⟩, Finset.image_insert,
    Finset.card_insert_of_notMem]
  · rfl
  · intro hmem
    obtain ⟨m, hm, hsame⟩ := Finset.mem_image.mp hmem
    obtain ⟨hlt, hle, hm⟩ := Finset.mem_filter.mp hm
    exact hnew ⟨m, hle, Finset.mem_range.mp hlt, hm, hsame⟩

/-! ### What the pool has for them -/

/-- The words of memory and the cached translations are the same. -/
structure SameView (s s' : Kernel) : Prop where
  mem : s'.mem = s.mem
  tlb : s'.tlb = s.tlb

theorem SameView.trans {s'' : Kernel} (h : SameView s s') (h' : SameView s' s'') : SameView s s'' :=
  ⟨h'.mem.trans h.mem, h'.tlb.trans h.tlb⟩

theorem allocatePhysicalPages_offers (h : s.allocatePhysicalPages .KERNEL 1 = .ret (page, s')) :
    SameView s s' ∧ (page ≠ 0 → ∀ k, s.kernelPhysical.Offers (k + 1) ↔ s'.kernelPhysical.Offers k) ∧
      (page = 0 → ¬s.kernelPhysical.Offers 1) := by
  rcases hpool : s.kernelPhysical.allocate 1 with ⟨address, p⟩
  have halloc : s.poolAllocate .KERNEL 1 = (address, { s with kernelPhysical := p }) := by
    show ((s.kernelPhysical.allocate 1).1, { s with kernelPhysical := (s.kernelPhysical.allocate 1).2 }) = _
    rw [hpool]
  rw [allocatePhysicalPages, halloc] at h
  cases address with
  | none =>
      obtain ⟨rfl, rfl⟩ := Prod.mk.inj (Outcome.ret.inj h)
      exact ⟨⟨rfl, rfl⟩, fun hne => absurd rfl hne, fun _ => PAddressPool.not_offers_of_none hpool⟩
  | some address =>
      simp only [markAllocated, Outcome.pure_eq, Outcome.ret_bind, if_true] at h
      obtain ⟨s₁, hmark, h⟩ := Outcome.bind_eq_ret h
      obtain ⟨-, -, hmark⟩ := Outcome.bind_eq_ret hmark
      obtain rfl := Outcome.ret.inj hmark
      obtain ⟨-, -, h⟩ := Outcome.bind_eq_ret h
      obtain ⟨rfl, rfl⟩ := Prod.mk.inj (Outcome.ret.inj h)
      exact ⟨⟨rfl, rfl⟩, fun hne => PAddressPool.offers_succ hpool hne, PAddressPool.not_offers_of_zero hpool⟩

/-- A page table takes a page of the pool. -/
theorem allocatePageTable_offers (h : s.allocatePageTable = .ret (page, s')) :
    SameView s s' ∧ (page ≠ 0 → ∀ k, s.kernelPhysical.Offers (k + 1) ↔ s'.kernelPhysical.Offers k) ∧
      (page = 0 → ¬s.kernelPhysical.Offers 1) := by
  rw [allocatePageTable] at h
  obtain ⟨⟨page', s₁⟩, halloc, h⟩ := Outcome.bind_eq_ret h
  obtain ⟨hview, hsome, hzero⟩ := allocatePhysicalPages_offers halloc
  dsimp only at h
  split at h
  · rename_i hpage
    obtain ⟨rfl, rfl⟩ := Prod.mk.inj (Outcome.ret.inj h)
    exact ⟨hview, fun hne => absurd rfl hne, fun _ => hzero hpage⟩
  · obtain ⟨pi, -, h⟩ := Outcome.bind_eq_ret h
    obtain ⟨rfl, rfl⟩ := Prod.mk.inj (Outcome.ret.inj h)
    exact ⟨⟨hview.mem, hview.tlb⟩, hsome, hzero⟩

/-- The page directory of the child. -/
theorem createDirectory_offers {dir : Option Nat} (h : s.createProcessPageDirectory = .ret (dir, s')) :
    (dir = none → SameView s s' ∧ ¬s.kernelPhysical.Offers 1) ∧
      (dir ≠ none → ∀ k, s.kernelPhysical.Offers (k + 1) ↔ s'.kernelPhysical.Offers k) := by
  rw [createProcessPageDirectory] at h
  obtain ⟨⟨page, s₁⟩, halloc, h⟩ := Outcome.bind_eq_ret h
  obtain ⟨hview, hsome, hzero⟩ := allocatePageTable_offers halloc
  dsimp only at h
  split at h
  · rename_i hpage
    obtain ⟨rfl, rfl⟩ := Prod.mk.inj (Outcome.ret.inj h)
    exact ⟨fun _ => ⟨hview, hzero hpage⟩, fun hne => absurd rfl hne⟩
  · rename_i hpage
    obtain ⟨rfl, rfl⟩ := Prod.mk.inj (Outcome.ret.inj h)
    exact ⟨fun hnone => absurd hnone (Option.some_ne_none _), fun _ => hsome hpage⟩

end Kernel

/-- The page table of page `n` is there, or a new one takes a page of the pool. -/
theorem setupTable_offers (h : Spaces s g) (hdir : g.dirs q = some d)
    (hcall : s.setupTable d (n * 4096) = .ret (true, s')) :
    (∀ i, i ≠ n / 1024 → s'.mem d i = s.mem d i) ∧
      ∀ k, s.kernelPhysical.Offers (k + if present (s.mem d (n / 1024)) then 0 else 1) ↔
        s'.kernelPhysical.Offers k := by
  rw [setupTable, pde, pdeIdx_page] at hcall
  split at hcall
  · rename_i hpresent
    obtain ⟨-, rfl⟩ := Prod.mk.inj (Outcome.ret.inj hcall)
    rw [if_pos (show present (s.mem d (n / 1024)) = true from hpresent)]
    exact ⟨fun _ _ => rfl, fun _ => Iff.rfl⟩
  · rename_i habsent
    rw [if_neg (show ¬present (s.mem d (n / 1024)) = true from habsent)]
    obtain ⟨⟨page, s₁⟩, halloc, hcall⟩ := Outcome.bind_eq_ret hcall
    obtain ⟨hview, hsome, -⟩ := allocatePageTable_offers halloc
    dsimp only at hcall
    split at hcall
    · cases (Prod.mk.inj (Outcome.ret.inj hcall)).1
    · rename_i hpage
      obtain ⟨-, rfl⟩ := Prod.mk.inj (Outcome.ret.inj hcall)
      obtain ⟨-, hfree, -⟩ := allocatePageTable_spec halloc hpage
      have hne : d ≠ PA2PGI page := by
        rintro rfl
        have hrole := h.dir q _ hdir
        rw [h.free _ hfree] at hrole
        cases hrole
      refine ⟨fun i hi => ?_, hsome hpage⟩
      rw [linkTable_mem, if_neg hne, if_pos rfl, pdeIdx_page, Function.update_of_ne hi, hview.mem]

/-- An iteration of `setupCOWPages` that fails changes no page of another process. -/
theorem setupCOWPage_fails (h : Spaces s g) (hdir : g.dirs q = some d) (hpage : g.role f = .page)
    (hcall : s.setupCOWPage d (f * 4096) (n * 4096) q = .ret (false, s')) :
    (s'.tlb = s.tlb ∧ ∀ f', g.role f' ≠ .free → f' ≠ d → s'.mem f' = s.mem f') ∧
      ((present (s.mem d (n / 1024)) = false ∧ ¬s.kernelPhysical.Offers 1) ∨ g.chain f = []) := by
  have hpgi : PA2PGI (f * 4096) = f := by rw [PA2PGI, Nat.mul_div_cancel _ (by decide)]
  rw [setupCOWPage, hpgi] at hcall
  obtain ⟨⟨ok, s₁⟩, htable, hcall⟩ := Outcome.bind_eq_ret hcall
  cases ok with
  | false =>
      obtain ⟨-, rfl⟩ := Prod.mk.inj (Outcome.ret.inj hcall)
      rw [setupTable, pde, pdeIdx_page] at htable
      split at htable
      · cases (Prod.mk.inj (Outcome.ret.inj htable)).1
      · rename_i habsent
        obtain ⟨⟨page, s₂⟩, halloc, htable⟩ := Outcome.bind_eq_ret htable
        obtain ⟨hview, -, hzero⟩ := allocatePageTable_offers halloc
        dsimp only at htable
        split at htable
        · rename_i hpage₀
          obtain ⟨-, rfl⟩ := Prod.mk.inj (Outcome.ret.inj htable)
          exact ⟨⟨hview.tlb, fun f' _ _ => by rw [hview.mem]⟩,
            Or.inl ⟨Bool.eq_false_iff.mpr habsent, hzero hpage₀⟩⟩
        · cases (Prod.mk.inj (Outcome.ret.inj htable)).1
  | true =>
      obtain ⟨g₁, h₁, hgrows₁, hquiet, -⟩ := setupTable_spec h hdir htable
      have hpage₁ := (hgrows₁.pages f hpage).1
      dsimp only at hcall
      obtain ⟨⟨ok, s₂⟩, hcow, hcall⟩ := Outcome.bind_eq_ret hcall
      cases ok with
      | true =>
          dsimp only at hcall
          obtain ⟨⟨idx, s₃⟩, -, hcall⟩ := Outcome.bind_eq_ret hcall
          cases (Prod.mk.inj (Outcome.ret.inj hcall)).1
      | false =>
          obtain ⟨-, rfl⟩ := Prod.mk.inj (Outcome.ret.inj hcall)
          have hres := setCOW_res h₁ hpage₁ hcow
          have hs₂ := setCOW_eq hcow h₁.toChains hpage₁
          rw [if_neg Bool.false_ne_true] at hs₂
          subst hs₂
          refine ⟨⟨hquiet.tlb, hquiet.mem⟩, Or.inr ?_⟩
          rw [← hquiet.chain]
          by_contra hchain
          cases hres.mpr hchain

/-! ### What is taken back -/

namespace Kernel

theorem detach_view {ptePaddr owner : Nat} {res : Bool} (h : s.detach f ptePaddr owner = .ret (res, s')) :
    SameView s s' := by
  rw [detach] at h
  obtain ⟨-, -, h⟩ := Outcome.bind_eq_ret h
  obtain ⟨-, -, h⟩ := Outcome.bind_eq_ret h
  split at h
  · obtain ⟨r, -, h⟩ := Outcome.bind_eq_ret h
    obtain ⟨pi, -, h⟩ := Outcome.bind_eq_ret h
    obtain ⟨-, rfl⟩ := Prod.mk.inj (Outcome.ret.inj h)
    exact ⟨rfl, rfl⟩
  · obtain ⟨found, -, h⟩ := Outcome.bind_eq_ret h
    cases found with
    | none =>
        obtain ⟨-, rfl⟩ := Prod.mk.inj (Outcome.ret.inj h)
        exact ⟨rfl, rfl⟩
    | some pair =>
        obtain ⟨r, -, h⟩ := Outcome.bind_eq_ret h
        obtain ⟨pi, -, h⟩ := Outcome.bind_eq_ret h
        obtain ⟨-, rfl⟩ := Prod.mk.inj (Outcome.ret.inj h)
        exact ⟨rfl, rfl⟩

/-- `rollbackCOWSetup` takes back reverse mappings only. -/
theorem rollbackCOWSetup_view {pgdir paddr vaddr owner count : Nat}
    (h : s.rollbackCOWSetup pgdir paddr vaddr owner count = .ret s') : SameView s s' := by
  induction count generalizing s' with
  | zero =>
      obtain rfl := Outcome.ret.inj h
      exact ⟨rfl, rfl⟩
  | succ count ih =>
      rw [rollbackCOWSetup] at h
      obtain ⟨s₁, hfirst, h⟩ := Outcome.bind_eq_ret h
      obtain ⟨⟨res, s₂⟩, hdetach, h⟩ := Outcome.bind_eq_ret h
      obtain rfl := Outcome.ret.inj h
      exact (ih hfirst).trans (detach_view hdetach)

theorem rollbackLoop_view {pgdir owner stop fuel vaddr : Nat}
    (h : rollbackLoop pgdir owner stop fuel vaddr s = .ret s') : SameView s s' := by
  induction fuel generalizing vaddr s with
  | zero => cases h
  | succ fuel ih =>
      rw [rollbackLoop] at h
      split at h
      · split at h
        · obtain ⟨s₁, hback, h⟩ := Outcome.bind_eq_ret h
          exact (rollbackCOWSetup_view hback).trans (ih h)
        · cases h
      · obtain rfl := Outcome.ret.inj h
        exact ⟨rfl, rfl⟩

end Kernel

end SysuOs
