import Mathlib
import SysuOs.PagingWords

/-! Physical pages: whatever a pool returns, a page that is allocated was marked free in its `PageInfo`,
and no other page changes. -/

namespace SysuOs.Kernel

open Flags

/-- The `PageInfo` of a page just allocated. -/
def freshInfo (type : AddressPoolType) : PageInfo :=
  (match type with
    | .KERNEL => PageInfo.cleared.setFlag PG_KERNEL
    | .USER => PageInfo.cleared).setFlag PG_SINGLE

theorem not_free_freshInfo (type : AddressPoolType) : (freshInfo type).has PG_FREE = false := by
  cases type <;> decide

@[simp] theorem ref_freshInfo (type : AddressPoolType) : (freshInfo type).ref = 0 := by cases type <;> rfl

@[simp] theorem extra_freshInfo (type : AddressPoolType) : (freshInfo type).extra = 0 := by
  cases type <;> rfl

/-- Only the pools of `s` and `s'` differ. -/
structure SamePools (s s' : Kernel) : Prop where
  eq : s' = { s with kernelPhysical := s'.kernelPhysical, userPhysical := s'.userPhysical }

theorem poolAllocate_same (s : Kernel) (type : AddressPoolType) (count : Nat) :
    SamePools s (s.poolAllocate type count).2 := by
  cases type <;> exact ⟨rfl⟩

/-- A page that is allocated was free, and its `PageInfo` starts afresh. -/
theorem allocatePhysicalPages_spec {s s' : Kernel} {type : AddressPoolType} {paddr : Nat}
    (h : s.allocatePhysicalPages type 1 = .ret (paddr, s')) (hne : paddr ≠ 0) :
    paddr < 2 ^ 32 ∧ (s.pageinfos (PA2PGI paddr)).has PG_FREE = true ∧
      ∃ s₁, SamePools s s₁ ∧ s' = s₁.setInfo (PA2PGI paddr) (freshInfo type) := by
  rw [allocatePhysicalPages] at h
  have hsame := poolAllocate_same s type 1
  revert h hsame
  generalize s.poolAllocate type 1 = pool
  obtain ⟨address, s₁⟩ := pool
  cases address with
  | none =>
      intro h _
      exact absurd (Prod.mk.inj (Outcome.ret.inj h)).1.symm hne
  | some address =>
      intro h hsame
      dsimp only at h hsame
      have hinfo : s₁.pageinfos = s.pageinfos := by rw [hsame.eq]
      simp only [markAllocated, Outcome.pure_eq, Outcome.ret_bind, Nat.add_zero, hinfo] at h
      by_cases hfree : (s.pageinfos (PA2PGI (address % 2 ^ 32))).has PG_FREE = true
      · simp only [Outcome.ASSERT_pos hfree, Outcome.ret_bind, if_true] at h
        obtain ⟨-, -, h⟩ := Outcome.bind_eq_ret h
        simp only [Outcome.ret.injEq, Prod.mk.injEq] at h
        obtain ⟨rfl, rfl⟩ := h
        refine ⟨Nat.mod_lt _ (by decide), hfree, s₁, hsame, ?_⟩
        simp only [setInfo, Function.update_self, Function.update_idem]
        cases type <;> rfl
      · rw [Outcome.ASSERT_neg hfree] at h
        exact absurd h (by simp)

/-- The `PageInfo` of a page table. -/
def tableInfo : PageInfo :=
  { ref := 1, flags := PG_KERNEL ||| PG_SINGLE ||| (PG_KERNEL ||| PG_LOCKED), extra := 0 }

theorem not_free_tableInfo : tableInfo.has PG_FREE = false := by decide

/-- A page for a page table is allocated, or there is none. -/
theorem allocatePageTable_spec {s s' : Kernel} {page : Nat} (h : s.allocatePageTable = .ret (page, s'))
    (hne : page ≠ 0) :
    page < 2 ^ 32 ∧ (s.pageinfos (PA2PGI page)).has PG_FREE = true ∧
      ∃ s₁, SamePools s s₁ ∧ s' = s₁.setInfo (PA2PGI page) tableInfo := by
  rw [allocatePageTable] at h
  obtain ⟨⟨page', s₂⟩, halloc, h⟩ := Outcome.bind_eq_ret h
  dsimp only at h
  by_cases hzero : page' = 0
  · rw [if_pos hzero] at h
    exact absurd (Prod.mk.inj (Outcome.ret.inj h)).1.symm hne
  · rw [if_neg hzero] at h
    obtain ⟨hlt, hfree, s₁, hsame, rfl⟩ := allocatePhysicalPages_spec halloc hzero
    have hinfo : (s₁.setInfo (PA2PGI page') (freshInfo .KERNEL)).pageinfos (PA2PGI page') =
        freshInfo .KERNEL := by simp [setInfo]
    have hinc : (freshInfo .KERNEL).incRef = .ret { freshInfo .KERNEL with ref := 1 } := by rfl
    simp only [hinfo, hinc, Outcome.ret_bind, Outcome.pure_eq, Outcome.ret.injEq, Prod.mk.injEq] at h
    obtain ⟨rfl, rfl⟩ := h
    refine ⟨hlt, hfree, s₁, hsame, ?_⟩
    simp only [setInfo, Function.update_idem]
    rfl

/-- There is a page table as soon as there is a page for it. -/
theorem allocatePageTable_of_page {s s' : Kernel} {page : Nat}
    (h : s.allocatePhysicalPages .KERNEL 1 = .ret (page, s')) (hne : page ≠ 0) :
    ∃ s'', s.allocatePageTable = .ret (page, s'') := by
  obtain ⟨-, -, s₁, -, rfl⟩ := allocatePhysicalPages_spec h hne
  have hinfo : (s₁.setInfo (PA2PGI page) (freshInfo .KERNEL)).pageinfos (PA2PGI page) =
      freshInfo .KERNEL := by simp [setInfo]
  have hinc : (freshInfo .KERNEL).incRef = .ret { freshInfo .KERNEL with ref := 1 } := by rfl
  rw [allocatePageTable, h, Outcome.ret_bind]
  dsimp only
  rw [if_neg hne, hinfo, hinc, Outcome.ret_bind]
  exact ⟨_, rfl⟩

theorem createProcessPageDirectory_of_page {s s' : Kernel} {page : Nat}
    (h : s.allocatePhysicalPages .KERNEL 1 = .ret (page, s')) (hne : page ≠ 0) :
    ∃ s'', s.createProcessPageDirectory = .ret (some (PA2PGI page), s'') := by
  obtain ⟨s₁, hs₁⟩ := allocatePageTable_of_page h hne
  rw [createProcessPageDirectory, hs₁, Outcome.ret_bind]
  dsimp only
  rw [if_neg hne]
  exact ⟨_, rfl⟩

end SysuOs.Kernel
