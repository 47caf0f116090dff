import SysuOs.BuddyRun

/-! How many pages `PAddressPool` hands out one by one: as many as `dump` counts. -/

namespace SysuOs

open Buddy Dyadic

namespace PAddressPool

/-- The pool hands out `k` pages one by one. An address is a `uint32`, and 0 stands for no page. -/
def Offers : Nat → PAddressPool → Prop
  | 0, _ => True
  | k + 1, p => ∃ address p', p.allocate 1 = (some address, p') ∧ address % 2 ^ 32 ≠ 0 ∧ Offers k p'

variable {p p' : PAddressPool} {address j k : Nat}

theorem offers_succ (h : p.allocate 1 = (some address, p')) (hne : address % 2 ^ 32 ≠ 0) (k : Nat) :
    p.Offers (k + 1) ↔ p'.Offers k := by
  constructor
  · rintro ⟨address', p'', hcall, -, hrest⟩
    obtain ⟨-, rfl⟩ := Prod.mk.inj (h.symm.trans hcall)
    exact hrest
  · exact fun hrest => ⟨address, p', h, hne, hrest⟩

theorem not_offers_of_none (h : p.allocate 1 = (none, p')) : ¬p.Offers 1 := by
  rintro ⟨address, p'', hcall, -⟩
  cases (Prod.mk.inj (h.symm.trans hcall)).1

theorem not_offers_of_zero (h : p.allocate 1 = (some address, p')) (hzero : address % 2 ^ 32 = 0) :
    ¬p.Offers 1 := by
  rintro ⟨address', p'', hcall, hne, -⟩
  obtain ⟨hsome, -⟩ := Prod.mk.inj (h.symm.trans hcall)
  exact hne (Option.some.inj hsome ▸ hzero)

theorem Offers.mono (h : p.Offers k) (hle : j ≤ k) : p.Offers j := by
  induction k generalizing p j with
  | zero =>
      obtain rfl := Nat.le_zero.mp hle
      trivial
  | succ k ih =>
      cases j with
      | zero => trivial
      | succ j =>
          obtain ⟨address, p', hcall, hne, hrest⟩ := h
          exact ⟨address, p', hcall, hne, ih hrest (Nat.le_of_succ_le_succ hle)⟩

/-- The buddy allocator hands out its free pages to the last one. -/
theorem offers_iff_dump {M : Nat → Prop} {total N : Nat} {F : Nat → List Nat} {live : List (Nat × Int)}
    (h : Inv M total N p.resources F live) (hstart : 0 < p.startAddress)
    (hend : p.startAddress + N * PAGE_SIZE ≤ 2 ^ 32) (k : Nat) : p.Offers k ↔ k ≤ p.dump := by
  induction k generalizing p F live with
  | zero => exact ⟨fun _ => Nat.zero_le _, fun _ => trivial⟩
  | succ k ih =>
      rw [dump_eq h.free]
      have horder : count2order 1 = 0 := by decide
      rcases h.allocate (le_refl (1 : Int)) with hnone | ⟨i, b, F', hsome, hinv⟩
      · -- every list is empty
        have hcall : p.allocate 1 = (none, p) := by rw [allocate, hnone]
        have hempty : pageCount F = 0 := by
          have hcount := h.count
          have htotal := h.total_le
          have hpages := h.totalPages
          rcases allocateBlockLoop_spec (MAX_ORDER + 2) 0 h.free h.blocks (by omega) (by omega) with
            ⟨-, hnil⟩ | ⟨s, b', F', hblock, -⟩
          · exact Finset.sum_eq_zero fun o _ => by rw [hnil o (Nat.zero_le o), List.length_nil, Nat.zero_mul]
          · rw [Buddy.allocate, horder, allocateBlock, hblock] at hnone
            cases (Prod.mk.inj hnone).1
        rw [hempty]
        refine ⟨fun hoffers => absurd (hoffers.mono (Nat.succ_pos k)) (not_offers_of_none hcall), fun hle => ?_⟩
        cases hle
      · have hcall : p.allocate 1 = (some (i * PAGE_SIZE + p.startAddress), { p with resources := b }) := by
          rw [allocate, hsome]
        have hbound := hinv.bound (i, 1) List.mem_cons_self
        have hcount := hinv.count
        have hcount₀ := h.count
        rw [liveCount_cons] at hcount
        rw [horder, pow_zero] at hbound hcount
        have hlt : i * PAGE_SIZE + PAGE_SIZE ≤ N * PAGE_SIZE := by
          rw [← Nat.succ_mul]
          exact Nat.mul_le_mul_right _ hbound
        have hpage : 0 < PAGE_SIZE := by decide
        have hne : (i * PAGE_SIZE + p.startAddress) % 2 ^ 32 ≠ 0 := by
          rw [Nat.mod_eq_of_lt (by omega)]
          omega
        rw [offers_succ hcall hne, ih (p := { p with resources := b }) hinv hstart hend,
          dump_eq (p := { p with resources := b }) hinv.free]
        omega

end PAddressPool

end SysuOs
