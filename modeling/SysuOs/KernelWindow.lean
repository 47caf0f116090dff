import Mathlib
import SysuOs.BootLayout
import SysuOs.ExpandHeap

/-! The kernel's virtual pages and the page-table window. `toPDE` and `toPTE` reach the page tables through the
last 4 MB of the address space, and `kernelVirtual`, as `MemoryManager::initialize` sets it up, goes on to
0xffffffff: a range it hands out may lie over them. -/

namespace SysuOs

namespace KernelWindow

/-! ### `MemoryManager::initialize` -/

/-- What `initialize` reserves from `RESERVED_MEMORY` on, up to the page tables: the lists and bitmaps of the
two physical pools, the bitmap and the privileges of the virtual one, the `PageInfo`s and the `RMapEntry`s. -/
def reservedSize (totalMemory : Nat) : Nat :=
  let maxPages := align (totalMemory / 2) / 4096
  let totalPages := align totalMemory / 4096
  let PAfreeNodeListSize := align (maxPages * 16)
  let PAfreeNodeBitMapSize := align ((maxPages + 7) / 8)
  let PABitMapSize := align ((maxPages + 7) / 8)
  let VABitMapSize := 0x8000
  let VAPrevilegeSize := align (0x8000 * 8 * 1)
  let PageInfoSize := align (totalPages * 8)
  let RMapNodeCount := 3 * totalPages / 2
  let RMapNodeListSize := align (RMapNodeCount * 16)
  let RMapBitMapSize := align ((RMapNodeCount + 7) / 8)
  2 * (PAfreeNodeListSize + PAfreeNodeBitMapSize + PABitMapSize) + VABitMapSize + VAPrevilegeSize
    + PageInfoSize + RMapNodeListSize + RMapBitMapSize

/-- `kernelVirtualStartAddress`, which goes a page further for every reserved page. -/
def kernelVirtualStart (totalMemory : Nat) : Nat := 0xc0100000 + reservedSize totalMemory / 4096 * 4096

/-- `kernelVirtualPages`. -/
def kernelVirtualPages (totalMemory : Nat) : Nat := (0xffffffff - kernelVirtualStart totalMemory + 4095) / 4096

/-- `kernelVirtual` after `initialize`, with the page for `mapTemp` taken. -/
def kernelVirtual (totalMemory : Nat) : VAddressPool where
  length := kernelVirtualPages totalMemory
  resources := BitMap.set ⟨fun _ => 0#8, kernelVirtualPages totalMemory⟩ 0 true
  startAddress := kernelVirtualStart totalMemory
  endAddress := 0xffffffff
  privileges := fun _ => 0#8
  isStatic := false
  staticPrivilege := VP_RW ||| VP_USER

/-! ### Runs -/

/-- A range that `allocate` has returned, with the pool as it was before. -/
structure Grant where
  before : VAddressPool
  address : Nat
  count : Nat

/-- Page `n` is one of `count` pages from an address on. -/
def InRange (address count n : Nat) : Prop := address / 4096 ≤ n ∧ n < address / 4096 + count

/-- What the kernel may do with the pool: the pool, the pages that are allocated, and all the ranges that
`allocate` has returned. Any pages that are allocated may be released. -/
inductive Run (totalMemory : Nat) : VAddressPool → (Nat → Prop) → List Grant → Prop
  | fresh : Run totalMemory (kernelVirtual totalMemory) (fun _ => False) []
  | allocate {p p' held grants fuel count privilege address} : Run totalMemory p held grants →
      p.allocateInt fuel count privilege = .ret (address, p') → address ≠ BitVec.ofInt 32 (-1) →
      Run totalMemory p' (fun n => held n ∨ InRange address.toNat count.toNat n)
        (⟨p, address.toNat, count.toNat⟩ :: grants)
  | refuse {p p' held grants fuel count privilege} : Run totalMemory p held grants →
      p.allocateInt fuel count privilege = .ret (BitVec.ofInt 32 (-1), p') → Run totalMemory p' held grants
  | release {p held grants address count} : Run totalMemory p held grants →
      (∀ n, InRange address count n → held n) →
      Run totalMemory (p.release address count) (fun n => held n ∧ ¬InRange address count n) grants

/-- No address of the range is in the window of `toPDE` and `toPTE` or in the page of `mapTemp`. -/
def Grant.Avoids (totalMemory : Nat) (g : Grant) : Prop :=
  ∀ a, g.address ≤ a → a < g.address + g.count * 4096 →
    ¬(0xffc00000 ≤ a ∧ a < 2 ^ 32) ∧
      ¬(kernelVirtualStart totalMemory ≤ a ∧ a < kernelVirtualStart totalMemory + 4096)

/-- Before the call there were as many free pages in a row below the window. -/
def Grant.RoomBelow (g : Grant) : Prop :=
  ∃ s, g.before.resources.Fits g.count s ∧ g.before.startAddress + (s + g.count) * 4096 ≤ 0xffc00000

/-! ### What a call does -/

section Pool

variable {p p' : VAddressPool} {fuel : Nat} {count : Int} {privilege : Byte} {address : Word}

/-- `VAddressPool::allocate` returns the first window that fits, or -1 and leaves the bits as they were. -/
theorem allocateInt_cases (h : p.allocateInt fuel count privilege = .ret (address, p')) :
    (address = BitVec.ofInt 32 (-1) ∧ p' = p) ∨ ∃ n s : Nat, count = (n : Int) ∧ 1 ≤ n ∧
      IsLeast {s | p.resources.Fits n s} s ∧ address = BitVec.ofNat 32 (s * 4096 + p.startAddress) ∧
      p'.resources = p.resources.setRange s n true ∧ p'.startAddress = p.startAddress := by
  obtain ⟨⟨start, resources⟩, hres, hret⟩ := Outcome.bind_eq_ret h
  obtain heq | ⟨n, s, hcount, hn, heq, hs⟩ := BitMap.allocateInt_cases hres
  · obtain ⟨rfl, rfl⟩ := Prod.mk.inj heq
    obtain ⟨rfl, rfl⟩ := Prod.mk.inj (Outcome.ret.inj hret)
    exact Or.inl ⟨rfl, rfl⟩
  · obtain ⟨rfl, rfl⟩ := Prod.mk.inj heq
    obtain ⟨rfl, rfl⟩ := Prod.mk.inj (Outcome.ret.inj hret)
    exact Or.inr ⟨n, s, hcount, hn, hs, rfl, rfl, rfl⟩

end Pool

/-! ### The sizes -/

theorem align_le (n : Nat) : align n ≤ n + 4095 := Nat.div_mul_le_self _ _

/-- The reserved memory of a machine with less than 2 GB takes less than 64 MB. -/
theorem reservedSize_le {totalMemory : Nat} (h : totalMemory ≤ 2 ^ 31 - 4096) :
    reservedSize totalMemory < 2 ^ 26 := by
  have hmax : align (totalMemory / 2) / 4096 ≤ 2 ^ 18 := by
    have hle := align_le (totalMemory / 2)
    omega
  have htotal : align totalMemory / 4096 ≤ 2 ^ 19 := by
    have hle := align_le totalMemory
    omega
  dsimp only [reservedSize]
  generalize align (totalMemory / 2) / 4096 = maxPages at hmax
  generalize align totalMemory / 4096 = totalPages at htotal
  have h₁ := align_le (maxPages * 16)
  have h₂ := align_le ((maxPages + 7) / 8)
  have h₃ := align_le (0x8000 * 8 * 1)
  have h₄ := align_le (totalPages * 8)
  have h₅ := align_le (3 * totalPages / 2 * 16)
  have h₆ := align_le ((3 * totalPages / 2 + 7) / 8)
  omega

/-- The reserved memory is that of the arrays in the layout of the memory. -/
theorem tableStart_eq {totalMemory : Nat} (h : totalMemory ≤ 2 ^ 31 - 4096) :
    BootLayout.tableStart totalMemory = BootLayout.RESERVED_MEMORY + reservedSize totalMemory := by
  obtain ⟨m, t, hm, ht, hp⟩ := BootLayout.params_eq (Int.natCast_nonneg totalMemory) (by omega)
  have hm' : (((totalMemory / 2 + 4095) / 4096 : Nat) : ℤ) = m := by omega
  have ht' : (((totalMemory + 4095) / 4096 : Nat) : ℤ) = t := by omega
  simp only [BootLayout.tableStart, BootLayout.Params.sizes, hp, List.sum_cons, List.sum_nil, reservedSize, align,
    Nat.mul_div_cancel _ (by decide : 0 < 4096)]
  rw [← hm', ← ht']
  push_cast
  ring

/-- The layout of the memory has as many pages for `kernelVirtual`. -/
theorem kernelVirtualPages_layout {totalMemory : Nat} (h : totalMemory ≤ 2 ^ 31 - 4096) :
    (BootLayout.layout totalMemory).kernelVirtualPages = kernelVirtualPages totalMemory := by
  have hsize := reservedSize_le h
  have hpages : (BootLayout.tableStart totalMemory - BootLayout.RESERVED_MEMORY).tdiv BootLayout.PAGE_SIZE =
      reservedSize totalMemory / 4096 := by
    rw [tableStart_eq h, add_sub_cancel_left, BootLayout.PAGE_SIZE, Int.tdiv_eq_ediv_of_nonneg (by omega)]
  rw [BootLayout.kernelVirtualPages_eq, hpages, BootLayout.ceil, BootLayout.PAGE_SIZE,
    BootLayout.KERNEL_VIRTUAL_START, Int.tdiv_eq_ediv_of_nonneg (by omega), kernelVirtualPages, kernelVirtualStart]
  omega

/-- `initialize` begins `kernelVirtual` at a page boundary well below the window. -/
theorem kernelVirtualStart_spec {totalMemory : Nat} (h : totalMemory ≤ 2 ^ 31 - 4096) :
    kernelVirtualStart totalMemory % 4096 = 0 ∧ kernelVirtualStart totalMemory < 0xd0000000 ∧
      kernelVirtualStart totalMemory + kernelVirtualPages totalMemory * 4096 = 2 ^ 32 := by
  have hsize := reservedSize_le h
  rw [kernelVirtualPages, kernelVirtualStart]
  omega

/-! ### What holds in a run -/

/-- What every call leaves: the page of `mapTemp` is taken, and no caller holds it. -/
structure Kept (totalMemory : Nat) (p : VAddressPool) (held : Nat → Prop) : Prop where
  startAddress : p.startAddress = kernelVirtualStart totalMemory
  length : p.resources.length = kernelVirtualPages totalMemory
  temp : p.resources.get 0 = true
  above : ∀ n, held n → kernelVirtualStart totalMemory / 4096 < n

section Runs

variable {totalMemory : Nat} {p p' : VAddressPool} {held : Nat → Prop} {grants : List Grant} {fuel n s : Nat}
  {count : Int} {privilege : Byte} {address : Word}

theorem Kept.fresh : Kept totalMemory (kernelVirtual totalMemory) fun _ => False where
  startAddress := rfl
  length := rfl
  temp := (BitMap.get_set _ 0 0 true).trans (if_pos rfl)
  above := fun _ h => h.elim

/-- A range that fits begins after the page of `mapTemp`, and its address is a `uint32`. -/
theorem Kept.fits (h : Kept totalMemory p held) (hmax : totalMemory ≤ 2 ^ 31 - 4096) (hn : 1 ≤ n)
    (hfits : p.resources.Fits n s) :
    1 ≤ s ∧ (BitVec.ofNat 32 (s * 4096 + p.startAddress)).toNat = s * 4096 + kernelVirtualStart totalMemory := by
  have hlast := (hfits (s + n - 1) (by omega) (by omega)).1
  obtain ⟨-, -, hend⟩ := kernelVirtualStart_spec hmax
  constructor
  · by_contra hzero
    have hfree := (hfits 0 (by omega) (by omega)).2
    rw [h.temp] at hfree
    cases hfree
  · rw [BitVec.toNat_ofNat, h.startAddress]
    have hlength := h.length
    exact Nat.mod_eq_of_lt (by omega)

theorem Kept.allocate (h : Kept totalMemory p held) (hmax : totalMemory ≤ 2 ^ 31 - 4096)
    (hcall : p.allocateInt fuel count privilege = .ret (address, p')) (hne : address ≠ BitVec.ofInt 32 (-1)) :
    Kept totalMemory p' fun n => held n ∨ InRange address.toNat count.toNat n := by
  obtain ⟨heq, -⟩ | ⟨n, s, -, hn, hleast, rfl, hresources, hstart⟩ := allocateInt_cases hcall
  · exact absurd heq hne
  · obtain ⟨hs, haddress⟩ := h.fits hmax hn hleast.1
    obtain ⟨haligned, -, -⟩ := kernelVirtualStart_spec hmax
    refine ⟨hstart.trans h.startAddress, ?_, ?_, ?_⟩
    · rw [hresources, BitMap.setRange_length, h.length]
    · rw [hresources, BitMap.get_setRange, h.temp, ite_self]
    · rintro k (hk | ⟨hk, -⟩)
      · exact h.above k hk
      · rw [haddress] at hk
        omega

theorem Kept.refuse (h : Kept totalMemory p held) (hmax : totalMemory ≤ 2 ^ 31 - 4096)
    (hcall : p.allocateInt fuel count privilege = .ret (BitVec.ofInt 32 (-1), p')) : Kept totalMemory p' held := by
  obtain ⟨-, rfl⟩ | ⟨n, s, -, hn, hleast, heq, -⟩ := allocateInt_cases hcall
  · exact h
  · -- an address is a multiple of the page size, and -1 is not
    obtain ⟨-, haddress⟩ := h.fits hmax hn hleast.1
    obtain ⟨haligned, -, -⟩ := kernelVirtualStart_spec hmax
    rw [← heq, show (BitVec.ofInt 32 (-1)).toNat = 2 ^ 32 - 1 from rfl] at haddress
    omega

theorem Kept.release {address count : Nat} (h : Kept totalMemory p held) (hmax : totalMemory ≤ 2 ^ 31 - 4096)
    (hheld : ∀ n, InRange address count n → held n) :
    Kept totalMemory (p.release address count) fun n => held n ∧ ¬InRange address count n where
  startAddress := h.startAddress
  length := (BitMap.setRange_length _ _ _ _).trans h.length
  temp := by
    obtain ⟨haligned, -, -⟩ := kernelVirtualStart_spec hmax
    have hget := p.resources.get_setRange ((address - p.startAddress) / 4096) count false 0
    rw [if_neg] at hget
    · exact hget.trans h.temp
    · rintro ⟨hzero, hpos⟩
      have habove := h.above _ (hheld (address / 4096) ⟨le_refl _, by omega⟩)
      rw [h.startAddress] at hzero
      omega
  above := fun n hn => h.above n hn.1

theorem Run.kept (hmax : totalMemory ≤ 2 ^ 31 - 4096) (h : Run totalMemory p held grants) :
    Kept totalMemory p held := by
  induction h with
  | fresh => exact Kept.fresh
  | allocate _ hcall hne ih => exact ih.allocate hmax hcall hne
  | refuse _ hcall ih => exact ih.refuse hmax hcall
  | release _ hheld ih => exact ih.release hmax hheld

/-- The range that is handed out avoids the window if and only if some range below would do: the first that fits
is the lowest. -/
theorem Kept.avoids_iff (h : Kept totalMemory p held) (hmax : totalMemory ≤ 2 ^ 31 - 4096)
    (hcall : p.allocateInt fuel count privilege = .ret (address, p')) (hne : address ≠ BitVec.ofInt 32 (-1)) :
    Grant.Avoids totalMemory ⟨p, address.toNat, count.toNat⟩ ↔
      Grant.RoomBelow ⟨p, address.toNat, count.toNat⟩ := by
  obtain ⟨heq, -⟩ | ⟨n, s, rfl, hn, hleast, rfl, -⟩ := allocateInt_cases hcall
  · exact absurd heq hne
  · obtain ⟨hs, haddress⟩ := h.fits hmax hn hleast.1
    have hlast := (hleast.1 (s + n - 1) (by omega) (by omega)).1
    obtain ⟨-, hlow, hend⟩ := kernelVirtualStart_spec hmax
    have hlength := h.length
    rw [Grant.Avoids, Grant.RoomBelow, haddress, h.startAddress, Int.toNat_natCast]
    dsimp only
    constructor
    · intro havoids
      refine ⟨s, hleast.1, ?_⟩
      by_contra hover
      have hwindow := (havoids (max (s * 4096 + kernelVirtualStart totalMemory) 0xffc00000)
        (le_max_left _ _) (by omega)).1
      exact hwindow (by omega)
    · rintro ⟨s', hfits, hbelow⟩ a hfrom hto
      have hle : s ≤ s' := hleast.2 hfits
      exact ⟨fun hwindow => by omega, fun htemp => by omega⟩

end Runs

/-- In every run from `initialize` on, all the ranges handed out avoid the page-table window and the page of
`mapTemp` if and only if each time there was room for the range below the window. -/
theorem avoids_iff_roomBelow {totalMemory : Nat} (hmax : totalMemory ≤ 2 ^ 31 - 4096) {p : VAddressPool}
    {held : Nat → Prop} {grants : List Grant} (h : Run totalMemory p held grants) :
    (∀ g, g ∈ grants → g.Avoids totalMemory) ↔ ∀ g, g ∈ grants → g.RoomBelow := by
  induction h with
  | fresh => simp
  | allocate hrun hcall hne ih =>
      simp only [List.forall_mem_cons]
      exact and_congr ((hrun.kept hmax).avoids_iff hmax hcall hne) ih
  | refuse _ _ ih => exact ih
  | release _ _ ih => exact ih

/-! ### A first allocation -/

/-- In the pool that `initialize` sets up, any number of pages but all of them fits after the first. -/
theorem kernelVirtual_fits {totalMemory n : Nat} (hn : n < kernelVirtualPages totalMemory) :
    (kernelVirtual totalMemory).resources.Fits n 1 := by
  intro j hj hj'
  refine ⟨show j < kernelVirtualPages totalMemory by omega, ?_⟩
  rw [kernelVirtual, BitMap.get_set, if_neg (by omega)]
  simp [BitMap.get, getMap]

theorem run_first {totalMemory n : Nat} (hmax : totalMemory ≤ 2 ^ 31 - 4096) (hn : 1 ≤ n)
    (hlt : n < kernelVirtualPages totalMemory) :
    ∃ p held, Run totalMemory p held
      [⟨kernelVirtual totalMemory, kernelVirtualStart totalMemory + 4096, n⟩] := by
  have hkept : Kept totalMemory (kernelVirtual totalMemory) fun _ => False := Kept.fresh
  have hret := (kernelVirtual totalMemory).resources.allocateInt_ofNat n
  obtain ⟨s, heq, hs⟩ | ⟨-, hnone⟩ := (kernelVirtual totalMemory).resources.allocateIn_cases hn false
  · obtain ⟨hpos, haddress⟩ := hkept.fits hmax hn hs.fits
    have hone : s = 1 := le_antisymm ((show IsLeast _ s from hs).2 (kernelVirtual_fits hlt)) hpos
    subst hone
    obtain ⟨haligned, hlow, -⟩ := kernelVirtualStart_spec hmax
    rw [show (kernelVirtual totalMemory).resources.allocate n = _ from heq] at hret
    have hcall : ∃ p', (kernelVirtual totalMemory).allocateInt
        ((kernelVirtual totalMemory).resources.length + 1) n 0#8 =
          .ret (BitVec.ofNat 32 (1 * 4096 + (kernelVirtual totalMemory).startAddress), p') := by
      rw [VAddressPool.allocateInt, hret]
      exact ⟨_, rfl⟩
    obtain ⟨p', hcall⟩ := hcall
    have hrun := Run.allocate Run.fresh hcall fun hminus => by
      rw [hminus, show (BitVec.ofInt 32 (-1)).toNat = 2 ^ 32 - 1 from rfl] at haddress
      omega
    rw [haddress, Int.toNat_natCast, Nat.one_mul, Nat.add_comm 4096] at hrun
    exact ⟨_, _, hrun⟩
  · exact absurd (kernelVirtual_fits hlt) (hnone 1)

/-- On a machine with 128 MB a first range of one page. -/
theorem avoids_iff_roomBelow_page :
    ∃ p held, Run (2 ^ 27) p held [⟨kernelVirtual (2 ^ 27), kernelVirtualStart (2 ^ 27) + 4096, 1⟩] ∧
      Grant.Avoids (2 ^ 27) ⟨kernelVirtual (2 ^ 27), kernelVirtualStart (2 ^ 27) + 4096, 1⟩ := by
  obtain ⟨p, held, hrun⟩ := @run_first (2 ^ 27) 1 (by decide) (le_refl 1) (by decide)
  have havoids := (avoids_iff_roomBelow (by decide) hrun).mpr
  refine ⟨p, held, hrun, havoids (fun g hg => ?_) _ (List.mem_singleton.mpr rfl)⟩
  rw [List.mem_singleton.mp hg]
  exact ⟨1, kernelVirtual_fits (by decide), by decide⟩

/-- On the same machine a first range of all the other pages lies over the page tables. -/
theorem not_avoids : ¬∀ totalMemory p held grants, totalMemory ≤ 2 ^ 31 - 4096 →
    Run totalMemory p held grants → ∀ g, g ∈ grants → g.Avoids totalMemory := by
  intro h
  obtain ⟨p, held, hrun⟩ :=
    @run_first (2 ^ 27) (kernelVirtualPages (2 ^ 27) - 1) (by decide) (by decide) (by decide)
  have havoids := h (2 ^ 27) p held _ (by decide) hrun _ (List.mem_singleton.mpr rfl)
  exact (havoids 0xffc00000 (by decide) (by decide)).1 (by decide)

end KernelWindow

end SysuOs
