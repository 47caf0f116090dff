import Mathlib
import SysuOs.PagingRmap

/-! Address spaces: what page directories, page tables, reverse mappings and `PageInfo`s say about each
other whenever the kernel is not in the middle of changing them. -/

namespace SysuOs

/-- The number of pages below the kernel half. -/
def userPages : Nat := 768 * 1024

/-- The address of the entry `k` of the page table in `frame`. -/
def slotAddr (frame k : Nat) : Nat := frame * 4096 + k * 4

/-- The first address of the page behind the entry `k` of the page table behind the entry `i`. -/
def pageAddr (i k : Nat) : Nat := (i * 1024 + k) * 4096

theorem slotAddr_inj {f f' k k' : Nat} (hk : k < 1024) (hk' : k' < 1024)
    (h : slotAddr f k = slotAddr f' k') : f = f' ∧ k = k' := by
  simp only [slotAddr] at h
  omega

theorem pdeIdx_eq (vaddr : Nat) : pdeIdx vaddr = vaddr / 4096 / 1024 := by
  rw [pdeIdx, Nat.div_div_eq_div_mul]
  rfl

theorem pteIdx_eq (vaddr : Nat) : pteIdx vaddr = vaddr / 4096 % 1024 := rfl

theorem pdeIdx_page (n : Nat) : pdeIdx (n * 4096) = n / 1024 := by
  rw [pdeIdx_eq, Nat.mul_div_cancel _ (by decide)]

theorem pteIdx_page (n : Nat) : pteIdx (n * 4096) = n % 1024 := by
  rw [pteIdx_eq, Nat.mul_div_cancel _ (by decide)]

namespace Kernel

/-- The entry of a page in an address space, 0 if there is no page table for it. -/
def pageEntry (s : Kernel) (dir n : Nat) : Word :=
  if present (s.mem dir (n / 1024)) then s.mem (frameOf (s.mem dir (n / 1024))) (n % 1024) else 0#32

theorem pageEntry_of_present {s : Kernel} {dir n : Nat} (h : present (s.mem dir (n / 1024)) = true) :
    s.pageEntry dir n = s.mem (frameOf (s.mem dir (n / 1024))) (n % 1024) := if_pos h

theorem pageEntry_of_absent {s : Kernel} {dir n : Nat} (h : present (s.mem dir (n / 1024)) = false) :
    s.pageEntry dir n = 0#32 := if_neg (by simp [h])

/-- A page that is present has a page table. -/
theorem present_table {s : Kernel} {dir n : Nat} (h : present (s.pageEntry dir n) = true) :
    present (s.mem dir (n / 1024)) = true := by
  by_contra habsent
  rw [pageEntry_of_absent (by simpa using habsent)] at h
  simp at h

theorem pte_eq_pageEntry {s : Kernel} {dir vaddr : Nat} (h : present (s.pde dir vaddr) = true) :
    s.pte dir vaddr = s.pageEntry dir (vaddr / 4096) := by
  rw [pde, pdeIdx_eq] at h
  rw [pageEntry_of_present h, pte, table, pde, pdeIdx_eq, pteIdx_eq]
  rfl

end Kernel

open Kernel

/-- The page table in `frame` is one of a process that exists. -/
def Ghost.Live (g : Ghost) (frame pid i : Nat) : Prop :=
  g.role frame = .table pid i ∧ (g.dirs pid).isSome = true

/-- A reverse mapping is that of the entry `k` of the page table in `frame`, with the address the page
is mapped at if it knows it. -/
structure Targets (g : Ghost) (e : RMapEntry) (frame k : Nat) : Prop where
  lt : k < 1024
  table : ∃ pid i v, g.role frame = .table pid i ∧ i < 768 ∧ e.target = (slotAddr frame k, v, pid) ∧
    (v = PTE_ANON_VADDR ∨ v = toPTE (pageAddr i k))

/-- `listed` and `exclusive` hold as long as no reverse mapping is missing. -/
structure Spaces (s : Kernel) (g : Ghost) : Prop extends Chains s g where
  dir : ∀ q d, g.dirs q = some d → g.role d = .dir q
  table : ∀ q d, g.dirs q = some d → ∀ i, i < 768 → present (s.mem d i) = true →
    g.role (frameOf (s.mem d i)) = .table q i
  free : ∀ f, (s.pageinfos f).has PG_FREE = true → g.role f = .free
  page : ∀ frame q i, g.Live frame q i → ∀ k, k < 1024 → present (s.mem frame k) = true →
    g.role (frameOf (s.mem frame k)) = .page
  mapped : ∀ f, ∀ idx ∈ g.chain f, ∃ frame k, Targets g (s.rmapManager.RMapStart idx) frame k ∧
    present (s.mem frame k) = true ∧ frameOf (s.mem frame k) = f
  listed : s.rmapManager.attachFailed = false → ∀ frame q i, g.Live frame q i → ∀ k, k < 1024 →
    present (s.mem frame k) = true →
      ∃ idx ∈ g.chain (frameOf (s.mem frame k)), Targets g (s.rmapManager.RMapStart idx) frame k
  unique : ∀ f, ∀ idx ∈ g.chain f, ∀ j ∈ g.chain f,
    (s.rmapManager.RMapStart idx).ptePaddr = (s.rmapManager.RMapStart j).ptePaddr → idx = j
  exclusive : s.rmapManager.attachFailed = false → ∀ frame q i, g.Live frame q i → ∀ k, k < 1024 →
    present (s.mem frame k) = true → writable (s.mem frame k) = true →
      (g.chain (frameOf (s.mem frame k))).length = 1

namespace Targets

variable {g : Ghost} {e : RMapEntry} {frame k : Nat}

theorem ptePaddr (h : Targets g e frame k) : e.ptePaddr = slotAddr frame k := by
  obtain ⟨pid, i, v, -, -, htarget, -⟩ := h.table
  exact (Prod.mk.inj htarget).1

theorem mapsSlot (h : Targets g e frame k) {frame' k' : Nat} :
    MapsSlot e frame' k' ↔ frame' = frame ∧ k' = k := by
  have hlt := h.lt
  rw [MapsSlot, h.ptePaddr, slotAddr, PA2PGI]
  constructor
  · rintro ⟨rfl, rfl⟩
    omega
  · rintro ⟨rfl, rfl⟩
    omega

theorem congr {e' : RMapEntry} (h : Targets g e frame k) (he : e'.target = e.target) :
    Targets g e' frame k :=
  ⟨h.lt, by rw [he]; exact h.table⟩

theorem mono {g' : Ghost} (h : Targets g e frame k) (hrole : g'.role frame = g.role frame) :
    Targets g' e frame k :=
  ⟨h.lt, by rw [hrole]; exact h.table⟩

theorem setChain (h : Targets g e frame k) (f : Nat) (l : List Nat) : Targets (g.setChain f l) e frame k :=
  h.mono rfl

end Targets

namespace Spaces

variable {s s' : Kernel} {g : Ghost}

/-- Address spaces are made of memory, reverse mappings and `PageInfo`s. -/
theorem congr (h : Spaces s g) (hmem : s'.mem = s.mem) (hr : s'.rmapManager = s.rmapManager)
    (hpi : s'.pageinfos = s.pageinfos) : Spaces s' g where
  toChains := h.toChains.congr hr hpi
  dir := h.dir
  table := by rw [hmem]; exact h.table
  free := by rw [hpi]; exact h.free
  page := by rw [hmem]; exact h.page
  mapped := by rw [hmem, hr]; exact h.mapped
  listed := by rw [hmem, hr]; exact h.listed
  unique := by rw [hr]; exact h.unique
  exclusive := by rw [hmem, hr]; exact h.exclusive

/-- The page table of a page of a process. -/
theorem live (h : Spaces s g) {q d n : Nat} (hdir : g.dirs q = some d) (hn : n < userPages)
    (htable : present (s.mem d (n / 1024)) = true) : g.Live (frameOf (s.mem d (n / 1024))) q (n / 1024) := by
  refine ⟨h.table q d hdir _ ?_ htable, by simp [hdir]⟩
  rw [userPages] at hn
  omega

theorem page_of_entry (h : Spaces s g) {q d n : Nat} (hdir : g.dirs q = some d) (hn : n < userPages)
    (hpresent : present (s.pageEntry d n) = true) : g.role (frameOf (s.pageEntry d n)) = .page := by
  have htable := present_table hpresent
  rw [pageEntry_of_present htable] at hpresent ⊢
  exact h.page _ q _ (h.live hdir hn htable) _ (Nat.mod_lt _ (by decide)) hpresent

/-- Two processes have no page directory in common. -/
theorem dir_inj (h : Spaces s g) {q q' d : Nat} (hdir : g.dirs q = some d) (hdir' : g.dirs q' = some d) :
    q = q' :=
  Role.dir.inj ((h.dir q d hdir).symm.trans (h.dir q' d hdir'))

end Spaces

end SysuOs
