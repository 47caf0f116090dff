import Mathlib

/-! The memory that `MemoryManager::initialize` lays out: the arrays of its pools one after the other from
`RESERVED_MEMORY` on, then the page tables, and the two physical pools in what is left. -/

namespace SysuOs.BootLayout

/-! ### Regions one after the other -/

structure Region where
  start : ℤ
  size : ℤ

/-- Address `a` lies in the region. -/
def Region.Has (r : Region) (a : ℤ) : Prop := r.start ≤ a ∧ a < r.start + r.size

def Region.Apart (r r' : Region) : Prop := ∀ a, r.Has a → ¬r'.Has a

/-- Regions of the given sizes from `start` on. -/
def place (start : ℤ) : List ℤ → List Region
  | [] => []
  | size :: sizes => ⟨start, size⟩ :: place (start + size) sizes

theorem place_start {start : ℤ} {sizes : List ℤ} (h : ∀ size ∈ sizes, 0 ≤ size) :
    ∀ r ∈ place start sizes, start ≤ r.start := by
  induction sizes generalizing start with
  | nil => exact fun r hr => absurd hr List.not_mem_nil
  | cons size sizes ih =>
      intro r hr
      rcases List.mem_cons.mp hr with rfl | hr
      · exact le_rfl
      · have hsize := h size List.mem_cons_self
        have hrest := ih (fun s hs => h s (List.mem_cons_of_mem size hs)) r hr
        omega

theorem place_end {start : ℤ} {sizes : List ℤ} (h : ∀ size ∈ sizes, 0 ≤ size) :
    ∀ r ∈ place start sizes, r.start + r.size ≤ start + sizes.sum := by
  induction sizes generalizing start with
  | nil => exact fun r hr => absurd hr List.not_mem_nil
  | cons size sizes ih =>
      have hrest : ∀ s ∈ sizes, 0 ≤ s := fun s hs => h s (List.mem_cons_of_mem size hs)
      have hsum : 0 ≤ sizes.sum := List.sum_nonneg hrest
      intro r hr
      rw [List.sum_cons]
      rcases List.mem_cons.mp hr with rfl | hr
      · dsimp only
        omega
      · have hend := ih hrest r hr
        omega

theorem place_apart {start : ℤ} {sizes : List ℤ} (h : ∀ size ∈ sizes, 0 ≤ size) :
    (place start sizes).Pairwise Region.Apart := by
  induction sizes generalizing start with
  | nil => exact List.Pairwise.nil
  | cons size sizes ih =>
      have hrest : ∀ s ∈ sizes, 0 ≤ s := fun s hs => h s (List.mem_cons_of_mem size hs)
      refine List.Pairwise.cons (fun r hr a ha ha' => ?_) (ih hrest)
      have hstart := place_start hrest r hr
      have hend := ha.2
      have hbegin := ha'.1
      dsimp only at hend
      omega

/-! ### `MemoryManager::initialize` -/

def PAGE_SIZE : ℤ := 4096
def RESERVED_MEMORY : ℤ := 0x200000
def KERNEL_VIRTUAL_START : ℤ := 0xc0100000
def KERNEL_VA_BITMAP_SIZE : ℤ := 0x8000

/-- A value in a 32-bit `int`. It is written where a value may leave the range of `int`. -/
def int32 (n : ℤ) : ℤ := (n + 2 ^ 31) % 2 ^ 32 - 2 ^ 31

/-- `ALIGN(PAGE_SIZE, n)`. -/
def ALIGN (n : ℤ) : ℤ := int32 (n + 4095) / 4096 * 4096

/-- `ceil`. -/
def ceil (dividend divisor : ℤ) : ℤ := (dividend + divisor - 1).tdiv divisor

/-- `getTotalMemory`, `memory` being what the boot loader has stored: the number of kilobytes below 16 MB in its
low half, and that of 64 kilobytes above in its high one. -/
def getTotalMemory (memory : BitVec 32) : ℤ :=
  let low : ℤ := (memory &&& 0xffff).toNat
  let high : ℤ := ((memory >>> 16) &&& 0xffff).toNat
  int32 (low * 1024 + high * 64 * 1024)

/-- The parameters, computed before anything has its place. -/
structure Params where
  maxPages : ℤ
  totalPages : ℤ
  PAfreeNodeListSize : ℤ
  PAfreeNodeBitMapSize : ℤ
  PABitMapSize : ℤ
  VABitMapSize : ℤ
  VAPrevilegeSize : ℤ
  PageInfoSize : ℤ
  RMapNodeCount : ℤ
  RMapNodeListSize : ℤ
  RMapBitMapSize : ℤ
  deriving DecidableEq

def params (totalMemory : ℤ) : Params :=
  let maxPages := (ALIGN (totalMemory.tdiv 2)).tdiv PAGE_SIZE
  let totalPages := (ALIGN totalMemory).tdiv PAGE_SIZE
  let RMapNodeCount := (3 * totalPages).tdiv 2
  { maxPages
    totalPages
    PAfreeNodeListSize := ALIGN (maxPages * 16)
    PAfreeNodeBitMapSize := ALIGN ((maxPages + 7).tdiv 8)
    PABitMapSize := ALIGN ((maxPages + 7).tdiv 8)
    VABitMapSize := KERNEL_VA_BITMAP_SIZE
    VAPrevilegeSize := ALIGN (KERNEL_VA_BITMAP_SIZE * 8 * 1)
    PageInfoSize := ALIGN (totalPages * 8)
    RMapNodeCount
    RMapNodeListSize := ALIGN (RMapNodeCount * 16)
    RMapBitMapSize := ALIGN ((RMapNodeCount + 7).tdiv 8) }

/-- The arrays, at their physical addresses, and the pools. -/
structure Layout where
  kernelPAFreeNodeList : Region
  kernelPAFreeNodeBitMap : Region
  kernelPhysicalBitMap : Region
  userPAFreeNodeList : Region
  userPAFreeNodeBitMap : Region
  userPhysicalBitMap : Region
  kernelVirtualBitMap : Region
  kernelVirtualPrivilege : Region
  pageinfos : Region
  RMapNodeList : Region
  RMapBitMap : Region
  RMapNodeCount : ℤ
  totalPages : ℤ
  usedMemory : ℤ
  kernelPages : ℤ
  userPages : ℤ
  kernelPhysicalStartAddress : ℤ
  userPhysicalStartAddress : ℤ
  kernelVirtualPages : ℤ

def layout (totalMemory : ℤ) : Layout :=
  let p := params totalMemory
  let usedMemory := RESERVED_MEMORY
  let kernelPAFreeNodeListStart := usedMemory
  let usedMemory := usedMemory + p.PAfreeNodeListSize
  let kernelPAFreeNodeBitMapStart := usedMemory
  let usedMemory := usedMemory + p.PAfreeNodeBitMapSize
  let kernelPhysicalBitMapStart := usedMemory
  let usedMemory := usedMemory + p.PABitMapSize
  let userPAFreeNodeListStart := usedMemory
  let usedMemory := usedMemory + p.PAfreeNodeListSize
  let userPAFreeNodeBitMapStart := usedMemory
  let usedMemory := usedMemory + p.PAfreeNodeBitMapSize
  let userPhysicalBitMapStart := usedMemory
  let usedMemory := usedMemory + p.PABitMapSize
  let kernelVirtualBitMapStart := usedMemory
  let usedMemory := usedMemory + p.VABitMapSize
  let kernelVirtualPrivilegeStart := usedMemory
  let usedMemory := usedMemory + p.VAPrevilegeSize
  let pageinfosStart := usedMemory
  let usedMemory := usedMemory + p.PageInfoSize
  let RMapNodeListStart := usedMemory
  let usedMemory := usedMemory + p.RMapNodeListSize
  let RMapBitMapStart := usedMemory
  let usedMemory := usedMemory + p.RMapBitMapSize
  let PTE_table_start := usedMemory
  let PTEcount := (PTE_table_start - RESERVED_MEMORY).tdiv PAGE_SIZE
  let PDEcount := ceil PTEcount 1024
  let usedMemory := usedMemory + PDEcount * PAGE_SIZE
  -- the loop maps the arrays page by page, and takes the start of the virtual pool along
  let kernelVirtualStartAddress := KERNEL_VIRTUAL_START + max 0 PTEcount * PAGE_SIZE
  let freeMemory := int32 (totalMemory - usedMemory)
  let freePages := freeMemory.tdiv PAGE_SIZE
  let kernelPages := freePages.tdiv 2
  let userPages := freePages - kernelPages
  { kernelPAFreeNodeList := ⟨kernelPAFreeNodeListStart, p.PAfreeNodeListSize⟩
    kernelPAFreeNodeBitMap := ⟨kernelPAFreeNodeBitMapStart, p.PAfreeNodeBitMapSize⟩
    kernelPhysicalBitMap := ⟨kernelPhysicalBitMapStart, p.PABitMapSize⟩
    userPAFreeNodeList := ⟨userPAFreeNodeListStart, p.PAfreeNodeListSize⟩
    userPAFreeNodeBitMap := ⟨userPAFreeNodeBitMapStart, p.PAfreeNodeBitMapSize⟩
    userPhysicalBitMap := ⟨userPhysicalBitMapStart, p.PABitMapSize⟩
    kernelVirtualBitMap := ⟨kernelVirtualBitMapStart, p.VABitMapSize⟩
    kernelVirtualPrivilege := ⟨kernelVirtualPrivilegeStart, p.VAPrevilegeSize⟩
    pageinfos := ⟨pageinfosStart, p.PageInfoSize⟩
    RMapNodeList := ⟨RMapNodeListStart, p.RMapNodeListSize⟩
    RMapBitMap := ⟨RMapBitMapStart, p.RMapBitMapSize⟩
    RMapNodeCount := p.RMapNodeCount
    totalPages := p.totalPages
    usedMemory
    kernelPages
    userPages
    kernelPhysicalStartAddress := usedMemory
    userPhysicalStartAddress := usedMemory + kernelPages * PAGE_SIZE
    kernelVirtualPages := ceil (0xffffffff - kernelVirtualStartAddress) PAGE_SIZE }

namespace Layout

variable (l : Layout)

/-- The arrays in their order. -/
def arrays : List Region :=
  [l.kernelPAFreeNodeList, l.kernelPAFreeNodeBitMap, l.kernelPhysicalBitMap, l.userPAFreeNodeList,
    l.userPAFreeNodeBitMap, l.userPhysicalBitMap, l.kernelVirtualBitMap, l.kernelVirtualPrivilege, l.pageinfos,
    l.RMapNodeList, l.RMapBitMap]

/-- The pages of the kernel's physical pool. -/
def kernelPhysical : Region := ⟨l.kernelPhysicalStartAddress, l.kernelPages * PAGE_SIZE⟩

def userPhysical : Region := ⟨l.userPhysicalStartAddress, l.userPages * PAGE_SIZE⟩

/-- The arrays of a physical pool have room for its pages. Where it looks for the buddy of its last block,
`releaseBlock` reads the bit behind the last page. -/
structure PoolFits (pages : ℤ) (freeNodeList freeNodeBitMap bitMap : Region) : Prop where
  pages_nonneg : 0 ≤ pages
  nodes : pages * 16 ≤ freeNodeList.size
  nodeBits : pages ≤ 8 * freeNodeBitMap.size
  pageBits : pages + 1 ≤ 8 * bitMap.size

/-- The layout is sound: the arrays are apart, below the pools and large enough, and the pools are apart and
in the memory there is. -/
structure Sound (totalMemory : ℤ) : Prop where
  apart : l.arrays.Pairwise Region.Apart
  below : ∀ r ∈ l.arrays, ∀ a, r.Has a → a < l.kernelPhysical.start ∧ a < l.userPhysical.start
  kernelFits : PoolFits l.kernelPages l.kernelPAFreeNodeList l.kernelPAFreeNodeBitMap l.kernelPhysicalBitMap
  userFits : PoolFits l.userPages l.userPAFreeNodeList l.userPAFreeNodeBitMap l.userPhysicalBitMap
  virtualBits : l.kernelVirtualPages ≤ 8 * l.kernelVirtualBitMap.size
  privileges : l.kernelVirtualPages ≤ l.kernelVirtualPrivilege.size
  pageinfos : l.totalPages * 8 ≤ l.pageinfos.size
  usedPages : l.usedMemory / PAGE_SIZE ≤ l.totalPages
  poolPages : ∀ a, l.kernelPhysical.Has a ∨ l.userPhysical.Has a → a / PAGE_SIZE < l.totalPages
  nodes : l.RMapNodeCount * 16 ≤ l.RMapNodeList.size
  nodeBits : l.RMapNodeCount ≤ 8 * l.RMapBitMap.size
  kernelInside : ∀ a, l.kernelPhysical.Has a → l.usedMemory ≤ a ∧ a < totalMemory
  userInside : ∀ a, l.userPhysical.Has a → l.usedMemory ≤ a ∧ a < totalMemory
  poolsApart : l.kernelPhysical.Apart l.userPhysical

end Layout

/-! ### The sizes -/

theorem int32_eq {n : ℤ} (hmin : -2 ^ 31 ≤ n) (hmax : n < 2 ^ 31) : int32 n = n := by
  unfold int32
  omega

theorem ALIGN_eq {n : ℤ} (hmin : 0 ≤ n) (hmax : n ≤ 2 ^ 31 - 4096) : ALIGN n = (n + 4095) / 4096 * 4096 := by
  rw [ALIGN, int32_eq (by omega) (by omega)]

/-- The parameters where `ALIGN` stays in the range of `int`: `m` is half the memory in pages, `t` all of it. -/
theorem params_eq {totalMemory : ℤ} (hmin : 0 ≤ totalMemory) (hmax : totalMemory ≤ 2 ^ 31 - 4096) :
    ∃ m t, m = (totalMemory / 2 + 4095) / 4096 ∧ t = (totalMemory + 4095) / 4096 ∧
      params totalMemory =
        { maxPages := m
          totalPages := t
          PAfreeNodeListSize := (m * 16 + 4095) / 4096 * 4096
          PAfreeNodeBitMapSize := ((m + 7) / 8 + 4095) / 4096 * 4096
          PABitMapSize := ((m + 7) / 8 + 4095) / 4096 * 4096
          VABitMapSize := 0x8000
          VAPrevilegeSize := 0x40000
          PageInfoSize := (t * 8 + 4095) / 4096 * 4096
          RMapNodeCount := 3 * t / 2
          RMapNodeListSize := (3 * t / 2 * 16 + 4095) / 4096 * 4096
          RMapBitMapSize := ((3 * t / 2 + 7) / 8 + 4095) / 4096 * 4096 } := by
  refine ⟨_, _, rfl, rfl, ?_⟩
  have hm : (ALIGN (totalMemory.tdiv 2)).tdiv PAGE_SIZE = (totalMemory / 2 + 4095) / 4096 := by
    rw [Int.tdiv_eq_ediv_of_nonneg hmin, ALIGN_eq (by omega) (by omega), PAGE_SIZE,
      Int.mul_tdiv_cancel _ (by decide)]
  have ht : (ALIGN totalMemory).tdiv PAGE_SIZE = (totalMemory + 4095) / 4096 := by
    rw [ALIGN_eq hmin hmax, PAGE_SIZE, Int.mul_tdiv_cancel _ (by decide)]
  have hr : (3 * ((totalMemory + 4095) / 4096)).tdiv 2 = 3 * ((totalMemory + 4095) / 4096) / 2 :=
    Int.tdiv_eq_ediv_of_nonneg (by omega)
  have hm8 : ((totalMemory / 2 + 4095) / 4096 + 7).tdiv 8 = ((totalMemory / 2 + 4095) / 4096 + 7) / 8 :=
    Int.tdiv_eq_ediv_of_nonneg (by omega)
  have hr8 : (3 * ((totalMemory + 4095) / 4096) / 2 + 7).tdiv 8 =
      (3 * ((totalMemory + 4095) / 4096) / 2 + 7) / 8 :=
    Int.tdiv_eq_ediv_of_nonneg (by omega)
  rw [params]
  simp only [hm, ht, hr, hm8, hr8]
  congr 1 <;> refine ALIGN_eq ?_ ?_ <;> omega

/-- The sizes of the arrays in their order. -/
def Params.sizes (p : Params) : List ℤ :=
  [p.PAfreeNodeListSize, p.PAfreeNodeBitMapSize, p.PABitMapSize, p.PAfreeNodeListSize, p.PAfreeNodeBitMapSize,
    p.PABitMapSize, p.VABitMapSize, p.VAPrevilegeSize, p.PageInfoSize, p.RMapNodeListSize, p.RMapBitMapSize]

/-- `PTE_table_start`: the end of the arrays. -/
def tableStart (totalMemory : ℤ) : ℤ := RESERVED_MEMORY + (params totalMemory).sizes.sum

theorem arrays_eq (totalMemory : ℤ) :
    (layout totalMemory).arrays = place RESERVED_MEMORY (params totalMemory).sizes := rfl

theorem tableStart_eq (totalMemory : ℤ) :
    RESERVED_MEMORY + (params totalMemory).PAfreeNodeListSize
      + (params totalMemory).PAfreeNodeBitMapSize + (params totalMemory).PABitMapSize
      + (params totalMemory).PAfreeNodeListSize + (params totalMemory).PAfreeNodeBitMapSize
      + (params totalMemory).PABitMapSize + (params totalMemory).VABitMapSize
      + (params totalMemory).VAPrevilegeSize + (params totalMemory).PageInfoSize
      + (params totalMemory).RMapNodeListSize + (params totalMemory).RMapBitMapSize = tableStart totalMemory := by
  simp only [tableStart, Params.sizes, List.sum_cons, List.sum_nil]
  ring

theorem usedMemory_eq (totalMemory : ℤ) :
    (layout totalMemory).usedMemory = tableStart totalMemory +
      ceil ((tableStart totalMemory - RESERVED_MEMORY).tdiv PAGE_SIZE) 1024 * PAGE_SIZE := by
  rw [← tableStart_eq]
  rfl

/-- `kernelVirtual` begins behind the addresses that the arrays are mapped at. -/
theorem kernelVirtualPages_eq (totalMemory : ℤ) :
    (layout totalMemory).kernelVirtualPages =
      ceil (0xffffffff - (KERNEL_VIRTUAL_START
        + max 0 ((tableStart totalMemory - RESERVED_MEMORY).tdiv PAGE_SIZE) * PAGE_SIZE)) PAGE_SIZE := by
  rw [← tableStart_eq]
  rfl

/-- The arrays and page tables where `ALIGN` stays in the range of `int`. -/
theorem used_spec {totalMemory : ℤ} (hmin : 0x200000 ≤ totalMemory) (hmax : totalMemory ≤ 2 ^ 31 - 4096) :
    (599 * 4096 < totalMemory ↔ (layout totalMemory).usedMemory < totalMemory + 4096) ∧
      0x200000 ≤ (layout totalMemory).usedMemory ∧ (layout totalMemory).usedMemory ≤ 2 ^ 26 ∧
      (layout totalMemory).usedMemory % 4096 = 0 ∧
      tableStart totalMemory ≤ (layout totalMemory).usedMemory := by
  obtain ⟨m, t, hm, ht, hp⟩ := params_eq (by omega) hmax
  have hstart : tableStart totalMemory = 0x200000 + 2 * ((m * 16 + 4095) / 4096 * 4096)
      + 4 * (((m + 7) / 8 + 4095) / 4096 * 4096) + 0x48000 + (t * 8 + 4095) / 4096 * 4096
      + (3 * t / 2 * 16 + 4095) / 4096 * 4096 + ((3 * t / 2 + 7) / 8 + 4095) / 4096 * 4096 := by
    simp only [tableStart, Params.sizes, hp, List.sum_cons, List.sum_nil, RESERVED_MEMORY]
    ring
  have hused : (layout totalMemory).usedMemory = tableStart totalMemory +
      ((tableStart totalMemory - 0x200000) / 4096 + 1023) / 1024 * 4096 := by
    have hpages : (tableStart totalMemory - 0x200000).tdiv 4096 = (tableStart totalMemory - 0x200000) / 4096 :=
      Int.tdiv_eq_ediv_of_nonneg (by omega)
    have htables : ((tableStart totalMemory - 0x200000) / 4096 + 1024 - 1).tdiv 1024 =
        ((tableStart totalMemory - 0x200000) / 4096 + 1023) / 1024 := by
      rw [Int.tdiv_eq_ediv_of_nonneg (by omega)]
      omega
    rw [usedMemory_eq, ceil, PAGE_SIZE, RESERVED_MEMORY, hpages, htables]
  have hten : 514 ≤ t → t ≤ 682 → (layout totalMemory).usedMemory = 600 * 4096 := by
    intro hlow hhigh
    have h1 : (m * 16 + 4095) / 4096 = 2 := by omega
    have h2 : ((m + 7) / 8 + 4095) / 4096 = 1 := by omega
    have h3 : (t * 8 + 4095) / 4096 = 2 := by omega
    have h4 : (3 * t / 2 * 16 + 4095) / 4096 = 4 := by omega
    have h5 : ((3 * t / 2 + 7) / 8 + 4095) / 4096 = 1 := by omega
    rw [h1, h2, h3, h4, h5] at hstart
    omega
  refine ⟨?_, ?_, ?_, ?_, ?_⟩
  · by_cases hlow : 514 ≤ t
    · by_cases hhigh : t ≤ 682
      · have hused' := hten hlow hhigh
        omega
      · have hm' : m ≤ t / 2 + 1 := by omega
        have hsum : tableStart totalMemory ≤ 0x200000 + 2 * (m * 16 + 4095) + 4 * (m + 4095) + 0x48000
            + (t * 8 + 4095) + (t * 24 + 4095) + (t * 2 + 4095) := by omega
        omega
    · omega
  · omega
  · omega
  · omega
  · omega

/-! ### The pools -/

theorem tdiv_of_neg {a b : ℤ} (ha : a ≤ 0) : a.tdiv b = -(-a / b) := by
  have hneg : (-a).tdiv b = -a / b := Int.tdiv_eq_ediv_of_nonneg (by omega)
  rw [← hneg, Int.neg_tdiv, neg_neg]

/-- The two pools share the free pages, and that there are none to share shows in the user's pool. -/
theorem pages_spec {free : ℤ} :
    (-4096 < free ↔ 0 ≤ free.tdiv 4096 - (free.tdiv 4096).tdiv 2) ∧
      (-4096 < free → 0 ≤ (free.tdiv 4096).tdiv 2 ∧
        (free.tdiv 4096).tdiv 2 ≤ free.tdiv 4096 - (free.tdiv 4096).tdiv 2 ∧
        2 * (free.tdiv 4096 - (free.tdiv 4096).tdiv 2) ≤ free.tdiv 4096 + 1 ∧
        (free.tdiv 4096 = 0 ∨ 4096 * free.tdiv 4096 ≤ free)) := by
  by_cases hfree : 0 ≤ free
  · have hpages : free.tdiv 4096 = free / 4096 := Int.tdiv_eq_ediv_of_nonneg hfree
    have hhalf : (free / 4096).tdiv 2 = free / 4096 / 2 := Int.tdiv_eq_ediv_of_nonneg (by omega)
    rw [hpages, hhalf]
    omega
  · have hpages : free.tdiv 4096 = -(-free / 4096) := tdiv_of_neg (by omega)
    have hhalf : (-(-free / 4096)).tdiv 2 = -(-(-(-free / 4096)) / 2) := tdiv_of_neg (by omega)
    rw [hpages, hhalf]
    omega

theorem kernelVirtualPages_le (totalMemory : ℤ) : (layout totalMemory).kernelVirtualPages ≤ 0x40000 := by
  rw [kernelVirtualPages_eq, ceil, KERNEL_VIRTUAL_START, PAGE_SIZE]
  generalize (tableStart totalMemory - RESERVED_MEMORY).tdiv 4096 = x
  have hx : 0 ≤ max 0 x := le_max_left 0 x
  by_cases hpos : 0 ≤ (0xffffffff : ℤ) - (0xc0100000 + max 0 x * 4096) + 4096 - 1
  · rw [Int.tdiv_eq_ediv_of_nonneg hpos]
    omega
  · rw [tdiv_of_neg (by omega)]
    omega

variable {totalMemory : ℤ}

/-- Where `ALIGN` stays in the range of `int` and there is a page's room, the layout is sound. -/
theorem sound_of_room (hmin : 0x200000 ≤ totalMemory) (hmax : totalMemory ≤ 2 ^ 31 - 4096)
    (hroom : 599 * 4096 < totalMemory) : (layout totalMemory).Sound totalMemory := by
  obtain ⟨hiff, hlow, hhigh, hmod, htable⟩ := used_spec hmin hmax
  have hused := hiff.mp hroom
  obtain ⟨m, t, hm, ht, hp⟩ := params_eq (by omega) hmax
  generalize hu : (layout totalMemory).usedMemory = used at hlow hhigh hmod htable hused
  -- the pools
  have hint : int32 (totalMemory - used) = totalMemory - used := int32_eq (by omega) (by omega)
  obtain ⟨-, hpages⟩ := @pages_spec (totalMemory - used)
  obtain ⟨hk, hku, hhalf, hfree⟩ := hpages (by omega)
  generalize hf : (totalMemory - used).tdiv 4096 = f at hk hku hhalf hfree
  generalize hkp : f.tdiv 2 = k at hk hku hhalf
  have hkernelPages : (layout totalMemory).kernelPages = k := by
    rw [← hkp, ← hf, ← hint, ← hu]
    rfl
  have huserPages : (layout totalMemory).userPages = f - k := by
    rw [← hkernelPages, ← hf, ← hint, ← hu]
    rfl
  have hkernel : (layout totalMemory).kernelPhysical = ⟨used, k * 4096⟩ := by
    rw [← hkernelPages, ← hu]
    rfl
  have huser : (layout totalMemory).userPhysical = ⟨used + k * 4096, (f - k) * 4096⟩ := by
    rw [← huserPages, ← hkernelPages, ← hu]
    rfl
  -- the arrays
  have hsizes : ∀ size ∈ (params totalMemory).sizes, 0 ≤ size := by
    simp only [Params.sizes, hp, List.forall_mem_cons, List.not_mem_nil, false_imp_iff, implies_true, and_true]
    omega
  have hend : ∀ r ∈ (layout totalMemory).arrays, r.start + r.size ≤ used := by
    intro r hr
    rw [arrays_eq] at hr
    exact (place_end hsizes r hr).trans htable
  have hnodes : m * 16 ≤ (params totalMemory).PAfreeNodeListSize := by
    rw [hp]
    dsimp only
    omega
  have hbits : m ≤ 8 * (params totalMemory).PAfreeNodeBitMapSize := by
    rw [hp]
    dsimp only
    omega
  have hbits' : m ≤ 8 * (params totalMemory).PABitMapSize := by
    rw [hp]
    dsimp only
    omega
  have hmore : f - k < m := by omega
  have htotal : (params totalMemory).totalPages = t := congrArg Params.totalPages hp
  have hinside : ∀ a,
      ((layout totalMemory).kernelPhysical.Has a → used ≤ a ∧ a < totalMemory ∧ a < used + k * 4096) ∧
      ((layout totalMemory).userPhysical.Has a → used + k * 4096 ≤ a ∧ a < totalMemory) := by
    intro a
    rw [hkernel, huser]
    constructor
    · rintro ⟨hstart, hlast⟩
      dsimp only at hstart hlast
      omega
    · rintro ⟨hstart, hlast⟩
      dsimp only at hstart hlast
      omega
  have hfits : ∀ pages, 0 ≤ pages → pages ≤ f - k → ∀ r₁ r₂ r₃ : Region,
      r₁.size = (params totalMemory).PAfreeNodeListSize → r₂.size = (params totalMemory).PAfreeNodeBitMapSize →
      r₃.size = (params totalMemory).PABitMapSize → Layout.PoolFits pages r₁ r₂ r₃ := by
    intro pages hpages hle r₁ r₂ r₃ h₁ h₂ h₃
    exact ⟨hpages, by omega, by omega, by omega⟩
  exact
    { apart := by
        rw [arrays_eq]
        exact place_apart hsizes
      below := by
        intro r hr a ha
        have hlast := hend r hr
        have hbefore := ha.2
        rw [hkernel, huser]
        dsimp only
        omega
      kernelFits := by
        rw [hkernelPages]
        exact hfits k hk hku _ _ _ rfl rfl rfl
      userFits := by
        rw [huserPages]
        exact hfits (f - k) (by omega) le_rfl _ _ _ rfl rfl rfl
      virtualBits := kernelVirtualPages_le totalMemory
      privileges := by
        have hsize : (layout totalMemory).kernelVirtualPrivilege.size = 0x40000 :=
          congrArg Params.VAPrevilegeSize hp
        rw [hsize]
        exact kernelVirtualPages_le totalMemory
      pageinfos := by
        show (params totalMemory).totalPages * 8 ≤ (params totalMemory).PageInfoSize
        rw [hp]
        dsimp only
        omega
      usedPages := by
        show (layout totalMemory).usedMemory / 4096 ≤ (params totalMemory).totalPages
        rw [hu, htotal]
        omega
      poolPages := by
        intro a ha
        show a / 4096 < (params totalMemory).totalPages
        rw [htotal]
        have hlast : a < totalMemory := ha.elim (fun h => ((hinside a).1 h).2.1) fun h => ((hinside a).2 h).2
        omega
      nodes := by
        show (params totalMemory).RMapNodeCount * 16 ≤ (params totalMemory).RMapNodeListSize
        rw [hp]
        dsimp only
        omega
      nodeBits := by
        show (params totalMemory).RMapNodeCount ≤ 8 * (params totalMemory).RMapBitMapSize
        rw [hp]
        dsimp only
        omega
      kernelInside := by
        intro a ha
        rw [hu]
        exact ⟨((hinside a).1 ha).1, ((hinside a).1 ha).2.1⟩
      userInside := by
        intro a ha
        have hin := (hinside a).2 ha
        rw [hu]
        omega
      poolsApart := by
        intro a ha ha'
        have hbelow := ((hinside a).1 ha).2.2
        have habove := ((hinside a).2 ha').1
        omega }

/-- Less memory leaves a negative number of pages to the user's pool. -/
theorem userPages_neg (hmin : 0x200000 ≤ totalMemory) (hmax : totalMemory ≤ 599 * 4096) :
    (layout totalMemory).userPages < 0 := by
  obtain ⟨hiff, hlow, hhigh, -, -⟩ := used_spec hmin (by omega)
  have hint : int32 (totalMemory - (layout totalMemory).usedMemory) =
      totalMemory - (layout totalMemory).usedMemory := int32_eq (by omega) (by omega)
  have huser : (layout totalMemory).userPages =
      (int32 (totalMemory - (layout totalMemory).usedMemory)).tdiv 4096 -
        ((int32 (totalMemory - (layout totalMemory).usedMemory)).tdiv 4096).tdiv 2 := rfl
  rw [huser, hint]
  have hpages := (@pages_spec (totalMemory - (layout totalMemory).usedMemory)).1
  omega

/-- In the last page below 2 GB `ALIGN` leaves the range of `int`. -/
theorem params_overflow (hmin : 2 ^ 31 - 4096 < totalMemory) (hmax : totalMemory < 2 ^ 31) :
    params totalMemory =
      { maxPages := 262144
        totalPages := -524288
        PAfreeNodeListSize := 4194304
        PAfreeNodeBitMapSize := 32768
        PABitMapSize := 32768
        VABitMapSize := 0x8000
        VAPrevilegeSize := 0x40000
        PageInfoSize := -4194304
        RMapNodeCount := -786432
        RMapNodeListSize := -12582912
        RMapBitMapSize := -94208 } := by
  have hm : (ALIGN (totalMemory.tdiv 2)).tdiv PAGE_SIZE = 262144 := by
    have hhalf : totalMemory.tdiv 2 = totalMemory / 2 := Int.tdiv_eq_ediv_of_nonneg (by omega)
    rw [hhalf, ALIGN_eq (by omega) (by omega), PAGE_SIZE, Int.mul_tdiv_cancel _ (by decide)]
    omega
  have ht : (ALIGN totalMemory).tdiv PAGE_SIZE = -524288 := by
    have hwrapped : int32 (totalMemory + 4095) = totalMemory + 4095 - 2 ^ 32 := by
      unfold int32
      omega
    rw [ALIGN, hwrapped, PAGE_SIZE, Int.mul_tdiv_cancel _ (by decide)]
    omega
  rw [params]
  simp only [hm, ht]
  decide

theorem kernelPages_neg (hmin : 2 ^ 31 - 4096 < totalMemory) (hmax : totalMemory < 2 ^ 31) :
    (layout totalMemory).kernelPages < 0 := by
  have hstart : tableStart totalMemory = -5959680 := by
    rw [tableStart, params_overflow hmin hmax]
    decide
  have hused : (layout totalMemory).usedMemory = -5959680 := by
    rw [usedMemory_eq, hstart]
    decide
  have hint : int32 (totalMemory - (layout totalMemory).usedMemory) = totalMemory + 5959680 - 2 ^ 32 := by
    rw [hused]
    unfold int32
    omega
  have hkernel : (layout totalMemory).kernelPages =
      ((int32 (totalMemory - (layout totalMemory).usedMemory)).tdiv 4096).tdiv 2 := rfl
  have hpages : (totalMemory + 5959680 - 2 ^ 32).tdiv 4096 = -(-(totalMemory + 5959680 - 2 ^ 32) / 4096) :=
    tdiv_of_neg (by omega)
  rw [hkernel, hint, hpages, tdiv_of_neg (by omega)]
  omega

/-- The layout is sound just if the memory is larger than 599 pages, and no larger than the last multiple of a
page below 2 GB. -/
theorem sound_iff (hmin : 0x200000 ≤ totalMemory) (hmax : totalMemory < 2 ^ 31) :
    (layout totalMemory).Sound totalMemory ↔ 599 * 4096 < totalMemory ∧ totalMemory ≤ 2 ^ 31 - 4096 := by
  constructor
  · intro h
    constructor
    · by_contra hsmall
      have hneg := userPages_neg hmin (not_lt.mp hsmall)
      have hpages := h.userFits.pages_nonneg
      omega
    · by_contra hlarge
      have hneg := kernelPages_neg (not_le.mp hlarge) hmax
      have hpages := h.kernelFits.pages_nonneg
      omega
  · rintro ⟨hroom, hle⟩
    exact sound_of_room hmin hle hroom

/-- 32 MB. -/
theorem sound_iff_32MB : (layout 0x2000000).Sound 0x2000000 :=
  (sound_iff (by decide) (by decide)).mpr ⟨by decide, by decide⟩

/-- The smallest memory that passes the check, as the boot loader reports it. -/
theorem not_sound :
    getTotalMemory 0x800 = RESERVED_MEMORY ∧ ¬(layout RESERVED_MEMORY).Sound RESERVED_MEMORY := by
  refine ⟨by decide, fun h => ?_⟩
  have hneg : (layout RESERVED_MEMORY).userPages < 0 := userPages_neg (by decide) (by decide)
  have hpages := h.userFits.pages_nonneg
  omega

end SysuOs.BootLayout
