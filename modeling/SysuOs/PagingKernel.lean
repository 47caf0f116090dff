import SysuOs.PagingPages

/-! The pages of the kernel: `allocatePages` with the kernel pools, and the two users of it in `fork`, the
page directory of a process and the bitmaps and privileges of its address pools. -/

namespace SysuOs

/-- `VAddressPool::allocate` from the front. -/
def VAddressPool.allocate (p : VAddressPool) (count : Nat) (privilege : Byte) : Option Nat × VAddressPool :=
  match p.resources.allocate count with
  | (none, resources) => (none, { p with resources })
  | (some start, resources) =>
      (some (start * 4096 + p.startAddress),
        { p with
          resources
          privileges := fun idx => if !p.isStatic && start ≤ idx && idx < start + count then privilege
            else p.privileges idx })

namespace Kernel

/-! ### `allocatePages` -/

/-- `allocateVirtualPages`, from the kernel pool; 0 if there are none. -/
def allocateVirtualPages (s : Kernel) (count : Nat) (flag : Byte) : Nat × Kernel :=
  match s.kernelVirtual.allocate count flag with
  | (none, p) => (0, { s with kernelVirtual := p })
  | (some start, p) => (start, { s with kernelVirtual := p })

/-- The loop of `allocatePages`, with `n` of the `count` pages from `start` on left. -/
def allocatePagesLoop (start count : Nat) : Nat → Kernel → Outcome (Nat × Kernel)
  | 0, s => return (start, s)
  | n + 1, s => do
      let i := count - (n + 1)
      let vaddr := start + i * 4096
      let (paddr, s) ← s.allocatePhysicalPages .KERNEL 1
      let (flag, s) ← if paddr ≠ 0 then s.connectPhysicalVirtualPage vaddr paddr else .ret (false, s)
      if flag then allocatePagesLoop start count n s
      else do
        let s ← s.releasePages .KERNEL start i .EMPTY
        let s ← s.releaseVirtualPages .KERNEL vaddr (count - i) .EMPTY
        return (0, s)

/-- `allocatePages` from the kernel pools. -/
def allocatePages (s : Kernel) (count : Nat) (flag : Byte) : Outcome (Nat × Kernel) :=
  let (vaddr, s) := s.allocateVirtualPages count flag
  if vaddr = 0 then .ret (0, s) else allocatePagesLoop vaddr count count s

/-! ### What `fork` allocates -/

/-- `allocatePageDirTable`: the page is attached to the process it is for. -/
def allocatePageDirTable (s : Kernel) (owner : Nat) : Outcome (Nat × Kernel) := do
  let (vaddr, s) ← s.allocatePages 1 VP_RW
  if vaddr = 0 then return (0, s)
  else do
    let pgi := PA2PGI (getAddress (s.pte s.cr3 vaddr))
    let (found, s) ← s.detach pgi (s.toPTEpa vaddr) s.runningPid
    Outcome.ASSERT (found = true)
    let (_, s) ← s.attach pgi (s.toPTEpa vaddr) (toPTE vaddr) owner
    return (vaddr, s.setInfo pgi ((s.pageinfos pgi).setFlag (PG_KERNEL ||| PG_LOCKED)))

/-- `createProcessPageDirectory`, with the kernel address of the page. -/
def createPageDirectory (s : Kernel) (owner : Nat) : Outcome (Nat × Kernel) := do
  let (vaddr, s) ← s.allocatePageDirTable owner
  if vaddr = 0 then return (0, s)
  else
    let page := getAddress (s.pte s.cr3 vaddr)
    return (vaddr, { s with
      mem := Function.update s.mem (PA2PGI page) fun i =>
        if i < 768 then 0#32
        else if i = 1023 then BitVec.ofNat 32 page ||| PDE_RESERVE
        else s.mem s.cr3 i })

/-- The kernel pages of a `UserVAddressPool`, addresses and numbers of pages. -/
structure UserPages where
  bitmapStart : Nat
  bitmapPage : Nat
  privStart : Nat
  privPage : Nat

/-- The loop that gives `n` kernel pages from `vaddr` on a new owner. -/
def rebindLoop (old new : Nat) : Nat → Nat → Kernel → Outcome Kernel
  | 0, _, s => return s
  | n + 1, vaddr, s => do
      let pgi := PA2PGI (getAddress (s.pte s.cr3 vaddr))
      let (_, s) ← s.detach pgi (s.toPTEpa vaddr) old
      let (_, s) ← s.attach pgi (s.toPTEpa vaddr) (toPTE vaddr) new
      rebindLoop old new n (vaddr + 4096) s

/-- `cloneFrom`, the pages it allocates for the pools of `parent`. -/
def cloneFrom (s : Kernel) (parent : UserVAddressPool) (owner : Nat) : Outcome (Option UserPages × Kernel) := do
  let bits := fun p : VAddressPool => (p.length + 7) / 8
  let bitmapBytes := bits parent.heapPool + bits parent.stackPool + bits parent.TLSPool + bits parent.mmapPool
  let privBytes := parent.TLSPool.length + parent.mmapPool.length
  let bitmapPage := (bitmapBytes + 4095) / 4096
  let privPage := (privBytes + 4095) / 4096
  let (bitmapStart, s) ← s.allocatePages bitmapPage VP_RW
  let (privStart, s) ← s.allocatePages privPage VP_RW
  if bitmapStart = 0 ∨ privStart = 0 then do
    let s ← s.releasePages .KERNEL bitmapStart bitmapPage .EMPTY
    let s ← s.releasePages .KERNEL privStart privPage .EMPTY
    return (none, s)
  else do
    let s ← rebindLoop s.runningPid owner bitmapPage bitmapStart s
    let s ← rebindLoop s.runningPid owner privPage privStart s
    return (some { bitmapStart, bitmapPage, privStart, privPage }, s)

/-- `UserVAddressPool::destroy`. -/
def destroy (s : Kernel) (pages : UserPages) (owner : Nat) : Outcome Kernel := do
  let s ← if s.runningPid = owner then .ret s
    else do
      let s ← rebindLoop owner s.runningPid pages.bitmapPage pages.bitmapStart s
      rebindLoop owner s.runningPid pages.privPage pages.privStart s
  let s ← s.releasePages .KERNEL pages.bitmapStart pages.bitmapPage .EMPTY
  s.releasePages .KERNEL pages.privStart pages.privPage .EMPTY

/-! ### When `allocatePages` has no page -/

/-- What the boot sets up for the kernel's own pages: the pool of virtual pages does not begin at 0, every
page of it has a page table, and no page of the physical pool is at 0. -/
structure KernelReady (s : Kernel) : Prop where
  start : 0 < s.kernelVirtual.startAddress
  tables : ∀ i, i < s.kernelVirtual.resources.length →
    hasFlag (s.pde s.cr3 (i * 4096 + s.kernelVirtual.startAddress)) PDE_PRESENT = true
  frames : ∀ address, (s.kernelPhysical.allocate 1).1 = some address → address % 2 ^ 32 ≠ 0

/-- There is no free page in one of the two kernel pools. -/
def NoKernelPage (s : Kernel) : Prop :=
  (s.kernelVirtual.resources.allocate 1).1 = none ∨ (s.kernelPhysical.allocate 1).1 = none

/-- The same pages are in use and the same mappings are recorded. -/
structure SameResources (s s' : Kernel) : Prop where
  kernelPhysical : s'.kernelPhysical = s.kernelPhysical
  userPhysical : s'.userPhysical = s.userPhysical
  kernelVirtual : ∀ i, s'.kernelVirtual.resources.get i = s.kernelVirtual.resources.get i
  rmapManager : s'.rmapManager = s.rmapManager

theorem SameResources.refl (s : Kernel) : SameResources s s := ⟨rfl, rfl, fun _ => rfl, rfl⟩

end Kernel

theorem Buddy.allocateBlockLoop_none {b b' : Buddy} {fuel order : Nat}
    (h : Buddy.allocateBlockLoop fuel b order = (none, b')) : b' = b := by
  induction fuel generalizing order b' with
  | zero => exact (Prod.mk.inj h).2.symm
  | succ fuel ih =>
      rw [Buddy.allocateBlockLoop] at h
      split at h
      · exact (Prod.mk.inj h).2.symm
      · split at h
        · simp at h
        · split at h
          · next b₁ hrec =>
              rw [← (Prod.mk.inj h).2]
              exact ih hrec
          · simp at h

/-- A pool that has no page stays as it is. -/
theorem PAddressPool.allocate_none {p p' : PAddressPool} {count : Int} (h : p.allocate count = (none, p')) :
    p' = p := by
  rw [PAddressPool.allocate] at h
  split at h
  · next r hr =>
      rw [Buddy.allocate] at hr
      split at hr
      · next b hb =>
          obtain rfl := Buddy.allocateBlockLoop_none hb
          obtain rfl := (Prod.mk.inj hr).2
          exact (Prod.mk.inj h).2.symm
      · simp at hr
  · simp at h

namespace Kernel

variable {s s' : Kernel} {flag : Byte}

theorem allocatePhysicalPages_none {pool : PAddressPool} (h : s.kernelPhysical.allocate 1 = (none, pool)) :
    s.allocatePhysicalPages .KERNEL 1 = .ret (0, s) := by
  obtain rfl := PAddressPool.allocate_none h
  have hpool : s.poolAllocate .KERNEL 1 = (none, s) := by
    show ((s.kernelPhysical.allocate 1).1, { s with kernelPhysical := (s.kernelPhysical.allocate 1).2 }) = _
    rw [h]
  rw [allocatePhysicalPages, hpool]
  rfl

theorem allocatePhysicalPages_some {pool : PAddressPool} {address paddr : Nat}
    (ha : s.allocatePhysicalPages .KERNEL 1 = .ret (paddr, s'))
    (h : s.kernelPhysical.allocate 1 = (some address, pool)) : paddr = address % 2 ^ 32 := by
  have hpool : s.poolAllocate .KERNEL 1 = (some address, { s with kernelPhysical := pool }) := by
    show ((s.kernelPhysical.allocate 1).1, { s with kernelPhysical := (s.kernelPhysical.allocate 1).2 }) = _
    rw [h]
  rw [allocatePhysicalPages, hpool] at ha
  obtain ⟨s₁, -, ha⟩ := Outcome.bind_eq_ret ha
  rw [if_pos rfl] at ha
  obtain ⟨-, -, ha⟩ := Outcome.bind_eq_ret ha
  exact (Prod.mk.inj (Outcome.ret.inj ha)).1.symm

/-- An address that has a page table is connected, or the call does not return. -/
theorem connectPhysicalVirtualPage_table {vaddr paddr : Nat} {ok : Bool}
    (htable : hasFlag (s.pde s.cr3 vaddr) PDE_PRESENT = true)
    (h : s.connectPhysicalVirtualPage vaddr paddr = .ret (ok, s')) : ok = true := by
  rw [connectPhysicalVirtualPage, connectTable, if_pos htable, Outcome.pure_eq, Outcome.ret_bind] at h
  obtain ⟨flags, -, h⟩ := Outcome.bind_eq_ret h
  obtain ⟨⟨idx, s₁⟩, -, h⟩ := Outcome.bind_eq_ret h
  obtain ⟨-, -, h⟩ := Outcome.bind_eq_ret h
  exact (Prod.mk.inj (Outcome.ret.inj h)).1.symm

/-- Without a free page `allocatePages` returns 0 and takes back what it has reserved. -/
theorem allocatePages_noPage (hstart : 0 < s.kernelVirtual.startAddress) (h : NoKernelPage s) (flag : Byte) :
    ∃ s', s.allocatePages 1 flag = .ret (0, s') ∧ SameResources s s' := by
  rw [allocatePages, allocateVirtualPages, VAddressPool.allocate]
  rcases hvirtual : s.kernelVirtual.resources.allocate 1 with ⟨k, resources⟩
  cases k with
  | none =>
      obtain rfl := BitMap.allocate_none hvirtual
      exact ⟨_, rfl, ⟨rfl, rfl, fun _ => rfl, rfl⟩⟩
  | some k =>
      have hphysical : (s.kernelPhysical.allocate 1).1 = none := h.resolve_left (by simp [hvirtual])
      rcases hpool : s.kernelPhysical.allocate 1 with ⟨address, pool⟩
      rw [hpool] at hphysical
      obtain rfl : address = none := hphysical
      obtain ⟨hfree, rfl⟩ := BitMap.allocate_spec hvirtual
      have hne : k * 4096 + s.kernelVirtual.startAddress ≠ 0 := by omega
      have hidx : (k * 4096 + s.kernelVirtual.startAddress - s.kernelVirtual.startAddress) / 4096 = k := by
        omega
      have hnone := fun p => allocatePhysicalPages_none (s := { s with kernelVirtual := p }) hpool
      dsimp only
      rw [if_neg hne, allocatePagesLoop, hnone]
      simp only [Outcome.ret_bind, ne_eq, not_true_eq_false, if_false, Bool.false_eq_true, releasePages,
        Nat.zero_add, Nat.sub_self, releaseLoop, releaseVirtualPages, Outcome.pure_eq, Outcome.ASSERT_pos,
        Nat.zero_mul, Nat.add_zero, Nat.sub_zero]
      refine ⟨_, rfl, ⟨rfl, rfl, fun j => ?_, rfl⟩⟩
      simp only [VAddressPool.release, BitMap.release, hidx, BitMap.get_setRange]
      by_cases hj : k ≤ j ∧ j < k + 1
      · rw [if_pos hj]
        exact (hfree j hj.1 hj.2).2.symm
      · rw [if_neg hj, if_neg (by omega), if_neg hj]

/-- With a free page and the page table for it `allocatePages` does not return 0. -/
theorem allocatePages_page {vaddr : Nat} (hready : KernelReady s) (hpage : ¬NoKernelPage s)
    (h : s.allocatePages 1 flag = .ret (vaddr, s')) : vaddr ≠ 0 := by
  rw [NoKernelPage, not_or] at hpage
  rw [allocatePages, allocateVirtualPages, VAddressPool.allocate] at h
  rcases hvirtual : s.kernelVirtual.resources.allocate 1 with ⟨k, resources⟩
  rcases hpool : s.kernelPhysical.allocate 1 with ⟨address, pool⟩
  rw [hvirtual, hpool] at hpage
  cases k with
  | none => exact absurd rfl hpage.1
  | some k =>
      cases address with
      | none => exact absurd rfl hpage.2
      | some address =>
          obtain ⟨hfree, -⟩ := BitMap.allocate_spec hvirtual
          have hne : k * 4096 + s.kernelVirtual.startAddress ≠ 0 := by
            have hstart := hready.start
            omega
          have htable := hready.tables k (hfree k (le_refl k) (Nat.lt_succ_self k)).1
          have hframe := hready.frames address (by rw [hpool])
          rw [hvirtual] at h
          dsimp only at h
          rw [if_neg hne, allocatePagesLoop] at h
          simp only [Nat.zero_add, Nat.sub_self, Nat.zero_mul, Nat.add_zero] at h
          obtain ⟨⟨paddr, s₁⟩, hphysical, h⟩ := Outcome.bind_eq_ret h
          obtain rfl := allocatePhysicalPages_some hphysical hpool
          obtain ⟨-, -, s₂, hpools, rfl⟩ := allocatePhysicalPages_spec hphysical hframe
          simp only [ne_eq, hframe, not_false_eq_true, if_true] at h
          obtain ⟨⟨ok, s₃⟩, hconnect, h⟩ := Outcome.bind_eq_ret h
          obtain rfl := connectPhysicalVirtualPage_table (by rw [hpools.eq]; exact htable) hconnect
          simp only [if_true, allocatePagesLoop] at h
          rwa [← (Prod.mk.inj (Outcome.ret.inj h)).1]

end Kernel

end SysuOs
