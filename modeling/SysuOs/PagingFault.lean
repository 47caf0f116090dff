import Mathlib
import SysuOs.PagingCalls
import SysuOs.BuddyInit

/-! Faults raised in kernel mode on addresses of user segments. A lazily reserved page is given by the
handler for user mode, so that both modes do the same as long as there is a page; a page that is shared
for copy on write is refused to the kernel. -/

namespace SysuOs

/-- The entry of a page that is reserved and not there yet. -/
def IsLazy (entry : Word) : Prop :=
  hasFlag entry PTE_PRESENT = false ∧ hasFlag entry PTE_WRITABLE = true ∧ hasFlag entry PTE_LAZY = true

/-- The entry of a page to be copied when it is written. -/
def IsCow (entry : Word) : Prop :=
  hasFlag entry PTE_PRESENT = true ∧ hasFlag entry PTE_WRITABLE = false ∧ hasFlag entry PTE_COW = true

namespace Kernel

theorem faultType_lazy {s : Kernel} {addr : Nat} (hpde : hasFlag (s.pde s.cr3 addr) PTE_PRESENT = true)
    (hlazy : IsLazy (s.pte s.cr3 addr)) (fromUser : Bool) :
    s.faultType fromUser addr = .ret .DEMAND_ZERO := by
  obtain ⟨habsent, hwritable, hflag⟩ := hlazy
  simp [faultType, hpde, habsent, faultOfAbsent, hwritable, hflag]

theorem faultType_cow {s : Kernel} {addr : Nat} (hpde : hasFlag (s.pde s.cr3 addr) PTE_PRESENT = true)
    (hcow : IsCow (s.pte s.cr3 addr)) (fromUser : Bool) :
    s.faultType fromUser addr = .ret .COPY_ON_WRITE := by
  obtain ⟨hpresent, hwritable, hflag⟩ := hcow
  simp [faultType, hpde, hpresent, faultOfPresent, hwritable, hflag]

variable {outOfMemory : Kernel → AddressPoolType → Outcome (Nat × Kernel)}

/-- The address is one of a segment of the running process. -/
structure InUserSegment (s : Kernel) (process : PCB) (addr : Nat) : Prop where
  running : s.runningPCB = some process
  segment : process.userVirtual.vaddr2Seg addr ≠ .EMPTY
  user : addr ≤ USER_VADDR_END
  kernel : USER_VADDR_END < s.kernelVirtual.startAddress

theorem InUserSegment.not_kernel {s : Kernel} {process : PCB} {addr : Nat}
    (h : InUserSegment s process addr) : s.kernelVirtual.isValidAddr addr = false := by
  have hlt := Nat.lt_of_le_of_lt h.user h.kernel
  simp [VAddressPool.isValidAddr, Nat.not_le.mpr hlt]

/-- The handler for user mode gives a lazily reserved page if there is one. -/
theorem handleUser_demandZero {s : Kernel} {process : PCB} {addr : Nat} (h : InUserSegment s process addr) :
    s.handleUserPageFault outOfMemory .DEMAND_ZERO addr =
      (s.obtainPage outOfMemory .USER >>= fun (paddr, s) =>
        if paddr = 0 then .ret (false, s)
        else s.connectPhysicalVirtualPage (addr / 4096 * 4096) paddr >>= fun (_, s) =>
          .ret (true, s.zeroPage (addr / 4096 * 4096) paddr)) := by
  rw [handleUserPageFault, h.running]
  dsimp only
  rw [handleDemandZero, if_neg h.segment]
  rfl

/-- A fault on a lazily reserved page has the same outcome in both modes if a page can be obtained for it,
and ends in `PANIC` in kernel mode if none can. A fault in kernel mode on a page shared for copy on write
ends in `PANIC`. -/
theorem kernelFault_eq {s : Kernel} {process : PCB} {addr : Nat} (h : InUserSegment s process addr)
    (hpde : hasFlag (s.pde s.cr3 addr) PTE_PRESENT = true) :
    (IsLazy (s.pte s.cr3 addr) → ∀ paddr s₁, s.obtainPage outOfMemory .USER = .ret (paddr, s₁) →
      (paddr ≠ 0 →
        s.cPageFaultHandler outOfMemory false addr = s.cPageFaultHandler outOfMemory true addr) ∧
      (paddr = 0 → s.cPageFaultHandler outOfMemory true addr = .ret s₁ ∧
        s.cPageFaultHandler outOfMemory false addr = .halt)) ∧
    (IsCow (s.pte s.cr3 addr) → s.cPageFaultHandler outOfMemory false addr = .halt) := by
  refine ⟨fun hlazy paddr s₁ hpage => ?_, fun hcow => ?_⟩
  · have hhandled := @handleUser_demandZero outOfMemory s process addr h
    rw [hpage, Outcome.ret_bind] at hhandled
    dsimp only at hhandled
    have huser : s.cPageFaultHandler outOfMemory true addr =
        (s.handleUserPageFault outOfMemory .DEMAND_ZERO addr >>= fun r => .ret r.2) := by
      rw [cPageFaultHandler, faultType_lazy hpde hlazy]
      rfl
    have hkernel : s.cPageFaultHandler outOfMemory false addr =
        (s.handleUserPageFault outOfMemory .DEMAND_ZERO addr >>= fun r =>
          if r.1 then .ret r.2 else .halt) := by
      rw [cPageFaultHandler, faultType_lazy hpde hlazy]
      simp only [Outcome.ret_bind, Bool.false_eq_true, if_false, handleKernelPageFault, h.not_kernel,
        Bool.not_false, if_true, Outcome.pure_eq]
      congr 1
      funext r
      obtain ⟨res, s'⟩ := r
      cases res <;> rfl
    rw [huser, hkernel, hhandled]
    refine ⟨fun hne => ?_, fun hzero => ?_⟩
    · rw [if_neg hne]
      cases s₁.connectPhysicalVirtualPage (addr / 4096 * 4096) paddr <;> rfl
    · rw [if_pos hzero]
      exact ⟨rfl, rfl⟩
  · rw [cPageFaultHandler, faultType_cow hpde hcow]
    rfl

/-! ### A machine with one process -/

/-- A pool of `pages` pages from `startAddress` on, none of them allocated. -/
def freePool (startAddress pages : Nat) : PAddressPool where
  resources := Buddy.freshPool.resources.init (fun _ => 0) pages (fun _ => 0) fun _ => default
  startAddress := startAddress
  length := pages

/-- A pool of addresses of which none is managed. -/
def emptyRange (startAddress : Nat) : VAddressPool where
  length := 0
  resources := { bitmap := fun _ => 0, length := 0 }
  startAddress := startAddress
  endAddress := startAddress - 1
  privileges := fun _ => VP_CLEAR
  isStatic := true
  staticPrivilege := VP_RW ||| VP_USER

/-- A process whose image is one page of data, in the page directory of frame 1. -/
def onePage : PCB where
  pid := 1
  pageDirectory := 1
  userVirtual :=
    { text := { start := 0x08049000, last := 0x08048fff }
      data := { start := 0x08048000, last := 0x08048fff }
      bss := { start := 0x08049000, last := 0x08048fff }
      heapPool := emptyRange 0x08049000
      stackPool := emptyRange 0x08049000
      mmapPool := emptyRange 0x08049000
      TLSPool := emptyRange 0x08049000
      owner := 1 }

/-- A machine that runs this process. Its page table is in frame 2, with `entry` for the page, the only
reverse mapping is that of the entry, and the frames from 0x300 on are free. -/
def oneEntry (entry : Word) : Kernel where
  mem := fun frame idx =>
    if frame = 1 ∧ idx = 32 then 0x2207#32 else if frame = 2 ∧ idx = 0x48 then entry else 0#32
  pageinfos := fun frame =>
    if 0x300 ≤ frame then { ref := 0, flags := PG_FREE, extra := 0 }
    else { ref := 1, flags := PG_SINGLE, extra := 1 }
  rmapManager :=
    { RMapStart := fun idx =>
        if idx = 1 then { ptePaddr := 0x2120, pteVaddr := PTE_ANON_VADDR, next := 0, owner := 1 }
        else { ptePaddr := 0, pteVaddr := 0, next := 0, owner := 0 }
      bitmap := { bitmap := fun _ => 0x3, length := 8 }
      length := 8
      attachFailed := false }
  kernelPhysical := freePool 0x300000 4
  userPhysical := freePool 0x304000 4
  kernelVirtual := emptyRange 0xc0100000
  programs := fun pid => if pid = 1 then some onePage else none
  running := some 1
  cr3 := 1
  tlb := []

theorem oneEntry_inUserSegment (entry : Word) : InUserSegment (oneEntry entry) onePage 0x08048000 :=
  ⟨rfl, by decide, by decide, (by decide : USER_VADDR_END < 0xc0100000)⟩

/-- A page shared for copy on write that no other process uses any more: the process may write it, the
kernel writing into a buffer there panics. -/
theorem kernelFault_cow : InUserSegment (oneEntry 0x3205#32) onePage 0x08048000 ∧
    IsCow ((oneEntry 0x3205#32).pte 1 0x08048000) ∧
    (∃ s, (oneEntry 0x3205#32).cPageFaultHandler (fun _ _ => .halt) true 0x08048000 = .ret s) ∧
    (oneEntry 0x3205#32).cPageFaultHandler (fun _ _ => .halt) false 0x08048000 = .halt := by
  refine ⟨oneEntry_inUserSegment _, ⟨by decide, by decide, by decide⟩, ⟨_, rfl⟩, rfl⟩

theorem oneEntry_userPage :
    ∃ s, obtainPage (fun _ _ => .halt) (oneEntry 0x802#32) .USER = .ret (0x304000, s) := by
  have hpage : ∃ s, (oneEntry 0x802#32).allocatePhysicalPages .USER 1 = .ret (0x304000, s) := ⟨_, rfl⟩
  obtain ⟨s, hs⟩ := hpage
  refine ⟨s, ?_⟩
  rw [obtainPage, hs]
  rfl

/-- The page is reserved and a page is free for it. -/
theorem kernelFault_eq_lazy :
    (oneEntry 0x802#32).cPageFaultHandler (fun _ _ => .halt) false 0x08048000 =
      (oneEntry 0x802#32).cPageFaultHandler (fun _ _ => .halt) true 0x08048000 :=
  have ⟨s, hpage⟩ := oneEntry_userPage
  ((kernelFault_eq (oneEntry_inUserSegment _) (by decide)).1 ⟨by decide, by decide, by decide⟩
    0x304000 s hpage).1 (by decide)

end Kernel

end SysuOs
