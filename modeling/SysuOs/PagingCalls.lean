import Mathlib
import SysuOs.PagingModel

/-! The operations on address spaces: reverse mappings, `fork`, page faults and `exit`. A result `-1` or a
null pointer is `none`; logging is left out. -/

namespace SysuOs

/-! ### Reverse mappings -/

namespace RMapManager

def setEntry (r : RMapManager) (idx : Nat) (e : RMapEntry) : RMapManager :=
  { r with RMapStart := Function.update r.RMapStart idx e }

def setNext (r : RMapManager) (idx next : Nat) : RMapManager :=
  r.setEntry idx { r.RMapStart idx with next }

def allocate (r : RMapManager) (ptePaddr pteVaddr owner : Nat) : Option Nat × RMapManager :=
  match r.bitmap.allocate 1 with
  | (none, bitmap) => (none, { r with bitmap })
  | (some idx, bitmap) =>
      (some idx, { r with bitmap }.setEntry idx { ptePaddr, pteVaddr, owner, next := 0 })

def release (r : RMapManager) (idx : Nat) : Outcome RMapManager := do
  Outcome.ASSERT (idx < r.length)
  return { r with bitmap := r.bitmap.release idx 1 }.setEntry idx
    { ptePaddr := 0, pteVaddr := 0, owner := 0, next := 0 }

/-- Whether an entry is the one `detach` looks for. -/
def Matches (e : RMapEntry) (ptePaddr owner : Nat) : Prop := e.ptePaddr = ptePaddr ∧ e.owner = owner

instance (e : RMapEntry) (ptePaddr owner : Nat) : Decidable (Matches e ptePaddr owner) :=
  inferInstanceAs (Decidable (_ ∧ _))

/-- The loop of `detach` from `idx` on: the entry found and the one before it. -/
def findLoop (r : RMapManager) (ptePaddr owner : Nat) : Nat → Nat → Nat → Outcome (Option (Nat × Nat))
  | 0, _, _ => .diverge
  | fuel + 1, prev, idx =>
      if idx = 0 then return none
      else if Matches (r.RMapStart idx) ptePaddr owner then return some (prev, idx)
      else r.findLoop ptePaddr owner fuel idx (r.RMapStart idx).next

end RMapManager

namespace Kernel

/-- `attach`; the entry it returns. -/
def attach (s : Kernel) (pgi ptePaddr pteVaddr owner : Nat) : Outcome (Option Nat × Kernel) :=
  match s.rmapManager.allocate ptePaddr pteVaddr owner with
  | (none, r) => return (none, { s with rmapManager := { r with attachFailed := true } })
  | (some idx, r) => do
      let pi := s.pageinfos pgi
      let r := if pi.extra = 0 then r else r.setNext idx pi.extra
      let pi ← { pi with extra := idx }.incRef
      return (some idx, { s with rmapManager := r }.setInfo pgi pi)

/-- `detach`; it does not use the virtual address it is given. -/
def detach (s : Kernel) (pgi ptePaddr owner : Nat) : Outcome (Bool × Kernel) := do
  let pi := s.pageinfos pgi
  let r := s.rmapManager
  Outcome.ASSERT (pi.ref > 0)
  Outcome.ASSERT (pi.extra ≠ 0)
  if RMapManager.Matches (r.RMapStart pi.extra) ptePaddr owner then
    let released ← r.release pi.extra
    let pi ← { pi with extra := (r.RMapStart pi.extra).next }.decRef
    return (true, { s with rmapManager := released }.setInfo pgi pi)
  else
    match ← r.findLoop ptePaddr owner (r.length + 1) pi.extra (r.RMapStart pi.extra).next with
    | none => return (false, s)
    | some (prev, idx) =>
        let released ← (r.setNext prev (r.RMapStart idx).next).release idx
        let pi ← pi.decRef
        return (true, { s with rmapManager := released }.setInfo pgi pi)

/-- The entry `setCOW` puts in place of `w`. -/
def cowEntry (w : Word) : Word := (w ||| PTE_COW) &&& ~~~PTE_WRITABLE

/-- An iteration of `setCOW`: the entry of the page table a reverse mapping stands for. -/
def setCOWEntry (s : Kernel) (e : RMapEntry) : Kernel :=
  let frame := PA2PGI e.ptePaddr
  let idx := e.ptePaddr % 4096 / 4
  let changed := s.setWord frame idx (cowEntry (s.mem frame idx))
  match s.runningPCB with
  | some running =>
      if running.pid = e.owner ∧ e.pteVaddr ≠ PTE_ANON_VADDR then changed.invlpg (PTEVA2VADDR e.pteVaddr)
      else changed
  | none => changed

/-- The loop of `setCOW` along the reverse mappings from `cnt` on. -/
def setCOWLoop : Nat → Kernel → Nat → Outcome Kernel
  | 0, _, _ => .diverge
  | fuel + 1, s, cnt =>
      if cnt = 0 then return s
      else do
        let e := s.rmapManager.RMapStart cnt
        Outcome.ASSERT (e.ptePaddr ≠ 0)
        setCOWLoop fuel (s.setCOWEntry e) e.next

/-- `RMapManager::setCOW`. -/
def setCOW (s : Kernel) (pgi : Nat) : Outcome (Bool × Kernel) := do
  let pi := s.pageinfos pgi
  if pi.has PG_FREE then return (false, s)
  else if pi.ref = 0 then return (false, s)
  else if !(pi.has PG_KERNEL && pi.has PG_RESERVED) && pi.extra = 0 then return (false, s)
  else
    let s ← setCOWLoop (s.rmapManager.length + 1) s pi.extra
    return (true, s)

/-! ### Page tables -/

def pdeGetCount (w : Word) : Nat := (w &&& PDE_COUNT_MASK).toNat / 2 ^ 9

def pdeSetCount (w : Word) (count : Nat) : Word :=
  (w &&& ~~~PDE_COUNT_MASK) ||| BitVec.ofNat 32 (min count 7 * 2 ^ 9)

/-- `PDEinc`. -/
def pdeInc (s : Kernel) (dir vaddr : Nat) : Kernel :=
  let w := s.pde dir vaddr
  s.setPde dir vaddr (pdeSetCount w (min (pdeGetCount w + 1) 7))

/-- `PDEdec`: whether the count has come down to 0; a count of 7 stays. -/
def pdeDec (s : Kernel) (dir vaddr : Nat) : Outcome (Bool × Kernel) := do
  let w := s.pde dir vaddr
  let count := pdeGetCount w
  Outcome.ASSERT (count > 0)
  if count = 7 then return (false, s)
  else return (decide (count - 1 = 0), s.setPde dir vaddr (pdeSetCount w (count - 1)))

/-- The address of a new page table, 0 if there is no page for it. -/
def allocatePageTable (s : Kernel) : Outcome (Nat × Kernel) := do
  let (page, s) ← s.allocatePhysicalPages .KERNEL 1
  if page = 0 then return (0, s)
  else
    let pi ← (s.pageinfos (PA2PGI page)).incRef
    return (page, s.setInfo (PA2PGI page) (pi.setFlag (PG_KERNEL ||| PG_LOCKED)))

/-- `releasePageTable` and `release_user_page_table_force`. -/
def releasePageTable (s : Kernel) (dir vaddr : Nat) : Outcome Kernel := do
  let page := getAddress (s.pde dir vaddr)
  let pi := s.pageinfos (PA2PGI page)
  Outcome.ASSERT (pi.has PG_KERNEL)
  Outcome.ASSERT (pi.has PG_LOCKED)
  Outcome.ASSERT (pi.ref = 1)
  let s ← (s.setInfo (PA2PGI page) (pi.clearFlag PG_LOCKED)).releasePhysicalPages .KERNEL page 1
  return s.setPde dir vaddr 0#32

/-- The segment of the running process an address is in. -/
def runningSegment (s : Kernel) (vaddr : Nat) : UserSegment :=
  (s.runningPCB.map fun running => running.userVirtual.vaddr2Seg vaddr).getD .EMPTY

/-- A new page table behind an entry of a page directory. -/
def linkTable (s : Kernel) (dir vaddr page : Nat) (flags : Word) : Kernel :=
  (s.setPde dir vaddr (BitVec.ofNat 32 page ||| flags)).clearPage (PA2PGI page)

/-- The first part of `connectPhysicalVirtualPage`: whether there is a page table for the address. -/
def connectTable (s : Kernel) (vaddr : Nat) : Outcome (Bool × Kernel) :=
  if hasFlag (s.pde s.cr3 vaddr) PDE_PRESENT then return (true, s)
  else do
    let (page, s) ← s.allocatePageTable
    if page = 0 then return (false, s)
    else if s.kernelVirtual.isValidAddr vaddr then return (true, s.linkTable s.cr3 vaddr page PDE_KERNEL)
    else if s.runningSegment vaddr ≠ .EMPTY then return (true, s.linkTable s.cr3 vaddr page PDE_USER)
    else .halt

/-- The flags `connectPhysicalVirtualPage` gives the entry of an address. -/
def connectFlags (s : Kernel) (vaddr : Nat) : Outcome Byte :=
  if s.kernelVirtual.isValidAddr vaddr then s.kernelVirtual.getVPageFlag vaddr
  else match s.runningPCB with
    | some running =>
        if s.runningSegment vaddr ≠ .EMPTY then
          running.userVirtual.getVPageFlag (s.runningSegment vaddr) vaddr
        else .halt
    | none => .halt

/-- The pid of the running process, 0 if there is none. -/
def runningPid (s : Kernel) : Nat := (s.runningPCB.map PCB.pid).getD 0

def connectPhysicalVirtualPage (s : Kernel) (vaddr paddr : Nat) : Outcome (Bool × Kernel) := do
  match ← s.connectTable vaddr with
  | (false, s) => return (false, s)
  | (true, s) =>
      let flags ← s.connectFlags vaddr
      let mapped := s.setPte s.cr3 vaddr (BitVec.ofNat 32 paddr ||| vPageFlags2PTE flags ||| PTE_PRESENT)
      let flushed := (mapped.pdeInc mapped.cr3 vaddr).invlpg vaddr
      let (idx, s) ← flushed.attach (PA2PGI paddr) (flushed.toPTEpa vaddr) (toPTE vaddr) flushed.runningPid
      Outcome.ASSERT (idx.isSome = true)
      return (true, s)

/-! ### `fork` -/

/-- The loop of `rollbackCOWSetup`, with `n` of the pages left. -/
def rollbackCOWSetup (s : Kernel) (pgdir paddrStart vaddrStart owner : Nat) : Nat → Outcome Kernel
  | 0 => return s
  | count + 1 => do
      let s ← s.rollbackCOWSetup pgdir paddrStart vaddrStart owner count
      let paddr := paddrStart + count * 4096
      let vaddr := vaddrStart + count * 4096
      let (_, s) ← s.detach (PA2PGI paddr) (s.ptePaddr pgdir vaddr) owner
      return s

/-- The first part of an iteration of `setupCOWPages`: whether there is a page table for the address. -/
def setupTable (s : Kernel) (pgdir vaddr : Nat) : Outcome (Bool × Kernel) :=
  if hasFlag (s.pde pgdir vaddr) PDE_PRESENT then return (true, s)
  else do
    let (page, s) ← s.allocatePageTable
    if page = 0 then return (false, s) else return (true, s.linkTable pgdir vaddr page PDE_USER)

/-- The `pte_vaddr` a page that `setupCOWPages` maps is attached with. -/
def setupPteVaddr (s : Kernel) (vaddr owner : Nat) : Nat :=
  match s.runningPCB with
  | some running => if running.pid = owner then toPTE vaddr else PTE_ANON_VADDR
  | none => PTE_ANON_VADDR

/-- The entry `setupCOWPages` makes for a page. -/
def sharedEntry (paddr : Nat) : Word :=
  (BitVec.ofNat 32 paddr ||| PTE_PRESENT ||| PTE_USER_ACCESS ||| PTE_COW) &&& ~~~PTE_WRITABLE

/-- An iteration of `setupCOWPages`: the page `paddr` is shared, and mapped at `vaddr`. -/
def setupCOWPage (s : Kernel) (pgdir paddr vaddr owner : Nat) : Outcome (Bool × Kernel) := do
  match ← s.setupTable pgdir vaddr with
  | (false, s) => return (false, s)
  | (true, s) =>
      match ← s.setCOW (PA2PGI paddr) with
      | (false, s) => return (false, s)
      | (true, s) =>
          let counted := (s.setPte pgdir vaddr (sharedEntry paddr)).pdeInc pgdir vaddr
          let (_, s) ← counted.attach (PA2PGI paddr) (counted.ptePaddr pgdir vaddr)
            (counted.setupPteVaddr vaddr owner) owner
          return (true, s)

/-- The loop of `setupCOWPages`, `n` of the pages being left and `i` done; where an iteration fails the
pages before it are rolled back. -/
def setupCOWLoop (pgdir paddrStart vaddrStart owner : Nat) : Nat → Nat → Kernel → Outcome (Bool × Kernel)
  | 0, _, s => return (true, s)
  | n + 1, i, s => do
      match ← s.setupCOWPage pgdir (paddrStart + i * 4096) (vaddrStart + i * 4096) owner with
      | (true, s) => setupCOWLoop pgdir paddrStart vaddrStart owner n (i + 1) s
      | (false, s) =>
          let s ← s.rollbackCOWSetup pgdir paddrStart vaddrStart owner i
          return (false, s)

def setupCOWPages (s : Kernel) (pgdir paddrStart vaddrStart count owner : Nat) : Outcome (Bool × Kernel) := do
  Outcome.ASSERT (paddrStart % 4096 = 0)
  Outcome.ASSERT (vaddrStart % 4096 = 0)
  setupCOWLoop pgdir paddrStart vaddrStart owner count 0 s

/-- The page directory of a new process: no user tables, and the entries of the kernel. -/
def createProcessPageDirectory (s : Kernel) : Outcome (Option Nat × Kernel) := do
  let (page, s) ← s.allocatePageTable
  if page = 0 then return (none, s)
  else
    let dir := PA2PGI page
    return (some dir, { s with
      mem := Function.update s.mem dir fun i =>
        if i < 768 then 0#32
        else if i = 1023 then BitVec.ofNat 32 page ||| PDE_RESERVE
        else s.mem s.cr3 i })

/-- The loop of `copyProcess` that takes back what it has shared of the pages from `vaddr` up to `stop`.
The entry of a page table that is not there cannot be read: `PAGE_TABLE_BROKEN`. -/
def rollbackLoop (pgdir owner stop : Nat) : Nat → Nat → Kernel → Outcome Kernel
  | 0, _, _ => .diverge
  | fuel + 1, vaddr, s =>
      if vaddr < stop then
        if hasFlag (s.pde s.cr3 vaddr) PTE_PRESENT then do
          let s ← s.rollbackCOWSetup pgdir (getAddress (s.pte s.cr3 vaddr)) vaddr owner 1
          rollbackLoop pgdir owner stop fuel (vaddr + 4096) s
        else .halt
      else return s

/-- The loop of `copyProcess` over the user pages from `vaddr` on. -/
def copyLoop (pgdir owner : Nat) : Nat → Nat → Kernel → Outcome (Bool × Kernel)
  | 0, _, _ => .diverge
  | fuel + 1, vaddr, s =>
      if vaddr < USER_VADDR_END then
        if !hasFlag (s.pde s.cr3 vaddr) PTE_PRESENT then copyLoop pgdir owner fuel (vaddr + 4096) s
        else if !hasFlag (s.pte s.cr3 vaddr) PTE_PRESENT then copyLoop pgdir owner fuel (vaddr + 4096) s
        else do
          match ← s.setupCOWPages pgdir (getAddress (s.pte s.cr3 vaddr)) vaddr 1 owner with
          | (true, s) => copyLoop pgdir owner fuel (vaddr + 4096) s
          | (false, s) =>
              let s ← rollbackLoop pgdir owner vaddr (USER_VADDR_END / 4096 + 2) USER_VADDR_START s
              return (false, s)
      else return (true, s)

/-- `memset(child->pageDirectoryAddress, 0, 768 * sizeof(uint32))`. -/
def clearUserTables (s : Kernel) (dir : Nat) : Kernel :=
  { s with mem := Function.update s.mem dir fun i => if i < 768 then 0#32 else s.mem dir i }

/-- `copyProcess`, the address space. -/
def copyProcess (s : Kernel) (child : PCB) : Outcome (Bool × Kernel) :=
  copyLoop child.pageDirectory child.pid (USER_VADDR_END / 4096 + 2) USER_VADDR_START
    (s.clearUserTables child.pageDirectory)

/-- `fork` for the new pid `child`. -/
def fork (s : Kernel) (child : Nat) : Outcome (Option Nat × Kernel) :=
  match s.runningPCB with
  | none => .halt
  | some parent => do
      match ← s.createProcessPageDirectory with
      | (none, s) => return (none, s)
      | (some dir, s) =>
          let process := { pid := child, pageDirectory := dir, userVirtual := parent.userVirtual.cloneFrom child }
          match ← s.copyProcess process with
          | (false, s) => return (none, s)
          | (true, s) =>
              return (some child, { s with programs := Function.update s.programs child (some process) })

/-! ### Page faults -/

inductive FaultType where
  | DEMAND_ZERO
  | STACK_GROWTH
  | HEAP_GROWTH
  | SWAP_IN
  | COPY_ON_WRITE
  | FILE_BACKED
  | PERMISSION_VIOLATION
  | KERNEL_RESERVED
  | INVALID_ADDRESS
  | OUT_OF_MEMORY
  | PAGE_TABLE_BROKEN
  | UNKNOWN
  deriving DecidableEq, Repr

/-- The classification of `c_page_fault_handler` for an entry that is not present. -/
def faultOfAbsent (s : Kernel) (fromUser : Bool) (vaddr : Nat) (entry : Word) : FaultType :=
  if hasFlag entry PTE_WRITABLE && hasFlag entry PTE_LAZY then .DEMAND_ZERO
  else if (s.pageinfos (PA2PGI (getAddress entry))).has PG_FILE then .FILE_BACKED
  else if hasFlag entry PTE_SWAP then .SWAP_IN
  else if fromUser then
    match s.runningSegment vaddr with
    | .HEAP => .HEAP_GROWTH
    | .STACK => .STACK_GROWTH
    | _ => .INVALID_ADDRESS
  else .INVALID_ADDRESS

/-- The classification of `c_page_fault_handler` for an entry that is present. -/
def faultOfPresent (fromUser : Bool) (entry : Word) : FaultType :=
  if !hasFlag entry PTE_WRITABLE && hasFlag entry PTE_COW then .COPY_ON_WRITE
  else if (!hasFlag entry PTE_WRITABLE || (fromUser && !hasFlag entry PTE_USER_ACCESS)) &&
      !hasFlag entry PTE_COW then .PERMISSION_VIOLATION
  else .UNKNOWN

/-- The classification of `c_page_fault_handler`. -/
def faultType (s : Kernel) (fromUser : Bool) (vaddr : Nat) : Outcome FaultType := do
  Outcome.ASSERT (hasFlag (s.pde s.cr3 vaddr) PTE_PRESENT = true)
  let entry := s.pte s.cr3 vaddr
  if hasFlag entry PTE_PRESENT then return faultOfPresent fromUser entry
  else return s.faultOfAbsent fromUser vaddr entry

section
/-! The replacement of pages by `out_of_memory` is a parameter: the page it takes from its owner, 0 if
none can be taken, and the state afterwards. -/

variable (outOfMemory : Kernel → AddressPoolType → Outcome (Nat × Kernel))

/-- `allocatePhysicalPages`, and `out_of_memory` if there is no page. -/
def obtainPage (s : Kernel) (type : AddressPoolType) : Outcome (Nat × Kernel) := do
  let (paddr, s) ← s.allocatePhysicalPages type 1
  if paddr = 0 then outOfMemory s type else return (paddr, s)

/-- The entry of a page whose writing is allowed again. -/
def writableEntry (w : Word) : Word := (w &&& ~~~PTE_COW) ||| PTE_WRITABLE

/-- The case `ref == 1` of `COPY_ON_WRITE`. -/
def reclaimPage (s : Kernel) (vaddr paddr : Nat) : Kernel :=
  let s := s.setPte s.cr3 vaddr (writableEntry (s.pte s.cr3 vaddr))
  let idx := (s.pageinfos (PA2PGI paddr)).extra
  let e := s.rmapManager.RMapStart idx
  let r := s.rmapManager.setEntry idx { e with pteVaddr := toPTE vaddr }
  { s with rmapManager := r }.invlpg vaddr

/-- The case `ref >= 2` of `COPY_ON_WRITE`, once there is a page for the copy. -/
def splitPage (s : Kernel) (vaddr paddr newPaddr owner : Nat) : Outcome (Bool × Kernel) := do
  let ptePaddr := s.toPTEpa vaddr
  let s := s.setPte s.cr3 vaddr (writableEntry (s.pte s.cr3 vaddr))
  let s := s.setPte s.cr3 vaddr ((s.pte s.cr3 vaddr &&& ~~~PTE_GET_ADDRESS) ||| BitVec.ofNat 32 newPaddr)
  let s := s.invlpg vaddr
  let (_, s) ← s.detach (PA2PGI paddr) ptePaddr owner
  let (_, s) ← s.attach (PA2PGI newPaddr) ptePaddr (toPTE vaddr) owner
  return (true, s.copyPage (PA2PGI (getAddress (s.pte s.cr3 vaddr))) (PA2PGI paddr))

/-- The case `COPY_ON_WRITE` of `handle_user_page_fault`. -/
def handleCopyOnWrite (s : Kernel) (running : PCB) (addr : Nat) : Outcome (Bool × Kernel) :=
  if running.userVirtual.vaddr2Seg addr = .EMPTY then return (false, s)
  else
    let vaddr := addr / 4096 * 4096
    let paddr := getAddress (s.pte s.cr3 addr)
    let ref := (s.pageinfos (PA2PGI paddr)).ref
    if ref = 0 then return (false, s)
    else if ref = 1 then return (true, s.reclaimPage vaddr paddr)
    else do
      let (newPaddr, s) ← s.obtainPage outOfMemory .USER
      if newPaddr = 0 then return (false, s) else s.splitPage vaddr paddr newPaddr running.pid

/-- A page fresh from the pool is cleared unless it is known to be zero. -/
def zeroPage (s : Kernel) (vaddr paddr : Nat) : Kernel :=
  let pi := s.pageinfos (PA2PGI paddr)
  if pi.has PG_ZERO then s.setInfo (PA2PGI paddr) (pi.clearFlag PG_ZERO)
  else s.clearPage (PA2PGI (getAddress (s.pte s.cr3 vaddr)))

/-- The case `DEMAND_ZERO` of `handle_user_page_fault`. -/
def handleDemandZero (s : Kernel) (running : PCB) (addr : Nat) : Outcome (Bool × Kernel) :=
  if running.userVirtual.vaddr2Seg addr = .EMPTY then return (false, s)
  else do
    let (paddr, s) ← s.obtainPage outOfMemory .USER
    if paddr = 0 then return (false, s)
    else
      let vaddr := addr / 4096 * 4096
      let (_, s) ← s.connectPhysicalVirtualPage vaddr paddr
      return (true, s.zeroPage vaddr paddr)

/-- `handle_user_page_fault`; its other cases end in `PANIC`. -/
def handleUserPageFault (s : Kernel) (fault : FaultType) (addr : Nat) : Outcome (Bool × Kernel) :=
  match s.runningPCB with
  | none => return (false, s)
  | some running =>
      match fault with
      | .COPY_ON_WRITE => s.handleCopyOnWrite outOfMemory running addr
      | .DEMAND_ZERO => s.handleDemandZero outOfMemory running addr
      | _ => .halt

/-- `handle_kernel_page_fault`. -/
def handleKernelPageFault (s : Kernel) (fault : FaultType) (addr : Nat) : Outcome Kernel :=
  match fault with
  | .DEMAND_ZERO =>
      if !s.kernelVirtual.isValidAddr addr then do
        match ← s.handleUserPageFault outOfMemory fault addr with
        | (true, s) => return s
        | (false, _) => .halt
      else do
        let (paddr, s) ← s.obtainPage outOfMemory .KERNEL
        Outcome.ASSERT (paddr ≠ 0)
        let vaddr := addr / 4096 * 4096
        let (_, s) ← s.connectPhysicalVirtualPage vaddr paddr
        let s := s.zeroPage vaddr paddr
        return s.setInfo (PA2PGI paddr) ((s.pageinfos (PA2PGI paddr)).setFlag PG_KERNEL)
  | _ => .halt

/-- `c_page_fault_handler`. -/
def cPageFaultHandler (s : Kernel) (fromUser : Bool) (addr : Nat) : Outcome Kernel := do
  let fault ← s.faultType fromUser addr
  if fromUser then
    let (_, s) ← s.handleUserPageFault outOfMemory fault addr
    return s
  else s.handleKernelPageFault outOfMemory fault addr

end

/-! ### Pages released and spaces activated -/

/-- An iteration of `releasePages`. -/
def releasePage (s : Kernel) (type : AddressPoolType) (vaddr : Nat) : Outcome Kernel :=
  if !hasFlag (s.pde s.cr3 vaddr) PDE_PRESENT then return s
  else if !hasFlag (s.pte s.cr3 vaddr) PTE_PRESENT then return (s.setPte s.cr3 vaddr 0#32).invlpg vaddr
  else do
    let paddr := getAddress (s.pte s.cr3 vaddr) + vaddr % 4096
    let (found, s) ← s.detach (PA2PGI paddr) (s.toPTEpa vaddr) s.runningPid
    Outcome.ASSERT (found = true)
    let s ← if (s.pageinfos (PA2PGI paddr)).ref = 0 then s.releasePhysicalPages type paddr 1 else .ret s
    let (empty, s) ← ((s.setPte s.cr3 vaddr 0#32).invlpg vaddr).pdeDec s.cr3 vaddr
    if empty then s.releasePageTable s.cr3 vaddr else return s

/-- The loop of `releasePages`, `n` pages being left. -/
def releaseLoop (type : AddressPoolType) : Nat → Nat → Kernel → Outcome Kernel
  | 0, _, s => return s
  | n + 1, vaddr, s => do
      let s ← s.releasePage type vaddr
      releaseLoop type n (vaddr + 4096) s

/-- `releaseVirtualPages`. -/
def releaseVirtualPages (s : Kernel) (type : AddressPoolType) (vaddr count : Nat) (seg : UserSegment) :
    Outcome Kernel :=
  match type with
  | .KERNEL => do
      Outcome.ASSERT (seg = .EMPTY)
      return { s with kernelVirtual := s.kernelVirtual.release vaddr count }
  | .USER => do
      Outcome.ASSERT (seg ≠ .EMPTY)
      match s.runningPCB with
      | none => .halt
      | some running =>
          let released := { running with userVirtual := running.userVirtual.release seg vaddr count }
          return { s with programs := Function.update s.programs running.pid (some released) }

def releasePages (s : Kernel) (type : AddressPoolType) (vaddr count : Nat) (seg : UserSegment) :
    Outcome Kernel := do
  let s ← releaseLoop type count vaddr s
  s.releaseVirtualPages type vaddr count seg

/-- `activateProgramPage` for the process that is to run. -/
def activate (s : Kernel) (pid : Nat) : Outcome Kernel :=
  match s.programs pid with
  | none => .halt
  | some program => return { s with running := some pid }.updateCr3 program.pageDirectory

end Kernel

end SysuOs
