import Mathlib
import SysuOs.Machine
import SysuOs.Flags
import SysuOs.BitMapPool
import SysuOs.BuddyModel

/-! Paging: `memory.cpp`, `pageinfo.cpp`, `rmap.cpp`, the address spaces of `program.cpp` and the page
fault handlers of `handler.cpp` and `interrupt.cpp`.

Physical memory is words, found by frame and position. The kernel reaches a page table through the last
entry of the page directory, which points to the directory itself, or through a temporary mapping of
`mapTemp`; either way it reads and writes a word of physical memory, and this is what the model does.
The kernel half of the address spaces is the same for all of them and left out, so that a page
directory is the frame it is in. -/

namespace SysuOs

abbrev Word := BitVec 32

/-! ### Flags -/

def PTE_PRESENT : Word := 0x1#32
def PTE_WRITABLE : Word := 0x2#32
def PTE_USER_ACCESS : Word := 0x4#32
def PTE_COW : Word := 0x200#32
def PTE_SWAP : Word := 0x400#32
def PTE_LAZY : Word := 0x800#32
def PTE_GET_ADDRESS : Word := 0xfffff000#32

def PDE_PRESENT : Word := 0x1#32
def PDE_COUNT_MASK : Word := 0xe00#32
def PDE_USER : Word := 0x7#32
def PDE_KERNEL : Word := 0xe07#32
def PDE_RESERVE : Word := 0xe07#32

def PG_RESERVED : BitVec 16 := 0x1#16
def PG_FREE : BitVec 16 := 0x2#16
def PG_FILE : BitVec 16 := 0x4#16
def PG_LOCKED : BitVec 16 := 0x8#16
def PG_ZERO : BitVec 16 := 0x10#16
def PG_KERNEL : BitVec 16 := 0x20#16
def PG_SINGLE : BitVec 16 := 0x40#16

def VP_CLEAR : Byte := 0x0#8
def VP_RW : Byte := 0x1#8
def VP_USER : Byte := 0x2#8
def VP_COW : Byte := 0x4#8
def VP_SWAP : Byte := 0x10#8

def vPageFlags2PTE (flags : Byte) : Word :=
  (if hasFlag flags VP_COW then PTE_COW else if hasFlag flags VP_RW then PTE_WRITABLE else 0#32) |||
    (if hasFlag flags VP_USER then PTE_USER_ACCESS else 0#32) |||
    (if hasFlag flags VP_SWAP then PTE_SWAP else 0#32)

/-! ### Addresses -/

def USER_VADDR_START : Nat := 0x08048000
def USER_VADDR_END : Nat := 0xBFFFFFFF

/-- The `pte_vaddr` of a reverse mapping that does not know where its entry is mapped. -/
def PTE_ANON_VADDR : Nat := 0xff

def PA2PGI (paddr : Nat) : Nat := paddr / 4096

def pdeIdx (vaddr : Nat) : Nat := vaddr / 2 ^ 22

def pteIdx (vaddr : Nat) : Nat := vaddr / 2 ^ 12 % 2 ^ 10

/-- The address in an entry of a page table or directory; `PDE_GET_ADDRESS` is the same mask. -/
def getAddress (entry : Word) : Nat := (entry &&& PTE_GET_ADDRESS).toNat

/-- Where the entry of the page table is mapped: `((vaddr & 0xffc00000) >> 10)` and the index below. -/
def toPTE (vaddr : Nat) : Nat := 0xffc00000 + pdeIdx vaddr * 2 ^ 12 + pteIdx vaddr * 4

/-- The macro `PTEVA2VADDR`, in the arithmetic of a `uint32`. -/
def PTEVA2VADDR (pteVaddr : Nat) : Nat :=
  let offset := (pteVaddr + (2 ^ 32 - 0xffc00000)) % 2 ^ 32
  offset / 2 ^ 12 * 2 ^ 22 % 2 ^ 32 ||| offset / 2 ^ 2 % 2 ^ 10 * 2 ^ 12

/-! ### State -/

structure PageInfo where
  ref : Nat
  flags : BitVec 16
  extra : Nat

namespace PageInfo

def setFlag (pi : PageInfo) (mask : BitVec 16) : PageInfo := { pi with flags := pi.flags ||| mask }
def clearFlag (pi : PageInfo) (mask : BitVec 16) : PageInfo := { pi with flags := pi.flags &&& ~~~mask }
def has (pi : PageInfo) (flag : BitVec 16) : Bool := hasFlag pi.flags flag

/-- `PageInfo::clear`. -/
def cleared : PageInfo := { ref := 0, flags := 0#16, extra := 0 }

def incRef (pi : PageInfo) : Outcome PageInfo := do
  Outcome.ASSERT (pi.ref < 0xffff)
  return { pi with ref := pi.ref + 1 }

def decRef (pi : PageInfo) : Outcome PageInfo := do
  Outcome.ASSERT (pi.ref > 0)
  return { pi with ref := pi.ref - 1 }

end PageInfo

structure RMapEntry where
  ptePaddr : Nat
  pteVaddr : Nat
  next : Nat
  owner : Nat

/-- `RMapManager`; `attachFailed` records that `attach` has returned -1, which its callers only log. -/
structure RMapManager where
  RMapStart : Nat → RMapEntry
  bitmap : BitMap
  length : Nat
  attachFailed : Bool

inductive AddressPoolType where
  | USER
  | KERNEL
  deriving DecidableEq

inductive UserSegment where
  | TEXT
  | DATA
  | BSS
  | MMAP
  | TLS
  | HEAP
  | STACK
  | EMPTY
  deriving DecidableEq

/-- A range of addresses, both ends included. -/
structure Boundary where
  start : Nat
  last : Nat

def Boundary.isValidAddr (b : Boundary) (addr : Nat) : Bool := b.start ≤ addr && addr ≤ b.last

structure VAddressPool where
  length : Nat
  resources : BitMap
  startAddress : Nat
  endAddress : Nat
  privileges : Nat → Byte
  isStatic : Bool
  staticPrivilege : Byte

namespace VAddressPool

def isValidAddr (p : VAddressPool) (vaddr : Nat) : Bool :=
  p.startAddress ≤ vaddr && vaddr ≤ p.endAddress

def getVPageFlag (p : VAddressPool) (vaddr : Nat) : Outcome Byte :=
  if p.isStatic then return p.staticPrivilege
  else do
    Outcome.ASSERT (p.isValidAddr vaddr)
    let idx := (vaddr / 4096 * 4096 - p.startAddress) / 4096
    Outcome.ASSERT (p.resources.get idx)
    return p.privileges idx

def release (p : VAddressPool) (address count : Nat) : VAddressPool :=
  let start := (address - p.startAddress) / 4096
  { p with
    resources := p.resources.release start count
    privileges := fun idx => if !p.isStatic && start ≤ idx && idx < start + count then VP_CLEAR
      else p.privileges idx }

end VAddressPool

structure UserVAddressPool where
  text : Boundary
  data : Boundary
  bss : Boundary
  heapPool : VAddressPool
  stackPool : VAddressPool
  mmapPool : VAddressPool
  TLSPool : VAddressPool
  owner : Nat

namespace UserVAddressPool

def vaddr2Seg (u : UserVAddressPool) (vaddr : Nat) : UserSegment :=
  if u.text.isValidAddr vaddr then .TEXT
  else if u.data.isValidAddr vaddr then .DATA
  else if u.bss.isValidAddr vaddr then .BSS
  else if u.heapPool.isValidAddr vaddr then .HEAP
  else if u.stackPool.isValidAddr vaddr then .STACK
  else if u.TLSPool.isValidAddr vaddr then .TLS
  else if u.mmapPool.isValidAddr vaddr then .MMAP
  else .EMPTY

def getVPageFlag (u : UserVAddressPool) (seg : UserSegment) (vaddr : Nat) : Outcome Byte :=
  match seg with
  | .TEXT => return VP_USER
  | .DATA => return VP_RW ||| VP_USER
  | .BSS => return VP_RW ||| VP_USER
  | .HEAP => u.heapPool.getVPageFlag vaddr
  | .STACK => u.stackPool.getVPageFlag vaddr
  | .TLS => u.TLSPool.getVPageFlag vaddr
  | .MMAP => u.mmapPool.getVPageFlag vaddr
  | .EMPTY => .halt

def release (u : UserVAddressPool) (seg : UserSegment) (vaddr count : Nat) : UserVAddressPool :=
  match seg with
  | .HEAP => { u with heapPool := u.heapPool.release vaddr count }
  | .STACK => { u with stackPool := u.stackPool.release vaddr count }
  | .TLS => { u with TLSPool := u.TLSPool.release vaddr count }
  | .MMAP => { u with mmapPool := u.mmapPool.release vaddr count }
  | _ => u

/-- `cloneFrom`: the parameters, the bitmaps and the privileges are those of the parent. -/
def cloneFrom (parent : UserVAddressPool) (owner : Nat) : UserVAddressPool := { parent with owner }

end UserVAddressPool

/-- The part of a `PCB` that paging uses; `pageDirectory` is the frame of the page directory. -/
structure PCB where
  pid : Nat
  pageDirectory : Nat
  userVirtual : UserVAddressPool

/-- The memory manager, the processes by their pid, and the registers and the cache of the MMU: `cr3`
is the frame of the page directory in use and `tlb` the translations it has cached, a page number and
the entry found for it each. -/
structure Kernel where
  mem : Nat → Nat → Word
  pageinfos : Nat → PageInfo
  rmapManager : RMapManager
  kernelPhysical : PAddressPool
  userPhysical : PAddressPool
  kernelVirtual : VAddressPool
  programs : Nat → Option PCB
  running : Option Nat
  cr3 : Nat
  tlb : List (Nat × Word)

namespace Kernel

/-! ### Memory -/

def setWord (s : Kernel) (frame idx : Nat) (w : Word) : Kernel :=
  { s with mem := Function.update s.mem frame (Function.update (s.mem frame) idx w) }

/-- `memset(page, 0, PAGE_SIZE)`. -/
def clearPage (s : Kernel) (frame : Nat) : Kernel :=
  { s with mem := Function.update s.mem frame fun _ => 0#32 }

/-- `memcpy(dst, src, PAGE_SIZE)`. -/
def copyPage (s : Kernel) (dst src : Nat) : Kernel :=
  { s with mem := Function.update s.mem dst (s.mem src) }

def setInfo (s : Kernel) (pgi : Nat) (pi : PageInfo) : Kernel :=
  { s with pageinfos := Function.update s.pageinfos pgi pi }

/-- The entry of the page directory in frame `dir` for an address. -/
def pde (s : Kernel) (dir vaddr : Nat) : Word := s.mem dir (pdeIdx vaddr)

/-- The frame of the page table for an address. -/
def table (s : Kernel) (dir vaddr : Nat) : Nat := PA2PGI (getAddress (s.pde dir vaddr))

/-- The entry of the page table for an address; there is one only if that of the directory is present. -/
def pte (s : Kernel) (dir vaddr : Nat) : Word := s.mem (s.table dir vaddr) (pteIdx vaddr)

def setPde (s : Kernel) (dir vaddr : Nat) (w : Word) : Kernel := s.setWord dir (pdeIdx vaddr) w

def setPte (s : Kernel) (dir vaddr : Nat) (w : Word) : Kernel :=
  s.setWord (s.table dir vaddr) (pteIdx vaddr) w

/-- The physical address of the entry of the page table. -/
def ptePaddr (s : Kernel) (dir vaddr : Nat) : Nat := getAddress (s.pde dir vaddr) + pteIdx vaddr * 4

/-- `toPTEpa`. -/
def toPTEpa (s : Kernel) (vaddr : Nat) : Nat :=
  if hasFlag (s.pde s.cr3 vaddr) PTE_PRESENT then s.ptePaddr s.cr3 vaddr else 0

/-- `asm_invlpg`. -/
def invlpg (s : Kernel) (vaddr : Nat) : Kernel :=
  { s with tlb := s.tlb.filter fun cached => cached.1 ≠ vaddr / 4096 }

/-- `asm_update_cr3`. -/
def updateCr3 (s : Kernel) (dir : Nat) : Kernel := { s with cr3 := dir, tlb := [] }

/-- `programManager.running`. -/
def runningPCB (s : Kernel) : Option PCB := s.running.bind s.programs

/-! ### Physical pages -/

def poolAllocate (s : Kernel) (type : AddressPoolType) (count : Nat) : Option Nat × Kernel :=
  match type with
  | .KERNEL =>
      let (start, p) := s.kernelPhysical.allocate count
      (start, { s with kernelPhysical := p })
  | .USER =>
      let (start, p) := s.userPhysical.allocate count
      (start, { s with userPhysical := p })

def poolRelease (s : Kernel) (type : AddressPoolType) (paddr count : Nat) : Kernel :=
  match type with
  | .KERNEL => { s with kernelPhysical := s.kernelPhysical.release paddr count }
  | .USER => { s with userPhysical := s.userPhysical.release paddr count }

/-- The loop of `allocatePhysicalPages` over the pages from `pgi` on. -/
def markAllocated (s : Kernel) (type : AddressPoolType) (pgi : Nat) : Nat → Outcome Kernel
  | 0 => return s
  | count + 1 => do
      let s ← s.markAllocated type pgi count
      Outcome.ASSERT ((s.pageinfos (pgi + count)).has PG_FREE)
      return s.setInfo (pgi + count) (match type with
        | .KERNEL => PageInfo.cleared.setFlag PG_KERNEL
        | .USER => PageInfo.cleared)

/-- The address of the first page, a `uint32`; 0 if there is none. -/
def allocatePhysicalPages (s : Kernel) (type : AddressPoolType) (count : Nat) : Outcome (Nat × Kernel) :=
  match s.poolAllocate type count with
  | (none, s) => return (0, s)
  | (some address, s) => do
      let start := address % 2 ^ 32
      let pgi := PA2PGI start
      let s ← s.markAllocated type pgi count
      if count = 1 then
        Outcome.ASSERT (!(s.pageinfos pgi).has PG_SINGLE)
        return (start, s.setInfo pgi ((s.pageinfos pgi).setFlag PG_SINGLE))
      else return (start, s)

/-- The loop of `releasePhysicalPages` over the pages from `pgi` on. -/
def markReleased (s : Kernel) (pgi : Nat) : Nat → Outcome Kernel
  | 0 => return s
  | count + 1 => do
      let s ← s.markReleased pgi count
      Outcome.ASSERT (!(s.pageinfos (pgi + count)).has PG_FREE)
      return s.setInfo (pgi + count) ((s.pageinfos (pgi + count)).setFlag PG_FREE)

def releasePhysicalPages (s : Kernel) (type : AddressPoolType) (paddr count : Nat) : Outcome Kernel := do
  let pgi := PA2PGI paddr
  let s ← (s.poolRelease type paddr count).markReleased pgi count
  if count = 1 then
    Outcome.ASSERT ((s.pageinfos pgi).has PG_SINGLE)
    return s.setInfo pgi ((s.pageinfos pgi).clearFlag PG_SINGLE)
  else return s

end Kernel

end SysuOs
