import SysuOs.ElfSpaces
import SysuOs.PagingCounters
import SysuOs.PagePool

/-! The page tables of one address space together with what their pages come from and are recorded in: the
two physical pools and the reverse mappings. Whether a pool or `attach` has anything left is a matter of
the state here. -/

namespace SysuOs.PageTables

open Flags Kernel

/-- An address space, the two physical pools, whose pages are given by their frame numbers, and the reverse
mappings that are attached: the frame of the page, the frame of the page table and the index in it.
`rmapNodes` is the number of entries of `RMapManager`. -/
structure Memory (P : Type) extends Space where
  privilege : Nat → Byte
  userPhysical : P
  kernelPhysical : P
  rmap : Multiset (Nat × Nat × Nat)
  rmapNodes : Nat

namespace Memory

variable {P : Type} [PagePool P]

def pool (m : Memory P) : AddressPoolType → P
  | .KERNEL => m.kernelPhysical
  | .USER => m.userPhysical

def setPool (m : Memory P) (type : AddressPoolType) (p : P) : Memory P :=
  match type with
  | .KERNEL => { m with kernelPhysical := p }
  | .USER => { m with userPhysical := p }

def withSpace (m : Memory P) (s : Space) : Memory P := { m with toSpace := s }

/-! ### `memory.cpp` -/

/-- `allocatePhysicalPages` for one page. -/
def allocatePhysicalPages (m : Memory P) (type : AddressPoolType) : Option Nat × Memory P :=
  match PagePool.allocate (m.pool type) with
  | some (x, p) => (some x, m.setPool type p)
  | none => (none, m)

/-- `releasePhysicalPages` for one page. -/
def releasePhysicalPages (m : Memory P) (type : AddressPoolType) (x : Nat) : Memory P :=
  m.setPool type (PagePool.release (m.pool type) x)

/-- A page table where there is none; whether there is one then. -/
def needTable (m : Memory P) (type : AddressPoolType) (n : Nat) : Bool × Memory P :=
  match m.pde (n / 1024) with
  | some _ => (true, m)
  | none =>
      match m.allocatePhysicalPages .KERNEL with
      | (some frame, m) => (true, m.withSpace (m.toSpace.linkTable type n frame))
      | (none, m) => (false, m)

/-- The pool of virtual pages that a call is about: its fixed privilege if it is a static one. -/
structure VPool where
  isStatic : Bool
  staticPrivilege : Byte

/-- `getVPageFlag`. -/
def getVPageFlag (m : Memory P) (v : VPool) (n : Nat) : Byte :=
  if v.isStatic then v.staticPrivilege else m.privilege n

/-- The pages of a range become reserved or free, with a privilege. -/
def setVirtualPages (m : Memory P) (v : VPool) (start count : Nat) (inUse : Bool) (flag : Byte) : Memory P :=
  { m with
    toSpace := m.toSpace.reserve start count inUse
    privilege := fun n =>
      if !v.isStatic && start ≤ n && n < start + count then flag else m.privilege n }

/-- `releaseVirtualPages`. -/
def releaseVirtualPages (m : Memory P) (v : VPool) (start count : Nat) : Memory P :=
  m.setVirtualPages v start count false VP_CLEAR

/-- `toPTEpa`, with the frame of the page: what a reverse mapping of page `n` records. -/
def place (m : Memory P) (n x : Nat) : Nat × Nat × Nat :=
  match m.pde (n / 1024) with
  | some e => (x, e.frame, n % 1024)
  | none => (x, 0, 0)

/-- `RMapManager::attach`. -/
def attach (m : Memory P) (r : Nat × Nat × Nat) : Bool × Memory P :=
  if m.rmap.card < m.rmapNodes then (true, { m with rmap := r ::ₘ m.rmap }) else (false, m)

/-- `RMapManager::detach`. -/
def detach (m : Memory P) (r : Nat × Nat × Nat) : Bool × Memory P :=
  if r ∈ m.rmap then (true, { m with rmap := m.rmap.erase r }) else (false, m)

/-- `getRef` of a page. -/
def refs (m : Memory P) (x : Nat) : Nat := (m.rmap.filter fun r => r.1 = x).card

def connectPhysicalVirtualPage (m : Memory P) (type : AddressPoolType) (v : VPool) (n x : Nat) :
    Outcome (Bool × Memory P) :=
  match m.needTable type n with
  | (false, m) => return (false, m)
  | (true, m) => do
      let m := m.withSpace (m.toSpace.mapPage n (Elf.processEntry (x * 4096) (m.getVPageFlag v n)))
      let (attached, m) := m.attach (m.place n x)
      Outcome.ASSERT (attached = true)
      return (true, m)

/-- `releasePageTable`. -/
def releasePageTable (m : Memory P) (n frame : Nat) : Memory P :=
  let m := m.releasePhysicalPages .KERNEL frame
  m.withSpace (m.toSpace.releasePageTable n)

/-- An iteration of `releasePages`. -/
def releasePage (m : Memory P) (type : AddressPoolType) (n : Nat) : Outcome (Memory P) :=
  match m.pde (n / 1024) with
  | none => return m
  | some e =>
      if !hasFlag (m.entry n) PTE_PRESENT then return m.withSpace (m.toSpace.setPte n 0#32)
      else do
        let x := frameOf (m.entry n)
        let (found, m) := m.detach (m.place n x)
        Outcome.ASSERT (found = true)
        let m := if m.refs x = 0 then m.releasePhysicalPages type x else m
        let (empty, s) ← (m.toSpace.setPte n 0#32).pdeDec n
        let m := m.withSpace s
        return if empty then m.releasePageTable n e.frame else m

/-- The loop of `releasePages`. -/
def releaseLoop (type : AddressPoolType) : Nat → Nat → Memory P → Outcome (Memory P)
  | 0, _, m => return m
  | count + 1, n, m => do
      let m ← m.releasePage type n
      releaseLoop type count (n + 1) m

def releasePages (m : Memory P) (type : AddressPoolType) (v : VPool) (start count : Nat) :
    Outcome (Memory P) := do
  let m ← releaseLoop type count start m
  return m.releaseVirtualPages v start count

/-- What `allocatePages` does for a page. -/
def allocatePage (m : Memory P) (type : AddressPoolType) (v : VPool) (n : Nat) : Outcome (Bool × Memory P) :=
  match m.allocatePhysicalPages type with
  | (some x, m) => m.connectPhysicalVirtualPage type v n x
  | (none, m) => return (false, m)

/-- The loop of `allocatePages`, with `left` of its pages left. -/
def allocatePagesLoop (type : AddressPoolType) (v : VPool) (start count : Nat) :
    Nat → Memory P → Outcome (Option Nat × Memory P)
  | 0, m => return (some start, m)
  | left + 1, m => do
      let i := count - (left + 1)
      let (flag, m) ← m.allocatePage type v (start + i)
      if flag then allocatePagesLoop type v start count left m
      else do
        let m ← m.releasePages type v start i
        return (none, m.releaseVirtualPages v (start + i) (count - i))

/-- `allocatePages`, `start` being what the virtual pool answers. -/
def allocatePages (m : Memory P) (type : AddressPoolType) (v : VPool) (start : Option Nat) (count : Nat)
    (flag : Byte) : Outcome (Option Nat × Memory P) :=
  match start with
  | none => return (none, m)
  | some start => allocatePagesLoop type v start count count (m.setVirtualPages v start count true flag)

/-! ### `program.cpp` -/

/-- `map_process_page`; a page table that has been linked stays if it fails. -/
def mapProcessPage (m : Memory P) (n x : Nat) (flags : Byte) : Outcome (Bool × Memory P) :=
  match m.needTable .USER n with
  | (false, m) => return (false, m)
  | (true, m) =>
      if hasFlag (m.entry n) PTE_PRESENT then return (false, m)
      else
        let m := m.withSpace (m.toSpace.mapPage n (Elf.processEntry (x * 4096) flags))
        match m.attach (m.place n x) with
        | (true, m) => return (true, m)
        | (false, m) => do
            let (_, s) ← (m.toSpace.setPte n 0#32).pdeDec n
            return (false, m.withSpace s)

/-- `release_process_page`; what `detach` and `PDEdec` return is ignored. -/
def releaseProcessPage (m : Memory P) (n : Nat) : Outcome (Memory P) :=
  match m.pde (n / 1024) with
  | none => return m
  | some _ =>
      if hasFlag (m.entry n) PTE_PRESENT then do
        let x := frameOf (m.entry n)
        let m := ((m.withSpace (m.toSpace.setPte n 0#32)).detach (m.place n x)).2.releasePhysicalPages .USER x
        let (_, s) ← m.toSpace.pdeDec n
        return m.withSpace s
      else return m

end Memory

/-! ### What the steps leave -/

namespace Memory

section Pools

variable {P : Type} {m : Memory P} {type : AddressPoolType}

@[simp] theorem setPool_space (m : Memory P) (type : AddressPoolType) (p : P) :
    (m.setPool type p).toSpace = m.toSpace := by cases type <;> rfl

@[simp] theorem setPool_rmap (m : Memory P) (type : AddressPoolType) (p : P) :
    (m.setPool type p).rmap = m.rmap := by cases type <;> rfl

@[simp] theorem setPool_self (m : Memory P) (type : AddressPoolType) (p : P) :
    (m.setPool type p).pool type = p := by cases type <;> rfl

theorem setPool_of_ne {type' : AddressPoolType} (h : type' ≠ type) (p : P) :
    (m.setPool type p).pool type' = m.pool type' := by
  cases type <;> cases type' <;> first | rfl | exact absurd rfl h

theorem detach_space (m : Memory P) (r : Nat × Nat × Nat) : (m.detach r).2.toSpace = m.toSpace := by
  rw [detach]
  split <;> rfl

end Pools

variable {P : Type} [PagePool P] {m m' : Memory P} {type : AddressPoolType} {x : Nat}

theorem allocatePhysicalPages_some (h : m.allocatePhysicalPages type = (some x, m')) :
    ∃ p, PagePool.allocate (m.pool type) = some (x, p) ∧ m' = m.setPool type p := by
  rw [allocatePhysicalPages] at h
  split at h
  · next y p hp =>
      obtain ⟨hx, rfl⟩ := Prod.mk.inj h
      obtain rfl := Option.some.inj hx
      exact ⟨p, hp, rfl⟩
  · cases h

theorem allocatePhysicalPages_space (m : Memory P) (type : AddressPoolType) :
    (m.allocatePhysicalPages type).2.toSpace = m.toSpace := by
  rw [allocatePhysicalPages]
  split
  · exact setPool_space m type _
  · rfl

end Memory

end SysuOs.PageTables
