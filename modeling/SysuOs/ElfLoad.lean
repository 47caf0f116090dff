import SysuOs.ElfLayout
import SysuOs.PagingFork
import SysuOs.PagingShrink

/-! Loading a file: `createUserVirtualPool` in its mode 0 copies every segment page by page into new frames
and maps them. The set-up of the address pools and of the input buffer is in the kernel half, of which only
the outcome is a parameter here. -/

namespace SysuOs.Elf

open Kernel

def min (a b : Word) : Word := if a < b then a else b

/-- The word `k` of a page of bytes. -/
def wordAt (page : ByteMap) (k : Nat) : Word := u32At page (4 * k)

/-- The byte at an offset of a frame. -/
def byteAt (s : Kernel) (frame off : Nat) : Byte := (s.mem frame (off / 4)).extractLsb' (8 * (off % 4)) 8

/-- `load_segment_page` up to the copy into the page: what the input buffer holds. -/
def loadSegmentPage (read : Reader) (seg : ElfSegment) (page_vaddr : Word) : Option ByteMap :=
  let seg_file_begin := seg.file_vaddr
  let seg_file_end := seg.file_vaddr + seg.filesz
  let page_begin := page_vaddr
  let page_end := page_vaddr + PAGE_SIZE
  let copy_begin := max page_begin seg_file_begin
  let copy_end := min page_end seg_file_end
  if copy_begin < copy_end then
    let chunk := copy_end - copy_begin
    (read (seg.offset + copy_begin - seg.file_vaddr) chunk.toNat).map fun bytes =>
      memcpy (fun _ => 0) (copy_begin - page_begin).toNat bytes chunk.toNat
  else some fun _ => 0

/-- `memcpy(page_kaddr, io_buffer, PAGE_SIZE)`. -/
def fillPage (s : Kernel) (frame : Nat) (page : ByteMap) : Kernel :=
  { s with mem := Function.update s.mem frame (wordAt page) }

/-- The entry `map_process_page` makes. -/
def processEntry (paddr : Nat) (flags : Byte) : Word :=
  BitVec.ofNat 32 paddr ||| vPageFlags2PTE flags ||| PTE_PRESENT

/-- `map_process_page`: a page that is mapped already is refused. -/
def mapProcessPage (s : Kernel) (pgdir pid vaddr paddr : Nat) (flags : Byte) : Outcome (Bool × Kernel) := do
  match ← s.setupTable pgdir vaddr with
  | (false, s) => return (false, s)
  | (true, s) =>
    if hasFlag (s.pte pgdir vaddr) PTE_PRESENT then return (false, s)
    else
      let counted := (s.setPte pgdir vaddr (processEntry paddr flags)).pdeInc pgdir vaddr
      let (idx, s) ← counted.attach (PA2PGI paddr) (counted.ptePaddr pgdir vaddr) PTE_ANON_VADDR pid
      match idx with
      | some _ => return (true, s)
      | none => do
        let (_, s) ← (s.setPte pgdir vaddr 0#32).pdeDec pgdir vaddr
        return (false, s)

/-- `release_process_page`. -/
def releaseProcessPage (s : Kernel) (pgdir pid vaddr : Nat) : Outcome Kernel :=
  if hasFlag (s.pde pgdir vaddr) PDE_PRESENT = false then return s
  else
    let pte := s.pte pgdir vaddr
    if hasFlag pte PTE_PRESENT = false then return s
    else do
      let paddr := getAddress pte
      let (_, s) ← (s.setPte pgdir vaddr 0#32).detach (PA2PGI paddr) (s.ptePaddr pgdir vaddr) pid
      let s ← s.releasePhysicalPages .USER paddr 1
      let (_, s) ← s.pdeDec pgdir vaddr
      return s

def pageBegin (seg : ElfSegment) : Word := align_down seg.vaddr PAGE_SIZE

def pageEnd (seg : ElfSegment) : Word := align_up (seg.vaddr + seg.memsz) PAGE_SIZE

/-- The inner loop of `rollback_loaded_segments`. -/
def rollbackPages (pgdir pid : Nat) (page_end : Word) : Nat → Word → Kernel → Outcome Kernel
  | 0, _, _ => .diverge
  | fuel + 1, vaddr, s =>
    if vaddr < page_end then do
      let s ← releaseProcessPage s pgdir pid vaddr.toNat
      rollbackPages pgdir pid page_end fuel (vaddr + PAGE_SIZE) s
    else return s

def rollbackLoadedSegments (pgdir pid : Nat) : List ElfSegment → Kernel → Outcome Kernel
  | [], s => return s
  | seg :: segments, s => do
    let s ← rollbackPages pgdir pid (pageEnd seg) (2 ^ 20 + 1) (pageBegin seg) s
    rollbackLoadedSegments pgdir pid segments s

/-- The body of the inner loop of `createUserVirtualPool`: one page of a segment. -/
def loadPage (read : Reader) (pgdir pid : Nat) (seg : ElfSegment) (vaddr : Word) (s : Kernel) :
    Outcome (Bool × Kernel) := do
  let (paddr, s) ← s.allocatePhysicalPages .USER 1
  if paddr = 0 then return (false, s)
  else
    match loadSegmentPage read seg vaddr with
    | none => do
      let s ← s.releasePhysicalPages .USER paddr 1
      return (false, s)
    | some page => do
      match ← mapProcessPage (fillPage s (PA2PGI paddr) page) pgdir pid vaddr.toNat paddr seg.flags with
      | (true, s) => return (true, s)
      | (false, s) => do
        let s ← s.releasePhysicalPages .USER paddr 1
        return (false, s)

def loadPages (read : Reader) (pgdir pid : Nat) (seg : ElfSegment) (page_end : Word) : Nat → Word → Kernel →
    Outcome (Bool × Kernel)
  | 0, _, _ => .diverge
  | fuel + 1, vaddr, s =>
    if vaddr < page_end then do
      match ← loadPage read pgdir pid seg vaddr s with
      | (false, s) => return (false, s)
      | (true, s) => loadPages read pgdir pid seg page_end fuel (vaddr + PAGE_SIZE) s
    else return (true, s)

def loadSegments (read : Reader) (pgdir pid : Nat) : List ElfSegment → Kernel → Outcome (Bool × Kernel)
  | [], s => return (true, s)
  | seg :: segments, s => do
    match ← loadPages read pgdir pid seg (pageEnd seg) (2 ^ 20 + 1) (pageBegin seg) s with
    | (false, s) => return (false, s)
    | (true, s) => loadSegments read pgdir pid segments s

/-- `createUserVirtualPool(process, elfConf, 0)`; `ready` says that the pools of the process and the input
buffer are there. -/
def createUserVirtualPool (read : Reader) (s : Kernel) (process : PCB) (elfConf : ELFConfig) (ready : Bool) :
    Outcome (Bool × Kernel) :=
  if ready = false then return (false, s)
  else do
    match ← loadSegments read process.pageDirectory process.pid elfConf.segments s with
    | (true, s) => return (true, s)
    | (false, s) => do
      let s ← rollbackLoadedSegments process.pageDirectory process.pid elfConf.segments s
      return (false, s)

end SysuOs.Elf
