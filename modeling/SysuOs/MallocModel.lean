import Mathlib
import SysuOs.Machine
import SysuOs.Flags

/-! The allocator of user programs (`src/libc/malloc.cpp`): boundary tags and segregated lists of free blocks,
all kept in the words of the heap itself. Every access is to an aligned word, so memory is a map from addresses
to words; a null pointer is the address 0. Requests are up to 2^30 bytes and user addresses below the stack, so no
sum of sizes and addresses wraps around. -/

namespace SysuOs

namespace Malloc

abbrev Word := BitVec 32

def MAX_GROUP : Nat := 20
def WSIZE : Nat := 4
def DSIZE : Nat := 8
def MININUM_BLK_SIZE : Nat := 24
def INTER_FRAG_SIZE : Nat := 16
def MAX_INCR : Nat := 2048
def PAGE_SIZE : Nat := 4096

/-- Rounds up to a multiple of 8. -/
def ALIGN (size : Nat) : Nat := (size + 7) / 8 * 8

/-- `ALIGN_POW2(num, PAGE_SIZE)`. -/
def alignPage (num : Nat) : Nat := (num + (PAGE_SIZE - 1)) / PAGE_SIZE * PAGE_SIZE

abbrev Memory := Nat → Word

/-! ### Tags and links -/

def PACK (size : Nat) (alloc prevAlloc : Bool) : Word :=
  BitVec.ofNat 32 size ||| (if alloc then 1#32 else 0#32) ||| (if prevAlloc then 2#32 else 0#32)

def GET_SIZE (w : Word) : Nat := (w &&& ~~~7#32).toNat

def GET_ALLOC (w : Word) : Bool := hasFlag w 1#32

def GET_PREVALLOC (w : Word) : Bool := hasFlag w 2#32

def setPrevAlloc (w : Word) (prevAlloc : Bool) : Word :=
  (w &&& ~~~2#32) ||| (if prevAlloc then 2#32 else 0#32)

def PUT (m : Memory) (p : Nat) (w : Word) : Memory := Function.update m p w

def PUT_PTR (m : Memory) (p ptr : Nat) : Memory := PUT m p (BitVec.ofNat 32 ptr)

def GET_PTR (m : Memory) (p : Nat) : Nat := (m p).toNat

def SET_PREVALLOC (m : Memory) (p : Nat) (prevAlloc : Bool) : Memory := PUT m p (setPrevAlloc (m p) prevAlloc)

/-- The address of the header of a block, given by its payload. -/
def HDRP (bp : Nat) : Nat := bp - WSIZE

def FTRP (m : Memory) (bp : Nat) : Nat := bp + GET_SIZE (m (HDRP bp)) - DSIZE

def NEXT_BLKP (m : Memory) (bp : Nat) : Nat := bp + GET_SIZE (m (HDRP bp))

def PREV_BLKP (m : Memory) (bp : Nat) : Nat := bp - GET_SIZE (m (bp - DSIZE))

def GET_NEXT_FREEBLKP (m : Memory) (bp : Nat) : Nat := GET_PTR m bp

def GET_PREV_FREEBLKP (m : Memory) (bp : Nat) : Nat := GET_PTR m (bp + DSIZE)

def PUT_NEXT_FREEBLKP (m : Memory) (bp ptr : Nat) : Memory := PUT_PTR m bp ptr

def PUT_PREV_FREEBLKP (m : Memory) (bp ptr : Nat) : Memory := PUT_PTR m (bp + DSIZE) ptr

/-! ### Lists of free blocks -/

def ilog2Loop : Nat → Nat → Nat → Nat
  | 0, _, k => k
  | fuel + 1, x, k => if x >>> 1 ≠ 0 then ilog2Loop fuel (x >>> 1) (k + 1) else k

def ilog2 (x : Nat) : Nat := if x = 0 then 0 else ilog2Loop 32 x 0

/-- The group of the blocks of a size. The subtraction of 3 is one of `uint32`. -/
def group (size : Nat) : Nat :=
  let idx := u32 (ilog2 (size - INTER_FRAG_SIZE) - 3)
  if idx ≥ MAX_GROUP then MAX_GROUP - 1 else idx

def removeFreelist (m : Memory) (bp : Nat) : Memory :=
  let nextBlkp := GET_NEXT_FREEBLKP m bp
  let prevBlkp := GET_PREV_FREEBLKP m bp
  let m := if nextBlkp ≠ 0 then PUT_PREV_FREEBLKP m nextBlkp prevBlkp else m
  let m := if prevBlkp ≠ 0 then PUT_NEXT_FREEBLKP m prevBlkp nextBlkp else m
  let m := PUT_NEXT_FREEBLKP m bp 0
  PUT_PREV_FREEBLKP m bp 0

/-- `halt` is the `exit` of a block too small. A block whose link words are not null is taken for one that is
in a list already; the `exit` for such a block comes after this check and is never reached. -/
def appendFreelist (m : Memory) (tableBase bp size : Nat) : Outcome Memory :=
  if GET_NEXT_FREEBLKP m bp ≠ 0 ∨ GET_PREV_FREEBLKP m bp ≠ 0 then
    .ret m
  else if size < 24 then
    .halt
  else
    let tableElem := tableBase + group size * DSIZE
    let m := PUT_PREV_FREEBLKP m bp tableElem
    let m := PUT_NEXT_FREEBLKP m bp (GET_PTR m tableElem)
    let m := if GET_PTR m tableElem ≠ 0 then PUT_PREV_FREEBLKP m (GET_PTR m tableElem) bp else m
    .ret (PUT_NEXT_FREEBLKP m tableElem bp)

/-- Merges a free block with the free blocks beside it and lists the result. -/
def coalesce (m : Memory) (tableBase bp : Nat) : Outcome (Nat × Memory) := do
  let prevAlloc := GET_PREVALLOC (m (HDRP bp))
  let nextAlloc := GET_ALLOC (m (HDRP (NEXT_BLKP m bp)))
  let size := GET_SIZE (m (HDRP bp))
  let (bp, newSize, m) :=
    if prevAlloc ∧ nextAlloc then
      (bp, size, m)
    else if prevAlloc ∧ ¬nextAlloc then
      let newSize := GET_SIZE (m (HDRP (NEXT_BLKP m bp))) + size
      let m := removeFreelist m (NEXT_BLKP m bp)
      let m := PUT m (HDRP bp) (PACK newSize false prevAlloc)
      let m := PUT m (FTRP m bp) (PACK newSize false prevAlloc)
      (bp, newSize, m)
    else if nextAlloc ∧ ¬prevAlloc then
      let newSize := GET_SIZE (m (HDRP (PREV_BLKP m bp))) + size
      let m := removeFreelist m (PREV_BLKP m bp)
      let m := PUT m (FTRP m bp) (PACK newSize false (GET_PREVALLOC (m (HDRP (PREV_BLKP m bp)))))
      let m := PUT m (HDRP (PREV_BLKP m bp)) (PACK newSize false (GET_PREVALLOC (m (HDRP (PREV_BLKP m bp)))))
      (PREV_BLKP m bp, newSize, m)
    else
      let newSize := GET_SIZE (m (HDRP (PREV_BLKP m bp))) + GET_SIZE (m (HDRP (NEXT_BLKP m bp))) + size
      let m := removeFreelist m (NEXT_BLKP m bp)
      let m := removeFreelist m (PREV_BLKP m bp)
      let m := PUT m (HDRP (PREV_BLKP m bp)) (PACK newSize false (GET_PREVALLOC (m (HDRP (PREV_BLKP m bp)))))
      let m := PUT m (FTRP m (NEXT_BLKP m bp)) (PACK newSize false (GET_PREVALLOC (m (HDRP (PREV_BLKP m bp)))))
      (PREV_BLKP m bp, newSize, m)
  let m ← appendFreelist m tableBase bp newSize
  return (bp, SET_PREVALLOC m (HDRP (NEXT_BLKP m bp)) false)

/-- A block that is not in use is left as it is. -/
def mmFree (m : Memory) (tableBase ptr : Nat) : Outcome Memory :=
  if ¬GET_ALLOC (m (HDRP ptr)) then
    .ret m
  else do
    let size := GET_SIZE (m (HDRP ptr))
    let prevAlloc := GET_PREVALLOC (m (HDRP ptr))
    let m := PUT m (HDRP ptr) (PACK size false prevAlloc)
    let m := PUT m (FTRP m ptr) (PACK size false prevAlloc)
    let m := PUT_NEXT_FREEBLKP m ptr 0
    let m := PUT_PREV_FREEBLKP m ptr 0
    let (_, m) ← coalesce m tableBase ptr
    return m

/-! ### The break -/

/-- The statics of the allocator, its memory, and what the kernel knows of the segment `HEAP`: the pages below
`granted` have been given to the program, in the order of their addresses; none is ever taken back. -/
structure Heap where
  mem : Memory
  memBrk : Nat
  memMaxBrk : Nat
  brkBase : Nat
  tableBase : Nat
  granted : Nat
  heapEnd : Nat

namespace Heap

/-- The system call `expandHeap`: the first of the new pages, or 0. -/
def sysExpandHeap (s : Heap) (pageCount : Nat) : Nat × Heap :=
  if s.granted + pageCount * PAGE_SIZE ≤ s.heapEnd then
    (s.granted, { s with granted := s.granted + pageCount * PAGE_SIZE })
  else
    (0, s)

/-- The part of `mem_sbrk` that runs on the first call only. -/
def sbrkFirst (s : Heap) (incr : Nat) : Option Heap :=
  if s.memBrk = 0 then
    let bytes := alignPage incr
    let (startAddr, s) := s.sysExpandHeap (bytes / PAGE_SIZE)
    if startAddr = 0 then none else some { s with memBrk := startAddr, memMaxBrk := startAddr + bytes }
  else
    some s

/-- `mem_sbrk` of a positive increment; `none` is -1. -/
def memSbrk (s : Heap) (incr : Nat) : Option Nat × Heap :=
  match s.sbrkFirst incr with
  | none => (none, s)
  | some s =>
      let oldBrk := s.memBrk
      if s.memBrk + incr > s.memMaxBrk then
        let deficit := s.memBrk + incr - s.memMaxBrk
        let bytesToRequest := alignPage deficit
        let (startAddr, s) := s.sysExpandHeap (bytesToRequest / PAGE_SIZE)
        if startAddr = 0 then
          (none, s)
        else
          (some oldBrk, { s with memMaxBrk := s.memMaxBrk + bytesToRequest, memBrk := s.memBrk + incr })
      else
        (some oldBrk, { s with memBrk := s.memBrk + incr })

def clearTable (m : Memory) (base : Nat) : Nat → Memory
  | 0 => m
  | n + 1 => PUT_PTR (clearTable m base n) (base + DSIZE * n) 0

/-- A `brkBase` of `0xFFFFFFFF` is the -1 of a `mem_sbrk` that failed. -/
def mmInit (s : Heap) : Heap :=
  match s.memSbrk (4 * WSIZE + MAX_GROUP * DSIZE) with
  | (none, s) => { s with brkBase := 0xFFFFFFFF }
  | (some base, s) =>
      let m := clearTable s.mem base MAX_GROUP
      let brkBase := base + MAX_GROUP * DSIZE
      let m := PUT m brkBase 0
      let m := PUT m (brkBase + WSIZE * 1) (PACK DSIZE true true)
      let m := PUT m (brkBase + WSIZE * 2) (PACK DSIZE true true)
      let m := PUT m (brkBase + WSIZE * 3) (PACK 0 true true)
      { s with mem := m, tableBase := base, brkBase := brkBase + 2 * WSIZE }

/-- The new free block, merged with the block before it where that is free; `none` is a null pointer. -/
def expandHeap (s : Heap) (incr : Nat) : Outcome (Option Nat × Heap) :=
  match s.memSbrk (ALIGN incr) with
  | (none, s) => .ret (none, s)
  | (some bp, s) => do
      let prevAlloc := GET_PREVALLOC (s.mem (HDRP bp))
      let m := PUT s.mem (HDRP bp) (PACK (ALIGN incr) false prevAlloc)
      let m := PUT m (FTRP m bp) (PACK (ALIGN incr) false prevAlloc)
      let m := PUT_NEXT_FREEBLKP m bp 0
      let m := PUT_PREV_FREEBLKP m bp 0
      let m := PUT m (HDRP (NEXT_BLKP m bp)) (PACK 0 true false)
      let (bp, m) ← coalesce m s.tableBase bp
      return (some bp, { s with mem := m })

/-! ### Allocation -/

def newSize (size : Nat) : Nat := ALIGN size + 2 * DSIZE

/-- The list of one group, from `ptr` on: the first block of at least `size` bytes, if there is one. -/
def findLoop (m : Memory) (size : Nat) : Nat → Nat → Outcome (Option Nat)
  | 0, _ => .diverge
  | fuel + 1, ptr =>
      if ptr = 0 then
        .ret none
      else if GET_SIZE (m (HDRP ptr)) ≥ size then
        .ret (some ptr)
      else
        findLoop m size fuel (GET_NEXT_FREEBLKP m ptr)

/-- The groups from `idx` on; `left` are left. -/
def findGroups (fuel : Nat) (m : Memory) (tableBase size : Nat) : Nat → Nat → Outcome (Option Nat)
  | 0, _ => .ret none
  | left + 1, idx => do
      match ← findLoop m size fuel (GET_PTR m (tableBase + idx * DSIZE)) with
      | some ptr => return some ptr
      | none => findGroups fuel m tableBase size left (idx + 1)

/-- The block that the loops of `mm_malloc` come to. -/
def find (fuel : Nat) (m : Memory) (tableBase size : Nat) : Outcome (Option Nat) :=
  findGroups fuel m tableBase size (MAX_GROUP - group size) (group size)

/-- What `mm_malloc` does with a free block that is large enough: it is split where the rest can be a block. -/
def place (m : Memory) (tableBase ptr newSize : Nat) : Outcome Memory :=
  let blkSize := GET_SIZE (m (HDRP ptr))
  if blkSize ≥ newSize + MININUM_BLK_SIZE then
    let resSize := blkSize - newSize
    let m := removeFreelist m ptr
    let prevAlloc := GET_PREVALLOC (m (HDRP ptr))
    let m := PUT m (HDRP ptr) (PACK newSize true prevAlloc)
    let resBp := NEXT_BLKP m ptr
    let m := PUT m (HDRP resBp) (PACK resSize false true)
    let m := PUT m (FTRP m resBp) (PACK resSize false true)
    appendFreelist m tableBase resBp resSize
  else
    let m := removeFreelist m ptr
    let prevAlloc := GET_PREVALLOC (m (HDRP ptr))
    let m := PUT m (HDRP ptr) (PACK blkSize true prevAlloc)
    let nextBp := NEXT_BLKP m ptr
    let m := if ¬GET_ALLOC (m (HDRP nextBp)) then SET_PREVALLOC m (FTRP m nextBp) true else m
    .ret (SET_PREVALLOC m (HDRP nextBp) true)

/-- `mm_malloc` once the heap has been set up. -/
def allocateLoop : Nat → Heap → Nat → Outcome (Option Nat × Heap)
  | 0, _, _ => .diverge
  | fuel + 1, s, size => do
      match ← find fuel s.mem s.tableBase (newSize size) with
      | some ptr =>
          let m ← place s.mem s.tableBase ptr (newSize size)
          return (some ptr, { s with mem := m })
      | none =>
          match ← s.expandHeap (max (newSize size) MAX_INCR) with
          | (none, s) => return (none, s)
          | (some _, s) => allocateLoop fuel s size

def mmMalloc (fuel : Nat) (s : Heap) (size : Nat) : Outcome (Option Nat × Heap) :=
  let s := if s.brkBase = 0 then s.mmInit else s
  if size = 0 then .ret (none, s) else allocateLoop fuel s size

end Heap

end Malloc

end SysuOs
