import Mathlib
import SysuOs.BitMap

/-! The buddy allocator of `buddy.cpp` and the physical address pool of `address_pool.cpp` on top of
it. A `FreeNode*` is the index of the node in the static array `freeNodes`, the null pointer being
`none`; an index returned as `-1` is `none` as well. A loop is a recursion on a bound for the number
of its rounds, and the lemma next to its proof shows that the bound is never what ends it. -/

namespace SysuOs

def PAGE_SIZE : Nat := 4096

/-- The largest block has `2 ^ MAX_ORDER` pages. -/
def MAX_ORDER : Nat := 10

def pow2 (exp : Nat) : Nat := 1 <<< exp

/-- The loop of `log2`, run for at most `fuel` rounds. -/
def log2Loop : Nat → Nat → Int → Int
  | 0, _, res => res
  | fuel + 1, num, res => if num > 1 then log2Loop fuel (num >>> 1) (res + 1) else res

/-- `-1` when `num <= 0`. -/
def log2 (num : Int) : Int :=
  if num ≤ 0 then -1 else log2Loop num.toNat num.toNat 0

/-- The macro `count2order`; it is not negative. -/
def count2order (count : Int) : Nat := (log2 (count - 1) + 1).toNat

structure FreeNode where
  startIndex : Nat
  order : Nat
  next : Option Nat
  prev : Option Nat
  deriving DecidableEq, Repr, Inhabited

structure Buddy where
  freeBitmap : ByteMap
  freeNodes : Nat → FreeNode
  freeArea : Nat → Option Nat
  bitmap : ByteMap
  totalPages : Nat

namespace Buddy

def setNode (b : Buddy) (i : Nat) (node : FreeNode) : Buddy :=
  { b with freeNodes := Function.update b.freeNodes i node }

def setNext (b : Buddy) (i : Nat) (next : Option Nat) : Buddy :=
  b.setNode i { b.freeNodes i with next := next }

def setPrev (b : Buddy) (i : Nat) (prev : Option Nat) : Buddy :=
  b.setNode i { b.freeNodes i with prev := prev }

def setArea (b : Buddy) (order : Nat) (head : Option Nat) : Buddy :=
  { b with freeArea := Function.update b.freeArea order head }

/-- The first statement of `FreeNode::release`. -/
def releaseFromPrev (b : Buddy) (i : Nat) : Buddy :=
  match (b.freeNodes i).prev with
  | some p => b.setNext p (b.freeNodes i).next
  | none => b

/-- The second statement of `FreeNode::release`. -/
def releaseFromNext (b : Buddy) (i : Nat) : Buddy :=
  match (b.freeNodes i).next with
  | some n => b.setPrev n (b.freeNodes i).prev
  | none => b

/-- `FreeNode::release`. -/
def releaseNode (b : Buddy) (i : Nat) : Buddy := (b.releaseFromPrev i).releaseFromNext i

/-- The search of `find_avail_freeNode` from `i` on. -/
def findAvailLoop (b : Buddy) : Nat → Nat → Option Nat
  | 0, _ => none
  | fuel + 1, i => if getMap b.freeBitmap i then b.findAvailLoop fuel (i + 1) else some i

def findAvailFreeNode (b : Buddy) : Option Nat := b.findAvailLoop b.totalPages 0

def mallocFreeNode (b : Buddy) : Option Nat × Buddy :=
  match b.findAvailFreeNode with
  | none => (none, b)
  | some idx => (some idx, { b with freeBitmap := setMap b.freeBitmap idx true })

def freeFreeNode (b : Buddy) (i : Nat) : Buddy :=
  releaseNode { b with freeBitmap := setMap b.freeBitmap i false } i

/-- `-1` when there is no node left, and then nothing is inserted. -/
def insertFreeNode (b : Buddy) (startIndex order : Nat) : Int × Buddy :=
  match b.mallocFreeNode with
  | (none, b) => (-1, b)
  | (some i, b) =>
      let b := b.setNode i { startIndex, order, next := none, prev := none }
      match b.freeArea order with
      | some head => (0, ((b.setNext i (some head)).setPrev head (some i)).setArea order (some i))
      | none => (0, b.setArea order (some i))

def removeFreeNode (b : Buddy) (i : Nat) : Buddy :=
  let order := (b.freeNodes i).order
  let b := if some i = b.freeArea order then b.setArea order (b.freeNodes i).next else b
  b.freeFreeNode i

/-- The walk of `findNode` along `next`. -/
def findNodeLoop (b : Buddy) (index : Nat) : Nat → Option Nat → Option Nat
  | 0, _ => none
  | _ + 1, none => none
  | fuel + 1, some cnt =>
      if (b.freeNodes cnt).startIndex = index then some cnt
      else b.findNodeLoop index fuel (b.freeNodes cnt).next

def findNode (b : Buddy) (index order : Nat) : Option Nat :=
  b.findNodeLoop index (b.totalPages + 1) (b.freeArea order)

/-- `allocateBlock`; `fuel` bounds the depth of its recursion. -/
def allocateBlockLoop : Nat → Buddy → Nat → Option Nat × Buddy
  | 0, b, _ => (none, b)
  | fuel + 1, b, order =>
      if order > MAX_ORDER then (none, b)
      else match b.freeArea order with
        | some node => (some (b.freeNodes node).startIndex, b.removeFreeNode node)
        | none =>
            match allocateBlockLoop fuel b (order + 1) with
            | (none, b) => (none, b)
            | (some idx, b) => (some idx, (b.insertFreeNode (idx + pow2 order) order).2)

def allocateBlock (b : Buddy) (order : Nat) : Option Nat × Buddy :=
  allocateBlockLoop (MAX_ORDER + 2) b order

/-- The merge loop of `releaseBlock`: what it leaves of the lists, the start and the order. -/
def mergeLoop : Nat → Buddy → Nat → Nat → Buddy × Nat × Nat
  | 0, b, startIndex, order => (b, startIndex, order)
  | fuel + 1, b, startIndex, order =>
      if order < MAX_ORDER + 1 then
        let buddyIndex := startIndex ^^^ (1 <<< order)
        if getMap b.bitmap buddyIndex = false then
          match b.findNode buddyIndex order with
          | some buddyNode =>
              mergeLoop fuel (b.removeFreeNode buddyNode) (min startIndex buddyIndex) (order + 1)
          | none => (b, startIndex, order)
        else (b, startIndex, order)
      else (b, startIndex, order)

def releaseBlock (b : Buddy) (startIndex order : Nat) : Buddy :=
  let (b, startIndex, order) := mergeLoop (MAX_ORDER + 1) b startIndex order
  (b.insertFreeNode startIndex (min order MAX_ORDER)).2

/-- `for (i = 0; i < count; i++) SET_MAP(bitmap, index + i, state)`. -/
def setPages (map : ByteMap) (index : Nat) : Nat → Bool → ByteMap
  | 0, _ => map
  | count + 1, state => setMap (setPages map index count state) (index + count) state

def allocate (b : Buddy) (count : Int) : Option Nat × Buddy :=
  let order := count2order count
  match b.allocateBlock order with
  | (none, b) => (none, b)
  | (some startIndex, b) =>
      (some startIndex, { b with bitmap := setPages b.bitmap startIndex (pow2 order) true })

def release (b : Buddy) (index : Nat) (count : Int) : Buddy :=
  let b := b.releaseBlock index (count2order count)
  { b with bitmap := setPages b.bitmap index (pow2 (count2order count)) false }

/-- The loop of `initialize` for the largest order `startIdx` is aligned to. -/
def maxOrderLoop (startIdx : Nat) : Nat → Nat → Nat
  | 0, maxOrder => maxOrder
  | fuel + 1, maxOrder =>
      if startIdx &&& (1 <<< maxOrder) = 0 ∧ maxOrder < MAX_ORDER then
        maxOrderLoop startIdx fuel (maxOrder + 1)
      else maxOrder

/-- The loop of `initialize` over the free pages from `startIdx` on. -/
def probeLoop (b : Buddy) (startIdx maxOrder : Nat) : Nat → Nat → Nat
  | 0, idx => idx
  | fuel + 1, idx =>
      if getMap b.bitmap idx = false ∧ idx - startIdx + 1 ≤ pow2 maxOrder ∧ idx < b.totalPages then
        b.probeLoop startIdx maxOrder fuel (idx + 1)
      else idx

/-- The order of the block `initialize` takes from the free page `startIdx` on. -/
def probeOrder (b : Buddy) (startIdx : Nat) : Nat :=
  let maxOrder := maxOrderLoop startIdx MAX_ORDER 0
  let idx := b.probeLoop startIdx maxOrder (pow2 maxOrder) startIdx - 1
  let length := idx - startIdx + 1
  (log2 length).toNat

def initLoop : Nat → Buddy → Nat → Buddy
  | 0, b, _ => b
  | fuel + 1, b, idx =>
      if idx < b.totalPages then
        if getMap b.bitmap idx then initLoop fuel b (idx + 1)
        else
          let order := b.probeOrder idx
          initLoop fuel (b.releaseBlock idx order) (idx + pow2 order)
      else b

/-- `Buddy::initialize`: the bitmaps, the lists and the nodes are taken as they are, not cleared. -/
def init (b : Buddy) (bitmap : ByteMap) (totalPages : Nat) (freeBitMap : ByteMap)
    (freeNodes : Nat → FreeNode) : Buddy :=
  initLoop totalPages { b with bitmap, totalPages, freeBitmap := freeBitMap, freeNodes } 0

def isAlloc (b : Buddy) (idx : Nat) : Bool :=
  ((b.bitmap (idx >>> 3) &&& (1#8 <<< (idx &&& 0x7))).setWidth 32 &&& 1#32) != 0#32

end Buddy

structure PAddressPool where
  resources : Buddy
  startAddress : Nat
  length : Nat

namespace PAddressPool

/-- `PAddressPool::initialize`. -/
def init (p : PAddressPool) (bitmap : ByteMap) (length startAddress : Nat)
    (freeBitMap : ByteMap) (freeNodes : Nat → FreeNode) : PAddressPool :=
  { resources := p.resources.init bitmap length freeBitMap freeNodes, startAddress, length }

def allocate (p : PAddressPool) (count : Int) : Option Nat × PAddressPool :=
  match p.resources.allocate count with
  | (none, r) => (none, { p with resources := r })
  | (some start, r) => (some (start * PAGE_SIZE + p.startAddress), { p with resources := r })

def release (p : PAddressPool) (address : Nat) (amount : Int) : PAddressPool :=
  { p with resources := p.resources.release ((address - p.startAddress) / PAGE_SIZE) amount }

/-- The pages counted along the list of one order. -/
def dumpLoop (b : Buddy) (order : Nat) : Nat → Option Nat → Nat → Nat
  | 0, _, freePages => freePages
  | _ + 1, none, freePages => freePages
  | fuel + 1, some cnt, freePages =>
      dumpLoop b order fuel (b.freeNodes cnt).next (freePages + 1 <<< order)

def dump (p : PAddressPool) : Nat :=
  (List.range (MAX_ORDER + 1)).foldl
    (fun freePages order =>
      dumpLoop p.resources order (p.resources.totalPages + 1) (p.resources.freeArea order) freePages) 0

end PAddressPool

end SysuOs
