import Mathlib
import SysuOs.MallocFit

/-! `mm_malloc` for every `uint32`: sizes, addresses and the break are computed as the code does, modulo 2^32,
and the increment of `mem_sbrk` is an `int`. A call also says which sizes it has written into headers of
blocks. -/

namespace SysuOs

namespace MallocWrap

open Malloc Outcome

/-- Rounds up to a multiple of 8. -/
def ALIGN (size : Nat) : Nat := u32 (size + 7) / 8 * 8

def alignPage (num : Nat) : Nat :=
  u32 (num + (Malloc.PAGE_SIZE - 1 : Nat)) / Malloc.PAGE_SIZE * Malloc.PAGE_SIZE

def HDRP (bp : Nat) : Nat := u32 (bp - WSIZE)

def FTRP (m : Memory) (bp : Nat) : Nat := u32 (bp + GET_SIZE (m (HDRP bp)) - DSIZE)

def NEXT_BLKP (m : Memory) (bp : Nat) : Nat := u32 (bp + GET_SIZE (m (HDRP bp)))

def PREV_BLKP (m : Memory) (bp : Nat) : Nat := u32 (bp - GET_SIZE (m (u32 (bp - DSIZE))))

def GET_PREV_FREEBLKP (m : Memory) (bp : Nat) : Nat := GET_PTR m (u32 (bp + DSIZE))

def PUT_PREV_FREEBLKP (m : Memory) (bp ptr : Nat) : Memory := PUT_PTR m (u32 (bp + DSIZE)) ptr

/-! ### Lists of free blocks -/

def group (size : Nat) : Nat :=
  let idx := u32 (ilog2 (u32 (size - INTER_FRAG_SIZE)) - 3)
  if idx ≥ MAX_GROUP then MAX_GROUP - 1 else idx

def removeFreelist (m : Memory) (bp : Nat) : Memory :=
  let nextBlkp := GET_NEXT_FREEBLKP m bp
  let prevBlkp := GET_PREV_FREEBLKP m bp
  let m := if nextBlkp ≠ 0 then PUT_PREV_FREEBLKP m nextBlkp prevBlkp else m
  let m := if prevBlkp ≠ 0 then PUT_NEXT_FREEBLKP m prevBlkp nextBlkp else m
  let m := PUT_NEXT_FREEBLKP m bp 0
  PUT_PREV_FREEBLKP m bp 0

def appendFreelist (m : Memory) (tableBase bp size : Nat) : Outcome Memory :=
  if GET_NEXT_FREEBLKP m bp ≠ 0 ∨ GET_PREV_FREEBLKP m bp ≠ 0 then
    .ret m
  else if size < 24 then
    .halt
  else
    let tableElem := u32 (tableBase + group size * DSIZE)
    let m := PUT_PREV_FREEBLKP m bp tableElem
    let m := PUT_NEXT_FREEBLKP m bp (GET_PTR m tableElem)
    let m := if GET_PTR m tableElem ≠ 0 then PUT_PREV_FREEBLKP m (GET_PTR m tableElem) bp else m
    .ret (PUT_NEXT_FREEBLKP m tableElem bp)

/-- `coalesce`, with the sizes that it writes into headers. -/
def coalesce (m : Memory) (tableBase bp : Nat) : Outcome (Nat × List Nat × Memory) := do
  let prevAlloc := GET_PREVALLOC (m (HDRP bp))
  let nextAlloc := GET_ALLOC (m (HDRP (NEXT_BLKP m bp)))
  let size := GET_SIZE (m (HDRP bp))
  let (bp, newSize, headers, m) :=
    if prevAlloc ∧ nextAlloc then
      (bp, size, [], m)
    else if prevAlloc ∧ ¬nextAlloc then
      let newSize := u32 (GET_SIZE (m (HDRP (NEXT_BLKP m bp))) + size)
      let m := removeFreelist m (NEXT_BLKP m bp)
      let m := PUT m (HDRP bp) (PACK newSize false prevAlloc)
      let m := PUT m (FTRP m bp) (PACK newSize false prevAlloc)
      (bp, newSize, [newSize], m)
    else if nextAlloc ∧ ¬prevAlloc then
      let newSize := u32 (GET_SIZE (m (HDRP (PREV_BLKP m bp))) + size)
      let m := removeFreelist m (PREV_BLKP m bp)
      let m := PUT m (FTRP m bp) (PACK newSize false (GET_PREVALLOC (m (HDRP (PREV_BLKP m bp)))))
      let m := PUT m (HDRP (PREV_BLKP m bp)) (PACK newSize false (GET_PREVALLOC (m (HDRP (PREV_BLKP m bp)))))
      (PREV_BLKP m bp, newSize, [newSize], m)
    else
      let newSize := u32 (GET_SIZE (m (HDRP (PREV_BLKP m bp))) + GET_SIZE (m (HDRP (NEXT_BLKP m bp))) + size)
      let m := removeFreelist m (NEXT_BLKP m bp)
      let m := removeFreelist m (PREV_BLKP m bp)
      let m := PUT m (HDRP (PREV_BLKP m bp)) (PACK newSize false (GET_PREVALLOC (m (HDRP (PREV_BLKP m bp)))))
      let m := PUT m (FTRP m (NEXT_BLKP m bp)) (PACK newSize false (GET_PREVALLOC (m (HDRP (PREV_BLKP m bp)))))
      (PREV_BLKP m bp, newSize, [newSize], m)
  let m ← appendFreelist m tableBase bp newSize
  return (bp, headers, SET_PREVALLOC m (HDRP (NEXT_BLKP m bp)) false)

/-! ### The break -/

/-- `mem_sbrk`; from 2^31 on the increment is negative. -/
def memSbrk (s : Heap) (incr : Nat) : Option Nat × Heap :=
  if incr ≥ 2 ^ 31 then
    (none, s)
  else if incr = 0 then
    (some s.memBrk, s)
  else
    match s.sbrkFirst incr with
    | none => (none, s)
    | some s =>
        let oldBrk := s.memBrk
        let newBrk := u32 (s.memBrk + incr)
        if newBrk > s.memMaxBrk then
          let deficit := newBrk - s.memMaxBrk
          let bytesToRequest := alignPage deficit
          let (startAddr, s) := s.sysExpandHeap (bytesToRequest / Malloc.PAGE_SIZE)
          if startAddr = 0 then
            (none, s)
          else
            (some oldBrk, { s with memMaxBrk := u32 (s.memMaxBrk + bytesToRequest), memBrk := newBrk })
        else
          (some oldBrk, { s with memBrk := newBrk })

/-- The new free block, and the sizes written into its header. -/
def expandHeap (s : Heap) (incr : Nat) : Outcome (Option Nat × List Nat × Heap) :=
  match memSbrk s (ALIGN incr) with
  | (none, s) => .ret (none, [], s)
  | (some bp, s) => do
      let prevAlloc := GET_PREVALLOC (s.mem (HDRP bp))
      let m := PUT s.mem (HDRP bp) (PACK (ALIGN incr) false prevAlloc)
      let m := PUT m (FTRP m bp) (PACK (ALIGN incr) false prevAlloc)
      let m := PUT_NEXT_FREEBLKP m bp 0
      let m := PUT_PREV_FREEBLKP m bp 0
      let m := PUT m (HDRP (NEXT_BLKP m bp)) (PACK 0 true false)
      let (bp, headers, m) ← coalesce m s.tableBase bp
      return (some bp, ALIGN incr :: headers, { s with mem := m })

/-! ### Allocation -/

def newSize (size : Nat) : Nat := u32 (ALIGN size + 2 * DSIZE)

/-- The loops of `mm_malloc` stop at a block that is split or that is large enough. -/
def Taken (blkSize newSize : Nat) : Prop := blkSize ≥ u32 (newSize + MININUM_BLK_SIZE) ∨ blkSize ≥ newSize

instance (blkSize newSize : Nat) : Decidable (Taken blkSize newSize) := inferInstanceAs (Decidable (_ ∨ _))

def findLoop (m : Memory) (newSize : Nat) : Nat → Nat → Outcome (Option Nat)
  | 0, _ => .diverge
  | fuel + 1, ptr =>
      if ptr = 0 then
        .ret none
      else if Taken (GET_SIZE (m (HDRP ptr))) newSize then
        .ret (some ptr)
      else
        findLoop m newSize fuel (GET_NEXT_FREEBLKP m ptr)

def findGroups (fuel : Nat) (m : Memory) (tableBase newSize : Nat) : Nat → Nat → Outcome (Option Nat)
  | 0, _ => .ret none
  | left + 1, idx => do
      match ← findLoop m newSize fuel (GET_PTR m (u32 (tableBase + idx * DSIZE))) with
      | some ptr => return some ptr
      | none => findGroups fuel m tableBase newSize left (idx + 1)

def find (fuel : Nat) (m : Memory) (tableBase newSize : Nat) : Outcome (Option Nat) :=
  findGroups fuel m tableBase newSize (MAX_GROUP - group newSize) (group newSize)

/-- What is done with the block, and the sizes written into headers. -/
def place (m : Memory) (tableBase ptr newSize : Nat) : Outcome (List Nat × Memory) :=
  let blkSize := GET_SIZE (m (HDRP ptr))
  if blkSize ≥ u32 (newSize + MININUM_BLK_SIZE) then do
    let resSize := u32 (blkSize - newSize)
    let m := removeFreelist m ptr
    let prevAlloc := GET_PREVALLOC (m (HDRP ptr))
    let m := PUT m (HDRP ptr) (PACK newSize true prevAlloc)
    let resBp := NEXT_BLKP m ptr
    let m := PUT m (HDRP resBp) (PACK resSize false true)
    let m := PUT m (FTRP m resBp) (PACK resSize false true)
    let m ← appendFreelist m tableBase resBp resSize
    return ([newSize, resSize], m)
  else
    let m := removeFreelist m ptr
    let prevAlloc := GET_PREVALLOC (m (HDRP ptr))
    let m := PUT m (HDRP ptr) (PACK blkSize true prevAlloc)
    let nextBp := NEXT_BLKP m ptr
    let m := if ¬GET_ALLOC (m (HDRP nextBp)) then SET_PREVALLOC m (FTRP m nextBp) true else m
    .ret ([blkSize], SET_PREVALLOC m (HDRP nextBp) true)

def allocateLoop : Nat → Heap → Nat → Outcome (Option Nat × List Nat × Heap)
  | 0, _, _ => .diverge
  | fuel + 1, s, size => do
      match ← find fuel s.mem s.tableBase (newSize size) with
      | some ptr =>
          let (headers, m) ← place s.mem s.tableBase ptr (newSize size)
          return (some ptr, headers, { s with mem := m })
      | none =>
          match ← expandHeap s (max (newSize size) MAX_INCR) with
          | (none, headers, s) => return (none, headers, s)
          | (some _, headers, s) => do
              let (res, headers', s) ← allocateLoop fuel s size
              return (res, headers ++ headers', s)

/-- `mm_malloc`: the block or null, the sizes written into headers of blocks, and the heap. What `mm_init`
asks for is far from 2^32. -/
def mmMalloc (fuel : Nat) (s : Heap) (size : Nat) : Outcome (Option Nat × List Nat × Heap) :=
  let s := if s.brkBase = 0 then s.mmInit else s
  if size = 0 then .ret (none, [], s) else allocateLoop fuel s size

/-! ### Where nothing wraps around -/

theorem HDRP_eq {bp : Nat} (hlow : 4 ≤ bp) (hlt : bp < 2 ^ 32) : HDRP bp = Malloc.HDRP bp := by
  simp only [HDRP, Malloc.HDRP, WSIZE, u32]
  omega

theorem NEXT_BLKP_eq {m : Memory} {bp size : Nat} (hlow : 4 ≤ bp) (hlt : bp < 2 ^ 32)
    (hsize : GET_SIZE (m (Malloc.HDRP bp)) = size) (hend : bp + size < 2 ^ 32) :
      NEXT_BLKP m bp = bp + size := by
  rw [NEXT_BLKP, HDRP_eq hlow hlt, hsize]
  unfold u32
  omega

theorem FTRP_eq {m : Memory} {bp size : Nat} (hlow : 8 ≤ bp) (hlt : bp < 2 ^ 32)
    (hsize : GET_SIZE (m (Malloc.HDRP bp)) = size) (hend : bp + size < 2 ^ 32) :
      FTRP m bp = bp + size - DSIZE := by
  rw [FTRP, HDRP_eq (by omega) hlt, hsize]
  simp only [DSIZE, u32]
  omega

theorem PREV_BLKP_eq {m : Memory} {bp size : Nat} (hlow : 8 ≤ bp) (hlt : bp < 2 ^ 32)
    (hsize : GET_SIZE (m (bp - DSIZE)) = size) (hstart : size ≤ bp) : PREV_BLKP m bp = bp - size := by
  have hfooter : u32 ((bp : Int) - (DSIZE : Nat)) = bp - DSIZE := by
    simp only [DSIZE, u32]
    omega
  rw [PREV_BLKP, hfooter, hsize]
  unfold u32
  omega

theorem links_eq {bp : Nat} (hlt : bp + 8 < 2 ^ 32) : u32 ((bp : Int) + (DSIZE : Nat)) = bp + DSIZE := by
  simp only [DSIZE, u32]
  omega

theorem group_eq {size : Nat} (hlow : 24 ≤ size) (hlt : size < 2 ^ 32) : group size = Malloc.group size := by
  have hsub : u32 ((size : Int) - (INTER_FRAG_SIZE : Nat)) = size - INTER_FRAG_SIZE := by
    simp only [INTER_FRAG_SIZE, u32]
    omega
  rw [group, hsub]
  rfl

theorem removeFreelist_eq {m : Memory} {bp : Nat} (hbp : bp + 8 < 2 ^ 32)
    (hnext : GET_NEXT_FREEBLKP m bp + 8 < 2 ^ 32) : removeFreelist m bp = Malloc.removeFreelist m bp := by
  unfold removeFreelist Malloc.removeFreelist GET_PREV_FREEBLKP PUT_PREV_FREEBLKP
  dsimp only
  rw [links_eq hbp, links_eq hnext]
  rfl

theorem appendFreelist_eq {m : Memory} {tableBase bp size : Nat} (hbp : bp + 8 < 2 ^ 32)
    (hsize : 24 ≤ size ∧ size < 2 ^ 32) (habove : cell tableBase MAX_GROUP ≤ bp)
    (hhead : GET_PTR m (cell tableBase (Malloc.group size)) + 8 < 2 ^ 32) :
    appendFreelist m tableBase bp size = Malloc.appendFreelist m tableBase bp size := by
  have hlt := group_lt size
  have hcell :
      u32 ((tableBase : Int) + Malloc.group size * (DSIZE : Nat)) = cell tableBase (Malloc.group size) := by
    simp only [cell, DSIZE, MAX_GROUP, u32] at *
    omega
  have hne : cell tableBase (Malloc.group size) ≠ bp ∧ cell tableBase (Malloc.group size) ≠ bp + DSIZE := by
    simp only [cell, DSIZE, MAX_GROUP] at *
    omega
  have hread : ∀ w w', GET_PTR (PUT_PTR (PUT_PTR m (bp + DSIZE) w) bp w') (cell tableBase (Malloc.group size)) =
      GET_PTR m (cell tableBase (Malloc.group size)) := by
    intro w w'
    rw [GET_PTR_of_ne hne.1, GET_PTR_of_ne hne.2]
  have hread' := hread (cell tableBase (Malloc.group size))
    (GET_PTR (PUT_PTR m (bp + DSIZE) (cell tableBase (Malloc.group size))) (cell tableBase (Malloc.group size)))
  unfold appendFreelist Malloc.appendFreelist GET_PREV_FREEBLKP PUT_PREV_FREEBLKP PUT_NEXT_FREEBLKP
  unfold Malloc.PUT_PREV_FREEBLKP Malloc.GET_PREV_FREEBLKP
  dsimp only
  rw [links_eq hbp, group_eq hsize.1 hsize.2, hcell, show tableBase + Malloc.group size * DSIZE =
    cell tableBase (Malloc.group size) from rfl, hread', links_eq hhead]

/-! ### Well-formed heaps -/

section

variable {m : Memory} {tableBase size : Nat} {bs l : List Block} {i x : Nat}

theorem payload_lt (h : Arena tableBase bs) (hx : x ∈ payloads tableBase bs) : x + 8 < 2 ^ 32 := by
  obtain ⟨b, hb⟩ := hx
  have hbounds := placed_bounds h.sizes hb
  have hfits := h.fits
  omega

theorem table_le (tableBase : Nat) : cell tableBase MAX_GROUP ≤ firstBlock tableBase := by
  simp only [firstBlock, DSIZE]
  omega

/-- The first block of a list is a block. -/
theorem head_lt (h : Listed m tableBase bs) (ha : Arena tableBase bs) (hi : i < MAX_GROUP) :
    GET_PTR m (cell tableBase i) + 8 < 2 ^ 32 := by
  obtain ⟨G, hlists, -⟩ := h
  by_cases hzero : GET_PTR m (cell tableBase i) = 0
  · rw [hzero]
    decide
  · have hwalk := hlists.walk i hi
    have hnext : next m (cell tableBase i) = some (GET_PTR m (cell tableBase i)) := link_of_ne hzero
    rw [hnext] at hwalk
    cases hG : G i with
    | nil =>
        rw [hG] at hwalk
        cases hwalk
    | cons p ps =>
        rw [hG] at hwalk
        have hp := Option.some.inj hwalk.1
        rw [hp]
        exact payload_lt ha (hlists.mem i hi p (by simp [hG]))

/-- The block after a free one in its list is a block. -/
theorem next_lt {b : Block} (h : Listed m tableBase bs) (ha : Arena tableBase bs)
    (hb : (x, b) ∈ placed (firstBlock tableBase) bs) (hfree : b.alloc = false) :
    GET_NEXT_FREEBLKP m x + 8 < 2 ^ 32 := by
  obtain ⟨G, hlists, hexact⟩ := h
  have hi := group_lt b.size
  have hmem := (hexact _ hi x).mpr ⟨b, hb, hfree, rfl⟩
  by_cases hzero : GET_NEXT_FREEBLKP m x = 0
  · rw [hzero]
    decide
  · have hnext : next m x = some (GET_NEXT_FREEBLKP m x) := link_of_ne hzero
    exact payload_lt ha (hlists.mem _ hi _ (hlists.next_mem hi hmem hnext))

/-- The last step of `coalesce`. -/
theorem finish_eq (h : Hole m tableBase l size []) (hx : x = firstBlock tableBase + total l)
    (hheader : m (Malloc.HDRP x) = PACK size false true) (hnext : m x = 0#32) (hprev : m (x + DSIZE) = 0#32)
    (headers : List Nat) :
    (do
      let m ← appendFreelist m tableBase x size
      return (x, headers, SET_PREVALLOC m (HDRP (NEXT_BLKP m x)) false)) =
      (do
        let m ← Malloc.appendFreelist m tableBase x size
        return (x, SET_PREVALLOC m (Malloc.HDRP (Malloc.NEXT_BLKP m x)) false)) >>= fun r =>
          Outcome.ret (r.1, headers, r.2) := by
  have hfits := h.arena.fits
  have hmin := h.arena.sizes.right.head.2
  dsimp only at hmin
  rw [total_append, total_cons, total_nil] at hfits
  dsimp only at hfits
  have hlow : 8 ≤ x := by
    rw [hx]
    simp only [firstBlock, DSIZE]
    omega
  have hmid : (x, (⟨size, false⟩ : Block)) ∈ placed (firstBlock tableBase) (l ++ ⟨size, false⟩ :: []) := by
    rw [hx]
    exact placed_mid
  obtain ⟨happend, -, hframe⟩ := h.lists.append h.arena hx hnext hprev
  have hheader' := (hframe _ (Or.inr ⟨x, _, hmid, Or.inl rfl⟩)).trans hheader
  have hsize : GET_SIZE (appended m tableBase x size (Malloc.HDRP x)) = size := by
    rw [hheader', GET_SIZE_PACK h.tagSize]
  rw [appendFreelist_eq (by omega) ⟨hmin, h.tagSize.lt⟩ ((table_le tableBase).trans (by omega))
    (head_lt h.lists h.arena (group_lt size)), happend]
  simp only [ret_bind, pure_eq]
  rw [NEXT_BLKP_eq (by omega) (by omega) hsize (by omega), HDRP_eq (by omega) (by omega),
    Malloc.NEXT_BLKP, hsize]

section

variable (hx : x = firstBlock tableBase + total l) (h : Hole m tableBase l size [])
include hx h

theorem hole_bounds : 8 ≤ x ∧ 24 ≤ size ∧ x + size < 2 ^ 32 := by
  have hfits := h.arena.fits
  have hmin := h.arena.sizes.right.head.2
  dsimp only at hmin
  rw [total_append, total_cons, total_nil] at hfits
  dsimp only at hfits
  refine ⟨?_, hmin, by omega⟩
  rw [hx]
  simp only [firstBlock, DSIZE]
  omega

theorem coalesce_alone_eq (hf : Malloc.Fresh m x size true) :
    coalesce m tableBase x = (Malloc.coalesce m tableBase x >>= fun r => Outcome.ret (r.1, [], r.2)) := by
  have htag := h.tagSize
  obtain ⟨hlow, hmin, hfits⟩ := hole_bounds hx h
  have hnextAlloc := h.next_alloc
  rw [← hx] at hnextAlloc
  have hsize : GET_SIZE (m (Malloc.HDRP x)) = size := by rw [hf.header, GET_SIZE_PACK htag]
  have hheaderAt : HDRP x = Malloc.HDRP x := HDRP_eq (by omega) (by omega)
  have hnextAt : NEXT_BLKP m x = x + size := NEXT_BLKP_eq (by omega) (by omega) hsize (by omega)
  have hnextAt' : Malloc.NEXT_BLKP m x = x + size := by rw [Malloc.NEXT_BLKP, hsize]
  have hafter : HDRP (x + size) = Malloc.HDRP (x + size) := HDRP_eq (by omega) (by omega)
  unfold coalesce Malloc.coalesce
  simp only [hheaderAt, hnextAt, hnextAt', hafter, hnextAlloc, headAlloc, hf.header, GET_PREVALLOC_PACK htag,
    GET_SIZE_PACK htag, and_self, if_true]
  exact finish_eq h hx hf.header hf.next hf.prev []

theorem coalesce_left_eq {l' : List Block} {f : Block} (hl : l = l' ++ [f]) (hf : Malloc.Fresh m x size false)
    (hfree : f.alloc = false) :
    coalesce m tableBase x = (Malloc.coalesce m tableBase x >>= fun r =>
      Outcome.ret (r.1, [f.size + size], r.2)) := by
  have htag := h.tagSize
  obtain ⟨hlow, hmin, hfits⟩ := hole_bounds hx h
  subst hl
  have hftag : TagSize f.size := TagSize.of_mem h.arena (by simp)
  have hnextAlloc := h.next_alloc
  rw [← hx] at hnextAlloc
  obtain ⟨-, hftags⟩ := Tags.append.mp h.left
  obtain ⟨hlast, hffooter⟩ := hftags.2.1 hfree
  have hfheader := hftags.1
  rw [hfree, hlast] at hfheader hffooter
  set y := firstBlock tableBase + total l' with hy
  have hxy : x = y + f.size := by
    rw [hx, hy]
    simp [Nat.add_assoc]
  have hylow : 8 ≤ y := by
    rw [hy]
    simp only [firstBlock, DSIZE]
    omega
  have hfmin : 24 ≤ f.size := h.arena.sizes.minimum f (by simp)
  rw [← hxy] at hffooter
  have hself : (y, f) ∈ placed (firstBlock tableBase) (l' ++ [f] ++ ⟨size, true⟩ :: []) := by
    rw [List.append_assoc]
    exact placed_mid
  have hmid :
    (x, (⟨size, true⟩ : Block)) ∈ placed (firstBlock tableBase) (l' ++ [f] ++ ⟨size, true⟩ :: []) := by
    rw [hx]
    exact placed_mid
  have hnextLink := next_lt h.lists h.arena hself hfree
  obtain ⟨habsorb, hzero, hframe⟩ := h.absorbLeft hfree hy
  have hremoved : removeFreelist m y = Malloc.removeFreelist m y := removeFreelist_eq (by omega) hnextLink
  -- the tags that are read after the removal
  have hheader := (hframe _ (Or.inr ⟨x, _, hmid, Or.inl rfl⟩)).trans hf.header
  have hyheader := (hframe _ (Or.inr ⟨y, f, hself, Or.inl rfl⟩)).trans hfheader
  have hyfooter := (hframe (x - DSIZE) (Or.inr ⟨y, f, hself, Or.inr (Or.inl (by rw [hxy]))⟩)).trans hffooter
  obtain ⟨hhole, hfresh⟩ := habsorb.writeTags hy hzero.1 hzero.2 true
  generalize hm₁ : Malloc.removeFreelist m y = m₁ at *
  have hback : x - f.size = y := by omega
  have hprevAt : ∀ {m' : Memory}, m' (x - DSIZE) = PACK f.size false true →
      PREV_BLKP m' x = y ∧ Malloc.PREV_BLKP m' x = y := by
    intro m' hfooter
    have hread : GET_SIZE (m' (x - DSIZE)) = f.size := by rw [hfooter, GET_SIZE_PACK hftag]
    rw [PREV_BLKP_eq (by omega) (by omega) hread (by omega), Malloc.PREV_BLKP, hread]
    exact ⟨hback, hback⟩
  obtain ⟨hprev, hprev'⟩ := hprevAt hffooter
  obtain ⟨hprev₁, hprev₁'⟩ := hprevAt hyfooter
  have hprev₂ := fun w => @hprevAt (PUT m₁ (x + size - DSIZE) w)
    ((PUT_of_ne (by simp only [DSIZE]; omega)).trans hyfooter)
  have hprev₃ := fun w w' => @hprevAt (PUT (PUT m₁ (x + size - DSIZE) w) (Malloc.HDRP y) w')
    ((PUT_of_ne (by simp only [Malloc.HDRP, WSIZE, DSIZE]; omega)).trans
      ((PUT_of_ne (by simp only [DSIZE]; omega)).trans hyfooter))
  have hsize : GET_SIZE (m (Malloc.HDRP x)) = size := by rw [hf.header, GET_SIZE_PACK htag]
  have hsize₁ : GET_SIZE (m₁ (Malloc.HDRP x)) = size := by rw [hheader, GET_SIZE_PACK htag]
  have hheaderAt : HDRP x = Malloc.HDRP x := HDRP_eq (by omega) (by omega)
  have hyheaderAt : HDRP y = Malloc.HDRP y := HDRP_eq (by omega) (by omega)
  have hnextAt : NEXT_BLKP m x = x + size := NEXT_BLKP_eq (by omega) (by omega) hsize (by omega)
  have hnextAt' : Malloc.NEXT_BLKP m x = x + size := by rw [Malloc.NEXT_BLKP, hsize]
  have hafter : HDRP (x + size) = Malloc.HDRP (x + size) := HDRP_eq (by omega) (by omega)
  have hfooterAt : FTRP m₁ x = x + size - DSIZE := FTRP_eq (by omega) (by omega) hsize₁ (by omega)
  have hfooterAt' : Malloc.FTRP m₁ x = x + size - DSIZE := by rw [Malloc.FTRP, hsize₁]
  have hyheader₂ : ∀ w, PUT m₁ (x + size - DSIZE) w (Malloc.HDRP y) = PACK f.size false true := by
    intro w
    rw [PUT_of_ne (by simp only [Malloc.HDRP, WSIZE, DSIZE]; omega), hyheader]
  have hmerged : u32 ((f.size : Int) + size) = f.size + size := by
    unfold u32
    omega
  have hmemory : ∀ w, PUT (PUT m₁ (x + size - DSIZE) w) (Malloc.HDRP y) w =
      PUT (PUT m₁ (Malloc.HDRP y) w) (y + (f.size + size) - DSIZE) w := by
    intro w
    rw [PUT_comm (by simp only [Malloc.HDRP, WSIZE, DSIZE]; omega), hxy, Nat.add_assoc]
  unfold coalesce Malloc.coalesce
  simp only [hheaderAt, hnextAt, hnextAt', hafter, hnextAlloc, headAlloc, hf.header, GET_PREVALLOC_PACK htag,
    GET_SIZE_PACK htag, hprev, hprev', hremoved, hm₁, hyheaderAt, hfheader, GET_SIZE_PACK hftag, hfooterAt,
    hfooterAt', hprev₁, hprev₁', hyheader, GET_PREVALLOC_PACK hftag, hprev₂, hyheader₂, hprev₃, hmerged]
  simp only [Bool.false_eq_true, false_and, if_false, not_true, not_false_iff, and_self, if_true, hmemory]
  exact finish_eq hhole hy hfresh.header hfresh.next hfresh.prev [f.size + size]

/-- At the end of the heap `coalesce` looks at a block before the new one only. -/
theorem coalesce_eq (hf : Malloc.Fresh m x size (lastAlloc true l)) :
    ∃ headers, coalesce m tableBase x = (Malloc.coalesce m tableBase x >>= fun r =>
      Outcome.ret (r.1, headers, r.2)) ∧ ∀ written ∈ headers, 24 ≤ written := by
  obtain ⟨-, hmin, -⟩ := hole_bounds hx h
  cases hl : lastAlloc true l with
  | true =>
      rw [hl] at hf
      exact ⟨[], coalesce_alone_eq hx h hf, by simp⟩
  | false =>
      rw [hl] at hf
      obtain ⟨l', f, hsplit, hfree⟩ := lastAlloc_false hl
      refine ⟨_, coalesce_left_eq hx h hsplit hf hfree, ?_⟩
      intro written hwritten
      rw [List.mem_singleton.mp hwritten]
      omega

end

end

/-! ### Growth -/

section

variable {s s₁ : Heap} {bs : List Block} {incr : Nat}

theorem ready_bounds (h : s.Ready bs) : s.memBrk ≠ 0 ∧ s.memMaxBrk < 2 ^ 32 - 2 ^ 16 := by
  have huser := h.user
  have hinside := h.inside
  refine ⟨?_, ?_⟩
  · rw [h.brk]
    simp only [firstBlock, DSIZE]
    omega
  · simp only [STACK_TOP] at huser
    omega

theorem memSbrk_eq (h : s.Ready bs) (hpos : 0 < incr) (hint : incr < 2 ^ 31)
    (hwrap : s.memBrk + incr < 2 ^ 32) :
    memSbrk s incr = s.memSbrk incr := by
  obtain ⟨hne, hmax⟩ := ready_bounds h
  have hbrk := h.maxBrk
  have hfirst : s.sbrkFirst incr = some s := by rw [Heap.sbrkFirst, if_neg hne]
  have hnew : u32 ((s.memBrk : Int) + incr) = s.memBrk + incr := by
    unfold u32
    omega
  unfold memSbrk Heap.memSbrk
  rw [if_neg (by omega), if_neg (by omega), hfirst]
  dsimp only
  rw [hnew]
  by_cases hover : s.memBrk + incr > s.memMaxBrk
  · have hbytes :
      alignPage (s.memBrk + incr - s.memMaxBrk) = Malloc.alignPage (s.memBrk + incr - s.memMaxBrk) := by
      simp only [alignPage, Malloc.alignPage, Malloc.PAGE_SIZE, u32]
      omega
    rw [if_pos hover, if_pos hover, hbytes]
    obtain ⟨-, halign⟩ := Heap.alignPage_spec (s.memBrk + incr - s.memMaxBrk)
    unfold Heap.sysExpandHeap
    rw [halign]
    by_cases hfits : s.granted + Malloc.alignPage (s.memBrk + incr - s.memMaxBrk) ≤ s.heapEnd
    · have huser := h.user
      have hgranted := h.granted
      have hend : u32 ((s.memMaxBrk : Int) + Malloc.alignPage (s.memBrk + incr - s.memMaxBrk)) =
          s.memMaxBrk + Malloc.alignPage (s.memBrk + incr - s.memMaxBrk) := by
        simp only [STACK_TOP] at huser
        unfold u32
        omega
      rw [if_pos hfits]
      dsimp only
      rw [hend]
    · rw [if_neg hfits]
      dsimp only
      rw [if_pos rfl, if_pos rfl]
  · rw [if_neg hover, if_neg hover]

/-- From 2^31 on the increment is negative. -/
theorem memSbrk_negative (h : 2 ^ 31 ≤ incr) : memSbrk s incr = (none, s) := if_pos h

theorem align_eq (hmod : incr % 8 = 0) (hlt : incr < 2 ^ 32) : ALIGN incr = incr := by
  simp only [ALIGN, u32]
  omega

theorem malloc_align_eq (hmod : incr % 8 = 0) : Malloc.ALIGN incr = incr := by
  simp only [Malloc.ALIGN]
  omega

/-- Where no sum wraps around, `expand_heap` does what it does with numbers, and writes sizes of blocks only. -/
theorem expandHeap_eq (h : s.Ready bs) (hmod : incr % 8 = 0) (hmin : 24 ≤ incr) (hint : incr < 2 ^ 31)
    (hwrap : s.memBrk + incr < 2 ^ 32) :
    ∃ headers, expandHeap s incr = (s.expandHeap incr >>= fun r => Outcome.ret (r.1, headers, r.2)) ∧
      ∀ written ∈ headers, 24 ≤ written := by
  have halign := align_eq hmod (by omega)
  have halign' := malloc_align_eq hmod
  have hsame := memSbrk_eq h (by omega) hint hwrap
  unfold expandHeap Heap.expandHeap
  rw [halign, halign', hsame]
  cases hsbrk : s.memSbrk incr with
  | mk res s₁ =>
      cases res with
      | none => exact ⟨[], rfl, by simp⟩
      | some x =>
          obtain ⟨hx, hmem, htable, -, hbrk, hmax, -, hinside, hend⟩ := Heap.memSbrk_some h hsbrk
          have hxbrk : x = firstBlock s.tableBase + total bs := hx.trans h.brk
          have hlow : 8 ≤ x := by
            rw [hxbrk]
            simp only [firstBlock, DSIZE]
            omega
          have hfits : x + incr < 2 ^ 32 := hx ▸ hwrap
          have htag : TagSize incr := ⟨hmod, by omega⟩
          obtain ⟨hhole, hfresh, -⟩ := h.wellFormed.expanded hxbrk ⟨hmod, hmin⟩ hfits
          obtain ⟨headers, hcoalesce, hheaders⟩ := coalesce_eq hxbrk hhole hfresh
          refine ⟨incr :: headers, ?_, ?_⟩
          · have hheader : s.mem (Malloc.HDRP x) = PACK 0 true (lastAlloc true bs) := by
              rw [hxbrk]
              exact h.wellFormed.epilogue
            have hread :
              ∀ w, GET_SIZE (PUT s.mem (Malloc.HDRP x) (PACK incr false w) (Malloc.HDRP x)) = incr := by
              intro w
              rw [PUT_self, GET_SIZE_PACK htag]
            have hread' :
                ∀ w, GET_SIZE (Malloc.PUT_PREV_FREEBLKP (PUT_NEXT_FREEBLKP (PUT (PUT s.mem (Malloc.HDRP x)
                  (PACK incr false w)) (x + incr - DSIZE) (PACK incr false w)) x 0) x 0
                  (Malloc.HDRP x)) = incr := by
              intro w
              rw [Malloc.PUT_PREV_FREEBLKP, PUT_PTR_of_ne (by simp only [Malloc.HDRP, WSIZE, DSIZE]; omega),
                PUT_NEXT_FREEBLKP, PUT_PTR_of_ne (by simp only [Malloc.HDRP, WSIZE]; omega),
                PUT_of_ne (by simp only [Malloc.HDRP, WSIZE, DSIZE]; omega), PUT_self, GET_SIZE_PACK htag]
            have hlinks : ∀ m : Memory, PUT_PREV_FREEBLKP m x 0 = Malloc.PUT_PREV_FREEBLKP m x 0 := by
              intro m
              rw [PUT_PREV_FREEBLKP, links_eq (by omega)]
              rfl
            have hheaderAt : HDRP x = Malloc.HDRP x := HDRP_eq (by omega) (by omega)
            have hafter : HDRP (x + incr) = Malloc.HDRP (x + incr) := HDRP_eq (by omega) (by omega)
            have hfooterAt := fun w => FTRP_eq hlow (by omega) (hread w) hfits
            have hnextAt := fun w => NEXT_BLKP_eq (by omega) (by omega) (hread' w) hfits
            have hfooterAt' : ∀ w, Malloc.FTRP (PUT s.mem (Malloc.HDRP x) (PACK incr false w)) x =
                x + incr - DSIZE := by
              intro w
              rw [Malloc.FTRP, hread]
            have hnextAt' : ∀ w, Malloc.NEXT_BLKP (Malloc.PUT_PREV_FREEBLKP (PUT_NEXT_FREEBLKP (PUT (PUT s.mem
                (Malloc.HDRP x) (PACK incr false w)) (x + incr - DSIZE) (PACK incr false w)) x 0) x 0) x =
                x + incr := by
              intro w
              rw [Malloc.NEXT_BLKP, hread']
            unfold Malloc.expanded at hcoalesce
            simp only [hmem, htable, hheaderAt, hheader, GET_PREVALLOC_PACK (⟨rfl, by decide⟩ : TagSize 0),
              hfooterAt, hlinks, hnextAt, hafter, hfooterAt', hnextAt', hcoalesce]
            cases Malloc.coalesce _ s.tableBase x <;> rfl
          · intro written hwritten
            rcases List.mem_cons.mp hwritten with rfl | hwritten
            · exact hmin
            · exact hheaders written hwritten

end

/-! ### The search and the block -/

section

variable {m : Memory} {tableBase newSize fuel p : Nat} {bs l r : List Block}

theorem taken_iff {blkSize : Nat} (h : newSize + 24 < 2 ^ 32) : Taken blkSize newSize ↔ blkSize ≥ newSize := by
  have hsum : u32 ((newSize : Int) + (MININUM_BLK_SIZE : Nat)) = newSize + 24 := by
    simp only [MININUM_BLK_SIZE, u32]
    omega
  unfold Taken
  rw [hsum]
  omega

theorem findLoop_eq {ptr : Nat} {ps : List Nat} (hwalk : Walk (next m) (link ptr) ps)
    (hps : ∀ q ∈ ps, 4 ≤ q ∧ q < 2 ^ 32) (hnew : newSize + 24 < 2 ^ 32) :
    findLoop m newSize fuel ptr = Heap.findLoop m newSize fuel ptr := by
  induction fuel generalizing ptr ps with
  | zero => rfl
  | succ fuel ih =>
      rw [findLoop, Heap.findLoop]
      by_cases hptr : ptr = 0
      · rw [if_pos hptr, if_pos hptr]
      rw [if_neg hptr, if_neg hptr]
      rw [link_of_ne hptr] at hwalk
      cases ps with
      | nil => cases hwalk
      | cons q ps =>
          obtain ⟨hhead, htail⟩ := hwalk
          obtain rfl := Option.some.inj hhead
          obtain ⟨hlow, hlt⟩ := hps ptr List.mem_cons_self
          rw [HDRP_eq hlow hlt, ih htail fun q hq => hps q (List.mem_cons_of_mem _ hq)]
          simp only [taken_iff hnew]

theorem payload_low (hq : p ∈ payloads tableBase bs) (h : Arena tableBase bs) : 8 ≤ p := by
  obtain ⟨b, hb⟩ := hq
  have hbounds := placed_bounds h.sizes hb
  simp only [firstBlock, DSIZE] at hbounds
  omega

theorem find_eq (h : WellFormed m tableBase bs) (hmin : 24 ≤ newSize) (hnew : newSize + 24 < 2 ^ 32) :
    find fuel m tableBase newSize = Heap.find fuel m tableBase newSize := by
  obtain ⟨G, hlists, -⟩ := h.lists
  have hfits := h.arena.fits
  have hgroups : ∀ left idx, idx + left = MAX_GROUP →
      findGroups fuel m tableBase newSize left idx = Heap.findGroups fuel m tableBase newSize left idx := by
    intro left
    induction left with
    | zero => exact fun idx _ => rfl
    | succ left ih =>
        intro idx hidx
        have hi : idx < MAX_GROUP := by omega
        have hcell : u32 ((tableBase : Int) + (idx : Int) * (DSIZE : Nat)) = tableBase + idx * DSIZE := by
          simp only [firstBlock, cell, MAX_GROUP, DSIZE] at hfits hi
          simp only [DSIZE, u32]
          omega
        have hloop := @findLoop_eq m newSize fuel (GET_PTR m (tableBase + idx * DSIZE)) (G idx)
          (hlists.walk idx hi)
          (fun q hq => by
            have hmem := hlists.mem idx hi q hq
            have hlow := payload_low hmem h.arena
            have hlt := payload_lt h.arena hmem
            omega) hnew
        rw [findGroups, Heap.findGroups, hcell, hloop]
        refine congrArg _ (funext fun found => ?_)
        cases found with
        | some ptr => rfl
        | none => exact ih (idx + 1) (by omega)
  have hgroup := group_lt newSize
  rw [find, Heap.find, group_eq hmin (by omega)]
  exact hgroups _ _ (Nat.add_sub_cancel' (Nat.le_of_lt hgroup))

theorem findLoop_mono {size ptr fuel' : Nat} {found : Option Nat} (hle : fuel ≤ fuel')
    (h : Heap.findLoop m size fuel ptr = .ret found) : Heap.findLoop m size fuel' ptr = .ret found := by
  induction fuel generalizing fuel' ptr with
  | zero => cases h
  | succ fuel ih =>
      obtain ⟨fuel', rfl⟩ : ∃ k, fuel' = k + 1 := ⟨fuel' - 1, by omega⟩
      rw [Heap.findLoop] at h ⊢
      by_cases hptr : ptr = 0
      · rw [if_pos hptr] at h ⊢
        exact h
      rw [if_neg hptr] at h ⊢
      by_cases hfit : GET_SIZE (m (Malloc.HDRP ptr)) ≥ size
      · rw [if_pos hfit] at h ⊢
        exact h
      · rw [if_neg hfit] at h ⊢
        exact ih (by omega) h

theorem findGroups_mono {size left idx fuel' : Nat} {found : Option Nat} (hle : fuel ≤ fuel')
    (h : Heap.findGroups fuel m tableBase size left idx = .ret found) :
    Heap.findGroups fuel' m tableBase size left idx = .ret found := by
  induction left generalizing idx with
  | zero => exact h
  | succ left ih =>
      rw [Heap.findGroups] at h ⊢
      obtain ⟨first, hloop, h⟩ := Outcome.bind_eq_ret h
      rw [findLoop_mono hle hloop]
      cases first with
      | some ptr => exact h
      | none => exact ih h

/-- A search that ends without a block has seen that none is large enough. -/
theorem find_none (h : WellFormed m tableBase bs) (hmin : 24 ≤ newSize)
    (hfind : Heap.find fuel m tableBase newSize = .ret none) : ¬Heap.Fit bs newSize := by
  obtain ⟨n, hn⟩ := Heap.find_returns h hmin
  obtain ⟨found, hfound, hfit⟩ := hn (max fuel n) (Nat.le_max_right _ _)
  have hmono := findGroups_mono (Nat.le_max_left fuel n) hfind
  exact hfit.mp (Outcome.ret.inj (hfound.symm.trans hmono))

/-- The block is taken as it is with numbers; its header says at least the size asked for, and ends below the
end of the heap. -/
theorem place_eq {f : Block} {x : Nat} (h : WellFormed m tableBase (l ++ f :: r)) (hf : f.alloc = false)
    (hx : x = firstBlock tableBase + total l) (hfit : newSize ≤ f.size) (hnew : newSize % 8 = 0 ∧ 24 ≤ newSize)
    (hlt : newSize + 24 < 2 ^ 32) :
    ∃ headers m', place m tableBase x newSize = .ret (headers, m') ∧ (∀ written ∈ headers, 24 ≤ written) ∧
      newSize ≤ GET_SIZE (m' (Malloc.HDRP x)) ∧ GET_SIZE (m' (Malloc.HDRP x)) ≤ f.size := by
  have hfits := h.arena.fits
  rw [total_append, total_cons] at hfits
  have hlow : 8 ≤ x := by
    rw [hx]
    simp only [firstBlock, DSIZE]
    omega
  have hmid : (x, f) ∈ placed (firstBlock tableBase) (l ++ f :: r) := by
    rw [hx]
    exact placed_mid
  have hheader : GET_SIZE (m (Malloc.HDRP x)) = f.size := by
    rw [hx, (Tags.append.mp h.tags).2.1, GET_SIZE_PACK (TagSize.of_mem h.arena (by simp))]
  have hremoved : removeFreelist m x = Malloc.removeFreelist m x :=
    removeFreelist_eq
      (by have := h.arena.sizes.minimum f (by simp); simp only [MININUM_BLK_SIZE] at this; omega)
      (next_lt h.lists h.arena hmid hf)
  have hheaderAt : HDRP x = Malloc.HDRP x := HDRP_eq (by omega) (by omega)
  have hsum : u32 ((newSize : Int) + (MININUM_BLK_SIZE : Nat)) = newSize + 24 := by
    simp only [MININUM_BLK_SIZE, u32]
    omega
  obtain ⟨hhole, ⟨hhead, -⟩, hheader', -, -⟩ := h.take hf hx
  unfold place
  simp only [hheaderAt, hheader, hsum, hremoved]
  by_cases hsplit : f.size ≥ newSize + 24
  · obtain ⟨resSize, hsize⟩ := Nat.exists_eq_add_of_le hfit
    have hres : 24 ≤ resSize := by omega
    have hs := h.split hf hx hsize hnew hres
    have hrest : u32 ((f.size : Int) - newSize) = resSize := by
      unfold u32
      omega
    have hnewTag : TagSize newSize := ⟨hnew.1, by omega⟩
    have hresTag : TagSize resSize := hs.hole.tagSize
    have hnextAt : NEXT_BLKP (PUT (Malloc.removeFreelist m x) (Malloc.HDRP x) (PACK newSize true true)) x =
        x + newSize :=
      NEXT_BLKP_eq (by omega) (by omega) (by rw [PUT_self, GET_SIZE_PACK hnewTag]) (by omega)
    have hrestAt : HDRP (x + newSize) = Malloc.HDRP (x + newSize) := HDRP_eq (by omega) (by omega)
    have hfooterAt : FTRP (PUT (PUT (Malloc.removeFreelist m x) (Malloc.HDRP x) (PACK newSize true true))
        (Malloc.HDRP (x + newSize)) (PACK resSize false true)) (x + newSize) = x + newSize + resSize - DSIZE :=
      FTRP_eq (by omega) (by omega) (by rw [PUT_self, GET_SIZE_PACK hresTag]) (by omega)
    rw [if_pos hsplit, hheader', GET_PREVALLOC_PACK hhole.tagSize, hrest, hnextAt, hrestAt, hfooterAt]
    have happend := @appendFreelist_eq (splitMemory m x newSize resSize) tableBase (x + newSize) resSize
      (by omega)
      ⟨hres, hresTag.lt⟩ ((table_le tableBase).trans (by omega))
      (head_lt hs.hole.lists hs.hole.arena (group_lt resSize))
    show ∃ headers m', (do
      let m ← appendFreelist (splitMemory m x newSize resSize) tableBase (x + newSize) resSize
      return ([newSize, resSize], m)) = _ ∧ _
    rw [happend]
    have hwritten : ∀ written ∈ [newSize, resSize], 24 ≤ written := by
      simp only [List.mem_cons, List.not_mem_nil, or_false, forall_eq_or_imp, forall_eq]
      exact ⟨hnew.2, hres⟩
    by_cases hclean : RestUnlinked m (x + newSize)
    · obtain ⟨m', hplace, hwell, -⟩ := place_split h hf hx hsize hnew hres hclean
      rw [hs.place] at hplace
      rw [hplace]
      have hsizeAt : GET_SIZE (m' (Malloc.HDRP x)) = newSize := by
        rw [hx, (Tags.append.mp hwell.tags).2.1, GET_SIZE_PACK hnewTag]
      exact ⟨_, m', rfl, hwritten, hsizeAt.ge, hsizeAt.trans_le hfit⟩
    · rw [appendFreelist_listed fun hzero => hclean (by rwa [hs.links.1, hs.links.2] at hzero)]
      have htags := (Tags.append.mp hs.hole.left).2
      rw [← hx] at htags
      have hsizeAt : GET_SIZE (splitMemory m x newSize resSize (Malloc.HDRP x)) = newSize := by
        rw [htags.1, GET_SIZE_PACK hnewTag]
      exact ⟨_, _, rfl, hwritten, hsizeAt.ge, hsizeAt.trans_le hfit⟩
  · have htag : TagSize f.size := hhole.tagSize
    have hmin := hhole.arena.sizes.right.head.2
    dsimp only at hmin
    have hput : Hole (PUT (Malloc.removeFreelist m x) (Malloc.HDRP x) (PACK f.size true true)) tableBase l
      f.size r :=
      hhole.put (by rw [hx]) (by rw [← hx]; simp only [Malloc.HDRP, WSIZE]; omega)
    have hnextAlloc := hput.next_alloc
    rw [← hx, hhead] at hnextAlloc
    have hnextAt : NEXT_BLKP (PUT (Malloc.removeFreelist m x) (Malloc.HDRP x) (PACK f.size true true)) x =
        x + f.size :=
      NEXT_BLKP_eq (by omega) (by omega) (by rw [PUT_self, GET_SIZE_PACK htag]) (by omega)
    have hafter : HDRP (x + f.size) = Malloc.HDRP (x + f.size) := HDRP_eq (by omega) (by omega)
    rw [if_neg hsplit, hheader', GET_PREVALLOC_PACK htag, hnextAt, hafter, hnextAlloc, if_neg (by simp)]
    refine ⟨_, _, rfl, by simpa using hmin, ?_⟩
    rw [SET_PREVALLOC, PUT_of_ne (by simp only [Malloc.HDRP, WSIZE]; omega), PUT_self, GET_SIZE_PACK htag]
    exact ⟨hfit, le_refl _⟩

end

/-! ### Allocation -/

section

variable {s s' : Heap} {bs : List Block} {fuel size p : Nat} {headers : List Nat}

/-- A returned block holds `size` bytes between its header and its footer and ends below the break, and no smaller
block than the least one has been written. -/
def Holds (s' : Heap) (size p : Nat) (headers : List Nat) : Prop :=
  size + DSIZE ≤ GET_SIZE (s'.mem (HDRP p)) ∧ p + GET_SIZE (s'.mem (HDRP p)) ≤ s'.memBrk ∧
    ∀ written ∈ headers, MININUM_BLK_SIZE ≤ written

theorem newSize_spec (hpos : 1 ≤ size) (hsize : size ≤ 2 ^ 32 - 48) :
    (newSize size % 8 = 0 ∧ 24 ≤ newSize size) ∧ size + 16 ≤ newSize size ∧ newSize size + 24 < 2 ^ 32 := by
  simp only [newSize, ALIGN, DSIZE, u32]
  omega

/-- Above that, the size of the block wraps around, or what it is compared with. -/
theorem newSize_wrap (hsize : 2 ^ 32 - 48 < size) (hlt : size < 2 ^ 32) :
    2 ^ 31 ≤ newSize size ∨ newSize size ≤ 16 := by
  simp only [newSize, ALIGN, DSIZE, u32]
  omega

theorem max_incr {k : Nat} (hmod : k % 8 = 0) :
    max k MAX_INCR % 8 = 0 ∧ 24 ≤ max k MAX_INCR ∧ k ≤ max k MAX_INCR := by
  simp only [MAX_INCR]
  omega

/-- A block that the search has come to. -/
theorem place_holds (h : s.Ready bs) (hpos : 1 ≤ size) (hsize : size ≤ 2 ^ 32 - 48)
    (hfind : find fuel s.mem s.tableBase (newSize size) = .ret (some p)) :
    ∃ headers m', place s.mem s.tableBase p (newSize size) = .ret (headers, m') ∧
      Holds { s with mem := m' } size p headers := by
  obtain ⟨hnew, hroom, hlt⟩ := newSize_spec hpos hsize
  rw [find_eq h.wellFormed hnew.2 hlt] at hfind
  obtain ⟨l, f, r, rfl, hp, hfree, hfit⟩ := Heap.find_some h.wellFormed hfind
  obtain ⟨headers, m', hplace, hheaders, hmin, hmax⟩ := place_eq h.wellFormed hfree hp hfit hnew hlt
  refine ⟨headers, m', hplace, ?_⟩
  have hbrk := h.brk
  have hfits := h.wellFormed.arena.fits
  rw [total_append, total_cons] at hbrk hfits
  have hlow : 8 ≤ p := by
    rw [hp]
    simp only [firstBlock, DSIZE]
    omega
  have hheaderAt : HDRP p = Malloc.HDRP p := HDRP_eq (by omega) (by omega)
  unfold Holds
  dsimp only
  rw [hheaderAt]
  simp only [DSIZE]
  exact ⟨by omega, by omega, hheaders⟩

/-- What `expand_heap` makes of a ready heap, where no sum wraps around. -/
theorem expandHeap_ready {bp incr : Nat} (h : s.Ready bs) (hmod : incr % 8 = 0) (hmin : 24 ≤ incr)
    (hint : incr < 2 ^ 31) (hwrap : s.memBrk + incr < 2 ^ 32)
    (hret : expandHeap s incr = .ret (some bp, headers, s')) :
    s'.Ready (coalesced bs incr []) ∧ ∀ written ∈ headers, 24 ≤ written := by
  obtain ⟨headers', hexpand, hheaders⟩ := expandHeap_eq h hmod hmin hint hwrap
  rw [hexpand] at hret
  obtain ⟨⟨res, s₁⟩, hgrow, hret⟩ := Outcome.bind_eq_ret hret
  obtain ⟨hres, hrest⟩ := Prod.mk.inj (Outcome.ret.inj hret)
  obtain ⟨hheaders', hs⟩ := Prod.mk.inj hrest
  dsimp only at hres hheaders' hs
  subst hres hheaders' hs
  have halign := malloc_align_eq hmod
  have hready := (Heap.expandHeap_some h (by rw [halign]; exact hmin) hgrow).1
  rw [halign] at hready
  exact ⟨hready, hheaders⟩

theorem expandHeap_negative {bp incr : Nat} (hmod : incr % 8 = 0) (hneg : 2 ^ 31 ≤ incr) (hlt : incr < 2 ^ 32) :
    expandHeap s incr ≠ .ret (some bp, headers, s') := by
  rw [expandHeap, align_eq hmod hlt, memSbrk_negative hneg]
  intro hret
  cases Outcome.ret.inj hret

theorem allocateLoop_found (h : s.Ready bs) (hpos : 1 ≤ size) (hsize : size ≤ 2 ^ 32 - 48)
    (hfit : Heap.Fit bs (newSize size)) (hret : allocateLoop fuel s size = .ret (some p, headers, s')) :
    Holds s' size p headers := by
  obtain ⟨hnew, -, hlt⟩ := newSize_spec hpos hsize
  cases fuel with
  | zero => cases hret
  | succ fuel =>
      rw [allocateLoop] at hret
      obtain ⟨found, hfind, hret⟩ := Outcome.bind_eq_ret hret
      cases found with
      | some ptr =>
          obtain ⟨headers', m', hplace, hholds⟩ := place_holds h hpos hsize hfind
          dsimp only at hret
          rw [hplace] at hret
          cases Outcome.ret.inj hret
          exact hholds
      | none =>
          rw [find_eq h.wellFormed hnew.2 hlt] at hfind
          exact absurd hfit (find_none h.wellFormed hnew.2 hfind)

theorem allocateLoop_holds (h : s.Ready bs) (hpos : 1 ≤ size) (hsize : size ≤ 2 ^ 32 - 48)
    (hroom : 2 ^ 31 ≤ newSize size ∨ s.memBrk + max (newSize size) MAX_INCR < 2 ^ 32)
    (hret : allocateLoop fuel s size = .ret (some p, headers, s')) : Holds s' size p headers := by
  obtain ⟨hnew, -, hlt⟩ := newSize_spec hpos hsize
  obtain ⟨hmod, hmin, hle⟩ := max_incr hnew.1
  cases fuel with
  | zero => cases hret
  | succ fuel =>
      rw [allocateLoop] at hret
      obtain ⟨found, hfind, hret⟩ := Outcome.bind_eq_ret hret
      cases found with
      | some ptr =>
          obtain ⟨headers', m', hplace, hholds⟩ := place_holds h hpos hsize hfind
          dsimp only at hret
          rw [hplace] at hret
          cases Outcome.ret.inj hret
          exact hholds
      | none =>
          obtain ⟨⟨res, grown, s₁⟩, hexpand, hret⟩ := Outcome.bind_eq_ret hret
          cases res with
          | none => cases Outcome.ret.inj hret
          | some bp =>
              obtain ⟨⟨res, headers', s₂⟩, hloop, hret⟩ := Outcome.bind_eq_ret hret
              cases Outcome.ret.inj hret
              rcases hroom with hneg | hwrap
              · exact absurd hexpand (expandHeap_negative hmod (hneg.trans hle)
                  (by simp only [MAX_INCR]; omega))
              by_cases hneg : 2 ^ 31 ≤ newSize size
              · exact absurd hexpand (expandHeap_negative hmod (hneg.trans hle)
                  (by simp only [MAX_INCR]; omega))
              have hint : max (newSize size) MAX_INCR < 2 ^ 31 := by
                simp only [MAX_INCR]
                omega
              obtain ⟨hready, hgrown⟩ := expandHeap_ready h hmod hmin hint hwrap hexpand
              -- the second search finds the new block
              obtain ⟨hcapacity, hend, hwritten⟩ :=
                allocateLoop_found hready hpos hsize (Heap.fit_coalesced hle) hloop
              refine ⟨hcapacity, hend, ?_⟩
              intro written hmem
              rcases List.mem_append.mp hmem with hmem | hmem
              · exact hgrown written hmem
              · exact hwritten written hmem

/-- The break stays below the stack where the sizes wrap around: the heap grows by `MAX_INCR` at a time,
or not. -/
theorem allocateLoop_below (h : s.Ready bs) (hwrap : 2 ^ 31 ≤ newSize size ∨ newSize size ≤ 16)
    (hmod : newSize size % 8 = 0) (hret : allocateLoop fuel s size = .ret (some p, headers, s')) :
    s'.memBrk ≤ STACK_TOP := by
  induction fuel generalizing s bs headers with
  | zero => cases hret
  | succ fuel ih =>
      rw [allocateLoop] at hret
      obtain ⟨found, hfind, hret⟩ := Outcome.bind_eq_ret hret
      cases found with
      | some ptr =>
          obtain ⟨⟨written, m'⟩, -, hret⟩ := Outcome.bind_eq_ret hret
          cases Outcome.ret.inj hret
          exact h.maxBrk.trans (h.inside.trans h.user)
      | none =>
          obtain ⟨⟨res, grown, s₁⟩, hexpand, hret⟩ := Outcome.bind_eq_ret hret
          cases res with
          | none => cases Outcome.ret.inj hret
          | some bp =>
              obtain ⟨⟨res, headers', s₂⟩, hloop, hret⟩ := Outcome.bind_eq_ret hret
              cases Outcome.ret.inj hret
              obtain ⟨-, hmax⟩ := ready_bounds h
              have hbrk := h.maxBrk
              rcases hwrap with hneg | hsmall
              · have hlt : newSize size < 2 ^ 32 := by
                  simp only [newSize, u32]
                  omega
                have hincr : max (newSize size) MAX_INCR = newSize size := by
                  simp only [MAX_INCR]
                  omega
                rw [hincr] at hexpand
                exact absurd hexpand (expandHeap_negative hmod hneg hlt)
              · have hincr : max (newSize size) MAX_INCR = MAX_INCR := by
                  simp only [MAX_INCR]
                  omega
                rw [hincr] at hexpand
                obtain ⟨hready, -⟩ := expandHeap_ready h (by decide) (by decide) (by decide)
                  (by simp only [MAX_INCR]; omega) hexpand
                exact ih hready hloop

/-- A block that `mm_malloc` returns is of the size asked for exactly if the size is at most 2^32 - 48, where
the break does not wrap around when the heap grows. -/
theorem mmMalloc_holds_iff (h : s.Ready bs) (hsize : size < 2 ^ 32)
    (hroom : 2 ^ 31 ≤ newSize size ∨ s.memBrk + max (newSize size) MAX_INCR < 2 ^ 32)
    (hret : mmMalloc fuel s size = .ret (some p, headers, s')) :
    Holds s' size p headers ↔ size ≤ 2 ^ 32 - 48 := by
  unfold mmMalloc at hret
  rw [if_neg h.started] at hret
  dsimp only at hret
  by_cases hzero : size = 0
  · rw [if_pos hzero] at hret
    cases Outcome.ret.inj hret
  rw [if_neg hzero] at hret
  constructor
  · rintro ⟨hcapacity, hend, -⟩
    by_contra hlarge
    have hmod : newSize size % 8 = 0 := by
      simp only [newSize, ALIGN, DSIZE, u32]
      omega
    have hbelow := allocateLoop_below h (newSize_wrap (not_le.mp hlarge) hsize) hmod hret
    simp only [DSIZE, STACK_TOP] at *
    omega
  · exact fun hle => allocateLoop_holds h (Nat.one_le_iff_ne_zero.mpr hzero) hle hroom hret

theorem mmMalloc_holds_iff_oneFree :
    ∃ headers s', mmMalloc 3 (Heap.oneFree 0#32) 8 = .ret (some 192, headers, s') ∧
    (Holds s' 8 192 headers ↔ 8 ≤ 2 ^ 32 - 48) := by
  have hready := Heap.ready_oneFree 0#32
  have hfind : find 2 (Heap.oneFree 0#32).mem (Heap.oneFree 0#32).tableBase (newSize 8) = .ret (some 192) := by
    rw [find_eq hready.wellFormed (by decide) (by decide)]
    exact Heap.find_oneFree 0#32
  obtain ⟨headers, m', hplace, -⟩ := place_holds hready (by decide : 1 ≤ 8) (by decide) hfind
  have hret : mmMalloc 3 (Heap.oneFree 0#32) 8 =
      .ret (some 192, headers, { Heap.oneFree 0#32 with mem := m' }) := by
    show allocateLoop 3 (Heap.oneFree 0#32) 8 = _
    rw [allocateLoop, hfind, Outcome.ret_bind]
    dsimp only
    rw [hplace]
    rfl
  exact ⟨_, _, hret, mmMalloc_holds_iff hready (by decide) (Or.inr (by decide)) hret⟩

/-! ### Sizes that wrap around -/

theorem appendFreelist_returns {m : Memory} {tableBase bp : Nat} (h : 24 ≤ size) :
    ∃ m', appendFreelist m tableBase bp size = .ret m' := by
  unfold appendFreelist
  split
  · exact ⟨m, rfl⟩
  · rw [if_neg (not_lt.mpr h)]
    exact ⟨_, rfl⟩

theorem newSize_wrapped (hsize : 2 ^ 32 - 48 < size) (hlt : size < 2 ^ 32) :
    group (newSize size) = MAX_GROUP - 1 ∧ ∀ blkSize, 48 ≤ blkSize → blkSize < 2 ^ 32 - 64 →
      blkSize ≥ u32 (newSize size + (MININUM_BLK_SIZE : Nat)) ∧ 24 ≤ u32 ((blkSize : Int) - newSize size) := by
  have hcases : newSize size = 4294967272 ∨ newSize size = 4294967280 ∨ newSize size = 4294967288 ∨
      newSize size = 0 ∨ newSize size = 8 ∨ newSize size = 16 := by
    simp only [newSize, ALIGN, DSIZE, u32]
    omega
  refine ⟨?_, ?_⟩
  · rcases hcases with h | h | h | h | h | h <;> rw [h] <;> decide +kernel
  · intro blkSize hmin hmax
    simp only [MININUM_BLK_SIZE, u32]
    omega

/-- With a free block of the last group, a size that wraps around is answered with a block that is far too
small. -/
theorem mmMalloc_undersized (h : s.Ready bs)
    (hlarge : ∃ b ∈ bs, b.alloc = false ∧ Malloc.group b.size = MAX_GROUP - 1)
    (hsize : 2 ^ 32 - 48 < size) (hlt : size < 2 ^ 32) :
    ∃ p headers s', mmMalloc 2 s size = .ret (some p, headers, s') ∧
      ¬(size ≤ GET_SIZE (s'.mem (HDRP p)) ∧ p + GET_SIZE (s'.mem (HDRP p)) ≤ s'.memBrk) := by
  obtain ⟨b, hb, hfree, hgroup⟩ := hlarge
  obtain ⟨l, r, rfl⟩ := List.append_of_mem hb
  obtain ⟨hindex, hfits⟩ := newSize_wrapped hsize hlt
  obtain ⟨G, hlists, hexact⟩ := h.wellFormed.lists
  have hi : MAX_GROUP - 1 < MAX_GROUP := by decide
  have hmem := (hexact _ hi _).mpr ⟨b, placed_mid, hfree, hgroup⟩
  have hwalk := hlists.walk _ hi
  cases hG : G (MAX_GROUP - 1) with
  | nil =>
      rw [hG] at hmem
      cases hmem
  | cons q qs =>
      rw [hG] at hwalk
      obtain ⟨hhead, hne⟩ := link_eq_some.mp hwalk.1
      -- the first block of the group is taken, whatever its size
      obtain ⟨c, hc, -, hcgroup⟩ := (hexact _ hi q).mp (by simp [hG])
      have hbounds := placed_bounds h.wellFormed.arena.sizes hc
      have hlow := payload_low ⟨c, hc⟩ h.wellFormed.arena
      have hbrk := h.brk
      have hbelow := h.maxBrk.trans (h.inside.trans h.user)
      have hcsize : GET_SIZE (s.mem (HDRP q)) = c.size := by
        obtain ⟨l', r', hsplit, hq⟩ := placed_split hc
        have htags := h.wellFormed.tags
        have htag := TagSize.of_mem h.wellFormed.arena (b := c) (by rw [hsplit]; simp)
        rw [hsplit] at htags
        rw [HDRP_eq (by omega) (by simp only [STACK_TOP] at hbelow; omega), hq, (Tags.append.mp htags).2.1,
          GET_SIZE_PACK htag]
      have hmin : 48 ≤ c.size := by
        by_contra hsmall
        have hmono := Malloc.group_mono hbounds.2.2.2.1 (Nat.le_of_lt (not_le.mp hsmall))
        rw [hcgroup] at hmono
        exact absurd hmono (by decide)
      obtain ⟨hsplits, hrest⟩ := hfits c.size hmin (by simp only [STACK_TOP] at hbelow; omega)
      have hcell : u32 ((s.tableBase : Int) + ((MAX_GROUP - 1 : Nat) : Int) * (DSIZE : Nat)) =
          cell s.tableBase (MAX_GROUP - 1) := by
        have hfits := h.wellFormed.arena.fits
        simp only [firstBlock, cell, MAX_GROUP, DSIZE] at hfits
        simp only [cell, MAX_GROUP, DSIZE, u32]
        omega
      have hfind : find 1 s.mem s.tableBase (newSize size) = .ret (some q) := by
        rw [find, hindex]
        show findGroups 1 s.mem s.tableBase (newSize size) 1 (MAX_GROUP - 1) = _
        rw [findGroups, hcell]
        have hptr : GET_PTR s.mem (cell s.tableBase (MAX_GROUP - 1)) = q := hhead
        have htaken : Taken c.size (newSize size) := Or.inl hsplits
        rw [hptr, findLoop, if_neg hne, hcsize, if_pos htaken]
        rfl
      obtain ⟨headers, m', hplace⟩ :
          ∃ headers m', place s.mem s.tableBase q (newSize size) = .ret (headers, m') := by
        rw [place, hcsize]
        dsimp only
        rw [if_pos hsplits]
        generalize happend : appendFreelist _ s.tableBase _ _ = res
        obtain ⟨m', rfl⟩ : ∃ m', res = .ret m' := happend ▸ appendFreelist_returns hrest
        exact ⟨_, m', rfl⟩
      have hret : mmMalloc 2 s size = .ret (some q, headers, { s with mem := m' }) := by
        unfold mmMalloc
        rw [if_neg h.started]
        dsimp only
        rw [if_neg (by omega), allocateLoop, hfind, Outcome.ret_bind]
        dsimp only
        rw [hplace]
        rfl
      refine ⟨q, headers, _, hret, ?_⟩
      rintro ⟨hcapacity, hend⟩
      simp only [STACK_TOP] at *
      omega

/-- A heap of one free block at 192, in the group `i`; its table is at address 16. -/
def single (size i : Nat) : Heap where
  mem := fun a =>
    if a = cell 16 i then 192#32
    else if a = 180 ∨ a = 184 then PACK DSIZE true true
    else if a = 188 ∨ a = 184 + size then PACK size false true
    else if a = 200 then BitVec.ofNat 32 (cell 16 i)
    else if a = 188 + size then PACK 0 true false
    else 0#32
  memBrk := 192 + size
  memMaxBrk := 192 + size
  brkBase := 184
  tableBase := 16
  granted := 192 + size
  heapEnd := 192 + size

theorem ready_single {i : Nat} (hmod : size % 8 = 0) (hmin : 24 ≤ size) (hmax : 192 + size ≤ STACK_TOP)
    (hgroup : Malloc.group size = i) : (single size i).Ready [⟨size, false⟩] := by
  have hi : i < 20 := hgroup ▸ group_lt size
  have hbound : 192 + size < 2 ^ 32 := by
    simp only [STACK_TOP] at hmax
    omega
  have hcellAt : (single size i).mem (cell 16 i) = 192#32 := if_pos rfl
  have hread : ∀ a, a ≠ cell 16 i → (single size i).mem a =
      if a = 180 ∨ a = 184 then PACK DSIZE true true
      else if a = 188 ∨ a = 184 + size then PACK size false true
      else if a = 200 then BitVec.ofNat 32 (cell 16 i)
      else if a = 188 + size then PACK 0 true false
      else 0#32 := fun a ha => if_neg ha
  have hcell : ∀ j < MAX_GROUP, next (single size i).mem (cell 16 j) = if j = i then some 192 else none := by
    intro j hj
    by_cases hji : j = i
    · rw [hji, if_pos rfl, next, GET_NEXT_FREEBLKP, GET_PTR, hcellAt]
      rfl
    · have hzero : (single size i).mem (cell 16 j) = 0#32 := by
        simp only [MAX_GROUP, cell, DSIZE] at *
        rw [hread _ (by omega), if_neg (by omega), if_neg (by omega), if_neg (by omega), if_neg (by omega)]
      rw [if_neg hji, next, GET_NEXT_FREEBLKP, GET_PTR, hzero]
      rfl
  have hlink : next (single size i).mem 192 = none := by
    have hzero : (single size i).mem 192 = 0#32 := by
      simp only [cell, DSIZE] at *
      rw [hread _ (by omega), if_neg (by omega), if_neg (by omega), if_neg (by omega), if_neg (by omega)]
    rw [next, GET_NEXT_FREEBLKP, GET_PTR, hzero]
    rfl
  have hback : prev (single size i).mem 192 = some (cell 16 i) := by
    have hword : (single size i).mem 200 = BitVec.ofNat 32 (cell 16 i) := by
      simp only [cell, DSIZE] at *
      rw [hread _ (by omega), if_neg (by omega), if_neg (by omega), if_pos rfl]
    have hlt : cell 16 i < 2 ^ 32 := by
      simp only [cell, DSIZE]
      omega
    rw [prev, Malloc.GET_PREV_FREEBLKP, GET_PTR, DSIZE, hword, BitVec.toNat_ofNat, Nat.mod_eq_of_lt hlt]
    exact link_of_ne (by simp [cell])
  have hfirst : firstBlock (single size i).tableBase = 192 := rfl
  have harena : Arena 16 [⟨size, false⟩] :=
    ⟨by decide, by decide, ⟨by simpa using hmod, by simpa [MININUM_BLK_SIZE] using hmin⟩, by
      show 192 + (size + 0) < 2 ^ 32
      omega⟩
  have hprologue : (single size i).mem 180 = PACK DSIZE true true ∧
      (single size i).mem 184 = PACK DSIZE true true := by
    simp only [cell, DSIZE] at *
    rw [hread _ (by omega), hread _ (by omega), if_pos (Or.inl rfl), if_pos (Or.inr rfl)]
    exact ⟨rfl, rfl⟩
  have htags : (single size i).mem 188 = PACK size false true ∧
      (single size i).mem (192 + size - DSIZE) = PACK size false true := by
    simp only [cell, DSIZE] at *
    rw [hread _ (by omega), hread _ (by omega), if_neg (by omega), if_pos (Or.inl rfl), if_neg (by omega),
      if_pos (Or.inr (by omega))]
    exact ⟨rfl, rfl⟩
  have hepilogue : (single size i).mem (Malloc.HDRP (192 + size)) = PACK 0 true false := by
    simp only [cell, DSIZE, Malloc.HDRP, WSIZE] at *
    rw [hread _ (by omega), if_neg (by omega), if_neg (by omega), if_neg (by omega), if_pos (by omega)]
  refine ⟨⟨harena, hprologue.1, hprologue.2, ⟨htags.1, fun _ => ⟨rfl, htags.2⟩, trivial⟩, hepilogue,
    fun j => if j = i then [192] else [], ⟨?_, ?_, ?_, ?_⟩, ?_⟩, (by decide : 184 ≠ 0), rfl, le_refl _, rfl,
      le_refl _,
    hmax⟩
  · intro j hj
    show Walk _ (next (single size i).mem (cell 16 j)) _
    rw [hcell j hj]
    by_cases hji : j = i
    · rw [if_pos hji, if_pos hji]
      exact ⟨rfl, hlink⟩
    · rw [if_neg hji, if_neg hji]
      rfl
  · intro j hj
    by_cases hji : j = i
    · rw [if_pos hji, hji]
      exact ⟨hback, trivial⟩
    · rw [if_neg hji]
      trivial
  · intro j hj p hp
    by_cases hji : j = i
    · rw [if_pos hji, List.mem_singleton] at hp
      exact ⟨⟨size, false⟩, by rw [hp]; exact List.mem_cons_self⟩
    · rw [if_neg hji] at hp
      cases hp
  · intro j hj k hk p hp hp'
    by_cases hji : j = i
    · by_cases hki : k = i
      · rw [hji, hki]
      · rw [if_neg hki] at hp'
        cases hp'
    · rw [if_neg hji] at hp
      cases hp
  · intro j hj p
    rw [hfirst, placed_cons, placed_nil]
    simp only [List.mem_singleton, Prod.mk.injEq]
    constructor
    · intro hp
      by_cases hji : j = i
      · rw [if_pos hji, List.mem_singleton] at hp
        exact ⟨_, ⟨hp, rfl⟩, rfl, hji.symm ▸ hgroup⟩
      · rw [if_neg hji] at hp
        cases hp
    · rintro ⟨b, ⟨rfl, rfl⟩, -, hj⟩
      rw [if_pos (hj.symm.trans hgroup)]
      exact List.mem_cons_self

theorem mmMalloc_undersized_single : ∃ p headers s', mmMalloc 2 (single 4194320 19) 0xFFFFFFFF =
    .ret (some p, headers, s') ∧
      ¬(0xFFFFFFFF ≤ GET_SIZE (s'.mem (HDRP p)) ∧ p + GET_SIZE (s'.mem (HDRP p)) ≤ s'.memBrk) := by
  have hgroup : Malloc.group 4194320 = 19 := by decide +kernel
  exact mmMalloc_undersized (ready_single (by decide) (by decide) (by decide) hgroup)
    ⟨⟨4194320, false⟩, List.mem_singleton.mpr rfl, rfl, hgroup⟩ (by decide) (by decide)

end

end MallocWrap

end SysuOs
