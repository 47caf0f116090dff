import Mathlib
import SysuOs.MallocReady

/-! `mm_realloc`: a block grows into the free block after it or shrinks in front of it, and otherwise moves to
a block of its own, with what is in it. -/

namespace SysuOs

namespace Malloc

/-! ### `memcpy` on the words of the heap -/

def getByte (m : Memory) (a : Nat) : Word := (m (a / WSIZE * WSIZE) >>> (8 * (a % WSIZE))) &&& 255#32

def putByte (m : Memory) (a : Nat) (w : Word) : Memory :=
  PUT m (a / WSIZE * WSIZE)
    ((m (a / WSIZE * WSIZE) &&& ~~~(255#32 <<< (8 * (a % WSIZE)))) ||| (w <<< (8 * (a % WSIZE))))

/-- The first `n` words. -/
def copyWords (m : Memory) (dst src : Nat) : Nat → Memory
  | 0 => m
  | n + 1 => PUT (copyWords m dst src n) (dst + WSIZE * n) (copyWords m dst src n (src + WSIZE * n))

/-- The first `n` bytes from the byte `first` on. -/
def copyBytes (m : Memory) (dst src first : Nat) : Nat → Memory
  | 0 => m
  | n + 1 => putByte (copyBytes m dst src first n) (dst + (first + n))
      (getByte (copyBytes m dst src first n) (src + (first + n)))

/-- Words where both addresses are aligned, and bytes for the rest. -/
def memcpy (m : Memory) (dst src n : Nat) : Memory :=
  if dst % 4 ≠ 0 ∨ src % 4 ≠ 0 then
    copyBytes m dst src 0 n
  else
    copyBytes (copyWords m dst src (n / 4)) dst src (n - n % 4) (n % 4)

theorem putByte_of_ne {m : Memory} {a x : Nat} {w : Word} (h : x ≠ a / WSIZE * WSIZE) : putByte m a w x = m x :=
  PUT_of_ne h

theorem copyWords_out {m : Memory} {dst src n a : Nat} (h : a < dst ∨ dst + WSIZE * n ≤ a) :
    copyWords m dst src n a = m a := by
  induction n with
  | zero => rfl
  | succ n ih =>
      rw [Nat.mul_succ] at h
      simp only [WSIZE] at h
      rw [copyWords, PUT_of_ne (by simp only [WSIZE]; omega)]
      exact ih (by simp only [WSIZE]; omega)

theorem copyWords_in {m : Memory} {dst src n i : Nat} (hapart : dst + WSIZE * n ≤ src ∨ src + WSIZE * n ≤ dst)
    (hi : i < n) : copyWords m dst src n (dst + WSIZE * i) = m (src + WSIZE * i) := by
  induction n with
  | zero => omega
  | succ n ih =>
      rw [Nat.mul_succ] at hapart
      simp only [WSIZE] at hapart ih ⊢
      rw [copyWords]
      by_cases hin : i = n
      · subst hin
        simp only [WSIZE]
        rw [PUT_self, copyWords_out (by simp only [WSIZE]; omega)]
      · simp only [WSIZE]
        rw [PUT_of_ne (by omega)]
        exact ih (by omega) (by omega)

/-- The bytes that are left over lie in one word. -/
theorem copyBytes_out {m : Memory} {dst src first n a : Nat} (hdst : dst % 4 = 0) (hfirst : first % 4 = 0)
    (hn : n < 4) (h : a < dst + first ∨ dst + first + n ≤ a) : copyBytes m dst src first n a = m a := by
  induction n with
  | zero => rfl
  | succ n ih =>
      rw [copyBytes, putByte_of_ne (by simp only [WSIZE]; omega)]
      exact ih (by omega) (by omega)

/-- `memcpy` between blocks that are apart: whole words arrive, and nothing but the destination changes. -/
theorem memcpy_spec {m : Memory} {dst src n : Nat} (hdst : dst % 4 = 0) (hsrc : src % 4 = 0)
    (hapart : dst + n ≤ src ∨ src + n ≤ dst) :
    (∀ i, WSIZE * (i + 1) ≤ n → memcpy m dst src n (dst + WSIZE * i) = m (src + WSIZE * i)) ∧
      ∀ a, (a < dst ∨ dst + n ≤ a) → memcpy m dst src n a = m a := by
  have hwords : n / 4 * 4 + n % 4 = n := by omega
  unfold memcpy
  rw [if_neg (by omega)]
  refine ⟨fun i hi => ?_, fun a ha => ?_⟩
  · simp only [WSIZE] at hi
    rw [copyBytes_out hdst (by omega) (by omega) (by simp only [WSIZE]; omega),
      copyWords_in (by simp only [WSIZE]; omega) (by omega)]
  · rw [copyBytes_out hdst (by omega) (by omega) (by omega), copyWords_out (by simp only [WSIZE]; omega)]

namespace Heap

/-- Sizes are exact, as in `mmMalloc`. -/
def mmRealloc (fuel : Nat) (s : Heap) (ptr size : Nat) : Outcome (Option Nat × Heap) :=
  let nextPtr := NEXT_BLKP s.mem ptr
  let requestSize := newSize size
  let oldSize := GET_SIZE (s.mem (HDRP ptr))
  let nextSize := GET_SIZE (s.mem (HDRP nextPtr))
  let aggSize := nextSize + oldSize
  if ¬GET_ALLOC (s.mem (HDRP nextPtr)) ∧ aggSize ≥ requestSize then
    if aggSize ≥ requestSize + MININUM_BLK_SIZE then do
      let resSize := aggSize - requestSize
      let m := removeFreelist s.mem nextPtr
      let m := PUT m (HDRP ptr) (PACK requestSize true (GET_PREVALLOC (m (HDRP ptr))))
      let resPtr := NEXT_BLKP m ptr
      let m := PUT m (HDRP resPtr) (PACK resSize false true)
      let m := PUT m (FTRP m resPtr) (PACK resSize false true)
      let m ← appendFreelist m s.tableBase resPtr resSize
      return (some ptr, { s with mem := SET_PREVALLOC m (HDRP (NEXT_BLKP m resPtr)) false })
    else
      let m := removeFreelist s.mem nextPtr
      let m := PUT m (HDRP ptr) (PACK aggSize true (GET_PREVALLOC (m (HDRP ptr))))
      .ret (some ptr, { s with mem := SET_PREVALLOC m (HDRP (NEXT_BLKP m ptr)) true })
  else do
    match ← s.mmMalloc fuel size with
    | (none, s) => return (none, s)
    | (some newPtr, s) =>
        let oldPayload := oldSize - 2 * DSIZE
        let copy := if size < oldPayload then size else oldPayload
        let m := memcpy s.mem newPtr ptr copy
        let m ← mmFree m s.tableBase ptr
        return (some newPtr, { s with mem := m })

end Heap

/-! ### A block and the free block after it -/

section
variable {m : Memory} {tableBase old x : Nat} {l r : List Block} {f : Block}
  (h : WellFormed m tableBase (l ++ ⟨old, true⟩ :: f :: r)) (hf : f.alloc = false)
  (hx : x = firstBlock tableBase + total l)
include h hf hx

/-- Once the free block is out of its list both are one block under work. -/
theorem WellFormed.absorb : Hole (removeFreelist m (x + old)) tableBase l (old + f.size) r ∧
    headAlloc r = true ∧ removeFreelist m (x + old) (HDRP x) = PACK old true (lastAlloc true l) ∧
    (∀ a, x ≤ a → a < HDRP (x + old) → removeFreelist m (x + old) a = m a) ∧
    ∀ a, Kept tableBase l (old + f.size) r a → removeFreelist m (x + old) a = m a := by
  obtain ⟨hhole, hheader⟩ := h.hole
  obtain ⟨habsorb, hframe⟩ := hhole.absorbRight hf (by rw [hx] : x + old = firstBlock tableBase + total l + old)
  have hmid : (x, (⟨old, true⟩ : Block)) ∈ placed (firstBlock tableBase) (l ++ ⟨old, true⟩ :: f :: r) := by
    rw [hx]
    exact placed_mid
  refine ⟨habsorb, ?_, ?_, fun a hle hlt => ?_, fun a ha => ?_⟩
  · obtain ⟨prevAlloc, htags, -⟩ := hhole.right
    exact headAlloc_of_tags (hf ▸ htags.2.2)
  · rw [hframe _ (Or.inr ⟨x, _, hmid, Or.inl rfl⟩), hx, hheader]
  · exact hframe a (Or.inr ⟨x, _, hmid, Or.inr (Or.inr (Or.inr (Or.inl ⟨rfl, hle, hlt⟩)))⟩)
  · obtain ⟨q, c, hc, halloc, hle, hlt⟩ := ha
    refine hframe a (Kept.unlinked rfl ⟨q, c, hc.imp_right fun hc => ?_, halloc, hle, hlt⟩)
    rw [placed_cons, Nat.add_assoc (firstBlock tableBase + total l)]
    exact List.mem_cons_of_mem _ hc

/-- The block in use takes `a` of the bytes of both, and the rest is listed. -/
theorem WellFormed.resize {a b : Nat} (hsum : old + f.size = a + b) (ha : a % 8 = 0 ∧ 24 ≤ a) (hb : 24 ≤ b)
    (hclean : RestUnlinked (removeFreelist m (x + old)) (x + a)) :
    ∃ m', appendFreelist (PUT (PUT (PUT (removeFreelist m (x + old)) (HDRP x) (PACK a true (lastAlloc true l)))
        (HDRP (x + a)) (PACK b false true)) (x + a + b - DSIZE) (PACK b false true)) tableBase (x + a) b =
        .ret m' ∧
      m' (HDRP (x + a)) = PACK b false true ∧
      WellFormed (SET_PREVALLOC m' (HDRP (x + a + b)) false) tableBase (l ++ ⟨a, true⟩ :: ([⟨b, false⟩] ++ r)) ∧
      (∀ w, x ≤ w → w < HDRP (x + a) → w < HDRP (x + old) →
        SET_PREVALLOC m' (HDRP (x + a + b)) false w = m w) ∧
      ∀ w, Kept tableBase l (old + f.size) r w → SET_PREVALLOC m' (HDRP (x + a + b)) false w = m w := by
  obtain ⟨hwhole, hhead, -, hpayload, hkept⟩ := h.absorb hf hx
  have hpos : 16 ≤ x := by
    rw [hx]
    simp only [firstBlock, DSIZE]
    omega
  have hbeside := hwhole.toBeside
  have hsizes := hwhole.arena.sizes.right.head
  dsimp only at hsizes
  have hbalign : b % 8 = 0 := by omega
  have hput : Hole (PUT (removeFreelist m (x + old)) (HDRP x) (PACK a true (lastAlloc true l))) tableBase l
      (a + b) r := by
    rw [← hsum]
    exact hwhole.put (by rw [hx]) (by rw [← hx]; simp only [HDRP, WSIZE]; omega)
  have hsplit := hput.split ha ⟨hbalign, hb⟩ (by rw [← hx]; exact PUT_self _ _ _)
  have hrest : x + a = firstBlock tableBase + total (l ++ [⟨a, true⟩]) := by
    rw [hx]
    simp [Nat.add_assoc]
  have hzero : PUT (removeFreelist m (x + old)) (HDRP x) (PACK a true (lastAlloc true l)) (x + a) = 0#32 := by
    rw [PUT_of_ne (by simp only [HDRP, WSIZE]; omega)]
    exact hclean.1
  have hzero' : PUT (removeFreelist m (x + old)) (HDRP x) (PACK a true (lastAlloc true l)) (x + a + DSIZE) =
      0#32 := by
    rw [PUT_of_ne (by simp only [HDRP, WSIZE, DSIZE]; omega)]
    exact hclean.2
  obtain ⟨htagged, hfresh⟩ := hsplit.writeTags hrest hzero hzero' true
  obtain ⟨m', happend, hheader, hwell, hframe⟩ := htagged.closeFree hhead (by simp [lastAlloc]) hrest
    hfresh.header hfresh.footer hfresh.next hfresh.prev
  have hmid : (x, (⟨a, true⟩ : Block)) ∈
      placed (firstBlock tableBase) (l ++ [⟨a, true⟩] ++ ⟨b, false⟩ :: r) := by
    rw [List.append_assoc, hx]
    exact placed_mid
  refine ⟨m', happend, hheader, by simpa using hwell, fun w hle hlt hlt' => ?_, fun w hw => ?_⟩
  · have hlt'' := hlt
    simp only [HDRP, WSIZE] at hlt''
    rw [SET_PREVALLOC, PUT_of_ne (by simp only [HDRP, WSIZE]; omega),
      hframe w (Or.inr ⟨x, _, hmid, Or.inr (Or.inr (Or.inr (Or.inl ⟨rfl, hle, hlt⟩)))⟩),
      PUT_of_ne (by simp only [DSIZE]; omega), PUT_of_ne (by simp only [HDRP, WSIZE]; omega),
      PUT_of_ne (by simp only [HDRP, WSIZE]; omega), hpayload w hle hlt']
  · have hout := hw.outside hbeside
    rw [← hx] at hout
    simp only [HDRP, WSIZE] at hout
    rw [SET_PREVALLOC, PUT_of_ne (by simp only [HDRP, WSIZE]; omega), hframe w ?_,
      PUT_of_ne (by simp only [DSIZE]; omega), PUT_of_ne (by simp only [HDRP, WSIZE]; omega),
      PUT_of_ne (by simp only [HDRP, WSIZE]; omega), hkept w hw]
    obtain ⟨q, c, hc, halloc, hle, hlt⟩ := hw
    refine Or.inr ⟨q, c, ?_, Or.inr (Or.inr (Or.inr (Or.inl ⟨halloc, hle, hlt⟩)))⟩
    rw [List.append_assoc]
    rcases hc with hc | hc
    · exact placed_left hc
    · rw [placed_append, List.singleton_append, placed_cons, placed_cons]
      refine List.mem_append_right _ (List.mem_cons_of_mem _ (List.mem_cons_of_mem _ ?_))
      rwa [Nat.add_assoc (firstBlock tableBase + total l), ← hsum]

/-- The block in use takes all the bytes of both. -/
theorem WellFormed.merge :
    WellFormed (SET_PREVALLOC (PUT (removeFreelist m (x + old)) (HDRP x)
        (PACK (old + f.size) true (lastAlloc true l))) (HDRP (x + (old + f.size))) true) tableBase
        (l ++ ⟨old + f.size, true⟩ :: ([] ++ r)) ∧
      (∀ w, x ≤ w → w < HDRP (x + old) → SET_PREVALLOC (PUT (removeFreelist m (x + old)) (HDRP x)
        (PACK (old + f.size) true (lastAlloc true l))) (HDRP (x + (old + f.size))) true w = m w) ∧
      ∀ w, Kept tableBase l (old + f.size) r w → SET_PREVALLOC (PUT (removeFreelist m (x + old)) (HDRP x)
        (PACK (old + f.size) true (lastAlloc true l))) (HDRP (x + (old + f.size))) true w = m w := by
  obtain ⟨hwhole, hhead, -, hpayload, hkept⟩ := h.absorb hf hx
  have hpos : 16 ≤ x := by
    rw [hx]
    simp only [firstBlock, DSIZE]
    omega
  have hsizes := hwhole.arena.sizes.right.head
  dsimp only at hsizes
  have hput : Hole (PUT (removeFreelist m (x + old)) (HDRP x) (PACK (old + f.size) true (lastAlloc true l)))
      tableBase l (old + f.size) r :=
    hwhole.put (by rw [hx]) (by rw [← hx]; simp only [HDRP, WSIZE]; omega)
  have hwell := @Beside.close _ _ _ _ _ true hput.toBeside hhead hput.lists (by rw [← hx]; exact PUT_self _ _ _)
    fun he => absurd he (by decide)
  rw [← hx] at hwell
  refine ⟨hwell, fun w hle hlt => ?_, fun w hw => ?_⟩
  · have hlt' := hlt
    simp only [HDRP, WSIZE] at hlt'
    rw [SET_PREVALLOC, PUT_of_ne (by simp only [HDRP, WSIZE]; omega),
      PUT_of_ne (by simp only [HDRP, WSIZE]; omega), hpayload w hle hlt]
  · have hout := hw.outside hwhole.toBeside
    rw [← hx] at hout
    simp only [HDRP, WSIZE] at hout
    rw [SET_PREVALLOC, PUT_of_ne (by simp only [HDRP, WSIZE]; omega),
      PUT_of_ne (by simp only [HDRP, WSIZE]; omega), hkept w hw]

end

theorem Live.aligned {tableBase p : Nat} {bs : List Block} {b : Block} (h : Arena tableBase bs)
    (hp : Live tableBase bs p b) : p % 8 = 0 := by
  have hbounds := placed_bounds h.sizes hp.1
  have halign := h.aligned
  simp only [firstBlock, cell, DSIZE] at hbounds
  omega

namespace Heap

variable {s s' : Heap} {bs : List Block} {fuel size p q : Nat} {b₀ : Block}

/-- Zeros are where the links of the rest will be, when a rest is split off. -/
def ReallocFresh (fuel : Nat) (s : Heap) (ptr size : Nat) : Prop :=
  let nextPtr := NEXT_BLKP s.mem ptr
  let aggSize := GET_SIZE (s.mem (HDRP nextPtr)) + GET_SIZE (s.mem (HDRP ptr))
  if ¬GET_ALLOC (s.mem (HDRP nextPtr)) ∧ aggSize ≥ newSize size then
    aggSize ≥ newSize size + MININUM_BLK_SIZE →
      RestUnlinked (removeFreelist s.mem nextPtr) (ptr + newSize size)
  else FreshRest fuel s size

/-- In `s'` the block at `p` is the block `b` at `q`, with as much of what was in it as both have room for. -/
structure Moves (s s' : Heap) (bs bs' : List Block) (p : Nat) (b₀ : Block) (size q : Nat) (b : Block) :
    Prop where
  table : s'.tableBase = s.tableBase
  room : newSize size ≤ b.size
  alloc : b.alloc = true
  live : ∀ a c, Live s.tableBase bs' a c ↔ Live s.tableBase bs a c ∧ a ≠ p ∨ a = q ∧ c = b
  same : ∀ a c, Live s.tableBase bs a c → a ≠ p → a ≠ q ∧ SamePayload s.mem s'.mem a c
  copied : ∀ i, WSIZE * (i + 1) ≤ min size (b₀.size - 2 * DSIZE) →
    s'.mem (q + WSIZE * i) = s.mem (p + WSIZE * i)

/-- The block stays where it is, and takes some of the free block after it or leaves some to it. -/
theorem Ready.resized {l r rest : List Block} {f used : Block} {old : Nat} {m : Memory}
    (h : s.Ready (l ++ ⟨old, true⟩ :: f :: r)) (hf : f.alloc = false) (hused : used.alloc = true)
    (hrest : ∀ g ∈ rest, g.alloc = false) (hsum : used.size + total rest = old + f.size)
    (hroom : newSize size ≤ used.size) (hwell : WellFormed m s.tableBase (l ++ used :: (rest ++ r)))
    (hpayload : ∀ a, firstBlock s.tableBase + total l ≤ a →
      a < HDRP (firstBlock s.tableBase + total l + used.size) →
      a < HDRP (firstBlock s.tableBase + total l + old) → m a = s.mem a)
    (hkept : ∀ a, Kept s.tableBase l (old + f.size) r a → m a = s.mem a) :
    Ready { s with mem := m } (l ++ used :: (rest ++ r)) ∧
      Moves s { s with mem := m } (l ++ ⟨old, true⟩ :: f :: r) (l ++ used :: (rest ++ r))
        (firstBlock s.tableBase + total l) ⟨old, true⟩ size (firstBlock s.tableBase + total l) used := by
  have hbefore : ∀ q c,
      Live s.tableBase (l ++ ⟨old, true⟩ :: f :: r) q c ∧ q ≠ firstBlock s.tableBase + total l ↔
      ((q, c) ∈ placed (firstBlock s.tableBase) l ∨
        (q, c) ∈ placed (firstBlock s.tableBase + total l + (old + f.size)) r) ∧ c.alloc = true := by
    intro q c
    rw [Live, mem_placed_iff, placed_cons, List.mem_cons, ← Nat.add_assoc (firstBlock s.tableBase + total l)]
    constructor
    · rintro ⟨⟨hc | ⟨hq, -⟩ | he | hc, halloc⟩, hne⟩
      · exact ⟨Or.inl hc, halloc⟩
      · exact absurd hq hne
      · rw [(Prod.mk.inj he).2, hf] at halloc
        cases halloc
      · exact ⟨Or.inr hc, halloc⟩
    · rintro ⟨hc, halloc⟩
      refine ⟨⟨hc.imp_right fun hc => Or.inr (Or.inr hc), halloc⟩, ?_⟩
      refine h.wellFormed.arena.ne_mid (hc.imp_right fun hc => ?_)
      rw [placed_cons]
      exact List.mem_cons_of_mem _ hc
  refine ⟨h.withMem hwell ?_, rfl, hroom, hused, fun q c => ?_, fun q c hc hne => ⟨hne, fun a hle hlt => ?_⟩,
    fun i hi => hpayload _ (Nat.le_add_right _ _) ?_ ?_⟩
  · simp only [total_append, total_cons]
    omega
  · rw [live_replace hused hrest hsum, hbefore]
  · obtain ⟨hbeside, halloc⟩ := (hbefore q c).mp ⟨hc, hne⟩
    exact hkept a ⟨q, c, hbeside, halloc, hle, hlt⟩
  · simp only [newSize, ALIGN, HDRP, WSIZE, DSIZE] at *
    omega
  · simp only [HDRP, WSIZE, DSIZE] at *
    omega

/-- What `mm_realloc` reads of the block and of the block after it. -/
theorem Ready.neighbours {l r : List Block} {old : Nat} (h : s.Ready (l ++ ⟨old, true⟩ :: r)) :
    s.mem (HDRP (firstBlock s.tableBase + total l)) = PACK old true (lastAlloc true l) ∧ TagSize old ∧
      NEXT_BLKP s.mem (firstBlock s.tableBase + total l) = firstBlock s.tableBase + total l + old ∧
      GET_ALLOC (s.mem (HDRP (firstBlock s.tableBase + total l + old))) = headAlloc r := by
  obtain ⟨hhole, hheader⟩ := h.wellFormed.hole
  refine ⟨hheader, hhole.tagSize, ?_, hhole.next_alloc⟩
  rw [NEXT_BLKP, hheader, GET_SIZE_PACK hhole.tagSize]

/-- `mm_realloc` where the block after it is free and both are large enough. -/
theorem mmRealloc_place {l r : List Block} {f : Block} {old : Nat} (h : s.Ready (l ++ ⟨old, true⟩ :: f :: r))
    (hf : f.alloc = false) (hsize : 1 ≤ size) (hfits : newSize size ≤ old + f.size)
    (hfresh : ReallocFresh fuel s (firstBlock s.tableBase + total l) size) :
    ∃ m bs' b, s.mmRealloc fuel (firstBlock s.tableBase + total l) size =
        .ret (some (firstBlock s.tableBase + total l), { s with mem := m }) ∧ Ready { s with mem := m } bs' ∧
      Moves s { s with mem := m } (l ++ ⟨old, true⟩ :: f :: r) bs' (firstBlock s.tableBase + total l)
        ⟨old, true⟩ size (firstBlock s.tableBase + total l) b := by
  obtain ⟨hheader, htag, hnext, halloc⟩ := h.neighbours
  have hwell := h.wellFormed
  have hnew := (newSize_spec hsize).1
  have hfsize : GET_SIZE (s.mem (HDRP (firstBlock s.tableBase + total l + old))) = f.size := by
    have htags := (Tags.append.mp hwell.tags).2.2.2.1
    dsimp only at htags
    rw [htags, GET_SIZE_PACK (TagSize.of_mem hwell.arena (by simp))]
  have hsizeOld : GET_SIZE (s.mem (HDRP (firstBlock s.tableBase + total l))) = old := by
    rw [hheader, GET_SIZE_PACK htag]
  obtain ⟨hwhole, -, hheader', -⟩ := hwell.absorb hf rfl
  have hcond : ¬headAlloc (f :: r) = true ∧ f.size + old ≥ newSize size := by
    refine ⟨?_, by omega⟩
    rw [headAlloc, hf]
    decide
  unfold ReallocFresh at hfresh
  unfold mmRealloc
  simp only [hnext, halloc, hfsize, hsizeOld] at hfresh ⊢
  rw [if_pos hcond] at hfresh ⊢
  by_cases hsplit : f.size + old ≥ newSize size + MININUM_BLK_SIZE
  · rw [if_pos hsplit]
    have hmin : 24 ≤ f.size + old - newSize size := by
      simp only [MININUM_BLK_SIZE] at hsplit
      omega
    have hsum : old + f.size = newSize size + (f.size + old - newSize size) := by omega
    obtain ⟨m', happend, hrest, hwell', hpayload, hkept⟩ := hwell.resize hf rfl hsum hnew hmin (hfresh hsplit)
    have htotal : TagSize (old + f.size) := hwhole.tagSize
    have hnewTag : TagSize (newSize size) := ⟨hnew.1, by have := htotal.lt; omega⟩
    have hresTag : TagSize (f.size + old - newSize size) :=
      ⟨by have := htotal.aligned; omega, by have := htotal.lt; omega⟩
    have hresPtr : ∀ m, NEXT_BLKP (PUT m (HDRP (firstBlock s.tableBase + total l))
        (PACK (newSize size) true (lastAlloc true l))) (firstBlock s.tableBase + total l) =
        firstBlock s.tableBase + total l + newSize size := by
      intro m
      rw [NEXT_BLKP, PUT_self, GET_SIZE_PACK hnewTag]
    have hfooter : ∀ m y, FTRP (PUT m (HDRP y) (PACK (f.size + old - newSize size) false true)) y =
        y + (f.size + old - newSize size) - DSIZE := by
      intro m y
      rw [FTRP, PUT_self, GET_SIZE_PACK hresTag]
    have hend : NEXT_BLKP m' (firstBlock s.tableBase + total l + newSize size) =
        firstBlock s.tableBase + total l + newSize size + (f.size + old - newSize size) := by
      rw [NEXT_BLKP, hrest, GET_SIZE_PACK hresTag]
    simp only [hheader', GET_PREVALLOC_PACK htag, hresPtr, hfooter, happend, Outcome.ret_bind, hend]
    refine ⟨_, _, _, rfl, h.resized hf rfl (by simp) ?_ (Nat.le_refl _) hwell' hpayload hkept⟩
    rw [total_cons, total_nil]
    dsimp only
    omega
  · rw [if_neg hsplit]
    obtain ⟨hwell', hpayload, hkept⟩ := hwell.merge hf rfl
    have hnextPtr : ∀ m, NEXT_BLKP (PUT m (HDRP (firstBlock s.tableBase + total l))
        (PACK (old + f.size) true (lastAlloc true l))) (firstBlock s.tableBase + total l) =
        firstBlock s.tableBase + total l + (old + f.size) := by
      intro m
      rw [NEXT_BLKP, PUT_self, GET_SIZE_PACK hwhole.tagSize]
    simp only [hheader', GET_PREVALLOC_PACK htag, Nat.add_comm f.size, hnextPtr]
    exact ⟨_, _, _, rfl, h.resized hf rfl (by simp) (by simp) hfits hwell'
      (fun a hle _ hlt => hpayload a hle hlt) hkept⟩

/-- `mm_realloc` where the block has to move: what it is copied to, and the block given back. -/
theorem mmRealloc_move {s₁ : Heap} {bs₁ : List Block} {b : Block} (hp : Live s.tableBase bs p b₀)
    (hready : s₁.Ready bs₁) (hgains : Gains s s₁ bs bs₁ size q b) :
    ∃ m bs', mmFree (memcpy s₁.mem q p (min size (b₀.size - 2 * DSIZE))) s₁.tableBase p = .ret m ∧
      Ready { s₁ with mem := m } bs' ∧ Moves s { s₁ with mem := m } bs bs' p b₀ size q b := by
  have htable := hgains.table
  have hroom := hgains.room
  have hsizes := hready.wellFormed.arena.sizes
  have hq : Live s₁.tableBase bs₁ q b := by
    rw [htable]
    exact (hgains.live q b).mpr (Or.inr ⟨rfl, rfl⟩)
  have hp₁ : Live s₁.tableBase bs₁ p b₀ := by
    rw [htable]
    exact (hgains.live p b₀).mpr (Or.inl hp)
  have hne : p ≠ q := (hgains.same p b₀ hp).1
  have hpmod := hp₁.aligned hready.wellFormed.arena
  have hqmod := hq.aligned hready.wellFormed.arena
  have hapart := (placed_apart hsizes hp₁.1 hq.1).resolve_left fun he => hne he.1
  have hpbounds := placed_bounds hsizes hp₁.1
  have hsize : size + 16 ≤ newSize size := by
    simp only [newSize, ALIGN, DSIZE]
    omega
  simp only [DSIZE]
  obtain ⟨hcopied, hout⟩ :=
    @memcpy_spec s₁.mem q p (min size (b₀.size - 2 * 8)) (by omega) (by omega) (by omega)
  have hout' : ∀ a, ¬(q ≤ a ∧ a < HDRP (q + b.size)) →
      memcpy s₁.mem q p (min size (b₀.size - 2 * 8)) a = s₁.mem a := by
    intro a ha
    simp only [HDRP, WSIZE] at ha
    exact hout a (by omega)
  have hready' : Ready { s₁ with mem := memcpy s₁.mem q p (min size (b₀.size - 2 * 8)) } bs₁ :=
    hready.withMem (hready.wellFormed.written hq hout') rfl
  obtain ⟨m, bs', hfree, hready'', hloses⟩ := mmFree_loses hready' hp₁
  refine ⟨m, bs', hfree, hready'', htable, hroom, hgains.alloc, fun a c => ?_, fun a c hc hap => ?_,
    fun i hi => ?_⟩
  · have hlive := hloses.live a c
    dsimp only at hlive
    rw [htable, hgains.live] at hlive
    rw [hlive]
    constructor
    · rintro ⟨hc | he, hap⟩
      · exact Or.inl ⟨hc, hap⟩
      · exact Or.inr he
    · rintro (⟨hc, hap⟩ | ⟨rfl, rfl⟩)
      · exact ⟨Or.inl hc, hap⟩
      · exact ⟨Or.inr ⟨rfl, rfl⟩, hne.symm⟩
  · obtain ⟨haq, hsame⟩ := hgains.same a c hc
    have hc₁ : Live s₁.tableBase bs₁ a c := by
      rw [htable]
      exact (hgains.live a c).mpr (Or.inl hc)
    refine ⟨haq, fun w hle hlt => ?_⟩
    exact (hloses.same a c hc₁ hap w hle hlt).trans
      ((hq.others hsizes hout' hc₁ haq w hle hlt).trans (hsame w hle hlt))
  · have hin := hi
    simp only [WSIZE, DSIZE] at hin
    have hfreed := hloses.same q b hq hne.symm (q + WSIZE * i) (Nat.le_add_right _ _) (by
      simp only [HDRP, WSIZE]
      omega)
    refine hfreed.trans ((hcopied i hi).trans ((hgains.same p b₀ hp).2 _ (Nat.le_add_right _ _) ?_))
    simp only [HDRP, WSIZE]
    omega

/-- Either the block after it is free and both are large enough, or `mm_realloc` takes a new block. -/
theorem mmRealloc_cases (h : s.Ready bs) (hp : Live s.tableBase bs p b₀) (hsize : 1 ≤ size) :
    (∃ l r f old, bs = l ++ ⟨old, true⟩ :: f :: r ∧ b₀ = ⟨old, true⟩ ∧ p = firstBlock s.tableBase + total l ∧
      f.alloc = false ∧ newSize size ≤ old + f.size) ∨
    (ReallocFresh fuel s p size → FreshRest fuel s size) ∧ ∀ res s', s.mmRealloc fuel p size = .ret (res, s') →
      (res = none ∧ allocateLoop fuel s size = .ret (none, s')) ∨
      ∃ q s₁ m, res = some q ∧ allocateLoop fuel s size = .ret (some q, s₁) ∧
        mmFree (memcpy s₁.mem q p (min size (b₀.size - 2 * DSIZE))) s₁.tableBase p = .ret m ∧
        s' = { s₁ with mem := m } := by
  obtain ⟨hplaced, halloc⟩ := hp
  obtain ⟨l, r, rfl, rfl⟩ := placed_split hplaced
  obtain ⟨old, alloc⟩ := b₀
  obtain rfl : alloc = true := halloc
  obtain ⟨hheader, htag, hnext, hnextAlloc⟩ := h.neighbours
  have hsizeOld : GET_SIZE (s.mem (HDRP (firstBlock s.tableBase + total l))) = old := by
    rw [hheader, GET_SIZE_PACK htag]
  by_cases hcond : ¬headAlloc r = true ∧
      GET_SIZE (s.mem (HDRP (firstBlock s.tableBase + total l + old))) + old ≥ newSize size
  · obtain ⟨hhead, hfits⟩ := hcond
    obtain ⟨f, r', rfl, hf⟩ := headAlloc_false (by simpa using hhead)
    have htags := (Tags.append.mp h.wellFormed.tags).2.2.2.1
    dsimp only at htags
    rw [htags, GET_SIZE_PACK (TagSize.of_mem h.wellFormed.arena (by simp))] at hfits
    exact Or.inl ⟨l, r', f, old, rfl, rfl, rfl, hf, by omega⟩
  · refine Or.inr ⟨fun hfresh => ?_, fun res s' hret => ?_⟩
    · unfold ReallocFresh at hfresh
      simp only [hnext, hnextAlloc, hsizeOld] at hfresh
      rwa [if_neg hcond] at hfresh
    · unfold mmRealloc at hret
      simp only [hnext, hnextAlloc, hsizeOld] at hret
      rw [if_neg hcond, mmMalloc, if_neg h.started] at hret
      rw [if_neg (by omega)] at hret
      obtain ⟨⟨res₁, s₁⟩, hmalloc, hret⟩ := Outcome.bind_eq_ret hret
      cases res₁ with
      | none =>
          obtain ⟨rfl, rfl⟩ := Prod.mk.inj (Outcome.ret.inj hret)
          exact Or.inl ⟨rfl, hmalloc⟩
      | some q =>
          obtain ⟨m, hfree, hret⟩ := Outcome.bind_eq_ret hret
          obtain ⟨rfl, rfl⟩ := Prod.mk.inj (Outcome.ret.inj hret)
          have hcopy : (if size < old - 2 * DSIZE then size else old - 2 * DSIZE) =
              min size (old - 2 * DSIZE) := by split <;> omega
          rw [hcopy] at hfree
          exact Or.inr ⟨q, s₁, m, rfl, hmalloc, hfree, rfl⟩

/-- What `mm_realloc` leaves of a ready heap when it returns a block. -/
theorem mmRealloc_moves (h : s.Ready bs) (hp : Live s.tableBase bs p b₀) (hsize : 1 ≤ size)
    (hret : s.mmRealloc fuel p size = .ret (some q, s')) (hfresh : ReallocFresh fuel s p size) :
    ∃ bs' b, s'.Ready bs' ∧ Moves s s' bs bs' p b₀ size q b := by
  rcases @mmRealloc_cases s bs fuel size p b₀ h hp hsize with
    ⟨l, r, f, old, rfl, rfl, rfl, hf, hfits⟩ | ⟨hrest, hcases⟩
  · obtain ⟨m, bs', b, hret', hready, hmoves⟩ := mmRealloc_place h hf hsize hfits hfresh
    rw [hret] at hret'
    obtain ⟨hq, rfl⟩ := Prod.mk.inj (Outcome.ret.inj hret')
    obtain rfl := Option.some.inj hq
    exact ⟨bs', b, hready, hmoves⟩
  · rcases hcases _ _ hret with ⟨hnone, -⟩ | ⟨q', s₁, m, hq, hmalloc, hfree, rfl⟩
    · cases hnone
    · obtain rfl := Option.some.inj hq
      obtain ⟨bs₁, b, hready, hgains⟩ := allocateLoop_gains h hsize hmalloc (hrest hfresh)
      obtain ⟨m', bs', hfree', hready', hmoves⟩ := mmRealloc_move hp hready hgains
      obtain rfl := Outcome.ret.inj (hfree.symm.trans hfree')
      exact ⟨bs', b, hready', hmoves⟩

/-- A null pointer leaves the block where it is and as it was. -/
theorem mmRealloc_carries (h : s.Ready bs) (hp : Live s.tableBase bs p b₀) (hsize : 1 ≤ size)
    (hret : s.mmRealloc fuel p size = .ret (none, s')) (hfresh : ReallocFresh fuel s p size) :
    ∃ bs', s'.Ready bs' ∧ Carries s s' bs bs' := by
  rcases @mmRealloc_cases s bs fuel size p b₀ h hp hsize with
    ⟨l, r, f, old, rfl, rfl, rfl, hf, hfits⟩ | ⟨-, hcases⟩
  · obtain ⟨m, bs', b, hret', -⟩ := mmRealloc_place h hf hsize hfits hfresh
    rw [hret] at hret'
    cases Outcome.ret.inj hret'
  · rcases hcases _ _ hret with ⟨-, hmalloc⟩ | ⟨q, s₁, m, hq, -⟩
    · exact allocateLoop_carries h hmalloc
    · cases hq

end Heap

end Malloc

end SysuOs
