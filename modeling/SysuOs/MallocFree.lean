import Mathlib
import SysuOs.MallocHole

/-! `mm_free` keeps the heap well formed and merges the freed block with the free blocks beside it. -/

namespace SysuOs

namespace Malloc

/-- The blocks before, without a free one at their end. -/
def trimEnd (l : List Block) : List Block := if lastAlloc true l then l else l.dropLast

/-- The bytes of the free block at the end, if there is one. -/
def sizeEnd (l : List Block) : Nat := if lastAlloc true l then 0 else (l.getLast?.map Block.size).getD 0

/-- The blocks after, without a free one at their head. -/
def trimHead (r : List Block) : List Block := if headAlloc r then r else r.tail

/-- The bytes of the free block at the head, if there is one. -/
def sizeHead (r : List Block) : Nat := if headAlloc r then 0 else (r.head?.map Block.size).getD 0

/-- The blocks of a heap once a block of `size` bytes between `l` and `r` is free. -/
def coalesced (l : List Block) (size : Nat) (r : List Block) : List Block :=
  trimEnd l ++ ⟨sizeEnd l + size + sizeHead r, false⟩ :: trimHead r

section
variable {m : Memory} {tableBase size : Nat} {l r : List Block}

theorem lastAlloc_false (h : lastAlloc true l = false) :
    ∃ l' f, l = l' ++ [f] ∧ f.alloc = false := by
  rcases List.eq_nil_or_concat l with rfl | ⟨l', f, rfl⟩
  · cases h
  · rw [List.concat_eq_append, lastAlloc_append] at h
    exact ⟨l', f, List.concat_eq_append, h⟩

theorem headAlloc_false (h : headAlloc r = false) : ∃ f r', r = f :: r' ∧ f.alloc = false := by
  cases r with
  | nil => cases h
  | cons f r => exact ⟨f, r, rfl, h⟩

/-- After a free block comes one in use. -/
theorem headAlloc_of_tags {p : Nat} (h : Tags m p false r) : headAlloc r = true := by
  cases r with
  | nil => rfl
  | cons b r =>
      cases hb : b.alloc with
      | true => exact hb
      | false => exact absurd (h.2.1 hb).1 Bool.false_ne_true

theorem TagSize.of_mem {bs : List Block} {b : Block} (h : Arena tableBase bs) (hb : b ∈ bs) : TagSize b.size := by
  refine ⟨h.sizes.aligned b hb, Nat.lt_of_le_of_lt ?_ h.fits⟩
  have hle : b.size ≤ total bs := List.single_le_sum (by simp) _ (List.mem_map_of_mem hb)
  omega

theorem Beside.tagSize (h : Beside m tableBase l size r) : TagSize size :=
  TagSize.of_mem h.arena (b := ⟨size, true⟩) (by simp)

/-- The alloc bit of the header after a block under work. -/
theorem Beside.next_alloc (h : Beside m tableBase l size r) :
    GET_ALLOC (m (HDRP (firstBlock tableBase + total l + size))) = headAlloc r := by
  obtain ⟨prevAlloc, htags, hepilogue⟩ := h.right
  cases r with
  | nil =>
      rw [total_nil, Nat.add_zero] at hepilogue
      rw [hepilogue]
      exact GET_ALLOC_PACK ⟨rfl, by decide⟩ _ _
  | cons b r =>
      rw [htags.1]
      exact GET_ALLOC_PACK (TagSize.of_mem h.arena (by simp)) _ _

/-- What is kept lies beside the block under work. -/
theorem Kept.outside (h : Beside m tableBase l size r) {a : Nat} (ha : Kept tableBase l size r a) :
    a < HDRP (firstBlock tableBase + total l) ∨ firstBlock tableBase + total l + size ≤ a := by
  obtain ⟨q, b, hb | hb, -, hle, hlt⟩ := ha
  · have hbounds := placed_bounds h.arena.sizes.left hb
    simp only [HDRP, WSIZE] at *
    omega
  · have hbounds := placed_bounds h.arena.sizes.right.tail hb
    omega

theorem Kept.unlinked {b : Block} {a : Nat} (hsize : b.size = size) (ha : Kept tableBase l size r a) :
    Unlinked tableBase (l ++ b :: r) a := by
  subst hsize
  obtain ⟨q, c, hc, halloc, hle, hlt⟩ := ha
  exact Or.inr ⟨q, c, hc.elim placed_left placed_right, Or.inr (Or.inr (Or.inr (Or.inl ⟨halloc, hle, hlt⟩)))⟩

/-- The end of `coalesce`: the block is put into its list, and the next header told. -/
theorem Hole.finish (h : Hole m tableBase l size r) (hhead : headAlloc r = true) (hprev : lastAlloc true l = true)
    {x : Nat} (hx : x = firstBlock tableBase + total l) (hheader : m (HDRP x) = PACK size false true)
    (hfooter : m (x + size - DSIZE) = PACK size false true) (hzero : m x = 0#32) (hzero' : m (x + DSIZE) = 0#32) :
    ∃ m', (do
        let m ← appendFreelist m tableBase x size
        return (x, SET_PREVALLOC m (HDRP (NEXT_BLKP m x)) false)) = Outcome.ret (x, m') ∧
      WellFormed m' tableBase (l ++ ⟨size, false⟩ :: r) ∧ ∀ a, Kept tableBase l size r a → m' a = m a := by
  obtain ⟨m', happend, hheader', hwell, hframe⟩ := h.closeFree hhead hprev hx hheader hfooter hzero hzero'
  refine ⟨_, ?_, hwell, fun a ha => ?_⟩
  · rw [happend, Outcome.ret_bind, NEXT_BLKP, hheader', GET_SIZE_PACK h.tagSize]
    rfl
  · rw [SET_PREVALLOC, PUT_of_ne, hframe a (ha.unlinked rfl)]
    have hmin := h.arena.sizes.right.head.2
    have hout := ha.outside h.toBeside
    dsimp only at hmin
    simp only [HDRP, WSIZE] at *
    omega

/-- A write to the words of the block under work. -/
theorem Hole.put (h : Hole m tableBase l size r) {a : Nat} {w : Word} (hle : HDRP (firstBlock tableBase + total l) ≤ a)
    (hlt : a < HDRP (firstBlock tableBase + total l + size)) : Hole (PUT m a w) tableBase l size r :=
  h.congr fun _ hout => PUT_of_ne fun he => hout (he ▸ ⟨hle, hlt⟩)

/-- The block that `coalesce` is given: free, in no list, with both tags. -/
structure Fresh (m : Memory) (x size : Nat) (prevAlloc : Bool) : Prop where
  header : m (HDRP x) = PACK size false prevAlloc
  footer : m (x + size - DSIZE) = PACK size false prevAlloc
  next : m x = 0#32
  prev : m (x + DSIZE) = 0#32

theorem PUT_comm {a b : Nat} {w w' : Word} (h : a ≠ b) : PUT (PUT m a w) b w' = PUT (PUT m b w') a w := by
  unfold PUT
  exact Function.update_comm h _ _ _

/-- Writing the tags of the block under work. -/
theorem Hole.writeTags (h : Hole m tableBase l size r) {x : Nat} (hx : x = firstBlock tableBase + total l)
    (hnext : m x = 0#32) (hprev : m (x + DSIZE) = 0#32) (prevAlloc : Bool) :
    Hole (PUT (PUT m (HDRP x) (PACK size false prevAlloc)) (x + size - DSIZE) (PACK size false prevAlloc))
        tableBase l size r ∧
      Fresh (PUT (PUT m (HDRP x) (PACK size false prevAlloc)) (x + size - DSIZE) (PACK size false prevAlloc)) x size
        prevAlloc := by
  have hmin := h.arena.sizes.right.head.2
  have hfirst : DSIZE ≤ x := by
    rw [hx]
    simp only [firstBlock, DSIZE]
    omega
  dsimp only at hmin
  simp only [DSIZE] at hfirst
  have hhole : Hole (PUT m (HDRP x) (PACK size false prevAlloc)) tableBase l size r :=
    h.put (by rw [hx]) (by rw [← hx]; simp only [HDRP, WSIZE]; omega)
  refine ⟨hhole.put ?_ ?_, ⟨?_, PUT_self _ _ _, ?_, ?_⟩⟩
  · rw [← hx]
    simp only [HDRP, WSIZE, DSIZE]
    omega
  · rw [← hx]
    simp only [HDRP, WSIZE, DSIZE]
    omega
  · rw [PUT_of_ne (by simp only [HDRP, WSIZE, DSIZE]; omega), PUT_self]
  · rw [PUT_of_ne (by simp only [DSIZE]; omega), PUT_of_ne (by simp only [HDRP, WSIZE]; omega), hnext]
  · rw [PUT_of_ne (by simp only [DSIZE]; omega), PUT_of_ne (by simp only [HDRP, WSIZE, DSIZE]; omega), hprev]

/-- Words outside the block under work keep their values when its tags are written. -/
theorem Kept.writeTags (h : Beside m tableBase l size r) {m' : Memory} {x a : Nat} {w w' : Word}
    (hx : x = firstBlock tableBase + total l) (ha : Kept tableBase l size r a) :
    PUT (PUT m' (HDRP x) w) (x + size - DSIZE) w' a = m' a := by
  have hmin := h.arena.sizes.right.head.2
  have hout := ha.outside h
  rw [← hx] at hout
  have hfirst : DSIZE ≤ x := by
    rw [hx]
    simp only [firstBlock, DSIZE]
    omega
  dsimp only at hmin
  simp only [HDRP, WSIZE, DSIZE] at *
  rw [PUT_of_ne (by omega), PUT_of_ne (by omega)]

/-- What is kept stays so where the block under work takes in a free block behind it. -/
theorem Kept.absorbRight {f : Block} {a : Nat} (hfree : f.alloc = false) (ha : Kept tableBase l size (f :: r) a) :
    Kept tableBase l (size + f.size) r a := by
  obtain ⟨q, b, hb, halloc, hle, hlt⟩ := ha
  refine ⟨q, b, hb.imp_right fun hb => ?_, halloc, hle, hlt⟩
  rw [placed_cons, List.mem_cons] at hb
  rcases hb with he | hb
  · rw [(Prod.mk.inj he).2, hfree] at halloc
    cases halloc
  · rwa [← Nat.add_assoc]

/-- And where it takes in a free block before it. -/
theorem Kept.absorbLeft {l' : List Block} {f : Block} {a : Nat} (hfree : f.alloc = false)
    (ha : Kept tableBase (l' ++ [f]) size r a) : Kept tableBase l' (f.size + size) r a := by
  obtain ⟨q, b, hb, halloc, hle, hlt⟩ := ha
  have hend : firstBlock tableBase + total (l' ++ [f]) + size =
      firstBlock tableBase + total l' + (f.size + size) := by
    rw [total_append, total_cons, total_nil]
    omega
  refine ⟨q, b, ?_, halloc, hle, hlt⟩
  rw [placed_append, List.mem_append, placed_cons, placed_nil, List.mem_singleton] at hb
  rcases hb with (hb | he) | hb
  · exact Or.inl hb
  · rw [(Prod.mk.inj he).2, hfree] at halloc
    cases halloc
  · rw [hend] at hb
    exact Or.inr hb

/-- The tags of the free block of `g` bytes at `y`, which ends where the block under work begins. -/
structure FreeBefore (m : Memory) (y x g : Nat) : Prop where
  tag : TagSize g
  next : x = y + g
  minimum : 24 ≤ g
  pos : 8 ≤ y
  header : m (HDRP y) = PACK g false true
  footer : m (x - DSIZE) = PACK g false true

theorem PREV_BLKP_of_footer {x y g : Nat} (htag : TagSize g) (hnext : x = y + g)
    (hfooter : m (x - DSIZE) = PACK g false true) : PREV_BLKP m x = y := by
  rw [PREV_BLKP, hfooter, GET_SIZE_PACK htag]
  omega

theorem FreeBefore.prevBlkp {x y g : Nat} (h : FreeBefore m y x g) : PREV_BLKP m x = y :=
  PREV_BLKP_of_footer h.tag h.next h.footer

theorem Hole.freeBefore {l' : List Block} {g : Block} {x : Nat} (h : Hole m tableBase (l' ++ [g]) size r)
    (hx : x = firstBlock tableBase + total (l' ++ [g])) (hfree : g.alloc = false) :
    lastAlloc true l' = true ∧ FreeBefore m (firstBlock tableBase + total l') x g.size := by
  obtain ⟨-, htags⟩ := Tags.append.mp h.left
  obtain ⟨hlast, hfooter⟩ := htags.2.1 hfree
  have hheader := htags.1
  rw [hfree, hlast] at hheader hfooter
  have hnext : x = firstBlock tableBase + total l' + g.size := by
    rw [hx]
    simp [Nat.add_assoc]
  rw [← hnext] at hfooter
  refine ⟨hlast, TagSize.of_mem h.arena (by simp), hnext, h.arena.sizes.minimum g (by simp), ?_, hheader, hfooter⟩
  simp only [firstBlock, DSIZE]
  omega

/-- The tags are no words of links. -/
theorem FreeBefore.of_unlinked {l' : List Block} {g b : Block} {m' : Memory} {x : Nat}
    (h : FreeBefore m (firstBlock tableBase + total l') x g.size)
    (hframe : ∀ a, Unlinked tableBase (l' ++ [g] ++ b :: r) a → m' a = m a) :
    FreeBefore m' (firstBlock tableBase + total l') x g.size := by
  have hself : (firstBlock tableBase + total l', g) ∈ placed (firstBlock tableBase) (l' ++ [g] ++ b :: r) := by
    rw [List.append_assoc]
    exact placed_mid
  refine ⟨h.tag, h.next, h.minimum, h.pos, ?_, ?_⟩
  · exact (hframe _ (Or.inr ⟨_, g, hself, Or.inl rfl⟩)).trans h.header
  · exact (hframe _ (Or.inr ⟨_, g, hself, Or.inr (Or.inl (by rw [h.next]))⟩)).trans h.footer

/-- What `coalesce` computes between two free blocks: `m₁` and `m₂` are the memories once they are out of their
lists. -/
theorem coalesce_both_eq {m₁ m₂ : Memory} {x y g f : Nat} {prevAlloc : Bool} (htag : TagSize size)
    (hf : Fresh m x size false) (hmin : 24 ≤ size) (hm₁ : removeFreelist m (x + size) = m₁)
    (hm₂ : removeFreelist m₁ y = m₂) (hbefore : FreeBefore m y x g) (hbefore₁ : FreeBefore m₁ y x g)
    (hbefore₂ : FreeBefore m₂ y x g) (hheader : m₂ (HDRP x) = PACK size false false) (hftag : TagSize f)
    (hfheader : m (HDRP (x + size)) = PACK f false prevAlloc)
    (hfheader₂ : m₂ (HDRP (x + size)) = PACK f false prevAlloc) (hfmin : 24 ≤ f)
    (hsum : TagSize (g + (size + f))) :
    coalesce m tableBase x = (do
      let m ← appendFreelist (PUT (PUT m₂ (HDRP y) (PACK (g + (size + f)) false true))
        (y + (g + (size + f)) - DSIZE) (PACK (g + (size + f)) false true)) tableBase y (g + (size + f))
      return (y, SET_PREVALLOC m (HDRP (NEXT_BLKP m y)) false)) := by
  have hnext : NEXT_BLKP m x = x + size := by rw [NEXT_BLKP, hf.header, GET_SIZE_PACK htag]
  have hnextAlloc : GET_ALLOC (m (HDRP (x + size))) = false := by rw [hfheader, GET_ALLOC_PACK hftag]
  have hxy := hbefore.next
  have hpos := hbefore.pos
  have hgmin := hbefore.minimum
  have hyx : HDRP x ≠ HDRP y := by
    simp only [HDRP, WSIZE]
    omega
  have hyf : HDRP (x + size) ≠ HDRP y := by
    simp only [HDRP, WSIZE]
    omega
  have hyp : x - DSIZE ≠ HDRP y := by
    simp only [HDRP, WSIZE, DSIZE]
    omega
  have hnew : g + f + size = g + (size + f) := by omega
  have hnextBlkp : ∀ w, NEXT_BLKP (PUT m₂ (HDRP y) w) x = x + size := by
    intro w
    rw [NEXT_BLKP, PUT_of_ne hyx, hheader, GET_SIZE_PACK htag]
  have hfooterAt : ∀ w, FTRP (PUT m₂ (HDRP y) w) (x + size) = y + (g + (size + f)) - DSIZE := by
    intro w
    rw [FTRP, PUT_of_ne hyf, hfheader₂, GET_SIZE_PACK hftag]
    omega
  have hprevBlkp : ∀ w, PREV_BLKP (PUT m₂ (HDRP y) w) x = y := fun w =>
    PREV_BLKP_of_footer hbefore.tag hxy (by rw [PUT_of_ne hyp, hbefore₂.footer])
  have hprevBlkp' : ∀ w w',
      PREV_BLKP (PUT (PUT m₂ (HDRP y) w) (y + (g + (size + f)) - DSIZE) w') x = y := fun w w' =>
    PREV_BLKP_of_footer hbefore.tag hxy
      (by rw [PUT_of_ne (by simp only [DSIZE]; omega), PUT_of_ne hyp, hbefore₂.footer])
  rw [coalesce]
  simp only [hnext, hnextAlloc, hbefore.prevBlkp]
  rw [hf.header, GET_PREVALLOC_PACK htag, GET_SIZE_PACK htag, if_neg (by simp), if_neg (by simp),
    if_neg (by simp), hbefore.header, GET_SIZE_PACK hbefore.tag, hfheader, GET_SIZE_PACK hftag]
  simp only [hm₁, hbefore₁.prevBlkp, hm₂, hbefore₂.prevBlkp, hbefore₂.header, GET_PREVALLOC_PACK hbefore.tag, hnextBlkp,
    hfooterAt, hprevBlkp, hprevBlkp', PUT_self, hnew, GET_PREVALLOC_PACK hsum]

/-! ### The four cases of `coalesce` -/

section
variable {x : Nat} (hx : x = firstBlock tableBase + total l)
include hx

theorem coalesce_alone (h : Hole m tableBase l size r) (hf : Fresh m x size true) (hl : lastAlloc true l = true)
    (hr : headAlloc r = true) :
    ∃ m', coalesce m tableBase x = .ret (x, m') ∧ WellFormed m' tableBase (l ++ ⟨size, false⟩ :: r) ∧
      ∀ a, Kept tableBase l size r a → m' a = m a := by
  have htag := h.tagSize
  have hnext : NEXT_BLKP m x = x + size := by rw [NEXT_BLKP, hf.header, GET_SIZE_PACK htag]
  have hnextAlloc := h.next_alloc
  rw [← hx, hr] at hnextAlloc
  obtain ⟨m', hfinish, hwell, hkept⟩ := h.finish hr hl hx hf.header hf.footer hf.next hf.prev
  refine ⟨m', ?_, hwell, hkept⟩
  rw [coalesce]
  simp only [hnext, hnextAlloc]
  rw [hf.header, GET_PREVALLOC_PACK htag, GET_SIZE_PACK htag, if_pos ⟨rfl, trivial⟩]
  exact hfinish

theorem coalesce_right {f : Block} (h : Hole m tableBase l size (f :: r)) (hf : Fresh m x size true)
    (hl : lastAlloc true l = true) (hfree : f.alloc = false) :
    ∃ m', coalesce m tableBase x = .ret (x, m') ∧ WellFormed m' tableBase (l ++ ⟨size + f.size, false⟩ :: r) ∧
      ∀ a, Kept tableBase l size (f :: r) a → m' a = m a := by
  have htag := h.tagSize
  have hnext : NEXT_BLKP m x = x + size := by rw [NEXT_BLKP, hf.header, GET_SIZE_PACK htag]
  have hnextAlloc := h.next_alloc
  rw [← hx] at hnextAlloc
  obtain ⟨prevAlloc, htags, -⟩ := h.right
  have hfsize : GET_SIZE (m (HDRP (x + size))) = f.size := by
    rw [hx, htags.1, GET_SIZE_PACK (TagSize.of_mem h.arena (by simp))]
  have hhead := headAlloc_of_tags (hfree ▸ htags.2.2)
  have hself : (x, (⟨size, true⟩ : Block)) ∈ placed (firstBlock tableBase) (l ++ ⟨size, true⟩ :: f :: r) := by
    rw [hx]
    exact placed_mid
  have hmin := h.arena.sizes.right.head.2
  dsimp only at hmin
  have hafter : x + size = firstBlock tableBase + total l + size := by rw [hx]
  obtain ⟨habsorb, hframe⟩ := h.absorbRight hfree hafter
  have hpayload : ∀ a, x ≤ a → a < HDRP (x + size) → removeFreelist m (x + size) a = m a := fun a hle hlt =>
    hframe a (Or.inr ⟨x, _, hself, Or.inr (Or.inr (Or.inr (Or.inl ⟨rfl, hle, hlt⟩)))⟩)
  obtain ⟨hhole, hfresh⟩ := habsorb.writeTags hx
    ((hpayload x (Nat.le_refl _) (by simp only [HDRP, WSIZE]; omega)).trans hf.next)
    ((hpayload _ (by omega) (by simp only [HDRP, WSIZE, DSIZE]; omega)).trans hf.prev) true
  obtain ⟨m', hfinish, hwell, hkept⟩ :=
    hhole.finish hhead hl hx hfresh.header hfresh.footer hfresh.next hfresh.prev
  refine ⟨m', ?_, hwell, fun a ha => ?_⟩
  · rw [coalesce]
    simp only [hnext, hnextAlloc, headAlloc, hfree]
    rw [hf.header, GET_PREVALLOC_PACK htag, GET_SIZE_PACK htag, if_neg (by simp), if_pos (by simp), hfsize,
      Nat.add_comm f.size, FTRP, PUT_self, GET_SIZE_PACK habsorb.tagSize]
    exact hfinish
  · have hin := ha.absorbRight hfree
    rw [hkept a hin, hin.writeTags habsorb.toBeside hx, hframe a (ha.unlinked rfl)]

theorem coalesce_left {l' : List Block} {f : Block} (hl : l = l' ++ [f]) (h : Hole m tableBase (l' ++ [f]) size r)
    (hf : Fresh m x size false) (hfree : f.alloc = false) (hr : headAlloc r = true) :
    ∃ m', coalesce m tableBase x = .ret (firstBlock tableBase + total l', m') ∧
      WellFormed m' tableBase (l' ++ ⟨f.size + size, false⟩ :: r) ∧
      ∀ a, Kept tableBase (l' ++ [f]) size r a → m' a = m a := by
  subst hl
  have htag := h.tagSize
  have hnext : NEXT_BLKP m x = x + size := by rw [NEXT_BLKP, hf.header, GET_SIZE_PACK htag]
  have hnextAlloc := h.next_alloc
  rw [← hx, hr] at hnextAlloc
  obtain ⟨hlast, hbefore⟩ := h.freeBefore hx hfree
  obtain ⟨habsorb, hzero, hframe⟩ := h.absorbLeft hfree rfl
  have hbefore' := hbefore.of_unlinked hframe
  have hmid : (x, (⟨size, true⟩ : Block)) ∈ placed (firstBlock tableBase) (l' ++ [f] ++ ⟨size, true⟩ :: r) := by
    rw [hx]
    exact placed_mid
  have hheader := (hframe _ (Or.inr ⟨x, _, hmid, Or.inl rfl⟩)).trans hf.header
  generalize hy : firstBlock tableBase + total l' = y at *
  have hxy := hbefore.next
  have hpos := hbefore.pos
  have hfmin := hbefore.minimum
  have hmin := h.arena.sizes.right.head.2
  dsimp only at hmin
  have hprev : ∀ w, PREV_BLKP (PUT (removeFreelist m y) (x + size - DSIZE) w) x = y := fun w =>
    PREV_BLKP_of_footer hbefore.tag hxy (by rw [PUT_of_ne (by simp only [DSIZE]; omega), hbefore'.footer])
  have hyheader : ∀ w, PUT (removeFreelist m y) (x + size - DSIZE) w (HDRP y) = PACK f.size false true := by
    intro w
    rw [PUT_of_ne (by simp only [HDRP, WSIZE, DSIZE]; omega), hbefore'.header]
  obtain ⟨hhole, hfresh⟩ := habsorb.writeTags hy.symm hzero.1 hzero.2 true
  obtain ⟨m', hfinish, hwell, hkept⟩ :=
    hhole.finish hr hlast hy.symm hfresh.header hfresh.footer hfresh.next hfresh.prev
  refine ⟨m', ?_, hwell, fun a ha => ?_⟩
  · rw [coalesce]
    simp only [hnext, hnextAlloc, hbefore.prevBlkp]
    rw [hf.header, GET_PREVALLOC_PACK htag, GET_SIZE_PACK htag, if_neg (by simp), if_neg (by simp),
      if_pos (by simp), hbefore.header, GET_SIZE_PACK hbefore.tag, FTRP, hheader, GET_SIZE_PACK htag]
    simp only [hbefore'.prevBlkp, hbefore'.header, GET_PREVALLOC_PACK hbefore.tag, hprev, hyheader]
    rw [PUT_comm (by simp only [HDRP, WSIZE, DSIZE]; omega), PREV_BLKP, PUT_of_ne (by simp only [DSIZE]; omega),
      PUT_of_ne (by simp only [HDRP, WSIZE, DSIZE]; omega), hbefore'.footer, GET_SIZE_PACK hbefore.tag]
    have hback : x - f.size = y := by omega
    have hend : x + size - DSIZE = y + (f.size + size) - DSIZE := by omega
    rw [hback, hend]
    exact hfinish
  · have hin := ha.absorbLeft hfree
    rw [hkept a hin, hin.writeTags habsorb.toBeside hy.symm, hframe a (ha.unlinked rfl)]

theorem coalesce_both {l' : List Block} {f g : Block} (hl : l = l' ++ [g])
    (h : Hole m tableBase (l' ++ [g]) size (f :: r)) (hf : Fresh m x size false) (hgfree : g.alloc = false)
    (hfree : f.alloc = false) :
    ∃ m', coalesce m tableBase x = .ret (firstBlock tableBase + total l', m') ∧
      WellFormed m' tableBase (l' ++ ⟨g.size + size + f.size, false⟩ :: r) ∧
      ∀ a, Kept tableBase (l' ++ [g]) size (f :: r) a → m' a = m a := by
  subst hl
  obtain ⟨hlast, hbefore⟩ := h.freeBefore hx hgfree
  obtain ⟨prevAlloc, hftags, -⟩ := h.right
  rw [← hx] at hftags
  have hfheader := hftags.1
  have hhead := headAlloc_of_tags (hfree ▸ hftags.2.2)
  have hfmin : 24 ≤ f.size := h.arena.sizes.minimum f (by simp)
  have hmin := h.arena.sizes.right.head.2
  dsimp only at hmin
  have hafter : x + size = firstBlock tableBase + total (l' ++ [g]) + size := by rw [hx]
  obtain ⟨habsorb, hframe⟩ := h.absorbRight hfree hafter
  obtain ⟨habsorb', hzero, hframe'⟩ := habsorb.absorbLeft hgfree rfl
  have hbefore₁ := hbefore.of_unlinked hframe
  have hbefore₂ := hbefore₁.of_unlinked hframe'
  -- the headers that are read after the removals
  have hmid : ∀ {b : Block} {r : List Block}, (x, b) ∈ placed (firstBlock tableBase) (l' ++ [g] ++ b :: r) := by
    intro b r
    rw [hx]
    exact placed_mid
  have hheader := (hframe' _ (Or.inr ⟨x, _, hmid, Or.inl rfl⟩)).trans
    ((hframe _ (Or.inr ⟨x, _, hmid, Or.inl rfl⟩)).trans hf.header)
  have hinside : x ≤ HDRP (x + size) ∧ HDRP (x + size) < HDRP (x + (size + f.size)) := by
    simp only [HDRP, WSIZE]
    omega
  have hfheader₂ := (hframe' _ (Or.inr ⟨x, _, hmid,
    Or.inr (Or.inr (Or.inr (Or.inl ⟨rfl, hinside.1, hinside.2⟩)))⟩)).trans ((hframe _ (Or.inr ⟨x, _, hmid, Or.inr (Or.inr (Or.inl rfl))⟩)).trans hfheader)
  rw [hfree] at hfheader hfheader₂
  obtain ⟨hhole, hfresh⟩ := habsorb'.writeTags rfl hzero.1 hzero.2 true
  obtain ⟨m', hfinish, hwell, hkept⟩ :=
    hhole.finish hhead hlast rfl hfresh.header hfresh.footer hfresh.next hfresh.prev
  have hsum : g.size + (size + f.size) = g.size + size + f.size := by omega
  refine ⟨m', ?_, hsum ▸ hwell, fun a ha => ?_⟩
  · rw [coalesce_both_eq h.tagSize hf hmin rfl rfl hbefore hbefore₁ hbefore₂ hheader
      (TagSize.of_mem h.arena (by simp)) hfheader hfheader₂ hfmin habsorb'.tagSize]
    exact hfinish
  · have hin := ha.absorbRight hfree
    have hin' := hin.absorbLeft hgfree
    rw [hkept a hin', hin'.writeTags habsorb'.toBeside rfl, hframe' a (hin.unlinked rfl), hframe a (ha.unlinked rfl)]

end

/-! ### The calls -/

theorem coalesce_spec {x : Nat} (hx : x = firstBlock tableBase + total l) (h : Hole m tableBase l size r)
    (hf : Fresh m x size (lastAlloc true l)) :
    ∃ m', coalesce m tableBase x = .ret (firstBlock tableBase + total (trimEnd l), m') ∧
      WellFormed m' tableBase (coalesced l size r) ∧ ∀ a, Kept tableBase l size r a → m' a = m a := by
  unfold coalesced trimEnd sizeEnd trimHead sizeHead
  cases hl : lastAlloc true l with
  | true =>
      rw [hl] at hf
      cases hr : headAlloc r with
      | true => simpa [hx] using coalesce_alone hx h hf hl hr
      | false =>
          obtain ⟨f, r', rfl, hfree⟩ := headAlloc_false hr
          simpa [hx] using coalesce_right hx h hf hl hfree
  | false =>
      rw [hl] at hf
      obtain ⟨l', g, rfl, hgfree⟩ := lastAlloc_false hl
      cases hr : headAlloc r with
      | true => simpa using coalesce_left hx rfl h hf hgfree hr
      | false =>
          obtain ⟨f, r', rfl, hfree⟩ := headAlloc_false hr
          simpa using coalesce_both hx rfl h hf hgfree hfree

/-- A block in use of a well-formed heap may be worked on. -/
theorem WellFormed.hole (h : WellFormed m tableBase (l ++ ⟨size, true⟩ :: r)) :
    Hole m tableBase l size r ∧
      m (HDRP (firstBlock tableBase + total l)) = PACK size true (lastAlloc true l) := by
  obtain ⟨hleft, hheader, -, hright⟩ := Tags.append.mp h.tags
  have hepilogue := h.epilogue
  rw [total_append, total_cons, ← Nat.add_assoc, ← Nat.add_assoc, lastAlloc_append] at hepilogue
  exact ⟨⟨⟨h.arena, h.prologueHeader, h.prologueFooter, hleft, true, hright, hepilogue⟩, h.lists⟩, hheader⟩

theorem placed_split {bs : List Block} {base p : Nat} {b : Block} (h : (p, b) ∈ placed base bs) :
    ∃ l r, bs = l ++ b :: r ∧ p = base + total l := by
  induction bs generalizing base with
  | nil => simp at h
  | cons c bs ih =>
      rw [placed_cons, List.mem_cons] at h
      rcases h with he | h
      · obtain ⟨rfl, rfl⟩ := Prod.mk.inj he
        exact ⟨[], bs, rfl, rfl⟩
      · obtain ⟨l, r, rfl, rfl⟩ := ih h
        exact ⟨c :: l, r, rfl, by rw [total_cons, Nat.add_assoc]⟩

theorem total_trimEnd (l : List Block) : total l = total (trimEnd l) + sizeEnd l := by
  unfold trimEnd sizeEnd
  cases hl : lastAlloc true l with
  | true => simp
  | false =>
      obtain ⟨l', g, rfl, -⟩ := lastAlloc_false hl
      simp

/-- Blocks in use stay where they are when a block beside them is merged. -/
theorem live_coalesced {q : Nat} {c : Block} (hc : (q, c) ∈ placed (firstBlock tableBase) l ∨
    (q, c) ∈ placed (firstBlock tableBase + total l + size) r) (halloc : c.alloc = true) :
    Live tableBase (coalesced l size r) q c := by
  refine ⟨?_, halloc⟩
  have hend := total_trimEnd l
  unfold coalesced
  rw [placed_append, placed_cons, List.mem_append, List.mem_cons]
  rcases hc with hc | hc
  · left
    unfold trimEnd
    cases hl : lastAlloc true l with
    | true => exact hc
    | false =>
        obtain ⟨l', g, rfl, hfree⟩ := lastAlloc_false hl
        rw [placed_append, List.mem_append, placed_cons, placed_nil, List.mem_singleton] at hc
        rcases hc with hc | he
        · simpa using hc
        · rw [(Prod.mk.inj he).2, hfree] at halloc
          cases halloc
  · refine Or.inr (Or.inr ?_)
    have hstart : firstBlock tableBase + total (trimEnd l) + (sizeEnd l + size + sizeHead r) =
        firstBlock tableBase + total l + size + sizeHead r := by omega
    show (q, c) ∈ placed (firstBlock tableBase + total (trimEnd l) + (sizeEnd l + size + sizeHead r)) (trimHead r)
    rw [hstart]
    unfold trimHead sizeHead
    cases hr : headAlloc r with
    | true => exact hc
    | false =>
        obtain ⟨f, r', rfl, hfree⟩ := headAlloc_false hr
        rw [placed_cons, List.mem_cons] at hc
        rcases hc with he | hc
        · rw [(Prod.mk.inj he).2, hfree] at halloc
          cases halloc
        · exact hc

/-- Tags and links are different words: it does not matter which are written first. -/
theorem clearLinks_comm (m : Memory) (w : Word) {x size : Nat} (hpos : 8 ≤ x) (hmin : 24 ≤ size) :
    PUT_PREV_FREEBLKP (PUT_NEXT_FREEBLKP (PUT (PUT m (HDRP x) w) (x + size - DSIZE) w) x 0) x 0 =
      PUT (PUT (PUT_PREV_FREEBLKP (PUT_NEXT_FREEBLKP m x 0) x 0) (HDRP x) w) (x + size - DSIZE) w := by
  unfold PUT_PREV_FREEBLKP PUT_NEXT_FREEBLKP PUT_PTR
  rw [PUT_comm (a := x + size - DSIZE) (b := x) (by simp only [DSIZE]; omega),
    PUT_comm (a := HDRP x) (b := x) (by simp only [HDRP, WSIZE]; omega),
    PUT_comm (a := x + size - DSIZE) (b := x + DSIZE) (by simp only [DSIZE]; omega),
    PUT_comm (a := HDRP x) (b := x + DSIZE) (by simp only [HDRP, WSIZE, DSIZE]; omega)]

/-- The block under work is in no list once its links are cleared. -/
theorem Hole.clearLinks (h : Hole m tableBase l size r) {x : Nat} (hx : x = firstBlock tableBase + total l) :
    Hole (PUT_PREV_FREEBLKP (PUT_NEXT_FREEBLKP m x 0) x 0) tableBase l size r ∧
      PUT_PREV_FREEBLKP (PUT_NEXT_FREEBLKP m x 0) x 0 x = 0#32 ∧
      PUT_PREV_FREEBLKP (PUT_NEXT_FREEBLKP m x 0) x 0 (x + DSIZE) = 0#32 := by
  have hmin := h.arena.sizes.right.head.2
  dsimp only at hmin
  unfold PUT_PREV_FREEBLKP PUT_NEXT_FREEBLKP
  refine ⟨(h.put ?_ ?_).put ?_ ?_, ?_, PUT_self _ _ _⟩
  · rw [← hx]
    simp only [HDRP, WSIZE]
    omega
  · rw [← hx]
    simp only [HDRP, WSIZE]
    omega
  · rw [← hx]
    simp only [HDRP, WSIZE, DSIZE]
    omega
  · rw [← hx]
    simp only [HDRP, WSIZE, DSIZE]
    omega
  · rw [PUT_PTR_of_ne (by simp [DSIZE])]
    exact PUT_self _ _ _

/-- Freeing a block in use. -/
theorem mmFree_hole (h : WellFormed m tableBase (l ++ ⟨size, true⟩ :: r)) :
    ∃ m', mmFree m tableBase (firstBlock tableBase + total l) = .ret m' ∧
      WellFormed m' tableBase (coalesced l size r) ∧ ∀ a, Kept tableBase l size r a → m' a = m a := by
  obtain ⟨hhole, hheader⟩ := h.hole
  set x := firstBlock tableBase + total l with hx
  have htag := hhole.tagSize
  have hmin := hhole.arena.sizes.right.head.2
  have hpos : 8 ≤ x := by
    rw [hx]
    simp only [firstBlock, DSIZE]
    omega
  dsimp only at hmin
  -- the links are cleared first: writing them and writing the tags commute
  obtain ⟨hcleared, hzero, hzero'⟩ := hhole.clearLinks hx
  obtain ⟨htagged, hfresh⟩ := hcleared.writeTags hx hzero hzero' (lastAlloc true l)
  obtain ⟨m', hcoalesce, hwell, hkept⟩ := coalesce_spec hx htagged hfresh
  refine ⟨m', ?_, hwell, fun a ha => ?_⟩
  · have hfooterAt : FTRP (PUT m (HDRP x) (PACK size false (lastAlloc true l))) x = x + size - DSIZE := by
      rw [FTRP, PUT_self, GET_SIZE_PACK htag]
    have hcomm := clearLinks_comm m (PACK size false (lastAlloc true l)) hpos hmin
    rw [mmFree, hheader, GET_ALLOC_PACK htag, if_neg (by simp)]
    simp only [GET_SIZE_PACK htag, GET_PREVALLOC_PACK htag, hfooterAt, hcomm, hcoalesce, Outcome.ret_bind]
    rfl
  · have hout := ha.outside hhole.toBeside
    rw [← hx] at hout
    rw [hkept a ha, ha.writeTags hhole.toBeside hx]
    unfold PUT_PREV_FREEBLKP PUT_NEXT_FREEBLKP
    simp only [HDRP, WSIZE] at hout
    rw [PUT_PTR_of_ne (by simp only [DSIZE]; omega), PUT_PTR_of_ne (by omega)]

/-- Freeing the block of any live payload keeps the heap well formed, merges the block with its free neighbours and
leaves every other block in use as it was. -/
theorem mmFree_wellFormed {bs : List Block} {p : Nat} {b : Block} (h : WellFormed m tableBase bs)
    (hp : Live tableBase bs p b) :
    ∃ l r m', bs = l ++ b :: r ∧ p = firstBlock tableBase + total l ∧ mmFree m tableBase p = .ret m' ∧
      WellFormed m' tableBase (coalesced l b.size r) ∧
      ∀ q c, Live tableBase bs q c → q ≠ p →
        Live tableBase (coalesced l b.size r) q c ∧ SamePayload m m' q c := by
  obtain ⟨hplaced, halloc⟩ := hp
  obtain ⟨l, r, rfl, rfl⟩ := placed_split hplaced
  obtain ⟨size, alloc⟩ := b
  obtain rfl : alloc = true := halloc
  obtain ⟨m', hfree, hwell, hkept⟩ := mmFree_hole h
  refine ⟨l, r, m', rfl, rfl, hfree, hwell, fun q c hc hne => ?_⟩
  have hbeside := (mem_placed_iff.mp hc.1).elim Or.inl fun hc => Or.inr (hc.resolve_left fun he => hne he.1)
  exact ⟨live_coalesced hbeside hc.2, fun a hle hlt => hkept a ⟨q, c, hbeside, hc.2, hle, hlt⟩⟩

end

/-- A heap of three blocks in use, its table at address 16. -/
def threeBlocks : Memory := fun a =>
  if a = 180 ∨ a = 184 then PACK DSIZE true true
  else if a = 188 ∨ a = 212 ∨ a = 236 then PACK 24 true true
  else if a = 260 then PACK 0 true true
  else 0#32

theorem wellFormed_threeBlocks : WellFormed threeBlocks 16 [⟨24, true⟩, ⟨24, true⟩, ⟨24, true⟩] where
  arena := ⟨by decide, by decide, ⟨by simp, by simp [MININUM_BLK_SIZE]⟩, by decide⟩
  prologueHeader := rfl
  prologueFooter := rfl
  tags := ⟨rfl, fun h => absurd h (by decide), rfl, fun h => absurd h (by decide), rfl,
    fun h => absurd h (by decide), trivial⟩
  epilogue := rfl
  lists := by
    refine ⟨fun _ => [], ⟨fun i hi => ?_, fun _ _ => trivial, fun _ _ _ hp => ?_, fun _ _ _ _ _ hp => ?_⟩,
      fun i hi p => ?_⟩
    · have hcell : threeBlocks (cell 16 i) = 0#32 := by
        have hlt : cell 16 i < 180 := by
          simp only [MAX_GROUP, cell, DSIZE] at *
          omega
        unfold threeBlocks
        rw [if_neg (by omega), if_neg (by omega), if_neg (by omega)]
      show link (threeBlocks (cell 16 i)).toNat = none
      rw [hcell]
      rfl
    · cases hp
    · cases hp
    · simp only [List.not_mem_nil, false_iff]
      rintro ⟨b, hb, halloc, -⟩
      simp only [placed, List.mem_cons, Prod.mk.injEq, List.not_mem_nil, or_false] at hb
      obtain ⟨-, rfl⟩ | ⟨-, rfl⟩ | ⟨-, rfl⟩ := hb <;> cases halloc

/-- The first and the last block have been freed: freeing the one between them merges all three. -/
theorem mmFree_between :
    ∃ m₁ m₂, mmFree threeBlocks 16 192 = .ret m₁ ∧ mmFree m₁ 16 240 = .ret m₂ ∧
      ∃ l r m', [⟨24, false⟩, ⟨24, true⟩, ⟨24, false⟩] = l ++ (⟨24, true⟩ : Block) :: r ∧
        216 = firstBlock 16 + total l ∧ mmFree m₂ 16 216 = .ret m' ∧ WellFormed m' 16 (coalesced l 24 r) ∧
        ∀ q c, Live 16 [⟨24, false⟩, ⟨24, true⟩, ⟨24, false⟩] q c → q ≠ 216 →
          Live 16 (coalesced l 24 r) q c ∧ SamePayload m₂ m' q c := by
  obtain ⟨m₁, hfirst, h₁, -⟩ := mmFree_hole (l := []) wellFormed_threeBlocks
  obtain ⟨m₂, hlast, h₂, -⟩ := mmFree_hole (l := [⟨24, false⟩, ⟨24, true⟩]) (r := []) h₁
  exact ⟨m₁, m₂, hfirst, hlast, mmFree_wellFormed h₂ ⟨by decide, rfl⟩⟩

end Malloc

end SysuOs
