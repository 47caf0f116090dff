import SysuOs.BuddyRun

/-! The pool of free nodes. A call of `insert_freeNode` takes a node of the pool, and neither
`allocateBlock` nor `releaseBlock` looks at what it returns. Every linked node stands for a block of its
own, so that there are never more of them than pages, and each call finds one. -/

namespace SysuOs.Buddy

open Dyadic

/-! ### The calls of `insert_freeNode` -/

/-- A call of `insert_freeNode`. -/
structure InsertCall where
  buddy : Buddy
  startIndex : Nat
  order : Nat

/-- The block of an order at `s` is linked. -/
def HasBlock (b : Buddy) (o s : Nat) : Prop := ∃ i, b.Listed o i ∧ b.startOf i = s

/-- The call does not return `-1`, and what is linked afterwards is its block and what was linked before. -/
structure InsertCall.Lands (c : InsertCall) : Prop where
  result : (c.buddy.insertFreeNode c.startIndex c.order).1 = 0
  blocks : ∀ o s, (c.buddy.insertFreeNode c.startIndex c.order).2.HasBlock o s ↔
    (o = c.order ∧ s = c.startIndex) ∨ c.buddy.HasBlock o s

/-- The calls in `allocateBlock`: those of its recursion and then its own. -/
def allocateBlockInserts : Nat → Buddy → Nat → List InsertCall
  | 0, _, _ => []
  | fuel + 1, b, order =>
      if order > MAX_ORDER then []
      else match b.freeArea order with
        | some _ => []
        | none =>
            match allocateBlockLoop fuel b (order + 1) with
            | (none, _) => allocateBlockInserts fuel b (order + 1)
            | (some idx, b') =>
                allocateBlockInserts fuel b (order + 1) ++ [⟨b', idx + pow2 order, order⟩]

/-- The calls in `allocate`. -/
def allocateInserts (b : Buddy) (count : Int) : List InsertCall :=
  allocateBlockInserts (MAX_ORDER + 2) b (count2order count)

/-- The call in `releaseBlock`, behind its merge loop. -/
def releaseBlockInsert (b : Buddy) (startIndex order : Nat) : InsertCall :=
  let (b, startIndex, order) := mergeLoop (MAX_ORDER + 1) b startIndex order
  ⟨b, startIndex, min order MAX_ORDER⟩

/-- The call in `release`. -/
def releaseInsert (b : Buddy) (index : Nat) (count : Int) : InsertCall :=
  b.releaseBlockInsert index (count2order count)

/-- The calls in the loop of `initialize`, one for each block it releases. -/
def initLoopInserts : Nat → Buddy → Nat → List InsertCall
  | 0, _, _ => []
  | fuel + 1, b, idx =>
      if idx < b.totalPages then
        if getMap b.bitmap idx then initLoopInserts fuel b (idx + 1)
        else
          let order := b.probeOrder idx
          b.releaseBlockInsert idx order :: initLoopInserts fuel (b.releaseBlock idx order) (idx + pow2 order)
      else []

/-- The calls in `initialize`. -/
def initInserts (b : Buddy) (bitmap : ByteMap) (totalPages : Nat) (freeBitMap : ByteMap)
    (freeNodes : Nat → FreeNode) : List InsertCall :=
  initLoopInserts totalPages { b with bitmap, totalPages, freeBitmap := freeBitMap, freeNodes } 0

/-! ### Every call finds a node -/

theorem hasBlock_iff {b : Buddy} {F : Nat → List Nat} (h : FreeAt b F) (o s : Nat) :
    b.HasBlock o s ↔ s ∈ F o := by
  obtain ⟨L, hL, hF⟩ := h
  rw [hF, List.mem_map]
  constructor
  · rintro ⟨i, hi, hs⟩
    exact ⟨i, hL.listed_iff.mp hi, hs⟩
  · rintro ⟨i, hi, hs⟩
    exact ⟨i, hL.listed_iff.mpr hi, hs⟩

theorem lands {b : Buddy} {F : Nat → List Nat} (h : FreeAt b F) (s : Nat) {o : Nat} (ho : o ≤ MAX_ORDER)
    (hroom : blockCount F < b.totalPages) : InsertCall.Lands ⟨b, s, o⟩ := by
  obtain ⟨hres, -, -, hfree⟩ := insertFreeNode_spec (s := s) h ho hroom
  refine ⟨hres, fun o' s' => ?_⟩
  rw [hasBlock_iff hfree, hasBlock_iff h]
  by_cases heq : o' = o
  · rw [heq, Function.update_self, List.mem_cons]
    exact ⟨fun hin => hin.imp_left fun hs => ⟨rfl, hs⟩, fun hin => hin.imp_left And.right⟩
  · rw [Function.update_of_ne heq]
    exact ⟨Or.inr, fun hin => hin.resolve_left fun hnew => heq hnew.1⟩

/-- A block on its way into the lists has a page for its node. -/
theorem blockCount_lt {b : Buddy} {F : Nat → List Nat} {o : Nat} (hcount : pageCount F + 2 ^ o ≤ b.totalPages) :
    blockCount F < b.totalPages := by
  have hblocks := blockCount_le_pageCount F
  have hpos : 0 < 2 ^ o := Nat.two_pow_pos o
  omega

theorem allocateBlockInserts_land (fuel o : Nat) {b : Buddy} {F : Nat → List Nat} {N : Nat}
    (hfree : FreeAt b F) (hblocks : Blocks F N) (hroom : pageCount F ≤ b.totalPages)
    (hfuel : MAX_ORDER < fuel + o) : ∀ c ∈ allocateBlockInserts fuel b o, c.Lands := by
  induction fuel generalizing o with
  | zero => exact fun c hc => absurd hc List.not_mem_nil
  | succ fuel ih =>
      rw [allocateBlockInserts]
      by_cases hbig : o > MAX_ORDER
      · rw [if_pos hbig]
        exact fun c hc => absurd hc List.not_mem_nil
      rw [if_neg hbig]
      cases b.freeArea o with
      | some i => exact fun c hc => absurd hc List.not_mem_nil
      | none =>
          have hrec := ih (o + 1) (by omega)
          rcases allocateBlockLoop_spec fuel (o + 1) hfree hblocks hroom (by omega) with
            ⟨hnone, -⟩ | ⟨s, b₁, F₁, hsome, -, -, htp, hpend, -, hcount⟩
          · rw [hnone]
            exact hrec
          · rw [hsome]
            intro c hc
            rcases List.mem_append.mp hc with hc | hc
            · exact hrec c hc
            · rw [List.mem_singleton.mp hc]
              have hfits : pageCount F₁ + 2 ^ (o + 1) ≤ b₁.totalPages := by
                rw [htp, hcount]
                exact hroom
              exact lands hpend.free _ (Nat.le_of_not_lt hbig) (blockCount_lt hfits)

theorem releaseBlockInsert_lands {b : Buddy} {F : Nat → List Nat} {N s o : Nat} (h : Pending b F N s o)
    (ho : o ≤ MAX_ORDER) (hroom : pageCount F + 2 ^ o ≤ b.totalPages) : (b.releaseBlockInsert s o).Lands := by
  obtain ⟨b', F', s', o', hrun, -, htp, hpend, hsame, -⟩ :=
    mergeLoop_spec (MAX_ORDER + 1) h (by omega) (by omega)
  rw [releaseBlockInsert, hrun]
  have hfits : pageCount F' + 2 ^ o' ≤ b'.totalPages := by
    rw [htp, hsame.count]
    exact hroom
  exact lands hpend.free _ (Nat.min_le_right _ _) (blockCount_lt hfits)

theorem initLoopInserts_land (fuel : Nat) {b : Buddy} {F : Nat → List Nat} {idx : Nat} (h : Scan b F idx) :
    ∀ c ∈ initLoopInserts fuel b idx, c.Lands := by
  induction fuel generalizing b F idx with
  | zero => exact fun c hc => absurd hc List.not_mem_nil
  | succ fuel ih =>
      rw [initLoopInserts]
      by_cases hlt : idx < b.totalPages
      · rw [if_pos hlt]
        by_cases hused : getMap b.bitmap idx = true
        · rw [if_pos hused]
          exact ih (h.skip hlt hused)
        · rw [if_neg hused]
          have hclear : getMap b.bitmap idx = false := by simpa using hused
          obtain ⟨hpend, hend⟩ := h.pending hlt hclear
          obtain ⟨F', hscan, -, -⟩ := h.release hlt hclear
          obtain ⟨-, hmax, -, -⟩ := probeOrder_spec hlt hclear
          intro c hc
          rcases List.mem_cons.mp hc with rfl | hc
          · refine releaseBlockInsert_lands hpend hmax ?_
            exact (Nat.add_le_add_right h.count _).trans hend
          · rw [pow2_eq] at hc
            exact ih hscan c hc
      · rw [if_neg hlt]
        exact fun c hc => absurd hc List.not_mem_nil

/-! ### Runs -/

/-- The runs of `allocate`, of any number of pages, and of `release` of what is allocated. -/
inductive MatchedRun (b₀ : Buddy) : Buddy → List (Nat × Int) → Prop
  | start : MatchedRun b₀ b₀ []
  | allocate {b b' : Buddy} {live : List (Nat × Int)} {count : Int} {index : Nat}
      (hrun : MatchedRun b₀ b live) (hres : b.allocate count = (some index, b')) :
      MatchedRun b₀ b' ((index, count) :: live)
  | refuse {b b' : Buddy} {live : List (Nat × Int)} {count : Int}
      (hrun : MatchedRun b₀ b live) (hres : b.allocate count = (none, b')) : MatchedRun b₀ b' live
  | release {b : Buddy} {live : List (Nat × Int)} {index : Nat} {count : Int}
      (hrun : MatchedRun b₀ b live) (hlive : (index, count) ∈ live) :
      MatchedRun b₀ (b.release index count) (live.erase (index, count))

/-- What is managed of a chunk of 2048 pages is never the whole of it, whatever pages the bitmap shows as
taken. -/
theorem managed_gap {bitmap : ByteMap} {N t : Nat} (ht : 2 ^ (MAX_ORDER + 1) ∣ t) :
    ∃ p, Covers t (MAX_ORDER + 1) p ∧ ¬(p < N ∧ getMap bitmap p = false ∧ ¬Lost bitmap N p) := by
  by_contra hall
  have hmanaged : ∀ p, Covers t (MAX_ORDER + 1) p → p < N ∧ getMap bitmap p = false ∧ ¬Lost bitmap N p :=
    fun p hp => by_contra fun hnot => hall ⟨p, hp, hnot⟩
  obtain ⟨q, rfl⟩ := ht
  have hmid : Covers (2 ^ (MAX_ORDER + 1) * q) (MAX_ORDER + 1) (2 ^ (MAX_ORDER + 1) * q + 2 ^ MAX_ORDER) :=
    covers_halves.mpr (Or.inr (covers_start _ _))
  refine (hmanaged _ hmid).2.2 ⟨fun p hp => ?_, ?_⟩
  · have hcov : Covers (2 ^ (MAX_ORDER + 1) * q) (MAX_ORDER + 1) p := by
      simp only [MAX_ORDER, Covers] at hp ⊢
      omega
    exact ⟨(hmanaged p hcov).1, (hmanaged p hcov).2.1⟩
  · simp only [MAX_ORDER]
    omega

/-- What `initialize` leaves, whatever pages are taken. -/
theorem shares_init {b : Buddy} {N : Nat} {freeBitMap : ByteMap} (h : Unused b freeBitMap N)
    (bitmap : ByteMap) (freeNodes : Nat → FreeNode) :
    ∃ M total F, Shares M total N (b.init bitmap N freeBitMap freeNodes) F [] := by
  obtain ⟨F, hfree, hblocks, hcount, -, htp, hpage⟩ := init_spec h bitmap freeNodes
  have hnone : ∀ p, ¬Live [] p := by
    rintro p ⟨a, ha, -⟩
    exact List.not_mem_nil ha
  refine ⟨FreePage F, pageCount F, F,
    { totalPages := htp
      free := hfree
      blocks := hblocks
      gap := fun t ht => ?_
      total_le := hcount
      count := rfl
      managed := fun p => or_iff_left (hnone p)
      disjoint := fun p _ => hnone p
      apart := List.Pairwise.nil
      order := fun a ha => absurd ha List.not_mem_nil
      aligned := fun a ha => absurd ha List.not_mem_nil
      bound := fun a ha => absurd ha List.not_mem_nil }⟩
  obtain ⟨p, hp, hnot⟩ := managed_gap ht
  exact ⟨p, hp, fun hfp => hnot ((hpage p).mp hfp)⟩

theorem MatchedRun.shares {b₀ b : Buddy} {live : List (Nat × Int)} {M : Nat → Prop} {total N : Nat}
    {F₀ : Nat → List Nat} (h : MatchedRun b₀ b live) (h₀ : Shares M total N b₀ F₀ []) :
    ∃ F, Shares M total N b F live := by
  induction h with
  | start => exact ⟨F₀, h₀⟩
  | @allocate _ _ _ count _ _ hres ih =>
      obtain ⟨F, hshares⟩ := ih
      rcases hshares.allocate count with hnone | ⟨index, b', F', hsome, hshares', -⟩
      · rw [hnone] at hres
        cases hres
      · rw [hsome] at hres
        cases hres
        exact ⟨F', hshares'⟩
  | @refuse _ _ _ count _ hres ih =>
      obtain ⟨F, hshares⟩ := ih
      rcases hshares.allocate count with hnone | ⟨index, b', F', hsome, -, -⟩
      · rw [hnone] at hres
        cases hres
        exact ⟨F, hshares⟩
      · rw [hsome] at hres
        cases hres
  | release hrun hlive ih =>
      obtain ⟨F, hshares⟩ := ih
      obtain ⟨F', hshares', -⟩ := (hshares.perm (List.perm_cons_erase hlive)).release
      exact ⟨F', hshares'⟩

/-- The number of linked nodes is that of the blocks. -/
theorem length_lists {b : Buddy} {F L : Nat → List Nat} (hF : ∀ o, F o = (L o).map b.startOf) :
    blockCount L = blockCount F := by
  refine Finset.sum_congr rfl fun o _ => ?_
  rw [hF, List.length_map]

theorem Shares.freePages {M : Nat → Prop} {total N : Nat} {b : Buddy} {F : Nat → List Nat}
    {live : List (Nat × Int)} (h : Shares M total N b F live) : b.freePages + liveCount live = total := by
  rw [Buddy.freePages, dump_eq h.free]
  exact h.count

/-- The pool of free nodes never runs dry: along every run the marked nodes are the linked ones, at most
as many as pages, the lists are well formed, and every call of `insert_freeNode` links its block. -/
theorem pool_never_dry {b b' : Buddy} {N : Nat} {bitmap freeBitMap : ByteMap} {freeNodes : Nat → FreeNode}
    {live : List (Nat × Int)} (h : Unused b freeBitMap N)
    (hrun : MatchedRun (b.init bitmap N freeBitMap freeNodes) b' live) :
    (∃ L, FreeLists b' L ∧ blockCount L ≤ b'.totalPages) ∧
      (∀ c ∈ b.initInserts bitmap N freeBitMap freeNodes, c.Lands) ∧
      (∀ count, ∀ c ∈ b'.allocateInserts count, c.Lands) ∧
      (∀ a ∈ live, (b'.releaseInsert a.1 a.2).Lands) ∧
      b'.freePages + liveCount live = (b.init bitmap N freeBitMap freeNodes).freePages := by
  obtain ⟨M, total, F₀, h₀⟩ := shares_init h bitmap freeNodes
  obtain ⟨F, hshares⟩ := hrun.shares h₀
  have hcount : pageCount F + liveCount live ≤ b'.totalPages := by
    rw [hshares.count, hshares.totalPages]
    exact hshares.total_le
  have hroom : pageCount F ≤ b'.totalPages := (Nat.le_add_right _ _).trans hcount
  refine ⟨?_, initLoopInserts_land N (scan_start h bitmap freeNodes), fun count => ?_, fun a ha => ?_, ?_⟩
  · obtain ⟨L, hL, hF⟩ := hshares.free
    refine ⟨L, hL, ?_⟩
    rw [length_lists hF]
    exact (blockCount_le_pageCount F).trans hroom
  · exact allocateBlockInserts_land _ _ hshares.free hshares.blocks hroom (by omega)
  · obtain ⟨hpend, hmax, hfits⟩ := (hshares.perm (List.perm_cons_erase ha)).pending
    exact releaseBlockInsert_lands hpend hmax hfits
  · rw [hshares.freePages]
    exact h₀.freePages.symm

/-- A pool of three pages, of which one is allocated. -/
theorem pool_never_dry_three :
    let b₀ := freshPool.resources.init (fun _ => 0) 3 (fun _ => 0) fun _ => default
    (b₀.allocate 1).1 = some 2 ∧ ∀ count, ∀ c ∈ (b₀.allocate 1).2.allocateInserts count, c.Lands :=
  have hres : ((freshPool.resources.init (fun _ => 0) 3 (fun _ => 0) fun _ => default).allocate 1).1 =
      some 2 := by rfl
  ⟨hres, (pool_never_dry (unused_freshPool 3)
    (MatchedRun.allocate MatchedRun.start (Prod.ext hres rfl))).2.2.1⟩

end SysuOs.Buddy
