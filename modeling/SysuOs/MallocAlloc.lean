import Mathlib
import SysuOs.MallocPlace

/-! `mm_malloc` on a well-formed heap: the search, the growth of the heap, and when the result is well formed
again. -/

namespace SysuOs

namespace Malloc

/-- User programs lie below the top of their stack. -/
def STACK_TOP : Nat := 0xbfff0000

namespace Heap

/-- A heap that has been set up: well formed up to the break, with the break among the granted pages. -/
structure Ready (s : Heap) (bs : List Block) : Prop where
  wellFormed : WellFormed s.mem s.tableBase bs
  started : s.brkBase ≠ 0
  brk : s.memBrk = firstBlock s.tableBase + total bs
  maxBrk : s.memBrk ≤ s.memMaxBrk
  granted : s.granted = s.memMaxBrk
  inside : s.memMaxBrk ≤ s.heapEnd
  user : s.heapEnd ≤ STACK_TOP

/-! ### The search -/

theorem findLoop_some {m : Memory} {size fuel ptr p : Nat} {l : List Nat} (hw : Walk (next m) (link ptr) l)
    (h : findLoop m size fuel ptr = .ret (some p)) : p ∈ l ∧ size ≤ GET_SIZE (m (HDRP p)) := by
  induction fuel generalizing ptr l with
  | zero => cases h
  | succ fuel ih =>
      unfold findLoop at h
      by_cases hptr : ptr = 0
      · rw [if_pos hptr] at h
        cases h
      rw [if_neg hptr] at h
      cases l with
      | nil =>
          rw [link_of_ne hptr] at hw
          cases hw
      | cons a l =>
          obtain ⟨hhead, htail⟩ := hw
          rw [link_of_ne hptr] at hhead
          obtain rfl := Option.some.inj hhead
          by_cases hfit : GET_SIZE (m (HDRP ptr)) ≥ size
          · rw [if_pos hfit] at h
            obtain rfl := Option.some.inj (Outcome.ret.inj h)
            exact ⟨List.mem_cons_self, hfit⟩
          · rw [if_neg hfit] at h
            obtain ⟨hmem, hsize⟩ := ih htail h
            exact ⟨List.mem_cons_of_mem _ hmem, hsize⟩

theorem findGroups_some {m : Memory} {tableBase size fuel left idx p : Nat} {nodes : Set Nat} {G : Nat → List Nat}
    (hlists : Lists m tableBase nodes G) (hidx : idx + left = MAX_GROUP)
    (h : findGroups fuel m tableBase size left idx = .ret (some p)) :
    (∃ i < MAX_GROUP, p ∈ G i) ∧ size ≤ GET_SIZE (m (HDRP p)) := by
  induction left generalizing idx with
  | zero => cases h
  | succ left ih =>
      unfold findGroups at h
      obtain ⟨found, hloop, h⟩ := Outcome.bind_eq_ret h
      have hi : idx < MAX_GROUP := by omega
      cases found with
      | none => exact ih (by omega) h
      | some q =>
          obtain rfl := Option.some.inj (Outcome.ret.inj h)
          obtain ⟨hmem, hsize⟩ := findLoop_some (hlists.walk idx hi) hloop
          exact ⟨⟨idx, hi, hmem⟩, hsize⟩

/-- What the search finds is a free block that is large enough. -/
theorem find_some {m : Memory} {tableBase size fuel p : Nat} {bs : List Block} (hw : WellFormed m tableBase bs)
    (h : find fuel m tableBase size = .ret (some p)) :
    ∃ l f r, bs = l ++ f :: r ∧ p = firstBlock tableBase + total l ∧ f.alloc = false ∧ size ≤ f.size := by
  obtain ⟨G, hlists, hexact⟩ := hw.lists
  have hgroup := group_lt size
  obtain ⟨⟨i, hi, hmem⟩, hsize⟩ := findGroups_some hlists (Nat.add_sub_cancel' (Nat.le_of_lt hgroup)) h
  obtain ⟨f, hf, hfree, -⟩ := (hexact i hi p).mp hmem
  obtain ⟨l, r, rfl, rfl⟩ := placed_split hf
  rw [(Tags.append.mp hw.tags).2.1, GET_SIZE_PACK (TagSize.of_mem hw.arena (by simp))] at hsize
  exact ⟨l, f, r, rfl, rfl, hfree, hsize⟩

/-! ### Growth -/

theorem alignPage_spec (n : Nat) : n ≤ alignPage n ∧ alignPage n / PAGE_SIZE * PAGE_SIZE = alignPage n := by
  simp only [alignPage, PAGE_SIZE]
  omega

/-- A call of `mem_sbrk` that returns moves the break within the granted pages, and no memory changes. -/
theorem memSbrk_some {s s' : Heap} {bs : List Block} {incr bp : Nat} (h : s.Ready bs)
    (hsbrk : s.memSbrk incr = (some bp, s')) :
    bp = s.memBrk ∧ s'.mem = s.mem ∧ s'.tableBase = s.tableBase ∧ s'.brkBase = s.brkBase ∧
      s'.memBrk = s.memBrk + incr ∧ s'.memBrk ≤ s'.memMaxBrk ∧ s'.granted = s'.memMaxBrk ∧
      s'.memMaxBrk ≤ s'.heapEnd ∧ s'.heapEnd = s.heapEnd := by
  have hne : s.memBrk ≠ 0 := by
    rw [h.brk]
    simp only [firstBlock, DSIZE]
    omega
  have hfirst : s.sbrkFirst incr = some s := by rw [sbrkFirst, if_neg hne]
  have hmax := h.maxBrk
  have hgranted := h.granted
  have hinside := h.inside
  unfold memSbrk at hsbrk
  rw [hfirst] at hsbrk
  dsimp only at hsbrk
  by_cases hover : s.memBrk + incr > s.memMaxBrk
  · rw [if_pos hover, sysExpandHeap] at hsbrk
    obtain ⟨hle, halign⟩ := alignPage_spec (s.memBrk + incr - s.memMaxBrk)
    rw [halign] at hsbrk
    by_cases hfits : s.granted + alignPage (s.memBrk + incr - s.memMaxBrk) ≤ s.heapEnd
    · rw [if_pos hfits] at hsbrk
      dsimp only at hsbrk
      rw [if_neg (by omega)] at hsbrk
      obtain ⟨hbp, rfl⟩ := Prod.mk.inj hsbrk
      refine ⟨(Option.some.inj hbp).symm, rfl, rfl, rfl, rfl, ?_, ?_, ?_, rfl⟩ <;> dsimp only <;> omega
    · rw [if_neg hfits] at hsbrk
      cases hsbrk
  · rw [if_neg hover] at hsbrk
    obtain ⟨hbp, rfl⟩ := Prod.mk.inj hsbrk
    exact ⟨(Option.some.inj hbp).symm, rfl, rfl, rfl, rfl, by dsimp only; omega, hgranted, hinside, rfl⟩

end Heap

section
variable {m : Memory} {tableBase size : Nat} {bs : List Block}

theorem total_coalesced (l r : List Block) : total (coalesced l size r) = total l + size + total r := by
  have hend := total_trimEnd l
  have hhead : total r = sizeHead r + total (trimHead r) := by
    unfold trimHead sizeHead
    cases hr : headAlloc r with
    | true => simp
    | false =>
        obtain ⟨f, r', rfl, -⟩ := headAlloc_false hr
        simp
  unfold coalesced
  rw [total_append, total_cons]
  dsimp only
  omega

/-- The words above a well-formed heap become a block under work; only the new epilogue is written. -/
theorem WellFormed.extend (h : WellFormed m tableBase bs) (hsize : size % 8 = 0 ∧ 24 ≤ size)
    (hfits : firstBlock tableBase + total bs + size < 2 ^ 32) :
    Hole (PUT m (HDRP (firstBlock tableBase + total bs + size)) (PACK 0 true false)) tableBase bs size [] := by
  have hkeep : ∀ a, a ≠ HDRP (firstBlock tableBase + total bs + size) →
      PUT m (HDRP (firstBlock tableBase + total bs + size)) (PACK 0 true false) a = m a := fun a ha => PUT_of_ne ha
  have harena : Arena tableBase (bs ++ [⟨size, true⟩]) := by
    refine ⟨h.arena.table, h.arena.aligned, h.arena.sizes.append (Sizes.cons hsize ⟨by simp, by simp⟩), ?_⟩
    simp only [total_append, total_cons, total_nil]
    omega
  have hlisted : Listed m tableBase (bs ++ [⟨size, true⟩]) := by
    refine h.lists.congr_free fun q c hfree => ?_
    rw [placed_append, placed_cons, placed_nil, List.mem_append, List.mem_singleton]
    refine ⟨fun hc => hc.resolve_right fun he => ?_, Or.inl⟩
    obtain ⟨-, rfl⟩ := Prod.mk.inj he
    cases hfree
  refine ⟨⟨harena, ?_, ?_, h.tags.congr fun a ha => hkeep a ?_, false, trivial, PUT_self _ _ _⟩, ?_⟩
  · rw [hkeep _ (by simp only [firstBlock, HDRP, WSIZE, DSIZE]; omega), h.prologueHeader]
  · rw [hkeep _ (by simp only [firstBlock, HDRP, WSIZE, DSIZE]; omega), h.prologueFooter]
  · obtain ⟨q, b, hb, ha⟩ := ha
    have hbounds := placed_bounds h.arena.sizes hb
    simp only [HDRP, WSIZE, DSIZE] at *
    omega
  · obtain ⟨G, hlists, hexact⟩ := hlisted
    refine ⟨G, hlists.congr fun a ha => hkeep a ?_, hexact⟩
    rintro rfl
    refine hexact.not_linkWord harena (Or.inl (Or.inr (Or.inr ?_))) ha
    simp [Nat.add_assoc]

/-- The memory that `expand_heap` hands to `coalesce`: the tags of the new block, its links and the new
epilogue. -/
def expanded (m : Memory) (x size : Nat) (prevAlloc : Bool) : Memory :=
  PUT (PUT_PREV_FREEBLKP (PUT_NEXT_FREEBLKP (PUT (PUT m (HDRP x) (PACK size false prevAlloc)) (x + size - DSIZE)
    (PACK size false prevAlloc)) x 0) x 0) (HDRP (x + size)) (PACK 0 true false)

theorem WellFormed.expanded (h : WellFormed m tableBase bs) {x : Nat} (hx : x = firstBlock tableBase + total bs)
    (hsize : size % 8 = 0 ∧ 24 ≤ size) (hfits : x + size < 2 ^ 32) :
    Hole (Malloc.expanded m x size (lastAlloc true bs)) tableBase bs size [] ∧
      Fresh (Malloc.expanded m x size (lastAlloc true bs)) x size (lastAlloc true bs) ∧
      ∀ a, Kept tableBase bs size [] a → Malloc.expanded m x size (lastAlloc true bs) a = m a := by
  have hpos : 8 ≤ x := by
    rw [hx]
    simp only [firstBlock, DSIZE]
    omega
  have hhole := h.extend hsize (hx ▸ hfits)
  rw [← hx] at hhole
  obtain ⟨hcleared, hzero, hzero'⟩ := hhole.clearLinks hx
  obtain ⟨htagged, hfresh⟩ := hcleared.writeTags hx hzero hzero' (lastAlloc true bs)
  -- the epilogue is written last
  have hmemory : Malloc.expanded m x size (lastAlloc true bs) =
      PUT (PUT (PUT_PREV_FREEBLKP (PUT_NEXT_FREEBLKP (PUT m (HDRP (x + size)) (PACK 0 true false)) x 0) x 0) (HDRP x)
        (PACK size false (lastAlloc true bs))) (x + size - DSIZE) (PACK size false (lastAlloc true bs)) := by
    have hmin := hsize.2
    unfold Malloc.expanded
    rw [← clearLinks_comm _ _ hpos hsize.2]
    unfold PUT_PREV_FREEBLKP PUT_NEXT_FREEBLKP PUT_PTR
    rw [PUT_comm (a := x + DSIZE) (by simp only [HDRP, WSIZE, DSIZE]; omega),
      PUT_comm (a := x) (by simp only [HDRP, WSIZE]; omega),
      PUT_comm (a := x + size - DSIZE) (by simp only [HDRP, WSIZE, DSIZE]; omega),
      PUT_comm (a := HDRP x) (by simp only [HDRP, WSIZE]; omega)]
  rw [hmemory]
  refine ⟨htagged, hfresh, ?_⟩
  intro a hkeep
  have hout := hkeep.outside hhole.toBeside
  rw [hkeep.writeTags hhole.toBeside hx, PUT_PREV_FREEBLKP, PUT_NEXT_FREEBLKP]
  obtain ⟨q, c, hc, -, hle, hlt⟩ := hkeep
  have hbounds := placed_bounds h.arena.sizes (hc.resolve_right (by simp))
  simp only [HDRP, WSIZE, DSIZE] at *
  rw [PUT_PTR_of_ne (by omega), PUT_PTR_of_ne (by omega), PUT_of_ne (by omega)]

end

namespace Heap

/-- Once `mem_sbrk` has found room, `expand_heap` leaves a heap that is ready again, with a free block at its
end. -/
theorem expandHeap_spec {s s₁ : Heap} {bs : List Block} {incr x : Nat} (h : s.Ready bs) (hincr : 24 ≤ ALIGN incr)
    (hsbrk : s.memSbrk (ALIGN incr) = (some x, s₁)) :
    ∃ bp s', s.expandHeap incr = .ret (some bp, s') ∧ s'.Ready (coalesced bs (ALIGN incr) []) ∧
      s'.tableBase = s.tableBase ∧ ∀ q c, Live s.tableBase bs q c →
        Live s.tableBase (coalesced bs (ALIGN incr) []) q c ∧ SamePayload s.mem s'.mem q c := by
  obtain ⟨hx, hmem, htable, hbase, hbrk, hmax, hgranted, hinside, hend⟩ := memSbrk_some h hsbrk
  have hxbrk : x = firstBlock s.tableBase + total bs := hx.trans h.brk
  have huser := h.user
  have halign : ALIGN incr % 8 = 0 := by
    simp only [ALIGN]
    omega
  have hfits : x + ALIGN incr < 2 ^ 32 := by
    simp only [STACK_TOP] at huser
    omega
  have htag : TagSize (ALIGN incr) := ⟨halign, by omega⟩
  have hpos : 8 ≤ x := by
    rw [hxbrk]
    simp only [firstBlock, DSIZE]
    omega
  have hheader : s.mem (HDRP x) = PACK 0 true (lastAlloc true bs) := by
    rw [hxbrk]
    exact h.wellFormed.epilogue
  obtain ⟨hhole, hfresh, hsame⟩ := h.wellFormed.expanded hxbrk ⟨halign, hincr⟩ hfits
  obtain ⟨m', hcoalesce, hwell, hkept⟩ := coalesce_spec hxbrk hhole hfresh
  have hfooterAt : ∀ w, FTRP (PUT s.mem (HDRP x) (PACK (ALIGN incr) false w)) x = x + ALIGN incr - DSIZE := by
    intro w
    rw [FTRP, PUT_self, GET_SIZE_PACK htag]
  have hnextAt : ∀ w, NEXT_BLKP (PUT_PREV_FREEBLKP (PUT_NEXT_FREEBLKP (PUT (PUT s.mem (HDRP x)
      (PACK (ALIGN incr) false w)) (x + ALIGN incr - DSIZE) (PACK (ALIGN incr) false w)) x 0) x 0) x =
      x + ALIGN incr := by
    intro w
    rw [NEXT_BLKP, PUT_PREV_FREEBLKP, PUT_PTR_of_ne (by simp only [HDRP, WSIZE, DSIZE]; omega),
      PUT_NEXT_FREEBLKP, PUT_PTR_of_ne (by simp only [HDRP, WSIZE]; omega),
      PUT_of_ne (by simp only [HDRP, WSIZE, DSIZE]; omega), PUT_self, GET_SIZE_PACK htag]
  unfold Malloc.expanded at hcoalesce
  unfold expandHeap
  rw [hsbrk]
  dsimp only
  simp only [hmem, htable, hheader, GET_PREVALLOC_PACK (⟨rfl, by decide⟩ : TagSize 0), hfooterAt, hnextAt,
    hcoalesce, Outcome.ret_bind, Outcome.pure_eq]
  refine ⟨_, _, rfl, ⟨hwell, ?_, ?_, hmax, hgranted, hinside, hend.trans_le huser⟩, rfl, fun q c hc => ⟨?_, ?_⟩⟩
  · show s₁.brkBase ≠ 0
    rw [hbase]
    exact h.started
  · show s₁.memBrk = firstBlock s.tableBase + total (coalesced bs (ALIGN incr) [])
    rw [total_coalesced, hbrk, h.brk, total_nil]
    omega
  · exact live_coalesced (Or.inl hc.1) hc.2
  · intro a hle hlt
    have hkeep : Kept s.tableBase bs (ALIGN incr) [] a := ⟨q, c, Or.inl hc.1, hc.2, hle, hlt⟩
    show m' a = s.mem a
    rw [hkept a hkeep, hsame a hkeep]

theorem expandHeap_some {s s' : Heap} {bs : List Block} {incr bp : Nat} (h : s.Ready bs) (hincr : 24 ≤ ALIGN incr)
    (hret : s.expandHeap incr = .ret (some bp, s')) :
    s'.Ready (coalesced bs (ALIGN incr) []) ∧ s'.tableBase = s.tableBase ∧
      ∀ q c, Live s.tableBase bs q c →
        Live s.tableBase (coalesced bs (ALIGN incr) []) q c ∧ SamePayload s.mem s'.mem q c := by
  cases hsbrk : s.memSbrk (ALIGN incr) with
  | mk res s₁ =>
      cases res with
      | none =>
          rw [expandHeap, hsbrk] at hret
          cases Outcome.ret.inj hret
      | some x =>
          obtain ⟨bp', s'', hret', hspec⟩ := expandHeap_spec h hincr hsbrk
          rw [hret] at hret'
          obtain ⟨-, rfl⟩ := Prod.mk.inj (Outcome.ret.inj hret')
          exact hspec

/-! ### Allocation -/

/-- `mm_malloc` has given out the payload `p`: the heap is well formed again, the block has room for `size` bytes
between its tags, and every block that was in use before is as it was and apart from it. -/
def Allocated (s s' : Heap) (bs : List Block) (size p : Nat) : Prop :=
  ∃ bs' b, WellFormed s'.mem s'.tableBase bs' ∧ Live s'.tableBase bs' p b ∧ size + 2 * WSIZE ≤ b.size ∧
    ∀ q c, Live s.tableBase bs q c → Live s'.tableBase bs' q c ∧ SamePayload s.mem s'.mem q c ∧
      (q + c.size ≤ p ∨ p + b.size ≤ q)

/-- In the free block that the search comes to, after the heap has grown where none is large enough, zeros are
where the links of the rest would be, if a rest is split off. -/
def FreshRest : Nat → Heap → Nat → Prop
  | 0, _, _ => True
  | fuel + 1, s, size =>
      match find fuel s.mem s.tableBase (newSize size) with
      | .ret (some ptr) => RestFresh s.mem ptr (newSize size)
      | .ret none =>
          match s.expandHeap (max (newSize size) MAX_INCR) with
          | .ret (some _, s) => FreshRest fuel s size
          | _ => True
      | _ => True

theorem newSize_spec {size : Nat} (hsize : 1 ≤ size) :
    (newSize size % 8 = 0 ∧ 24 ≤ newSize size) ∧ size + 2 * WSIZE ≤ newSize size := by
  simp only [newSize, ALIGN, DSIZE, WSIZE]
  omega

/-- The step of `mm_malloc` that has found a block. -/
theorem place_allocated {s : Heap} {bs : List Block} {fuel size p : Nat} (h : s.Ready bs) (hsize : 1 ≤ size)
    (hfind : find fuel s.mem s.tableBase (newSize size) = .ret (some p)) :
    ∃ m', place s.mem s.tableBase p (newSize size) = .ret m' ∧
      (RestFresh s.mem p (newSize size) → Allocated s { s with mem := m' } bs size p) ∧
      (¬RestFresh s.mem p (newSize size) → ∀ bs', ¬WellFormed m' s.tableBase bs') := by
  obtain ⟨hnew, hroom⟩ := newSize_spec hsize
  obtain ⟨l, f, r, rfl, rfl, hfree, hfit⟩ := find_some h.wellFormed hfind
  obtain ⟨m', hplace, hfresh, hstale⟩ := place_spec h.wellFormed hfree rfl hfit hnew
  refine ⟨m', hplace, fun hrest => ?_, hstale⟩
  · obtain ⟨used, rest, hused, htotal, hwell, hkept⟩ := hfresh hrest
    refine ⟨_, ⟨used, true⟩, hwell, ⟨placed_mid, rfl⟩, Nat.le_trans hroom hused, fun q c hc => ?_⟩
    obtain ⟨hq, halloc⟩ := hc
    -- a block in use lies beside the free one, and so beside what is made of it
    have hbeside := (mem_placed_iff.mp hq).imp_right fun hq => hq.resolve_left fun he => by
      rw [he.2, hfree] at halloc
      cases halloc
    have hplaced : (q, c) ∈ placed (firstBlock s.tableBase) (l ++ ⟨used, true⟩ :: (rest ++ r)) := by
      rcases hbeside with hq | hq
      · exact placed_left hq
      · refine placed_right ?_
        rw [placed_append]
        refine List.mem_append_right _ ?_
        show (q, c) ∈ placed (firstBlock s.tableBase + total l + used + total rest) r
        rwa [Nat.add_assoc, htotal]
    refine ⟨⟨hplaced, halloc⟩, fun a hle hlt => hkept a ⟨q, c, hbeside, halloc, hle, hlt⟩, ?_⟩
    rcases hbeside with hq | hq
    · exact Or.inl (placed_bounds h.wellFormed.arena.sizes.left hq).2.1
    · have hbounds := placed_bounds h.wellFormed.arena.sizes.right.tail hq
      right
      show firstBlock s.tableBase + total l + used ≤ q
      omega

theorem allocateLoop_spec {s s' : Heap} {bs : List Block} {fuel size p : Nat} (h : s.Ready bs) (hsize : 1 ≤ size)
    (hret : allocateLoop fuel s size = .ret (some p, s')) :
    (FreshRest fuel s size → Allocated s s' bs size p) ∧
      (¬FreshRest fuel s size → ∀ bs', ¬WellFormed s'.mem s'.tableBase bs') := by
  induction fuel generalizing s bs with
  | zero => cases hret
  | succ fuel ih =>
      unfold allocateLoop at hret
      unfold FreshRest
      obtain ⟨found, hfind, hret⟩ := Outcome.bind_eq_ret hret
      rw [hfind]
      cases found with
      | some ptr =>
          obtain ⟨m', hplace, hspec⟩ := place_allocated h hsize hfind
          obtain ⟨m, hplace', hret⟩ := Outcome.bind_eq_ret hret
          obtain rfl := Outcome.ret.inj (hplace.symm.trans hplace')
          obtain ⟨hptr, rfl⟩ := Prod.mk.inj (Outcome.ret.inj hret)
          obtain rfl := Option.some.inj hptr
          exact hspec
      | none =>
          obtain ⟨⟨res, s₁⟩, hexpand, hret⟩ := Outcome.bind_eq_ret hret
          cases res with
          | none => cases Outcome.ret.inj hret
          | some bp =>
              have halign : 24 ≤ ALIGN (max (newSize size) MAX_INCR) := by
                have hle := Nat.le_max_right (newSize size) MAX_INCR
                simp only [ALIGN, MAX_INCR] at *
                omega
              obtain ⟨hready, htable, hlive⟩ := expandHeap_some h halign hexpand
              dsimp only
              rw [hexpand]
              obtain ⟨hfresh, hstale⟩ := ih hready hret
              refine ⟨fun hrest => ?_, hstale⟩
              -- the growth of the heap has left the blocks in use alone
              obtain ⟨bs', b, hwell, hp, hb, hkeep⟩ := hfresh hrest
              refine ⟨bs', b, hwell, hp, hb, fun q c hc => ?_⟩
              obtain ⟨hc', hsame⟩ := hlive q c hc
              rw [← htable] at hc'
              obtain ⟨hc'', hsame', hapart⟩ := hkeep q c hc'
              exact ⟨hc'', fun a hle hlt => (hsame' a hle hlt).trans (hsame a hle hlt), hapart⟩

/-- When `mm_malloc` returns a block, the heap is well formed again exactly if the rest of the block it was taken
from has zeros where its links go. -/
theorem mmMalloc_iff {s s' : Heap} {bs : List Block} {fuel size p : Nat} (h : s.Ready bs)
    (hsize : 1 ≤ size ∧ size ≤ 2 ^ 30) (hret : s.mmMalloc fuel size = .ret (some p, s')) :
    Allocated s s' bs size p ↔ FreshRest fuel s size := by
  unfold mmMalloc at hret
  rw [if_neg h.started] at hret
  dsimp only at hret
  rw [if_neg (by omega)] at hret
  obtain ⟨hfresh, hstale⟩ := allocateLoop_spec h hsize.1 hret
  refine ⟨fun hallocated => ?_, hfresh⟩
  obtain ⟨bs', -, hwell, -⟩ := hallocated
  by_contra hn
  exact hstale hn bs' hwell

/-- A heap of one free block of 64 bytes at 192, its table at address 16; `w` is the word at offset 24 of the
payload. -/
def oneFree (w : Word) : Heap where
  mem := fun a =>
    if a = 32 then 192#32
    else if a = 180 ∨ a = 184 then PACK DSIZE true true
    else if a = 188 ∨ a = 248 then PACK 64 false true
    else if a = 200 then 32#32
    else if a = 216 then w
    else if a = 252 then PACK 0 true false
    else 0#32
  memBrk := 256
  memMaxBrk := 4096
  brkBase := 184
  tableBase := 16
  granted := 4096
  heapEnd := 8192

theorem ready_oneFree (w : Word) : (oneFree w).Ready [⟨64, false⟩] := by
  have hgroup : group 64 = 2 := rfl
  have hcell : ∀ i < MAX_GROUP, next (oneFree w).mem (cell 16 i) = if i = 2 then some 192 else none := by
    intro i hi
    by_cases h2 : i = 2
    · subst h2
      rfl
    · have hzero : (oneFree w).mem (cell 16 i) = 0#32 := by
        have hlt : cell 16 i < 180 := by
          simp only [MAX_GROUP, cell, DSIZE] at *
          omega
        have hne : cell 16 i ≠ 32 := by
          simp only [cell, DSIZE]
          omega
        unfold oneFree
        dsimp only
        rw [if_neg hne, if_neg (by omega), if_neg (by omega), if_neg (by omega), if_neg (by omega),
          if_neg (by omega)]
      rw [if_neg h2]
      show link ((oneFree w).mem (cell 16 i)).toNat = none
      rw [hzero]
      rfl
  have harena : Arena 16 [⟨64, false⟩] :=
    ⟨by decide, by decide, ⟨by simp, by simp [MININUM_BLK_SIZE]⟩, by decide⟩
  refine ⟨⟨harena, rfl, rfl, ⟨rfl, fun _ => ⟨rfl, rfl⟩, trivial⟩, rfl, fun i => if i = 2 then [192] else [],
    ⟨fun i hi => ?_, fun i hi => ?_, fun i hi p hp => ?_, fun i hi j hj p hp hp' => ?_⟩, fun i hi p => ?_⟩,
    (by decide : 184 ≠ 0), rfl, (by decide : 256 ≤ 4096), rfl, (by decide : 4096 ≤ 8192),
    (by decide : 8192 ≤ STACK_TOP)⟩
  · show Walk _ (next (oneFree w).mem (cell 16 i)) _
    rw [hcell i hi]
    by_cases h2 : i = 2
    · rw [if_pos h2, if_pos h2]
      exact ⟨rfl, rfl⟩
    · rw [if_neg h2, if_neg h2]
      rfl
  · by_cases h2 : i = 2
    · rw [if_pos h2, h2]
      exact ⟨rfl, trivial⟩
    · rw [if_neg h2]
      trivial
  · by_cases h2 : i = 2
    · rw [if_pos h2, List.mem_singleton] at hp
      exact ⟨⟨64, false⟩, by rw [hp]; exact List.mem_cons_self⟩
    · rw [if_neg h2] at hp
      cases hp
  · by_cases h2 : i = 2
    · by_cases h2' : j = 2
      · rw [h2, h2']
      · rw [if_neg h2'] at hp'
        cases hp'
    · rw [if_neg h2] at hp
      cases hp
  · have hfirst : firstBlock (oneFree w).tableBase = 192 := rfl
    rw [hfirst, placed_cons, placed_nil]
    simp only [List.mem_singleton, Prod.mk.injEq]
    constructor
    · intro hp
      by_cases h2 : i = 2
      · rw [if_pos h2, List.mem_singleton] at hp
        exact ⟨_, ⟨hp, rfl⟩, rfl, h2.symm ▸ hgroup⟩
      · rw [if_neg h2] at hp
        cases hp
    · rintro ⟨b, ⟨rfl, rfl⟩, -, hi2⟩
      rw [if_pos (hi2.symm.trans hgroup)]
      exact List.mem_cons_self

theorem find_oneFree (w : Word) : find 2 (oneFree w).mem 16 24 = .ret (some 192) := by
  have hgroup : group 24 = 0 := rfl
  have h0 : GET_PTR (oneFree w).mem (16 + 0 * DSIZE) = 0 := rfl
  have h1 : GET_PTR (oneFree w).mem (16 + (0 + 1) * DSIZE) = 0 := rfl
  have h2 : GET_PTR (oneFree w).mem (16 + (0 + 1 + 1) * DSIZE) = 192 := rfl
  have hsize : GET_SIZE ((oneFree w).mem (HDRP 192)) = 64 := GET_SIZE_PACK ⟨rfl, by decide⟩ _ _
  rw [find, hgroup]
  show findGroups 2 (oneFree w).mem 16 24 20 0 = _
  rw [findGroups, h0, findLoop, if_pos rfl, Outcome.ret_bind]
  dsimp only
  rw [findGroups, h1, findLoop, if_pos rfl, Outcome.ret_bind]
  dsimp only
  rw [findGroups, h2, findLoop, if_neg (by decide), hsize, if_pos (by decide), Outcome.ret_bind]
  rfl

theorem mmMalloc_oneFree (w : Word) : ∃ s', (oneFree w).mmMalloc 3 8 = .ret (some 192, s') := by
  obtain ⟨m', hplace, -⟩ := place_allocated (ready_oneFree w) (by decide : 1 ≤ 8) (find_oneFree w)
  refine ⟨{ oneFree w with mem := m' }, ?_⟩
  show allocateLoop 3 (oneFree w) 8 = _
  have hfind : find 2 (oneFree w).mem (oneFree w).tableBase (newSize 8) = .ret (some 192) := find_oneFree w
  rw [allocateLoop, hfind, Outcome.ret_bind]
  dsimp only
  rw [hplace]
  rfl

theorem mmMalloc_iff_oneFree : ∃ s', (oneFree 0#32).mmMalloc 3 8 = .ret (some 192, s') ∧
    (Allocated (oneFree 0#32) s' [⟨64, false⟩] 8 192 ↔ FreshRest 3 (oneFree 0#32) 8) := by
  obtain ⟨s', hret⟩ := mmMalloc_oneFree 0#32
  exact ⟨s', hret, mmMalloc_iff (ready_oneFree _) (by decide) hret⟩

/-- A word that the user has left in a block is taken for a link once the block is free. -/
theorem not_allocated_oneFree :
    ¬∀ (s s' : Heap) (bs : List Block) (fuel size p : Nat), s.Ready bs → 1 ≤ size ∧ size ≤ 2 ^ 30 →
      s.mmMalloc fuel size = .ret (some p, s') → Allocated s s' bs size p := by
  intro hallocates
  obtain ⟨s', hret⟩ := mmMalloc_oneFree 1#32
  have hallocated := hallocates _ _ _ _ _ _ (ready_oneFree 1#32) (by decide) hret
  obtain ⟨-, hstale⟩ := allocateLoop_spec (ready_oneFree 1#32) (by decide) hret
  obtain ⟨bs', -, hwell, -⟩ := hallocated
  refine hstale (fun hfresh => ?_) bs' hwell
  have hfind : find 2 (oneFree 1#32).mem (oneFree 1#32).tableBase (newSize 8) = .ret (some 192) := find_oneFree _
  unfold FreshRest at hfresh
  rw [hfind] at hfresh
  have hzero : (oneFree 1#32).mem 216 = 0#32 := (hfresh (by decide)).1
  exact absurd hzero (by decide)

end Heap

end Malloc

end SysuOs
