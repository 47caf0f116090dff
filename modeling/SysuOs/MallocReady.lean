import Mathlib
import SysuOs.MallocAlloc

/-! What each call leaves of a ready heap: the heap is ready again, the blocks in use are known exactly, and
those that the call is not about are as they were. -/

namespace SysuOs

namespace Malloc

section
variable {m : Memory} {tableBase size p q : Nat} {l r bs : List Block} {b c f : Block}

/-- The blocks in use after a merge are the blocks in use beside it. -/
theorem live_coalesced_iff : Live tableBase (coalesced l size r) q c ↔
    ((q, c) ∈ placed (firstBlock tableBase) l ∨ (q, c) ∈ placed (firstBlock tableBase + total l + size) r) ∧
      c.alloc = true := by
  refine ⟨fun ⟨hplaced, halloc⟩ => ⟨?_, halloc⟩, fun ⟨hc, halloc⟩ => live_coalesced hc halloc⟩
  have hend := total_trimEnd l
  unfold coalesced at hplaced
  rw [placed_append, placed_cons, List.mem_append, List.mem_cons] at hplaced
  rcases hplaced with hc | he | hc
  · left
    unfold trimEnd at hc
    cases hl : lastAlloc true l with
    | true =>
        rw [hl] at hc
        exact hc
    | false =>
        obtain ⟨l', g, rfl, -⟩ := lastAlloc_false hl
        rw [hl] at hc
        rw [placed_append]
        exact List.mem_append_left _ (by simpa using hc)
  · rw [(Prod.mk.inj he).2] at halloc
    cases halloc
  · right
    have hstart : firstBlock tableBase + total (trimEnd l) + (sizeEnd l + size + sizeHead r) =
        firstBlock tableBase + total l + size + sizeHead r := by omega
    dsimp only at hc
    rw [hstart] at hc
    unfold trimHead sizeHead at hc
    cases hr : headAlloc r with
    | true =>
        rw [hr] at hc
        exact hc
    | false =>
        obtain ⟨f, r', rfl, -⟩ := headAlloc_false hr
        rw [hr] at hc
        exact List.mem_cons_of_mem _ hc

theorem mem_of_placed (h : (q, c) ∈ placed p bs) : c ∈ bs := by
  induction bs generalizing p with
  | nil => simp at h
  | cons b bs ih =>
      rw [placed_cons, List.mem_cons] at h
      rcases h with he | h
      · rw [(Prod.mk.inj he).2]
        exact List.mem_cons_self
      · exact List.mem_cons_of_mem b (ih h)

/-- The blocks in use once `size` bytes between `l` and `r` have become a block in use and free ones. -/
theorem live_replace {rest : List Block} {used : Block} (hused : used.alloc = true)
    (hrest : ∀ g ∈ rest, g.alloc = false) (hsize : used.size + total rest = size) :
    Live tableBase (l ++ used :: (rest ++ r)) q c ↔
      ((q, c) ∈ placed (firstBlock tableBase) l ∨ (q, c) ∈ placed (firstBlock tableBase + total l + size) r) ∧
        c.alloc = true ∨ q = firstBlock tableBase + total l ∧ c = used := by
  have hstart : firstBlock tableBase + total l + used.size + total rest =
      firstBlock tableBase + total l + size := by omega
  rw [Live, mem_placed_iff, placed_append, List.mem_append, hstart]
  constructor
  · rintro ⟨hc | hc | hc | hc, halloc⟩
    · exact Or.inl ⟨Or.inl hc, halloc⟩
    · exact Or.inr hc
    · rw [hrest c (mem_of_placed hc)] at halloc
      cases halloc
    · exact Or.inl ⟨Or.inr hc, halloc⟩
  · rintro (⟨hc | hc, halloc⟩ | ⟨hq, rfl⟩)
    · exact ⟨Or.inl hc, halloc⟩
    · exact ⟨Or.inr (Or.inr (Or.inr hc)), halloc⟩
    · exact ⟨Or.inr (Or.inl ⟨hq, rfl⟩), hused⟩

/-- The program writes to the payload of a block that it has. -/
theorem WellFormed.written {m' : Memory} (h : WellFormed m tableBase bs) (hp : Live tableBase bs p b)
    (hout : ∀ a, ¬(p ≤ a ∧ a < HDRP (p + b.size)) → m' a = m a) : WellFormed m' tableBase bs := by
  obtain ⟨hplaced, halloc⟩ := hp
  have hsizes := h.arena.sizes
  have hbounds := placed_bounds hsizes hplaced
  have hpos : 2 * 8 ≤ p := by
    have hle := hbounds.1
    simp only [firstBlock, DSIZE] at hle
    omega
  simp only [HDRP, WSIZE] at hout
  refine ⟨h.arena, ?_, ?_, h.tags.congr fun a ha => hout a fun hin => ?_, ?_, ?_⟩
  · rw [hout, h.prologueHeader]
    simp only [firstBlock, WSIZE, DSIZE] at *
    omega
  · rw [hout, h.prologueFooter]
    simp only [firstBlock, WSIZE, DSIZE] at *
    omega
  · obtain ⟨q, c, hc, ha⟩ := ha
    have hbounds' := placed_bounds hsizes hc
    simp only [HDRP, WSIZE, DSIZE] at ha
    rcases placed_apart hsizes hplaced hc with ⟨rfl, rfl⟩ | hapart | hapart
    · rcases ha with ha | ⟨hfree, -⟩
      · omega
      · rw [halloc] at hfree
        cases hfree
    · omega
    · omega
  · rw [Epilogue, hout, h.epilogue]
    simp only [HDRP, WSIZE]
    omega
  · obtain ⟨G, hlists, hexact⟩ := h.lists
    refine ⟨G, hlists.congr fun a ha => hout a fun hin => ?_, hexact⟩
    refine hexact.not_linkWord h.arena (Or.inr ⟨p, b, hplaced, ?_⟩) ha
    exact Or.inr (Or.inr (Or.inr (Or.inl ⟨halloc, hin.1, by simp only [HDRP, WSIZE]; omega⟩)))

/-- Writing to one block leaves what is in the others. -/
theorem Live.others {m' : Memory} (hs : Sizes bs) (hp : Live tableBase bs p b)
    (hout : ∀ a, ¬(p ≤ a ∧ a < HDRP (p + b.size)) → m' a = m a) (hq : Live tableBase bs q c) (hne : q ≠ p) :
    SamePayload m m' q c := by
  intro a hle hlt
  refine hout a fun hin => ?_
  have hbounds := placed_bounds hs hp.1
  have hbounds' := placed_bounds hs hq.1
  simp only [HDRP, WSIZE] at hlt hin
  rcases placed_apart hs hp.1 hq.1 with ⟨he, -⟩ | hapart | hapart
  · exact hne he.symm
  · omega
  · omega

/-- Two blocks in use at one place are one. -/
theorem Live.unique (hs : Sizes bs) (h : Live tableBase bs p b) (h' : Live tableBase bs p c) : b = c := by
  have hb := placed_bounds hs h.1
  have hc := placed_bounds hs h'.1
  rcases placed_apart hs h.1 h'.1 with ⟨-, he⟩ | hapart | hapart
  · exact he
  · omega
  · omega

/-- No two free blocks lie side by side: where nothing is in use there is one block at most. -/
theorem Tags.length_le_one {prevAlloc : Bool} (h : Tags m p prevAlloc bs) (hfree : ∀ b ∈ bs, b.alloc = false) :
    bs.length ≤ 1 := by
  cases bs with
  | nil => exact Nat.zero_le 1
  | cons b bs =>
      cases bs with
      | nil => exact Nat.le_refl 1
      | cons c bs =>
          have hlast := (h.2.2.2.1 (hfree c (by simp))).1
          rw [hfree b (by simp)] at hlast
          cases hlast

theorem WellFormed.length_le_one (h : WellFormed m tableBase bs) (hnone : ∀ q c, ¬Live tableBase bs q c) :
    bs.length ≤ 1 ∧ ∀ b ∈ bs, b.alloc = false := by
  have hfree : ∀ b ∈ bs, b.alloc = false := by
    intro b hb
    obtain ⟨l, r, rfl⟩ := List.append_of_mem hb
    by_contra halloc
    exact hnone _ b ⟨placed_mid, by simpa using halloc⟩
  exact ⟨h.tags.length_le_one hfree, hfree⟩

end

namespace Heap

variable {s s' : Heap} {bs : List Block} {fuel size p : Nat}

/-- `s'` has the blocks in use that `s` has, with what is in them. -/
structure Carries (s s' : Heap) (bs bs' : List Block) : Prop where
  table : s'.tableBase = s.tableBase
  live : ∀ q c, Live s.tableBase bs' q c ↔ Live s.tableBase bs q c
  same : ∀ q c, Live s.tableBase bs q c → SamePayload s.mem s'.mem q c

theorem Carries.refl (s : Heap) (bs : List Block) : Carries s s bs bs :=
  ⟨rfl, fun _ _ => Iff.rfl, fun _ _ _ _ _ _ => rfl⟩

theorem Carries.trans {s'' : Heap} {bs' bs'' : List Block} (h : Carries s s' bs bs')
    (h' : Carries s' s'' bs' bs'') : Carries s s'' bs bs'' := by
  refine ⟨h'.table.trans h.table, fun q c => ?_, fun q c hc a hle hlt => ?_⟩
  · have hlive := h'.live q c
    rw [h.table] at hlive
    exact hlive.trans (h.live q c)
  · have hsame := h'.same q c
    rw [h.table] at hsame
    exact (hsame ((h.live q c).mpr hc) a hle hlt).trans (h.same q c hc a hle hlt)

/-- A heap that could not grow is as it was. -/
theorem memSbrk_none {incr : Nat} (h : s.Ready bs) (hsbrk : s.memSbrk incr = (none, s')) : s' = s := by
  have hne : s.memBrk ≠ 0 := by
    rw [h.brk]
    simp only [firstBlock, DSIZE]
    omega
  have hfirst : s.sbrkFirst incr = some s := by rw [sbrkFirst, if_neg hne]
  have hmax := h.maxBrk
  have hgranted := h.granted
  unfold memSbrk at hsbrk
  rw [hfirst] at hsbrk
  dsimp only at hsbrk
  by_cases hover : s.memBrk + incr > s.memMaxBrk
  · rw [if_pos hover, sysExpandHeap] at hsbrk
    by_cases hfits : s.granted + alignPage (s.memBrk + incr - s.memMaxBrk) / PAGE_SIZE * PAGE_SIZE ≤ s.heapEnd
    · rw [if_pos hfits] at hsbrk
      dsimp only at hsbrk
      rw [if_neg (by omega)] at hsbrk
      cases hsbrk
    · rw [if_neg hfits] at hsbrk
      exact (Prod.mk.inj hsbrk).2.symm
  · rw [if_neg hover] at hsbrk
    cases hsbrk

theorem expandHeap_carries {incr : Nat} {res : Option Nat} (h : s.Ready bs) (hincr : 24 ≤ ALIGN incr)
    (hret : s.expandHeap incr = .ret (res, s')) : ∃ bs', s'.Ready bs' ∧ Carries s s' bs bs' := by
  cases res with
  | some bp =>
      obtain ⟨hready, htable, hlive⟩ := expandHeap_some h hincr hret
      refine ⟨_, hready, htable, fun q c => ⟨fun hc => ?_, fun hc => (hlive q c hc).1⟩,
        fun q c hc => (hlive q c hc).2⟩
      obtain ⟨hplaced, halloc⟩ := live_coalesced_iff.mp hc
      exact ⟨hplaced.resolve_right (by simp), halloc⟩
  | none =>
      cases hsbrk : s.memSbrk (ALIGN incr) with
      | mk res s₁ =>
          cases res with
          | some x =>
              obtain ⟨bp', s'', hret', -⟩ := expandHeap_spec h hincr hsbrk
              rw [hret] at hret'
              cases Outcome.ret.inj hret'
          | none =>
              rw [expandHeap, hsbrk] at hret
              obtain rfl := memSbrk_none h hsbrk
              obtain ⟨-, rfl⟩ := Prod.mk.inj (Outcome.ret.inj hret)
              exact ⟨bs, h, Carries.refl _ bs⟩

/-- `s'` has one block in use more than `s`, at `p`, as large as `mm_malloc` makes it for `size` bytes. -/
structure Gains (s s' : Heap) (bs bs' : List Block) (size p : Nat) (b : Block) : Prop where
  table : s'.tableBase = s.tableBase
  room : newSize size ≤ b.size
  alloc : b.alloc = true
  live : ∀ q c, Live s.tableBase bs' q c ↔ Live s.tableBase bs q c ∨ q = p ∧ c = b
  same : ∀ q c, Live s.tableBase bs q c → q ≠ p ∧ SamePayload s.mem s'.mem q c

theorem Carries.gains {s'' : Heap} {bs' bs'' : List Block} {b : Block} (h : Carries s s' bs bs')
    (h' : Gains s' s'' bs' bs'' size p b) : Gains s s'' bs bs'' size p b := by
  obtain ⟨htable, hroom, halloc, hlive, hsame⟩ := h'
  rw [h.table] at hlive hsame
  refine ⟨htable.trans h.table, hroom, halloc, fun q c => (hlive q c).trans (or_congr_left (h.live q c)),
    fun q c hc => ?_⟩
  obtain ⟨hne, hsame'⟩ := hsame q c ((h.live q c).mpr hc)
  exact ⟨hne, fun a hle hlt => (hsame' a hle hlt).trans (h.same q c hc a hle hlt)⟩

/-- The heap with other words in it, among the same blocks in all. -/
theorem Ready.withMem {bs' : List Block} {m : Memory} (h : s.Ready bs) (hwell : WellFormed m s.tableBase bs')
    (htotal : total bs' = total bs) : Ready { s with mem := m } bs' where
  wellFormed := hwell
  started := h.started
  brk := by
    show s.memBrk = firstBlock s.tableBase + total bs'
    rw [htotal]
    exact h.brk
  maxBrk := h.maxBrk
  granted := h.granted
  inside := h.inside
  user := h.user

/-- A free block has been put to use, whole or as a block in use and a free rest. -/
theorem Ready.taken {l r : List Block} {f used : Block} {m : Memory} (rest : List Block)
    (h : s.Ready (l ++ f :: r))
    (hf : f.alloc = false) (hused : used.alloc = true) (hrest : ∀ g ∈ rest, g.alloc = false)
    (hsize : used.size + total rest = f.size) (hroom : newSize size ≤ used.size)
    (hwell : WellFormed m s.tableBase (l ++ used :: (rest ++ r)))
    (hkept : ∀ a, Kept s.tableBase l f.size r a → m a = s.mem a) :
    Ready { s with mem := m } (l ++ used :: (rest ++ r)) ∧
      Gains s { s with mem := m } (l ++ f :: r) (l ++ used :: (rest ++ r)) size
        (firstBlock s.tableBase + total l) used := by
  have hbefore : ∀ q c, Live s.tableBase (l ++ f :: r) q c ↔
      ((q, c) ∈ placed (firstBlock s.tableBase) l ∨
        (q, c) ∈ placed (firstBlock s.tableBase + total l + f.size) r) ∧ c.alloc = true := by
    intro q c
    rw [Live, mem_placed_iff]
    constructor
    · rintro ⟨hc | ⟨-, rfl⟩ | hc, halloc⟩
      · exact ⟨Or.inl hc, halloc⟩
      · rw [hf] at halloc
        cases halloc
      · exact ⟨Or.inr hc, halloc⟩
    · rintro ⟨hc, halloc⟩
      exact ⟨hc.imp_right Or.inr, halloc⟩
  refine ⟨h.withMem hwell ?_, rfl, hroom, hused, fun q c => ?_, fun q c hc => ?_⟩
  · simp only [total_append, total_cons]
    omega
  · rw [live_replace hused hrest hsize, hbefore]
  · obtain ⟨hbeside, halloc⟩ := (hbefore q c).mp hc
    refine ⟨h.wellFormed.arena.ne_mid hbeside, fun a hle hlt => ?_⟩
    exact hkept a ⟨q, c, hbeside, halloc, hle, hlt⟩

/-- The step of `mm_malloc` that has found a block, when the rest of it can be listed. -/
theorem place_gains (h : s.Ready bs) (hsize : 1 ≤ size)
    (hfind : find fuel s.mem s.tableBase (newSize size) = .ret (some p))
    (hfresh : RestFresh s.mem p (newSize size)) :
    ∃ m bs' b, place s.mem s.tableBase p (newSize size) = .ret m ∧ Ready { s with mem := m } bs' ∧
      Gains s { s with mem := m } bs bs' size p b := by
  have hnew := (newSize_spec hsize).1
  obtain ⟨l, f, r, rfl, rfl, hfree, hfit⟩ := find_some h.wellFormed hfind
  have hheader : GET_SIZE (s.mem (HDRP (firstBlock s.tableBase + total l))) = f.size := by
    rw [(Tags.append.mp h.wellFormed.tags).2.1, GET_SIZE_PACK (TagSize.of_mem h.wellFormed.arena (by simp))]
  by_cases hsplit : f.size ≥ newSize size + MININUM_BLK_SIZE
  · obtain ⟨resSize, hres⟩ := Nat.exists_eq_add_of_le hfit
    have hmin : 24 ≤ resSize := by
      simp only [MININUM_BLK_SIZE] at hsplit
      omega
    obtain ⟨m, hplace, hwell, hkept⟩ :=
      place_split h.wellFormed hfree rfl hres hnew hmin (hfresh (by rw [hheader]; exact hsplit))
    rw [← hres] at hkept
    refine ⟨m, l ++ ⟨newSize size, true⟩ :: ([⟨resSize, false⟩] ++ r), ⟨newSize size, true⟩, hplace, ?_⟩
    exact h.taken [⟨resSize, false⟩] hfree rfl (by simp) (by simp [hres]) (Nat.le_refl _) hwell hkept
  · obtain ⟨m, hplace, hwell, hkept⟩ := place_whole h.wellFormed hfree rfl hsplit
    refine ⟨m, l ++ ⟨f.size, true⟩ :: ([] ++ r), ⟨f.size, true⟩, hplace, ?_⟩
    exact h.taken [] hfree rfl (by simp) (by simp) hfit hwell hkept

theorem twoKiB_le (size : Nat) : 24 ≤ ALIGN (max (newSize size) MAX_INCR) := by
  have hle := Nat.le_max_right (newSize size) MAX_INCR
  simp only [ALIGN, MAX_INCR] at *
  omega

/-- What `mm_malloc` leaves of a ready heap when it returns a block. -/
theorem allocateLoop_gains (h : s.Ready bs) (hsize : 1 ≤ size)
    (hret : allocateLoop fuel s size = .ret (some p, s')) (hfresh : FreshRest fuel s size) :
    ∃ bs' b, s'.Ready bs' ∧ Gains s s' bs bs' size p b := by
  induction fuel generalizing s bs with
  | zero => cases hret
  | succ fuel ih =>
      unfold allocateLoop at hret
      unfold FreshRest at hfresh
      obtain ⟨found, hfind, hret⟩ := Outcome.bind_eq_ret hret
      rw [hfind] at hfresh
      cases found with
      | some ptr =>
          obtain ⟨m, bs', b, hplace, hready, hgains⟩ := place_gains h hsize hfind hfresh
          obtain ⟨m', hplace', hret⟩ := Outcome.bind_eq_ret hret
          obtain rfl := Outcome.ret.inj (hplace.symm.trans hplace')
          obtain ⟨hptr, rfl⟩ := Prod.mk.inj (Outcome.ret.inj hret)
          obtain rfl := Option.some.inj hptr
          exact ⟨bs', b, hready, hgains⟩
      | none =>
          obtain ⟨⟨res, s₁⟩, hexpand, hret⟩ := Outcome.bind_eq_ret hret
          obtain ⟨bs₁, hready, hcarries⟩ := expandHeap_carries h (twoKiB_le size) hexpand
          cases res with
          | none => cases Outcome.ret.inj hret
          | some bp =>
              dsimp only at hfresh
              rw [hexpand] at hfresh
              obtain ⟨bs', b, hready', hgains⟩ := ih hready hret hfresh
              exact ⟨bs', b, hready', hcarries.gains hgains⟩

/-- A null pointer is returned when the heap cannot grow any more; it may have grown before. -/
theorem allocateLoop_carries (h : s.Ready bs) (hret : allocateLoop fuel s size = .ret (none, s')) :
    ∃ bs', s'.Ready bs' ∧ Carries s s' bs bs' := by
  induction fuel generalizing s bs with
  | zero => cases hret
  | succ fuel ih =>
      unfold allocateLoop at hret
      obtain ⟨found, hfind, hret⟩ := Outcome.bind_eq_ret hret
      cases found with
      | some ptr =>
          obtain ⟨m', -, hret⟩ := Outcome.bind_eq_ret hret
          cases Outcome.ret.inj hret
      | none =>
          obtain ⟨⟨res, s₁⟩, hexpand, hret⟩ := Outcome.bind_eq_ret hret
          obtain ⟨bs₁, hready, hcarries⟩ := expandHeap_carries h (twoKiB_le size) hexpand
          cases res with
          | none =>
              obtain ⟨-, rfl⟩ := Prod.mk.inj (Outcome.ret.inj hret)
              exact ⟨bs₁, hready, hcarries⟩
          | some bp =>
              obtain ⟨bs', hready', hcarries'⟩ := ih hready hret
              exact ⟨bs', hready', hcarries.trans hcarries'⟩

/-- `s'` has the blocks in use of `s` but for the one at `p`. -/
structure Loses (s s' : Heap) (bs bs' : List Block) (p : Nat) : Prop where
  table : s'.tableBase = s.tableBase
  live : ∀ q c, Live s.tableBase bs' q c ↔ Live s.tableBase bs q c ∧ q ≠ p
  same : ∀ q c, Live s.tableBase bs q c → q ≠ p → SamePayload s.mem s'.mem q c

/-- `mm_free` of a block in use returns, and what it leaves of a ready heap. -/
theorem mmFree_loses {b : Block} (h : s.Ready bs) (hp : Live s.tableBase bs p b) :
    ∃ m bs', mmFree s.mem s.tableBase p = .ret m ∧ Ready { s with mem := m } bs' ∧
      Loses s { s with mem := m } bs bs' p := by
  obtain ⟨l, r, m, rfl, rfl, hfree, hwell, hkeep⟩ := mmFree_wellFormed h.wellFormed hp
  refine ⟨m, _, hfree, h.withMem hwell ?_, rfl, fun q c => ⟨fun hc => ?_, fun hc => (hkeep q c hc.1 hc.2).1⟩,
    fun q c hc hne => (hkeep q c hc hne).2⟩
  · rw [total_coalesced, total_append, total_cons, Nat.add_assoc]
  · obtain ⟨hbeside, halloc⟩ := live_coalesced_iff.mp hc
    exact ⟨⟨mem_placed_iff.mpr (hbeside.imp_right Or.inr), halloc⟩, h.wellFormed.arena.ne_mid hbeside⟩

/-! ### Setting up -/

/-- The heap of a program that has not called the allocator: the segment `HEAP` begins at a page, and there is
room for one. -/
structure Unused (s : Heap) : Prop where
  brkBase : s.brkBase = 0
  memBrk : s.memBrk = 0
  start : 0 < s.granted
  page : s.granted % PAGE_SIZE = 0
  room : s.granted + PAGE_SIZE ≤ s.heapEnd
  user : s.heapEnd ≤ STACK_TOP

theorem clearTable_succ (m : Memory) (base n : Nat) :
    clearTable m base (n + 1) = PUT_PTR (clearTable m base n) (cell base n) 0 := by
  rw [clearTable, cell, Nat.mul_comm]

theorem clearTable_cell (m : Memory) {base n i : Nat} (h : i < n) :
    clearTable m base n (cell base i) = 0#32 := by
  induction n with
  | zero => omega
  | succ n ih =>
      rw [clearTable_succ]
      by_cases hi : i = n
      · subst hi
        exact PUT_self _ _ _
      · rw [PUT_PTR_of_ne fun he => hi (cell_inj he)]
        exact ih (by omega)

/-- The words of a heap without blocks. -/
def initialised (m : Memory) (base : Nat) : Memory :=
  PUT (PUT (PUT (PUT (clearTable m base MAX_GROUP) (base + MAX_GROUP * DSIZE) 0)
    (base + MAX_GROUP * DSIZE + WSIZE * 1) (PACK DSIZE true true)) (base + MAX_GROUP * DSIZE + WSIZE * 2)
    (PACK DSIZE true true)) (base + MAX_GROUP * DSIZE + WSIZE * 3) (PACK 0 true true)

theorem wellFormed_initialised (m : Memory) {base : Nat} (hpos : 0 < base) (halign : base % 8 = 0)
    (hfits : firstBlock base < 2 ^ 32) : WellFormed (initialised m base) base [] where
  arena := ⟨hpos, halign, ⟨by simp, by simp⟩, by simpa using hfits⟩
  prologueHeader := by
    rw [initialised, PUT_of_ne (by simp [cell, WSIZE]), PUT_of_ne (by simp [cell, WSIZE])]
    exact PUT_self _ _ _
  prologueFooter := by
    rw [initialised, PUT_of_ne (by simp [cell, WSIZE])]
    exact PUT_self _ _ _
  tags := trivial
  epilogue := PUT_self _ _ _
  lists := by
    refine ⟨fun _ => [], ⟨fun i hi => ?_, fun _ _ => trivial, fun _ _ _ hp => ?_, fun _ _ _ _ _ hp => ?_⟩,
      fun i hi p => ?_⟩
    · have hcell : initialised m base (cell base i) = 0#32 := by
        have hlt : cell base i < base + MAX_GROUP * DSIZE := by
          simp only [cell, DSIZE]
          omega
        rw [initialised, PUT_of_ne (by omega), PUT_of_ne (by omega), PUT_of_ne (by omega), PUT_of_ne (by omega)]
        exact clearTable_cell m hi
      show link (initialised m base (cell base i)).toNat = none
      rw [hcell]
      rfl
    · cases hp
    · cases hp
    · simp

/-- The bytes of the table, the padding, the prologue and the epilogue. -/
def initBytes : Nat := 4 * WSIZE + MAX_GROUP * DSIZE

/-- The first call of `mem_sbrk`. -/
theorem memSbrk_first {incr : Nat} (hbrk : s.memBrk = 0) (hstart : 0 < s.granted)
    (hroom : s.granted + alignPage incr ≤ s.heapEnd) : s.memSbrk incr = (some s.granted,
      { s with granted := s.granted + alignPage incr, memBrk := s.granted + incr,
               memMaxBrk := s.granted + alignPage incr }) := by
  obtain ⟨hle, hpages⟩ := alignPage_spec incr
  have hexpand : s.sysExpandHeap (alignPage incr / PAGE_SIZE) =
      (s.granted, { s with granted := s.granted + alignPage incr }) := by
    rw [sysExpandHeap, hpages, if_pos hroom]
  have hfirst : s.sbrkFirst incr = some
      { s with granted := s.granted + alignPage incr, memBrk := s.granted,
               memMaxBrk := s.granted + alignPage incr } := by
    rw [sbrkFirst, if_pos hbrk]
    dsimp only
    rw [hexpand]
    dsimp only
    rw [if_neg (Nat.ne_of_gt hstart)]
  rw [memSbrk, hfirst]
  dsimp only
  rw [if_neg (by omega)]

theorem mmInit_unused (h : s.Unused) : s.mmInit = { s with
    mem := initialised s.mem s.granted, tableBase := s.granted, granted := s.granted + alignPage initBytes,
    memBrk := s.granted + initBytes, memMaxBrk := s.granted + alignPage initBytes,
    brkBase := s.granted + MAX_GROUP * DSIZE + 2 * WSIZE } := by
  have hroom := h.room
  have hpage : alignPage initBytes = PAGE_SIZE := by decide
  rw [← hpage] at hroom
  rw [mmInit, ← initBytes, memSbrk_first h.memBrk h.start hroom]
  rfl

/-- `mm_init` sets up a heap without blocks. -/
theorem mmInit_ready (h : s.Unused) : s.mmInit.Ready [] := by
  have hstart := h.start
  have hpage := h.page
  have hroom := h.room
  have huser := h.user
  have hfirst : firstBlock s.granted = s.granted + initBytes := by
    simp only [firstBlock, cell, initBytes, WSIZE, MAX_GROUP, DSIZE]
  have hbytes : alignPage initBytes = PAGE_SIZE := by decide
  have hsize : initBytes = 176 := by decide
  simp only [PAGE_SIZE, STACK_TOP] at hpage hroom huser hbytes
  rw [mmInit_unused h]
  refine ⟨wellFormed_initialised _ hstart (by omega) (by omega), ?_, ?_, ?_, rfl, ?_, ?_⟩
  · simp [WSIZE]
  · dsimp only
    rw [hfirst, total_nil, Nat.add_zero]
  · dsimp only
    omega
  · dsimp only
    omega
  · dsimp only
    rw [STACK_TOP]
    omega

end Heap

end Malloc

end SysuOs
