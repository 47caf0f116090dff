import Mathlib
import SysuOs.BuddyInit

/-! Runs of the buddy allocator. Whatever the order of `allocate` and `release`, the free blocks and
the live allocations partition the pages the allocator started with. Since `initialize` leaves no run
of 2048 pages to manage, no merge reaches order 11 and `release` gives back all it is given. -/

namespace SysuOs.Buddy

open Dyadic

/-- Page `p` lies in the live allocation `(index, count)`. -/
def Held (a : Nat × Int) (p : Nat) : Prop := Covers a.1 (count2order a.2) p

instance (a : Nat × Int) (p : Nat) : Decidable (Held a p) :=
  inferInstanceAs (Decidable (Covers _ _ _))

/-- Page `p` lies in one of the live allocations. -/
def Live (live : List (Nat × Int)) (p : Nat) : Prop := ∃ a ∈ live, Held a p

/-- The number of pages in live allocations. -/
def liveCount (live : List (Nat × Int)) : Nat := (live.map fun a => 2 ^ count2order a.2).sum

/-- The number of pages in free blocks, as `PAddressPool::dump` counts them. -/
def freePages (b : Buddy) : Nat := PAddressPool.dump { resources := b, startAddress := 0, length := 0 }

/-- The runs of the allocator from `b₀` on, with the allocations that are live. -/
inductive Run (b₀ : Buddy) : Buddy → List (Nat × Int) → Prop
  | start : Run b₀ b₀ []
  | allocate {b b' : Buddy} {live : List (Nat × Int)} {count : Int} {index : Nat}
      (hrun : Run b₀ b live) (hcount : 1 ≤ count) (hres : b.allocate count = (some index, b')) :
      Run b₀ b' ((index, count) :: live)
  | refuse {b b' : Buddy} {live : List (Nat × Int)} {count : Int}
      (hrun : Run b₀ b live) (hcount : 1 ≤ count) (hres : b.allocate count = (none, b')) :
      Run b₀ b' live
  | release {b : Buddy} {live : List (Nat × Int)} {index : Nat} {count : Int}
      (hrun : Run b₀ b live) (hlive : (index, count) ∈ live) :
      Run b₀ (b.release index count) (live.erase (index, count))

/-- Two live allocations have no page in common. -/
def Apart (a a' : Nat × Int) : Prop := ∀ p, Held a p → ¬Held a' p

theorem Apart.symm {a a' : Nat × Int} (h : Apart a a') : Apart a' a := fun p hp hp' => h p hp' hp

/-- `M` is the set of pages the allocator manages and `total` their number. The free blocks and the
live allocations partition `M`, which no aligned run of 2048 pages is part of. -/
structure Inv (M : Nat → Prop) (total N : Nat) (b : Buddy) (F : Nat → List Nat)
    (live : List (Nat × Int)) : Prop where
  totalPages : b.totalPages = N
  free : FreeAt b F
  blocks : Blocks F N
  gap : ∀ t, 2 ^ (MAX_ORDER + 1) ∣ t → ∃ p, Covers t (MAX_ORDER + 1) p ∧ ¬M p
  total_le : total ≤ N
  count : pageCount F + liveCount live = total
  managed : ∀ p, FreePage F p ∨ Live live p ↔ M p
  disjoint : ∀ p, FreePage F p → ¬Live live p
  apart : live.Pairwise Apart
  order : ∀ a ∈ live, 1 ≤ a.2 ∧ count2order a.2 ≤ MAX_ORDER
  aligned : ∀ a ∈ live, 2 ^ count2order a.2 ∣ a.1
  bound : ∀ a ∈ live, a.1 + 2 ^ count2order a.2 ≤ N
  bit : ∀ p, p < N → (getMap b.bitmap p = true ↔ Live live p)

theorem live_cons {a : Nat × Int} {live : List (Nat × Int)} {p : Nat} :
    Live (a :: live) p ↔ Held a p ∨ Live live p := by
  simp [Live]

theorem liveCount_cons (a : Nat × Int) (live : List (Nat × Int)) :
    liveCount (a :: live) = 2 ^ count2order a.2 + liveCount live := by
  rw [liveCount, List.map_cons, List.sum_cons]
  rfl

/-- `Inv` but for what the bitmap shows: the free blocks and the live allocations partition `M`. -/
structure Shares (M : Nat → Prop) (total N : Nat) (b : Buddy) (F : Nat → List Nat)
    (live : List (Nat × Int)) : Prop where
  totalPages : b.totalPages = N
  free : FreeAt b F
  blocks : Blocks F N
  gap : ∀ t, 2 ^ (MAX_ORDER + 1) ∣ t → ∃ p, Covers t (MAX_ORDER + 1) p ∧ ¬M p
  total_le : total ≤ N
  count : pageCount F + liveCount live = total
  managed : ∀ p, FreePage F p ∨ Live live p ↔ M p
  disjoint : ∀ p, FreePage F p → ¬Live live p
  apart : live.Pairwise Apart
  order : ∀ a ∈ live, count2order a.2 ≤ MAX_ORDER
  aligned : ∀ a ∈ live, 2 ^ count2order a.2 ∣ a.1
  bound : ∀ a ∈ live, a.1 + 2 ^ count2order a.2 ≤ N

theorem Inv.shares {M : Nat → Prop} {total N : Nat} {b : Buddy} {F : Nat → List Nat}
    {live : List (Nat × Int)} (h : Inv M total N b F live) : Shares M total N b F live :=
  { h with order := fun a ha => (h.order a ha).2 }

theorem Shares.inv {M : Nat → Prop} {total N : Nat} {b : Buddy} {F : Nat → List Nat}
    {live : List (Nat × Int)} (h : Shares M total N b F live) (hcount : ∀ a ∈ live, 1 ≤ a.2)
    (hbit : ∀ p, p < N → (getMap b.bitmap p = true ↔ Live live p)) : Inv M total N b F live :=
  { h with
    order := fun a ha => ⟨hcount a ha, h.order a ha⟩
    bit := hbit }

/-- The order in which the live allocations are listed does not matter. -/
theorem Shares.perm {M : Nat → Prop} {total N : Nat} {b : Buddy} {F : Nat → List Nat}
    {live live' : List (Nat × Int)} (h : Shares M total N b F live) (hperm : live.Perm live') :
    Shares M total N b F live' := by
  have hlive : ∀ p, Live live' p ↔ Live live p := fun p => by
    simp only [Live, hperm.mem_iff]
  refine { h with
    count := ?_
    managed := fun p => by rw [hlive]; exact h.managed p
    disjoint := fun p => by rw [hlive]; exact h.disjoint p
    apart := (hperm.pairwise_iff Apart.symm).mp h.apart
    order := fun a ha => h.order a (hperm.mem_iff.mpr ha)
    aligned := fun a ha => h.aligned a (hperm.mem_iff.mpr ha)
    bound := fun a ha => h.bound a (hperm.mem_iff.mpr ha) }
  have hcount := h.count
  rw [liveCount] at hcount ⊢
  rwa [← (hperm.map fun a => 2 ^ count2order a.2).sum_eq]

theorem Inv.perm {M : Nat → Prop} {total N : Nat} {b : Buddy} {F : Nat → List Nat}
    {live live' : List (Nat × Int)} (h : Inv M total N b F live) (hperm : live.Perm live') :
    Inv M total N b F live' := by
  refine (h.shares.perm hperm).inv (fun a ha => (h.order a (hperm.mem_iff.mpr ha)).1) fun p hp => ?_
  rw [h.bit p hp]
  simp only [Live, hperm.mem_iff]

/-! ### The page bitmap -/

theorem getMap_setPages (map : ByteMap) (index count p : Nat) (state : Bool) :
    getMap (setPages map index count state) p =
      if index ≤ p ∧ p < index + count then state else getMap map p := by
  induction count with
  | zero => rw [setPages, if_neg (by omega)]
  | succ count ih =>
      rw [setPages, getMap_setMap, ih]
      by_cases hp : p = index + count
      · rw [if_pos hp, if_pos (by omega)]
      · rw [if_neg hp]
        by_cases hin : index ≤ p ∧ p < index + count
        · rw [if_pos hin, if_pos (by omega)]
        · rw [if_neg hin, if_neg (by omega)]

theorem getMap_setPages_held (map : ByteMap) (a : Nat × Int) (p : Nat) (state : Bool) :
    getMap (setPages map a.1 (pow2 (count2order a.2)) state) p =
      if Held a p then state else getMap map p := by
  rw [getMap_setPages, pow2_eq]
  rfl

theorem setPages_true (map : ByteMap) (a : Nat × Int) (p : Nat) :
    getMap (setPages map a.1 (pow2 (count2order a.2)) true) p = true ↔
      Held a p ∨ getMap map p = true := by
  rw [getMap_setPages_held]
  by_cases hp : Held a p
  · exact iff_of_true (if_pos hp) (Or.inl hp)
  · rw [if_neg hp, or_iff_right hp]

theorem setPages_false (map : ByteMap) (a : Nat × Int) (p : Nat) :
    getMap (setPages map a.1 (pow2 (count2order a.2)) false) p = true ↔
      getMap map p = true ∧ ¬Held a p := by
  rw [getMap_setPages_held]
  by_cases hp : Held a p
  · exact iff_of_false (by rw [if_pos hp]; simp) fun hnot => hnot.2 hp
  · rw [if_neg hp, and_iff_left hp]

/-! ### The steps -/

/-- `allocate` turns a free block into a live allocation, or changes nothing. -/
theorem Shares.allocate {M : Nat → Prop} {total N : Nat} {b : Buddy} {F : Nat → List Nat}
    {live : List (Nat × Int)} (h : Shares M total N b F live) (count : Int) :
    b.allocate count = (none, b) ∨ ∃ index b' F', b.allocate count = (some index, b') ∧
      Shares M total N b' F' ((index, count) :: live) ∧
      b'.bitmap = setPages b.bitmap index (pow2 (count2order count)) true := by
  have htotal := h.count
  have hle := h.total_le
  have htp := h.totalPages
  rcases allocateBlockLoop_spec (MAX_ORDER + 2) (count2order count) h.free h.blocks
    (by omega) (by omega) with ⟨hnone, -⟩ | ⟨s, b₁, F₁, hsome, ho, hbm, htp', hpend, hpage, hpc⟩
  · left
    rw [Buddy.allocate, allocateBlock, hnone]
  · right
    have hnew : ∀ p, Held (s, count) p → FreePage F p := fun p hp => (hpage p).mp (Or.inr hp)
    refine ⟨s, { b₁ with bitmap := setPages b₁.bitmap s (pow2 (count2order count)) true }, F₁,
      by rw [Buddy.allocate, allocateBlock, hsome],
      { totalPages := htp'.trans htp
        free := hpend.free.congr rfl rfl rfl rfl
        blocks := hpend.blocks
        gap := h.gap
        total_le := hle
        count := ?_
        managed := fun p => ?_
        disjoint := fun p hp hp' => ?_
        apart := List.pairwise_cons.mpr
          ⟨fun a ha p hp hp' => h.disjoint p (hnew p hp) ⟨a, ha, hp'⟩, h.apart⟩
        order := fun a ha => ?_
        aligned := fun a ha => ?_
        bound := fun a ha => ?_ }, by rw [hbm]⟩
    · rw [liveCount_cons]
      dsimp only
      omega
    · rw [live_cons, ← or_assoc, ← h.managed p, ← hpage p]
      exact Iff.rfl
    · rcases live_cons.mp hp' with hp' | hp'
      · exact hpend.apart p hp' hp
      · exact h.disjoint p ((hpage p).mp (Or.inl hp)) hp'
    · rcases List.mem_cons.mp ha with rfl | ha
      · exact ho
      · exact h.order a ha
    · rcases List.mem_cons.mp ha with rfl | ha
      · exact hpend.aligned
      · exact h.aligned a ha
    · rcases List.mem_cons.mp ha with rfl | ha
      · exact hpend.bound
      · exact h.bound a ha

theorem Inv.allocate {M : Nat → Prop} {total N : Nat} {b : Buddy} {F : Nat → List Nat}
    {live : List (Nat × Int)} (h : Inv M total N b F live) {count : Int} (hcount : 1 ≤ count) :
    b.allocate count = (none, b) ∨ ∃ index b' F', b.allocate count = (some index, b') ∧
      Inv M total N b' F' ((index, count) :: live) := by
  refine (h.shares.allocate count).imp_right ?_
  rintro ⟨index, b', F', hres, hshares, hbm⟩
  refine ⟨index, b', F', hres, hshares.inv (fun a ha => ?_) fun p hp => ?_⟩
  · rcases List.mem_cons.mp ha with rfl | ha
    · exact hcount
    · exact (h.order a ha).1
  · rw [live_cons, ← h.bit p hp, hbm]
    exact setPages_true b.bitmap (index, count) p

/-- A live allocation can be released: its block is pending. -/
theorem Shares.pending {M : Nat → Prop} {total N : Nat} {b : Buddy} {F : Nat → List Nat}
    {a : Nat × Int} {live : List (Nat × Int)} (h : Shares M total N b F (a :: live)) :
    Pending b F N a.1 (count2order a.2) ∧ count2order a.2 ≤ MAX_ORDER ∧
      pageCount F + 2 ^ count2order a.2 ≤ b.totalPages := by
  have htotal := h.count
  have hle := h.total_le
  have htp := h.totalPages
  have hmem : a ∈ a :: live := List.mem_cons_self
  rw [liveCount_cons] at htotal
  refine ⟨⟨h.free, h.blocks, h.aligned a hmem, h.bound a hmem, fun p hp hfp => ?_⟩,
    h.order a hmem, by omega⟩
  exact h.disjoint p hfp ⟨a, hmem, hp⟩

theorem Shares.not_live {M : Nat → Prop} {total N : Nat} {b : Buddy} {F : Nat → List Nat}
    {a : Nat × Int} {live : List (Nat × Int)} (h : Shares M total N b F (a :: live)) (p : Nat)
    (hp : Held a p) : ¬Live live p := by
  rintro ⟨a', ha', hp'⟩
  exact (List.pairwise_cons.mp h.apart).1 a' ha' p hp hp'

/-- `release` turns a live allocation into a free block. -/
theorem Shares.release {M : Nat → Prop} {total N : Nat} {b : Buddy} {F : Nat → List Nat}
    {a : Nat × Int} {live : List (Nat × Int)} (h : Shares M total N b F (a :: live)) :
    ∃ F', Shares M total N (b.release a.1 a.2) F' live ∧
      (b.release a.1 a.2).bitmap = setPages b.bitmap a.1 (pow2 (count2order a.2)) false := by
  have htotal := h.count
  have hle := h.total_le
  have htp := h.totalPages
  have hmem : a ∈ a :: live := List.mem_cons_self
  rw [liveCount_cons] at htotal
  obtain ⟨hpend, hmax, hroom⟩ := h.pending
  have hother := h.not_live
  obtain ⟨F', hbm, htp', hfree, hblocks, hout⟩ := releaseBlock_spec hpend hmax hroom
  rcases hout with ⟨hpage, hpc, -⟩ | ⟨t, ht, -, hall, -⟩
  · refine ⟨F',
      { totalPages := htp'.trans htp
        free := hfree.congr rfl rfl rfl rfl
        blocks := hblocks
        gap := h.gap
        total_le := hle
        count := by omega
        managed := fun p => ?_
        disjoint := fun p hp hp' => ?_
        apart := (List.pairwise_cons.mp h.apart).2
        order := fun a' ha' => h.order a' (List.mem_cons_of_mem a ha')
        aligned := fun a' ha' => h.aligned a' (List.mem_cons_of_mem a ha')
        bound := fun a' ha' => h.bound a' (List.mem_cons_of_mem a ha') },
      by rw [Buddy.release, hbm]⟩
    · rw [hpage, or_assoc, ← h.managed p, live_cons]
      exact Iff.rfl
    · rcases (hpage p).mp hp with hp | hp
      · exact h.disjoint p hp (live_cons.mpr (Or.inr hp'))
      · exact hother p hp hp'
  · -- a merge up to order 11 would make a whole chunk managed
    obtain ⟨p, hp, hnot⟩ := h.gap t ht
    refine absurd ((h.managed p).mp ?_) hnot
    exact (hall p hp).imp_right fun hp' => ⟨a, hmem, hp'⟩

theorem Inv.release {M : Nat → Prop} {total N : Nat} {b : Buddy} {F : Nat → List Nat}
    {a : Nat × Int} {live : List (Nat × Int)} (h : Inv M total N b F (a :: live)) :
    ∃ F', Inv M total N (b.release a.1 a.2) F' live := by
  obtain ⟨F', hshares, hbm⟩ := h.shares.release
  refine ⟨F', hshares.inv (fun a' ha' => (h.order a' (List.mem_cons_of_mem a ha')).1) fun p hp => ?_⟩
  rw [hbm]
  refine (setPages_false _ a p).trans ?_
  rw [h.bit p hp, live_cons]
  constructor
  · rintro ⟨hin, hnot⟩
    exact hin.resolve_left hnot
  · intro hin
    exact ⟨Or.inr hin, fun hp' => h.shares.not_live p hp' hin⟩

/-! ### Runs -/

/-- A chunk of 2048 pages is never managed as a whole: one of its pages is lost, or lies outside. -/
theorem init_gap {bitmap : ByteMap} {N : Nat} (hzero : ∀ p, p < N → getMap bitmap p = false)
    {t : Nat} (ht : 2 ^ (MAX_ORDER + 1) ∣ t) :
    ∃ p, Covers t (MAX_ORDER + 1) p ∧ ¬(p < N ∧ getMap bitmap p = false ∧ ¬Lost bitmap N p) := by
  by_cases hend : t + 2 ^ (MAX_ORDER + 1) ≤ N
  · refine ⟨t + 2 ^ MAX_ORDER, covers_halves.mpr (Or.inr (covers_start _ _)), fun hin => ?_⟩
    refine hin.2.2 ⟨fun p hp => ?_, ?_⟩
    · have hlt : p < N := by
        obtain ⟨q, rfl⟩ := ht
        simp only [MAX_ORDER] at hp hend
        omega
      exact ⟨hlt, hzero p hlt⟩
    · obtain ⟨q, rfl⟩ := ht
      simp only [MAX_ORDER]
      omega
  · have hpos : 0 < 2 ^ (MAX_ORDER + 1) := Nat.two_pow_pos _
    exact ⟨t + 2 ^ (MAX_ORDER + 1) - 1, ⟨by omega, by omega⟩, fun hin => by omega⟩

/-- What `initialize` leaves of an all-zero bitmap. -/
theorem inv_init {b : Buddy} {N : Nat} {bitmap freeBitMap : ByteMap} (h : Unused b freeBitMap N)
    (hzero : ∀ p, p < N → getMap bitmap p = false) (freeNodes : Nat → FreeNode) :
    ∃ M total F, Inv M total N (b.init bitmap N freeBitMap freeNodes) F [] := by
  obtain ⟨F, hfree, hblocks, hcount, hbm, htp, hpage⟩ := init_spec h bitmap freeNodes
  refine ⟨FreePage F, pageCount F, F,
    { totalPages := htp
      free := hfree
      blocks := hblocks
      gap := fun t ht => ?_
      total_le := hcount
      count := rfl
      managed := fun p => or_iff_left fun hp => ?_
      disjoint := fun p _ hp => ?_
      apart := List.Pairwise.nil
      order := fun a ha => absurd ha List.not_mem_nil
      aligned := fun a ha => absurd ha List.not_mem_nil
      bound := fun a ha => absurd ha List.not_mem_nil
      bit := fun p hp => ?_ }⟩
  · obtain ⟨p, hp, hnot⟩ := init_gap hzero ht
    exact ⟨p, hp, fun hfp => hnot ((hpage p).mp hfp)⟩
  · obtain ⟨a, ha, -⟩ := hp
    exact absurd ha List.not_mem_nil
  · obtain ⟨a, ha, -⟩ := hp
    exact absurd ha List.not_mem_nil
  · rw [hbm, hzero p hp]
    simp [Live]

/-- The invariant holds along every run. -/
theorem Run.inv {b₀ b : Buddy} {live : List (Nat × Int)} {M : Nat → Prop} {total N : Nat}
    {F₀ : Nat → List Nat} (h : Run b₀ b live) (h₀ : Inv M total N b₀ F₀ []) :
    ∃ F, Inv M total N b F live := by
  induction h with
  | start => exact ⟨F₀, h₀⟩
  | allocate hrun hcount hres ih =>
      obtain ⟨F, hinv⟩ := ih
      rcases hinv.allocate hcount with hnone | ⟨index, b', F', hsome, hinv'⟩
      · rw [hnone] at hres
        simp at hres
      · rw [hsome] at hres
        obtain ⟨hidx, rfl⟩ := Prod.mk.inj hres
        obtain rfl := Option.some.inj hidx
        exact ⟨F', hinv'⟩
  | refuse hrun hcount hres ih =>
      obtain ⟨F, hinv⟩ := ih
      rcases hinv.allocate hcount with hnone | ⟨index, b', F', hsome, -⟩
      · rw [hnone] at hres
        obtain rfl := (Prod.mk.inj hres).2
        exact ⟨F, hinv⟩
      · rw [hsome] at hres
        simp at hres
  | release hrun hlive ih =>
      obtain ⟨F, hinv⟩ := ih
      exact (hinv.perm (List.perm_cons_erase hlive)).release

/-- A live allocation of `count` pages: `2 ^ o` pages for the least `o` that will do, aligned, inside
the managed pages and in no free block. -/
def Sound (b : Buddy) (N : Nat) (a : Nat × Int) : Prop :=
  ∃ o, a.2 ≤ 2 ^ o ∧ (∀ o', a.2 ≤ 2 ^ o' → o ≤ o') ∧ 2 ^ o ∣ a.1 ∧ a.1 + 2 ^ o ≤ N ∧
    (∀ p, Held a p ↔ Covers a.1 o p) ∧ ∀ p, Held a p → ¬b.InBlock p

/-- What holds of the allocator and its live allocations, `total` being the pages it manages. -/
structure Safe (b : Buddy) (N total : Nat) (live : List (Nat × Int)) : Prop where
  sound : ∀ a ∈ live, b.Sound N a
  apart : live.Pairwise Apart
  bit : ∀ p, p < N → (getMap b.bitmap p = true ↔ Live live p)
  conserved : b.freePages + liveCount live = total

theorem Inv.safe {M : Nat → Prop} {total N : Nat} {b : Buddy} {F : Nat → List Nat}
    {live : List (Nat × Int)} (h : Inv M total N b F live) : Safe b N total live where
  sound a ha := by
    have hleast := count2order_le_iff (h.order a ha).1
    refine ⟨count2order a.2, (hleast _).mp (le_refl _), fun o' ho' => (hleast o').mpr ho',
      h.aligned a ha, h.bound a ha, fun _ => Iff.rfl, fun p hp hin => ?_⟩
    exact h.disjoint p ((inBlock_iff h.free).mp hin) ⟨a, ha, hp⟩
  apart := h.apart
  bit := h.bit
  conserved := by
    rw [freePages, dump_eq h.free]
    exact h.count

/-- In every run of `allocate` and `release` from what `initialize` leaves of an all-zero bitmap,
live allocations are sound and disjoint, the bitmap shows exactly their pages, and no page is lost. -/
theorem run_safe {b b' : Buddy} {N : Nat} {bitmap freeBitMap : ByteMap}
    {freeNodes : Nat → FreeNode} {live : List (Nat × Int)} (h : Unused b freeBitMap N)
    (hzero : ∀ p, p < N → getMap bitmap p = false)
    (hrun : Run (b.init bitmap N freeBitMap freeNodes) b' live) :
    Safe b' N (b.init bitmap N freeBitMap freeNodes).freePages live := by
  obtain ⟨M, total, F₀, h₀⟩ := inv_init h hzero freeNodes
  obtain ⟨F, hinv⟩ := hrun.inv h₀
  have htotal := h₀.safe.conserved
  rw [liveCount, List.map_nil, List.sum_nil, Nat.add_zero] at htotal
  rw [htotal]
  exact hinv.safe

/-- Two pages out of three are allocated and the bitmap shows them. -/
theorem run_safe_three :
    let b₀ := freshPool.resources.init (fun _ => 0) 3 (fun _ => 0) fun _ => default
    (b₀.allocate 2).1 = some 0 ∧ Safe (b₀.allocate 2).2 3 b₀.freePages [(0, 2)] :=
  have hres : ((freshPool.resources.init (fun _ => 0) 3 (fun _ => 0) fun _ => default).allocate 2).1 =
      some 0 := by rfl
  ⟨hres, run_safe (unused_freshPool 3) (fun p _ => getMap_zero p)
    (Run.allocate Run.start (by decide) (Prod.ext hres rfl))⟩

end SysuOs.Buddy
