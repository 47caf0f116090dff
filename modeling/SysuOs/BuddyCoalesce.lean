import Mathlib
import SysuOs.DyadicFamily
import SysuOs.BuddyRun

/-! Merging is complete. Below the largest order no two free blocks are ever buddies: `releaseBlock`
stops only where the buddy is not on its list, and the bitmap it asks first shows no free page as
occupied. The free blocks are then the largest ones the free pages allow, whatever the order in which
they were released. -/

namespace SysuOs.Buddy

open Dyadic

/-- Below the largest order no two free blocks are buddies. -/
def Coalesced (F : Nat → List Nat) : Prop := ∀ o, o < MAX_ORDER → ∀ s ∈ F o, buddy s o ∉ F o

theorem Coalesced.mono {F F' : Nat → List Nat} (h : Coalesced F) (hsub : ∀ o, ∀ s ∈ F' o, s ∈ F o) :
    Coalesced F' :=
  fun o ho s hs hb => h o ho s (hsub o s hs) (hsub o _ hb)

theorem Coalesced.cons {F : Nat → List Nat} {o s : Nat} (h : Coalesced F)
    (hb : o < MAX_ORDER → buddy s o ∉ F o) : Coalesced (Function.update F o (s :: F o)) := by
  intro o' ho' t ht ht'
  by_cases heq : o' = o
  · subst heq
    rw [Function.update_self] at ht ht'
    rcases List.mem_cons.mp ht with rfl | ht
    · rcases List.mem_cons.mp ht' with hself | ht'
      · exact buddy_ne t o' hself
      · exact hb ho' ht'
    · rcases List.mem_cons.mp ht' with hself | ht'
      · refine hb ho' ?_
        rw [← hself, buddy_buddy]
        exact ht
      · exact h o' ho' t ht ht'
  · rw [Function.update_of_ne heq] at ht ht'
    exact h o' ho' t ht ht'

/-- The lists determine the starts of the free blocks. -/
theorem FreeAt.unique {b : Buddy} {F F' : Nat → List Nat} (h : FreeAt b F) (h' : FreeAt b F') :
    F = F' := by
  obtain ⟨L, hL, hF⟩ := h
  obtain ⟨L', hL', hF'⟩ := h'
  funext o
  have hlist : L o = L' o := by
    by_cases ho : o ≤ MAX_ORDER
    · exact (hL.linked o ho).walk.unique (hL'.linked o ho).walk
    · rw [hL.empty o (Nat.lt_of_not_le ho), hL'.empty o (Nat.lt_of_not_le ho)]
  calc F o = (L o).map b.startOf := hF o
    _ = (L' o).map b.startOf := by rw [hlist]
    _ = F' o := (hF' o).symm

/-! ### Releasing -/

/-- The merge loop only takes blocks off the lists. -/
theorem mergeLoop_subset (fuel : Nat) {b : Buddy} {F : Nat → List Nat} {s o : Nat}
    (h : FreeAt b F) :
    ∃ F', FreeAt (mergeLoop fuel b s o).1 F' ∧ ∀ o', ∀ s' ∈ F' o', s' ∈ F o' := by
  induction fuel generalizing b F s o with
  | zero => exact ⟨F, h, fun _ _ hs => hs⟩
  | succ fuel ih =>
      rw [mergeLoop]
      by_cases hlt : o < MAX_ORDER + 1
      · rw [if_pos hlt]
        by_cases hbit : getMap b.bitmap (s ^^^ 1 <<< o) = false
        · rw [if_pos hbit]
          rcases findNode_spec (s ^^^ 1 <<< o) h (Nat.lt_succ_iff.mp hlt) with
            ⟨hnone, -⟩ | ⟨i, hsome, -, -, -, hfree⟩
          · rw [hnone]
            exact ⟨F, h, fun _ _ hs => hs⟩
          · rw [hsome]
            obtain ⟨F', hF', hsub⟩ := ih (s := min s (s ^^^ 1 <<< o)) (o := o + 1) hfree
            exact ⟨F', hF', fun o' s' hs' => mem_update_erase (hsub o' s' hs')⟩
        · rw [if_neg hbit]
          exact ⟨F, h, fun _ _ hs => hs⟩
      · rw [if_neg hlt]
        exact ⟨F, h, fun _ _ hs => hs⟩

/-- `releaseBlock` leaves no buddies apart as long as the bitmap shows free blocks as free. -/
theorem releaseBlock_coalesced {b : Buddy} {F F' : Nat → List Nat} {N s o : Nat}
    (h : Pending b F N s o) (ho : o ≤ MAX_ORDER) (hroom : pageCount F + 2 ^ o ≤ b.totalPages)
    (hbit : ∀ o' s', s' ∈ F o' → getMap b.bitmap s' = false) (hF : Coalesced F)
    (hF' : FreeAt (b.releaseBlock s o) F') : Coalesced F' := by
  obtain ⟨b₁, F₁, s₁, o₁, hrun, -, htp, hpend, hsame, -, -, hle, -, hlast⟩ :=
    mergeLoop_spec (MAX_ORDER + 1) h (Nat.le_succ_of_le ho) (Nat.le_add_right _ _)
  have hsub : ∀ o', ∀ s' ∈ F₁ o', s' ∈ F o' := by
    obtain ⟨F₂, hF₂, hsub⟩ := mergeLoop_subset (MAX_ORDER + 1) (s := s) (o := o) h.free
    rw [hrun] at hF₂
    rwa [hpend.free.unique hF₂]
  have hcount := hsame.count
  have hroom₁ : blockCount F₁ < b₁.totalPages := by
    have hb := blockCount_le_pageCount F₁
    have hpos := Nat.two_pow_pos o₁
    omega
  obtain ⟨-, -, -, hfree⟩ :=
    insertFreeNode_spec (s := s₁) hpend.free (Nat.min_le_right o₁ MAX_ORDER) hroom₁
  have hrel : b.releaseBlock s o = (b₁.insertFreeNode s₁ (min o₁ MAX_ORDER)).2 := by
    rw [releaseBlock, hrun]
  rw [hrel] at hF'
  rw [hF'.unique hfree]
  refine (hF.mono hsub).cons fun hlt hmem => ?_
  -- the loop has stopped below the largest order, so the buddy is shown as occupied
  have hmin : min o₁ MAX_ORDER = o₁ := by omega
  rw [hmin] at hmem
  have hused := hlast (by omega) hmem
  rw [hbit o₁ _ (hsub o₁ _ hmem)] at hused
  exact absurd hused Bool.false_ne_true

/-! ### Allocating -/

/-- The half `allocateBlock` puts back has its buddy on the way to the caller. -/
theorem allocateBlockLoop_coalesced (fuel o : Nat) {b b' : Buddy} {F F' : Nat → List Nat}
    {N s : Nat} (hfree : FreeAt b F) (hblocks : Blocks F N) (hroom : pageCount F ≤ b.totalPages)
    (hfuel : MAX_ORDER < fuel + o) (hF : Coalesced F)
    (hres : allocateBlockLoop fuel b o = (some s, b')) (hF' : FreeAt b' F') : Coalesced F' := by
  induction fuel generalizing o s b' F' with
  | zero => simp [allocateBlockLoop] at hres
  | succ fuel ih =>
      rw [allocateBlockLoop] at hres
      by_cases hbig : o > MAX_ORDER
      · rw [if_pos hbig] at hres
        simp at hres
      rw [if_neg hbig] at hres
      have ho : o ≤ MAX_ORDER := Nat.le_of_not_lt hbig
      rcases freeArea_spec hfree ho with ⟨hhead, -⟩ | ⟨i, rest, hhead, hFo, -, -, hfree'⟩
      · rw [hhead] at hres
        rcases allocateBlockLoop_spec fuel (o + 1) hfree hblocks hroom (by omega) with
          ⟨hnone, -⟩ | ⟨s₁, b₁, F₁, hsome, -, -, htp, hpend, -, hcount⟩
        · rw [hnone] at hres
          simp at hres
        · rw [hsome] at hres
          obtain ⟨-, rfl⟩ := Prod.mk.inj hres
          have hroom₁ : blockCount F₁ < b₁.totalPages := by
            have hb := blockCount_le_pageCount F₁
            have hpos := Nat.two_pow_pos (o + 1)
            omega
          obtain ⟨-, -, hpend', -⟩ := hpend.split ho hroom₁
          rw [hF'.unique hpend'.free]
          refine (ih (o + 1) (by omega) hsome hpend.free).cons fun _ hmem => ?_
          have hback : buddy (s₁ + 2 ^ o) o = s₁ := by
            rw [← buddy_of_dvd_succ hpend.aligned, buddy_buddy]
          rw [hback] at hmem
          exact hpend.apart s₁ (covers_start s₁ (o + 1)) ⟨o, s₁, hmem, covers_start s₁ o⟩
      · rw [hhead] at hres
        obtain ⟨-, rfl⟩ := Prod.mk.inj hres
        rw [hF'.unique hfree']
        refine hF.mono fun o' s' hs' => ?_
        by_cases heq : o' = o
        · subst heq
          rw [Function.update_self] at hs'
          rw [hFo]
          exact List.mem_cons_of_mem _ hs'
        · rwa [Function.update_of_ne heq] at hs'

/-! ### Setting up -/

theorem initLoop_coalesced (fuel : Nat) {b : Buddy} {F F' : Nat → List Nat} {idx : Nat}
    (h : Scan b F idx) (hF : Coalesced F) (hF' : FreeAt (initLoop fuel b idx) F') :
    Coalesced F' := by
  induction fuel generalizing b F idx with
  | zero => rwa [hF'.unique h.free]
  | succ fuel ih =>
      rw [initLoop] at hF'
      by_cases hlt : idx < b.totalPages
      · rw [if_pos hlt] at hF'
        by_cases hused : getMap b.bitmap idx = true
        · rw [if_pos hused] at hF'
          exact ih (h.skip hlt hused) hF hF'
        · rw [if_neg hused] at hF'
          have hbit : getMap b.bitmap idx = false := by simpa using hused
          obtain ⟨F₁, hscan, -, -⟩ := h.release hlt hbit
          obtain ⟨hpend, hend⟩ := h.pending hlt hbit
          have hcount := h.count
          simp only [pow2_eq] at hF'
          refine ih hscan (releaseBlock_coalesced hpend (probeOrder_spec hlt hbit).2.1 (by omega)
            (fun o s hs => ?_) hF hscan.free) hF'
          have hfp : FreePage F s := ⟨o, s, hs, covers_start s o⟩
          exact ((h.page s (h.blocks.lt hfp)).mp hfp).1
      · rw [if_neg hlt] at hF'
        rwa [hF'.unique h.free]

theorem init_coalesced {b : Buddy} {N : Nat} {freeBitMap : ByteMap} (h : Unused b freeBitMap N)
    (bitmap : ByteMap) (freeNodes : Nat → FreeNode) {F : Nat → List Nat}
    (hF : FreeAt (b.init bitmap N freeBitMap freeNodes) F) : Coalesced F :=
  initLoop_coalesced N (scan_start h bitmap freeNodes)
    (fun _ _ _ hs => absurd hs List.not_mem_nil) hF

/-! ### Runs -/

/-- The block of order `o` at page `s` is free: a node of the list `freeArea[o]` stands for it. -/
def FreeBlock (b : Buddy) (o s : Nat) : Prop := ∃ i, b.Listed o i ∧ b.startOf i = s

theorem freeBlock_iff {b : Buddy} {F : Nat → List Nat} (h : FreeAt b F) (o s : Nat) :
    b.FreeBlock o s ↔ s ∈ F o := by
  obtain ⟨L, hL, hF⟩ := h
  rw [hF, List.mem_map]
  exact exists_congr fun i => and_congr_left fun _ => hL.listed_iff

theorem covered_iff (b : Buddy) (p : Nat) : Covered b.FreeBlock p ↔ b.InBlock p := by
  constructor
  · rintro ⟨o, s, ⟨i, hi, rfl⟩, hp⟩
    exact ⟨o, i, hi, hp⟩
  · rintro ⟨o, i, hi, hp⟩
    exact ⟨o, b.startOf i, ⟨i, hi, rfl⟩, hp⟩

section Run

variable {M : Nat → Prop} {total N : Nat} {b₀ b : Buddy} {F₀ F : Nat → List Nat}
  {live : List (Nat × Int)}

theorem Inv.family (h : Inv M total N b F live) (hF : Coalesced F) :
    Family b.FreeBlock MAX_ORDER where
  le_top hs := h.blocks.le_order ((freeBlock_iff h.free _ _).mp hs)
  aligned hs := h.blocks.aligned ((freeBlock_iff h.free _ _).mp hs)
  apart hs hs' hp hp' :=
    h.blocks.unique ((freeBlock_iff h.free _ _).mp hs) ((freeBlock_iff h.free _ _).mp hs') hp hp'
  merged ho hs hb :=
    hF _ ho _ ((freeBlock_iff h.free _ _).mp hs) ((freeBlock_iff h.free _ _).mp hb)

/-- The first page of a free block is shown as free. -/
theorem Inv.getMap_free (h : Inv M total N b F live) {o s : Nat} (hs : s ∈ F o) :
    getMap b.bitmap s = false := by
  have hfp : FreePage F s := ⟨o, s, hs, covers_start s o⟩
  cases hbit : getMap b.bitmap s with
  | false => rfl
  | true => exact absurd ((h.bit s (h.blocks.lt hfp)).mp hbit) (h.disjoint s hfp)

/-- No step of a run leaves two buddies apart. -/
theorem Run.coalesced (h : Run b₀ b live) (h₀ : Inv M total N b₀ F₀ []) (hF₀ : Coalesced F₀)
    (hF : FreeAt b F) : Coalesced F := by
  induction h generalizing F with
  | start => rwa [hF.unique h₀.free]
  | @allocate b b' live count index hrun hcount hres ih =>
      obtain ⟨F₁, hinv⟩ := hrun.inv h₀
      have htotal := hinv.count
      have hle := hinv.total_le
      have htp := hinv.totalPages
      rw [Buddy.allocate] at hres
      cases hblock : b.allocateBlock (count2order count) with
      | mk res b₁ =>
        rw [hblock] at hres
        cases res with
        | none => simp at hres
        | some s =>
            obtain ⟨-, rfl⟩ := Prod.mk.inj hres
            exact allocateBlockLoop_coalesced (MAX_ORDER + 2) _ hinv.free hinv.blocks (by omega)
              (by omega) (ih hinv.free) hblock (hF.congr rfl rfl rfl rfl)
  | refuse hrun hcount hres ih =>
      obtain ⟨F₁, hinv⟩ := hrun.inv h₀
      rcases hinv.allocate hcount with hnone | ⟨index, b₁, F₂, hsome, -⟩
      · rw [hnone] at hres
        obtain ⟨-, rfl⟩ := Prod.mk.inj hres
        exact ih hF
      · rw [hsome] at hres
        simp at hres
  | @release b live index count hrun hlive ih =>
      obtain ⟨F₁, hinv⟩ := hrun.inv h₀
      obtain ⟨hpend, hmax, hroom⟩ := (hinv.perm (List.perm_cons_erase hlive)).shares.pending
      exact releaseBlock_coalesced hpend hmax hroom (fun _ _ hs => hinv.getMap_free hs)
        (ih hinv.free) (hF.congr rfl rfl rfl rfl)

end Run

/-- What complete merging means for the allocator `b` reached from `b₀`: no two buddies are free
below the largest order, the blocks of the start come back once everything is released, and a
request is refused only where no aligned run of as many free pages is left. -/
structure Merged (b₀ b : Buddy) (live : List (Nat × Int)) : Prop where
  buddies : ∀ o s, o < MAX_ORDER → b.FreeBlock o s → ¬b.FreeBlock o (buddy s o)
  pages : ∀ p, b.InBlock p ↔ b₀.InBlock p ∧ ¬Live live p
  initial : live = [] → ∀ o s, b.FreeBlock o s ↔ b₀.FreeBlock o s
  refused : ∀ count : Int, 1 ≤ count → (b.allocate count).1 = none →
    ∀ t, 2 ^ count2order count ∣ t → ∃ p, Covers t (count2order count) p ∧ ¬b.InBlock p

/-- A refused request finds no block of its order or a larger one. -/
theorem Inv.refused {M : Nat → Prop} {total N : Nat} {b : Buddy} {F : Nat → List Nat}
    {live : List (Nat × Int)} (h : Inv M total N b F live) (hF : Coalesced F) {count : Int}
    (hres : (b.allocate count).1 = none) {t : Nat} (ht : 2 ^ count2order count ∣ t) :
    ∃ p, Covers t (count2order count) p ∧ ¬b.InBlock p := by
  by_contra hnone
  have hall : ∀ p, Covers t (count2order count) p → b.InBlock p := fun p hp =>
    Classical.byContradiction fun hp' => hnone ⟨p, hp, hp'⟩
  have htotal := h.count
  have hle := h.total_le
  have htp := h.totalPages
  rcases Nat.lt_or_ge MAX_ORDER (count2order count) with hbig | hsmall
  · -- such a run would hold an aligned run of 2048 pages
    obtain ⟨p, hp, hM⟩ := h.gap t ((Nat.pow_dvd_pow 2 hbig).trans ht)
    refine hM ((h.managed p).mp (Or.inl ((inBlock_iff h.free).mp (hall p ⟨hp.1, ?_⟩))))
    exact hp.2.trans_le (Nat.add_le_add_left (Nat.pow_le_pow_right (by omega) hbig) t)
  · obtain ⟨o, s, hB, hlo, -⟩ := (h.family hF).maximal hsmall ht fun p hp =>
      (covered_iff b p).mpr (hall p hp)
    rcases allocateBlockLoop_spec (MAX_ORDER + 2) (count2order count) h.free h.blocks
      (by omega) (by omega) with ⟨-, hempty⟩ | ⟨s', b', F', hsome, -⟩
    · have hs := (freeBlock_iff h.free o s).mp hB
      rw [hempty o hlo] at hs
      exact absurd hs List.not_mem_nil
    · rw [Buddy.allocate, allocateBlock, hsome] at hres
      simp at hres

/-- Merging is complete in every run of `allocate` and `release` from what `initialize` leaves of an
all-zero bitmap. -/
theorem run_merged {b b' : Buddy} {N : Nat} {bitmap freeBitMap : ByteMap}
    {freeNodes : Nat → FreeNode} {live : List (Nat × Int)} (h : Unused b freeBitMap N)
    (hzero : ∀ p, p < N → getMap bitmap p = false)
    (hrun : Run (b.init bitmap N freeBitMap freeNodes) b' live) :
    Merged (b.init bitmap N freeBitMap freeNodes) b' live := by
  obtain ⟨M, total, F₀, h₀⟩ := inv_init h hzero freeNodes
  have hF₀ := init_coalesced h bitmap freeNodes h₀.free
  obtain ⟨F, hinv⟩ := hrun.inv h₀
  have hF := hrun.coalesced h₀ hF₀ hinv.free
  have hpages : ∀ p, b'.InBlock p ↔
      (b.init bitmap N freeBitMap freeNodes).InBlock p ∧ ¬Live live p := fun p => by
    have hstart : M p ↔ FreePage F₀ p := (h₀.managed p).symm.trans
      (or_iff_left fun hp => absurd hp (by simp [Live]))
    rw [inBlock_iff hinv.free, inBlock_iff h₀.free, ← hstart, ← hinv.managed p]
    constructor
    · exact fun hp => ⟨Or.inl hp, hinv.disjoint p hp⟩
    · exact fun hp => hp.1.resolve_right hp.2
  refine ⟨fun o s ho hs => (hinv.family hF).merged ho hs, hpages, fun hlive => ?_,
    fun count hcount hres t ht => hinv.refused hF hres ht⟩
  refine (hinv.family hF).unique (h₀.family hF₀) fun p => ?_
  rw [covered_iff, covered_iff, hpages]
  refine and_iff_left ?_
  rintro ⟨a, ha, -⟩
  simp [hlive] at ha

/-- Of three pages two are allocated; the third is refused to a request for two. -/
theorem run_merged_three :
    let b₀ := freshPool.resources.init (fun _ => 0) 3 (fun _ => 0) fun _ => default
    (b₀.allocate 2).1 = some 0 ∧ Merged b₀ (b₀.allocate 2).2 [(0, 2)] :=
  have hres : ((freshPool.resources.init (fun _ => 0) 3 (fun _ => 0) fun _ => default).allocate 2).1 =
      some 0 := by rfl
  ⟨hres, run_merged (unused_freshPool 3) (fun p _ => getMap_zero p)
    (Run.allocate Run.start (by decide) (Prod.ext hres rfl))⟩

end SysuOs.Buddy
