import Mathlib
import SysuOs.Dyadic
import SysuOs.BuddyFreeArea

/-! The free blocks of the buddy allocator as sets of pages. `Blocks` is the invariant of the lists:
every block is aligned and inside the managed pages, and no page lies in two of them. The merge loop
of `releaseBlock` and the recursion of `allocateBlock` are specified by what they do to the free pages
and to their number. -/

namespace SysuOs.Buddy

open Dyadic

theorem pow2_eq (o : Nat) : pow2 o = 2 ^ o := by rw [pow2, Nat.one_shiftLeft]

/-- Page `p` lies in a free block. -/
def FreePage (F : Nat → List Nat) (p : Nat) : Prop := ∃ o, ∃ s ∈ F o, Covers s o p

/-- The free blocks are aligned, inside the first `N` pages and pairwise disjoint. -/
structure Blocks (F : Nat → List Nat) (N : Nat) : Prop where
  le_order : ∀ {o s}, s ∈ F o → o ≤ MAX_ORDER
  aligned : ∀ {o s}, s ∈ F o → 2 ^ o ∣ s
  bound : ∀ {o s}, s ∈ F o → s + 2 ^ o ≤ N
  nodup : ∀ o, (F o).Nodup
  unique : ∀ {o s o' s' p}, s ∈ F o → s' ∈ F o' → Covers s o p → Covers s' o' p → o = o' ∧ s = s'

/-- The number of pages in free blocks. -/
def pageCount (F : Nat → List Nat) : Nat :=
  ∑ o ∈ Finset.range (MAX_ORDER + 1), (F o).length * 2 ^ o

theorem blockCount_le_pageCount (F : Nat → List Nat) : blockCount F ≤ pageCount F :=
  Finset.sum_le_sum fun o _ => Nat.le_mul_of_pos_right _ (Nat.two_pow_pos o)

theorem pageCount_update {F : Nat → List Nat} {o : Nat} (ho : o ≤ MAX_ORDER) (l : List Nat) :
    pageCount (Function.update F o l) + (F o).length * 2 ^ o =
      pageCount F + l.length * 2 ^ o := by
  have hmem : o ∈ Finset.range (MAX_ORDER + 1) := Finset.mem_range.mpr (Nat.lt_succ_of_le ho)
  have hrest : ∀ o' ∈ (Finset.range (MAX_ORDER + 1)).erase o,
      (Function.update F o l o').length * 2 ^ o' = (F o').length * 2 ^ o' := fun o' ho' => by
    rw [Function.update_of_ne (Finset.ne_of_mem_erase ho')]
  rw [pageCount, pageCount, ← Finset.add_sum_erase _ _ hmem, ← Finset.add_sum_erase _ _ hmem,
    Finset.sum_congr rfl hrest, Function.update_self]
  omega

theorem pageCount_cons {F : Nat → List Nat} {o : Nat} (ho : o ≤ MAX_ORDER) (s : Nat) :
    pageCount (Function.update F o (s :: F o)) = pageCount F + 2 ^ o := by
  have h := pageCount_update (F := F) ho (s :: F o)
  rw [List.length_cons, Nat.add_mul, Nat.one_mul] at h
  omega

theorem pageCount_erase {F : Nat → List Nat} {o s : Nat} (ho : o ≤ MAX_ORDER) (hs : s ∈ F o) :
    pageCount (Function.update F o ((F o).erase s)) + 2 ^ o = pageCount F := by
  have h := pageCount_update (F := F) ho ((F o).erase s)
  have hlen : (F o).length = ((F o).erase s).length + 1 :=
    ((Nat.succ_pred_eq_of_pos (List.length_pos_of_mem hs)).symm.trans
      (by rw [List.length_erase_of_mem hs]; rfl))
  rw [hlen, Nat.add_mul, Nat.one_mul] at h
  omega

/-! ### Adding and taking away a block -/

theorem freePage_cons {F : Nat → List Nat} {o s p : Nat} :
    FreePage (Function.update F o (s :: F o)) p ↔ FreePage F p ∨ Covers s o p := by
  constructor
  · rintro ⟨o', s', hs', hp⟩
    by_cases heq : o' = o
    · subst heq
      rw [Function.update_self] at hs'
      rcases List.mem_cons.mp hs' with rfl | hs'
      · exact Or.inr hp
      · exact Or.inl ⟨o', s', hs', hp⟩
    · rw [Function.update_of_ne heq] at hs'
      exact Or.inl ⟨o', s', hs', hp⟩
  · rintro (⟨o', s', hs', hp⟩ | hp)
    · refine ⟨o', s', ?_, hp⟩
      by_cases heq : o' = o
      · subst heq
        rw [Function.update_self]
        exact List.mem_cons_of_mem s hs'
      · rwa [Function.update_of_ne heq]
    · exact ⟨o, s, by rw [Function.update_self]; exact List.mem_cons_self, hp⟩

theorem mem_update_erase {F : Nat → List Nat} {o s o' s' : Nat}
    (h : s' ∈ Function.update F o ((F o).erase s) o') : s' ∈ F o' := by
  by_cases heq : o' = o
  · subst heq
    rw [Function.update_self] at h
    exact List.mem_of_mem_erase h
  · rwa [Function.update_of_ne heq] at h

theorem freePage_erase {F : Nat → List Nat} {N o s p : Nat} (h : Blocks F N) (hs : s ∈ F o) :
    FreePage (Function.update F o ((F o).erase s)) p ↔ FreePage F p ∧ ¬Covers s o p := by
  constructor
  · rintro ⟨o', s', hs', hp⟩
    refine ⟨⟨o', s', mem_update_erase hs', hp⟩, fun hcov => ?_⟩
    obtain ⟨rfl, rfl⟩ := h.unique (mem_update_erase hs') hs hp hcov
    rw [Function.update_self] at hs'
    exact (h.nodup o').not_mem_erase hs'
  · rintro ⟨⟨o', s', hs', hp⟩, hcov⟩
    refine ⟨o', s', ?_, hp⟩
    by_cases heq : o' = o
    · subst heq
      rw [Function.update_self]
      exact (List.mem_erase_of_ne fun he => hcov (by rwa [he] at hp)).mpr hs'
    · rwa [Function.update_of_ne heq]

theorem Blocks.erase {F : Nat → List Nat} {N : Nat} (h : Blocks F N) (o s : Nat) :
    Blocks (Function.update F o ((F o).erase s)) N where
  le_order hs' := h.le_order (mem_update_erase hs')
  aligned hs' := h.aligned (mem_update_erase hs')
  bound hs' := h.bound (mem_update_erase hs')
  nodup o' := by
    by_cases heq : o' = o
    · subst heq
      rw [Function.update_self]
      exact (h.nodup o').erase s
    · rw [Function.update_of_ne heq]
      exact h.nodup o'
  unique hs hs' := h.unique (mem_update_erase hs) (mem_update_erase hs')

theorem Blocks.cons {F : Nat → List Nat} {N o s : Nat} (h : Blocks F N) (ho : o ≤ MAX_ORDER)
    (hs : 2 ^ o ∣ s) (hend : s + 2 ^ o ≤ N) (hapart : ∀ p, Covers s o p → ¬FreePage F p) :
    Blocks (Function.update F o (s :: F o)) N := by
  have hmem : ∀ {o' s'}, s' ∈ Function.update F o (s :: F o) o' →
      (o' = o ∧ s' = s) ∨ s' ∈ F o' := fun {o' s'} hs' => by
    by_cases heq : o' = o
    · subst heq
      rw [Function.update_self] at hs'
      exact (List.mem_cons.mp hs').imp_left fun hs' => ⟨rfl, hs'⟩
    · rw [Function.update_of_ne heq] at hs'
      exact Or.inr hs'
  refine ⟨fun hs' => ?_, fun hs' => ?_, fun hs' => ?_, fun o' => ?_, fun hs₁ hs₂ hp₁ hp₂ => ?_⟩
  · rcases hmem hs' with ⟨rfl, rfl⟩ | hs'
    · exact ho
    · exact h.le_order hs'
  · rcases hmem hs' with ⟨rfl, rfl⟩ | hs'
    · exact hs
    · exact h.aligned hs'
  · rcases hmem hs' with ⟨rfl, rfl⟩ | hs'
    · exact hend
    · exact h.bound hs'
  · by_cases heq : o' = o
    · subst heq
      rw [Function.update_self]
      exact List.nodup_cons.mpr
        ⟨fun hin => hapart s (covers_start s o') ⟨o', s, hin, covers_start s o'⟩, h.nodup o'⟩
    · rw [Function.update_of_ne heq]
      exact h.nodup o'
  · rcases hmem hs₁ with ⟨rfl, rfl⟩ | hold₁ <;> rcases hmem hs₂ with ⟨rfl, rfl⟩ | hold₂
    · exact ⟨rfl, rfl⟩
    · exact absurd ⟨_, _, hold₂, hp₂⟩ (hapart _ hp₁)
    · exact absurd ⟨_, _, hold₁, hp₁⟩ (hapart _ hp₂)
    · exact h.unique hold₁ hold₂ hp₁ hp₂

/-! ### Releasing a block -/

/-- A block on its way back into the lists: `(s, o)` is aligned, inside the managed pages and
disjoint from every free block. -/
structure Pending (b : Buddy) (F : Nat → List Nat) (N s o : Nat) : Prop where
  free : FreeAt b F
  blocks : Blocks F N
  aligned : 2 ^ o ∣ s
  bound : s + 2 ^ o ≤ N
  apart : ∀ p, Covers s o p → ¬FreePage F p

/-- Two ways of holding the same pages, partly in the lists and partly in the pending block. -/
structure SameFree (F F' : Nat → List Nat) (s o s' o' : Nat) : Prop where
  page : ∀ p, FreePage F' p ∨ Covers s' o' p ↔ FreePage F p ∨ Covers s o p
  count : pageCount F' + 2 ^ o' = pageCount F + 2 ^ o

theorem SameFree.trans {F G H : Nat → List Nat} {s o s' o' s'' o'' : Nat}
    (h : SameFree F G s o s' o') (h' : SameFree G H s' o' s'' o'') :
    SameFree F H s o s'' o'' :=
  ⟨fun p => (h'.page p).trans (h.page p), h'.count.trans h.count⟩

/-- One round of the merge loop takes the buddy off its list and doubles the block. -/
theorem Pending.merge {b b' : Buddy} {F : Nat → List Nat} {N s o : Nat} (h : Pending b F N s o)
    (hmem : buddy s o ∈ F o)
    (hfree : FreeAt b' (Function.update F o ((F o).erase (buddy s o)))) :
    Pending b' (Function.update F o ((F o).erase (buddy s o))) N (min s (buddy s o)) (o + 1) ∧
      SameFree F (Function.update F o ((F o).erase (buddy s o))) s o (min s (buddy s o)) (o + 1) := by
  have hpage : ∀ p, FreePage (Function.update F o ((F o).erase (buddy s o))) p ↔
      FreePage F p ∧ ¬Covers (buddy s o) o p := fun p => freePage_erase h.blocks hmem
  have hcount := pageCount_erase (h.blocks.le_order hmem) hmem
  have hpow : 2 ^ (o + 1) = 2 ^ o + 2 ^ o := by ring
  refine ⟨⟨hfree, h.blocks.erase _ _, dvd_min_buddy h.aligned, ?_, fun p hp hfp => ?_⟩,
    fun p => ?_, by omega⟩
  · have hb := h.bound
    have hbb := h.blocks.bound hmem
    have hpos : 0 < 2 ^ o := Nat.two_pow_pos o
    rw [hpow]
    rcases buddy_cases h.aligned with ⟨-, he⟩ | ⟨-, he⟩
    · rw [Nat.min_eq_left (by omega)]
      omega
    · rw [Nat.min_eq_right (by omega)]
      omega
  · rcases (covers_merge h.aligned).mp hp with hp | hp
    · exact h.apart p hp ((hpage p).mp hfp).1
    · exact ((hpage p).mp hfp).2 hp
  · rw [hpage, covers_merge h.aligned]
    constructor
    · rintro (⟨hfp, -⟩ | hp | hp)
      · exact Or.inl hfp
      · exact Or.inr hp
      · exact Or.inl ⟨o, _, hmem, hp⟩
    · rintro (hfp | hp)
      · by_cases hp : Covers (buddy s o) o p
        · exact Or.inr (Or.inr hp)
        · exact Or.inl ⟨hfp, hp⟩
      · exact Or.inr (Or.inl hp)

/-- The merge loop keeps the pages it is given, and stops at a block whose buddy is not free or
which is larger than any list. -/
theorem mergeLoop_spec (fuel : Nat) {b : Buddy} {F : Nat → List Nat} {N s o : Nat}
    (h : Pending b F N s o) (ho : o ≤ MAX_ORDER + 1) (hfuel : MAX_ORDER + 1 ≤ fuel + o) :
    ∃ b' F' s' o', mergeLoop fuel b s o = (b', s', o') ∧ b'.bitmap = b.bitmap ∧
      b'.totalPages = b.totalPages ∧ Pending b' F' N s' o' ∧ SameFree F F' s o s' o' ∧
      Covers s' o' s ∧ o ≤ o' ∧ o' ≤ MAX_ORDER + 1 ∧ (o' = o → s' = s ∧ F' = F) ∧
      (o' ≤ MAX_ORDER → buddy s' o' ∈ F' o' → getMap b.bitmap (buddy s' o') = true) := by
  induction fuel generalizing b F s o with
  | zero =>
      exact ⟨b, F, s, o, rfl, rfl, rfl, h, ⟨fun _ => Iff.rfl, rfl⟩, covers_start s o, le_refl o,
        ho, fun _ => ⟨rfl, rfl⟩, fun hle => by omega⟩
  | succ fuel ih =>
      have hstop : ∀ hlast : o ≤ MAX_ORDER → buddy s o ∈ F o →
          getMap b.bitmap (buddy s o) = true,
          ∃ b' F' s' o', (b, s, o) = (b', s', o') ∧ b'.bitmap = b.bitmap ∧
            b'.totalPages = b.totalPages ∧ Pending b' F' N s' o' ∧ SameFree F F' s o s' o' ∧
            Covers s' o' s ∧ o ≤ o' ∧ o' ≤ MAX_ORDER + 1 ∧ (o' = o → s' = s ∧ F' = F) ∧
            (o' ≤ MAX_ORDER → buddy s' o' ∈ F' o' → getMap b.bitmap (buddy s' o') = true) :=
        fun hlast => ⟨b, F, s, o, rfl, rfl, rfl, h, ⟨fun _ => Iff.rfl, rfl⟩, covers_start s o,
          le_refl o, ho, fun _ => ⟨rfl, rfl⟩, hlast⟩
      have hbuddy : s ^^^ 1 <<< o = buddy s o := by rw [Nat.one_shiftLeft]; rfl
      rw [mergeLoop]
      simp only [hbuddy]
      by_cases hlt : o < MAX_ORDER + 1
      · rw [if_pos hlt]
        by_cases hbit : getMap b.bitmap (buddy s o) = false
        · rw [if_pos hbit]
          rcases findNode_spec (buddy s o) h.free (Nat.lt_succ_iff.mp hlt) with
            ⟨hnone, hnot⟩ | ⟨i, hsome, hmem, hbm, htp, hfree⟩
          · rw [hnone]
            exact hstop fun _ hmem => absurd hmem hnot
          · rw [hsome]
            obtain ⟨hpend, hsame⟩ := h.merge hmem hfree
            obtain ⟨b', F', s', o', hrun, hbm', htp', hpend', hsame', hcov, hle, hle', -, hlast⟩ :=
              ih hpend (by omega) (by omega)
            have hcov' : Covers s' o' s :=
              covers_of_meet hpend.aligned hpend'.aligned hle (covers_start _ _) hcov
                ((covers_merge h.aligned).mpr (Or.inl (covers_start s o)))
            exact ⟨b', F', s', o', hrun, hbm'.trans hbm, htp'.trans htp, hpend',
              hsame.trans hsame', hcov', by omega, hle', fun heq => by omega,
              by rwa [hbm] at hlast⟩
        · rw [if_neg hbit]
          exact hstop fun _ _ => by simpa using hbit
      · rw [if_neg hlt]
        exact hstop fun hle => by omega

/-- The pages of the aligned block of order 11 at `t` that `releaseBlock` forgets. -/
theorem covers_halves {t p : Nat} : Covers t (MAX_ORDER + 1) p ↔
    Covers t MAX_ORDER p ∨ Covers (t + 2 ^ MAX_ORDER) MAX_ORDER p := by
  simp only [Covers, MAX_ORDER]
  omega

/-- What `releaseBlock` does: either all pages of the block become free, merged into a block of some
order, or the merging reaches order 11, of which only the lower half is put back. -/
theorem releaseBlock_spec {b : Buddy} {F : Nat → List Nat} {N s o : Nat} (h : Pending b F N s o)
    (ho : o ≤ MAX_ORDER) (hroom : pageCount F + 2 ^ o ≤ b.totalPages) :
    ∃ F', (b.releaseBlock s o).bitmap = b.bitmap ∧ (b.releaseBlock s o).totalPages = b.totalPages ∧
      FreeAt (b.releaseBlock s o) F' ∧ Blocks F' N ∧
      (((∀ p, FreePage F' p ↔ FreePage F p ∨ Covers s o p) ∧
          pageCount F' = pageCount F + 2 ^ o ∧
          (∃ s' o', s' ∈ F' o' ∧ o ≤ o' ∧ Covers s' o' s) ∧
          (o = MAX_ORDER → buddy s o ∈ F o → getMap b.bitmap (buddy s o) = true)) ∨
        ∃ t, 2 ^ (MAX_ORDER + 1) ∣ t ∧ Covers t (MAX_ORDER + 1) s ∧
          (∀ p, Covers t (MAX_ORDER + 1) p → FreePage F p ∨ Covers s o p) ∧
          (∀ p, FreePage F' p ↔
            (FreePage F p ∨ Covers s o p) ∧ ¬Covers (t + 2 ^ MAX_ORDER) MAX_ORDER p) ∧
          pageCount F' + 2 ^ MAX_ORDER = pageCount F + 2 ^ o) := by
  obtain ⟨b', F', s', o', hrun, hbm, htp, hpend, hsame, hcov, hle, hle', hstay, hlast⟩ :=
    mergeLoop_spec (MAX_ORDER + 1) h (by omega) (by omega)
  have hrel : b.releaseBlock s o = (b'.insertFreeNode s' (min o' MAX_ORDER)).2 := by
    rw [releaseBlock, hrun]
  have hcount := hsame.count
  have hroom' : blockCount F' < b'.totalPages := by
    have hb := blockCount_le_pageCount F'
    have hpos : 0 < 2 ^ o' := Nat.two_pow_pos o'
    omega
  have hmin : min o' MAX_ORDER ≤ MAX_ORDER := Nat.min_le_right _ _
  obtain ⟨-, hbm', htp', hfree⟩ := insertFreeNode_spec (s := s') hpend.free hmin hroom'
  refine ⟨_, hrel ▸ hbm'.trans hbm, hrel ▸ htp'.trans htp, hrel ▸ hfree, ?_, ?_⟩
  · rcases Nat.lt_or_ge MAX_ORDER o' with hbig | hsmall
    · obtain rfl : o' = MAX_ORDER + 1 := by omega
      have hbound := hpend.bound
      rw [Nat.min_eq_right (Nat.le_succ _)]
      refine hpend.blocks.cons (le_refl _) ((Nat.pow_dvd_pow 2 (Nat.le_succ _)).trans hpend.aligned)
        ?_ fun p hp => hpend.apart p (covers_halves.mpr (Or.inl hp))
      exact le_trans (Nat.add_le_add_left (Nat.pow_le_pow_right (by omega) (Nat.le_succ _)) _) hbound
    · rw [Nat.min_eq_left hsmall]
      exact hpend.blocks.cons hsmall hpend.aligned hpend.bound hpend.apart
  · rcases Nat.lt_or_ge MAX_ORDER o' with hbig | hsmall
    · obtain rfl : o' = MAX_ORDER + 1 := by omega
      rw [Nat.min_eq_right (Nat.le_succ _)]
      refine Or.inr ⟨s', hpend.aligned, hcov, fun p hp => (hsame.page p).mp (Or.inr hp),
        fun p => ?_, ?_⟩
      · rw [freePage_cons, ← hsame.page, covers_halves]
        have hapart := hpend.apart p
        rw [covers_halves] at hapart
        constructor
        · rintro (hfp | hp)
          · exact ⟨Or.inl hfp, fun hp => hapart (Or.inr hp) hfp⟩
          · exact ⟨Or.inr (Or.inl hp), fun hp' => absurd hp.2 (Nat.not_lt.mpr hp'.1)⟩
        · rintro ⟨hfp | hp | hp, hnot⟩
          · exact Or.inl hfp
          · exact Or.inr hp
          · exact absurd hp hnot
      · rw [pageCount_cons (le_refl _)]
        rw [pow_succ] at hcount
        omega
    · rw [Nat.min_eq_left hsmall]
      refine Or.inl ⟨fun p => ?_, ?_, ⟨s', o', ?_, hle, hcov⟩, fun heq hmem => ?_⟩
      · rw [freePage_cons]
        exact hsame.page p
      · rw [pageCount_cons hsmall]
        exact hcount
      · rw [Function.update_self]
        exact List.mem_cons_self
      · obtain rfl : o' = o := by omega
        obtain ⟨rfl, rfl⟩ := hstay rfl
        exact hlast hsmall hmem

/-! ### Allocating a block -/

/-- Halving a pending block and putting its upper half back. -/
theorem Pending.split {b : Buddy} {F : Nat → List Nat} {N s o : Nat} (h : Pending b F N s (o + 1))
    (ho : o ≤ MAX_ORDER) (hroom : blockCount F < b.totalPages) :
    let b' := (b.insertFreeNode (s + pow2 o) o).2
    let F' := Function.update F o ((s + 2 ^ o) :: F o)
    b'.bitmap = b.bitmap ∧ b'.totalPages = b.totalPages ∧ Pending b' F' N s o ∧
      SameFree F F' s (o + 1) s o := by
  have hpow : 2 ^ (o + 1) = 2 ^ o + 2 ^ o := by ring
  have halves : ∀ p, Covers s (o + 1) p ↔ Covers s o p ∨ Covers (s + 2 ^ o) o p := fun p => by
    simp only [Covers, hpow]
    omega
  have hdisj : ∀ p, Covers s o p → ¬Covers (s + 2 ^ o) o p := fun p hp hp' =>
    absurd hp.2 (Nat.not_lt.mpr hp'.1)
  have hdvd : 2 ^ o ∣ s := (Nat.pow_dvd_pow 2 (Nat.le_succ o)).trans h.aligned
  have hbound := h.bound
  obtain ⟨-, hbm, htp, hfree⟩ :=
    insertFreeNode_spec (s := s + 2 ^ o) h.free ho hroom
  rw [pow2_eq]
  refine ⟨hbm, htp, ⟨hfree, ?_, hdvd, by omega, fun p hp hfp => ?_⟩,
    fun p => ?_, ?_⟩
  · exact h.blocks.cons ho (hdvd.add (dvd_refl _)) (by omega)
      fun p hp => h.apart p ((halves p).mpr (Or.inr hp))
  · rcases freePage_cons.mp hfp with hfp | hfp
    · exact h.apart p ((halves p).mpr (Or.inl hp)) hfp
    · exact hdisj p hp hfp
  · rw [freePage_cons, halves]
    tauto
  · rw [pageCount_cons ho]
    omega

/-- `allocateBlock` either changes nothing, every list from its order on being empty, or takes an
aligned block out of the free pages. -/
theorem allocateBlockLoop_spec (fuel o : Nat) {b : Buddy} {F : Nat → List Nat} {N : Nat}
    (hfree : FreeAt b F) (hblocks : Blocks F N) (hroom : pageCount F ≤ b.totalPages)
    (hfuel : MAX_ORDER < fuel + o) :
    (allocateBlockLoop fuel b o = (none, b) ∧ ∀ o', o ≤ o' → F o' = []) ∨
      ∃ s b' F', allocateBlockLoop fuel b o = (some s, b') ∧ o ≤ MAX_ORDER ∧
        b'.bitmap = b.bitmap ∧ b'.totalPages = b.totalPages ∧ Pending b' F' N s o ∧
        (∀ p, FreePage F' p ∨ Covers s o p ↔ FreePage F p) ∧
        pageCount F' + 2 ^ o = pageCount F := by
  induction fuel generalizing o with
  | zero => exact Or.inl ⟨rfl, fun o' ho' => hfree.empty (by omega)⟩
  | succ fuel ih =>
      rw [allocateBlockLoop]
      by_cases hbig : o > MAX_ORDER
      · rw [if_pos hbig]
        exact Or.inl ⟨rfl, fun o' ho' => hfree.empty (by omega)⟩
      rw [if_neg hbig]
      have ho : o ≤ MAX_ORDER := Nat.le_of_not_lt hbig
      rcases freeArea_spec hfree ho with ⟨hhead, hnil⟩ | ⟨i, rest, hhead, hF, hbm, htp, hfree'⟩
      · rw [hhead]
        rcases ih (o + 1) (by omega) with
          ⟨hnone, hempty⟩ | ⟨s, b₁, F₁, hsome, -, hbm, htp, hpend, hpage, hcount⟩
        · rw [hnone]
          refine Or.inl ⟨rfl, fun o' ho' => ?_⟩
          rcases eq_or_lt_of_le ho' with rfl | hlt
          · exact hnil
          · exact hempty o' hlt
        · rw [hsome]
          have hroom' : blockCount F₁ < b₁.totalPages := by
            have hb := blockCount_le_pageCount F₁
            have hpos : 0 < 2 ^ (o + 1) := Nat.two_pow_pos _
            omega
          obtain ⟨hbm', htp', hpend', hsame⟩ := hpend.split ho hroom'
          exact Or.inr ⟨s, _, _, rfl, ho, hbm'.trans hbm, htp'.trans htp, hpend',
            fun p => (hsame.page p).trans (hpage p), hsame.count.trans hcount⟩
      · rw [hhead]
        have hmem : (b.freeNodes i).startIndex ∈ F o := by
          rw [hF]
          exact List.mem_cons_self
        have hrest : (F o).erase (b.freeNodes i).startIndex = rest := by
          rw [hF, List.erase_cons_head]
        rw [← hrest] at hfree'
        have hpage : ∀ p, FreePage (Function.update F o ((F o).erase (b.freeNodes i).startIndex)) p ↔
            FreePage F p ∧ ¬Covers (b.freeNodes i).startIndex o p :=
          fun p => freePage_erase hblocks hmem
        refine Or.inr ⟨_, _, _, rfl, ho, hbm, htp, ⟨hfree', hblocks.erase _ _,
          hblocks.aligned hmem, hblocks.bound hmem, fun p hp hfp => ((hpage p).mp hfp).2 hp⟩,
          fun p => ?_, pageCount_erase ho hmem⟩
        rw [hpage]
        constructor
        · rintro (⟨hfp, -⟩ | hp)
          · exact hfp
          · exact ⟨o, _, hmem, hp⟩
        · intro hfp
          by_cases hp : Covers (b.freeNodes i).startIndex o p
          · exact Or.inr hp
          · exact Or.inl ⟨hfp, hp⟩

/-! ### What the lists show -/

/-- Node `i` is on the list `freeArea[o]`. -/
def Listed (b : Buddy) (o i : Nat) : Prop :=
  o ≤ MAX_ORDER ∧ ∃ l, Walk b.nextOf (b.freeArea o) l ∧ i ∈ l

/-- Page `p` lies in the block of a listed node. -/
def InBlock (b : Buddy) (p : Nat) : Prop := ∃ o i, b.Listed o i ∧ Covers (b.startOf i) o p

/-- Page `p` lies in the block of exactly one listed node. -/
def InOneBlock (b : Buddy) (p : Nat) : Prop :=
  ∃! x : Nat × Nat, b.Listed x.1 x.2 ∧ Covers (b.startOf x.2) x.1 p

theorem FreeLists.listed_iff {b : Buddy} {L : Nat → List Nat} (h : FreeLists b L) {o i : Nat} :
    b.Listed o i ↔ i ∈ L o := by
  constructor
  · rintro ⟨ho, l, hl, hi⟩
    rwa [(h.linked o ho).walk.unique hl]
  · intro hi
    exact ⟨h.le_order hi, L o, (h.linked o (h.le_order hi)).walk, hi⟩

theorem inBlock_iff {b : Buddy} {F : Nat → List Nat} {p : Nat} (h : FreeAt b F) :
    b.InBlock p ↔ FreePage F p := by
  obtain ⟨L, hL, hF⟩ := h
  constructor
  · rintro ⟨o, i, hi, hp⟩
    exact ⟨o, b.startOf i, by rw [hF]; exact List.mem_map_of_mem (hL.listed_iff.mp hi), hp⟩
  · rintro ⟨o, s, hs, hp⟩
    rw [hF] at hs
    obtain ⟨i, hi, rfl⟩ := List.mem_map.mp hs
    exact ⟨o, i, hL.listed_iff.mpr hi, hp⟩

theorem inOneBlock_iff {b : Buddy} {F : Nat → List Nat} {N p : Nat} (h : FreeAt b F)
    (hblocks : Blocks F N) : b.InOneBlock p ↔ FreePage F p := by
  rw [← inBlock_iff h]
  constructor
  · rintro ⟨x, hx, -⟩
    exact ⟨x.1, x.2, hx⟩
  · rintro ⟨o, i, hi, hp⟩
    refine ⟨(o, i), ⟨hi, hp⟩, fun y ⟨hj, hq⟩ => ?_⟩
    obtain ⟨o', j⟩ := y
    obtain ⟨L, hL, hF⟩ := h
    have hi' := hL.listed_iff.mp hi
    have hj' := hL.listed_iff.mp hj
    have hsi : b.startOf i ∈ F o := by rw [hF]; exact List.mem_map_of_mem hi'
    have hsj : b.startOf j ∈ F o' := by rw [hF]; exact List.mem_map_of_mem hj'
    obtain ⟨rfl, hs⟩ := hblocks.unique hsj hsi hq hp
    have hnodup := hblocks.nodup o'
    rw [hF] at hnodup
    exact Prod.ext rfl (List.inj_on_of_nodup_map hnodup hj' hi' hs)

theorem dumpLoop_eq {b : Buddy} {o fuel n : Nat} {head : Option Nat} {l : List Nat}
    (h : Walk b.nextOf head l) (hfuel : l.length < fuel) :
    PAddressPool.dumpLoop b o fuel head n = n + l.length * 2 ^ o := by
  induction l generalizing fuel head n with
  | nil =>
      obtain rfl : head = none := h
      cases fuel <;> simp [PAddressPool.dumpLoop]
  | cons i l ih =>
      obtain ⟨rfl, hl⟩ := h
      cases fuel with
      | zero => simp at hfuel
      | succ fuel =>
          rw [List.length_cons] at hfuel ⊢
          have hn : (b.freeNodes i).next = b.nextOf i := rfl
          rw [PAddressPool.dumpLoop, hn, ih hl (Nat.lt_of_succ_lt_succ hfuel), Nat.one_shiftLeft]
          ring

theorem foldl_range_add (f : Nat → Nat) (n : Nat) :
    (List.range n).foldl (fun acc o => acc + f o) 0 = ∑ o ∈ Finset.range n, f o := by
  induction n with
  | zero => rfl
  | succ n ih =>
      rw [List.range_succ, List.foldl_append, ih, Finset.sum_range_succ, List.foldl_cons,
        List.foldl_nil]

/-- `dump` counts the free pages. -/
theorem dump_eq {p : PAddressPool} {F : Nat → List Nat} (h : FreeAt p.resources F) :
    p.dump = pageCount F := by
  obtain ⟨L, hL, hF⟩ := h
  have hloop : ∀ o ∈ List.range (MAX_ORDER + 1), ∀ n, PAddressPool.dumpLoop p.resources o
      (p.resources.totalPages + 1) (p.resources.freeArea o) n = n + (F o).length * 2 ^ o :=
    fun o ho n => by
      have hle : o ≤ MAX_ORDER := Nat.lt_succ_iff.mp (List.mem_range.mp ho)
      rw [dumpLoop_eq (hL.linked o hle).walk (Nat.lt_succ_of_le (hL.length_le o)), hF,
        List.length_map]
  rw [PAddressPool.dump, List.foldl_ext _ (fun n o => n + (F o).length * 2 ^ o) 0
    fun n o ho => hloop o ho n]
  exact foldl_range_add _ _

open Classical in
/-- The free blocks being disjoint, `pageCount` is the number of free pages. -/
theorem pageCount_eq_card {F : Nat → List Nat} {N : Nat} (h : Blocks F N) :
    pageCount F = ((Finset.range N).filter (FreePage F)).card := by
  let blocks := (Finset.range (MAX_ORDER + 1)).sigma fun o => (F o).toFinset
  have hmem : ∀ x : (_ : Nat) × Nat, x ∈ blocks ↔ x.2 ∈ F x.1 := fun x => by
    simp only [blocks, Finset.mem_sigma, Finset.mem_range, List.mem_toFinset, and_iff_right_iff_imp]
    exact fun hx => Nat.lt_succ_of_le (h.le_order hx)
  have hcard : ∀ x ∈ blocks, (Finset.Ico x.2 (x.2 + 2 ^ x.1)).card = 2 ^ x.1 := fun x _ => by
    rw [Nat.card_Ico, Nat.add_sub_cancel_left]
  have hdisj : (blocks : Set ((_ : Nat) × Nat)).PairwiseDisjoint
      fun x => Finset.Ico x.2 (x.2 + 2 ^ x.1) := by
    rintro ⟨o, s⟩ hx ⟨o', s'⟩ hx' hne
    refine Finset.disjoint_left.mpr fun p hp hp' => hne ?_
    obtain ⟨rfl, rfl⟩ := h.unique ((hmem _).mp hx) ((hmem _).mp hx') (Finset.mem_Ico.mp hp)
      (Finset.mem_Ico.mp hp')
    rfl
  have hunion : blocks.biUnion (fun x => Finset.Ico x.2 (x.2 + 2 ^ x.1)) =
      (Finset.range N).filter (FreePage F) := by
    ext p
    simp only [Finset.mem_biUnion, hmem, Finset.mem_Ico, Finset.mem_filter, Finset.mem_range]
    constructor
    · rintro ⟨⟨o, s⟩, hs, hp⟩
      exact ⟨lt_of_lt_of_le hp.2 (h.bound hs), o, s, hs, hp⟩
    · rintro ⟨-, o, s, hs, hp⟩
      exact ⟨⟨o, s⟩, hs, hp⟩
  rw [← hunion, Finset.card_biUnion hdisj, Finset.sum_congr rfl hcard, Finset.sum_sigma, pageCount]
  refine Finset.sum_congr rfl fun o _ => ?_
  have hsum : ∑ s ∈ (F o).toFinset, 2 ^ o = (F o).length * 2 ^ o := by
    rw [Finset.sum_const, List.toFinset_card_of_nodup (h.nodup o), smul_eq_mul]
  exact hsum.symm

end SysuOs.Buddy
