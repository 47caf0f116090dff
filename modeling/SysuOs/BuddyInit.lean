import Mathlib
import SysuOs.BuddyBlocks

/-! What `Buddy::initialize` makes of a page bitmap. Its scan hands aligned runs of free pages to
`releaseBlock`. Two free blocks of order 10 that are buddies are merged there into one of order 11,
of which only the first half is put back: of every aligned run of 2048 free pages the second half is
lost, and of no other page. -/

namespace SysuOs

open Dyadic

/-! ### The logarithm -/

theorem log2Loop_eq {fuel num : Nat} {res : Int} (hpos : 0 < num) (hfuel : num ≤ fuel) :
    log2Loop fuel num res = res + Nat.log 2 num := by
  induction fuel generalizing num res with
  | zero => omega
  | succ fuel ih =>
      rw [log2Loop]
      by_cases hlt : num > 1
      · have hhalf : num >>> 1 = num / 2 := Nat.shiftRight_one num
        rw [if_pos hlt, hhalf, ih (by omega) (by omega), Nat.log_of_one_lt_of_le (by omega) hlt]
        push_cast
        ring
      · have hone : num = 1 := by omega
        rw [if_neg hlt, hone]
        simp

theorem log2_eq {num : Nat} (hpos : 0 < num) : log2 num = Nat.log 2 num := by
  have hnot : ¬(num : Int) ≤ 0 := by omega
  rw [log2, if_neg hnot, Int.toNat_natCast, log2Loop_eq hpos (le_refl num), zero_add]

/-- `count2order` is the least order whose blocks have `count` pages. -/
theorem count2order_le_iff {count : Int} (hpos : 1 ≤ count) (o : Nat) :
    count2order count ≤ o ↔ count ≤ 2 ^ o := by
  obtain ⟨n, rfl⟩ := Int.eq_ofNat_of_zero_le (by omega : 0 ≤ count)
  have hn : 1 ≤ n := by exact_mod_cast hpos
  have hcast : ((n : Int) ≤ 2 ^ o) ↔ n ≤ 2 ^ o := by exact_mod_cast Iff.rfl
  rw [hcast, count2order]
  rcases eq_or_lt_of_le hn with rfl | hlt
  · simpa [log2] using Nat.one_le_two_pow
  · have hpred : ((n : Int) - 1) = ((n - 1 : Nat) : Int) := by omega
    have hsucc : ((Nat.log 2 (n - 1) : Int) + 1).toNat = Nat.log 2 (n - 1) + 1 := by omega
    rw [hpred, log2_eq (by omega), hsucc, Nat.succ_le_iff, Nat.log_lt_iff_lt_pow (by omega) (by omega)]
    omega

namespace Buddy

/-! ### Probing a run -/

theorem and_shift_eq_zero {s m : Nat} (hs : 2 ^ m ∣ s) : s &&& 1 <<< m = 0 ↔ 2 ^ (m + 1) ∣ s := by
  obtain ⟨q, rfl⟩ := hs
  have hpos : 0 < 2 ^ m := Nat.two_pow_pos m
  rw [Nat.one_shiftLeft, Nat.and_two_pow, Nat.testBit_two_pow_mul, pow_succ,
    Nat.mul_dvd_mul_iff_left hpos]
  simp [Nat.dvd_iff_mod_eq_zero, Nat.testBit_zero]

/-- The loop ends at an order the page is aligned to, and short of `MAX_ORDER` only when the page
is not aligned to the next one. -/
theorem maxOrderLoop_spec (fuel : Nat) {s m : Nat} (hs : 2 ^ m ∣ s) (hm : m ≤ MAX_ORDER)
    (hfuel : MAX_ORDER ≤ m + fuel) :
    2 ^ maxOrderLoop s fuel m ∣ s ∧ maxOrderLoop s fuel m ≤ MAX_ORDER ∧
      (2 ^ MAX_ORDER ∣ s → maxOrderLoop s fuel m = MAX_ORDER) := by
  induction fuel generalizing m with
  | zero => exact ⟨hs, hm, fun _ => by rw [maxOrderLoop]; omega⟩
  | succ fuel ih =>
      rw [maxOrderLoop]
      by_cases hgo : s &&& 1 <<< m = 0 ∧ m < MAX_ORDER
      · rw [if_pos hgo]
        exact ih ((and_shift_eq_zero hs).mp hgo.1) (by omega) (by omega)
      · rw [if_neg hgo]
        refine ⟨hs, hm, fun hall => ?_⟩
        by_contra hne
        have hlt : m < MAX_ORDER := by omega
        exact hgo ⟨(and_shift_eq_zero hs).mpr ((Nat.pow_dvd_pow 2 hlt).trans hall), hlt⟩

/-- The pages passed over are free and within the probed order; a run that is free throughout is
passed over as a whole. -/
theorem probeLoop_spec (b : Buddy) (s m fuel idx : Nat) :
    idx ≤ b.probeLoop s m fuel idx ∧ b.probeLoop s m fuel idx ≤ idx + fuel ∧
      (∀ p, idx ≤ p → p < b.probeLoop s m fuel idx →
        getMap b.bitmap p = false ∧ p < b.totalPages) ∧
      ((∀ p, idx ≤ p → p < idx + fuel →
        getMap b.bitmap p = false ∧ p - s + 1 ≤ pow2 m ∧ p < b.totalPages) →
        b.probeLoop s m fuel idx = idx + fuel) := by
  induction fuel generalizing idx with
  | zero => exact ⟨le_refl _, le_refl _, fun p hp hlt => absurd hlt (Nat.not_lt.mpr hp), fun _ => rfl⟩
  | succ fuel ih =>
      rw [probeLoop]
      by_cases hgo : getMap b.bitmap idx = false ∧ idx - s + 1 ≤ pow2 m ∧ idx < b.totalPages
      · obtain ⟨hle, hle', hpass, hall⟩ := @ih (idx + 1)
        rw [if_pos hgo]
        refine ⟨by omega, by omega, fun p hp hlt => ?_, fun hrun => ?_⟩
        · rcases eq_or_lt_of_le hp with rfl | hp'
          · exact ⟨hgo.1, hgo.2.2⟩
          · exact hpass p hp' hlt
        · rw [hall fun p hp hlt => hrun p (by omega) (by omega)]
          omega
      · rw [if_neg hgo]
        refine ⟨le_refl _, by omega, fun p hp hlt => absurd hlt (Nat.not_lt.mpr hp), fun hrun => ?_⟩
        exact absurd (hrun idx (le_refl _) (by omega)) hgo

/-- The block probed from a free page is aligned, free and inside the managed pages, and it has
order 10 whenever an aligned run of 1024 free pages starts there. -/
theorem probeOrder_spec {b : Buddy} {s : Nat} (hs : s < b.totalPages)
    (hfree : getMap b.bitmap s = false) :
    2 ^ b.probeOrder s ∣ s ∧ b.probeOrder s ≤ MAX_ORDER ∧
      (∀ p, Covers s (b.probeOrder s) p → getMap b.bitmap p = false ∧ p < b.totalPages) ∧
      (2 ^ MAX_ORDER ∣ s → (∀ p, Covers s MAX_ORDER p →
        getMap b.bitmap p = false ∧ p < b.totalPages) → b.probeOrder s = MAX_ORDER) := by
  obtain ⟨hdvd, hmax, hten⟩ := maxOrderLoop_spec (s := s) (m := 0) MAX_ORDER
    (by simp) (Nat.zero_le _) (by omega)
  set m := maxOrderLoop s MAX_ORDER 0 with hm
  obtain ⟨-, hle', hpass, hall⟩ := probeLoop_spec b s m (pow2 m) s
  have hpow : pow2 m = 2 ^ m := pow2_eq m
  have hfirst : s + 1 ≤ b.probeLoop s m (pow2 m) s := by
    obtain ⟨fuel, hfuel⟩ : ∃ fuel, pow2 m = fuel + 1 :=
      ⟨pow2 m - 1, by have := Nat.two_pow_pos m; omega⟩
    rw [hfuel, probeLoop, if_pos ⟨hfree, by omega, hs⟩]
    exact (probeLoop_spec b s m _ _).1
  set stop := b.probeLoop s m (pow2 m) s with hstop
  have hlen : ((stop - 1 - s + 1 : Nat) : Int) = ((stop - s : Nat) : Int) := by omega
  have horder : b.probeOrder s = Nat.log 2 (stop - s) := by
    have hdef : b.probeOrder s = (log2 ((stop - 1 - s + 1 : Nat) : Int)).toNat := rfl
    rw [hdef, hlen, log2_eq (by omega), Int.toNat_natCast]
  have hlog : 2 ^ b.probeOrder s ≤ stop - s := horder ▸ Nat.pow_log_le_self 2 (by omega)
  have hle : b.probeOrder s ≤ m := by
    rw [horder]
    calc Nat.log 2 (stop - s) ≤ Nat.log 2 (2 ^ m) := Nat.log_mono_right (by omega)
      _ = m := Nat.log_pow (by omega) m
  refine ⟨(Nat.pow_dvd_pow 2 hle).trans hdvd, hle.trans hmax, fun p hp => ?_, fun halign hrun => ?_⟩
  · have hend := hp.2
    exact hpass p hp.1 (by omega)
  · have hmten := hten halign
    have hwhole : stop = s + pow2 m := hall fun p hp hlt => by
      have hcov : Covers s MAX_ORDER p := ⟨hp, by rwa [hpow, hmten] at hlt⟩
      exact ⟨(hrun p hcov).1, by omega, (hrun p hcov).2⟩
    rw [horder, hwhole, Nat.add_sub_cancel_left, hpow, Nat.log_pow (by omega), hmten]

/-! ### The scan -/

/-- The `k`-th aligned run of 2048 pages is managed and free throughout. -/
def FreeChunk (map : ByteMap) (N k : Nat) : Prop :=
  ∀ p, p / 2 ^ (MAX_ORDER + 1) = k → p < N ∧ getMap map p = false

/-- The pages `initialize` loses: the second halves of the free chunks. -/
def Lost (map : ByteMap) (N p : Nat) : Prop :=
  FreeChunk map N (p / 2 ^ (MAX_ORDER + 1)) ∧ 2 ^ MAX_ORDER ≤ p % 2 ^ (MAX_ORDER + 1)

/-- The scan has reached page `idx`. Inside a free chunk it stops only in the middle, and then the
first half is a block of its own. -/
structure Scan (b : Buddy) (F : Nat → List Nat) (idx : Nat) : Prop where
  le : idx ≤ b.totalPages
  free : FreeAt b F
  blocks : Blocks F idx
  page : ∀ p, p < idx →
    (FreePage F p ↔ getMap b.bitmap p = false ∧ ¬Lost b.bitmap b.totalPages p)
  half : FreeChunk b.bitmap b.totalPages (idx / 2 ^ (MAX_ORDER + 1)) →
    idx % 2 ^ (MAX_ORDER + 1) ≠ 0 →
      idx % 2 ^ (MAX_ORDER + 1) = 2 ^ MAX_ORDER ∧ idx - 2 ^ MAX_ORDER ∈ F MAX_ORDER
  count : pageCount F ≤ idx

theorem Blocks.mono {F : Nat → List Nat} {N N' : Nat} (h : Blocks F N) (hle : N ≤ N') :
    Blocks F N' :=
  { h with bound := fun hs => (h.bound hs).trans hle }

theorem Blocks.lt {F : Nat → List Nat} {N p : Nat} (h : Blocks F N) (hp : FreePage F p) : p < N := by
  obtain ⟨o, s, hs, hcov⟩ := hp
  exact lt_of_lt_of_le hcov.2 (h.bound hs)

/-- An occupied page is passed over. -/
theorem Scan.skip {b : Buddy} {F : Nat → List Nat} {idx : Nat} (h : Scan b F idx)
    (hlt : idx < b.totalPages) (hused : getMap b.bitmap idx = true) : Scan b F (idx + 1) := by
  have hchunk : ¬FreeChunk b.bitmap b.totalPages (idx / 2 ^ (MAX_ORDER + 1)) := fun hfree => by
    rw [(hfree idx rfl).2] at hused
    simp at hused
  refine ⟨hlt, h.free, h.blocks.mono (Nat.le_succ _), fun p hp => ?_, fun hfree hmod => ?_, ?_⟩
  · rcases Nat.lt_succ_iff_lt_or_eq.mp hp with hp | rfl
    · exact h.page p hp
    · constructor
      · intro hfp
        exact absurd (h.blocks.lt hfp) (lt_irrefl p)
      · rintro ⟨hfree, -⟩
        rw [hfree] at hused
        simp at hused
  · have hsame : (idx + 1) / 2 ^ (MAX_ORDER + 1) = idx / 2 ^ (MAX_ORDER + 1) := by
      simp only [MAX_ORDER] at hmod ⊢
      omega
    exact absurd (hsame ▸ hfree) hchunk
  · exact h.count.trans (Nat.le_succ _)

/-- Pages of an aligned block of order at most 11 lie in one chunk. -/
theorem chunk_eq {s o p : Nat} (hs : 2 ^ o ∣ s) (ho : o ≤ MAX_ORDER) (hp : Covers s o p) :
    p / 2 ^ (MAX_ORDER + 1) = s / 2 ^ (MAX_ORDER + 1) := by
  obtain ⟨d, hd⟩ := Nat.exists_eq_add_of_le (ho.trans (Nat.le_succ MAX_ORDER))
  have hsplit : MAX_ORDER + 1 = o + d := hd
  rw [hsplit, pow_add, ← Nat.div_div_eq_div_mul, ← Nat.div_div_eq_div_mul, (covers_iff_div hs).mp hp]

/-- A block that does not end its chunk is followed by a page of the same chunk. -/
theorem chunk_end {s o : Nat} (hs : 2 ^ o ∣ s) (ho : o ≤ MAX_ORDER)
    (hmod : (s + 2 ^ o) % 2 ^ (MAX_ORDER + 1) ≠ 0) :
    (s + 2 ^ o) / 2 ^ (MAX_ORDER + 1) = s / 2 ^ (MAX_ORDER + 1) := by
  have hnext : 2 ^ o ∣ 2 ^ (MAX_ORDER + 1) * (s / 2 ^ (MAX_ORDER + 1) + 1) :=
    (Nat.pow_dvd_pow 2 (ho.trans (Nat.le_succ _))).trans (Nat.dvd_mul_right _ _)
  have hend := end_le_of_lt hs hnext (Nat.lt_mul_div_succ s (Nat.two_pow_pos _))
  simp only [MAX_ORDER] at hmod hend ⊢
  omega

/-- In a free chunk the scan stands at one of the halves. -/
theorem Scan.aligned {b : Buddy} {F : Nat → List Nat} {idx : Nat} (h : Scan b F idx)
    (hchunk : FreeChunk b.bitmap b.totalPages (idx / 2 ^ (MAX_ORDER + 1))) :
    2 ^ MAX_ORDER ∣ idx := by
  by_cases hmod : idx % 2 ^ (MAX_ORDER + 1) = 0
  · simp only [MAX_ORDER] at hmod ⊢
    omega
  · have hhalf := (h.half hchunk hmod).1
    simp only [MAX_ORDER] at hhalf ⊢
    omega

/-- The block of free pages probed at `idx` is pending. -/
theorem Scan.pending {b : Buddy} {F : Nat → List Nat} {idx : Nat} (h : Scan b F idx)
    (hlt : idx < b.totalPages) (hfree : getMap b.bitmap idx = false) :
    Pending b F (idx + 2 ^ b.probeOrder idx) idx (b.probeOrder idx) ∧
      idx + 2 ^ b.probeOrder idx ≤ b.totalPages := by
  obtain ⟨hdvd, -, hrun, -⟩ := probeOrder_spec hlt hfree
  have hpos : 0 < 2 ^ b.probeOrder idx := Nat.two_pow_pos _
  have hlast := (hrun (idx + 2 ^ b.probeOrder idx - 1) ⟨by omega, by omega⟩).2
  refine ⟨⟨h.free, h.blocks.mono (Nat.le_add_right _ _), hdvd, le_refl _, fun p hp hfp => ?_⟩,
    by omega⟩
  exact absurd (h.blocks.lt hfp) (Nat.not_lt.mpr hp.1)

/-- The free pages of a chunk on its way back, all known to be free, make up a free chunk. -/
theorem Scan.freeChunk {b : Buddy} {F : Nat → List Nat} {idx t : Nat} (h : Scan b F idx)
    (hlt : idx < b.totalPages) (hfree : getMap b.bitmap idx = false)
    (ht : 2 ^ (MAX_ORDER + 1) ∣ t) (hcov : Covers t (MAX_ORDER + 1) idx)
    (hall : ∀ p, Covers t (MAX_ORDER + 1) p → FreePage F p ∨ Covers idx (b.probeOrder idx) p) :
    FreeChunk b.bitmap b.totalPages (idx / 2 ^ (MAX_ORDER + 1)) := by
  obtain ⟨-, -, hrun, -⟩ := probeOrder_spec hlt hfree
  intro p hp
  have hpt : Covers t (MAX_ORDER + 1) p := by
    rw [covers_iff_div ht] at hcov ⊢
    rw [hp, hcov]
  rcases hall p hpt with hfp | hp'
  · have hbelow := h.blocks.lt hfp
    exact ⟨hbelow.trans hlt, ((h.page p hbelow).mp hfp).1⟩
  · exact ⟨(hrun p hp').2, (hrun p hp').1⟩

/-- A run of free pages is released. -/
theorem Scan.release {b : Buddy} {F : Nat → List Nat} {idx : Nat} (h : Scan b F idx)
    (hlt : idx < b.totalPages) (hfree : getMap b.bitmap idx = false) :
    ∃ F', Scan (b.releaseBlock idx (b.probeOrder idx)) F' (idx + 2 ^ b.probeOrder idx) ∧
      (b.releaseBlock idx (b.probeOrder idx)).bitmap = b.bitmap ∧
      (b.releaseBlock idx (b.probeOrder idx)).totalPages = b.totalPages := by
  obtain ⟨hdvd, hmax, hrun, hten⟩ := probeOrder_spec hlt hfree
  obtain ⟨hpend, hend⟩ := h.pending hlt hfree
  have hcount := h.count
  have hchunkOrder : FreeChunk b.bitmap b.totalPages (idx / 2 ^ (MAX_ORDER + 1)) →
      b.probeOrder idx = MAX_ORDER := fun hchunk =>
    hten (h.aligned hchunk) fun p hp =>
      (hchunk p (chunk_eq (h.aligned hchunk) (le_refl _) hp)).symm
  obtain ⟨F', hbm, htp, hfree', hblocks', hout⟩ := releaseBlock_spec hpend hmax (by omega)
  generalize hb' : b.releaseBlock idx (b.probeOrder idx) = b' at hbm htp hfree' ⊢
  generalize ho : b.probeOrder idx = o at *
  have hend' : idx + 2 ^ o ≤ b'.totalPages := by rwa [htp]
  have hsplit : ∀ p, p < idx + 2 ^ o → p < idx ∨ Covers idx o p := fun p hp =>
    (Nat.lt_or_ge p idx).imp_right fun hle => ⟨hle, hp⟩
  have hpage : ∀ p, p < idx → (FreePage F p ∨ Covers idx o p ↔
      getMap b.bitmap p = false ∧ ¬Lost b.bitmap b.totalPages p) := fun p hp => by
    rw [← h.page p hp, or_iff_left fun hcov => absurd hp (Nat.not_lt.mpr hcov.1)]
  rcases hout with ⟨hpage', hcount', ⟨s, o', hs, hoo', hcov⟩, hbuddy⟩ |
    ⟨t, ht, hcov, hall, hpage', hcount'⟩
  · -- every page of the run has become free
    have hhalf : FreeChunk b.bitmap b.totalPages (idx / 2 ^ (MAX_ORDER + 1)) →
        idx % 2 ^ (MAX_ORDER + 1) = 0 := fun hchunk => by
      by_contra hmod
      obtain ⟨hmid, hmem⟩ := h.half hchunk hmod
      have hb : buddy idx MAX_ORDER = idx - 2 ^ MAX_ORDER := by
        rcases buddy_cases (h.aligned hchunk) with ⟨hlow, -⟩ | ⟨-, hup⟩
        · exact absurd (Nat.dvd_iff_mod_eq_zero.mp hlow) hmod
        · omega
      have hused := hbuddy (hchunkOrder hchunk) (by rwa [hchunkOrder hchunk, hb])
      rw [hchunkOrder hchunk, hb, (hchunk _ ?_).2] at hused
      · simp at hused
      · simp only [MAX_ORDER] at hmid ⊢
        omega
    refine ⟨F', ⟨hend', hfree', hblocks', fun p hp => ?_, fun hchunk hmod => ?_, by omega⟩, hbm, htp⟩
    · rw [hbm, htp, hpage']
      rcases hsplit p hp with hp' | hp'
      · exact hpage p hp'
      · refine iff_of_true (Or.inr hp') ⟨(hrun p hp').1, fun hlost => ?_⟩
        have hpc := chunk_eq hdvd hmax hp'
        have hchunk := hlost.1
        rw [hpc] at hchunk
        have hmod := hhalf hchunk
        have hend := hp'.2
        have hge := hp'.1
        have hlarge := hlost.2
        rw [hchunkOrder hchunk] at hend
        simp only [MAX_ORDER] at hpc hmod hend hlarge
        omega
    · rw [hbm, htp] at hchunk
      rw [chunk_end hdvd hmax hmod] at hchunk
      obtain rfl := hchunkOrder hchunk
      have ho' : o' = MAX_ORDER := le_antisymm (hblocks'.le_order hs) hoo'
      have hmod' := hhalf hchunk
      subst ho'
      have hsidx : s = idx := eq_of_meet (hblocks'.aligned hs) hdvd hcov (covers_start _ _)
      refine ⟨?_, ?_⟩
      · simp only [MAX_ORDER] at hmod' ⊢
        omega
      · rw [Nat.add_sub_cancel, ← hsidx]
        exact hs
  · -- the run completes a free chunk, whose second half is lost
    have hchunk := h.freeChunk hlt hfree ht hcov (by rwa [ho])
    obtain rfl := hchunkOrder hchunk
    have hidx : idx = t + 2 ^ MAX_ORDER := by
      have hup := hall (t + 2 ^ MAX_ORDER) (covers_halves.mpr (Or.inr (covers_start _ _)))
      obtain ⟨q, rfl⟩ := ht
      obtain ⟨r, rfl⟩ := hdvd
      rcases hup with hfp | hup
      · have hbelow := h.blocks.lt hfp
        simp only [MAX_ORDER, Covers] at hcov hbelow ⊢
        omega
      · simp only [MAX_ORDER, Covers] at hcov hup ⊢
        omega
    refine ⟨F', ⟨hend', hfree', hblocks', fun p hp => ?_, fun _ hmod => ?_, ?_⟩, hbm, htp⟩
    · rw [hbm, htp, hpage', ← hidx]
      rcases hsplit p hp with hp' | hp'
      · rw [hpage p hp']
        exact and_iff_left fun hcov' => absurd hp' (Nat.not_lt.mpr hcov'.1)
      · refine iff_of_false (fun hnot => hnot.2 hp') fun hnot => hnot.2 ?_
        have hpc := chunk_eq hdvd hmax hp'
        refine ⟨by rwa [hpc], ?_⟩
        have hge := hp'.1
        obtain ⟨q, rfl⟩ := ht
        simp only [MAX_ORDER] at hpc hidx ⊢
        omega
    · obtain ⟨q, rfl⟩ := ht
      simp only [MAX_ORDER] at hidx hmod
      omega
    · omega

/-- The scan runs through all pages. -/
theorem initLoop_spec (fuel : Nat) {b : Buddy} {F : Nat → List Nat} {idx : Nat} (h : Scan b F idx)
    (hfuel : b.totalPages ≤ idx + fuel) :
    ∃ F', Scan (initLoop fuel b idx) F' b.totalPages ∧ (initLoop fuel b idx).bitmap = b.bitmap ∧
      (initLoop fuel b idx).totalPages = b.totalPages := by
  induction fuel generalizing b F idx with
  | zero =>
      obtain rfl : idx = b.totalPages := le_antisymm h.le hfuel
      exact ⟨F, h, rfl, rfl⟩
  | succ fuel ih =>
      rw [initLoop]
      by_cases hlt : idx < b.totalPages
      · rw [if_pos hlt]
        by_cases hused : getMap b.bitmap idx = true
        · rw [if_pos hused]
          exact ih (h.skip hlt hused) (by omega)
        · rw [if_neg hused]
          obtain ⟨F', hscan, hbm, htp⟩ := h.release hlt (by simpa using hused)
          have hpos : 0 < 2 ^ b.probeOrder idx := Nat.two_pow_pos _
          simp only [pow2_eq]
          rw [← hbm, ← htp]
          exact ih hscan (by omega)
      · rw [if_neg hlt]
        obtain rfl : idx = b.totalPages := le_antisymm h.le (Nat.le_of_not_lt hlt)
        exact ⟨F, h, rfl, rfl⟩

/-- The lists and the marks are empty, as `initialize` expects them. -/
structure Unused (b : Buddy) (freeBitMap : ByteMap) (N : Nat) : Prop where
  freeArea : ∀ o, o ≤ MAX_ORDER → b.freeArea o = none
  freeBitMap : ∀ i, i < N → getMap freeBitMap i = false

theorem Unused.freeAt {b b' : Buddy} {N : Nat} {freeBitMap : ByteMap}
    (h : Unused b freeBitMap N) (ha : b'.freeArea = b.freeArea) (hm : b'.freeBitmap = freeBitMap)
    (ht : b'.totalPages = N) : FreeAt b' fun _ => [] := by
  refine ⟨fun _ => [], ⟨fun o ho => ⟨?_, trivial⟩, fun o i hi => by simp at hi, fun _ _ => rfl,
    fun i => ?_⟩, fun _ => rfl⟩
  · rw [ha]
    exact h.freeArea o ho
  · rw [hm, ht]
    constructor
    · rintro ⟨o, hi⟩
      simp at hi
    · rintro ⟨hlt, hset⟩
      rw [h.freeBitMap i hlt] at hset
      simp at hset

/-- The scan starts with empty lists. -/
theorem scan_start {b : Buddy} {N : Nat} {freeBitMap : ByteMap} (h : Unused b freeBitMap N)
    (bitmap : ByteMap) (freeNodes : Nat → FreeNode) :
    Scan { b with bitmap, totalPages := N, freeBitmap := freeBitMap, freeNodes } (fun _ => []) 0 := by
  refine ⟨Nat.zero_le _, h.freeAt rfl rfl rfl, ⟨?_, ?_, ?_, fun _ => List.nodup_nil, ?_⟩,
    fun p hp => absurd hp (Nat.not_lt_zero p), fun _ hmod => absurd (Nat.zero_mod _) hmod, ?_⟩
  · simp
  · simp
  · simp
  · simp
  · simp [pageCount]

/-- `initialize` frees exactly the free pages that are not lost. -/
theorem init_spec {b : Buddy} {N : Nat} {freeBitMap : ByteMap} (h : Unused b freeBitMap N)
    (bitmap : ByteMap) (freeNodes : Nat → FreeNode) :
    ∃ F, FreeAt (b.init bitmap N freeBitMap freeNodes) F ∧ Blocks F N ∧ pageCount F ≤ N ∧
      (b.init bitmap N freeBitMap freeNodes).bitmap = bitmap ∧
      (b.init bitmap N freeBitMap freeNodes).totalPages = N ∧
      ∀ p, FreePage F p ↔ p < N ∧ getMap bitmap p = false ∧ ¬Lost bitmap N p := by
  have hscan := scan_start h bitmap freeNodes
  obtain ⟨F, hend, hbm, htp⟩ := initLoop_spec N hscan (Nat.le_add_left _ _)
  refine ⟨F, hend.free, hend.blocks, hend.count, hbm, htp, fun p => ?_⟩
  have hpage := hend.page p
  rw [hbm, htp] at hpage
  constructor
  · intro hfp
    have hlt := hend.blocks.lt hfp
    exact ⟨hlt, (hpage hlt).mp hfp⟩
  · rintro ⟨hlt, hfree⟩
    exact (hpage hlt).mpr hfree

/-! ### When nothing is lost -/

/-- The free blocks partition the pages that `bitmap` shows as free. -/
structure Partition (b : Buddy) (bitmap : ByteMap) (N : Nat) : Prop where
  cover : ∀ p, p < N → getMap bitmap p = false → b.InOneBlock p
  sound : ∀ p, b.InBlock p → p < N ∧ getMap bitmap p = false

theorem init_partition {b : Buddy} {N : Nat} {freeBitMap : ByteMap} (h : Unused b freeBitMap N)
    (bitmap : ByteMap) (freeNodes : Nat → FreeNode) :
    Partition (b.init bitmap N freeBitMap freeNodes) bitmap N ↔ ∀ k, ¬FreeChunk bitmap N k := by
  obtain ⟨F, hfree, hblocks, -, -, -, hpage⟩ := init_spec h bitmap freeNodes
  constructor
  · intro hpart k hchunk
    have hp : (2 ^ (MAX_ORDER + 1) * k + 2 ^ MAX_ORDER) / 2 ^ (MAX_ORDER + 1) = k := by
      simp only [MAX_ORDER]
      omega
    obtain ⟨hlt, hbit⟩ := hchunk _ hp
    have hone := (inOneBlock_iff hfree hblocks).mp (hpart.cover _ hlt hbit)
    refine ((hpage _).mp hone).2.2 ⟨by rwa [hp], ?_⟩
    simp only [MAX_ORDER]
    omega
  · intro hnone
    refine ⟨fun p hlt hbit => ?_, fun p hin => ?_⟩
    · exact (inOneBlock_iff hfree hblocks).mpr ((hpage p).mpr ⟨hlt, hbit, fun hl => hnone _ hl.1⟩)
    · obtain ⟨hlt, hbit, -⟩ := (hpage p).mp ((inBlock_iff hfree).mp hin)
      exact ⟨hlt, hbit⟩

open Classical in
/-- With an all-zero bitmap and no chunk of 2048 pages, every page is counted. -/
theorem init_dump {p : PAddressPool} {N : Nat} {freeBitMap : ByteMap}
    (h : Unused p.resources freeBitMap N) {bitmap : ByteMap} (freeNodes : Nat → FreeNode)
    (startAddress : Nat) (hzero : ∀ i, i < N → getMap bitmap i = false)
    (hnone : ∀ k, ¬FreeChunk bitmap N k) :
    (p.init bitmap N startAddress freeBitMap freeNodes).dump = N := by
  obtain ⟨F, hfree, hblocks, -, -, -, hpage⟩ := init_spec h bitmap freeNodes
  have hdump : (p.init bitmap N startAddress freeBitMap freeNodes).dump = pageCount F := dump_eq hfree
  have hall : (Finset.range N).filter (FreePage F) = Finset.range N :=
    Finset.filter_true_of_mem fun i hi => by
      have hlt := Finset.mem_range.mp hi
      exact (hpage i).mpr ⟨hlt, hzero i hlt, fun hl => hnone _ hl.1⟩
  rw [hdump, pageCount_eq_card hblocks, hall, Finset.card_range]

/-- What a pool is to look like after its initialisation. -/
structure NothingLost (p : PAddressPool) (bitmap : ByteMap) (N : Nat) : Prop where
  partition : p.resources.Partition bitmap N
  dump : (∀ i, i < N → getMap bitmap i = false) → p.dump = N

theorem not_nothingLost {p : PAddressPool} {N k : Nat} {bitmap freeBitMap : ByteMap}
    (h : Unused p.resources freeBitMap N) (hchunk : FreeChunk bitmap N k)
    (freeNodes : Nat → FreeNode) (startAddress : Nat) :
    ¬NothingLost (p.init bitmap N startAddress freeBitMap freeNodes) bitmap N := fun hlost =>
  (init_partition h bitmap freeNodes).mp hlost.partition k hchunk

/-- `initialize` neither loses nor duplicates a page exactly when no aligned run of 2048 pages is
free throughout. -/
theorem init_nothingLost_iff {p : PAddressPool} {N : Nat} {freeBitMap : ByteMap}
    (h : Unused p.resources freeBitMap N) (bitmap : ByteMap) (freeNodes : Nat → FreeNode)
    (startAddress : Nat) :
    NothingLost (p.init bitmap N startAddress freeBitMap freeNodes) bitmap N ↔
      ∀ k, ¬FreeChunk bitmap N k := by
  constructor
  · intro hlost k hchunk
    exact not_nothingLost h hchunk freeNodes startAddress hlost
  · intro hnone
    exact ⟨(init_partition h bitmap freeNodes).mpr hnone,
      fun hzero => init_dump h freeNodes startAddress hzero hnone⟩

/-- A pool no page of which has been handed out yet. -/
def freshPool : PAddressPool :=
  { resources := { freeBitmap := fun _ => 0, freeNodes := fun _ => default, freeArea := fun _ => none,
                   bitmap := fun _ => 0, totalPages := 0 }
    startAddress := 0
    length := 0 }

theorem getMap_zero (i : Nat) : getMap (fun _ => 0) i = false := by
  simp [getMap]

theorem unused_freshPool (N : Nat) : Unused freshPool.resources (fun _ => 0) N :=
  ⟨fun _ _ => rfl, fun i _ => getMap_zero i⟩

/-- A pool of 1500 free pages is set up without a loss. -/
theorem init_nothingLost_small :
    NothingLost (freshPool.init (fun _ => 0) 1500 0x200000 (fun _ => 0) fun _ => default)
      (fun _ => 0) 1500 :=
  (init_nothingLost_iff (unused_freshPool 1500) (fun _ => 0) (fun _ => default) 0x200000).mpr
    fun k hchunk => by
      have hlast : (2 ^ (MAX_ORDER + 1) * k + 2047) / 2 ^ (MAX_ORDER + 1) = k := by
        simp only [MAX_ORDER]
        omega
      have hlt := (hchunk _ hlast).1
      omega

/-- Of 2048 free pages the second half is lost. -/
theorem init_loses_half :
    ¬NothingLost (freshPool.init (fun _ => 0) 2048 0x200000 (fun _ => 0) fun _ => default)
      (fun _ => 0) 2048 := by
  refine not_nothingLost (k := 0) (unused_freshPool 2048) (fun p hp => ⟨?_, getMap_zero p⟩) _ _
  simp only [MAX_ORDER] at hp
  omega

end Buddy

end SysuOs
