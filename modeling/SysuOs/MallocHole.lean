import Mathlib
import SysuOs.MallocHeap

/-! Heaps with one block under work. The block counts as one in use, but its tags and payload may hold anything,
and so may the bit of the next header that speaks of it. Free neighbours are absorbed into it, and it is
closed again as a block in use or as a free one. -/

namespace SysuOs

namespace Malloc

/-- The state of the first of some blocks; the epilogue counts as in use. -/
def headAlloc : List Block → Bool
  | [] => true
  | b :: _ => b.alloc

/-- The tags of the blocks `l` before a block under work of `size` bytes and of the blocks `r` after it. -/
structure Beside (m : Memory) (tableBase : Nat) (l : List Block) (size : Nat) (r : List Block) : Prop where
  arena : Arena tableBase (l ++ ⟨size, true⟩ :: r)
  prologueHeader : m (cell tableBase MAX_GROUP + WSIZE * 1) = PACK DSIZE true true
  prologueFooter : m (cell tableBase MAX_GROUP + WSIZE * 2) = PACK DSIZE true true
  left : Tags m (firstBlock tableBase) true l
  right : ∃ prevAlloc, Tags m (firstBlock tableBase + total l + size) prevAlloc r ∧
    Epilogue m (firstBlock tableBase + total l + size + total r) (lastAlloc prevAlloc r)

/-- A heap of the blocks `l`, a block under work, and the blocks `r`. -/
structure Hole (m : Memory) (tableBase : Nat) (l : List Block) (size : Nat) (r : List Block) : Prop
    extends Beside m tableBase l size r where
  lists : Listed m tableBase (l ++ ⟨size, true⟩ :: r)

/-- The payloads of the blocks in use beside the block under work. -/
def Kept (tableBase : Nat) (l : List Block) (size : Nat) (r : List Block) (a : Nat) : Prop :=
  ∃ q b, ((q, b) ∈ placed (firstBlock tableBase) l ∨
      (q, b) ∈ placed (firstBlock tableBase + total l + size) r) ∧
    b.alloc = true ∧ q ≤ a ∧ a < HDRP (q + b.size)

section
variable {m : Memory} {tableBase size : Nat} {l r bs : List Block} {G : Nat → List Nat}

theorem Lists.mono {nodes nodes' : Set Nat} (h : Lists m tableBase nodes G)
    (hmem : ∀ i < MAX_GROUP, ∀ p ∈ G i, p ∈ nodes') : Lists m tableBase nodes' G where
  walk := h.walk
  back := h.back
  mem := hmem
  disjoint := h.disjoint

/-- A word of links is a cell or lies in a free block. -/
theorem Exact.linkWord {base a : Nat} (h : Exact base bs G) (ha : LinkWord tableBase G a) :
    (∃ i < MAX_GROUP, a = cell tableBase i) ∨
      ∃ q b, (q, b) ∈ placed base bs ∧ b.alloc = false ∧ (a = q ∨ a = q + DSIZE) := by
  obtain ⟨i, hi, hcell | ⟨p, hp, ha⟩⟩ := ha
  · exact Or.inl ⟨i, hi, hcell⟩
  · obtain ⟨b, hb, hfree, -⟩ := (h i hi p).mp hp
    exact Or.inr ⟨p, b, hb, hfree, ha⟩

/-- Words that are no links whatever is listed: those of tags, the payloads of blocks in use, and what comes after
the two links of any block. -/
def Unlinked (tableBase : Nat) (bs : List Block) (a : Nat) : Prop :=
  (a = cell tableBase MAX_GROUP + WSIZE * 1 ∨ a = cell tableBase MAX_GROUP + WSIZE * 2 ∨
      a = HDRP (firstBlock tableBase + total bs)) ∨
    ∃ q b, (q, b) ∈ placed (firstBlock tableBase) bs ∧
      (a = HDRP q ∨ a = q + b.size - DSIZE ∨ a = HDRP (q + b.size) ∨
        b.alloc = true ∧ q ≤ a ∧ a < HDRP (q + b.size) ∨ q + 2 * DSIZE ≤ a ∧ a < HDRP (q + b.size))

theorem Exact.not_linkWord (harena : Arena tableBase bs) (h : Exact (firstBlock tableBase) bs G) {a : Nat}
    (ha : Unlinked tableBase bs a) : ¬LinkWord tableBase G a := by
  intro hlink
  rcases ha with ha | ⟨q, b, hb, ha⟩
  · rcases h.linkWord hlink with ⟨i, hi, rfl⟩ | ⟨q, c, hc, -, ha'⟩
    · simp only [firstBlock, HDRP, WSIZE, cell, MAX_GROUP, DSIZE] at *
      omega
    · have hbounds := placed_bounds harena.sizes hc
      simp only [firstBlock, HDRP, WSIZE, DSIZE, cell, MAX_GROUP] at *
      omega
  have hbounds := placed_bounds harena.sizes hb
  rcases h.linkWord hlink with ⟨i, hi, rfl⟩ | ⟨q', c, hc, hfree, ha'⟩
  · simp only [firstBlock, HDRP, WSIZE, DSIZE, cell, MAX_GROUP] at *
    omega
  · have hbounds' := placed_bounds harena.sizes hc
    have hapart := placed_apart harena.sizes hb hc
    simp only [firstBlock, HDRP, WSIZE, DSIZE] at *
    rcases hapart with ⟨rfl, rfl⟩ | h' | h'
    · rcases ha with ha | ha | ha | ⟨halloc, -⟩ | ha
      · omega
      · omega
      · omega
      · rw [halloc] at hfree
        cases hfree
      · omega
    · omega
    · omega

theorem placed_left {b : Block} {q : Nat} {c : Block} (h : (q, c) ∈ placed (firstBlock tableBase) l) :
    (q, c) ∈ placed (firstBlock tableBase) (l ++ b :: r) := by
  rw [placed_append]
  exact List.mem_append_left _ h

theorem placed_right {b : Block} {q : Nat} {c : Block}
    (h : (q, c) ∈ placed (firstBlock tableBase + total l + b.size) r) :
    (q, c) ∈ placed (firstBlock tableBase) (l ++ b :: r) := by
  rw [placed_append, placed_cons]
  exact List.mem_append_right _ (List.mem_cons_of_mem _ h)

theorem placed_mid {b : Block} :
    (firstBlock tableBase + total l, b) ∈ placed (firstBlock tableBase) (l ++ b :: r) := by
  rw [placed_append, placed_cons]
  exact List.mem_append_right _ List.mem_cons_self

theorem mem_placed_iff {b : Block} {q : Nat} {c : Block} :
    (q, c) ∈ placed (firstBlock tableBase) (l ++ b :: r) ↔ (q, c) ∈ placed (firstBlock tableBase) l ∨
      (q = firstBlock tableBase + total l ∧ c = b) ∨
      (q, c) ∈ placed (firstBlock tableBase + total l + b.size) r := by
  rw [placed_append, placed_cons, List.mem_append, List.mem_cons, Prod.mk.injEq]

theorem Arena.ne_mid {b c : Block} {q : Nat} (h : Arena tableBase (l ++ b :: r))
    (hc : (q, c) ∈ placed (firstBlock tableBase) l ∨ (q, c) ∈ placed (firstBlock tableBase + total l + b.size) r) :
    q ≠ firstBlock tableBase + total l := by
  have hmin := h.sizes.right.head.2
  rcases hc with hc | hc
  · have hbounds := placed_bounds h.sizes.left hc
    omega
  · have hbounds := placed_bounds h.sizes.right.tail hc
    omega

/-! ### The lists, while one block is taken out or put in -/

/-- What is listed depends on where the free blocks are only. -/
theorem Listed.congr_free {bs' : List Block} (h : Listed m tableBase bs)
    (hfree : ∀ q c, c.alloc = false →
      ((q, c) ∈ placed (firstBlock tableBase) bs' ↔ (q, c) ∈ placed (firstBlock tableBase) bs)) :
    Listed m tableBase bs' := by
  obtain ⟨G, hlists, hexact⟩ := h
  have hexact' : Exact (firstBlock tableBase) bs' G := by
    intro i hi p
    rw [hexact i hi p]
    constructor
    · rintro ⟨b, hb, hf, hgroup⟩
      exact ⟨b, (hfree p b hf).mpr hb, hf, hgroup⟩
    · rintro ⟨b, hb, hf, hgroup⟩
      exact ⟨b, (hfree p b hf).mp hb, hf, hgroup⟩
  refine ⟨G, hlists.mono fun i hi p hp => ?_, hexact'⟩
  obtain ⟨b, hb, -⟩ := (hexact' i hi p).mp hp
  exact ⟨b, hb⟩

theorem Listed.remove {f : Block} (harena : Arena tableBase (l ++ f :: r)) (h : Listed m tableBase (l ++ f :: r))
    (hf : f.alloc = false) {x : Nat} (hx : x = firstBlock tableBase + total l) :
    Listed (removeFreelist m x) tableBase (l ++ ⟨f.size, true⟩ :: r) ∧
      (removeFreelist m x x = 0#32 ∧ removeFreelist m x (x + DSIZE) = 0#32) ∧
      ∀ a, Unlinked tableBase (l ++ f :: r) a → removeFreelist m x a = m a := by
  obtain ⟨G, hlists, hexact⟩ := h
  have hi := group_lt f.size
  have hmem : x ∈ G (group f.size) := (hexact _ hi x).mpr ⟨f, hx ▸ placed_mid, hf, rfl⟩
  obtain ⟨y, hy, -⟩ := hlists.prev_spec hi hmem
  have hexact' : Exact (firstBlock tableBase) (l ++ ⟨f.size, true⟩ :: r)
      (Function.update G (group f.size) ((G (group f.size)).erase x)) := by
    intro j hj p
    have hbefore : p ∈ Function.update G (group f.size) ((G (group f.size)).erase x) j ↔ p ≠ x ∧ p ∈ G j := by
      by_cases hji : j = group f.size
      · subst hji
        rw [Function.update_self, (hlists.walk _ hi).nodup.mem_erase_iff]
      · rw [Function.update_of_ne hji]
        refine ⟨fun hp => ⟨fun he => ?_, hp⟩, And.right⟩
        exact hji (hlists.disjoint j hj _ hi x (he ▸ hp) hmem)
    rw [hbefore, hexact j hj p]
    constructor
    · rintro ⟨hpx, c, hc, hfree, hgroup⟩
      refine ⟨c, ?_, hfree, hgroup⟩
      rcases mem_placed_iff.mp hc with hc | ⟨hp, -⟩ | hc
      · exact mem_placed_iff.mpr (Or.inl hc)
      · exact absurd (hp.trans hx.symm) hpx
      · exact mem_placed_iff.mpr (Or.inr (Or.inr hc))
    · rintro ⟨c, hc, hfree, hgroup⟩
      rcases mem_placed_iff.mp hc with hc | ⟨-, rfl⟩ | hc
      · exact ⟨hx ▸ harena.ne_mid (Or.inl hc), c, mem_placed_iff.mpr (Or.inl hc), hfree, hgroup⟩
      · cases hfree
      · exact ⟨hx ▸ harena.ne_mid (Or.inr hc), c, mem_placed_iff.mpr (Or.inr (Or.inr hc)), hfree, hgroup⟩
  refine ⟨⟨_, (hlists.remove harena.spaced hi hmem).mono fun j hj p hp => ?_, hexact'⟩, removeFreelist_self hy,
    fun a ha => hlists.removeFreelist_frame hi hmem (hexact.not_linkWord harena ha)⟩
  obtain ⟨c, hc, -⟩ := (hexact' j hj p).mp hp
  exact ⟨c, hc⟩

theorem Arena.replace {b b' : Block} (h : Arena tableBase (l ++ b :: r)) (hsize : b'.size = b.size) :
    Arena tableBase (l ++ b' :: r) := by
  refine ⟨h.table, h.aligned, h.sizes.left.append (Sizes.cons ?_ h.sizes.right.tail), ?_⟩
  · rw [hsize]
    exact h.sizes.right.head
  · have hfits := h.fits
    rw [total_append, total_cons] at hfits ⊢
    rw [hsize]
    exact hfits

theorem Listed.append {size : Nat} (harena : Arena tableBase (l ++ ⟨size, true⟩ :: r))
    (h : Listed m tableBase (l ++ ⟨size, true⟩ :: r)) {x : Nat} (hx : x = firstBlock tableBase + total l)
    (hnext : m x = 0#32) (hprev : m (x + DSIZE) = 0#32) :
    appendFreelist m tableBase x size = .ret (appended m tableBase x size) ∧
      Listed (appended m tableBase x size) tableBase (l ++ ⟨size, false⟩ :: r) ∧
      ∀ a, Unlinked tableBase (l ++ ⟨size, false⟩ :: r) a → appended m tableBase x size a = m a := by
  obtain ⟨G, hlists, hexact⟩ := h
  have hi := group_lt size
  have hnode : x ∈ payloads tableBase (l ++ ⟨size, true⟩ :: r) := ⟨_, hx ▸ placed_mid⟩
  have hnew : ∀ i < MAX_GROUP, x ∉ G i := by
    intro i hi hmem
    obtain ⟨c, hc, hfree, -⟩ := (hexact i hi x).mp hmem
    rcases mem_placed_iff.mp hc with hc | ⟨-, rfl⟩ | hc
    · exact harena.ne_mid (Or.inl hc) hx
    · cases hfree
    · exact harena.ne_mid (Or.inr hc) hx
  have hexact' : Exact (firstBlock tableBase) (l ++ ⟨size, false⟩ :: r)
      (Function.update G (group size) (x :: G (group size))) := by
    intro j hj p
    have hbefore : p ∈ Function.update G (group size) (x :: G (group size)) j ↔
        p = x ∧ group size = j ∨ p ∈ G j := by
      by_cases hji : j = group size
      · subst hji
        rw [Function.update_self, List.mem_cons]
        simp
      · rw [Function.update_of_ne hji]
        simp [Ne.symm hji]
    rw [hbefore, hexact j hj p]
    constructor
    · rintro (⟨rfl, hgroup⟩ | ⟨c, hc, hfree, hgroup⟩)
      · exact ⟨⟨size, false⟩, hx ▸ placed_mid, rfl, hgroup⟩
      · refine ⟨c, ?_, hfree, hgroup⟩
        rcases mem_placed_iff.mp hc with hc | ⟨-, rfl⟩ | hc
        · exact mem_placed_iff.mpr (Or.inl hc)
        · cases hfree
        · exact mem_placed_iff.mpr (Or.inr (Or.inr hc))
    · rintro ⟨c, hc, hfree, hgroup⟩
      rcases mem_placed_iff.mp hc with hc | ⟨hp, rfl⟩ | hc
      · exact Or.inr ⟨c, mem_placed_iff.mpr (Or.inl hc), hfree, hgroup⟩
      · exact Or.inl ⟨hp.trans hx.symm, hgroup⟩
      · exact Or.inr ⟨c, mem_placed_iff.mpr (Or.inr (Or.inr hc)), hfree, hgroup⟩
  refine ⟨appendFreelist_eq harena.spaced hnode harena.sizes.right.head.2 hnext hprev,
    ⟨_, (hlists.append harena.spaced hnode hnew).mono fun j hj p hp => ?_, hexact'⟩, fun a ha => ?_⟩
  · obtain ⟨c, hc, -⟩ := (hexact' j hj p).mp hp
    exact ⟨c, hc⟩
  · have harena' : Arena tableBase (l ++ ⟨size, false⟩ :: r) := harena.replace rfl
    have hout := hexact'.not_linkWord harena' ha
    have hmem : x ∈ Function.update G (group size) (x :: G (group size)) (group size) := by
      rw [Function.update_self]
      exact List.mem_cons_self
    refine hlists.appended_frame (fun hlink => hout ?_) (fun he => hout ?_) fun he => hout ?_
    · obtain ⟨j, hj, hcase⟩ := hlink
      refine ⟨j, hj, hcase.imp_right fun ⟨p, hp, hap⟩ => ⟨p, ?_, hap⟩⟩
      by_cases hji : j = group size
      · subst hji
        rw [Function.update_self]
        exact List.mem_cons_of_mem _ hp
      · rwa [Function.update_of_ne hji]
    · exact ⟨_, hi, Or.inr ⟨x, hmem, Or.inl he⟩⟩
    · exact ⟨_, hi, Or.inr ⟨x, hmem, Or.inr he⟩⟩

/-- The blocks beside the block under work are placed before and after it. -/
theorem Hole.beside (h : Hole m tableBase l size r) {q : Nat} {b : Block} :
    ((q, b) ∈ placed (firstBlock tableBase) l → q + b.size ≤ firstBlock tableBase + total l) ∧
      ((q, b) ∈ placed (firstBlock tableBase + total l + size) r → firstBlock tableBase + total l + size ≤ q) :=
  ⟨fun hq => (placed_bounds h.arena.sizes.left hq).2.1, fun hq => (placed_bounds h.arena.sizes.right.tail hq).1⟩

/-- What lies outside a block under work: words that its own words, up to the next header, are not among. -/
theorem Hole.congr {m' : Memory} (h : Hole m tableBase l size r)
    (heq : ∀ a, ¬(HDRP (firstBlock tableBase + total l) ≤ a ∧ a < HDRP (firstBlock tableBase + total l + size)) →
      m' a = m a) : Hole m' tableBase l size r := by
  have hsizes := h.arena.sizes
  have hmid := placed_bounds hsizes (@placed_mid tableBase l r ⟨size, true⟩)
  obtain ⟨prevAlloc, htags, hepilogue⟩ := h.right
  obtain ⟨G, hlists, hexact⟩ := h.lists
  have htable := h.arena.table
  refine ⟨⟨h.arena, ?_, ?_, h.left.congr fun a ha => heq a fun hin => ?_,
    ⟨prevAlloc, htags.congr fun a ha => heq a fun hin => ?_, ?_⟩⟩,
    ⟨G, hlists.congr fun a ha => heq a fun hin => ?_, hexact⟩⟩
  · rw [heq _ (by simp only [firstBlock, HDRP, WSIZE, DSIZE] at *; omega), h.prologueHeader]
  · rw [heq _ (by simp only [firstBlock, HDRP, WSIZE, DSIZE] at *; omega), h.prologueFooter]
  · obtain ⟨q, b, hb, ha⟩ := ha
    have hbounds := placed_bounds hsizes.left hb
    simp only [firstBlock, HDRP, WSIZE, DSIZE] at *
    omega
  · obtain ⟨q, b, hb, ha⟩ := ha
    have hbounds := placed_bounds hsizes.right.tail hb
    simp only [firstBlock, HDRP, WSIZE, DSIZE] at *
    omega
  · rw [Epilogue, heq _ (by simp only [firstBlock, HDRP, WSIZE, DSIZE] at *; omega), hepilogue]
  · rcases hexact.linkWord ha with ⟨i, hi, rfl⟩ | ⟨q, b, hb, hfree, ha'⟩
    · simp only [firstBlock, HDRP, WSIZE, DSIZE, cell, MAX_GROUP] at *
      omega
    · have hbounds := placed_bounds hsizes hb
      rcases mem_placed_iff.mp hb with hb | ⟨-, rfl⟩ | hb
      · have hle := h.beside.1 hb
        simp only [firstBlock, HDRP, WSIZE, DSIZE] at *
        omega
      · cases hfree
      · have hle := h.beside.2 hb
        simp only [firstBlock, HDRP, WSIZE, DSIZE] at *
        omega

/-- Where only links change, the tags stay. -/
theorem Beside.unlinked {m' : Memory} {b : Block} (h : Beside m tableBase l size r) (hsize : b.size = size)
    (hframe : ∀ a, Unlinked tableBase (l ++ b :: r) a → m' a = m a) : Beside m' tableBase l size r := by
  subst hsize
  obtain ⟨prevAlloc, htags, hepilogue⟩ := h.right
  refine ⟨h.arena, ?_, ?_, h.left.congr fun a ha => hframe a ?_,
    ⟨prevAlloc, htags.congr fun a ha => hframe a ?_, ?_⟩⟩
  · rw [hframe _ (Or.inl (Or.inl rfl)), h.prologueHeader]
  · rw [hframe _ (Or.inl (Or.inr (Or.inl rfl))), h.prologueFooter]
  · obtain ⟨q, c, hc, ha⟩ := ha
    exact Or.inr ⟨q, c, placed_left hc, ha.elim Or.inl fun ha => Or.inr (Or.inl ha.2)⟩
  · obtain ⟨q, c, hc, ha⟩ := ha
    exact Or.inr ⟨q, c, placed_right hc, ha.elim Or.inl fun ha => Or.inr (Or.inl ha.2)⟩
  · rw [Epilogue, hframe _ (Or.inl (Or.inr (Or.inr ?_)))]
    · exact hepilogue
    · simp [Nat.add_assoc]

/-! ### Absorbing free neighbours -/

theorem Arena.merge {a b : Block} {alloc : Bool} (h : Arena tableBase (l ++ a :: b :: r)) :
    Arena tableBase (l ++ ⟨a.size + b.size, alloc⟩ :: r) := by
  have ha := h.sizes.right.head
  have hb := h.sizes.right.tail.head
  refine ⟨h.table, h.aligned, h.sizes.left.append (Sizes.cons ⟨?_, ?_⟩ h.sizes.right.tail.tail), ?_⟩
  · show (a.size + b.size) % 8 = 0
    omega
  · show 24 ≤ a.size + b.size
    omega
  · have hfits := h.fits
    simp only [total_append, total_cons] at hfits ⊢
    omega

/-- Two blocks under work side by side are one. -/
theorem Listed.merge {a b : Nat} (h : Listed m tableBase (l ++ ⟨a, true⟩ :: ⟨b, true⟩ :: r)) :
    Listed m tableBase (l ++ ⟨a + b, true⟩ :: r) := by
  refine h.congr_free fun q c hfree => ?_
  have hne : ∀ n, c ≠ ⟨n, true⟩ := by
    rintro n rfl
    cases hfree
  rw [mem_placed_iff, mem_placed_iff, placed_cons, List.mem_cons, Prod.mk.injEq, ← Nat.add_assoc]
  simp only [hne, and_false, false_or]

theorem Hole.absorbRight {f : Block} (h : Hole m tableBase l size (f :: r)) (hf : f.alloc = false) {x : Nat}
    (hx : x = firstBlock tableBase + total l + size) :
    Hole (removeFreelist m x) tableBase l (size + f.size) r ∧
      ∀ a, Unlinked tableBase (l ++ ⟨size, true⟩ :: f :: r) a → removeFreelist m x a = m a := by
  have hassoc : l ++ ⟨size, true⟩ :: f :: r = (l ++ [⟨size, true⟩]) ++ f :: r := by simp
  have hx' : x = firstBlock tableBase + total (l ++ [⟨size, true⟩]) := by
    rw [hx]
    simp [Nat.add_assoc]
  have harena := h.arena
  have hlists := h.lists
  rw [hassoc] at harena hlists
  obtain ⟨hlisted, -, hframe⟩ := hlists.remove harena hf hx'
  rw [← hassoc] at hframe
  rw [List.append_assoc, List.singleton_append] at hlisted
  obtain ⟨prevAlloc, htags, hepilogue⟩ := h.right
  rw [total_cons, ← Nat.add_assoc] at hepilogue
  refine ⟨⟨⟨h.arena.merge, ?_, ?_, h.left.congr fun a ha => hframe a ?_, ⟨f.alloc, ?_, ?_⟩⟩, hlisted.merge⟩, hframe⟩
  · rw [hframe _ (Or.inl (Or.inl rfl)), h.prologueHeader]
  · rw [hframe _ (Or.inl (Or.inr (Or.inl rfl))), h.prologueFooter]
  · obtain ⟨q, b, hb, ha⟩ := ha
    exact Or.inr ⟨q, b, placed_left hb, ha.elim Or.inl fun ha => Or.inr (Or.inl ha.2)⟩
  · rw [← Nat.add_assoc]
    refine htags.2.2.congr fun a ha => hframe a ?_
    obtain ⟨q, b, hb, ha⟩ := ha
    refine Or.inr ⟨q, b, placed_right ?_, ha.elim Or.inl fun ha => Or.inr (Or.inl ha.2)⟩
    exact List.mem_cons_of_mem _ hb
  · rw [← Nat.add_assoc, Epilogue, hframe _ (Or.inl (Or.inr (Or.inr ?_)))]
    · exact hepilogue
    · simp [Nat.add_assoc]

theorem Hole.absorbLeft {f : Block} (h : Hole m tableBase (l ++ [f]) size r) (hf : f.alloc = false) {x : Nat}
    (hx : x = firstBlock tableBase + total l) :
    Hole (removeFreelist m x) tableBase l (f.size + size) r ∧
      (removeFreelist m x x = 0#32 ∧ removeFreelist m x (x + DSIZE) = 0#32) ∧
      ∀ a, Unlinked tableBase ((l ++ [f]) ++ ⟨size, true⟩ :: r) a → removeFreelist m x a = m a := by
  have hassoc : (l ++ [f]) ++ ⟨size, true⟩ :: r = l ++ f :: ⟨size, true⟩ :: r := by simp
  have hend : firstBlock tableBase + total (l ++ [f]) = firstBlock tableBase + total l + f.size := by
    simp [Nat.add_assoc]
  have harena := h.arena
  have hlists := h.lists
  rw [hassoc] at harena hlists
  obtain ⟨hlisted, hself, hframe⟩ := hlists.remove harena hf hx
  rw [← hassoc] at hframe
  obtain ⟨prevAlloc, htags, hepilogue⟩ := h.right
  rw [hend, Nat.add_assoc (firstBlock tableBase + total l)] at htags hepilogue
  refine ⟨⟨⟨harena.merge, ?_, ?_, (Tags.append.mp h.left).1.congr fun a ha => hframe a ?_,
    ⟨prevAlloc, htags.congr fun a ha => hframe a ?_, ?_⟩⟩, hlisted.merge⟩, hself, hframe⟩
  · rw [hframe _ (Or.inl (Or.inl rfl)), h.prologueHeader]
  · rw [hframe _ (Or.inl (Or.inr (Or.inl rfl))), h.prologueFooter]
  · obtain ⟨q, b, hb, ha⟩ := ha
    refine Or.inr ⟨q, b, placed_left (placed_left hb), ha.elim Or.inl fun ha => Or.inr (Or.inl ha.2)⟩
  · obtain ⟨q, b, hb, ha⟩ := ha
    refine Or.inr ⟨q, b, placed_right ?_, ha.elim Or.inl fun ha => Or.inr (Or.inl ha.2)⟩
    rwa [hend, Nat.add_assoc (firstBlock tableBase + total l)]
  · rw [Epilogue, hframe _ (Or.inl (Or.inr (Or.inr ?_)))]
    · exact hepilogue
    · simp [Nat.add_assoc]

/-! ### Closing -/

/-- The bit of the next header is set last. -/
theorem setPrevAlloc_right {p : Nat} {prevAlloc prevAlloc' : Bool} (hsizes : Sizes r) (hp : WSIZE ≤ p)
    (hlt : p + total r < 2 ^ 32) (htags : Tags m p prevAlloc r)
    (hepilogue : Epilogue m (p + total r) (lastAlloc prevAlloc r)) (hhead : headAlloc r = true) :
    Tags (SET_PREVALLOC m (HDRP p) prevAlloc') p prevAlloc' r ∧
      Epilogue (SET_PREVALLOC m (HDRP p) prevAlloc') (p + total r) (lastAlloc prevAlloc' r) := by
  cases r with
  | nil =>
      refine ⟨trivial, ?_⟩
      rw [total_nil, Nat.add_zero] at hepilogue ⊢
      rw [Epilogue, SET_PREVALLOC, PUT_self, hepilogue]
      exact setPrevAlloc_PACK ⟨rfl, by decide⟩ _ _ _
  | cons b r =>
      obtain ⟨halign, hmin⟩ := hsizes.head
      rw [total_cons] at hlt
      obtain ⟨hheader, hfree, htail⟩ := htags
      have hb : b.alloc = true := hhead
      refine ⟨⟨?_, fun hb' => ?_, htail.congr fun a ha => PUT_of_ne ?_⟩, ?_⟩
      · rw [SET_PREVALLOC, PUT_self, hheader]
        exact setPrevAlloc_PACK ⟨halign, by omega⟩ _ _ _
      · rw [hb] at hb'
        cases hb'
      · obtain ⟨q, c, hc, ha⟩ := ha
        have hbounds := placed_bounds hsizes.tail hc
        simp only [HDRP, WSIZE, DSIZE] at *
        omega
      · have hne : HDRP (p + total (b :: r)) ≠ HDRP p := by
          simp only [HDRP, WSIZE, total_cons] at *
          omega
        rw [Epilogue, SET_PREVALLOC, PUT_of_ne hne]
        exact hepilogue

/-- A block under work whose tags are written and whose state the lists know. -/
theorem Beside.close {alloc : Bool} (h : Beside m tableBase l size r) (hhead : headAlloc r = true)
    (hlists : Listed m tableBase (l ++ ⟨size, alloc⟩ :: r))
    (hheader : m (HDRP (firstBlock tableBase + total l)) = PACK size alloc (lastAlloc true l))
    (hfree : alloc = false → lastAlloc true l = true ∧
      m (firstBlock tableBase + total l + size - DSIZE) = PACK size alloc (lastAlloc true l)) :
    WellFormed (SET_PREVALLOC m (HDRP (firstBlock tableBase + total l + size)) alloc) tableBase
      (l ++ ⟨size, alloc⟩ :: r) := by
  have harena : Arena tableBase (l ++ ⟨size, alloc⟩ :: r) := h.arena.replace rfl
  have hsizes := harena.sizes
  have hfits := harena.fits
  rw [total_append, total_cons] at hfits
  have hmin := hsizes.right.head.2
  obtain ⟨prevAlloc, htags, hepilogue⟩ := h.right
  have hfirst : WSIZE ≤ firstBlock tableBase := by
    simp only [firstBlock, WSIZE, DSIZE]
    omega
  obtain ⟨htags', hepilogue'⟩ := @setPrevAlloc_right m r _ _ alloc hsizes.right.tail (by omega)
    (by dsimp only at hfits; omega) htags hepilogue hhead
  -- the one word that changes
  have hkeep : ∀ a, a ≠ HDRP (firstBlock tableBase + total l + size) →
      SET_PREVALLOC m (HDRP (firstBlock tableBase + total l + size)) alloc a = m a := fun a ha => PUT_of_ne ha
  have hown : ∀ a, a = HDRP (firstBlock tableBase + total l) ∨ a = firstBlock tableBase + total l + size - DSIZE →
      a ≠ HDRP (firstBlock tableBase + total l + size) := by
    intro a ha
    dsimp only at hmin
    simp only [HDRP, WSIZE, DSIZE] at *
    omega
  refine ⟨harena, ?_, ?_, Tags.append.mpr ⟨h.left.congr fun a ha => hkeep a ?_, ?_, fun hf => ⟨(hfree hf).1, ?_⟩, ?_⟩,
    ?_, ?_⟩
  · rw [hkeep _ (by dsimp only at hmin; simp only [firstBlock, HDRP, WSIZE, DSIZE] at *; omega), h.prologueHeader]
  · rw [hkeep _ (by dsimp only at hmin; simp only [firstBlock, HDRP, WSIZE, DSIZE] at *; omega), h.prologueFooter]
  · obtain ⟨q, b, hb, ha⟩ := ha
    have hbounds := placed_bounds hsizes.left hb
    dsimp only at hmin
    simp only [HDRP, WSIZE, DSIZE] at *
    omega
  · rw [hkeep _ (hown _ (Or.inl rfl)), hheader]
  · rw [hkeep _ (hown _ (Or.inr rfl)), (hfree hf).2]
  · exact htags'
  · rw [total_append, total_cons, ← Nat.add_assoc, ← Nat.add_assoc, lastAlloc_append]
    exact hepilogue'
  · obtain ⟨G, hlists, hexact⟩ := hlists
    refine ⟨G, hlists.congr fun a ha => hkeep a ?_, hexact⟩
    rintro rfl
    exact hexact.not_linkWord harena (Or.inr ⟨_, _, placed_mid, Or.inr (Or.inr (Or.inl rfl))⟩) ha

/-- Closing a block under work as a free one. -/
theorem Hole.closeFree (h : Hole m tableBase l size r) (hhead : headAlloc r = true) (hprev : lastAlloc true l = true)
    {x : Nat} (hx : x = firstBlock tableBase + total l) (hheader : m (HDRP x) = PACK size false true)
    (hfooter : m (x + size - DSIZE) = PACK size false true) (hzero : m x = 0#32) (hzero' : m (x + DSIZE) = 0#32) :
    ∃ m', appendFreelist m tableBase x size = .ret m' ∧ m' (HDRP x) = PACK size false true ∧
      WellFormed (SET_PREVALLOC m' (HDRP (x + size)) false) tableBase (l ++ ⟨size, false⟩ :: r) ∧
      ∀ a, Unlinked tableBase (l ++ ⟨size, false⟩ :: r) a → m' a = m a := by
  obtain ⟨happend, hlisted, hframe⟩ := h.lists.append h.arena hx hzero hzero'
  have hmid : (x, (⟨size, false⟩ : Block)) ∈ placed (firstBlock tableBase) (l ++ ⟨size, false⟩ :: r) := by
    rw [hx]
    exact placed_mid
  have hheader' := (hframe _ (Or.inr ⟨x, _, hmid, Or.inl rfl⟩)).trans hheader
  refine ⟨_, happend, hheader', ?_, hframe⟩
  have hbeside := h.toBeside.unlinked rfl hframe
  subst hx
  refine hbeside.close hhead hlisted ?_ fun _ => ⟨hprev, ?_⟩
  · rw [hheader', hprev]
  · rw [hframe _ (Or.inr ⟨_, _, hmid, Or.inr (Or.inl rfl)⟩), hfooter, hprev]

end

end Malloc

end SysuOs
