import Mathlib
import SysuOs.MallocFree

/-! What `mm_malloc` does with the free block it has found: the block is taken out of its list and put to use
whole, or split. The rest of a split block goes to a list only if the words where its links will be are zero. -/

namespace SysuOs

namespace Malloc

section
variable {m : Memory} {tableBase size : Nat} {l r bs : List Block}

/-! ### Heaps determine their blocks -/

theorem PACK_inj {a b : Nat} {alloc alloc' prevAlloc prevAlloc' : Bool} (ha : TagSize a) (hb : TagSize b)
    (h : PACK a alloc prevAlloc = PACK b alloc' prevAlloc') : a = b ∧ alloc = alloc' := by
  have hsize := congrArg GET_SIZE h
  have halloc := congrArg GET_ALLOC h
  rw [GET_SIZE_PACK ha, GET_SIZE_PACK hb] at hsize
  rw [GET_ALLOC_PACK ha, GET_ALLOC_PACK hb] at halloc
  exact ⟨hsize, halloc⟩

/-- The blocks between the prologue and the epilogue can be read off the headers. -/
theorem Tags.unique {p : Nat} {prevAlloc prevAlloc' : Bool} {bs bs' : List Block} (hs : Sizes bs) (hs' : Sizes bs')
    (hlt : p + total bs < 2 ^ 32) (hlt' : p + total bs' < 2 ^ 32) (h : Tags m p prevAlloc bs)
    (h' : Tags m p prevAlloc' bs') (he : Epilogue m (p + total bs) (lastAlloc prevAlloc bs))
    (he' : Epilogue m (p + total bs') (lastAlloc prevAlloc' bs')) : bs = bs' := by
  have hzero : TagSize 0 := ⟨rfl, by decide⟩
  induction bs generalizing p prevAlloc prevAlloc' bs' with
  | nil =>
      cases bs' with
      | nil => rfl
      | cons b bs' =>
          obtain ⟨halign, hmin⟩ := hs'.head
          rw [total_cons] at hlt'
          have heq := (PACK_inj hzero ⟨halign, by omega⟩ (he.symm.trans h'.1)).1
          omega
  | cons b bs ih =>
      obtain ⟨halign, hmin⟩ := hs.head
      rw [total_cons] at hlt
      cases bs' with
      | nil =>
          have heq := (PACK_inj hzero ⟨halign, by omega⟩ (he'.symm.trans h.1)).1
          omega
      | cons c bs' =>
          rw [total_cons] at hlt'
          obtain ⟨hsize, halloc⟩ := PACK_inj ⟨halign, by omega⟩ ⟨hs'.head.1, by omega⟩ (h.1.symm.trans h'.1)
          obtain rfl : b = c := by
            cases b
            cases c
            congr
          rw [total_cons, ← Nat.add_assoc] at he he'
          rw [ih hs.tail hs'.tail (by omega) (by omega) h.2.2 h'.2.2 he he']

/-- What is free where, by the lists of one memory. -/
theorem Listed.free_of_free {bs' : List Block} (h : Listed m tableBase bs) (h' : Listed m tableBase bs') {p : Nat}
    {b : Block} (hb : (p, b) ∈ placed (firstBlock tableBase) bs) (hfree : b.alloc = false) :
    ∃ c, (p, c) ∈ placed (firstBlock tableBase) bs' ∧ c.alloc = false := by
  obtain ⟨G, hlists, hexact⟩ := h
  obtain ⟨G', hlists', hexact'⟩ := h'
  have hi := group_lt b.size
  have hmem : p ∈ G (group b.size) := (hexact _ hi p).mpr ⟨b, hb, hfree, rfl⟩
  rw [(hlists.walk _ hi).unique (hlists'.walk _ hi)] at hmem
  obtain ⟨c, hc, hcfree, -⟩ := (hexact' _ hi p).mp hmem
  exact ⟨c, hc, hcfree⟩

/-! ### Taking a free block -/

theorem Beside.header_right (h : Tags m (firstBlock tableBase + total l + size) false r)
    (he : Epilogue m (firstBlock tableBase + total l + size + total r) (lastAlloc false r))
    (harena : Arena tableBase (l ++ ⟨size, true⟩ :: r)) :
    ∃ s alloc, TagSize s ∧ m (HDRP (firstBlock tableBase + total l + size)) = PACK s alloc false := by
  cases r with
  | nil =>
      rw [total_nil, Nat.add_zero] at he
      exact ⟨0, true, ⟨rfl, by decide⟩, he⟩
  | cons b r => exact ⟨b.size, b.alloc, TagSize.of_mem harena (by simp), h.1⟩

/-- A free block of a well-formed heap, out of its list. -/
theorem WellFormed.take {f : Block} (h : WellFormed m tableBase (l ++ f :: r)) (hf : f.alloc = false) {x : Nat}
    (hx : x = firstBlock tableBase + total l) :
    Hole (removeFreelist m x) tableBase l f.size r ∧
      (headAlloc r = true ∧ lastAlloc true l = true) ∧
      removeFreelist m x (HDRP x) = PACK f.size false true ∧
      (∃ s alloc, TagSize s ∧ removeFreelist m x (HDRP (x + f.size)) = PACK s alloc false) ∧
      ∀ a, Unlinked tableBase (l ++ f :: r) a → removeFreelist m x a = m a := by
  obtain ⟨hleft, hheader, hfree, hright⟩ := Tags.append.mp h.tags
  have hlast := (hfree hf).1
  have hepilogue := h.epilogue
  rw [total_append, total_cons, ← Nat.add_assoc, ← Nat.add_assoc, lastAlloc_append] at hepilogue
  obtain ⟨hlisted, -, hframe⟩ := h.lists.remove h.arena hf hx
  have harena : Arena tableBase (l ++ ⟨f.size, true⟩ :: r) := h.arena.replace rfl
  have hbeside : Beside m tableBase l f.size r :=
    ⟨harena, h.prologueHeader, h.prologueFooter, hleft, f.alloc, hright, hepilogue⟩
  have hbeside' := hbeside.unlinked rfl hframe
  rw [hf] at hright
  rw [lastAlloc, hf] at hepilogue
  have hmid : (x, f) ∈ placed (firstBlock tableBase) (l ++ f :: r) := by
    rw [hx]
    exact placed_mid
  refine ⟨⟨hbeside', hlisted⟩, ⟨headAlloc_of_tags hright, hlast⟩, ?_, ?_, hframe⟩
  · rw [hframe _ (Or.inr ⟨x, f, hmid, Or.inl rfl⟩), hx, hheader, hf, hlast]
  · obtain ⟨s, alloc, hs, hnext⟩ := Beside.header_right hright hepilogue harena
    exact ⟨s, alloc, hs, by rw [hframe _ (Or.inr ⟨x, f, hmid, Or.inr (Or.inr (Or.inl rfl))⟩), hx, hnext]⟩

/-- The whole block is put to use. -/
theorem place_whole {f : Block} (h : WellFormed m tableBase (l ++ f :: r)) (hf : f.alloc = false) {x newSize : Nat}
    (hx : x = firstBlock tableBase + total l) (hsplit : ¬f.size ≥ newSize + MININUM_BLK_SIZE) :
    ∃ m', Heap.place m tableBase x newSize = .ret m' ∧ WellFormed m' tableBase (l ++ ⟨f.size, true⟩ :: r) ∧
      ∀ a, Kept tableBase l f.size r a → m' a = m a := by
  obtain ⟨hhole, ⟨hhead, hlast⟩, hheader, -, hframe⟩ := h.take hf hx
  have htag : TagSize f.size := hhole.tagSize
  have hmin := hhole.arena.sizes.right.head.2
  dsimp only at hmin
  have hpos : DSIZE ≤ x := by
    rw [hx]
    simp only [firstBlock, DSIZE]
    omega
  simp only [DSIZE] at hpos
  have hheader₀ : m (HDRP x) = PACK f.size false true := by
    rw [← hframe _ (Or.inr ⟨x, f, hx ▸ placed_mid, Or.inl rfl⟩), hheader]
  have hput : Hole (PUT (removeFreelist m x) (HDRP x) (PACK f.size true true)) tableBase l f.size r :=
    hhole.put (by rw [hx]) (by rw [← hx]; simp only [HDRP, WSIZE]; omega)
  have hnext : NEXT_BLKP (PUT (removeFreelist m x) (HDRP x) (PACK f.size true true)) x = x + f.size := by
    rw [NEXT_BLKP, PUT_self, GET_SIZE_PACK htag]
  have hnextAlloc := hput.next_alloc
  rw [← hx, hhead] at hnextAlloc
  have hwell := hput.toBeside.close hhead (show Listed _ _ (l ++ ⟨f.size, true⟩ :: r) from hput.lists) (by rw [← hx, PUT_self, hlast])
    fun he => absurd he (by decide)
  rw [← hx] at hwell
  refine ⟨_, ?_, hwell, fun a ha => ?_⟩
  · rw [Heap.place]
    simp only [hheader₀, GET_SIZE_PACK htag]
    rw [if_neg hsplit, hheader, GET_PREVALLOC_PACK htag, hnext, hnextAlloc, if_neg (by simp)]
  · have hout := ha.outside hhole.toBeside
    rw [← hx] at hout
    simp only [HDRP, WSIZE] at hout
    rw [SET_PREVALLOC, PUT_of_ne (by simp only [HDRP, WSIZE]; omega), PUT_of_ne (by simp only [HDRP, WSIZE]; omega),
      hframe a (ha.unlinked rfl)]

/-! ### Splitting -/

/-- The words where the links of the rest of a split block will be. -/
def RestUnlinked (m : Memory) (p : Nat) : Prop := m p = 0#32 ∧ m (p + DSIZE) = 0#32

/-- The start of a block under work becomes a block in use of its own. -/
theorem Hole.split {a b : Nat} (h : Hole m tableBase l (a + b) r) (ha : a % 8 = 0 ∧ 24 ≤ a) (hb : b % 8 = 0 ∧ 24 ≤ b)
    (hheader : m (HDRP (firstBlock tableBase + total l)) = PACK a true (lastAlloc true l)) :
    Hole m tableBase (l ++ [⟨a, true⟩]) b r := by
  have hassoc : l ++ [⟨a, true⟩] ++ ⟨b, true⟩ :: r = l ++ ⟨a, true⟩ :: ⟨b, true⟩ :: r := by simp
  have hend : firstBlock tableBase + total (l ++ [⟨a, true⟩]) + b = firstBlock tableBase + total l + (a + b) := by
    simp [Nat.add_assoc]
  have harena : Arena tableBase (l ++ ⟨a, true⟩ :: ⟨b, true⟩ :: r) := by
    refine ⟨h.arena.table, h.arena.aligned,
      h.arena.sizes.left.append (Sizes.cons ha (Sizes.cons hb h.arena.sizes.right.tail)), ?_⟩
    have hfits := h.arena.fits
    simp only [total_append, total_cons] at hfits ⊢
    omega
  have hlists : Listed m tableBase (l ++ ⟨a, true⟩ :: ⟨b, true⟩ :: r) := by
    refine h.lists.congr_free fun q c hfree => ?_
    have hne : ∀ n, c ≠ ⟨n, true⟩ := by
      rintro n rfl
      cases hfree
    rw [mem_placed_iff, mem_placed_iff, placed_cons, List.mem_cons, Prod.mk.injEq, ← Nat.add_assoc]
    simp only [hne, and_false, false_or]
  refine ⟨⟨hassoc ▸ harena, h.prologueHeader, h.prologueFooter, Tags.append.mpr ⟨h.left, hheader, ?_, trivial⟩, ?_⟩,
    hassoc ▸ hlists⟩
  · exact fun he => absurd he (by simp)
  · rw [hend]
    exact h.right

/-- The memory of a split, before the rest goes to a list. -/
def splitMemory (m : Memory) (x newSize resSize : Nat) : Memory :=
  PUT (PUT (PUT (removeFreelist m x) (HDRP x) (PACK newSize true true)) (HDRP (x + newSize)) (PACK resSize false true))
    (x + newSize + resSize - DSIZE) (PACK resSize false true)

/-- What is known of a block that has been split. -/
structure Split (m m' : Memory) (tableBase : Nat) (l : List Block) (newSize resSize : Nat) (r : List Block)
    (x : Nat) : Prop where
  place : Heap.place m tableBase x newSize = appendFreelist m' tableBase (x + newSize) resSize
  hole : Hole m' tableBase (l ++ [⟨newSize, true⟩]) resSize r
  whole : Hole m' tableBase l (newSize + resSize) r
  head : headAlloc r = true
  header : m' (HDRP (x + newSize)) = PACK resSize false true
  footer : m' (x + newSize + resSize - DSIZE) = PACK resSize false true
  next : ∃ s alloc, TagSize s ∧ m' (HDRP (x + newSize + resSize)) = PACK s alloc false
  links : m' (x + newSize) = m (x + newSize) ∧ m' (x + newSize + DSIZE) = m (x + newSize + DSIZE)
  kept : ∀ a, Kept tableBase l (newSize + resSize) r a → m' a = m a

theorem WellFormed.split {f : Block} (h : WellFormed m tableBase (l ++ f :: r)) (hf : f.alloc = false)
    {x newSize resSize : Nat} (hx : x = firstBlock tableBase + total l) (hsize : f.size = newSize + resSize)
    (hnew : newSize % 8 = 0 ∧ 24 ≤ newSize) (hres : 24 ≤ resSize) :
    Split m (splitMemory m x newSize resSize) tableBase l newSize resSize r x := by
  obtain ⟨hhole, ⟨hhead, hlast⟩, hheader, ⟨s, alloc, hs, hnext⟩, hframe⟩ := h.take hf hx
  rw [hsize] at hhole hheader hnext
  have htag : TagSize (newSize + resSize) := hhole.tagSize
  have hnewTag : TagSize newSize := ⟨hnew.1, by have := htag.lt; omega⟩
  have hresAlign : resSize % 8 = 0 := by
    have := htag.aligned
    omega
  have hresTag : TagSize resSize := ⟨hresAlign, by have := htag.lt; omega⟩
  have hpos : DSIZE ≤ x := by
    rw [hx]
    simp only [firstBlock, DSIZE]
    omega
  simp only [DSIZE] at hpos
  have hheader₀ : m (HDRP x) = PACK (newSize + resSize) false true := by
    rw [← hframe _ (Or.inr ⟨x, f, hx ▸ placed_mid, Or.inl rfl⟩), hheader]
  have hinside : ∀ a, a = x + newSize ∨ a = x + newSize + DSIZE → removeFreelist m x a = m a := by
    intro a ha
    refine hframe a (Or.inr ⟨x, f, hx ▸ placed_mid, Or.inr (Or.inr (Or.inr (Or.inr ?_)))⟩)
    simp only [HDRP, WSIZE, DSIZE] at *
    omega
  have hwhole : Hole (splitMemory m x newSize resSize) tableBase l (newSize + resSize) r := by
    unfold splitMemory
    refine ((hhole.put ?_ ?_).put ?_ ?_).put ?_ ?_ <;> rw [← hx] <;> simp only [HDRP, WSIZE, DSIZE] <;> omega
  have hself : splitMemory m x newSize resSize (HDRP x) = PACK newSize true true := by
    rw [splitMemory, PUT_of_ne (by simp only [HDRP, WSIZE, DSIZE]; omega),
      PUT_of_ne (by simp only [HDRP, WSIZE]; omega), PUT_self]
  refine ⟨?_, hwhole.split hnew ⟨hresAlign, hres⟩ (by rw [← hx, hself, hlast]), hwhole, hhead, ?_, PUT_self _ _ _, ?_,
    ⟨?_, ?_⟩, fun a ha => ?_⟩
  · have hresBp : NEXT_BLKP (PUT (removeFreelist m x) (HDRP x) (PACK newSize true true)) x = x + newSize := by
      rw [NEXT_BLKP, PUT_self, GET_SIZE_PACK hnewTag]
    have hresSize : newSize + resSize - newSize = resSize := by omega
    rw [Heap.place]
    simp only [hheader₀, GET_SIZE_PACK htag]
    rw [if_pos (by simp only [MININUM_BLK_SIZE]; omega), hheader, GET_PREVALLOC_PACK htag, hresBp, hresSize, FTRP,
      PUT_self, GET_SIZE_PACK hresTag]
    rfl
  · rw [splitMemory, PUT_of_ne (by simp only [HDRP, WSIZE, DSIZE]; omega), PUT_self]
  · refine ⟨s, alloc, hs, ?_⟩
    rw [← hnext, Nat.add_assoc, splitMemory, PUT_of_ne (by simp only [HDRP, WSIZE, DSIZE]; omega),
      PUT_of_ne (by simp only [HDRP, WSIZE]; omega), PUT_of_ne (by simp only [HDRP, WSIZE]; omega)]
  · rw [← hinside _ (Or.inl rfl), splitMemory, PUT_of_ne (by simp only [DSIZE]; omega),
      PUT_of_ne (by simp only [HDRP, WSIZE]; omega), PUT_of_ne (by simp only [HDRP, WSIZE]; omega)]
  · rw [← hinside _ (Or.inr rfl), splitMemory, PUT_of_ne (by simp only [DSIZE]; omega),
      PUT_of_ne (by simp only [HDRP, WSIZE, DSIZE]; omega), PUT_of_ne (by simp only [HDRP, WSIZE, DSIZE]; omega)]
  · have hout := ha.outside hhole.toBeside
    rw [← hx] at hout
    simp only [HDRP, WSIZE] at hout
    rw [splitMemory, PUT_of_ne (by simp only [DSIZE]; omega), PUT_of_ne (by simp only [HDRP, WSIZE]; omega),
      PUT_of_ne (by simp only [HDRP, WSIZE]; omega), hframe a (ha.unlinked hsize)]

/-- The bit of the header after some blocks speaks of the last of them. -/
theorem prevAlloc_eq {p s : Nat} {alloc prevAlloc prevAlloc' : Bool} (hsizes : Sizes r) (hlt : p + total r < 2 ^ 32)
    (htags : Tags m p prevAlloc r) (he : Epilogue m (p + total r) (lastAlloc prevAlloc r)) (hs : TagSize s)
    (hheader : m (HDRP p) = PACK s alloc prevAlloc') : prevAlloc = prevAlloc' := by
  have hread : ∀ {n : Nat} {a : Bool}, TagSize n → m (HDRP p) = PACK n a prevAlloc → prevAlloc = prevAlloc' := by
    intro n a hn heq
    have h := congrArg GET_PREVALLOC (heq.symm.trans hheader)
    rwa [GET_PREVALLOC_PACK hn, GET_PREVALLOC_PACK hs] at h
  cases r with
  | nil =>
      rw [total_nil, Nat.add_zero] at he
      exact hread ⟨rfl, by decide⟩ he
  | cons b r =>
      rw [total_cons] at hlt
      exact hread ⟨hsizes.head.1, by omega⟩ htags.1

section
variable {f : Block} (h : WellFormed m tableBase (l ++ f :: r)) (hf : f.alloc = false) {x newSize resSize : Nat}
  (hx : x = firstBlock tableBase + total l) (hsize : f.size = newSize + resSize)
  (hnew : newSize % 8 = 0 ∧ 24 ≤ newSize) (hres : 24 ≤ resSize)
include h hf hx hsize hnew hres

/-- A split whose rest goes to its list. -/
theorem place_split (hclean : RestUnlinked m (x + newSize)) :
    ∃ m', Heap.place m tableBase x newSize = .ret m' ∧
      WellFormed m' tableBase (l ++ ⟨newSize, true⟩ :: ⟨resSize, false⟩ :: r) ∧
      ∀ a, Kept tableBase l (newSize + resSize) r a → m' a = m a := by
  have hs := h.split hf hx hsize hnew hres
  have hrest : x + newSize = firstBlock tableBase + total (l ++ [⟨newSize, true⟩]) := by
    rw [hx]
    simp [Nat.add_assoc]
  obtain ⟨m', happend, -, hwell, hframe⟩ := hs.hole.closeFree hs.head (by simp [lastAlloc]) hrest hs.header hs.footer
    (hs.links.1.trans hclean.1) (hs.links.2.trans hclean.2)
  have hmid : (x + newSize, (⟨resSize, false⟩ : Block)) ∈
      placed (firstBlock tableBase) (l ++ [⟨newSize, true⟩] ++ ⟨resSize, false⟩ :: r) := by
    rw [hrest]
    exact placed_mid
  -- the next header says already that the block before it is free
  have hsame : SET_PREVALLOC m' (HDRP (x + newSize + resSize)) false = m' := by
    obtain ⟨s, alloc, hsTag, hnext⟩ := hs.next
    have hnext' := (hframe _ (Or.inr ⟨_, _, hmid, Or.inr (Or.inr (Or.inl rfl))⟩)).trans hnext
    unfold SET_PREVALLOC PUT
    dsimp only at hnext'
    rw [hnext', setPrevAlloc_PACK hsTag, ← hnext', Function.update_eq_self]
  rw [hsame, List.append_assoc] at hwell
  refine ⟨m', hs.place.trans happend, hwell, fun a ha => ?_⟩
  rw [hframe a ?_, hs.kept a ha]
  obtain ⟨q, b, hb, halloc, hle, hlt⟩ := ha
  refine Or.inr ⟨q, b, ?_, Or.inr (Or.inr (Or.inr (Or.inl ⟨halloc, hle, hlt⟩)))⟩
  rw [List.append_assoc]
  rcases hb with hb | hb
  · exact placed_left hb
  · rw [placed_append, List.singleton_append, placed_cons, placed_cons]
    refine List.mem_append_right _ (List.mem_cons_of_mem _ (List.mem_cons_of_mem _ ?_))
    rwa [Nat.add_assoc (firstBlock tableBase + total l)]

/-- A split whose rest is taken for a listed block leaves no well-formed heap, whatever its blocks are said to
be. -/
theorem place_stale (hstale : ¬RestUnlinked m (x + newSize)) :
    ∃ m', Heap.place m tableBase x newSize = .ret m' ∧ ∀ bs', ¬WellFormed m' tableBase bs' := by
  have hs := h.split hf hx hsize hnew hres
  refine ⟨_, hs.place.trans (appendFreelist_listed fun hzero => hstale ?_), fun bs' hwell => ?_⟩
  · rwa [hs.links.1, hs.links.2] at hzero
  -- the headers say which blocks there are
  have hrest : firstBlock tableBase + total (l ++ [⟨newSize, true⟩]) = x + newSize := by
    rw [hx]
    simp [Nat.add_assoc]
  have harena : Arena tableBase (l ++ [⟨newSize, true⟩] ++ ⟨resSize, false⟩ :: r) := hs.hole.arena.replace rfl
  have hfits := harena.fits
  obtain ⟨prevAlloc, htags, hepilogue⟩ := hs.hole.right
  obtain ⟨s, alloc, hsTag, hnext⟩ := hs.next
  rw [total_append, total_cons, ← Nat.add_assoc, ← Nat.add_assoc] at hfits
  have hnext' : splitMemory m x newSize resSize
      (HDRP (firstBlock tableBase + total (l ++ [⟨newSize, true⟩]) + resSize)) = PACK s alloc false := by
    rw [hrest]
    exact hnext
  obtain rfl : prevAlloc = false := prevAlloc_eq harena.sizes.right.tail hfits htags hepilogue hsTag hnext'
  have htags' : Tags (splitMemory m x newSize resSize) (firstBlock tableBase) true
      (l ++ [⟨newSize, true⟩] ++ ⟨resSize, false⟩ :: r) := by
    refine Tags.append.mpr ⟨hs.hole.left, ?_, fun _ => ⟨by simp [lastAlloc], ?_⟩, htags⟩
    · rw [hrest, hs.header, lastAlloc_append]
      rfl
    · rw [hrest, hs.footer, lastAlloc_append]
      rfl
  have hepilogue' : Epilogue (splitMemory m x newSize resSize)
      (firstBlock tableBase + total (l ++ [⟨newSize, true⟩] ++ ⟨resSize, false⟩ :: r))
      (lastAlloc true (l ++ [⟨newSize, true⟩] ++ ⟨resSize, false⟩ :: r)) := by
    rw [total_append, total_cons, ← Nat.add_assoc, ← Nat.add_assoc, lastAlloc_append]
    exact hepilogue
  obtain rfl := Tags.unique harena.sizes hwell.arena.sizes harena.fits hwell.arena.fits htags' hwell.tags hepilogue'
    hwell.epilogue
  -- the rest is free, and in no list
  obtain ⟨c, hc, hcfree⟩ := hwell.lists.free_of_free hs.whole.lists (p := x + newSize) (b := ⟨resSize, false⟩)
    (hrest ▸ placed_mid) rfl
  rcases mem_placed_iff.mp hc with hc | ⟨-, rfl⟩ | hc
  · have hbounds := placed_bounds hs.whole.arena.sizes.left hc
    omega
  · cases hcfree
  · have hbounds := placed_bounds hs.whole.arena.sizes.right.tail hc
    dsimp only at hbounds
    omega

end

/-- The rest of the block at `p`, where it is split off, has zeros where its links will be. -/
def RestFresh (m : Memory) (p newSize : Nat) : Prop :=
  GET_SIZE (m (HDRP p)) ≥ newSize + MININUM_BLK_SIZE → RestUnlinked m (p + newSize)

/-- A free block of a well-formed heap is put to use. -/
theorem place_spec {f : Block} (h : WellFormed m tableBase (l ++ f :: r)) (hf : f.alloc = false) {x newSize : Nat}
    (hx : x = firstBlock tableBase + total l) (hfit : newSize ≤ f.size) (hnew : newSize % 8 = 0 ∧ 24 ≤ newSize) :
    ∃ m', Heap.place m tableBase x newSize = .ret m' ∧
      (RestFresh m x newSize → ∃ used rest, newSize ≤ used ∧ used + total rest = f.size ∧
        WellFormed m' tableBase (l ++ ⟨used, true⟩ :: (rest ++ r)) ∧
          ∀ a, Kept tableBase l f.size r a → m' a = m a) ∧
      (¬RestFresh m x newSize → ∀ bs', ¬WellFormed m' tableBase bs') := by
  have hheader : GET_SIZE (m (HDRP x)) = f.size := by
    rw [hx, (Tags.append.mp h.tags).2.1, GET_SIZE_PACK (TagSize.of_mem h.arena (by simp))]
  unfold RestFresh
  rw [hheader]
  by_cases hsplit : f.size ≥ newSize + MININUM_BLK_SIZE
  · obtain ⟨resSize, hsize⟩ := Nat.exists_eq_add_of_le hfit
    have hres : 24 ≤ resSize := by
      simp only [MININUM_BLK_SIZE] at hsplit
      omega
    by_cases hclean : RestUnlinked m (x + newSize)
    · obtain ⟨m', hplace, hwell, hkept⟩ := place_split h hf hx hsize hnew hres hclean
      refine ⟨m', hplace, fun _ => ⟨newSize, [⟨resSize, false⟩], Nat.le_refl _, ?_, hwell, ?_⟩,
        fun hn => absurd (fun _ => hclean) hn⟩
      · simp [hsize]
      · rw [hsize]
        exact hkept
    · obtain ⟨m', hplace, hbroken⟩ := place_stale h hf hx hsize hnew hres hclean
      exact ⟨m', hplace, fun hn => absurd (hn hsplit) hclean, fun _ => hbroken⟩
  · obtain ⟨m', hplace, hwell, hkept⟩ := place_whole h hf hx hsplit
    exact ⟨m', hplace, fun _ => ⟨f.size, [], hfit, by simp, hwell, hkept⟩,
      fun hn => absurd (fun hs => absurd hs hsplit) hn⟩

end

end Malloc

end SysuOs
