import Mathlib
import SysuOs.MallocAlloc

/-! `mm_malloc` finds a free block that is large enough if there is one: it is in the group of the size it asks
for or in a later one. Where there is none, the heap grows once, by a block that the second search finds. -/

namespace SysuOs

namespace Malloc

/-! ### Groups -/

section Groups

variable {x y k fuel size size' : Nat}

theorem ilog2Loop_ge : k ≤ ilog2Loop fuel x k := by
  induction fuel generalizing x k with
  | zero => exact le_refl k
  | succ fuel ih =>
      rw [ilog2Loop]
      split
      · exact (Nat.le_succ k).trans ih
      · exact le_refl k

theorem ilog2Loop_le : ilog2Loop fuel x k ≤ k + fuel := by
  induction fuel generalizing x k with
  | zero => exact le_refl k
  | succ fuel ih =>
      rw [ilog2Loop]
      split
      · exact ih.trans (by omega)
      · exact Nat.le_add_right _ _

theorem ilog2Loop_mono (h : x ≤ y) : ilog2Loop fuel x k ≤ ilog2Loop fuel y k := by
  induction fuel generalizing x y k with
  | zero => exact le_refl k
  | succ fuel ih =>
      rw [ilog2Loop, ilog2Loop]
      have hshift : x >>> 1 ≤ y >>> 1 := by
        rw [Nat.shiftRight_one, Nat.shiftRight_one]
        exact Nat.div_le_div_right h
      by_cases hx : x >>> 1 ≠ 0
      · rw [if_pos hx, if_pos (by omega)]
        exact ih hshift
      · rw [if_neg hx]
        split
        · exact (Nat.le_succ k).trans ilog2Loop_ge
        · exact le_refl k

theorem ilog2_mono (hx : 0 < x) (h : x ≤ y) : ilog2 x ≤ ilog2 y := by
  rw [ilog2, ilog2, if_neg (by omega), if_neg (by omega)]
  exact ilog2Loop_mono h

/-- From the smallest block on, `ilog2` less 3 does not wrap around. -/
theorem group_eq (h : 24 ≤ size) : group size = min (ilog2 (size - INTER_FRAG_SIZE) - 3) (MAX_GROUP - 1) := by
  have hpos : 8 ≤ size - INTER_FRAG_SIZE := Nat.le_sub_of_add_le h
  have hlow : 3 ≤ ilog2 (size - INTER_FRAG_SIZE) := by
    have h8 : ilog2 8 = 3 := by decide
    exact h8 ▸ ilog2_mono (by decide) hpos
  have hhigh : ilog2 (size - INTER_FRAG_SIZE) ≤ 32 := by
    rw [ilog2, if_neg (by omega)]
    exact ilog2Loop_le.trans (by omega)
  have hidx : u32 (ilog2 (size - INTER_FRAG_SIZE) - 3) = ilog2 (size - INTER_FRAG_SIZE) - 3 := by
    rw [u32]
    omega
  rw [group, hidx]
  by_cases hmax : ilog2 (size - INTER_FRAG_SIZE) - 3 ≥ MAX_GROUP
  · rw [if_pos hmax]
    omega
  · rw [if_neg hmax]
    omega

/-- A larger block is in the same group or in a later one. -/
theorem group_mono (h : 24 ≤ size) (hle : size ≤ size') : group size ≤ group size' := by
  have hpos : 8 ≤ size - INTER_FRAG_SIZE := Nat.le_sub_of_add_le h
  rw [group_eq h, group_eq (h.trans hle)]
  have hlog := ilog2_mono (by omega) (Nat.sub_le_sub_right hle INTER_FRAG_SIZE)
  exact min_le_min_right _ (Nat.sub_le_sub_right hlog 3)

end Groups

namespace Heap

/-! ### The search -/

section Search

variable {m : Memory} {tableBase size fuel idx left : Nat} {bs : List Block}

/-- The search of a group ends, and without a block only if each of its blocks is too small. -/
theorem findLoop_returns {ptr : Nat} {l : List Nat} (hw : Walk (next m) (link ptr) l) (hfuel : l.length < fuel)
    (size : Nat) : ∃ found, findLoop m size fuel ptr = .ret found ∧
      (found = none → ∀ p ∈ l, GET_SIZE (m (HDRP p)) < size) := by
  induction l generalizing ptr fuel with
  | nil =>
      obtain ⟨fuel, rfl⟩ := Nat.exists_eq_add_one_of_ne_zero (Nat.ne_zero_of_lt hfuel)
      have hptr : ptr = 0 := by
        by_contra hne
        rw [link_of_ne hne] at hw
        cases hw
      exact ⟨none, by rw [findLoop, if_pos hptr], fun _ p hp => absurd hp List.not_mem_nil⟩
  | cons a l ih =>
      obtain ⟨fuel, rfl⟩ := Nat.exists_eq_add_one_of_ne_zero (Nat.ne_zero_of_lt hfuel)
      obtain ⟨hhead, htail⟩ := hw
      have hptr : ptr ≠ 0 := by
        rintro rfl
        cases hhead
      rw [link_of_ne hptr] at hhead
      obtain rfl := Option.some.inj hhead
      rw [findLoop, if_neg hptr]
      by_cases hfit : GET_SIZE (m (HDRP ptr)) ≥ size
      · rw [if_pos hfit]
        exact ⟨some ptr, rfl, fun hnone => by cases hnone⟩
      · rw [if_neg hfit]
        obtain ⟨found, hfound, hnone⟩ := ih htail (Nat.lt_of_succ_lt_succ hfuel)
        refine ⟨found, hfound, fun heq p hp => ?_⟩
        rcases List.mem_cons.mp hp with rfl | hp
        · exact not_le.mp hfit
        · exact hnone heq p hp

theorem findGroups_returns {nodes : Set Nat} {G : Nat → List Nat} (hlists : Lists m tableBase nodes G)
    (hfuel : ∀ i < MAX_GROUP, (G i).length < fuel) (hidx : idx + left = MAX_GROUP)
    (size : Nat) : ∃ found, findGroups fuel m tableBase size left idx = .ret found ∧
      (found = none → ∀ i, idx ≤ i → i < MAX_GROUP → ∀ p ∈ G i, GET_SIZE (m (HDRP p)) < size) := by
  induction left generalizing idx with
  | zero => exact ⟨none, rfl, fun _ i hi hi' => absurd hi' (by omega)⟩
  | succ left ih =>
      have hi : idx < MAX_GROUP := by omega
      obtain ⟨found, hloop, hsmall⟩ := findLoop_returns (hlists.walk idx hi) (hfuel idx hi) size
      have hcell : findLoop m size fuel (GET_PTR m (tableBase + idx * DSIZE)) = .ret found := hloop
      rw [findGroups, hcell, Outcome.ret_bind]
      cases found with
      | some p => exact ⟨some p, rfl, fun hnone => by cases hnone⟩
      | none =>
          obtain ⟨found, hrest, hsmall'⟩ := @ih (idx + 1) (by omega)
          refine ⟨found, hrest, fun heq i hle hi' p hp => ?_⟩
          rcases Nat.eq_or_lt_of_le hle with rfl | hlt
          · exact hsmall rfl p hp
          · exact hsmall' heq i hlt hi' p hp

/-- There is a free block of at least `size` bytes. -/
def Fit (bs : List Block) (size : Nat) : Prop := ∃ b ∈ bs, b.alloc = false ∧ size ≤ b.size

/-- With enough fuel the search ends, with a block if one is large enough, and with none otherwise. -/
theorem find_returns (h : WellFormed m tableBase bs) (hsize : 24 ≤ size) :
    ∃ n, ∀ fuel, n ≤ fuel → ∃ found, find fuel m tableBase size = .ret found ∧
      (found = none ↔ ¬Fit bs size) := by
  obtain ⟨G, hlists, hexact⟩ := h.lists
  refine ⟨(∑ i ∈ Finset.range MAX_GROUP, (G i).length) + 1, fun fuel hfuel => ?_⟩
  have hlength : ∀ i < MAX_GROUP, (G i).length < fuel := fun i hi =>
    Nat.lt_of_lt_of_le (Nat.lt_succ_of_le (Finset.single_le_sum (f := fun i => (G i).length)
      (fun j _ => Nat.zero_le _) (Finset.mem_range.mpr hi))) hfuel
  obtain ⟨found, hfound, hsmall⟩ := findGroups_returns hlists hlength
    (Nat.add_sub_cancel' (Nat.le_of_lt (group_lt size))) size
  refine ⟨found, hfound, fun hnone hfit => ?_, fun hno => ?_⟩
  · obtain ⟨b, hb, hfree, hle⟩ := hfit
    obtain ⟨l, r, rfl⟩ := List.append_of_mem hb
    have hmem := (hexact _ (group_lt b.size) _).mpr ⟨b, placed_mid, hfree, rfl⟩
    have hlt := hsmall hnone _ (group_mono hsize hle) (group_lt b.size) _ hmem
    rw [(Tags.append.mp h.tags).2.1, GET_SIZE_PACK (TagSize.of_mem h.arena (by simp))] at hlt
    exact absurd hle (not_le.mpr hlt)
  · cases found with
    | none => rfl
    | some p =>
        obtain ⟨l, f, r, rfl, -, hfree, hle⟩ := find_some h hfound
        exact absurd ⟨f, by simp, hfree, hle⟩ hno

end Search

/-! ### The calls of `expand_heap` -/

/-- How often `mm_malloc` and the calls it makes of itself call `expand_heap`. -/
def expandCalls : Nat → Heap → Nat → Outcome Nat
  | 0, _, _ => .diverge
  | fuel + 1, s, size => do
      match ← find fuel s.mem s.tableBase (newSize size) with
      | some _ => return 0
      | none =>
          match ← s.expandHeap (max (newSize size) MAX_INCR) with
          | (none, _) => return 1
          | (some _, s) => do
              let n ← expandCalls fuel s size
              return n + 1

section Malloc

variable {s s₁ : Heap} {bs : List Block} {fuel size x : Nat}

/-- A block that is large enough is given out, and the heap is not made larger. -/
theorem allocateLoop_fit (h : s.Ready bs) (hsize : 1 ≤ size) (hfit : Fit bs (newSize size)) :
    ∃ n, ∀ fuel, n ≤ fuel → ∃ p m', allocateLoop fuel s size = .ret (some p, { s with mem := m' }) ∧
      expandCalls fuel s size = .ret 0 := by
  obtain ⟨n, hn⟩ := find_returns h.wellFormed (newSize_spec hsize).1.2
  refine ⟨n + 1, fun fuel hfuel => ?_⟩
  obtain ⟨fuel, rfl⟩ : ∃ k, fuel = k + 1 := ⟨fuel - 1, by omega⟩
  obtain ⟨found, hfind, hfound⟩ := hn fuel (by omega)
  cases found with
  | none => exact absurd hfit (hfound.mp rfl)
  | some p =>
      obtain ⟨m', hplace, -⟩ := place_allocated h hsize hfind
      refine ⟨p, m', ?_, ?_⟩
      · rw [allocateLoop, hfind, Outcome.ret_bind]
        dsimp only
        rw [hplace]
        rfl
      · rw [expandCalls, hfind]
        rfl

/-- The free block at the end of the heap that `expand_heap` leaves. -/
theorem fit_coalesced (hle : size ≤ x) : Fit (coalesced bs x []) size := by
  refine ⟨⟨sizeEnd bs + x + sizeHead [], false⟩, ?_, rfl, ?_⟩
  · rw [coalesced]
    exact List.mem_append_right _ List.mem_cons_self
  · dsimp only
    omega

/-- Without such a block the heap grows once, and then there is one. -/
theorem allocateLoop_grow (h : s.Ready bs) (hsize : 1 ≤ size) (hno : ¬Fit bs (newSize size))
    (hsbrk : s.memSbrk (ALIGN (max (newSize size) MAX_INCR)) = (some x, s₁)) :
    ∃ bp s', s.expandHeap (max (newSize size) MAX_INCR) = .ret (some bp, s') ∧
      ∃ n, ∀ fuel, n ≤ fuel → ∃ p m', allocateLoop fuel s size = .ret (some p, { s' with mem := m' }) ∧
        expandCalls fuel s size = .ret 1 := by
  have hmax : newSize size ≤ ALIGN (max (newSize size) MAX_INCR) := by
    have hle := Nat.le_max_left (newSize size) MAX_INCR
    simp only [ALIGN]
    omega
  obtain ⟨bp, s', hexpand, hready, -, -⟩ :=
    expandHeap_spec h ((newSize_spec hsize).1.2.trans hmax) hsbrk
  refine ⟨bp, s', hexpand, ?_⟩
  obtain ⟨n, hn⟩ := find_returns h.wellFormed (newSize_spec hsize).1.2
  obtain ⟨k, hk⟩ := allocateLoop_fit hready hsize (fit_coalesced hmax)
  refine ⟨max n k + 1, fun fuel hfuel => ?_⟩
  obtain ⟨fuel, rfl⟩ : ∃ k, fuel = k + 1 := ⟨fuel - 1, by omega⟩
  obtain ⟨found, hfind, hfound⟩ := hn fuel (by omega)
  obtain rfl := hfound.mpr hno
  obtain ⟨p, m', hloop, hcalls⟩ := hk fuel (by omega)
  refine ⟨p, m', ?_, ?_⟩
  · rw [allocateLoop, hfind, Outcome.ret_bind]
    dsimp only
    rw [hexpand]
    exact hloop
  · rw [expandCalls, hfind, Outcome.ret_bind]
    dsimp only
    rw [hexpand, Outcome.ret_bind]
    dsimp only
    rw [hcalls]
    rfl

end Malloc

/-- With a free block that is large enough `mm_malloc` returns a block and leaves the break where it is; without
one, and if `mem_sbrk` finds room, it calls `expand_heap` once and returns a block. -/
theorem mmMalloc_fit {s : Heap} {bs : List Block} {size : Nat} (h : s.Ready bs)
    (hsize : 1 ≤ size ∧ size ≤ 2 ^ 30) :
    ((∃ b ∈ bs, b.alloc = false ∧ ALIGN size + 16 ≤ b.size) →
      ∃ n, ∀ fuel, n ≤ fuel → ∃ p m', s.mmMalloc fuel size = .ret (some p, { s with mem := m' }) ∧
        expandCalls fuel s size = .ret 0) ∧
    ((¬∃ b ∈ bs, b.alloc = false ∧ ALIGN size + 16 ≤ b.size) →
      (s.memSbrk (ALIGN (max (newSize size) MAX_INCR))).1 ≠ none →
        ∃ bp s', s.expandHeap (max (newSize size) MAX_INCR) = .ret (some bp, s') ∧
          ∃ n, ∀ fuel, n ≤ fuel → ∃ p m', s.mmMalloc fuel size = .ret (some p, { s' with mem := m' }) ∧
            expandCalls fuel s size = .ret 1) := by
  have hcall : ∀ fuel, s.mmMalloc fuel size = allocateLoop fuel s size := by
    intro fuel
    rw [mmMalloc, if_neg h.started]
    exact if_neg (by omega)
  simp only [hcall]
  refine ⟨allocateLoop_fit h hsize.1, fun hno hsbrk => ?_⟩
  cases hres : s.memSbrk (ALIGN (max (newSize size) MAX_INCR)) with
  | mk res s₁ =>
      rw [hres] at hsbrk
      cases res with
      | none => exact absurd rfl hsbrk
      | some x => exact allocateLoop_grow h hsize.1 hno hres

/-- A free block of 64 bytes is enough for 8 bytes, and not for 100. -/
theorem mmMalloc_fit_oneFree :
    (∃ n, ∀ fuel, n ≤ fuel → ∃ p m',
      (oneFree 0#32).mmMalloc fuel 8 = .ret (some p, { oneFree 0#32 with mem := m' }) ∧
        expandCalls fuel (oneFree 0#32) 8 = .ret 0) ∧
    ∃ bp s', (oneFree 0#32).expandHeap (max (newSize 100) MAX_INCR) = .ret (some bp, s') ∧
      ∃ n, ∀ fuel, n ≤ fuel → ∃ p m',
        (oneFree 0#32).mmMalloc fuel 100 = .ret (some p, { s' with mem := m' }) ∧
          expandCalls fuel (oneFree 0#32) 100 = .ret 1 :=
  ⟨(mmMalloc_fit (ready_oneFree 0#32) (by decide)).1 ⟨⟨64, false⟩, List.mem_singleton.mpr rfl, rfl, by decide⟩,
    (mmMalloc_fit (ready_oneFree 0#32) (by decide)).2
      (by
        rintro ⟨b, hb, -, hfit⟩
        rw [List.mem_singleton] at hb
        subst hb
        exact absurd hfit (by decide))
      (by decide)⟩

end Heap

end Malloc

end SysuOs
