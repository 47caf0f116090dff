import Mathlib
import SysuOs.Walk
import SysuOs.MallocTags

/-! The segregated lists. The cell of a group is followed by the free blocks of the group, doubly linked through
the first words of their payloads; the cell itself has no backward link. -/

namespace SysuOs

namespace Malloc

def next (m : Memory) (p : Nat) : Option Nat := link (GET_NEXT_FREEBLKP m p)

def prev (m : Memory) (p : Nat) : Option Nat := link (GET_PREV_FREEBLKP m p)

/-- The cell of a group. -/
def cell (tableBase i : Nat) : Nat := tableBase + i * DSIZE

/-- The payloads at which blocks lie: past the table, and with room for two links. -/
structure Spaced (tableBase : Nat) (nodes : Set Nat) : Prop where
  table : 0 < tableBase
  above : ∀ p ∈ nodes, cell tableBase MAX_GROUP ≤ p
  lt : ∀ p ∈ nodes, p < 2 ^ 32
  apart : ∀ p ∈ nodes, ∀ q ∈ nodes, p ≠ q + DSIZE

/-- `G i` lists the blocks of group `i`. -/
structure Lists (m : Memory) (tableBase : Nat) (nodes : Set Nat) (G : Nat → List Nat) : Prop where
  walk : ∀ i < MAX_GROUP, Walk (next m) (next m (cell tableBase i)) (G i)
  back : ∀ i < MAX_GROUP, Back (prev m) (some (cell tableBase i)) (G i)
  mem : ∀ i < MAX_GROUP, ∀ p ∈ G i, p ∈ nodes
  disjoint : ∀ i < MAX_GROUP, ∀ j < MAX_GROUP, ∀ p, p ∈ G i → p ∈ G j → i = j

/-- The words that hold links. -/
def LinkWord (tableBase : Nat) (G : Nat → List Nat) (a : Nat) : Prop :=
  ∃ i < MAX_GROUP, a = cell tableBase i ∨ ∃ p ∈ G i, a = p ∨ a = p + DSIZE

theorem group_lt (size : Nat) : group size < MAX_GROUP := by
  unfold group
  dsimp only
  split
  · decide
  · next h => exact Nat.lt_of_not_le h

theorem next_congr {m m' : Memory} {p : Nat} (h : m' p = m p) : next m' p = next m p := by
  rw [next, GET_NEXT_FREEBLKP, GET_PTR_congr h]
  rfl

theorem prev_congr {m m' : Memory} {p : Nat} (h : m' (p + DSIZE) = m (p + DSIZE)) : prev m' p = prev m p := by
  rw [prev, GET_PREV_FREEBLKP, GET_PTR_congr h]
  rfl

/-- The lists depend on the words of their links only. -/
theorem Lists.congr {m m' : Memory} {tableBase : Nat} {nodes : Set Nat} {G : Nat → List Nat}
    (h : Lists m tableBase nodes G) (heq : ∀ a, LinkWord tableBase G a → m' a = m a) :
    Lists m' tableBase nodes G where
  walk i hi := by
    rw [next_congr (heq _ ⟨i, hi, Or.inl rfl⟩)]
    exact (h.walk i hi).congr fun p hp => next_congr (heq _ ⟨i, hi, Or.inr ⟨p, hp, Or.inl rfl⟩⟩)
  back i hi := (h.back i hi).congr fun p hp => prev_congr (heq _ ⟨i, hi, Or.inr ⟨p, hp, Or.inr rfl⟩⟩)
  mem := h.mem
  disjoint := h.disjoint

section
variable {m : Memory} {tableBase : Nat} {nodes : Set Nat} {G : Nat → List Nat} (hs : Spaced tableBase nodes)
include hs

theorem Spaced.ne_cell {p : Nat} (hp : p ∈ nodes) {i : Nat} (hi : i < MAX_GROUP) :
    p ≠ cell tableBase i ∧ p + DSIZE ≠ cell tableBase i := by
  have h := hs.above p hp
  simp only [cell, MAX_GROUP, DSIZE] at h hi ⊢
  omega

theorem Spaced.cell_ne_zero (i : Nat) : cell tableBase i ≠ 0 := by
  have h := hs.table
  simp only [cell]
  omega

/-- A cell may lie where the backward link of the cell before it would be, but not where one of a block is. -/
theorem Spaced.ne_add {p q : Nat} (hp : p ∈ nodes ∨ ∃ i < MAX_GROUP, p = cell tableBase i) (hq : q ∈ nodes) :
    p ≠ q + DSIZE := by
  rcases hp with hp | ⟨i, hi, rfl⟩
  · exact hs.apart p hp q hq
  · exact fun he => (hs.ne_cell hq hi).2 he.symm

end

theorem cell_inj {tableBase i j : Nat} (h : cell tableBase i = cell tableBase j) : i = j := by
  simp only [cell, DSIZE] at h
  omega

/-! ### Taking a block out of its list -/

section
variable {m : Memory} {tableBase : Nat} {nodes : Set Nat} {G : Nat → List Nat}

/-- The words that `remove_freelist` leaves behind. -/
theorem removeFreelist_eq {m : Memory} {x y : Nat} (hy : prev m x = some y) :
    removeFreelist m x = PUT_PTR (PUT_PTR (PUT_PTR (match next m x with
      | some n => PUT_PTR m (n + DSIZE) y
      | none => m) y (GET_PTR m x)) x 0) (x + DSIZE) 0 := by
  obtain ⟨hprev, hne⟩ := link_eq_some.mp hy
  unfold removeFreelist
  simp only [hprev]
  rw [if_pos hne, next]
  by_cases hnext : GET_NEXT_FREEBLKP m x = 0
  · rw [link_eq_none.mpr hnext, if_neg (not_not.mpr hnext)]
    rfl
  · rw [link_of_ne hnext, if_pos hnext]
    rfl

theorem removeFreelist_self {m : Memory} {x y : Nat} (hy : prev m x = some y) :
    removeFreelist m x x = 0#32 ∧ removeFreelist m x (x + DSIZE) = 0#32 := by
  rw [removeFreelist_eq hy]
  refine ⟨?_, PUT_self _ _ _⟩
  rw [PUT_PTR_of_ne (by simp [DSIZE])]
  exact PUT_self _ _ _

/-- A word away from the links that are rewritten. -/
theorem removeFreelist_of_ne {m : Memory} {x y a : Nat} (hy : prev m x = some y)
    (hnext : ∀ n, next m x = some n → a ≠ n + DSIZE) (hay : a ≠ y) (hax : a ≠ x) (hax' : a ≠ x + DSIZE) :
    removeFreelist m x a = m a := by
  rw [removeFreelist_eq hy, PUT_PTR_of_ne hax', PUT_PTR_of_ne hax, PUT_PTR_of_ne hay]
  cases hn : next m x with
  | none => rfl
  | some n => exact PUT_PTR_of_ne (hnext n hn)

theorem Lists.prev_spec (h : Lists m tableBase nodes G) {i x : Nat} (hi : i < MAX_GROUP) (hx : x ∈ G i) :
    ∃ y, prev m x = some y ∧ (y = cell tableBase i ∨ y ∈ G i) := by
  obtain ⟨y, hy⟩ := (h.back i hi).exists_prev hx
  exact ⟨y, hy, (h.back i hi).mem_of_prev hx hy⟩

theorem Lists.next_mem (h : Lists m tableBase nodes G) {i x n : Nat} (hi : i < MAX_GROUP) (hx : x ∈ G i)
    (hn : next m x = some n) : n ∈ G i := by
  have hw := h.walk i hi
  obtain ⟨s, t, hsplit⟩ := List.append_of_mem hx
  rw [hsplit] at hw
  have htail := hw.suffix.2
  rw [hn] at htail
  cases t with
  | nil => simp at htail
  | cons b t =>
      obtain rfl := Option.some.inj htail.1
      rw [hsplit]
      simp

/-- Only words of links change. -/
theorem Lists.removeFreelist_frame (h : Lists m tableBase nodes G) {i x a : Nat} (hi : i < MAX_GROUP)
    (hx : x ∈ G i) (ha : ¬LinkWord tableBase G a) : removeFreelist m x a = m a := by
  obtain ⟨y, hy, hmem⟩ := h.prev_spec hi hx
  refine removeFreelist_of_ne hy (fun n hn he => ?_) (fun he => ?_) (fun he => ?_) fun he => ?_
  · exact ha ⟨i, hi, Or.inr ⟨n, h.next_mem hi hx hn, Or.inr he⟩⟩
  · rcases hmem with hcell | hmem
    · exact ha ⟨i, hi, Or.inl (he.trans hcell)⟩
    · exact ha ⟨i, hi, Or.inr ⟨y, hmem, Or.inl he⟩⟩
  · exact ha ⟨i, hi, Or.inr ⟨x, hx, Or.inl he⟩⟩
  · exact ha ⟨i, hi, Or.inr ⟨x, hx, Or.inr he⟩⟩

/-- The forward links, those of the removed block apart. -/
theorem Lists.next_removed (hs : Spaced tableBase nodes) (h : Lists m tableBase nodes G) {i x a : Nat}
    (hi : i < MAX_GROUP) (hx : x ∈ G i) (ha : a ∈ nodes ∨ ∃ j < MAX_GROUP, a = cell tableBase j) (hax : a ≠ x) :
    next (removeFreelist m x) a = unlinkNext (next m) (prev m) x a := by
  obtain ⟨y, hy, hmem⟩ := h.prev_spec hi hx
  have hxn := h.mem i hi x hx
  have hout : ∀ n, next m x = some n → a ≠ n + DSIZE := fun n hn =>
    hs.ne_add ha (h.mem i hi n (h.next_mem hi hx hn))
  by_cases hay : a = y
  · subst hay
    rw [unlinkNext_pred hy, next, next, GET_NEXT_FREEBLKP, removeFreelist_eq hy,
      GET_PTR_of_ne (hs.ne_add ha hxn), GET_PTR_of_ne hax, GET_PTR_PUT_PTR (GET_PTR_lt m x)]
    rfl
  · rw [unlinkNext_of_ne fun he => hay (Option.some.inj (he.symm.trans hy))]
    exact next_congr (removeFreelist_of_ne hy hout hay hax (hs.ne_add ha hxn))

/-- The backward links, those of the removed block apart. -/
theorem Lists.prev_removed (hs : Spaced tableBase nodes) (h : Lists m tableBase nodes G) {i x a : Nat}
    (hi : i < MAX_GROUP) (hx : x ∈ G i) (ha : a ∈ nodes) (hax : a ≠ x) :
    prev (removeFreelist m x) a = unlinkPrev (next m) (prev m) x a := by
  obtain ⟨y, hy, hmem⟩ := h.prev_spec hi hx
  have hxn := h.mem i hi x hx
  have hyn : y ∈ nodes ∨ ∃ j < MAX_GROUP, y = cell tableBase j := by
    rcases hmem with hcell | hmem
    · exact Or.inr ⟨i, hi, hcell⟩
    · exact Or.inl (h.mem i hi y hmem)
  have hay : a + DSIZE ≠ y := fun he => hs.ne_add hyn ha he.symm
  have hax' : a + DSIZE ≠ x := fun he => hs.apart x hxn a ha he.symm
  have hadd : a + DSIZE ≠ x + DSIZE := fun he => hax (Nat.add_right_cancel he)
  by_cases han : next m x = some a
  · have hylt : y < 2 ^ 32 := by
      rw [← (link_eq_some.mp hy).1]
      exact GET_PTR_lt _ _
    rw [unlinkPrev_succ han, hy, prev, GET_PREV_FREEBLKP, removeFreelist_eq hy, han, GET_PTR_of_ne hadd,
      GET_PTR_of_ne hax', GET_PTR_of_ne hay, GET_PTR_PUT_PTR hylt]
    exact link_of_ne (link_eq_some.mp hy).2
  · rw [unlinkPrev_of_ne han]
    refine prev_congr (removeFreelist_of_ne hy (fun n hn he => ?_) hay hax' hadd)
    exact han (by rw [hn, Nat.add_right_cancel he])

/-- Taking a block out of its list. -/
theorem Lists.remove (hs : Spaced tableBase nodes) (h : Lists m tableBase nodes G) {i x : Nat}
    (hi : i < MAX_GROUP) (hx : x ∈ G i) :
    Lists (removeFreelist m x) tableBase nodes (Function.update G i ((G i).erase x)) := by
  obtain ⟨y, hy, hmem⟩ := h.prev_spec hi hx
  have hnd := (h.walk i hi).nodup
  have hcellx : ∀ j < MAX_GROUP, cell tableBase j ≠ x := fun j hj he =>
    (hs.ne_cell (h.mem i hi x hx) hj).1 he.symm
  have hsub : ∀ j, ∀ p ∈ Function.update G i ((G i).erase x) j, p ∈ G j ∧ (j < MAX_GROUP → p ≠ x) := by
    intro j p hp
    by_cases hj : j = i
    · subst hj
      rw [Function.update_self] at hp
      exact ⟨List.mem_of_mem_erase hp, fun _ he => hnd.not_mem_erase (he ▸ hp)⟩
    · rw [Function.update_of_ne hj] at hp
      exact ⟨hp, fun hlt he => hj (h.disjoint j hlt i hi x (he ▸ hp) hx)⟩
  have hcelli : cell tableBase i ∉ G i := fun hc => (hs.ne_cell (h.mem i hi _ hc) hi).1 rfl
  obtain ⟨hwalk, hback⟩ := unlink_segment (h.walk i hi) (h.back i hi) hx fun p hp => by
    obtain rfl := Option.some.inj hp
    exact hcelli
  have hnext : ∀ j < MAX_GROUP, ∀ p ∈ G j, p ≠ x →
      next (removeFreelist m x) p = unlinkNext (next m) (prev m) x p := fun j hj p hp hpx =>
    h.next_removed hs hi hx (Or.inl (h.mem j hj p hp)) hpx
  have hprev : ∀ j < MAX_GROUP, ∀ p ∈ G j, p ≠ x →
      prev (removeFreelist m x) p = unlinkPrev (next m) (prev m) x p := fun j hj p hp hpx =>
    h.prev_removed hs hi hx (h.mem j hj p hp) hpx
  have hhead : ∀ j < MAX_GROUP, next (removeFreelist m x) (cell tableBase j) =
      unlinkNext (next m) (prev m) x (cell tableBase j) := fun j hj =>
    h.next_removed hs hi hx (Or.inr ⟨j, hj, rfl⟩) (hcellx j hj)
  refine ⟨fun j hj => ?_, fun j hj => ?_, fun j hj p hp => h.mem j hj p (hsub j p hp).1,
    fun j hj k hk p hpj hpk => h.disjoint j hj k hk p (hsub j p hpj).1 (hsub k p hpk).1⟩
  · rw [hhead j hj]
    by_cases hji : j = i
    · subst hji
      rw [Function.update_self]
      have hcell : unlinkNext (next m) (prev m) x (cell tableBase j) =
          if next m (cell tableBase j) = some x then next m x else next m (cell tableBase j) := by
        split
        · next he =>
            refine unlinkNext_pred ?_
            have hw := h.walk j hj
            have hb := h.back j hj
            rw [he] at hw
            cases hl : G j with
            | nil => rw [hl] at hw; simp at hw
            | cons b l =>
                rw [hl] at hw hb
                obtain rfl := Option.some.inj hw.1
                exact hb.1
        · next he =>
            exact unlinkNext_of_ne fun hp => he ((h.back j hj).next_of_prev (h.walk j hj) hx hp hcelli)
      rw [hcell]
      exact hwalk.congr fun p hp => hnext j hj p (List.mem_of_mem_erase hp) fun he => hnd.not_mem_erase (he ▸ hp)
    · rw [Function.update_of_ne hji]
      have hyj : ∀ p, (p = cell tableBase j ∨ p ∈ G j) → prev m x ≠ some p := by
        intro p hp hpx
        obtain rfl := Option.some.inj (hy.symm.trans hpx)
        rcases hmem with hcell | hmem <;> rcases hp with hp | hp
        · exact hji (cell_inj (hp.symm.trans hcell))
        · exact (hs.ne_cell (h.mem j hj y hp) hi).1 hcell
        · exact (hs.ne_cell (h.mem i hi y hmem) hj).1 hp
        · exact hji (h.disjoint j hj i hi y hp hmem)
      rw [unlinkNext_of_ne (hyj _ (Or.inl rfl))]
      refine (h.walk j hj).congr fun p hp => ?_
      rw [hnext j hj p hp fun he => hji (h.disjoint j hj i hi x (he ▸ hp) hx)]
      exact unlinkNext_of_ne (hyj p (Or.inr hp))
  · by_cases hji : j = i
    · subst hji
      rw [Function.update_self]
      exact hback.congr fun p hp => hprev j hj p (List.mem_of_mem_erase hp) fun he => hnd.not_mem_erase (he ▸ hp)
    · rw [Function.update_of_ne hji]
      refine (h.back j hj).congr fun p hp => ?_
      rw [hprev j hj p hp fun he => hji (h.disjoint j hj i hi x (he ▸ hp) hx)]
      exact unlinkPrev_of_ne fun hn => hji (h.disjoint j hj i hi p hp (h.next_mem hi hx hn))

/-! ### Putting a block in front of its group -/

theorem appendFreelist_listed {m : Memory} {x size : Nat} (h : ¬(m x = 0#32 ∧ m (x + DSIZE) = 0#32)) :
    appendFreelist m tableBase x size = .ret m := by
  rw [appendFreelist, if_pos]
  rw [not_and_or] at h
  refine h.imp (fun hx hz => hx ?_) fun hx hz => hx ?_
  · exact BitVec.eq_of_toNat_eq hz
  · exact BitVec.eq_of_toNat_eq hz

/-- The memory that `append_freelist` leaves behind for a block that is in no list. -/
def appended (m : Memory) (tableBase x size : Nat) : Memory :=
  PUT_PTR (match next m (cell tableBase (group size)) with
    | some f => PUT_PTR (PUT_PTR (PUT_PTR m (x + DSIZE) (cell tableBase (group size))) x f) (f + DSIZE) x
    | none => PUT_PTR (PUT_PTR m (x + DSIZE) (cell tableBase (group size))) x 0) (cell tableBase (group size)) x

theorem appendFreelist_eq (hs : Spaced tableBase nodes) {x size : Nat} (hx : x ∈ nodes) (hsize : 24 ≤ size)
    (hnext : m x = 0#32) (hprev : m (x + DSIZE) = 0#32) :
    appendFreelist m tableBase x size = .ret (appended m tableBase x size) := by
  have hcell := hs.ne_cell hx (group_lt size)
  have hzero : ¬(GET_NEXT_FREEBLKP m x ≠ 0 ∨ GET_PREV_FREEBLKP m x ≠ 0) := by
    simp [GET_NEXT_FREEBLKP, GET_PREV_FREEBLKP, GET_PTR, hnext, hprev]
  rw [appendFreelist, if_neg hzero, if_neg (Nat.not_lt.mpr hsize)]
  show Outcome.ret _ = Outcome.ret (appended m tableBase x size)
  congr 1
  unfold PUT_PREV_FREEBLKP PUT_NEXT_FREEBLKP
  rw [show tableBase + group size * DSIZE = cell tableBase (group size) from rfl,
    GET_PTR_of_ne hcell.1.symm, GET_PTR_of_ne hcell.2.symm, appended, next, GET_NEXT_FREEBLKP]
  by_cases hf : GET_PTR m (cell tableBase (group size)) = 0
  · rw [link_eq_none.mpr hf, hf]
    rfl
  · rw [link_of_ne hf, if_pos hf]

/-- The first block of a group is in its list. -/
theorem Lists.first_mem (h : Lists m tableBase nodes G) {i f : Nat} (hi : i < MAX_GROUP)
    (hf : next m (cell tableBase i) = some f) : f ∈ G i := by
  have hw := h.walk i hi
  rw [hf] at hw
  cases hl : G i with
  | nil => rw [hl] at hw; simp at hw
  | cons b l =>
      rw [hl] at hw
      obtain rfl := Option.some.inj hw.1
      exact List.mem_cons_self

/-- Only words of links change. -/
theorem Lists.appended_frame (h : Lists m tableBase nodes G) {x size a : Nat} (ha : ¬LinkWord tableBase G a)
    (hax : a ≠ x) (hax' : a ≠ x + DSIZE) : appended m tableBase x size a = m a := by
  have hi := group_lt size
  have hcell : a ≠ cell tableBase (group size) := fun he => ha ⟨_, hi, Or.inl he⟩
  rw [appended, PUT_PTR_of_ne hcell]
  cases hf : next m (cell tableBase (group size)) with
  | none => exact (PUT_PTR_of_ne hax).trans (PUT_PTR_of_ne hax')
  | some f =>
      have haf : a ≠ f + DSIZE := fun he => ha ⟨_, hi, Or.inr ⟨f, h.first_mem hi hf, Or.inr he⟩⟩
      exact (PUT_PTR_of_ne haf).trans ((PUT_PTR_of_ne hax).trans (PUT_PTR_of_ne hax'))

theorem Spaced.ne_zero (hs : Spaced tableBase nodes) {x : Nat} (hx : x ∈ nodes) : x ≠ 0 := by
  have habove := hs.above x hx
  have htable := hs.table
  simp only [cell, MAX_GROUP, DSIZE] at *
  omega

theorem Spaced.cell_lt (hs : Spaced tableBase nodes) {i x : Nat} (hx : x ∈ nodes) (hi : i < MAX_GROUP) :
    cell tableBase i < 2 ^ 32 := by
  have habove := hs.above x hx
  have hlt := hs.lt x hx
  simp only [cell, MAX_GROUP, DSIZE] at *
  omega

/-- The forward links: the cell of the group names the block, and the block what the cell has named. -/
theorem next_appended_cell (hs : Spaced tableBase nodes) {x size : Nat} (hx : x ∈ nodes) :
    next (appended m tableBase x size) (cell tableBase (group size)) = some x := by
  rw [next, GET_NEXT_FREEBLKP, appended, GET_PTR_PUT_PTR (hs.lt x hx), link_of_ne (hs.ne_zero hx)]

theorem Lists.next_appended_self (hs : Spaced tableBase nodes) (h : Lists m tableBase nodes G) {x size : Nat}
    (hx : x ∈ nodes) : next (appended m tableBase x size) x = next m (cell tableBase (group size)) := by
  have hi := group_lt size
  rw [next, GET_NEXT_FREEBLKP, appended, GET_PTR_of_ne (hs.ne_cell hx hi).1]
  cases hf : next m (cell tableBase (group size)) with
  | none =>
      dsimp only
      rw [GET_PTR_PUT_PTR (by decide)]
      rfl
  | some f =>
      have hfn := h.mem _ hi f (h.first_mem hi hf)
      dsimp only
      rw [GET_PTR_of_ne (hs.apart x hx f hfn), GET_PTR_PUT_PTR (hs.lt f hfn)]
      exact link_of_ne (link_eq_some.mp hf).2

theorem Lists.next_appended (hs : Spaced tableBase nodes) (h : Lists m tableBase nodes G) {x size a : Nat}
    (hx : x ∈ nodes) (ha : a ∈ nodes ∨ ∃ j < MAX_GROUP, a = cell tableBase j) (hax : a ≠ x)
    (hac : a ≠ cell tableBase (group size)) : next (appended m tableBase x size) a = next m a := by
  have hi := group_lt size
  refine next_congr ?_
  rw [appended, PUT_PTR_of_ne hac]
  cases hf : next m (cell tableBase (group size)) with
  | none => exact (PUT_PTR_of_ne hax).trans (PUT_PTR_of_ne (hs.ne_add ha hx))
  | some f =>
      exact (PUT_PTR_of_ne (hs.ne_add ha (h.mem _ hi f (h.first_mem hi hf)))).trans
        ((PUT_PTR_of_ne hax).trans (PUT_PTR_of_ne (hs.ne_add ha hx)))

/-- The backward links: the block names the cell, and the block that was first names this one. -/
theorem Lists.prev_appended_self (hs : Spaced tableBase nodes) (h : Lists m tableBase nodes G) {x size : Nat}
    (hx : x ∈ nodes) (hnew : x ∉ G (group size)) :
    prev (appended m tableBase x size) x = some (cell tableBase (group size)) := by
  have hi := group_lt size
  have hlt := hs.cell_lt hx hi
  rw [prev, GET_PREV_FREEBLKP, appended, GET_PTR_of_ne (hs.ne_cell hx hi).2]
  have hlink : link (cell tableBase (group size)) = some (cell tableBase (group size)) :=
    link_of_ne (hs.cell_ne_zero _)
  cases hf : next m (cell tableBase (group size)) with
  | none =>
      dsimp only
      rw [GET_PTR_of_ne (by simp [DSIZE]), GET_PTR_PUT_PTR hlt, hlink]
  | some f =>
      have hfx : x ≠ f := fun he => hnew (he ▸ h.first_mem hi hf)
      dsimp only
      rw [GET_PTR_of_ne (fun he => hfx (Nat.add_right_cancel he)), GET_PTR_of_ne (by simp [DSIZE]),
        GET_PTR_PUT_PTR hlt, hlink]

theorem prev_appended (hs : Spaced tableBase nodes) {x size a : Nat} (hx : x ∈ nodes) (ha : a ∈ nodes)
    (hax : a ≠ x) : prev (appended m tableBase x size) a =
      if next m (cell tableBase (group size)) = some a then some x else prev m a := by
  have hac : a + DSIZE ≠ cell tableBase (group size) := (hs.ne_cell ha (group_lt size)).2
  have haddx : a + DSIZE ≠ x := fun he => hs.apart x hx a ha he.symm
  have hadd : a + DSIZE ≠ x + DSIZE := fun he => hax (Nat.add_right_cancel he)
  rw [prev, GET_PREV_FREEBLKP, appended, GET_PTR_of_ne hac]
  cases hf : next m (cell tableBase (group size)) with
  | none =>
      dsimp only
      rw [GET_PTR_of_ne haddx, GET_PTR_of_ne hadd, if_neg (by simp)]
      rfl
  | some f =>
      dsimp only
      by_cases hfa : f = a
      · rw [if_pos (by rw [hfa]), hfa, GET_PTR_PUT_PTR (hs.lt x hx), link_of_ne (hs.ne_zero hx)]
      · rw [if_neg (fun he => hfa (Option.some.inj he)),
          GET_PTR_of_ne (fun he => hfa (Nat.add_right_cancel he).symm), GET_PTR_of_ne haddx, GET_PTR_of_ne hadd]
        rfl

/-- The list of the group, with the block in front, and the other lists. -/
theorem Lists.walk_appended (hs : Spaced tableBase nodes) (h : Lists m tableBase nodes G) {x size j : Nat}
    (hx : x ∈ nodes) (hnew : ∀ i < MAX_GROUP, x ∉ G i) (hj : j < MAX_GROUP) :
    Walk (next (appended m tableBase x size)) (next (appended m tableBase x size) (cell tableBase j))
      (Function.update G (group size) (x :: G (group size)) j) := by
  have hi := group_lt size
  have hnode : ∀ j < MAX_GROUP, ∀ p ∈ G j, next (appended m tableBase x size) p = next m p := fun j hj p hp =>
    h.next_appended hs hx (Or.inl (h.mem j hj p hp)) (fun he => hnew j hj (he ▸ hp))
      (hs.ne_cell (h.mem j hj p hp) hi).1
  by_cases hji : j = group size
  · rw [hji, Function.update_self, next_appended_cell hs hx]
    refine ⟨rfl, ?_⟩
    rw [h.next_appended_self hs hx]
    exact (h.walk _ hi).congr (hnode _ hi)
  · rw [Function.update_of_ne hji, h.next_appended hs hx (Or.inr ⟨j, hj, rfl⟩)
      (fun he => (hs.ne_cell hx hj).1 he.symm) fun he => hji (cell_inj he)]
    exact (h.walk j hj).congr (hnode j hj)

theorem Lists.back_appended (hs : Spaced tableBase nodes) (h : Lists m tableBase nodes G) {x size j : Nat}
    (hx : x ∈ nodes) (hnew : ∀ i < MAX_GROUP, x ∉ G i) (hj : j < MAX_GROUP) :
    Back (prev (appended m tableBase x size)) (some (cell tableBase j))
      (Function.update G (group size) (x :: G (group size)) j) := by
  have hi := group_lt size
  by_cases hji : j = group size
  · rw [hji, Function.update_self]
    refine ⟨h.prev_appended_self hs hx (hnew _ hi), ?_⟩
    have hw := h.walk _ hi
    have hb := h.back _ hi
    have hmem := h.mem _ hi
    have hnd := hw.nodup
    have hnew' := hnew _ hi
    revert hw hb hmem hnd hnew'
    cases G (group size) with
    | nil => exact fun _ _ _ _ _ => trivial
    | cons f l =>
        intro hw hb hmem hnd hnew'
        have hne : ∀ p ∈ f :: l, p ≠ x := fun p hp he => hnew' (he ▸ hp)
        refine ⟨?_, hb.2.congr fun p hp => ?_⟩
        · rw [prev_appended hs hx (hmem f List.mem_cons_self) (hne f List.mem_cons_self), if_pos hw.1]
        · have hp' := List.mem_cons_of_mem f hp
          rw [prev_appended hs hx (hmem p hp') (hne p hp'), if_neg]
          intro he
          obtain rfl := Option.some.inj (hw.1.symm.trans he)
          exact (List.nodup_cons.mp hnd).1 hp
  · rw [Function.update_of_ne hji]
    refine (h.back j hj).congr fun p hp => ?_
    rw [prev_appended hs hx (h.mem j hj p hp) fun he => hnew j hj (he ▸ hp), if_neg]
    exact fun he => hji (h.disjoint j hj _ hi p hp (h.first_mem hi he))

/-- Putting a block in front of its group. -/
theorem Lists.append (hs : Spaced tableBase nodes) (h : Lists m tableBase nodes G) {x size : Nat} (hx : x ∈ nodes)
    (hnew : ∀ i < MAX_GROUP, x ∉ G i) :
    Lists (appended m tableBase x size) tableBase nodes
      (Function.update G (group size) (x :: G (group size))) := by
  have hi := group_lt size
  -- a block is this one in its group, or it has been in the group before
  have hcases : ∀ {j p}, p ∈ Function.update G (group size) (x :: G (group size)) j →
      (j = group size ∧ p = x) ∨ p ∈ G j := by
    intro j p hp
    by_cases hji : j = group size
    · subst hji
      rw [Function.update_self] at hp
      exact (List.mem_cons.mp hp).imp (fun he => ⟨rfl, he⟩) id
    · rw [Function.update_of_ne hji] at hp
      exact Or.inr hp
  refine ⟨fun j hj => h.walk_appended hs hx hnew hj, fun j hj => h.back_appended hs hx hnew hj,
    fun j hj p hp => ?_, fun j hj k hk p hpj hpk => ?_⟩
  · rcases hcases hp with ⟨-, rfl⟩ | hp'
    · exact hx
    · exact h.mem j hj p hp'
  · rcases hcases hpj with ⟨hji, rfl⟩ | hpj' <;> rcases hcases hpk with ⟨hki, hpx⟩ | hpk'
    · rw [hji, hki]
    · exact absurd hpk' (hnew k hk)
    · exact absurd hpj' (hpx ▸ hnew j hj)
    · exact h.disjoint j hj k hk p hpj' hpk'

end

end Malloc

end SysuOs
