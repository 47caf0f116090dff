import SysuOs.BuddyRun

/-! A pool of physical pages as its users see it, one page at a time: which pages are free, which are
taken, and that `allocate` and `release` move a page between the two. The buddy allocator is one. -/

namespace SysuOs

/-- A pool of pages, by their frame numbers; page 0 is in no pool. -/
class PagePool (P : Type) where
  free : P → Nat → Prop
  taken : P → Nat → Prop
  allocate : P → Option (Nat × P)
  release : P → Nat → P
  bound : ∀ p x, free p x → 0 < x ∧ x < 2 ^ 20
  allocate_free : ∀ p x q, allocate p = some (x, q) → free p x ∧
    (∀ y, free q y ↔ free p y ∧ y ≠ x) ∧ ∀ y, taken q y ↔ taken p y ∨ y = x
  allocate_none : ∀ p x, allocate p = none → ¬free p x
  release_free : ∀ p x, taken p x →
    (∀ y, free (release p x) y ↔ free p y ∨ y = x) ∧ ∀ y, taken (release p x) y ↔ taken p y ∧ y ≠ x

namespace PagePool

variable {P : Type} [PagePool P] {p q : P} {x : Nat}

/-- How many pages are free. -/
noncomputable def freeCount (p : P) : Nat := {x | free p x}.ncard

theorem finite_free (p : P) : {x | free p x}.Finite :=
  (Set.finite_Iio (2 ^ 20)).subset fun x hx => (bound p x hx).2

theorem freeCount_allocate (h : allocate p = some (x, q)) : freeCount p = freeCount q + 1 := by
  obtain ⟨hfree, hleft, -⟩ := allocate_free p x q h
  have hset : {y | free q y} = {y | free p y} \ {x} := Set.ext hleft
  rw [freeCount, freeCount, hset]
  exact (Set.ncard_sdiff_singleton_add_one (show x ∈ {y | free p y} from hfree) (finite_free p)).symm

theorem freeCount_eq_zero : freeCount p = 0 ↔ allocate p = none := by
  constructor
  · intro h
    cases hres : allocate p with
    | none => rfl
    | some y =>
        have hcount := freeCount_allocate (x := y.1) (q := y.2) hres
        omega
  · intro h
    rw [freeCount, Set.ncard_eq_zero (finite_free p), Set.eq_empty_iff_forall_notMem]
    exact fun y => allocate_none p y h

end PagePool

/-- `PAddressPool` between two calls: the pages from frame `first` on, in the hands of the buddy allocator
or in a live allocation. -/
structure BuddyPool where
  buddy : Buddy
  live : List (Nat × Int)
  first : Nat
  first_pos : 0 < first
  inv : ∃ M total N F, Buddy.Inv M total N buddy F live ∧ first + N ≤ 2 ^ 20

namespace BuddyPool

open Buddy Dyadic

theorem held_one {i p : Nat} : Held (i, 1) p ↔ p = i := by
  have horder : count2order 1 = 0 := by decide
  rw [Held, Covers]
  dsimp only
  rw [horder]
  omega

/-- A free page is a managed one in no live allocation. -/
theorem inv_inBlock {M : Nat → Prop} {total N : Nat} {b : Buddy} {F : Nat → List Nat} {live : List (Nat × Int)}
    (h : Inv M total N b F live) (p : Nat) : b.InBlock p ↔ M p ∧ ¬Live live p := by
  rw [inBlock_iff h.free]
  constructor
  · exact fun hp => ⟨(h.managed p).mp (Or.inl hp), h.disjoint p hp⟩
  · exact fun hp => ((h.managed p).mpr hp.1).resolve_right hp.2

theorem inv_nodup {M : Nat → Prop} {total N : Nat} {b : Buddy} {F : Nat → List Nat} {live : List (Nat × Int)}
    (h : Inv M total N b F live) : live.Nodup := by
  refine h.apart.imp fun {a a'} hapart heq => ?_
  subst heq
  have hself : Held a a.1 := ⟨le_refl _, Nat.lt_add_of_pos_right (Nat.two_pow_pos _)⟩
  exact hapart a.1 hself hself

/-- `PAddressPool::allocate(1)`. -/
def allocate (p : BuddyPool) : Option (Nat × BuddyPool) :=
  match hres : p.buddy.allocate 1 with
  | (none, _) => none
  | (some i, buddy) => some (p.first + i,
      { p with
        buddy
        live := (i, 1) :: p.live
        inv := by
          obtain ⟨M, total, N, F, hinv, hbound⟩ := p.inv
          rcases hinv.allocate (le_refl (1 : Int)) with hnone | ⟨i', b', F', hsome, hinv'⟩
          · rw [hnone] at hres
            cases hres
          · rw [hsome] at hres
            obtain ⟨hi, rfl⟩ := Prod.mk.inj hres
            obtain rfl := Option.some.inj hi
            exact ⟨M, total, N, F', hinv', hbound⟩ })

/-- `PAddressPool::release` of a page that has been allocated on its own. -/
def release (p : BuddyPool) (x : Nat) : BuddyPool :=
  if hlive : (x - p.first, 1) ∈ p.live then
    { p with
      buddy := p.buddy.release (x - p.first) 1
      live := p.live.erase (x - p.first, 1)
      inv := by
        obtain ⟨M, total, N, F, hinv, hbound⟩ := p.inv
        obtain ⟨F', hinv'⟩ := (hinv.perm (List.perm_cons_erase hlive)).release
        exact ⟨M, total, N, F', hinv', hbound⟩ }
  else p

def free (p : BuddyPool) (x : Nat) : Prop := p.first ≤ x ∧ p.buddy.InBlock (x - p.first)

def taken (p : BuddyPool) (x : Nat) : Prop := p.first ≤ x ∧ (x - p.first, 1) ∈ p.live

instance : PagePool BuddyPool where
  free := free
  taken := taken
  allocate := allocate
  release := release
  bound p x h := by
    obtain ⟨M, total, N, F, hinv, hbound⟩ := p.inv
    have hpos := p.first_pos
    have hpage := (inBlock_iff hinv.free).mp h.2
    have hlt := hinv.blocks.lt hpage
    have hle := h.1
    omega
  allocate_free p x q h := by
    obtain ⟨M, total, N, F, hinv, -⟩ := p.inv
    rcases hinv.allocate (le_refl (1 : Int)) with hnone | ⟨i, b, F', hsome, hinv'⟩
    · rw [allocate] at h
      split at h
      · cases h
      · next hres =>
          rw [hnone] at hres
          cases hres
    · have hq : x = p.first + i ∧ q.buddy = b ∧ q.live = (i, 1) :: p.live ∧ q.first = p.first := by
        rw [allocate] at h
        split at h
        · cases h
        · next j b' hres =>
            obtain ⟨hj, rfl⟩ := Prod.mk.inj (hsome.symm.trans hres)
            obtain rfl := Option.some.inj hj
            obtain ⟨rfl, rfl⟩ := Prod.mk.inj (Option.some.inj h)
            exact ⟨rfl, rfl, rfl, rfl⟩
      obtain ⟨rfl, hbuddy, hlive, hfirst⟩ := hq
      have hpage : p.buddy.InBlock i := by
        rw [inv_inBlock hinv]
        refine ⟨(hinv'.managed i).mp (Or.inr ⟨(i, 1), List.mem_cons_self, held_one.mpr rfl⟩), fun hold => ?_⟩
        obtain ⟨a, ha, hheld⟩ := hold
        exact (List.pairwise_cons.mp hinv'.apart).1 a ha i (held_one.mpr rfl) hheld
      refine ⟨⟨Nat.le_add_right _ _, ?_⟩, fun y => ?_, fun y => ?_⟩
      · rw [Nat.add_sub_cancel_left]
        exact hpage
      · rw [free, free, hbuddy, hfirst, inv_inBlock hinv', inv_inBlock hinv, live_cons, held_one, not_or,
          and_assoc]
        refine and_congr_right fun hle => ?_
        constructor
        · rintro ⟨hM, hne, hnot⟩
          exact ⟨⟨hM, hnot⟩, fun heq => hne (by omega)⟩
        · rintro ⟨⟨hM, hnot⟩, hne⟩
          exact ⟨hM, fun heq => hne (by omega), hnot⟩
      · rw [taken, taken, hlive, hfirst, List.mem_cons, Prod.mk.injEq]
        constructor
        · rintro ⟨hle, ⟨hy, -⟩ | hmem⟩
          · right
            omega
          · exact Or.inl ⟨hle, hmem⟩
        · rintro (⟨hle, hmem⟩ | rfl)
          · exact ⟨hle, Or.inr hmem⟩
          · exact ⟨Nat.le_add_right _ _, Or.inl ⟨Nat.add_sub_cancel_left _ _, rfl⟩⟩
  allocate_none p x h hfree := by
    obtain ⟨M, total, N, F, hinv, -⟩ := p.inv
    have hcount := hinv.count
    have hle := hinv.total_le
    have hpages := hinv.totalPages
    obtain ⟨o, s, hs, -⟩ := (inBlock_iff hinv.free).mp hfree.2
    rcases allocateBlockLoop_spec (MAX_ORDER + 2) (count2order 1) hinv.free hinv.blocks (by omega)
      (by omega) with ⟨-, hempty⟩ | ⟨s', b, F', hsome, -⟩
    · rw [hempty o (Nat.zero_le o)] at hs
      exact absurd hs List.not_mem_nil
    · rw [allocate] at h
      split at h
      · next hres =>
          rw [Buddy.allocate, allocateBlock, hsome] at hres
          simp at hres
      · cases h
  release_free p x h := by
    obtain ⟨M, total, N, F, hinv, -⟩ := p.inv
    obtain ⟨hle, hlive⟩ := h
    obtain ⟨F', hinv'⟩ := (hinv.perm (List.perm_cons_erase hlive)).release
    have hr : release p x = _ := dif_pos hlive
    have hpage : ∀ k, Live p.live k ↔ k = x - p.first ∨ Live (p.live.erase (x - p.first, 1)) k := by
      intro k
      rw [← held_one, ← live_cons]
      exact exists_congr fun a => and_congr_left fun _ => (List.perm_cons_erase hlive).mem_iff
    have hmanaged : M (x - p.first) := (hinv.managed _).mp (Or.inr ⟨_, hlive, held_one.mpr rfl⟩)
    have hgone : ¬Live (p.live.erase (x - p.first, 1)) (x - p.first) := by
      rintro ⟨a, ha, hheld⟩
      have hapart := (hinv.perm (List.perm_cons_erase hlive)).apart
      exact (List.pairwise_cons.mp hapart).1 a ha _ (held_one.mpr rfl) hheld
    rw [hr]
    refine ⟨fun y => ?_, fun y => ?_⟩
    · constructor
      · rintro ⟨hy, hblock⟩
        obtain ⟨hM, hnot⟩ := (inv_inBlock hinv' _).mp hblock
        by_cases hyx : y = x
        · exact Or.inr hyx
        · left
          refine ⟨hy, (inv_inBlock hinv _).mpr ⟨hM, fun hold => ?_⟩⟩
          rcases (hpage _).mp hold with heq | hin
          · change p.first ≤ y at hy
            exact hyx (by omega)
          · exact hnot hin
      · rintro (⟨hy, hblock⟩ | rfl)
        · obtain ⟨hM, hnot⟩ := (inv_inBlock hinv _).mp hblock
          exact ⟨hy, (inv_inBlock hinv' _).mpr ⟨hM, fun hin => hnot ((hpage _).mpr (Or.inr hin))⟩⟩
        · exact ⟨hle, (inv_inBlock hinv' _).mpr ⟨hmanaged, hgone⟩⟩
    · change p.first ≤ y ∧ (y - p.first, (1 : Int)) ∈ p.live.erase (x - p.first, 1) ↔ _
      rw [(inv_nodup hinv).mem_erase_iff]
      constructor
      · rintro ⟨hy, hne, hmem⟩
        refine ⟨⟨hy, hmem⟩, ?_⟩
        rintro rfl
        exact hne rfl
      · rintro ⟨⟨hy, hmem⟩, hne⟩
        refine ⟨hy, fun heq => hne ?_, hmem⟩
        have hsub := (Prod.mk.inj heq).1
        omega

/-- `PAddressPool::initialize` for `N` pages from frame `first` on, all of them free. -/
def boot (first N : Nat) (hfirst : 0 < first) (hbound : first + N ≤ 2 ^ 20) : BuddyPool where
  buddy := freshPool.resources.init (fun _ => 0) N (fun _ => 0) fun _ => default
  live := []
  first := first
  first_pos := hfirst
  inv := by
    obtain ⟨M, total, F, hinv⟩ := inv_init (unused_freshPool N) (fun p _ => getMap_zero p) fun _ => default
    exact ⟨M, total, N, F, hinv, hbound⟩

end BuddyPool

end SysuOs
