import Mathlib
import SysuOs.BitMapFit
import SysuOs.PagingRmap
import SysuOs.PagingFault

/-! The reverse map from its start on, under any calls of `attach` and `detach`: the entries in use are those
of the pages' lists and the reserved one, and each call changes the keys of one page by one key. The pages start
with no reverse mapping but not all with `ref` 0: those of the kernel have 1. -/

namespace SysuOs

/-- `BitMap::initialize`. -/
def BitMap.init (bitmap : ByteMap) (length : Nat) : BitMap :=
  { bitmap := fun k => if k < (length + 7) / 8 then 0#8 else bitmap k, length }

/-- `RMapManager::initialize`, on whatever the memory of the entries and of the bits holds. -/
def RMapManager.init (length : Nat) (RMapStart : Nat → RMapEntry) (bitmap : ByteMap) : RMapManager where
  RMapStart := RMapStart
  bitmap := (BitMap.init bitmap length).set 0 true
  length := length
  attachFailed := false

namespace Kernel

/-- What `detach` goes by: the entry of a page table, by its address, and the process. -/
def keys (r : RMapManager) (l : List Nat) : Multiset (Nat × Nat) :=
  (l.map fun idx => ((r.RMapStart idx).ptePaddr, (r.RMapStart idx).owner) : List (Nat × Nat))

/-- The reverse mappings of all pages: disjoint lists of as many entries as the page's `ref` says above `base`,
which are, with the reserved one, just the entries in use. -/
structure RMapInv (s : Kernel) (base : Nat → Nat) (chain : Nat → List Nat) : Prop where
  bound : s.rmapManager.bitmap.length = s.rmapManager.length
  walk : ∀ f, Walk s.rmapManager.next (link (s.pageinfos f).extra) (chain f)
  ref : ∀ f, (s.pageinfos f).ref = base f + (chain f).length
  apart : ∀ f f', ∀ idx ∈ chain f, idx ∈ chain f' → f = f'
  used : ∀ idx < s.rmapManager.length, s.rmapManager.bitmap.get idx = true ↔ idx = 0 ∨ ∃ f, idx ∈ chain f
  null : s.rmapManager.bitmap.get 0 = true
  inside : ∀ f, ∀ idx ∈ chain f, idx < s.rmapManager.length

/-- The calls on a reverse map that is in use. `detach` is for pages with a reverse mapping only. -/
inductive RMapRun (s₀ : Kernel) : Kernel → Prop
  | start : RMapRun s₀ s₀
  | attach {s s' : Kernel} {f ptePaddr pteVaddr owner : Nat} {res : Option Nat} (h : RMapRun s₀ s)
      (hcall : s.attach f ptePaddr pteVaddr owner = .ret (res, s')) : RMapRun s₀ s'
  | detach {s s' : Kernel} {f ptePaddr owner : Nat} {res : Bool} (h : RMapRun s₀ s)
      (hne : (s.pageinfos f).extra ≠ 0) (hcall : s.detach f ptePaddr owner = .ret (res, s')) : RMapRun s₀ s'

/-- `attach` of a key to the page `f`: the page's keys are one more, or no entry is free and nothing changes. The
`ASSERT` of `incRef` fails where `ref` is 65535 already. -/
def AttachSpec (s : Kernel) (base : Nat → Nat) (chain : Nat → List Nat) (f ptePaddr pteVaddr owner : Nat) : Prop :=
  s.attach f ptePaddr pteVaddr owner =
      .ret (none, { s with rmapManager := { s.rmapManager with attachFailed := true } }) ∨
    (∃ idx s' chain', s.attach f ptePaddr pteVaddr owner = .ret (some idx, s') ∧ RMapInv s' base chain' ∧
      keys s'.rmapManager (chain' f) = (ptePaddr, owner) ::ₘ keys s.rmapManager (chain f) ∧
      ∀ f', f' ≠ f → keys s'.rmapManager (chain' f') = keys s.rmapManager (chain f')) ∨
    s.attach f ptePaddr pteVaddr owner = .halt ∧ (s.pageinfos f).ref ≥ 0xffff

/-- `detach` of a key from the page `f`: one occurrence of the key is gone, or there was none and nothing
changes. -/
def DetachSpec (s : Kernel) (base : Nat → Nat) (chain : Nat → List Nat) (f ptePaddr owner : Nat) : Prop :=
  (∃ s' chain', s.detach f ptePaddr owner = .ret (true, s') ∧ RMapInv s' base chain' ∧
      keys s.rmapManager (chain f) = (ptePaddr, owner) ::ₘ keys s'.rmapManager (chain' f) ∧
      ∀ f', f' ≠ f → keys s'.rmapManager (chain' f') = keys s.rmapManager (chain f')) ∨
    s.detach f ptePaddr owner = .ret (false, s) ∧ (ptePaddr, owner) ∉ keys s.rmapManager (chain f)

/-- All frames as pages, with these lists. -/
def pagesGhost (chain : Nat → List Nat) : Ghost where
  role _ := .page
  dirs _ := none
  chain := chain

/-- The state with each `ref` counted from `base` on. -/
def rebased (s : Kernel) (base : Nat → Nat) : Kernel :=
  { s with pageinfos := fun f => { s.pageinfos f with ref := (s.pageinfos f).ref - base f } }

section

variable {s s' : Kernel} {base : Nat → Nat} {f ptePaddr pteVaddr owner : Nat}

theorem rebased_setInfo (r : RMapManager) (pi : PageInfo) :
    rebased ({ s with rmapManager := r }.setInfo f pi) base =
      { s.rebased base with rmapManager := r }.setInfo f { pi with ref := pi.ref - base f } := by
  unfold rebased setInfo
  congr 1
  funext f'
  by_cases hff : f' = f
  · subst hff
    simp only [Function.update_self]
  · simp only [Function.update_of_ne hff]

theorem attach_ref_lt {idx : Nat} (h : s.attach f ptePaddr pteVaddr owner = .ret (some idx, s')) :
    (s.pageinfos f).ref < 0xffff := by
  rw [attach, RMapManager.allocate] at h
  rcases halloc : s.rmapManager.bitmap.allocate 1 with ⟨res, bitmap⟩
  rw [halloc] at h
  cases res with
  | none => simp at h
  | some idx' =>
      dsimp only at h
      obtain ⟨pi, hinc, -⟩ := Outcome.bind_eq_ret h
      by_contra hlt
      rw [PageInfo.incRef, Outcome.ASSERT_neg hlt] at hinc
      simp at hinc

end

namespace RMapInv

variable {s s' : Kernel} {base : Nat → Nat} {chain : Nat → List Nat} {f ptePaddr pteVaddr owner : Nat}

theorem le_ref (h : RMapInv s base chain) (f : Nat) : base f ≤ (s.pageinfos f).ref := by
  rw [h.ref f]
  exact Nat.le_add_right _ _

theorem chains (h : RMapInv s base chain) : Chains (s.rebased base) (pagesGhost chain) where
  bound := h.bound
  null := h.null
  walk f _ := h.walk f
  ref f _ := by
    show (s.pageinfos f).ref - base f = (chain f).length
    rw [h.ref f, Nat.add_sub_cancel_left]
  used f idx hidx := ⟨(h.used idx (h.inside f idx hidx)).mpr (Or.inr ⟨f, hidx⟩), h.inside f idx hidx⟩
  apart := h.apart
  pages _ _ := rfl

/-- The lists of a page that changes, and what is in use then. -/
theorem of_chains {l : List Nat} (h : Chains (s.rebased base) (pagesGhost (Function.update chain f l)))
    (hbase : ∀ f', base f' ≤ (s.pageinfos f').ref)
    (hused : ∀ idx < s.rmapManager.length, s.rmapManager.bitmap.get idx = true →
      idx = 0 ∨ ∃ f', idx ∈ Function.update chain f l f') : RMapInv s base (Function.update chain f l) where
  bound := h.bound
  walk f' := h.walk f' rfl
  ref f' := by
    have href : (s.pageinfos f').ref - base f' = (Function.update chain f l f').length := h.ref f' rfl
    have hle := hbase f'
    omega
  apart := h.apart
  used idx hidx := by
    refine ⟨hused idx hidx, ?_⟩
    rintro (rfl | ⟨f', hmem⟩)
    · exact h.null
    · exact (h.used f' idx hmem).1
  null := h.null
  inside f' idx hidx := (h.used f' idx hidx).2

theorem setChain_eq (chain : Nat → List Nat) (f : Nat) (l : List Nat) :
    (pagesGhost chain).setChain f l = pagesGhost (Function.update chain f l) := rfl

theorem keys_congr {r r' : RMapManager} {l : List Nat}
    (h : ∀ idx ∈ l, (r'.RMapStart idx).target = (r.RMapStart idx).target) : keys r' l = keys r l := by
  unfold keys
  congr 1
  refine List.map_congr_left fun idx hidx => ?_
  have ht := h idx hidx
  simp only [RMapEntry.target, Prod.mk.injEq] at ht
  rw [ht.1, ht.2.2]

/-! ### `attach` -/

/-- The new entry comes first in the list of the page. -/
theorem attach_inv {idx : Nat} (h : RMapInv s base chain)
    (hcall : s.attach f ptePaddr pteVaddr owner = .ret (some idx, s')) :
    (∀ f', idx ∉ chain f') ∧ RMapInv s' base (Function.update chain f (idx :: chain f)) := by
  obtain ⟨hlt, hget, rfl⟩ := attach_eq hcall
  obtain ⟨hnew, hchains⟩ := attached_chains (f := f) (v := pteVaddr) (a := ptePaddr) (q := owner) h.chains rfl hlt hget
  rw [setChain_eq] at hchains
  refine ⟨hnew, of_chains ?_ (fun f' => ?_) fun j hj hget => ?_⟩
  · rw [rebased_setInfo, Nat.sub_add_comm (h.le_ref f)]
    exact hchains
  · have hle := h.le_ref f'
    by_cases hff : f' = f
    · subst hff
      simp only [setInfo, Function.update_self]
      omega
    · simp only [setInfo, Function.update_of_ne hff]
      exact hle
  · -- an entry in use is the new one or was in use before
    change (s.rmapManager.bitmap.setRange idx 1 true).get j = true at hget
    rw [BitMap.get_setRange] at hget
    split at hget
    · rename_i hin
      obtain rfl : j = idx := by omega
      exact Or.inr ⟨f, by rw [Function.update_self]; exact List.mem_cons_self⟩
    · rcases (h.used j hj).mp hget with hfree | ⟨f', hmem⟩
      · exact Or.inl hfree
      refine Or.inr ⟨f', ?_⟩
      by_cases hff : f' = f
      · subst hff
        rw [Function.update_self]
        exact List.mem_cons_of_mem _ hmem
      · rwa [Function.update_of_ne hff]

theorem attach_keys {idx : Nat} (h : RMapInv s base chain)
    (hcall : s.attach f ptePaddr pteVaddr owner = .ret (some idx, s')) :
    ∃ chain', RMapInv s' base chain' ∧
      keys s'.rmapManager (chain' f) = (ptePaddr, owner) ::ₘ keys s.rmapManager (chain f) ∧
      ∀ f', f' ≠ f → keys s'.rmapManager (chain' f') = keys s.rmapManager (chain f') := by
  obtain ⟨hnew, hinv⟩ := h.attach_inv hcall
  obtain ⟨-, -, rfl⟩ := attach_eq hcall
  have htarget : ∀ j, j ≠ idx →
      ((attached s.rmapManager idx ptePaddr pteVaddr owner (s.pageinfos f).extra).RMapStart j).target =
        (s.rmapManager.RMapStart j).target := by
    intro j hj
    simp only [attached, Function.update_of_ne hj]
  refine ⟨_, hinv, ?_, fun f' hff => ?_⟩
  · rw [Function.update_self]
    show keys _ (idx :: chain f) = _
    unfold keys
    rw [List.map_cons, ← Multiset.cons_coe]
    congr 1
    · simp [setInfo, attached]
    · exact keys_congr fun j hj => htarget j fun he => hnew f (he ▸ hj)
  · rw [Function.update_of_ne hff]
    exact keys_congr fun j hj => htarget j fun he => hnew f' (he ▸ hj)

theorem attach_spec (h : RMapInv s base chain) (f ptePaddr pteVaddr owner : Nat) :
    AttachSpec s base chain f ptePaddr pteVaddr owner := by
  cases hcall : s.attach f ptePaddr pteVaddr owner with
  | ret p =>
      obtain ⟨res, s'⟩ := p
      cases res with
      | none =>
          left
          rw [hcall, attach_none hcall]
      | some idx =>
          obtain ⟨chain', hinv, hkeys, hother⟩ := h.attach_keys hcall
          exact Or.inr (Or.inl ⟨idx, s', chain', hcall, hinv, hkeys, hother⟩)
  | halt =>
      refine Or.inr (Or.inr ⟨hcall, ?_⟩)
      by_contra hlt
      rw [attach, RMapManager.allocate] at hcall
      rcases halloc : s.rmapManager.bitmap.allocate 1 with ⟨res, bitmap⟩
      rw [halloc] at hcall
      cases res with
      | none => simp at hcall
      | some idx =>
          dsimp only at hcall
          rw [PageInfo.incRef, Outcome.ASSERT_pos (Nat.lt_of_not_le hlt)] at hcall
          simp at hcall
  | diverge =>
      rw [attach, RMapManager.allocate] at hcall
      rcases halloc : s.rmapManager.bitmap.allocate 1 with ⟨res, bitmap⟩
      rw [halloc] at hcall
      cases res with
      | none => simp at hcall
      | some idx =>
          dsimp only at hcall
          rw [PageInfo.incRef] at hcall
          by_cases hlt : (s.pageinfos f).ref < 0xffff
          · rw [Outcome.ASSERT_pos hlt] at hcall
            simp at hcall
          · rw [Outcome.ASSERT_neg hlt] at hcall
            simp at hcall

/-! ### `detach` -/

/-- The loop of `detach` comes to an end. -/
theorem findLoop_returns {r : RMapManager} {l : List Nat} {fuel idx : Nat} (ptePaddr owner : Nat)
    (hlen : l.length < fuel) (before : Nat) (hwalk : Walk r.next (link idx) l) :
    ∃ res, r.findLoop ptePaddr owner fuel before idx = .ret res := by
  induction fuel generalizing before idx l with
  | zero => omega
  | succ fuel ih =>
      rw [RMapManager.findLoop]
      by_cases hzero : idx = 0
      · exact ⟨none, if_pos hzero⟩
      · rw [if_neg hzero]
        rw [link_of_ne hzero] at hwalk
        cases l with
        | nil => cases hwalk
        | cons a l =>
            obtain ⟨hhead, htail⟩ := hwalk
            obtain rfl := Option.some.inj hhead
            rw [List.length_cons] at hlen
            split
            · exact ⟨_, rfl⟩
            · exact ih (by omega) _ htail

/-- There are no more entries in a list than in the table. -/
theorem length_le (h : RMapInv s base chain) (f : Nat) : (chain f).length ≤ s.rmapManager.length := by
  have hsub : (chain f).toFinset ⊆ Finset.range s.rmapManager.length := by
    intro idx hidx
    exact Finset.mem_range.mpr (h.inside f idx (List.mem_toFinset.mp hidx))
  have hcard := Finset.card_le_card hsub
  rwa [List.toFinset_card_of_nodup (h.walk f).nodup, Finset.card_range] at hcard

theorem detach_returns (h : RMapInv s base chain) (hne : (s.pageinfos f).extra ≠ 0) (ptePaddr owner : Nat) :
    ∃ res s', s.detach f ptePaddr owner = .ret (res, s') := by
  have hwalk := h.walk f
  have hlen := h.length_le f
  have href := h.ref f
  rw [link_of_ne hne] at hwalk
  cases hl : chain f with
  | nil =>
      rw [hl] at hwalk
      cases hwalk
  | cons first l =>
      rw [hl] at hwalk hlen href
      obtain ⟨hhead, htail⟩ := hwalk
      obtain rfl := Option.some.inj hhead
      rw [List.length_cons] at hlen href
      have hrelease : ∀ (r : RMapManager) idx, r.length = s.rmapManager.length → idx ∈ chain f →
          ∃ r', r.release idx = .ret r' := by
        intro r idx hr hidx
        unfold RMapManager.release
        rw [Outcome.ASSERT_pos (hr ▸ h.inside f idx hidx)]
        exact ⟨_, rfl⟩
      have hdec : ∀ pi : PageInfo, pi.ref = (s.pageinfos f).ref → ∃ pi', pi.decRef = .ret pi' := by
        intro pi hpi
        unfold PageInfo.decRef
        rw [Outcome.ASSERT_pos (by omega)]
        exact ⟨_, rfl⟩
      rw [detach, Outcome.ASSERT_pos (by omega), Outcome.ret_bind, Outcome.ASSERT_pos hne, Outcome.ret_bind]
      split
      · obtain ⟨r', hr'⟩ := hrelease s.rmapManager (s.pageinfos f).extra rfl (hl ▸ List.mem_cons_self)
        obtain ⟨pi', hpi'⟩ := hdec { s.pageinfos f with
            extra := (s.rmapManager.RMapStart (s.pageinfos f).extra).next } rfl
        rw [hr', Outcome.ret_bind, hpi', Outcome.ret_bind]
        exact ⟨_, _, rfl⟩
      · have hfuel : l.length < s.rmapManager.length + 1 := by omega
        obtain ⟨res, hres⟩ := findLoop_returns ptePaddr owner hfuel (s.pageinfos f).extra htail
        rw [hres, Outcome.ret_bind]
        cases res with
        | none => exact ⟨_, _, rfl⟩
        | some pair =>
            obtain ⟨p, i⟩ := pair
            obtain ⟨-, l₁, l₂, hsplit⟩ := findLoop_spec hres htail
            have hi : i ∈ chain f := by
              rw [hl, hsplit]
              simp
            obtain ⟨r', hr'⟩ := hrelease (s.rmapManager.setNext p (s.rmapManager.RMapStart i).next) i rfl hi
            obtain ⟨pi', hpi'⟩ := hdec (s.pageinfos f) rfl
            dsimp only
            rw [hr', Outcome.ret_bind, hpi', Outcome.ret_bind]
            exact ⟨_, _, rfl⟩

/-- A page whose list is not empty has more references than at the start. -/
theorem lt_ref (h : RMapInv s base chain) (hne : (s.pageinfos f).extra ≠ 0) : base f < (s.pageinfos f).ref := by
  have hwalk := h.walk f
  rw [link_of_ne hne] at hwalk
  rw [h.ref f]
  cases hl : chain f with
  | nil =>
      rw [hl] at hwalk
      cases hwalk
  | cons first l =>
      rw [List.length_cons]
      omega

/-- The list of the page without the entry that is given back. -/
theorem detach_inv {idx : Nat} {l₁ l₂ : List Nat} (h : RMapInv s base chain) (hne : (s.pageinfos f).extra ≠ 0)
    (hsplit : chain f = l₁ ++ idx :: l₂) :
    RMapInv (s.detachedFrom f idx l₁) base (Function.update chain f ((chain f).erase idx)) := by
  have hlt := h.lt_ref hne
  have hnd := (h.walk f).nodup
  have hchains := detachedFrom_chains h.chains (f := f) rfl hsplit
  rw [setChain_eq] at hchains
  refine of_chains ?_ (fun f' => ?_) fun j hj hget => ?_
  · rw [detachedFrom, rebased_setInfo, Nat.sub_right_comm]
    exact hchains
  · have hle := h.le_ref f'
    by_cases hff : f' = f
    · subst hff
      simp only [detachedFrom, setInfo, Function.update_self]
      omega
    · simp only [detachedFrom, setInfo, Function.update_of_ne hff]
      exact hle
  · simp only [detachedFrom, setInfo, detached_bitmap, detached_length] at hj hget
    rw [BitMap.get_setRange] at hget
    split at hget
    · cases hget
    · rename_i hout
      refine ((h.used j hj).mp hget).imp_right ?_
      rintro ⟨f', hin⟩
      refine ⟨f', ?_⟩
      by_cases hff : f' = f
      · subst hff
        rw [Function.update_self]
        exact hnd.mem_erase_iff.mpr ⟨by omega, hin⟩
      · rwa [Function.update_of_ne hff]

theorem detach_keys (h : RMapInv s base chain) (hne : (s.pageinfos f).extra ≠ 0)
    (hcall : s.detach f ptePaddr owner = .ret (true, s')) :
    ∃ chain', RMapInv s' base chain' ∧
      keys s.rmapManager (chain f) = (ptePaddr, owner) ::ₘ keys s'.rmapManager (chain' f) ∧
      ∀ f', f' ≠ f → keys s'.rmapManager (chain' f') = keys s.rmapManager (chain f') := by
  obtain ⟨idx, l₁, l₂, hmatch, hsplit, rfl⟩ := detach_eq hcall (h.walk f)
  have hmem : idx ∈ chain f := by rw [hsplit]; simp
  have hnd := (h.walk f).nodup
  have htarget : ∀ j, j ≠ idx → ((s.detachedFrom f idx l₁).rmapManager.RMapStart j).target =
      (s.rmapManager.RMapStart j).target := fun j hj => detached_target hj
  refine ⟨_, h.detach_inv hne hsplit, ?_, fun f' hff => ?_⟩
  · rw [Function.update_self]
    have hsame : keys (s.detachedFrom f idx l₁).rmapManager ((chain f).erase idx) =
        keys s.rmapManager ((chain f).erase idx) := keys_congr fun j hj => htarget j (hnd.mem_erase_iff.mp hj).1
    have hperm : keys s.rmapManager (chain f) = keys s.rmapManager (idx :: (chain f).erase idx) :=
      Multiset.coe_eq_coe.mpr ((List.perm_cons_erase hmem).map _)
    rw [hsame, hperm]
    unfold keys
    rw [List.map_cons, ← Multiset.cons_coe]
    congr 1
    exact Prod.ext hmatch.1 hmatch.2
  · rw [Function.update_of_ne hff]
    exact keys_congr fun j hj => htarget j fun he => hff (h.apart f' f j hj (he ▸ hmem))

theorem detach_spec (h : RMapInv s base chain) (hne : (s.pageinfos f).extra ≠ 0) (ptePaddr owner : Nat) :
    DetachSpec s base chain f ptePaddr owner := by
  obtain ⟨res, s', hcall⟩ := h.detach_returns hne ptePaddr owner
  cases res with
  | true =>
      obtain ⟨chain', hinv, hkeys, hother⟩ := h.detach_keys hne hcall
      exact Or.inl ⟨s', chain', hcall, hinv, hkeys, hother⟩
  | false =>
      obtain ⟨rfl, hnone⟩ := detach_eq hcall (h.walk f)
      refine Or.inr ⟨hcall, fun hmem => ?_⟩
      obtain ⟨idx, hidx, hkey⟩ := List.mem_map.mp (Multiset.mem_coe.mp hmem)
      obtain ⟨hpaddr, howner⟩ := Prod.mk.inj hkey
      exact hnone idx hidx ⟨hpaddr, howner⟩

/-! ### Runs -/

/-- The reverse map has been initialized, and no page has a mapping. -/
structure Initialized (s : Kernel) (length : Nat) (RMapStart : Nat → RMapEntry) (bitmap : ByteMap) : Prop where
  rmap : s.rmapManager = RMapManager.init length RMapStart bitmap
  extra : ∀ f, (s.pageinfos f).extra = 0

theorem get_init (bitmap : ByteMap) {length idx : Nat} (hidx : idx < length) :
    (BitMap.init bitmap length).get idx = false := by
  rw [BitMap.get, getMap_eq_getLsbD, BitMap.init]
  dsimp only
  rw [if_pos (by omega)]
  simp

theorem start {length : Nat} {RMapStart : Nat → RMapEntry} {bitmap : ByteMap}
    (h : Initialized s length RMapStart bitmap) : RMapInv s (fun f => (s.pageinfos f).ref) fun _ => [] where
  bound := by rw [h.rmap]; rfl
  walk f := by rw [h.extra f]; rfl
  ref _ := rfl
  apart _ _ _ hidx := by cases hidx
  used idx hidx := by
    rw [h.rmap] at hidx ⊢
    change idx < length at hidx
    show ((BitMap.init bitmap length).set 0 true).get idx = true ↔ _
    rw [BitMap.get_set, get_init bitmap hidx]
    simp
  null := by
    rw [h.rmap]
    show ((BitMap.init bitmap length).set 0 true).get 0 = true
    rw [BitMap.get_set, if_pos rfl]
  inside _ _ hidx := by cases hidx

/-- A call keeps the invariant. -/
theorem run {s₀ : Kernel} {length : Nat} {RMapStart : Nat → RMapEntry} {bitmap : ByteMap}
    (h₀ : Initialized s₀ length RMapStart bitmap) (hrun : RMapRun s₀ s) :
    ∃ chain, RMapInv s (fun f => (s₀.pageinfos f).ref) chain := by
  induction hrun with
  | start => exact ⟨_, start h₀⟩
  | @attach s s' f ptePaddr pteVaddr owner res _ hcall ih =>
      obtain ⟨chain, hinv⟩ := ih
      cases res with
      | none =>
          obtain rfl := attach_none hcall
          exact ⟨chain, ⟨hinv.bound, hinv.walk, hinv.ref, hinv.apart, hinv.used, hinv.null, hinv.inside⟩⟩
      | some idx =>
          obtain ⟨chain', hinv', -⟩ := hinv.attach_keys hcall
          exact ⟨chain', hinv'⟩
  | @detach s s' f ptePaddr owner res _ hne hcall ih =>
      obtain ⟨chain, hinv⟩ := ih
      cases res with
      | true =>
          obtain ⟨chain', hinv', -⟩ := hinv.detach_keys hne hcall
          exact ⟨chain', hinv'⟩
      | false =>
          obtain ⟨rfl, -⟩ := detach_eq hcall (hinv.walk f)
          exact ⟨chain, hinv⟩

/-! ### A page with all the references its count can say -/

/-- Where the other pages have no mappings, an entry is free as long as the list is shorter than the table. -/
theorem exists_free (h : RMapInv s base chain) (hempty : ∀ f', f' ≠ f → chain f' = [])
    (hlen : (chain f).length + 1 < s.rmapManager.length) :
    ∃ j, j < s.rmapManager.length ∧ s.rmapManager.bitmap.get j = false := by
  by_contra hnone
  have hsub : Finset.range s.rmapManager.length ⊆ insert 0 (chain f).toFinset := by
    intro j hj
    have hlt := Finset.mem_range.mp hj
    have hget : s.rmapManager.bitmap.get j = true := by
      by_contra hget
      exact hnone ⟨j, hlt, Bool.eq_false_iff.mpr hget⟩
    rw [Finset.mem_insert, List.mem_toFinset]
    refine ((h.used j hlt).mp hget).imp_right ?_
    rintro ⟨f', hmem⟩
    by_cases hff : f' = f
    · rwa [hff] at hmem
    · rw [hempty f' hff] at hmem
      cases hmem
  have hcard := (Finset.card_le_card hsub).trans (Finset.card_insert_le _ _)
  rw [Finset.card_range, List.toFinset_card_of_nodup (h.walk f).nodup] at hcard
  omega

theorem attach_ne_none (h : ∃ j, j < s.rmapManager.bitmap.length ∧ s.rmapManager.bitmap.get j = false) :
    s.attach f ptePaddr pteVaddr owner ≠ .ret (none, s') := by
  obtain ⟨j, hj, hfree⟩ := h
  intro hcall
  rw [attach, RMapManager.allocate] at hcall
  rcases s.rmapManager.bitmap.allocateIn_cases (le_refl 1) false with ⟨idx, halloc, -⟩ | ⟨-, hfits⟩
  · change s.rmapManager.bitmap.allocate 1 = _ at halloc
    rw [halloc] at hcall
    obtain ⟨pi, -, hret⟩ := Outcome.bind_eq_ret hcall
    simp at hret
  · refine hfits j fun i hi hi' => ?_
    obtain rfl : i = j := by omega
    exact ⟨hj, hfree⟩

/-- A page is attached to as often as its count and the table allow. -/
theorem attach_often {s₀ : Kernel} {length : Nat} {RMapStart : Nat → RMapEntry} {bitmap : ByteMap}
    (h₀ : Initialized s₀ length RMapStart bitmap) (f ptePaddr pteVaddr owner n : Nat) (hn : n < length)
    (href : (s₀.pageinfos f).ref + n ≤ 0xffff) :
    ∃ s chain, RMapRun s₀ s ∧ RMapInv s (fun f => (s₀.pageinfos f).ref) chain ∧
      (∀ f', f' ≠ f → chain f' = []) ∧ (chain f).length = n ∧ s.rmapManager.length = length := by
  induction n with
  | zero => exact ⟨s₀, _, .start, start h₀, fun _ _ => rfl, rfl, by rw [h₀.rmap]; rfl⟩
  | succ n ih =>
      obtain ⟨s, chain, hrun, hinv, hempty, hlen, hlength⟩ := ih (by omega) (by omega)
      have hfree := hinv.exists_free hempty (by omega)
      rw [← hinv.bound] at hfree
      rcases hinv.attach_spec f ptePaddr pteVaddr owner with hnone | ⟨idx, s', -, hcall, -⟩ | ⟨-, hfull⟩
      · exact absurd hnone (attach_ne_none hfree)
      · refine ⟨s', _, hrun.attach hcall, (hinv.attach_inv hcall).2, fun f' hff => ?_, ?_, ?_⟩
        · rw [Function.update_of_ne hff]
          exact hempty f' hff
        · rw [Function.update_self, List.length_cons, hlen]
        · obtain ⟨-, -, rfl⟩ := attach_eq hcall
          exact hlength
      · have hcount := hinv.ref f
        omega

/-- The next call does not return. -/
theorem attach_halts {s₀ : Kernel} {length : Nat} {RMapStart : Nat → RMapEntry} {bitmap : ByteMap}
    (h₀ : Initialized s₀ length RMapStart bitmap) (f ptePaddr pteVaddr owner : Nat) (hlength : 0x10000 < length)
    (href : (s₀.pageinfos f).ref ≤ 0xffff) :
    ∃ s, RMapRun s₀ s ∧ s.attach f ptePaddr pteVaddr owner = .halt := by
  obtain ⟨s, chain, hrun, hinv, hempty, hlen, hbound⟩ :=
    attach_often h₀ f ptePaddr pteVaddr owner (0xffff - (s₀.pageinfos f).ref) (by omega) (by omega)
  have hcount := hinv.ref f
  have hfree := hinv.exists_free hempty (by omega)
  rw [← hinv.bound] at hfree
  refine ⟨s, hrun, ?_⟩
  rcases hinv.attach_spec f ptePaddr pteVaddr owner with hnone | ⟨idx, s', -, hcall, -⟩ | ⟨hhalt, -⟩
  · exact absurd hnone (attach_ne_none hfree)
  · have hlt := attach_ref_lt hcall
    omega
  · exact hhalt

end RMapInv

/-- Whatever has been attached and detached since the start, the lists are sound, and the next call does to the
keys of its page what it should. -/
theorem rmapRun_sound {s₀ s : Kernel} {length : Nat} {RMapStart : Nat → RMapEntry} {bitmap : ByteMap}
    (h₀ : RMapInv.Initialized s₀ length RMapStart bitmap) (hrun : RMapRun s₀ s) :
    ∃ chain, RMapInv s (fun f => (s₀.pageinfos f).ref) chain ∧
      (∀ f, 0 ∉ chain f) ∧
      (∀ f ptePaddr pteVaddr owner,
        AttachSpec s (fun f => (s₀.pageinfos f).ref) chain f ptePaddr pteVaddr owner) ∧
      ∀ f ptePaddr owner, chain f ≠ [] →
        DetachSpec s (fun f => (s₀.pageinfos f).ref) chain f ptePaddr owner := by
  obtain ⟨chain, hinv⟩ := RMapInv.run h₀ hrun
  refine ⟨chain, hinv, fun f hzero => link_walk_ne_zero (hinv.walk f) hzero rfl, hinv.attach_spec,
    fun f ptePaddr owner hne => hinv.detach_spec (fun hextra => hne ?_) ptePaddr owner⟩
  have hwalk := hinv.walk f
  rw [hextra, link_zero] at hwalk
  cases hl : chain f with
  | nil => rfl
  | cons a l =>
      rw [hl] at hwalk
      cases hwalk.1

/-- A kernel with no mapped page and a reverse map of `length` entries. The first three pages are the kernel's. -/
def unmapped (length : Nat) : Kernel :=
  { oneEntry 0#32 with
    pageinfos := fun f =>
      if f < 3 then { ref := 1, flags := PG_RESERVED ||| PG_KERNEL, extra := 0 } else PageInfo.cleared
    rmapManager := RMapManager.init length (fun _ => ⟨0, 0, 0, 0⟩) fun _ => 0xff#8 }

theorem initialized_unmapped (length : Nat) :
    RMapInv.Initialized (unmapped length) length (fun _ => ⟨0, 0, 0, 0⟩) fun _ => 0xff#8 := by
  refine ⟨rfl, fun f => ?_⟩
  simp only [unmapped]
  split <;> rfl

theorem unmapped_calls : ∃ s₁, (unmapped 8).attach 3 0x2004 PTE_ANON_VADDR 1 = .ret (some 1, s₁) ∧
    ∃ s₂, s₁.attach 3 0x5008 PTE_ANON_VADDR 2 = .ret (some 2, s₂) ∧ (s₂.pageinfos 3).extra = 2 ∧
      ∃ s₃, s₂.detach 3 0x2004 1 = .ret (true, s₃) ∧ (s₃.pageinfos 3).extra = 2 :=
  ⟨_, rfl, _, rfl, rfl, _, rfl, rfl⟩

/-- Two processes map a page, and the first of them lets go of it. -/
theorem rmapRun_sound_unmapped : ∃ s, RMapRun (unmapped 8) s ∧ (s.pageinfos 3).extra = 2 ∧
    ∃ chain, RMapInv s (fun f => ((unmapped 8).pageinfos f).ref) chain ∧ (∀ f, 0 ∉ chain f) ∧
      (∀ f ptePaddr pteVaddr owner,
        AttachSpec s (fun f => ((unmapped 8).pageinfos f).ref) chain f ptePaddr pteVaddr owner) ∧
      ∀ f ptePaddr owner, chain f ≠ [] →
        DetachSpec s (fun f => ((unmapped 8).pageinfos f).ref) chain f ptePaddr owner := by
  obtain ⟨s₁, h₁, s₂, h₂, hlast, s₃, h₃, hextra⟩ := unmapped_calls
  have hne : (s₂.pageinfos 3).extra ≠ 0 := by
    rw [hlast]
    decide
  have hrun : RMapRun (unmapped 8) s₃ := ((RMapRun.start.attach h₁).attach h₂).detach hne h₃
  exact ⟨s₃, hrun, hextra, rmapRun_sound (initialized_unmapped 8) hrun⟩

/-- The pages of the kernel have more references than reverse mappings, and a page with 65535 references takes no
further one. -/
theorem rmapRun_not_sound :
    (¬ ∃ chain, RMapInv (unmapped 0x20000) (fun _ => 0) chain) ∧
      ∃ s, RMapRun (unmapped 0x20000) s ∧ s.attach 3 0x2004 PTE_ANON_VADDR 1 = .halt := by
  refine ⟨?_, RMapInv.attach_halts (initialized_unmapped 0x20000) 3 0x2004 PTE_ANON_VADDR 1 (by decide) (by decide)⟩
  rintro ⟨chain, hinv⟩
  have hwalk : Walk _ none (chain 0) := hinv.walk 0
  have href : 1 = 0 + (chain 0).length := hinv.ref 0
  cases hl : chain 0 with
  | nil =>
      rw [hl] at href
      cases href
  | cons idx l =>
      rw [hl] at hwalk
      cases hwalk.1

end Kernel

end SysuOs
