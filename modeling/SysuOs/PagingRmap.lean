import Mathlib
import SysuOs.Walk
import SysuOs.PagingPages

/-! Reverse mappings: the entries of a page form a list from its `extra` on, as many as its `ref` says,
and no two pages have one in common. `attach` puts an entry in front, `detach` takes one out. -/

namespace SysuOs

/-- A link between reverse mappings, 0 being the null pointer. -/
def link (idx : Nat) : Option Nat := if idx = 0 then none else some idx

@[simp] theorem link_zero : link 0 = none := rfl

theorem link_of_ne {idx : Nat} (h : idx ≠ 0) : link idx = some idx := if_neg h

theorem link_eq_some {idx j : Nat} : link idx = some j ↔ idx = j ∧ j ≠ 0 := by
  rw [link]
  split <;> simp <;> omega

/-- What a frame of physical memory is used for. -/
inductive Role where
  | free
  | dir (pid : Nat)
  | table (pid idx : Nat)
  | page
  | other
  deriving DecidableEq

/-- What the kernel keeps no record of: the use of every frame, the page directories of the processes
and the reverse mappings of the pages. -/
structure Ghost where
  role : Nat → Role
  dirs : Nat → Option Nat
  chain : Nat → List Nat

/-- The reverse mappings of `frame` are those of `l`. -/
def Ghost.setChain (g : Ghost) (frame : Nat) (l : List Nat) : Ghost :=
  { g with chain := Function.update g.chain frame l }

@[simp] theorem Ghost.setChain_role (g : Ghost) (frame : Nat) (l : List Nat) :
    (g.setChain frame l).role = g.role := rfl

@[simp] theorem Ghost.setChain_dirs (g : Ghost) (frame : Nat) (l : List Nat) :
    (g.setChain frame l).dirs = g.dirs := rfl

theorem Ghost.mem_setChain {g : Ghost} {f f' j : Nat} {l : List Nat} :
    j ∈ (g.setChain f l).chain f' ↔ f' = f ∧ j ∈ l ∨ f' ≠ f ∧ j ∈ g.chain f' := by
  by_cases hff : f' = f
  · subst hff
    simp [Ghost.setChain]
  · simp [Ghost.setChain, hff]

/-- The links of the reverse mappings. -/
def RMapManager.next (r : RMapManager) (idx : Nat) : Option Nat := link (r.RMapStart idx).next

/-- What a reverse mapping says, apart from its link. -/
def RMapEntry.target (e : RMapEntry) : Nat × Nat × Nat := (e.ptePaddr, e.pteVaddr, e.owner)

/-- The reverse mappings are lists, of entries in use. -/
structure Chains (s : Kernel) (g : Ghost) : Prop where
  bound : s.rmapManager.bitmap.length = s.rmapManager.length
  null : s.rmapManager.bitmap.get 0 = true
  walk : ∀ f, g.role f = .page → Walk s.rmapManager.next (link (s.pageinfos f).extra) (g.chain f)
  ref : ∀ f, g.role f = .page → (s.pageinfos f).ref = (g.chain f).length
  used : ∀ f, ∀ idx ∈ g.chain f, s.rmapManager.bitmap.get idx = true ∧ idx < s.rmapManager.length
  apart : ∀ f f', ∀ idx ∈ g.chain f, idx ∈ g.chain f' → f = f'
  pages : ∀ f, g.chain f ≠ [] → g.role f = .page

/-- The null pointer is no node. -/
theorem link_walk_ne_zero {r : RMapManager} {extra idx : Nat} {l : List Nat}
    (h : Walk r.next (link extra) l) (hidx : idx ∈ l) : idx ≠ 0 := by
  induction l generalizing extra with
  | nil => simp at hidx
  | cons j l ih =>
      obtain ⟨hj, hl⟩ := h
      rcases List.mem_cons.mp hidx with rfl | hidx
      · exact (link_eq_some.mp hj).2
      · exact ih hl hidx

namespace Chains

variable {s s' : Kernel} {g : Ghost} {f idx : Nat}

theorem role (h : Chains s g) (hidx : idx ∈ g.chain f) : g.role f = .page :=
  h.pages f (List.ne_nil_of_mem hidx)

theorem nodup (h : Chains s g) (f : Nat) : (g.chain f).Nodup := by
  by_cases hempty : g.chain f = []
  · rw [hempty]
    exact List.nodup_nil
  · exact (h.walk f (h.pages f hempty)).nodup

/-- The lists depend on the reverse mappings and the `PageInfo`s only. -/
theorem congr (h : Chains s g) (hr : s'.rmapManager = s.rmapManager) (hpi : s'.pageinfos = s.pageinfos) :
    Chains s' g :=
  { bound := by rw [hr]; exact h.bound
    null := by rw [hr]; exact h.null
    walk := by rw [hr, hpi]; exact h.walk
    ref := by rw [hpi]; exact h.ref
    used := by rw [hr]; exact h.used
    apart := h.apart
    pages := h.pages }

/-- The list of one page changes to `l`, those of the others do not. -/
theorem replace {l : List Nat} (h : Chains s g) (hpage : g.role f = .page)
    (hbound : s'.rmapManager.bitmap.length = s'.rmapManager.length)
    (hnull : s'.rmapManager.bitmap.get 0 = true) (hpi : ∀ f', f' ≠ f → s'.pageinfos f' = s.pageinfos f')
    (hkeep : ∀ f', f' ≠ f → ∀ j ∈ g.chain f', s'.rmapManager.next j = s.rmapManager.next j ∧
      s'.rmapManager.bitmap.get j = true ∧ j < s'.rmapManager.length)
    (hwalk : Walk s'.rmapManager.next (link (s'.pageinfos f).extra) l)
    (href : (s'.pageinfos f).ref = l.length)
    (hused : ∀ j ∈ l, s'.rmapManager.bitmap.get j = true ∧ j < s'.rmapManager.length)
    (hapart : ∀ j ∈ l, ∀ f', f' ≠ f → j ∉ g.chain f') : Chains s' (g.setChain f l) := by
  refine ⟨hbound, hnull, ?_, ?_, ?_, ?_, ?_⟩
  · intro f' hrole
    by_cases hff : f' = f
    · subst hff
      simpa [Ghost.setChain] using hwalk
    · simp only [Ghost.setChain, Function.update_of_ne hff, hpi f' hff]
      exact (h.walk f' hrole).congr fun j hj => (hkeep f' hff j hj).1
  · intro f' hrole
    by_cases hff : f' = f
    · subst hff
      simpa [Ghost.setChain] using href
    · simp only [Ghost.setChain, Function.update_of_ne hff, hpi f' hff]
      exact h.ref f' hrole
  · intro f' j hj
    rcases Ghost.mem_setChain.mp hj with ⟨-, hj⟩ | ⟨hff, hj⟩
    · exact hused j hj
    · exact (hkeep f' hff j hj).2
  · intro f₁ f₂ j h₁ h₂
    rcases Ghost.mem_setChain.mp h₁ with ⟨he₁, h₁⟩ | ⟨hne₁, h₁⟩
    · rcases Ghost.mem_setChain.mp h₂ with ⟨he₂, -⟩ | ⟨hne₂, h₂⟩
      · rw [he₁, he₂]
      · exact absurd h₂ (hapart j h₁ f₂ hne₂)
    · rcases Ghost.mem_setChain.mp h₂ with ⟨-, h₂⟩ | ⟨-, h₂⟩
      · exact absurd h₁ (hapart j h₂ f₁ hne₁)
      · exact h.apart f₁ f₂ j h₁ h₂
  · intro f' hne
    by_cases hff : f' = f
    · exact hff ▸ hpage
    · simp only [Ghost.setChain, Function.update_of_ne hff] at hne
      exact h.pages f' hne

end Chains

namespace Kernel

variable {s s' : Kernel} {g : Ghost} {f a v q : Nat}

/-- `attach` without a free entry. -/
theorem attach_none (h : s.attach f a v q = .ret (none, s')) :
    s' = { s with rmapManager := { s.rmapManager with attachFailed := true } } := by
  rw [attach, RMapManager.allocate] at h
  rcases halloc : s.rmapManager.bitmap.allocate 1 with ⟨res, bitmap⟩
  rw [halloc] at h
  cases res with
  | none =>
      obtain rfl := BitMap.allocate_none halloc
      exact (Prod.mk.inj (Outcome.ret.inj h)).2.symm
  | some idx =>
      dsimp only at h
      obtain ⟨pi, -, h⟩ := Outcome.bind_eq_ret h
      simp at h

/-- The manager once `attach` has put the entry `idx` in front of a list. -/
def attached (r : RMapManager) (idx a v q extra : Nat) : RMapManager :=
  { r with
    RMapStart := Function.update r.RMapStart idx { ptePaddr := a, pteVaddr := v, owner := q, next := extra }
    bitmap := r.bitmap.setRange idx 1 true }

theorem attach_eq {idx : Nat} (h : s.attach f a v q = .ret (some idx, s')) :
    idx < s.rmapManager.bitmap.length ∧ s.rmapManager.bitmap.get idx = false ∧
      s' = { s with rmapManager := attached s.rmapManager idx a v q (s.pageinfos f).extra }.setInfo f
        { s.pageinfos f with ref := (s.pageinfos f).ref + 1, extra := idx } := by
  rw [attach, RMapManager.allocate] at h
  rcases halloc : s.rmapManager.bitmap.allocate 1 with ⟨res, bitmap⟩
  rw [halloc] at h
  cases res with
  | none => simp at h
  | some idx' =>
      dsimp only at h
      obtain ⟨pi, hinc, h⟩ := Outcome.bind_eq_ret h
      obtain ⟨hfree, rfl⟩ := BitMap.allocate_spec halloc
      simp only [Outcome.pure_eq, Outcome.ret.injEq, Prod.mk.injEq, Option.some.injEq] at h
      obtain ⟨rfl, rfl⟩ := h
      obtain ⟨hlt, hget⟩ := hfree idx' (le_refl _) (Nat.lt_succ_self _)
      rw [PageInfo.incRef] at hinc
      obtain ⟨-, -, hinc⟩ := Outcome.bind_eq_ret hinc
      obtain rfl := Outcome.ret.inj hinc
      refine ⟨hlt, hget, ?_⟩
      congr 2
      split
      · rename_i hextra
        simp only [RMapManager.setEntry, attached, hextra]
      · simp [RMapManager.setNext, RMapManager.setEntry, attached, Function.update_idem]

/-- An entry that is put in front of a list. -/
theorem attached_chains {idx : Nat} (hc : Chains s g) (hpage : g.role f = .page)
    (hlt : idx < s.rmapManager.bitmap.length) (hget : s.rmapManager.bitmap.get idx = false) :
    (∀ f', idx ∉ g.chain f') ∧
      Chains ({ s with rmapManager := attached s.rmapManager idx a v q (s.pageinfos f).extra }.setInfo f
        { s.pageinfos f with ref := (s.pageinfos f).ref + 1, extra := idx }) (g.setChain f (idx :: g.chain f)) := by
  have hnew : ∀ f', idx ∉ g.chain f' := fun f' hmem => by
    have hused := (hc.used f' idx hmem).1
    rw [hget] at hused
    exact Bool.false_ne_true hused
  have hne : idx ≠ 0 := fun he => by
    have hnull := hc.null
    rw [he] at hget
    rw [hget] at hnull
    exact Bool.false_ne_true hnull
  have hnext : ∀ j, j ≠ idx → (attached s.rmapManager idx a v q (s.pageinfos f).extra).next j =
      s.rmapManager.next j := fun j hj => by
    simp only [RMapManager.next, attached, Function.update_of_ne hj]
  have hset : ∀ j, s.rmapManager.bitmap.get j = true →
      (s.rmapManager.bitmap.setRange idx 1 true).get j = true := fun j hj => by
    rw [BitMap.get_setRange]
    split
    · rfl
    · exact hj
  refine ⟨hnew, hc.replace hpage ((BitMap.setRange_length _ _ _ _).trans hc.bound) (hset 0 hc.null)
    (fun f' hff => ?_) (fun f' _ j hj => ?_) ?_ ?_ (fun j hj => ?_) (fun j hj f' hff hj' => ?_)⟩
  · exact Function.update_of_ne hff _ _
  · obtain ⟨hused, hlt⟩ := hc.used f' j hj
    exact ⟨hnext j fun he => hnew f' (he ▸ hj), hset j hused, hlt⟩
  · simp only [setInfo, Function.update_self]
    refine ⟨link_of_ne hne, ?_⟩
    have hfirst : (attached s.rmapManager idx a v q (s.pageinfos f).extra).next idx =
        link (s.pageinfos f).extra := by
      simp only [RMapManager.next, attached, Function.update_self]
    rw [hfirst]
    exact (hc.walk f hpage).congr fun j hj => hnext j fun he => hnew f (he ▸ hj)
  · simp only [setInfo, Function.update_self, List.length_cons, hc.ref f hpage]
  · rcases List.mem_cons.mp hj with rfl | hj
    · refine ⟨?_, hc.bound ▸ hlt⟩
      exact (BitMap.get_setRange _ _ _ _ _).trans (if_pos ⟨le_refl _, Nat.lt_succ_self _⟩)
    · exact ⟨hset j (hc.used f j hj).1, (hc.used f j hj).2⟩
  · rcases List.mem_cons.mp hj with rfl | hj
    · exact hnew f' hj'
    · exact hff (hc.apart f' f j hj' hj)

/-- The reverse mapping that `attach` makes is new; it comes first in the list of the page. -/
theorem attach_some {idx : Nat} (h : s.attach f a v q = .ret (some idx, s')) (hc : Chains s g)
    (hpage : g.role f = .page) :
    (∀ f', idx ∉ g.chain f') ∧ Chains s' (g.setChain f (idx :: g.chain f)) := by
  obtain ⟨hlt, hget, rfl⟩ := attach_eq h
  exact attached_chains hc hpage hlt hget

/-- The manager once `detach` has taken the entry `idx` out of a list, after the entry `prev` if it is
not the first one. -/
def detached (r : RMapManager) (prev : Option Nat) (idx : Nat) : RMapManager :=
  let linked := match prev with
    | some prev => r.setNext prev (r.RMapStart idx).next
    | none => r
  { linked with bitmap := r.bitmap.release idx 1 }.setEntry idx
    { ptePaddr := 0, pteVaddr := 0, owner := 0, next := 0 }

/-- The state once `detach` has taken the entry `idx` out of the list of the page `f`, where the entries `before`
come first. -/
def detachedFrom (s : Kernel) (f idx : Nat) (before : List Nat) : Kernel :=
  { s with rmapManager := detached s.rmapManager before.getLast? idx }.setInfo f
    { s.pageinfos f with
      ref := (s.pageinfos f).ref - 1
      extra := if before = [] then (s.rmapManager.RMapStart idx).next else (s.pageinfos f).extra }

/-- `detach` finds an entry of the list, or there is none for it. -/
theorem findLoop_spec {r : RMapManager} {l : List Nat} {res : Option (Nat × Nat)} {fuel prev idx : Nat}
    (h : r.findLoop a q fuel prev idx = .ret res) (hwalk : Walk r.next (link idx) l) :
    match res with
    | none => ∀ j ∈ l, ¬RMapManager.Matches (r.RMapStart j) a q
    | some (p, i) => RMapManager.Matches (r.RMapStart i) a q ∧
        ∃ l₁ l₂, prev :: l = l₁ ++ p :: i :: l₂ := by
  induction fuel generalizing prev idx l with
  | zero => simp [RMapManager.findLoop] at h
  | succ fuel ih =>
      rw [RMapManager.findLoop] at h
      split at h
      · rename_i hzero
        obtain rfl := Outcome.ret.inj h
        rw [hzero, link_zero] at hwalk
        cases l with
        | nil => simp
        | cons j l => simp at hwalk
      · rename_i hzero
        rw [link_of_ne hzero] at hwalk
        cases l with
        | nil => simp at hwalk
        | cons j l =>
            obtain ⟨hj, hwalk⟩ := hwalk
            obtain rfl := Option.some.inj hj
            split at h
            · rename_i hmatch
              obtain rfl := Outcome.ret.inj h
              exact ⟨hmatch, [], l, rfl⟩
            · rename_i hmatch
              have hrec := ih h hwalk
              cases res with
              | none =>
                  intro i hi
                  rcases List.mem_cons.mp hi with rfl | hi
                  · exact hmatch
                  · exact hrec i hi
              | some pair =>
                  obtain ⟨hfound, l₁, l₂, hsplit⟩ := hrec
                  exact ⟨hfound, prev :: l₁, l₂, by rw [hsplit, List.cons_append]⟩

/-- `detach` takes the entry of the page table and the owner out of the list of the page. -/
theorem detach_eq {res : Bool} {l : List Nat} (h : s.detach f a q = .ret (res, s'))
    (hwalk : Walk s.rmapManager.next (link (s.pageinfos f).extra) l) :
    match res with
    | false => s' = s ∧ ∀ j ∈ l, ¬RMapManager.Matches (s.rmapManager.RMapStart j) a q
    | true => ∃ idx l₁ l₂, RMapManager.Matches (s.rmapManager.RMapStart idx) a q ∧ l = l₁ ++ idx :: l₂ ∧
        s' = s.detachedFrom f idx l₁ := by
  rw [detach] at h
  obtain ⟨-, -, h⟩ := Outcome.bind_eq_ret h
  obtain ⟨⟨⟩, hne, h⟩ := Outcome.bind_eq_ret h
  have hextra : (s.pageinfos f).extra ≠ 0 := by
    rintro hzero
    rw [Outcome.ASSERT_neg (by simpa using hzero)] at hne
    exact absurd hne (by simp)
  rw [link_of_ne hextra] at hwalk
  rcases l with - | ⟨first, l⟩
  · simp at hwalk
  obtain ⟨hfirst, hwalk⟩ := hwalk
  obtain rfl := Option.some.inj hfirst
  split at h
  · rename_i hmatch
    obtain ⟨r, hrelease, h⟩ := Outcome.bind_eq_ret h
    obtain ⟨pi, hdec, h⟩ := Outcome.bind_eq_ret h
    rw [RMapManager.release] at hrelease
    obtain ⟨-, -, hrelease⟩ := Outcome.bind_eq_ret hrelease
    obtain rfl := Outcome.ret.inj hrelease
    rw [PageInfo.decRef] at hdec
    obtain ⟨-, -, hdec⟩ := Outcome.bind_eq_ret hdec
    obtain rfl := Outcome.ret.inj hdec
    simp only [Outcome.pure_eq, Outcome.ret.injEq, Prod.mk.injEq] at h
    obtain ⟨rfl, rfl⟩ := h
    exact ⟨_, [], l, hmatch, rfl, rfl⟩
  · rename_i hmatch
    obtain ⟨found, hfind, h⟩ := Outcome.bind_eq_ret h
    have hspec := findLoop_spec hfind hwalk
    cases found with
    | none =>
        simp only [Outcome.pure_eq, Outcome.ret.injEq, Prod.mk.injEq] at h
        obtain ⟨rfl, rfl⟩ := h
        refine ⟨rfl, fun j hj => ?_⟩
        rcases List.mem_cons.mp hj with rfl | hj
        · exact hmatch
        · exact hspec j hj
    | some pair =>
        obtain ⟨p, i⟩ := pair
        dsimp only at h hspec
        obtain ⟨r, hrelease, h⟩ := Outcome.bind_eq_ret h
        obtain ⟨pi, hdec, h⟩ := Outcome.bind_eq_ret h
        rw [RMapManager.release] at hrelease
        obtain ⟨-, -, hrelease⟩ := Outcome.bind_eq_ret hrelease
        obtain rfl := Outcome.ret.inj hrelease
        rw [PageInfo.decRef] at hdec
        obtain ⟨-, -, hdec⟩ := Outcome.bind_eq_ret hdec
        obtain rfl := Outcome.ret.inj hdec
        simp only [Outcome.pure_eq, Outcome.ret.injEq, Prod.mk.injEq] at h
        obtain ⟨rfl, rfl⟩ := h
        obtain ⟨hfound, l₁, l₂, hsplit⟩ := hspec
        refine ⟨i, l₁ ++ [p], l₂, hfound, by simpa using hsplit, ?_⟩
        have hlast : (l₁ ++ [p]).getLast? = some p := by simp
        rw [detachedFrom, hlast, if_neg (by simp)]
        rfl

theorem detached_target {r : RMapManager} {prev : Option Nat} {idx j : Nat} (hj : j ≠ idx) :
    ((detached r prev idx).RMapStart j).target = (r.RMapStart j).target := by
  cases prev with
  | none => simp only [detached, RMapManager.setEntry, Function.update_of_ne hj]
  | some p =>
      simp only [detached, RMapManager.setEntry, RMapManager.setNext, Function.update_of_ne hj]
      by_cases hjp : j = p
      · rw [hjp, Function.update_self]
        rfl
      · rw [Function.update_of_ne hjp]

theorem detached_next {r : RMapManager} {prev : Option Nat} {idx j : Nat} (hj : j ≠ idx) :
    (detached r prev idx).next j = if prev = some j then r.next idx else r.next j := by
  cases prev with
  | none => simp [RMapManager.next, detached, RMapManager.setEntry, Function.update_of_ne hj]
  | some p =>
      simp only [RMapManager.next, detached, RMapManager.setEntry, RMapManager.setNext,
        Function.update_of_ne hj, Option.some.injEq]
      by_cases hjp : p = j
      · rw [if_pos hjp, hjp, Function.update_self]
      · rw [if_neg hjp, Function.update_of_ne (Ne.symm hjp)]

@[simp] theorem detached_bitmap (r : RMapManager) (prev : Option Nat) (idx : Nat) :
    (detached r prev idx).bitmap = r.bitmap.setRange idx 1 false := by cases prev <;> rfl

@[simp] theorem detached_length (r : RMapManager) (prev : Option Nat) (idx : Nat) :
    (detached r prev idx).length = r.length := by cases prev <;> rfl

/-- The links that lead past the entry. -/
theorem detached_walk {r : RMapManager} {extra idx : Nat} {l₁ l₂ : List Nat}
    (h : Walk r.next (link extra) (l₁ ++ idx :: l₂)) :
    Walk (detached r l₁.getLast? idx).next
      (link (if l₁ = [] then (r.RMapStart idx).next else extra)) (l₁ ++ l₂) := by
  have hnd := h.nodup
  rcases List.eq_nil_or_concat' l₁ with rfl | ⟨l, p, rfl⟩
  · rw [if_pos rfl]
    have htail : Walk r.next (r.next idx) l₂ := h.2
    refine htail.congr fun j hj => ?_
    have hji : j ≠ idx := fun he => (List.nodup_cons.mp hnd).1 (he ▸ hj)
    rw [detached_next hji, if_neg (by simp)]
  · simp only [List.append_assoc, List.singleton_append] at h hnd ⊢
    have hpi : p ≠ idx := fun he => by
      rw [he, List.nodup_append] at hnd
      exact (List.nodup_cons.mp hnd.2.1).1 List.mem_cons_self
    rw [if_neg (by simp)]
    have hlast : (l ++ [p]).getLast? = some p := by simp
    rw [hlast]
    refine h.bypass ?_ fun j hjp hji => ?_
    · rw [detached_next hpi, if_pos rfl]
    · rw [detached_next hji, if_neg fun he => hjp (Option.some.inj he).symm]

/-- The list of the page without the entry that `detach` has taken out. -/
theorem detachedFrom_chains {idx : Nat} {l₁ l₂ : List Nat} (hc : Chains s g) (hpage : g.role f = .page)
    (hchain : g.chain f = l₁ ++ idx :: l₂) :
    Chains (s.detachedFrom f idx l₁) (g.setChain f ((g.chain f).erase idx)) := by
  have hnd := hc.nodup f
  have hwalk := hc.walk f hpage
  have hmem : idx ∈ g.chain f := by simp [hchain]
  have hne : idx ≠ 0 := link_walk_ne_zero hwalk hmem
  have herase : (g.chain f).erase idx = l₁ ++ l₂ := by
    rw [hchain] at hnd ⊢
    rw [List.erase_append_right _ (fun hin => (List.nodup_append.mp hnd).2.2 idx hin idx (by simp) rfl),
      List.erase_cons_head]
  have hset : ∀ j, j ≠ idx → s.rmapManager.bitmap.get j = true →
      (s.rmapManager.bitmap.setRange idx 1 false).get j = true := fun j hj hget => by
    rw [BitMap.get_setRange, if_neg (by omega)]
    exact hget
  have hapart : ∀ j ∈ g.chain f, ∀ f', f' ≠ f → j ∉ g.chain f' :=
    fun j hj f' hff hj' => hff (hc.apart f' f j hj' hj)
  have herased : ∀ j ∈ (g.chain f).erase idx, j ∈ g.chain f ∧ j ≠ idx := fun j hj => by
    rw [hnd.mem_erase_iff] at hj
    exact ⟨hj.2, hj.1⟩
  refine hc.replace hpage ?_ ?_ (fun f' hff => Function.update_of_ne hff _ _) (fun f' hff j hj => ?_) ?_ ?_
    (fun j hj => ?_) fun j hj => hapart j (herased j hj).1
  · exact (congrArg BitMap.length (detached_bitmap _ _ _)).trans
      ((BitMap.setRange_length _ _ _ _).trans (hc.bound.trans (detached_length _ _ _).symm))
  · simp only [detachedFrom, setInfo, detached_bitmap]
    exact hset 0 (Ne.symm hne) hc.null
  · have hji : j ≠ idx := fun he => hapart idx hmem f' hff (he ▸ hj)
    have hlast : l₁.getLast? ≠ some j := fun he =>
      hapart j (by rw [hchain]; exact List.mem_append_left _ (List.mem_of_getLast? he)) f' hff hj
    simp only [detachedFrom, setInfo, detached_bitmap, detached_length]
    refine ⟨?_, hset j hji (hc.used f' j hj).1, (hc.used f' j hj).2⟩
    rw [detached_next hji, if_neg hlast]
  · rw [hchain] at hwalk
    rw [herase]
    simpa [detachedFrom, setInfo] using detached_walk hwalk
  · simp only [detachedFrom, setInfo, Function.update_self]
    rw [hc.ref f hpage, herase, hchain]
    simp
  · simp only [detachedFrom, setInfo, detached_bitmap, detached_length]
    obtain ⟨hin, hji⟩ := herased j hj
    exact ⟨hset j hji (hc.used f j hin).1, (hc.used f j hin).2⟩

/-! ### `setCOW` -/

@[simp] theorem cowEntry_cowEntry (w : Word) : cowEntry (cowEntry w) = cowEntry w := by
  simp only [cowEntry]
  ext i hi
  simp only [BitVec.getElem_and, BitVec.getElem_or, BitVec.getElem_not]
  cases w[i] <;> cases PTE_COW[i] <;> cases PTE_WRITABLE[i] <;> rfl

/-- Whether a reverse mapping is that of the entry at `k` of the page table in `frame`. -/
def MapsSlot (e : RMapEntry) (frame k : Nat) : Prop := PA2PGI e.ptePaddr = frame ∧ e.ptePaddr % 4096 / 4 = k

instance (e : RMapEntry) (frame k : Nat) : Decidable (MapsSlot e frame k) :=
  inferInstanceAs (Decidable (_ ∧ _))

/-- Whether `setCOW` invalidates the translation of the page of a reverse mapping. -/
def Flushes (s : Kernel) (e : RMapEntry) : Prop :=
  e.pteVaddr ≠ PTE_ANON_VADDR ∧ s.runningPCB.map PCB.pid = some e.owner

instance (s : Kernel) (e : RMapEntry) : Decidable (Flushes s e) := inferInstanceAs (Decidable (_ ∧ _))

/-- The state once `setCOW` has gone along the reverse mappings `l`. -/
def downgraded (s : Kernel) (l : List Nat) : Kernel :=
  { s with
    mem := fun frame k =>
      if ∃ idx ∈ l, MapsSlot (s.rmapManager.RMapStart idx) frame k then cowEntry (s.mem frame k)
      else s.mem frame k
    tlb := s.tlb.filter fun cached => ∀ idx ∈ l, Flushes s (s.rmapManager.RMapStart idx) →
      cached.1 ≠ PTEVA2VADDR (s.rmapManager.RMapStart idx).pteVaddr / 4096 }

/-- A step of `setCOW`. -/
theorem downgraded_cons (s : Kernel) (idx : Nat) (l : List Nat) :
    s.downgraded (idx :: l) = (s.downgraded [idx]).downgraded l := by
  simp only [downgraded, Flushes, runningPCB, List.filter_filter]
  congr 1
  · funext frame k
    by_cases hl : ∃ j ∈ l, MapsSlot (s.rmapManager.RMapStart j) frame k <;>
      by_cases hidx : MapsSlot (s.rmapManager.RMapStart idx) frame k <;> simp [hl, hidx]
  · congr 1
    funext cached
    rw [Bool.and_comm]
    simp

theorem setCOWEntry_eq (s : Kernel) (idx : Nat) :
    s.setCOWEntry (s.rmapManager.RMapStart idx) = s.downgraded [idx] := by
  generalize he : s.rmapManager.RMapStart idx = e
  have hmem : (s.setWord (PA2PGI e.ptePaddr) (e.ptePaddr % 4096 / 4)
      (cowEntry (s.mem (PA2PGI e.ptePaddr) (e.ptePaddr % 4096 / 4)))).mem = (s.downgraded [idx]).mem := by
    funext frame k
    simp only [setWord, downgraded, List.mem_singleton, exists_eq_left, he, MapsSlot]
    by_cases hframe : frame = PA2PGI e.ptePaddr
    · subst hframe
      by_cases hk : k = e.ptePaddr % 4096 / 4
      · subst hk
        simp
      · simp [hk, Ne.symm hk]
    · rw [Function.update_of_ne hframe, if_neg fun hslot => hframe hslot.1.symm]
  have hflush : Flushes s e ↔ ∃ running, s.runningPCB = some running ∧ running.pid = e.owner ∧
      e.pteVaddr ≠ PTE_ANON_VADDR := by
    rw [Flushes]
    cases s.runningPCB <;> simp [and_comm]
  have htlb : (s.setCOWEntry e).tlb = (s.downgraded [idx]).tlb := by
    simp only [downgraded, List.mem_singleton, forall_eq, he, setCOWEntry]
    split
    · rename_i running hrunning
      split
      · rename_i hpid
        have hflushes : Flushes s e := hflush.mpr ⟨running, hrunning, hpid⟩
        simp [hflushes, invlpg, setWord]
      · rename_i hpid
        have hkeeps : ¬Flushes s e := fun h => by
          obtain ⟨running', hrunning', hpid'⟩ := hflush.mp h
          obtain rfl := Option.some.inj (hrunning.symm.trans hrunning')
          exact hpid hpid'
        simp [hkeeps, setWord]
    · rename_i hrunning
      have hkeeps : ¬Flushes s e := fun h => by
        obtain ⟨running', hrunning', -⟩ := hflush.mp h
        rw [hrunning] at hrunning'
        exact absurd hrunning' (by simp)
      simp [hkeeps, setWord]
  have hshape : ∃ tlb, s.setCOWEntry e = { s.setWord (PA2PGI e.ptePaddr) (e.ptePaddr % 4096 / 4)
      (cowEntry (s.mem (PA2PGI e.ptePaddr) (e.ptePaddr % 4096 / 4))) with tlb } := by
    rw [setCOWEntry]
    dsimp only
    split
    · split
      · exact ⟨_, rfl⟩
      · exact ⟨_, rfl⟩
    · exact ⟨_, rfl⟩
  obtain ⟨tlb, hshape⟩ := hshape
  rw [hshape] at htlb ⊢
  have htlb' : tlb = (s.downgraded [idx]).tlb := htlb
  rw [htlb']
  have hwhole : ∀ s' : Kernel, s'.mem = (s.downgraded [idx]).mem →
      { s with mem := s'.mem, tlb := (s.downgraded [idx]).tlb } = s.downgraded [idx] := fun s' hs' => by
    rw [hs']
    rfl
  exact hwhole _ hmem

theorem setCOWLoop_eq {fuel cnt : Nat} {l : List Nat} (h : setCOWLoop fuel s cnt = .ret s')
    (hwalk : Walk s.rmapManager.next (link cnt) l) : s' = s.downgraded l := by
  induction fuel generalizing s cnt l with
  | zero => simp [setCOWLoop] at h
  | succ fuel ih =>
      rw [setCOWLoop] at h
      split at h
      · rename_i hzero
        obtain rfl := Outcome.ret.inj h
        rw [hzero, link_zero] at hwalk
        cases l with
        | nil => simp [downgraded]
        | cons j l => simp at hwalk
      · rename_i hzero
        rw [link_of_ne hzero] at hwalk
        cases l with
        | nil => simp at hwalk
        | cons j l =>
            obtain ⟨hj, hwalk⟩ := hwalk
            obtain rfl := Option.some.inj hj
            obtain ⟨-, -, h⟩ := Outcome.bind_eq_ret h
            rw [downgraded_cons]
            rw [setCOWEntry_eq] at h
            exact ih h hwalk

/-- `setCOW` of a page goes along all of its reverse mappings, or does nothing. -/
theorem setCOW_eq {res : Bool} (h : s.setCOW f = .ret (res, s')) (hc : Chains s g)
    (hpage : g.role f = .page) : s' = if res then s.downgraded (g.chain f) else s := by
  rw [setCOW] at h
  split at h
  · simp only [Outcome.pure_eq, Outcome.ret.injEq, Prod.mk.injEq] at h
    simp [← h.1, h.2]
  split at h
  · simp only [Outcome.pure_eq, Outcome.ret.injEq, Prod.mk.injEq] at h
    simp [← h.1, h.2]
  split at h
  · simp only [Outcome.pure_eq, Outcome.ret.injEq, Prod.mk.injEq] at h
    simp [← h.1, h.2]
  · obtain ⟨s₁, hloop, h⟩ := Outcome.bind_eq_ret h
    simp only [Outcome.pure_eq, Outcome.ret.injEq, Prod.mk.injEq] at h
    rw [← h.1, ← h.2, if_pos rfl]
    exact setCOWLoop_eq hloop (hc.walk f hpage)

end Kernel

end SysuOs
