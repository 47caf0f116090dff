import SysuOs.ElfRollback
import SysuOs.PagingLazy

/-! Allocating pages, all of them or none: what `allocatePages` has taken when it fails and what its rollback
gives back. A page that has a frame but gets no page table is not given back, and neither is a page table
in which the call has mapped seven pages. -/

namespace SysuOs.PageTables.Memory

open Flags Kernel

variable {P : Type} [PagePool P]

/-- What a frame that a call has taken is for; one that is not mapped is lost. -/
inductive Item where
  | page (n : Nat)
  | table (i : Nat)
  | lost
  deriving DecidableEq

/-- The frames a call has taken so far. -/
abbrev Roles := AddressPoolType → Nat → Option Item

def Roles.set (role : Roles) (type : AddressPoolType) (x : Nat) (item : Option Item) : Roles :=
  fun type' x' => if type' = type ∧ x' = x then item else role type' x'

theorem Roles.set_self (role : Roles) (type : AddressPoolType) (x : Nat) (item : Option Item) :
    role.set type x item type x = item := if_pos ⟨rfl, rfl⟩

theorem Roles.set_of_ne {role : Roles} {type type' : AddressPoolType} {x x' : Nat} {item : Option Item}
    (h : ¬(type' = type ∧ x' = x)) : role.set type x item type' x' = role type' x' := if_neg h

/-- Giving back a frame that is not lost. -/
theorem Roles.set_lost {role : Roles} {type : AddressPoolType} {x : Nat} {item : Item}
    (hrole : role type x = some item) (hitem : item ≠ .lost) (type' : AddressPoolType) (y : Nat) :
    role.set type x none type' y = some .lost ↔ role type' y = some .lost := by
  by_cases heq : type' = type ∧ y = x
  · obtain ⟨rfl, rfl⟩ := heq
    rw [Roles.set_self, hrole]
    exact iff_of_false nofun fun hlost => hitem (Option.some.inj hlost)
  · rw [Roles.set_of_ne heq]

/-- The free pages are those of the first state that have not been taken. -/
structure Books (m₀ m : Memory P) (role : Roles) : Prop where
  free : ∀ type x, PagePool.free (m.pool type) x ↔ PagePool.free (m₀.pool type) x ∧ role type x = none
  taken : ∀ type x, role type x ≠ none → PagePool.taken (m.pool type) x
  was : ∀ type x, role type x ≠ none → PagePool.free (m₀.pool type) x

section Books

variable {m₀ m m' : Memory P} {role : Roles} {type : AddressPoolType} {x : Nat} {p : P} {item : Item}

theorem Books.refl (m : Memory P) : Books m m fun _ _ => none where
  free _ _ := (and_iff_left rfl).symm
  taken _ _ h := absurd rfl h
  was _ _ h := absurd rfl h

theorem Books.congr (h : Books m₀ m role) (hpool : m'.pool = m.pool) : Books m₀ m' role where
  free type x := by
    rw [hpool]
    exact h.free type x
  taken type x := by
    rw [hpool]
    exact h.taken type x
  was := h.was

/-- A frame is taken. -/
theorem Books.take (h : Books m₀ m role) (halloc : PagePool.allocate (m.pool type) = some (x, p))
    (item : Item) :
    Books m₀ (m.setPool type p) (role.set type x (some item)) ∧ role type x = none := by
  obtain ⟨hfree, hleft, htaken⟩ := PagePool.allocate_free _ _ _ halloc
  obtain ⟨hwas, hnone⟩ := (h.free type x).mp hfree
  refine ⟨⟨fun type' y => ?_, fun type' y hy => ?_, fun type' y hy => ?_⟩, hnone⟩
  · by_cases htype : type' = type
    · subst htype
      rw [setPool_self, hleft, h.free, and_assoc]
      refine and_congr_right fun _ => ?_
      by_cases hyx : y = x
      · subst hyx
        rw [Roles.set_self]
        exact iff_of_false (fun hf => hf.2 rfl) (Option.some_ne_none item)
      · rw [Roles.set_of_ne fun hf => hyx hf.2]
        exact and_iff_left hyx
    · rw [setPool_of_ne htype, Roles.set_of_ne fun hf => htype hf.1]
      exact h.free type' y
  · by_cases htype : type' = type
    · subst htype
      rw [setPool_self, htaken]
      by_cases hyx : y = x
      · exact Or.inr hyx
      · rw [Roles.set_of_ne fun hf => hyx hf.2] at hy
        exact Or.inl (h.taken type' y hy)
    · rw [Roles.set_of_ne fun hf => htype hf.1] at hy
      rw [setPool_of_ne htype]
      exact h.taken type' y hy
  · by_cases heq : type' = type ∧ y = x
    · rw [heq.1, heq.2]
      exact hwas
    · rw [Roles.set_of_ne heq] at hy
      exact h.was type' y hy

/-- A frame is given back. -/
theorem Books.giveBack (h : Books m₀ m role) (hrole : role type x ≠ none) :
    Books m₀ (m.releasePhysicalPages type x) (role.set type x none) := by
  obtain ⟨hback, htaken⟩ := PagePool.release_free _ _ (h.taken type x hrole)
  have hwas := h.was type x hrole
  rw [releasePhysicalPages]
  refine ⟨fun type' y => ?_, fun type' y hy => ?_, fun type' y hy => ?_⟩
  · by_cases htype : type' = type
    · subst htype
      rw [setPool_self, hback, h.free]
      by_cases hyx : y = x
      · subst hyx
        rw [Roles.set_self]
        exact iff_of_true (Or.inr rfl) ⟨hwas, rfl⟩
      · rw [Roles.set_of_ne fun hf => hyx hf.2, or_iff_left hyx]
    · rw [setPool_of_ne htype, Roles.set_of_ne fun hf => htype hf.1]
      exact h.free type' y
  · have hne : ¬(type' = type ∧ y = x) := by
      rintro ⟨rfl, rfl⟩
      exact hy (Roles.set_self _ _ _ _)
    rw [Roles.set_of_ne hne] at hy
    by_cases htype : type' = type
    · subst htype
      rw [setPool_self, htaken]
      exact ⟨h.taken type' y hy, fun hyx => hne ⟨rfl, hyx⟩⟩
    · rw [setPool_of_ne htype]
      exact h.taken type' y hy
  · have hne : ¬(type' = type ∧ y = x) := by
      rintro ⟨rfl, rfl⟩
      exact hy (Roles.set_self _ _ _ _)
    rw [Roles.set_of_ne hne] at hy
    exact h.was type' y hy

/-- A frame that has been taken is for something else. -/
theorem Books.relabel (h : Books m₀ m role) (hrole : role type x ≠ none) (item : Item) :
    Books m₀ m (role.set type x (some item)) := by
  have hnone : ∀ type' y, role.set type x (some item) type' y = none ↔ role type' y = none := by
    intro type' y
    by_cases heq : type' = type ∧ y = x
    · rw [heq.1, heq.2, Roles.set_self]
      exact iff_of_false (Option.some_ne_none item) hrole
    · rw [Roles.set_of_ne heq]
  refine ⟨fun type' y => ?_, fun type' y hy => ?_, fun type' y hy => ?_⟩
  · rw [hnone]
    exact h.free type' y
  · rw [Ne, hnone] at hy
    exact h.taken type' y hy
  · rw [Ne, hnone] at hy
    exact h.was type' y hy

end Books

/-! ### The accounts of a call -/

/-- How many of the pages are in page table `i`. -/
def pagesIn (L : List Nat) (i : Nat) : Nat := L.countP fun n => n / 1024 = i

/-- The counter of a page table that had `first`, at most `peak` pages of the call and has `now` of them. -/
def tally (first peak now : Nat) : Nat := if 7 ≤ first + peak then 7 else first + now

/-- A page table of the call that is not given back: it has pages, or had seven. -/
def Stays (type : AddressPoolType) (peak now : Nat) : Prop :=
  0 < peak ∧ ¬(Space.firstCount type = 0 ∧ peak ≤ 6 ∧ now = 0)

/-- What the first state of a call has to offer: the page tables in `D` are apart, counted and in no pool,
and no reverse mapping is of a free page. -/
structure Ready (D : Nat → Prop) (type : AddressPoolType) (m : Memory P) : Prop where
  apart : ∀ i j e e', D i → D j → m.pde i = some e → m.pde j = some e' → e.frame = e'.frame → i = j
  tables : ∀ i e, D i → m.pde i = some e → ¬PagePool.free m.kernelPhysical e.frame
  counts : ∀ i e, D i → m.pde i = some e → 0 < e.count ∧ e.count ≤ 7
  records : ∀ r, r ∈ m.rmap → ¬PagePool.free (m.pool type) r.1

/-- The pages `L` are mapped, in page tables that have had `peak` of them; a page table that was not there
before the call is one of its own. -/
structure Accounts (D : Nat → Prop) (type : AddressPoolType) (m₀ m : Memory P) (role : Roles) (L : List Nat)
    (peak : Nat → Nat) : Prop extends Books m₀ m role where
  nodup : L.Nodup
  within : ∀ n, n ∈ L → D (n / 1024)
  unused : ∀ n, n ∈ L → m₀.entry n = 0#32
  peak_le : ∀ i, pagesIn L i ≤ peak i
  page : ∀ type' x n, role type' x = some (.page n) → type' = type ∧ n ∈ L ∧ frameOf (m.entry n) = x
  mapped : ∀ n, n ∈ L → role type (frameOf (m.entry n)) = some (.page n) ∧
    hasFlag (m.entry n) PTE_PRESENT = true
  table : ∀ type' x i, role type' x = some (.table i) →
    type' = .KERNEL ∧ D i ∧ m₀.pde i = none ∧ ∃ c, m.pde i = some ⟨x, c⟩
  old : ∀ i e, D i → m₀.pde i = some e →
    m.pde i = some ⟨e.frame, tally e.count (peak i) (pagesIn L i)⟩
  new : ∀ i e, D i → m₀.pde i = none → m.pde i = some e →
    e.count = tally (Space.firstCount type) (peak i) (pagesIn L i) ∧ role .KERNEL e.frame = some (.table i)
  gone : ∀ i, D i → m₀.pde i = none → m.pde i = none → ¬Stays type (peak i) (pagesIn L i)
  entry : ∀ n, D (n / 1024) → n ∉ L → m.entry n = m₀.entry n
  rmap : m.rmap = (L.map fun n => m.place n (frameOf (m.entry n)) : Multiset (Nat × Nat × Nat)) + m₀.rmap
  reserved : m.reserved = m₀.reserved
  privilege : m.privilege = m₀.privilege

/-- Between two pages of a call: a page table of its own is there only as long as it stays. -/
structure Ledger (D : Nat → Prop) (type : AddressPoolType) (m₀ m : Memory P) (role : Roles) (L : List Nat)
    (peak : Nat → Nat) : Prop extends Accounts D type m₀ m role L peak where
  stays : ∀ i e, D i → m₀.pde i = none → m.pde i = some e → Stays type (peak i) (pagesIn L i)

section Accounts

variable {D : Nat → Prop} {type : AddressPoolType} {m₀ m m' : Memory P} {role : Roles} {L : List Nat}
  {peak : Nat → Nat} {n x : Nat} {e : Pde} {p : P}

/-- The frame of a page table is not free. -/
theorem Accounts.table_used (hready : Ready D type m₀) (h : Accounts D type m₀ m role L peak) {i : Nat}
    (hi : D i) (hpde : m.pde i = some e) : ¬PagePool.free (m.pool .KERNEL) e.frame := by
  intro hfree
  obtain ⟨hwas, hnone⟩ := (h.free .KERNEL _).mp hfree
  cases hold : m₀.pde i with
  | none =>
      rw [(h.new i e hi hold hpde).2] at hnone
      cases hnone
  | some e₀ =>
      obtain rfl := Option.some.inj ((h.old i e₀ hi hold).symm.trans hpde)
      exact hready.tables i e₀ hi hold hwas

theorem Accounts.apart (hready : Ready D type m₀) (h : Accounts D type m₀ m role L peak) {i j : Nat}
    {e' : Pde} (hi : D i) (hj : D j) (hpde : m.pde i = some e) (hpde' : m.pde j = some e')
    (heq : e.frame = e'.frame) : i = j := by
  have hmixed : ∀ i j e e', D i → D j → m₀.pde i = none → m₀.pde j ≠ none → m.pde i = some e →
      m.pde j = some e' → e.frame ≠ e'.frame := by
    intro i j e e' hi hj hnew hold hpde hpde' heq
    obtain ⟨e₀, he₀⟩ := Option.ne_none_iff_exists'.mp hold
    obtain rfl := Option.some.inj ((h.old j e₀ hj he₀).symm.trans hpde')
    have hrole := (h.new i e hi hnew hpde).2
    refine hready.tables j e₀ hj he₀ (h.was .KERNEL e₀.frame ?_)
    have heq' : e.frame = e₀.frame := heq
    rw [← heq', hrole]
    exact Option.some_ne_none _
  cases hold : m₀.pde i with
  | none =>
      cases hold' : m₀.pde j with
      | none =>
          have hrole := (h.new i e hi hold hpde).2
          rw [heq, (h.new j e' hj hold' hpde').2] at hrole
          cases hrole
          rfl
      | some e₀ =>
          exact absurd heq (hmixed i j e e' hi hj hold (by rw [hold']; exact Option.some_ne_none _) hpde hpde')
  | some e₀ =>
      cases hold' : m₀.pde j with
      | none =>
          exact absurd heq.symm
            (hmixed j i e' e hj hi hold' (by rw [hold]; exact Option.some_ne_none _) hpde' hpde)
      | some e₁ =>
          obtain rfl := Option.some.inj ((h.old i e₀ hi hold).symm.trans hpde)
          obtain rfl := Option.some.inj ((h.old j e₁ hj hold').symm.trans hpde')
          exact hready.apart i j e₀ e₁ hi hj hold hold' heq

/-- The page tables are distinct, and a free frame is none of them. -/
theorem Accounts.distinct (hready : Ready D type m₀) (h : Accounts D type m₀ m role L peak) {i f : Nat}
    (hfree : PagePool.free (m.pool .KERNEL) f) :
    Distinct D ⟨fun j => if j = i then some f else none, fun _ => none, fun _ => 0#32, fun _ => false⟩
      m.toSpace where
  unused j frame hD htable k e hk hpde heq := by
    dsimp only at htable
    split at htable
    · obtain rfl := Option.some.inj htable
      rw [← heq] at hfree
      exact absurd hfree (h.table_used hready hk hpde)
    · cases htable
  inj j k frame hD hD' hj hk := by
    dsimp only at hj hk
    split at hj
    · split at hk
      · next hji hki => rw [hji, hki]
      · cases hk
    · cases hj
  apart _ _ _ _ hD hD' hj hk heq := h.apart hready hD hD' hj hk heq

theorem pagesIn_cons (L : List Nat) (n i : Nat) :
    pagesIn (n :: L) i = pagesIn L i + if n / 1024 = i then 1 else 0 := by
  rw [pagesIn, List.countP_cons]
  simp only [decide_eq_true_eq]
  rfl

theorem pagesIn_erase (h : n ∈ L) (i : Nat) :
    pagesIn L i = pagesIn (L.erase n) i + if n / 1024 = i then 1 else 0 := by
  rw [← pagesIn_cons]
  exact (List.perm_cons_erase h).countP_eq _

/-- No page of the call is in a page table that is not there. -/
theorem Accounts.pagesIn_none (h : Accounts D type m₀ m role L peak) {i : Nat} (hpde : m.pde i = none) :
    pagesIn L i = 0 := by
  rw [pagesIn, List.countP_eq_zero]
  intro k hk hki
  obtain rfl : k / 1024 = i := by simpa using hki
  have hpresent := (h.mapped k hk).2
  rw [Space.entry_none hpde] at hpresent
  exact absurd hpresent (Bool.eq_false_iff.mp present_zero)

/-- The books change, and roles other than that of a lost frame do not. -/
theorem Accounts.rebook (h : Accounts D type m₀ m role L peak) {role' : Roles} (hbooks : Books m₀ m' role')
    (hspace : m'.toSpace = m.toSpace) (hrmap : m'.rmap = m.rmap) (hprivilege : m'.privilege = m.privilege)
    (hrole : ∀ type' y item, item ≠ Item.lost → (role' type' y = some item ↔ role type' y = some item)) :
    Accounts D type m₀ m' role' L peak where
  toBooks := hbooks
  nodup := h.nodup
  within := h.within
  unused := h.unused
  peak_le := h.peak_le
  page type' y n hy := by
    rw [hspace]
    exact h.page type' y n ((hrole type' y (.page n) nofun).mp hy)
  mapped n hn := by
    rw [hspace]
    obtain ⟨hpage, hpresent⟩ := h.mapped n hn
    exact ⟨(hrole _ _ (.page n) nofun).mpr hpage, hpresent⟩
  table type' y i hy := by
    rw [hspace]
    exact h.table type' y i ((hrole type' y (.table i) nofun).mp hy)
  old i e hi hold := by
    rw [hspace]
    exact h.old i e hi hold
  new i e hi hnew hpde := by
    rw [hspace] at hpde
    obtain ⟨hcount, htable⟩ := h.new i e hi hnew hpde
    exact ⟨hcount, (hrole _ _ (.table i) nofun).mpr htable⟩
  gone i hi hnew hpde := by
    rw [hspace] at hpde
    exact h.gone i hi hnew hpde
  entry n hn hnL := by
    rw [hspace]
    exact h.entry n hn hnL
  rmap := by
    rw [hrmap, h.rmap]
    simp only [place, hspace]
  reserved := by
    rw [hspace]
    exact h.reserved
  privilege := hprivilege.trans h.privilege

/-- A frame is taken for a page that is not mapped yet. -/
theorem Ledger.lose (h : Ledger D type m₀ m role L peak)
    (halloc : PagePool.allocate (m.pool type) = some (x, p)) :
    Ledger D type m₀ (m.setPool type p) (role.set type x (some .lost)) L peak := by
  obtain ⟨hbooks, hnone⟩ := h.toBooks.take halloc .lost
  have hspace : (m.setPool type p).toSpace = m.toSpace := setPool_space m type p
  have hprivilege : (m.setPool type p).privilege = m.privilege := by cases type <;> rfl
  refine ⟨h.toAccounts.rebook hbooks hspace (setPool_rmap m type p) hprivilege fun type' y item hitem => ?_,
    fun i e hi hnew hpde => ?_⟩
  · by_cases heq : type' = type ∧ y = x
    · rw [heq.1, heq.2, Roles.set_self, hnone]
      exact iff_of_false (fun hlost => hitem (Option.some.inj hlost).symm) nofun
    · rw [Roles.set_of_ne heq]
  · rw [hspace] at hpde
    exact h.stays i e hi hnew hpde

/-- A page table is linked for a page. -/
theorem Accounts.link (hready : Ready D type m₀) (h : Accounts D type m₀ m role L (pagesIn L))
    (hn : D (n / 1024))
    (hpde : m.pde (n / 1024) = none) {f : Nat} (halloc : PagePool.allocate (m.pool .KERNEL) = some (f, p)) :
    Accounts D type m₀ ((m.setPool .KERNEL p).withSpace (m.toSpace.linkTable type n f))
      (role.set .KERNEL f (some (.table (n / 1024)))) L (pagesIn L) := by
  obtain ⟨hbooks, hnone⟩ := h.toBooks.take halloc (.table (n / 1024))
  have hfree := (PagePool.allocate_free _ _ _ halloc).1
  have hzero := h.pagesIn_none hpde
  have hm₀ : m₀.pde (n / 1024) = none := by
    cases hold : m₀.pde (n / 1024) with
    | none => rfl
    | some e =>
        rw [h.old _ e hn hold] at hpde
        cases hpde
  have hlinked : Space.Linked ⟨fun j => if j = n / 1024 then some f else none, fun _ => none, fun _ => 0#32,
      fun _ => false⟩ type m.toSpace n (m.toSpace.linkTable type n f) :=
    Space.Linked.table hpde (if_pos rfl)
  obtain ⟨-, hreserved, hentry⟩ := (h.distinct hready hfree).linked hn hlinked
  have hself := m.toSpace.linkTable_pde_self type n f
  have hother : ∀ i, i ≠ n / 1024 → (m.toSpace.linkTable type n f).pde i = m.pde i :=
    fun i hi => Function.update_of_ne hi _ _
  have hset : ∀ type' y item, role type' y = some item →
      (role.set .KERNEL f (some (.table (n / 1024)))) type' y = some item := by
    intro type' y item hy
    rw [Roles.set_of_ne, hy]
    rintro ⟨rfl, rfl⟩
    rw [hnone] at hy
    cases hy
  have hback : ∀ type' y item, item ≠ Item.table (n / 1024) →
      (role.set .KERNEL f (some (.table (n / 1024)))) type' y = some item → role type' y = some item := by
    intro type' y item hitem hy
    by_cases heq : type' = .KERNEL ∧ y = f
    · rw [heq.1, heq.2, Roles.set_self] at hy
      exact absurd (Option.some.inj hy).symm hitem
    · rwa [Roles.set_of_ne heq] at hy
  refine
    { toBooks := hbooks.congr rfl
      nodup := h.nodup
      within := h.within
      unused := h.unused
      peak_le := h.peak_le
      page := fun type' y k hy => ?_
      mapped := fun k hk => ?_
      table := fun type' y i hy => ?_
      old := fun i e hi hold => ?_
      new := fun i e hi hnew hi' => ?_
      gone := fun i hi hnew hi' => ?_
      entry := fun k hk hkL => (hentry k hk).trans (h.entry k hk hkL)
      rmap := ?_
      reserved := hreserved.trans h.reserved
      privilege := h.privilege }
  · obtain ⟨htype, hkL, hframe⟩ := h.page type' y k (hback type' y (.page k) nofun hy)
    exact ⟨htype, hkL, by rw [← hframe]; exact congrArg frameOf (hentry k (h.within k hkL))⟩
  · obtain ⟨hpage, hpresent⟩ := h.mapped k hk
    have hk' := hentry k (h.within k hk)
    refine ⟨?_, ?_⟩
    · change (role.set .KERNEL f _) type (frameOf ((m.toSpace.linkTable type n f).entry k)) = _
      rw [hk']
      exact hset _ _ _ hpage
    · change hasFlag ((m.toSpace.linkTable type n f).entry k) PTE_PRESENT = true
      rw [hk']
      exact hpresent
  · by_cases heq : type' = .KERNEL ∧ y = f
    · obtain ⟨rfl, rfl⟩ := heq
      rw [Roles.set_self] at hy
      cases hy
      exact ⟨rfl, hn, hm₀, _, hself⟩
    · rw [Roles.set_of_ne heq] at hy
      obtain ⟨htype, hi, hnew, c, hc⟩ := h.table type' y i hy
      refine ⟨htype, hi, hnew, c, (hother i ?_).trans hc⟩
      rintro rfl
      rw [hpde] at hc
      cases hc
  · refine (hother i ?_).trans (h.old i e hi hold)
    rintro rfl
    rw [hm₀] at hold
    cases hold
  · by_cases hin : i = n / 1024
    · subst hin
      obtain rfl := Option.some.inj (hself.symm.trans hi')
      rw [hzero]
      refine ⟨?_, Roles.set_self _ _ _ _⟩
      cases type <;> rfl
    · obtain ⟨hcount, htable⟩ := h.new i e hi hnew ((hother i hin).symm.trans hi')
      exact ⟨hcount, hset _ _ _ htable⟩
  · by_cases hin : i = n / 1024
    · subst hin
      have hi'' : (m.toSpace.linkTable type n f).pde (n / 1024) = none := hi'
      rw [hself] at hi''
      cases hi''
    · exact h.gone i hi hnew ((hother i hin).symm.trans hi')
  · change m.rmap = _
    rw [h.rmap]
    congr 2
    refine List.map_congr_left fun k hk => ?_
    have hne : k / 1024 ≠ n / 1024 := by
      intro heq
      have hpresent := (h.mapped k hk).2
      rw [Space.entry_none (by rw [heq]; exact hpde)] at hpresent
      exact absurd hpresent (Bool.eq_false_iff.mp present_zero)
    have hk' : ((m.setPool .KERNEL p).withSpace (m.toSpace.linkTable type n f)).pde (k / 1024) =
        m.pde (k / 1024) :=
      hother _ hne
    have hk'' : ((m.setPool .KERNEL p).withSpace (m.toSpace.linkTable type n f)).entry k = m.entry k :=
      hentry k (h.within k hk)
    rw [place, place, hk', hk'']

theorem Accounts.distinct_none (hready : Ready D type m₀) (h : Accounts D type m₀ m role L peak) :
    Distinct D ⟨fun _ => none, fun _ => none, fun _ => 0#32, fun _ => false⟩ m.toSpace where
  unused _ _ _ htable := nomatch htable
  inj _ _ _ _ _ htable := nomatch htable
  apart _ _ _ _ hD hD' hj hk heq := h.apart hready hD hD' hj hk heq

theorem tally_succ (first now : Nat) : min (tally first now now + 1) 7 = tally first (now + 1) (now + 1) := by
  rw [tally, tally]
  split <;> split <;> omega

omit [PagePool P] in
/-- What a reverse mapping records depends on the frame of the page table only. -/
theorem place_congr {k : Nat} (h : (m'.pde (k / 1024)).map Pde.frame = (m.pde (k / 1024)).map Pde.frame)
    (y : Nat) :
    m'.place k y = m.place k y := by
  rw [place, place]
  cases hpde : m.pde (k / 1024) with
  | none =>
      rw [hpde, Option.map_none, Option.map_eq_none_iff] at h
      rw [h]
  | some e =>
      rw [hpde, Option.map_some, Option.map_eq_some_iff] at h
      obtain ⟨e', he', hframe⟩ := h
      rw [he']
      dsimp only
      rw [hframe]

theorem frameOf_processEntry (hx : x < 2 ^ 20) (flags : Byte) :
    frameOf (Elf.processEntry (x * 4096) flags) = x ∧
      hasFlag (Elf.processEntry (x * 4096) flags) PTE_PRESENT = true := by
  have hlt : x * 4096 < 2 ^ 32 := by omega
  obtain ⟨hpresent, hframe, -⟩ := Elf.processEntry_spec hlt (Nat.mul_mod_left x 4096) flags
  refine ⟨hframe.trans ?_, hpresent⟩
  exact Nat.mul_div_cancel x (by decide)

/-- Page `n` has the entry `w` now, and its page table counts it. -/
structure Added (D : Nat → Prop) (n : Nat) (e : Pde) (w : Word) (m m' : Memory P) : Prop where
  entry : ∀ k, D (k / 1024) → m'.entry k = if k = n then w else m.entry k
  self : m'.pde (n / 1024) = some { e with count := min (e.count + 1) 7 }
  other : ∀ i, i ≠ n / 1024 → m'.pde i = m.pde i
  reserved : m'.reserved = m.reserved

theorem Accounts.added (hready : Ready D type m₀) (h : Accounts D type m₀ m role L peak) (hn : D (n / 1024))
    (hpde : m.pde (n / 1024) = some e) {w : Word} (hspace : m'.toSpace = m.toSpace.mapPage n w) :
    Added D n e w m m' := by
  obtain ⟨-, hreserved, hmapped⟩ := (h.distinct_none hready).mapPage hn hpde w
  refine ⟨fun k hk => ?_, ?_, fun i hi => ?_, ?_⟩
  · rw [hspace]
    exact hmapped k hk
  · rw [hspace, Space.mapPage_eq hpde]
    exact Function.update_self _ _ _
  · rw [hspace, Space.mapPage_eq hpde]
    exact Function.update_of_ne hi _ _
  · rw [hspace, hreserved]

omit [PagePool P] in
theorem pagesIn_cons_self (n : Nat) (L : List Nat) : pagesIn (n :: L) (n / 1024) = pagesIn L (n / 1024) + 1 := by
  rw [pagesIn_cons, if_pos rfl]

theorem pagesIn_cons_of_ne {i : Nat} (hi : i ≠ n / 1024) : pagesIn (n :: L) i = pagesIn L i := by
  rw [pagesIn_cons, if_neg hi.symm, Nat.add_zero]

namespace Added

variable {w : Word} {i : Nat} {e₀ e' : Pde}

omit [PagePool P] in
theorem place (ha : Added D n e w m m') (hpde : m.pde (n / 1024) = some e) (k y : Nat) :
    m'.place k y = m.place k y := by
  refine place_congr ?_ y
  by_cases hk : k / 1024 = n / 1024
  · rw [hk, ha.self, hpde]
    rfl
  · rw [ha.other _ hk]

/-- The entries of the pages that were mapped before. -/
theorem entry_of_mem (ha : Added D n e w m m') (h : Accounts D type m₀ m role L peak) (hnL : n ∉ L) {k : Nat}
    (hk : k ∈ L) : m'.entry k = m.entry k := by
  rw [ha.entry k (h.within k hk), if_neg]
  rintro rfl
  exact hnL hk

/-- The counters of the page tables there were, and of those of the call. -/
theorem old (ha : Added D n e w m m') (h : Accounts D type m₀ m role L (pagesIn L))
    (hpde : m.pde (n / 1024) = some e) (hi : D i) (hold : m₀.pde i = some e₀) :
    m'.pde i = some ⟨e₀.frame, tally e₀.count (pagesIn (n :: L) i) (pagesIn (n :: L) i)⟩ := by
  by_cases hin : i = n / 1024
  · subst hin
    obtain rfl := Option.some.inj ((h.old _ e₀ hi hold).symm.trans hpde)
    rw [ha.self, pagesIn_cons_self, ← tally_succ]
  · rw [ha.other i hin, pagesIn_cons_of_ne hin]
    exact h.old i e₀ hi hold

theorem new (ha : Added D n e w m m') (h : Accounts D type m₀ m role L (pagesIn L))
    (hpde : m.pde (n / 1024) = some e) (hi : D i) (hnew : m₀.pde i = none) (hi' : m'.pde i = some e') :
    e'.count = tally (Space.firstCount type) (pagesIn (n :: L) i) (pagesIn (n :: L) i) ∧
      role .KERNEL e'.frame = some (.table i) := by
  by_cases hin : i = n / 1024
  · subst hin
    obtain rfl := Option.some.inj (ha.self.symm.trans hi')
    obtain ⟨hcount, htable⟩ := h.new _ e hi hnew hpde
    dsimp only
    rw [pagesIn_cons_self, ← tally_succ, ← hcount]
    exact ⟨rfl, htable⟩
  · rw [ha.other i hin] at hi'
    rw [pagesIn_cons_of_ne hin]
    exact h.new i e' hi hnew hi'

theorem gone (ha : Added D n e w m m') (h : Accounts D type m₀ m role L (pagesIn L)) (hi : D i)
    (hnew : m₀.pde i = none) (hi' : m'.pde i = none) :
    ¬Stays type (pagesIn (n :: L) i) (pagesIn (n :: L) i) := by
  have hin : i ≠ n / 1024 := by
    rintro rfl
    rw [ha.self] at hi'
    cases hi'
  rw [ha.other i hin] at hi'
  rw [pagesIn_cons_of_ne hin]
  exact h.gone i hi hnew hi'

end Added

/-- An item that is not lost is not where a lost one was. -/
theorem Roles.set_of_lost {role : Roles} {type' : AddressPoolType} {y : Nat} {item : Item}
    (hlost : role type x = some .lost) (hy : role type' y = some item) (hitem : item ≠ .lost) (new : Option Item) :
    (role.set type x new) type' y = some item := by
  rw [Roles.set_of_ne, hy]
  rintro ⟨rfl, rfl⟩
  exact hitem (Option.some.inj (hy.symm.trans hlost))

/-- A page with a frame is mapped and attached. -/
theorem Accounts.map (hready : Ready D type m₀) (h : Accounts D type m₀ m role L (pagesIn L))
    (hstays : ∀ i e, i ≠ n / 1024 → D i → m₀.pde i = none → m.pde i = some e →
      Stays type (pagesIn L i) (pagesIn L i))
    (hn : D (n / 1024)) (hpde : m.pde (n / 1024) = some e) (hnL : n ∉ L) (hzero : m₀.entry n = 0#32)
    (hlost : role type x = some .lost)
    (hx : x < 2 ^ 20) (flags : Byte)
    (hspace : m'.toSpace = m.toSpace.mapPage n (Elf.processEntry (x * 4096) flags)) (hpool : m'.pool = m.pool)
    (hprivilege : m'.privilege = m.privilege) (hrmap : m'.rmap = m.place n x ::ₘ m.rmap) :
    Ledger D type m₀ m' (role.set type x (some (.page n))) (n :: L) (pagesIn (n :: L)) := by
  obtain ⟨hframe, hpresent⟩ := frameOf_processEntry hx flags
  have ha := h.added hready hn hpde hspace
  refine
    { toBooks := (h.toBooks.relabel (by rw [hlost]; exact Option.some_ne_none _) _).congr hpool
      nodup := List.nodup_cons.mpr ⟨hnL, h.nodup⟩
      within := fun k hk => ?_
      unused := fun k hk => ?_
      peak_le := fun _ => le_refl _
      page := fun type' y k hy => ?_
      mapped := fun k hk => ?_
      table := fun type' y i hy => ?_
      old := fun i e₀ hi hold => ha.old h hpde hi hold
      new := fun i e' hi hnew hi' => ?_
      gone := fun i hi hnew hi' => ha.gone h hi hnew hi'
      entry := fun k hk hkL => ?_
      rmap := ?_
      reserved := ha.reserved.trans h.reserved
      privilege := hprivilege.trans h.privilege
      stays := fun i e' hi hnew hi' => ?_ }
  · rcases List.mem_cons.mp hk with rfl | hk
    · exact hn
    · exact h.within k hk
  · rcases List.mem_cons.mp hk with rfl | hk
    · exact hzero
    · exact h.unused k hk
  · by_cases heq : type' = type ∧ y = x
    · obtain ⟨rfl, rfl⟩ := heq
      rw [Roles.set_self] at hy
      cases hy
      refine ⟨rfl, List.mem_cons_self, ?_⟩
      rw [ha.entry n hn, if_pos rfl, hframe]
    · rw [Roles.set_of_ne heq] at hy
      obtain ⟨htype, hkL, hk⟩ := h.page type' y k hy
      refine ⟨htype, List.mem_cons_of_mem n hkL, ?_⟩
      rw [ha.entry_of_mem h hnL hkL, hk]
  · rcases List.mem_cons.mp hk with rfl | hk
    · rw [ha.entry k hn, if_pos rfl, hframe]
      exact ⟨Roles.set_self _ _ _ _, hpresent⟩
    · obtain ⟨hpage, hpresent'⟩ := h.mapped k hk
      rw [ha.entry_of_mem h hnL hk]
      exact ⟨Roles.set_of_lost hlost hpage (fun hitem => by cases hitem) _, hpresent'⟩
  · have heq : ¬(type' = type ∧ y = x) := by
      rintro ⟨rfl, rfl⟩
      rw [Roles.set_self] at hy
      cases hy
    rw [Roles.set_of_ne heq] at hy
    obtain ⟨htype, hi, hnew, c, hc⟩ := h.table type' y i hy
    refine ⟨htype, hi, hnew, ?_⟩
    by_cases hin : i = n / 1024
    · subst hin
      obtain rfl := Option.some.inj (hc.symm.trans hpde)
      exact ⟨_, ha.self⟩
    · exact ⟨c, (ha.other i hin).trans hc⟩
  · obtain ⟨hcount, htable⟩ := ha.new h hpde hi hnew hi'
    exact ⟨hcount, Roles.set_of_lost hlost htable (fun hitem => by cases hitem) _⟩
  · rw [List.mem_cons, not_or] at hkL
    rw [ha.entry k hk, if_neg hkL.1]
    exact h.entry k hk hkL.2
  · rw [hrmap, h.rmap, List.map_cons, ← Multiset.cons_coe, Multiset.cons_add, ha.place hpde, ha.entry n hn,
      if_pos rfl, hframe]
    congr 3
    exact List.map_congr_left fun k hk => by rw [ha.place hpde, ha.entry_of_mem h hnL hk]
  · by_cases hin : i = n / 1024
    · subst hin
      rw [pagesIn_cons_self]
      exact ⟨Nat.succ_pos _, fun hgone => Nat.succ_ne_zero _ hgone.2.2⟩
    · rw [pagesIn_cons_of_ne hin]
      exact hstays i e' hin hi hnew ((ha.other i hin).symm.trans hi')

/-- The rest of `connectPhysicalVirtualPage` when there is a page table. -/
theorem Accounts.connect (hready : Ready D type m₀) (h : Accounts D type m₀ m role L (pagesIn L))
    (hstays : ∀ i e, i ≠ n / 1024 → D i → m₀.pde i = none → m.pde i = some e →
      Stays type (pagesIn L i) (pagesIn L i))
    (hn : D (n / 1024)) (hpde : m.pde (n / 1024) = some e) (hnL : n ∉ L) (hzero : m₀.entry n = 0#32)
    (hlost : role type x = some .lost)
    (hx : x < 2 ^ 20) {flags : Byte} {flag : Bool}
    (hres : (let m := m.withSpace (m.toSpace.mapPage n (Elf.processEntry (x * 4096) flags))
      Outcome.ASSERT ((m.attach (m.place n x)).1 = true) >>= fun _ =>
        (.ret (true, (m.attach (m.place n x)).2) : Outcome (Bool × Memory P))) = .ret (flag, m')) :
    flag = true ∧ Ledger D type m₀ m' (role.set type x (some (.page n))) (n :: L) (pagesIn (n :: L)) := by
  dsimp only at hres
  obtain ⟨_, hassert, hres⟩ := Outcome.bind_eq_ret hres
  obtain ⟨rfl, rfl⟩ := Prod.mk.inj (Outcome.ret.inj hres)
  have hplace : (m.withSpace (m.toSpace.mapPage n (Elf.processEntry (x * 4096) flags))).place n x =
      m.place n x := by
    refine place_congr ?_ x
    change ((m.toSpace.mapPage n (Elf.processEntry (x * 4096) flags)).pde (n / 1024)).map Pde.frame = _
    rw [Space.mapPage_eq hpde, hpde]
    dsimp only
    rw [Function.update_self]
    rfl
  refine ⟨rfl, h.map hready hstays hn hpde hnL hzero hlost hx flags ?_ ?_ ?_ ?_⟩
  · rw [attach]
    split <;> rfl
  · rw [attach]
    split <;> rfl
  · rw [attach]
    split <;> rfl
  · rw [attach] at hassert ⊢
    by_cases hroom : (m.withSpace (m.toSpace.mapPage n (Elf.processEntry (x * 4096) flags))).rmap.card <
        (m.withSpace (m.toSpace.mapPage n (Elf.processEntry (x * 4096) flags))).rmapNodes
    · rw [if_pos hroom, hplace]
      rfl
    · rw [if_neg hroom] at hassert
      cases hassert

/-- What `allocatePages` does for a page: it is mapped, or there is no frame for it, or its frame is lost. -/
theorem Ledger.allocatePage (hready : Ready D type m₀) (h : Ledger D type m₀ m role L (pagesIn L))
    (hn : D (n / 1024)) (hnL : n ∉ L) (hzero : m₀.entry n = 0#32) {v : VPool} {flag : Bool}
    (hres : m.allocatePage type v n = .ret (flag, m')) :
    (flag = true ∧ ∃ role', Ledger D type m₀ m' role' (n :: L) (pagesIn (n :: L)) ∧
      ∀ type' y, role' type' y = some .lost → role type' y = some .lost) ∨
      (flag = false ∧ (m.allocatePhysicalPages type).1 = none ∧ m' = m) ∨
        (flag = false ∧ (m.allocatePhysicalPages type).1 ≠ none ∧
          ∃ role' x, role' type x = some .lost ∧ Ledger D type m₀ m' role' L (pagesIn L)) := by
  rw [Memory.allocatePage] at hres
  cases halloc : PagePool.allocate (m.pool type) with
  | none =>
      have hnone : m.allocatePhysicalPages type = (none, m) := by
        rw [allocatePhysicalPages, halloc]
      rw [hnone] at hres ⊢
      obtain ⟨rfl, rfl⟩ := Prod.mk.inj (Outcome.ret.inj hres)
      exact Or.inr (Or.inl ⟨rfl, rfl, rfl⟩)
  | some y =>
      obtain ⟨x, p⟩ := y
      have hsome : m.allocatePhysicalPages type = (some x, m.setPool type p) := by
        rw [allocatePhysicalPages, halloc]
      have hx := (PagePool.bound _ _ (PagePool.allocate_free _ _ _ halloc).1).2
      have h₁ := h.lose halloc
      rw [hsome] at hres ⊢
      dsimp only at hres
      generalize m.setPool type p = m₁ at hres h₁
      have hlost : role.set type x (some .lost) type x = some .lost := Roles.set_self _ _ _ _
      have hback : ∀ type' y, ¬(type' = type ∧ y = x) → role.set type x (some .lost) type' y = some .lost →
          role type' y = some .lost := by
        intro type' y hne hy
        rwa [Roles.set_of_ne hne] at hy
      generalize role.set type x (some .lost) = role₁ at h₁ hlost hback
      have hlabel : ∀ role₂ : Roles, (∀ type' y, role₂ type' y = some .lost → role₁ type' y = some .lost) →
          ∀ type' y, role₂.set type x (some (.page n)) type' y = some .lost → role type' y = some .lost := by
        intro role₂ hrole₂ type' y hy
        by_cases heq : type' = type ∧ y = x
        · obtain ⟨rfl, rfl⟩ := heq
          rw [Roles.set_self] at hy
          cases hy
        · rw [Roles.set_of_ne heq] at hy
          exact hback type' y heq (hrole₂ type' y hy)
      rw [connectPhysicalVirtualPage, needTable] at hres
      cases hpde : m₁.pde (n / 1024) with
      | some e =>
          rw [hpde] at hres
          obtain ⟨htrue, h₂⟩ := h₁.connect hready (fun i e' _ hi hnew hi' => h₁.stays i e' hi hnew hi') hn hpde
            hnL hzero hlost hx hres
          exact Or.inl ⟨htrue, _, h₂, hlabel role₁ fun _ _ hy => hy⟩
      | none =>
          rw [hpde] at hres
          dsimp only at hres
          cases hkernel : PagePool.allocate (m₁.pool .KERNEL) with
          | none =>
              have hnone : m₁.allocatePhysicalPages .KERNEL = (none, m₁) := by
                rw [allocatePhysicalPages, hkernel]
              rw [hnone] at hres
              obtain ⟨rfl, rfl⟩ := Prod.mk.inj (Outcome.ret.inj hres)
              exact Or.inr (Or.inr ⟨rfl, Option.some_ne_none x, role₁, x, hlost, h₁⟩)
          | some z =>
              obtain ⟨f, q⟩ := z
              have hsome' : m₁.allocatePhysicalPages .KERNEL = (some f, m₁.setPool .KERNEL q) := by
                rw [allocatePhysicalPages, hkernel]
              rw [hsome'] at hres
              have h₂ := h₁.toAccounts.link hready hn hpde hkernel
              have hlost₂ : role₁.set .KERNEL f (some (.table (n / 1024))) type x = some .lost := by
                rw [Roles.set_of_ne, hlost]
                rintro ⟨rfl, rfl⟩
                rw [(h₁.toBooks.take hkernel .lost).2] at hlost
                cases hlost
              obtain ⟨htrue, h₃⟩ := h₂.connect hready (fun i e' hne hi hnew hi' =>
                h₁.stays i e' hi hnew ((Function.update_of_ne hne _ _).symm.trans hi')) hn
                (m₁.toSpace.linkTable_pde_self type n f) hnL hzero hlost₂ hx hres
              refine Or.inl ⟨htrue, _, h₃, hlabel _ fun type' y hy => ?_⟩
              by_cases heq : type' = .KERNEL ∧ y = f
              · obtain ⟨rfl, rfl⟩ := heq
                rw [Roles.set_self] at hy
                cases hy
              · rwa [Roles.set_of_ne heq] at hy

/-- A page is taken out of its page table and its frame given back. -/
theorem Accounts.drop (hready : Ready D type m₀) (h : Accounts D type m₀ m role L peak) (hnL : n ∈ L)
    (hpde : m.pde (n / 1024) = some e) {c : Nat}
    (hc : ∀ first, e.count = tally first (peak (n / 1024)) (pagesIn L (n / 1024)) →
      c = tally first (peak (n / 1024)) (pagesIn (L.erase n) (n / 1024)))
    (hbooks : Books m₀ m' (role.set type (frameOf (m.entry n)) none))
    (hself : m'.pde (n / 1024) = some { e with count := c })
    (hother : ∀ i, i ≠ n / 1024 → m'.pde i = m.pde i)
    (hmem : m'.mem = Function.update m.mem e.frame (Function.update (m.mem e.frame) (n % 1024) 0#32))
    (hreserved : m'.reserved = m.reserved) (hprivilege : m'.privilege = m.privilege)
    (hrmap : m'.rmap = m.rmap.erase (m.place n (frameOf (m.entry n)))) :
    Accounts D type m₀ m' (role.set type (frameOf (m.entry n)) none) (L.erase n) peak := by
  have hframes : ∀ i, (m'.pde i).map Pde.frame = (m.pde i).map Pde.frame := by
    intro i
    by_cases hi : i = n / 1024
    · rw [hi, hself, hpde]
      rfl
    · rw [hother i hi]
  have hentry : ∀ k, D (k / 1024) → m'.entry k = if k = n then 0#32 else m.entry k := fun k hk =>
    (h.distinct_none hready).write (h.within n hnL) hpde hframes hmem hk
  have hplace : ∀ k y, m'.place k y = m.place k y := fun k y => place_congr (hframes (k / 1024)) y
  have hmem' : ∀ k, k ∈ L.erase n ↔ k ≠ n ∧ k ∈ L := fun k => h.nodup.mem_erase_iff
  have hrole := (h.mapped n hnL).1
  have hpages : ∀ k, k ∈ L.erase n → m'.entry k = m.entry k := by
    intro k hk
    obtain ⟨hkn, hkL⟩ := (hmem' k).mp hk
    rw [hentry k (h.within k hkL), if_neg hkn]
  have hout : ∀ i, i ≠ n / 1024 → pagesIn (L.erase n) i = pagesIn L i := by
    intro i hi
    rw [pagesIn_erase hnL i, if_neg hi.symm, Nat.add_zero]
  have hback : ∀ type' y item, role.set type (frameOf (m.entry n)) none type' y = some item →
      role type' y = some item ∧ item ≠ .page n := by
    intro type' y item hy
    by_cases heq : type' = type ∧ y = frameOf (m.entry n)
    · obtain ⟨rfl, rfl⟩ := heq
      rw [Roles.set_self] at hy
      cases hy
    · rw [Roles.set_of_ne heq] at hy
      refine ⟨hy, ?_⟩
      rintro rfl
      obtain ⟨htype, -, hframe⟩ := h.page type' y n hy
      exact heq ⟨htype, hframe.symm⟩
  have hset : ∀ type' y item, role type' y = some item → item ≠ .page n →
      role.set type (frameOf (m.entry n)) none type' y = some item := by
    intro type' y item hy hitem
    rw [Roles.set_of_ne, hy]
    rintro ⟨rfl, rfl⟩
    rw [hrole] at hy
    exact hitem (Option.some.inj hy).symm
  refine
    { toBooks := hbooks
      nodup := h.nodup.erase n
      within := fun k hk => h.within k ((hmem' k).mp hk).2
      unused := fun k hk => h.unused k ((hmem' k).mp hk).2
      peak_le := fun i => ?_
      page := fun type' y k hy => ?_
      mapped := fun k hk => ?_
      table := fun type' y i hy => ?_
      old := fun i e₀ hi hold => ?_
      new := fun i e' hi hnew hi' => ?_
      gone := fun i hi hnew hi' => ?_
      entry := fun k hk hkL => ?_
      rmap := ?_
      reserved := hreserved.trans h.reserved
      privilege := hprivilege.trans h.privilege }
  · exact (Nat.le.intro (pagesIn_erase hnL i).symm).trans (h.peak_le i)
  · obtain ⟨hy', hne⟩ := hback type' y _ hy
    obtain ⟨htype, hkL, hframe⟩ := h.page type' y k hy'
    have hk : k ∈ L.erase n := (hmem' k).mpr ⟨fun hkn => hne (by rw [hkn]), hkL⟩
    exact ⟨htype, hk, by rw [hpages k hk, hframe]⟩
  · obtain ⟨hkn, hkL⟩ := (hmem' k).mp hk
    obtain ⟨hpage, hpresent⟩ := h.mapped k hkL
    rw [hpages k hk]
    refine ⟨hset _ _ _ hpage ?_, hpresent⟩
    rintro ⟨⟩
    exact hkn rfl
  · obtain ⟨hy', -⟩ := hback type' y _ hy
    obtain ⟨htype, hi, hnew, k, hk⟩ := h.table type' y i hy'
    refine ⟨htype, hi, hnew, ?_⟩
    by_cases hin : i = n / 1024
    · subst hin
      obtain rfl := Option.some.inj (hk.symm.trans hpde)
      exact ⟨c, hself⟩
    · exact ⟨k, (hother i hin).trans hk⟩
  · by_cases hin : i = n / 1024
    · subst hin
      obtain rfl := Option.some.inj ((h.old _ e₀ hi hold).symm.trans hpde)
      rw [hself, hc e₀.count rfl]
    · rw [hother i hin, hout i hin]
      exact h.old i e₀ hi hold
  · by_cases hin : i = n / 1024
    · subst hin
      obtain rfl := Option.some.inj (hself.symm.trans hi')
      obtain ⟨hcount, htable⟩ := h.new _ e hi hnew hpde
      exact ⟨hc _ hcount, hset _ _ _ htable nofun⟩
    · rw [hother i hin] at hi'
      rw [hout i hin]
      obtain ⟨hcount, htable⟩ := h.new i e' hi hnew hi'
      exact ⟨hcount, hset _ _ _ htable nofun⟩
  · have hin : i ≠ n / 1024 := by
      rintro rfl
      rw [hself] at hi'
      cases hi'
    rw [hother i hin] at hi'
    rw [hout i hin]
    exact h.gone i hi hnew hi'
  · rw [hmem', not_and] at hkL
    rw [hentry k hk]
    by_cases hkn : k = n
    · rw [if_pos hkn, hkn, h.unused n hnL]
    · rw [if_neg hkn]
      exact h.entry k hk (hkL hkn)
  · have hperm : (L.map fun k => m.place k (frameOf (m.entry k)) : Multiset (Nat × Nat × Nat)) =
        m.place n (frameOf (m.entry n)) ::ₘ
          ((L.erase n).map fun k => m.place k (frameOf (m.entry k)) : Multiset (Nat × Nat × Nat)) := by
      rw [Multiset.cons_coe, Multiset.coe_eq_coe]
      exact (List.perm_cons_erase hnL).map _
    rw [hrmap, h.rmap, hperm, Multiset.cons_add, Multiset.erase_cons_head]
    congr 2
    exact List.map_congr_left fun k hk => by rw [hplace, hpages k hk]

/-- A page table of the call goes with its last page. -/
theorem Accounts.unlink (h : Accounts D type m₀ m role L peak) (hn : D (n / 1024))
    (hnew : m₀.pde (n / 1024) = none)
    (hpde : m.pde (n / 1024) = some e) (hzero : pagesIn L (n / 1024) = 0)
    (hgone : ¬Stays type (peak (n / 1024)) 0) :
    Accounts D type m₀ (m.releasePageTable n e.frame) (role.set .KERNEL e.frame none) L peak := by
  have hrole := (h.new _ e hn hnew hpde).2
  have hbooks : Books m₀ (m.releasePageTable n e.frame) (role.set .KERNEL e.frame none) :=
    (h.toBooks.giveBack (by rw [hrole]; exact Option.some_ne_none _)).congr rfl
  have hself : (m.releasePageTable n e.frame).pde (n / 1024) = none := Function.update_self _ _ _
  have hother : ∀ i, i ≠ n / 1024 → (m.releasePageTable n e.frame).pde i = m.pde i :=
    fun i hi => Function.update_of_ne hi _ _
  have hLn : ∀ k, k ∈ L → k / 1024 ≠ n / 1024 := by
    intro k hk heq
    rw [pagesIn, List.countP_eq_zero] at hzero
    exact hzero k hk (by simpa using heq)
  have hentry : ∀ k, k / 1024 ≠ n / 1024 → (m.releasePageTable n e.frame).entry k = m.entry k := by
    intro k hk
    rw [Space.entry, Space.entry, hother _ hk]
    rfl
  have hback : ∀ type' y item, role.set .KERNEL e.frame none type' y = some item →
      role type' y = some item ∧ item ≠ .table (n / 1024) := by
    intro type' y item hy
    by_cases heq : type' = .KERNEL ∧ y = e.frame
    · obtain ⟨rfl, rfl⟩ := heq
      rw [Roles.set_self] at hy
      cases hy
    · rw [Roles.set_of_ne heq] at hy
      refine ⟨hy, ?_⟩
      rintro rfl
      obtain ⟨htype, -, -, c, hc⟩ := h.table type' y _ hy
      obtain rfl := Option.some.inj (hc.symm.trans hpde)
      exact heq ⟨htype, rfl⟩
  have hset : ∀ type' y item, role type' y = some item → item ≠ .table (n / 1024) →
      role.set .KERNEL e.frame none type' y = some item := by
    intro type' y item hy hitem
    rw [Roles.set_of_ne, hy]
    rintro ⟨rfl, rfl⟩
    rw [hrole] at hy
    exact hitem (Option.some.inj hy).symm
  refine
    { toBooks := hbooks
      nodup := h.nodup
      within := h.within
      unused := h.unused
      peak_le := h.peak_le
      page := fun type' y k hy => ?_
      mapped := fun k hk => ?_
      table := fun type' y i hy => ?_
      old := fun i e₀ hi hold => ?_
      new := fun i e' hi hnew' hi' => ?_
      gone := fun i hi hnew' hi' => ?_
      entry := fun k hk hkL => ?_
      rmap := ?_
      reserved := h.reserved
      privilege := h.privilege }
  · obtain ⟨hy', -⟩ := hback type' y _ hy
    obtain ⟨htype, hkL, hframe⟩ := h.page type' y k hy'
    exact ⟨htype, hkL, by rw [hentry k (hLn k hkL), hframe]⟩
  · obtain ⟨hpage, hpresent⟩ := h.mapped k hk
    rw [hentry k (hLn k hk)]
    exact ⟨hset _ _ _ hpage Item.noConfusion, hpresent⟩
  · obtain ⟨hy', hne⟩ := hback type' y _ hy
    obtain ⟨htype, hi, hnew', c, hc⟩ := h.table type' y i hy'
    exact ⟨htype, hi, hnew', c, (hother i fun heq => hne (by rw [heq])).trans hc⟩
  · refine (hother i ?_).trans (h.old i e₀ hi hold)
    rintro rfl
    rw [hnew] at hold
    cases hold
  · have hin : i ≠ n / 1024 := by
      rintro rfl
      rw [hself] at hi'
      cases hi'
    rw [hother i hin] at hi'
    obtain ⟨hcount, htable⟩ := h.new i e' hi hnew' hi'
    refine ⟨hcount, hset _ _ _ htable ?_⟩
    rintro ⟨⟩
    exact hin rfl
  · by_cases hin : i = n / 1024
    · rw [hin, hzero]
      exact hgone
    · exact h.gone i hi hnew' ((hother i hin).symm.trans hi')
  · by_cases hkn : k / 1024 = n / 1024
    · rw [Space.entry_none (by rw [hkn]; exact hself), Space.entry_none (by rw [hkn]; exact hnew)]
    · rw [hentry k hkn]
      exact h.entry k hk hkL
  · change m.rmap = _
    rw [h.rmap]
    congr 2
    refine List.map_congr_left fun k hk => ?_
    rw [place, place, hother _ (hLn k hk), hentry k (hLn k hk)]

omit [PagePool P] in
/-- The reverse mapping of a page is attached, and no other one is of its frame. -/
theorem attached_of {pages : Multiset Nat} {old : Multiset (Nat × Nat × Nat)} (hnodup : pages.Nodup)
    (hrmap : m.rmap = pages.map (fun k => m.place k (frameOf (m.entry k))) + old) (hn : n ∈ pages)
    (hinj : ∀ k, k ∈ pages → frameOf (m.entry k) = frameOf (m.entry n) → k = n)
    (hold : ∀ r, r ∈ old → r.1 ≠ frameOf (m.entry n)) :
    m.place n (frameOf (m.entry n)) ∈ m.rmap ∧
      (m.rmap.erase (m.place n (frameOf (m.entry n)))).filter (fun r => r.1 = frameOf (m.entry n)) = 0 := by
  obtain ⟨rest, rfl⟩ := Multiset.exists_cons_of_mem hn
  have hfst : ∀ k y, (m.place k y).1 = y := by
    intro k y
    rw [place]
    split <;> rfl
  rw [hrmap, Multiset.map_cons, Multiset.cons_add, Multiset.erase_cons_head]
  refine ⟨Multiset.mem_cons_self _ _, ?_⟩
  rw [Multiset.filter_eq_nil]
  intro r hr heq
  rcases Multiset.mem_add.mp hr with hr | hr
  · obtain ⟨k, hk, rfl⟩ := Multiset.mem_map.mp hr
    rw [hfst] at heq
    obtain rfl := hinj k (Multiset.mem_cons_of_mem hk) heq
    exact (Multiset.nodup_cons.mp hnodup).1 hk
  · exact hold r hr heq

theorem Accounts.attached (hready : Ready D type m₀) (h : Accounts D type m₀ m role L peak) (hnL : n ∈ L) :
    m.place n (frameOf (m.entry n)) ∈ m.rmap ∧
      (m.rmap.erase (m.place n (frameOf (m.entry n)))).filter (fun r => r.1 = frameOf (m.entry n)) = 0 := by
  have hrole := (h.mapped n hnL).1
  have hrmap : m.rmap = (L : Multiset Nat).map (fun k => m.place k (frameOf (m.entry k))) + m₀.rmap := by
    rw [Multiset.map_coe]
    exact h.rmap
  refine attached_of (Multiset.coe_nodup.mpr h.nodup) hrmap (Multiset.mem_coe.mpr hnL) (fun k hk heq => ?_)
    (fun r hr heq => ?_)
  · have hpage := (h.mapped k (Multiset.mem_coe.mp hk)).1
    rw [heq, hrole] at hpage
    cases hpage
    rfl
  · refine hready.records r hr ?_
    rw [heq]
    exact h.was type _ (by rw [hrole]; exact Option.some_ne_none _)

/-- `releasePages` comes to a page that is mapped once. -/
theorem releasePage_eq (hpde : m.pde (n / 1024) = some e) (hpresent : hasFlag (m.entry n) PTE_PRESENT = true)
    (hin : m.place n (frameOf (m.entry n)) ∈ m.rmap)
    (hrefs : (m.rmap.erase (m.place n (frameOf (m.entry n)))).filter (fun r => r.1 = frameOf (m.entry n)) = 0) :
    m.releasePage type n = (do
      let (empty, s) ← (m.toSpace.setPte n 0#32).pdeDec n
      let m' := ({ m with rmap := m.rmap.erase (m.place n (frameOf (m.entry n))) }.releasePhysicalPages type
        (frameOf (m.entry n))).withSpace s
      return if empty then m'.releasePageTable n e.frame else m') := by
  rw [releasePage, hpde]
  dsimp only
  rw [hpresent, Bool.not_true, if_neg Bool.false_ne_true, detach, if_pos hin]
  dsimp only
  rw [Outcome.ASSERT_pos rfl, Outcome.ret_bind, if_pos (by rw [refs, hrefs]; rfl), releasePhysicalPages,
    setPool_space]

/-- The counter of a page table with a page of the call. -/
theorem Accounts.counter (hready : Ready D type m₀) (h : Accounts D type m₀ m role L peak) (hn : D (n / 1024))
    (hpde : m.pde (n / 1024) = some e) :
    ∃ first, e.count = tally first (peak (n / 1024)) (pagesIn L (n / 1024)) ∧
      (m₀.pde (n / 1024) = none → first = Space.firstCount type) ∧
      (m₀.pde (n / 1024) ≠ none → 0 < first) := by
  cases hold : m₀.pde (n / 1024) with
  | none => exact ⟨_, (h.new _ e hn hold hpde).1, fun _ => rfl, fun hne => absurd rfl hne⟩
  | some e₀ =>
      obtain rfl := Option.some.inj ((h.old _ e₀ hn hold).symm.trans hpde)
      exact ⟨_, rfl, fun hnone => (Option.some_ne_none _ hnone).elim, fun _ => (hready.counts _ e₀ hn hold).1⟩

/-- Detaching a page and releasing its frame change the pools and the reverse mappings only. -/
theorem Accounts.detached (hready : Ready D type m₀) (h : Accounts D type m₀ m role L peak) (hnL : n ∈ L)
    (hpde : m.pde (n / 1024) = some e) :
    ∃ m₂ : Memory P, m₂.rmap = m.rmap.erase (m.place n (frameOf (m.entry n))) ∧
      m₂.privilege = m.privilege ∧ Books m₀ m₂ (role.set type (frameOf (m.entry n)) none) ∧
      m.releasePage type n = (do
        let (empty, s) ← (m.toSpace.setPte n 0#32).pdeDec n
        let m := m₂.withSpace s
        return if empty then m.releasePageTable n e.frame else m) := by
  obtain ⟨hrole, hpresent⟩ := h.mapped n hnL
  obtain ⟨hin, hrefs⟩ := h.attached hready hnL
  refine ⟨{ m with rmap := m.rmap.erase (m.place n (frameOf (m.entry n))) }.releasePhysicalPages type
    (frameOf (m.entry n)), setPool_rmap _ type _, ?_, ?_,
    releasePage_eq hpde hpresent hin hrefs⟩
  · cases type <;> rfl
  · have htaken : role type (frameOf (m.entry n)) ≠ none := by
      rw [hrole]
      exact Option.some_ne_none _
    refine (h.toBooks.giveBack htaken).congr ?_
    cases type <;> rfl

/-- `releasePages` comes to a page of the call: its frame is given back, and its page table if that is one
of the call and does not stay. -/
theorem Ledger.releasePage (hready : Ready D type m₀) (h : Ledger D type m₀ m role L peak) (hnL : n ∈ L) :
    ∃ m' role', m.releasePage type n = .ret m' ∧ Ledger D type m₀ m' role' (L.erase n) peak ∧
      ∀ type' y, role' type' y = some .lost ↔ role type' y = some .lost := by
  have hn := h.within n hnL
  obtain ⟨hrole, hpresent⟩ := h.mapped n hnL
  obtain ⟨e, hpde⟩ : ∃ e, m.pde (n / 1024) = some e := by
    rw [← Option.ne_none_iff_exists']
    intro hnone
    rw [Space.entry_none hnone] at hpresent
    exact absurd hpresent (Bool.eq_false_iff.mp present_zero)
  have hnow := pagesIn_erase hnL (n / 1024)
  rw [if_pos rfl] at hnow
  have hle := h.peak_le (n / 1024)
  obtain ⟨first, hcount, hnewFirst, holdFirst⟩ := h.toAccounts.counter hready hn hpde
  have hother : ∀ i, i ≠ n / 1024 → pagesIn (L.erase n) i = pagesIn L i := by
    intro i hi
    rw [pagesIn_erase hnL i, if_neg hi.symm, Nat.add_zero]
  have hlost := Roles.set_lost hrole (nofun : Item.page n ≠ .lost)
  obtain ⟨m₂, hrmap₂, hprivilege₂, hbooks₂, hcall⟩ := h.toAccounts.detached hready hnL hpde
  have hpde' : (m.toSpace.setPte n 0#32).pde (n / 1024) = some e := by rw [Space.setPte_pde, hpde]
  have hpos : 0 < e.count := by
    rw [hcount, tally]
    split <;> omega
  rw [hcall]
  by_cases hseven : e.count = 7
  · -- the counter is stuck
    rw [Space.pdeDec_eq hpde' hpos, if_pos hseven, Space.setPte_eq hpde]
    refine ⟨_, _, rfl, ?_, hlost⟩
    have hbooks₃ : Books m₀ (m₂.withSpace { m.toSpace with
        mem := Function.update m.mem e.frame (Function.update (m.mem e.frame) (n % 1024) 0#32) })
          (role.set type (frameOf (m.entry n)) none) :=
      hbooks₂.congr rfl
    have hdrop := h.toAccounts.drop hready hnL hpde (c := e.count) (fun first' hcount' => ?_) hbooks₃ hpde
      (fun _ _ => rfl) rfl rfl hprivilege₂ hrmap₂
    · refine ⟨hdrop, fun i e' hi hnew hi' => ?_⟩
      have hi'' : m.pde i = some e' := hi'
      have hstays := h.stays i e' hi hnew hi''
      by_cases hin' : i = n / 1024
      · subst hin'
        rw [hnewFirst hnew, tally] at hcount
        refine ⟨hstays.1, fun hgone => ?_⟩
        rw [hgone.1] at hcount
        split at hcount <;> omega
      · rw [hother i hin']
        exact hstays
    · rw [tally] at hcount' ⊢
      split at hcount' <;> split <;> omega
  · obtain ⟨s₃, hdec, hself₃, hother₃, hmem₃, hreserved₃⟩ : ∃ s₃,
        (m.toSpace.setPte n 0#32).pdeDec n = .ret (decide (e.count - 1 = 0), s₃) ∧
          s₃.pde (n / 1024) = some { e with count := e.count - 1 } ∧
          (∀ i, i ≠ n / 1024 → s₃.pde i = m.pde i) ∧
          s₃.mem = Function.update m.mem e.frame (Function.update (m.mem e.frame) (n % 1024) 0#32) ∧
          s₃.reserved = m.reserved := by
      rw [Space.pdeDec_eq hpde' hpos, if_neg hseven, Space.setPte_eq hpde]
      exact ⟨_, rfl, Function.update_self _ _ _, fun i hi => Function.update_of_ne hi _ _, rfl, rfl⟩
    rw [hdec, Outcome.ret_bind]
    have hfirst : ¬7 ≤ first + peak (n / 1024) := by
      intro hge
      rw [tally, if_pos hge] at hcount
      exact hseven hcount
    have hbooks₃ : Books m₀ (m₂.withSpace s₃) (role.set type (frameOf (m.entry n)) none) :=
      hbooks₂.congr rfl
    have hdrop := h.toAccounts.drop hready hnL hpde (c := e.count - 1) (fun first' hcount' => ?_) hbooks₃ hself₃
      hother₃ hmem₃ hreserved₃ hprivilege₂ hrmap₂
    · rw [tally, if_neg hfirst] at hcount
      by_cases hempty : e.count - 1 = 0
      · -- the last page of a page table of the call
        have hnew : m₀.pde (n / 1024) = none := by
          by_contra hold
          have hge := holdFirst hold
          omega
        have hfirst' := hnewFirst hnew
        have hzero : pagesIn (L.erase n) (n / 1024) = 0 := by omega
        have hgone : ¬Stays type (peak (n / 1024)) 0 := fun hstays => hstays.2 ⟨by omega, by omega, rfl⟩
        have hunlink := hdrop.unlink hn hnew hself₃ hzero hgone
        have hself₄ : ((m₂.withSpace s₃).releasePageTable n e.frame).pde (n / 1024) = none :=
          Function.update_self _ _ _
        have hother₄ : ∀ i, i ≠ n / 1024 → ((m₂.withSpace s₃).releasePageTable n e.frame).pde i = m.pde i :=
          fun i hi => (Function.update_of_ne hi _ _).trans (hother₃ i hi)
        rw [decide_eq_true hempty]
        refine ⟨_, _, rfl, ⟨hunlink, fun i e' hi hnew' hi' => ?_⟩, fun type' y => ?_⟩
        · have hi'' : ((m₂.withSpace s₃).releasePageTable n e.frame).pde i = some e' := hi'
          have hin' : i ≠ n / 1024 := by
            rintro rfl
            rw [hself₄] at hi''
            cases hi''
          rw [hother₄ i hin'] at hi''
          rw [hother i hin']
          exact h.stays i e' hi hnew' hi''
        · have htable := (hdrop.new _ _ hn hnew hself₃).2
          exact (Roles.set_lost htable nofun type' y).trans (hlost type' y)
      · rw [decide_eq_false hempty]
        refine ⟨_, _, rfl, ⟨hdrop, fun i e' hi hnew hi' => ?_⟩, hlost⟩
        have hi'' : s₃.pde i = some e' := hi'
        by_cases hin' : i = n / 1024
        · subst hin'
          have hfirst' := hnewFirst hnew
          refine ⟨by omega, fun hgone => ?_⟩
          omega
        · rw [hother₃ i hin'] at hi''
          rw [hother i hin']
          exact h.stays i e' hi hnew hi''
    · rw [tally] at hcount' ⊢
      split at hcount' <;> split <;> omega

theorem Ledger.releaseLoop (hready : Ready D type m₀) {count : Nat} (h : Ledger D type m₀ m role L peak)
    (hL : ∀ k, k ∈ L ↔ n ≤ k ∧ k < n + count) :
    ∃ m' role', Memory.releaseLoop type count n m = .ret m' ∧ Ledger D type m₀ m' role' [] peak ∧
      ∀ type' y, role' type' y = some .lost ↔ role type' y = some .lost := by
  induction count generalizing n m role L with
  | zero =>
      have hnil : L = [] := List.eq_nil_iff_forall_not_mem.mpr fun k hk => by
        have hin := (hL k).mp hk
        omega
      subst hnil
      exact ⟨m, role, rfl, h, fun _ _ => Iff.rfl⟩
  | succ count ih =>
      obtain ⟨m₁, role₁, hpage, h₁, hlost₁⟩ := h.releasePage hready ((hL n).mpr ⟨le_refl n, by omega⟩)
      obtain ⟨m₂, role₂, hloop, h₂, hlost₂⟩ := ih (n := n + 1) h₁ fun k => by
        rw [h.nodup.mem_erase_iff, hL]
        omega
      refine ⟨m₂, role₂, ?_, h₂, fun type' y => (hlost₂ type' y).trans (hlost₁ type' y)⟩
      rw [Memory.releaseLoop, hpage]
      exact hloop

end Accounts

/-! ### `allocatePages` -/

/-- How many page tables have to be linked for the pages `L`. -/
def missingTables (m : Memory P) (L : List Nat) : Nat :=
  ((L.map (· / 1024)).toFinset.filter fun j => m.pde j = none).card

/-- What the pages `L` take from the pool of type `pool`: their frames and their page tables. -/
def takes (m : Memory P) (type : AddressPoolType) (L : List Nat) (pool : AddressPoolType) : Nat :=
  (if pool = type then L.length else 0) + if pool = .KERNEL then m.missingTables L else 0

section Takes

open PagePool

variable {type t : AddressPoolType} {v : VPool} {flag : Bool} {m m' : Memory P} {L L' : List Nat}
  {n x : Nat} {p : P}

omit [PagePool P] in
theorem missingTables_cons (m : Memory P) (L : List Nat) (n : Nat) :
    m.missingTables (n :: L) =
      m.missingTables L + if m.pde (n / 1024) = none ∧ pagesIn L (n / 1024) = 0 then 1 else 0 := by
  have hmem : n / 1024 ∈ (L.map (· / 1024)).toFinset ↔ pagesIn L (n / 1024) ≠ 0 := by
    rw [pagesIn, ← Nat.pos_iff_ne_zero, List.countP_pos_iff, List.mem_toFinset, List.mem_map]
    simp only [decide_eq_true_eq]
  rw [missingTables, missingTables, List.map_cons, List.toFinset_cons, Finset.filter_insert]
  by_cases hpde : m.pde (n / 1024) = none
  · rw [if_pos hpde]
    by_cases hin : pagesIn L (n / 1024) = 0
    · rw [if_pos ⟨hpde, hin⟩, Finset.card_insert_of_notMem]
      exact fun hold => hmem.mp (Finset.mem_filter.mp hold).1 hin
    · rw [if_neg fun hnew => hin hnew.2, Finset.insert_eq_of_mem (Finset.mem_filter.mpr ⟨hmem.mpr hin, hpde⟩)]
      rfl
  · rw [if_neg hpde, if_neg fun hnew => hpde hnew.1]
    rfl

omit [PagePool P] in
theorem missingTables_perm (m : Memory P) (h : L.Perm L') : m.missingTables L = m.missingTables L' := by
  rw [missingTables, missingTables, List.toFinset_eq_of_perm _ _ (h.map _)]

omit [PagePool P] in
theorem missingTables_mono (m : Memory P) (h : L ⊆ L') : m.missingTables L ≤ m.missingTables L' := by
  refine Finset.card_le_card (Finset.filter_subset_filter _ fun j hj => ?_)
  rw [List.mem_toFinset] at hj ⊢
  exact List.map_subset _ h hj

omit [PagePool P] in
theorem takes_cons (m : Memory P) (type : AddressPoolType) (L : List Nat) (n : Nat) (t : AddressPoolType) :
    m.takes type (n :: L) t = m.takes type L t + (if t = type then 1 else 0) +
      if t = .KERNEL ∧ m.pde (n / 1024) = none ∧ pagesIn L (n / 1024) = 0 then 1 else 0 := by
  rw [takes, takes, missingTables_cons, List.length_cons]
  simp only [ite_and]
  split_ifs <;> omega

omit [PagePool P] in
theorem takes_perm (m : Memory P) (type : AddressPoolType) (h : L.Perm L') (t : AddressPoolType) :
    m.takes type L t = m.takes type L' t := by
  rw [takes, takes, missingTables_perm m h, h.length_eq]

omit [PagePool P] in
theorem takes_mono (m : Memory P) (type : AddressPoolType) (h : L ⊆ L') (hlength : L.length ≤ L'.length)
    (t : AddressPoolType) : m.takes type L t ≤ m.takes type L' t := by
  have hmissing := missingTables_mono m h
  rw [takes, takes]
  split <;> split <;> omega

omit [PagePool P] in
theorem takes_range'_mono (m : Memory P) (type : AddressPoolType) (start : Nat) {i k : Nat} (h : i ≤ k)
    (t : AddressPoolType) : m.takes type (List.range' start i) t ≤ m.takes type (List.range' start k) t := by
  refine takes_mono m type (fun n hn => ?_) ?_ t
  · rw [List.mem_range'_1] at hn ⊢
    omega
  · rw [List.length_range', List.length_range']
    exact h

omit [PagePool P] in
theorem takes_lt (m : Memory P) (type : AddressPoolType) (start : Nat) {i k : Nat} (h : i < k) :
    m.takes type (List.range' start i) type < m.takes type (List.range' start k) type := by
  have hnext : m.takes type (List.range' start i) type + 1 ≤ m.takes type (List.range' start (i + 1)) type := by
    rw [List.range'_concat, Nat.one_mul,
      takes_perm m type (List.perm_append_singleton (start + i) (List.range' start i)), takes_cons, if_pos rfl]
    exact Nat.le_add_right _ _
  exact hnext.trans (takes_range'_mono m type start h type)

theorem freeCount_setPool (halloc : allocate (m.pool type) = some (x, p)) (t : AddressPoolType) :
    freeCount (m.pool t) = freeCount ((m.setPool type p).pool t) + if t = type then 1 else 0 := by
  by_cases htype : t = type
  · subst htype
    rw [if_pos rfl, setPool_self, freeCount_allocate halloc]
  · rw [if_neg htype, setPool_of_ne htype]
    rfl

theorem allocatePhysicalPages_none :
    (m.allocatePhysicalPages type).1 = none ↔ freeCount (m.pool type) = 0 := by
  rw [freeCount_eq_zero, allocatePhysicalPages]
  cases allocate (m.pool type) with
  | none => exact iff_of_true rfl rfl
  | some y => exact iff_of_false (Option.some_ne_none _) (Option.some_ne_none _)

/-- A page table comes out of the kernel pool. -/
theorem needTable_free (m : Memory P) (type : AddressPoolType) (n : Nat) :
    (∃ m₁, m.needTable type n = (true, m₁) ∧ ∀ t, freeCount (m.pool t) =
        freeCount (m₁.pool t) + if t = .KERNEL ∧ m.pde (n / 1024) = none then 1 else 0) ∨
      (m.needTable type n = (false, m) ∧ m.pde (n / 1024) = none ∧ freeCount (m.pool .KERNEL) = 0) := by
  rw [needTable]
  cases hpde : m.pde (n / 1024) with
  | some e => exact Or.inl ⟨m, rfl, fun t => by rw [if_neg fun hnew => Option.some_ne_none e hnew.2]; rfl⟩
  | none =>
      cases halloc : allocate (m.pool .KERNEL) with
      | none =>
          rw [allocatePhysicalPages, halloc]
          exact Or.inr ⟨rfl, rfl, freeCount_eq_zero.mpr halloc⟩
      | some y =>
          rw [allocatePhysicalPages, halloc]
          refine Or.inl ⟨_, rfl, fun t => ?_⟩
          simp only [and_true]
          exact freeCount_setPool halloc t

omit [PagePool P] in
theorem attach_pool (m : Memory P) (r : Nat × Nat × Nat) : (m.attach r).2.pool = m.pool := by
  rw [attach]
  split <;> rfl

/-- A page takes its frame and the page table that it misses, as long as they are there. -/
theorem allocatePage_free (hres : m.allocatePage type v n = .ret (flag, m')) :
    (flag = true ∧ ∀ t, freeCount (m.pool t) = freeCount (m'.pool t) + (if t = type then 1 else 0) +
        if t = .KERNEL ∧ m.pde (n / 1024) = none then 1 else 0) ∨
      (flag = false ∧ freeCount (m.pool type) = 0) ∨
        (flag = false ∧ freeCount (m.pool type) ≠ 0 ∧ m.pde (n / 1024) = none ∧
          freeCount (m.pool .KERNEL) = if AddressPoolType.KERNEL = type then 1 else 0) := by
  rw [Memory.allocatePage] at hres
  cases halloc : allocate (m.pool type) with
  | none =>
      rw [allocatePhysicalPages, halloc] at hres
      obtain ⟨rfl, -⟩ := Prod.mk.inj (Outcome.ret.inj hres)
      exact Or.inr (Or.inl ⟨rfl, freeCount_eq_zero.mpr halloc⟩)
  | some y =>
      obtain ⟨x, p⟩ := y
      have hframe := freeCount_setPool halloc
      have hpde : (m.setPool type p).pde = m.pde := by
        rw [setPool_space]
      rw [allocatePhysicalPages, halloc] at hres
      dsimp only at hres
      rw [connectPhysicalVirtualPage] at hres
      rcases needTable_free (m.setPool type p) type n with ⟨m₁, htable, hfree⟩ | ⟨htable, hnone, hzero⟩
      · left
        rw [htable] at hres
        dsimp only at hres
        obtain ⟨-, -, hres⟩ := Outcome.bind_eq_ret hres
        obtain ⟨rfl, rfl⟩ := Prod.mk.inj (Outcome.ret.inj hres)
        refine ⟨rfl, fun t => ?_⟩
        rw [attach_pool, hframe, hfree, hpde, Nat.add_right_comm]
        rfl
      · right
        right
        rw [htable] at hres
        obtain ⟨rfl, rfl⟩ := Prod.mk.inj (Outcome.ret.inj hres)
        refine ⟨rfl, ?_, hpde ▸ hnone, ?_⟩
        · rw [freeCount_allocate halloc]
          exact Nat.succ_ne_zero _
        · rw [hframe, hzero, Nat.zero_add]

end Takes

/-- There is a first page for which there is no physical page: the pages before it take the whole pool, the
kernel pool has the page tables for them, and each page table that was not there is one of the user with at
most six of them. -/
def RunsOut (type : AddressPoolType) (start count : Nat) (m : Memory P) : Prop :=
  ∃ i, i < count ∧ PagePool.freeCount (m.pool type) = m.takes type (List.range' start i) type ∧
    m.takes type (List.range' start i) .KERNEL ≤ PagePool.freeCount (m.pool .KERNEL) ∧
      ∀ j, m.pde j = none → pagesIn (List.range' start i) j = 0 ∨
        (type = .USER ∧ pagesIn (List.range' start i) j ≤ 6)

/-- The pages the virtual pool offers: free ones, without an entry or a privilege. -/
structure Offered (D : Nat → Prop) (v : VPool) (m : Memory P) (start count : Nat) : Prop where
  within : ∀ n, start ≤ n → n < start + count → D (n / 1024)
  reserved : ∀ n, start ≤ n → n < start + count → m.reserved n = false
  entry : ∀ n, start ≤ n → n < start + count → m.entry n = 0#32
  privilege : ∀ n, start ≤ n → n < start + count → v.isStatic = false → m.privilege n = VP_CLEAR

/-- Nothing differs but the counters of page tables that were there before. -/
structure AsBefore (D : Nat → Prop) (m m' : Memory P) : Prop where
  userPhysical : ∀ x, PagePool.free m'.userPhysical x ↔ PagePool.free m.userPhysical x
  kernelPhysical : ∀ x, PagePool.free m'.kernelPhysical x ↔ PagePool.free m.kernelPhysical x
  reserved : m'.reserved = m.reserved
  privilege : m'.privilege = m.privilege
  rmap : m'.rmap = m.rmap
  entry : ∀ n, D (n / 1024) → m'.entry n = m.entry n

section Calls

variable {D : Nat → Prop} {type : AddressPoolType} {v : VPool} {flag : Byte} {m₀ m m' : Memory P} {role : Roles}
  {L : List Nat} {n x start count : Nat}

theorem stays_zero {peak : Nat} : ¬Stays type peak 0 ↔ peak = 0 ∨ (type = .USER ∧ peak ≤ 6) := by
  cases type with
  | KERNEL =>
      rw [Stays, Space.firstCount]
      constructor
      · intro h
        left
        by_contra hpos
        exact h ⟨Nat.pos_of_ne_zero hpos, fun hgone => absurd hgone.1 (by decide)⟩
      · rintro (hzero | ⟨hfalse, -⟩) hstays
        · exact absurd hstays.1 (by omega)
        · cases hfalse
  | USER =>
      rw [Stays, Space.firstCount]
      constructor
      · intro h
        by_cases hzero : peak = 0
        · exact Or.inl hzero
        · right
          refine ⟨rfl, ?_⟩
          by_contra hseven
          exact h ⟨Nat.pos_of_ne_zero hzero, fun hgone => hseven hgone.2.1⟩
      · rintro (hzero | ⟨-, hsix⟩) hstays
        · exact absurd hstays.1 (by omega)
        · exact hstays.2 ⟨rfl, hsix, rfl⟩

/-- The rollback of the pages of a call. -/
theorem Ledger.rollback (hready : Ready D type m₀) {peak : Nat → Nat} (h : Ledger D type m₀ m role L peak)
    (hL : ∀ k, k ∈ L ↔ start ≤ k ∧ k < start + count) :
    ∃ m₁ role', m.releasePages type v start count = .ret (m₁.releaseVirtualPages v start count) ∧
      Ledger D type m₀ m₁ role' [] peak ∧ ∀ type' y, role' type' y = some .lost ↔ role type' y = some .lost := by
  obtain ⟨m₁, role', hloop, h₁, hlost⟩ := h.releaseLoop hready hL
  refine ⟨m₁, role', ?_, h₁, hlost⟩
  rw [Memory.releasePages, hloop]
  rfl

/-- Between two pages of a call, a page table is missing if it was and has none of the pages. -/
theorem Ledger.pde_none_iff (h : Ledger D type m₀ m role L (pagesIn L)) {j : Nat} (hj : D j) :
    m.pde j = none ↔ m₀.pde j = none ∧ pagesIn L j = 0 := by
  constructor
  · intro hnone
    refine ⟨?_, h.pagesIn_none hnone⟩
    cases hold : m₀.pde j with
    | none => rfl
    | some e =>
        rw [h.old j e hj hold] at hnone
        cases hnone
  · rintro ⟨hnew, hzero⟩
    cases hpde : m.pde j with
    | none => rfl
    | some e => exact absurd hzero (Nat.pos_iff_ne_zero.mp (h.stays j e hj hnew hpde).1)

/-- The loop of a call gets through `i` of its pages and no further: there is no frame for the next page, and
nothing is lost, or no page table for it, and its frame is lost. -/
def Stops (type : AddressPoolType) (start i : Nat) (m : Memory P) (role : Roles) : Prop :=
  (∀ t, m.takes type (List.range' start i) t ≤ PagePool.freeCount (m.pool t)) ∧
    ((PagePool.freeCount (m.pool type) = m.takes type (List.range' start i) type ∧
        ∀ type' y, role type' y ≠ some .lost) ∨
      (PagePool.freeCount (m.pool type) ≠ m.takes type (List.range' start i) type ∧
        PagePool.freeCount (m.pool .KERNEL) < m.takes type (List.range' start (i + 1)) .KERNEL ∧
          ∃ type' y, role type' y = some .lost))

/-- A call that fails stops short, and its rollback takes out all the pages it has mapped; what has been lost
is lost. -/
theorem Ledger.allocatePagesLoop (hready : Ready D type m₀)
    (hwithin : ∀ k, start ≤ k → k < start + count → D (k / 1024))
    (hunused : ∀ k, start ≤ k → k < start + count → m₀.entry k = 0#32) {left : Nat} (hleft : left ≤ count)
    (h : Ledger D type m₀ m role L (pagesIn L))
    (hL : L.Perm (List.range' start (count - left))) (hlost : ∀ type' y, role type' y ≠ some .lost)
    (hfree : ∀ t, PagePool.freeCount (m₀.pool t) = PagePool.freeCount (m.pool t) + m₀.takes type L t)
    (hres : Memory.allocatePagesLoop type v start count left m = .ret (none, m')) :
    ∃ i m₁ role', i < count ∧ Ledger D type m₀ m₁ role' [] (pagesIn (List.range' start i)) ∧
      m' = (m₁.releaseVirtualPages v start i).releaseVirtualPages v (start + i) (count - i) ∧
      Stops type start i m₀ role' := by
  induction left generalizing m role L with
  | zero => cases hres
  | succ left ih =>
      have hmem : ∀ k, k ∈ L ↔ start ≤ k ∧ k < start + (count - (left + 1)) := by
        intro k
        rw [hL.mem_iff, List.mem_range'_1]
      have hn := hwithin (start + (count - (left + 1))) (by omega) (by omega)
      have hzero := hunused (start + (count - (left + 1))) (by omega) (by omega)
      have hnL : start + (count - (left + 1)) ∉ L := by
        rw [hmem]
        omega
      have hpages : pagesIn L = pagesIn (List.range' start (count - (left + 1))) :=
        funext fun i => hL.countP_eq _
      have hL₁ : ((start + (count - (left + 1))) :: L).Perm
          (List.range' start (count - (left + 1) + 1)) := by
        rw [List.range'_concat, Nat.one_mul]
        exact (List.Perm.cons _ hL).trans (List.perm_append_singleton _ _).symm
      have hnext : ∀ t, m₀.takes type ((start + (count - (left + 1))) :: L) t =
          m₀.takes type L t + (if t = type then 1 else 0) +
            if t = .KERNEL ∧ m.pde ((start + (count - (left + 1))) / 1024) = none then 1 else 0 := by
        intro t
        rw [takes_cons]
        simp only [h.pde_none_iff hn]
      have henough : ∀ t, m₀.takes type (List.range' start (count - (left + 1))) t ≤
          PagePool.freeCount (m₀.pool t) := by
        intro t
        rw [hfree, takes_perm m₀ type hL]
        exact Nat.le_add_left _ _
      rw [Memory.allocatePagesLoop] at hres
      obtain ⟨⟨flag, m₁⟩, hpage, hrest⟩ := Outcome.bind_eq_ret hres
      have htaken := allocatePage_free hpage
      rcases h.allocatePage hready hn hnL hzero hpage with
        ⟨rfl, role₁, h₁, hback⟩ | ⟨rfl, hnone, hsame⟩ | ⟨rfl, hsome, role₁, x, hx, h₁⟩
      · have hstep : count - left = count - (left + 1) + 1 := by omega
        refine ih (Nat.le_of_succ_le hleft) h₁ (by rw [hstep]; exact hL₁)
          (fun type' y hy => hlost type' y (hback type' y hy)) (fun t => ?_) hrest
        rcases htaken with ⟨-, htaken⟩ | ⟨hfalse, -⟩ | ⟨hfalse, -⟩
        · rw [hfree, htaken, hnext]
          omega
        · cases hfalse
        · cases hfalse
      · subst hsame
        obtain ⟨m₂, role₂, hrelease, h₂, hlost₂⟩ := h.rollback (v := v) hready hmem
        rw [hpages] at h₂
        obtain ⟨m₃, hrelease', hrest⟩ := Outcome.bind_eq_ret hrest
        obtain rfl := Outcome.ret.inj (hrelease.symm.trans hrelease')
        obtain ⟨-, rfl⟩ := Prod.mk.inj (Outcome.ret.inj hrest)
        refine ⟨_, m₂, role₂, by omega, h₂, rfl, henough, Or.inl ⟨?_, fun type' y hy => ?_⟩⟩
        · rw [hfree, allocatePhysicalPages_none.mp hnone, Nat.zero_add, takes_perm m₀ type hL]
        · exact hlost type' y ((hlost₂ type' y).mp hy)
      · obtain ⟨m₂, role₂, hrelease, h₂, hlost₂⟩ := h₁.rollback (v := v) hready hmem
        rw [hpages] at h₂
        obtain ⟨m₃, hrelease', hrest⟩ := Outcome.bind_eq_ret hrest
        obtain rfl := Outcome.ret.inj (hrelease.symm.trans hrelease')
        obtain ⟨-, rfl⟩ := Prod.mk.inj (Outcome.ret.inj hrest)
        have hsome' := mt allocatePhysicalPages_none.mpr hsome
        obtain ⟨hmissing, hkernel⟩ : m.pde ((start + (count - (left + 1))) / 1024) = none ∧
            PagePool.freeCount (m.pool .KERNEL) = if AddressPoolType.KERNEL = type then 1 else 0 := by
          rcases htaken with ⟨hfalse, -⟩ | ⟨-, hzero'⟩ | ⟨-, -, hmissing, hkernel⟩
          · cases hfalse
          · exact absurd hzero' hsome'
          · exact ⟨hmissing, hkernel⟩
        refine ⟨_, m₂, role₂, by omega, h₂, rfl, henough, Or.inr ⟨?_, ?_, type, x, (hlost₂ type x).mpr hx⟩⟩
        · rw [hfree, takes_perm m₀ type hL]
          omega
        · rw [hfree, ← takes_perm m₀ type hL₁, hnext, hkernel, if_pos (And.intro rfl hmissing)]
          omega

omit [PagePool P] in
theorem setVirtualPages_pool (m : Memory P) (v : VPool) (start count : Nat) (inUse : Bool) (flag : Byte) :
    (m.setVirtualPages v start count inUse flag).pool = m.pool := rfl

omit [PagePool P] in
/-- The range is free again when both parts of it have been released. -/
theorem Offered.reserved_back (hoffered : Offered D v m start count) {i : Nat} (hi : i ≤ count) {m₁ : Memory P}
    (hreserved : m₁.reserved = (m.setVirtualPages v start count true flag).reserved) :
    ((m₁.releaseVirtualPages v start i).releaseVirtualPages v (start + i) (count - i)).reserved = m.reserved := by
  funext n
  change (if start + i ≤ n ∧ n < start + i + (count - i) then false
    else if start ≤ n ∧ n < start + i then false else m₁.reserved n) = m.reserved n
  rw [hreserved]
  change (if start + i ≤ n ∧ n < start + i + (count - i) then false
    else if start ≤ n ∧ n < start + i then false
      else if start ≤ n ∧ n < start + count then true else m.reserved n) = m.reserved n
  by_cases hin : start ≤ n ∧ n < start + count
  · rw [hoffered.reserved n hin.1 hin.2]
    by_cases hrest : start + i ≤ n ∧ n < start + i + (count - i)
    · rw [if_pos hrest]
    · rw [if_neg hrest, if_pos (by omega)]
  · rw [if_neg (by omega), if_neg (by omega), if_neg hin]

omit [PagePool P] in
/-- Its privileges are cleared again, as they were. -/
theorem Offered.privilege_back (hoffered : Offered D v m start count) {i : Nat} (hi : i ≤ count) {m₁ : Memory P}
    (hprivilege : m₁.privilege = (m.setVirtualPages v start count true flag).privilege) :
    ((m₁.releaseVirtualPages v start i).releaseVirtualPages v (start + i) (count - i)).privilege =
      m.privilege := by
  funext n
  change (if !v.isStatic && start + i ≤ n && n < start + i + (count - i) then VP_CLEAR
    else if !v.isStatic && start ≤ n && n < start + i then VP_CLEAR else m₁.privilege n) = m.privilege n
  rw [hprivilege]
  change (if !v.isStatic && start + i ≤ n && n < start + i + (count - i) then VP_CLEAR
    else if !v.isStatic && start ≤ n && n < start + i then VP_CLEAR
      else if !v.isStatic && start ≤ n && n < start + count then flag else m.privilege n) = m.privilege n
  cases hstatic : v.isStatic with
  | true => rfl
  | false =>
      simp only [Bool.not_false, Bool.true_and, Bool.and_eq_true, decide_eq_true_eq]
      by_cases hin : start ≤ n ∧ n < start + count
      · rw [hoffered.privilege n hin.1 hin.2 hstatic]
        by_cases hrest : start + i ≤ n ∧ n < start + i + (count - i)
        · rw [if_pos hrest]
        · rw [if_neg hrest, if_pos (by omega)]
      · rw [if_neg (by omega), if_neg (by omega), if_neg hin]

/-- What is left when the last page is taken out: nothing, if nothing is lost and no page table stays. -/
theorem Ledger.asBefore_iff {peak : Nat → Nat} (hflag : m₀ = m.setVirtualPages v start count true flag)
    (hoffered : Offered D v m start count) {i : Nat} (hi : i ≤ count) {m₁ : Memory P}
    (h : Ledger D type m₀ m₁ role [] peak) (hpeak : ∀ j, ¬D j → peak j = 0)
    (hres : m' = (m₁.releaseVirtualPages v start i).releaseVirtualPages v (start + i) (count - i)) :
    AsBefore D m m' ↔ (∀ type' y, role type' y ≠ some .lost) ∧ ∀ j, m.pde j = none → ¬Stays type (peak j) 0 := by
  have hpool : m'.pool = m₁.pool := by
    rw [hres]
    rfl
  have hpool₀ : m₀.pool = m.pool := by
    rw [hflag]
    rfl
  have hpde₀ : m₀.pde = m.pde := by
    rw [hflag]
    rfl
  have hfree : ∀ type' y, PagePool.free (m'.pool type') y ↔
      PagePool.free (m.pool type') y ∧ role type' y = none := by
    intro type' y
    rw [hpool, ← hpool₀]
    exact h.free type' y
  have hwas : ∀ type' y, role type' y ≠ none → PagePool.free (m.pool type') y := by
    intro type' y hy
    rw [← hpool₀]
    exact h.was type' y hy
  constructor
  · intro hback
    have hnone : ∀ type' y, role type' y = none := by
      intro type' y
      by_contra hne
      have hfree' : PagePool.free (m'.pool type') y := by
        cases type' with
        | KERNEL => exact (hback.kernelPhysical y).mpr (hwas .KERNEL y hne)
        | USER => exact (hback.userPhysical y).mpr (hwas .USER y hne)
      exact hne ((hfree type' y).mp hfree').2
    refine ⟨fun type' y hy => ?_, fun j hj hstays => ?_⟩
    · rw [hnone] at hy
      cases hy
    · have hD : D j := by
        by_contra hout
        have hzero := hpeak j hout
        have hpos := hstays.1
        omega
      rw [← hpde₀] at hj
      cases hpde : m₁.pde j with
      | none => exact h.gone j hD hj hpde hstays
      | some e =>
          have htable := (h.new j e hD hj hpde).2
          rw [hnone] at htable
          cases htable
  · rintro ⟨hlost, hstays⟩
    have hnone : ∀ type' y, role type' y = none := by
      intro type' y
      cases hrole : role type' y with
      | none => rfl
      | some item =>
          cases item with
          | page k => exact absurd (h.page type' y k hrole).2.1 (List.not_mem_nil)
          | table j =>
              obtain ⟨-, hD, hj, c, hc⟩ := h.table type' y j hrole
              have hstay := h.stays j _ hD hj hc
              rw [hpde₀] at hj
              exact absurd hstay (hstays j hj)
          | lost => exact absurd hrole (hlost type' y)
    refine ⟨fun x => ?_, fun x => ?_, ?_, ?_, ?_, fun n hn => ?_⟩
    · exact (hfree .USER x).trans (and_iff_left (hnone .USER x))
    · exact (hfree .KERNEL x).trans (and_iff_left (hnone .KERNEL x))
    · rw [hres]
      exact hoffered.reserved_back hi (by rw [h.reserved, hflag])
    · rw [hres]
      exact hoffered.privilege_back hi (by rw [h.privilege, hflag])
    · have hrmap := h.rmap
      rw [hflag] at hrmap
      rw [hres]
      change m₁.rmap = m.rmap
      rw [hrmap]
      exact zero_add m.rmap
    · rw [hres]
      change m₁.entry n = m.entry n
      rw [h.entry n hn List.not_mem_nil, hflag]
      rfl

/-- A call before its first page. -/
theorem Ledger.refl (hready : Ready D type m) : Ledger D type m m (fun _ _ => none) [] (pagesIn []) where
  toBooks := Books.refl m
  nodup := List.nodup_nil
  within _ hn := absurd hn List.not_mem_nil
  unused _ hn := absurd hn List.not_mem_nil
  peak_le _ := le_refl _
  page _ _ _ hy := nomatch hy
  mapped _ hn := absurd hn List.not_mem_nil
  table _ _ _ hy := nomatch hy
  old i e hi hpde := by
    obtain ⟨-, hle⟩ := hready.counts i e hi hpde
    have hcount : tally e.count (pagesIn [] i) (pagesIn [] i) = e.count := by
      rw [tally]
      change (if 7 ≤ e.count + 0 then 7 else e.count + 0) = e.count
      split <;> omega
    rw [hpde, hcount]
  new i e _ hnew hpde := by
    rw [hnew] at hpde
    cases hpde
  gone i _ _ _ hstays := absurd hstays.1 (lt_irrefl 0)
  entry _ _ _ := rfl
  rmap := (zero_add m.rmap).symm
  reserved := rfl
  privilege := rfl
  stays i e _ hnew hpde := by
    rw [hnew] at hpde
    cases hpde

/-- Where the loop stops is told by what the pools have. -/
theorem Stops.runsOut_iff {i : Nat} (h : Stops type start i m role) (hi : i < count) :
    RunsOut type start count m ↔ (∀ type' y, role type' y ≠ some .lost) ∧
      ∀ j, m.pde j = none → ¬Stays type (pagesIn (List.range' start i) j) 0 := by
  obtain ⟨henough, hstop⟩ := h
  constructor
  · rintro ⟨k, hk, hused, hkernel, hsmall⟩
    have hki : k = i := by
      rcases Nat.lt_trichotomy k i with hlt | heq | hgt
      · -- the loop has got past page `k`
        have hmore := takes_lt m type start hlt
        have hle := henough type
        omega
      · exact heq
      · -- there is a page table for page `i`, and a frame
        have hmore := takes_lt m type start hgt
        have hnext := takes_range'_mono m type start (show i + 1 ≤ k from hgt) .KERNEL
        rcases hstop with ⟨hall, -⟩ | ⟨-, hshort, -⟩ <;> omega
    subst hki
    refine ⟨?_, fun j hj => stays_zero.mpr (hsmall j hj)⟩
    rcases hstop with ⟨-, hlost⟩ | ⟨hne, -⟩
    · exact hlost
    · exact absurd hused hne
  · rintro ⟨hlost, hstays⟩
    rcases hstop with ⟨hall, -⟩ | ⟨-, -, type', y, hy⟩
    · exact ⟨i, hi, hall, henough .KERNEL, fun j hj => stays_zero.mp (hstays j hj)⟩
    · exact absurd hy (hlost type' y)

/-- A call of `allocatePages` that returns 0 has changed nothing exactly if it is a physical page that is not
there, with no page table of the call that stays. -/
theorem allocatePages_asBefore_iff {first : Option Nat} (hready : Ready D type m)
    (hoffered : ∀ start, first = some start → Offered D v m start count)
    (hres : m.allocatePages type v first count flag = .ret (none, m')) :
    AsBefore D m m' ↔ ∀ start, first = some start → RunsOut type start count m := by
  cases first with
  | none =>
      obtain ⟨-, rfl⟩ := Prod.mk.inj (Outcome.ret.inj hres)
      exact iff_of_true ⟨fun _ => Iff.rfl, fun _ => Iff.rfl, rfl, rfl, rfl, fun _ _ => rfl⟩ nofun
  | some start =>
      have hoff := hoffered start rfl
      have hready₀ : Ready D type (m.setVirtualPages v start count true flag) :=
        ⟨hready.apart, hready.tables, hready.counts, by
          intro r hr
          rw [setVirtualPages_pool]
          exact hready.records r hr⟩
      have hperm : List.Perm [] (List.range' start (count - count)) := by
        rw [Nat.sub_self]
        exact List.Perm.refl _
      obtain ⟨i, m₁, role, hi, h, hm', hstops⟩ := (Ledger.refl hready₀).allocatePagesLoop hready₀
        hoff.within hoff.entry (le_refl count) hperm (fun _ _ => nofun)
        (fun t => by simp [takes, missingTables]) hres
      have hstops : Stops type start i m role := hstops
      have hpeak : ∀ j, ¬D j → pagesIn (List.range' start i) j = 0 := by
        intro j hj
        rw [pagesIn, List.countP_eq_zero]
        intro k hk hkj
        obtain rfl : k / 1024 = j := by simpa using hkj
        rw [List.mem_range'_1] at hk
        exact hj (hoff.within k hk.1 (by omega))
      rw [h.asBefore_iff rfl hoff hi.le hpeak hm', ← hstops.runsOut_iff hi]
      constructor
      · intro hruns start' hstart
        obtain rfl := Option.some.inj hstart
        exact hruns
      · exact fun hruns => hruns start rfl

end Calls

section Instance

/-- A directory without page tables, one user page, `k` kernel pages and `nodes` entries for reverse mappings. -/
def onePageLeft (k nodes : Nat) (hk : 0x300 + k ≤ 2 ^ 20) : Memory BuddyPool where
  pde := fun _ => none
  mem := fun _ _ => 0#32
  reserved := fun _ => false
  privilege := fun _ => 0
  userPhysical := BuddyPool.boot 0x500 1 (by decide) (by decide)
  kernelPhysical := BuddyPool.boot 0x300 k (by decide) hk
  rmap := 0
  rmapNodes := nodes

theorem onePageLeft_ready {D : Nat → Prop} {type : AddressPoolType} {k nodes : Nat} {hk : 0x300 + k ≤ 2 ^ 20} :
    Ready D type (onePageLeft k nodes hk) where
  apart _ _ _ _ _ _ hpde := nomatch hpde
  tables _ _ _ hpde := nomatch hpde
  counts _ _ _ hpde := nomatch hpde
  records r hr := absurd hr (Multiset.notMem_zero r)

theorem onePageLeft_offered {k nodes : Nat} {hk : 0x300 + k ≤ 2 ^ 20} (v : VPool) (start count : Nat) :
    Offered (fun _ => True) v (onePageLeft k nodes hk) start count :=
  ⟨fun _ _ _ => trivial, fun _ _ _ => rfl, fun _ _ _ => rfl, fun _ _ _ _ => rfl⟩

/-- Three kernel pages, with two physical pages left: the first page gets its frame and a page table, the
second page gets nothing. -/
theorem allocatePages_asBefore_iff_twoPages :
    ∃ m', (onePageLeft 2 8 (by decide)).allocatePages .KERNEL ⟨false, VP_CLEAR⟩ (some 0xC0200) 3 VP_RW =
        .ret (none, m') ∧
      (AsBefore (fun _ => True) (onePageLeft 2 8 (by decide)) m' ↔
        ∀ start, some 0xC0200 = some start →
          RunsOut .KERNEL start 3 (onePageLeft 2 8 (by decide))) :=
  have hres : (onePageLeft 2 8 (by decide)).allocatePages .KERNEL ⟨false, VP_CLEAR⟩ (some 0xC0200) 3 VP_RW =
      .ret (none, _) := rfl
  ⟨_, hres, allocatePages_asBefore_iff onePageLeft_ready (fun _ _ => onePageLeft_offered _ _ _) hres⟩

/-- A page of the user's stack, with no frame for its page table: the frame of the page is lost. -/
theorem not_allocatePages_asBefore :
    ¬∀ (m m' : Memory BuddyPool) (type : AddressPoolType) (v : VPool) (first : Option Nat) (count : Nat)
        (flag : Byte), 1 ≤ count → Ready (fun _ => True) type m →
      (∀ start, first = some start → Offered (fun _ => True) v m start count) →
      m.allocatePages type v first count flag = .ret (none, m') → AsBefore (fun _ => True) m m' := by
  intro h
  have hback := h (onePageLeft 0 8 (by decide)) _ .USER ⟨true, VP_RW ||| VP_USER⟩ (some 0x7FFF) 1 VP_CLEAR
    le_rfl onePageLeft_ready (fun _ _ => onePageLeft_offered _ _ _) rfl
  have halloc : PagePool.allocate (onePageLeft 0 8 (by decide)).userPhysical = some (_, _) := rfl
  obtain ⟨hfree, hleft, -⟩ := PagePool.allocate_free _ _ _ halloc
  exact ((hleft _).mp ((hback.userPhysical _).mpr hfree)).2 rfl

end Instance

end SysuOs.PageTables.Memory
