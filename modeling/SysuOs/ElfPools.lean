import SysuOs.BitMapFit
import SysuOs.ElfImage
import SysuOs.PagingUserPools

/-! Loading a file that fails: everything `createUserVirtualPool` takes in its mode 0, the kernel pages of the
address pools and of the input buffer included, and what it gives back. -/

namespace SysuOs.PageTables.Memory

open Elf Flags Kernel

variable {P : Type} [PagePool P]

/-- The lengths of the address pools for a file. -/
def poolLengths (elfConf : ELFConfig) : PoolLengths where
  heap := elfConf.heap_size.toNat / 4096
  stack := elfConf.stack_size.toNat / 4096
  mmap := elfConf.mmap_size.toNat / 4096
  TLS := elfConf.tls_size.toNat / 4096

/-- `userVirtual.destroy`; `starts` are the first pages of the bitmaps and of the privileges. -/
def destroyPools (base : Nat) (m : Memory P) (starts : Nat × Nat) (l : PoolLengths) : Outcome (Memory P) := do
  let m ← m.releaseKernelPages base (some starts.1) l.bitmapPages
  m.releaseKernelPages base (some starts.2) l.privPages

/-- `createUserVirtualPool(process, elfConf, 0)`. -/
def createUserVirtualPool (base : Nat) (read : Reader) (m : Memory P) (elfConf : ELFConfig) :
    Outcome (Bool × Memory P) := do
  let l := poolLengths elfConf
  match ← m.initializePools base l.heap l.stack l.mmap l.TLS with
  | (none, m) => return (false, m)
  | (some starts, m) => do
    match ← m.allocateKernelPages base 1 with
    | (none, m) => do
      let m ← m.destroyPools base starts l
      return (false, m)
    | (some io_buffer, m) => do
      match ← loadSegments read m elfConf with
      | (true, m) => do
        let m ← m.releaseKernelPages base (some io_buffer) 1
        return (true, m)
      | (false, m) => do
        let m ← m.destroyPools base starts l
        let m ← m.releaseKernelPages base (some io_buffer) 1
        return (false, m)

/-- Everything that has been taken is given back. -/
structure GivenBack (base : Nat) (m m' : Memory P) : Prop extends Unchanged base m m' where
  pde : ∀ i, m'.pde i = m.pde i

/-- The free pages of `kernelVirtual`. -/
def unreserved (base : Nat) (m : Memory P) : Finset Nat :=
  (Finset.Ico base (2 ^ 20)).filter fun n => m.reserved n = false

/-- The address pools leave no page for the input buffer, virtual or physical. -/
def NoBuffer (base : Nat) (m : Memory P) (l : PoolLengths) : Prop :=
  (unreserved base m).card ≤ l.bitmapPages + l.privPages ∨
    supply (l.bitmapPages + l.privPages + 1) m.kernelPhysical ≤ l.bitmapPages + l.privPages

/-- With an input buffer that has its reverse mapping, the first page of the file has no user page left, cannot
be read, or has no kernel page left for its page table. -/
def NoFirstPage (read : Reader) (m : Memory P) (elfConf : ELFConfig) : Prop :=
  let l := poolLengths elfConf
  m.rmap.card + (l.bitmapPages + l.privPages + 1) ≤ m.rmapNodes ∧
    ∃ r rest, requests read elfConf = r :: rest ∧
      (PagePool.allocate m.userPhysical = none ∨ r.readable = false ∨
        supply (l.bitmapPages + l.privPages + 2) m.kernelPhysical ≤ l.bitmapPages + l.privPages + 1)

/-! ### What an allocation takes from the kernel pool -/

section Take

variable {base bound n count : Nat} {m₀ m m₁ m' : Memory P} {role : Roles} {V : Finset Nat}

theorem supply_none {p : P} : supply 1 p = 0 ↔ PagePool.allocate p = none := by
  cases halloc : PagePool.allocate p with
  | none => simp [supply, halloc]
  | some xp => simp [supply, halloc]

/-- So many pages have been taken from the kernel pool, and nothing from the user pool. -/
structure Takes (count : Nat) (m m' : Memory P) : Prop where
  kernelPhysical : ∀ j, supply (count + j) m.kernelPhysical = count + supply j m'.kernelPhysical
  userPhysical : m'.userPhysical = m.userPhysical
  rmapNodes : m'.rmapNodes = m.rmapNodes

theorem Takes.zero (m : Memory P) : Takes 0 m m := ⟨fun j => by rw [Nat.zero_add, Nat.zero_add], rfl, rfl⟩

theorem Takes.trans {j k : Nat} (h : Takes j m m₁) (h' : Takes k m₁ m') : Takes (j + k) m m' where
  kernelPhysical i := by rw [Nat.add_assoc, h.kernelPhysical, h'.kernelPhysical, Nat.add_assoc]
  userPhysical := h'.userPhysical.trans h.userPhysical
  rmapNodes := h'.rmapNodes.trans h.rmapNodes

/-- No page is left after these exactly if the pool has no more than these. -/
theorem Takes.none_iff (h : Takes count m m') :
    PagePool.allocate m'.kernelPhysical = none ↔ supply (count + 1) m.kernelPhysical ≤ count := by
  rw [← supply_none, h.kernelPhysical 1]
  omega

/-- A page that gets a frame takes one page from the kernel pool. -/
theorem allocatePage_takes (htables : PoolTables base m.toSpace) (hn : InPool base n)
    (hres : m.allocatePage .KERNEL kernelVirtual n = .ret (true, m')) :
    Takes 1 m m' ∧ m'.pde = m.pde := by
  have hpage := allocatePage_eq htables hn
  cases halloc : PagePool.allocate m.kernelPhysical with
  | none =>
      rw [halloc] at hpage
      cases hpage.symm.trans hres
  | some xp =>
      obtain ⟨x, p⟩ := xp
      rw [halloc] at hpage
      obtain ⟨-, w, m₁, -, -, hwrites, -, -, hpool, -, hnodes, hcall⟩ := hpage
      rw [hcall] at hres
      split at hres
      · obtain ⟨-, rfl⟩ := Prod.mk.inj (Outcome.ret.inj hres)
        have hkernel : m₁.kernelPhysical = p := congrFun hpool .KERNEL
        refine ⟨⟨fun j => ?_, congrFun hpool .USER, hnodes⟩, hwrites.pde⟩
        rw [Nat.add_comm 1 j, supply, halloc, hkernel]
        exact Nat.add_comm _ _
      · cases hres

theorem allocatePagesLoop_takes {start left : Nat} (htables : PoolTables base m.toSpace) (hleft : left ≤ count)
    (hin : ∀ k, start ≤ k → k < start + count → InPool base k) {o : Nat}
    (hres : allocatePagesLoop .KERNEL kernelVirtual start count left m = .ret (some o, m')) :
    Takes left m m' := by
  induction left generalizing m with
  | zero =>
      obtain ⟨-, rfl⟩ := Prod.mk.inj (Outcome.ret.inj hres)
      exact Takes.zero m
  | succ left ih =>
      rw [allocatePagesLoop] at hres
      obtain ⟨⟨ok, m₁⟩, hpage, hres⟩ := Outcome.bind_eq_ret hres
      cases ok with
      | true =>
          obtain ⟨htakes, hpde⟩ := allocatePage_takes htables (hin _ (by omega) (by omega)) hpage
          have hrest := ih (htables.congr fun k _ => congrFun hpde _) (by omega) hres
          rw [Nat.add_comm left 1]
          exact htakes.trans hrest
      | false =>
          obtain ⟨m₂, -, hres⟩ := Outcome.bind_eq_ret hres
          cases hres

theorem allocateKernelPages_takes {start : Nat} (htables : PoolTables base m.toSpace)
    (hres : m.allocateKernelPages base count = .ret (some start, m')) : Takes count m m' := by
  rw [allocateKernelPages] at hres
  cases hfirst : m.allocateVirtualPages base count with
  | none =>
      rw [hfirst] at hres
      cases hres
  | some first =>
      rw [hfirst] at hres
      have hfree := allocateVirtualPages_some hfirst
      have htakes := allocatePagesLoop_takes (m := m.setVirtualPages kernelVirtual first count true VP_RW)
        (htables.congr fun _ _ => rfl) (le_refl count) (fun k hk hk' => (hfree k hk hk').1) hres
      exact ⟨htakes.kernelPhysical, htakes.userPhysical, htakes.rmapNodes⟩

omit [PagePool P] in
/-- `kernelVirtual` has no page exactly if all its pages are reserved. -/
theorem allocateVirtualPages_none (m : Memory P) :
    m.allocateVirtualPages base 1 = none ↔ ∀ n, InPool base n → m.reserved n = true := by
  have hfits : ∀ i, (m.kernelBits base).Fits 1 i ↔ i < 2 ^ 20 - base ∧ m.reserved (base + i) = false := by
    intro i
    rw [← get_kernelBits]
    constructor
    · intro h
      exact h i (le_refl i) (Nat.lt_succ_self i)
    · intro h j hj hj'
      obtain rfl : j = i := by omega
      exact h
  have hcall : (m.kernelBits base).allocate 1 =
      (m.kernelBits base).allocateLoop 1 (m.kernelBits base).length 0 := rfl
  have hsearch := @BitMap.allocateLoop_exact (m.kernelBits base) 1 (m.kernelBits base).length 0 (le_refl 1)
    (Nat.zero_le _) (by omega) fun s hs => absurd hs (by omega)
  rw [allocateVirtualPages, Option.map_eq_none_iff, hcall]
  rcases hsearch with ⟨i, hfound, hleast⟩ | ⟨hnone, hfull⟩
  · obtain ⟨hlt, hfree⟩ := (hfits i).mp hleast.1
    rw [hfound]
    refine iff_of_false (Option.some_ne_none i) fun hall => ?_
    rw [hall (base + i) ⟨by omega, by omega⟩] at hfree
    cases hfree
  · rw [hnone]
    refine iff_of_true rfl fun n hn => ?_
    by_contra hnot
    rw [Bool.not_eq_true] at hnot
    refine hfull (n - base) ((hfits _).mpr ⟨?_, ?_⟩)
    · have hge := hn.1
      have hlt := hn.2
      omega
    · rw [Nat.add_sub_of_le hn.1]
      exact hnot

/-- With the pages `V` reserved, `kernelVirtual` has no page exactly if it had no more than these. -/
theorem Holds.full_iff {L : Finset Nat} (h : Holds base bound m₀ m role V L) :
    m.allocateVirtualPages base 1 = none ↔ (unreserved base m₀).card ≤ V.card := by
  have hsubset : V ⊆ unreserved base m₀ := by
    intro n hn
    obtain ⟨hge, hlt⟩ := h.within n hn
    exact Finset.mem_filter.mpr ⟨Finset.mem_Ico.mpr ⟨hge, hlt⟩, h.unused n hn⟩
  rw [allocateVirtualPages_none]
  constructor
  · intro hall
    refine Finset.card_le_card fun n hn => ?_
    obtain ⟨hin, hfree⟩ := Finset.mem_filter.mp hn
    have hused := hall n (Finset.mem_Ico.mp hin)
    rw [h.reserved n (Finset.mem_Ico.mp hin), hfree] at hused
    simpa using hused
  · intro hcard n hn
    rw [h.reserved n hn]
    cases hfree : m₀.reserved n with
    | true => rfl
    | false =>
        have hmem : n ∈ unreserved base m₀ := Finset.mem_filter.mpr ⟨Finset.mem_Ico.mpr hn, hfree⟩
        rw [← Finset.eq_of_subset_of_card_le hsubset hcard] at hmem
        simpa using hmem

/-- One page is allocated, if there is one and an entry for its reverse mapping. -/
theorem Holds.allocateOne (hspace : KernelSpace base bound m₀) (h : Holds base bound m₀ m role V V) :
    (m.allocateVirtualPages base 1 = none ∨ PagePool.allocate m.kernelPhysical = none →
      ∃ m' role', m.allocateKernelPages base 1 = .ret (none, m') ∧ Holds base bound m₀ m' role' V V) ∧
    (¬(m.allocateVirtualPages base 1 = none ∨ PagePool.allocate m.kernelPhysical = none) →
      (m.rmap.card < m.rmapNodes → ∃ start m' role', m.allocateKernelPages base 1 = .ret (some start, m') ∧
        Takes 1 m m' ∧ Disjoint (pages (some start) 1) V ∧
        Holds base bound m₀ m' role' (pages (some start) 1 ∪ V) (pages (some start) 1 ∪ V)) ∧
      (m.rmapNodes ≤ m.rmap.card → ∀ res, m.allocateKernelPages base 1 ≠ .ret res)) := by
  have htables := h.tables hspace
  obtain ⟨hret, hhalt⟩ := h.allocateKernelPages hspace 1
  have hsupply : PagePool.allocate m.kernelPhysical ≠ none → supply 1 m.kernelPhysical = 1 := by
    intro hsome
    obtain ⟨⟨x, p⟩, halloc⟩ := Option.ne_none_iff_exists'.mp hsome
    simp [supply, halloc]
  constructor
  · intro hnone
    have hroom : m.Room base 1 := by
      intro hfirst
      rw [supply_none.mpr (hnone.resolve_left hfirst), Nat.add_zero]
      exact h.entries
    obtain ⟨o, m', role', hcall, h', -⟩ := hret hroom
    cases o with
    | none =>
        rw [pages, Finset.union_empty] at h'
        exact ⟨m', role', hcall, h'⟩
    | some start =>
        have htaken := (allocateKernelPages_takes htables hcall).kernelPhysical 0
        rcases hnone with hnone | hnone
        · rw [Memory.allocateKernelPages, hnone] at hcall
          cases hcall
        · rw [supply_none.mpr hnone] at htaken
          omega
  · intro hsome
    rw [not_or] at hsome
    obtain ⟨hfirst, hframe⟩ := hsome
    have hone := hsupply hframe
    refine ⟨fun hlt => ?_, fun hfull => hhalt fun hroom => ?_⟩
    · obtain ⟨o, m', role', hcall, h', hdisj⟩ := hret fun _ => by omega
      cases o with
      | none =>
          exfalso
          obtain ⟨start, hstart⟩ := Option.ne_none_iff_exists'.mp hfirst
          obtain ⟨⟨x, p⟩, halloc⟩ := Option.ne_none_iff_exists'.mp hframe
          have hin := (allocateVirtualPages_some hstart start (le_refl start) (Nat.lt_succ_self start)).1
          have hpage := allocatePage_eq (m := m.setVirtualPages kernelVirtual start 1 true VP_RW)
            (htables.congr fun _ _ => rfl) hin
          have halloc' : PagePool.allocate
              (m.setVirtualPages kernelVirtual start 1 true VP_RW).kernelPhysical = some (x, p) := halloc
          rw [halloc'] at hpage
          obtain ⟨-, w, m₁, -, -, -, -, -, -, -, -, hone'⟩ := hpage
          have hlt' : (m.setVirtualPages kernelVirtual start 1 true VP_RW).rmap.card <
              (m.setVirtualPages kernelVirtual start 1 true VP_RW).rmapNodes := hlt
          rw [if_pos hlt'] at hone'
          rw [Memory.allocateKernelPages, hstart, allocatePages, Memory.allocatePagesLoop, Nat.sub_self,
            Nat.add_zero, hone', Outcome.ret_bind] at hcall
          cases hcall
      | some start =>
          refine ⟨start, m', role', hcall, allocateKernelPages_takes htables hcall, hdisj.symm, ?_⟩
          rw [Finset.union_comm]
          exact h'
    · have hle := hroom hfirst
      omega

/-- A user page that is taken and given back makes no difference. -/
theorem Holds.turned {L : Finset Nat} (h : Holds base bound m₀ m role V L) (hturned : Turned m m') :
    Holds base bound m₀ m' role V L := by
  rcases hturned with rfl | ⟨x, p, halloc, rfl⟩
  · exact h
  · obtain ⟨htake, hnone⟩ := h.toBooks.take halloc (.page 0)
    have htaken : role.set .USER x (some (.page 0)) .USER x ≠ none := by
      rw [Roles.set_self]
      exact Option.some_ne_none _
    have hback := htake.giveBack htaken
    have hsame : (role.set .USER x (some (.page 0))).set .USER x none = role := by
      funext type y
      by_cases heq : type = .USER ∧ y = x
      · rw [heq.1, heq.2, Roles.set_self, hnone]
      · rw [Roles.set_of_ne heq, Roles.set_of_ne heq]
    rw [hsame] at hback
    exact
      { toBooks := hback
        pde := h.pde
        within := h.within
        unused := h.unused
        subset := h.subset
        page := h.page
        mapped := h.mapped
        rmap := h.rmap
        reserved := h.reserved
        privilege := h.privilege
        low := h.low
        entries := h.entries }

end Take

/-! ### What is given back -/

section Calls

variable {base count : Nat} {read : Reader} {elfConf : ELFConfig} {m₀ m m' : Memory P} {role : Roles}
  {l : PoolLengths} {starts : Nat × Nat}

/-- What the address pools and then the input buffer hold. -/
structure PoolsHeld (base : Nat) (m₀ m : Memory P) (l : PoolLengths) (starts : Nat × Nat) (role : Roles)
    (X : Finset Nat) : Prop where
  holds : Holds base 0 m₀ m role (pages (some starts.1) l.bitmapPages ∪ (pages (some starts.2) l.privPages ∪ X))
    (pages (some starts.1) l.bitmapPages ∪ (pages (some starts.2) l.privPages ∪ X))
  bitmap : Disjoint (pages (some starts.1) l.bitmapPages) (pages (some starts.2) l.privPages ∪ X)
  priv : Disjoint (pages (some starts.2) l.privPages) X

/-- `initialize` has taken the pages of the bitmaps and of the privileges. -/
theorem initializePools_held (hspace : KernelSpace base 0 m)
    (hres : m.initializePools base l.heap l.stack l.mmap l.TLS = .ret (some starts, m')) :
    Takes (l.bitmapPages + l.privPages) m m' ∧ ∃ role, PoolsHeld base m m' l starts role ∅ := by
  rw [initializePools, tryAlloc] at hres
  obtain ⟨⟨o, m₁⟩, hfirst, hres⟩ := Outcome.bind_eq_ret hres
  obtain ⟨⟨o', m₂⟩, hsecond, hres⟩ := Outcome.bind_eq_ret hres
  obtain ⟨hret, hhalt⟩ := (Holds.refl hspace).allocateKernelPages hspace l.bitmapPages
  have hroom : m.Room base l.bitmapPages := by
    by_contra hfull
    exact hhalt hfull _ hfirst
  obtain ⟨o₁, m₁', role₁, hcall, h₁, -⟩ := hret hroom
  obtain ⟨rfl, rfl⟩ := Prod.mk.inj (Outcome.ret.inj (hcall.symm.trans hfirst))
  rw [Finset.empty_union] at h₁
  obtain ⟨hret', hhalt'⟩ := h₁.allocateKernelPages hspace l.privPages
  have hroom' : m₁'.Room base l.privPages := by
    by_contra hfull
    exact hhalt' hfull _ hsecond
  obtain ⟨o₂, m₂', role₂, hcall', h₂, hdisj⟩ := hret' hroom'
  obtain ⟨rfl, rfl⟩ := Prod.mk.inj (Outcome.ret.inj (hcall'.symm.trans hsecond))
  cases o₁ with
  | none =>
      obtain ⟨m₃, -, hres⟩ := Outcome.bind_eq_ret hres
      obtain ⟨m₄, -, hres⟩ := Outcome.bind_eq_ret hres
      cases hres
  | some bitmapStart =>
      cases o₂ with
      | none =>
          obtain ⟨m₃, -, hres⟩ := Outcome.bind_eq_ret hres
          obtain ⟨m₄, -, hres⟩ := Outcome.bind_eq_ret hres
          cases hres
      | some privStart =>
          obtain ⟨hstarts, rfl⟩ := Prod.mk.inj (Outcome.ret.inj hres)
          obtain rfl := Option.some.inj hstarts
          have htakes := allocateKernelPages_takes hspace.toPoolTables hfirst
          have htakes' := allocateKernelPages_takes (h₁.tables hspace) hsecond
          refine ⟨htakes.trans htakes', role₂, ⟨?_, ?_, Finset.disjoint_empty_right _⟩⟩
          · rw [Finset.union_empty]
            exact h₂
          · rw [Finset.union_empty]
            exact hdisj

/-- `destroy` gives the pages of the address pools back. -/
theorem PoolsHeld.destroy (hspace : KernelSpace base 0 m₀) {X : Finset Nat}
    (h : PoolsHeld base m₀ m l starts role X) :
    ∃ m' role', m.destroyPools base starts l = .ret m' ∧ Holds base 0 m₀ m' role' X X := by
  obtain ⟨m₁, role₁, hbitmap, h₁⟩ := h.holds.releasePages hspace h.bitmap
  obtain ⟨m₂, role₂, hpriv, h₂⟩ := h₁.releasePages hspace h.priv
  refine ⟨m₂, role₂, ?_, h₂⟩
  rw [destroyPools, hbitmap]
  exact hpriv

/-- What the address pools hold has so many pages. -/
theorem PoolsHeld.card (h : PoolsHeld base m₀ m l starts role ∅) :
    (pages (some starts.1) l.bitmapPages ∪ (pages (some starts.2) l.privPages ∪ ∅)).card =
      l.bitmapPages + l.privPages := by
  rw [Finset.card_union_of_disjoint h.bitmap, Finset.union_empty, card_pages, card_pages]

omit [PagePool P] in
theorem setVirtualPages_pde (m : Memory P) (v : VPool) (start count : Nat) (inUse : Bool) (flag : Byte) :
    (m.setVirtualPages v start count inUse flag).pde = m.pde := rfl

omit [PagePool P] in
theorem releaseKernelVirtual_pde (m : Memory P) (start count : Nat) :
    (m.releaseKernelVirtual base start count).pde = m.pde := setVirtualPages_pde _ _ _ _ _ _

/-- `releasePages` to the kernel pools keeps the page tables of the other pages. -/
theorem releaseKernelPages_hasTable {start i : Nat} (hother : ∀ k, start ≤ k → k < start + count → i ≠ k / 1024)
    (hres : m.releaseKernelPages base (some start) count = .ret m') (h : HasTable i m.toSpace) :
    HasTable i m'.toSpace := by
  obtain ⟨m₁, hloop, hrest⟩ := Outcome.bind_eq_ret hres
  obtain rfl := Outcome.ret.inj hrest
  rw [HasTable, releaseKernelVirtual_pde]
  rw [Option.getD_some] at hloop
  clear hres hrest
  induction count generalizing start m with
  | zero =>
      obtain rfl := Outcome.ret.inj hloop
      exact h
  | succ count ih =>
      obtain ⟨m₂, hpage, hloop⟩ := Outcome.bind_eq_ret hloop
      have hkept := (releasePage_releases hpage).pde i (hother start (le_refl start) (by omega))
      refine ih (fun k hk hk' => hother k (by omega) (by omega)) ?_ hloop
      rw [HasTable, hkept]
      exact h

/-- A page that has no page table is not a page of `kernelVirtual`. -/
theorem KernelSpace.other (hspace : KernelSpace base 0 m) {i k : Nat} (hnone : m.pde i = none)
    (hk : InPool base k) : i ≠ k / 1024 := by
  rintro rfl
  obtain ⟨f, hpde⟩ := hspace.tables k hk
  rw [hnone] at hpde
  cases hpde

/-- With the input buffer there, a file leaves no trace if its first page fails before it has a page table. -/
theorem PoolsHeld.leavesNothing (hspace : KernelSpace base 0 m₀) {io_buffer : Nat}
    (h : PoolsHeld base m₀ m l starts role (pages (some io_buffer) 1))
    (hnew : ∀ r ∈ requests read elfConf, m₀.pde (r.page / 1024) = none) (hfails : FailsFirst read m elfConf) :
    ∃ m₁ m₂ m₃, loadSegments read m elfConf = .ret (false, m₁) ∧ m₁.destroyPools base starts l = .ret m₂ ∧
      m₂.releaseKernelPages base (some io_buffer) 1 = .ret m₃ ∧ GivenBack base m₀ m₃ := by
  obtain ⟨m₁, hload, hturned⟩ := loadSegments_failsFirst (fun r hr => by rw [h.holds.pde]; exact hnew r hr) hfails
  have h₁ : PoolsHeld base m₀ m₁ l starts role (pages (some io_buffer) 1) :=
    ⟨h.holds.turned hturned, h.bitmap, h.priv⟩
  obtain ⟨m₂, role₂, hdestroy, h₂⟩ := h₁.destroy hspace
  rw [← Finset.union_empty (pages (some io_buffer) 1)] at h₂
  obtain ⟨m₃, role₃, hrelease, h₃⟩ := h₂.releasePages hspace (Finset.disjoint_empty_right _)
  exact ⟨m₁, m₂, m₃, hload, hdestroy, hrelease, h₃.unchanged, fun i => congrFun h₃.pde i⟩

/-- A page table that has been linked for the first page is never given back. -/
theorem PoolsHeld.leavesTable (hspace : KernelSpace base 0 m₀) {io_buffer : Nat}
    (h : PoolsHeld base m₀ m l starts role (pages (some io_buffer) 1))
    (hnew : ∀ r ∈ requests read elfConf, m₀.pde (r.page / 1024) = none) {m₁ m₂ m₃ : Memory P}
    (hload : loadSegments read m elfConf = .ret (false, m₁)) (hdestroy : m₁.destroyPools base starts l = .ret m₂)
    (hrelease : m₂.releaseKernelPages base (some io_buffer) 1 = .ret m₃) (hlater : ¬FailsFirst read m elfConf) :
    ∃ i e, m₃.pde i = some e ∧ m₀.pde i = none := by
  cases hreq : requests read elfConf with
  | nil =>
      have hdone : loadSegments read m elfConf = .ret (true, m) := by
        rw [loadSegments, hreq]
        rfl
      cases hdone.symm.trans hload
  | cons r rest =>
      have hnone := hnew r (by rw [hreq]; exact List.mem_cons_self)
      have hother : ∀ start count, pages (some start) count ⊆ pages (some starts.1) l.bitmapPages ∪
            (pages (some starts.2) l.privPages ∪ pages (some io_buffer) 1) →
          ∀ k, start ≤ k → k < start + count → r.page / 1024 ≠ k / 1024 := by
        intro start count hsub k hk hk'
        exact hspace.other hnone (h.holds.within k (hsub (Finset.mem_Ico.mpr ⟨hk, hk'⟩)))
      have htable := loadSegments_links hreq hload hlater
      obtain ⟨m₁', hbitmap, hpriv⟩ := Outcome.bind_eq_ret hdestroy
      have htable₁ := releaseKernelPages_hasTable (hother _ _ Finset.subset_union_left) hbitmap htable
      have htable₂ := releaseKernelPages_hasTable
        (hother _ _ (Finset.subset_union_left.trans Finset.subset_union_right)) hpriv htable₁
      have htable₃ := releaseKernelPages_hasTable
        (hother _ _ (Finset.subset_union_right.trans Finset.subset_union_right)) hrelease htable₂
      obtain ⟨e, he⟩ := htable₃
      exact ⟨r.page / 1024, e, he, hnone⟩

/-- A call that loads a file into a directory without page tables fails and leaves no trace exactly if there is
no input buffer for it, or its first page fails before it has a page table: a page table that has been linked
is never given back. -/
theorem givenBack_iff (hspace : KernelSpace base 0 m)
    (hnew : ∀ r ∈ requests read elfConf, m.pde (r.page / 1024) = none)
    (hpools : ∃ starts m₁, m.initializePools base (poolLengths elfConf).heap (poolLengths elfConf).stack
      (poolLengths elfConf).mmap (poolLengths elfConf).TLS = .ret (some starts, m₁)) :
    (∃ m', createUserVirtualPool base read m elfConf = .ret (false, m') ∧ GivenBack base m m') ↔
      NoBuffer base m (poolLengths elfConf) ∨ NoFirstPage read m elfConf := by
  obtain ⟨starts, m₁, hinit⟩ := hpools
  obtain ⟨htakes, role₁, h₁⟩ := initializePools_held hspace hinit
  obtain ⟨hnobuffer, hbuffer⟩ := h₁.holds.allocateOne hspace
  have hno : m₁.allocateVirtualPages base 1 = none ∨ PagePool.allocate m₁.kernelPhysical = none ↔
      NoBuffer base m (poolLengths elfConf) := by
    rw [h₁.holds.full_iff, h₁.card, htakes.none_iff]
    rfl
  rw [hno] at hnobuffer hbuffer
  have hcard : m₁.rmap.card =
      (poolLengths elfConf).bitmapPages + (poolLengths elfConf).privPages + m.rmap.card := by
    rw [h₁.holds.card, h₁.card]
  have hnodes := htakes.rmapNodes
  rw [createUserVirtualPool, hinit, Outcome.ret_bind]
  dsimp only
  by_cases hcase : NoBuffer base m (poolLengths elfConf)
  · obtain ⟨m₂, role₂, hcall, h₂⟩ := hnobuffer hcase
    have hheld : PoolsHeld base m m₂ (poolLengths elfConf) starts role₂ ∅ := ⟨h₂, h₁.bitmap, h₁.priv⟩
    obtain ⟨m₃, role₃, hdestroy, h₃⟩ := hheld.destroy hspace
    refine iff_of_true ⟨m₃, ?_, h₃.unchanged, fun i => congrFun h₃.pde i⟩ (Or.inl hcase)
    rw [hcall, Outcome.ret_bind]
    dsimp only
    rw [hdestroy]
    rfl
  · rw [or_iff_right hcase]
    obtain ⟨hroom, hfull⟩ := hbuffer hcase
    by_cases hlt : m₁.rmap.card < m₁.rmapNodes
    · obtain ⟨io_buffer, m₂, role₂, hcall, htakes₂, hdisj, h₂⟩ := hroom hlt
      have hfirst : FailsFirst read m₂ elfConf ↔ NoFirstPage read m elfConf := by
        rw [FailsFirst, NoFirstPage, (htakes.trans htakes₂).none_iff, htakes₂.userPhysical, htakes.userPhysical]
        exact (and_iff_right (by omega)).symm
      have hheld : PoolsHeld base m m₂ (poolLengths elfConf) starts role₂ (pages (some io_buffer) 1) := by
        rw [Finset.union_empty, Finset.disjoint_union_right] at hdisj
        refine ⟨?_, Finset.disjoint_union_right.mpr ⟨?_, hdisj.1.symm⟩, hdisj.2.symm⟩
        · rw [Finset.union_empty, Finset.union_comm, Finset.union_assoc] at h₂
          exact h₂
        · rw [← Finset.union_empty (pages (some starts.2) _)]
          exact h₁.bitmap
      rw [hcall, Outcome.ret_bind, ← hfirst]
      dsimp only
      constructor
      · rintro ⟨m', hres, hback⟩
        obtain ⟨⟨ok, m₃⟩, hload, hres⟩ := Outcome.bind_eq_ret hres
        cases ok with
        | true =>
            obtain ⟨m₄, -, hres⟩ := Outcome.bind_eq_ret hres
            cases hres
        | false =>
            obtain ⟨m₄, hdestroy, hres⟩ := Outcome.bind_eq_ret hres
            obtain ⟨m₅, hrelease, hres⟩ := Outcome.bind_eq_ret hres
            obtain ⟨-, rfl⟩ := Prod.mk.inj (Outcome.ret.inj hres)
            by_contra hlater
            obtain ⟨i, e, he, hnone⟩ := hheld.leavesTable hspace hnew hload hdestroy hrelease hlater
            rw [hback.pde, hnone] at he
            cases he
      · intro hfails
        obtain ⟨m₃, m₄, m₅, hload, hdestroy, hrelease, hback⟩ := hheld.leavesNothing hspace hnew hfails
        refine ⟨m₅, ?_, hback⟩
        rw [hload, Outcome.ret_bind]
        dsimp only
        rw [hdestroy, Outcome.ret_bind, hrelease]
        rfl
    · refine iff_of_false ?_ fun hfirst => ?_
      · rintro ⟨m', hres, -⟩
        obtain ⟨res, hcall, -⟩ := Outcome.bind_eq_ret hres
        exact hfull (not_lt.mp hlt) res hcall
      · have hle := hfirst.1
        omega

end Calls

section Instance

/-- A file with one program header, whose one executable page leaves one page for `mmap`. -/
def highFile : File where
  bytes := [0x7f, 0x45, 0x4c, 0x46, 1, 1, 1, 0, 0, 0, 0, 0, 0, 0, 0, 0,
    2, 0, 3, 0, 1, 0, 0, 0, 0x00, 0xe0, 0xbc, 0x7f,
    52, 0, 0, 0, 0, 0, 0, 0, 0, 0, 0, 0, 52, 0, 32, 0, 1, 0, 0, 0, 0, 0, 0, 0,
    1, 0, 0, 0, 0, 0, 0, 0, 0x00, 0xe0, 0xbc, 0x7f, 0, 0, 0, 0,
    84, 0, 0, 0, 0, 0x10, 0, 0, 5, 0, 0, 0, 0, 0x10, 0, 0]
  size := by decide

theorem oneUserPage : 0x500 + 1 ≤ 2 ^ 20 := by decide

/-- A new directory with the page tables of the kernel, one user page, `k` kernel pages and `nodes` entries for
reverse mappings. -/
def newSpace (k nodes : Nat) (hk : 0x300 + k ≤ 2 ^ 20) : Memory BuddyPool where
  pde i := if 768 ≤ i then some ⟨0x101 + (i - 768), 7⟩ else none
  mem _ _ := 0#32
  reserved := fun _ => false
  privilege := fun _ => VP_CLEAR
  userPhysical := BuddyPool.boot 0x500 1 firstUser_pos oneUserPage
  kernelPhysical := BuddyPool.boot 0x300 k firstKernel_pos hk
  rmap := 0
  rmapNodes := nodes

variable {k nodes : Nat} {hk : 0x300 + k ≤ 2 ^ 20}

theorem newSpace_pde {i : Nat} (hi : 768 ≤ i) : (newSpace k nodes hk).pde i = some ⟨0x101 + (i - 768), 7⟩ :=
  if_pos hi

theorem newSpace_ready : KernelSpace 0xC0200 0 (newSpace k nodes hk) where
  tables n hn := ⟨_, newSpace_pde hn.table⟩
  apart n j e e' hn hj he he' hframe := by
    have hge := hn.table
    have hge' := hj.table
    rw [newSpace_pde hge] at he
    rw [newSpace_pde hge'] at he'
    obtain rfl := Option.some.inj he
    obtain rfl := Option.some.inj he'
    have hsum : 0x101 + (n / 1024 - 768) = 0x101 + (j / 1024 - 768) := hframe
    omega
  base_pos := by decide
  base_lt := by decide
  low n _ _ _ hn := absurd hn (Nat.not_lt_zero n)
  records r hr := absurd hr (Multiset.notMem_zero r)
  cleared _ _ _ := rfl
  entries := Nat.zero_le nodes

theorem newSpace_new :
    ∀ r ∈ requests highFile.read (parseELF 3 highFile.read), (newSpace k nodes hk).pde (r.page / 1024) = none := by
  intro r hr
  have hpages : (requests highFile.read (parseELF 3 highFile.read)).map Request.page = [0x7fbce] := rfl
  have hpage := List.mem_map_of_mem (f := Request.page) hr
  rw [hpages, List.mem_singleton] at hpage
  rw [hpage]
  rfl

theorem newSpace_pools {l : PoolLengths}
    (hsome : ((newSpace k nodes hk).initializePools 0xC0200 l.heap l.stack l.mmap l.TLS >>= fun r =>
      Outcome.ret r.1.isSome) = .ret true) :
    ∃ starts m₁, (newSpace k nodes hk).initializePools 0xC0200 l.heap l.stack l.mmap l.TLS =
      .ret (some starts, m₁) := by
  obtain ⟨⟨o, m₁⟩, hinit, hsome⟩ := Outcome.bind_eq_ret hsome
  obtain ⟨starts, rfl⟩ := Option.isSome_iff_exists.mp (Outcome.ret.inj hsome)
  exact ⟨starts, m₁, hinit⟩

/-- Ten pages for the address pools, one for the input buffer, and none for the page table of the first page. -/
theorem givenBack_iff_noTable :
    (∃ m', createUserVirtualPool 0xC0200 highFile.read (newSpace 11 100 (by decide)) (parseELF 3 highFile.read) =
        .ret (false, m') ∧ GivenBack 0xC0200 (newSpace 11 100 (by decide)) m') ↔
      NoBuffer 0xC0200 (newSpace 11 100 (by decide)) (poolLengths (parseELF 3 highFile.read)) ∨
        NoFirstPage highFile.read (newSpace 11 100 (by decide)) (parseELF 3 highFile.read) :=
  givenBack_iff newSpace_ready newSpace_new (newSpace_pools rfl)

/-- The first page has its page table when the call fails. -/
theorem newSpace_linked :
    (createUserVirtualPool 0xC0200 highFile.read (newSpace 12 11 (by decide)) (parseELF 3 highFile.read) >>=
      fun r => Outcome.ret (r.1, (r.2.pde 510).isSome)) = .ret (false, true) := by
  rfl

/-- A kernel page for the page table too, but no entry for the reverse mapping of the first page: the page table
stays. -/
theorem not_givenBack :
    ¬∀ (base : Nat) (m : Memory BuddyPool) (read : Reader) (fd : Int), (parseELF fd read).entry ≠ 0 →
      KernelSpace base 0 m → (∀ r ∈ requests read (parseELF fd read), m.pde (r.page / 1024) = none) →
      (∃ starts m₁, m.initializePools base (poolLengths (parseELF fd read)).heap
        (poolLengths (parseELF fd read)).stack (poolLengths (parseELF fd read)).mmap
        (poolLengths (parseELF fd read)).TLS = .ret (some starts, m₁)) →
      (∀ m', createUserVirtualPool base read m (parseELF fd read) ≠ .ret (true, m')) →
      ∃ m', createUserVirtualPool base read m (parseELF fd read) = .ret (false, m') ∧ GivenBack base m m' := by
  intro h
  have hlinked := newSpace_linked
  obtain ⟨m', hres, hback⟩ := h 0xC0200 (newSpace 12 11 (by decide)) highFile.read 3 (by decide +kernel)
    newSpace_ready newSpace_new (newSpace_pools rfl) fun m' htrue => by
      rw [htrue] at hlinked
      cases hlinked
  rw [hres, Outcome.ret_bind] at hlinked
  dsimp only at hlinked
  rw [hback.pde 510] at hlinked
  cases hlinked

end Instance

end SysuOs.PageTables.Memory
