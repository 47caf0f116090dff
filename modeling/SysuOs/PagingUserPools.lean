import SysuOs.BitMapPool
import SysuOs.PagingRollback

/-! The kernel pages of a `UserVAddressPool`: `initialize` and `cloneFrom` up to the point where they have
the pages of the bitmaps and of the privileges, or give back what they have taken. What they give back for
an allocation that failed is the address 0. -/

namespace SysuOs.PageTables.Memory

open Flags Kernel

variable {P : Type} [PagePool P]

/-- The pool `kernelVirtual`, whose pages have privileges of their own. -/
def kernelVirtual : VPool := ⟨false, VP_CLEAR⟩

/-- The bitmap of `kernelVirtual`, whose first page is `base`. -/
def kernelBits (base : Nat) (m : Memory P) : BitMap where
  bitmap pos := BitVec.ofBoolListLE ((List.range 8).map fun k => m.reserved (base + (8 * pos + k)))
  length := 2 ^ 20 - base

/-- `allocateVirtualPages` from the kernel pool. -/
def allocateVirtualPages (base : Nat) (m : Memory P) (count : Nat) : Option Nat :=
  ((m.kernelBits base).allocate count).1.map (base + ·)

/-- `allocatePages` from the kernel pools. -/
def allocateKernelPages (base : Nat) (m : Memory P) (count : Nat) : Outcome (Option Nat × Memory P) :=
  m.allocatePages .KERNEL kernelVirtual (m.allocateVirtualPages base count) count VP_RW

/-- `kernelVirtual.release`: the index of the page in the pool is taken modulo `2 ^ 20`. -/
def releaseKernelVirtual (base : Nat) (m : Memory P) (start count : Nat) : Memory P :=
  m.releaseVirtualPages kernelVirtual (base + (start + 2 ^ 20 - base) % 2 ^ 20) count

/-- `releasePages` to the kernel pools, where `none` is the address 0. -/
def releaseKernelPages (base : Nat) (m : Memory P) (start : Option Nat) (count : Nat) : Outcome (Memory P) := do
  let m ← releaseLoop .KERNEL count (start.getD 0) m
  return m.releaseKernelVirtual base (start.getD 0) count

/-- The lengths of the pools of a user address space. -/
structure PoolLengths where
  heap : Nat
  stack : Nat
  mmap : Nat
  TLS : Nat

/-- `totalBitmapBytes / PAGE_SIZE`. -/
def PoolLengths.bitmapPages (l : PoolLengths) : Nat :=
  ((l.heap + 7) / 8 + (l.stack + 7) / 8 + (l.TLS + 7) / 8 + (l.mmap + 7) / 8 + 4095) / 4096

/-- `totalPrivBytes / PAGE_SIZE`. -/
def PoolLengths.privPages (l : PoolLengths) : Nat := (l.TLS + l.mmap + 4095) / 4096

/-- The kernel pages for the bitmaps and for the privileges, or `none` where `false` is returned. -/
def tryAlloc (base : Nat) (m : Memory P) (l : PoolLengths) : Outcome (Option (Nat × Nat) × Memory P) := do
  let (bitmapStart, m) ← m.allocateKernelPages base l.bitmapPages
  let (privStart, m) ← m.allocateKernelPages base l.privPages
  match bitmapStart, privStart with
  | some bitmapStart, some privStart => return (some (bitmapStart, privStart), m)
  | _, _ => do
      let m ← m.releaseKernelPages base bitmapStart l.bitmapPages
      let m ← m.releaseKernelPages base privStart l.privPages
      return (none, m)

/-- `UserVAddressPool::initialize`. -/
def initializePools (base : Nat) (m : Memory P) (heapConf stackConf mmapConf TLSConf : Nat) :
    Outcome (Option (Nat × Nat) × Memory P) :=
  m.tryAlloc base ⟨heapConf, stackConf, mmapConf, TLSConf⟩

/-- `UserVAddressPool::cloneFrom`; a parent that is not initialized has no pools. -/
def cloneFrom (base : Nat) (m : Memory P) (parent : Option UserVAddressPool) :
    Outcome (Option (Nat × Nat) × Memory P) :=
  match parent with
  | none => return (none, m)
  | some parent => m.tryAlloc base
      ⟨parent.heapPool.length, parent.stackPool.length, parent.mmapPool.length, parent.TLSPool.length⟩

/-- A call of one of the two. -/
inductive PoolCall where
  | fresh (heapConf stackConf mmapConf TLSConf : Nat)
  | clone (parent : Option UserVAddressPool)

def PoolCall.run (base : Nat) (m : Memory P) : PoolCall → Outcome (Option (Nat × Nat) × Memory P)
  | .fresh heapConf stackConf mmapConf TLSConf => m.initializePools base heapConf stackConf mmapConf TLSConf
  | .clone parent => m.cloneFrom base parent

/-- The lengths of the pools that a call allocates for. -/
def PoolCall.lengths : PoolCall → Option PoolLengths
  | .fresh heapConf stackConf mmapConf TLSConf => some ⟨heapConf, stackConf, mmapConf, TLSConf⟩
  | .clone parent => parent.map fun parent =>
      ⟨parent.heapPool.length, parent.stackPool.length, parent.mmapPool.length, parent.TLSPool.length⟩

/-! ### What the two calls rest on -/

/-- A page of `kernelVirtual`. -/
def InPool (base n : Nat) : Prop := base ≤ n ∧ n < 2 ^ 20

/-- The page tables of the pages of the pool, as the boot sets them up: there, apart and never released. -/
structure PoolTables (base : Nat) (s : Space) : Prop where
  tables : ∀ n, InPool base n → ∃ f, s.pde (n / 1024) = some ⟨f, 7⟩
  apart : ∀ n k e e', InPool base n → InPool base k → s.pde (n / 1024) = some e → s.pde (k / 1024) = some e' →
    e.frame = e'.frame → n / 1024 = k / 1024

/-- No page below `bound` has its entry where a page of the pool has it. -/
def LowApart (base bound : Nat) (s : Space) : Prop :=
  ∀ n k e e', n < bound → InPool base k → s.pde (n / 1024) = some e → s.pde (k / 1024) = some e' →
    e.frame = e'.frame → n % 1024 ≠ k % 1024

/-- A state in which `kernelVirtual` can be used: no reverse mapping is of a free page, and the free pages
of the pool have no privilege. -/
structure KernelSpace (base bound : Nat) (m : Memory P) : Prop extends PoolTables base m.toSpace where
  base_pos : 0 < base
  base_lt : base < 2 ^ 20
  low : LowApart base bound m.toSpace
  records : ∀ r, r ∈ m.rmap → ¬PagePool.free m.kernelPhysical r.1
  cleared : ∀ n, InPool base n → m.reserved n = false → m.privilege n = VP_CLEAR
  entries : m.rmap.card ≤ m.rmapNodes

/-- How many of `count` pages a pool hands out one after the other. -/
def supply : Nat → P → Nat
  | 0, _ => 0
  | count + 1, p =>
      match PagePool.allocate p with
      | none => 0
      | some (_, q) => supply count q + 1

/-- `RMapManager` has an entry for each page that the call will map. -/
def Room (base : Nat) (m : Memory P) (count : Nat) : Prop :=
  m.allocateVirtualPages base count ≠ none → m.rmap.card + supply count m.kernelPhysical ≤ m.rmapNodes

/-- Page `n` is not mapped. -/
def Absent (m : Memory P) (n : Nat) : Prop := hasFlag (m.entry n) PTE_PRESENT = false

/-- Nothing differs in the two pools, in the reverse mappings and in what `kernelVirtual` keeps. -/
structure Unchanged (base : Nat) (m m' : Memory P) : Prop where
  userPhysical : ∀ x, PagePool.free m'.userPhysical x ↔ PagePool.free m.userPhysical x
  kernelPhysical : ∀ x, PagePool.free m'.kernelPhysical x ↔ PagePool.free m.kernelPhysical x
  reserved : ∀ n, InPool base n → m'.reserved n = m.reserved n
  privilege : ∀ n, InPool base n → m'.privilege n = m.privilege n
  rmap : m'.rmap = m.rmap

/-- One of the two allocations returns 0. -/
def Fails (base : Nat) (m : Memory P) (l : PoolLengths) : Prop :=
  (∃ m₁, m.allocateKernelPages base l.bitmapPages = .ret (none, m₁)) ∨
    ∃ start m₁ m₂, m.allocateKernelPages base l.bitmapPages = .ret (some start, m₁) ∧
      m₁.allocateKernelPages base l.privPages = .ret (none, m₂)

/-- For an allocation that fails, no page from the address 0 on is mapped, as many as it was to get; and the
second allocation finds an entry for each reverse mapping. -/
def Harmless (base : Nat) (m : Memory P) (l : PoolLengths) : Prop :=
  ∀ start m₁, m.allocateKernelPages base l.bitmapPages = .ret (start, m₁) →
    m₁.Room base l.privPages ∧ (start = none → ∀ n, n < l.bitmapPages → m.Absent n) ∧
      ∀ m₂, m₁.allocateKernelPages base l.privPages = .ret (none, m₂) → ∀ n, n < l.privPages → m.Absent n

/-! ### One entry is written -/

section Write

variable {s s' : Space} {n k f : Nat} {e : Pde} {w : Word}

/-- The entry of page `n` is written, and no directory entry. -/
structure Writes (n : Nat) (w : Word) (s s' : Space) : Prop where
  pde : s'.pde = s.pde
  mem : ∀ e, s.pde (n / 1024) = some e →
    s'.mem = Function.update s.mem e.frame (Function.update (s.mem e.frame) (n % 1024) w)

theorem Writes.self (h : Writes n w s s') (hpde : s.pde (n / 1024) = some e) : s'.entry n = w := by
  rw [Space.entry, h.pde, hpde]
  dsimp only
  rw [h.mem e hpde, Function.update_self, Function.update_self]

theorem Writes.other (h : Writes n w s s') (hpde : s.pde (n / 1024) = some e)
    (hapart : ∀ e', s.pde (k / 1024) = some e' → e'.frame = e.frame → k % 1024 ≠ n % 1024) :
    s'.entry k = s.entry k := by
  rw [Space.entry, Space.entry, h.pde]
  cases hk : s.pde (k / 1024) with
  | none => rfl
  | some e' =>
      dsimp only
      rw [h.mem e hpde]
      by_cases hframe : e'.frame = e.frame
      · rw [hframe, Function.update_self, Function.update_of_ne (hapart e' hk hframe)]
      · rw [Function.update_of_ne hframe]

/-- A page has the entry of page `n` or keeps its own. -/
theorem Writes.cases (h : Writes n w s s') (hpde : s.pde (n / 1024) = some e) (k : Nat) :
    s'.entry k = s.entry k ∨ (s.entry k = s.entry n ∧ s'.entry k = w) := by
  by_cases hplace : ∃ e', s.pde (k / 1024) = some e' ∧ e'.frame = e.frame ∧ k % 1024 = n % 1024
  · obtain ⟨e', hk, hframe, hmod⟩ := hplace
    refine Or.inr ⟨?_, ?_⟩
    · rw [Space.entry, Space.entry, hk, hpde]
      dsimp only
      rw [hframe, hmod]
    · rw [Space.entry, h.pde, hk]
      dsimp only
      rw [h.mem e hpde, hframe, hmod, Function.update_self, Function.update_self]
  · refine Or.inl (h.other hpde fun e' hk hframe hmod => hplace ⟨e', hk, hframe, hmod⟩)

theorem Writes.setPte (s : Space) (n : Nat) (w : Word) : Writes n w s (s.setPte n w) where
  pde := Space.setPte_pde s n w
  mem e hpde := by rw [Space.setPte_eq hpde]

theorem Writes.mapPage (hpde : s.pde (n / 1024) = some ⟨f, 7⟩) (w : Word) : Writes n w s (s.mapPage n w) where
  pde := by
    rw [Space.mapPage_eq hpde]
    change Function.update s.pde (n / 1024) (some ⟨f, 7⟩) = s.pde
    rw [← hpde]
    exact Function.update_eq_self _ _
  mem e he := by
    obtain rfl := Option.some.inj (hpde.symm.trans he)
    rw [Space.mapPage_eq hpde]

/-- Two pages of the pool do not share an entry. -/
theorem PoolTables.other {base : Nat} (htables : PoolTables base s) (hn : InPool base n) (hk : InPool base k)
    (hne : k ≠ n) (h : Writes n w s s') : s'.entry k = s.entry k := by
  obtain ⟨f, hpde⟩ := htables.tables n hn
  refine h.other hpde fun e' he' hframe hmod => hne ?_
  have hdiv := htables.apart k n e' _ hk hn he' hpde hframe
  omega

theorem PoolTables.congr {base : Nat} (htables : PoolTables base s)
    (hpde : ∀ n, InPool base n → s'.pde (n / 1024) = s.pde (n / 1024)) : PoolTables base s' where
  tables n hn := by
    rw [hpde n hn]
    exact htables.tables n hn
  apart n k e e' hn hk he he' := by
    rw [hpde n hn] at he
    rw [hpde k hk] at he'
    exact htables.apart n k e e' hn hk he he'

end Write

/-! ### One page -/

section Page

variable {base bound n k x f : Nat} {m m' : Memory P} {p : P} {e : Pde}

/-- What `releasePages` does to a page: at most its entry and its directory entry change, and a reverse
mapping is detached if the page is mapped. -/
structure Releases (n : Nat) (m m' : Memory P) : Prop where
  pde : ∀ i, i ≠ n / 1024 → m'.pde i = m.pde i
  skips : m.pde (n / 1024) = none → m' = m
  kept : ∀ e, m.pde (n / 1024) = some e → e.count = 7 ∨ m.Absent n → m'.pde = m.pde
  frame : ∀ e', m'.pde (n / 1024) = some e' → ∃ e, m.pde (n / 1024) = some e ∧ e.frame = e'.frame
  mem : ∀ e, m.pde (n / 1024) = some e →
    m'.mem = Function.update m.mem e.frame (Function.update (m.mem e.frame) (n % 1024) 0#32)
  card : m'.rmap.card + (if hasFlag (m.entry n) PTE_PRESENT then 1 else 0) = m.rmap.card

theorem releasePage_releases {type : AddressPoolType} (h : m.releasePage type n = .ret m') :
    Releases n m m' := by
  rw [releasePage] at h
  cases hpde : m.pde (n / 1024) with
  | none =>
      rw [hpde] at h
      obtain rfl := Outcome.ret.inj h
      refine ⟨fun _ _ => rfl, fun _ => rfl, fun _ _ _ => rfl, fun e' he' => ?_, fun e' he' => ?_, ?_⟩
      · rw [hpde] at he'
        cases he'
      · rw [hpde] at he'
        cases he'
      · rw [Space.entry_none hpde]
        rfl
  | some e =>
      rw [hpde] at h
      dsimp only at h
      cases hpresent : hasFlag (m.entry n) PTE_PRESENT with
      | false =>
          rw [hpresent] at h
          obtain rfl := Outcome.ret.inj h
          have hsame : (m.withSpace (m.toSpace.setPte n 0#32)).pde = m.pde := Space.setPte_pde _ _ _
          refine ⟨fun _ _ => by rw [hsame], fun hnone => ?_, fun _ _ _ => hsame, fun e' he' => ?_,
            (Writes.setPte m.toSpace n 0#32).mem, ?_⟩
          · rw [hpde] at hnone
            cases hnone
          · rw [hsame] at he'
            exact ⟨e', he', rfl⟩
          · rw [if_neg (Bool.eq_false_iff.mp hpresent)]
            rfl
      | true =>
          have hsome : m.pde (n / 1024) ≠ none := by
            rw [hpde]
            exact Option.some_ne_none e
          have habsent : ¬m.Absent n := by
            rw [Absent, hpresent]
            exact fun hnot => Bool.false_ne_true hnot.symm
          rw [hpresent, Bool.not_true, if_neg Bool.false_ne_true] at h
          by_cases hin : m.place n (frameOf (m.entry n)) ∈ m.rmap
          · rw [detach, if_pos hin] at h
            obtain ⟨-, -, h⟩ := Outcome.bind_eq_ret h
            dsimp only at h
            generalize hm₂ : (if refs { m with rmap := m.rmap.erase (m.place n (frameOf (m.entry n))) }
                (frameOf (m.entry n)) = 0 then
              { m with rmap := m.rmap.erase (m.place n (frameOf (m.entry n))) }.releasePhysicalPages type
                (frameOf (m.entry n))
              else { m with rmap := m.rmap.erase (m.place n (frameOf (m.entry n))) }) = m₂ at h
            have hspace : m₂.toSpace = m.toSpace := by
              rw [← hm₂]
              split
              · exact setPool_space _ type _
              · rfl
            have hrmap : m₂.rmap = m.rmap.erase (m.place n (frameOf (m.entry n))) := by
              rw [← hm₂]
              split
              · exact setPool_rmap _ type _
              · rfl
            have hcard : m₂.rmap.card + 1 = m.rmap.card := by
              rw [hrmap]
              exact Multiset.card_erase_add_one hin
            obtain ⟨⟨empty, s⟩, hdec, h⟩ := Outcome.bind_eq_ret h
            rw [hspace] at hdec
            have hpde' : (m.toSpace.setPte n 0#32).pde (n / 1024) = some e := by rw [Space.setPte_pde, hpde]
            have hpos : 0 < e.count := by
              rw [Space.pdeDec, hpde'] at hdec
              obtain ⟨_, hassert, _⟩ := Outcome.bind_eq_ret hdec
              by_contra hnot
              rw [Outcome.ASSERT_neg hnot] at hassert
              cases hassert
            have hwrites := Writes.setPte m.toSpace n 0#32
            rw [Space.pdeDec_eq hpde' hpos] at hdec
            by_cases hseven : e.count = 7
            · rw [if_pos hseven] at hdec
              obtain ⟨rfl, rfl⟩ := Prod.mk.inj (Outcome.ret.inj hdec)
              obtain rfl := Outcome.ret.inj h
              refine ⟨fun i _ => congrFun hwrites.pde i, fun hnone => absurd hnone hsome,
                fun _ _ _ => hwrites.pde, fun e' he' => ?_, hwrites.mem, ?_⟩
              · exact ⟨e, hpde, by rw [Option.some.inj (hpde'.symm.trans he')]⟩
              · rw [if_pos hpresent]
                exact hcard
            · rw [if_neg hseven] at hdec
              obtain ⟨rfl, rfl⟩ := Prod.mk.inj (Outcome.ret.inj hdec)
              have hother : ∀ i, i ≠ n / 1024 →
                  Function.update (m.toSpace.setPte n 0#32).pde (n / 1024)
                    (some { e with count := e.count - 1 }) i =
                    m.pde i := fun i hi => (Function.update_of_ne hi _ _).trans (congrFun hwrites.pde i)
              cases hempty : decide (e.count - 1 = 0) with
              | true =>
                  rw [hempty] at h
                  obtain rfl := Outcome.ret.inj h
                  refine ⟨fun i hi => (Function.update_of_ne hi _ _).trans (hother i hi),
                    fun hnone => absurd hnone hsome, fun e' he' h7 => ?_, fun e' he' => ?_, hwrites.mem, ?_⟩
                  · rw [Option.some.inj (hpde.symm.trans he')] at hseven
                    exact absurd (h7.resolve_right habsent) hseven
                  · have hnone : (none : Option Pde) = some e' :=
                      (Function.update_self (n / 1024) _ _).symm.trans he'
                    cases hnone
                  · rw [if_pos hpresent]
                    exact hcard
              | false =>
                  rw [hempty] at h
                  obtain rfl := Outcome.ret.inj h
                  refine ⟨hother, fun hnone => absurd hnone hsome, fun e' he' h7 => ?_, fun e' he' => ?_,
                    hwrites.mem, ?_⟩
                  · rw [Option.some.inj (hpde.symm.trans he')] at hseven
                    exact absurd (h7.resolve_right habsent) hseven
                  · have hsome : some { e with count := e.count - 1 } = some e' :=
                      (Function.update_self (n / 1024) _ _).symm.trans he'
                    exact ⟨e, hpde, by rw [← Option.some.inj hsome]⟩
                  · rw [if_pos hpresent]
                    exact hcard
          · rw [detach, if_neg hin] at h
            obtain ⟨_, hassert, _⟩ := Outcome.bind_eq_ret h
            cases hassert

/-- A page of the pool is mapped, or there is no page for it. -/
theorem allocatePage_eq (htables : PoolTables base m.toSpace) (hn : InPool base n) :
    match PagePool.allocate m.kernelPhysical with
    | none => m.allocatePage .KERNEL kernelVirtual n = .ret (false, m)
    | some (x, p) => x < 2 ^ 20 ∧ ∃ w m', frameOf w = x ∧ hasFlag w PTE_PRESENT = true ∧
        Writes n w m.toSpace m'.toSpace ∧ m'.reserved = m.reserved ∧ m'.privilege = m.privilege ∧
        m'.pool = (m.setPool .KERNEL p).pool ∧
        m'.rmap = m.place n x ::ₘ m.rmap ∧ m'.rmapNodes = m.rmapNodes ∧
        m.allocatePage .KERNEL kernelVirtual n =
          if m.rmap.card < m.rmapNodes then .ret (true, m') else .halt := by
  obtain ⟨f, hpde⟩ := htables.tables n hn
  cases halloc : PagePool.allocate m.kernelPhysical with
  | none =>
      have hpages : m.allocatePhysicalPages .KERNEL = (none, m) := by
        rw [allocatePhysicalPages, pool, halloc]
      dsimp only
      rw [allocatePage, hpages]
      rfl
  | some xp =>
      obtain ⟨x, p⟩ := xp
      have hx := (PagePool.bound _ _ (PagePool.allocate_free _ _ _ halloc).1).2
      have hpages : m.allocatePhysicalPages .KERNEL = (some x, m.setPool .KERNEL p) := by
        rw [allocatePhysicalPages, pool, halloc]
      have hneed : (m.setPool .KERNEL p).needTable .KERNEL n = (true, m.setPool .KERNEL p) := by
        rw [needTable, setPool_space, hpde]
      obtain ⟨hframe, hpresent⟩ :=
        frameOf_processEntry hx ((m.setPool .KERNEL p).getVPageFlag kernelVirtual n)
      generalize hw : Elf.processEntry (x * 4096) ((m.setPool .KERNEL p).getVPageFlag kernelVirtual n) = w
        at hframe hpresent
      have hwrites : Writes n w m.toSpace (m.toSpace.mapPage n w) := Writes.mapPage hpde w
      have hplace : ((m.setPool .KERNEL p).withSpace (m.toSpace.mapPage n w)).place n x = m.place n x :=
        place_congr (congrArg (Option.map Pde.frame) (congrFun hwrites.pde (n / 1024))) x
      refine ⟨hx, w, { (m.setPool .KERNEL p).withSpace (m.toSpace.mapPage n w) with
        rmap := m.place n x ::ₘ m.rmap }, hframe, hpresent, hwrites, ?_, rfl, rfl, rfl, rfl, ?_⟩
      · change (m.toSpace.mapPage n w).reserved = m.reserved
        rw [Space.mapPage_eq hpde]
      · have hconnect : m.allocatePage .KERNEL kernelVirtual n = (do
            let r := ((m.setPool .KERNEL p).withSpace (m.toSpace.mapPage n w)).attach (m.place n x)
            Outcome.ASSERT (r.1 = true)
            return (true, r.2)) := by
          rw [allocatePage, hpages]
          dsimp only
          rw [connectPhysicalVirtualPage, hneed]
          dsimp only
          rw [hw, setPool_space, hplace]
        rw [hconnect]
        by_cases hroom : m.rmap.card < m.rmapNodes
        · have hattach : ((m.setPool .KERNEL p).withSpace (m.toSpace.mapPage n w)).attach (m.place n x) =
              (true, _) := if_pos hroom
          rw [hattach, if_pos hroom]
          rfl
        · have hattach : ((m.setPool .KERNEL p).withSpace (m.toSpace.mapPage n w)).attach (m.place n x) =
              (false, _) := if_neg hroom
          rw [hattach, if_neg hroom]
          rfl

end Page

/-! ### What the two allocations hold -/

/-- The pages `V` of the pool are reserved since the first state and the pages `L` among them mapped. -/
structure Holds (base bound : Nat) (m₀ m : Memory P) (role : Roles) (V L : Finset Nat) : Prop
    extends Books m₀ m role where
  pde : m.pde = m₀.pde
  within : ∀ n, n ∈ V → InPool base n
  unused : ∀ n, n ∈ V → m₀.reserved n = false
  subset : L ⊆ V
  page : ∀ type x item, role type x = some item →
    ∃ n, n ∈ L ∧ item = .page n ∧ type = .KERNEL ∧ frameOf (m.entry n) = x
  mapped : ∀ n, n ∈ L → role .KERNEL (frameOf (m.entry n)) = some (.page n) ∧
    hasFlag (m.entry n) PTE_PRESENT = true
  rmap : m.rmap = L.val.map (fun n => m.place n (frameOf (m.entry n))) + m₀.rmap
  reserved : ∀ n, InPool base n → m.reserved n = (m₀.reserved n || decide (n ∈ V))
  privilege : ∀ n, InPool base n → n ∉ V → m.privilege n = m₀.privilege n
  low : ∀ n, n < bound → hasFlag (m.entry n) PTE_PRESENT = hasFlag (m₀.entry n) PTE_PRESENT
  entries : m.rmap.card ≤ m.rmapNodes

section Holds

variable {base bound n : Nat} {m₀ m m' : Memory P} {role : Roles} {V L : Finset Nat} {w : Word}

theorem Holds.refl (hspace : KernelSpace base bound m) : Holds base bound m m (fun _ _ => none) ∅ ∅ where
  toBooks := Books.refl m
  pde := rfl
  within _ hn := absurd hn (Finset.notMem_empty _)
  unused _ hn := absurd hn (Finset.notMem_empty _)
  subset := Finset.Subset.refl _
  page _ _ _ h := nomatch h
  mapped _ hn := absurd hn (Finset.notMem_empty _)
  rmap := (zero_add m.rmap).symm
  reserved n _ := by simp
  privilege _ _ _ := rfl
  low _ _ := rfl
  entries := hspace.entries

theorem Holds.tables (hspace : KernelSpace base bound m₀) (h : Holds base bound m₀ m role V L) :
    PoolTables base m.toSpace := hspace.toPoolTables.congr fun n _ => congrFun h.pde (n / 1024)

/-- The entry of a page of the pool is written: the entries of the other pages of the pool and below `bound`
stay. -/
theorem Holds.written (hspace : KernelSpace base bound m₀) (h : Holds base bound m₀ m role V L)
    (hn : InPool base n) (hwrites : Writes n w m.toSpace m'.toSpace) :
    (∀ k, InPool base k → k ≠ n → m'.entry k = m.entry k) ∧ (∀ k, k < bound → m'.entry k = m.entry k) ∧
      ∀ k x, m'.place k x = m.place k x := by
  obtain ⟨f, hpde⟩ := (h.tables hspace).tables n hn
  refine ⟨fun k hk hkn => (h.tables hspace).other hn hk hkn hwrites, fun k hk => ?_, fun k x => ?_⟩
  · refine hwrites.other hpde fun e' he' hframe => ?_
    rw [h.pde] at he' hpde
    exact hspace.low k n e' _ hk hn he' hpde hframe
  · exact place_congr (congrArg (Option.map Pde.frame) (congrFun hwrites.pde (k / 1024))) x

/-- A page that is reserved gets a frame. -/
theorem Holds.map (hspace : KernelSpace base bound m₀) (h : Holds base bound m₀ m role V L) (hnV : n ∈ V)
    (hnL : n ∉ L) {x : Nat} {p : P} (halloc : PagePool.allocate m.kernelPhysical = some (x, p))
    (hframe : frameOf w = x) (hpresent : hasFlag w PTE_PRESENT = true)
    (hwrites : Writes n w m.toSpace m'.toSpace) (hreserved : m'.reserved = m.reserved)
    (hprivilege : m'.privilege = m.privilege) (hpool : m'.pool = (m.setPool .KERNEL p).pool)
    (hrmap : m'.rmap = m.place n x ::ₘ m.rmap) (hroom : m'.rmap.card ≤ m'.rmapNodes) :
    Holds base bound m₀ m' (role.set .KERNEL x (some (.page n))) V (insert n L) := by
  have hn := h.within n hnV
  obtain ⟨f, hpde⟩ := (h.tables hspace).tables n hn
  obtain ⟨hother, hlow, hplace⟩ := h.written hspace hn hwrites
  have hself : m'.entry n = w := hwrites.self hpde
  have halloc' : PagePool.allocate (m.pool .KERNEL) = some (x, p) := halloc
  obtain ⟨hbooks, hnone⟩ := h.toBooks.take halloc' (.page n)
  have hpages : ∀ k, k ∈ L → m'.entry k = m.entry k := by
    intro k hk
    refine hother k (h.within k (h.subset hk)) ?_
    rintro rfl
    exact hnL hk
  refine
    { toBooks := hbooks.congr hpool
      pde := hwrites.pde.trans h.pde
      within := h.within
      unused := h.unused
      subset := Finset.insert_subset hnV h.subset
      page := fun type y item hy => ?_
      mapped := fun k hk => ?_
      rmap := ?_
      reserved := fun k hk => by rw [hreserved, h.reserved k hk]
      privilege := fun k hk hkV => by rw [hprivilege, h.privilege k hk hkV]
      low := fun k hk => by rw [hlow k hk, h.low k hk]
      entries := hroom }
  · by_cases heq : type = .KERNEL ∧ y = x
    · obtain ⟨rfl, rfl⟩ := heq
      rw [Roles.set_self] at hy
      exact ⟨n, Finset.mem_insert_self n L, (Option.some.inj hy).symm, rfl, by rw [hself, hframe]⟩
    · rw [Roles.set_of_ne heq] at hy
      obtain ⟨k, hk, hitem, htype, hx⟩ := h.page type y item hy
      exact ⟨k, Finset.mem_insert_of_mem hk, hitem, htype, by rw [hpages k hk, hx]⟩
  · rcases Finset.mem_insert.mp hk with rfl | hk
    · rw [hself, hframe, Roles.set_self]
      exact ⟨rfl, hpresent⟩
    · obtain ⟨hrole, hk'⟩ := h.mapped k hk
      rw [hpages k hk, Roles.set_of_ne]
      · exact ⟨hrole, hk'⟩
      · rintro ⟨-, heq⟩
        rw [heq, hnone] at hrole
        cases hrole
  · rw [hrmap, h.rmap, Finset.insert_val_of_notMem hnL, Multiset.map_cons, Multiset.cons_add, hself, hframe,
      hplace]
    congr 2
    refine Multiset.map_congr rfl fun k hk => ?_
    rw [hplace, hpages k hk]

/-- A page that is mapped gives its frame back. -/
theorem Holds.releasePage (hspace : KernelSpace base bound m₀) (h : Holds base bound m₀ m role V L)
    (hnL : n ∈ L) :
    ∃ m' role', m.releasePage .KERNEL n = .ret m' ∧ Holds base bound m₀ m' role' V (L.erase n) := by
  have hn := h.within n (h.subset hnL)
  obtain ⟨f, hpde⟩ := (h.tables hspace).tables n hn
  obtain ⟨hrole, hpresent⟩ := h.mapped n hnL
  obtain ⟨hin, hrefs⟩ := attached_of L.nodup h.rmap (Finset.mem_val.mpr hnL)
    (fun k hk heq => by
      have hpage := (h.mapped k (Finset.mem_val.mp hk)).1
      rw [heq, hrole] at hpage
      cases hpage
      rfl)
    (fun r hr heq => by
      refine hspace.records r hr ?_
      rw [heq]
      exact h.was .KERNEL _ (by rw [hrole]; exact Option.some_ne_none _))
  have htaken : role .KERNEL (frameOf (m.entry n)) ≠ none := by
    rw [hrole]
    exact Option.some_ne_none _
  have hwrites : Writes n 0#32 m.toSpace (m.withSpace (m.toSpace.setPte n 0#32)).toSpace :=
    Writes.setPte m.toSpace n 0#32
  obtain ⟨hother, hlow, hplace⟩ := h.written hspace hn hwrites
  have hcall : m.releasePage .KERNEL n = .ret (({ m with
      rmap := m.rmap.erase (m.place n (frameOf (m.entry n))) }.releasePhysicalPages .KERNEL
        (frameOf (m.entry n))).withSpace (m.toSpace.setPte n 0#32)) := by
    have hpde' : (m.toSpace.setPte n 0#32).pde (n / 1024) = some ⟨f, 7⟩ := by rw [Space.setPte_pde, hpde]
    rw [releasePage_eq hpde hpresent hin hrefs, Space.pdeDec_eq hpde' (Nat.succ_pos 6), if_pos rfl]
    rfl
  have hback := h.toBooks.giveBack htaken
  have hpages : ∀ k, k ∈ L.erase n → (m.withSpace (m.toSpace.setPte n 0#32)).entry k = m.entry k := by
    intro k hk
    obtain ⟨hkn, hkL⟩ := Finset.mem_erase.mp hk
    exact hother k (h.within k (h.subset hkL)) hkn
  refine ⟨_, role.set .KERNEL (frameOf (m.entry n)) none, hcall,
    { toBooks := hback.congr rfl
      pde := hwrites.pde.trans h.pde
      within := h.within
      unused := h.unused
      subset := (Finset.erase_subset n L).trans h.subset
      page := fun type y item hy => ?_
      mapped := fun k hk => ?_
      rmap := ?_
      reserved := fun k hk => ?_
      privilege := fun k hk hkV => h.privilege k hk hkV
      low := fun k hk => (congrArg (hasFlag · PTE_PRESENT) (hlow k hk)).trans (h.low k hk)
      entries := (Multiset.card_le_card (Multiset.erase_le _ _)).trans h.entries }⟩
  · by_cases heq : type = .KERNEL ∧ y = frameOf (m.entry n)
    · rw [heq.1, heq.2, Roles.set_self] at hy
      cases hy
    · rw [Roles.set_of_ne heq] at hy
      obtain ⟨k, hk, hitem, htype, hx⟩ := h.page type y item hy
      have hkn : k ≠ n := by
        rintro rfl
        exact heq ⟨htype, hx.symm⟩
      have hk' := Finset.mem_erase.mpr ⟨hkn, hk⟩
      exact ⟨k, hk', hitem, htype, (congrArg frameOf (hpages k hk')).trans hx⟩
  · obtain ⟨hkn, hkL⟩ := Finset.mem_erase.mp hk
    obtain ⟨hrole', hk'⟩ := h.mapped k hkL
    have hentry : ((({ m with rmap := m.rmap.erase (m.place n (frameOf (m.entry n))) }.releasePhysicalPages .KERNEL
        (frameOf (m.entry n))).withSpace (m.toSpace.setPte n 0#32))).entry k = m.entry k := hpages k hk
    rw [hentry, Roles.set_of_ne]
    · exact ⟨hrole', hk'⟩
    · rintro ⟨-, heq⟩
      rw [heq, hrole] at hrole'
      cases hrole'
      exact hkn rfl
  · change m.rmap.erase (m.place n (frameOf (m.entry n))) = _
    have hval : L.val = n ::ₘ (L.erase n).val := by
      rw [Finset.erase_val]
      exact (Multiset.cons_erase (Finset.mem_val.mpr hnL)).symm
    rw [h.rmap, hval, Multiset.map_cons, Multiset.cons_add, Multiset.erase_cons_head]
    congr 1
    refine Multiset.map_congr rfl fun k hk => ?_
    have hentry := hpages k (Finset.mem_val.mp hk)
    exact (congrArg (fun w => m.place k (frameOf w)) hentry).symm.trans (hplace k _).symm
  · change (m.toSpace.setPte n 0#32).reserved k = _
    rw [Space.setPte_reserved]
    exact h.reserved k hk

/-- Pages that are free become reserved. -/
theorem Holds.reserve (start count : Nat) (h : Holds base bound m₀ m role V L) (flag : Byte)
    (hfree : ∀ n, start ≤ n → n < start + count → InPool base n ∧ m₀.reserved n = false) :
    Holds base bound m₀ (m.setVirtualPages kernelVirtual start count true flag) role
      (V ∪ Finset.Ico start (start + count)) L where
  toBooks := h.toBooks.congr rfl
  pde := h.pde
  within n hn := by
    rcases Finset.mem_union.mp hn with hn | hn
    · exact h.within n hn
    · rw [Finset.mem_Ico] at hn
      exact (hfree n hn.1 hn.2).1
  unused n hn := by
    rcases Finset.mem_union.mp hn with hn | hn
    · exact h.unused n hn
    · rw [Finset.mem_Ico] at hn
      exact (hfree n hn.1 hn.2).2
  subset := h.subset.trans Finset.subset_union_left
  page := h.page
  mapped := h.mapped
  rmap := h.rmap
  reserved n hn := by
    change (if start ≤ n ∧ n < start + count then true else m.reserved n) = _
    by_cases hin : start ≤ n ∧ n < start + count
    · simp [hin]
    · rw [if_neg hin, h.reserved n hn]
      congr 1
      simp [hin]
  privilege n hn hnV := by
    rw [Finset.mem_union, not_or, Finset.mem_Ico] at hnV
    change (if !false && start ≤ n && n < start + count then flag else m.privilege n) = _
    rw [if_neg (by simpa using hnV.2)]
    exact h.privilege n hn hnV.1
  low := h.low
  entries := h.entries

/-- Pages that are reserved and not mapped become free. -/
theorem Holds.unreserve (start count : Nat) (hspace : KernelSpace base bound m₀)
    (h : Holds base bound m₀ m role V L) (hdisj : ∀ n, start ≤ n → n < start + count → n ∉ L)
    (hV : ∀ n, start ≤ n → n < start + count → InPool base n → n ∈ V) :
    Holds base bound m₀ (m.releaseVirtualPages kernelVirtual start count) role
      (V \ Finset.Ico start (start + count)) L where
  toBooks := h.toBooks.congr rfl
  pde := h.pde
  within n hn := h.within n (Finset.sdiff_subset hn)
  unused n hn := h.unused n (Finset.sdiff_subset hn)
  subset n hn := by
    rw [Finset.mem_sdiff, Finset.mem_Ico]
    exact ⟨h.subset hn, fun hin => hdisj n hin.1 hin.2 hn⟩
  page := h.page
  mapped := h.mapped
  rmap := h.rmap
  reserved n hn := by
    change (if start ≤ n ∧ n < start + count then false else m.reserved n) = _
    by_cases hin : start ≤ n ∧ n < start + count
    · have hunused := h.unused n (hV n hin.1 hin.2 hn)
      simp [hin, hunused]
    · rw [if_neg hin, h.reserved n hn]
      congr 1
      simp [hin]
  privilege n hn hnV := by
    change (if !false && start ≤ n && n < start + count then VP_CLEAR else m.privilege n) = _
    by_cases hin : start ≤ n ∧ n < start + count
    · rw [if_pos (by simpa using hin)]
      exact (hspace.cleared n hn (h.unused n (hV n hin.1 hin.2 hn))).symm
    · rw [if_neg (by simpa using hin)]
      rw [Finset.mem_sdiff, Finset.mem_Ico] at hnV
      exact h.privilege n hn fun hmem => hnV ⟨hmem, hin⟩
  low := h.low
  entries := h.entries

/-- `releasePages` comes to a page below `bound` that is not mapped. -/
theorem Holds.clear (hspace : KernelSpace base bound m₀) (h : Holds base bound m₀ m role V L) (hn : n < bound)
    (habsent : m₀.Absent n) :
    ∃ m', m.releasePage .KERNEL n = .ret m' ∧ Holds base bound m₀ m' role V L := by
  have habsent' : hasFlag (m.entry n) PTE_PRESENT = false := (h.low n hn).trans habsent
  cases hpde : m.pde (n / 1024) with
  | none =>
      refine ⟨m, ?_, h⟩
      rw [Memory.releasePage, hpde]
      rfl
  | some e =>
      have hwrites : Writes n 0#32 m.toSpace (m.withSpace (m.toSpace.setPte n 0#32)).toSpace :=
        Writes.setPte m.toSpace n 0#32
      have hpages : ∀ k, InPool base k → (m.withSpace (m.toSpace.setPte n 0#32)).entry k = m.entry k := by
        intro k hk
        refine hwrites.other hpde fun e' he' hframe hmod => ?_
        rw [h.pde] at he' hpde
        exact hspace.low n k e e' hn hk hpde he' hframe.symm hmod.symm
      have hplace : ∀ k x, (m.withSpace (m.toSpace.setPte n 0#32)).place k x = m.place k x := fun k x =>
        place_congr (congrArg (Option.map Pde.frame) (congrFun hwrites.pde (k / 1024))) x
      refine ⟨m.withSpace (m.toSpace.setPte n 0#32), ?_,
        { toBooks := h.toBooks.congr rfl
          pde := hwrites.pde.trans h.pde
          within := h.within
          unused := h.unused
          subset := h.subset
          page := fun type y item hy => ?_
          mapped := fun k hk => ?_
          rmap := ?_
          reserved := fun k hk => ?_
          privilege := h.privilege
          low := fun k hk => ?_
          entries := h.entries }⟩
      · rw [Memory.releasePage, hpde]
        dsimp only
        rw [habsent']
        rfl
      · obtain ⟨k, hk, hitem, htype, hx⟩ := h.page type y item hy
        exact ⟨k, hk, hitem, htype, by rw [hpages k (h.within k (h.subset hk)), hx]⟩
      · rw [hpages k (h.within k (h.subset hk))]
        exact h.mapped k hk
      · refine h.rmap.trans (congrArg (· + m₀.rmap) (Multiset.map_congr rfl fun k hk => ?_))
        rw [hplace, hpages k (h.within k (h.subset (Finset.mem_val.mp hk)))]
      · rw [← h.reserved k hk]
        exact congrFun (Space.setPte_reserved m.toSpace n 0#32) k
      · rcases hwrites.cases hpde k with hsame | ⟨hsame, hzero⟩
        · rw [hsame]
          exact h.low k hk
        · rw [hzero, ← h.low k hk, hsame, habsent']
          rfl

/-- `releasePages` comes to pages that are mapped. -/
theorem Holds.releaseLoop (hspace : KernelSpace base bound m₀) {count : Nat}
    (h : Holds base bound m₀ m role V L) (hL : ∀ k, n ≤ k → k < n + count → k ∈ L) :
    ∃ m' role', Memory.releaseLoop .KERNEL count n m = .ret m' ∧
      Holds base bound m₀ m' role' V (L \ Finset.Ico n (n + count)) := by
  induction count generalizing n m role L with
  | zero =>
      rw [Nat.add_zero, Finset.Ico_self, Finset.sdiff_empty]
      exact ⟨m, role, rfl, h⟩
  | succ count ih =>
      obtain ⟨m₁, role₁, hpage, h₁⟩ := h.releasePage hspace (hL n (le_refl n) (by omega))
      obtain ⟨m₂, role₂, hloop, h₂⟩ := ih (n := n + 1) h₁ fun k hk hk' =>
        Finset.mem_erase.mpr ⟨by omega, hL k (by omega) (by omega)⟩
      have hrest : L.erase n \ Finset.Ico (n + 1) (n + 1 + count) = L \ Finset.Ico n (n + (count + 1)) := by
        ext k
        rw [Finset.mem_sdiff, Finset.mem_sdiff, Finset.mem_erase, Finset.mem_Ico, Finset.mem_Ico]
        constructor
        · rintro ⟨⟨hkn, hkL⟩, hout⟩
          exact ⟨hkL, by omega⟩
        · rintro ⟨hkL, hout⟩
          exact ⟨⟨by omega, hkL⟩, by omega⟩
      refine ⟨m₂, role₂, ?_, hrest ▸ h₂⟩
      rw [Memory.releaseLoop, hpage]
      exact hloop

/-- `releasePages` comes to pages below `bound` that are not mapped. -/
theorem Holds.clearLoop (hspace : KernelSpace base bound m₀) {count : Nat} (hbound : n + count ≤ bound)
    (h : Holds base bound m₀ m role V L) (habsent : ∀ k, n ≤ k → k < n + count → m₀.Absent k) :
    ∃ m', Memory.releaseLoop .KERNEL count n m = .ret m' ∧ Holds base bound m₀ m' role V L := by
  induction count generalizing n m with
  | zero => exact ⟨m, rfl, h⟩
  | succ count ih =>
      obtain ⟨m₁, hpage, h₁⟩ := h.clear hspace (by omega) (habsent n (le_refl n) (by omega))
      obtain ⟨m₂, hloop, h₂⟩ := ih (n := n + 1) (by omega) h₁ fun k hk hk' =>
        habsent k (by omega) (by omega)
      refine ⟨m₂, ?_, h₂⟩
      rw [Memory.releaseLoop, hpage]
      exact hloop

/-- The loop of `allocatePages` gets a frame for each page of its range, or leaves none of them; or it stops
at a page for which `RMapManager` has no entry. -/
theorem Holds.allocatePagesLoop (hspace : KernelSpace base bound m₀) {start count left : Nat} {L₀ : Finset Nat}
    (hleft : left ≤ count) (h : Holds base bound m₀ m role V (L₀ ∪ Finset.Ico start (start + (count - left))))
    (hV : Finset.Ico start (start + count) ⊆ V) (hout : ∀ n, start ≤ n → n < start + count → n ∉ L₀) :
    (m.rmap.card + supply left m.kernelPhysical ≤ m.rmapNodes →
      ∃ o m' role', Memory.allocatePagesLoop .KERNEL kernelVirtual start count left m = .ret (o, m') ∧
        ((o = some start ∧ Holds base bound m₀ m' role' V (L₀ ∪ Finset.Ico start (start + count))) ∨
          (o = none ∧ Holds base bound m₀ m' role' (V \ Finset.Ico start (start + count)) L₀))) ∧
      (m.rmapNodes < m.rmap.card + supply left m.kernelPhysical →
        ∀ res, Memory.allocatePagesLoop .KERNEL kernelVirtual start count left m ≠ .ret res) := by
  induction left generalizing m role with
  | zero =>
      exact ⟨fun _ => ⟨_, _, role, rfl, Or.inl ⟨rfl, h⟩⟩, fun hfull => absurd h.entries (not_le.mpr hfull)⟩
  | succ left ih =>
      have hmem : start + (count - (left + 1)) ∈ V := hV (Finset.mem_Ico.mpr ⟨by omega, by omega⟩)
      have hpage := allocatePage_eq (h.tables hspace) (h.within _ hmem)
      have hnL : start + (count - (left + 1)) ∉ L₀ ∪ Finset.Ico start (start + (count - (left + 1))) := by
        rw [Finset.mem_union, Finset.mem_Ico, not_or]
        exact ⟨hout _ (by omega) (by omega), by omega⟩
      cases halloc : PagePool.allocate m.kernelPhysical with
      | none =>
          rw [halloc] at hpage
          dsimp only at hpage
          have hsupply : supply (left + 1) m.kernelPhysical = 0 := by rw [supply, halloc]
          rw [hsupply]
          refine ⟨fun _ => ?_, fun hfull => absurd h.entries (not_le.mpr hfull)⟩
          obtain ⟨m₁, role₁, hloop, h₁⟩ := h.releaseLoop hspace fun k hk hk' =>
            Finset.mem_union_right L₀ (Finset.mem_Ico.mpr ⟨hk, hk'⟩)
          have hL : (L₀ ∪ Finset.Ico start (start + (count - (left + 1)))) \
              Finset.Ico start (start + (count - (left + 1))) = L₀ := by
            refine Finset.union_sdiff_cancel_right (Finset.disjoint_left.mpr fun k hk hk' => ?_)
            rw [Finset.mem_Ico] at hk'
            exact hout k hk'.1 (by omega) hk
          rw [hL] at h₁
          have h₂ := h₁.unreserve start (count - (left + 1)) hspace
            (fun k hk hk' => hout k hk (by omega)) fun k hk hk' _ => hV (Finset.mem_Ico.mpr ⟨hk, by omega⟩)
          have h₃ := h₂.unreserve (start + (count - (left + 1))) (count - (count - (left + 1))) hspace
            (fun k hk hk' => hout k (by omega) (by omega)) fun k hk hk' _ =>
              Finset.mem_sdiff.mpr ⟨hV (Finset.mem_Ico.mpr ⟨by omega, by omega⟩), by
                rw [Finset.mem_Ico]
                omega⟩
          have hrest : (V \ Finset.Ico start (start + (count - (left + 1)))) \
              Finset.Ico (start + (count - (left + 1)))
                (start + (count - (left + 1)) + (count - (count - (left + 1)))) =
              V \ Finset.Ico start (start + count) := by
            ext k
            simp only [Finset.mem_sdiff, Finset.mem_Ico]
            constructor
            · rintro ⟨⟨hk, hlow⟩, hhigh⟩
              exact ⟨hk, by omega⟩
            · rintro ⟨hk, hnot⟩
              exact ⟨⟨hk, by omega⟩, by omega⟩
          refine ⟨none, _, role₁, ?_, Or.inr ⟨rfl, hrest ▸ h₃⟩⟩
          rw [Memory.allocatePagesLoop, hpage, Outcome.ret_bind]
          dsimp only
          rw [if_neg Bool.false_ne_true, Memory.releasePages, hloop]
          rfl
      | some xp =>
          obtain ⟨x, p⟩ := xp
          rw [halloc] at hpage
          obtain ⟨hx, w, m₁, hframe, hpresent, hwrites, hreserved, hprivilege, hpool, hrmap, hnodes, hcall⟩ :=
            hpage
          have hsupply : supply (left + 1) m.kernelPhysical = supply left m₁.kernelPhysical + 1 := by
            have hrest : m₁.kernelPhysical = p := congrFun hpool .KERNEL
            rw [supply, halloc, hrest]
          have hcard : m₁.rmap.card = m.rmap.card + 1 := by rw [hrmap, Multiset.card_cons]
          by_cases hroom : m.rmap.card < m.rmapNodes
          · rw [if_pos hroom] at hcall
            have h₁ := h.map hspace hmem hnL halloc hframe hpresent hwrites hreserved hprivilege hpool hrmap
              (by rw [hcard, hnodes]; exact hroom)
            have hstep : insert (start + (count - (left + 1)))
                (L₀ ∪ Finset.Ico start (start + (count - (left + 1)))) =
                L₀ ∪ Finset.Ico start (start + (count - left)) := by
              ext k
              simp only [Finset.mem_insert, Finset.mem_union, Finset.mem_Ico]
              constructor
              · rintro (rfl | hk | hk)
                · exact Or.inr (by omega)
                · exact Or.inl hk
                · exact Or.inr (by omega)
              · rintro (hk | hk)
                · exact Or.inr (Or.inl hk)
                · by_cases hlast : k = start + (count - (left + 1))
                  · exact Or.inl hlast
                  · exact Or.inr (Or.inr (by omega))
            rw [hstep] at h₁
            obtain ⟨hret, hhalt⟩ := ih (Nat.le_of_succ_le hleft) h₁
            rw [Memory.allocatePagesLoop, hcall, Outcome.ret_bind]
            dsimp only
            rw [if_pos rfl, hsupply]
            exact ⟨fun hle => hret (by omega), fun hlt => hhalt (by omega)⟩
          · rw [if_neg hroom] at hcall
            refine ⟨fun hle => absurd hle (by omega), fun _ res hres => ?_⟩
            rw [Memory.allocatePagesLoop, hcall] at hres
            cases hres

omit [PagePool P] in
theorem get_kernelBits (m : Memory P) (i : Nat) : (m.kernelBits base).get i = m.reserved (base + i) := by
  have hi : i % 8 < 8 := Nat.mod_lt i (by decide)
  have hindex : 8 * (i / 8) + i % 8 = i := Nat.div_add_mod i 8
  rw [BitMap.get, getMap_eq_getLsbD, kernelBits]
  dsimp only
  refine Eq.trans BitVec.getLsbD_ofBoolListLE ?_
  rw [List.getD_eq_getElem?_getD, List.getElem?_map, List.getElem?_range hi,
    Option.map_some, Option.getD_some, hindex]

omit [PagePool P] in
/-- The pages that `kernelVirtual` answers are free pages of it. -/
theorem allocateVirtualPages_some {start count : Nat} (h : m.allocateVirtualPages base count = some start) :
    ∀ n, start ≤ n → n < start + count → InPool base n ∧ m.reserved n = false := by
  rw [allocateVirtualPages, Option.map_eq_some_iff] at h
  obtain ⟨i, hi, rfl⟩ := h
  rcases halloc : (m.kernelBits base).allocate count with ⟨o, b⟩
  rw [halloc] at hi
  obtain rfl : o = some i := hi
  obtain ⟨hfree, -⟩ := BitMap.allocate_spec halloc
  intro n hn hn'
  obtain ⟨hlt, hget⟩ := hfree (n - base) (by omega) (by omega)
  have hlt' : n - base < 2 ^ 20 - base := hlt
  rw [get_kernelBits, Nat.add_sub_of_le (by omega)] at hget
  exact ⟨⟨by omega, by omega⟩, hget⟩

/-- The pages of an allocation. -/
def pages (start : Option Nat) (count : Nat) : Finset Nat :=
  match start with
  | some start => Finset.Ico start (start + count)
  | none => ∅

/-- An allocation gets all its pages or none, if there is room for their reverse mappings. -/
theorem Holds.allocateKernelPages (hspace : KernelSpace base bound m₀) (h : Holds base bound m₀ m role V V)
    (count : Nat) :
    (m.Room base count → ∃ o m' role', m.allocateKernelPages base count = .ret (o, m') ∧
        Holds base bound m₀ m' role' (V ∪ pages o count) (V ∪ pages o count) ∧ Disjoint V (pages o count)) ∧
      (¬m.Room base count → ∀ res, m.allocateKernelPages base count ≠ .ret res) := by
  rw [Memory.allocateKernelPages]
  cases hfirst : m.allocateVirtualPages base count with
  | none =>
      refine ⟨fun _ => ⟨none, m, role, rfl, ?_, Finset.disjoint_empty_right V⟩, fun hfull => ?_⟩
      · rw [pages, Finset.union_empty]
        exact h
      · exact absurd (fun hsome => absurd hfirst hsome) hfull
  | some start =>
      have hfree := allocateVirtualPages_some hfirst
      have hunused : ∀ n, start ≤ n → n < start + count → (m₀.reserved n || decide (n ∈ V)) = false := by
        intro n hn hn'
        obtain ⟨hin, hres⟩ := hfree n hn hn'
        rw [← h.reserved n hin]
        exact hres
      have hout : ∀ n, start ≤ n → n < start + count → n ∉ V := by
        intro n hn hn' hmem
        have hfalse := hunused n hn hn'
        rw [Bool.or_eq_false_iff, decide_eq_false_iff_not] at hfalse
        exact hfalse.2 hmem
      have hdisj : Disjoint V (Finset.Ico start (start + count)) := by
        refine Finset.disjoint_left.mpr fun n hn hn' => ?_
        rw [Finset.mem_Ico] at hn'
        exact hout n hn'.1 hn'.2 hn
      have h₁ := h.reserve start count VP_RW fun n hn hn' =>
        ⟨(hfree n hn hn').1, (Bool.or_eq_false_iff.mp (hunused n hn hn')).1⟩
      have hL : V = V ∪ Finset.Ico start (start + (count - count)) := by
        rw [Nat.sub_self, Nat.add_zero, Finset.Ico_self, Finset.union_empty]
      have h₂ : Holds base bound m₀ (m.setVirtualPages kernelVirtual start count true VP_RW) role
          (V ∪ Finset.Ico start (start + count)) (V ∪ Finset.Ico start (start + (count - count))) := hL ▸ h₁
      obtain ⟨hret, hhalt⟩ := h₂.allocatePagesLoop hspace (le_refl count) Finset.subset_union_right hout
      have hroom : m.Room base count ↔ (m.setVirtualPages kernelVirtual start count true VP_RW).rmap.card +
          supply count (m.setVirtualPages kernelVirtual start count true VP_RW).kernelPhysical ≤
          (m.setVirtualPages kernelVirtual start count true VP_RW).rmapNodes :=
        ⟨fun hroom => hroom (by rw [hfirst]; exact Option.some_ne_none _), fun hle _ => hle⟩
      refine ⟨fun hyes => ?_, fun hno => hhalt (not_le.mp fun hle => hno (hroom.mpr hle))⟩
      obtain ⟨o, m', role', hcall, hcases⟩ := hret (hroom.mp hyes)
      refine ⟨o, m', role', hcall, ?_⟩
      rcases hcases with ⟨rfl, h'⟩ | ⟨rfl, h'⟩
      · exact ⟨h', hdisj⟩
      · rw [Finset.union_sdiff_cancel_right hdisj] at h'
        rw [pages, Finset.union_empty]
        exact ⟨h', Finset.disjoint_empty_right V⟩

/-- The pages of an allocation are given back. -/
theorem Holds.releasePages (hspace : KernelSpace base bound m₀) {start count : Nat} {X : Finset Nat}
    (h : Holds base bound m₀ m role (pages (some start) count ∪ X) (pages (some start) count ∪ X))
    (hdisj : Disjoint (pages (some start) count) X) :
    ∃ m' role', m.releaseKernelPages base (some start) count = .ret m' ∧ Holds base bound m₀ m' role' X X := by
  rw [pages] at h hdisj
  obtain ⟨m₁, role₁, hloop, h₁⟩ := h.releaseLoop hspace fun k hk hk' =>
    Finset.mem_union_left X (Finset.mem_Ico.mpr ⟨hk, hk'⟩)
  have hL : (Finset.Ico start (start + count) ∪ X) \ Finset.Ico start (start + count) = X :=
    Finset.union_sdiff_cancel_left hdisj
  rw [hL] at h₁
  refine ⟨_, role₁, by rw [Memory.releaseKernelPages, Option.getD_some, hloop, Outcome.ret_bind]; rfl, ?_⟩
  rcases Nat.eq_zero_or_pos count with rfl | hpos
  · rw [Nat.add_zero, Finset.Ico_self, Finset.empty_union] at h₁
    have h₂ := h₁.unreserve (base + (start + 2 ^ 20 - base) % 2 ^ 20) 0 hspace
      (fun n hn hn' => absurd hn (by omega)) fun n hn hn' => absurd hn (by omega)
    rw [Nat.add_zero, Finset.Ico_self, Finset.sdiff_empty] at h₂
    exact h₂
  · have hin := h.within start (Finset.mem_union_left X (Finset.mem_Ico.mpr ⟨le_refl start, by omega⟩))
    have hindex : base + (start + 2 ^ 20 - base) % 2 ^ 20 = start := by
      have hge := hin.1
      have hlt := hin.2
      have hsplit : start + 2 ^ 20 - base = start - base + 2 ^ 20 := by omega
      rw [hsplit, Nat.add_mod_right, Nat.mod_eq_of_lt (by omega)]
      omega
    have h₂ := h₁.unreserve start count hspace
      (fun n hn hn' => Finset.disjoint_left.mp hdisj (Finset.mem_Ico.mpr ⟨hn, hn'⟩))
      fun n hn hn' _ => Finset.mem_union_left X (Finset.mem_Ico.mpr ⟨hn, hn'⟩)
    rw [hL] at h₂
    rw [releaseKernelVirtual, hindex]
    exact h₂

/-- The pages of an allocation are given back; those of one that failed are not there. -/
theorem Holds.releaseKernelPages (hspace : KernelSpace base bound m₀) {o : Option Nat} {count : Nat}
    {X : Finset Nat} (h : Holds base bound m₀ m role (pages o count ∪ X) (pages o count ∪ X))
    (hdisj : Disjoint (pages o count) X) (hcount : count ≤ bound)
    (habsent : o = none → ∀ n, n < count → m₀.Absent n) :
    ∃ m' role', m.releaseKernelPages base o count = .ret m' ∧ Holds base bound m₀ m' role' X X := by
  cases o with
  | none =>
      rw [pages, Finset.empty_union] at h
      obtain ⟨m₁, hloop, h₁⟩ : ∃ m₁, Memory.releaseLoop .KERNEL count 0 m = .ret m₁ ∧
          Holds base bound m₀ m₁ role X X :=
        h.clearLoop hspace (by omega) fun k _ hk => habsent rfl k (by omega)
      have hpast : base + (0 + 2 ^ 20 - base) % 2 ^ 20 = 2 ^ 20 := by
        have hpos := hspace.base_pos
        have hlt := hspace.base_lt
        rw [Nat.mod_eq_of_lt (by omega)]
        omega
      have houtside : ∀ n, 2 ^ 20 ≤ n → n ∉ X := fun n hn hmem => absurd (h.within n hmem).2 (by omega)
      have h₂ := h₁.unreserve (2 ^ 20) count hspace (fun n hn _ => houtside n hn)
        fun n hn _ hin => absurd hin.2 (by omega)
      have hrest : X \ Finset.Ico (2 ^ 20) (2 ^ 20 + count) = X := by
        refine Finset.sdiff_eq_self_of_disjoint (Finset.disjoint_right.mpr fun n hn => ?_)
        exact houtside n (Finset.mem_Ico.mp hn).1
      refine ⟨_, role, ?_, hrest ▸ h₂⟩
      rw [Memory.releaseKernelPages, Option.getD_none, hloop, Outcome.ret_bind, releaseKernelVirtual, hpast]
      rfl
  | some start => exact h.releasePages hspace hdisj

/-- A state that holds nothing does not differ from the first one. -/
theorem Holds.unchanged (h : Holds base bound m₀ m role ∅ ∅) : Unchanged base m₀ m := by
  have hnone : ∀ type x, role type x = none := by
    intro type x
    cases hrole : role type x with
    | none => rfl
    | some item =>
        obtain ⟨n, hn, -⟩ := h.page type x item hrole
        exact absurd hn (Finset.notMem_empty n)
  refine ⟨fun x => ?_, fun x => ?_, fun n hn => ?_, fun n hn => ?_, ?_⟩
  · exact (h.free .USER x).trans (and_iff_left (hnone .USER x))
  · exact (h.free .KERNEL x).trans (and_iff_left (hnone .KERNEL x))
  · rw [h.reserved n hn]
    simp
  · exact h.privilege n hn (Finset.notMem_empty n)
  · rw [h.rmap]
    exact zero_add m₀.rmap

/-- The pages of the pool keep their page tables and entries. -/
def SamePool (base : Nat) (m m' : Memory P) : Prop :=
  ∀ k, InPool base k → m'.pde (k / 1024) = m.pde (k / 1024) ∧ m'.entry k = m.entry k

omit [PagePool P] in
/-- A page below `bound` is released: the pages of the pool are as before. -/
theorem Releases.low (h : Releases n m m') (htables : PoolTables base m.toSpace)
    (hlow : LowApart base bound m.toSpace) (hn : n < bound) :
    SamePool base m m' ∧ LowApart base bound m'.toSpace := by
  have hpool : ∀ k, InPool base k → m'.pde (k / 1024) = m.pde (k / 1024) := by
    intro k hk
    by_cases hkn : k / 1024 = n / 1024
    · obtain ⟨f, hpde⟩ := htables.tables k hk
      rw [hkn] at hpde
      exact congrFun (h.kept _ hpde (Or.inl rfl)) _
    · exact h.pde _ hkn
  refine ⟨fun k hk => ⟨hpool k hk, ?_⟩, fun i k e e' hi hk he he' hframe => ?_⟩
  · rw [Space.entry, Space.entry, hpool k hk]
    obtain ⟨f, hkpde⟩ := htables.tables k hk
    rw [hkpde]
    dsimp only
    cases hpde : m.pde (n / 1024) with
    | none => rw [h.skips hpde]
    | some e =>
        rw [h.mem e hpde]
        by_cases hframe : f = e.frame
        · have hmod := hlow n k e _ hn hk hpde hkpde hframe.symm
          rw [hframe, Function.update_self, Function.update_of_ne hmod.symm]
        · rw [Function.update_of_ne hframe]
  · rw [hpool k hk] at he'
    by_cases hin : i / 1024 = n / 1024
    · rw [hin] at he
      obtain ⟨e₀, he₀, hframe₀⟩ := h.frame e he
      rw [← hin] at he₀
      exact hlow i k e₀ e' hi hk he₀ he' (hframe₀.trans hframe)
    · rw [h.pde _ hin] at he
      exact hlow i k e e' hi hk he he' hframe

/-- Pages below `bound` are released: the pages of the pool are as before, and a reverse mapping is detached
if one of the pages is mapped. -/
theorem lowLoop {count : Nat} (htables : PoolTables base m.toSpace) (hlow : LowApart base bound m.toSpace)
    (hbound : n + count ≤ bound) (hres : Memory.releaseLoop .KERNEL count n m = .ret m') :
    SamePool base m m' ∧ LowApart base bound m'.toSpace ∧ m'.rmap.card ≤ m.rmap.card ∧
      ((∃ k, n ≤ k ∧ k < n + count ∧ ¬m.Absent k) → m'.rmap.card < m.rmap.card) := by
  induction count generalizing n m with
  | zero =>
      obtain rfl := Outcome.ret.inj hres
      refine ⟨fun _ _ => ⟨rfl, rfl⟩, hlow, le_refl _, ?_⟩
      rintro ⟨k, hk, hk', -⟩
      omega
  | succ count ih =>
      obtain ⟨m₁, hpage, hrest⟩ := Outcome.bind_eq_ret hres
      have hreleases := releasePage_releases hpage
      obtain ⟨hsame, hlow₁⟩ := hreleases.low htables hlow (by omega)
      have htables₁ : PoolTables base m₁.toSpace := htables.congr fun k hk => (hsame k hk).1
      obtain ⟨hsame', hlow', hle, hlt⟩ := ih htables₁ hlow₁ (by omega) hrest
      refine ⟨fun k hk => ⟨(hsame' k hk).1.trans (hsame k hk).1, (hsame' k hk).2.trans (hsame k hk).2⟩, hlow',
        ?_, ?_⟩
      · have hcard := hreleases.card
        omega
      · rintro ⟨k, hk, hk', hmapped⟩
        have hcard := hreleases.card
        by_cases hfirst : m.Absent n
        · have hkn : k ≠ n := by
            rintro rfl
            exact hmapped hfirst
          have hmapped₁ : ¬m₁.Absent k := by
            cases hpde : m.pde (n / 1024) with
            | none =>
                rw [hreleases.skips hpde]
                exact hmapped
            | some e =>
                have hwrites : Writes n 0#32 m.toSpace m₁.toSpace :=
                  ⟨hreleases.kept e hpde (Or.inr hfirst), hreleases.mem⟩
                rcases hwrites.cases hpde k with hkeep | ⟨hkeep, -⟩
                · rw [Absent, hkeep]
                  exact hmapped
                · rw [Absent, hkeep] at hmapped
                  exact absurd hfirst hmapped
          have hlt₁ := hlt ⟨k, by omega, by omega, hmapped₁⟩
          omega
        · rw [Absent, Bool.not_eq_false] at hfirst
          rw [if_pos hfirst] at hcard
          omega

/-- Mapped pages of the pool are released, each with its reverse mapping. -/
theorem poolLoop {count : Nat} (htables : PoolTables base m.toSpace)
    (hin : ∀ k, n ≤ k → k < n + count → InPool base k)
    (hmapped : ∀ k, n ≤ k → k < n + count → hasFlag (m.entry k) PTE_PRESENT = true)
    (hres : Memory.releaseLoop .KERNEL count n m = .ret m') : m'.rmap.card + count = m.rmap.card := by
  induction count generalizing n m with
  | zero =>
      obtain rfl := Outcome.ret.inj hres
      rfl
  | succ count ih =>
      obtain ⟨m₁, hpage, hrest⟩ := Outcome.bind_eq_ret hres
      have hreleases := releasePage_releases hpage
      have hn := hin n (le_refl n) (by omega)
      obtain ⟨f, hpde⟩ := htables.tables n hn
      have hkept := hreleases.kept _ hpde (Or.inl rfl)
      have hwrites : Writes n 0#32 m.toSpace m₁.toSpace := ⟨hkept, hreleases.mem⟩
      have hcard := hreleases.card
      rw [if_pos (hmapped n (le_refl n) (by omega))] at hcard
      have hrest' := ih (htables.congr fun k _ => congrFun hkept _) (fun k hk hk' => hin k (by omega) (by omega))
        (fun k hk hk' => by
          rw [htables.other hn (hin k (by omega) (by omega)) (by omega) hwrites]
          exact hmapped k (by omega) (by omega)) hrest
      omega

theorem Holds.card (h : Holds base bound m₀ m role V L) : m.rmap.card = L.card + m₀.rmap.card := by
  rw [h.rmap, Multiset.card_add, Multiset.card_map]
  rfl

theorem card_pages (start : Nat) (count : Nat) : (pages (some start) count).card = count := by
  rw [pages, Nat.card_Ico, Nat.add_sub_cancel_left]

/-- Pages from the address 0 on are given back for an allocation that failed, and one of them is mapped. -/
theorem Holds.releaseKernelPages_low (hspace : KernelSpace base bound m₀) (h : Holds base bound m₀ m role V L)
    {count : Nat} (hcount : count ≤ bound) (hres : m.releaseKernelPages base none count = .ret m') :
    SamePool base m m' ∧ LowApart base bound m'.toSpace ∧ m'.rmap.card ≤ m.rmap.card ∧
      ((∃ k, k < count ∧ ¬m₀.Absent k) → m'.rmap.card < m.rmap.card) := by
  obtain ⟨m₁, hloop, hrest⟩ := Outcome.bind_eq_ret hres
  obtain rfl := Outcome.ret.inj hrest
  have hlow : LowApart base bound m.toSpace := by
    intro n k e e' hn hk he he'
    rw [h.pde] at he he'
    exact hspace.low n k e e' hn hk he he'
  have hbound : 0 + count ≤ bound := by omega
  obtain ⟨hsame, hlow₁, hle, hlt⟩ := lowLoop (h.tables hspace) hlow hbound hloop
  refine ⟨hsame, hlow₁, hle, ?_⟩
  rintro ⟨k, hk, hmapped⟩
  refine hlt ⟨k, Nat.zero_le k, by omega, ?_⟩
  rw [Absent, h.low k (by omega)]
  exact hmapped

omit [PagePool P] in
theorem setVirtualPages_rmap (m : Memory P) (v : VPool) (start count : Nat) (inUse : Bool) (flag : Byte) :
    (m.setVirtualPages v start count inUse flag).rmap = m.rmap := rfl

omit [PagePool P] in
theorem releaseKernelVirtual_rmap (m : Memory P) (start count : Nat) :
    (m.releaseKernelVirtual base start count).rmap = m.rmap := setVirtualPages_rmap _ _ _ _ _ _

/-- The second allocation is given back after that: the reverse mappings of its pages are detached. -/
theorem card_releaseKernelPages {o : Option Nat} {count : Nat} (htables : PoolTables base m.toSpace)
    (hlow : LowApart base bound m.toSpace) (hcount : count ≤ bound)
    (hin : ∀ k, k ∈ pages o count → InPool base k)
    (hmapped : ∀ k, k ∈ pages o count → hasFlag (m.entry k) PTE_PRESENT = true)
    (hres : m.releaseKernelPages base o count = .ret m') :
    m'.rmap.card + (pages o count).card ≤ m.rmap.card := by
  obtain ⟨m₁, hloop, hrest⟩ := Outcome.bind_eq_ret hres
  obtain rfl := Outcome.ret.inj hrest
  rw [releaseKernelVirtual_rmap]
  cases o with
  | none =>
      rw [Option.getD_none] at hloop
      have hbound : 0 + count ≤ bound := by omega
      obtain ⟨-, -, hle, -⟩ := lowLoop htables hlow hbound hloop
      rw [pages, Finset.card_empty, Nat.add_zero]
      exact hle
  | some start =>
      rw [Option.getD_some] at hloop
      rw [card_pages]
      have hmem : ∀ k, start ≤ k → k < start + count → k ∈ pages (some start) count := by
        intro k hk hk'
        rw [pages, Finset.mem_Ico]
        exact ⟨hk, hk'⟩
      have hcard := poolLoop htables (fun k hk hk' => hin k (hmem k hk hk'))
        (fun k hk hk' => hmapped k (hmem k hk hk')) hloop
      exact hcard.le

/-- A call of which an allocation failed gives back what both have. -/
theorem tryAlloc_fails {l : PoolLengths} {o o' : Option Nat} {m₁ m₂ : Memory P}
    (hfirst : m.allocateKernelPages base l.bitmapPages = .ret (o, m₁))
    (hsecond : m₁.allocateKernelPages base l.privPages = .ret (o', m₂)) (hnone : o = none ∨ o' = none) :
    m.tryAlloc base l = (do
      let m₃ ← m₂.releaseKernelPages base o l.bitmapPages
      let m₄ ← m₃.releaseKernelPages base o' l.privPages
      return (none, m₄)) := by
  rw [tryAlloc, hfirst, Outcome.ret_bind]
  dsimp only
  rw [hsecond, Outcome.ret_bind]
  cases o with
  | none => rfl
  | some start =>
      cases o' with
      | none => rfl
      | some start' => exact absurd hnone (by simp)

/-- What the two allocations of a call have got. -/
theorem allocations (hspace : KernelSpace base bound m) {l : PoolLengths} {o : Option Nat} {m₁ : Memory P}
    (hfirst : m.allocateKernelPages base l.bitmapPages = .ret (o, m₁)) :
    (m₁.Room base l.privPages → ∃ o' m₂ role, m₁.allocateKernelPages base l.privPages = .ret (o', m₂) ∧
        Holds base bound m m₂ role (pages o l.bitmapPages ∪ pages o' l.privPages)
          (pages o l.bitmapPages ∪ pages o' l.privPages) ∧
        Disjoint (pages o l.bitmapPages) (pages o' l.privPages)) ∧
      (¬m₁.Room base l.privPages → ∀ res, m₁.allocateKernelPages base l.privPages ≠ .ret res) := by
  obtain ⟨hret, hhalt⟩ := (Holds.refl hspace).allocateKernelPages hspace l.bitmapPages
  have hroom : m.Room base l.bitmapPages := by
    by_contra hfull
    exact hhalt hfull _ hfirst
  obtain ⟨o₁, m₁', role₁, hcall, h₁, -⟩ := hret hroom
  obtain ⟨rfl, rfl⟩ := Prod.mk.inj (Outcome.ret.inj (hcall.symm.trans hfirst))
  rw [Finset.empty_union] at h₁
  exact h₁.allocateKernelPages hspace l.privPages

end Holds

section Calls

variable {base : Nat} {m : Memory P} {l : PoolLengths}

/-- A call of which an allocation fails returns and leaves everything as it was, exactly if nothing is mapped
where it releases pages for that allocation. -/
theorem tryAlloc_unchanged_iff (hspace : KernelSpace base (max l.bitmapPages l.privPages) m)
    (hfails : Fails base m l) :
    (∃ m', m.tryAlloc base l = .ret (none, m') ∧ Unchanged base m m') ↔ Harmless base m l := by
  obtain ⟨o, m₁, hfirst⟩ : ∃ o m₁, m.allocateKernelPages base l.bitmapPages = .ret (o, m₁) := by
    rcases hfails with ⟨m₁, hfirst⟩ | ⟨start, m₁, m₂, hfirst, -⟩
    · exact ⟨none, m₁, hfirst⟩
    · exact ⟨some start, m₁, hfirst⟩
  have hfailed : ∀ o' m₂, m₁.allocateKernelPages base l.privPages = .ret (o', m₂) → o = none ∨ o' = none := by
    intro o' m₂ hsecond
    rcases hfails with ⟨m₁', hfirst'⟩ | ⟨start, m₁', m₂', hfirst', hsecond'⟩
    · exact Or.inl (Prod.mk.inj (Outcome.ret.inj (hfirst.symm.trans hfirst'))).1
    · obtain ⟨-, rfl⟩ := Prod.mk.inj (Outcome.ret.inj (hfirst.symm.trans hfirst'))
      exact Or.inr (Prod.mk.inj (Outcome.ret.inj (hsecond.symm.trans hsecond'))).1
  obtain ⟨hret, hhalt⟩ := allocations hspace hfirst
  have hbitmap : l.bitmapPages ≤ max l.bitmapPages l.privPages := le_max_left _ _
  have hpriv : l.privPages ≤ max l.bitmapPages l.privPages := le_max_right _ _
  constructor
  · rintro ⟨m', hres, hsame⟩
    have hroom : m₁.Room base l.privPages := by
      by_contra hfull
      rw [tryAlloc, hfirst, Outcome.ret_bind] at hres
      obtain ⟨res, hsecond, -⟩ := Outcome.bind_eq_ret hres
      exact hhalt hfull res hsecond
    obtain ⟨o', m₂, role, hsecond, h₂, hdisj⟩ := hret hroom
    rw [tryAlloc_fails hfirst hsecond (hfailed o' m₂ hsecond)] at hres
    obtain ⟨m₃, hrelease, hres⟩ := Outcome.bind_eq_ret hres
    obtain ⟨m₄, hrelease', hres⟩ := Outcome.bind_eq_ret hres
    obtain ⟨-, rfl⟩ := Prod.mk.inj (Outcome.ret.inj hres)
    have hcard : m₄.rmap.card = m.rmap.card := congrArg Multiset.card hsame.rmap
    have habsent : o = none → ∀ n, n < l.bitmapPages → m.Absent n := by
      rintro rfl n hn
      by_contra hmapped
      obtain ⟨hpool, hlow, -, hlt⟩ := h₂.releaseKernelPages_low hspace hbitmap hrelease
      have hless := hlt ⟨n, hn, hmapped⟩
      have hrest := card_releaseKernelPages ((h₂.tables hspace).congr fun k hk => (hpool k hk).1) hlow hpriv
        (fun k hk => h₂.within k (Finset.mem_union_right _ hk))
        (fun k hk => by
          have hk' := Finset.mem_union_right (pages none l.bitmapPages) hk
          rw [(hpool k (h₂.within k hk')).2]
          exact (h₂.mapped k hk').2) hrelease'
      have hheld := h₂.card
      rw [pages, Finset.empty_union] at hheld
      omega
    intro o₁ m₁' hfirst'
    obtain ⟨rfl, rfl⟩ := Prod.mk.inj (Outcome.ret.inj (hfirst.symm.trans hfirst'))
    refine ⟨hroom, habsent, fun m₂' hsecond' n hn => ?_⟩
    obtain ⟨rfl, rfl⟩ := Prod.mk.inj (Outcome.ret.inj (hsecond.symm.trans hsecond'))
    by_contra hmapped
    obtain ⟨m₃', role₃, hrelease₃, h₃⟩ := h₂.releaseKernelPages hspace hdisj hbitmap habsent
    obtain rfl := Outcome.ret.inj (hrelease.symm.trans hrelease₃)
    obtain ⟨-, -, -, hlt⟩ := h₃.releaseKernelPages_low hspace hpriv hrelease'
    have hless := hlt ⟨n, hn, hmapped⟩
    have hheld := h₃.card
    rw [pages, Finset.card_empty, Nat.zero_add] at hheld
    omega
  · intro hharmless
    obtain ⟨hroom, habsent, habsent'⟩ := hharmless o m₁ hfirst
    obtain ⟨o', m₂, role, hsecond, h₂, hdisj⟩ := hret hroom
    obtain ⟨m₃, role₃, hrelease, h₃⟩ := h₂.releaseKernelPages hspace hdisj hbitmap habsent
    rw [← Finset.union_empty (pages o' l.privPages)] at h₃
    obtain ⟨m₄, role₄, hrelease', h₄⟩ := h₃.releaseKernelPages hspace (Finset.disjoint_empty_right _) hpriv
      fun hnone => habsent' m₂ (by rw [hsecond, hnone])
    refine ⟨m₄, ?_, h₄.unchanged⟩
    rw [tryAlloc_fails hfirst hsecond (hfailed o' m₂ hsecond), hrelease, Outcome.ret_bind, hrelease']
    rfl

/-- Both calls are all or nothing exactly if, for each allocation that fails, no page is mapped from the
address 0 on. -/
theorem PoolCall.unchanged_iff (c : PoolCall) (hlengths : c.lengths = some l)
    (hspace : KernelSpace base (max l.bitmapPages l.privPages) m) (hfails : Fails base m l) :
    (∃ m', c.run base m = .ret (none, m') ∧ Unchanged base m m') ↔ Harmless base m l := by
  cases c with
  | fresh heapConf stackConf mmapConf TLSConf =>
      obtain rfl := Option.some.inj hlengths
      exact tryAlloc_unchanged_iff hspace hfails
  | clone parent =>
      cases parent with
      | none => cases hlengths
      | some parent =>
          obtain rfl := Option.some.inj hlengths
          exact tryAlloc_unchanged_iff hspace hfails

end Calls

section Instance

theorem firstUser_pos : 0 < 0x500 := by decide

theorem firstKernel_pos : 0 < 0x300 := by decide

/-- No kernel page is left. The first table of the kernel, with the first megabyte, is there once more from
the address 0 on in the directory of the kernel. -/
def outOfPages (kernel : Bool) : Memory BuddyPool where
  pde i := if 768 ≤ i then some ⟨0x101 + (i - 768), 7⟩ else if i = 0 ∧ kernel then some ⟨0x101, 7⟩ else none
  mem f i := if f = 0x101 ∧ i < 256 then BitVec.ofNat 32 (i * 4096 + 7) else 0#32
  reserved := fun _ => false
  privilege := fun _ => VP_CLEAR
  userPhysical := BuddyPool.boot 0x500 0 firstUser_pos (by decide)
  kernelPhysical := BuddyPool.boot 0x300 0 firstKernel_pos (by decide)
  rmap := 0
  rmapNodes := 8

theorem outOfPages_pde {kernel : Bool} {i : Nat} (hi : 768 ≤ i) :
    (outOfPages kernel).pde i = some ⟨0x101 + (i - 768), 7⟩ := if_pos hi

theorem InPool.table {n : Nat} (hn : InPool 0xC0200 n) : 768 ≤ n / 1024 := by
  have hge := hn.1
  omega

theorem outOfPages_ready (kernel : Bool) : KernelSpace 0xC0200 1 (outOfPages kernel) where
  tables n hn := ⟨_, outOfPages_pde hn.table⟩
  apart n k e e' hn hk he he' hframe := by
    have hge := hn.table
    have hge' := hk.table
    rw [outOfPages_pde hge] at he
    rw [outOfPages_pde hge'] at he'
    obtain rfl := Option.some.inj he
    obtain rfl := Option.some.inj he'
    have hsum : 0x101 + (n / 1024 - 768) = 0x101 + (k / 1024 - 768) := hframe
    omega
  base_pos := by decide
  base_lt := by decide
  low n k e e' hn hk he he' hframe := by
    have hge := hk.1
    rw [outOfPages_pde hk.table] at he'
    obtain rfl : n = 0 := by omega
    obtain rfl := Option.some.inj he'
    cases kernel with
    | false => cases he
    | true =>
        obtain rfl := Option.some.inj he
        have hsum : 0x101 = 0x101 + (k / 1024 - 768) := hframe
        omega
  records r hr := absurd hr (Multiset.notMem_zero r)
  cleared _ _ _ := rfl
  entries := Nat.zero_le 8

theorem outOfPages_fails (kernel : Bool) : Fails 0xC0200 (outOfPages kernel) ⟨8, 8, 8, 8⟩ := by
  cases kernel with
  | false => exact Or.inl ⟨_, rfl⟩
  | true => exact Or.inl ⟨_, rfl⟩

/-- In the directory of a user. -/
theorem PoolCall.unchanged_iff_user :
    (∃ m', (PoolCall.fresh 8 8 8 8).run 0xC0200 (outOfPages false) = .ret (none, m') ∧
        Unchanged 0xC0200 (outOfPages false) m') ↔
      Harmless 0xC0200 (outOfPages false) ⟨8, 8, 8, 8⟩ :=
  PoolCall.unchanged_iff (.fresh 8 8 8 8) rfl (outOfPages_ready false) (outOfPages_fails false)

/-- In the directory of the kernel the first page from the address 0 on is mapped, and has no reverse
mapping: the call stops. -/
theorem not_poolCall_unchanged :
    ¬∀ (base : Nat) (m : Memory BuddyPool) (c : PoolCall) (l : PoolLengths), c.lengths = some l →
      KernelSpace base (max l.bitmapPages l.privPages) m → Fails base m l →
      ∃ m', c.run base m = .ret (none, m') ∧ Unchanged base m m' := by
  intro h
  obtain ⟨m', hres, -⟩ := h 0xC0200 (outOfPages true) (.fresh 8 8 8 8) ⟨8, 8, 8, 8⟩ rfl (outOfPages_ready true)
    (outOfPages_fails true)
  have hhalt : (PoolCall.fresh 8 8 8 8).run 0xC0200 (outOfPages true) = .halt := rfl
  rw [hhalt] at hres
  cases hres

end Instance

end SysuOs.PageTables.Memory
