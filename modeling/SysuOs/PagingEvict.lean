import SysuOs.PagingVictim

/-! Eviction, `out_of_memory`. Since `isAlloc` shows no page whose index is not a multiple of 8, a search
goes no further than the first page of the pool of the kernel: it takes that page, or the machine halts. -/

namespace SysuOs

namespace Kernel

/-- `MemoryManager::findVictim`. -/
def findVictim (s : Kernel) (victimIdx : Nat) (type : AddressPoolType) :
    Except Stop (VictimInfo × Nat × Kernel) :=
  match type with
  | .KERNEL => s.kernelPhysical.findVictim s victimIdx 0 3
  | .USER => s.kernelPhysical.findVictim s victimIdx 1000 2

/-- The flags of the page that `out_of_memory` hands on. -/
def evictedInfo (type : AddressPoolType) : PageInfo :=
  match type with
  | .KERNEL => (PageInfo.cleared.setFlag PG_KERNEL).setFlag PG_SINGLE
  | .USER => PageInfo.cleared.setFlag PG_SINGLE

/-- `out_of_memory`, with `victim_idx` of the pool of the kernel: the address of the page, 0 if there is
none. The entry is read again after it is cleared, for its dirty bit. -/
def outOfMemory (s : Kernel) (victimIdx : Nat) (type : AddressPoolType) (count : Nat) :
    Except Stop (Nat × Nat × Kernel) :=
  if count ≠ 1 then .ok (0, victimIdx, s)
  else do
    let (victim, victimIdx, s) ← s.findVictim victimIdx type
    if victim.paddr = 0 ∧ victim.PTEptr = 0 then return (0, victimIdx, s)
    else do
      let s ← s.storeWord victim.PTEptr 0#32
      let _ ← s.loadWord victim.PTEptr
      return (victim.paddr, victimIdx, s.setInfo (PA2PGI victim.paddr) (evictedInfo type))

end Kernel

/-! ### What a search finds -/

namespace PAddressPool

/-- The entry a search looks at for the page with index `idx`. -/
def entryPtr (p : PAddressPool) (s : Kernel) (idx : Nat) : Nat :=
  (s.rmapManager.RMapStart (s.pageinfos (PA2PGI p.startAddress + idx)).extra).pteVaddr

/-- The page with index `idx` is shown as in use, is a single one with one reference, and the word at the
address of its entry has been neither accessed nor made dirty. -/
structure Idle (p : PAddressPool) (s : Kernel) (idx : Nat) (w : Word) : Prop where
  alloc : p.resources.isAlloc idx = true
  single : (s.pageinfos (PA2PGI p.startAddress + idx)).has PG_SINGLE = true
  ref : (s.pageinfos (PA2PGI p.startAddress + idx)).ref = 1
  load : s.loadWord (p.entryPtr s idx) = .ok w
  clean : hasFlag w PTE_ACCESSED = false ∧ hasFlag w PTE_DIRTY = false

theorem priority_eq_zero {w : Word} :
    priority w = 0 ↔ hasFlag w PTE_ACCESSED = false ∧ hasFlag w PTE_DIRTY = false := by
  rw [priority]
  cases hasFlag w PTE_ACCESSED <;> cases hasFlag w PTE_DIRTY <;> simp

theorem visit_idle {p : PAddressPool} {c : Search} {w : Word} (h : p.Idle c.kernel c.victimIdx w)
    (lastRound : Bool) (hnone : (c.victims 0).paddr = 0) :
    ∃ c', p.visit lastRound c = .ok (some ⟨p.entryPtr c.kernel c.victimIdx,
        (p.startAddress + c.victimIdx * PAGE_SIZE) % 2 ^ 32⟩, c') ∧
      c'.victimIdx = c.victimIdx ∧ c'.kernel = c.kernel := by
  have hprio : priority w = 0 := priority_eq_zero.mpr h.clean
  have hload : c.kernel.loadWord (c.kernel.rmapManager.RMapStart
      (c.kernel.pageinfos (PA2PGI p.startAddress + c.victimIdx)).extra).pteVaddr = .ok w := h.load
  rw [visit, if_pos h.alloc]
  dsimp only
  rw [if_pos ⟨h.single, h.ref⟩, hload]
  let victim : VictimInfo :=
    ⟨p.entryPtr c.kernel c.victimIdx, (p.startAddress + c.victimIdx * PAGE_SIZE) % 2 ^ 32⟩
  refine ⟨{ c with victims := Function.update c.victims 0 victim }, ?_, rfl, rfl⟩
  show (if (!lastRound && hasFlag w PTE_ACCESSED) = true then _ else _) = _
  rw [h.clean.1, Bool.and_false, if_neg Bool.false_ne_true, hprio, if_pos hnone, if_pos rfl]
  rfl

/-- A visit that returns a victim has found an idle page; another visit leaves `victim_idx`. -/
theorem visit_cases {p : PAddressPool} {c : Search} {lastRound : Bool}
    {r : Option VictimInfo × Search} (h : p.visit lastRound c = .ok r) :
    r.2.victimIdx = c.victimIdx ∧ (r.1.isSome = true → ∃ w, p.Idle c.kernel c.victimIdx w) := by
  rw [visit] at h
  by_cases halloc : p.resources.isAlloc c.victimIdx = true
  · rw [if_pos halloc] at h
    dsimp only at h
    by_cases hpage : (c.kernel.pageinfos (PA2PGI p.startAddress + c.victimIdx)).has PG_SINGLE = true ∧
        (c.kernel.pageinfos (PA2PGI p.startAddress + c.victimIdx)).ref = 1
    · rw [if_pos hpage] at h
      cases hload : c.kernel.loadWord (c.kernel.rmapManager.RMapStart
          (c.kernel.pageinfos (PA2PGI p.startAddress + c.victimIdx)).extra).pteVaddr with
      | error e => rw [hload] at h; cases h
      | ok w =>
          rw [hload] at h
          change (if (!lastRound && hasFlag w PTE_ACCESSED) = true then _ else _) = _ at h
          by_cases hskip : (!lastRound && hasFlag w PTE_ACCESSED) = true
          · rw [if_pos hskip] at h
            cases hstore : c.kernel.storeWord (c.kernel.rmapManager.RMapStart
                (c.kernel.pageinfos (PA2PGI p.startAddress + c.victimIdx)).extra).pteVaddr
                (w &&& ~~~PTE_ACCESSED) with
            | error e => rw [hstore] at h; cases h
            | ok kernel =>
                rw [hstore] at h
                obtain rfl := Except.ok.inj h
                exact ⟨rfl, fun hsome => absurd hsome Bool.false_ne_true⟩
          · rw [if_neg hskip] at h
            by_cases hvictim : (c.victims (priority w)).paddr = 0
            · rw [if_pos hvictim] at h
              obtain rfl := Except.ok.inj h
              refine ⟨rfl, fun hsome => ⟨w, halloc, hpage.1, hpage.2, hload, ?_⟩⟩
              by_cases hprio : priority w = 0
              · exact priority_eq_zero.mp hprio
              · rw [if_neg hprio] at hsome
                exact absurd hsome Bool.false_ne_true
            · rw [if_neg hvictim] at h
              obtain rfl := Except.ok.inj h
              exact ⟨rfl, fun hsome => absurd hsome Bool.false_ne_true⟩
    · rw [if_neg hpage] at h
      obtain rfl := Except.ok.inj h
      exact ⟨rfl, fun hsome => absurd hsome Bool.false_ne_true⟩
  · rw [if_neg halloc] at h
    cases h

/-- No search goes past the second page. -/
theorem visit_second {p : PAddressPool} {c : Search} (lastRound : Bool) (hidx : c.victimIdx = 1) :
    p.visit lastRound c = .error .assertion := by
  have hno : ¬p.resources.isAlloc c.victimIdx = true := fun h => by
    have hdvd := ((p.resources.isAlloc_iff _).mp h).1
    omega
  rw [visit, if_neg hno]

section First

variable {p : PAddressPool} (hlength : 2 ≤ p.length)

include hlength

/-- A round of two pages or more from the first page on ends at the first page. -/
theorem visitLoop_first {lastRound : Bool} {n : Nat} {c : Search} {r : Option VictimInfo × Search}
    (hn : 2 ≤ n) (hidx : c.victimIdx = 0) (hnone : (c.victims 0).paddr = 0)
    (h : p.visitLoop lastRound n c = .ok r) :
    (∃ w, p.Idle c.kernel 0 w) ∧ r.1 = some ⟨p.entryPtr c.kernel 0, p.startAddress % 2 ^ 32⟩ ∧
      r.2.victimIdx = 0 ∧ r.2.kernel = c.kernel := by
  obtain ⟨n, rfl⟩ := Nat.exists_eq_add_of_le' hn
  rw [visitLoop] at h
  cases hvisit : p.visit lastRound c with
  | error e => rw [hvisit] at h; cases h
  | ok r₁ =>
      obtain ⟨victim, c₁⟩ := r₁
      obtain ⟨hsame, hidle⟩ := visit_cases hvisit
      rw [hvisit] at h
      cases victim with
      | some victim =>
          obtain ⟨w, hw⟩ := hidle rfl
          obtain ⟨c₂, hfound, hidx₂, hkernel⟩ := visit_idle hw lastRound hnone
          obtain ⟨hvictim, rfl⟩ := Prod.mk.inj (Except.ok.inj (hvisit.symm.trans hfound))
          obtain rfl := Except.ok.inj h
          rw [hidx] at hw hvictim hidx₂
          rw [Nat.zero_mul, Nat.add_zero] at hvictim
          exact ⟨⟨w, hw⟩, hvictim, hidx₂, hkernel⟩
      | none =>
          -- the next page is the second one, which `isAlloc` does not show
          have hone : (c₁.victimIdx + 1) % p.length = 1 := by
            have hzero : c₁.victimIdx = 0 := hsame.trans hidx
            rw [hzero]
            exact Nat.mod_eq_of_lt hlength
          change p.visitLoop lastRound (n + 1) { c₁ with victimIdx := (c₁.victimIdx + 1) % p.length } = _ at h
          rw [visitLoop, visit_second (c := { c₁ with victimIdx := (c₁.victimIdx + 1) % p.length })
            lastRound hone] at h
          cases h

theorem two_le_window {searchLength : Nat} (h : searchLength = 0 ∨ 2 ≤ searchLength) :
    2 ≤ p.window searchLength := by
  rw [window]
  split <;> omega

/-- A search from the first page on that returns has found it idle, and changes nothing. -/
theorem findVictim_first {s : Kernel} {searchLength round : Nat} {r : VictimInfo × Nat × Kernel}
    (hwindow : searchLength = 0 ∨ 2 ≤ searchLength) (hround : 1 ≤ round)
    (h : p.findVictim s 0 searchLength round = .ok r) :
    (∃ w, p.Idle s 0 w) ∧ r = (⟨p.entryPtr s 0, p.startAddress % 2 ^ 32⟩, 0, s) := by
  obtain ⟨round, rfl⟩ := Nat.exists_eq_add_of_le' hround
  rw [findVictim, roundLoop] at h
  dsimp only at h
  cases hloop : p.visitLoop (decide (round = 0)) (p.window searchLength)
      ⟨s, 0, fun _ => ⟨0, 0⟩⟩ with
  | error e => rw [hloop] at h; cases h
  | ok r₁ =>
      obtain ⟨hidle, hvictim, hidx, hkernel⟩ :=
        visitLoop_first hlength (two_le_window hlength hwindow) rfl rfl hloop
      obtain ⟨victim, c⟩ := r₁
      dsimp only at hvictim hidx hkernel
      rw [hloop, hvictim] at h
      obtain rfl := Except.ok.inj h
      rw [hidx, hkernel]
      exact ⟨hidle, rfl⟩

/-- An idle first page is found. -/
theorem findVictim_idle {s : Kernel} {searchLength round : Nat} {w : Word}
    (hwindow : searchLength = 0 ∨ 2 ≤ searchLength) (hround : 1 ≤ round) (h : p.Idle s 0 w) :
    p.findVictim s 0 searchLength round = .ok (⟨p.entryPtr s 0, p.startAddress % 2 ^ 32⟩, 0, s) := by
  obtain ⟨round, rfl⟩ := Nat.exists_eq_add_of_le' hround
  obtain ⟨n, hn⟩ := Nat.exists_eq_add_of_le' (two_le_window hlength hwindow)
  obtain ⟨c, hvisit, hidx, hkernel⟩ := visit_idle (c := ⟨s, 0, fun _ => ⟨0, 0⟩⟩) h (decide (round = 0)) rfl
  dsimp only at hvisit hidx hkernel
  rw [Nat.zero_mul, Nat.add_zero] at hvisit
  rw [findVictim, roundLoop, hn, visitLoop]
  dsimp only
  rw [hvisit]
  show Except.ok (_, c.victimIdx, c.kernel) = _
  rw [hidx, hkernel]

end First

end PAddressPool

/-! ### `out_of_memory` -/

namespace Kernel

/-- What the boot sets up for the pool of the kernel and for the reverse mappings: two pages or more, not
at address 0, and a page names an `RMapEntry` in use, or the entry 0, which is in use for ever. -/
structure EvictReady (s : Kernel) : Prop where
  length : 2 ≤ s.kernelPhysical.length
  start : 0 < s.kernelPhysical.startAddress ∧ s.kernelPhysical.startAddress < 2 ^ 32
  entries : ∀ pgi, s.rmapManager.bitmap.get (s.pageinfos pgi).extra = true

/-- The values of `victim_idx` between the calls of `out_of_memory`, whatever happens in between to a
pool of `length` pages. -/
inductive VictimIdx (length : Nat) : Nat → Prop
  | boot : VictimIdx length 0
  | evict {s s' : Kernel} {victimIdx victimIdx' count paddr : Nat} {type : AddressPoolType}
      (h : VictimIdx length victimIdx) (hlength : s.kernelPhysical.length = length)
      (hres : s.outOfMemory victimIdx type count = .ok (paddr, victimIdx', s')) :
      VictimIdx length victimIdx'

/-- The page at `paddr` was a legal victim for a pool, and is detached from where it was mapped. -/
structure Detached (s s' : Kernel) (type : AddressPoolType) (paddr : Nat) : Prop where
  pool : let p := match type with | .KERNEL => s.kernelPhysical | .USER => s.userPhysical
    ∃ i, i < p.length ∧ paddr = p.startAddress + i * PAGE_SIZE
  unlocked : (s.pageinfos (PA2PGI paddr)).has PG_LOCKED = false
  unshared : (s.pageinfos (PA2PGI paddr)).ref = 1
  entry : let e := s.rmapManager.RMapStart (s.pageinfos (PA2PGI paddr)).extra
    e.pteVaddr ≠ 0 ∧ s'.mem (e.ptePaddr / 4096) (e.ptePaddr % 4096 / 4) = 0#32
  released : s'.rmapManager.bitmap.get (s.pageinfos (PA2PGI paddr)).extra = false

/-- Whatever page `out_of_memory` returns is legal and detached. -/
def EvictsLegally (s : Kernel) (victimIdx : Nat) (type : AddressPoolType) : Prop :=
  ∀ paddr victimIdx' s', s.outOfMemory victimIdx type 1 = .ok (paddr, victimIdx', s') → paddr ≠ 0 →
    Detached s s' type paddr

/-- The first page of the pool of the kernel is idle, and the word at the address of its entry can be
cleared and read again. -/
def FirstTaken (s : Kernel) : Prop :=
  (∃ w, s.kernelPhysical.Idle s 0 w) ∧
    ∃ s₁ w, s.storeWord (s.kernelPhysical.entryPtr s 0) 0#32 = .ok s₁ ∧
      s₁.loadWord (s.kernelPhysical.entryPtr s 0) = .ok w

theorem findVictim_spec {s : Kernel} (h : 2 ≤ s.kernelPhysical.length) (type : AddressPoolType)
    {r : VictimInfo × Nat × Kernel} (hres : s.findVictim 0 type = .ok r) :
    (∃ w, s.kernelPhysical.Idle s 0 w) ∧
      r = (⟨s.kernelPhysical.entryPtr s 0, s.kernelPhysical.startAddress % 2 ^ 32⟩, 0, s) := by
  cases type with
  | KERNEL => exact PAddressPool.findVictim_first h (Or.inl rfl) (by decide) hres
  | USER => exact PAddressPool.findVictim_first h (Or.inr (by decide)) (by decide) hres

theorem findVictim_of_idle {s : Kernel} (h : 2 ≤ s.kernelPhysical.length) (type : AddressPoolType)
    {w : Word} (hw : s.kernelPhysical.Idle s 0 w) :
    s.findVictim 0 type =
      .ok (⟨s.kernelPhysical.entryPtr s 0, s.kernelPhysical.startAddress % 2 ^ 32⟩, 0, s) := by
  cases type with
  | KERNEL => exact PAddressPool.findVictim_idle h (Or.inl rfl) (by decide) hw
  | USER => exact PAddressPool.findVictim_idle h (Or.inr (by decide)) (by decide) hw

/-- Writing a word changes memory only. -/
theorem storeByte_rmap {s s' : Kernel} {vaddr : Nat} {b : Byte} (h : s.storeByte vaddr b = .ok s') :
    s'.rmapManager = s.rmapManager := by
  rw [storeByte] at h
  cases hpa : s.translate true vaddr with
  | error e => rw [hpa] at h; cases h
  | ok paddr =>
      rw [hpa] at h
      obtain rfl := Except.ok.inj h
      rfl

theorem storeWord_rmap {s s' : Kernel} {vaddr : Nat} {w : Word} (h : s.storeWord vaddr w = .ok s') :
    s'.rmapManager = s.rmapManager := by
  rw [storeWord] at h
  cases h₀ : s.storeByte vaddr (w.setWidth 8) with
  | error e => rw [h₀] at h; cases h
  | ok s₀ =>
    rw [h₀] at h
    change (s₀.storeByte (vaddr + 1) _ >>= _) = _ at h
    cases h₁ : s₀.storeByte (vaddr + 1) ((w >>> 8).setWidth 8) with
    | error e => rw [h₁] at h; cases h
    | ok s₁ =>
      rw [h₁] at h
      change (s₁.storeByte (vaddr + 2) _ >>= _) = _ at h
      cases h₂ : s₁.storeByte (vaddr + 2) ((w >>> 16).setWidth 8) with
      | error e => rw [h₂] at h; cases h
      | ok s₂ =>
        rw [h₂] at h
        calc s'.rmapManager = s₂.rmapManager := storeByte_rmap h
          _ = s₁.rmapManager := storeByte_rmap h₂
          _ = s₀.rmapManager := storeByte_rmap h₁
          _ = s.rmapManager := storeByte_rmap h₀

/-- `out_of_memory` for one page takes the first page of the pool of the kernel, whatever the type, or the
machine halts; the reverse mappings stay. -/
theorem outOfMemory_spec {s : Kernel} (h : s.EvictReady) (type : AddressPoolType)
    {r : Nat × Nat × Kernel} (hres : s.outOfMemory 0 type 1 = .ok r) :
    s.FirstTaken ∧ r.1 = s.kernelPhysical.startAddress ∧ r.2.1 = 0 ∧
      r.2.2.rmapManager = s.rmapManager := by
  have hstart : s.kernelPhysical.startAddress % 2 ^ 32 = s.kernelPhysical.startAddress :=
    Nat.mod_eq_of_lt h.start.2
  have hpos := h.start.1
  rw [outOfMemory, if_neg (by simp)] at hres
  cases hfind : s.findVictim 0 type with
  | error e => rw [hfind] at hres; cases hres
  | ok r₁ =>
      obtain ⟨hidle, rfl⟩ := findVictim_spec h.length type hfind
      rw [hfind] at hres
      change (if _ ∧ _ then _ else _) = _ at hres
      rw [hstart, if_neg fun hzero => hpos.ne' hzero.1] at hres
      cases hstore : s.storeWord (s.kernelPhysical.entryPtr s 0) 0#32 with
      | error e => rw [hstore] at hres; cases hres
      | ok s₁ =>
          rw [hstore] at hres
          change (s₁.loadWord _ >>= _) = _ at hres
          cases hload : s₁.loadWord (s.kernelPhysical.entryPtr s 0) with
          | error e => rw [hload] at hres; cases hres
          | ok w =>
              rw [hload] at hres
              obtain rfl := Except.ok.inj hres
              have hrmap : s₁.rmapManager = s.rmapManager := storeWord_rmap hstore
              exact ⟨⟨hidle, s₁, w, hstore, hload⟩, rfl, rfl, hrmap⟩

theorem outOfMemory_taken {s : Kernel} (h : s.EvictReady) (type : AddressPoolType)
    (hfirst : s.FirstTaken) :
    ∃ s', s.outOfMemory 0 type 1 = .ok (s.kernelPhysical.startAddress, 0, s') := by
  obtain ⟨⟨w, hw⟩, s₁, w', hstore, hload⟩ := hfirst
  have hstart : s.kernelPhysical.startAddress % 2 ^ 32 = s.kernelPhysical.startAddress :=
    Nat.mod_eq_of_lt h.start.2
  have hpos := h.start.1
  refine ⟨s₁.setInfo (PA2PGI s.kernelPhysical.startAddress) (evictedInfo type), ?_⟩
  rw [outOfMemory, if_neg (by simp), findVictim_of_idle h.length type hw]
  change (if _ ∧ _ then _ else _) = _
  rw [hstart, if_neg fun hzero => hpos.ne' hzero.1, hstore]
  change (s₁.loadWord _ >>= _) = _
  rw [hload]
  rfl

/-- Every call that returns leaves `victim_idx` at the first page. -/
theorem VictimIdx.eq_zero {length victimIdx : Nat} (hlength : 2 ≤ length)
    (h : VictimIdx length victimIdx) : victimIdx = 0 := by
  induction h with
  | boot => rfl
  | @evict s s' victimIdx victimIdx' count paddr type h hlen hres ih =>
      subst ih
      rw [outOfMemory] at hres
      by_cases hcount : count ≠ 1
      · rw [if_pos hcount] at hres
        exact (congrArg (fun r => r.2.1) (Except.ok.inj hres)).symm
      · rw [if_neg hcount] at hres
        cases hfind : s.findVictim 0 type with
        | error e => rw [hfind] at hres; cases hres
        | ok r₁ =>
            obtain ⟨-, rfl⟩ := findVictim_spec (by omega) type hfind
            rw [hfind] at hres
            change (if _ ∧ _ then _ else _) = _ at hres
            split at hres
            · exact (congrArg (fun r => r.2.1) (Except.ok.inj hres)).symm
            · cases hstore : s.storeWord (s.kernelPhysical.entryPtr s 0) 0#32 with
              | error e => rw [hstore] at hres; cases hres
              | ok s₁ =>
                  rw [hstore] at hres
                  change (s₁.loadWord _ >>= _) = _ at hres
                  cases hload : s₁.loadWord (s.kernelPhysical.entryPtr s 0) with
                  | error e => rw [hload] at hres; cases hres
                  | ok w =>
                      rw [hload] at hres
                      exact (congrArg (fun r => r.2.1) (Except.ok.inj hres)).symm

/-- `out_of_memory` returns legal pages only, detached from where they were mapped, exactly when it cannot
take the first page of the pool of the kernel. -/
theorem evictsLegally_iff {s : Kernel} {victimIdx : Nat} (h : s.EvictReady)
    (hidx : VictimIdx s.kernelPhysical.length victimIdx) (type : AddressPoolType) :
    s.EvictsLegally victimIdx type ↔ ¬s.FirstTaken := by
  obtain rfl := hidx.eq_zero h.length
  constructor
  · intro hlegal hfirst
    obtain ⟨s', hres⟩ := outOfMemory_taken h type hfirst
    have hreleased := (hlegal _ _ _ hres h.start.1.ne').released
    obtain ⟨-, -, -, hrmap⟩ := outOfMemory_spec h type hres
    rw [hrmap, h.entries] at hreleased
    exact absurd hreleased.symm Bool.false_ne_true
  · intro hno paddr victimIdx' s' hres _
    exact absurd (outOfMemory_spec h type hres).1 hno

section Instance

/-- A kernel with a page table for the addresses from `0xC0000000` on. The first page of its pool is mapped
at `0xC0001000`, by the word `entry`. -/
def evictKernel (entry : Word) : Kernel where
  mem frame idx :=
    if frame = 0x100 then if idx = 1023 then 0x100007#32 else if idx = 768 then 0x101007#32 else 0#32
    else if frame = 0x101 ∧ idx = 1 then entry else 0#32
  pageinfos pgi := if pgi = 0x200 then ⟨1, PG_KERNEL ||| PG_SINGLE, 1⟩ else ⟨0, PG_FREE, 0⟩
  rmapManager := ⟨fun idx => if idx = 1 then ⟨0x101004, 0xfff00004, 0, 0⟩ else ⟨0, 0, 0, 0⟩,
    ⟨fun _ => 3#8, 16⟩, 16, false⟩
  kernelPhysical := ((Buddy.freshPool.init (fun _ => 0) 2 0x200000 (fun _ => 0) fun _ => default).allocate 1).2
  userPhysical := Buddy.freshPool.init (fun _ => 0) 2 0x300000 (fun _ => 0) fun _ => default
  kernelVirtual := ⟨16, ⟨fun _ => 0, 16⟩, 0xc0000000, 0xc000ffff, fun _ => 0, false, 0⟩
  programs := fun _ => none
  running := none
  cr3 := 0x100
  tlb := []

theorem evictKernel_ready (entry : Word) : (evictKernel entry).EvictReady := by
  have hlength : (evictKernel entry).kernelPhysical.length = 2 := rfl
  have hstart : (evictKernel entry).kernelPhysical.startAddress = 0x200000 := rfl
  refine ⟨hlength.ge, ⟨by omega, by omega⟩, fun pgi => ?_⟩
  show BitMap.get ⟨fun _ => 3#8, 16⟩
    (if pgi = 0x200 then (⟨1, PG_KERNEL ||| PG_SINGLE, 1⟩ : PageInfo) else ⟨0, PG_FREE, 0⟩).extra = true
  split
  · decide
  · decide

/-- A page that has been written to is not taken. -/
theorem evictsLegally_iff_dirty :
    (evictKernel 0x200043#32).EvictsLegally 0 .KERNEL ↔ ¬(evictKernel 0x200043#32).FirstTaken :=
  evictsLegally_iff (evictKernel_ready _) VictimIdx.boot .KERNEL

/-- For the pool of user pages a page of the kernel is taken. -/
theorem not_evictsLegally_user : ¬(evictKernel 0x200003#32).EvictsLegally 0 .USER := by
  intro hlegal
  have hidle : (evictKernel 0x200003#32).kernelPhysical.Idle (evictKernel 0x200003#32) 0 0x200003#32 :=
    ⟨by decide +kernel, by decide +kernel, by decide +kernel, by decide +kernel, by decide +kernel⟩
  have hstore : ∃ s₁ w, (evictKernel 0x200003#32).storeWord
      ((evictKernel 0x200003#32).kernelPhysical.entryPtr (evictKernel 0x200003#32) 0) 0#32 = .ok s₁ ∧
      s₁.loadWord ((evictKernel 0x200003#32).kernelPhysical.entryPtr (evictKernel 0x200003#32) 0) = .ok w :=
    ⟨_, 0#32, rfl, by decide +kernel⟩
  obtain ⟨s', hres⟩ := outOfMemory_taken (evictKernel_ready _) .USER ⟨⟨_, hidle⟩, hstore⟩
  obtain ⟨i, -, hpaddr⟩ := (hlegal _ _ _ hres (evictKernel_ready _).start.1.ne').pool
  have hkernel : (evictKernel 0x200003#32).kernelPhysical.startAddress = 0x200000 := rfl
  have huser : (evictKernel 0x200003#32).userPhysical.startAddress = 0x300000 := rfl
  dsimp only at hpaddr
  omega

end Instance

end Kernel

end SysuOs
