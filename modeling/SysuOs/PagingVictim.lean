import SysuOs.BuddyCoalesce
import SysuOs.PagingCalls

/-! The search for a page to evict, `PAddressPool::findVictim`. It is made when the pool has no page
left, and asserts that every page it comes to is in use. -/

namespace SysuOs

open Dyadic

def PTE_ACCESSED : Word := 0x20#32
def PTE_DIRTY : Word := 0x40#32

/-- Why a search does not return: a failed `ASSERT`, or a `PTEptr` at which nothing is mapped. -/
inductive Stop where
  | assertion
  | pageFault
  deriving DecidableEq, Repr

namespace Kernel

/-! ### What the kernel finds at an address -/

/-- The physical address behind a virtual one; the kernel may not write where an entry forbids it. -/
def translate (s : Kernel) (write : Bool) (vaddr : Nat) : Except Stop Nat :=
  let allowed := fun entry => hasFlag entry PTE_PRESENT && (!write || hasFlag entry PTE_WRITABLE)
  if allowed (s.pde s.cr3 vaddr) && allowed (s.pte s.cr3 vaddr) then
    .ok (getAddress (s.pte s.cr3 vaddr) + vaddr % 4096)
  else .error .pageFault

def loadByte (s : Kernel) (vaddr : Nat) : Except Stop Byte := do
  let paddr ← s.translate false vaddr
  return ((s.mem (paddr / 4096) (paddr % 4096 / 4)) >>> (8 * (paddr % 4))).setWidth 8

def storeByte (s : Kernel) (vaddr : Nat) (b : Byte) : Except Stop Kernel := do
  let paddr ← s.translate true vaddr
  let w := s.mem (paddr / 4096) (paddr % 4096 / 4)
  let shift := 8 * (paddr % 4)
  return s.setWord (paddr / 4096) (paddr % 4096 / 4)
    ((w &&& ~~~(0xff#32 <<< shift)) ||| (b.setWidth 32 <<< shift))

/-- `*(uint32 *)vaddr`; a `PTEptr` need not be aligned. -/
def loadWord (s : Kernel) (vaddr : Nat) : Except Stop Word := do
  let b₀ ← s.loadByte vaddr
  let b₁ ← s.loadByte (vaddr + 1)
  let b₂ ← s.loadByte (vaddr + 2)
  let b₃ ← s.loadByte (vaddr + 3)
  return b₃ ++ b₂ ++ b₁ ++ b₀

/-- `*(uint32 *)vaddr = w`. -/
def storeWord (s : Kernel) (vaddr : Nat) (w : Word) : Except Stop Kernel := do
  let s ← s.storeByte vaddr (w.setWidth 8)
  let s ← s.storeByte (vaddr + 1) ((w >>> 8).setWidth 8)
  let s ← s.storeByte (vaddr + 2) ((w >>> 16).setWidth 8)
  s.storeByte (vaddr + 3) ((w >>> 24).setWidth 8)

end Kernel

/-! ### `findVictim` -/

structure VictimInfo where
  PTEptr : Nat
  paddr : Nat
  deriving DecidableEq, Repr

/-- The search under way: `victim_idx` of the pool and `victims` by their priority. -/
structure Search where
  kernel : Kernel
  victimIdx : Nat
  victims : Nat → VictimInfo

/-- `access | dirty`. -/
def priority (w : Word) : Nat :=
  (if hasFlag w PTE_ACCESSED then 2 else 0) + (if hasFlag w PTE_DIRTY then 1 else 0)

namespace PAddressPool

/-- The body of the inner loop; the victim it returns at once. -/
def visit (p : PAddressPool) (lastRound : Bool) (c : Search) : Except Stop (Option VictimInfo × Search) :=
  if p.resources.isAlloc c.victimIdx then
    let pi := c.kernel.pageinfos (PA2PGI p.startAddress + c.victimIdx)
    if pi.has PG_SINGLE ∧ pi.ref = 1 then do
      let PTEptr := (c.kernel.rmapManager.RMapStart pi.extra).pteVaddr
      let w ← c.kernel.loadWord PTEptr
      if !lastRound && hasFlag w PTE_ACCESSED then
        let kernel ← c.kernel.storeWord PTEptr (w &&& ~~~PTE_ACCESSED)
        return (none, { c with kernel })
      else
        if (c.victims (priority w)).paddr = 0 then
          let victim := { PTEptr, paddr := (p.startAddress + c.victimIdx * PAGE_SIZE) % 2 ^ 32 }
          return (if priority w = 0 then some victim else none,
            { c with victims := Function.update c.victims (priority w) victim })
        else return (none, c)
    else return (none, c)
  else .error .assertion

/-- The inner loop, with `n` of its pages left. -/
def visitLoop (p : PAddressPool) (lastRound : Bool) : Nat → Search → Except Stop (Option VictimInfo × Search)
  | 0, c => return (none, c)
  | n + 1, c => do
      match ← p.visit lastRound c with
      | (some victim, c) => return (some victim, c)
      | (none, c) => p.visitLoop lastRound n { c with victimIdx := (c.victimIdx + 1) % p.length }

/-- The outer loop, with `n` of the rounds left. -/
def roundLoop (p : PAddressPool) (searchLength saved : Nat) :
    Nat → Search → Except Stop (Option VictimInfo × Search)
  | 0, c => return (none, c)
  | n + 1, c => do
      match ← p.visitLoop (decide (n = 0)) searchLength { c with victimIdx := saved } with
      | (some victim, c) => return (some victim, c)
      | (none, c) => p.roundLoop searchLength saved n c

/-- The first victim of the priorities 1 to 3 that has both addresses, else the invalid one. -/
def chooseVictim (victims : Nat → VictimInfo) : VictimInfo :=
  let usable := fun v : VictimInfo => v.paddr ≠ 0 ∧ v.PTEptr ≠ 0
  if usable (victims 1) then victims 1
  else if usable (victims 2) then victims 2
  else if usable (victims 3) then victims 3
  else { PTEptr := 0, paddr := 0 }

/-- How many pages are searched in a round. -/
def window (p : PAddressPool) (searchLength : Nat) : Nat :=
  if searchLength = 0 ∨ searchLength > p.length then p.length else searchLength

/-- `findVictim` of a pool whose `victim_idx` is given, and `victim_idx` and memory afterwards. -/
def findVictim (p : PAddressPool) (s : Kernel) (victimIdx searchLength round : Nat) :
    Except Stop (VictimInfo × Nat × Kernel) := do
  let start : Search := { kernel := s, victimIdx, victims := fun _ => { PTEptr := 0, paddr := 0 } }
  match ← p.roundLoop (p.window searchLength) victimIdx round start with
  | (some victim, c) => return (victim, c.victimIdx, c.kernel)
  | (none, c) => return (chooseVictim c.victims, c.victimIdx, c.kernel)

end PAddressPool

/-! ### Which assertions are asked -/

/-- A call fails no `ASSERT`, and what it returns is as `Q` says. -/
def Meets {α : Type} (x : Except Stop α) (Q : α → Prop) : Prop :=
  match x with
  | .ok a => Q a
  | .error e => e ≠ .assertion

theorem Meets.bind {α β : Type} {x : Except Stop α} {f : α → Except Stop β} {P : α → Prop}
    {Q : β → Prop} (hx : Meets x P) (hf : ∀ a, P a → Meets (f a) Q) : Meets (x >>= f) Q := by
  cases x with
  | ok a => exact hf a hx
  | error e => exact hx

theorem Meets.ne {α : Type} {x : Except Stop α} {Q : α → Prop} (h : Meets x Q) :
    x ≠ .error .assertion := by
  rintro rfl
  exact h rfl

namespace Kernel

theorem translate_meets (s : Kernel) (write : Bool) (vaddr : Nat) :
    Meets (s.translate write vaddr) fun _ => True := by
  rw [translate]
  split
  · exact trivial
  · exact Stop.noConfusion

theorem loadByte_meets (s : Kernel) (vaddr : Nat) : Meets (s.loadByte vaddr) fun _ => True :=
  (s.translate_meets false vaddr).bind fun _ _ => trivial

theorem storeByte_meets (s : Kernel) (vaddr : Nat) (b : Byte) :
    Meets (s.storeByte vaddr b) fun _ => True :=
  (s.translate_meets true vaddr).bind fun _ _ => trivial

theorem loadWord_meets (s : Kernel) (vaddr : Nat) : Meets (s.loadWord vaddr) fun _ => True := by
  refine (s.loadByte_meets vaddr).bind fun b₀ _ => ?_
  refine (s.loadByte_meets (vaddr + 1)).bind fun b₁ _ => ?_
  refine (s.loadByte_meets (vaddr + 2)).bind fun b₂ _ => ?_
  exact (s.loadByte_meets (vaddr + 3)).bind fun b₃ _ => trivial

theorem storeWord_meets (s : Kernel) (vaddr : Nat) (w : Word) :
    Meets (s.storeWord vaddr w) fun _ => True := by
  refine (s.storeByte_meets vaddr _).bind fun s₁ _ => ?_
  refine (s₁.storeByte_meets (vaddr + 1) _).bind fun s₂ _ => ?_
  refine (s₂.storeByte_meets (vaddr + 2) _).bind fun s₃ _ => ?_
  exact s₃.storeByte_meets (vaddr + 3) _

end Kernel

namespace PAddressPool

/-- A page in use is passed without a failed `ASSERT`, and `victim_idx` stays. -/
theorem visit_meets {p : PAddressPool} {c : Search} (lastRound : Bool)
    (h : p.resources.isAlloc c.victimIdx = true) :
    Meets (p.visit lastRound c) fun r => r.2.victimIdx = c.victimIdx := by
  rw [visit, if_pos h]
  dsimp only
  split
  · refine (c.kernel.loadWord_meets _).bind fun w _ => ?_
    split
    · exact (c.kernel.storeWord_meets _ _).bind fun _ _ => rfl
    · split
      · exact rfl
      · exact rfl
  · exact rfl

/-- `victim_idx` is the index of a page, if there is one. -/
def IdxOk (p : PAddressPool) (victimIdx : Nat) : Prop := 0 < p.length → victimIdx < p.length

theorem window_le (p : PAddressPool) (searchLength : Nat) : p.window searchLength ≤ p.length := by
  rw [window]
  split <;> omega

section InUse

variable {p : PAddressPool} (h : ∀ i, i < p.length → p.resources.isAlloc i = true)

include h

/-- Where every page is in use no page of a round fails the `ASSERT`. -/
theorem visitLoop_meets (lastRound : Bool) {n : Nat} (hn : n ≤ p.length) {c : Search}
    (hidx : p.IdxOk c.victimIdx) :
    Meets (p.visitLoop lastRound n c) fun r => p.IdxOk r.2.victimIdx := by
  induction n generalizing c with
  | zero => exact hidx
  | succ n ih =>
      have hpos : 0 < p.length := Nat.zero_lt_of_lt hn
      refine (visit_meets lastRound (h c.victimIdx (hidx hpos))).bind fun r hr => ?_
      obtain ⟨victim, c'⟩ := r
      cases victim with
      | some victim => exact fun _ => hr.trans_lt (hidx hpos)
      | none => exact ih (Nat.le_of_succ_le hn) fun _ => Nat.mod_lt _ hpos

theorem roundLoop_meets {searchLength saved : Nat} (hlen : searchLength ≤ p.length)
    (hsaved : p.IdxOk saved) (n : Nat) {c : Search} (hidx : p.IdxOk c.victimIdx) :
    Meets (p.roundLoop searchLength saved n c) fun r => p.IdxOk r.2.victimIdx := by
  induction n generalizing c with
  | zero => exact hidx
  | succ n ih =>
      refine (visitLoop_meets h (decide (n = 0)) hlen (c := { c with victimIdx := saved })
        hsaved).bind fun r hr => ?_
      obtain ⟨victim, c'⟩ := r
      cases victim with
      | some victim => exact hr
      | none => exact ih hr

/-- Where every page is in use `findVictim` fails no `ASSERT`, and `victim_idx` stays the index of a
page. -/
theorem findVictim_meets (s : Kernel) {victimIdx : Nat} (hidx : p.IdxOk victimIdx)
    (searchLength round : Nat) :
    Meets (p.findVictim s victimIdx searchLength round) fun r => p.IdxOk r.2.1 := by
  refine (roundLoop_meets h (p.window_le searchLength) hidx round hidx).bind fun r hr => ?_
  obtain ⟨victim, c⟩ := r
  cases victim with
  | some victim => exact hr
  | none => exact hr

end InUse

end PAddressPool

/-! ### Runs of a pool -/

namespace PAddressPool

/-- The runs of a pool from `p₀` on, with the allocations that are live, by the index of their first
page. -/
inductive Run (p₀ : PAddressPool) : PAddressPool → List (Nat × Int) → Prop
  | start : Run p₀ p₀ []
  | allocate {p p' : PAddressPool} {live : List (Nat × Int)} {count : Int} {index : Nat}
      (hrun : Run p₀ p live) (hcount : 1 ≤ count)
      (hres : p.allocate count = (some (index * PAGE_SIZE + p.startAddress), p')) :
      Run p₀ p' ((index, count) :: live)
  | refuse {p p' : PAddressPool} {live : List (Nat × Int)} {count : Int}
      (hrun : Run p₀ p live) (hcount : 1 ≤ count) (hres : p.allocate count = (none, p')) :
      Run p₀ p' live
  | release {p : PAddressPool} {live : List (Nat × Int)} {index : Nat} {count : Int}
      (hrun : Run p₀ p live) (hlive : (index, count) ∈ live) :
      Run p₀ (p.release (index * PAGE_SIZE + p.startAddress) count) (live.erase (index, count))

theorem allocate_eq (p : PAddressPool) (count : Int) :
    p.allocate count = ((p.resources.allocate count).1.map (· * PAGE_SIZE + p.startAddress),
      { p with resources := (p.resources.allocate count).2 }) := by
  rw [allocate]
  rcases p.resources.allocate count with ⟨start, r⟩
  cases start <;> rfl

theorem release_eq (p : PAddressPool) (index : Nat) (count : Int) :
    p.release (index * PAGE_SIZE + p.startAddress) count =
      { p with resources := p.resources.release index count } := by
  rw [release, Nat.add_sub_cancel, Nat.mul_div_cancel index (by decide)]

/-- A run of the pool is one of its allocator; the other fields stay. -/
theorem Run.resources {p₀ p : PAddressPool} {live : List (Nat × Int)} (h : Run p₀ p live) :
    Buddy.Run p₀.resources p.resources live ∧ p.startAddress = p₀.startAddress ∧
      p.length = p₀.length := by
  induction h with
  | start => exact ⟨Buddy.Run.start, rfl, rfl⟩
  | @allocate p p' live count index hrun hcount hres ih =>
      obtain ⟨hbuddy, hstart, hlength⟩ := ih
      rw [allocate_eq] at hres
      obtain ⟨haddr, rfl⟩ := Prod.mk.inj hres
      refine ⟨hbuddy.allocate hcount (Prod.ext ?_ rfl), hstart, hlength⟩
      obtain ⟨index', hindex, heq⟩ := Option.map_eq_some_iff.mp haddr
      rw [hindex]
      refine congrArg some ?_
      simp only [PAGE_SIZE] at heq
      omega
  | @refuse p p' live count hrun hcount hres ih =>
      obtain ⟨hbuddy, hstart, hlength⟩ := ih
      rw [allocate_eq] at hres
      obtain ⟨haddr, rfl⟩ := Prod.mk.inj hres
      exact ⟨hbuddy.refuse hcount (Prod.ext (Option.map_eq_none_iff.mp haddr) rfl), hstart, hlength⟩
  | release hrun hlive ih =>
      obtain ⟨hbuddy, hstart, hlength⟩ := ih
      rw [release_eq]
      exact ⟨hbuddy.release hlive, hstart, hlength⟩

end PAddressPool

/-! ### Exhaustion -/

namespace Buddy

theorem isAlloc_byte : ∀ (x : Byte) (k : Fin 8),
    (((x &&& (1#8 <<< k.val)).setWidth 32 &&& 1#32) != 0#32) =
      (decide (k = 0) && ((x &&& (1#8 <<< k.val)) != 0#8)) := by
  decide +kernel

/-- The bit `isAlloc` has found is not shifted down before it is tested, so that the test succeeds
for the first page of a byte at most. -/
theorem isAlloc_iff (b : Buddy) (idx : Nat) :
    b.isAlloc idx = true ↔ 8 ∣ idx ∧ getMap b.bitmap idx = true := by
  have hpos : idx &&& 0x7 = idx % 8 := Nat.and_two_pow_sub_one_eq_mod idx 3
  have hbyte : idx >>> 3 = idx / 8 := Nat.shiftRight_eq_div_pow idx 3
  have hlt : idx % 8 < 8 := Nat.mod_lt idx (by decide)
  have htest := isAlloc_byte (b.bitmap (idx / 8)) ⟨idx % 8, hlt⟩
  rw [isAlloc, getMap, hpos, hbyte, htest, Bool.and_eq_true, decide_eq_true_eq, Nat.dvd_iff_mod_eq_zero]
  refine and_congr_left fun _ => ?_
  exact ⟨fun h => congrArg Fin.val h, fun h => Fin.ext h⟩

/-- A page below the first 1024 is not lost. -/
theorem Lost.le {map : ByteMap} {N p : Nat} (h : Lost map N p) : 2 ^ MAX_ORDER ≤ p :=
  h.2.trans (Nat.mod_le p _)

end Buddy

namespace PAddressPool

/-- What `findVictim` relies on: `isAlloc` shows the pages in live allocations, and once the pool has
no page left, every page, so that no search fails the `ASSERT`. -/
structure Detects (p : PAddressPool) (live : List (Nat × Int)) : Prop where
  alloc : ∀ i, i < p.length → (p.resources.isAlloc i = true ↔ Buddy.Live live i)
  exhausted : (p.allocate 1).1 = none → ∀ i, i < p.length → p.resources.isAlloc i = true
  asserts : (p.allocate 1).1 = none → ∀ (s : Kernel) (victimIdx searchLength round : Nat),
    p.IdxOk victimIdx → p.findVictim s victimIdx searchLength round ≠ .error .assertion

/-- What is known of a reachable pool: the bits of the live pages are set, live pages exist, and when
no page is left the first one and the second one are live. -/
theorem Run.facts {p₀ p : PAddressPool} {N startAddress : Nat} {bitmap freeBitMap : ByteMap}
    {freeNodes : Nat → FreeNode} {live : List (Nat × Int)} (h : Buddy.Unused p₀.resources freeBitMap N)
    (hzero : ∀ i, i < N → getMap bitmap i = false)
    (hrun : Run (p₀.init bitmap N startAddress freeBitMap freeNodes) p live) :
    p.length = N ∧ (∀ i, i < N → (getMap p.resources.bitmap i = true ↔ Buddy.Live live i)) ∧
      (∀ i, Buddy.Live live i → i < N) ∧
      ((p.allocate 1).1 = none → ∀ i, i < N → i < 2 ^ MAX_ORDER → Buddy.Live live i) := by
  obtain ⟨hbuddy, -, hlength⟩ := hrun.resources
  obtain ⟨M, total, F₀, h₀⟩ := Buddy.inv_init h hzero freeNodes
  have hF₀ := Buddy.init_coalesced h bitmap freeNodes h₀.free
  obtain ⟨F, hinv⟩ := hbuddy.inv h₀
  have hF := hbuddy.coalesced h₀ hF₀ hinv.free
  refine ⟨hlength, hinv.bit, fun i ⟨a, ha, hi⟩ => hi.2.trans_le (hinv.bound a ha), fun hnone i hi hsmall => ?_⟩
  rw [allocate_eq, Option.map_eq_none_iff] at hnone
  obtain ⟨q, hq, hfree⟩ := hinv.refused hF hnone (t := i) (one_dvd i)
  obtain rfl : q = i := Nat.le_antisymm (Nat.le_of_lt_succ hq.2) hq.1
  -- a page that is not lost is managed, so in a free block or live
  obtain ⟨F₁, hF₁, -, -, -, -, hpage⟩ := Buddy.init_spec h bitmap freeNodes
  have hstart : Buddy.FreePage F₀ q := by
    rw [h₀.free.unique hF₁, hpage]
    exact ⟨hi, hzero q hi, fun hlost => absurd hlost.le (Nat.not_le.mpr hsmall)⟩
  have hM : M q := (h₀.managed q).mp (Or.inl hstart)
  exact ((hinv.managed q).mpr hM).resolve_left fun hfp => hfree ((Buddy.inBlock_iff hinv.free).mpr hfp)

/-- A reachable pool detects exhaustion exactly when no live page has an index that is not a multiple
of 8. -/
theorem detects_iff {p₀ p : PAddressPool} {N startAddress : Nat} {bitmap freeBitMap : ByteMap}
    {freeNodes : Nat → FreeNode} {live : List (Nat × Int)} (h : Buddy.Unused p₀.resources freeBitMap N)
    (hzero : ∀ i, i < N → getMap bitmap i = false)
    (hrun : Run (p₀.init bitmap N startAddress freeBitMap freeNodes) p live) :
    Detects p live ↔ ∀ i, Buddy.Live live i → 8 ∣ i := by
  obtain ⟨hlength, hbit, hbound, hfull⟩ := Run.facts h hzero hrun
  constructor
  · intro hdetects i hlive
    have hi := hbound i hlive
    exact ((p.resources.isAlloc_iff i).mp ((hdetects.alloc i (hlength ▸ hi)).mpr hlive)).1
  · intro height
    have halloc : ∀ i, i < p.length → (p.resources.isAlloc i = true ↔ Buddy.Live live i) := fun i hi => by
      rw [Buddy.isAlloc_iff, hbit i (hlength ▸ hi)]
      exact and_iff_right_of_imp (height i)
    have hall : (p.allocate 1).1 = none → ∀ i, i < p.length → p.resources.isAlloc i = true :=
      fun hnone i hi => by
        -- with a second page that one would be live
        have hone : N ≤ 1 := by
          by_contra hlt
          have hdvd := height 1 (hfull hnone 1 (by omega) (by decide))
          omega
        have hzero' : i = 0 := by omega
        subst hzero'
        exact (halloc 0 hi).mpr (hfull hnone 0 (hlength ▸ hi) (by decide))
    exact ⟨halloc, hall, fun hnone s victimIdx searchLength round hidx =>
      (findVictim_meets (hall hnone) s hidx searchLength round).ne⟩

/-- The only page of a pool of one page is allocated, and the pool shows that it is exhausted. -/
theorem detects_iff_one :
    let p₀ := Buddy.freshPool.init (fun _ => 0) 1 0x200000 (fun _ => 0) fun _ => default
    (p₀.allocate 1).1 = some 0x200000 ∧
      (Detects (p₀.allocate 1).2 [(0, 1)] ↔ ∀ i, Buddy.Live [(0, 1)] i → 8 ∣ i) :=
  have hres : ((Buddy.freshPool.init (fun _ => 0) 1 0x200000 (fun _ => 0) fun _ => default).allocate 1).1 =
      some 0x200000 := by rfl
  ⟨hres, detects_iff (Buddy.unused_freshPool 1) (fun i _ => Buddy.getMap_zero i)
    (Run.start.allocate (by decide) (Prod.ext hres rfl))⟩

/-- Of two pages both are allocated, and the second one is not shown. -/
theorem not_detects_two :
    let p₀ := Buddy.freshPool.init (fun _ => 0) 2 0x200000 (fun _ => 0) fun _ => default
    ¬Detects (p₀.allocate 2).2 [(0, 2)] := by
  intro p₀ hdetects
  have halloc := (hdetects.alloc 1 (by decide)).mpr ⟨(0, 2), List.mem_cons_self, by decide⟩
  exact absurd halloc (by decide)

end PAddressPool

end SysuOs
