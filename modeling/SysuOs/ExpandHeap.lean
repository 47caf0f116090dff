import Mathlib
import SysuOs.BitMapFit
import SysuOs.PagingKernel

/-! The system call `expandHeap`, from the number of pages a user passes to the bits of the heap pool. The
number is a `uint32` or an `int` by turns, so it is a word here, read as an `int` where `BitMap::allocate`
compares with it. -/

namespace SysuOs

namespace BitMap

/-! ### `allocate` with an `int` -/

/-- The loop over free resources. -/
def countFreeInt (b : BitMap) (count : Int) : Nat → Nat → Nat → Nat × Nat
  | 0, index, empty => (empty, index)
  | fuel + 1, index, empty =>
      if index < b.length ∧ b.get index = false ∧ (empty : Int) < count then
        b.countFreeInt count fuel (index + 1) (empty + 1)
      else (empty, index)

/-- The outer loop. -/
def allocateIntLoop (b : BitMap) (count : Int) : Nat → Nat → Outcome (Option Nat × BitMap)
  | 0, _ => .diverge
  | fuel + 1, index =>
      if index < b.length then
        let start := b.skipUsed b.length index
        if start = b.length then return (none, b)
        else
          let (empty, index) := b.countFreeInt count b.length start 0
          if (empty : Int) = count then return (some start, b.setRange start count.toNat true)
          else b.allocateIntLoop count fuel index
      else return (none, b)

/-- `BitMap::allocate` from the front; `none` is `-1`. -/
def allocateInt (b : BitMap) (fuel : Nat) (count : Int) : Outcome (Option Nat × BitMap) :=
  if count = 0 then return (none, b) else b.allocateIntLoop count fuel 0

end BitMap

/-! ### The call -/

/-- `VAddressPool::allocate` from the front. -/
def VAddressPool.allocateInt (p : VAddressPool) (fuel : Nat) (count : Int) (privilege : Byte) :
    Outcome (Word × VAddressPool) := do
  match ← p.resources.allocateInt fuel count with
  | (none, resources) => return (BitVec.ofInt 32 (-1), { p with resources })
  | (some start, resources) =>
      return (BitVec.ofNat 32 (start * 4096 + p.startAddress),
        { p with
          resources
          privileges := fun idx => if !p.isStatic && start ≤ idx && idx < start + count.toNat then privilege
            else p.privileges idx })

/-- `UserVAddressPool::allocate`, the case `HEAP`. -/
def UserVAddressPool.allocateHeap (u : UserVAddressPool) (fuel : Nat) (count : Word) :
    Outcome (Word × UserVAddressPool) := do
  let (address, heapPool) ← u.heapPool.allocateInt fuel count.toInt VP_CLEAR
  return (address, { u with heapPool })

/-- `allocateVirtualPages` for the heap of the process that runs. -/
def UserVAddressPool.allocateVirtualPages (u : UserVAddressPool) (fuel : Nat) (count : Word) :
    Outcome (Word × UserVAddressPool) := do
  let (start, u) ← u.allocateHeap fuel count
  return (if start = BitVec.ofInt 32 (-1) then 0#32 else start, u)

/-- What the loop of `allocatePagesLazy` does to the heap pool, with `left` of its pages left: `found i` tells
whether there is a page table for the `i`-th page, or a frame for one. -/
def UserVAddressPool.lazyLoop (found : Nat → Bool) (start count : Nat) :
    Nat → UserVAddressPool → UserVAddressPool
  | 0, u => u
  | left + 1, u =>
      let i := count - (left + 1)
      lazyLoop found start count left
        (if found i then u
        else (u.release .HEAP start i).release .HEAP (start + i * 4096) (count - i))

/-- `allocatePagesLazy`. -/
def UserVAddressPool.allocatePagesLazy (u : UserVAddressPool) (found : Nat → Bool) (fuel : Nat) (count : Word) :
    Outcome (Word × UserVAddressPool) := do
  let (start, u) ← u.allocateVirtualPages fuel count
  if start = 0#32 then return (0#32, u)
  else return (start, lazyLoop found start.toNat count.toInt.toNat count.toInt.toNat u)

/-- `syscall_expandHeap`. -/
def syscallExpandHeap (found : Nat → Bool) (u : UserVAddressPool) (fuel : Nat) (pageCount : Word) :
    Outcome (Word × UserVAddressPool) :=
  u.allocatePagesLazy found fuel pageCount

/-- There are so many pages in the heap pool, one after the other. -/
def HasRoom (u : UserVAddressPool) (pageCount : Word) : Prop :=
  pageCount ≠ 0#32 ∧ ∃ s, u.heapPool.resources.Fits pageCount.toNat s

/-- Each page that the loop goes over has a page table, or there is a frame for one. -/
def HasTables (found : Nat → Bool) (pageCount : Word) : Prop := ∀ i < pageCount.toNat, found i = true

/-- The pages asked for can be had, and the page tables for them. -/
def Satisfiable (found : Nat → Bool) (u : UserVAddressPool) (pageCount : Word) : Prop :=
  HasRoom u pageCount ∧ HasTables found pageCount

/-- The call terminates, and with 0 and the pool as it was if it cannot be satisfied. -/
structure Answered (found : Nat → Bool) (u : UserVAddressPool) (pageCount : Word) : Prop where
  terminates : ∃ fuel r, syscallExpandHeap found u fuel pageCount = .ret r
  refused : ¬Satisfiable found u pageCount → ∃ fuel, syscallExpandHeap found u fuel pageCount = .ret (0#32, u)

namespace BitMap

/-! ### When `allocate` returns -/

section Int

variable {b : BitMap} {count : Int} {n fuel index empty : Nat}

theorem countFreeInt_ofNat : b.countFreeInt (n : Int) fuel index empty = b.countFree n fuel index empty := by
  induction fuel generalizing index empty with
  | zero => rfl
  | succ fuel ih => simp only [countFreeInt, countFree, Nat.cast_lt, ih]

/-- No count goes past a negative number. -/
theorem countFreeInt_neg (hcount : count < 0) : b.countFreeInt count fuel index 0 = (0, index) := by
  cases fuel with
  | zero => rfl
  | succ fuel =>
      rw [countFreeInt, if_neg]
      rintro ⟨-, -, hlt⟩
      rw [Nat.cast_zero] at hlt
      exact absurd (hlt.trans hcount) (lt_irrefl 0)

/-- Every round of the outer loop gets further. -/
theorem countFree_progress (hn : 1 ≤ n) (hindex : index < b.length) (hfree : b.get index = false) :
    index < (b.countFree n b.length index 0).2 := by
  obtain ⟨hstop, -, hmost, -, hused⟩ := @countFree_stop b n b.length index index 0 (Nat.add_zero index).symm
    (Nat.zero_le n) (by omega) (le_of_lt hindex)
  by_contra hle
  have hstuck : (b.countFree n b.length index 0).2 = index := by omega
  have hbit := hused (by omega) (by omega)
  rw [hstuck, hfree] at hbit
  cases hbit

theorem allocateIntLoop_ofNat (hn : 1 ≤ n) (hindex : index ≤ b.length) (hfuel : b.length ≤ index + fuel) :
    b.allocateIntLoop (n : Int) (fuel + 1) index = .ret (b.allocateLoop n fuel index) := by
  induction fuel generalizing index with
  | zero =>
      rw [allocateIntLoop, if_neg (by omega)]
      rfl
  | succ fuel ih =>
      rw [allocateIntLoop, allocateLoop]
      by_cases hlt : index < b.length
      · rw [if_pos hlt, if_pos hlt]
        obtain ⟨hle, hle', -, hfree⟩ := skipUsed_spec hindex (by omega : b.length ≤ index + b.length)
        dsimp only
        rw [countFreeInt_ofNat]
        generalize b.skipUsed b.length index = start at hle hle' hfree
        by_cases hend : start = b.length
        · rw [if_pos hend, if_pos hend]
          rfl
        · rw [if_neg hend, if_neg hend]
          have hprogress := countFree_progress hn (by omega) (hfree (by omega))
          obtain ⟨-, -, -, hbound, -⟩ := @countFree_stop b n b.length start start 0 (Nat.add_zero start).symm
            (Nat.zero_le n) (by omega) hle'
          by_cases hfound : (b.countFree n b.length start 0).1 = n
          · rw [if_pos hfound, if_pos (congrArg Nat.cast hfound), Int.toNat_natCast]
            rfl
          · rw [if_neg hfound, if_neg fun h => hfound (Int.ofNat_inj.mp h)]
            exact ih hbound (by omega)
      · rw [if_neg hlt, if_neg hlt]
        rfl

/-- With a number that is not negative `allocate` returns what it returns for the natural number. -/
theorem allocateInt_ofNat (b : BitMap) (n : Nat) :
    b.allocateInt (b.length + 1) (n : Int) = .ret (b.allocate n) := by
  rw [allocateInt, allocate]
  by_cases hn : n = 0
  · rw [if_pos hn, if_pos (Int.natCast_eq_zero.mpr hn)]
    rfl
  · rw [if_neg hn, if_neg fun h => hn (Int.natCast_eq_zero.mp h)]
    exact allocateIntLoop_ofNat (by omega) (Nat.zero_le _) (by omega)

/-- With a negative number the outer loop stays at the first free resource. -/
theorem allocateIntLoop_diverges (hcount : count < 0) {i : Nat} (hi : index ≤ i) (hi' : i < b.length)
    (hfree : b.get i = false) : b.allocateIntLoop count fuel index = .diverge := by
  induction fuel generalizing index with
  | zero => rfl
  | succ fuel ih =>
      obtain ⟨-, -, hused, -⟩ := skipUsed_spec (by omega : index ≤ b.length)
        (by omega : b.length ≤ index + b.length)
      have hstart : b.skipUsed b.length index ≤ i := by
        by_contra hlt
        have hbit := hused i hi (by omega)
        rw [hfree] at hbit
        cases hbit
      rw [allocateIntLoop, if_pos (by omega)]
      dsimp only
      rw [if_neg (by omega), countFreeInt_neg hcount]
      dsimp only
      rw [if_neg (by rw [Nat.cast_zero]; exact hcount.ne')]
      exact ih hstart

theorem allocateInt_diverges (hcount : count < 0) {i : Nat} (hi : i < b.length) (hfree : b.get i = false) :
    b.allocateInt fuel count = .diverge := by
  rw [allocateInt, if_neg hcount.ne]
  exact allocateIntLoop_diverges hcount (Nat.zero_le i) hi hfree

/-- Where every resource is in use, `allocate` refuses every number. -/
theorem allocateInt_full (hused : ∀ i, i < b.length → b.get i = true) :
    b.allocateInt 1 count = .ret (none, b) := by
  rw [allocateInt]
  by_cases hcount : count = 0
  · rw [if_pos hcount]
    rfl
  · rw [if_neg hcount, allocateIntLoop]
    by_cases hlt : 0 < b.length
    · rw [if_pos hlt]
      obtain ⟨-, hle, -, hfree⟩ := skipUsed_spec (Nat.zero_le b.length) (by omega : b.length ≤ 0 + b.length)
      have hend : b.skipUsed b.length 0 = b.length := by
        by_contra hne
        have hbit := hfree (by omega)
        rw [hused _ (by omega)] at hbit
        cases hbit
      dsimp only
      rw [if_pos hend]
      rfl
    · rw [if_neg hlt]
      rfl

variable {fuel' : Nat} {r r' : Option Nat × BitMap}

theorem allocateIntLoop_mono (h : b.allocateIntLoop count fuel index = .ret r) :
    b.allocateIntLoop count (fuel + 1) index = .ret r := by
  induction fuel generalizing index with
  | zero => cases h
  | succ fuel ih =>
      rw [allocateIntLoop] at h ⊢
      by_cases hlt : index < b.length
      · rw [if_pos hlt] at h ⊢
        dsimp only at h ⊢
        by_cases hend : b.skipUsed b.length index = b.length
        · rw [if_pos hend] at h ⊢
          exact h
        · rw [if_neg hend] at h ⊢
          by_cases hfound : ((b.countFreeInt count b.length (b.skipUsed b.length index) 0).1 : Int) = count
          · rw [if_pos hfound] at h ⊢
            exact h
          · rw [if_neg hfound] at h ⊢
            exact ih h
      · rw [if_neg hlt] at h ⊢
        exact h

theorem allocateInt_le (hle : fuel ≤ fuel') (h : b.allocateInt fuel count = .ret r) :
    b.allocateInt fuel' count = .ret r := by
  induction hle with
  | refl => exact h
  | step _ ih =>
      rw [allocateInt] at ih ⊢
      by_cases hzero : count = 0
      · rw [if_pos hzero] at ih ⊢
        exact ih
      · rw [if_neg hzero] at ih ⊢
        exact allocateIntLoop_mono ih

/-- What `allocate` returns does not depend on the fuel. -/
theorem allocateInt_unique (h : b.allocateInt fuel count = .ret r) (h' : b.allocateInt fuel' count = .ret r') :
    r = r' := by
  have hmax := allocateInt_le (le_max_left fuel fuel') h
  rw [allocateInt_le (le_max_right fuel fuel') h'] at hmax
  exact (Outcome.ret.inj hmax).symm

/-- When `allocate` returns it has taken the first window that fits, or nothing. -/
theorem allocateInt_cases (h : b.allocateInt fuel count = .ret r) :
    r = (none, b) ∨ ∃ n s : Nat, count = (n : Int) ∧ 1 ≤ n ∧ r = (some s, b.setRange s n true) ∧
      IsLeast {s | b.Fits n s} s := by
  by_cases hcount : count < 0
  · refine Or.inl (allocateInt_unique h (allocateInt_full fun i hi => ?_))
    by_contra hfree
    rw [allocateInt_diverges hcount hi (Bool.not_eq_true _ ▸ hfree)] at h
    cases h
  · obtain ⟨n, rfl⟩ := Int.eq_ofNat_of_zero_le (not_lt.mp hcount)
    rw [allocateInt_unique h (b.allocateInt_ofNat n)]
    by_cases hn : n = 0
    · rw [hn]
      exact Or.inl rfl
    · obtain ⟨s, heq, hs⟩ | ⟨heq, -⟩ := b.allocateIn_cases (by omega : 1 ≤ n) false
      · exact Or.inr ⟨n, s, rfl, by omega, heq, hs⟩
      · exact Or.inl heq

end Int

end BitMap

/-! ### When the call returns -/

section Call

variable {found : Nat → Bool} {u : UserVAddressPool} {fuel : Nat} {pageCount : Word} {i : Nat}

/-- What `BitMap::allocate` refuses, the call answers with 0. -/
theorem syscallExpandHeap_refused
    (h : u.heapPool.resources.allocateInt fuel pageCount.toInt = .ret (none, u.heapPool.resources)) :
    syscallExpandHeap found u fuel pageCount = .ret (0#32, u) := by
  simp only [syscallExpandHeap, UserVAddressPool.allocatePagesLazy, UserVAddressPool.allocateVirtualPages,
    UserVAddressPool.allocateHeap, VAddressPool.allocateInt, h, Outcome.ret_bind, Outcome.pure_eq, if_true]

theorem syscallExpandHeap_returns {r : Option Nat × BitMap}
    (h : u.heapPool.resources.allocateInt fuel pageCount.toInt = .ret r) :
    ∃ r, syscallExpandHeap found u fuel pageCount = .ret r := by
  obtain ⟨start, resources⟩ := r
  simp only [syscallExpandHeap, UserVAddressPool.allocatePagesLazy, UserVAddressPool.allocateVirtualPages,
    UserVAddressPool.allocateHeap, VAddressPool.allocateInt, h, Outcome.ret_bind, Outcome.pure_eq]
  cases start with
  | none => exact ⟨_, rfl⟩
  | some start =>
      rw [Outcome.ret_bind, Outcome.ret_bind, Outcome.ret_bind]
      exact ⟨_, (apply_ite Outcome.ret _ _ _).symm⟩

theorem syscallExpandHeap_diverges
    (h : u.heapPool.resources.allocateInt fuel pageCount.toInt = .diverge) :
    syscallExpandHeap found u fuel pageCount = .diverge := by
  simp only [syscallExpandHeap, UserVAddressPool.allocatePagesLazy, UserVAddressPool.allocateVirtualPages,
    UserVAddressPool.allocateHeap, VAddressPool.allocateInt, h, Outcome.diverge_bind]

/-- A number of 2^31 pages or more is negative to `BitMap::allocate`. -/
theorem toInt_neg (h : ¬pageCount.toNat < 2 ^ 31) : pageCount.toInt < 0 := by
  have hlt := pageCount.isLt
  rw [BitVec.toInt_eq_toNat_cond, if_neg (by omega)]
  omega

theorem toInt_ofNat (h : pageCount.toNat < 2 ^ 31) : pageCount.toInt = (pageCount.toNat : Int) := by
  rw [BitVec.toInt_eq_toNat_cond, if_pos (by omega)]

theorem pos_of_ne_zero (h : pageCount ≠ 0#32) : 1 ≤ pageCount.toNat := by
  by_contra hlt
  exact h (BitVec.eq_of_toNat_eq (by rw [BitVec.toNat_ofNat]; omega))

theorem Answered.of_lt (h : pageCount.toNat < 2 ^ 31) (htables : HasRoom u pageCount → HasTables found pageCount) :
    Answered found u pageCount := by
  have hret := u.heapPool.resources.allocateInt_ofNat pageCount.toNat
  rw [← toInt_ofNat h] at hret
  refine ⟨⟨_, syscallExpandHeap_returns hret⟩, fun hno => ⟨_, syscallExpandHeap_refused (hret.trans ?_)⟩⟩
  have hroom : ¬HasRoom u pageCount := fun hroom => hno ⟨hroom, htables hroom⟩
  by_cases hzero : pageCount = 0#32
  · rw [hzero]
    rfl
  · obtain ⟨s, -, hs⟩ | ⟨heq, -⟩ := u.heapPool.resources.allocateIn_cases (pos_of_ne_zero hzero) false
    · exact absurd ⟨hzero, s, hs.fits⟩ hroom
    · exact congrArg Outcome.ret heq

theorem Answered.of_full (h : ∀ i, i < u.heapPool.resources.length → u.heapPool.resources.get i = true) :
    Answered found u pageCount :=
  ⟨⟨1, syscallExpandHeap_returns (BitMap.allocateInt_full h)⟩,
    fun _ => ⟨1, syscallExpandHeap_refused (BitMap.allocateInt_full h)⟩⟩

/-- From 2^31 pages on the call never returns if the pool has a free page. -/
theorem not_answered (h : ¬pageCount.toNat < 2 ^ 31) (hi : i < u.heapPool.resources.length)
    (hfree : u.heapPool.resources.get i = false) : ¬Answered found u pageCount := by
  rintro ⟨⟨fuel, r, hret⟩, -⟩
  have hdiverge : u.heapPool.resources.allocateInt fuel pageCount.toInt = .diverge :=
    BitMap.allocateInt_diverges (toInt_neg h) hi hfree
  rw [syscallExpandHeap_diverges hdiverge] at hret
  cases hret

/-- Where there is room but a page table is missing, the call does not return 0 with the pool as it was. -/
theorem not_answered_noTable (h : pageCount.toNat < 2 ^ 31) (hroom : HasRoom u pageCount)
    (htables : ¬HasTables found pageCount) : ¬Answered found u pageCount := by
  rintro ⟨-, hrefused⟩
  obtain ⟨fuel, hret⟩ := hrefused fun hsat => htables hsat.2
  obtain ⟨hne, s, hfits⟩ := hroom
  have hpos := pos_of_ne_zero hne
  have hint := u.heapPool.resources.allocateInt_ofNat pageCount.toNat
  obtain ⟨s', heq, hs'⟩ | ⟨-, hnone⟩ := u.heapPool.resources.allocateIn_cases hpos false
  swap
  · exact hnone s hfits
  change u.heapPool.resources.allocate _ = _ at heq
  rw [heq, ← toInt_ofNat h] at hint
  -- whatever returns, it has taken the pages
  cases halloc : u.heapPool.resources.allocateInt fuel pageCount.toInt with
  | ret r =>
      obtain rfl := BitMap.allocateInt_unique hint halloc
      simp only [syscallExpandHeap, UserVAddressPool.allocatePagesLazy, UserVAddressPool.allocateVirtualPages,
        UserVAddressPool.allocateHeap, VAddressPool.allocateInt, halloc, Outcome.ret_bind, Outcome.pure_eq] at hret
      generalize (if BitVec.ofNat 32 (s' * 4096 + u.heapPool.startAddress) = BitVec.ofInt 32 (-1) then 0#32
        else BitVec.ofNat 32 (s' * 4096 + u.heapPool.startAddress)) = address at hret
      by_cases hnull : address = 0#32
      · rw [if_pos hnull] at hret
        have hpool := congrArg (fun r : Word × UserVAddressPool => r.2.heapPool.resources.get s')
          (Outcome.ret.inj hret)
        dsimp only at hpool
        rw [BitMap.get_setRange, if_pos (by omega), (hs'.fits s' (le_refl s') (by omega)).2] at hpool
        cases hpool
      · rw [if_neg hnull] at hret
        exact hnull (congrArg Prod.fst (Outcome.ret.inj hret))
  | _ =>
      simp only [syscallExpandHeap, UserVAddressPool.allocatePagesLazy, UserVAddressPool.allocateVirtualPages,
        UserVAddressPool.allocateHeap, VAddressPool.allocateInt, halloc] at hret
      cases hret

end Call

/-- The call is answered for less than 2^31 pages if there are page tables for the pages there is room for, and
from there on only if no page of the pool is free. -/
theorem answered_iff (found : Nat → Bool) (u : UserVAddressPool) (pageCount : Word) :
    Answered found u pageCount ↔
      (pageCount.toNat < 2 ^ 31 ∧ (HasRoom u pageCount → HasTables found pageCount)) ∨
        ∀ i, i < u.heapPool.resources.length → u.heapPool.resources.get i = true := by
  constructor
  · intro h
    by_contra hno
    obtain ⟨hlt, hfull⟩ := not_or.mp hno
    by_cases hsmall : pageCount.toNat < 2 ^ 31
    · have hmissing := not_and.mp hlt hsmall
      rw [Classical.not_imp] at hmissing
      exact not_answered_noTable hsmall hmissing.1 hmissing.2 h
    · rw [not_forall] at hfull
      obtain ⟨i, hi⟩ := hfull
      rw [Classical.not_imp, Bool.not_eq_true] at hi
      exact not_answered hsmall hi.1 hi.2 h
  · rintro (⟨h, htables⟩ | h)
    · exact Answered.of_lt h htables
    · exact Answered.of_full h

/-- A pool with no page in use. -/
def emptyPool (length startAddress : Nat) : VAddressPool where
  length := length
  resources := ⟨fun _ => 0#8, length⟩
  startAddress := startAddress
  endAddress := startAddress + length * 4096 - 1
  privileges := fun _ => 0#8
  isStatic := true
  staticPrivilege := VP_RW ||| VP_USER

/-- The pools of a process that has not asked for a page, with a heap of 1 GB. -/
def emptyPools : UserVAddressPool where
  text := ⟨0x08048000, 0x08048fff⟩
  data := ⟨0x08049000, 0x08049fff⟩
  bss := ⟨0x0804a000, 0x0804afff⟩
  heapPool := emptyPool (2 ^ 18) 0x0804b000
  stackPool := emptyPool 1024 0xbfbf0000
  mmapPool := emptyPool 1024 0x80000000
  TLSPool := emptyPool 16 0x90000000
  owner := 1

/-- One process hangs the kernel with `expandHeap(0xffffffff)`. -/
theorem not_answered_minus_one : ¬∀ found u pageCount, Answered found u pageCount := by
  intro h
  have hfree : emptyPools.heapPool.resources.get 0 = false := by decide
  exact not_answered (by decide) (by decide : 0 < emptyPools.heapPool.resources.length) hfree
    (h (fun _ => true) emptyPools 0xffffffff#32)

end SysuOs
