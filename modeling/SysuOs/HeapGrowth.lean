import Mathlib
import SysuOs.KernelWindow
import SysuOs.PagingWords

/-! The heap of a program on both sides of the system call: `mem_sbrk`, which looks at the address that
`expandHeap` returns only once, and the first fit of the kernel over the heap pool. No page of a heap is given
back, and a fork copies the pool along with the statics of the allocator, so the pages in use are always the
first ones of the pool and every call gets the pages behind those of the call before. -/

namespace SysuOs.HeapGrowth

/-! ### The allocator of the user -/

def PAGE_SIZE : Word := 4096#32

def ALIGN_POW2 (num align : Word) : Word := (num + (align - 1)) &&& ~~~(align - 1)

/-- A process: its address pools, the statics of `mem_sbrk`, and the `expandHeap` calls since the program was
loaded, each with its answer, the last one first. -/
structure Process where
  userVirtual : UserVAddressPool
  memBrk : Word
  memMaxBrk : Word
  calls : List (Word × Word)

namespace Process

/-- The system call `expandHeap`, where no page table is missing. -/
def expandHeap (p : Process) (fuel : Nat) (pageCount : Word) : Outcome (Word × Process) := do
  let (startAddr, userVirtual) ← syscallExpandHeap (fun _ => true) p.userVirtual fuel pageCount
  return (startAddr, { p with userVirtual, calls := (pageCount, startAddr) :: p.calls })

/-- The part of `mem_sbrk` for the first call; `false` if it returns -1 from there. -/
def sbrkFirst (p : Process) (fuel : Nat) (incr : Word) : Outcome (Bool × Process) :=
  if p.memBrk = 0#32 then do
    let bytes := ALIGN_POW2 incr PAGE_SIZE
    let (startAddr, p) ← p.expandHeap fuel (bytes / PAGE_SIZE)
    return if startAddr = 0#32 then (false, p)
      else (true, { p with memBrk := startAddr, memMaxBrk := startAddr + bytes })
  else return (true, p)

/-- The rest of `mem_sbrk`. -/
def sbrkRest (p : Process) (fuel : Nat) (incr : Word) : Outcome (Option Word × Process) :=
  if p.memMaxBrk < p.memBrk + incr then do
    let deficit := p.memBrk + incr - p.memMaxBrk
    let bytesToRequest := ALIGN_POW2 deficit PAGE_SIZE
    let (startAddr, p') ← p.expandHeap fuel (bytesToRequest / PAGE_SIZE)
    return if startAddr = 0#32 then (none, p')
      else (some p.memBrk, { p' with memMaxBrk := p.memMaxBrk + bytesToRequest, memBrk := p.memBrk + incr })
  else return (some p.memBrk, { p with memBrk := p.memBrk + incr })

/-- `mem_sbrk`; `none` is -1. The increment is an `int`, the break a `uint32`. -/
def memSbrk (p : Process) (fuel : Nat) (incr : Word) : Outcome (Option Word × Process) :=
  if incr.toInt < 0 then return (none, p)
  else if incr = 0#32 then return (some p.memBrk, p)
  else do
    let (ok, p) ← p.sbrkFirst fuel incr
    if ok then p.sbrkRest fuel incr else return (none, p)

end Process

/-! ### Runs -/

/-- A call of `mem_sbrk` with its answer. -/
structure SbrkCall where
  before : Process
  incr : Word
  answer : Option Word
  after : Process

/-- What the processes of the system do, by their pids, with all the calls of `mem_sbrk` so far. A program
begins with the heap that `createUserVirtualPool` makes for it from `heap_begin` on. -/
inductive Run : (Nat → Option Process) → List SbrkCall → Prop
  | boot : Run (fun _ => none) []
  | load {s l} (pid : Nat) {heapBegin : Nat} {userVirtual} : Run s l → USER_VADDR_START ≤ heapBegin →
      heapBegin ≤ 0xbfff0000 → userVirtual.heapPool = emptyPool (2 ^ 18) heapBegin →
      Run (Function.update s pid (some ⟨userVirtual, 0#32, 0#32, []⟩)) l
  | fork {s l parent p} (child : Nat) : Run s l → s parent = some p →
      Run (Function.update s child (some { p with userVirtual := p.userVirtual.cloneFrom child })) l
  | exit {s l} (pid : Nat) : Run s l → Run (Function.update s pid none) l
  | expandHeap {s l pid p fuel pageCount startAddr p'} : Run s l → s pid = some p →
      p.expandHeap fuel pageCount = .ret (startAddr, p') → Run (Function.update s pid (some p')) l
  | memSbrk {s l pid p fuel incr answer p'} : Run s l → s pid = some p →
      p.memSbrk fuel incr = .ret (answer, p') →
      Run (Function.update s pid (some p')) (⟨p, incr, answer, p'⟩ :: l)
  -- a call that is about the other pools
  | other {s l pid p userVirtual} : Run s l → s pid = some p →
      userVirtual.heapPool = p.userVirtual.heapPool →
      Run (Function.update s pid (some { p with userVirtual })) l

/-- Of two calls in a row that succeed, the second gets the pages behind those of the first. -/
def Contiguous (calls : List (Word × Word)) : Prop :=
  ∀ j earlier later, calls[j + 1]? = some earlier → calls[j]? = some later → earlier.2 ≠ 0#32 →
    later.2 ≠ 0#32 → later.2.toNat = earlier.2.toNat + 4096 * earlier.1.toNat

/-- The page of an address is one that the kernel has given to the process. -/
def Process.Reserved (p : Process) (a : Nat) : Prop :=
  p.userVirtual.heapPool.startAddress ≤ a ∧
    (a - p.userVirtual.heapPool.startAddress) / 4096 < p.userVirtual.heapPool.resources.length ∧
    p.userVirtual.heapPool.resources.get ((a - p.userVirtual.heapPool.startAddress) / 4096) = true

/-- What a call returns is memory of the process, and begins at the previous break, or at the first page of the
heap that `mem_sbrk` gets. -/
structure SbrkCall.Inside (c : SbrkCall) : Prop where
  reserved : ∀ a, c.answer = some a → ∀ k, k < c.incr.toNat → c.after.Reserved (a.toNat + k)
  adjacent : ∀ a, c.answer = some a → a = c.before.memBrk ∨
    c.before.memBrk = 0#32 ∧ ∃ pageCount, c.after.calls = (pageCount, a) :: c.before.calls
  break_ : ∀ a, c.answer = some a → c.after.memBrk.toNat = a.toNat + c.incr.toNat

/-- The new break is a `uint32`. -/
def SbrkCall.Below (c : SbrkCall) : Prop := 0 ≤ c.incr.toInt → c.before.memBrk.toNat + c.incr.toNat < 2 ^ 32

/-! ### The kernel -/

section Kernel

variable {u u' : UserVAddressPool} {p p' : Process} {fuel start last n : Nat} {pageCount startAddr : Word}
  {calls : List (Word × Word)}

/-- Where no page table is missing, the loop over the pages leaves the pools as they are. -/
theorem lazyLoop_found {count left : Nat} :
    UserVAddressPool.lazyLoop (fun _ => true) start count left u = u := by
  induction left with
  | zero => rfl
  | succ left ih => exact ih

theorem syscallExpandHeap_eq : syscallExpandHeap (fun _ => true) u fuel pageCount =
    (do
      let (address, heapPool) ← u.heapPool.allocateInt fuel pageCount.toInt VP_CLEAR
      return (if address = BitVec.ofInt 32 (-1) then 0#32 else address, { u with heapPool })) := by
  rw [syscallExpandHeap, UserVAddressPool.allocatePagesLazy, UserVAddressPool.allocateVirtualPages,
    UserVAddressPool.allocateHeap]
  cases u.heapPool.allocateInt fuel pageCount.toInt VP_CLEAR with
  | halt => rfl
  | diverge => rfl
  | ret r =>
      obtain ⟨address, heapPool⟩ := r
      simp only [Outcome.ret_bind, Outcome.pure_eq, lazyLoop_found]
      by_cases hzero : (if address = BitVec.ofInt 32 (-1) then 0#32 else address) = 0#32
      · rw [if_pos hzero, hzero]
      · rw [if_neg hzero]

/-- The first `n` pages of the heap pool are in use, and no other one. -/
structure Prefix (start n : Nat) (u : UserVAddressPool) : Prop where
  startAddress : u.heapPool.startAddress = start
  length : u.heapPool.resources.length = 2 ^ 18
  low : USER_VADDR_START ≤ start
  high : start ≤ 0xbfff0000
  room : n ≤ 2 ^ 18
  used : ∀ i, i < 2 ^ 18 → (u.heapPool.resources.get i = true ↔ i < n)

/-- In such a pool the windows that fit begin behind the pages in use. -/
theorem Prefix.fits_iff {count s : Nat} (h : Prefix start n u) (hcount : 1 ≤ count) :
    u.heapPool.resources.Fits count s ↔ n ≤ s ∧ s + count ≤ 2 ^ 18 := by
  constructor
  · intro hfits
    obtain ⟨hlast, -⟩ := hfits (s + count - 1) (by omega) (by omega)
    obtain ⟨hlt, hfree⟩ := hfits s (le_refl s) (by omega)
    rw [h.length] at hlast hlt
    have hused := (h.used s hlt).not.mp (by rw [hfree]; exact Bool.false_ne_true)
    omega
  · rintro ⟨hle, hend⟩ j hj hj'
    refine ⟨by rw [h.length]; omega, ?_⟩
    rw [← Bool.not_eq_true, h.used j (by omega)]
    omega

theorem Prefix.take {count : Nat} (h : Prefix start n u) (hroom : n + count ≤ 2 ^ 18)
    (hstart : u'.heapPool.startAddress = u.heapPool.startAddress)
    (hresources : u'.heapPool.resources = u.heapPool.resources.setRange n count true) :
    Prefix start (n + count) u' where
  startAddress := hstart.trans h.startAddress
  length := by rw [hresources, BitMap.setRange_length, h.length]
  low := h.low
  high := h.high
  room := hroom
  used := fun i hi => by
    rw [hresources, BitMap.get_setRange]
    by_cases hin : n ≤ i ∧ i < n + count
    · rw [if_pos hin]
      exact ⟨fun _ => hin.2, fun _ => rfl⟩
    · rw [if_neg hin, h.used i hi]
      omega

theorem Prefix.congr (h : Prefix start n u) (hpool : u'.heapPool = u.heapPool) : Prefix start n u' := by
  refine ⟨?_, ?_, h.low, h.high, h.room, fun i hi => ?_⟩
  · rw [hpool, h.startAddress]
  · rw [hpool, h.length]
  · rw [hpool, h.used i hi]

/-- The address behind the pages in use is a `uint32`, and no error code. -/
theorem Prefix.address (h : Prefix start n u) :
    (BitVec.ofNat 32 (start + 4096 * n)).toNat = start + 4096 * n := by
  have hroom := h.room
  have hhigh := h.high
  rw [BitVec.toNat_ofNat]
  exact Nat.mod_eq_of_lt (by omega)

/-- An answer of the kernel: 0, or the pages behind those in use. -/
theorem Prefix.expandHeap (h : Prefix start n u)
    (hcall : syscallExpandHeap (fun _ => true) u fuel pageCount = .ret (startAddr, u')) :
    (startAddr = 0#32 ∧ u' = u) ∨
      (startAddr ≠ 0#32 ∧ startAddr.toNat = start + 4096 * n ∧ Prefix start (n + pageCount.toNat) u') := by
  rw [syscallExpandHeap_eq] at hcall
  obtain ⟨⟨address, heapPool⟩, halloc, hret⟩ := Outcome.bind_eq_ret hcall
  obtain ⟨rfl, rfl⟩ := Prod.mk.inj (Outcome.ret.inj hret)
  obtain ⟨rfl, rfl⟩ | ⟨count, s, hcount, hpos, hleast, rfl, hresources, hstart⟩ :=
    KernelWindow.allocateInt_cases halloc
  · exact Or.inl ⟨if_pos rfl, rfl⟩
  · have hs := (h.fits_iff hpos).mp hleast.1
    have hle : s ≤ n := hleast.2 ((h.fits_iff hpos).mpr ⟨le_refl n, by omega⟩)
    obtain rfl : s = n := le_antisymm hle hs.1
    have hcount' : pageCount.toNat = count := by
      have hlt := pageCount.isLt
      rw [BitVec.toInt_eq_toNat_cond] at hcount
      split at hcount
      · exact Int.ofNat_inj.mp hcount
      · omega
    have haddress : (BitVec.ofNat 32 (s * 4096 + u.heapPool.startAddress)).toNat = start + 4096 * s := by
      rw [h.startAddress, Nat.add_comm, Nat.mul_comm]
      exact h.address
    have hhigh := h.high
    have hlow := h.low
    have hne : BitVec.ofNat 32 (s * 4096 + u.heapPool.startAddress) ≠ BitVec.ofInt 32 (-1) := fun heq => by
      rw [heq, show (BitVec.ofInt 32 (-1)).toNat = 2 ^ 32 - 1 from rfl] at haddress
      omega
    have hpositive : BitVec.ofNat 32 (s * 4096 + u.heapPool.startAddress) ≠ 0#32 := fun heq => by
      rw [heq, show (0#32).toNat = 0 from rfl] at haddress
      rw [USER_VADDR_START] at hlow
      omega
    rw [if_neg hne]
    refine Or.inr ⟨hpositive, haddress, ?_⟩
    rw [hcount']
    exact h.take hs.2 hstart hresources

/-- A request that fits is granted, and the answer is the address behind the pages in use. -/
theorem Prefix.expandHeap_room (h : Prefix start n u) (hpos : 1 ≤ pageCount.toNat)
    (hroom : n + pageCount.toNat ≤ 2 ^ 18) :
    ∃ fuel u', syscallExpandHeap (fun _ => true) u fuel pageCount =
        .ret (BitVec.ofNat 32 (start + 4096 * n), u') := by
  have hret := u.heapPool.resources.allocateInt_ofNat pageCount.toNat
  rw [← toInt_ofNat (by omega), h.length] at hret
  obtain ⟨s, heq, hs⟩ | ⟨-, hno⟩ := u.heapPool.resources.allocateIn_cases hpos false
  · have hcall : ∃ fuel a u', syscallExpandHeap (fun _ => true) u fuel pageCount = .ret (a, u') ∧
        u'.heapPool.resources = u.heapPool.resources.setRange s pageCount.toNat true := by
      refine ⟨2 ^ 18 + 1, ?_⟩
      rw [syscallExpandHeap_eq, VAddressPool.allocateInt, hret.trans (congrArg Outcome.ret heq)]
      exact ⟨_, _, rfl, rfl⟩
    obtain ⟨fuel, a, u', hcall, hresources⟩ := hcall
    obtain ⟨-, rfl⟩ | ⟨-, haddress, -⟩ := h.expandHeap hcall
    · -- the pool has changed, so the call has not been refused
      have hfree := (hs.fits s (le_refl s) (by omega)).2
      have hused := congrArg (BitMap.get · s) hresources
      rw [hfree, BitMap.get_setRange, if_pos ⟨le_refl s, by omega⟩] at hused
      cases hused
    · refine ⟨fuel, u', ?_⟩
      rw [hcall, ← haddress, BitVec.ofNat_toNat, BitVec.setWidth_eq]
  · exact absurd ((h.fits_iff hpos).mpr ⟨le_refl n, hroom⟩) (hno n)

end Kernel

/-! ### The calls of one process -/

/-- The calls that succeed get pages one behind the other, from `start` up to `last`. -/
inductive Laid (start : Nat) : Nat → List (Word × Word) → Prop
  | none : Laid start start []
  | refused {last calls} (pageCount : Word) : Laid start last calls →
      Laid start last ((pageCount, 0#32) :: calls)
  | given {last calls startAddr} (pageCount : Word) : Laid start last calls → startAddr ≠ 0#32 →
      startAddr.toNat = last → Laid start (last + 4096 * pageCount.toNat) ((pageCount, startAddr) :: calls)

theorem Laid.head {start last : Nat} {call : Word × Word} {calls : List (Word × Word)}
    (h : Laid start last (call :: calls)) (hne : call.2 ≠ 0#32) :
    last = call.2.toNat + 4096 * call.1.toNat := by
  cases h with
  | refused => exact absurd rfl hne
  | given pageCount hlaid hstart heq => exact congrArg (· + 4096 * pageCount.toNat) heq.symm

theorem Laid.contiguous {start last : Nat} {calls : List (Word × Word)} (h : Laid start last calls) :
    Contiguous calls := by
  induction h with
  | none =>
      intro j earlier later hearlier
      cases hearlier
  | refused pageCount hlaid ih =>
      intro j earlier later hearlier hlater hne hne'
      cases j with
      | zero =>
          obtain rfl := Option.some.inj hlater
          exact absurd rfl hne'
      | succ j => exact ih j earlier later hearlier hlater hne hne'
  | @given last calls startAddr pageCount hlaid hstart heq ih =>
      intro j earlier later hearlier hlater hne hne'
      cases j with
      | zero =>
          obtain rfl := Option.some.inj hlater
          cases calls with
          | nil => cases hearlier
          | cons call calls =>
              obtain rfl := Option.some.inj hearlier
              exact heq.trans (hlaid.head hne)
      | succ j => exact ih j earlier later hearlier hlater hne hne'

/-- The pages in use are those of the calls. -/
structure Grown (start n : Nat) (p : Process) : Prop where
  pool : Prefix start n p.userVirtual
  calls : Laid start (start + 4096 * n) p.calls

/-- The break and its bound lie in the pages in use, once there is a break. -/
def Sound (start n : Nat) (p : Process) : Prop :=
  p.memBrk ≠ 0#32 → start ≤ p.memBrk.toNat ∧ p.memBrk.toNat ≤ p.memMaxBrk.toNat ∧
    p.memMaxBrk.toNat ≤ start + 4096 * n

theorem Sound.mono {start n n' : Nat} {p p' : Process} (h : Sound start n p) (hle : n ≤ n')
    (hbrk : p'.memBrk = p.memBrk) (hmax : p'.memMaxBrk = p.memMaxBrk) : Sound start n' p' := by
  intro hne
  rw [hbrk] at hne
  obtain ⟨hlow, hmiddle, hhigh⟩ := h hne
  rw [hbrk, hmax]
  omega

section Process

variable {p p' : Process} {fuel start n : Nat} {pageCount startAddr incr : Word}

theorem Grown.expandHeap (h : Grown start n p) (hcall : p.expandHeap fuel pageCount = .ret (startAddr, p')) :
    p' = { p with userVirtual := p'.userVirtual, calls := (pageCount, startAddr) :: p.calls } ∧
      ((startAddr = 0#32 ∧ Grown start n p') ∨
        (startAddr ≠ 0#32 ∧ startAddr.toNat = start + 4096 * n ∧ Grown start (n + pageCount.toNat) p')) := by
  obtain ⟨⟨answer, u⟩, hsys, hret⟩ := Outcome.bind_eq_ret hcall
  obtain ⟨rfl, rfl⟩ := Prod.mk.inj (Outcome.ret.inj hret)
  refine ⟨rfl, ?_⟩
  obtain ⟨rfl, rfl⟩ | ⟨hne, haddress, hprefix⟩ := h.pool.expandHeap hsys
  · exact Or.inl ⟨rfl, h.pool, h.calls.refused pageCount⟩
  · have hlaid := h.calls.given pageCount hne haddress
    rw [Nat.add_assoc, ← Nat.mul_add] at hlaid
    exact Or.inr ⟨hne, haddress, hprefix, hlaid⟩

/-- The number of pages of an increment, rounded up. -/
theorem pages_toNat {num : Word} (h : num.toNat < 2 ^ 31) :
    (ALIGN_POW2 num PAGE_SIZE).toNat = (num.toNat + 4095) / 4096 * 4096 ∧
      (ALIGN_POW2 num PAGE_SIZE / PAGE_SIZE).toNat = (num.toNat + 4095) / 4096 := by
  have hsum : (num + (PAGE_SIZE - 1)).toNat = num.toNat + 4095 := by
    unfold PAGE_SIZE
    bv_omega
  have hmask : (ALIGN_POW2 num PAGE_SIZE).toNat = (num.toNat + 4095) / 4096 * 4096 := by
    rw [← hsum]
    exact getAddress_eq _
  refine ⟨hmask, ?_⟩
  rw [BitVec.toNat_udiv, hmask]
  exact Nat.mul_div_cancel _ (by norm_num)

theorem Grown.withBreak {memBrk memMaxBrk : Word} (h : Grown start n p) :
    Grown start n { p with memBrk, memMaxBrk } := ⟨h.pool, h.calls⟩

/-- The first call sets the break to the first page that it gets, and the bound behind the pages it asks for. -/
theorem Grown.sbrkFirst {ok : Bool} (h : Grown start n p) (hincr : incr.toNat < 2 ^ 31)
    (hcall : p.sbrkFirst fuel incr = .ret (ok, p')) :
    (p.memBrk ≠ 0#32 ∧ ok = true ∧ p' = p) ∨ (p.memBrk = 0#32 ∧ ∃ n', Grown start n' p' ∧
      ((ok = false ∧ p'.memBrk = 0#32) ∨
        (ok = true ∧ p'.memBrk ≠ 0#32 ∧ Sound start n' p' ∧
          p'.memBrk.toNat + incr.toNat ≤ p'.memMaxBrk.toNat ∧
          ∃ pageCount, p'.calls = (pageCount, p'.memBrk) :: p.calls))) := by
  rw [Process.sbrkFirst] at hcall
  by_cases hzero : p.memBrk = 0#32
  · rw [if_pos hzero] at hcall
    obtain ⟨⟨startAddr, q⟩, hexpand, hret⟩ := Outcome.bind_eq_ret hcall
    dsimp only at hret
    obtain ⟨hq, ⟨hstart, hgrown⟩ | ⟨hne, haddress, hgrown⟩⟩ := h.expandHeap hexpand
    · rw [if_pos hstart] at hret
      obtain ⟨rfl, rfl⟩ := Prod.mk.inj (Outcome.ret.inj hret)
      refine Or.inr ⟨hzero, n, hgrown, Or.inl ⟨rfl, ?_⟩⟩
      rw [hq]
      exact hzero
    · rw [if_neg hne] at hret
      obtain ⟨rfl, rfl⟩ := Prod.mk.inj (Outcome.ret.inj hret)
      obtain ⟨hbytes, hpages⟩ := pages_toNat hincr
      have hroom := hgrown.pool.room
      have hhigh := hgrown.pool.high
      have hmax : (startAddr + ALIGN_POW2 incr PAGE_SIZE).toNat =
          startAddr.toNat + (incr.toNat + 4095) / 4096 * 4096 := by
        rw [BitVec.toNat_add, hbytes]
        exact Nat.mod_eq_of_lt (by omega)
      refine Or.inr ⟨hzero, _, hgrown.withBreak, Or.inr ⟨rfl, hne, fun _ => ?_, ?_,
        ALIGN_POW2 incr PAGE_SIZE / PAGE_SIZE, congrArg Process.calls hq⟩⟩
      · dsimp only
        omega
      · dsimp only
        omega
  · rw [if_neg hzero] at hcall
    obtain ⟨rfl, rfl⟩ := Prod.mk.inj (Outcome.ret.inj hcall)
    exact Or.inl ⟨hzero, rfl, rfl⟩

/-- A break that is moved by a number below 2^32 stays in the pages in use. -/
theorem Grown.sbrkRest {answer : Option Word} (h : Grown start n p)
    (hcall : p.sbrkRest fuel incr = .ret (answer, p')) :
    ∃ n', Grown start n' p' ∧ (p.memBrk ≠ 0#32 → incr.toNat < 2 ^ 31 → Sound start n p →
      p.memBrk.toNat + incr.toNat < 2 ^ 32 → Sound start n' p' ∧ ∀ a, answer = some a →
        a = p.memBrk ∧ p'.memBrk.toNat = a.toNat + incr.toNat ∧
          (p.memBrk.toNat + incr.toNat ≤ p.memMaxBrk.toNat → p'.calls = p.calls)) := by
  have hsum : p.memBrk.toNat + incr.toNat < 2 ^ 32 → (p.memBrk + incr).toNat = p.memBrk.toNat + incr.toNat :=
    BitVec.toNat_add_of_lt
  rw [Process.sbrkRest] at hcall
  by_cases hmore : p.memMaxBrk < p.memBrk + incr
  · rw [if_pos hmore] at hcall
    obtain ⟨⟨startAddr, q⟩, hexpand, hret⟩ := Outcome.bind_eq_ret hcall
    dsimp only at hret
    obtain ⟨hq, ⟨hstart, hgrown⟩ | ⟨hne, haddress, hgrown⟩⟩ := h.expandHeap hexpand
    · rw [if_pos hstart] at hret
      obtain ⟨rfl, rfl⟩ := Prod.mk.inj (Outcome.ret.inj hret)
      refine ⟨n, hgrown, fun hbrk _ hsound _ => ⟨?_, fun a ha => nomatch ha⟩⟩
      rw [hq]
      exact hsound
    · rw [if_neg hne] at hret
      obtain ⟨rfl, rfl⟩ := Prod.mk.inj (Outcome.ret.inj hret)
      refine ⟨_, hgrown.withBreak, fun hbrk hincr hsound hbelow => ?_⟩
      obtain ⟨hlow, hle, hhigh⟩ := hsound hbrk
      have hbreak := hsum hbelow
      rw [BitVec.lt_def, hbreak] at hmore
      have hdeficit : (p.memBrk + incr - p.memMaxBrk).toNat =
          p.memBrk.toNat + incr.toNat - p.memMaxBrk.toNat := by
        rw [BitVec.toNat_sub_of_le (by rw [BitVec.le_def, hbreak]; omega), hbreak]
      obtain ⟨hbytes, hpages⟩ := @pages_toNat (p.memBrk + incr - p.memMaxBrk) (by omega)
      rw [hdeficit] at hbytes hpages
      have hroom := hgrown.pool.room
      have htop := hgrown.pool.high
      have hmax : (p.memMaxBrk + ALIGN_POW2 (p.memBrk + incr - p.memMaxBrk) PAGE_SIZE).toNat =
          p.memMaxBrk.toNat + (p.memBrk.toNat + incr.toNat - p.memMaxBrk.toNat + 4095) / 4096 * 4096 := by
        rw [BitVec.toNat_add, hbytes]
        exact Nat.mod_eq_of_lt (by omega)
      constructor
      · intro _
        dsimp only
        omega
      · intro a ha
        obtain rfl := Option.some.inj ha
        exact ⟨rfl, hbreak, fun hfits => absurd hmore (by omega)⟩
  · rw [if_neg hmore] at hcall
    obtain ⟨rfl, rfl⟩ := Prod.mk.inj (Outcome.ret.inj hcall)
    refine ⟨n, h.withBreak, fun hbrk hincr hsound hbelow => ?_⟩
    obtain ⟨hlow, hle, hhigh⟩ := hsound hbrk
    have hbreak := hsum hbelow
    rw [BitVec.lt_def, hbreak] at hmore
    constructor
    · intro _
      dsimp only
      omega
    · intro a ha
      obtain rfl := Option.some.inj ha
      exact ⟨rfl, hbreak, fun _ => rfl⟩

theorem Grown.reserved {a : Nat} (h : Grown start n p) (hlow : start ≤ a) (hhigh : a < start + 4096 * n) :
    p.Reserved a := by
  have hroom := h.pool.room
  rw [Process.Reserved, h.pool.startAddress, h.pool.length]
  exact ⟨hlow, by omega, (h.pool.used _ (by omega)).mpr (by omega)⟩

theorem SbrkCall.Inside.none : SbrkCall.Inside ⟨p, incr, none, p'⟩ where
  reserved := fun _ ha => nomatch ha
  adjacent := fun _ ha => nomatch ha
  break_ := fun _ ha => nomatch ha

/-- Between the old and the new break all the pages are in use. -/
theorem Grown.inside {a : Word} (h : Grown start n p') (hsound : Sound start n p') (hlow : start ≤ a.toNat)
    (hbreak : p'.memBrk.toNat = a.toNat + incr.toNat)
    (hadjacent : a = p.memBrk ∨ p.memBrk = 0#32 ∧ ∃ pageCount, p'.calls = (pageCount, a) :: p.calls) :
    SbrkCall.Inside ⟨p, incr, some a, p'⟩ where
  reserved := fun b hb k hk => by
    obtain rfl := Option.some.inj hb
    dsimp only at hk ⊢
    have hne : p'.memBrk ≠ 0#32 := fun heq => by
      rw [heq, show (0#32).toNat = 0 from rfl] at hbreak
      omega
    obtain ⟨-, hle, hhigh⟩ := hsound hne
    exact h.reserved (by omega) (by omega)
  adjacent := fun b hb => by
    obtain rfl := Option.some.inj hb
    exact hadjacent
  break_ := fun b hb => by
    obtain rfl := Option.some.inj hb
    exact hbreak

/-- `mem_sbrk` with a new break below 2^32. -/
theorem Grown.memSbrk {answer : Option Word} (h : Grown start n p)
    (hcall : p.memSbrk fuel incr = .ret (answer, p')) :
    ∃ n', Grown start n' p' ∧ (Sound start n p → SbrkCall.Below ⟨p, incr, answer, p'⟩ →
      Sound start n' p' ∧ SbrkCall.Inside ⟨p, incr, answer, p'⟩) := by
  rw [Process.memSbrk] at hcall
  by_cases hneg : incr.toInt < 0
  · rw [if_pos hneg] at hcall
    obtain ⟨rfl, rfl⟩ := Prod.mk.inj (Outcome.ret.inj hcall)
    exact ⟨n, h, fun hsound _ => ⟨hsound, SbrkCall.Inside.none⟩⟩
  rw [if_neg hneg] at hcall
  by_cases hzero : incr = 0#32
  · rw [if_pos hzero] at hcall
    obtain ⟨rfl, rfl⟩ := Prod.mk.inj (Outcome.ret.inj hcall)
    refine ⟨n, h, fun hsound _ => ⟨hsound, fun a ha k hk => ?_, fun a ha => ?_, fun a ha => ?_⟩⟩
    · rw [hzero] at hk
      exact absurd hk (Nat.not_lt_zero k)
    · exact Or.inl (Option.some.inj ha).symm
    · obtain rfl := Option.some.inj ha
      rw [hzero]
      rfl
  rw [if_neg hzero] at hcall
  have hincr : incr.toNat < 2 ^ 31 := by
    by_contra hlarge
    exact hneg (toInt_neg hlarge)
  have hpos : 0 < incr.toNat := Nat.pos_of_ne_zero fun heq => hzero (BitVec.eq_of_toNat_eq heq)
  obtain ⟨⟨ok, q⟩, hfirst, hret⟩ := Outcome.bind_eq_ret hcall
  dsimp only at hret
  obtain ⟨hbrk, rfl, rfl⟩ | ⟨hbrk, m, hgrown, ⟨rfl, hnone⟩ | ⟨rfl, hsome, hsound, hfits, pageCount, hcalls⟩⟩ :=
    h.sbrkFirst hincr hfirst
  · -- there is a break
    obtain ⟨n', hgrown, hmoved⟩ := h.sbrkRest hret
    refine ⟨n', hgrown, fun hsound hbelow => ?_⟩
    obtain ⟨hsound', hanswer⟩ := hmoved hbrk hincr hsound (hbelow (not_lt.mp hneg))
    refine ⟨hsound', ?_⟩
    cases answer with
    | none => exact SbrkCall.Inside.none
    | some a =>
        obtain ⟨rfl, hbreak, -⟩ := hanswer a rfl
        exact hgrown.inside hsound' (hsound hbrk).1 hbreak (Or.inl rfl)
  · obtain ⟨rfl, rfl⟩ := Prod.mk.inj (Outcome.ret.inj hret)
    exact ⟨m, hgrown, fun _ _ => ⟨fun hne => absurd hnone hne, SbrkCall.Inside.none⟩⟩
  · -- the first call
    obtain ⟨n', hgrown', hmoved⟩ := hgrown.sbrkRest hret
    refine ⟨n', hgrown', fun _ _ => ?_⟩
    have hmax := q.memMaxBrk.isLt
    obtain ⟨hsound', hanswer⟩ := hmoved hsome hincr hsound (by omega)
    refine ⟨hsound', ?_⟩
    cases answer with
    | none => exact SbrkCall.Inside.none
    | some a =>
        obtain ⟨rfl, hbreak, hsame⟩ := hanswer a rfl
        exact hgrown'.inside hsound' (hsound hsome).1 hbreak
          (Or.inr ⟨hbrk, pageCount, (hsame hfits).trans hcalls⟩)

/-- `mem_sbrk` where the pages that it has are enough. -/
theorem memSbrk_room (hneg : ¬incr.toInt < 0) (hzero : incr ≠ 0#32) (hbrk : p.memBrk ≠ 0#32)
    (hroom : ¬p.memMaxBrk < p.memBrk + incr) :
    p.memSbrk fuel incr = .ret (some p.memBrk, { p with memBrk := p.memBrk + incr }) := by
  rw [Process.memSbrk, if_neg hneg, if_neg hzero, Process.sbrkFirst, if_neg hbrk, Outcome.pure_eq,
    Outcome.ret_bind]
  dsimp only
  rw [if_pos rfl, Process.sbrkRest, if_neg hroom]
  rfl

/-- The first `mem_sbrk`, where the heap has room. -/
theorem Grown.memSbrk_first (h : Grown start n p) (hneg : ¬incr.toInt < 0) (hzero : incr ≠ 0#32)
    (hbrk : p.memBrk = 0#32) (hroom : n + (incr.toNat + 4095) / 4096 ≤ 2 ^ 18)
    (hbreak : ¬startAddr + ALIGN_POW2 incr PAGE_SIZE < startAddr + incr)
    (hstart : BitVec.ofNat 32 (start + 4096 * n) = startAddr) :
    ∃ fuel u, p.memSbrk fuel incr = .ret (some startAddr,
      ⟨u, startAddr + incr, startAddr + ALIGN_POW2 incr PAGE_SIZE,
        (ALIGN_POW2 incr PAGE_SIZE / PAGE_SIZE, startAddr) :: p.calls⟩) := by
  have hincr : incr.toNat < 2 ^ 31 := by
    by_contra hlarge
    exact hneg (toInt_neg hlarge)
  have hpos : 0 < incr.toNat := Nat.pos_of_ne_zero fun heq => hzero (BitVec.eq_of_toNat_eq heq)
  obtain ⟨-, hpages⟩ := pages_toNat hincr
  rw [← hpages] at hroom
  obtain ⟨fuel, u, hcall⟩ := h.pool.expandHeap_room (by omega) hroom
  have hpositive : startAddr ≠ 0#32 := fun heq => by
    have haddress := h.pool.address
    have hlow := h.pool.low
    rw [hstart, heq, show (0#32).toNat = 0 from rfl] at haddress
    rw [USER_VADDR_START] at hlow
    omega
  refine ⟨fuel, u, ?_⟩
  rw [Process.memSbrk, if_neg hneg, if_neg hzero, Process.sbrkFirst, if_pos hbrk]
  dsimp only
  rw [Process.expandHeap, hcall, hstart]
  simp only [Outcome.ret_bind, Outcome.pure_eq, if_neg hpositive, if_true]
  rw [Process.sbrkRest, if_neg hbreak]
  rfl

/-- A new break from 2^32 on wraps around, and the memory up to it is not the process's. -/
theorem Grown.not_inside {answer : Option Word} (h : Grown start n p) (hsound : Sound start n p)
    (hcall : p.memSbrk fuel incr = .ret (answer, p')) (hover : ¬SbrkCall.Below ⟨p, incr, answer, p'⟩) :
    ¬SbrkCall.Inside ⟨p, incr, answer, p'⟩ := by
  intro hinside
  rw [SbrkCall.Below, Classical.not_imp] at hover
  obtain ⟨hneg, hover⟩ := hover
  dsimp only at hneg hover
  have hincr : incr.toNat < 2 ^ 31 := by
    by_contra hlarge
    exact absurd hneg (not_le.mpr (toInt_neg hlarge))
  have hlt := p.memBrk.isLt
  have hbrk : p.memBrk ≠ 0#32 := fun heq => by
    rw [heq, show (0#32).toNat = 0 from rfl] at hover
    omega
  obtain ⟨hlow, hle, hhigh⟩ := hsound hbrk
  have hwrap : (p.memBrk + incr).toNat = p.memBrk.toNat + incr.toNat - 2 ^ 32 := by
    rw [BitVec.toNat_add]
    omega
  have hzero : incr ≠ 0#32 := fun heq => by
    rw [heq, show (0#32).toNat = 0 from rfl] at hover
    omega
  rw [memSbrk_room (not_lt.mpr hneg) hzero hbrk (by rw [BitVec.lt_def, hwrap]; omega)] at hcall
  obtain ⟨rfl, rfl⟩ := Prod.mk.inj (Outcome.ret.inj hcall)
  -- the last byte is behind the heap
  have hreserved := hinside.reserved _ rfl (incr.toNat - 1) (by dsimp only; omega)
  rw [Process.Reserved] at hreserved
  obtain ⟨-, hlast, -⟩ := hreserved
  rw [h.pool.startAddress, h.pool.length] at hlast
  have htop := h.pool.high
  omega

end Process

/-! ### What holds in a run -/

/-- The heap of every process, and its break while no call has gone beyond 2^32. -/
def Kept (s : Nat → Option Process) (l : List SbrkCall) : Prop :=
  ∀ pid p, s pid = some p → ∃ start n, Grown start n p ∧ ((∀ c, c ∈ l → c.Below) → Sound start n p)

section Runs

variable {s : Nat → Option Process} {l : List SbrkCall} {p : Process} {pid start n : Nat}

theorem Kept.update (h : Kept s l) (hgrown : Grown start n p)
    (hsound : (∀ c, c ∈ l → c.Below) → Sound start n p) : Kept (Function.update s pid (some p)) l := by
  intro pid' q hq
  by_cases heq : pid' = pid
  · rw [heq, Function.update_self] at hq
    obtain rfl := Option.some.inj hq
    exact ⟨start, n, hgrown, hsound⟩
  · rw [Function.update_of_ne heq] at hq
    exact h pid' q hq

theorem Kept.cons {c : SbrkCall} (h : Kept s l) : Kept s (c :: l) := fun pid p hp => by
  obtain ⟨start, n, hgrown, hsound⟩ := h pid p hp
  exact ⟨start, n, hgrown, fun hall => hsound fun c' hc => hall c' (List.mem_cons_of_mem c hc)⟩

/-- The pool of a program that has been loaded has no page in use. -/
theorem grown_load {heapBegin : Nat} {userVirtual : UserVAddressPool} (hlow : USER_VADDR_START ≤ heapBegin)
    (hhigh : heapBegin ≤ 0xbfff0000) (hpool : userVirtual.heapPool = emptyPool (2 ^ 18) heapBegin) :
    Grown heapBegin 0 ⟨userVirtual, 0#32, 0#32, []⟩ where
  pool := by
    refine ⟨?_, ?_, hlow, hhigh, Nat.zero_le _, fun i _ => ?_⟩
    · rw [hpool]
      rfl
    · rw [hpool]
      rfl
    · rw [hpool]
      have hfree : (emptyPool (2 ^ 18) heapBegin).resources.get i = false := by
        show getMap (fun _ => 0#8) i = false
        rw [getMap_eq_getLsbD]
        exact BitVec.getLsbD_zero
      rw [hfree]
      exact ⟨fun hused => absurd hused Bool.false_ne_true, fun hi => absurd hi (Nat.not_lt_zero i)⟩
  calls := Laid.none

theorem Run.kept (h : Run s l) : Kept s l := by
  induction h with
  | boot => exact fun _ _ hp => nomatch hp
  | load pid _ hlow hhigh hpool ih =>
      exact ih.update (grown_load hlow hhigh hpool) fun _ hne => absurd rfl hne
  | fork child _ hparent ih =>
      obtain ⟨start, n, hgrown, hsound⟩ := ih _ _ hparent
      exact ih.update ⟨hgrown.pool.congr rfl, hgrown.calls⟩ hsound
  | exit pid _ ih =>
      intro pid' p hp
      by_cases heq : pid' = pid
      · rw [heq, Function.update_self] at hp
        cases hp
      · rw [Function.update_of_ne heq] at hp
        exact ih pid' p hp
  | expandHeap _ hp hcall ih =>
      obtain ⟨start, n, hgrown, hsound⟩ := ih _ _ hp
      obtain ⟨hp', ⟨-, hgrown'⟩ | ⟨-, -, hgrown'⟩⟩ := hgrown.expandHeap hcall
      · exact ih.update hgrown' fun hall => (hsound hall).mono (le_refl n) (by rw [hp']) (by rw [hp'])
      · exact ih.update hgrown' fun hall =>
          (hsound hall).mono (Nat.le_add_right n _) (by rw [hp']) (by rw [hp'])
  | memSbrk _ hp hcall ih =>
      obtain ⟨start, n, hgrown, hsound⟩ := ih _ _ hp
      obtain ⟨n', hgrown', hmoved⟩ := hgrown.memSbrk hcall
      refine ih.cons.update hgrown' fun hall => ?_
      rw [List.forall_mem_cons] at hall
      exact (hmoved (hsound hall.2) hall.1).1
  | other _ hp hpool ih =>
      obtain ⟨start, n, hgrown, hsound⟩ := ih _ _ hp
      exact ih.update ⟨hgrown.pool.congr hpool, hgrown.calls⟩ hsound

/-- While the breaks stay below 2^32 every `mem_sbrk` returns memory of the process; the first one that goes
beyond does not. -/
theorem Run.inside_iff (h : Run s l) : (∀ c, c ∈ l → c.Inside) ↔ ∀ c, c ∈ l → c.Below := by
  induction h with
  | boot => exact ⟨fun _ c hc => absurd hc List.not_mem_nil, fun _ c hc => absurd hc List.not_mem_nil⟩
  | load _ _ _ _ _ ih => exact ih
  | fork _ _ _ ih => exact ih
  | exit _ _ ih => exact ih
  | expandHeap _ _ _ ih => exact ih
  | memSbrk hrun hp hcall ih =>
      obtain ⟨start, n, hgrown, hsound⟩ := hrun.kept _ _ hp
      rw [List.forall_mem_cons, List.forall_mem_cons, ih]
      apply and_congr_left
      intro hall
      constructor
      · intro hinside
        by_contra hover
        exact hgrown.not_inside (hsound hall) hcall hover hinside
      · intro hbelow
        obtain ⟨n', -, hmoved⟩ := hgrown.memSbrk hcall
        exact (hmoved (hsound hall) hbelow).2
  | other _ _ _ ih => exact ih

end Runs

/-- In every run, whenever two calls of `expandHeap` in a row succeed, the pages of the second lie behind those
of the first; and all that `mem_sbrk` returns is memory of the process, adjacent to the previous break, if and
only if no break goes beyond 2^32. -/
theorem contiguous_iff_below {s : Nat → Option Process} {l : List SbrkCall} (h : Run s l) :
    ((∀ pid p, s pid = some p → Contiguous p.calls) ∧ ∀ c, c ∈ l → c.Inside) ↔ ∀ c, c ∈ l → c.Below := by
  rw [← h.inside_iff]
  refine ⟨fun hboth => hboth.2, fun hinside => ⟨fun pid p hp => ?_, hinside⟩⟩
  obtain ⟨start, n, hgrown, -⟩ := h.kept pid p hp
  exact hgrown.calls.contiguous

/-! ### A run that wraps around -/

/-- The process of a program whose last segment ends at 0x7f000000. -/
def highProcess : Process := ⟨{ emptyPools with heapPool := emptyPool (2 ^ 18) 0x7f000000 }, 0#32, 0#32, []⟩

/-- Its first `mem_sbrk`, of 32 MB. -/
theorem run_highProcess : ∃ s c p, Run s [c] ∧ c.Below ∧ s 1 = some p ∧ p.memBrk = 0x81000000#32 ∧
    p.memMaxBrk = 0x81000000#32 := by
  have hgrown : Grown 0x7f000000 0 highProcess := grown_load (by decide) (by decide) rfl
  obtain ⟨fuel, u, hfirst⟩ := hgrown.memSbrk_first (by decide : ¬(0x02000000#32 : Word).toInt < 0) (by decide)
    rfl (by decide) (by decide) rfl
  have hload : Run (Function.update (fun _ => none) 1 (some highProcess)) [] :=
    Run.boot.load 1 (by decide) (by decide : 0x7f000000 ≤ 0xbfff0000) rfl
  exact ⟨_, _, _, hload.memSbrk (Function.update_self 1 _ _) hfirst,
    fun _ => (show 0 + 0x02000000 < 2 ^ 32 by decide), Function.update_self 1 _ _, rfl, rfl⟩

/-- The process of a program at the bottom of user memory. -/
def lowProcess : Process := ⟨{ emptyPools with heapPool := emptyPool (2 ^ 18) 0x08050000 }, 0#32, 0#32, []⟩

/-- The first process forks, and another program makes its first `mem_sbrk`. -/
theorem contiguous_iff_below_two : ∃ s c c', Run s [c', c] ∧ (∃ p, s 2 = some p) ∧
    (∀ pid p, s pid = some p → Contiguous p.calls) ∧ ∀ d, d ∈ [c', c] → d.Inside := by
  obtain ⟨s, c, p, hrun, hbelow, hp, -, -⟩ := run_highProcess
  have hgrown : Grown 0x08050000 0 lowProcess := grown_load (by decide) (by decide) rfl
  obtain ⟨fuel, u, hfirst⟩ := hgrown.memSbrk_first (by decide : ¬(0x00001000#32 : Word).toInt < 0) (by decide)
    rfl (by decide) (by decide) rfl
  have hload := (hrun.fork 2 hp).load 3 (by decide) (by decide : 0x08050000 ≤ 0xbfff0000)
    (rfl : lowProcess.userVirtual.heapPool = emptyPool (2 ^ 18) 0x08050000)
  have hrun' := hload.memSbrk (Function.update_self 3 _ _) hfirst
  refine ⟨_, c, _, hrun', ?_, (contiguous_iff_below hrun').mpr ?_⟩
  · have hne : 2 ≠ 3 := by decide
    exact ⟨_, (Function.update_of_ne hne _ _).trans ((Function.update_of_ne hne _ _).trans (Function.update_self 2 _ _))⟩
  · rintro d hd
    rcases List.mem_cons.mp hd with rfl | hd
    · exact fun _ => (show 0 + 0x00001000 < 2 ^ 32 by decide)
    · rw [List.mem_singleton.mp hd]
      exact hbelow

/-- Another `mem_sbrk`, of nearly 2 GB, is answered with memory that nobody has. -/
theorem not_contiguous_high : ¬∀ s l, Run s l →
    (∀ pid p, s pid = some p → Contiguous p.calls) ∧ ∀ c, c ∈ l → c.Inside := by
  intro hall
  obtain ⟨s, c, p, hrun, -, hp, hbrk, hmax⟩ := run_highProcess
  have hsecond := @memSbrk_room p 1 0x7fffffff#32 (by decide) (by decide) (by rw [hbrk]; decide)
    (by rw [hbrk, hmax]; decide)
  have hrun' := hrun.memSbrk hp hsecond
  have hbelow := hrun'.inside_iff.mp (hall _ _ hrun').2 _ List.mem_cons_self
  rw [SbrkCall.Below] at hbelow
  dsimp only at hbelow
  rw [hbrk] at hbelow
  exact absurd (hbelow (by decide)) (by decide)

end SysuOs.HeapGrowth
