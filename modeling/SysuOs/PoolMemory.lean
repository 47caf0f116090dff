import Mathlib
import SysuOs.KernelWindow
import SysuOs.PagingWords

/-! Address pools where they lie: the bits and the privileges of a pool are bytes of the kernel's memory behind
two pointers. What a call answers depends on these bytes only, and these are all it writes. -/

namespace SysuOs

namespace Outcome

variable {α β γ δ : Type}

theorem of_ASSERT {p : Prop} [Decidable p] {x : Unit} (h : ASSERT p = ret x) : p := by
  by_contra hnot
  rw [ASSERT_neg hnot] at h
  cases h

/-- Two calls that end in the same way. -/
def Rel (R : α → β → Prop) : Outcome α → Outcome β → Prop
  | ret a, ret b => R a b
  | halt, halt => True
  | diverge, diverge => True
  | _, _ => False

theorem Rel.bind {R : α → β → Prop} {S : γ → δ → Prop} {x : Outcome α} {y : Outcome β} {f : α → Outcome γ}
    {g : β → Outcome δ} (h : Rel R x y) (hfg : ∀ a b, R a b → Rel S (f a) (g b)) :
    Rel S (x >>= f) (y >>= g) := by
  cases x with
  | ret a =>
      cases y with
      | ret b => exact hfg a b h
      | halt => exact h.elim
      | diverge => exact h.elim
  | halt =>
      cases y with
      | ret b => exact h.elim
      | halt => trivial
      | diverge => exact h.elim
  | diverge =>
      cases y with
      | ret b => exact h.elim
      | halt => exact h.elim
      | diverge => trivial

theorem Rel.mono {R S : α → β → Prop} {x : Outcome α} {y : Outcome β} (h : Rel R x y)
    (hRS : ∀ a b, x = ret a → y = ret b → R a b → S a b) : Rel S x y := by
  cases x with
  | ret a =>
      cases y with
      | ret b => exact hRS a b rfl rfl h
      | halt => exact h.elim
      | diverge => exact h.elim
  | halt => cases y <;> exact h
  | diverge => cases y <;> exact h

theorem Rel.of_ret {R : α → β → Prop} {a : α} {y : Outcome β} (h : Rel R (ret a) y) :
    ∃ b, y = ret b ∧ R a b := by
  cases y with
  | ret b => exact ⟨b, rfl, h⟩
  | halt => exact h.elim
  | diverge => exact h.elim

theorem Rel.of_ret_right {R : α → β → Prop} {x : Outcome α} {b : β} (h : Rel R x (ret b)) :
    ∃ a, x = ret a ∧ R a b := by
  cases x with
  | ret a => exact ⟨a, rfl, h⟩
  | halt => exact h.elim
  | diverge => exact h.elim

end Outcome

namespace BitMap

/-! ### `allocate` with an `int`, in both directions -/

/-- The loop from the back over free resources. -/
def countFreeBackInt (b : BitMap) (count : Int) : Nat → Nat → Nat × Nat
  | 0, empty => (empty, 0)
  | n + 1, empty =>
      if b.get n = false ∧ (empty : Int) < count then b.countFreeBackInt count n (empty + 1) else (empty, n + 1)

/-- The outer loop from the back. -/
def allocateBackIntLoop (b : BitMap) (count : Int) : Nat → Nat → Outcome (Option Nat × BitMap)
  | 0, _ => .diverge
  | fuel + 1, n =>
      if 0 < n then
        let n := b.skipUsedBack n
        if n = 0 then return (none, b)
        else
          let start := n - 1
          let (empty, n) := b.countFreeBackInt count n 0
          if (empty : Int) = count then
            return (some (start + 1 - count.toNat), b.setBack start count.toNat)
          else b.allocateBackIntLoop count fuel n
      else return (none, b)

/-- `BitMap::allocate` with its argument `reverse`. -/
def allocateIntIn (b : BitMap) (fuel : Nat) (count : Int) (reverse : Bool) : Outcome (Option Nat × BitMap) :=
  if reverse then
    if count = 0 then return (none, b) else b.allocateBackIntLoop count fuel b.length
  else b.allocateInt fuel count

/-- Pools with the same bits, up to their length. -/
structure Same (b b' : BitMap) : Prop where
  length : b.length = b'.length
  get : ∀ i, i < b.length → b.get i = b'.get i

section Same

variable {b b' : BitMap} {count : Int} {fuel index n empty : Nat} {reverse : Bool}

theorem Same.skipUsed (h : b.Same b') : b.skipUsed fuel index = b'.skipUsed fuel index := by
  induction fuel generalizing index with
  | zero => rfl
  | succ fuel ih =>
      rw [BitMap.skipUsed, BitMap.skipUsed, ih, ← h.length]
      by_cases hlt : index < b.length
      · rw [h.get index hlt]
      · rw [if_neg fun hboth => hlt hboth.1, if_neg fun hboth => hlt hboth.1]

theorem Same.countFreeInt (h : b.Same b') :
    b.countFreeInt count fuel index empty = b'.countFreeInt count fuel index empty := by
  induction fuel generalizing index empty with
  | zero => rfl
  | succ fuel ih =>
      rw [BitMap.countFreeInt, BitMap.countFreeInt, ih, ← h.length]
      by_cases hlt : index < b.length
      · rw [h.get index hlt]
      · rw [if_neg fun hall => hlt hall.1, if_neg fun hall => hlt hall.1]

theorem Same.allocateIntLoop (h : b.Same b') :
    Outcome.Rel (fun r r' => r.1 = r'.1) (b.allocateIntLoop count fuel index)
      (b'.allocateIntLoop count fuel index) := by
  induction fuel generalizing index with
  | zero => trivial
  | succ fuel ih =>
      rw [BitMap.allocateIntLoop, BitMap.allocateIntLoop, ← h.length]
      by_cases hlt : index < b.length
      · rw [if_pos hlt, if_pos hlt]
        dsimp only
        rw [h.skipUsed]
        by_cases hend : b'.skipUsed b.length index = b.length
        · rw [if_pos hend, if_pos hend]
          exact rfl
        · rw [if_neg hend, if_neg hend, h.countFreeInt]
          by_cases hfound : ((b'.countFreeInt count b.length (b'.skipUsed b.length index) 0).1 : Int) = count
          · rw [if_pos hfound, if_pos hfound]
            exact rfl
          · rw [if_neg hfound, if_neg hfound]
            exact ih
      · rw [if_neg hlt, if_neg hlt]
        exact rfl

theorem Same.skipUsedBack (h : b.Same b') (hn : n ≤ b.length) : b.skipUsedBack n = b'.skipUsedBack n := by
  induction n with
  | zero => rfl
  | succ n ih => rw [BitMap.skipUsedBack, BitMap.skipUsedBack, h.get n hn, ih (Nat.le_of_succ_le hn)]

theorem Same.countFreeBackInt (h : b.Same b') (hn : n ≤ b.length) :
    b.countFreeBackInt count n empty = b'.countFreeBackInt count n empty := by
  induction n generalizing empty with
  | zero => rfl
  | succ n ih =>
      rw [BitMap.countFreeBackInt, BitMap.countFreeBackInt, h.get n hn, ih (Nat.le_of_succ_le hn)]

/-- From the back no more is counted than is passed. -/
theorem countFreeBackInt_add :
    (b.countFreeBackInt count n empty).2 + (b.countFreeBackInt count n empty).1 = n + empty := by
  induction n generalizing empty with
  | zero => rw [countFreeBackInt, Nat.add_comm]
  | succ n ih =>
      rw [countFreeBackInt]
      by_cases hgo : b.get n = false ∧ (empty : Int) < count
      · rw [if_pos hgo, ih]
        omega
      · rw [if_neg hgo]

theorem Same.allocateBackIntLoop (h : b.Same b') (hn : n ≤ b.length) :
    Outcome.Rel (fun r r' => r.1 = r'.1) (b.allocateBackIntLoop count fuel n)
      (b'.allocateBackIntLoop count fuel n) := by
  induction fuel generalizing n with
  | zero => trivial
  | succ fuel ih =>
      rw [BitMap.allocateBackIntLoop, BitMap.allocateBackIntLoop]
      by_cases hpos : 0 < n
      · have hskip : b.skipUsedBack n ≤ n := skipUsedBack_spec.1
        rw [if_pos hpos, if_pos hpos, ← h.skipUsedBack hn]
        dsimp only
        by_cases hend : b.skipUsedBack n = 0
        · rw [if_pos hend, if_pos hend]
          exact rfl
        · have hcount := @countFreeBackInt_add b count (b.skipUsedBack n) 0
          rw [if_neg hend, if_neg hend, ← h.countFreeBackInt (hskip.trans hn)]
          by_cases hfound : ((b.countFreeBackInt count (b.skipUsedBack n) 0).1 : Int) = count
          · rw [if_pos hfound, if_pos hfound]
            exact rfl
          · rw [if_neg hfound, if_neg hfound]
            exact ih (by omega)
      · rw [if_neg hpos, if_neg hpos]
        exact rfl

/-- Where `allocate` finds its resources depends on the bits of the pool alone. -/
theorem Same.allocateIntIn (h : b.Same b') :
    Outcome.Rel (fun r r' => r.1 = r'.1) (b.allocateIntIn fuel count reverse)
      (b'.allocateIntIn fuel count reverse) := by
  rw [BitMap.allocateIntIn, BitMap.allocateIntIn]
  cases reverse with
  | false =>
      rw [if_neg Bool.false_ne_true, if_neg Bool.false_ne_true, BitMap.allocateInt, BitMap.allocateInt]
      by_cases hzero : count = 0
      · rw [if_pos hzero, if_pos hzero]
        exact rfl
      · rw [if_neg hzero, if_neg hzero]
        exact h.allocateIntLoop
  | true =>
      rw [if_pos rfl, if_pos rfl]
      by_cases hzero : count = 0
      · rw [if_pos hzero, if_pos hzero]
        exact rfl
      · rw [if_neg hzero, if_neg hzero, ← h.length]
        exact h.allocateBackIntLoop (le_refl _)

theorem allocateBackIntLoop_cases {r : Option Nat × BitMap} (hn : n ≤ b.length)
    (h : b.allocateBackIntLoop count fuel n = .ret r) :
    r = (none, b) ∨ ∃ s, s + count.toNat ≤ b.length ∧ r = (some s, b.setRange s count.toNat true) := by
  induction fuel generalizing n with
  | zero => cases h
  | succ fuel ih =>
      rw [allocateBackIntLoop] at h
      by_cases hpos : 0 < n
      · have hskip : b.skipUsedBack n ≤ n := skipUsedBack_spec.1
        rw [if_pos hpos] at h
        dsimp only at h
        by_cases hend : b.skipUsedBack n = 0
        · rw [if_pos hend] at h
          exact Or.inl (Outcome.ret.inj h).symm
        · have hcount := @countFreeBackInt_add b count (b.skipUsedBack n) 0
          rw [if_neg hend] at h
          by_cases hfound : ((b.countFreeBackInt count (b.skipUsedBack n) 0).1 : Int) = count
          · rw [if_pos hfound] at h
            have hle : count.toNat ≤ b.skipUsedBack n := by omega
            refine Or.inr ⟨b.skipUsedBack n - 1 + 1 - count.toNat, by omega, ?_⟩
            rw [← setBack_eq (by omega)]
            exact (Outcome.ret.inj h).symm
          · rw [if_neg hfound] at h
            exact ih (by omega) h
      · rw [if_neg hpos] at h
        exact Or.inl (Outcome.ret.inj h).symm

/-- When `allocate` returns it has taken resources of the pool, or nothing. -/
theorem allocateIntIn_cases {r : Option Nat × BitMap} (h : b.allocateIntIn fuel count reverse = .ret r) :
    r = (none, b) ∨ ∃ s, s + count.toNat ≤ b.length ∧ r = (some s, b.setRange s count.toNat true) := by
  rw [allocateIntIn] at h
  cases reverse with
  | false =>
      rw [if_neg Bool.false_ne_true] at h
      obtain heq | ⟨n, s, rfl, hn, rfl, hleast⟩ := allocateInt_cases h
      · exact Or.inl heq
      · rw [Int.toNat_natCast]
        have hlast := (hleast.1 (s + n - 1) (by omega) (by omega)).1
        exact Or.inr ⟨s, by omega, rfl⟩
  | true =>
      rw [if_pos rfl] at h
      by_cases hzero : count = 0
      · rw [if_pos hzero] at h
        exact Or.inl (Outcome.ret.inj h).symm
      · rw [if_neg hzero] at h
        exact allocateBackIntLoop_cases (le_refl _) h

end Same

/-- Setting bits changes no byte but theirs. -/
theorem setRange_bitmap {b : BitMap} {s n k : Nat} {status : Bool} (h : ∀ j, j < n → (s + j) / 8 ≠ k) :
    (b.setRange s n status).bitmap k = b.bitmap k := by
  induction n with
  | zero => rfl
  | succ n ih =>
      rw [setRange, BitMap.set, setMap]
      exact (Function.update_of_ne (h n (Nat.lt_succ_self n)).symm _ _).trans
        (ih fun j hj => h j (Nat.lt_succ_of_lt hj))

end BitMap

namespace PoolMemory

/-! ### One pool -/

/-- `VAddressPool`, with the pointers to its bits and to its privileges. -/
structure VAddressPool where
  length : Nat
  bitmap : Nat
  startAddress : Word
  endAddress : Word
  privileges : Nat
  isStatic : Bool
  staticPrivilege : Byte

/-- `ceil(length, 8)`. -/
def bytes (length : Nat) : Nat := (length + 7) / 8

/-- `privileges[start + i] = flag` for `i` below `count`. -/
def setFlags (m : ByteMap) (privileges start : Nat) : Nat → Byte → ByteMap
  | 0, _ => m
  | count + 1, flag =>
      Function.update (setFlags m privileges start count flag) (privileges + (start + count)) flag

namespace VAddressPool

/-- `resources`. -/
def bits (p : VAddressPool) (m : ByteMap) : BitMap where
  bitmap k := m (p.bitmap + k)
  length := p.length

/-- The memory with other bits behind the pointer. -/
def putBits (p : VAddressPool) (m : ByteMap) (b : BitMap) : ByteMap := fun a =>
  if p.bitmap ≤ a then b.bitmap (a - p.bitmap) else m a

/-- `VAddressPool::allocate`. -/
def allocate (p : VAddressPool) (m : ByteMap) (fuel : Nat) (count : Int) (privilege : Byte) (reverse : Bool) :
    Outcome (Word × ByteMap) := do
  match ← (p.bits m).allocateIntIn fuel count reverse with
  | (none, b) => return (BitVec.ofInt 32 (-1), p.putBits m b)
  | (some start, b) =>
      let m := p.putBits m b
      return (BitVec.ofNat 32 (start * 4096) + p.startAddress,
        if p.isStatic then m else setFlags m p.privileges start count.toNat privilege)

/-- The index of the page of an address. -/
def index (p : VAddressPool) (address : Word) : Nat := (address - p.startAddress).toNat / 4096

/-- `VAddressPool::release`. -/
def release (p : VAddressPool) (m : ByteMap) (address : Word) (count : Int) : ByteMap :=
  let start := p.index address
  let m := p.putBits m ((p.bits m).release start count.toNat)
  if p.isStatic then m else setFlags m p.privileges start count.toNat VP_CLEAR

def isValidAddr (p : VAddressPool) (vaddr : Word) : Bool := p.startAddress ≤ vaddr && vaddr ≤ p.endAddress

/-- `VAddressPool::getVPageFlag`. -/
def getVPageFlag (p : VAddressPool) (m : ByteMap) (vaddr : Word) : Outcome Byte :=
  if p.isStatic then return p.staticPrivilege
  else do
    Outcome.ASSERT (p.isValidAddr vaddr)
    let idx := p.index (vaddr &&& ~~~0xfff#32)
    Outcome.ASSERT ((p.bits m).get idx)
    return m (p.privileges + idx)

/-- The bytes that are the pool's. -/
def Owns (p : VAddressPool) (a : Nat) : Prop :=
  (p.bitmap ≤ a ∧ a < p.bitmap + bytes p.length) ∨
    (p.isStatic = false ∧ p.privileges ≤ a ∧ a < p.privileges + p.length)

/-- The pages of a pool, from `startAddress` up to `endAddress`. -/
structure Shaped (p : VAddressPool) : Prop where
  aligned : p.startAddress.toNat % 4096 = 0
  nonempty : 1 ≤ p.length
  size : p.length ≤ 2 ^ 20
  last : p.endAddress = p.startAddress + BitVec.ofNat 32 (4096 * p.length) - 1#32

/-- A pool whose bits are not its privileges. -/
structure WellFormed (p : VAddressPool) : Prop extends Shaped p where
  apart : p.isStatic = false → ∀ a, p.bitmap ≤ a → a < p.bitmap + bytes p.length → p.privileges ≤ a →
    ¬a < p.privileges + p.length

/-- Pools of the same addresses. -/
structure Alike (p p' : VAddressPool) : Prop where
  length : p.length = p'.length
  startAddress : p.startAddress = p'.startAddress
  endAddress : p.endAddress = p'.endAddress
  isStatic : p.isStatic = p'.isStatic
  staticPrivilege : p.staticPrivilege = p'.staticPrivilege

/-- Two pools, each in its memory, with the same pages allocated with the same privileges. -/
structure Agree (p : VAddressPool) (m : ByteMap) (p' : VAddressPool) (m' : ByteMap) : Prop where
  bits : ∀ i, i < p.length → (p.bits m).get i = (p'.bits m').get i
  flags : p.isStatic = false → ∀ i, i < p.length → m (p.privileges + i) = m' (p'.privileges + i)

/-- What a call writes: the bits of pages of the pool, and their privileges. -/
def mark (p : VAddressPool) (m : ByteMap) (start count : Nat) (status : Bool) (flag : Byte) : ByteMap :=
  let m := p.putBits m ((p.bits m).setRange start count status)
  if p.isStatic then m else setFlags m p.privileges start count flag

variable {p p' : VAddressPool} {m m' : ByteMap} {fuel start count n a : Nat} {status reverse : Bool}
  {flag privilege : Byte} {vaddr : Word}

theorem setFlags_apply (privileges : Nat) : setFlags m privileges start n flag a =
    if privileges + start ≤ a ∧ a < privileges + start + n then flag else m a := by
  induction n with
  | zero => rw [setFlags, if_neg (by omega)]
  | succ n ih =>
      rw [setFlags, Function.update_apply, ih]
      by_cases hlast : a = privileges + (start + n)
      · rw [if_pos hlast, if_pos (by omega)]
      · rw [if_neg hlast]
        by_cases hin : privileges + start ≤ a ∧ a < privileges + start + n
        · rw [if_pos hin, if_pos (by omega)]
        · rw [if_neg hin, if_neg (by omega)]

/-- The bits that are put away are found again. -/
theorem bits_putBits {b : BitMap} (h : b.length = p.length) : p.bits (p.putBits m b) = b := by
  cases b with
  | mk bitmap length =>
      obtain rfl := h
      rw [bits, BitMap.mk.injEq]
      refine ⟨funext fun k => ?_, rfl⟩
      rw [putBits, if_pos (Nat.le_add_right _ _), Nat.add_sub_cancel_left]

theorem putBits_bits : p.putBits m (p.bits m) = m := by
  funext a
  rw [putBits]
  by_cases hle : p.bitmap ≤ a
  · rw [if_pos hle]
    exact congrArg m (Nat.add_sub_cancel' hle)
  · rw [if_neg hle]

/-- The bits of pages of the pool are in its bytes. -/
theorem putBits_setRange (hin : ∀ j, j < n → start + j < p.length)
    (ha : ¬(p.bitmap ≤ a ∧ a < p.bitmap + bytes p.length)) :
    p.putBits m ((p.bits m).setRange start n status) a = m a := by
  rw [putBits]
  by_cases hle : p.bitmap ≤ a
  · rw [if_pos hle, BitMap.setRange_bitmap]
    · exact congrArg m (Nat.add_sub_cancel' hle)
    · intro j hj heq
      have hlt := hin j hj
      rw [bytes] at ha
      omega
  · rw [if_neg hle]

/-- A call writes to the bytes of the pool alone. -/
theorem mark_frame (hin : ∀ j, j < n → start + j < p.length) (ha : ¬p.Owns a) :
    p.mark m start n status flag a = m a := by
  rw [Owns, not_or] at ha
  have hbits : p.putBits m ((p.bits m).setRange start n status) a = m a := putBits_setRange hin ha.1
  rw [mark]
  cases hstatic : p.isStatic with
  | true => rw [if_pos rfl, hbits]
  | false =>
      rw [if_neg Bool.false_ne_true, setFlags_apply, if_neg, hbits]
      rintro ⟨hfrom, hto⟩
      have hlt := hin (n - 1) (by omega)
      exact ha.2 ⟨hstatic, by omega, by omega⟩

/-- The page of a valid address is one of the pool. -/
theorem WellFormed.index_lt (hp : p.WellFormed) (hvalid : p.isValidAddr vaddr = true) :
    p.index (vaddr &&& ~~~0xfff#32) < p.length := by
  rw [isValidAddr, Bool.and_eq_true, decide_eq_true_eq, decide_eq_true_eq, BitVec.le_def,
    BitVec.le_def] at hvalid
  obtain ⟨hfrom, hto⟩ := hvalid
  have hpage : (vaddr &&& ~~~0xfff#32).toNat = vaddr.toNat / 4096 * 4096 := getAddress_eq vaddr
  have haligned := hp.aligned
  have hnonempty := hp.nonempty
  have hsize := hp.size
  have hlt := p.startAddress.isLt
  have hlast : p.endAddress.toNat = (p.startAddress.toNat + 4096 * p.length + (2 ^ 32 - 1)) % 2 ^ 32 := by
    rw [hp.last]
    bv_omega
  have hle : p.startAddress ≤ vaddr &&& ~~~0xfff#32 := by
    rw [BitVec.le_def, hpage]
    omega
  rw [index, BitVec.toNat_sub_of_le hle, hpage]
  omega

theorem Agree.same (h : p.Agree m p' m') (halike : p.Alike p') : (p.bits m).Same (p'.bits m') where
  length := halike.length
  get := h.bits

/-- A bit depends on its byte. -/
theorem get_bits_congr {i : Nat} (h : m (p.bitmap + i / 8) = m' (p'.bitmap + i / 8)) :
    (p.bits m).get i = (p'.bits m').get i := by
  show (m (p.bitmap + i / 8) &&& _ != 0#8) = (m' (p'.bitmap + i / 8) &&& _ != 0#8)
  rw [h]

/-- Memories that differ elsewhere only. -/
theorem Agree.of_owns (h : ∀ a, p.Owns a → m a = m' a) : p.Agree m p m' where
  bits := fun i hi => get_bits_congr (h _ (Or.inl ⟨Nat.le_add_right _ _, by rw [bytes]; omega⟩))
  flags := fun hstatic i hi => h _ (Or.inr ⟨hstatic, Nat.le_add_right _ _, by omega⟩)

theorem Agree.trans {p'' : VAddressPool} {m'' : ByteMap} (h : p.Agree m p' m') (halike : p.Alike p')
    (h' : p'.Agree m' p'' m'') : p.Agree m p'' m'' where
  bits := fun i hi => (h.bits i hi).trans (h'.bits i (halike.length ▸ hi))
  flags := fun hstatic i hi =>
    (h.flags hstatic i hi).trans (h'.flags (halike.isStatic ▸ hstatic) i (halike.length ▸ hi))

/-- After a call the bits are those that it has set. -/
theorem bits_mark (hp : p.WellFormed) (hin : ∀ j, j < n → start + j < p.length) {i : Nat} (hi : i < p.length) :
    (p.bits (p.mark m start n status flag)).get i =
      if start ≤ i ∧ i < start + n then status else (p.bits m).get i := by
  have hset : (p.bits (p.putBits m ((p.bits m).setRange start n status))).get i =
      if start ≤ i ∧ i < start + n then status else (p.bits m).get i := by
    rw [bits_putBits (BitMap.setRange_length _ _ _ _), BitMap.get_setRange]
  rw [mark]
  cases hstatic : p.isStatic with
  | true =>
      rw [if_pos rfl]
      exact hset
  | false =>
      rw [if_neg Bool.false_ne_true, ← hset]
      have hbyte : p.bitmap + i / 8 < p.bitmap + bytes p.length := by
        rw [bytes]
        omega
      have hapart := hp.apart hstatic _ (Nat.le_add_right p.bitmap (i / 8)) hbyte
      apply get_bits_congr
      rw [setFlags_apply, if_neg]
      rintro ⟨hfrom, hto⟩
      have hlt := hin (n - 1) (by omega)
      exact hapart (by omega) (by omega)

/-- After a call the privileges are those that it has set. -/
theorem flags_mark (hp : p.WellFormed) (hin : ∀ j, j < n → start + j < p.length) (hstatic : p.isStatic = false)
    {i : Nat} (hi : i < p.length) : p.mark m start n status flag (p.privileges + i) =
      if start ≤ i ∧ i < start + n then flag else m (p.privileges + i) := by
  have hkept : p.putBits m ((p.bits m).setRange start n status) (p.privileges + i) = m (p.privileges + i) := by
    apply putBits_setRange hin
    rintro ⟨hfrom, hto⟩
    exact hp.apart hstatic _ hfrom hto (Nat.le_add_right _ _) (by omega)
  rw [mark, hstatic, if_neg Bool.false_ne_true, setFlags_apply, hkept]
  by_cases hrange : start ≤ i ∧ i < start + n
  · rw [if_pos hrange, if_pos (by omega)]
  · rw [if_neg hrange, if_neg (by omega)]

theorem Agree.mark (h : p.Agree m p' m') (halike : p.Alike p') (hp : p.WellFormed) (hp' : p'.WellFormed)
    (hin : ∀ j, j < n → start + j < p.length) :
    p.Agree (p.mark m start n status flag) p' (p'.mark m' start n status flag) where
  bits := fun i hi => by
    rw [halike.length] at hin
    rw [bits_mark hp (halike.length ▸ hin) hi, bits_mark hp' hin (halike.length ▸ hi), h.bits i hi]
  flags := fun hstatic i hi => by
    rw [flags_mark hp hin hstatic hi, flags_mark hp' (halike.length ▸ hin) (halike.isStatic ▸ hstatic)
      (halike.length ▸ hi), h.flags hstatic i hi]

/-- `allocate` marks pages of the pool, or leaves the memory as it is. -/
theorem allocate_eq (p : VAddressPool) (m : ByteMap) {count : Int} :
    p.allocate m fuel count privilege reverse = (do
      let (start, _) ← (p.bits m).allocateIntIn fuel count reverse
      match start with
      | none => return (BitVec.ofInt 32 (-1), m)
      | some start => return (BitVec.ofNat 32 (start * 4096) + p.startAddress,
          p.mark m start count.toNat true privilege)) := by
  rw [allocate]
  cases hcall : (p.bits m).allocateIntIn fuel count reverse with
  | halt => rfl
  | diverge => rfl
  | ret r =>
      obtain rfl | ⟨s, -, rfl⟩ := BitMap.allocateIntIn_cases hcall
      · rw [Outcome.ret_bind, Outcome.ret_bind]
        dsimp only
        rw [putBits_bits]
      · rfl

/-- Two pools that agree answer a call alike, and agree after it. -/
theorem Agree.allocate {count : Int} (h : p.Agree m p' m') (halike : p.Alike p') (hp : p.WellFormed)
    (hp' : p'.WellFormed) :
    Outcome.Rel (fun r r' => r.1 = r'.1 ∧ p.Agree r.2 p' r'.2) (p.allocate m fuel count privilege reverse)
      (p'.allocate m' fuel count privilege reverse) := by
  rw [allocate_eq, allocate_eq]
  have hrel := @BitMap.Same.allocateIntIn _ _ count fuel reverse (h.same halike)
  refine Outcome.Rel.bind (R := fun r r' => r.1 = r'.1 ∧ ∀ s, r.1 = some s → s + count.toNat ≤ p.length)
    (hrel.mono fun r r' hr _ heq => ⟨heq, fun s hs => ?_⟩) ?_
  · obtain rfl | ⟨s', hle, rfl⟩ := BitMap.allocateIntIn_cases hr
    · cases hs
    · obtain rfl := Option.some.inj hs
      exact hle
  · rintro ⟨start, b⟩ ⟨start', b'⟩ ⟨heq, hle⟩
    obtain rfl : start = start' := heq
    cases start with
    | none => exact ⟨rfl, h⟩
    | some s =>
        have hroom := hle s rfl
        refine ⟨?_, h.mark halike hp hp' fun j hj => by omega⟩
        dsimp only
        rw [halike.startAddress]

/-- A call leaves the bytes of others as they are. -/
theorem allocate_frame {count : Int} {r : Word × ByteMap}
    (hcall : p.allocate m fuel count privilege reverse = .ret r) (ha : ¬p.Owns a) : r.2 a = m a := by
  rw [allocate_eq] at hcall
  obtain ⟨⟨start, b⟩, hbits, hret⟩ := Outcome.bind_eq_ret hcall
  cases start with
  | none =>
      obtain rfl := Outcome.ret.inj hret
      rfl
  | some s =>
      obtain rfl := Outcome.ret.inj hret
      obtain heq | ⟨s', hle, heq⟩ := BitMap.allocateIntIn_cases hbits
      · cases heq
      · obtain ⟨hs, -⟩ := Prod.mk.inj heq
        obtain rfl := Option.some.inj hs
        have hroom : s + count.toNat ≤ p.length := hle
        exact mark_frame (fun j hj => by omega) ha

theorem Alike.index (h : p.Alike p') : p.index vaddr = p'.index vaddr := by
  rw [VAddressPool.index, VAddressPool.index, h.startAddress]

theorem Agree.release {count : Int} (h : p.Agree m p' m') (halike : p.Alike p') (hp : p.WellFormed)
    (hp' : p'.WellFormed) (hin : ∀ j, j < count.toNat → p.index vaddr + j < p.length) :
    p.Agree (p.release m vaddr count) p' (p'.release m' vaddr count) := by
  have hmark : p.Agree (p.mark m (p.index vaddr) count.toNat false VP_CLEAR) p'
      (p'.mark m' (p.index vaddr) count.toNat false VP_CLEAR) := h.mark halike hp hp' hin
  have hrelease' : p'.release m' vaddr count = p'.mark m' (p.index vaddr) count.toNat false VP_CLEAR := by
    rw [halike.index]
    rfl
  rw [hrelease']
  exact hmark

theorem release_frame {count : Int} (hin : ∀ j, j < count.toNat → p.index vaddr + j < p.length)
    (ha : ¬p.Owns a) : p.release m vaddr count a = m a := mark_frame hin ha

theorem Agree.getVPageFlag (h : p.Agree m p' m') (halike : p.Alike p') (hp : p.WellFormed) :
    p.getVPageFlag m vaddr = p'.getVPageFlag m' vaddr := by
  have hvalid : p.isValidAddr vaddr = p'.isValidAddr vaddr := by
    rw [isValidAddr, isValidAddr, halike.startAddress, halike.endAddress]
  have hindex : p.index (vaddr &&& ~~~0xfff#32) = p'.index (vaddr &&& ~~~0xfff#32) := by
    rw [index, index, halike.startAddress]
  rw [VAddressPool.getVPageFlag, VAddressPool.getVPageFlag, ← halike.isStatic, ← halike.staticPrivilege,
    ← hvalid, ← hindex]
  cases hstatic : p.isStatic with
  | true => rfl
  | false =>
      rw [if_neg Bool.false_ne_true, if_neg Bool.false_ne_true]
      cases hv : p.isValidAddr vaddr with
      | false => rfl
      | true =>
          have hlt := hp.index_lt hv
          dsimp only
          rw [h.bits _ hlt, h.flags hstatic _ hlt]

end VAddressPool

end PoolMemory

end SysuOs
