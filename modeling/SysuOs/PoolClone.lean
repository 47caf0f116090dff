import Mathlib
import SysuOs.PoolCalls

/-! The pools of a process, and their copy for a child. Four bitmaps are packed into kernel pages of their own
and two arrays of privileges into others; `cloneFrom` copies them byte by byte, so the copy answers every call
as the parent does, and no byte belongs to both. -/

namespace SysuOs.PoolMemory

/-! ### The copy -/

/-- The kernel: the pool of its virtual pages, and its memory. -/
structure Kernel where
  kernelVirtual : SysuOs.VAddressPool
  memory : ByteMap

/-- `allocatePages` from the kernel pools, with what the new frames hold; `none` is 0. Where a page cannot be
mapped all the pages are given back. -/
def Kernel.allocatePages (k : Kernel) (fuel : Nat) (mapped : Bool) (contents : ByteMap) (count : Nat) :
    Outcome (Option Nat × Kernel) := do
  let (address, kernelVirtual) ← k.kernelVirtual.allocateInt fuel count VP_RW
  return if address = BitVec.ofInt 32 (-1) ∨ mapped = false then (none, k)
    else (some address.toNat, ⟨kernelVirtual, fun a =>
      if address.toNat ≤ a ∧ a < address.toNat + 4096 * count then contents a else k.memory a⟩)

/-- `memcpy`. A copy by words does the same where the two ranges are apart. -/
def memcpy (m : ByteMap) (dest src : Nat) : Nat → ByteMap
  | 0 => m
  | n + 1 => Function.update (memcpy m dest src n) (dest + n) (memcpy m dest src n (src + n))

/-- `VAddressPool::initialize` with the parameters of another pool; the bits are cleared. -/
def VAddressPool.initializeFrom (parent : VAddressPool) (m : ByteMap) (bitmap privileges : Nat) :
    Outcome (VAddressPool × ByteMap) := do
  Outcome.ASSERT (parent.length ≠ 0)
  Outcome.ASSERT (!parent.isStatic || (parent.privileges = 0 && privileges = 0))
  return ({ parent with bitmap, privileges }, setFlags m bitmap 0 (bytes parent.length) 0#8)

/-- `UserVAddressPool::cloneFrom` of a parent that is initialized, without the reverse mappings of the new
pages; `none` is `false`. -/
def UserVAddressPool.cloneFrom (k : Kernel) (fuel : Nat) (mapped mapped' : Bool) (contents contents' : ByteMap)
    (parent : UserVAddressPool) (owner : Nat) : Outcome (Option UserVAddressPool × Kernel) := do
  let heapBitmapBytes := bytes parent.heapPool.length
  let stackBitmapBytes := bytes parent.stackPool.length
  let tlsBitmapBytes := bytes parent.TLSPool.length
  let mmapBitmapBytes := bytes parent.mmapPool.length
  let tlsPrivBytes := parent.TLSPool.length
  let mmapPrivBytes := parent.mmapPool.length
  let totalBitmapBytes := align (heapBitmapBytes + stackBitmapBytes + tlsBitmapBytes + mmapBitmapBytes)
  let totalPrivBytes := align (tlsPrivBytes + mmapPrivBytes)
  let (bitmapStart, k) ← k.allocatePages fuel mapped contents (totalBitmapBytes / 4096)
  let (privStart, k) ← k.allocatePages fuel mapped' contents' (totalPrivBytes / 4096)
  match bitmapStart, privStart with
  | some bitmapStart, some privStart => do
      let heapBitmapStart := bitmapStart
      let stackBitmapStart := heapBitmapStart + heapBitmapBytes
      let tlsBitmapStart := stackBitmapStart + stackBitmapBytes
      let mmapBitmapStart := tlsBitmapStart + tlsBitmapBytes
      let tlsPrivStart := privStart
      let mmapPrivStart := tlsPrivStart + tlsPrivBytes
      let (heapPool, m) ← parent.heapPool.initializeFrom k.memory heapBitmapStart 0
      let (stackPool, m) ← parent.stackPool.initializeFrom m stackBitmapStart 0
      let (TLSPool, m) ← parent.TLSPool.initializeFrom m tlsBitmapStart tlsPrivStart
      let (mmapPool, m) ← parent.mmapPool.initializeFrom m mmapBitmapStart mmapPrivStart
      Outcome.ASSERT (heapPool.isStatic && stackPool.isStatic)
      Outcome.ASSERT (heapPool.staticPrivilege = VP_RW ||| VP_USER)
      Outcome.ASSERT (stackPool.staticPrivilege = VP_RW ||| VP_USER)
      let m := memcpy m heapBitmapStart parent.heapPool.bitmap heapBitmapBytes
      let m := memcpy m stackBitmapStart parent.stackPool.bitmap stackBitmapBytes
      let m := memcpy m tlsBitmapStart parent.TLSPool.bitmap tlsBitmapBytes
      let m := memcpy m mmapBitmapStart parent.mmapPool.bitmap mmapBitmapBytes
      let m := memcpy m tlsPrivStart parent.TLSPool.privileges tlsPrivBytes
      let m := memcpy m mmapPrivStart parent.mmapPool.privileges mmapPrivBytes
      return (some { parent with
        heapPool, stackPool, TLSPool, mmapPool, bitmapStart, privStart, owner
        bitmapPage := totalBitmapBytes / 4096
        privPage := totalPrivBytes / 4096 }, { k with memory := m })
  -- the pages that have been allocated are released
  | _, _ => return (none, k)

/-! ### Where the copy lies -/

/-- The bytes from `start` on. -/
def In (start size a : Nat) : Prop := start ≤ a ∧ a < start + size

/-- The bitmaps lie one behind the other, and so do the privileges. -/
structure Layout (u : UserVAddressPool) (bitmapStart privStart : Nat) : Prop where
  heap : u.heapPool.bitmap = bitmapStart
  stack : u.stackPool.bitmap = bitmapStart + bytes u.heapPool.length
  tls : u.TLSPool.bitmap = bitmapStart + bytes u.heapPool.length + bytes u.stackPool.length
  mmap : u.mmapPool.bitmap =
    bitmapStart + bytes u.heapPool.length + bytes u.stackPool.length + bytes u.TLSPool.length
  tlsPriv : u.TLSPool.privileges = privStart
  mmapPriv : u.mmapPool.privileges = privStart + u.TLSPool.length
  heapStatic : u.heapPool.isStatic = true
  stackStatic : u.stackPool.isStatic = true

namespace UserVAddressPool

/-- `totalBitmapBytes`. -/
def totalBitmapBytes (u : UserVAddressPool) : Nat :=
  align (bytes u.heapPool.length + bytes u.stackPool.length + bytes u.TLSPool.length + bytes u.mmapPool.length)

/-- `totalPrivBytes`. -/
def totalPrivBytes (u : UserVAddressPool) : Nat := align (u.TLSPool.length + u.mmapPool.length)

end UserVAddressPool

theorem le_align (n : Nat) : n ≤ align n := by
  rw [align]
  omega

theorem align_pages (n : Nat) : 4096 * (align n / 4096) = align n := by
  rw [align]
  omega

/-- The bytes of the pool of a segment in such a layout. -/
def UserVAddressPool.slot (u : UserVAddressPool) (bitmapStart privStart a : Nat) : UserSegment → Prop
  | .HEAP => In bitmapStart (bytes u.heapPool.length) a
  | .STACK => In (bitmapStart + bytes u.heapPool.length) (bytes u.stackPool.length) a
  | .TLS =>
      In (bitmapStart + bytes u.heapPool.length + bytes u.stackPool.length) (bytes u.TLSPool.length) a ∨
        In privStart u.TLSPool.length a
  | .MMAP =>
      In (bitmapStart + bytes u.heapPool.length + bytes u.stackPool.length + bytes u.TLSPool.length)
          (bytes u.mmapPool.length) a ∨
        In (privStart + u.TLSPool.length) u.mmapPool.length a
  | _ => False

section Layout

variable {u : UserVAddressPool} {bitmapStart privStart a : Nat} {seg : UserSegment} {p : VAddressPool}

theorem owns_of_static (hstatic : p.isStatic = true) (hown : p.Owns a) : In p.bitmap (bytes p.length) a := by
  obtain hown | ⟨hfalse, -⟩ := hown
  · exact hown
  · rw [hstatic] at hfalse
    cases hfalse

theorem Layout.slot (h : Layout u bitmapStart privStart) (hp : u.pool seg = some p) (hown : p.Owns a) :
    u.slot bitmapStart privStart a seg := by
  cases seg with
  | HEAP =>
      obtain rfl := Option.some.inj hp
      exact h.heap ▸ owns_of_static h.heapStatic hown
  | STACK =>
      obtain rfl := Option.some.inj hp
      have hin := owns_of_static h.stackStatic hown
      rw [h.stack] at hin
      exact hin
  | TLS =>
      obtain rfl := Option.some.inj hp
      rw [VAddressPool.Owns, h.tls, h.tlsPriv] at hown
      exact hown.imp id And.right
  | MMAP =>
      obtain rfl := Option.some.inj hp
      rw [VAddressPool.Owns, h.mmap, h.mmapPriv] at hown
      exact hown.imp id And.right
  | TEXT => cases hp
  | DATA => cases hp
  | BSS => cases hp
  | EMPTY => cases hp

/-- A byte of a pool lies in the pages that were allocated for the bitmaps or for the privileges. -/
theorem Layout.owns (h : Layout u bitmapStart privStart) (ha : u.Owns a) :
    In bitmapStart u.totalBitmapBytes a ∨ In privStart u.totalPrivBytes a := by
  obtain ⟨seg, p, hp, hown⟩ := ha
  have hslot := h.slot hp hown
  have hbits := le_align
    (bytes u.heapPool.length + bytes u.stackPool.length + bytes u.TLSPool.length + bytes u.mmapPool.length)
  have hprivs := le_align (u.TLSPool.length + u.mmapPool.length)
  rw [UserVAddressPool.totalBitmapBytes, UserVAddressPool.totalPrivBytes]
  cases seg <;> simp only [UserVAddressPool.slot, In] at hslot ⊢ <;> omega

/-- Pools in such a layout are in order, where the pages for the bitmaps are not those for the privileges. -/
theorem Layout.wellFormed (h : Layout u bitmapStart privStart)
    (hshaped : ∀ seg p, u.pool seg = some p → p.Shaped)
    (hapart : ∀ a, In bitmapStart u.totalBitmapBytes a → ¬In privStart u.totalPrivBytes a) : u.WellFormed := by
  have hbits := le_align
    (bytes u.heapPool.length + bytes u.stackPool.length + bytes u.TLSPool.length + bytes u.mmapPool.length)
  have hprivs := le_align (u.TLSPool.length + u.mmapPool.length)
  rw [UserVAddressPool.totalBitmapBytes, UserVAddressPool.totalPrivBytes] at hapart
  simp only [In] at hapart
  constructor
  · intro seg p hp
    refine ⟨hshaped seg p hp, fun hstatic a hfrom hto hfrom' hto' => ?_⟩
    have hnot := hapart a
    cases seg with
    | HEAP =>
        obtain rfl := Option.some.inj hp
        rw [h.heapStatic] at hstatic
        cases hstatic
    | STACK =>
        obtain rfl := Option.some.inj hp
        rw [h.stackStatic] at hstatic
        cases hstatic
    | TLS =>
        obtain rfl := Option.some.inj hp
        rw [h.tls] at hfrom hto
        rw [h.tlsPriv] at hfrom' hto'
        omega
    | MMAP =>
        obtain rfl := Option.some.inj hp
        rw [h.mmap] at hfrom hto
        rw [h.mmapPriv] at hfrom' hto'
        omega
    | TEXT => cases hp
    | DATA => cases hp
    | BSS => cases hp
    | EMPTY => cases hp
  · intro seg seg' p p' a hp hp' hown hown'
    have hslot := h.slot hp hown
    have hslot' := h.slot hp' hown'
    have hnot := hapart a
    by_contra hne
    cases seg <;> cases seg' <;> first
      | exact hne rfl
      | exact False.elim hslot
      | exact False.elim hslot'
      | (simp only [UserVAddressPool.slot, In] at hslot hslot'
         omega)

end Layout

theorem setFlags_frame {m : ByteMap} {privileges n a : Nat} {flag : Byte} (ha : ¬In privileges n a) :
    setFlags m privileges 0 n flag a = m a := by
  rw [VAddressPool.setFlags_apply, if_neg]
  exact ha

/-! ### Copying -/

/-- One `memcpy`. -/
structure Copy where
  dest : Nat
  src : Nat
  size : Nat

theorem memcpy_frame {m : ByteMap} {dest src n a : Nat} (ha : ¬In dest n a) : memcpy m dest src n a = m a := by
  induction n with
  | zero => rfl
  | succ n ih =>
      rw [In] at ha
      rw [memcpy, Function.update_of_ne (by omega)]
      exact ih (by rw [In]; omega)

theorem memcpy_apply {m : ByteMap} {dest src n j : Nat} (hj : j < n)
    (hapart : ∀ i, i < n → ¬In dest n (src + i)) : memcpy m dest src n (dest + j) = m (src + j) := by
  induction n with
  | zero => exact absurd hj (Nat.not_lt_zero j)
  | succ n ih =>
      have hapart' : ∀ i, i < n + 1 → ¬In dest n (src + i) := fun i hi hin =>
        hapart i hi ⟨hin.1, Nat.lt_succ_of_lt hin.2⟩
      rw [memcpy]
      by_cases hlast : j = n
      · rw [hlast, Function.update_self]
        exact memcpy_frame (hapart' n (Nat.lt_succ_self n))
      · rw [Function.update_of_ne (by omega)]
        exact ih (by omega) fun i hi => hapart' i (Nat.lt_succ_of_lt hi)

/-- Where the two ranges are apart, it does not matter that the bytes are read and written in turns. -/
theorem memcpy_eq {m : ByteMap} {dest src n : Nat} (hapart : ∀ i, i < n → ¬In dest n (src + i)) :
    memcpy m dest src n = SysuOs.memcpy m dest (bytesFrom m src) n := by
  funext a
  by_cases ha : In dest n a
  · obtain ⟨j, rfl⟩ := Nat.exists_eq_add_of_le ha.1
    rw [memcpy_apply (Nat.add_lt_add_iff_left.mp ha.2) hapart, memcpy_in ha.1 ha.2, Nat.add_sub_cancel_left]
    rfl
  · rw [memcpy_frame ha, memcpy_out]
    rw [In] at ha
    omega

/-- Copies one after the other. -/
def copyAll (m : ByteMap) (copies : List Copy) : ByteMap :=
  copies.foldl (fun m c => memcpy m c.dest c.src c.size) m

theorem copyAll_frame {m : ByteMap} {copies : List Copy} {a : Nat}
    (ha : ∀ c, c ∈ copies → ¬In c.dest c.size a) : copyAll m copies a = m a := by
  induction copies generalizing m with
  | nil => rfl
  | cons c copies ih =>
      rw [List.forall_mem_cons] at ha
      exact (ih ha.2).trans (memcpy_frame ha.1)

/-- Copies to places that are apart, from places outside of them all, leave in each the bytes of its source. -/
theorem copyAll_apply {m : ByteMap} {copies : List Copy} {N : Nat → Prop}
    (hdest : ∀ c, c ∈ copies → ∀ a, In c.dest c.size a → N a)
    (hsrc : ∀ c, c ∈ copies → ∀ j, j < c.size → ¬N (c.src + j))
    (hapart : copies.Pairwise fun c c' => ∀ a, In c.dest c.size a → ¬In c'.dest c'.size a) :
    ∀ c, c ∈ copies → ∀ j, j < c.size → copyAll m copies (c.dest + j) = m (c.src + j) := by
  induction copies generalizing m with
  | nil => exact fun c hc => absurd hc List.not_mem_nil
  | cons c copies ih =>
      rw [List.forall_mem_cons] at hdest hsrc
      obtain ⟨hfirst, hrest⟩ := List.pairwise_cons.mp hapart
      intro c' hc' j hj
      obtain rfl | hc' := List.mem_cons.mp hc'
      · have hbyte : In c'.dest c'.size (c'.dest + j) := ⟨Nat.le_add_right _ _, by omega⟩
        calc copyAll m (c' :: copies) (c'.dest + j)
          _ = memcpy m c'.dest c'.src c'.size (c'.dest + j) :=
              copyAll_frame fun c hc => hfirst c hc _ hbyte
          _ = m (c'.src + j) := memcpy_apply hj fun i hi hin => hsrc.1 i hi (hdest.1 _ hin)
      · calc copyAll m (c :: copies) (c'.dest + j)
          _ = memcpy m c.dest c.src c.size (c'.src + j) := ih hdest.2 hsrc.2 hrest c' hc' j hj
          _ = m (c'.src + j) := memcpy_frame fun hin => hsrc.2 c' hc' j hj (hdest.1 _ hin)

/-! ### `cloneFrom` -/

/-- A byte of a page of `kernelVirtual` that is allocated. -/
def Kernel.Held (k : Kernel) (a : Nat) : Prop :=
  k.kernelVirtual.startAddress ≤ a ∧
    k.kernelVirtual.resources.get ((a - k.kernelVirtual.startAddress) / 4096) = true

/-- An initialized parent: its pools lie in kernel pages that it has allocated. -/
structure Initialized (k : Kernel) (u : UserVAddressPool) : Prop where
  kernel : k.kernelVirtual.startAddress + 4096 * k.kernelVirtual.resources.length ≤ 2 ^ 32
  wellFormed : u.WellFormed
  tlsDynamic : u.TLSPool.isStatic = false
  mmapDynamic : u.mmapPool.isStatic = false
  held : ∀ a, u.Owns a → k.Held a

section Allocate

variable {k k' : Kernel} {fuel count start a : Nat} {mapped : Bool} {contents : ByteMap}

/-- The pages that are allocated were free before and are not after, and no other byte changes. -/
theorem Kernel.allocatePages_spec
    (hkernel : k.kernelVirtual.startAddress + 4096 * k.kernelVirtual.resources.length ≤ 2 ^ 32)
    (hcall : k.allocatePages fuel mapped contents count = .ret (some start, k')) :
    (k'.kernelVirtual.startAddress + 4096 * k'.kernelVirtual.resources.length ≤ 2 ^ 32) ∧
      (∀ a, In start (4096 * count) a → ¬k.Held a ∧ k'.Held a) ∧ (∀ a, k.Held a → k'.Held a) ∧
      ∀ a, ¬In start (4096 * count) a → k'.memory a = k.memory a := by
  obtain ⟨⟨address, kernelVirtual⟩, halloc, hret⟩ := Outcome.bind_eq_ret hcall
  dsimp only at hret
  by_cases hfail : address = BitVec.ofInt 32 (-1) ∨ mapped = false
  · rw [if_pos hfail] at hret
    obtain ⟨hnone, -⟩ := Prod.mk.inj (Outcome.ret.inj hret)
    cases hnone
  rw [if_neg hfail] at hret
  obtain ⟨hstart, rfl⟩ := Prod.mk.inj (Outcome.ret.inj hret)
  obtain rfl := Option.some.inj hstart
  rw [not_or] at hfail
  obtain ⟨heq, -⟩ | ⟨n, s, hcount, hn, hleast, rfl, hresources, hsame⟩ := KernelWindow.allocateInt_cases halloc
  · exact absurd heq hfail.1
  obtain rfl : count = n := Int.ofNat_inj.mp hcount
  have hlast := (hleast.1 (s + count - 1) (by omega) (by omega)).1
  have haddress : (BitVec.ofNat 32 (s * 4096 + k.kernelVirtual.startAddress)).toNat =
      s * 4096 + k.kernelVirtual.startAddress := by
    rw [BitVec.toNat_ofNat]
    exact Nat.mod_eq_of_lt (by omega)
  rw [haddress]
  refine ⟨?_, fun a ha => ?_, fun a ha => ?_, fun a ha => if_neg ha⟩
  · dsimp only
    rw [hsame, hresources, BitMap.setRange_length]
    exact hkernel
  · rw [In] at ha
    have hpage : s ≤ (a - k.kernelVirtual.startAddress) / 4096 ∧
        (a - k.kernelVirtual.startAddress) / 4096 < s + count := by omega
    refine ⟨fun hheld => ?_, ?_⟩
    · have hfree := (hleast.1 _ hpage.1 hpage.2).2
      rw [hheld.2] at hfree
      cases hfree
    · rw [Kernel.Held]
      dsimp only
      rw [hsame, hresources, BitMap.get_setRange, if_pos hpage]
      exact ⟨by omega, rfl⟩
  · rw [Kernel.Held] at ha ⊢
    dsimp only
    rw [hsame, hresources, BitMap.get_setRange, ha.2, ite_self]
    exact ⟨ha.1, rfl⟩

end Allocate

theorem initializeFrom_ret {p : VAddressPool} {m : ByteMap} {bitmap privileges : Nat}
    {r : VAddressPool × ByteMap} (h : p.initializeFrom m bitmap privileges = .ret r) :
    r = ({ p with bitmap, privileges }, setFlags m bitmap 0 (bytes p.length) 0#8) := by
  obtain ⟨-, -, h⟩ := Outcome.bind_eq_ret h
  obtain ⟨-, -, h⟩ := Outcome.bind_eq_ret h
  exact (Outcome.ret.inj h).symm

/-- The pools of a child, and the copies that fill them. -/
def UserVAddressPool.child (parent : UserVAddressPool) (bitmapStart privStart owner : Nat) : UserVAddressPool :=
  let stackStart := bitmapStart + bytes parent.heapPool.length
  let tlsStart := stackStart + bytes parent.stackPool.length
  { parent with
    heapPool := { parent.heapPool with bitmap := bitmapStart, privileges := 0 }
    stackPool := { parent.stackPool with bitmap := stackStart, privileges := 0 }
    TLSPool := { parent.TLSPool with bitmap := tlsStart, privileges := privStart }
    mmapPool := { parent.mmapPool with
      bitmap := tlsStart + bytes parent.TLSPool.length
      privileges := privStart + parent.TLSPool.length }
    bitmapStart, privStart, owner
    bitmapPage := parent.totalBitmapBytes / 4096
    privPage := parent.totalPrivBytes / 4096 }

def UserVAddressPool.copies (parent child : UserVAddressPool) : List Copy :=
  [⟨child.heapPool.bitmap, parent.heapPool.bitmap, bytes parent.heapPool.length⟩,
    ⟨child.stackPool.bitmap, parent.stackPool.bitmap, bytes parent.stackPool.length⟩,
    ⟨child.TLSPool.bitmap, parent.TLSPool.bitmap, bytes parent.TLSPool.length⟩,
    ⟨child.mmapPool.bitmap, parent.mmapPool.bitmap, bytes parent.mmapPool.length⟩,
    ⟨child.TLSPool.privileges, parent.TLSPool.privileges, parent.TLSPool.length⟩,
    ⟨child.mmapPool.privileges, parent.mmapPool.privileges, parent.mmapPool.length⟩]

section Clone

variable {k k' k₁ k₂ : Kernel} {fuel owner bitmapStart privStart : Nat} {mapped mapped' : Bool}
  {contents contents' m : ByteMap} {parent child : UserVAddressPool}

/-- A copy that succeeds: the pages, the cleared bitmaps, the copies. -/
theorem cloneFrom_some
    (hcall : UserVAddressPool.cloneFrom k fuel mapped mapped' contents contents' parent owner =
      .ret (some child, k')) :
    ∃ bitmapStart privStart k₁ k₂ m,
      k.allocatePages fuel mapped contents (parent.totalBitmapBytes / 4096) = .ret (some bitmapStart, k₁) ∧
      k₁.allocatePages fuel mapped' contents' (parent.totalPrivBytes / 4096) = .ret (some privStart, k₂) ∧
      parent.heapPool.isStatic = true ∧ parent.stackPool.isStatic = true ∧
      child = parent.child bitmapStart privStart owner ∧
      m = setFlags (setFlags (setFlags (setFlags k₂.memory
        child.heapPool.bitmap 0 (bytes parent.heapPool.length) 0#8)
        child.stackPool.bitmap 0 (bytes parent.stackPool.length) 0#8)
        child.TLSPool.bitmap 0 (bytes parent.TLSPool.length) 0#8)
        child.mmapPool.bitmap 0 (bytes parent.mmapPool.length) 0#8 ∧
      k' = { k₂ with memory := copyAll m (parent.copies child) } := by
  obtain ⟨⟨start, k₁⟩, halloc, hcall⟩ := Outcome.bind_eq_ret hcall
  obtain ⟨⟨start', k₂⟩, halloc', hcall⟩ := Outcome.bind_eq_ret hcall
  dsimp only at halloc halloc' hcall
  cases start with
  | none => cases (Prod.mk.inj (Outcome.ret.inj hcall)).1
  | some bitmapStart =>
  cases start' with
  | none => cases (Prod.mk.inj (Outcome.ret.inj hcall)).1
  | some privStart =>
  dsimp only at hcall
  obtain ⟨r₁, hr, hcall⟩ := Outcome.bind_eq_ret hcall
  obtain rfl := initializeFrom_ret hr
  obtain ⟨r₂, hr, hcall⟩ := Outcome.bind_eq_ret hcall
  obtain rfl := initializeFrom_ret hr
  obtain ⟨r₃, hr, hcall⟩ := Outcome.bind_eq_ret hcall
  obtain rfl := initializeFrom_ret hr
  obtain ⟨r₄, hr, hcall⟩ := Outcome.bind_eq_ret hcall
  obtain rfl := initializeFrom_ret hr
  obtain ⟨_, hstatic, hcall⟩ := Outcome.bind_eq_ret hcall
  obtain ⟨-, -, hcall⟩ := Outcome.bind_eq_ret hcall
  obtain ⟨-, -, hcall⟩ := Outcome.bind_eq_ret hcall
  obtain ⟨hchild, rfl⟩ := Prod.mk.inj (Outcome.ret.inj hcall)
  obtain rfl := Option.some.inj hchild
  have hstatic' : (parent.heapPool.isStatic && parent.stackPool.isStatic) = true := Outcome.of_ASSERT hstatic
  rw [Bool.and_eq_true] at hstatic'
  exact ⟨bitmapStart, privStart, k₁, k₂, _, halloc, halloc', hstatic'.1, hstatic'.2, rfl, rfl, rfl⟩

theorem child_layout (hheap : parent.heapPool.isStatic = true) (hstack : parent.stackPool.isStatic = true) :
    Layout (parent.child bitmapStart privStart owner) bitmapStart privStart :=
  ⟨rfl, rfl, rfl, rfl, rfl, rfl, hheap, hstack⟩

theorem child_alike : parent.Alike (parent.child bitmapStart privStart owner) := by
  intro seg p p' hp hp'
  cases seg with
  | HEAP | STACK | TLS | MMAP =>
      obtain rfl := Option.some.inj hp
      obtain rfl := Option.some.inj hp'
      exact ⟨rfl, rfl, rfl, rfl, rfl⟩
  | TEXT => cases hp
  | DATA => cases hp
  | BSS => cases hp
  | EMPTY => cases hp

/-- The pages of a pool do not depend on where its bits lie. -/
theorem VAddressPool.Alike.shaped {p p' : VAddressPool} (h : p.Alike p') (hp : p.Shaped) : p'.Shaped where
  aligned := h.startAddress ▸ hp.aligned
  nonempty := h.length ▸ hp.nonempty
  size := h.length ▸ hp.size
  last := by
    rw [← h.endAddress, ← h.startAddress, ← h.length]
    exact hp.last

theorem child_wellFormed (hparent : parent.WellFormed) (hheap : parent.heapPool.isStatic = true)
    (hstack : parent.stackPool.isStatic = true)
    (hapart : ∀ a, In bitmapStart parent.totalBitmapBytes a → ¬In privStart parent.totalPrivBytes a) :
    (parent.child bitmapStart privStart owner).WellFormed := by
  refine (child_layout hheap hstack).wellFormed (fun seg p' hp' => ?_) hapart
  obtain ⟨-, hnone⟩ | ⟨p, p'', hp, hp''⟩ :=
    UserVAddressPool.pool_cases parent (parent.child bitmapStart privStart owner) seg
  · rw [hp'] at hnone
    cases hnone
  · obtain rfl := Option.some.inj (hp''.symm.trans hp')
    exact (child_alike seg p p'' hp hp'').shaped (hparent.pool seg p hp).toShaped

/-- The copies go to the pages of the child, each to a place of its own. -/
theorem copies_dest : ∀ c, c ∈ parent.copies (parent.child bitmapStart privStart owner) → ∀ a,
    In c.dest c.size a → In bitmapStart parent.totalBitmapBytes a ∨ In privStart parent.totalPrivBytes a := by
  have hbits := le_align (bytes parent.heapPool.length + bytes parent.stackPool.length +
    bytes parent.TLSPool.length + bytes parent.mmapPool.length)
  have hprivs := le_align (parent.TLSPool.length + parent.mmapPool.length)
  simp only [UserVAddressPool.copies, UserVAddressPool.child, List.forall_mem_cons, In,
    UserVAddressPool.totalBitmapBytes, UserVAddressPool.totalPrivBytes]
  refine ⟨?_, ?_, ?_, ?_, ?_, ?_, fun c hc => absurd hc List.not_mem_nil⟩ <;>
  · intro a ha
    omega

theorem copies_apart
    (hapart : ∀ a, In bitmapStart parent.totalBitmapBytes a → ¬In privStart parent.totalPrivBytes a) :
    (parent.copies (parent.child bitmapStart privStart owner)).Pairwise
      fun c c' => ∀ a, In c.dest c.size a → ¬In c'.dest c'.size a := by
  have hbits := le_align (bytes parent.heapPool.length + bytes parent.stackPool.length +
    bytes parent.TLSPool.length + bytes parent.mmapPool.length)
  have hprivs := le_align (parent.TLSPool.length + parent.mmapPool.length)
  rw [UserVAddressPool.totalBitmapBytes, UserVAddressPool.totalPrivBytes] at hapart
  simp only [In] at hapart
  simp only [UserVAddressPool.copies, UserVAddressPool.child, List.pairwise_cons, List.forall_mem_cons, In]
  and_intros <;> first
    | exact fun c hc => absurd hc List.not_mem_nil
    | exact List.Pairwise.nil
    | (intro a ha hin
       have hnot := hapart a
       omega)

/-- They come from the bytes of the parent. -/
theorem copies_src (htls : parent.TLSPool.isStatic = false) (hmmap : parent.mmapPool.isStatic = false) :
    ∀ c, c ∈ parent.copies child → ∀ j, j < c.size → parent.Owns (c.src + j) := by
  simp only [UserVAddressPool.copies, List.forall_mem_cons]
  refine ⟨?_, ?_, ?_, ?_, ?_, ?_, fun c hc => absurd hc List.not_mem_nil⟩ <;> intro j hj
  · exact ⟨.HEAP, _, rfl, Or.inl ⟨Nat.le_add_right _ _, Nat.add_lt_add_left hj _⟩⟩
  · exact ⟨.STACK, _, rfl, Or.inl ⟨Nat.le_add_right _ _, Nat.add_lt_add_left hj _⟩⟩
  · exact ⟨.TLS, _, rfl, Or.inl ⟨Nat.le_add_right _ _, Nat.add_lt_add_left hj _⟩⟩
  · exact ⟨.MMAP, _, rfl, Or.inl ⟨Nat.le_add_right _ _, Nat.add_lt_add_left hj _⟩⟩
  · exact ⟨.TLS, _, rfl, Or.inr ⟨htls, Nat.le_add_right _ _, Nat.add_lt_add_left hj _⟩⟩
  · exact ⟨.MMAP, _, rfl, Or.inr ⟨hmmap, Nat.le_add_right _ _, Nat.add_lt_add_left hj _⟩⟩

/-- What the copies leave is what the parent has. -/
theorem agree_of_copies (hheap : parent.heapPool.isStatic = true) (hstack : parent.stackPool.isStatic = true)
    (hcopied : ∀ c, c ∈ parent.copies (parent.child bitmapStart privStart owner) → ∀ j, j < c.size →
      m (c.dest + j) = k.memory (c.src + j)) :
    parent.Agree k.memory (parent.child bitmapStart privStart owner) m := by
  simp only [UserVAddressPool.copies, List.forall_mem_cons] at hcopied
  obtain ⟨hheapBits, hstackBits, htlsBits, hmmapBits, htlsPrivs, hmmapPrivs, -⟩ := hcopied
  intro seg p p' hp hp'
  cases seg with
  | HEAP =>
      obtain rfl := Option.some.inj hp
      obtain rfl := Option.some.inj hp'
      refine ⟨fun i hi => VAddressPool.get_bits_congr (hheapBits _ ?_).symm, fun hdynamic => ?_⟩
      · rw [bytes]
        omega
      · rw [hheap] at hdynamic
        cases hdynamic
  | STACK =>
      obtain rfl := Option.some.inj hp
      obtain rfl := Option.some.inj hp'
      refine ⟨fun i hi => VAddressPool.get_bits_congr (hstackBits _ ?_).symm, fun hdynamic => ?_⟩
      · rw [bytes]
        omega
      · rw [hstack] at hdynamic
        cases hdynamic
  | TLS =>
      obtain rfl := Option.some.inj hp
      obtain rfl := Option.some.inj hp'
      refine ⟨fun i hi => VAddressPool.get_bits_congr (htlsBits _ ?_).symm,
        fun _ i hi => (htlsPrivs i hi).symm⟩
      rw [bytes]
      omega
  | MMAP =>
      obtain rfl := Option.some.inj hp
      obtain rfl := Option.some.inj hp'
      refine ⟨fun i hi => VAddressPool.get_bits_congr (hmmapBits _ ?_).symm,
        fun _ i hi => (hmmapPrivs i hi).symm⟩
      rw [bytes]
      omega
  | TEXT => cases hp
  | DATA => cases hp
  | BSS => cases hp
  | EMPTY => cases hp

/-- After `cloneFrom` the child is initialized and agrees with its parent, whose bytes are as they were, and
none of them is a byte of the child. -/
theorem cloneFrom_spec (hinit : Initialized k parent)
    (hcall : UserVAddressPool.cloneFrom k fuel mapped mapped' contents contents' parent owner =
      .ret (some child, k')) :
    Initialized k' child ∧ parent.Alike child ∧ parent.Agree k.memory child k'.memory ∧
      (∀ a, parent.Owns a → k'.memory a = k.memory a) ∧ ∀ a, parent.Owns a → ¬child.Owns a := by
  obtain ⟨bitmapStart, privStart, k₁, k₂, m, halloc, halloc', hheap, hstack, rfl, hm, rfl⟩ :=
    cloneFrom_some hcall
  obtain ⟨hkernel, hfresh, hmono, hkept⟩ := Kernel.allocatePages_spec hinit.kernel halloc
  obtain ⟨hkernel', hfresh', hmono', hkept'⟩ := Kernel.allocatePages_spec hkernel halloc'
  rw [UserVAddressPool.totalBitmapBytes, align_pages, ← UserVAddressPool.totalBitmapBytes] at hfresh hkept
  rw [UserVAddressPool.totalPrivBytes, align_pages, ← UserVAddressPool.totalPrivBytes] at hfresh' hkept'
  have hapart : ∀ a, In bitmapStart parent.totalBitmapBytes a → ¬In privStart parent.totalPrivBytes a :=
    fun a ha ha' => (hfresh' a ha').1 (hfresh a ha).2
  have hnew : ∀ a, In bitmapStart parent.totalBitmapBytes a ∨ In privStart parent.totalPrivBytes a →
      ¬k.Held a := fun a ha hheld => by
    obtain ha | ha := ha
    · exact (hfresh a ha).1 hheld
    · exact (hfresh' a ha).1 (hmono a hheld)
  have hlayout : Layout (parent.child bitmapStart privStart owner) bitmapStart privStart :=
    child_layout hheap hstack
  have hown : ∀ a, parent.Owns a →
      ¬(In bitmapStart parent.totalBitmapBytes a ∨ In privStart parent.totalPrivBytes a) :=
    fun a ha hin => hnew a hin (hinit.held a ha)
  -- no byte outside of the new pages is written
  have hm' : ∀ a, ¬(In bitmapStart parent.totalBitmapBytes a ∨ In privStart parent.totalPrivBytes a) →
      m a = k.memory a := fun a ha => by
    have hclear : ∀ c, c ∈ parent.copies (parent.child bitmapStart privStart owner) → ∀ m' : ByteMap,
        setFlags m' c.dest 0 c.size 0#8 a = m' a := fun c hc m' =>
      setFlags_frame fun hin => ha (copies_dest c hc a hin)
    simp only [UserVAddressPool.copies, List.forall_mem_cons] at hclear
    obtain ⟨hheap', hstack', htls', hmmap', -⟩ := hclear
    rw [not_or] at ha
    rw [hm, hmmap', htls', hstack', hheap', hkept' a ha.2, hkept a ha.1]
  have hcopied := @copyAll_apply m _ _ copies_dest (fun c hc j hj => hown _
    (copies_src hinit.tlsDynamic hinit.mmapDynamic c hc j hj)) (@copies_apart owner _ _ _ hapart)
  have hsrc : ∀ c, c ∈ parent.copies (parent.child bitmapStart privStart owner) → ∀ j, j < c.size →
      m (c.src + j) = k.memory (c.src + j) := fun c hc j hj =>
    hm' _ (hown _ (copies_src hinit.tlsDynamic hinit.mmapDynamic c hc j hj))
  refine ⟨⟨hkernel', child_wellFormed hinit.wellFormed hheap hstack hapart, hinit.tlsDynamic, hinit.mmapDynamic,
    fun a ha => ?_⟩, child_alike, agree_of_copies hheap hstack fun c hc j hj =>
      (hcopied c hc j hj).trans (hsrc c hc j hj), fun a ha => ?_, fun a ha ha' => hown a ha (hlayout.owns ha')⟩
  · obtain hin | hin := hlayout.owns ha
    · exact hmono' a (hfresh a hin).2
    · exact (hfresh' a hin).2
  · exact (copyAll_frame fun c hc hin => hown a ha (copies_dest c hc a hin)).trans (hm' a (hown a ha))

end Clone

/-! ### `initialize` -/

structure VAPConfigLite where
  length : Nat
  start_addr : Word
  end_addr : Word
  static_privilege : Byte
  is_static : Bool

/-- The pool of a configuration. -/
def VAPConfigLite.pool (config : VAPConfigLite) (bitmap privileges : Nat) : VAddressPool :=
  ⟨config.length, bitmap, config.start_addr, config.end_addr, privileges, config.is_static,
    config.static_privilege⟩

/-- `VAddressPool::initialize` with a configuration. -/
def VAPConfigLite.initializePool (config : VAPConfigLite) (m : ByteMap) (bitmap privileges : Nat) :
    Outcome (VAddressPool × ByteMap) := do
  Outcome.ASSERT (config.length ≠ 0)
  let m := setFlags m bitmap 0 (bytes config.length) 0#8
  Outcome.ASSERT (BitVec.ofNat 32 config.length = (config.end_addr - config.start_addr + 1#32) / 4096#32)
  Outcome.ASSERT (!config.is_static || privileges = 0)
  return (config.pool bitmap privileges, m)

/-- `UserVAddressPool::initialize`, without the reverse mappings of the new pages; `none` is `false`. -/
def UserVAddressPool.initializePools (k : Kernel) (fuel : Nat) (mapped mapped' : Bool)
    (contents contents' : ByteMap) (segBoundary : SegBoundary)
    (heapConf stackConf mmapConf TLSConf : VAPConfigLite) (owner : Nat) :
    Outcome (Option UserVAddressPool × Kernel) := do
  let heapBitmapBytes := bytes heapConf.length
  let stackBitmapBytes := bytes stackConf.length
  let tlsBitmapBytes := bytes TLSConf.length
  let mmapBitmapBytes := bytes mmapConf.length
  let tlsPrivBytes := TLSConf.length
  let mmapPrivBytes := mmapConf.length
  let totalBitmapBytes := align (heapBitmapBytes + stackBitmapBytes + tlsBitmapBytes + mmapBitmapBytes)
  let totalPrivBytes := align (tlsPrivBytes + mmapPrivBytes)
  let (bitmapStart, k) ← k.allocatePages fuel mapped contents (totalBitmapBytes / 4096)
  let (privStart, k) ← k.allocatePages fuel mapped' contents' (totalPrivBytes / 4096)
  match bitmapStart, privStart with
  | some bitmapStart, some privStart => do
      let m := setFlags k.memory bitmapStart 0 totalBitmapBytes 0#8
      let m := setFlags m privStart 0 totalPrivBytes 0#8
      let heapBitmapStart := bitmapStart
      let stackBitmapStart := heapBitmapStart + heapBitmapBytes
      let tlsBitmapStart := stackBitmapStart + stackBitmapBytes
      let mmapBitmapStart := tlsBitmapStart + tlsBitmapBytes
      let tlsPrivStart := privStart
      let mmapPrivStart := tlsPrivStart + tlsPrivBytes
      let (heapPool, m) ← heapConf.initializePool m heapBitmapStart 0
      let (stackPool, m) ← stackConf.initializePool m stackBitmapStart 0
      let (mmapPool, m) ← mmapConf.initializePool m mmapBitmapStart mmapPrivStart
      let (TLSPool, m) ← TLSConf.initializePool m tlsBitmapStart tlsPrivStart
      Outcome.ASSERT (heapPool.isStatic && stackPool.isStatic)
      Outcome.ASSERT (heapPool.staticPrivilege = VP_RW ||| VP_USER)
      Outcome.ASSERT (stackPool.staticPrivilege = VP_RW ||| VP_USER)
      return (some {
        segBoundary, heapPool, stackPool, TLSPool, mmapPool, bitmapStart, privStart, owner
        bitmapPage := totalBitmapBytes / 4096
        privPage := totalPrivBytes / 4096 }, { k with memory := m })
  | _, _ => return (none, k)

theorem initializePool_ret {config : VAPConfigLite} {m : ByteMap} {bitmap privileges : Nat}
    {r : VAddressPool × ByteMap} (h : config.initializePool m bitmap privileges = .ret r) :
    r = (config.pool bitmap privileges, setFlags m bitmap 0 (bytes config.length) 0#8) := by
  obtain ⟨-, -, h⟩ := Outcome.bind_eq_ret h
  obtain ⟨-, -, h⟩ := Outcome.bind_eq_ret h
  obtain ⟨-, -, h⟩ := Outcome.bind_eq_ret h
  exact (Outcome.ret.inj h).symm

/-- Pools of whole pages are initialized by `initialize`, where TLS and MMAP have privileges of their own. -/
theorem initializePools_spec {k k' : Kernel} {fuel owner : Nat} {mapped mapped' : Bool}
    {contents contents' : ByteMap} {segBoundary : SegBoundary}
    {heapConf stackConf mmapConf TLSConf : VAPConfigLite} {u : UserVAddressPool}
    (hkernel : k.kernelVirtual.startAddress + 4096 * k.kernelVirtual.resources.length ≤ 2 ^ 32)
    (hheap : (heapConf.pool 0 0).Shaped) (hstack : (stackConf.pool 0 0).Shaped)
    (hmmap : (mmapConf.pool 0 0).Shaped) (hTLS : (TLSConf.pool 0 0).Shaped)
    (hmmapDynamic : mmapConf.is_static = false) (htlsDynamic : TLSConf.is_static = false)
    (hcall : UserVAddressPool.initializePools k fuel mapped mapped' contents contents' segBoundary heapConf
      stackConf mmapConf TLSConf owner = .ret (some u, k')) : Initialized k' u := by
  obtain ⟨⟨start, k₁⟩, halloc, hcall⟩ := Outcome.bind_eq_ret hcall
  obtain ⟨⟨start', k₂⟩, halloc', hcall⟩ := Outcome.bind_eq_ret hcall
  dsimp only at halloc halloc' hcall
  cases start with
  | none => cases (Prod.mk.inj (Outcome.ret.inj hcall)).1
  | some bitmapStart =>
  cases start' with
  | none => cases (Prod.mk.inj (Outcome.ret.inj hcall)).1
  | some privStart =>
  dsimp only at hcall
  obtain ⟨r₁, hr, hcall⟩ := Outcome.bind_eq_ret hcall
  obtain rfl := initializePool_ret hr
  obtain ⟨r₂, hr, hcall⟩ := Outcome.bind_eq_ret hcall
  obtain rfl := initializePool_ret hr
  obtain ⟨r₃, hr, hcall⟩ := Outcome.bind_eq_ret hcall
  obtain rfl := initializePool_ret hr
  obtain ⟨r₄, hr, hcall⟩ := Outcome.bind_eq_ret hcall
  obtain rfl := initializePool_ret hr
  obtain ⟨_, hstatic, hcall⟩ := Outcome.bind_eq_ret hcall
  obtain ⟨-, -, hcall⟩ := Outcome.bind_eq_ret hcall
  obtain ⟨-, -, hcall⟩ := Outcome.bind_eq_ret hcall
  obtain ⟨hu, rfl⟩ := Prod.mk.inj (Outcome.ret.inj hcall)
  have hstatic' : (heapConf.is_static && stackConf.is_static) = true := Outcome.of_ASSERT hstatic
  rw [Bool.and_eq_true] at hstatic'
  obtain ⟨hkernel₁, hfresh, hmono, -⟩ := Kernel.allocatePages_spec hkernel halloc
  obtain ⟨hkernel₂, hfresh', hmono', -⟩ := Kernel.allocatePages_spec hkernel₁ halloc'
  rw [align_pages] at hfresh hfresh'
  have hu := Option.some.inj hu
  have hlayout : Layout u bitmapStart privStart := by
    rw [← hu]
    exact ⟨rfl, rfl, rfl, rfl, rfl, rfl, hstatic'.1, hstatic'.2⟩
  subst hu
  refine ⟨hkernel₂, hlayout.wellFormed (fun seg p hp => ?_) fun a ha ha' => ?_, htlsDynamic, hmmapDynamic,
    fun a ha => ?_⟩
  · cases seg with
    | HEAP =>
        obtain rfl := Option.some.inj hp
        exact ⟨hheap.aligned, hheap.nonempty, hheap.size, hheap.last⟩
    | STACK =>
        obtain rfl := Option.some.inj hp
        exact ⟨hstack.aligned, hstack.nonempty, hstack.size, hstack.last⟩
    | TLS =>
        obtain rfl := Option.some.inj hp
        exact ⟨hTLS.aligned, hTLS.nonempty, hTLS.size, hTLS.last⟩
    | MMAP =>
        obtain rfl := Option.some.inj hp
        exact ⟨hmmap.aligned, hmmap.nonempty, hmmap.size, hmmap.last⟩
    | TEXT => cases hp
    | DATA => cases hp
    | BSS => cases hp
    | EMPTY => cases hp
  · exact (hfresh' a ha').1 (hfresh a ha).2
  · obtain hin | hin := hlayout.owns ha
    · exact hmono' a (hfresh a hin).2
    · exact (hfresh' a hin).2

/-- The answers of a sequence of calls. -/
def answersOf (x : Outcome (List Answer × ByteMap)) : Outcome (List Answer) := do
  let (answers, _) ← x
  return answers

theorem answersOf_congr {x y : Outcome (List Answer × ByteMap)} (h : Outcome.Rel (fun r r' => r.1 = r'.1) x y) :
    answersOf x = answersOf y := by
  cases x with
  | ret r =>
      obtain ⟨r', rfl, heq⟩ := h.of_ret
      exact congrArg Outcome.ret heq
  | halt =>
      cases y with
      | ret r' => exact h.elim
      | halt => rfl
      | diverge => exact h.elim
  | diverge =>
      cases y with
      | ret r' => exact h.elim
      | halt => exact h.elim
      | diverge => rfl

/-- The copy answers every sequence of calls as the parent does, and as the parent did before; and in every
order of the calls of the two, each gets the answers that it gets alone. -/
structure EqualIndependent (k k' : Kernel) (parent child : UserVAddressPool) : Prop where
  equal : ∀ fuel ops, (∀ op, op ∈ ops → op.Valid parent) →
    answersOf (child.run fuel k'.memory ops) = answersOf (parent.run fuel k'.memory ops)
  unchanged : ∀ fuel ops, (∀ op, op ∈ ops → op.Valid parent) →
    answersOf (parent.run fuel k'.memory ops) = answersOf (parent.run fuel k.memory ops)
  independent : ∀ fuel ops answers answers',
    (∀ op, op ∈ ops → op.2.Valid (if op.1 then parent else child)) →
    ((∃ m, runBoth parent child fuel k'.memory ops = .ret (answers, answers', m)) ↔
      (∃ m, parent.run fuel k'.memory (callsOf true ops) = .ret (answers, m)) ∧
        ∃ m, child.run fuel k'.memory (callsOf false ops) = .ret (answers', m))

/-- After a `cloneFrom` that succeeds the pools of the child are equal to those of its parent and independent of
them. -/
theorem cloneFrom_equal_independent {k k' : Kernel} {fuel owner : Nat} {mapped mapped' : Bool}
    {contents contents' : ByteMap} {parent child : UserVAddressPool} (hinit : Initialized k parent)
    (hcall : UserVAddressPool.cloneFrom k fuel mapped mapped' contents contents' parent owner =
      .ret (some child, k')) : EqualIndependent k k' parent child := by
  obtain ⟨hchild, halike, hagree, hkept, hapart⟩ := cloneFrom_spec hinit hcall
  have hself : ∀ (u : UserVAddressPool) (m : ByteMap), u.Agree m u m := fun u m seg p p' hp hp' => by
    obtain rfl := Option.some.inj (hp.symm.trans hp')
    exact ⟨fun _ _ => rfl, fun _ _ _ => rfl⟩
  have hparent : parent.Agree k'.memory parent k.memory := (hself parent k.memory).of_frame hkept
  have hboth : parent.Agree k'.memory child k'.memory := fun seg p p' hp hp' =>
    (hparent seg p p hp hp).trans ⟨rfl, rfl, rfl, rfl, rfl⟩ (hagree seg p p' hp hp')
  refine ⟨fun fuel ops hvalid => ?_, fun fuel ops hvalid => ?_, fun fuel ops answers answers' hvalid => ?_⟩
  · exact (answersOf_congr (hboth.run halike hinit.wellFormed hchild.wellFormed hvalid)).symm
  · exact answersOf_congr
      (hparent.run (UserVAddressPool.Alike.refl parent) hinit.wellFormed hinit.wellFormed hvalid)
  · exact runBoth_iff hinit.wellFormed hchild.wellFormed hapart hvalid (hself _ _) (hself _ _)

/-- A kernel with 16 pages, of which none is in use. -/
def smallKernel : Kernel := ⟨emptyPool 16 0xd0000000, fun _ => 0#8⟩

/-- Pools of eight pages each. -/
def smallConf (start_addr : Word) (is_static : Bool) : VAPConfigLite :=
  ⟨8, start_addr, start_addr + 0x7fff#32, VP_RW ||| VP_USER, is_static⟩

theorem smallConf_shaped {start_addr : Word} {is_static : Bool} (h : start_addr.toNat % 4096 = 0) :
    ((smallConf start_addr is_static).pool 0 0).Shaped where
  aligned := h
  nonempty := by
    show 1 ≤ 8
    decide
  size := by
    show 8 ≤ 2 ^ 20
    decide
  last := by
    show start_addr + 0x7fff#32 = start_addr + 0x8000#32 - 1#32
    bv_omega

/-- Three pages of the heap and two for `mmap`, of which one is released again. -/
def smallOps : List Op :=
  [.allocate .HEAP 3 (VP_RW ||| VP_USER) false, .allocate .MMAP 2 VP_USER false, .release .MMAP 0x50000000#32 1]

set_option maxRecDepth 20000 in
/-- A process in this kernel makes these calls and then forks. -/
theorem small_runs : ∃ parent k m child k',
    UserVAddressPool.initializePools smallKernel 20 true true (fun _ => 0#8) (fun _ => 0#8)
        ⟨⟨0, 0⟩, ⟨0, 0⟩, ⟨0, 0⟩⟩ (smallConf 0x08050000#32 true) (smallConf 0xbfbf0000#32 true)
        (smallConf 0x50000000#32 false) (smallConf 0x40000000#32 false) 1 = .ret (some parent, k) ∧
      UserVAddressPool.run parent 20 k.memory smallOps =
        .ret ([.address 0x08050000#32, .address 0x50000000#32, .done], m) ∧
      UserVAddressPool.cloneFrom { k with memory := m } 20 true true (fun _ => 0#8) (fun _ => 0#8) parent 2 =
        .ret (some child, k') :=
  ⟨_, _, _, _, _, rfl, rfl, rfl⟩

theorem cloneFrom_equal_independent_small : ∃ (k k' : Kernel) (parent child : UserVAddressPool) (m : ByteMap),
    Initialized { k with memory := m } parent ∧
    UserVAddressPool.run parent 20 k.memory smallOps =
        .ret ([.address 0x08050000#32, .address 0x50000000#32, .done], m) ∧
      UserVAddressPool.cloneFrom { k with memory := m } 20 true true (fun _ => 0#8) (fun _ => 0#8) parent 2 =
        .ret (some child, k') ∧
      EqualIndependent { k with memory := m } k' parent child := by
  obtain ⟨parent, k, m, child, k', hparent, hcalls, hchild⟩ := small_runs
  have hinit := initializePools_spec (by decide) (smallConf_shaped (by decide)) (smallConf_shaped (by decide))
    (smallConf_shaped (by decide)) (smallConf_shaped (by decide)) rfl rfl hparent
  -- what the pools hold does not matter for where they lie
  have hinit' : Initialized { k with memory := m } parent :=
    ⟨hinit.kernel, hinit.wellFormed, hinit.tlsDynamic, hinit.mmapDynamic, hinit.held⟩
  exact ⟨k, k', parent, child, m, hinit', hcalls, hchild, cloneFrom_equal_independent hinit' hchild⟩

end SysuOs.PoolMemory
