import Mathlib
import SysuOs.PoolMemory

/-! The four pools of a process and the calls on them. Pools of two processes that have the same pages allocated
give the same answers, and where no byte belongs to both, neither sees what the other does. -/

namespace SysuOs.PoolMemory

structure SegBoundary where
  text : Boundary
  data : Boundary
  bss : Boundary

/-- `UserVAddressPool`, once it is initialized. -/
structure UserVAddressPool where
  segBoundary : SegBoundary
  heapPool : VAddressPool
  stackPool : VAddressPool
  mmapPool : VAddressPool
  TLSPool : VAddressPool
  bitmapStart : Nat
  privStart : Nat
  bitmapPage : Nat
  privPage : Nat
  owner : Nat

/-! ### Calls -/

/-- A call on the pools of a process. -/
inductive Op where
  | allocate (seg : UserSegment) (count : Word) (privilege : Byte) (reverse : Bool)
  | release (seg : UserSegment) (vaddr count : Word)
  | getVPageFlag (seg : UserSegment) (vaddr : Word)

inductive Answer where
  | address (a : Word)
  | done
  | flag (f : Byte)

namespace UserVAddressPool

/-- The pool of a segment. -/
def pool (u : UserVAddressPool) : UserSegment → Option VAddressPool
  | .HEAP => some u.heapPool
  | .STACK => some u.stackPool
  | .TLS => some u.TLSPool
  | .MMAP => some u.mmapPool
  | _ => none

/-- `UserVAddressPool::allocate`. -/
def allocate (u : UserVAddressPool) (m : ByteMap) (fuel : Nat) (seg : UserSegment) (count : Word)
    (privilege : Byte) (reverse : Bool) : Outcome (Word × ByteMap) :=
  match seg with
  | .HEAP => u.heapPool.allocate m fuel count.toInt VP_CLEAR false
  | .STACK => u.stackPool.allocate m fuel count.toInt VP_CLEAR true
  | .TLS => u.TLSPool.allocate m fuel count.toInt privilege reverse
  | .MMAP => u.mmapPool.allocate m fuel count.toInt privilege reverse
  | _ => return (BitVec.ofInt 32 (-1), m)

/-- `UserVAddressPool::release`. -/
def release (u : UserVAddressPool) (m : ByteMap) (seg : UserSegment) (vaddr count : Word) : ByteMap :=
  match seg with
  | .HEAP => u.heapPool.release m vaddr count.toInt
  | .STACK => u.stackPool.release m vaddr count.toInt
  | .TLS => u.TLSPool.release m vaddr count.toInt
  | .MMAP => u.mmapPool.release m vaddr count.toInt
  | _ => m

/-- `UserVAddressPool::getVPageFlag`. -/
def getVPageFlag (u : UserVAddressPool) (m : ByteMap) (seg : UserSegment) (vaddr : Word) : Outcome Byte :=
  match seg with
  | .TEXT => return VP_USER
  | .DATA => return VP_RW ||| VP_USER
  | .BSS => return VP_RW ||| VP_USER
  | .HEAP => u.heapPool.getVPageFlag m vaddr
  | .STACK => u.stackPool.getVPageFlag m vaddr
  | .TLS => u.TLSPool.getVPageFlag m vaddr
  | .MMAP => u.mmapPool.getVPageFlag m vaddr
  | .EMPTY => .halt

def exec (u : UserVAddressPool) (m : ByteMap) (fuel : Nat) : Op → Outcome (Answer × ByteMap)
  | .allocate seg count privilege reverse => do
      let (a, m) ← u.allocate m fuel seg count privilege reverse
      return (.address a, m)
  | .release seg vaddr count => return (.done, u.release m seg vaddr count)
  | .getVPageFlag seg vaddr => do
      let f ← u.getVPageFlag m seg vaddr
      return (.flag f, m)

/-- A sequence of calls. -/
def run (u : UserVAddressPool) (fuel : Nat) : ByteMap → List Op → Outcome (List Answer × ByteMap)
  | m, [] => return ([], m)
  | m, op :: ops => do
      let (answer, m) ← u.exec m fuel op
      let (answers, m) ← run u fuel m ops
      return (answer :: answers, m)

end UserVAddressPool

/-- Calls of two processes in some order, with the answers of the first (`true`) and of the second. -/
def runBoth (u u' : UserVAddressPool) (fuel : Nat) :
    ByteMap → List (Bool × Op) → Outcome (List Answer × List Answer × ByteMap)
  | m, [] => return ([], [], m)
  | m, (true, op) :: ops => do
      let (answer, m) ← u.exec m fuel op
      let (answers, answers', m) ← runBoth u u' fuel m ops
      return (answer :: answers, answers', m)
  | m, (false, op) :: ops => do
      let (answer, m) ← u'.exec m fuel op
      let (answers, answers', m) ← runBoth u u' fuel m ops
      return (answers, answer :: answers', m)

/-- The calls of one of the two. -/
def callsOf (side : Bool) (ops : List (Bool × Op)) : List Op :=
  ops.filterMap fun op => if op.1 = side then some op.2 else none

/-- Released pages are pages of the pool. -/
def Op.Valid (u : UserVAddressPool) : Op → Prop
  | .release seg vaddr count =>
      ∀ p, u.pool seg = some p → ∀ j, j < count.toInt.toNat → p.index vaddr + j < p.length
  | _ => True

/-! ### What a call depends on and what it writes -/

namespace UserVAddressPool

/-- A byte of one of the pools. -/
def Owns (u : UserVAddressPool) (a : Nat) : Prop := ∃ seg p, u.pool seg = some p ∧ p.Owns a

/-- Pools that are in order, and share no byte. -/
structure WellFormed (u : UserVAddressPool) : Prop where
  pool : ∀ seg p, u.pool seg = some p → p.WellFormed
  apart : ∀ seg seg' p p' a, u.pool seg = some p → u.pool seg' = some p' → p.Owns a → p'.Owns a → seg = seg'

/-- Pools of the same addresses. -/
def Alike (u u' : UserVAddressPool) : Prop :=
  ∀ seg p p', u.pool seg = some p → u'.pool seg = some p' → p.Alike p'

/-- The same pages of each segment are allocated, with the same privileges. -/
def Agree (u : UserVAddressPool) (m : ByteMap) (u' : UserVAddressPool) (m' : ByteMap) : Prop :=
  ∀ seg p p', u.pool seg = some p → u'.pool seg = some p' → p.Agree m p' m'

variable {u u' : UserVAddressPool} {m m' n n' : ByteMap} {fuel a : Nat} {seg : UserSegment}
  {p p' : VAddressPool} {op : Op}

/-- Which segments have a pool does not depend on the process. -/
theorem pool_cases (u u' : UserVAddressPool) (seg : UserSegment) :
    (u.pool seg = none ∧ u'.pool seg = none) ∨ ∃ p p', u.pool seg = some p ∧ u'.pool seg = some p' := by
  cases seg with
  | HEAP => exact Or.inr ⟨_, _, rfl, rfl⟩
  | STACK => exact Or.inr ⟨_, _, rfl, rfl⟩
  | TLS => exact Or.inr ⟨_, _, rfl, rfl⟩
  | MMAP => exact Or.inr ⟨_, _, rfl, rfl⟩
  | TEXT => exact Or.inl ⟨rfl, rfl⟩
  | DATA => exact Or.inl ⟨rfl, rfl⟩
  | BSS => exact Or.inl ⟨rfl, rfl⟩
  | EMPTY => exact Or.inl ⟨rfl, rfl⟩

/-- An allocation is one from the pool of the segment. The heap grows up and the stack grows down. -/
theorem allocate_eq {count : Word} {privilege : Byte} {reverse : Bool} :
    u.allocate m fuel seg count privilege reverse = match u.pool seg with
      | none => return (BitVec.ofInt 32 (-1), m)
      | some p => p.allocate m fuel count.toInt (if seg = .HEAP ∨ seg = .STACK then VP_CLEAR else privilege)
          (if seg = .HEAP then false else if seg = .STACK then true else reverse) := by
  cases seg <;> rfl

theorem release_eq {vaddr count : Word} :
    u.release m seg vaddr count = match u.pool seg with
      | none => m
      | some p => p.release m vaddr count.toInt := by
  cases seg <;> rfl

theorem getVPageFlag_eq {vaddr : Word} :
    u.getVPageFlag m seg vaddr = match u.pool seg with
      | none => if seg = .EMPTY then .halt else if seg = .TEXT then return VP_USER else return VP_RW ||| VP_USER
      | some p => p.getVPageFlag m vaddr := by
  cases seg <;> rfl

/-- What happens in one pool does not touch the others. -/
theorem Agree.step (h : u.Agree m u' m') (halike : u.Alike u') (hu : u.WellFormed) (hu' : u'.WellFormed)
    (hp : u.pool seg = some p) (hp' : u'.pool seg = some p') (hagree : p.Agree n p' n')
    (hframe : ∀ a, ¬p.Owns a → n a = m a) (hframe' : ∀ a, ¬p'.Owns a → n' a = m' a) : u.Agree n u' n' := by
  intro seg' q q' hq hq'
  by_cases hseg : seg' = seg
  · obtain rfl := hseg
    obtain rfl := Option.some.inj (hp.symm.trans hq)
    obtain rfl := Option.some.inj (hp'.symm.trans hq')
    exact hagree
  · have hkept : q.Agree n q m := VAddressPool.Agree.of_owns fun a ha =>
      hframe a fun hown => hseg (hu.apart seg' seg q p a hq hp ha hown)
    have hkept' : q'.Agree m' q' n' := VAddressPool.Agree.of_owns fun a ha =>
      (hframe' a fun hown => hseg (hu'.apart seg' seg q' p' a hq' hp' ha hown)).symm
    have hself : q.Alike q := ⟨rfl, rfl, rfl, rfl, rfl⟩
    exact hkept.trans hself ((h seg' q q' hq hq').trans (halike seg' q q' hq hq') hkept')

/-- Pools that agree answer a call alike, and agree after it. -/
theorem Agree.exec (h : u.Agree m u' m') (halike : u.Alike u') (hu : u.WellFormed) (hu' : u'.WellFormed)
    (hvalid : op.Valid u) :
    Outcome.Rel (fun r r' => r.1 = r'.1 ∧ u.Agree r.2 u' r'.2) (u.exec m fuel op) (u'.exec m' fuel op) := by
  cases op with
  | allocate seg count privilege reverse =>
      rw [UserVAddressPool.exec, UserVAddressPool.exec, allocate_eq, allocate_eq]
      obtain ⟨hp, hp'⟩ | ⟨p, p', hp, hp'⟩ := pool_cases u u' seg
      · rw [hp, hp']
        exact ⟨rfl, h⟩
      · rw [hp, hp']
        have hcall := @VAddressPool.Agree.allocate p p' m m' fuel
          (if seg = .HEAP then false else if seg = .STACK then true else reverse)
          (if seg = .HEAP ∨ seg = .STACK then VP_CLEAR else privilege) count.toInt (h seg p p' hp hp')
          (halike seg p p' hp hp') (hu.pool seg p hp) (hu'.pool seg p' hp')
        have hstep : Outcome.Rel (fun (r r' : Word × ByteMap) => r.1 = r'.1 ∧ u.Agree r.2 u' r'.2) _ _ :=
          hcall.mono fun r r' hr hr' hrel => ⟨hrel.1, h.step halike hu hu' hp hp' hrel.2
            (fun a ha => VAddressPool.allocate_frame hr ha) fun a ha => VAddressPool.allocate_frame hr' ha⟩
        exact hstep.bind fun r r' hrel => ⟨congrArg Answer.address hrel.1, hrel.2⟩
  | release seg vaddr count =>
      rw [UserVAddressPool.exec, UserVAddressPool.exec, release_eq, release_eq]
      obtain ⟨hp, hp'⟩ | ⟨p, p', hp, hp'⟩ := pool_cases u u' seg
      · rw [hp, hp']
        exact ⟨rfl, h⟩
      · rw [hp, hp']
        have hin := hvalid p hp
        have halike' := halike seg p p' hp hp'
        have hin' : ∀ j, j < count.toInt.toNat → p'.index vaddr + j < p'.length := by
          rw [← halike'.index, ← halike'.length]
          exact hin
        exact ⟨rfl, h.step halike hu hu' hp hp'
          ((h seg p p' hp hp').release halike' (hu.pool seg p hp) (hu'.pool seg p' hp') hin)
          (fun a ha => VAddressPool.release_frame hin ha) fun a ha => VAddressPool.release_frame hin' ha⟩
  | getVPageFlag seg vaddr =>
      rw [UserVAddressPool.exec, UserVAddressPool.exec]
      have hflag : u.getVPageFlag m seg vaddr = u'.getVPageFlag m' seg vaddr := by
        rw [getVPageFlag_eq, getVPageFlag_eq]
        obtain ⟨hp, hp'⟩ | ⟨p, p', hp, hp'⟩ := pool_cases u u' seg
        · rw [hp, hp']
        · rw [hp, hp']
          exact (h seg p p' hp hp').getVPageFlag (halike seg p p' hp hp') (hu.pool seg p hp)
      rw [hflag]
      cases u'.getVPageFlag m' seg vaddr with
      | ret f => exact ⟨rfl, h⟩
      | halt => trivial
      | diverge => trivial

/-- A call writes to the bytes of its process alone. -/
theorem exec_frame {r : Answer × ByteMap} (hvalid : op.Valid u) (hcall : u.exec m fuel op = .ret r)
    (ha : ¬u.Owns a) : r.2 a = m a := by
  have hnot : ∀ {seg p}, u.pool seg = some p → ¬p.Owns a := fun hp hown => ha ⟨_, _, hp, hown⟩
  cases op with
  | allocate seg count privilege reverse =>
      rw [UserVAddressPool.exec, allocate_eq] at hcall
      obtain ⟨r', hr', hret⟩ := Outcome.bind_eq_ret hcall
      obtain rfl := Outcome.ret.inj hret
      cases hp : u.pool seg with
      | none =>
          rw [hp] at hr'
          obtain rfl := Outcome.ret.inj hr'
          rfl
      | some p =>
          rw [hp] at hr'
          exact VAddressPool.allocate_frame hr' (hnot hp)
  | release seg vaddr count =>
      rw [UserVAddressPool.exec, release_eq] at hcall
      obtain rfl := Outcome.ret.inj hcall
      cases hp : u.pool seg with
      | none => rfl
      | some p => exact VAddressPool.release_frame (hvalid p hp) (hnot hp)
  | getVPageFlag seg vaddr =>
      rw [UserVAddressPool.exec] at hcall
      obtain ⟨f, -, hret⟩ := Outcome.bind_eq_ret hcall
      obtain rfl := Outcome.ret.inj hret
      rfl

/-! ### Sequences of calls -/

/-- Pools that agree give the same answers. -/
theorem Agree.run {ops : List Op} (h : u.Agree m u' m') (halike : u.Alike u') (hu : u.WellFormed)
    (hu' : u'.WellFormed) (hvalid : ∀ op, op ∈ ops → op.Valid u) :
    Outcome.Rel (fun r r' => r.1 = r'.1) (u.run fuel m ops) (u'.run fuel m' ops) := by
  induction ops generalizing m m' with
  | nil => exact rfl
  | cons op ops ih =>
      rw [List.forall_mem_cons] at hvalid
      refine (h.exec halike hu hu' hvalid.1).bind fun r r' hrel => ?_
      refine (ih hrel.2 hvalid.2).bind fun s s' hanswers => ?_
      exact congrArg₂ List.cons hrel.1 hanswers

theorem run_cons {ops : List Op} {answers : List Answer} :
    (∃ m', u.run fuel m (op :: ops) = .ret (answers, m')) ↔
      ∃ r answers₁, u.exec m fuel op = .ret r ∧ answers = r.1 :: answers₁ ∧
        ∃ m', u.run fuel r.2 ops = .ret (answers₁, m') := by
  rw [UserVAddressPool.run]
  constructor
  · rintro ⟨m', hret⟩
    obtain ⟨r, hr, hret⟩ := Outcome.bind_eq_ret hret
    obtain ⟨s, hs, hret⟩ := Outcome.bind_eq_ret hret
    obtain ⟨rfl, rfl⟩ := Prod.mk.inj (Outcome.ret.inj hret)
    exact ⟨r, s.1, hr, rfl, s.2, hs⟩
  · rintro ⟨r, answers₁, hr, rfl, m', hs⟩
    refine ⟨m', ?_⟩
    rw [hr, Outcome.ret_bind]
    dsimp only
    rw [hs]
    rfl

/-- What others write does not change what a process sees. -/
theorem Agree.of_frame (h : u.Agree m u m') (hframe : ∀ a, u.Owns a → n a = m a) : u.Agree n u m' := by
  intro seg p p' hp hp'
  have hkept : p.Agree n p m := VAddressPool.Agree.of_owns fun a ha => hframe a ⟨seg, p, hp, ha⟩
  exact hkept.trans ⟨rfl, rfl, rfl, rfl, rfl⟩ (h seg p p' hp hp')

theorem Alike.refl (u : UserVAddressPool) : u.Alike u := fun seg p p' hp hp' => by
  obtain rfl := Option.some.inj (hp.symm.trans hp')
  exact ⟨rfl, rfl, rfl, rfl, rfl⟩

end UserVAddressPool

section Both

variable {u u' : UserVAddressPool} {m m₁ m₂ : ByteMap} {fuel : Nat} {op : Op} {ops : List (Bool × Op)}
  {answers answers' : List Answer}

theorem runBoth_true :
    (∃ m', runBoth u u' fuel m ((true, op) :: ops) = .ret (answers, answers', m')) ↔
      ∃ r answers₁, u.exec m fuel op = .ret r ∧ answers = r.1 :: answers₁ ∧
        ∃ m', runBoth u u' fuel r.2 ops = .ret (answers₁, answers', m') := by
  rw [runBoth]
  constructor
  · rintro ⟨m', hret⟩
    obtain ⟨r, hr, hret⟩ := Outcome.bind_eq_ret hret
    obtain ⟨s, hs, hret⟩ := Outcome.bind_eq_ret hret
    obtain ⟨rfl, heq⟩ := Prod.mk.inj (Outcome.ret.inj hret)
    obtain ⟨rfl, rfl⟩ := Prod.mk.inj heq
    exact ⟨r, s.1, hr, rfl, s.2.2, hs⟩
  · rintro ⟨r, answers₁, hr, rfl, m', hs⟩
    refine ⟨m', ?_⟩
    rw [hr, Outcome.ret_bind]
    dsimp only
    rw [hs]
    rfl

theorem runBoth_false :
    (∃ m', runBoth u u' fuel m ((false, op) :: ops) = .ret (answers, answers', m')) ↔
      ∃ r answers₁, u'.exec m fuel op = .ret r ∧ answers' = r.1 :: answers₁ ∧
        ∃ m', runBoth u u' fuel r.2 ops = .ret (answers, answers₁, m') := by
  rw [runBoth]
  constructor
  · rintro ⟨m', hret⟩
    obtain ⟨r, hr, hret⟩ := Outcome.bind_eq_ret hret
    obtain ⟨s, hs, hret⟩ := Outcome.bind_eq_ret hret
    obtain ⟨rfl, heq⟩ := Prod.mk.inj (Outcome.ret.inj hret)
    obtain ⟨rfl, rfl⟩ := Prod.mk.inj heq
    exact ⟨r, s.2.1, hr, rfl, s.2.2, hs⟩
  · rintro ⟨r, answers₁, hr, rfl, m', hs⟩
    refine ⟨m', ?_⟩
    rw [hr, Outcome.ret_bind]
    dsimp only
    rw [hs]
    rfl

/-- Where no byte belongs to both, each process gets the answers that it gets alone, in any order of the
calls. -/
theorem runBoth_iff (hu : u.WellFormed) (hu' : u'.WellFormed) (hapart : ∀ a, u.Owns a → ¬u'.Owns a)
    (hvalid : ∀ op, op ∈ ops → op.2.Valid (if op.1 then u else u')) (h₁ : u.Agree m u m₁)
    (h₂ : u'.Agree m u' m₂) :
    (∃ m', runBoth u u' fuel m ops = .ret (answers, answers', m')) ↔
      (∃ m', u.run fuel m₁ (callsOf true ops) = .ret (answers, m')) ∧
        ∃ m', u'.run fuel m₂ (callsOf false ops) = .ret (answers', m') := by
  induction ops generalizing m m₁ m₂ answers answers' with
  | nil =>
      constructor
      · rintro ⟨m', hret⟩
        obtain ⟨rfl, heq⟩ := Prod.mk.inj (Outcome.ret.inj hret)
        obtain ⟨rfl, rfl⟩ := Prod.mk.inj heq
        exact ⟨⟨m₁, rfl⟩, m₂, rfl⟩
      · rintro ⟨⟨m', hret⟩, m'', hret'⟩
        obtain ⟨rfl, -⟩ := Prod.mk.inj (Outcome.ret.inj hret)
        obtain ⟨rfl, -⟩ := Prod.mk.inj (Outcome.ret.inj hret')
        exact ⟨m, rfl⟩
  | cons op ops ih =>
      rw [List.forall_mem_cons] at hvalid
      obtain ⟨side, op⟩ := op
      cases side with
      | true =>
          have hop : op.Valid u := hvalid.1
          have hrel := @UserVAddressPool.Agree.exec u u m m₁ fuel op h₁ (.refl u) hu hu hop
          rw [runBoth_true, show callsOf true ((true, op) :: ops) = op :: callsOf true ops from rfl,
            show callsOf false ((true, op) :: ops) = callsOf false ops from rfl, UserVAddressPool.run_cons]
          have hkept : ∀ r, u.exec m fuel op = .ret r → u'.Agree r.2 u' m₂ := fun r hr =>
            h₂.of_frame fun a ha => UserVAddressPool.exec_frame hop hr fun hown => hapart a hown ha
          constructor
          · rintro ⟨r, answers₁, hr, rfl, hrest⟩
            rw [hr] at hrel
            obtain ⟨r₁, hr₁, heq, hagree⟩ := hrel.of_ret
            obtain ⟨hrun, hrun'⟩ := (ih hvalid.2 hagree (hkept r hr)).mp hrest
            exact ⟨⟨r₁, answers₁, hr₁, by rw [heq], hrun⟩, hrun'⟩
          · rintro ⟨⟨r₁, answers₁, hr₁, rfl, hrun⟩, hrun'⟩
            rw [hr₁] at hrel
            obtain ⟨r, hr, heq, hagree⟩ := hrel.of_ret_right
            exact ⟨r, answers₁, hr, by rw [heq], (ih hvalid.2 hagree (hkept r hr)).mpr ⟨hrun, hrun'⟩⟩
      | false =>
          have hop : op.Valid u' := hvalid.1
          have hrel := @UserVAddressPool.Agree.exec u' u' m m₂ fuel op h₂ (.refl u') hu' hu' hop
          rw [runBoth_false, show callsOf true ((false, op) :: ops) = callsOf true ops from rfl,
            show callsOf false ((false, op) :: ops) = op :: callsOf false ops from rfl,
            UserVAddressPool.run_cons]
          have hkept : ∀ r, u'.exec m fuel op = .ret r → u.Agree r.2 u m₁ := fun r hr =>
            h₁.of_frame fun a ha => UserVAddressPool.exec_frame hop hr (hapart a ha)
          constructor
          · rintro ⟨r, answers₁, hr, rfl, hrest⟩
            rw [hr] at hrel
            obtain ⟨r₁, hr₁, heq, hagree⟩ := hrel.of_ret
            obtain ⟨hrun, hrun'⟩ := (ih hvalid.2 (hkept r hr) hagree).mp hrest
            exact ⟨hrun, r₁, answers₁, hr₁, by rw [heq], hrun'⟩
          · rintro ⟨hrun, r₁, answers₁, hr₁, rfl, hrun'⟩
            rw [hr₁] at hrel
            obtain ⟨r, hr, heq, hagree⟩ := hrel.of_ret_right
            exact ⟨r, answers₁, hr, by rw [heq], (ih hvalid.2 (hkept r hr) hagree).mpr ⟨hrun, hrun'⟩⟩

end Both

end SysuOs.PoolMemory
