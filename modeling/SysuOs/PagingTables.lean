import SysuOs.PagingWords

/-! The page tables of one address space and the counters of their directory entries, as the functions of
`memory.cpp`, `program.cpp` and `handler.cpp` change them. What the other parts of the memory manager
answer is given with each call: the frames for new page tables and for pages, and whether a reverse
mapping is left. Pages and their contents are left out, and so are the reverse mappings. -/

namespace SysuOs.PageTables

/-- A directory entry that is present: the frame of the page table and the counter of three bits. -/
structure Pde where
  frame : Nat
  count : Nat
  deriving DecidableEq, Repr

/-- An address space. A page is given by its number, `vaddr / PAGE_SIZE`; `reserved` shows the pages in use
in the virtual pools. -/
structure Space where
  pde : Nat → Option Pde
  mem : Nat → Nat → Word
  reserved : Nat → Bool

/-- What a call is answered: the frame of the page table for a directory entry, if there is one, the
address of the physical page for a page and the flags for it, and whether `attach` finds an entry. -/
structure Answers where
  table : Nat → Option Nat
  page : Nat → Option Nat
  flags : Nat → Word
  attach : Nat → Bool

namespace Space

/-- The entry of the page table for a page; 0 where there is no page table. -/
def entry (s : Space) (n : Nat) : Word :=
  match s.pde (n / 1024) with
  | some e => s.mem e.frame (n % 1024)
  | none => 0#32

def setPte (s : Space) (n : Nat) (w : Word) : Space :=
  match s.pde (n / 1024) with
  | some e => { s with mem := Function.update s.mem e.frame (Function.update (s.mem e.frame) (n % 1024) w) }
  | none => s

/-- `PDEinc`. -/
def pdeInc (s : Space) (n : Nat) : Space :=
  match s.pde (n / 1024) with
  | some e =>
      { s with pde := Function.update s.pde (n / 1024) (some { e with count := min (e.count + 1) 7 }) }
  | none => s

/-- `PDEdec`; a directory entry that is 0 has the count 0. -/
def pdeDec (s : Space) (n : Nat) : Outcome (Bool × Space) :=
  match s.pde (n / 1024) with
  | some e => do
      Outcome.ASSERT (e.count > 0)
      if e.count = 7 then return (false, s)
      else return (decide (e.count - 1 = 0),
        { s with pde := Function.update s.pde (n / 1024) (some { e with count := e.count - 1 }) })
  | none => .halt

/-- The count in `PDE_KERNEL` and in `PDE_USER`. -/
def firstCount : AddressPoolType → Nat
  | .KERNEL => 7
  | .USER => 0

/-- A directory entry is set to a page table, which is cleared. -/
def linkTable (s : Space) (type : AddressPoolType) (n frame : Nat) : Space :=
  { s with
    pde := Function.update s.pde (n / 1024) (some ⟨frame, firstCount type⟩)
    mem := Function.update s.mem frame fun _ => 0#32 }

/-- `releasePageTable`. -/
def releasePageTable (s : Space) (n : Nat) : Space :=
  { s with pde := Function.update s.pde (n / 1024) none }

/-- The pages from `start` on become reserved, or free again. -/
def reserve (s : Space) (start count : Nat) (inUse : Bool) : Space :=
  { s with reserved := fun n => if start ≤ n ∧ n < start + count then inUse else s.reserved n }

/-- A user page table where there is none; whether there is one then. -/
def needTable (s : Space) (a : Answers) (n : Nat) : Bool × Space :=
  match s.pde (n / 1024) with
  | some _ => (true, s)
  | none =>
      match a.table (n / 1024) with
      | some frame => (true, s.linkTable .USER n frame)
      | none => (false, s)

/-- An entry is written and counted. -/
def mapPage (s : Space) (n : Nat) (w : Word) : Space := (s.setPte n w).pdeInc n

/-- The entry for a page that is present. -/
def presentEntry (a : Answers) (n paddr : Nat) : Word :=
  BitVec.ofNat 32 paddr ||| a.flags n ||| PTE_PRESENT

/-! ### `memory.cpp` -/

def connectPhysicalVirtualPage (s : Space) (a : Answers) (n paddr : Nat) : Outcome (Bool × Space) :=
  match s.needTable a n with
  | (false, s) => return (false, s)
  | (true, s) => do
      Outcome.ASSERT (a.attach n = true)
      return (true, s.mapPage n (presentEntry a n paddr))

/-- An iteration of `releasePages`. -/
def releasePage (s : Space) (n : Nat) : Outcome Space :=
  match s.pde (n / 1024) with
  | none => return s
  | some _ =>
      if !hasFlag (s.entry n) PTE_PRESENT then return s.setPte n 0#32
      else do
        let (empty, s) ← (s.setPte n 0#32).pdeDec n
        return if empty then s.releasePageTable n else s

/-- The loop of `releasePages`. -/
def releaseLoop : Nat → Nat → Space → Outcome Space
  | 0, _, s => return s
  | count + 1, n, s => do
      let s ← s.releasePage n
      releaseLoop count (n + 1) s

def releasePages (s : Space) (start count : Nat) : Outcome Space := do
  let s ← releaseLoop count start s
  return s.reserve start count false

/-- What `allocatePages` does for a page. -/
def allocatePage (s : Space) (a : Answers) (n : Nat) : Outcome (Bool × Space) :=
  match a.page n with
  | some paddr => s.connectPhysicalVirtualPage a n paddr
  | none => return (false, s)

/-- The loop of `allocatePages`, with `left` of its pages left. -/
def allocatePagesLoop (a : Answers) (start count : Nat) : Nat → Space → Outcome (Option Nat × Space)
  | 0, s => return (some start, s)
  | left + 1, s => do
      let i := count - (left + 1)
      let (flag, s) ← s.allocatePage a (start + i)
      if flag then allocatePagesLoop a start count left s
      else do
        let s ← s.releasePages start i
        return (none, s.reserve (start + i) (count - i) false)

/-- `allocatePages`, `start` being what the virtual pool answers. -/
def allocatePages (s : Space) (a : Answers) (start : Option Nat) (count : Nat) :
    Outcome (Option Nat × Space) :=
  match start with
  | none => return (none, s)
  | some start => allocatePagesLoop a start count count (s.reserve start count true)

/-- What `allocatePagesLazy` does about the page table for its `i`-th page. Without one it takes back the
pages before and goes on with the page table at 0. -/
def lazyTable (s : Space) (a : Answers) (type : AddressPoolType) (start count i : Nat) : Outcome Space :=
  match s.pde ((start + i) / 1024) with
  | some _ => return s
  | none =>
      match a.table ((start + i) / 1024) with
      | some frame => return s.linkTable type (start + i) frame
      | none => do
          let s ← s.releasePages start i
          return (s.reserve (start + i) (count - i) false).linkTable type (start + i) 0

/-- The loop of `allocatePagesLazy`, with `left` of its pages left. -/
def allocatePagesLazyLoop (a : Answers) (type : AddressPoolType) (start count : Nat) :
    Nat → Space → Outcome Space
  | 0, s => return s
  | left + 1, s => do
      let i := count - (left + 1)
      let s ← s.lazyTable a type start count i
      allocatePagesLazyLoop a type start count left (s.mapPage (start + i) (PTE_LAZY ||| PTE_WRITABLE))

/-- `allocatePagesLazy`, `start` being what the virtual pool answers. -/
def allocatePagesLazy (s : Space) (a : Answers) (type : AddressPoolType) (start : Option Nat)
    (count : Nat) : Outcome (Option Nat × Space) :=
  match start with
  | none => return (none, s)
  | some start => do
      let s ← allocatePagesLazyLoop a type start count count (s.reserve start count true)
      return (some start, s)

/-! ### `program.cpp` -/

/-- `map_process_page`; `mapTemp` finds the page table of the kernel that it needs. -/
def mapProcessPage (s : Space) (a : Answers) (n paddr : Nat) : Outcome (Bool × Space) :=
  match s.needTable a n with
  | (false, s) => return (false, s)
  | (true, s) =>
      if hasFlag (s.entry n) PTE_PRESENT then return (false, s)
      else
        let s := s.mapPage n (presentEntry a n paddr)
        if a.attach n then return (true, s)
        else do
          let (_, s) ← (s.setPte n 0#32).pdeDec n
          return (false, s)

/-- `release_process_page`; a page table that has become empty stays. -/
def releaseProcessPage (s : Space) (n : Nat) : Outcome (Bool × Space) :=
  match s.pde (n / 1024) with
  | none => return (false, s)
  | some _ =>
      if hasFlag (s.entry n) PTE_PRESENT then do
        let (_, s) ← (s.setPte n 0#32).pdeDec n
        return (true, s)
      else return (false, s)

/-- `setCOW`: the entries of a physical page, wherever they are, are downgraded. -/
def setCOW (s : Space) (slots : Nat → Nat → Bool) : Space :=
  { s with mem := fun frame k => if slots frame k then Kernel.cowEntry (s.mem frame k) else s.mem frame k }

/-- The loop of `setupCOWPages`, with `left` of its pages left; `cow` are the entries of the physical page
for a page, if `setCOW` finds them. What it has mapped stays if it fails. -/
def setupCOWPages (a : Answers) (cow : Nat → Option (Nat → Nat → Bool)) (paddr : Nat) :
    Nat → Nat → Space → Bool × Space
  | 0, _, s => (true, s)
  | left + 1, n, s =>
      match s.needTable a n with
      | (false, s) => (false, s)
      | (true, s) =>
          match cow n with
          | none => (false, s)
          | some slots =>
              setupCOWPages a cow (paddr + 4096) left (n + 1)
                ((s.setCOW slots).mapPage n (Kernel.sharedEntry paddr))

/-! ### `handler.cpp` -/

/-- The case `DEMAND_ZERO`: the entry is lazy, and what `connectPhysicalVirtualPage` returns is ignored. -/
def demandZero (s : Space) (a : Answers) (n : Nat) : Outcome Space :=
  match a.page n with
  | none => return s
  | some paddr => do
      let (_, s) ← s.connectPhysicalVirtualPage a n paddr
      return s

/-- The case `COPY_ON_WRITE` for a present entry, with a new page if there is to be a copy. -/
def copyOnWrite (s : Space) (n : Nat) (newPaddr : Option Nat) : Space :=
  let w := Kernel.writableEntry (s.entry n)
  match newPaddr with
  | none => s.setPte n w
  | some paddr => s.setPte n ((w &&& ~~~PTE_GET_ADDRESS) ||| BitVec.ofNat 32 paddr)

end Space

/-! ### Entries of a page table -/

/-- The entries of a page table that are as `P` says. -/
def slots (P : Word → Prop) [DecidablePred P] (t : Nat → Word) : Finset Nat :=
  (Finset.range 1024).filter fun k => P (t k)

section Slots

variable {P : Word → Prop} [DecidablePred P] {t t' : Nat → Word} {k : Nat} {w : Word}

theorem mem_slots {j : Nat} : j ∈ slots P t ↔ j < 1024 ∧ P (t j) := by
  rw [slots, Finset.mem_filter, Finset.mem_range]

theorem card_slots_mono (h : ∀ j, P (t' j) → P (t j)) : (slots P t').card ≤ (slots P t).card :=
  Finset.card_le_card fun j hj => mem_slots.mpr ⟨(mem_slots.mp hj).1, h j (mem_slots.mp hj).2⟩

theorem slots_zero (hzero : ¬P 0#32) : slots P (fun _ => 0#32) = ∅ := by
  ext j
  rw [mem_slots]
  exact iff_of_false (fun hj => hzero hj.2) (Finset.notMem_empty j)

theorem slots_update_subset : slots P (Function.update t k w) ⊆ insert k (slots P t) := by
  intro j hj
  rw [mem_slots] at hj
  by_cases hjk : j = k
  · exact Finset.mem_insert.mpr (Or.inl hjk)
  · rw [Function.update_of_ne hjk] at hj
    exact Finset.mem_insert_of_mem (mem_slots.mpr hj)

theorem card_slots_update_le : (slots P (Function.update t k w)).card ≤ (slots P t).card + 1 :=
  (Finset.card_le_card slots_update_subset).trans (Finset.card_insert_le k _)

theorem card_slots_update_keep (h : P w → P (t k)) :
    (slots P (Function.update t k w)).card ≤ (slots P t).card := by
  refine card_slots_mono fun j hj => ?_
  by_cases hjk : j = k
  · subst hjk
    rw [Function.update_self] at hj
    exact h hj
  · rwa [Function.update_of_ne hjk] at hj

theorem card_slots_update_drop (hk : k < 1024) (hold : P (t k)) (hnew : ¬P w) :
    (slots P (Function.update t k w)).card + 1 = (slots P t).card := by
  have herase : slots P (Function.update t k w) = (slots P t).erase k := by
    ext j
    rw [Finset.mem_erase, mem_slots, mem_slots]
    by_cases hjk : j = k
    · rw [hjk, Function.update_self]
      exact iff_of_false (fun h => hnew h.2) fun h => h.1 rfl
    · rw [Function.update_of_ne hjk]
      exact (and_iff_right hjk).symm
  rw [herase]
  exact Finset.card_erase_add_one (mem_slots.mpr ⟨hk, hold⟩)

theorem card_slots_update_add (hk : k < 1024) (hold : ¬P (t k)) (hnew : P w) :
    (slots P (Function.update t k w)).card = (slots P t).card + 1 := by
  have hinsert : slots P (Function.update t k w) = insert k (slots P t) := by
    refine Finset.Subset.antisymm slots_update_subset fun j hj => ?_
    rw [mem_slots]
    rcases Finset.mem_insert.mp hj with rfl | hj
    · refine ⟨hk, ?_⟩
      rw [Function.update_self]
      exact hnew
    · obtain ⟨hlt, hin⟩ := mem_slots.mp hj
      have hjk : j ≠ k := by
        rintro rfl
        exact hold hin
      rw [Function.update_of_ne hjk]
      exact ⟨hlt, hin⟩
  have hnot : k ∉ slots P t := by
    intro hin
    obtain ⟨-, hin⟩ := mem_slots.mp hin
    exact hold hin
  rw [hinsert, Finset.card_insert_of_notMem hnot]

end Slots

/-! ### What the steps write -/

namespace Space

variable {s : Space} {n : Nat} {w : Word} {e : Pde}

theorem entry_eq (h : s.pde (n / 1024) = some e) : s.entry n = s.mem e.frame (n % 1024) := by
  rw [entry, h]

theorem entry_none (h : s.pde (n / 1024) = none) : s.entry n = 0#32 := by
  rw [entry, h]

theorem setPte_eq (h : s.pde (n / 1024) = some e) (w : Word) :
    s.setPte n w =
      { s with mem := Function.update s.mem e.frame (Function.update (s.mem e.frame) (n % 1024) w) } := by
  rw [setPte, h]

@[simp] theorem setPte_pde (s : Space) (n : Nat) (w : Word) : (s.setPte n w).pde = s.pde := by
  rw [setPte]
  cases s.pde (n / 1024) <;> rfl

@[simp] theorem setPte_reserved (s : Space) (n : Nat) (w : Word) : (s.setPte n w).reserved = s.reserved := by
  rw [setPte]
  cases s.pde (n / 1024) <;> rfl

theorem mapPage_eq (h : s.pde (n / 1024) = some e) (w : Word) :
    s.mapPage n w =
      { s with
        pde := Function.update s.pde (n / 1024) (some { e with count := min (e.count + 1) 7 })
        mem := Function.update s.mem e.frame (Function.update (s.mem e.frame) (n % 1024) w) } := by
  have hpde : (s.setPte n w).pde (n / 1024) = some e := by rw [setPte_pde, h]
  rw [mapPage, pdeInc, hpde]
  dsimp only
  rw [setPte_eq h]

theorem mapPage_entry (h : s.pde (n / 1024) = some e) (w : Word) : (s.mapPage n w).entry n = w := by
  rw [mapPage_eq h, entry]
  dsimp only
  rw [Function.update_self]
  dsimp only
  rw [Function.update_self, Function.update_self]

theorem pdeDec_eq (h : s.pde (n / 1024) = some e) (hpos : 0 < e.count) :
    s.pdeDec n =
      if e.count = 7 then .ret (false, s)
      else .ret (decide (e.count - 1 = 0),
        { s with pde := Function.update s.pde (n / 1024) (some { e with count := e.count - 1 }) }) := by
  rw [pdeDec, h]
  dsimp only
  rw [Outcome.ASSERT_pos hpos, Outcome.ret_bind]
  rfl

/-- The page table that is asked for, if there is none yet. -/
theorem needTable_cases (s : Space) (a : Answers) (n : Nat) :
    ((∃ e, s.pde (n / 1024) = some e) ∧ s.needTable a n = (true, s)) ∨
      (s.pde (n / 1024) = none ∧ ((∃ frame, a.table (n / 1024) = some frame ∧
        s.needTable a n = (true, s.linkTable .USER n frame)) ∨
          a.table (n / 1024) = none ∧ s.needTable a n = (false, s))) := by
  rw [needTable]
  cases hpde : s.pde (n / 1024) with
  | some e => exact Or.inl ⟨⟨e, rfl⟩, rfl⟩
  | none =>
      cases htable : a.table (n / 1024) with
      | some frame => exact Or.inr ⟨rfl, Or.inl ⟨frame, rfl, rfl⟩⟩
      | none => exact Or.inr ⟨rfl, Or.inr ⟨rfl, rfl⟩⟩

theorem linkTable_pde_self (s : Space) (type : AddressPoolType) (n frame : Nat) :
    (s.linkTable type n frame).pde (n / 1024) = some ⟨frame, firstCount type⟩ :=
  Function.update_self _ _ _

/-- The page table for a page is there, or a frame is linked for it. -/
inductive Linked (a : Answers) (type : AddressPoolType) (s : Space) (n : Nat) : Space → Prop
  | present {e : Pde} (hpde : s.pde (n / 1024) = some e) : Linked a type s n s
  | table {frame : Nat} (hnone : s.pde (n / 1024) = none) (htable : a.table (n / 1024) = some frame) :
      Linked a type s n (s.linkTable type n frame)

section Linked

variable {a : Answers} {type : AddressPoolType} {s₁ s' : Space} {flag : Bool}

theorem Linked.exists_pde (h : Linked a type s n s₁) : ∃ e, s₁.pde (n / 1024) = some e := by
  cases h with
  | present hpde => exact ⟨_, hpde⟩
  | table hnone htable => exact ⟨_, s.linkTable_pde_self type n _⟩

/-- No page table goes when one is linked and an entry is written. -/
theorem Linked.pde_none (h : Linked a type s n s₁) {i : Nat} (hi : (s₁.mapPage n w).pde i = none) :
    s.pde i = none := by
  obtain ⟨e, hpde⟩ := h.exists_pde
  rw [mapPage_eq hpde] at hi
  by_cases hin : i = n / 1024
  · subst hin
    dsimp only at hi
    rw [Function.update_self] at hi
    cases hi
  · have hi₁ : s₁.pde i = none := (Function.update_of_ne hin _ _).symm.trans hi
    cases h with
    | present hpde => exact hi₁
    | table hnone htable => exact (Function.update_of_ne hin _ _).symm.trans hi₁

theorem needTable_linked (s : Space) (a : Answers) (n : Nat) :
    ((s.needTable a n).1 = true ∧ Linked a .USER s n (s.needTable a n).2) ∨ s.needTable a n = (false, s) := by
  rcases s.needTable_cases a n with ⟨⟨e, hpde⟩, hres⟩ | ⟨hnone, ⟨frame, htable, hres⟩ | ⟨-, hres⟩⟩
  · rw [hres]
    exact Or.inl ⟨rfl, Linked.present hpde⟩
  · rw [hres]
    exact Or.inl ⟨rfl, Linked.table hnone htable⟩
  · exact Or.inr hres

theorem connect_cases {paddr : Nat} (hres : s.connectPhysicalVirtualPage a n paddr = .ret (flag, s')) :
    (flag = false ∧ s' = s) ∨
      (flag = true ∧ ∃ s₁, Linked a .USER s n s₁ ∧ s' = s₁.mapPage n (presentEntry a n paddr)) := by
  rw [connectPhysicalVirtualPage] at hres
  rcases s.needTable_linked a n with ⟨hok, hlinked⟩ | hfail
  · rcases hcall : s.needTable a n with ⟨ok, s₁⟩
    rw [hcall] at hok hlinked hres
    obtain rfl : ok = true := hok
    obtain ⟨-, -, hres⟩ := Outcome.bind_eq_ret hres
    obtain ⟨rfl, rfl⟩ := Prod.mk.inj (Outcome.ret.inj hres)
    exact Or.inr ⟨rfl, s₁, hlinked, rfl⟩
  · rw [hfail] at hres
    obtain ⟨rfl, rfl⟩ := Prod.mk.inj (Outcome.ret.inj hres)
    exact Or.inl ⟨rfl, rfl⟩

theorem lazyTable_linked (type : AddressPoolType) {start count i : Nat}
    (hfound : s.pde ((start + i) / 1024) = none → (a.table ((start + i) / 1024)).isSome = true) :
    ∃ s₁, s.lazyTable a type start count i = .ret s₁ ∧ Linked a type s (start + i) s₁ := by
  rw [lazyTable]
  cases hpde : s.pde ((start + i) / 1024) with
  | some e => exact ⟨s, rfl, Linked.present hpde⟩
  | none =>
      obtain ⟨frame, htable⟩ := Option.isSome_iff_exists.mp (hfound hpde)
      rw [htable]
      exact ⟨_, rfl, Linked.table hpde htable⟩

end Linked

end Space

end SysuOs.PageTables
