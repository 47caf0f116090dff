import Mathlib
import SysuOs.PagingFork
import SysuOs.PagingFault

/-! What a child does not inherit: pages reserved and not there yet, which `fork` passes over, and the
write protection of read-only pages, which `fork` turns into copy on write. -/

namespace SysuOs

open Kernel

/-- An address of the user segments. -/
def UserAddr (vaddr : Nat) : Prop := USER_VADDR_START ≤ vaddr ∧ vaddr ≤ USER_VADDR_END

/-- A page reserved at an address of an address space: its page table is there, the page is not. -/
def LazyAt (s : Kernel) (dir vaddr : Nat) : Prop :=
  hasFlag (s.pde dir vaddr) PDE_PRESENT = true ∧ IsLazy (s.pte dir vaddr)

/-- A page at an address of an address space that user mode may not write. -/
def ReadOnlyAt (s : Kernel) (dir vaddr : Nat) : Prop :=
  hasFlag (s.pde dir vaddr) PDE_PRESENT = true ∧ hasFlag (s.pte dir vaddr) PTE_PRESENT = true ∧
    hasFlag (s.pte dir vaddr) PTE_WRITABLE = false ∧ hasFlag (s.pte dir vaddr) PTE_COW = false

theorem UserAddr.page {vaddr : Nat} (h : UserAddr vaddr) :
    vaddr / 4096 < userPages ∧ startPage ≤ vaddr / 4096 := by
  obtain ⟨hlow, hhigh⟩ := h
  simp only [USER_VADDR_START] at hlow
  simp only [USER_VADDR_END] at hhigh
  simp only [userPages, startPage, USER_VADDR_START]
  omega

/-- The entry at an address of the address space of the child. -/
theorem Forked.childEntry {s s' : Kernel} {g g' : Ghost} {parent : PCB} {child d vaddr : Nat}
    (h : Forked s s' g g' parent child d) (huser : UserAddr vaddr)
    (hpde : hasFlag (s.pde parent.pageDirectory vaddr) PDE_PRESENT = true) :
    ChildEntry (s.pte parent.pageDirectory vaddr) (s'.pageEntry d (vaddr / 4096)) := by
  obtain ⟨hn, hstart⟩ := huser.page
  have hentry := h.child _ hn
  rw [if_pos hstart] at hentry
  rw [pte_eq_pageEntry hpde]
  exact hentry

/-- Only a page that is reserved is given on demand. -/
theorem lazyAt_of_faultType {s : Kernel} {fromUser : Bool} {vaddr : Nat}
    (h : s.faultType fromUser vaddr = .ret .DEMAND_ZERO) : LazyAt s s.cr3 vaddr := by
  rw [faultType] at h
  by_cases hpde : hasFlag (s.pde s.cr3 vaddr) PTE_PRESENT = true
  · rw [Outcome.ASSERT_pos hpde, Outcome.ret_bind] at h
    refine ⟨hpde, ?_⟩
    by_cases hpresent : hasFlag (s.pte s.cr3 vaddr) PTE_PRESENT = true
    · rw [if_pos hpresent] at h
      have hfault := Outcome.ret.inj h
      rw [faultOfPresent] at hfault
      split at hfault
      · exact absurd hfault (by decide)
      · split at hfault <;> exact absurd hfault (by decide)
    · rw [if_neg hpresent] at h
      have hfault := Outcome.ret.inj h
      rw [faultOfAbsent] at hfault
      split at hfault
      · rename_i hlazy
        rw [Bool.and_eq_true] at hlazy
        exact ⟨by simpa using hpresent, hlazy.1, hlazy.2⟩
      · split at hfault
        · exact absurd hfault (by decide)
        · split at hfault
          · exact absurd hfault (by decide)
          · split at hfault
            · split at hfault <;> exact absurd hfault (by decide)
            · exact absurd hfault (by decide)
  · rw [Outcome.ASSERT_neg hpde] at h
    exact absurd h (by simp)

variable {s s' : Kernel} {g g' : Ghost} {parent process : PCB} {p child res vaddr d : Nat}

/-- A page that is reserved in the parent is not in the child. -/
theorem Forked.not_lazyAt (h : Forked s s' g g' parent child d) (huser : UserAddr vaddr)
    (hlazy : LazyAt s parent.pageDirectory vaddr) : ¬LazyAt s' d vaddr := by
  rintro ⟨hpde, -, hwritable, -⟩
  rw [pte_eq_pageEntry hpde, (h.childEntry huser hlazy.1).empty hlazy.2.1] at hwritable
  exact absurd hwritable (by decide)

/-- A page that is present in the parent is shared for copy on write in the child. -/
theorem Forked.isCow (h : Forked s s' g g' parent child d) (huser : UserAddr vaddr)
    (hpde : hasFlag (s.pde parent.pageDirectory vaddr) PDE_PRESENT = true)
    (hpresent : hasFlag (s.pte parent.pageDirectory vaddr) PTE_PRESENT = true) :
    hasFlag (s'.pde d vaddr) PTE_PRESENT = true ∧ IsCow (s'.pte d vaddr) := by
  obtain ⟨hp, hc, hw, -⟩ := (h.childEntry huser hpde).shared hpresent
  have htable := present_table hp
  rw [← pdeIdx_eq] at htable
  refine ⟨htable, ?_⟩
  rw [pte_eq_pageEntry htable]
  exact ⟨hp, hw, hc⟩

theorem Forked.pageDirectory (h : Forked s s' g g' parent child d)
    (hprocess : s'.programs child = some process) : process.pageDirectory = d := by
  rw [h.programs, Function.update_self] at hprocess
  rw [← Option.some.inj hprocess]

/-- The page fault handler of the child never takes a page that was reserved in the parent for one to be
given on demand: its page table is missing, or its entry is empty. -/
theorem fork_dropsLazy (h : Spaces s g) (hprocs : Procs s g) (hrunning : s.running = some p)
    (hparent : s.programs p = some parent) (hchild : s.programs child = none)
    (hfork : s.fork child = .ret (some res, s')) (hprocess : s'.programs child = some process)
    (huser : UserAddr vaddr) (hlazy : LazyAt s parent.pageDirectory vaddr) :
    ¬LazyAt s' process.pageDirectory vaddr ∧ ∀ s'', s'.activate child = .ret s'' →
      ∀ fromUser, s''.faultType fromUser vaddr ≠ .ret .DEMAND_ZERO := by
  obtain ⟨-, d, g', hforked⟩ := fork_spec h hprocs hrunning hparent hchild hfork
  have hnot : ¬LazyAt s' process.pageDirectory vaddr := by
    rw [hforked.pageDirectory hprocess]
    exact hforked.not_lazyAt huser hlazy
  refine ⟨hnot, fun s'' hactivate fromUser hfault => hnot ?_⟩
  rw [activate, hprocess] at hactivate
  obtain rfl := Outcome.ret.inj hactivate
  exact lazyAt_of_faultType hfault

/-- A read-only page of the parent is taken for one shared for copy on write in the child. -/
theorem fork_unprotects (h : Spaces s g) (hprocs : Procs s g) (hrunning : s.running = some p)
    (hparent : s.programs p = some parent) (hchild : s.programs child = none)
    (hfork : s.fork child = .ret (some res, s')) (hprocess : s'.programs child = some process)
    (huser : UserAddr vaddr) (hreadOnly : ReadOnlyAt s parent.pageDirectory vaddr) :
    s.faultType true vaddr = .ret .PERMISSION_VIOLATION ∧ ∀ s'', s'.activate child = .ret s'' →
      s''.faultType true vaddr = .ret .COPY_ON_WRITE := by
  obtain ⟨-, d, g', hforked⟩ := fork_spec h hprocs hrunning hparent hchild hfork
  obtain ⟨hpde, hpresent, hwritable, hcow⟩ := hreadOnly
  obtain ⟨htable, hshared⟩ := hforked.isCow huser hpde hpresent
  rw [← hforked.pageDirectory hprocess] at htable hshared
  refine ⟨?_, fun s'' hactivate => ?_⟩
  · rw [← hprocs.cr3 p parent hrunning hparent] at hpde hpresent hwritable hcow
    have hpde' : hasFlag (s.pde s.cr3 vaddr) PTE_PRESENT = true := hpde
    simp [faultType, hpde', hpresent, faultOfPresent, hwritable, hcow]
  · rw [activate, hprocess] at hactivate
    obtain rfl := Outcome.ret.inj hactivate
    apply faultType_cow
    · exact htable
    · exact hshared

/-! ### A machine with one process -/

/-- The use of the frames in `oneEntry`. -/
def oneGhost (entry : Word) : Ghost where
  role := fun f =>
    if f = 1 then .dir 1 else if f = 2 then .table 1 32
    else if f = 3 ∧ present entry = true then .page else if 0x300 ≤ f then .free else .other
  dirs := fun q => if q = 1 then some 1 else none
  chain := fun f => if f = 3 ∧ present entry = true then [1] else []

theorem oneGhost_table {entry : Word} {f q i : Nat} (h : (oneGhost entry).role f = .table q i) :
    f = 2 ∧ q = 1 ∧ i = 32 := by
  simp only [oneGhost] at h
  split at h
  · simp at h
  · split at h
    · rename_i hf
      obtain ⟨rfl, rfl⟩ := Role.table.inj h
      exact ⟨hf, rfl, rfl⟩
    · split at h
      · simp at h
      · split at h <;> simp at h

theorem oneGhost_page {entry : Word} {f : Nat} (h : (oneGhost entry).role f = .page) :
    f = 3 ∧ present entry = true := by
  simp only [oneGhost] at h
  split at h
  · simp at h
  · split at h
    · simp at h
    · split at h
      · assumption
      · split at h <;> simp at h

theorem oneGhost_chain {entry : Word} {f idx : Nat} :
    idx ∈ (oneGhost entry).chain f ↔ (f = 3 ∧ present entry = true) ∧ idx = 1 := by
  simp only [oneGhost]
  split
  · rename_i h
    simp [h]
  · rename_i h
    simp [h]

theorem oneGhost_dirs {entry : Word} {q d : Nat} (h : (oneGhost entry).dirs q = some d) : q = 1 ∧ d = 1 := by
  simp only [oneGhost] at h
  split at h
  · rename_i hq
    exact ⟨hq, (Option.some.inj h).symm⟩
  · simp at h

theorem oneEntry_procs (entry : Word) : Procs (oneEntry entry) (oneGhost entry) := by
  have hprograms : ∀ q program, (oneEntry entry).programs q = some program → q = 1 ∧ program = onePage := by
    intro q program hq
    simp only [oneEntry] at hq
    split at hq
    · rename_i hq1
      exact ⟨hq1, (Option.some.inj hq).symm⟩
    · simp at hq
  refine ⟨fun q => ?_, fun f q i hf => ?_, fun q program hq => ?_, fun q program hrun hq => ?_⟩
  · simp only [oneGhost, oneEntry]
    split <;> rfl
  · obtain ⟨-, rfl, -⟩ := oneGhost_table hf
    rfl
  · obtain ⟨rfl, rfl⟩ := hprograms q program hq
    rfl
  · obtain ⟨rfl, rfl⟩ := hprograms q program hq
    rfl

theorem oneEntry_spaces {entry : Word} (hframe : present entry = true → frameOf entry = 3) :
    Spaces (oneEntry entry) (oneGhost entry) := by
  have htable : ∀ k, (oneEntry entry).mem 2 k = if k = 0x48 then entry else 0#32 := fun k => by
    simp [oneEntry]
  have hslot : ∀ f q i k, (oneGhost entry).Live f q i → present ((oneEntry entry).mem f k) = true →
      f = 2 ∧ k = 0x48 ∧ present entry = true ∧ (oneEntry entry).mem f k = entry := by
    intro f q i k hl hp
    obtain ⟨rfl, -, -⟩ := oneGhost_table hl.1
    rw [htable] at hp ⊢
    split at hp
    · rename_i hk
      exact ⟨rfl, hk, hp, if_pos hk⟩
    · simp at hp
  have htargets : Targets (oneGhost entry) ((oneEntry entry).rmapManager.RMapStart 1) 2 0x48 :=
    ⟨by decide, 1, 32, PTE_ANON_VADDR, rfl, by decide, rfl, Or.inl rfl⟩
  refine { bound := rfl, null := (by decide : (BitMap.mk (fun _ => 0x3) 8).get 0 = true), walk := ?_, ref := ?_, used := ?_, apart := ?_, pages := ?_,
           dir := ?_, table := ?_, free := ?_, page := ?_, mapped := ?_, listed := ?_, unique := ?_,
           exclusive := ?_ }
  · intro f hf
    obtain ⟨rfl, hp⟩ := oneGhost_page hf
    simp only [oneGhost, hp, and_self, if_true]
    exact ⟨rfl, rfl⟩
  · intro f hf
    obtain ⟨rfl, hp⟩ := oneGhost_page hf
    simp only [oneGhost, hp, and_self, if_true]
    rfl
  · intro f idx hidx
    obtain ⟨-, rfl⟩ := oneGhost_chain.mp hidx
    exact ⟨(by decide : (BitMap.mk (fun _ => 0x3) 8).get 1 = true), (by decide : 1 < 8)⟩
  · intro f f' idx hidx hidx'
    rw [(oneGhost_chain.mp hidx).1.1, (oneGhost_chain.mp hidx').1.1]
  · intro f hne
    obtain ⟨idx, hidx⟩ := List.exists_mem_of_ne_nil _ hne
    obtain ⟨⟨rfl, hp⟩, -⟩ := oneGhost_chain.mp hidx
    simp [oneGhost, hp]
  · intro q d hd
    obtain ⟨rfl, rfl⟩ := oneGhost_dirs hd
    rfl
  · intro q d hd i _ hp
    obtain ⟨rfl, rfl⟩ := oneGhost_dirs hd
    have hi : i = 32 := by
      by_contra hne
      simp [oneEntry, hne] at hp
    subst hi
    have hdirFrame : frameOf ((oneEntry entry).mem 1 32) = 2 := (by decide : frameOf 0x2207#32 = 2)
    rw [hdirFrame]
    rfl
  · intro f hf
    have hlow : 0x300 ≤ f := by
      by_contra hlt
      simp only [oneEntry, if_neg hlt] at hf
      exact absurd hf (by decide)
    simp only [oneGhost]
    rw [if_neg (by omega), if_neg (by omega), if_neg (by omega), if_pos hlow]
  · intro f q i hl k _ hp
    obtain ⟨rfl, rfl, hpe, hmem⟩ := hslot f q i k hl hp
    rw [hmem, hframe hpe]
    simp [oneGhost, hpe]
  · intro f idx hidx
    obtain ⟨⟨rfl, hp⟩, rfl⟩ := oneGhost_chain.mp hidx
    refine ⟨2, 0x48, htargets, ?_⟩
    rw [htable, if_pos rfl]
    exact ⟨hp, hframe hp⟩
  · intro _ f q i hl k _ hp
    obtain ⟨rfl, rfl, hpe, hmem⟩ := hslot f q i k hl hp
    refine ⟨1, ?_, htargets⟩
    rw [hmem, hframe hpe]
    exact oneGhost_chain.mpr ⟨⟨rfl, hpe⟩, rfl⟩
  · intro f idx hidx j hj _
    rw [(oneGhost_chain.mp hidx).2, (oneGhost_chain.mp hj).2]
  · intro _ f q i hl k _ hp _
    obtain ⟨rfl, rfl, hpe, hmem⟩ := hslot f q i k hl hp
    rw [hmem, hframe hpe]
    simp [oneGhost, hpe]

theorem oneGhost_dead (entry : Word) (f i : Nat) : (oneGhost entry).role f ≠ .table 2 i := fun h =>
  absurd (oneGhost_table h).2.1 (by decide)

/-- The pages of the process are those behind the entry. -/
theorem oneEntry_pageEntry (entry : Word) {n : Nat} (hn : n ≠ startPage) :
    (oneEntry entry).pageEntry 1 n = 0#32 := by
  by_cases hi : n / 1024 = 32
  · have hk : n % 1024 ≠ 0x48 := by
      simp only [startPage, USER_VADDR_START] at hn
      omega
    have hpde : (oneEntry entry).mem 1 (n / 1024) = 0x2207#32 := by simp [oneEntry, hi]
    rw [pageEntry_of_present (by rw [hpde]; decide), hpde, (by decide : frameOf 0x2207#32 = 2)]
    simp [oneEntry, hk]
  · have hpde : (oneEntry entry).mem 1 (n / 1024) = 0#32 := by simp [oneEntry, hi]
    rw [pageEntry_of_absent (by rw [hpde]; decide)]

theorem oneEntry_pageEntry_start (entry : Word) : (oneEntry entry).pageEntry 1 startPage = entry := by
  have hpde : (oneEntry entry).mem 1 (startPage / 1024) = 0x2207#32 := by
    simp [oneEntry, startPage, USER_VADDR_START]
  rw [pageEntry_of_present (by rw [hpde]; decide), hpde, (by decide : frameOf 0x2207#32 = 2)]
  simp [oneEntry, startPage, USER_VADDR_START]

/-- `fork` of a process whose only page is reserved. -/
theorem oneEntry_fork_lazy : ∃ s', (oneEntry 0x802#32).fork 2 = .ret (some 2, s') := by
  have hspaces : Spaces (oneEntry 0x802#32) (oneGhost 0x802#32) :=
    oneEntry_spaces fun hp => absurd hp (by decide)
  have halloc : ∃ s₁, (oneEntry 0x802#32).allocatePhysicalPages .KERNEL 1 = .ret (0x300000, s₁) := ⟨_, rfl⟩
  obtain ⟨s₀, hs₀⟩ := halloc
  obtain ⟨s₁, hs₁⟩ := createProcessPageDirectory_of_page hs₀ (by decide)
  have hpcb : (oneEntry 0x802#32).runningPCB = some onePage := rfl
  obtain ⟨-, hfresh, -⟩ := createDirectory_spec hspaces (oneGhost_dead _) hs₁
  rw [fork, hpcb]
  dsimp only
  rw [hs₁, Outcome.ret_bind]
  dsimp only
  have hcopy : copyLoop (PA2PGI 0x300000) 2 (USER_VADDR_END / 4096 + 2) USER_VADDR_START (s₁.clearUserTables (PA2PGI 0x300000)) =
      .ret (true, s₁.clearUserTables (PA2PGI 0x300000)) := by
    refine copyLoop_skip (n := startPage) _ (by decide) (by decide) fun n hn hlt => ?_
    rw [hfresh.cr3]
    change present ((s₁.clearUserTables (PA2PGI 0x300000)).pageEntry 1 n) = false
    rw [hfresh.entries 1 1 rfl n hlt]
    by_cases hstart : n = startPage
    · rw [hstart, oneEntry_pageEntry_start]
      decide
    · rw [oneEntry_pageEntry _ hstart]
      exact present_zero
  rw [copyProcess, hcopy, Outcome.ret_bind]
  exact ⟨_, rfl⟩

set_option maxRecDepth 20000 in
/-- The only page of the process is shared with a child. -/
theorem oneEntry_share : ∃ s₁, (oneEntry 0x3005#32).createProcessPageDirectory = .ret (some 0x300, s₁) ∧
    ∃ s₂, (s₁.clearUserTables 0x300).setupCOWPage 0x300 (3 * 4096) (startPage * 4096) 2 = .ret (true, s₂) :=
  ⟨_, rfl, _, rfl⟩

/-- `fork` of a process whose only page is there, and cached in `tlb`, if the page can be shared. -/
theorem oneEntry_fork {entry : Word} {tlb : List (Nat × Word)} (hpresent : present entry = true)
    (hframe : frameOf entry = 3)
    (hshare : ∃ s₁, { oneEntry entry with tlb := tlb }.createProcessPageDirectory = .ret (some 0x300, s₁) ∧
      ∃ s₂, (s₁.clearUserTables 0x300).setupCOWPage 0x300 (3 * 4096) (startPage * 4096) 2 = .ret (true, s₂)) :
    ∃ s', { oneEntry entry with tlb := tlb }.fork 2 = .ret (some 2, s') := by
  have hspaces : Spaces { oneEntry entry with tlb := tlb } (oneGhost entry) :=
    (oneEntry_spaces fun _ => hframe).congr rfl rfl rfl
  obtain ⟨s₁, hs₁, s₂, hs₂⟩ := hshare
  have hpcb : { oneEntry entry with tlb := tlb }.runningPCB = some onePage := rfl
  obtain ⟨h₁, hfresh, hempty⟩ := createDirectory_spec hspaces (oneGhost_dead _) hs₁
  rw [fork, hpcb]
  dsimp only
  rw [hs₁, Outcome.ret_bind]
  dsimp only
  generalize hs : s₁.clearUserTables 0x300 = s at *
  have hcr3 : s.cr3 = 1 := hfresh.cr3
  have hstart : s.pageEntry 1 startPage = entry := by
    rw [hfresh.entries 1 1 rfl startPage (by decide)]
    exact oneEntry_pageEntry_start entry
  have hdir : ((oneGhost entry).setDir 2 0x300).dirs 2 = some 0x300 := rfl
  have hpage : ((oneGhost entry).setDir 2 0x300).role 3 = .page := by
    simp [Ghost.setDir, oneGhost, hpresent]
  obtain ⟨g₂, -, hgrows, -⟩ := setupCOWPage_spec h₁ hdir (n := startPage) (by decide)
    (by rw [hempty _ (by decide)]; decide) (f := 3) (by decide) hpage hs₂
  have hrest : copyLoop 0x300 2 (USER_VADDR_END / 4096 + 1) ((startPage + 1) * 4096) s₂ = .ret (true, s₂) := by
    refine copyLoop_skip _ (by decide) (by decide) fun n hn hlt => ?_
    have hdir1 : ((oneGhost entry).setDir 2 0x300).dirs 1 = some 1 := rfl
    have hne : n ≠ startPage := by omega
    rw [hgrows.cr3, hcr3, (hgrows.keeps 1 1 hdir1 n hlt fun hE => hne hE.2).present,
      hfresh.entries 1 1 rfl n hlt]
    exact (congrArg present (oneEntry_pageEntry entry hne)).trans present_zero
  have htable : present (s.pde 1 (startPage * 4096)) = true := by
    have hp := @present_table s 1 startPage (by rw [hstart]; exact hpresent)
    rw [← pdeIdx_page] at hp
    exact hp
  have hpte : s.pte 1 (startPage * 4096) = entry := by
    rw [pte_eq_pageEntry htable, Nat.mul_div_cancel _ (by decide), hstart]
  have hcopy : copyLoop 0x300 2 (USER_VADDR_END / 4096 + 2) USER_VADDR_START s = .ret (true, s₂) := by
    change copyLoop 0x300 2 (USER_VADDR_END / 4096 + 1 + 1) (startPage * 4096) s = _
    rw [copyLoop, if_pos (by decide), hcr3, hpte]
    have hpde : hasFlag (s.pde 1 (startPage * 4096)) PTE_PRESENT = true := htable
    have hentry : hasFlag entry PTE_PRESENT = true := hpresent
    rw [if_neg (by rw [hpde]; decide), if_neg (by rw [hentry]; decide), getAddress_eq_frame, hframe,
      setupCOWPages_of_page (by decide) (by decide) hs₂, Outcome.ret_bind]
    exact hrest
  rw [copyProcess, hs, hcopy, Outcome.ret_bind]
  exact ⟨_, rfl⟩

/-- `fork` of a process whose only page is read only. -/
theorem oneEntry_fork_readOnly : ∃ s', (oneEntry 0x3005#32).fork 2 = .ret (some 2, s') :=
  @oneEntry_fork 0x3005#32 [] (by decide) (by decide) oneEntry_share

theorem startPage_user : UserAddr 0x08048000 := ⟨by decide, by decide⟩

theorem oneEntry_lazyAt : LazyAt (oneEntry 0x802#32) onePage.pageDirectory 0x08048000 :=
  ⟨by decide, by decide, by decide, by decide⟩

theorem oneEntry_readOnlyAt : ReadOnlyAt (oneEntry 0x3005#32) onePage.pageDirectory 0x08048000 :=
  ⟨by decide, by decide, by decide, by decide⟩

/-- A page of the data segment is reserved in the parent; it is not in the child. -/
theorem oneEntry_lazy_lost : ∃ s' process, (oneEntry 0x802#32).fork 2 = .ret (some 2, s') ∧
    s'.programs 2 = some process ∧ LazyAt (oneEntry 0x802#32) onePage.pageDirectory 0x08048000 ∧
      ¬LazyAt s' process.pageDirectory 0x08048000 := by
  obtain ⟨s', hfork⟩ := oneEntry_fork_lazy
  have hspaces : Spaces (oneEntry 0x802#32) (oneGhost 0x802#32) :=
    oneEntry_spaces fun hp => absurd hp (by decide)
  obtain ⟨-, d, g', hforked⟩ := fork_spec hspaces (oneEntry_procs _) rfl rfl rfl hfork
  have hprocess : s'.programs 2 = some ⟨2, d, onePage.userVirtual.cloneFrom 2⟩ := by
    rw [hforked.programs, Function.update_self]
  exact ⟨s', _, hfork, hprocess, oneEntry_lazyAt, hforked.not_lazyAt startPage_user oneEntry_lazyAt⟩

/-- The same fork, for the handler of the child. -/
theorem fork_dropsLazy_one : ∃ s' process, (oneEntry 0x802#32).fork 2 = .ret (some 2, s') ∧
    s'.programs 2 = some process ∧ ¬LazyAt s' process.pageDirectory 0x08048000 ∧
      ∀ s'', s'.activate 2 = .ret s'' → ∀ fromUser, s''.faultType fromUser 0x08048000 ≠ .ret .DEMAND_ZERO := by
  obtain ⟨s', hfork⟩ := oneEntry_fork_lazy
  have hspaces : Spaces (oneEntry 0x802#32) (oneGhost 0x802#32) :=
    oneEntry_spaces fun hp => absurd hp (by decide)
  obtain ⟨-, d, g', hforked⟩ := fork_spec hspaces (oneEntry_procs _) rfl rfl rfl hfork
  have hprocess : s'.programs 2 = some ⟨2, d, onePage.userVirtual.cloneFrom 2⟩ := by
    rw [hforked.programs, Function.update_self]
  have hparent : (oneEntry 0x802#32).programs 1 = some onePage := rfl
  have hresult := fork_dropsLazy hspaces (oneEntry_procs _) rfl hparent rfl hfork hprocess startPage_user
    oneEntry_lazyAt
  exact ⟨s', _, hfork, hprocess, hresult⟩

/-- A page that no store of the parent may change is shared for copy on write with the child. -/
theorem oneEntry_readOnly_lost : ∃ s' process, (oneEntry 0x3005#32).fork 2 = .ret (some 2, s') ∧
    s'.programs 2 = some process ∧ ReadOnlyAt (oneEntry 0x3005#32) onePage.pageDirectory 0x08048000 ∧
      IsCow (s'.pte process.pageDirectory 0x08048000) := by
  obtain ⟨s', hfork⟩ := oneEntry_fork_readOnly
  have hspaces : Spaces (oneEntry 0x3005#32) (oneGhost 0x3005#32) := oneEntry_spaces fun _ => by decide
  obtain ⟨-, d, g', hforked⟩ := fork_spec hspaces (oneEntry_procs _) rfl rfl rfl hfork
  have hprocess : s'.programs 2 = some ⟨2, d, onePage.userVirtual.cloneFrom 2⟩ := by
    rw [hforked.programs, Function.update_self]
  have hshared := (hforked.isCow startPage_user oneEntry_readOnlyAt.1 oneEntry_readOnlyAt.2.1).2
  exact ⟨s', _, hfork, hprocess, oneEntry_readOnlyAt, hshared⟩

/-- The same fork, for the handler of the child. -/
theorem fork_unprotects_one : ∃ s' process, (oneEntry 0x3005#32).fork 2 = .ret (some 2, s') ∧
    s'.programs 2 = some process ∧
      (oneEntry 0x3005#32).faultType true 0x08048000 = .ret .PERMISSION_VIOLATION ∧
      ∀ s'', s'.activate 2 = .ret s'' → s''.faultType true 0x08048000 = .ret .COPY_ON_WRITE := by
  obtain ⟨s', hfork⟩ := oneEntry_fork_readOnly
  have hspaces : Spaces (oneEntry 0x3005#32) (oneGhost 0x3005#32) := oneEntry_spaces fun _ => by decide
  obtain ⟨-, d, g', hforked⟩ := fork_spec hspaces (oneEntry_procs _) rfl rfl rfl hfork
  have hprocess : s'.programs 2 = some ⟨2, d, onePage.userVirtual.cloneFrom 2⟩ := by
    rw [hforked.programs, Function.update_self]
  have hparent : (oneEntry 0x3005#32).programs 1 = some onePage := rfl
  have hresult := fork_unprotects hspaces (oneEntry_procs _) rfl hparent rfl hfork hprocess startPage_user
    oneEntry_readOnlyAt
  exact ⟨s', _, hfork, hprocess, hresult⟩

end SysuOs
