import SysuOs.ElfLoad

/-! What a loaded file is in memory. A page that the loader has mapped keeps its frame, the frame its bytes
and the entry its rights, whatever is mapped after it. -/

namespace SysuOs.Elf

open Kernel Flags

variable {s s' : Kernel} {g g' : Ghost} {pid dir n paddr : Nat}

/-- The frames of the user pool begin at whole pages. -/
def AlignedPool (s : Kernel) : Prop := s.userPhysical.startAddress % 4096 = 0

theorem poolAllocate_aligned (s : Kernel) (type : AddressPoolType) :
    (s.poolAllocate type 1).2.userPhysical.startAddress = s.userPhysical.startAddress ∧
      ∀ address, type = .USER → AlignedPool s → (s.poolAllocate type 1).1 = some address →
        address % 4096 = 0 := by
  cases type with
  | KERNEL => exact ⟨rfl, nofun⟩
  | USER =>
      simp only [poolAllocate, PAddressPool.allocate]
      split
      · exact ⟨rfl, nofun⟩
      · refine ⟨rfl, fun address _ hpool h => ?_⟩
        unfold AlignedPool at hpool
        rw [← Option.some.inj h]
        unfold SysuOs.PAGE_SIZE
        omega

/-- The pool stays where it is, and its frames are whole pages. -/
theorem allocatePhysicalPages_aligned {type : AddressPoolType}
    (h : s.allocatePhysicalPages type 1 = .ret (paddr, s')) (hpool : AlignedPool s) :
    AlignedPool s' ∧ (type = .USER → paddr % 4096 = 0) := by
  obtain ⟨hstart, haddress⟩ := poolAllocate_aligned s type
  rw [allocatePhysicalPages] at h
  generalize s.poolAllocate type 1 = pool at h hstart haddress
  obtain ⟨res, s₁⟩ := pool
  cases res with
  | none =>
      obtain ⟨rfl, rfl⟩ := Prod.mk.inj (Outcome.ret.inj h)
      refine ⟨?_, fun _ => rfl⟩
      unfold AlignedPool
      rw [hstart]
      exact hpool
  | some address =>
      dsimp only at h
      obtain ⟨s₂, hmark, h⟩ := Outcome.bind_eq_ret h
      rw [if_pos rfl] at h
      obtain ⟨_, _, h⟩ := Outcome.bind_eq_ret h
      obtain ⟨rfl, rfl⟩ := Prod.mk.inj (Outcome.ret.inj h)
      simp only [markAllocated, Outcome.pure_eq, Outcome.ret_bind, Nat.add_zero] at hmark
      obtain ⟨_, _, hmark⟩ := Outcome.bind_eq_ret hmark
      rw [← Outcome.ret.inj hmark]
      constructor
      · show s₁.userPhysical.startAddress % 4096 = 0
        rw [hstart]
        exact hpool
      · intro htype
        have := haddress address htype hpool rfl
        omega

/-- A page of a process is mapped, with these bytes in its frame, and writable only if the flags say so. -/
structure Mapped (s : Kernel) (dir n : Nat) (page : ByteMap) (flags : Byte) : Prop where
  entry : present (s.pageEntry dir n) = true
  bytes : ∀ k, k < 1024 → s.mem (frameOf (s.pageEntry dir n)) k = wordAt page k
  rights : writable (s.pageEntry dir n) = true → hasFlag flags VP_RW = true

/-- A mapped page stays as it is while others are mapped. -/
theorem Mapped.grows {E : Nat → Nat → Prop} {page : ByteMap} {flags : Byte} (h : Mapped s dir n page flags)
    (hspaces : Spaces s g) (hdir : g.dirs pid = some dir) (hn : n < userPages) (hgrows : Grows E s s' g g')
    (hE : ¬ E dir n) : Mapped s' dir n page flags := by
  have hkeeps := hgrows.keeps pid dir hdir n hn hE
  have hrole := hspaces.page_of_entry hdir hn h.entry
  refine ⟨?_, ?_, ?_⟩
  · rw [hkeeps.present]
    exact h.entry
  · intro k hk
    rw [hkeeps.frameOf, (hgrows.pages _ hrole).2]
    exact h.bytes k hk
  · intro hwritable
    rcases hkeeps with heq | ⟨-, heq⟩
    · rw [heq] at hwritable
      exact h.rights hwritable
    · rw [heq, writable_cowEntry] at hwritable
      cases hwritable

theorem fillPage_mem (s : Kernel) (f : Nat) (page : ByteMap) {f' : Nat} (h : f' ≠ f) :
    (fillPage s f page).mem f' = s.mem f' := Function.update_of_ne h _ _

/-- What a page holds is nothing to the address spaces. -/
theorem fillPage_spaces (h : Spaces s g) {f : Nat} (hf : g.role f = .page) (page : ByteMap) :
    Spaces (fillPage s f page) g := by
  have hother : ∀ f', g.role f' ≠ .page → (fillPage s f page).mem f' = s.mem f' := by
    intro f' hf'
    apply fillPage_mem
    rintro rfl
    exact hf' hf
  have hdirs : ∀ q d, g.dirs q = some d → (fillPage s f page).mem d = s.mem d := by
    intro q d hd
    exact hother d (by rw [h.dir q d hd]; exact nofun)
  have htables : ∀ f' q i, g.role f' = .table q i → (fillPage s f page).mem f' = s.mem f' := by
    intro f' q i hrole
    exact hother f' (by rw [hrole]; exact nofun)
  refine ⟨h.toChains.congr rfl rfl, h.dir, ?_, h.free, ?_, ?_, ?_, h.unique, ?_⟩
  · intro q d hd i hi hp
    rw [hdirs q d hd] at hp ⊢
    exact h.table q d hd i hi hp
  · intro f' q i hl k hk hp
    rw [htables f' q i hl.1] at hp ⊢
    exact h.page f' q i hl k hk hp
  · intro f' idx hidx
    obtain ⟨frame, k, htarget, hp, hframe⟩ := h.mapped f' idx hidx
    obtain ⟨q, i, v, hrole, -⟩ := htarget.table
    refine ⟨frame, k, htarget, ?_, ?_⟩
    · rw [htables frame q i hrole]
      exact hp
    · rw [htables frame q i hrole]
      exact hframe
  · intro hfailed f' q i hl k hk hp
    rw [htables f' q i hl.1] at hp ⊢
    exact h.listed hfailed f' q i hl k hk hp
  · intro hfailed f' q i hl k hk hp hw
    rw [htables f' q i hl.1] at hp hw ⊢
    exact h.exclusive hfailed f' q i hl k hk hp hw

/-- A frame is allocated and filled; nothing is mapped to it yet. -/
theorem newPage_filled (h : Spaces s g) (halloc : s.allocatePhysicalPages .USER 1 = .ret (paddr, s'))
    (hne : paddr ≠ 0) (page : ByteMap) :
    paddr < 2 ^ 32 ∧ g.chain (PA2PGI paddr) = [] ∧
      Spaces (fillPage s' (PA2PGI paddr) page) (g.setRole (PA2PGI paddr) .page) ∧
      Grows (fun _ _ => False) s (fillPage s' (PA2PGI paddr) page) g (g.setRole (PA2PGI paddr) .page) := by
  obtain ⟨hfree, hlt, hsame, hspaces⟩ := newPage_spec h halloc hne
  have heq := hsame.eq
  rw [Kernel.mk.injEq] at heq
  obtain ⟨hmem, -, hr, -, -, -, hprograms, hrunning, hcr3, htlb⟩ := heq
  have hchain : g.chain (PA2PGI paddr) = [] := by
    by_contra hchain
    rw [h.pages _ hchain] at hfree
    cases hfree
  have hother : ∀ f, g.role f ≠ .free → f ≠ PA2PGI paddr ∧ (fillPage s' (PA2PGI paddr) page).mem f = s.mem f := by
    intro f hf
    have hne' : f ≠ PA2PGI paddr := by
      rintro rfl
      exact hf hfree
    refine ⟨hne', ?_⟩
    rw [fillPage_mem _ _ _ hne', hmem]
  refine ⟨hlt, hchain, fillPage_spaces hspaces (Ghost.setRole_self ..) page, ?_⟩
  refine ⟨rfl, ?_, ?_, ?_, ?_, ?_, ?_, hcr3, hprograms, hrunning⟩
  · intro q d hd m hm _
    left
    have hdir := (hother d (by rw [h.dir q d hd]; exact nofun)).2
    unfold pageEntry
    rw [hdir]
    by_cases htable : present (s.mem d (m / 1024)) = true
    · have hlive := h.live hd hm htable
      rw [if_pos htable, if_pos htable, (hother _ (by rw [hlive.1]; exact nofun)).2]
    · rw [if_neg htable, if_neg htable]
  · intro f hf
    obtain ⟨hne', hmem'⟩ := hother f (by rw [hf]; exact nofun)
    rw [Ghost.setRole_of_ne hne']
    exact ⟨hf, hmem'⟩
  · intro f idx hidx
    refine ⟨hidx, ?_⟩
    show (s'.rmapManager.RMapStart idx).target = _
    rw [hr]
  · intro f q i hf
    left
    by_cases hf' : f = PA2PGI paddr
    · rw [hf', Ghost.setRole_self] at hf
      cases hf
    · rwa [Ghost.setRole_of_ne hf'] at hf
  · intro c hc
    rw [← htlb]
    exact hc
  · intro hfailed
    rw [← hr]
    exact hfailed

/-! ### One page -/

theorem allocatePageTable_aligned {page : Nat} (h : s.allocatePageTable = .ret (page, s')) (hpool : AlignedPool s) :
    AlignedPool s' := by
  rw [allocatePageTable] at h
  obtain ⟨⟨page', s₁⟩, halloc, h⟩ := Outcome.bind_eq_ret h
  have haligned := (allocatePhysicalPages_aligned halloc hpool).1
  dsimp only at h
  split at h
  · obtain ⟨-, rfl⟩ := Prod.mk.inj (Outcome.ret.inj h)
    exact haligned
  · obtain ⟨info, _, h⟩ := Outcome.bind_eq_ret h
    obtain ⟨-, rfl⟩ := Prod.mk.inj (Outcome.ret.inj h)
    exact haligned

theorem setupTable_aligned {vaddr : Nat} {ok : Bool} (h : s.setupTable dir vaddr = .ret (ok, s'))
    (hpool : AlignedPool s) : AlignedPool s' := by
  rw [setupTable] at h
  split at h
  · obtain ⟨-, rfl⟩ := Prod.mk.inj (Outcome.ret.inj h)
    exact hpool
  · obtain ⟨⟨page, s₁⟩, halloc, h⟩ := Outcome.bind_eq_ret h
    have haligned := allocatePageTable_aligned halloc hpool
    dsimp only at h
    split at h
    · obtain ⟨-, rfl⟩ := Prod.mk.inj (Outcome.ret.inj h)
      exact haligned
    · obtain ⟨-, rfl⟩ := Prod.mk.inj (Outcome.ret.inj h)
      exact haligned

theorem attach_aligned {f a v q : Nat} {res : Option Nat} (h : s.attach f a v q = .ret (res, s'))
    (hpool : AlignedPool s) : AlignedPool s' := by
  rw [attach] at h
  split at h
  · obtain ⟨-, rfl⟩ := Prod.mk.inj (Outcome.ret.inj h)
    exact hpool
  · obtain ⟨info, _, h⟩ := Outcome.bind_eq_ret h
    obtain ⟨-, rfl⟩ := Prod.mk.inj (Outcome.ret.inj h)
    exact hpool

/-- The flags of a page are beside its address. -/
theorem vPageFlags2PTE_address (flags : Byte) : vPageFlags2PTE flags &&& PTE_GET_ADDRESS = 0#32 := by
  unfold vPageFlags2PTE
  split_ifs <;> decide

theorem vPageFlags2PTE_writable {flags : Byte} (h : hasFlag (vPageFlags2PTE flags) PTE_WRITABLE = true) :
    hasFlag flags VP_RW = true := by
  by_contra hrw
  rw [vPageFlags2PTE, if_neg hrw] at h
  revert h
  split_ifs <;> decide

theorem processEntry_spec (hlt : paddr < 2 ^ 32) (halign : paddr % 4096 = 0) (flags : Byte) :
    present (processEntry paddr flags) = true ∧ frameOf (processEntry paddr flags) = PA2PGI paddr ∧
      (writable (processEntry paddr flags) = true → hasFlag flags VP_RW = true) := by
  have hpresent : hasFlag PTE_PRESENT PTE_PRESENT = true := by decide
  have hrest : hasFlag PTE_PRESENT PTE_WRITABLE = false := by decide
  unfold processEntry
  refine ⟨?_, ?_, ?_⟩
  · rw [present, hasFlag_or, hpresent, Bool.or_true]
  · rw [frameOf, getAddress_or (by decide), getAddress_or (vPageFlags2PTE_address flags),
      getAddress_ofNat hlt halign]
  · intro h
    rw [writable, hasFlag_or, hasFlag_or, hasFlag_ofNat hlt halign (by decide), hrest, Bool.false_or,
      Bool.or_false] at h
    exact vPageFlags2PTE_writable h

/-- A frame without reverse mappings is mapped at a page, which was not mapped. -/
theorem mapProcessPage_spec (h : Spaces s g) (hdir : g.dirs pid = some dir) (hn : n < userPages)
    (hpool : AlignedPool s) (hlt : paddr < 2 ^ 32) (halign : paddr % 4096 = 0)
    (hpage : g.role (PA2PGI paddr) = .page) (hchain : g.chain (PA2PGI paddr) = []) {flags : Byte}
    (hcall : mapProcessPage s dir pid (n * 4096) paddr flags = .ret (true, s')) :
    ∃ g', Spaces s' g' ∧ AlignedPool s' ∧ Grows (fun d' n' => d' = dir ∧ n' = n) s s' g g' ∧
      present (s.pageEntry dir n) = false ∧ s'.pageEntry dir n = processEntry paddr flags := by
  obtain ⟨hpresent, hframe, -⟩ := processEntry_spec hlt halign flags
  rw [mapProcessPage] at hcall
  obtain ⟨⟨ok, s₁⟩, htable, hcall⟩ := Outcome.bind_eq_ret hcall
  cases ok with
  | false => cases hcall
  | true =>
      dsimp only at hcall
      obtain ⟨g₁, h₁, hgrows₁, hquiet, hlinked⟩ := setupTable_spec h hdir htable
      have hpool₁ := setupTable_aligned htable hpool
      have hdir₁ : g₁.dirs pid = some dir := by rw [hgrows₁.dirs]; exact hdir
      split at hcall
      · cases hcall
      · rename_i hpte
        have habsent : present (s₁.pageEntry dir n) = false := by
          have hpde : present (s₁.pde dir (n * 4096)) = true := by
            rw [pde, pdeIdx_page]
            exact hlinked
          have hentry := pte_eq_pageEntry hpde
          rw [Nat.mul_div_cancel _ (by decide)] at hentry
          rw [← hentry]
          exact Bool.eq_false_iff.mpr hpte
        have hne : dir ≠ frameOf (s₁.mem dir (n / 1024)) := fun he => by
          have hrole := (h₁.live hdir₁ hn hlinked).1
          rw [← he, h₁.dir pid dir hdir₁] at hrole
          cases hrole
        obtain ⟨⟨idx, s₂⟩, hattach, hcall⟩ := Outcome.bind_eq_ret hcall
        have hs' : s₂ = s' := by
          cases idx with
          | some idx => exact (Prod.mk.inj (Outcome.ret.inj hcall)).2
          | none =>
              obtain ⟨⟨_, s₃⟩, _, hcall⟩ := Outcome.bind_eq_ret hcall
              cases hcall
        subst hs'
        have hpool' : AlignedPool s₂ := attach_aligned hattach hpool₁
        have hempty : g₁.chain (PA2PGI paddr) = [] := by rw [hquiet.chain]; exact hchain
        have hpage₁ := (hgrows₁.pages _ hpage).1
        rw [slot_ptePaddr hne, ← hframe] at hattach
        rw [← hframe] at hempty hpage₁
        -- a live entry of the frame would have a reverse mapping
        have hexcl : s₁.rmapManager.attachFailed = false → ∀ frame q' i, g₁.Live frame q' i → ∀ k, k < 1024 →
            present (s₁.mem frame k) = true →
            frameOf (s₁.mem frame k) = frameOf (processEntry paddr flags) →
            writable (s₁.mem frame k) = false := by
          intro hfailed frame q' i hlive k hk hp hf
          obtain ⟨idx, hidx, -⟩ := h₁.listed hfailed frame q' i hlive k hk hp
          rw [hf, hempty] at hidx
          cases hidx
        obtain ⟨g', h', hgrows', hself, -⟩ := mapPage_spec h₁ hdir₁ hn hlinked habsent hpresent hpage₁
          (fun _ => hempty) hexcl (Or.inl rfl) (setPte_pdeInc_rest _ _ _ _) ⟨_, setPte_pdeInc_mem hne _⟩ hattach
        refine ⟨g', h', hpool', (hgrows₁.trans hgrows').mono ?_, ?_, hself⟩
        · rintro d' n' (hE | hE)
          · exact hE.elim
          · exact hE
        · rw [← (hgrows₁.keeps pid dir hdir n hn id).present]
          exact habsent

/-- One page of a segment is loaded. -/
theorem loadPage_spec (h : Spaces s g) (hdir : g.dirs pid = some dir) (hn : n < userPages)
    (hpool : AlignedPool s) {read : Reader} {seg : ElfSegment} {vaddr : Word} (hvaddr : vaddr.toNat = n * 4096)
    (hcall : loadPage read dir pid seg vaddr s = .ret (true, s')) :
    ∃ g' page, Spaces s' g' ∧ g'.dirs = g.dirs ∧ AlignedPool s' ∧ loadSegmentPage read seg vaddr = some page ∧
      Mapped s' dir n page seg.flags ∧
      ∀ n' page' flags', n' < userPages → Mapped s dir n' page' flags' → Mapped s' dir n' page' flags' := by
  rw [loadPage] at hcall
  obtain ⟨⟨paddr, s₁⟩, halloc, hcall⟩ := Outcome.bind_eq_ret hcall
  dsimp only at hcall
  split at hcall
  · cases hcall
  · rename_i hne
    cases hload : loadSegmentPage read seg vaddr with
    | none =>
        rw [hload] at hcall
        obtain ⟨_, _, hcall⟩ := Outcome.bind_eq_ret hcall
        cases hcall
    | some page =>
        rw [hload] at hcall
        obtain ⟨⟨ok, s₂⟩, hmap, hcall⟩ := Outcome.bind_eq_ret hcall
        cases ok with
        | false =>
            obtain ⟨_, _, hcall⟩ := Outcome.bind_eq_ret hcall
            cases hcall
        | true =>
            obtain rfl : s₂ = s' := (Prod.mk.inj (Outcome.ret.inj hcall)).2
            obtain ⟨hpool₁, hwhole⟩ := allocatePhysicalPages_aligned halloc hpool
            obtain ⟨hlt, hchain, h₁, hgrows₁⟩ := newPage_filled h halloc hne page
            have halign := hwhole rfl
            have hrole := Ghost.setRole_self g (PA2PGI paddr) .page
            have hdir₁ : (g.setRole (PA2PGI paddr) .page).dirs pid = some dir := hdir
            rw [hvaddr] at hmap
            obtain ⟨g', h', hpool', hgrows', habsent, hself⟩ :=
              mapProcessPage_spec h₁ hdir₁ hn hpool₁ hlt halign hrole hchain hmap
            obtain ⟨hpresent, hframe, hrights⟩ := processEntry_spec hlt halign seg.flags
            refine ⟨g', page, h', hgrows'.dirs, hpool', rfl, ⟨?_, ?_, ?_⟩, ?_⟩
            · rw [hself]
              exact hpresent
            · intro k _
              rw [hself, hframe, (hgrows'.pages _ hrole).2]
              exact congrFun (Function.update_self ..) k
            · rw [hself]
              exact hrights
            · intro n' page' flags' hn' hmapped
              have hmapped₁ := hmapped.grows h hdir hn' hgrows₁ id
              refine hmapped₁.grows h₁ hdir₁ hn' hgrows' ?_
              rintro ⟨-, rfl⟩
              rw [hmapped₁.entry] at habsent
              cases habsent

/-! ### All pages -/

/-- A page is loaded from a segment. -/
def Loaded (read : Reader) (s : Kernel) (dir : Nat) (seg : ElfSegment) (n : Nat) : Prop :=
  ∃ page, loadSegmentPage read seg (BitVec.ofNat 32 (n * 4096)) = some page ∧ Mapped s dir n page seg.flags

/-- What loading leaves: the kernel in order, and every page mapped that was. -/
structure Kept (s s' : Kernel) (g g' : Ghost) (dir : Nat) : Prop where
  spaces : Spaces s' g'
  dirs : g'.dirs = g.dirs
  pool : AlignedPool s'
  mapped : ∀ n page flags, n < userPages → Mapped s dir n page flags → Mapped s' dir n page flags

theorem Kept.refl (h : Spaces s g) (hpool : AlignedPool s) : Kept s s g g dir :=
  ⟨h, rfl, hpool, fun _ _ _ _ h => h⟩

theorem Kept.trans {s'' : Kernel} {g'' : Ghost} (h : Kept s s' g g' dir) (h' : Kept s' s'' g' g'' dir) :
    Kept s s'' g g'' dir :=
  ⟨h'.spaces, h'.dirs.trans h.dirs, h'.pool, fun n page flags hn hm =>
    h'.mapped n page flags hn (h.mapped n page flags hn hm)⟩

theorem Loaded.kept {read : Reader} {seg : ElfSegment} (h : Loaded read s dir seg n) (hn : n < userPages)
    (hkept : Kept s s' g g' dir) : Loaded read s' dir seg n := by
  obtain ⟨page, hload, hmapped⟩ := h
  exact ⟨page, hload, hkept.mapped n page _ hn hmapped⟩

/-- The pages of a segment from page `n` up to page `m`. -/
theorem loadPages_spec {m fuel : Nat} {read : Reader} {seg : ElfSegment} {vaddr page_end : Word}
    (h : Spaces s g) (hdir : g.dirs pid = some dir) (hpool : AlignedPool s) (hm : m ≤ userPages)
    (hvaddr : vaddr.toNat = n * 4096) (hend : page_end.toNat = m * 4096)
    (hcall : loadPages read dir pid seg page_end fuel vaddr s = .ret (true, s')) :
    ∃ g', Kept s s' g g' dir ∧ ∀ i, n ≤ i → i < m → Loaded read s' dir seg i := by
  induction fuel generalizing s g n vaddr with
  | zero => cases hcall
  | succ fuel ih =>
      rw [loadPages] at hcall
      split at hcall
      · rename_i hlt
        have hnm : n < m := by
          have := BitVec.lt_def.mp hlt
          rw [hvaddr, hend] at this
          omega
        have hn : n < userPages := by omega
        obtain ⟨⟨ok, s₁⟩, hone, hcall⟩ := Outcome.bind_eq_ret hcall
        cases ok with
        | false => cases hcall
        | true =>
            obtain ⟨g₁, page, h₁, hdirs₁, hpool₁, hload, hmapped, hrest⟩ :=
              loadPage_spec h hdir hn hpool hvaddr hone
            have hnext : (vaddr + PAGE_SIZE).toNat = (n + 1) * 4096 := by
              have hsize : PAGE_SIZE.toNat = 4096 := rfl
              rw [userPages] at hm
              rw [BitVec.toNat_add, hvaddr, hsize]
              omega
            obtain ⟨g', hkept, hloaded⟩ := ih h₁ (by rw [hdirs₁]; exact hdir) hpool₁ hnext hcall
            have hone' : Kept s s₁ g g₁ dir := ⟨h₁, hdirs₁, hpool₁, hrest⟩
            refine ⟨g', hone'.trans hkept, fun i hi him => ?_⟩
            by_cases heq : i = n
            · rw [heq]
              have hword : vaddr = BitVec.ofNat 32 (n * 4096) := by
                rw [← hvaddr, BitVec.ofNat_toNat, BitVec.setWidth_eq]
              exact Loaded.kept ⟨page, hword ▸ hload, hmapped⟩ hn hkept
            · exact hloaded i (by omega) him
      · rename_i hge
        obtain rfl : s = s' := (Prod.mk.inj (Outcome.ret.inj hcall)).2
        refine ⟨g, Kept.refl h hpool, fun i hi him => ?_⟩
        have := BitVec.not_lt.mp hge
        rw [BitVec.le_def, hvaddr, hend] at this
        omega

/-- The pages of a segment; it is whole pages below the kernel half. -/
def ElfSegment.pagesIn (seg : ElfSegment) (n : Nat) : Prop :=
  seg.range.1 ≤ n * 4096 ∧ n * 4096 < seg.range.2

structure ElfSegment.Whole (seg : ElfSegment) : Prop where
  first : seg.range.1 % 4096 = 0
  last : seg.range.2 % 4096 = 0
  le : seg.range.2 ≤ 0xbfff0000

/-- The loop over a segment starts at its first page and ends behind its last. -/
theorem ElfSegment.Whole.bounds {seg : ElfSegment} (h : seg.Whole) :
    (pageBegin seg).toNat = seg.range.1 ∧ (pageEnd seg).toNat = seg.range.2 := by
  obtain ⟨hfirst, hlast, hle⟩ := h
  simp only [ElfSegment.range] at hfirst hlast hle
  have hsum : (seg.vaddr + seg.memsz).toNat = seg.vaddr.toNat + seg.memsz.toNat := by
    rw [BitVec.toNat_add]
    omega
  refine ⟨?_, ?_⟩
  · rw [pageBegin, toNat_align_down, pageDown, ElfSegment.range]
    omega
  · rw [pageEnd, toNat_align_up (by omega), hsum, pageUp, ElfSegment.range]
    omega

theorem loadSegments_spec {read : Reader} {segments : List ElfSegment} (h : Spaces s g)
    (hdir : g.dirs pid = some dir) (hpool : AlignedPool s) (hwhole : ∀ seg ∈ segments, seg.Whole)
    (hcall : loadSegments read dir pid segments s = .ret (true, s')) :
    ∃ g', Kept s s' g g' dir ∧ ∀ seg ∈ segments, ∀ n, seg.pagesIn n → Loaded read s' dir seg n := by
  induction segments generalizing s g with
  | nil =>
      obtain rfl : s = s' := (Prod.mk.inj (Outcome.ret.inj hcall)).2
      exact ⟨g, Kept.refl h hpool, nofun⟩
  | cons seg segments ih =>
      rw [loadSegments] at hcall
      obtain ⟨⟨ok, s₁⟩, hone, hcall⟩ := Outcome.bind_eq_ret hcall
      cases ok with
      | false => cases hcall
      | true =>
          have hseg := hwhole seg List.mem_cons_self
          obtain ⟨hbegin, hend⟩ := hseg.bounds
          obtain ⟨hfirst, hlast, hle⟩ := hseg
          have hm : seg.range.2 / 4096 ≤ userPages := by
            rw [userPages]
            omega
          obtain ⟨g₁, hkept₁, hloaded₁⟩ := loadPages_spec (n := seg.range.1 / 4096) (m := seg.range.2 / 4096)
            h hdir hpool hm (by omega) (by omega) hone
          obtain ⟨g', hkept, hloaded⟩ := ih hkept₁.spaces (by rw [hkept₁.dirs]; exact hdir) hkept₁.pool
            (fun seg hseg => hwhole seg (List.mem_cons_of_mem _ hseg)) hcall
          refine ⟨g', hkept₁.trans hkept, fun seg' hseg' n hn => ?_⟩
          rcases List.mem_cons.mp hseg' with rfl | hseg'
          · obtain ⟨hlow, hhigh⟩ := hn
            exact (hloaded₁ n (by omega) (by omega)).kept (by rw [userPages]; omega) hkept
          · exact hloaded seg' hseg' n hn

end SysuOs.Elf
