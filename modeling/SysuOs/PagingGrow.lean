import Mathlib
import SysuOs.PagingSpaces

/-! What `fork` does to address spaces: a new page table, the entries of a page downgraded, a page shared.
None of it takes a page away from a process or changes what is in it. -/

namespace SysuOs

open Kernel

/-- `frame` is now used for `role`. -/
def Ghost.setRole (g : Ghost) (frame : Nat) (role : Role) : Ghost :=
  { g with role := Function.update g.role frame role }

@[simp] theorem Ghost.setRole_chain (g : Ghost) (frame : Nat) (role : Role) :
    (g.setRole frame role).chain = g.chain := rfl

@[simp] theorem Ghost.setRole_dirs (g : Ghost) (frame : Nat) (role : Role) :
    (g.setRole frame role).dirs = g.dirs := rfl

theorem Ghost.setRole_self (g : Ghost) (frame : Nat) (role : Role) :
    (g.setRole frame role).role frame = role := Function.update_self _ _ _

theorem Ghost.setRole_of_ne {g : Ghost} {frame f : Nat} {role : Role} (h : f ≠ frame) :
    (g.setRole frame role).role f = g.role f := Function.update_of_ne h _ _

/-- The entry of a page has not changed, or it is downgraded to copy on write. -/
def Keeps (s s' : Kernel) (dir n : Nat) : Prop :=
  s'.pageEntry dir n = s.pageEntry dir n ∨
    present (s.pageEntry dir n) = true ∧ s'.pageEntry dir n = cowEntry (s.pageEntry dir n)

theorem Keeps.trans {s s' s'' : Kernel} {dir n : Nat} (h : Keeps s s' dir n) (h' : Keeps s' s'' dir n) :
    Keeps s s'' dir n := by
  rcases h with h | ⟨hpresent, h⟩
  · rcases h' with h' | ⟨hpresent', h'⟩
    · exact Or.inl (h'.trans h)
    · exact Or.inr ⟨h ▸ hpresent', by rw [h', h]⟩
  · refine Or.inr ⟨hpresent, ?_⟩
    rcases h' with h' | ⟨-, h'⟩
    · rw [h', h]
    · rw [h', h, cowEntry_cowEntry]

theorem Keeps.present {s s' : Kernel} {dir n : Nat} (h : Keeps s s' dir n) :
    present (s'.pageEntry dir n) = present (s.pageEntry dir n) := by
  rcases h with h | ⟨-, h⟩ <;> rw [h]
  exact present_cowEntry _

theorem Keeps.frameOf {s s' : Kernel} {dir n : Nat} (h : Keeps s s' dir n) :
    frameOf (s'.pageEntry dir n) = frameOf (s.pageEntry dir n) := by
  rcases h with h | ⟨-, h⟩ <;> rw [h]
  exact frameOf_cowEntry _

/-- No process loses a page: entries are kept except those of `E`, pages and reverse mappings stay, and
the MMU caches nothing new. -/
structure Grows (E : Nat → Nat → Prop) (s s' : Kernel) (g g' : Ghost) : Prop where
  dirs : g'.dirs = g.dirs
  keeps : ∀ q d, g.dirs q = some d → ∀ n, n < userPages → ¬E d n → Keeps s s' d n
  pages : ∀ f, g.role f = .page → g'.role f = .page ∧ s'.mem f = s.mem f
  chain : ∀ f, ∀ idx ∈ g.chain f, idx ∈ g'.chain f ∧
    (s'.rmapManager.RMapStart idx).target = (s.rmapManager.RMapStart idx).target
  tables : ∀ f q i, g'.role f = .table q i → g.role f = .table q i ∨ (g.dirs q).isSome = true
  tlb : ∀ c ∈ s'.tlb, c ∈ s.tlb
  attach : s'.rmapManager.attachFailed = false → s.rmapManager.attachFailed = false
  cr3 : s'.cr3 = s.cr3
  programs : s'.programs = s.programs
  running : s'.running = s.running

namespace Grows

variable {E E' : Nat → Nat → Prop} {s s' s'' : Kernel} {g g' g'' : Ghost}

theorem refl (E : Nat → Nat → Prop) (s : Kernel) (g : Ghost) : Grows E s s g g where
  dirs := rfl
  keeps _ _ _ _ _ _ := Or.inl rfl
  pages _ hrole := ⟨hrole, rfl⟩
  chain _ _ hidx := ⟨hidx, rfl⟩
  tables _ _ _ hf := Or.inl hf
  tlb _ hc := hc
  attach hfailed := hfailed
  cr3 := rfl
  programs := rfl
  running := rfl

theorem trans (h : Grows E s s' g g') (h' : Grows E' s' s'' g' g'') :
    Grows (fun d n => E d n ∨ E' d n) s s'' g g'' where
  dirs := h'.dirs.trans h.dirs
  keeps q d hdir n hn hnot :=
    (h.keeps q d hdir n hn fun hE => hnot (Or.inl hE)).trans
      (h'.keeps q d (by rw [h.dirs]; exact hdir) n hn fun hE => hnot (Or.inr hE))
  pages f hrole := by
    obtain ⟨hrole', hmem⟩ := h.pages f hrole
    obtain ⟨hrole'', hmem'⟩ := h'.pages f hrole'
    exact ⟨hrole'', hmem'.trans hmem⟩
  chain f idx hidx := by
    obtain ⟨hidx', htarget⟩ := h.chain f idx hidx
    obtain ⟨hidx'', htarget'⟩ := h'.chain f idx hidx'
    exact ⟨hidx'', htarget'.trans htarget⟩
  tables f q i hf := by
    rcases h'.tables f q i hf with hf' | hsome
    · exact h.tables f q i hf'
    · exact Or.inr (h.dirs ▸ hsome)
  tlb c hc := h.tlb c (h'.tlb c hc)
  attach hfailed := h.attach (h'.attach hfailed)
  cr3 := h'.cr3.trans h.cr3
  programs := h'.programs.trans h.programs
  running := h'.running.trans h.running

theorem mono (h : Grows E s s' g g') (hE : ∀ d n, E d n → E' d n) : Grows E' s s' g g' :=
  { h with keeps := fun q d hdir n hn hnot => h.keeps q d hdir n hn fun hE₁ => hnot (hE d n hE₁) }

end Grows

namespace Chains

variable {s s' : Kernel} {g : Ghost}

/-- A frame that holds no page is given another use. -/
theorem setRole (h : Chains s g) {frame : Nat} {role : Role} (hold : g.role frame ≠ .page)
    (hr : s'.rmapManager = s.rmapManager) (hpi : ∀ f, f ≠ frame → s'.pageinfos f = s.pageinfos f)
    (hnew : role = .page → (s'.pageinfos frame).extra = 0 ∧ (s'.pageinfos frame).ref = 0) :
    Chains s' (g.setRole frame role) := by
  have hempty : g.chain frame = [] := by
    by_contra hne
    exact hold (h.pages frame hne)
  refine ⟨hr ▸ h.bound, hr ▸ h.null, fun f hrole => ?_, fun f hrole => ?_, hr ▸ h.used, h.apart,
    fun f hne => ?_⟩
  · by_cases hf : f = frame
    · subst hf
      rw [Ghost.setRole_self] at hrole
      simp only [Ghost.setRole_chain, hempty, (hnew hrole).1, link_zero, Walk.nil_iff]
    · rw [Ghost.setRole_of_ne hf] at hrole
      rw [hr, hpi f hf]
      exact h.walk f hrole
  · by_cases hf : f = frame
    · subst hf
      rw [Ghost.setRole_self] at hrole
      simp only [Ghost.setRole_chain, hempty, (hnew hrole).2, List.length_nil]
    · rw [Ghost.setRole_of_ne hf] at hrole
      rw [hpi f hf]
      exact h.ref f hrole
  · have hf : f ≠ frame := fun he => hne (he ▸ hempty)
    rw [Ghost.setRole_of_ne hf]
    exact h.pages f hne

end Chains

/-! ### A new page table -/

section
variable {s s₁ : Kernel} {g : Ghost} {q d vaddr page : Nat}

/-- The entry of a page directory for a new page table. -/
theorem frameOf_ofNat_or {page : Nat} (hlt : page < 2 ^ 32) {flags : Word}
    (h : flags &&& PTE_GET_ADDRESS = 0#32) : frameOf (BitVec.ofNat 32 page ||| flags) = PA2PGI page := by
  rw [frameOf, getAddress_or h, getAddress_eq, BitVec.toNat_ofNat, Nat.mod_eq_of_lt hlt, PA2PGI, PA2PGI,
    Nat.mul_div_cancel _ (by decide)]

theorem linkTable_mem (s : Kernel) (d vaddr page : Nat) (flags : Word) (f : Nat) :
    (s.linkTable d vaddr page flags).mem f =
      if f = PA2PGI page then fun _ => 0#32
      else if f = d then Function.update (s.mem d) (pdeIdx vaddr) (BitVec.ofNat 32 page ||| flags)
      else s.mem f := by
  simp only [linkTable, clearPage, setPde, setWord]
  by_cases hf : f = PA2PGI page
  · rw [if_pos hf, hf, Function.update_self]
  · rw [if_neg hf, Function.update_of_ne hf]
    by_cases hd : f = d
    · rw [if_pos hd, hd, Function.update_self]
    · rw [if_neg hd, Function.update_of_ne hd]

/-- Linking a page table changes nothing but its directory, and no reverse mapping or cached translation. -/
theorem linkTable_quiet (h : Spaces s g) (halloc : s.allocatePageTable = .ret (page, s₁)) (hne : page ≠ 0) :
    (s₁.linkTable d vaddr page PDE_USER).tlb = s.tlb ∧
      (s₁.linkTable d vaddr page PDE_USER).rmapManager = s.rmapManager ∧
      ∀ f, g.role f ≠ .free → f ≠ d → (s₁.linkTable d vaddr page PDE_USER).mem f = s.mem f := by
  obtain ⟨-, hfree, s₀, hsame, rfl⟩ := allocatePageTable_spec halloc hne
  have hsame' := hsame.eq
  refine ⟨?_, ?_, ?_⟩
  · show s₀.tlb = s.tlb
    rw [hsame']
  · show s₀.rmapManager = s.rmapManager
    rw [hsame']
  · intro f hrole hdd
    have hfresh : f ≠ PA2PGI page := by
      rintro rfl
      exact hrole (h.free _ hfree)
    rw [linkTable_mem, if_neg hfresh, if_neg hdd]
    show s₀.mem f = s.mem f
    rw [hsame']

/-- The empty page table `P` is linked by the entry `w` at place `i` of the directory `d`. -/
structure LinkedTable (s s' : Kernel) (d i P : Nat) (w : Word) : Prop where
  rmapManager : s'.rmapManager = s.rmapManager
  pageinfos : ∀ f, s'.pageinfos f = if f = P then tableInfo else s.pageinfos f
  new : s'.mem P = fun _ => 0#32
  directory : s'.mem d = Function.update (s.mem d) i w
  other : ∀ f, f ≠ P → f ≠ d → s'.mem f = s.mem f
  frame : frameOf w = P
  isPresent : present w = true
  cr3 : s'.cr3 = s.cr3
  programs : s'.programs = s.programs
  running : s'.running = s.running
  tlb : s'.tlb = s.tlb

theorem Spaces.dir_ne_free {P : Nat} (h : Spaces s g) (hdir : g.dirs q = some d) (hfree : g.role P = .free) :
    d ≠ P := fun he => by
  have hrole := h.dir q d hdir
  rw [he, hfree] at hrole
  exact absurd hrole (by simp)

theorem linkTable_linked (h : Spaces s g) (hdir : g.dirs q = some d)
    (halloc : s.allocatePageTable = .ret (page, s₁)) (hne : page ≠ 0) :
    g.role (PA2PGI page) = .free ∧ LinkedTable s (s₁.linkTable d vaddr page PDE_USER) d (pdeIdx vaddr) (PA2PGI page)
      (BitVec.ofNat 32 page ||| PDE_USER) := by
  obtain ⟨hlt, hfree, s₀, hsame, rfl⟩ := allocatePageTable_spec halloc hne
  have hrole := h.free _ hfree
  have hdP := h.dir_ne_free hdir hrole
  have hmem : ∀ f, (((s₀.setInfo (PA2PGI page) tableInfo)).linkTable d vaddr page PDE_USER).mem f =
      if f = PA2PGI page then fun _ => 0#32
      else if f = d then Function.update (s.mem d) (pdeIdx vaddr) (BitVec.ofNat 32 page ||| PDE_USER)
      else s.mem f := fun f => by
    have hmem₀ : s₀.mem = s.mem := by rw [hsame.eq]
    rw [linkTable_mem]
    simp only [setInfo, hmem₀]
  have hpageinfos : ∀ f, (((s₀.setInfo (PA2PGI page) tableInfo)).linkTable d vaddr page PDE_USER).pageinfos f =
      if f = PA2PGI page then tableInfo else s.pageinfos f := fun f => by
    have hpi₀ : s₀.pageinfos = s.pageinfos := by rw [hsame.eq]
    change Function.update s₀.pageinfos (PA2PGI page) tableInfo f = _
    rw [hpi₀, Function.update_apply]
  have hpresent : present (BitVec.ofNat 32 page ||| PDE_USER) = true := by
    simp [present, (by decide : hasFlag PDE_USER PTE_PRESENT = true)]
  refine ⟨hrole, ?_, hpageinfos, ?_, ?_, fun f hfP hfd => ?_, frameOf_ofNat_or hlt (by decide), hpresent, ?_, ?_,
    ?_, ?_⟩
  · change s₀.rmapManager = s.rmapManager
    rw [hsame.eq]
  · rw [hmem, if_pos rfl]
  · rw [hmem, if_neg hdP, if_pos rfl]
  · rw [hmem, if_neg hfP, if_neg hfd]
  · change s₀.cr3 = s.cr3
    rw [hsame.eq]
  · change s₀.programs = s.programs
    rw [hsame.eq]
  · change s₀.running = s.running
    rw [hsame.eq]
  · change s₀.tlb = s.tlb
    rw [hsame.eq]

namespace LinkedTable

variable {s' : Kernel} {i j k n P f q' d' : Nat} {w : Word}

theorem role (hfree : g.role P = .free) {r : Role} (hf : g.role f ≠ .free) : (g.setRole P r).role f = g.role f :=
  Ghost.setRole_of_ne fun he => hf (he ▸ hfree)

theorem mem_table (hl : LinkedTable s s' d i P w) (h : Spaces s g) (hdir : g.dirs q = some d) (hfree : g.role P = .free)
    (hf : g.role f = .table q' j) : s'.mem f = s.mem f := by
  refine hl.other f (fun he => ?_) fun he => ?_
  · rw [he, hfree] at hf
    exact absurd hf (by simp)
  · rw [he, h.dir q d hdir] at hf
    exact absurd hf (by simp)

theorem mem_page (hl : LinkedTable s s' d i P w) (h : Spaces s g) (hdir : g.dirs q = some d) (hfree : g.role P = .free)
    (hf : g.role f = .page) : s'.mem f = s.mem f := by
  refine hl.other f (fun he => ?_) fun he => ?_
  · rw [he, hfree] at hf
    exact absurd hf (by simp)
  · rw [he, h.dir q d hdir] at hf
    exact absurd hf (by simp)

/-- A live page table is the new one, which is empty, or an old one, which has not changed. -/
theorem live (hl : LinkedTable s s' d i P w) (h : Spaces s g) (hdir : g.dirs q = some d) (hfree : g.role P = .free)
    {r : Role} (hlive : (g.setRole P r).Live f q' j) (hk : present (s'.mem f k) = true) :
    g.Live f q' j ∧ s'.mem f = s.mem f := by
  have hf : f ≠ P := fun he => by
    rw [he, hl.new] at hk
    simp at hk
  have hold : g.Live f q' j := ⟨by rw [← hlive.1, Ghost.setRole_of_ne hf], hlive.2⟩
  exact ⟨hold, hl.mem_table h hdir hfree hold.1⟩

theorem targets (hfree : g.role P = .free) {r : Role} {e : RMapEntry} (ht : Targets g e f k) :
    Targets (g.setRole P r) e f k := by
  obtain ⟨pid, i, v, hf, -⟩ := ht.table
  exact ht.mono (role hfree (by rw [hf]; simp))

/-- No page has another entry. -/
theorem pageEntry (hl : LinkedTable s s' d i P w) (h : Spaces s g) (hdir : g.dirs q = some d) (hfree : g.role P = .free)
    (habsent : present (s.mem d i) = false) (hdir' : g.dirs q' = some d') (hn : n < userPages) :
    s'.pageEntry d' n = s.pageEntry d' n := by
  have hi : n / 1024 < 768 := by
    rw [userPages] at hn
    omega
  by_cases hnew : d' = d ∧ n / 1024 = i
  · obtain ⟨rfl, rfl⟩ := hnew
    have hp : present (s'.mem d' (n / 1024)) = true := by
      rw [hl.directory, Function.update_self]
      exact hl.isPresent
    rw [pageEntry_of_present hp, pageEntry_of_absent habsent, hl.directory, Function.update_self, hl.frame, hl.new]
  · have hpde : s'.mem d' (n / 1024) = s.mem d' (n / 1024) := by
      by_cases hdd : d' = d
      · subst hdd
        rw [hl.directory, Function.update_of_ne fun he => hnew ⟨rfl, he⟩]
      · rw [hl.other d' (h.dir_ne_free hdir' hfree) hdd]
    by_cases hp : present (s.mem d' (n / 1024)) = true
    · rw [pageEntry_of_present (hpde ▸ hp), pageEntry_of_present hp, hpde,
        hl.mem_table h hdir hfree (h.table q' d' hdir' _ hi hp)]
    · rw [pageEntry_of_absent (by simpa [hpde] using hp), pageEntry_of_absent (by simpa using hp)]

/-- The frame of a present entry of a directory is its page table. -/
theorem table (hl : LinkedTable s s' d i P w) (h : Spaces s g) (hdir : g.dirs q = some d) (hfree : g.role P = .free)
    (hdir' : g.dirs q' = some d') (hj : j < 768) (hp : present (s'.mem d' j) = true) :
    (g.setRole P (.table q i)).role (frameOf (s'.mem d' j)) = .table q' j := by
  by_cases hdd : d' = d
  · subst hdd
    obtain rfl := h.dir_inj hdir hdir'
    rw [hl.directory] at hp ⊢
    by_cases hji : j = i
    · subst hji
      rw [Function.update_self, hl.frame, Ghost.setRole_self]
    · rw [Function.update_of_ne hji] at hp ⊢
      have ht := h.table q d' hdir j hj hp
      rw [role hfree (by rw [ht]; simp)]
      exact ht
  · rw [hl.other d' (h.dir_ne_free hdir' hfree) hdd] at hp ⊢
    have ht := h.table q' d' hdir' j hj hp
    rw [role hfree (by rw [ht]; simp)]
    exact ht

theorem spaces (hl : LinkedTable s s' d i P w) (h : Spaces s g) (hdir : g.dirs q = some d) (hfree : g.role P = .free) :
    Spaces s' (g.setRole P (.table q i)) := by
  refine { toChains := ?_, dir := ?_, table := ?_, free := ?_, page := ?_, mapped := ?_, listed := ?_,
           unique := ?_, exclusive := ?_ }
  · refine h.toChains.setRole (by rw [hfree]; simp) hl.rmapManager (fun f hf => ?_) (by simp)
    rw [hl.pageinfos, if_neg hf]
  · intro q' d' hd'
    rw [role hfree (by rw [h.dir q' d' hd']; simp)]
    exact h.dir q' d' hd'
  · intro q' d' hd' j hj hp
    exact hl.table h hdir hfree hd' hj hp
  · intro f hf
    rw [hl.pageinfos] at hf
    by_cases hfP : f = P
    · rw [if_pos hfP, not_free_tableInfo] at hf
      exact absurd hf (by simp)
    · rw [if_neg hfP] at hf
      rw [Ghost.setRole_of_ne hfP]
      exact h.free f hf
  · intro f q' j hlive k hk hp
    obtain ⟨hold, hm⟩ := hl.live h hdir hfree hlive hp
    rw [hm] at hp ⊢
    have hpage := h.page f q' j hold k hk hp
    rw [role hfree (by rw [hpage]; simp)]
    exact hpage
  · intro f idx hidx
    obtain ⟨frame, k, htarget, hp, hf⟩ := h.mapped f idx hidx
    obtain ⟨pid, j, v, hframe, -⟩ := htarget.table
    refine ⟨frame, k, hl.rmapManager ▸ targets hfree htarget, ?_⟩
    rw [hl.mem_table h hdir hfree hframe]
    exact ⟨hp, hf⟩
  · intro hfailed f q' j hlive k hk hp
    obtain ⟨hold, hm⟩ := hl.live h hdir hfree hlive hp
    rw [hl.rmapManager] at hfailed
    rw [hm] at hp ⊢
    obtain ⟨idx, hidx, htarget⟩ := h.listed hfailed f q' j hold k hk hp
    exact ⟨idx, hidx, hl.rmapManager ▸ targets hfree htarget⟩
  · rw [hl.rmapManager]
    exact h.unique
  · intro hfailed f q' j hlive k hk hp hw
    obtain ⟨hold, hm⟩ := hl.live h hdir hfree hlive hp
    rw [hl.rmapManager] at hfailed
    rw [hm] at hp hw ⊢
    exact h.exclusive hfailed f q' j hold k hk hp hw

theorem grows (hl : LinkedTable s s' d i P w) (h : Spaces s g) (hdir : g.dirs q = some d) (hfree : g.role P = .free)
    (habsent : present (s.mem d i) = false) :
    Grows (fun _ _ => False) s s' g (g.setRole P (.table q i)) where
  dirs := rfl
  keeps q' d' hd' n hn _ := Or.inl (hl.pageEntry h hdir hfree habsent hd' hn)
  pages f hf := ⟨(role hfree (by rw [hf]; simp)).trans hf, hl.mem_page h hdir hfree hf⟩
  chain f idx hidx := ⟨hidx, by rw [hl.rmapManager]⟩
  tables f q' j hf := by
    by_cases hfP : f = P
    · rw [hfP, Ghost.setRole_self] at hf
      obtain ⟨rfl, -⟩ := Role.table.inj hf
      exact Or.inr (by simp [hdir])
    · rw [Ghost.setRole_of_ne hfP] at hf
      exact Or.inl hf
  tlb c hc := hl.tlb ▸ hc
  attach hfailed := hl.rmapManager ▸ hfailed
  cr3 := hl.cr3
  programs := hl.programs
  running := hl.running

end LinkedTable

/-- A new page table is empty. -/
theorem linkTable_spec (h : Spaces s g) (hdir : g.dirs q = some d)
    (habsent : present (s.mem d (pdeIdx vaddr)) = false)
    (halloc : s.allocatePageTable = .ret (page, s₁)) (hne : page ≠ 0) :
    Spaces (s₁.linkTable d vaddr page PDE_USER) (g.setRole (PA2PGI page) (.table q (pdeIdx vaddr))) ∧
      Grows (fun _ _ => False) s (s₁.linkTable d vaddr page PDE_USER) g
        (g.setRole (PA2PGI page) (.table q (pdeIdx vaddr))) ∧
      present ((s₁.linkTable d vaddr page PDE_USER).mem d (pdeIdx vaddr)) = true := by
  obtain ⟨hfree, hl⟩ := linkTable_linked h hdir halloc hne
  refine ⟨hl.spaces h hdir hfree, hl.grows h hdir hfree habsent, ?_⟩
  rw [hl.directory, Function.update_self]
  exact hl.isPresent

end

/-! ### A page downgraded -/

namespace Spaces

variable {s : Kernel} {g : Ghost} {f : Nat}

theorem downgraded_mem (h : Spaces s g) (f frame k : Nat) :
    (s.downgraded (g.chain f)).mem frame k = s.mem frame k ∨
      (∃ q i, g.role frame = .table q i) ∧ present (s.mem frame k) = true ∧
        (s.downgraded (g.chain f)).mem frame k = cowEntry (s.mem frame k) := by
  by_cases hslot : ∃ idx ∈ g.chain f, MapsSlot (s.rmapManager.RMapStart idx) frame k
  · right
    have hcow : (s.downgraded (g.chain f)).mem frame k = cowEntry (s.mem frame k) := if_pos hslot
    obtain ⟨idx, hidx, hmaps⟩ := hslot
    obtain ⟨frame', k', htarget, hpresent, -⟩ := h.mapped f idx hidx
    obtain ⟨rfl, rfl⟩ := htarget.mapsSlot.mp hmaps
    obtain ⟨q, i, v, hrole, -⟩ := htarget.table
    exact ⟨⟨q, i, hrole⟩, hpresent, hcow⟩
  · left
    exact if_neg hslot

/-- Only page tables change. -/
theorem downgraded_frame (h : Spaces s g) {frame : Nat} (hframe : ∀ q i, g.role frame ≠ .table q i) :
    (s.downgraded (g.chain f)).mem frame = s.mem frame := by
  funext k
  rcases h.downgraded_mem f frame k with hsame | ⟨⟨q, i, hrole⟩, -⟩
  · exact hsame
  · exact absurd hrole (hframe q i)

theorem downgraded_present (h : Spaces s g) (f frame k : Nat) :
    present ((s.downgraded (g.chain f)).mem frame k) = present (s.mem frame k) := by
  rcases h.downgraded_mem f frame k with hsame | ⟨-, -, hcow⟩
  · rw [hsame]
  · rw [hcow, present_cowEntry]

theorem downgraded_frameOf (h : Spaces s g) (f frame k : Nat) :
    frameOf ((s.downgraded (g.chain f)).mem frame k) = frameOf (s.mem frame k) := by
  rcases h.downgraded_mem f frame k with hsame | ⟨-, -, hcow⟩
  · rw [hsame]
  · rw [hcow, frameOf_cowEntry]

/-- Every entry of the page is downgraded if no reverse mapping is missing. -/
theorem downgraded_entry (h : Spaces s g) (hfailed : s.rmapManager.attachFailed = false)
    {frame q i k : Nat} (hlive : g.Live frame q i) (hk : k < 1024) (hpresent : present (s.mem frame k) = true) :
    (s.downgraded (g.chain (frameOf (s.mem frame k)))).mem frame k = cowEntry (s.mem frame k) := by
  obtain ⟨idx, hidx, htarget⟩ := h.listed hfailed frame q i hlive k hk hpresent
  exact if_pos ⟨idx, hidx, htarget.mapsSlot.mpr ⟨rfl, rfl⟩⟩

theorem downgraded_dir (h : Spaces s g) {q d : Nat} (hdir : g.dirs q = some d) :
    (s.downgraded (g.chain f)).mem d = s.mem d :=
  h.downgraded_frame fun q' i => by rw [h.dir q d hdir]; simp

theorem downgraded_pageEntry (h : Spaces s g) {q d n : Nat} (hdir : g.dirs q = some d) :
    Keeps s (s.downgraded (g.chain f)) d n := by
  have hd : (s.downgraded (g.chain f)).mem d = s.mem d := h.downgraded_dir hdir
  by_cases htable : present (s.mem d (n / 1024)) = true
  · rw [Keeps, pageEntry_of_present htable, pageEntry_of_present (hd ▸ htable), hd]
    exact (h.downgraded_mem f _ _).imp id fun hcow => hcow.2
  · left
    rw [pageEntry_of_absent (by rw [hd]; simpa using htable), pageEntry_of_absent (by simpa using htable)]

/-- The entries of a page are downgraded. -/
theorem downgrade (h : Spaces s g) (f : Nat) :
    Spaces (s.downgraded (g.chain f)) g ∧ Grows (fun _ _ => False) s (s.downgraded (g.chain f)) g g := by
  refine ⟨{ toChains := h.toChains.congr rfl rfl, dir := h.dir, table := ?_, free := h.free, page := ?_,
            mapped := ?_, listed := ?_, unique := h.unique, exclusive := ?_ }, ?_⟩
  · intro q d hdir i hi
    rw [h.downgraded_dir hdir]
    exact h.table q d hdir i hi
  · intro frame q i hlive k hk hpresent
    rw [h.downgraded_present] at hpresent
    rw [h.downgraded_frameOf]
    exact h.page frame q i hlive k hk hpresent
  · intro f' idx hidx
    obtain ⟨frame, k, htarget, hpresent, hf⟩ := h.mapped f' idx hidx
    refine ⟨frame, k, htarget, ?_, ?_⟩
    · rw [h.downgraded_present]
      exact hpresent
    · rw [h.downgraded_frameOf]
      exact hf
  · intro hfailed frame q i hlive k hk hpresent
    rw [h.downgraded_present] at hpresent
    rw [h.downgraded_frameOf]
    exact h.listed hfailed frame q i hlive k hk hpresent
  · intro hfailed frame q i hlive k hk hpresent hwritable
    rcases h.downgraded_mem f frame k with hsame | ⟨-, -, hcow⟩
    · rw [hsame] at hpresent hwritable ⊢
      exact h.exclusive hfailed frame q i hlive k hk hpresent hwritable
    · rw [hcow, writable_cowEntry] at hwritable
      exact absurd hwritable (by simp)
  · refine ⟨rfl, fun q d hdir n _ _ => h.downgraded_pageEntry hdir, fun f' hrole => ⟨hrole, ?_⟩,
      fun f' idx hidx => ⟨hidx, rfl⟩, fun _ _ _ hf => Or.inl hf, fun c hc => List.mem_of_mem_filter hc, fun hfailed => hfailed, rfl, rfl,
      rfl⟩
    exact h.downgraded_frame fun q i => by rw [hrole]; simp

end Spaces

/-! ### A page mapped -/

/-- Everything but the words of memory is the same in `s'`, and no translation is cached that was not. -/
structure SameRest (s s' : Kernel) : Prop where
  rmapManager : s'.rmapManager = s.rmapManager
  pageinfos : s'.pageinfos = s.pageinfos
  cr3 : s'.cr3 = s.cr3
  programs : s'.programs = s.programs
  running : s'.running = s.running
  tlb : ∀ c ∈ s'.tlb, c ∈ s.tlb

section
variable {s s₁ s' : Kernel} {g : Ghost} {q d n a v : Nat} {w : Word}

/-- The memory once the entry of page `n` is `w` and the count of its page table `count`. -/
def mappedMem (s : Kernel) (d n : Nat) (w : Word) (count : Nat) : Nat → Nat → Word :=
  let frame := frameOf (s.mem d (n / 1024))
  Function.update (Function.update s.mem frame (Function.update (s.mem frame) (n % 1024) w)) d
    (Function.update (s.mem d) (n / 1024) (pdeSetCount (s.mem d (n / 1024)) count))

/-- One entry of a page table changes to `w`, and no entry of a page directory but for its count. -/
structure Rewritten (s s' : Kernel) (g : Ghost) (frame k : Nat) (w : Word) : Prop where
  pde : ∀ q' d', g.dirs q' = some d' → ∀ i, present (s'.mem d' i) = present (s.mem d' i) ∧
    frameOf (s'.mem d' i) = frameOf (s.mem d' i)
  slot : ∀ f q' i, g.role f = .table q' i → ∀ j, (f, j) ≠ (frame, k) → s'.mem f j = s.mem f j
  self : s'.mem frame k = w
  pages : ∀ f, g.role f = .page → s'.mem f = s.mem f

theorem mappedMem_spec (h : Spaces s g) (hdir : g.dirs q = some d) (hn : n < userPages)
    (htable : present (s.mem d (n / 1024)) = true) {count : Nat} (hmem : s₁.mem = mappedMem s d n w count) :
    Rewritten s s₁ g (frameOf (s.mem d (n / 1024))) (n % 1024) w := by
  have hlive := h.live hdir hn htable
  generalize hT : frameOf (s.mem d (n / 1024)) = T at *
  have hdT : d ≠ T := fun he => by
    have hrole := h.dir q d hdir
    rw [he, hlive.1] at hrole
    exact absurd hrole (by simp)
  have hmemd : s₁.mem d = Function.update (s.mem d) (n / 1024) (pdeSetCount (s.mem d (n / 1024)) count) := by
    rw [hmem, mappedMem]
    exact Function.update_self _ _ _
  have hmemT : s₁.mem T = Function.update (s.mem T) (n % 1024) w := by
    rw [hmem, mappedMem, hT]
    simp only [Function.update_of_ne (Ne.symm hdT), Function.update_self]
  have hother : ∀ f, f ≠ d → f ≠ T → s₁.mem f = s.mem f := fun f hfd hfT => by
    rw [hmem, mappedMem, hT]
    simp only [Function.update_of_ne hfd, Function.update_of_ne hfT]
  refine ⟨fun q' d' hd' i => ?_, fun f q' i hf k hk => ?_, ?_, fun f hf => ?_⟩
  · by_cases hdd : d' = d
    · subst hdd
      rw [hmemd]
      by_cases hi : i = n / 1024
      · subst hi
        simp
      · simp [hi]
    · have hd'T : d' ≠ T := fun he => by
        have hrole := h.dir q' d' hd'
        rw [he, hlive.1] at hrole
        exact absurd hrole (by simp)
      rw [hother d' hdd hd'T]
      exact ⟨rfl, rfl⟩
  · have hfd : f ≠ d := fun he => by
      rw [he, h.dir q d hdir] at hf
      exact absurd hf (by simp)
    by_cases hfT : f = T
    · subst hfT
      rw [hmemT, Function.update_of_ne]
      rintro rfl
      exact hk rfl
    · rw [hother f hfd hfT]
  · rw [hmemT, Function.update_self]
  · refine hother f (fun he => ?_) fun he => ?_
    · rw [he, h.dir q d hdir] at hf
      exact absurd hf (by simp)
    · rw [he, hlive.1] at hf
      exact absurd hf (by simp)

namespace Rewritten

theorem pageEntry_self (hm : Rewritten s s₁ g (frameOf (s.mem d (n / 1024))) (n % 1024) w)
    (hdir : g.dirs q = some d) (htable : present (s.mem d (n / 1024)) = true) :
    s₁.pageEntry d n = w := by
  obtain ⟨hp, hf⟩ := hm.pde q d hdir (n / 1024)
  rw [pageEntry_of_present (hp.trans htable), hf]
  exact hm.self

theorem pageEntry_other (hm : Rewritten s s₁ g (frameOf (s.mem d (n / 1024))) (n % 1024) w)
    (h : Spaces s g) (hdir : g.dirs q = some d) (hn : n < userPages) (htable : present (s.mem d (n / 1024)) = true) {q' d' n' : Nat} (hdir' : g.dirs q' = some d')
    (hn' : n' < userPages) (hne : ¬(d' = d ∧ n' = n)) : s₁.pageEntry d' n' = s.pageEntry d' n' := by
  obtain ⟨hp, hf⟩ := hm.pde q' d' hdir' (n' / 1024)
  by_cases htable' : present (s.mem d' (n' / 1024)) = true
  · rw [pageEntry_of_present (hp.trans htable'), pageEntry_of_present htable', hf]
    have hlive := (h.live hdir' hn' htable').1
    refine hm.slot _ q' _ hlive _ fun he => ?_
    obtain ⟨hframe, hk⟩ := Prod.mk.inj he
    obtain ⟨rfl, hi⟩ := Role.table.inj (hlive.symm.trans (hframe ▸ (h.live hdir hn htable).1))
    obtain rfl := Option.some.inj (hdir.symm.trans hdir')
    exact hne ⟨rfl, by omega⟩
  · rw [pageEntry_of_absent (by rw [hp]; simpa using htable'), pageEntry_of_absent (by simpa using htable')]

end Rewritten

/-- The entry of page `n` has been absent and is `w` now. -/
structure Mapping (s s₁ : Kernel) (g : Ghost) (q d n : Nat) (w : Word) : Prop where
  spaces : Spaces s g
  dir : g.dirs q = some d
  lt : n < userPages
  table : present (s.mem d (n / 1024)) = true
  absent : present (s.pageEntry d n) = false
  isPresent : present w = true
  page : g.role (frameOf w) = .page
  rest : SameRest s s₁
  rewritten : Rewritten s s₁ g (frameOf (s.mem d (n / 1024))) (n % 1024) w

namespace Mapping

variable {f i k idx q' d' n' : Nat}

theorem slot (hM : Mapping s s₁ g q d n w) : present (s.mem (frameOf (s.mem d (n / 1024))) (n % 1024)) = false := by
  have habsent := hM.absent
  rwa [pageEntry_of_present hM.table] at habsent

/-- An entry of a page table is the new one or an old one. -/
theorem entry_cases (hM : Mapping s s₁ g q d n w) (hf : g.role f = .table q' i) (k : Nat) :
    (f = frameOf (s.mem d (n / 1024)) ∧ k = n % 1024 ∧ s₁.mem f k = w) ∨
      ((f, k) ≠ (frameOf (s.mem d (n / 1024)), n % 1024) ∧ s₁.mem f k = s.mem f k) := by
  by_cases hk : (f, k) = (frameOf (s.mem d (n / 1024)), n % 1024)
  · obtain ⟨rfl, rfl⟩ := Prod.mk.inj hk
    exact Or.inl ⟨rfl, rfl, hM.rewritten.self⟩
  · exact Or.inr ⟨hk, hM.rewritten.slot f q' i hf k hk⟩

theorem chains (hM : Mapping s s₁ g q d n w) : Chains s₁ g :=
  hM.spaces.toChains.congr hM.rest.rmapManager hM.rest.pageinfos

theorem keeps (hM : Mapping s s₁ g q d n w) (hdir' : g.dirs q' = some d') (hn' : n' < userPages)
    (hne : ¬(d' = d ∧ n' = n)) : Keeps s s₁ d' n' :=
  Or.inl (hM.rewritten.pageEntry_other hM.spaces hM.dir hM.lt hM.table hdir' hn' hne)

theorem tables (hM : Mapping s s₁ g q d n w) (hdir' : g.dirs q' = some d') (hi : i < 768)
    (hp : present (s₁.mem d' i) = true) : g.role (frameOf (s₁.mem d' i)) = .table q' i := by
  obtain ⟨hp', hf'⟩ := hM.rewritten.pde q' d' hdir' i
  rw [hf']
  exact hM.spaces.table q' d' hdir' i hi (hp' ▸ hp)

theorem pages (hM : Mapping s s₁ g q d n w) (hlive : g.Live f q' i) (hk : k < 1024)
    (hp : present (s₁.mem f k) = true) : g.role (frameOf (s₁.mem f k)) = .page := by
  rcases hM.entry_cases hlive.1 k with ⟨-, -, hw⟩ | ⟨-, hsame⟩
  · rw [hw]
    exact hM.page
  · rw [hsame] at hp ⊢
    exact hM.spaces.page f q' i hlive k hk hp

/-- A reverse mapping made before is not that of the new entry. -/
theorem mapped (hM : Mapping s s₁ g q d n w) (hidx : idx ∈ g.chain f) :
    ∃ frame k, Targets g (s.rmapManager.RMapStart idx) frame k ∧ present (s₁.mem frame k) = true ∧
      frameOf (s₁.mem frame k) = f := by
  obtain ⟨frame, k, htarget, hp, hf⟩ := hM.spaces.mapped f idx hidx
  obtain ⟨q', i, v', hrole, -⟩ := htarget.table
  refine ⟨frame, k, htarget, ?_⟩
  rcases hM.entry_cases hrole k with ⟨hframe, hk, -⟩ | ⟨-, hsame⟩
  · rw [hframe, hk, hM.slot] at hp
    exact absurd hp (by simp)
  · rw [hsame]
    exact ⟨hp, hf⟩

theorem ptePaddr_ne (hM : Mapping s s₁ g q d n w) (hidx : idx ∈ g.chain f) :
    (s.rmapManager.RMapStart idx).ptePaddr ≠ slotAddr (frameOf (s.mem d (n / 1024))) (n % 1024) := fun he => by
  obtain ⟨frame, k, htarget, hp, -⟩ := hM.spaces.mapped f idx hidx
  obtain ⟨rfl, rfl⟩ := slotAddr_inj htarget.lt (Nat.mod_lt _ (by decide)) (htarget.ptePaddr.symm.trans he)
  rw [hM.slot] at hp
  exact absurd hp (by simp)

/-- No reverse mapping is made. -/
theorem refused (hM : Mapping s s₁ g q d n w) :
    Spaces { s₁ with rmapManager := { s₁.rmapManager with attachFailed := true } } g ∧
      Grows (fun d' n' => d' = d ∧ n' = n) s
        { s₁ with rmapManager := { s₁.rmapManager with attachFailed := true } } g g := by
  have hchains := hM.chains
  have h := hM.spaces
  have hrest := hM.rest
  refine ⟨{ toChains := ?_, dir := h.dir, table := ?_, free := ?_, page := ?_, mapped := ?_, listed := ?_,
            unique := ?_, exclusive := ?_ }, ?_⟩
  · exact ⟨hchains.bound, hchains.null, hchains.walk, hchains.ref, hchains.used, hchains.apart, hchains.pages⟩
  · exact fun q' d' hd' i hi hp => hM.tables hd' hi hp
  · change ∀ f, (s₁.pageinfos f).has PG_FREE = true → _
    rw [hrest.pageinfos]
    exact h.free
  · exact fun f q' i hlive k hk hp => hM.pages hlive hk hp
  · intro f idx hidx
    change ∃ frame k, Targets g (s₁.rmapManager.RMapStart idx) frame k ∧ _
    rw [hrest.rmapManager]
    exact hM.mapped hidx
  · intro hfailed
    exact absurd hfailed (by simp)
  · change ∀ f, ∀ idx ∈ g.chain f, ∀ j ∈ g.chain f, (s₁.rmapManager.RMapStart idx).ptePaddr =
      (s₁.rmapManager.RMapStart j).ptePaddr → _
    rw [hrest.rmapManager]
    exact h.unique
  · intro hfailed
    exact absurd hfailed (by simp)
  · refine ⟨rfl, fun q' d' hd' n' hn' hne => hM.keeps hd' hn' hne, fun f hf => ⟨hf, hM.rewritten.pages f hf⟩,
      fun f idx hidx => ⟨hidx, ?_⟩, fun _ _ _ hf => Or.inl hf, hrest.tlb, fun hfailed => absurd hfailed (by simp),
      hrest.cr3, hrest.programs, hrest.running⟩
    change (s₁.rmapManager.RMapStart idx).target = _
    rw [hrest.rmapManager]

end Mapping

/-- The reverse mapping `idx` of the new entry of page `n` is in the manager `r`, and nothing else is new there. -/
structure Attached (s : Kernel) (g : Ghost) (q d n idx : Nat) (r : RMapManager) : Prop where
  fresh : ∀ f, idx ∉ g.chain f
  kept : ∀ j, j ≠ idx → r.RMapStart j = s.rmapManager.RMapStart j
  target : Targets g (r.RMapStart idx) (frameOf (s.mem d (n / 1024))) (n % 1024)
  owner : (r.RMapStart idx).owner = q
  attachFailed : r.attachFailed = s.rmapManager.attachFailed

namespace Attached

variable {f i j k idx q' : Nat} {r : RMapManager}

theorem kept_of_mem (ha : Attached s g q d n idx r) (hj : j ∈ g.chain f) :
    r.RMapStart j = s.rmapManager.RMapStart j :=
  ha.kept j fun he => ha.fresh f (he ▸ hj)

theorem chain_cases (hj : j ∈ (g.setChain (frameOf w) (idx :: g.chain (frameOf w))).chain f) :
    (f = frameOf w ∧ j = idx) ∨ j ∈ g.chain f := by
  rcases Ghost.mem_setChain.mp hj with ⟨rfl, hj'⟩ | ⟨-, hj'⟩
  · exact (List.mem_cons.mp hj').imp (fun he => ⟨rfl, he⟩) id
  · exact Or.inr hj'

theorem mem_chain (hj : j ∈ g.chain f) : j ∈ (g.setChain (frameOf w) (idx :: g.chain (frameOf w))).chain f := by
  refine Ghost.mem_setChain.mpr ?_
  by_cases hfw : f = frameOf w
  · exact Or.inl ⟨hfw, List.mem_cons_of_mem _ (hfw ▸ hj)⟩
  · exact Or.inr ⟨hfw, hj⟩

theorem mapped (ha : Attached s g q d n idx r) (hM : Mapping s s₁ g q d n w)
    (hj : j ∈ (g.setChain (frameOf w) (idx :: g.chain (frameOf w))).chain f) :
    ∃ frame k, Targets (g.setChain (frameOf w) (idx :: g.chain (frameOf w))) (r.RMapStart j) frame k ∧
      present (s₁.mem frame k) = true ∧ frameOf (s₁.mem frame k) = f := by
  rcases chain_cases hj with ⟨rfl, rfl⟩ | hj
  · exact ⟨_, _, ha.target.setChain _ _, hM.rewritten.self ▸ hM.isPresent, congrArg frameOf hM.rewritten.self⟩
  · obtain ⟨frame, k, htarget, hp⟩ := hM.mapped hj
    exact ⟨frame, k, (htarget.setChain _ _).congr (congrArg _ (ha.kept_of_mem hj)), hp⟩

theorem listed (ha : Attached s g q d n idx r) (hM : Mapping s s₁ g q d n w) (hfailed : r.attachFailed = false)
    (hlive : g.Live f q' i) (hk : k < 1024) (hp : present (s₁.mem f k) = true) :
    ∃ j ∈ (g.setChain (frameOf w) (idx :: g.chain (frameOf w))).chain (frameOf (s₁.mem f k)),
      Targets (g.setChain (frameOf w) (idx :: g.chain (frameOf w))) (r.RMapStart j) f k := by
  rcases hM.entry_cases hlive.1 k with ⟨rfl, rfl, hw⟩ | ⟨-, hsame⟩
  · refine ⟨idx, ?_, ha.target.setChain _ _⟩
    rw [hw]
    exact Ghost.mem_setChain.mpr (Or.inl ⟨rfl, List.mem_cons_self⟩)
  · rw [hsame] at hp ⊢
    obtain ⟨j, hj, htarget⟩ := hM.spaces.listed (ha.attachFailed ▸ hfailed) f q' i hlive k hk hp
    exact ⟨j, mem_chain hj, (htarget.setChain _ _).congr (congrArg _ (ha.kept_of_mem hj))⟩

theorem unique (ha : Attached s g q d n idx r) (hM : Mapping s s₁ g q d n w)
    (hi : i ∈ (g.setChain (frameOf w) (idx :: g.chain (frameOf w))).chain f)
    (hj : j ∈ (g.setChain (frameOf w) (idx :: g.chain (frameOf w))).chain f)
    (he : (r.RMapStart i).ptePaddr = (r.RMapStart j).ptePaddr) : i = j := by
  have haddr := ha.target.ptePaddr
  rcases chain_cases hi with ⟨-, hi'⟩ | hi'
  · rcases chain_cases hj with ⟨-, hj'⟩ | hj'
    · rw [hi', hj']
    · subst hi'
      refine absurd ?_ (hM.ptePaddr_ne hj')
      rw [← ha.kept_of_mem hj', ← haddr]
      exact he.symm
  · rcases chain_cases hj with ⟨-, hj'⟩ | hj'
    · subst hj'
      refine absurd ?_ (hM.ptePaddr_ne hi')
      rw [← ha.kept_of_mem hi', ← haddr]
      exact he
    · refine hM.spaces.unique f i hi' j hj' ?_
      rw [← ha.kept_of_mem hi', ← ha.kept_of_mem hj']
      exact he

/-- A page that can be written has one reverse mapping: a new writable entry is the first of its frame, and
where an entry is writable its frame is not that of the new one. -/
theorem exclusive (ha : Attached s g q d n idx r) (hM : Mapping s s₁ g q d n w)
    (hnew : writable w = true → g.chain (frameOf w) = [])
    (hexcl : s.rmapManager.attachFailed = false → ∀ frame q' i, g.Live frame q' i → ∀ k, k < 1024 →
      present (s.mem frame k) = true → frameOf (s.mem frame k) = frameOf w → writable (s.mem frame k) = false)
    (hfailed : r.attachFailed = false) (hlive : g.Live f q' i) (hk : k < 1024)
    (hp : present (s₁.mem f k) = true) (hwritable : writable (s₁.mem f k) = true) :
    ((g.setChain (frameOf w) (idx :: g.chain (frameOf w))).chain (frameOf (s₁.mem f k))).length = 1 := by
  have hfailed₀ : s.rmapManager.attachFailed = false := ha.attachFailed ▸ hfailed
  rcases hM.entry_cases hlive.1 k with ⟨rfl, rfl, hw⟩ | ⟨-, hsame⟩
  · rw [hw] at hwritable ⊢
    have hempty := hnew hwritable
    simp [Ghost.setChain, hempty]
  · rw [hsame] at hp hwritable ⊢
    have hfw : frameOf (s.mem f k) ≠ frameOf w := fun he => by
      rw [hexcl hfailed₀ f q' i hlive k hk hp he] at hwritable
      exact absurd hwritable (by simp)
    simp only [Ghost.setChain, Function.update_of_ne hfw]
    exact hM.spaces.exclusive hfailed₀ f q' i hlive k hk hp hwritable

end Attached

/-- `attach` gives the new entry its reverse mapping. -/
theorem Mapping.attached {idx : Nat} (hM : Mapping s s₁ g q d n w)
    (hv : v = PTE_ANON_VADDR ∨ v = toPTE (n * 4096)) (hfresh : ∀ f, idx ∉ g.chain f) (extra : Nat) :
    Attached s g q d n idx (Kernel.attached s₁.rmapManager idx
      (slotAddr (frameOf (s.mem d (n / 1024))) (n % 1024)) v q extra) := by
  have hrmap := hM.rest.rmapManager
  refine ⟨hfresh, fun j hj => ?_, ?_, by simp [Kernel.attached], ?_⟩
  · rw [← hrmap]
    exact Function.update_of_ne hj _ _
  · have hn := hM.lt
    refine ⟨Nat.mod_lt _ (by decide), q, n / 1024, v, (hM.spaces.live hM.dir hM.lt hM.table).1, ?_, ?_, ?_⟩
    · rw [userPages] at hn
      omega
    · simp [Kernel.attached, RMapEntry.target]
    · have haddr : pageAddr (n / 1024) (n % 1024) = n * 4096 := by
        rw [pageAddr, Nat.div_add_mod']
      rw [haddr]
      exact hv
  · rw [← hrmap]
    rfl

/-- A page that was absent is mapped by the entry `w` and a reverse mapping is made for it. -/
theorem mapPage_spec (h : Spaces s g) (hdir : g.dirs q = some d) (hn : n < userPages)
    (htable : present (s.mem d (n / 1024)) = true) (habsent : present (s.pageEntry d n) = false)
    (hw : present w = true) (hpage : g.role (frameOf w) = .page)
    (hnew : writable w = true → g.chain (frameOf w) = [])
    (hexcl : s.rmapManager.attachFailed = false → ∀ frame q' i, g.Live frame q' i → ∀ k, k < 1024 →
      present (s.mem frame k) = true → frameOf (s.mem frame k) = frameOf w → writable (s.mem frame k) = false)
    (hv : v = PTE_ANON_VADDR ∨ v = toPTE (n * 4096)) (hrest : SameRest s s₁)
    (hmem : ∃ count, s₁.mem = mappedMem s d n w count) {res : Option Nat}
    (hattach : s₁.attach (frameOf w) (slotAddr (frameOf (s.mem d (n / 1024))) (n % 1024)) v q =
      .ret (res, s')) :
    ∃ g', Spaces s' g' ∧ Grows (fun d' n' => d' = d ∧ n' = n) s s' g g' ∧ s'.pageEntry d n = w ∧
      s'.mem = s₁.mem ∧ s'.tlb = s₁.tlb ∧
      ∀ f, ∀ j ∈ g'.chain f, j ∈ g.chain f ∨ f = frameOf w ∧ (s'.rmapManager.RMapStart j).owner = q := by
  obtain ⟨count, hmem⟩ := hmem
  have hm := mappedMem_spec h hdir hn htable hmem
  have hM : Mapping s s₁ g q d n w := ⟨h, hdir, hn, htable, habsent, hw, hpage, hrest, hm⟩
  have hself := hm.pageEntry_self hdir htable
  cases res with
  | none =>
      obtain rfl := attach_none hattach
      obtain ⟨hspaces, hgrows⟩ := hM.refused
      exact ⟨g, hspaces, hgrows, hself, rfl, rfl, fun _ _ hj => Or.inl hj⟩
  | some idx =>
      obtain ⟨hfresh, hchains⟩ := attach_some hattach hM.chains hpage
      obtain ⟨-, -, rfl⟩ := attach_eq hattach
      generalize hextra : (s₁.pageinfos (frameOf w)).extra = extra at *
      have ha := hM.attached hv hfresh extra
      generalize attached s₁.rmapManager idx (slotAddr (frameOf (s.mem d (n / 1024))) (n % 1024)) v q extra = r
        at *
      refine ⟨g.setChain (frameOf w) (idx :: g.chain (frameOf w)),
        { toChains := hchains, dir := h.dir, table := ?_, free := ?_, page := ?_, mapped := ?_, listed := ?_,
          unique := ?_, exclusive := ?_ }, ?_, hself, rfl, rfl, fun f j hj => ?_⟩
      · exact fun q' d' hd' i hi hp => hM.tables hd' hi hp
      · intro f hf
        refine h.free f ?_
        rw [← hrest.pageinfos]
        by_cases hfw : f = frameOf w
        · subst hfw
          simpa [setInfo, PageInfo.has] using hf
        · simpa [setInfo, Function.update_of_ne hfw] using hf
      · exact fun f q' i hlive k hk hp => hM.pages hlive hk hp
      · exact fun f j hj => (ha.mapped hM hj :)
      · exact fun hfailed f q' i hlive k hk hp => (ha.listed hM hfailed hlive hk hp :)
      · exact fun f i hi j hj he => ha.unique hM hi hj he
      · exact fun hfailed f q' i hlive k hk hp hwritable =>
          (ha.exclusive hM hnew hexcl hfailed hlive hk hp hwritable :)
      · exact ⟨rfl, fun q' d' hd' n' hn' hne => hM.keeps hd' hn' hne, fun f hf => ⟨hf, hm.pages f hf⟩,
          fun f j hj => ⟨Attached.mem_chain hj, congrArg RMapEntry.target (ha.kept_of_mem hj)⟩,
          fun _ _ _ hf => Or.inl hf, hrest.tlb, fun hfailed => ha.attachFailed ▸ hfailed, hrest.cr3, hrest.programs,
          hrest.running⟩
      · rcases Attached.chain_cases hj with ⟨hf, hj'⟩ | hj'
        · exact Or.inr ⟨hf, hj' ▸ ha.owner⟩
        · exact Or.inl hj'

end

end SysuOs
