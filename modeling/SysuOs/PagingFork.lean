import Mathlib
import SysuOs.PagingGrow

/-! `fork`: every page of the parent that is present is shared with the child, read only and for copy on
write. The loop over the pages is followed page by page. -/

namespace SysuOs

open Kernel Flags

variable {s s' : Kernel} {g : Ghost} {q d n f owner : Nat}

theorem sharedEntry_spec (hf : f < 2 ^ 20) : present (sharedEntry (f * 4096)) = true ∧
    cow (sharedEntry (f * 4096)) = true ∧ writable (sharedEntry (f * 4096)) = false ∧
    frameOf (sharedEntry (f * 4096)) = f := by
  have hlt : f * 4096 < 2 ^ 32 := by omega
  have halign : f * 4096 % 4096 = 0 := Nat.mul_mod_left _ _
  refine ⟨?_, ?_, writable_sharedEntry _, ?_⟩
  · rw [present, hasFlag_sharedEntry hlt halign _ (by decide) (by decide)]
    decide
  · rw [cow, hasFlag_sharedEntry hlt halign _ (by decide) (by decide)]
    decide
  · rw [frameOf, getAddress_sharedEntry hlt halign, PA2PGI, Nat.mul_div_cancel _ (by decide)]

/-- The memory once an entry is set and counted. -/
theorem setPte_pdeInc_mem (hne : d ≠ frameOf (s.mem d (n / 1024))) (w : Word) :
    ((s.setPte d (n * 4096) w).pdeInc d (n * 4096)).mem =
      mappedMem s d n w (min (pdeGetCount (s.mem d (n / 1024)) + 1) 7) := by
  have hpde : (s.setPte d (n * 4096) w).pde d (n * 4096) = s.mem d (n / 1024) := by
    simp only [pde, setPte, setWord, table, pdeIdx_page]
    exact congrFun (Function.update_of_ne hne _ _) _
  rw [pdeInc, hpde]
  simp only [setPte, setPde, setWord, table, pde, pdeIdx_page, pteIdx_page, mappedMem, frameOf]
  congr 1
  exact congrArg (fun row => Function.update row _ _) (Function.update_of_ne hne _ _)

theorem setPte_pdeInc_rest (s : Kernel) (d vaddr : Nat) (w : Word) :
    SameRest s ((s.setPte d vaddr w).pdeInc d vaddr) :=
  ⟨rfl, rfl, rfl, rfl, rfl, fun _ hc => hc⟩

theorem slot_ptePaddr (hne : d ≠ frameOf (s.mem d (n / 1024))) (w : Word) :
    ((s.setPte d (n * 4096) w).pdeInc d (n * 4096)).ptePaddr d (n * 4096) =
      slotAddr (frameOf (s.mem d (n / 1024))) (n % 1024) := by
  rw [ptePaddr, getAddress_eq_frame, pde, setPte_pdeInc_mem hne, pdeIdx_page, pteIdx_page, mappedMem,
    Function.update_self, Function.update_self, frameOf_setCount, slotAddr]

/-- The address `setupCOWPages` attaches a page with. -/
theorem setupPteVaddr_eq (s : Kernel) (vaddr owner : Nat) :
    s.setupPteVaddr vaddr owner = PTE_ANON_VADDR ∨ s.setupPteVaddr vaddr owner = toPTE vaddr := by
  rw [setupPteVaddr]
  split
  · split
    · exact Or.inr rfl
    · exact Or.inl rfl
  · exact Or.inl rfl

/-- Nothing changes in a frame that is used, but for the directory `d`, nor in the reverse mappings or the MMU. -/
structure Quiet (s s' : Kernel) (g g' : Ghost) (d : Nat) : Prop where
  chain : g'.chain = g.chain
  rmapManager : s'.rmapManager = s.rmapManager
  tlb : s'.tlb = s.tlb
  mem : ∀ f, g.role f ≠ .free → f ≠ d → s'.mem f = s.mem f

/-- There is a page table afterwards; a new one takes no page and no reverse mapping. -/
theorem setupTable_spec (h : Spaces s g) (hdir : g.dirs q = some d)
    (hcall : s.setupTable d (n * 4096) = .ret (true, s')) :
    ∃ g', Spaces s' g' ∧ Grows (fun _ _ => False) s s' g g' ∧ Quiet s s' g g' d ∧
      present (s'.mem d (n / 1024)) = true := by
  rw [setupTable, pde, pdeIdx_page] at hcall
  split at hcall
  · rename_i hpresent
    simp only [Outcome.pure_eq, Outcome.ret.injEq, Prod.mk.injEq, true_and] at hcall
    subst hcall
    exact ⟨g, h, Grows.refl _ _ _, ⟨rfl, rfl, rfl, fun _ _ _ => rfl⟩, hpresent⟩
  · rename_i hpresent
    obtain ⟨⟨page, s₀⟩, halloc, hcall⟩ := Outcome.bind_eq_ret hcall
    dsimp only at hcall
    split at hcall
    · simp at hcall
    · rename_i hne
      simp only [Outcome.pure_eq, Outcome.ret.injEq, Prod.mk.injEq, true_and] at hcall
      subst hcall
      have habsent : present (s.mem d (pdeIdx (n * 4096))) = false := by
        rw [pdeIdx_page]
        exact Bool.eq_false_iff.mpr hpresent
      obtain ⟨h', hgrows, hlinked⟩ := linkTable_spec h hdir habsent halloc hne
      obtain ⟨htlb, hr, hmem⟩ := @linkTable_quiet _ _ _ d (n * 4096) _ h halloc hne
      rw [pdeIdx_page] at hlinked
      exact ⟨_, h', hgrows, ⟨rfl, hr, htlb, hmem⟩, hlinked⟩

/-- `setCOW` goes along the reverse mappings of a page if there are any. -/
theorem setCOW_res {res : Bool} (h : Spaces s g) (hpage : g.role f = .page)
    (hcall : s.setCOW f = .ret (res, s')) : res = true ↔ g.chain f ≠ [] := by
  have href := h.ref f hpage
  have hwalk := h.walk f hpage
  have hfree : (s.pageinfos f).has PG_FREE = false := by
    by_contra hfree
    rw [h.free f (Bool.of_not_eq_false hfree)] at hpage
    cases hpage
  rw [setCOW, hfree] at hcall
  rw [if_neg Bool.false_ne_true] at hcall
  by_cases hzero : (s.pageinfos f).ref = 0
  · rw [if_pos hzero] at hcall
    obtain ⟨rfl, -⟩ := Prod.mk.inj (Outcome.ret.inj hcall)
    rw [hzero] at href
    simp [List.eq_nil_of_length_eq_zero href.symm]
  · rw [if_neg hzero] at hcall
    have hchain : g.chain f ≠ [] := by
      intro hnil
      rw [hnil] at href
      exact hzero href
    have hextra : (s.pageinfos f).extra ≠ 0 := by
      intro hextra
      rw [hextra, link_zero] at hwalk
      cases hl : g.chain f with
      | nil => exact hchain hl
      | cons idx l =>
          rw [hl] at hwalk
          cases hwalk.1
    rw [if_neg (by simp [hextra])] at hcall
    obtain ⟨s₁, -, hret⟩ := Outcome.bind_eq_ret hcall
    obtain ⟨rfl, -⟩ := Prod.mk.inj (Outcome.ret.inj hret)
    exact iff_of_true rfl hchain

theorem attach_pool {a v : Nat} {idx : Option Nat} (h : s.attach f a v q = .ret (idx, s')) :
    s'.kernelPhysical = s.kernelPhysical := by
  cases idx with
  | none => rw [attach_none h]
  | some idx => rw [(attach_eq h).2.2, setInfo]

/-- Page `n` of the directory `d` is the only one that changes, and a new reverse mapping is one of the frame `f`
and of the process `q`. -/
structure AddsPage (s s' : Kernel) (g g' : Ghost) (d n q f : Nat) : Prop where
  tlb : s'.tlb = s.tlb
  chain : ∀ f', ∀ idx ∈ g'.chain f', idx ∈ g.chain f' ∨ f' = f ∧ (s'.rmapManager.RMapStart idx).owner = q
  pde : ∀ q' d', g.dirs q' = some d' → ∀ i, present (s'.mem d' i) = present (s.mem d' i) ∧
    frameOf (s'.mem d' i) = frameOf (s.mem d' i)
  entry : ∀ q' d', g.dirs q' = some d' → ∀ n', n' < userPages → ¬ (d' = d ∧ n' = n) →
    s'.pageEntry d' n' = s.pageEntry d' n'

/-- An iteration of `setupCOWPages` that shares the frame `f`: there is a page table (`s₁`), the entries of the page
are downgraded, and the page is mapped. -/
structure PageShared (s s₁ s' : Kernel) (g g₁ g' : Ghost) (d n q f : Nat) : Prop where
  table : s.setupTable d (n * 4096) = .ret (true, s₁)
  mapped : g.chain f ≠ []
  spaces₁ : Spaces s₁ g₁
  grows₁ : Grows (fun _ _ => False) s s₁ g g₁
  quiet : Quiet s s₁ g g₁ d
  spaces : Spaces s' g'
  grows : Grows (fun d' n' => d' = d ∧ n' = n) (s₁.downgraded (g₁.chain f)) s' g₁ g'
  adds : AddsPage (s₁.downgraded (g₁.chain f)) s' g₁ g' d n q f
  entry : s'.pageEntry d n = sharedEntry (f * 4096)
  pool : s'.kernelPhysical = s₁.kernelPhysical

theorem setupCOWPage_steps (h : Spaces s g) (hdir : g.dirs q = some d) (hn : n < userPages)
    (habsent : present (s.pageEntry d n) = false) (hf : f < 2 ^ 20) (hpage : g.role f = .page)
    (hcall : s.setupCOWPage d (f * 4096) (n * 4096) q = .ret (true, s')) :
    ∃ s₁ g₁ g', PageShared s s₁ s' g g₁ g' d n q f := by
  obtain ⟨hsp, hsc, hsw, hsf⟩ := sharedEntry_spec hf
  have hpgi : PA2PGI (f * 4096) = f := by rw [PA2PGI, Nat.mul_div_cancel _ (by decide)]
  rw [setupCOWPage] at hcall
  obtain ⟨⟨res₁, s₁⟩, htable, hcall⟩ := Outcome.bind_eq_ret hcall
  cases res₁ with
  | false => simp at hcall
  | true =>
      dsimp only at hcall
      obtain ⟨⟨res₂, s₂⟩, hcow, hcall⟩ := Outcome.bind_eq_ret hcall
      cases res₂ with
      | false => simp at hcall
      | true =>
          dsimp only at hcall
          obtain ⟨⟨idx, s₃⟩, hattach, hcall⟩ := Outcome.bind_eq_ret hcall
          simp only [Outcome.pure_eq, Outcome.ret.injEq, Prod.mk.injEq, true_and] at hcall
          subst hcall
          rw [hpgi] at hcow hattach
          obtain ⟨g₁, h₁, hgrows₁, hquiet, hpresent₁⟩ := setupTable_spec h hdir htable
          have hpage₁ := (hgrows₁.pages f hpage).1
          have hdir₁ : g₁.dirs q = some d := by rw [hgrows₁.dirs]; exact hdir
          have hmapped : g₁.chain f ≠ [] := (setCOW_res h₁ hpage₁ hcow).mp rfl
          have hs₂ := setCOW_eq hcow h₁.toChains hpage₁
          rw [if_pos rfl] at hs₂
          subst hs₂
          obtain ⟨h₂, hgrows₂⟩ := h₁.downgrade f
          have hmemd : (s₁.downgraded (g₁.chain f)).mem d = s₁.mem d := h₁.downgraded_dir hdir₁
          have hpresent₂ : present ((s₁.downgraded (g₁.chain f)).mem d (n / 1024)) = true := by
            rw [hmemd]
            exact hpresent₁
          have hne : d ≠ frameOf ((s₁.downgraded (g₁.chain f)).mem d (n / 1024)) := fun he => by
            have hrole := (h₂.live hdir₁ hn hpresent₂).1
            rw [← he, h₂.dir q d hdir₁] at hrole
            exact absurd hrole (by simp)
          have habsent₂ : present ((s₁.downgraded (g₁.chain f)).pageEntry d n) = false := by
            rw [(hgrows₂.keeps q d hdir₁ n hn (by simp)).present, (hgrows₁.keeps q d hdir n hn (by simp)).present]
            exact habsent
          rw [slot_ptePaddr hne] at hattach
          have hreadOnly : (s₁.downgraded (g₁.chain f)).rmapManager.attachFailed = false →
              ∀ frame q' i, g₁.Live frame q' i → ∀ k, k < 1024 →
                present ((s₁.downgraded (g₁.chain f)).mem frame k) = true →
                frameOf ((s₁.downgraded (g₁.chain f)).mem frame k) = f →
                writable ((s₁.downgraded (g₁.chain f)).mem frame k) = false := by
            intro hfailed frame q' i hlive k hk hp hframe
            rw [h₁.downgraded_present] at hp
            rw [h₁.downgraded_frameOf] at hframe
            rw [← hframe, h₁.downgraded_entry hfailed hlive hk hp, writable_cowEntry]
          generalize hshared : sharedEntry (f * 4096) = w at *
          subst hsf
          obtain ⟨g', h', hgrows', hself, hmem', htlb', hchain'⟩ :=
            mapPage_spec h₂ hdir₁ hn hpresent₂ habsent₂ hsp hpage₁
              (fun hw => absurd (hsw.symm.trans hw) (by simp)) hreadOnly (setupPteVaddr_eq _ _ _)
              (setPte_pdeInc_rest _ _ _ _) ⟨_, setPte_pdeInc_mem hne _⟩ hattach
          have hrewritten := mappedMem_spec h₂ hdir₁ hn hpresent₂ (hmem'.trans (setPte_pdeInc_mem hne w))
          have hadds : AddsPage (s₁.downgraded (g₁.chain (frameOf w))) s₃ g₁ g' d n q (frameOf w) := by
            refine ⟨htlb', hchain', hrewritten.pde, ?_⟩
            intro q' d' hd' n' hn' hother
            exact hrewritten.pageEntry_other h₂ hdir₁ hn hpresent₂ hd' hn' hother
          exact ⟨s₁, g₁, g', htable, hquiet.chain ▸ hmapped, h₁, hgrows₁, hquiet, h', hgrows', hadds,
            hself.trans hshared.symm, (attach_pool hattach).trans rfl⟩

/-- An iteration of `setupCOWPages` takes no page from any process. -/
theorem setupCOWPage_spec (h : Spaces s g) (hdir : g.dirs q = some d) (hn : n < userPages)
    (habsent : present (s.pageEntry d n) = false) (hf : f < 2 ^ 20) (hpage : g.role f = .page)
    (hcall : s.setupCOWPage d (f * 4096) (n * 4096) q = .ret (true, s')) :
    ∃ g', Spaces s' g' ∧ Grows (fun d' n' => d' = d ∧ n' = n) s s' g g' ∧
      s'.pageEntry d n = sharedEntry (f * 4096) := by
  obtain ⟨s₁, g₁, g', hshared⟩ := setupCOWPage_steps h hdir hn habsent hf hpage hcall
  refine ⟨g', hshared.spaces, ?_, hshared.entry⟩
  refine ((hshared.grows₁.trans (hshared.spaces₁.downgrade f).2).trans hshared.grows).mono fun d' n' hE => ?_
  rcases hE with (hE | hE) | hE
  · exact absurd hE (by simp)
  · exact absurd hE (by simp)
  · exact hE

/-! ### The loop of `copyProcess` -/

/-- The first page that `copyProcess` looks at. -/
def startPage : Nat := USER_VADDR_START / 4096

theorem setupCOWPages_one {paddr vaddr : Nat} {res : Bool}
    (h : s.setupCOWPages d paddr vaddr 1 owner = .ret (res, s')) :
    ∃ s₁, s.setupCOWPage d paddr vaddr owner = .ret (res, s₁) ∧ s' = s₁ := by
  rw [setupCOWPages] at h
  obtain ⟨-, -, h⟩ := Outcome.bind_eq_ret h
  obtain ⟨-, -, h⟩ := Outcome.bind_eq_ret h
  rw [setupCOWLoop] at h
  simp only [Nat.zero_mul, Nat.add_zero] at h
  obtain ⟨⟨ok, s₁⟩, hpage, h⟩ := Outcome.bind_eq_ret h
  cases ok with
  | true =>
      simp only [setupCOWLoop, Outcome.pure_eq, Outcome.ret.injEq, Prod.mk.injEq] at h
      exact ⟨s₁, by rw [hpage, h.1], h.2.symm⟩
  | false =>
      simp only [rollbackCOWSetup, Outcome.pure_eq, Outcome.ret_bind, Outcome.ret.injEq,
        Prod.mk.injEq] at h
      exact ⟨s₁, by rw [hpage, h.1], h.2.symm⟩

theorem setupCOWPages_of_page {paddr vaddr : Nat} (hpaddr : paddr % 4096 = 0) (hvaddr : vaddr % 4096 = 0)
    (h : s.setupCOWPage d paddr vaddr owner = .ret (true, s')) :
    s.setupCOWPages d paddr vaddr 1 owner = .ret (true, s') := by
  rw [setupCOWPages, Outcome.ASSERT_pos hpaddr, Outcome.ret_bind, Outcome.ASSERT_pos hvaddr,
    Outcome.ret_bind, setupCOWLoop]
  simp only [Nat.zero_mul, Nat.add_zero, h, Outcome.ret_bind]
  rfl

/-- What holds before the loop of `copyProcess` and is kept by every page it passes holds after it, or up to a
page that cannot be shared. -/
theorem copyLoop_cases {P : Nat → Kernel → Ghost → Prop} {res : Bool}
    (hskip : ∀ n s g, n < userPages → P n s g → present (s.pageEntry s.cr3 n) = false → P (n + 1) s g)
    (hshare : ∀ n s g s₁, n < userPages → P n s g → present (s.pageEntry s.cr3 n) = true →
      s.setupCOWPage d (frameOf (s.pageEntry s.cr3 n) * 4096) (n * 4096) owner = .ret (true, s₁) →
        ∃ g₁, P (n + 1) s₁ g₁)
    (fuel : Nat) (hn : n ≤ userPages) (hP : P n s g)
    (hloop : copyLoop d owner fuel (n * 4096) s = .ret (res, s')) :
    (res = true ∧ ∃ g', P userPages s' g') ∨
      (res = false ∧ ∃ n t gt t', n < userPages ∧ P n t gt ∧ present (t.pageEntry t.cr3 n) = true ∧
        t.setupCOWPage d (frameOf (t.pageEntry t.cr3 n) * 4096) (n * 4096) owner = .ret (false, t') ∧
        rollbackLoop d owner (n * 4096) (USER_VADDR_END / 4096 + 2) USER_VADDR_START t' = .ret s') := by
  induction fuel generalizing n s g with
  | zero => simp [copyLoop] at hloop
  | succ fuel ih =>
      have hnext : n * 4096 + 4096 = (n + 1) * 4096 := by omega
      rw [copyLoop, hnext] at hloop
      by_cases hlast : n * 4096 < USER_VADDR_END
      · rw [if_pos hlast] at hloop
        have hlt : n < userPages := by
          simp only [USER_VADDR_END] at hlast
          rw [userPages]
          omega
        split at hloop
        · rename_i hpde
          refine ih hlt (hskip n s g hlt hP ?_) hloop
          rw [pageEntry_of_absent]
          · exact present_zero
          · rw [← pdeIdx_page]
            exact (Bool.not_eq_true' _).mp hpde
        · rename_i hpde
          have hpde' : present (s.pde s.cr3 (n * 4096)) = true :=
            Bool.of_not_eq_false fun he => hpde ((Bool.not_eq_true' _).mpr he)
          have hentry : s.pte s.cr3 (n * 4096) = s.pageEntry s.cr3 n := by
            rw [pte_eq_pageEntry hpde', Nat.mul_div_cancel _ (by decide)]
          rw [hentry] at hloop
          split at hloop
          · rename_i hpte
            exact ih hlt (hskip n s g hlt hP ((Bool.not_eq_true' _).mp hpte)) hloop
          · rename_i hpte
            have hpresent : present (s.pageEntry s.cr3 n) = true :=
              Bool.of_not_eq_false fun he => hpte ((Bool.not_eq_true' _).mpr he)
            obtain ⟨⟨ok, s₁⟩, hsetup, hloop⟩ := Outcome.bind_eq_ret hloop
            obtain ⟨s₂, hpage, rfl⟩ := setupCOWPages_one hsetup
            rw [getAddress_eq_frame] at hpage
            cases ok with
            | false =>
                dsimp only at hloop
                obtain ⟨s₃, hrollback, hloop⟩ := Outcome.bind_eq_ret hloop
                simp only [Outcome.pure_eq, Outcome.ret.injEq, Prod.mk.injEq] at hloop
                obtain ⟨rfl, rfl⟩ := hloop
                exact Or.inr ⟨rfl, n, s, g, s₁, hlt, hP, hpresent, hpage, hrollback⟩
            | true =>
                obtain ⟨g₁, hP₁⟩ := hshare n s g s₁ hlt hP hpresent hpage
                exact ih hlt hP₁ hloop
      · rw [if_neg hlast] at hloop
        simp only [Outcome.pure_eq, Outcome.ret.injEq, Prod.mk.injEq] at hloop
        have hn' : n = userPages := by
          simp only [USER_VADDR_END] at hlast
          rw [userPages] at hn ⊢
          omega
        exact Or.inl ⟨hloop.1.symm, g, hloop.2 ▸ hn' ▸ hP⟩

theorem copyLoop_rule {P : Nat → Kernel → Ghost → Prop}
    (hskip : ∀ n s g, n < userPages → P n s g → present (s.pageEntry s.cr3 n) = false → P (n + 1) s g)
    (hshare : ∀ n s g s₁, n < userPages → P n s g → present (s.pageEntry s.cr3 n) = true →
      s.setupCOWPage d (frameOf (s.pageEntry s.cr3 n) * 4096) (n * 4096) owner = .ret (true, s₁) →
        ∃ g₁, P (n + 1) s₁ g₁)
    (fuel : Nat) (hn : n ≤ userPages) (hP : P n s g)
    (hloop : copyLoop d owner fuel (n * 4096) s = .ret (true, s')) : ∃ g', P userPages s' g' := by
  rcases copyLoop_cases hskip hshare fuel hn hP hloop with ⟨-, hall⟩ | ⟨hres, -⟩
  · exact hall
  · cases hres

/-- The loop of `copyProcess` passes the pages from `n` on if none is present. -/
theorem copyLoop_skip (fuel : Nat) (hn : n ≤ userPages) (hfuel : userPages < n + fuel)
    (habsent : ∀ n', n ≤ n' → n' < userPages → present (s.pageEntry s.cr3 n') = false) :
    copyLoop d owner fuel (n * 4096) s = .ret (true, s) := by
  induction fuel generalizing n with
  | zero => omega
  | succ fuel ih =>
      have hnext : n * 4096 + 4096 = (n + 1) * 4096 := by omega
      rw [copyLoop, hnext]
      by_cases hlast : n * 4096 < USER_VADDR_END
      · have hlt : n < userPages := by
          simp only [USER_VADDR_END] at hlast
          rw [userPages]
          omega
        have hrec := ih (n := n + 1) hlt (by omega) fun n' hn' => habsent n' (by omega)
        rw [if_pos hlast, hrec]
        split
        · rfl
        · rename_i hpde
          have hpde' : present (s.pde s.cr3 (n * 4096)) = true :=
            Bool.of_not_eq_false fun he => hpde ((Bool.not_eq_true' _).mpr he)
          have hentry : hasFlag (s.pte s.cr3 (n * 4096)) PTE_PRESENT = false := by
            rw [pte_eq_pageEntry hpde', Nat.mul_div_cancel _ (by decide)]
            exact habsent n (le_refl _) hlt
          rw [if_pos (by rw [hentry]; rfl)]
      · rw [if_neg hlast]
        rfl

/-- The entry `w'` of the child for the entry `w` of the parent. -/
structure ChildEntry (w w' : Word) : Prop where
  shared : present w = true →
    present w' = true ∧ cow w' = true ∧ writable w' = false ∧ frameOf w' = frameOf w
  empty : present w = false → w' = 0#32

theorem ChildEntry.keep {s s' : Kernel} {d n : Nat} {w : Word} (h : ChildEntry w (s.pageEntry d n))
    (hkeeps : Keeps s s' d n) : ChildEntry w (s'.pageEntry d n) := by
  rcases hkeeps with hsame | ⟨hpresent, hcow⟩
  · rw [hsame]
    exact h
  · rw [hcow]
    refine ⟨fun hp => ?_, fun hp => ?_⟩
    · obtain ⟨-, -, -, hf⟩ := h.shared hp
      simp [hpresent, hf]
    · rw [h.empty hp] at hpresent
      simp at hpresent

/-- The loop of `copyProcess` gives the child the pages of the parent from `startPage` on. -/
theorem copyLoop_spec {child p : Nat} (h : Spaces s g) (hdir : g.dirs child = some d)
    (hparent : g.dirs p = some s.cr3) (hne : p ≠ child)
    (hempty : ∀ n, n < userPages → s.pageEntry d n = 0#32) {fuel : Nat}
    (hloop : copyLoop d child fuel USER_VADDR_START s = .ret (true, s')) :
    ∃ g', Spaces s' g' ∧ Grows (fun d' _ => d' = d) s s' g g' ∧
      ∀ n, n < userPages → if startPage ≤ n then ChildEntry (s.pageEntry s.cr3 n) (s'.pageEntry d n)
        else s'.pageEntry d n = 0#32 := by
  have hcr3 : s.cr3 ≠ d := fun he => hne (h.dir_inj hparent (he ▸ hdir))
  have hrule := copyLoop_rule (d := d) (n := startPage) (s := s) (g := g)
    (P := fun n t gt => startPage ≤ n ∧ Spaces t gt ∧ Grows (fun d' _ => d' = d) s t g gt ∧
      ∀ n', n' < userPages → if startPage ≤ n' ∧ n' < n then
        ChildEntry (s.pageEntry s.cr3 n') (t.pageEntry d n') else t.pageEntry d n' = 0#32)
    ?_ ?_ fuel (by decide) ⟨le_refl _, h, Grows.refl _ _ _, fun n' hn' => ?_⟩ hloop
  · obtain ⟨g', -, h', hgrows, hchild⟩ := hrule
    refine ⟨g', h', hgrows, fun n hn => ?_⟩
    have hn' := hchild n hn
    simpa [hn] using hn'
  · -- a page that is not present is passed
    intro n t gt hn ⟨hstart, ht, hgrows, hchild⟩ habsent
    refine ⟨Nat.le_succ_of_le hstart, ht, hgrows, fun n' hn' => ?_⟩
    by_cases hnn : n' = n
    · subst hnn
      have hself := hchild n' hn'
      rw [if_neg (by omega)] at hself
      split
      · refine ⟨fun hp => ?_, fun _ => hself⟩
        have hcr3' : t.cr3 = s.cr3 := hgrows.cr3
        have hkeeps := hgrows.keeps p s.cr3 hparent n' hn' hcr3
        rw [hcr3', hkeeps.present, hp] at habsent
        exact absurd habsent (by simp)
      · exact hself
    · have hiff : (startPage ≤ n' ∧ n' < n + 1) ↔ (startPage ≤ n' ∧ n' < n) := by omega
      have hother := hchild n' hn'
      simp only [hiff]
      exact hother
  · -- a page that is present is shared
    intro n t gt t' hn ⟨hstart, ht, hgrows, hchild⟩ hpresent hpage
    have hcr3' : t.cr3 = s.cr3 := hgrows.cr3
    have hdirt : gt.dirs child = some d := by rw [hgrows.dirs]; exact hdir
    have hparentt : gt.dirs p = some t.cr3 := by rw [hgrows.dirs, hcr3']; exact hparent
    have hself := hchild n hn
    rw [if_neg (by omega)] at hself
    have hkeeps := hgrows.keeps p s.cr3 hparent n hn hcr3
    obtain ⟨gt', ht', hgrows', hentry⟩ := setupCOWPage_spec ht hdirt hn (by rw [hself]; exact present_zero)
      (frameOf_lt _) (ht.page_of_entry hparentt hn hpresent) hpage
    refine ⟨gt', Nat.le_succ_of_le hstart, ht',
      (hgrows.trans hgrows').mono fun d' n' hE => hE.elim id fun hE => hE.1, fun n' hn' => ?_⟩
    by_cases hnn : n' = n
    · subst hnn
      obtain ⟨hsp, hsc, hsw, hsf⟩ := sharedEntry_spec (frameOf_lt (t.pageEntry t.cr3 n'))
      rw [if_pos ⟨hstart, Nat.lt_succ_self _⟩, hentry]
      rw [hcr3', hkeeps.present] at hpresent
      refine ⟨fun _ => ⟨hsp, hsc, hsw, ?_⟩, fun hp => ?_⟩
      · rw [hsf, hcr3', hkeeps.frameOf]
      · rw [hpresent] at hp
        exact absurd hp (by simp)
    · have hold := hgrows'.keeps child d hdirt n' hn' fun hE => hnn hE.2
      have hother := hchild n' hn'
      have hiff : (startPage ≤ n' ∧ n' < n + 1) ↔ (startPage ≤ n' ∧ n' < n) := by omega
      simp only [hiff]
      by_cases hdone : startPage ≤ n' ∧ n' < n
      · rw [if_pos hdone] at hother ⊢
        exact hother.keep hold
      · rw [if_neg hdone] at hother ⊢
        rcases hold with hsame | ⟨hp, -⟩
        · rw [hsame, hother]
        · rw [hother] at hp
          simp at hp
  · rw [if_neg (by omega)]
    exact hempty n' hn'

/-! ### The address space of the child -/

/-- The process `pid` has the page directory in `frame`. -/
def Ghost.setDir (g : Ghost) (pid frame : Nat) : Ghost :=
  { g with role := Function.update g.role frame (.dir pid), dirs := Function.update g.dirs pid (some frame) }

/-- The processes that exist, and which of them runs; the page tables are theirs. -/
structure Procs (s : Kernel) (g : Ghost) : Prop where
  dirs : ∀ q, g.dirs q = (s.programs q).map PCB.pageDirectory
  alive : ∀ f q i, g.role f = .table q i → (g.dirs q).isSome = true
  pid : ∀ q program, s.programs q = some program → program.pid = q
  cr3 : ∀ q program, s.running = some q → s.programs q = some program → s.cr3 = program.pageDirectory

/-- What the other processes have is as before, and nothing of it is in `frame`. -/
structure Fresh (s s' : Kernel) (g : Ghost) (frame : Nat) : Prop where
  entries : ∀ q d, g.dirs q = some d → ∀ n, n < userPages → s'.pageEntry d n = s.pageEntry d n
  mem : ∀ f, f ≠ frame → s'.mem f = s.mem f
  free : g.role frame = .free
  rmapManager : s'.rmapManager = s.rmapManager
  cr3 : s'.cr3 = s.cr3
  programs : s'.programs = s.programs
  running : s'.running = s.running
  tlb : s'.tlb = s.tlb

/-- A new page directory has no user page. -/
theorem newDirectory_spec {child frame : Nat} (h : Spaces s g) (hdead : ∀ f i, g.role f ≠ .table child i)
    (hfresh : Fresh s s' g frame) (hpi : ∀ f, f ≠ frame → s'.pageinfos f = s.pageinfos f)
    (hinfo : (s'.pageinfos frame).has PG_FREE = false)
    (hempty : ∀ i, i < 768 → s'.mem frame i = 0#32) :
    Spaces s' (g.setDir child frame) ∧ ∀ n, n < userPages → s'.pageEntry frame n = 0#32 := by
  have hrole : ∀ f, g.role f ≠ .free → (g.setDir child frame).role f = g.role f :=
    fun f hf => Function.update_of_ne (fun he => hf (by rw [he]; exact hfresh.free)) _ _
  have hself : (g.setDir child frame).role frame = .dir child := Function.update_self _ _ _
  have hmem : ∀ f, g.role f ≠ .free → s'.mem f = s.mem f :=
    fun f hf => hfresh.mem f fun he => hf (by rw [he]; exact hfresh.free)
  have hdirs : ∀ q d, (g.setDir child frame).dirs q = some d →
      q = child ∧ d = frame ∨ q ≠ child ∧ g.dirs q = some d := fun q d hd => by
    by_cases hq : q = child
    · subst hq
      simp only [Ghost.setDir, Function.update_self, Option.some.injEq] at hd
      exact Or.inl ⟨rfl, hd.symm⟩
    · simp only [Ghost.setDir, Function.update_of_ne hq] at hd
      exact Or.inr ⟨hq, hd⟩
  have hlive : ∀ f q i, (g.setDir child frame).Live f q i → g.Live f q i := fun f q i hl => by
    have hf : f ≠ frame := fun he => by
      have hr := hl.1
      rw [he, hself] at hr
      exact absurd hr (by simp)
    have hr : g.role f = .table q i := by
      rw [← hl.1]
      exact (Function.update_of_ne hf _ _).symm
    refine ⟨hr, ?_⟩
    have hq : q ≠ child := fun he => hdead f i (he ▸ hr)
    have hsome := hl.2
    simp only [Ghost.setDir, Function.update_of_ne hq] at hsome
    exact hsome
  have hslot : ∀ f q i, (g.setDir child frame).Live f q i → s'.mem f = s.mem f := fun f q i hl =>
    hmem f (by rw [(hlive f q i hl).1]; simp)
  have htargets : ∀ e f k, Targets g e f k → Targets (g.setDir child frame) e f k := fun e f k ht => by
    obtain ⟨pid, i, v, hf, -⟩ := ht.table
    exact ht.mono (hrole f (by rw [hf]; simp))
  have habsent : ∀ i, i < 768 → present (s'.mem frame i) = false := fun i hi => by
    rw [hempty i hi]
    exact present_zero
  refine ⟨{ toChains := ?_, dir := ?_, table := ?_, free := ?_, page := ?_, mapped := ?_, listed := ?_,
            unique := ?_, exclusive := ?_ }, fun n hn => pageEntry_of_absent (habsent _ ?_)⟩
  · have hc : Chains s' (g.setRole frame (.dir child)) := h.toChains.setRole (by rw [hfresh.free]; simp)
      hfresh.rmapManager hpi (fun he => absurd he (by simp))
    exact ⟨hc.bound, hc.null, hc.walk, hc.ref, hc.used, hc.apart, hc.pages⟩
  · intro q d hd
    rcases hdirs q d hd with ⟨rfl, rfl⟩ | ⟨-, hd'⟩
    · exact hself
    · rw [hrole d (by rw [h.dir q d hd']; simp)]
      exact h.dir q d hd'
  · intro q d hd i hi hp
    rcases hdirs q d hd with ⟨rfl, rfl⟩ | ⟨-, hd'⟩
    · rw [habsent i hi] at hp
      exact absurd hp (by simp)
    · rw [hmem d (by rw [h.dir q d hd']; simp)] at hp ⊢
      have ht := h.table q d hd' i hi hp
      rw [hrole _ (by rw [ht]; simp)]
      exact ht
  · intro f hf
    have hne : f ≠ frame := fun he => by
      rw [he, hinfo] at hf
      exact absurd hf (by simp)
    rw [hpi f hne] at hf
    exact (Function.update_of_ne hne _ _).trans (h.free f hf)
  · intro f q i hl k hk hp
    rw [hslot f q i hl] at hp ⊢
    have hpage := h.page f q i (hlive f q i hl) k hk hp
    rw [hrole _ (by rw [hpage]; simp)]
    exact hpage
  · intro f idx hidx
    obtain ⟨t, k, htarget, hp, hf⟩ := h.mapped f idx hidx
    obtain ⟨pid, i, v, ht, -⟩ := htarget.table
    refine ⟨t, k, by rw [hfresh.rmapManager]; exact htargets _ _ _ htarget, ?_⟩
    rw [hmem t (by rw [ht]; simp)]
    exact ⟨hp, hf⟩
  · intro hfailed f q i hl k hk hp
    rw [hfresh.rmapManager] at hfailed ⊢
    rw [hslot f q i hl] at hp ⊢
    obtain ⟨idx, hidx, htarget⟩ := h.listed hfailed f q i (hlive f q i hl) k hk hp
    exact ⟨idx, hidx, htargets _ _ _ htarget⟩
  · rw [hfresh.rmapManager]
    exact h.unique
  · intro hfailed f q i hl k hk hp hw
    rw [hfresh.rmapManager] at hfailed
    rw [hslot f q i hl] at hp hw ⊢
    exact h.exclusive hfailed f q i (hlive f q i hl) k hk hp hw
  · rw [userPages] at hn
    omega

/-- `createProcessPageDirectory`, the user half of the directory being cleared again by `copyProcess`. -/
theorem createDirectory_spec {child frame : Nat} {s₁ : Kernel} (h : Spaces s g)
    (hdead : ∀ f i, g.role f ≠ .table child i)
    (hcreate : s.createProcessPageDirectory = .ret (some frame, s₁)) :
    Spaces (s₁.clearUserTables frame) (g.setDir child frame) ∧
      Fresh s (s₁.clearUserTables frame) g frame ∧
      ∀ n, n < userPages → (s₁.clearUserTables frame).pageEntry frame n = 0#32 := by
  rw [createProcessPageDirectory] at hcreate
  obtain ⟨⟨page, s₀⟩, halloc, hcreate⟩ := Outcome.bind_eq_ret hcreate
  dsimp only at hcreate
  split at hcreate
  · simp at hcreate
  rename_i hne
  simp only [Outcome.pure_eq, Outcome.ret.injEq, Prod.mk.injEq, Option.some.injEq] at hcreate
  obtain ⟨rfl, rfl⟩ := hcreate
  obtain ⟨-, hfree, s₂, hsame, rfl⟩ := allocatePageTable_spec halloc hne
  have hfreeRole := h.free _ hfree
  have hmem₂ : s₂.mem = s.mem := by rw [hsame.eq]
  have hrest : s₂.rmapManager = s.rmapManager ∧ s₂.pageinfos = s.pageinfos ∧ s₂.cr3 = s.cr3 ∧
      s₂.programs = s.programs ∧ s₂.running = s.running ∧ s₂.tlb = s.tlb := by
    rw [hsame.eq]
    exact ⟨rfl, rfl, rfl, rfl, rfl, rfl⟩
  obtain ⟨hr, hpi, hcr3, hprograms, hrunning, htlb⟩ := hrest
  generalize hrow : (fun i => if i < 768 then 0#32 else if i = 1023 then BitVec.ofNat 32 page ||| PDE_RESERVE
    else (s₂.setInfo (PA2PGI page) tableInfo).mem (s₂.setInfo (PA2PGI page) tableInfo).cr3 i) = row
  generalize hs' : clearUserTables { s₂.setInfo (PA2PGI page) tableInfo with
    mem := Function.update (s₂.setInfo (PA2PGI page) tableInfo).mem (PA2PGI page) row } (PA2PGI page) = s'
  have hmem : ∀ f, f ≠ PA2PGI page → s'.mem f = s.mem f := fun f hf => by
    rw [← hs']
    simp only [clearUserTables, Function.update_of_ne hf, setInfo, hmem₂]
  have hself : ∀ i, i < 768 → s'.mem (PA2PGI page) i = 0#32 := fun i hi => by
    rw [← hs']
    simp [clearUserTables, hi]
  have hfresh : Fresh s s' g (PA2PGI page) := by
    refine ⟨fun q d hd n hn => ?_, hmem, hfreeRole, ?_, ?_, ?_, ?_, ?_⟩
    · have hd' : s'.mem d = s.mem d := hmem d fun he => by
        have hrole := h.dir q d hd
        rw [he, hfreeRole] at hrole
        exact absurd hrole (by simp)
      by_cases hp : present (s.mem d (n / 1024)) = true
      · rw [pageEntry_of_present (hd' ▸ hp), pageEntry_of_present hp, hd', hmem]
        intro he
        have hrole := (h.live hd hn hp).1
        rw [he, hfreeRole] at hrole
        exact absurd hrole (by simp)
      · rw [pageEntry_of_absent (by rw [hd']; simpa using hp), pageEntry_of_absent (by simpa using hp)]
    all_goals rw [← hs']
    · exact hr
    · exact hcr3
    · exact hprograms
    · exact hrunning
    · exact htlb
  have hpi' : ∀ f, f ≠ PA2PGI page → s'.pageinfos f = s.pageinfos f := fun f hf => by
    rw [← hs']
    simp only [clearUserTables, setInfo, Function.update_of_ne hf, hpi]
  have hinfo : (s'.pageinfos (PA2PGI page)).has PG_FREE = false := by
    rw [← hs']
    simp only [clearUserTables, setInfo, Function.update_self]
    exact not_free_tableInfo
  obtain ⟨hspaces, hempty⟩ := newDirectory_spec h hdead hfresh hpi' hinfo hself
  exact ⟨hspaces, hfresh, hempty⟩

/-- What a successful `fork` leaves: the child, in the page directory `d`, shares the pages of the parent,
and no process has lost a page. -/
structure Forked (s s' : Kernel) (g g' : Ghost) (parent : PCB) (child d : Nat) : Prop where
  spaces : Spaces s' g'
  procs : Procs s' g'
  dirs : g'.dirs = Function.update g.dirs child (some d)
  programs : s'.programs = Function.update s.programs child
    (some { pid := child, pageDirectory := d, userVirtual := parent.userVirtual.cloneFrom child })
  child : ∀ n, n < userPages → if startPage ≤ n then
    ChildEntry (s.pageEntry parent.pageDirectory n) (s'.pageEntry d n) else s'.pageEntry d n = 0#32
  keeps : ∀ q d', g.dirs q = some d' → ∀ n, n < userPages → Keeps s s' d' n
  pages : ∀ f, g.role f = .page → g'.role f = .page ∧ s'.mem f = s.mem f
  cr3 : s'.cr3 = s.cr3
  running : s'.running = s.running
  attach : s'.rmapManager.attachFailed = false → s.rmapManager.attachFailed = false
  tlb : ∀ c ∈ s'.tlb, c ∈ s.tlb

theorem fork_spec {p child : Nat} {parent : PCB} {res : Nat} (h : Spaces s g) (hprocs : Procs s g)
    (hrunning : s.running = some p) (hparent : s.programs p = some parent)
    (hchild : s.programs child = none) (hfork : s.fork child = .ret (some res, s')) :
    res = child ∧ ∃ d g', Forked s s' g g' parent child d := by
  have hpcb : s.runningPCB = some parent := by rw [runningPCB, hrunning]; exact hparent
  rw [fork, hpcb] at hfork
  dsimp only at hfork
  obtain ⟨⟨frame, s₁⟩, hcreate, hfork⟩ := Outcome.bind_eq_ret hfork
  cases frame with
  | none => simp at hfork
  | some d =>
      dsimp only at hfork
      obtain ⟨⟨ok, s₂⟩, hcopy, hfork⟩ := Outcome.bind_eq_ret hfork
      cases ok with
      | false => simp at hfork
      | true =>
          simp only [Outcome.pure_eq, Outcome.ret.injEq, Prod.mk.injEq, Option.some.injEq] at hfork
          obtain ⟨rfl, rfl⟩ := hfork
          have hnone : g.dirs child = none := by rw [hprocs.dirs, hchild]; rfl
          have hdead : ∀ f i, g.role f ≠ .table child i := fun f i hf => by
            have hsome := hprocs.alive f child i hf
            rw [hnone] at hsome
            exact absurd hsome (by simp)
          obtain ⟨h₁, hfresh, hempty⟩ := createDirectory_spec h hdead hcreate
          have hne : p ≠ child := fun he => by
            rw [he, hchild] at hparent
            exact absurd hparent (by simp)
          have hdirp : g.dirs p = some parent.pageDirectory := by rw [hprocs.dirs, hparent]; rfl
          have hcr3 := hprocs.cr3 p parent hrunning hparent
          have hdirp₁ : (g.setDir child d).dirs p = some (s₁.clearUserTables d).cr3 := by
            rw [hfresh.cr3, hcr3, ← hdirp]
            exact Function.update_of_ne hne _ _
          have hdird : (g.setDir child d).dirs child = some d := Function.update_self _ _ _
          obtain ⟨g', h', hgrows, hentries⟩ := copyLoop_spec h₁ hdird hdirp₁ hne hempty hcopy
          have hold : ∀ q d', g.dirs q = some d' → (g.setDir child d).dirs q = some d' ∧ d' ≠ d :=
            fun q d' hd' => by
              have hq : q ≠ child := fun he => by
                rw [he, hnone] at hd'
                exact absurd hd' (by simp)
              refine ⟨(Function.update_of_ne hq _ _).trans hd', fun he => ?_⟩
              have hrole := h.dir q d' hd'
              rw [he, hfresh.free] at hrole
              exact absurd hrole (by simp)
          have hdirs' : g'.dirs = Function.update g.dirs child (some d) := hgrows.dirs
          have hprograms : s₂.programs = s.programs := hgrows.programs.trans hfresh.programs
          have hrole : ∀ f, g.role f ≠ .free → (g.setDir child d).role f = g.role f := fun f hf =>
            Function.update_of_ne (fun he => hf (by rw [he]; exact hfresh.free)) _ _
          refine ⟨rfl, d, g', h'.congr rfl rfl rfl, ?_, hdirs', congrArg (Function.update · child _) hprograms,
            fun n hn => ?_, fun q d' hd' n hn => ?_, fun f hf => ?_, hgrows.cr3.trans hfresh.cr3,
            hgrows.running.trans hfresh.running, fun hfailed => ?_, fun c hc => ?_⟩
          · refine ⟨fun q => ?_, fun f q i hf => ?_, fun q program hq => ?_, fun q program hrun hq => ?_⟩
            · change _ = ((Function.update s₂.programs child _) q).map _
              rw [hdirs', hprograms]
              by_cases hq : q = child
              · subst hq
                simp
              · simp only [Function.update_of_ne hq]
                exact hprocs.dirs q
            · rcases hgrows.tables f q i hf with hf' | hsome
              · have hfd : f ≠ d := fun he => by
                  rw [he] at hf'
                  exact absurd ((Function.update_self _ _ _).symm.trans hf') (by simp)
                have hsome := hprocs.alive f q i ((Function.update_of_ne hfd _ _).symm.trans hf')
                rw [hdirs']
                by_cases hq : q = child
                · subst hq
                  simp
                · rw [Function.update_of_ne hq]
                  exact hsome
              · rw [hgrows.dirs]
                exact hsome
            · change Function.update s₂.programs child _ q = _ at hq
              rw [hprograms] at hq
              by_cases hqc : q = child
              · subst hqc
                rw [Function.update_self] at hq
                rw [← Option.some.inj hq]
              · rw [Function.update_of_ne hqc] at hq
                exact hprocs.pid q program hq
            · change Function.update s₂.programs child _ q = _ at hq
              change s₂.running = some q at hrun
              rw [hgrows.running, hfresh.running, hrunning] at hrun
              obtain rfl := Option.some.inj hrun
              rw [hprograms, Function.update_of_ne hne, hparent] at hq
              obtain rfl := Option.some.inj hq
              exact (hgrows.cr3.trans hfresh.cr3).trans hcr3
          · have hentry := hentries n hn
            rw [hfresh.cr3, hcr3, hfresh.entries p _ hdirp n hn] at hentry
            exact hentry
          · obtain ⟨hd₁, hne'⟩ := hold q d' hd'
            have hkeeps := hgrows.keeps q d' hd₁ n hn hne'
            rw [Keeps, hfresh.entries q d' hd' n hn] at hkeeps
            exact hkeeps
          · have hf₁ : (g.setDir child d).role f = .page := (hrole f (by rw [hf]; simp)).trans hf
            obtain ⟨hf', hmem⟩ := hgrows.pages f hf₁
            refine ⟨hf', hmem.trans (hfresh.mem f fun he => ?_)⟩
            rw [he, hfresh.free] at hf
            exact absurd hf (by simp)
          · have hfailed₁ := hgrows.attach hfailed
            rw [hfresh.rmapManager] at hfailed₁
            exact hfailed₁
          · have hc₁ := hgrows.tlb c hc
            rw [hfresh.tlb] at hc₁
            exact hc₁

end SysuOs
