import Mathlib
import SysuOs.PagingGrow

/-! What page faults and `exit` do to address spaces: a page taken from a process, a page made ready for
use and given back, an entry made writable again. -/

namespace SysuOs

open Kernel

variable {s s₁ s' : Kernel} {g : Ghost} {q d n f : Nat}

/-! ### A page taken from a process -/

/-! ### A frame put to another use -/

/-- A frame that is in no address space may be put to any use but that of a page directory or table. -/
theorem Spaces.setRole (h : Spaces s g) {P : Nat} {role : Role} (hmem : s'.mem = s.mem)
    (hr : s'.rmapManager = s.rmapManager) (hpi : ∀ f, f ≠ P → s'.pageinfos f = s.pageinfos f)
    (hdir : ∀ q d, g.dirs q = some d → d ≠ P)
    (htable : ∀ q d, g.dirs q = some d → ∀ i, i < 768 → present (s.mem d i) = true → frameOf (s.mem d i) ≠ P)
    (hpage : ∀ frame q i, g.Live frame q i → ∀ k, k < 1024 → present (s.mem frame k) = true →
      frameOf (s.mem frame k) ≠ P)
    (hslots : ∀ q i, g.role P = .table q i → ∀ k, k < 1024 → present (s.mem P k) = false)
    (hchain : g.chain P = []) (hnew : ∀ q, role ≠ .dir q ∧ ∀ i, role ≠ .table q i)
    (hfree : (s'.pageinfos P).has PG_FREE = true → role = .free)
    (hempty : role = .page → (s'.pageinfos P).extra = 0 ∧ (s'.pageinfos P).ref = 0) :
    Spaces s' (g.setRole P role) := by
  have hlive : ∀ f q i, (g.setRole P role).Live f q i → f ≠ P ∧ g.Live f q i := fun f q i hl => by
    have hf : f ≠ P := fun he => by
      have hrole := hl.1
      rw [he, Ghost.setRole_self] at hrole
      exact (hnew q).2 i hrole
    exact ⟨hf, by rw [← hl.1, Ghost.setRole_of_ne hf], hl.2⟩
  have htargets : ∀ e f k, Targets g e f k → f ≠ P → Targets (g.setRole P role) e f k :=
    fun e f k ht hf => ht.mono (Ghost.setRole_of_ne hf)
  have hmapped : ∀ f, ∀ idx ∈ g.chain f, ∃ frame k, frame ≠ P ∧
      Targets g (s.rmapManager.RMapStart idx) frame k ∧ present (s.mem frame k) = true ∧
        frameOf (s.mem frame k) = f := fun f idx hidx => by
    obtain ⟨frame, k, ht, hp, hf⟩ := h.mapped f idx hidx
    refine ⟨frame, k, fun he => ?_, ht, hp, hf⟩
    obtain ⟨q, i, v, hrole, -⟩ := ht.table
    rw [he] at hrole hp
    rw [hslots q i hrole k ht.lt] at hp
    exact absurd hp (by simp)
  refine { toChains := ?_, dir := ?_, table := ?_, free := ?_, page := ?_, mapped := ?_, listed := ?_,
           unique := ?_, exclusive := ?_ }
  · refine ⟨hr ▸ h.bound, hr ▸ h.null, fun f hf => ?_, fun f hf => ?_, hr ▸ h.used, h.apart, fun f hne => ?_⟩
    · by_cases hfP : f = P
      · subst hfP
        rw [Ghost.setRole_self] at hf
        simp only [Ghost.setRole_chain, hchain, (hempty hf).1, link_zero, Walk.nil_iff]
      · rw [Ghost.setRole_of_ne hfP] at hf
        rw [hr, hpi f hfP]
        exact h.walk f hf
    · by_cases hfP : f = P
      · subst hfP
        rw [Ghost.setRole_self] at hf
        simp only [Ghost.setRole_chain, hchain, (hempty hf).2, List.length_nil]
      · rw [Ghost.setRole_of_ne hfP] at hf
        rw [hpi f hfP]
        exact h.ref f hf
    · have hfP : f ≠ P := fun he => hne (he ▸ hchain)
      rw [Ghost.setRole_of_ne hfP]
      exact h.pages f hne
  · intro q d hd
    rw [Ghost.setRole_of_ne (hdir q d hd)]
    exact h.dir q d hd
  · intro q d hd i hi hp
    rw [hmem] at hp ⊢
    rw [Ghost.setRole_of_ne (htable q d hd i hi hp)]
    exact h.table q d hd i hi hp
  · intro f hf
    by_cases hfP : f = P
    · subst hfP
      rw [Ghost.setRole_self]
      exact hfree hf
    · rw [hpi f hfP] at hf
      rw [Ghost.setRole_of_ne hfP]
      exact h.free f hf
  · intro f q i hl k hk hp
    obtain ⟨-, hl'⟩ := hlive f q i hl
    rw [hmem] at hp ⊢
    rw [Ghost.setRole_of_ne (hpage f q i hl' k hk hp)]
    exact h.page f q i hl' k hk hp
  · intro f idx hidx
    obtain ⟨frame, k, hne, ht, hp, hf⟩ := hmapped f idx hidx
    rw [hr, hmem]
    exact ⟨frame, k, htargets _ _ _ ht hne, hp, hf⟩
  · intro hfailed f q i hl k hk hp
    obtain ⟨hfP, hl'⟩ := hlive f q i hl
    rw [hr] at hfailed ⊢
    rw [hmem] at hp ⊢
    obtain ⟨idx, hidx, ht⟩ := h.listed hfailed f q i hl' k hk hp
    exact ⟨idx, hidx, htargets _ _ _ ht hfP⟩
  · rw [hr]
    exact h.unique
  · intro hfailed f q i hl k hk hp hw
    rw [hr] at hfailed
    rw [hmem] at hp hw ⊢
    exact h.exclusive hfailed f q i (hlive f q i hl).2 k hk hp hw

/-- A frame just allocated is in no address space. -/
theorem newPage_spec {paddr : Nat} (h : Spaces s g)
    (halloc : s.allocatePhysicalPages .USER 1 = .ret (paddr, s')) (hne : paddr ≠ 0) :
    g.role (PA2PGI paddr) = .free ∧ paddr < 2 ^ 32 ∧ SamePools s { s' with pageinfos := s.pageinfos } ∧
      Spaces s' (g.setRole (PA2PGI paddr) .page) := by
  obtain ⟨hlt, hfree, s₁, hsame, rfl⟩ := allocatePhysicalPages_spec halloc hne
  have hrole := h.free _ hfree
  have hmem : s₁.mem = s.mem := by rw [hsame.eq]
  have hr : s₁.rmapManager = s.rmapManager := by rw [hsame.eq]
  have hpi : s₁.pageinfos = s.pageinfos := by rw [hsame.eq]
  have hnot : ∀ f, g.role f ≠ .free → f ≠ PA2PGI paddr := fun f hf he => hf (he ▸ hrole)
  refine ⟨hrole, hlt, ⟨?_⟩, h.setRole hmem hr (fun f hf => ?_) (fun q d hd => hnot d ?_)
    (fun q d hd i hi hp => hnot _ ?_) (fun f q i hl k hk hp => hnot _ ?_) (fun q i hf => ?_) ?_
    (fun q => ⟨by simp, by simp⟩) (fun hf => ?_) fun _ => ?_⟩
  · rw [hsame.eq]
    rfl
  · simp only [setInfo, Function.update_of_ne hf, hpi]
  · rw [h.dir q d hd]
    simp
  · rw [h.table q d hd i hi hp]
    simp
  · rw [h.page f q i hl k hk hp]
    simp
  · rw [hrole] at hf
    exact absurd hf (by simp)
  · by_contra hchain
    rw [h.pages _ hchain] at hrole
    exact absurd hrole (by simp)
  · simp only [setInfo, Function.update_self] at hf
    exact absurd (hf.symm.trans (not_free_freshInfo .USER)) (by simp)
  · simp [setInfo]

/-! ### An entry rewritten -/

end SysuOs
