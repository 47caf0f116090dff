import SysuOs.PagingInherit
import SysuOs.PagingReach

/-! The cached translations of a process that forks. `setCOW` takes the right to write from every entry of a
page, but invalidates only the pages that a reverse mapping of the running process knows the address of. A fork that
fails on the way has done the same to the pages before, and takes back no more than reverse mappings. -/

namespace SysuOs

open Kernel Flags

namespace Kernel

/-- One of the pages from `startPage` up to `last` is in the frame. -/
def SharedBelow (s : Kernel) (dir last f : Nat) : Prop :=
  ∃ m, startPage ≤ m ∧ m < last ∧ present (s.pageEntry dir m) = true ∧ frameOf (s.pageEntry dir m) = f

/-- One of the reverse mappings of the frame is that of page `n`. -/
def Listed (s : Kernel) (g : Ghost) (dir n f : Nat) : Prop :=
  ∃ idx ∈ g.chain f, MapsSlot (s.rmapManager.RMapStart idx) (frameOf (s.mem dir (n / 1024))) (n % 1024)

/-- `setCOW` of the frame invalidates page `n`. -/
def FlushesPage (s : Kernel) (g : Ghost) (n f : Nat) : Prop :=
  ∃ idx ∈ g.chain f, Flushes s (s.rmapManager.RMapStart idx) ∧
    PTEVA2VADDR (s.rmapManager.RMapStart idx).pteVaddr / 4096 = n

theorem flushes_congr {s t : Kernel} {e e' : RMapEntry} (hrunning : t.runningPCB = s.runningPCB)
    (htarget : e'.target = e.target) : (Flushes t e' ↔ Flushes s e) ∧ e'.pteVaddr = e.pteVaddr := by
  obtain ⟨-, hrest⟩ := Prod.mk.inj htarget
  obtain ⟨hvaddr, howner⟩ := Prod.mk.inj hrest
  rw [Flushes, Flushes, hvaddr, howner, hrunning]
  exact ⟨Iff.rfl, rfl⟩

theorem mapsSlot_congr {e e' : RMapEntry} {frame k : Nat} (htarget : e'.target = e.target) :
    MapsSlot e' frame k ↔ MapsSlot e frame k := by
  rw [MapsSlot, MapsSlot, (Prod.mk.inj htarget).1]

theorem sharedBelow_succ {s : Kernel} {dir n f : Nat} (hstart : startPage ≤ n) :
    s.SharedBelow dir (n + 1) f ↔ s.SharedBelow dir n f ∨
      present (s.pageEntry dir n) = true ∧ frameOf (s.pageEntry dir n) = f := by
  constructor
  · rintro ⟨m, hm, hlt, hentry⟩
    by_cases hmn : m = n
    · rw [hmn] at hentry
      exact Or.inr hentry
    · exact Or.inl ⟨m, hm, by omega, hentry⟩
  · rintro (⟨m, hm, hlt, hentry⟩ | hentry)
    · exact ⟨m, hm, by omega, hentry⟩
    · exact ⟨n, hstart, by omega, hentry⟩

/-- The entry of a page once the reverse mappings of a frame are downgraded. -/
theorem downgraded_listed {s : Kernel} {g : Ghost} {q d n f : Nat} (h : Spaces s g) (hdir : g.dirs q = some d)
    (htable : present (s.mem d (n / 1024)) = true) :
    writable ((s.downgraded (g.chain f)).pageEntry d n) = false ↔
      s.Listed g d n f ∨ writable (s.pageEntry d n) = false := by
  have hd : (s.downgraded (g.chain f)).mem d = s.mem d := h.downgraded_dir hdir
  rw [pageEntry_of_present htable, pageEntry_of_present (by rw [hd]; exact htable), hd]
  by_cases hlisted : s.Listed g d n f
  · have hcow : (s.downgraded (g.chain f)).mem (frameOf (s.mem d (n / 1024))) (n % 1024) =
        cowEntry (s.mem (frameOf (s.mem d (n / 1024))) (n % 1024)) := if_pos hlisted
    rw [hcow, writable_cowEntry]
    exact ⟨fun _ => Or.inl hlisted, fun _ => rfl⟩
  · have hsame : (s.downgraded (g.chain f)).mem (frameOf (s.mem d (n / 1024))) (n % 1024) =
        s.mem (frameOf (s.mem d (n / 1024))) (n % 1024) := if_neg hlisted
    rw [hsame]
    exact ⟨Or.inr, fun h => h.resolve_left hlisted⟩

/-- The translations that are still cached then. -/
theorem mem_tlb_downgraded {s : Kernel} {g : Ghost} {f : Nat} {cached : Nat × Word} :
    cached ∈ (s.downgraded (g.chain f)).tlb ↔ cached ∈ s.tlb ∧ ¬ s.FlushesPage g cached.1 f := by
  simp only [downgraded, List.mem_filter, decide_eq_true_eq, FlushesPage, not_exists, not_and]
  constructor
  · rintro ⟨hmem, hkeep⟩
    exact ⟨hmem, fun idx hidx hflush he => hkeep idx hidx hflush he.symm⟩
  · rintro ⟨hmem, hkeep⟩
    exact ⟨hmem, fun idx hidx hflush he => hkeep idx hidx hflush he.symm⟩

end Kernel

/-- A state with the same memory in the frames in use but that of the child's directory `d` has the same pages of the
parent. -/
theorem pageEntry_of_quiet {t t' : Kernel} {gt : Ghost} {child d D p : Nat} (h : Spaces t gt)
    (hchild : gt.dirs child = some d) (hparent : gt.dirs p = some D) (hD : D ≠ d)
    (hmem : ∀ f, gt.role f ≠ .free → f ≠ d → t'.mem f = t.mem f) {m : Nat} (hm : m < userPages) :
    t'.pageEntry D m = t.pageEntry D m := by
  have hmemD : t'.mem D = t.mem D := hmem D (by rw [h.dir p D hparent]; exact nofun) hD
  by_cases htable : present (t.mem D (m / 1024)) = true
  · have hlive := (h.live hparent hm htable).1
    have hframe : frameOf (t.mem D (m / 1024)) ≠ d := by
      intro he
      rw [he, h.dir child d hchild] at hlive
      cases hlive
    rw [pageEntry_of_present htable, pageEntry_of_present (by rw [hmemD]; exact htable), hmemD,
      hmem _ (by rw [hlive]; exact nofun) hframe]
  · have htable' := Bool.eq_false_iff.mpr htable
    rw [pageEntry_of_absent htable', pageEntry_of_absent (by rw [hmemD]; exact htable')]

/-- What the loop of `copyProcess` has done when it comes to page `n`, from the state `s` on. The parent `p`
runs, in the directory `D`. -/
structure Tracked (s t : Kernel) (g gt : Ghost) (child d D n : Nat) : Prop where
  start : startPage ≤ n
  spaces : Spaces t gt
  grows : Grows (fun d' _ => d' = d) s t g gt
  empty : ∀ m, n ≤ m → m < userPages → present (t.pageEntry d m) = false
  tables : ∀ i, present (t.mem D i) = present (s.mem D i) ∧ frameOf (t.mem D i) = frameOf (s.mem D i)
  chain : ∀ f, ∀ idx ∈ gt.chain f, idx ∈ g.chain f ∨ (t.rmapManager.RMapStart idx).owner = child
  old : ∀ f, gt.chain f ≠ [] → g.chain f ≠ []
  mapped : ∀ m, startPage ≤ m → m < n → present (s.pageEntry D m) = true →
    g.chain (frameOf (s.pageEntry D m)) ≠ []
  child : ∀ m, m < userPages → (present (t.mem d (m / 1024)) = true ↔
    ∃ m', startPage ≤ m' ∧ m' < n ∧ present (s.pageEntry D m') = true ∧ m' / 1024 = m / 1024)
  pool : ∀ k, s.kernelPhysical.Offers (k + s.tablesBelow D n) ↔ t.kernelPhysical.Offers k
  tlb : ∀ cached, cached ∈ t.tlb ↔ cached ∈ s.tlb ∧ ∀ f, s.SharedBelow D n f → ¬ s.FlushesPage g cached.1 f
  entry : ∀ m, m < userPages → present (s.mem D (m / 1024)) = true → (writable (t.pageEntry D m) = false ↔
    (∃ f, s.SharedBelow D n f ∧ s.Listed g D m f) ∨ writable (s.pageEntry D m) = false)

namespace Tracked

variable {s t t' : Kernel} {g gt : Ghost} {child d D n p : Nat}

/-- The new reverse mappings are those of the child, and none of them is that of a page of the parent. -/
theorem flushesPage_iff (h : Tracked s t g gt child d D n) (hrunning : s.runningPCB.map PCB.pid = some p)
    (hne : p ≠ child) (m f : Nat) : t.FlushesPage gt m f ↔ s.FlushesPage g m f := by
  have hpcb : t.runningPCB = s.runningPCB := by
    rw [runningPCB, runningPCB, h.grows.running, h.grows.programs]
  constructor
  · rintro ⟨idx, hidx, hflush, hpage⟩
    rcases h.chain f idx hidx with hold | hnew
    · obtain ⟨hiff, hvaddr⟩ := flushes_congr hpcb (h.grows.chain f idx hold).2
      exact ⟨idx, hold, hiff.mp hflush, by rw [← hvaddr]; exact hpage⟩
    · have howner := hflush.2
      rw [hpcb, hrunning, hnew] at howner
      exact absurd (Option.some.inj howner) hne
  · rintro ⟨idx, hidx, hflush, hpage⟩
    obtain ⟨hmem, htarget⟩ := h.grows.chain f idx hidx
    obtain ⟨hiff, hvaddr⟩ := flushes_congr hpcb htarget
    exact ⟨idx, hmem, hiff.mpr hflush, by rw [hvaddr]; exact hpage⟩

theorem listed_iff (h : Tracked s t g gt child d D n) (hparent : g.dirs p = some D) (hne : p ≠ child) {m : Nat}
    (hm : m < userPages) (htable : present (s.mem D (m / 1024)) = true) (f : Nat) :
    t.Listed gt D m f ↔ s.Listed g D m f := by
  obtain ⟨hpresent, hframe⟩ := h.tables (m / 1024)
  rw [Listed, Listed, hframe]
  constructor
  · rintro ⟨idx, hidx, hslot⟩
    rcases h.chain f idx hidx with hold | hnew
    · exact ⟨idx, hold, (mapsSlot_congr (h.grows.chain f idx hold).2).mp hslot⟩
    · -- the entry would be in a page table of the parent and of the child
      obtain ⟨frame, k, htarget, -⟩ := h.spaces.mapped f idx hidx
      obtain ⟨rfl, -⟩ := htarget.mapsSlot.mp hslot
      obtain ⟨q, i, v, hrole, -, htriple, -⟩ := htarget.table
      have hq : q = child := by
        rw [← hnew]
        exact (Prod.mk.inj (Prod.mk.inj htriple).2).2.symm
      have hparent' : gt.dirs p = some D := by
        rw [h.grows.dirs]
        exact hparent
      have hlive := (h.spaces.live hparent' hm (by rw [hpresent]; exact htable)).1
      rw [hframe, hrole] at hlive
      exact absurd ((Role.table.inj hlive).1.symm.trans hq) hne
  · rintro ⟨idx, hidx, hslot⟩
    obtain ⟨hmem, htarget⟩ := h.grows.chain f idx hidx
    exact ⟨idx, hmem, (mapsSlot_congr htarget).mpr hslot⟩

/-- A page that is not present is passed. -/
theorem skip (h : Tracked s t g gt child d D n) (hparent : g.dirs p = some D) (hD : D ≠ d) (hn : n < userPages)
    (habsent : present (t.pageEntry D n) = false) : Tracked s t g gt child d D (n + 1) := by
  have hkeeps := h.grows.keeps p D hparent n hn hD
  have hsame : ∀ f, s.SharedBelow D (n + 1) f ↔ s.SharedBelow D n f := by
    intro f
    rw [sharedBelow_succ h.start]
    refine ⟨fun hor => hor.resolve_right ?_, Or.inl⟩
    rintro ⟨hpresent, -⟩
    rw [hkeeps.present, hpresent] at habsent
    cases habsent
  have habsent' : present (s.pageEntry D n) = false := hkeeps.present ▸ habsent
  have hlt : ∀ m, m < n + 1 → present (s.pageEntry D m) = true → m < n := by
    intro m hm hpresent
    rcases Nat.lt_succ_iff_lt_or_eq.mp hm with hlt | rfl
    · exact hlt
    · rw [habsent'] at hpresent
      cases hpresent
  refine ⟨by have := h.start; omega, h.spaces, h.grows, fun m hm => h.empty m (by omega), h.tables, h.chain, h.old,
    fun m hm hmn hpresent => h.mapped m hm (hlt m hmn hpresent) hpresent, ?_, ?_, ?_, ?_⟩
  · intro m hm
    rw [h.child m hm]
    refine exists_congr fun m' => and_congr_right fun _ => ?_
    constructor
    · exact fun hrest => ⟨by omega, hrest.2⟩
    · exact fun hrest => ⟨hlt m' hrest.1 hrest.2.1, hrest.2⟩
  · rw [tablesBelow_skip habsent']
    exact h.pool
  · intro cached
    simp only [hsame]
    exact h.tlb cached
  · intro m hm htable
    simp only [hsame]
    exact h.entry m hm htable

/-- A page that is present is shared. -/
theorem share (h : Tracked s t g gt child d D n) (hparent : g.dirs p = some D) (hchild : g.dirs child = some d)
    (hrunning : s.runningPCB.map PCB.pid = some p) (hne : p ≠ child) (hD : D ≠ d) (hn : n < userPages)
    (hpresent : present (t.pageEntry D n) = true)
    (hcall : t.setupCOWPage d (frameOf (t.pageEntry D n) * 4096) (n * 4096) child = .ret (true, t')) :
    ∃ gt', Tracked s t' g gt' child d D (n + 1) := by
  have hchildt : gt.dirs child = some d := by rw [h.grows.dirs]; exact hchild
  have hparentt : gt.dirs p = some D := by rw [h.grows.dirs]; exact hparent
  have hkeeps := h.grows.keeps p D hparent n hn hD
  obtain ⟨t₁, g₁, gt', hcalled, hmapped, h₁, hgrows₁, hquiet, h', hgrows', hadds, hself, hpool⟩ :=
    setupCOWPage_steps h.spaces hchildt hn (h.empty n le_rfl hn) (frameOf_lt _)
      (h.spaces.page_of_entry hparentt hn hpresent) hcall
  obtain ⟨hpdes, hoffers⟩ := setupTable_offers h.spaces hchildt hcalled
  have hpresent' : present (s.pageEntry D n) = true := hkeeps.present ▸ hpresent
  have hframe : frameOf (s.pageEntry D n) = frameOf (t.pageEntry D n) := hkeeps.frameOf.symm
  have hlinked : present (t'.mem d (n / 1024)) = true := by
    refine present_table (n := n) ?_
    rw [hself]
    exact (sharedEntry_spec (frameOf_lt _)).1
  generalize hf : frameOf (t.pageEntry D n) = f at *
  have hparent₁ : g₁.dirs p = some D := by rw [hgrows₁.dirs]; exact hparentt
  have hchild₁ : g₁.dirs child = some d := by rw [hgrows₁.dirs]; exact hchildt
  have hcow := h₁.downgrade f
  have hall := (hgrows₁.trans hcow.2).trans hgrows'
  have hsucc : ∀ f', s.SharedBelow D (n + 1) f' ↔ s.SharedBelow D n f' ∨ f' = f := by
    intro f'
    rw [sharedBelow_succ h.start, hframe]
    exact or_congr_right ⟨fun hand => hand.2.symm, fun he => ⟨hpresent', he.symm⟩⟩
  -- the directory and the page tables of the parent are not those of the child
  have hmemD : t₁.mem D = t.mem D := hquiet.mem D (by rw [h.spaces.dir p D hparentt]; exact nofun) hD
  have hdown : (t₁.downgraded (g₁.chain f)).mem D = t₁.mem D := h₁.downgraded_dir hparent₁
  have hdownd : (t₁.downgraded (g₁.chain f)).mem d = t₁.mem d := h₁.downgraded_dir hchild₁
  have hentry₁ : ∀ m, m < userPages → t₁.pageEntry D m = t.pageEntry D m := fun m hm =>
    pageEntry_of_quiet h.spaces hchildt hparentt hD hquiet.mem hm
  have hlisted₁ : ∀ m, t₁.Listed g₁ D m f ↔ t.Listed gt D m f := by
    intro m
    rw [Listed, Listed, hquiet.chain, hquiet.rmapManager, hmemD]
  have hflush₁ : ∀ m, t₁.FlushesPage g₁ m f ↔ t.FlushesPage gt m f := by
    intro m
    rw [FlushesPage, FlushesPage, hquiet.chain, hquiet.rmapManager]
    simp only [Flushes, runningPCB, hgrows₁.running, hgrows₁.programs]
  refine ⟨gt', by have := h.start; omega, h', (h.grows.trans hall).mono ?_, ?_, ?_, ?_, ?_, ?_, ?_, ?_, ?_, ?_⟩
  · rintro d' m (hE | (hE | hE) | hE)
    · exact hE
    · exact hE.elim
    · exact hE.elim
    · exact hE.1
  · intro m hm hlt
    have hother : ¬ (d = d ∧ m = n) := by omega
    rw [(hall.keeps child d hchildt m hlt ?_).present]
    · exact h.empty m (by omega) hlt
    · rintro ((hE | hE) | hE)
      · exact hE
      · exact hE
      · exact hother hE
  · intro i
    obtain ⟨hpde, hframe⟩ := hadds.pde p D hparent₁ i
    rw [hpde, hframe, hdown, hmemD]
    exact h.tables i
  · intro f' idx hidx
    rcases hadds.chain f' idx hidx with hidx | hnew
    · rw [hquiet.chain] at hidx
      rcases h.chain f' idx hidx with hold | hnew
      · exact Or.inl hold
      · refine Or.inr ?_
        have htarget := (hall.chain f' idx hidx).2
        rw [(Prod.mk.inj (Prod.mk.inj htarget).2).2]
        exact hnew
    · exact Or.inr hnew.2
  · -- the frame has had a reverse mapping
    intro f' hne'
    obtain ⟨idx, hidx⟩ := List.exists_mem_of_ne_nil _ hne'
    rcases hadds.chain f' idx hidx with hidx | ⟨rfl, -⟩
    · rw [hquiet.chain] at hidx
      exact h.old f' (List.ne_nil_of_mem hidx)
    · exact h.old f' hmapped
  · intro m hm hmn hp
    rcases Nat.lt_succ_iff_lt_or_eq.mp hmn with hlt | rfl
    · exact h.mapped m hm hlt hp
    · rw [hframe]
      exact h.old f hmapped
  · intro m hm
    by_cases hsame : m / 1024 = n / 1024
    · rw [hsame]
      exact iff_of_true hlinked ⟨n, h.start, Nat.lt_succ_self n, hpresent', rfl⟩
    · rw [(hadds.pde child d hchild₁ (m / 1024)).1, hdownd, hpdes _ hsame, h.child m hm]
      refine exists_congr fun m' => and_congr_right fun _ => ?_
      constructor
      · exact fun hrest => ⟨by omega, hrest.2⟩
      · refine fun hrest => ⟨?_, hrest.2⟩
        rcases Nat.lt_succ_iff_lt_or_eq.mp hrest.1 with hlt | rfl
        · exact hlt
        · exact absurd hrest.2.2.symm hsame
  · intro k
    rw [hpool, ← hoffers]
    by_cases hold : s.TableBelow D n
    · rw [tablesBelow_old hold, if_pos ((h.child n hn).mpr hold)]
      exact h.pool k
    · rw [tablesBelow_new h.start hpresent' hold, if_neg (fun hp => hold ((h.child n hn).mp hp)),
        ← h.pool (k + 1), Nat.add_right_comm k 1, Nat.add_assoc k]
  · intro cached
    rw [hadds.tlb, mem_tlb_downgraded, hquiet.tlb, hflush₁, h.flushesPage_iff hrunning hne, h.tlb]
    simp only [hsucc]
    constructor
    · rintro ⟨⟨hmem, hkeep⟩, hnot⟩
      refine ⟨hmem, ?_⟩
      rintro f' (hshared | rfl)
      · exact hkeep f' hshared
      · exact hnot
    · rintro ⟨hmem, hkeep⟩
      exact ⟨⟨hmem, fun f' hshared => hkeep f' (Or.inl hshared)⟩, hkeep f (Or.inr rfl)⟩
  · intro m hm htable
    have htable₁ : present (t₁.mem D (m / 1024)) = true := by
      rw [hmemD, (h.tables _).1]
      exact htable
    rw [hadds.entry p D hparent₁ m hm (fun hE => hD hE.1), downgraded_listed h₁ hparent₁ htable₁, hlisted₁,
      h.listed_iff hparent hne hm htable, hentry₁ m hm, h.entry m hm htable]
    simp only [hsucc]
    constructor
    · rintro (hlisted | ⟨f', hshared, hlisted⟩ | hread)
      · exact Or.inl ⟨f, Or.inr rfl, hlisted⟩
      · exact Or.inl ⟨f', Or.inl hshared, hlisted⟩
      · exact Or.inr hread
    · rintro (⟨f', hshared | rfl, hlisted⟩ | hread)
      · exact Or.inr (Or.inl ⟨f', hshared, hlisted⟩)
      · exact Or.inl hlisted
      · exact Or.inr (Or.inr hread)

end Tracked

/-- The loop of `copyProcess` has come to the last page, or cannot share page `n`: there is no page for its page
table, or its frame has no reverse mapping. -/
def Stops (s t : Kernel) (g : Ghost) (D n : Nat) : Prop :=
  n = userPages ∨ n < userPages ∧ present (s.pageEntry D n) = true ∧
    (¬s.TableBelow D n ∧ ¬t.kernelPhysical.Offers 1 ∨ g.chain (frameOf (s.pageEntry D n)) = [])

/-- The pages shared are those that the page tables and the reverse mappings before the loop are enough for. -/
theorem Tracked.shared_iff {s t : Kernel} {g gt : Ghost} {child d D n m : Nat} (h : Tracked s t g gt child d D n)
    (hstop : Stops s t g D n) (hlt : m < userPages) :
    m < n ↔ s.kernelPhysical.Offers (s.tablesBelow D (m + 1)) ∧ ∀ m', startPage ≤ m' → m' ≤ m →
      present (s.pageEntry D m') = true → g.chain (frameOf (s.pageEntry D m')) ≠ [] := by
  constructor
  · intro hmn
    refine ⟨?_, fun m' hstart hle hp => h.mapped m' hstart (by omega) hp⟩
    have hall : s.kernelPhysical.Offers (0 + s.tablesBelow D n) := (h.pool 0).mpr trivial
    refine hall.mono ?_
    rw [Nat.zero_add]
    exact tablesBelow_mono hmn
  · rintro ⟨hoffers, hmapped⟩
    by_contra hnm
    obtain rfl | ⟨-, hp, ⟨hnew, hnone⟩ | hnil⟩ := hstop
    · exact hnm hlt
    · refine hnone ((h.pool 1).mp (hoffers.mono ?_))
      rw [Nat.add_comm, ← tablesBelow_new h.start hp hnew]
      exact tablesBelow_mono (by omega)
    · exact hmapped n h.start (by omega) hp hnil

/-- The loop of `copyProcess`, from the first page to the one where it stops; what it takes back then are reverse
mappings. -/
theorem copyLoop_tracked {s s' : Kernel} {g : Ghost} {child d p fuel : Nat} {res : Bool} (h : Spaces s g)
    (hchild : g.dirs child = some d) (hparent : g.dirs p = some s.cr3) (hne : p ≠ child)
    (hrunning : s.runningPCB.map PCB.pid = some p) (hempty : ∀ i, i < 768 → s.mem d i = 0#32)
    (hloop : copyLoop d child fuel USER_VADDR_START s = .ret (res, s')) :
    ∃ n t gt, Tracked s t g gt child d s.cr3 n ∧ Stops s t g s.cr3 n ∧ s'.tlb = t.tlb ∧
      ∀ m, m < userPages → s'.pageEntry s.cr3 m = t.pageEntry s.cr3 m := by
  have hD : s.cr3 ≠ d := fun he => hne (h.dir_inj hparent (he ▸ hchild))
  have hnone : ∀ f, ¬ s.SharedBelow s.cr3 startPage f := by
    rintro f ⟨m, hm, hlt, -⟩
    omega
  have habsent : ∀ m, m < userPages → present (s.mem d (m / 1024)) = false := by
    intro m hm
    rw [hempty _ (by rw [userPages] at hm; omega)]
    exact present_zero
  have hstart : Tracked s s g g child d s.cr3 startPage := by
    refine ⟨le_rfl, h, Grows.refl _ _ _, ?_, fun i => ⟨rfl, rfl⟩, fun f idx hidx => Or.inl hidx, fun _ => id, ?_, ?_,
      ?_, ?_, ?_⟩
    · intro m _ hm
      rw [pageEntry_of_absent (habsent m hm)]
      exact present_zero
    · intro m hm hlt
      omega
    · intro m hm
      rw [habsent m hm]
      refine iff_of_false Bool.false_ne_true ?_
      rintro ⟨m', hle, hlt, -⟩
      omega
    · intro k
      rw [tablesBelow_start]
      exact Iff.rfl
    · intro cached
      exact ⟨fun hmem => ⟨hmem, fun f hshared => absurd hshared (hnone f)⟩, fun hmem => hmem.1⟩
    · intro m _ _
      constructor
      · exact Or.inr
      · rintro (⟨f, hshared, -⟩ | hread)
        · exact absurd hshared (hnone f)
        · exact hread
  have hcases := copyLoop_cases (d := d) (n := startPage) (s := s) (g := g)
    (P := fun n t gt => Tracked s t g gt child d s.cr3 n) ?_ ?_ fuel (by decide) hstart hloop
  · obtain ⟨-, gt, ht⟩ | ⟨-, n, t, gt, t', hn, ht, hpresent, hcall, hback⟩ := hcases
    · exact ⟨userPages, s', gt, ht, Or.inl rfl, rfl, fun _ _ => rfl⟩
    · have hparentt : gt.dirs p = some s.cr3 := by rw [ht.grows.dirs]; exact hparent
      have hchildt : gt.dirs child = some d := by rw [ht.grows.dirs]; exact hchild
      have hkeeps := ht.grows.keeps p s.cr3 hparent n hn hD
      have hview := rollbackLoop_view hback
      rw [ht.grows.cr3] at hpresent hcall
      obtain ⟨⟨htlb, hmem⟩, hcause⟩ :=
        setupCOWPage_fails ht.spaces hchildt (ht.spaces.page_of_entry hparentt hn hpresent) hcall
      refine ⟨n, t, gt, ht, Or.inr ⟨hn, hkeeps.present ▸ hpresent, ?_⟩, hview.tlb.trans htlb, fun m hm => ?_⟩
      · refine hcause.imp (fun hnew => ⟨fun hold => ?_, hnew.2⟩) fun hnil => ?_
        · rw [(ht.child n hn).mpr hold] at hnew
          cases hnew.1
        · rw [← hkeeps.frameOf]
          refine List.eq_nil_iff_forall_not_mem.mpr fun idx hidx => ?_
          have hidx' := (ht.grows.chain _ idx hidx).1
          rw [hnil] at hidx'
          cases hidx'
      · rw [← pageEntry_of_quiet ht.spaces hchildt hparentt hD hmem hm, pageEntry, pageEntry, hview.mem]
  · intro n t gt hn ht habsent
    rw [ht.grows.cr3] at habsent
    exact ht.skip hparent hD hn habsent
  · intro n t gt t' hn ht hpresent hcall
    rw [ht.grows.cr3] at hpresent hcall
    exact ht.share hparent hchild hrunning hne hD hn hpresent hcall

/-- `fork` comes to share page `m`: it is present, there are a page for the directory of the child and one for each
page table up to that of the page, and every page up to it has a reverse mapping. -/
structure Shared (s : Kernel) (dir m : Nat) : Prop where
  start : startPage ≤ m
  lt : m < userPages
  present : present (s.pageEntry dir m) = true
  pages : s.kernelPhysical.Offers (1 + s.tablesBelow dir (m + 1))
  mapped : ∀ m', startPage ≤ m' → m' ≤ m → SysuOs.present (s.pageEntry dir m') = true →
    (s.pageinfos (frameOf (s.pageEntry dir m'))).extra ≠ 0

/-- One of the pages that `fork` comes to share is in the frame. -/
def SharedFrame (s : Kernel) (dir f : Nat) : Prop := ∃ m, Shared s dir m ∧ frameOf (s.pageEntry dir m) = f

/-- A page with reverse mappings has a first one. -/
theorem chain_ne_nil_iff {s : Kernel} {g : Ghost} {f : Nat} (h : Chains s g) (hpage : g.role f = .page) :
    g.chain f ≠ [] ↔ (s.pageinfos f).extra ≠ 0 := by
  have hwalk := h.walk f hpage
  constructor
  · rintro hchain hzero
    rw [hzero, link_zero] at hwalk
    obtain ⟨idx, l, hl⟩ := List.exists_cons_of_ne_nil hchain
    rw [hl] at hwalk
    cases hwalk.1
  · rintro hextra hnil
    rw [link_of_ne hextra, hnil] at hwalk
    cases hwalk

/-- The pages shared, by the state before the directory of the child was made. -/
theorem Tracked.sharedFrame_iff {s s₀ t : Kernel} {g g₀ gt : Ghost} {child d D n p : Nat}
    (h : Tracked s t g gt child d D n) (hstop : Stops s t g D n) (h₀ : Spaces s₀ g₀) (hdir : g₀.dirs p = some D)
    (hentries : ∀ m, m < userPages → s.pageEntry D m = s₀.pageEntry D m) (hchain : ∀ f, g.chain f = g₀.chain f)
    (hpool : ∀ k, s₀.kernelPhysical.Offers (k + 1) ↔ s.kernelPhysical.Offers k) (f : Nat) :
    s.SharedBelow D n f ↔ SharedFrame s₀ D f := by
  have htables : ∀ m, m < userPages → s.tablesBelow D (m + 1) = s₀.tablesBelow D (m + 1) := by
    intro m hm
    refine congrArg (fun l : Finset Nat => (l.image (· / 1024)).card) (Finset.filter_congr fun m' hm' => ?_)
    rw [hentries m' (by have := Finset.mem_range.mp hm'; omega)]
  have hmapped : ∀ m, m < userPages → present (s₀.pageEntry D m) = true →
      (g.chain (frameOf (s.pageEntry D m)) ≠ [] ↔ (s₀.pageinfos (frameOf (s₀.pageEntry D m))).extra ≠ 0) := by
    intro m hm hpresent
    rw [hentries m hm, hchain]
    exact chain_ne_nil_iff h₀.toChains (h₀.page_of_entry hdir hm hpresent)
  have hle : n ≤ userPages := by
    rcases hstop with rfl | ⟨hn, -⟩
    · exact le_rfl
    · exact hn.le
  constructor
  · rintro ⟨m, hm, hmn, hpresent, hframe⟩
    have hlt : m < userPages := by omega
    obtain ⟨hpages, hchains⟩ := (h.shared_iff hstop hlt).mp hmn
    rw [hentries m hlt] at hpresent hframe
    refine ⟨m, ⟨hm, hlt, hpresent, ?_, fun m' hm' hle' hp => ?_⟩, hframe⟩
    · rw [Nat.add_comm, hpool, ← htables m hlt]
      exact hpages
    · have hlt' : m' < userPages := by omega
      exact (hmapped m' hlt' hp).mp (hchains m' hm' hle' (by rw [hentries m' hlt']; exact hp))
  · rintro ⟨m, hm, hframe⟩
    have hlt := hm.lt
    have hentry := hentries m hlt
    refine ⟨m, hm.start, (h.shared_iff hstop hlt).mpr ⟨?_, fun m' hm' hle' hp => ?_⟩,
      by rw [hentry]; exact hm.present, by rw [hentry]; exact hframe⟩
    · rw [htables m hlt, ← hpool, Nat.add_comm]
      exact hm.pages
    · have hlt' : m' < userPages := by omega
      rw [hentries m' hlt'] at hp
      exact (hmapped m' hlt' hp).mpr (hm.mapped m' hm' hle' hp)

/-- What `fork` does to the cached translations and to the right to write of the pages of the parent, whether it
succeeds or not. -/
theorem fork_tracked {s s' : Kernel} {g : Ghost} {parent : PCB} {p child : Nat} {res : Option Nat} (h : Spaces s g)
    (hprocs : Procs s g) (hrunning : s.running = some p) (hparent : s.programs p = some parent)
    (hchild : s.programs child = none) (hfork : s.fork child = .ret (res, s')) :
    (∀ cached, cached ∈ s'.tlb ↔ cached ∈ s.tlb ∧
      ∀ f, SharedFrame s parent.pageDirectory f → ¬ s.FlushesPage g cached.1 f) ∧
    ∀ m, m < userPages → present (s.mem parent.pageDirectory (m / 1024)) = true →
      (writable (s'.pageEntry parent.pageDirectory m) = false ↔
        (∃ f, SharedFrame s parent.pageDirectory f ∧ s.Listed g parent.pageDirectory m f) ∨
          writable (s.pageEntry parent.pageDirectory m) = false) := by
  have hpcb : s.runningPCB = some parent := by rw [runningPCB, hrunning]; exact hparent
  have hdirp : g.dirs p = some parent.pageDirectory := by rw [hprocs.dirs, hparent]; rfl
  rw [fork, hpcb] at hfork
  dsimp only at hfork
  obtain ⟨⟨frame, s₁⟩, hcreate, hfork⟩ := Outcome.bind_eq_ret hfork
  obtain ⟨hfull, hoffers⟩ := createDirectory_offers hcreate
  cases frame with
  | none =>
    -- without a directory nothing is shared
    obtain ⟨-, rfl⟩ := Prod.mk.inj (Outcome.ret.inj hfork)
    obtain ⟨hview, hnone⟩ := hfull rfl
    have hshared : ∀ f, ¬SharedFrame s parent.pageDirectory f := by
      rintro f ⟨m, hm, -⟩
      exact hnone (hm.pages.mono (Nat.le_add_right 1 _))
    constructor
    · intro cached
      rw [hview.tlb]
      exact ⟨fun hmem => ⟨hmem, fun f hf => absurd hf (hshared f)⟩, fun hmem => hmem.1⟩
    · intro m _ _
      rw [pageEntry, hview.mem, ← pageEntry]
      refine ⟨Or.inr, fun hor => hor.resolve_left ?_⟩
      rintro ⟨f, hf, -⟩
      exact hshared f hf
  | some d =>
    dsimp only at hfork
    obtain ⟨⟨ok, s₂⟩, hcopy, hfork⟩ := Outcome.bind_eq_ret hfork
    have hsame : s'.tlb = s₂.tlb ∧ s'.mem = s₂.mem := by
      cases ok with
      | false =>
        obtain ⟨-, rfl⟩ := Prod.mk.inj (Outcome.ret.inj hfork)
        exact ⟨rfl, rfl⟩
      | true =>
        obtain ⟨-, rfl⟩ := Prod.mk.inj (Outcome.ret.inj hfork)
        exact ⟨rfl, rfl⟩
    have hnone : g.dirs child = none := by rw [hprocs.dirs, hchild]; rfl
    have hdead : ∀ f i, g.role f ≠ .table child i := by
      intro f i hf
      have hsome := hprocs.alive f child i hf
      rw [hnone] at hsome
      cases hsome
    obtain ⟨h₁, hfresh, -⟩ := createDirectory_spec h hdead hcreate
    have hne : p ≠ child := by
      rintro rfl
      rw [hchild] at hparent
      cases hparent
    have hcr3 : (s₁.clearUserTables d).cr3 = parent.pageDirectory :=
      hfresh.cr3.trans (hprocs.cr3 p parent hrunning hparent)
    have hdirp₁ : (g.setDir child d).dirs p = some (s₁.clearUserTables d).cr3 := by
      rw [hcr3, ← hdirp]
      exact Function.update_of_ne hne _ _
    have hpcb₁ : (s₁.clearUserTables d).runningPCB = s.runningPCB := by
      rw [runningPCB, runningPCB, hfresh.running, hfresh.programs]
    have hpid : (s₁.clearUserTables d).runningPCB.map PCB.pid = some p := by
      rw [hpcb₁, hpcb, Option.map_some, hprocs.pid p parent hparent]
    have hempty : ∀ i, i < 768 → (s₁.clearUserTables d).mem d i = 0#32 := by
      intro i hi
      simp [clearUserTables, hi]
    obtain ⟨n, t', g', htracked, hstop, htlb', hentry'⟩ :=
      copyLoop_tracked h₁ (Function.update_self _ _ _) hdirp₁ hne hpid hempty hcopy
    rw [hcr3] at htracked hstop hentry'
    have hpool : ∀ k, s.kernelPhysical.Offers (k + 1) ↔ (s₁.clearUserTables d).kernelPhysical.Offers k :=
      hoffers (Option.some_ne_none d)
    generalize s₁.clearUserTables d = t at *
    generalize hD : parent.pageDirectory = D at *
    have hmem : t.mem D = s.mem D := by
      refine hfresh.mem D ?_
      rintro rfl
      have hrole := h.dir p D hdirp
      rw [hfresh.free] at hrole
      cases hrole
    -- before the loop all is as it was before the call
    have hshared : ∀ f, t.SharedBelow D n f ↔ SharedFrame s D f := fun f =>
      htracked.sharedFrame_iff hstop h hdirp (hfresh.entries p D hdirp) (fun _ => rfl) hpool f
    have hflush : ∀ m f, t.FlushesPage (g.setDir child d) m f ↔ s.FlushesPage g m f := by
      intro m f
      simp only [FlushesPage, Flushes, hpcb₁, hfresh.rmapManager]
      rfl
    have hlisted : ∀ m f, t.Listed (g.setDir child d) D m f ↔ s.Listed g D m f := by
      intro m f
      rw [Listed, Listed, hmem, hfresh.rmapManager]
      rfl
    constructor
    · intro cached
      have htlb := htracked.tlb cached
      simp only [hshared, hflush, hfresh.tlb] at htlb
      rw [hsame.1, htlb']
      exact htlb
    · intro m hm htable
      have hentry := htracked.entry m hm (by rw [hmem]; exact htable)
      simp only [hshared, hlisted, hfresh.entries p D hdirp m hm] at hentry
      rw [pageEntry, hsame.2, ← pageEntry, hentry' m hm]
      exact hentry

/-- A cached translation grants the right to write to a page that has lost it. -/
def Stale (s s' : Kernel) (dir : Nat) (cached : Nat × Word) : Prop :=
  cached ∈ s'.tlb ∧ cached.1 < userPages ∧ writable cached.2 = true ∧
    writable (s.pageEntry dir cached.1) = true ∧ writable (s'.pageEntry dir cached.1) = false

/-- A page of a frame that `fork` shares whose entry `setCOW` finds, but not its address: the reverse mappings
it goes along hold `PTE_ANON_VADDR` for it. -/
def Unflushed (s : Kernel) (g : Ghost) (dir n : Nat) : Prop :=
  (∃ f, SharedFrame s dir f ∧ s.Listed g dir n f) ∧ ∀ f, SharedFrame s dir f → ¬ s.FlushesPage g n f

/-- A process whose only page was mapped by `map_process_page`, after a store to it. -/
def storedPage : Kernel := { oneEntry 0x3007#32 with tlb := [(startPage, 0x3007#32)] }

theorem storedPage_spaces : Spaces storedPage (oneGhost 0x3007#32) :=
  (oneEntry_spaces fun _ => by decide).congr rfl rfl rfl

theorem storedPage_procs : Procs storedPage (oneGhost 0x3007#32) :=
  ⟨(oneEntry_procs 0x3007#32).dirs, (oneEntry_procs 0x3007#32).alive, (oneEntry_procs 0x3007#32).pid,
    (oneEntry_procs 0x3007#32).cr3⟩

set_option maxRecDepth 20000 in
theorem storedPage_share : ∃ s₁, storedPage.createProcessPageDirectory = .ret (some 0x300, s₁) ∧
    ∃ s₂, (s₁.clearUserTables 0x300).setupCOWPage 0x300 (3 * 4096) (startPage * 4096) 2 = .ret (true, s₂) :=
  ⟨_, rfl, _, rfl⟩

theorem storedPage_offers : storedPage.kernelPhysical.Offers 2 :=
  ⟨_, _, rfl, by decide, _, _, rfl, by decide, trivial⟩

theorem storedPage_fork : ∃ s', storedPage.fork 2 = .ret (some 2, s') :=
  oneEntry_fork (by decide) (by decide) storedPage_share

theorem storedPage_entry : storedPage.pageEntry onePage.pageDirectory startPage = 0x3007#32 :=
  oneEntry_pageEntry_start 0x3007#32

/-- The page is shared: there are four free pages, for a directory and a page table. -/
theorem storedPage_shared : SharedFrame storedPage onePage.pageDirectory 3 := by
  have hframe : frameOf (storedPage.pageEntry onePage.pageDirectory startPage) = 3 := by
    rw [storedPage_entry]
    decide
  have hpresent : present (storedPage.pageEntry onePage.pageDirectory startPage) = true := by
    rw [storedPage_entry]
    decide
  have hnew : ¬storedPage.TableBelow onePage.pageDirectory startPage := by
    rintro ⟨m, hm, hlt, -⟩
    omega
  refine ⟨startPage, ⟨le_rfl, by decide, hpresent, ?_, fun m' hm hle hp => ?_⟩, hframe⟩
  · rw [tablesBelow_new le_rfl hpresent hnew, tablesBelow_start]
    exact storedPage_offers
  · obtain rfl := Nat.le_antisymm hle hm
    rw [hframe]
    decide

/-- `setCOW` finds the entry of the page, and not its address. -/
theorem storedPage_unflushed : Unflushed storedPage (oneGhost 0x3007#32) onePage.pageDirectory startPage := by
  constructor
  · exact ⟨3, storedPage_shared, 1, by decide, by decide⟩
  · rintro f - ⟨idx, hidx, ⟨hknown, -⟩, -⟩
    obtain ⟨-, rfl⟩ := oneGhost_chain.mp hidx
    exact hknown rfl

end SysuOs
