import SysuOs.ElfImage
import SysuOs.PagingPools

/-! The loops of `createUserVirtualPool` in its mode 0: if a page fails, the pages that have been mapped are
taken back, but not the page tables that have been linked. -/

namespace SysuOs.PageTables.Memory

open Elf Flags Kernel

variable {P : Type} [PagePool P]

/-- The pages of a segment of an accepted file. -/
def segmentPages (seg : ElfSegment) : List Nat :=
  List.range' ((pageBegin seg).toNat / 4096) (((pageEnd seg).toNat - (pageBegin seg).toNat) / 4096)

/-- A page that is to be loaded, and whether `load_segment_page` can read it. -/
structure Request where
  page : Nat
  flags : Byte
  readable : Bool

/-- The pages of all segments, in the order the two loops come to them. -/
def requests (read : Reader) (elfConf : ELFConfig) : List Request :=
  elfConf.segments.flatMap fun seg => (segmentPages seg).map fun n =>
    ⟨n, seg.flags, (loadSegmentPage read seg (BitVec.ofNat 32 (n * 4096))).isSome⟩

/-- The body of the inner loop of `createUserVirtualPool`. -/
def loadPage (m : Memory P) (r : Request) : Outcome (Bool × Memory P) :=
  match m.allocatePhysicalPages .USER with
  | (none, m) => return (false, m)
  | (some x, m) =>
      if !r.readable then return (false, m.releasePhysicalPages .USER x)
      else do
        match ← m.mapProcessPage r.page x r.flags with
        | (true, m) => return (true, m)
        | (false, m) => return (false, m.releasePhysicalPages .USER x)

def loadPages : List Request → Memory P → Outcome (Bool × Memory P)
  | [], m => return (true, m)
  | r :: rest, m => do
      match ← m.loadPage r with
      | (true, m) => loadPages rest m
      | (false, m) => return (false, m)

/-- `rollback_loaded_segments`. -/
def rollbackLoadedSegments : List Request → Memory P → Outcome (Memory P)
  | [], m => return m
  | r :: rest, m => do
      let m ← m.releaseProcessPage r.page
      rollbackLoadedSegments rest m

/-- The loops over the segments, and what their failing exits do to the pages of the process. -/
def loadSegments (read : Reader) (m : Memory P) (elfConf : ELFConfig) : Outcome (Bool × Memory P) := do
  match ← loadPages (requests read elfConf) m with
  | (true, m) => return (true, m)
  | (false, m) => do
      let m ← rollbackLoadedSegments (requests read elfConf) m
      return (false, m)

/-- The first page of the file gets no frame, cannot be read, or gets no page table. -/
def FailsFirst (read : Reader) (m : Memory P) (elfConf : ELFConfig) : Prop :=
  ∃ r rest, requests read elfConf = r :: rest ∧
    (PagePool.allocate m.userPhysical = none ∨ r.readable = false ∨ PagePool.allocate m.kernelPhysical = none)

/-! ### The pages in their order

The loops of `Elf.createUserVirtualPool`, which has the bytes of every frame, come to the pages of `requests` in
the order of `loadPages` and `rollbackLoadedSegments`. -/

section Order

variable {read : Reader} {pgdir pid : Nat} {seg : ElfSegment} {segments : List ElfSegment} {s : Kernel}

/-- The pages of all segments, each with its segment. -/
def places (segments : List ElfSegment) : List (ElfSegment × Nat) :=
  segments.flatMap fun seg => (segmentPages seg).map fun n => (seg, n)

theorem requests_eq (read : Reader) (elfConf : ELFConfig) :
    requests read elfConf = (places elfConf.segments).map fun place =>
      ⟨place.2, place.1.flags, (loadSegmentPage read place.1 (BitVec.ofNat 32 (place.2 * 4096))).isSome⟩ := by
  rw [requests, places, List.map_flatMap]
  congr 1
  funext seg
  rw [List.map_map]
  rfl

def loadPlaces (read : Reader) (pgdir pid : Nat) : List (ElfSegment × Nat) → Kernel → Outcome (Bool × Kernel)
  | [], s => return (true, s)
  | place :: rest, s => do
      match ← Elf.loadPage read pgdir pid place.1 (BitVec.ofNat 32 (place.2 * 4096)) s with
      | (true, s) => loadPlaces read pgdir pid rest s
      | (false, s) => return (false, s)

def rollbackPlaces (pgdir pid : Nat) : List (ElfSegment × Nat) → Kernel → Outcome Kernel
  | [], s => return s
  | place :: rest, s => do
      let s ← Elf.releaseProcessPage s pgdir pid (place.2 * 4096)
      rollbackPlaces pgdir pid rest s

theorem loadPlaces_append (l l' : List (ElfSegment × Nat)) (s : Kernel) :
    loadPlaces read pgdir pid (l ++ l') s = (do
      match ← loadPlaces read pgdir pid l s with
      | (true, s) => loadPlaces read pgdir pid l' s
      | (false, s) => return (false, s)) := by
  induction l generalizing s with
  | nil => rfl
  | cons place l ih =>
      rw [List.cons_append, loadPlaces, loadPlaces]
      cases Elf.loadPage read pgdir pid place.1 (BitVec.ofNat 32 (place.2 * 4096)) s with
      | ret r =>
          obtain ⟨ok, s'⟩ := r
          cases ok with
          | true => exact ih s'
          | false => rfl
      | halt => rfl
      | diverge => rfl

theorem rollbackPlaces_append (l l' : List (ElfSegment × Nat)) (s : Kernel) :
    rollbackPlaces pgdir pid (l ++ l') s =
      rollbackPlaces pgdir pid l s >>= rollbackPlaces pgdir pid l' := by
  induction l generalizing s with
  | nil => rfl
  | cons place l ih =>
      rw [List.cons_append, rollbackPlaces, rollbackPlaces]
      cases Elf.releaseProcessPage s pgdir pid (place.2 * 4096) with
      | ret s' => exact ih s'
      | halt => rfl
      | diverge => rfl

/-- The address of page `n` and the one behind it. -/
theorem pageAddress {n k : Nat} {vaddr page_end : Word} (hvaddr : vaddr.toNat = n * 4096)
    (hend : page_end.toNat = (n + (k + 1)) * 4096) :
    vaddr < page_end ∧ vaddr = BitVec.ofNat 32 (n * 4096) ∧ (vaddr + Elf.PAGE_SIZE).toNat = (n + 1) * 4096 := by
  have hlt := page_end.isLt
  have hsize : Elf.PAGE_SIZE.toNat = 4096 := rfl
  refine ⟨?_, ?_, ?_⟩
  · rw [BitVec.lt_def]
    omega
  · rw [← hvaddr, BitVec.ofNat_toNat, BitVec.setWidth_eq]
  · rw [BitVec.toNat_add, hvaddr, hsize]
    omega

theorem loadPages_places {n k fuel : Nat} {vaddr page_end : Word} (hvaddr : vaddr.toNat = n * 4096)
    (hend : page_end.toNat = (n + k) * 4096) (hfuel : k < fuel) (s : Kernel) :
    Elf.loadPages read pgdir pid seg page_end fuel vaddr s =
      loadPlaces read pgdir pid ((List.range' n k).map fun i => (seg, i)) s := by
  induction k generalizing n fuel vaddr s with
  | zero =>
      obtain ⟨fuel, rfl⟩ := Nat.exists_eq_add_one_of_ne_zero hfuel.ne'
      have hnot : ¬ vaddr < page_end := by
        rw [BitVec.lt_def]
        omega
      rw [Elf.loadPages, if_neg hnot]
      rfl
  | succ k ih =>
      obtain ⟨fuel, rfl⟩ := Nat.exists_eq_add_one_of_ne_zero (Nat.ne_zero_of_lt hfuel)
      obtain ⟨hlt, hword, hnext⟩ := pageAddress hvaddr hend
      have hend' : page_end.toNat = (n + 1 + k) * 4096 := by rw [hend, Nat.add_assoc, Nat.add_comm 1 k]
      rw [Elf.loadPages, if_pos hlt, List.range'_succ, List.map_cons, loadPlaces, hword]
      cases Elf.loadPage read pgdir pid seg (BitVec.ofNat 32 (n * 4096)) s with
      | ret r =>
          obtain ⟨ok, s'⟩ := r
          cases ok with
          | true =>
              rw [hword] at hnext
              exact ih hnext hend' (Nat.lt_of_succ_lt_succ hfuel) s'
          | false => rfl
      | halt => rfl
      | diverge => rfl

theorem rollbackPages_places (seg : ElfSegment) {n k fuel : Nat} {vaddr page_end : Word}
    (hvaddr : vaddr.toNat = n * 4096) (hend : page_end.toNat = (n + k) * 4096) (hfuel : k < fuel) (s : Kernel) :
    rollbackPages pgdir pid page_end fuel vaddr s =
      rollbackPlaces pgdir pid ((List.range' n k).map fun i => (seg, i)) s := by
  induction k generalizing n fuel vaddr s with
  | zero =>
      obtain ⟨fuel, rfl⟩ := Nat.exists_eq_add_one_of_ne_zero hfuel.ne'
      have hnot : ¬ vaddr < page_end := by
        rw [BitVec.lt_def]
        omega
      rw [rollbackPages, if_neg hnot]
      rfl
  | succ k ih =>
      obtain ⟨fuel, rfl⟩ := Nat.exists_eq_add_one_of_ne_zero (Nat.ne_zero_of_lt hfuel)
      obtain ⟨hlt, hword, hnext⟩ := pageAddress hvaddr hend
      have hend' : page_end.toNat = (n + 1 + k) * 4096 := by rw [hend, Nat.add_assoc, Nat.add_comm 1 k]
      rw [rollbackPages, if_pos hlt, List.range'_succ, List.map_cons, rollbackPlaces, hvaddr]
      cases Elf.releaseProcessPage s pgdir pid (n * 4096) with
      | ret s' => exact ih hnext hend' (Nat.lt_of_succ_lt_succ hfuel) s'
      | halt => rfl
      | diverge => rfl

/-- The pages of a segment, from the first address of its loop to the last. -/
theorem segmentPages_bounds (h : seg.Whole) :
    ∃ n k, segmentPages seg = List.range' n k ∧ (pageBegin seg).toNat = n * 4096 ∧
      (pageEnd seg).toNat = (n + k) * 4096 ∧ k < 2 ^ 20 + 1 := by
  obtain ⟨hbegin, hend⟩ := h.bounds
  have hfirst := h.first
  have hlast := h.last
  have hle := h.le
  have horder : seg.range.1 ≤ seg.range.2 := Nat.le_add_right _ _
  refine ⟨_, _, rfl, ?_, ?_, ?_⟩ <;> omega

theorem loadSegments_places (hwhole : ∀ seg ∈ segments, seg.Whole) (s : Kernel) :
    Elf.loadSegments read pgdir pid segments s = loadPlaces read pgdir pid (places segments) s := by
  induction segments generalizing s with
  | nil => rfl
  | cons seg segments ih =>
      obtain ⟨n, k, hpages, hbegin, hend, hk⟩ := segmentPages_bounds (hwhole seg List.mem_cons_self)
      rw [Elf.loadSegments, loadPages_places hbegin hend hk, places, List.flatMap_cons, hpages, loadPlaces_append]
      congr 1
      funext r
      obtain ⟨ok, s'⟩ := r
      cases ok with
      | true => exact ih (fun seg hseg => hwhole seg (List.mem_cons_of_mem _ hseg)) s'
      | false => rfl

theorem rollbackLoadedSegments_places (hwhole : ∀ seg ∈ segments, seg.Whole) (s : Kernel) :
    Elf.rollbackLoadedSegments pgdir pid segments s = rollbackPlaces pgdir pid (places segments) s := by
  induction segments generalizing s with
  | nil => rfl
  | cons seg segments ih =>
      obtain ⟨n, k, hpages, hbegin, hend, hk⟩ := segmentPages_bounds (hwhole seg List.mem_cons_self)
      rw [Elf.rollbackLoadedSegments, rollbackPages_places seg hbegin hend hk, places, List.flatMap_cons,
        hpages, rollbackPlaces_append]
      congr 1
      funext s'
      exact ih (fun seg hseg => hwhole seg (List.mem_cons_of_mem _ hseg)) s'

/-- For an accepted file. -/
theorem createUserVirtualPool_places {fd : Int} (haccepted : (parseELF fd read).entry ≠ 0) (s : Kernel)
    (process : PCB) :
    Elf.createUserVirtualPool read s process (parseELF fd read) true = (do
      match ← loadPlaces read process.pageDirectory process.pid (places (parseELF fd read).segments) s with
      | (true, s) => return (true, s)
      | (false, s) => do
        let s ← rollbackPlaces process.pageDirectory process.pid (places (parseELF fd read).segments) s
        return (false, s)) := by
  have hwhole := segments_whole haccepted
  rw [Elf.createUserVirtualPool, if_neg (by decide), loadSegments_places hwhole]
  congr 1
  funext r
  obtain ⟨ok, s'⟩ := r
  cases ok with
  | true => rfl
  | false =>
      dsimp only
      rw [rollbackLoadedSegments_places hwhole]

end Order

variable {m m' : Memory P} {r : Request} {n x i : Nat}

/-! ### Page tables stay -/

/-- A directory entry that is present stays so. -/
def HasTable (i : Nat) (s : Space) : Prop := ∃ e, s.pde i = some e

theorem HasTable.setPte {s : Space} (h : HasTable i s) (n : Nat) (w : Word) : HasTable i (s.setPte n w) := by
  rw [HasTable, Space.setPte_pde]
  exact h

theorem HasTable.pdeDec {s : Space} (h : HasTable i s) {res : Bool × Space} (hres : s.pdeDec n = .ret res) :
    HasTable i res.2 := by
  cases hpde : s.pde (n / 1024) with
  | none =>
      rw [Space.pdeDec, hpde] at hres
      cases hres
  | some e =>
      rw [Space.pdeDec, hpde] at hres
      obtain ⟨-, -, hres⟩ := Outcome.bind_eq_ret hres
      split at hres
      · obtain rfl := Outcome.ret.inj hres
        exact h
      · obtain rfl := Outcome.ret.inj hres
        by_cases hi : i = n / 1024
        · rw [hi]
          exact ⟨_, Function.update_self _ _ _⟩
        · exact ⟨_, (Function.update_of_ne hi _ _).trans h.choose_spec⟩

theorem HasTable.mapPage {s : Space} (h : HasTable i s) (n : Nat) (w : Word) : HasTable i (s.mapPage n w) := by
  cases hpde : s.pde (n / 1024) with
  | none =>
      rw [Space.mapPage, Space.pdeInc, Space.setPte_pde, hpde]
      exact h.setPte n w
  | some e =>
      rw [Space.mapPage_eq hpde]
      by_cases hi : i = n / 1024
      · rw [hi]
        exact ⟨_, Function.update_self _ _ _⟩
      · exact ⟨_, (Function.update_of_ne hi _ _).trans h.choose_spec⟩

/-- `needTable` keeps the page tables, and there is one for its page if it succeeds. -/
theorem needTable_hasTable (m : Memory P) (type : AddressPoolType) (n : Nat) :
    (HasTable i m.toSpace → HasTable i (m.needTable type n).2.toSpace) ∧
      ((m.needTable type n).1 = true → HasTable (n / 1024) (m.needTable type n).2.toSpace) := by
  rw [needTable]
  cases hpde : m.pde (n / 1024) with
  | some e => exact ⟨id, fun _ => ⟨e, hpde⟩⟩
  | none =>
      have hspace := m.allocatePhysicalPages_space .KERNEL
      rcases halloc : m.allocatePhysicalPages .KERNEL with ⟨_ | frame, m₁⟩
      · rw [halloc] at hspace
        refine ⟨fun h => ?_, fun hfalse => absurd hfalse Bool.false_ne_true⟩
        change HasTable i m₁.toSpace
        rw [hspace]
        exact h
      · rw [halloc] at hspace
        have hself := Space.linkTable_pde_self m₁.toSpace type n frame
        refine ⟨fun h => ?_, fun _ => ⟨_, hself⟩⟩
        by_cases hi : i = n / 1024
        · rw [hi]
          exact ⟨_, hself⟩
        · rw [← hspace] at h
          exact ⟨_, (Function.update_of_ne hi _ _).trans h.choose_spec⟩

omit [PagePool P] in
theorem attach_space (m : Memory P) (p : Nat × Nat × Nat) : (m.attach p).2.toSpace = m.toSpace := by
  rw [attach]
  split <;> rfl

theorem mapProcessPage_hasTable {flags : Byte} {res : Bool × Memory P}
    (hres : m.mapProcessPage n x flags = .ret res) :
    (HasTable i m.toSpace → HasTable i res.2.toSpace) ∧
      ((m.needTable .USER n).1 = true → HasTable (n / 1024) res.2.toSpace) := by
  obtain ⟨hkeep, hnew⟩ := m.needTable_hasTable (i := i) .USER n
  rw [mapProcessPage] at hres
  rcases hcall : m.needTable .USER n with ⟨ok, m₁⟩
  rw [hcall] at hres hkeep hnew
  cases ok with
  | false =>
      obtain rfl := Outcome.ret.inj hres
      exact ⟨hkeep, fun hfalse => absurd hfalse Bool.false_ne_true⟩
  | true =>
      have hrest : ∀ j, HasTable j m₁.toSpace → HasTable j res.2.toSpace := by
        intro j hj
        dsimp only at hres
        split at hres
        · obtain rfl := Outcome.ret.inj hres
          exact hj
        · have hmapped := hj.mapPage n (processEntry (x * 4096) flags)
          generalize hm₂ : m₁.withSpace (m₁.toSpace.mapPage n (processEntry (x * 4096) flags)) = m₂ at hres
          have hspace := m₂.attach_space (m₂.place n x)
          have hm₂space : m₂.toSpace = m₁.toSpace.mapPage n (processEntry (x * 4096) flags) := by rw [← hm₂]; rfl
          rw [hm₂space] at hspace
          rcases hattach : m₂.attach (m₂.place n x) with ⟨_ | _, m₃⟩
          · rw [hattach] at hres hspace
            obtain ⟨res', hdec, hres⟩ := Outcome.bind_eq_ret hres
            obtain rfl := Outcome.ret.inj hres
            have hspace' : m₃.toSpace = _ := hspace
            rw [hspace'] at hdec
            exact (hmapped.setPte n 0#32).pdeDec hdec
          · rw [hattach] at hres hspace
            obtain rfl := Outcome.ret.inj hres
            have hspace' : m₃.toSpace = _ := hspace
            change HasTable j m₃.toSpace
            rw [hspace']
            exact hmapped
      exact ⟨fun h => hrest i (hkeep h), fun h => hrest _ (hnew h)⟩

theorem releaseProcessPage_hasTable (hres : m.releaseProcessPage n = .ret m') (h : HasTable i m.toSpace) :
    HasTable i m'.toSpace := by
  rw [releaseProcessPage] at hres
  cases hpde : m.pde (n / 1024) with
  | none =>
      rw [hpde] at hres
      obtain rfl := Outcome.ret.inj hres
      exact h
  | some e =>
      rw [hpde] at hres
      dsimp only at hres
      split at hres
      · obtain ⟨res, hdec, hres⟩ := Outcome.bind_eq_ret hres
        obtain rfl := Outcome.ret.inj hres
        rw [releasePhysicalPages, setPool_space, detach_space] at hdec
        exact (h.setPte n 0#32).pdeDec hdec
      · obtain rfl := Outcome.ret.inj hres
        exact h

theorem loadPage_hasTable {res : Bool × Memory P} (hres : m.loadPage r = .ret res)
    (h : HasTable i m.toSpace) : HasTable i res.2.toSpace := by
  have hspace := m.allocatePhysicalPages_space .USER
  rw [loadPage] at hres
  rcases halloc : m.allocatePhysicalPages .USER with ⟨_ | x, m₁⟩
  · rw [halloc] at hres hspace
    obtain rfl := Outcome.ret.inj hres
    rw [← hspace] at h
    exact h
  · rw [halloc] at hres hspace
    rw [← hspace] at h
    dsimp only at hres h
    split at hres
    · obtain rfl := Outcome.ret.inj hres
      change HasTable i (m₁.releasePhysicalPages .USER x).toSpace
      rw [releasePhysicalPages, setPool_space]
      exact h
    · obtain ⟨⟨ok, m₂⟩, hmap, hres⟩ := Outcome.bind_eq_ret hres
      have h₂ := (mapProcessPage_hasTable hmap).1 h
      cases ok with
      | true =>
          obtain rfl := Outcome.ret.inj hres
          exact h₂
      | false =>
          obtain rfl := Outcome.ret.inj hres
          change HasTable i (m₂.releasePhysicalPages .USER x).toSpace
          rw [releasePhysicalPages, setPool_space]
          exact h₂

theorem loadPages_hasTable {rs : List Request} {res : Bool × Memory P} (hres : loadPages rs m = .ret res)
    (h : HasTable i m.toSpace) : HasTable i res.2.toSpace := by
  induction rs generalizing m with
  | nil =>
      obtain rfl := Outcome.ret.inj hres
      exact h
  | cons r rest ih =>
      rw [loadPages] at hres
      obtain ⟨⟨ok, m₁⟩, hpage, hrest⟩ := Outcome.bind_eq_ret hres
      have h₁ := loadPage_hasTable hpage h
      cases ok with
      | true => exact ih hrest h₁
      | false =>
          obtain rfl := Outcome.ret.inj hrest
          exact h₁

theorem rollback_hasTable {rs : List Request} (hres : rollbackLoadedSegments rs m = .ret m')
    (h : HasTable i m.toSpace) : HasTable i m'.toSpace := by
  induction rs generalizing m with
  | nil =>
      obtain rfl := Outcome.ret.inj hres
      exact h
  | cons r rest ih =>
      rw [rollbackLoadedSegments] at hres
      obtain ⟨m₁, hpage, hrest⟩ := Outcome.bind_eq_ret hres
      exact ih hrest (releaseProcessPage_hasTable hpage h)

/-- The page table of the first page is linked if the page gets a frame, can be read and the page table
gets a frame too. -/
theorem loadPage_links {res : Bool × Memory P} (hres : m.loadPage r = .ret res)
    (huser : PagePool.allocate m.userPhysical ≠ none) (hread : r.readable = true)
    (hkernel : PagePool.allocate m.kernelPhysical ≠ none) : HasTable (r.page / 1024) res.2.toSpace := by
  obtain ⟨⟨x, p⟩, halloc⟩ := Option.ne_none_iff_exists'.mp huser
  obtain ⟨⟨y, q⟩, halloc'⟩ := Option.ne_none_iff_exists'.mp hkernel
  have htaken : m.allocatePhysicalPages .USER = (some x, m.setPool .USER p) := by
    rw [allocatePhysicalPages, pool, halloc]
  have hneed : ((m.setPool .USER p).needTable .USER r.page).1 = true := by
    rw [needTable]
    split
    · rfl
    · have hsecond : (m.setPool .USER p).allocatePhysicalPages .KERNEL =
          (some y, (m.setPool .USER p).setPool .KERNEL q) := by
        have hpool : (m.setPool .USER p).pool .KERNEL = m.kernelPhysical := rfl
        rw [allocatePhysicalPages, hpool, halloc']
      rw [hsecond]
  rw [loadPage, htaken, hread] at hres
  obtain ⟨⟨ok, m₂⟩, hmap, hrest⟩ := Outcome.bind_eq_ret hres
  have h₂ := (mapProcessPage_hasTable (i := 0) hmap).2 hneed
  cases ok with
  | true =>
      obtain rfl := Outcome.ret.inj hrest
      exact h₂
  | false =>
      obtain rfl := Outcome.ret.inj hrest
      change HasTable _ (m₂.releasePhysicalPages .USER x).toSpace
      rw [releasePhysicalPages, setPool_space]
      exact h₂

/-- A page table that has been linked for the first page is there when the loading has failed. -/
theorem loadSegments_links {read : Reader} {elfConf : ELFConfig} {rest : List Request}
    (hreq : requests read elfConf = r :: rest) (hres : loadSegments read m elfConf = .ret (false, m'))
    (hlater : ¬FailsFirst read m elfConf) : HasTable (r.page / 1024) m'.toSpace := by
  have hfirst : ¬(PagePool.allocate m.userPhysical = none ∨ r.readable = false ∨
      PagePool.allocate m.kernelPhysical = none) := fun hcase => hlater ⟨r, rest, hreq, hcase⟩
  rw [not_or, not_or, Bool.not_eq_false] at hfirst
  obtain ⟨huser, hread, hkernel⟩ := hfirst
  rw [loadSegments, hreq] at hres
  obtain ⟨⟨ok, m₁⟩, hload, hres⟩ := Outcome.bind_eq_ret hres
  rw [loadPages] at hload
  obtain ⟨⟨ok₀, m₀⟩, hpage, hload⟩ := Outcome.bind_eq_ret hload
  have htable : HasTable (r.page / 1024) m₀.toSpace := loadPage_links hpage huser hread hkernel
  have htable₁ : HasTable (r.page / 1024) m₁.toSpace := by
    cases ok₀ with
    | true => exact loadPages_hasTable hload htable
    | false =>
        obtain ⟨-, rfl⟩ := Prod.mk.inj (Outcome.ret.inj hload)
        exact htable
  cases ok with
  | true => cases hres
  | false =>
      obtain ⟨m₂, hroll, hres⟩ := Outcome.bind_eq_ret hres
      obtain ⟨-, rfl⟩ := Prod.mk.inj (Outcome.ret.inj hres)
      exact rollback_hasTable hroll htable₁

/-! ### Failing before there is a page table -/

theorem rollback_none {rs : List Request} (hnone : ∀ r ∈ rs, m.pde (r.page / 1024) = none) :
    rollbackLoadedSegments rs m = .ret m := by
  induction rs with
  | nil => rfl
  | cons r rest ih =>
      have hpage : m.releaseProcessPage r.page = .ret m := by
        rw [releaseProcessPage, hnone r List.mem_cons_self]
        rfl
      rw [rollbackLoadedSegments, hpage]
      exact ih fun r' hr' => hnone r' (List.mem_cons_of_mem r hr')

/-- Nothing has happened, or a user page has been taken and given back. -/
def Turned (m m' : Memory P) : Prop :=
  m' = m ∨ ∃ x p, PagePool.allocate (m.pool .USER) = some (x, p) ∧
    m' = (m.setPool .USER p).releasePhysicalPages .USER x

theorem Turned.space (h : Turned m m') : m'.toSpace = m.toSpace := by
  rcases h with rfl | ⟨x, p, -, rfl⟩
  · rfl
  · rw [releasePhysicalPages, setPool_space, setPool_space]

/-- The first page fails before its page table is linked. -/
theorem loadPage_failsFirst (hpde : m.pde (r.page / 1024) = none)
    (hfail : PagePool.allocate m.userPhysical = none ∨ r.readable = false ∨
      PagePool.allocate m.kernelPhysical = none) :
    ∃ m', m.loadPage r = .ret (false, m') ∧ Turned m m' := by
  rw [loadPage]
  cases halloc : PagePool.allocate (m.pool .USER) with
  | none =>
      rw [allocatePhysicalPages, halloc]
      exact ⟨m, rfl, Or.inl rfl⟩
  | some y =>
      obtain ⟨x, p⟩ := y
      have hback : Turned m ((m.setPool .USER p).releasePhysicalPages .USER x) := Or.inr ⟨x, p, halloc, rfl⟩
      have hsome : m.allocatePhysicalPages .USER = (some x, m.setPool .USER p) := by
        rw [allocatePhysicalPages, halloc]
      rw [hsome]
      dsimp only
      by_cases hread : r.readable = true
      · have hkernel : PagePool.allocate m.kernelPhysical = none := by
          rcases hfail with hnone | hunread | hnone
          · exact absurd (hnone.symm.trans halloc) (by simp)
          · rw [hread] at hunread
            cases hunread
          · exact hnone
        have hneed : (m.setPool .USER p).needTable .USER r.page = (false, m.setPool .USER p) := by
          have hpool : (m.setPool .USER p).pool .KERNEL = m.kernelPhysical := rfl
          rw [needTable, setPool_space, hpde, allocatePhysicalPages, hpool, hkernel]
        have hmap : (m.setPool .USER p).mapProcessPage r.page x r.flags = .ret (false, m.setPool .USER p) := by
          rw [mapProcessPage, hneed]
          rfl
        rw [hread, hmap]
        exact ⟨_, rfl, hback⟩
      · rw [Bool.not_eq_true] at hread
        rw [hread]
        exact ⟨_, rfl, hback⟩

/-- A file whose first page fails before it has a page table leaves no trace. -/
theorem loadSegments_failsFirst {read : Reader} {elfConf : ELFConfig}
    (hnew : ∀ r ∈ requests read elfConf, m.pde (r.page / 1024) = none) (hfails : FailsFirst read m elfConf) :
    ∃ m', loadSegments read m elfConf = .ret (false, m') ∧ Turned m m' := by
  obtain ⟨r, rest, hreq, hfail⟩ := hfails
  obtain ⟨m', hpage, hturned⟩ := loadPage_failsFirst (hnew r (by rw [hreq]; exact List.mem_cons_self)) hfail
  have hroll : rollbackLoadedSegments (requests read elfConf) m' = .ret m' :=
    rollback_none fun r' hr' => by
      rw [hturned.space]
      exact hnew r' hr'
  have hload : loadPages (requests read elfConf) m = .ret (false, m') := by
    rw [hreq, loadPages, hpage]
    rfl
  refine ⟨m', ?_, hturned⟩
  rw [loadSegments, hload, Outcome.ret_bind]
  dsimp only
  rw [hroll]
  rfl

end SysuOs.PageTables.Memory
