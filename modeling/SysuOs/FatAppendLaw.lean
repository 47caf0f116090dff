import Mathlib
import SysuOs.FatAppend

/-! The append law: what `append` says it has written is what the next `read` finds behind the old
content of the file. It holds exactly when the chain of the file has `size / cluster_size + 1`
clusters. A file that fills its chain has one less, and its last cluster is overwritten. -/

namespace SysuOs.FAT12FS

/-! ### The directory entry -/

/-- Whether `entry_buf.read` accepts an entry depends on its first byte and its attributes. -/
theorem read_accepts_congr {mem mem' : ByteMap} {pos : Nat} (h₀ : mem' pos = mem pos)
    (h₁₁ : mem' (pos + 11) = mem (pos + 11)) (b : EntryBuf) :
    (b.read mem' pos).1 = (b.read mem pos).1 := by
  simp only [EntryBuf.read, h₀, h₁₁, apply_ite Prod.fst]

/-- The directory entry of a file with the clusters `l`: in the root directory, or an entry of a
directory cluster. -/
structure HasEntry (fs : FAT12FS) (location : EntryLocation) (l : List Nat) : Prop where
  cluster : location.isRoot = false → IsCluster location.currentCluster
  allocated : location.isRoot = false → fs.fatTable location.currentCluster ≠ 0
  apart : location.isRoot = false → location.currentCluster ∉ l
  inside : location.isRoot = false →
    location.entryIndexInCluster * FAT12_ENTRY_BYTES + FAT12_ENTRY_BYTES ≤ fs.clusterSize
  valid : location.isRoot = false → (EntryBuf.reset.read (fs.clusterByte location.currentCluster)
    (location.entryIndexInCluster * FAT12_ENTRY_BYTES)).1 = true

/-- Updating the directory entry changes no cluster but the one it is in. -/
theorem updateEntry_frame {fs fs' : FAT12FS} {node : Fat12Inode} (hm : Mounted fs) (hcoh : Coherent fs)
    (hrun : fs.updateEntry node = .ret fs') :
    Coherent fs' ∧ SameVolume fs fs' ∧ fs'.fatTable = fs.fatTable ∧
      ∀ c k, 2 ≤ c → k < fs.clusterSize →
        (node.location.isRoot = false → c ≠ node.location.currentCluster) →
        fs'.clusterByte c k = fs.clusterByte c k := by
  rw [updateEntry] at hrun
  by_cases hroot : node.location.isRoot = true
  · rw [if_pos hroot] at hrun
    obtain rfl := Outcome.ret.inj hrun
    exact ⟨⟨hcoh.unused, hcoh.clean, hcoh.content, hcoh.unique⟩, ⟨rfl, rfl, rfl, rfl, rfl, rfl, rfl⟩, rfl,
      fun _ _ _ _ _ => rfl⟩
  · rw [if_neg hroot] at hrun
    obtain ⟨⟨cache, fs₁⟩, hget, hrun⟩ := Outcome.bind_eq_ret hrun
    cases cache with
    | none => simp at hrun
    | some i =>
        have hc := isCluster_of_getCache hget
        obtain ⟨j, fs₂, hget', hpin⟩ := getCache_spec hm hcoh hc
        rw [hget'] at hget
        obtain ⟨hij, rfl⟩ := Prod.mk.inj (Outcome.ret.inj hget)
        obtain rfl := Option.some.inj hij
        dsimp only at hrun
        split at hrun
        · simp at hrun
        · split at hrun
          · simp at hrun
          · rename_i buf _
            obtain ⟨fs₃, hrel, hstored⟩ := hpin.storeRelease hm hcoh hc.1 buf
            rw [← edited, hrel] at hrun
            obtain rfl := Outcome.ret.inj hrun
            refine ⟨hstored.coherent, hstored.same, hstored.fatTable, fun c k hc hk hne => ?_⟩
            rw [hstored.byte c k hc hk, if_neg (hne (by simpa using hroot))]

/-- The directory entry of a file can be updated. -/
theorem updateEntry_returns {fs : FAT12FS} {node : Fat12Inode} {l : List Nat} (hm : Mounted fs)
    (hcoh : Coherent fs) (hentry : HasEntry fs node.location l) :
    ∃ fs', fs.updateEntry node = .ret fs' := by
  rw [updateEntry]
  by_cases hroot : node.location.isRoot = true
  · rw [if_pos hroot]
    exact ⟨_, rfl⟩
  · rw [if_neg hroot]
    have hsub : node.location.isRoot = false := by simpa using hroot
    have hc := hentry.cluster hsub
    have hin := hentry.inside hsub
    obtain ⟨i, fs₁, hget, hpin⟩ := getCache_spec hm hcoh hc
    rw [hget]
    have hvalid : (EntryBuf.reset.read (fs₁.cachePool i).buf
        (node.location.entryIndexInCluster * FAT12_ENTRY_BYTES)).1 = true := by
      simp only [FAT12_ENTRY_BYTES] at hin
      rw [read_accepts_congr (hpin.buf _ (by simp only [FAT12_ENTRY_BYTES]; omega))
        (hpin.buf _ (by simp only [FAT12_ENTRY_BYTES]; omega))]
      exact hentry.valid hsub
    simp only [Outcome.ret_bind]
    split
    · rename_i hread
      rw [hread] at hvalid
      simp at hvalid
    · simp only [EntryBuf.write, Bool.false_eq_true, if_false]
      obtain ⟨fs₂, hrel, -⟩ := hpin.storeRelease hm hcoh hc.1 _
      exact ⟨fs₂, hrel⟩

/-! ### What is written where -/

theorem chainByte_eq_of {fs fs' : FAT12FS} {l : List Nat} {p : Nat} (hcs : fs'.clusterSize = fs.clusterSize)
    (hpos : 0 < fs.clusterSize) (hp : p < l.length * fs.clusterSize)
    (hbyte : ∀ c ∈ l, ∀ k, k < fs.clusterSize → fs'.clusterByte c k = fs.clusterByte c k) :
    fs'.chainByte l p = fs.chainByte l p := by
  have hidx : p / fs.clusterSize < l.length := Nat.div_lt_of_lt_mul (by rwa [Nat.mul_comm])
  rw [chainByte, chainByte, hcs, List.getD_eq_getElem l 0 hidx]
  exact hbyte _ (List.getElem_mem hidx) _ (Nat.mod_lt _ hpos)

/-- The bytes of the chain `l` before `pos` are as they were and `r` bytes of `src` follow; the clusters
`ns` are new. -/
structure Grown (fs fs' : FAT12FS) (start : Nat) (l ns : List Nat) (pos r : Nat) (src : ByteMap) :
    Prop where
  coherent : Coherent fs'
  same : SameVolume fs fs'
  walk : Walk (fatNext fs'.fatTable) (some start) (l ++ ns)
  links : ∀ c ∈ l ++ ns, InChain c
  fresh : ∀ c ∈ ns, IsCluster c
  fits : pos + r ≤ (l ++ ns).length * fs.clusterSize
  before : ∀ p, p < pos → fs'.chainByte (l ++ ns) p = fs.chainByte l p
  written : ∀ k, k < r → fs'.chainByte (l ++ ns) (pos + k) = src k

theorem isCluster_of_fillLast {fs : FAT12FS} {c used size : Nat} {src : ByteMap} {x : Nat × Nat × FAT12FS}
    (hused : used < fs.clusterSize) (hrun : fs.fillLast c used src size = .ret x) : IsCluster c := by
  rw [fillLast, if_pos hused] at hrun
  obtain ⟨⟨cache, fs₁⟩, hget, hrun⟩ := Outcome.bind_eq_ret hrun
  cases cache with
  | none => simp at hrun
  | some i => exact isCluster_of_getCache hget

/-- `append` to a file that has clusters: it writes at offset `size % cluster_size` of the last one. -/
theorem appendRest_spec {fs fs' : FAT12FS} {node node' : Fat12Inode} {pre : List Nat} {c n r : Nat}
    {src : ByteMap} (hm : Mounted fs) (hcoh : Coherent fs)
    (hwalk : Walk (fatNext fs.fatTable) (some node.startCluster) (pre ++ [c]))
    (hlinks : ∀ d ∈ pre ++ [c], InChain d) (hentry : HasEntry fs node.location (pre ++ [c])) (hn : 0 < n)
    (hrun : fs.appendRest node src n = .ret (r, node', fs')) :
    ∃ ns, Grown fs fs' node.startCluster (pre ++ [c]) ns
        (pre.length * fs.clusterSize + node.size % fs.clusterSize) r src ∧
      0 < r ∧ r ≤ n ∧ (r = n ∨ fs'.allocateCluster = .ret 0) ∧
      node' = { node with size := (node.size + r) % 2 ^ 32 } := by
  have hcs := hm.clusterSize_pos
  have hshort : pre.length < FAT12_MAX_CLUSTERS + 1 := by
    have hlen := length_lt hwalk hlinks
    rw [List.length_append] at hlen
    omega
  rw [appendRest, lastCluster, lastClusterLoop_spec hwalk hlinks hshort, Outcome.ret_bind] at hrun
  have hused := Nat.mod_lt node.size hcs
  generalize node.size % fs.clusterSize = used at hused hrun ⊢
  have hc : IsCluster c := by
    obtain ⟨x, hfill, -⟩ := Outcome.bind_eq_ret hrun
    exact isCluster_of_fillLast hused hfill
  obtain ⟨fs₁, buf, hfill, hstored, hbuf⟩ := fillLast_spec hm hcoh hc hused src n
  simp only [Outcome.ret_bind, hfill] at hrun
  obtain ⟨⟨total, fs₂⟩, hloop, hrun⟩ := Outcome.bind_eq_ret hrun
  obtain ⟨ns, more, rfl, hext, hle, hle', hlast, hbytes⟩ := appendLoop_spec (hm.congr hstored.same)
    hstored.coherent (by rw [hstored.fatTable]; exact hwalk) hlinks hloop
  have hcs₁ := hstored.same.clusterSize
  rw [hcs₁] at hle'
  rw [if_pos (by omega)] at hrun
  obtain ⟨fs₃, hupdate, hrun⟩ := Outcome.bind_eq_ret hrun
  have hsame₂ := hstored.same.trans hext.same
  have hcs₂ := hsame₂.clusterSize
  obtain ⟨hcoh₃, hsame₃, htable₃, hbyte₃⟩ := updateEntry_frame (hm.congr hsame₂) hext.coherent hupdate
  simp only [Outcome.pure_eq, Outcome.ret.injEq, Prod.mk.injEq] at hrun
  obtain ⟨rfl, rfl, rfl⟩ := hrun
  have hcs₃ : fs₃.clusterSize = fs.clusterSize := hsame₃.clusterSize.trans hcs₂
  have hlinks₃ : ∀ d ∈ pre ++ [c] ++ ns, InChain d := fun d hd =>
    (List.mem_append.mp hd).elim (hlinks d) fun hd => (hext.valid d hd).inChain
  have hapart : ∀ d ∈ pre ++ [c], d ∉ ns := fun d hd hd' =>
    (List.nodup_append.mp hext.walk.nodup).2.2 d hd d hd' rfl
  have hne : ∀ d ∈ pre, d ≠ c := fun d hd hdc =>
    (List.nodup_append.mp hwalk.nodup).2.2 d hd c (List.mem_singleton.mpr rfl) hdc
  have hkeep : ∀ d ∈ pre ++ [c] ++ ns, ∀ k, k < fs.clusterSize →
      fs₃.clusterByte d k = fs₂.clusterByte d k := fun d hd k hk => by
    refine hbyte₃ d k (hlinks₃ d hd).1 (by rw [hcs₂]; exact hk) fun hsub heq => ?_
    rcases List.mem_append.mp hd with hd | hd
    · exact hentry.apart hsub (heq ▸ hd)
    · have hzero := hext.free d hd
      rw [hstored.fatTable, heq] at hzero
      exact hentry.allocated hsub hzero
  have hold : ∀ d ∈ pre ++ [c], ∀ k, k < fs.clusterSize →
      fs₃.clusterByte d k = if d = c then buf k else fs.clusterByte d k := fun d hd k hk => by
    rw [hkeep d (List.mem_append_left ns hd) k hk,
      hext.byte d k (hlinks d hd).1 (by rw [hcs₁]; exact hk) (hapart d hd),
      hstored.byte d k (hlinks d hd).1 hk]
  have hlow : ∀ m k, fs₃.chainByte (pre ++ m) (pre.length * fs.clusterSize + k) = fs₃.chainByte m k :=
    fun m k => by rw [← hcs₃, chainByte_append (by rw [hcs₃]; exact hcs)]
  have hfirst : ∀ k, k < fs.clusterSize → fs₃.chainByte ([c] ++ ns) k = buf k := fun k hk => by
    rw [List.singleton_append, chainByte_lt (by rw [hcs₃]; exact hk), hold c (by simp) k hk, if_pos rfl]
  refine ⟨ns, ⟨hcoh₃, hsame₂.trans hsame₃, by rw [htable₃]; exact hext.walk, hlinks₃, hext.valid, ?_,
    fun p hp => ?_, fun k hk => ?_⟩, by omega, by omega, ?_, rfl⟩
  · rw [List.length_append, List.length_append, List.length_singleton, Nat.add_mul, Nat.add_mul,
      Nat.one_mul]
    omega
  · rw [List.append_assoc]
    by_cases hfull : p < pre.length * fs.clusterSize
    · rw [chainByte_left (by rw [hcs₃]; exact hfull), chainByte_left hfull]
      refine chainByte_eq_of hcs₃ hcs hfull fun d hd k hk => ?_
      rw [hold d (List.mem_append_left [c] hd) k hk, if_neg (hne d hd)]
    · obtain ⟨q, rfl⟩ := Nat.exists_eq_add_of_le (Nat.le_of_not_lt hfull)
      rw [hlow, chainByte_append hcs, hfirst q (by omega), chainByte_lt (by omega), hbuf q (by omega),
        if_neg (by omega)]
  · rw [List.append_assoc, Nat.add_assoc, hlow]
    by_cases hin : used + k < fs.clusterSize
    · rw [hfirst _ hin, hbuf _ hin, if_pos (by omega), Nat.add_sub_cancel_left]
    · obtain ⟨j, hj⟩ := Nat.exists_eq_add_of_le (Nat.le_of_not_lt hin)
      have hfull : min n (fs.clusterSize - used) = fs.clusterSize - used := by omega
      have hge : fs₃.chainByte ([c] ++ ns) (fs.clusterSize + j) = fs₃.chainByte ns j := by
        rw [← hcs₃, List.singleton_append, chainByte_ge (by rw [hcs₃]; exact hcs)]
      have hnew : fs₃.chainByte ns j = fs₂.chainByte ns j :=
        chainByte_eq_of hsame₃.clusterSize (by rw [hcs₂]; exact hcs) (by rw [hcs₂]; omega)
          fun d hd k hk => hkeep d (List.mem_append_right _ hd) k (by rw [← hcs₂]; exact hk)
      have hk' : fs.clusterSize - used + j = k := by omega
      rw [hj, hge, hnew, hbytes j (by omega), bytesFrom, hfull, hk']
  · refine hlast.imp (fun h => by omega) fun h => ?_
    rw [allocateCluster, allocateClusterLoop_congr htable₃ hsame₃.clusterCount]
    exact h

/-! ### The law -/

/-- A file `append` can be called on: its chain holds its bytes and its directory entry is where the
inode says. -/
structure Appendable (fs : FAT12FS) (node : Fat12Inode) (l : List Nat) : Prop where
  mounted : Mounted fs
  coherent : Coherent fs
  small : fs.bpb.sectorsPerCluster ≤ 64
  file : IsFile fs node l
  holds : node.size ≤ l.length * fs.clusterSize
  entry : HasEntry fs node.location l

/-- What a caller of `append` relies on when `r` of the `n` bytes of `src` are reported as written. -/
structure AppendLaw (fs fs' : FAT12FS) (node node' : Fat12Inode) (l : List Nat) (src : ByteMap)
    (n r : Nat) : Prop where
  le : r ≤ n
  full : r = n ∨ fs'.allocateCluster = .ret 0
  size : node'.size = node.size + r
  read : ∀ out, ∃ out' fs'', fs'.read (some node') out ((node.size + r : Nat) : Int) 0 =
      .ret (((node.size + r : Nat) : Int), out', fs'') ∧
    (∀ p, p < node.size → out' p = fs.chainByte l p) ∧ ∀ k, k < r → out' (node.size + k) = src k

/-- Every `append` to the file that does not fail keeps the law. -/
def AppendsRight (fs : FAT12FS) (node : Fat12Inode) (l : List Nat) : Prop :=
  ∀ (src : ByteMap) (n : Nat) (r : Int) (node' : Fat12Inode) (fs' : FAT12FS), 0 < n →
    fs.append (some node) src n = .ret (r, some node', fs') → 0 ≤ r →
    AppendLaw fs fs' node node' l src n r.toNat

/-- An empty file is given a first cluster. -/
theorem appendStart_spec {fs fs₁ : FAT12FS} {node node₁ : Fat12Inode} (hm : Mounted fs) (hcoh : Coherent fs)
    (hzero : node.startCluster = 0) (hrun : fs.appendStart node = .ret (some node₁, fs₁)) :
    ∃ c, c ≠ 0 ∧ fs.fatTable c = 0 ∧ node₁ = { node with startCluster := c } ∧ Coherent fs₁ ∧
      SameVolume fs fs₁ ∧ fs₁.clusterByte = fs.clusterByte ∧
      fs₁.fatTable = Function.update fs.fatTable c 0xFFF := by
  rw [appendStart, if_pos hzero] at hrun
  obtain ⟨c, halloc, hrun⟩ := Outcome.bind_eq_ret hrun
  by_cases hc : c = 0
  · rw [if_pos hc] at hrun
    simp at hrun
  · rw [if_neg hc] at hrun
    obtain ⟨fs₂, hflush, hcoh₂, hsame, htable, hbyte⟩ := flush_data
      { fs.setFat c 0xFFF with fatTableDirty := true } (hm.congr ⟨rfl, rfl, rfl, rfl, rfl, rfl, rfl⟩)
      ⟨hcoh.unused, hcoh.clean, hcoh.content, hcoh.unique⟩
    rw [hflush] at hrun
    simp only [Outcome.pure_eq, Outcome.ret.injEq, Prod.mk.injEq, Option.some.injEq] at hrun
    obtain ⟨rfl, rfl⟩ := hrun
    exact ⟨c, hc, allocateClusterLoop_free halloc hc, rfl, hcoh₂,
      ⟨hsame.this, hsame.bpb, hsame.fails, hsame.dataStartSector, hsame.rootEntries, hsame.clusterCount,
        hsame.clusterSize⟩, hbyte, htable⟩

/-- The start cluster of a file is that of its chain. -/
theorem Linked.nil_iff {fs : FAT12FS} {start : Nat} {l : List Nat} (h : Linked fs start l) :
    l = [] ↔ start = 0 := by
  have hwalk := h.walk
  rw [chainHead] at hwalk
  constructor
  · rintro rfl
    by_contra hne
    rw [if_neg hne] at hwalk
    simp at hwalk
  · intro hzero
    rw [if_pos hzero] at hwalk
    cases l with
    | nil => rfl
    | cons c l => simp at hwalk

/-- `append` to a file without clusters, once it has its first one. -/
theorem appendFirst_spec {fs fs₁ fs' : FAT12FS} {node node₁ node' : Fat12Inode} {n r : Nat}
    {src : ByteMap} (h : Appendable fs node []) (hn : 0 < n)
    (hstart : fs.appendStart node = .ret (some node₁, fs₁))
    (hrun : fs₁.appendRest node₁ src n = .ret (r, node', fs')) :
    ∃ ns, Grown fs fs' node'.startCluster [] ns 0 r src ∧ 0 < r ∧ r ≤ n ∧
      (r = n ∨ fs'.allocateCluster = .ret 0) ∧
      node' = { node with startCluster := node'.startCluster, size := (node.size + r) % 2 ^ 32 } := by
  have hsize : node.size = 0 := by simpa using h.holds
  obtain ⟨c, hc, hfree, rfl, hcoh₁, hsame₁, hbyte₁, htable₁⟩ := appendStart_spec h.mounted h.coherent
    (h.file.chain.nil_iff.mp rfl) hstart
  have hm₁ := h.mounted.congr hsame₁
  have hmark : fs₁.fatTable c = 0xFFF := by rw [htable₁, Function.update_self]
  have hvalid : IsCluster c := by
    have hrun' := hrun
    rw [appendRest] at hrun'
    obtain ⟨last, hlast, hrun'⟩ := Outcome.bind_eq_ret hrun'
    rw [lastCluster, lastClusterLoop, hmark, if_neg (by decide)] at hlast
    obtain rfl := Outcome.ret.inj hlast
    obtain ⟨x, hfill, -⟩ := Outcome.bind_eq_ret hrun'
    exact isCluster_of_fillLast (Nat.mod_lt _ hm₁.clusterSize_pos) hfill
  have hwalk : Walk (fatNext fs₁.fatTable) (some c) ([] ++ [c]) := by
    rw [List.nil_append, Walk.cons_iff, Walk.nil_iff, fatNext, hmark]
    exact ⟨rfl, rfl⟩
  have hentry : HasEntry fs₁ node.location ([] ++ [c]) := by
    have hne : node.location.isRoot = false → node.location.currentCluster ≠ c := fun hsub heq =>
      h.entry.allocated hsub (heq ▸ hfree)
    refine ⟨h.entry.cluster, fun hsub => ?_, fun hsub => by simpa using hne hsub, fun hsub => ?_,
      fun hsub => ?_⟩
    · rw [htable₁, Function.update_of_ne (hne hsub)]
      exact h.entry.allocated hsub
    · rw [hsame₁.clusterSize]
      exact h.entry.inside hsub
    · rw [hbyte₁]
      exact h.entry.valid hsub
  have hlinks₁ : ∀ d ∈ [] ++ [c], InChain d := fun d hd => by
    obtain rfl := List.mem_singleton.mp hd
    exact hvalid.inChain
  obtain ⟨ns, hgrown, hpos, hle, hfull, rfl⟩ := @appendRest_spec fs₁ fs'
    { node with startCluster := c } node' [] c n r src hm₁ hcoh₁ hwalk hlinks₁ hentry hn hrun
  refine ⟨c :: ns, ⟨hgrown.coherent, hsame₁.trans hgrown.same, hgrown.walk, hgrown.links,
    List.forall_mem_cons.mpr ⟨hvalid, hgrown.fresh⟩, ?_, fun p hp => absurd hp (Nat.not_lt_zero p), fun k hk => ?_⟩, hpos, hle, hfull, rfl⟩
  · have hfits := hgrown.fits
    rw [hsame₁.clusterSize] at hfits
    simp only [hsize, Nat.zero_mod, List.length_nil, Nat.zero_mul, Nat.zero_add] at hfits
    rw [Nat.zero_add]
    exact hfits
  · have hwritten := hgrown.written k hk
    simp only [hsize, Nat.zero_mod, List.length_nil, Nat.zero_mul, Nat.zero_add] at hwritten
    rw [Nat.zero_add]
    exact hwritten

theorem Appendable.startCluster_ge {fs : FAT12FS} {node : Fat12Inode} {l : List Nat}
    (h : Appendable fs node l) : ¬(node.startCluster ≠ 0 ∧ node.startCluster < 2) := fun hbad => by
  obtain ⟨c, m, rfl⟩ := List.exists_cons_of_ne_nil fun hl => hbad.1 (h.file.chain.nil_iff.mp hl)
  have hwalk := h.file.chain.walk
  rw [chainHead, if_neg hbad.1] at hwalk
  have hc := (h.file.chain.links c List.mem_cons_self).1
  obtain rfl := Option.some.inj hwalk.1
  omega

/-- `append` to any file. -/
theorem append_spec {fs fs' : FAT12FS} {node node' : Fat12Inode} {l : List Nat} {n : Nat} {r : Int}
    {src : ByteMap} (h : Appendable fs node l) (hn : 0 < n)
    (hrun : fs.append (some node) src n = .ret (r, some node', fs')) (hr : 0 ≤ r) :
    ∃ ns r', r = ((r' : Nat) : Int) ∧ Grown fs fs' node'.startCluster l ns
        ((l.length - 1) * fs.clusterSize + node.size % fs.clusterSize) r' src ∧
      0 < r' ∧ r' ≤ n ∧ (r' = n ∨ fs'.allocateCluster = .ret 0) ∧
      node' = { node with startCluster := node'.startCluster, size := (node.size + r') % 2 ^ 32 } := by
  have hnil := h.file.chain.nil_iff
  have hpos : ¬((n : Int) ≤ 0) := by omega
  rw [append] at hrun
  simp only [if_neg (not_not_intro h.file.volume), if_neg h.startCluster_ge, if_neg h.file.regular,
    if_neg hpos, Int.toNat_natCast] at hrun
  obtain ⟨⟨started, fs₁⟩, hstart, hrun⟩ := Outcome.bind_eq_ret hrun
  cases started with
  | none =>
      simp only [Outcome.pure_eq, Outcome.ret.injEq, Prod.mk.injEq] at hrun
      omega
  | some node₁ =>
      obtain ⟨⟨r', node₂, fs₂⟩, hrest, hrun⟩ := Outcome.bind_eq_ret hrun
      simp only [Outcome.pure_eq, Outcome.ret.injEq, Prod.mk.injEq, Option.some.injEq] at hrun
      obtain ⟨rfl, rfl, rfl⟩ := hrun
      by_cases hzero : node.startCluster = 0
      · obtain rfl := hnil.mpr hzero
        have hsize : node.size = 0 := by simpa using h.holds
        obtain ⟨ns, hgrown, hpos', hle, hfull, hnode⟩ := appendFirst_spec h hn hstart hrest
        refine ⟨ns, r', rfl, ?_, hpos', hle, hfull, hnode⟩
        rw [hsize, Nat.zero_mod, List.length_nil, Nat.zero_sub, Nat.zero_mul]
        exact hgrown
      · obtain ⟨pre, c, rfl⟩ : ∃ pre c, l = pre ++ [c] :=
          ⟨l.dropLast, l.getLast (fun hl => hzero (hnil.mp hl)), (List.dropLast_append_getLast _).symm⟩
        rw [appendStart, if_neg hzero] at hstart
        simp only [Outcome.pure_eq, Outcome.ret.injEq, Prod.mk.injEq, Option.some.injEq] at hstart
        obtain ⟨rfl, rfl⟩ := hstart
        have hwalk := h.file.chain.walk
        rw [chainHead, if_neg hzero] at hwalk
        obtain ⟨ns, hgrown, hpos', hle, hfull, rfl⟩ := appendRest_spec h.mounted h.coherent hwalk
          h.file.chain.links h.entry hn hrest
        refine ⟨ns, r', rfl, ?_, hpos', hle, hfull, rfl⟩
        rw [List.length_append, List.length_singleton, Nat.add_sub_cancel]
        exact hgrown

/-- A file that has grown. -/
theorem Grown.isFile {fs fs' : FAT12FS} {node' : Fat12Inode} {l ns : List Nat} {pos r : Nat} {src : ByteMap}
    (h : Grown fs fs' node'.startCluster l ns pos r src) (hr : 0 < r) (hvolume : node'.fat12Fs = fs.this)
    (hattr : ¬IsSpecial node'.attr) : l ++ ns ≠ [] ∧ IsFile fs' node' (l ++ ns) := by
  have hne : l ++ ns ≠ [] := fun hnil => by
    have hfits := h.fits
    rw [hnil, List.length_nil, Nat.zero_mul] at hfits
    omega
  have hstart : node'.startCluster ≠ 0 := fun hzero => by
    obtain ⟨c, m, hcons⟩ := List.exists_cons_of_ne_nil hne
    have hwalk := h.walk
    have hlink := (h.links c (by rw [hcons]; exact List.mem_cons_self)).1
    rw [hcons, hzero] at hwalk
    obtain rfl := Option.some.inj hwalk.1
    omega
  refine ⟨hne, by rw [h.same.this]; exact hvolume, hattr, ?_, h.links⟩
  rw [chainHead, if_neg hstart]
  exact h.walk

/-- A file that has grown is read from its new chain. -/
theorem Grown.read {fs fs' : FAT12FS} {node node' : Fat12Inode} {l ns : List Nat} {pos r n : Nat}
    {src : ByteMap} (hgrown : Grown fs fs' node'.startCluster l ns pos r src) (h : Appendable fs node l)
    (hr : 0 < r) (hnode : node'.fat12Fs = node.fat12Fs) (hattr : node'.attr = node.attr)
    (hserved : Served fs.clusterSize (l ++ ns) 0 n) (hn : 0 < n) (hsize : n ≤ node'.size)
    (hsize' : node'.size < 2 ^ 31) (out : ByteMap) :
    ∃ out' fs'', fs'.read (some node') out n 0 =
        .ret ((min n ((l ++ ns).length * fs.clusterSize) : Nat), out', fs'') ∧
      ∀ k, k < min n ((l ++ ns).length * fs.clusterSize) → out' k = fs'.chainByte (l ++ ns) k := by
  have hcs := hgrown.same.clusterSize
  have hsmall := h.small
  have hcsize := h.mounted.clusterSize
  obtain ⟨hne, hfile⟩ := hgrown.isFile hr (hnode.trans h.file.volume) (by rw [hattr]; exact h.file.regular)
  have hread := read_spec (h.mounted.congr hgrown.same) hgrown.coherent (by rw [hcs]; omega) hfile hne
    (by rwa [hcs]) hn hsize hsize' out
  rw [hcs] at hread
  exact hread

/-- A chain of a volume with clusters of at most 64 sectors holds less than 2^28 bytes. -/
theorem Appendable.capacity {fs : FAT12FS} {node : Fat12Inode} {l m : List Nat} {table : Nat → Nat}
    {head : Option Nat} (h : Appendable fs node l) (hwalk : Walk (fatNext table) head m)
    (hlinks : ∀ c ∈ m, InChain c) : m.length * fs.clusterSize < 2 ^ 28 := by
  have hlen := length_lt hwalk hlinks
  simp only [FAT12_MAX_CLUSTERS] at hlen
  have hcs : fs.clusterSize ≤ 2 ^ 15 := by
    have hsmall := h.small
    have hsize := h.mounted.clusterSize
    omega
  calc m.length * fs.clusterSize ≤ 4096 * 2 ^ 15 := Nat.mul_le_mul (Nat.le_of_lt hlen) hcs
    _ < 2 ^ 28 := by decide

/-- Where `append` writes is the end of the file when the chain has one cluster more than the file
fills. -/
theorem end_of_chain {fs : FAT12FS} {size n : Nat} (hlen : n = size / fs.clusterSize + 1) :
    (n - 1) * fs.clusterSize + size % fs.clusterSize = size := by
  rw [hlen, Nat.add_sub_cancel, Nat.mul_comm]
  exact Nat.div_add_mod _ _

/-- `append` keeps the law if the file ends in the last cluster of its chain and can be read. -/
theorem appendsRight_of_length {fs : FAT12FS} {node : Fat12Inode} {l : List Nat} (h : Appendable fs node l)
    (hlen : node.startCluster = 0 ∨ l.length = node.size / fs.clusterSize + 1) (hvalid : ∀ c ∈ l, IsCluster c) :
    AppendsRight fs node l := by
  intro src n r node' fs' hn hrun hr
  obtain ⟨ns, r', rfl, hgrown, hpos, hle, hfull, hnode⟩ := append_spec h hn hrun hr
  have hend : (l.length - 1) * fs.clusterSize + node.size % fs.clusterSize = node.size := by
    rcases hlen with hzero | hlen
    · obtain rfl := h.file.chain.nil_iff.mpr hzero
      have hsize : node.size = 0 := by simpa using h.holds
      simp [hsize]
    · exact end_of_chain hlen
  rw [hend] at hgrown
  have hcap := h.capacity hgrown.walk hgrown.links
  have hfits := hgrown.fits
  have hsize : node'.size = node.size + r' := by
    rw [hnode]
    exact Nat.mod_eq_of_lt (by omega)
  have hserved : Served fs.clusterSize (l ++ ns) 0 (node.size + r') := .of_valid fun c hc =>
    (List.mem_append.mp hc).elim (hvalid c) (hgrown.fresh c)
  rw [Int.toNat_natCast]
  refine ⟨hle, hfull, hsize, fun out => ?_⟩
  obtain ⟨out', fs'', hread, hbytes⟩ := hgrown.read h hpos (by rw [hnode]) (by rw [hnode]) hserved
    (by omega) (by omega) (by omega) out
  rw [Nat.min_eq_left hfits] at hread hbytes
  exact ⟨out', fs'', hread, fun p hp => by rw [hbytes p (by omega), hgrown.before p hp],
    fun k hk => by rw [hbytes _ (by omega), hgrown.written k hk]⟩

/-- `append` does not return if `get_cache` does not take the last cluster. -/
theorem append_halts {fs fs' : FAT12FS} {node node' : Fat12Inode} {pre : List Nat} {c n : Nat} {r : Int}
    {src : ByteMap} (h : Appendable fs node (pre ++ [c])) (hc : ¬IsCluster c) (hn : 0 < n)
    (hrun : fs.append (some node) src n = .ret (r, some node', fs')) : False := by
  have hzero : node.startCluster ≠ 0 := fun hzero => by simpa using h.file.chain.nil_iff.mpr hzero
  have hpos : ¬((n : Int) ≤ 0) := by omega
  have hshort : pre.length < FAT12_MAX_CLUSTERS + 1 := by
    have hlen := length_lt h.file.chain.walk h.file.chain.links
    rw [List.length_append] at hlen
    omega
  have hwalk := h.file.chain.walk
  rw [chainHead, if_neg hzero] at hwalk
  rw [append] at hrun
  simp only [if_neg (not_not_intro h.file.volume), if_neg h.startCluster_ge, if_neg h.file.regular,
    if_neg hpos, Int.toNat_natCast, appendStart, if_neg hzero, Outcome.pure_eq, Outcome.ret_bind] at hrun
  obtain ⟨x, hrest, -⟩ := Outcome.bind_eq_ret hrun
  rw [appendRest, lastCluster, lastClusterLoop_spec hwalk h.file.chain.links hshort, Outcome.ret_bind] at hrest
  obtain ⟨y, hfill, -⟩ := Outcome.bind_eq_ret hrest
  exact hc (isCluster_of_fillLast (Nat.mod_lt _ h.mounted.clusterSize_pos) hfill)

/-- The directory entry is not in a cluster of the file, so writing one leaves it alone. -/
theorem HasEntry.stored {fs fs' : FAT12FS} {location : EntryLocation} {l : List Nat} {c : Nat}
    {buf : ByteMap} (h : HasEntry fs location l) (hstored : Stored fs fs' c buf) (hc : c ∈ l) :
    HasEntry fs' location l := by
  refine ⟨h.cluster, by rw [hstored.fatTable]; exact h.allocated, h.apart,
    by rw [hstored.same.clusterSize]; exact h.inside, fun hsub => ?_⟩
  have hcluster := h.cluster hsub
  have hin := h.inside hsub
  simp only [FAT12_ENTRY_BYTES] at hin
  have hbyte : ∀ k, k < fs.clusterSize → fs'.clusterByte location.currentCluster k =
      fs.clusterByte location.currentCluster k := fun k hk => by
    have hne : location.currentCluster ≠ c := fun heq => h.apart hsub (by rw [heq]; exact hc)
    rw [hstored.byte _ k hcluster.1 hk, if_neg hne]
  rw [read_accepts_congr (hbyte _ (by simp only [FAT12_ENTRY_BYTES]; omega))
    (hbyte _ (by simp only [FAT12_ENTRY_BYTES]; omega))]
  exact h.valid hsub

/-- One byte always fits into the last cluster. -/
theorem appendRest_one {fs : FAT12FS} {node : Fat12Inode} {pre : List Nat} {c : Nat}
    (hm : Mounted fs) (hcoh : Coherent fs)
    (hwalk : Walk (fatNext fs.fatTable) (some node.startCluster) (pre ++ [c]))
    (hlinks : ∀ d ∈ pre ++ [c], InChain d) (hc : IsCluster c) (hentry : HasEntry fs node.location (pre ++ [c]))
    (src : ByteMap) :
    ∃ fs', fs.appendRest node src 1 =
      .ret (1, { node with size := (node.size + 1) % 2 ^ 32 }, fs') ∧ fs'.fatTable = fs.fatTable := by
  have hshort : pre.length < FAT12_MAX_CLUSTERS + 1 := by
    have hlen := length_lt hwalk hlinks
    rw [List.length_append] at hlen
    omega
  have hused := Nat.mod_lt node.size hm.clusterSize_pos
  obtain ⟨fs₁, buf, hfill, hstored, -⟩ := fillLast_spec hm hcoh hc hused src 1
  have hone : min 1 (fs.clusterSize - node.size % fs.clusterSize) = 1 := by omega
  rw [hone] at hfill
  have hm₁ := hm.congr hstored.same
  obtain ⟨fs₂, hupdate⟩ := @updateEntry_returns fs₁ { node with size := (node.size + 1) % 2 ^ 32 } _ hm₁
    hstored.coherent (hentry.stored hstored (by simp))
  refine ⟨fs₂, ?_, (updateEntry_frame hm₁ hstored.coherent hupdate).2.2.1.trans hstored.fatTable⟩
  rw [appendRest, lastCluster, lastClusterLoop_spec hwalk hlinks hshort]
  simp only [Outcome.ret_bind, hfill, appendLoop, Nat.sub_self, gt_iff_lt, lt_self_iff_false, if_false,
    Outcome.pure_eq, Nat.zero_lt_one, if_true, hupdate]

/-- Appending one byte to a file that has clusters: no cluster is added. -/
theorem append_one {fs : FAT12FS} {node : Fat12Inode} {pre : List Nat} {c : Nat}
    (h : Appendable fs node (pre ++ [c])) (hc : IsCluster c) (src : ByteMap) :
    ∃ node' fs', fs.append (some node) src 1 = .ret (1, some node', fs') ∧
      node' = { node with size := (node.size + 1) % 2 ^ 32 } ∧
      Grown fs fs' node'.startCluster (pre ++ [c]) []
        (pre.length * fs.clusterSize + node.size % fs.clusterSize) 1 src := by
  have hstart : node.startCluster ≠ 0 := fun hzero => by simpa using h.file.chain.nil_iff.mpr hzero
  have hwalk := h.file.chain.walk
  rw [chainHead, if_neg hstart] at hwalk
  obtain ⟨fs', hrest, htable⟩ := appendRest_one h.mounted h.coherent hwalk h.file.chain.links hc h.entry src
  have hrun : fs.append (some node) src ((1 : Nat) : Int) =
      .ret (1, some { node with size := (node.size + 1) % 2 ^ 32 }, fs') := by
    rw [append]
    simp only [if_neg (not_not_intro h.file.volume), if_neg h.startCluster_ge, if_neg h.file.regular,
      Int.toNat_natCast, appendStart, if_neg hstart]
    simp [hrest]
  obtain ⟨ns, r', hr, hgrown, -⟩ := append_spec h (Nat.zero_lt_one) hrun (by omega)
  obtain rfl : r' = 1 := by omega
  refine ⟨_, fs', hrun, rfl, ?_⟩
  have hunique := hgrown.walk
  rw [htable] at hunique
  obtain rfl : ns = [] := by simpa using hunique.unique hwalk
  rw [List.length_append, List.length_singleton, Nat.add_sub_cancel] at hgrown
  exact hgrown

/-- Where the law is kept when one byte is appended, `get_cache` takes the clusters of the file, the chain ends
behind the byte, and the byte is where the file ended. -/
theorem append_one_law {fs : FAT12FS} {node : Fat12Inode} {pre : List Nat} {c : Nat}
    (h : Appendable fs node (pre ++ [c])) (hc : IsCluster c) (src : ByteMap) :
    ∃ node' fs', fs.append (some node) src 1 = .ret (1, some node', fs') ∧
      (AppendLaw fs fs' node node' (pre ++ [c]) src 1 1 →
        Served fs.clusterSize (pre ++ [c]) 0 (node.size + 1) ∧
          node.size < (pre ++ [c]).length * fs.clusterSize ∧
          (node.size < pre.length * fs.clusterSize → src 0 = fs.chainByte (pre ++ [c]) node.size)) := by
  obtain ⟨node', fs', hrun, rfl, hgrown⟩ := append_one h hc src
  refine ⟨_, fs', hrun, fun hlaw => ?_⟩
  have hcap := h.capacity h.file.chain.walk h.file.chain.links
  have hholds := h.holds
  have hsize : node.size + 1 = (node.size + 1) % 2 ^ 32 := hlaw.size.symm
  have hcs := hgrown.same.clusterSize
  obtain ⟨hne, hfile⟩ := hgrown.isFile Nat.zero_lt_one h.file.volume h.file.regular
  rw [List.append_nil] at hne hfile
  obtain ⟨out', fs'', hread, -, hnew⟩ := hlaw.read (fun _ => 0)
  have hserved := served_of_read (h.mounted.congr hgrown.same) hgrown.coherent hfile hne
    (by omega : 0 < node.size + 1) (by dsimp only; omega) (by dsimp only; omega) hread
  rw [hcs] at hserved
  obtain ⟨out₂, fs₂, hread₂, hbytes⟩ := hgrown.read h Nat.zero_lt_one rfl rfl (n := node.size + 1)
    (by rwa [List.append_nil]) (Nat.succ_pos _) (by dsimp only; omega) (by dsimp only; omega) (fun _ => 0)
  rw [List.append_nil] at hread₂ hbytes
  have hread' := hread
  rw [hread₂] at hread'
  obtain ⟨hcount, hout⟩ := Prod.mk.inj (Outcome.ret.inj hread')
  obtain rfl : out₂ = out' := (Prod.mk.inj hout).1
  have hroom : node.size < (pre ++ [c]).length * fs.clusterSize := by
    have hmin := Int.ofNat.inj hcount
    omega
  refine ⟨hserved, hroom, fun hbefore => ?_⟩
  have hnew₀ := hnew 0 Nat.zero_lt_one
  have hold := hgrown.before node.size (by omega)
  rw [List.append_nil] at hold
  rw [Nat.add_zero, hbytes _ (by omega), hold] at hnew₀
  exact hnew₀.symm

/-- `append` keeps the law on a file exactly when the file is empty, `get_cache` does not take its last cluster,
so that `append` does not return, or the file ends in the last cluster of its chain and `get_cache` takes them
all; a file that fills its last cluster loses it. -/
theorem appendsRight_iff {fs : FAT12FS} {node : Fat12Inode} {l : List Nat} (h : Appendable fs node l) :
    AppendsRight fs node l ↔ node.startCluster = 0 ∨ (∃ c ∈ l.getLast?, ¬IsCluster c) ∨
      (l.length = node.size / fs.clusterSize + 1 ∧ ∀ c ∈ l, IsCluster c) := by
  have hcs := h.mounted.clusterSize_pos
  rcases l.eq_nil_or_concat with rfl | ⟨pre, c, rfl⟩
  · have hzero := h.file.chain.nil_iff.mp rfl
    exact ⟨fun _ => Or.inl hzero, fun _ => appendsRight_of_length h (Or.inl hzero) (by simp)⟩
  rw [List.concat_eq_append] at *
  have hstart : node.startCluster ≠ 0 := fun hzero => by simpa using h.file.chain.nil_iff.mpr hzero
  constructor
  · intro hright
    by_cases hc : IsCluster c
    swap
    · exact Or.inr (Or.inl ⟨c, by simp, hc⟩)
    obtain ⟨node', fs', hrun, hlaw⟩ := append_one_law h hc fun _ => fs.chainByte (pre ++ [c]) node.size + 1
    obtain ⟨hserved, hroom, hat⟩ := hlaw (hright _ 1 1 node' fs' Nat.zero_lt_one hrun (by decide))
    have hlow : ¬node.size < pre.length * fs.clusterSize := fun hbefore => by simpa using hat hbefore
    rw [List.length_append, List.length_singleton, Nat.add_mul, Nat.one_mul] at hroom
    have hlen : node.size / fs.clusterSize = pre.length :=
      Nat.div_eq_of_lt_le (by omega) (by rw [Nat.add_mul, Nat.one_mul]; omega)
    refine Or.inr (Or.inr ⟨by rw [hlen, List.length_append, List.length_singleton], fun d hd => ?_⟩)
    obtain ⟨i, hi, rfl⟩ := List.getElem_of_mem hd
    rw [List.length_append, List.length_singleton] at hi
    have hle : i * fs.clusterSize ≤ pre.length * fs.clusterSize := Nat.mul_le_mul_right _ (by omega)
    have htaken := hserved (i * fs.clusterSize) (Nat.zero_le _) (by omega)
      (Nat.mul_lt_mul_of_pos_right (by simpa using hi) hcs)
    rwa [Nat.mul_div_cancel _ hcs, List.getD_eq_getElem _ 0 (by simpa using hi)] at htaken
  · rintro (hzero | ⟨d, hd, hrefused⟩ | ⟨hlen, hvalid⟩)
    · exact absurd hzero hstart
    · obtain rfl : c = d := by simpa using hd
      exact fun src n r node' fs' hn hrun _ => (append_halts h hrefused hn hrun).elim
    · exact appendsRight_of_length h (Or.inr hlen) hvalid

/-! ### A volume with one file -/

/-- A volume whose only file has cluster 2. -/
def oneCluster : FAT12FS :=
  { mounting (fun _ _ => 0) with fatTable := fun i => if i = 2 then 0xFFF else 0 }

/-- The file, entry 0 of the root directory. -/
def fileOfSize (size : Nat) : Fat12Inode where
  fat12Fs := 0
  size := size
  startCluster := 2
  attr := 0x20
  location := { isRoot := true, currentCluster := 0, entryIndexInCluster := 0, rootIndex := 0 }

theorem oneCluster_appendable {size : Nat} (h : size ≤ 512) :
    Appendable oneCluster (fileOfSize size) [2] := by
  have hempty : ∀ i, ¬2 ≤ (oneCluster.cachePool i).clusterNum := fun _ => Nat.not_succ_le_zero 1
  have hroot : ¬(fileOfSize size).location.isRoot = false := Bool.noConfusion
  have hattr : ¬IsSpecial 0x20 := by decide
  refine ⟨⟨fun _ => rfl, rfl, by decide, rfl, by decide, rfl⟩,
    ⟨fun _ _ => rfl, fun _ _ => rfl, fun i _ hi => absurd hi (hempty i),
      fun i _ _ _ hi => absurd hi (hempty i)⟩,
    by decide, ⟨rfl, hattr, ⟨⟨rfl, rfl⟩, fun c hc => ?_⟩⟩, ?_,
    ⟨fun h => absurd h hroot, fun h => absurd h hroot, fun h => absurd h hroot, fun h => absurd h hroot,
      fun h => absurd h hroot⟩⟩
  · obtain rfl := List.mem_singleton.mp hc
    exact ⟨le_refl 2, by decide⟩
  · change size ≤ 1 * 512
    omega

/-- 100 bytes end inside the cluster. -/
theorem appendsRight_inside : AppendsRight oneCluster (fileOfSize 100) [2] :=
  (appendsRight_iff (oneCluster_appendable (by decide))).mpr (Or.inr (Or.inr ⟨rfl, fun c hc => by
    obtain rfl := List.mem_singleton.mp hc
    exact ⟨le_refl 2, by decide⟩⟩))

/-- A file of exactly one cluster: the byte appended to it is not found. -/
theorem not_appendLaw_oneCluster : Appendable oneCluster (fileOfSize 512) [2] ∧ ∃ node' fs',
    oneCluster.append (some (fileOfSize 512)) (fun _ => 0x41) 1 = .ret (1, some node', fs') ∧
      ¬AppendLaw oneCluster fs' (fileOfSize 512) node' [2] (fun _ => 0x41) 1 1 := by
  have h : Appendable oneCluster (fileOfSize 512) ([] ++ [2]) := oneCluster_appendable (le_refl 512)
  obtain ⟨node', fs', hrun, hlaw⟩ := append_one_law h ⟨le_refl 2, by decide⟩ fun _ => 0x41
  exact ⟨h, node', fs', hrun, fun hkept => absurd (hlaw hkept).2.1 (lt_irrefl 512)⟩

end SysuOs.FAT12FS
