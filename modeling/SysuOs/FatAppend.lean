import Mathlib
import SysuOs.FatFile

/-! What `append` does to a file. It writes at offset `size % cluster_size` of the last cluster of the
chain, which is where the file ends exactly when the chain has `size / cluster_size + 1` clusters. -/

namespace SysuOs.FAT12FS

/-! ### The FAT -/

/-- A cluster that is allocated was free. -/
theorem allocateClusterLoop_free {fs : FAT12FS} {fuel idx c : Nat}
    (h : fs.allocateClusterLoop fuel idx = .ret c) (hc : c ≠ 0) : fs.fatTable c = 0 := by
  induction fuel generalizing idx with
  | zero => simp [allocateClusterLoop] at h
  | succ fuel ih =>
      rw [allocateClusterLoop] at h
      by_cases hlt : idx < fs.clusterCount
      · rw [if_pos hlt] at h
        by_cases hfree : fs.fatTable idx = 0
        · rw [if_pos hfree] at h
          obtain rfl := Outcome.ret.inj h
          exact hfree
        · rw [if_neg hfree] at h
          exact ih h
      · rw [if_neg hlt] at h
        exact absurd (Outcome.ret.inj h).symm hc

theorem allocateClusterLoop_congr {fs fs' : FAT12FS} (htable : fs'.fatTable = fs.fatTable)
    (hcount : fs'.clusterCount = fs.clusterCount) (fuel idx : Nat) :
    fs'.allocateClusterLoop fuel idx = fs.allocateClusterLoop fuel idx := by
  induction fuel generalizing idx with
  | zero => rfl
  | succ fuel ih => rw [allocateClusterLoop, allocateClusterLoop, htable, hcount, ih]

/-- The clusters of a file are not free. -/
theorem walk_fatTable_ne {table : Nat → Nat} {head : Option Nat} {l : List Nat}
    (h : Walk (fatNext table) head l) (hlinks : ∀ c ∈ l, InChain c) : ∀ c ∈ l, table c ≠ 0 := by
  induction l generalizing head with
  | nil => intro c hc; simp at hc
  | cons d l ih =>
      intro c hc
      rcases List.mem_cons.mp hc with rfl | hc
      · intro hzero
        have htail := h.2
        rw [fatNext, hzero, follow, if_neg (by decide)] at htail
        cases l with
        | nil => simp at htail
        | cons e l =>
            have he := (hlinks e (by simp)).1
            obtain rfl := Option.some.inj htail.1
            omega
      · exact ih h.2 (fun c hc => hlinks c (List.mem_cons_of_mem d hc)) c hc

/-- The walk to the last cluster ends there. -/
theorem lastClusterLoop_spec {fs : FAT12FS} {pre : List Nat} {start c fuel : Nat}
    (hwalk : Walk (fatNext fs.fatTable) (some start) (pre ++ [c]))
    (hlinks : ∀ d ∈ pre ++ [c], InChain d) (hfuel : pre.length < fuel) :
    fs.lastClusterLoop fuel start = .ret c := by
  induction pre generalizing start fuel with
  | nil =>
      obtain ⟨fuel, rfl⟩ : ∃ n, fuel = n + 1 := ⟨fuel - 1, by omega⟩
      obtain ⟨hhead, hend⟩ := hwalk
      obtain rfl : start = c := Option.some.inj hhead
      have hmark : ¬(fs.fatTable start ≥ 2 ∧ fs.fatTable start < 0xFF8) := fun hgo => by
        rw [Walk.nil_iff, fatNext, follow, if_neg (by omega)] at hend
        simp at hend
      rw [lastClusterLoop, if_neg hmark]
      rfl
  | cons d pre ih =>
      obtain ⟨fuel, rfl⟩ : ∃ n, fuel = n + 1 := ⟨fuel - 1, by omega⟩
      obtain ⟨hhead, htail⟩ := hwalk
      obtain rfl : start = d := Option.some.inj hhead
      obtain ⟨e, he, hnext⟩ : ∃ e, InChain e ∧ fatNext fs.fatTable start = some e := by
        cases pre with
        | nil => exact ⟨c, hlinks c (by simp), htail.1⟩
        | cons e pre => exact ⟨e, hlinks e (by simp), htail.1⟩
      have htable : fs.fatTable start = e := by
        rw [fatNext, follow] at hnext
        split at hnext
        · simp at hnext
        · exact Option.some.inj hnext
      rw [hnext] at htail
      have h₁ := he.1
      have h₂ := he.2
      rw [lastClusterLoop, htable, if_pos ⟨h₁, by omega⟩]
      exact ih htail (fun d hd => hlinks d (List.mem_cons_of_mem start hd))
        (by rw [List.length_cons] at hfuel; omega)

/-- Flushing the FAT leaves the data clusters alone: it writes two sectors too many at most, and the
second FAT and the root directory lie in between. -/
theorem flush_data (fs : FAT12FS) (hm : Mounted fs) (hcoh : Coherent fs) :
    ∃ fs', fs.flushFatTable = (true, fs') ∧ Coherent fs' ∧ SameVolume fs fs' ∧
      fs'.fatTable = fs.fatTable ∧ fs'.clusterByte = fs.clusterByte := by
  obtain ⟨sector, r, t, hrun, -, hrest⟩ := flushFatTable_spec hm.reliable
  have hbyte : clusterByte { fs with
      device := { sector, fails := fs.device.fails, requests := r }, tmpSectorBuffer := t } =
      fs.clusterByte := by
    funext c k
    have hroot := hm.rootEntries
    have hstart := hm.dataStartSector
    simp only [rootSectors, FAT12_ENTRY_BYTES] at hstart
    have hbeyond : fs.bpb.reservedSectorCount + 3 * ((fs.bpb.fatSize16 + 2) / 3) ≤
        fs.dataStartSector + (c - 2) * fs.bpb.sectorsPerCluster + k / 512 := by omega
    exact congrFun (hrest _ (Or.inr hbeyond)) _
  refine ⟨_, hrun, ⟨hcoh.unused, hcoh.clean, fun i hi hnum k hk => ?_, hcoh.unique⟩,
    ⟨rfl, rfl, rfl, rfl, rfl, rfl, rfl⟩, rfl, hbyte⟩
  rw [hbyte]
  exact hcoh.content i hi hnum k hk

/-! ### The last cluster and new ones -/

/-- The last cluster is filled up from offset `used` on. -/
theorem fillLast_spec {fs : FAT12FS} (hm : Mounted fs) (hcoh : Coherent fs) {c used : Nat}
    (hc : IsCluster c) (hused : used < fs.clusterSize) (src : ByteMap) (size : Nat) :
    ∃ fs' buf, fs.fillLast c used src size =
        .ret (min size (fs.clusterSize - used), size - min size (fs.clusterSize - used), fs') ∧
      Stored fs fs' c buf ∧ ∀ k, k < fs.clusterSize →
        buf k = if used ≤ k ∧ k < used + min size (fs.clusterSize - used) then src (k - used)
          else fs.clusterByte c k := by
  obtain ⟨i, fs₁, hget, hpin⟩ := getCache_spec hm hcoh hc
  obtain ⟨fs₂, fs₃, hwrite, hrel, hstored⟩ := hpin.store hm hcoh hc.1
    (memcpy (fs₁.cachePool i).buf used src (min size (fs.clusterSize - used)))
  refine ⟨fs₃, _, ?_, hstored, fun k hk => ?_⟩
  · rw [fillLast, if_pos hused, hget]
    simp only [Outcome.ret_bind, hpin.same.clusterSize]
    rw [← edited, hwrite]
    simp only [Outcome.ret_bind, hrel, Outcome.pure_eq, if_true]
  · rw [memcpy, hpin.buf k hk]

/-- `fs'` is `fs` with the clusters `ns` put after the chain `l`. -/
structure Extended (fs fs' : FAT12FS) (start : Nat) (l ns : List Nat) : Prop where
  coherent : Coherent fs'
  same : SameVolume fs fs'
  walk : Walk (fatNext fs'.fatTable) (some start) (l ++ ns)
  valid : ∀ c ∈ ns, IsCluster c
  free : ∀ c ∈ ns, fs.fatTable c = 0
  byte : ∀ c k, 2 ≤ c → k < fs.clusterSize → c ∉ ns → fs'.clusterByte c k = fs.clusterByte c k

/-- Linking a cluster behind another and flushing the FAT. -/
theorem link_spec {fs : FAT12FS} (hm : Mounted fs) (hcoh : Coherent fs) (cluster new : Nat) :
    ∃ fs', ({ (fs.setFat cluster new).setFat new 0xFFF with
        fatTableDirty := true }).flushFatTable = (true, fs') ∧ Coherent fs' ∧ SameVolume fs fs' ∧
      fs'.clusterByte = fs.clusterByte ∧
      fs'.fatTable = Function.update (Function.update fs.fatTable cluster new) new 0xFFF := by
  obtain ⟨fs', hrun, hcoh', hsame, htable, hbyte⟩ := flush_data
    { (fs.setFat cluster new).setFat new 0xFFF with fatTableDirty := true }
    (hm.congr ⟨rfl, rfl, rfl, rfl, rfl, rfl, rfl⟩) ⟨hcoh.unused, hcoh.clean, hcoh.content, hcoh.unique⟩
  have hsame' : SameVolume fs fs' :=
    ⟨hsame.this, hsame.bpb, hsame.fails, hsame.dataStartSector, hsame.rootEntries, hsame.clusterCount,
      hsame.clusterSize⟩
  exact ⟨fs', hrun, hcoh', hsame', hbyte, htable⟩

/-- A free cluster linked to the end of a chain. -/
theorem linked_walk {table : Nat → Nat} {pre : List Nat} {start cluster new : Nat}
    (hwalk : Walk (fatNext table) (some start) (pre ++ [cluster]))
    (hlinks : ∀ c ∈ pre ++ [cluster], InChain c) (hfree : table new = 0) (hnew : IsCluster new) :
    Walk (fatNext (Function.update (Function.update table cluster new) new 0xFFF)) (some start)
      (pre ++ [cluster] ++ [new]) := by
  rw [List.append_assoc]
  have hnot : new ∉ pre ++ [cluster] := fun hmem => walk_fatTable_ne hwalk hlinks new hmem hfree
  have hne : cluster ≠ new := fun he => hnot (by simp [he])
  have hlt := hnew.2
  refine hwalk.concat hnot ?_ ?_ fun c hc hc' => ?_
  · rw [fatNext, Function.update_of_ne hne, Function.update_self, follow, if_neg (by omega)]
  · rw [fatNext, Function.update_self]
    rfl
  · rw [fatNext, Function.update_of_ne hc', Function.update_of_ne hc]
    rfl

/-- What is free after linking was free before. -/
theorem update_free {table : Nat → Nat} {cluster new c : Nat} (hnew : IsCluster new)
    (h : Function.update (Function.update table cluster new) new 0xFFF c = 0) : c ≠ new ∧ table c = 0 := by
  have hne : c ≠ new := fun he => by
    rw [he, Function.update_self] at h
    omega
  have hne' : c ≠ cluster := fun he => by
    rw [Function.update_of_ne hne, he, Function.update_self] at h
    have hge := hnew.1
    omega
  rw [Function.update_of_ne hne, Function.update_of_ne hne'] at h
  exact ⟨hne, h⟩

/-- A new cluster is filled: zeros behind the bytes that are written. -/
theorem storeNew_spec {fs : FAT12FS} (hm : Mounted fs) (hcoh : Coherent fs) {c : Nat}
    (hc : IsCluster c) (src : ByteMap) (chunk : Nat) :
    ∃ i fs₁ fs₂ fs₃ buf, fs.getCache c = .ret (some i, fs₁) ∧ fs₁.clusterSize = fs.clusterSize ∧
      (fs₁.edited i (memcpy (memzero (fs₁.cachePool i).buf fs.clusterSize) 0 src chunk)).writeCluster i =
        .ret (true, fs₂) ∧ fs₂.releaseCache i = .ret fs₃ ∧ Stored fs fs₃ c buf ∧
      ∀ k, k < chunk → buf k = src k := by
  obtain ⟨i, fs₁, hget, hpin⟩ := getCache_spec hm hcoh hc
  obtain ⟨fs₂, fs₃, hwrite, hrel, hstored⟩ := hpin.store hm hcoh hc.1
    (memcpy (memzero (fs₁.cachePool i).buf fs.clusterSize) 0 src chunk)
  refine ⟨i, fs₁, fs₂, fs₃, _, hget, hpin.same.clusterSize, hwrite, hrel, hstored, fun k hk => ?_⟩
  rw [memcpy_in (Nat.zero_le k) (by omega), Nat.sub_zero]

/-- A cluster is only got if it is one. -/
theorem isCluster_of_getCache {fs fs' : FAT12FS} {c i : Nat} (h : fs.getCache c = .ret (some i, fs')) :
    IsCluster c := by
  by_contra hnot
  have hout : c < 2 ∨ c ≥ 0xFF0 := by
    rw [IsCluster] at hnot
    omega
  rw [getCache, if_pos hout] at h
  simp at h

/-- Whatever the loop of `append` returns, it has put `ns` new clusters behind the last one and filled
them with `written` bytes, all there were unless the volume is full. -/
theorem appendLoop_spec {fuel : Nat} {fs fs' : FAT12FS} {pre : List Nat}
    {start cluster size appended total : Nat} {src : ByteMap} (hm : Mounted fs) (hcoh : Coherent fs)
    (hwalk : Walk (fatNext fs.fatTable) (some start) (pre ++ [cluster]))
    (hlinks : ∀ c ∈ pre ++ [cluster], InChain c)
    (hrun : fs.appendLoop fuel cluster src size appended = .ret (total, fs')) :
    ∃ ns written, total = appended + written ∧ Extended fs fs' start (pre ++ [cluster]) ns ∧
      written ≤ size ∧ written ≤ ns.length * fs.clusterSize ∧
      (written = size ∨ fs'.allocateCluster = .ret 0) ∧
      ∀ k, k < written → fs'.chainByte ns k = src k := by
  have hcs := hm.clusterSize_pos
  induction fuel generalizing fs pre cluster size appended src with
  | zero => simp [appendLoop] at hrun
  | succ fuel ih =>
      have hstop : fs' = fs → total = appended → (0 = size ∨ fs'.allocateCluster = .ret 0) →
          ∃ ns written, total = appended + written ∧ Extended fs fs' start (pre ++ [cluster]) ns ∧
            written ≤ size ∧ written ≤ ns.length * fs.clusterSize ∧
                  (written = size ∨ fs'.allocateCluster = .ret 0) ∧
            ∀ k, k < written → fs'.chainByte ns k = src k := by
        rintro rfl rfl hlast
        refine ⟨[], 0, rfl, ⟨hcoh, SameVolume.refl _, ?_, ?_, ?_, fun _ _ _ _ _ => rfl⟩, Nat.zero_le _,
          Nat.zero_le _, hlast, fun k hk => absurd hk (Nat.not_lt_zero k)⟩
        · rw [List.append_nil]
          exact hwalk
        · simp
        · simp
      rw [appendLoop] at hrun
      by_cases hsize : size > 0
      · rw [if_pos hsize] at hrun
        obtain ⟨new, hnew, hrun⟩ := Outcome.bind_eq_ret hrun
        by_cases hzero : new = 0
        · rw [if_pos hzero] at hrun
          obtain ⟨rfl, rfl⟩ := Prod.mk.inj (Outcome.ret.inj hrun)
          exact hstop rfl rfl (Or.inr (hzero ▸ hnew))
        rw [if_neg hzero] at hrun
        have hfree : fs.fatTable new = 0 := allocateClusterLoop_free hnew hzero
        obtain ⟨fs₂, hflush, hcoh₂, hsame₂, hbyte₂, htable₂⟩ := link_spec hm hcoh cluster new
        dsimp only at hflush hrun
        rw [hflush] at hrun
        obtain ⟨⟨cache, fs₃⟩, hget, hrun⟩ := Outcome.bind_eq_ret hrun
        cases cache with
        | none => simp at hrun
        | some i =>
            have hnewc := isCluster_of_getCache hget
            obtain ⟨j, fs₁, fs₄, fs₅, buf, hget', hcs₁, hwrite, hrel, hstored, hbuf⟩ :=
              storeNew_spec (hm.congr hsame₂) hcoh₂ hnewc src (min size fs.clusterSize)
            rw [hget'] at hget
            obtain ⟨hij, rfl⟩ := Prod.mk.inj (Outcome.ret.inj hget)
            obtain rfl := Option.some.inj hij
            rw [hsame₂.clusterSize] at hcs₁ hwrite
            rw [edited] at hwrite
            simp only [hcs₁, hwrite, Outcome.ret_bind, hrel, if_true] at hrun
            have hcs₂ := hsame₂.clusterSize
            have hsame₅ := hsame₂.trans hstored.same
            have hcs₅ := hsame₅.clusterSize
            have htable₅ : fs₅.fatTable = Function.update (Function.update fs.fatTable cluster new) new 0xFFF :=
              hstored.fatTable.trans htable₂
            have hwalk₅ := linked_walk hwalk hlinks hfree hnewc
            rw [← htable₅] at hwalk₅
            have hfree₅ : ∀ c, fs₅.fatTable c = 0 → c ≠ new ∧ fs.fatTable c = 0 := fun c hzero₅ =>
              update_free hnewc (by rw [← htable₅]; exact hzero₅)
            obtain ⟨ns, written, htotal, hext, hle, hle', hlast, hbytes⟩ := ih (hm.congr hsame₅)
              hstored.coherent hwalk₅ (fun c hc => by
                rcases List.mem_append.mp hc with hc | hc
                · exact hlinks c hc
                · obtain rfl := List.mem_singleton.mp hc
                  exact hnewc.inChain) hrun (by rw [hcs₅]; exact hcs)
            rw [hcs₅] at hle'
            have hnot : new ∉ ns := fun hmem => (hfree₅ new (hext.free new hmem)).1 rfl
            have hold : ∀ c k, 2 ≤ c → k < fs.clusterSize → c ∉ ns →
                fs'.clusterByte c k = if c = new then buf k else fs.clusterByte c k :=
              fun c k hc hk hns => by
                rw [hext.byte c k hc (by rw [hcs₅]; exact hk) hns,
                  hstored.byte c k hc (by rw [hcs₂]; exact hk), hbyte₂]
            have hcs' : fs'.clusterSize = fs.clusterSize := (hsame₅.trans hext.same).clusterSize
            refine ⟨new :: ns, min size fs.clusterSize + written, by omega,
              ⟨hext.coherent, hsame₅.trans hext.same, ?_, fun c hc => ?_, fun c hc => ?_,
                fun c k hc hk hns => ?_⟩, by omega, ?_, ?_, fun k hk => ?_⟩
            · have hwalk' := hext.walk
              rw [List.append_assoc] at hwalk'
              exact hwalk'
            · rcases List.mem_cons.mp hc with rfl | hc
              · exact hnewc
              · exact hext.valid c hc
            · rcases List.mem_cons.mp hc with rfl | hc
              · exact hfree
              · exact (hfree₅ c (hext.free c hc)).2
            · rw [List.mem_cons, not_or] at hns
              rw [hold c k hc hk hns.2, if_neg hns.1]
            · rw [List.length_cons, Nat.add_mul, Nat.one_mul]
              omega
            · exact hlast.imp (fun h => by omega) id
            · by_cases hfirst : k < fs.clusterSize
              · rw [chainByte_lt (by rw [hcs']; exact hfirst), hold new k hnewc.1 hfirst hnot,
                  if_pos rfl, hbuf k (by omega)]
              · obtain ⟨j, rfl⟩ := Nat.exists_eq_add_of_le (Nat.le_of_not_lt hfirst)
                have hfull : min size fs.clusterSize = fs.clusterSize := by omega
                have hge : fs'.chainByte (new :: ns) (fs.clusterSize + j) = fs'.chainByte ns j := by
                  rw [← hcs', chainByte_ge (by rw [hcs']; exact hcs)]
                rw [hge, hbytes j (by omega), bytesFrom, hfull]
      · rw [if_neg hsize] at hrun
        obtain ⟨rfl, rfl⟩ := Prod.mk.inj (Outcome.ret.inj hrun)
        exact hstop rfl rfl (Or.inl (by omega))

end SysuOs.FAT12FS
