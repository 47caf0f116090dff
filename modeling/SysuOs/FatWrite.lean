import SysuOs.FatRead

/-! `write`, which changes a file in place: the bytes written take the place of those of its chain, and nothing
else of the volume changes, as far as `get_cache` takes the clusters. -/

namespace SysuOs.FAT12FS

/-- The loop of `write` over the clusters after the first. The chunk is a `uint16`. -/
def writeLoop (src : ByteMap) : Nat → FAT12FS → Nat → Nat → Nat → Outcome (Int × FAT12FS)
  | 0, _, _, _, _ => .diverge
  | fuel + 1, fs, cntCluster, size, writeSize =>
      if IntPos size ∧ cntCluster ≥ 2 ∧ cntCluster < 0xFF8 then do
        let (cache, fs) ← fs.getCache cntCluster
        match cache with
        | none => return (writeSize, fs)
        | some i =>
            let chunk := min size fs.clusterSize % 2 ^ 16
            let buf := memcpy (fs.cachePool i).buf 0 (bytesFrom src writeSize) chunk
            let fs ← ((fs.setBuf i buf).setDirty i).releaseCache i
            writeLoop src fuel fs (fs.fatTable cntCluster) (size - chunk) (writeSize + chunk)
      else return (writeSize, fs)

/-- `write` once the arguments are checked and `size` bytes from `offset` on are to be written. -/
def writeFrom (fs : FAT12FS) (node : Fat12Inode) (src : ByteMap) (size offset : Nat) :
    Outcome (Int × FAT12FS) := do
  match ← fs.skipLoop (offset + 1) node.startCluster offset with
  | none => return (0, fs)
  | some (cntCluster, offset) =>
      let (cache, fs) ← fs.getCache cntCluster
      match cache with
      | none => return (-1, fs)
      | some i =>
          let left := fs.clusterSize - offset
          if size < left then
            let fs ← ((fs.setBuf i (memcpy (fs.cachePool i).buf offset src size)).setDirty i).releaseCache i
            return (size, fs)
          else
            let fs ← ((fs.setBuf i (memcpy (fs.cachePool i).buf offset src left)).setDirty i).releaseCache i
            writeLoop src (size + FAT12_MAX_CLUSTERS + 1) fs (fs.fatTable cntCluster) (size - left) left

/-- `FAT12_FS::write`: the result and the volume afterwards. -/
def write (fs : FAT12FS) (node : Option Fat12Inode) (src : ByteMap) (size offset : Int) :
    Outcome (Int × FAT12FS) :=
  match node with
  | none => return (0, fs)
  | some node =>
      if node.startCluster < 2 ∨ node.fat12Fs ≠ fs.this then return (0, fs)
      else if u32 offset ≥ node.size then return (0, fs)
      else if offset < 0 then return (-1, fs)
      else if size ≤ 0 then return (0, fs)
      else
        let size := if u32 (size + offset) > node.size then u32 (node.size - offset) else size.toNat
        if IsSpecial node.attr then return (-1, fs)
        else fs.writeFrom node src size offset.toNat

/-! ### What the cache does not touch -/

/-- Only the cache and the drive may differ, and of the drive no sector in front of the clusters. -/
structure CacheOnly (fs fs' : FAT12FS) : Prop where
  eq : ∃ pool device, fs' = { fs with cachePool := pool, device := device }
  front : ∀ s, s < fs.dataStartSector → fs'.device.sector s = fs.device.sector s

namespace CacheOnly

variable {fs fs' fs'' : FAT12FS}

theorem refl (fs : FAT12FS) : CacheOnly fs fs := ⟨⟨_, _, rfl⟩, fun _ _ => rfl⟩

theorem trans (h : CacheOnly fs fs') (h' : CacheOnly fs' fs'') : CacheOnly fs fs'' := by
  obtain ⟨pool, device, rfl⟩ := h.eq
  obtain ⟨pool', device', rfl⟩ := h'.eq
  refine ⟨⟨pool', device', rfl⟩, ?_⟩
  intro s hs
  exact (h'.front s hs).trans (h.front s hs)

theorem setSlot (fs : FAT12FS) (i : Nat) (slot : ClusterBuffer) : CacheOnly fs (fs.setSlot i slot) :=
  ⟨⟨_, _, rfl⟩, fun _ _ => rfl⟩

end CacheOnly

theorem readSectors_sector (d : Disk) (sector bytes : Nat) (n i : Nat) (buf : ByteMap) :
    (d.readSectors sector bytes n i buf).2.1.sector = d.sector := by
  induction n generalizing d i buf with
  | zero => rfl
  | succ n ih =>
      rw [Disk.readSectors, Disk.ideReadSector]
      split
      · rename_i hread
        split at hread
        · cases hread
          rfl
        · cases hread
      · rename_i hread
        split at hread
        · cases hread
        · cases hread
          exact ih _ _ _

theorem writeSectors_front (d : Disk) (sector bytes : Nat) (buf : ByteMap) (n i : Nat) {s : Nat}
    (hs : s < sector) : (d.writeSectors sector bytes buf n i).2.sector s = d.sector s := by
  induction n generalizing d i with
  | zero => rfl
  | succ n ih =>
      rw [Disk.writeSectors, Disk.ideWriteSector]
      split
      · rename_i hwrite
        split at hwrite
        · cases hwrite
          rfl
        · cases hwrite
      · rename_i hwrite
        split at hwrite
        · cases hwrite
        · cases hwrite
          rw [ih]
          exact Function.update_of_ne (by omega) _ _

theorem cluster2sector_ge {fs : FAT12FS} {c sector : Nat} (h : fs.cluster2sector c = .ret sector) :
    fs.dataStartSector ≤ sector := by
  rw [cluster2sector] at h
  obtain ⟨-, -, h⟩ := Outcome.bind_eq_ret h
  obtain ⟨-, -, h⟩ := Outcome.bind_eq_ret h
  obtain ⟨-, -, h⟩ := Outcome.bind_eq_ret h
  rw [← Outcome.ret.inj h]
  exact Nat.le_add_right _ _

theorem readCluster_cacheOnly {fs fs' : FAT12FS} {i : Nat} {res : Bool}
    (h : fs.readCluster i = .ret (res, fs')) : CacheOnly fs fs' := by
  rw [readCluster] at h
  obtain ⟨sector, -, h⟩ := Outcome.bind_eq_ret h
  have hsector := readSectors_sector fs.device sector fs.bpb.bytesPerSector fs.bpb.sectorsPerCluster 0
    (fs.cachePool i).buf
  split at h
  · rename_i hread
    rw [hread] at hsector
    cases h
    exact ⟨⟨_, _, rfl⟩, fun s _ => congrFun hsector s⟩
  · rename_i hread
    rw [hread] at hsector
    cases h
    exact ⟨⟨_, _, rfl⟩, fun s _ => congrFun hsector s⟩

theorem writeCluster_cacheOnly {fs fs' : FAT12FS} {i : Nat} {res : Bool}
    (h : fs.writeCluster i = .ret (res, fs')) : CacheOnly fs fs' := by
  rw [writeCluster] at h
  split at h
  · cases h
    exact CacheOnly.refl _
  · obtain ⟨sector, hsector, h⟩ := Outcome.bind_eq_ret h
    have hfront : ∀ s, s < fs.dataStartSector → _ := fun s hs =>
      writeSectors_front fs.device sector fs.bpb.bytesPerSector (fs.cachePool i).buf fs.bpb.sectorsPerCluster 0
        (Nat.lt_of_lt_of_le hs (cluster2sector_ge hsector))
    split at h
    · rename_i hwrite
      rw [hwrite] at hfront
      cases h
      exact ⟨⟨_, _, rfl⟩, hfront⟩
    · rename_i hwrite
      rw [hwrite] at hfront
      cases h
      exact ⟨⟨_, _, rfl⟩, hfront⟩

theorem getCache_cacheOnly {fs fs' : FAT12FS} {c : Nat} {res : Option Nat}
    (h : fs.getCache c = .ret (res, fs')) : CacheOnly fs fs' := by
  rw [getCache] at h
  split at h
  · cases h
    exact CacheOnly.refl _
  · split at h
    · cases h
      exact CacheOnly.setSlot _ _ _
    · split at h
      · obtain ⟨⟨ok, fs₁⟩, hread, h⟩ := Outcome.bind_eq_ret h
        dsimp only at h
        split at h
        · cases h
          exact (CacheOnly.setSlot _ _ _).trans (readCluster_cacheOnly hread)
        · cases h
      · cases h
        exact CacheOnly.refl _

theorem releaseCache_cacheOnly {fs fs' : FAT12FS} {i : Nat} (h : fs.releaseCache i = .ret fs') :
    CacheOnly fs fs' := by
  rw [releaseCache] at h
  dsimp only at h
  split at h
  · cases h
    exact CacheOnly.refl _
  · split at h
    · obtain ⟨⟨ok, fs₁⟩, hwrite, h⟩ := Outcome.bind_eq_ret h
      dsimp only at h
      split at h
      · cases h
        exact ((CacheOnly.setSlot _ _ _).trans (writeCluster_cacheOnly hwrite)).trans (CacheOnly.setSlot _ _ _)
      · cases h
    · cases h
      exact CacheOnly.setSlot _ _ _

/-! ### The law -/

theorem CacheOnly.fatTable {fs fs' : FAT12FS} (h : CacheOnly fs fs') : fs'.fatTable = fs.fatTable := by
  obtain ⟨pool, device, rfl⟩ := h.eq
  rfl

/-- Some bytes of one cluster are replaced. -/
theorem storeCache_spec {fs : FAT12FS} (hm : Mounted fs) (hcoh : Coherent fs) {c : Nat} (hc : IsCluster c)
    (off : Nat) (src : ByteMap) :
    ∃ i fs₁, fs.getCache c = .ret (some i, fs₁) ∧ fs₁.clusterSize = fs.clusterSize ∧
      ∀ chunk, ∃ fs₂, ((fs₁.setBuf i (memcpy (fs₁.cachePool i).buf off src chunk)).setDirty i).releaseCache i =
          .ret fs₂ ∧ Coherent fs₂ ∧ SameVolume fs fs₂ ∧ CacheOnly fs fs₂ ∧
        ∀ c' k, 2 ≤ c' → k < fs.clusterSize → fs₂.clusterByte c' k =
          if c' = c ∧ off ≤ k ∧ k < off + chunk then src (k - off) else fs.clusterByte c' k := by
  obtain ⟨i, fs₁, hget, hpin⟩ := getCache_spec hm hcoh hc
  refine ⟨i, fs₁, hget, hpin.same.clusterSize, ?_⟩
  intro chunk
  obtain ⟨fs₂, hrel, hstored⟩ := hpin.storeRelease hm hcoh hc.1 (memcpy (fs₁.cachePool i).buf off src chunk)
  have hedit : CacheOnly fs₁ (fs₁.edited i (memcpy (fs₁.cachePool i).buf off src chunk)) :=
    (CacheOnly.setSlot _ _ _).trans (CacheOnly.setSlot _ _ _)
  refine ⟨fs₂, hrel, hstored.coherent, hstored.same,
    (getCache_cacheOnly hget).trans (hedit.trans (releaseCache_cacheOnly hrel)), ?_⟩
  intro c' k hc' hk
  rw [hstored.byte c' k hc' hk]
  by_cases hcc : c' = c
  · rw [if_pos hcc]
    by_cases hin : off ≤ k ∧ k < off + chunk
    · rw [if_pos ⟨hcc, hin⟩, memcpy_in hin.1 hin.2]
    · rw [if_neg (fun hand => hin hand.2), memcpy_out (by omega), hpin.buf k hk, hcc]
  · rw [if_neg hcc, if_neg (fun hand => hcc hand.1)]

/-- In the clusters `l`, the bytes of `src` are at `offset` and the `m - 1` positions after it, and the rest
is as it was; no other cluster, nothing in front of the clusters, and neither the FAT nor the root directory
has changed. -/
structure WrittenInPlace (fs fs' : FAT12FS) (l : List Nat) (src : ByteMap) (m offset : Nat) : Prop where
  coherent : Coherent fs'
  same : SameVolume fs fs'
  cacheOnly : CacheOnly fs fs'
  content : ∀ p, p < l.length * fs.clusterSize → fs'.chainByte l p =
    if offset ≤ p ∧ p < offset + m then src (p - offset) else fs.chainByte l p
  other : ∀ c k, 2 ≤ c → c ∉ l → k < fs.clusterSize → fs'.clusterByte c k = fs.clusterByte c k

/-- The bytes of clusters that are not changed. -/
theorem chainByte_of_other {fs fs' : FAT12FS} {l : List Nat} {p : Nat} (hcs : fs'.clusterSize = fs.clusterSize)
    (hpos : 0 < fs.clusterSize)
    (hsame : ∀ c ∈ l, ∀ k, k < fs.clusterSize → fs'.clusterByte c k = fs.clusterByte c k)
    (hp : p < l.length * fs.clusterSize) : fs'.chainByte l p = fs.chainByte l p := by
  have hidx : p / fs.clusterSize < l.length := Nat.div_lt_of_lt_mul (by rwa [Nat.mul_comm])
  rw [chainByte, chainByte, hcs]
  apply hsame
  · rw [List.getD_eq_getElem _ _ hidx]
    exact List.getElem_mem hidx
  · exact Nat.mod_lt _ hpos

/-- Writing into the first of some clusters, and then into the others. -/
theorem WrittenInPlace.cons {fs fs₁ fs' : FAT12FS} {c off chunk m : Nat} {l : List Nat} {src : ByteMap}
    (hpos : 0 < fs.clusterSize) (hc : 2 ≤ c) (hnot : c ∉ l) (hlinks : ∀ d ∈ l, InChain d)
    (hfits : off + chunk ≤ fs.clusterSize) (hfull : off + chunk = fs.clusterSize ∨ m = 0)
    (hsame : SameVolume fs fs₁) (hcache : CacheOnly fs fs₁)
    (hbyte : ∀ c' k, 2 ≤ c' → k < fs.clusterSize → fs₁.clusterByte c' k =
      if c' = c ∧ off ≤ k ∧ k < off + chunk then src (k - off) else fs.clusterByte c' k)
    (h : WrittenInPlace fs₁ fs' l (bytesFrom src chunk) m 0) :
    WrittenInPlace fs fs' (c :: l) src (chunk + m) off := by
  have hcs : fs₁.clusterSize = fs.clusterSize := hsame.clusterSize
  have hcs' : fs'.clusterSize = fs.clusterSize := h.same.clusterSize.trans hcs
  refine ⟨h.coherent, hsame.trans h.same, hcache.trans h.cacheOnly, ?_, ?_⟩
  · intro p hp
    by_cases hfirst : p < fs.clusterSize
    · have hlater : fs'.chainByte (c :: l) p = fs₁.clusterByte c p := by
        rw [chainByte_lt (by rw [hcs']; exact hfirst)]
        exact h.other c p hc hnot (by rw [hcs]; exact hfirst)
      rw [hlater, hbyte c p hc hfirst, chainByte_lt hfirst]
      by_cases hin : off ≤ p ∧ p < off + chunk
      · rw [if_pos ⟨rfl, hin⟩, if_pos (by omega)]
      · rw [if_neg (fun hand => hin hand.2), if_neg (by omega)]
    · obtain ⟨j, rfl⟩ := Nat.exists_eq_add_of_le (Nat.le_of_not_lt hfirst)
      rw [List.length_cons, Nat.add_mul, Nat.one_mul] at hp
      have hold : fs₁.chainByte l j = fs.chainByte l j := by
        apply chainByte_of_other hcs hpos
        · intro d hd k hk
          rw [hbyte d k (hlinks d hd).1 hk, if_neg]
          rintro ⟨rfl, -⟩
          exact hnot hd
        · omega
      have htail : fs'.chainByte (c :: l) (fs.clusterSize + j) = fs'.chainByte l j := by
        rw [← hcs']
        exact chainByte_ge (by rw [hcs']; exact hpos)
      rw [htail, h.content j (by rw [hcs]; omega), hold, chainByte_ge hpos]
      by_cases hin : j < m
      · have hsub : chunk + (j - 0) = fs.clusterSize + j - off := by omega
        rw [if_pos (by omega), if_pos (by omega), bytesFrom, hsub]
      · rw [if_neg (by omega), if_neg (by omega)]
  · intro d k hd hmem hk
    have hne : d ≠ c := List.ne_of_not_mem_cons hmem
    rw [h.other d k hd (List.not_mem_of_not_mem_cons hmem) (by rw [hcs]; exact hk), hbyte d k hd hk,
      if_neg (fun hand => hne hand.1)]

/-- Nothing is written. -/
theorem WrittenInPlace.none {fs : FAT12FS} (hcoh : Coherent fs) (l : List Nat) (src : ByteMap) (offset : Nat) :
    WrittenInPlace fs fs l src 0 offset := by
  refine ⟨hcoh, SameVolume.refl fs, CacheOnly.refl fs, ?_, fun _ _ _ _ _ => rfl⟩
  intro p _
  rw [if_neg (by omega)]

/-- The clusters in front of those that are written. -/
theorem WrittenInPlace.append {fs fs' : FAT12FS} {pre l : List Nat} {src : ByteMap} {m off : Nat}
    (hpos : 0 < fs.clusterSize) (hpre : ∀ c ∈ pre, 2 ≤ c ∧ c ∉ l) (h : WrittenInPlace fs fs' l src m off) :
    WrittenInPlace fs fs' (pre ++ l) src m (pre.length * fs.clusterSize + off) := by
  have hcs : fs'.clusterSize = fs.clusterSize := h.same.clusterSize
  refine ⟨h.coherent, h.same, h.cacheOnly, ?_, ?_⟩
  · intro p hp
    by_cases hfront : p < pre.length * fs.clusterSize
    · rw [if_neg (by omega), chainByte_left hfront, chainByte_left (by rw [hcs]; exact hfront)]
      apply chainByte_of_other hcs hpos
      · intro c hc k hk
        exact h.other c k (hpre c hc).1 (hpre c hc).2 hk
      · exact hfront
    · obtain ⟨j, rfl⟩ := Nat.exists_eq_add_of_le (Nat.le_of_not_lt hfront)
      rw [List.length_append, Nat.add_mul] at hp
      have hrest : fs'.chainByte (pre ++ l) (pre.length * fs.clusterSize + j) = fs'.chainByte l j := by
        rw [← hcs]
        exact chainByte_append (by rw [hcs]; exact hpos)
      rw [hrest, h.content j (by omega), chainByte_append hpos]
      by_cases hin : off ≤ j ∧ j < off + m
      · have hsub : j - off = pre.length * fs.clusterSize + j - (pre.length * fs.clusterSize + off) := by omega
        rw [if_pos hin, if_pos (by omega), hsub]
      · rw [if_neg hin, if_neg (by omega)]
  · intro c k hc hmem hk
    exact h.other c k hc (fun hl => hmem (List.mem_append_right _ hl)) hk

/-- The clusters after the first are written until the request is met or the chain ends. -/
theorem writeLoop_spec {m : List Nat} {fs : FAT12FS} {v fuel : Nat} (src : ByteMap) (size writeSize : Nat)
    (hm : Mounted fs) (hcoh : Coherent fs) (hbig : fs.clusterSize < 2 ^ 16)
    (hwalk : Walk (fatNext fs.fatTable) (follow v) m) (hlinks : ∀ c ∈ m, InChain c)
    (hserved : Served fs.clusterSize m 0 size) (hsize : size < 2 ^ 31) (hfuel : m.length < fuel) :
    ∃ fs', writeLoop src fuel fs v size writeSize =
        .ret ((writeSize + min size (m.length * fs.clusterSize) : Nat), fs') ∧
      WrittenInPlace fs fs' m (bytesFrom src writeSize) (min size (m.length * fs.clusterSize)) 0 := by
  induction m generalizing fs v fuel size writeSize with
  | nil =>
      obtain ⟨fuel, rfl⟩ : ∃ n, fuel = n + 1 := ⟨fuel - 1, by omega⟩
      have hend : ¬(IntPos size ∧ v ≥ 2 ∧ v < 0xFF8) := by
        intro hgo
        rw [Walk.nil_iff, follow, if_neg (by omega)] at hwalk
        cases hwalk
      rw [List.length_nil, Nat.zero_mul, Nat.min_zero]
      refine ⟨fs, ?_, WrittenInPlace.none hcoh [] _ 0⟩
      rw [writeLoop, if_neg hend]
      rfl
  | cons c m ih =>
      obtain ⟨fuel, rfl⟩ : ∃ n, fuel = n + 1 := ⟨fuel - 1, by omega⟩
      have hnodup := hwalk.nodup
      obtain ⟨hhead, htail⟩ := hwalk
      obtain rfl : v = c := by
        rw [follow] at hhead
        split at hhead
        · cases hhead
        · exact Option.some.inj hhead
      have hlink := hlinks v List.mem_cons_self
      obtain ⟨hfirst, hrest⟩ := (served_cons hm.clusterSize_pos).mp hserved
      by_cases hzero : size = 0
      · subst hzero
        have hend : ¬(IntPos 0 ∧ v ≥ 2 ∧ v < 0xFF8) := fun hgo => absurd hgo.1.1 (by omega)
        rw [Nat.zero_min]
        refine ⟨fs, ?_, WrittenInPlace.none hcoh (v :: m) _ 0⟩
        rw [writeLoop, if_neg hend]
        rfl
      · have hc : IsCluster v := hfirst (Nat.pos_of_ne_zero hzero)
        obtain ⟨i, fs₁, hget, hcs₁, hstore⟩ := storeCache_spec hm hcoh hc 0 (bytesFrom src writeSize)
        obtain ⟨fs₂, hrel, hcoh₂, hsame₂, hcache₂, hbyte₂⟩ := hstore (min size fs.clusterSize)
        have hcs : fs₂.clusterSize = fs.clusterSize := hsame₂.clusterSize
        have hgo : IntPos size ∧ v ≥ 2 ∧ v < 0xFF8 :=
          ⟨⟨by omega, hsize⟩, hc.1, Nat.lt_trans hc.2 (by decide)⟩
        have hchunk : min size fs₁.clusterSize % 2 ^ 16 = min size fs.clusterSize := by
          rw [hcs₁]
          exact Nat.mod_eq_of_lt (by omega)
        obtain ⟨fs', hrun, hwritten⟩ := @ih fs₂ (fs₂.fatTable v) fuel (size - min size fs.clusterSize)
          (writeSize + min size fs.clusterSize) (hm.congr hsame₂) hcoh₂ (by rwa [hcs])
          (by rw [hcache₂.fatTable]; exact htail) (fun d hd => hlinks d (List.mem_cons_of_mem v hd))
          (by rw [hcs]; exact hrest.mono (by omega)) (by omega) (by rw [List.length_cons] at hfuel; omega)
        rw [hcs] at hrun hwritten
        have htotal : min size fs.clusterSize + min (size - min size fs.clusterSize) (m.length * fs.clusterSize) =
            min size ((v :: m).length * fs.clusterSize) := by
          rw [List.length_cons, Nat.add_mul, Nat.one_mul]
          omega
        refine ⟨fs', ?_, ?_⟩
        · rw [writeLoop, if_pos hgo, hget]
          simp only [Outcome.ret_bind, hchunk, hrel, hrun, Nat.add_assoc, htotal]
        · rw [← htotal]
          have hsrc : bytesFrom (bytesFrom src writeSize) (min size fs.clusterSize) =
              bytesFrom src (writeSize + min size fs.clusterSize) := by
            funext k
            simp only [bytesFrom, Nat.add_assoc]
          rw [← hsrc] at hwritten
          exact WrittenInPlace.cons hm.clusterSize_pos hlink.1 (List.nodup_cons.mp hnodup).1
            (fun d hd => hlinks d (List.mem_cons_of_mem v hd)) (by omega) (by omega) hsame₂ hcache₂ hbyte₂ hwritten

/-- `write` to a regular file from an offset inside it on. -/
theorem writeFrom_spec {fs : FAT12FS} {node : Fat12Inode} {l : List Nat} {size offset : Nat} (src : ByteMap)
    (hm : Mounted fs) (hcoh : Coherent fs) (hbig : fs.clusterSize < 2 ^ 16)
    (hchain : Linked fs node.startCluster l) (hserved : Served fs.clusterSize l offset size) (hsize₀ : 0 < size)
    (hsize : size < 2 ^ 31) (hfits : offset + size ≤ l.length * fs.clusterSize) (hoff : offset < l.length * fs.clusterSize) :
    ∃ fs', fs.writeFrom node src size offset = .ret (size, fs') ∧
      WrittenInPlace fs fs' l src size offset := by
  have hpos := hm.clusterSize_pos
  have hlen := length_lt hchain.walk hchain.links
  obtain ⟨pre, c, m, rfl, hoffset, hwalk⟩ := hchain.at_offset hoff
  have hmod : offset % fs.clusterSize < fs.clusterSize := Nat.mod_lt _ hpos
  generalize offset % fs.clusterSize = off at hoffset hmod
  subst hoffset
  have hskip := skipLoop_spec hpos hwalk (fun c hc => hchain.links c (List.mem_append_left _ hc)) hmod
    (Nat.lt_succ_self _)
  obtain ⟨hfirst, hrest⟩ := (served_cons hmod).mp ((served_append hpos).mp hserved)
  have hc : IsCluster c := hfirst hsize₀
  have hlinks : ∀ d ∈ m, InChain d := fun d hd => hchain.links d (by simp [hd])
  obtain ⟨-, hnodup, hdisjoint⟩ := List.nodup_append.mp hwalk.nodup
  have hfront : ∀ d ∈ pre, 2 ≤ d ∧ d ∉ c :: m := by
    intro d hd
    exact ⟨(hchain.links d (List.mem_append_left _ hd)).1, fun hmem => hdisjoint d hd d hmem rfl⟩
  have hnot := (List.nodup_cons.mp hnodup).1
  rw [List.length_append, List.length_cons, Nat.add_mul, Nat.add_mul, Nat.one_mul] at hfits
  obtain ⟨i, fs₁, hget, hcs₁, hstore⟩ := storeCache_spec hm hcoh hc off src
  by_cases hshort : size < fs.clusterSize - off
  · obtain ⟨fs₂, hrel, hcoh₂, hsame₂, hcache₂, hbyte₂⟩ := hstore size
    refine ⟨fs₂, ?_, ?_⟩
    · rw [writeFrom, hskip]
      simp only [Outcome.ret_bind, hget, hcs₁, hshort, if_true, hrel, Outcome.pure_eq]
    · apply WrittenInPlace.append hpos hfront
      exact WrittenInPlace.cons hpos hc.1 hnot hlinks (by omega) (Or.inr rfl) hsame₂ hcache₂ hbyte₂
        (WrittenInPlace.none hcoh₂ m _ 0)
  · obtain ⟨fs₂, hrel, hcoh₂, hsame₂, hcache₂, hbyte₂⟩ := hstore (fs.clusterSize - off)
    have hcs₂ : fs₂.clusterSize = fs.clusterSize := hsame₂.clusterSize
    obtain ⟨fs', hrun, hwritten⟩ := @writeLoop_spec m fs₂ (fs₂.fatTable c) (size + FAT12_MAX_CLUSTERS + 1) src
      (size - (fs.clusterSize - off)) (fs.clusterSize - off) (hm.congr hsame₂) hcoh₂ (by rwa [hcs₂])
      (by rw [hcache₂.fatTable]; exact hwalk.suffix.2) hlinks (by rw [hcs₂]; exact hrest) (by omega)
      (by simp only [List.length_append, List.length_cons] at hlen; omega)
    rw [hcs₂] at hrun hwritten
    have hmin : min (size - (fs.clusterSize - off)) (m.length * fs.clusterSize) =
        size - (fs.clusterSize - off) := by omega
    have htotal : fs.clusterSize - off + (size - (fs.clusterSize - off)) = size := by omega
    rw [hmin] at hrun hwritten
    rw [htotal] at hrun
    refine ⟨fs', ?_, ?_⟩
    · rw [writeFrom, hskip]
      simp only [Outcome.ret_bind, hget, hcs₁, hshort, if_false, hrel, hrun]
    · apply WrittenInPlace.append hpos hfront
      have hall := WrittenInPlace.cons hpos hc.1 hnot hlinks (by omega)
        (Or.inl (by omega : off + (fs.clusterSize - off) = fs.clusterSize)) hsame₂ hcache₂ hbyte₂ hwritten
      rw [htotal] at hall
      exact hall

/-- The loop ends at the first cluster that `get_cache` does not take. -/
theorem writeLoop_short {m : List Nat} {fs : FAT12FS} {v fuel : Nat} (src : ByteMap) (size writeSize : Nat)
    (hm : Mounted fs) (hcoh : Coherent fs) (hwalk : Walk (fatNext fs.fatTable) (follow v) m)
    (hlinks : ∀ c ∈ m, InChain c) (hserved : ¬Served fs.clusterSize m 0 size) (hsize : size < 2 ^ 31)
    (hfuel : m.length < fuel) :
    ∃ r fs', writeLoop src fuel fs v size writeSize = .ret ((r : Nat), fs') ∧ r < writeSize + size := by
  induction m generalizing fs v fuel size writeSize with
  | nil => exact absurd (fun p _ _ hp => absurd hp (by simp)) hserved
  | cons c m ih =>
      obtain ⟨fuel, rfl⟩ : ∃ n, fuel = n + 1 := ⟨fuel - 1, by omega⟩
      obtain ⟨hhead, htail⟩ := hwalk
      obtain rfl : v = c := by
        rw [follow] at hhead
        split at hhead
        · cases hhead
        · exact Option.some.inj hhead
      have hv := hlinks v List.mem_cons_self
      have hpos : 0 < size := by
        by_contra hzero
        obtain rfl : size = 0 := by omega
        exact hserved (served_zero _ _ _)
      have hgo : IntPos size ∧ v ≥ 2 ∧ v < 0xFF8 := ⟨⟨hpos, hsize⟩, hv.1, hv.2⟩
      rw [writeLoop, if_pos hgo]
      by_cases hc : IsCluster v
      · obtain ⟨i, fs₁, hget, hcs₁, hstore⟩ := storeCache_spec hm hcoh hc 0 (bytesFrom src writeSize)
        have hrest : ¬Served fs.clusterSize m 0 (size - fs.clusterSize) := fun h =>
          hserved ((served_cons hm.clusterSize_pos).mpr ⟨fun _ => hc, h⟩)
        have hchunk : min size fs₁.clusterSize % 2 ^ 16 ≤ min size fs.clusterSize := by
          rw [hcs₁]
          exact Nat.mod_le _ _
        generalize hk : min size fs₁.clusterSize % 2 ^ 16 = chunk at hchunk
        obtain ⟨fs₂, hrel, hcoh₂, hsame₂, hcache₂, -⟩ := hstore chunk
        obtain ⟨r, fs', hrun, hr⟩ := @ih fs₂ (fs₂.fatTable v) fuel (size - chunk) (writeSize + chunk)
          (hm.congr hsame₂) hcoh₂ (by rw [hcache₂.fatTable]; exact htail)
          (fun c hc => hlinks c (List.mem_cons_of_mem v hc))
          (by rw [hsame₂.clusterSize]; exact fun h => hrest (h.mono (by omega))) (by omega)
          (by rw [List.length_cons] at hfuel; omega)
        refine ⟨r, fs', ?_, by omega⟩
        rw [hget]
        simp only [Outcome.ret_bind, hk, hrel, hrun]
      · rw [getCache_refused hc]
        exact ⟨writeSize, fs, rfl, by omega⟩

/-- `write` returns another number if one of the bytes goes to a cluster that `get_cache` does not take. -/
theorem writeFrom_short {fs : FAT12FS} {node : Fat12Inode} {l : List Nat} {size offset : Nat} (src : ByteMap)
    (hm : Mounted fs) (hcoh : Coherent fs) (hchain : Linked fs node.startCluster l)
    (hserved : ¬Served fs.clusterSize l offset size) (hsize : size < 2 ^ 31)
    (hoff : offset < l.length * fs.clusterSize) :
    ∃ r fs', fs.writeFrom node src size offset = .ret (r, fs') ∧ r ≠ (size : Int) := by
  have hpos := hm.clusterSize_pos
  obtain ⟨pre, c, m, rfl, hoffset, hwalk⟩ := hchain.at_offset hoff
  have hmod : offset % fs.clusterSize < fs.clusterSize := Nat.mod_lt _ hpos
  generalize offset % fs.clusterSize = off at hoffset hmod
  subst hoffset
  have hskip := skipLoop_spec hpos hwalk (fun c hc => hchain.links c (List.mem_append_left _ hc)) hmod
    (Nat.lt_succ_self _)
  rw [served_append hpos, served_cons hmod] at hserved
  rw [writeFrom, hskip]
  by_cases hc : IsCluster c
  · obtain ⟨i, fs₁, hget, hcs₁, hstore⟩ := storeCache_spec hm hcoh hc off src
    have hrest : ¬Served fs.clusterSize m 0 (size - (fs.clusterSize - off)) := fun h => hserved ⟨fun _ => hc, h⟩
    have hlong : ¬size < fs.clusterSize - off := fun hshort => by
      refine hrest ?_
      rw [Nat.sub_eq_zero_of_le (Nat.le_of_lt hshort)]
      exact served_zero _ _ _
    have hlen := length_lt hchain.walk hchain.links
    obtain ⟨fs₂, hrel, hcoh₂, hsame₂, hcache₂, -⟩ := hstore (fs.clusterSize - off)
    obtain ⟨r, fs', hrun, hr⟩ := @writeLoop_short m fs₂ (fs₂.fatTable c) (size + FAT12_MAX_CLUSTERS + 1) src
      (size - (fs.clusterSize - off)) (fs.clusterSize - off) (hm.congr hsame₂) hcoh₂
      (by rw [hcache₂.fatTable]; exact hwalk.suffix.2) (fun d hd => hchain.links d (by simp [hd]))
      (by rw [hsame₂.clusterSize]; exact hrest) (by omega)
      (by simp only [List.length_append, List.length_cons] at hlen; omega)
    refine ⟨r, fs', ?_, by omega⟩
    simp only [Outcome.ret_bind, hget, hcs₁, hlong, if_false, hrel, hrun]
  · simp only [Outcome.ret_bind, getCache_refused hc]
    exact ⟨-1, fs, rfl, by omega⟩

/-- `write` puts the bytes it is given in the place of those of the file, as far as the file goes, and changes
nothing else of the volume. -/
def WritesRight (fs : FAT12FS) (node : Fat12Inode) (l : List Nat) (src : ByteMap) (size offset : Nat) : Prop :=
  ∃ fs', fs.write (some node) src size offset = .ret ((min size (node.size - offset) : Nat), fs') ∧
    WrittenInPlace fs fs' l src (min size (node.size - offset)) offset

/-- The arguments of a request pass the checks of `write`. -/
theorem Request.write_eq {fs : FAT12FS} {node : Fat12Inode} {l : List Nat} {size offset : Nat}
    (h : Request fs node l size offset) (src : ByteMap) :
    fs.write (some node) src size offset = fs.writeFrom node src (min size (node.size - offset)) offset := by
  have hsize := h.size_lt
  have hinside := h.inside
  have hvalid : ¬(node.startCluster < 2 ∨ node.fat12Fs ≠ fs.this) := h.node_valid
  have hoffset : ¬ u32 (offset : Int) ≥ node.size := by
    rw [u32]
    omega
  have hpos : ¬(size : Int) ≤ 0 := by
    have := h.positive
    omega
  rw [write]
  simp only [if_neg hvalid, if_neg hoffset, if_neg hpos, if_neg h.file.regular]
  rw [if_neg (by omega), h.part, Int.toNat_natCast]

/-- `write` puts the bytes in place and changes nothing else just when `get_cache` takes the clusters they go
to. -/
theorem writesRight_iff {fs : FAT12FS} {node : Fat12Inode} {l : List Nat} {size offset : Nat}
    (h : Request fs node l size offset) (hspc : fs.bpb.sectorsPerCluster ≤ 64) (src : ByteMap) :
    WritesRight fs node l src size offset ↔
      Served fs.clusterSize l offset (min size (node.size - offset)) := by
  have hinside := h.inside
  have hheld := h.held
  have hpos := h.positive
  have hint := h.int
  rw [WritesRight, h.write_eq]
  constructor
  · rintro ⟨fs', hrun, -⟩
    by_contra hserved
    obtain ⟨r, fs'', hshort, hr⟩ := writeFrom_short src h.mounted h.coherent h.file.chain hserved (by omega)
      (by omega)
    rw [hshort] at hrun
    exact hr (congrArg Prod.fst (Outcome.ret.inj hrun))
  · intro hserved
    exact writeFrom_spec src h.mounted h.coherent (by have := h.mounted.clusterSize; omega) h.file.chain hserved
      (by omega) (by omega : min size (node.size - offset) < 2 ^ 31)
      (by omega : offset + min size (node.size - offset) ≤ l.length * fs.clusterSize) (by omega)

/-- 50 bytes from offset 60 of a file of 100 bytes on: 40 are written. -/
theorem writesRight_iff_oneCluster : oneCluster.bpb.sectorsPerCluster ≤ 64 ∧
    (WritesRight oneCluster (fileOfSize 100) [2] (fun _ => 0x41) 50 60 ↔
      Served oneCluster.clusterSize [2] 60 (min 50 ((fileOfSize 100).size - 60))) :=
  ⟨by decide, writesRight_iff oneCluster_request (by decide) _⟩

/-- A volume whose only file has the clusters 2 and 0xFF0. -/
def highCluster : FAT12FS :=
  { oneCluster with
    clusterCount := 0xFF6
    fatTable := fun i => if i = 2 then 0xFF0 else if i = 0xFF0 then 0xFFF else 0 }

theorem highCluster_request : Request highCluster (fileOfSize 1024) [2, 0xFF0] 1024 0 := by
  have hempty : ∀ i, ¬2 ≤ (highCluster.cachePool i).clusterNum := fun _ => Nat.not_succ_le_zero 1
  have hattr : ¬IsSpecial 0x20 := by decide
  refine ⟨⟨fun _ => rfl, rfl, by decide, rfl, by decide, rfl⟩, ⟨fun _ _ => rfl, fun _ _ => rfl,
    fun i _ hi => absurd hi (hempty i), fun i _ _ _ hi => absurd hi (hempty i)⟩, by decide,
    ⟨rfl, hattr, ⟨⟨rfl, rfl, rfl⟩, fun c hc => ?_⟩⟩, by decide, by decide, by decide, by decide⟩
  simp only [List.mem_cons, List.not_mem_nil, or_false] at hc
  rcases hc with rfl | rfl <;> exact ⟨by decide, by decide⟩

/-- Of 1024 bytes for the two clusters not all are written. -/
theorem not_writesRight_highCluster : Request highCluster (fileOfSize 1024) [2, 0xFF0] 1024 0 ∧
    highCluster.bpb.sectorsPerCluster ≤ 64 ∧
    ∀ src, ¬WritesRight highCluster (fileOfSize 1024) [2, 0xFF0] src 1024 0 := by
  refine ⟨highCluster_request, by decide, fun src hright => ?_⟩
  obtain ⟨fs', hrun, -⟩ := hright
  have hserved : ¬Served highCluster.clusterSize [2, 0xFF0] 0 1024 := fun h =>
    absurd (h 512 (by decide) (by decide) (by decide)).2 (by decide)
  obtain ⟨r, fs'', hshort, hr⟩ := writeFrom_short src highCluster_request.mounted highCluster_request.coherent
    highCluster_request.file.chain hserved (by decide) (by decide)
  rw [highCluster_request.write_eq] at hrun
  change highCluster.writeFrom (fileOfSize 1024) src 1024 0 = _ at hrun
  rw [hshort] at hrun
  exact hr (congrArg Prod.fst (Outcome.ret.inj hrun))

end SysuOs.FAT12FS
