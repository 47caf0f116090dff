import Mathlib
import SysuOs.FatTable

/-! The cluster cache as a view of the disk. Between two operations of the driver every slot is unused
and holds what the disk holds, so that getting a cluster yields its bytes on disk, and writing one and
releasing it changes that cluster alone. -/

namespace SysuOs.FAT12FS

/-- Byte `k` of a data cluster on disk. -/
def clusterByte (fs : FAT12FS) (c k : Nat) : Byte :=
  fs.device.sector (fs.dataStartSector + (c - 2) * fs.bpb.sectorsPerCluster + k / 512) (k % 512)

/-- The number of sectors of the root directory. -/
def rootSectors (fs : FAT12FS) : Nat := (fs.rootEntries * FAT12_ENTRY_BYTES + 511) / 512

/-- What `mount` has checked and computed; a volume with files has a root directory. -/
structure Mounted (fs : FAT12FS) : Prop where
  reliable : fs.device.Reliable
  bytesPerSector : fs.bpb.bytesPerSector = 512
  sectorsPerCluster : 0 < fs.bpb.sectorsPerCluster
  clusterSize : fs.clusterSize = 512 * fs.bpb.sectorsPerCluster
  rootEntries : 0 < fs.rootEntries
  dataStartSector : fs.dataStartSector =
    fs.bpb.reservedSectorCount + 2 * fs.bpb.fatSize16 + fs.rootSectors

/-- The clusters `get_cache` accepts. -/
def IsCluster (c : Nat) : Prop := 2 ≤ c ∧ c < 0xFF0

/-- The cache between two operations: no slot is in use or dirty, each holds what is on disk, and no
cluster is in two slots. -/
structure Coherent (fs : FAT12FS) : Prop where
  unused : ∀ i, i < FAT12_MAX_CACHE → (fs.cachePool i).refcount = 0
  clean : ∀ i, i < FAT12_MAX_CACHE → (fs.cachePool i).dirty = false
  content : ∀ i, i < FAT12_MAX_CACHE → 2 ≤ (fs.cachePool i).clusterNum → ∀ k, k < fs.clusterSize →
    (fs.cachePool i).buf k = fs.clusterByte (fs.cachePool i).clusterNum k
  unique : ∀ i j, i < FAT12_MAX_CACHE → j < FAT12_MAX_CACHE → 2 ≤ (fs.cachePool i).clusterNum →
    (fs.cachePool i).clusterNum = (fs.cachePool j).clusterNum → i = j

/-- Two states of one volume: only the drive, the cache, the root directory and the FAT may differ. -/
structure SameVolume (fs fs' : FAT12FS) : Prop where
  this : fs'.this = fs.this
  bpb : fs'.bpb = fs.bpb
  fails : fs'.device.fails = fs.device.fails
  dataStartSector : fs'.dataStartSector = fs.dataStartSector
  rootEntries : fs'.rootEntries = fs.rootEntries
  clusterCount : fs'.clusterCount = fs.clusterCount
  clusterSize : fs'.clusterSize = fs.clusterSize

theorem SameVolume.refl (fs : FAT12FS) : SameVolume fs fs := ⟨rfl, rfl, rfl, rfl, rfl, rfl, rfl⟩

theorem SameVolume.trans {fs fs' fs'' : FAT12FS} (h : SameVolume fs fs') (h' : SameVolume fs' fs'') :
    SameVolume fs fs'' :=
  ⟨h'.this.trans h.this, h'.bpb.trans h.bpb, h'.fails.trans h.fails,
    h'.dataStartSector.trans h.dataStartSector, h'.rootEntries.trans h.rootEntries,
    h'.clusterCount.trans h.clusterCount, h'.clusterSize.trans h.clusterSize⟩

theorem Mounted.congr {fs fs' : FAT12FS} (h : Mounted fs) (hsame : SameVolume fs fs') : Mounted fs' where
  reliable := by
    rw [Disk.Reliable, hsame.fails]
    exact h.reliable
  bytesPerSector := by rw [hsame.bpb, h.bytesPerSector]
  sectorsPerCluster := by rw [hsame.bpb]; exact h.sectorsPerCluster
  clusterSize := by rw [hsame.bpb, hsame.clusterSize, h.clusterSize]
  rootEntries := by rw [hsame.rootEntries]; exact h.rootEntries
  dataStartSector := by
    rw [rootSectors, hsame.bpb, hsame.dataStartSector, hsame.rootEntries]
    exact h.dataStartSector

/-! ### Sectors of a cluster -/

theorem readSectors_spec {d : Disk} (hio : d.Reliable) (sector n i : Nat) (buf : ByteMap) :
    ∃ r buf', d.readSectors sector 512 n i buf = (true, { d with requests := r }, buf') ∧
      ∀ k, buf' k = if 512 * i ≤ k ∧ k < 512 * (i + n) then d.sector (sector + k / 512) (k % 512)
        else buf k := by
  induction n generalizing d i buf with
  | zero => exact ⟨d.requests, buf, rfl, fun k => by rw [if_neg (by omega)]⟩
  | succ n ih =>
      rw [Disk.readSectors, Disk.ideReadSector_ok hio]
      obtain ⟨r, buf', hrun, hbuf⟩ := ih (hio.served d.sector (d.requests + 1)) (i + 1)
        (memcpy buf (i * 512) (d.sector (sector + i)) FAT12_SECTOR_SIZE)
      refine ⟨r, buf', hrun, fun k => (hbuf k).trans ?_⟩
      by_cases hlater : 512 * (i + 1) ≤ k ∧ k < 512 * (i + 1 + n)
      · rw [if_pos hlater, if_pos (by omega)]
      · rw [if_neg hlater]
        by_cases hnow : 512 * i ≤ k ∧ k < 512 * (i + 1)
        · have hdiv : k / 512 = i := by omega
          have hmod : k - i * 512 = k % 512 := by omega
          rw [if_pos (by omega), memcpy_in (by omega) (by simp only [FAT12_SECTOR_SIZE]; omega), hdiv, hmod]
        · rw [if_neg (by omega), memcpy_out (by simp only [FAT12_SECTOR_SIZE]; omega)]

theorem writeSectors_spec {d : Disk} (hio : d.Reliable) (sector n i : Nat) (buf : ByteMap) :
    ∃ written r, d.writeSectors sector 512 buf n i =
        (true, { sector := written, fails := d.fails, requests := r }) ∧
      (∀ k, 512 * i ≤ k → k < 512 * (i + n) → written (sector + k / 512) (k % 512) = buf k) ∧
      ∀ s, (s < sector + i ∨ sector + i + n ≤ s) → written s = d.sector s := by
  induction n generalizing d i with
  | zero => exact ⟨d.sector, d.requests, rfl, fun k hk hk' => by omega, fun _ _ => rfl⟩
  | succ n ih =>
      rw [Disk.writeSectors, Disk.ideWriteSector_ok hio]
      obtain ⟨written, r, hrun, hin, hout⟩ := ih (hio.served
        (Disk.putSector d.sector (sector + i) (bytesFrom buf (i * 512))) (d.requests + 1)) (i + 1)
      refine ⟨written, r, hrun, fun k hk hk' => ?_, fun s hs => ?_⟩
      · by_cases hlater : 512 * (i + 1) ≤ k
        · exact hin k hlater (by omega)
        · have hdiv : k / 512 = i := by omega
          have hpos : i * 512 + k % 512 = k := by omega
          rw [hdiv, hout _ (by omega)]
          dsimp only
          rw [Disk.putSector_same (Nat.mod_lt _ (by decide)), bytesFrom, hpos]
      · rw [hout s (by omega)]
        exact Disk.putSector_of_ne (by omega)

theorem cluster2sector_eq {fs : FAT12FS} (hm : Mounted fs) {c : Nat} (hc : 2 ≤ c) :
    fs.cluster2sector c = .ret (fs.dataStartSector + (c - 2) * fs.bpb.sectorsPerCluster) := by
  have hroot : 0 < fs.rootSectors := by
    have h := hm.rootEntries
    simp only [rootSectors, FAT12_ENTRY_BYTES]
    omega
  have hstart : fs.dataStartSector ≠ 0 := by
    have h := hm.dataStartSector
    omega
  have hspc : fs.bpb.sectorsPerCluster ≠ 0 := hm.sectorsPerCluster.ne'
  simp [cluster2sector, hc, hstart, hspc]

/-- Sectors of different clusters are different. -/
theorem sector_apart {c c' n i : Nat} (hc : 2 ≤ c) (hc' : 2 ≤ c') (hne : c' ≠ c) (hi : i < n)
    (start : Nat) :
    start + (c' - 2) * n + i < start + (c - 2) * n ∨
      start + (c - 2) * n + n ≤ start + (c' - 2) * n + i := by
  rcases Nat.lt_or_gt_of_ne hne with hlt | hgt
  · left
    have hmul : (c' - 2 + 1) * n ≤ (c - 2) * n := Nat.mul_le_mul_right n (by omega)
    rw [Nat.add_mul, Nat.one_mul] at hmul
    omega
  · right
    have hmul : (c - 2 + 1) * n ≤ (c' - 2) * n := Nat.mul_le_mul_right n (by omega)
    rw [Nat.add_mul, Nat.one_mul] at hmul
    omega

/-! ### Getting a cluster -/

@[simp] theorem setSlot_self (fs : FAT12FS) (i : Nat) (slot : ClusterBuffer) :
    (fs.setSlot i slot).cachePool i = slot := by
  simp [setSlot]

theorem setSlot_of_ne (fs : FAT12FS) {i j : Nat} (slot : ClusterBuffer) (h : j ≠ i) :
    (fs.setSlot i slot).cachePool j = fs.cachePool j := by
  simp [setSlot, h]

/-- Slot `i` of `fs'` is held by one user and shows cluster `c` of `fs`; the other slots are as between
two operations. -/
structure Pinned (fs fs' : FAT12FS) (i c : Nat) : Prop where
  same : SameVolume fs fs'
  fatTable : fs'.fatTable = fs.fatTable
  sector : fs'.device.sector = fs.device.sector
  lt : i < FAT12_MAX_CACHE
  cluster : (fs'.cachePool i).clusterNum = c
  refcount : (fs'.cachePool i).refcount = 1
  clean : (fs'.cachePool i).dirty = false
  buf : ∀ k, k < fs.clusterSize → (fs'.cachePool i).buf k = fs.clusterByte c k
  other : ∀ j, j ≠ i → fs'.cachePool j = fs.cachePool j
  apart : ∀ j, j < FAT12_MAX_CACHE → j ≠ i → (fs.cachePool j).clusterNum ≠ c

theorem findUnused_eq {fs : FAT12FS} (hc : Coherent fs) : fs.findUnused = some 0 := by
  have h := hc.unused 0 (by decide)
  rw [findUnused]
  simp only [FAT12_MAX_CACHE, List.range_succ_eq_map, List.find?_cons, h, decide_true]

theorem clusterByte_congr {fs fs' : FAT12FS} (hsame : SameVolume fs fs')
    (hsector : fs'.device.sector = fs.device.sector) : fs'.clusterByte = fs.clusterByte := by
  funext c k
  rw [clusterByte, clusterByte, hsector, hsame.dataStartSector, hsame.bpb]

theorem readCluster_spec (fs : FAT12FS) (i : Nat) (hm : Mounted fs)
    (hc : 2 ≤ (fs.cachePool i).clusterNum) :
    ∃ r buf, fs.readCluster i = .ret (true, { fs with device := { fs.device with requests := r } }.setSlot i
        { fs.cachePool i with buf, dirty := false }) ∧
      ∀ k, k < fs.clusterSize → buf k = fs.clusterByte (fs.cachePool i).clusterNum k := by
  obtain ⟨r, buf, hrun, hbuf⟩ := readSectors_spec hm.reliable
    (fs.dataStartSector + ((fs.cachePool i).clusterNum - 2) * fs.bpb.sectorsPerCluster)
    fs.bpb.sectorsPerCluster 0 (fs.cachePool i).buf
  refine ⟨r, buf, ?_, fun k hk => ?_⟩
  · rw [readCluster]
    simp only [cluster2sector_eq hm hc, Outcome.ret_bind, hm.bytesPerSector, hrun, Outcome.pure_eq]
  · rw [hm.clusterSize] at hk
    rw [hbuf, if_pos (by omega)]
    rfl

/-- A valid cluster is always found or read in. -/
theorem getCache_spec {fs : FAT12FS} (hm : Mounted fs) (hcoh : Coherent fs) {c : Nat}
    (hc : IsCluster c) : ∃ i fs', fs.getCache c = .ret (some i, fs') ∧ Pinned fs fs' i c := by
  have hvalid : ¬(c < 2 ∨ c ≥ 0xFF0) := by
    have h₁ := hc.1
    have h₂ := hc.2
    omega
  rw [getCache, if_neg hvalid]
  cases hfind : fs.findCache c with
  | some i =>
      have hmem := List.mem_of_find?_eq_some hfind
      have hi : i < FAT12_MAX_CACHE := List.mem_range.mp hmem
      have hnum : (fs.cachePool i).clusterNum = c := by simpa using List.find?_some hfind
      refine ⟨i, _, rfl, ⟨⟨rfl, rfl, rfl, rfl, rfl, rfl, rfl⟩, rfl, rfl, hi, ?_, ?_, ?_, ?_,
        fun j hj => setSlot_of_ne fs _ hj, fun j hj hne hjc => hne ?_⟩⟩
      · rw [setSlot_self]
        exact hnum
      · rw [setSlot_self, hcoh.unused i hi]
        rfl
      · rw [setSlot_self]
        exact hcoh.clean i hi
      · intro k hk
        rw [setSlot_self, ← hnum]
        exact hcoh.content i hi (by rw [hnum]; exact hc.1) k hk
      · exact hcoh.unique j i hj hi (by rw [hjc]; exact hc.1) (by rw [hjc, hnum])
  | none =>
      have hnot : ∀ j, j < FAT12_MAX_CACHE → (fs.cachePool j).clusterNum ≠ c := fun j hj => by
        simpa using List.find?_eq_none.mp hfind j (List.mem_range.mpr hj)
      rw [findUnused_eq hcoh]
      let slot : ClusterBuffer :=
        { fs.cachePool 0 with clusterNum := c, refcount := 1, dirty := false }
      have hnum : ((fs.setSlot 0 slot).cachePool 0).clusterNum = c := by rw [setSlot_self]
      obtain ⟨r, buf, hrun, hbuf⟩ := readCluster_spec (fs.setSlot 0 slot) 0
        (hm.congr ⟨rfl, rfl, rfl, rfl, rfl, rfl, rfl⟩) (by rw [hnum]; exact hc.1)
      rw [hnum] at hbuf
      refine ⟨0, { fs.setSlot 0 slot with device := { fs.device with requests := r } }.setSlot 0
        { slot with buf, dirty := false }, ?_, ⟨⟨rfl, rfl, rfl, rfl, rfl, rfl, rfl⟩, rfl, rfl, by decide,
        ?_, ?_, ?_, ?_, fun j hj => ?_, fun j hj _ => hnot j hj⟩⟩
      · change ((fs.setSlot 0 slot).readCluster 0 >>= fun x =>
          if x.1 = true then pure (some 0, x.2) else Outcome.halt) = _
        rw [hrun, setSlot_self]
        rfl
      · rw [setSlot_self]
      · rw [setSlot_self]
      · rw [setSlot_self]
      · intro k hk
        rw [setSlot_self]
        exact hbuf k hk
      · rw [setSlot_of_ne _ _ hj]
        exact setSlot_of_ne fs slot hj

/-! ### Giving it back -/

/-- Slot `i` given back to an otherwise coherent cache. -/
theorem Pinned.coherent {fs fs' fs'' : FAT12FS} {i c : Nat} (h : Pinned fs fs' i c) (hcoh : Coherent fs)
    (hsize : fs''.clusterSize = fs.clusterSize) (href : (fs''.cachePool i).refcount = 0)
    (hclean : (fs''.cachePool i).dirty = false) (hnum : (fs''.cachePool i).clusterNum = c)
    (hbuf : ∀ k, k < fs.clusterSize → (fs''.cachePool i).buf k = fs''.clusterByte c k)
    (hother : ∀ j, j ≠ i → fs''.cachePool j = fs'.cachePool j)
    (hbyte : ∀ c' k, 2 ≤ c' → c' ≠ c → k < fs.clusterSize → fs''.clusterByte c' k = fs.clusterByte c' k) :
    Coherent fs'' := by
  have hpool : ∀ j, j ≠ i → fs''.cachePool j = fs.cachePool j := fun j hj =>
    (hother j hj).trans (h.other j hj)
  refine ⟨fun j hj => ?_, fun j hj => ?_, fun j hj hnumj k hk => ?_, fun j l hj hl hnumj heq => ?_⟩
  · by_cases hji : j = i
    · rw [hji, href]
    · rw [hpool j hji, hcoh.unused j hj]
  · by_cases hji : j = i
    · rw [hji, hclean]
    · rw [hpool j hji, hcoh.clean j hj]
  · rw [hsize] at hk
    by_cases hji : j = i
    · rw [hji, hnum, hbuf k hk]
    · rw [hpool j hji] at hnumj ⊢
      rw [hcoh.content j hj hnumj k hk, hbyte _ k hnumj (h.apart j hj hji) hk]
  · by_cases hji : j = i <;> by_cases hli : l = i
    · rw [hji, hli]
    · rw [hji, hnum, hpool l hli] at heq
      exact absurd heq.symm (h.apart l hl hli)
    · rw [hli, hnum, hpool j hji] at heq
      exact absurd heq (h.apart j hj hji)
    · rw [hpool j hji] at hnumj heq
      rw [hpool l hli] at heq
      exact hcoh.unique j l hj hl hnumj heq

/-- Releasing a slot that was only read leaves the disk alone. -/
theorem Pinned.release {fs fs' : FAT12FS} {i c : Nat} (h : Pinned fs fs' i c) (hcoh : Coherent fs) :
    ∃ fs'', fs'.releaseCache i = .ret fs'' ∧ Coherent fs'' ∧ SameVolume fs fs'' ∧
      fs''.fatTable = fs.fatTable ∧ fs''.device.sector = fs.device.sector := by
  have href := h.refcount
  have hrel : fs'.releaseCache i = .ret (fs'.setSlot i { fs'.cachePool i with refcount := 0 }) := by
    rw [releaseCache]
    simp [href, h.clean]
  have hsame : SameVolume fs (fs'.setSlot i { fs'.cachePool i with refcount := 0 }) :=
    h.same.trans ⟨rfl, rfl, rfl, rfl, rfl, rfl, rfl⟩
  refine ⟨_, hrel, ?_, hsame, h.fatTable, h.sector⟩
  have hbytes : ∀ c' k, (fs'.setSlot i { fs'.cachePool i with refcount := 0 }).clusterByte c' k =
      fs.clusterByte c' k := fun c' k => congrFun (congrFun (clusterByte_congr hsame h.sector) c') k
  refine h.coherent hcoh hsame.clusterSize (by rw [setSlot_self]) (by rw [setSlot_self]; exact h.clean)
    (by rw [setSlot_self]; exact h.cluster) (fun k hk => ?_) (fun j hj => setSlot_of_ne _ _ hj)
    fun c' k _ _ _ => hbytes c' k
  rw [hbytes, setSlot_self]
  exact h.buf k hk

/-- Cluster `c` has been overwritten by `buf` and nothing else has changed on disk. -/
structure Stored (fs fs' : FAT12FS) (c : Nat) (buf : ByteMap) : Prop where
  coherent : Coherent fs'
  same : SameVolume fs fs'
  fatTable : fs'.fatTable = fs.fatTable
  byte : ∀ c' k, 2 ≤ c' → k < fs.clusterSize →
    fs'.clusterByte c' k = if c' = c then buf k else fs.clusterByte c' k

/-- Writing a dirty slot to the disk. -/
theorem writeCluster_spec (fs : FAT12FS) (i : Nat) (hm : Mounted fs)
    (hdirty : (fs.cachePool i).dirty = true) (hc : 2 ≤ (fs.cachePool i).clusterNum) :
    ∃ sector r, fs.writeCluster i = .ret (true,
        { fs with device := { sector, fails := fs.device.fails, requests := r } }.setSlot i
          { fs.cachePool i with dirty := false }) ∧
      ∀ c' k, 2 ≤ c' → k < fs.clusterSize →
        sector (fs.dataStartSector + (c' - 2) * fs.bpb.sectorsPerCluster + k / 512) (k % 512) =
          if c' = (fs.cachePool i).clusterNum then (fs.cachePool i).buf k else fs.clusterByte c' k := by
  obtain ⟨sector, r, hrun, hin, hout⟩ := writeSectors_spec hm.reliable
    (fs.dataStartSector + ((fs.cachePool i).clusterNum - 2) * fs.bpb.sectorsPerCluster)
    fs.bpb.sectorsPerCluster 0 (fs.cachePool i).buf
  refine ⟨sector, r, ?_, fun c' k hc' hk => ?_⟩
  · rw [writeCluster]
    simp only [hdirty, Bool.not_true, Bool.false_eq_true, if_false, cluster2sector_eq hm hc,
      Outcome.ret_bind, hm.bytesPerSector, hrun, Outcome.pure_eq]
  · rw [hm.clusterSize] at hk
    by_cases heq : c' = (fs.cachePool i).clusterNum
    · rw [if_pos heq, heq]
      exact hin k (by omega) (by omega)
    · rw [if_neg heq, clusterByte, hout]
      have hi : k / 512 < fs.bpb.sectorsPerCluster := by omega
      rcases sector_apart hc hc' heq hi fs.dataStartSector with h | h
      · exact Or.inl (by omega)
      · exact Or.inr (by omega)

/-- The slot as a caller leaves it: changed and marked dirty. -/
def edited (fs : FAT12FS) (i : Nat) (buf : ByteMap) : FAT12FS := (fs.setBuf i buf).setDirty i

theorem edited_slot (fs : FAT12FS) (i : Nat) (buf : ByteMap) :
    (fs.edited i buf).cachePool i = { fs.cachePool i with buf, dirty := true } := by
  rw [edited, setDirty, setSlot_self, setBuf, setSlot_self]

theorem edited_of_ne (fs : FAT12FS) {i j : Nat} (buf : ByteMap) (h : j ≠ i) :
    (fs.edited i buf).cachePool j = fs.cachePool j := by
  rw [edited, setDirty, setSlot_of_ne _ _ h, setBuf, setSlot_of_ne _ _ h]

theorem edited_same (fs : FAT12FS) (i : Nat) (buf : ByteMap) : SameVolume fs (fs.edited i buf) :=
  ⟨rfl, rfl, rfl, rfl, rfl, rfl, rfl⟩

theorem Pinned.stored {fs fs' : FAT12FS} {i c : Nat} (h : Pinned fs fs' i c) (fs'' : FAT12FS) (hcoh : Coherent fs)
    (hc : 2 ≤ c) {buf : ByteMap} (hsame : SameVolume fs' fs'') (htable : fs''.fatTable = fs'.fatTable)
    (hslot : fs''.cachePool i = { fs'.cachePool i with buf, dirty := false, refcount := 0 })
    (hother : ∀ j, j ≠ i → fs''.cachePool j = fs'.cachePool j)
    (hbyte : ∀ c' k, 2 ≤ c' → k < fs'.clusterSize →
      fs''.clusterByte c' k = if c' = c then buf k else fs'.clusterByte c' k) :
    Stored fs fs'' c buf := by
  have hsize := h.same.clusterSize
  have hold := clusterByte_congr h.same h.sector
  rw [hsize, hold] at hbyte
  refine ⟨?_, h.same.trans hsame, htable.trans h.fatTable, hbyte⟩
  refine h.coherent hcoh (hsame.clusterSize.trans hsize) (by rw [hslot]) (by rw [hslot])
    (by rw [hslot]; exact h.cluster) (fun k hk => ?_) hother fun c' k hc' hne hk => ?_
  · rw [hbyte c k hc hk, if_pos rfl, hslot]
  · rw [hbyte c' k hc' hk, if_neg hne]

/-- A caller's change is on disk once it has written the cluster and released the slot. -/
theorem Pinned.store {fs fs' : FAT12FS} {i c : Nat} (h : Pinned fs fs' i c) (hm : Mounted fs)
    (hcoh : Coherent fs) (hc : 2 ≤ c) (buf : ByteMap) :
    ∃ fs₁ fs₂, (fs'.edited i buf).writeCluster i = .ret (true, fs₁) ∧ fs₁.releaseCache i = .ret fs₂ ∧
      Stored fs fs₂ c buf := by
  have hslot := edited_slot fs' i buf
  have hnum : ((fs'.edited i buf).cachePool i).clusterNum = c := by rw [hslot]; exact h.cluster
  obtain ⟨sector, r, hrun, hbyte⟩ := writeCluster_spec _ i
    ((hm.congr h.same).congr (edited_same fs' i buf)) (by rw [hslot]) (by rw [hnum]; exact hc)
  rw [hnum, hslot] at hbyte
  rw [hslot] at hrun
  let fs₂ := { fs'.edited i buf with
    device := { sector, fails := fs'.device.fails, requests := r } }.setSlot i
      { fs'.cachePool i with buf, dirty := false, refcount := 0 }
  refine ⟨_, fs₂, hrun, ?_, ?_⟩
  · have href := h.refcount
    simp [releaseCache, setSlot, href, fs₂]
    rfl
  · refine h.stored fs₂ hcoh hc ⟨rfl, rfl, rfl, rfl, rfl, rfl, rfl⟩ rfl (setSlot_self _ _ _)
      (fun j hj => ?_) hbyte
    exact (setSlot_of_ne _ _ hj).trans (edited_of_ne fs' buf hj)

/-- The same for a caller that leaves the writing to `release_cache`. -/
theorem Pinned.storeRelease {fs fs' : FAT12FS} {i c : Nat} (h : Pinned fs fs' i c) (hm : Mounted fs)
    (hcoh : Coherent fs) (hc : 2 ≤ c) (buf : ByteMap) :
    ∃ fs₂, (fs'.edited i buf).releaseCache i = .ret fs₂ ∧ Stored fs fs₂ c buf := by
  have hslot := edited_slot fs' i buf
  let g := (fs'.edited i buf).setSlot i { fs'.cachePool i with buf, dirty := true, refcount := 0 }
  have hg : g.cachePool i = { fs'.cachePool i with buf, dirty := true, refcount := 0 } :=
    setSlot_self _ _ _
  have hnum : (g.cachePool i).clusterNum = c := by rw [hg]; exact h.cluster
  obtain ⟨sector, r, hrun, hbyte⟩ := writeCluster_spec g i
    ((hm.congr h.same).congr ⟨rfl, rfl, rfl, rfl, rfl, rfl, rfl⟩) (by rw [hg])
    (by rw [hnum]; exact hc)
  rw [hnum, hg] at hbyte
  let fs₂ := { g with
    device := { sector, fails := fs'.device.fails, requests := r } }.setSlot i
      { fs'.cachePool i with buf, dirty := false, refcount := 0 }
  refine ⟨fs₂, ?_, ?_⟩
  · have href := h.refcount
    have hrel : (fs'.edited i buf).releaseCache i = (g.writeCluster i >>= fun x =>
        if x.1 = true then pure (x.2.setSlot i { x.2.cachePool i with dirty := false })
        else Outcome.halt) := by
      simp only [releaseCache, hslot, href]
      rfl
    rw [hrel, hrun]
    simp [setSlot, hg, fs₂]
    rfl
  · refine h.stored fs₂ hcoh hc ⟨rfl, rfl, rfl, rfl, rfl, rfl, rfl⟩ rfl (setSlot_self _ _ _)
      (fun j hj => ?_) hbyte
    exact (setSlot_of_ne _ _ hj).trans ((setSlot_of_ne _ _ hj).trans (edited_of_ne fs' buf hj))

end SysuOs.FAT12FS
