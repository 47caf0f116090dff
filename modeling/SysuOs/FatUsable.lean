import SysuOs.FatWalks

/-! Whether a cluster that `allocate_cluster` returns can be used. The table has entries up to 0xFF5, the cache
takes clusters up to 0xFEF only. -/

namespace SysuOs.FAT12FS

open EntryBuf Outcome Vfs

/-! ### The search -/

section

variable {fs fs' : FAT12FS}

/-- The search finds the first free cluster from `idx` on, or there is none. -/
theorem allocateClusterLoop_cases {fuel idx : Nat} (hcount : fs.clusterCount ≤ FAT12_MAX_CLUSTERS)
    (hfuel : fs.clusterCount - idx < fuel) :
    (fs.allocateClusterLoop fuel idx = .ret 0 ∧ ∀ k, idx ≤ k → k < fs.clusterCount → fs.fatTable k ≠ 0) ∨
      ∃ c, fs.allocateClusterLoop fuel idx = .ret c ∧ idx ≤ c ∧ c < fs.clusterCount ∧ fs.fatTable c = 0 ∧
        ∀ k, idx ≤ k → k < c → fs.fatTable k ≠ 0 := by
  induction fuel generalizing idx with
  | zero => omega
  | succ fuel ih =>
      rw [allocateClusterLoop]
      by_cases hlt : idx < fs.clusterCount
      · rw [if_pos hlt]
        by_cases hfree : fs.fatTable idx = 0
        · rw [if_pos hfree]
          exact Or.inr ⟨idx, rfl, le_refl idx, hlt, hfree, fun k hk hk' => by omega⟩
        · simp only [FAT12_MAX_CLUSTERS] at hcount
          rw [if_neg hfree, Nat.mod_eq_of_lt (by omega)]
          rcases @ih (idx + 1) (by omega) with ⟨hnone, hall⟩ | ⟨c, hsome, hle, hc, hzero, hfirst⟩
          · left
            refine ⟨hnone, fun k hk hk' => ?_⟩
            rcases Nat.eq_or_lt_of_le hk with rfl | hk
            · exact hfree
            · exact hall k hk hk'
          · right
            refine ⟨c, hsome, by omega, hc, hzero, fun k hk hk' => ?_⟩
            rcases Nat.eq_or_lt_of_le hk with rfl | hk
            · exact hfree
            · exact hfirst k hk hk'
      · rw [if_neg hlt]
        exact Or.inl ⟨rfl, fun k hk hk' => by omega⟩

theorem allocateCluster_cases (hcount : fs.clusterCount ≤ FAT12_MAX_CLUSTERS) :
    (fs.allocateCluster = .ret 0 ∧ ∀ k, 2 ≤ k → k < fs.clusterCount → fs.fatTable k ≠ 0) ∨
      ∃ c, fs.allocateCluster = .ret c ∧ 2 ≤ c ∧ c < fs.clusterCount ∧ fs.fatTable c = 0 ∧
        ∀ k, 2 ≤ k → k < c → fs.fatTable k ≠ 0 := by
  apply allocateClusterLoop_cases hcount
  simp only [FAT12_MAX_CLUSTERS] at hcount
  omega

/-! ### The cache while other slots are in use -/

/-- Some slot of the cache is not in use. -/
def HasUnused (fs : FAT12FS) : Prop := ∃ i, i < FAT12_MAX_CACHE ∧ (fs.cachePool i).refcount = 0

/-- A mounted volume on a drive that works, with a slot that is not in use. -/
structure Working (fs : FAT12FS) : Prop where
  accepted : fs.bpb.accepted = true
  reliable : fs.device.Reliable
  unused : HasUnused fs

theorem Working.bytesPerSector (h : Working fs) : fs.bpb.bytesPerSector = 512 := by
  have haccepted := h.accepted
  unfold Fat12BPB.accepted at haccepted
  simp only [Bool.and_eq_true, beq_iff_eq] at haccepted
  exact haccepted.1.1.1

theorem Working.congr (h : Working fs) (hsame : SameVolume fs fs') (hunused : HasUnused fs') : Working fs' where
  accepted := by
    rw [hsame.bpb]
    exact h.accepted
  reliable := by
    rw [Disk.Reliable, hsame.fails]
    exact h.reliable
  unused := hunused

/-- A later state of the volume, with the same FAT and a slot that is not in use. -/
structure Later (fs fs' : FAT12FS) : Prop where
  same : SameVolume fs fs'
  fatTable : fs'.fatTable = fs.fatTable
  unused : HasUnused fs'

/-- Slot `i` has been taken for cluster `c`; it, or another one, is not in use once it is released. -/
structure Holds (fs fs' : FAT12FS) (i c : Nat) : Prop where
  same : SameVolume fs fs'
  fatTable : fs'.fatTable = fs.fatTable
  lt : i < FAT12_MAX_CACHE
  cluster : (fs'.cachePool i).clusterNum = c
  unused : (fs'.cachePool i).refcount = 1 ∨
    ∃ j, j < FAT12_MAX_CACHE ∧ j ≠ i ∧ (fs'.cachePool j).refcount = 0

theorem cluster2sector_ret (hspc : fs.bpb.accepted = true) (hstart : fs.dataStartSector ≠ 0) {c : Nat} (hc : 2 ≤ c) :
    ∃ sector, fs.cluster2sector c = .ret sector := by
  have hspc' : fs.bpb.sectorsPerCluster ≠ 0 := by
    unfold Fat12BPB.accepted at hspc
    intro hzero
    simp [hzero] at hspc
  exact ⟨fs.dataStartSector + (c - 2) * fs.bpb.sectorsPerCluster, by simp [cluster2sector, hc, hstart, hspc']⟩

/-- While a slot is not in use, every cluster the cache takes is got. -/
theorem Working.getCache (h : Working fs) (hstart : fs.dataStartSector ≠ 0) {c : Nat} (hc : IsCluster c) :
    ∃ i fs₁, fs.getCache c = .ret (some i, fs₁) ∧ Holds fs fs₁ i c := by
  have hvalid : ¬(c < 2 ∨ c ≥ 0xFF0) := by
    have h₁ := hc.1
    have h₂ := hc.2
    omega
  obtain ⟨j, hj, hfree⟩ := h.unused
  rw [FAT12FS.getCache, if_neg hvalid]
  cases hfind : fs.findCache c with
  | some i =>
      have hi : i < FAT12_MAX_CACHE := List.mem_range.mp (List.mem_of_find?_eq_some hfind)
      have hnum : (fs.cachePool i).clusterNum = c := by simpa using List.find?_some hfind
      refine ⟨i, _, rfl, ⟨⟨rfl, rfl, rfl, rfl, rfl, rfl, rfl⟩, rfl, hi, ?_, ?_⟩⟩
      · rw [setSlot_self]
        exact hnum
      · by_cases hij : j = i
        · left
          rw [setSlot_self, ← hij, hfree]
          rfl
        · right
          exact ⟨j, hj, hij, by rw [setSlot_of_ne fs _ hij]; exact hfree⟩
  | none =>
      cases hunused : fs.findUnused with
      | none =>
          have hall := List.find?_eq_none.mp hunused j (List.mem_range.mpr hj)
          simp [hfree] at hall
      | some i =>
          have hi : i < FAT12_MAX_CACHE := List.mem_range.mp (List.mem_of_find?_eq_some hunused)
          dsimp only
          generalize hslot : fs.setSlot i { fs.cachePool i with clusterNum := c, refcount := 1, dirty := false } = fs₁
          have hpool : fs₁.cachePool i = { fs.cachePool i with clusterNum := c, refcount := 1, dirty := false } := by
            rw [← hslot, setSlot_self]
          have hframe : SameVolume fs fs₁ ∧ fs₁.fatTable = fs.fatTable := by
            rw [← hslot]
            exact ⟨⟨rfl, rfl, rfl, rfl, rfl, rfl, rfl⟩, rfl⟩
          obtain ⟨hsame, htable⟩ := hframe
          have hnum : (fs₁.cachePool i).clusterNum = c := by rw [hpool]
          obtain ⟨sector, hsector⟩ := @cluster2sector_ret fs₁ (by rw [hsame.bpb]; exact h.accepted)
            (by rw [hsame.dataStartSector]; exact hstart) c hc.1
          have hio : fs₁.device.Reliable := by
            rw [Disk.Reliable, hsame.fails]
            exact h.reliable
          obtain ⟨r, buf, hrun, -⟩ := readSectors_spec hio sector fs₁.bpb.sectorsPerCluster 0 (fs₁.cachePool i).buf
          have hbytes : fs₁.bpb.bytesPerSector = 512 := by
            rw [hsame.bpb]
            exact h.bytesPerSector
          refine ⟨i, { fs₁ with device := { fs₁.device with requests := r } }.setSlot i
            { fs₁.cachePool i with buf, dirty := false }, ?_, ?_⟩
          · rw [readCluster]
            simp only [hnum, hsector, hbytes, hrun, ret_bind, pure_eq, if_true]
          · refine ⟨hsame.trans ⟨rfl, rfl, rfl, rfl, rfl, rfl, rfl⟩, htable, hi, ?_, Or.inl ?_⟩
            · rw [setSlot_self]
              exact hnum
            · rw [setSlot_self, hpool]

/-- The slots are used as before, for the same clusters. -/
structure SameUses (fs fs' : FAT12FS) : Prop where
  same : SameVolume fs fs'
  fatTable : fs'.fatTable = fs.fatTable
  uses : ∀ j, (fs'.cachePool j).refcount = (fs.cachePool j).refcount ∧
    (fs'.cachePool j).clusterNum = (fs.cachePool j).clusterNum

theorem SameUses.refl (fs : FAT12FS) : SameUses fs fs := ⟨SameVolume.refl fs, rfl, fun _ => ⟨rfl, rfl⟩⟩

theorem SameUses.trans {fs'' : FAT12FS} (h : SameUses fs fs') (h' : SameUses fs' fs'') : SameUses fs fs'' where
  same := h.same.trans h'.same
  fatTable := h'.fatTable.trans h.fatTable
  uses j := ⟨(h'.uses j).1.trans (h.uses j).1, (h'.uses j).2.trans (h.uses j).2⟩

theorem sameUses_setSlot (fs : FAT12FS) (i : Nat) (buf : ByteMap) (dirty : Bool) :
    SameUses fs (fs.setSlot i { fs.cachePool i with buf, dirty }) := by
  refine ⟨⟨rfl, rfl, rfl, rfl, rfl, rfl, rfl⟩, rfl, fun j => ?_⟩
  by_cases hij : j = i
  · rw [hij, setSlot_self]
    exact ⟨rfl, rfl⟩
  · rw [setSlot_of_ne fs _ hij]
    exact ⟨rfl, rfl⟩

/-- A caller writes through the pointer to a buffer, and marks it. -/
theorem sameUses_edited (fs : FAT12FS) (i : Nat) (buf : ByteMap) : SameUses fs ((fs.setBuf i buf).setDirty i) := by
  have hbuf := sameUses_setSlot fs i buf (fs.cachePool i).dirty
  have hdirty := sameUses_setSlot (fs.setBuf i buf) i ((fs.setBuf i buf).cachePool i).buf true
  exact hbuf.trans hdirty

theorem sameUses_writeCluster (haccepted : fs.bpb.accepted = true) (hio : fs.device.Reliable)
    (hstart : fs.dataStartSector ≠ 0) {i : Nat} (hc : 2 ≤ (fs.cachePool i).clusterNum) :
    ∃ fs', fs.writeCluster i = .ret (true, fs') ∧ SameUses fs fs' := by
  rw [writeCluster]
  cases hdirty : (fs.cachePool i).dirty with
  | false => exact ⟨fs, rfl, SameUses.refl fs⟩
  | true =>
      obtain ⟨sector, hsector⟩ := cluster2sector_ret haccepted hstart hc
      obtain ⟨written, r, hrun, -⟩ := writeSectors_spec hio sector fs.bpb.sectorsPerCluster 0 (fs.cachePool i).buf
      have hbytes : fs.bpb.bytesPerSector = 512 := by
        unfold Fat12BPB.accepted at haccepted
        simp only [Bool.and_eq_true, beq_iff_eq] at haccepted
        exact haccepted.1.1.1
      have hdevice : SameUses fs { fs with device := { sector := written, fails := fs.device.fails, requests := r } } :=
        ⟨⟨rfl, rfl, rfl, rfl, rfl, rfl, rfl⟩, rfl, fun _ => ⟨rfl, rfl⟩⟩
      have hslot := hdevice.trans (sameUses_setSlot _ i (fs.cachePool i).buf false)
      refine ⟨_, ?_, hslot⟩
      simp only [Bool.not_true, Bool.false_eq_true, if_false, hsector, ret_bind, hbytes, hrun, pure_eq]

namespace Holds

variable {fs'' : FAT12FS} {i c : Nat}

theorem congr (h : Holds fs fs' i c) (huses : SameUses fs' fs'') : Holds fs fs'' i c where
  same := h.same.trans huses.same
  fatTable := huses.fatTable.trans h.fatTable
  lt := h.lt
  cluster := (huses.uses i).2.trans h.cluster
  unused := by
    rcases h.unused with hone | ⟨j, hj, hne, hfree⟩
    · exact Or.inl ((huses.uses i).1.trans hone)
    · exact Or.inr ⟨j, hj, hne, (huses.uses j).1.trans hfree⟩

/-- What is held can be written. -/
theorem writeCluster (h : Holds fs fs' i c) (hfs : Working fs) (hstart : fs.dataStartSector ≠ 0) (hc : 2 ≤ c) :
    ∃ fs'', fs'.writeCluster i = .ret (true, fs'') ∧ Holds fs fs'' i c := by
  have hio : fs'.device.Reliable := by
    rw [Disk.Reliable, h.same.fails]
    exact hfs.reliable
  obtain ⟨fs'', hwrite, huses⟩ := @sameUses_writeCluster fs' (by rw [h.same.bpb]; exact hfs.accepted) hio
    (by rw [h.same.dataStartSector]; exact hstart) i (by rw [h.cluster]; exact hc)
  exact ⟨fs'', hwrite, h.congr huses⟩

/-- What is held can be released, and then some slot is not in use. -/
theorem releaseCache (h : Holds fs fs' i c) (hfs : Working fs) (hstart : fs.dataStartSector ≠ 0) (hc : 2 ≤ c) :
    ∃ fs'', fs'.releaseCache i = .ret fs'' ∧ Later fs fs'' := by
  rw [FAT12FS.releaseCache]
  by_cases hzero : (fs'.cachePool i).refcount ≤ 0
  · rw [if_pos hzero]
    refine ⟨fs', rfl, h.same, h.fatTable, ?_⟩
    rcases h.unused with hone | ⟨j, hj, -, hfree⟩
    · omega
    · exact ⟨j, hj, hfree⟩
  · rw [if_neg hzero]
    dsimp only
    generalize hslot : fs'.setSlot i { fs'.cachePool i with refcount := (fs'.cachePool i).refcount - 1 } = fs₁
    have hpool : fs₁.cachePool i = { fs'.cachePool i with refcount := (fs'.cachePool i).refcount - 1 } := by
      rw [← hslot, setSlot_self]
    have hframe : SameVolume fs' fs₁ ∧ fs₁.fatTable = fs'.fatTable := by
      rw [← hslot]
      exact ⟨⟨rfl, rfl, rfl, rfl, rfl, rfl, rfl⟩, rfl⟩
    have hsame := h.same.trans hframe.1
    have htable := hframe.2.trans h.fatTable
    have hunused : HasUnused fs₁ := by
      rcases h.unused with hone | ⟨j, hj, hne, hfree⟩
      · refine ⟨i, h.lt, ?_⟩
        rw [hpool]
        change (fs'.cachePool i).refcount - 1 = 0
        omega
      · refine ⟨j, hj, ?_⟩
        rw [← hslot, setSlot_of_ne _ _ hne]
        exact hfree
    split
    · have hio : fs₁.device.Reliable := by
        rw [Disk.Reliable, hsame.fails]
        exact hfs.reliable
      obtain ⟨fs₂, hwrite, huses⟩ := @sameUses_writeCluster fs₁ (by rw [hsame.bpb]; exact hfs.accepted) hio
        (by rw [hsame.dataStartSector]; exact hstart) i (by rw [hpool]; exact hc.trans h.cluster.ge)
      have hall := huses.trans (sameUses_setSlot fs₂ i (fs₂.cachePool i).buf false)
      refine ⟨_, by rw [hwrite]; rfl, hsame.trans hall.same, hall.fatTable.trans htable, ?_⟩
      obtain ⟨j, hj, hfree⟩ := hunused
      exact ⟨j, hj, (hall.uses j).1.trans hfree⟩
    · exact ⟨fs₁, rfl, hsame, htable, hunused⟩

end Holds

/-! ### Members of a chain -/

/-- Every walk that comes to the cluster takes it for one of the chain: what the cluster holds may end the walk,
else it goes on with the next one. -/
structure Walked (fs : FAT12FS) (c : Nat) : Prop where
  lookup : ∀ name fuel pool,
    (∃ found vol, FatVolume.lookupLoop name (fuel + 1) c ⟨fs, pool⟩ = .ret (found, [c], vol)) ∨
      ∃ fs', Later fs fs' ∧ FatVolume.lookupLoop name (fuel + 1) c ⟨fs, pool⟩ =
        (do
          let (found, clusters, vol) ← FatVolume.lookupLoop name fuel (fs.fatTable c) ⟨fs', pool⟩
          return (found, c :: clusters, vol))
  skip : ∀ fuel offset, fs.clusterSize ≤ offset →
    fs.skipLoop (fuel + 1) c offset = fs.skipLoop fuel (fs.fatTable c) (offset - fs.clusterSize)
  read : ∀ fuel size readSize out, IntPos size → ∃ fs' out', Later fs fs' ∧
    fs.readLoop (fuel + 1) c size readSize out =
      fs'.readLoop fuel (fs.fatTable c) (size - min size fs.clusterSize % 2 ^ 16)
        (readSize + min size fs.clusterSize % 2 ^ 16) out'
  append : ∀ fuel cluster, fs.fatTable cluster = c →
    fs.lastClusterLoop (fuel + 1) cluster = fs.lastClusterLoop fuel c
  remove : ∀ fuel,
    freeLoop (fuel + 1) fs c = freeLoop fuel { fs.freeCluster c with fatTableDirty := true } (fs.fatTable c)
  findFreeEntry : ∀ fuel prev,
    (∃ k fs', freeEntryLoop (fuel + 1) fs c prev = .ret (.found ⟨false, c, k, 0⟩, fs')) ∨
      ∃ fs', Later fs fs' ∧ freeEntryLoop (fuel + 1) fs c prev = freeEntryLoop fuel fs' (fs.fatTable c) c
  iterate : ∀ fuel (it : DirIter), it.currentCluster = c →
    (∃ found k current fs', it.entryIndexInCluster < k ∧
      DirIter.nextLoop (fuel + 1) fs it = .ret (found, { it with entryIndexInCluster := k, current }, fs')) ∨
      ∃ fs' current, Later fs fs' ∧ DirIter.nextLoop (fuel + 1) fs it = DirIter.nextLoop fuel fs'
        { it with currentCluster := fs.fatTable c, entryIndexInCluster := 0, current }

/-- What `next` stops at lies behind where it started. -/
theorem scan_lt {buf : ByteMap} {n i k : Nat} {current current' : EntryBuf}
    (h : DirIter.scan buf n i current = .yielded k current' ∨ DirIter.scan buf n i current = .endOfDir k current') :
    i < k := by
  induction n generalizing i current with
  | zero =>
      rw [DirIter.scan] at h
      rcases h with h | h <;> cases h
  | succ n ih =>
      have hlater : ∀ current, DirIter.scan buf n (i + 1) current = .yielded k current' ∨
          DirIter.scan buf n (i + 1) current = .endOfDir k current' → i < k := fun current h => by
        have := ih h
        omega
      rw [DirIter.scan] at h
      split at h
      · split_ifs at h
        · exact hlater _ h
        · exact hlater _ h
        · rcases h with h | h <;> cases h
          exact Nat.lt_succ_self i
      · split_ifs at h
        · rcases h with h | h <;> cases h
          exact Nat.lt_succ_self i
        · exact hlater _ h

/-- A cluster the cache takes is walked over. -/
theorem Working.walked (h : Working fs) (hstart : fs.dataStartSector ≠ 0) {c : Nat} (hc : IsCluster c) :
    Walked fs c := by
  obtain ⟨hlow, hhigh⟩ := hc
  obtain ⟨i, fs₁, hget, hholds⟩ := h.getCache hstart ⟨hlow, hhigh⟩
  obtain ⟨fs₂, hrel, hlater⟩ := hholds.releaseCache h hstart hlow
  refine ⟨?_, ?_, ?_, ?_, ?_, ?_, ?_⟩
  · intro name fuel pool
    rw [FatVolume.lookupLoop, if_pos ⟨hlow, by omega⟩, hget]
    dsimp only [ret_bind]
    split
    · rename_i k entry _
      left
      rw [takeInode_fs, hrel]
      exact ⟨_, _, rfl⟩
    · left
      rw [hrel]
      exact ⟨_, _, rfl⟩
    · right
      refine ⟨fs₂, hlater, ?_⟩
      rw [hrel, ret_bind, hlater.fatTable]
  · intro fuel offset hle
    rw [skipLoop, if_pos hle, if_neg (by omega)]
  · intro fuel size readSize out hpos
    refine ⟨fs₂, memcpy out readSize (fs₁.cachePool i).buf (min size fs.clusterSize % 2 ^ 16), hlater, ?_⟩
    rw [readLoop, if_pos ⟨hpos, hlow, by omega⟩, hget]
    dsimp only [ret_bind]
    rw [hrel, ret_bind, hlater.fatTable, hholds.same.clusterSize]
  · intro fuel cluster hnext
    rw [lastClusterLoop, hnext, if_pos ⟨hlow, by omega⟩]
  · intro fuel
    rw [freeLoop, if_pos ⟨hlow, by omega⟩]
  · intro fuel prev
    rw [freeEntryLoop, if_pos ⟨hlow, by omega⟩, hget]
    dsimp only [ret_bind]
    rw [hrel, ret_bind]
    split
    · exact Or.inl ⟨_, _, rfl⟩
    · right
      refine ⟨fs₂, hlater, ?_⟩
      rw [hlater.fatTable]
  · intro fuel it hit
    rw [DirIter.nextLoop, hit, if_pos ⟨hlow, by omega⟩, hget]
    dsimp only [ret_bind]
    split
    · rename_i k current hscan
      left
      rw [hrel]
      exact ⟨true, k, current, fs₂, scan_lt (Or.inl hscan), rfl⟩
    · rename_i k current hscan
      left
      rw [hrel]
      exact ⟨false, k, current, fs₂, scan_lt (Or.inr hscan), rfl⟩
    · rename_i current _
      right
      refine ⟨fs₂, current, hlater, ?_⟩
      rw [hrel, ret_bind, hlater.fatTable]

/-! ### Every cluster that is allocated -/

/-- A cluster that is free can be used: the cache takes it while a slot is not in use, all walks go over it, and
`append` and `create_directory` do not panic on it once it is allocated. -/
structure Usable (fs : FAT12FS) (c : Nat) : Prop where
  getCache : ∀ fs', SameVolume fs fs' → HasUnused fs' → ∃ i fs'', fs'.getCache c = .ret (some i, fs'')
  walked : ∀ fs', SameVolume fs fs' → HasUnused fs' → Walked fs' c
  appendStart : ∀ node : Fat12Inode, node.startCluster = 0 → ∃ fs',
    fs.appendStart node = .ret (some { node with startCluster := c }, fs') ∧
      ∀ used src size, ∃ r, fs'.fillLast c used src size = .ret r
  append : ∀ fuel last src size appended, 0 < size → ∃ fs', SameVolume fs fs' ∧ HasUnused fs' ∧
    fs.appendLoop (fuel + 1) last src size appended =
      fs'.appendLoop fuel c (bytesFrom src (min size fs.clusterSize)) (size - min size fs.clusterSize)
        (appended + min size fs.clusterSize)
  createDirectory : ∀ location entry fs', (fs.setFat c 0xFFF).writeDirEntry location entry = .ret (true, fs') →
    ∃ fs'', fs'.clearCluster c = .ret (some fs'')

/-- All clusters are taken, or one that the cache takes is free and the clusters do not begin in sector 0. -/
def FreeBelow (fs : FAT12FS) : Prop :=
  (∀ c, 2 ≤ c → c < fs.clusterCount → fs.fatTable c ≠ 0) ∨
    fs.dataStartSector ≠ 0 ∧ ∃ c, IsCluster c ∧ c < fs.clusterCount ∧ fs.fatTable c = 0

theorem flushFatTable_later (hio : fs.device.Reliable) :
    ∃ fs', fs.flushFatTable = (true, fs') ∧ SameVolume fs fs' ∧ fs'.cachePool = fs.cachePool := by
  obtain ⟨sector, r, t, hrun, -, -⟩ := flushFatTable_spec hio
  exact ⟨_, hrun, ⟨rfl, rfl, rfl, rfl, rfl, rfl, rfl⟩, rfl⟩

theorem HasUnused.congr (h : HasUnused fs) (hpool : fs'.cachePool = fs.cachePool) : HasUnused fs' := by
  unfold HasUnused
  rw [hpool]
  exact h

/-- A cluster that is held is overwritten and released. -/
theorem Holds.store {i c : Nat} (h : Holds fs fs' i c) (hfs : Working fs) (hstart : fs.dataStartSector ≠ 0)
    (hc : 2 ≤ c) (buf : ByteMap) : ∃ fs₂ fs₃, ((fs'.setBuf i buf).setDirty i).writeCluster i = .ret (true, fs₂) ∧
      fs₂.releaseCache i = .ret fs₃ ∧ Later fs fs₃ := by
  have hedited := h.congr (sameUses_edited fs' i buf)
  obtain ⟨fs₂, hwrite, hwritten⟩ := hedited.writeCluster hfs hstart hc
  obtain ⟨fs₃, hrel, hlater⟩ := hwritten.releaseCache hfs hstart hc
  exact ⟨fs₂, fs₃, hwrite, hrel, hlater⟩

/-- The last cluster of a file can be filled up. -/
theorem Working.fillLast (h : Working fs) (hstart : fs.dataStartSector ≠ 0) {c : Nat} (hc : IsCluster c)
    (used : Nat) (src : ByteMap) (size : Nat) : ∃ r, fs.fillLast c used src size = .ret r := by
  rw [FAT12FS.fillLast]
  split
  · obtain ⟨i, fs₁, hget, hholds⟩ := h.getCache hstart hc
    obtain ⟨fs₂, fs₃, hwrite, hrel, -⟩ := hholds.store h hstart hc.1
      (memcpy (fs₁.cachePool i).buf used src (min size (fs₁.clusterSize - used)))
    rw [hget]
    dsimp only [ret_bind]
    rw [hwrite, ret_bind, hrel]
    exact ⟨_, rfl⟩
  · exact ⟨_, rfl⟩

/-- A cluster that the cache takes can be cleared. -/
theorem Working.clearCluster (h : Working fs) (hstart : fs.dataStartSector ≠ 0) {c : Nat} (hc : IsCluster c) :
    ∃ fs', fs.clearCluster c = .ret (some fs') := by
  obtain ⟨i, fs₁, hget, hholds⟩ := h.getCache hstart hc
  have hedited := hholds.congr (sameUses_edited fs₁ i (memzero (fs₁.cachePool i).buf fs₁.clusterSize))
  obtain ⟨fs₂, hrel, -⟩ := hedited.releaseCache h hstart hc.1
  rw [FAT12FS.clearCluster, hget]
  dsimp only [ret_bind]
  rw [hrel]
  exact ⟨fs₂, rfl⟩

/-- The round of the loop of `append` that takes a cluster goes on behind it. -/
theorem Working.appendLoop (h : Working fs) (hstart : fs.dataStartSector ≠ 0) {c : Nat} (hc : IsCluster c)
    (halloc : fs.allocateCluster = .ret c) (fuel last : Nat) (src : ByteMap) {size : Nat} (appended : Nat)
    (hsize : 0 < size) : ∃ fs', SameVolume fs fs' ∧ HasUnused fs' ∧
      fs.appendLoop (fuel + 1) last src size appended =
        fs'.appendLoop fuel c (bytesFrom src (min size fs.clusterSize)) (size - min size fs.clusterSize)
          (appended + min size fs.clusterSize) := by
  have hc0 : c ≠ 0 := by
    have := hc.1
    omega
  rw [FAT12FS.appendLoop, if_pos hsize, halloc, ret_bind, if_neg hc0]
  obtain ⟨fs₁, hflush, hsame, hpool⟩ := @flushFatTable_later
    { (fs.setFat last c).setFat c 0xFFF with fatTableDirty := true } h.reliable
  have hlinked : SameVolume fs { (fs.setFat last c).setFat c 0xFFF with fatTableDirty := true } :=
    ⟨rfl, rfl, rfl, rfl, rfl, rfl, rfl⟩
  have hsame₁ := hlinked.trans hsame
  have hfs₁ : Working fs₁ := h.congr hsame₁ (h.unused.congr hpool)
  have hstart₁ : fs₁.dataStartSector ≠ 0 := by
    rw [hsame₁.dataStartSector]
    exact hstart
  obtain ⟨i, fs₂, hget, hholds⟩ := hfs₁.getCache hstart₁ hc
  obtain ⟨fs₃, fs₄, hwrite, hrel, hlater⟩ := hholds.store hfs₁ hstart₁ hc.1
    (memcpy (memzero (fs₂.cachePool i).buf fs₂.clusterSize) 0 src (min size fs₂.clusterSize))
  have hsize₂ : fs₂.clusterSize = fs.clusterSize := hholds.same.clusterSize.trans hsame₁.clusterSize
  refine ⟨fs₄, hsame₁.trans hlater.same, hlater.unused, ?_⟩
  dsimp only
  rw [hflush]
  dsimp only
  rw [hget]
  dsimp only [ret_bind]
  rw [hwrite, ret_bind, hrel, ret_bind, if_pos rfl, hsize₂]

/-- Writing an entry leaves some slot unused. -/
theorem Working.writeDirEntry (h : Working fs) (hstart : fs.dataStartSector ≠ 0) {location : EntryLocation}
    {entry : NormalizedEntry} (hwrite : fs.writeDirEntry location entry = .ret (true, fs')) :
    SameVolume fs fs' ∧ HasUnused fs' := by
  unfold FAT12FS.writeDirEntry at hwrite
  split at hwrite
  · split at hwrite
    · cases hwrite
    · cases hwrite
      exact ⟨⟨rfl, rfl, rfl, rfl, rfl, rfl, rfl⟩, h.unused⟩
  · unfold putDirEntry at hwrite
    split at hwrite
    · cases hwrite
    · split at hwrite
      · cases hwrite
      · by_cases hc : IsCluster location.currentCluster
        · obtain ⟨i, fs₁, hget, hholds⟩ := h.getCache hstart hc
          rw [hget] at hwrite
          dsimp only [ret_bind] at hwrite
          split at hwrite
          · obtain ⟨fs₂, -, hrel⟩ := bind_eq_ret hwrite
            cases hrel
          · rename_i buf _
            have hedited := hholds.congr (sameUses_edited fs₁ i buf)
            obtain ⟨fs₂, hrel, hlater⟩ := hedited.releaseCache h hstart hc.1
            rw [hrel] at hwrite
            obtain ⟨-, rfl⟩ := Prod.mk.inj (Outcome.ret.inj hwrite)
            exact ⟨hlater.same, hlater.unused⟩
        · have hinvalid : location.currentCluster < 2 ∨ location.currentCluster ≥ 0xFF0 := by
            rw [IsCluster] at hc
            omega
          rw [FAT12FS.getCache, if_pos hinvalid] at hwrite
          cases hwrite

theorem Working.usable (h : Working fs) (hstart : fs.dataStartSector ≠ 0) {c : Nat} (hc : IsCluster c)
    (halloc : fs.allocateCluster = .ret c) : Usable fs c := by
  have hnext : ∀ {fs'}, SameVolume fs fs' → fs'.dataStartSector ≠ 0 := fun hsame => by
    rw [hsame.dataStartSector]
    exact hstart
  refine ⟨?_, ?_, ?_, ?_, ?_⟩
  · intro fs' hsame hunused
    obtain ⟨i, fs'', hget, -⟩ := (h.congr hsame hunused).getCache (hnext hsame) hc
    exact ⟨i, fs'', hget⟩
  · intro fs' hsame hunused
    exact (h.congr hsame hunused).walked (hnext hsame) hc
  · intro node hnode
    have hc0 : c ≠ 0 := by
      have := hc.1
      omega
    obtain ⟨fs₁, hflush, hsame, hpool⟩ := @flushFatTable_later { fs.setFat c 0xFFF with fatTableDirty := true } h.reliable
    have hmarked : SameVolume fs { fs.setFat c 0xFFF with fatTableDirty := true } := ⟨rfl, rfl, rfl, rfl, rfl, rfl, rfl⟩
    have hsame₁ := hmarked.trans hsame
    refine ⟨fs₁, ?_, fun used src size => ?_⟩
    · rw [appendStart, if_pos hnode, halloc, ret_bind, if_neg hc0, hflush]
      rfl
    · exact (h.congr hsame₁ (h.unused.congr hpool)).fillLast (hnext hsame₁) hc used src size
  · intro fuel last src size appended hsize
    exact h.appendLoop hstart hc halloc fuel last src appended hsize
  · intro location entry fs' hwrite
    have hmarked : SameVolume fs (fs.setFat c 0xFFF) := ⟨rfl, rfl, rfl, rfl, rfl, rfl, rfl⟩
    have hfs := h.congr hmarked (h.unused.congr rfl)
    obtain ⟨hsame, hunused⟩ := hfs.writeDirEntry (hnext hmarked) hwrite
    exact (hfs.congr hsame hunused).clearCluster (hnext (hmarked.trans hsame)) hc

/-- With the first data sector 0 no cluster is read into an empty cache. -/
theorem getCache_noStart (hstart : fs.dataStartSector = 0) {c : Nat} (hc : IsCluster c) :
    getCache { fs with cachePool := fun _ => ⟨0, fun _ => 0, false, 0⟩ } c = .halt := by
  obtain ⟨hlow, hhigh⟩ := hc
  generalize hempty : { fs with cachePool := fun _ => ⟨0, fun _ => 0, false, 0⟩ } = fs₀
  have hslots : ∀ i, fs₀.cachePool i = ⟨0, fun _ => 0, false, 0⟩ := fun i => by rw [← hempty]
  have hstart₀ : fs₀.dataStartSector = 0 := by rw [← hempty, hstart]
  have hfind : fs₀.findCache c = none := by
    refine List.find?_eq_none.mpr fun i _ => ?_
    rw [hslots]
    simp only [decide_eq_true_eq]
    omega
  rw [getCache, if_neg (by omega), hfind]
  dsimp only
  cases hunused : fs₀.findUnused with
  | none =>
      have hall := List.find?_eq_none.mp hunused 0 (by decide)
      rw [hslots] at hall
      simp at hall
  | some i =>
      dsimp only
      rw [readCluster, cluster2sector, setSlot_self]
      have hassert : ¬(fs₀.setSlot i { fs₀.cachePool i with clusterNum := c, refcount := 1, dirty := false }).dataStartSector ≠ 0 :=
        fun hne => hne hstart₀
      simp only [ASSERT, hlow, hassert, if_true, if_false, ret_bind]
      rfl

/-- On a volume with at most 4084 data clusters, what `allocate_cluster` returns can be used if and only if one of
the clusters below 0xFF0 is free, or none at all. -/
theorem allocateCluster_usable_iff (h : Working fs) (hcount : fs.clusterCount ≤ 4084 + 2) :
    (∀ c, fs.allocateCluster = .ret c → c ≠ 0 → Usable fs c) ↔ FreeBelow fs := by
  rcases @allocateCluster_cases fs (hcount.trans (by decide)) with ⟨hnone, hall⟩ | ⟨c, hsome, hlow, hc, hfree, hfirst⟩
  · constructor
    · intro _
      exact Or.inl hall
    · intro _ c halloc hne
      rw [hnone] at halloc
      exact absurd (Outcome.ret.inj halloc).symm hne
  · constructor
    · intro husable
      right
      have huse := husable c hsome (by omega)
      obtain ⟨i, fs', hget⟩ := huse.getCache fs (SameVolume.refl fs) h.unused
      have hcluster : IsCluster c := by
        by_contra hbig
        rw [FAT12FS.getCache, if_pos (by rw [IsCluster] at hbig; omega)] at hget
        cases hget
      refine ⟨fun hstart => ?_, c, hcluster, hc, hfree⟩
      obtain ⟨i, fs', hget⟩ := huse.getCache { fs with cachePool := fun _ => ⟨0, fun _ => 0, false, 0⟩ }
        ⟨rfl, rfl, rfl, rfl, rfl, rfl, rfl⟩ ⟨0, by decide, rfl⟩
      rw [getCache_noStart hstart hcluster] at hget
      cases hget
    · rintro (hall | ⟨hstart, k, hk, -, hkfree⟩) d halloc -
      · exact absurd hfree (hall c hlow hc)
      · obtain rfl : c = d := Outcome.ret.inj (hsome.symm.trans halloc)
        have hle : c ≤ k := by
          by_contra hlt
          exact hfirst k hk.1 (Nat.not_le.mp hlt) hkfree
        exact h.usable hstart ⟨hlow, lt_of_le_of_lt hle hk.2⟩ hsome

end

theorem allocateCluster_usable_oneCluster : oneCluster.allocateCluster = .ret 3 ∧ Usable oneCluster 3 := by
  have halloc : oneCluster.allocateCluster = .ret 3 := rfl
  refine ⟨halloc, ?_⟩
  exact (allocateCluster_usable_iff ⟨by decide, oneCluster_reliable, 0, by decide, rfl⟩ (by decide)).mpr
    (Or.inr ⟨by decide, 3, by unfold IsCluster; decide, by decide, rfl⟩) 3 halloc (by decide)

/-- A volume of 4084 data clusters, of which those from 0xFF0 on are free. -/
def lastClustersFree : FAT12FS :=
  { mounting (fun _ _ => 0) with
    bpb := { bytesPerSector := 512, sectorsPerCluster := 1, reservedSectorCount := 1, numFats := 2,
             rootEntryCount := 16, fatSize16 := 12 }
    dataStartSector := 26
    clusterCount := 4084 + 2
    fatTable := fun c => if c < 0xFF0 then 0xFFF else 0 }

/-- Cluster 0xFF0 is allocated, and not taken by the cache. -/
theorem not_allocateCluster_usable : ¬ ∀ fs : FAT12FS, Working fs → fs.clusterCount ≤ 4084 + 2 →
    ∀ c, fs.allocateCluster = .ret c → c ≠ 0 → Usable fs c := by
  intro hall
  have hworking : Working lastClustersFree := ⟨by decide, fun _ => rfl, 0, by decide, rfl⟩
  rcases @allocateCluster_cases lastClustersFree (by decide) with ⟨-, hnone⟩ | ⟨c, hsome, hlow, -, hfree, -⟩
  · have hfree : lastClustersFree.fatTable 0xFF0 = 0 := rfl
    exact absurd hfree (hnone 0xFF0 (by decide) (by decide))
  · have hhigh : 0xFF0 ≤ c := by
      by_contra hlt
      have hused : lastClustersFree.fatTable c = 0xFFF := if_pos (Nat.not_le.mp hlt)
      rw [hused] at hfree
      cases hfree
    obtain ⟨i, fs', hget⟩ := (hall _ hworking (by decide) c hsome (by omega)).getCache lastClustersFree
      (SameVolume.refl _) hworking.unused
    rw [getCache, if_pos (Or.inr hhigh)] at hget
    cases hget

end SysuOs.FAT12FS
