import SysuOs.FatWalks

/-! `FAT12_FS::mount`, and which disks it is safe on. The BPB is checked field by field; that the FAT fits the
table, and that the regions in front of the clusters fit the disk, is not checked. -/

namespace SysuOs.FAT12FS

open EntryBuf Outcome Vfs

/-- The BPB of a boot sector, and the two counts of sectors that only `mount` reads. -/
structure BootSector where
  bpb : Fat12BPB
  totalSectors16 : Nat
  totalSectors32 : Nat

/-- `memcpy(&bpb, tmp_sector_buffer + 11, sizeof(fat12_BPB))`. -/
def BootSector.parse (sector : ByteMap) : BootSector where
  bpb :=
    { bytesPerSector := u16At sector 11
      sectorsPerCluster := (sector 13).toNat
      reservedSectorCount := u16At sector 14
      numFats := (sector 16).toNat
      rootEntryCount := u16At sector 17
      fatSize16 := u16At sector 22 }
  totalSectors16 := u16At sector 19
  totalSectors32 := u32At sector 32

namespace BootSector

variable (boot : BootSector)

def totalSector : Nat := if boot.totalSectors16 ≠ 0 then boot.totalSectors16 else boot.totalSectors32

def rootSectorCount : Nat :=
  (boot.bpb.rootEntryCount * FAT12_ENTRY_BYTES + boot.bpb.bytesPerSector - 1) / boot.bpb.bytesPerSector

def rootStartSector : Nat := boot.bpb.reservedSectorCount + boot.bpb.numFats * boot.bpb.fatSize16

def dataStartSector : Nat := boot.rootStartSector + boot.rootSectorCount

/-- `total_sector - data_start_sector`, which wraps around. -/
def dataSectors : Nat := (boot.totalSector + 2 ^ 32 - boot.dataStartSector) % 2 ^ 32

end BootSector

/-- `memset(this, 0, sizeof(FAT12_FS))`, for the drive that is mounted. -/
def blank (this : Nat) (disk : Disk) : FAT12FS where
  this := this
  cachePool := fun _ => ⟨0, fun _ => 0, false, 0⟩
  rootDir := fun _ => reset.normalizedEntry
  rootDirDirty := false
  tmpSectorBuffer := fun _ => 0
  bpb := ⟨0, 0, 0, 0, 0, 0⟩
  fatTable := fun _ => 0
  fatTableDirty := false
  device := disk
  dataStartSector := 0
  rootEntries := 0
  clusterCount := 0
  clusterSize := 0

/-- What `mount` computes from the BPB. -/
def setGeometry (fs : FAT12FS) (boot : BootSector) : FAT12FS :=
  { fs with
    bpb := boot.bpb
    rootEntries := boot.bpb.rootEntryCount
    dataStartSector := boot.dataStartSector
    clusterSize := boot.bpb.bytesPerSector * boot.bpb.sectorsPerCluster
    clusterCount := (boot.dataSectors / boot.bpb.sectorsPerCluster + 2) % 2 ^ 32 }

/-- The inner loop of `init_root_dir`, for `n` entries of the sector from the `i`-th on: whether the end mark has
been reached, the buffer, and the entries kept. -/
def rootEntriesLoop (buf : ByteMap) (rootEntries : Nat) : Nat → Nat → EntryBuf → Nat → (Nat → NormalizedEntry) →
    Bool × EntryBuf × Nat × (Nat → NormalizedEntry)
  | 0, _, entryBuf, entryIdx, dir => (false, entryBuf, entryIdx, dir)
  | n + 1, i, entryBuf, entryIdx, dir =>
      match entryBuf.read buf (FAT12_ENTRY_BYTES * i) with
      | (true, entryBuf) =>
          if entryIdx < rootEntries then
            rootEntriesLoop buf rootEntries n (i + 1) entryBuf (entryIdx + 1)
              (Function.update dir entryIdx entryBuf.normalizedEntry)
          else rootEntriesLoop buf rootEntries n (i + 1) entryBuf entryIdx dir
      | (false, entryBuf) =>
          if entryBuf.status = .END_OF_DIR then (true, entryBuf, entryIdx, dir)
          else rootEntriesLoop buf rootEntries n (i + 1) entryBuf entryIdx dir

/-- The loop of `init_root_dir` over `n` sectors from `sector` on; a read that fails is not noticed. -/
def rootSectorsLoop : Nat → Nat → EntryBuf → Nat → FAT12FS → FAT12FS
  | 0, _, _, _, fs => fs
  | n + 1, sector, entryBuf, entryIdx, fs =>
      let (_, fs) := fs.readTmp sector 0
      match rootEntriesLoop fs.tmpSectorBuffer fs.rootEntries (fs.bpb.bytesPerSector / FAT12_ENTRY_BYTES) 0 entryBuf
          entryIdx fs.rootDir with
      | (true, _, _, dir) => { fs with rootDir := dir }
      | (false, entryBuf, entryIdx, dir) => rootSectorsLoop n (sector + 1) entryBuf entryIdx { fs with rootDir := dir }

/-- `mount`, with whether the buffers of the cache and the root directory can be allocated; that of the root
directory is not asked for. -/
def mount (this : Nat) (disk : Disk) (buffers rootBuffer : Bool) : Outcome (Bool × FAT12FS) :=
  match (blank this disk).readTmp 0 0 with
  | (false, fs) => return (false, fs)
  | (true, fs) =>
      let boot := BootSector.parse fs.tmpSectorBuffer
      if boot.bpb.accepted = false then return (false, { fs with bpb := boot.bpb })
      else do
        ASSERT (boot.dataSectors % boot.bpb.sectorsPerCluster = 0)
        match (fs.setGeometry boot).readFatTable with
        | (false, fs) => return (false, fs)
        | (true, fs) =>
            if !buffers then return (false, fs)
            else if !rootBuffer then return (true, fs)
            else return (true, rootSectorsLoop boot.rootSectorCount boot.rootStartSector reset 0 fs)

/-! ### The indices into `fat_table` -/

/-- The indices of the first loop of `read_fat_table`. -/
def readGroupsIndices (fs : FAT12FS) : Nat → Nat → Nat → List Nat
  | 0, _, _ => []
  | n + 1, i, idx =>
      let (r₀, fs) := fs.readTmp (i + fs.bpb.reservedSectorCount) 0
      let (r₁, fs) := fs.readTmp (i + 1 + fs.bpb.reservedSectorCount) FAT12_SECTOR_SIZE
      let (r₂, fs) := fs.readTmp (i + 2 + fs.bpb.reservedSectorCount) (FAT12_SECTOR_SIZE * 2)
      if r₀ && r₁ && r₂ then
        let count := fs.bpb.bytesPerSector / 2
        List.range' idx count ++
          readGroupsIndices { fs with fatTable := decodeLoop fs.tmpSectorBuffer count 0 idx fs.fatTable } n (i + 3)
            (idx + count)
      else []

/-- The indices of the second loop of `read_fat_table`. -/
def readRestIndices (fs : FAT12FS) : Nat → Nat → List Nat
  | 0, _ => []
  | n + 1, idx =>
      let count := fs.bpb.bytesPerSector * 8 / 12
      List.range' idx count ++ readRestIndices fs n (idx + count)

/-- The indices that `read_fat_table` uses. -/
def readFatIndices (fs : FAT12FS) : List Nat :=
  fs.readGroupsIndices (fs.bpb.fatSize16 / 3) 0 0 ++
    match fs.readGroups (fs.bpb.fatSize16 / 3) 0 0 with
    | (false, _, _) => []
    | (true, idx, fs) => fs.readRestIndices (fs.bpb.fatSize16 % 3) idx

/-- The indices of the loop of `flush_fat_table`. -/
def flushGroupsIndices (fs : FAT12FS) : Nat → Nat → Nat → List Nat
  | 0, _, _ => []
  | n + 1, i, idx =>
      let fs := { fs with tmpSectorBuffer := encodeLoop fs.fatTable 1024 0 idx fs.tmpSectorBuffer }
      let (r₀, fs) := fs.writeTmp (i + fs.bpb.reservedSectorCount) 0
      let (r₁, fs) := fs.writeTmp (i + 1 + fs.bpb.reservedSectorCount) FAT12_SECTOR_SIZE
      let (r₂, fs) := fs.writeTmp (i + 2 + fs.bpb.reservedSectorCount) (FAT12_SECTOR_SIZE * 2)
      List.range' idx 1024 ++ if r₀ && r₁ && r₂ then flushGroupsIndices fs n (i + 3) (idx + 1024) else []

def flushFatIndices (fs : FAT12FS) : List Nat := fs.flushGroupsIndices ((fs.bpb.fatSize16 + 2) / 3) 0 0

/-- The indices that the search of `allocate_cluster` looks at. -/
def allocateLoopIndices (fs : FAT12FS) : Nat → Nat → List Nat
  | 0, _ => []
  | fuel + 1, idx =>
      if idx < fs.clusterCount then
        idx :: if fs.fatTable idx = 0 then [] else allocateLoopIndices fs fuel ((idx + 1) % 2 ^ 16)
      else []

def allocateIndices (fs : FAT12FS) : List Nat := fs.allocateLoopIndices (2 ^ 16 + 1) 2

/-! ### What `mount` leaves as it has computed it -/

section

variable {fs fs' : FAT12FS}

/-- Only the FAT, the root directory, the temporary buffer and the requests to the drive may differ. -/
def Loaded (fs fs' : FAT12FS) : Prop :=
  ∃ device tmp table dir,
    fs' = { fs with device := device, tmpSectorBuffer := tmp, fatTable := table, rootDir := dir }

theorem Loaded.refl (fs : FAT12FS) : Loaded fs fs := ⟨_, _, _, _, rfl⟩

theorem Loaded.trans {fs'' : FAT12FS} (h : Loaded fs fs') (h' : Loaded fs' fs'') : Loaded fs fs'' := by
  obtain ⟨device, tmp, table, dir, rfl⟩ := h
  obtain ⟨device', tmp', table', dir', rfl⟩ := h'
  exact ⟨device', tmp', table', dir', rfl⟩

theorem loaded_readTmp (fs : FAT12FS) (lba pos : Nat) : Loaded fs (fs.readTmp lba pos).2 := ⟨_, _, _, _, rfl⟩

theorem loaded_table (fs : FAT12FS) (table : Nat → Nat) : Loaded fs { fs with fatTable := table } := ⟨_, _, _, _, rfl⟩

theorem loaded_readGroups (fs : FAT12FS) (n i idx : Nat) : Loaded fs (fs.readGroups n i idx).2.2 := by
  induction n generalizing fs i idx with
  | zero => exact Loaded.refl fs
  | succ n ih =>
      unfold readGroups
      dsimp only
      have hread : ∀ lba₀ pos₀ lba₁ pos₁ lba₂ pos₂,
          Loaded fs (((fs.readTmp lba₀ pos₀).2.readTmp lba₁ pos₁).2.readTmp lba₂ pos₂).2 :=
        fun _ _ _ _ _ _ => ((loaded_readTmp fs _ _).trans (loaded_readTmp _ _ _)).trans (loaded_readTmp _ _ _)
      split
      · exact ((hread _ _ _ _ _ _).trans (loaded_table _ _)).trans (ih _ _ _)
      · exact hread _ _ _ _ _ _

theorem loaded_readRest (fs : FAT12FS) (n i idx : Nat) (res : Bool) : Loaded fs (fs.readRest n i idx res).2 := by
  induction n generalizing fs i idx res with
  | zero => exact Loaded.refl fs
  | succ n ih =>
      unfold readRest
      exact ((loaded_readTmp fs _ _).trans (loaded_table _ _)).trans (ih _ _ _ _)

theorem loaded_readFatTable (fs : FAT12FS) : Loaded fs fs.readFatTable.2 := by
  have hgroups := loaded_readGroups fs (fs.bpb.fatSize16 / 3) 0 0
  unfold readFatTable
  split
  · rename_i heq
    rwa [heq] at hgroups
  · rename_i heq
    rw [heq] at hgroups
    exact hgroups.trans (loaded_readRest _ _ _ _ _)

theorem loaded_rootSectors (fs : FAT12FS) (n sector : Nat) (entryBuf : EntryBuf) (entryIdx : Nat) :
    Loaded fs (rootSectorsLoop n sector entryBuf entryIdx fs) := by
  induction n generalizing fs sector entryBuf entryIdx with
  | zero => exact Loaded.refl fs
  | succ n ih =>
      have hread := loaded_readTmp fs sector 0
      have hdir : ∀ (fs : FAT12FS) dir, Loaded fs { fs with rootDir := dir } := fun fs dir => ⟨_, _, _, _, rfl⟩
      unfold rootSectorsLoop
      dsimp only
      split
      · exact hread.trans (hdir _ _)
      · exact (hread.trans (hdir _ _)).trans (ih _ _ _ _)

/-- A mount that succeeds has passed the checks, and has computed the geometry of the boot sector. -/
theorem mount_geometry {this : Nat} {disk : Disk} {buffers rootBuffer : Bool}
    (h : mount this disk buffers rootBuffer = .ret (true, fs)) :
    ∃ fs₀, (blank this disk).readTmp 0 0 = (true, fs₀) ∧
      (BootSector.parse fs₀.tmpSectorBuffer).bpb.accepted = true ∧
      ((fs₀.setGeometry (BootSector.parse fs₀.tmpSectorBuffer)).readFatTable).1 = true ∧
      Loaded (fs₀.setGeometry (BootSector.parse fs₀.tmpSectorBuffer)) fs := by
  unfold mount at h
  split at h
  · cases h
  · rename_i fs₀ hread
    dsimp only at h
    split at h
    · cases h
    · rename_i haccepted
      obtain ⟨-, -, h⟩ := bind_eq_ret h
      refine ⟨fs₀, hread, by simpa using haccepted, ?_⟩
      have hloaded := loaded_readFatTable (fs₀.setGeometry (BootSector.parse fs₀.tmpSectorBuffer))
      split at h
      · cases h
      · rename_i fs₁ hfat
        rw [hfat] at hloaded ⊢
        refine ⟨rfl, ?_⟩
        split_ifs at h
        · cases h
        · obtain ⟨-, rfl⟩ := Prod.mk.inj (Outcome.ret.inj h)
          exact hloaded
        · obtain ⟨-, rfl⟩ := Prod.mk.inj (Outcome.ret.inj h)
          exact hloaded.trans (loaded_rootSectors _ _ _ _ _)

/-! ### How far the indices go -/

theorem readTmp_bpb {lba pos : Nat} {res : Bool} (h : fs.readTmp lba pos = (res, fs')) : fs'.bpb = fs.bpb := by
  have hfs : fs' = (fs.readTmp lba pos).2 := by rw [h]
  rw [hfs]
  rfl

/-- The groups that are read fill the table from `idx` on. -/
theorem readGroups_indices {n i idx idx' : Nat} (h : fs.readGroups n i idx = (true, idx', fs')) :
    idx' = idx + n * (fs.bpb.bytesPerSector / 2) ∧ ∀ k ∈ fs.readGroupsIndices n i idx, k < idx' := by
  induction n generalizing fs i idx with
  | zero =>
      obtain ⟨-, hrest⟩ := Prod.mk.inj h
      obtain ⟨rfl, -⟩ := Prod.mk.inj hrest
      refine ⟨by omega, fun k hk => absurd hk List.not_mem_nil⟩
  | succ n ih =>
      unfold readGroups at h
      unfold readGroupsIndices
      rcases h₀ : fs.readTmp (i + fs.bpb.reservedSectorCount) 0 with ⟨r₀, fs₀⟩
      rw [h₀] at h
      dsimp only at h ⊢
      rcases h₁ : fs₀.readTmp (i + 1 + fs₀.bpb.reservedSectorCount) FAT12_SECTOR_SIZE with ⟨r₁, fs₁⟩
      rw [h₁] at h
      dsimp only at h ⊢
      rcases h₂ : fs₁.readTmp (i + 2 + fs₁.bpb.reservedSectorCount) (FAT12_SECTOR_SIZE * 2) with ⟨r₂, fs₂⟩
      rw [h₂] at h
      dsimp only at h ⊢
      have hbpb : fs₂.bpb = fs.bpb := (readTmp_bpb h₂).trans ((readTmp_bpb h₁).trans (readTmp_bpb h₀))
      rw [hbpb] at h ⊢
      by_cases hok : (r₀ && r₁ && r₂) = true
      · rw [if_pos hok] at h ⊢
        obtain ⟨hidx, hall⟩ := ih h
        have hcount : idx' = idx + fs.bpb.bytesPerSector / 2 + n * (fs.bpb.bytesPerSector / 2) := by
          rw [← hbpb]
          rw [hidx, hbpb]
        refine ⟨by rw [hcount, Nat.succ_mul]; omega, fun k hk => ?_⟩
        rcases List.mem_append.mp hk with hk | hk
        · rw [List.mem_range'_1] at hk
          omega
        · exact hall k hk
      · rw [if_neg hok] at h
        cases h

theorem readRest_indices (fs : FAT12FS) (n idx : Nat) :
    ∀ k ∈ fs.readRestIndices n idx, k < idx + n * (fs.bpb.bytesPerSector * 8 / 12) := by
  induction n generalizing idx with
  | zero => exact fun k hk => absurd hk List.not_mem_nil
  | succ n ih =>
      unfold readRestIndices
      intro k hk
      rw [Nat.succ_mul]
      rcases List.mem_append.mp hk with hk | hk
      · rw [List.mem_range'_1] at hk
        omega
      · have := ih _ k hk
        omega

/-- A FAT of twelve sectors stays within the table when it is read. -/
theorem readFatIndices_lt (hbytes : fs.bpb.bytesPerSector = 512) (hsize : fs.bpb.fatSize16 ≤ 12)
    (hread : fs.readFatTable.1 = true) : ∀ k ∈ fs.readFatIndices, k < FAT12_MAX_CLUSTERS := by
  unfold readFatTable at hread
  unfold readFatIndices
  rcases heq : fs.readGroups (fs.bpb.fatSize16 / 3) 0 0 with ⟨res, idx, fs₁⟩
  rw [heq] at hread
  cases res with
  | false => cases hread
  | true =>
      have hbpb : fs₁.bpb = fs.bpb := by
        obtain ⟨device, tmp, table, dir, hloaded⟩ := loaded_readGroups fs (fs.bpb.fatSize16 / 3) 0 0
        rw [heq] at hloaded
        change fs₁ = _ at hloaded
        rw [hloaded]
      obtain ⟨hidx, hgroups⟩ := readGroups_indices heq
      intro k hk
      simp only [FAT12_MAX_CLUSTERS]
      rcases List.mem_append.mp hk with hk | hk
      · have := hgroups k hk
        rw [hbytes] at hidx
        omega
      · have := readRest_indices fs₁ _ _ k hk
        rw [hbpb, hbytes] at this
        rw [hbytes] at hidx
        omega

theorem flushGroupsIndices_lt (fs : FAT12FS) (n i idx : Nat) :
    ∀ k ∈ fs.flushGroupsIndices n i idx, k < idx + n * 1024 := by
  induction n generalizing fs i idx with
  | zero => exact fun k hk => absurd hk List.not_mem_nil
  | succ n ih =>
      unfold flushGroupsIndices
      dsimp only
      intro k hk
      rcases List.mem_append.mp hk with hk | hk
      · rw [List.mem_range'_1] at hk
        omega
      · split at hk
        · have := ih _ _ _ k hk
          omega
        · exact absurd hk List.not_mem_nil

theorem writeTmp_reliable (hio : fs.device.Reliable) (lba pos : Nat) :
    ∃ fs', fs.writeTmp lba pos = (true, fs') ∧ fs'.device.Reliable := by
  rw [writeTmp, Disk.ideWriteSector_ok hio]
  exact ⟨_, rfl, hio⟩

/-- With a drive that works the last group is come to. -/
theorem flushGroupsIndices_last (hio : fs.device.Reliable) (n i idx : Nat) (hn : 0 < n) :
    idx + (n - 1) * 1024 ∈ fs.flushGroupsIndices n i idx := by
  induction n generalizing fs i idx with
  | zero => omega
  | succ n ih =>
      unfold flushGroupsIndices
      dsimp only
      generalize encodeLoop fs.fatTable 1024 0 idx fs.tmpSectorBuffer = tmp
      obtain ⟨fs₀, h₀, hio₀⟩ :=
        @writeTmp_reliable { fs with tmpSectorBuffer := tmp } hio (i + fs.bpb.reservedSectorCount) 0
      rw [h₀]
      dsimp only
      obtain ⟨fs₁, h₁, hio₁⟩ := writeTmp_reliable hio₀ (i + 1 + fs₀.bpb.reservedSectorCount) FAT12_SECTOR_SIZE
      rw [h₁]
      dsimp only
      obtain ⟨fs₂, h₂, hio₂⟩ := writeTmp_reliable hio₁ (i + 2 + fs₁.bpb.reservedSectorCount) (FAT12_SECTOR_SIZE * 2)
      rw [h₂, List.mem_append]
      by_cases hlast : n = 0
      · left
        rw [hlast, List.mem_range'_1]
        omega
      · right
        have hsum : idx + 1024 + (n - 1) * 1024 = idx + (n + 1 - 1) * 1024 := by omega
        have hmem := ih hio₂ (i + 3) (idx + 1024) (by omega)
        rwa [hsum] at hmem

/-- Some volume of the same BPB writes the last group of its FAT. -/
theorem exists_flush_last (fs : FAT12FS) (hsize : 0 < fs.bpb.fatSize16) :
    ∃ fs' : FAT12FS, fs'.bpb = fs.bpb ∧ ((fs.bpb.fatSize16 + 2) / 3 - 1) * 1024 ∈ fs'.flushFatIndices := by
  refine ⟨{ fs with device := ⟨fun _ _ => 0, fun _ => false, 0⟩ }, rfl, ?_⟩
  have hlast := @flushGroupsIndices_last { fs with device := ⟨fun _ _ => 0, fun _ => false, 0⟩ } (fun _ => rfl)
    ((fs.bpb.fatSize16 + 2) / 3) 0 0 (by omega)
  rwa [Nat.zero_add] at hlast

theorem allocateLoopIndices_lt (fs : FAT12FS) (fuel idx : Nat) :
    ∀ k ∈ fs.allocateLoopIndices fuel idx, k < fs.clusterCount := by
  induction fuel generalizing idx with
  | zero => exact fun k hk => absurd hk List.not_mem_nil
  | succ fuel ih =>
      unfold allocateLoopIndices
      intro k hk
      split at hk
      · rename_i hlt
        rcases List.mem_cons.mp hk with rfl | hk
        · exact hlt
        · split at hk
          · exact absurd hk List.not_mem_nil
          · exact ih _ k hk
      · exact absurd hk List.not_mem_nil

/-- With no free entry the search comes to every cluster that 16 bits can hold. -/
theorem mem_allocateLoopIndices (hfull : ∀ k, fs.fatTable k ≠ 0) {fuel idx k : Nat} (hle : idx ≤ k)
    (hlt : k < fs.clusterCount) (hbits : k < 2 ^ 16) (hfuel : k - idx < fuel) :
    k ∈ fs.allocateLoopIndices fuel idx := by
  induction fuel generalizing idx with
  | zero => omega
  | succ fuel ih =>
      unfold allocateLoopIndices
      rw [if_pos (by omega), if_neg (hfull idx), List.mem_cons]
      by_cases hk : k = idx
      · exact Or.inl hk
      · right
        rw [Nat.mod_eq_of_lt (by omega)]
        exact ih (by omega) (by omega)

end

/-! ### Safety of a mount -/

/-- Whatever becomes of the volume, no index leaves the table, the count of clusters is right, and the search for
a free cluster ends. -/
structure MountSafe (boot : BootSector) (start fs : FAT12FS) : Prop where
  read : ∀ k ∈ start.readFatIndices, k < FAT12_MAX_CLUSTERS
  flush : ∀ fs' : FAT12FS, fs'.bpb = fs.bpb → ∀ k ∈ fs'.flushFatIndices, k < FAT12_MAX_CLUSTERS
  allocate : ∀ fs' : FAT12FS, fs'.clusterCount = fs.clusterCount →
    (∀ k ∈ fs'.allocateIndices, k < FAT12_MAX_CLUSTERS) ∧ Terminates fs'.allocateCluster
  clusterCount : boot.dataStartSector ≤ boot.totalSector ∧
    fs.clusterCount = (boot.totalSector - boot.dataStartSector) / boot.bpb.sectorsPerCluster + 2

/-- The FAT has no more than twelve sectors, the regions in front of the clusters fit the disk, and the clusters
fit the table. -/
def BootSector.Fits (boot : BootSector) : Prop :=
  boot.bpb.fatSize16 ≤ 12 ∧ boot.dataStartSector ≤ boot.totalSector ∧
    (boot.totalSector - boot.dataStartSector) / boot.bpb.sectorsPerCluster + 2 ≤ FAT12_MAX_CLUSTERS

theorem BootSector.totalSector_lt (sector : ByteMap) : (BootSector.parse sector).totalSector < 2 ^ 32 := by
  have h16 := Root.u16At_lt sector 19
  have hlow := Root.u16At_lt sector 32
  have hhigh := Root.u16At_lt sector 34
  unfold totalSector
  split
  · change u16At sector 19 < _
    omega
  · change u16At sector 32 + 65536 * u16At sector 34 < _
    omega

theorem BootSector.dataSectors_eq {boot : BootSector} (htotal : boot.totalSector < 2 ^ 32)
    (hle : boot.dataStartSector ≤ boot.totalSector) :
    boot.dataSectors = boot.totalSector - boot.dataStartSector := by
  unfold dataSectors
  omega

/-- A mount that succeeds is safe if and only if what the boot sector says fits. -/
theorem mountSafe_iff {this : Nat} {disk : Disk} {buffers rootBuffer : Bool} {fs : FAT12FS}
    (h : mount this disk buffers rootBuffer = .ret (true, fs)) :
    ∃ fs₀, (blank this disk).readTmp 0 0 = (true, fs₀) ∧
      (MountSafe (BootSector.parse fs₀.tmpSectorBuffer)
        (fs₀.setGeometry (BootSector.parse fs₀.tmpSectorBuffer)) fs ↔
          (BootSector.parse fs₀.tmpSectorBuffer).Fits) := by
  obtain ⟨fs₀, hread, haccepted, hfat, hloaded⟩ := mount_geometry h
  refine ⟨fs₀, hread, ?_⟩
  have htotal := BootSector.totalSector_lt fs₀.tmpSectorBuffer
  generalize BootSector.parse fs₀.tmpSectorBuffer = boot at *
  obtain ⟨device, tmp, table, dir, rfl⟩ := hloaded
  have hbytes : boot.bpb.bytesPerSector = 512 := by
    unfold Fat12BPB.accepted at haccepted
    simp only [Bool.and_eq_true, beq_iff_eq] at haccepted
    exact haccepted.1.1.1
  constructor
  · intro hsafe
    obtain ⟨hle, hcount⟩ := hsafe.clusterCount
    refine ⟨?_, hle, ?_⟩
    · -- the last group of three sectors, on a drive that works
      by_contra hbig
      obtain ⟨fs', hbpb, hlast⟩ := exists_flush_last (fs₀.setGeometry boot) (show 0 < boot.bpb.fatSize16 by omega)
      have hlt := hsafe.flush fs' hbpb _ hlast
      change ((boot.bpb.fatSize16 + 2) / 3 - 1) * 1024 < 4096 at hlt
      omega
    · -- a FAT with no free entry
      rw [← hcount]
      by_contra hbig
      have hmem := @mem_allocateLoopIndices
        { fs₀.setGeometry boot with fatTable := fun _ => 1 } (fun _ => Nat.one_ne_zero) (2 ^ 16 + 1) 2 4096
        (by omega) (by simp only [FAT12_MAX_CLUSTERS] at hbig; exact Nat.not_le.mp hbig) (by omega) (by omega)
      have hlt := (hsafe.allocate { fs₀.setGeometry boot with fatTable := fun _ => 1 } rfl).1 _ hmem
      simp only [FAT12_MAX_CLUSTERS] at hlt
      omega
  · rintro ⟨hsize, hle, hclusters⟩
    have hcount : (fs₀.setGeometry boot).clusterCount =
        (boot.totalSector - boot.dataStartSector) / boot.bpb.sectorsPerCluster + 2 := by
      change (boot.dataSectors / boot.bpb.sectorsPerCluster + 2) % 2 ^ 32 = _
      rw [BootSector.dataSectors_eq htotal hle]
      apply Nat.mod_eq_of_lt
      exact lt_of_le_of_lt hclusters (by decide)
    refine ⟨readFatIndices_lt hbytes hsize hfat, ?_, ?_, hle, hcount⟩
    · intro fs' hbpb k hk
      have hlt := flushGroupsIndices_lt fs' _ _ _ k hk
      rw [hbpb] at hlt
      change k < 0 + (boot.bpb.fatSize16 + 2) / 3 * 1024 at hlt
      simp only [FAT12_MAX_CLUSTERS]
      omega
    · intro fs' hsame
      have hmax : fs'.clusterCount ≤ FAT12_MAX_CLUSTERS := by
        rw [hsame]
        exact hcount.le.trans hclusters
      constructor
      · intro k hk
        have hlt := allocateLoopIndices_lt fs' _ _ k hk
        omega
      · apply allocateClusterLoop_terminates hmax
        simp only [FAT12_MAX_CLUSTERS] at hmax
        omega

/-- A boot sector with sectors of 512 bytes, one sector per cluster and one reserved sector, two FATs of
`fatSize` sectors, 16 root entries and `total` sectors. -/
def bootDisk (fatSize total : Byte) : Disk where
  sector := fun lba off =>
    if lba ≠ 0 then 0
    else match off with
      | 12 => 2
      | 13 => 1
      | 14 => 1
      | 16 => 2
      | 17 => 16
      | 19 => total
      | 22 => fatSize
      | _ => 0
  fails := fun _ => false
  requests := 0

theorem mount_bootDisk {fatSize total : Byte} {size : Nat}
    (h : (match mount 0 (bootDisk fatSize total) true false with
      | .ret (true, fs) => fs.bpb.fatSize16 == size
      | _ => false) = true) :
    ∃ fs : FAT12FS, mount 0 (bootDisk fatSize total) true false = .ret (true, fs) ∧ fs.bpb.fatSize16 = size := by
  split at h
  · rename_i fs heq
    exact ⟨fs, heq, beq_iff_eq.mp h⟩
  · cases h

theorem mountSafe_iff_small : ∃ fs fs₀ : FAT12FS, mount 0 (bootDisk 1 14) true false = .ret (true, fs) ∧
    MountSafe (BootSector.parse fs₀.tmpSectorBuffer)
      (fs₀.setGeometry (BootSector.parse fs₀.tmpSectorBuffer)) fs := by
  have hrun := @mount_bootDisk 1 14 1 (by decide +kernel)
  obtain ⟨fs, hmount, -⟩ := hrun
  obtain ⟨fs₀, hread, hiff⟩ := mountSafe_iff hmount
  refine ⟨fs, fs₀, hmount, hiff.mpr ?_⟩
  obtain rfl := (Prod.mk.inj hread).2
  refine ⟨?_, ?_, ?_⟩ <;> decide +kernel

/-- A FAT of fifteen sectors is mounted, and writing it back reads beyond the table. -/
theorem not_mountSafe_fifteen : ¬ ∀ (this : Nat) (disk : Disk) (buffers rootBuffer : Bool) (fs : FAT12FS),
    mount this disk buffers rootBuffer = .ret (true, fs) →
      ∃ fs₀, (blank this disk).readTmp 0 0 = (true, fs₀) ∧
        MountSafe (BootSector.parse fs₀.tmpSectorBuffer)
          (fs₀.setGeometry (BootSector.parse fs₀.tmpSectorBuffer)) fs := by
  intro hall
  have hrun := @mount_bootDisk 15 60 15 (by decide +kernel)
  obtain ⟨fs, hmount, hsize⟩ := hrun
  obtain ⟨fs₀, -, hsafe⟩ := hall _ _ _ _ _ hmount
  obtain ⟨fs', hbpb, hlast⟩ := exists_flush_last fs (by omega)
  have hlt := hsafe.flush fs' hbpb _ hlast
  rw [hsize] at hlt
  exact absurd hlt (by decide)

end SysuOs.FAT12FS
