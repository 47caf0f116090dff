import SysuOs.FatCoherence

/-! A FAT12 volume over any sequence of calls, from the state in which it has been mounted. -/

namespace SysuOs.Vfs

open FAT12FS

/-- A call of a volume. An inode is given by its place in the pool, no inode being the null pointer; a directory
iterator may be at any position. -/
inductive FatCall where
  | lookup (dir : Option Nat) (name : List Byte)
  | releaseInode (place : Nat)
  | read (node : Option Nat) (out : ByteMap) (size offset : Int)
  | write (node : Option Nat) (src : ByteMap) (size offset : Int)
  | append (node : Option Nat) (src : ByteMap) (size : Int)
  | createFile (dir : Option Nat) (name : List Byte) (attr : Byte)
  | createDirectory (dir : Option Nat) (name : List Byte)
  | remove (dir : Option Nat) (name : List Byte)
  | removeDirectory (dir : Option Nat) (name : List Byte)
  | next (dir : Option Nat) (it : DirIter)
  | flush (node : Nat)
  | flushAll

/-- The inode that a call is given. -/
def FatCall.inode : FatCall → Option Nat
  | .lookup node _ | .read node _ _ _ | .write node _ _ _ | .append node _ _ | .createFile node _ _
  | .createDirectory node _ | .remove node _ | .removeDirectory node _ | .next node _ => node
  | .releaseInode place | .flush place => some place
  | .flushAll => none

namespace FatVolume

/-- The changes of a caller through the pointer to an inode. -/
def setNode (vol : FatVolume) : Option Nat → Option Fat12Inode → FatVolume
  | some place, some node => { vol with
      inodepool := { vol.inodepool with inodes := Function.update vol.inodepool.inodes place node } }
  | _, _ => vol

/-- The volume after a call. -/
def call (vol : FatVolume) : FatCall → SysuOs.Outcome FatVolume
  | .lookup dir name => do
      let (_, _, vol) ← vol.lookup dir name
      return vol
  | .releaseInode place => return vol.releaseInode place
  | .read node out size offset => do
      let (_, _, fs) ← vol.fs.read (vol.node node) out size offset
      return { vol with fs }
  | .write node src size offset => do
      let (_, fs) ← vol.fs.write (vol.node node) src size offset
      return { vol with fs }
  | .append node src size => do
      let (_, changed, fs) ← vol.fs.append (vol.node node) src size
      return { vol with fs }.setNode node changed
  | .createFile dir name attr => do
      let (_, vol) ← vol.createFile dir name attr
      return vol
  | .createDirectory dir name => do
      let (_, vol) ← vol.createDirectory dir name
      return vol
  | .remove dir name => do
      let (_, vol) ← vol.remove dir name
      return vol
  | .removeDirectory dir name => do
      let (_, vol) ← vol.removeDirectory dir name
      return vol
  | .next dir it => do
      let (_, _, fs) ← { it with dir := vol.node dir }.next vol.fs
      return { vol with fs }
  | .flush node => do
      let fs ← vol.fs.flush (vol.inodepool.inodes node)
      return { vol with fs }
  | .flushAll => do
      let fs ← vol.fs.flushAll
      return { vol with fs }

/-- An inode that a call is given is in use. -/
def Held (vol : FatVolume) (c : FatCall) : Prop := ∀ place ∈ c.inode, vol.inodepool.bitmap place = true

/-- Calls one after the other, each of which returns. -/
inductive Run (vol : FatVolume) : FatVolume → Prop
  | start : Run vol vol
  | call {vol' vol'' : FatVolume} (c : FatCall) (hrun : Run vol vol') (hheld : vol'.Held c)
      (hcall : vol'.call c = .ret vol'') : Run vol vol''

/-- What holds first and is kept by every call holds after every run. -/
theorem Run.invariant {P : FatVolume → Prop} {vol vol' : FatVolume} (hrun : Run vol vol') (hstart : P vol)
    (hstep : ∀ vol₁ vol₂ c, P vol₁ → vol₁.Held c → vol₁.call c = .ret vol₂ → P vol₂) : P vol' := by
  induction hrun with
  | start => exact hstart
  | call c hrun hheld hcall ih => exact hstep _ _ c ih hheld hcall

/-- A volume that `mount` has just accepted, on a drive that serves every request. -/
structure FreshlyMounted (vol : FatVolume) : Prop where
  reliable : vol.fs.device.Reliable
  bpb : vol.fs.bpb.accepted = true
  clusterSize : vol.fs.clusterSize = vol.fs.bpb.bytesPerSector * vol.fs.bpb.sectorsPerCluster
  rootEntries : vol.fs.rootEntries = vol.fs.bpb.rootEntryCount
  dataStartSector : vol.fs.dataStartSector =
    vol.fs.bpb.reservedSectorCount + vol.fs.bpb.numFats * vol.fs.bpb.fatSize16 +
      (vol.fs.bpb.rootEntryCount * FAT12_ENTRY_BYTES + vol.fs.bpb.bytesPerSector - 1) / vol.fs.bpb.bytesPerSector
  cachePool : ∀ i, i < FAT12_MAX_CACHE → (vol.fs.cachePool i).clusterNum = 0 ∧
    (vol.fs.cachePool i).dirty = false ∧ (vol.fs.cachePool i).refcount = 0
  inodepool : ∀ place, vol.inodepool.bitmap place = false

/-! ### The cache -/

theorem setNode_fs (vol : FatVolume) (place : Option Nat) (node : Option Fat12Inode) :
    (vol.setNode place node).fs = vol.fs := by
  cases place <;> cases node <;> rfl

/-- Every call leaves the cache as it should be between two calls. -/
theorem call_keeps {vol vol' : FatVolume} {c : FatCall} (h : vol.call c = .ret vol') : Keeps vol.fs vol'.fs := by
  cases c with
  | lookup dir name =>
      obtain ⟨⟨found, clusters, vol₁⟩, hlookup, h⟩ := Outcome.bind_eq_ret h
      cases h
      exact lookup_keeps hlookup
  | releaseInode place =>
      cases h
      exact keeps_releaseInode vol place
  | read node out size offset =>
      obtain ⟨⟨r, out', fs⟩, hread, h⟩ := Outcome.bind_eq_ret h
      cases h
      exact read_keeps hread
  | write node src size offset =>
      obtain ⟨⟨r, fs⟩, hwrite, h⟩ := Outcome.bind_eq_ret h
      cases h
      exact write_keeps hwrite
  | append node src size =>
      obtain ⟨⟨r, changed, fs⟩, happend, h⟩ := Outcome.bind_eq_ret h
      cases h
      rw [setNode_fs]
      exact append_keeps happend
  | createFile dir name attr =>
      obtain ⟨⟨res, vol₁⟩, hcreate, h⟩ := Outcome.bind_eq_ret h
      cases h
      exact createFile_keeps hcreate
  | createDirectory dir name =>
      obtain ⟨⟨res, vol₁⟩, hcreate, h⟩ := Outcome.bind_eq_ret h
      cases h
      exact createDirectory_keeps hcreate
  | remove dir name =>
      obtain ⟨⟨res, vol₁⟩, hremove, h⟩ := Outcome.bind_eq_ret h
      cases h
      exact remove_keeps hremove
  | removeDirectory dir name =>
      obtain ⟨⟨res, vol₁⟩, hremove, h⟩ := Outcome.bind_eq_ret h
      cases h
      exact removeDirectory_keeps hremove
  | next dir it =>
      obtain ⟨⟨found, it', fs⟩, hnext, h⟩ := Outcome.bind_eq_ret h
      cases h
      exact next_keeps hnext
  | flush node =>
      obtain ⟨fs, hflush, h⟩ := Outcome.bind_eq_ret h
      cases h
      exact flush_keeps hflush
  | flushAll =>
      obtain ⟨fs, hflush, h⟩ := Outcome.bind_eq_ret h
      cases h
      exact flushAll_keeps hflush

/-- A volume without root directory has no files: nothing is ever looked up or cached. -/
structure NoFiles (base : Nat) (vol : FatVolume) : Prop where
  this : vol.fs.this = base
  reliable : vol.fs.device.Reliable
  rootEntries : vol.fs.rootEntries = 0
  dataStartSector : vol.fs.dataStartSector =
    vol.fs.bpb.reservedSectorCount + vol.fs.bpb.numFats * vol.fs.bpb.fatSize16
  cachePool : ∀ i, i < FAT12_MAX_CACHE → (vol.fs.cachePool i).clusterNum = 0 ∧
    (vol.fs.cachePool i).dirty = false ∧ (vol.fs.cachePool i).refcount = 0
  inodepool : ∀ place, vol.inodepool.bitmap place = false

/-- A cache that holds nothing is coherent. -/
theorem coherent_of_empty {fs : FAT12FS} (h : ∀ i, i < FAT12_MAX_CACHE → (fs.cachePool i).clusterNum = 0 ∧
    (fs.cachePool i).dirty = false ∧ (fs.cachePool i).refcount = 0) : Coherent fs where
  unused i hi := (h i hi).2.2
  clean i hi := (h i hi).2.1
  content i hi hnum := by
    rw [(h i hi).1] at hnum
    omega
  unique i j hi _ hnum := by
    rw [(h i hi).1] at hnum
    omega

theorem NoFiles.coherent {base : Nat} {vol : FatVolume} (h : NoFiles base vol) : Coherent vol.fs :=
  coherent_of_empty h.cachePool

theorem NoFiles.lookup {base : Nat} {vol : FatVolume} (h : NoFiles base vol) (name : List Byte) :
    vol.lookup none name = .ret (none, [], vol) := by
  simp [FatVolume.lookup, lookupRoot, h.rootEntries]

theorem NoFiles.makeEntry {base : Nat} {vol : FatVolume} (h : NoFiles base vol) :
    vol.fs.makeEntry none = .ret (none, vol.fs) := by
  simp [FAT12FS.makeEntry, findFreeEntry, h.rootEntries]

/-- Slots that are not dirty are not written. -/
theorem flushAllLoop_clean {fs : FAT12FS} {n i : Nat} {res : Bool} (hn : i + n ≤ FAT12_MAX_CACHE)
    (hclean : ∀ j, j < FAT12_MAX_CACHE → (fs.cachePool j).dirty = false) :
    flushAllLoop n i res fs = .ret (res, fs) := by
  induction n generalizing i res with
  | zero => rfl
  | succ n ih =>
      have hslot := hclean i (by omega)
      have hwrite : fs.writeCluster i = .ret (true, fs) := by
        rw [writeCluster]
        simp [hslot]
      rw [flushAllLoop, hwrite, Outcome.ret_bind]
      simp only [Bool.and_true]
      exact ih (by omega)

theorem NoFiles.flushAll {base : Nat} {vol : FatVolume} (h : NoFiles base vol) {fs : FAT12FS}
    (hflush : vol.fs.flushAll = .ret fs) : NoFiles base { vol with fs } := by
  have hroot : vol.fs.flushRootDir = (true, { vol.fs with rootDirDirty := false }) := by
    simp [FAT12FS.flushRootDir, h.dataStartSector, flushRootSectors]
  obtain ⟨sector, r, t, hfat, -, -⟩ := @flushFatTable_spec { vol.fs with rootDirDirty := false } h.reliable
  rw [FAT12FS.flushAll, hroot] at hflush
  dsimp only at hflush
  have hclean : flushAllLoop FAT12_MAX_CACHE 0 true { vol.fs with rootDirDirty := false } =
      .ret (true, { vol.fs with rootDirDirty := false }) :=
    flushAllLoop_clean (by decide) fun j hj => (h.cachePool j hj).2.1
  rw [flushAllCache, hclean, Outcome.ret_bind] at hflush
  dsimp only at hflush
  rw [hfat] at hflush
  cases hflush
  exact ⟨h.this, h.reliable, h.rootEntries, h.dataStartSector, h.cachePool, h.inodepool⟩

theorem NoFiles.call {base : Nat} {vol vol' : FatVolume} {c : FatCall} (h : NoFiles base vol) (hheld : vol.Held c)
    (hcall : vol.call c = .ret vol') : NoFiles base vol' := by
  -- there is no inode to be given
  have hnone : c.inode = none := by
    rcases hinode : c.inode with _ | place
    · rfl
    · have hused := hheld place hinode
      rw [h.inodepool] at hused
      cases hused
  cases c with
  | lookup dir name =>
      obtain rfl : dir = none := hnone
      rw [FatVolume.call, h.lookup] at hcall
      cases hcall
      exact h
  | releaseInode place => cases hnone
  | read node out size offset =>
      obtain rfl : node = none := hnone
      cases hcall
      exact h
  | write node src size offset =>
      obtain rfl : node = none := hnone
      cases hcall
      exact h
  | append node src size =>
      obtain rfl : node = none := hnone
      cases hcall
      exact h
  | createFile dir name attr =>
      obtain rfl : dir = none := hnone
      rw [FatVolume.call, FatVolume.createFile, h.lookup] at hcall
      obtain ⟨⟨res, vol₁⟩, hcreate, hret⟩ := Outcome.bind_eq_ret hcall
      cases hret
      split at hcreate
      · cases hcreate
        exact h
      · rw [Outcome.ret_bind] at hcreate
        simp only [node, Option.map_none] at hcreate
        rw [h.makeEntry] at hcreate
        cases hcreate
        exact h
  | createDirectory dir name =>
      obtain rfl : dir = none := hnone
      rw [FatVolume.call, FatVolume.createDirectory, h.lookup, Outcome.ret_bind] at hcall
      simp only [node, Option.map_none] at hcall
      rw [h.makeEntry] at hcall
      cases hcall
      exact h
  | remove dir name =>
      obtain rfl : dir = none := hnone
      rw [FatVolume.call, FatVolume.remove, h.lookup] at hcall
      cases hcall
      exact h
  | removeDirectory dir name =>
      obtain rfl : dir = none := hnone
      rw [FatVolume.call, FatVolume.removeDirectory, h.lookup] at hcall
      cases hcall
      exact h
  | next dir it =>
      obtain rfl : dir = none := hnone
      cases hcall
      exact h
  | flush node => cases hnone
  | flushAll =>
      obtain ⟨fs, hflush, hret⟩ := Outcome.bind_eq_ret hcall
      cases hret
      exact h.flushAll hflush

theorem FreshlyMounted.noFiles {vol : FatVolume} (h : FreshlyMounted vol) (hroot : vol.fs.bpb.rootEntryCount = 0) :
    NoFiles vol.fs.this vol where
  this := rfl
  reliable := h.reliable
  rootEntries := by rw [h.rootEntries, hroot]
  dataStartSector := by
    have hbytes : vol.fs.bpb.bytesPerSector = 512 := by
      have hbpb := h.bpb
      simp only [Fat12BPB.accepted, Bool.and_eq_true, beq_iff_eq] at hbpb
      exact hbpb.1.1.1
    rw [h.dataStartSector, hroot, hbytes]
    simp
  cachePool := h.cachePool
  inodepool := h.inodepool

theorem FreshlyMounted.mounted {vol : FatVolume} (h : FreshlyMounted vol) (hroot : 0 < vol.fs.bpb.rootEntryCount) :
    Mounted vol.fs := by
  have hbpb := h.bpb
  simp only [Fat12BPB.accepted, Bool.and_eq_true, beq_iff_eq, Bool.not_eq_true', Bool.or_eq_false_iff,
    beq_eq_false_iff_ne] at hbpb
  obtain ⟨⟨⟨hbytes, hfats⟩, hspc, -⟩, -⟩ := hbpb
  have hstart := h.dataStartSector
  rw [hbytes, hfats] at hstart
  refine ⟨h.reliable, hbytes, Nat.pos_of_ne_zero hspc, ?_, ?_, ?_⟩
  · rw [h.clusterSize, hbytes]
  · rw [h.rootEntries]
    exact hroot
  · rw [hstart, rootSectors, h.rootEntries]
    omega

theorem FreshlyMounted.coherent {vol : FatVolume} (h : FreshlyMounted vol) : Coherent vol.fs :=
  coherent_of_empty h.cachePool

/-- Between any two calls no slot of the cache is in use or dirty, each cluster is cached once and as it is on
disk. There is always a slot for another cluster, and what it replaces is on disk. -/
theorem run_coherent {vol vol' : FatVolume} (hmount : FreshlyMounted vol) (hrun : Run vol vol') :
    Coherent vol'.fs ∧ vol'.fs.findUnused.isSome ∧
      (0 < vol.fs.bpb.rootEntryCount → ∀ c, IsCluster c →
        ∃ i fs, vol'.fs.getCache c = .ret (some i, fs) ∧ Pinned vol'.fs fs i c) := by
  rcases Nat.eq_zero_or_pos vol.fs.bpb.rootEntryCount with hroot | hroot
  · have hnone : NoFiles vol.fs.this vol' := hrun.invariant (hmount.noFiles hroot) fun _ _ _ h hheld hcall => h.call hheld hcall
    refine ⟨hnone.coherent, ?_, fun hpos => absurd hroot hpos.ne'⟩
    rw [findUnused_eq hnone.coherent]
    rfl
  · obtain ⟨hm, hcoh⟩ : Mounted vol'.fs ∧ Coherent vol'.fs := by
      refine hrun.invariant (P := fun vol => Mounted vol.fs ∧ Coherent vol.fs) ⟨hmount.mounted hroot, hmount.coherent⟩ ?_
      rintro vol₁ vol₂ c ⟨hm, hcoh⟩ - hcall
      obtain ⟨hcoh', hsame⟩ := call_keeps hcall hm hcoh
      exact ⟨hm.congr hsame, hcoh'⟩
    refine ⟨hcoh, ?_, fun _ c hc => getCache_spec hm hcoh hc⟩
    rw [findUnused_eq hcoh]
    rfl

theorem entryInFile_freshlyMounted : FreshlyMounted entryInFile :=
  ⟨fun _ => rfl, by decide, rfl, rfl, rfl, fun _ _ => ⟨rfl, rfl, rfl⟩, fun _ => rfl⟩

/-- A file is looked up and read. -/
theorem run_coherent_read : ∃ vol vol',
    entryInFile.call (.lookup none (bytesOf ['a'])) = .ret vol ∧
    vol.call (.read (some 0) (fun _ => 0) 32 0) = .ret vol' ∧ Coherent vol'.fs ∧ vol'.fs.findUnused.isSome := by
  refine ⟨_, _, rfl, rfl, ?_⟩
  have hrun := run_coherent entryInFile_freshlyMounted
    (.call (.read (some 0) (fun _ => 0) 32 0) (.call (.lookup none (bytesOf ['a'])) .start nofun rfl) (by
      rintro place ⟨⟩
      rfl) rfl)
  exact ⟨hrun.1, hrun.2.1⟩

end FatVolume

end SysuOs.Vfs
