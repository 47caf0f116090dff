import SysuOs.FatIter

/-! The calls of `FAT12_FS` that change directories: creating and removing files and directories, and the
flushes. -/

namespace SysuOs

namespace FAT12FS

open EntryBuf

/-- `memset(cache->buf, 0, cluster_size)` of a cluster through the cache; `none` where `get_cache` fails. -/
def clearCluster (fs : FAT12FS) (cluster : Nat) : Outcome (Option FAT12FS) := do
  let (cache, fs) ← fs.getCache cluster
  match cache with
  | none => return none
  | some i =>
      let fs ← ((fs.setBuf i (memzero (fs.cachePool i).buf fs.clusterSize)).setDirty i).releaseCache i
      return some fs

/-- What `find_free_entry` returns: -1, 0, 1 with the last cluster of the directory, and 2. -/
inductive FreeEntry where
  | failed
  | found (location : EntryLocation)
  | extend (last : Nat)
  | full

/-- The loop of `find_free_entry` over the `n` entries of a cluster from the `i`-th on. -/
def scanFree (buf : ByteMap) : Nat → Nat → EntryBuf → Option Nat
  | 0, _, _ => none
  | n + 1, i, entryBuf =>
      let (_, entryBuf) := entryBuf.read buf (i * FAT12_ENTRY_BYTES)
      if entryBuf.status = .DELETE ∨ entryBuf.status = .END_OF_DIR then some i
      else scanFree buf n (i + 1) entryBuf

/-- The loop of `find_free_entry` over the clusters of a directory. -/
def freeEntryLoop : Nat → FAT12FS → Nat → Nat → Outcome (FreeEntry × FAT12FS)
  | 0, _, _, _ => .diverge
  | fuel + 1, fs, cluster, prev =>
      if 2 ≤ cluster ∧ cluster ≤ 0xFF7 then do
        let (cache, fs) ← fs.getCache cluster
        match cache with
        | none => return (.failed, fs)
        | some i =>
            let free := scanFree (fs.cachePool i).buf (fs.clusterSize / FAT12_ENTRY_BYTES % 2 ^ 16) 0 reset
            let fs ← fs.releaseCache i
            match free with
            | some k => return (.found ⟨false, cluster, k, 0⟩, fs)
            | none => freeEntryLoop fuel fs (fs.fatTable cluster) cluster
      else return (.extend prev, fs)

/-- `find_free_entry`, for a directory of the volume or the root. -/
def findFreeEntry (fs : FAT12FS) (dir : Option Fat12Inode) : Outcome (FreeEntry × FAT12FS) :=
  match dir with
  | none =>
      match (List.range fs.rootEntries).find? fun idx =>
          (fs.rootDir idx).attr &&& VOLUME_ID = 0 &&
            ((fs.rootDir idx).name = [] || (fs.rootDir idx).name.head? = some 0xE5) with
      | some idx => return (.found ⟨true, 0, 0, idx⟩, fs)
      | none => return (.full, fs)
  | some node =>
      if node.fat12Fs ≠ fs.this then return (.failed, fs)
      else freeEntryLoop (FAT12_MAX_CLUSTERS + 1) fs node.startCluster node.startCluster

/-- What both `write_dir_entry` and `delete_dir_entry` do with an entry in a cluster. -/
def putDirEntry (fs : FAT12FS) (location : EntryLocation) (entryBuf : EntryBuf) (setDelete : Bool) :
    Outcome (Bool × FAT12FS) :=
  if location.entryIndexInCluster ≥ fs.clusterSize / FAT12_ENTRY_BYTES then return (false, fs)
  else if location.currentCluster < 2 ∨ location.currentCluster > 0xFF7 then return (false, fs)
  else do
    let (cache, fs) ← fs.getCache location.currentCluster
    match cache with
    | none => return (false, fs)
    | some i =>
        match entryBuf.write (fs.cachePool i).buf (location.entryIndexInCluster * FAT12_ENTRY_BYTES) setDelete with
        | (false, _) =>
            let fs ← fs.releaseCache i
            return (false, fs)
        | (true, buf) =>
            let fs ← ((fs.setBuf i buf).setDirty i).releaseCache i
            return (true, fs)

def writeDirEntry (fs : FAT12FS) (location : EntryLocation) (entry : NormalizedEntry) : Outcome (Bool × FAT12FS) :=
  if location.isRoot then
    if location.rootIndex ≥ fs.rootEntries then return (false, fs)
    else return (true, { fs with rootDir := Function.update fs.rootDir location.rootIndex entry, rootDirDirty := true })
  else fs.putDirEntry location { reset with normalizedEntry := entry } false

/-- The name of an entry of the root directory once its first character is the mark of a deleted entry. -/
def deletedName : List Byte → List Byte
  | [] => [0xE5]
  | _ :: rest => 0xE5 :: rest

def deleteDirEntry (fs : FAT12FS) (location : EntryLocation) : Outcome (Bool × FAT12FS) :=
  if location.isRoot then
    if location.rootIndex ≥ fs.rootEntries then return (false, fs)
    else
      let entry := fs.rootDir location.rootIndex
      return (true, { fs with
        rootDir := Function.update fs.rootDir location.rootIndex { entry with name := deletedName entry.name }
        rootDirDirty := true })
  else fs.putDirEntry location reset true

/-- The clusters of a chain are freed. Every one that has been is 0, so that a walk in a cycle ends there. -/
def freeLoop : Nat → FAT12FS → Nat → Outcome FAT12FS
  | 0, _, _ => .diverge
  | fuel + 1, fs, cluster =>
      if 2 ≤ cluster ∧ cluster ≤ 0xFF7 then
        freeLoop fuel { fs.freeCluster cluster with fatTableDirty := true } (fs.fatTable cluster)
      else return fs

/-- The part of `create_file` and `create_directory` that finds a place for the entry: it, and the cluster
that has been appended for it to the directory, with the one before. -/
def makeEntry (fs : FAT12FS) (dir : Option Fat12Inode) :
    Outcome (Option (EntryLocation × Option (Nat × Nat)) × FAT12FS) := do
  match ← fs.findFreeEntry dir with
  | (.failed, fs) => return (none, fs)
  | (.full, fs) => return (none, fs)
  | (.found location, fs) => return (some (location, none), fs)
  | (.extend last, fs) =>
      let newCluster ← fs.allocateCluster
      if newCluster = 0 then return (none, fs)
      else
        let linked := { (fs.setFat last newCluster).setFat newCluster 0xFFF with fatTableDirty := true }
        match ← linked.clearCluster newCluster with
        | none => return (none, linked.freeCluster newCluster)
        | some fs => return (some (⟨false, newCluster, 0, 0⟩, some (newCluster, last)), fs)

/-- The appended cluster is taken off the directory again. -/
def rollback (fs : FAT12FS) : Option (Nat × Nat) → FAT12FS
  | none => fs
  | some (newCluster, last) => (fs.setFat newCluster 0).setFat last 0xFFF

/-- The entry of a new file or directory. -/
def newEntry (name : List Byte) (attr : Byte) (startCluster : Nat) : NormalizedEntry :=
  { reset.normalizedEntry with name, attr, startCluster }

/-- `flush_cache`. -/
def flushCache (fs : FAT12FS) (cluster : Nat) : Outcome (Bool × FAT12FS) :=
  match fs.findCache cluster with
  | none => return (true, fs)
  | some i => fs.writeCluster i

/-- The loop of `flush_all_cache` over the `n` slots from the `i`-th on. -/
def flushAllLoop : Nat → Nat → Bool → FAT12FS → Outcome (Bool × FAT12FS)
  | 0, _, res, fs => return (res, fs)
  | n + 1, i, res, fs => do
      let (written, fs) ← fs.writeCluster i
      flushAllLoop n (i + 1) (res && written) fs

def flushAllCache (fs : FAT12FS) : Outcome (Bool × FAT12FS) := flushAllLoop FAT12_MAX_CACHE 0 true fs

/-- The loop of `flush_root_dir` over the entries of a sector, with `n` of them left. -/
def flushRootEntries (fs : FAT12FS) : Nat → Nat → Nat → ByteMap → Nat × ByteMap
  | 0, _, entryIdx, buf => (entryIdx, buf)
  | n + 1, i, entryIdx, buf =>
      if entryIdx < fs.rootEntries then
        let entry := fs.rootDir entryIdx
        let buf :=
          if entry.name = [] then buf
          else (EntryBuf.write { reset with normalizedEntry := entry } buf (FAT12_ENTRY_BYTES * i)
            (entry.name.head? = some 0xE5)).2
        flushRootEntries fs n (i + 1) (entryIdx + 1) buf
      else flushRootEntries fs n (i + 1) entryIdx buf

/-- The loop of `flush_root_dir` over the `n` sectors from `sector` on. -/
def flushRootSectors : Nat → Nat → Nat → Bool → FAT12FS → Bool × FAT12FS
  | 0, _, _, res, fs => (res, fs)
  | n + 1, sector, entryIdx, res, fs =>
      let (entryIdx, buf) := fs.flushRootEntries (fs.bpb.bytesPerSector / FAT12_ENTRY_BYTES) 0 entryIdx
        (memzero fs.tmpSectorBuffer fs.bpb.bytesPerSector)
      let (written, fs) := { fs with tmpSectorBuffer := buf }.writeTmp sector 0
      flushRootSectors n (sector + 1) entryIdx (res && written) fs

/-- `flush_root_dir`, with the bounds of the root directory as `mount` computes them. -/
def flushRootDir (fs : FAT12FS) : Bool × FAT12FS :=
  let rootStart := fs.bpb.reservedSectorCount + fs.bpb.numFats * fs.bpb.fatSize16
  let (res, fs) := flushRootSectors (fs.dataStartSector - rootStart) rootStart 0 true fs
  (res, { fs with rootDirDirty := false })

/-- The loop of `flush` over the clusters of the file. -/
def flushLoop : Nat → FAT12FS → Nat → Outcome FAT12FS
  | 0, _, _ => .diverge
  | fuel + 1, fs, cluster =>
      if 2 ≤ cluster ∧ cluster ≤ 0xFF7 then do
        let (_, fs) ← fs.flushCache cluster
        flushLoop fuel fs (fs.fatTable cluster)
      else return fs

/-- `FAT12_FS::flush`. -/
def flush (fs : FAT12FS) (node : Fat12Inode) : Outcome FAT12FS := do
  let (_, fs) := fs.flushFatTable
  let fs ← flushLoop (FAT12_MAX_CLUSTERS + 1) fs node.startCluster
  fs.updateEntry node

/-- `FAT12_FS::flush_all`. -/
def flushAll (fs : FAT12FS) : Outcome FAT12FS := do
  let (_, fs) := fs.flushRootDir
  let (_, fs) ← fs.flushAllCache
  let (_, fs) := fs.flushFatTable
  return fs

end FAT12FS

namespace Vfs.FatVolume

open FAT12FS

variable (vol : FatVolume)

/-- The inode of a directory, null for the root. -/
def node (dir : Option Nat) : Option Fat12Inode := dir.map vol.inodepool.inodes

/-- `FAT12_FS::create_file`. -/
def createFile (dir : Option Nat) (name : List Byte) (attr : Byte) : SysuOs.Outcome (Bool × FatVolume) :=
  if attr &&& VOLUME_ID ≠ 0 ∨ attr &&& DIRECTORY ≠ 0 then return (false, vol)
  else do
    let (file, _, vol) ← vol.lookup dir name
    match file with
    | some file => return (false, vol.releaseInode file.place)
    | none =>
      match ← vol.fs.makeEntry (vol.node dir) with
      | (none, fs) => return (false, { vol with fs })
      | (some (location, appended), fs) => do
        match ← fs.writeDirEntry location (newEntry name attr 0) with
        | (false, fs) => return (false, { vol with fs := fs.rollback appended })
        | (true, fs) => return (true, { vol with fs })

/-- The end of `remove` and `remove_directory`, for an inode that nothing else holds. -/
def removeTarget (place : Nat) : SysuOs.Outcome (Bool × FatVolume) := do
  let node := vol.inodepool.inodes place
  match ← vol.fs.deleteDirEntry node.location with
  | (false, fs) => return (false, { vol with fs }.releaseInode place)
  | (true, fs) => do
    let fs ← freeLoop (FAT12_MAX_CLUSTERS + 1) fs node.startCluster
    return (true, { vol with fs }.releaseInode place)

/-- `FAT12_FS::remove`. -/
def remove (dir : Option Nat) (name : List Byte) : SysuOs.Outcome (Bool × FatVolume) := do
  let (file, _, vol) ← vol.lookup dir name
  match file with
  | none => return (false, vol)
  | some file =>
    if vol.inodepool.refcount file.place ≠ 1 then return (false, vol.releaseInode file.place)
    else vol.removeTarget file.place

/-- `FAT12_FS::create_directory`. -/
def createDirectory (dir : Option Nat) (name : List Byte) : SysuOs.Outcome (Bool × FatVolume) := do
  let (file, _, vol) ← vol.lookup dir name
  match file with
  | some file => return (false, vol.releaseInode file.place)
  | none =>
    match ← vol.fs.makeEntry (vol.node dir) with
    | (none, fs) => return (false, { vol with fs })
    | (some (location, appended), fs) => do
      let startCluster ← fs.allocateCluster
      if startCluster = 0 then return (false, { vol with fs := fs.rollback appended })
      else
        match ← (fs.setFat startCluster 0xFFF).writeDirEntry location (newEntry name DIRECTORY startCluster) with
        | (false, fs) => return (false, { vol with fs := (fs.rollback appended).freeCluster startCluster })
        | (true, fs) => do
          match ← fs.clearCluster startCluster with
          | none => .halt
          | some fs => return (true, { vol with fs })

/-- `is_dir_empty`: -1, 0 or 1. -/
def isDirEmpty (place : Nat) : SysuOs.Outcome (Int × FatVolume) :=
  let node := vol.inodepool.inodes place
  if node.fat12Fs ≠ vol.fs.this then return (-1, vol)
  else if node.attr &&& DIRECTORY = 0 then return (-1, vol)
  else
    match DirIter.init vol.fs (some node) with
    | none => return (-1, vol)
    | some it => do
      let (found, _, fs) ← it.next vol.fs
      return (if found then 0 else 1, { vol with fs })

/-- `FAT12_FS::remove_directory`. -/
def removeDirectory (dir : Option Nat) (name : List Byte) : SysuOs.Outcome (Bool × FatVolume) := do
  let (target, _, vol) ← vol.lookup dir name
  match target with
  | none => return (false, vol)
  | some target =>
    if (vol.inodepool.inodes target.place).attr &&& DIRECTORY = 0 then
      return (false, vol.releaseInode target.place)
    else do
      let (empty, vol) ← vol.isDirEmpty target.place
      if empty ≠ 1 then return (false, vol.releaseInode target.place)
      else if vol.inodepool.refcount target.place ≠ 1 then return (false, vol.releaseInode target.place)
      else vol.removeTarget target.place

end Vfs.FatVolume

end SysuOs
