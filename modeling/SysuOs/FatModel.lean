import Mathlib
import SysuOs.Machine

/-! The FAT12 driver of `fat12_fs.cpp` and `fat12_entry.cpp`: the FAT and its two codings, the cluster
cache, `read` and `append`. A `fat12_cluster_buffer*` is the index of the slot in `cache_pool`. Time
stamps of the cache are left out, nothing reads them. -/

namespace SysuOs

def FAT12_MAX_CACHE : Nat := 64
def FAT12_MAX_CLUSTERS : Nat := 4096
def FAT12_SECTOR_SIZE : Nat := 512
def FAT12_ENTRY_BYTES : Nat := 32

/-- A drive: its sectors, and which of the requests made to it fail. -/
structure Disk where
  sector : Nat → ByteMap
  fails : Nat → Bool
  requests : Nat

namespace Disk

def ideReadSector (d : Disk) (lba : Nat) (buf : ByteMap) (pos : Nat) : Bool × Disk × ByteMap :=
  let served := { d with requests := d.requests + 1 }
  if d.fails d.requests then (false, served, buf)
  else (true, served, memcpy buf pos (d.sector lba) FAT12_SECTOR_SIZE)

def ideWriteSector (d : Disk) (lba : Nat) (buf : ByteMap) (pos : Nat) : Bool × Disk :=
  let served := { d with requests := d.requests + 1 }
  if d.fails d.requests then (false, served)
  else (true, { served with
    sector := Function.update d.sector lba (memcpy (d.sector lba) 0 (bytesFrom buf pos) FAT12_SECTOR_SIZE) })

/-- The loop of `read_cluster`, for the sectors from the `i`-th one on. -/
def readSectors (d : Disk) (sector bytesPerSector : Nat) : Nat → Nat → ByteMap → Bool × Disk × ByteMap
  | 0, _, buf => (true, d, buf)
  | n + 1, i, buf =>
      match d.ideReadSector (sector + i) buf (i * bytesPerSector) with
      | (false, d, buf) => (false, d, buf)
      | (true, d, buf) => readSectors d sector bytesPerSector n (i + 1) buf

/-- The loop of `write_cluster`, for the sectors from the `i`-th one on. -/
def writeSectors (d : Disk) (sector bytesPerSector : Nat) (buf : ByteMap) : Nat → Nat → Bool × Disk
  | 0, _ => (true, d)
  | n + 1, i =>
      match d.ideWriteSector (sector + i) buf (i * bytesPerSector) with
      | (false, d) => (false, d)
      | (true, d) => writeSectors d sector bytesPerSector buf n (i + 1)

end Disk

/-- `fat12_cluster_buffer`. -/
structure ClusterBuffer where
  clusterNum : Nat
  buf : ByteMap
  dirty : Bool
  refcount : Int

/-- `fat12_BPB`, the fields that are read again after mounting. -/
structure Fat12BPB where
  bytesPerSector : Nat
  sectorsPerCluster : Nat
  reservedSectorCount : Nat
  numFats : Nat
  rootEntryCount : Nat
  fatSize16 : Nat

/-- `fat12_normalized_entry`; the name is its characters up to the terminating NUL. -/
structure NormalizedEntry where
  name : List Byte
  startCluster : Nat
  attr : Byte
  createTimeTenths : Byte
  createTime : Nat
  createDate : Nat
  lastAccessDate : Nat
  writeTime : Nat
  writeDate : Nat
  fileSize : Nat

/-- `fat12_entry_location`, without the parent cluster, which nothing reads. -/
structure EntryLocation where
  isRoot : Bool
  currentCluster : Nat
  entryIndexInCluster : Nat
  rootIndex : Nat

/-- `fat12_inode`; `fat12Fs` is the address of the volume it belongs to. -/
structure Fat12Inode where
  fat12Fs : Nat
  size : Nat
  startCluster : Nat
  attr : Byte
  location : EntryLocation

/-- `FAT12_FS`; `this` is the address of the object. -/
structure FAT12FS where
  this : Nat
  cachePool : Nat → ClusterBuffer
  rootDir : Nat → NormalizedEntry
  rootDirDirty : Bool
  tmpSectorBuffer : ByteMap
  bpb : Fat12BPB
  fatTable : Nat → Nat
  fatTableDirty : Bool
  device : Disk
  dataStartSector : Nat
  rootEntries : Nat
  clusterCount : Nat
  clusterSize : Nat

/-! ### Directory entries -/

/-- `fat12_entry_buf_status`. -/
inductive EntryStatus where
  | FREE
  | DELETE
  | VALID
  | SKIP_LFN
  | SKIP_SFN
  | WRITE
  | END_OF_DIR
  deriving DecidableEq, Repr

def VOLUME_ID : Byte := 0x08
def DIRECTORY : Byte := 0x10

/-- `fat12_entry_buf`. -/
structure EntryBuf where
  normalizedEntry : NormalizedEntry
  status : EntryStatus

namespace EntryBuf

/-- `fat12_entry_buf::reset`. -/
def reset : EntryBuf where
  normalizedEntry :=
    { name := [], startCluster := 0, attr := 0, createTimeTenths := 0, createTime := 0,
      createDate := 0, lastAccessDate := 0, writeTime := 0, writeDate := 0, fileSize := 0 }
  status := .FREE

def toLower (c : Byte) : Byte := if 0x41 ≤ c.toNat ∧ c.toNat ≤ 0x5A then c + 0x20 else c

def toUpper (c : Byte) : Byte := if 0x61 ≤ c.toNat ∧ c.toNat ≤ 0x7A then c - 0x20 else c

/-- The `n` bytes at `pos`. -/
def bytesAt (mem : ByteMap) (pos n : Nat) : List Byte := (List.range n).map fun i => mem (pos + i)

/-- A little-endian field of two bytes. -/
def u16At (mem : ByteMap) (pos : Nat) : Nat := (mem pos).toNat + 256 * (mem (pos + 1)).toNat

/-- A little-endian field of four bytes. -/
def u32At (mem : ByteMap) (pos : Nat) : Nat := u16At mem pos + 65536 * u16At mem (pos + 2)

/-- The name a short entry is given: the base up to its first blank and, for files with an
extension, a dot and the extension up to its first blank. A NUL ends it. -/
def entryName (mem : ByteMap) (pos : Nat) : List Byte :=
  let base := ((bytesAt mem pos 8).takeWhile (· != 0x20)).map toLower
  let ext := if mem (pos + 11) &&& DIRECTORY = 0 ∧ mem (pos + 8) ≠ 0x20 then
    0x2E :: ((bytesAt mem (pos + 8) 3).takeWhile (· != 0x20)).map toLower else []
  (base ++ ext).takeWhile (· != 0)

/-- `fat12_entry_buf::read` of the 32 bytes at `pos`. -/
def read (b : EntryBuf) (mem : ByteMap) (pos : Nat) : Bool × EntryBuf :=
  if mem (pos + 11) = 0x0F then (false, { b with status := .SKIP_LFN })
  else if mem pos = 0 then (false, { b with status := .END_OF_DIR })
  else if mem pos = 0xE5 then (false, { b with status := .DELETE })
  else if b.status = .SKIP_LFN then (false, { b with status := .SKIP_SFN })
  else (true,
    { normalizedEntry :=
        { name := entryName mem pos
          startCluster := u16At mem (pos + 26)
          attr := mem (pos + 11)
          createTimeTenths := mem (pos + 13)
          createTime := u16At mem (pos + 14)
          createDate := u16At mem (pos + 16)
          lastAccessDate := u16At mem (pos + 18)
          writeTime := u16At mem (pos + 22)
          writeDate := u16At mem (pos + 24)
          fileSize := u32At mem (pos + 28) }
      status := .VALID })

/-- A field of `n` characters, padded with blanks. -/
def padded (n : Nat) (s : List Byte) : List Byte := (s.map toUpper ++ List.replicate n 0x20).take n

/-- The characters before the last dot and those after it. -/
def splitName (name : List Byte) : List Byte × List Byte :=
  match name.reverse.idxOf? 0x2E with
  | none => (name, [])
  | some k => (name.take (name.length - 1 - k), name.drop (name.length - k))

/-- The `n` little-endian bytes of a number. -/
def leBytes (n v : Nat) : List Byte := (List.range n).map fun i => BitVec.ofNat 8 (v / 256 ^ i)

/-- The 32 bytes `fat12_entry_buf::write` puts down for an entry that is not deleted. -/
def encode (e : NormalizedEntry) : List Byte :=
  let (base, ext) := if e.attr &&& DIRECTORY ≠ 0 then (e.name, []) else splitName e.name
  padded 8 base ++ padded 3 ext ++ [e.attr, 0, e.createTimeTenths] ++ leBytes 2 e.createTime ++
    leBytes 2 e.createDate ++ leBytes 2 e.lastAccessDate ++ leBytes 2 0 ++ leBytes 2 e.writeTime ++
    leBytes 2 e.writeDate ++ leBytes 2 e.startCluster ++ leBytes 4 e.fileSize

/-- `fat12_entry_buf::write` to the 32 bytes at `pos`. -/
def write (b : EntryBuf) (mem : ByteMap) (pos : Nat) (setDelete : Bool) : Bool × ByteMap :=
  if setDelete then (true, Function.update mem pos 0xE5)
  else (true, memcpy mem pos (fun k => (encode b.normalizedEntry).getD k 0) FAT12_ENTRY_BYTES)

end EntryBuf

namespace FAT12FS

/-! ### The FAT -/

/-- The value of the `j`-th entry in the buffer, `idx` being its number in the table. -/
def decodeEntry (buf : ByteMap) (j idx : Nat) : Nat :=
  let offset := j + j / 2
  if idx &&& 1 = 0 then (buf offset).toNat ||| (((buf (offset + 1)).toNat &&& 0x0F) <<< 8)
  else ((buf offset).toNat >>> 4) ||| ((buf (offset + 1)).toNat <<< 4)

/-- The inner loop of `read_fat_table`, for `n` entries from the `j`-th of the buffer on. -/
def decodeLoop (buf : ByteMap) : Nat → Nat → Nat → (Nat → Nat) → Nat → Nat
  | 0, _, _, table => table
  | n + 1, j, idx, table =>
      decodeLoop buf n (j + 1) (idx + 1) (Function.update table idx (decodeEntry buf j idx))

/-- `ide_read_sector` into the temporary buffer. -/
def readTmp (fs : FAT12FS) (lba pos : Nat) : Bool × FAT12FS :=
  let (res, d, buf) := fs.device.ideReadSector lba fs.tmpSectorBuffer pos
  (res, { fs with device := d, tmpSectorBuffer := buf })

/-- `ide_write_sector` out of the temporary buffer. -/
def writeTmp (fs : FAT12FS) (lba pos : Nat) : Bool × FAT12FS :=
  let (res, d) := fs.device.ideWriteSector lba fs.tmpSectorBuffer pos
  (res, { fs with device := d })

/-- The first loop of `read_fat_table`: `n` groups of three sectors from the `i`-th sector on. -/
def readGroups (fs : FAT12FS) : Nat → Nat → Nat → Bool × Nat × FAT12FS
  | 0, _, idx => (true, idx, fs)
  | n + 1, i, idx =>
      let (r₀, fs) := fs.readTmp (i + fs.bpb.reservedSectorCount) 0
      let (r₁, fs) := fs.readTmp (i + 1 + fs.bpb.reservedSectorCount) FAT12_SECTOR_SIZE
      let (r₂, fs) := fs.readTmp (i + 2 + fs.bpb.reservedSectorCount) (FAT12_SECTOR_SIZE * 2)
      if r₀ && r₁ && r₂ then
        let count := fs.bpb.bytesPerSector / 2
        readGroups { fs with fatTable := decodeLoop fs.tmpSectorBuffer count 0 idx fs.fatTable } n
          (i + 3) (idx + count)
      else (false, idx, fs)

/-- The second loop of `read_fat_table`: the `n` sectors left, from the `i`-th on. -/
def readRest (fs : FAT12FS) : Nat → Nat → Nat → Bool → Bool × FAT12FS
  | 0, _, _, res => (res, fs)
  | n + 1, i, idx, res =>
      let (r, fs) := fs.readTmp (i + fs.bpb.reservedSectorCount) 0
      let count := fs.bpb.bytesPerSector * 8 / 12
      readRest { fs with fatTable := decodeLoop fs.tmpSectorBuffer count 0 idx fs.fatTable } n
        (i + 1) (idx + count) (res && r)

def readFatTable (fs : FAT12FS) : Bool × FAT12FS :=
  match fs.readGroups (fs.bpb.fatSize16 / 3) 0 0 with
  | (false, _, fs) => (false, fs)
  | (true, idx, fs) =>
      fs.readRest (fs.bpb.fatSize16 % 3) (fs.bpb.fatSize16 - fs.bpb.fatSize16 % 3) idx true

/-- The two bytes one entry is put into. -/
def encodeEntry (value j idx : Nat) (buf : ByteMap) : ByteMap :=
  let offset := j + j / 2
  if idx &&& 1 = 0 then
    let buf := Function.update buf offset (BitVec.ofNat 8 (value &&& 0xFF))
    Function.update buf (offset + 1)
      ((buf (offset + 1) &&& 0xF0#8) ||| BitVec.ofNat 8 ((value >>> 8) &&& 0x0F))
  else
    let buf := Function.update buf offset
      ((buf offset &&& 0x0F#8) ||| BitVec.ofNat 8 ((value <<< 4) &&& 0xF0))
    Function.update buf (offset + 1) (BitVec.ofNat 8 ((value >>> 4) &&& 0xFF))

/-- The inner loop of `flush_fat_table`, for `n` entries from the `j`-th of the buffer on. -/
def encodeLoop (table : Nat → Nat) : Nat → Nat → Nat → ByteMap → ByteMap
  | 0, _, _, buf => buf
  | n + 1, j, idx, buf => encodeLoop table n (j + 1) (idx + 1) (encodeEntry (table idx) j idx buf)

/-- The loop of `flush_fat_table`: `n` groups of three sectors from the `i`-th sector on. -/
def flushGroups (fs : FAT12FS) : Nat → Nat → Nat → Bool × FAT12FS
  | 0, _, _ => (true, fs)
  | n + 1, i, idx =>
      let fs := { fs with tmpSectorBuffer := encodeLoop fs.fatTable 1024 0 idx fs.tmpSectorBuffer }
      let (r₀, fs) := fs.writeTmp (i + fs.bpb.reservedSectorCount) 0
      let (r₁, fs) := fs.writeTmp (i + 1 + fs.bpb.reservedSectorCount) FAT12_SECTOR_SIZE
      let (r₂, fs) := fs.writeTmp (i + 2 + fs.bpb.reservedSectorCount) (FAT12_SECTOR_SIZE * 2)
      if r₀ && r₁ && r₂ then flushGroups fs n (i + 3) (idx + 1024) else (false, fs)

def flushFatTable (fs : FAT12FS) : Bool × FAT12FS := fs.flushGroups ((fs.bpb.fatSize16 + 2) / 3) 0 0

def setFat (fs : FAT12FS) (cluster value : Nat) : FAT12FS :=
  { fs with fatTable := Function.update fs.fatTable cluster value }

/-- The search of `allocate_cluster`. The counter has 16 bits, so that with `cluster_count` above
65535 and no free entry it wraps around and the loop does not end. -/
def allocateClusterLoop (fs : FAT12FS) : Nat → Nat → Outcome Nat
  | 0, _ => .diverge
  | fuel + 1, idx =>
      if idx < fs.clusterCount then
        if fs.fatTable idx = 0 then .ret idx else allocateClusterLoop fs fuel ((idx + 1) % 2 ^ 16)
      else .ret 0

/-- `0` when no cluster is free. -/
def allocateCluster (fs : FAT12FS) : Outcome Nat := fs.allocateClusterLoop (2 ^ 16 + 1) 2

def freeCluster (fs : FAT12FS) (idx : Nat) : FAT12FS := fs.setFat idx 0

/-! ### The cluster cache -/

def cluster2sector (fs : FAT12FS) (cluster : Nat) : Outcome Nat := do
  Outcome.ASSERT (cluster ≥ 2)
  Outcome.ASSERT (fs.dataStartSector ≠ 0)
  Outcome.ASSERT (fs.bpb.sectorsPerCluster ≠ 0)
  return fs.dataStartSector + (cluster - 2) * fs.bpb.sectorsPerCluster

def setSlot (fs : FAT12FS) (i : Nat) (slot : ClusterBuffer) : FAT12FS :=
  { fs with cachePool := Function.update fs.cachePool i slot }

/-- `fat12_cluster_buffer::read_cluster`. -/
def readCluster (fs : FAT12FS) (i : Nat) : Outcome (Bool × FAT12FS) := do
  let slot := fs.cachePool i
  let sector ← fs.cluster2sector slot.clusterNum
  match fs.device.readSectors sector fs.bpb.bytesPerSector fs.bpb.sectorsPerCluster 0 slot.buf with
  | (false, d, buf) => return (false, { fs with device := d }.setSlot i { slot with buf })
  | (true, d, buf) =>
      return (true, { fs with device := d }.setSlot i { slot with buf, dirty := false })

/-- `fat12_cluster_buffer::write_cluster`. -/
def writeCluster (fs : FAT12FS) (i : Nat) : Outcome (Bool × FAT12FS) :=
  let slot := fs.cachePool i
  if !slot.dirty then return (true, fs)
  else do
    let sector ← fs.cluster2sector slot.clusterNum
    match fs.device.writeSectors sector fs.bpb.bytesPerSector slot.buf fs.bpb.sectorsPerCluster 0 with
    | (false, d) => return (false, { fs with device := d })
    | (true, d) => return (true, { fs with device := d }.setSlot i { slot with dirty := false })

/-- The search of `find_cache`. -/
def findCache (fs : FAT12FS) (cluster : Nat) : Option Nat :=
  (List.range FAT12_MAX_CACHE).find? fun i => (fs.cachePool i).clusterNum = cluster

/-- The search of `get_cache` for a slot that is not in use. -/
def findUnused (fs : FAT12FS) : Option Nat :=
  (List.range FAT12_MAX_CACHE).find? fun i => (fs.cachePool i).refcount = 0

def getCache (fs : FAT12FS) (cluster : Nat) : Outcome (Option Nat × FAT12FS) :=
  if cluster < 2 ∨ cluster ≥ 0xFF0 then return (none, fs)
  else match fs.findCache cluster with
    | some i =>
        let slot := fs.cachePool i
        return (some i, fs.setSlot i { slot with refcount := slot.refcount + 1 })
    | none =>
        match fs.findUnused with
        | some i => do
            let slot := fs.cachePool i
            let (res, fs) ← (fs.setSlot i
              { slot with clusterNum := cluster, refcount := 1, dirty := false }).readCluster i
            if res then return (some i, fs) else .halt
        | none => return (none, fs)

def releaseCache (fs : FAT12FS) (i : Nat) : Outcome FAT12FS :=
  let slot := fs.cachePool i
  if slot.refcount ≤ 0 then return fs
  else
    let fs := fs.setSlot i { slot with refcount := slot.refcount - 1 }
    if slot.refcount - 1 ≤ 0 ∧ slot.dirty then do
      let (res, fs) ← fs.writeCluster i
      if res then return fs.setSlot i { fs.cachePool i with dirty := false } else .halt
    else return fs

/-- The writes of a caller through the pointer to a buffer. -/
def setBuf (fs : FAT12FS) (i : Nat) (buf : ByteMap) : FAT12FS :=
  fs.setSlot i { fs.cachePool i with buf }

def setDirty (fs : FAT12FS) (i : Nat) : FAT12FS :=
  fs.setSlot i { fs.cachePool i with dirty := true }

/-! ### Reading and appending -/

/-- The loop of `read` that finds the cluster of the offset; `none` is its `return 0`. -/
def skipLoop (fs : FAT12FS) : Nat → Nat → Nat → Outcome (Option (Nat × Nat))
  | 0, _, _ => .diverge
  | fuel + 1, cntCluster, offset =>
      if offset ≥ fs.clusterSize then
        if cntCluster < 2 ∨ cntCluster > 0xFF8 then return none
        else fs.skipLoop fuel (fs.fatTable cntCluster) (offset - fs.clusterSize)
      else return some (cntCluster, offset)

/-- The loop of `read` over the clusters after the first. The chunk is a `uint16`. -/
def readLoop (fs : FAT12FS) : Nat → Nat → Nat → Nat → ByteMap → Outcome (Int × ByteMap × FAT12FS)
  | 0, _, _, _, _ => .diverge
  | fuel + 1, cntCluster, size, readSize, out =>
      if IntPos size ∧ cntCluster ≥ 2 ∧ cntCluster < 0xFF8 then do
        let (cache, fs) ← fs.getCache cntCluster
        match cache with
        | none => return (readSize, out, fs)
        | some i =>
            let chunk := min size fs.clusterSize % 2 ^ 16
            let out := memcpy out readSize (fs.cachePool i).buf chunk
            let fs ← fs.releaseCache i
            readLoop fs fuel (fs.fatTable cntCluster) (size - chunk) (readSize + chunk) out
      else return (readSize, out, fs)

/-- Not a regular file. -/
def IsSpecial (attr : Byte) : Prop := attr &&& DIRECTORY ≠ 0 ∨ attr &&& VOLUME_ID ≠ 0

instance (attr : Byte) : Decidable (IsSpecial attr) := inferInstanceAs (Decidable (_ ∨ _))

/-- `read` once the arguments are checked and `size` bytes from `offset` on are to be read. -/
def readFrom (fs : FAT12FS) (node : Fat12Inode) (out : ByteMap) (size offset : Nat) :
    Outcome (Int × ByteMap × FAT12FS) := do
  match ← fs.skipLoop (offset + 1) node.startCluster offset with
  | none => return (0, out, fs)
  | some (cntCluster, offset) =>
      let (cache, fs) ← fs.getCache cntCluster
      match cache with
      | none => return (-1, out, fs)
      | some i =>
          let left := fs.clusterSize - offset
          let src := bytesFrom (fs.cachePool i).buf offset
          if size < left then
            let fs ← fs.releaseCache i
            return (size, memcpy out 0 src size, fs)
          else
            let fs ← fs.releaseCache i
            fs.readLoop (size + FAT12_MAX_CLUSTERS + 1) (fs.fatTable cntCluster) (size - left) left
              (memcpy out 0 src left)

/-- `FAT12_FS::read`: the result, the buffer and the volume afterwards. -/
def read (fs : FAT12FS) (node : Option Fat12Inode) (out : ByteMap) (size offset : Int) :
    Outcome (Int × ByteMap × FAT12FS) :=
  match node with
  | none => return (0, out, fs)
  | some node =>
      if node.startCluster < 2 ∨ node.fat12Fs ≠ fs.this then return (0, out, fs)
      else if u32 offset ≥ node.size then return (0, out, fs)
      else if offset < 0 then return (-1, out, fs)
      else if size ≤ 0 then return (0, out, fs)
      else
        let size := if u32 (size + offset) > node.size then u32 (node.size - offset) else size.toNat
        if IsSpecial node.attr then return (-1, out, fs)
        else fs.readFrom node out size offset.toNat

/-- The first part of `append`: an empty file is given its first cluster. `none` is `return -1`. -/
def appendStart (fs : FAT12FS) (node : Fat12Inode) : Outcome (Option Fat12Inode × FAT12FS) :=
  if node.startCluster = 0 then do
    let firstCluster ← fs.allocateCluster
    if firstCluster = 0 then return (none, fs)
    else
      match ({ fs.setFat firstCluster 0xFFF with fatTableDirty := true }).flushFatTable with
      | (false, fs) => return (none, fs.freeCluster firstCluster)
      | (true, fs) => return (some { node with startCluster := firstCluster }, fs)
  else return (some node, fs)

/-- The walk of `append` to the last cluster. The table has 4096 entries, a longer walk is in a cycle
and does not end. -/
def lastClusterLoop (fs : FAT12FS) : Nat → Nat → Outcome Nat
  | 0, _ => .diverge
  | fuel + 1, cluster =>
      if fs.fatTable cluster ≥ 2 ∧ fs.fatTable cluster < 0xFF8 then
        fs.lastClusterLoop fuel (fs.fatTable cluster)
      else return cluster

def lastCluster (fs : FAT12FS) (cluster : Nat) : Outcome Nat :=
  fs.lastClusterLoop (FAT12_MAX_CLUSTERS + 1) cluster

/-- The part of `append` that fills up the last cluster: what is appended, and what is left to. -/
def fillLast (fs : FAT12FS) (cluster used : Nat) (src : ByteMap) (size : Nat) :
    Outcome (Nat × Nat × FAT12FS) :=
  if used < fs.clusterSize then do
    let (cache, fs) ← fs.getCache cluster
    match cache with
    | none => .halt
    | some i =>
        let chunk := min size (fs.clusterSize - used)
        let (res, fs) ← ((fs.setBuf i (memcpy (fs.cachePool i).buf used src chunk)).setDirty i).writeCluster i
        let fs ← fs.releaseCache i
        return (chunk, if res then size - chunk else 0, fs)
  else return (0, size, fs)

/-- The loop of `append` over new clusters, `appended` bytes being written before it. -/
def appendLoop (fs : FAT12FS) : Nat → Nat → ByteMap → Nat → Nat → Outcome (Nat × FAT12FS)
  | 0, _, _, _, _ => .diverge
  | fuel + 1, cluster, src, size, appended =>
      if size > 0 then do
        let newCluster ← fs.allocateCluster
        if newCluster = 0 then return (appended, fs)
        else
          let linked := (fs.setFat cluster newCluster).setFat newCluster 0xFFF
          match ({ linked with fatTableDirty := true }).flushFatTable with
          | (false, fs) => return (appended, (fs.freeCluster newCluster).setFat cluster 0xFFF)
          | (true, fs) => do
              let (cache, fs) ← fs.getCache newCluster
              match cache with
              | none => .halt
              | some i =>
                  let chunk := min size fs.clusterSize
                  let buf := memcpy (memzero (fs.cachePool i).buf fs.clusterSize) 0 src chunk
                  let (res, fs) ← ((fs.setBuf i buf).setDirty i).writeCluster i
                  let fs ← fs.releaseCache i
                  if res then
                    appendLoop fs fuel newCluster (bytesFrom src chunk) (size - chunk) (appended + chunk)
                  else return (appended + chunk, fs)
      else return (appended, fs)

/-- The end of `append`: start cluster and size go into the directory entry. -/
def updateEntry (fs : FAT12FS) (node : Fat12Inode) : Outcome FAT12FS :=
  if node.location.isRoot then
    let entry := fs.rootDir node.location.rootIndex
    return { fs with
      rootDir := Function.update fs.rootDir node.location.rootIndex
        { entry with startCluster := node.startCluster, fileSize := node.size }
      rootDirDirty := true }
  else do
    let (cache, fs) ← fs.getCache node.location.currentCluster
    match cache with
    | none => .halt
    | some i =>
        let pos := node.location.entryIndexInCluster * FAT12_ENTRY_BYTES
        match EntryBuf.reset.read (fs.cachePool i).buf pos with
        | (false, _) => .halt
        | (true, entryBuf) =>
            let entry := { entryBuf.normalizedEntry with
              startCluster := node.startCluster, fileSize := node.size }
            match { entryBuf with normalizedEntry := entry }.write (fs.cachePool i).buf pos false with
            | (false, _) => .halt
            | (true, buf) => ((fs.setBuf i buf).setDirty i).releaseCache i

/-- The rest of `append`, for a file that has a first cluster. -/
def appendRest (fs : FAT12FS) (node : Fat12Inode) (src : ByteMap) (size : Nat) :
    Outcome (Nat × Fat12Inode × FAT12FS) := do
  let cluster ← fs.lastCluster node.startCluster
  let (filled, left, fs) ← fs.fillLast cluster (node.size % fs.clusterSize) src size
  let (appended, fs) ← fs.appendLoop (left + 1) cluster (bytesFrom src filled) left filled
  if appended > 0 then
    let node := { node with size := (node.size + appended) % 2 ^ 32 }
    let fs ← fs.updateEntry node
    return (appended, node, fs)
  else return (appended, node, fs)

/-- `FAT12_FS::append`: the result, the inode and the volume afterwards. -/
def append (fs : FAT12FS) (node : Option Fat12Inode) (src : ByteMap) (size : Int) :
    Outcome (Int × Option Fat12Inode × FAT12FS) :=
  match node with
  | none => return (-1, none, fs)
  | some node =>
      if node.fat12Fs ≠ fs.this then return (-1, some node, fs)
      else if node.startCluster ≠ 0 ∧ node.startCluster < 2 then return (-1, some node, fs)
      else if IsSpecial node.attr then return (-1, some node, fs)
      else if size ≤ 0 then return (0, some node, fs)
      else do
        let (started, fs) ← fs.appendStart node
        match started with
        | none => return (-1, some node, fs)
        | some node =>
            let (appended, node, fs) ← fs.appendRest node src size.toNat
            return (appended, some node, fs)

end FAT12FS

end SysuOs
