import SysuOs.FatModel
import SysuOs.VfsOpen

/-! `FileManager::lookup` down to the directory entries of a FAT12 volume. `FAT12_FS::lookup` takes the
clusters of whatever it is given for directory entries. -/

namespace SysuOs.Vfs

open EntryBuf

/-! ### Inodes -/

/-- `fat12_inode_pool`, with the `refcount` of its inodes. -/
structure InodePool where
  node_count : Nat
  bitmap : Nat → Bool
  inodes : Nat → Fat12Inode
  refcount : Nat → Nat

def isSame (a b : EntryLocation) : Bool :=
  if a.isRoot then b.isRoot && a.rootIndex = b.rootIndex
  else !b.isRoot && a.currentCluster = b.currentCluster && a.entryIndexInCluster = b.entryIndexInCluster

namespace InodePool

variable (pool : InodePool)

/-- The first free inode. -/
def allocate : Option Nat := (List.range pool.node_count).find? fun i => pool.bitmap i = false

/-- `get_inode(start_cluster)`. -/
def getInode (start_cluster : Nat) : Option Nat :=
  if start_cluster = 0 then none
  else (List.range pool.node_count).find? fun i => pool.bitmap i && (pool.inodes i).startCluster = start_cluster

/-- `get_inode(location)`, for a file without clusters. -/
def getInodeAt (location : EntryLocation) : Option Nat :=
  (List.range pool.node_count).find? fun i =>
    pool.bitmap i && (pool.inodes i).startCluster = 0 && isSame (pool.inodes i).location location

end InodePool

/-- A mounted FAT12 volume. -/
structure FatVolume where
  fs : FAT12FS
  inodepool : InodePool

/-- What a lookup finds: an inode, and the entry that it is of. -/
structure Found where
  place : Nat
  entry : NormalizedEntry

namespace FatVolume

variable (vol : FatVolume)

def releaseInode (place : Nat) : FatVolume :=
  let pool := vol.inodepool
  if (pool.inodes place).fat12Fs = vol.fs.this then
    let refcount := pool.refcount place - 1
    { vol with inodepool := { pool with
        refcount := Function.update pool.refcount place refcount
        bitmap := if refcount = 0 then Function.update pool.bitmap place false else pool.bitmap } }
  else vol

/-- `if (current) release_inode(current)`. -/
def releaseCurrent : Option Found → FatVolume
  | none => vol
  | some current => vol.releaseInode current.place

/-- The end of `lookup`: an inode for the entry it found. -/
def takeInode (entry : NormalizedEntry) (location : EntryLocation) : Option Found × FatVolume :=
  let pool := vol.inodepool
  let known := if entry.startCluster = 0 then pool.getInodeAt location else pool.getInode entry.startCluster
  match known with
  | some i =>
    (some ⟨i, entry⟩, { vol with inodepool := { pool with
        refcount := Function.update pool.refcount i (pool.refcount i + 1)
        inodes := Function.update pool.inodes i { pool.inodes i with location } } })
  | none =>
    match pool.allocate with
    | none => (none, vol)
    | some i =>
      (some ⟨i, entry⟩, { vol with inodepool := { pool with
          bitmap := Function.update pool.bitmap i true
          refcount := Function.update pool.refcount i 1
          inodes := Function.update pool.inodes i
            ⟨vol.fs.this, entry.fileSize, entry.startCluster, entry.attr, location⟩ } })

/-! ### Directories -/

/-- An entry of the root directory that `lookup` compares: in use, and no volume label. -/
def Compared (entry : NormalizedEntry) : Prop :=
  entry.name ≠ [] ∧ entry.name.head? ≠ some 0xE5 ∧ entry.attr &&& VOLUME_ID = 0

instance (entry : NormalizedEntry) : Decidable (Compared entry) := inferInstanceAs (Decidable (_ ∧ _ ∧ _))

def lookupRoot (name : List Byte) : Option Found × FatVolume :=
  match (List.range vol.fs.rootEntries).find? fun idx =>
      Compared (vol.fs.rootDir idx) && (vol.fs.rootDir idx).name = name with
  | none => (none, vol)
  | some idx => vol.takeInode (vol.fs.rootDir idx) ⟨true, 0, 0, idx⟩

inductive Scan where
  | found (i : Nat) (entry : NormalizedEntry)
  | endOfDir
  | exhausted

/-- The loop of `lookup` over the `n` entries of a cluster from the `i`-th on. -/
def scanCluster (buf : ByteMap) (name : List Byte) : Nat → Nat → EntryBuf → Scan
  | 0, _, _ => .exhausted
  | n + 1, i, entryBuf =>
    match entryBuf.read buf (i * FAT12_ENTRY_BYTES) with
    | (true, entryBuf) =>
      if entryBuf.normalizedEntry.name = name then .found i entryBuf.normalizedEntry
      else scanCluster buf name n (i + 1) entryBuf
    | (false, entryBuf) =>
      if entryBuf.status = .END_OF_DIR then .endOfDir else scanCluster buf name n (i + 1) entryBuf

/-- The loop of `lookup` over the clusters of a directory, with the clusters that it reads entries from.
There are 4096 clusters, a longer walk is in a cycle and does not end. -/
def lookupLoop (name : List Byte) : Nat → Nat → FatVolume → SysuOs.Outcome (Option Found × List Nat × FatVolume)
  | 0, _, _ => .diverge
  | fuel + 1, cluster, vol =>
    if 2 ≤ cluster ∧ cluster ≤ 0xFF7 then do
      let (cache, fs) ← vol.fs.getCache cluster
      match cache with
      | none => return (none, [], { vol with fs })
      | some i =>
        match scanCluster (fs.cachePool i).buf name (fs.clusterSize / FAT12_ENTRY_BYTES % 2 ^ 16) 0 reset with
        | .found k entry => do
          let (found, vol) := { vol with fs }.takeInode entry ⟨false, cluster, k, 0⟩
          let fs ← vol.fs.releaseCache i
          return (found, [cluster], { vol with fs })
        | .endOfDir => do
          let fs ← fs.releaseCache i
          return (none, [cluster], { vol with fs })
        | .exhausted => do
          let fs ← fs.releaseCache i
          let (found, clusters, vol) ← lookupLoop name fuel (fs.fatTable cluster) { vol with fs }
          return (found, cluster :: clusters, vol)
    else return (none, [], vol)

/-- `FAT12_FS::lookup`, with the clusters that it reads entries from. -/
def lookup (dir : Option Nat) (name : List Byte) : SysuOs.Outcome (Option Found × List Nat × FatVolume) :=
  match dir with
  | none => let (found, vol) := vol.lookupRoot name; return (found, [], vol)
  | some place =>
    let node := vol.inodepool.inodes place
    if node.fat12Fs ≠ vol.fs.this then return (none, [], vol)
    else lookupLoop name (FAT12_MAX_CLUSTERS + 1) node.startCluster vol

end FatVolume

/-! ### Paths -/

/-- A component of the path in which the next one is looked up: its entry, and the clusters that are read
as entries for that. -/
structure Visit where
  entry : NormalizedEntry
  clusters : List Nat

def bytesOf (component : List Char) : List Byte := component.map fun c => BitVec.ofNat 8 c.toNat

/-- The loop of `FileManager::lookup` over the components. Each takes at least one character. -/
def walkPath : Nat → FatVolume → Option Found → List Char →
    SysuOs.Outcome (Option (Option Found) × List Visit × FatVolume)
  | 0, _, _, _ => .diverge
  | fuel + 1, vol, current, path =>
    match pathNextComponent path with
    | .tooLong => return (none, [], vol.releaseCurrent current)
    | .none => return (some current, [], vol)
    | .next component rest => do
      let (next, clusters, vol) ← vol.lookup (current.map Found.place) (bytesOf component)
      let vol := vol.releaseCurrent current
      let visit := (current.map fun dir => Visit.mk dir.entry clusters).toList
      match next with
      | none => return (none, visit, vol)
      | some next => do
        let (node, visits, vol) ← walkPath fuel vol (some next) rest
        return (node, visit ++ visits, vol)

/-- `FileManager::lookup`, with the components that other components are looked up in. -/
def lookupPath {n : Nat} (s : Files n) (fs_table : FsTable) (volumes : Fin MAX_DISK_COUNT → FatVolume)
    (cwd path : List Char) :
    SysuOs.Outcome (Option (Fin MAX_OPENFILE_COUNT) × List Visit × Files n × (Fin MAX_DISK_COUNT → FatVolume)) :=
  match resolve fs_table cwd path with
  | none => return (none, [], s, volumes)
  | some (slot, rest) =>
    match (fs_table slot).type with
    | .NONE => return (none, [], s, volumes)
    | .FXT12 => do
      let (node, visits, vol) ← walkPath (rest.length + 1) (volumes slot) none rest
      match node with
      | none => return (none, visits, s, Function.update volumes slot vol)
      | some current =>
        let node := current.map fun found => Inode.mk slot found.place
        match s.enter .FXT12 node with
        | none => return (none, visits, s, Function.update volumes slot (vol.releaseCurrent current))
        | some (i, files) =>
          -- an open file that is in use holds its inode already
          let vol := if (s.findOpenfile .FXT12 node).isSome then vol.releaseCurrent current else vol
          return (some i, visits, files, Function.update volumes slot vol)

/-! ### Only directories -/

def IsDirectory (entry : NormalizedEntry) : Prop := entry.attr &&& DIRECTORY ≠ 0

instance (entry : NormalizedEntry) : Decidable (IsDirectory entry) := inferInstanceAs (Decidable (_ ≠ _))

/-- A file is found only if every component before the last is a directory, and nothing but directories is
read as directory entries. -/
structure OnlyDirectories {α : Type} (file : Option α) (visits : List Visit) : Prop where
  prefixes : file.isSome = true → ∀ visit ∈ visits, IsDirectory visit.entry
  data : ∀ visit ∈ visits, visit.clusters ≠ [] → IsDirectory visit.entry

theorem OnlyDirectories.nil {α : Type} {file : Option α} : OnlyDirectories file [] :=
  ⟨fun _ _ hmem => absurd hmem List.not_mem_nil, fun _ hmem => absurd hmem List.not_mem_nil⟩

/-- The file has data: a first cluster, which the cache can hold. -/
def HasData (vol : FatVolume) (place : Nat) : Prop :=
  let node := vol.inodepool.inodes place
  node.fat12Fs = vol.fs.this ∧ (2 ≤ node.startCluster ∧ node.startCluster ≤ 0xFF7) ∧
    ∃ i fs, vol.fs.getCache node.startCluster = .ret (some i, fs)

/-- A component before the last names a regular file with data. -/
def ThroughFile : Nat → FatVolume → Option Found → List Char → Prop
  | 0, _, _, _ => False
  | fuel + 1, vol, current, path =>
    match pathNextComponent path with
    | .tooLong => False
    | .none => False
    | .next component rest =>
      (∃ file, current = some file ∧ ¬ IsDirectory file.entry ∧ HasData vol file.place) ∨
      match vol.lookup (current.map Found.place) (bytesOf component) with
      | .ret (some next, _, vol) => ThroughFile fuel (vol.releaseCurrent current) (some next) rest
      | _ => False

/-- The path leads through a regular file with data. -/
def LeadsThroughFile (fs_table : FsTable) (volumes : Fin MAX_DISK_COUNT → FatVolume) (cwd path : List Char) : Prop :=
  ∃ slot rest, resolve fs_table cwd path = some (slot, rest) ∧ (fs_table slot).type = .FXT12 ∧
    ThroughFile (rest.length + 1) (volumes slot) none rest

theorem ret_triple {α β γ : Type} {a a' : α} {b b' : β} {c c' : γ}
    (h : (pure (a, b, c) : SysuOs.Outcome (α × β × γ)) = .ret (a', b', c')) : a = a' ∧ b = b' ∧ c = c' := by
  obtain ⟨ha, hrest⟩ := Prod.mk.inj (Outcome.ret.inj h)
  exact ⟨ha, Prod.mk.inj hrest⟩

section

variable {vol vol' : FatVolume} {found : Option Found} {clusters : List Nat} {name : List Byte}

/-- The inode for an entry is one in use with the same first cluster, to which there is one more reference, or a free
one that is filled. -/
theorem takeInode_cases (vol : FatVolume) (entry : NormalizedEntry) (location : EntryLocation) :
    (∃ i, vol.inodepool.bitmap i = true ∧ (vol.inodepool.inodes i).startCluster = entry.startCluster ∧
      vol.takeInode entry location = (some ⟨i, entry⟩, { vol with inodepool := { vol.inodepool with
        refcount := Function.update vol.inodepool.refcount i (vol.inodepool.refcount i + 1)
        inodes := Function.update vol.inodepool.inodes i { vol.inodepool.inodes i with location } } })) ∨
    vol.takeInode entry location = (none, vol) ∨
    ∃ i, vol.inodepool.bitmap i = false ∧
      vol.takeInode entry location = (some ⟨i, entry⟩, { vol with inodepool := { vol.inodepool with
        bitmap := Function.update vol.inodepool.bitmap i true
        refcount := Function.update vol.inodepool.refcount i 1
        inodes := Function.update vol.inodepool.inodes i
          ⟨vol.fs.this, entry.fileSize, entry.startCluster, entry.attr, location⟩ } }) := by
  rw [FatVolume.takeInode]
  dsimp only
  cases hknown : (if entry.startCluster = 0 then vol.inodepool.getInodeAt location
      else vol.inodepool.getInode entry.startCluster) with
  | some i =>
    refine Or.inl ⟨i, ?_⟩
    split at hknown
    · rename_i hzero
      have hi := List.find?_some hknown
      simp only [Bool.and_eq_true, decide_eq_true_iff] at hi
      exact ⟨hi.1.1, hi.1.2.trans hzero.symm, rfl⟩
    · rename_i hstart
      rw [InodePool.getInode, if_neg hstart] at hknown
      have hi := List.find?_some hknown
      simp only [Bool.and_eq_true, decide_eq_true_iff] at hi
      exact ⟨hi.1, hi.2, rfl⟩
  | none =>
    cases hfree : vol.inodepool.allocate with
    | none => exact Or.inr (Or.inl rfl)
    | some i =>
      have hi := List.find?_some hfree
      exact Or.inr (Or.inr ⟨i, of_decide_eq_true hi, rfl⟩)

/-- The loop reads the first cluster if there is one, and without finds nothing. -/
theorem lookupLoop_clusters {fuel cluster : Nat}
    (h : FatVolume.lookupLoop name fuel cluster vol = .ret (found, clusters, vol')) :
    (((2 ≤ cluster ∧ cluster ≤ 0xFF7) ∧ ∃ i fs, vol.fs.getCache cluster = .ret (some i, fs)) ∧ clusters ≠ []) ∨
      (¬ ((2 ≤ cluster ∧ cluster ≤ 0xFF7) ∧ ∃ i fs, vol.fs.getCache cluster = .ret (some i, fs)) ∧
        clusters = [] ∧ found = none) := by
  cases fuel with
  | zero => cases h
  | succ fuel =>
      rw [FatVolume.lookupLoop] at h
      split at h
      · rename_i hvalid
        obtain ⟨⟨cache, fs⟩, hcache, h⟩ := Outcome.bind_eq_ret h
        cases cache with
        | none =>
            obtain ⟨rfl, rfl, -⟩ := ret_triple h
            refine Or.inr ⟨?_, rfl, rfl⟩
            rintro ⟨-, i, fs', hsome⟩
            rw [hcache] at hsome
            cases hsome
        | some i =>
            refine Or.inl ⟨⟨hvalid, i, fs, hcache⟩, ?_⟩
            dsimp only at h
            split at h
            · obtain ⟨fs', _, h⟩ := Outcome.bind_eq_ret h
              rw [← (ret_triple h).2.1]
              exact List.cons_ne_nil _ _
            · obtain ⟨fs', _, h⟩ := Outcome.bind_eq_ret h
              rw [← (ret_triple h).2.1]
              exact List.cons_ne_nil _ _
            · obtain ⟨fs', _, h⟩ := Outcome.bind_eq_ret h
              obtain ⟨⟨_, rest, _⟩, _, h⟩ := Outcome.bind_eq_ret h
              rw [← (ret_triple h).2.1]
              exact List.cons_ne_nil _ _
      · rename_i hinvalid
        obtain ⟨rfl, rfl, -⟩ := ret_triple h
        exact Or.inr ⟨fun hvalid => hinvalid hvalid.1, rfl, rfl⟩

/-- What a lookup in an inode reads. -/
theorem lookup_hasData {place : Nat} (h : vol.lookup (some place) name = .ret (found, clusters, vol')) :
    (HasData vol place ∧ clusters ≠ []) ∨ (¬ HasData vol place ∧ clusters = [] ∧ found = none) := by
  rw [FatVolume.lookup] at h
  split at h
  · rename_i hother
    obtain ⟨rfl, rfl, -⟩ := ret_triple h
    exact Or.inr ⟨fun hdata => hother hdata.1, rfl, rfl⟩
  · rename_i hown
    rcases lookupLoop_clusters h with ⟨⟨hvalid, hcache⟩, hclusters⟩ | ⟨hnone, hclusters⟩
    · exact Or.inl ⟨⟨not_not.mp hown, hvalid, hcache⟩, hclusters⟩
    · exact Or.inr ⟨fun hdata => hnone hdata.2, hclusters⟩

end

section

variable {fuel : Nat} {vol vol' : FatVolume} {current : Option Found} {path : List Char}
  {node : Option (Option Found)} {visits : List Visit}

/-- A path through a regular file has its data read as directory entries. -/
theorem walkPath_through (hthrough : ThroughFile fuel vol current path)
    (h : walkPath fuel vol current path = .ret (node, visits, vol')) :
    ∃ visit ∈ visits, visit.clusters ≠ [] ∧ ¬ IsDirectory visit.entry := by
  induction fuel generalizing vol vol' current path node visits with
  | zero => cases h
  | succ fuel ih =>
      rw [ThroughFile] at hthrough
      rw [walkPath] at h
      cases hnext : pathNextComponent path with
      | tooLong =>
          rw [hnext] at hthrough
          exact hthrough.elim
      | none =>
          rw [hnext] at hthrough
          exact hthrough.elim
      | next component rest =>
          rw [hnext] at hthrough h
          dsimp only at hthrough h
          obtain ⟨⟨next, clusters, vol₁⟩, hlookup, h⟩ := Outcome.bind_eq_ret h
          dsimp only at h
          rw [hlookup] at hthrough
          rcases hthrough with ⟨file, rfl, hfile, hdata⟩ | hthrough
          · have hread : clusters ≠ [] := by
              rcases lookup_hasData hlookup with hread | hnone
              · exact hread.2
              · exact absurd hdata hnone.1
            refine ⟨⟨file.entry, clusters⟩, ?_, hread, hfile⟩
            cases next with
            | none =>
                rw [← (ret_triple h).2.1]
                exact List.mem_singleton.mpr rfl
            | some next =>
                obtain ⟨⟨node', visits', vol₂⟩, _, h⟩ := Outcome.bind_eq_ret h
                rw [← (ret_triple h).2.1]
                exact List.mem_append_left _ (List.mem_singleton.mpr rfl)
          · cases next with
            | none => exact hthrough.elim
            | some next =>
                obtain ⟨⟨node', visits', vol₂⟩, hwalk, h⟩ := Outcome.bind_eq_ret h
                obtain ⟨visit, hmem, hbad⟩ := ih hthrough hwalk
                refine ⟨visit, ?_, hbad⟩
                rw [← (ret_triple h).2.1]
                exact List.mem_append_right _ hmem

/-- A path through no regular file with data goes through directories, or ends at a file without data. -/
theorem walkPath_clear (hclear : ¬ ThroughFile fuel vol current path)
    (h : walkPath fuel vol current path = .ret (node, visits, vol')) : OnlyDirectories node visits := by
  induction fuel generalizing vol vol' current path node visits with
  | zero => cases h
  | succ fuel ih =>
      rw [ThroughFile] at hclear
      rw [walkPath] at h
      cases hnext : pathNextComponent path with
      | tooLong =>
          rw [hnext] at h
          rw [← (ret_triple h).2.1]
          exact OnlyDirectories.nil
      | none =>
          rw [hnext] at h
          rw [← (ret_triple h).2.1]
          exact OnlyDirectories.nil
      | next component rest =>
          rw [hnext] at hclear h
          dsimp only at hclear h
          obtain ⟨⟨next, clusters, vol₁⟩, hlookup, h⟩ := Outcome.bind_eq_ret h
          dsimp only at h
          rw [hlookup, not_or] at hclear
          obtain ⟨hnofile, hrest⟩ := hclear
          -- the component in which this one is looked up
          have hvisit : ∀ visit ∈ (current.map fun dir => Visit.mk dir.entry clusters).toList,
              IsDirectory visit.entry ∨ (visit.clusters = [] ∧ next = none) := by
            intro visit hmem
            cases current with
            | none => exact absurd hmem List.not_mem_nil
            | some dir =>
                obtain rfl := List.mem_singleton.mp hmem
                by_cases hdir : IsDirectory dir.entry
                · exact Or.inl hdir
                · rcases lookup_hasData hlookup with hread | hnone
                  · exact absurd ⟨dir, rfl, hdir, hread.1⟩ hnofile
                  · exact Or.inr hnone.2
          cases next with
          | none =>
              obtain ⟨rfl, rfl, -⟩ := ret_triple h
              refine ⟨nofun, ?_⟩
              intro visit hmem hread
              rcases hvisit visit hmem with hdir | hempty
              · exact hdir
              · exact absurd hempty.1 hread
          | some next =>
              obtain ⟨⟨node', visits', vol₂⟩, hwalk, h⟩ := Outcome.bind_eq_ret h
              obtain ⟨rfl, rfl, -⟩ := ret_triple h
              have hdirs : ∀ visit ∈ (current.map fun dir => Visit.mk dir.entry clusters).toList,
                  IsDirectory visit.entry := by
                intro visit hmem
                rcases hvisit visit hmem with hdir | hempty
                · exact hdir
                · cases hempty.2
              obtain ⟨hprefixes, hdata⟩ := ih hrest hwalk
              refine ⟨?_, ?_⟩
              · intro hsome visit hmem
                rcases List.mem_append.mp hmem with hmem | hmem
                · exact hdirs visit hmem
                · exact hprefixes hsome visit hmem
              · intro visit hmem hread
                rcases List.mem_append.mp hmem with hmem | hmem
                · exact hdirs visit hmem
                · exact hdata visit hmem hread

end

/-- A lookup goes through directories only exactly when the path leads through no regular file with data. -/
theorem onlyDirectories_iff {n : Nat} {s s' : Files n} {fs_table : FsTable}
    {volumes volumes' : Fin MAX_DISK_COUNT → FatVolume} {cwd path : List Char}
    {file : Option (Fin MAX_OPENFILE_COUNT)} {visits : List Visit}
    (h : lookupPath s fs_table volumes cwd path = .ret (file, visits, s', volumes')) :
    OnlyDirectories file visits ↔ ¬ LeadsThroughFile fs_table volumes cwd path := by
  rw [lookupPath] at h
  cases hresolve : resolve fs_table cwd path with
  | none =>
      rw [hresolve] at h
      rw [← (ret_triple h).2.1]
      refine ⟨?_, fun _ => OnlyDirectories.nil⟩
      rintro - ⟨slot, rest, hsome, -⟩
      rw [hresolve] at hsome
      cases hsome
  | some target =>
      obtain ⟨slot, rest⟩ := target
      rw [hresolve] at h
      dsimp only at h
      cases htype : (fs_table slot).type with
      | NONE =>
          rw [htype] at h
          rw [← (ret_triple h).2.1]
          refine ⟨?_, fun _ => OnlyDirectories.nil⟩
          rintro - ⟨slot', rest', hsome, htype', -⟩
          rw [hresolve] at hsome
          obtain ⟨rfl, rfl⟩ := Prod.mk.inj (Option.some.inj hsome)
          rw [htype] at htype'
          cases htype'
      | FXT12 =>
          rw [htype] at h
          obtain ⟨⟨node, visits', vol⟩, hwalk, h⟩ := Outcome.bind_eq_ret h
          dsimp only at h
          have hresult : visits' = visits ∧ (file.isSome = true → node.isSome = true) := by
            cases node with
            | none =>
                obtain ⟨rfl, hvisits, -⟩ := ret_triple h
                exact ⟨hvisits, id⟩
            | some current =>
                dsimp only at h
                split at h
                · exact ⟨(ret_triple h).2.1, fun _ => rfl⟩
                · exact ⟨(ret_triple h).2.1, fun _ => rfl⟩
          obtain ⟨rfl, hfile⟩ := hresult
          constructor
          · rintro ⟨-, hdata⟩ ⟨slot', rest', hsome, -, hthrough⟩
            rw [hresolve] at hsome
            obtain ⟨rfl, rfl⟩ := Prod.mk.inj (Option.some.inj hsome)
            obtain ⟨visit, hmem, hread, hregular⟩ := walkPath_through hthrough hwalk
            exact hregular (hdata visit hmem hread)
          · intro hclear
            obtain ⟨hprefixes, hdata⟩ :=
              walkPath_clear (fun hthrough => hclear ⟨slot, rest, hresolve, htype, hthrough⟩) hwalk
            exact ⟨fun hsome => hprefixes (hfile hsome), hdata⟩

/-! ### A file that looks like a directory -/

/-- A volume whose only file `a` begins with what could be an entry of the name `b`. -/
def entryInFile : FatVolume where
  fs :=
    { this := 0
      cachePool := fun _ => ⟨0, fun _ => 0, false, 0⟩
      rootDir := fun idx =>
        if idx = 0 then { reset.normalizedEntry with name := bytesOf ['a'], startCluster := 2, attr := 0x20, fileSize := 32 }
        else reset.normalizedEntry
      rootDirDirty := false
      tmpSectorBuffer := fun _ => 0
      bpb := ⟨512, 1, 1, 2, 16, 1⟩
      fatTable := fun _ => 0xFFF
      fatTableDirty := false
      device :=
        { sector := fun lba off => if lba = 4 ∧ off = 0 then 0x42 else if lba = 4 ∧ off < 12 then 0x20 else 0
          fails := fun _ => false
          requests := 0 }
      dataStartSector := 4
      rootEntries := 16
      clusterCount := 10
      clusterSize := 512 }
  inodepool :=
    { node_count := 8
      bitmap := fun _ => false
      inodes := fun _ => ⟨0, 0, 0, 0, ⟨false, 0, 0, 0⟩⟩
      refcount := fun _ => 0 }

def oneVolume : FsTable := fun slot => if slot = 0 then ⟨[], .FXT12, .PrimaryMaster, true⟩ else .zero

/-- No file is open. -/
def noFiles : Files 1 where
  openfile_table := fun _ => .zero
  openfile_map := fun _ => false
  fd_table := fun _ => .zero

theorem lookupPath_entryInFile : ∃ file visits s' volumes',
    lookupPath noFiles oneVolume (fun _ => entryInFile) [] ['/', 'a', '/', 'b'] = .ret (file, visits, s', volumes') ∧
      file.isSome = true ∧ ∃ visit ∈ visits, ¬ IsDirectory visit.entry := by
  have hrun : (lookupPath noFiles oneVolume (fun _ => entryInFile) [] ['/', 'a', '/', 'b'] >>=
      fun r => .ret (r.1.isSome && r.2.1.any fun visit => !decide (IsDirectory visit.entry))).getD false = true := by
    decide +kernel
  cases hlookup : lookupPath noFiles oneVolume (fun _ => entryInFile) [] ['/', 'a', '/', 'b'] with
  | ret r =>
      obtain ⟨file, visits, s', volumes'⟩ := r
      rw [hlookup] at hrun
      obtain ⟨hsome, hany⟩ := Bool.and_eq_true_iff.mp hrun
      obtain ⟨visit, hvisit, hregular⟩ := List.any_eq_true.mp hany
      exact ⟨file, visits, s', volumes', rfl, hsome, visit, hvisit, by simpa using hregular⟩
  | halt =>
      rw [hlookup] at hrun
      cases hrun
  | diverge =>
      rw [hlookup] at hrun
      cases hrun

theorem onlyDirectories_iff_entryInFile : ∃ file visits s' volumes',
    lookupPath noFiles oneVolume (fun _ => entryInFile) [] ['/', 'a', '/', 'b'] = .ret (file, visits, s', volumes') ∧
      (OnlyDirectories file visits ↔
        ¬ LeadsThroughFile oneVolume (fun _ => entryInFile) [] ['/', 'a', '/', 'b']) := by
  obtain ⟨file, visits, s', volumes', hlookup, -⟩ := lookupPath_entryInFile
  exact ⟨file, visits, s', volumes', hlookup, onlyDirectories_iff hlookup⟩

/-- The file is taken for a directory, and the entry in it for a file. -/
theorem not_onlyDirectories : ¬ ∀ (s s' : Files 1) (fs_table : FsTable)
    (volumes volumes' : Fin MAX_DISK_COUNT → FatVolume) (cwd path : List Char)
    (file : Option (Fin MAX_OPENFILE_COUNT)) (visits : List Visit),
    lookupPath s fs_table volumes cwd path = .ret (file, visits, s', volumes') → OnlyDirectories file visits := by
  intro h
  obtain ⟨file, visits, s', volumes', hlookup, hsome, visit, hvisit, hregular⟩ := lookupPath_entryInFile
  exact hregular ((h _ _ _ _ _ _ _ _ _ hlookup).prefixes hsome visit hvisit)

end SysuOs.Vfs
