import SysuOs.VfsHolders

/-! The offsets of descriptors, over calls on files by any processes. An offset is an `int` and the size of a file
a `uint32`, so that an offset at the end of a file is in range as long as the size is below 2^31. -/

namespace SysuOs.FAT12FS

/-! ### How many bytes are transferred -/

theorem readLoop_le {fs fs' : FAT12FS} {fuel cluster size readSize : Nat} {out out' : ByteMap} {r : Int}
    (h : fs.readLoop fuel cluster size readSize out = .ret (r, out', fs')) : r ≤ readSize + size := by
  induction fuel generalizing fs cluster size readSize out with
  | zero => cases h
  | succ fuel ih =>
      rw [readLoop] at h
      split at h
      · obtain ⟨⟨cache, fs₁⟩, -, h⟩ := Outcome.bind_eq_ret h
        cases cache with
        | none =>
            cases h
            omega
        | some i =>
            obtain ⟨fs₂, -, h⟩ := Outcome.bind_eq_ret h
            have hchunk : min size fs₁.clusterSize % 2 ^ 16 ≤ size := (Nat.mod_le _ _).trans (Nat.min_le_left _ _)
            have hle := ih h
            omega
      · cases h
        omega

theorem readFrom_le {fs fs' : FAT12FS} {node : Fat12Inode} {size offset : Nat} {out out' : ByteMap} {r : Int}
    (h : fs.readFrom node out size offset = .ret (r, out', fs')) : r ≤ size := by
  rw [readFrom] at h
  obtain ⟨place, -, h⟩ := Outcome.bind_eq_ret h
  cases place with
  | none =>
      cases h
      omega
  | some place =>
      obtain ⟨⟨cache, fs₁⟩, -, h⟩ := Outcome.bind_eq_ret h
      cases cache with
      | none =>
          cases h
          omega
      | some i =>
          dsimp only at h
          split at h
          · obtain ⟨fs₂, -, h⟩ := Outcome.bind_eq_ret h
            cases h
            omega
          · obtain ⟨fs₂, -, h⟩ := Outcome.bind_eq_ret h
            have hle := readLoop_le h
            omega

theorem writeLoop_le {fs fs' : FAT12FS} {src : ByteMap} {fuel cluster size writeSize : Nat} {r : Int}
    (h : writeLoop src fuel fs cluster size writeSize = .ret (r, fs')) : r ≤ writeSize + size := by
  induction fuel generalizing fs cluster size writeSize with
  | zero => cases h
  | succ fuel ih =>
      rw [writeLoop] at h
      split at h
      · obtain ⟨⟨cache, fs₁⟩, -, h⟩ := Outcome.bind_eq_ret h
        cases cache with
        | none =>
            cases h
            omega
        | some i =>
            obtain ⟨fs₂, -, h⟩ := Outcome.bind_eq_ret h
            have hchunk : min size fs₁.clusterSize % 2 ^ 16 ≤ size := (Nat.mod_le _ _).trans (Nat.min_le_left _ _)
            have hle := ih h
            omega
      · cases h
        omega

theorem writeFrom_le {fs fs' : FAT12FS} {node : Fat12Inode} {src : ByteMap} {size offset : Nat} {r : Int}
    (h : fs.writeFrom node src size offset = .ret (r, fs')) : r ≤ size := by
  rw [writeFrom] at h
  obtain ⟨place, -, h⟩ := Outcome.bind_eq_ret h
  cases place with
  | none =>
      cases h
      omega
  | some place =>
      obtain ⟨⟨cache, fs₁⟩, -, h⟩ := Outcome.bind_eq_ret h
      cases cache with
      | none =>
          cases h
          omega
      | some i =>
          dsimp only at h
          split at h
          · obtain ⟨fs₂, -, h⟩ := Outcome.bind_eq_ret h
            cases h
            omega
          · obtain ⟨fs₂, -, h⟩ := Outcome.bind_eq_ret h
            have hle := writeLoop_le h
            omega

/-- The part of a request that lies in the file. -/
theorem clamp_le {size offset : Int} {fileSize : Nat} (hoffset : 0 ≤ offset) (hmax : offset < 2 ^ 31)
    (hsize : size < 2 ^ 31) (hpos : 0 < size) (hinside : u32 offset < fileSize) :
    ((if u32 (size + offset) > fileSize then u32 (fileSize - offset) else size.toNat : Nat) : Int) ≤ size ∧
      offset + (if u32 (size + offset) > fileSize then u32 (fileSize - offset) else size.toNat : Nat) ≤ fileSize := by
  unfold u32 at *
  split <;> omega

/-- What is read of a file lies in it. -/
theorem read_le {fs fs' : FAT12FS} {node : Fat12Inode} {out out' : ByteMap} {size offset r : Int}
    (h : fs.read (some node) out size offset = .ret (r, out', fs')) (hoffset : 0 ≤ offset) (hmax : offset < 2 ^ 31)
    (hsize : size < 2 ^ 31) (hr : 0 < r) : r ≤ size ∧ offset + r ≤ node.size := by
  rw [read] at h
  dsimp only at h
  have hclamp := @clamp_le size offset node.size hoffset hmax hsize
  generalize (if u32 (size + offset) > node.size then u32 (node.size - offset) else size.toNat) = asked at h hclamp
  split_ifs at h with hstart hend hneg hnone hspecial
  case neg =>
    have hle := readFrom_le h
    obtain ⟨hasked, hheld⟩ := hclamp (not_le.mp hnone) (not_le.mp hend)
    exact ⟨hle.trans hasked, le_trans (Int.add_le_add_left hle offset) hheld⟩
  all_goals
    cases h
    omega

theorem write_le {fs fs' : FAT12FS} {node : Fat12Inode} {src : ByteMap} {size offset r : Int}
    (h : fs.write (some node) src size offset = .ret (r, fs')) (hoffset : 0 ≤ offset) (hmax : offset < 2 ^ 31)
    (hsize : size < 2 ^ 31) (hr : 0 < r) : r ≤ size ∧ offset + r ≤ node.size := by
  rw [write] at h
  dsimp only at h
  have hclamp := @clamp_le size offset node.size hoffset hmax hsize
  generalize (if u32 (size + offset) > node.size then u32 (node.size - offset) else size.toNat) = asked at h hclamp
  split_ifs at h with hstart hend hneg hnone hspecial
  case neg =>
    have hle := writeFrom_le h
    obtain ⟨hasked, hheld⟩ := hclamp (not_le.mp hnone) (not_le.mp hend)
    exact ⟨hle.trans hasked, le_trans (Int.add_le_add_left hle offset) hheld⟩
  all_goals
    cases h
    omega

theorem fillLast_le {fs fs' : FAT12FS} {cluster used size filled left : Nat} {src : ByteMap}
    (h : fs.fillLast cluster used src size = .ret (filled, left, fs')) : filled + left ≤ size := by
  rw [fillLast] at h
  split at h
  · obtain ⟨⟨cache, fs₁⟩, -, h⟩ := Outcome.bind_eq_ret h
    cases cache with
    | none => cases h
    | some i =>
        obtain ⟨⟨res, fs₂⟩, -, h⟩ := Outcome.bind_eq_ret h
        obtain ⟨fs₃, -, h⟩ := Outcome.bind_eq_ret h
        cases h
        split <;> omega
  · cases h
    omega

theorem appendLoop_le {fs fs' : FAT12FS} {fuel cluster size appended r : Nat} {src : ByteMap}
    (h : fs.appendLoop fuel cluster src size appended = .ret (r, fs')) : r ≤ appended + size := by
  induction fuel generalizing fs cluster src size appended with
  | zero => cases h
  | succ fuel ih =>
      rw [appendLoop] at h
      split at h
      · obtain ⟨newCluster, -, h⟩ := Outcome.bind_eq_ret h
        dsimp only at h
        split at h
        · cases h
          omega
        · split at h
          · cases h
            omega
          · obtain ⟨⟨cache, fs₁⟩, -, h⟩ := Outcome.bind_eq_ret h
            cases cache with
            | none => cases h
            | some i =>
                obtain ⟨⟨res, fs₂⟩, -, h⟩ := Outcome.bind_eq_ret h
                obtain ⟨fs₃, -, h⟩ := Outcome.bind_eq_ret h
                dsimp only at h
                split at h
                · have hle := ih h
                  omega
                · cases h
                  omega
      · cases h
        omega

/-- The size of a file that bytes have been appended to. -/
def grown (size : Nat) (r : Int) : Nat := if 0 < r then (size + r.toNat) % 2 ^ 32 else size

theorem appendRest_size {fs fs' : FAT12FS} {node node' : Fat12Inode} {src : ByteMap} {size appended : Nat}
    (h : fs.appendRest node src size = .ret (appended, node', fs')) :
    appended ≤ size ∧ node'.size = grown node.size appended := by
  obtain ⟨cluster, filled, left, fs₁, fs₂, hfill, hloop, hend⟩ := appendRest_cases h
  have hfill := fillLast_le hfill
  have hloop := appendLoop_le hloop
  refine ⟨by omega, ?_⟩
  rcases hend with ⟨hpos, rfl, -⟩ | ⟨rfl, rfl, -⟩
  · rw [grown, if_pos (by omega), Int.toNat_natCast]
  · rw [grown, if_neg (by omega)]

/-- What `append` does to the size of the file. -/
theorem append_size {fs fs' : FAT12FS} {node : Fat12Inode} {node' : Option Fat12Inode} {src : ByteMap} {size r : Int}
    (h : fs.append (some node) src size = .ret (r, node', fs')) :
    (0 < r → r ≤ size) ∧ ∃ changed, node' = some changed ∧ changed.size = grown node.size r := by
  rcases append_cases h with ⟨hnone, rfl, -⟩ | ⟨started, fs₁, appended, changed, hpos, hstart, hrest, rfl, rfl⟩
  · exact ⟨by omega, node, rfl, by rw [grown, if_neg (by omega)]⟩
  · obtain ⟨hle, hsize⟩ := appendRest_size hrest
    refine ⟨by omega, changed, rfl, ?_⟩
    rw [hsize, appendStart_node hstart]

end SysuOs.FAT12FS

namespace SysuOs.Vfs

/-! ### Calls on files -/

/-- An `int` after an operation that may overflow. -/
def i32 (x : Int) : Int := Int.bmod x (2 ^ 32)

/-- The file manager and the volumes. -/
structure FileSys (n : Nat) where
  files : Files n
  volumes : Disks

/-- A call of a process on files. `typed` is what the keyboard gives. -/
inductive FileCall (n : Nat) where
  | open (process : Fin n) (cwd path : List Char)
  | close (process : Fin n) (fd : Int32)
  | read (process : Fin n) (fd : Int32) (buf : Option ByteMap) (size : Int32) (typed : Int)
  | write (process : Fin n) (fd : Int32) (buf : Option ByteMap) (size : Int32)
  | append (process : Fin n) (fd : Int32) (buf : Option ByteMap) (size : Int32)
  | fseek (process : Fin n) (fd bias whence : Int32)
  | fork (child parent : Fin n)

namespace FileSys

variable {n : Nat} (m : FileSys n)

def inode (node : Inode) : Fat12Inode := (m.volumes node.fat12_fs).inodepool.inodes node.place

def file (fd : Fd n) : File := m.files.fd_table fd

def setOffset (fd : Fd n) (offset : Int) : FileSys n := { m with files := m.files.setOffset fd offset }

/-- What a call on a volume leaves there. -/
def setFs (slot : Fin MAX_DISK_COUNT) (fs : FAT12FS) : FileSys n :=
  { m with volumes := Function.update m.volumes slot { m.volumes slot with fs } }

/-- An open file that nothing refers to any more is released, and its inode. -/
def release (i : Fin MAX_OPENFILE_COUNT) : FileSys n :=
  ⟨m.files.releaseOpenfile i, releaseOpenfileNode m.volumes (m.files.openfile_table i)⟩

def «open» (fs_table : FsTable) (process : Fin n) (cwd path : List Char) : SysuOs.Outcome (Int × FileSys n) := do
  let (file, _, files, volumes) ← lookupPath m.files fs_table m.volumes cwd path
  let m := FileSys.mk files volumes
  match file with
  | none => return (-1, m)
  | some i =>
    match files.freeFd process with
    | some fd =>
      let slot := (resolve fs_table cwd path).elim 0 Prod.fst
      return (fd.val, { m with files := (files.setFile (process, fd) ⟨some i, 0, .FILE, slot⟩).count i 1 })
    | none => return (-1, if (files.openfile_table i).refcount = 0 then m.release i else m)

def close (fd : Fd n) : Int × FileSys n :=
  match (m.file fd).type, (m.file fd).openfile with
  | .FILE, some i =>
    let cleared := { m.file fd with openfile := none, offset := 0, type := .EMPTY }
    let m := { m with files := (m.files.setFile fd cleared).count i (-1) }
    (0, if (m.files.openfile_table i).refcount ≤ 0 then m.release i else m)
  | _, _ => (-1, m)

/-- `read` and `write` of a file, past their checks; `act` is the call of the volume at the offset. A null node
is not read through. -/
def transfer (fd : Fd n) (act : FAT12FS → Option Fat12Inode → Int → SysuOs.Outcome (Int × FAT12FS)) :
    SysuOs.Outcome (Int × FileSys n) :=
  match (m.file fd).openfile with
  | none => return (-1, m)
  | some i =>
    match (m.files.openfile_table i).type with
    | .NONE => return (-1, m)
    | .FXT12 =>
      match (m.files.openfile_table i).node with
      | none => .halt
      | some node => do
        let offset := (m.file fd).offset
        let (ret, fs) ← act (m.volumes node.fat12_fs).fs (some (m.inode node)) offset
        let m := m.setFs node.fat12_fs fs
        return (ret, if 0 < ret then m.setOffset fd (i32 (offset + ret)) else m)

def read (fd : Fd n) (buf : Option ByteMap) (size typed : Int) : SysuOs.Outcome (Int × FileSys n) :=
  match buf with
  | none => return (-1, m)
  | some out =>
    if size ≤ 0 then return (-1, m)
    else
      match (m.file fd).type with
      | .STDIN => return (typed, m)
      | .FILE => m.transfer fd fun fs node offset => do
          let (ret, _, fs) ← fs.read node out size offset
          return (ret, fs)
      | _ => return (-1, m)

def write (fd : Fd n) (buf : Option ByteMap) (size : Int) : SysuOs.Outcome (Int × FileSys n) :=
  match buf with
  | none => return (-1, m)
  | some src =>
    if size ≤ 0 then return (-1, m)
    else
      match (m.file fd).type with
      | .STDOUT | .STDERR => return (size, m)
      | .FILE => m.transfer fd fun fs node offset => fs.write node src size offset
      | _ => return (-1, m)

def append (fd : Fd n) (buf : Option ByteMap) (size : Int) : SysuOs.Outcome (Int × FileSys n) :=
  match buf with
  | none => return (-1, m)
  | some src =>
    if fd.2.val ≤ 2 ∨ size ≤ 0 then return (-1, m)
    else
      match (m.file fd).type, (m.file fd).openfile with
      | .FILE, some i =>
        match (m.files.openfile_table i).type with
        | .NONE => return (-1, m)
        | .FXT12 =>
          match (m.files.openfile_table i).node with
          | none => .halt
          | some node => do
            let vol := m.volumes node.fat12_fs
            let (ret, changed, fs) ← vol.fs.append (some (m.inode node)) src size
            let m : FileSys n := { m with
              volumes := Function.update m.volumes node.fat12_fs ({ vol with fs }.setNode (some node.place) changed) }
            -- the size becomes an `int`
            return (ret, if 0 < ret then m.setOffset fd (i32 (m.inode node).size) else m)
      | _, _ => return (-1, m)

/-- What `fseek` counts from. -/
def base (file : File) (file_size whence : Int) : Option Int :=
  if whence = 0 then some 0 else if whence = 1 then some file.offset else if whence = 2 then some file_size else none

def fseek (fd : Fd n) (bias whence : Int) : SysuOs.Outcome (Int × FileSys n) :=
  match (m.file fd).openfile with
  | none => return (-1, m)
  | some i =>
    match (m.files.openfile_table i).type with
    | .NONE => return (-1, m)
    | .FXT12 =>
      match (m.files.openfile_table i).node with
      | none => .halt
      | some node =>
        let file_size := i32 (m.inode node).size
        match base (m.file fd) file_size whence with
        | none => return (-1, m)
        | some start =>
          let next_offset := i32 (start + bias)
          if next_offset < 0 ∨ next_offset > file_size then return (-1, m)
          else return (next_offset, m.setOffset fd next_offset)

/-- What a call returns, and what it leaves. -/
def call (fs_table : FsTable) : FileCall n → SysuOs.Outcome (Int × FileSys n)
  | .open process cwd path => m.open fs_table process cwd path
  | .close process fd =>
    match fdOf fd.toInt with
    | none => return (-1, m)
    | some fd => return m.close (process, fd)
  | .read process fd buf size typed =>
    match fdOf fd.toInt with
    | none => return (-1, m)
    | some fd => m.read (process, fd) buf size.toInt typed
  | .write process fd buf size =>
    match fdOf fd.toInt with
    | none => return (-1, m)
    | some fd => m.write (process, fd) buf size.toInt
  | .append process fd buf size =>
    match fdOf fd.toInt with
    | none => return (-1, m)
    | some fd => m.append (process, fd) buf size.toInt
  | .fseek process fd bias whence =>
    match fdOf fd.toInt with
    | none => return (-1, m)
    | some fd => m.fseek (process, fd) bias.toInt whence.toInt
  | .fork child parent => return (0, { m with files := m.files.forkProcessFs child parent })

end FileSys

/-! ### What the calls keep -/

theorem i32_eq {x : Int} (hpos : 0 ≤ x) (hmax : x < 2 ^ 31) : i32 x = x := by
  unfold i32
  rw [Int.bmod_def]
  omega

/-- An overflow of a sum of an offset shows: it is negative. -/
theorem i32_exact {x : Int} (hmin : -2 ^ 31 ≤ x) (hmax : x < 2 ^ 32) (hpos : 0 ≤ i32 x) : i32 x = x := by
  unfold i32 at *
  rw [Int.bmod_def] at *
  omega

theorem i32_natCast {k : Nat} (hpos : 0 ≤ i32 k) : i32 k = (k % 2 ^ 32 : Nat) := by
  unfold i32 at *
  rw [Int.bmod_def] at *
  omega

theorem i32_natCast_le (k : Nat) : i32 k ≤ k := by
  unfold i32
  rw [Int.bmod_def]
  omega

theorem i32_lt (x : Int) : i32 x < 2 ^ 31 := by
  unfold i32
  rw [Int.bmod_def]
  omega

namespace FileSys

variable {n : Nat} {m m' : FileSys n}

/-- The offset of a file is an `int`, and lies in what is behind it. -/
def Within (m : FileSys n) (file : File) : Prop :=
  0 ≤ file.offset ∧ file.offset < 2 ^ 31 ∧
    ∀ i ∈ file.openfile, ∀ node ∈ (m.files.openfile_table i).node, file.offset ≤ (m.inode node).size

structure Valid (m : FileSys n) : Prop where
  backed : BackedBy (fun _ _ => True) m.files
  pools : Pools m.files m.volumes
  within : ∀ fd, m.Within (m.file fd)

/-- The entries in use keep their inodes, and these do not shrink. -/
def Frame (m m' : FileSys n) : Prop :=
  ∀ i, m.files.openfile_map i = true → ∀ node ∈ (m'.files.openfile_table i).node,
    (m.files.openfile_table i).node = some node ∧ (m.inode node).size ≤ (m'.inode node).size

theorem within_zero (m : FileSys n) {file : File} (hzero : file.offset = 0) : m.Within file := by
  refine ⟨by omega, by omega, ?_⟩
  intro i _ node _
  omega

theorem Within.frame {file : File} (h : m.Within file) (hframe : Frame m m')
    (hin : ∀ i ∈ file.openfile, m.files.openfile_map i = true) : m'.Within file := by
  refine ⟨h.1, h.2.1, ?_⟩
  intro i hi node hnode
  obtain ⟨hsame, hle⟩ := hframe i (hin i hi) node hnode
  have hoffset := h.2.2 i hi node hsame
  omega

namespace Valid

theorem used (h : Valid m) (fd : Fd n) : ∀ i ∈ (m.file fd).openfile, m.files.openfile_map i = true :=
  fun i hi => (h.backed.file fd i hi).2.1

/-- A descriptor is given another file. -/
theorem assign (h : Valid m) {files : Files n} {fd : Fd n} {file : File} (hback : BackedBy (fun _ _ => True) files)
    (hfd : files.fd_table = Function.update m.files.fd_table fd file)
    (hmap : files.openfile_map = m.files.openfile_map)
    (hnode : ∀ i, (files.openfile_table i).node = (m.files.openfile_table i).node)
    (hfile : m.Within file) : Valid { m with files } := by
  have hwithin : ∀ file, m.Within file → FileSys.Within { m with files } file := by
    rintro file ⟨hpos, hmax, hsize⟩
    refine ⟨hpos, hmax, ?_⟩
    intro i hi node hin
    exact hsize i hi node (hnode i ▸ hin)
  refine ⟨hback, h.pools.congr (holders_congr hmap hnode), ?_⟩
  intro k
  apply hwithin
  show m.Within (files.fd_table k)
  rw [hfd]
  by_cases hk : k = fd
  · rw [hk, Function.update_self]
    exact hfile
  · rw [Function.update_of_ne hk]
    exact h.within k

theorem setOffset (h : Valid m) {fd : Fd n} {offset : Int} (hfile : m.Within { m.file fd with offset }) :
    Valid (m.setOffset fd offset) :=
  h.assign (h.backed.setOffset fd offset) rfl rfl (fun _ => rfl) hfile

/-- Only the volumes are changed. -/
theorem setVolumes (h : Valid m) {volumes : Disks} (hpools : Pools m.files volumes)
    (hframe : Frame m { m with volumes }) : Valid { m with volumes } where
  backed := h.backed
  pools := hpools
  within fd := (h.within fd).frame hframe (h.used fd)

theorem setFs (h : Valid m) (slot : Fin MAX_DISK_COUNT) (fs : FAT12FS) : Valid (m.setFs slot fs) := by
  have hpool : ∀ other, ((Function.update m.volumes slot { m.volumes slot with fs }) other).inodepool =
      (m.volumes other).inodepool := by
    intro other
    by_cases hother : other = slot
    · subst hother
      rw [Function.update_self]
    · rw [Function.update_of_ne hother]
  refine h.setVolumes ?_ ?_
  · intro other
    rw [hpool]
    exact h.pools other
  · intro i _ node hnode
    refine ⟨hnode, le_of_eq ?_⟩
    unfold inode
    rw [hpool]

theorem release (h : Valid m) {i : Fin MAX_OPENFILE_COUNT} (hmap : m.files.openfile_map i = true)
    (hcount : (m.files.openfile_table i).refcount ≤ 0) : Valid (m.release i) where
  backed := h.backed.release hcount
  pools := h.pools.releaseOpenfile hmap
  within fd := by
    refine Within.frame (h.within fd) ?_ (h.used fd)
    intro j _ node hnode
    have hne : j ≠ i := by
      rintro rfl
      simp only [FileSys.release, Files.releaseOpenfile, Function.update_self, OpenFile.zero] at hnode
      cases hnode
    simp only [FileSys.release, Files.releaseOpenfile, Function.update_of_ne hne] at hnode
    refine ⟨hnode, le_of_eq ?_⟩
    unfold inode FileSys.release
    rw [releaseOpenfileNode_inodes]

end Valid

/-- Where the inodes of the entries in use have the sizes they had. -/
theorem frame_of_sizes {files : Files n} {volumes : Disks}
    (hnode : ∀ i, m.files.openfile_map i = true → (files.openfile_table i).node = (m.files.openfile_table i).node)
    (hsizes : SizesKept m.files m.volumes volumes) : Frame m ⟨files, volumes⟩ := by
  intro i hi node hnew
  have hold : (m.files.openfile_table i).node = some node := (hnode i hi).symm.trans hnew
  exact ⟨hold, le_of_eq (hsizes node.fat12_fs node.place (holders_pos hi hold)).symm⟩

/-- A descriptor has an inode open. -/
def Opens (m : FileSys n) (fd : Fd n) (node : Inode) : Prop :=
  ∃ i, (m.file fd).openfile = some i ∧ (m.files.openfile_table i).node = some node

namespace Valid

theorem «open» (h : Valid m) {fs_table : FsTable} {process : Fin n} {cwd path : List Char} {r : Int}
    (hcall : m.open fs_table process cwd path = .ret (r, m')) : Valid m' := by
  rw [FileSys.open] at hcall
  obtain ⟨⟨file, visits, files, volumes⟩, hlookup, hcall⟩ := Outcome.bind_eq_ret hcall
  obtain ⟨hpools, hsizes, henter⟩ := lookupPath_pools h.pools hlookup
  have hfound : Valid ⟨files, volumes⟩ ∧ ∀ i ∈ file, files.openfile_map i = true := by
    rcases henter with ⟨rfl, rfl⟩ | ⟨i, node, rfl, henter⟩
    · exact ⟨h.setVolumes hpools (frame_of_sizes (fun _ _ => rfl) hsizes), nofun⟩
    · obtain ⟨hback, hfds, hmap, -⟩ := h.backed.enter henter
      obtain ⟨-, -, hnodes⟩ := holders_enter henter
      refine ⟨⟨hback, hpools, ?_⟩, ?_⟩
      · intro fd
        have hfd : FileSys.file ⟨files, volumes⟩ fd = m.file fd := congrFun hfds fd
        rw [hfd]
        exact (h.within fd).frame (frame_of_sizes hnodes hsizes) (h.used fd)
      · rintro _ ⟨⟩
        exact hmap
  obtain ⟨hvalid, hmap⟩ := hfound
  cases file with
  | none =>
      cases hcall
      exact hvalid
  | some i =>
      dsimp only at hcall
      split at hcall
      · rename_i fd _
        cases hcall
        exact hvalid.assign (hvalid.backed.setFile_count (process, fd) rfl ⟨rfl, hmap i rfl, trivial⟩) rfl rfl
          (count_node files _ _ i · 1) (within_zero _ rfl)
      · cases hcall
        split
        · rename_i hlast
          exact hvalid.release (hmap i rfl) (le_of_eq hlast)
        · exact hvalid

theorem close (h : Valid m) (fd : Fd n) : Valid (m.close fd).2 := by
  unfold FileSys.close
  dsimp only
  split
  · rename_i i _ hopen
    have hcleared := h.assign (h.backed.drop hopen) rfl rfl (count_node m.files _ _ i · (-1)) (within_zero m rfl)
    split
    · rename_i hlast
      exact hcleared.release (h.used fd i hopen) hlast
    · exact hcleared
  · exact h

theorem fork (h : Valid m) (child parent : Fin n) :
    Valid { m with files := m.files.forkProcessFs child parent } := by
  unfold Files.forkProcessFs
  apply List.foldlRecOn (motive := fun files => Valid { m with files }) _ _ h
  intro t ht fd _
  have hfds : (t.forkFd child parent fd).fd_table =
      Function.update t.fd_table (child, fd) (t.fd_table (parent, fd)) := by
    unfold Files.forkFd
    dsimp only
    split <;> rfl
  have hmap : (t.forkFd child parent fd).openfile_map = t.openfile_map := by
    unfold Files.forkFd
    dsimp only
    split <;> rfl
  have hnode : ∀ i, ((t.forkFd child parent fd).openfile_table i).node = (t.openfile_table i).node := by
    intro i
    unfold Files.forkFd
    dsimp only
    split
    · exact count_node t _ _ _ i 1
    · rfl
  exact ht.assign (ht.backed.forkFd child parent fd) hfds hmap hnode (ht.within (parent, fd))

/-- A transfer moves the offset by what it returns, and not beyond the end. -/
theorem transfer (h : Valid m) {fd : Fd n} {size r : Int}
    {act : FAT12FS → Option Fat12Inode → Int → SysuOs.Outcome (Int × FAT12FS)}
    (hact : ∀ fs node offset ret fs', act fs (some node) offset = .ret (ret, fs') → 0 ≤ offset → offset < 2 ^ 31 →
      0 < ret → ret ≤ size ∧ offset + ret ≤ node.size)
    (hfits : ∀ node, m.Opens fd node → min ((m.file fd).offset + size) (m.inode node).size < 2 ^ 31)
    (hcall : m.transfer fd act = .ret (r, m')) :
    Valid m' ∧ (0 < r → (m'.file fd).offset = (m.file fd).offset + r) := by
  obtain ⟨hpos, hmax, hsize⟩ := h.within fd
  rw [FileSys.transfer] at hcall
  split at hcall
  · cases hcall
    exact ⟨h, by omega⟩
  · rename_i i hopen
    split at hcall
    · cases hcall
      exact ⟨h, by omega⟩
    · split at hcall
      · cases hcall
      · rename_i node hnode
        obtain ⟨⟨ret, fs⟩, hret, hcall⟩ := Outcome.bind_eq_ret hcall
        have hset := h.setFs node.fat12_fs fs
        dsimp only at hcall
        split at hcall
        · rename_i hmoved
          cases hcall
          obtain ⟨hasked, hheld⟩ := hact _ _ _ _ _ hret hpos hmax hmoved
          have hfit := hfits node ⟨i, hopen, hnode⟩
          have hnext : i32 ((m.file fd).offset + r) = (m.file fd).offset + r := i32_eq (by omega) (by omega)
          have hfile : (m.setFs node.fat12_fs fs).inode node = m.inode node := by
            unfold inode FileSys.setFs
            dsimp only
            rw [Function.update_self]
          refine ⟨hset.setOffset ⟨?_, i32_lt _, ?_⟩, ?_⟩
          · show 0 ≤ i32 ((m.file fd).offset + r)
            omega
          · intro j hj node' hnode'
            obtain rfl : i = j := Option.some.inj (hopen.symm.trans hj)
            obtain rfl : node = node' := Option.some.inj (hnode.symm.trans hnode')
            rw [hfile]
            show i32 ((m.file fd).offset + r) ≤ _
            omega
          · intro _
            show (Function.update m.files.fd_table fd _ fd).offset = _
            rw [Function.update_self]
            exact hnext
        · rename_i hstays
          cases hcall
          exact ⟨hset, fun hr => absurd hr hstays⟩

theorem read (h : Valid m) {fd : Fd n} {buf : Option ByteMap} {size : Int32} {typed r : Int}
    (hfits : ∀ node, m.Opens fd node → min ((m.file fd).offset + size.toInt) (m.inode node).size < 2 ^ 31)
    (hcall : m.read fd buf size.toInt typed = .ret (r, m')) :
    Valid m' ∧ (0 < r → (m.file fd).type = .FILE → (m'.file fd).offset = (m.file fd).offset + r) := by
  cases buf with
  | none =>
      cases hcall
      exact ⟨h, by omega⟩
  | some out =>
      rw [FileSys.read] at hcall
      split at hcall
      · cases hcall
        exact ⟨h, by omega⟩
      · split at hcall
        · rename_i htype
          cases hcall
          exact ⟨h, fun _ hfile => by rw [htype] at hfile; cases hfile⟩
        · have hread : ∀ (fs : FAT12FS) (node : Fat12Inode) (offset ret : Int) (fs' : FAT12FS),
              (fs.read (some node) out size.toInt offset >>= fun x => .ret (x.1, x.2.2)) = .ret (ret, fs') →
              0 ≤ offset → offset < 2 ^ 31 → 0 < ret → ret ≤ size.toInt ∧ offset + ret ≤ node.size := by
            intro fs node offset ret fs' hret hpos hmax hmoved
            obtain ⟨⟨ret', out', fs₁⟩, hread, hret⟩ := Outcome.bind_eq_ret hret
            cases hret
            exact FAT12FS.read_le hread hpos hmax size.toInt_lt hmoved
          obtain ⟨hvalid, hmoves⟩ := h.transfer hread hfits hcall
          exact ⟨hvalid, fun hr _ => hmoves hr⟩
        · cases hcall
          exact ⟨h, by omega⟩

theorem write (h : Valid m) {fd : Fd n} {buf : Option ByteMap} {size : Int32} {r : Int}
    (hfits : ∀ node, m.Opens fd node → min ((m.file fd).offset + size.toInt) (m.inode node).size < 2 ^ 31)
    (hcall : m.write fd buf size.toInt = .ret (r, m')) :
    Valid m' ∧ (0 < r → (m.file fd).type = .FILE → (m'.file fd).offset = (m.file fd).offset + r) := by
  cases buf with
  | none =>
      cases hcall
      exact ⟨h, by omega⟩
  | some src =>
      rw [FileSys.write] at hcall
      split at hcall
      · cases hcall
        exact ⟨h, by omega⟩
      · split at hcall
        · rename_i htype
          cases hcall
          exact ⟨h, fun _ hfile => by rw [htype] at hfile; cases hfile⟩
        · rename_i htype
          cases hcall
          exact ⟨h, fun _ hfile => by rw [htype] at hfile; cases hfile⟩
        · obtain ⟨hvalid, hmoves⟩ := h.transfer
            (fun fs node offset ret fs' hret hpos hmax hmoved => FAT12FS.write_le hret hpos hmax size.toInt_lt hmoved)
            hfits hcall
          exact ⟨hvalid, fun hr _ => hmoves hr⟩
        · cases hcall
          exact ⟨h, by omega⟩

/-- An inode is changed by a call on it, and does not shrink. -/
theorem setNode (h : Valid m) {node : Inode} {changed : Fat12Inode} (fs : FAT12FS)
    (hle : (m.inode node).size ≤ changed.size) :
    Valid ⟨m.files, Function.update m.volumes node.fat12_fs
      ({ m.volumes node.fat12_fs with fs }.setNode (some node.place) (some changed))⟩ := by
  refine h.setVolumes ?_ ?_
  · refine Pools.update h.pools (fun _ _ _ => le_refl _) ?_
    exact ⟨(h.pools node.fat12_fs).counted, (h.pools node.fat12_fs).used⟩
  · intro i _ other hother
    refine ⟨hother, ?_⟩
    unfold inode
    dsimp only
    by_cases hslot : other.fat12_fs = node.fat12_fs
    · rw [hslot, Function.update_self, FatVolume.setNode]
      dsimp only
      by_cases hplace : other.place = node.place
      · rw [hplace, Function.update_self]
        exact hle
      · rw [Function.update_of_ne hplace]
    · rw [Function.update_of_ne hslot]

theorem append (h : Valid m) {fd : Fd n} {buf : Option ByteMap} {size r : Int}
    (hfits : ∀ node, m.Opens fd node → (m.inode node).size + size < 2 ^ 31)
    (hcall : m.append fd buf size = .ret (r, m')) : Valid m' := by
  cases buf with
  | none =>
      cases hcall
      exact h
  | some src =>
      rw [FileSys.append] at hcall
      split at hcall
      · cases hcall
        exact h
      · split at hcall
        · rename_i i _ hopen
          split at hcall
          · cases hcall
            exact h
          · split at hcall
            · cases hcall
            · rename_i node hnode
              obtain ⟨⟨ret, changed, fs⟩, happend, hcall⟩ := Outcome.bind_eq_ret hcall
              obtain ⟨hasked, changed, rfl, hsize⟩ := FAT12FS.append_size happend
              have hfit := hfits node ⟨i, hopen, hnode⟩
              have hle : (m.inode node).size ≤ changed.size := by
                rw [hsize, FAT12FS.grown]
                split <;> omega
              have hset := h.setNode fs hle
              have hnew : FileSys.inode ⟨m.files, Function.update m.volumes node.fat12_fs
                  ({ m.volumes node.fat12_fs with fs }.setNode (some node.place) (some changed))⟩ node = changed := by
                unfold inode
                dsimp only
                rw [Function.update_self, FatVolume.setNode]
                exact Function.update_self ..
              dsimp only at hcall
              split at hcall
              · rename_i hmoved
                have hasked := hasked hmoved
                have hgrown : (changed.size : Int) < 2 ^ 31 := by
                  rw [hsize, FAT12FS.grown, if_pos hmoved]
                  omega
                have hend : i32 changed.size = changed.size := i32_eq (by omega) hgrown
                rw [hnew, hend] at hcall
                cases hcall
                refine hset.setOffset ⟨Int.natCast_nonneg _, hgrown, ?_⟩
                intro j hj node' hnode'
                obtain rfl : i = j := Option.some.inj (hopen.symm.trans hj)
                obtain rfl : node = node' := Option.some.inj (hnode.symm.trans hnode')
                rw [hnew]
              · cases hcall
                exact hset
        · cases hcall
          exact h

theorem fseek (h : Valid m) {fd : Fd n} {bias : Int32} {whence r : Int}
    (hcall : m.fseek fd bias.toInt whence = .ret (r, m')) :
    Valid m' ∧ ((r = -1 ∧ m' = m) ∨ ∃ node start, m.Opens fd node ∧
      base (m.file fd) ((m.inode node).size % 2 ^ 32 : Nat) whence = some start ∧ r = start + bias.toInt ∧
      m' = m.setOffset fd r) := by
  obtain ⟨hpos, hmax, hsize⟩ := h.within fd
  rw [FileSys.fseek] at hcall
  split at hcall
  · cases hcall
    exact ⟨h, Or.inl ⟨rfl, rfl⟩⟩
  · rename_i i hopen
    split at hcall
    · cases hcall
      exact ⟨h, Or.inl ⟨rfl, rfl⟩⟩
    · split at hcall
      · cases hcall
      · rename_i node hnode
        dsimp only at hcall
        split at hcall
        · cases hcall
          exact ⟨h, Or.inl ⟨rfl, rfl⟩⟩
        · rename_i start hbase
          split at hcall
          · cases hcall
            exact ⟨h, Or.inl ⟨rfl, rfl⟩⟩
          · rename_i hin
            cases hcall
            obtain ⟨hnext, hend⟩ := not_or.mp hin
            have hnext := not_lt.mp hnext
            have hend := not_lt.mp hend
            have hfile := i32_natCast (hnext.trans hend)
            have hle := i32_natCast_le (m.inode node).size
            have hmin := bias.le_toInt
            have hbias := bias.toInt_lt
            have hstart : 0 ≤ start ∧ start < 2 ^ 31 := by
              unfold base at hbase
              split_ifs at hbase
              · cases hbase
                omega
              · cases hbase
                omega
              · rw [← Option.some.inj hbase]
                exact ⟨hnext.trans hend, i32_lt _⟩
            have hexact := i32_exact (by omega) (by omega) hnext
            refine ⟨h.setOffset ⟨hnext, i32_lt _, ?_⟩, Or.inr ⟨node, start, ⟨i, hopen, hnode⟩, ?_, hexact, rfl⟩⟩
            · intro j hj node' hnode'
              obtain rfl : i = j := Option.some.inj (hopen.symm.trans hj)
              obtain rfl : node = node' := Option.some.inj (hnode.symm.trans hnode')
              exact hend.trans hle
            · rw [← hfile]
              exact hbase

end Valid

/-- Descriptors of files are at offsets in range. -/
def InRange (m : FileSys n) : Prop :=
  ∀ fd node, (m.file fd).type = .FILE → m.Opens fd node →
    0 ≤ (m.file fd).offset ∧ (m.file fd).offset ≤ (m.inode node).size

theorem Valid.inRange (h : Valid m) : m.InRange := by
  rintro fd node - ⟨i, hopen, hnode⟩
  obtain ⟨hpos, -, hsize⟩ := h.within fd
  exact ⟨hpos, hsize i hopen node hnode⟩

/-- Nothing is open yet. -/
structure Fresh (m : FileSys n) : Prop where
  descriptors : ∀ fd, (m.file fd).openfile = none ∧ (m.file fd).offset = 0
  openfiles : ∀ i, m.files.openfile_map i = false ∧ (m.files.openfile_table i).refcount = 0
  inodes : ∀ slot place, (m.volumes slot).inodepool.bitmap place = false

theorem Fresh.valid (h : Fresh m) : Valid m where
  backed := by
    refine ⟨?_, ?_⟩
    · intro fd i hopen
      have hnone := (h.descriptors fd).1
      unfold file at hnone
      rw [hnone] at hopen
      cases hopen
    · intro i
      rw [refs_eq_zero, (h.openfiles i).2]
      intro fd hopen
      have hnone := (h.descriptors fd).1
      unfold file at hnone
      rw [hnone] at hopen
      cases hopen
  pools := by
    intro slot
    have hzero : ∀ place, m.files.holders slot place = 0 := by
      intro place
      apply Finset.sum_eq_zero
      intro i _
      exact if_neg (by simp [(h.openfiles i).1])
    refine ⟨?_, ?_⟩
    · intro place
      rw [hzero]
      exact Nat.zero_le _
    · intro place hpos
      rw [hzero] at hpos
      cases hpos
  within fd := within_zero m (h.descriptors fd).2

/-- Calls one after the other, of any processes, each made in a state where `C` holds of it. -/
inductive Run (fs_table : FsTable) (C : FileSys n → FileCall n → Prop) (m : FileSys n) : FileSys n → Prop
  | start : Run fs_table C m m
  | call {m' m'' : FileSys n} {c : FileCall n} {r : Int} (hrun : Run fs_table C m m') (hc : C m' c)
      (hcall : m'.call fs_table c = .ret (r, m'')) : Run fs_table C m m''

end FileSys

namespace FileCall

variable {n : Nat} {m m' : FileSys n} {fs_table : FsTable}

/-- The offset that a call could move a descriptor to is an `int`. -/
def Fits (m : FileSys n) : FileCall n → Prop
  | .read process fd _ size _ | .write process fd _ size =>
    ∀ k node, fdOf fd.toInt = some k → m.Opens (process, k) node →
      min ((m.file (process, k)).offset + size.toInt) (m.inode node).size < 2 ^ 31
  | .append process fd _ size =>
    ∀ k node, fdOf fd.toInt = some k → m.Opens (process, k) node → (m.inode node).size + size.toInt < 2 ^ 31
  | _ => True

/-- What a call has done to the offset: `fseek` failed and changed nothing, or made it what it counted, exactly;
a `read` or `write` of a file moved it by what it returned. -/
def Did (m : FileSys n) (c : FileCall n) (r : Int) (m' : FileSys n) : Prop :=
  match c with
  | .fseek process fd bias whence =>
    (r = -1 ∧ m' = m) ∨ ∃ k node start, fdOf fd.toInt = some k ∧ m.Opens (process, k) node ∧
      FileSys.base (m.file (process, k)) ((m.inode node).size % 2 ^ 32 : Nat) whence.toInt = some start ∧
      r = start + bias.toInt ∧ m' = m.setOffset (process, k) r
  | .read process fd _ _ _ | .write process fd _ _ =>
    0 < r → ∀ k, fdOf fd.toInt = some k → (m.file (process, k)).type = .FILE →
      (m'.file (process, k)).offset = (m.file (process, k)).offset + r
  | _ => True

/-- A call that fits keeps the offsets in range. -/
theorem call_spec (h : m.Valid) {c : FileCall n} (hfits : c.Fits m) {r : Int}
    (hcall : m.call fs_table c = .ret (r, m')) : m'.Valid ∧ c.Did m r m' := by
  cases c with
  | «open» process cwd path => exact ⟨h.open hcall, trivial⟩
  | close process fd =>
      rw [FileSys.call] at hcall
      split at hcall
      · cases hcall
        exact ⟨h, trivial⟩
      · rename_i k _
        have hm : (m.close (process, k)).2 = m' := congrArg Prod.snd (Outcome.ret.inj hcall)
        rw [← hm]
        exact ⟨h.close (process, k), trivial⟩
  | read process fd buf size typed =>
      rw [FileSys.call] at hcall
      split at hcall
      · cases hcall
        exact ⟨h, fun hr => absurd hr (by decide)⟩
      · rename_i k hk
        obtain ⟨hvalid, hmoves⟩ := h.read (fun node => hfits k node hk) hcall
        refine ⟨hvalid, fun hr k' hk' htype => ?_⟩
        obtain rfl : k = k' := Option.some.inj (hk.symm.trans hk')
        exact hmoves hr htype
  | write process fd buf size =>
      rw [FileSys.call] at hcall
      split at hcall
      · cases hcall
        exact ⟨h, fun hr => absurd hr (by decide)⟩
      · rename_i k hk
        obtain ⟨hvalid, hmoves⟩ := h.write (fun node => hfits k node hk) hcall
        refine ⟨hvalid, fun hr k' hk' htype => ?_⟩
        obtain rfl : k = k' := Option.some.inj (hk.symm.trans hk')
        exact hmoves hr htype
  | append process fd buf size =>
      rw [FileSys.call] at hcall
      split at hcall
      · cases hcall
        exact ⟨h, trivial⟩
      · rename_i k hk
        exact ⟨h.append (fun node => hfits k node hk) hcall, trivial⟩
  | fseek process fd bias whence =>
      rw [FileSys.call] at hcall
      split at hcall
      · cases hcall
        exact ⟨h, Or.inl ⟨rfl, rfl⟩⟩
      · rename_i k hk
        obtain ⟨hvalid, hfailed | ⟨node, start, hopens, hbase, hr, hm⟩⟩ := h.fseek hcall
        · exact ⟨hvalid, Or.inl hfailed⟩
        · exact ⟨hvalid, Or.inr ⟨k, node, start, hk, hopens, hbase, hr, hm⟩⟩
  | fork child parent =>
      cases hcall
      exact ⟨h.fork child parent, trivial⟩

end FileCall

/-- Over every run whose calls fit, of any processes, the offsets are in range, `fseek` fails or is exact, and a
`read` or `write` moves the offset by what it returns. -/
theorem offsets_inRange {n : Nat} {fs_table : FsTable} {start m : FileSys n} (hstart : start.Fresh)
    (hrun : FileSys.Run fs_table (fun m c => c.Fits m) start m) :
    m.InRange ∧ ∀ c : FileCall n, c.Fits m → ∀ r m', m.call fs_table c = .ret (r, m') → c.Did m r m' := by
  have hvalid : m.Valid := by
    induction hrun with
    | start => exact hstart.valid
    | call hrun hfits hcall ih => exact (FileCall.call_spec ih hfits hcall).1
  exact ⟨hvalid.inRange, fun c hfits r m' hcall => (FileCall.call_spec hvalid hfits hcall).2⟩

/-! ### The largest file -/

/-- Volumes whose root directories have a file `a` with the given size. -/
def withSize (size : Nat) : FileSys 1 where
  files := Files.boot 1
  volumes := fun slot => { entryInFile with
    fs := { entryInFile.fs with
      this := fat12FromSlot slot
      rootDir := fun idx => { entryInFile.fs.rootDir idx with fileSize := size } } }

theorem withSize_fresh (size : Nat) : (withSize size).Fresh :=
  ⟨fun _ => ⟨rfl, rfl⟩, fun _ => ⟨rfl, rfl⟩, fun _ _ => rfl⟩

def openA : FileCall 1 := .open 0 [] ['/', 'a']

def appendA : FileCall 1 := .append 0 3 (some fun _ => 0) 1

/-- The third descriptor is of an inode, at this offset. -/
def At (m : FileSys 1) (offset : Int) : Prop :=
  (m.file (0, ⟨3, by decide⟩)).type = .FILE ∧ (m.file (0, ⟨3, by decide⟩)).offset = offset ∧
    ((m.file (0, ⟨3, by decide⟩)).openfile.bind fun i => (m.files.openfile_table i).node).isSome

instance (m : FileSys 1) (offset : Int) : Decidable (At m offset) := inferInstanceAs (Decidable (_ ∧ _ ∧ _))

/-- What is left where the file `a` is opened and a byte is appended to it. -/
def openAppend (size : Nat) : SysuOs.Outcome (Int × FileSys 1) :=
  (withSize size).call rootOnly openA >>= fun r => r.2.call rootOnly appendA

/-- Whether a call returns and leaves the descriptor at this offset. -/
def endsAt (o : SysuOs.Outcome (Int × FileSys 1)) (offset : Int) : Bool :=
  match o with
  | .ret r => At r.2 offset
  | _ => false

theorem endsAt_ret {o : SysuOs.Outcome (Int × FileSys 1)} {offset : Int} (h : endsAt o offset = true) :
    ∃ r m, o = .ret (r, m) ∧ At m offset := by
  cases o with
  | ret r => exact ⟨r.1, r.2, rfl, of_decide_eq_true h⟩
  | halt => cases h
  | diverge => cases h

theorem offsets_inRange_openA : ∃ r m, (withSize 32).call rootOnly openA = .ret (r, m) ∧ At m 0 ∧ m.InRange := by
  have hends : endsAt ((withSize 32).call rootOnly openA) 0 = true := by decide +kernel
  obtain ⟨r, m, hcall, hat⟩ := endsAt_ret hends
  have hfits : openA.Fits (withSize 32) := trivial
  exact ⟨r, m, hcall, hat, (offsets_inRange (withSize_fresh 32) (.call .start hfits hcall)).1⟩

/-- A byte is appended to a file of 2^31 - 1 bytes. -/
theorem not_offsets_inRange : ¬ ∀ (fs_table : FsTable) (start m : FileSys 1), start.Fresh →
    FileSys.Run fs_table (fun _ _ => True) start m → m.InRange := by
  intro hall
  have hends : endsAt (openAppend 2147483647) (-2147483648) = true := by decide +kernel
  obtain ⟨r, m, happend, htype, hoffset, hopens⟩ := endsAt_ret hends
  obtain ⟨⟨r₁, m₁⟩, hopen, happend⟩ := Outcome.bind_eq_ret happend
  obtain ⟨node, hopens⟩ := Option.isSome_iff_exists.mp hopens
  obtain ⟨i, hfile, hnode⟩ := Option.bind_eq_some_iff.mp hopens
  have hrange := hall rootOnly (withSize 2147483647) m (withSize_fresh _)
    (.call (.call .start trivial hopen) trivial happend) _ node htype ⟨i, hfile, hnode⟩
  omega

end SysuOs.Vfs
