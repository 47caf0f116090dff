import SysuOs.FatStore
import SysuOs.VfsProcesses

/-! The open files as strings of bytes. Beside the volumes, with their chains, cache and directory entries,
stands a store that has for each open file its bytes and for each descriptor what it refers to and an offset
there. Calls of any processes, one after the other, do on the volumes what they do on the store. -/

namespace SysuOs.Vfs

open FileStore FAT12FS

/-! ### Calls with what they put into the buffer -/

namespace FileSys

variable {n : Nat} (m : FileSys n)

/-- `read` of a file, past its checks, with what it leaves in the buffer. -/
def transferInto (fd : Fd n)
    (act : FAT12FS → Option Fat12Inode → Int → SysuOs.Outcome (Int × ByteMap × FAT12FS)) :
    SysuOs.Outcome (Int × Option ByteMap × FileSys n) :=
  match (m.file fd).openfile with
  | none => return (-1, none, m)
  | some i =>
    match (m.files.openfile_table i).type with
    | .NONE => return (-1, none, m)
    | .FXT12 =>
      match (m.files.openfile_table i).node with
      | none => .halt
      | some node => do
        let offset := (m.file fd).offset
        let (ret, out, fs) ← act (m.volumes node.fat12_fs).fs (some (m.inode node)) offset
        let m := m.setFs node.fat12_fs fs
        return (ret, some out, if 0 < ret then m.setOffset fd (i32 (offset + ret)) else m)

/-- `read`, with the buffer it has put bytes of a file into. -/
def readInto (fd : Fd n) (buf : Option ByteMap) (size typed : Int) :
    SysuOs.Outcome (Int × Option ByteMap × FileSys n) :=
  match buf with
  | none => return (-1, none, m)
  | some out =>
    if size ≤ 0 then return (-1, none, m)
    else
      match (m.file fd).type with
      | .STDIN => return (typed, none, m)
      | .FILE => m.transferInto fd fun fs node offset => fs.read node out size offset
      | _ => return (-1, none, m)

/-- A call, with the buffer it has put bytes of a file into. -/
def callInto (fs_table : FsTable) (c : FileCall n) : SysuOs.Outcome (Int × Option ByteMap × FileSys n) :=
  match c with
  | .read process fd buf size typed =>
    match fdOf fd.toInt with
    | none => return (-1, none, m)
    | some fd => m.readInto (process, fd) buf size.toInt typed
  | c => do
    let (ret, m) ← m.call fs_table c
    return (ret, none, m)

theorem transferInto_transfer {fd : Fd n} {out : ByteMap} {size r : Int} {bytes : Option ByteMap} {m' : FileSys n}
    (h : m.transferInto fd (fun fs node offset => fs.read node out size offset) = .ret (r, bytes, m')) :
    m.transfer fd (fun fs node offset => do
      let (ret, _, fs) ← fs.read node out size offset
      return (ret, fs)) = .ret (r, m') := by
  rw [transferInto] at h
  rw [transfer]
  cases hopen : (m.file fd).openfile with
  | none =>
      rw [hopen] at h
      cases h
      rfl
  | some i =>
      rw [hopen] at h
      dsimp only at h ⊢
      cases htype : (m.files.openfile_table i).type with
      | NONE =>
          rw [htype] at h
          cases h
          rfl
      | FXT12 =>
          rw [htype] at h
          dsimp only at h ⊢
          cases hnode : (m.files.openfile_table i).node with
          | none =>
              rw [hnode] at h
              cases h
          | some node =>
              rw [hnode] at h
              obtain ⟨⟨ret, out', fs'⟩, hread, h⟩ := Outcome.bind_eq_ret h
              cases h
              dsimp only
              rw [hread]
              rfl

theorem readInto_read {fd : Fd n} {buf : Option ByteMap} {size typed r : Int} {bytes : Option ByteMap}
    {m' : FileSys n} (h : m.readInto fd buf size typed = .ret (r, bytes, m')) :
    m.read fd buf size typed = .ret (r, m') := by
  cases buf with
  | none =>
      cases h
      rfl
  | some out =>
      rw [readInto] at h
      rw [read]
      split at h
      · rename_i hsize
        cases h
        rw [if_pos hsize]
        rfl
      · rename_i hsize
        rw [if_neg hsize]
        cases htype : (m.file fd).type with
        | FILE =>
            rw [htype] at h
            exact m.transferInto_transfer h
        | _ =>
            rw [htype] at h
            cases h
            rfl

/-- The buffer aside, it is the call. -/
theorem callInto_call {fs_table : FsTable} {c : FileCall n} {r : Int} {out : Option ByteMap} {m' : FileSys n}
    (h : m.callInto fs_table c = .ret (r, out, m')) : m.call fs_table c = .ret (r, m') := by
  cases c with
  | read process fd buf size typed =>
      simp only [callInto] at h
      simp only [call]
      cases hfd : fdOf fd.toInt with
      | none =>
          rw [hfd] at h
          cases h
          rfl
      | some k =>
          rw [hfd] at h
          exact m.readInto_read h
  | _ =>
      obtain ⟨⟨r', m''⟩, hcall, h⟩ := Outcome.bind_eq_ret h
      cases h
      exact hcall

end FileSys

/-! ### The calls on the store -/

/-- The bytes of files, and descriptors of them. -/
abbrev Bytes (n : Nat) := Store Inode (Fd n) Byte

namespace Bytes

variable {n : Nat} (s : Bytes n)

/-- The file that a descriptor of a process refers to. -/
def opened (process : Fin n) (fd : Int32) : Option (Fd n × Inode) :=
  match fdOf fd.toInt with
  | none => none
  | some k => (s.target (process, k)).map fun f => ((process, k), f)

/-- What `fseek` counts from. -/
def start (d : Fd n) (f : Inode) (whence : Int) : Option Int :=
  if whence = 0 then some 0 else if whence = 1 then some (s.offset d) else
    if whence = 2 then some (s.content f).length else none

/-- The descriptor of a call. -/
def subject : FileCall n → Option (Fd n × Inode)
  | .open .. | .fork .. => none
  | .close process fd | .read process fd .. | .write process fd .. | .append process fd ..
  | .fseek process fd .. =>
    s.opened process fd

/-- What the store asks of the arguments of a call on the file `f`. -/
def Accepts (d : Fd n) (f : Inode) : FileCall n → Prop
  | .open .. | .fork .. => False
  | .close .. => True
  | .read _ _ buf size _ | .write _ _ buf size => buf.isSome ∧ 0 < size.toInt
  | .append _ _ buf size => 2 < d.2.val ∧ buf.isSome ∧ 0 < size.toInt
  | .fseek _ _ bias whence =>
    ∃ start, s.start d f whence.toInt = some start ∧ 0 ≤ start + bias.toInt ∧
      start + bias.toInt ≤ (s.content f).length

/-- What a call returns, what it puts into the buffer and what it leaves of the store. `full` says of which
files the volume has no free cluster. -/
inductive Does (full : Inode → Prop) : FileCall n → Int → Option ByteMap → Bytes n → Prop
  | read {process : Fin n} {fd size : Int32} {out bytes : ByteMap} {typed : Int} {d : Fd n} {f : Inode}
      (hopen : s.opened process fd = some (d, f)) (hsize : 0 < size.toInt)
      (hbytes : tabulate (s.read d f size.toInt.toNat).length bytes = s.read d f size.toInt.toNat) :
      Does full (.read process fd (some out) size typed) (s.read d f size.toInt.toNat).length (some bytes)
        (s.seek d (s.offset d + (s.read d f size.toInt.toNat).length))
  | write {process : Fin n} {fd size : Int32} {src : ByteMap} {d : Fd n} {f : Inode} {k : Nat}
      (hopen : s.opened process fd = some (d, f)) (hsize : 0 < size.toInt)
      (hk : k = min size.toInt.toNat ((s.content f).length - s.offset d)) :
      Does full (.write process fd (some src) size) k none (s.write d f (tabulate k src))
  | append {process : Fin n} {fd size : Int32} {src : ByteMap} {d : Fd n} {f : Inode} {k : Nat}
      (hopen : s.opened process fd = some (d, f)) (hd : 2 < d.2.val) (hpos : 0 < k) (hk : k ≤ size.toInt.toNat)
      (hfull : k = size.toInt.toNat ∨ full f) :
      Does full (.append process fd (some src) size) k none (s.append d f (tabulate k src))
  | noRoom {process : Fin n} {fd size : Int32} {src : ByteMap} {d : Fd n} {f : Inode}
      (hopen : s.opened process fd = some (d, f)) (hempty : s.content f = []) (hfull : full f) :
      Does full (.append process fd (some src) size) (-1) none s
  | fseek {process : Fin n} {fd bias whence : Int32} {d : Fd n} {f : Inode} {start : Int} {pos : Nat}
      (hopen : s.opened process fd = some (d, f)) (hstart : s.start d f whence.toInt = some start)
      (hpos : start + bias.toInt = pos) (hin : pos ≤ (s.content f).length) :
      Does full (.fseek process fd bias whence) pos none (s.seek d pos)
  | close {process : Fin n} {fd : Int32} {d : Fd n} {f : Inode} (hopen : s.opened process fd = some (d, f)) :
      Does full (.close process fd) 0 none (s.close d)
  | fork {child parent : Fin n} :
      Does full (.fork child parent) 0 none (s.copy fun d => if d.1 = child then (parent, d.2) else d)
  | refused {c : FileCall n} {d : Fd n} {f : Inode} (hopen : s.subject c = some (d, f))
      (hnot : ¬s.Accepts d f c) : Does full c (-1) none s
  | unopened {c : FileCall n} {r : Int} (hc : ∀ child parent, c ≠ .fork child parent)
      (hopen : s.subject c = none) : Does full c r none s

/-- Bytes are appended to a file that fills its last cluster. -/
def Overruns (unit : Inode → Nat) : FileCall n → Prop
  | .append process fd buf size =>
    ∃ d f, s.opened process fd = some (d, f) ∧ s.Accepts d f (.append process fd buf size) ∧
      s.content f ≠ [] ∧ (s.content f).length % unit f = 0
  | _ => False

end Bytes

namespace FileSys

section

variable {n : Nat} (m : FileSys n)

/-- The inode that a descriptor has open. -/
def key (fd : Fd n) : Option Inode := (m.file fd).openfile.bind fun i => (m.files.openfile_table i).node

def Live (node : Inode) : Prop := ∃ fd, m.key fd = some node

/-- The volume of an inode has no free cluster. -/
def Full (node : Inode) : Prop := (m.volumes node.fat12_fs).fs.allocateCluster = .ret 0

def unit (node : Inode) : Nat := (m.volumes node.fat12_fs).fs.clusterSize

/-- The open files of a volume. -/
def Stored (chain : Inode → List Nat) (slot : Fin MAX_DISK_COUNT) : Prop :=
  Stores (m.volumes slot).fs (fun place => m.Live ⟨slot, place⟩) (m.volumes slot).inodepool.inodes
    fun place => chain ⟨slot, place⟩

/-- The store is what the open files are: regular files, with the bytes of their clusters. -/
structure Holds (s : Bytes n) (chain : Inode → List Nat) : Prop where
  valid : m.Valid
  opened : ∀ fd i, (m.file fd).openfile = some i → (m.file fd).type = .FILE ∧
    (m.files.openfile_table i).type = .FXT12 ∧ (m.files.openfile_table i).node.isSome
  target : s.target = m.key
  offset : ∀ fd node, m.key fd = some node → (m.file fd).offset = s.offset fd
  volume : ∀ node, m.Live node → m.Stored chain node.fat12_fs
  content : ∀ node, m.Live node →
    s.content node = FAT12FS.content (m.volumes node.fat12_fs).fs (m.inode node) (chain node)

end

variable {n : Nat} {m m' : FileSys n} {s s' : Bytes n} {chain : Inode → List Nat}

/-- The offset aside, a descriptor that is moved is the same. -/
theorem setOffset_file (m : FileSys n) (volumes : Disks) (fd : Fd n) (pos : Int) (k : Fd n) :
    (FileSys.mk (m.files.setOffset fd pos) volumes).file k =
      if k = fd then { m.file k with offset := pos } else m.file k := by
  unfold file Files.setOffset Files.setFile
  dsimp only
  by_cases hk : k = fd
  · rw [if_pos hk, hk, Function.update_self]
  · rw [if_neg hk, Function.update_of_ne hk]

theorem setOffset_openfile (m : FileSys n) (volumes : Disks) (fd : Fd n) (pos : Int) (k : Fd n) :
    ((FileSys.mk (m.files.setOffset fd pos) volumes).file k).openfile = (m.file k).openfile ∧
      ((FileSys.mk (m.files.setOffset fd pos) volumes).file k).type = (m.file k).type := by
  rw [setOffset_file]
  split <;> exact ⟨rfl, rfl⟩

theorem key_setOffset (m : FileSys n) (volumes : Disks) (fd : Fd n) (pos : Int) (k : Fd n) :
    (FileSys.mk (m.files.setOffset fd pos) volumes).key k = m.key k := by
  unfold key
  rw [(setOffset_openfile m volumes fd pos k).1]
  rfl

theorem inode_eq {a b : Inode} (hslot : a.fat12_fs = b.fat12_fs) (hplace : a.place = b.place) : a = b := by
  obtain ⟨slot, place⟩ := a
  obtain rfl := hslot
  obtain rfl := hplace
  rfl

/-- A file is changed, with its inode and its clusters, and a descriptor of it is moved. -/
theorem Holds.put (h : Holds m s chain) {fd : Fd n} {node : Inode} (hkey : m.key fd = some node)
    (vol : FatVolume) (pos : Nat) (changed : Fat12Inode) (l : List Nat) (bytes : List Byte)
    (hvalid : Valid ⟨m.files.setOffset fd pos, Function.update m.volumes node.fat12_fs vol⟩)
    (hinodes : vol.inodepool.inodes =
      Function.update (m.volumes node.fat12_fs).inodepool.inodes node.place changed)
    (hstores : Stores vol.fs (fun place => m.Live ⟨node.fat12_fs, place⟩) vol.inodepool.inodes
      (Function.update (fun place => chain ⟨node.fat12_fs, place⟩) node.place l))
    (hbytes : FAT12FS.content vol.fs changed l = bytes)
    (hothers : ∀ other, m.Live other → other.fat12_fs = node.fat12_fs → other ≠ node →
      FAT12FS.content vol.fs (m.inode other) (chain other) =
        FAT12FS.content (m.volumes node.fat12_fs).fs (m.inode other) (chain other)) :
    Holds ⟨m.files.setOffset fd pos, Function.update m.volumes node.fat12_fs vol⟩
      ((s.setContent node bytes).seek fd pos) (Function.update chain node l) := by
  have hlive : ∀ other, Live ⟨m.files.setOffset fd pos, Function.update m.volumes node.fat12_fs vol⟩ other ↔
      m.Live other := fun other => exists_congr fun k => by rw [key_setOffset]
  have hslot : ∀ place, Function.update chain node l ⟨node.fat12_fs, place⟩ =
      Function.update (fun place => chain ⟨node.fat12_fs, place⟩) node.place l place := fun place => by
    by_cases hplace : place = node.place
    · subst hplace
      change Function.update chain node l node = _
      rw [Function.update_self, Function.update_self]
    · rw [Function.update_of_ne hplace, Function.update_of_ne fun heq => hplace (congrArg Inode.place heq)]
  refine ⟨hvalid, fun k i hk => ?_, ?_, fun k other hk => ?_, fun other hother => ?_, fun other hother => ?_⟩
  · obtain ⟨hsame, htype⟩ := setOffset_openfile m (Function.update m.volumes node.fat12_fs vol) fd pos k
    rw [hsame] at hk
    rw [htype]
    exact h.opened k i hk
  · funext k
    rw [key_setOffset]
    exact congrFun h.target k
  · rw [key_setOffset] at hk
    rw [setOffset_file]
    by_cases hkfd : k = fd
    · rw [if_pos hkfd, hkfd]
      exact congrArg Nat.cast (Function.update_self fd pos s.offset).symm
    · dsimp only [Store.seek, Store.setContent]
      rw [if_neg hkfd, h.offset k other hk, Function.update_of_ne hkfd]
  · rw [hlive] at hother
    unfold Stored
    simp only [hlive]
    by_cases hother' : other.fat12_fs = node.fat12_fs
    · rw [hother', Function.update_self]
      have hchain := funext hslot
      rw [hchain]
      exact hstores
    · rw [Function.update_of_ne hother']
      have hchain : (fun place => Function.update chain node l ⟨other.fat12_fs, place⟩) =
          fun place => chain ⟨other.fat12_fs, place⟩ := by
        funext place
        have hne : Inode.mk other.fat12_fs place ≠ node := by
          rintro rfl
          exact hother' rfl
        rw [Function.update_of_ne hne]
      rw [hchain]
      exact h.volume other hother
  · rw [hlive] at hother
    unfold inode
    dsimp only [Store.seek, Store.setContent]
    by_cases hsame : other = node
    · subst hsame
      rw [Function.update_self, Function.update_self, Function.update_self, hinodes, Function.update_self]
      exact hbytes.symm
    · rw [Function.update_of_ne hsame, Function.update_of_ne hsame, h.content other hother]
      by_cases hother' : other.fat12_fs = node.fat12_fs
      · have hplace : other.place ≠ node.place := fun heq => hsame (inode_eq hother' heq)
        rw [hother', Function.update_self, hinodes, Function.update_of_ne hplace, ← hother', hother']
        have hold := hothers other hother hother' hsame
        unfold inode at hold ⊢
        rw [hother'] at hold ⊢
        exact hold.symm
      · rw [Function.update_of_ne hother']
        rfl

/-- What is behind a descriptor that the store has a file for. -/
structure Refers (m : FileSys n) (process : Fin n) (fd : Int32) (d : Fd n) (node : Inode)
    (i : Fin MAX_OPENFILE_COUNT) : Prop where
  fdOf : Vfs.fdOf fd.toInt = some d.2
  process : d = (process, d.2)
  openfile : (m.file d).openfile = some i
  type : (m.file d).type = .FILE
  fxt12 : (m.files.openfile_table i).type = .FXT12
  node : (m.files.openfile_table i).node = some node

theorem Refers.key {process : Fin n} {fd : Int32} {d : Fd n} {node : Inode} {i : Fin MAX_OPENFILE_COUNT}
    (h : Refers m process fd d node i) : m.key d = some node := by
  unfold FileSys.key
  rw [h.openfile]
  exact h.node

theorem Refers.opens {process : Fin n} {fd : Int32} {d : Fd n} {node other : Inode} {i : Fin MAX_OPENFILE_COUNT}
    (h : Refers m process fd d node i) (hopens : m.Opens d other) : other = node := by
  obtain ⟨j, hj, hother⟩ := hopens
  rw [h.openfile] at hj
  obtain rfl := Option.some.inj hj
  exact Option.some.inj (hother.symm.trans h.node)

theorem Holds.refers (h : Holds m s chain) {process : Fin n} {fd : Int32} {d : Fd n} {node : Inode}
    (hopen : s.opened process fd = some (d, node)) : ∃ i, Refers m process fd d node i := by
  unfold Bytes.opened at hopen
  cases hfd : fdOf fd.toInt with
  | none =>
      rw [hfd] at hopen
      cases hopen
  | some k =>
      rw [hfd] at hopen
      obtain ⟨f, hf, hpair⟩ := Option.map_eq_some_iff.mp hopen
      obtain ⟨rfl, rfl⟩ := Prod.mk.inj hpair
      rw [h.target] at hf
      obtain ⟨i, hi, hnode⟩ := Option.bind_eq_some_iff.mp hf
      obtain ⟨htype, hfxt, -⟩ := h.opened _ i hi
      exact ⟨i, hfd, rfl, hi, htype, hfxt, hnode⟩

/-- A descriptor that the store has no file for has none open. -/
theorem Holds.unopened (h : Holds m s chain) {process : Fin n} {fd : Int32} (hopen : s.opened process fd = none)
    {k : Fin MAX_FD_COUNT} (hk : fdOf fd.toInt = some k) : (m.file (process, k)).openfile = none := by
  unfold Bytes.opened at hopen
  rw [hk] at hopen
  have hkey := Option.map_eq_none_iff.mp hopen
  rw [h.target] at hkey
  cases hfile : (m.file (process, k)).openfile with
  | none => rfl
  | some i =>
      obtain ⟨-, -, hnode⟩ := h.opened _ i hfile
      unfold key at hkey
      rw [hfile] at hkey
      rw [Option.bind_some] at hkey
      rw [hkey] at hnode
      cases hnode

section

variable {process : Fin n} {fd : Int32} {d : Fd n} {node : Inode} {i : Fin MAX_OPENFILE_COUNT}

/-- A file that is open has its bytes, and the descriptor is inside it. -/
theorem Holds.inside (h : Holds m s chain) (hrefers : Refers m process fd d node i) :
    (m.file d).offset = s.offset d ∧ s.offset d ≤ (m.inode node).size ∧ (m.inode node).size < 2 ^ 28 ∧
      (s.content node).length = (m.inode node).size := by
  have hlive : m.Live node := ⟨d, hrefers.key⟩
  have hoffset := h.offset d node hrefers.key
  obtain ⟨-, -, hsize⟩ := h.valid.within d
  have hle := hsize i hrefers.openfile node hrefers.node
  have hlt := (h.volume node hlive).size_lt hlive
  have hlen : (s.content node).length = (m.inode node).size := by
    rw [h.content node hlive, FAT12FS.content, length_tabulate]
  exact ⟨hoffset, by omega, hlt, hlen⟩

/-- What a transfer of `k` bytes leaves. -/
theorem moved_eq (slot : Fin MAX_DISK_COUNT) (fs : FAT12FS) {pos k : Nat} (hoffset : (m.file d).offset = pos)
    (hfits : pos + k < 2 ^ 31) :
    (if (0 : Int) < (k : Int) then (m.setFs slot fs).setOffset d (i32 ((m.file d).offset + k))
      else m.setFs slot fs) =
      ⟨m.files.setOffset d ((pos + k : Nat) : Int),
        Function.update m.volumes slot { m.volumes slot with fs }⟩ := by
  by_cases hk : k = 0
  · subst hk
    have hsame : m.files.setOffset d (pos : Int) = m.files := by
      unfold file at hoffset
      unfold Files.setOffset Files.setFile
      rw [← hoffset]
      dsimp only
      rw [Function.update_eq_self]
    rw [if_neg (by omega), Nat.add_zero, hsame]
    rfl
  · have hnext : i32 ((m.file d).offset + k) = ((pos + k : Nat) : Int) := by
      rw [hoffset, i32_eq (by omega) (by omega)]
      rfl
    rw [if_pos (by omega), hnext]
    rfl

/-- A call on an open file fits: its offset stays an `int`. -/
theorem Holds.fits (h : Holds m s chain) (hrefers : Refers m process fd d node i) {k : Fin MAX_FD_COUNT}
    {other : Inode} (hk : Vfs.fdOf fd.toInt = some k) (hopens : m.Opens (process, k) other) :
    (m.inode other).size < 2 ^ 28 := by
  obtain rfl := Option.some.inj (hk.symm.trans hrefers.fdOf)
  rw [← hrefers.process] at hopens
  rw [hrefers.opens hopens]
  exact (h.inside hrefers).2.2.1

/-- What a transfer leaves, where the inode keeps what it has. -/
theorem Holds.transferred (h : Holds m s chain) (hrefers : Refers m process fd d node i) {fs : FAT12FS} {k : Nat}
    (bytes : List Byte)
    (hvalid : Valid ⟨m.files.setOffset d ((s.offset d + k : Nat) : Int),
      Function.update m.volumes node.fat12_fs { m.volumes node.fat12_fs with fs }⟩)
    (hstores : Stores fs (fun place => m.Live ⟨node.fat12_fs, place⟩) (m.volumes node.fat12_fs).inodepool.inodes
      fun place => chain ⟨node.fat12_fs, place⟩)
    (hbytes : FAT12FS.content fs (m.inode node) (chain node) = bytes)
    (hothers : ∀ other, m.Live other → other.fat12_fs = node.fat12_fs → other ≠ node →
      FAT12FS.content fs (m.inode other) (chain other) =
        FAT12FS.content (m.volumes node.fat12_fs).fs (m.inode other) (chain other)) :
    Holds ⟨m.files.setOffset d ((s.offset d + k : Nat) : Int),
      Function.update m.volumes node.fat12_fs { m.volumes node.fat12_fs with fs }⟩
      ((s.setContent node bytes).seek d (s.offset d + k)) chain := by
  have hput := h.put hrefers.key _ _ (m.inode node) (chain node) bytes hvalid
    (Function.update_eq_self _ _).symm (by rw [Function.update_eq_self]; exact hstores) hbytes hothers
  rwa [Function.update_eq_self] at hput

theorem Holds.read (h : Holds m s chain) (fs_table : FsTable) {size : Int32} (out : ByteMap) (typed : Int)
    (hopen : s.opened process fd = some (d, node)) (hsize : 0 < size.toInt) :
    ∃ r bytes m' s', m.callInto fs_table (.read process fd (some out) size typed) = .ret (r, bytes, m') ∧
      s.Does m'.Full (.read process fd (some out) size typed) r bytes s' ∧ Holds m' s' chain := by
  obtain ⟨i, hrefers⟩ := h.refers hopen
  obtain ⟨hoffset, hle, hlt, hlen⟩ := h.inside hrefers
  have hlive : m.Live node := ⟨d, hrefers.key⟩
  have hmax := size.toInt_lt
  obtain ⟨bytes, fs', hread, hbytes, hstores, hchain⟩ := (h.volume node hlive).read hlive
    (by omega : 0 < size.toInt.toNat) (by omega) (by omega : s.offset d < 2 ^ 31) out
  rw [Int.toNat_of_nonneg (by omega)] at hread
  have hcount : (s.read d node size.toInt.toNat).length =
      min size.toInt.toNat ((m.inode node).size - s.offset d) := by
    rw [Store.read, List.length_take, List.length_drop, hlen]
  have hslice : tabulate (s.read d node size.toInt.toNat).length bytes = s.read d node size.toInt.toNat := by
    rw [hcount, Store.read, h.content node hlive, FAT12FS.content, slice_tabulate]
    exact tabulate_congr hbytes
  have hinto : m.callInto fs_table (.read process fd (some out) size typed) =
      .ret ((s.read d node size.toInt.toNat).length, some bytes,
        ⟨m.files.setOffset d ((s.offset d + (s.read d node size.toInt.toNat).length : Nat) : Int),
          Function.update m.volumes node.fat12_fs { m.volumes node.fat12_fs with fs := fs' }⟩) := by
    rw [hcount, ← moved_eq node.fat12_fs fs' hoffset (by omega)]
    simp only [callInto, hrefers.fdOf, readInto, if_neg (not_le.mpr hsize)]
    rw [← hrefers.process, hrefers.type]
    simp only [transferInto, hrefers.openfile, hrefers.fxt12, hrefers.node]
    unfold inode at hcount ⊢
    rw [hoffset, hread]
    rfl
  have hvalid := (FileCall.call_spec h.valid (fun k other hk hopens => by
    have hsmall := h.fits hrefers hk hopens
    omega) (m.callInto_call hinto)).1
  have hholds := h.transferred hrefers (s.content node) hvalid hstores (by
    rw [h.content node hlive, FAT12FS.content, hchain]
    rfl) (fun other _ _ _ => by rw [FAT12FS.content, FAT12FS.content, hchain])
  rw [Store.setContent_self] at hholds
  exact ⟨_, _, _, _, hinto, .read hopen hsize hslice, hholds⟩

theorem Holds.write (h : Holds m s chain) (fs_table : FsTable) {size : Int32} (src : ByteMap)
    (hopen : s.opened process fd = some (d, node)) (hsize : 0 < size.toInt) :
    ∃ r bytes m' s', m.callInto fs_table (.write process fd (some src) size) = .ret (r, bytes, m') ∧
      s.Does m'.Full (.write process fd (some src) size) r bytes s' ∧ Holds m' s' chain := by
  obtain ⟨i, hrefers⟩ := h.refers hopen
  obtain ⟨hoffset, hle, hlt, hlen⟩ := h.inside hrefers
  have hlive : m.Live node := ⟨d, hrefers.key⟩
  have hmax := size.toInt_lt
  obtain ⟨fs', hwrite, hstores, hbytes, hothers⟩ := (h.volume node hlive).write hlive
    (by omega : 0 < size.toInt.toNat) (by omega) (by omega : s.offset d < 2 ^ 31) src
  rw [Int.toNat_of_nonneg (by omega)] at hwrite
  obtain ⟨k, hk⟩ : ∃ k, k = min size.toInt.toNat ((m.inode node).size - s.offset d) := ⟨_, rfl⟩
  have hinto : m.callInto fs_table (.write process fd (some src) size) =
      .ret (k, none, ⟨m.files.setOffset d ((s.offset d + k : Nat) : Int),
        Function.update m.volumes node.fat12_fs { m.volumes node.fat12_fs with fs := fs' }⟩) := by
    rw [← moved_eq node.fat12_fs fs' hoffset (by omega)]
    simp only [callInto, call, hrefers.fdOf, FileSys.write, if_neg (not_le.mpr hsize)]
    rw [← hrefers.process, hrefers.type]
    simp only [transfer, hrefers.openfile, hrefers.fxt12, hrefers.node]
    unfold inode at hk ⊢
    rw [hoffset, hwrite, ← hk]
    rfl
  have hvalid := (FileCall.call_spec h.valid (fun k other hk hopens => by
    have hsmall := h.fits hrefers hk hopens
    omega) (m.callInto_call hinto)).1
  have hholds := h.transferred hrefers (overwrite (s.content node) (s.offset d) (tabulate k src)) hvalid
    hstores (by
      rw [h.content node hlive, hk]
      exact hbytes) (by
      rintro ⟨slot, place⟩ hother rfl hne
      refine hothers place hother fun heq => hne ?_
      rw [heq])
  have hdoes : s.Does (FileSys.mk (m.files.setOffset d ((s.offset d + k : Nat) : Int))
      (Function.update m.volumes node.fat12_fs { m.volumes node.fat12_fs with fs := fs' })).Full
      (.write process fd (some src) size) k none (s.write d node (tabulate k src)) :=
    .write hopen hsize (by rw [hlen]; exact hk)
  rw [Store.write, length_tabulate] at hdoes
  exact ⟨_, _, _, _, hinto, hdoes, hholds⟩

theorem int_of_size {k : Nat} (h : k < 2 ^ 28) : (k : Int) < 2 ^ 31 := by
  omega

/-- An inode that is given what it has. -/
theorem setNode_self (m : FileSys n) (node : Inode) :
    Function.update m.volumes node.fat12_fs
      ({ m.volumes node.fat12_fs with fs := (m.volumes node.fat12_fs).fs }.setNode (some node.place)
        (some (m.inode node))) = m.volumes := by
  have hsame : { m.volumes node.fat12_fs with fs := (m.volumes node.fat12_fs).fs }.setNode (some node.place)
      (some (m.inode node)) = m.volumes node.fat12_fs := by
    unfold FatVolume.setNode inode
    dsimp only
    rw [Function.update_eq_self]
  rw [hsame, Function.update_eq_self]

theorem Holds.append (h : Holds m s chain) (fs_table : FsTable) {size : Int32} (src : ByteMap)
    (hopen : s.opened process fd = some (d, node)) (hsize : 0 < size.toInt) (hd : 2 < d.2.val)
    (hroom : s.content node = [] ∨ (s.content node).length % m.unit node ≠ 0) :
    ∃ r bytes m' s' chain', m.callInto fs_table (.append process fd (some src) size) = .ret (r, bytes, m') ∧
      s.Does m'.Full (.append process fd (some src) size) r bytes s' ∧ Holds m' s' chain' := by
  obtain ⟨i, hrefers⟩ := h.refers hopen
  obtain ⟨hoffset, hle, hlt, hlen⟩ := h.inside hrefers
  have hlive : m.Live node := ⟨d, hrefers.key⟩
  have hmax := size.toInt_lt
  have hstores := h.volume node hlive
  have hchecks : ¬((process, d.2).2.val ≤ 2 ∨ size.toInt ≤ 0) := by
    dsimp only
    omega
  have hpart : ((m.volumes node.fat12_fs).inodepool.inodes node.place).size = 0 ∨
      ((m.volumes node.fat12_fs).inodepool.inodes node.place).size %
        (m.volumes node.fat12_fs).fs.clusterSize ≠ 0 := by
    rcases hroom with hnil | hpart
    · rw [hnil, List.length_nil] at hlen
      exact Or.inl hlen.symm
    · rw [hlen] at hpart
      exact Or.inr hpart
  have hcall : ∀ {r : Int} {changed : Option Fat12Inode} {fs : FAT12FS},
      (m.volumes node.fat12_fs).fs.append (some (m.inode node)) src size.toInt = .ret (r, changed, fs) →
      m.callInto fs_table (.append process fd (some src) size) = .ret (r, none,
        if 0 < r then (FileSys.mk m.files (Function.update m.volumes node.fat12_fs
          ({ m.volumes node.fat12_fs with fs }.setNode (some node.place) changed))).setOffset d
            (i32 ((FileSys.mk m.files (Function.update m.volumes node.fat12_fs
              ({ m.volumes node.fat12_fs with fs }.setNode (some node.place) changed))).inode node).size)
        else ⟨m.files, Function.update m.volumes node.fat12_fs
          ({ m.volumes node.fat12_fs with fs }.setNode (some node.place) changed)⟩) := by
    intro r changed fs hrun
    simp only [callInto, call, hrefers.fdOf, FileSys.append, if_neg hchecks]
    rw [← hrefers.process, hrefers.type]
    simp only [hrefers.openfile, hrefers.fxt12, hrefers.node]
    rw [hrun]
    rfl
  rcases hstores.append hlive (by omega : 0 < size.toInt.toNat) src hpart with
    ⟨hfail, hzero, hfull⟩ | ⟨r, changed, fs', ns, hrun, hpos, hk, hall, hcoh, hsame, hbeside, happended⟩
  · rw [Int.toNat_of_nonneg (by omega)] at hfail
    have hinto : m.callInto fs_table (.append process fd (some src) size) = .ret (-1, none, m) := by
      rw [hcall hfail, if_neg (by decide)]
      exact congrArg (fun volumes => SysuOs.Outcome.ret (-1, none, FileSys.mk m.files volumes))
        (setNode_self m node)
    refine ⟨_, _, _, s, chain, hinto, .noRoom hopen ?_ hfull, h⟩
    apply List.eq_nil_of_length_eq_zero
    rw [hlen]
    exact hzero
  · rw [Int.toNat_of_nonneg (by omega)] at hrun
    have hgrown : changed.size = (s.content node).length + r := by
      rw [happended.size, hlen]
      rfl
    have hnew : (FileSys.mk m.files (Function.update m.volumes node.fat12_fs
        ({ m.volumes node.fat12_fs with fs := fs' }.setNode (some node.place) (some changed)))).inode node =
          changed := by
      unfold inode FatVolume.setNode
      dsimp only
      rw [Function.update_self]
      exact Function.update_self ..
    have hafter := happended.stores hstores hlive hcoh hsame hbeside
    have hsmall : changed.size < 2 ^ 28 := by
      have hlt' := hafter.size_lt hlive
      rwa [Function.update_self] at hlt'
    have hend : i32 changed.size = ((s.content node).length + r : Nat) := by
      rw [← hgrown, i32_eq (by omega) (by omega)]
    have hinto : m.callInto fs_table (.append process fd (some src) size) = .ret (r, none,
        ⟨m.files.setOffset d (((s.content node).length + r : Nat) : Int),
          Function.update m.volumes node.fat12_fs
          ({ m.volumes node.fat12_fs with fs := fs' }.setNode (some node.place) (some changed))⟩) := by
      rw [hcall hrun, if_pos (by omega), hnew, hend]
      rfl
    have hset := @Valid.setNode n m h.valid node changed fs' (by rw [hgrown, ← hlen]; omega)
    have hbound : (((s.content node).length + r : Nat) : Int) < 2 ^ 31 := by
      rw [← hgrown]
      exact int_of_size hsmall
    have hvalid := @Valid.setOffset n _ hset d (((s.content node).length + r : Nat) : Int)
      ⟨Int.natCast_nonneg _, hbound, fun j hj other hother => by
        obtain rfl := hrefers.opens ⟨j, hj, hother⟩
        rw [hnew, hgrown]⟩
    have hholds := h.put hrefers.key _ _ changed (chain node ++ ns) (s.content node ++ tabulate r src) hvalid rfl
      hafter (by
        rw [h.content node hlive]
        exact happended.content) (by
        rintro ⟨slot, place⟩ hother rfl hne
        refine (hbeside.keeps hstores hlive hsame hother fun heq => hne ?_).2.2
        rw [heq])
    have hdoes : s.Does (FileSys.mk (m.files.setOffset d (((s.content node).length + r : Nat) : Int))
        (Function.update m.volumes node.fat12_fs ({ m.volumes node.fat12_fs with fs := fs' }.setNode
          (some node.place) (some changed)))).Full (.append process fd (some src) size) r none
        (s.append d node (tabulate r src)) :=
      .append hopen hd hpos hk (hall.imp_right fun hfull => by
        unfold Full FatVolume.setNode
        dsimp only
        rw [Function.update_self]
        exact hfull)
    rw [Store.append, length_tabulate] at hdoes
    exact ⟨_, _, _, _, _, hinto, hdoes, hholds⟩

/-- A descriptor is put at another place of its file. -/
theorem Holds.moved (h : Holds m s chain) (hrefers : Refers m process fd d node i) {pos : Nat}
    (hvalid : (m.setOffset d pos).Valid) : Holds (m.setOffset d pos) (s.seek d pos) chain := by
  have hlive : m.Live node := ⟨d, hrefers.key⟩
  have hvolumes : Function.update m.volumes node.fat12_fs (m.volumes node.fat12_fs) = m.volumes :=
    Function.update_eq_self _ _
  have hput := h.put hrefers.key (m.volumes node.fat12_fs) pos (m.inode node) (chain node) (s.content node)
    (by rw [hvolumes]; exact hvalid) (Function.update_eq_self _ _).symm 
    (by rw [Function.update_eq_self]; exact h.volume node hlive) (h.content node hlive).symm (fun _ _ _ _ => rfl)
  rw [hvolumes, Store.setContent_self, Function.update_eq_self] at hput
  exact hput

/-- A sum that overflows is negative. -/
theorem i32_bias {k : Nat} {bias : Int} (hk : k < 2 ^ 28) (hmin : -2 ^ 31 ≤ bias) (hmax : bias < 2 ^ 31)
    (hpos : 0 ≤ i32 (k + bias)) : i32 (k + bias) = k + bias := by
  unfold i32 at *
  rw [Int.bmod_def] at *
  omega

/-- `fseek` counts from a place in the file. -/
theorem Holds.start_nat (h : Holds m s chain) (hrefers : Refers m process fd d node i) {whence start : Int}
    (hstart : s.start d node whence = some start) : ∃ k : Nat, start = k ∧ k < 2 ^ 28 := by
  obtain ⟨-, hle, hlt, hlen⟩ := h.inside hrefers
  unfold Bytes.start at hstart
  split_ifs at hstart
  · exact ⟨0, (Option.some.inj hstart).symm, by omega⟩
  · exact ⟨s.offset d, (Option.some.inj hstart).symm, by omega⟩
  · exact ⟨(s.content node).length, (Option.some.inj hstart).symm, by omega⟩

/-- `fseek` counts from where the store does. -/
theorem Holds.base_eq (h : Holds m s chain) (hrefers : Refers m process fd d node i) (whence : Int) :
    base (m.file d) (i32 (m.inode node).size) whence = s.start d node whence := by
  obtain ⟨hoffset, -, hlt, hlen⟩ := h.inside hrefers
  have hsize : i32 (m.inode node).size = (m.inode node).size := i32_eq (by omega) (by omega)
  unfold base Bytes.start
  rw [hsize, hoffset, hlen]

theorem Holds.fseek (h : Holds m s chain) (fs_table : FsTable) {bias whence : Int32} {start : Int} {pos : Nat}
    (hopen : s.opened process fd = some (d, node)) (hstart : s.start d node whence.toInt = some start)
    (hpos : start + bias.toInt = pos) (hin : pos ≤ (s.content node).length) :
    ∃ r bytes m' s', m.callInto fs_table (.fseek process fd bias whence) = .ret (r, bytes, m') ∧
      s.Does m'.Full (.fseek process fd bias whence) r bytes s' ∧ Holds m' s' chain := by
  obtain ⟨i, hrefers⟩ := h.refers hopen
  obtain ⟨hoffset, hle, hlt, hlen⟩ := h.inside hrefers
  have hnext : i32 (start + bias.toInt) = pos := by
    rw [hpos]
    exact i32_eq (by omega) (by omega)
  have hsize : i32 (m.inode node).size = (m.inode node).size := i32_eq (by omega) (by omega)
  have hok : ¬((pos : Int) < 0 ∨ (pos : Int) > (m.inode node).size) := by omega
  have hinto : m.callInto fs_table (.fseek process fd bias whence) = .ret (pos, none, m.setOffset d pos) := by
    have hbase := h.base_eq hrefers whence.toInt
    rw [hstart, hsize] at hbase
    simp only [callInto, call, hrefers.fdOf, FileSys.fseek]
    rw [← hrefers.process]
    simp only [hrefers.openfile, hrefers.fxt12, hrefers.node, hsize, hbase, hnext, if_neg hok]
    rfl
  have hfits : FileCall.Fits m (.fseek process fd bias whence) := trivial
  have hvalid := (FileCall.call_spec h.valid hfits (m.callInto_call hinto)).1
  exact ⟨_, _, _, _, hinto, .fseek hopen hstart hpos hin, h.moved hrefers hvalid⟩

/-- A call whose arguments are not taken returns -1. -/
theorem Holds.refused (h : Holds m s chain) (fs_table : FsTable) {c : FileCall n}
    (hopen : s.subject c = some (d, node)) (hnot : ¬s.Accepts d node c) :
    m.callInto fs_table c = .ret (-1, none, m) := by
  cases c with
  | «open» process cwd path => cases hopen
  | fork child parent => cases hopen
  | close process fd => exact absurd trivial hnot
  | read process fd buf size typed =>
      obtain ⟨i, hrefers⟩ := h.refers hopen
      simp only [callInto, hrefers.fdOf]
      cases buf with
      | none => rfl
      | some out =>
          have hsize : size.toInt ≤ 0 := not_lt.mp fun hpos => hnot ⟨rfl, hpos⟩
          rw [readInto, if_pos hsize]
          rfl
  | write process fd buf size =>
      obtain ⟨i, hrefers⟩ := h.refers hopen
      simp only [callInto, call, hrefers.fdOf]
      cases buf with
      | none => rfl
      | some out =>
          have hsize : size.toInt ≤ 0 := not_lt.mp fun hpos => hnot ⟨rfl, hpos⟩
          rw [FileSys.write, if_pos hsize]
          rfl
  | append process fd buf size =>
      obtain ⟨i, hrefers⟩ := h.refers hopen
      simp only [callInto, call, hrefers.fdOf]
      cases buf with
      | none => rfl
      | some out =>
          have hbad : (process, d.2).2.val ≤ 2 ∨ size.toInt ≤ 0 := by
            by_contra hboth
            rw [not_or, not_le, not_le] at hboth
            exact hnot ⟨hboth.1, rfl, hboth.2⟩
          rw [FileSys.append, if_pos hbad]
          rfl
  | fseek process fd bias whence =>
      obtain ⟨i, hrefers⟩ := h.refers hopen
      obtain ⟨hoffset, hle, hlt, hlen⟩ := h.inside hrefers
      have hsize : i32 (m.inode node).size = (m.inode node).size := i32_eq (by omega) (by omega)
      have hbase := h.base_eq hrefers whence.toInt
      simp only [callInto, call, hrefers.fdOf, FileSys.fseek]
      rw [← hrefers.process]
      simp only [hrefers.openfile, hrefers.fxt12, hrefers.node, hbase]
      cases hstart : s.start d node whence.toInt with
      | none => rfl
      | some start =>
          have hout : i32 (start + bias.toInt) < 0 ∨ i32 (start + bias.toInt) > i32 (m.inode node).size := by
            by_contra hin
            obtain ⟨k, rfl, hk⟩ := h.start_nat hrefers hstart
            obtain ⟨hnonneg, hend⟩ := not_or.mp hin
            have hsum := i32_bias hk bias.le_toInt bias.toInt_lt (not_lt.mp hnonneg)
            rw [hsum, hsize, ← hlen] at hend
            rw [hsum] at hnonneg
            exact hnot ⟨k, hstart, not_lt.mp hnonneg, not_lt.mp hend⟩
          dsimp only
          rw [if_pos hout]
          rfl

end

end FileSys

end SysuOs.Vfs
