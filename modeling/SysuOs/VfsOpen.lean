import SysuOs.VfsPath

/-! Open files and descriptors of the file manager: `lookup`, `open`, `close_fd` and the calls on a
descriptor. -/

namespace SysuOs.Vfs

def MAX_OPENFILE_COUNT : Nat := 1024
def MAX_FD_COUNT : Nat := 64

/-- The address of an inode: the volume whose pool it is in, which its `fat12_fs` names, and its place
there. -/
structure Inode where
  fat12_fs : Fin MAX_DISK_COUNT
  place : Nat
  deriving DecidableEq, Repr

inductive FDType where
  | EMPTY
  | FILE
  | STDIN
  | STDOUT
  | STDERR
  deriving DecidableEq, Repr

structure OpenFile where
  node : Option Inode
  type : FsType
  refcount : Int
  attr : Int
  deriving DecidableEq, Repr

def OpenFile.zero : OpenFile := ⟨none, .FXT12, 0, 0⟩

/-- `volume` is no field of the source: the slot that the path resolved to when the descriptor was opened,
kept to say what the descriptor is one of. -/
structure File where
  openfile : Option (Fin MAX_OPENFILE_COUNT)
  offset : Int
  type : FDType
  volume : Fin MAX_DISK_COUNT
  deriving DecidableEq, Repr

def File.zero : File := ⟨none, 0, .EMPTY, 0⟩

/-- A descriptor of one of `n` processes. -/
abbrev Fd (n : Nat) := Fin n × Fin MAX_FD_COUNT

structure Files (n : Nat) where
  openfile_table : Fin MAX_OPENFILE_COUNT → OpenFile
  openfile_map : Fin MAX_OPENFILE_COUNT → Bool
  fd_table : Fd n → File

/-- What `FAT12_FS::lookup(dir, name)` finds in each volume, a null `dir` being the root: an inode of the
volume's own pool. -/
structure Volumes where
  lookup : Fin MAX_DISK_COUNT → Option Inode → List Char → Option Inode
  own : ∀ slot dir name node, lookup slot dir name = some node → node.fat12_fs = slot

/-- The loop of `lookup` over the components of a path; the root itself has no inode. -/
def walk (volumes : Volumes) (slot : Fin MAX_DISK_COUNT) (current : Option Inode) (path : List Char) :
    Option (Option Inode) :=
  match _h : pathNextComponent path with
  | .tooLong => none
  | .none => some current
  | .next component rest =>
    match volumes.lookup slot current component with
    | none => none
    | some next => walk volumes slot (some next) rest
termination_by path.length
decreasing_by exact pathNextComponent_rest _h

/-- Where a path leads: its slot and what is left of the path there. -/
def resolve (fs_table : FsTable) (cwd path : List Char) : Option (Fin MAX_DISK_COUNT × List Char) :=
  (normalizePath cwd path).bind (pathResolveFs fs_table)

namespace Files

variable {n : Nat} (s : Files n)

def setFile (fd : Fd n) (file : File) : Files n := { s with fd_table := Function.update s.fd_table fd file }

/-- `openfile->refcount += by`. -/
def count (i : Fin MAX_OPENFILE_COUNT) (d : Int) : Files n :=
  { s with
    openfile_table := Function.update s.openfile_table i
      { s.openfile_table i with refcount := (s.openfile_table i).refcount + d } }

def releaseOpenfile (i : Fin MAX_OPENFILE_COUNT) : Files n :=
  { s with
    openfile_table := Function.update s.openfile_table i .zero
    openfile_map := Function.update s.openfile_map i false }

/-- The entry in use with this node. -/
def findOpenfile (type : FsType) (node : Option Inode) : Option (Fin MAX_OPENFILE_COUNT) :=
  (List.finRange MAX_OPENFILE_COUNT).find? fun i =>
    s.openfile_map i && (s.openfile_table i).type = type && (s.openfile_table i).node = node

def freeOpenfile : Option (Fin MAX_OPENFILE_COUNT) :=
  (List.finRange MAX_OPENFILE_COUNT).find? fun i => s.openfile_map i = false

/-- The end of `lookup`: the entry in use with the node, or a new one. -/
def enter (type : FsType) (node : Option Inode) : Option (Fin MAX_OPENFILE_COUNT × Files n) :=
  match s.findOpenfile type node with
  | some i => some (i, s)
  | none =>
    match s.freeOpenfile with
    | none => none
    | some i =>
      some (i, { s with
        openfile_map := Function.update s.openfile_map i true
        openfile_table := Function.update s.openfile_table i ⟨node, type, 0, 0⟩ })

/-- The inode `lookup` reaches, with the slot it is in. -/
def find (fs_table : FsTable) (volumes : Volumes) (cwd path : List Char) :
    Option (Fin MAX_DISK_COUNT × Option Inode) :=
  match resolve fs_table cwd path with
  | none => none
  | some (slot, rest) =>
    match (fs_table slot).type with
    | .FXT12 => (walk volumes slot none rest).map fun node => (slot, node)
    | .NONE => none

/-- `lookup`, with the slot the path is in. -/
def lookup (fs_table : FsTable) (volumes : Volumes) (cwd path : List Char) :
    Option (Fin MAX_DISK_COUNT × Fin MAX_OPENFILE_COUNT × Files n) :=
  match find fs_table volumes cwd path with
  | none => none
  | some (slot, node) => (s.enter (fs_table slot).type node).map fun r => (slot, r)

/-- The descriptors `open` gives out. -/
def fdSlots : List (Fin MAX_FD_COUNT) := (List.finRange MAX_FD_COUNT).filter fun fd => 3 ≤ fd.val

def freeFd (process : Fin n) : Option (Fin MAX_FD_COUNT) :=
  fdSlots.find? fun fd => (s.fd_table (process, fd)).type = .EMPTY

/-- `open`: the descriptor, if one is given. -/
def «open» (fs_table : FsTable) (volumes : Volumes) (process : Fin n) (cwd path : List Char) :
    Option (Fin MAX_FD_COUNT) × Files n :=
  match s.lookup fs_table volumes cwd path with
  | none => (none, s)
  | some (slot, i, s) =>
    match s.freeFd process with
    | some fd => (some fd, (s.setFile (process, fd) ⟨some i, 0, .FILE, slot⟩).count i 1)
    | none => (none, if (s.openfile_table i).refcount = 0 then s.releaseOpenfile i else s)

/-- A `lookup` that is released again, as `chdir`, `ls` and the calls on a parent directory make it. -/
def visit (fs_table : FsTable) (volumes : Volumes) (cwd path : List Char) : Files n :=
  match s.lookup fs_table volumes cwd path with
  | none => s
  | some (_, i, s) => if (s.openfile_table i).refcount ≤ 0 then s.releaseOpenfile i else s

def closeFd (process : Fin n) (fd : Fin MAX_FD_COUNT) : Files n :=
  let file := s.fd_table (process, fd)
  match file.type, file.openfile with
  | .FILE, some i =>
    let s := (s.setFile (process, fd) { file with openfile := none, offset := 0, type := .EMPTY }).count i (-1)
    if (s.openfile_table i).refcount ≤ 0 then s.releaseOpenfile i else s
  | _, _ => s

/-- The table of a process without files. -/
def standard (fd : Fin MAX_FD_COUNT) : File :=
  if fd.val = 0 then { File.zero with type := .STDIN }
  else if fd.val = 1 then { File.zero with type := .STDOUT }
  else if fd.val = 2 then { File.zero with type := .STDERR }
  else .zero

def initProcessFs (process : Fin n) : Files n :=
  (List.finRange MAX_FD_COUNT).foldl (fun s fd => s.setFile (process, fd) (standard fd)) s

/-- One round of `fork_process_fs`. -/
def forkFd (child parent : Fin n) (fd : Fin MAX_FD_COUNT) : Files n :=
  let file := s.fd_table (parent, fd)
  let s := s.setFile (child, fd) file
  match file.type, file.openfile with
  | .FILE, some i => s.count i 1
  | _, _ => s

def forkProcessFs (child parent : Fin n) : Files n :=
  (List.finRange MAX_FD_COUNT).foldl (fun s fd => s.forkFd child parent fd) s

def releaseProcessFs (process : Fin n) : Files n :=
  (fdSlots.foldl (fun s fd => s.closeFd process fd) s).initProcessFs process

end Files

/-- A call on a descriptor, with its other arguments and what the volume returns to it. -/
inductive FdCall where
  | read (buf : Bool) (size ret : Int)
  | write (buf : Bool) (size ret : Int)
  | append (buf : Bool) (size ret fileSize : Int)
  | fseek (bias whence fileSize : Int)
  | dump_fd

/-- What a call hands out: the number it returns, and the node it reads a field of, if it comes to that. -/
structure Reply where
  ret : Int
  node : Option (Option Inode)

namespace Files

variable {n : Nat} (s : Files n)

def setOffset (fd : Fd n) (offset : Int) : Files n :=
  s.setFile fd { s.fd_table fd with offset := offset }

/-- `read` and `write` on a file, past their checks. -/
def transfer (fd : Fd n) (ret : Int) : Reply × Files n :=
  match (s.fd_table fd).openfile with
  | none => (⟨-1, none⟩, s)
  | some i =>
    match (s.openfile_table i).type with
    | .NONE => (⟨-1, none⟩, s)
    | .FXT12 =>
      (⟨ret, some (s.openfile_table i).node⟩,
        if 0 < ret then s.setOffset fd ((s.fd_table fd).offset + ret) else s)

/-- A call on a descriptor of the running process; `typed` is what the keyboard gives. -/
def fdCall (fd : Fd n) (typed : Int) : FdCall → Reply × Files n
  | .read buf size ret =>
    if buf = false ∨ size ≤ 0 then (⟨-1, none⟩, s)
    else
      match (s.fd_table fd).type with
      | .STDIN => (⟨typed, none⟩, s)
      | .FILE => s.transfer fd ret
      | _ => (⟨-1, none⟩, s)
  | .write buf size ret =>
    if buf = false ∨ size ≤ 0 then (⟨-1, none⟩, s)
    else
      match (s.fd_table fd).type with
      | .STDOUT => (⟨size, none⟩, s)
      | .STDERR => (⟨size, none⟩, s)
      | .FILE => s.transfer fd ret
      | _ => (⟨-1, none⟩, s)
  | .append buf size ret fileSize =>
    if fd.2.val ≤ 2 ∨ buf = false ∨ size ≤ 0 then (⟨-1, none⟩, s)
    else
      match (s.fd_table fd).type, (s.fd_table fd).openfile with
      | .FILE, some i =>
        match (s.openfile_table i).type with
        | .NONE => (⟨-1, none⟩, s)
        | .FXT12 =>
          (⟨ret, some (s.openfile_table i).node⟩, if 0 < ret then s.setOffset fd fileSize else s)
      | _, _ => (⟨-1, none⟩, s)
  | .fseek bias whence fileSize =>
    match (s.fd_table fd).openfile with
    | none => (⟨-1, none⟩, s)
    | some i =>
      match (s.openfile_table i).type with
      | .NONE => (⟨-1, none⟩, s)
      | .FXT12 =>
        let node := some (s.openfile_table i).node
        if whence = 0 ∨ whence = 1 ∨ whence = 2 then
          let base := if whence = 0 then 0 else if whence = 1 then (s.fd_table fd).offset else fileSize
          if base + bias < 0 ∨ fileSize < base + bias then (⟨-1, node⟩, s)
          else (⟨base + bias, node⟩, s.setOffset fd (base + bias))
        else (⟨-1, node⟩, s)
  | .dump_fd =>
    match (s.fd_table fd).openfile with
    | none => (⟨-1, none⟩, s)
    | some i =>
      match (s.openfile_table i).type with
      | .NONE => (⟨-1, none⟩, s)
      | .FXT12 => (⟨0, some (s.openfile_table i).node⟩, s)

end Files

/-- The calls that reach the open files, of any process. -/
inductive FsCall (n : Nat) where
  | open (process : Fin n) (cwd path : List Char) (volumes : Volumes)
  | visit (cwd path : List Char) (volumes : Volumes)
  | close_fd (process : Fin n) (fd : Int)
  | onFd (process : Fin n) (fd : Int) (typed : Int) (call : FdCall)
  | init_process_fs (process : Fin n)
  | fork_process_fs (child parent : Fin n)
  | release_process_fs (process : Fin n)

/-- A descriptor number in range. -/
def fdOf (fd : Int) : Option (Fin MAX_FD_COUNT) :=
  if h : 0 ≤ fd ∧ fd < 64 then some ⟨fd.toNat, by unfold MAX_FD_COUNT; omega⟩ else none

namespace Files

variable {n : Nat} (s : Files n)

def call (fs_table : FsTable) : FsCall n → Reply × Files n
  | .open process cwd path volumes =>
    match s.open fs_table volumes process cwd path with
    | (none, s) => (⟨-1, none⟩, s)
    | (some fd, s) => (⟨fd.val, none⟩, s)
  | .visit cwd path volumes => (⟨0, none⟩, s.visit fs_table volumes cwd path)
  | .close_fd process fd =>
    match fdOf fd with
    | none => (⟨-1, none⟩, s)
    | some fd =>
      let file := s.fd_table (process, fd)
      (⟨if file.type = .FILE ∧ file.openfile ≠ none then 0 else -1, none⟩, s.closeFd process fd)
  | .onFd process fd typed call =>
    match fdOf fd with
    | none => (⟨-1, none⟩, s)
    | some fd => s.fdCall (process, fd) typed call
  | .init_process_fs process => (⟨0, none⟩, s.initProcessFs process)
  | .fork_process_fs child parent => (⟨0, none⟩, s.forkProcessFs child parent)
  | .release_process_fs process => (⟨0, none⟩, s.releaseProcessFs process)

end Files

/-- After `initialize`, with every process's table zero. -/
def Files.boot (n : Nat) : Files n where
  openfile_table := fun _ => .zero
  openfile_map := fun _ => false
  fd_table := fun _ => .zero

end SysuOs.Vfs
