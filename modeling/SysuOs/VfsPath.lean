import Mathlib

/-! Path strings of the file manager and the slots of its mounted volumes. A C string is the list of its
characters without the terminator. -/

namespace SysuOs.Vfs

def MAX_PATH_LENGTH : Nat := 256
abbrev MAX_DISK_COUNT : Nat := 4
def MAX_DISK_NAME : Nat := 32
def MAX_FILESYS_SIZE : Nat := 65536
def PAGE_SIZE : Nat := 4096

inductive FsType where
  | FXT12
  | NONE
  deriving DecidableEq, Repr

inductive IdeDrive where
  | PrimaryMaster
  | PrimarySlave
  | SecondaryMaster
  | SecondarySlave
  | INVALID
  deriving DecidableEq, Repr

/-- `fs_table[i]`. -/
structure FS_info where
  disk_name : List Char
  type : FsType
  disk : IdeDrive
  inuse : Bool
  deriving DecidableEq, Repr

/-- What `memset` leaves of an entry. -/
def FS_info.zero : FS_info := ⟨[], .FXT12, .PrimaryMaster, false⟩

abbrev FsTable := Fin MAX_DISK_COUNT → FS_info

def pathLength (path : List Char) : Option Nat :=
  if path.length < MAX_PATH_LENGTH then some path.length else none

/-- The scan back of `path_pop_component`: stops behind a `/`, or at one character. -/
def popScan (out : List Char) : Nat → Nat
  | 0 => 0
  | 1 => 1
  | len + 2 => if out[len + 1]? = some '/' then len + 2 else popScan out (len + 1)

def pathPopComponent (out : List Char) : List Char :=
  if out.length ≤ 1 then ['/']
  else
    let len := if out[out.length - 1]? = some '/' then out.length - 1 else out.length
    let len := popScan out len
    if len = 1 then out.take 1 else out.take (len - 1)

/-- `path_append_component`; nothing when the result does not fit. -/
def pathAppendComponent (out component : List Char) : Option (List Char) :=
  if component = [] ∨ component = ['.'] then some out
  else if component = ['.', '.'] then some (pathPopComponent out)
  else
    let needSlash := if out = ['/'] then 0 else 1
    if MAX_PATH_LENGTH ≤ out.length + needSlash + component.length then none
    else some (out ++ List.replicate needSlash '/' ++ component)

/-- The components between the slashes of `part`, one after the other. -/
def pathConsumePart (part out : List Char) : Option (List Char) :=
  ((part.splitOn '/').filter (· ≠ [])).foldlM
    (fun out component =>
      if MAX_PATH_LENGTH ≤ component.length then none else pathAppendComponent out component) out

/-- `normalizePath(cwd, path, out)`, with an empty `cwd` for none. -/
def normalizePath (cwd path : List Char) : Option (List Char) :=
  match pathLength path, pathLength cwd with
  | some _, some _ =>
    if path.head? = some '/' then pathConsumePart path ['/']
    else if cwd = [] then pathConsumePart path ['/']
    else if cwd.head? = some '/' then
      (pathConsumePart cwd ['/']).bind (pathConsumePart path)
    else none
  | _, _ => none

inductive Component where
  | tooLong
  | none
  | next (name rest : List Char)
  deriving DecidableEq, Repr

/-- `path_next_component`, on the path from `pos` on. -/
def pathNextComponent (path : List Char) : Component :=
  let path := path.dropWhile (· = '/')
  if path = [] then .none
  else if MAX_PATH_LENGTH ≤ (path.takeWhile (· ≠ '/')).length then .tooLong
  else .next (path.takeWhile (· ≠ '/')) (path.dropWhile (· ≠ '/'))

theorem pathNextComponent_rest {path name rest : List Char}
    (h : pathNextComponent path = .next name rest) : rest.length < path.length := by
  unfold pathNextComponent at h
  have hdrop := List.length_dropWhile_le (· = '/') path
  have hhead := List.dropWhile_get_zero_not (· = '/') path
  generalize path.dropWhile (· = '/') = q at h hdrop hhead
  cases q with
  | nil => simp at h
  | cons c q =>
      have hc : c ≠ '/' := by simpa using hhead (by simp)
      have hrest : rest = q.dropWhile (· ≠ '/') := by
        by_cases hlong : MAX_PATH_LENGTH ≤ ((c :: q).takeWhile (· ≠ '/')).length
        · simp only [hlong, if_true] at h
          simp at h
        · simp only [hlong, if_false, reduceCtorEq, Component.next.injEq] at h
          rw [← h.2, List.dropWhile_cons_of_pos (by simpa using hc)]
      have hq := List.length_dropWhile_le (· ≠ '/') q
      rw [List.length_cons] at hdrop
      rw [hrest]
      omega

def pathIsMntPrefix (path : List Char) : Bool :=
  path.take 4 = ['/', 'm', 'n', 't'] && (path[4]? = some '/' || path[4]? = none)

/-- Slots a name can be mounted in; slot 0 is the root volume's. -/
instance : NeZero MAX_DISK_COUNT := ⟨by decide⟩

def mountSlots : List (Fin MAX_DISK_COUNT) := [1, 2, 3]

/-- `path_resolve_fs`: the slot and the path below it, or nothing for a name under `/mnt` that no volume
has. -/
def pathResolveFs (fs_table : FsTable) (normalized : List Char) :
    Option (Fin MAX_DISK_COUNT × List Char) :=
  if pathIsMntPrefix normalized = false ∨ normalized.length = 4 then some (0, normalized.drop 1)
  else
    match pathNextComponent (normalized.drop 5) with
    | .tooLong => none
    | .none => some (0, normalized.drop 1)
    | .next component rest =>
      match mountSlots.find? fun i => (fs_table i).inuse && (fs_table i).disk_name = component with
      | none => none
      | some i => some (i, rest.dropWhile (· = '/'))

end SysuOs.Vfs
