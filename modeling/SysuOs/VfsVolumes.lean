import SysuOs.FatRun
import SysuOs.VfsLookup
import SysuOs.VfsMount
import SysuOs.VfsNormal

/-! The calls of the file manager on paths: `lookup`, `ls` and those that change the directory a path is in. Each
runs on the volume of the path alone, but for the changing ones on the root of a volume: these look for its
parent in the volume that `/mnt` is in. -/

namespace SysuOs.Vfs

def ARCHIVE : Byte := 0x20

/-- The volumes of the slots. -/
abbrev Disks := Fin MAX_DISK_COUNT → FatVolume

inductive VfsEntryType where
  | UNKNOWN
  | FILE
  | DIR
  deriving DecidableEq, Repr

structure LsEntry where
  name : List Byte
  type : VfsEntryType
  attr : Byte
  start_cluster : Nat
  size : Nat

def fillLsEntry (src : NormalizedEntry) : LsEntry :=
  ⟨src.name, if src.attr &&& DIRECTORY ≠ 0 then .DIR else .FILE, src.attr, src.startCluster, src.fileSize⟩

/-- `path_is_fs_root`. -/
def pathIsFsRoot (fs_table : FsTable) (path : List Char) (expected : Fin MAX_DISK_COUNT) : Bool :=
  match pathResolveFs fs_table path with
  | none => false
  | some (slot, rest) => slot = expected && rest = []

/-- `release_openfile_node`; the `fat12_fs` of an inode is the volume whose pool it is in. -/
def releaseOpenfileNode (volumes : Disks) (openfile : OpenFile) : Disks :=
  match openfile.type, openfile.node with
  | .FXT12, some node =>
      Function.update volumes node.fat12_fs ((volumes node.fat12_fs).releaseInode node.place)
  | _, _ => volumes

section

variable {n : Nat}

/-- `release_lookup_openfile`. -/
def releaseLookupOpenfile (s : Files n) (volumes : Disks) (file : Option (Fin MAX_OPENFILE_COUNT)) : Files n × Disks :=
  match file with
  | none => (s, volumes)
  | some i =>
    let openfile := s.openfile_table i
    if openfile.refcount ≤ 0 then (s.releaseOpenfile i, releaseOpenfileNode volumes openfile) else (s, volumes)

/-- What `resolve_parent` finds: the name, the slot of the path, and the inode of the parent, null for the
root of a volume. -/
structure Parent where
  name : List Char
  slot : Fin MAX_DISK_COUNT
  node : Option Inode

/-- `resolve_parent`, with the open file of the parent, which is there to be released also where it fails. -/
def resolveParent (s : Files n) (fs_table : FsTable) (volumes : Disks) (cwd path : List Char) :
    SysuOs.Outcome ((Option Parent × Option (Fin MAX_OPENFILE_COUNT) × Files n) × Disks) :=
  match normalizePath cwd path with
  | none => return ((none, none, s), volumes)
  | some normalized =>
  match splitPath cwd normalized with
  | none => return ((none, none, s), volumes)
  | some (parent, name) =>
  match pathResolveFs fs_table normalized with
  | none => return ((none, none, s), volumes)
  | some (slot, _) =>
  match (fs_table slot).type with
  | .NONE => return ((none, none, s), volumes)
  | .FXT12 =>
    if pathIsFsRoot fs_table parent slot then return ((some ⟨name, slot, none⟩, none, s), volumes)
    else do
      let (file, _, s, volumes) ← lookupPath s fs_table volumes cwd parent
      match file with
      | none => return ((none, none, s), volumes)
      | some i =>
        if (s.openfile_table i).type ≠ .FXT12 then return ((none, some i, s), volumes)
        else return ((some ⟨name, slot, (s.openfile_table i).node⟩, some i, s), volumes)

/-- The check of a parent: an inode of another volume, or not of a directory. -/
def Parent.Rejected (parent : Parent) (volumes : Disks) : Prop :=
  ∃ node ∈ parent.node,
    ((volumes node.fat12_fs).inodepool.inodes node.place).fat12Fs ≠ (volumes parent.slot).fs.this ∨
      ((volumes node.fat12_fs).inodepool.inodes node.place).attr &&& DIRECTORY = 0

instance (parent : Parent) (volumes : Disks) : Decidable (parent.Rejected volumes) :=
  inferInstanceAs (Decidable (∃ node ∈ parent.node, _))

/-- What `create_file`, `remove_file`, `mkdir` and `rmdir` have in common, `act` being the call of the volume:
0 or -1. The flag `dirty` is set with 0. -/
def changeParent (act : FatVolume → Option Nat → List Byte → SysuOs.Outcome (Bool × FatVolume)) (s : Files n)
    (fs_table : FsTable) (volumes : Disks) (cwd path : List Char) : SysuOs.Outcome ((Int × Files n) × Disks) := do
  let ((parent, file, s), volumes) ← resolveParent s fs_table volumes cwd path
  match parent with
  | none =>
    let (s, volumes) := releaseLookupOpenfile s volumes file
    return ((-1, s), volumes)
  | some parent =>
    if parent.Rejected volumes then
      let (s, volumes) := releaseLookupOpenfile s volumes file
      return ((-1, s), volumes)
    else do
      let (res, vol) ← act (volumes parent.slot) (parent.node.map Inode.place) (bytesOf parent.name)
      let (s, volumes) := releaseLookupOpenfile s (Function.update volumes parent.slot vol) file
      return ((if res then 0 else -1, s), volumes)

def createFile (s : Files n) := changeParent (fun vol dir name => vol.createFile dir name ARCHIVE) s

def removeFile (s : Files n) := changeParent FatVolume.remove s

def mkdir (s : Files n) := changeParent FatVolume.createDirectory s

def rmdir (s : Files n) := changeParent FatVolume.removeDirectory s

/-- The loop of `ls`, with `left` entries of the buffer left. -/
def lsLoop : Nat → FAT12FS → DirIter → Nat → SysuOs.Outcome (List LsEntry × FAT12FS)
  | 0, _, _, _ => .diverge
  | fuel + 1, fs, it, left =>
    if left = 0 then return ([], fs)
    else do
      let (found, it, fs) ← it.next fs
      let entry := it.current.normalizedEntry
      if !found then return ([], fs)
      else if entry.name = [] ∨ entry.name.head? = some 0xE5 then lsLoop fuel fs it left
      else do
        let (entries, fs) ← lsLoop fuel fs it (left - 1)
        return (fillLsEntry entry :: entries, fs)

/-- `ls` of a directory, null for the root of the volume. More than `maxEntries` entries without a name in a row
are those of a cycle. -/
def lsDir (vol : FatVolume) (dir : Option Nat) (max_entries : Nat) :
    SysuOs.Outcome (Option (List LsEntry) × FatVolume) :=
  match DirIter.init vol.fs (vol.node dir) with
  | none => return (none, vol)
  | some it => do
    let (entries, fs) ← lsLoop ((max_entries + 1) * (maxEntries + 1)) vol.fs it max_entries
    return (some entries, { vol with fs })

/-- `ls`: the entries it puts into the buffer, or nothing where it returns -1. -/
def ls (s : Files n) (fs_table : FsTable) (volumes : Disks) (cwd path : List Char) (max_entries : Int) :
    SysuOs.Outcome ((Option (List LsEntry) × Files n) × Disks) :=
  if max_entries ≤ 0 then return ((none, s), volumes)
  else
    match normalizePath cwd path with
    | none => return ((none, s), volumes)
    | some normalized =>
    match pathResolveFs fs_table normalized with
    | none => return ((none, s), volumes)
    | some (slot, rest) =>
    match (fs_table slot).type with
    | .NONE => return ((none, s), volumes)
    | .FXT12 =>
      if rest = [] then do
        let (entries, vol) ← lsDir (volumes slot) none max_entries.toNat
        return ((entries, s), Function.update volumes slot vol)
      else do
        let (file, _, s, volumes) ← lookupPath s fs_table volumes cwd normalized
        match file with
        | none => return ((none, s), volumes)
        | some i =>
          let fail := do
            let (s, volumes) := releaseLookupOpenfile s volumes (some i)
            return ((none, s), volumes)
          if (s.openfile_table i).type ≠ .FXT12 then fail
          else
            match (s.openfile_table i).node with
            | none => fail
            | some node =>
              if (Parent.mk [] slot (some node)).Rejected volumes then fail
              else do
                let (entries, vol) ← lsDir (volumes slot) (some node.place) max_entries.toNat
                let (s, volumes) := releaseLookupOpenfile s (Function.update volumes slot vol) (some i)
                return ((entries, s), volumes)

end

/-! ### Calls on one volume -/

/-- The call runs on volume `i`: what it returns and what it leaves there is computed from that volume alone, and
the other volumes stay as they are. -/
def OnlyVolume {α : Type} (i : Fin MAX_DISK_COUNT) (op : Disks → SysuOs.Outcome (α × Disks)) : Prop :=
  ∃ f : FatVolume → SysuOs.Outcome (α × FatVolume), ∀ volumes, op volumes = do
    let (a, vol) ← f (volumes i)
    return (a, Function.update volumes i vol)

namespace OnlyVolume

variable {α β : Type} {i : Fin MAX_DISK_COUNT}

theorem ret (i : Fin MAX_DISK_COUNT) (a : α) : OnlyVolume i fun volumes => .ret (a, volumes) := by
  refine ⟨fun vol => .ret (a, vol), ?_⟩
  intro volumes
  rw [Outcome.ret_bind]
  simp only [Function.update_eq_self]
  rfl

theorem run (f : FatVolume → SysuOs.Outcome (α × FatVolume)) : OnlyVolume i fun volumes => do
    let (a, vol) ← f (volumes i)
    return (a, Function.update volumes i vol) :=
  ⟨f, fun _ => rfl⟩

theorem step (a : α) (f : FatVolume → FatVolume) :
    OnlyVolume i fun volumes => .ret (a, Function.update volumes i (f (volumes i))) :=
  ⟨fun vol => .ret (a, f vol), fun _ => rfl⟩

/-- What follows a call need run on the volume only after the results that it can have. -/
theorem bind {op : Disks → SysuOs.Outcome (α × Disks)} {next : α → Disks → SysuOs.Outcome (β × Disks)}
    (hop : OnlyVolume i op) (hnext : ∀ volumes a volumes', op volumes = .ret (a, volumes') → OnlyVolume i (next a)) :
    OnlyVolume i (fun volumes => do
      let (a, volumes) ← op volumes
      next a volumes) := by
  classical
  obtain ⟨f, hf⟩ := hop
  -- the computation that follows a result, where there is one
  let g (a : α) (vol : FatVolume) : SysuOs.Outcome (β × FatVolume) :=
    if h : OnlyVolume i (next a) then h.choose vol else .halt
  refine ⟨fun vol => f vol >>= fun r => g r.1 r.2, ?_⟩
  intro volumes
  have hvolumes := hf volumes
  dsimp only
  rw [hvolumes]
  cases hrun : f (volumes i) with
  | ret r =>
      rw [hrun] at hvolumes
      have h : OnlyVolume i (next r.1) := hnext volumes r.1 _ hvolumes
      have hg : g r.1 r.2 = h.choose r.2 := dif_pos h
      rw [Outcome.ret_bind, Outcome.ret_bind, hg]
      have hspec := h.choose_spec (Function.update volumes i r.2)
      rw [Function.update_self] at hspec
      simp only [Function.update_idem] at hspec
      exact hspec
  | halt => rfl
  | diverge => rfl

/-- Only the result is changed. -/
theorem map {op : Disks → SysuOs.Outcome (α × Disks)} (hop : OnlyVolume i op) (g : α → β) :
    OnlyVolume i (fun volumes => op volumes >>= fun r => .ret (g r.1, r.2)) :=
  hop.bind fun _ a _ _ => OnlyVolume.ret i (g a)

/-- A test that reads the volume. -/
theorem ite {p : FatVolume → Prop} [DecidablePred p] {op op' : Disks → SysuOs.Outcome (α × Disks)}
    (hop : OnlyVolume i op) (hop' : OnlyVolume i op') :
    OnlyVolume i fun volumes => if p (volumes i) then op volumes else op' volumes := by
  obtain ⟨f, hf⟩ := hop
  obtain ⟨f', hf'⟩ := hop'
  refine ⟨fun vol => if p vol then f vol else f' vol, ?_⟩
  intro volumes
  by_cases hp : p (volumes i)
  · simp only [hp, if_true]
    exact hf volumes
  · simp only [hp, if_false]
    exact hf' volumes

theorem congr {op op' : Disks → SysuOs.Outcome (α × Disks)} (h : ∀ volumes, op volumes = op' volumes)
    (hop : OnlyVolume i op') : OnlyVolume i op := by
  rw [funext h]
  exact hop

end OnlyVolume

/-! ### `lookup` -/

/-- An open file of an inode of volume `i`, or of a root. -/
structure OfVolume (i : Fin MAX_DISK_COUNT) (openfile : OpenFile) : Prop where
  type : openfile.type = .FXT12
  node : ∀ node ∈ openfile.node, node.fat12_fs = i

section

variable {n : Nat} {s s' : Files n} {fs_table : FsTable} {cwd path rest : List Char} {i : Fin MAX_DISK_COUNT}

theorem enter_spec {type : FsType} {node : Option Inode} {k : Fin MAX_OPENFILE_COUNT}
    (h : s.enter type node = some (k, s')) :
    (s'.openfile_table k).type = type ∧ (s'.openfile_table k).node = node := by
  unfold Files.enter at h
  split at h
  · rename_i j hfind
    simp only [Option.some.injEq, Prod.mk.injEq] at h
    obtain ⟨rfl, rfl⟩ := h
    have hentry := List.find?_some hfind
    simp only [Bool.and_eq_true, decide_eq_true_iff] at hentry
    exact ⟨hentry.1.2, hentry.2⟩
  · split at h
    · cases h
    · simp only [Option.some.injEq, Prod.mk.injEq] at h
      obtain ⟨rfl, rfl⟩ := h
      simp only [Function.update_self, and_self]

/-- `lookup` of a path in a volume. -/
def lookupIn (s : Files n) (slot : Fin MAX_DISK_COUNT) (rest : List Char) (vol : FatVolume) :
    SysuOs.Outcome ((Option (Fin MAX_OPENFILE_COUNT) × List Visit × Files n) × FatVolume) := do
  let (node, visits, vol) ← walkPath (rest.length + 1) vol none rest
  match node with
  | none => return ((none, visits, s), vol)
  | some current =>
    let node := current.map fun found => Inode.mk slot found.place
    match s.enter .FXT12 node with
    | none => return ((none, visits, s), vol.releaseCurrent current)
    | some (i, files) =>
      let vol := if (s.findOpenfile .FXT12 node).isSome then vol.releaseCurrent current else vol
      return ((some i, visits, files), vol)

/-- The same with the other volumes. -/
def lookupOn (s : Files n) (slot : Fin MAX_DISK_COUNT) (rest : List Char) (volumes : Disks) :
    SysuOs.Outcome ((Option (Fin MAX_OPENFILE_COUNT) × List Visit × Files n) × Disks) := do
  let (r, vol) ← lookupIn s slot rest (volumes slot)
  return (r, Function.update volumes slot vol)

theorem lookupOn_only (s : Files n) (slot : Fin MAX_DISK_COUNT) (rest : List Char) :
    OnlyVolume slot (lookupOn s slot rest) := OnlyVolume.run _

theorem lookupIn_spec {vol vol' : FatVolume} {file : Option (Fin MAX_OPENFILE_COUNT)} {visits : List Visit}
    (h : lookupIn s i rest vol = .ret ((file, visits, s'), vol')) :
    ∀ k ∈ file, OfVolume i (s'.openfile_table k) := by
  rw [lookupIn] at h
  obtain ⟨⟨node, visits', vol₁⟩, -, h⟩ := Outcome.bind_eq_ret h
  cases node with
  | none =>
      cases h
      exact nofun
  | some current =>
      dsimp only at h
      split at h
      · cases h
        exact nofun
      · rename_i k files henter
        cases h
        rintro _ ⟨⟩
        obtain ⟨htype, hnode⟩ := enter_spec henter
        refine ⟨htype, ?_⟩
        rw [hnode]
        intro node hmem
        obtain ⟨found, -, rfl⟩ := Option.map_eq_some_iff.mp hmem
        rfl

theorem lookupPath_eq (h : resolve fs_table cwd path = some (i, rest)) (htype : (fs_table i).type = .FXT12)
    (s : Files n) (volumes : Disks) :
    lookupPath s fs_table volumes cwd path = do
      let ((file, visits, s), volumes) ← lookupOn s i rest volumes
      return (file, visits, s, volumes) := by
  rw [lookupPath, h]
  dsimp only
  rw [htype]
  dsimp only
  rw [lookupOn, lookupIn]
  cases walkPath (rest.length + 1) (volumes i) none rest with
  | halt => rfl
  | diverge => rfl
  | ret r =>
      obtain ⟨node, visits, vol⟩ := r
      simp only [Outcome.ret_bind]
      cases node with
      | none => rfl
      | some current =>
          dsimp only
          cases s.enter .FXT12 (current.map fun found => ⟨i, found.place⟩) with
          | none => rfl
          | some r => simp only [Outcome.ret_bind, Outcome.pure_eq]

theorem lookupPath_none (h : resolve fs_table cwd path = some (i, rest)) (htype : (fs_table i).type = .NONE)
    (s : Files n) (volumes : Disks) : lookupPath s fs_table volumes cwd path = .ret (none, [], s, volumes) := by
  rw [lookupPath, h]
  dsimp only
  rw [htype]
  rfl

/-- `lookup` as a call with a result and the volumes after it. -/
def lookupCall (s : Files n) (fs_table : FsTable) (volumes : Disks) (cwd path : List Char) :
    SysuOs.Outcome ((Option (Fin MAX_OPENFILE_COUNT) × List Visit × Files n) × Disks) := do
  let (file, visits, s, volumes) ← lookupPath s fs_table volumes cwd path
  return ((file, visits, s), volumes)

theorem lookupCall_only (h : resolve fs_table cwd path = some (i, rest)) (s : Files n) :
    OnlyVolume i fun volumes => lookupCall s fs_table volumes cwd path := by
  cases htype : (fs_table i).type with
  | NONE =>
      refine OnlyVolume.congr (fun volumes => ?_) (OnlyVolume.ret i (none, [], s))
      rw [lookupCall, lookupPath_none h htype]
      rfl
  | FXT12 =>
      refine OnlyVolume.congr (fun volumes => ?_) (lookupOn_only s i rest)
      rw [lookupCall, lookupPath_eq h htype]
      cases lookupOn s i rest volumes <;> rfl

/-! ### The parent of a path -/

theorem releaseLookupOpenfile_only {α : Type} (a : Files n → α) {file : Option (Fin MAX_OPENFILE_COUNT)}
    (h : ∀ k ∈ file, OfVolume i (s.openfile_table k)) :
    OnlyVolume i fun volumes => .ret (a (releaseLookupOpenfile s volumes file).1,
      (releaseLookupOpenfile s volumes file).2) := by
  cases file with
  | none => exact OnlyVolume.ret i (a s)
  | some k =>
      obtain ⟨htype, hnode⟩ := h k rfl
      by_cases hcount : (s.openfile_table k).refcount ≤ 0
      · simp only [releaseLookupOpenfile, hcount, if_true, releaseOpenfileNode, htype]
        cases hopen : (s.openfile_table k).node with
        | none => exact OnlyVolume.ret i (a (s.releaseOpenfile k))
        | some node =>
            rw [hopen] at hnode
            obtain rfl := hnode node rfl
            exact OnlyVolume.step _ fun vol => vol.releaseInode node.place
      · simp only [releaseLookupOpenfile, hcount, if_false]
        exact OnlyVolume.ret i (a s)

/-- The parent that is looked up, once the path has been taken apart. -/
def lookupParent (s : Files n) (fs_table : FsTable) (volumes : Disks) (cwd parent name : List Char)
    (slot : Fin MAX_DISK_COUNT) :
    SysuOs.Outcome ((Option Parent × Option (Fin MAX_OPENFILE_COUNT) × Files n) × Disks) := do
  let (file, _, s, volumes) ← lookupPath s fs_table volumes cwd parent
  match file with
  | none => return ((none, none, s), volumes)
  | some i =>
    if (s.openfile_table i).type ≠ .FXT12 then return ((none, some i, s), volumes)
    else return ((some ⟨name, slot, (s.openfile_table i).node⟩, some i, s), volumes)

theorem resolve_normal (h : resolve fs_table cwd path = some (i, rest)) :
    ∃ normalized cs, normalizePath cwd path = some normalized ∧ cwd.length < MAX_PATH_LENGTH ∧ Normal normalized cs ∧
      pathResolveFs fs_table normalized = some (i, rest) := by
  obtain ⟨normalized, hnormalize, hres⟩ := Option.bind_eq_some_iff.mp h
  obtain ⟨hcwd, cs, hnormal⟩ := normalizePath_normal hnormalize
  exact ⟨normalized, cs, hnormalize, hcwd, hnormal, hres⟩

theorem Normal.resolve {normalized : List Char} {cs : List (List Char)} (h : Normal normalized cs)
    (hcwd : cwd.length < MAX_PATH_LENGTH) : resolve fs_table cwd normalized = pathResolveFs fs_table normalized := by
  rw [Vfs.resolve, h.normalizePath hcwd]
  rfl

/-- A root has no parent. -/
theorem resolveParent_root (hnormalize : normalizePath cwd path = some ['/']) (s : Files n) (volumes : Disks) :
    resolveParent s fs_table volumes cwd path = .ret ((none, none, s), volumes) := by
  have hcwd := (normalizePath_normal hnormalize).1
  rw [resolveParent, hnormalize]
  dsimp only
  rw [splitPath, Normal.root.normalizePath hcwd, Option.bind_some, splitNormalized_root]
  rfl

theorem resolveParent_none (h : Vfs.resolve fs_table cwd path = none) (s : Files n) (volumes : Disks) :
    resolveParent s fs_table volumes cwd path = .ret ((none, none, s), volumes) := by
  rw [resolveParent]
  cases hnormalize : normalizePath cwd path with
  | none => rfl
  | some normalized =>
      rw [Vfs.resolve, hnormalize, Option.bind_some] at h
      dsimp only
      cases splitPath cwd normalized with
      | none => rfl
      | some split =>
          dsimp only
          rw [h]
          rfl

section

variable {normalized : List Char} {cs : List (List Char)}

theorem resolveParent_noFs (hnormalize : normalizePath cwd path = some normalized)
    (hres : pathResolveFs fs_table normalized = some (i, rest)) (htype : (fs_table i).type = .NONE) (s : Files n)
    (volumes : Disks) : resolveParent s fs_table volumes cwd path = .ret ((none, none, s), volumes) := by
  rw [resolveParent, hnormalize]
  dsimp only
  cases splitPath cwd normalized with
  | none => rfl
  | some split =>
      dsimp only
      rw [hres]
      dsimp only
      rw [htype]
      rfl

theorem resolveParent_eq (hnormalize : normalizePath cwd path = some normalized) (h : Normal normalized cs)
    (hne : cs ≠ []) (hres : pathResolveFs fs_table normalized = some (i, rest)) (htype : (fs_table i).type = .FXT12)
    (s : Files n) (volumes : Disks) :
    resolveParent s fs_table volumes cwd path =
      if pathIsFsRoot fs_table (render cs.dropLast) i then .ret ((some ⟨cs.getLast hne, i, none⟩, none, s), volumes)
      else lookupParent s fs_table volumes cwd (render cs.dropLast) (cs.getLast hne) i := by
  have hcwd := (normalizePath_normal hnormalize).1
  rw [resolveParent, hnormalize]
  dsimp only
  rw [splitPath, h.normalizePath hcwd, Option.bind_some, h.splitNormalized hne]
  dsimp only
  rw [hres]
  dsimp only
  rw [htype]
  rfl

end

/-- The parent of a path, and its open file, are in the volume of the path. -/
structure InVolume (i : Fin MAX_DISK_COUNT) (s : Files n) (parent : Option Parent)
    (file : Option (Fin MAX_OPENFILE_COUNT)) : Prop where
  slot : ∀ p ∈ parent, p.slot = i
  node : ∀ p ∈ parent, ∀ node ∈ p.node, node.fat12_fs = i
  file : ∀ k ∈ file, OfVolume i (s.openfile_table k)

theorem InVolume.none (s : Files n) : InVolume i s none none := ⟨nofun, nofun, nofun⟩

/-- What `lookup` has found of the parent. -/
def parentFound (name : List Char) (slot : Fin MAX_DISK_COUNT)
    (r : Option (Fin MAX_OPENFILE_COUNT) × List Visit × Files n) :
    Option Parent × Option (Fin MAX_OPENFILE_COUNT) × Files n :=
  match r.1 with
  | none => (none, none, r.2.2)
  | some k =>
    if (r.2.2.openfile_table k).type ≠ .FXT12 then (none, some k, r.2.2)
    else (some ⟨name, slot, (r.2.2.openfile_table k).node⟩, some k, r.2.2)

theorem lookupParent_eq {parent : List Char} {j : Fin MAX_DISK_COUNT}
    (h : Vfs.resolve fs_table cwd parent = some (j, rest)) (htype : (fs_table j).type = .FXT12) (s : Files n)
    (name : List Char) (volumes : Disks) :
    lookupParent s fs_table volumes cwd parent name i =
      lookupOn s j rest volumes >>= fun r => .ret (parentFound name i r.1, r.2) := by
  rw [lookupParent, lookupPath_eq h htype]
  cases lookupOn s j rest volumes with
  | halt => rfl
  | diverge => rfl
  | ret r =>
      obtain ⟨⟨file, visits, s'⟩, volumes'⟩ := r
      cases file with
      | none => rfl
      | some k =>
          simp only [Outcome.ret_bind, Outcome.pure_eq, parentFound]
          split <;> rfl

theorem lookupParent_only {parent name : List Char} (h : Vfs.resolve fs_table cwd parent = some (i, rest))
    (htype : (fs_table i).type = .FXT12) (s : Files n) :
    (OnlyVolume i fun volumes => lookupParent s fs_table volumes cwd parent name i) ∧
      ∀ volumes p file s' volumes', lookupParent s fs_table volumes cwd parent name i = .ret ((p, file, s'), volumes') →
        InVolume i s' p file := by
  have heq := lookupParent_eq (i := i) h htype s name
  refine ⟨OnlyVolume.congr heq ((lookupOn_only s i rest).map (parentFound name i)), ?_⟩
  intro volumes p file s' volumes' hret
  rw [heq] at hret
  obtain ⟨⟨⟨found, visits, s₁⟩, volumes₁⟩, hlookup, hret⟩ := Outcome.bind_eq_ret hret
  obtain ⟨⟨r, vol⟩, hin, hr⟩ := Outcome.bind_eq_ret hlookup
  cases hr
  have hspec := lookupIn_spec hin
  cases found with
  | none =>
      cases hret
      exact InVolume.none _
  | some k =>
      obtain ⟨hfxt, hnode⟩ := hspec k rfl
      simp only [parentFound, hfxt, ne_eq, not_true, if_false] at hret
      cases hret
      refine ⟨?_, ?_, ?_⟩
      · rintro p ⟨⟩
        rfl
      · rintro p ⟨⟩
        exact hnode
      · rintro k ⟨⟩
        exact ⟨hfxt, hnode⟩

theorem resolveParent_only (h : Vfs.resolve fs_table cwd path = some (i, rest)) (hroot : ¬ (rest = [] ∧ i ≠ 0))
    (s : Files n) :
    (OnlyVolume i fun volumes => resolveParent s fs_table volumes cwd path) ∧
      ∀ volumes p file s' volumes', resolveParent s fs_table volumes cwd path = .ret ((p, file, s'), volumes') →
        InVolume i s' p file := by
  have hfail : (∀ volumes, resolveParent s fs_table volumes cwd path = .ret ((none, none, s), volumes)) →
      (OnlyVolume i fun volumes => resolveParent s fs_table volumes cwd path) ∧
        ∀ volumes p file s' volumes', resolveParent s fs_table volumes cwd path = .ret ((p, file, s'), volumes') →
          InVolume i s' p file := by
    intro heq
    refine ⟨OnlyVolume.congr heq (OnlyVolume.ret i _), ?_⟩
    intro volumes p file s' volumes' hret
    rw [heq] at hret
    cases hret
    exact InVolume.none s
  obtain ⟨normalized, cs, hnormalize, hcwd, hnormal, hres⟩ := resolve_normal h
  cases htype : (fs_table i).type with
  | NONE => exact hfail (resolveParent_noFs hnormalize hres htype s)
  | FXT12 =>
      by_cases hne : cs = []
      · refine hfail (resolveParent_root ?_ s)
        rw [hnormalize, hnormal.eq, hne]
        rfl
      · obtain ⟨rest', hparent⟩ := hnormal.resolve_parent hne hres hroot
        have hlookup := @lookupParent_only _ _ _ _ _ _ (cs.getLast hne) ((hnormal.dropLast.resolve hcwd).trans hparent) htype s
        have heq := resolveParent_eq hnormalize hnormal hne hres htype s
        by_cases hfsroot : pathIsFsRoot fs_table (render cs.dropLast) i
        · simp only [hfsroot, if_true] at heq
          refine ⟨OnlyVolume.congr heq (OnlyVolume.ret i _), ?_⟩
          intro volumes p file s' volumes' hret
          rw [heq] at hret
          cases hret
          refine ⟨?_, ?_, nofun⟩
          · rintro p ⟨⟩
            rfl
          · rintro p ⟨⟩
            exact nofun
        · simp only [hfsroot] at heq
          refine ⟨OnlyVolume.congr heq hlookup.1, ?_⟩
          intro volumes p file s' volumes' hret
          rw [heq] at hret
          exact hlookup.2 volumes p file s' volumes' hret

/-! ### The calls -/

/-- What the changing calls do with the parent that has been found. -/
def changeFound (act : FatVolume → Option Nat → List Byte → SysuOs.Outcome (Bool × FatVolume))
    (r : Option Parent × Option (Fin MAX_OPENFILE_COUNT) × Files n) (volumes : Disks) :
    SysuOs.Outcome ((Int × Files n) × Disks) :=
  match r.1 with
  | none => .ret ((-1, (releaseLookupOpenfile r.2.2 volumes r.2.1).1), (releaseLookupOpenfile r.2.2 volumes r.2.1).2)
  | some parent =>
    if parent.Rejected volumes then
      .ret ((-1, (releaseLookupOpenfile r.2.2 volumes r.2.1).1), (releaseLookupOpenfile r.2.2 volumes r.2.1).2)
    else do
      let (res, vol) ← act (volumes parent.slot) (parent.node.map Inode.place) (bytesOf parent.name)
      let released := releaseLookupOpenfile r.2.2 (Function.update volumes parent.slot vol) r.2.1
      return ((if res then 0 else -1, released.1), released.2)

theorem changeParent_eq (act : FatVolume → Option Nat → List Byte → SysuOs.Outcome (Bool × FatVolume)) (s : Files n)
    (volumes : Disks) : changeParent act s fs_table volumes cwd path =
      resolveParent s fs_table volumes cwd path >>= fun r => changeFound act r.1 r.2 := by
  rw [changeParent]
  cases resolveParent s fs_table volumes cwd path with
  | halt => rfl
  | diverge => rfl
  | ret r =>
      obtain ⟨⟨p, file, s'⟩, volumes'⟩ := r
      cases p <;> rfl

/-- The check of a parent in the volume of the path reads that volume. -/
theorem rejected_iff {parent : Parent} (hslot : parent.slot = i) (hnode : ∀ node ∈ parent.node, node.fat12_fs = i)
    (volumes : Disks) : parent.Rejected volumes ↔ ∃ node ∈ parent.node,
      ((volumes i).inodepool.inodes node.place).fat12Fs ≠ (volumes i).fs.this ∨
        ((volumes i).inodepool.inodes node.place).attr &&& DIRECTORY = 0 := by
  rw [Parent.Rejected, hslot]
  constructor
  · rintro ⟨node, hmem, hbad⟩
    rw [hnode node hmem] at hbad
    exact ⟨node, hmem, hbad⟩
  · rintro ⟨node, hmem, hbad⟩
    refine ⟨node, hmem, ?_⟩
    rw [hnode node hmem]
    exact hbad

theorem changeFound_only (act : FatVolume → Option Nat → List Byte → SysuOs.Outcome (Bool × FatVolume))
    {p : Option Parent} {file : Option (Fin MAX_OPENFILE_COUNT)} (h : InVolume i s p file) :
    OnlyVolume i (changeFound act (p, file, s)) := by
  have hrelease := releaseLookupOpenfile_only (fun s => ((-1 : Int), s)) h.file
  cases p with
  | none => exact hrelease
  | some parent =>
      have hslot := h.slot parent rfl
      have hact : OnlyVolume i fun volumes => do
          let (res, vol) ← act (volumes i) (parent.node.map Inode.place) (bytesOf parent.name)
          return (res, Function.update volumes i vol) :=
        OnlyVolume.run fun vol => act vol (parent.node.map Inode.place) (bytesOf parent.name)
      have hdone := hact.bind fun _ res _ _ =>
        releaseLookupOpenfile_only (fun s => ((if res then (0 : Int) else -1), s)) h.file
      classical
      refine OnlyVolume.congr (fun volumes => ?_) (OnlyVolume.ite (p := fun vol => ∃ node ∈ parent.node,
        (vol.inodepool.inodes node.place).fat12Fs ≠ vol.fs.this ∨
          (vol.inodepool.inodes node.place).attr &&& DIRECTORY = 0) hrelease hdone)
      have hrejected := rejected_iff hslot (h.node parent rfl) volumes
      rw [changeFound]
      dsimp only
      by_cases hbad : parent.Rejected volumes
      · rw [if_pos hbad, if_pos (hrejected.mp hbad)]
      · rw [if_neg hbad, if_neg fun hgood => hbad (hrejected.mpr hgood), hslot]
        cases act (volumes i) (parent.node.map Inode.place) (bytesOf parent.name) <;> rfl

theorem changeParent_only (act : FatVolume → Option Nat → List Byte → SysuOs.Outcome (Bool × FatVolume))
    (h : Vfs.resolve fs_table cwd path = some (i, rest)) (hroot : ¬ (rest = [] ∧ i ≠ 0)) (s : Files n) :
    OnlyVolume i fun volumes => changeParent act s fs_table volumes cwd path := by
  obtain ⟨hparent, hfound⟩ := resolveParent_only h hroot s
  refine OnlyVolume.congr (changeParent_eq act s) (hparent.bind ?_)
  rintro volumes ⟨p, file, s'⟩ volumes' hret
  exact changeFound_only act (hfound volumes p file s' volumes' hret)

/-- What `ls` does with the directory that has been found. -/
def lsFound (slot : Fin MAX_DISK_COUNT) (max_entries : Int) (r : Option (Fin MAX_OPENFILE_COUNT) × List Visit × Files n)
    (volumes : Disks) : SysuOs.Outcome ((Option (List LsEntry) × Files n) × Disks) :=
  match r.1 with
  | none => .ret ((none, r.2.2), volumes)
  | some k =>
    let released := releaseLookupOpenfile r.2.2 volumes (some k)
    if (r.2.2.openfile_table k).type ≠ .FXT12 then .ret ((none, released.1), released.2)
    else
      match (r.2.2.openfile_table k).node with
      | none => .ret ((none, released.1), released.2)
      | some node =>
        if (Parent.mk [] slot (some node)).Rejected volumes then .ret ((none, released.1), released.2)
        else do
          let (entries, vol) ← lsDir (volumes slot) (some node.place) max_entries.toNat
          let released := releaseLookupOpenfile r.2.2 (Function.update volumes slot vol) (some k)
          return ((entries, released.1), released.2)

theorem lsFound_only {file : Option (Fin MAX_OPENFILE_COUNT)} (h : ∀ k ∈ file, OfVolume i (s.openfile_table k))
    (visits : List Visit) (max_entries : Int) : OnlyVolume i (lsFound i max_entries (file, visits, s)) := by
  cases file with
  | none => exact OnlyVolume.ret i _
  | some k =>
      have hfail := releaseLookupOpenfile_only (fun s => ((none : Option (List LsEntry)), s)) h
      obtain ⟨htype, hnode⟩ := h k rfl
      cases hopen : (s.openfile_table k).node with
      | none =>
          refine OnlyVolume.congr (fun volumes => ?_) hfail
          simp only [lsFound, htype, hopen, ne_eq, not_true, if_false]
      | some node =>
          rw [hopen] at hnode
          have hlist : OnlyVolume i fun volumes => do
              let (entries, vol) ← lsDir (volumes i) (some node.place) max_entries.toNat
              return (entries, Function.update volumes i vol) :=
            OnlyVolume.run fun vol => lsDir vol (some node.place) max_entries.toNat
          have hdone := hlist.bind fun _ entries _ _ => releaseLookupOpenfile_only (fun s => (entries, s)) h
          classical
          refine OnlyVolume.congr (fun volumes => ?_) (OnlyVolume.ite (p := fun vol => ∃ node' ∈ some node,
            (vol.inodepool.inodes node'.place).fat12Fs ≠ vol.fs.this ∨
              (vol.inodepool.inodes node'.place).attr &&& DIRECTORY = 0) hfail hdone)
          have hrejected := @rejected_iff i ⟨[], i, some node⟩ rfl hnode volumes
          simp only [lsFound, htype, hopen, ne_eq, not_true, if_false]
          by_cases hbad : (Parent.mk [] i (some node)).Rejected volumes
          · rw [if_pos hbad, if_pos (hrejected.mp hbad)]
          · rw [if_neg hbad, if_neg fun hgood => hbad (hrejected.mpr hgood)]
            cases lsDir (volumes i) (some node.place) max_entries.toNat <;> rfl

theorem ls_only (h : Vfs.resolve fs_table cwd path = some (i, rest)) (s : Files n) (max_entries : Int) :
    OnlyVolume i fun volumes => ls s fs_table volumes cwd path max_entries := by
  have hfail : (∀ volumes, ls s fs_table volumes cwd path max_entries = .ret ((none, s), volumes)) →
      OnlyVolume i fun volumes => ls s fs_table volumes cwd path max_entries :=
    fun heq => OnlyVolume.congr heq (OnlyVolume.ret i _)
  obtain ⟨normalized, cs, hnormalize, hcwd, hnormal, hres⟩ := resolve_normal h
  by_cases hmax : max_entries ≤ 0
  · refine hfail fun volumes => ?_
    rw [ls, if_pos hmax]
    rfl
  · cases htype : (fs_table i).type with
    | NONE =>
        refine hfail fun volumes => ?_
        rw [ls, if_neg hmax, hnormalize]
        dsimp only
        rw [hres]
        dsimp only
        rw [htype]
        rfl
    | FXT12 =>
        by_cases hrest : rest = []
        · have hlist : OnlyVolume i fun volumes => do
              let (entries, vol) ← lsDir (volumes i) none max_entries.toNat
              return (entries, Function.update volumes i vol) :=
            OnlyVolume.run fun vol => lsDir vol none max_entries.toNat
          refine OnlyVolume.congr (fun volumes => ?_) (hlist.map fun entries => (entries, s))
          rw [ls, if_neg hmax, hnormalize]
          dsimp only
          rw [hres]
          dsimp only
          rw [htype]
          dsimp only
          rw [if_pos hrest]
          cases lsDir (volumes i) none max_entries.toNat <;> rfl
        · have hlookup := (hnormal.resolve hcwd).trans hres
          refine OnlyVolume.congr (fun volumes => ?_)
            (@OnlyVolume.bind _ _ _ _ (lsFound i max_entries) (lookupOn_only s i rest) ?_)
          · rw [ls, if_neg hmax, hnormalize]
            dsimp only
            rw [hres]
            dsimp only
            rw [htype]
            dsimp only
            rw [if_neg hrest, lookupPath_eq hlookup htype]
            rcases lookupOn s i rest volumes with ⟨⟨file, visits, s'⟩, volumes'⟩ | _ | _
            · cases file <;> rfl
            · rfl
            · rfl
          · rintro volumes ⟨file, visits, s'⟩ volumes' hret
            obtain ⟨⟨r, vol⟩, hin, hr⟩ := Outcome.bind_eq_ret hret
            cases hr
            exact lsFound_only (lookupIn_spec hin) visits max_entries

end

end SysuOs.Vfs
