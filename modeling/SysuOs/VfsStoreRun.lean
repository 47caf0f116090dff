import SysuOs.VfsStore

/-! Runs of calls on open files: every call of any process on the volumes is a call on the store. -/

namespace SysuOs.Vfs

open FileStore FAT12FS

namespace FileSys

variable {n : Nat} {m m' : FileSys n} {s s' : Bytes n} {chain : Inode → List Nat}

/-- A call on a descriptor that has no file open changes nothing. -/
theorem Holds.idle (h : Holds m s chain) (fs_table : FsTable) {c : FileCall n}
    (hopen : ∀ process cwd path, c ≠ .open process cwd path) (hfork : ∀ child parent, c ≠ .fork child parent)
    (hnone : s.subject c = none) : ∃ r, m.callInto fs_table c = .ret (r, none, m) := by
  cases c with
  | «open» process cwd path => exact absurd rfl (hopen process cwd path)
  | fork child parent => exact absurd rfl (hfork child parent)
  | close process fd =>
      simp only [callInto, call]
      cases hk : fdOf fd.toInt with
      | none => exact ⟨-1, rfl⟩
      | some k =>
          refine ⟨-1, ?_⟩
          simp only [FileSys.close, h.unopened hnone hk]
          cases (m.file (process, k)).type <;> rfl
  | read process fd buf size typed =>
      simp only [callInto]
      cases hk : fdOf fd.toInt with
      | none => exact ⟨-1, rfl⟩
      | some k =>
          have hfile := h.unopened hnone hk
          cases buf with
          | none => exact ⟨-1, rfl⟩
          | some out =>
              simp only [readInto, transferInto, hfile]
              split
              · exact ⟨-1, rfl⟩
              · split
                · exact ⟨typed, rfl⟩
                · exact ⟨-1, rfl⟩
                · exact ⟨-1, rfl⟩
  | write process fd buf size =>
      simp only [callInto, call]
      cases hk : fdOf fd.toInt with
      | none => exact ⟨-1, rfl⟩
      | some k =>
          have hfile := h.unopened hnone hk
          cases buf with
          | none => exact ⟨-1, rfl⟩
          | some src =>
              simp only [FileSys.write, transfer, hfile]
              split
              · exact ⟨-1, rfl⟩
              · split
                · exact ⟨size.toInt, rfl⟩
                · exact ⟨size.toInt, rfl⟩
                · exact ⟨-1, rfl⟩
                · exact ⟨-1, rfl⟩
  | append process fd buf size =>
      simp only [callInto, call]
      cases hk : fdOf fd.toInt with
      | none => exact ⟨-1, rfl⟩
      | some k =>
          have hfile := h.unopened hnone hk
          cases buf with
          | none => exact ⟨-1, rfl⟩
          | some src =>
              refine ⟨-1, ?_⟩
              simp only [FileSys.append, hfile]
              split
              · rfl
              · cases (m.file (process, k)).type <;> rfl
  | fseek process fd bias whence =>
      simp only [callInto, call]
      cases hk : fdOf fd.toInt with
      | none => exact ⟨-1, rfl⟩
      | some k =>
          simp only [FileSys.fseek, h.unopened hnone hk]
          exact ⟨-1, rfl⟩

/-- Descriptors are given up or passed on, and the files stay as they are. -/
theorem Holds.redirect (h : Holds m s chain) (hvalid : m'.Valid)
    (hopened : ∀ fd i, (m'.file fd).openfile = some i → (m'.file fd).type = .FILE ∧
      (m'.files.openfile_table i).type = .FXT12 ∧ (m'.files.openfile_table i).node.isSome)
    (htarget : s'.target = m'.key)
    (hoffset : ∀ fd node, m'.key fd = some node → (m'.file fd).offset = s'.offset fd)
    (hlive : ∀ node, m'.Live node → m.Live node) (hfs : ∀ slot, (m'.volumes slot).fs = (m.volumes slot).fs)
    (hinodes : ∀ slot, (m'.volumes slot).inodepool.inodes = (m.volumes slot).inodepool.inodes)
    (hcontent : s'.content = s.content) : Holds m' s' chain where
  valid := hvalid
  opened := hopened
  target := htarget
  offset := hoffset
  volume node hnode := by
    unfold Stored
    rw [hfs, hinodes]
    exact (h.volume node (hlive node hnode)).mono fun place hplace => hlive _ hplace
  content node hnode := by
    unfold inode
    rw [hcontent, hfs, hinodes]
    exact h.content node (hlive node hnode)

theorem releaseOpenfileNode_fs (volumes : Disks) (openfile : OpenFile) (slot : Fin MAX_DISK_COUNT) :
    (releaseOpenfileNode volumes openfile slot).fs = (volumes slot).fs := by
  cases htype : openfile.type with
  | NONE => simp only [releaseOpenfileNode, htype]
  | FXT12 =>
      cases hnode : openfile.node with
      | none => simp only [releaseOpenfileNode, htype, hnode]
      | some node =>
          simp only [releaseOpenfileNode, htype, hnode]
          by_cases hslot : slot = node.fat12_fs
          · rw [hslot, Function.update_self, FatVolume.releaseInode_fs]
          · rw [Function.update_of_ne hslot]

/-- Only the count of an entry changes, and the descriptor that is cleared. -/
theorem cleared_entry (m : FileSys n) (d : Fd n) (file : File) (i j : Fin MAX_OPENFILE_COUNT) :
    (((m.files.setFile d file).count i (-1)).openfile_table j).type = (m.files.openfile_table j).type ∧
      (((m.files.setFile d file).count i (-1)).openfile_table j).node = (m.files.openfile_table j).node :=
  ⟨Balanced.count_type m.files d file i j (-1), count_node m.files d file i j (-1)⟩

/-- What `close` leaves of the descriptors and of the entries that they refer to. -/
theorem close_files {d : Fd n} {i : Fin MAX_OPENFILE_COUNT} (htype : (m.file d).type = .FILE)
    (hfile : (m.file d).openfile = some i) (hvalid : m.Valid) :
    (∀ k, (m.close d).2.file k = if k = d then ⟨none, 0, .EMPTY, (m.file d).volume⟩ else m.file k) ∧
      ∀ k j, ((m.close d).2.file k).openfile = some j →
        ((m.close d).2.files.openfile_table j).type = (m.files.openfile_table j).type ∧
          ((m.close d).2.files.openfile_table j).node = (m.files.openfile_table j).node := by
  have hback := (hvalid.close d).backed.file
  have hfiles : ∀ k, (m.files.setFile d ⟨none, 0, .EMPTY, (m.file d).volume⟩).fd_table k =
      if k = d then ⟨none, 0, .EMPTY, (m.file d).volume⟩ else m.file k := fun k => by
    unfold Files.setFile
    dsimp only
    by_cases hk : k = d
    · rw [if_pos hk, hk, Function.update_self]
    · rw [if_neg hk, Function.update_of_ne hk]
      rfl
  unfold FileSys.close at hback ⊢
  simp only [htype, hfile] at hback ⊢
  split at hback
  · rename_i hlast
    rw [if_pos hlast]
    refine ⟨hfiles, fun k j hj => ?_⟩
    have hne : j ≠ i := by
      rintro rfl
      have hused := (hback k j hj).2.1
      simp only [FileSys.release, Files.releaseOpenfile, Function.update_self] at hused
      cases hused
    simp only [FileSys.release, Files.releaseOpenfile, Function.update_of_ne hne]
    exact cleared_entry m d _ i j
  · rename_i hmore
    rw [if_neg hmore]
    exact ⟨hfiles, fun k j _ => cleared_entry m d _ i j⟩

/-- `close` changes neither the volumes nor the inodes. -/
theorem close_volumes (m : FileSys n) (d : Fd n) (slot : Fin MAX_DISK_COUNT) :
    ((m.close d).2.volumes slot).fs = (m.volumes slot).fs ∧
      ((m.close d).2.volumes slot).inodepool.inodes = (m.volumes slot).inodepool.inodes := by
  unfold FileSys.close
  split
  · dsimp only
    split
    · exact ⟨releaseOpenfileNode_fs _ _ _, releaseOpenfileNode_inodes _ _ _⟩
    · exact ⟨rfl, rfl⟩
  · exact ⟨rfl, rfl⟩

theorem Holds.close (h : Holds m s chain) (fs_table : FsTable) {process : Fin n} {fd : Int32} {d : Fd n}
    {node : Inode} (hopen : s.opened process fd = some (d, node)) :
    ∃ r bytes m' s', m.callInto fs_table (.close process fd) = .ret (r, bytes, m') ∧
      s.Does m'.Full (.close process fd) r bytes s' ∧ Holds m' s' chain := by
  obtain ⟨i, hrefers⟩ := h.refers hopen
  obtain ⟨hfiles, htable⟩ := close_files hrefers.type hrefers.openfile h.valid
  have hzero : (m.close d).1 = 0 := by
    unfold FileSys.close
    simp only [hrefers.type, hrefers.openfile]
  have hinto : m.callInto fs_table (.close process fd) = .ret (0, none, (m.close d).2) := by
    simp only [callInto, call, hrefers.fdOf]
    rw [← hrefers.process, ← hzero]
    rfl
  have hkey : ∀ k, (m.close d).2.key k = if k = d then none else m.key k := fun k => by
    have hk := hfiles k
    unfold key
    by_cases hkd : k = d
    · rw [hk, if_pos hkd, if_pos hkd]
      rfl
    · rw [if_neg hkd]
      rw [if_neg hkd] at hk
      cases hfile : (m.file k).openfile with
      | none =>
          rw [hk, hfile]
          rfl
      | some j =>
          have hj : ((m.close d).2.file k).openfile = some j := by rw [hk, hfile]
          rw [hj, Option.bind_some, Option.bind_some, (htable k j hj).2]
  refine ⟨0, none, _, s.close d, hinto, .close hopen, h.redirect (h.valid.close d) (fun k j hj => ?_) ?_
    (fun k other hk => ?_) ?_ (fun slot => (close_volumes m d slot).1)
    (fun slot => (close_volumes m d slot).2) rfl⟩
  · obtain ⟨htype, hnode⟩ := htable k j hj
    rw [hfiles k] at hj ⊢
    rw [htype, hnode]
    split at hj
    · cases hj
    · rename_i hkd
      rw [if_neg hkd]
      exact h.opened k j hj
  · funext k
    rw [hkey]
    unfold Store.close
    dsimp only
    by_cases hkd : k = d
    · rw [if_pos hkd, hkd, Function.update_self]
    · rw [if_neg hkd, Function.update_of_ne hkd, h.target]
  · rw [hkey] at hk
    split at hk
    · cases hk
    · rename_i hkd
      rw [hfiles k, if_neg hkd]
      exact h.offset k other hk
  · rintro other ⟨k, hk⟩
    rw [hkey] at hk
    split at hk
    · cases hk
    · exact ⟨k, hk⟩

/-- The descriptors after a fork, and the entries they refer to. -/
theorem forkProcessFs_spec (files : Files n) (child parent : Fin n) :
    (∀ k, (files.forkProcessFs child parent).fd_table k =
      files.fd_table (if k.1 = child then (parent, k.2) else k)) ∧
      ∀ i, ((files.forkProcessFs child parent).openfile_table i).type = (files.openfile_table i).type ∧
        ((files.forkProcessFs child parent).openfile_table i).node = (files.openfile_table i).node := by
  have hfold : ∀ (fds : List (Fin MAX_FD_COUNT)) (t : Files n),
      (∀ k, (fds.foldl (fun t fd => t.forkFd child parent fd) t).fd_table k =
        t.fd_table (if k.1 = child ∧ k.2 ∈ fds then (parent, k.2) else k)) ∧
      ∀ i, ((fds.foldl (fun t fd => t.forkFd child parent fd) t).openfile_table i).type =
          (t.openfile_table i).type ∧
        ((fds.foldl (fun t fd => t.forkFd child parent fd) t).openfile_table i).node =
          (t.openfile_table i).node := by
    intro fds
    induction fds with
    | nil => exact fun t => ⟨fun k => by simp, fun i => ⟨rfl, rfl⟩⟩
    | cons fd fds ih =>
        intro t
        obtain ⟨htable, hentries⟩ := ih (t.forkFd child parent fd)
        have hentry : ∀ i, ((t.forkFd child parent fd).openfile_table i).type = (t.openfile_table i).type ∧
            ((t.forkFd child parent fd).openfile_table i).node = (t.openfile_table i).node := by
          intro i
          unfold Files.forkFd
          dsimp only
          split
          · exact ⟨Balanced.count_type t _ _ _ i 1, count_node t _ _ _ i 1⟩
          · exact ⟨rfl, rfl⟩
        refine ⟨fun k => ?_, fun i => ⟨(hentries i).1.trans (hentry i).1, (hentries i).2.trans (hentry i).2⟩⟩
        rw [List.foldl_cons, htable, Balanced.forkFd_table]
        by_cases hlater : k.1 = child ∧ k.2 ∈ fds
        · have hin : k.1 = child ∧ k.2 ∈ fd :: fds := ⟨hlater.1, List.mem_cons_of_mem fd hlater.2⟩
          rw [if_pos hlater, if_pos hin]
          by_cases hsame : (parent, k.2) = (child, fd)
          · rw [hsame, Function.update_self, ← hsame, (Prod.mk.inj hsame).2]
          · rw [Function.update_of_ne hsame]
        · rw [if_neg hlater]
          by_cases hsame : k = (child, fd)
          · rw [hsame, Function.update_self, if_pos ⟨rfl, List.mem_cons_self⟩]
          · have hnot : ¬(k.1 = child ∧ k.2 ∈ fd :: fds) := by
              rintro ⟨hchild, hmem⟩
              rcases List.mem_cons.mp hmem with hfd | hmem
              · exact hsame (Prod.ext hchild hfd)
              · exact hlater ⟨hchild, hmem⟩
            rw [if_neg hnot, Function.update_of_ne hsame]
  unfold Files.forkProcessFs
  obtain ⟨htable, hentries⟩ := hfold (List.finRange MAX_FD_COUNT) files
  refine ⟨fun k => ?_, hentries⟩
  rw [htable]
  simp only [List.mem_finRange, and_true]

theorem file_eq (files : Files n) (volumes : Disks) (k : Fd n) :
    (FileSys.mk files volumes).file k = files.fd_table k := rfl

theorem Holds.fork (h : Holds m s chain) (fs_table : FsTable) (child parent : Fin n) :
    ∃ r bytes m' s', m.callInto fs_table (.fork child parent) = .ret (r, bytes, m') ∧
      s.Does m'.Full (.fork child parent) r bytes s' ∧ Holds m' s' chain := by
  obtain ⟨htable, hentries⟩ := forkProcessFs_spec m.files child parent
  have hvalid := h.valid.fork child parent
  have hinto : m.callInto fs_table (.fork child parent) =
      .ret (0, none, ⟨m.files.forkProcessFs child parent, m.volumes⟩) := rfl
  generalize m.files.forkProcessFs child parent = files at *
  have hfile : ∀ k, (FileSys.mk files m.volumes).file k = m.file (if k.1 = child then (parent, k.2) else k) :=
    fun k => (file_eq files m.volumes k).trans (htable k)
  have hkey : ∀ k, (FileSys.mk files m.volumes).key k = m.key (if k.1 = child then (parent, k.2) else k) := by
    intro k
    unfold key
    rw [hfile]
    exact congrArg (Option.bind _) (funext fun i => (hentries i).2)
  refine ⟨0, none, _, _, hinto, .fork, h.redirect hvalid (fun k j hj => ?_) ?_ (fun k other hk => ?_) ?_
    (fun _ => rfl) (fun _ => rfl) rfl⟩
  · obtain ⟨htype, hnode⟩ := hentries j
    rw [hfile] at hj ⊢
    dsimp only
    rw [htype, hnode]
    exact h.opened _ j hj
  · funext k
    rw [hkey, ← h.target]
    rfl
  · rw [hkey] at hk
    rw [hfile]
    exact h.offset _ other hk
  · rintro other ⟨k, hk⟩
    rw [hkey] at hk
    exact ⟨_, hk⟩

/-- A call of any process does what the store does, unless it appends to a file that fills its last cluster. -/
theorem Holds.step (h : Holds m s chain) (fs_table : FsTable) {c : FileCall n}
    (hc : ∀ process cwd path, c ≠ .open process cwd path) (hfits : ¬s.Overruns m.unit c) :
    ∃ r bytes m' s' chain', m.callInto fs_table c = .ret (r, bytes, m') ∧ s.Does m'.Full c r bytes s' ∧
      Holds m' s' chain' := by
  by_cases hfork : ∃ child parent, c = .fork child parent
  · obtain ⟨child, parent, rfl⟩ := hfork
    obtain ⟨r, bytes, m', s', hinto, hdoes, hholds⟩ := h.fork fs_table child parent
    exact ⟨r, bytes, m', s', chain, hinto, hdoes, hholds⟩
  have hfork' : ∀ child parent, c ≠ .fork child parent := fun child parent heq => hfork ⟨child, parent, heq⟩
  cases hsubject : s.subject c with
  | none =>
      obtain ⟨r, hinto⟩ := h.idle fs_table hc hfork' hsubject
      exact ⟨r, none, m, s, chain, hinto, .unopened hfork' hsubject, h⟩
  | some subject =>
      obtain ⟨d, node⟩ := subject
      by_cases haccepts : s.Accepts d node c
      · cases c with
        | «open» process cwd path => cases hsubject
        | fork child parent => cases hsubject
        | close process fd =>
            obtain ⟨r, bytes, m', s', hinto, hdoes, hholds⟩ := h.close fs_table hsubject
            exact ⟨r, bytes, m', s', chain, hinto, hdoes, hholds⟩
        | read process fd buf size typed =>
            obtain ⟨hbuf, hsize⟩ := haccepts
            obtain ⟨out, rfl⟩ := Option.isSome_iff_exists.mp hbuf
            obtain ⟨r, bytes, m', s', hinto, hdoes, hholds⟩ := h.read fs_table out typed hsubject hsize
            exact ⟨r, bytes, m', s', chain, hinto, hdoes, hholds⟩
        | write process fd buf size =>
            obtain ⟨hbuf, hsize⟩ := haccepts
            obtain ⟨src, rfl⟩ := Option.isSome_iff_exists.mp hbuf
            obtain ⟨r, bytes, m', s', hinto, hdoes, hholds⟩ := h.write fs_table src hsubject hsize
            exact ⟨r, bytes, m', s', chain, hinto, hdoes, hholds⟩
        | append process fd buf size =>
            have hroom : s.content node = [] ∨ (s.content node).length % m.unit node ≠ 0 := by
              by_contra hfull
              obtain ⟨hne, hfull⟩ := not_or.mp hfull
              exact hfits ⟨d, node, hsubject, haccepts, hne, not_not.mp hfull⟩
            obtain ⟨hd, hbuf, hsize⟩ := haccepts
            obtain ⟨src, rfl⟩ := Option.isSome_iff_exists.mp hbuf
            exact h.append fs_table src hsubject hsize hd hroom
        | fseek process fd bias whence =>
            obtain ⟨start, hstart, hpos, hin⟩ := haccepts
            obtain ⟨pos, hpos⟩ := Int.eq_ofNat_of_zero_le hpos
            obtain ⟨r, bytes, m', s', hinto, hdoes, hholds⟩ := h.fseek fs_table hsubject hstart hpos
              (by rw [hpos] at hin; exact Int.ofNat_le.mp hin)
            exact ⟨r, bytes, m', s', chain, hinto, hdoes, hholds⟩
      · exact ⟨-1, none, m, s, chain, h.refused fs_table hsubject haccepts, .refused hsubject haccepts, h⟩

/-- Calls of any processes, one after the other, on the volumes and on the store. -/
inductive Runs (fs_table : FsTable) : FileSys n → Bytes n → List (FileCall n) → FileSys n → Bytes n → Prop
  | nil {m : FileSys n} {s : Bytes n} : Runs fs_table m s [] m s
  | cons {m m' m'' : FileSys n} {s s' s'' : Bytes n} {c : FileCall n} {calls : List (FileCall n)} {r : Int}
      {bytes : Option ByteMap} (hcall : m.callInto fs_table c = .ret (r, bytes, m'))
      (hdoes : s.Does m'.Full c r bytes s') (hrest : Runs fs_table m' s' calls m'' s'') :
      Runs fs_table m s (c :: calls) m'' s''

/-- Whatever calls processes make on open files, the volumes give the answers of the store, until bytes are
appended to a file that fills its last cluster. -/
theorem run_bytes (h : Holds m s chain) (fs_table : FsTable) {calls : List (FileCall n)}
    (hcalls : ∀ process cwd path, .open process cwd path ∉ calls) :
    ∃ done rest m' s' chain', calls = done ++ rest ∧ Runs fs_table m s done m' s' ∧ Holds m' s' chain' ∧
      (rest = [] ∨ ∃ c ∈ rest.head?, s'.Overruns m'.unit c) := by
  induction calls generalizing m s chain with
  | nil => exact ⟨[], [], m, s, chain, rfl, .nil, h, Or.inl rfl⟩
  | cons c calls ih =>
      by_cases hfits : s.Overruns m.unit c
      · exact ⟨[], c :: calls, m, s, chain, rfl, .nil, h, Or.inr ⟨c, rfl, hfits⟩⟩
      · obtain ⟨r, bytes, m₁, s₁, chain₁, hinto, hdoes, hholds⟩ := h.step fs_table
          (fun process cwd path heq => hcalls process cwd path (heq ▸ List.mem_cons_self)) hfits
        obtain ⟨done, rest, m', s', chain', hsplit, hruns, hholds', hend⟩ := ih hholds
          fun process cwd path hmem => hcalls process cwd path (List.mem_cons_of_mem c hmem)
        exact ⟨c :: done, rest, m', s', chain', by rw [hsplit, List.cons_append], .cons hinto hdoes hruns,
          hholds', hend⟩

end FileSys

/-! ### A file of 100 bytes -/

theorem third_lt : 3 < MAX_FD_COUNT := by decide

def thirdFd (n : Nat) : Fd (n + 1) := (0, ⟨3, third_lt⟩)

/-- The descriptor of the standard output. -/
def stdout : Fin MAX_FD_COUNT := ⟨1, by decide⟩

def firstEntry : Fin MAX_OPENFILE_COUNT := ⟨0, by decide⟩

/-- Descriptor 3 is 60 bytes into a file of 100, the only one that is open. -/
def oneOpen (n : Nat) : FileSys (n + 1) where
  files :=
    { openfile_table := Function.update (fun _ => OpenFile.zero) firstEntry ⟨some ⟨0, 0⟩, .FXT12, 1, 0⟩
      openfile_map := fun i => i = firstEntry
      fd_table := fun fd =>
        if fd = thirdFd n then ⟨some firstEntry, 60, .FILE, 0⟩
        else if fd = (0, stdout) then { File.zero with type := .STDOUT } else File.zero }
  volumes := fun _ =>
    { fs := oneCluster, inodepool := ⟨1, fun place => place = 0, fun _ => fileOfSize 100, fun _ => 1⟩ }

/-- The store beside it. -/
def oneOpenBytes (n : Nat) : Bytes (n + 1) :=
  ⟨fun _ => FAT12FS.content oneCluster (fileOfSize 100) [2], (oneOpen n).key, fun _ => 60⟩

section

variable {n : Nat}

theorem oneOpen_file (fd : Fd (n + 1)) : (oneOpen n).file fd =
    if fd = thirdFd n then ⟨some firstEntry, 60, .FILE, 0⟩
    else if fd = (0, stdout) then { File.zero with type := .STDOUT } else File.zero := rfl

theorem oneOpen_opened {fd : Fd (n + 1)} {i : Fin MAX_OPENFILE_COUNT}
    (h : ((oneOpen n).file fd).openfile = some i) : fd = thirdFd n ∧ i = firstEntry := by
  rw [oneOpen_file] at h
  split at h
  · rename_i hfd
    exact ⟨hfd, (Option.some.inj h).symm⟩
  · split at h <;> cases h

/-- The other descriptors have no file. -/
theorem oneOpen_idle {fd : Fd (n + 1)} (h : fd ≠ thirdFd n) :
    ((oneOpen n).file fd).openfile = none ∧ ((oneOpen n).file fd).offset = 0 := by
  rw [oneOpen_file, if_neg h]
  split <;> exact ⟨rfl, rfl⟩

theorem oneOpen_entry : (oneOpen n).files.openfile_table firstEntry = ⟨some ⟨0, 0⟩, .FXT12, 1, 0⟩ := by
  unfold oneOpen
  dsimp only
  rw [Function.update_self]

theorem oneOpen_other {i : Fin MAX_OPENFILE_COUNT} (h : i ≠ firstEntry) :
    (oneOpen n).files.openfile_table i = OpenFile.zero := by
  unfold oneOpen
  dsimp only
  rw [Function.update_of_ne h]

theorem oneOpen_map (i : Fin MAX_OPENFILE_COUNT) : (oneOpen n).files.openfile_map i = true ↔ i = firstEntry :=
  decide_eq_true_iff

theorem oneOpen_key (fd : Fd (n + 1)) : (oneOpen n).key fd = if fd = thirdFd n then some ⟨0, 0⟩ else none := by
  unfold FileSys.key
  by_cases hfd : fd = thirdFd n
  · rw [oneOpen_file, if_pos hfd, if_pos hfd, Option.bind_some, oneOpen_entry]
  · rw [(oneOpen_idle hfd).1, if_neg hfd]
    rfl

theorem oneOpen_live {node : Inode} (h : (oneOpen n).Live node) : node = ⟨0, 0⟩ := by
  obtain ⟨fd, hfd⟩ := h
  rw [oneOpen_key] at hfd
  split at hfd
  · exact (Option.some.inj hfd).symm
  · cases hfd

theorem oneOpen_holders (slot : Fin MAX_DISK_COUNT) (place : Nat) :
    (oneOpen n).files.holders slot place ≤ if place = 0 then 1 else 0 := by
  have hholds : ∀ i, (oneOpen n).files.holds ⟨slot, place⟩ i ≤
      if i = firstEntry then (if place = 0 then 1 else 0) else 0 := by
    intro i
    unfold Files.holds
    split
    · rename_i hheld
      obtain ⟨hmap, hnode⟩ := hheld
      obtain rfl := (oneOpen_map i).mp hmap
      rw [oneOpen_entry] at hnode
      obtain rfl : 0 = place := congrArg Inode.place (Option.some.inj hnode)
      exact le_refl 1
    · exact Nat.zero_le _
  unfold Files.holders
  refine (Finset.sum_le_sum fun i _ => hholds i).trans ?_
  rw [Finset.sum_ite_eq' Finset.univ firstEntry fun _ => if place = 0 then 1 else 0, if_pos (Finset.mem_univ _)]

theorem oneOpen_valid : (oneOpen n).Valid where
  backed := by
    refine ⟨fun fd i hfd => ?_, fun i => ?_⟩
    · obtain ⟨rfl, rfl⟩ := oneOpen_opened hfd
      have hfile := oneOpen_file (thirdFd n)
      rw [if_pos rfl] at hfile
      exact ⟨congrArg File.type hfile, (oneOpen_map firstEntry).mpr rfl, trivial⟩
    · by_cases hi : i = firstEntry
      · subst hi
        have hrefers : ∀ fd, ((oneOpen n).files.fd_table fd).refers firstEntry ≤
            if fd = thirdFd n then 1 else 0 := by
          intro fd
          unfold File.refers
          split
          · rename_i hfd
            rw [if_pos (oneOpen_opened hfd).1]
          · split <;> decide
        rw [oneOpen_entry]
        unfold Files.refs
        refine (Finset.sum_le_sum fun fd _ => hrefers fd).trans ?_
        rw [Finset.sum_ite_eq' Finset.univ (thirdFd n) fun _ => (1 : Int), if_pos (Finset.mem_univ _)]
      · rw [refs_eq_zero fun fd hfd => hi (oneOpen_opened hfd).2, oneOpen_other hi]
        decide
  pools slot := by
    refine ⟨fun place => (oneOpen_holders slot place).trans ?_, fun place hpos => ?_⟩
    · split
      · exact le_refl 1
      · exact Nat.zero_le _
    · have hle := oneOpen_holders (n := n) slot place
      by_cases hplace : place = 0
      · exact decide_eq_true hplace
      · rw [if_neg hplace] at hle
        omega
  within fd := by
    by_cases hfd : fd = thirdFd n
    · rw [oneOpen_file, if_pos hfd]
      refine ⟨by decide, by decide, fun i hi node hnode => ?_⟩
      exact (by decide : (60 : Int) ≤ ((100 : Nat) : Int))
    · exact FileSys.within_zero _ (oneOpen_idle hfd).2

theorem oneOpen_holds : (oneOpen n).Holds (oneOpenBytes n) fun _ => [2] where
  valid := oneOpen_valid
  opened fd i hfd := by
    obtain ⟨rfl, rfl⟩ := oneOpen_opened hfd
    rw [oneOpen_file, if_pos rfl, oneOpen_entry]
    exact ⟨rfl, rfl, rfl⟩
  target := rfl
  offset fd node hfd := by
    rw [oneOpen_key] at hfd
    rw [oneOpen_file]
    split at hfd
    · rename_i hthird
      rw [if_pos hthird]
      rfl
    · cases hfd
  volume node hnode := by
    have happendable := oneCluster_appendable (by decide : 100 ≤ 512)
    have hone : ∀ place place', (oneOpen n).Live ⟨node.fat12_fs, place⟩ →
        (oneOpen n).Live ⟨node.fat12_fs, place'⟩ → place = place' := fun place place' h h' =>
      congrArg Inode.place ((oneOpen_live h).trans (oneOpen_live h').symm)
    have haccepted : oneCluster.bpb.accepted = true := by decide
    have hcount : oneCluster.clusterCount ≤ 0xFF0 := by decide
    have htight : ([2].length - 1) * oneCluster.clusterSize ≤ (fileOfSize 100).size := by decide
    have hvalid : ∀ c ∈ [2], IsCluster c := by simp [IsCluster]
    have hroot : ¬(fileOfSize 100).location.isRoot = false := by decide
    exact ⟨happendable.mounted, happendable.coherent, haccepted, happendable.small, hcount,
      fun _ _ => happendable.file, fun _ _ => hvalid, fun _ _ => happendable.holds, fun _ _ => htight,
      fun _ _ => happendable.entry,
      fun f g hf hg hne => absurd (hone f g hf hg) hne, fun _ _ _ _ hsub => absurd hsub hroot⟩
  content _ _ := rfl

end

/-- 500 bytes are appended, which do not fit into the cluster, and 50 bytes read from offset 60 on. -/
theorem run_bytes_oneOpen : ∃ calls : List (FileCall 1), calls ≠ [] ∧ ∃ done rest m' s' chain',
    calls = done ++ rest ∧ FileSys.Runs rootOnly (oneOpen 0) (oneOpenBytes 0) done m' s' ∧ m'.Holds s' chain' ∧
      (rest = [] ∨ ∃ c ∈ rest.head?, s'.Overruns m'.unit c) :=
  ⟨[.append 0 3 (some fun _ => 0x41) 500, .fseek 0 3 60 0, .read 0 3 (some fun _ => 0) 50 0], by simp,
    FileSys.run_bytes oneOpen_holds rootOnly (by simp)⟩

end SysuOs.Vfs
