import SysuOs.VfsOpen

/-! What stands behind a descriptor. An entry of the open-file table counts at least the descriptors that
name it, so it is not given away under them; and unless a volume's root is opened, it holds an inode of the
volume its descriptors were opened in. -/

namespace SysuOs.Vfs

open Finset

variable {n : Nat} {s s' : Files n}

/-- One for a file of entry `i`. -/
def File.refers (file : File) (i : Fin MAX_OPENFILE_COUNT) : Int := if file.openfile = some i then 1 else 0

theorem File.refers_nonneg (file : File) (i : Fin MAX_OPENFILE_COUNT) : 0 ≤ file.refers i := by
  unfold File.refers
  split <;> omega

/-- How many descriptors name entry `i`. -/
def Files.refs (s : Files n) (i : Fin MAX_OPENFILE_COUNT) : Int := ∑ fd, (s.fd_table fd).refers i

theorem refs_setFile (fd : Fd n) (file : File) (i : Fin MAX_OPENFILE_COUNT) :
    (s.setFile fd file).refs i = s.refs i - (s.fd_table fd).refers i + file.refers i := by
  have hnew := add_sum_erase univ (fun k => ((s.setFile fd file).fd_table k).refers i) (mem_univ fd)
  have hold := add_sum_erase univ (fun k => (s.fd_table k).refers i) (mem_univ fd)
  have hrest : ∑ k ∈ univ.erase fd, ((s.setFile fd file).fd_table k).refers i =
      ∑ k ∈ univ.erase fd, (s.fd_table k).refers i := by
    apply sum_congr rfl
    intro k hk
    show (Function.update s.fd_table fd file k).refers i = _
    rw [Function.update_of_ne (ne_of_mem_erase hk)]
  have hself : ((s.setFile fd file).fd_table fd).refers i = file.refers i := by
    show (Function.update s.fd_table fd file fd).refers i = _
    rw [Function.update_self]
  unfold Files.refs
  rw [← hnew, ← hold, hrest, hself]
  ring

theorem refs_congr (h : s'.fd_table = s.fd_table) (i : Fin MAX_OPENFILE_COUNT) : s'.refs i = s.refs i := by
  unfold Files.refs
  rw [h]

theorem refs_pos {fd : Fd n} {i : Fin MAX_OPENFILE_COUNT} (h : (s.fd_table fd).openfile = some i) :
    1 ≤ s.refs i := by
  have hone : (s.fd_table fd).refers i = 1 := if_pos h
  have := single_le_sum (fun k _ => (s.fd_table k).refers_nonneg i) (mem_univ fd)
  unfold Files.refs
  omega

theorem refs_eq_zero {i : Fin MAX_OPENFILE_COUNT} (h : ∀ fd, (s.fd_table fd).openfile ≠ some i) :
    s.refs i = 0 := by
  apply sum_eq_zero
  intro fd _
  exact if_neg (h fd)

theorem count_refcount (s : Files n) (fd : Fd n) (file : File) (i j : Fin MAX_OPENFILE_COUNT) (d : Int) :
    (((s.setFile fd file).count i d).openfile_table j).refcount =
      (s.openfile_table j).refcount + if j = i then d else 0 := by
  by_cases hj : j = i
  · simp [Files.count, Files.setFile, hj]
  · simp [Files.count, Files.setFile, hj]

theorem count_node (s : Files n) (fd : Fd n) (file : File) (i j : Fin MAX_OPENFILE_COUNT) (d : Int) :
    (((s.setFile fd file).count i d).openfile_table j).node = (s.openfile_table j).node := by
  by_cases hj : j = i
  · simp [Files.count, Files.setFile, hj]
  · simp [Files.count, Files.setFile, hj]

/-- The entry of a file is in use, and what it holds suits the volume of the file. -/
def Files.HoldsBy (P : Option Inode → Fin MAX_DISK_COUNT → Prop) (s : Files n) (file : File)
    (i : Fin MAX_OPENFILE_COUNT) : Prop :=
  file.type = .FILE ∧ s.openfile_map i = true ∧ P (s.openfile_table i).node file.volume

/-- Every descriptor with an entry holds it, and is counted there. -/
structure BackedBy (P : Option Inode → Fin MAX_DISK_COUNT → Prop) (s : Files n) : Prop where
  file : ∀ fd i, (s.fd_table fd).openfile = some i → s.HoldsBy P (s.fd_table fd) i
  counted : ∀ i, s.refs i ≤ (s.openfile_table i).refcount

namespace BackedBy

variable {P : Option Inode → Fin MAX_DISK_COUNT → Prop}

/-- A descriptor is given another file, with the counts changed to suit. -/
theorem assign (hs : BackedBy P s) (fd : Fd n) (file : File)
    (hfd : s'.fd_table = Function.update s.fd_table fd file)
    (hmap : s'.openfile_map = s.openfile_map)
    (hnode : ∀ i, (s'.openfile_table i).node = (s.openfile_table i).node)
    (hfile : ∀ i, file.openfile = some i → s.HoldsBy P file i)
    (hcount : ∀ i, s.refs i - (s.fd_table fd).refers i + file.refers i ≤ (s'.openfile_table i).refcount) :
    BackedBy P s' where
  file := by
    intro k i hk
    unfold Files.HoldsBy
    rw [hmap, hnode]
    rw [hfd] at hk ⊢
    by_cases heq : k = fd
    · rw [heq, Function.update_self] at hk ⊢
      exact hfile i hk
    · rw [Function.update_of_ne heq] at hk ⊢
      exact hs.file k i hk
  counted := by
    intro i
    rw [refs_congr (s := s.setFile fd file) hfd, refs_setFile]
    exact hcount i

theorem release (hs : BackedBy P s) {i : Fin MAX_OPENFILE_COUNT} (h : (s.openfile_table i).refcount ≤ 0) :
    BackedBy P (s.releaseOpenfile i) where
  file := by
    intro fd j hj
    have hne : j ≠ i := by
      rintro rfl
      have := refs_pos (s := s) hj
      have := hs.counted j
      omega
    have := hs.file fd j hj
    unfold Files.HoldsBy at this ⊢
    simpa only [Files.releaseOpenfile, Function.update_of_ne hne] using this
  counted := by
    intro j
    show s.refs j ≤ _
    by_cases hj : j = i
    · rw [hj]
      have := hs.counted i
      simp only [Files.releaseOpenfile, Function.update_self, OpenFile.zero]
      omega
    · simp only [Files.releaseOpenfile, Function.update_of_ne hj]
      exact hs.counted j

/-- `lookup` leaves an entry in use with the node it reached, and every descriptor as it was. -/
theorem enter (hs : BackedBy P s) {type : FsType} {node : Option Inode} {i : Fin MAX_OPENFILE_COUNT}
    (h : s.enter type node = some (i, s')) :
    BackedBy P s' ∧ s'.fd_table = s.fd_table ∧ s'.openfile_map i = true ∧ (s'.openfile_table i).node = node := by
  unfold Files.enter at h
  split at h
  · rename_i j hfind
    simp only [Option.some.injEq, Prod.mk.injEq] at h
    obtain ⟨rfl, rfl⟩ := h
    have := List.find?_some hfind
    simp only [Bool.and_eq_true, decide_eq_true_eq] at this
    exact ⟨hs, rfl, this.1.1, this.2⟩
  · split at h
    · cases h
    · rename_i j hfree
      simp only [Option.some.injEq, Prod.mk.injEq] at h
      obtain ⟨rfl, rfl⟩ := h
      have hunused : s.openfile_map j = false := by simpa using List.find?_some hfree
      have hne : ∀ fd, (s.fd_table fd).openfile ≠ some j := by
        intro fd hfd
        have := (hs.file fd j hfd).2.1
        rw [hunused] at this
        cases this
      refine ⟨⟨?_, ?_⟩, rfl, Function.update_self .., by simp⟩
      · intro fd k hk
        have hkj : k ≠ j := by
          rintro rfl
          exact hne fd hk
        have := hs.file fd k hk
        unfold Files.HoldsBy at this ⊢
        simpa only [Function.update_of_ne hkj] using this
      · intro k
        show s.refs k ≤ _
        by_cases hk : k = j
        · rw [hk, refs_eq_zero hne]
          simp
        · simp only [Function.update_of_ne hk]
          exact hs.counted k

theorem setFile (hs : BackedBy P s) (fd : Fd n) {file : File} (h : file.openfile = none) :
    BackedBy P (s.setFile fd file) := by
  refine hs.assign fd file rfl rfl (fun _ => rfl) ?_ ?_
  · intro i hi
    rw [h] at hi
    cases hi
  · intro i
    have := hs.counted i
    have := (s.fd_table fd).refers_nonneg i
    have hno : file.refers i = 0 := if_neg (by rw [h]; exact nofun)
    show _ ≤ (s.openfile_table i).refcount
    omega

/-- A descriptor is given a file, which is counted. -/
theorem setFile_count (hs : BackedBy P s) (fd : Fd n) {file : File} {i : Fin MAX_OPENFILE_COUNT}
    (hfile : file.openfile = some i) (hholds : s.HoldsBy P file i) :
    BackedBy P ((s.setFile fd file).count i 1) := by
  refine hs.assign fd file rfl rfl (count_node s fd file i · 1) ?_ ?_
  · intro j hj
    rw [hfile] at hj
    rw [← Option.some.inj hj]
    exact hholds
  · intro j
    have hold := hs.counted j
    have hpos := (s.fd_table fd).refers_nonneg j
    rw [count_refcount]
    by_cases hj : j = i
    · have hnew : file.refers j = 1 := if_pos (by rw [hfile, hj])
      rw [if_pos hj]
      omega
    · have hnew : file.refers j = 0 := if_neg (by rw [hfile]; exact fun h => hj (Option.some.inj h).symm)
      rw [if_neg hj]
      omega

theorem setOffset (hs : BackedBy P s) (fd : Fd n) (offset : Int) : BackedBy P (s.setOffset fd offset) := by
  refine hs.assign fd { s.fd_table fd with offset := offset } rfl rfl (fun _ => rfl) ?_ ?_
  · intro i hi
    exact hs.file fd i hi
  · intro i
    have := hs.counted i
    show s.refs i - (s.fd_table fd).refers i + (s.fd_table fd).refers i ≤ (s.openfile_table i).refcount
    omega

/-- A descriptor lets go of its entry. -/
theorem drop (hs : BackedBy P s) {fd : Fd n} {i : Fin MAX_OPENFILE_COUNT} (hopen : (s.fd_table fd).openfile = some i) :
    BackedBy P ((s.setFile fd { s.fd_table fd with openfile := none, offset := 0, type := .EMPTY }).count i (-1)) := by
  refine hs.assign fd _ rfl rfl (count_node s _ _ i · (-1)) (by intro j hj; cases hj) ?_
  intro j
  have hold := hs.counted j
  have hpos := (s.fd_table fd).refers_nonneg j
  rw [count_refcount]
  unfold File.refers at hpos ⊢
  rw [hopen]
  by_cases hj : j = i
  · simp only [hj, if_true] at hold ⊢
    simp
    omega
  · simp [hj, Ne.symm hj]
    exact hold

theorem closeFd (hs : BackedBy P s) (process : Fin n) (fd : Fin MAX_FD_COUNT) :
    BackedBy P (s.closeFd process fd) := by
  unfold Files.closeFd
  dsimp only
  split
  · rename_i i htype hopen
    have hcleared := hs.drop hopen
    split
    · rename_i hlast
      exact hcleared.release hlast
    · exact hcleared
  · exact hs

theorem initProcessFs (hs : BackedBy P s) (process : Fin n) : BackedBy P (s.initProcessFs process) := by
  unfold Files.initProcessFs
  apply List.foldlRecOn (motive := BackedBy P) _ _ hs
  intro t ht fd _
  exact ht.setFile (process, fd) (by unfold Files.standard; split_ifs <;> rfl)

theorem forkFd (hs : BackedBy P s) (child parent : Fin n) (fd : Fin MAX_FD_COUNT) :
    BackedBy P (s.forkFd child parent fd) := by
  unfold Files.forkFd
  dsimp only
  split
  · rename_i i htype hopen
    exact hs.setFile_count (child, fd) hopen (hs.file (parent, fd) i hopen)
  · rename_i hnot
    have hnone : (s.fd_table (parent, fd)).openfile = none := by
      cases hopen : (s.fd_table (parent, fd)).openfile with
      | none => rfl
      | some i => exact absurd hopen (hnot i (hs.file (parent, fd) i hopen).1)
    exact hs.setFile (child, fd) hnone

theorem forkProcessFs (hs : BackedBy P s) (child parent : Fin n) : BackedBy P (s.forkProcessFs child parent) := by
  unfold Files.forkProcessFs
  apply List.foldlRecOn (motive := BackedBy P) _ _ hs
  intro t ht fd _
  exact ht.forkFd child parent fd

theorem releaseProcessFs (hs : BackedBy P s) (process : Fin n) : BackedBy P (s.releaseProcessFs process) := by
  unfold Files.releaseProcessFs
  apply initProcessFs
  apply List.foldlRecOn (motive := BackedBy P) _ _ hs
  intro t ht fd _
  exact ht.closeFd process fd

end BackedBy

/-- The entry of a file is in use and holds an inode of the file's volume. -/
def Files.Holds (s : Files n) (file : File) (i : Fin MAX_OPENFILE_COUNT) : Prop :=
  file.type = .FILE ∧ s.openfile_map i = true ∧
    ∃ node, (s.openfile_table i).node = some node ∧ node.fat12_fs = file.volume

structure Backed (s : Files n) : Prop where
  file : ∀ fd i, (s.fd_table fd).openfile = some i → s.Holds (s.fd_table fd) i
  counted : ∀ i, s.refs i ≤ (s.openfile_table i).refcount

/-- An inode of the volume. -/
def Names (node : Option Inode) (volume : Fin MAX_DISK_COUNT) : Prop :=
  ∃ inode, node = some inode ∧ inode.fat12_fs = volume

theorem backed_iff : Backed s ↔ BackedBy Names s :=
  ⟨fun h => ⟨h.file, h.counted⟩, fun h => ⟨h.file, h.counted⟩⟩

theorem backed_boot (n : Nat) : Backed (Files.boot n) where
  file := by
    intro fd i h
    cases h
  counted := by
    intro i
    rw [refs_eq_zero (fun fd h => by cases h)]
    exact le_refl (0 : Int)

namespace Backed

theorem release (hs : Backed s) {i : Fin MAX_OPENFILE_COUNT} (h : (s.openfile_table i).refcount ≤ 0) :
    Backed (s.releaseOpenfile i) :=
  backed_iff.mpr ((backed_iff.mp hs).release h)

/-- `lookup` leaves an entry in use with the node it reached, and every descriptor as it was. -/
theorem enter (hs : Backed s) {type : FsType} {node : Option Inode} {i : Fin MAX_OPENFILE_COUNT}
    (h : s.enter type node = some (i, s')) :
    Backed s' ∧ s'.fd_table = s.fd_table ∧ s'.openfile_map i = true ∧ (s'.openfile_table i).node = node := by
  obtain ⟨hback, hrest⟩ := (backed_iff.mp hs).enter h
  exact ⟨backed_iff.mpr hback, hrest⟩

theorem setFile_count (hs : Backed s) (fd : Fd n) {file : File} {i : Fin MAX_OPENFILE_COUNT}
    (hfile : file.openfile = some i) (hholds : s.Holds file i) : Backed ((s.setFile fd file).count i 1) :=
  backed_iff.mpr ((backed_iff.mp hs).setFile_count fd hfile hholds)

theorem setOffset (hs : Backed s) (fd : Fd n) (offset : Int) : Backed (s.setOffset fd offset) :=
  backed_iff.mpr ((backed_iff.mp hs).setOffset fd offset)

theorem closeFd (hs : Backed s) (process : Fin n) (fd : Fin MAX_FD_COUNT) : Backed (s.closeFd process fd) :=
  backed_iff.mpr ((backed_iff.mp hs).closeFd process fd)

theorem initProcessFs (hs : Backed s) (process : Fin n) : Backed (s.initProcessFs process) :=
  backed_iff.mpr ((backed_iff.mp hs).initProcessFs process)

theorem forkProcessFs (hs : Backed s) (child parent : Fin n) : Backed (s.forkProcessFs child parent) :=
  backed_iff.mpr ((backed_iff.mp hs).forkProcessFs child parent)

theorem releaseProcessFs (hs : Backed s) (process : Fin n) : Backed (s.releaseProcessFs process) :=
  backed_iff.mpr ((backed_iff.mp hs).releaseProcessFs process)

theorem transfer (hs : Backed s) (fd : Fd n) (ret : Int) :
    Backed (s.transfer fd ret).2 ∧ (s.transfer fd ret).1.node ≠ some none := by
  unfold Files.transfer
  split
  · exact ⟨hs, nofun⟩
  · rename_i i hopen
    obtain ⟨-, -, node, hnode, -⟩ := hs.file fd i hopen
    split
    · exact ⟨hs, nofun⟩
    · refine ⟨?_, ?_⟩
      · dsimp only
        split
        · exact hs.setOffset fd _
        · exact hs
      · rw [hnode]
        exact nofun

/-- Where a call on a descriptor reads a node, there is one. -/
theorem fdCall (hs : Backed s) (fd : Fd n) (typed : Int) (c : FdCall) :
    Backed (s.fdCall fd typed c).2 ∧ (s.fdCall fd typed c).1.node ≠ some none := by
  have hnode : ∀ i, (s.fd_table fd).openfile = some i → some (s.openfile_table i).node ≠ some none := by
    intro i hopen
    obtain ⟨-, -, node, hnode, -⟩ := hs.file fd i hopen
    rw [hnode]
    exact nofun
  cases c with
  | read buf size ret =>
      rw [Files.fdCall]
      split
      · exact ⟨hs, nofun⟩
      · split
        · exact ⟨hs, nofun⟩
        · exact hs.transfer fd ret
        · exact ⟨hs, nofun⟩
  | write buf size ret =>
      rw [Files.fdCall]
      split
      · exact ⟨hs, nofun⟩
      · split
        · exact ⟨hs, nofun⟩
        · exact ⟨hs, nofun⟩
        · exact hs.transfer fd ret
        · exact ⟨hs, nofun⟩
  | append buf size ret fileSize =>
      rw [Files.fdCall]
      split
      · exact ⟨hs, nofun⟩
      · split
        · rename_i i htype hopen
          split
          · exact ⟨hs, nofun⟩
          · refine ⟨?_, hnode i hopen⟩
            dsimp only
            split
            · exact hs.setOffset fd _
            · exact hs
        · exact ⟨hs, nofun⟩
  | fseek bias whence fileSize =>
      rw [Files.fdCall]
      split
      · exact ⟨hs, nofun⟩
      · rename_i i hopen
        split
        · exact ⟨hs, nofun⟩
        · dsimp only
          generalize (if whence = 0 then 0 else if whence = 1 then (s.fd_table fd).offset else fileSize) = base
          split
          · split
            · exact ⟨hs, hnode i hopen⟩
            · exact ⟨hs.setOffset fd _, hnode i hopen⟩
          · exact ⟨hs, hnode i hopen⟩
  | dump_fd =>
      rw [Files.fdCall]
      split
      · exact ⟨hs, nofun⟩
      · rename_i i hopen
        split
        · exact ⟨hs, nofun⟩
        · exact ⟨hs, hnode i hopen⟩

theorem lookup (hs : Backed s) {fs_table : FsTable} {volumes : Volumes} {cwd path : List Char}
    {slot : Fin MAX_DISK_COUNT} {i : Fin MAX_OPENFILE_COUNT}
    (h : s.lookup fs_table volumes cwd path = some (slot, i, s')) :
    Backed s' ∧ s'.fd_table = s.fd_table ∧ s'.openfile_map i = true ∧
      Files.find fs_table volumes cwd path = some (slot, (s'.openfile_table i).node) := by
  unfold Files.lookup at h
  split at h
  · cases h
  · rename_i slot' node hfind
    obtain ⟨⟨j, t⟩, henter, heq⟩ := Option.map_eq_some_iff.mp h
    simp only [Prod.mk.injEq] at heq
    obtain ⟨rfl, rfl, rfl⟩ := heq
    obtain ⟨hback, hfds, hmap, hnode⟩ := hs.enter henter
    rw [hnode]
    exact ⟨hback, hfds, hmap, hfind⟩

theorem visit (hs : Backed s) (fs_table : FsTable) (volumes : Volumes) (cwd path : List Char) :
    Backed (s.visit fs_table volumes cwd path) := by
  unfold Files.visit
  split
  · exact hs
  · rename_i slot i t hlookup
    have ht := (hs.lookup hlookup).1
    split
    · rename_i hlast
      exact ht.release hlast
    · exact ht

end Backed

/-- The path is that of a FAT volume's root. -/
def NamesRoot (fs_table : FsTable) (cwd path : List Char) : Prop :=
  ∃ slot rest, resolve fs_table cwd path = some (slot, rest) ∧ (fs_table slot).type = .FXT12 ∧
    pathNextComponent rest = .none

/-- There is a descriptor to give out, and an entry for a root. -/
def Files.Room (s : Files n) (process : Fin n) : Prop :=
  s.freeFd process ≠ none ∧ (s.findOpenfile .FXT12 none ≠ none ∨ s.freeOpenfile ≠ none)

/-- A walk ends at an inode of the volume it is in, unless it starts at the root and has no component to
take. -/
theorem walk_spec {volumes : Volumes} {slot : Fin MAX_DISK_COUNT} {path : List Char}
    {current result : Option Inode} (hcurrent : ∀ node, current = some node → node.fat12_fs = slot)
    (h : walk volumes slot current path = some result) :
    (∀ node, result = some node → node.fat12_fs = slot) ∧
      (result = none ↔ current = none ∧ pathNextComponent path = .none) := by
  induction hlen : path.length using Nat.strong_induction_on generalizing path current with
  | _ len ih =>
      rw [walk] at h
      split at h
      · cases h
      · rename_i hend
        rw [← Option.some.inj h]
        exact ⟨hcurrent, fun hnone => ⟨hnone, hend⟩, fun hnone => hnone.1⟩
      · rename_i component rest hnext
        split at h
        · cases h
        · rename_i next hlookup
          have hown : ∀ node, some next = some node → node.fat12_fs = slot := by
            intro node hnode
            rw [← Option.some.inj hnode]
            exact volumes.own slot current component next hlookup
          obtain ⟨hvolume, hroot⟩ := ih rest.length (hlen ▸ pathNextComponent_rest hnext) hown h rfl
          refine ⟨hvolume, fun hnone => ?_, fun hnone => ?_⟩
          · have := (hroot.mp hnone).1
            cases this
          · rw [hnext] at hnone
            cases hnone.2

theorem find_spec {fs_table : FsTable} {volumes : Volumes} {cwd path : List Char}
    {slot : Fin MAX_DISK_COUNT} {result : Option Inode}
    (h : Files.find fs_table volumes cwd path = some (slot, result)) :
    (∃ rest, resolve fs_table cwd path = some (slot, rest)) ∧ (fs_table slot).type = .FXT12 ∧
      (∀ node, result = some node → node.fat12_fs = slot) ∧
      (result = none → NamesRoot fs_table cwd path) := by
  unfold Files.find at h
  split at h
  · cases h
  · rename_i slot' rest hresolve
    split at h
    · rename_i htype
      obtain ⟨node, hwalk, heq⟩ := Option.map_eq_some_iff.mp h
      simp only [Prod.mk.injEq] at heq
      obtain ⟨rfl, rfl⟩ := heq
      obtain ⟨hvolume, hroot⟩ := walk_spec (by intro node hnode; cases hnode) hwalk
      exact ⟨⟨rest, hresolve⟩, htype, hvolume, fun hnone => ⟨slot', rest, hresolve, htype, (hroot.mp hnone).2⟩⟩
    · cases h

theorem find_root {fs_table : FsTable} {cwd path : List Char} (h : NamesRoot fs_table cwd path)
    (volumes : Volumes) :
    ∃ slot, (fs_table slot).type = .FXT12 ∧ Files.find fs_table volumes cwd path = some (slot, none) := by
  obtain ⟨slot, rest, hresolve, htype, hend⟩ := h
  refine ⟨slot, htype, ?_⟩
  have hwalk : walk volumes slot none rest = some none := by
    rw [walk]
    split
    · rename_i hnext
      rw [hend] at hnext
      cases hnext
    · exact Eq.refl _
    · rename_i hnext
      rw [hend] at hnext
      cases hnext
  unfold Files.find
  rw [hresolve]
  dsimp only
  rw [htype]
  dsimp only
  rw [hwalk]
  exact Eq.refl _

theorem enter_eq_none {type : FsType} {node : Option Inode} :
    s.enter type node = none ↔ s.findOpenfile type node = none ∧ s.freeOpenfile = none := by
  unfold Files.enter
  cases hfind : s.findOpenfile type node with
  | some i => simp
  | none =>
      cases hfree : s.freeOpenfile with
      | some i => simp
      | none => simp

theorem freeFd_congr (h : s'.fd_table = s.fd_table) (process : Fin n) : s'.freeFd process = s.freeFd process := by
  unfold Files.freeFd
  rw [h]

/-- A lookup of a root that succeeds found an entry for it. -/
theorem room_of_lookup (hs : Backed s) {fs_table : FsTable} {volumes : Volumes} {cwd path : List Char}
    {slot : Fin MAX_DISK_COUNT} {i : Fin MAX_OPENFILE_COUNT} {process : Fin n}
    (h : s.lookup fs_table volumes cwd path = some (slot, i, s'))
    (hnode : (s'.openfile_table i).node = none) (hfree : s'.freeFd process ≠ none) : s.Room process := by
  obtain ⟨_, hfds, _, hfind⟩ := hs.lookup h
  rw [hnode] at hfind
  refine ⟨?_, ?_⟩
  · rw [← freeFd_congr hfds]
    exact hfree
  · by_contra hfull
    obtain ⟨hnofind, hnofree⟩ := not_or.mp hfull
    have hnone : s.enter .FXT12 none = none := enter_eq_none.mpr ⟨not_not.mp hnofind, not_not.mp hnofree⟩
    unfold Files.lookup at h
    rw [hfind] at h
    dsimp only at h
    rw [(find_spec hfind).2.1, hnone] at h
    cases h

namespace Backed

/-- `open` of a path that is not a root, or with no room for one: the descriptor it returns has an inode of
the volume the path is in. -/
theorem «open» (hs : Backed s) {fs_table : FsTable} (volumes : Volumes) (process : Fin n)
    {cwd path : List Char} (hpath : NamesRoot fs_table cwd path → ¬ s.Room process) :
    Backed (s.open fs_table volumes process cwd path).2 ∧
      ∀ fd, (s.open fs_table volumes process cwd path).1 = some fd →
        ∃ slot rest i node, resolve fs_table cwd path = some (slot, rest) ∧
          ((s.open fs_table volumes process cwd path).2.fd_table (process, fd)).openfile = some i ∧
          ((s.open fs_table volumes process cwd path).2.openfile_table i).node = some node ∧
          node.fat12_fs = slot := by
  unfold Files.open
  split
  · exact ⟨hs, nofun⟩
  · rename_i slot i t hlookup
    obtain ⟨hback, hfds, hmap, hfind⟩ := hs.lookup hlookup
    obtain ⟨⟨rest, hresolve⟩, htype, hvolume, hroot⟩ := find_spec hfind
    split
    · rename_i fd hfree
      obtain ⟨node, hnode⟩ : ∃ node, (t.openfile_table i).node = some node := by
        rw [← Option.ne_none_iff_exists']
        intro hnone
        have hfree' : t.freeFd process ≠ none := by
          rw [hfree]
          exact Option.some_ne_none fd
        exact hpath (hroot hnone) (room_of_lookup hs hlookup hnone hfree')
      have hown := hvolume node hnode
      refine ⟨hback.setFile_count (process, fd) (Eq.refl _) ⟨Eq.refl _, hmap, node, hnode, hown⟩, ?_⟩
      intro fd' hfd'
      rw [← Option.some.inj hfd']
      refine ⟨slot, rest, i, node, hresolve, ?_, ?_, hown⟩
      · show (Function.update t.fd_table (process, fd) _ (process, fd)).openfile = some i
        rw [Function.update_self]
      · rw [count_node]
        exact hnode
    · dsimp only
      split
      · rename_i hlast
        exact ⟨hback.release (le_of_eq hlast), nofun⟩
      · exact ⟨hback, nofun⟩

end Backed

/-- With room for it, `open` of a root returns a descriptor without an inode. -/
theorem open_root (hs : Backed s) {fs_table : FsTable} (volumes : Volumes) {process : Fin n}
    {cwd path : List Char} (hpath : NamesRoot fs_table cwd path) (hroom : s.Room process) :
    ∃ fd i, (s.open fs_table volumes process cwd path).1 = some fd ∧
      ((s.open fs_table volumes process cwd path).2.fd_table (process, fd)).openfile = some i ∧
      ((s.open fs_table volumes process cwd path).2.openfile_table i).node = none := by
  obtain ⟨slot, htype, hfind⟩ := find_root hpath volumes
  obtain ⟨⟨i, t⟩, henter⟩ : ∃ r, s.enter .FXT12 none = some r := by
    rw [← Option.ne_none_iff_exists']
    intro hnone
    obtain ⟨hnofind, hnofree⟩ := enter_eq_none.mp hnone
    exact hroom.2.elim (· hnofind) (· hnofree)
  have hlookup : s.lookup fs_table volumes cwd path = some (slot, i, t) := by
    unfold Files.lookup
    rw [hfind]
    dsimp only
    rw [htype, henter]
    exact Eq.refl _
  obtain ⟨_, hfds, _, hnode⟩ := hs.enter henter
  obtain ⟨fd, hfree⟩ := Option.ne_none_iff_exists'.mp hroom.1
  rw [← freeFd_congr hfds] at hfree
  have hopen : s.open fs_table volumes process cwd path =
      (some fd, (t.setFile (process, fd) ⟨some i, 0, .FILE, slot⟩).count i 1) := by
    unfold Files.open
    rw [hlookup]
    dsimp only
    rw [hfree]
  rw [hopen]
  refine ⟨fd, i, Eq.refl _, ?_, ?_⟩
  · show (Function.update t.fd_table (process, fd) _ (process, fd)).openfile = some i
    rw [Function.update_self]
  · rw [count_node]
    exact hnode

/-- Descriptors opened in different volumes are not of one entry. -/
def Files.Unshared (s : Files n) : Prop :=
  ∀ fd fd' i, (s.fd_table fd).openfile = some i → (s.fd_table fd').openfile = some i →
    (s.fd_table fd).volume = (s.fd_table fd').volume

/-- A descriptor that a call opens has an inode of the volume the path is in. -/
def FsCall.Opened (fs_table : FsTable) (s : Files n) (c : FsCall n) : Prop :=
  match c with
  | .open process cwd path _ =>
    ∀ fd : Fin MAX_FD_COUNT, (s.call fs_table c).1.ret = fd.val →
      ∃ slot rest i node, resolve fs_table cwd path = some (slot, rest) ∧
        ((s.call fs_table c).2.fd_table (process, fd)).openfile = some i ∧
        ((s.call fs_table c).2.openfile_table i).node = some node ∧ node.fat12_fs = slot
  | _ => True

/-- What a call owes: it reads no field of a null node, what it opens has an inode, and no entry is shared
between volumes. -/
def FsCall.Kept (fs_table : FsTable) (s : Files n) (c : FsCall n) : Prop :=
  (s.call fs_table c).1.node ≠ some none ∧ (s.call fs_table c).2.Unshared ∧ c.Opened fs_table s

/-- The call does not open a volume's root, with a descriptor and an entry left for it. -/
def FsCall.Harmless (fs_table : FsTable) (s : Files n) : FsCall n → Prop
  | .open process cwd path _ => ¬ (NamesRoot fs_table cwd path ∧ s.Room process)
  | _ => True

theorem Backed.unshared (hs : Backed s) : s.Unshared := by
  intro fd fd' i h h'
  obtain ⟨-, -, node, hnode, hvolume⟩ := hs.file fd i h
  obtain ⟨-, -, node', hnode', hvolume'⟩ := hs.file fd' i h'
  rw [hnode, Option.some.injEq] at hnode'
  rw [← hvolume, ← hvolume', hnode']

/-- A harmless call keeps the table backed, and what it owes. -/
theorem Backed.call (hs : Backed s) {fs_table : FsTable} {c : FsCall n} (hc : c.Harmless fs_table s) :
    Backed (s.call fs_table c).2 ∧ c.Kept fs_table s := by
  suffices h : Backed (s.call fs_table c).2 ∧ (s.call fs_table c).1.node ≠ some none ∧
      c.Opened fs_table s from ⟨h.1, h.2.1, h.1.unshared, h.2.2⟩
  cases c with
  | «open» process cwd path volumes =>
      have hopen := hs.open volumes process (fun hpath hroom => hc ⟨hpath, hroom⟩)
      simp only [Files.call, FsCall.Opened]
      generalize s.open fs_table volumes process cwd path = r at hopen
      obtain ⟨given, t⟩ := r
      cases given with
      | none =>
          refine ⟨hopen.1, nofun, fun fd hfd => ?_⟩
          have : (-1 : Int) = fd.val := hfd
          omega
      | some fd =>
          refine ⟨hopen.1, nofun, fun fd' hfd => ?_⟩
          have hval : (fd.val : Int) = fd'.val := hfd
          have heq : fd = fd' := Fin.ext (by omega)
          exact hopen.2 fd' (congrArg some heq)
  | visit cwd path volumes => exact ⟨hs.visit fs_table volumes cwd path, nofun, trivial⟩
  | close_fd process fd =>
      simp only [Files.call]
      cases fdOf fd with
      | none => exact ⟨hs, nofun, trivial⟩
      | some fd => exact ⟨hs.closeFd process fd, nofun, trivial⟩
  | onFd process fd typed call =>
      simp only [Files.call]
      cases fdOf fd with
      | none => exact ⟨hs, nofun, trivial⟩
      | some fd =>
          obtain ⟨hback, hnode⟩ := hs.fdCall (process, fd) typed call
          exact ⟨hback, hnode, trivial⟩
  | init_process_fs process =>
      simp only [Files.call]
      exact ⟨hs.initProcessFs process, nofun, trivial⟩
  | fork_process_fs child parent =>
      simp only [Files.call]
      exact ⟨hs.forkProcessFs child parent, nofun, trivial⟩
  | release_process_fs process =>
      simp only [Files.call]
      exact ⟨hs.releaseProcessFs process, nofun, trivial⟩

theorem Backed.kept_iff (hs : Backed s) (fs_table : FsTable) (c : FsCall n) :
    c.Kept fs_table s ↔ c.Harmless fs_table s := by
  refine ⟨fun hkept => ?_, fun hc => (hs.call hc).2⟩
  cases c with
  | «open» process cwd path volumes =>
      rintro ⟨hpath, hroom⟩
      obtain ⟨fd, i, hret, hopen, hnode⟩ := open_root hs volumes hpath hroom
      have howed := hkept.2.2
      simp only [Files.call, FsCall.Opened] at howed
      generalize s.open fs_table volumes process cwd path = r at hret hopen hnode howed
      obtain ⟨given, t⟩ := r
      obtain rfl : given = some fd := hret
      obtain ⟨slot, rest, j, node, -, hj, hnode', -⟩ := howed fd (Eq.refl _)
      rw [hopen, Option.some.injEq] at hj
      rw [← hj, hnode] at hnode'
      cases hnode'
  | _ => trivial

/-- A property of every call of a sequence, in the state it is made in. -/
def EveryCall (fs_table : FsTable) (P : Files n → FsCall n → Prop) : Files n → List (FsCall n) → Prop
  | _, [] => True
  | s, c :: calls => P s c ∧ EveryCall fs_table P (s.call fs_table c).2 calls

theorem Backed.every_kept_iff (hs : Backed s) (fs_table : FsTable) (calls : List (FsCall n)) :
    EveryCall fs_table (fun s c => c.Kept fs_table s) s calls ↔
      EveryCall fs_table (fun s c => c.Harmless fs_table s) s calls := by
  induction calls generalizing s with
  | nil => exact Iff.rfl
  | cons c calls ih =>
      constructor
      · rintro ⟨hkept, hrest⟩
        have hc := (hs.kept_iff fs_table c).mp hkept
        exact ⟨hc, (ih (hs.call hc).1).mp hrest⟩
      · rintro ⟨hc, hrest⟩
        exact ⟨(hs.call hc).2, (ih (hs.call hc).1).mpr hrest⟩

/-- Over every sequence of calls and every mount table, descriptors have inodes of the volumes their paths
are in, and no call reads through a null one, exactly when no call opens a volume's root. -/
theorem everyCall_kept_iff (n : Nat) (fs_table : FsTable) (calls : List (FsCall n)) :
    EveryCall fs_table (fun s c => c.Kept fs_table s) (Files.boot n) calls ↔
      EveryCall fs_table (fun s c => c.Harmless fs_table s) (Files.boot n) calls :=
  (backed_boot n).every_kept_iff fs_table calls

/-- Only the root volume, mounted. -/
def rootOnly : FsTable := fun i => if i = 0 then ⟨['/'], .FXT12, .PrimaryMaster, true⟩ else .zero

/-- Volumes with nothing in them. -/
def Volumes.empty : Volumes where
  lookup := fun _ _ _ => none
  own := nofun

/-- `open("/")` and a `read` from the descriptor. -/
theorem not_everyCall_kept :
    ¬ EveryCall rootOnly (fun s c => c.Kept rootOnly s) (Files.boot 1)
      [.open 0 [] ['/'] .empty, .onFd 0 3 0 (.read true 1 0)] := by
  rintro ⟨hopen, _⟩
  apply ((backed_boot 1).kept_iff rootOnly _).mp hopen
  refine ⟨⟨0, [], by decide, by decide, by decide⟩, ?_, Or.inr ?_⟩
  · intro hnone
    have := List.find?_eq_none.mp hnone ⟨3, by decide⟩ (by decide)
    exact this (by decide)
  · intro hnone
    have := List.find?_eq_none.mp hnone ⟨0, by decide⟩ (List.mem_finRange _)
    exact this (by decide)

end SysuOs.Vfs
