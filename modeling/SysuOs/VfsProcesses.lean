import SysuOs.VfsRefcounts

/-! Processes that open, close and name files, and that are made, forked and ended, in any order: what the calls
are, and what they keep of the reference counts. -/

namespace SysuOs.Vfs

open FAT12FS

/-! ### The calls -/

section

variable {n : Nat}

/-- The check of `chdir`: the open file is of a directory. -/
def Files.IsDirectory (s : Files n) (volumes : Disks) (i : Fin MAX_OPENFILE_COUNT) : Prop :=
  (s.openfile_table i).type = .FXT12 ∧ ∃ node ∈ (s.openfile_table i).node,
    ((volumes node.fat12_fs).inodepool.inodes node.place).attr &&& DIRECTORY ≠ 0

instance (s : Files n) (volumes : Disks) (i : Fin MAX_OPENFILE_COUNT) : Decidable (s.IsDirectory volumes i) :=
  inferInstanceAs (Decidable (_ ∧ ∃ node ∈ (s.openfile_table i).node, _))

/-- `chdir`: the working directory after it. -/
def chdir (s : Files n) (fs_table : FsTable) (volumes : Disks) (cwd path : List Char) :
    SysuOs.Outcome ((List Char × Files n) × Disks) :=
  match normalizePath cwd path with
  | none => return ((cwd, s), volumes)
  | some normalized =>
    if (pathResolveFs fs_table normalized).any fun r => r.2 = [] then return ((normalized, s), volumes)
    else do
      let (file, _, s, volumes) ← lookupPath s fs_table volumes cwd normalized
      match file with
      | none => return ((cwd, s), volumes)
      | some i =>
        let next := if s.IsDirectory volumes i then normalized else cwd
        let (s, volumes) := releaseLookupOpenfile s volumes (some i)
        return ((next, s), volumes)

end

namespace FileSys

variable {n : Nat} (m : FileSys n)

/-- `release_process_fs`. -/
def releaseProcessFs (process : Fin n) : FileSys n :=
  let m := Files.fdSlots.foldl (fun m fd => (m.close (process, fd)).2) m
  { m with files := m.files.initProcessFs process }

end FileSys

/-- The processes in use, with their working directories. -/
structure Processes (n : Nat) extends FileSys n where
  alive : Fin n → Bool
  cwd_path : Fin n → List Char

inductive ProcessCall (n : Nat) where
  | executeThread (process : Fin n)
  | fork (child parent : Fin n)
  | exit (process : Fin n)
  | open (process : Fin n) (path : List Char)
  | close (process : Fin n) (fd : Int32)
  | ls (process : Fin n) (path : List Char) (max_entries : Int32)
  | chdir (process : Fin n) (path : List Char)
  | create_file (process : Fin n) (path : List Char)
  | remove_file (process : Fin n) (path : List Char)
  | mkdir (process : Fin n) (path : List Char)
  | rmdir (process : Fin n) (path : List Char)

/-- A process in use makes the call; a new one takes a slot that is free. -/
def ProcessCall.Made {n : Nat} (m : Processes n) : ProcessCall n → Prop
  | .executeThread process => m.alive process = false
  | .fork child parent => m.alive child = false ∧ m.alive parent = true
  | .exit process | .open process _ | .close process _ | .ls process _ _ | .chdir process _
  | .create_file process _ | .remove_file process _ | .mkdir process _ | .rmdir process _ =>
    m.alive process = true

namespace Processes

variable {n : Nat} (m : Processes n)

/-- The file manager and the volumes after a call. -/
def withFiles (files : Files n) (volumes : Disks) : Processes n := { m with files, volumes }

/-- `create_file`, `remove_file`, `mkdir` or `rmdir`. -/
def change (op : Files n → FsTable → Disks → List Char → List Char → SysuOs.Outcome ((Int × Files n) × Disks))
    (fs_table : FsTable) (process : Fin n) (path : List Char) : SysuOs.Outcome (Processes n) := do
  let ((_, files), volumes) ← op m.files fs_table m.volumes (m.cwd_path process) path
  return m.withFiles files volumes

/-- What a call leaves. A process that is made starts in the root, and a child where its parent is. -/
def call (fs_table : FsTable) : ProcessCall n → SysuOs.Outcome (Processes n)
  | .executeThread process => return { m with
      files := m.files.initProcessFs process
      alive := Function.update m.alive process true
      cwd_path := Function.update m.cwd_path process ['/'] }
  | .fork child parent => return { m with
      files := (m.files.initProcessFs child).forkProcessFs child parent
      alive := Function.update m.alive child true
      cwd_path := Function.update m.cwd_path child (m.cwd_path parent) }
  | .exit process =>
      let released := m.releaseProcessFs process
      return ⟨released, Function.update m.alive process false, Function.update m.cwd_path process ['/']⟩
  | .open process path => do
      let (_, opened) ← m.open fs_table process (m.cwd_path process) path
      return { m with toFileSys := opened }
  | .close process fd =>
    match fdOf fd.toInt with
    | none => return m
    | some fd => return { m with toFileSys := (m.close (process, fd)).2 }
  | .ls process path max_entries => do
      let ((_, files), volumes) ← Vfs.ls m.files fs_table m.volumes (m.cwd_path process) path max_entries.toInt
      return m.withFiles files volumes
  | .chdir process path => do
      let ((cwd, files), volumes) ← Vfs.chdir m.files fs_table m.volumes (m.cwd_path process) path
      return { m.withFiles files volumes with cwd_path := Function.update m.cwd_path process cwd }
  | .create_file process path => m.change createFile fs_table process path
  | .remove_file process path => m.change removeFile fs_table process path
  | .mkdir process path => m.change Vfs.mkdir fs_table process path
  | .rmdir process path => m.change Vfs.rmdir fs_table process path

/-- Calls one after the other, of any processes. -/
inductive Run (fs_table : FsTable) (m : Processes n) : Processes n → Prop
  | start : Run fs_table m m
  | call {m' m'' : Processes n} {c : ProcessCall n} (hrun : Run fs_table m m') (hmade : c.Made m')
      (hcall : m'.call fs_table c = .ret m'') : Run fs_table m m''

/-- No process has been made, and nothing is open. -/
structure Boot (m : Processes n) : Prop where
  files : m.files = Files.boot n
  inodes : ∀ slot place, (m.volumes slot).inodepool.bitmap place = false
  alive : ∀ process, m.alive process = false

end Processes

/-! ### What the calls keep -/

section

variable {n : Nat} {s s' : Files n} {m m' : FileSys n} {volumes volumes' : Disks} {fs_table : FsTable}
  {cwd path : List Char} {process child parent : Fin n}

/-- The descriptors of the process name no open file. -/
def Files.Unused (s : Files n) (process : Fin n) : Prop := ∀ fd, (s.fd_table (process, fd)).openfile = none

/-- The descriptors of the other processes are as they were. -/
def Files.Others (process : Fin n) (s s' : Files n) : Prop :=
  ∀ other, other ≠ process → ∀ fd, s'.fd_table (other, fd) = s.fd_table (other, fd)

theorem Files.Others.trans {s'' : Files n} (h : Files.Others process s s') (h' : Files.Others process s' s'') :
    Files.Others process s s'' :=
  fun other hother fd => (h' other hother fd).trans (h other hother fd)

theorem Files.Others.of_eq (h : s'.fd_table = s.fd_table) : Files.Others process s s' :=
  fun other _ fd => congrFun h (other, fd)

theorem Files.Others.of_update {fd : Fin MAX_FD_COUNT} {file : File}
    (h : s'.fd_table = Function.update s.fd_table (process, fd) file) : Files.Others process s s' := by
  intro other hother k
  rw [h, Function.update_of_ne]
  exact fun heq => hother (congrArg Prod.fst heq)

theorem releaseLookupOpenfile_table (s : Files n) (volumes : Disks) (file : Option (Fin MAX_OPENFILE_COUNT)) :
    (releaseLookupOpenfile s volumes file).1.fd_table = s.fd_table := by
  unfold releaseLookupOpenfile
  split
  · rfl
  · dsimp only
    split <;> rfl

theorem lsLoop_this {fuel left : Nat} {fs fs' : FAT12FS} {it : DirIter} {entries : List LsEntry}
    (h : lsLoop fuel fs it left = .ret (entries, fs')) : fs'.this = fs.this := by
  induction fuel generalizing fs it left entries with
  | zero => cases h
  | succ fuel ih =>
      rw [lsLoop] at h
      split at h
      · cases h
        rfl
      · obtain ⟨⟨found, it', fs₁⟩, hnext, h⟩ := Outcome.bind_eq_ret h
        have hthis := next_this hnext
        dsimp only at h
        split_ifs at h
        · cases h
          exact hthis
        · exact (ih h).trans hthis
        · obtain ⟨⟨rest, fs₂⟩, hrest, h⟩ := Outcome.bind_eq_ret h
          cases h
          exact (ih hrest).trans hthis

namespace Balanced

theorem «open» {r : Int} (h : Balanced m.files m.volumes none)
    (hcall : m.open fs_table process cwd path = .ret (r, m')) :
    Balanced m'.files m'.volumes none ∧ Files.Others process m.files m'.files := by
  rw [FileSys.open] at hcall
  obtain ⟨⟨file, visits, files, volumes⟩, hlookup, hcall⟩ := Outcome.bind_eq_ret hcall
  obtain ⟨hfound, htable⟩ := h.lookupPath hlookup
  cases file with
  | none =>
      cases hcall
      exact ⟨hfound, .of_eq htable⟩
  | some i =>
      dsimp only at hcall
      split at hcall
      · rename_i fd hfree
        cases hcall
        have hslot := List.mem_of_find?_eq_some hfree
        have hempty := List.find?_some hfree
        simp only [Files.fdSlots, List.mem_filter, decide_eq_true_eq] at hslot hempty
        -- an empty descriptor names no entry
        have hold : (files.fd_table (process, fd)).openfile = none := by
          cases hopen : (files.fd_table (process, fd)).openfile with
          | none => rfl
          | some j =>
              rw [hfound.file _ j hopen] at hempty
              cases hempty
        refine ⟨hfound.give hold rfl rfl (not_lt.mpr hslot.2), ?_⟩
        exact (Files.Others.of_eq htable).trans (.of_update rfl)
      · cases hcall
        split
        · rename_i hlast
          exact ⟨hfound.release (le_of_eq hlast), .of_eq htable⟩
        · rename_i hmore
          have hnonneg := hfound.refcount_nonneg i
          exact ⟨hfound.settle (lt_of_le_of_ne hnonneg (Ne.symm hmore)), .of_eq htable⟩

theorem close (h : Balanced m.files m.volumes none) (fd : Fd n) :
    Balanced (m.close fd).2.files (m.close fd).2.volumes none ∧
      ((m.close fd).2.files.fd_table fd).openfile = none ∧
      ∀ k, k ≠ fd → (m.close fd).2.files.fd_table k = m.files.fd_table k := by
  unfold FileSys.close
  dsimp only
  split
  · rename_i i _ hopen
    have hnone : File.openfile { m.file fd with openfile := none, offset := 0, type := .EMPTY } = none := rfl
    have hdropped := h.drop hopen hnone
    have hself : ∀ file : File, ((m.files.setFile fd file).count i (-1)).fd_table fd = file := by
      intro file
      show Function.update m.files.fd_table fd file fd = file
      exact Function.update_self ..
    have hothers : ∀ (file : File) (k : Fd n), k ≠ fd →
        ((m.files.setFile fd file).count i (-1)).fd_table k = m.files.fd_table k := by
      intro file k hk
      show Function.update m.files.fd_table fd file k = m.files.fd_table k
      exact Function.update_of_ne hk ..
    split
    · rename_i hlast
      exact ⟨hdropped.release hlast, congrArg File.openfile (hself _), hothers _⟩
    · rename_i hmore
      exact ⟨hdropped.settle (lt_of_not_ge hmore), congrArg File.openfile (hself _), hothers _⟩
  · rename_i hnot
    refine ⟨h, ?_, fun _ _ => rfl⟩
    cases hopen : (m.file fd).openfile with
    | none => exact hopen
    | some i => exact absurd hopen (hnot i (h.file fd i hopen))

/-- The table of a process without files is made anew. -/
theorem initProcessFs (h : Balanced s volumes none) (hunused : s.Unused process) :
    Balanced (s.initProcessFs process) volumes none ∧ (s.initProcessFs process).Unused process ∧
      Files.Others process s (s.initProcessFs process) := by
  have hstandard : ∀ fd, (Files.standard fd).openfile = none := by
    intro fd
    unfold Files.standard
    split_ifs <;> rfl
  unfold Files.initProcessFs
  apply List.foldlRecOn
    (motive := fun t => Balanced t volumes none ∧ t.Unused process ∧ Files.Others process s t) _ _
    ⟨h, hunused, .of_eq rfl⟩
  rintro t ⟨hbalanced, hfree, hothers⟩ fd -
  refine ⟨hbalanced.setFile (hfree fd) (hstandard fd), ?_, hothers.trans (.of_update rfl)⟩
  intro k
  show (Function.update t.fd_table (process, fd) (Files.standard fd) (process, k)).openfile = none
  by_cases hk : k = fd
  · rw [hk, Function.update_self]
    exact hstandard fd
  · rw [Function.update_of_ne fun heq => hk (congrArg Prod.snd heq)]
    exact hfree k

theorem forkFd_table (s : Files n) (child parent : Fin n) (fd : Fin MAX_FD_COUNT) :
    (s.forkFd child parent fd).fd_table = Function.update s.fd_table (child, fd) (s.fd_table (parent, fd)) := by
  unfold Files.forkFd
  dsimp only
  split <;> rfl

/-- A descriptor of the parent is copied, and its entry counted once more. -/
theorem forkFd {fd : Fin MAX_FD_COUNT} (h : Balanced s volumes none)
    (hfree : (s.fd_table (child, fd)).openfile = none) : Balanced (s.forkFd child parent fd) volumes none := by
  unfold Files.forkFd
  dsimp only
  split
  · rename_i i htype hopen
    have hpos : 0 < (s.openfile_table i).refcount := by
      rw [h.refcount]
      exact lt_of_lt_of_le zero_lt_one (refs_pos hopen)
    have hlow : ¬fd.val < 3 := by
      intro hlt
      rw [h.standard (parent, fd) hlt] at hopen
      cases hopen
    exact (h.again ((h.map i).mpr (Or.inl hpos))).give hfree hopen htype hlow
  · rename_i hnot
    refine h.setFile hfree ?_
    cases hopen : (s.fd_table (parent, fd)).openfile with
    | none => rfl
    | some i => exact absurd hopen (hnot i (h.file _ i hopen))

/-- The table of a new process becomes that of its parent. -/
theorem forkProcessFs (h : Balanced s volumes none) (parent : Fin n) (hunused : s.Unused child) :
    Balanced (s.forkProcessFs child parent) volumes none ∧
      Files.Others child s (s.forkProcessFs child parent) := by
  have hloop : ∀ (fds : List (Fin MAX_FD_COUNT)) (t : Files n), fds.Nodup → Balanced t volumes none →
      (∀ fd ∈ fds, (t.fd_table (child, fd)).openfile = none) →
      Balanced (fds.foldl (fun t fd => t.forkFd child parent fd) t) volumes none ∧
        Files.Others child t (fds.foldl (fun t fd => t.forkFd child parent fd) t) := by
    intro fds
    induction fds with
    | nil => exact fun t _ hbalanced _ => ⟨hbalanced, .of_eq rfl⟩
    | cons fd fds ih =>
        intro t hnodup hbalanced hfree
        obtain ⟨hnot, hnodup⟩ := List.nodup_cons.mp hnodup
        have hnext : ∀ k ∈ fds, ((t.forkFd child parent fd).fd_table (child, k)).openfile = none := by
          intro k hk
          have hne : k ≠ fd := by
            rintro rfl
            exact hnot hk
          rw [forkFd_table, Function.update_of_ne fun heq => hne (congrArg Prod.snd heq)]
          exact hfree k (List.mem_cons_of_mem _ hk)
        obtain ⟨hend, hothers⟩ := ih _ hnodup (hbalanced.forkFd (hfree fd List.mem_cons_self)) hnext
        exact ⟨hend, Files.Others.trans (.of_update (forkFd_table t child parent fd)) hothers⟩
  exact hloop _ s (List.nodup_finRange _) h fun fd _ => hunused fd

/-- A process that ends closes its files. -/
theorem releaseProcessFs (h : Balanced m.files m.volumes none) (process : Fin n) :
    Balanced (m.releaseProcessFs process).files (m.releaseProcessFs process).volumes none ∧
      (m.releaseProcessFs process).files.Unused process ∧
      Files.Others process m.files (m.releaseProcessFs process).files := by
  have hloop : ∀ (fds : List (Fin MAX_FD_COUNT)) (t : FileSys n), Balanced t.files t.volumes none →
      Balanced (fds.foldl (fun t fd => (t.close (process, fd)).2) t).files
          (fds.foldl (fun t fd => (t.close (process, fd)).2) t).volumes none ∧
        (∀ fd, fd ∈ fds ∨ (t.files.fd_table (process, fd)).openfile = none →
          ((fds.foldl (fun t fd => (t.close (process, fd)).2) t).file (process, fd)).openfile = none) ∧
        Files.Others process t.files (fds.foldl (fun t fd => (t.close (process, fd)).2) t).files := by
    intro fds
    induction fds with
    | nil => exact fun t hbalanced => ⟨hbalanced, by simp [FileSys.file], .of_eq rfl⟩
    | cons fd fds ih =>
        intro t hbalanced
        obtain ⟨hnext, hself, hkept⟩ := hbalanced.close (process, fd)
        obtain ⟨hend, hclosed, hothers⟩ := ih _ hnext
        refine ⟨hend, ?_, Files.Others.trans ?_ hothers⟩
        · intro k hk
          refine hclosed k ?_
          by_cases hkfd : k = fd
          · rw [hkfd]
            exact Or.inr hself
          · rw [hkept (process, k) fun heq => hkfd (congrArg Prod.snd heq)]
            exact hk.imp_left fun hmem => (List.mem_cons.mp hmem).resolve_left hkfd
        · intro other hother k
          exact hkept (other, k) fun heq => hother (congrArg Prod.fst heq)
  have hclosing := hloop Files.fdSlots m h
  unfold FileSys.releaseProcessFs
  dsimp only
  generalize Files.fdSlots.foldl (fun t fd => (t.close (process, fd)).2) m = closed at hclosing ⊢
  obtain ⟨hend, hclosed, hothers⟩ := hclosing
  have hunused : closed.files.Unused process := by
    intro fd
    refine hclosed fd ?_
    by_cases hlow : fd.val < 3
    · exact Or.inr (h.standard (process, fd) hlow)
    · exact Or.inl (List.mem_filter.mpr ⟨List.mem_finRange fd, decide_eq_true (not_lt.mp hlow)⟩)
  obtain ⟨hbalanced, hnone, hinit⟩ := hend.initProcessFs hunused
  exact ⟨hbalanced, hnone, hothers.trans hinit⟩

/-! ### Calls on paths -/

theorem resolveParent {found : Option Parent} {file : Option (Fin MAX_OPENFILE_COUNT)}
    (h : Balanced s volumes none)
    (hcall : Vfs.resolveParent s fs_table volumes cwd path = .ret ((found, file, s'), volumes')) :
    Balanced s' volumes' file ∧ s'.fd_table = s.fd_table := by
  unfold Vfs.resolveParent at hcall
  split at hcall
  · cases hcall
    exact ⟨h, rfl⟩
  split at hcall
  · cases hcall
    exact ⟨h, rfl⟩
  split at hcall
  · cases hcall
    exact ⟨h, rfl⟩
  split at hcall
  · cases hcall
    exact ⟨h, rfl⟩
  split at hcall
  · cases hcall
    exact ⟨h, rfl⟩
  obtain ⟨⟨looked, visits, s₁, volumes₁⟩, hlookup, hcall⟩ := Outcome.bind_eq_ret hcall
  have hfound := h.lookupPath hlookup
  cases looked with
  | none =>
      cases hcall
      exact hfound
  | some i =>
      dsimp only at hcall
      split at hcall
      · cases hcall
        exact hfound
      · cases hcall
        exact hfound

/-- A call that changes the directory a path is in, where the call of the volume keeps the references. -/
theorem changeParent {act : FatVolume → Option Nat → List Byte → SysuOs.Outcome (Bool × FatVolume)} {r : Int}
    (hact : ∀ {claims vol dir name res vol'}, Counts claims vol → act vol dir name = .ret (res, vol') →
      Counts claims vol')
    (h : Balanced s volumes none)
    (hcall : Vfs.changeParent act s fs_table volumes cwd path = .ret ((r, s'), volumes')) :
    Balanced s' volumes' none ∧ s'.fd_table = s.fd_table := by
  obtain ⟨⟨⟨found, file, s₁⟩, volumes₁⟩, hresolve, hcall⟩ := Outcome.bind_eq_ret hcall
  obtain ⟨hfound, htable⟩ := h.resolveParent hresolve
  have hreleased : ∀ {volumes₂ : Disks}, Balanced s₁ volumes₂ file →
      Balanced (Vfs.releaseLookupOpenfile s₁ volumes₂ file).1
          (Vfs.releaseLookupOpenfile s₁ volumes₂ file).2 none ∧
        (Vfs.releaseLookupOpenfile s₁ volumes₂ file).1.fd_table = s.fd_table :=
    fun hfiles => ⟨hfiles.releaseLookupOpenfile, (releaseLookupOpenfile_table _ _ _).trans htable⟩
  cases found with
  | none =>
      cases hcall
      exact hreleased hfound
  | some found =>
      dsimp only at hcall
      split at hcall
      · cases hcall
        exact hreleased hfound
      · obtain ⟨⟨res, vol⟩, hchange, hcall⟩ := Outcome.bind_eq_ret hcall
        cases hcall
        exact hreleased (hfound.update (hact (hfound.inodes found.slot) hchange))

theorem lsDir {slot : Fin MAX_DISK_COUNT} {found : Option (Fin MAX_OPENFILE_COUNT)} {dir : Option Nat}
    {max_entries : Nat} {entries : Option (List LsEntry)} {vol : FatVolume} (h : Balanced s volumes found)
    (hcall : Vfs.lsDir (volumes slot) dir max_entries = .ret (entries, vol)) :
    Balanced s (Function.update volumes slot vol) found := by
  refine h.update ?_
  unfold Vfs.lsDir at hcall
  split at hcall
  · cases hcall
    exact h.inodes slot
  · obtain ⟨⟨listed, fs⟩, hloop, hcall⟩ := Outcome.bind_eq_ret hcall
    cases hcall
    exact (h.inodes slot).withFs (lsLoop_this hloop)

theorem ls {max_entries : Int} {entries : Option (List LsEntry)} (h : Balanced s volumes none)
    (hcall : Vfs.ls s fs_table volumes cwd path max_entries = .ret ((entries, s'), volumes')) :
    Balanced s' volumes' none ∧ s'.fd_table = s.fd_table := by
  unfold Vfs.ls at hcall
  split at hcall
  · cases hcall
    exact ⟨h, rfl⟩
  split at hcall
  · cases hcall
    exact ⟨h, rfl⟩
  split at hcall
  · cases hcall
    exact ⟨h, rfl⟩
  split at hcall
  · cases hcall
    exact ⟨h, rfl⟩
  split at hcall
  · obtain ⟨⟨listed, vol⟩, hdir, hcall⟩ := Outcome.bind_eq_ret hcall
    cases hcall
    exact ⟨h.lsDir hdir, rfl⟩
  obtain ⟨⟨file, visits, s₁, volumes₁⟩, hlookup, hcall⟩ := Outcome.bind_eq_ret hcall
  obtain ⟨hfound, htable⟩ := h.lookupPath hlookup
  cases file with
  | none =>
      cases hcall
      exact ⟨hfound, htable⟩
  | some i =>
      have hreleased : ∀ {volumes₂ : Disks}, Balanced s₁ volumes₂ (some i) →
          Balanced (Vfs.releaseLookupOpenfile s₁ volumes₂ (some i)).1
              (Vfs.releaseLookupOpenfile s₁ volumes₂ (some i)).2 none ∧
            (Vfs.releaseLookupOpenfile s₁ volumes₂ (some i)).1.fd_table = s.fd_table :=
        fun hfiles => ⟨hfiles.releaseLookupOpenfile, (releaseLookupOpenfile_table _ _ _).trans htable⟩
      dsimp only at hcall
      split at hcall
      · cases hcall
        exact hreleased hfound
      split at hcall
      · cases hcall
        exact hreleased hfound
      split at hcall
      · cases hcall
        exact hreleased hfound
      obtain ⟨⟨listed, vol⟩, hdir, hcall⟩ := Outcome.bind_eq_ret hcall
      cases hcall
      exact hreleased (hfound.lsDir hdir)

theorem chdir {next : List Char} (h : Balanced s volumes none)
    (hcall : Vfs.chdir s fs_table volumes cwd path = .ret ((next, s'), volumes')) :
    Balanced s' volumes' none ∧ s'.fd_table = s.fd_table := by
  unfold Vfs.chdir at hcall
  split at hcall
  · cases hcall
    exact ⟨h, rfl⟩
  split at hcall
  · cases hcall
    exact ⟨h, rfl⟩
  obtain ⟨⟨file, visits, s₁, volumes₁⟩, hlookup, hcall⟩ := Outcome.bind_eq_ret hcall
  obtain ⟨hfound, htable⟩ := h.lookupPath hlookup
  cases file with
  | none =>
      cases hcall
      exact ⟨hfound, htable⟩
  | some i =>
      have hreleased := hfound.releaseLookupOpenfile
      have hkept := (releaseLookupOpenfile_table s₁ volumes₁ (some i)).trans htable
      cases hcall
      exact ⟨hreleased, hkept⟩

end Balanced

end

namespace Processes

variable {n : Nat} {fs_table : FsTable} {start m m' : Processes n}

/-- The tables suit each other, and the slots that are free name no open file. -/
structure Settled (m : Processes n) : Prop where
  balanced : Balanced m.files m.volumes none
  unused : ∀ process, m.alive process = false → m.files.Unused process

theorem Boot.settled (h : m.Boot) : Settled m where
  balanced := by
    have hholders : ∀ slot place, m.files.holders slot place = 0 := by
      intro slot place
      apply Finset.sum_eq_zero
      intro i _
      exact if_neg (by rw [h.files]; simp [Files.boot])
    have hnone : ∀ fd, (m.files.fd_table fd).openfile = none := by
      intro fd
      rw [h.files]
      rfl
    refine ⟨?_, ?_, ?_, ?_, ?_, ?_, ?_⟩
    · intro i
      rw [h.files]
      exact iff_of_false (by simp [Files.boot]) (by simp [Files.boot, OpenFile.zero])
    · intro i
      have hzero : m.files.refs i = 0 := refs_eq_zero fun fd => by simp [hnone fd]
      rw [hzero, h.files]
      rfl
    · intro fd i hopen
      rw [hnone] at hopen
      cases hopen
    · exact fun fd _ => hnone fd
    · intro i hmap
      rw [h.files] at hmap
      cases hmap
    · intro i j node hmap
      rw [h.files] at hmap
      cases hmap
    · intro slot
      refine ⟨?_, ?_, ?_⟩
      · intro place hused
        rw [h.inodes] at hused
        cases hused
      · intro place
        rw [h.inodes, hholders]
        simp
      · intro place hpos
        rw [hholders] at hpos
        cases hpos
  unused process _ fd := by
    rw [h.files]
    rfl

namespace Settled

/-- A call of one process, in whose place the slot is as it should be. -/
theorem of_others {process : Fin n} (h : Settled m) (hbalanced : Balanced m'.files m'.volumes none)
    (hothers : Files.Others process m.files m'.files)
    (halive : ∀ other, other ≠ process → m'.alive other = m.alive other)
    (hslot : m'.alive process = true ∨ m'.files.Unused process) : Settled m' where
  balanced := hbalanced
  unused other hfree fd := by
    by_cases hother : other = process
    · rw [hother] at hfree ⊢
      rcases hslot with halive | hunused
      · rw [halive] at hfree
        cases hfree
      · exact hunused fd
    · rw [hothers other hother]
      exact h.unused other ((halive other hother).symm.trans hfree) fd

/-- A call that leaves the descriptors as they are. -/
theorem of_table (h : Settled m) (hbalanced : Balanced m'.files m'.volumes none)
    (htable : m'.files.fd_table = m.files.fd_table) (halive : m'.alive = m.alive) : Settled m' where
  balanced := hbalanced
  unused other hfree fd := by
    rw [htable]
    exact h.unused other (halive ▸ hfree) fd

theorem change {act : FatVolume → Option Nat → List Byte → SysuOs.Outcome (Bool × FatVolume)} {process : Fin n}
    {path : List Char}
    (hact : ∀ {claims vol dir name res vol'}, Counts claims vol → act vol dir name = .ret (res, vol') →
      Counts claims vol')
    (h : Settled m) (hcall : m.change (changeParent act) fs_table process path = .ret m') : Settled m' := by
  obtain ⟨⟨⟨r, files⟩, volumes⟩, hchange, hcall⟩ := Outcome.bind_eq_ret hcall
  cases hcall
  obtain ⟨hbalanced, htable⟩ := h.balanced.changeParent hact hchange
  exact h.of_table hbalanced htable rfl

/-- What one call keeps. -/
theorem call (h : Settled m) {c : ProcessCall n} (hmade : c.Made m) (hcall : m.call fs_table c = .ret m') :
    Settled m' := by
  cases c with
  | executeThread process =>
      cases hcall
      obtain ⟨hbalanced, hunused, hothers⟩ := h.balanced.initProcessFs (h.unused process hmade)
      exact h.of_others hbalanced hothers (fun other hother => Function.update_of_ne hother ..) (.inr hunused)
  | fork child parent =>
      obtain ⟨hbalanced, hunused, hothers⟩ := h.balanced.initProcessFs (h.unused child hmade.1)
      obtain ⟨hforked, hothers'⟩ := hbalanced.forkProcessFs parent hunused
      unfold Processes.call at hcall
      dsimp only at hcall
      generalize (m.files.initProcessFs child).forkProcessFs child parent = forked at hforked hothers' hcall
      obtain rfl := Outcome.ret.inj hcall
      exact h.of_others hforked (hothers.trans hothers') (fun other hother => Function.update_of_ne hother ..)
        (.inl (Function.update_self ..))
  | exit process =>
      obtain rfl := Outcome.ret.inj hcall
      obtain ⟨hbalanced, hunused, hothers⟩ := h.balanced.releaseProcessFs process
      exact h.of_others hbalanced hothers (fun other hother => Function.update_of_ne hother ..) (.inr hunused)
  | «open» process path =>
      obtain ⟨⟨r, opened⟩, hopen, hcall⟩ := Outcome.bind_eq_ret hcall
      cases hcall
      obtain ⟨hbalanced, hothers⟩ := h.balanced.open hopen
      exact h.of_others hbalanced hothers (fun _ _ => rfl) (.inl hmade)
  | close process fd =>
      unfold Processes.call at hcall
      dsimp only at hcall
      split at hcall
      · cases hcall
        exact h
      · rename_i k _
        cases hcall
        obtain ⟨hbalanced, -, hkept⟩ := h.balanced.close (process, k)
        refine h.of_others hbalanced ?_ (fun _ _ => rfl) (.inl hmade)
        intro other hother j
        exact hkept (other, j) fun heq => hother (congrArg Prod.fst heq)
  | ls process path max_entries =>
      obtain ⟨⟨⟨entries, files⟩, volumes⟩, hls, hcall⟩ := Outcome.bind_eq_ret hcall
      cases hcall
      obtain ⟨hbalanced, htable⟩ := h.balanced.ls hls
      exact h.of_table hbalanced htable rfl
  | chdir process path =>
      obtain ⟨⟨⟨cwd, files⟩, volumes⟩, hchdir, hcall⟩ := Outcome.bind_eq_ret hcall
      cases hcall
      obtain ⟨hbalanced, htable⟩ := h.balanced.chdir hchdir
      exact h.of_table hbalanced htable rfl
  | create_file process path => exact h.change Counts.createFile hcall
  | remove_file process path => exact h.change Counts.remove hcall
  | mkdir process path => exact h.change Counts.createDirectory hcall
  | rmdir process path => exact h.change Counts.removeDirectory hcall

end Settled

theorem Run.settled (hrun : Run fs_table start m) (hstart : start.Boot) : Settled m := by
  induction hrun with
  | start => exact hstart.settled
  | call _ hmade hcall ih => exact ih.call hmade hcall

open Finset

theorem refs_eq_card {s : Files n} {volumes : Disks} (h : Balanced s volumes none)
    (i : Fin MAX_OPENFILE_COUNT) :
    s.refs i = #{fd | (s.fd_table fd).type = .FILE ∧ (s.fd_table fd).openfile = some i} := by
  unfold Files.refs File.refers
  rw [sum_boole]
  congr 2
  ext fd
  simp only [mem_filter, mem_univ, true_and]
  exact ⟨fun hopen => ⟨h.file fd i hopen, hopen⟩, And.right⟩

theorem holders_eq_card (s : Files n) (slot : Fin MAX_DISK_COUNT) (place : Nat) :
    s.holders slot place = #{i | s.openfile_map i = true ∧ (s.openfile_table i).node = some ⟨slot, place⟩} := by
  unfold Files.holders Files.holds
  rw [sum_boole, Nat.cast_id]

/-- What the tables say of each other: an entry of the open-file table is in use while descriptors name it, and
counts them; an inode in use counts the entries that hold it, of which there is one at most. -/
structure Counted (m : Processes n) : Prop where
  openfile_map : ∀ i, m.files.openfile_map i = true ↔ 0 < (m.files.openfile_table i).refcount
  openfiles : ∀ i, (m.files.openfile_table i).refcount =
    #{fd | (m.files.fd_table fd).type = .FILE ∧ (m.files.fd_table fd).openfile = some i}
  inodes : ∀ slot place, (m.volumes slot).inodepool.bitmap place = true →
    (m.volumes slot).inodepool.refcount place =
        #{i | m.files.openfile_map i = true ∧ (m.files.openfile_table i).node = some ⟨slot, place⟩} ∧
      #{i | m.files.openfile_map i = true ∧ (m.files.openfile_table i).node = some ⟨slot, place⟩} ≤ 1

theorem refcounts_counted (hstart : start.Boot) (hrun : Run fs_table start m) : Counted m := by
  have h := (hrun.settled hstart).balanced
  refine ⟨?_, ?_, ?_⟩
  · intro i
    rw [h.map i]
    simp
  · intro i
    rw [h.refcount, refs_eq_card h]
  · intro slot place hused
    have hpos := ((h.inodes slot).used place).mp hused
    rw [(h.inodes slot).counted place hpos, holders_eq_card]
    refine ⟨rfl, card_le_one.mpr ?_⟩
    intro i hi j hj
    simp only [mem_filter, mem_univ, true_and] at hi hj
    exact h.once i j _ hi.1 hj.1 hi.2 hj.2

/-- Two slots for processes, and a file `a` in the root. -/
def twoSlots : Processes 2 where
  files := Files.boot 2
  volumes := (withSize 32).volumes
  alive := fun _ => false
  cwd_path := fun _ => []

theorem boot_twoSlots : twoSlots.Boot := ⟨rfl, fun _ _ => rfl, fun _ => rfl⟩

/-- The first process is made, and opens the file. -/
theorem refcounts_counted_open : ∃ m, Run rootOnly twoSlots m ∧
    (m.file (0, (3 : Fin 64))).type = .FILE ∧ Counted m := by
  have hopened : (((twoSlots.call rootOnly (.executeThread 0) >>= fun m =>
      m.call rootOnly (.open 0 ['/', 'a'])).getD twoSlots).file (0, (3 : Fin 64))).type = .FILE := by decide +kernel
  cases h : twoSlots.call rootOnly (.executeThread 0) >>= fun m => m.call rootOnly (.open 0 ['/', 'a']) with
  | halt =>
      rw [h] at hopened
      cases hopened
  | diverge =>
      rw [h] at hopened
      cases hopened
  | ret m =>
      rw [h] at hopened
      obtain ⟨m₁, hmade, hopen⟩ := Outcome.bind_eq_ret h
      have halive : m₁.alive 0 = true := by
        obtain rfl := Outcome.ret.inj hmade
        rfl
      have hrun : Run rootOnly twoSlots m :=
        .call (.call .start (show ProcessCall.Made twoSlots (.executeThread 0) from rfl) hmade)
          (show ProcessCall.Made m₁ (.open 0 ['/', 'a']) from halive) hopen
      exact ⟨m, hrun, hopened, refcounts_counted boot_twoSlots hrun⟩

end Processes

end SysuOs.Vfs
