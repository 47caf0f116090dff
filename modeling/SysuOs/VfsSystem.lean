import SysuOs.FatWalks
import SysuOs.VfsProcesses

/-! Runs of all the calls on files together: processes are made and ended, and name, open, read, write, append
to and seek in files, in any order. Nothing stays in use that no living process has open. -/

namespace SysuOs.Vfs

open FAT12FS

/-! ### The volume stays the same object -/

section

variable {fs fs' : FAT12FS}

theorem flushFatTable_this {res : Bool} (h : fs.flushFatTable = (res, fs')) : fs'.this = fs.this := by
  obtain ⟨tmp, device, hframe⟩ := flushGroups_frame fs ((fs.bpb.fatSize16 + 2) / 3) 0 0
  unfold FAT12FS.flushFatTable at h
  rw [h] at hframe
  dsimp only at hframe
  rw [hframe]

theorem writeCluster_this {i : Nat} {res : Bool} (h : fs.writeCluster i = .ret (res, fs')) :
    fs'.this = fs.this := by
  obtain ⟨pool, device, rfl⟩ := (writeCluster_cacheOnly h).eq
  rfl

theorem readLoop_this {fuel cntCluster size readSize : Nat} {out out' : ByteMap} {r : Int}
    (h : fs.readLoop fuel cntCluster size readSize out = .ret (r, out', fs')) : fs'.this = fs.this := by
  induction fuel generalizing fs cntCluster size readSize out with
  | zero => cases h
  | succ fuel ih =>
      rw [readLoop] at h
      split at h
      · obtain ⟨⟨cache, fs₁⟩, hget, h⟩ := Outcome.bind_eq_ret h
        cases cache with
        | none =>
            cases h
            exact getCache_this hget
        | some i =>
            obtain ⟨fs₂, hrel, h⟩ := Outcome.bind_eq_ret h
            exact (ih h).trans ((releaseCache_this hrel).trans (getCache_this hget))
      · cases h
        rfl

theorem read_this {node : Option Fat12Inode} {out out' : ByteMap} {size offset r : Int}
    (h : fs.read node out size offset = .ret (r, out', fs')) : fs'.this = fs.this := by
  have hfrom : ∀ {node size offset r}, fs.readFrom node out size offset = .ret (r, out', fs') →
      fs'.this = fs.this := by
    intro node size offset r h
    obtain ⟨skipped, -, h⟩ := Outcome.bind_eq_ret h
    cases skipped with
    | none =>
        cases h
        rfl
    | some start =>
        obtain ⟨⟨cache, fs₁⟩, hget, h⟩ := Outcome.bind_eq_ret h
        cases cache with
        | none =>
            cases h
            exact getCache_this hget
        | some i =>
            dsimp only at h
            split at h
            · obtain ⟨fs₂, hrel, h⟩ := Outcome.bind_eq_ret h
              cases h
              exact (releaseCache_this hrel).trans (getCache_this hget)
            · obtain ⟨fs₂, hrel, h⟩ := Outcome.bind_eq_ret h
              exact (readLoop_this h).trans ((releaseCache_this hrel).trans (getCache_this hget))
  cases node with
  | none =>
      cases h
      rfl
  | some node =>
      rw [FAT12FS.read] at h
      dsimp only at h
      split_ifs at h <;> first
        | (cases h; rfl)
        | exact hfrom h

theorem writeLoop_this {src : ByteMap} {fuel cntCluster size writeSize : Nat} {r : Int}
    (h : writeLoop src fuel fs cntCluster size writeSize = .ret (r, fs')) : fs'.this = fs.this := by
  induction fuel generalizing fs cntCluster size writeSize with
  | zero => cases h
  | succ fuel ih =>
      rw [writeLoop] at h
      split at h
      · obtain ⟨⟨cache, fs₁⟩, hget, h⟩ := Outcome.bind_eq_ret h
        cases cache with
        | none =>
            cases h
            exact getCache_this hget
        | some i =>
            obtain ⟨fs₂, hrel, h⟩ := Outcome.bind_eq_ret h
            have hgot := getCache_this hget
            have hstored := releaseCache_this hrel
            exact (ih h).trans (hstored.trans hgot)
      · cases h
        rfl

theorem write_this {node : Option Fat12Inode} {src : ByteMap} {size offset r : Int}
    (h : fs.write node src size offset = .ret (r, fs')) : fs'.this = fs.this := by
  have hfrom : ∀ {node size offset r}, fs.writeFrom node src size offset = .ret (r, fs') →
      fs'.this = fs.this := by
    intro node size offset r h
    obtain ⟨skipped, -, h⟩ := Outcome.bind_eq_ret h
    cases skipped with
    | none =>
        cases h
        rfl
    | some start =>
        obtain ⟨⟨cache, fs₁⟩, hget, h⟩ := Outcome.bind_eq_ret h
        cases cache with
        | none =>
            cases h
            exact getCache_this hget
        | some i =>
            dsimp only at h
            split at h
            · obtain ⟨fs₂, hrel, h⟩ := Outcome.bind_eq_ret h
              cases h
              have hgot := getCache_this hget
              have hstored := releaseCache_this hrel
              exact hstored.trans hgot
            · obtain ⟨fs₂, hrel, h⟩ := Outcome.bind_eq_ret h
              have hgot := getCache_this hget
              have hstored := releaseCache_this hrel
              exact (writeLoop_this h).trans (hstored.trans hgot)
  cases node with
  | none =>
      cases h
      rfl
  | some node =>
      rw [FAT12FS.write] at h
      dsimp only at h
      split_ifs at h <;> first
        | (cases h; rfl)
        | exact hfrom h

theorem appendStart_this {node : Fat12Inode} {started : Option Fat12Inode}
    (h : fs.appendStart node = .ret (started, fs')) : fs'.this = fs.this := by
  rw [appendStart] at h
  split at h
  · obtain ⟨firstCluster, -, h⟩ := Outcome.bind_eq_ret h
    split at h
    · cases h
      rfl
    · split at h
      · rename_i fs₁ hflush
        cases h
        have hthis := flushFatTable_this hflush
        exact hthis
      · rename_i fs₁ hflush
        cases h
        have hthis := flushFatTable_this hflush
        exact hthis
  · cases h
    rfl

theorem fillLast_this {cluster used size filled left : Nat} {src : ByteMap}
    (h : fs.fillLast cluster used src size = .ret (filled, left, fs')) : fs'.this = fs.this := by
  rw [fillLast] at h
  split at h
  · obtain ⟨⟨cache, fs₁⟩, hget, h⟩ := Outcome.bind_eq_ret h
    cases cache with
    | none => cases h
    | some i =>
        obtain ⟨⟨res, fs₂⟩, hwrite, h⟩ := Outcome.bind_eq_ret h
        obtain ⟨fs₃, hrel, h⟩ := Outcome.bind_eq_ret h
        cases h
        have hgot := getCache_this hget
        have hwritten := writeCluster_this hwrite
        exact (releaseCache_this hrel).trans (hwritten.trans hgot)
  · cases h
    rfl

theorem appendLoop_this {fuel cluster size appended r : Nat} {src : ByteMap}
    (h : fs.appendLoop fuel cluster src size appended = .ret (r, fs')) : fs'.this = fs.this := by
  induction fuel generalizing fs cluster src size appended with
  | zero => cases h
  | succ fuel ih =>
      rw [appendLoop] at h
      split at h
      · obtain ⟨newCluster, -, h⟩ := Outcome.bind_eq_ret h
        split at h
        · cases h
          rfl
        · dsimp only at h
          split at h
          · rename_i fs₁ hflush
            cases h
            have hthis := flushFatTable_this hflush
            exact hthis
          · rename_i fs₁ hflush
            have hthis := flushFatTable_this hflush
            obtain ⟨⟨cache, fs₂⟩, hget, h⟩ := Outcome.bind_eq_ret h
            cases cache with
            | none => cases h
            | some i =>
                obtain ⟨⟨res, fs₃⟩, hwrite, h⟩ := Outcome.bind_eq_ret h
                obtain ⟨fs₄, hrel, h⟩ := Outcome.bind_eq_ret h
                have hgot := getCache_this hget
                have hwritten := writeCluster_this hwrite
                have hstored := (releaseCache_this hrel).trans (hwritten.trans (hgot.trans hthis))
                split at h
                · exact (ih h).trans hstored
                · cases h
                  exact hstored
      · cases h
        rfl

theorem updateEntry_this {node : Fat12Inode} (h : fs.updateEntry node = .ret fs') : fs'.this = fs.this := by
  rw [updateEntry] at h
  split at h
  · cases h
    rfl
  · obtain ⟨⟨cache, fs₁⟩, hget, h⟩ := Outcome.bind_eq_ret h
    cases cache with
    | none => cases h
    | some i =>
        dsimp only at h
        split at h
        · cases h
        · split at h
          · cases h
          · have hgot := getCache_this hget
            have hstored := releaseCache_this h
            exact hstored.trans hgot

/-- `append` leaves the volume and the inode the objects they are. -/
theorem append_this {node : Fat12Inode} {node' : Option Fat12Inode} {src : ByteMap} {size r : Int}
    (h : fs.append (some node) src size = .ret (r, node', fs')) :
    fs'.this = fs.this ∧ ∃ changed, node' = some changed ∧ changed.fat12Fs = node.fat12Fs := by
  rcases append_cases h with ⟨-, rfl, rfl | hstart⟩ |
    ⟨started, fs₁, appended, changed, -, hstart, hrest, -, rfl⟩
  · exact ⟨rfl, node, rfl, rfl⟩
  · exact ⟨appendStart_this hstart, node, rfl, rfl⟩
  · obtain ⟨cluster, filled, left, fs₂, fs₃, hfill, hloop, hend⟩ := appendRest_cases hrest
    have hthis := (appendLoop_this hloop).trans ((fillLast_this hfill).trans (appendStart_this hstart))
    have hstarted : started.fat12Fs = node.fat12Fs := by
      rw [appendStart] at hstart
      split at hstart
      · obtain ⟨firstCluster, -, hstart⟩ := Outcome.bind_eq_ret hstart
        split at hstart
        · cases hstart
        · split at hstart <;> cases hstart
          rfl
      · cases hstart
        rfl
    rcases hend with ⟨-, rfl, hupdate⟩ | ⟨-, rfl, rfl⟩
    · exact ⟨(updateEntry_this hupdate).trans hthis, _, rfl, hstarted⟩
    · exact ⟨hthis, _, rfl, hstarted⟩

end

/-! ### All the calls -/

/-- The calls of a process on the files that it has open. -/
inductive IoCall (n : Nat) where
  | read (process : Fin n) (fd : Int32) (buf : Option ByteMap) (size : Int32) (typed : Int)
  | write (process : Fin n) (fd : Int32) (buf : Option ByteMap) (size : Int32)
  | append (process : Fin n) (fd : Int32) (buf : Option ByteMap) (size : Int32)
  | fseek (process : Fin n) (fd bias whence : Int32)

namespace IoCall

variable {n : Nat}

def fileCall : IoCall n → FileCall n
  | read process fd buf size typed => .read process fd buf size typed
  | write process fd buf size => .write process fd buf size
  | append process fd buf size => .append process fd buf size
  | fseek process fd bias whence => .fseek process fd bias whence

def process : IoCall n → Fin n
  | read process _ _ _ _ | write process _ _ _ | append process _ _ _ | fseek process _ _ _ => process

end IoCall

namespace Processes

/-- Calls of any processes one after the other, those on open files among them. -/
inductive SystemRun {n : Nat} (fs_table : FsTable) (m : Processes n) : Processes n → Prop
  | start : SystemRun fs_table m m
  | call {m' m'' : Processes n} {c : ProcessCall n} (hrun : SystemRun fs_table m m') (hmade : c.Made m')
      (hcall : m'.call fs_table c = .ret m'') : SystemRun fs_table m m''
  | io {m' : Processes n} {c : IoCall n} {r : Int} {s : FileSys n} (hrun : SystemRun fs_table m m')
      (hmade : m'.alive c.process = true) (hcall : m'.toFileSys.call fs_table c.fileCall = .ret (r, s)) :
      SystemRun fs_table m { m' with toFileSys := s }

end Processes

namespace Balanced

variable {n : Nat} {m m' : FileSys n} {s : Files n} {volumes : Disks} {fs_table : FsTable} {r : Int}

/-- A descriptor that is moved in its file names the same entry. -/
theorem setOffset (h : Balanced s volumes none) (fd : Fd n) (offset : Int) :
    Balanced (s.setOffset fd offset) volumes none := by
  refine h.assign fd { s.fd_table fd with offset } rfl rfl (fun _ => rfl) (fun _ => rfl) (fun i => ?_)
    (fun i => h.file fd i) (h.standard fd) h.map
  have hsame : File.refers { s.fd_table fd with offset } i = (s.fd_table fd).refers i := rfl
  rw [hsame, Int.sub_add_cancel]
  exact h.refcount i

theorem setOffset_openfile (s : Files n) (fd k : Fd n) (offset : Int) :
    ((s.setOffset fd offset).fd_table k).openfile = (s.fd_table k).openfile := by
  show (Function.update s.fd_table fd { s.fd_table fd with offset } k).openfile = _
  by_cases hk : k = fd
  · rw [hk, Function.update_self]
  · rw [Function.update_of_ne hk]

/-- The caches of a volume change. -/
theorem setFs (h : Balanced m.files m.volumes none) {slot : Fin MAX_DISK_COUNT} {fs : FAT12FS}
    (hthis : fs.this = (m.volumes slot).fs.this) :
    Balanced (m.setFs slot fs).files (m.setFs slot fs).volumes none :=
  h.update ((h.inodes slot).withFs hthis)

/-- An inode in use is written back to its place. -/
theorem setNode {claims : Nat → Nat} {vol : FatVolume} {place : Nat} {fs : FAT12FS} {changed : Fat12Inode}
    (h : Counts claims vol) (hthis : fs.this = vol.fs.this)
    (hchanged : changed.fat12Fs = (vol.inodepool.inodes place).fat12Fs) :
    Counts claims ({ vol with fs }.setNode (some place) (some changed)) := by
  refine ⟨fun other hother => ?_, h.used, h.counted⟩
  show (Function.update vol.inodepool.inodes place changed other).fat12Fs = fs.this
  rw [hthis]
  by_cases hplace : other = place
  · rw [hplace, Function.update_self, hchanged]
    exact h.own place (hplace ▸ hother)
  · rw [Function.update_of_ne hplace]
    exact h.own other hother

/-- `read` or `write` of a file. -/
theorem transfer (h : Balanced m.files m.volumes none) {fd : Fd n}
    {act : FAT12FS → Option Fat12Inode → Int → SysuOs.Outcome (Int × FAT12FS)}
    (hact : ∀ {fs fs' node offset r}, act fs node offset = .ret (r, fs') → fs'.this = fs.this)
    (hcall : m.transfer fd act = .ret (r, m')) : Balanced m'.files m'.volumes none ∧
      ∀ k, (m'.files.fd_table k).openfile = (m.files.fd_table k).openfile := by
  unfold FileSys.transfer at hcall
  split at hcall
  · cases hcall
    exact ⟨h, fun _ => rfl⟩
  · split at hcall
    · cases hcall
      exact ⟨h, fun _ => rfl⟩
    · split at hcall
      · cases hcall
      · obtain ⟨⟨ret, fs⟩, hdone, hcall⟩ := Outcome.bind_eq_ret hcall
        have hset := h.setFs (hact hdone)
        dsimp only at hcall
        split at hcall
        · cases hcall
          exact ⟨hset.setOffset fd _, fun k => setOffset_openfile _ fd k _⟩
        · cases hcall
          exact ⟨hset, fun _ => rfl⟩

theorem append {fd : Fd n} {buf : Option ByteMap} {size : Int} (h : Balanced m.files m.volumes none)
    (hcall : m.append fd buf size = .ret (r, m')) : Balanced m'.files m'.volumes none ∧
      ∀ k, (m'.files.fd_table k).openfile = (m.files.fd_table k).openfile := by
  unfold FileSys.append at hcall
  split at hcall
  · cases hcall
    exact ⟨h, fun _ => rfl⟩
  · split at hcall
    · cases hcall
      exact ⟨h, fun _ => rfl⟩
    · split at hcall
      · split at hcall
        · cases hcall
          exact ⟨h, fun _ => rfl⟩
        · split at hcall
          · cases hcall
          · rename_i node _
            obtain ⟨⟨ret, changed, fs⟩, hdone, hcall⟩ := Outcome.bind_eq_ret hcall
            obtain ⟨hthis, changed, rfl, hchanged⟩ := append_this hdone
            have hset := h.update (setNode (h.inodes node.fat12_fs) hthis hchanged)
            dsimp only at hcall
            split at hcall
            · cases hcall
              exact ⟨hset.setOffset fd _, fun k => setOffset_openfile _ fd k _⟩
            · cases hcall
              exact ⟨hset, fun _ => rfl⟩
      · cases hcall
        exact ⟨h, fun _ => rfl⟩

theorem fseek {fd : Fd n} {bias whence : Int} (h : Balanced m.files m.volumes none)
    (hcall : m.fseek fd bias whence = .ret (r, m')) : Balanced m'.files m'.volumes none ∧
      ∀ k, (m'.files.fd_table k).openfile = (m.files.fd_table k).openfile := by
  unfold FileSys.fseek at hcall
  split at hcall
  · cases hcall
    exact ⟨h, fun _ => rfl⟩
  · split at hcall
    · cases hcall
      exact ⟨h, fun _ => rfl⟩
    · split at hcall
      · cases hcall
      · dsimp only at hcall
        split at hcall
        · cases hcall
          exact ⟨h, fun _ => rfl⟩
        · split at hcall
          · cases hcall
            exact ⟨h, fun _ => rfl⟩
          · cases hcall
            exact ⟨h.setOffset fd _, fun k => setOffset_openfile _ fd k _⟩

/-- One call on an open file. -/
theorem io (h : Balanced m.files m.volumes none) {c : IoCall n}
    (hcall : m.call fs_table c.fileCall = .ret (r, m')) : Balanced m'.files m'.volumes none ∧
      ∀ k, (m'.files.fd_table k).openfile = (m.files.fd_table k).openfile := by
  cases c with
  | read process fd buf size typed =>
      simp only [IoCall.fileCall, FileSys.call] at hcall
      split at hcall
      · cases hcall
        exact ⟨h, fun _ => rfl⟩
      · unfold FileSys.read at hcall
        split at hcall
        · cases hcall
          exact ⟨h, fun _ => rfl⟩
        · split at hcall
          · cases hcall
            exact ⟨h, fun _ => rfl⟩
          · split at hcall
            · cases hcall
              exact ⟨h, fun _ => rfl⟩
            · refine h.transfer ?_ hcall
              intro fs fs' node offset r hread
              obtain ⟨⟨ret, out, fs₁⟩, hread, hret⟩ := Outcome.bind_eq_ret hread
              cases hret
              exact read_this hread
            · cases hcall
              exact ⟨h, fun _ => rfl⟩
  | write process fd buf size =>
      simp only [IoCall.fileCall, FileSys.call] at hcall
      split at hcall
      · cases hcall
        exact ⟨h, fun _ => rfl⟩
      · unfold FileSys.write at hcall
        split at hcall
        · cases hcall
          exact ⟨h, fun _ => rfl⟩
        · split at hcall
          · cases hcall
            exact ⟨h, fun _ => rfl⟩
          · split at hcall
            · cases hcall
              exact ⟨h, fun _ => rfl⟩
            · cases hcall
              exact ⟨h, fun _ => rfl⟩
            · exact h.transfer write_this hcall
            · cases hcall
              exact ⟨h, fun _ => rfl⟩
  | append process fd buf size =>
      simp only [IoCall.fileCall, FileSys.call] at hcall
      split at hcall
      · cases hcall
        exact ⟨h, fun _ => rfl⟩
      · exact h.append hcall
  | fseek process fd bias whence =>
      simp only [IoCall.fileCall, FileSys.call] at hcall
      split at hcall
      · cases hcall
        exact ⟨h, fun _ => rfl⟩
      · exact h.fseek hcall

end Balanced

namespace Processes

variable {n : Nat} {fs_table : FsTable} {start m : Processes n}

theorem SystemRun.settled (hrun : SystemRun fs_table start m) (hstart : start.Boot) : Settled m := by
  induction hrun with
  | start => exact hstart.settled
  | call _ hmade hcall ih => exact ih.call hmade hcall
  | io _ _ hcall ih =>
      obtain ⟨hbalanced, hopenfile⟩ := ih.balanced.io hcall
      exact ⟨hbalanced, fun process hfree fd => (hopenfile (process, fd)).trans (ih.unused process hfree fd)⟩

/-- Process `process` has entry `i` of the open-file table open. -/
def Opened (m : Processes n) (process : Fin n) (i : Fin MAX_OPENFILE_COUNT) : Prop :=
  ∃ fd, (m.files.fd_table (process, fd)).type = .FILE ∧ (m.files.fd_table (process, fd)).openfile = some i

/-- An entry in use is open in a process that is alive. -/
theorem Settled.opened (h : Settled m) {i : Fin MAX_OPENFILE_COUNT} (hmap : m.files.openfile_map i = true) :
    ∃ process, m.alive process = true ∧ m.Opened process i := by
  have hpos : 0 < m.files.refs i := by
    rw [← h.balanced.refcount]
    exact ((h.balanced.map i).mp hmap).resolve_right (by simp)
  obtain ⟨⟨process, fd⟩, hopen⟩ : ∃ fd, (m.files.fd_table fd).openfile = some i := by
    by_contra hnone
    have hzero := refs_eq_zero fun fd hopen => hnone ⟨fd, hopen⟩
    omega
  refine ⟨process, ?_, fd, h.balanced.file _ _ hopen, hopen⟩
  by_contra halive
  have hunused := h.unused process (by simpa using halive) fd
  rw [hunused] at hopen
  cases hopen

/-- In every run each entry of the open-file table in use is open in a process that is alive, and each inode in
use belongs to such an entry, so that nothing is in use when no process is left. -/
theorem nothing_leaks (hstart : start.Boot) (hrun : SystemRun fs_table start m) :
    (∀ i, m.files.openfile_map i = true → ∃ process, m.alive process = true ∧ m.Opened process i) ∧
      (∀ slot place, (m.volumes slot).inodepool.bitmap place = true → ∃ process i, m.alive process = true ∧
        m.Opened process i ∧ (m.files.openfile_table i).node = some ⟨slot, place⟩) ∧
      ((∀ process, m.alive process = false) → (∀ i, m.files.openfile_map i = false) ∧
        ∀ slot place, (m.volumes slot).inodepool.bitmap place = false) := by
  have h := hrun.settled hstart
  have hinode : ∀ slot place, (m.volumes slot).inodepool.bitmap place = true → ∃ process i,
      m.alive process = true ∧ m.Opened process i ∧ (m.files.openfile_table i).node = some ⟨slot, place⟩ := by
    intro slot place hused
    have hpos := ((h.balanced.inodes slot).used place).mp hused
    rw [holders_eq_card] at hpos
    obtain ⟨i, hi⟩ := Finset.card_pos.mp hpos
    obtain ⟨hmap, hnode⟩ := (Finset.mem_filter.mp hi).2
    obtain ⟨process, halive, hopened⟩ := h.opened hmap
    exact ⟨process, i, halive, hopened, hnode⟩
  refine ⟨fun i hmap => h.opened hmap, hinode, fun hdead => ⟨fun i => ?_, fun slot place => ?_⟩⟩
  · by_contra hmap
    obtain ⟨process, halive, -⟩ := h.opened (by simpa using hmap)
    rw [hdead] at halive
    cases halive
  · by_contra hused
    obtain ⟨process, i, halive, -⟩ := hinode slot place (by simpa using hused)
    rw [hdead] at halive
    cases halive

/-- A process is made and opens a file, and it ends without closing it. -/
theorem nothing_leaks_exit : ∃ m m', SystemRun rootOnly twoSlots m ∧ (∃ i, m.Opened 0 i) ∧
    m.call rootOnly (.exit 0) = .ret m' ∧ ∀ i, m'.files.openfile_map i = false := by
  have hopened : (((twoSlots.call rootOnly (.executeThread 0) >>= fun m =>
      m.call rootOnly (.open 0 ['/', 'a'])).getD twoSlots).file (0, (3 : Fin 64))).type = .FILE ∧
      (((twoSlots.call rootOnly (.executeThread 0) >>= fun m =>
      m.call rootOnly (.open 0 ['/', 'a'])).getD twoSlots).file (0, (3 : Fin 64))).openfile.isSome = true ∧
      ∀ process, ((twoSlots.call rootOnly (.executeThread 0) >>= fun m =>
      m.call rootOnly (.open 0 ['/', 'a'])).getD twoSlots).alive process = decide (process = 0) := by
    decide +kernel
  cases h : twoSlots.call rootOnly (.executeThread 0) >>= fun m => m.call rootOnly (.open 0 ['/', 'a']) with
  | halt =>
      rw [h] at hopened
      cases hopened.1
  | diverge =>
      rw [h] at hopened
      cases hopened.1
  | ret m =>
      rw [h] at hopened
      obtain ⟨htype, hsome, halive⟩ := hopened
      obtain ⟨i, hi⟩ := Option.isSome_iff_exists.mp hsome
      obtain ⟨m₁, hmade, hopen⟩ := Outcome.bind_eq_ret h
      have halive₁ : m₁.alive 0 = true := by
        obtain rfl := Outcome.ret.inj hmade
        rfl
      have hrun : SystemRun rootOnly twoSlots m :=
        .call (.call .start (show ProcessCall.Made twoSlots (.executeThread 0) from rfl) hmade)
          (show ProcessCall.Made m₁ (.open 0 ['/', 'a']) from halive₁) hopen
      obtain ⟨m', hexit⟩ : ∃ m', m.call rootOnly (.exit 0) = .ret m' := ⟨_, rfl⟩
      have halive' : ∀ process, m'.alive process = false := by
        obtain rfl := Outcome.ret.inj hexit
        intro process
        show Function.update m.alive 0 false process = false
        by_cases hprocess : process = 0
        · rw [hprocess, Function.update_self]
        · rw [Function.update_of_ne hprocess]
          exact (halive process).trans (decide_eq_false hprocess)
      have hrun' : SystemRun rootOnly twoSlots m' :=
        .call hrun (show ProcessCall.Made m (.exit 0) from (halive 0).trans (by decide)) hexit
      exact ⟨m, m', hrun, ⟨i, (3 : Fin 64), htype, hi⟩, hexit,
        ((nothing_leaks boot_twoSlots hrun').2.2 halive').1⟩

end Processes

end SysuOs.Vfs
