import SysuOs.ScreenRun
import SysuOs.VfsStoreRun

/-! The commands that copy between files and the screen, run beside other processes: between two of their
calls the others make any calls that leave the file of the command alone. -/

namespace SysuOs.Vfs

open FileStore

/-- The process that makes a call, and of a fork the new one. -/
def FileCall.process {n : Nat} : FileCall n → Fin n
  | .open process .. | .close process _ | .read process .. | .write process .. | .append process ..
  | .fseek process .. =>
    process
  | .fork child _ => child

namespace FileSys

variable {n : Nat} (m : FileSys n)

/-- What a call prints. -/
def printed : FileCall n → List Byte
  | .write process fd (some buf) size =>
    match fdOf fd.toInt with
    | none => []
    | some fd =>
      match (m.file (process, fd)).type with
      | .STDOUT | .STDERR => tabulate size.toInt.toNat buf
      | _ => []
  | _ => []

/-- A call that writes to the file. -/
def Changes (f : Inode) : FileCall n → Prop
  | .write process fd .. | .append process fd .. =>
    ∃ k, fdOf fd.toInt = some k ∧ m.key (process, k) = some f
  | _ => False

/-- A call that appends to a file that fills its last cluster. -/
def Overfills : FileCall n → Prop
  | .append process fd (some _) size =>
    ∃ k node, fdOf fd.toInt = some k ∧ m.key (process, k) = some node ∧ 2 < k.val ∧ 0 < size.toInt ∧
      (m.inode node).size ≠ 0 ∧ (m.inode node).size % m.unit node = 0
  | _ => False

/-- A call of another process on open files that leaves the bytes of the file as they are. -/
structure Spares (process : Fin n) (f : Inode) (c : FileCall n) : Prop where
  notOpen : ∀ process cwd path, c ≠ .open process cwd path
  other : c.process ≠ process
  keeps : ¬m.Changes f c
  fits : ¬m.Overfills c

variable {m} {m' : FileSys n}

/-! ### The descriptors of the others -/

/-- At most the offset of one descriptor of the process is another one. -/
def Moves (process : Fin n) (m m' : FileSys n) : Prop :=
  m'.files = m.files ∨ ∃ k pos, m'.files = m.files.setOffset (process, k) pos

theorem Moves.others {process : Fin n} (h : Moves process m m') : Files.Others process m.files m'.files := by
  rcases h with h | ⟨k, pos, h⟩
  · exact .of_eq (congrArg Files.fd_table h)
  · exact .of_update (congrArg Files.fd_table h)

theorem Moves.type {process : Fin n} (h : Moves process m m') (fd : Fd n) :
    (m'.file fd).type = (m.file fd).type := by
  unfold file
  rcases h with h | ⟨k, pos, h⟩
  · rw [h]
  · rw [h]
    exact (setOffset_openfile m m.volumes (process, k) pos fd).2

theorem transfer_moves {process : Fin n} {k : Fin MAX_FD_COUNT} {r : Int}
    {act : FAT12FS → Option Fat12Inode → Int → SysuOs.Outcome (Int × FAT12FS)}
    (h : m.transfer (process, k) act = .ret (r, m')) : Moves process m m' := by
  unfold transfer at h
  cases hopen : (m.file (process, k)).openfile with
  | none =>
      rw [hopen] at h
      cases h
      exact Or.inl rfl
  | some i =>
      rw [hopen] at h
      dsimp only at h
      cases htype : (m.files.openfile_table i).type with
      | NONE =>
          rw [htype] at h
          cases h
          exact Or.inl rfl
      | FXT12 =>
          rw [htype] at h
          dsimp only at h
          cases hnode : (m.files.openfile_table i).node with
          | none =>
              rw [hnode] at h
              cases h
          | some node =>
              rw [hnode] at h
              obtain ⟨⟨ret, fs'⟩, hact, h⟩ := Outcome.bind_eq_ret h
              cases h
              split
              · exact Or.inr ⟨k, _, rfl⟩
              · exact Or.inl rfl

theorem read_moves {process : Fin n} {k : Fin MAX_FD_COUNT} {buf : Option ByteMap} {size typed r : Int}
    (h : m.read (process, k) buf size typed = .ret (r, m')) : Moves process m m' := by
  cases buf with
  | none =>
      cases h
      exact Or.inl rfl
  | some out =>
      simp only [read] at h
      split at h
      · cases h
        exact Or.inl rfl
      · split at h
        · cases h
          exact Or.inl rfl
        · exact transfer_moves h
        · cases h
          exact Or.inl rfl

theorem write_moves {process : Fin n} {k : Fin MAX_FD_COUNT} {buf : Option ByteMap} {size r : Int}
    (h : m.write (process, k) buf size = .ret (r, m')) : Moves process m m' := by
  cases buf with
  | none =>
      cases h
      exact Or.inl rfl
  | some src =>
      simp only [write] at h
      split at h
      · cases h
        exact Or.inl rfl
      · split at h
        · cases h
          exact Or.inl rfl
        · cases h
          exact Or.inl rfl
        · exact transfer_moves h
        · cases h
          exact Or.inl rfl

theorem append_moves {process : Fin n} {k : Fin MAX_FD_COUNT} {buf : Option ByteMap} {size r : Int}
    (h : m.append (process, k) buf size = .ret (r, m')) : Moves process m m' := by
  cases buf with
  | none =>
      cases h
      exact Or.inl rfl
  | some src =>
      simp only [append] at h
      split at h
      · cases h
        exact Or.inl rfl
      · split at h
        · split at h
          · cases h
            exact Or.inl rfl
          · split at h
            · cases h
            · obtain ⟨⟨ret, changed, fs'⟩, hact, h⟩ := Outcome.bind_eq_ret h
              cases h
              split
              · exact Or.inr ⟨k, _, rfl⟩
              · exact Or.inl rfl
        · cases h
          exact Or.inl rfl

theorem fseek_moves {process : Fin n} {k : Fin MAX_FD_COUNT} {bias whence r : Int}
    (h : m.fseek (process, k) bias whence = .ret (r, m')) : Moves process m m' := by
  simp only [fseek] at h
  split at h
  · cases h
    exact Or.inl rfl
  · split at h
    · cases h
      exact Or.inl rfl
    · split at h
      · cases h
      · split at h
        · cases h
          exact Or.inl rfl
        · split at h
          · cases h
            exact Or.inl rfl
          · cases h
            exact Or.inr ⟨k, _, rfl⟩

theorem close_others (process : Fin n) (k : Fin MAX_FD_COUNT) :
    Files.Others process m.files (m.close (process, k)).2.files := by
  unfold FileSys.close
  split
  · have hcleared : Files.Others process m.files (m.files.setFile (process, k)
        { m.file (process, k) with openfile := none, offset := 0, type := .EMPTY }) := .of_update rfl
    dsimp only
    split <;> exact hcleared.trans (.of_eq rfl)
  · exact .of_eq rfl

/-- A call leaves the descriptors of the processes that do not make it. -/
theorem call_others {fs_table : FsTable} {c : FileCall n} {r : Int}
    (hc : ∀ process cwd path, c ≠ .open process cwd path) (h : m.call fs_table c = .ret (r, m')) :
    Files.Others c.process m.files m'.files := by
  cases c with
  | «open» process cwd path => exact absurd rfl (hc process cwd path)
  | fork child parent =>
      cases h
      intro other hother fd
      rw [(forkProcessFs_spec m.files child parent).1]
      exact congrArg m.files.fd_table (if_neg hother)
  | close process fd =>
      simp only [call] at h
      split at h
      · cases h
        exact .of_eq rfl
      · rename_i k _
        obtain rfl : (m.close (process, k)).2 = m' := congrArg Prod.snd (Outcome.ret.inj h)
        exact close_others process k
  | read process fd buf size typed =>
      simp only [call] at h
      split at h
      · cases h
        exact .of_eq rfl
      · exact (read_moves h).others
  | write process fd buf size =>
      simp only [call] at h
      split at h
      · cases h
        exact .of_eq rfl
      · exact (write_moves h).others
  | append process fd buf size =>
      simp only [call] at h
      split at h
      · cases h
        exact .of_eq rfl
      · exact (append_moves h).others
  | fseek process fd bias whence =>
      simp only [call] at h
      split at h
      · cases h
        exact .of_eq rfl
      · exact (fseek_moves h).others

end FileSys

/-- The files and the screen. -/
structure Machine (n : Nat) where
  files : FileSys n
  display : SCREEN

namespace Machine

variable {n : Nat} (fs_table : FsTable)

def call (w : Machine n) (c : FileCall n) : SysuOs.Outcome (Int × Option ByteMap × Machine n) := do
  let (ret, bytes, files) ← w.files.callInto fs_table c
  return (ret, bytes, ⟨files, (w.files.printed c).foldl SCREEN.print w.display⟩)

def calls (w : Machine n) : List (FileCall n) → SysuOs.Outcome (Machine n)
  | [] => return w
  | c :: cs => do
    let (_, _, w) ← w.call fs_table c
    w.calls cs

/-- What the other processes call, turn by turn. -/
abbrev Others (n : Nat) := Nat → Machine n → List (FileCall n)

/-- The loop of `cat` over a file: it reads into `buf` and writes what it has read to the standard output. The
descriptor has a file, so that nothing is typed. -/
def catLoop (process : Fin n) (fd : Int32) (others : Others n) :
    Nat → Nat → Machine n → ByteMap → SysuOs.Outcome (Int × Machine n)
  | 0, _, _, _ => .diverge
  | fuel + 1, turn, w, buf => do
    let w ← w.calls fs_table (others turn w)
    let (r, bytes, w) ← w.call fs_table (.read process fd (some buf) 256 0)
    if r > 0 then
      let buf := bytes.getD buf
      let w ← w.calls fs_table (others (turn + 1) w)
      let (_, _, w) ← w.call fs_table (.write process 1 (some buf) (Int32.ofInt r))
      catLoop process fd others fuel (turn + 2) w buf
    else return (r, w)

/-- Calls, one after the other, that all spare the file. -/
def Calm (process : Fin n) (f : Inode) : Machine n → List (FileCall n) → Prop
  | _, [] => True
  | w, c :: cs =>
    w.files.Spares process f c ∧ ∀ r bytes w', w.call fs_table c = .ret (r, bytes, w') → Calm process f w' cs

end Machine

/-! ### What the others leave -/

namespace Bytes

variable {n : Nat} {s s' : Bytes n} {process : Fin n} {f : Inode}

theorem opened_eq {fd : Int32} {d : Fd n} (h : s.opened process fd = some (d, f)) :
    fdOf fd.toInt = some d.2 ∧ d = (process, d.2) ∧ s.target d = some f := by
  unfold opened at h
  cases hfd : fdOf fd.toInt with
  | none =>
      rw [hfd] at h
      cases h
  | some k =>
      rw [hfd] at h
      obtain ⟨f', hf, hpair⟩ := Option.map_eq_some_iff.mp h
      obtain ⟨rfl, rfl⟩ := Prod.mk.inj hpair
      exact ⟨rfl, rfl, hf⟩

theorem opened_of_target {s : Bytes n} (h : ∀ k, s'.target (process, k) = s.target (process, k)) (fd : Int32) :
    s'.opened process fd = s.opened process fd := by
  unfold opened
  split
  · rfl
  · rw [h]

/-- A descriptor of another process is not the one of the call. -/
theorem opened_ne {other : Fin n} {fd : Int32} {d : Fd n} (h : s.opened other fd = some (d, f))
    (hother : other ≠ process) (k : Fin MAX_FD_COUNT) : (process, k) ≠ d := by
  rw [(opened_eq h).2.1]
  exact fun heq => hother (congrArg Prod.fst heq).symm

/-- A call leaves the descriptors of the processes that do not make it. -/
theorem Does.others {full : Inode → Prop} {c : FileCall n} {r : Int} {bytes : Option ByteMap}
    (h : s.Does full c r bytes s') (hother : c.process ≠ process) (k : Fin MAX_FD_COUNT) :
    s'.target (process, k) = s.target (process, k) ∧ s'.offset (process, k) = s.offset (process, k) := by
  cases h with
  | read hopen _ _ => exact ⟨rfl, Function.update_of_ne (opened_ne hopen hother k) _ _⟩
  | write hopen _ _ => exact ⟨rfl, Function.update_of_ne (opened_ne hopen hother k) _ _⟩
  | append hopen _ _ _ _ => exact ⟨rfl, Function.update_of_ne (opened_ne hopen hother k) _ _⟩
  | noRoom _ _ _ => exact ⟨rfl, rfl⟩
  | fseek hopen _ _ _ => exact ⟨rfl, Function.update_of_ne (opened_ne hopen hother k) _ _⟩
  | close hopen => exact ⟨Function.update_of_ne (opened_ne hopen hother k) _ _, rfl⟩
  | fork => exact ⟨congrArg s.target (if_neg hother.symm), congrArg s.offset (if_neg hother.symm)⟩
  | refused _ _ => exact ⟨rfl, rfl⟩
  | unopened _ _ => exact ⟨rfl, rfl⟩

/-- A call that does not write to a file leaves its bytes. -/
theorem Does.content {m : FileSys n} {full : Inode → Prop} {c : FileCall n} {r : Int} {bytes : Option ByteMap}
    (h : s.Does full c r bytes s') (htarget : s.target = m.key) (hkeeps : ¬m.Changes f c) :
    s'.content f = s.content f := by
  have hne : ∀ {other : Fin n} {fd : Int32} {d : Fd n} {f' : Inode}, s.opened other fd = some (d, f') →
      (∀ k, fdOf fd.toInt = some k → m.key (other, k) ≠ some f) → f ≠ f' := by
    rintro other fd d f' hopen hkey rfl
    obtain ⟨hfd, hd, hf⟩ := opened_eq hopen
    rw [htarget, hd] at hf
    exact hkey d.2 hfd hf
  cases h with
  | write hopen _ _ =>
      exact Function.update_of_ne (hne hopen fun k hk hf => hkeeps ⟨k, hk, hf⟩) _ _
  | append hopen _ _ _ _ =>
      exact Function.update_of_ne (hne hopen fun k hk hf => hkeeps ⟨k, hk, hf⟩) _ _
  | _ => rfl

end Bytes

namespace FileSys

variable {n : Nat} {m : FileSys n} {s : Bytes n} {chain : Inode → List Nat} {process : Fin n} {f : Inode}
  {c : FileCall n}

theorem Spares.not_overruns (h : m.Spares process f c) (hholds : Holds m s chain) : ¬s.Overruns m.unit c := by
  cases c with
  | append other fd buf size =>
      rintro ⟨d, node, hopen, ⟨hd, hbuf, hsize⟩, hne, hfull⟩
      obtain ⟨src, rfl⟩ := Option.isSome_iff_exists.mp hbuf
      obtain ⟨i, hrefers⟩ := hholds.refers hopen
      obtain ⟨-, -, -, hlen⟩ := hholds.inside hrefers
      have hkey := hrefers.key
      rw [hrefers.process] at hkey
      rw [hlen] at hfull
      refine h.fits ⟨d.2, node, hrefers.fdOf, hkey, hd, hsize, fun hzero => hne ?_, hfull⟩
      exact List.length_eq_zero_iff.mp (hlen.trans hzero)
  | _ => exact id

end FileSys

/-- The descriptors of the process and the bytes of the file are the same. -/
structure Undisturbed {n : Nat} (process : Fin n) (f : Inode) (w : Machine n) (s : Bytes n) (w' : Machine n)
    (s' : Bytes n) : Prop where
  content : s'.content f = s.content f
  target : ∀ k, s'.target (process, k) = s.target (process, k)
  offset : ∀ k, s'.offset (process, k) = s.offset (process, k)
  file : ∀ k, w'.files.file (process, k) = w.files.file (process, k)

theorem Undisturbed.refl {n : Nat} (process : Fin n) (f : Inode) (w : Machine n) (s : Bytes n) :
    Undisturbed process f w s w s := ⟨rfl, fun _ => rfl, fun _ => rfl, fun _ => rfl⟩

theorem Undisturbed.trans {n : Nat} {process : Fin n} {f : Inode} {w w' w'' : Machine n} {s s' s'' : Bytes n}
    (h : Undisturbed process f w s w' s') (h' : Undisturbed process f w' s' w'' s'') :
    Undisturbed process f w s w'' s'' :=
  ⟨h'.content.trans h.content, fun k => (h'.target k).trans (h.target k),
    fun k => (h'.offset k).trans (h.offset k), fun k => (h'.file k).trans (h.file k)⟩

namespace Machine

variable {n : Nat} {fs_table : FsTable} {w w' w'' : Machine n} {s : Bytes n} {chain : Inode → List Nat}
  {process : Fin n} {f : Inode}

/-- The bytes that processes have printed since. -/
def Shows (w : Machine n) (log : List (Fin n × Byte)) (w' : Machine n) : Prop :=
  w'.display = (log.map Prod.snd).foldl SCREEN.print w.display

theorem Shows.trans {log log' : List (Fin n × Byte)} (h : w.Shows log w') (h' : w'.Shows log' w'') :
    w.Shows (log ++ log') w'' := by
  unfold Shows at *
  rw [h', h, List.map_append, List.foldl_append]

theorem shows_own (w : Machine n) (files : FileSys n) (process : Fin n) (bytes : List Byte) :
    w.Shows (bytes.map fun b => (process, b)) ⟨files, bytes.foldl SCREEN.print w.display⟩ := by
  unfold Shows
  rw [List.map_map]
  exact congrArg (List.foldl SCREEN.print w.display) (List.map_id _).symm

theorem call_spec (h : w.files.Holds s chain) (fs_table : FsTable) {c : FileCall n}
    (hc : ∀ process cwd path, c ≠ .open process cwd path) (hfits : ¬s.Overruns w.files.unit c) :
    ∃ r bytes w' s' chain', w.call fs_table c = .ret (r, bytes, w') ∧ s.Does w'.files.Full c r bytes s' ∧
      w'.files.Holds s' chain' ∧ Files.Others c.process w.files.files w'.files.files ∧
      w.Shows ((w.files.printed c).map fun b => (c.process, b)) w' := by
  obtain ⟨r, bytes, m', s', chain', hinto, hdoes, hholds⟩ := h.step fs_table hc hfits
  refine ⟨r, bytes, ⟨m', (w.files.printed c).foldl SCREEN.print w.display⟩, s', chain', ?_, hdoes, hholds,
    FileSys.call_others hc (w.files.callInto_call hinto), shows_own w m' c.process _⟩
  rw [call, hinto]
  rfl

/-- The others make their calls, print what they print, and the process finds its descriptors and the bytes of
the file as it has left them. -/
theorem calls_calm (h : w.files.Holds s chain) {cs : List (FileCall n)} (hcalm : Calm fs_table process f w cs) :
    ∃ w' s' chain' log, w.calls fs_table cs = .ret w' ∧ w'.files.Holds s' chain' ∧
      Undisturbed process f w s w' s' ∧ w.Shows log w' ∧ ∀ e ∈ log, e.1 ≠ process := by
  induction cs generalizing w s chain with
  | nil => exact ⟨w, s, chain, [], rfl, h, .refl process f w s, rfl, by simp⟩
  | cons c cs ih =>
      obtain ⟨hspares, hlater⟩ := hcalm
      obtain ⟨r, bytes, w₁, s₁, chain₁, hcall, hdoes, hholds, hothers, hshows⟩ :=
        call_spec h fs_table hspares.notOpen (hspares.not_overruns h)
      obtain ⟨w', s', chain', log, hcalls, hholds', hkept, hshows', hlog⟩ := ih hholds (hlater r bytes w₁ hcall)
      have hfirst : Undisturbed process f w s w₁ s₁ :=
        ⟨hdoes.content h.target hspares.keeps, fun k => (hdoes.others hspares.other k).1,
          fun k => (hdoes.others hspares.other k).2, fun k => hothers process hspares.other.symm k⟩
      refine ⟨w', s', chain', _, ?_, hholds', hfirst.trans hkept, hshows.trans hshows', ?_⟩
      · rw [calls, hcall]
        exact hcalls
      · intro e he
        rcases List.mem_append.mp he with he | he
        · obtain ⟨b, -, rfl⟩ := List.mem_map.mp he
          exact hspares.other
        · exact hlog e he

/-! ### `cat` -/

theorem fdOf_stdout : fdOf (1 : Int32).toInt = some stdout := by decide

/-- `read` of up to 256 bytes. -/
theorem read_spec (h : w.files.Holds s chain) (fs_table : FsTable) {fd : Int32} {d : Fd n}
    (hopen : s.opened process fd = some (d, f)) (buf : ByteMap) :
    ∃ bytes w', w.call fs_table (.read process fd (some buf) 256 0) =
        .ret ((s.read d f 256).length, some bytes, w') ∧
      tabulate (s.read d f 256).length bytes = s.read d f 256 ∧
      w'.files.Holds (s.seek d (s.offset d + (s.read d f 256).length)) chain ∧ w'.display = w.display ∧
      ∀ k, (w'.files.file k).type = (w.files.file k).type := by
  have hpos : 0 < (256 : Int32).toInt := by decide
  obtain ⟨r, bytes, m', s', hinto, hdoes, hholds⟩ := h.read fs_table buf 0 hopen hpos
  have hmoves : FileSys.Moves process w.files m' := by
    have hcall := w.files.callInto_call hinto
    simp only [FileSys.call, (Bytes.opened_eq hopen).1] at hcall
    exact FileSys.read_moves hcall
  cases hdoes with
  | read hopen' _ hbytes =>
      rw [hopen] at hopen'
      obtain ⟨rfl, rfl⟩ := Prod.mk.inj (Option.some.inj hopen')
      refine ⟨_, ⟨m', w.display⟩, ?_, hbytes, hholds, rfl, hmoves.type⟩
      rw [call, hinto]
      rfl
  | refused hopen' hnot =>
      exact absurd ⟨rfl, hpos⟩ hnot
  | unopened _ hnone =>
      exact absurd (hopen.symm.trans hnone) (by simp)

/-- `write` to the standard output prints. -/
theorem write_stdout (fs_table : FsTable) (hout : (w.files.file (process, stdout)).type = .STDOUT)
    (buf : ByteMap) {k : Nat} (hpos : 0 < k) (hmax : k ≤ 256) :
    w.call fs_table (.write process 1 (some buf) (Int32.ofInt k)) =
      .ret (k, none, ⟨w.files, (tabulate k buf).foldl SCREEN.print w.display⟩) := by
  have hsize : (Int32.ofInt k).toInt = k := by
    rw [Int32.toInt_ofInt_of_le] <;> omega
  have hinto : w.files.callInto fs_table (.write process 1 (some buf) (Int32.ofInt k)) =
      .ret (k, none, w.files) := by
    simp only [FileSys.callInto, FileSys.call, fdOf_stdout, FileSys.write, hout, hsize]
    rw [if_neg (by omega)]
    rfl
  have hprinted : w.files.printed (.write process 1 (some buf) (Int32.ofInt k)) = tabulate k buf := by
    simp only [FileSys.printed, fdOf_stdout, hout, hsize, Int.toNat_natCast]
  rw [call, hinto, hprinted]
  rfl

/-- What one process has printed. -/
def printedBy (process : Fin n) (log : List (Fin n × Byte)) : List Byte :=
  (log.filter fun e => e.1 = process).map Prod.snd

theorem printedBy_append (log log' : List (Fin n × Byte)) :
    printedBy process (log ++ log') = printedBy process log ++ printedBy process log' := by
  unfold printedBy
  rw [List.filter_append, List.map_append]

theorem printedBy_others {log : List (Fin n × Byte)} (h : ∀ e ∈ log, e.1 ≠ process) :
    printedBy process log = [] := by
  unfold printedBy
  rw [List.filter_eq_nil_iff.mpr fun e he => by simpa using h e he]
  rfl

theorem printedBy_own (bytes : List Byte) : printedBy process (bytes.map fun b => (process, b)) = bytes := by
  unfold printedBy
  rw [List.filter_eq_self.mpr (by simp), List.map_map]
  exact List.map_id _

/-- The descriptor of the loop has the file open, and descriptor 1 is the standard output. -/
structure Ready (process : Fin n) (fd : Int32) (d : Fd n) (f : Inode) (w : Machine n) (s : Bytes n)
    (chain : Inode → List Nat) : Prop where
  holds : w.files.Holds s chain
  opened : s.opened process fd = some (d, f)
  output : (w.files.file (process, stdout)).type = .STDOUT

variable {fd : Int32} {d : Fd n}

/-- The loop goes on after the calls of the others where it was. -/
theorem Ready.calls (h : Ready process fd d f w s chain) {cs : List (FileCall n)}
    (hcalm : Calm fs_table process f w cs) :
    ∃ w' s' chain' log, w.calls fs_table cs = .ret w' ∧ Ready process fd d f w' s' chain' ∧
      s'.content f = s.content f ∧ s'.offset d = s.offset d ∧ w.Shows log w' ∧ printedBy process log = [] := by
  obtain ⟨w', s', chain', log, hcalls, hholds, hkept, hshows, hlog⟩ := calls_calm h.holds hcalm
  obtain ⟨-, hd, -⟩ := Bytes.opened_eq h.opened
  have hoffset : s'.offset d = s.offset d := by
    rw [hd]
    exact hkept.offset d.2
  exact ⟨w', s', chain', log, hcalls,
    ⟨hholds, (Bytes.opened_of_target hkept.target fd).trans h.opened, by rw [hkept.file, h.output]⟩,
    hkept.content, hoffset, hshows, printedBy_others hlog⟩

/-- `read` takes up to 256 of the bytes that are left. -/
theorem Ready.read (h : Ready process fd d f w s chain) (fs_table : FsTable) (buf : ByteMap) {k : Nat}
    (hk : (((s.content f).drop (s.offset d)).take 256).length = k) :
    ∃ bytes w', w.call fs_table (.read process fd (some buf) 256 0) = .ret (k, some bytes, w') ∧
      tabulate k bytes = ((s.content f).drop (s.offset d)).take 256 ∧
      Ready process fd d f w' (s.seek d (s.offset d + k)) chain ∧ w'.display = w.display := by
  obtain ⟨bytes, w', hread, hbytes, hholds, hdisplay, htype⟩ := read_spec h.holds fs_table h.opened buf
  have hpiece : s.read d f 256 = ((s.content f).drop (s.offset d)).take 256 := rfl
  rw [hpiece, hk] at hread hbytes hholds
  exact ⟨bytes, w', hread, hbytes, ⟨hholds, h.opened, (htype _).trans h.output⟩, hdisplay⟩

/-- `cat` prints the bytes of the file from its descriptor on, whatever calls the others make in between that
leave the file alone, and ends at the end of the file. -/
theorem catLoop_prints (h : w.files.Holds s chain) {fd : Int32} {d : Fd n}
    (hopen : s.opened process fd = some (d, f)) (hout : (w.files.file (process, stdout)).type = .STDOUT)
    {others : Others n} (hothers : ∀ turn w, Calm fs_table process f w (others turn w)) {fuel : Nat}
    (hfuel : ((s.content f).length - s.offset d + 255) / 256 < fuel) (turn : Nat) (buf : ByteMap) :
    ∃ w' s' chain' log, catLoop fs_table process fd others fuel turn w buf = .ret (0, w') ∧
      w'.files.Holds s' chain' ∧ s'.content f = s.content f ∧ w.Shows log w' ∧
      printedBy process log = (s.content f).drop (s.offset d) := by
  have hready : Ready process fd d f w s chain := ⟨h, hopen, hout⟩
  clear h hopen hout
  induction fuel generalizing w s chain turn buf with
  | zero => omega
  | succ fuel ih =>
      obtain ⟨w₁, s₁, chain₁, log₁, hcalls₁, hready₁, hcontent₁, hoffset₁, hshows₁, hlog₁⟩ :=
        hready.calls (hothers turn w)
      have hlen : (((s₁.content f).drop (s₁.offset d)).take 256).length =
          min 256 ((s.content f).length - s.offset d) := by
        rw [List.length_take, List.length_drop, hcontent₁, hoffset₁]
      generalize hk : (((s₁.content f).drop (s₁.offset d)).take 256).length = k at hlen
      obtain ⟨bytes, w₂, hread, hbytes, hready₂, hdisplay₂⟩ := hready₁.read fs_table buf hk
      have hfirst : w.Shows log₁ w₂ := hdisplay₂.trans hshows₁
      rw [hcontent₁, hoffset₁] at hbytes
      by_cases hend : k = 0
      · have hnil : (s.content f).drop (s.offset d) = [] := by
          apply List.drop_eq_nil_of_le
          omega
        refine ⟨w₂, _, chain₁, log₁, ?_, hready₂.holds, hcontent₁, hfirst, hlog₁.trans hnil.symm⟩
        rw [catLoop, hcalls₁, Outcome.ret_bind, hread, Outcome.ret_bind]
        dsimp only
        rw [if_neg (by omega), hend]
        rfl
      · obtain ⟨w₃, s₃, chain₃, log₃, hcalls₃, hready₃, hcontent₃, hoffset₃, hshows₃, hlog₃⟩ :=
          hready₂.calls (hothers (turn + 1) w₂)
        have hwrite := write_stdout fs_table hready₃.output bytes (by omega : 0 < k) (by omega)
        have hcontent : s₃.content f = s.content f := hcontent₃.trans hcontent₁
        have hoffset : s₃.offset d = s.offset d + k :=
          hoffset₃.trans ((Function.update_self d _ _).trans (congrArg (· + k) hoffset₁))
        have hprint := shows_own w₃ w₃.files process (tabulate k bytes)
        generalize hw : (⟨w₃.files, (tabulate k bytes).foldl SCREEN.print w₃.display⟩ : Machine n) = w₄ at *
        have hready₄ : Ready process fd d f w₄ s₃ chain₃ := by
          subst hw
          exact ⟨hready₃.holds, hready₃.opened, hready₃.output⟩
        obtain ⟨w', s', chain', log, hloop, hholds, hcontent', hshows, hlog⟩ :=
          ih (by rw [hcontent, hoffset]; omega) (turn + 2) bytes hready₄
        refine ⟨w', s', chain', _, ?_, hholds, hcontent'.trans hcontent,
          hfirst.trans (hshows₃.trans (hprint.trans hshows)), ?_⟩
        · rw [catLoop, hcalls₁, Outcome.ret_bind, hread, Outcome.ret_bind]
          dsimp only
          rw [if_pos (by omega), Option.getD_some, hcalls₃, Outcome.ret_bind, hwrite, Outcome.ret_bind]
          exact hloop
        · rw [printedBy_append, printedBy_append, printedBy_append, hlog₁, hlog₃, printedBy_own, hlog, hbytes,
            hcontent, hoffset, List.nil_append, List.nil_append, ← List.drop_drop]
          have htake : ((s.content f).drop (s.offset d)).take 256 =
              ((s.content f).drop (s.offset d)).take k := by
            rw [List.take_eq_take_iff, List.length_drop]
            omega
          rw [htake, List.take_append_drop]

/-! ### A file of 100 bytes, read from offset 60 on -/

theorem oneOpen_catOpened : (oneOpenBytes 1).opened 0 3 = some (thirdFd 1, ⟨0, 0⟩) := by
  have hfd : fdOf (3 : Int32).toInt = some (thirdFd 1).2 := by decide
  unfold Bytes.opened
  rw [hfd]
  exact congrArg (Option.map _) ((oneOpen_key (thirdFd 1)).trans (if_pos rfl))

/-- The calls of another process. -/
def idleCalls : List (FileCall 2) := [.fseek 1 3 0 0, .close 1 5]

theorem idleCalls_calm (w : Machine 2) : Calm rootOnly 0 ⟨0, 0⟩ w idleCalls :=
  ⟨⟨by simp, by decide, id, id⟩, fun _ _ _ _ => ⟨⟨by simp, by decide, id, id⟩, fun _ _ _ _ => trivial⟩⟩

theorem catLoop_prints_oneOpen : ∃ w' s' chain' log,
    catLoop rootOnly 0 3 (fun _ _ => idleCalls) 2 0 ⟨oneOpen 1, SCREEN.cleared⟩ (fun _ => 0) = .ret (0, w') ∧
      w'.files.Holds s' chain' ∧ s'.content ⟨0, 0⟩ = (oneOpenBytes 1).content ⟨0, 0⟩ ∧
      Shows ⟨oneOpen 1, SCREEN.cleared⟩ log w' ∧
      printedBy 0 log = ((oneOpenBytes 1).content ⟨0, 0⟩).drop 60 :=
  have hlen : ((oneOpenBytes 1).content ⟨0, 0⟩).length = 100 := length_tabulate 100 _
  catLoop_prints oneOpen_holds oneOpen_catOpened rfl (fun _ w => idleCalls_calm w)
    (by rw [hlen]; decide) 0 fun _ => 0

end Machine

end SysuOs.Vfs
