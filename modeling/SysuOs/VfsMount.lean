import SysuOs.VfsPath

/-! Mounting and unmounting. A volume object is an address in `fileSystems`; `mount` builds it at its slot's
address, while `umount` looks for it one page, not one slot, further for each slot. So the two agree only as
long as no mounted disk is unmounted. -/

namespace SysuOs.Vfs

/-- The code of a volume, run on the object at an address: what it leaves of the memory and the disks. -/
structure Fat12 (μ : Type) where
  memset : Nat → Nat → μ → μ
  mount : Nat → IdeDrive → μ → Bool × μ
  umount : Nat → μ → Bool × μ

structure FileManager (μ : Type) where
  fs_table : FsTable
  total_mount_disk : Nat
  fileSystems : μ

/-- What a call returns, and the object it ran a method of `FAT12_FS` on. -/
structure Outcome where
  ret : Int
  this : Option Nat
  deriving DecidableEq, Repr

def fat12FromSlot (slot : Nat) : Nat := slot * MAX_FILESYS_SIZE

variable {μ : Type} (fat : Fat12 μ)

namespace FileManager

/-- `initialize(disk, FXT12)`. -/
def start (disk : IdeDrive) (memory : μ) : FileManager μ where
  fs_table := fun i => if i = 0 then ⟨['/'], .FXT12, disk, true⟩ else .zero
  total_mount_disk := 1
  fileSystems := (fat.mount (fat12FromSlot 0) disk memory).2

/-- `mount`; nothing when `strcpy` runs over the end of `disk_name`. -/
def mount (m : FileManager μ) (disk_name : List Char) (disk : IdeDrive) (fs_t : FsType) :
    Option (Outcome × FileManager μ) :=
  if h : m.total_mount_disk < MAX_DISK_COUNT then
    if MAX_DISK_NAME ≤ disk_name.length then none
    else
      let slot : Fin MAX_DISK_COUNT := ⟨m.total_mount_disk, h⟩
      let cleared := fat.memset (fat12FromSlot slot) MAX_FILESYS_SIZE m.fileSystems
      match fs_t with
      | .FXT12 =>
        let (res, memory) := fat.mount (fat12FromSlot slot) disk cleared
        some (⟨if res then 0 else -1, some (fat12FromSlot slot)⟩,
          { fs_table := Function.update m.fs_table slot ⟨disk_name, fs_t, disk, res⟩
            total_mount_disk := if res then m.total_mount_disk + 1 else m.total_mount_disk
            fileSystems := memory })
      | .NONE =>
        some (⟨-1, none⟩,
          { m with
            fs_table := Function.update m.fs_table slot ⟨disk_name, fs_t, disk, false⟩
            fileSystems := cleared })
  else some (⟨-1, none⟩, m)

/-- `umount`: the first slot of that name decides. -/
def umount (m : FileManager μ) (disk_name : List Char) : Outcome × FileManager μ :=
  match mountSlots.find? fun i => (m.fs_table i).disk_name = disk_name with
  | none => (⟨1, none⟩, m)
  | some i =>
    if (m.fs_table i).inuse = false then (⟨-1, none⟩, m)
    else
      match (m.fs_table i).type with
      | .FXT12 =>
        -- a page for each slot, where `mount` has `MAX_FILESYS_SIZE`
        let (res, memory) := fat.umount (i * PAGE_SIZE) m.fileSystems
        (⟨if res then 0 else -2, some (i * PAGE_SIZE)⟩, { m with fileSystems := memory })
      | .NONE => (⟨-3, none⟩, m)

end FileManager

inductive Call where
  | mount (disk_name : List Char) (disk : IdeDrive) (fs_t : FsType)
  | umount (disk_name : List Char)
  deriving DecidableEq, Repr

structure Entry where
  call : Call
  outcome : Outcome

def step (m : FileManager μ) : Call → Option (Outcome × FileManager μ)
  | .mount disk_name disk fs_t => m.mount fat disk_name disk fs_t
  | .umount disk_name => some (m.umount fat disk_name)

/-- The history of a sequence of calls, both newest first, and the state it ends in; nothing once a name has
run over its field. -/
def run (m : FileManager μ) : List Call → Option (List Entry × FileManager μ)
  | [] => some ([], m)
  | c :: calls => (run m calls).bind fun r =>
      (step fat r.2 c).map fun o => (⟨c, o.1⟩ :: r.1, o.2)

/-- The object that the last successful `mount` of a name initialised, unless a later `umount` of it
succeeded. -/
def mountedAt : List Entry → List Char → Option Nat
  | [], _ => none
  | e :: history, name =>
    match e.call with
    | .mount disk_name _ _ =>
      if disk_name = name ∧ e.outcome.ret = 0 then e.outcome.this else mountedAt history name
    | .umount disk_name =>
      if disk_name = name ∧ e.outcome.ret = 0 then none else mountedAt history name

@[simp] theorem mountedAt_mount (disk_name : List Char) (disk : IdeDrive) (fs_t : FsType) (o : Outcome)
    (history : List Entry) (name : List Char) :
    mountedAt (⟨.mount disk_name disk fs_t, o⟩ :: history) name =
      if disk_name = name ∧ o.ret = 0 then o.this else mountedAt history name := rfl

@[simp] theorem mountedAt_umount (disk_name : List Char) (o : Outcome) (history : List Entry)
    (name : List Char) :
    mountedAt (⟨.umount disk_name, o⟩ :: history) name =
      if disk_name = name ∧ o.ret = 0 then none else mountedAt history name := rfl

/-- `"/mnt/name"` followed by `rest`. -/
def mntPath (name rest : List Char) : List Char := ['/', 'm', 'n', 't', '/'] ++ name ++ rest

/-- What a call in a state with a history owes: a `mount` writes its name within the entry; a `umount` runs
`FAT12_FS::umount` on the object its name was mounted at and on nothing else, and after it succeeded no path
of the name resolves and the next `umount` finds it not in use. -/
def Call.Kept (history : List Entry) (m : FileManager μ) : Call → Prop
  | .mount disk_name disk fs_t => m.mount fat disk_name disk fs_t ≠ none
  | .umount disk_name =>
    (m.umount fat disk_name).1.this = mountedAt history disk_name ∧
    ((m.umount fat disk_name).1.ret = 0 →
      (∀ rest, pathResolveFs (m.umount fat disk_name).2.fs_table (mntPath disk_name rest) = none) ∧
      ((m.umount fat disk_name).2.umount fat disk_name).1.ret = -1)

/-- A mounted volume has this name. -/
def FileManager.Mounted (m : FileManager μ) (name : List Char) : Prop :=
  ∃ i ∈ mountSlots, (m.fs_table i).inuse ∧ (m.fs_table i).disk_name = name

/-- A `mount` with a slot left gives a name that fits; a `umount` names no mounted disk. -/
def Call.Harmless (m : FileManager μ) : Call → Prop
  | .mount disk_name _ _ => m.total_mount_disk < MAX_DISK_COUNT → disk_name.length < MAX_DISK_NAME
  | .umount disk_name => ¬ m.Mounted disk_name

/-- A property of every call of a sequence, in the state and with the history it is made in. -/
def Throughout (P : List Entry → FileManager μ → Call → Prop) (m : FileManager μ) (calls : List Call) : Prop :=
  ∀ before c after history m', calls = after ++ c :: before →
    run fat m before = some (history, m') → P history m' c

/-- The mount table as the calls keep it: the slots below the count are in use, those of a mounted name hold
a FAT volume at the slot's own address. -/
structure Consistent (history : List Entry) (m : FileManager μ) : Prop where
  inuse_iff : ∀ i, (m.fs_table i).inuse = true ↔ i.val < m.total_mount_disk
  root : 1 ≤ m.total_mount_disk
  fat12 : ∀ i, (m.fs_table i).inuse = true → (m.fs_table i).type = .FXT12
  mounted : ∀ name a, mountedAt history name = some a →
    m.Mounted name ∧ ∃ slot, 1 ≤ slot ∧ a = fat12FromSlot slot

theorem consistent_start (disk : IdeDrive) (memory : μ) :
    Consistent [] (FileManager.start fat disk memory) where
  inuse_iff := by
    intro i
    by_cases hi : i = 0
    · simp [FileManager.start, hi]
    · have : i.val ≠ 0 := fun h => hi (Fin.ext h)
      simp only [FileManager.start, hi, if_false, FS_info.zero]
      simp only [Bool.false_eq_true, false_iff]
      omega
  root := le_refl 1
  fat12 := by
    intro i _
    by_cases hi : i = 0 <;> simp [FileManager.start, hi, FS_info.zero]
  mounted := by
    intro name a h
    simp [mountedAt] at h

variable {fat} {m m' : FileManager μ} {history : List Entry}

theorem mem_mountSlots {i : Fin MAX_DISK_COUNT} : i ∈ mountSlots ↔ 1 ≤ i.val := by
  revert i
  decide

/-- The search through the slots stops at the lowest. -/
theorem find_mountSlots_le {p : Fin MAX_DISK_COUNT → Bool} {i j : Fin MAX_DISK_COUNT}
    (hi : mountSlots.find? p = some i) (hj : j ∈ mountSlots) (hp : p j = true) : i ≤ j := by
  obtain ⟨_, before, after, hsplit, hbefore⟩ := List.find?_eq_some_iff_append.mp hi
  have hsorted : mountSlots.Pairwise (· < ·) := by decide
  rw [hsplit] at hj hsorted
  rcases List.mem_append.mp hj with hj | hj
  · have := hbefore j hj
    simp [hp] at this
  · rcases List.mem_cons.mp hj with rfl | hj
    · exact le_refl j
    · have := (List.pairwise_append.mp hsorted).2.1
      exact le_of_lt (List.rel_of_pairwise_cons this hj)

/-- A `mount` with a slot left fills that slot, in use if the volume came up. -/
theorem mount_eq {disk_name : List Char} {disk : IdeDrive} {fs_t : FsType} {o : Outcome}
    (h : m.mount fat disk_name disk fs_t = some (o, m')) :
    (m' = m ∧ o = ⟨-1, none⟩) ∨
    ∃ slot : Fin MAX_DISK_COUNT, ∃ res : Bool, slot.val = m.total_mount_disk ∧
      m'.fs_table = Function.update m.fs_table slot ⟨disk_name, fs_t, disk, res⟩ ∧
      m'.total_mount_disk = (if res then m.total_mount_disk + 1 else m.total_mount_disk) ∧
      (res = true → fs_t = .FXT12 ∧ o.this = some (fat12FromSlot slot)) ∧
      (res = false → o.ret = -1) := by
  unfold FileManager.mount at h
  by_cases hfree : m.total_mount_disk < MAX_DISK_COUNT
  · right
    by_cases hname : MAX_DISK_NAME ≤ disk_name.length
    · simp [hfree, hname] at h
    · refine ⟨⟨m.total_mount_disk, hfree⟩, ?_⟩
      cases fs_t with
      | FXT12 =>
          simp only [hfree, hname, dif_pos, if_false, Option.some.injEq, Prod.mk.injEq] at h
          obtain ⟨rfl, rfl⟩ := h
          exact ⟨_, rfl, rfl, rfl, fun _ => ⟨rfl, rfl⟩, fun hres => by simp [hres]⟩
      | NONE =>
          simp only [hfree, hname, dif_pos, if_false, Option.some.injEq, Prod.mk.injEq] at h
          obtain ⟨rfl, rfl⟩ := h
          exact ⟨false, rfl, rfl, rfl, by simp, fun _ => rfl⟩
  · left
    simp only [hfree, dif_neg, not_false_eq_true, Option.some.injEq, Prod.mk.injEq] at h
    exact ⟨h.2.symm, h.1.symm⟩

theorem umount_fs_table (fat : Fat12 μ) (disk_name : List Char) :
    (m.umount fat disk_name).2.fs_table = m.fs_table ∧
      (m.umount fat disk_name).2.total_mount_disk = m.total_mount_disk := by
  unfold FileManager.umount
  split
  · exact ⟨rfl, rfl⟩
  · split
    · exact ⟨rfl, rfl⟩
    · split <;> exact ⟨rfl, rfl⟩

/-- A name that no mounted disk has: no volume is touched. -/
theorem umount_of_not_mounted {disk_name : List Char}
    (hname : ¬ m.Mounted disk_name) :
    (m.umount fat disk_name).1.this = none ∧ (m.umount fat disk_name).1.ret ≠ 0 := by
  unfold FileManager.umount
  split
  · simp
  · rename_i i hfind
    have hmem := List.mem_of_find?_eq_some hfind
    have hdisk : (m.fs_table i).disk_name = disk_name := by simpa using List.find?_some hfind
    have hinuse : (m.fs_table i).inuse = false := by
      by_contra hinuse
      exact hname ⟨i, hmem, by simpa using hinuse, hdisk⟩
    simp [hinuse]

namespace Consistent

theorem mount (hm : Consistent history m) {disk_name : List Char} {disk : IdeDrive} {fs_t : FsType}
    {o : Outcome} (h : m.mount fat disk_name disk fs_t = some (o, m')) :
    Consistent (⟨.mount disk_name disk fs_t, o⟩ :: history) m' := by
  rcases mount_eq h with ⟨hm', ho⟩ | ⟨slot, res, hslot, htable, htotal, hup, hdown⟩
  · rw [hm', ho]
    exact ⟨hm.inuse_iff, hm.root, hm.fat12, fun name a ha => hm.mounted name a (by
      simpa [mountedAt] using ha)⟩
  · have hold : ∀ i, i ≠ slot → m'.fs_table i = m.fs_table i := by
      intro i hi
      rw [htable, Function.update_of_ne hi]
    have hnew : m'.fs_table slot = ⟨disk_name, fs_t, disk, res⟩ := by
      rw [htable, Function.update_self]
    have hroot := hm.root
    refine ⟨?_, ?_, ?_, ?_⟩
    · intro i
      by_cases hi : i = slot
      · rw [hi, hnew, htotal, hslot]
        cases res <;> simp
      · have hne : i.val ≠ m.total_mount_disk := fun hval => hi (Fin.ext (hval.trans hslot.symm))
        rw [hold i hi, hm.inuse_iff i, htotal]
        split <;> omega
    · rw [htotal]
      split <;> omega
    · intro i hinuse
      by_cases hi : i = slot
      · rw [hi, hnew] at hinuse ⊢
        exact (hup hinuse).1
      · rw [hold i hi] at hinuse ⊢
        exact hm.fat12 i hinuse
    · intro name a ha
      rw [mountedAt_mount] at ha
      by_cases hname : disk_name = name ∧ o.ret = 0
      · -- the volume just mounted
        have hres : res = true := by
          by_contra hres
          have := hdown (by simpa using hres)
          omega
        rw [if_pos hname, (hup hres).2] at ha
        refine ⟨⟨slot, mem_mountSlots.mpr (by omega), ?_, ?_⟩, slot.val, by omega, ?_⟩
        · rw [hnew]
          exact hres
        · rw [hnew]
          exact hname.1
        · exact (Option.some.inj ha).symm
      · rw [if_neg hname] at ha
        obtain ⟨⟨i, hi, hinuse, hdisk⟩, hat⟩ := hm.mounted name a ha
        have hne : i ≠ slot := by
          intro heq
          have := (hm.inuse_iff i).mp hinuse
          rw [heq, hslot] at this
          omega
        refine ⟨⟨i, hi, ?_, ?_⟩, hat⟩
        · rw [hold i hne]
          exact hinuse
        · rw [hold i hne]
          exact hdisk

theorem umount (hm : Consistent history m) (fat : Fat12 μ) (disk_name : List Char) :
    Consistent (⟨.umount disk_name, (m.umount fat disk_name).1⟩ :: history) (m.umount fat disk_name).2 := by
  obtain ⟨htable, htotal⟩ := umount_fs_table (m := m) fat disk_name
  refine ⟨?_, ?_, ?_, ?_⟩
  · rw [htable, htotal]
    exact hm.inuse_iff
  · rw [htotal]
    exact hm.root
  · rw [htable]
    exact hm.fat12
  · intro name a ha
    have hold : mountedAt history name = some a := by
      rw [mountedAt_umount] at ha
      by_cases hname : disk_name = name ∧ (m.umount fat disk_name).1.ret = 0
      · rw [if_pos hname] at ha
        cases ha
      · rwa [if_neg hname] at ha
    obtain ⟨hmounted, hslot⟩ := hm.mounted name a hold
    refine ⟨?_, hslot⟩
    unfold FileManager.Mounted
    rw [htable]
    exact hmounted

theorem run {m₀ : FileManager μ} (h₀ : Consistent [] m₀) {calls : List Call}
    (h : run fat m₀ calls = some (history, m)) : Consistent history m := by
  induction calls generalizing history m with
  | nil =>
      simp only [Vfs.run, Option.some.injEq, Prod.mk.injEq] at h
      rw [← h.1, ← h.2]
      exact h₀
  | cons c calls ih =>
      simp only [Vfs.run, Option.bind_eq_some_iff, Option.map_eq_some_iff, Prod.mk.injEq] at h
      obtain ⟨⟨before, m₁⟩, hrun, ⟨o, m₂⟩, hstep, rfl, rfl⟩ := h
      have hbefore := ih hrun
      cases c with
      | mount disk_name disk fs_t => exact hbefore.mount hstep
      | umount disk_name =>
          simp only [step, Option.some.injEq] at hstep
          have := hbefore.umount fat disk_name
          rw [hstep] at this
          exact this

/-- The name of a mounted disk: `FAT12_FS::umount` runs, on an address within the root volume's slot. -/
theorem umount_of_mounted (hm : Consistent history m) (fat : Fat12 μ) {disk_name : List Char}
    (hname : m.Mounted disk_name) :
    ∃ i : Fin MAX_DISK_COUNT, 1 ≤ i.val ∧ (m.umount fat disk_name).1.this = some (i * PAGE_SIZE) := by
  obtain ⟨j, hj, hinuse, hdisk⟩ := hname
  unfold FileManager.umount
  split
  · rename_i hnone
    have := List.find?_eq_none.mp hnone j hj
    simp [hdisk] at this
  · rename_i i hfind
    have hle : i ≤ j := find_mountSlots_le hfind hj (by simp [hdisk])
    have hinuse : (m.fs_table i).inuse = true := by
      have := (hm.inuse_iff j).mp hinuse
      exact (hm.inuse_iff i).mpr (lt_of_le_of_lt hle this)
    refine ⟨i, mem_mountSlots.mp (List.mem_of_find?_eq_some hfind), ?_⟩
    simp [hinuse, hm.fat12 i hinuse]

/-- A call owes nothing more than it does exactly when it is harmless. -/
theorem kept_iff (hm : Consistent history m) (c : Call) : c.Kept fat history m ↔ c.Harmless m := by
  cases c with
  | mount disk_name disk fs_t =>
      unfold Call.Kept Call.Harmless FileManager.mount
      by_cases hfree : m.total_mount_disk < MAX_DISK_COUNT
      · by_cases hname : MAX_DISK_NAME ≤ disk_name.length
        · simp [hfree, hname]
        · cases fs_t <;> simp [hfree, hname, lt_of_not_ge hname]
      · simp [hfree]
  | umount disk_name =>
      unfold Call.Kept Call.Harmless
      constructor
      · rintro ⟨hthis, _⟩ hmounted
        obtain ⟨i, hi, hat⟩ := hm.umount_of_mounted fat hmounted
        obtain ⟨_, slot, hslot, heq⟩ := hm.mounted disk_name _ (hthis.symm.trans hat)
        -- a page offset below four pages is no slot's address
        have hlt : i.val < 4 := i.isLt
        simp only [fat12FromSlot, MAX_FILESYS_SIZE, PAGE_SIZE] at heq
        omega
      · intro hnot
        obtain ⟨hthis, hret⟩ := umount_of_not_mounted hnot
        have hunmounted : mountedAt history disk_name = none := by
          by_contra hsome
          obtain ⟨a, ha⟩ := Option.ne_none_iff_exists'.mp hsome
          exact hnot (hm.mounted disk_name a ha).1
        exact ⟨hthis.trans hunmounted.symm, fun h => absurd h hret⟩

end Consistent

/-- Over every sequence of calls, `umount` acts on the volume that `mount` initialised and on nothing else,
and takes it out of use, exactly when no call unmounts a mounted disk or mounts under a name too long for the
table. -/
theorem kept_iff_harmless (fat : Fat12 μ) (disk : IdeDrive) (memory : μ) (calls : List Call) :
    Throughout fat (fun history m c => c.Kept fat history m) (.start fat disk memory) calls ↔
      Throughout fat (fun _ m c => c.Harmless m) (.start fat disk memory) calls := by
  have hstart := consistent_start fat disk memory
  constructor
  · intro h before c after history m hsplit hrun
    exact ((hstart.run hrun).kept_iff c).mp (h before c after history m hsplit hrun)
  · intro h before c after history m hsplit hrun
    exact ((hstart.run hrun).kept_iff c).mpr (h before c after history m hsplit hrun)

/-- A volume whose every method succeeds and leaves the memory alone. -/
def stub : Fat12 Unit where
  memset := fun _ _ memory => memory
  mount := fun _ _ memory => (true, memory)
  umount := fun _ memory => (true, memory)

/-- `mount("test")` and then `umount("test")`, which runs `FAT12_FS::umount` a page into the root volume's
object. -/
theorem not_kept :
    ¬ Throughout stub (fun history m c => c.Kept stub history m) (.start stub .PrimaryMaster ())
      [.umount "test".toList, .mount "test".toList .SecondaryMaster .FXT12] := by
  intro h
  have := h [.mount "test".toList .SecondaryMaster .FXT12] (.umount "test".toList) [] _ _ rfl rfl
  have hthis := this.1
  revert hthis
  decide

end SysuOs.Vfs
