import SysuOs.VfsVolumes

/-! No call on a path changes another volume than that of the path. Where the parent of a volume's root is looked up
in the volume of slot 0, the inode it finds there is told from one of the volume by its `fat12_fs`. -/

namespace SysuOs.Vfs

open FAT12FS

/-! ### The inodes of a volume -/

/-- The volume at an address, every inode in use of which names it. -/
structure Owned (base : Nat) (vol : FatVolume) : Prop where
  this : vol.fs.this = base
  inodes : ∀ place, vol.inodepool.bitmap place = true → (vol.inodepool.inodes place).fat12Fs = base

/-- What has been found is an inode of the volume. -/
def Owns (base : Nat) (vol : FatVolume) (found : Option Found) : Prop :=
  ∀ f ∈ found, (vol.inodepool.inodes f.place).fat12Fs = base

section

variable {base : Nat} {vol vol' : FatVolume}

theorem Owned.withFs (h : Owned base vol) {fs : FAT12FS} (hfs : fs.this = vol.fs.this) : Owned base { vol with fs } :=
  ⟨hfs.trans h.this, h.inodes⟩

/-- The inodes of a volume, wherever its own fields are. -/
def OwnsAll (base : Nat) (pool : InodePool) : Prop := ∀ place, pool.bitmap place = true → (pool.inodes place).fat12Fs = base

theorem OwnsAll.releaseInode (h : OwnsAll base vol.inodepool) (place : Nat) :
    OwnsAll base (vol.releaseInode place).inodepool := by
  intro p hp
  rw [FatVolume.releaseInode] at hp ⊢
  split at hp
  · rename_i hown
    rw [if_pos hown]
    dsimp only at hp ⊢
    split at hp
    · by_cases hpp : p = place
      · rw [hpp, Function.update_self] at hp
        cases hp
      · rw [Function.update_of_ne hpp] at hp
        exact h p hp
    · exact h p hp
  · rename_i hother
    rw [if_neg hother]
    exact h p hp

theorem Owned.releaseInode (h : Owned base vol) (place : Nat) : Owned base (vol.releaseInode place) := by
  refine ⟨?_, OwnsAll.releaseInode h.inodes place⟩
  rw [FatVolume.releaseInode_fs]
  exact h.this

theorem releaseInode_inodes (vol : FatVolume) (place : Nat) :
    (vol.releaseInode place).inodepool.inodes = vol.inodepool.inodes := by
  rw [FatVolume.releaseInode]
  split <;> rfl

theorem Owned.takeInode (h : Owned base vol) (entry : NormalizedEntry) (location : EntryLocation) :
    Owned base (vol.takeInode entry location).2 ∧
      Owns base (vol.takeInode entry location).2 (vol.takeInode entry location).1 := by
  rcases takeInode_cases vol entry location with ⟨i, hused, -, heq⟩ | heq | ⟨i, -, heq⟩
  · rw [heq]
    have hi := h.inodes i hused
    refine ⟨⟨h.this, ?_⟩, ?_⟩
    · intro p hp
      by_cases hpi : p = i
      · rw [hpi]
        simpa using hi
      · simpa [Function.update_of_ne hpi] using h.inodes p hp
    · rintro _ ⟨⟩
      simpa using hi
  · rw [heq]
    exact ⟨h, fun _ hf => absurd hf (Option.not_mem_none _)⟩
  · rw [heq]
    refine ⟨⟨h.this, ?_⟩, ?_⟩
    · intro p hp
      by_cases hpi : p = i
      · rw [hpi]
        simpa using h.this
      · simp only [Function.update_of_ne hpi] at hp ⊢
        exact h.inodes p hp
    · rintro _ ⟨⟩
      simpa using h.this

theorem getCache_this {fs fs' : FAT12FS} {c : Nat} {cache : Option Nat} (h : fs.getCache c = .ret (cache, fs')) :
    fs'.this = fs.this := by
  obtain ⟨pool, device, rfl⟩ := (getCache_cacheOnly h).eq
  rfl

theorem releaseCache_this {fs fs' : FAT12FS} {i : Nat} (h : fs.releaseCache i = .ret fs') : fs'.this = fs.this := by
  obtain ⟨pool, device, rfl⟩ := (releaseCache_cacheOnly h).eq
  rfl

theorem Owned.lookupLoop {name : List Byte} {fuel cluster : Nat} {found : Option Found} {clusters : List Nat}
    (h : Owned base vol) (hlookup : FatVolume.lookupLoop name fuel cluster vol = .ret (found, clusters, vol')) :
    Owned base vol' ∧ Owns base vol' found := by
  induction fuel generalizing vol cluster found clusters with
  | zero => cases hlookup
  | succ fuel ih =>
      rw [FatVolume.lookupLoop] at hlookup
      split at hlookup
      · obtain ⟨⟨cache, fs₁⟩, hget, hlookup⟩ := Outcome.bind_eq_ret hlookup
        have h₁ := h.withFs (getCache_this hget)
        cases cache with
        | none =>
            cases hlookup
            exact ⟨h₁, fun _ hf => absurd hf (Option.not_mem_none _)⟩
        | some i =>
            dsimp only at hlookup
            split at hlookup
            · rename_i k entry _
              obtain ⟨fs₂, hrel, hlookup⟩ := Outcome.bind_eq_ret hlookup
              cases hlookup
              obtain ⟨howned, howns⟩ := h₁.takeInode entry ⟨false, cluster, k, 0⟩
              exact ⟨howned.withFs (releaseCache_this hrel), howns⟩
            · obtain ⟨fs₂, hrel, hlookup⟩ := Outcome.bind_eq_ret hlookup
              cases hlookup
              exact ⟨h₁.withFs (releaseCache_this hrel), fun _ hf => absurd hf (Option.not_mem_none _)⟩
            · obtain ⟨fs₂, hrel, hlookup⟩ := Outcome.bind_eq_ret hlookup
              obtain ⟨⟨found', clusters', vol₂⟩, hrest, hlookup⟩ := Outcome.bind_eq_ret hlookup
              cases hlookup
              exact ih (h₁.withFs (releaseCache_this hrel)) hrest
      · cases hlookup
        exact ⟨h, fun _ hf => absurd hf (Option.not_mem_none _)⟩

theorem Owned.lookup {dir : Option Nat} {name : List Byte} {found : Option Found} {clusters : List Nat}
    (h : Owned base vol) (hlookup : vol.lookup dir name = .ret (found, clusters, vol')) :
    Owned base vol' ∧ Owns base vol' found := by
  cases dir with
  | none =>
      have hroot : vol.lookupRoot name = (found, vol') := by
        have hret := Outcome.ret.inj hlookup
        exact Prod.ext (Prod.mk.inj hret).1 (Prod.mk.inj (Prod.mk.inj hret).2).2
      rw [FatVolume.lookupRoot] at hroot
      split at hroot
      · obtain ⟨rfl, rfl⟩ := Prod.mk.inj hroot
        exact ⟨h, fun _ hf => absurd hf (Option.not_mem_none _)⟩
      · rename_i idx _
        have htake := h.takeInode (vol.fs.rootDir idx) ⟨true, 0, 0, idx⟩
        rw [hroot] at htake
        exact htake
  | some place =>
      rw [FatVolume.lookup] at hlookup
      split at hlookup
      · cases hlookup
        exact ⟨h, fun _ hf => absurd hf (Option.not_mem_none _)⟩
      · exact h.lookupLoop hlookup

theorem Owned.releaseCurrent (h : Owned base vol) (current : Option Found) : Owned base (vol.releaseCurrent current) := by
  cases current with
  | none => exact h
  | some current => exact h.releaseInode current.place

theorem Owns.releaseCurrent {found : Option Found} (h : Owns base vol found) (current : Option Found) :
    Owns base (vol.releaseCurrent current) found := by
  cases current with
  | none => exact h
  | some current =>
      intro f hf
      rw [FatVolume.releaseCurrent, releaseInode_inodes]
      exact h f hf

/-- A path leads to an inode of the volume. -/
theorem Owned.walkPath {fuel : Nat} {current : Option Found} {path : List Char} {node : Option (Option Found)}
    {visits : List Visit} (h : Owned base vol) (hcurrent : Owns base vol current)
    (hwalk : walkPath fuel vol current path = .ret (node, visits, vol')) :
    Owned base vol' ∧ ∀ found ∈ node, Owns base vol' found := by
  induction fuel generalizing vol current path node visits with
  | zero => cases hwalk
  | succ fuel ih =>
      rw [Vfs.walkPath] at hwalk
      split at hwalk
      · cases hwalk
        exact ⟨h.releaseCurrent current, fun _ hf => absurd hf (Option.not_mem_none _)⟩
      · cases hwalk
        refine ⟨h, ?_⟩
        rintro found ⟨⟩
        exact hcurrent
      · obtain ⟨⟨next, clusters, vol₁⟩, hlookup, hwalk⟩ := Outcome.bind_eq_ret hwalk
        obtain ⟨howned, howns⟩ := h.lookup hlookup
        cases next with
        | none =>
            cases hwalk
            exact ⟨howned.releaseCurrent current, fun _ hf => absurd hf (Option.not_mem_none _)⟩
        | some next =>
            obtain ⟨⟨node', visits', vol₂⟩, hrest, hwalk⟩ := Outcome.bind_eq_ret hwalk
            cases hwalk
            exact ih (howned.releaseCurrent current) (howns.releaseCurrent current) hrest

/-! ### Over a run -/

theorem createFile_ownsAll {dir : Option Nat} {name : List Byte} {attr : Byte} {res : Bool} (h : Owned base vol)
    (hcall : vol.createFile dir name attr = .ret (res, vol')) : OwnsAll base vol'.inodepool := by
  rw [FatVolume.createFile] at hcall
  split at hcall
  · cases hcall
    exact h.inodes
  · obtain ⟨⟨file, clusters, vol₁⟩, hlookup, hcall⟩ := Outcome.bind_eq_ret hcall
    obtain ⟨h₁, -⟩ := h.lookup hlookup
    cases file with
    | some file =>
        cases hcall
        exact OwnsAll.releaseInode h₁.inodes file.place
    | none =>
        obtain ⟨⟨made, fs₂⟩, -, hcall⟩ := Outcome.bind_eq_ret hcall
        cases made with
        | none =>
            cases hcall
            exact h₁.inodes
        | some place =>
            obtain ⟨⟨written, fs₃⟩, -, hcall⟩ := Outcome.bind_eq_ret hcall
            cases written <;> cases hcall <;> exact h₁.inodes

theorem removeTarget_ownsAll {place : Nat} {res : Bool} (h : OwnsAll base vol.inodepool)
    (hcall : vol.removeTarget place = .ret (res, vol')) : OwnsAll base vol'.inodepool := by
  obtain ⟨⟨deleted, fs₁⟩, -, hcall⟩ := Outcome.bind_eq_ret hcall
  cases deleted with
  | false =>
      cases hcall
      exact @OwnsAll.releaseInode base { vol with fs := fs₁ } h place
  | true =>
      obtain ⟨fs₂, -, hcall⟩ := Outcome.bind_eq_ret hcall
      cases hcall
      exact @OwnsAll.releaseInode base { vol with fs := fs₂ } h place

theorem remove_ownsAll {dir : Option Nat} {name : List Byte} {res : Bool} (h : Owned base vol)
    (hcall : vol.remove dir name = .ret (res, vol')) : OwnsAll base vol'.inodepool := by
  obtain ⟨⟨file, clusters, vol₁⟩, hlookup, hcall⟩ := Outcome.bind_eq_ret hcall
  obtain ⟨h₁, -⟩ := h.lookup hlookup
  cases file with
  | none =>
      cases hcall
      exact h₁.inodes
  | some file =>
      dsimp only at hcall
      split at hcall
      · cases hcall
        exact OwnsAll.releaseInode h₁.inodes file.place
      · exact removeTarget_ownsAll h₁.inodes hcall

theorem createDirectory_ownsAll {dir : Option Nat} {name : List Byte} {res : Bool} (h : Owned base vol)
    (hcall : vol.createDirectory dir name = .ret (res, vol')) : OwnsAll base vol'.inodepool := by
  obtain ⟨⟨file, clusters, vol₁⟩, hlookup, hcall⟩ := Outcome.bind_eq_ret hcall
  obtain ⟨h₁, -⟩ := h.lookup hlookup
  cases file with
  | some file =>
      cases hcall
      exact OwnsAll.releaseInode h₁.inodes file.place
  | none =>
      obtain ⟨⟨made, fs₂⟩, -, hcall⟩ := Outcome.bind_eq_ret hcall
      cases made with
      | none =>
          cases hcall
          exact h₁.inodes
      | some place =>
          obtain ⟨start, -, hcall⟩ := Outcome.bind_eq_ret hcall
          split at hcall
          · cases hcall
            exact h₁.inodes
          · obtain ⟨⟨written, fs₃⟩, -, hcall⟩ := Outcome.bind_eq_ret hcall
            cases written with
            | false =>
                cases hcall
                exact h₁.inodes
            | true =>
                obtain ⟨cleared, -, hcall⟩ := Outcome.bind_eq_ret hcall
                cases cleared <;> cases hcall
                exact h₁.inodes

theorem isDirEmpty_inodepool {place : Nat} {res : Int} (h : vol.isDirEmpty place = .ret (res, vol')) :
    vol'.inodepool = vol.inodepool := by
  rw [FatVolume.isDirEmpty] at h
  dsimp only at h
  split_ifs at h
  · cases h
    rfl
  · cases h
    rfl
  · split at h
    · cases h
      rfl
    · obtain ⟨⟨found, it', fs₁⟩, -, h⟩ := Outcome.bind_eq_ret h
      cases h
      rfl

theorem removeDirectory_ownsAll {dir : Option Nat} {name : List Byte} {res : Bool} (h : Owned base vol)
    (hcall : vol.removeDirectory dir name = .ret (res, vol')) : OwnsAll base vol'.inodepool := by
  obtain ⟨⟨target, clusters, vol₁⟩, hlookup, hcall⟩ := Outcome.bind_eq_ret hcall
  obtain ⟨h₁, -⟩ := h.lookup hlookup
  cases target with
  | none =>
      cases hcall
      exact h₁.inodes
  | some target =>
      dsimp only at hcall
      split at hcall
      · cases hcall
        exact OwnsAll.releaseInode h₁.inodes target.place
      · obtain ⟨⟨empty, vol₂⟩, hempty, hcall⟩ := Outcome.bind_eq_ret hcall
        have h₂ : OwnsAll base vol₂.inodepool := isDirEmpty_inodepool hempty ▸ h₁.inodes
        dsimp only at hcall
        split_ifs at hcall
        · cases hcall
          exact h₂.releaseInode target.place
        · cases hcall
          exact h₂.releaseInode target.place
        · exact removeTarget_ownsAll h₂ hcall

theorem append_fat12Fs {fs fs' : FAT12FS} {node node' : Option Fat12Inode} {src : ByteMap} {size r : Int}
    (h : fs.append node src size = .ret (r, node', fs')) :
    node'.map Fat12Inode.fat12Fs = node.map Fat12Inode.fat12Fs := by
  cases node with
  | none =>
      cases h
      rfl
  | some node =>
      rcases append_cases h with ⟨-, rfl, -⟩ | ⟨started, fs₁, appended, changed, -, hstart, hrest, -, rfl⟩
      · rfl
      · have hstarted : started.fat12Fs = node.fat12Fs := by rw [appendStart_node hstart]
        have hchanged : changed.fat12Fs = started.fat12Fs := by
          obtain ⟨cluster, filled, left, fs₂, fs₃, -, -, ⟨-, rfl, -⟩ | ⟨-, rfl, -⟩⟩ := appendRest_cases hrest
          · rfl
          · rfl
        rw [Option.map_some, Option.map_some, hchanged, hstarted]

theorem call_ownsAll {c : FatCall} (h : Owned base vol) (hcall : vol.call c = .ret vol') : OwnsAll base vol'.inodepool := by
  cases c with
  | lookup dir name =>
      obtain ⟨⟨found, clusters, vol₁⟩, hlookup, hcall⟩ := Outcome.bind_eq_ret hcall
      cases hcall
      exact (h.lookup hlookup).1.inodes
  | releaseInode place =>
      cases hcall
      exact OwnsAll.releaseInode h.inodes place
  | read node out size offset =>
      obtain ⟨⟨r, out', fs⟩, -, hcall⟩ := Outcome.bind_eq_ret hcall
      cases hcall
      exact h.inodes
  | write node src size offset =>
      obtain ⟨⟨r, fs⟩, -, hcall⟩ := Outcome.bind_eq_ret hcall
      cases hcall
      exact h.inodes
  | append node src size =>
      obtain ⟨⟨r, changed, fs⟩, happend, hcall⟩ := Outcome.bind_eq_ret hcall
      cases hcall
      have hsame := append_fat12Fs happend
      cases node with
      | none =>
          cases changed with
          | none => exact h.inodes
          | some changed => cases hsame
      | some place =>
          cases changed with
          | none => cases hsame
          | some changed =>
              intro p hp
              by_cases hpp : p = place
              · rw [hpp] at hp ⊢
                have hown := Option.some.inj hsame
                simpa [FatVolume.setNode, hown] using h.inodes place hp
              · simpa [FatVolume.setNode, Function.update_of_ne hpp] using h.inodes p hp
  | createFile dir name attr =>
      obtain ⟨⟨res, vol₁⟩, hcreate, hcall⟩ := Outcome.bind_eq_ret hcall
      cases hcall
      exact createFile_ownsAll h hcreate
  | createDirectory dir name =>
      obtain ⟨⟨res, vol₁⟩, hcreate, hcall⟩ := Outcome.bind_eq_ret hcall
      cases hcall
      exact createDirectory_ownsAll h hcreate
  | remove dir name =>
      obtain ⟨⟨res, vol₁⟩, hremove, hcall⟩ := Outcome.bind_eq_ret hcall
      cases hcall
      exact remove_ownsAll h hremove
  | removeDirectory dir name =>
      obtain ⟨⟨res, vol₁⟩, hremove, hcall⟩ := Outcome.bind_eq_ret hcall
      cases hcall
      exact removeDirectory_ownsAll h hremove
  | next dir it =>
      obtain ⟨⟨found, it', fs⟩, -, hcall⟩ := Outcome.bind_eq_ret hcall
      cases hcall
      exact h.inodes
  | flush node =>
      obtain ⟨fs, -, hcall⟩ := Outcome.bind_eq_ret hcall
      cases hcall
      exact h.inodes
  | flushAll =>
      obtain ⟨fs, -, hcall⟩ := Outcome.bind_eq_ret hcall
      cases hcall
      exact h.inodes

end

/-- A volume that has been mounted in a slot, after any sequence of calls. -/
def Reached (slot : Fin MAX_DISK_COUNT) (vol : FatVolume) : Prop :=
  ∃ start, FatVolume.FreshlyMounted start ∧ start.fs.this = fat12FromSlot slot ∧ FatVolume.Run start vol

theorem Reached.owned {slot : Fin MAX_DISK_COUNT} {vol : FatVolume} (h : Reached slot vol) :
    Owned (fat12FromSlot slot) vol := by
  obtain ⟨start, hmount, hthis, hrun⟩ := h
  rcases Nat.eq_zero_or_pos start.fs.bpb.rootEntryCount with hroot | hroot
  · have hnone : FatVolume.NoFiles start.fs.this vol :=
      hrun.invariant (hmount.noFiles hroot) fun _ _ _ h hheld hcall => h.call hheld hcall
    refine ⟨hnone.this.trans hthis, ?_⟩
    intro place hplace
    rw [hnone.inodepool] at hplace
    cases hplace
  · have hkept : Mounted vol.fs ∧ Coherent vol.fs ∧ Owned (fat12FromSlot slot) vol := by
      refine hrun.invariant (P := fun vol => Mounted vol.fs ∧ Coherent vol.fs ∧ Owned (fat12FromSlot slot) vol)
        ⟨hmount.mounted hroot, hmount.coherent, hthis, ?_⟩ ?_
      · intro place hplace
        rw [hmount.inodepool] at hplace
        cases hplace
      · rintro vol₁ vol₂ c ⟨hm, hcoh, howned⟩ - hcall
        obtain ⟨hcoh', hsame⟩ := FatVolume.call_keeps hcall hm hcoh
        exact ⟨hm.congr hsame, hcoh', hsame.this.trans howned.this, call_ownsAll howned hcall⟩
    exact hkept.2.2

/-! ### The root of a volume -/

section

variable {n : Nat} {s s' : Files n} {fs_table : FsTable} {cwd path rest : List Char} {i : Fin MAX_DISK_COUNT}
  {base : Nat} {vol vol' : FatVolume}

theorem Owned.lookupIn {file : Option (Fin MAX_OPENFILE_COUNT)} {visits : List Visit} (h : Owned base vol)
    (hlookup : lookupIn s i rest vol = .ret ((file, visits, s'), vol')) :
    vol'.fs.this = base ∧
      ∀ k ∈ file, ∀ node ∈ (s'.openfile_table k).node, (vol'.inodepool.inodes node.place).fat12Fs = base := by
  rw [Vfs.lookupIn] at hlookup
  obtain ⟨⟨node, visits', vol₁⟩, hwalk, hlookup⟩ := Outcome.bind_eq_ret hlookup
  have hnone : Owns base vol none := fun _ hf => absurd hf (Option.not_mem_none _)
  obtain ⟨howned, hfound⟩ := h.walkPath hnone hwalk
  cases node with
  | none =>
      cases hlookup
      exact ⟨howned.this, fun _ hf => absurd hf (Option.not_mem_none _)⟩
  | some current =>
      dsimp only at hlookup
      split at hlookup
      · cases hlookup
        exact ⟨(howned.releaseCurrent current).this, fun _ hf => absurd hf (Option.not_mem_none _)⟩
      · rename_i k files henter
        cases hlookup
        refine ⟨?_, ?_⟩
        · split
          · exact (howned.releaseCurrent current).this
          · exact howned.this
        · rintro _ ⟨⟩ node hnode
          rw [(enter_spec henter).2] at hnode
          obtain ⟨found, hmem, rfl⟩ := Option.map_eq_some_iff.mp hnode
          split
          · exact (hfound current rfl).releaseCurrent current found hmem
          · exact hfound current rfl found hmem

/-- `/mnt` itself is looked up in the root directory alone. -/
theorem lookupIn_mnt {file : Option (Fin MAX_OPENFILE_COUNT)} {visits : List Visit}
    (h : lookupIn s i mnt vol = .ret ((file, visits, s'), vol')) :
    vol'.fs = vol.fs ∧ ∀ k ∈ file, (s'.openfile_table k).node.isSome := by
  rw [lookupIn] at h
  obtain ⟨⟨node, visits', vol₁⟩, hwalk, h⟩ := Outcome.bind_eq_ret h
  have hnext : pathNextComponent mnt = .next mnt [] := by decide
  have hroot : vol₁.fs = vol.fs ∧ ∀ current ∈ node, current.isSome := by
    rw [walkPath, hnext] at hwalk
    obtain ⟨⟨next, clusters, vol₂⟩, hlookup, hwalk⟩ := Outcome.bind_eq_ret hwalk
    have hvol : vol₂.fs = vol.fs := by
      have hret : (vol.lookupRoot (bytesOf mnt)).2 = vol₂ := (Prod.mk.inj (Prod.mk.inj (Outcome.ret.inj hlookup)).2).2
      rw [← hret, FatVolume.lookupRoot_fs]
    cases next with
    | none =>
        cases hwalk
        exact ⟨hvol, fun _ hf => absurd hf (Option.not_mem_none _)⟩
    | some next =>
        obtain ⟨⟨node', visits', vol₃⟩, hrest, hwalk⟩ := Outcome.bind_eq_ret hwalk
        cases hrest
        cases hwalk
        refine ⟨hvol, ?_⟩
        rintro current ⟨⟩
        rfl
  obtain ⟨hfs, hsome⟩ := hroot
  have hrelease : ∀ current : Option Found, (vol₁.releaseCurrent current).fs = vol₁.fs := by
    intro current
    cases current with
    | none => rfl
    | some current => exact FatVolume.releaseInode_fs vol₁ current.place
  cases node with
  | none =>
      cases h
      exact ⟨hfs, fun _ hf => absurd hf (Option.not_mem_none _)⟩
  | some current =>
      have hcurrent := hsome current rfl
      dsimp only at h
      split at h
      · cases h
        exact ⟨(hrelease current).trans hfs, fun _ hf => absurd hf (Option.not_mem_none _)⟩
      · rename_i k files henter
        cases h
        refine ⟨?_, ?_⟩
        · split
          · exact (hrelease current).trans hfs
          · exact hfs
        · rintro _ ⟨⟩
          rw [(enter_spec henter).2, Option.isSome_map]
          exact hcurrent

/-- Only the inode pool of the volume of slot 0 may differ. -/
structure PoolOfRoot (volumes volumes' : Disks) : Prop where
  other : ∀ j, j ≠ 0 → volumes' j = volumes j
  fs : (volumes' 0).fs = (volumes 0).fs

theorem PoolOfRoot.refl (volumes : Disks) : PoolOfRoot volumes volumes := ⟨fun _ _ => rfl, rfl⟩

theorem PoolOfRoot.trans {volumes volumes' volumes'' : Disks} (h : PoolOfRoot volumes volumes')
    (h' : PoolOfRoot volumes' volumes'') : PoolOfRoot volumes volumes'' :=
  ⟨fun j hj => (h'.other j hj).trans (h.other j hj), h'.fs.trans h.fs⟩

theorem PoolOfRoot.update {volumes : Disks} (hfs : vol.fs = (volumes 0).fs) :
    PoolOfRoot volumes (Function.update volumes 0 vol) := by
  refine ⟨fun j hj => Function.update_of_ne hj _ _, ?_⟩
  rw [Function.update_self]
  exact hfs

theorem releaseLookupOpenfile_pool {file : Option (Fin MAX_OPENFILE_COUNT)} (h : ∀ k ∈ file, OfVolume 0 (s.openfile_table k))
    (volumes : Disks) : PoolOfRoot volumes (releaseLookupOpenfile s volumes file).2 := by
  cases file with
  | none => exact PoolOfRoot.refl volumes
  | some k =>
      obtain ⟨htype, hnode⟩ := h k rfl
      rw [releaseLookupOpenfile]
      split
      · rw [releaseOpenfileNode, htype]
        cases hopen : (s.openfile_table k).node with
        | none => exact PoolOfRoot.refl volumes
        | some node =>
            rw [hopen] at hnode
            dsimp only
            rw [hnode node rfl]
            exact PoolOfRoot.update (FatVolume.releaseInode_fs _ _)
      · exact PoolOfRoot.refl volumes

theorem fat12FromSlot_injective {i j : Fin MAX_DISK_COUNT} (h : fat12FromSlot i = fat12FromSlot j) : i = j :=
  Fin.ext (Nat.eq_of_mul_eq_mul_right (by decide) h)

/-- The parent of a volume's root is no inode of the volume, and its check fails. -/
theorem resolveParent_volumeRoot (h : Vfs.resolve fs_table cwd path = some (i, [])) (hi : i ≠ 0) {volumes volumes' : Disks}
    (h₀ : Reached 0 (volumes 0)) (hvol : Reached i (volumes i)) {p : Option Parent}
    {file : Option (Fin MAX_OPENFILE_COUNT)}
    (hparent : resolveParent s fs_table volumes cwd path = .ret ((p, file, s'), volumes')) :
    PoolOfRoot volumes volumes' ∧ (∀ parent ∈ p, parent.Rejected volumes') ∧
      ∀ k ∈ file, OfVolume 0 (s'.openfile_table k) := by
  have hfail : resolveParent s fs_table volumes cwd path = .ret ((none, none, s), volumes) →
      PoolOfRoot volumes volumes' ∧ (∀ parent ∈ p, parent.Rejected volumes') ∧
        ∀ k ∈ file, OfVolume 0 (s'.openfile_table k) := by
    intro heq
    rw [hparent] at heq
    cases heq
    exact ⟨PoolOfRoot.refl volumes, nofun, nofun⟩
  obtain ⟨normalized, cs, hnormalize, hcwd, hnormal, hres⟩ := resolve_normal h
  cases htype : (fs_table i).type with
  | NONE => exact hfail (resolveParent_noFs hnormalize hres htype s volumes)
  | FXT12 =>
      obtain ⟨name, rfl⟩ := hnormal.volume_root hres hi
      have hmnt : Normal (render [mnt]) [mnt] := hnormal.dropLast
      have houtside : pathResolveFs fs_table (render [mnt]) = some (0, mnt) := hmnt.resolve_outside (Or.inr rfl)
      have hfsroot : pathIsFsRoot fs_table (render [mnt]) i = false := by
        rw [pathIsFsRoot, houtside]
        simp [Ne.symm hi]
      have hlookup : resolveParent s fs_table volumes cwd path =
          lookupParent s fs_table volumes cwd (render [mnt]) name i := by
        rw [resolveParent_eq hnormalize hnormal (by simp) hres htype]
        simp only [List.dropLast_cons_cons, List.dropLast_singleton, hfsroot, List.getLast_cons_cons, List.getLast_singleton]
        rfl
      have hresolve := (hmnt.resolve hcwd).trans houtside
      cases htype₀ : (fs_table 0).type with
      | NONE =>
          refine hfail ?_
          rw [hlookup, lookupParent, lookupPath_none hresolve htype₀]
          rfl
      | FXT12 =>
          rw [hlookup, lookupParent_eq hresolve htype₀] at hparent
          obtain ⟨⟨⟨found, visits, s₁⟩, volumes₁⟩, hon, hparent⟩ := Outcome.bind_eq_ret hparent
          obtain ⟨⟨r, vol₁⟩, hin, hr⟩ := Outcome.bind_eq_ret hon
          cases hr
          obtain ⟨hfs, hsome⟩ := lookupIn_mnt hin
          have hof := lookupIn_spec hin
          have howned := (h₀.owned.lookupIn hin).2
          have hpool : PoolOfRoot volumes (Function.update volumes 0 vol₁) := PoolOfRoot.update hfs
          cases found with
          | none =>
              cases hparent
              exact ⟨hpool, nofun, nofun⟩
          | some k =>
              obtain ⟨hfxt, hnode⟩ := hof k rfl
              simp only [parentFound, hfxt, ne_eq, not_true, if_false] at hparent
              cases hparent
              refine ⟨hpool, ?_, ?_⟩
              · rintro _ ⟨⟩
                obtain ⟨node, hopen⟩ := Option.isSome_iff_exists.mp (hsome k rfl)
                refine ⟨node, hopen, Or.inl ?_⟩
                dsimp only
                rw [hnode node hopen, Function.update_self, Function.update_of_ne hi, howned k rfl node hopen,
                  hvol.owned.this]
                exact fun heq => hi (fat12FromSlot_injective heq).symm
              · rintro _ ⟨⟩
                exact ⟨hfxt, hnode⟩

theorem changeParent_volumeRoot (act : FatVolume → Option Nat → List Byte → SysuOs.Outcome (Bool × FatVolume))
    (h : Vfs.resolve fs_table cwd path = some (i, [])) (hi : i ≠ 0) {volumes volumes' : Disks}
    (h₀ : Reached 0 (volumes 0)) (hvol : Reached i (volumes i)) {r : Int}
    (hcall : changeParent act s fs_table volumes cwd path = .ret ((r, s'), volumes')) :
    r = -1 ∧ PoolOfRoot volumes volumes' := by
  rw [changeParent_eq] at hcall
  obtain ⟨⟨⟨p, file, s₁⟩, volumes₁⟩, hparent, hcall⟩ := Outcome.bind_eq_ret hcall
  obtain ⟨hpool, hrejected, hof⟩ := resolveParent_volumeRoot h hi h₀ hvol hparent
  have hreleased := hpool.trans (releaseLookupOpenfile_pool hof volumes₁)
  cases p with
  | none =>
      cases hcall
      exact ⟨rfl, hreleased⟩
  | some parent =>
      rw [changeFound] at hcall
      dsimp only at hcall
      rw [if_pos (hrejected parent rfl)] at hcall
      cases hcall
      exact ⟨rfl, hreleased⟩

end

/-! ### Every call -/

/-- A call of the file manager on a path. -/
inductive PathCall where
  | lookup
  | ls (max_entries : Int)
  | create_file
  | remove_file
  | mkdir
  | rmdir

/-- The calls that look up the parent of the path and change it. -/
def PathCall.Changes : PathCall → Prop
  | .lookup | .ls _ => False
  | _ => True

inductive PathResult where
  | openfile (file : Option (Fin MAX_OPENFILE_COUNT))
  | entries (entries : Option (List LsEntry))
  | ret (r : Int)

/-- The null pointer or -1. -/
def PathResult.Failed : PathResult → Prop
  | .openfile file => file = none
  | .entries found => found = none
  | .ret r => r = -1

def PathCall.run {n : Nat} (c : PathCall) (s : Files n) (fs_table : FsTable) (volumes : Disks) (cwd path : List Char) :
    SysuOs.Outcome ((PathResult × Files n) × Disks) :=
  match c with
  | .lookup => lookupCall s fs_table volumes cwd path >>= fun r => .ret ((.openfile r.1.1, r.1.2.2), r.2)
  | .ls max_entries => Vfs.ls s fs_table volumes cwd path max_entries >>= fun r => .ret ((.entries r.1.1, r.1.2), r.2)
  | .create_file => createFile s fs_table volumes cwd path >>= fun r => .ret ((.ret r.1.1, r.1.2), r.2)
  | .remove_file => removeFile s fs_table volumes cwd path >>= fun r => .ret ((.ret r.1.1, r.1.2), r.2)
  | .mkdir => Vfs.mkdir s fs_table volumes cwd path >>= fun r => .ret ((.ret r.1.1, r.1.2), r.2)
  | .rmdir => Vfs.rmdir s fs_table volumes cwd path >>= fun r => .ret ((.ret r.1.1, r.1.2), r.2)

section

variable {n : Nat} {fs_table : FsTable} {cwd path rest : List Char} {i : Fin MAX_DISK_COUNT}

theorem changeParent_unresolved (act : FatVolume → Option Nat → List Byte → SysuOs.Outcome (Bool × FatVolume))
    (h : Vfs.resolve fs_table cwd path = none) (s : Files n) (volumes : Disks) :
    changeParent act s fs_table volumes cwd path = .ret ((-1, s), volumes) := by
  rw [changeParent_eq, resolveParent_none h]
  rfl

theorem PathCall.run_unresolved (h : Vfs.resolve fs_table cwd path = none) (c : PathCall) (s : Files n)
    (volumes : Disks) : ∃ r, c.run s fs_table volumes cwd path = .ret ((r, s), volumes) ∧ r.Failed := by
  cases c with
  | lookup =>
      refine ⟨.openfile none, ?_, rfl⟩
      rw [run, lookupCall, lookupPath, h]
      rfl
  | ls max_entries =>
      refine ⟨.entries none, ?_, rfl⟩
      have hls : Vfs.ls s fs_table volumes cwd path max_entries = .ret ((none, s), volumes) := by
        rw [Vfs.ls]
        split
        · rfl
        · cases hnormalize : normalizePath cwd path with
          | none => rfl
          | some normalized =>
              rw [Vfs.resolve, hnormalize, Option.bind_some] at h
              dsimp only
              rw [h]
              rfl
      rw [run, hls]
      rfl
  | create_file =>
      refine ⟨.ret (-1), ?_, rfl⟩
      rw [run, createFile, changeParent_unresolved _ h]
      rfl
  | remove_file =>
      refine ⟨.ret (-1), ?_, rfl⟩
      rw [run, removeFile, changeParent_unresolved _ h]
      rfl
  | mkdir =>
      refine ⟨.ret (-1), ?_, rfl⟩
      rw [run, Vfs.mkdir, changeParent_unresolved _ h]
      rfl
  | rmdir =>
      refine ⟨.ret (-1), ?_, rfl⟩
      rw [run, Vfs.rmdir, changeParent_unresolved _ h]
      rfl

theorem PathCall.run_only (h : Vfs.resolve fs_table cwd path = some (i, rest)) (c : PathCall)
    (hc : ¬ (c.Changes ∧ rest = [] ∧ i ≠ 0)) (s : Files n) :
    OnlyVolume i fun volumes => c.run s fs_table volumes cwd path := by
  have hchange : c.Changes → ∀ act, OnlyVolume i fun volumes =>
      changeParent act s fs_table volumes cwd path >>= fun r => .ret ((PathResult.ret r.1.1, r.1.2), r.2) :=
    fun hchanges act => (changeParent_only act h (fun hroot => hc ⟨hchanges, hroot⟩) s).map
      fun r => (PathResult.ret r.1, r.2)
  cases c with
  | lookup => exact (lookupCall_only h s).map fun r => (PathResult.openfile r.1, r.2.2)
  | ls max_entries => exact (ls_only h s max_entries).map fun r => (PathResult.entries r.1, r.2)
  | create_file => exact hchange trivial _
  | remove_file => exact hchange trivial _
  | mkdir => exact hchange trivial _
  | rmdir => exact hchange trivial _

theorem PathCall.run_volumeRoot (h : Vfs.resolve fs_table cwd path = some (i, [])) (hi : i ≠ 0) {c : PathCall}
    (hc : c.Changes) {s s' : Files n} {volumes volumes' : Disks} (h₀ : Reached 0 (volumes 0))
    (hvol : Reached i (volumes i)) {r : PathResult}
    (hcall : c.run s fs_table volumes cwd path = .ret ((r, s'), volumes')) :
    r.Failed ∧ PoolOfRoot volumes volumes' := by
  have hchange : ∀ act, (changeParent act s fs_table volumes cwd path >>= fun r =>
      .ret ((PathResult.ret r.1.1, r.1.2), r.2)) = .ret ((r, s'), volumes') →
      r.Failed ∧ PoolOfRoot volumes volumes' := by
    intro act hact
    obtain ⟨⟨⟨r₁, s₁⟩, volumes₁⟩, hparent, hret⟩ := Outcome.bind_eq_ret hact
    cases hret
    exact changeParent_volumeRoot act h hi h₀ hvol hparent
  cases c with
  | lookup => exact hc.elim
  | ls max_entries => exact hc.elim
  | create_file => exact hchange _ hcall
  | remove_file => exact hchange _ hcall
  | mkdir => exact hchange _ hcall
  | rmdir => exact hchange _ hcall

/-- An inode of the volume in a slot, which its `fat12_fs` names. -/
def InodeOf (i : Fin MAX_DISK_COUNT) (volumes : Disks) (node : Inode) : Prop :=
  node.fat12_fs = i ∧ ((volumes i).inodepool.inodes node.place).fat12Fs = (volumes i).fs.this

theorem lookupCall_inode (h : Vfs.resolve fs_table cwd path = some (i, rest)) {s s' : Files n} {volumes volumes' : Disks}
    (hvol : Reached i (volumes i)) {k : Fin MAX_OPENFILE_COUNT} {visits : List Visit}
    (hcall : lookupCall s fs_table volumes cwd path = .ret ((some k, visits, s'), volumes')) :
    ∀ node ∈ (s'.openfile_table k).node, InodeOf i volumes' node := by
  cases htype : (fs_table i).type with
  | NONE =>
      rw [lookupCall, lookupPath_none h htype] at hcall
      cases hcall
  | FXT12 =>
      rw [lookupCall, lookupPath_eq h htype] at hcall
      obtain ⟨⟨file, visits', s₁, volumes₁⟩, hlookup, hret⟩ := Outcome.bind_eq_ret hcall
      cases hret
      obtain ⟨⟨⟨file', visits', s₁⟩, volumes₁⟩, hon, hret⟩ := Outcome.bind_eq_ret hlookup
      cases hret
      obtain ⟨⟨r, vol₁⟩, hin, hr⟩ := Outcome.bind_eq_ret hon
      cases hr
      intro node hnode
      refine ⟨(lookupIn_spec hin k rfl).node node hnode, ?_⟩
      obtain ⟨hthis, hinode⟩ := hvol.owned.lookupIn hin
      rw [Function.update_self, hthis]
      exact hinode k rfl node hnode

/-- A parent that passes its check is an inode of the volume of the path. -/
theorem resolveParent_inode (h : Vfs.resolve fs_table cwd path = some (i, rest)) {s s' : Files n}
    {volumes volumes' : Disks} (hvol : ∀ j, j = 0 ∨ j = i → Reached j (volumes j)) {parent : Parent}
    {file : Option (Fin MAX_OPENFILE_COUNT)}
    (hcall : resolveParent s fs_table volumes cwd path = .ret ((some parent, file, s'), volumes'))
    (haccepted : ¬ parent.Rejected volumes') :
    parent.slot = i ∧ ∀ node ∈ parent.node, InodeOf i volumes' node := by
  by_cases hroot : rest = [] ∧ i ≠ 0
  · obtain ⟨rfl, hi⟩ := hroot
    obtain ⟨-, hrejected, -⟩ := resolveParent_volumeRoot h hi (hvol 0 (Or.inl rfl)) (hvol i (Or.inr rfl)) hcall
    exact absurd (hrejected parent rfl) haccepted
  · have hin := (resolveParent_only h hroot s).2 volumes (some parent) file s' volumes' hcall
    refine ⟨hin.slot parent rfl, ?_⟩
    intro node hnode
    have hslot := hin.node parent rfl node hnode
    refine ⟨hslot, ?_⟩
    by_contra hother
    apply haccepted
    refine ⟨node, hnode, Or.inl ?_⟩
    rw [hslot, hin.slot parent rfl]
    exact hother

end

/-- The root of a volume mounted below `/mnt`, given to a call that changes the directory the path is in. -/
def AtVolumeRoot (c : PathCall) (i : Fin MAX_DISK_COUNT) (rest : List Char) : Prop := c.Changes ∧ rest = [] ∧ i ≠ 0

/-- A call on a path runs on the volume of the path, and finds and uses inodes of that volume only; one on a path
of no volume fails and changes nothing. A changing call on the root of a volume looks for `/mnt` in the volume of
slot 0: it fails, and changes no volume but for the inodes of that one. -/
theorem pathCall_isolated {n : Nat} (s : Files n) (fs_table : FsTable) (cwd path : List Char) (c : PathCall) :
    (Vfs.resolve fs_table cwd path = none →
      ∀ volumes, ∃ r, c.run s fs_table volumes cwd path = .ret ((r, s), volumes) ∧ r.Failed) ∧
    ∀ i rest, Vfs.resolve fs_table cwd path = some (i, rest) →
      (¬ AtVolumeRoot c i rest → OnlyVolume i fun volumes => c.run s fs_table volumes cwd path) ∧
      ∀ volumes, (∀ j, j = 0 ∨ j = i → Reached j (volumes j)) →
        (AtVolumeRoot c i rest → ∀ r s' volumes', c.run s fs_table volumes cwd path = .ret ((r, s'), volumes') →
          r.Failed ∧ PoolOfRoot volumes volumes') ∧
        (∀ k visits s' volumes', lookupCall s fs_table volumes cwd path = .ret ((some k, visits, s'), volumes') →
          ∀ node ∈ (s'.openfile_table k).node, InodeOf i volumes' node) ∧
        ∀ parent file s' volumes', resolveParent s fs_table volumes cwd path =
          .ret ((some parent, file, s'), volumes') → ¬ parent.Rejected volumes' →
            parent.slot = i ∧ ∀ node ∈ parent.node, InodeOf i volumes' node := by
  refine ⟨fun h volumes => c.run_unresolved h s volumes, ?_⟩
  intro i rest h
  refine ⟨fun hc => c.run_only h hc s, ?_⟩
  intro volumes hvol
  refine ⟨?_, ?_, ?_⟩
  · rintro ⟨hchanges, rfl, hi⟩ r s' volumes' hcall
    exact PathCall.run_volumeRoot h hi hchanges (hvol 0 (Or.inl rfl)) (hvol i (Or.inr rfl)) hcall
  · intro k visits s' volumes' hcall
    exact lookupCall_inode h (hvol i (Or.inr rfl)) hcall
  · intro parent file s' volumes' hcall haccepted
    exact resolveParent_inode h hvol hcall haccepted

/-! ### What a lookup finds -/

section

variable {n : Nat} {fs_table : FsTable} {cwd path rest : List Char} {i : Fin MAX_DISK_COUNT}

/-- The slot whose volume is at an address. -/
def slotAt (this : Nat) : Option (Fin MAX_DISK_COUNT) :=
  (List.finRange MAX_DISK_COUNT).find? fun slot => fat12FromSlot slot = this

theorem slotAt_fat12FromSlot (slot : Fin MAX_DISK_COUNT) : slotAt (fat12FromSlot slot) = some slot := by
  have hsome : (slotAt (fat12FromSlot slot)).isSome :=
    List.find?_isSome.mpr ⟨slot, List.mem_finRange slot, decide_eq_true rfl⟩
  obtain ⟨slot', h⟩ := Option.isSome_iff_exists.mp hsome
  rw [h]
  rw [slotAt] at h
  have heq := List.find?_some h
  rw [fat12FromSlot_injective (of_decide_eq_true heq)]

/-- An inode that was found, with the slot of the volume that it names itself. -/
def inodeOf (pool : InodePool) (found : Found) : Option Inode :=
  (slotAt (pool.inodes found.place).fat12Fs).map fun slot => ⟨slot, found.place⟩

theorem Owns.inodeOf {slot : Fin MAX_DISK_COUNT} {vol : FatVolume} {found : Found}
    (h : Owns (fat12FromSlot slot) vol (some found)) : inodeOf vol.inodepool found = some ⟨slot, found.place⟩ := by
  rw [Vfs.inodeOf, h found rfl, slotAt_fat12FromSlot]
  rfl

/-- What `FAT12_FS::lookup` finds in the volumes of the slots. -/
def findIn (volumes : Disks) (slot : Fin MAX_DISK_COUNT) (dir : Option Inode) (name : List Char) : Option Inode :=
  match (volumes slot).lookup (dir.map Inode.place) (bytesOf name) with
  | .ret (found, _, vol) => found.bind (inodeOf vol.inodepool)
  | .halt => none
  | .diverge => none

/-- Mounted volumes after any calls, as descriptors are opened in them. -/
def volumesOf (volumes : Disks) (hreached : ∀ slot, Reached slot (volumes slot)) : Volumes where
  lookup := findIn volumes
  own := by
    intro slot dir name node h
    rw [findIn] at h
    cases hlookup : (volumes slot).lookup (dir.map Inode.place) (bytesOf name) with
    | ret r =>
        obtain ⟨found, clusters, vol⟩ := r
        rw [hlookup] at h
        obtain ⟨f, rfl, hf⟩ := Option.bind_eq_some_iff.mp h
        rw [((hreached slot).owned.lookup hlookup).2.inodeOf] at hf
        cases hf
        rfl
    | halt =>
        rw [hlookup] at h
        cases h
    | diverge =>
        rw [hlookup] at h
        cases h

theorem findIn_root {volumes : Disks} (h : Reached i (volumes i)) (name : List Char) :
    findIn volumes i none name =
      ((volumes i).lookupRoot (bytesOf name)).1.map fun found => ⟨i, found.place⟩ := by
  have hlookup : (volumes i).lookup none (bytesOf name) =
      .ret (((volumes i).lookupRoot (bytesOf name)).1, [], ((volumes i).lookupRoot (bytesOf name)).2) := rfl
  have howns := (h.owned.lookup hlookup).2
  rw [findIn, Option.map_none, hlookup]
  dsimp only
  cases hfound : ((volumes i).lookupRoot (bytesOf name)).1 with
  | none => rfl
  | some found =>
      rw [hfound] at howns
      exact howns.inodeOf

variable {component tail : List Char}

theorem walk_root {volumes : Volumes} (hname : pathNextComponent rest = .next component tail)
    (hend : pathNextComponent tail = .none) :
    walk volumes i none rest = (volumes.lookup i none component).map some := by
  have htail : ∀ next, walk volumes i (some next) tail = some (some next) := by
    intro next
    rw [walk]
    split
    · rename_i hlong
      cases hlong.symm.trans hend
    · rfl
    · rename_i hnext
      cases hnext.symm.trans hend
  rw [walk]
  split
  · rename_i hlong
    cases hlong.symm.trans hname
  · rename_i hnone
    cases hnone.symm.trans hname
  · rename_i hnext
    cases hnext.symm.trans hname
    split
    · rename_i hfound
      rw [hfound]
      rfl
    · rename_i next hfound
      rw [hfound, htail]
      rfl

theorem walkPath_root (hname : pathNextComponent rest = .next component tail) (hend : pathNextComponent tail = .none)
    (vol : FatVolume) :
    walkPath (rest.length + 1) vol none rest =
      .ret ((vol.lookupRoot (bytesOf component)).1.map some, [], (vol.lookupRoot (bytesOf component)).2) := by
  have htail : ∀ fuel, 0 < fuel → ∀ vol next, walkPath fuel vol (some next) tail = .ret (some (some next), [], vol) := by
    intro fuel hfuel vol next
    obtain ⟨fuel, rfl⟩ := Nat.exists_eq_add_one_of_ne_zero hfuel.ne'
    rw [walkPath, hend]
    rfl
  have hlength : 0 < rest.length := Nat.zero_lt_of_lt (pathNextComponent_rest hname)
  have hlookup : vol.lookup none (bytesOf component) =
      .ret ((vol.lookupRoot (bytesOf component)).1, [], (vol.lookupRoot (bytesOf component)).2) := rfl
  rw [walkPath, hname]
  dsimp only
  rw [Option.map_none, hlookup, Outcome.ret_bind]
  dsimp only
  cases (vol.lookupRoot (bytesOf component)).1 with
  | none => rfl
  | some next =>
      dsimp only
      rw [htail _ hlength]
      rfl

/-- A name in a volume's root directory leads where `lookup` on these volumes takes it. -/
theorem lookupPath_volumesOf (h : Vfs.resolve fs_table cwd path = some (i, rest)) (htype : (fs_table i).type = .FXT12)
    (hname : pathNextComponent rest = .next component tail) (hend : pathNextComponent tail = .none) (s : Files n)
    {volumes : Disks} (hreached : ∀ slot, Reached slot (volumes slot)) :
    ∃ visits volumes', lookupPath s fs_table volumes cwd path =
      .ret (((s.lookup fs_table (volumesOf volumes hreached) cwd path).map fun r => r.2.1), visits,
        ((s.lookup fs_table (volumesOf volumes hreached) cwd path).map fun r => r.2.2).getD s, volumes') := by
  have hwalk : walk (volumesOf volumes hreached) i none rest =
      ((volumes i).lookupRoot (bytesOf component)).1.map fun found => some ⟨i, found.place⟩ := by
    rw [walk_root hname hend]
    exact (congrArg (Option.map some) (findIn_root (hreached i) component)).trans (Option.map_map _ _ _)
  rw [lookupPath, Files.lookup, Files.find, h]
  dsimp only
  rw [htype]
  dsimp only
  rw [hwalk, walkPath_root hname hend, Outcome.ret_bind]
  cases ((volumes i).lookupRoot (bytesOf component)).1 with
  | none => exact ⟨_, _, rfl⟩
  | some found =>
      simp only [Option.map_some]
      rw [htype]
      cases s.enter .FXT12 (some ⟨i, found.place⟩) with
      | none => exact ⟨_, _, rfl⟩
      | some r => exact ⟨_, _, rfl⟩

end

/-! ### Two volumes -/

/-- A volume at the address of slot 1 is mounted as `d`. -/
def mountedD : FsTable := fun slot =>
  if slot = 0 then ⟨['/'], .FXT12, .PrimaryMaster, true⟩
  else if slot = 1 then ⟨['d'], .FXT12, .PrimarySlave, true⟩
  else .zero

/-- The root directory of slot 0 has an entry `mnt`. -/
def withMnt : Disks := fun slot =>
  { entryInFile with
    fs := { entryInFile.fs with
      this := fat12FromSlot slot
      rootDir := fun idx =>
        if idx = 0 then { EntryBuf.reset.normalizedEntry with name := bytesOf mnt, startCluster := 2, attr := DIRECTORY }
        else EntryBuf.reset.normalizedEntry } }

theorem withMnt_reached (i : Fin MAX_DISK_COUNT) : Reached i (withMnt i) := by
  have h := FatVolume.entryInFile_freshlyMounted
  exact ⟨withMnt i, ⟨h.reliable, h.bpb, h.clusterSize, h.rootEntries, h.dataStartSector, h.cachePool, h.inodepool⟩,
    rfl, .start⟩

theorem resolve_mntD : Vfs.resolve mountedD [] ['/', 'm', 'n', 't', '/', 'd'] = some (1, []) := by decide

theorem pathCall_isolated_mountedD :
    OnlyVolume 1 (fun volumes => PathCall.create_file.run noFiles mountedD volumes []
      ['/', 'm', 'n', 't', '/', 'd', '/', 'a']) ∧
    ∀ r s' volumes', PathCall.mkdir.run noFiles mountedD withMnt [] ['/', 'm', 'n', 't', '/', 'd'] =
      .ret ((r, s'), volumes') → r.Failed ∧ PoolOfRoot withMnt volumes' := by
  refine ⟨?_, ?_⟩
  · have hres : Vfs.resolve mountedD [] ['/', 'm', 'n', 't', '/', 'd', '/', 'a'] = some (1, ['a']) := by decide
    exact ((pathCall_isolated noFiles mountedD [] _ .create_file).2 1 ['a'] hres).1 (by rintro ⟨-, ⟨⟩, -⟩)
  · exact (((pathCall_isolated noFiles mountedD [] _ .mkdir).2 1 [] resolve_mntD).2 withMnt
      fun j _ => withMnt_reached j).1 ⟨trivial, rfl, by decide⟩

/-- An inode of the volume of slot 0 is taken for `/mnt`. -/
theorem not_onlyVolume_mntD : Vfs.resolve mountedD [] ['/', 'm', 'n', 't', '/', 'd'] = some (1, []) ∧
    ¬ OnlyVolume 1 fun volumes => PathCall.create_file.run noFiles mountedD volumes [] ['/', 'm', 'n', 't', '/', 'd'] := by
  refine ⟨resolve_mntD, ?_⟩
  rintro ⟨f, hf⟩
  have hrun : (PathCall.create_file.run noFiles mountedD withMnt [] ['/', 'm', 'n', 't', '/', 'd'] >>=
      fun r => .ret ((r.2 0).inodepool.inodes 0).startCluster).getD 0 = 2 := by
    decide +kernel
  have hwithMnt := hf withMnt
  dsimp only at hwithMnt
  rw [hwithMnt] at hrun
  cases hvol : f (withMnt 1) with
  | ret r =>
      rw [hvol] at hrun
      simp only [Outcome.ret_bind, Outcome.pure_eq] at hrun
      rw [Function.update_of_ne (by decide)] at hrun
      cases hrun
  | halt =>
      rw [hvol] at hrun
      cases hrun
  | diverge =>
      rw [hvol] at hrun
      cases hrun

end SysuOs.Vfs
