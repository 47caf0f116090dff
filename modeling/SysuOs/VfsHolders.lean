import SysuOs.VfsDescriptors
import SysuOs.VfsVolumes

/-! The references that open files hold to inodes. Each volume counts them, so that an inode is not given to another
file while an open file has it. -/

namespace SysuOs.Vfs

open Finset FatVolume

/-! ### References of inodes -/

/-- One reference for the inode that has been found. -/
def owed (found : Option Found) (place : Nat) : Nat := if found.map Found.place = some place then 1 else 0

theorem owed_none : owed none = 0 := rfl

/-- Each reference to an inode of the pool is counted, and the inode in use. -/
structure Owes (claims : Nat → Nat) (pool : InodePool) : Prop where
  counted : ∀ place, claims place ≤ pool.refcount place
  used : ∀ place, 0 < claims place → pool.bitmap place = true

/-- The inodes that are referred to have the sizes they had. -/
def SameSizes (claims : Nat → Nat) (pool pool' : InodePool) : Prop :=
  ∀ place, 0 < claims place → (pool'.inodes place).size = (pool.inodes place).size

section

variable {claims claims' : Nat → Nat} {pool pool' pool'' : InodePool} {vol vol' : FatVolume}

theorem Owes.mono (h : Owes claims pool) (hle : ∀ place, claims' place ≤ claims place) : Owes claims' pool where
  counted place := (hle place).trans (h.counted place)
  used place hpos := h.used place (lt_of_lt_of_le hpos (hle place))

theorem SameSizes.refl (claims : Nat → Nat) (pool : InodePool) : SameSizes claims pool pool := fun _ _ => rfl

theorem SameSizes.trans (h : SameSizes claims pool pool') (h' : SameSizes claims pool' pool'') :
    SameSizes claims pool pool'' :=
  fun place hpos => (h' place hpos).trans (h place hpos)

theorem SameSizes.mono (h : SameSizes claims pool pool') (hle : ∀ place, claims' place ≤ claims place) :
    SameSizes claims' pool pool' :=
  fun place hpos => h place (lt_of_lt_of_le hpos (hle place))

theorem SameSizes.releaseInode (claims : Nat → Nat) (vol : FatVolume) (place : Nat) :
    SameSizes claims vol.inodepool (vol.releaseInode place).inodepool := by
  intro p _
  rw [FatVolume.releaseInode]
  split <;> rfl

/-- An inode is released by the one who refers to it. -/
theorem Owes.releaseInode {place : Nat} (h : Owes claims vol.inodepool)
    (hle : ∀ p, claims' p + (if p = place then 1 else 0) ≤ claims p) :
    Owes claims' (vol.releaseInode place).inodepool := by
  have hcounted := h.counted
  have hused := h.used
  rw [FatVolume.releaseInode]
  split
  · constructor
    · intro p
      have hle := hle p
      have hcounted := hcounted p
      by_cases hp : p = place
      · subst hp
        simp only [Function.update_self]
        rw [if_pos rfl] at hle
        omega
      · simp only [Function.update_of_ne hp]
        omega
    · intro p hpos
      have hle := hle p
      have hcounted := hcounted p
      have hin := hused p (by omega)
      dsimp only
      split
      · rename_i hlast
        by_cases hp : p = place
        · subst hp
          rw [if_pos rfl] at hle
          omega
        · rw [Function.update_of_ne hp]
          exact hin
      · exact hin
  · exact h.mono fun p => (Nat.le_add_right _ _).trans (hle p)

theorem Owes.releaseCurrent {current : Option Found} (h : Owes (claims + owed current) vol.inodepool) :
    Owes claims (vol.releaseCurrent current).inodepool := by
  cases current with
  | none => exact h
  | some current =>
      refine Owes.releaseInode h ?_
      intro p
      simp only [Pi.add_apply, owed, Option.map_some, Option.some.injEq, eq_comm (a := current.place)]
      exact le_refl _

theorem SameSizes.releaseCurrent (claims : Nat → Nat) (vol : FatVolume) (current : Option Found) :
    SameSizes claims vol.inodepool (vol.releaseCurrent current).inodepool := by
  cases current with
  | none => exact SameSizes.refl claims vol.inodepool
  | some current => exact SameSizes.releaseInode claims vol current.place

/-- The inode taken is one in use, or one that nothing refers to. -/
theorem Owes.takeInode (h : Owes claims vol.inodepool) (entry : NormalizedEntry) (location : EntryLocation) :
    Owes (claims + owed (vol.takeInode entry location).1) (vol.takeInode entry location).2.inodepool ∧
      SameSizes claims vol.inodepool (vol.takeInode entry location).2.inodepool := by
  rcases takeInode_cases vol entry location with ⟨i, hused, -, heq⟩ | heq | ⟨i, hfree, heq⟩
  · rw [heq]
    refine ⟨⟨?_, ?_⟩, ?_⟩
    · intro p
      have hcounted := h.counted p
      by_cases hp : p = i
      · subst hp
        simpa [owed] using hcounted
      · simpa [owed, Function.update_of_ne hp, Ne.symm hp] using hcounted
    · intro p hpos
      by_cases hp : p = i
      · rw [hp]
        exact hused
      · refine h.used p ?_
        simpa [owed, Ne.symm hp] using hpos
    · intro p _
      by_cases hp : p = i
      · subst hp
        simp
      · simp [Function.update_of_ne hp]
  · rw [heq]
    exact ⟨h, SameSizes.refl claims vol.inodepool⟩
  · rw [heq]
    have hzero : claims i = 0 := by
      by_contra hne
      have hin := h.used i (Nat.pos_of_ne_zero hne)
      rw [hfree] at hin
      cases hin
    refine ⟨⟨?_, ?_⟩, ?_⟩
    · intro p
      have hcounted := h.counted p
      by_cases hp : p = i
      · subst hp
        simp [owed, hzero]
      · simpa [owed, Function.update_of_ne hp, Ne.symm hp] using hcounted
    · intro p hpos
      by_cases hp : p = i
      · subst hp
        simp
      · simp only [Function.update_of_ne hp]
        refine h.used p ?_
        simpa [owed, Ne.symm hp] using hpos
    · intro p hpos
      have hp : p ≠ i := by
        rintro rfl
        omega
      simp only [Function.update_of_ne hp]

theorem Owes.lookupLoop {name : List Byte} {fuel cluster : Nat} {found : Option Found} {clusters : List Nat}
    (h : Owes claims vol.inodepool) (hlookup : FatVolume.lookupLoop name fuel cluster vol = .ret (found, clusters, vol')) :
    Owes (claims + owed found) vol'.inodepool ∧ SameSizes claims vol.inodepool vol'.inodepool := by
  induction fuel generalizing vol cluster found clusters with
  | zero => cases hlookup
  | succ fuel ih =>
      rw [FatVolume.lookupLoop] at hlookup
      split at hlookup
      · obtain ⟨⟨cache, fs₁⟩, -, hlookup⟩ := Outcome.bind_eq_ret hlookup
        cases cache with
        | none =>
            cases hlookup
            exact ⟨h, SameSizes.refl claims _⟩
        | some i =>
            dsimp only at hlookup
            split at hlookup
            · rename_i k entry _
              obtain ⟨fs₂, -, hlookup⟩ := Outcome.bind_eq_ret hlookup
              cases hlookup
              exact @Owes.takeInode claims { vol with fs := fs₁ } h entry ⟨false, cluster, k, 0⟩
            · obtain ⟨fs₂, -, hlookup⟩ := Outcome.bind_eq_ret hlookup
              cases hlookup
              exact ⟨h, SameSizes.refl claims _⟩
            · obtain ⟨fs₂, -, hlookup⟩ := Outcome.bind_eq_ret hlookup
              obtain ⟨⟨found', clusters', vol₂⟩, hrest, hlookup⟩ := Outcome.bind_eq_ret hlookup
              cases hlookup
              exact @ih { vol with fs := fs₂ } _ _ _ h hrest
      · cases hlookup
        exact ⟨h, SameSizes.refl claims _⟩

theorem Owes.lookup {dir : Option Nat} {name : List Byte} {found : Option Found} {clusters : List Nat}
    (h : Owes claims vol.inodepool) (hlookup : vol.lookup dir name = .ret (found, clusters, vol')) :
    Owes (claims + owed found) vol'.inodepool ∧ SameSizes claims vol.inodepool vol'.inodepool := by
  cases dir with
  | none =>
      have hroot : vol.lookupRoot name = (found, vol') := by
        have hret := Outcome.ret.inj hlookup
        exact Prod.ext (Prod.mk.inj hret).1 (Prod.mk.inj (Prod.mk.inj hret).2).2
      rw [FatVolume.lookupRoot] at hroot
      split at hroot
      · obtain ⟨rfl, rfl⟩ := Prod.mk.inj hroot
        exact ⟨h, SameSizes.refl claims _⟩
      · rename_i idx _
        have htake := h.takeInode (vol.fs.rootDir idx) ⟨true, 0, 0, idx⟩
        rw [hroot] at htake
        exact htake
  | some place =>
      rw [FatVolume.lookup] at hlookup
      split at hlookup
      · cases hlookup
        exact ⟨h, SameSizes.refl claims _⟩
      · exact h.lookupLoop hlookup

/-- A walk refers to the inode it ends at, and to no other any more. -/
theorem Owes.walkPath {fuel : Nat} {current : Option Found} {path : List Char} {node : Option (Option Found)}
    {visits : List Visit} (h : Owes (claims + owed current) vol.inodepool)
    (hwalk : walkPath fuel vol current path = .ret (node, visits, vol')) :
    Owes (claims + owed node.join) vol'.inodepool ∧ SameSizes claims vol.inodepool vol'.inodepool := by
  induction fuel generalizing vol current path node visits with
  | zero => cases hwalk
  | succ fuel ih =>
      rw [Vfs.walkPath] at hwalk
      split at hwalk
      · cases hwalk
        exact ⟨h.releaseCurrent, SameSizes.releaseCurrent claims vol current⟩
      · cases hwalk
        exact ⟨h, SameSizes.refl claims _⟩
      · obtain ⟨⟨next, clusters, vol₁⟩, hlookup, hwalk⟩ := Outcome.bind_eq_ret hwalk
        obtain ⟨howes, hsizes⟩ := h.lookup hlookup
        rw [add_right_comm] at howes
        have hreleased := howes.releaseCurrent
        have hsame : SameSizes claims vol.inodepool (vol₁.releaseCurrent current).inodepool :=
          (hsizes.mono fun p => Nat.le_add_right _ _).trans (SameSizes.releaseCurrent claims vol₁ current)
        cases next with
        | none =>
            cases hwalk
            exact ⟨hreleased, hsame⟩
        | some next =>
            obtain ⟨⟨node', visits', vol₂⟩, hrest, hwalk⟩ := Outcome.bind_eq_ret hwalk
            cases hwalk
            obtain ⟨hends, hrest⟩ := ih hreleased hrest
            exact ⟨hends, hsame.trans hrest⟩

end

/-! ### Open files -/

section

variable {n : Nat} {s s' : Files n} {volumes volumes' : Disks}

/-- Whether an entry of the open-file table refers to an inode. -/
def Files.holds (s : Files n) (node : Inode) (i : Fin MAX_OPENFILE_COUNT) : Nat :=
  if s.openfile_map i = true ∧ (s.openfile_table i).node = some node then 1 else 0

/-- How many entries do. -/
def Files.holders (s : Files n) (slot : Fin MAX_DISK_COUNT) (place : Nat) : Nat := ∑ i, s.holds ⟨slot, place⟩ i

theorem holders_congr (hmap : s'.openfile_map = s.openfile_map)
    (hnode : ∀ i, (s'.openfile_table i).node = (s.openfile_table i).node) : s'.holders = s.holders := by
  funext slot place
  unfold Files.holders Files.holds
  rw [hmap]
  simp only [hnode]

theorem holders_pos {i : Fin MAX_OPENFILE_COUNT} {node : Inode} (hmap : s.openfile_map i = true)
    (hnode : (s.openfile_table i).node = some node) : 0 < s.holders node.fat12_fs node.place := by
  have hone : s.holds node i = 1 := if_pos ⟨hmap, hnode⟩
  have hle := single_le_sum (fun k _ => Nat.zero_le (s.holds node k)) (mem_univ i)
  show 0 < ∑ k, s.holds node k
  omega

/-- Only one entry is changed. -/
theorem holders_update {i : Fin MAX_OPENFILE_COUNT} (hmap : ∀ j, j ≠ i → s'.openfile_map j = s.openfile_map j)
    (htable : ∀ j, j ≠ i → s'.openfile_table j = s.openfile_table j) (slot : Fin MAX_DISK_COUNT) (place : Nat) :
    s'.holders slot place + s.holds ⟨slot, place⟩ i = s.holders slot place + s'.holds ⟨slot, place⟩ i := by
  have hnew := add_sum_erase univ (s'.holds ⟨slot, place⟩) (mem_univ i)
  have hold := add_sum_erase univ (s.holds ⟨slot, place⟩) (mem_univ i)
  have hrest : ∑ j ∈ univ.erase i, s'.holds ⟨slot, place⟩ j = ∑ j ∈ univ.erase i, s.holds ⟨slot, place⟩ j := by
    apply sum_congr rfl
    intro j hj
    have hne := ne_of_mem_erase hj
    unfold Files.holds
    rw [hmap j hne, htable j hne]
  unfold Files.holders
  omega

/-- Each volume counts the references of the open files to its inodes. -/
def Pools (s : Files n) (volumes : Disks) : Prop := ∀ slot, Owes (s.holders slot) (volumes slot).inodepool

/-- The inodes of the open files have the sizes they had. -/
def SizesKept (s : Files n) (volumes volumes' : Disks) : Prop :=
  ∀ slot, SameSizes (s.holders slot) (volumes slot).inodepool (volumes' slot).inodepool

theorem Pools.congr (h : Pools s volumes) (hholders : s'.holders = s.holders) : Pools s' volumes := by
  unfold Pools
  rw [hholders]
  exact h

theorem SizesKept.refl (s : Files n) (volumes : Disks) : SizesKept s volumes volumes :=
  fun _ => SameSizes.refl _ _

/-- The volume of one slot is changed. -/
theorem Pools.update (h : Pools s volumes) {slot : Fin MAX_DISK_COUNT} {vol : FatVolume}
    (hsame : ∀ other, other ≠ slot → ∀ place, s'.holders other place ≤ s.holders other place)
    (hvol : Owes (s'.holders slot) vol.inodepool) : Pools s' (Function.update volumes slot vol) := by
  intro other
  by_cases hother : other = slot
  · subst hother
    rw [Function.update_self]
    exact hvol
  · rw [Function.update_of_ne hother]
    exact (h other).mono (hsame other hother)

theorem SizesKept.update {slot : Fin MAX_DISK_COUNT} {vol : FatVolume}
    (h : SameSizes (s.holders slot) (volumes slot).inodepool vol.inodepool) :
    SizesKept s volumes (Function.update volumes slot vol) := by
  intro other
  by_cases hother : other = slot
  · subst hother
    rw [Function.update_self]
    exact h
  · rw [Function.update_of_ne hother]
    exact SameSizes.refl _ _

/-- An open file is released, and with it its reference. -/
theorem Pools.releaseOpenfile (h : Pools s volumes) {i : Fin MAX_OPENFILE_COUNT} (hmap : s.openfile_map i = true) :
    Pools (s.releaseOpenfile i) (releaseOpenfileNode volumes (s.openfile_table i)) := by
  have hupdate : ∀ slot place, (s.releaseOpenfile i).holders slot place + s.holds ⟨slot, place⟩ i =
      s.holders slot place := by
    intro slot place
    have hzero : (s.releaseOpenfile i).holds ⟨slot, place⟩ i = 0 :=
      if_neg (by simp [Files.releaseOpenfile])
    have hsum := @holders_update n s (s.releaseOpenfile i) i (fun j hj => Function.update_of_ne hj ..)
      (fun j hj => Function.update_of_ne hj ..) slot place
    omega
  have hle : ∀ slot place, (s.releaseOpenfile i).holders slot place ≤ s.holders slot place := by
    intro slot place
    have := hupdate slot place
    omega
  unfold releaseOpenfileNode
  split
  · rename_i node _ hnode
    refine h.update (fun other _ => hle other) ?_
    refine (h node.fat12_fs).releaseInode ?_
    intro p
    rw [← hupdate node.fat12_fs p]
    apply Nat.add_le_add_left
    by_cases hp : p = node.place
    · subst hp
      rw [if_pos rfl, Files.holds, if_pos ⟨hmap, hnode⟩]
    · rw [if_neg hp]
      exact Nat.zero_le _
  · intro slot
    exact (h slot).mono (hle slot)

theorem releaseOpenfileNode_inodes (volumes : Disks) (openfile : OpenFile) (slot : Fin MAX_DISK_COUNT) :
    (releaseOpenfileNode volumes openfile slot).inodepool.inodes = (volumes slot).inodepool.inodes := by
  cases htype : openfile.type with
  | NONE => simp only [releaseOpenfileNode, htype]
  | FXT12 =>
      cases hnode : openfile.node with
      | none => simp only [releaseOpenfileNode, htype, hnode]
      | some node =>
          simp only [releaseOpenfileNode, htype, hnode]
          by_cases hslot : slot = node.fat12_fs
          · rw [hslot, Function.update_self, FatVolume.releaseInode]
            split <;> rfl
          · rw [Function.update_of_ne hslot]

/-- What `enter` does to the references. -/
theorem holders_enter {type : FsType} {node : Option Inode} {i : Fin MAX_OPENFILE_COUNT}
    (h : s.enter type node = some (i, s')) :
    ((s.findOpenfile type node).isSome → s' = s) ∧
      (∀ slot place, s'.holders slot place = s.holders slot place +
        if (s.findOpenfile type node).isNone ∧ node = some ⟨slot, place⟩ then 1 else 0) ∧
      ∀ j, s.openfile_map j = true → (s'.openfile_table j).node = (s.openfile_table j).node := by
  unfold Files.enter at h
  split at h
  · rename_i j hfind
    simp only [Option.some.injEq, Prod.mk.injEq] at h
    obtain ⟨rfl, rfl⟩ := h
    simp [hfind]
  · rename_i hfind
    split at h
    · cases h
    · rename_i j hfree
      simp only [Option.some.injEq, Prod.mk.injEq] at h
      obtain ⟨rfl, rfl⟩ := h
      have hunused : s.openfile_map j = false := by simpa using List.find?_some hfree
      refine ⟨by simp [hfind], ?_, ?_⟩
      · intro slot place
        have hold : s.holds ⟨slot, place⟩ j = 0 := if_neg (by simp [hunused])
        have hsum := @holders_update n s { s with
            openfile_map := Function.update s.openfile_map j true
            openfile_table := Function.update s.openfile_table j ⟨node, type, 0, 0⟩ } j
          (fun k hk => Function.update_of_ne hk ..) (fun k hk => Function.update_of_ne hk ..) slot place
        rw [hold] at hsum
        simp only [add_zero] at hsum
        rw [hsum, hfind]
        simp [Files.holds]
      · intro k hk
        have hkj : k ≠ j := by
          rintro rfl
          rw [hunused] at hk
          cases hk
        simp only [Function.update_of_ne hkj]

/-- `lookup` leaves as many references as open files hold. -/
theorem lookupPath_pools {fs_table : FsTable} {cwd path : List Char} {file : Option (Fin MAX_OPENFILE_COUNT)}
    {visits : List Visit} (h : Pools s volumes)
    (hlookup : lookupPath s fs_table volumes cwd path = .ret (file, visits, s', volumes')) :
    Pools s' volumes' ∧ SizesKept s volumes volumes' ∧
      ((file = none ∧ s' = s) ∨ ∃ i node, file = some i ∧ s.enter .FXT12 node = some (i, s')) := by
  unfold lookupPath at hlookup
  split at hlookup
  · cases hlookup
    exact ⟨h, SizesKept.refl s volumes, Or.inl ⟨rfl, rfl⟩⟩
  · rename_i slot rest _
    split at hlookup
    · cases hlookup
      exact ⟨h, SizesKept.refl s volumes, Or.inl ⟨rfl, rfl⟩⟩
    · obtain ⟨⟨node, visits', vol⟩, hwalk, hlookup⟩ := Outcome.bind_eq_ret hlookup
      have hstart : Owes (s.holders slot + owed none) (volumes slot).inodepool := by
        rw [owed_none, add_zero]
        exact h slot
      obtain ⟨howes, hsizes⟩ := hstart.walkPath hwalk
      cases node with
      | none =>
          rw [Option.join_none, owed_none, add_zero] at howes
          cases hlookup
          exact ⟨h.update (fun _ _ _ => le_refl _) howes, SizesKept.update hsizes, Or.inl ⟨rfl, rfl⟩⟩
      | some current =>
          rw [Option.join_some] at howes
          dsimp only at hlookup
          split at hlookup
          · cases hlookup
            refine ⟨h.update (fun _ _ _ => le_refl _) howes.releaseCurrent, SizesKept.update ?_, Or.inl ⟨rfl, rfl⟩⟩
            exact hsizes.trans (SameSizes.releaseCurrent _ vol current)
          · rename_i i files henter
            cases hlookup
            obtain ⟨hsame, hholders, -⟩ := holders_enter henter
            refine ⟨?_, SizesKept.update ?_, Or.inr ⟨i, _, rfl, henter⟩⟩
            · cases hfind : (s.findOpenfile .FXT12 (current.map fun found => Inode.mk slot found.place)).isSome with
              | true =>
                  rw [hsame hfind]
                  exact h.update (fun _ _ _ => le_refl _) howes.releaseCurrent
              | false =>
                  have hnone := Option.not_isSome_iff_eq_none.mp (by rw [hfind]; exact Bool.false_ne_true)
                  have hadded : ∀ other place, s'.holders other place =
                      s.holders other place + if other = slot then owed current place else 0 := by
                    intro other place
                    rw [hholders, hnone]
                    cases current with
                    | none => simp [owed]
                    | some found =>
                        by_cases hother : other = slot
                        · subst hother
                          simp [owed]
                        · simp [hother, Ne.symm hother]
                  refine h.update ?_ ?_
                  · intro other hother place
                    rw [hadded, if_neg hother, add_zero]
                  · have heq : s'.holders slot = s.holders slot + owed current := by
                      funext place
                      rw [hadded, if_pos rfl, Pi.add_apply]
                    rw [heq]
                    exact howes
            · split
              · exact hsizes.trans (SameSizes.releaseCurrent _ vol current)
              · exact hsizes

end

end SysuOs.Vfs
