import SysuOs.VfsInodeRefs
import SysuOs.VfsOffsets

/-! The reference counts of open files and inodes. An entry of the open-file table counts the descriptors that
name it, and is in use while there are any; an inode counts the entries that hold it, of which there is one. -/

namespace SysuOs.Vfs

open Finset

section

variable {n : Nat} {s s' : Files n} {volumes : Disks} {found found' : Option (Fin MAX_OPENFILE_COUNT)}
  {i : Fin MAX_OPENFILE_COUNT} {fd : Fd n} {file : File}

/-! ### The tables -/

theorem refs_nonneg (s : Files n) (i : Fin MAX_OPENFILE_COUNT) : 0 ≤ s.refs i :=
  sum_nonneg fun fd _ => (s.fd_table fd).refers_nonneg i

/-- An entry in use with the node, or a new one, where none is. -/
theorem enter_cases {type : FsType} {node : Option Inode} (h : s.enter type node = some (i, s')) :
    (s.findOpenfile type node = some i ∧ s' = s ∧ s.openfile_map i = true) ∨
      (s.findOpenfile type node = none ∧ s.openfile_map i = false ∧ s' = { s with
        openfile_map := Function.update s.openfile_map i true
        openfile_table := Function.update s.openfile_table i ⟨node, type, 0, 0⟩ }) := by
  unfold Files.enter at h
  split at h
  · rename_i j hfind
    simp only [Option.some.injEq, Prod.mk.injEq] at h
    obtain ⟨rfl, rfl⟩ := h
    have hin := List.find?_some hfind
    simp only [Bool.and_eq_true, decide_eq_true_eq] at hin
    exact Or.inl ⟨hfind, rfl, hin.1.1⟩
  · rename_i hfind
    split at h
    · cases h
    · rename_i j hfree
      simp only [Option.some.injEq, Prod.mk.injEq] at h
      obtain ⟨rfl, rfl⟩ := h
      exact Or.inr ⟨hfind, by simpa using List.find?_some hfree, rfl⟩

theorem not_findOpenfile {type : FsType} {node : Option Inode} (h : s.findOpenfile type node = none)
    (hmap : s.openfile_map i = true) (htype : (s.openfile_table i).type = type) :
    (s.openfile_table i).node ≠ node := by
  intro hnode
  have hnone := List.find?_eq_none.mp h i (List.mem_finRange i)
  simp [hmap, htype, hnode] at hnone

/-- What the tables say of each other. An entry that a lookup has found may be one that no descriptor names
yet. -/
structure Balanced (s : Files n) (volumes : Disks) (found : Option (Fin MAX_OPENFILE_COUNT)) : Prop where
  map : ∀ i, s.openfile_map i = true ↔ 0 < (s.openfile_table i).refcount ∨ found = some i
  refcount : ∀ i, (s.openfile_table i).refcount = s.refs i
  file : ∀ fd i, (s.fd_table fd).openfile = some i → (s.fd_table fd).type = .FILE
  standard : ∀ fd, fd.2.val < 3 → (s.fd_table fd).openfile = none
  type : ∀ i, s.openfile_map i = true → (s.openfile_table i).type = .FXT12
  once : ∀ i j node, s.openfile_map i = true → s.openfile_map j = true → (s.openfile_table i).node = some node →
    (s.openfile_table j).node = some node → i = j
  inodes : ∀ slot, Counts (s.holders slot) (volumes slot)

namespace Balanced

theorem refcount_nonneg (h : Balanced s volumes found) (i : Fin MAX_OPENFILE_COUNT) :
    0 ≤ (s.openfile_table i).refcount := by
  rw [h.refcount]
  exact refs_nonneg s i

/-- The volume of one slot is changed. -/
theorem update (h : Balanced s volumes found) {slot : Fin MAX_DISK_COUNT} {vol : FatVolume}
    (hvol : Counts (s.holders slot) vol) : Balanced s (Function.update volumes slot vol) found := by
  refine { h with inodes := ?_ }
  intro other
  by_cases hother : other = slot
  · rw [hother, Function.update_self]
    exact hvol
  · rw [Function.update_of_ne hother]
    exact h.inodes other

/-- An entry in use is found once more. -/
theorem again (h : Balanced s volumes none) (hmap : s.openfile_map i = true) : Balanced s volumes (some i) := by
  refine { h with map := ?_ }
  intro j
  rw [h.map j]
  constructor
  · rintro (hpos | hfound)
    · exact Or.inl hpos
    · cases hfound
  · rintro (hpos | hfound)
    · exact Or.inl hpos
    · rw [← Option.some.inj hfound]
      exact (h.map i).mp hmap

/-- The entry found is one that descriptors name. -/
theorem settle (h : Balanced s volumes (some i)) (hpos : 0 < (s.openfile_table i).refcount) :
    Balanced s volumes none := by
  refine { h with map := ?_ }
  intro j
  rw [h.map j]
  constructor
  · rintro (hj | hfound)
    · exact Or.inl hj
    · rw [← Option.some.inj hfound]
      exact Or.inl hpos
  · rintro (hj | hfound)
    · exact Or.inl hj
    · cases hfound

/-- A descriptor is given another file, with the counts changed to suit. -/
theorem assign (h : Balanced s volumes found) (fd : Fd n) (file : File)
    (hfd : s'.fd_table = Function.update s.fd_table fd file) (hmap : s'.openfile_map = s.openfile_map)
    (hnode : ∀ i, (s'.openfile_table i).node = (s.openfile_table i).node)
    (htype : ∀ i, (s'.openfile_table i).type = (s.openfile_table i).type)
    (hcount : ∀ i, (s'.openfile_table i).refcount = s.refs i - (s.fd_table fd).refers i + file.refers i)
    (hfile : ∀ i, file.openfile = some i → file.type = .FILE) (hstandard : fd.2.val < 3 → file.openfile = none)
    (hfound : ∀ i, s.openfile_map i = true ↔ 0 < (s'.openfile_table i).refcount ∨ found' = some i) :
    Balanced s' volumes found' where
  map := by
    rw [hmap]
    exact hfound
  refcount := by
    intro i
    rw [refs_congr (s := s.setFile fd file) hfd, refs_setFile]
    exact hcount i
  file := by
    intro k i
    rw [hfd]
    by_cases hk : k = fd
    · rw [hk, Function.update_self]
      exact hfile i
    · rw [Function.update_of_ne hk]
      exact h.file k i
  standard := by
    intro k hlow
    rw [hfd]
    by_cases hk : k = fd
    · rw [hk, Function.update_self]
      exact hstandard (hk ▸ hlow)
    · rw [Function.update_of_ne hk]
      exact h.standard k hlow
  type := by
    intro i
    rw [hmap, htype]
    exact h.type i
  once := by
    intro i j node
    rw [hmap, hnode, hnode]
    exact h.once i j node
  inodes := by
    rw [holders_congr hmap hnode]
    exact h.inodes

theorem count_type (s : Files n) (fd : Fd n) (file : File) (i j : Fin MAX_OPENFILE_COUNT) (d : Int) :
    (((s.setFile fd file).count i d).openfile_table j).type = (s.openfile_table j).type := by
  by_cases hj : j = i
  · simp [Files.count, Files.setFile, hj]
  · simp [Files.count, Files.setFile, hj]

/-- A descriptor without an entry stays without one. -/
theorem setFile (h : Balanced s volumes found) (hold : (s.fd_table fd).openfile = none)
    (hnew : file.openfile = none) :
    Balanced (s.setFile fd file) volumes found := by
  have hrefers : ∀ (f : File) j, f.openfile = none → f.refers j = 0 := fun f j hf => if_neg (by simp [hf])
  refine h.assign fd file rfl rfl (fun _ => rfl) (fun _ => rfl) ?_ ?_ ?_ ?_
  · intro j
    rw [hrefers _ j hold, hrefers _ j hnew, sub_zero, add_zero]
    exact h.refcount j
  · intro j hj
    rw [hnew] at hj
    cases hj
  · exact fun _ => hnew
  · exact h.map

/-- A free descriptor is given the entry found. -/
theorem give (h : Balanced s volumes (some i)) (hold : (s.fd_table fd).openfile = none)
    (hfile : file.openfile = some i) (htype : file.type = .FILE) (hlow : ¬fd.2.val < 3) :
    Balanced ((s.setFile fd file).count i 1) volumes none := by
  refine h.assign fd file rfl rfl (count_node s fd file i · 1) (count_type s fd file i · 1) ?_ ?_ ?_ ?_
  · intro j
    have hzero : (s.fd_table fd).refers j = 0 := if_neg (by simp [hold])
    rw [count_refcount, h.refcount, hzero, sub_zero]
    unfold File.refers
    rw [hfile]
    simp only [Option.some.injEq, eq_comm (a := i)]
  · exact fun _ _ => htype
  · exact fun hlt => absurd hlt hlow
  · intro j
    have hnonneg := h.refcount_nonneg j
    rw [h.map j, count_refcount]
    by_cases hj : j = i
    · rw [if_pos hj, hj]
      exact iff_of_true (Or.inr rfl) (Or.inl (by rw [hj] at hnonneg; omega))
    · rw [if_neg hj, add_zero]
      simp [Ne.symm hj]

/-- A descriptor lets go of its entry. -/
theorem drop (h : Balanced s volumes none) (hopen : (s.fd_table fd).openfile = some i)
    (hnew : file.openfile = none) :
    Balanced ((s.setFile fd file).count i (-1)) volumes (some i) := by
  have hpos : 0 < (s.openfile_table i).refcount := by
    rw [h.refcount]
    exact lt_of_lt_of_le zero_lt_one (refs_pos hopen)
  refine h.assign fd file rfl rfl (count_node s fd file i · (-1)) (count_type s fd file i · (-1)) ?_ ?_ ?_ ?_
  · intro j
    have hzero : file.refers j = 0 := if_neg (by simp [hnew])
    rw [count_refcount, h.refcount, hzero, add_zero, sub_eq_add_neg]
    unfold File.refers
    rw [hopen]
    by_cases hj : j = i
    · rw [if_pos hj, if_pos (congrArg some hj.symm)]
    · rw [if_neg hj, if_neg (fun heq => hj (Option.some.inj heq).symm), neg_zero]
  · intro j hj
    rw [hnew] at hj
    cases hj
  · exact fun _ => hnew
  · intro j
    rw [h.map j, count_refcount]
    by_cases hj : j = i
    · rw [hj]
      exact iff_of_true (Or.inl hpos) (Or.inr rfl)
    · rw [if_neg hj, add_zero]
      simp [Ne.symm hj]

/-- An entry that no descriptor names is given back, and its inode. -/
theorem release (h : Balanced s volumes (some i)) (hlast : (s.openfile_table i).refcount ≤ 0) :
    Balanced (s.releaseOpenfile i) (releaseOpenfileNode volumes (s.openfile_table i)) none := by
  have hin : s.openfile_map i = true := (h.map i).mpr (Or.inr rfl)
  have hmap : ∀ j, (s.releaseOpenfile i).openfile_map j = true → j ≠ i ∧ s.openfile_map j = true := by
    intro j hj
    have hne : j ≠ i := by
      rintro rfl
      simp [Files.releaseOpenfile] at hj
    refine ⟨hne, ?_⟩
    simpa [Files.releaseOpenfile, Function.update_of_ne hne] using hj
  have htable : ∀ j, j ≠ i → (s.releaseOpenfile i).openfile_table j = s.openfile_table j :=
    fun j hj => Function.update_of_ne hj ..
  have hself : (s.releaseOpenfile i).openfile_table i = OpenFile.zero := Function.update_self ..
  refine ⟨?_, ?_, h.file, h.standard, ?_, ?_, ?_⟩
  · intro j
    by_cases hj : j = i
    · rw [hj, hself]
      exact iff_of_false (by simp [Files.releaseOpenfile]) (by simp [OpenFile.zero])
    · rw [htable j hj]
      have hsame : (s.releaseOpenfile i).openfile_map j = s.openfile_map j := Function.update_of_ne hj ..
      rw [hsame, h.map j]
      simp [Ne.symm hj]
  · intro j
    show _ = s.refs j
    by_cases hj : j = i
    · have hnonneg := refs_nonneg s i
      have hcount := h.refcount i
      rw [hj, hself]
      show (0 : Int) = s.refs i
      omega
    · rw [htable j hj]
      exact h.refcount j
  · intro j hj
    obtain ⟨hne, hj⟩ := hmap j hj
    rw [htable j hne]
    exact h.type j hj
  · intro j k node hj hk
    obtain ⟨hji, hj⟩ := hmap j hj
    obtain ⟨hki, hk⟩ := hmap k hk
    rw [htable j hji, htable k hki]
    exact h.once j k node hj hk
  · have hsum : ∀ slot place, (s.releaseOpenfile i).holders slot place + s.holds ⟨slot, place⟩ i =
        s.holders slot place := by
      intro slot place
      have hzero : (s.releaseOpenfile i).holds ⟨slot, place⟩ i = 0 := if_neg (by simp [Files.releaseOpenfile])
      have hupdate := @holders_update n s (s.releaseOpenfile i) i (fun j hj => Function.update_of_ne hj ..)
        htable slot place
      omega
    have hkept : ∀ slot, (∀ place, s.holds ⟨slot, place⟩ i = 0) →
        (s.releaseOpenfile i).holders slot = s.holders slot := by
      intro slot hzero
      funext place
      have hplace := hsum slot place
      rw [hzero place, add_zero] at hplace
      exact hplace
    intro slot
    cases hnode : (s.openfile_table i).node with
    | none =>
        rw [hkept slot fun place => if_neg (by simp [hnode])]
        simp only [releaseOpenfileNode, h.type i hin, hnode]
        exact h.inodes slot
    | some node =>
        simp only [releaseOpenfileNode, h.type i hin, hnode]
        by_cases hslot : slot = node.fat12_fs
        · rw [hslot, Function.update_self]
          have hholders : s.holders node.fat12_fs =
              (s.releaseOpenfile i).holders node.fat12_fs +
                owed (some ⟨node.place, EntryBuf.reset.normalizedEntry⟩) := by
            funext place
            rw [Pi.add_apply, ← hsum node.fat12_fs place]
            congr 1
            unfold Files.holds owed
            rw [hnode]
            apply if_congr _ rfl rfl
            constructor
            · rintro ⟨-, heq⟩
              exact congrArg (Option.map Inode.place) heq
            · intro heq
              refine ⟨hin, congrArg some ?_⟩
              rw [← Option.some.inj heq]
          have hcounts := h.inodes node.fat12_fs
          rw [hholders] at hcounts
          exact hcounts.releaseInode
        · rw [Function.update_of_ne hslot, hkept slot fun place => if_neg ?_]
          · exact h.inodes slot
          · rintro ⟨-, heq⟩
            rw [hnode] at heq
            exact hslot (congrArg Inode.fat12_fs (Option.some.inj heq)).symm

/-- The end of a lookup whose entry is not kept. -/
theorem releaseLookupOpenfile (h : Balanced s volumes found) :
    Balanced (Vfs.releaseLookupOpenfile s volumes found).1
      (Vfs.releaseLookupOpenfile s volumes found).2 none := by
  cases found with
  | none => exact h
  | some i =>
      unfold Vfs.releaseLookupOpenfile
      dsimp only
      split
      · rename_i hlast
        exact h.release hlast
      · rename_i hmore
        exact h.settle (lt_of_not_ge hmore)

/-- A free entry is made one of the inode that has been reached. -/
theorem create (h : Balanced s volumes none) {slot : Fin MAX_DISK_COUNT} {vol : FatVolume}
    {current : Option Found} {node : Option Inode}
    (hnode : node = current.map fun found => Inode.mk slot found.place)
    (hfind : s.findOpenfile .FXT12 node = none) (hfree : s.openfile_map i = false)
    (hvol : Counts (s.holders slot + owed current) vol) :
    Balanced { s with
      openfile_map := Function.update s.openfile_map i true
      openfile_table := Function.update s.openfile_table i ⟨node, .FXT12, 0, 0⟩ }
      (Function.update volumes slot vol) (some i) := by
  have hzero : (s.openfile_table i).refcount = 0 := by
    have hnonneg := h.refcount_nonneg i
    have hunused : ¬0 < (s.openfile_table i).refcount := by
      intro hpos
      have hin := (h.map i).mpr (Or.inl hpos)
      rw [hfree] at hin
      cases hin
    omega
  -- no entry in use has the inode
  have hnew : ∀ j, s.openfile_map j = true → (s.openfile_table j).node ≠ node :=
    fun j hj => not_findOpenfile hfind hj (h.type j hj)
  have hholders : ∀ other place, Files.holders { s with
      openfile_map := Function.update s.openfile_map i true
      openfile_table := Function.update s.openfile_table i ⟨node, .FXT12, 0, 0⟩ } other place =
      s.holders other place + if other = slot then owed current place else 0 := by
    intro other place
    have hold : s.holds ⟨other, place⟩ i = 0 := if_neg (by simp [hfree])
    have hsum := @holders_update n s { s with
        openfile_map := Function.update s.openfile_map i true
        openfile_table := Function.update s.openfile_table i ⟨node, .FXT12, 0, 0⟩ } i
      (fun k hk => Function.update_of_ne hk ..) (fun k hk => Function.update_of_ne hk ..) other place
    rw [hold, add_zero] at hsum
    rw [hsum]
    refine congrArg (s.holders other place + ·) ?_
    unfold Files.holds owed
    simp only [Function.update_self, hnode, true_and]
    cases current with
    | none => simp
    | some found =>
        by_cases hother : other = slot
        · simp [hother]
        · simp [hother, Ne.symm hother]
  refine ⟨?_, ?_, h.file, h.standard, ?_, ?_, ?_⟩
  · intro j
    by_cases hj : j = i
    · rw [hj]
      exact iff_of_true (Function.update_self ..) (Or.inr rfl)
    · simp only [Function.update_of_ne hj, h.map j]
      simp [Ne.symm hj]
  · intro j
    show _ = s.refs j
    by_cases hj : j = i
    · have hcount := h.refcount i
      rw [hzero] at hcount
      rw [hj]
      simp only [Function.update_self]
      exact hcount
    · simp only [Function.update_of_ne hj]
      exact h.refcount j
  · intro j hj
    by_cases hji : j = i
    · rw [hji]
      simp
    · simp only [Function.update_of_ne hji] at hj ⊢
      exact h.type j hj
  · intro j k inode hj hk hjnode hknode
    by_cases hji : j = i
    · by_cases hki : k = i
      · rw [hji, hki]
      · rw [hji] at hjnode
        simp only [Function.update_self] at hjnode
        simp only [Function.update_of_ne hki] at hk hknode
        exact absurd (hknode.trans hjnode.symm) (hnew k hk)
    · simp only [Function.update_of_ne hji] at hj hjnode
      by_cases hki : k = i
      · rw [hki] at hknode
        simp only [Function.update_self] at hknode
        exact absurd (hjnode.trans hknode.symm) (hnew j hj)
      · simp only [Function.update_of_ne hki] at hk hknode
        exact h.once j k inode hj hk hjnode hknode
  · intro other
    by_cases hother : other = slot
    · subst hother
      rw [Function.update_self]
      have heq : Files.holders { s with
          openfile_map := Function.update s.openfile_map i true
          openfile_table := Function.update s.openfile_table i ⟨node, .FXT12, 0, 0⟩ } other =
          s.holders other + owed current := by
        funext place
        rw [hholders, if_pos rfl, Pi.add_apply]
      rw [heq]
      exact hvol
    · rw [Function.update_of_ne hother]
      have heq : Files.holders { s with
          openfile_map := Function.update s.openfile_map i true
          openfile_table := Function.update s.openfile_table i ⟨node, .FXT12, 0, 0⟩ } other =
          s.holders other := by
        funext place
        rw [hholders, if_neg hother, add_zero]
      rw [heq]
      exact h.inodes other

/-- A lookup gives out an entry in use for the inode it reaches, or nothing. -/
theorem lookupPath {fs_table : FsTable} {cwd path : List Char} {visits : List Visit} {volumes' : Disks}
    (h : Balanced s volumes none)
    (hlookup : lookupPath s fs_table volumes cwd path = .ret (found, visits, s', volumes')) :
    Balanced s' volumes' found ∧ s'.fd_table = s.fd_table := by
  unfold Vfs.lookupPath at hlookup
  split at hlookup
  · cases hlookup
    exact ⟨h, rfl⟩
  · rename_i slot rest _
    split at hlookup
    · cases hlookup
      exact ⟨h, rfl⟩
    · obtain ⟨⟨node, visits', vol⟩, hwalk, hlookup⟩ := Outcome.bind_eq_ret hlookup
      have hstart : Counts (s.holders slot + owed none) (volumes slot) := by
        rw [owed_none, add_zero]
        exact h.inodes slot
      have hends := hstart.walkPath hwalk
      cases node with
      | none =>
          rw [Option.join_none, owed_none, add_zero] at hends
          cases hlookup
          exact ⟨h.update hends, rfl⟩
      | some current =>
          rw [Option.join_some] at hends
          dsimp only at hlookup
          split at hlookup
          · cases hlookup
            exact ⟨h.update hends.releaseCurrent, rfl⟩
          · rename_i i files henter
            cases hlookup
            rcases enter_cases henter with ⟨hfind, rfl, hin⟩ | ⟨hfind, hfree, rfl⟩
            · rw [hfind]
              exact ⟨(h.update hends.releaseCurrent).again hin, rfl⟩
            · rw [hfind]
              exact ⟨h.create rfl hfind hfree hends, rfl⟩

end Balanced

end

end SysuOs.Vfs
