import SysuOs.VfsHolders
import SysuOs.VfsIsolation

/-! The references to the inodes of a volume, exactly: an inode is in use while something refers to it, and
counts how often. Every call of the volume gives back what it takes, but for the inode that it hands out. -/

namespace SysuOs.Vfs

open FAT12FS

/-! ### The address of a volume -/

section

variable {fs fs' : FAT12FS}

theorem putDirEntry_this {location : EntryLocation} {entryBuf : EntryBuf} {setDelete res : Bool}
    (h : fs.putDirEntry location entryBuf setDelete = .ret (res, fs')) : fs'.this = fs.this := by
  rw [putDirEntry] at h
  split_ifs at h
  · cases h
    rfl
  · cases h
    rfl
  · obtain ⟨⟨cache, fs₁⟩, hget, h⟩ := Outcome.bind_eq_ret h
    cases cache with
    | none =>
        cases h
        exact getCache_this hget
    | some i =>
        dsimp only at h
        split at h
        · obtain ⟨fs₂, hrel, h⟩ := Outcome.bind_eq_ret h
          cases h
          exact (releaseCache_this hrel).trans (getCache_this hget)
        · obtain ⟨fs₂, hrel, h⟩ := Outcome.bind_eq_ret h
          cases h
          have hgot := getCache_this hget
          exact (releaseCache_this hrel).trans hgot

theorem writeDirEntry_this {location : EntryLocation} {entry : NormalizedEntry} {res : Bool}
    (h : fs.writeDirEntry location entry = .ret (res, fs')) : fs'.this = fs.this := by
  rw [writeDirEntry] at h
  split_ifs at h
  · cases h
    rfl
  · cases h
    rfl
  · exact putDirEntry_this h

theorem deleteDirEntry_this {location : EntryLocation} {res : Bool}
    (h : fs.deleteDirEntry location = .ret (res, fs')) : fs'.this = fs.this := by
  rw [deleteDirEntry] at h
  split_ifs at h
  · cases h
    rfl
  · cases h
    rfl
  · exact putDirEntry_this h

theorem freeLoop_this {fuel cluster : Nat} (h : freeLoop fuel fs cluster = .ret fs') : fs'.this = fs.this := by
  induction fuel generalizing fs cluster with
  | zero => cases h
  | succ fuel ih =>
      rw [freeLoop] at h
      split at h
      · have hkept := ih h
        exact hkept
      · cases h
        rfl

theorem clearCluster_this {c : Nat} {cleared : Option FAT12FS} (h : fs.clearCluster c = .ret cleared) :
    ∀ fs' ∈ cleared, fs'.this = fs.this := by
  obtain ⟨⟨cache, fs₁⟩, hget, h⟩ := Outcome.bind_eq_ret h
  cases cache with
  | none =>
      cases h
      simp
  | some i =>
      obtain ⟨fs₂, hrel, h⟩ := Outcome.bind_eq_ret h
      cases h
      rintro _ ⟨⟩
      have hgot := getCache_this hget
      exact (releaseCache_this hrel).trans hgot

theorem freeEntryLoop_this {fuel cluster prev : Nat} {free : FreeEntry}
    (h : freeEntryLoop fuel fs cluster prev = .ret (free, fs')) : fs'.this = fs.this := by
  induction fuel generalizing fs cluster prev with
  | zero => cases h
  | succ fuel ih =>
      rw [freeEntryLoop] at h
      split at h
      · obtain ⟨⟨cache, fs₁⟩, hget, h⟩ := Outcome.bind_eq_ret h
        cases cache with
        | none =>
            cases h
            exact getCache_this hget
        | some i =>
            obtain ⟨fs₂, hrel, h⟩ := Outcome.bind_eq_ret h
            have hthis := (releaseCache_this hrel).trans (getCache_this hget)
            split at h
            · cases h
              exact hthis
            · exact (ih h).trans hthis
      · cases h
        rfl

theorem makeEntry_this {dir : Option Fat12Inode} {made : Option (EntryLocation × Option (Nat × Nat))}
    (h : fs.makeEntry dir = .ret (made, fs')) : fs'.this = fs.this := by
  obtain ⟨⟨free, fs₁⟩, hfree, h⟩ := Outcome.bind_eq_ret h
  have hthis : fs₁.this = fs.this := by
    cases dir with
    | none =>
        rw [findFreeEntry] at hfree
        split at hfree <;> cases hfree <;> rfl
    | some node =>
        rw [findFreeEntry] at hfree
        split at hfree
        · cases hfree
          rfl
        · exact freeEntryLoop_this hfree
  cases free with
  | failed =>
      cases h
      exact hthis
  | full =>
      cases h
      exact hthis
  | found location =>
      cases h
      exact hthis
  | extend last =>
      obtain ⟨newCluster, -, h⟩ := Outcome.bind_eq_ret h
      dsimp only at h
      split at h
      · cases h
        exact hthis
      · obtain ⟨cleared, hclear, h⟩ := Outcome.bind_eq_ret h
        cases cleared with
        | none =>
            cases h
            exact hthis
        | some fs₂ =>
            cases h
            exact (clearCluster_this hclear _ rfl).trans hthis

theorem rollback_this (fs : FAT12FS) (appended : Option (Nat × Nat)) :
    (fs.rollback appended).this = fs.this := by
  cases appended with
  | none => rfl
  | some last => rfl

theorem next_this {it it' : DirIter} {found : Bool} (h : it.next fs = .ret (found, it', fs')) :
    fs'.this = fs.this := by
  have hloop : ∀ fuel fs it, DirIter.nextLoop fuel fs it = .ret (found, it', fs') → fs'.this = fs.this := by
    intro fuel
    induction fuel with
    | zero => exact fun _ _ h => by cases h
    | succ fuel ih =>
        intro fs it h
        rw [DirIter.nextLoop] at h
        split at h
        · obtain ⟨⟨cache, fs₁⟩, hget, h⟩ := Outcome.bind_eq_ret h
          cases cache with
          | none =>
              cases h
              exact getCache_this hget
          | some i =>
              dsimp only at h
              split at h
              · obtain ⟨fs₂, hrel, h⟩ := Outcome.bind_eq_ret h
                cases h
                exact (releaseCache_this hrel).trans (getCache_this hget)
              · obtain ⟨fs₂, hrel, h⟩ := Outcome.bind_eq_ret h
                cases h
                exact (releaseCache_this hrel).trans (getCache_this hget)
              · obtain ⟨fs₂, hrel, h⟩ := Outcome.bind_eq_ret h
                exact (ih _ _ h).trans ((releaseCache_this hrel).trans (getCache_this hget))
        · cases h
          rfl
  rw [DirIter.next] at h
  split at h
  · cases h
    rfl
  · exact hloop _ _ _ h

end

/-! ### References -/

/-- The inodes in use are those that are referred to, each counts its references, and they are of the volume. -/
structure Counts (claims : Nat → Nat) (vol : FatVolume) : Prop where
  own : ∀ place, vol.inodepool.bitmap place = true → (vol.inodepool.inodes place).fat12Fs = vol.fs.this
  used : ∀ place, vol.inodepool.bitmap place = true ↔ 0 < claims place
  counted : ∀ place, 0 < claims place → vol.inodepool.refcount place = claims place

namespace Counts

variable {claims : Nat → Nat} {vol vol' : FatVolume}

theorem withFs (h : Counts claims vol) {fs : FAT12FS} (hthis : fs.this = vol.fs.this) :
    Counts claims { vol with fs } :=
  ⟨fun place hplace => (h.own place hplace).trans hthis.symm, h.used, h.counted⟩

theorem releaseInode {found : Found} (h : Counts (claims + owed (some found)) vol) :
    Counts claims (vol.releaseInode found.place) := by
  have howed : owed (some found) found.place = 1 := if_pos rfl
  have hother : ∀ p, p ≠ found.place → (claims + owed (some found)) p = claims p := by
    intro p hp
    have hzero : owed (some found) p = 0 := if_neg fun heq => hp (Option.some.inj heq).symm
    rw [Pi.add_apply, hzero, add_zero]
  have hpos : 0 < (claims + owed (some found)) found.place := by
    rw [Pi.add_apply, howed]
    omega
  have hcount := h.counted _ hpos
  rw [Pi.add_apply, howed] at hcount
  rw [FatVolume.releaseInode, if_pos (h.own _ ((h.used _).mpr hpos))]
  dsimp only
  refine ⟨?_, ?_, ?_⟩
  · intro p hp
    refine h.own p ?_
    dsimp only at hp
    split at hp
    · by_cases hpf : p = found.place
      · rw [hpf, Function.update_self] at hp
        cases hp
      · rwa [Function.update_of_ne hpf] at hp
    · exact hp
  · intro p
    by_cases hpf : p = found.place
    · subst hpf
      dsimp only
      split
      · rename_i hlast
        rw [Function.update_self]
        exact iff_of_false Bool.false_ne_true (by omega)
      · rename_i hmore
        exact iff_of_true ((h.used _).mpr hpos) (by omega)
    · rw [← hother p hpf, ← h.used p]
      dsimp only
      split
      · rw [Function.update_of_ne hpf]
      · exact Iff.rfl
  · intro p hp
    by_cases hpf : p = found.place
    · subst hpf
      simp only [Function.update_self]
      omega
    · simp only [Function.update_of_ne hpf]
      rw [← hother p hpf]
      exact h.counted p (by rw [hother p hpf]; exact hp)

theorem releaseCurrent {current : Option Found} (h : Counts (claims + owed current) vol) :
    Counts claims (vol.releaseCurrent current) := by
  cases current with
  | none => exact h
  | some current => exact h.releaseInode

theorem takeInode (h : Counts claims vol) (entry : NormalizedEntry) (location : EntryLocation) :
    Counts (claims + owed (vol.takeInode entry location).1) (vol.takeInode entry location).2 := by
  have hone : ∀ i : Nat, owed (some ⟨i, entry⟩) i = 1 := fun i => if_pos rfl
  have hnone : ∀ i p : Nat, p ≠ i → owed (some ⟨i, entry⟩) p = 0 :=
    fun i p hp => if_neg fun heq => hp (Option.some.inj heq).symm
  rcases takeInode_cases vol entry location with ⟨i, hused, -, heq⟩ | heq | ⟨i, hfree, heq⟩
  · rw [heq]
    have hpos := (h.used i).mp hused
    refine ⟨?_, ?_, ?_⟩
    · intro p hp
      by_cases hpi : p = i
      · rw [hpi]
        simpa using h.own i hused
      · simpa [Function.update_of_ne hpi] using h.own p hp
    · intro p
      rw [Pi.add_apply]
      by_cases hpi : p = i
      · rw [hpi]
        exact iff_of_true hused (by omega)
      · rw [hnone i p hpi, add_zero]
        exact h.used p
    · intro p hp
      rw [Pi.add_apply] at hp ⊢
      by_cases hpi : p = i
      · rw [hpi, hone]
        simp only [Function.update_self]
        rw [h.counted i hpos]
      · rw [hnone i p hpi, add_zero] at hp ⊢
        simp only [Function.update_of_ne hpi]
        exact h.counted p hp
  · rw [heq]
    exact h
  · rw [heq]
    have hzero : claims i = 0 := by
      by_contra hne
      have hin := (h.used i).mpr (Nat.pos_of_ne_zero hne)
      rw [hfree] at hin
      cases hin
    refine ⟨?_, ?_, ?_⟩
    · intro p hp
      by_cases hpi : p = i
      · rw [hpi]
        simp
      · simp only [Function.update_of_ne hpi] at hp ⊢
        exact h.own p hp
    · intro p
      rw [Pi.add_apply]
      by_cases hpi : p = i
      · rw [hpi, hone]
        simp
      · rw [hnone i p hpi, add_zero]
        simp only [Function.update_of_ne hpi]
        exact h.used p
    · intro p hp
      rw [Pi.add_apply] at hp ⊢
      by_cases hpi : p = i
      · rw [hpi, hone, hzero]
        simp
      · rw [hnone i p hpi, add_zero] at hp ⊢
        simp only [Function.update_of_ne hpi]
        exact h.counted p hp

theorem lookupLoop {name : List Byte} {fuel cluster : Nat} {found : Option Found} {clusters : List Nat}
    (h : Counts claims vol)
    (hlookup : FatVolume.lookupLoop name fuel cluster vol = .ret (found, clusters, vol')) :
    Counts (claims + owed found) vol' := by
  induction fuel generalizing vol cluster found clusters with
  | zero => cases hlookup
  | succ fuel ih =>
      rw [FatVolume.lookupLoop] at hlookup
      split at hlookup
      · obtain ⟨⟨cache, fs₁⟩, hget, hlookup⟩ := Outcome.bind_eq_ret hlookup
        have h₁ := h.withFs (getCache_this hget)
        cases cache with
        | none =>
            cases hlookup
            exact h₁
        | some i =>
            dsimp only at hlookup
            split at hlookup
            · rename_i k entry _
              obtain ⟨fs₂, hrel, hlookup⟩ := Outcome.bind_eq_ret hlookup
              cases hlookup
              exact (h₁.takeInode entry ⟨false, cluster, k, 0⟩).withFs (releaseCache_this hrel)
            · obtain ⟨fs₂, hrel, hlookup⟩ := Outcome.bind_eq_ret hlookup
              cases hlookup
              exact h₁.withFs (releaseCache_this hrel)
            · obtain ⟨fs₂, hrel, hlookup⟩ := Outcome.bind_eq_ret hlookup
              obtain ⟨⟨found', clusters', vol₂⟩, hrest, hlookup⟩ := Outcome.bind_eq_ret hlookup
              cases hlookup
              exact ih (h₁.withFs (releaseCache_this hrel)) hrest
      · cases hlookup
        exact h

theorem lookup {dir : Option Nat} {name : List Byte} {found : Option Found} {clusters : List Nat}
    (h : Counts claims vol) (hlookup : vol.lookup dir name = .ret (found, clusters, vol')) :
    Counts (claims + owed found) vol' := by
  cases dir with
  | none =>
      have hroot : vol.lookupRoot name = (found, vol') := by
        have hret := Outcome.ret.inj hlookup
        exact Prod.ext (Prod.mk.inj hret).1 (Prod.mk.inj (Prod.mk.inj hret).2).2
      rw [FatVolume.lookupRoot] at hroot
      split at hroot
      · obtain ⟨rfl, rfl⟩ := Prod.mk.inj hroot
        exact h
      · rename_i idx _
        have htake := h.takeInode (vol.fs.rootDir idx) ⟨true, 0, 0, idx⟩
        rw [hroot] at htake
        exact htake
  | some place =>
      rw [FatVolume.lookup] at hlookup
      split at hlookup
      · cases hlookup
        exact h
      · exact h.lookupLoop hlookup

/-- A walk refers to the inode it ends at, and to no other any more. -/
theorem walkPath {fuel : Nat} {current : Option Found} {path : List Char} {node : Option (Option Found)}
    {visits : List Visit} (h : Counts (claims + owed current) vol)
    (hwalk : walkPath fuel vol current path = .ret (node, visits, vol')) :
    Counts (claims + owed node.join) vol' := by
  induction fuel generalizing vol current path node visits with
  | zero => cases hwalk
  | succ fuel ih =>
      rw [Vfs.walkPath] at hwalk
      split at hwalk
      · cases hwalk
        exact h.releaseCurrent
      · cases hwalk
        exact h
      · obtain ⟨⟨next, clusters, vol₁⟩, hlookup, hwalk⟩ := Outcome.bind_eq_ret hwalk
        have hnext := h.lookup hlookup
        rw [add_right_comm] at hnext
        have hreleased := hnext.releaseCurrent
        cases next with
        | none =>
            cases hwalk
            exact hreleased
        | some next =>
            obtain ⟨⟨node', visits', vol₂⟩, hrest, hwalk⟩ := Outcome.bind_eq_ret hwalk
            cases hwalk
            exact ih hreleased hrest

/-! ### Calls that change a directory -/

theorem createFile {dir : Option Nat} {name : List Byte} {attr : Byte} {res : Bool} (h : Counts claims vol)
    (hcall : vol.createFile dir name attr = .ret (res, vol')) : Counts claims vol' := by
  rw [FatVolume.createFile] at hcall
  split at hcall
  · cases hcall
    exact h
  · obtain ⟨⟨file, clusters, vol₁⟩, hlookup, hcall⟩ := Outcome.bind_eq_ret hcall
    have h₁ := h.lookup hlookup
    cases file with
    | some file =>
        cases hcall
        exact h₁.releaseInode
    | none =>
        obtain ⟨⟨made, fs₂⟩, hmake, hcall⟩ := Outcome.bind_eq_ret hcall
        have hmade := makeEntry_this hmake
        cases made with
        | none =>
            cases hcall
            exact h₁.withFs hmade
        | some place =>
            obtain ⟨⟨written, fs₃⟩, hwrite, hcall⟩ := Outcome.bind_eq_ret hcall
            have hwritten := (writeDirEntry_this hwrite).trans hmade
            cases written with
            | false =>
                cases hcall
                exact h₁.withFs ((rollback_this _ _).trans hwritten)
            | true =>
                cases hcall
                exact h₁.withFs hwritten

theorem removeTarget {found : Found} {res : Bool} (h : Counts (claims + owed (some found)) vol)
    (hcall : vol.removeTarget found.place = .ret (res, vol')) : Counts claims vol' := by
  obtain ⟨⟨deleted, fs₁⟩, hdelete, hcall⟩ := Outcome.bind_eq_ret hcall
  have hdeleted := deleteDirEntry_this hdelete
  cases deleted with
  | false =>
      cases hcall
      exact (h.withFs hdeleted).releaseInode
  | true =>
      obtain ⟨fs₂, hfree, hcall⟩ := Outcome.bind_eq_ret hcall
      cases hcall
      exact (h.withFs ((freeLoop_this hfree).trans hdeleted)).releaseInode

theorem remove {dir : Option Nat} {name : List Byte} {res : Bool} (h : Counts claims vol)
    (hcall : vol.remove dir name = .ret (res, vol')) : Counts claims vol' := by
  obtain ⟨⟨file, clusters, vol₁⟩, hlookup, hcall⟩ := Outcome.bind_eq_ret hcall
  have h₁ := h.lookup hlookup
  cases file with
  | none =>
      cases hcall
      exact h₁
  | some file =>
      dsimp only at hcall
      split at hcall
      · cases hcall
        exact h₁.releaseInode
      · exact h₁.removeTarget hcall

theorem createDirectory {dir : Option Nat} {name : List Byte} {res : Bool} (h : Counts claims vol)
    (hcall : vol.createDirectory dir name = .ret (res, vol')) : Counts claims vol' := by
  obtain ⟨⟨file, clusters, vol₁⟩, hlookup, hcall⟩ := Outcome.bind_eq_ret hcall
  have h₁ := h.lookup hlookup
  cases file with
  | some file =>
      cases hcall
      exact h₁.releaseInode
  | none =>
      obtain ⟨⟨made, fs₂⟩, hmake, hcall⟩ := Outcome.bind_eq_ret hcall
      have hmade := makeEntry_this hmake
      cases made with
      | none =>
          cases hcall
          exact h₁.withFs hmade
      | some place =>
          obtain ⟨start, -, hcall⟩ := Outcome.bind_eq_ret hcall
          split at hcall
          · cases hcall
            exact h₁.withFs ((rollback_this _ _).trans hmade)
          · obtain ⟨⟨written, fs₃⟩, hwrite, hcall⟩ := Outcome.bind_eq_ret hcall
            have hwritten : fs₃.this = vol₁.fs.this := (writeDirEntry_this hwrite).trans hmade
            cases written with
            | false =>
                cases hcall
                exact h₁.withFs ((rollback_this _ _).trans hwritten)
            | true =>
                obtain ⟨cleared, hclear, hcall⟩ := Outcome.bind_eq_ret hcall
                cases cleared with
                | none => cases hcall
                | some fs₄ =>
                    cases hcall
                    exact h₁.withFs ((clearCluster_this hclear _ rfl).trans hwritten)

theorem isDirEmpty {place : Nat} {res : Int} (h : Counts claims vol)
    (hcall : vol.isDirEmpty place = .ret (res, vol')) : Counts claims vol' := by
  rw [FatVolume.isDirEmpty] at hcall
  dsimp only at hcall
  split_ifs at hcall
  · cases hcall
    exact h
  · cases hcall
    exact h
  · split at hcall
    · cases hcall
      exact h
    · obtain ⟨⟨found, it', fs₁⟩, hnext, hcall⟩ := Outcome.bind_eq_ret hcall
      cases hcall
      exact h.withFs (next_this hnext)

theorem removeDirectory {dir : Option Nat} {name : List Byte} {res : Bool} (h : Counts claims vol)
    (hcall : vol.removeDirectory dir name = .ret (res, vol')) : Counts claims vol' := by
  obtain ⟨⟨target, clusters, vol₁⟩, hlookup, hcall⟩ := Outcome.bind_eq_ret hcall
  have h₁ := h.lookup hlookup
  cases target with
  | none =>
      cases hcall
      exact h₁
  | some target =>
      dsimp only at hcall
      split at hcall
      · cases hcall
        exact h₁.releaseInode
      · obtain ⟨⟨empty, vol₂⟩, hempty, hcall⟩ := Outcome.bind_eq_ret hcall
        have h₂ := h₁.isDirEmpty hempty
        dsimp only at hcall
        split_ifs at hcall
        · cases hcall
          exact h₂.releaseInode
        · cases hcall
          exact h₂.releaseInode
        · exact h₂.removeTarget hcall

end Counts

end SysuOs.Vfs
