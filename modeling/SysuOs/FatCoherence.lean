import SysuOs.FatOps

/-! The cluster cache over any sequence of calls. Every call gets a cluster, uses it and gives it back before the
next, so that between two calls, and whenever a cluster is asked for, no slot is in use or dirty and each shows
what is on disk. -/

namespace SysuOs

namespace FAT12FS

/-- From a state between two operations on to such a state of the same volume. -/
def Keeps (fs fs' : FAT12FS) : Prop := Mounted fs → Coherent fs → Coherent fs' ∧ SameVolume fs fs'

theorem Keeps.refl (fs : FAT12FS) : Keeps fs fs := fun _ hcoh => ⟨hcoh, SameVolume.refl fs⟩

theorem Keeps.trans {fs fs' fs'' : FAT12FS} (h : Keeps fs fs') (h' : Keeps fs' fs'') : Keeps fs fs'' := by
  intro hm hcoh
  obtain ⟨hcoh', hsame⟩ := h hm hcoh
  obtain ⟨hcoh'', hsame'⟩ := h' (hm.congr hsame) hcoh'
  exact ⟨hcoh'', hsame.trans hsame'⟩

/-- Neither the cache nor the clusters on disk change. -/
theorem keeps_of_same {fs fs' : FAT12FS} (hsame : SameVolume fs fs') (hpool : fs'.cachePool = fs.cachePool)
    (hbyte : fs'.clusterByte = fs.clusterByte) : Keeps fs fs' := by
  intro _ hcoh
  refine ⟨⟨?_, ?_, ?_, ?_⟩, hsame⟩
  · rw [hpool]
    exact hcoh.unused
  · rw [hpool]
    exact hcoh.clean
  · rw [hpool, hbyte, hsame.clusterSize]
    exact hcoh.content
  · rw [hpool]
    exact hcoh.unique

theorem keeps_setFat (fs : FAT12FS) (cluster value : Nat) : Keeps fs (fs.setFat cluster value) :=
  keeps_of_same ⟨rfl, rfl, rfl, rfl, rfl, rfl, rfl⟩ rfl rfl

theorem keeps_freeCluster (fs : FAT12FS) (cluster : Nat) : Keeps fs (fs.freeCluster cluster) :=
  keeps_setFat fs cluster 0

theorem keeps_fatTableDirty (fs : FAT12FS) (dirty : Bool) : Keeps fs { fs with fatTableDirty := dirty } :=
  keeps_of_same ⟨rfl, rfl, rfl, rfl, rfl, rfl, rfl⟩ rfl rfl

theorem keeps_rootDir (fs : FAT12FS) (rootDir : Nat → NormalizedEntry) (dirty : Bool) :
    Keeps fs { fs with rootDir, rootDirDirty := dirty } :=
  keeps_of_same ⟨rfl, rfl, rfl, rfl, rfl, rfl, rfl⟩ rfl rfl

theorem keeps_flushFatTable {fs fs' : FAT12FS} {res : Bool} (h : fs.flushFatTable = (res, fs')) : Keeps fs fs' := by
  intro hm hcoh
  obtain ⟨fs₁, hflush, hcoh₁, hsame, -⟩ := flush_data fs hm hcoh
  rw [h] at hflush
  obtain ⟨-, rfl⟩ := Prod.mk.inj hflush
  exact ⟨hcoh₁, hsame⟩

/-! ### One cluster -/

/-- A cluster that can be cached is always got. -/
theorem getCache_cases {fs fs₁ : FAT12FS} {c : Nat} {cache : Option Nat} (hm : Mounted fs) (hcoh : Coherent fs)
    (h : fs.getCache c = .ret (cache, fs₁)) :
    (¬ IsCluster c ∧ cache = none ∧ fs₁ = fs) ∨ ∃ i, cache = some i ∧ IsCluster c ∧ Pinned fs fs₁ i c := by
  by_cases hc : IsCluster c
  · obtain ⟨i, fs', hget, hpin⟩ := getCache_spec hm hcoh hc
    rw [h] at hget
    obtain ⟨rfl, rfl⟩ := Prod.mk.inj (Outcome.ret.inj hget)
    exact Or.inr ⟨i, rfl, hc, hpin⟩
  · have hinvalid : c < 2 ∨ c ≥ 0xFF0 := by
      rw [IsCluster] at hc
      omega
    rw [getCache, if_pos hinvalid] at h
    obtain ⟨rfl, rfl⟩ := Prod.mk.inj (Outcome.ret.inj h)
    exact Or.inl ⟨hc, rfl, rfl⟩

section

variable {fs fs₁ fs₂ fs₃ : FAT12FS} {c i : Nat} {buf : ByteMap} {res : Bool}

theorem pinned_of_getCache (hm : Mounted fs) (hcoh : Coherent fs) (hget : fs.getCache c = .ret (some i, fs₁)) :
    IsCluster c ∧ Pinned fs fs₁ i c := by
  rcases getCache_cases hm hcoh hget with ⟨-, hnone, -⟩ | ⟨j, hsome, hc, hpin⟩
  · cases hnone
  · obtain rfl := Option.some.inj hsome
    exact ⟨hc, hpin⟩

theorem keeps_none (hget : fs.getCache c = .ret (none, fs₁)) : Keeps fs fs₁ := by
  intro hm hcoh
  rcases getCache_cases hm hcoh hget with ⟨-, -, rfl⟩ | ⟨j, hsome, -⟩
  · exact Keeps.refl _ hm hcoh
  · cases hsome

/-- A cluster that is only read. -/
theorem keeps_read (hget : fs.getCache c = .ret (some i, fs₁)) (hrel : fs₁.releaseCache i = .ret fs₂) :
    Keeps fs fs₂ := by
  intro hm hcoh
  obtain ⟨-, hpin⟩ := pinned_of_getCache hm hcoh hget
  obtain ⟨fs', hrel', hcoh', hsame', -⟩ := hpin.release hcoh
  rw [hrel] at hrel'
  obtain rfl := Outcome.ret.inj hrel'
  exact ⟨hcoh', hsame'⟩

/-- A cluster that is changed and left to `release_cache` to write. -/
theorem keeps_store (hget : fs.getCache c = .ret (some i, fs₁))
    (hrel : ((fs₁.setBuf i buf).setDirty i).releaseCache i = .ret fs₂) : Keeps fs fs₂ := by
  intro hm hcoh
  obtain ⟨hc, hpin⟩ := pinned_of_getCache hm hcoh hget
  obtain ⟨fs', hrel', hstored⟩ := hpin.storeRelease hm hcoh hc.1 buf
  rw [edited, hrel] at hrel'
  obtain rfl := Outcome.ret.inj hrel'
  exact ⟨hstored.coherent, hstored.same⟩

/-- A cluster that is changed and written before it is released. -/
theorem keeps_write (hget : fs.getCache c = .ret (some i, fs₁))
    (hwrite : ((fs₁.setBuf i buf).setDirty i).writeCluster i = .ret (res, fs₂))
    (hrel : fs₂.releaseCache i = .ret fs₃) : Keeps fs fs₃ := by
  intro hm hcoh
  obtain ⟨hc, hpin⟩ := pinned_of_getCache hm hcoh hget
  obtain ⟨fs', fs'', hwrite', hrel', hstored⟩ := hpin.store hm hcoh hc.1 buf
  rw [edited, hwrite] at hwrite'
  obtain ⟨-, rfl⟩ := Prod.mk.inj (Outcome.ret.inj hwrite')
  rw [hrel] at hrel'
  obtain rfl := Outcome.ret.inj hrel'
  exact ⟨hstored.coherent, hstored.same⟩

/-- A slot that is not dirty is not written. -/
theorem keeps_writeCluster (hi : i < FAT12_MAX_CACHE) (hwrite : fs.writeCluster i = .ret (res, fs₁)) :
    Keeps fs fs₁ := by
  intro hm hcoh
  have hclean := hcoh.clean i hi
  rw [writeCluster] at hwrite
  simp only [hclean, Bool.not_false, if_true] at hwrite
  obtain ⟨-, rfl⟩ := Prod.mk.inj (Outcome.ret.inj hwrite)
  exact Keeps.refl _ hm hcoh

end

/-! ### The loops of the calls -/

section

variable {fs fs' : FAT12FS}

theorem readLoop_keeps {fuel v size readSize : Nat} {out out' : ByteMap} {r : Int}
    (h : fs.readLoop fuel v size readSize out = .ret (r, out', fs')) : Keeps fs fs' := by
  induction fuel generalizing fs v size readSize out with
  | zero => cases h
  | succ fuel ih =>
      rw [readLoop] at h
      split at h
      · obtain ⟨⟨cache, fs₁⟩, hget, h⟩ := Outcome.bind_eq_ret h
        cases cache with
        | none =>
            cases h
            exact keeps_none hget
        | some i =>
            obtain ⟨fs₂, hrel, h⟩ := Outcome.bind_eq_ret h
            exact (keeps_read hget hrel).trans (ih h)
      · cases h
        exact Keeps.refl _

theorem readFrom_keeps {node : Fat12Inode} {out out' : ByteMap} {size offset : Nat} {r : Int}
    (h : fs.readFrom node out size offset = .ret (r, out', fs')) : Keeps fs fs' := by
  rw [readFrom] at h
  obtain ⟨skipped, -, h⟩ := Outcome.bind_eq_ret h
  cases skipped with
  | none =>
      cases h
      exact Keeps.refl _
  | some target =>
      obtain ⟨⟨cache, fs₁⟩, hget, h⟩ := Outcome.bind_eq_ret h
      cases cache with
      | none =>
          cases h
          exact keeps_none hget
      | some i =>
          dsimp only at h
          split at h
          · obtain ⟨fs₂, hrel, h⟩ := Outcome.bind_eq_ret h
            cases h
            exact keeps_read hget hrel
          · obtain ⟨fs₂, hrel, h⟩ := Outcome.bind_eq_ret h
            exact (keeps_read hget hrel).trans (readLoop_keeps h)

theorem read_keeps {node : Option Fat12Inode} {out out' : ByteMap} {size offset r : Int}
    (h : fs.read node out size offset = .ret (r, out', fs')) : Keeps fs fs' := by
  cases node with
  | none =>
      cases h
      exact Keeps.refl _
  | some node =>
      rw [read] at h
      dsimp only at h
      split_ifs at h <;> first
        | (cases h; exact Keeps.refl _)
        | exact readFrom_keeps h

theorem writeLoop_keeps {src : ByteMap} {fuel v size writeSize : Nat} {r : Int}
    (h : writeLoop src fuel fs v size writeSize = .ret (r, fs')) : Keeps fs fs' := by
  induction fuel generalizing fs v size writeSize with
  | zero => cases h
  | succ fuel ih =>
      rw [writeLoop] at h
      split at h
      · obtain ⟨⟨cache, fs₁⟩, hget, h⟩ := Outcome.bind_eq_ret h
        cases cache with
        | none =>
            cases h
            exact keeps_none hget
        | some i =>
            obtain ⟨fs₂, hrel, h⟩ := Outcome.bind_eq_ret h
            exact (keeps_store hget hrel).trans (ih h)
      · cases h
        exact Keeps.refl _

theorem writeFrom_keeps {node : Fat12Inode} {src : ByteMap} {size offset : Nat} {r : Int}
    (h : fs.writeFrom node src size offset = .ret (r, fs')) : Keeps fs fs' := by
  rw [writeFrom] at h
  obtain ⟨skipped, -, h⟩ := Outcome.bind_eq_ret h
  cases skipped with
  | none =>
      cases h
      exact Keeps.refl _
  | some target =>
      obtain ⟨⟨cache, fs₁⟩, hget, h⟩ := Outcome.bind_eq_ret h
      cases cache with
      | none =>
          cases h
          exact keeps_none hget
      | some i =>
          dsimp only at h
          split at h
          · obtain ⟨fs₂, hrel, h⟩ := Outcome.bind_eq_ret h
            cases h
            exact keeps_store hget hrel
          · obtain ⟨fs₂, hrel, h⟩ := Outcome.bind_eq_ret h
            exact (keeps_store hget hrel).trans (writeLoop_keeps h)

theorem write_keeps {node : Option Fat12Inode} {src : ByteMap} {size offset r : Int}
    (h : fs.write node src size offset = .ret (r, fs')) : Keeps fs fs' := by
  cases node with
  | none =>
      cases h
      exact Keeps.refl _
  | some node =>
      rw [write] at h
      dsimp only at h
      split_ifs at h <;> first
        | (cases h; exact Keeps.refl _)
        | exact writeFrom_keeps h

/-- A cluster that is linked into a chain, or taken off one again. -/
theorem keeps_link (fs : FAT12FS) (c d v w : Nat) : Keeps fs ((fs.setFat c v).setFat d w) :=
  (keeps_setFat fs c v).trans (keeps_setFat _ d w)

theorem appendStart_keeps {node : Fat12Inode} {started : Option Fat12Inode}
    (h : fs.appendStart node = .ret (started, fs')) : Keeps fs fs' := by
  rw [appendStart] at h
  split at h
  · obtain ⟨first, -, h⟩ := Outcome.bind_eq_ret h
    split at h
    · cases h
      exact Keeps.refl _
    · have hset : Keeps fs { fs.setFat first 0xFFF with fatTableDirty := true } :=
        (keeps_setFat fs first 0xFFF).trans (keeps_fatTableDirty _ true)
      split at h
      · rename_i hflush
        cases h
        exact (hset.trans (keeps_flushFatTable hflush)).trans (keeps_freeCluster _ first)
      · rename_i hflush
        cases h
        exact hset.trans (keeps_flushFatTable hflush)
  · cases h
    exact Keeps.refl _

/-- What is different about the inode that `append` goes on with. -/
theorem appendStart_node {node started : Fat12Inode} (h : fs.appendStart node = .ret (some started, fs')) :
    started = { node with startCluster := started.startCluster } := by
  rw [appendStart] at h
  split at h
  · obtain ⟨first, -, h⟩ := Outcome.bind_eq_ret h
    split at h
    · cases h
    · split at h
      · cases h
      · cases h
        rfl
  · cases h
    rfl

theorem fillLast_keeps {cluster used size filled left : Nat} {src : ByteMap}
    (h : fs.fillLast cluster used src size = .ret (filled, left, fs')) : Keeps fs fs' := by
  rw [fillLast] at h
  split at h
  · obtain ⟨⟨cache, fs₁⟩, hget, h⟩ := Outcome.bind_eq_ret h
    cases cache with
    | none => cases h
    | some i =>
        obtain ⟨⟨res, fs₂⟩, hwrite, h⟩ := Outcome.bind_eq_ret h
        obtain ⟨fs₃, hrel, h⟩ := Outcome.bind_eq_ret h
        cases h
        exact keeps_write hget hwrite hrel
  · cases h
    exact Keeps.refl _

theorem appendLoop_keeps {fuel cluster size appended r : Nat} {src : ByteMap}
    (h : fs.appendLoop fuel cluster src size appended = .ret (r, fs')) : Keeps fs fs' := by
  induction fuel generalizing fs cluster src size appended with
  | zero => cases h
  | succ fuel ih =>
      rw [appendLoop] at h
      split at h
      · obtain ⟨new, -, h⟩ := Outcome.bind_eq_ret h
        split at h
        · cases h
          exact Keeps.refl _
        · have hlink : Keeps fs { (fs.setFat cluster new).setFat new 0xFFF with fatTableDirty := true } :=
            (keeps_link fs cluster new new 0xFFF).trans (keeps_fatTableDirty _ true)
          dsimp only at h
          split at h
          · rename_i hflush
            cases h
            exact (hlink.trans (keeps_flushFatTable hflush)).trans (keeps_link _ new cluster 0 0xFFF)
          · rename_i fs₁ hflush
            obtain ⟨⟨cache, fs₂⟩, hget, h⟩ := Outcome.bind_eq_ret h
            cases cache with
            | none => cases h
            | some i =>
                obtain ⟨⟨res, fs₃⟩, hwrite, h⟩ := Outcome.bind_eq_ret h
                obtain ⟨fs₄, hrel, h⟩ := Outcome.bind_eq_ret h
                have hstored := (hlink.trans (keeps_flushFatTable hflush)).trans (keeps_write hget hwrite hrel)
                split at h
                · exact hstored.trans (ih h)
                · cases h
                  exact hstored
      · cases h
        exact Keeps.refl _

theorem updateEntry_keeps {node : Fat12Inode} (h : fs.updateEntry node = .ret fs') : Keeps fs fs' := by
  rw [updateEntry] at h
  split at h
  · cases h
    exact keeps_rootDir fs _ true
  · obtain ⟨⟨cache, fs₁⟩, hget, h⟩ := Outcome.bind_eq_ret h
    cases cache with
    | none => cases h
    | some i =>
        dsimp only at h
        split at h
        · cases h
        · split at h
          · cases h
          · exact keeps_store hget h

theorem appendRest_cases {node node' : Fat12Inode} {src : ByteMap} {size r : Nat}
    (h : fs.appendRest node src size = .ret (r, node', fs')) :
    ∃ cluster filled left fs₁ fs₂,
      fs.fillLast cluster (node.size % fs.clusterSize) src size = .ret (filled, left, fs₁) ∧
        fs₁.appendLoop (left + 1) cluster (bytesFrom src filled) left filled = .ret (r, fs₂) ∧
        ((0 < r ∧ node' = { node with size := (node.size + r) % 2 ^ 32 } ∧ fs₂.updateEntry node' = .ret fs') ∨
          (r = 0 ∧ node' = node ∧ fs' = fs₂)) := by
  rw [appendRest] at h
  obtain ⟨cluster, -, h⟩ := Outcome.bind_eq_ret h
  obtain ⟨⟨filled, left, fs₁⟩, hfill, h⟩ := Outcome.bind_eq_ret h
  obtain ⟨⟨appended, fs₂⟩, hloop, h⟩ := Outcome.bind_eq_ret h
  refine ⟨cluster, filled, left, fs₁, fs₂, hfill, ?_⟩
  dsimp only at h
  split at h
  · rename_i hpos
    obtain ⟨fs₃, hupdate, h⟩ := Outcome.bind_eq_ret h
    cases h
    exact ⟨hloop, Or.inl ⟨hpos, rfl, hupdate⟩⟩
  · rename_i hzero
    cases h
    exact ⟨hloop, Or.inr ⟨Nat.eq_zero_of_not_pos hzero, rfl, rfl⟩⟩

theorem appendRest_keeps {node node' : Fat12Inode} {src : ByteMap} {size r : Nat}
    (h : fs.appendRest node src size = .ret (r, node', fs')) : Keeps fs fs' := by
  obtain ⟨cluster, filled, left, fs₁, fs₂, hfill, hloop, hend⟩ := appendRest_cases h
  have hwritten := (fillLast_keeps hfill).trans (appendLoop_keeps hloop)
  rcases hend with ⟨-, -, hupdate⟩ | ⟨-, -, rfl⟩
  · exact hwritten.trans (updateEntry_keeps hupdate)
  · exact hwritten

/-- The two parts of `append`, unless it gives up before the second. -/
theorem append_cases {node : Fat12Inode} {node' : Option Fat12Inode} {src : ByteMap} {size r : Int}
    (h : fs.append (some node) src size = .ret (r, node', fs')) :
    (r ≤ 0 ∧ node' = some node ∧ (fs' = fs ∨ fs.appendStart node = .ret (none, fs'))) ∨
      ∃ started fs₁ appended changed, 0 < size ∧ fs.appendStart node = .ret (some started, fs₁) ∧
        fs₁.appendRest started src size.toNat = .ret (appended, changed, fs') ∧
        r = appended ∧ node' = some changed := by
  rw [append] at h
  dsimp only at h
  split_ifs at h with hother hstart hspecial hnone
  case neg =>
    obtain ⟨⟨started, fs₁⟩, hstarted, h⟩ := Outcome.bind_eq_ret h
    cases started with
    | none =>
        cases h
        exact Or.inl ⟨by omega, rfl, Or.inr hstarted⟩
    | some started =>
        obtain ⟨⟨appended, changed, fs₂⟩, hrest, h⟩ := Outcome.bind_eq_ret h
        cases h
        exact Or.inr ⟨started, fs₁, appended, changed, by omega, hstarted, hrest, rfl, rfl⟩
  all_goals
    cases h
    exact Or.inl ⟨by omega, rfl, Or.inl rfl⟩

theorem append_keeps {node node' : Option Fat12Inode} {src : ByteMap} {size r : Int}
    (h : fs.append node src size = .ret (r, node', fs')) : Keeps fs fs' := by
  cases node with
  | none =>
      cases h
      exact Keeps.refl _
  | some node =>
      rcases append_cases h with ⟨-, -, rfl | hstart⟩ | ⟨started, fs₁, appended, changed, -, hstart, hrest, -, -⟩
      · exact Keeps.refl _
      · exact appendStart_keeps hstart
      · exact (appendStart_keeps hstart).trans (appendRest_keeps hrest)

/-! ### Directory entries -/

theorem clearCluster_keeps {c : Nat} {cleared : Option FAT12FS} (h : fs.clearCluster c = .ret cleared) :
    ∀ fs' ∈ cleared, Keeps fs fs' := by
  rw [clearCluster] at h
  obtain ⟨⟨cache, fs₁⟩, hget, h⟩ := Outcome.bind_eq_ret h
  cases cache with
  | none =>
      cases h
      exact nofun
  | some i =>
      obtain ⟨fs₂, hrel, h⟩ := Outcome.bind_eq_ret h
      cases h
      rintro _ ⟨⟩
      exact keeps_store hget hrel

theorem freeEntryLoop_keeps {fuel cluster prev : Nat} {free : FreeEntry}
    (h : freeEntryLoop fuel fs cluster prev = .ret (free, fs')) : Keeps fs fs' := by
  induction fuel generalizing fs cluster prev with
  | zero => cases h
  | succ fuel ih =>
      rw [freeEntryLoop] at h
      split at h
      · obtain ⟨⟨cache, fs₁⟩, hget, h⟩ := Outcome.bind_eq_ret h
        cases cache with
        | none =>
            cases h
            exact keeps_none hget
        | some i =>
            obtain ⟨fs₂, hrel, h⟩ := Outcome.bind_eq_ret h
            split at h
            · cases h
              exact keeps_read hget hrel
            · exact (keeps_read hget hrel).trans (ih h)
      · cases h
        exact Keeps.refl _

theorem findFreeEntry_keeps {dir : Option Fat12Inode} {free : FreeEntry}
    (h : fs.findFreeEntry dir = .ret (free, fs')) : Keeps fs fs' := by
  cases dir with
  | none =>
      rw [findFreeEntry] at h
      split at h <;> cases h <;> exact Keeps.refl _
  | some node =>
      rw [findFreeEntry] at h
      split at h
      · cases h
        exact Keeps.refl _
      · exact freeEntryLoop_keeps h

theorem putDirEntry_keeps {location : EntryLocation} {entryBuf : EntryBuf} {setDelete res : Bool}
    (h : fs.putDirEntry location entryBuf setDelete = .ret (res, fs')) : Keeps fs fs' := by
  rw [putDirEntry] at h
  split_ifs at h
  case neg =>
    obtain ⟨⟨cache, fs₁⟩, hget, h⟩ := Outcome.bind_eq_ret h
    cases cache with
    | none =>
        cases h
        exact keeps_none hget
    | some i =>
        dsimp only at h
        split at h
        · obtain ⟨fs₂, hrel, h⟩ := Outcome.bind_eq_ret h
          cases h
          exact keeps_read hget hrel
        · obtain ⟨fs₂, hrel, h⟩ := Outcome.bind_eq_ret h
          cases h
          exact keeps_store hget hrel
  all_goals
    cases h
    exact Keeps.refl _

theorem writeDirEntry_keeps {location : EntryLocation} {entry : NormalizedEntry} {res : Bool}
    (h : fs.writeDirEntry location entry = .ret (res, fs')) : Keeps fs fs' := by
  rw [writeDirEntry] at h
  split_ifs at h
  · cases h
    exact Keeps.refl _
  · cases h
    exact keeps_rootDir fs _ true
  · exact putDirEntry_keeps h

theorem deleteDirEntry_keeps {location : EntryLocation} {res : Bool}
    (h : fs.deleteDirEntry location = .ret (res, fs')) : Keeps fs fs' := by
  rw [deleteDirEntry] at h
  split_ifs at h
  · cases h
    exact Keeps.refl _
  · cases h
    exact keeps_rootDir fs _ true
  · exact putDirEntry_keeps h

theorem freeLoop_keeps {fuel cluster : Nat} (h : freeLoop fuel fs cluster = .ret fs') : Keeps fs fs' := by
  induction fuel generalizing fs cluster with
  | zero => cases h
  | succ fuel ih =>
      rw [freeLoop] at h
      split at h
      · exact ((keeps_freeCluster fs cluster).trans (keeps_fatTableDirty _ true)).trans (ih h)
      · cases h
        exact Keeps.refl _

theorem rollback_keeps (fs : FAT12FS) (appended : Option (Nat × Nat)) : Keeps fs (fs.rollback appended) := by
  cases appended with
  | none => exact Keeps.refl _
  | some pair => exact keeps_link fs pair.1 pair.2 0 0xFFF

theorem makeEntry_keeps {dir : Option Fat12Inode} {made : Option (EntryLocation × Option (Nat × Nat))}
    (h : fs.makeEntry dir = .ret (made, fs')) : Keeps fs fs' := by
  rw [makeEntry] at h
  obtain ⟨⟨free, fs₁⟩, hfind, h⟩ := Outcome.bind_eq_ret h
  have hfound := findFreeEntry_keeps hfind
  cases free with
  | failed | full | found =>
      cases h
      exact hfound
  | extend last =>
      obtain ⟨new, -, h⟩ := Outcome.bind_eq_ret h
      split at h
      · cases h
        exact hfound
      · have hlink := hfound.trans ((keeps_link fs₁ last new new 0xFFF).trans (keeps_fatTableDirty _ true))
        obtain ⟨cleared, hclear, h⟩ := Outcome.bind_eq_ret h
        cases cleared with
        | none =>
            cases h
            exact hlink.trans (keeps_freeCluster _ new)
        | some fs₂ =>
            cases h
            exact hlink.trans (clearCluster_keeps hclear _ rfl)

/-! ### Flushing -/

theorem flushCache_keeps {c : Nat} {res : Bool} (h : fs.flushCache c = .ret (res, fs')) : Keeps fs fs' := by
  rw [flushCache] at h
  cases hfind : fs.findCache c with
  | none =>
      rw [hfind] at h
      cases h
      exact Keeps.refl _
  | some i =>
      rw [hfind] at h
      have hlt : i < FAT12_MAX_CACHE := List.mem_range.mp (List.mem_of_find?_eq_some hfind)
      exact keeps_writeCluster hlt h

theorem flushAllLoop_keeps {n i : Nat} {res res' : Bool} (hn : i + n ≤ FAT12_MAX_CACHE)
    (h : flushAllLoop n i res fs = .ret (res', fs')) : Keeps fs fs' := by
  induction n generalizing fs i res with
  | zero =>
      cases h
      exact Keeps.refl _
  | succ n ih =>
      obtain ⟨⟨written, fs₁⟩, hwrite, h⟩ := Outcome.bind_eq_ret h
      exact (keeps_writeCluster (by omega) hwrite).trans (ih (by omega) h)

theorem flushLoop_keeps {fuel cluster : Nat} (h : flushLoop fuel fs cluster = .ret fs') : Keeps fs fs' := by
  induction fuel generalizing fs cluster with
  | zero => cases h
  | succ fuel ih =>
      rw [flushLoop] at h
      split at h
      · obtain ⟨⟨res, fs₁⟩, hflush, h⟩ := Outcome.bind_eq_ret h
        exact (flushCache_keeps hflush).trans (ih h)
      · cases h
        exact Keeps.refl _

theorem flush_keeps {node : Fat12Inode} (h : fs.flush node = .ret fs') : Keeps fs fs' := by
  rw [flush] at h
  obtain ⟨fs₂, hloop, h⟩ := Outcome.bind_eq_ret h
  exact ((keeps_flushFatTable rfl).trans (flushLoop_keeps hloop)).trans (updateEntry_keeps h)

/-- The root directory comes before the first cluster. -/
theorem keeps_writeTmp {s : Nat} {buf : ByteMap} (hs : s < fs.dataStartSector) :
    Keeps fs ({ fs with tmpSectorBuffer := buf }.writeTmp s 0).2 := by
  intro hm hcoh
  rw [writeTmp, Disk.ideWriteSector_ok hm.reliable]
  refine keeps_of_same ⟨rfl, rfl, rfl, rfl, rfl, rfl, rfl⟩ rfl ?_ hm hcoh
  funext c k
  have hne : fs.dataStartSector + (c - 2) * fs.bpb.sectorsPerCluster + k / 512 ≠ s := by omega
  exact congrFun (Disk.putSector_of_ne hne) _

theorem flushRootSectors_keeps {n sector entryIdx : Nat} {res : Bool} (hn : sector + n ≤ fs.dataStartSector) :
    Keeps fs (flushRootSectors n sector entryIdx res fs).2 := by
  induction n generalizing fs sector entryIdx res with
  | zero => exact Keeps.refl _
  | succ n ih =>
      intro hm hcoh
      have hbefore : sector < fs.dataStartSector := by omega
      have hwrite := @keeps_writeTmp fs sector (fs.flushRootEntries (fs.bpb.bytesPerSector / FAT12_ENTRY_BYTES) 0 entryIdx
        (memzero fs.tmpSectorBuffer fs.bpb.bytesPerSector)).2 hbefore
      obtain ⟨-, hsame⟩ := hwrite hm hcoh
      have hrest := hsame.dataStartSector
      exact (hwrite.trans (ih (by omega))) hm hcoh

theorem flushRootDir_keeps {res : Bool} (h : fs.flushRootDir = (res, fs')) : Keeps fs fs' := by
  intro hm hcoh
  rw [flushRootDir] at h
  obtain ⟨-, rfl⟩ := Prod.mk.inj h
  refine Keeps.trans ?_ (keeps_rootDir _ _ false) hm hcoh
  by_cases hbefore : fs.bpb.reservedSectorCount + fs.bpb.numFats * fs.bpb.fatSize16 ≤ fs.dataStartSector
  · exact flushRootSectors_keeps (by omega)
  · rw [Nat.sub_eq_zero_of_le (by omega)]
    exact Keeps.refl _

theorem flushAll_keeps (h : fs.flushAll = .ret fs') : Keeps fs fs' := by
  rw [flushAll] at h
  obtain ⟨⟨res, fs₂⟩, hcache, h⟩ := Outcome.bind_eq_ret h
  cases h
  exact ((flushRootDir_keeps rfl).trans (flushAllLoop_keeps (Nat.le_refl _) hcache)).trans
    (keeps_flushFatTable rfl)

end

end FAT12FS

/-! ### The calls -/

namespace Vfs.FatVolume

open FAT12FS

variable {vol vol' : FatVolume}

theorem releaseInode_fs (vol : FatVolume) (place : Nat) : (vol.releaseInode place).fs = vol.fs := by
  rw [releaseInode]
  split <;> rfl

theorem keeps_releaseInode (vol : FatVolume) (place : Nat) : Keeps vol.fs (vol.releaseInode place).fs := by
  rw [releaseInode_fs]
  exact Keeps.refl _

theorem lookupLoop_keeps {name : List Byte} {fuel cluster : Nat} {found : Option Found} {clusters : List Nat}
    (h : lookupLoop name fuel cluster vol = .ret (found, clusters, vol')) : Keeps vol.fs vol'.fs := by
  induction fuel generalizing vol cluster found clusters with
  | zero => cases h
  | succ fuel ih =>
      rw [lookupLoop] at h
      split at h
      · obtain ⟨⟨cache, fs₁⟩, hget, h⟩ := Outcome.bind_eq_ret h
        cases cache with
        | none =>
            cases h
            exact keeps_none hget
        | some i =>
            dsimp only at h
            split at h
            · obtain ⟨fs₂, hrel, h⟩ := Outcome.bind_eq_ret h
              cases h
              rw [takeInode_fs] at hrel
              exact keeps_read hget hrel
            · obtain ⟨fs₂, hrel, h⟩ := Outcome.bind_eq_ret h
              cases h
              exact keeps_read hget hrel
            · obtain ⟨fs₂, hrel, h⟩ := Outcome.bind_eq_ret h
              obtain ⟨⟨found', clusters', vol₂⟩, hrest, h⟩ := Outcome.bind_eq_ret h
              cases h
              exact (keeps_read hget hrel).trans (ih hrest)
      · cases h
        exact Keeps.refl _

theorem lookupRoot_fs (vol : FatVolume) (name : List Byte) : (vol.lookupRoot name).2.fs = vol.fs := by
  rw [lookupRoot]
  split
  · rfl
  · exact takeInode_fs vol _ _

theorem lookup_keeps {dir : Option Nat} {name : List Byte} {found : Option Found} {clusters : List Nat}
    (h : vol.lookup dir name = .ret (found, clusters, vol')) : Keeps vol.fs vol'.fs := by
  cases dir with
  | none =>
      have hroot : (vol.lookupRoot name).2 = vol' := (Prod.mk.inj (Prod.mk.inj (Outcome.ret.inj h)).2).2
      rw [← hroot, lookupRoot_fs]
      exact Keeps.refl _
  | some place =>
      rw [lookup] at h
      split at h
      · cases h
        exact Keeps.refl _
      · exact lookupLoop_keeps h

theorem nextLoop_keeps {fs fs' : FAT12FS} {fuel : Nat} {it it' : DirIter} {found : Bool}
    (h : DirIter.nextLoop fuel fs it = .ret (found, it', fs')) : Keeps fs fs' := by
  induction fuel generalizing fs it with
  | zero => cases h
  | succ fuel ih =>
      rw [DirIter.nextLoop] at h
      split at h
      · obtain ⟨⟨cache, fs₁⟩, hget, h⟩ := Outcome.bind_eq_ret h
        cases cache with
        | none =>
            cases h
            exact keeps_none hget
        | some i =>
            dsimp only at h
            split at h
            · obtain ⟨fs₂, hrel, h⟩ := Outcome.bind_eq_ret h
              cases h
              exact keeps_read hget hrel
            · obtain ⟨fs₂, hrel, h⟩ := Outcome.bind_eq_ret h
              cases h
              exact keeps_read hget hrel
            · obtain ⟨fs₂, hrel, h⟩ := Outcome.bind_eq_ret h
              exact (keeps_read hget hrel).trans (ih h)
      · cases h
        exact Keeps.refl _

theorem next_keeps {fs fs' : FAT12FS} {it it' : DirIter} {found : Bool}
    (h : it.next fs = .ret (found, it', fs')) : Keeps fs fs' := by
  rw [DirIter.next] at h
  split at h
  · cases h
    exact Keeps.refl _
  · exact nextLoop_keeps h

theorem createFile_keeps {dir : Option Nat} {name : List Byte} {attr : Byte} {res : Bool}
    (h : vol.createFile dir name attr = .ret (res, vol')) : Keeps vol.fs vol'.fs := by
  rw [createFile] at h
  split at h
  · cases h
    exact Keeps.refl _
  · obtain ⟨⟨file, clusters, vol₁⟩, hlookup, h⟩ := Outcome.bind_eq_ret h
    have hlooked := lookup_keeps hlookup
    cases file with
    | some file =>
        cases h
        exact hlooked.trans (keeps_releaseInode vol₁ file.place)
    | none =>
        obtain ⟨⟨made, fs₂⟩, hmake, h⟩ := Outcome.bind_eq_ret h
        have hmade := hlooked.trans (makeEntry_keeps hmake)
        cases made with
        | none =>
            cases h
            exact hmade
        | some place =>
            obtain ⟨⟨written, fs₃⟩, hwrite, h⟩ := Outcome.bind_eq_ret h
            have hwritten := hmade.trans (writeDirEntry_keeps hwrite)
            cases written with
            | false =>
                cases h
                exact hwritten.trans (rollback_keeps fs₃ place.2)
            | true =>
                cases h
                exact hwritten

theorem removeTarget_keeps {place : Nat} {res : Bool} (h : vol.removeTarget place = .ret (res, vol')) :
    Keeps vol.fs vol'.fs := by
  rw [removeTarget] at h
  obtain ⟨⟨deleted, fs₁⟩, hdelete, h⟩ := Outcome.bind_eq_ret h
  have hdeleted := deleteDirEntry_keeps hdelete
  cases deleted with
  | false =>
      cases h
      exact hdeleted.trans (keeps_releaseInode { vol with fs := fs₁ } place)
  | true =>
      obtain ⟨fs₂, hfree, h⟩ := Outcome.bind_eq_ret h
      cases h
      exact (hdeleted.trans (freeLoop_keeps hfree)).trans (keeps_releaseInode { vol with fs := fs₂ } place)

theorem remove_keeps {dir : Option Nat} {name : List Byte} {res : Bool}
    (h : vol.remove dir name = .ret (res, vol')) : Keeps vol.fs vol'.fs := by
  rw [remove] at h
  obtain ⟨⟨file, clusters, vol₁⟩, hlookup, h⟩ := Outcome.bind_eq_ret h
  have hlooked := lookup_keeps hlookup
  cases file with
  | none =>
      cases h
      exact hlooked
  | some file =>
      dsimp only at h
      split at h
      · cases h
        exact hlooked.trans (keeps_releaseInode vol₁ file.place)
      · exact hlooked.trans (removeTarget_keeps h)

theorem createDirectory_keeps {dir : Option Nat} {name : List Byte} {res : Bool}
    (h : vol.createDirectory dir name = .ret (res, vol')) : Keeps vol.fs vol'.fs := by
  rw [createDirectory] at h
  obtain ⟨⟨file, clusters, vol₁⟩, hlookup, h⟩ := Outcome.bind_eq_ret h
  have hlooked := lookup_keeps hlookup
  cases file with
  | some file =>
      cases h
      exact hlooked.trans (keeps_releaseInode vol₁ file.place)
  | none =>
      obtain ⟨⟨made, fs₂⟩, hmake, h⟩ := Outcome.bind_eq_ret h
      have hmade := hlooked.trans (makeEntry_keeps hmake)
      cases made with
      | none =>
          cases h
          exact hmade
      | some place =>
          obtain ⟨start, -, h⟩ := Outcome.bind_eq_ret h
          split at h
          · cases h
            exact hmade.trans (rollback_keeps fs₂ place.2)
          · obtain ⟨⟨written, fs₃⟩, hwrite, h⟩ := Outcome.bind_eq_ret h
            have hwritten := (hmade.trans (keeps_setFat fs₂ start 0xFFF)).trans (writeDirEntry_keeps hwrite)
            cases written with
            | false =>
                cases h
                exact (hwritten.trans (rollback_keeps fs₃ place.2)).trans (keeps_freeCluster _ start)
            | true =>
                obtain ⟨cleared, hclear, h⟩ := Outcome.bind_eq_ret h
                cases cleared with
                | none => cases h
                | some fs₄ =>
                    cases h
                    exact hwritten.trans (clearCluster_keeps hclear _ rfl)

theorem isDirEmpty_keeps {place : Nat} {res : Int} (h : vol.isDirEmpty place = .ret (res, vol')) :
    Keeps vol.fs vol'.fs := by
  rw [isDirEmpty] at h
  dsimp only at h
  split_ifs at h
  · cases h
    exact Keeps.refl _
  · cases h
    exact Keeps.refl _
  · split at h
    · cases h
      exact Keeps.refl _
    · obtain ⟨⟨found, it', fs₁⟩, hnext, h⟩ := Outcome.bind_eq_ret h
      cases h
      exact next_keeps hnext

theorem removeDirectory_keeps {dir : Option Nat} {name : List Byte} {res : Bool}
    (h : vol.removeDirectory dir name = .ret (res, vol')) : Keeps vol.fs vol'.fs := by
  rw [removeDirectory] at h
  obtain ⟨⟨target, clusters, vol₁⟩, hlookup, h⟩ := Outcome.bind_eq_ret h
  have hlooked := lookup_keeps hlookup
  cases target with
  | none =>
      cases h
      exact hlooked
  | some target =>
      dsimp only at h
      split at h
      · cases h
        exact hlooked.trans (keeps_releaseInode vol₁ target.place)
      · obtain ⟨⟨empty, vol₂⟩, hempty, h⟩ := Outcome.bind_eq_ret h
        have hlooked := hlooked.trans (isDirEmpty_keeps hempty)
        dsimp only at h
        split_ifs at h
        · cases h
          exact hlooked.trans (keeps_releaseInode vol₂ target.place)
        · cases h
          exact hlooked.trans (keeps_releaseInode vol₂ target.place)
        · exact hlooked.trans (removeTarget_keeps h)

end Vfs.FatVolume

end SysuOs
