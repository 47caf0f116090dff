import SysuOs.FatCoherence

/-! Which walks along the FAT end. No walk keeps a list of the clusters it has been to, so that it ends just if
the chain it follows does; `remove` frees what it passes, and ends in any case. -/

namespace SysuOs

namespace Outcome

/-- The call returns or halts the machine. -/
def Terminates {α : Type} (x : Outcome α) : Prop := x ≠ .diverge

variable {α β : Type}

@[simp] theorem terminates_ret (a : α) : Terminates (ret a) := nofun

@[simp] theorem terminates_pure (a : α) : Terminates (pure a : Outcome α) := nofun

@[simp] theorem terminates_halt : Terminates (halt : Outcome α) := nofun

theorem Terminates.bind {x : Outcome α} {f : α → Outcome β} (hx : Terminates x)
    (hf : ∀ a, x = ret a → Terminates (f a)) : Terminates (x >>= f) := by
  cases x with
  | ret a => exact hf a rfl
  | halt => exact terminates_halt
  | diverge => exact absurd rfl hx

theorem terminates_ASSERT (p : Prop) [Decidable p] : Terminates (ASSERT p) := by
  unfold ASSERT
  split
  · exact terminates_ret ()
  · exact terminates_halt

end Outcome

open Outcome

namespace FAT12FS

/-! ### Chains that end -/

/-- A chain of the table runs in a cycle. -/
def Cyclic (table : Nat → Nat) : Prop := ∃ c n, 0 < n ∧ table^[n] c = c ∧ ∀ m, InChain (table^[m] c)

/-- The chain from `c` on ends within `n` steps. -/
def EndsIn (table : Nat → Nat) (n c : Nat) : Prop := ∃ m, m ≤ n ∧ ¬InChain (table^[m] c)

/-- The number of clusters a chain can lead to. -/
def chainCount : Nat := 0xFF6

theorem EndsIn.succ {table : Nat → Nat} {n c : Nat} (h : EndsIn table n c) (hc : InChain c) :
    ∃ k, n = k + 1 ∧ EndsIn table k (table c) := by
  obtain ⟨m, hm, hend⟩ := h
  cases m with
  | zero => exact absurd hc hend
  | succ m => exact ⟨n - 1, by omega, m, by omega, hend⟩

theorem endsIn_of_not {table : Nat → Nat} {n c : Nat} (h : ¬InChain c) : EndsIn table n c := ⟨0, Nat.zero_le _, h⟩

theorem endsIn_of_not_cyclic {table : Nat → Nat} (h : ¬Cyclic table) (c : Nat) : EndsIn table chainCount c := by
  by_contra hnot
  have hin : ∀ m, m ≤ (Finset.Ico 2 0xFF8).card → table^[m] c ∈ Finset.Ico 2 0xFF8 := by
    intro m hm
    rw [Nat.card_Ico] at hm
    rw [Finset.mem_Ico]
    by_contra hout
    exact hnot ⟨m, hm, hout⟩
  obtain ⟨b, n, hn, hb, hall⟩ := exists_cycle hin
  exact h ⟨b, n, hn, hb, fun m => Finset.mem_Ico.mp (hall m)⟩

/-! ### What never loops -/

theorem cluster2sector_terminates (fs : FAT12FS) (c : Nat) : Terminates (fs.cluster2sector c) := by
  unfold cluster2sector
  apply Terminates.bind (terminates_ASSERT _)
  intro _ _
  apply Terminates.bind (terminates_ASSERT _)
  intro _ _
  apply Terminates.bind (terminates_ASSERT _)
  intro _ _
  exact terminates_pure _

theorem readCluster_terminates (fs : FAT12FS) (i : Nat) : Terminates (fs.readCluster i) := by
  unfold readCluster
  apply Terminates.bind (fs.cluster2sector_terminates _)
  intro sector _
  split <;> exact terminates_pure _

theorem writeCluster_terminates (fs : FAT12FS) (i : Nat) : Terminates (fs.writeCluster i) := by
  unfold writeCluster
  dsimp only
  split
  · exact terminates_pure _
  · apply Terminates.bind (fs.cluster2sector_terminates _)
    intro sector _
    split <;> exact terminates_pure _

theorem getCache_terminates (fs : FAT12FS) (c : Nat) : Terminates (fs.getCache c) := by
  unfold getCache
  split
  · exact terminates_pure _
  · split
    · exact terminates_pure _
    · split
      · apply Terminates.bind (readCluster_terminates _ _)
        intro read _
        dsimp only
        split
        · exact terminates_pure _
        · exact terminates_halt
      · exact terminates_pure _

theorem releaseCache_terminates (fs : FAT12FS) (i : Nat) : Terminates (fs.releaseCache i) := by
  unfold releaseCache
  dsimp only
  split
  · exact terminates_pure _
  · split
    · apply Terminates.bind (writeCluster_terminates _ _)
      intro written _
      split
      · exact terminates_pure _
      · exact terminates_halt
    · exact terminates_pure _

theorem flushCache_terminates (fs : FAT12FS) (c : Nat) : Terminates (fs.flushCache c) := by
  unfold flushCache
  split
  · exact terminates_pure _
  · exact fs.writeCluster_terminates _

theorem putDirEntry_terminates (fs : FAT12FS) (location : EntryLocation) (entryBuf : EntryBuf) (setDelete : Bool) :
    Terminates (fs.putDirEntry location entryBuf setDelete) := by
  unfold putDirEntry
  split
  · exact terminates_pure _
  · split
    · exact terminates_pure _
    · apply Terminates.bind (fs.getCache_terminates _)
      rintro ⟨cache, fs₁⟩ _
      cases cache with
      | none => exact terminates_pure _
      | some i =>
          dsimp only
          split
          · apply Terminates.bind (releaseCache_terminates _ _)
            intro _ _
            exact terminates_pure _
          · apply Terminates.bind (releaseCache_terminates _ _)
            intro _ _
            exact terminates_pure _

theorem deleteDirEntry_terminates (fs : FAT12FS) (location : EntryLocation) :
    Terminates (fs.deleteDirEntry location) := by
  unfold deleteDirEntry
  split
  · split <;> exact terminates_pure _
  · exact fs.putDirEntry_terminates _ _ _

theorem updateEntry_terminates (fs : FAT12FS) (node : Fat12Inode) : Terminates (fs.updateEntry node) := by
  unfold updateEntry
  split
  · exact terminates_pure _
  · apply Terminates.bind (fs.getCache_terminates _)
    rintro ⟨cache, fs₁⟩ _
    cases cache with
    | none => exact terminates_halt
    | some i =>
        dsimp only
        split
        · exact terminates_halt
        · split
          · exact terminates_halt
          · exact releaseCache_terminates _ _

/-! ### The walks that only read the FAT -/

section

variable {fs : FAT12FS}

theorem CacheOnly.endsIn {fs fs' : FAT12FS} (h : CacheOnly fs fs') {n c : Nat} (hend : EndsIn fs.fatTable n c) :
    EndsIn fs'.fatTable n c := by
  rwa [h.fatTable]

theorem freeEntryLoop_terminates {fuel n cluster prev : Nat} (hend : EndsIn fs.fatTable n cluster)
    (hfuel : n < fuel) : Terminates (freeEntryLoop fuel fs cluster prev) := by
  induction fuel generalizing fs n cluster prev with
  | zero => omega
  | succ fuel ih =>
      rw [freeEntryLoop]
      split
      · rename_i hin
        obtain ⟨k, rfl, hnext⟩ := hend.succ ⟨hin.1, by omega⟩
        apply Terminates.bind (fs.getCache_terminates _)
        rintro ⟨cache, fs₁⟩ hget
        cases cache with
        | none => exact terminates_pure _
        | some i =>
            apply Terminates.bind (releaseCache_terminates _ _)
            intro fs₂ hrel
            have honly := (getCache_cacheOnly hget).trans (releaseCache_cacheOnly hrel)
            split
            · exact terminates_pure _
            · apply ih _ (by omega : k < fuel)
              rwa [honly.fatTable]
      · exact terminates_pure _

theorem findFreeEntry_terminates (hends : ∀ c, EndsIn fs.fatTable chainCount c) (dir : Option Fat12Inode) :
    Terminates (fs.findFreeEntry dir) := by
  unfold findFreeEntry
  split
  · split <;> exact terminates_pure _
  · split
    · exact terminates_pure _
    · exact freeEntryLoop_terminates (hends _) (by decide)

theorem flushLoop_terminates {fuel n cluster : Nat} (hend : EndsIn fs.fatTable n cluster) (hfuel : n < fuel) :
    Terminates (flushLoop fuel fs cluster) := by
  induction fuel generalizing fs n cluster with
  | zero => omega
  | succ fuel ih =>
      rw [flushLoop]
      split
      · rename_i hin
        obtain ⟨k, rfl, hnext⟩ := hend.succ ⟨hin.1, by omega⟩
        apply Terminates.bind (fs.flushCache_terminates _)
        rintro ⟨res, fs₁⟩ hflush
        have htable : fs₁.fatTable = fs.fatTable := by
          unfold flushCache at hflush
          split at hflush
          · rw [← (Prod.mk.inj (Outcome.ret.inj hflush)).2]
          · exact (writeCluster_cacheOnly hflush).fatTable
        dsimp only
        apply ih _ (by omega : k < fuel)
        rwa [htable]
      · exact terminates_pure _

theorem skipLoop_terminates {fuel c offset : Nat} (hsize : 0 < fs.clusterSize) (hfuel : offset < fuel) :
    Terminates (fs.skipLoop fuel c offset) := by
  induction fuel generalizing c offset with
  | zero => omega
  | succ fuel ih =>
      rw [skipLoop]
      split
      · split
        · exact terminates_pure _
        · exact ih (by omega)
      · exact terminates_pure _

theorem readLoop_terminates {fuel n c size readSize : Nat} {out : ByteMap} (hend : EndsIn fs.fatTable n c)
    (hfuel : n < fuel) : Terminates (fs.readLoop fuel c size readSize out) := by
  induction fuel generalizing fs n c size readSize out with
  | zero => omega
  | succ fuel ih =>
      rw [readLoop]
      split
      · rename_i hin
        obtain ⟨k, rfl, hnext⟩ := hend.succ hin.2
        apply Terminates.bind (fs.getCache_terminates _)
        rintro ⟨cache, fs₁⟩ hget
        cases cache with
        | none => exact terminates_pure _
        | some i =>
            apply Terminates.bind (releaseCache_terminates _ _)
            intro fs₂ hrel
            have honly := (getCache_cacheOnly hget).trans (releaseCache_cacheOnly hrel)
            apply ih _ (by omega : k < fuel)
            rwa [honly.fatTable]
      · exact terminates_pure _

theorem readFrom_terminates (hsize : 0 < fs.clusterSize) (hends : ∀ c, EndsIn fs.fatTable chainCount c)
    (node : Fat12Inode) (out : ByteMap) (size offset : Nat) : Terminates (fs.readFrom node out size offset) := by
  unfold readFrom
  apply Terminates.bind (skipLoop_terminates hsize (Nat.lt_succ_self _))
  intro skipped _
  cases skipped with
  | none => exact terminates_pure _
  | some found =>
      apply Terminates.bind (fs.getCache_terminates _)
      rintro ⟨cache, fs₁⟩ hget
      cases cache with
      | none => exact terminates_pure _
      | some i =>
          dsimp only
          split
          · apply Terminates.bind (releaseCache_terminates _ _)
            intro _ _
            exact terminates_pure _
          · apply Terminates.bind (releaseCache_terminates _ _)
            intro fs₂ hrel
            have honly := (getCache_cacheOnly hget).trans (releaseCache_cacheOnly hrel)
            apply readLoop_terminates (honly.endsIn (hends _))
            simp only [chainCount, FAT12_MAX_CLUSTERS]
            omega

theorem read_terminates (hsize : 0 < fs.clusterSize) (hends : ∀ c, EndsIn fs.fatTable chainCount c)
    (node : Option Fat12Inode) (out : ByteMap) (size offset : Int) : Terminates (fs.read node out size offset) := by
  unfold read
  split
  · exact terminates_pure _
  · split_ifs
    all_goals first
      | exact terminates_pure _
      | exact readFrom_terminates hsize hends _ _ _ _

/-- The writes through the pointer to a buffer leave the FAT alone. -/
theorem cacheOnly_edited (fs : FAT12FS) (i : Nat) (buf : ByteMap) : CacheOnly fs ((fs.setBuf i buf).setDirty i) :=
  (CacheOnly.setSlot fs i _).trans (CacheOnly.setSlot _ i _)

theorem writeLoop_terminates {fuel n c size writeSize : Nat} {src : ByteMap} (hend : EndsIn fs.fatTable n c)
    (hfuel : n < fuel) : Terminates (writeLoop src fuel fs c size writeSize) := by
  induction fuel generalizing fs n c size writeSize with
  | zero => omega
  | succ fuel ih =>
      rw [writeLoop]
      split
      · rename_i hin
        obtain ⟨k, rfl, hnext⟩ := hend.succ hin.2
        apply Terminates.bind (fs.getCache_terminates _)
        rintro ⟨cache, fs₁⟩ hget
        cases cache with
        | none => exact terminates_pure _
        | some i =>
            apply Terminates.bind (releaseCache_terminates _ _)
            intro fs₂ hrel
            have honly := (getCache_cacheOnly hget).trans
              ((cacheOnly_edited _ _ _).trans (releaseCache_cacheOnly hrel))
            apply ih _ (by omega : k < fuel)
            rwa [honly.fatTable]
      · exact terminates_pure _

theorem writeFrom_terminates (hsize : 0 < fs.clusterSize) (hends : ∀ c, EndsIn fs.fatTable chainCount c)
    (node : Fat12Inode) (src : ByteMap) (size offset : Nat) : Terminates (fs.writeFrom node src size offset) := by
  unfold writeFrom
  apply Terminates.bind (skipLoop_terminates hsize (Nat.lt_succ_self _))
  intro skipped _
  cases skipped with
  | none => exact terminates_pure _
  | some found =>
      apply Terminates.bind (fs.getCache_terminates _)
      rintro ⟨cache, fs₁⟩ hget
      cases cache with
      | none => exact terminates_pure _
      | some i =>
          dsimp only
          split
          · apply Terminates.bind (releaseCache_terminates _ _)
            intro _ _
            exact terminates_pure _
          · apply Terminates.bind (releaseCache_terminates _ _)
            intro fs₂ hrel
            have honly := (getCache_cacheOnly hget).trans
              ((cacheOnly_edited _ _ _).trans (releaseCache_cacheOnly hrel))
            apply writeLoop_terminates (honly.endsIn (hends _))
            simp only [chainCount, FAT12_MAX_CLUSTERS]
            omega

theorem write_terminates (hsize : 0 < fs.clusterSize) (hends : ∀ c, EndsIn fs.fatTable chainCount c)
    (node : Option Fat12Inode) (src : ByteMap) (size offset : Int) : Terminates (fs.write node src size offset) := by
  unfold write
  split
  · exact terminates_pure _
  · split_ifs
    all_goals first
      | exact terminates_pure _
      | exact writeFrom_terminates hsize hends _ _ _ _

end

/-! ### `append`, which adds to the chain it has walked -/

/-- What the loops over clusters take for granted: clusters have bytes, and the table has an entry for each. -/
structure Sized (fs : FAT12FS) : Prop where
  clusterSize : 0 < fs.clusterSize
  clusterCount : fs.clusterCount ≤ FAT12_MAX_CLUSTERS

section

variable {fs fs' : FAT12FS}

theorem CacheOnly.sized (h : CacheOnly fs fs') (hsized : Sized fs) : Sized fs' := by
  obtain ⟨pool, device, rfl⟩ := h.eq
  exact ⟨hsized.clusterSize, hsized.clusterCount⟩

theorem flushGroups_frame (fs : FAT12FS) (n i idx : Nat) : ∃ tmp device,
    (fs.flushGroups n i idx).2 = { fs with tmpSectorBuffer := tmp, device := device } := by
  induction n generalizing fs i idx with
  | zero => exact ⟨_, _, rfl⟩
  | succ n ih =>
      unfold flushGroups
      dsimp only [writeTmp]
      split
      · obtain ⟨tmp, device, h⟩ := ih _ _ _
        exact ⟨tmp, device, h⟩
      · exact ⟨_, _, rfl⟩

theorem flushFatTable_frame {res : Bool} (h : fs.flushFatTable = (res, fs')) :
    fs'.fatTable = fs.fatTable ∧ (Sized fs → Sized fs') := by
  obtain ⟨tmp, device, hframe⟩ := flushGroups_frame fs ((fs.bpb.fatSize16 + 2) / 3) 0 0
  unfold flushFatTable at h
  rw [h] at hframe
  dsimp only at hframe
  rw [hframe]
  exact ⟨rfl, fun hsized => ⟨hsized.clusterSize, hsized.clusterCount⟩⟩

theorem allocateClusterLoop_terminates {fuel idx : Nat} (hcount : fs.clusterCount ≤ FAT12_MAX_CLUSTERS)
    (hfuel : fs.clusterCount - idx < fuel) : Terminates (fs.allocateClusterLoop fuel idx) := by
  induction fuel generalizing idx with
  | zero => omega
  | succ fuel ih =>
      rw [allocateClusterLoop]
      split
      · rename_i hlt
        split
        · exact terminates_ret _
        · simp only [FAT12_MAX_CLUSTERS] at hcount
          rw [Nat.mod_eq_of_lt (by omega)]
          exact ih (by omega)
      · exact terminates_ret _

theorem allocateCluster_terminates (hsized : Sized fs) : Terminates fs.allocateCluster := by
  have hcount := hsized.clusterCount
  apply allocateClusterLoop_terminates hcount
  simp only [FAT12_MAX_CLUSTERS] at hcount
  omega

theorem lastClusterLoop_terminates {fuel n cluster : Nat} (hend : EndsIn fs.fatTable n (fs.fatTable cluster))
    (hfuel : n < fuel) : Terminates (fs.lastClusterLoop fuel cluster) := by
  induction fuel generalizing n cluster with
  | zero => omega
  | succ fuel ih =>
      rw [lastClusterLoop]
      split
      · rename_i hin
        obtain ⟨k, rfl, hnext⟩ := hend.succ hin
        exact ih hnext (by omega)
      · exact terminates_pure _

theorem appendStart_terminates (hsized : Sized fs) (node : Fat12Inode) : Terminates (fs.appendStart node) := by
  unfold appendStart
  split
  · apply Terminates.bind (allocateCluster_terminates hsized)
    intro firstCluster _
    split
    · exact terminates_pure _
    · split <;> exact terminates_pure _
  · exact terminates_pure _

/-- The new first cluster of an empty file is the last of its chain. -/
theorem appendStart_ends {node node' : Fat12Inode} (hsized : Sized fs)
    (hends : ∀ c, EndsIn fs.fatTable chainCount c) (h : fs.appendStart node = .ret (some node', fs')) :
    Sized fs' ∧ EndsIn fs'.fatTable chainCount (fs'.fatTable node'.startCluster) := by
  unfold appendStart at h
  split at h
  · obtain ⟨firstCluster, -, h⟩ := bind_eq_ret h
    split at h
    · cases h
    · split at h
      · cases h
      · rename_i fs₁ hflush
        obtain ⟨hnode, rfl⟩ := Prod.mk.inj (Outcome.ret.inj h)
        obtain rfl := Option.some.inj hnode
        obtain ⟨htable, hkeep⟩ := flushFatTable_frame hflush
        refine ⟨hkeep ⟨hsized.clusterSize, hsized.clusterCount⟩, ?_⟩
        apply endsIn_of_not
        have hlast : fs₁.fatTable firstCluster = 0xFFF := by
          rw [htable]
          exact Function.update_self _ _ _
        change ¬InChain (fs₁.fatTable firstCluster)
        rw [hlast]
        exact fun hin => absurd hin.2 (by decide)
  · obtain ⟨hnode, rfl⟩ := Prod.mk.inj (Outcome.ret.inj h)
    obtain rfl := Option.some.inj hnode
    exact ⟨hsized, hends _⟩

theorem fillLast_terminates (fs : FAT12FS) (cluster used size : Nat) (src : ByteMap) :
    Terminates (fs.fillLast cluster used src size) := by
  unfold fillLast
  split
  · apply Terminates.bind (fs.getCache_terminates _)
    rintro ⟨cache, fs₁⟩ _
    cases cache with
    | none => exact terminates_halt
    | some i =>
        apply Terminates.bind (writeCluster_terminates _ _)
        rintro ⟨res, fs₂⟩ _
        apply Terminates.bind (releaseCache_terminates _ _)
        intro _ _
        exact terminates_pure _
  · exact terminates_pure _

theorem fillLast_sized {cluster used size filled left : Nat} {src : ByteMap} (hsized : Sized fs)
    (h : fs.fillLast cluster used src size = .ret (filled, left, fs')) : Sized fs' := by
  unfold fillLast at h
  split at h
  · obtain ⟨⟨cache, fs₁⟩, hget, h⟩ := bind_eq_ret h
    cases cache with
    | none => cases h
    | some i =>
        obtain ⟨⟨res, fs₂⟩, hwrite, h⟩ := bind_eq_ret h
        obtain ⟨fs₃, hrel, h⟩ := bind_eq_ret h
        obtain ⟨-, hrest⟩ := Prod.mk.inj (Outcome.ret.inj h)
        obtain ⟨-, rfl⟩ := Prod.mk.inj hrest
        have honly := (getCache_cacheOnly hget).trans
          ((cacheOnly_edited _ _ _).trans ((writeCluster_cacheOnly hwrite).trans (releaseCache_cacheOnly hrel)))
        exact honly.sized hsized
  · obtain ⟨-, hrest⟩ := Prod.mk.inj (Outcome.ret.inj h)
    obtain ⟨-, rfl⟩ := Prod.mk.inj hrest
    exact hsized

/-- Every new cluster takes at least one byte. -/
theorem appendLoop_terminates {fuel cluster size appended : Nat} {src : ByteMap} (hsized : Sized fs)
    (hfuel : size < fuel) : Terminates (fs.appendLoop fuel cluster src size appended) := by
  induction fuel generalizing fs cluster size appended src with
  | zero => omega
  | succ fuel ih =>
      rw [appendLoop]
      split
      · apply Terminates.bind (allocateCluster_terminates hsized)
        intro newCluster _
        split
        · exact terminates_pure _
        · dsimp only
          split
          · exact terminates_pure _
          · rename_i fs₁ hflush
            have hsized₁ := (flushFatTable_frame hflush).2 ⟨hsized.clusterSize, hsized.clusterCount⟩
            apply Terminates.bind (fs₁.getCache_terminates _)
            rintro ⟨cache, fs₂⟩ hget
            cases cache with
            | none => exact terminates_halt
            | some i =>
                apply Terminates.bind (writeCluster_terminates _ _)
                rintro ⟨res, fs₃⟩ hwrite
                apply Terminates.bind (releaseCache_terminates _ _)
                intro fs₄ hrel
                have honly := (getCache_cacheOnly hget).trans ((cacheOnly_edited _ _ _).trans
                  ((writeCluster_cacheOnly hwrite).trans (releaseCache_cacheOnly hrel)))
                have hpos := ((getCache_cacheOnly hget).sized hsized₁).clusterSize
                dsimp only
                split
                · exact ih (honly.sized hsized₁) (by omega)
                · exact terminates_pure _
      · exact terminates_pure _

theorem appendRest_terminates {node : Fat12Inode} {src : ByteMap} {size : Nat} (hsized : Sized fs)
    (hend : EndsIn fs.fatTable chainCount (fs.fatTable node.startCluster)) :
    Terminates (fs.appendRest node src size) := by
  unfold appendRest
  apply Terminates.bind (lastClusterLoop_terminates hend (by decide))
  intro cluster _
  apply Terminates.bind (fs.fillLast_terminates _ _ _ _)
  rintro ⟨filled, left, fs₁⟩ hfill
  apply Terminates.bind (appendLoop_terminates (fillLast_sized hsized hfill) (Nat.lt_succ_self _))
  rintro ⟨appended, fs₂⟩ _
  dsimp only
  split
  · apply Terminates.bind (updateEntry_terminates _ _)
    intro _ _
    exact terminates_pure _
  · exact terminates_pure _

theorem append_terminates (hsized : Sized fs) (hends : ∀ c, EndsIn fs.fatTable chainCount c)
    (node : Option Fat12Inode) (src : ByteMap) (size : Int) : Terminates (fs.append node src size) := by
  unfold append
  split
  · exact terminates_pure _
  · split_ifs
    all_goals try exact terminates_pure _
    apply Terminates.bind (appendStart_terminates hsized _)
    rintro ⟨started, fs₁⟩ hstart
    cases started with
    | none => exact terminates_pure _
    | some node' =>
        obtain ⟨hsized₁, hend⟩ := appendStart_ends hsized hends hstart
        apply Terminates.bind (appendRest_terminates hsized₁ hend)
        intro _ _
        exact terminates_pure _

/-- In a cycle the walk to the last cluster never ends. -/
theorem lastClusterLoop_diverges {cluster : Nat} (h : ∀ m, InChain (fs.fatTable^[m] cluster)) (fuel : Nat) :
    fs.lastClusterLoop fuel cluster = .diverge := by
  induction fuel generalizing cluster with
  | zero => rfl
  | succ fuel ih =>
      have hin : fs.fatTable cluster ≥ 2 ∧ fs.fatTable cluster < 0xFF8 := h 1
      rw [lastClusterLoop, if_pos hin]
      exact ih fun m => h (m + 1)

end

theorem flush_terminates {fs : FAT12FS} (hends : ∀ c, EndsIn fs.fatTable chainCount c) (node : Fat12Inode) :
    Terminates (fs.flush node) := by
  unfold flush
  have hflush : fs.flushFatTable = (fs.flushFatTable.1, fs.flushFatTable.2) := rfl
  have htable := (flushFatTable_frame hflush).1
  have hend : EndsIn fs.flushFatTable.2.fatTable chainCount node.startCluster := by
    rw [htable]
    exact hends _
  apply Terminates.bind (flushLoop_terminates hend (by decide))
  intro fs₁ _
  exact updateEntry_terminates _ _

/-! ### The walk of `remove`, which frees what it passes -/

/-- The clusters that a chain can lead to and that are not free. -/
def inUse (fs : FAT12FS) : Finset Nat := (Finset.Ico 2 0xFF8).filter fun c => fs.fatTable c ≠ 0

theorem inUse_card_le (fs : FAT12FS) : fs.inUse.card ≤ chainCount := by
  have hle := Finset.card_filter_le (Finset.Ico 2 0xFF8) fun c => fs.fatTable c ≠ 0
  rw [Nat.card_Ico] at hle
  exact hle

theorem inUse_freeCluster {fs : FAT12FS} {c : Nat} (dirty : Bool) :
    inUse { fs.freeCluster c with fatTableDirty := dirty } = fs.inUse.erase c := by
  ext d
  simp only [inUse, Finset.mem_filter, Finset.mem_erase]
  change _ ∧ Function.update fs.fatTable c 0 d ≠ 0 ↔ _
  by_cases hd : d = c
  · rw [hd, Function.update_self]
    simp
  · rw [Function.update_of_ne hd]
    exact (and_iff_right hd).symm

/-- A cluster that has been freed is the last of its chain: each step of the walk frees one more. -/
theorem freeLoop_terminates {fuel : Nat} {fs : FAT12FS} {cluster : Nat} (hfuel : fs.inUse.card + 1 < fuel) :
    ∃ fs', freeLoop fuel fs cluster = .ret fs' := by
  induction fuel generalizing fs cluster with
  | zero => omega
  | succ fuel ih =>
      rw [freeLoop]
      split
      · rename_i hin
        by_cases hfree : fs.fatTable cluster = 0
        · -- the value read is 0, so that the next step is the last
          obtain ⟨fuel, rfl⟩ : ∃ n, fuel = n + 1 := ⟨fuel - 1, by omega⟩
          rw [hfree, freeLoop, if_neg (by decide)]
          exact ⟨_, rfl⟩
        · have hmem : cluster ∈ fs.inUse := by
            rw [inUse, Finset.mem_filter, Finset.mem_Ico]
            exact ⟨⟨hin.1, by omega⟩, hfree⟩
          have hcard := Finset.card_erase_add_one hmem
          apply ih
          rw [inUse_freeCluster]
          omega
      · exact ⟨_, rfl⟩

end FAT12FS

namespace Vfs

open FAT12FS EntryBuf

/-! ### `lookup`, the iterator and `remove` -/

theorem lookupLoop_terminates {vol : FatVolume} {name : List Byte} {fuel n cluster : Nat}
    (hend : EndsIn vol.fs.fatTable n cluster) (hfuel : n < fuel) :
    Terminates (FatVolume.lookupLoop name fuel cluster vol) := by
  induction fuel generalizing vol n cluster with
  | zero => omega
  | succ fuel ih =>
      rw [FatVolume.lookupLoop]
      split
      · rename_i hin
        obtain ⟨k, rfl, hnext⟩ := hend.succ ⟨hin.1, by omega⟩
        apply Terminates.bind (vol.fs.getCache_terminates _)
        rintro ⟨cache, fs₁⟩ hget
        cases cache with
        | none => exact terminates_pure _
        | some i =>
            dsimp only
            split
            · apply Terminates.bind (releaseCache_terminates _ _)
              intro _ _
              exact terminates_pure _
            · apply Terminates.bind (releaseCache_terminates _ _)
              intro _ _
              exact terminates_pure _
            · apply Terminates.bind (releaseCache_terminates _ _)
              intro fs₂ hrel
              have honly := (getCache_cacheOnly hget).trans (releaseCache_cacheOnly hrel)
              apply Terminates.bind
              · apply ih _ (by omega : k < fuel)
                change EndsIn fs₂.fatTable k (fs₂.fatTable cluster)
                rw [honly.fatTable]
                exact hnext
              · intro _ _
                exact terminates_pure _
      · exact terminates_pure _

theorem lookup_terminates {vol : FatVolume} (hends : ∀ c, EndsIn vol.fs.fatTable chainCount c) (dir : Option Nat)
    (name : List Byte) : Terminates (vol.lookup dir name) := by
  unfold FatVolume.lookup
  split
  · exact terminates_pure _
  · dsimp only
    split
    · exact terminates_pure _
    · exact lookupLoop_terminates (hends _) (by decide)

theorem removeTarget_terminates (vol : FatVolume) (place : Nat) : Terminates (vol.removeTarget place) := by
  unfold FatVolume.removeTarget
  apply Terminates.bind (vol.fs.deleteDirEntry_terminates _)
  rintro ⟨res, fs₁⟩ _
  cases res with
  | false => exact terminates_pure _
  | true =>
      have hcard := fs₁.inUse_card_le
      obtain ⟨fs₂, hfree⟩ := @freeLoop_terminates (FAT12_MAX_CLUSTERS + 1) fs₁
        (vol.inodepool.inodes place).startCluster (by simp only [chainCount, FAT12_MAX_CLUSTERS] at *; omega)
      dsimp only
      rw [hfree]
      exact terminates_pure _

theorem remove_terminates {vol : FatVolume} (hends : ∀ c, EndsIn vol.fs.fatTable chainCount c) (dir : Option Nat)
    (name : List Byte) : Terminates (vol.remove dir name) := by
  unfold FatVolume.remove
  apply Terminates.bind (lookup_terminates hends dir name)
  rintro ⟨file, clusters, vol₁⟩ _
  cases file with
  | none => exact terminates_pure _
  | some file =>
      dsimp only
      split
      · exact terminates_pure _
      · exact removeTarget_terminates vol₁ file.place

/-- How far an iterator can still get: in `n` clusters after its own, of `total` entries each. -/
def rank (total n index : Nat) : Nat := n * (total + 1) + (total - index)

theorem scan_yielded {buf : ByteMap} {n i k : Nat} {b b' : EntryBuf} (h : DirIter.scan buf n i b = .yielded k b') :
    i < k ∧ k ≤ i + n := by
  induction n generalizing i b with
  | zero => cases h
  | succ n ih =>
      rw [DirIter.scan] at h
      split at h
      · split_ifs at h
        · have := ih h
          omega
        · have := ih h
          omega
        · obtain ⟨rfl, -⟩ := DirIter.Step.yielded.inj h
          omega
      · split_ifs at h
        have := ih h
        omega

/-- The number of entries of a cluster as the iterator has it. -/
def totalEntries (fs : FAT12FS) : Nat := fs.clusterSize / FAT12_ENTRY_BYTES % 2 ^ 16

theorem totalEntries_congr {fs fs' : FAT12FS} (h : CacheOnly fs fs') : totalEntries fs' = totalEntries fs := by
  obtain ⟨pool, device, rfl⟩ := h.eq
  rfl

theorem nextLoop_terminates {fs : FAT12FS} {fuel n : Nat} {it : DirIter} (hend : EndsIn fs.fatTable n it.currentCluster)
    (hfuel : n < fuel) : Terminates (DirIter.nextLoop fuel fs it) := by
  induction fuel generalizing fs n it with
  | zero => omega
  | succ fuel ih =>
      rw [DirIter.nextLoop]
      split
      · rename_i hin
        obtain ⟨k, rfl, hnext⟩ := hend.succ hin
        apply Terminates.bind (fs.getCache_terminates _)
        rintro ⟨cache, fs₁⟩ hget
        cases cache with
        | none => exact terminates_pure _
        | some i =>
            dsimp only
            split
            · apply Terminates.bind (releaseCache_terminates _ _)
              intro _ _
              exact terminates_pure _
            · apply Terminates.bind (releaseCache_terminates _ _)
              intro _ _
              exact terminates_pure _
            · apply Terminates.bind (releaseCache_terminates _ _)
              intro fs₂ hrel
              have honly := (getCache_cacheOnly hget).trans (releaseCache_cacheOnly hrel)
              apply ih _ (by omega : k < fuel)
              change EndsIn fs₂.fatTable k (fs₂.fatTable it.currentCluster)
              rw [honly.fatTable]
              exact hnext
      · exact terminates_pure _

/-- Each entry the iterator yields is one step on. -/
theorem nextLoop_rank {fs fs' : FAT12FS} {fuel n : Nat} {it it' : DirIter}
    (hend : EndsIn fs.fatTable n it.currentCluster) (h : DirIter.nextLoop fuel fs it = .ret (true, it', fs')) :
    CacheOnly fs fs' ∧ it'.dir = it.dir ∧ ∃ k, EndsIn fs.fatTable k it'.currentCluster ∧
      rank (totalEntries fs) k it'.entryIndexInCluster < rank (totalEntries fs) n it.entryIndexInCluster := by
  induction fuel generalizing fs n it with
  | zero => cases h
  | succ fuel ih =>
      rw [DirIter.nextLoop] at h
      split at h
      · rename_i hin
        obtain ⟨⟨cache, fs₁⟩, hget, h⟩ := bind_eq_ret h
        have honly₁ := getCache_cacheOnly hget
        cases cache with
        | none => cases h
        | some i =>
            have htotal : fs₁.clusterSize / FAT12_ENTRY_BYTES % 2 ^ 16 = totalEntries fs := totalEntries_congr honly₁
            dsimp only at h
            rw [htotal] at h
            split at h
            · rename_i k current hscan
              obtain ⟨fs₂, hrel, h⟩ := bind_eq_ret h
              obtain ⟨-, hrest⟩ := Prod.mk.inj (Outcome.ret.inj h)
              obtain ⟨rfl, rfl⟩ := Prod.mk.inj hrest
              have hindex := scan_yielded hscan
              refine ⟨honly₁.trans (releaseCache_cacheOnly hrel), rfl, n, hend, ?_⟩
              simp only [rank]
              omega
            · obtain ⟨fs₂, -, h⟩ := bind_eq_ret h
              cases h
            · obtain ⟨fs₂, hrel, h⟩ := bind_eq_ret h
              have honly := honly₁.trans (releaseCache_cacheOnly hrel)
              obtain ⟨k, rfl, hnext⟩ := hend.succ hin
              have hnext₂ : EndsIn fs₂.fatTable k (fs₂.fatTable it.currentCluster) := by
                rw [honly.fatTable]
                exact hnext
              obtain ⟨honly', hdir, m, hm, hrank⟩ := ih hnext₂ h
              rw [totalEntries_congr honly] at hrank
              rw [honly.fatTable] at hm
              refine ⟨honly.trans honly', hdir, m, hm, hrank.trans ?_⟩
              simp only [rank, Nat.succ_mul]
              omega
      · cases h

theorem listing_terminates {fs : FAT12FS} {fuel n : Nat} {it : DirIter} (hends : ∀ c, EndsIn fs.fatTable chainCount c)
    (hend : EndsIn fs.fatTable n it.currentCluster) (hdir : it.dir.isSome)
    (hfuel : rank (totalEntries fs) n it.entryIndexInCluster < fuel) : Terminates (DirIter.listing fuel fs it) := by
  induction fuel generalizing fs n it with
  | zero => omega
  | succ fuel ih =>
      obtain ⟨dir, hsome⟩ := Option.isSome_iff_exists.mp hdir
      have hnext : it.next fs = DirIter.nextLoop (FAT12_MAX_CLUSTERS + 1) fs it := by
        rw [DirIter.next, hsome]
      rw [DirIter.listing, hnext]
      apply Terminates.bind (nextLoop_terminates (hends _) (by decide))
      rintro ⟨found, it', fs'⟩ hrun
      cases found with
      | false => exact terminates_pure _
      | true =>
          obtain ⟨honly, hsame, k, hk, hrank⟩ := nextLoop_rank hend hrun
          dsimp only
          rw [if_pos rfl]
          apply Terminates.bind
          · apply ih (fun c => honly.endsIn (hends c)) (honly.endsIn hk) (by rwa [hsame])
            rw [totalEntries_congr honly]
            omega
          · intro _ _
            exact terminates_pure _

theorem nextRoot_index {fs : FAT12FS} {n : Nat} {it it' : DirIter} (h : DirIter.nextRoot fs n it = (true, it')) :
    it'.dir = it.dir ∧ it.rootIndex < it'.rootIndex ∧ it'.rootIndex ≤ it.rootIndex + n := by
  induction n generalizing it with
  | zero => cases h
  | succ n ih =>
      rw [DirIter.nextRoot] at h
      dsimp only at h
      split_ifs at h
      · cases h
      · obtain ⟨hdir, hlt, hle⟩ := ih h
        exact ⟨hdir, by dsimp only at hlt; omega, by dsimp only at hle; omega⟩
      · obtain ⟨-, rfl⟩ := Prod.mk.inj h
        exact ⟨rfl, Nat.lt_succ_self _, by dsimp only; omega⟩

theorem listing_root_terminates {fs : FAT12FS} {fuel : Nat} {it : DirIter} (hdir : it.dir = none)
    (hfuel : fs.rootEntries - it.rootIndex < fuel) : Terminates (DirIter.listing fuel fs it) := by
  induction fuel generalizing it with
  | zero => omega
  | succ fuel ih =>
      rw [DirIter.listing, DirIter.next, hdir]
      cases hrun : DirIter.nextRoot fs (fs.rootEntries - it.rootIndex) it with
      | mk found it' =>
          cases found with
          | false => exact terminates_pure _
          | true =>
              obtain ⟨hsame, hlt, hle⟩ := nextRoot_index hrun
              simp only [pure_eq, ret_bind, if_true]
              apply Terminates.bind
              · exact ih (hsame.trans hdir) (by omega)
              · intro _ _
                exact terminates_pure _

/-- All calls that walk along the FAT end, for all arguments. -/
structure AllTerminate (vol : FatVolume) : Prop where
  lookup : ∀ dir name, Terminates (vol.lookup dir name)
  find_free_entry : ∀ dir, Terminates (vol.fs.findFreeEntry dir)
  iteration : ∀ dir it, DirIter.init vol.fs dir = some it → Terminates (DirIter.listing (maxEntries + 1) vol.fs it)
  read : ∀ node out size offset, Terminates (vol.fs.read node out size offset)
  write : ∀ node src size offset, Terminates (vol.fs.write node src size offset)
  append : ∀ node src size, Terminates (vol.fs.append node src size)
  flush : ∀ node, Terminates (vol.fs.flush node)
  remove : ∀ dir name, Terminates (vol.remove dir name)

theorem iteration_terminates {fs : FAT12FS} (hends : ∀ c, EndsIn fs.fatTable chainCount c)
    (hroot : fs.rootEntries < 2 ^ 16) {dir : Option Fat12Inode} {it : DirIter} (hinit : DirIter.init fs dir = some it)
    {fuel : Nat} (hfuel : maxEntries < fuel) : Terminates (DirIter.listing fuel fs it) := by
  have hmax : maxEntries = 4096 * 2 ^ 16 := rfl
  unfold DirIter.init at hinit
  cases dir with
  | none =>
      obtain rfl := Option.some.inj hinit
      apply listing_root_terminates rfl
      dsimp only
      omega
  | some node =>
      dsimp only at hinit
      split_ifs at hinit
      obtain rfl := Option.some.inj hinit
      apply listing_terminates hends (hends _) rfl
      have htotal : totalEntries fs < 2 ^ 16 := Nat.mod_lt _ (by decide)
      simp only [rank, chainCount]
      omega

/-- An inode of the volume for a file that starts at the cluster. -/
def fileAt (fs : FAT12FS) (cluster : Nat) : Fat12Inode := ⟨fs.this, 0, cluster, 0, ⟨true, 0, 0, 0⟩⟩

theorem append_diverges {fs : FAT12FS} {cluster : Nat} (h : ∀ m, InChain (fs.fatTable^[m] cluster)) (src : ByteMap) :
    fs.append (some (fileAt fs cluster)) src 1 = .diverge := by
  have hin : InChain cluster := h 0
  have hge := hin.1
  have hstart : ¬((fileAt fs cluster).startCluster ≠ 0 ∧ (fileAt fs cluster).startCluster < 2) :=
    fun hlt => absurd hlt.2 (by change ¬cluster < 2; omega)
  have hne : ¬(fileAt fs cluster).startCluster = 0 := by
    change ¬cluster = 0
    omega
  have hspecial : ¬IsSpecial (fileAt fs cluster).attr := by
    change ¬IsSpecial 0
    decide
  unfold FAT12FS.append
  dsimp only
  rw [if_neg (fun hother => hother rfl), if_neg hstart, if_neg hspecial, if_neg (by decide), appendStart, if_neg hne]
  simp only [pure_eq, ret_bind]
  rw [appendRest, lastCluster]
  change ((fs.lastClusterLoop (FAT12_MAX_CLUSTERS + 1) cluster >>= _) >>= _) = _
  rw [lastClusterLoop_diverges h]
  rfl

/-- Every call that walks along the FAT ends, if and only if no chain of the FAT runs in a cycle. -/
theorem allTerminate_iff {vol : FatVolume} (hsized : Sized vol.fs) (hroot : vol.fs.rootEntries < 2 ^ 16) :
    AllTerminate vol ↔ ¬Cyclic vol.fs.fatTable := by
  constructor
  · rintro hall ⟨c, n, -, -, hin⟩
    exact hall.append (some (fileAt vol.fs c)) (fun _ => 0) 1 (append_diverges hin _)
  · intro hcyclic
    have hends := endsIn_of_not_cyclic hcyclic
    exact {
      lookup := lookup_terminates hends
      find_free_entry := findFreeEntry_terminates hends
      iteration := fun _ _ hinit => iteration_terminates hends hroot hinit (Nat.lt_succ_self _)
      read := read_terminates hsized.clusterSize hends
      write := write_terminates hsized.clusterSize hends
      append := append_terminates hsized hends
      flush := flush_terminates hends
      remove := remove_terminates hends }

/-- The volume `entryInFile` with another FAT. -/
def withTable (table : Nat → Nat) : FatVolume :=
  { entryInFile with fs := { entryInFile.fs with fatTable := table } }

theorem withTable_sized (table : Nat → Nat) : Sized (withTable table).fs ∧ (withTable table).fs.rootEntries < 2 ^ 16 :=
  ⟨⟨(by decide : 0 < entryInFile.fs.clusterSize), (by decide : entryInFile.fs.clusterCount ≤ FAT12_MAX_CLUSTERS)⟩,
    (by decide : entryInFile.fs.rootEntries < 2 ^ 16)⟩

/-- A chain of two clusters. -/
theorem allTerminate_twoClusters :
    AllTerminate (withTable fun c => if c = 2 then 3 else if c = 3 then 0xFFF else 0) := by
  apply (allTerminate_iff (withTable_sized _).1 (withTable_sized _).2).mpr
  rintro ⟨c, n, -, -, hin⟩
  have hsecond : InChain (if c = 2 then 3 else if c = 3 then 0xFFF else 0) := hin 1
  by_cases hc : c = 2
  · subst hc
    have hthird : InChain 0xFFF := hin 2
    exact absurd hthird.2 (by decide)
  · rw [if_neg hc] at hsecond
    split at hsecond
    · exact absurd hsecond.2 (by decide)
    · exact absurd hsecond.1 (by decide)

/-- Appending to a file whose cluster is chained to itself never ends. -/
theorem not_allTerminate_selfLoop : ¬AllTerminate (withTable fun c => if c = 2 then 2 else 0) := by
  intro hall
  have hloop : ∀ m, InChain ((withTable fun c => if c = 2 then 2 else 0).fs.fatTable^[m] 2) := by
    intro m
    rw [Function.iterate_fixed rfl]
    exact ⟨by decide, by decide⟩
  exact hall.append _ (fun _ => 0) 1 (append_diverges hloop _)

end Vfs

end SysuOs
