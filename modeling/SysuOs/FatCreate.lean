import SysuOs.FatUsable

/-! What `create_file` and `create_directory` leave behind when they fail. A directory that has to grow is linked to
its new cluster first, and not every failure after that is undone. -/

namespace SysuOs.Vfs

open EntryBuf FAT12FS SysuOs.Outcome Root

/-! ### Calls that only read -/

/-- Nothing but the cache is different, and it still shows the disk. -/
structure Untouched (fs fs' : FAT12FS) : Prop where
  coherent : Coherent fs'
  same : SameVolume fs fs'
  cacheOnly : CacheOnly fs fs'
  sector : fs'.device.sector = fs.device.sector

namespace Untouched

variable {fs fs' fs'' : FAT12FS}

theorem refl (hcoh : Coherent fs) : Untouched fs fs := ⟨hcoh, SameVolume.refl fs, CacheOnly.refl fs, rfl⟩

theorem trans (h : Untouched fs fs') (h' : Untouched fs' fs'') : Untouched fs fs'' :=
  ⟨h'.coherent, h.same.trans h'.same, h.cacheOnly.trans h'.cacheOnly, h'.sector.trans h.sector⟩

theorem fatTable (h : Untouched fs fs') : fs'.fatTable = fs.fatTable := h.cacheOnly.fatTable

theorem rootDir (h : Untouched fs fs') : fs'.rootDir = fs.rootDir := by
  obtain ⟨pool, device, rfl⟩ := h.cacheOnly.eq
  rfl

theorem clusterByte (h : Untouched fs fs') : fs'.clusterByte = fs.clusterByte := clusterByte_congr h.same h.sector

end Untouched

section

variable {fs fs' fs₁ fs₂ : FAT12FS} {i c : Nat}

theorem untouched_none (hm : Mounted fs) (hcoh : Coherent fs) (hget : fs.getCache c = .ret (none, fs₁)) :
    ¬IsCluster c ∧ fs₁ = fs := by
  rcases getCache_cases hm hcoh hget with ⟨hc, -, rfl⟩ | ⟨i, hnone, -⟩
  · exact ⟨hc, rfl⟩
  · cases hnone

theorem untouched_read (hm : Mounted fs) (hcoh : Coherent fs) (hget : fs.getCache c = .ret (some i, fs₁))
    (hrel : fs₁.releaseCache i = .ret fs₂) : Untouched fs fs₂ := by
  obtain ⟨-, hpin⟩ := pinned_of_getCache hm hcoh hget
  obtain ⟨fs₃, hrel', hcoh', hsame, -, hsector⟩ := hpin.release hcoh
  obtain rfl := Outcome.ret.inj (hrel.symm.trans hrel')
  exact ⟨hcoh', hsame, (getCache_cacheOnly hget).trans (releaseCache_cacheOnly hrel), hsector⟩

/-! ### The free entry of a directory -/

/-- An entry that `find_free_entry` takes. -/
def IsFree (s : ByteMap) : Prop := ¬IsLfn s ∧ (s 0 = 0 ∨ s 0 = 0xE5)

instance (s : ByteMap) : Decidable (IsFree s) := inferInstanceAs (Decidable (_ ∧ _))

theorem read_free (b : EntryBuf) (mem : ByteMap) (pos : Nat) :
    ((b.read mem pos).2.status = .DELETE ∨ (b.read mem pos).2.status = .END_OF_DIR) ↔ IsFree (bytesFrom mem pos) := by
  have hlfn : mem (pos + 11) = bytesFrom mem pos 11 := rfl
  have hfirst : mem pos = bytesFrom mem pos 0 := rfl
  unfold EntryBuf.read IsFree IsLfn
  rw [hlfn, hfirst]
  split_ifs with h₁ h₂ h₃ h₄ <;> simp_all

theorem scanFree_none {buf : ByteMap} {n i : Nat} {b : EntryBuf} :
    scanFree buf n i b = none ↔ ∀ k, i ≤ k → k < i + n → ¬IsFree (bytesFrom buf (k * FAT12_ENTRY_BYTES)) := by
  induction n generalizing i b with
  | zero =>
      rw [scanFree]
      exact ⟨fun _ k hk hk' => by omega, fun _ => rfl⟩
  | succ n ih =>
      rw [scanFree]
      have hfree := read_free b buf (i * FAT12_ENTRY_BYTES)
      dsimp only
      by_cases hnow : IsFree (bytesFrom buf (i * FAT12_ENTRY_BYTES))
      · rw [if_pos (hfree.mpr hnow)]
        exact ⟨nofun, fun hall => absurd hnow (hall i (le_refl i) (by omega))⟩
      · rw [if_neg (fun h => hnow (hfree.mp h)), ih]
        constructor
        · intro hall k hk hk'
          rcases Nat.eq_or_lt_of_le hk with rfl | hlt
          · exact hnow
          · exact hall k hlt (by omega)
        · intro hall k hk hk'
          exact hall k (by omega) (by omega)

theorem scanFree_lt {buf : ByteMap} {n i k : Nat} {b : EntryBuf} (h : scanFree buf n i b = some k) : k < i + n := by
  induction n generalizing i b with
  | zero =>
      rw [scanFree] at h
      cases h
  | succ n ih =>
      rw [scanFree] at h
      dsimp only at h
      split at h
      · obtain rfl := Option.some.inj h
        omega
      · have := ih h
        omega

/-- The cluster has no free entry. -/
def ClusterFull (fs : FAT12FS) (c : Nat) : Prop := ∀ k, k < totalEntries fs → ¬IsFree (slot fs c k)

/-- The search through a cluster that is held. -/
theorem scanFree_held (hpin : Pinned fs fs₁ i c) {b : EntryBuf} :
    scanFree (fs₁.cachePool i).buf (fs₁.clusterSize / FAT12_ENTRY_BYTES % 2 ^ 16) 0 b = none ↔ ClusterFull fs c := by
  rw [hpin.same.clusterSize, scanFree_none]
  have hslot : ∀ k, k < totalEntries fs →
      (IsFree (bytesFrom (fs₁.cachePool i).buf (k * FAT12_ENTRY_BYTES)) ↔ IsFree (slot fs c k)) := by
    intro k hk
    have hcount : k < slotCount fs := lt_of_lt_of_le hk (Nat.mod_le _ _)
    unfold IsFree IsLfn
    rw [bytesFrom, bytesFrom, buffer_slots hpin.buf hcount (show 11 < FAT12_ENTRY_BYTES by decide),
      buffer_slots hpin.buf hcount (show 0 < FAT12_ENTRY_BYTES by decide)]
  constructor
  · intro hall k hk
    exact fun hfree => hall k (Nat.zero_le k) (by rw [Nat.zero_add]; exact hk) ((hslot k hk).mpr hfree)
  · intro hall k _ hk
    rw [Nat.zero_add] at hk
    exact fun hfree => hall k hk ((hslot k hk).mp hfree)

/-- The chain from `start` on has `n` clusters, the cache takes them all, and no entry is free. -/
structure DirFull (fs : FAT12FS) (start n : Nat) : Prop where
  cluster : ∀ m, m < n → IsCluster (fs.fatTable^[m] start)
  full : ∀ m, m < n → ClusterFull fs (fs.fatTable^[m] start)
  ends : ¬InChain (fs.fatTable^[n] start)

theorem DirFull.zero (h : ¬InChain c) : DirFull fs c 0 := ⟨nofun, nofun, h⟩

theorem DirFull.succ {n : Nat} : DirFull fs c (n + 1) ↔
    IsCluster c ∧ ClusterFull fs c ∧ DirFull fs (fs.fatTable c) n := by
  constructor
  · intro h
    refine ⟨h.cluster 0 (by omega), h.full 0 (by omega), fun m hm => ?_, fun m hm => ?_, ?_⟩
    · exact h.cluster (m + 1) (by omega)
    · exact h.full (m + 1) (by omega)
    · exact h.ends
  · rintro ⟨hc, hfull, hrest⟩
    refine ⟨fun m hm => ?_, fun m hm => ?_, hrest.ends⟩
    · cases m with
      | zero => exact hc
      | succ m => exact hrest.cluster m (by omega)
    · cases m with
      | zero => exact hfull
      | succ m => exact hrest.full m (by omega)

theorem Untouched.dirFull (h : Untouched fs fs') (start n : Nat) : DirFull fs' start n ↔ DirFull fs start n := by
  have hfull : ∀ c, ClusterFull fs' c ↔ ClusterFull fs c := by
    intro c
    unfold ClusterFull
    rw [totalEntries_congr h.cacheOnly, slot_congr h.clusterByte]
  constructor
  · intro hdir
    exact ⟨by rw [← h.fatTable]; exact hdir.cluster, fun m hm => by rw [← hfull, ← h.fatTable]; exact hdir.full m hm,
      by rw [← h.fatTable]; exact hdir.ends⟩
  · intro hdir
    exact ⟨by rw [h.fatTable]; exact hdir.cluster, fun m hm => by rw [hfull, h.fatTable]; exact hdir.full m hm,
      by rw [h.fatTable]; exact hdir.ends⟩

/-- A chain that ends has no cluster twice. -/
theorem DirFull.length_le {start n : Nat} (h : DirFull fs start n) : n ≤ chainCount := by
  by_contra hlong
  have hin : ∀ m, m ≤ (Finset.Ico 2 0xFF8).card → fs.fatTable^[m] start ∈ Finset.Ico 2 0xFF8 := by
    intro m hm
    rw [Nat.card_Ico] at hm
    obtain ⟨hlow, hhigh⟩ := h.cluster m (by simp only [chainCount] at hlong; omega)
    rw [Finset.mem_Ico]
    omega
  exact h.ends (Finset.mem_Ico.mp (iterate_mem hin n))

/-- The last cluster that a walk of `n` clusters has come to. -/
def lastOf (table : Nat → Nat) (prev start n : Nat) : Nat := if n = 0 then prev else table^[n - 1] start

theorem lastOf_succ (table : Nat → Nat) (prev start n : Nat) :
    lastOf table start (table start) n = lastOf table prev start (n + 1) := by
  unfold lastOf
  cases n with
  | zero => rfl
  | succ n => rfl

/-- The walk through a directory without a free entry. -/
theorem freeEntryLoop_full (hm : Mounted fs) (hcoh : Coherent fs) {start n : Nat} (hdir : DirFull fs start n)
    {fuel : Nat} (hfuel : n < fuel) (prev : Nat) : ∃ fs', freeEntryLoop fuel fs start prev =
      .ret (.extend (lastOf fs.fatTable prev start n), fs') ∧ Untouched fs fs' := by
  induction n generalizing fs start fuel prev with
  | zero =>
      obtain ⟨fuel, rfl⟩ : ∃ k, fuel = k + 1 := ⟨fuel - 1, by omega⟩
      have hout : ¬(2 ≤ start ∧ start ≤ 0xFF7) := fun hin => hdir.ends ⟨hin.1, Nat.lt_succ_of_le hin.2⟩
      rw [freeEntryLoop, if_neg hout]
      exact ⟨fs, rfl, Untouched.refl hcoh⟩
  | succ n ih =>
      obtain ⟨fuel, rfl⟩ : ∃ k, fuel = k + 1 := ⟨fuel - 1, by omega⟩
      obtain ⟨hc, hfull, hrest⟩ := DirFull.succ.mp hdir
      obtain ⟨i, fs₁, hget, hpin⟩ := getCache_spec hm hcoh hc
      obtain ⟨fs₂, hrel, -⟩ := hpin.release hcoh
      have hread := untouched_read hm hcoh hget hrel
      obtain ⟨hlow, hhigh⟩ := hc
      obtain ⟨fs', hrun, huntouched⟩ := ih (hm.congr hread.same) hread.coherent
        ((hread.dirFull _ _).mpr hrest) (show n < fuel by omega) start
      refine ⟨fs', ?_, hread.trans huntouched⟩
      rw [freeEntryLoop, if_pos ⟨hlow, by omega⟩, hget]
      dsimp only [ret_bind]
      rw [hrel, ret_bind, (scanFree_held hpin).mpr hfull]
      dsimp only
      rw [hread.fatTable] at hrun ⊢
      rw [hrun, lastOf_succ]

/-- What the walk through a directory finds. -/
theorem freeEntryLoop_cases (hm : Mounted fs) (hcoh : Coherent fs) {fuel cluster prev : Nat} {free : FreeEntry}
    (h : freeEntryLoop fuel fs cluster prev = .ret (free, fs')) : Untouched fs fs' ∧
      (free = .failed ∨
        (∃ c k, free = .found ⟨false, c, k, 0⟩ ∧ IsCluster c ∧ k < slotCount fs) ∨
        ∃ n, DirFull fs cluster n ∧ free = .extend (lastOf fs.fatTable prev cluster n)) := by
  induction fuel generalizing fs cluster prev with
  | zero => cases h
  | succ fuel ih =>
      rw [freeEntryLoop] at h
      split at h
      · obtain ⟨⟨cache, fs₁⟩, hget, h⟩ := bind_eq_ret h
        cases cache with
        | none =>
            cases h
            obtain ⟨-, hsame⟩ := untouched_none hm hcoh hget
            rw [hsame]
            exact ⟨Untouched.refl hcoh, Or.inl rfl⟩
        | some i =>
            obtain ⟨hc, hpin⟩ := pinned_of_getCache hm hcoh hget
            obtain ⟨fs₂, hrel, h⟩ := bind_eq_ret h
            have hread := untouched_read hm hcoh hget hrel
            split at h
            · rename_i k hscan
              cases h
              have hk := scanFree_lt hscan
              rw [Nat.zero_add, hpin.same.clusterSize] at hk
              exact ⟨hread, Or.inr (Or.inl ⟨cluster, k, rfl, hc, lt_of_lt_of_le hk (Nat.mod_le _ _)⟩)⟩
            · rename_i hscan
              have hfull := (scanFree_held hpin).mp hscan
              obtain ⟨hrest, hcases⟩ := ih (hm.congr hread.same) hread.coherent h
              refine ⟨hread.trans hrest, ?_⟩
              rcases hcases with hfailed | ⟨c, k, hfound, hc', hk⟩ | ⟨n, hdir, hextend⟩
              · exact Or.inl hfailed
              · rw [slotCount, hread.same.clusterSize] at hk
                exact Or.inr (Or.inl ⟨c, k, hfound, hc', hk⟩)
              · refine Or.inr (Or.inr ⟨n + 1, DirFull.succ.mpr ⟨hc, hfull, ?_⟩, ?_⟩)
                · rw [hread.fatTable] at hdir
                  exact (hread.dirFull _ _).mp hdir
                · rw [hextend, hread.fatTable, lastOf_succ]
      · rename_i hout
        cases h
        have hends : ¬InChain cluster := fun hin => hout ⟨hin.1, Nat.le_of_lt_succ hin.2⟩
        exact ⟨Untouched.refl hcoh, Or.inr (Or.inr ⟨0, DirFull.zero hends, rfl⟩)⟩

/-! ### `lookup` -/

theorem takeInode_none {vol : FatVolume} {entry : NormalizedEntry} {location : EntryLocation}
    (h : (vol.takeInode entry location).1 = none) : (vol.takeInode entry location).2 = vol := by
  rcases takeInode_cases vol entry location with ⟨i, -, -, heq⟩ | heq | ⟨i, -, heq⟩
  · rw [heq] at h
    cases h
  · rw [heq]
  · rw [heq] at h
    cases h

theorem lookupLoop_untouched {vol vol' : FatVolume} (hm : Mounted vol.fs) (hcoh : Coherent vol.fs) {name : List Byte}
    {fuel cluster : Nat} {found : Option Found} {clusters : List Nat}
    (h : FatVolume.lookupLoop name fuel cluster vol = .ret (found, clusters, vol')) :
    Untouched vol.fs vol'.fs ∧ (found = none → vol'.inodepool = vol.inodepool) := by
  induction fuel generalizing vol cluster found clusters with
  | zero => cases h
  | succ fuel ih =>
      rw [FatVolume.lookupLoop] at h
      split at h
      · obtain ⟨⟨cache, fs₁⟩, hget, h⟩ := bind_eq_ret h
        cases cache with
        | none =>
            obtain ⟨-, rfl⟩ := untouched_none hm hcoh hget
            cases h
            exact ⟨Untouched.refl hcoh, fun _ => rfl⟩
        | some i =>
            dsimp only at h
            split at h
            · obtain ⟨fs₂, hrel, h⟩ := bind_eq_ret h
              cases h
              rw [takeInode_fs] at hrel
              refine ⟨untouched_read hm hcoh hget hrel, fun hnone => ?_⟩
              change (FatVolume.takeInode _ _ _).2.inodepool = _
              rw [takeInode_none hnone]
            · obtain ⟨fs₂, hrel, h⟩ := bind_eq_ret h
              cases h
              exact ⟨untouched_read hm hcoh hget hrel, fun _ => rfl⟩
            · obtain ⟨fs₂, hrel, h⟩ := bind_eq_ret h
              obtain ⟨⟨found', clusters', vol₂⟩, hrest, h⟩ := bind_eq_ret h
              cases h
              have hread := untouched_read hm hcoh hget hrel
              obtain ⟨hlater, hpool⟩ := @ih { vol with fs := fs₂ } (hm.congr hread.same) hread.coherent _ _ _ hrest
              exact ⟨hread.trans hlater, hpool⟩
      · cases h
        exact ⟨Untouched.refl hcoh, fun _ => rfl⟩

theorem lookup_untouched {vol vol' : FatVolume} (hm : Mounted vol.fs) (hcoh : Coherent vol.fs) {dir : Option Nat}
    {name : List Byte} {found : Option Found} {clusters : List Nat}
    (h : vol.lookup dir name = .ret (found, clusters, vol')) :
    Untouched vol.fs vol'.fs ∧ (found = none → vol'.inodepool = vol.inodepool) := by
  cases dir with
  | none =>
      have hfound : (vol.lookupRoot name).1 = found := (Prod.mk.inj (Outcome.ret.inj h)).1
      have hroot : (vol.lookupRoot name).2 = vol' := (Prod.mk.inj (Prod.mk.inj (Outcome.ret.inj h)).2).2
      rw [← hroot, FatVolume.lookupRoot_fs]
      refine ⟨Untouched.refl hcoh, fun hnone => ?_⟩
      rw [← hfound] at hnone
      unfold FatVolume.lookupRoot at hnone ⊢
      split
      · rfl
      · rename_i heq
        rw [heq] at hnone
        rw [takeInode_none hnone]
  | some place =>
      rw [FatVolume.lookup] at h
      split at h
      · cases h
        exact ⟨Untouched.refl hcoh, fun _ => rfl⟩
      · exact lookupLoop_untouched hm hcoh h

/-! ### Growing a directory -/

/-- The first cluster that is free. -/
structure FirstFree (fs : FAT12FS) (new : Nat) : Prop where
  low : 2 ≤ new
  lt : new < fs.clusterCount
  free : fs.fatTable new = 0
  first : ∀ k, 2 ≤ k → k < new → fs.fatTable k ≠ 0

theorem FirstFree.allocateCluster {new : Nat} (h : FirstFree fs new) (hcount : fs.clusterCount ≤ FAT12_MAX_CLUSTERS) :
    fs.allocateCluster = .ret new := by
  rcases allocateCluster_cases hcount with ⟨-, hnone⟩ | ⟨c, hsome, hlow, -, hfree, hfirst⟩
  · exact absurd h.free (hnone new h.low h.lt)
  · rcases Nat.lt_trichotomy c new with hlt | rfl | hgt
    · exact absurd hfree (h.first c hlow hlt)
    · exact hsome
    · exact absurd h.free (hfirst new h.low hgt)

theorem firstFree_of_allocate {new : Nat} (hcount : fs.clusterCount ≤ FAT12_MAX_CLUSTERS)
    (h : fs.allocateCluster = .ret new) (hne : new ≠ 0) : FirstFree fs new := by
  rcases allocateCluster_cases hcount with ⟨hnone, -⟩ | ⟨c, hsome, hlow, hlt, hfree, hfirst⟩
  · exact absurd (Outcome.ret.inj (h.symm.trans hnone)) hne
  · obtain rfl : new = c := Outcome.ret.inj (h.symm.trans hsome)
    exact ⟨hlow, hlt, hfree, hfirst⟩

theorem Untouched.firstFree (h : Untouched fs fs') {new : Nat} (hnew : FirstFree fs new) : FirstFree fs' new := by
  refine ⟨hnew.low, ?_, ?_, ?_⟩
  · rw [h.same.clusterCount]
    exact hnew.lt
  · rw [h.fatTable]
    exact hnew.free
  · rw [h.fatTable]
    exact hnew.first

/-- The new cluster is put behind the last one. -/
def linked (fs : FAT12FS) (last new : Nat) : FAT12FS :=
  { (fs.setFat last new).setFat new 0xFFF with fatTableDirty := true }

/-- The directory has been given the cluster `new`, which is cleared. -/
structure Enlarged (fs fs' : FAT12FS) (last new : Nat) : Prop where
  coherent : Coherent fs'
  same : SameVolume fs fs'
  fatTable : fs'.fatTable = (linked fs last new).fatTable
  rootDir : fs'.rootDir = fs.rootDir
  byte : ∀ c k, 2 ≤ c → c ≠ new → k < fs.clusterSize → fs'.clusterByte c k = fs.clusterByte c k

theorem clearCluster_stored (hm : Mounted fs) (hcoh : Coherent fs) (hc : IsCluster c) :
    ∃ fs' buf, fs.clearCluster c = .ret (some fs') ∧ Stored fs fs' c buf ∧ fs'.rootDir = fs.rootDir := by
  obtain ⟨i, fs₁, hget, hpin⟩ := getCache_spec hm hcoh hc
  obtain ⟨fs₂, hrel, hstored⟩ := hpin.storeRelease hm hcoh hc.1 (memzero (fs₁.cachePool i).buf fs₁.clusterSize)
  refine ⟨fs₂, _, ?_, hstored, ?_⟩
  · rw [clearCluster, hget]
    dsimp only [ret_bind]
    rw [← edited, hrel]
    rfl
  · obtain ⟨pool, device, rfl⟩ := (getCache_cacheOnly hget).eq
    obtain ⟨pool', device', rfl⟩ := (releaseCache_cacheOnly hrel).eq
    rfl

theorem findFreeEntry_full (hm : Mounted fs) (hcoh : Coherent fs) {node : Fat12Inode} {n : Nat}
    (hnode : node.fat12Fs = fs.this) (hdir : DirFull fs node.startCluster n) : ∃ fs', fs.findFreeEntry (some node) =
      .ret (.extend (lastOf fs.fatTable node.startCluster node.startCluster n), fs') ∧ Untouched fs fs' := by
  have hfuel := hdir.length_le
  obtain ⟨fs', hrun, huntouched⟩ := @freeEntryLoop_full fs hm hcoh _ n hdir (FAT12_MAX_CLUSTERS + 1)
    (by simp only [chainCount, FAT12_MAX_CLUSTERS] at *; omega) node.startCluster
  refine ⟨fs', ?_, huntouched⟩
  rw [findFreeEntry, if_neg (not_not_intro hnode), hrun]

variable {node : Fat12Inode} {n new : Nat}

/-- A new cluster that the cache does not take is freed again, but stays linked. -/
theorem makeEntry_refused (hm : Mounted fs) (hcoh : Coherent fs) (hcount : fs.clusterCount ≤ FAT12_MAX_CLUSTERS)
    (hnode : node.fat12Fs = fs.this) (hdir : DirFull fs node.startCluster n) (hnew : FirstFree fs new)
    (hhigh : 0xFF0 ≤ new) : ∃ fs₁, Untouched fs fs₁ ∧ fs.makeEntry (some node) =
      .ret (none, (linked fs₁ (lastOf fs.fatTable node.startCluster node.startCluster n) new).freeCluster new) := by
  obtain ⟨fs₁, hfind, huntouched⟩ := findFreeEntry_full hm hcoh hnode hdir
  have hlow := hnew.low
  refine ⟨fs₁, huntouched, ?_⟩
  rw [makeEntry, hfind]
  dsimp only [ret_bind]
  rw [(huntouched.firstFree hnew).allocateCluster (by rw [huntouched.same.clusterCount]; exact hcount), ret_bind,
    if_neg (by omega), clearCluster, getCache, if_pos (Or.inr hhigh)]
  rfl

/-- A new cluster that the cache takes is cleared. -/
theorem makeEntry_enlarged (hm : Mounted fs) (hcoh : Coherent fs) (hcount : fs.clusterCount ≤ FAT12_MAX_CLUSTERS)
    (hnode : node.fat12Fs = fs.this) (hdir : DirFull fs node.startCluster n) (hnew : FirstFree fs new)
    (hcluster : new < 0xFF0) : ∃ fs', Enlarged fs fs' (lastOf fs.fatTable node.startCluster node.startCluster n) new ∧
      fs.makeEntry (some node) = .ret (some (⟨false, new, 0, 0⟩,
        some (new, lastOf fs.fatTable node.startCluster node.startCluster n)), fs') := by
  obtain ⟨fs₁, hfind, huntouched⟩ := findFreeEntry_full hm hcoh hnode hdir
  have hlow := hnew.low
  generalize lastOf fs.fatTable node.startCluster node.startCluster n = last at *
  have hm₁ := hm.congr huntouched.same
  have hlinked : FAT12FS.Keeps fs₁ (linked fs₁ last new) :=
    (keeps_link fs₁ last new new 0xFFF).trans (keeps_fatTableDirty _ true)
  obtain ⟨hcoh₂, hsame₂⟩ := hlinked hm₁ huntouched.coherent
  obtain ⟨fs', buf, hclear, hstored, hroot⟩ := @clearCluster_stored (linked fs₁ last new) new (hm₁.congr hsame₂) hcoh₂
    ⟨hlow, hcluster⟩
  have hsame := huntouched.same.trans hsame₂
  refine ⟨fs', ⟨hstored.coherent, hsame.trans hstored.same, ?_, ?_, ?_⟩, ?_⟩
  · rw [hstored.fatTable]
    change Function.update (Function.update fs₁.fatTable last new) new 0xFFF = _
    rw [huntouched.fatTable]
    rfl
  · rw [hroot]
    exact huntouched.rootDir
  · intro c k hc hne hk
    rw [hstored.byte c k hc (by rw [hsame.clusterSize]; exact hk), if_neg hne]
    exact congrFun (congrFun huntouched.clusterByte c) k
  · rw [makeEntry, hfind]
    dsimp only [ret_bind]
    rw [(huntouched.firstFree hnew).allocateCluster (by rw [huntouched.same.clusterCount]; exact hcount), ret_bind,
      if_neg (by omega), ← linked, hclear]
    rfl

/-- An entry that is there: in the root directory, or in a cluster that the cache takes. -/
def HasPlace (fs : FAT12FS) (location : EntryLocation) : Prop :=
  location.isRoot = true ∧ location.rootIndex < fs.rootEntries ∨
    location.isRoot = false ∧ IsCluster location.currentCluster ∧ location.entryIndexInCluster < slotCount fs

/-- What `makeEntry` comes to when the directory does not grow. -/
theorem makeEntry_cases (hm : Mounted fs) (hcoh : Coherent fs) (hcount : fs.clusterCount ≤ FAT12_MAX_CLUSTERS)
    {dir : Option Fat12Inode} {made : Option (EntryLocation × Option (Nat × Nat))}
    (h : fs.makeEntry dir = .ret (made, fs')) :
    (made = none ∧ Untouched fs fs') ∨
      (∃ location, made = some (location, none) ∧ Untouched fs fs' ∧ HasPlace fs location) ∨
      ∃ node n new, dir = some node ∧ node.fat12Fs = fs.this ∧ DirFull fs node.startCluster n ∧ FirstFree fs new := by
  rw [makeEntry] at h
  obtain ⟨⟨free, fs₁⟩, hfind, hrest⟩ := bind_eq_ret h
  cases dir with
  | none =>
      rw [findFreeEntry] at hfind
      split at hfind
      · rename_i idx hidx
        cases hfind
        cases hrest
        have hlt : idx < fs.rootEntries := List.mem_range.mp (List.mem_of_find?_eq_some hidx)
        exact Or.inr (Or.inl ⟨_, rfl, Untouched.refl hcoh, Or.inl ⟨rfl, hlt⟩⟩)
      · cases hfind
        cases hrest
        exact Or.inl ⟨rfl, Untouched.refl hcoh⟩
  | some node =>
      rw [findFreeEntry] at hfind
      split at hfind
      · cases hfind
        cases hrest
        exact Or.inl ⟨rfl, Untouched.refl hcoh⟩
      · rename_i hnode
        obtain ⟨huntouched, hfailed | ⟨c, k, hfound, hc, hk⟩ | ⟨n, hdir, hextend⟩⟩ := freeEntryLoop_cases hm hcoh hfind
        · rw [hfailed] at hrest
          cases hrest
          exact Or.inl ⟨rfl, huntouched⟩
        · rw [hfound] at hrest
          cases hrest
          exact Or.inr (Or.inl ⟨_, rfl, huntouched, Or.inr ⟨rfl, hc, hk⟩⟩)
        · rw [hextend] at hrest
          obtain ⟨new, halloc, hrest⟩ := bind_eq_ret hrest
          split at hrest
          · cases hrest
            exact Or.inl ⟨rfl, huntouched⟩
          · rename_i hne
            have hfree := firstFree_of_allocate (by rw [huntouched.same.clusterCount]; exact hcount) halloc hne
            refine Or.inr (Or.inr ⟨node, n, new, rfl, not_not.mp hnode, hdir, hfree.low, ?_, ?_, ?_⟩)
            · rw [← huntouched.same.clusterCount]
              exact hfree.lt
            · rw [← huntouched.fatTable]
              exact hfree.free
            · rw [← huntouched.fatTable]
              exact hfree.first

/-- An entry that has been found can be written. -/
theorem writeDirEntry_true (hm : Mounted fs) (hcoh : Coherent fs) {location : EntryLocation} {entry : NormalizedEntry}
    {res : Bool} (hplace : HasPlace fs location) (h : fs.writeDirEntry location entry = .ret (res, fs')) : res = true := by
  rw [writeDirEntry] at h
  rcases hplace with ⟨hroot, hidx⟩ | ⟨hroot, hc, hk⟩
  · rw [if_pos hroot, if_neg (Nat.not_le.mpr hidx)] at h
    exact (Prod.mk.inj (Outcome.ret.inj h)).1.symm
  · obtain ⟨i, fs₁, hget, hpin⟩ := getCache_spec hm hcoh hc
    obtain ⟨hlow, hhigh⟩ := hc
    have hslot : ¬location.entryIndexInCluster ≥ fs.clusterSize / FAT12_ENTRY_BYTES := Nat.not_le.mpr hk
    rw [if_neg (by rw [hroot]; exact Bool.false_ne_true), putDirEntry, if_neg hslot, if_neg (by omega), hget] at h
    dsimp only [ret_bind, EntryBuf.write] at h
    obtain ⟨fs₂, -, h⟩ := bind_eq_ret h
    exact (Prod.mk.inj (Outcome.ret.inj h)).1.symm

theorem Untouched.hasPlace (h : Untouched fs fs') {location : EntryLocation} (hplace : HasPlace fs location) :
    HasPlace fs' location := by
  unfold HasPlace at hplace ⊢
  rw [slotCount, h.same.rootEntries, h.same.clusterSize]
  exact hplace

theorem Untouched.enlarged (h : Untouched fs fs') {last : Nat} (henlarged : Enlarged fs' fs₁ last new) :
    Enlarged fs fs₁ last new := by
  refine ⟨henlarged.coherent, h.same.trans henlarged.same, ?_, henlarged.rootDir.trans h.rootDir, ?_⟩
  · rw [henlarged.fatTable]
    change Function.update (Function.update fs'.fatTable last new) new 0xFFF = _
    rw [h.fatTable]
    rfl
  · intro c k hc hne hk
    rw [henlarged.byte c k hc hne (by rw [h.same.clusterSize]; exact hk), h.clusterByte]

theorem Enlarged.hasPlace {last : Nat} (h : Enlarged fs fs' last new) (hm : Mounted fs) (hc : IsCluster new) :
    HasPlace fs' ⟨false, new, 0, 0⟩ := by
  right
  refine ⟨rfl, hc, ?_⟩
  have hspc := hm.sectorsPerCluster
  rw [slotCount, h.same.clusterSize, hm.clusterSize]
  simp only [FAT12_ENTRY_BYTES]
  omega

end

/-! ### Failing without a trace -/

/-- The FAT, the root directory and the clusters that are in use are as before, and the cache shows them. -/
structure Unchanged (fs fs' : FAT12FS) : Prop where
  coherent : Coherent fs'
  fatTable : fs'.fatTable = fs.fatTable
  rootDir : fs'.rootDir = fs.rootDir
  cluster : ∀ c k, 2 ≤ c → fs.fatTable c ≠ 0 → k < fs.clusterSize → fs'.clusterByte c k = fs.clusterByte c k

theorem Untouched.unchanged {fs fs' : FAT12FS} (h : Untouched fs fs') : Unchanged fs fs' :=
  ⟨h.coherent, h.fatTable, h.rootDir, fun c k _ _ _ => congrFun (congrFun h.clusterByte c) k⟩

/-- Neither call leaves anything behind when it returns false. -/
structure FailsCleanly (vol : FatVolume) (dir : Option Nat) (name : List Byte) : Prop where
  createFile : ∀ attr vol', vol.createFile dir name attr = .ret (false, vol') → Unchanged vol.fs vol'.fs
  createDirectory : ∀ vol', vol.createDirectory dir name = .ret (false, vol') → Unchanged vol.fs vol'.fs

/-- The name is new, and the directory has to grow: behind `last`, by `new`. -/
structure Grows (vol : FatVolume) (place : Nat) (name : List Byte) (last new : Nat) : Prop where
  lookup : ∃ clusters vol', vol.lookup (some place) name = .ret (none, clusters, vol')
  this : (vol.inodepool.inodes place).fat12Fs = vol.fs.this
  full : ∃ n, DirFull vol.fs (vol.inodepool.inodes place).startCluster n ∧
    last = lastOf vol.fs.fatTable (vol.inodepool.inodes place).startCluster (vol.inodepool.inodes place).startCluster n
  new : FirstFree vol.fs new

/-- What has been done for the new cluster is undone, or there is nothing to undo: the entry of the last cluster is
the end mark that is written back, or a second cluster is free. -/
def GrowthUndone (fs : FAT12FS) (last new : Nat) : Prop :=
  if new < 0xFF0 then
    fs.fatTable last = 0xFFF ∨
      ∃ k, 2 ≤ k ∧ k < fs.clusterCount ∧ k ≠ last ∧ k ≠ new ∧ fs.fatTable k = 0
  else fs.fatTable last = new

section

variable {table : Nat → Nat} {last new : Nat}

/-- What is left of a cluster that the cache has refused. -/
theorem refused_table (hfree : table new = 0) (hne : last ≠ new) :
    Function.update (Function.update (Function.update table last new) new 0xFFF) new 0 = table ↔ table last = new := by
  rw [Function.update_idem]
  constructor
  · intro hsame
    have hlast := congrFun hsame last
    rw [Function.update_of_ne hne, Function.update_self] at hlast
    exact hlast.symm
  · intro hlast
    funext k
    by_cases hk : k = new
    · rw [hk, Function.update_self, hfree]
    · rw [Function.update_of_ne hk]
      by_cases hk' : k = last
      · rw [hk', Function.update_self, hlast]
      · rw [Function.update_of_ne hk']

/-- What the rollback makes of the table. -/
theorem rollback_table (hfree : table new = 0) :
    Function.update (Function.update (Function.update (Function.update table last new) new 0xFFF) new 0) last 0xFFF =
      table ↔ table last = 0xFFF := by
  rw [Function.update_idem]
  constructor
  · intro hsame
    have hlast := congrFun hsame last
    rw [Function.update_self] at hlast
    exact hlast.symm
  · intro hlast
    funext k
    by_cases hk : k = last
    · rw [hk, Function.update_self, hlast]
    · rw [Function.update_of_ne hk]
      by_cases hk' : k = new
      · rw [hk', Function.update_self, hfree]
      · rw [Function.update_of_ne hk', Function.update_of_ne hk]

end

section

variable {vol vol' : FatVolume} {name : List Byte} {place last new : Nat}

/-- A directory whose chain is empty has not come to a member of a chain, so that the last cluster is not free. -/
theorem Grows.last_ne (h : Grows vol place name last new) (hcount : vol.fs.clusterCount ≤ 4084 + 2)
    (hhigh : 0xFF0 ≤ new) : last ≠ new := by
  obtain ⟨n, hdir, hlast⟩ := h.full
  have hlt := h.new.lt
  rintro rfl
  cases n with
  | zero =>
      have hstart : (vol.inodepool.inodes place).startCluster = last := hlast.symm
      have hout := hdir.ends
      rw [Function.iterate_zero_apply, hstart, InChain] at hout
      omega
  | succ n =>
      have hc := hdir.cluster n (Nat.lt_succ_self n)
      have hwalked : vol.fs.fatTable^[n] (vol.inodepool.inodes place).startCluster = last := hlast.symm
      rw [hwalked, IsCluster] at hc
      omega

/-- A directory that has to grow is grown, or the cache refuses the new cluster. -/
theorem Grows.makeEntry (h : Grows vol place name last new) (hm : Mounted vol.fs) (hcoh : Coherent vol.fs)
    (hcount : vol.fs.clusterCount ≤ 4084 + 2) : ∃ clusters vol₁, vol.lookup (some place) name = .ret (none, clusters, vol₁) ∧
      Untouched vol.fs vol₁.fs ∧ vol₁.inodepool = vol.inodepool ∧
      (0xFF0 ≤ new → ∃ fs₁, Untouched vol.fs fs₁ ∧
        vol₁.fs.makeEntry (vol₁.node (some place)) = .ret (none, (linked fs₁ last new).freeCluster new)) ∧
      (new < 0xFF0 → ∃ fs₁, Enlarged vol.fs fs₁ last new ∧ vol₁.fs.makeEntry (vol₁.node (some place)) =
        .ret (some (⟨false, new, 0, 0⟩, some (new, last)), fs₁)) := by
  obtain ⟨clusters, vol₁, hlookup⟩ := h.lookup
  obtain ⟨huntouched, hpool⟩ := lookup_untouched hm hcoh hlookup
  obtain ⟨n, hdir, hlast⟩ := h.full
  have hm₁ := hm.congr huntouched.same
  have hcount₁ : vol₁.fs.clusterCount ≤ FAT12_MAX_CLUSTERS := by
    rw [huntouched.same.clusterCount]
    exact hcount.trans (by decide)
  have hnode : (vol.inodepool.inodes place).fat12Fs = vol₁.fs.this := h.this.trans huntouched.same.this.symm
  have hdir₁ := (huntouched.dirFull _ _).mpr hdir
  have hnew₁ := huntouched.firstFree h.new
  have hplace : vol₁.node (some place) = some (vol.inodepool.inodes place) := by
    rw [FatVolume.node, hpool rfl]
    rfl
  refine ⟨clusters, vol₁, hlookup, huntouched, hpool rfl, fun hhigh => ?_, fun hcluster => ?_⟩
  · obtain ⟨fs₁, hrest, hrun⟩ := makeEntry_refused hm₁ huntouched.coherent hcount₁ hnode hdir₁ hnew₁ hhigh
    rw [huntouched.fatTable, ← hlast] at hrun
    exact ⟨fs₁, huntouched.trans hrest, by rw [hplace, hrun]⟩
  · obtain ⟨fs₁, henlarged, hrun⟩ := makeEntry_enlarged hm₁ huntouched.coherent hcount₁ hnode hdir₁ hnew₁ hcluster
    rw [huntouched.fatTable, ← hlast] at hrun henlarged
    exact ⟨fs₁, huntouched.enlarged henlarged, by rw [hplace, hrun]⟩

/-- What both calls come to when the directory does not grow. -/
theorem makeEntry_noGrowth (hm : Mounted vol.fs) (hcoh : Coherent vol.fs)
    (hcount : vol.fs.clusterCount ≤ 4084 + 2) {dir : Option Nat} {clusters : List Nat} {vol₁ : FatVolume}
    (hlookup : vol.lookup dir name = .ret (none, clusters, vol₁))
    (hnot : ∀ place ∈ dir, ∀ last new, ¬Grows vol place name last new)
    {made : Option (EntryLocation × Option (Nat × Nat))} {fs' : FAT12FS}
    (hmake : vol₁.fs.makeEntry (vol₁.node dir) = .ret (made, fs')) : Untouched vol.fs fs' ∧
      (made = none ∨ ∃ location, made = some (location, none) ∧ HasPlace fs' location) := by
  obtain ⟨huntouched, hpool⟩ := lookup_untouched hm hcoh hlookup
  have hm₁ := hm.congr huntouched.same
  have hcount₁ : vol₁.fs.clusterCount ≤ FAT12_MAX_CLUSTERS := by
    rw [huntouched.same.clusterCount]
    exact hcount.trans (by decide)
  rcases makeEntry_cases hm₁ huntouched.coherent hcount₁ hmake with
    ⟨hnone, hrest⟩ | ⟨location, hsome, hrest, hplace⟩ | ⟨node, n, new, hdir, hthis, hfull, hnew⟩
  · exact ⟨huntouched.trans hrest, Or.inl hnone⟩
  · exact ⟨huntouched.trans hrest, Or.inr ⟨location, hsome, hrest.hasPlace hplace⟩⟩
  · cases dir with
    | none => cases hdir
    | some place =>
        obtain rfl := Option.some.inj hdir
        rw [hpool rfl] at hthis hfull
        refine absurd ⟨⟨clusters, vol₁, hlookup⟩, hthis.trans huntouched.same.this,
          ⟨n, (huntouched.dirFull _ _).mp hfull, rfl⟩, hnew.low, ?_, ?_, ?_⟩ (hnot place rfl _ new)
        · rw [← huntouched.same.clusterCount]
          exact hnew.lt
        · rw [← huntouched.fatTable]
          exact hnew.free
        · rw [← huntouched.fatTable]
          exact hnew.first

theorem refused_unchanged {fs fs₁ : FAT12FS} (hm : Mounted fs) (h : Untouched fs fs₁) (hfree : fs.fatTable new = 0)
    (hne : last ≠ new) : Unchanged fs ((linked fs₁ last new).freeCluster new) ↔ fs.fatTable last = new := by
  have htable : ((linked fs₁ last new).freeCluster new).fatTable =
      Function.update (Function.update (Function.update fs.fatTable last new) new 0xFFF) new 0 := by
    rw [← h.fatTable]
    rfl
  constructor
  · intro hunchanged
    exact (refused_table hfree hne).mp (htable.symm.trans hunchanged.fatTable)
  · intro hlast
    have hkeeps : FAT12FS.Keeps fs₁ ((linked fs₁ last new).freeCluster new) :=
      ((keeps_link fs₁ last new new 0xFFF).trans (keeps_fatTableDirty _ true)).trans (keeps_freeCluster _ new)
    refine ⟨(hkeeps (hm.congr h.same) h.coherent).1, htable.trans ((refused_table hfree hne).mpr hlast), h.rootDir, ?_⟩
    intro c k _ _ _
    exact congrFun (congrFun h.clusterByte c) k

theorem rollback_unchanged {fs fs₁ : FAT12FS} (hm : Mounted fs) (h : Enlarged fs fs₁ last new)
    (hfree : fs.fatTable new = 0) :
    Unchanged fs (fs₁.rollback (some (new, last))) ↔ fs.fatTable last = 0xFFF := by
  have htable : (fs₁.rollback (some (new, last))).fatTable = Function.update
      (Function.update (Function.update (Function.update fs.fatTable last new) new 0xFFF) new 0) last 0xFFF := by
    change Function.update (Function.update fs₁.fatTable new 0) last 0xFFF = _
    rw [h.fatTable]
    rfl
  constructor
  · intro hunchanged
    exact (rollback_table hfree).mp (htable.symm.trans hunchanged.fatTable)
  · intro hlast
    refine ⟨(rollback_keeps fs₁ _ (hm.congr h.same) h.coherent).1, htable.trans ((rollback_table hfree).mpr hlast),
      h.rootDir, ?_⟩
    intro c k hc hused hk
    exact h.byte c k hc (fun hnew => hused (by rw [hnew, hfree])) hk

/-- What is free once the directory has grown. -/
theorem Enlarged.free {fs fs₁ : FAT12FS} (h : Enlarged fs fs₁ last new) (hlow : 2 ≤ new) (k : Nat) :
    fs₁.fatTable k = 0 ↔ k ≠ last ∧ k ≠ new ∧ fs.fatTable k = 0 := by
  rw [h.fatTable]
  change Function.update (Function.update fs.fatTable last new) new 0xFFF k = 0 ↔ _
  by_cases hnew : k = new
  · rw [hnew, Function.update_self]
    exact ⟨nofun, fun hall => absurd rfl hall.2.1⟩
  · rw [Function.update_of_ne hnew]
    by_cases hlast : k = last
    · rw [hlast, Function.update_self]
      exact ⟨fun hzero => by omega, fun hall => absurd rfl hall.1⟩
    · rw [Function.update_of_ne hlast]
      exact ⟨fun hzero => ⟨hlast, hnew, hzero⟩, fun hall => hall.2.2⟩

/-- What `makeEntry` comes to for a name that is new. -/
inductive Made (vol : FatVolume) (dir : Option Nat) (name : List Byte) :
    Option (EntryLocation × Option (Nat × Nat)) → FAT12FS → Prop
  | failed {fs} : Untouched vol.fs fs → Made vol dir name none fs
  | found {fs location} : Untouched vol.fs fs → HasPlace fs location → Made vol dir name (some (location, none)) fs
  | refused {fs place last new} : place ∈ dir → Grows vol place name last new → 0xFF0 ≤ new → Untouched vol.fs fs →
      Made vol dir name none ((linked fs last new).freeCluster new)
  | enlarged {fs place last new} : place ∈ dir → Grows vol place name last new → new < 0xFF0 →
      Enlarged vol.fs fs last new → Made vol dir name (some (⟨false, new, 0, 0⟩, some (new, last))) fs

theorem made_of_makeEntry (hm : Mounted vol.fs) (hcoh : Coherent vol.fs) (hcount : vol.fs.clusterCount ≤ 4084 + 2)
    {dir : Option Nat} {clusters : List Nat} {vol₁ : FatVolume}
    (hlookup : vol.lookup dir name = .ret (none, clusters, vol₁))
    {made : Option (EntryLocation × Option (Nat × Nat))} {fs' : FAT12FS}
    (hmake : vol₁.fs.makeEntry (vol₁.node dir) = .ret (made, fs')) : Made vol dir name made fs' := by
  by_cases hgrowth : ∃ place ∈ dir, ∃ last new, Grows vol place name last new
  · obtain ⟨place, hplace, last, new, hgrows⟩ := hgrowth
    obtain rfl : dir = some place := hplace
    obtain ⟨clusters', vol₂, hlookup', -, -, hrefused, henlarged⟩ := hgrows.makeEntry hm hcoh hcount
    obtain ⟨-, hvol⟩ := Prod.mk.inj (Prod.mk.inj (Outcome.ret.inj (hlookup.symm.trans hlookup'))).2
    rw [← hvol] at hrefused henlarged
    by_cases hcluster : new < 0xFF0
    · obtain ⟨fs₂, hmade, hrun⟩ := henlarged hcluster
      obtain ⟨rfl, rfl⟩ := Prod.mk.inj (Outcome.ret.inj (hmake.symm.trans hrun))
      exact .enlarged rfl hgrows hcluster hmade
    · obtain ⟨fs₂, hrest, hrun⟩ := hrefused (Nat.not_lt.mp hcluster)
      obtain ⟨rfl, rfl⟩ := Prod.mk.inj (Outcome.ret.inj (hmake.symm.trans hrun))
      exact .refused rfl hgrows (Nat.not_lt.mp hcluster) hrest
  · have hnot : ∀ place ∈ dir, ∀ last new, ¬Grows vol place name last new :=
      fun place hplace last new hgrows => hgrowth ⟨place, hplace, last, new, hgrows⟩
    obtain ⟨hrest, rfl | ⟨location, rfl, hplace⟩⟩ := makeEntry_noGrowth hm hcoh hcount hlookup hnot hmake
    · exact .failed hrest
    · exact .found hrest hplace

theorem createFile_clean (hm : Mounted vol.fs) (hcoh : Coherent vol.fs) (hcount : vol.fs.clusterCount ≤ 4084 + 2)
    {dir : Option Nat} (hundone : ∀ place ∈ dir, ∀ last new, Grows vol place name last new →
      GrowthUndone vol.fs last new) {attr : Byte} (h : vol.createFile dir name attr = .ret (false, vol')) :
    Unchanged vol.fs vol'.fs := by
  rw [FatVolume.createFile] at h
  split at h
  · cases h
    exact (Untouched.refl hcoh).unchanged
  · obtain ⟨⟨file, clusters, vol₁⟩, hlookup, h⟩ := bind_eq_ret h
    cases file with
    | some file =>
        cases h
        rw [FatVolume.releaseInode_fs]
        exact (lookup_untouched hm hcoh hlookup).1.unchanged
    | none =>
        obtain ⟨⟨made, fs₁⟩, hmake, h⟩ := bind_eq_ret h
        cases made_of_makeEntry hm hcoh hcount hlookup hmake with
        | failed hrest =>
            cases h
            exact hrest.unchanged
        | found hrest hplace =>
            obtain ⟨⟨res, fs₂⟩, hwrite, h⟩ := bind_eq_ret h
            obtain rfl := writeDirEntry_true (hm.congr hrest.same) hrest.coherent hplace hwrite
            cases h
        | refused hplace hgrows hhigh hrest =>
            cases h
            have hafter := hundone _ hplace _ _ hgrows
            unfold GrowthUndone at hafter
            rw [if_neg (Nat.not_lt.mpr hhigh)] at hafter
            exact (refused_unchanged hm hrest hgrows.new.free (hgrows.last_ne hcount hhigh)).mpr hafter
        | enlarged hplace hgrows hcluster hmade =>
            obtain ⟨⟨res, fs₂⟩, hwrite, h⟩ := bind_eq_ret h
            obtain rfl := writeDirEntry_true (hm.congr hmade.same) hmade.coherent
              (hmade.hasPlace hm ⟨hgrows.new.low, hcluster⟩) hwrite
            cases h

/-- Marking the first cluster of a new directory leaves the places of entries. -/
theorem writeDirEntry_marked {fs fs' : FAT12FS} (hm : Mounted fs) (hcoh : Coherent fs) {start : Nat}
    {location : EntryLocation} {entry : NormalizedEntry} {res : Bool} (hplace : HasPlace fs location)
    (h : (fs.setFat start 0xFFF).writeDirEntry location entry = .ret (res, fs')) : res = true := by
  obtain ⟨hcoh', hsame⟩ := keeps_setFat fs start 0xFFF hm hcoh
  exact writeDirEntry_true (hm.congr hsame) hcoh' hplace h

theorem createDirectory_clean (hm : Mounted vol.fs) (hcoh : Coherent vol.fs)
    (hcount : vol.fs.clusterCount ≤ 4084 + 2) {dir : Option Nat}
    (hundone : ∀ place ∈ dir, ∀ last new, Grows vol place name last new → GrowthUndone vol.fs last new)
    (h : vol.createDirectory dir name = .ret (false, vol')) : Unchanged vol.fs vol'.fs := by
  rw [FatVolume.createDirectory] at h
  obtain ⟨⟨file, clusters, vol₁⟩, hlookup, h⟩ := bind_eq_ret h
  cases file with
  | some file =>
      cases h
      rw [FatVolume.releaseInode_fs]
      exact (lookup_untouched hm hcoh hlookup).1.unchanged
  | none =>
      obtain ⟨⟨made, fs₁⟩, hmake, h⟩ := bind_eq_ret h
      -- once a first cluster is allocated the call succeeds or panics
      have hsecond : ∀ {location appended}, Mounted fs₁ → Coherent fs₁ → HasPlace fs₁ location →
          made = some (location, appended) → fs₁.allocateCluster = .ret 0 ∧ vol'.fs = fs₁.rollback appended := by
        rintro location appended hm₁ hcoh₁ hplace rfl
        obtain ⟨start, halloc, h⟩ := bind_eq_ret h
        split at h
        · rename_i hzero
          cases h
          rw [hzero] at halloc
          exact ⟨halloc, rfl⟩
        · obtain ⟨⟨res, fs₂⟩, hwrite, h⟩ := bind_eq_ret h
          obtain rfl := writeDirEntry_marked hm₁ hcoh₁ hplace hwrite
          obtain ⟨cleared, -, h⟩ := bind_eq_ret h
          split at h <;> cases h
      cases made_of_makeEntry hm hcoh hcount hlookup hmake with
      | failed hrest =>
          cases h
          exact hrest.unchanged
      | found hrest hplace =>
          obtain ⟨-, hfs⟩ := hsecond (hm.congr hrest.same) hrest.coherent hplace rfl
          rw [hfs]
          exact hrest.unchanged
      | refused hplace hgrows hhigh hrest =>
          cases h
          have hafter := hundone _ hplace _ _ hgrows
          unfold GrowthUndone at hafter
          rw [if_neg (Nat.not_lt.mpr hhigh)] at hafter
          exact (refused_unchanged hm hrest hgrows.new.free (hgrows.last_ne hcount hhigh)).mpr hafter
      | enlarged hplace hgrows hcluster hmade =>
          obtain ⟨halloc, hfs⟩ := hsecond (hm.congr hmade.same) hmade.coherent
            (hmade.hasPlace hm ⟨hgrows.new.low, hcluster⟩) rfl
          rw [hfs]
          have hafter := hundone _ hplace _ _ hgrows
          unfold GrowthUndone at hafter
          rw [if_pos hcluster] at hafter
          refine (rollback_unchanged hm hmade hgrows.new.free).mpr (hafter.resolve_right ?_)
          rintro ⟨k, hk, hlt, hfree⟩
          rcases @allocateCluster_cases fs₁ (by rw [hmade.same.clusterCount]; exact hcount.trans (by decide)) with
            ⟨-, hnone⟩ | ⟨c, hsome, hlow, -, -, -⟩
          · exact hnone k hk (by rw [hmade.same.clusterCount]; exact hlt) ((hmade.free hgrows.new.low k).mpr hfree)
          · have hzero := Outcome.ret.inj (halloc.symm.trans hsome)
            omega

theorem Grows.undone (h : Grows vol place name last new) (hm : Mounted vol.fs) (hcoh : Coherent vol.fs)
    (hcount : vol.fs.clusterCount ≤ 4084 + 2) (hclean : FailsCleanly vol (some place) name) :
    GrowthUndone vol.fs last new := by
  obtain ⟨clusters, vol₁, hlookup, -, -, hrefused, henlarged⟩ := h.makeEntry hm hcoh hcount
  unfold GrowthUndone
  split
  · rename_i hcluster
    obtain ⟨fs₁, hmade, hmake⟩ := henlarged hcluster
    by_cases hother : ∃ k, 2 ≤ k ∧ k < vol.fs.clusterCount ∧ k ≠ last ∧ k ≠ new ∧ vol.fs.fatTable k = 0
    · exact Or.inr hother
    · -- the second cluster is not found, and the directory is taken back
      have halloc : fs₁.allocateCluster = .ret 0 := by
        rcases @allocateCluster_cases fs₁ (by rw [hmade.same.clusterCount]; exact hcount.trans (by decide)) with
          ⟨hnone, -⟩ | ⟨c, -, hlow, hlt, hfree, -⟩
        · exact hnone
        · rw [hmade.same.clusterCount] at hlt
          exact absurd ⟨c, hlow, hlt, (hmade.free h.new.low c).mp hfree⟩ hother
      have hrun : vol.createDirectory (some place) name =
          .ret (false, { vol₁ with fs := fs₁.rollback (some (new, last)) }) := by
        rw [FatVolume.createDirectory, hlookup]
        dsimp only [ret_bind]
        rw [hmake]
        dsimp only [ret_bind]
        rw [halloc]
        rfl
      exact Or.inl ((rollback_unchanged hm hmade h.new.free).mp (hclean.createDirectory _ hrun))
  · rename_i hcluster
    have hhigh := Nat.not_lt.mp hcluster
    obtain ⟨fs₁, hrest, hmake⟩ := hrefused hhigh
    have hrun : vol.createFile (some place) name 0 =
        .ret (false, { vol₁ with fs := (linked fs₁ last new).freeCluster new }) := by
      rw [FatVolume.createFile, if_neg (by decide), hlookup]
      dsimp only [ret_bind]
      rw [hmake]
      rfl
    exact (refused_unchanged hm hrest h.new.free (h.last_ne hcount hhigh)).mp (hclean.createFile 0 _ hrun)

/-- Failed creations leave nothing behind if and only if, where the directory has to grow for the name, the growth
is undone. -/
theorem failsCleanly_iff (hm : Mounted vol.fs) (hcoh : Coherent vol.fs) (hcount : vol.fs.clusterCount ≤ 4084 + 2)
    (dir : Option Nat) (name : List Byte) : FailsCleanly vol dir name ↔
      ∀ place ∈ dir, ∀ last new, Grows vol place name last new → GrowthUndone vol.fs last new := by
  constructor
  · rintro hclean place hplace last new hgrows
    obtain rfl : dir = some place := hplace
    exact hgrows.undone hm hcoh hcount hclean
  · intro hundone
    exact ⟨fun _ _ hrun => createFile_clean hm hcoh hcount hundone hrun,
      fun _ hrun => createDirectory_clean hm hcoh hcount hundone hrun⟩

end

/-- A directory whose second entry is free does not grow. -/
theorem failsCleanly_labelInDirectory : FailsCleanly labelInDirectory (some 0) (bytesOf ['c']) := by
  have hdir := labelInDirectory_isDir
  apply (failsCleanly_iff hdir.mounted hdir.coherent (by decide) _ _).mpr
  rintro place hplace last new hgrows
  obtain rfl := Option.some.inj hplace
  obtain ⟨n, hfull, -⟩ := hgrows.full
  cases n with
  | zero => exact absurd hfull.ends (not_not_intro ⟨by decide, by decide⟩)
  | succ n =>
      have hfree : IsFree (slot labelInDirectory.fs 2 1) := by decide +kernel
      exact absurd hfree (hfull.full 0 (Nat.succ_pos n) 1 (by decide))

/-- A volume of 4084 data clusters, of which those from 0xFF0 on are free, and a directory in cluster 2 that is
full of files. -/
def fullDirectory : FatVolume where
  fs :=
    { lastClustersFree with
      device :=
        { sector := fun lba off => if lba = 26 then if off % 32 = 11 then 0x20 else 0x41 else 0
          fails := fun _ => false
          requests := 0 } }
  inodepool := labelInDirectory.inodepool

theorem fullDirectory_mounted : Mounted fullDirectory.fs :=
  ⟨fun _ => rfl, rfl, by decide, rfl, by decide, by decide⟩

theorem fullDirectory_coherent : Coherent fullDirectory.fs :=
  ⟨fun _ _ => rfl, fun _ _ => rfl, fun _ _ hi => absurd hi (Nat.not_succ_le_zero 1),
    fun _ _ _ _ hi => absurd hi (Nat.not_succ_le_zero 1)⟩

theorem fullDirectory_grows : Grows fullDirectory 0 (bytesOf ['c']) 2 0xFF0 := by
  have hlookup : (fullDirectory.lookup (some 0) (bytesOf ['c']) >>= fun r => .ret r.1.isNone).getD false = true := by
    decide +kernel
  refine ⟨?_, rfl, ⟨1, ⟨?_, ?_, ?_⟩, rfl⟩, ⟨by decide, by decide, rfl, ?_⟩⟩
  · cases hret : fullDirectory.lookup (some 0) (bytesOf ['c']) with
    | ret r =>
        obtain ⟨found, rest⟩ := r
        rw [hret] at hlookup
        obtain rfl := Option.isNone_iff_eq_none.mp hlookup
        exact ⟨rest.1, rest.2, rfl⟩
    | halt =>
        rw [hret] at hlookup
        cases hlookup
    | diverge =>
        rw [hret] at hlookup
        cases hlookup
  · intro m hm
    obtain rfl := Nat.lt_one_iff.mp hm
    exact ⟨by decide, by decide⟩
  · intro m hm
    obtain rfl := Nat.lt_one_iff.mp hm
    unfold ClusterFull
    decide +kernel
  · rintro ⟨-, hhigh⟩
    exact absurd hhigh (by decide)
  · intro k _ hk
    have hused : fullDirectory.fs.fatTable k = 0xFFF := if_pos hk
    rw [hused]
    decide

/-- The directory is left linked to cluster 0xFF0, which is free. -/
theorem not_failsCleanly_fullDirectory : Mounted fullDirectory.fs ∧ Coherent fullDirectory.fs ∧
    ¬FailsCleanly fullDirectory (some 0) (bytesOf ['c']) := by
  refine ⟨fullDirectory_mounted, fullDirectory_coherent, fun hclean => ?_⟩
  have hundone := fullDirectory_grows.undone fullDirectory_mounted fullDirectory_coherent (by decide) hclean
  rw [GrowthUndone, if_neg (by decide)] at hundone
  exact absurd hundone (by decide)

end SysuOs.Vfs
