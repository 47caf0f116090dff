import SysuOs.FatEmpty
import SysuOs.FatRun

/-! What `remove` leaves of the directory tree. It does not ask whether the entry is of a directory: the entries of
one are lost with its clusters. -/

namespace SysuOs.Vfs

open FAT12FS EntryBuf Root

/-! ### Live entries, each for itself -/

/-- An entry in front of the end mark, and neither deleted nor a part of a long name. -/
structure Raw (s : Nat → ByteMap) (k : Nat) : Prop where
  short : ¬IsLfn (s k)
  kept : s k 0 ≠ 0xE5
  before : ∀ j, j ≤ k → ¬IsLfn (s j) → s j 0 ≠ 0

section

variable {s s' : Nat → ByteMap} {n k i : Nat} {lfn : Bool}

theorem mem_liveSlots_iff : i ∈ liveSlots s n k ↔ k ≤ i ∧ i < k + n ∧ ¬IsLfn (s i) ∧ s i 0 ≠ 0xE5 ∧ ¬IsLabel (s i) ∧
    ∀ j, k ≤ j → j ≤ i → ¬IsLfn (s j) → s j 0 ≠ 0 := by
  induction n generalizing k with
  | zero => exact iff_of_false List.not_mem_nil (fun h => by omega)
  | succ n ih =>
      have hnext : (k + 1 ≤ i ∧ i < k + 1 + n ∧ ¬IsLfn (s i) ∧ s i 0 ≠ 0xE5 ∧ ¬IsLabel (s i) ∧
          ∀ j, k + 1 ≤ j → j ≤ i → ¬IsLfn (s j) → s j 0 ≠ 0) → (¬IsLfn (s k) → s k 0 ≠ 0) →
          k ≤ i ∧ i < k + (n + 1) ∧ ¬IsLfn (s i) ∧ s i 0 ≠ 0xE5 ∧ ¬IsLabel (s i) ∧
            ∀ j, k ≤ j → j ≤ i → ¬IsLfn (s j) → s j 0 ≠ 0 := by
        rintro ⟨hle, hlt, hshort, hkept, hlabel, hbefore⟩ hfirst
        refine ⟨by omega, by omega, hshort, hkept, hlabel, fun j hj hji => ?_⟩
        by_cases heq : j = k
        · rw [heq]
          exact hfirst
        · exact hbefore j (by omega) hji
      have hlater : (k ≤ i ∧ i < k + (n + 1) ∧ ¬IsLfn (s i) ∧ s i 0 ≠ 0xE5 ∧ ¬IsLabel (s i) ∧
          ∀ j, k ≤ j → j ≤ i → ¬IsLfn (s j) → s j 0 ≠ 0) → i ≠ k →
          k + 1 ≤ i ∧ i < k + 1 + n ∧ ¬IsLfn (s i) ∧ s i 0 ≠ 0xE5 ∧ ¬IsLabel (s i) ∧
            ∀ j, k + 1 ≤ j → j ≤ i → ¬IsLfn (s j) → s j 0 ≠ 0 := by
        rintro ⟨hle, hlt, hshort, hkept, hlabel, hbefore⟩ hne
        exact ⟨by omega, by omega, hshort, hkept, hlabel, fun j hj => hbefore j (by omega)⟩
      rw [liveSlots]
      split_ifs with hlfn hend hskip
      · rw [ih]
        exact ⟨fun h => hnext h (fun hshort => absurd hlfn hshort),
          fun h => hlater h (fun heq => h.2.2.1 (heq ▸ hlfn))⟩
      · refine iff_of_false List.not_mem_nil ?_
        rintro ⟨hle, -, -, -, -, hbefore⟩
        exact hbefore k le_rfl hle hlfn hend
      · rw [ih]
        refine ⟨fun h => hnext h (fun _ => hend), fun h => hlater h ?_⟩
        rintro rfl
        exact hskip.elim h.2.2.2.1 h.2.2.2.2.1
      · rw [List.mem_cons, ih]
        constructor
        · rintro (rfl | h)
          · refine ⟨le_rfl, by omega, hlfn, fun h => hskip (Or.inl h), fun h => hskip (Or.inr h), ?_⟩
            intro j hj hji hshort
            obtain rfl : j = i := by omega
            exact hend
          · exact hnext h (fun _ => hend)
        · intro h
          by_cases heq : i = k
          · exact Or.inl heq
          · exact Or.inr (hlater h heq)

/-- What `lookup` compares with a name. -/
theorem raw_of_mem_keptSlots (h : i ∈ keptSlots s n k lfn) : k ≤ i ∧ i < k + n ∧ ¬IsLfn (s i) ∧ s i 0 ≠ 0xE5 ∧
    ∀ j, k ≤ j → j ≤ i → ¬IsLfn (s j) → s j 0 ≠ 0 := by
  induction n generalizing k lfn with
  | zero => exact absurd h List.not_mem_nil
  | succ n ih =>
      have hnext : ∀ lfn, i ∈ keptSlots s n (k + 1) lfn → (¬IsLfn (s k) → s k 0 ≠ 0) →
          k ≤ i ∧ i < k + (n + 1) ∧ ¬IsLfn (s i) ∧ s i 0 ≠ 0xE5 ∧
            ∀ j, k ≤ j → j ≤ i → ¬IsLfn (s j) → s j 0 ≠ 0 := by
        intro lfn hmem hfirst
        obtain ⟨hle, hlt, hshort, hkept, hbefore⟩ := ih hmem
        refine ⟨by omega, by omega, hshort, hkept, fun j hj hji => ?_⟩
        by_cases heq : j = k
        · rw [heq]
          exact hfirst
        · exact hbefore j (by omega) hji
      rw [keptSlots] at h
      split_ifs at h with hlfn hend hskip
      · exact hnext true h (fun hshort => absurd hlfn hshort)
      · exact absurd h List.not_mem_nil
      · exact hnext false h (fun _ => hend)
      · rcases List.mem_cons.mp h with rfl | h
        · refine ⟨le_rfl, by omega, hlfn, fun h => hskip (Or.inl h), ?_⟩
          intro j hj hji _
          obtain rfl : j = i := by omega
          exact hend
        · exact hnext false h (fun _ => hend)

/-- No end mark is passed. -/
theorem carry_isSome (h : (carry s n k lfn).isSome = true) : ∀ j, k ≤ j → j < k + n → ¬IsLfn (s j) → s j 0 ≠ 0 := by
  induction n generalizing k lfn with
  | zero =>
      intro j hj hlt
      omega
  | succ n ih =>
      intro j hj hlt hshort
      rw [carry] at h
      split_ifs at h with hlfn hend
      · refine ih h j ?_ (by omega) hshort
        by_contra hnot
        obtain rfl : j = k := by omega
        exact hshort hlfn
      · cases h
      · by_cases heq : j = k
        · rw [heq]
          exact hend
        · exact ih h j (by omega) (by omega) hshort

end

/-! ### What `lookup` finds -/

/-- Only the cache of the volume is different, and the clusters are as they were. -/
structure Quiet (fs fs' : FAT12FS) : Prop where
  coherent : Coherent fs'
  same : SameVolume fs fs'
  cache : CacheOnly fs fs'
  byte : fs'.clusterByte = fs.clusterByte

theorem Quiet.refl {fs : FAT12FS} (hcoh : Coherent fs) : Quiet fs fs :=
  ⟨hcoh, SameVolume.refl fs, CacheOnly.refl fs, rfl⟩

theorem Quiet.trans {fs fs' fs'' : FAT12FS} (h : Quiet fs fs') (h' : Quiet fs' fs'') : Quiet fs fs'' :=
  ⟨h'.coherent, h.same.trans h'.same, h.cache.trans h'.cache, h'.byte.trans h.byte⟩

theorem Quiet.fatTable {fs fs' : FAT12FS} (h : Quiet fs fs') : fs'.fatTable = fs.fatTable := by
  obtain ⟨pool, device, rfl⟩ := h.cache.eq
  rfl

theorem Quiet.rootDir {fs fs' : FAT12FS} (h : Quiet fs fs') : fs'.rootDir = fs.rootDir := by
  obtain ⟨pool, device, rfl⟩ := h.cache.eq
  rfl

/-- Where entry `k` of the clusters `l` is. -/
def placeOf (fs : FAT12FS) (l : List Nat) (k : Nat) : EntryLocation :=
  ⟨false, l.getD (k / slotCount fs) 0, k % slotCount fs, 0⟩

section

variable {vol vol' : FatVolume} {fs fs' : FAT12FS} {name : List Byte} {found : Found} {clusters : List Nat}

theorem dirEntry_congr (hbyte : fs'.clusterByte = fs.clusterByte) (hsize : fs'.clusterSize = fs.clusterSize) :
    dirEntry fs' = dirEntry fs := by
  funext l k
  unfold dirEntry slotCount
  rw [hsize, slot_congr hbyte]

theorem dirEntry_behind (hpos : 0 < slotCount fs) (pre m : List Nat) (j : Nat) :
    dirEntry fs (pre ++ m) (pre.length * slotCount fs + j) = dirEntry fs m j := by
  unfold dirEntry
  rw [Nat.mul_comm, Nat.mul_add_div hpos, Nat.mul_add_mod, List.getD_append_right _ _ _ _ (Nat.le_add_right _ _),
    Nat.add_sub_cancel_left]

theorem placeOf_behind (hpos : 0 < slotCount fs) (pre m : List Nat) (j : Nat) :
    placeOf fs (pre ++ m) (pre.length * slotCount fs + j) = placeOf fs m j := by
  unfold placeOf
  rw [Nat.mul_comm, Nat.mul_add_div hpos, Nat.mul_add_mod, List.getD_append_right _ _ _ _ (Nat.le_add_right _ _),
    Nat.add_sub_cancel_left]

theorem placeOf_first (c : Nat) (m : List Nat) {j : Nat} (hj : j < slotCount fs) :
    placeOf fs (c :: m) j = ⟨false, c, j, 0⟩ := by
  unfold placeOf
  rw [Nat.div_eq_of_lt hj, Nat.mod_eq_of_lt hj]
  rfl

theorem takeInode_pool (hthis : fs.this = vol.fs.this) (entry : NormalizedEntry) (location : EntryLocation) :
    ({ vol with fs }.takeInode entry location).2.inodepool = (vol.takeInode entry location).2.inodepool := by
  rw [FatVolume.takeInode, FatVolume.takeInode]
  dsimp only
  split
  · rfl
  · split
    · rfl
    · rw [hthis]

/-- A call took an inode for an entry, and changed nothing else but the cache. -/
structure Took (vol vol' : FatVolume) (entry : NormalizedEntry) (location : EntryLocation) (found : Found) : Prop where
  quiet : Quiet vol.fs vol'.fs
  found : (vol.takeInode entry location).1 = some found
  pool : vol'.inodepool = (vol.takeInode entry location).2.inodepool

theorem lookupLoop_found {m pre : List Nat} {head : Option Nat} {v fuel : Nat} (hm : Mounted vol.fs)
    (hcoh : Coherent vol.fs) (haccepted : vol.fs.bpb.accepted = true)
    (hwalk : Walk (fatNext vol.fs.fatTable) head m) (hlead : Leads v m) (hlinks : ∀ c ∈ m, InChain c)
    (hpre : ∀ j, j < pre.length * slotCount vol.fs → ¬IsLfn (dirEntry vol.fs (pre ++ m) j) →
      dirEntry vol.fs (pre ++ m) j 0 ≠ 0)
    (hlookup : FatVolume.lookupLoop name fuel v vol = .ret (some found, clusters, vol')) :
    ∃ k, k < (pre ++ m).length * slotCount vol.fs ∧ Raw (dirEntry vol.fs (pre ++ m)) k ∧
      IsCluster (placeOf vol.fs (pre ++ m) k).currentCluster ∧
      Took vol vol' (normalized (dirEntry vol.fs (pre ++ m) k)) (placeOf vol.fs (pre ++ m) k) found := by
  induction m generalizing vol head v fuel pre clusters with
  | nil =>
      have hend : ¬(2 ≤ v ∧ v ≤ 0xFF7) := fun hin => hlead ⟨hin.1, by omega⟩
      cases fuel with
      | zero => cases hlookup
      | succ fuel =>
          rw [FatVolume.lookupLoop, if_neg hend] at hlookup
          cases hlookup
  | cons c m ih =>
      cases fuel with
      | zero => cases hlookup
      | succ fuel =>
          obtain ⟨-, htail⟩ := hwalk
          obtain rfl : v = c := hlead
          have hlink : InChain v := hlinks v List.mem_cons_self
          have hin : 2 ≤ v ∧ v ≤ 0xFF7 := ⟨hlink.1, Nat.le_of_lt_succ hlink.2⟩
          by_cases hc : IsCluster v
          case neg =>
            rw [FatVolume.lookupLoop, if_pos hin, getCache_refused hc] at hlookup
            cases hlookup
          obtain ⟨i, fs₁, fs₂, hget, hrel, hbuf, hsame₁, -, hcoh₂, hsame₂, htable₂, hsector₂⟩ :=
            readCache_spec hm hcoh hc
          have hbyte := clusterByte_congr hsame₂ hsector₂
          have hquiet : Quiet vol.fs fs₂ :=
            ⟨hcoh₂, hsame₂, (getCache_cacheOnly hget).trans (releaseCache_cacheOnly hrel), hbyte⟩
          obtain ⟨hcount, hpos⟩ := slotCount_spec hm haccepted
          rw [FatVolume.lookupLoop, if_pos hin, hget] at hlookup
          simp only [Outcome.ret_bind, hsame₁.clusterSize, hcount] at hlookup
          have hscan := @scanCluster_spec (fs₁.cachePool i).buf (slot vol.fs v) name (slotCount vol.fs) 0 reset
            (fun k _ hk off hoff => buffer_slots hbuf (by omega) hoff)
          have hstatus : decide (reset.status = .SKIP_LFN) = false := rfl
          rw [hstatus] at hscan
          have hat : ∀ j, j < slotCount vol.fs →
              dirEntry vol.fs (pre ++ v :: m) (pre.length * slotCount vol.fs + j) = slot vol.fs v j := by
            intro j hj
            rw [dirEntry_behind hpos, dirEntry_first v m hj]
          have hlen : (pre ++ v :: m).length * slotCount vol.fs =
              pre.length * slotCount vol.fs + (m.length + 1) * slotCount vol.fs := by
            rw [List.length_append, List.length_cons, Nat.add_mul]
          -- the entries in front of one of this cluster
          have hfront : ∀ k, k ≤ slotCount vol.fs → (∀ j, j < k → ¬IsLfn (slot vol.fs v j) → slot vol.fs v j 0 ≠ 0) →
              ∀ j, j < pre.length * slotCount vol.fs + k → ¬IsLfn (dirEntry vol.fs (pre ++ v :: m) j) →
                dirEntry vol.fs (pre ++ v :: m) j 0 ≠ 0 := by
            intro k hk hslots j hj hshort
            by_cases hold : j < pre.length * slotCount vol.fs
            · exact hpre j hold hshort
            · obtain ⟨j, rfl⟩ := Nat.exists_eq_add_of_le (Nat.not_lt.mp hold)
              rw [hat j (by omega)] at hshort ⊢
              exact hslots j (by omega) hshort
          cases hcase : FatVolume.scanCluster (fs₁.cachePool i).buf name (slotCount vol.fs) 0 reset with
          | found k entry =>
              rw [hcase] at hscan hlookup
              obtain ⟨hfirst, rfl⟩ := hscan
              obtain ⟨-, hk, hshort, hkept, hbefore⟩ := raw_of_mem_keptSlots (List.mem_of_find?_eq_some hfirst)
              rw [Nat.zero_add] at hk
              dsimp only at hlookup
              rw [takeInode_fs] at hlookup
              simp only [hrel, Outcome.ret_bind, Outcome.pure_eq] at hlookup
              obtain ⟨hfound, hvol⟩ := Prod.mk.inj (Outcome.ret.inj hlookup)
              obtain ⟨-, rfl⟩ := Prod.mk.inj hvol
              refine ⟨pre.length * slotCount vol.fs + k, ?_, ⟨?_, ?_, ?_⟩, ?_, ?_⟩
              · rw [hlen, Nat.add_mul]
                omega
              · rw [hat k hk]
                exact hshort
              · rw [hat k hk]
                exact hkept
              · intro j hj
                exact hfront (k + 1) hk (fun j hj => hbefore j (Nat.zero_le j) (Nat.le_of_lt_succ hj)) j (by omega)
              · rw [placeOf_behind hpos, placeOf_first v m hk]
                exact hc
              · rw [hat k hk, placeOf_behind hpos, placeOf_first v m hk]
                refine ⟨hquiet, ?_, ?_⟩
                · rw [← takeInode_congr vol fs₁]
                  exact hfound
                · exact takeInode_pool hsame₁.this _ _
          | endOfDir =>
              rw [hcase] at hlookup
              simp only [hrel, Outcome.ret_bind] at hlookup
              cases hlookup
          | exhausted =>
              rw [hcase] at hscan hlookup
              obtain ⟨-, hcarry⟩ := hscan
              have hslots := carry_isSome hcarry
              simp only [hrel, Outcome.ret_bind] at hlookup
              obtain ⟨⟨found', clusters', vol₂⟩, hrest, hlookup⟩ := Outcome.bind_eq_ret hlookup
              cases hlookup
              have hsplit : pre ++ v :: m = (pre ++ [v]) ++ m := by simp
              have hsize : slotCount fs₂ = slotCount vol.fs := by rw [slotCount, slotCount, hsame₂.clusterSize]
              have hentries := dirEntry_congr hbyte hsame₂.clusterSize
              obtain ⟨k, hk, hraw, hread, htook⟩ := @ih { vol with fs := fs₂ } clusters' (pre ++ [v]) (fatNext fs₂.fatTable v)
                (fs₂.fatTable v) fuel (hm.congr hsame₂) hcoh₂ (by rw [hsame₂.bpb]; exact haccepted) (by rw [htable₂]; exact htail)
                (@leads_of_walk vol.fs.fatTable _ _ (by rw [htable₂]; exact htail))
                (fun d hd => hlinks d (List.mem_cons_of_mem v hd)) (by
                  rw [hentries, hsize, ← hsplit, List.length_append, List.length_singleton, Nat.add_mul, Nat.one_mul]
                  exact hfront (slotCount vol.fs) le_rfl fun j hj => hslots j (Nat.zero_le j) (by omega)) hrest
              rw [← hsplit, hentries] at hraw htook
              rw [← hsplit, hsize] at hk
              have hplace : placeOf fs₂ (pre ++ v :: m) k = placeOf vol.fs (pre ++ v :: m) k := by
                rw [placeOf, placeOf, hsize]
              rw [← hsplit, hplace] at hread
              rw [hplace] at htook
              refine ⟨k, hk, hraw, hread, hquiet.trans htook.quiet, ?_, ?_⟩
              · rw [← takeInode_congr vol fs₂]
                exact htook.found
              · rw [htook.pool]
                exact takeInode_pool hsame₂.this _ _

/-! ### The directory tree -/

end

/-- The entries of the directory tree, `.` and `..` apart: where each is, the first cluster of what it is of, and its
attributes. -/
inductive Reachable (fs : FAT12FS) : EntryLocation → Nat → Byte → Prop
  | root {idx : Nat} (hlt : idx < fs.rootEntries) (hlive : FatVolume.Compared (fs.rootDir idx)) :
      Reachable fs ⟨true, 0, 0, idx⟩ (fs.rootDir idx).startCluster (fs.rootDir idx).attr
  | child {location : EntryLocation} {start : Nat} {attr : Byte} {l : List Nat} {k : Nat}
      (hparent : Reachable fs location start attr) (hdir : attr &&& DIRECTORY ≠ 0) (hchain : Linked fs start l)
      (hlive : k ∈ liveIn fs l) (hdots : ¬IsDots (dirEntry fs l k)) :
      Reachable fs (placeOf fs l k) (u16At (dirEntry fs l k) 26) (dirEntry fs l k 11)

/-- The cluster is one of the entry at the location. -/
def OwnedAt (fs : FAT12FS) (location : EntryLocation) (c : Nat) : Prop :=
  ∃ start attr l, Reachable fs location start attr ∧ Linked fs start l ∧ c ∈ l

/-- An entry of a directory of the tree, be it `.` or `..` or a volume label. -/
structure Standing (fs : FAT12FS) (l : List Nat) (k : Nat) : Prop where
  dir : ∃ location start attr, Reachable fs location start attr ∧ attr &&& DIRECTORY ≠ 0 ∧ Linked fs start l
  lt : k < l.length * slotCount fs
  raw : Raw (dirEntry fs l) k

/-- A volume whose clusters in use are each of one entry of the tree, and whose inodes in use are of entries. -/
structure WellFormed (vol : FatVolume) : Prop where
  mounted : Mounted vol.fs
  coherent : Coherent vol.fs
  accepted : vol.fs.bpb.accepted = true
  chains : ∀ location start attr, Reachable vol.fs location start attr → ∃ l, Linked vol.fs start l
  apart : ∀ location location' c, OwnedAt vol.fs location c → OwnedAt vol.fs location' c → location = location'
  covered : ∀ c, 2 ≤ c → c < vol.fs.clusterCount → vol.fs.fatTable c ≠ 0 → ∃ location, OwnedAt vol.fs location c
  labels : ∀ l k, Standing vol.fs l k → IsLabel (dirEntry vol.fs l k) → u16At (dirEntry vol.fs l k) 26 = 0
  dots : ∀ l k, Standing vol.fs l k → IsDots (dirEntry vol.fs l k) → dirEntry vol.fs l k 11 &&& DIRECTORY ≠ 0 ∧
    (u16At (dirEntry vol.fs l k) 26 = 0 ∨
      ∃ location attr, Reachable vol.fs location (u16At (dirEntry vol.fs l k) 26) attr)
  inodes : ∀ place, vol.inodepool.bitmap place = true → (vol.inodepool.inodes place).fat12Fs = vol.fs.this ∧
    Reachable vol.fs (vol.inodepool.inodes place).location (vol.inodepool.inodes place).startCluster
      (vol.inodepool.inodes place).attr

section

variable {vol vol' : FatVolume} {fs fs' : FAT12FS} {name : List Byte} {found : Found} {clusters l : List Nat}
  {location : EntryLocation} {start start' : Nat} {attr attr' : Byte}

/-- What an entry is of is told by where it is. -/
theorem Reachable.data (h : Reachable fs location start attr) :
    if location.isRoot then start = (fs.rootDir location.rootIndex).startCluster ∧
      attr = (fs.rootDir location.rootIndex).attr
    else start = u16At (slot fs location.currentCluster location.entryIndexInCluster) 26 ∧
      attr = slot fs location.currentCluster location.entryIndexInCluster 11 := by
  cases h with
  | root hlt hlive => exact ⟨rfl, rfl⟩
  | child hparent hdir hchain hlive hdots => exact ⟨rfl, rfl⟩

theorem Reachable.unique (h : Reachable fs location start attr) (h' : Reachable fs location start' attr') :
    start' = start ∧ attr' = attr := by
  have hdata := h.data
  have hdata' := h'.data
  split at hdata
  · rename_i hroot
    rw [if_pos hroot] at hdata'
    exact ⟨hdata'.1.trans hdata.1.symm, hdata'.2.trans hdata.2.symm⟩
  · rename_i hslot
    rw [if_neg hslot] at hdata'
    exact ⟨hdata'.1.trans hdata.1.symm, hdata'.2.trans hdata.2.symm⟩

theorem Linked.unique {l' : List Nat} (h : Linked fs start l) (h' : Linked fs start l') : l' = l :=
  h'.walk.unique h.walk

theorem mem_liveIn_iff {k : Nat} : k ∈ liveIn fs l ↔
    k < l.length * slotCount fs ∧ Raw (dirEntry fs l) k ∧ ¬IsLabel (dirEntry fs l k) := by
  rw [liveIn, mem_liveSlots_iff]
  constructor
  · rintro ⟨-, hlt, hshort, hkept, hlabel, hbefore⟩
    exact ⟨by omega, ⟨hshort, hkept, fun j hj => hbefore j (Nat.zero_le j) hj⟩, hlabel⟩
  · rintro ⟨hlt, hraw, hlabel⟩
    exact ⟨Nat.zero_le k, by omega, hraw.short, hraw.kept, hlabel, fun j _ hj => hraw.before j hj⟩

/-- The entry that a name is of: where it is, and that nothing but its own clusters, or those of a directory that
it is another name of, begin with its first cluster. -/
structure Target (fs : FAT12FS) (location : EntryLocation) (entry : NormalizedEntry) : Prop where
  place : (∃ idx, location = ⟨true, 0, 0, idx⟩) ∨ ∃ c k, location = ⟨false, c, k, 0⟩ ∧ IsCluster c ∧ k < slotCount fs
  data : ∀ start attr, Reachable fs location start attr → start = entry.startCluster ∧ attr = entry.attr
  owner : entry.startCluster = 0 ∨ ∃ owner attr, Reachable fs owner entry.startCluster attr ∧
    (owner = location ∨ entry.attr &&& DIRECTORY ≠ 0)

theorem lookup_target (h : WellFormed vol) {dir : Option Nat}
    (hdir : ∀ place ∈ dir, vol.inodepool.bitmap place = true ∧ (vol.inodepool.inodes place).attr &&& DIRECTORY ≠ 0)
    (hlookup : vol.lookup dir name = .ret (some found, clusters, vol')) :
    ∃ location, Target vol.fs location found.entry ∧ Took vol vol' found.entry location found := by
  cases dir with
  | none =>
      have hroot : vol.lookupRoot name = (some found, vol') := by
        have hret := Outcome.ret.inj hlookup
        exact Prod.ext (Prod.mk.inj hret).1 (Prod.mk.inj (Prod.mk.inj hret).2).2
      rw [FatVolume.lookupRoot] at hroot
      split at hroot
      · cases hroot
      · rename_i idx hidx
        have hlive := List.find?_some hidx
        have hlt := List.mem_range.mp (List.mem_of_find?_eq_some hidx)
        simp only [Bool.and_eq_true, decide_eq_true_iff] at hlive
        have hfound := congrArg Prod.fst hroot
        have hentry : found.entry = vol.fs.rootDir idx := takeInode_entry hfound
        have hreach := Reachable.root hlt hlive.1
        refine ⟨⟨true, 0, 0, idx⟩, ⟨Or.inl ⟨idx, rfl⟩, ?_, Or.inr ⟨_, (vol.fs.rootDir idx).attr, ?_, Or.inl rfl⟩⟩, ?_⟩
        · intro start attr hother
          rw [hentry]
          exact hreach.unique hother
        · rw [hentry]
          exact hreach
        · rw [hentry]
          have hvol : (vol.takeInode (vol.fs.rootDir idx) ⟨true, 0, 0, idx⟩).2 = vol' := congrArg Prod.snd hroot
          refine ⟨?_, hfound, by rw [← hvol]⟩
          rw [← hvol, takeInode_fs]
          exact Quiet.refl h.coherent
  | some place =>
      obtain ⟨hused, hattr⟩ := hdir place rfl
      obtain ⟨hthis, hreach⟩ := h.inodes place hused
      obtain ⟨l, hchain⟩ := h.chains _ _ _ hreach
      rw [FatVolume.lookup, if_neg (not_not.mpr hthis)] at hlookup
      obtain ⟨k, hk, hraw, hread, htook⟩ := @lookupLoop_found vol vol' name found clusters l [] _ _ _ h.mounted h.coherent
        h.accepted hchain.walk (leads_of_head hchain.walk) hchain.links (by
          intro j hj
          simp at hj) hlookup
      rw [List.nil_append] at hk hraw hread htook
      have hentry : found.entry = normalized (dirEntry vol.fs l k) := takeInode_entry htook.found
      have hstanding : Standing vol.fs l k := ⟨⟨_, _, _, hreach, hattr, hchain⟩, hk, hraw⟩
      obtain ⟨-, hpos⟩ := slotCount_spec h.mounted h.accepted
      refine ⟨placeOf vol.fs l k, ⟨Or.inr ⟨_, _, rfl, hread, Nat.mod_lt k hpos⟩, ?_, ?_⟩, ?_⟩
      · intro start attr hother
        rw [hentry]
        exact hother.data
      · rw [hentry]
        show u16At (dirEntry vol.fs l k) 26 = 0 ∨ _
        by_cases hlabel : IsLabel (dirEntry vol.fs l k)
        · exact Or.inl (h.labels l k hstanding hlabel)
        · by_cases hdots : IsDots (dirEntry vol.fs l k)
          · obtain ⟨hdirectory, hstart⟩ := h.dots l k hstanding hdots
            rcases hstart with hzero | ⟨owner, attr, howner⟩
            · exact Or.inl hzero
            · exact Or.inr ⟨owner, attr, howner, Or.inr hdirectory⟩
          · exact Or.inr ⟨_, _, .child hreach hattr hchain (mem_liveIn_iff.mpr ⟨hk, hraw, hlabel⟩) hdots, Or.inl rfl⟩
      · rw [hentry]
        exact htook

/-! ### What `remove` does -/

/-- The inode taken for an entry. -/
theorem Took.node {entry : NormalizedEntry} (h : Took vol vol' entry location found)
    (hthis : ∀ place, vol.inodepool.bitmap place = true → (vol.inodepool.inodes place).fat12Fs = vol.fs.this) :
    (vol'.inodepool.inodes found.place).location = location ∧
      (vol'.inodepool.inodes found.place).startCluster = entry.startCluster ∧
      (vol'.inodepool.inodes found.place).fat12Fs = vol.fs.this ∧
      ∀ place, place ≠ found.place → vol'.inodepool.bitmap place = vol.inodepool.bitmap place ∧
        vol'.inodepool.inodes place = vol.inodepool.inodes place := by
  have hfound := h.found
  rw [h.pool]
  rcases takeInode_cases vol entry location with ⟨i, hused, hstart, heq⟩ | heq | ⟨i, -, heq⟩
  · rw [heq] at hfound ⊢
    obtain rfl := Option.some.inj hfound
    refine ⟨by simp, by simpa using hstart, by simpa using hthis i hused, ?_⟩
    intro place hne
    simp [Function.update_of_ne hne]
  · rw [heq] at hfound
    cases hfound
  · rw [heq] at hfound ⊢
    obtain rfl := Option.some.inj hfound
    refine ⟨by simp, by simp, by simp, ?_⟩
    intro place hne
    simp [Function.update_of_ne hne]

/-- The entry at a location is marked as deleted, and no other. -/
structure Deleted (fs fs' : FAT12FS) (location : EntryLocation) : Prop where
  same : SameVolume fs fs'
  fatTable : fs'.fatTable = fs.fatTable
  rootDir : ∀ idx, location ≠ ⟨true, 0, 0, idx⟩ → fs'.rootDir idx = fs.rootDir idx
  slots : ∀ c k, 2 ≤ c → k < slotCount fs → location ≠ ⟨false, c, k, 0⟩ →
    ∀ off, off < FAT12_ENTRY_BYTES → slot fs' c k off = slot fs c k off
  mark : ∀ c k, 2 ≤ c → k < slotCount fs → location = ⟨false, c, k, 0⟩ → slot fs' c k 0 = 0xE5

theorem deleteDirEntry_root {idx : Nat} (h : fs.deleteDirEntry ⟨true, 0, 0, idx⟩ = .ret (true, fs')) :
    Deleted fs fs' ⟨true, 0, 0, idx⟩ := by
  rw [deleteDirEntry, if_pos rfl] at h
  dsimp only at h
  split at h
  · cases h
  · cases h
    refine ⟨⟨rfl, rfl, rfl, rfl, rfl, rfl, rfl⟩, rfl, ?_, fun _ _ _ _ _ _ _ => rfl, ?_⟩
    · intro other hne
      refine Function.update_of_ne ?_ ..
      rintro rfl
      exact hne rfl
    · intro c k _ _ hplace
      cases hplace

theorem deleteDirEntry_slot {c k : Nat} (hm : Mounted fs) (hcoh : Coherent fs) (hc : IsCluster c) (hk : k < slotCount fs)
    (h : fs.deleteDirEntry ⟨false, c, k, 0⟩ = .ret (true, fs')) : Deleted fs fs' ⟨false, c, k, 0⟩ := by
  obtain ⟨i, fs₁, hget, hpin⟩ := getCache_spec hm hcoh hc
  obtain ⟨fs₂, hrel, hstored⟩ := hpin.storeRelease hm hcoh hc.1
    (Function.update (fs₁.cachePool i).buf (k * FAT12_ENTRY_BYTES) 0xE5)
  have hslots : ¬k ≥ fs.clusterSize / FAT12_ENTRY_BYTES := by
    rw [slotCount] at hk
    omega
  have hcluster : ¬(c < 2 ∨ c > 0xFF7) := by
    have := hc.1
    have := hc.2
    omega
  have hcache : CacheOnly fs fs₂ := by
    refine (getCache_cacheOnly hget).trans (CacheOnly.trans ?_ (releaseCache_cacheOnly hrel))
    exact cacheOnly_edited fs₁ i _
  rw [deleteDirEntry, if_neg Bool.false_ne_true, putDirEntry, if_neg hslots, if_neg hcluster, hget] at h
  simp only [Outcome.ret_bind, EntryBuf.write, if_true] at h
  rw [edited] at hrel
  rw [hrel] at h
  cases h
  have hpos : ∀ j off, j < slotCount fs → off < FAT12_ENTRY_BYTES → j * FAT12_ENTRY_BYTES + off < fs.clusterSize := by
    intro j off hj hoff
    have hle := Nat.div_mul_le_self fs.clusterSize FAT12_ENTRY_BYTES
    have hmul := Nat.mul_le_mul_right FAT12_ENTRY_BYTES (Nat.succ_le_of_lt hj)
    rw [slotCount, Nat.succ_mul] at hmul
    omega
  refine ⟨hstored.same, hstored.fatTable, ?_, ?_, ?_⟩
  · intro idx _
    obtain ⟨pool, device, rfl⟩ := hcache.eq
    rfl
  · intro d j hd hj hne off hoff
    have hlt := hpos j off hj hoff
    unfold slot bytesFrom
    rw [hstored.byte d _ hd hlt]
    split
    · rename_i hdc
      have hjk : j ≠ k := by
        rintro rfl
        exact hne (by rw [hdc])
      have hother : j * FAT12_ENTRY_BYTES + off ≠ k * FAT12_ENTRY_BYTES := by
        rw [FAT12_ENTRY_BYTES] at *
        omega
      rw [Function.update_of_ne hother, hpin.buf _ hlt, hdc]
    · rfl
  · intro d j hd hj heq
    obtain ⟨rfl, rfl⟩ : c = d ∧ k = j := by
      injection heq with _ hc hk
      exact ⟨hc, hk⟩
    unfold slot bytesFrom
    have hlt := hpos k 0 hj (by decide)
    rw [hstored.byte c _ hd hlt, if_pos rfl, Nat.add_zero, Function.update_self]

/-- The clusters of a chain are freed. -/
theorem freeLoop_chain {head : Option Nat} {v fuel : Nat} (hwalk : Walk (fatNext fs.fatTable) head l) (hlead : Leads v l)
    (hlinks : ∀ c ∈ l, InChain c) (h : freeLoop fuel fs v = .ret fs') :
    ∃ dirty, fs' = { fs with fatTable := fun c => if c ∈ l then 0 else fs.fatTable c, fatTableDirty := dirty } := by
  induction l generalizing fs head v fuel with
  | nil =>
      cases fuel with
      | zero => cases h
      | succ fuel =>
          have hend : ¬(2 ≤ v ∧ v ≤ 0xFF7) := fun hin => hlead ⟨hin.1, by omega⟩
          rw [freeLoop, if_neg hend] at h
          cases h
          exact ⟨fs'.fatTableDirty, by simp⟩
  | cons c m ih =>
      cases fuel with
      | zero => cases h
      | succ fuel =>
          obtain rfl : v = c := hlead
          have hlink := hlinks v List.mem_cons_self
          have hin : 2 ≤ v ∧ v ≤ 0xFF7 := ⟨hlink.1, Nat.le_of_lt_succ hlink.2⟩
          have hnot := (List.nodup_cons.mp hwalk.nodup).1
          have hrest : Walk (fatNext (Function.update fs.fatTable v 0)) (fatNext fs.fatTable v) m := by
            refine hwalk.2.congr fun d hd => ?_
            rw [fatNext, fatNext, Function.update_of_ne]
            rintro rfl
            exact hnot hd
          rw [freeLoop, if_pos hin] at h
          obtain ⟨dirty, rfl⟩ := @ih { fs.freeCluster v with fatTableDirty := true } _ _ _ hrest
            (leads_of_walk hwalk.2) (fun d hd => hlinks d (List.mem_cons_of_mem v hd)) h
          refine ⟨dirty, ?_⟩
          have htable : (fun d => if d ∈ m then 0 else Function.update fs.fatTable v 0 d) =
              fun d => if d ∈ v :: m then 0 else fs.fatTable d := by
            funext d
            by_cases hdv : d = v
            · subst hdv
              simp
            · simp [hdv]
          show { fs with fatTable := fun d => if d ∈ m then 0 else Function.update fs.fatTable v 0 d, fatTableDirty := dirty } = _
          rw [htable]

/-- The entry at a location is deleted and the clusters `l` are freed. -/
structure Removed (fs fs' : FAT12FS) (location : EntryLocation) (l : List Nat) : Prop where
  same : SameVolume fs fs'
  fatTable : fs'.fatTable = fun c => if c ∈ l then 0 else fs.fatTable c
  rootDir : ∀ idx, location ≠ ⟨true, 0, 0, idx⟩ → fs'.rootDir idx = fs.rootDir idx
  slots : ∀ c k, 2 ≤ c → k < slotCount fs → location ≠ ⟨false, c, k, 0⟩ →
    ∀ off, off < FAT12_ENTRY_BYTES → slot fs' c k off = slot fs c k off
  mark : ∀ c k, 2 ≤ c → k < slotCount fs → location = ⟨false, c, k, 0⟩ → slot fs' c k 0 = 0xE5

/-- `remove` that returns true has removed what `lookup` finds. -/
theorem remove_spec (h : WellFormed vol) {dir : Option Nat}
    (hdir : ∀ place ∈ dir, vol.inodepool.bitmap place = true ∧ (vol.inodepool.inodes place).attr &&& DIRECTORY ≠ 0)
    (hcall : vol.remove dir name = .ret (true, vol')) :
    ∃ found clusters vol₁ location l, vol.lookup dir name = .ret (some found, clusters, vol₁) ∧
      Target vol.fs location found.entry ∧ Linked vol.fs found.entry.startCluster l ∧
      Removed vol.fs vol'.fs location l ∧ ∀ place, vol'.inodepool.bitmap place = true →
        vol.inodepool.bitmap place = true ∧ vol'.inodepool.inodes place = vol.inodepool.inodes place := by
  obtain ⟨⟨file, clusters, vol₁⟩, hlookup, hcall⟩ := Outcome.bind_eq_ret hcall
  cases file with
  | none => cases hcall
  | some found =>
      obtain ⟨location, htarget, htook⟩ := lookup_target h hdir hlookup
      obtain ⟨hlocation, hstart, hthis, hothers⟩ := htook.node fun place hused => (h.inodes place hused).1
      dsimp only at hcall
      split at hcall
      · cases hcall
      · rename_i hcount
        obtain ⟨⟨deleted, fs₂⟩, hdelete, hcall⟩ := Outcome.bind_eq_ret hcall
        cases deleted with
        | false => cases hcall
        | true =>
            obtain ⟨fs₃, hfree, hcall⟩ := Outcome.bind_eq_ret hcall
            have hquiet := htook.quiet
            have hm₁ := h.mounted.congr hquiet.same
            have hsize : slotCount vol₁.fs = slotCount vol.fs := by rw [slotCount, slotCount, hquiet.same.clusterSize]
            rw [hlocation] at hdelete
            have hdeleted : Deleted vol₁.fs fs₂ location := by
              rcases htarget.place with ⟨idx, rfl⟩ | ⟨c, k, rfl, hc, hk⟩
              · exact deleteDirEntry_root hdelete
              · exact deleteDirEntry_slot hm₁ hquiet.coherent hc (by rw [hsize]; exact hk) hdelete
            obtain ⟨l, hchain⟩ : ∃ l, Linked vol.fs found.entry.startCluster l := by
              rcases htarget.owner with hzero | ⟨owner, attr, howner, -⟩
              · rw [hzero]
                exact ⟨[], rfl, fun _ hc => absurd hc List.not_mem_nil⟩
              · exact h.chains _ _ _ howner
            have htable : fs₂.fatTable = vol.fs.fatTable := hdeleted.fatTable.trans hquiet.fatTable
            have hwalk := hchain.walk
            rw [hstart] at hfree
            rw [← htable] at hwalk
            obtain ⟨dirty, rfl⟩ := freeLoop_chain hwalk (leads_of_head hchain.walk) hchain.links hfree
            have hsame := hquiet.same.trans hdeleted.same
            have hslot : slot vol₁.fs = slot vol.fs := slot_congr hquiet.byte
            have hremoved : Removed vol.fs { fs₂ with
                fatTable := fun c => if c ∈ l then 0 else fs₂.fatTable c, fatTableDirty := dirty } location l := by
              refine ⟨hsame.trans ⟨rfl, rfl, rfl, rfl, rfl, rfl, rfl⟩, ?_, ?_, ?_, ?_⟩
              · dsimp only
                rw [htable]
              · intro idx hne
                exact (hdeleted.rootDir idx hne).trans (congrFun hquiet.rootDir idx)
              · intro c k hc hk hne off hoff
                rw [← hsize] at hk
                rw [← hslot]
                exact hdeleted.slots c k hc hk hne off hoff
              · intro c k hc hk heq
                rw [← hsize] at hk
                exact hdeleted.mark c k hc hk heq
            have hvol := (Prod.mk.inj (Outcome.ret.inj hcall)).2
            refine ⟨found, clusters, vol₁, location, l, hlookup, htarget, hchain, ?_, ?_⟩
            · rw [← hvol, FatVolume.releaseInode_fs]
              exact hremoved
            · intro place hused
              have hin : (vol₁.inodepool.inodes found.place).fat12Fs = fs₂.this := hthis.trans hsame.this.symm
              have hone : vol₁.inodepool.refcount found.place = 1 := not_not.mp hcount
              rw [← hvol, FatVolume.releaseInode, if_pos hin] at hused ⊢
              dsimp only at hused ⊢
              rw [hone, if_pos rfl] at hused
              have hne : place ≠ found.place := by
                rintro rfl
                rw [Function.update_self] at hused
                cases hused
              rw [Function.update_of_ne hne] at hused
              obtain ⟨hbitmap, hinode⟩ := hothers place hne
              exact ⟨hbitmap ▸ hused, hinode⟩

/-! ### What stays -/

/-- An entry elsewhere stays as it is. -/
theorem Removed.entry {f : List Nat} (h : Removed fs fs' location f) (hpos : 0 < slotCount fs)
    (hlinks : ∀ c ∈ l, InChain c) {k : Nat} (hk : k < l.length * slotCount fs) :
    (placeOf fs l k ≠ location → ∀ off, off < FAT12_ENTRY_BYTES → dirEntry fs' l k off = dirEntry fs l k off) ∧
      (placeOf fs l k = location → dirEntry fs' l k 0 = 0xE5) := by
  have hsize : slotCount fs' = slotCount fs := by rw [slotCount, slotCount, h.same.clusterSize]
  have hdiv : k / slotCount fs < l.length := (Nat.div_lt_iff_lt_mul hpos).mpr hk
  have hcluster : 2 ≤ l.getD (k / slotCount fs) 0 := by
    rw [List.getD_eq_getElem _ _ hdiv]
    exact (hlinks _ (List.getElem_mem hdiv)).1
  unfold dirEntry
  rw [hsize]
  exact ⟨fun hne off hoff => h.slots _ _ hcluster (Nat.mod_lt k hpos) (fun heq => hne heq.symm) off hoff,
    fun heq => h.mark _ _ hcluster (Nat.mod_lt k hpos) heq.symm⟩

theorem Removed.live {f : List Nat} (h : Removed fs fs' location f) (hpos : 0 < slotCount fs)
    (hlinks : ∀ c ∈ l, InChain c) {k : Nat} (hlive : k ∈ liveIn fs l) (hne : placeOf fs l k ≠ location) :
    k ∈ liveIn fs' l := by
  have hsize : slotCount fs' = slotCount fs := by rw [slotCount, slotCount, h.same.clusterSize]
  obtain ⟨hlt, hraw, hlabel⟩ := mem_liveIn_iff.mp hlive
  have hbyte := (h.entry hpos hlinks hlt).1 hne
  refine mem_liveIn_iff.mpr ⟨by rw [hsize]; exact hlt, ⟨?_, ?_, ?_⟩, ?_⟩
  · unfold IsLfn
    rw [hbyte 11 (by decide)]
    exact hraw.short
  · rw [hbyte 0 (by decide)]
    exact hraw.kept
  · intro j hj hshort
    obtain ⟨hsame, hmark⟩ := @Removed.entry fs fs' l location f h hpos hlinks j (by omega)
    by_cases heq : placeOf fs l j = location
    · rw [hmark heq]
      decide
    · unfold IsLfn at hshort
      rw [hsame heq 11 (by decide)] at hshort
      rw [hsame heq 0 (by decide)]
      exact hraw.before j hj hshort
  · unfold IsLabel
    rw [hbyte 11 (by decide)]
    exact hlabel

theorem Removed.chain {f : List Nat} (h : Removed fs fs' location f) (hchain : Linked fs start l)
    (hapart : ∀ c ∈ l, c ∉ f) : Linked fs' start l := by
  refine ⟨hchain.walk.congr ?_, hchain.links⟩
  intro c hc
  rw [fatNext, fatNext, h.fatTable]
  dsimp only
  rw [if_neg (hapart c hc)]

/-- The directories on the way to an entry keep their clusters, so that it can be reached as before. -/
theorem Removed.reachable {f : List Nat} (h : Removed fs fs' location f) (hpos : 0 < slotCount fs)
    (hparents : ∀ parent start attr m k, Reachable fs parent start attr → attr &&& DIRECTORY ≠ 0 → Linked fs start m →
      k ∈ liveIn fs m → ¬IsDots (dirEntry fs m k) → parent ≠ location ∧ ∀ c ∈ m, c ∉ f)
    {place : EntryLocation} (hreach : Reachable fs place start attr) (hne : place ≠ location) :
    Reachable fs' place start attr := by
  induction hreach with
  | root hlt hlive =>
      have hentry := h.rootDir _ (Ne.symm hne)
      rw [← hentry] at hlive ⊢
      exact .root (by rw [h.same.rootEntries]; exact hlt) hlive
  | @child parent start attr m k hparent hdir hchain hlive hdots ih =>
      obtain ⟨hother, hapart⟩ := hparents _ _ _ _ _ hparent hdir hchain hlive hdots
      have hsize : slotCount fs' = slotCount fs := by rw [slotCount, slotCount, h.same.clusterSize]
      have hbyte := (h.entry hpos hchain.links (mem_liveIn_iff.mp hlive).1).1 hne
      have hdots' : ¬IsDots (dirEntry fs' m k) := by
        unfold IsDots at hdots ⊢
        rw [bytesAt_congr hbyte (by decide : 0 + 11 ≤ FAT12_ENTRY_BYTES)]
        exact hdots
      have hchild := Reachable.child (ih hother) hdir (h.chain hchain hapart) (h.live hpos hchain.links hlive hne) hdots'
      rw [u16At, hbyte 26 (by decide), hbyte (26 + 1) (by decide), hbyte 11 (by decide), placeOf, hsize] at hchild
      exact hchild

/-- The name is of a directory with live entries other than `.` and `..`. -/
def NamesFull (vol : FatVolume) (dir : Option Nat) (name : List Byte) : Prop :=
  ∃ found clusters vol₁ l, vol.lookup dir name = .ret (some found, clusters, vol₁) ∧
    found.entry.attr &&& DIRECTORY ≠ 0 ∧ Linked vol.fs found.entry.startCluster l ∧ ¬HoldsNothing vol.fs l

/-- What `remove` owes when it returns true: every cluster still in use is one of an entry of the tree, no inode in use
has its entry in a cluster that has been freed, and it was no directory with entries. -/
structure RemovesCleanly (vol vol' : FatVolume) (dir : Option Nat) (name : List Byte) : Prop where
  reachable : ∀ c, 2 ≤ c → c < vol'.fs.clusterCount → vol'.fs.fatTable c ≠ 0 → ∃ location, OwnedAt vol'.fs location c
  inodes : ∀ place, vol'.inodepool.bitmap place = true → (vol'.inodepool.inodes place).location.isRoot = false →
    vol.fs.fatTable (vol'.inodepool.inodes place).location.currentCluster ≠ 0 →
      vol'.fs.fatTable (vol'.inodepool.inodes place).location.currentCluster ≠ 0
  full : ¬NamesFull vol dir name

/-- On a well-formed volume, a `remove` that returns true leaves no cluster without an entry and no inode with its
entry in a freed cluster, if and only if the name is not of a directory with live entries. -/
theorem removesCleanly_iff (h : WellFormed vol) {dir : Option Nat}
    (hdir : ∀ place ∈ dir, vol.inodepool.bitmap place = true ∧ (vol.inodepool.inodes place).attr &&& DIRECTORY ≠ 0)
    (hcall : vol.remove dir name = .ret (true, vol')) : RemovesCleanly vol vol' dir name ↔ ¬NamesFull vol dir name := by
  refine ⟨RemovesCleanly.full, fun hfull => ?_⟩
  obtain ⟨found, clusters, vol₁, location, l, hlookup, htarget, hchain, hremoved, hinodes⟩ := remove_spec h hdir hcall
  obtain ⟨-, hpos⟩ := slotCount_spec h.mounted h.accepted
  -- an entry that has a cluster in common with the one removed is of the same clusters
  have hcommon : ∀ place start attr m c, Reachable vol.fs place start attr → Linked vol.fs start m → c ∈ m → c ∈ l →
      start = found.entry.startCluster ∧ (attr = found.entry.attr ∨ found.entry.attr &&& DIRECTORY ≠ 0) := by
    intro place start attr m c hreach hm hc hcl
    rcases htarget.owner with hzero | ⟨owner, attr', howner, hkind⟩
    · rw [hzero] at hchain
      have hnil : l = [] := hchain.walk.unique (Walk.nil_iff.mpr rfl)
      rw [hnil] at hcl
      cases hcl
    · obtain rfl := h.apart place owner c ⟨start, attr, m, hreach, hm, hc⟩ ⟨_, attr', l, howner, hchain, hcl⟩
      obtain ⟨hstart, hattr⟩ := hreach.unique howner
      refine ⟨hstart.symm, hkind.imp_left ?_⟩
      rintro rfl
      exact (htarget.data _ _ hreach).2
  have hparents : ∀ parent start attr m k, Reachable vol.fs parent start attr → attr &&& DIRECTORY ≠ 0 →
      Linked vol.fs start m → k ∈ liveIn vol.fs m → ¬IsDots (dirEntry vol.fs m k) →
        parent ≠ location ∧ ∀ c ∈ m, c ∉ l := by
    intro parent start attr m k hreach hattr hm hlive hdots
    have hother : start = found.entry.startCluster → ¬found.entry.attr &&& DIRECTORY ≠ 0 := by
      intro hstart hdirectory
      rw [hstart] at hm
      exact hfull ⟨found, clusters, vol₁, m, hlookup, hdirectory, hm, fun hnothing => hdots (hnothing k hlive)⟩
    constructor
    · rintro rfl
      obtain ⟨hstart, hsame⟩ := htarget.data _ _ hreach
      exact hother hstart (hsame ▸ hattr)
    · intro c hc hcl
      obtain ⟨hstart, hkind⟩ := hcommon _ _ _ _ _ hreach hm hc hcl
      exact hother hstart (hkind.elim (fun hsame => hsame ▸ hattr) id)
  -- an entry is in a cluster of its directory, which is not freed
  have hkept : ∀ entry start attr, Reachable vol.fs entry start attr → entry.isRoot = false → entry.currentCluster ∉ l := by
    intro entry start attr hreach hslot
    cases hreach with
    | root hlt hlive => cases hslot
    | @child parent start attr m k hparent hattr hm hlive hdots =>
        have hdiv : k / slotCount vol.fs < m.length := (Nat.div_lt_iff_lt_mul hpos).mpr (mem_liveIn_iff.mp hlive).1
        have hmem : (placeOf vol.fs m k).currentCluster ∈ m := by
          show m.getD (k / slotCount vol.fs) 0 ∈ m
          rw [List.getD_eq_getElem _ _ hdiv]
          exact List.getElem_mem hdiv
        exact (hparents _ _ _ _ _ hparent hattr hm hlive hdots).2 _ hmem
  refine ⟨?_, ?_, hfull⟩
  · intro c hc hlt hused
    rw [hremoved.same.clusterCount] at hlt
    rw [hremoved.fatTable] at hused
    dsimp only at hused
    have hcl : c ∉ l := by
      intro hmem
      rw [if_pos hmem] at hused
      exact hused rfl
    rw [if_neg hcl] at hused
    obtain ⟨place, start, attr, m, hreach, hm, hcm⟩ := h.covered c hc hlt hused
    have hstart : start ≠ found.entry.startCluster := by
      rintro rfl
      rw [Linked.unique hchain hm] at hcm
      exact hcl hcm
    have hne : place ≠ location := by
      rintro rfl
      exact hstart (htarget.data _ _ hreach).1
    have hapart : ∀ d ∈ m, d ∉ l := fun d hd hdl => hstart (hcommon _ _ _ _ _ hreach hm hd hdl).1
    exact ⟨place, start, attr, m, hremoved.reachable hpos hparents hreach hne, hremoved.chain hm hapart, hcm⟩
  · intro place hused hslot
    obtain ⟨hbefore, hinode⟩ := hinodes place hused
    obtain ⟨-, hreach⟩ := h.inodes place hbefore
    rw [hinode] at hslot ⊢
    intro hzero
    rw [hremoved.fatTable]
    dsimp only
    rw [if_neg (hkept _ _ _ hreach hslot)]
    exact hzero

end

/-! ### One name in the root directory -/

/-- A volume whose root directory has an entry `d` of cluster 2, with an entry of cluster 3 in it, and whose clusters
up to `last` are in use. -/
def oneName (attr : Byte) (last : Nat) : FatVolume where
  fs :=
    { entryInFile.fs with
      rootDir := fun idx =>
        if idx = 0 then { reset.normalizedEntry with name := bytesOf ['d'], startCluster := 2, attr } else reset.normalizedEntry
      fatTable := fun c => if 2 ≤ c ∧ c ≤ last then 0xFFF else 0
      device :=
        { sector := fun lba off =>
            if lba = 4 then if off = 0 then 0x41 else if off ≤ 11 then 0x20 else if off = 26 then 3 else 0 else 0
          fails := fun _ => false
          requests := 0 } }
  inodepool :=
    { node_count := 8
      bitmap := fun _ => false
      inodes := fun _ => ⟨0, 0, 0, 0, ⟨true, 0, 0, 0⟩⟩
      refcount := fun _ => 0 }

section

variable {attr : Byte} {last : Nat}

theorem oneName_freshlyMounted (attr : Byte) (last : Nat) : FatVolume.FreshlyMounted (oneName attr last) :=
  have h := FatVolume.entryInFile_freshlyMounted
  ⟨fun _ => rfl, h.bpb, rfl, rfl, h.dataStartSector, fun _ _ => ⟨rfl, rfl, rfl⟩, fun _ => rfl⟩

theorem oneName_chain {c : Nat} (hc : 2 ≤ c ∧ c ≤ last) (hlast : last ≤ 3) : Linked (oneName attr last).fs c [c] := by
  have hend : (oneName attr last).fs.fatTable c = 0xFFF := if_pos hc
  refine ⟨⟨if_neg (by omega), ?_⟩, ?_⟩
  · rw [fatNext, hend]
    rfl
  · intro d hd
    rw [List.mem_singleton.mp hd, InChain]
    omega

theorem oneName_root {idx : Nat} (hlive : FatVolume.Compared ((oneName attr last).fs.rootDir idx)) : idx = 0 := by
  by_contra hne
  have hname : ((oneName attr last).fs.rootDir idx).name = [] := by
    show (if idx = 0 then { reset.normalizedEntry with name := bytesOf ['d'], startCluster := 2, attr }
      else reset.normalizedEntry).name = []
    rw [if_neg hne]
    rfl
  exact hlive.1 hname

/-- The only entry of cluster 2. -/
structure OnlyEntry (s : Nat → ByteMap) : Prop where
  plain : ¬IsDots (s 0) ∧ ¬IsLabel (s 0)
  start : u16At (s 0) 26 = 3
  attr : s 0 11 = 0x20
  last : ¬IsLfn (s 1) ∧ s 1 0 = 0

theorem oneName_entries (attr : Byte) (last : Nat) : OnlyEntry (dirEntry (oneName attr last).fs [2]) := by
  have hsame : dirEntry (oneName attr last).fs [2] = dirEntry (oneName 0 0).fs [2] := rfl
  rw [hsame]
  exact ⟨by decide +kernel, by decide +kernel, by decide +kernel, by decide +kernel⟩

theorem oneName_live (attr : Byte) (last : Nat) : liveIn (oneName attr last).fs [2] = [0] := by
  have hsame : liveIn (oneName attr last).fs [2] = liveIn (oneName 0 0).fs [2] := rfl
  rw [hsame]
  decide +kernel

/-- The root entry, and the entry in cluster 2 if that is a directory. -/
theorem oneName_reachable (hlast : 2 ≤ last ∧ last ≤ 3) {location : EntryLocation} {start : Nat} {a : Byte}
    (h : Reachable (oneName attr last).fs location start a) : (location = ⟨true, 0, 0, 0⟩ ∧ start = 2 ∧ a = attr) ∨
      (attr &&& DIRECTORY ≠ 0 ∧ location = ⟨false, 2, 0, 0⟩ ∧ start = 3 ∧ a = 0x20) := by
  induction h with
  | root hlt hlive =>
      obtain rfl := oneName_root hlive
      exact Or.inl ⟨rfl, rfl, rfl⟩
  | @child parent start a l k hparent hdir hchain hlive hdots ih =>
      rcases ih with ⟨-, rfl, rfl⟩ | ⟨-, -, -, rfl⟩
      · obtain rfl : l = [2] := Linked.unique (oneName_chain ⟨le_rfl, hlast.1⟩ hlast.2) hchain
        rw [oneName_live, List.mem_singleton] at hlive
        subst hlive
        have hentry := oneName_entries a last
        have hpos : 0 < slotCount (oneName a last).fs := by
          show 0 < 512 / 32
          decide
        exact Or.inr ⟨hdir, placeOf_first 2 [] hpos, hentry.start, hentry.attr⟩
      · exact absurd (by decide) hdir

theorem oneName_owned (hlast : 2 ≤ last ∧ last ≤ 3) {location : EntryLocation} {c : Nat}
    (h : OwnedAt (oneName attr last).fs location c) (hcount : last = 3 ∨ attr &&& DIRECTORY = 0) :
    (location = ⟨true, 0, 0, 0⟩ ∧ c = 2) ∨ (location = ⟨false, 2, 0, 0⟩ ∧ c = 3) := by
  obtain ⟨start, a, l, hreach, hchain, hc⟩ := h
  rcases oneName_reachable hlast hreach with ⟨rfl, rfl, -⟩ | ⟨hdir, rfl, rfl, -⟩
  · obtain rfl : l = [2] := Linked.unique (oneName_chain ⟨le_rfl, hlast.1⟩ hlast.2) hchain
    exact Or.inl ⟨rfl, List.mem_singleton.mp hc⟩
  · have hthree := hcount.resolve_right hdir
    obtain rfl : l = [3] := Linked.unique (oneName_chain ⟨by omega, by omega⟩ hlast.2) hchain
    exact Or.inr ⟨rfl, List.mem_singleton.mp hc⟩

theorem oneName_wellFormed (h : (attr &&& DIRECTORY = 0 ∧ attr &&& VOLUME_ID = 0 ∧ last = 2) ∨
    (attr &&& DIRECTORY ≠ 0 ∧ attr &&& VOLUME_ID = 0 ∧ last = 3)) : WellFormed (oneName attr last) := by
  have hlast : 2 ≤ last ∧ last ≤ 3 := by
    rcases h with ⟨-, -, rfl⟩ | ⟨-, -, rfl⟩ <;> decide
  have hcount : last = 3 ∨ attr &&& DIRECTORY = 0 := h.elim (fun h => Or.inr h.1) (fun h => Or.inl h.2.2)
  have hlive : FatVolume.Compared ((oneName attr last).fs.rootDir 0) :=
    ⟨by show bytesOf ['d'] ≠ []; decide, by show (bytesOf ['d']).head? ≠ _; decide, h.elim (fun h => h.2.1) (fun h => h.2.1)⟩
  have hroot : Reachable (oneName attr last).fs ⟨true, 0, 0, 0⟩ 2 attr := .root (Nat.zero_lt_succ 15) hlive
  have hmount := oneName_freshlyMounted attr last
  -- no entry of a directory but the first of cluster 2
  have hstanding : ∀ l k, Standing (oneName attr last).fs l k → l = [2] ∧ k = 0 := by
    intro l k hstand
    obtain ⟨location, start, a, hreach, hdir, hchain⟩ := hstand.dir
    rcases oneName_reachable hlast hreach with ⟨-, rfl, -⟩ | ⟨-, -, -, rfl⟩
    · obtain rfl : l = [2] := Linked.unique (oneName_chain ⟨le_rfl, hlast.1⟩ hlast.2) hchain
      refine ⟨rfl, ?_⟩
      by_contra hne
      obtain ⟨hshort, hzero⟩ := (oneName_entries attr last).last
      exact hstand.raw.before 1 (by omega) hshort hzero
    · exact absurd (by decide) hdir
  refine ⟨hmount.mounted (Nat.zero_lt_succ 15), hmount.coherent, hmount.bpb, ?_, ?_, ?_, ?_, ?_, nofun⟩
  · intro location start a hreach
    rcases oneName_reachable hlast hreach with ⟨-, rfl, -⟩ | ⟨hdir, -, rfl, -⟩
    · exact ⟨[2], oneName_chain ⟨le_rfl, hlast.1⟩ hlast.2⟩
    · have hthree := hcount.resolve_right hdir
      exact ⟨[3], oneName_chain ⟨by omega, by omega⟩ hlast.2⟩
  · intro location location' c hc hc'
    rcases oneName_owned hlast hc hcount with ⟨rfl, rfl⟩ | ⟨rfl, rfl⟩
    · rcases oneName_owned hlast hc' hcount with ⟨rfl, -⟩ | ⟨-, hne⟩
      · rfl
      · cases hne
    · rcases oneName_owned hlast hc' hcount with ⟨-, hne⟩ | ⟨rfl, -⟩
      · cases hne
      · rfl
  · intro c hc _ hused
    have hle : c ≤ last := by
      by_contra hgt
      exact hused (if_neg (by omega))
    by_cases htwo : c = 2
    · subst htwo
      exact ⟨_, 2, attr, [2], hroot, oneName_chain ⟨le_rfl, hlast.1⟩ hlast.2, List.mem_singleton_self 2⟩
    · obtain rfl : c = 3 := by omega
      have hdir : attr &&& DIRECTORY ≠ 0 := by
        rcases h with ⟨-, -, rfl⟩ | ⟨hdir, -, -⟩
        · omega
        · exact hdir
      have hentry := oneName_entries attr last
      have hchild := Reachable.child hroot hdir (oneName_chain ⟨le_rfl, hlast.1⟩ hlast.2)
        (by rw [oneName_live]; exact List.mem_singleton_self 0) hentry.plain.1
      rw [hentry.start, hentry.attr] at hchild
      exact ⟨_, 3, _, [3], hchild, oneName_chain ⟨by omega, by omega⟩ hlast.2, List.mem_singleton_self 3⟩
  · intro l k hstand hlabel
    obtain ⟨rfl, rfl⟩ := hstanding l k hstand
    exact absurd hlabel (oneName_entries attr last).plain.2
  · intro l k hstand hdots
    obtain ⟨rfl, rfl⟩ := hstanding l k hstand
    exact absurd hdots (oneName_entries attr last).plain.1

end

/-- What is left of the volume where `d` is removed, if `remove` returns true. -/
def afterRemove (vol : FatVolume) (p : FatVolume → Bool) : Bool :=
  match vol.remove none (bytesOf ['d']) with
  | .ret (true, vol') => p vol'
  | _ => false

theorem afterRemove_ret {vol : FatVolume} {p : FatVolume → Bool} (h : afterRemove vol p = true) :
    ∃ vol', vol.remove none (bytesOf ['d']) = .ret (true, vol') ∧ p vol' = true := by
  rw [afterRemove] at h
  split at h
  · rename_i vol' hcall
    exact ⟨vol', hcall, h⟩
  · cases h

/-- The attributes of what is found. -/
def foundAttr (vol : FatVolume) : Byte :=
  match vol.lookup none (bytesOf ['d']) with
  | .ret (some found, _, _) => found.entry.attr
  | _ => 0

theorem removesCleanly_iff_file : ∃ vol', (oneName 0x20 2).remove none (bytesOf ['d']) = .ret (true, vol') ∧
    RemovesCleanly (oneName 0x20 2) vol' none (bytesOf ['d']) := by
  have hremove : afterRemove (oneName 0x20 2) (fun _ => true) = true := by decide +kernel
  obtain ⟨vol', hcall, -⟩ := afterRemove_ret hremove
  have hwell : WellFormed (oneName 0x20 2) := oneName_wellFormed (Or.inl ⟨by decide, by decide, rfl⟩)
  refine ⟨vol', hcall, (removesCleanly_iff hwell (by rintro place ⟨⟩) hcall).mpr ?_⟩
  rintro ⟨found, clusters, vol₁, l, hlookup, hdir, -⟩
  have hattr : foundAttr (oneName 0x20 2) = 0x20 := by decide +kernel
  rw [foundAttr, hlookup] at hattr
  dsimp only at hattr
  rw [hattr] at hdir
  exact absurd (by decide) hdir

/-- Of a directory with an entry, the cluster of the entry stays in use, with no entry left in the tree. -/
theorem not_removesCleanly_directory : ¬ ∀ (vol vol' : FatVolume) (dir : Option Nat) (name : List Byte), WellFormed vol →
    (∀ place ∈ dir, vol.inodepool.bitmap place = true ∧ (vol.inodepool.inodes place).attr &&& DIRECTORY ≠ 0) →
      vol.remove dir name = .ret (true, vol') → RemovesCleanly vol vol' dir name := by
  intro hall
  have hremove : afterRemove (oneName DIRECTORY 3) (fun vol' => vol'.fs.fatTable 3 ≠ 0 && 3 < vol'.fs.clusterCount &&
      vol'.fs.rootEntries = 16 && (List.range 16).all fun idx => ¬FatVolume.Compared (vol'.fs.rootDir idx)) = true := by
    decide +kernel
  obtain ⟨vol', hcall, hleft⟩ := afterRemove_ret hremove
  simp only [Bool.and_eq_true, decide_eq_true_iff, List.all_eq_true, List.mem_range] at hleft
  obtain ⟨⟨⟨hused, hlt⟩, hentries⟩, hnone⟩ := hleft
  have hempty : ∀ location start attr, ¬Reachable vol'.fs location start attr := by
    intro location start attr hreach
    induction hreach with
    | root hidx hlive => exact hnone _ (hentries ▸ hidx) hlive
    | child hparent hdir hchain hlive hdots ih => exact ih
  have hclean := hall _ vol' none _ (oneName_wellFormed (Or.inr ⟨by decide, by decide, rfl⟩))
    (by rintro place ⟨⟩) hcall
  obtain ⟨location, start, attr, l, hreach, -⟩ := hclean.reachable 3 (by decide) hlt hused
  exact hempty _ _ _ hreach

end SysuOs.Vfs
