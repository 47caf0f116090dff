import SysuOs.FatRoot
import SysuOs.FatWrite
import SysuOs.VfsLookup

/-! `fat12_dir_iter`, and how it compares with `lookup`. The iterator keeps its entry buffer from one cluster
to the next, `lookup` resets it; the iterator passes volume labels over, `lookup` in a directory does not. -/

namespace SysuOs.Vfs

open EntryBuf FAT12FS Root

/-- `fat12_dir_iter`, without the volume and the two counters that nothing reads. -/
structure DirIter where
  dir : Option Fat12Inode
  currentCluster : Nat
  entryIndexInCluster : Nat
  rootIndex : Nat
  current : EntryBuf

namespace DirIter

def init (fs : FAT12FS) (dir : Option Fat12Inode) : Option DirIter :=
  let start := DirIter.mk dir 0 0 0 reset
  match dir with
  | none => some start
  | some node =>
    if node.fat12Fs ≠ fs.this then none
    else if node.attr &&& DIRECTORY = 0 then none
    else some { start with currentCluster := node.startCluster }

/-- The loop of `next` in the root directory, with `n` entries left. -/
def nextRoot (fs : FAT12FS) : Nat → DirIter → Bool × DirIter
  | 0, it => (false, it)
  | n + 1, it =>
    let entry := fs.rootDir it.rootIndex
    let it := { it with rootIndex := it.rootIndex + 1 }
    if entry.name = [] then (false, it)
    else if entry.name.head? = some 0xE5 ∨ entry.attr &&& VOLUME_ID ≠ 0 then nextRoot fs n it
    else (true, { it with current := ⟨entry, .VALID⟩ })

inductive Step where
  | yielded (i : Nat) (current : EntryBuf)
  | endOfDir (i : Nat) (current : EntryBuf)
  | exhausted (current : EntryBuf)

/-- The loop of `next` over the `n` entries of a cluster from the `i`-th on. -/
def scan (buf : ByteMap) : Nat → Nat → EntryBuf → Step
  | 0, _, current => .exhausted current
  | n + 1, i, current =>
    match current.read buf (i * FAT12_ENTRY_BYTES) with
    | (true, current) =>
      if current.status ≠ .VALID then scan buf n (i + 1) current
      else if current.normalizedEntry.attr &&& VOLUME_ID ≠ 0 then scan buf n (i + 1) current
      else .yielded (i + 1) current
    | (false, current) =>
      if current.status = .END_OF_DIR then .endOfDir (i + 1) current else scan buf n (i + 1) current

/-- The loop of `next` over the clusters of a directory. -/
def nextLoop : Nat → FAT12FS → DirIter → SysuOs.Outcome (Bool × DirIter × FAT12FS)
  | 0, _, _ => .diverge
  | fuel + 1, fs, it =>
    if 2 ≤ it.currentCluster ∧ it.currentCluster < 0xFF8 then do
      let (cache, fs) ← fs.getCache it.currentCluster
      match cache with
      | none => return (false, it, fs)
      | some i =>
        let total := fs.clusterSize / FAT12_ENTRY_BYTES % 2 ^ 16
        match scan (fs.cachePool i).buf (total - it.entryIndexInCluster) it.entryIndexInCluster it.current with
        | .yielded k current => do
          let fs ← fs.releaseCache i
          return (true, { it with entryIndexInCluster := k, current }, fs)
        | .endOfDir k current => do
          let fs ← fs.releaseCache i
          return (false, { it with entryIndexInCluster := k, current }, fs)
        | .exhausted current => do
          let fs ← fs.releaseCache i
          nextLoop fuel fs
            { it with currentCluster := fs.fatTable it.currentCluster, entryIndexInCluster := 0, current }
    else return (false, it, fs)

def next (it : DirIter) (fs : FAT12FS) : SysuOs.Outcome (Bool × DirIter × FAT12FS) :=
  match it.dir with
  | none =>
    let (found, it) := nextRoot fs (fs.rootEntries - it.rootIndex) it
    return (found, it, fs)
  | some _ => nextLoop (FAT12_MAX_CLUSTERS + 1) fs it

/-- What `get` returns after each `next` that finds something, until one does not. -/
def listing : Nat → FAT12FS → DirIter → SysuOs.Outcome (List NormalizedEntry × FAT12FS)
  | 0, _, _ => .diverge
  | fuel + 1, fs, it => do
    let (found, it, fs) ← it.next fs
    if found then do
      let (entries, fs) ← listing fuel fs it
      return (it.current.normalizedEntry :: entries, fs)
    else return ([], fs)

end DirIter

/-! ### The entries of a directory -/

/-- Entry `k` of a directory cluster. -/
def slot (fs : FAT12FS) (c k : Nat) : ByteMap := bytesFrom (fs.clusterByte c) (k * FAT12_ENTRY_BYTES)

/-- Whether a long-name part comes last of the `n` entries from the `k`-th on; `none` if the end mark is among
them. -/
def carry (slot : Nat → ByteMap) : Nat → Nat → Bool → Option Bool
  | 0, _, lfn => some lfn
  | n + 1, k, _ =>
    if IsLfn (slot k) then carry slot n (k + 1) true
    else if slot k 0 = 0 then none
    else carry slot n (k + 1) false

/-- An entry of a directory; `hidden` says that it is the first of its cluster, and that a long-name part is the
last entry of the cluster before. -/
structure DirSlot where
  cluster : Nat
  index : Nat
  hidden : Bool

namespace DirSlot

def entry (fs : FAT12FS) (x : DirSlot) : NormalizedEntry := normalized (slot fs x.cluster x.index)

def location (x : DirSlot) : EntryLocation := ⟨false, x.cluster, x.index, 0⟩

/-- The iterator passes the entry over. -/
def Skipped (fs : FAT12FS) (x : DirSlot) : Prop := x.hidden = true ∨ IsLabel (slot fs x.cluster x.index)

instance (fs : FAT12FS) (x : DirSlot) : Decidable (x.Skipped fs) := inferInstanceAs (Decidable (_ ∨ _))

end DirSlot

/-- The number of entries of a cluster. -/
def slotCount (fs : FAT12FS) : Nat := fs.clusterSize / FAT12_ENTRY_BYTES

/-- The short entries of the clusters up to the end mark, behind no long-name part of the same cluster and not
deleted; `lfn` says that a long-name part came last before them. -/
def dirSlots (fs : FAT12FS) : Bool → List Nat → List DirSlot
  | _, [] => []
  | lfn, c :: m =>
    (keptSlots (slot fs c) (slotCount fs) 0 false).map (fun k => ⟨c, k, lfn && k == 0⟩) ++
      match carry (slot fs c) (slotCount fs) 0 false with
      | none => []
      | some lfn => dirSlots fs lfn m

theorem normalized_congr {s s' : ByteMap} (h : ∀ off, off < FAT12_ENTRY_BYTES → s off = s' off) :
    normalized s = normalized s' := by
  have hbytes : ∀ pos n, pos + n ≤ FAT12_ENTRY_BYTES → bytesAt s pos n = bytesAt s' pos n :=
    fun pos n hn => bytesAt_congr h hn
  have hword : ∀ pos, pos + 2 ≤ FAT12_ENTRY_BYTES → u16At s pos = u16At s' pos := by
    intro pos hpos
    rw [u16At, u16At, h pos (by omega), h (pos + 1) (by omega)]
  have hname : entryName s 0 = entryName s' 0 := by
    simp only [entryName, hbytes 0 8 (by decide), hbytes (0 + 8) 3 (by decide), h (0 + 11) (by decide),
      h (0 + 8) (by decide)]
  simp only [normalized, hname, hword 26 (by decide), h 11 (by decide), h 13 (by decide), hword 14 (by decide),
    hword 16 (by decide), hword 18 (by decide), hword 22 (by decide), hword 24 (by decide), u32At,
    hword 28 (by decide), hword (28 + 2) (by decide)]

/-- Reading an entry out of a buffer that holds it. -/
theorem read_at {mem s : ByteMap} {pos : Nat} (b : EntryBuf)
    (h : ∀ off, off < FAT12_ENTRY_BYTES → mem (pos + off) = s off) : b.read mem pos = b.read s 0 := by
  have hmem : b.read mem pos = b.read (bytesFrom mem pos) 0 := by
    simp only [EntryBuf.read, entryName, bytesAt, u16At, u32At, bytesFrom, Nat.zero_add, Nat.add_zero, Nat.add_assoc]
  have hnormal := normalized_congr (s := bytesFrom mem pos) h
  have h11 : bytesFrom mem pos 11 = s 11 := h 11 (by decide)
  have h0 : bytesFrom mem pos 0 = s 0 := h 0 (by decide)
  have hiff : IsLfn (bytesFrom mem pos) ↔ IsLfn s := by
    rw [IsLfn, h11]
    rfl
  rw [hmem, read_slot, read_slot, h0, hnormal]
  by_cases hlfn : IsLfn s
  · rw [if_pos hlfn, if_pos (hiff.mpr hlfn)]
  · rw [if_neg hlfn, if_neg (fun h => hlfn (hiff.mp h))]

theorem le_of_mem_keptSlots {slot : Nat → ByteMap} {n k j : Nat} {lfn : Bool} (h : j ∈ keptSlots slot n k lfn) :
    k ≤ j := by
  induction n generalizing k lfn with
  | zero => exact absurd h List.not_mem_nil
  | succ n ih =>
      rw [keptSlots] at h
      split_ifs at h
      · exact Nat.le_of_succ_le (ih h)
      · exact absurd h List.not_mem_nil
      · exact Nat.le_of_succ_le (ih h)
      · rcases List.mem_cons.mp h with rfl | h
        · exact le_rfl
        · exact Nat.le_of_succ_le (ih h)

/-- Behind a long-name part the first entry is not taken. -/
theorem keptSlots_behind (slot : Nat → ByteMap) (n k : Nat) (lfn : Bool) :
    keptSlots slot n k lfn = (keptSlots slot n k false).filter fun j => !(lfn && j == k) := by
  have hall : ∀ (b : Bool) n, (keptSlots slot n (k + 1) b).filter (fun j => !(lfn && j == k)) =
      keptSlots slot n (k + 1) b := by
    intro b n
    rw [List.filter_eq_self]
    intro j hj
    have hne : j ≠ k := by
      have := le_of_mem_keptSlots hj
      omega
    simp [hne]
  cases n with
  | zero => rfl
  | succ n =>
      rw [keptSlots, keptSlots]
      by_cases hlfn : IsLfn (slot k)
      · rw [if_pos hlfn, if_pos hlfn, hall]
      · rw [if_neg hlfn, if_neg hlfn]
        by_cases hend : slot k 0 = 0
        · rw [if_pos hend, if_pos hend]
          rfl
        · rw [if_neg hend, if_neg hend]
          by_cases hdel : slot k 0 = 0xE5
          · rw [if_pos (Or.inl hdel), if_pos (Or.inl hdel), hall]
          · cases lfn with
            | true =>
                rw [if_pos (Or.inr rfl), if_neg (fun hor => hor.elim hdel Bool.false_ne_true), List.filter_cons_of_neg (by simp), hall]
            | false =>
                rw [if_neg (fun hor => hor.elim hdel Bool.false_ne_true), List.filter_cons_of_pos (by simp), hall]

theorem carry_behind (slot : Nat → ByteMap) (n k : Nat) (lfn lfn' : Bool) :
    carry slot (n + 1) k lfn = carry slot (n + 1) k lfn' := rfl

/-! ### `lookup` -/

/-- The loop of `lookup` over a cluster finds the first entry of the name. -/
theorem scanCluster_spec {buf : ByteMap} {slot : Nat → ByteMap} {name : List Byte} {n k : Nat} {b : EntryBuf}
    (hbuf : ∀ i, k ≤ i → i < k + n → ∀ off, off < FAT12_ENTRY_BYTES → buf (i * FAT12_ENTRY_BYTES + off) = slot i off) :
    match FatVolume.scanCluster buf name n k b with
    | .found i entry => (keptSlots slot n k (b.status = .SKIP_LFN)).find? (fun j => (normalized (slot j)).name = name) =
        some i ∧ entry = normalized (slot i)
    | .endOfDir => (keptSlots slot n k (b.status = .SKIP_LFN)).find?
        (fun j => (normalized (slot j)).name = name) = none ∧ carry slot n k (b.status = .SKIP_LFN) = none
    | .exhausted => (keptSlots slot n k (b.status = .SKIP_LFN)).find?
        (fun j => (normalized (slot j)).name = name) = none ∧
          (carry slot n k (b.status = .SKIP_LFN)).isSome = true := by
  induction n generalizing k b with
  | zero =>
      rw [FatVolume.scanCluster]
      exact ⟨rfl, rfl⟩
  | succ n ih =>
      have hrest : ∀ i, k + 1 ≤ i → i < k + 1 + n → ∀ off, off < FAT12_ENTRY_BYTES →
          buf (i * FAT12_ENTRY_BYTES + off) = slot i off := fun i hi hlt => hbuf i (by omega) (by omega)
      rw [FatVolume.scanCluster, read_at b (hbuf k le_rfl (by omega)), read_slot, keptSlots, carry]
      by_cases hlfn : IsLfn (slot k)
      · simp only [if_pos hlfn]
        rw [if_neg (by decide)]
        exact @ih (k + 1) { b with status := .SKIP_LFN } hrest
      · simp only [if_neg hlfn]
        by_cases hend : slot k 0 = 0
        · simp only [if_pos hend]
          refine ⟨?_, ?_⟩ <;> trivial
        · simp only [if_neg hend]
          by_cases hdel : slot k 0 = 0xE5
          · simp only [hdel, true_or, if_true]
            rw [if_neg (by decide)]
            exact @ih (k + 1) { b with status := .DELETE } hrest
          · simp only [hdel, false_or]
            by_cases hskip : b.status = .SKIP_LFN
            · simp only [hskip, if_true, decide_true]
              rw [if_neg (by decide)]
              exact @ih (k + 1) { b with status := .SKIP_SFN } hrest
            · simp only [hskip, if_false, decide_false, Bool.false_eq_true, List.find?_cons]
              by_cases hname : (normalized (slot k)).name = name
              · simp only [hname, if_true, decide_true]
                exact ⟨trivial, trivial⟩
              · simp only [hname, if_false, decide_false]
                exact @ih (k + 1) ⟨normalized (slot k), .VALID⟩ hrest

/-- The loop of `next` over a cluster comes to the first entry that is no volume label. -/
theorem scan_spec {buf : ByteMap} {slot : Nat → ByteMap} {n k : Nat} {b : EntryBuf}
    (hbuf : ∀ i, k ≤ i → i < k + n → ∀ off, off < FAT12_ENTRY_BYTES → buf (i * FAT12_ENTRY_BYTES + off) = slot i off) :
    match DirIter.scan buf n k b with
    | .yielded i current => ∃ j, i = j + 1 ∧ i ≤ k + n ∧ current = ⟨normalized (slot j), .VALID⟩ ∧
        (keptSlots slot n k (b.status = .SKIP_LFN)).filter (fun j => ¬ IsLabel (slot j)) =
          j :: (keptSlots slot (k + n - i) i false).filter (fun j => ¬ IsLabel (slot j)) ∧
        carry slot n k (b.status = .SKIP_LFN) = carry slot (k + n - i) i false
    | .endOfDir _ _ => (keptSlots slot n k (b.status = .SKIP_LFN)).filter (fun j => ¬ IsLabel (slot j)) = [] ∧
        carry slot n k (b.status = .SKIP_LFN) = none
    | .exhausted current => (keptSlots slot n k (b.status = .SKIP_LFN)).filter (fun j => ¬ IsLabel (slot j)) = [] ∧
        carry slot n k (b.status = .SKIP_LFN) = some (decide (current.status = .SKIP_LFN)) := by
  induction n generalizing k b with
  | zero =>
      rw [DirIter.scan]
      exact ⟨rfl, rfl⟩
  | succ n ih =>
      have hrest : ∀ i, k + 1 ≤ i → i < k + 1 + n → ∀ off, off < FAT12_ENTRY_BYTES →
          buf (i * FAT12_ENTRY_BYTES + off) = slot i off := fun i hi hlt => hbuf i (by omega) (by omega)
      have hsum : k + (n + 1) = k + 1 + n := by omega
      rw [DirIter.scan, read_at b (hbuf k le_rfl (by omega)), read_slot, keptSlots, carry, hsum]
      by_cases hlfn : IsLfn (slot k)
      · simp only [if_pos hlfn]
        rw [if_neg (by decide)]
        exact @ih (k + 1) { b with status := .SKIP_LFN } hrest
      · simp only [if_neg hlfn]
        by_cases hend : slot k 0 = 0
        · simp only [if_pos hend]
          refine ⟨?_, ?_⟩ <;> trivial
        · simp only [if_neg hend]
          by_cases hdel : slot k 0 = 0xE5
          · simp only [hdel, true_or, if_true]
            rw [if_neg (by decide)]
            exact @ih (k + 1) { b with status := .DELETE } hrest
          · simp only [hdel, false_or]
            by_cases hskip : b.status = .SKIP_LFN
            · simp only [hskip, if_true, decide_true]
              rw [if_neg (by decide)]
              exact @ih (k + 1) { b with status := .SKIP_SFN } hrest
            · simp only [hskip, if_false, decide_false, Bool.false_eq_true, ne_eq, not_true_eq_false]
              by_cases hlabel : IsLabel (slot k)
              · have hattr : ¬ (normalized (slot k)).attr &&& VOLUME_ID = 0 := hlabel
                simp only [hattr, not_false_eq_true, if_true, List.filter_cons, hlabel, not_true_eq_false,
                  decide_false, Bool.false_eq_true, if_false]
                exact @ih (k + 1) ⟨normalized (slot k), .VALID⟩ hrest
              · have hattr : (normalized (slot k)).attr &&& VOLUME_ID = 0 := not_not.mp hlabel
                simp only [hattr, not_true_eq_false, if_false, List.filter_cons, hlabel, not_false_eq_true,
                  decide_true, if_true]
                refine ⟨k, rfl, by omega, rfl, ?_, ?_⟩
                · rw [Nat.add_sub_cancel_left]
                · rw [Nat.add_sub_cancel_left]

/-! ### The clusters of a directory -/

/-- The loops over the clusters of a directory come to the first of `m` at the cluster `v`. -/
def Leads (v : Nat) : List Nat → Prop
  | [] => ¬ (2 ≤ v ∧ v < 0xFF8)
  | c :: _ => v = c

theorem leads_of_walk {table : Nat → Nat} {v : Nat} {m : List Nat} (h : Walk (fatNext table) (follow v) m) :
    Leads v m := by
  rw [follow] at h
  cases m with
  | nil =>
      rw [Walk.nil_iff] at h
      split at h
      · intro hin
        omega
      · cases h
  | cons c m =>
      obtain ⟨hhead, -⟩ := h
      split at hhead
      · cases hhead
      · exact Option.some.inj hhead

theorem leads_of_head {table : Nat → Nat} {start : Nat} {l : List Nat} (h : Walk (fatNext table) (chainHead start) l) :
    Leads start l := by
  rw [chainHead] at h
  split at h
  · rename_i hzero
    cases l with
    | nil =>
        rw [hzero]
        exact fun hin => absurd hin.1 (by decide)
    | cons c m => cases h.1
  · cases l with
    | nil => exact absurd (Walk.nil_iff.mp h) (Option.some_ne_none _)
    | cons c m => exact Option.some.inj h.1

/-- The clusters in front of the first that `get_cache` refuses. -/
def readable (l : List Nat) : List Nat := l.takeWhile (· < 0xFF0)

theorem readable_cons {c : Nat} (hc : IsCluster c) (m : List Nat) : readable (c :: m) = c :: readable m :=
  List.takeWhile_cons_of_pos (decide_eq_true hc.2)

theorem readable_refused {c : Nat} (hin : InChain c) (hc : ¬IsCluster c) (m : List Nat) : readable (c :: m) = [] :=
  List.takeWhile_cons_of_neg fun hlt => hc ⟨hin.1, of_decide_eq_true hlt⟩

theorem readable_length_le (l : List Nat) : (readable l).length ≤ l.length :=
  (List.takeWhile_prefix _).length_le

theorem slot_congr {fs fs' : FAT12FS} (hbyte : fs'.clusterByte = fs.clusterByte) : slot fs' = slot fs := by
  funext c k
  rw [slot, slot, hbyte]

theorem dirSlots_congr {fs fs' : FAT12FS} (hbyte : fs'.clusterByte = fs.clusterByte)
    (hsize : fs'.clusterSize = fs.clusterSize) (lfn : Bool) (m : List Nat) :
    dirSlots fs' lfn m = dirSlots fs lfn m := by
  induction m generalizing lfn with
  | nil => rfl
  | cons c m ih =>
      have hcount : slotCount fs' = slotCount fs := by rw [slotCount, slotCount, hsize]
      rw [dirSlots, dirSlots, slot_congr hbyte, hcount]
      simp only [ih]

theorem entry_congr {fs fs' : FAT12FS} (hbyte : fs'.clusterByte = fs.clusterByte) (x : DirSlot) :
    x.entry fs' = x.entry fs := by
  rw [DirSlot.entry, DirSlot.entry, slot_congr hbyte]

/-- A buffer that shows a cluster holds its entries. -/
theorem buffer_slots {fs : FAT12FS} {buf : ByteMap} {c : Nat}
    (h : ∀ k, k < fs.clusterSize → buf k = fs.clusterByte c k) {i : Nat} (hi : i < slotCount fs) {off : Nat}
    (hoff : off < FAT12_ENTRY_BYTES) : buf (i * FAT12_ENTRY_BYTES + off) = slot fs c i off := by
  rw [slot, bytesFrom]
  apply h
  rw [slotCount] at hi
  have hle := Nat.div_mul_le_self fs.clusterSize FAT12_ENTRY_BYTES
  have hmul := Nat.mul_le_mul_right FAT12_ENTRY_BYTES (Nat.succ_le_of_lt hi)
  rw [Nat.succ_mul] at hmul
  omega

/-- The count of entries fits its 16 bits, and a cluster has entries. -/
theorem slotCount_spec {fs : FAT12FS} (hm : Mounted fs) (haccepted : fs.bpb.accepted = true) :
    fs.clusterSize / FAT12_ENTRY_BYTES % 2 ^ 16 = slotCount fs ∧ 0 < slotCount fs := by
  have hspc := Fat12BPB.sectorsPerCluster_le haccepted
  have hpos := hm.sectorsPerCluster
  rw [slotCount, hm.clusterSize]
  simp only [FAT12_ENTRY_BYTES]
  omega

section

variable {vol : FatVolume} {name : List Byte}

theorem takeInode_fs (vol : FatVolume) (entry : NormalizedEntry) (location : EntryLocation) :
    (vol.takeInode entry location).2.fs = vol.fs := by
  rcases takeInode_cases vol entry location with ⟨i, -, -, heq⟩ | heq | ⟨i, -, heq⟩ <;> rw [heq]

theorem takeInode_congr (vol : FatVolume) (fs : FAT12FS) (entry : NormalizedEntry) (location : EntryLocation) :
    ({ vol with fs }.takeInode entry location).1 = (vol.takeInode entry location).1 := by
  rw [FatVolume.takeInode, FatVolume.takeInode]
  dsimp only
  split
  · rfl
  · split
    · rfl
    · rfl

theorem takeInode_entry {entry : NormalizedEntry} {location : EntryLocation} {found : Found}
    (h : (vol.takeInode entry location).1 = some found) : found.entry = entry := by
  rcases takeInode_cases vol entry location with ⟨i, -, -, heq⟩ | heq | ⟨i, -, heq⟩
  · rw [heq] at h
    rw [← Option.some.inj h]
  · rw [heq] at h
    cases h
  · rw [heq] at h
    rw [← Option.some.inj h]

/-- `lookup` finds the first short entry of the name, up to a cluster that `get_cache` refuses. -/
theorem lookupLoop_entries {m : List Nat} {head : Option Nat} {v fuel : Nat} (lfn : Bool) (hm : Mounted vol.fs)
    (hcoh : Coherent vol.fs) (haccepted : vol.fs.bpb.accepted = true)
    (hwalk : Walk (fatNext vol.fs.fatTable) head m) (hlead : Leads v m) (hlinks : ∀ c ∈ m, InChain c)
    (hfuel : m.length < fuel) :
    ∃ clusters vol', FatVolume.lookupLoop name fuel v vol =
      .ret (((dirSlots vol.fs lfn (readable m)).find? fun x => (x.entry vol.fs).name = name).bind
        fun x => (vol.takeInode (x.entry vol.fs) x.location).1, clusters, vol') := by
  induction m generalizing vol head v fuel lfn with
  | nil =>
      obtain ⟨fuel, rfl⟩ : ∃ n, fuel = n + 1 := ⟨fuel - 1, by omega⟩
      have hend : ¬ (2 ≤ v ∧ v ≤ 0xFF7) := fun hin => hlead ⟨hin.1, by omega⟩
      exact ⟨[], vol, by rw [FatVolume.lookupLoop, if_neg hend]; rfl⟩
  | cons c m ih =>
      obtain ⟨fuel, rfl⟩ : ∃ n, fuel = n + 1 := ⟨fuel - 1, by omega⟩
      obtain ⟨-, htail⟩ := hwalk
      obtain rfl : v = c := hlead
      have hlink : InChain v := hlinks v List.mem_cons_self
      have hin : 2 ≤ v ∧ v ≤ 0xFF7 := ⟨hlink.1, Nat.le_of_lt_succ hlink.2⟩
      by_cases hc : IsCluster v
      case neg =>
        rw [FatVolume.lookupLoop, if_pos hin, getCache_refused hc, readable_refused hlink hc]
        exact ⟨[], _, rfl⟩
      rw [readable_cons hc]
      obtain ⟨i, fs₁, fs₂, hget, hrel, hbuf, hsame₁, -, hcoh₂, hsame₂, htable₂, hsector₂⟩ :=
        readCache_spec hm hcoh hc
      have hbyte := clusterByte_congr hsame₂ hsector₂
      obtain ⟨hcount, -⟩ := slotCount_spec hm haccepted
      rw [FatVolume.lookupLoop, if_pos hin, hget]
      simp only [Outcome.ret_bind, hsame₁.clusterSize, hcount]
      have hscan := @scanCluster_spec (fs₁.cachePool i).buf (slot vol.fs v) name (slotCount vol.fs) 0 reset
        (fun k _ hk off hoff => buffer_slots hbuf (by omega) hoff)
      have hstatus : decide (reset.status = .SKIP_LFN) = false := rfl
      rw [hstatus] at hscan
      -- the entries of this cluster, as slots of the directory
      have hfind : ((keptSlots (slot vol.fs v) (slotCount vol.fs) 0 false).map fun k =>
            DirSlot.mk v k (lfn && k == 0)).find? (fun x => (x.entry vol.fs).name = name) =
          ((keptSlots (slot vol.fs v) (slotCount vol.fs) 0 false).find?
            fun k => (normalized (slot vol.fs v k)).name = name).map fun k => DirSlot.mk v k (lfn && k == 0) := by
        rw [List.find?_map]
        rfl
      rw [dirSlots, List.find?_append, hfind]
      cases hcase : FatVolume.scanCluster (fs₁.cachePool i).buf name (slotCount vol.fs) 0 reset with
      | found k entry =>
          rw [hcase] at hscan
          obtain ⟨hfirst, rfl⟩ := hscan
          dsimp only
          rw [hfirst]
          refine ⟨[v], ?_⟩
          rw [takeInode_fs]
          simp only [hrel, Outcome.ret_bind, Outcome.pure_eq, takeInode_congr]
          exact ⟨_, rfl⟩
      | endOfDir =>
          rw [hcase] at hscan
          obtain ⟨hfirst, hcarry⟩ := hscan
          simp only [hfirst, hcarry, hrel, Outcome.ret_bind]
          exact ⟨_, _, rfl⟩
      | exhausted =>
          rw [hcase] at hscan
          obtain ⟨hfirst, hcarry⟩ := hscan
          obtain ⟨b, hb⟩ := Option.isSome_iff_exists.mp hcarry
          obtain ⟨clusters, vol', hrun⟩ := @ih { vol with fs := fs₂ } (fatNext fs₂.fatTable v) (fs₂.fatTable v) fuel b
            (hm.congr hsame₂) hcoh₂ (by rw [hsame₂.bpb]; exact haccepted) (by rw [htable₂]; exact htail)
            (@leads_of_walk vol.fs.fatTable _ _ (by rw [htable₂]; exact htail))
            (fun d hd => hlinks d (List.mem_cons_of_mem v hd)) (by rw [List.length_cons] at hfuel; omega)
          simp only [dirSlots_congr hbyte hsame₂.clusterSize, entry_congr hbyte, takeInode_congr] at hrun
          simp only [hfirst, hb, hrel, hrun, Outcome.ret_bind]
          exact ⟨_, _, rfl⟩

end

/-! ### The iterator -/

/-- What an iterator that stands before entry `k` of the first of the clusters is still to yield. -/
def remaining (fs : FAT12FS) : Bool → Nat → List Nat → List NormalizedEntry
  | _, _, [] => []
  | lfn, k, c :: m =>
    ((keptSlots (slot fs c) (slotCount fs - k) k lfn).filter fun j => ¬ IsLabel (slot fs c j)).map
        (fun j => normalized (slot fs c j)) ++
      match carry (slot fs c) (slotCount fs - k) k lfn with
      | none => []
      | some lfn => remaining fs lfn 0 m

theorem remaining_congr {fs fs' : FAT12FS} (hbyte : fs'.clusterByte = fs.clusterByte)
    (hsize : fs'.clusterSize = fs.clusterSize) (lfn : Bool) (k : Nat) (m : List Nat) :
    remaining fs' lfn k m = remaining fs lfn k m := by
  induction m generalizing lfn k with
  | nil => rfl
  | cons c m ih =>
      have hcount : slotCount fs' = slotCount fs := by rw [slotCount, slotCount, hsize]
      rw [remaining, remaining, slot_congr hbyte, hcount]
      simp only [ih]

/-- From the start on it yields the entries that it does not pass over. -/
theorem remaining_eq {fs : FAT12FS} (hpos : 0 < slotCount fs) (lfn : Bool) (m : List Nat) :
    remaining fs lfn 0 m =
      ((dirSlots fs lfn m).filter fun x => ¬ x.Skipped fs).map fun x => x.entry fs := by
  induction m generalizing lfn with
  | nil => rfl
  | cons c m ih =>
      obtain ⟨n, hn⟩ : ∃ n, slotCount fs = n + 1 := ⟨slotCount fs - 1, by omega⟩
      rw [remaining, dirSlots, Nat.sub_zero, List.filter_append, List.map_append]
      congr 1
      · rw [keptSlots_behind, List.filter_filter, List.filter_map, List.map_map]
        congr 1
        apply List.filter_congr
        intro j _
        simp only [Function.comp_apply, DirSlot.Skipped]
        by_cases hlabel : IsLabel (slot fs c j)
        · simp [hlabel]
        · by_cases hj : j = 0
          · subst hj
            simp [hlabel]
          · simp [hlabel, hj]
      · rw [hn, carry_behind _ n 0 lfn false]
        cases carry (slot fs c) (n + 1) 0 false with
        | none => rfl
        | some lfn => exact ih lfn

/-- An iterator over the clusters `m`, the first of which it has read up to its entry index. -/
structure Reading (fs : FAT12FS) (it : DirIter) (m : List Nat) : Prop where
  mounted : Mounted fs
  coherent : Coherent fs
  accepted : fs.bpb.accepted = true
  dir : it.dir.isSome = true
  walk : ∃ head, Walk (fatNext fs.fatTable) head m
  leads : Leads it.currentCluster m
  links : ∀ c ∈ m, InChain c
  index : it.entryIndexInCluster ≤ slotCount fs

/-- What the iterator is still to yield, up to a cluster that `get_cache` refuses. -/
def DirIter.rest (it : DirIter) (fs : FAT12FS) (m : List Nat) : List NormalizedEntry :=
  remaining fs (it.current.status = .SKIP_LFN) it.entryIndexInCluster (readable m)

theorem nextLoop_spec {fs : FAT12FS} {it : DirIter} {m : List Nat} {fuel : Nat} (h : Reading fs it m)
    (hfuel : m.length < fuel) :
    ∃ found it' fs', DirIter.nextLoop fuel fs it = .ret (found, it', fs') ∧
      fs'.clusterByte = fs.clusterByte ∧ fs'.clusterSize = fs.clusterSize ∧
      if found = true then ∃ m', Reading fs' it' m' ∧
        it.rest fs m = it'.current.normalizedEntry :: it'.rest fs' m' else it.rest fs m = [] := by
  induction m generalizing fs it fuel with
  | nil =>
      obtain ⟨fuel, rfl⟩ : ∃ n, fuel = n + 1 := ⟨fuel - 1, by omega⟩
      have hend : ¬ (2 ≤ it.currentCluster ∧ it.currentCluster < 0xFF8) := h.leads
      refine ⟨false, it, fs, ?_, rfl, rfl, rfl⟩
      rw [DirIter.nextLoop, if_neg hend]
      rfl
  | cons c m ih =>
      obtain ⟨fuel, rfl⟩ : ∃ n, fuel = n + 1 := ⟨fuel - 1, by omega⟩
      have hlink : InChain c := h.links c List.mem_cons_self
      have hin : 2 ≤ c ∧ c < 0xFF8 := hlink
      have hcluster : it.currentCluster = c := h.leads
      subst hcluster
      by_cases hc : IsCluster it.currentCluster
      case neg =>
        refine ⟨false, it, fs, ?_, rfl, rfl, ?_⟩
        · rw [DirIter.nextLoop, if_pos hin, getCache_refused hc]
          rfl
        · rw [if_neg (by decide), DirIter.rest, readable_refused hlink hc]
          rfl
      obtain ⟨head, hwalk⟩ := h.walk
      have htail := hwalk.2
      obtain ⟨i, fs₁, fs₂, hget, hrel, hbuf, hsame₁, -, hcoh₂, hsame₂, htable₂, hsector₂⟩ :=
        readCache_spec h.mounted h.coherent hc
      have hbyte := clusterByte_congr hsame₂ hsector₂
      have hsize := hsame₂.clusterSize
      obtain ⟨hcount, -⟩ := slotCount_spec h.mounted h.accepted
      have hindex := h.index
      have hscan := @scan_spec (fs₁.cachePool i).buf (slot fs it.currentCluster) (slotCount fs - it.entryIndexInCluster)
        it.entryIndexInCluster it.current (fun k _ hk off hoff => buffer_slots hbuf (by omega) hoff)
      have hslots : slotCount fs₂ = slotCount fs := by rw [slotCount, slotCount, hsize]
      rw [DirIter.nextLoop, if_pos hin, hget]
      simp only [Outcome.ret_bind, hsame₁.clusterSize, hcount]
      rw [DirIter.rest, readable_cons hc, remaining]
      cases hcase : DirIter.scan (fs₁.cachePool i).buf (slotCount fs - it.entryIndexInCluster)
          it.entryIndexInCluster it.current with
      | yielded k current =>
          rw [hcase] at hscan
          obtain ⟨j, rfl, hle, rfl, hkept, hcarry⟩ := hscan
          have hsub : it.entryIndexInCluster + (slotCount fs - it.entryIndexInCluster) - (j + 1) =
              slotCount fs - (j + 1) := by omega
          rw [hsub] at hkept hcarry
          refine ⟨true, { it with entryIndexInCluster := j + 1, current := ⟨normalized (slot fs it.currentCluster j), .VALID⟩ }, fs₂,
            ?_, hbyte, hsize, ?_⟩
          · simp only [hrel, Outcome.ret_bind]
            rfl
          · rw [if_pos rfl]
            refine ⟨it.currentCluster :: m, ?_, ?_⟩
            · exact ⟨h.mounted.congr hsame₂, hcoh₂, by rw [hsame₂.bpb]; exact h.accepted, h.dir,
                ⟨head, by rw [htable₂]; exact hwalk⟩, rfl, h.links,
                by rw [hslots]; exact (by omega : j + 1 ≤ slotCount fs)⟩
            · rw [hkept, hcarry, List.map_cons, List.cons_append, DirIter.rest, readable_cons hc,
                remaining_congr hbyte hsize]
              rfl
      | endOfDir k current =>
          rw [hcase] at hscan
          obtain ⟨hkept, hcarry⟩ := hscan
          refine ⟨false, { it with entryIndexInCluster := k, current }, fs₂, ?_, hbyte, hsize, ?_⟩
          · simp only [hrel, Outcome.ret_bind]
            rfl
          · rw [hkept, hcarry]
            rfl
      | exhausted current =>
          rw [hcase] at hscan
          obtain ⟨hkept, hcarry⟩ := hscan
          have hreading : Reading fs₂
              { it with currentCluster := fs₂.fatTable it.currentCluster, entryIndexInCluster := 0, current } m :=
            ⟨h.mounted.congr hsame₂, hcoh₂, by rw [hsame₂.bpb]; exact h.accepted, h.dir,
              ⟨_, by rw [htable₂]; exact htail⟩, by rw [htable₂]; exact leads_of_walk htail,
              fun d hd => h.links d (List.mem_cons_of_mem _ hd), Nat.zero_le _⟩
          obtain ⟨found, it', fs', hrun, hbyte', hsize', hrest⟩ :=
            @ih fs₂ _ fuel hreading (by rw [List.length_cons] at hfuel; omega)
          refine ⟨found, it', fs', ?_, hbyte'.trans hbyte, hsize'.trans hsize, ?_⟩
          · simp only [hrel, Outcome.ret_bind]
            rw [← hrun]
          · rw [hkept, hcarry, List.map_nil, List.nil_append]
            rw [DirIter.rest, remaining_congr hbyte hsize] at hrest
            exact hrest

/-- The iterator yields what it is still to yield, and then no more. -/
theorem listing_spec {entries : List NormalizedEntry} {fs : FAT12FS} {it : DirIter} {m : List Nat} {fuel : Nat}
    (h : Reading fs it m) (hrest : it.rest fs m = entries) (hfuel : entries.length < fuel) :
    ∃ fs', DirIter.listing fuel fs it = .ret (entries, fs') := by
  induction entries generalizing fs it m fuel with
  | nil =>
      obtain ⟨fuel, rfl⟩ : ∃ n, fuel = n + 1 := ⟨fuel - 1, by omega⟩
      obtain ⟨dir, hdir⟩ := Option.isSome_iff_exists.mp h.dir
      obtain ⟨head, hwalk⟩ := h.walk
      obtain ⟨found, it', fs', hrun, -, -, hstep⟩ := nextLoop_spec h (Nat.lt_succ_of_lt (length_lt hwalk h.links))
      cases found with
      | true =>
          rw [if_pos rfl, hrest] at hstep
          obtain ⟨m', -, hcons⟩ := hstep
          cases hcons
      | false =>
          refine ⟨fs', ?_⟩
          rw [DirIter.listing, DirIter.next, hdir]
          simp only [hrun, Outcome.ret_bind]
          rfl
  | cons entry entries ih =>
      obtain ⟨fuel, rfl⟩ : ∃ n, fuel = n + 1 := ⟨fuel - 1, by omega⟩
      obtain ⟨dir, hdir⟩ := Option.isSome_iff_exists.mp h.dir
      obtain ⟨head, hwalk⟩ := h.walk
      obtain ⟨found, it', fs', hrun, -, -, hstep⟩ := nextLoop_spec h (Nat.lt_succ_of_lt (length_lt hwalk h.links))
      cases found with
      | true =>
          rw [if_pos rfl, hrest] at hstep
          obtain ⟨m', hreading, hcons⟩ := hstep
          obtain ⟨rfl, htail⟩ := List.cons.inj hcons
          obtain ⟨fs'', hlisting⟩ := ih hreading htail.symm (Nat.lt_of_succ_lt_succ hfuel)
          refine ⟨fs'', ?_⟩
          rw [DirIter.listing, DirIter.next, hdir]
          simp only [hrun, Outcome.ret_bind, if_true, hlisting]
          rfl
      | false =>
          rw [if_neg (by decide), hrest] at hstep
          cases hstep

/-! ### Agreement -/

/-- The inode is that of a directory of the volume, of the clusters `l`; `get_cache` may refuse some of them. -/
structure IsDir (fs : FAT12FS) (node : Fat12Inode) (l : List Nat) : Prop where
  mounted : Mounted fs
  coherent : Coherent fs
  accepted : fs.bpb.accepted = true
  volume : node.fat12Fs = fs.this
  directory : node.attr &&& DIRECTORY ≠ 0
  chain : Linked fs node.startCluster l

/-- More entries than a directory can have. -/
def maxEntries : Nat := FAT12_MAX_CLUSTERS * 2 ^ 16

/-- `lookup` finds an entry just when the iterator yields one of the name, and the first of both have the same
start cluster and size. -/
def LookupAgrees (vol : FatVolume) (place : Nat) (name : List Byte) : Prop :=
  ∃ found clusters vol' it entries fs',
    vol.lookup (some place) name = .ret (found, clusters, vol') ∧
    DirIter.init vol.fs (some (vol.inodepool.inodes place)) = some it ∧
    DirIter.listing (maxEntries + 1) vol.fs it = .ret (entries, fs') ∧
    Option.Rel (fun f e => f.entry.startCluster = e.startCluster ∧ f.entry.fileSize = e.fileSize) found
      (entries.find? fun e => e.name = name)

/-- The first entry that `lookup` compares with the name and finds equal, in the clusters that can be read. -/
def firstNamed (fs : FAT12FS) (l : List Nat) (name : List Byte) : Option DirSlot :=
  (dirSlots fs false (readable l)).find? fun x => (x.entry fs).name = name

/-- The first such entry that the iterator does not pass over. -/
def firstYielded (fs : FAT12FS) (l : List Nat) (name : List Byte) : Option DirSlot :=
  ((dirSlots fs false (readable l)).filter fun x => ¬ x.Skipped fs).find? fun x => (x.entry fs).name = name

/-- Where there is an inode for the first entry of the name, it is not passed over, or the first that is not has
its start cluster and size; where there is none, all are passed over. -/
def FirstSeen (vol : FatVolume) (l : List Nat) (name : List Byte) : Prop :=
  ∀ x, firstNamed vol.fs l name = some x →
    if (vol.takeInode (x.entry vol.fs) x.location).1.isSome = true then
      x.Skipped vol.fs → ∃ y, firstYielded vol.fs l name = some y ∧
        (x.entry vol.fs).startCluster = (y.entry vol.fs).startCluster ∧
        (x.entry vol.fs).fileSize = (y.entry vol.fs).fileSize
    else firstYielded vol.fs l name = none

theorem dirSlots_length {fs : FAT12FS} (lfn : Bool) (m : List Nat) :
    (dirSlots fs lfn m).length ≤ m.length * slotCount fs := by
  induction m generalizing lfn with
  | nil => exact Nat.zero_le _
  | cons c m ih =>
      have hfirst := keptSlots_length (slot fs c) (slotCount fs) 0 false
      rw [dirSlots, List.length_append, List.length_map, List.length_cons, Nat.add_mul, Nat.one_mul]
      cases carry (slot fs c) (slotCount fs) 0 false with
      | none =>
          rw [List.length_nil]
          omega
      | some lfn =>
          have := ih lfn
          dsimp only
          omega

section

variable {vol : FatVolume} {place : Nat} {l : List Nat}

theorem IsDir.lookup_eq (h : IsDir vol.fs (vol.inodepool.inodes place) l) (name : List Byte) :
    ∃ clusters vol', vol.lookup (some place) name = .ret ((firstNamed vol.fs l name).bind
      fun x => (vol.takeInode (x.entry vol.fs) x.location).1, clusters, vol') := by
  have hown : ¬ (vol.inodepool.inodes place).fat12Fs ≠ vol.fs.this := not_not.mpr h.volume
  obtain ⟨clusters, vol', hrun⟩ := @lookupLoop_entries vol name l _ _ (FAT12_MAX_CLUSTERS + 1) false h.mounted
    h.coherent h.accepted h.chain.walk (leads_of_head h.chain.walk) h.chain.links
    (Nat.lt_succ_of_lt (length_lt h.chain.walk h.chain.links))
  refine ⟨clusters, vol', ?_⟩
  rw [FatVolume.lookup, if_neg hown]
  exact hrun

theorem IsDir.listing_eq (h : IsDir vol.fs (vol.inodepool.inodes place) l) :
    ∃ it fs', DirIter.init vol.fs (some (vol.inodepool.inodes place)) = some it ∧
      DirIter.listing (maxEntries + 1) vol.fs it = .ret
        (((dirSlots vol.fs false (readable l)).filter fun x => ¬ x.Skipped vol.fs).map fun x => x.entry vol.fs, fs') := by
  have hown : ¬ (vol.inodepool.inodes place).fat12Fs ≠ vol.fs.this := not_not.mpr h.volume
  obtain ⟨-, hpos⟩ := slotCount_spec h.mounted h.accepted
  have hreading : Reading vol.fs
      ⟨some (vol.inodepool.inodes place), (vol.inodepool.inodes place).startCluster, 0, 0, reset⟩ l :=
    ⟨h.mounted, h.coherent, h.accepted, rfl, ⟨_, h.chain.walk⟩, leads_of_head h.chain.walk, h.chain.links,
      Nat.zero_le _⟩
  have hlength : (((dirSlots vol.fs false (readable l)).filter fun x => ¬ x.Skipped vol.fs).map
      fun x => x.entry vol.fs).length < maxEntries + 1 := by
    have hlen := (readable_length_le l).trans_lt (length_lt h.chain.walk h.chain.links)
    have hslots : slotCount vol.fs ≤ 2 ^ 16 := by
      have hspc := Fat12BPB.sectorsPerCluster_le h.accepted
      rw [slotCount, h.mounted.clusterSize]
      simp only [FAT12_ENTRY_BYTES]
      omega
    rw [List.length_map]
    calc (List.filter _ (dirSlots vol.fs false (readable l))).length
        ≤ (dirSlots vol.fs false (readable l)).length := List.length_filter_le _ _
      _ ≤ (readable l).length * slotCount vol.fs := dirSlots_length false (readable l)
      _ ≤ FAT12_MAX_CLUSTERS * 2 ^ 16 := Nat.mul_le_mul (Nat.le_of_lt hlen) hslots
      _ < maxEntries + 1 := Nat.lt_succ_self _
  obtain ⟨fs', hlisting⟩ := listing_spec hreading (remaining_eq hpos false (readable l)) hlength
  refine ⟨_, fs', ?_, hlisting⟩
  rw [DirIter.init]
  dsimp only
  rw [if_neg hown, if_neg h.directory]

/-- Agreement, by the entries of the directory. -/
theorem IsDir.lookupAgrees (h : IsDir vol.fs (vol.inodepool.inodes place) l) (name : List Byte) :
    LookupAgrees vol place name ↔
      Option.Rel (fun f e => f.entry.startCluster = e.startCluster ∧ f.entry.fileSize = e.fileSize)
        ((firstNamed vol.fs l name).bind fun x => (vol.takeInode (x.entry vol.fs) x.location).1)
        ((firstYielded vol.fs l name).map fun x => x.entry vol.fs) := by
  obtain ⟨clusters, vol', hlookup⟩ := h.lookup_eq name
  obtain ⟨it, fs', hinit, hlisting⟩ := h.listing_eq
  have hfind : (((dirSlots vol.fs false (readable l)).filter fun x => ¬ x.Skipped vol.fs).map
      fun x => x.entry vol.fs).find? (fun e => e.name = name) =
        (firstYielded vol.fs l name).map fun x => x.entry vol.fs := by
    rw [List.find?_map]
    rfl
  constructor
  · rintro ⟨found, clusters', vol'', it', entries, fs'', hlookup', hinit', hlisting', hrel⟩
    rw [hlookup] at hlookup'
    rw [hinit] at hinit'
    obtain rfl := Option.some.inj hinit'
    rw [hlisting] at hlisting'
    obtain ⟨rfl, -⟩ := Prod.mk.inj (Outcome.ret.inj hlookup')
    obtain ⟨rfl, -⟩ := Prod.mk.inj (Outcome.ret.inj hlisting')
    rw [hfind] at hrel
    exact hrel
  · intro hrel
    exact ⟨_, clusters, vol', it, _, fs', hlookup, hinit, hlisting, by rw [hfind]; exact hrel⟩

/-- An entry that is not passed over is the first of both if it is the first. -/
theorem firstYielded_of_seen {fs : FAT12FS} {name : List Byte} {x : DirSlot} (hfirst : firstNamed fs l name = some x)
    (hseen : ¬ x.Skipped fs) : firstYielded fs l name = some x := by
  rw [firstNamed] at hfirst
  rw [firstYielded]
  generalize dirSlots fs false (readable l) = slots at hfirst ⊢
  induction slots with
  | nil => cases hfirst
  | cons a slots ih =>
      rw [List.find?_cons] at hfirst
      split at hfirst
      · rename_i hname
        obtain rfl := Option.some.inj hfirst
        rw [List.filter_cons_of_pos (by simpa using hseen), List.find?_cons, hname]
      · rename_i hname
        by_cases hskip : a.Skipped fs
        · rw [List.filter_cons_of_neg (by simpa using hskip)]
          exact ih hfirst
        · rw [List.filter_cons_of_pos (by simpa using hskip), List.find?_cons, hname]
          exact ih hfirst

theorem firstYielded_of_none {fs : FAT12FS} {name : List Byte} (hnone : firstNamed fs l name = none) :
    firstYielded fs l name = none := by
  rw [firstNamed, List.find?_eq_none] at hnone
  rw [firstYielded, List.find?_eq_none]
  intro x hx
  exact hnone x (List.mem_of_mem_filter hx)

end

/-- A volume with a directory in cluster 2, whose only entry is a volume label of the name `b`. -/
def labelInDirectory : FatVolume where
  fs :=
    { entryInFile.fs with
      device :=
        { sector := fun lba off =>
            if lba = 4 then if off = 0 then 0x42 else if off = 11 then 0x08 else if off < 11 then 0x20 else 0 else 0
          fails := fun _ => false
          requests := 0 } }
  inodepool :=
    { node_count := 8
      bitmap := fun i => i = 0
      inodes := fun _ => ⟨0, 0, 2, DIRECTORY, ⟨true, 0, 0, 0⟩⟩
      refcount := fun i => if i = 0 then 1 else 0 }

theorem labelInDirectory_isDir : IsDir labelInDirectory.fs (labelInDirectory.inodepool.inodes 0) [2] where
  mounted := ⟨fun _ => rfl, rfl, by decide, rfl, by decide, rfl⟩
  coherent := ⟨fun _ _ => rfl, fun _ _ => rfl, fun _ _ hi => absurd hi (Nat.not_succ_le_zero 1),
    fun _ _ _ _ hi => absurd hi (Nat.not_succ_le_zero 1)⟩
  accepted := by decide
  volume := rfl
  directory := by decide
  chain := by
    refine ⟨⟨rfl, rfl⟩, ?_⟩
    intro c hc
    obtain rfl := List.mem_singleton.mp hc
    exact ⟨le_rfl, by decide⟩

end SysuOs.Vfs
