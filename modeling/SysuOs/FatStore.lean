import SysuOs.FatEntry
import SysuOs.FatUsable
import SysuOs.FileStore

/-! The files of a volume beside each other. Each of them is the bytes of its chain, as far as its size goes,
and a call on one of them leaves the others alone: the chains are disjoint, and no directory entry is in one. -/

namespace SysuOs.Root

open EntryBuf Vfs

/-! ### Directory entries that are written back -/

/-- `read` accepts an entry that is in use, of a file or a directory. -/
theorem read_reset_iff (mem : ByteMap) (pos : Nat) :
    (reset.read mem pos).1 = true ↔ mem (pos + 11) ≠ 0x0F ∧ mem pos ≠ 0 ∧ mem pos ≠ 0xE5 := by
  have hstatus : reset.status ≠ .SKIP_LFN := by decide
  unfold EntryBuf.read
  split_ifs <;> simp_all

/-- No character is made one that stands for a free or a deleted entry. -/
theorem toUpper_ne {c : Byte} (hzero : c ≠ 0) (hdelete : c ≠ 0xE5) : toUpper c ≠ 0 ∧ toUpper c ≠ 0xE5 := by
  unfold toUpper
  split
  · constructor <;> bv_omega
  · exact ⟨hzero, hdelete⟩

theorem toLower_ne {c : Byte} (hdelete : c ≠ 0xE5) : toLower c ≠ 0xE5 := by
  unfold toLower
  split
  · bv_omega
  · exact hdelete

theorem head_of_takeWhile {α : Type} {p : α → Bool} {l : List α} {c : α} (h : (l.takeWhile p).head? = some c) :
    l.head? = some c ∧ p c = true := by
  cases l with
  | nil => cases h
  | cons a l =>
      rw [List.takeWhile_cons] at h
      split at h
      · rename_i ha
        obtain rfl := Option.some.inj h
        exact ⟨rfl, ha⟩
      · cases h

/-- The first character of the name of an entry that is in use. -/
theorem entryName_starts {mem : ByteMap} {pos : Nat} {c : Byte} (hdelete : mem pos ≠ 0xE5)
    (h : (entryName mem pos).head? = some c) : c ≠ 0 ∧ c ≠ 0xE5 := by
  obtain ⟨hhead, hne⟩ := head_of_takeWhile h
  refine ⟨by simpa using hne, ?_⟩
  have hbytes : bytesAt mem pos 8 = mem pos :: (List.range 7).map fun i => mem (pos + (i + 1)) := by
    rw [bytesAt, List.range_succ_eq_map, List.map_cons, List.map_map]
    rfl
  rw [hbytes, List.takeWhile_cons] at hhead
  split at hhead
  · rw [List.map_cons, List.cons_append] at hhead
    obtain rfl := Option.some.inj hhead
    exact toLower_ne hdelete
  · rw [List.map_nil, List.nil_append] at hhead
    split at hhead
    · obtain rfl := Option.some.inj hhead
      decide
    · cases hhead

theorem nameParts_head {e : NormalizedEntry} {c : Byte} (h : (nameParts e).1.head? = some c) :
    e.name.head? = some c := by
  unfold nameParts at h
  split at h
  · exact h
  · unfold splitName at h
    split at h
    · exact h
    · rename_i k _
      dsimp only at h
      rw [List.head?_take] at h
      split at h
      · cases h
      · exact h

/-- The first byte of an entry that is written back. -/
theorem written_head {mem : ByteMap} {pos : Nat} {e : NormalizedEntry} (hname : e.name = entryName mem pos)
    (hdelete : mem pos ≠ 0xE5) : written e 0 ≠ 0 ∧ written e 0 ≠ 0xE5 := by
  rw [written_name e (by decide)]
  unfold padded
  cases hbase : (nameParts e).1 with
  | nil => decide
  | cons c l =>
      obtain ⟨hzero, hne⟩ := entryName_starts hdelete (hname ▸ nameParts_head (by rw [hbase]; rfl))
      exact toUpper_ne hzero hne

/-- What `read` yields of an entry that is in use has the name and the attributes of the entry. -/
theorem read_entry {mem : ByteMap} {pos : Nat} {b : EntryBuf} (hread : reset.read mem pos = (true, b)) :
    b.normalizedEntry.name = entryName mem pos ∧ b.normalizedEntry.attr = mem (pos + 11) := by
  unfold EntryBuf.read at hread
  split_ifs at hread
  all_goals cases hread
  exact ⟨rfl, rfl⟩

/-- `write` leaves the bytes outside of the entry alone. -/
theorem write_outside (b : EntryBuf) (mem : ByteMap) {pos k : Nat} (h : k < pos ∨ pos + FAT12_ENTRY_BYTES ≤ k) :
    (b.write mem pos false).2 k = mem k := by
  have hout : ¬(pos ≤ k ∧ k < pos + FAT12_ENTRY_BYTES) := by omega
  change memcpy mem pos (fun k => (encode b.normalizedEntry).getD k 0) FAT12_ENTRY_BYTES k = _
  unfold memcpy
  rw [if_neg hout]

/-- Of an entry that is written back, and of those beside it, `read` accepts the ones it accepted before. -/
theorem accepts_rewrite {mem : ByteMap} {b : EntryBuf} {i j : Nat}
    (hread : reset.read mem (i * FAT12_ENTRY_BYTES) = (true, b)) (startCluster fileSize : Nat)
    (haccepts : (reset.read mem (j * FAT12_ENTRY_BYTES)).1 = true) :
    (reset.read (EntryBuf.write ⟨{ b.normalizedEntry with startCluster, fileSize }, b.status⟩ mem
      (i * FAT12_ENTRY_BYTES) false).2 (j * FAT12_ENTRY_BYTES)).1 = true := by
  have hold := (read_reset_iff mem (j * FAT12_ENTRY_BYTES)).mp haccepts
  rw [read_reset_iff]
  by_cases hij : j = i
  · subst hij
    obtain ⟨hname, hattr⟩ := read_entry hread
    have hfirst := write_at ⟨{ b.normalizedEntry with startCluster, fileSize }, b.status⟩ mem
      (j * FAT12_ENTRY_BYTES) (by decide : 0 < FAT12_ENTRY_BYTES)
    have hkind := write_at ⟨{ b.normalizedEntry with startCluster, fileSize }, b.status⟩ mem
      (j * FAT12_ENTRY_BYTES) (by decide : 11 < FAT12_ENTRY_BYTES)
    rw [Nat.add_zero] at hfirst
    rw [hfirst, hkind]
    refine ⟨?_, written_head hname hold.2.2⟩
    have hfields := written_fields { b.normalizedEntry with startCluster, fileSize } 0
    rw [Nat.add_zero] at hfields
    have hsame : (fields { b.normalizedEntry with startCluster, fileSize }).getD 0 0 =
        b.normalizedEntry.attr := rfl
    rw [hfields, hsame, hattr]
    exact hold.1
  · have hout : ∀ off, off < FAT12_ENTRY_BYTES → (EntryBuf.write
        ⟨{ b.normalizedEntry with startCluster, fileSize }, b.status⟩ mem (i * FAT12_ENTRY_BYTES) false).2
          (j * FAT12_ENTRY_BYTES + off) = mem (j * FAT12_ENTRY_BYTES + off) := by
      intro off hoff
      have hbeside : j * FAT12_ENTRY_BYTES + off < i * FAT12_ENTRY_BYTES ∨
          i * FAT12_ENTRY_BYTES + FAT12_ENTRY_BYTES ≤ j * FAT12_ENTRY_BYTES + off := by
        simp only [FAT12_ENTRY_BYTES] at hoff ⊢
        omega
      exact write_outside _ _ hbeside
    have hfirst := hout 0 (by decide)
    rw [Nat.add_zero] at hfirst
    rw [hout 11 (by decide), hfirst]
    exact hold

end SysuOs.Root

namespace SysuOs.FAT12FS

open FileStore

/-! ### Growing a file -/

section

variable {fs fs' : FAT12FS}

/-- The loop of `append` returns. It changes the FAT at the last cluster and the new ones only, and each new
cluster but the last one is full. -/
theorem appendLoop_grows {fuel : Nat} {pre : List Nat} {start cluster size appended : Nat} {src : ByteMap}
    (hm : Mounted fs) (hcoh : Coherent fs) (hcount : fs.clusterCount ≤ 0xFF0)
    (hwalk : Walk (fatNext fs.fatTable) (some start) (pre ++ [cluster]))
    (hvalid : ∀ c ∈ pre ++ [cluster], IsCluster c) (hfuel : size < fuel) :
    ∃ written fs' ns, fs.appendLoop fuel cluster src size appended = .ret (appended + written, fs') ∧
      Walk (fatNext fs'.fatTable) (some start) (pre ++ [cluster] ++ ns) ∧
      (∀ c, c ∉ ns → c ≠ cluster → fs'.fatTable c = fs.fatTable c) ∧
      written ≤ size ∧ ns.length * fs.clusterSize < written + fs.clusterSize := by
  have hcs := hm.clusterSize_pos
  induction fuel generalizing fs pre cluster size appended src with
  | zero => omega
  | succ fuel ih =>
      have hstop : ∃ written fs' ns, Outcome.ret (appended, fs) = .ret (appended + written, fs') ∧
          Walk (fatNext fs'.fatTable) (some start) (pre ++ [cluster] ++ ns) ∧
          (∀ c, c ∉ ns → c ≠ cluster → fs'.fatTable c = fs.fatTable c) ∧
          written ≤ size ∧ ns.length * fs.clusterSize < written + fs.clusterSize := by
        refine ⟨0, fs, [], rfl, ?_, fun _ _ _ => rfl, Nat.zero_le size, ?_⟩
        · rw [List.append_nil]
          exact hwalk
        · rw [List.length_nil, Nat.zero_mul, Nat.zero_add]
          exact hcs
      rw [appendLoop]
      by_cases hsize : size > 0
      · rw [if_pos hsize]
        rcases @allocateCluster_cases fs (by simp only [FAT12_MAX_CLUSTERS]; omega) with
          ⟨hnone, -⟩ | ⟨new, hnew, hge, hlt, hfree, -⟩
        · rw [hnone, Outcome.ret_bind, if_pos rfl]
          exact hstop
        · have hnewc : IsCluster new := ⟨hge, by omega⟩
          obtain ⟨fs₂, hflush, hcoh₂, hsame₂, hbyte₂, htable₂⟩ := link_spec hm hcoh cluster new
          obtain ⟨i, fs₁, fs₄, fs₅, buf, hget, hcs₁, hwrite, hrel, hstored, hbuf⟩ :=
            storeNew_spec (hm.congr hsame₂) hcoh₂ hnewc src (min size fs.clusterSize)
          have hsame₅ := hsame₂.trans hstored.same
          have hcs₅ := hsame₅.clusterSize
          have htable₅ : fs₅.fatTable = Function.update (Function.update fs.fatTable cluster new) new 0xFFF :=
            hstored.fatTable.trans htable₂
          have hwalk₅ := linked_walk hwalk (fun c hc => (hvalid c hc).inChain) hfree hnewc
          rw [← htable₅] at hwalk₅
          obtain ⟨written, fs', ns, hrun, hwalk', hframe, hle, hfull⟩ := @ih fs₅ (pre ++ [cluster]) new
            (size - min size fs.clusterSize) (appended + min size fs.clusterSize)
            (bytesFrom src (min size fs.clusterSize))
            (hm.congr hsame₅) hstored.coherent (by rw [hsame₅.clusterCount]; exact hcount) hwalk₅
            (fun c hc => by
              rcases List.mem_append.mp hc with hc | hc
              · exact hvalid c hc
              · obtain rfl := List.mem_singleton.mp hc
                exact hnewc)
            (by omega) (by rw [hcs₅]; exact hcs)
          rw [hcs₅] at hfull
          rw [hsame₂.clusterSize] at hcs₁ hwrite
          rw [edited] at hwrite
          refine ⟨min size fs.clusterSize + written, fs', new :: ns, ?_, ?_, fun c hc hne => ?_, by omega, ?_⟩
          · rw [hnew, Outcome.ret_bind, if_neg (by omega)]
            dsimp only at hflush ⊢
            rw [hflush]
            simp only [hget, Outcome.ret_bind, hcs₁, hwrite, hrel, if_true]
            rw [hrun, Nat.add_assoc]
          · rw [List.append_assoc] at hwalk'
            exact hwalk'
          · rw [List.mem_cons, not_or] at hc
            rw [hframe c hc.2 hc.1, htable₅, Function.update_of_ne hc.1, Function.update_of_ne hne]
          · rw [List.length_cons, Nat.add_mul, Nat.one_mul]
            by_cases hwhole : size ≤ fs.clusterSize
            · -- nothing is left, and the loop ends
              have hnone : ns.length < 1 := by
                apply Nat.lt_of_mul_lt_mul_right (a := fs.clusterSize)
                omega
              have hzero : ns.length = 0 := by omega
              rw [hzero]
              omega
            · omega
      · rw [if_neg hsize]
        exact hstop

/-- The directory cluster `c` has an entry in use at place `j`. -/
def EntryAt (fs : FAT12FS) (c j : Nat) : Prop :=
  (EntryBuf.reset.read (fs.clusterByte c) (j * FAT12_ENTRY_BYTES)).1 = true

theorem EntryAt.congr {c j : Nat} (h : EntryAt fs c j)
    (hin : j * FAT12_ENTRY_BYTES + FAT12_ENTRY_BYTES ≤ fs.clusterSize)
    (hbyte : ∀ k, k < fs.clusterSize → fs'.clusterByte c k = fs.clusterByte c k) : EntryAt fs' c j := by
  simp only [FAT12_ENTRY_BYTES] at hin
  unfold EntryAt at *
  rw [read_accepts_congr (hbyte _ (by simp only [FAT12_ENTRY_BYTES]; omega))
    (hbyte _ (by simp only [FAT12_ENTRY_BYTES]; omega))]
  exact h

/-- Updating a directory entry leaves all entries in use. -/
theorem updateEntry_entryAt {node : Fat12Inode} (hm : Mounted fs) (hcoh : Coherent fs)
    (hrun : fs.updateEntry node = .ret fs') {c j : Nat} (hc : 2 ≤ c)
    (hin : j * FAT12_ENTRY_BYTES + FAT12_ENTRY_BYTES ≤ fs.clusterSize) (h : EntryAt fs c j) :
    EntryAt fs' c j := by
  by_cases hother : node.location.isRoot = false → c ≠ node.location.currentCluster
  · obtain ⟨-, -, -, hbyte⟩ := updateEntry_frame hm hcoh hrun
    exact h.congr hin fun k hk => hbyte c k hc hk hother
  · obtain ⟨hroot, hsame⟩ := Classical.not_imp.mp hother
    obtain rfl := not_not.mp hsame
    rw [updateEntry, if_neg (by simp [hroot])] at hrun
    obtain ⟨⟨cache, fs₁⟩, hget, hrun⟩ := Outcome.bind_eq_ret hrun
    cases cache with
    | none => simp at hrun
    | some i =>
        obtain ⟨i', fs₁', hget', hpin⟩ := getCache_spec hm hcoh (isCluster_of_getCache hget)
        rw [hget'] at hget
        obtain ⟨hij, rfl⟩ := Prod.mk.inj (Outcome.ret.inj hget)
        obtain rfl := Option.some.inj hij
        have hbuf : (EntryBuf.reset.read (fs₁'.cachePool i').buf (j * FAT12_ENTRY_BYTES)).1 = true := by
          simp only [FAT12_ENTRY_BYTES] at hin
          rw [read_accepts_congr (hpin.buf _ (by simp only [FAT12_ENTRY_BYTES]; omega))
            (hpin.buf _ (by simp only [FAT12_ENTRY_BYTES]; omega))]
          exact h
        dsimp only at hrun
        split at hrun
        · simp at hrun
        · rename_i b hread
          have hkept := Root.accepts_rewrite hread node.startCluster node.size hbuf
          split at hrun
          · simp at hrun
          · rename_i buf hwrite
            rw [hwrite] at hkept
            obtain ⟨fs₃, hrel, hstored⟩ := hpin.storeRelease hm hcoh hc buf
            rw [← edited, hrel] at hrun
            obtain rfl := Outcome.ret.inj hrun
            simp only [FAT12_ENTRY_BYTES] at hin
            have hnew : ∀ k, k < fs.clusterSize → fs₃.clusterByte node.location.currentCluster k = buf k :=
              fun k hk => by rw [hstored.byte _ k hc hk, if_pos rfl]
            unfold EntryAt
            rw [read_accepts_congr (hnew _ (by simp only [FAT12_ENTRY_BYTES]; omega))
              (hnew _ (by simp only [FAT12_ENTRY_BYTES]; omega))]
            exact hkept

/-- What a call that puts the clusters `ns` behind the clusters `l` of a file leaves alone: the FAT and the bytes
of other clusters, but for the directory entry of the file, which stays in use. -/
structure Beside (fs fs' : FAT12FS) (location : EntryLocation) (l ns : List Nat) : Prop where
  free : ∀ c ∈ ns, fs.fatTable c = 0
  table : ∀ c, c ∉ l → c ∉ ns → fs'.fatTable c = fs.fatTable c
  byte : ∀ c k, 2 ≤ c → k < fs.clusterSize → c ∉ l → c ∉ ns →
    (location.isRoot = false → c ≠ location.currentCluster) → fs'.clusterByte c k = fs.clusterByte c k
  entry : ∀ c j, 2 ≤ c → c ∉ l → c ∉ ns → j * FAT12_ENTRY_BYTES + FAT12_ENTRY_BYTES ≤ fs.clusterSize →
    EntryAt fs c j → EntryAt fs' c j

/-- `append` to a file that has clusters returns. -/
theorem appendRest_grows {node : Fat12Inode} {pre : List Nat} {c n : Nat} {src : ByteMap} (hm : Mounted fs)
    (hcoh : Coherent fs) (hcount : fs.clusterCount ≤ 0xFF0)
    (hwalk : Walk (fatNext fs.fatTable) (some node.startCluster) (pre ++ [c]))
    (hvalid : ∀ d ∈ pre ++ [c], IsCluster d) (hentry : HasEntry fs node.location (pre ++ [c])) (hn : 0 < n) :
    ∃ r fs' ns, fs.appendRest node src n = .ret (r, { node with size := (node.size + r) % 2 ^ 32 }, fs') ∧
      Walk (fatNext fs'.fatTable) (some node.startCluster) (pre ++ [c] ++ ns) ∧
      Beside fs fs' node.location (pre ++ [c]) ns ∧
      (pre.length + ns.length) * fs.clusterSize ≤
        pre.length * fs.clusterSize + node.size % fs.clusterSize + r := by
  have hcs := hm.clusterSize_pos
  have hc : IsCluster c := hvalid c (by simp)
  have hlinks : ∀ d ∈ pre ++ [c], InChain d := fun d hd => (hvalid d hd).inChain
  have hshort : pre.length < FAT12_MAX_CLUSTERS + 1 := by
    have hlen := length_lt hwalk hlinks
    rw [List.length_append] at hlen
    omega
  have hused := Nat.mod_lt node.size hcs
  obtain ⟨fs₁, buf, hfill, hstored, hbuf⟩ := fillLast_spec hm hcoh hc hused src n
  have hm₁ := hm.congr hstored.same
  obtain ⟨written, fs₂, ns, hloop, hwalk₂, htable₂, hle, hfull⟩ := @appendLoop_grows fs₁
    (n - min n (fs.clusterSize - node.size % fs.clusterSize) + 1) pre node.startCluster c
    (n - min n (fs.clusterSize - node.size % fs.clusterSize))
    (min n (fs.clusterSize - node.size % fs.clusterSize))
    (bytesFrom src (min n (fs.clusterSize - node.size % fs.clusterSize))) hm₁ hstored.coherent
    (by rw [hstored.same.clusterCount]; exact hcount) (by rw [hstored.fatTable]; exact hwalk) hvalid
    (Nat.lt_succ_self _)
  obtain ⟨ns', written', htotal, hext, -, -, -, -⟩ := appendLoop_spec hm₁ hstored.coherent
    (by rw [hstored.fatTable]; exact hwalk) hlinks hloop
  obtain rfl : ns' = ns := by simpa using hext.walk.unique hwalk₂
  have hcs₁ := hstored.same.clusterSize
  rw [hcs₁] at hfull
  have hsame₂ := hstored.same.trans hext.same
  have hcs₂ := hsame₂.clusterSize
  have hpos : 0 < min n (fs.clusterSize - node.size % fs.clusterSize) + written := by omega
  generalize hfilled : min n (fs.clusterSize - node.size % fs.clusterSize) = filled at *
  -- the entry of the file is neither in its last cluster nor in a new one
  have hplace : node.location.isRoot = false → node.location.currentCluster ∉ ns' := fun hsub hmem => by
    have hzero := hext.free _ hmem
    rw [hstored.fatTable] at hzero
    exact hentry.allocated hsub hzero
  have hkeep : ∀ d, d ∉ pre ++ [c] → d ∉ ns' → 2 ≤ d → ∀ k, k < fs.clusterSize →
      fs₂.clusterByte d k = fs.clusterByte d k := fun d hd hd' hge k hk => by
    rw [hext.byte d k hge (by rw [hcs₁]; exact hk) hd', hstored.byte d k hge hk, if_neg]
    rintro rfl
    exact hd (by simp)
  have hentry₂ : HasEntry fs₂ node.location (pre ++ [c]) := by
    refine ⟨hentry.cluster, fun hsub => ?_, hentry.apart, by rw [hcs₂]; exact hentry.inside, fun hsub => ?_⟩
    · have hne : node.location.currentCluster ≠ c := fun heq => hentry.apart hsub (by simp [heq])
      rw [htable₂ _ (hplace hsub) hne, hstored.fatTable]
      exact hentry.allocated hsub
    · exact EntryAt.congr (hentry.valid hsub) (hentry.inside hsub)
        (hkeep _ (hentry.apart hsub) (hplace hsub) (hentry.cluster hsub).1)
  have hm₂ := hm.congr hsame₂
  obtain ⟨fs₃, hupdate⟩ := @updateEntry_returns fs₂
    { node with size := (node.size + (filled + written)) % 2 ^ 32 } _ hm₂ hext.coherent hentry₂
  obtain ⟨hcoh₃, hsame₃, htable₃, hbyte₃⟩ := updateEntry_frame hm₂ hext.coherent hupdate
  refine ⟨filled + written, fs₃, ns', ?_, ?_,
    ⟨fun d hd => ?_, fun d hd hd' => ?_, fun d k hge hk hd hd' hother => ?_,
      fun d j hge hd hd' hin h => ?_⟩, ?_⟩
  · rw [appendRest, lastCluster, lastClusterLoop_spec hwalk hlinks hshort]
    simp only [Outcome.ret_bind, hfill, hloop]
    rw [if_pos hpos, hupdate]
    rfl
  · rw [htable₃]
    exact hwalk₂
  · rw [← hstored.fatTable]
    exact hext.free d hd
  · have hne : d ≠ c := by
      rintro rfl
      exact hd (by simp)
    rw [htable₃, htable₂ d hd' hne, hstored.fatTable]
  · rw [hbyte₃ d k hge (by rw [hcs₂]; exact hk) hother, hkeep d hd hd' hge k hk]
  · rw [← hcs₂] at hin
    exact updateEntry_entryAt hm₂ hext.coherent hupdate hge hin
      (h.congr (by rw [← hcs₂]; exact hin) (hkeep d hd hd' hge))
  · rw [Nat.add_mul]
    by_cases hnone : ns'.length = 0
    · rw [hnone]
      omega
    · have hgrown : 1 * fs.clusterSize ≤ ns'.length * fs.clusterSize := Nat.mul_le_mul_right _ (by omega)
      omega

/-- An empty file is given a first cluster, or none is free. -/
theorem appendStart_returns (hm : Mounted fs) (hcoh : Coherent fs) (hcount : fs.clusterCount ≤ 0xFF0)
    {node : Fat12Inode} (hzero : node.startCluster = 0) :
    (fs.appendStart node = .ret (none, fs) ∧ fs.allocateCluster = .ret 0) ∨
      ∃ c fs₁, IsCluster c ∧ fs.appendStart node = .ret (some { node with startCluster := c }, fs₁) := by
  rw [appendStart, if_pos hzero]
  rcases @allocateCluster_cases fs (by simp only [FAT12_MAX_CLUSTERS]; omega) with
    ⟨hnone, -⟩ | ⟨c, hnew, hge, hlt, -, -⟩
  · exact Or.inl ⟨by rw [hnone, Outcome.ret_bind, if_pos rfl]; rfl, hnone⟩
  · right
    obtain ⟨fs₁, hflush, -⟩ := flush_data { fs.setFat c 0xFFF with fatTableDirty := true }
      (hm.congr ⟨rfl, rfl, rfl, rfl, rfl, rfl, rfl⟩) ⟨hcoh.unused, hcoh.clean, hcoh.content, hcoh.unique⟩
    refine ⟨c, fs₁, ⟨hge, by omega⟩, ?_⟩
    rw [hnew, Outcome.ret_bind, if_neg (by omega), hflush]
    rfl

/-- The directory entry of an empty file that has been given its first cluster. -/
theorem HasEntry.start {location : EntryLocation} {c : Nat} (h : HasEntry fs location [])
    (hfree : fs.fatTable c = 0)    (hsame : SameVolume fs fs') (hbyte : fs'.clusterByte = fs.clusterByte)
    (htable : fs'.fatTable = Function.update fs.fatTable c 0xFFF) : HasEntry fs' location [c] := by
  have hne : location.isRoot = false → location.currentCluster ≠ c := fun hsub heq =>
    h.allocated hsub (heq ▸ hfree)
  refine ⟨h.cluster, fun hsub => ?_, fun hsub => ?_, fun hsub => ?_, fun hsub => ?_⟩
  · rw [htable, Function.update_of_ne (hne hsub)]
    exact h.allocated hsub
  · simpa using hne hsub
  · rw [hsame.clusterSize]
    exact h.inside hsub
  · rw [hbyte]
    exact h.valid hsub

/-- What is left alone from the cluster that an empty file is given on. -/
theorem Beside.first {location : EntryLocation} {c : Nat} {ns : List Nat} (hfree : fs.fatTable c = 0)
    {fs₁ : FAT12FS} (hsame : SameVolume fs fs₁) (hbyte : fs₁.clusterByte = fs.clusterByte)
    (htable : fs₁.fatTable = Function.update fs.fatTable c 0xFFF) (h : Beside fs₁ fs' location [c] ns) :
    Beside fs fs' location [] (c :: ns) := by
  have hcs := hsame.clusterSize
  have hout : ∀ d, d ∉ c :: ns → d ∉ [c] ∧ d ∉ ns := fun d hd => by
    rw [List.mem_cons, not_or] at hd
    exact ⟨by simpa using hd.1, hd.2⟩
  refine ⟨fun d hd => ?_, fun d _ hd => ?_, fun d k hge hk _ hd hother => ?_, fun d j hge _ hd hin hentry => ?_⟩
  · rcases List.mem_cons.mp hd with rfl | hd
    · exact hfree
    · have hnew := h.free d hd
      rw [htable] at hnew
      by_cases hdc : d = c
      · rw [hdc]
        exact hfree
      · rwa [Function.update_of_ne hdc] at hnew
  · obtain ⟨hdc, hns⟩ := hout d hd
    rw [h.table d hdc hns, htable, Function.update_of_ne (by simpa using hdc)]
  · obtain ⟨hdc, hns⟩ := hout d hd
    rw [h.byte d k hge (by rw [hcs]; exact hk) hdc hns hother, hbyte]
  · obtain ⟨hdc, hns⟩ := hout d hd
    exact h.entry d j hge hdc hns (by rw [hcs]; exact hin) (hentry.congr hin fun k _ => by rw [hbyte])

/-- What `append` returns and leaves alone. It fails if it finds no cluster for an empty file. -/
theorem append_grows {node : Fat12Inode} {l : List Nat} {n : Nat} (h : Appendable fs node l)
    (hvalid : ∀ c ∈ l, IsCluster c) (hcount : fs.clusterCount ≤ 0xFF0) (src : ByteMap) (hn : 0 < n) :
    (fs.append (some node) src n = .ret (-1, some node, fs) ∧ l = [] ∧ fs.allocateCluster = .ret 0) ∨
      ∃ (r : Nat) (node' : Fat12Inode) (fs' : FAT12FS) (ns : List Nat),
        fs.append (some node) src n = .ret (r, some node', fs') ∧
          Walk (fatNext fs'.fatTable) (some node'.startCluster) (l ++ ns) ∧ Beside fs fs' node.location l ns ∧
          (l.length + ns.length - 1) * fs.clusterSize ≤
            (l.length - 1) * fs.clusterSize + node.size % fs.clusterSize + r := by
  have hnil := h.file.chain.nil_iff
  have hpos : ¬((n : Int) ≤ 0) := by omega
  rw [append]
  simp only [if_neg (not_not_intro h.file.volume), if_neg h.startCluster_ge, if_neg h.file.regular,
    if_neg hpos, Int.toNat_natCast]
  by_cases hzero : node.startCluster = 0
  · obtain rfl := hnil.mpr hzero
    have hsize : node.size = 0 := by simpa using h.holds
    rcases appendStart_returns h.mounted h.coherent hcount hzero with ⟨hnone, hfull⟩ | ⟨c, fs₁, hc, hstart⟩
    · left
      rw [hnone, Outcome.ret_bind]
      exact ⟨rfl, rfl, hfull⟩
    · right
      obtain ⟨c', -, hfree, hnode, hcoh₁, hsame₁, hbyte₁, htable₁⟩ :=
        appendStart_spec h.mounted h.coherent hzero hstart
      obtain rfl : c = c' := congrArg Fat12Inode.startCluster hnode
      have hmark : fs₁.fatTable c = 0xFFF := by rw [htable₁, Function.update_self]
      have hwalk : Walk (fatNext fs₁.fatTable) (some c) ([] ++ [c]) := by
        rw [List.nil_append, Walk.cons_iff, Walk.nil_iff, fatNext, hmark]
        exact ⟨rfl, rfl⟩
      obtain ⟨r, fs', ns, hrest, hwalk', hbeside, htight⟩ := @appendRest_grows fs₁
        { node with startCluster := c } [] c n src (h.mounted.congr hsame₁) hcoh₁
        (by rw [hsame₁.clusterCount]; exact hcount) hwalk (by simpa using hc)
        (h.entry.start hfree hsame₁ hbyte₁ htable₁) hn
      refine ⟨r, { node with startCluster := c, size := (node.size + r) % 2 ^ 32 }, fs', c :: ns, ?_, hwalk',
        hbeside.first hfree hsame₁ hbyte₁ htable₁, ?_⟩
      · rw [hstart]
        simp only [Outcome.ret_bind, hrest, Outcome.pure_eq]
      · rw [hsame₁.clusterSize] at htight
        simpa [hsize] using htight
  · right
    obtain ⟨pre, c, rfl⟩ : ∃ pre c, l = pre ++ [c] :=
      ⟨l.dropLast, l.getLast (fun hl => hzero (hnil.mp hl)), (List.dropLast_append_getLast _).symm⟩
    have hwalk := h.file.chain.walk
    rw [chainHead, if_neg hzero] at hwalk
    obtain ⟨r, fs', ns, hrest, hwalk', hbeside, htight⟩ := @appendRest_grows fs node pre c n src
      h.mounted h.coherent hcount hwalk hvalid h.entry hn
    refine ⟨r, { node with size := (node.size + r) % 2 ^ 32 }, fs', ns, ?_, hwalk', hbeside, ?_⟩
    · rw [appendStart, if_neg hzero]
      simp only [Outcome.pure_eq, Outcome.ret_bind, hrest]
    · have hlen : pre.length + 1 + ns.length - 1 = pre.length + ns.length := by omega
      rw [List.length_append, List.length_singleton, hlen, Nat.add_sub_cancel]
      exact htight

end

/-! ### The files of a volume -/

/-- What a file with the clusters `l` holds. -/
def content (fs : FAT12FS) (node : Fat12Inode) (l : List Nat) : List Byte := tabulate node.size (fs.chainByte l)

/-- The files `live` of a volume, with the inode and the clusters of each. No cluster belongs to two of them, and
none has the directory entry of one of them. -/
structure Stores {κ : Type} (fs : FAT12FS) (live : κ → Prop) (node : κ → Fat12Inode) (chain : κ → List Nat) :
    Prop where
  mounted : Mounted fs
  coherent : Coherent fs
  accepted : fs.bpb.accepted = true
  small : fs.bpb.sectorsPerCluster ≤ 64
  count : fs.clusterCount ≤ 0xFF0
  file : ∀ f, live f → IsFile fs (node f) (chain f)
  valid : ∀ f, live f → ∀ c ∈ chain f, IsCluster c
  holds : ∀ f, live f → (node f).size ≤ (chain f).length * fs.clusterSize
  tight : ∀ f, live f → ((chain f).length - 1) * fs.clusterSize ≤ (node f).size
  entry : ∀ f, live f → HasEntry fs (node f).location (chain f)
  apart : ∀ f g, live f → live g → f ≠ g → (chain f).Disjoint (chain g)
  beside : ∀ f g, live f → live g → (node f).location.isRoot = false →
    (node f).location.currentCluster ∉ chain g

section

variable {κ : Type} {fs fs' : FAT12FS} {live : κ → Prop} {node : κ → Fat12Inode} {chain : κ → List Nat} {f : κ}

namespace Stores

theorem mono (h : Stores fs live node chain) {live' : κ → Prop} (hle : ∀ f, live' f → live f) :
    Stores fs live' node chain where
  mounted := h.mounted
  coherent := h.coherent
  accepted := h.accepted
  small := h.small
  count := h.count
  file f hf := h.file f (hle f hf)
  valid f hf := h.valid f (hle f hf)
  holds f hf := h.holds f (hle f hf)
  tight f hf := h.tight f (hle f hf)
  entry f hf := h.entry f (hle f hf)
  apart f g hf hg := h.apart f g (hle f hf) (hle g hg)
  beside f g hf hg := h.beside f g (hle f hf) (hle g hg)

/-- Neither the inodes nor the FAT change, and the directory entries stay in use. -/
theorem congr (h : Stores fs live node chain) (hcoh : Coherent fs') (hsame : SameVolume fs fs')
    (htable : fs'.fatTable = fs.fatTable)
    (hentry : ∀ c j, 2 ≤ c → (∀ g, live g → c ∉ chain g) →
      j * FAT12_ENTRY_BYTES + FAT12_ENTRY_BYTES ≤ fs.clusterSize → EntryAt fs c j → EntryAt fs' c j) :
    Stores fs' live node chain where
  mounted := h.mounted.congr hsame
  coherent := hcoh
  accepted := by rw [hsame.bpb]; exact h.accepted
  small := by rw [hsame.bpb]; exact h.small
  count := by rw [hsame.clusterCount]; exact h.count
  file f hf := by
    refine ⟨by rw [hsame.this]; exact (h.file f hf).volume, (h.file f hf).regular, ?_, (h.file f hf).chain.links⟩
    rw [htable]
    exact (h.file f hf).chain.walk
  valid := h.valid
  holds f hf := by rw [hsame.clusterSize]; exact h.holds f hf
  tight f hf := by rw [hsame.clusterSize]; exact h.tight f hf
  entry f hf := by
    have hold := h.entry f hf
    exact ⟨hold.cluster, by rw [htable]; exact hold.allocated, hold.apart,
      by rw [hsame.clusterSize]; exact hold.inside, fun hsub =>
        hentry _ _ (hold.cluster hsub).1 (fun g hg => h.beside f g hf hg hsub) (hold.inside hsub)
        (hold.valid hsub)⟩
  apart := h.apart
  beside := h.beside

theorem appendable (h : Stores fs live node chain) (hf : live f) : Appendable fs (node f) (chain f) where
  mounted := h.mounted
  coherent := h.coherent
  small := h.small
  file := h.file f hf
  holds := h.holds f hf
  entry := h.entry f hf

/-- A file is smaller than 2^28 bytes. -/
theorem size_lt (h : Stores fs live node chain) (hf : live f) : (node f).size < 2 ^ 28 :=
  Nat.lt_of_le_of_lt (h.holds f hf)
    ((h.appendable hf).capacity (h.file f hf).chain.walk (h.file f hf).chain.links)

theorem clusterSize_lt (h : Stores fs live node chain) : fs.clusterSize < 2 ^ 16 := by
  have hsmall := h.small
  rw [h.mounted.clusterSize]
  omega

theorem request (h : Stores fs live node chain) (hf : live f) {size offset : Nat} (hpos : 0 < size)
    (hsize : size < 2 ^ 31) (hin : offset < (node f).size) : Request fs (node f) (chain f) size offset where
  mounted := h.mounted
  coherent := h.coherent
  accepted := h.accepted
  file := h.file f hf
  held := h.holds f hf
  inside := hin
  positive := hpos
  int := hsize

/-- `read` yields the bytes of the file from the offset on, as many as there are, and changes no file. -/
theorem read (h : Stores fs live node chain) (hf : live f) {size offset : Nat} (hpos : 0 < size)
    (hsize : size < 2 ^ 31) (hoff : offset < 2 ^ 31) (out : ByteMap) :
    ∃ out' fs', fs.read (some (node f)) out size offset =
        .ret ((min size ((node f).size - offset) : Nat), out', fs') ∧
      (∀ k, k < min size ((node f).size - offset) → out' k = fs.chainByte (chain f) (offset + k)) ∧
      Stores fs' live node chain ∧ fs'.chainByte = fs.chainByte := by
  have hlt := h.size_lt hf
  by_cases hin : offset < (node f).size
  · have hreq := h.request hf hpos hsize hin
    have hheld := h.holds f hf
    obtain ⟨out', fs', hrun, hcoh, hsame, htable, hsector, hbytes⟩ := @readFrom_spec fs (node f) (chain f)
      (min size ((node f).size - offset)) offset out h.mounted h.coherent (Or.inl h.clusterSize_lt)
      (h.file f hf).chain (.of_valid (h.valid f hf)) (by omega) (by omega)
      (by omega : offset < (chain f).length * fs.clusterSize)
    have hmin : min (min size ((node f).size - offset)) ((chain f).length * fs.clusterSize - offset) =
        min size ((node f).size - offset) := by omega
    rw [hmin] at hrun hbytes
    refine ⟨out', fs', by rw [hreq.read_eq]; exact hrun, hbytes, ?_, chainByte_congr hsame hsector⟩
    exact h.congr hcoh hsame htable fun c j _ _ hfits hentry =>
      hentry.congr hfits fun k _ => by rw [clusterByte_congr hsame hsector]
  · have hnone : min size ((node f).size - offset) = 0 := by omega
    have hbeyond : u32 (offset : Int) ≥ (node f).size := by
      rw [u32]
      omega
    rw [hnone]
    refine ⟨out, fs, ?_, fun k hk => absurd hk (Nat.not_lt_zero k), h, rfl⟩
    rw [FAT12FS.read]
    simp only [if_pos hbeyond, ite_self]
    rfl

/-- The bytes of the chain of a file, where no byte of its clusters has changed. -/
theorem chainByte_eq (h : Stores fs live node chain) {g : κ} (hg : live g) (hsame : SameVolume fs fs')
    (hbyte : ∀ c ∈ chain g, ∀ k, k < fs.clusterSize → fs'.clusterByte c k = fs.clusterByte c k) :
    content fs' (node g) (chain g) = content fs (node g) (chain g) := by
  apply tabulate_congr
  intro p hp
  have hholds := h.holds g hg
  exact chainByte_eq_of hsame.clusterSize h.mounted.clusterSize_pos (by omega) hbyte

/-- `write` puts the bytes in the place of those of the file, as many as there are, and changes no other
file. -/
theorem write (h : Stores fs live node chain) (hf : live f) {size offset : Nat} (hpos : 0 < size)
    (hsize : size < 2 ^ 31) (hoff : offset < 2 ^ 31) (src : ByteMap) :
    ∃ fs', fs.write (some (node f)) src size offset = .ret ((min size ((node f).size - offset) : Nat), fs') ∧
      Stores fs' live node chain ∧
      content fs' (node f) (chain f) = overwrite (content fs (node f) (chain f)) offset
        (tabulate (min size ((node f).size - offset)) src) ∧
      ∀ g, live g → g ≠ f → content fs' (node g) (chain g) = content fs (node g) (chain g) := by
  have hlt := h.size_lt hf
  by_cases hin : offset < (node f).size
  · have hreq := h.request hf hpos hsize hin
    have hheld := h.holds f hf
    obtain ⟨fs', hrun, hwritten⟩ := @writeFrom_spec fs (node f) (chain f)
      (min size ((node f).size - offset)) offset src h.mounted h.coherent h.clusterSize_lt
      (h.file f hf).chain (.of_valid (h.valid f hf)) (by omega)
      (by omega : min size ((node f).size - offset) < 2 ^ 31)
      (by omega : offset + min size ((node f).size - offset) ≤ (chain f).length * fs.clusterSize) (by omega)
    refine ⟨fs', ?_, ?_, ?_, fun g hg hne => ?_⟩
    · rw [hreq.write_eq]
      exact hrun
    · exact h.congr hwritten.coherent hwritten.same hwritten.cacheOnly.fatTable fun c j hc hout hfits hentry =>
        hentry.congr hfits fun k hk => hwritten.other c k hc (hout f hf) hk
    · rw [content, content, overwrite_tabulate _ _ (by omega)]
      apply tabulate_congr
      intro p hp
      exact hwritten.content p (by omega)
    · apply h.chainByte_eq hg hwritten.same
      intro c hc k hk
      exact hwritten.other c k (h.valid g hg c hc).1 (h.apart g f hg hf hne hc) hk
  · have hnone : min size ((node f).size - offset) = 0 := by omega
    have hbeyond : u32 (offset : Int) ≥ (node f).size := by
      rw [u32]
      omega
    rw [hnone]
    refine ⟨fs, ?_, h, ?_, fun _ _ _ => rfl⟩
    · rw [FAT12FS.write]
      simp only [if_pos hbeyond, ite_self]
      rfl
    · rw [tabulate_zero, overwrite_nil]

/-- A file that does not fill its last cluster ends where `append` writes. -/
theorem end_eq (h : Stores fs live node chain) (hf : live f)
    (hroom : (node f).size = 0 ∨ (node f).size % fs.clusterSize ≠ 0) :
    ((chain f).length - 1) * fs.clusterSize + (node f).size % fs.clusterSize = (node f).size := by
  have htight := h.tight f hf
  have hheld := h.holds f hf
  have hcs := h.mounted.clusterSize_pos
  rcases hroom with hzero | hpart
  · rw [hzero] at htight ⊢
    rw [Nat.zero_mod]
    omega
  · obtain ⟨rest, hrest⟩ := Nat.exists_eq_add_of_le htight
    have hlt : rest < fs.clusterSize := by
      have hne : (node f).size ≠ (chain f).length * fs.clusterSize := fun heq => by
        rw [heq, Nat.mul_mod_left] at hpart
        exact hpart rfl
      have hlen : (chain f).length = (chain f).length - 1 + 1 := by
        cases hl : (chain f).length with
        | zero =>
            rw [hl, Nat.zero_mul] at hheld hne
            omega
        | succ k => rfl
      have hsum : (chain f).length * fs.clusterSize =
          ((chain f).length - 1) * fs.clusterSize + fs.clusterSize := by
        rw [hlen, Nat.add_mul, Nat.one_mul, Nat.add_sub_cancel]
      omega
    rw [hrest, Nat.mul_add_mod', Nat.mod_eq_of_lt hlt]

end Stores

/-- What a successful `append` of `r` bytes to the file `f` leaves: the file has grown by them, and is now `node'`
with the clusters `l`. -/
structure Appended (fs fs' : FAT12FS) (live : κ → Prop) (node : κ → Fat12Inode) (chain : κ → List Nat) (f : κ)
    (src : ByteMap) (r : Nat) (node' : Fat12Inode) (l : List Nat) : Prop where
  isFile : IsFile fs' node' l
  valid : ∀ c ∈ l, IsCluster c
  size : node'.size = (node f).size + r
  location : node'.location = (node f).location
  holds : node'.size ≤ l.length * fs'.clusterSize
  tight : (l.length - 1) * fs'.clusterSize ≤ node'.size
  entry : HasEntry fs' node'.location l
  apart : ∀ g, live g → g ≠ f → (chain g).Disjoint l
  beside : ∀ g, live g → (node g).location.isRoot = false → (node g).location.currentCluster ∉ l
  content : content fs' node' l = content fs (node f) (chain f) ++ tabulate r src

/-- The clusters that a file is extended by belong to no other file, and no directory entry is in one of them. -/
theorem Beside.outside {ns : List Nat} (h : Stores fs live node chain) {location : EntryLocation} {l : List Nat}
    (hbeside : Beside fs fs' location l ns) {g : κ} (hg : live g) :
    (∀ c ∈ chain g, c ∉ ns) ∧ ((node g).location.isRoot = false → (node g).location.currentCluster ∉ ns) :=
  ⟨fun c hc hns =>
      walk_fatTable_ne (h.file g hg).chain.walk (h.file g hg).chain.links c hc (hbeside.free c hns),
    fun hsub hns => (h.entry g hg).allocated hsub (hbeside.free _ hns)⟩

/-- The other files of the volume, after one has been extended. -/
theorem Beside.keeps {ns : List Nat} (h : Stores fs live node chain) (hf : live f)
    (hbeside : Beside fs fs' (node f).location (chain f) ns) (hsame : SameVolume fs fs') {g : κ} (hg : live g)
    (hne : g ≠ f) :
    IsFile fs' (node g) (chain g) ∧ HasEntry fs' (node g).location (chain g) ∧
      content fs' (node g) (chain g) = content fs (node g) (chain g) := by
  obtain ⟨hns, hplace⟩ := hbeside.outside h hg
  have hl : ∀ c ∈ chain g, c ∉ chain f := fun c hc hc' => h.apart g f hg hf hne hc hc'
  have hfile := h.file g hg
  have hentry := h.entry g hg
  refine ⟨⟨by rw [hsame.this]; exact hfile.volume, hfile.regular, ?_, hfile.chain.links⟩, ?_, ?_⟩
  · refine hfile.chain.walk.congr fun c hc => ?_
    rw [fatNext, fatNext, hbeside.table c (hl c hc) (hns c hc)]
  · refine ⟨hentry.cluster, fun hsub => ?_, hentry.apart, by rw [hsame.clusterSize]; exact hentry.inside,
      fun hsub => ?_⟩
    · rw [hbeside.table _ (h.beside g f hg hf hsub) (hplace hsub)]
      exact hentry.allocated hsub
    · exact hbeside.entry _ _ (hentry.cluster hsub).1 (h.beside g f hg hf hsub) (hplace hsub) (hentry.inside hsub)
        (hentry.valid hsub)
  · apply h.chainByte_eq hg hsame
    intro c hc k hk
    refine hbeside.byte c k (hfile.chain.links c hc).1 hk (hl c hc) (hns c hc) fun hsub heq => ?_
    exact h.beside f g hf hg hsub (heq ▸ hc)

/-- `append` puts the bytes behind the file, all of them unless the volume is full, and changes no other file.
It fails if no cluster is free for an empty file. -/
theorem Stores.append (h : Stores fs live node chain) (hf : live f) {n : Nat} (hn : 0 < n) (src : ByteMap)
    (hroom : (node f).size = 0 ∨ (node f).size % fs.clusterSize ≠ 0) :
    (fs.append (some (node f)) src n = .ret (-1, some (node f), fs) ∧ (node f).size = 0 ∧
        fs.allocateCluster = .ret 0) ∨
      ∃ (r : Nat) (node' : Fat12Inode) (fs' : FAT12FS) (ns : List Nat),
        fs.append (some (node f)) src n = .ret (r, some node', fs') ∧ 0 < r ∧ r ≤ n ∧
          (r = n ∨ fs'.allocateCluster = .ret 0) ∧ Coherent fs' ∧ SameVolume fs fs' ∧
          Beside fs fs' (node f).location (chain f) ns ∧
          Appended fs fs' live node chain f src r node' (chain f ++ ns) := by
  rcases append_grows (h.appendable hf) (h.valid f hf) h.count src hn with
    ⟨hfail, hnil, hfull⟩ | ⟨r, node', fs', ns, hrun, hwalk, hbeside, htight⟩
  · have hsize := h.holds f hf
    rw [hnil, List.length_nil, Nat.zero_mul] at hsize
    exact Or.inl ⟨hfail, Nat.le_zero.mp hsize, hfull⟩
  · right
    obtain ⟨ns', r', hr, hgrown, hpos, hle, hfull, hnode⟩ := append_spec (h.appendable hf) hn hrun (by omega)
    obtain rfl : r = r' := Int.ofNat.inj hr
    obtain rfl : ns' = ns := by simpa using hgrown.walk.unique hwalk
    rw [h.end_eq hf hroom] at hgrown htight
    have hcs := hgrown.same.clusterSize
    have hcap := (h.appendable hf).capacity hgrown.walk hgrown.links
    have hfits := hgrown.fits
    have hsize : node'.size = (node f).size + r := by
      rw [hnode]
      exact Nat.mod_eq_of_lt (by omega)
    have hlocation : node'.location = (node f).location := by rw [hnode]
    obtain ⟨-, hplace⟩ := hbeside.outside h hf
    have hentry := h.entry f hf
    have hdirectory : ∀ g, live g → (node g).location.isRoot = false →
        (node g).location.currentCluster ∉ chain f ++ ns' := fun g hg hsub hmem =>
      (List.mem_append.mp hmem).elim (h.beside g f hg hf hsub) ((hbeside.outside h hg).2 hsub)
    refine ⟨r, node', fs', ns', hrun, hpos, hle, hfull, hgrown.coherent, hgrown.same, hbeside, ?_⟩
    have hfile := h.file f hf
    refine ⟨(hgrown.isFile hpos (by rw [hnode]; exact hfile.volume) (by rw [hnode]; exact hfile.regular)).2,
      fun c hc => (List.mem_append.mp hc).elim (h.valid f hf c) (hgrown.fresh c), hsize, hlocation, ?_, ?_, ?_, fun g hg hne => ?_, hdirectory, ?_⟩
    · rw [hsize, hcs]
      exact hfits
    · rw [hsize, hcs, List.length_append]
      exact htight
    · rw [hlocation]
      refine ⟨hentry.cluster, fun hsub => ?_, hdirectory f hf, by rw [hcs]; exact hentry.inside, fun hsub => ?_⟩
      · rw [hbeside.table _ (hentry.apart hsub) (hplace hsub)]
        exact hentry.allocated hsub
      · exact hbeside.entry _ _ (hentry.cluster hsub).1 (hentry.apart hsub) (hplace hsub) (hentry.inside hsub)
          (hentry.valid hsub)
    · rw [List.disjoint_append_right]
      exact ⟨h.apart g f hg hf hne, fun c hc hns => (hbeside.outside h hg).1 c hc hns⟩
    · rw [FAT12FS.content, FAT12FS.content, append_tabulate, hsize]
      apply tabulate_congr
      intro p hp
      by_cases hold : p < (node f).size
      · rw [if_pos hold, hgrown.before p hold]
      · obtain ⟨k, rfl⟩ := Nat.exists_eq_add_of_le (Nat.le_of_not_lt hold)
        rw [if_neg hold, hgrown.written k (by omega), Nat.add_sub_cancel_left]

/-- The files of the volume after an `append`. -/
theorem Appended.stores [DecidableEq κ] {ns : List Nat} {src : ByteMap} {r : Nat} {node' : Fat12Inode}
    (h : Stores fs live node chain) (hf : live f) (hcoh : Coherent fs') (hsame : SameVolume fs fs')
    (hbeside : Beside fs fs' (node f).location (chain f) ns)
    (happended : Appended fs fs' live node chain f src r node' (chain f ++ ns)) :
    Stores fs' live (Function.update node f node') (Function.update chain f (chain f ++ ns)) := by
  have hnode : ∀ g, g ≠ f → Function.update node f node' g = node g := fun g hg => Function.update_of_ne hg _ _
  have hchain : ∀ g, g ≠ f → Function.update chain f (chain f ++ ns) g = chain g :=
    fun g hg => Function.update_of_ne hg _ _
  have hlocation : ∀ g, (Function.update node f node' g).location = (node g).location := fun g => by
    by_cases hg : g = f
    · subst hg
      rw [Function.update_self, happended.location]
    · rw [hnode g hg]
  refine ⟨h.mounted.congr hsame, hcoh, by rw [hsame.bpb]; exact h.accepted, by rw [hsame.bpb]; exact h.small,
    by rw [hsame.clusterCount]; exact h.count, fun g hg => ?_, fun g hg => ?_, fun g hg => ?_, fun g hg => ?_,
    fun g hg => ?_, fun g g' hg hg' hne => ?_, fun g g' hg hg' => ?_⟩
  · by_cases hgf : g = f
    · subst hgf
      rw [Function.update_self, Function.update_self]
      exact happended.isFile
    · rw [hnode g hgf, hchain g hgf]
      exact (hbeside.keeps h hf hsame hg hgf).1
  · by_cases hgf : g = f
    · subst hgf
      rw [Function.update_self]
      exact happended.valid
    · rw [hchain g hgf]
      exact h.valid g hg
  · by_cases hgf : g = f
    · subst hgf
      rw [Function.update_self, Function.update_self]
      exact happended.holds
    · rw [hnode g hgf, hchain g hgf, hsame.clusterSize]
      exact h.holds g hg
  · by_cases hgf : g = f
    · subst hgf
      rw [Function.update_self, Function.update_self]
      exact happended.tight
    · rw [hnode g hgf, hchain g hgf, hsame.clusterSize]
      exact h.tight g hg
  · by_cases hgf : g = f
    · subst hgf
      rw [Function.update_self, Function.update_self]
      exact happended.entry
    · rw [hnode g hgf, hchain g hgf]
      exact (hbeside.keeps h hf hsame hg hgf).2.1
  · by_cases hgf : g = f
    · subst hgf
      rw [Function.update_self, hchain g' (Ne.symm hne)]
      exact (happended.apart g' hg' (Ne.symm hne)).symm
    · by_cases hgf' : g' = f
      · subst hgf'
        rw [Function.update_self, hchain g hgf]
        exact happended.apart g hg hgf
      · rw [hchain g hgf, hchain g' hgf']
        exact h.apart g g' hg hg' hne
  · rw [hlocation]
    by_cases hgf' : g' = f
    · subst hgf'
      rw [Function.update_self]
      exact happended.beside g hg
    · rw [hchain g' hgf']
      exact h.beside g g' hg hg'

end

end SysuOs.FAT12FS
