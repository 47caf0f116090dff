import SysuOs.FatFlush

/-! `read` at any offset of a file. The chunks of its last loop are counted in a `uint16`: a chunk of a whole
cluster of 65536 bytes is counted as none, and its bytes are passed over. And the loops go on to clusters from
0xFF0 on, which `get_cache` refuses. -/

namespace SysuOs.FAT12FS

/-- `read` of `size` bytes from `offset` on yields what the file has of them. -/
def ReadsRight (fs : FAT12FS) (node : Fat12Inode) (l : List Nat) (out : ByteMap) (size offset : Nat) : Prop :=
  ∃ out' fs', fs.read (some node) out size offset = .ret ((min size (node.size - offset) : Nat), out', fs') ∧
    ∀ k, k < min size (node.size - offset) → out' k = fs.chainByte l (offset + k)

/-- A request for `size` bytes at an offset inside a file whose clusters hold it. -/
structure Request (fs : FAT12FS) (node : Fat12Inode) (l : List Nat) (size offset : Nat) : Prop where
  mounted : Mounted fs
  coherent : Coherent fs
  accepted : fs.bpb.accepted = true
  file : IsFile fs node l
  held : node.size ≤ l.length * fs.clusterSize
  inside : offset < node.size
  positive : 0 < size
  int : size < 2 ^ 31

theorem Fat12BPB.sectorsPerCluster_le {bpb : Fat12BPB} (h : bpb.accepted = true) : bpb.sectorsPerCluster ≤ 128 := by
  simp only [Fat12BPB.accepted, Bool.and_eq_true, Bool.not_eq_true', Bool.or_eq_false_iff,
    decide_eq_false_iff_not] at h
  exact Nat.not_lt.mp h.1.2.2

namespace Request

variable {fs : FAT12FS} {node : Fat12Inode} {l : List Nat} {size offset : Nat}

theorem clusterSize_le (h : Request fs node l size offset) : fs.clusterSize ≤ 2 ^ 16 := by
  have hspc := Fat12BPB.sectorsPerCluster_le h.accepted
  rw [h.mounted.clusterSize]
  omega

theorem size_lt (h : Request fs node l size offset) : node.size < 2 ^ 29 := by
  have hlen := length_lt h.file.chain.walk h.file.chain.links
  have hle := Nat.mul_le_mul (Nat.le_of_lt hlen) h.clusterSize_le
  have hheld := h.held
  simp only [FAT12_MAX_CLUSTERS] at hle
  omega

theorem start_ge (h : Request fs node l size offset) : 2 ≤ node.startCluster := by
  refine h.file.start_ge fun hl => ?_
  have hheld := h.held
  have hinside := h.inside
  rw [hl, List.length_nil, Nat.zero_mul] at hheld
  omega

theorem node_valid (h : Request fs node l size offset) : ¬(node.startCluster < 2 ∨ node.fat12Fs ≠ fs.this) := by
  rintro (hlow | hother)
  · have := h.start_ge
    omega
  · exact hother h.file.volume

/-- The part of the request that the file has. -/
theorem part (h : Request fs node l size offset) :
    (if u32 ((size : Int) + offset) > node.size then u32 ((node.size : Int) - offset) else (size : Int).toNat) =
      min size (node.size - offset) := by
  have hsize := h.size_lt
  have hint := h.int
  have hinside := h.inside
  rw [u32, u32]
  split <;> omega

end Request

/-- A chunk of a whole cluster of 65536 bytes is counted as none. -/
theorem readLoop_stuck {m : List Nat} {fs : FAT12FS} {v fuel : Nat} (size readSize : Nat) (out : ByteMap)
    (hm : Mounted fs) (hcoh : Coherent fs) (hcs : fs.clusterSize = 2 ^ 16)
    (hwalk : Walk (fatNext fs.fatTable) (follow v) m) (hlinks : ∀ c ∈ m, InChain c)
    (hbig : 2 ^ 16 ≤ size) (hsize : size < 2 ^ 31) (hfuel : m.length < fuel) :
    ∃ out' fs', fs.readLoop fuel v size readSize out = .ret (readSize, out', fs') := by
  induction m generalizing fs v fuel out with
  | nil =>
      obtain ⟨fuel, rfl⟩ : ∃ n, fuel = n + 1 := ⟨fuel - 1, by omega⟩
      have hend : ¬(IntPos size ∧ v ≥ 2 ∧ v < 0xFF8) := by
        intro hgo
        rw [Walk.nil_iff, follow, if_neg (by omega)] at hwalk
        cases hwalk
      exact ⟨out, fs, by rw [readLoop, if_neg hend]; rfl⟩
  | cons c m ih =>
      obtain ⟨fuel, rfl⟩ : ∃ n, fuel = n + 1 := ⟨fuel - 1, by omega⟩
      obtain ⟨hhead, htail⟩ := hwalk
      obtain rfl : v = c := by
        rw [follow] at hhead
        split at hhead
        · cases hhead
        · exact Option.some.inj hhead
      have hv := hlinks v List.mem_cons_self
      have hgo : IntPos size ∧ v ≥ 2 ∧ v < 0xFF8 := ⟨⟨by omega, hsize⟩, hv.1, hv.2⟩
      rw [readLoop, if_pos hgo]
      by_cases hc : IsCluster v
      · obtain ⟨i, fs₁, fs₂, hget, hrel, -, hsame₁, -, hcoh₂, hsame₂, htable₂, -⟩ := readCache_spec hm hcoh hc
        have hchunk : min size fs₁.clusterSize % 2 ^ 16 = 0 := by
          rw [hsame₁.clusterSize, hcs, Nat.min_eq_right hbig, Nat.mod_self]
        rw [hget]
        simp only [Outcome.ret_bind, hchunk, hrel, Nat.sub_zero, Nat.add_zero]
        apply ih
        · exact hm.congr hsame₂
        · exact hcoh₂
        · rw [hsame₂.clusterSize, hcs]
        · rw [htable₂]
          exact htail
        · exact fun d hd => hlinks d (List.mem_cons_of_mem v hd)
        · rw [List.length_cons] at hfuel
          omega
      · rw [getCache_refused hc]
        exact ⟨out, fs, rfl⟩

/-- Of a request that goes a whole cluster of 65536 bytes beyond the first, the first is all that is read. -/
theorem readFrom_stuck {fs : FAT12FS} {node : Fat12Inode} {l : List Nat} {size offset : Nat} (out : ByteMap)
    (hm : Mounted fs) (hcoh : Coherent fs) (hcs : fs.clusterSize = 2 ^ 16)
    (hbig : fs.clusterSize - offset % fs.clusterSize + 2 ^ 16 ≤ size) (hchain : Linked fs node.startCluster l)
    (hserved : Served fs.clusterSize l offset size) (hsize : size < 2 ^ 31)
    (hoff : offset < l.length * fs.clusterSize) :
    ∃ out' fs', fs.readFrom node out size offset =
      .ret ((fs.clusterSize - offset % fs.clusterSize : Nat), out', fs') := by
  have hpos := hm.clusterSize_pos
  obtain ⟨pre, c, m, rfl, hoffset, hwalk⟩ := hchain.at_offset hoff
  have hmod : offset % fs.clusterSize < fs.clusterSize := Nat.mod_lt _ hpos
  generalize offset % fs.clusterSize = off at hoffset hmod hbig ⊢
  subst hoffset
  have hskip := skipLoop_spec hpos hwalk (fun c hc => hchain.links c (List.mem_append_left _ hc)) hmod
    (Nat.lt_succ_self _)
  obtain ⟨hfirst, -⟩ := (served_cons hmod).mp ((served_append hpos).mp hserved)
  obtain ⟨i, fs₁, fs₂, hget, hrel, -, hsame₁, -, hcoh₂, hsame₂, htable₂, -⟩ :=
    readCache_spec hm hcoh (hfirst (by omega))
  have hlen := length_lt hchain.walk hchain.links
  have hlong : ¬ size < fs.clusterSize - off := by omega
  rw [readFrom, hskip]
  simp only [Outcome.ret_bind, hget, hsame₁.clusterSize, hlong, if_false, hrel]
  apply readLoop_stuck (m := m)
  · exact hm.congr hsame₂
  · exact hcoh₂
  · rw [hsame₂.clusterSize, hcs]
  · rw [htable₂]
    exact hwalk.suffix.2
  · exact fun d hd => hchain.links d (by simp [hd])
  · omega
  · omega
  · simp only [List.length_append, List.length_cons] at hlen
    omega

/-- The arguments of a request pass the checks of `read`. -/
theorem Request.read_eq {fs : FAT12FS} {node : Fat12Inode} {l : List Nat} {size offset : Nat}
    (h : Request fs node l size offset) (out : ByteMap) :
    fs.read (some node) out size offset = fs.readFrom node out (min size (node.size - offset)) offset := by
  have hsize := h.size_lt
  have hinside := h.inside
  have hvalid : ¬(node.startCluster < 2 ∨ node.fat12Fs ≠ fs.this) := h.node_valid
  have hoffset : ¬ u32 (offset : Int) ≥ node.size := by
    rw [u32]
    omega
  have hpos : ¬(size : Int) ≤ 0 := by
    have := h.positive
    omega
  rw [read]
  simp only [if_neg hvalid, if_neg hoffset, if_neg hpos, if_neg h.file.regular]
  rw [if_neg (by omega), h.part, Int.toNat_natCast]

/-- A whole cluster of 65536 bytes after the first is passed over. -/
theorem Request.not_readsRight {fs : FAT12FS} {node : Fat12Inode} {l : List Nat} {size offset : Nat}
    (h : Request fs node l size offset) (hcs : fs.clusterSize = 2 ^ 16)
    (hserved : Served fs.clusterSize l offset (min size (node.size - offset)))
    (hlong : fs.clusterSize - offset % fs.clusterSize + 2 ^ 16 ≤ min size (node.size - offset)) (out : ByteMap) :
    ¬ ReadsRight fs node l out size offset := by
  rintro ⟨out', fs', hrun, -⟩
  have hheld := h.held
  have hinside := h.inside
  have hint := h.int
  obtain ⟨out'', fs'', hstuck⟩ := readFrom_stuck out h.mounted h.coherent hcs hlong h.file.chain hserved
    (by omega) (by omega)
  rw [h.read_eq, hstuck] at hrun
  have hret := congrArg Prod.fst (Outcome.ret.inj hrun)
  have hcount := Int.ofNat.inj hret
  omega

/-- What is in a cluster that `get_cache` does not take is not read. -/
theorem Request.served {fs : FAT12FS} {node : Fat12Inode} {l : List Nat} {size offset : Nat}
    (h : Request fs node l size offset) {out : ByteMap} (hright : ReadsRight fs node l out size offset) :
    Served fs.clusterSize l offset (min size (node.size - offset)) := by
  by_contra hserved
  obtain ⟨out', fs', hrun, -⟩ := hright
  have hheld := h.held
  have hinside := h.inside
  have hint := h.int
  obtain ⟨r, out'', fs'', hshort, hr⟩ := readFrom_short out h.mounted h.coherent h.file.chain hserved (by omega)
    (by omega)
  rw [h.read_eq, hshort] at hrun
  exact hr (congrArg Prod.fst (Outcome.ret.inj hrun))

/-- `read` yields what the file has of a request just when the clusters are smaller than 65536 bytes or the
request ends before a whole cluster has been passed after the first, and `get_cache` takes the clusters that hold
it. -/
theorem readsRight_iff {fs : FAT12FS} {node : Fat12Inode} {l : List Nat} {size offset : Nat}
    (h : Request fs node l size offset) (out : ByteMap) :
    ReadsRight fs node l out size offset ↔
      (fs.bpb.sectorsPerCluster < 128 ∨
        min size (node.size - offset) < fs.clusterSize - offset % fs.clusterSize + 2 ^ 16) ∧
      Served fs.clusterSize l offset (min size (node.size - offset)) := by
  have hcs := h.mounted.clusterSize
  have hle := h.clusterSize_le
  constructor
  · intro hright
    have hserved := h.served hright
    refine ⟨?_, hserved⟩
    by_contra hnot
    obtain ⟨hbig, hlong⟩ := not_or.mp hnot
    exact h.not_readsRight (by omega) hserved (Nat.not_lt.mp hlong) out hright
  · rintro ⟨hfits, hserved⟩
    have hbig : fs.clusterSize < 2 ^ 16 ∨
        min size (node.size - offset) < fs.clusterSize - offset % fs.clusterSize + 2 ^ 16 := by
      rcases hfits with hsmall | hshort
      · left
        omega
      · exact Or.inr hshort
    have hheld := h.held
    have hinside := h.inside
    have hpos := h.positive
    have hint := h.int
    obtain ⟨out', fs', hrun, -, -, -, -, hbytes⟩ := readFrom_spec out h.mounted h.coherent hbig h.file.chain
      hserved (by omega) (by omega) (by omega : offset < l.length * fs.clusterSize)
    have hmin : min (min size (node.size - offset)) (l.length * fs.clusterSize - offset) =
        min size (node.size - offset) := by omega
    rw [hmin] at hrun hbytes
    rw [ReadsRight, h.read_eq]
    exact ⟨out', fs', hrun, hbytes⟩

theorem oneCluster_request : Request oneCluster (fileOfSize 100) [2] 50 60 where
  mounted := (oneCluster_appendable (by decide : 100 ≤ 512)).mounted
  coherent := (oneCluster_appendable (by decide : 100 ≤ 512)).coherent
  accepted := by decide
  file := (oneCluster_appendable (by decide : 100 ≤ 512)).file
  held := by decide
  inside := by decide
  positive := by decide
  int := by decide

theorem readsRight_iff_oneCluster : ReadsRight oneCluster (fileOfSize 100) [2] (fun _ => 0) 50 60 ↔
    (oneCluster.bpb.sectorsPerCluster < 128 ∨ min 50 ((fileOfSize 100).size - 60) <
      oneCluster.clusterSize - 60 % oneCluster.clusterSize + 2 ^ 16) ∧
    Served oneCluster.clusterSize [2] 60 (min 50 ((fileOfSize 100).size - 60)) :=
  readsRight_iff oneCluster_request _

/-- A volume with clusters of 65536 bytes and one file, of the clusters 2, 3 and 4. -/
def largeClusters : FAT12FS :=
  { oneCluster with
    bpb := { oneCluster.bpb with sectorsPerCluster := 128 }
    clusterSize := 65536
    fatTable := fun i => if i = 2 then 3 else if i = 3 then 4 else if i = 4 then 0xFFF else 0 }

theorem largeClusters_valid : ∀ c ∈ [2, 3, 4], IsCluster c := by
  intro c hc
  simp only [List.mem_cons, List.not_mem_nil, or_false] at hc
  rcases hc with rfl | rfl | rfl <;> exact ⟨by decide, by decide⟩

theorem largeClusters_request : Request largeClusters (fileOfSize 196608) [2, 3, 4] 196608 0 := by
  have hempty : ∀ i, ¬2 ≤ (largeClusters.cachePool i).clusterNum := fun _ => Nat.not_succ_le_zero 1
  have hattr : ¬IsSpecial 0x20 := by decide
  refine ⟨⟨fun _ => rfl, rfl, by decide, rfl, by decide, rfl⟩, ⟨fun _ _ => rfl, fun _ _ => rfl,
    fun i _ hi => absurd hi (hempty i), fun i _ _ _ hi => absurd hi (hempty i)⟩, by decide,
    ⟨rfl, hattr, ⟨⟨rfl, rfl, rfl, rfl⟩, fun c hc => (largeClusters_valid c hc).inChain⟩⟩, by decide, by decide,
    by decide, by decide⟩

/-- Of a file of three such clusters the first is all that is read. -/
theorem not_readsRight_largeClusters : Request largeClusters (fileOfSize 196608) [2, 3, 4] 196608 0 ∧
    ∀ out, ¬ ReadsRight largeClusters (fileOfSize 196608) [2, 3, 4] out 196608 0 :=
  ⟨largeClusters_request, largeClusters_request.not_readsRight rfl
    (.of_valid largeClusters_valid) (by decide)⟩

end SysuOs.FAT12FS
