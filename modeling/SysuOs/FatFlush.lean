import SysuOs.FatAppendLaw

/-! The FAT that `flush_fat_table` leaves on disk. It writes groups of three sectors from the first sector of
the first copy on, and never the second copy on purpose. -/

namespace SysuOs

/-- The checks of `mount` that end it. A FAT whose bytes are no multiple of three is only warned about. -/
def Fat12BPB.accepted (bpb : Fat12BPB) : Bool :=
  bpb.bytesPerSector == 512 && bpb.numFats == 2 &&
    !(bpb.sectorsPerCluster == 0 || 128 < bpb.sectorsPerCluster) &&
    bpb.sectorsPerCluster &&& (bpb.sectorsPerCluster - 1) == 0

namespace FAT12FS

/-- The bytes of a copy of the FAT on disk; the first one has number 0. -/
def copyBytes (fs : FAT12FS) (copy : Nat) : ByteMap :=
  fun k => fs.device.sector (fs.bpb.reservedSectorCount + copy * fs.bpb.fatSize16 + k / 512) (k % 512)

/-- Every entry that lies in the first `sectors` sectors is that of the table. -/
def Encodes (bytes : ByteMap) (table : Nat → Nat) (sectors : Nat) : Prop :=
  ∀ i, i + i / 2 + 1 < 512 * sectors → packedEntry bytes i = table i % 4096

/-- The sector belongs to neither copy of the FAT. -/
def OutsideFats (fs : FAT12FS) (s : Nat) : Prop :=
  s < fs.bpb.reservedSectorCount ∨ fs.bpb.reservedSectorCount + fs.bpb.numFats * fs.bpb.fatSize16 ≤ s

theorem copyBytes_zero (fs : FAT12FS) : fs.copyBytes 0 = fs.fatBytes := by
  funext k
  rw [copyBytes, fatBytes, Nat.zero_mul, Nat.add_zero]

/-- The table is written to the sectors of the first copy, and to no sector from the next group of three on. -/
theorem flushFatTable_writes {fs : FAT12FS} (hio : fs.device.Reliable) :
    ∃ fs', fs.flushFatTable = (true, fs') ∧ fs'.bpb = fs.bpb ∧ fs'.fatTable = fs.fatTable ∧
      (∀ i, i < 1024 * ((fs.bpb.fatSize16 + 2) / 3) → packedEntry (fs'.copyBytes 0) i = fs.fatTable i % 4096) ∧
      ∀ s, (s < fs.bpb.reservedSectorCount ∨
          fs.bpb.reservedSectorCount + 3 * ((fs.bpb.fatSize16 + 2) / 3) ≤ s) →
        fs'.device.sector s = fs.device.sector s := by
  obtain ⟨sector, r, t, hrun, htable, hrest⟩ := flushFatTable_spec hio
  refine ⟨_, hrun, rfl, rfl, ?_, hrest⟩
  intro i hi
  rw [copyBytes_zero]
  exact htable i hi

/-- `flush_fat_table` of a FAT of `3 * k` sectors puts every entry of the table where the format has it. -/
theorem flushFatTable_encodes {fs : FAT12FS} {k : Nat} (hio : fs.device.Reliable)
    (hsize : fs.bpb.fatSize16 = 3 * k) (hfits : fs.bpb.fatSize16 ≤ 12)
    (hentries : ∀ i, i < FAT12_MAX_CLUSTERS → fs.fatTable i < 4096) :
    ∃ fs', fs.flushFatTable = (true, fs') ∧ fs'.bpb = fs.bpb ∧
      ∀ i, i < 1024 * k → packedEntry (fs'.copyBytes 0) i = fs.fatTable i := by
  obtain ⟨fs', hrun, hbpb, -, htable, -⟩ := flushFatTable_writes hio
  have hgroups : (fs.bpb.fatSize16 + 2) / 3 = k := by omega
  rw [hgroups] at htable
  refine ⟨fs', hrun, hbpb, ?_⟩
  intro i hi
  have hlt : i < FAT12_MAX_CLUSTERS := by
    simp only [FAT12_MAX_CLUSTERS]
    omega
  rw [htable i hi]
  exact Nat.mod_eq_of_lt (hentries i hlt)

/-- What `flush_fat_table` does to the disk: the first copy holds the table; nothing outside the two copies
changes unless the FAT is a single sector, and the second copy is left alone where the groups of three
sectors end with the first. -/
theorem flushFatTable_firstCopy {fs : FAT12FS} (hio : fs.device.Reliable) (hbpb : fs.bpb.accepted = true)
    (hpos : 1 ≤ fs.bpb.fatSize16) (hfits : fs.bpb.fatSize16 ≤ 12) :
    ∃ fs', fs.flushFatTable = (true, fs') ∧ fs'.bpb = fs.bpb ∧
      Encodes (fs'.copyBytes 0) fs.fatTable fs.bpb.fatSize16 ∧
      (2 ≤ fs.bpb.fatSize16 → ∀ s, fs.OutsideFats s → fs'.device.sector s = fs.device.sector s) ∧
      (fs.bpb.fatSize16 % 3 = 0 → fs'.copyBytes 1 = fs.copyBytes 1) := by
  obtain ⟨fs', hrun, hbpb', -, htable, hrest⟩ := flushFatTable_writes hio
  have hfats : fs.bpb.numFats = 2 := by
    simp only [Fat12BPB.accepted, Bool.and_eq_true, beq_iff_eq] at hbpb
    exact hbpb.1.1.2
  refine ⟨fs', hrun, hbpb', ?_, ?_, ?_⟩
  · intro i hi
    apply htable
    omega
  · intro hsize s hs
    apply hrest
    rw [OutsideFats, hfats] at hs
    omega
  · intro hsize
    funext k
    rw [copyBytes, copyBytes, hbpb', hrest]
    omega

theorem oneCluster_reliable : oneCluster.device.Reliable := fun _ => rfl

theorem flushFatTable_encodes_oneCluster : ∃ fs', oneCluster.flushFatTable = (true, fs') ∧
    fs'.bpb = oneCluster.bpb ∧
      ∀ i, i < 1024 * 1 → packedEntry (fs'.copyBytes 0) i = oneCluster.fatTable i := by
  refine flushFatTable_encodes oneCluster_reliable rfl (by decide) ?_
  intro i _
  simp only [oneCluster]
  split <;> decide

theorem flushFatTable_firstCopy_oneCluster : ∃ fs', oneCluster.flushFatTable = (true, fs') ∧
    fs'.bpb = oneCluster.bpb ∧ Encodes (fs'.copyBytes 0) oneCluster.fatTable oneCluster.bpb.fatSize16 ∧
      (2 ≤ oneCluster.bpb.fatSize16 →
        ∀ s, oneCluster.OutsideFats s → fs'.device.sector s = oneCluster.device.sector s) ∧
      (oneCluster.bpb.fatSize16 % 3 = 0 → fs'.copyBytes 1 = oneCluster.copyBytes 1) :=
  flushFatTable_firstCopy oneCluster_reliable (by decide) (by decide) (by decide)

/-- The mark is not in the second copy. -/
theorem not_encodes_second : oneCluster.bpb.accepted = true ∧ ∃ fs', oneCluster.flushFatTable = (true, fs') ∧
    ¬ Encodes (fs'.copyBytes 1) oneCluster.fatTable oneCluster.bpb.fatSize16 := by
  obtain ⟨fs', hrun, hbpb, -, -, hrest⟩ := flushFatTable_writes oneCluster_reliable
  refine ⟨by decide, fs', hrun, ?_⟩
  intro hencodes
  have hsecond : fs'.copyBytes 1 = fun _ => 0 := by
    funext k
    rw [copyBytes, hbpb, hrest]
    · rfl
    · right
      change 1 + 3 * 1 ≤ 1 + 1 * 3 + k / 512
      omega
  have hmark := hencodes 2 (by decide)
  rw [hsecond] at hmark
  exact absurd hmark (by decide)

end FAT12FS

end SysuOs
