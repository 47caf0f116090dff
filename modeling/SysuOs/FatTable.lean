import Mathlib
import SysuOs.FatModel

/-! The two codings of the FAT. `packedEntry` is what the format says an entry is; the writer puts
each entry of the table there, while the reader takes only the first quarter of every group of three
sectors. -/

namespace SysuOs

/-- The `i`-th entry of a table of 12-bit little-endian entries. -/
def packedEntry (bytes : ByteMap) (i : Nat) : Nat :=
  let word := (bytes (i + i / 2)).toNat + 256 * (bytes (i + i / 2 + 1)).toNat
  if i % 2 = 0 then word % 4096 else word / 16

theorem packedEntry_even (bytes : ByteMap) (m : Nat) : packedEntry bytes (2 * m) =
    (bytes (3 * m)).toNat + 256 * ((bytes (3 * m + 1)).toNat % 16) := by
  have hoff : 2 * m + 2 * m / 2 = 3 * m := by omega
  have hlt := (bytes (3 * m)).isLt
  rw [packedEntry, hoff, if_pos (by omega)]
  omega

theorem packedEntry_odd (bytes : ByteMap) (m : Nat) : packedEntry bytes (2 * m + 1) =
    (bytes (3 * m + 1)).toNat / 16 + 16 * (bytes (3 * m + 2)).toNat := by
  have hoff : 2 * m + 1 + (2 * m + 1) / 2 = 3 * m + 1 := by omega
  have hnext : 3 * m + 1 + 1 = 3 * m + 2 := by omega
  rw [packedEntry, hoff, hnext, if_neg (by omega)]
  omega

/-- Entries of a table are those of any of its groups of three sectors. -/
theorem packedEntry_shift (bytes : ByteMap) (g i : Nat) :
    packedEntry (bytesFrom bytes (1536 * g)) i = packedEntry bytes (1024 * g + i) := by
  rcases Nat.mod_two_eq_zero_or_one i with hi | hi
  · obtain ⟨m, rfl⟩ : ∃ m, i = 2 * m := ⟨i / 2, by omega⟩
    have hsum : 1024 * g + 2 * m = 2 * (512 * g + m) := by ring
    have hpos : 1536 * g + 3 * m = 3 * (512 * g + m) := by ring
    rw [hsum, packedEntry_even, packedEntry_even, bytesFrom, bytesFrom, ← Nat.add_assoc, hpos]
  · obtain ⟨m, rfl⟩ : ∃ m, i = 2 * m + 1 := ⟨i / 2, by omega⟩
    have hsum : 1024 * g + (2 * m + 1) = 2 * (512 * g + m) + 1 := by ring
    have hpos : 1536 * g + 3 * m = 3 * (512 * g + m) := by ring
    rw [hsum, packedEntry_odd, packedEntry_odd, bytesFrom, bytesFrom, ← Nat.add_assoc, ← Nat.add_assoc,
      hpos]

/-- The entries of a group determine its bytes. -/
theorem bytes_eq_of_packedEntry {a b : ByteMap} {n : Nat}
    (h : ∀ i, i < 2 * n → packedEntry a i = packedEntry b i) : ∀ k, k < 3 * n → a k = b k := by
  intro k hk
  have heven := h (2 * (k / 3)) (by omega)
  have hodd := h (2 * (k / 3) + 1) (by omega)
  rw [packedEntry_even, packedEntry_even] at heven
  rw [packedEntry_odd, packedEntry_odd] at hodd
  have ha₀ := (a (3 * (k / 3))).isLt
  have hb₀ := (b (3 * (k / 3))).isLt
  apply BitVec.eq_of_toNat_eq
  have hcase : k = 3 * (k / 3) ∨ k = 3 * (k / 3) + 1 ∨ k = 3 * (k / 3) + 2 := by omega
  have ha₁ := (a (3 * (k / 3) + 1)).isLt
  have hb₁ := (b (3 * (k / 3) + 1)).isLt
  rcases hcase with hk' | hk' | hk' <;> rw [hk'] <;> omega

namespace FAT12FS

/-! ### One entry -/

theorem and_fifteen (n : Nat) : n &&& 0x0F = n % 16 := Nat.and_two_pow_sub_one_eq_mod n 4

theorem decodeEntry_eq {buf : ByteMap} {j idx : Nat} (h : idx % 2 = j % 2) :
    decodeEntry buf j idx = packedEntry buf j := by
  have hand : idx &&& 1 = idx % 2 := Nat.and_one_is_mod idx
  rw [decodeEntry, hand, h]
  rcases Nat.mod_two_eq_zero_or_one j with hj | hj
  · obtain ⟨m, rfl⟩ : ∃ m, j = 2 * m := ⟨j / 2, by omega⟩
    have hoff : 2 * m + 2 * m / 2 = 3 * m := by omega
    have hlt : (buf (3 * m)).toNat < 2 ^ 8 := (buf (3 * m)).isLt
    simp only [hoff, hj, if_true]
    rw [packedEntry_even, and_fifteen, Nat.or_comm, ← Nat.shiftLeft_add_eq_or_of_lt hlt,
      Nat.shiftLeft_eq]
    omega
  · obtain ⟨m, rfl⟩ : ∃ m, j = 2 * m + 1 := ⟨j / 2, by omega⟩
    have hoff : 2 * m + 1 + (2 * m + 1) / 2 = 3 * m + 1 := by omega
    have hlt : (buf (3 * m + 1)).toNat >>> 4 < 2 ^ 4 := by
      have := (buf (3 * m + 1)).isLt
      rw [Nat.shiftRight_eq_div_pow]
      omega
    simp only [hoff, hj, one_ne_zero, if_false]
    rw [packedEntry_odd, Nat.or_comm, ← Nat.shiftLeft_add_eq_or_of_lt hlt, Nat.shiftLeft_eq,
      Nat.shiftRight_eq_div_pow]
    have hnext : 3 * m + 1 + 1 = 3 * m + 2 := by omega
    rw [hnext]
    omega

/-- The low half of a byte is exchanged. -/
theorem toNat_low (b : Byte) (x : Nat) :
    ((b &&& 0xF0#8) ||| BitVec.ofNat 8 (x &&& 0x0F)).toNat = b.toNat / 16 * 16 + x % 16 := by
  have hb := b.isLt
  have hmask : ∀ n, n < 256 → n &&& 240 = (n / 16) <<< 4 := by decide +kernel
  have hx : x % 16 < 2 ^ 4 := Nat.mod_lt _ (by decide)
  have hsmall : x % 16 % 2 ^ 8 = x % 16 := Nat.mod_eq_of_lt (by omega)
  have hconst : (0xF0#8).toNat = 240 := rfl
  rw [BitVec.toNat_or, BitVec.toNat_and, hconst, hmask _ hb, BitVec.toNat_ofNat, and_fifteen, hsmall, ← Nat.shiftLeft_add_eq_or_of_lt hx, Nat.shiftLeft_eq]

/-- The high half of a byte is exchanged. -/
theorem toNat_high (b : Byte) (x : Nat) :
    ((b &&& 0x0F#8) ||| BitVec.ofNat 8 ((x <<< 4) &&& 0xF0)).toNat = b.toNat % 16 + x % 16 * 16 := by
  have hmask : (x <<< 4) &&& 0xF0 = (x % 16) <<< 4 := by
    have hconst : 0xF0 = 0x0F <<< 4 := rfl
    rw [hconst, ← Nat.shiftLeft_and_distrib, and_fifteen]
  have hb : b.toNat % 16 < 2 ^ 4 := Nat.mod_lt _ (by decide)
  have hsmall : (x % 16) <<< 4 % 2 ^ 8 = (x % 16) <<< 4 := by
    rw [Nat.shiftLeft_eq]
    omega
  have hconst : (0x0F#8).toNat = 0x0F := rfl
  rw [BitVec.toNat_or, BitVec.toNat_and, hconst, and_fifteen, BitVec.toNat_ofNat, hmask, hsmall,
    Nat.or_comm, ← Nat.shiftLeft_add_eq_or_of_lt hb, Nat.shiftLeft_eq]
  omega

theorem encodeEntry_even (value m : Nat) {idx : Nat} (buf : ByteMap) (h : idx % 2 = 0) (k : Nat) :
    (encodeEntry value (2 * m) idx buf k).toNat =
      if k = 3 * m then value % 256
      else if k = 3 * m + 1 then (buf k).toNat / 16 * 16 + value / 256 % 16 else (buf k).toNat := by
  have hoff : 2 * m + 2 * m / 2 = 3 * m := by omega
  have hand : idx &&& 1 = 0 := by rw [Nat.and_one_is_mod, h]
  have hlow : (BitVec.ofNat 8 (value &&& 0xFF)).toNat = value % 256 := by
    rw [BitVec.toNat_ofNat, Nat.and_two_pow_sub_one_eq_mod value 8, Nat.mod_mod]
  have hhigh : ((buf (3 * m + 1) &&& 0xF0#8) ||| BitVec.ofNat 8 ((value >>> 8) &&& 0x0F)).toNat =
      (buf (3 * m + 1)).toNat / 16 * 16 + value / 256 % 16 := by
    rw [toNat_low, Nat.shiftRight_eq_div_pow]
  rw [encodeEntry, hand, hoff]
  by_cases hk : k = 3 * m + 1
  · subst hk
    simpa using hhigh
  · by_cases hk' : k = 3 * m
    · subst hk'
      simpa using hlow
    · simp [hk, hk']

theorem encodeEntry_odd (value m : Nat) {idx : Nat} (buf : ByteMap) (h : idx % 2 = 1) (k : Nat) :
    (encodeEntry value (2 * m + 1) idx buf k).toNat =
      if k = 3 * m + 1 then (buf k).toNat % 16 + value % 16 * 16
      else if k = 3 * m + 2 then value / 16 % 256 else (buf k).toNat := by
  have hoff : 2 * m + 1 + (2 * m + 1) / 2 = 3 * m + 1 := by omega
  have hand : idx &&& 1 = 1 := by rw [Nat.and_one_is_mod, h]
  have hhigh : (BitVec.ofNat 8 ((value >>> 4) &&& 0xFF)).toNat = value / 16 % 256 := by
    rw [BitVec.toNat_ofNat, Nat.and_two_pow_sub_one_eq_mod _ 8, Nat.mod_mod,
      Nat.shiftRight_eq_div_pow]
  have hlow := toNat_high (buf (3 * m + 1)) value
  rw [encodeEntry, hand, hoff]
  by_cases hk : k = 3 * m + 2
  · subst hk
    simpa using hhigh
  · by_cases hk' : k = 3 * m + 1
    · subst hk'
      simpa using hlow
    · simp [hk, hk']

/-- Writing an entry changes that entry and no other. -/
theorem packedEntry_encodeEntry {value j idx i : Nat} {buf : ByteMap} (h : idx % 2 = j % 2) :
    packedEntry (encodeEntry value j idx buf) i =
      if i = j then value % 4096 else packedEntry buf i := by
  rcases Nat.even_or_odd' j with ⟨m, rfl | rfl⟩ <;> rcases Nat.even_or_odd' i with ⟨l, rfl | rfl⟩
  · have hbyte := encodeEntry_even value m buf (by omega : idx % 2 = 0)
    rw [packedEntry_even, packedEntry_even, hbyte, hbyte]
    split_ifs <;> omega
  · have hbyte := encodeEntry_even value m buf (by omega : idx % 2 = 0)
    rw [packedEntry_odd, packedEntry_odd, hbyte, hbyte]
    split_ifs <;> omega
  · have hbyte := encodeEntry_odd value m buf (by omega : idx % 2 = 1)
    rw [packedEntry_even, packedEntry_even, hbyte, hbyte]
    split_ifs <;> omega
  · have hbyte := encodeEntry_odd value m buf (by omega : idx % 2 = 1)
    rw [packedEntry_odd, packedEntry_odd, hbyte, hbyte]
    split_ifs <;> omega

/-! ### The loops -/

theorem packedEntry_encodeLoop {table : Nat → Nat} {n j idx i : Nat} {buf : ByteMap}
    (h : idx % 2 = j % 2) : packedEntry (encodeLoop table n j idx buf) i =
      if j ≤ i ∧ i < j + n then table (idx + (i - j)) % 4096 else packedEntry buf i := by
  induction n generalizing j idx buf with
  | zero => rw [encodeLoop, if_neg (by omega)]
  | succ n ih =>
      rw [encodeLoop, ih (by omega), packedEntry_encodeEntry h]
      by_cases hi : i = j
      · rw [if_neg (by omega), if_pos hi, if_pos (by omega), hi, Nat.sub_self, Nat.add_zero]
      · rw [if_neg hi]
        by_cases hin : j + 1 ≤ i ∧ i < j + 1 + n
        · have hsub : idx + 1 + (i - (j + 1)) = idx + (i - j) := by omega
          rw [if_pos hin, if_pos (by omega), hsub]
        · rw [if_neg hin, if_neg (by omega)]

theorem decodeLoop_eq (buf : ByteMap) (n : Nat) {j idx : Nat} (table : Nat → Nat)
    (h : idx % 2 = j % 2) (i : Nat) : decodeLoop buf n j idx table i =
      if idx ≤ i ∧ i < idx + n then packedEntry buf (j + (i - idx)) else table i := by
  induction n generalizing j idx table with
  | zero => rw [decodeLoop, if_neg (by omega)]
  | succ n ih =>
      rw [decodeLoop, ih _ (by omega)]
      by_cases hi : i = idx
      · rw [if_neg (by omega), if_pos (by omega), hi, Function.update_self, Nat.sub_self, Nat.add_zero,
          decodeEntry_eq h]
      · rw [Function.update_of_ne hi]
        by_cases hin : idx + 1 ≤ i ∧ i < idx + 1 + n
        · have hsub : j + 1 + (i - (idx + 1)) = j + (i - idx) := by omega
          rw [if_pos hin, if_pos (by omega), hsub]
        · rw [if_neg hin, if_neg (by omega)]

/-! ### Sectors and groups of three sectors -/

end FAT12FS

/-- No request to the drive fails. -/
def Disk.Reliable (d : Disk) : Prop := ∀ n, d.fails n = false

namespace Disk

theorem Reliable.served {d : Disk} (h : d.Reliable) (sector : Nat → ByteMap) (requests : Nat) :
    Reliable { sector, fails := d.fails, requests } := h

variable {d : Disk}

theorem ideReadSector_ok (h : d.Reliable) (lba : Nat) (buf : ByteMap) (pos : Nat) :
    d.ideReadSector lba buf pos = (true, { d with requests := d.requests + 1 },
      memcpy buf pos (d.sector lba) FAT12_SECTOR_SIZE) := by
  rw [ideReadSector, h, if_neg (by simp)]

/-- The sectors of a drive after one of them has been written. -/
def putSector (sector : Nat → ByteMap) (lba : Nat) (src : ByteMap) : Nat → ByteMap :=
  Function.update sector lba (memcpy (sector lba) 0 src FAT12_SECTOR_SIZE)

theorem putSector_same {sector : Nat → ByteMap} {lba off : Nat} {src : ByteMap} (h : off < 512) :
    putSector sector lba src lba off = src off := by
  rw [putSector, Function.update_self, memcpy_in (Nat.zero_le _) (by rwa [Nat.zero_add]), Nat.sub_zero]

theorem putSector_of_ne {sector : Nat → ByteMap} {lba s : Nat} {src : ByteMap} (h : s ≠ lba) :
    putSector sector lba src s = sector s :=
  Function.update_of_ne h _ _

theorem ideWriteSector_ok (h : d.Reliable) (lba : Nat) (buf : ByteMap) (pos : Nat) :
    d.ideWriteSector lba buf pos = (true,
      { sector := putSector d.sector lba (bytesFrom buf pos), fails := d.fails,
        requests := d.requests + 1 }) := by
  rw [ideWriteSector, h, if_neg (by simp)]
  rfl

end Disk

namespace FAT12FS

/-- The FAT as one run of bytes. -/
def fatBytes (fs : FAT12FS) : ByteMap :=
  fun k => fs.device.sector (fs.bpb.reservedSectorCount + k / 512) (k % 512)

theorem packedEntry_congr {a b : ByteMap} {n i : Nat} (h : ∀ k, k < 3 * n → a k = b k)
    (hi : i < 2 * n) : packedEntry a i = packedEntry b i := by
  rcases Nat.even_or_odd' i with ⟨m, rfl | rfl⟩
  · rw [packedEntry_even, packedEntry_even, h _ (by omega), h _ (by omega)]
  · rw [packedEntry_odd, packedEntry_odd, h _ (by omega), h _ (by omega)]

/-- The temporary buffer after three sectors have been read into it. -/
theorem group_bytes (fs : FAT12FS) (g : Nat) {k : Nat} (hk : k < 1536) :
    let sector := fun i => fs.device.sector (3 * g + i + fs.bpb.reservedSectorCount)
    memcpy (memcpy (memcpy fs.tmpSectorBuffer 0 (sector 0) FAT12_SECTOR_SIZE) FAT12_SECTOR_SIZE
      (sector 1) FAT12_SECTOR_SIZE) (FAT12_SECTOR_SIZE * 2) (sector 2) FAT12_SECTOR_SIZE k =
        bytesFrom fs.fatBytes (1536 * g) k := by
  have hmod : (1536 * g + k) % 512 = k % 512 := by omega
  have hdiv : (1536 * g + k) / 512 = 3 * g + k / 512 := by omega
  simp only [FAT12_SECTOR_SIZE, bytesFrom, fatBytes, hmod, hdiv]
  have hsplit : k / 512 = 0 ∨ k / 512 = 1 ∨ k / 512 = 2 := by omega
  have hpos : ∀ i, fs.bpb.reservedSectorCount + (3 * g + i) = 3 * g + i + fs.bpb.reservedSectorCount :=
    fun i => by omega
  rcases hsplit with h | h | h <;> rw [h, hpos]
  · have hoff : k - 0 = k % 512 := by omega
    rw [memcpy_out (by omega), memcpy_out (by omega), memcpy_in (by omega) (by omega), hoff]
  · have hoff : k - 512 = k % 512 := by omega
    rw [memcpy_out (by omega), memcpy_in (by omega) (by omega), hoff]
  · have hoff : k - 512 * 2 = k % 512 := by omega
    rw [memcpy_in (by omega) (by omega), hoff]

/-- What `read_fat_table` puts at number `e` of the table: of each group of three sectors it takes the
first 256 entries. -/
theorem readGroups_spec {fs : FAT12FS} {n g : Nat} (hio : fs.device.Reliable)
    (hbps : fs.bpb.bytesPerSector = 512) :
    ∃ r t table, fs.readGroups n (3 * g) (256 * g) = (true, 256 * (g + n),
        { fs with device := { fs.device with requests := r }, tmpSectorBuffer := t, fatTable := table }) ∧
      ∀ e, table e = if 256 * g ≤ e ∧ e < 256 * (g + n) then
        packedEntry fs.fatBytes (1024 * (e / 256) + e % 256) else fs.fatTable e := by
  induction n generalizing fs g with
  | zero =>
      exact ⟨fs.device.requests, fs.tmpSectorBuffer, fs.fatTable, rfl, fun e => by rw [if_neg (by omega)]⟩
  | succ n ih =>
      have hcount : fs.bpb.bytesPerSector / 2 = 256 := by rw [hbps]
      rw [readGroups]
      simp only [readTmp, Disk.ideReadSector_ok, hio, hio.served, Bool.and_self, if_true, hcount]
      have hbuf : ∀ k, k < 3 * 512 → _ = bytesFrom fs.fatBytes (1536 * g) k := fun k hk =>
        fs.group_bytes g hk
      simp only [Nat.add_zero] at hbuf
      generalize memcpy (memcpy (memcpy fs.tmpSectorBuffer _ _ _) _ _ _) _ _ _ = buf at hbuf ⊢
      have hdecode := decodeLoop_eq buf 256 fs.fatTable (by omega : 256 * g % 2 = 0 % 2)
      generalize decodeLoop buf 256 0 (256 * g) fs.fatTable = first at hdecode ⊢
      obtain ⟨r, t, table, hrun, htable⟩ := @ih { fs with
        device := { fs.device with requests := fs.device.requests + 1 + 1 + 1 }
        tmpSectorBuffer := buf
        fatTable := first } (g + 1) (hio.served _ _) hbps
      have hi : 3 * (g + 1) = 3 * g + 3 := by ring
      have hidx : 256 * (g + 1) = 256 * g + 256 := by ring
      have hend : 256 * (g + 1 + n) = 256 * (g + (n + 1)) := by ring
      rw [hi, hidx, hend] at hrun
      refine ⟨r, t, table, hrun, fun e => (htable e).trans ?_⟩
      by_cases hlater : 256 * (g + 1) ≤ e ∧ e < 256 * (g + 1 + n)
      · rw [if_pos hlater, if_pos (by omega)]
        rfl
      · rw [if_neg hlater]
        refine (hdecode e).trans ?_
        by_cases hnow : 256 * g ≤ e ∧ e < 256 * g + 256
        · have hg : e / 256 = g := by omega
          have hmod : 0 + (e - 256 * g) = e % 256 := by omega
          rw [if_pos hnow, if_pos (by omega), hg, hmod,
            packedEntry_congr hbuf (by omega), packedEntry_shift]
        · rw [if_neg hnow, if_neg (by omega)]

/-- The three sectors of a group after they have been written out of the buffer. -/
theorem putGroup_bytes (sector : Nat → ByteMap) (buf : ByteMap) (reserved g : Nat) {k : Nat}
    (hk : k < 1536) :
    Disk.putSector (Disk.putSector (Disk.putSector sector (3 * g + reserved) (bytesFrom buf 0))
      (3 * g + 1 + reserved) (bytesFrom buf FAT12_SECTOR_SIZE))
      (3 * g + 2 + reserved) (bytesFrom buf (FAT12_SECTOR_SIZE * 2))
      (reserved + (1536 * g + k) / 512) ((1536 * g + k) % 512) = buf k := by
  have hmod : (1536 * g + k) % 512 = k % 512 := by omega
  have hdiv : reserved + (1536 * g + k) / 512 = 3 * g + k / 512 + reserved := by omega
  have hlt : k % 512 < 512 := Nat.mod_lt _ (by decide)
  have hsplit : k / 512 = 0 ∨ k / 512 = 1 ∨ k / 512 = 2 := by omega
  simp only [FAT12_SECTOR_SIZE, hmod, hdiv]
  rcases hsplit with h | h | h <;> rw [h]
  · rw [Disk.putSector_of_ne (by omega), Disk.putSector_of_ne (by omega), Nat.add_zero,
      Disk.putSector_same hlt, bytesFrom]
    congr 1
    omega
  · rw [Disk.putSector_of_ne (by omega), Disk.putSector_same hlt, bytesFrom]
    congr 1
    omega
  · rw [Disk.putSector_same hlt, bytesFrom]
    congr 1
    omega

theorem putGroup_out (sector : Nat → ByteMap) (buf : ByteMap) (reserved g : Nat) {s : Nat}
    (hs : s < reserved + 3 * g ∨ reserved + 3 * g + 3 ≤ s) :
    Disk.putSector (Disk.putSector (Disk.putSector sector (3 * g + reserved) (bytesFrom buf 0))
      (3 * g + 1 + reserved) (bytesFrom buf FAT12_SECTOR_SIZE))
      (3 * g + 2 + reserved) (bytesFrom buf (FAT12_SECTOR_SIZE * 2)) s = sector s := by
  rw [Disk.putSector_of_ne (by omega), Disk.putSector_of_ne (by omega),
    Disk.putSector_of_ne (by omega)]

/-- Each group of three sectors `flush_fat_table` writes holds the 1024 entries of the table that
belong there; no other sector changes. -/
theorem flushGroups_spec {fs : FAT12FS} {n g : Nat} (hio : fs.device.Reliable) :
    ∃ sector r t, fs.flushGroups n (3 * g) (1024 * g) = (true,
        { fs with
          device := { sector, fails := fs.device.fails, requests := r }
          tmpSectorBuffer := t }) ∧
      (∀ e, 1024 * g ≤ e → e < 1024 * (g + n) → packedEntry
        (fun k => sector (fs.bpb.reservedSectorCount + k / 512) (k % 512)) e = fs.fatTable e % 4096) ∧
      ∀ s, (s < fs.bpb.reservedSectorCount + 3 * g ∨ fs.bpb.reservedSectorCount + 3 * (g + n) ≤ s) →
        sector s = fs.device.sector s := by
  induction n generalizing fs g with
  | zero =>
      exact ⟨fs.device.sector, fs.device.requests, fs.tmpSectorBuffer, rfl,
        fun e he he' => absurd he' (by omega), fun _ _ => rfl⟩
  | succ n ih =>
      rw [flushGroups]
      simp only [writeTmp, Disk.ideWriteSector_ok, hio, hio.served, Bool.and_self, if_true]
      have hencode : ∀ i, i < 1024 →
          packedEntry (encodeLoop fs.fatTable 1024 0 (1024 * g) fs.tmpSectorBuffer) i =
            fs.fatTable (1024 * g + i) % 4096 := fun i hi => by
        rw [packedEntry_encodeLoop (by omega), if_pos (by omega), Nat.sub_zero]
      generalize encodeLoop fs.fatTable 1024 0 (1024 * g) fs.tmpSectorBuffer = buf at hencode ⊢
      have hgroup := fun k (hk : k < 3 * 512) => putGroup_bytes fs.device.sector buf
        fs.bpb.reservedSectorCount g hk
      have hout := fun s => @putGroup_out fs.device.sector buf fs.bpb.reservedSectorCount g s
      generalize Disk.putSector (Disk.putSector (Disk.putSector fs.device.sector _ _) _ _) _ _ = written
        at hgroup hout ⊢
      obtain ⟨sector, r, t, hrun, hlater, hrest⟩ := @ih { fs with
        device := { sector := written, fails := fs.device.fails, requests := fs.device.requests + 1 + 1 + 1 }
        tmpSectorBuffer := buf } (g + 1) hio
      have hi : 3 * (g + 1) = 3 * g + 3 := by ring
      have hidx : 1024 * (g + 1) = 1024 * g + 1024 := by ring
      rw [hi, hidx] at hrun
      refine ⟨sector, r, t, hrun, fun e he he' => ?_, fun s hs => ?_⟩
      · by_cases hnow : e < 1024 * (g + 1)
        · obtain ⟨i, rfl⟩ := Nat.exists_eq_add_of_le he
          rw [← packedEntry_shift, ← hencode i (by omega)]
          refine packedEntry_congr (n := 512) (fun k hk => ?_) (by omega)
          rw [bytesFrom, hrest _ (by dsimp only; omega)]
          exact hgroup k hk
        · exact hlater e (by omega) (by omega)
      · rw [hrest s (by dsimp only; omega)]
        exact hout s (by omega)

/-! ### Reading and flushing the whole table -/

theorem readFatTable_spec {fs : FAT12FS} {k : Nat} (hio : fs.device.Reliable)
    (hbps : fs.bpb.bytesPerSector = 512) (hsize : fs.bpb.fatSize16 = 3 * k) :
    ∃ r t table, fs.readFatTable = (true,
        { fs with device := { fs.device with requests := r }, tmpSectorBuffer := t, fatTable := table }) ∧
      ∀ e, table e = if e < 256 * k then
        packedEntry fs.fatBytes (1024 * (e / 256) + e % 256) else fs.fatTable e := by
  obtain ⟨r, t, table, hrun, htable⟩ := readGroups_spec (n := k) (g := 0) hio hbps
  have hgroups : fs.bpb.fatSize16 / 3 = k := by omega
  have hrest : fs.bpb.fatSize16 % 3 = 0 := by omega
  refine ⟨r, t, table, ?_, fun e => (htable e).trans ?_⟩
  · rw [Nat.mul_zero] at hrun
    rw [readFatTable, hgroups, hrun]
    dsimp only
    rw [hrest]
    rfl
  · rw [Nat.mul_zero, Nat.zero_add]
    simp only [Nat.zero_le, true_and]

theorem flushFatTable_spec {fs : FAT12FS} (hio : fs.device.Reliable) :
    ∃ sector r t, fs.flushFatTable = (true,
        { fs with
          device := { sector, fails := fs.device.fails, requests := r }
          tmpSectorBuffer := t }) ∧
      (∀ e, e < 1024 * ((fs.bpb.fatSize16 + 2) / 3) → packedEntry
        (fun k => sector (fs.bpb.reservedSectorCount + k / 512) (k % 512)) e = fs.fatTable e % 4096) ∧
      ∀ s, (s < fs.bpb.reservedSectorCount ∨
          fs.bpb.reservedSectorCount + 3 * ((fs.bpb.fatSize16 + 2) / 3) ≤ s) →
        sector s = fs.device.sector s := by
  obtain ⟨sector, r, t, hrun, htable, hrest⟩ :=
    flushGroups_spec (n := (fs.bpb.fatSize16 + 2) / 3) (g := 0) hio
  exact ⟨sector, r, t, hrun, fun e he => htable e (by omega) (by omega), fun s hs => hrest s (by omega)⟩

/-- What reading the FAT, and flushing it right afterwards, should come to. -/
structure RoundTrip (fs : FAT12FS) (k : Nat) : Prop where
  decoded : ∀ i, i < 1024 * k → fs.readFatTable.2.fatTable i = packedEntry fs.fatBytes i
  unchanged : ∀ s off, fs.bpb.reservedSectorCount ≤ s → s < fs.bpb.reservedSectorCount + 3 * k →
    off < 512 → fs.readFatTable.2.flushFatTable.2.device.sector s off = fs.device.sector s off

/-- The state `mount` calls `read_fat_table` in, for a FAT of `3 * k` sectors. -/
structure Mounting (fs : FAT12FS) (k : Nat) : Prop where
  reliable : fs.device.Reliable
  bytesPerSector : fs.bpb.bytesPerSector = 512
  fatSize : fs.bpb.fatSize16 = 3 * k
  cleared : ∀ i, fs.fatTable i = 0

theorem packedEntry_lt (bytes : ByteMap) (i : Nat) : packedEntry bytes i < 4096 := by
  rcases Nat.even_or_odd' i with ⟨m, rfl | rfl⟩
  · have h := (bytes (3 * m)).isLt
    rw [packedEntry_even]
    omega
  · have h := (bytes (3 * m + 1)).isLt
    have h' := (bytes (3 * m + 2)).isLt
    rw [packedEntry_odd]
    omega

/-- A table that holds the entries of the disk is flushed to the bytes it was read from. -/
theorem flush_unchanged (fs : FAT12FS) {k : Nat} (hio : fs.device.Reliable)
    (hsize : fs.bpb.fatSize16 = 3 * k)
    (htable : ∀ i, i < 1024 * k → fs.fatTable i = packedEntry fs.fatBytes i) {s off : Nat}
    (hs : fs.bpb.reservedSectorCount ≤ s) (hs' : s < fs.bpb.reservedSectorCount + 3 * k)
    (hoff : off < 512) : fs.flushFatTable.2.device.sector s off = fs.device.sector s off := by
  obtain ⟨sector, r, t, hrun, hentry, -⟩ := flushFatTable_spec hio
  have hgroups : (fs.bpb.fatSize16 + 2) / 3 = k := by omega
  rw [hgroups] at hentry
  have hbytes := bytes_eq_of_packedEntry (n := 512 * k) (b := fs.fatBytes) (fun i hi => by
    rw [hentry i (by omega), htable i (by omega), Nat.mod_eq_of_lt (packedEntry_lt _ _)])
    (512 * (s - fs.bpb.reservedSectorCount) + off) (by omega)
  have hdiv : fs.bpb.reservedSectorCount + (512 * (s - fs.bpb.reservedSectorCount) + off) / 512 = s := by
    omega
  have hmod : (512 * (s - fs.bpb.reservedSectorCount) + off) % 512 = off := by omega
  rw [fatBytes, hdiv, hmod] at hbytes
  rw [hrun]
  exact hbytes

/-- Entries beyond the first 256 are read as zero, or as an entry from beyond the first 1024. -/
theorem RoundTrip.entry_eq_zero {fs : FAT12FS} {k : Nat} (h : RoundTrip fs k) (hm : Mounting fs k)
    (hk : k ≤ 4) {i : Nat} (hi : 256 ≤ i) (hi' : i < 1024 * k) : packedEntry fs.fatBytes i = 0 := by
  obtain ⟨r, t, table, hrun, htable⟩ := readFatTable_spec hm.reliable hm.bytesPerSector hm.fatSize
  have hread : ∀ e, e < 1024 * k → packedEntry fs.fatBytes e = table e := fun e he => by
    rw [← h.decoded e he, hrun]
  have hbeyond : ∀ e, 256 * k ≤ e → e < 1024 * k → packedEntry fs.fatBytes e = 0 := fun e he he' => by
    rw [hread e he', htable, if_neg (by omega), hm.cleared]
  by_cases hsmall : i < 256 * k
  · rw [hread i hi', htable, if_pos hsmall]
    exact hbeyond _ (by omega) (by omega)
  · exact hbeyond i (by omega) hi'

/-- Reading the FAT is faithful exactly when no entry from number 256 on is in use. -/
theorem roundTrip_iff {fs : FAT12FS} {k : Nat} (hm : Mounting fs k) (hpos : 1 ≤ k) (hk : k ≤ 4) :
    RoundTrip fs k ↔ ∀ i, 256 ≤ i → i < 1024 * k → packedEntry fs.fatBytes i = 0 := by
  refine ⟨fun h i hi hi' => h.entry_eq_zero hm hk hi hi', fun hzero => ?_⟩
  obtain ⟨r, t, table, hrun, htable⟩ := readFatTable_spec hm.reliable hm.bytesPerSector hm.fatSize
  have hdecoded : ∀ i, i < 1024 * k → table i = packedEntry fs.fatBytes i := fun i hi => by
    rw [htable]
    by_cases hlow : i < 256
    · have hdiv : 1024 * (i / 256) + i % 256 = i := by omega
      rw [if_pos (by omega), hdiv]
    · rw [hzero i (by omega) hi]
      by_cases hmid : i < 256 * k
      · rw [if_pos hmid]
        exact hzero _ (by omega) (by omega)
      · rw [if_neg hmid]
        exact hm.cleared i
  refine ⟨fun i hi => by rw [hrun]; exact hdecoded i hi, fun s off hs hs' hoff => ?_⟩
  rw [hrun]
  exact flush_unchanged
    { fs with device := { fs.device with requests := r }, tmpSectorBuffer := t, fatTable := table }
    hm.reliable hm.fatSize hdecoded hs hs' hoff

/-- A volume being mounted, given its sectors; its FAT has three of them, from sector 1 on. -/
def mounting (sector : Nat → ByteMap) : FAT12FS where
  this := 0
  cachePool := fun _ => { clusterNum := 0, buf := fun _ => 0, dirty := false, refcount := 0 }
  rootDir := fun _ => EntryBuf.reset.normalizedEntry
  rootDirDirty := false
  tmpSectorBuffer := fun _ => 0
  bpb := { bytesPerSector := 512, sectorsPerCluster := 1, reservedSectorCount := 1, numFats := 2,
           rootEntryCount := 16, fatSize16 := 3 }
  fatTable := fun _ => 0
  fatTableDirty := false
  device := { sector, fails := fun _ => false, requests := 0 }
  dataStartSector := 8
  rootEntries := 16
  clusterCount := 1000
  clusterSize := 512

theorem mounting_mounting (sector : Nat → ByteMap) : Mounting (mounting sector) 1 :=
  ⟨fun _ => rfl, rfl, rfl, fun _ => rfl⟩

/-- A FAT with one chain, of the clusters 2 and 3. -/
def oneChain : Nat → ByteMap := fun s off =>
  if s = 1 ∧ off = 3 then 0x03 else if s = 1 ∧ off = 4 then 0xF0 else if s = 1 ∧ off = 5 then 0xFF else 0

theorem oneChain_behind {k : Nat} (hk : 6 ≤ k) : (mounting oneChain).fatBytes k = 0 := by
  change oneChain (1 + k / 512) (k % 512) = 0
  rw [oneChain, if_neg (by omega), if_neg (by omega), if_neg (by omega)]

/-- A chain of two clusters is read and written back as it is. -/
theorem roundTrip_oneChain : RoundTrip (mounting oneChain) 1 ∧ packedEntry (mounting oneChain).fatBytes 2 = 3 :=
  ⟨(roundTrip_iff (mounting_mounting _) (le_refl 1) (by decide)).mpr fun i hi _ => by
    simp [packedEntry, oneChain_behind (by omega : 6 ≤ i + i / 2), oneChain_behind (by omega : 6 ≤ i + i / 2 + 1)],
    by decide⟩

/-- A FAT that marks cluster 300 as the end of a chain and nothing else. -/
def endOfChain300 : Nat → ByteMap := fun s off =>
  if s = 1 ∧ off = 450 then 0xFF else if s = 1 ∧ off = 451 then 0x0F else 0

/-- The mark on cluster 300 is not read. -/
theorem not_roundTrip_endOfChain300 : ¬RoundTrip (mounting endOfChain300) 1 := fun h => by
  have hzero := h.entry_eq_zero (mounting_mounting _) (by decide) (i := 300) (by decide) (by decide)
  exact absurd hzero (by decide)

end FAT12FS

end SysuOs
