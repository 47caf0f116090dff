import SysuOs.FatModel

/-! Loading and storing the root directory. `init_root_dir` keeps the short entries it takes and packs them,
`flush_root_dir` rewrites every root sector from what was kept. -/

namespace SysuOs.Root

open EntryBuf

def ENTRY_PER_SECTOR : Nat := FAT12_SECTOR_SIZE / FAT12_ENTRY_BYTES

/-- The 32 bytes of entry `k` of the root sectors from `start` on. -/
def slotAt (sector : Nat → ByteMap) (start k : Nat) : ByteMap :=
  bytesFrom (sector (start + k / ENTRY_PER_SECTOR)) (FAT12_ENTRY_BYTES * (k % ENTRY_PER_SECTOR))

/-- The loops of `init_root_dir`, with `n` entries to go: the entries kept so far in `dir`. -/
def initLoop (slot : Nat → ByteMap) (rootEntries : Nat) : Nat → Nat → EntryBuf → List NormalizedEntry →
    List NormalizedEntry
  | 0, _, _, dir => dir
  | n + 1, k, buf, dir =>
    match buf.read (slot k) 0 with
    | (true, buf) =>
      initLoop slot rootEntries n (k + 1) buf
        (if dir.length < rootEntries then dir ++ [buf.normalizedEntry] else dir)
    | (false, buf) =>
      if buf.status = .END_OF_DIR then dir else initLoop slot rootEntries n (k + 1) buf dir

/-- `root_dir` up to its last entry; the rest of the array is zero. -/
def initRootDir (sector : Nat → ByteMap) (start sectors rootEntries : Nat) : List NormalizedEntry :=
  initLoop (slotAt sector start) rootEntries (sectors * ENTRY_PER_SECTOR) 0 reset []

/-- What `flush_root_dir` puts into entry `k` of the cleared sectors. -/
def flushSlot (dir : List NormalizedEntry) (rootEntries k : Nat) : ByteMap :=
  if rootEntries ≤ k then fun _ => 0
  else
    match dir[k]? with
    | none => fun _ => 0
    | some entry =>
      if entry.name = [] then fun _ => 0
      else (write ⟨entry, .FREE⟩ (fun _ => 0) 0 (entry.name.head? = some 0xE5)).2

/-- The sectors after `flush_root_dir`. -/
def flushRootDir (dir : List NormalizedEntry) (rootEntries : Nat) (sector : Nat → ByteMap)
    (start sectors : Nat) : Nat → ByteMap := fun s off =>
  if start ≤ s ∧ s < start + sectors ∧ off < FAT12_SECTOR_SIZE then
    flushSlot dir rootEntries ((s - start) * ENTRY_PER_SECTOR + off / FAT12_ENTRY_BYTES)
      (off % FAT12_ENTRY_BYTES)
  else sector s off

/-! ### Kinds of entries on the disk -/

def IsLfn (s : ByteMap) : Prop := s 11 = 0x0F

instance (s : ByteMap) : Decidable (IsLfn s) := inferInstanceAs (Decidable (_ = _))

def IsLabel (s : ByteMap) : Prop := s 11 &&& VOLUME_ID ≠ 0

instance (s : ByteMap) : Decidable (IsLabel s) := inferInstanceAs (Decidable (_ ≠ _))

/-- What a short entry says of its file. -/
structure LiveEntry where
  name : List Byte
  ext : List Byte
  attr : Byte
  firstCluster : Nat
  size : Nat
  deriving DecidableEq

def liveEntry (s : ByteMap) : LiveEntry where
  name := bytesAt s 0 8
  ext := bytesAt s 8 3
  attr := s 11
  firstCluster := u16At s 26
  size := u32At s 28

/-- The live short entries among the `n` from the `k`-th on: up to the end mark, neither long-name parts nor
deleted nor volume labels. -/
def liveSlots (slot : Nat → ByteMap) : Nat → Nat → List Nat
  | 0, _ => []
  | n + 1, k =>
    if IsLfn (slot k) then liveSlots slot n (k + 1)
    else if slot k 0 = 0 then []
    else if slot k 0 = 0xE5 ∨ IsLabel (slot k) then liveSlots slot n (k + 1)
    else k :: liveSlots slot n (k + 1)

def liveEntries (sector : Nat → ByteMap) (start rootEntries : Nat) : List LiveEntry :=
  (liveSlots (slotAt sector start) rootEntries 0).map fun k => liveEntry (slotAt sector start k)

/-- The entries that `init_root_dir` keeps of the `n` from the `k`-th on; `lfn` says that a long-name part
came last. -/
def keptSlots (slot : Nat → ByteMap) : Nat → Nat → Bool → List Nat
  | 0, _, _ => []
  | n + 1, k, lfn =>
    if IsLfn (slot k) then keptSlots slot n (k + 1) true
    else if slot k 0 = 0 then []
    else if slot k 0 = 0xE5 ∨ lfn then keptSlots slot n (k + 1) false
    else k :: keptSlots slot n (k + 1) false

/-- What `read` makes of a short entry. -/
def normalized (s : ByteMap) : NormalizedEntry where
  name := entryName s 0
  startCluster := u16At s 26
  attr := s 11
  createTimeTenths := s 13
  createTime := u16At s 14
  createDate := u16At s 16
  lastAccessDate := u16At s 18
  writeTime := u16At s 22
  writeDate := u16At s 24
  fileSize := u32At s 28

theorem keptSlots_length (slot : Nat → ByteMap) (n k : Nat) (lfn : Bool) :
    (keptSlots slot n k lfn).length ≤ n := by
  induction n generalizing k lfn with
  | zero => exact le_refl 0
  | succ n ih =>
      rw [keptSlots]
      have htrue := ih (k + 1) true
      have hfalse := ih (k + 1) false
      split_ifs
      · omega
      · exact Nat.zero_le _
      · omega
      · rw [List.length_cons]
        omega

/-- Looking at more entries keeps what is kept. -/
theorem keptSlots_prefix (slot : Nat → ByteMap) (n m k : Nat) (lfn : Bool) :
    keptSlots slot n k lfn <+: keptSlots slot (n + m) k lfn := by
  induction n generalizing k lfn with
  | zero => exact List.nil_prefix
  | succ n ih =>
      rw [Nat.succ_add, keptSlots, keptSlots]
      split_ifs
      · exact ih (k + 1) true
      · exact List.nil_prefix
      · exact ih (k + 1) false
      · exact List.prefix_cons_inj k |>.mpr (ih (k + 1) false)

theorem read_slot (buf : EntryBuf) (s : ByteMap) :
    buf.read s 0 =
      if IsLfn s then (false, { buf with status := .SKIP_LFN })
      else if s 0 = 0 then (false, { buf with status := .END_OF_DIR })
      else if s 0 = 0xE5 then (false, { buf with status := .DELETE })
      else if buf.status = .SKIP_LFN then (false, { buf with status := .SKIP_SFN })
      else (true, ⟨normalized s, .VALID⟩) := rfl

/-- `init_root_dir` stores what it keeps, as far as there is room. -/
theorem initLoop_eq (slot : Nat → ByteMap) (rootEntries n k : Nat) (buf : EntryBuf)
    (dir : List NormalizedEntry) (hdir : dir.length ≤ rootEntries) :
    initLoop slot rootEntries n k buf dir =
      (dir ++ (keptSlots slot n k (buf.status = .SKIP_LFN)).map fun j => normalized (slot j)).take
        rootEntries := by
  induction n generalizing k buf dir with
  | zero =>
      rw [initLoop, keptSlots, List.map_nil, List.append_nil, List.take_of_length_le hdir]
  | succ n ih =>
      rw [initLoop, keptSlots, read_slot]
      by_cases hlfn : IsLfn (slot k)
      · simp only [hlfn, if_true]
        rw [if_neg (by decide), ih _ _ _ hdir]
        simp
      · by_cases hend : slot k 0 = 0
        · simp [hlfn, hend, hdir]
        · by_cases hdel : slot k 0 = 0xE5
          · have hne : ¬ (0xE5 : Byte) = 0 := by decide
            simp only [hlfn, hdel, hne, if_false, if_true, true_or]
            rw [if_neg (by decide), ih _ _ _ hdir]
            simp
          · by_cases hskip : buf.status = .SKIP_LFN
            · simp only [hlfn, hend, hdel, hskip, if_false, if_true, decide_true, or_true]
              rw [if_neg (by decide), ih _ _ _ hdir]
              simp
            · simp only [hlfn, hend, hdel, hskip, if_false, decide_false, Bool.false_eq_true, or_self]
              by_cases hroom : dir.length < rootEntries
              · rw [if_pos hroom, ih _ _ _ (by rw [List.length_append]; exact hroom)]
                simp
              · -- the array is full, and stays as it is
                have hfull : dir.length = rootEntries := by omega
                rw [if_neg hroom, ih _ _ _ hdir, List.take_append_of_le_length (le_of_eq hfull.symm),
                  List.take_append_of_le_length (le_of_eq hfull.symm)]

theorem initRootDir_eq (sector : Nat → ByteMap) (start sectors rootEntries : Nat) :
    initRootDir sector start sectors rootEntries =
      ((keptSlots (slotAt sector start) (sectors * ENTRY_PER_SECTOR) 0 false).take rootEntries).map
        fun j => normalized (slotAt sector start j) := by
  rw [initRootDir, initLoop_eq _ _ _ _ _ _ (Nat.zero_le _), List.nil_append, List.map_take]
  rfl

/-- An entry of the rewritten sectors. -/
theorem slotAt_flushRootDir (dir : List NormalizedEntry) (rootEntries : Nat) (sector : Nat → ByteMap)
    {start sectors k off : Nat} (hk : k < sectors * ENTRY_PER_SECTOR) (hoff : off < FAT12_ENTRY_BYTES) :
    slotAt (flushRootDir dir rootEntries sector start sectors) start k off =
      flushSlot dir rootEntries k off := by
  have hwithin : start ≤ start + k / ENTRY_PER_SECTOR ∧ start + k / ENTRY_PER_SECTOR < start + sectors ∧
      FAT12_ENTRY_BYTES * (k % ENTRY_PER_SECTOR) + off < FAT12_SECTOR_SIZE := by
    simp only [ENTRY_PER_SECTOR, FAT12_SECTOR_SIZE, FAT12_ENTRY_BYTES] at *
    omega
  have hslot : (start + k / ENTRY_PER_SECTOR - start) * ENTRY_PER_SECTOR +
      (FAT12_ENTRY_BYTES * (k % ENTRY_PER_SECTOR) + off) / FAT12_ENTRY_BYTES = k := by
    simp only [ENTRY_PER_SECTOR, FAT12_SECTOR_SIZE, FAT12_ENTRY_BYTES] at *
    omega
  have hin : (FAT12_ENTRY_BYTES * (k % ENTRY_PER_SECTOR) + off) % FAT12_ENTRY_BYTES = off := by
    simp only [ENTRY_PER_SECTOR, FAT12_SECTOR_SIZE, FAT12_ENTRY_BYTES] at *
    omega
  unfold slotAt bytesFrom flushRootDir
  rw [if_pos hwithin, hslot, hin]

/-! ### Names that come back -/

/-- A character that `read` and `write` leave as it is. -/
def Plain (c : Byte) : Prop := c ≠ 0x20 ∧ c ≠ 0 ∧ ¬ (0x61 ≤ c.toNat ∧ c.toNat ≤ 0x7A)

/-- The name of a short entry is one that `write` would put down: blanks only behind the characters, which
are neither small letters nor NUL; a directory has no extension, a file none with a dot in it, and where
there is no extension the base is not empty and, of a file, has no dot. -/
structure WellNamed (s : ByteMap) : Prop where
  parts : ∃ base ext : List Byte, base.length ≤ 8 ∧ ext.length ≤ 3 ∧
    bytesAt s 0 8 = base ++ List.replicate (8 - base.length) 0x20 ∧
    bytesAt s 8 3 = ext ++ List.replicate (3 - ext.length) 0x20 ∧
    (∀ c ∈ base, Plain c) ∧ (∀ c ∈ ext, Plain c) ∧ 0x2E ∉ ext ∧
    (ext = [] → base ≠ []) ∧
    (s 11 &&& DIRECTORY ≠ 0 → ext = []) ∧
    (s 11 &&& DIRECTORY = 0 → ext = [] → 0x2E ∉ base)

theorem toUpper_toLower {c : Byte} (h : Plain c) : toUpper (toLower c) = c := by
  have h3 := h.2.2
  unfold toLower
  split
  · rename_i hc
    have hval : (c + 0x20).toNat = c.toNat + 32 := by bv_omega
    unfold toUpper
    rw [if_pos (by omega)]
    bv_omega
  · unfold toUpper
    rw [if_neg h3]

theorem map_toUpper_toLower {s : List Byte} (h : ∀ c ∈ s, Plain c) : (s.map toLower).map toUpper = s := by
  rw [List.map_map]
  conv_rhs => rw [← List.map_id s]
  apply List.map_congr_left
  intro c hc
  exact toUpper_toLower (h c hc)

theorem toLower_ne_zero {c : Byte} (h : c ≠ 0) : toLower c ≠ 0 := by
  unfold toLower
  split
  · bv_omega
  · exact h

theorem toLower_eq_dot {c : Byte} : toLower c = 0x2E ↔ c = 0x2E := by
  unfold toLower
  split
  · constructor
    · intro h
      bv_omega
    · intro h
      bv_omega
  · exact Iff.rfl

/-- What stands before the blanks of a padded field. -/
theorem takeWhile_padded {s : List Byte} (n : Nat) (h : ∀ c ∈ s, Plain c) :
    (s ++ List.replicate n 0x20).takeWhile (· != 0x20) = s := by
  induction s with
  | nil => cases n <;> simp [List.replicate_succ]
  | cons c s ih =>
      have hc := (h c List.mem_cons_self).1
      rw [List.cons_append, List.takeWhile_cons_of_pos (by simpa using hc),
        ih fun c' hc' => h c' (List.mem_cons_of_mem c hc')]

theorem padded_lower {s : List Byte} {n : Nat} (hlen : s.length ≤ n) (h : ∀ c ∈ s, Plain c) :
    padded n (s.map toLower) = s ++ List.replicate (n - s.length) 0x20 := by
  unfold padded
  rw [map_toUpper_toLower h, List.take_append, List.take_of_length_le hlen, List.take_replicate,
    Nat.min_eq_left (Nat.sub_le n s.length)]

theorem splitName_dotless {name : List Byte} (h : 0x2E ∉ name) : splitName name = (name, []) := by
  unfold splitName
  rw [List.idxOf?_eq_none_iff.mpr (by simpa using h)]

theorem splitName_dot (base : List Byte) {ext : List Byte} (h : 0x2E ∉ ext) :
    splitName (base ++ 0x2E :: ext) = (base, ext) := by
  have hlast : (base ++ 0x2E :: ext).reverse.idxOf? 0x2E = some ext.length := by
    rw [List.reverse_append, List.reverse_cons, List.append_assoc, ← List.length_reverse]
    have hrev : 0x2E ∉ ext.reverse := by simpa using h
    generalize ext.reverse = l at hrev
    induction l with
    | nil => simp [List.idxOf?_cons]
    | cons c l ih =>
        rw [List.mem_cons, not_or] at hrev
        rw [List.cons_append, List.idxOf?_cons, ih hrev.2]
        simpa using Ne.symm hrev.1
  unfold splitName
  rw [hlast]
  dsimp only
  have hlen : (base ++ 0x2E :: ext).length = base.length + (ext.length + 1) := by simp
  rw [hlen, Prod.mk.injEq]
  constructor
  · rw [show base.length + (ext.length + 1) - 1 - ext.length = base.length by omega, List.take_left]
  · rw [show base.length + (ext.length + 1) - ext.length = base.length + 1 by omega, List.drop_append]
    simp

/-- The name and the extension that `write` puts down for the name that `read` gives a short entry. -/
def rewritten (s : ByteMap) : List Byte × List Byte :=
  if s 11 &&& DIRECTORY ≠ 0 then (entryName s 0, []) else splitName (entryName s 0)

theorem takeWhile_eq_self {s : List Byte} (h : ∀ c ∈ s, c ≠ 0) : s.takeWhile (· != 0) = s := by
  rw [List.takeWhile_eq_self_iff]
  intro c hc
  simpa using h c hc

theorem map_toLower_ne_zero {s : List Byte} (h : ∀ c ∈ s, Plain c) : ∀ c ∈ s.map toLower, c ≠ 0 := by
  intro c hc
  obtain ⟨c', hc', rfl⟩ := List.mem_map.mp hc
  exact toLower_ne_zero (h c' hc').2.1

theorem not_mem_map_toLower {s : List Byte} (h : 0x2E ∉ s) : 0x2E ∉ s.map toLower := by
  intro hmem
  obtain ⟨c, hc, hdot⟩ := List.mem_map.mp hmem
  rw [toLower_eq_dot.mp hdot] at hc
  exact h hc

/-- A name that `write` would put down is put down again. -/
theorem WellNamed.rewritten {s : ByteMap} (h : WellNamed s) :
    entryName s 0 ≠ [] ∧ padded 8 (rewritten s).1 = bytesAt s 0 8 ∧
      padded 3 (Root.rewritten s).2 = bytesAt s 8 3 := by
  obtain ⟨base, ext, hbase, hext, hname, hextension, hplain, hplainExt, hdots, hempty, hdir, hfile⟩ := h.parts
  have htake : (bytesAt s 0 8).takeWhile (· != 0x20) = base := by
    rw [hname, takeWhile_padded _ hplain]
  have htakeExt : (bytesAt s (0 + 8) 3).takeWhile (· != 0x20) = ext := by
    rw [show 0 + 8 = 8 from rfl, hextension, takeWhile_padded _ hplainExt]
  have hfirst : s (0 + 8) ≠ 0x20 ↔ ext ≠ [] := by
    have hbytes : bytesAt s 8 3 = [s 8, s 9, s 10] := rfl
    rw [hbytes] at hextension
    cases ext with
    | nil =>
        have : s 8 = 0x20 := (List.cons.inj hextension).1
        simp [this]
    | cons c ext =>
        have : s 8 = c := (List.cons.inj hextension).1
        simpa [this] using (hplainExt c List.mem_cons_self).1
  have hlower := map_toLower_ne_zero hplain
  have hlowerExt := map_toLower_ne_zero hplainExt
  by_cases hnoext : ext = []
  · have hentry : entryName s 0 = base.map toLower := by
      unfold entryName
      rw [htake, if_neg (by rw [hfirst]; exact fun h => h.2 hnoext)]
      dsimp only
      rw [List.append_nil, takeWhile_eq_self hlower]
    have hrewritten : Root.rewritten s = (base.map toLower, []) := by
      unfold Root.rewritten
      rw [hentry]
      split
      · rfl
      · rename_i hattr
        exact splitName_dotless (not_mem_map_toLower (hfile (not_not.mp hattr) hnoext))
    rw [hentry, hrewritten]
    refine ⟨by simpa using hempty hnoext, ?_, ?_⟩
    · rw [padded_lower hbase hplain, hname]
    · rw [hextension, hnoext]
      rfl
  · have hattr : s 11 &&& DIRECTORY = 0 := by
      by_contra hattr
      exact hnoext (hdir hattr)
    have hentry : entryName s 0 = base.map toLower ++ 0x2E :: ext.map toLower := by
      unfold entryName
      rw [htake, htakeExt, if_pos ⟨hattr, hfirst.mpr hnoext⟩]
      dsimp only
      rw [takeWhile_eq_self]
      intro c hc
      rcases List.mem_append.mp hc with hc | hc
      · exact hlower c hc
      · rcases List.mem_cons.mp hc with rfl | hc
        · decide
        · exact hlowerExt c hc
    have hrewritten : Root.rewritten s = (base.map toLower, ext.map toLower) := by
      unfold Root.rewritten
      rw [hentry, if_neg (not_not.mpr hattr), splitName_dot _ (not_mem_map_toLower hdots)]
    rw [hentry, hrewritten]
    refine ⟨by simp, ?_, ?_⟩
    · rw [padded_lower hbase hplain, hname]
    · rw [padded_lower hext hplainExt, hextension]

/-! ### What is written back -/

/-- The 32 bytes that `flush_root_dir` writes for a short entry that `init_root_dir` has kept. -/
def stored (s : ByteMap) : ByteMap := fun k => if k < FAT12_ENTRY_BYTES then (encode (normalized s)).getD k 0 else 0

theorem encode_eq (s : ByteMap) :
    encode (normalized s) = padded 8 (rewritten s).1 ++ padded 3 (rewritten s).2 ++
      [s 11, 0, s 13] ++ leBytes 2 (u16At s 14) ++ leBytes 2 (u16At s 16) ++ leBytes 2 (u16At s 18) ++
      leBytes 2 0 ++ leBytes 2 (u16At s 22) ++ leBytes 2 (u16At s 24) ++ leBytes 2 (u16At s 26) ++
      leBytes 4 (u32At s 28) := by
  unfold encode rewritten
  by_cases hattr : s 11 &&& DIRECTORY ≠ 0
  · have : (normalized s).attr &&& DIRECTORY ≠ 0 := hattr
    rw [if_pos this, if_pos hattr]
    rfl
  · have : ¬ (normalized s).attr &&& DIRECTORY ≠ 0 := hattr
    rw [if_neg this, if_neg hattr]
    rfl

theorem padded_length (n : Nat) (s : List Byte) : (padded n s).length = n := by
  unfold padded
  simp

theorem u16At_lt (s : ByteMap) (pos : Nat) : u16At s pos < 65536 := by
  unfold u16At
  have := (s pos).isLt
  have := (s (pos + 1)).isLt
  omega

theorem ofNat_byte (c : Byte) (n : Nat) : BitVec.ofNat 8 (c.toNat + 256 * n) = c := by
  apply BitVec.eq_of_toNat_eq
  rw [BitVec.toNat_ofNat]
  have := c.isLt
  omega

/-- A number of two bytes, from its bytes. -/
theorem leBytes_u16 (s : ByteMap) (pos : Nat) : leBytes 2 (u16At s pos) = [s pos, s (pos + 1)] := by
  have hlow : BitVec.ofNat 8 (u16At s pos / 256 ^ 0) = s pos := by
    rw [pow_zero, Nat.div_one]
    exact ofNat_byte _ _
  have hhigh : BitVec.ofNat 8 (u16At s pos / 256 ^ 1) = s (pos + 1) := by
    have hdiv : u16At s pos / 256 ^ 1 = (s (pos + 1)).toNat := by
      unfold u16At
      have := (s pos).isLt
      omega
    rw [hdiv, BitVec.ofNat_toNat]
    exact BitVec.setWidth_eq _
  show [BitVec.ofNat 8 (u16At s pos / 256 ^ 0), BitVec.ofNat 8 (u16At s pos / 256 ^ 1)] = _
  rw [hlow, hhigh]

theorem leBytes_u32 (s : ByteMap) (pos : Nat) :
    leBytes 4 (u32At s pos) = [s pos, s (pos + 1), s (pos + 2), s (pos + 3)] := by
  have hsplit : leBytes 4 (u32At s pos) = leBytes 2 (u16At s pos) ++ leBytes 2 (u16At s (pos + 2)) := by
    have hlt := u16At_lt s pos
    have hmod : ∀ n m : Nat, n % 256 = m % 256 → BitVec.ofNat 8 n = BitVec.ofNat 8 m := by
      intro n m h
      apply BitVec.eq_of_toNat_eq
      rw [BitVec.toNat_ofNat, BitVec.toNat_ofNat]
      exact h
    show [BitVec.ofNat 8 (u32At s pos / 256 ^ 0), BitVec.ofNat 8 (u32At s pos / 256 ^ 1),
      BitVec.ofNat 8 (u32At s pos / 256 ^ 2), BitVec.ofNat 8 (u32At s pos / 256 ^ 3)] =
      [BitVec.ofNat 8 (u16At s pos / 256 ^ 0), BitVec.ofNat 8 (u16At s pos / 256 ^ 1),
      BitVec.ofNat 8 (u16At s (pos + 2) / 256 ^ 0), BitVec.ofNat 8 (u16At s (pos + 2) / 256 ^ 1)]
    unfold u32At
    rw [hmod ((u16At s pos + 65536 * u16At s (pos + 2)) / 256 ^ 0) (u16At s pos / 256 ^ 0) (by omega),
      hmod ((u16At s pos + 65536 * u16At s (pos + 2)) / 256 ^ 1) (u16At s pos / 256 ^ 1) (by omega),
      hmod ((u16At s pos + 65536 * u16At s (pos + 2)) / 256 ^ 2) (u16At s (pos + 2) / 256 ^ 0) (by omega),
      hmod ((u16At s pos + 65536 * u16At s (pos + 2)) / 256 ^ 3) (u16At s (pos + 2) / 256 ^ 1) (by omega)]
  rw [hsplit, leBytes_u16, leBytes_u16]
  rfl

/-- Everything behind the name is stored as it was read, but for the reserved bytes. -/
theorem stored_rest (s : ByteMap) {i : Nat} (hi : i < 21) :
    stored s (11 + i) = [s 11, 0, s 13, s 14, s 15, s 16, s 17, s 18, s 19, 0, 0, s 22, s 23, s 24, s 25,
      s 26, s 27, s 28, s 29, s 30, s 31].getD i 0 := by
  have hzero : leBytes 2 0 = [0, 0] := rfl
  have hnames : (padded 8 (rewritten s).1 ++ padded 3 (rewritten s).2).length = 11 := by
    rw [List.length_append, padded_length, padded_length]
  unfold stored
  rw [if_pos (by simp only [FAT12_ENTRY_BYTES]; omega), encode_eq, leBytes_u16, leBytes_u16, leBytes_u16,
    hzero, leBytes_u16, leBytes_u16, leBytes_u16, leBytes_u32]
  simp only [List.append_assoc]
  rw [← List.append_assoc, List.getD_append_right _ _ _ _ (by omega), hnames, Nat.add_sub_cancel_left]
  rfl

theorem bytesAt_eq {mem : ByteMap} {pos n : Nat} {l : List Byte} (hlen : l.length = n)
    (h : ∀ i, i < n → mem (pos + i) = l.getD i 0) : bytesAt mem pos n = l := by
  unfold bytesAt
  apply List.ext_getElem
  · rw [List.length_map, List.length_range, hlen]
  · intro i hi hi'
    rw [List.getElem_map, List.getElem_range, h i (by omega), List.getD_eq_getElem _ _ hi']

theorem stored_name (s : ByteMap) : bytesAt (stored s) 0 8 = padded 8 (rewritten s).1 := by
  apply bytesAt_eq (padded_length 8 _)
  intro i hi
  unfold stored
  rw [if_pos (by simp only [FAT12_ENTRY_BYTES]; omega), encode_eq, Nat.zero_add]
  simp only [List.append_assoc]
  rw [List.getD_append _ _ _ _ (by rw [padded_length]; omega)]

theorem stored_ext (s : ByteMap) : bytesAt (stored s) 8 3 = padded 3 (rewritten s).2 := by
  apply bytesAt_eq (padded_length 3 _)
  intro i hi
  unfold stored
  rw [if_pos (by simp only [FAT12_ENTRY_BYTES]; omega), encode_eq]
  simp only [List.append_assoc]
  rw [List.getD_append_right _ _ _ _ (by rw [padded_length]; omega), padded_length, Nat.add_sub_cancel_left,
    List.getD_append _ _ _ _ (by rw [padded_length]; omega)]

/-- A well-named entry is stored as the one that was read. -/
theorem WellNamed.liveEntry_stored {s : ByteMap} (h : WellNamed s) : liveEntry (stored s) = liveEntry s := by
  obtain ⟨-, hname, hext⟩ := h.rewritten
  have hrest := fun i (hi : i < 21) => stored_rest s hi
  unfold liveEntry
  rw [stored_name, stored_ext, hname, hext, LiveEntry.mk.injEq]
  refine ⟨rfl, rfl, hrest 0 (by omega), ?_, ?_⟩
  · unfold u16At
    rw [show stored s 26 = s 26 from hrest 15 (by omega), show stored s (26 + 1) = s 27 from hrest 16 (by omega)]
  · unfold u32At u16At
    rw [show stored s 28 = s 28 from hrest 17 (by omega), show stored s (28 + 1) = s 29 from hrest 18 (by omega),
      show stored s (28 + 2) = s 30 from hrest 19 (by omega),
      show stored s (28 + 2 + 1) = s 31 from hrest 20 (by omega)]

theorem stored_attr (s : ByteMap) : stored s 11 = s 11 := stored_rest s (by omega : 0 < 21)

theorem toLower_eq_del {c : Byte} (h : toLower c = 0xE5) : c = 0xE5 := by
  unfold toLower at h
  split at h
  · bv_omega
  · exact h

theorem toUpper_eq_del {c : Byte} (h : toUpper c = 0xE5) : c = 0xE5 := by
  unfold toUpper at h
  split at h
  · bv_omega
  · exact h

theorem toUpper_ne_zero {c : Byte} (h : c ≠ 0) : toUpper c ≠ 0 := by
  unfold toUpper
  split
  · bv_omega
  · exact h

/-- A name starts with the first character of the entry, or with its dot. -/
theorem entryName_head {s : ByteMap} {c : Byte} {rest : List Byte} (h : entryName s 0 = c :: rest) :
    c ≠ 0 ∧ (c = toLower (s 0) ∨ c = 0x2E) := by
  unfold entryName at h
  dsimp only at h
  have hbytes : bytesAt s 0 8 = s 0 :: bytesAt s 1 7 := rfl
  rw [hbytes] at h
  by_cases hblank : s 0 = 0x20
  · -- a blank first character: the name is the dot and the extension
    rw [List.takeWhile_cons_of_neg (by simpa using hblank), List.map_nil, List.nil_append] at h
    split at h
    · rw [List.takeWhile_cons_of_pos (by decide)] at h
      have hc := (List.cons.inj h).1
      rw [← hc]
      exact ⟨by decide, Or.inr rfl⟩
    · cases h
  · rw [List.takeWhile_cons_of_pos (by simpa using hblank), List.map_cons, List.cons_append,
      List.takeWhile_cons] at h
    split at h
    · rename_i hzero
      have hc := (List.cons.inj h).1
      rw [← hc]
      exact ⟨by simpa using hzero, Or.inl rfl⟩
    · cases h

theorem bytesAt_first (mem : ByteMap) : (bytesAt mem 0 8).getD 0 0 = mem 0 := rfl

/-- The first character that is written for an entry with a name is neither an end mark nor a deletion
mark. -/
theorem stored_first {s : ByteMap} (hname : entryName s 0 ≠ []) (hdel : s 0 ≠ 0xE5) :
    stored s 0 ≠ 0 ∧ stored s 0 ≠ 0xE5 ∧ (entryName s 0).head? ≠ some 0xE5 := by
  obtain ⟨c, rest, hentry⟩ := List.exists_cons_of_ne_nil hname
  obtain ⟨hc, hfrom⟩ := entryName_head hentry
  have hcdel : c ≠ 0xE5 := by
    rcases hfrom with rfl | rfl
    · exact fun h => hdel (toLower_eq_del h)
    · decide
  have hbase : (rewritten s).1 = [] ∨ (rewritten s).1.head? = some c := by
    unfold rewritten
    rw [hentry]
    split
    · exact Or.inr rfl
    · unfold splitName
      split
      · exact Or.inr rfl
      · rename_i k _
        cases (c :: rest).length - 1 - k with
        | zero => exact Or.inl rfl
        | succ m => exact Or.inr rfl
  have hfirst : stored s 0 = (padded 8 (rewritten s).1).getD 0 0 := by
    rw [← stored_name, bytesAt_first]
  have hstored : stored s 0 = 0x20 ∨ stored s 0 = toUpper c := by
    rw [hfirst]
    rcases hbase with hnil | hhead
    · left
      rw [hnil]
      rfl
    · right
      cases hsplit : (rewritten s).1 with
      | nil =>
          rw [hsplit] at hhead
          cases hhead
      | cons c' rest' =>
          rw [hsplit, List.head?_cons, Option.some.injEq] at hhead
          rw [hhead]
          rfl
  refine ⟨?_, ?_, ?_⟩
  · rcases hstored with h | h <;> rw [h]
    · decide
    · exact toUpper_ne_zero hc
  · rcases hstored with h | h <;> rw [h]
    · decide
    · exact fun h => hcdel (toUpper_eq_del h)
  · rw [hentry, List.head?_cons, Ne, Option.some.injEq]
    exact hcdel

/-! ### Nothing live is lost -/

/-- The slot that a flush writes for a kept entry with a name. -/
theorem flushSlot_stored {slot : Nat → ByteMap} {kept : List Nat} {rootEntries j k off : Nat}
    (hroom : j < rootEntries) (hkept : kept[j]? = some k) (hname : entryName (slot k) 0 ≠ [])
    (hdel : slot k 0 ≠ 0xE5) :
    flushSlot (kept.map fun k => normalized (slot k)) rootEntries j off = stored (slot k) off := by
  have hhead : ¬ (normalized (slot k)).name.head? = some 0xE5 := (stored_first hname hdel).2.2
  have hnonempty : ¬ (normalized (slot k)).name = [] := hname
  unfold flushSlot
  rw [if_neg (by omega), List.getElem?_map, hkept]
  dsimp only [Option.map_some]
  rw [if_neg hnonempty]
  unfold write
  rw [if_neg (by simpa using hhead)]
  unfold stored memcpy
  dsimp only
  by_cases hoff : off < FAT12_ENTRY_BYTES
  · rw [if_pos ⟨Nat.zero_le _, by omega⟩, if_pos hoff, Nat.sub_zero]
  · rw [if_neg (by omega), if_neg hoff]

theorem bytesAt_congr {s s' : ByteMap} {size pos n : Nat} (h : ∀ off, off < size → s off = s' off)
    (hn : pos + n ≤ size) : bytesAt s pos n = bytesAt s' pos n := by
  apply List.map_congr_left
  intro i hi
  rw [List.mem_range] at hi
  exact h _ (by omega)

theorem liveEntry_congr {s s' : ByteMap} (h : ∀ off, off < FAT12_ENTRY_BYTES → s off = s' off) :
    liveEntry s = liveEntry s' := by
  have hbytes : ∀ pos n, pos + n ≤ FAT12_ENTRY_BYTES → bytesAt s pos n = bytesAt s' pos n :=
    fun pos n hn => bytesAt_congr h hn
  simp only [FAT12_ENTRY_BYTES] at h hbytes
  unfold liveEntry u32At u16At
  rw [hbytes 0 8 (by omega), hbytes 8 3 (by omega), h 11 (by omega), h 26 (by omega), h (26 + 1) (by omega),
    h 28 (by omega), h (28 + 1) (by omega), h (28 + 2) (by omega), h (28 + 2 + 1) (by omega)]

/-- An entry that `read` gives no name: blank, and without an extension that counts. -/
def Nameless (s : ByteMap) : Prop := s 0 = 0x20 ∧ (s 11 &&& DIRECTORY ≠ 0 ∨ s 8 = 0x20)

theorem entryName_ne_nil {s : ByteMap} (hs : s 0 ≠ 0) (h : ¬ Nameless s) : entryName s 0 ≠ [] := by
  have hbytes : bytesAt s 0 8 = s 0 :: bytesAt s 1 7 := rfl
  unfold entryName
  dsimp only
  rw [hbytes]
  by_cases hblank : s 0 = 0x20
  · have hext : s (0 + 11) &&& DIRECTORY = 0 ∧ s (0 + 8) ≠ 0x20 := by
      by_contra hnot
      apply h
      refine ⟨hblank, ?_⟩
      by_contra hor
      obtain ⟨hattr, hfirst⟩ := not_or.mp hor
      exact hnot ⟨not_not.mp hattr, hfirst⟩
    rw [List.takeWhile_cons_of_neg (by simpa using hblank), if_pos hext, List.map_nil, List.nil_append,
      List.takeWhile_cons_of_pos (by decide)]
    exact List.cons_ne_nil _ _
  · rw [List.takeWhile_cons_of_pos (by simpa using hblank), List.map_cons, List.cons_append,
      List.takeWhile_cons_of_pos (by simpa using toLower_ne_zero hs)]
    exact List.cons_ne_nil _ _

/-- A long-name part stands directly before entry `k`. -/
def BehindLfn (slot : Nat → ByteMap) (k : Nat) : Prop := ∃ j, k = j + 1 ∧ IsLfn (slot j)

/-- A directory whose live entries outlast a flush: none stands directly behind a long-name part, which
`read` does not keep; each has a name that is put down as it was; and no nameless volume label, which is
stored as the end mark, is kept before one. -/
structure Storable (slot : Nat → ByteMap) (n k : Nat) : Prop where
  alone : ∀ i ∈ liveSlots slot n k, ¬ BehindLfn slot i
  named : ∀ i ∈ liveSlots slot n k, WellNamed (slot i)
  labels : ∀ i ∈ liveSlots slot n k, ∀ j, k ≤ j → j < i → IsLabel (slot j) → ¬ IsLfn (slot j) →
    slot j 0 ≠ 0xE5 → ¬ BehindLfn slot j → ¬ Nameless (slot j)

theorem Storable.tail {slot : Nat → ByteMap} {n k : Nat} (h : Storable slot (n + 1) k)
    (hmem : ∀ i ∈ liveSlots slot n (k + 1), i ∈ liveSlots slot (n + 1) k) : Storable slot n (k + 1) where
  alone := fun i hi => h.alone i (hmem i hi)
  named := fun i hi => h.named i (hmem i hi)
  labels := fun i hi j hj => h.labels i (hmem i hi) j (by omega)

theorem lt_of_mem_liveSlots {slot : Nat → ByteMap} {n k i : Nat} (h : i ∈ liveSlots slot n k) : k ≤ i := by
  induction n generalizing k with
  | zero => cases h
  | succ n ih =>
      rw [liveSlots] at h
      split_ifs at h
      · have := ih h
        omega
      · cases h
      · have := ih h
        omega
      · rcases List.mem_cons.mp h with rfl | h
        · exact le_refl i
        · have := ih h
          omega

/-- The entries from the `k`-th on, as the flushed directory has them from the `j`-th on. -/
theorem liveSlots_flushed {slot slot' : Nat → ByteMap} {n n' k j : Nat} {lfn : Bool}
    (hstore : Storable slot n k) (hlfn : lfn = true ↔ BehindLfn slot k)
    (hroom : (keptSlots slot n k lfn).length ≤ n')
    (hkept : ∀ t i, (keptSlots slot n k lfn)[t]? = some i → entryName (slot i) 0 ≠ [] → slot i 0 ≠ 0xE5 →
      ∀ off, off < FAT12_ENTRY_BYTES → slot' (j + t) off = stored (slot i) off) :
    ((liveSlots slot n k).map fun i => liveEntry (slot i)) <+:
      (liveSlots slot' n' j).map fun i => liveEntry (slot' i) := by
  induction n generalizing k j n' lfn with
  | zero => exact List.nil_prefix
  | succ n ih =>
      rw [keptSlots] at hroom hkept
      by_cases hisLfn : IsLfn (slot k)
      · have hlive : liveSlots slot (n + 1) k = liveSlots slot n (k + 1) := by rw [liveSlots, if_pos hisLfn]
        rw [if_pos hisLfn] at hroom hkept
        rw [hlive]
        exact ih (hstore.tail fun i hi => hlive ▸ hi)
          ⟨fun _ => ⟨k, rfl, hisLfn⟩, fun _ => rfl⟩ hroom hkept
      · have hnext : (false = true) ↔ BehindLfn slot (k + 1) := by
          refine ⟨nofun, ?_⟩
          rintro ⟨i, hi, hisLfn'⟩
          rw [← Nat.succ.inj hi] at hisLfn'
          exact absurd hisLfn' hisLfn
        rw [if_neg hisLfn] at hroom hkept
        by_cases hend : slot k 0 = 0
        · rw [liveSlots, if_neg hisLfn, if_pos hend]
          exact List.nil_prefix
        · rw [if_neg hend] at hroom hkept
          by_cases hskip : slot k 0 = 0xE5 ∨ lfn = true
          · rw [if_pos hskip] at hroom hkept
            have hlive : liveSlots slot (n + 1) k = liveSlots slot n (k + 1) := by
              rw [liveSlots, if_neg hisLfn, if_neg hend]
              by_cases hdel : slot k 0 = 0xE5 ∨ IsLabel (slot k)
              · rw [if_pos hdel]
              · -- a live entry behind a long-name part
                obtain ⟨hndel, hnlabel⟩ := not_or.mp hdel
                have hbehind := hlfn.mp (hskip.resolve_left hndel)
                have hmem : k ∈ liveSlots slot (n + 1) k := by
                  rw [liveSlots, if_neg hisLfn, if_neg hend, if_neg hdel]
                  exact List.mem_cons_self
                exact absurd hbehind (hstore.alone k hmem)
            rw [hlive]
            exact ih (hstore.tail fun i hi => hlive ▸ hi) hnext hroom hkept
          · rw [if_neg hskip] at hroom hkept
            obtain ⟨hndel, hnlfn⟩ := not_or.mp hskip
            have hnbehind : ¬ BehindLfn slot k := fun h => hnlfn (hlfn.mpr h)
            obtain ⟨m, rfl⟩ : ∃ m, n' = m + 1 := by
              rw [List.length_cons] at hroom
              exact ⟨n' - 1, by omega⟩
            by_cases hnone : liveSlots slot (n + 1) k = []
            · rw [hnone]
              exact List.nil_prefix
            · have hlive : liveSlots slot (n + 1) k =
                  if IsLabel (slot k) then liveSlots slot n (k + 1) else k :: liveSlots slot n (k + 1) := by
                rw [liveSlots, if_neg hisLfn, if_neg hend]
                by_cases hlabel : IsLabel (slot k)
                · rw [if_pos (Or.inr hlabel), if_pos hlabel]
                · rw [if_neg (not_or.mpr ⟨hndel, hlabel⟩), if_neg hlabel]
              have hname : entryName (slot k) 0 ≠ [] := by
                by_cases hlabel : IsLabel (slot k)
                · obtain ⟨i, hi⟩ := List.exists_mem_of_ne_nil _ hnone
                  have hlater : k < i := by
                    rw [hlive, if_pos hlabel] at hi
                    exact lt_of_mem_liveSlots hi
                  exact entryName_ne_nil hend
                    (hstore.labels i hi k (le_refl k) hlater hlabel hisLfn hndel hnbehind)
                · refine (hstore.named k ?_).rewritten.1
                  rw [hlive, if_neg hlabel]
                  exact List.mem_cons_self
              have hstored := hkept 0 k rfl hname hndel
              rw [Nat.add_zero] at hstored
              have hattr : slot' j 11 = slot k 11 := by
                rw [hstored 11 (by decide), stored_attr]
              have hfirst : slot' j 0 = stored (slot k) 0 := hstored 0 (by decide)
              obtain ⟨hnonzero, hnotdel, -⟩ := stored_first hname hndel
              rw [← hfirst] at hnonzero hnotdel
              have hisLfn' : ¬ IsLfn (slot' j) := by
                unfold IsLfn
                rw [hattr]
                exact hisLfn
              have hlabel' : IsLabel (slot' j) ↔ IsLabel (slot k) := by
                unfold IsLabel
                rw [hattr]
              have hroom' : (keptSlots slot n (k + 1) false).length ≤ m := by
                rw [List.length_cons] at hroom
                omega
              have hrest := ih (hstore.tail fun i hi => by
                  rw [hlive]
                  split
                  · exact hi
                  · exact List.mem_cons_of_mem k hi)
                hnext hroom'
                (fun t i ht hi hdel off hoff => by
                  have := hkept (t + 1) i (by rw [List.getElem?_cons_succ]; exact ht) hi hdel off hoff
                  rwa [← Nat.add_assoc, Nat.add_right_comm] at this)
              rw [hlive, liveSlots, if_neg hisLfn', if_neg hnonzero]
              by_cases hlabel : IsLabel (slot k)
              · rw [if_pos hlabel, if_pos (Or.inr (hlabel'.mpr hlabel))]
                exact hrest
              · have hmem : k ∈ liveSlots slot (n + 1) k := by
                  rw [hlive, if_neg hlabel]
                  exact List.mem_cons_self
                have heq : liveEntry (slot' j) = liveEntry (slot k) := by
                  rw [liveEntry_congr hstored, (hstore.named k hmem).liveEntry_stored]
                rw [if_neg hlabel, if_neg (not_or.mpr ⟨hnotdel, fun h => hlabel (hlabel'.mp h)⟩), List.map_cons,
                  List.map_cons, heq]
                exact (List.prefix_cons_inj _).mpr hrest

/-- `root_sector_count`, with sectors of 512 bytes. -/
def rootSectorCount (rootEntries : Nat) : Nat :=
  (rootEntries * FAT12_ENTRY_BYTES + FAT12_SECTOR_SIZE - 1) / FAT12_SECTOR_SIZE

theorem le_rootSectorCount (rootEntries : Nat) :
    rootEntries ≤ rootSectorCount rootEntries * ENTRY_PER_SECTOR := by
  simp only [rootSectorCount, ENTRY_PER_SECTOR, FAT12_ENTRY_BYTES, FAT12_SECTOR_SIZE]
  omega

/-- The root sectors after `init_root_dir` and `flush_root_dir`. -/
def synced (sector : Nat → ByteMap) (start rootEntries : Nat) : Nat → ByteMap :=
  flushRootDir (initRootDir sector start (rootSectorCount rootEntries) rootEntries) rootEntries sector start
    (rootSectorCount rootEntries)

/-- Mounting and syncing a storable root directory leaves every live entry on the disk. -/
theorem liveEntries_synced (sector : Nat → ByteMap) (start rootEntries : Nat)
    (hstore : Storable (slotAt sector start) rootEntries 0) :
    (liveEntries sector start rootEntries).Subperm
      (liveEntries (synced sector start rootEntries) start rootEntries) := by
  have hsectors := le_rootSectorCount rootEntries
  apply List.Sublist.subperm
  apply List.IsPrefix.sublist
  unfold liveEntries synced
  have hnone : (false = true) ↔ BehindLfn (slotAt sector start) 0 := ⟨nofun, by rintro ⟨i, hi, -⟩; cases hi⟩
  refine liveSlots_flushed hstore hnone (keptSlots_length _ _ _ _) ?_
  intro t i ht hname hdel off hoff
  have hlt : t < rootEntries := by
    have := (List.getElem?_eq_some_iff.mp ht).1
    have := keptSlots_length (slotAt sector start) rootEntries 0 false
    omega
  have hprefix := keptSlots_prefix (slotAt sector start) rootEntries
    (rootSectorCount rootEntries * ENTRY_PER_SECTOR - rootEntries) 0 false
  rw [Nat.add_sub_cancel' hsectors] at hprefix
  obtain ⟨rest, hrest⟩ := hprefix
  have hall : ((keptSlots (slotAt sector start) (rootSectorCount rootEntries * ENTRY_PER_SECTOR) 0
      false).take rootEntries)[t]? = some i := by
    rw [List.getElem?_take_of_lt hlt, ← hrest, List.getElem?_append_left (List.getElem?_eq_some_iff.mp ht).1]
    exact ht
  rw [Nat.zero_add, slotAt_flushRootDir _ _ _ (by omega) hoff, initRootDir_eq]
  exact flushSlot_stored hlt hall hname hdel

/-- A root sector that starts with the entry `A`, with nothing behind it. -/
def oneName : Nat → ByteMap := fun _ off =>
  if off = 0 then 0x41 else if off < 11 then 0x20 else 0

theorem storable_oneName : Storable (slotAt oneName 0) 16 0 := by
  have hlive : liveSlots (slotAt oneName 0) 16 0 = [0] := by decide +kernel
  refine ⟨?_, ?_, ?_⟩
  · rw [hlive]
    rintro i hi ⟨j, hj, -⟩
    rw [List.mem_singleton] at hi
    omega
  · rw [hlive]
    intro i hi
    rw [List.mem_singleton.mp hi]
    refine ⟨[0x41], [], by decide, by decide, by decide +kernel, by decide +kernel, ?_, nofun, nofun, ?_, ?_, ?_⟩
    · intro c hc
      rw [List.mem_singleton.mp hc]
      unfold Plain
      decide
    · exact fun _ => List.cons_ne_nil _ _
    · exact fun _ => rfl
    · intro _ _
      decide
  · rw [hlive]
    intro i hi j _ hj
    rw [List.mem_singleton] at hi
    omega

theorem liveEntries_synced_oneName :
    (liveEntries oneName 0 16).Subperm (liveEntries (synced oneName 0 16) 0 16) :=
  liveEntries_synced oneName 0 16 storable_oneName

/-- A long-name part and, behind it, the short entry `A` it belongs to. -/
def longName : Nat → ByteMap := fun _ off =>
  if off = 11 then 0x0F else if off = 32 then 0x41 else if 32 < off ∧ off < 43 then 0x20 else 0

/-- The entry of a file with a long name is gone after a mount and a sync. -/
theorem not_liveEntries_synced :
    ¬ (liveEntries longName 0 16).Subperm (liveEntries (synced longName 0 16) 0 16) := by
  have hbefore : (liveEntries longName 0 16).length = 1 := by decide +kernel
  have hafter : (liveEntries (synced longName 0 16) 0 16).length = 0 := by decide +kernel
  intro h
  have := h.length_le
  omega

end SysuOs.Root
