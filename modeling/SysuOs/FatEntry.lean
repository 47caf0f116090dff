import SysuOs.FatIter

/-! The two directions between a directory entry and its 32 bytes: `write` followed by `read`, and `read`
followed by `write`. -/

namespace SysuOs.Root

open EntryBuf FAT12FS Vfs

/-- The base and the extension that `write` puts down. -/
def nameParts (e : NormalizedEntry) : List Byte × List Byte :=
  if e.attr &&& DIRECTORY ≠ 0 then (e.name, []) else splitName e.name

/-- What `write` puts down behind the name. -/
def fields (e : NormalizedEntry) : List Byte :=
  [e.attr, 0, e.createTimeTenths] ++ leBytes 2 e.createTime ++ leBytes 2 e.createDate ++
    leBytes 2 e.lastAccessDate ++ leBytes 2 0 ++ leBytes 2 e.writeTime ++ leBytes 2 e.writeDate ++
    leBytes 2 e.startCluster ++ leBytes 4 e.fileSize

theorem encode_parts (e : NormalizedEntry) :
    encode e = padded 8 (nameParts e).1 ++ (padded 3 (nameParts e).2 ++ fields e) := by
  unfold encode nameParts fields
  split
  rename_i heq
  rw [heq]
  simp only [List.append_assoc]

/-- The bytes of an entry that is written. -/
def written (e : NormalizedEntry) : ByteMap := fun k => (encode e).getD k 0

theorem written_name (e : NormalizedEntry) {i : Nat} (hi : i < 8) :
    written e i = (padded 8 (nameParts e).1).getD i 0 := by
  unfold written
  rw [encode_parts, List.getD_append _ _ _ _ (by rw [padded_length]; exact hi)]

theorem written_ext (e : NormalizedEntry) {i : Nat} (hi : i < 3) :
    written e (8 + i) = (padded 3 (nameParts e).2).getD i 0 := by
  unfold written
  rw [encode_parts, List.getD_append_right _ _ _ _ (by rw [padded_length]; omega), padded_length,
    Nat.add_sub_cancel_left, List.getD_append _ _ _ _ (by rw [padded_length]; exact hi)]

theorem written_fields (e : NormalizedEntry) (i : Nat) : written e (11 + i) = (fields e).getD i 0 := by
  unfold written
  rw [encode_parts, List.getD_append_right _ _ _ _ (by rw [padded_length]; omega), padded_length,
    List.getD_append_right _ _ _ _ (by rw [padded_length]; omega), padded_length]
  congr 1
  omega

theorem bytesAt_written_name (e : NormalizedEntry) : bytesAt (written e) 0 8 = padded 8 (nameParts e).1 := by
  apply bytesAt_eq (padded_length 8 _)
  intro i hi
  rw [Nat.zero_add, written_name e hi]

theorem bytesAt_written_ext (e : NormalizedEntry) : bytesAt (written e) 8 3 = padded 3 (nameParts e).2 := by
  apply bytesAt_eq (padded_length 3 _)
  intro i hi
  rw [written_ext e hi]

/-- `write` at `pos` puts the bytes of the entry there. -/
theorem write_at (b : EntryBuf) (mem : ByteMap) (pos : Nat) {off : Nat} (hoff : off < FAT12_ENTRY_BYTES) :
    (b.write mem pos false).2 (pos + off) = written b.normalizedEntry off := by
  have hin : pos ≤ pos + off ∧ pos + off < pos + FAT12_ENTRY_BYTES := by omega
  change memcpy mem pos (fun k => (encode b.normalizedEntry).getD k 0) FAT12_ENTRY_BYTES (pos + off) = _
  unfold memcpy
  rw [if_pos hin, Nat.add_sub_cancel_left]
  rfl

/-! ### Encoding and decoding -/

/-- A character of a name in lower case: no NUL, blank, dot or capital letter. -/
def LowerChar (c : Byte) : Prop := c ≠ 0 ∧ c ≠ 0x20 ∧ c ≠ 0x2E ∧ ¬(0x41 ≤ c.toNat ∧ c.toNat ≤ 0x5A)

/-- The name of the entry is a lower-case 8.3 name, without an extension if it is a directory. -/
structure LowerName (e : NormalizedEntry) (base ext : List Byte) : Prop where
  base_ne : base ≠ []
  base_le : base.length ≤ 8
  base_head : base.head? ≠ some 0xE5
  ext_le : ext.length ≤ 3
  chars : ∀ c ∈ base ++ ext, LowerChar c
  name : e.name = if ext = [] then base else base ++ 0x2E :: ext
  directory : e.attr &&& DIRECTORY ≠ 0 → ext = []

/-- The numbers fit their fields. -/
structure InRange (e : NormalizedEntry) : Prop where
  startCluster : e.startCluster < 2 ^ 16
  createTime : e.createTime < 2 ^ 16
  createDate : e.createDate < 2 ^ 16
  lastAccessDate : e.lastAccessDate < 2 ^ 16
  writeTime : e.writeTime < 2 ^ 16
  writeDate : e.writeDate < 2 ^ 16
  fileSize : e.fileSize < 2 ^ 32

theorem LowerChar.toLower_toUpper {c : Byte} (h : LowerChar c) : toLower (toUpper c) = c := by
  have hcapital := h.2.2.2
  unfold toUpper
  split
  · rename_i hc
    have hval : (c - 0x20).toNat = c.toNat - 32 := by bv_omega
    unfold toLower
    rw [if_pos (by omega)]
    bv_omega
  · unfold toLower
    rw [if_neg hcapital]

theorem LowerChar.plain_toUpper {c : Byte} (h : LowerChar c) : Plain (toUpper c) := by
  obtain ⟨hzero, hblank, -, -⟩ := h
  unfold toUpper
  split
  · refine ⟨?_, ?_, ?_⟩ <;> bv_omega
  · rename_i hsmall
    exact ⟨hblank, hzero, hsmall⟩

theorem map_toLower_toUpper {s : List Byte} (h : ∀ c ∈ s, LowerChar c) : (s.map toUpper).map toLower = s := by
  rw [List.map_map]
  conv_rhs => rw [← List.map_id s]
  apply List.map_congr_left
  intro c hc
  exact (h c hc).toLower_toUpper

theorem padded_eq {s : List Byte} {n : Nat} (hlen : s.length ≤ n) :
    padded n s = s.map toUpper ++ List.replicate (n - s.length) 0x20 := by
  have hmap : (s.map toUpper).length ≤ n := by rwa [List.length_map]
  unfold padded
  rw [List.take_append, List.take_of_length_le hmap, List.take_replicate, List.length_map,
    Nat.min_eq_left (Nat.sub_le n s.length)]

theorem takeWhile_padded_map {s : List Byte} {n : Nat} (hlen : s.length ≤ n) (h : ∀ c ∈ s, LowerChar c) :
    ((padded n s).takeWhile (· != 0x20)).map toLower = s := by
  rw [padded_eq hlen, takeWhile_padded, map_toLower_toUpper h]
  intro c hc
  obtain ⟨c', hc', rfl⟩ := List.mem_map.mp hc
  exact (h c' hc').plain_toUpper

/-- Two bytes hold a number that fits. -/
theorem u16_leBytes {v : Nat} (h : v < 2 ^ 16) :
    (BitVec.ofNat 8 (v / 256 ^ 0)).toNat + 256 * (BitVec.ofNat 8 (v / 256 ^ 1)).toNat = v := by
  rw [BitVec.toNat_ofNat, BitVec.toNat_ofNat]
  omega

theorem u32_leBytes {v : Nat} (h : v < 2 ^ 32) :
    (BitVec.ofNat 8 (v / 256 ^ 0)).toNat + 256 * (BitVec.ofNat 8 (v / 256 ^ 1)).toNat +
      65536 * ((BitVec.ofNat 8 (v / 256 ^ 2)).toNat + 256 * (BitVec.ofNat 8 (v / 256 ^ 3)).toNat) = v := by
  simp only [BitVec.toNat_ofNat]
  omega

section

variable {e : NormalizedEntry} {base ext : List Byte}

theorem LowerName.parts (h : LowerName e base ext) : nameParts e = (base, ext) := by
  have hdot : ∀ c ∈ base ++ ext, c ≠ 0x2E := fun c hc => (h.chars c hc).2.2.1
  unfold nameParts
  rw [h.name]
  split
  · rename_i hdir
    rw [if_pos (h.directory hdir), h.directory hdir]
  · split
    · rename_i hnoext
      rw [hnoext]
      exact splitName_dotless fun hmem => hdot _ (List.mem_append_left ext hmem) rfl
    · exact splitName_dot base fun hmem => hdot _ (List.mem_append_right base hmem) rfl

theorem LowerName.entryName_written (h : LowerName e base ext) : entryName (written e) 0 = e.name := by
  have hbase : ∀ c ∈ base, LowerChar c := fun c hc => h.chars c (List.mem_append_left ext hc)
  have hext : ∀ c ∈ ext, LowerChar c := fun c hc => h.chars c (List.mem_append_right base hc)
  have hattr : written e (0 + 11) = e.attr := written_fields e 0
  have hfirst : written e (0 + 8) ≠ 0x20 ↔ ext ≠ [] := by
    have height : written e (0 + 8) = (padded 3 ext).getD 0 0 := by
      rw [show 0 + 8 = 8 + 0 from rfl, written_ext e (by omega), h.parts]
    rw [height, padded_eq h.ext_le]
    cases ext with
    | nil => simp
    | cons c ext =>
        have hplain := (hext c List.mem_cons_self).plain_toUpper
        simpa using hplain.1
  have hall : ∀ c ∈ e.name, c ≠ 0 := by
    intro c hc
    rw [h.name] at hc
    split at hc
    · exact (hbase c hc).1
    · rcases List.mem_append.mp hc with hc | hc
      · exact (hbase c hc).1
      · rcases List.mem_cons.mp hc with rfl | hc
        · decide
        · exact (hext c hc).1
  unfold entryName
  rw [bytesAt_written_name, show 0 + 8 = 8 from rfl, bytesAt_written_ext, h.parts,
    takeWhile_padded_map h.base_le hbase, takeWhile_padded_map h.ext_le hext, hattr]
  by_cases hnoext : ext = []
  · rw [if_neg (fun hboth => hfirst.mp hboth.2 hnoext)]
    dsimp only
    rw [List.append_nil, ← takeWhile_eq_self hall, h.name, if_pos hnoext]
  · have hfile : e.attr &&& DIRECTORY = 0 := by
      by_contra hdir
      exact hnoext (h.directory hdir)
    rw [if_pos ⟨hfile, hfirst.mpr hnoext⟩]
    dsimp only
    rw [← takeWhile_eq_self hall, h.name, if_neg hnoext]

theorem LowerName.normalized_written (h : LowerName e base ext) (hrange : InRange e) :
    normalized (written e) = e := by
  have hfield : ∀ i, written e (11 + i) = (fields e).getD i 0 := written_fields e
  have hu16 : ∀ pos v, written e pos = BitVec.ofNat 8 (v / 256 ^ 0) →
      written e (pos + 1) = BitVec.ofNat 8 (v / 256 ^ 1) → v < 2 ^ 16 → u16At (written e) pos = v := by
    intro pos v hlow hhigh hv
    unfold u16At
    rw [hlow, hhigh, u16_leBytes hv]
  have hsize : u32At (written e) 28 = e.fileSize := by
    unfold u32At u16At
    rw [show written e 28 = _ from hfield 17, show written e (28 + 1) = _ from hfield 18,
      show written e (28 + 2) = _ from hfield 19, show written e (28 + 2 + 1) = _ from hfield 20]
    exact u32_leBytes hrange.fileSize
  have hname := h.entryName_written
  unfold normalized
  rw [hname, hu16 26 e.startCluster (hfield 15) (hfield 16) hrange.startCluster,
    show written e 11 = e.attr from hfield 0, show written e 13 = e.createTimeTenths from hfield 2,
    hu16 14 e.createTime (hfield 3) (hfield 4) hrange.createTime,
    hu16 16 e.createDate (hfield 5) (hfield 6) hrange.createDate,
    hu16 18 e.lastAccessDate (hfield 7) (hfield 8) hrange.lastAccessDate,
    hu16 22 e.writeTime (hfield 11) (hfield 12) hrange.writeTime,
    hu16 24 e.writeDate (hfield 13) (hfield 14) hrange.writeDate, hsize]

/-- The first byte is the first character, in capitals. -/
theorem LowerName.written_first (h : LowerName e base ext) : written e 0 ≠ 0 ∧ written e 0 ≠ 0xE5 := by
  obtain ⟨c, rest, rfl⟩ := List.exists_cons_of_ne_nil h.base_ne
  have hc : LowerChar c := h.chars c List.mem_cons_self
  have hfirst : written e 0 = toUpper c := by
    rw [written_name e (by omega), h.parts, padded_eq h.base_le]
    rfl
  rw [hfirst]
  refine ⟨toUpper_ne_zero hc.1, fun hdel => ?_⟩
  apply h.base_head
  rw [List.head?_cons, toUpper_eq_del hdel]

end

/-- An entry with a lower-case 8.3 name that is written anywhere is read back as it was. -/
theorem read_write {e : NormalizedEntry} {base ext : List Byte} (h : LowerName e base ext) (hrange : InRange e)
    (hattr : e.attr ≠ 0x0F) (status : EntryStatus) (mem : ByteMap) (pos : Nat) :
    (EntryBuf.mk e status).write mem pos false = (true, (EntryBuf.write ⟨e, status⟩ mem pos false).2) ∧
      reset.read (EntryBuf.write ⟨e, status⟩ mem pos false).2 pos = (true, ⟨e, .VALID⟩) := by
  refine ⟨rfl, ?_⟩
  have hlfn : ¬IsLfn (written e) := by
    unfold IsLfn
    rwa [show written e 11 = e.attr from written_fields e 0]
  rw [read_at reset (fun off hoff => write_at ⟨e, status⟩ mem pos hoff), read_slot, if_neg hlfn,
    if_neg h.written_first.1, if_neg h.written_first.2, if_neg (by decide), h.normalized_written hrange]

/-- The file `a.b`. -/
def fileAB : NormalizedEntry where
  name := [0x61, 0x2E, 0x62]
  startCluster := 2
  attr := 0x20
  createTimeTenths := 0
  createTime := 0
  createDate := 0
  lastAccessDate := 0
  writeTime := 0
  writeDate := 0
  fileSize := 100

theorem fileAB_lowerName : LowerName fileAB [0x61] [0x62] where
  base_ne := List.cons_ne_nil _ _
  base_le := by decide
  base_head := by decide
  ext_le := by decide
  chars := by
    intro c hc
    unfold LowerChar
    revert c
    decide
  name := rfl
  directory := fun h => absurd rfl h

theorem read_write_fileAB :
    reset.read ((EntryBuf.mk fileAB .FREE).write (fun _ => 0) 0 false).2 0 = (true, ⟨fileAB, .VALID⟩) :=
  (read_write fileAB_lowerName
    ⟨by decide, by decide, by decide, by decide, by decide, by decide, by decide⟩ (by decide) .FREE
    (fun _ => 0) 0).2

/-! ### Decoding and encoding -/

/-- The name bytes of a short entry as FAT has them: characters in capitals with blanks behind them, and a base
that is not empty. -/
structure LegalName (s : ByteMap) (base ext : List Byte) : Prop where
  base_ne : base ≠ []
  base_le : base.length ≤ 8
  ext_le : ext.length ≤ 3
  name : bytesAt s 0 8 = base ++ List.replicate (8 - base.length) 0x20
  extension : bytesAt s 8 3 = ext ++ List.replicate (3 - ext.length) 0x20
  chars : ∀ c ∈ base ++ ext, Plain c ∧ c ≠ 0x2E

/-- The name, the attributes and the time stamps of an entry are the same. -/
def KeepsEntry (s s' : ByteMap) : Prop :=
  ∀ off, off < 12 ∨ 13 ≤ off ∧ off < 20 ∨ 22 ≤ off ∧ off < 26 → s' off = s off

/-- What is written back for an entry that was read, with another cluster and size. -/
def relocated (s : ByteMap) (startCluster fileSize : Nat) : NormalizedEntry :=
  { normalized s with startCluster, fileSize }

section

variable {s : ByteMap} {base ext : List Byte}

/-- Without the restriction on directories, the name is well-formed. -/
theorem LegalName.wellNamed (h : LegalName s base ext) (hdir : s 11 &&& DIRECTORY ≠ 0 → ext = []) : WellNamed s := by
  have hdot : ∀ {part : List Byte}, (∀ c ∈ part, Plain c ∧ c ≠ 0x2E) → 0x2E ∉ part :=
    fun hpart hmem => (hpart _ hmem).2 rfl
  have hbase : ∀ c ∈ base, Plain c ∧ c ≠ 0x2E := fun c hc => h.chars c (List.mem_append_left ext hc)
  have hext : ∀ c ∈ ext, Plain c ∧ c ≠ 0x2E := fun c hc => h.chars c (List.mem_append_right base hc)
  exact ⟨base, ext, h.base_le, h.ext_le, h.name, h.extension, fun c hc => (hbase c hc).1,
    fun c hc => (hext c hc).1, hdot hext, fun _ => h.base_ne, hdir, fun _ _ => hdot hbase⟩

theorem LegalName.ext_nil_iff (h : LegalName s base ext) : ext = [] ↔ s 8 = 0x20 := by
  have hbytes : bytesAt s 8 3 = [s 8, s 9, s 10] := rfl
  have hextension := h.extension
  rw [hbytes] at hextension
  cases hcases : ext with
  | nil =>
      rw [hcases] at hextension
      exact iff_of_true rfl (List.cons.inj hextension).1
  | cons c rest =>
      rw [hcases] at hextension
      apply iff_of_false (List.cons_ne_nil c rest)
      rw [(List.cons.inj hextension).1]
      exact (h.chars c (by rw [hcases]; simp)).1.1

theorem nameParts_relocated (s : ByteMap) (startCluster fileSize : Nat) :
    nameParts (relocated s startCluster fileSize) = rewritten s := rfl

/-- The fields behind the name are the same but for the reserved bytes, the cluster and the size. -/
theorem fields_relocated (s : ByteMap) (startCluster fileSize : Nat) :
    fields (relocated s startCluster fileSize) =
      [s 11, 0, s 13, s 14, s 15, s 16, s 17, s 18, s 19, 0, 0, s 22, s 23, s 24, s 25] ++
        (leBytes 2 startCluster ++ leBytes 4 fileSize) := by
  have hzero : leBytes 2 0 = [0, 0] := rfl
  change [s 11, 0, s 13] ++ leBytes 2 (u16At s 14) ++ leBytes 2 (u16At s 16) ++ leBytes 2 (u16At s 18) ++
    leBytes 2 0 ++ leBytes 2 (u16At s 22) ++ leBytes 2 (u16At s 24) ++ leBytes 2 startCluster ++
      leBytes 4 fileSize = _
  rw [leBytes_u16, leBytes_u16, leBytes_u16, hzero, leBytes_u16, leBytes_u16]
  simp only [List.append_assoc]
  rfl

theorem written_relocated (s : ByteMap) (startCluster fileSize : Nat) {i : Nat} (hi : i < 15) :
    written (relocated s startCluster fileSize) (11 + i) =
      [s 11, 0, s 13, s 14, s 15, s 16, s 17, s 18, s 19, 0, 0, s 22, s 23, s 24, s 25].getD i 0 := by
  rw [written_fields, fields_relocated, List.getD_append _ _ _ _ hi]

theorem bytesAt_getD {mem : ByteMap} {pos n i : Nat} (hi : i < n) : (bytesAt mem pos n).getD i 0 = mem (pos + i) := by
  unfold bytesAt
  rw [List.getD_eq_getElem _ _ (by rw [List.length_map, List.length_range]; exact hi), List.getElem_map,
    List.getElem_range]

theorem LegalName.keeps (h : LegalName s base ext) (hdir : s 11 &&& DIRECTORY ≠ 0 → ext = [])
    (startCluster fileSize : Nat) : KeepsEntry s (written (relocated s startCluster fileSize)) := by
  obtain ⟨-, hname, hext⟩ := (h.wellNamed hdir).rewritten
  intro off hoff
  by_cases hbase : off < 8
  · rw [written_name _ hbase, nameParts_relocated, hname, bytesAt_getD hbase, Nat.zero_add]
  · by_cases hextension : off < 11
    · obtain ⟨i, rfl⟩ := Nat.exists_eq_add_of_le (Nat.not_lt.mp hbase)
      have hi : i < 3 := by omega
      rw [written_ext _ hi, nameParts_relocated, hext, bytesAt_getD hi]
    · obtain ⟨i, rfl⟩ := Nat.exists_eq_add_of_le (Nat.not_lt.mp hextension)
      rw [written_relocated s startCluster fileSize (by omega)]
      have hcases : i = 0 ∨ i = 2 ∨ i = 3 ∨ i = 4 ∨ i = 5 ∨ i = 6 ∨ i = 7 ∨ i = 8 ∨ i = 11 ∨ i = 12 ∨
          i = 13 ∨ i = 14 := by omega
      rcases hcases with rfl | rfl | rfl | rfl | rfl | rfl | rfl | rfl | rfl | rfl | rfl | rfl <;> rfl

/-- The extension of a directory is written as blanks. -/
theorem not_keeps_directory (hdir : s 11 &&& DIRECTORY ≠ 0) (hext : s 8 ≠ 0x20) (startCluster fileSize : Nat) :
    ¬KeepsEntry s (written (relocated s startCluster fileSize)) := by
  intro hkeeps
  have hrewritten : rewritten s = (entryName s 0, []) := if_pos hdir
  have hblank : written (relocated s startCluster fileSize) (8 + 0) = 0x20 := by
    rw [written_ext _ (by omega), nameParts_relocated, hrewritten]
    rfl
  have hsame := hkeeps 8 (Or.inl (by omega))
  exact hext (hsame.symm.trans hblank)

end

/-- Reading a legal entry and writing it anywhere with another cluster and size keeps it if and only if it is
not a directory with an extension. -/
theorem rewrite_keeps_iff {mem : ByteMap} {pos : Nat} {b b' : EntryBuf} {base ext : List Byte}
    (hread : b.read mem pos = (true, b')) (h : LegalName (bytesFrom mem pos) base ext) :
    (∀ (startCluster fileSize : Nat) (dst : ByteMap) (pos' : Nat), KeepsEntry (bytesFrom mem pos)
      (bytesFrom (EntryBuf.write
        ⟨{ b'.normalizedEntry with startCluster, fileSize }, b'.status⟩ dst pos' false).2 pos')) ↔
      (mem (pos + 11) &&& DIRECTORY = 0 ∨ mem (pos + 8) = 0x20) := by
  have hentry : b'.normalizedEntry = normalized (bytesFrom mem pos) := by
    rw [read_at b (fun off _ => rfl : ∀ off, off < FAT12_ENTRY_BYTES → mem (pos + off) = bytesFrom mem pos off),
      read_slot] at hread
    split_ifs at hread
    all_goals first
      | exact absurd (congrArg Prod.fst hread) Bool.false_ne_true
      | exact (congrArg (fun r => r.2.normalizedEntry) hread).symm
  have hbytes : ∀ (startCluster fileSize : Nat) (dst : ByteMap) (pos' : Nat),
      KeepsEntry (bytesFrom mem pos) (bytesFrom (EntryBuf.write
        ⟨{ b'.normalizedEntry with startCluster, fileSize }, b'.status⟩ dst pos' false).2 pos') ↔
      KeepsEntry (bytesFrom mem pos) (written (relocated (bytesFrom mem pos) startCluster fileSize)) := by
    intro startCluster fileSize dst pos'
    rw [hentry]
    apply forall_congr'
    intro off
    apply imp_congr_right
    intro hoff
    have hlt : off < FAT12_ENTRY_BYTES := by
      simp only [FAT12_ENTRY_BYTES]
      omega
    unfold bytesFrom
    rw [write_at _ dst pos' hlt]
    rfl
  constructor
  · intro hkeeps
    by_contra hnot
    rw [not_or] at hnot
    exact not_keeps_directory hnot.1 hnot.2 0 0 ((hbytes 0 0 mem pos).mp (hkeeps 0 0 mem pos))
  · intro hcond startCluster fileSize dst pos'
    rw [hbytes]
    apply h.keeps
    intro hdir
    exact h.ext_nil_iff.mpr (hcond.resolve_left hdir)

/-- The entry `A.B` of a file or, with the attribute `0x10`, of a directory. -/
def shortAB (attr : Byte) : ByteMap := fun off =>
  if off = 0 then 0x41 else if off = 8 then 0x42 else if off < 11 then 0x20 else if off = 11 then attr else 0

theorem shortAB_legal (attr : Byte) : LegalName (bytesFrom (shortAB attr) 0) [0x41] [0x42] where
  base_ne := List.cons_ne_nil _ _
  base_le := by decide
  ext_le := by decide
  name := by rfl
  extension := by rfl
  chars := by
    intro c hc
    unfold Plain
    revert c
    decide

theorem rewrite_keeps_iff_file : KeepsEntry (bytesFrom (shortAB 0x20) 0) (bytesFrom (EntryBuf.write
    ⟨{ normalized (shortAB 0x20) with startCluster := 3, fileSize := 10 }, .VALID⟩ (fun _ => 0) 0 false).2 0) :=
  (@rewrite_keeps_iff _ _ reset ⟨normalized (shortAB 0x20), .VALID⟩ _ _ rfl (shortAB_legal 0x20)).mpr
    (Or.inl rfl) 3 10 (fun _ => 0) 0

/-- The directory `A.B` is called `A` when it is written back. -/
theorem not_rewrite_keeps_directory :
    reset.read (shortAB 0x10) 0 = (true, ⟨normalized (shortAB 0x10), .VALID⟩) ∧
      LegalName (bytesFrom (shortAB 0x10) 0) [0x41] [0x42] ∧
      ¬KeepsEntry (bytesFrom (shortAB 0x10) 0) (bytesFrom (EntryBuf.write
        ⟨{ normalized (shortAB 0x10) with startCluster := 3, fileSize := 0 }, .VALID⟩ (shortAB 0x10) 0 false).2 0) := by
  refine ⟨rfl, shortAB_legal 0x10, fun hkeeps => ?_⟩
  have hext : (0x20 : Byte) = 0x42 := hkeeps 8 (Or.inl (by omega))
  exact absurd hext (by decide)

end SysuOs.Root
