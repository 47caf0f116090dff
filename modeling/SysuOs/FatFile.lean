import Mathlib
import SysuOs.Walk
import SysuOs.FatCache

/-! Files as chains of clusters, and what `read` returns: the bytes of the chain, as many as are asked
for, as the size of the file allows and as the chain holds. -/

namespace SysuOs.FAT12FS

/-- The cluster a value of the FAT leads to, if it is not an end mark. -/
def follow (value : Nat) : Option Nat := if 0xFF8 ≤ value then none else some value

/-- The cluster after `c`. -/
def fatNext (table : Nat → Nat) (c : Nat) : Option Nat := follow (table c)

/-- The first cluster of a file; a file without any has start cluster 0. -/
def chainHead (start : Nat) : Option Nat := if start = 0 then none else some start

/-- A value of the FAT that the loops over a chain follow. Of these numbers `get_cache` takes only those below
0xFF0. -/
def InChain (c : Nat) : Prop := 2 ≤ c ∧ c < 0xFF8

theorem IsCluster.inChain {c : Nat} (h : IsCluster c) : InChain c := ⟨h.1, Nat.lt_trans h.2 (by decide)⟩

/-- `l` lists the clusters of the file that starts at `start`, as the loops over them go. -/
structure Linked (fs : FAT12FS) (start : Nat) (l : List Nat) : Prop where
  walk : Walk (fatNext fs.fatTable) (chainHead start) l
  links : ∀ c ∈ l, InChain c

/-- Byte `p` of the clusters `l` in order. -/
def chainByte (fs : FAT12FS) (l : List Nat) (p : Nat) : Byte :=
  fs.clusterByte (l.getD (p / fs.clusterSize) 0) (p % fs.clusterSize)

theorem Mounted.clusterSize_pos {fs : FAT12FS} (h : Mounted fs) : 0 < fs.clusterSize := by
  have hspc := h.sectorsPerCluster
  rw [h.clusterSize]
  omega

theorem chainByte_lt {fs : FAT12FS} {c k : Nat} {m : List Nat} (hk : k < fs.clusterSize) :
    fs.chainByte (c :: m) k = fs.clusterByte c k := by
  rw [chainByte, Nat.div_eq_of_lt hk, Nat.mod_eq_of_lt hk, List.getD_cons_zero]

theorem chainByte_ge {fs : FAT12FS} {c k : Nat} {m : List Nat} (hpos : 0 < fs.clusterSize) :
    fs.chainByte (c :: m) (fs.clusterSize + k) = fs.chainByte m k := by
  rw [chainByte, chainByte, Nat.add_mod_left, Nat.add_div_left k hpos, List.getD_cons_succ]

theorem chainByte_append {fs : FAT12FS} {k : Nat} {l m : List Nat} (hpos : 0 < fs.clusterSize) :
    fs.chainByte (l ++ m) (l.length * fs.clusterSize + k) = fs.chainByte m k := by
  induction l with
  | nil => simp
  | cons c l ih =>
      have hsum : (c :: l).length * fs.clusterSize + k =
          fs.clusterSize + (l.length * fs.clusterSize + k) := by
        rw [List.length_cons]
        ring
      rw [hsum, List.cons_append, chainByte_ge hpos, ih]

theorem chainByte_left {fs : FAT12FS} {k : Nat} {l m : List Nat}
    (hk : k < l.length * fs.clusterSize) : fs.chainByte (l ++ m) k = fs.chainByte l k := by
  have hidx : k / fs.clusterSize < l.length := Nat.div_lt_of_lt_mul (by rwa [Nat.mul_comm])
  rw [chainByte, chainByte, List.getD_append _ _ _ _ hidx]

theorem chainByte_congr {fs fs' : FAT12FS} (hsame : SameVolume fs fs')
    (hsector : fs'.device.sector = fs.device.sector) : fs'.chainByte = fs.chainByte := by
  funext l p
  rw [chainByte, chainByte, clusterByte_congr hsame hsector, hsame.clusterSize]

/-! ### What `get_cache` takes -/

/-- Each of the `n` bytes from `offset` on that the clusters `l` of `clusterSize` bytes hold is in a cluster that
`get_cache` takes. -/
def Served (clusterSize : Nat) (l : List Nat) (offset n : Nat) : Prop :=
  ∀ p, offset ≤ p → p < offset + n → p < l.length * clusterSize → IsCluster (l.getD (p / clusterSize) 0)

theorem Served.of_valid {cs offset n : Nat} {l : List Nat} (h : ∀ c ∈ l, IsCluster c) : Served cs l offset n := by
  intro p _ _ hp
  have hidx : p / cs < l.length := Nat.div_lt_of_lt_mul (by rwa [Nat.mul_comm])
  rw [List.getD_eq_getElem l 0 hidx]
  exact h _ (List.getElem_mem hidx)

theorem Served.mono {cs offset n n' : Nat} {l : List Nat} (h : Served cs l offset n') (hle : n ≤ n') :
    Served cs l offset n := fun p hp hlt => h p hp (by omega)

/-- The first cluster, and the others. -/
theorem served_cons {cs c off n : Nat} {m : List Nat} (hoff : off < cs) :
    Served cs (c :: m) off n ↔ (0 < n → IsCluster c) ∧ Served cs m 0 (n - (cs - off)) := by
  constructor
  · intro h
    refine ⟨fun hn => ?_, fun j _ hj hjl => ?_⟩
    · have hc := h off (le_refl off) (by omega) (by rw [List.length_cons, Nat.add_mul, Nat.one_mul]; omega)
      rwa [Nat.div_eq_of_lt hoff] at hc
    · have hc := h (cs + j) (by omega) (by omega) (by rw [List.length_cons, Nat.add_mul, Nat.one_mul]; omega)
      rwa [Nat.add_div_left j (by omega), List.getD_cons_succ] at hc
  · rintro ⟨hc, hm⟩ p hp hlt hpl
    by_cases hfirst : p < cs
    · rw [Nat.div_eq_of_lt hfirst]
      exact hc (by omega)
    · obtain ⟨j, rfl⟩ := Nat.exists_eq_add_of_le (Nat.le_of_not_lt hfirst)
      rw [List.length_cons, Nat.add_mul, Nat.one_mul] at hpl
      rw [Nat.add_div_left j (by omega), List.getD_cons_succ]
      exact hm j (Nat.zero_le j) (by omega) (by omega)

/-- The clusters in front of the first byte do not matter. -/
theorem served_append {cs off n : Nat} {pre l : List Nat} (hpos : 0 < cs) :
    Served cs (pre ++ l) (pre.length * cs + off) n ↔ Served cs l off n := by
  have hidx : ∀ j, (pre ++ l).getD ((pre.length * cs + j) / cs) 0 = l.getD (j / cs) 0 := fun j => by
    rw [Nat.add_comm, Nat.add_mul_div_right _ _ hpos,
      List.getD_append_right _ _ _ _ (Nat.le_add_left _ _), Nat.add_sub_cancel]
  rw [Served, List.length_append, Nat.add_mul]
  constructor
  · intro h j hj hlt hjl
    have hc := h (pre.length * cs + j) (by omega) (by omega) (by omega)
    rwa [hidx] at hc
  · intro h p hp hlt hpl
    obtain ⟨j, rfl⟩ := Nat.exists_eq_add_of_le (by omega : pre.length * cs ≤ p)
    rw [hidx]
    exact h j (by omega) (by omega) (by omega)

/-- `get_cache` takes no other cluster. -/
theorem getCache_refused {fs : FAT12FS} {c : Nat} (h : ¬IsCluster c) : fs.getCache c = .ret (none, fs) := by
  rw [IsCluster] at h
  rw [getCache, if_pos (by omega)]
  rfl

/-! ### The loops of `read` -/

/-- One cluster is read into a buffer. -/
theorem readCache_spec {fs : FAT12FS} (hm : Mounted fs) (hcoh : Coherent fs) {c : Nat}
    (hc : IsCluster c) :
    ∃ i fs₁ fs₂, fs.getCache c = .ret (some i, fs₁) ∧ fs₁.releaseCache i = .ret fs₂ ∧
      (∀ k, k < fs.clusterSize → (fs₁.cachePool i).buf k = fs.clusterByte c k) ∧
      SameVolume fs fs₁ ∧ fs₁.fatTable = fs.fatTable ∧
      Coherent fs₂ ∧ SameVolume fs fs₂ ∧ fs₂.fatTable = fs.fatTable ∧
      fs₂.device.sector = fs.device.sector := by
  obtain ⟨i, fs₁, hget, hpin⟩ := getCache_spec hm hcoh hc
  obtain ⟨fs₂, hrel, hcoh₂, hsame₂, htable₂, hsector₂⟩ := hpin.release hcoh
  exact ⟨i, fs₁, fs₂, hget, hrel, hpin.buf, hpin.same, hpin.fatTable, hcoh₂, hsame₂, htable₂, hsector₂⟩

/-- The clusters after the first are read until the request is met or the chain ends. -/
theorem readLoop_spec {m : List Nat} {fs : FAT12FS} {v fuel : Nat} (size readSize : Nat) (out : ByteMap)
    (hm : Mounted fs) (hcoh : Coherent fs) (hbig : fs.clusterSize < 2 ^ 16 ∨ size < 2 ^ 16)
    (hwalk : Walk (fatNext fs.fatTable) (follow v) m) (hlinks : ∀ c ∈ m, InChain c)
    (hserved : Served fs.clusterSize m 0 size) (hsize : size < 2 ^ 31) (hfuel : m.length < fuel) :
    ∃ out' fs', fs.readLoop fuel v size readSize out =
        .ret ((readSize + min size (m.length * fs.clusterSize) : Nat), out', fs') ∧
      Coherent fs' ∧ SameVolume fs fs' ∧ fs'.fatTable = fs.fatTable ∧
      fs'.device.sector = fs.device.sector ∧
      (∀ k, k < readSize → out' k = out k) ∧
      ∀ k, k < min size (m.length * fs.clusterSize) → out' (readSize + k) = fs.chainByte m k := by
  induction m generalizing fs v fuel size readSize out with
  | nil =>
      obtain ⟨fuel, rfl⟩ : ∃ n, fuel = n + 1 := ⟨fuel - 1, by omega⟩
      have hend : ¬(IntPos size ∧ v ≥ 2 ∧ v < 0xFF8) := fun hgo => by
        rw [Walk.nil_iff, follow, if_neg (by omega)] at hwalk
        simp at hwalk
      refine ⟨out, fs, ?_, hcoh, SameVolume.refl fs, rfl, rfl, fun _ _ => rfl, fun k hk => ?_⟩
      · rw [readLoop, if_neg hend]
        simp
      · simp at hk
  | cons c m ih =>
      obtain ⟨fuel, rfl⟩ : ∃ n, fuel = n + 1 := ⟨fuel - 1, by omega⟩
      obtain ⟨hhead, htail⟩ := hwalk
      obtain rfl : v = c := by
        rw [follow] at hhead
        split at hhead
        · simp at hhead
        · exact Option.some.inj hhead
      have hpos := hm.clusterSize_pos
      obtain ⟨hfirst, hrest⟩ := (served_cons hpos).mp hserved
      by_cases hzero : size = 0
      · subst hzero
        refine ⟨out, fs, ?_, hcoh, SameVolume.refl fs, rfl, rfl, fun _ _ => rfl, fun k hk => ?_⟩
        · have hend : ¬(IntPos 0 ∧ v ≥ 2 ∧ v < 0xFF8) := fun hgo => absurd hgo.1.1 (by omega)
          rw [readLoop, if_neg hend]
          simp
        · simp at hk
      · have hc : IsCluster v := hfirst (Nat.pos_of_ne_zero hzero)
        obtain ⟨i, fs₁, fs₂, hget, hrel, hbuf, hsame₁, -, hcoh₂, hsame₂, htable₂, hsector₂⟩ :=
          readCache_spec hm hcoh hc
        have hgo : IntPos size ∧ v ≥ 2 ∧ v < 0xFF8 :=
          ⟨⟨by omega, hsize⟩, hc.1, Nat.lt_trans hc.2 (by decide)⟩
        have hchunk : min size fs₁.clusterSize % 2 ^ 16 = min size fs.clusterSize := by
          rw [hsame₁.clusterSize]
          exact Nat.mod_eq_of_lt (by omega)
        have hcs : fs₂.clusterSize = fs.clusterSize := hsame₂.clusterSize
        obtain ⟨out', fs', hrun, hcoh', hsame', htable', hsector', hbefore, hafter⟩ := @ih fs₂
          (fs₂.fatTable v) fuel (size - min size fs.clusterSize) (readSize + min size fs.clusterSize)
          (memcpy out readSize (fs₁.cachePool i).buf (min size fs.clusterSize))
          (hm.congr hsame₂) hcoh₂ (by rw [hcs]; omega) (by rw [htable₂]; exact htail)
          (fun c hc => hlinks c (List.mem_cons_of_mem v hc)) (by rw [hcs]; exact hrest.mono (by omega)) (by omega)
          (by rw [List.length_cons] at hfuel; omega)
        rw [hcs] at hrun hafter
        rw [chainByte_congr hsame₂ hsector₂] at hafter
        have htotal : readSize + min size fs.clusterSize +
            min (size - min size fs.clusterSize) (m.length * fs.clusterSize) =
            readSize + min size ((v :: m).length * fs.clusterSize) := by
          rw [List.length_cons, Nat.add_mul, Nat.one_mul]
          omega
        refine ⟨out', fs', ?_, hcoh', hsame₂.trans hsame', htable'.trans htable₂,
          hsector'.trans hsector₂, fun k hk => ?_, fun k hk => ?_⟩
        · rw [readLoop, if_pos hgo, hget]
          simp only [Outcome.ret_bind, hchunk, hrel, hrun, htotal]
        · rw [hbefore k (by omega), memcpy_out (Or.inl hk)]
        · by_cases hfirst : k < fs.clusterSize
          · have hlt : readSize + k < readSize + min size fs.clusterSize := by omega
            rw [hbefore _ hlt, memcpy_in (by omega) hlt, Nat.add_sub_cancel_left, hbuf k hfirst,
              chainByte_lt hfirst]
          · obtain ⟨j, rfl⟩ := Nat.exists_eq_add_of_le (Nat.le_of_not_lt hfirst)
            rw [List.length_cons, Nat.add_mul, Nat.one_mul] at hk
            have hpos' : readSize + (fs.clusterSize + j) =
                readSize + min size fs.clusterSize + j := by omega
            rw [hpos', hafter j (by omega), chainByte_ge hpos]

/-- The cluster of an offset is found. -/
theorem skipLoop_spec {pre m : List Nat} {fs : FAT12FS} {start c off fuel : Nat}
    (hpos : 0 < fs.clusterSize) (hwalk : Walk (fatNext fs.fatTable) (some start) (pre ++ c :: m))
    (hlinks : ∀ c ∈ pre, InChain c) (hoff : off < fs.clusterSize)
    (hfuel : pre.length * fs.clusterSize + off < fuel) :
    fs.skipLoop fuel start (pre.length * fs.clusterSize + off) = .ret (some (c, off)) := by
  induction pre generalizing start fuel with
  | nil =>
      obtain ⟨fuel, rfl⟩ : ∃ n, fuel = n + 1 := ⟨fuel - 1, by omega⟩
      obtain rfl : start = c := Option.some.inj hwalk.1
      rw [skipLoop, if_neg (by simpa using hoff)]
      simp
  | cons d pre ih =>
      obtain ⟨fuel, rfl⟩ : ∃ n, fuel = n + 1 := ⟨fuel - 1, by omega⟩
      obtain ⟨hhead, htail⟩ := hwalk
      obtain rfl : start = d := Option.some.inj hhead
      have hd := hlinks start List.mem_cons_self
      have hsum : (start :: pre).length * fs.clusterSize + off =
          fs.clusterSize + (pre.length * fs.clusterSize + off) := by
        rw [List.length_cons]
        ring
      have hnext : fatNext fs.fatTable start = some (fs.fatTable start) := by
        rw [fatNext, follow, if_neg fun hend => ?_]
        rw [fatNext, follow, if_pos hend] at htail
        cases pre <;> simp at htail
      have hin : ¬(start < 2 ∨ start > 0xFF8) := by
        have h₁ := hd.1
        have h₂ := hd.2
        omega
      rw [hsum] at hfuel ⊢
      rw [skipLoop, if_pos (Nat.le_add_right _ _), if_neg hin, Nat.add_sub_cancel_left]
      rw [hnext] at htail
      exact ih htail (fun c hc => hlinks c (List.mem_cons_of_mem start hc)) (by omega)

/-- A chain has fewer clusters than the table has entries. -/
theorem length_lt {table : Nat → Nat} {head : Option Nat} {l : List Nat}
    (hwalk : Walk (fatNext table) head l) (hlinks : ∀ c ∈ l, InChain c) :
    l.length < FAT12_MAX_CLUSTERS := by
  have hsub : l.toFinset ⊆ Finset.range 0xFF8 := fun c hc =>
    Finset.mem_range.mpr (hlinks c (List.mem_toFinset.mp hc)).2
  have hcard := Finset.card_le_card hsub
  rw [Finset.card_range, List.toFinset_card_of_nodup hwalk.nodup] at hcard
  exact Nat.lt_of_le_of_lt hcard (by decide)

/-- The cluster an offset lies in. -/
theorem Linked.at_offset {fs : FAT12FS} {start offset : Nat} {l : List Nat} (hchain : Linked fs start l)
    (hoff : offset < l.length * fs.clusterSize) :
    ∃ pre c m, l = pre ++ c :: m ∧ offset = pre.length * fs.clusterSize + offset % fs.clusterSize ∧
      Walk (fatNext fs.fatTable) (some start) (pre ++ c :: m) := by
  have hq : offset / fs.clusterSize < l.length := Nat.div_lt_of_lt_mul (by rwa [Nat.mul_comm])
  have hsplit : l.take (offset / fs.clusterSize) ++ l[offset / fs.clusterSize] ::
      l.drop (offset / fs.clusterSize + 1) = l := by
    rw [List.cons_getElem_drop_succ, List.take_append_drop]
  refine ⟨_, _, _, hsplit.symm, ?_, ?_⟩
  · rw [List.length_take_of_le (Nat.le_of_lt hq), Nat.mul_comm]
    exact (Nat.div_add_mod _ _).symm
  · have hwalk := hchain.walk
    rw [hsplit]
    rw [chainHead] at hwalk
    split at hwalk
    · cases l with
      | nil => simp at hoff
      | cons a l => simp at hwalk
    · exact hwalk

/-- `read` of a regular file from an offset inside it on: as many bytes as asked for, as far as the
size of the file and its chain go. -/
theorem readFrom_spec {fs : FAT12FS} {node : Fat12Inode} {l : List Nat} {size offset : Nat}
    (out : ByteMap) (hm : Mounted fs) (hcoh : Coherent fs)
    (hbig : fs.clusterSize < 2 ^ 16 ∨ size < fs.clusterSize - offset % fs.clusterSize + 2 ^ 16)
    (hchain : Linked fs node.startCluster l) (hserved : Served fs.clusterSize l offset size) (hpos : 0 < size)
    (hsize : size < 2 ^ 31) (hoff : offset < l.length * fs.clusterSize) :
    ∃ out' fs', fs.readFrom node out size offset =
        .ret ((min size (l.length * fs.clusterSize - offset) : Nat), out', fs') ∧
      Coherent fs' ∧ SameVolume fs fs' ∧ fs'.fatTable = fs.fatTable ∧ fs'.device.sector = fs.device.sector ∧
      ∀ k, k < min size (l.length * fs.clusterSize - offset) → out' k = fs.chainByte l (offset + k) := by
  have hcs := hm.clusterSize_pos
  obtain ⟨pre, c, m, rfl, hoffset, hwalk⟩ := hchain.at_offset hoff
  have hmod : offset % fs.clusterSize < fs.clusterSize := Nat.mod_lt _ hcs
  generalize offset % fs.clusterSize = off at hoffset hmod hbig
  subst hoffset
  obtain ⟨hfirst, hrest⟩ := (served_cons hmod).mp ((served_append hcs).mp hserved)
  obtain ⟨i, fs₁, fs₂, hget, hrel, hbuf, hsame₁, -, hcoh₂, hsame₂, htable₂, hsector₂⟩ :=
    readCache_spec hm hcoh (hfirst hpos)
  have hskip := skipLoop_spec hcs hwalk (fun c hc => hchain.links c (List.mem_append_left _ hc)) hmod
    (Nat.lt_succ_self _)
  have hbehind : (pre ++ c :: m).length * fs.clusterSize - (pre.length * fs.clusterSize + off) =
      fs.clusterSize - off + m.length * fs.clusterSize := by
    rw [List.length_append, List.length_cons, Nat.add_mul, Nat.add_mul, Nat.one_mul]
    omega
  have hbyte : ∀ k, fs.chainByte (pre ++ c :: m) (pre.length * fs.clusterSize + off + k) =
      fs.chainByte (c :: m) (off + k) := fun k => by
    rw [Nat.add_assoc, chainByte_append hcs]
  have hleft : ∀ k, off + k < fs.clusterSize →
      bytesFrom (fs₁.cachePool i).buf off k = fs.chainByte (c :: m) (off + k) := fun k hk => by
    rw [bytesFrom, hbuf _ hk, chainByte_lt hk]
  rw [hbehind]
  by_cases hshort : size < fs.clusterSize - off
  · refine ⟨memcpy out 0 (bytesFrom (fs₁.cachePool i).buf off) size, fs₂, ?_, hcoh₂, hsame₂, htable₂,
      hsector₂, fun k hk => ?_⟩
    · have hmin : min size (fs.clusterSize - off + m.length * fs.clusterSize) = size := by omega
      rw [readFrom, hskip]
      simp only [Outcome.ret_bind, hget, hsame₁.clusterSize, hshort, if_true, hrel, Outcome.pure_eq, hmin]
    · rw [memcpy_in (Nat.zero_le k) (by omega), Nat.sub_zero, hleft k (by omega), hbyte]
  · have htail : Walk (fatNext fs.fatTable) (fatNext fs.fatTable c) m := hwalk.suffix.2
    have hshortChain := length_lt hchain.walk hchain.links
    obtain ⟨out', fs', hrun, hcoh', hsame', htable', hsector', hbefore, hafter⟩ := @readLoop_spec m fs₂
      (fs₂.fatTable c) (size + FAT12_MAX_CLUSTERS + 1) (size - (fs.clusterSize - off))
      (fs.clusterSize - off)
      (memcpy out 0 (bytesFrom (fs₁.cachePool i).buf off) (fs.clusterSize - off))
      (hm.congr hsame₂) hcoh₂ (by rw [hsame₂.clusterSize]; omega) (by rw [htable₂]; exact htail)
      (fun d hd => hchain.links d (by simp [hd])) (by rw [hsame₂.clusterSize]; exact hrest) (by omega)
      (by simp only [List.length_append, List.length_cons] at hshortChain; omega)
    rw [hsame₂.clusterSize] at hrun hafter
    rw [chainByte_congr hsame₂ hsector₂] at hafter
    have htotal : fs.clusterSize - off + min (size - (fs.clusterSize - off)) (m.length * fs.clusterSize) =
        min size (fs.clusterSize - off + m.length * fs.clusterSize) := by omega
    refine ⟨out', fs', ?_, hcoh', hsame₂.trans hsame', htable'.trans htable₂, hsector'.trans hsector₂,
      fun k hk => ?_⟩
    · rw [readFrom, hskip]
      simp only [Outcome.ret_bind, hget, hsame₁.clusterSize, hshort, if_false, hrel, hrun, htotal]
    · rw [hbyte]
      by_cases hfirst : k < fs.clusterSize - off
      · rw [hbefore k hfirst, memcpy_in (Nat.zero_le k) (by omega), Nat.sub_zero, hleft k (by omega)]
      · obtain ⟨j, rfl⟩ := Nat.exists_eq_add_of_le (Nat.le_of_not_lt hfirst)
        have hsum : off + (fs.clusterSize - off + j) = fs.clusterSize + j := by omega
        rw [hafter j (by omega), hsum, chainByte_ge hcs]

theorem served_zero (cs : Nat) (l : List Nat) (offset : Nat) : Served cs l offset 0 :=
  fun _ hp hlt => absurd hlt (by omega)

/-- The loop ends at the first cluster that `get_cache` does not take. -/
theorem readLoop_short {m : List Nat} {fs : FAT12FS} {v fuel : Nat} (size readSize : Nat) (out : ByteMap)
    (hm : Mounted fs) (hcoh : Coherent fs) (hwalk : Walk (fatNext fs.fatTable) (follow v) m)
    (hlinks : ∀ c ∈ m, InChain c) (hserved : ¬Served fs.clusterSize m 0 size) (hsize : size < 2 ^ 31)
    (hfuel : m.length < fuel) :
    ∃ r out' fs', fs.readLoop fuel v size readSize out = .ret ((r : Nat), out', fs') ∧ r < readSize + size := by
  induction m generalizing fs v fuel size readSize out with
  | nil => exact absurd (fun p _ _ hp => absurd hp (by simp)) hserved
  | cons c m ih =>
      obtain ⟨fuel, rfl⟩ : ∃ n, fuel = n + 1 := ⟨fuel - 1, by omega⟩
      obtain ⟨hhead, htail⟩ := hwalk
      obtain rfl : v = c := by
        rw [follow] at hhead
        split at hhead
        · cases hhead
        · exact Option.some.inj hhead
      have hv := hlinks v List.mem_cons_self
      have hpos : 0 < size := by
        by_contra hzero
        obtain rfl : size = 0 := by omega
        exact hserved (served_zero _ _ _)
      have hgo : IntPos size ∧ v ≥ 2 ∧ v < 0xFF8 := ⟨⟨hpos, hsize⟩, hv.1, hv.2⟩
      rw [readLoop, if_pos hgo]
      by_cases hc : IsCluster v
      · obtain ⟨i, fs₁, fs₂, hget, hrel, -, hsame₁, -, hcoh₂, hsame₂, htable₂, -⟩ := readCache_spec hm hcoh hc
        have hrest : ¬Served fs.clusterSize m 0 (size - fs.clusterSize) := fun h =>
          hserved ((served_cons hm.clusterSize_pos).mpr ⟨fun _ => hc, h⟩)
        have hchunk : min size fs₁.clusterSize % 2 ^ 16 ≤ min size fs.clusterSize := by
          rw [hsame₁.clusterSize]
          exact Nat.mod_le _ _
        generalize hk : min size fs₁.clusterSize % 2 ^ 16 = chunk at hchunk
        obtain ⟨r, out', fs', hrun, hr⟩ := @ih fs₂ (fs₂.fatTable v) fuel (size - chunk) (readSize + chunk)
          (memcpy out readSize (fs₁.cachePool i).buf chunk) (hm.congr hsame₂) hcoh₂
          (by rw [htable₂]; exact htail) (fun c hc => hlinks c (List.mem_cons_of_mem v hc))
          (by rw [hsame₂.clusterSize]; exact fun h => hrest (h.mono (by omega))) (by omega)
          (by rw [List.length_cons] at hfuel; omega)
        refine ⟨r, out', fs', ?_, by omega⟩
        rw [hget]
        simp only [Outcome.ret_bind, hk, hrel, hrun]
      · rw [getCache_refused hc]
        exact ⟨readSize, out, fs, rfl, by omega⟩

/-- `read` returns another number if one of the bytes is in a cluster that `get_cache` does not take. -/
theorem readFrom_short {fs : FAT12FS} {node : Fat12Inode} {l : List Nat} {size offset : Nat}
    (out : ByteMap) (hm : Mounted fs) (hcoh : Coherent fs) (hchain : Linked fs node.startCluster l)
    (hserved : ¬Served fs.clusterSize l offset size) (hsize : size < 2 ^ 31)
    (hoff : offset < l.length * fs.clusterSize) :
    ∃ r out' fs', fs.readFrom node out size offset = .ret (r, out', fs') ∧ r ≠ (size : Int) := by
  have hcs := hm.clusterSize_pos
  obtain ⟨pre, c, m, rfl, hoffset, hwalk⟩ := hchain.at_offset hoff
  have hmod : offset % fs.clusterSize < fs.clusterSize := Nat.mod_lt _ hcs
  generalize offset % fs.clusterSize = off at hoffset hmod
  subst hoffset
  have hskip := skipLoop_spec hcs hwalk (fun c hc => hchain.links c (List.mem_append_left _ hc)) hmod
    (Nat.lt_succ_self _)
  rw [served_append hcs, served_cons hmod] at hserved
  rw [readFrom, hskip]
  by_cases hc : IsCluster c
  · obtain ⟨i, fs₁, fs₂, hget, hrel, -, hsame₁, -, hcoh₂, hsame₂, htable₂, -⟩ := readCache_spec hm hcoh hc
    have hrest : ¬Served fs.clusterSize m 0 (size - (fs.clusterSize - off)) := fun h => hserved ⟨fun _ => hc, h⟩
    have hlong : ¬size < fs.clusterSize - off := fun hshort => by
      refine hrest ?_
      rw [Nat.sub_eq_zero_of_le (Nat.le_of_lt hshort)]
      exact served_zero _ _ _
    have hshortChain := length_lt hchain.walk hchain.links
    obtain ⟨r, out', fs', hrun, hr⟩ := @readLoop_short m fs₂ (fs₂.fatTable c) (size + FAT12_MAX_CLUSTERS + 1)
      (size - (fs.clusterSize - off)) (fs.clusterSize - off)
      (memcpy out 0 (bytesFrom (fs₁.cachePool i).buf off) (fs.clusterSize - off)) (hm.congr hsame₂) hcoh₂
      (by rw [htable₂]; exact hwalk.suffix.2) (fun d hd => hchain.links d (by simp [hd]))
      (by rw [hsame₂.clusterSize]; exact hrest) (by omega)
      (by simp only [List.length_append, List.length_cons] at hshortChain; omega)
    refine ⟨r, out', fs', ?_, by omega⟩
    simp only [Outcome.ret_bind, hget, hsame₁.clusterSize, hlong, if_false, hrel, hrun]
  · simp only [Outcome.ret_bind, getCache_refused hc]
    exact ⟨-1, out, fs, rfl, by omega⟩

/-- A regular file of the volume. -/
structure IsFile (fs : FAT12FS) (node : Fat12Inode) (l : List Nat) : Prop where
  volume : node.fat12Fs = fs.this
  regular : ¬IsSpecial node.attr
  chain : Linked fs node.startCluster l

/-- A file with clusters starts at one. -/
theorem IsFile.start_ge {fs : FAT12FS} {node : Fat12Inode} {l : List Nat} (h : IsFile fs node l) (hl : l ≠ []) :
    2 ≤ node.startCluster := by
  obtain ⟨c, m, rfl⟩ := List.exists_cons_of_ne_nil hl
  have hwalk := h.chain.walk
  have hc := (h.chain.links c List.mem_cons_self).1
  rw [chainHead] at hwalk
  split at hwalk
  · simp at hwalk
  · obtain rfl := Option.some.inj hwalk.1
    exact hc

/-- The checks of `read` from the start of a file on. -/
theorem IsFile.read_eq {fs : FAT12FS} {node : Fat12Inode} {l : List Nat} {n : Nat} (h : IsFile fs node l)
    (hl : l ≠ []) (hpos : 0 < n) (hn : n ≤ node.size) (hsize : node.size < 2 ^ 31) (out : ByteMap) :
    fs.read (some node) out n 0 = fs.readFrom node out n 0 := by
  have hvalid : ¬(node.startCluster < 2 ∨ node.fat12Fs ≠ fs.this) := by
    rintro (hlow | hother)
    · have hge := h.start_ge hl
      omega
    · exact hother h.volume
  have hzero : u32 0 = 0 := rfl
  have hwhole : u32 ((n : Int) + 0) = n := by
    rw [u32]
    omega
  have hnot : ¬(n : Int) ≤ 0 := by omega
  rw [read]
  simp only [if_neg hvalid, hzero, hwhole]
  rw [if_neg (by omega), if_neg (by omega), if_neg hnot, if_neg (Nat.not_lt.mpr hn), if_neg h.regular]
  rfl

/-- `read` of `n` bytes from the start of a file that is not empty. -/
theorem read_spec {fs : FAT12FS} {node : Fat12Inode} {l : List Nat} {n : Nat} (hm : Mounted fs)
    (hcoh : Coherent fs) (hbig : fs.clusterSize < 2 ^ 16) (hfile : IsFile fs node l) (hl : l ≠ [])
    (hserved : Served fs.clusterSize l 0 n) (hpos : 0 < n) (hn : n ≤ node.size) (hsize : node.size < 2 ^ 31)
    (out : ByteMap) :
    ∃ out' fs', fs.read (some node) out n 0 = .ret ((min n (l.length * fs.clusterSize) : Nat), out', fs') ∧
      ∀ k, k < min n (l.length * fs.clusterSize) → out' k = fs.chainByte l k := by
  have hlen : 0 < l.length * fs.clusterSize :=
    Nat.mul_pos (List.length_pos_of_ne_nil hl) hm.clusterSize_pos
  obtain ⟨out', fs', hrun, -, -, -, -, hbytes⟩ := readFrom_spec out hm hcoh (Or.inl hbig) hfile.chain
    hserved hpos (by omega : n < 2 ^ 31) hlen
  rw [Nat.sub_zero] at hrun hbytes
  refine ⟨out', fs', ?_, fun k hk => by rw [hbytes k hk, Nat.zero_add]⟩
  rw [hfile.read_eq hl hpos hn hsize]
  exact hrun

/-- `read` returns `n` bytes from the start only if `get_cache` takes the clusters they are in. -/
theorem served_of_read {fs fs' : FAT12FS} {node : Fat12Inode} {l : List Nat} {n : Nat} {out out' : ByteMap}
    (hm : Mounted fs) (hcoh : Coherent fs) (hfile : IsFile fs node l) (hl : l ≠ []) (hpos : 0 < n)
    (hn : n ≤ node.size) (hsize : node.size < 2 ^ 31)
    (hrun : fs.read (some node) out n 0 = .ret ((n : Int), out', fs')) : Served fs.clusterSize l 0 n := by
  by_contra hserved
  have hlen : 0 < l.length * fs.clusterSize :=
    Nat.mul_pos (List.length_pos_of_ne_nil hl) hm.clusterSize_pos
  obtain ⟨r, out'', fs'', hshort, hr⟩ := readFrom_short out hm hcoh hfile.chain hserved (by omega) hlen
  rw [hfile.read_eq hl hpos hn hsize, hshort] at hrun
  exact hr (congrArg Prod.fst (Outcome.ret.inj hrun))

end SysuOs.FAT12FS
