import SysuOs.FatWalks

/-! `is_dir_empty`, which asks the iterator for one entry. The iterator shows `.` and `..` like any other entry,
and shows none of a directory that stands behind a long-name part. -/

namespace SysuOs.Vfs

open FAT12FS EntryBuf Root

/-- Entry `k` of a directory of the clusters `l`. -/
def dirEntry (fs : FAT12FS) (l : List Nat) (k : Nat) : ByteMap :=
  slot fs (l.getD (k / slotCount fs) 0) (k % slotCount fs)

/-- The live entries of a directory, by their number. -/
def liveIn (fs : FAT12FS) (l : List Nat) : List Nat := liveSlots (dirEntry fs l) (l.length * slotCount fs) 0

/-- The name of the directory itself or of its parent. -/
def IsDots (s : ByteMap) : Prop :=
  bytesAt s 0 11 = 0x2E :: List.replicate 10 0x20 ∨ bytesAt s 0 11 = 0x2E :: 0x2E :: List.replicate 9 0x20

instance (s : ByteMap) : Decidable (IsDots s) := inferInstanceAs (Decidable (_ ∨ _))

/-- The directory has no entry but `.`, `..` and volume labels. -/
def HoldsNothing (fs : FAT12FS) (l : List Nat) : Prop := ∀ k ∈ liveIn fs l, IsDots (dirEntry fs l k)

/-- The iterator comes to the entry, and not right behind a long-name part. -/
def Sees (fs : FAT12FS) (l : List Nat) (k : Nat) : Prop :=
  k < (readable l).length * slotCount fs ∧ ¬BehindLfn (dirEntry fs l) k

/-- A directory of the clusters `l`, all of which the walks take for clusters of a chain. -/
structure IsSubdir (fs : FAT12FS) (node : Fat12Inode) (l : List Nat) : Prop where
  mounted : Mounted fs
  coherent : Coherent fs
  accepted : fs.bpb.accepted = true
  volume : node.fat12Fs = fs.this
  directory : node.attr &&& DIRECTORY ≠ 0
  walk : Walk (fatNext fs.fatTable) (chainHead node.startCluster) l
  valid : ∀ c ∈ l, 2 ≤ c ∧ c ≤ 0xFF7

/-! ### Entries in a row -/

section

variable {s s' : Nat → ByteMap} {n m k d i : Nat} {lfn : Bool}

theorem keptSlots_add : keptSlots s (n + m) k lfn =
    keptSlots s n k lfn ++ match carry s n k lfn with
      | none => []
      | some lfn => keptSlots s m (k + n) lfn := by
  induction n generalizing k lfn with
  | zero =>
      rw [Nat.zero_add]
      rfl
  | succ n ih =>
      have hsum : k + (n + 1) = k + 1 + n := by omega
      rw [Nat.succ_add, keptSlots, keptSlots, carry, hsum]
      split_ifs
      · exact ih
      · rfl
      · exact ih
      · rw [ih]
        rfl

theorem keptSlots_congr (h : ∀ j, j < n → s' (k + j) = s (d + j)) :
    keptSlots s' n k lfn = (keptSlots s n d lfn).map fun j => k + j - d := by
  induction n generalizing k d lfn with
  | zero => rfl
  | succ n ih =>
      have h0 : s' k = s d := h 0 (by omega)
      have hrest : ∀ j, j < n → s' (k + 1 + j) = s (d + 1 + j) := by
        intro j hj
        have := h (j + 1) (by omega)
        rwa [show k + 1 + j = k + (j + 1) by omega, show d + 1 + j = d + (j + 1) by omega]
      have hshift : ∀ b, keptSlots s' n (k + 1) b = (keptSlots s n (d + 1) b).map fun j => k + j - d := by
        intro b
        rw [ih hrest]
        apply List.map_congr_left
        intro j _
        omega
      rw [keptSlots, keptSlots, h0]
      split_ifs
      · exact hshift true
      · rfl
      · exact hshift false
      · rw [List.map_cons, hshift false, Nat.add_sub_cancel]

theorem lt_of_mem_keptSlots (h : i ∈ keptSlots s n k lfn) : i < k + n := by
  induction n generalizing k lfn with
  | zero => exact absurd h List.not_mem_nil
  | succ n ih =>
      have hsum : k + (n + 1) = k + 1 + n := by omega
      rw [hsum]
      rw [keptSlots] at h
      split_ifs at h
      · exact ih h
      · exact absurd h List.not_mem_nil
      · exact ih h
      · rcases List.mem_cons.mp h with rfl | h
        · omega
        · exact ih h

theorem carry_congr (h : ∀ j, j < n → s' (k + j) = s (d + j)) : carry s' n k lfn = carry s n d lfn := by
  induction n generalizing k d lfn with
  | zero => rfl
  | succ n ih =>
      have h0 : s' k = s d := h 0 (by omega)
      have hrest : ∀ j, j < n → s' (k + 1 + j) = s (d + 1 + j) := by
        intro j hj
        have := h (j + 1) (by omega)
        rwa [show k + 1 + j = k + (j + 1) by omega, show d + 1 + j = d + (j + 1) by omega]
      rw [carry, carry, h0]
      split_ifs
      · exact ih hrest
      · rfl
      · exact ih hrest

/-- The entries the driver takes are the live ones and the labels that stand behind no long-name part. -/
theorem mem_keptSlots_iff : (i ∈ keptSlots s n k lfn ∧ ¬IsLabel (s i)) ↔
    i ∈ liveSlots s n k ∧ ¬((i = k ∧ lfn = true) ∨ ∃ j, k ≤ j ∧ i = j + 1 ∧ IsLfn (s j)) := by
  induction n generalizing k lfn with
  | zero =>
      apply iff_of_false
      · exact fun h => absurd h.1 List.not_mem_nil
      · exact fun h => absurd h.1 List.not_mem_nil
  | succ n ih =>
      -- what stands behind entry `k` does so in the rest, too
      have hbehind : ∀ b : Bool, (b = true ↔ IsLfn (s k)) → i ≠ k →
          (((i = k + 1 ∧ b = true) ∨ ∃ j, k + 1 ≤ j ∧ i = j + 1 ∧ IsLfn (s j)) ↔
            ((i = k ∧ lfn = true) ∨ ∃ j, k ≤ j ∧ i = j + 1 ∧ IsLfn (s j))) := by
        intro b hb hne
        constructor
        · rintro (⟨hi, hlfn⟩ | ⟨j, hj, hi, hlfn⟩)
          · exact Or.inr ⟨k, le_rfl, hi, hb.mp hlfn⟩
          · exact Or.inr ⟨j, by omega, hi, hlfn⟩
        · rintro (⟨hi, -⟩ | ⟨j, hj, hi, hlfn⟩)
          · exact absurd hi hne
          · by_cases hjk : j = k
            · rw [hjk] at hi hlfn
              exact Or.inl ⟨hi, hb.mpr hlfn⟩
            · exact Or.inr ⟨j, by omega, hi, hlfn⟩
      have hlater : ∀ b : Bool, (b = true ↔ IsLfn (s k)) →
          ((i ∈ keptSlots s n (k + 1) b ∧ ¬IsLabel (s i)) ↔
            i ∈ liveSlots s n (k + 1) ∧ ¬((i = k ∧ lfn = true) ∨ ∃ j, k ≤ j ∧ i = j + 1 ∧ IsLfn (s j))) := by
        intro b hb
        rw [ih]
        apply and_congr_right
        intro hmem
        have hle := lt_of_mem_liveSlots hmem
        rw [hbehind b hb (by omega)]
      rw [keptSlots, liveSlots]
      by_cases hlfn : IsLfn (s k)
      · rw [if_pos hlfn, if_pos hlfn]
        exact hlater true (iff_of_true rfl hlfn)
      · rw [if_neg hlfn, if_neg hlfn]
        have hfalse := hlater false (iff_of_false (by decide) hlfn)
        by_cases hend : s k 0 = 0
        · rw [if_pos hend, if_pos hend]
          exact iff_of_false (fun h => absurd h.1 List.not_mem_nil) (fun h => absurd h.1 List.not_mem_nil)
        · rw [if_neg hend, if_neg hend]
          by_cases hdel : s k 0 = 0xE5
          · rw [if_pos (Or.inl hdel), if_pos (Or.inl hdel)]
            exact hfalse
          · by_cases hlabel : IsLabel (s k)
            · rw [if_pos (Or.inr hlabel : s k 0 = 0xE5 ∨ IsLabel (s k))]
              split_ifs
              · exact hfalse
              · rw [← hfalse, List.mem_cons]
                constructor
                · rintro ⟨rfl | hmem, hnot⟩
                  · exact absurd hlabel hnot
                  · exact ⟨hmem, hnot⟩
                · exact fun h => ⟨Or.inr h.1, h.2⟩
            · rw [if_neg (fun h => h.elim hdel hlabel : ¬(s k 0 = 0xE5 ∨ IsLabel (s k)))]
              by_cases hik : i = k
              · subst hik
                have hnone : i ∉ keptSlots s n (i + 1) false := fun hmem => by
                  have := le_of_mem_keptSlots hmem
                  omega
                split_ifs with hbefore
                · apply iff_of_false (fun h => hnone h.1)
                  exact fun h => h.2 (Or.inl ⟨rfl, hbefore.resolve_left hdel⟩)
                · apply iff_of_true ⟨List.mem_cons_self, hlabel⟩
                  refine ⟨List.mem_cons_self, ?_⟩
                  rintro (⟨-, hlfn'⟩ | ⟨j, hj, hi, -⟩)
                  · exact hbefore (Or.inr hlfn')
                  · omega
              · rw [List.mem_cons, or_iff_right hik]
                split_ifs
                · exact hfalse
                · rw [List.mem_cons, or_iff_right hik]
                  exact hfalse

theorem mem_liveSlots_add : i ∈ liveSlots s n k ↔ i ∈ liveSlots s (n + m) k ∧ i < k + n := by
  induction n generalizing k with
  | zero =>
      apply iff_of_false List.not_mem_nil
      rintro ⟨hmem, hlt⟩
      have := lt_of_mem_liveSlots hmem
      omega
  | succ n ih =>
      have hsum : k + (n + 1) = k + 1 + n := by omega
      rw [Nat.succ_add, liveSlots, liveSlots, hsum]
      split_ifs
      · exact ih
      · exact iff_of_false List.not_mem_nil (fun h => absurd h.1 List.not_mem_nil)
      · exact ih
      · rw [List.mem_cons, List.mem_cons, ih]
        constructor
        · rintro (rfl | h)
          · exact ⟨Or.inl rfl, by omega⟩
          · exact ⟨Or.inr h.1, h.2⟩
        · rintro ⟨hi | hmem, hlt⟩
          · exact Or.inl hi
          · exact Or.inr ⟨hmem, hlt⟩

theorem liveSlots_congr (h : ∀ j, k ≤ j → j < k + n → s' j = s j) : liveSlots s' n k = liveSlots s n k := by
  induction n generalizing k with
  | zero => rfl
  | succ n ih =>
      rw [liveSlots, liveSlots, h k le_rfl (by omega), ih fun j hj hlt => h j (by omega) (by omega)]

end

/-! ### The entries of a directory in a row -/

section

variable {fs : FAT12FS} {l : List Nat}

theorem dirEntry_first (c : Nat) (m : List Nat) {j : Nat} (hj : j < slotCount fs) :
    dirEntry fs (c :: m) j = slot fs c j := by
  rw [dirEntry, Nat.div_eq_of_lt hj, Nat.mod_eq_of_lt hj]
  rfl

theorem dirEntry_later (hpos : 0 < slotCount fs) (c : Nat) (m : List Nat) (j : Nat) :
    dirEntry fs (c :: m) (slotCount fs + j) = dirEntry fs m j := by
  rw [dirEntry, dirEntry, Nat.add_div_left j hpos, Nat.add_mod_left]
  rfl

theorem dirEntry_append (hpos : 0 < slotCount fs) (pre m : List Nat) {j : Nat} (hj : j < pre.length * slotCount fs) :
    dirEntry fs (pre ++ m) j = dirEntry fs pre j := by
  have hdiv : j / slotCount fs < pre.length := (Nat.div_lt_iff_lt_mul hpos).mpr hj
  rw [dirEntry, dirEntry, List.getD_append _ _ _ _ hdiv]

/-- The iterator is to yield something if one of the entries it takes is no label. -/
theorem remaining_ne_nil (hpos : 0 < slotCount fs) (lfn : Bool) (m : List Nat) :
    remaining fs lfn 0 m ≠ [] ↔
      ∃ i, i ∈ keptSlots (dirEntry fs m) (m.length * slotCount fs) 0 lfn ∧ ¬IsLabel (dirEntry fs m i) := by
  induction m generalizing lfn with
  | nil =>
      apply iff_of_false (fun h => h rfl)
      rintro ⟨i, hi, -⟩
      rw [List.length_nil, Nat.zero_mul] at hi
      exact absurd hi List.not_mem_nil
  | cons c m ih =>
      have hfirst : keptSlots (dirEntry fs (c :: m)) (slotCount fs) 0 lfn = keptSlots (slot fs c) (slotCount fs) 0 lfn := by
        have hcongr := @keptSlots_congr (slot fs c) (dirEntry fs (c :: m)) (slotCount fs) 0 0 lfn
          (fun j hj => by rw [Nat.zero_add]; exact dirEntry_first c m hj)
        rw [hcongr]
        simp
      have hcarry : carry (dirEntry fs (c :: m)) (slotCount fs) 0 lfn = carry (slot fs c) (slotCount fs) 0 lfn :=
        carry_congr fun j hj => by rw [Nat.zero_add]; exact dirEntry_first c m hj
      have hlen : (c :: m).length * slotCount fs = slotCount fs + m.length * slotCount fs := by
        rw [List.length_cons, Nat.succ_mul, Nat.add_comm]
      have hlater : ∀ b, keptSlots (dirEntry fs (c :: m)) (m.length * slotCount fs) (0 + slotCount fs) b =
          (keptSlots (dirEntry fs m) (m.length * slotCount fs) 0 b).map fun j => slotCount fs + j := by
        intro b
        rw [@keptSlots_congr (dirEntry fs m) (dirEntry fs (c :: m)) (m.length * slotCount fs) (0 + slotCount fs) 0 b
          (fun j _ => by rw [Nat.zero_add, Nat.zero_add]; exact dirEntry_later hpos c m j)]
        apply List.map_congr_left
        intro j _
        omega
      rw [remaining, Nat.sub_zero, hlen, keptSlots_add, hfirst, hcarry, Ne, List.append_eq_nil_iff, not_and_or,
        List.map_eq_nil_iff]
      constructor
      · rintro (hkept | hrest)
        · obtain ⟨i, hi⟩ := List.exists_mem_of_ne_nil _ hkept
          obtain ⟨hmem, hlabel⟩ := List.mem_filter.mp hi
          have hlt : i < slotCount fs := by simpa using lt_of_mem_keptSlots hmem
          refine ⟨i, List.mem_append_left _ hmem, ?_⟩
          rw [dirEntry_first c m hlt]
          simpa using hlabel
        · cases hc : carry (slot fs c) (slotCount fs) 0 lfn with
          | none =>
              rw [hc] at hrest
              exact absurd rfl hrest
          | some b =>
              rw [hc] at hrest
              obtain ⟨i, hmem, hlabel⟩ := (ih b).mp hrest
              refine ⟨slotCount fs + i, List.mem_append_right _ ?_, ?_⟩
              · dsimp only
                rw [hlater]
                exact List.mem_map.mpr ⟨i, hmem, rfl⟩
              · rwa [dirEntry_later hpos]
      · rintro ⟨i, hmem, hlabel⟩
        rcases List.mem_append.mp hmem with hmem | hmem
        · have hlt : i < slotCount fs := by simpa using lt_of_mem_keptSlots hmem
          rw [dirEntry_first c m hlt] at hlabel
          left
          exact List.ne_nil_of_mem (List.mem_filter.mpr ⟨hmem, by simpa using hlabel⟩)
        · right
          cases hc : carry (slot fs c) (slotCount fs) 0 lfn with
          | none =>
              rw [hc] at hmem
              exact absurd hmem List.not_mem_nil
          | some b =>
              rw [hc] at hmem
              dsimp only at hmem
              rw [hlater] at hmem
              obtain ⟨j, hj, rfl⟩ := List.mem_map.mp hmem
              rw [dirEntry_later hpos] at hlabel
              exact (ih b).mpr ⟨j, hj, hlabel⟩

/-- The iterator shows something of the clusters it can read just if it sees a live entry. -/
theorem remaining_readable (hpos : 0 < slotCount fs) (l : List Nat) :
    remaining fs false 0 (readable l) ≠ [] ↔ ∃ k ∈ liveIn fs l, Sees fs l k := by
  have hsplit : readable l ++ l.dropWhile (· < 0xFF0) = l := List.takeWhile_append_dropWhile
  have hlen : l.length * slotCount fs =
      (readable l).length * slotCount fs + (l.dropWhile (· < 0xFF0)).length * slotCount fs := by
    rw [← Nat.add_mul, ← List.length_append, hsplit]
  have hentry : ∀ j, j < (readable l).length * slotCount fs → dirEntry fs l j = dirEntry fs (readable l) j := by
    intro j hj
    conv_lhs => rw [← hsplit]
    exact dirEntry_append hpos _ _ hj
  rw [remaining_ne_nil hpos]
  apply exists_congr
  intro i
  rw [mem_keptSlots_iff, ← liveSlots_congr (fun j _ hj => hentry j (by omega)), liveIn, hlen,
    @mem_liveSlots_add (dirEntry fs l) ((readable l).length * slotCount fs)
      ((l.dropWhile (· < 0xFF0)).length * slotCount fs), and_assoc, Nat.zero_add]
  apply and_congr_right
  intro _
  apply and_congr_right
  intro hlt
  apply not_congr
  constructor
  · rintro (⟨-, hfalse⟩ | ⟨j, -, hi, hlfn⟩)
    · cases hfalse
    · exact ⟨j, hi, by rwa [hentry j (by omega)]⟩
  · rintro ⟨j, hi, hlfn⟩
    exact Or.inr ⟨j, Nat.zero_le j, hi, by rwa [← hentry j (by omega)]⟩

end

/-! ### What `is_dir_empty` decides -/

/-- From the start of a cluster on the iterator yields something just if there is something to yield in the
clusters that it can read. -/
theorem nextLoop_found {fs : FAT12FS} {it : DirIter} {head : Option Nat} {m : List Nat} {fuel : Nat} (hm : Mounted fs)
    (hcoh : Coherent fs) (haccepted : fs.bpb.accepted = true) (hwalk : Walk (fatNext fs.fatTable) head m)
    (hlead : Leads it.currentCluster m) (hvalid : ∀ c ∈ m, 2 ≤ c ∧ c ≤ 0xFF7) (hindex : it.entryIndexInCluster = 0)
    (hfuel : m.length < fuel) :
    ∃ found it' fs', DirIter.nextLoop fuel fs it = .ret (found, it', fs') ∧
      (found = true ↔ remaining fs (it.current.status = .SKIP_LFN) 0 (readable m) ≠ []) := by
  induction m generalizing fs it head fuel with
  | nil =>
      obtain ⟨fuel, rfl⟩ : ∃ n, fuel = n + 1 := ⟨fuel - 1, by omega⟩
      have hend : ¬(2 ≤ it.currentCluster ∧ it.currentCluster < 0xFF8) := hlead
      refine ⟨false, it, fs, ?_, iff_of_false (by decide) (fun h => h rfl)⟩
      rw [DirIter.nextLoop, if_neg hend]
      rfl
  | cons c m ih =>
      obtain ⟨fuel, rfl⟩ : ∃ n, fuel = n + 1 := ⟨fuel - 1, by omega⟩
      obtain ⟨-, htail⟩ := hwalk
      obtain rfl : it.currentCluster = c := hlead
      have hchain := hvalid it.currentCluster List.mem_cons_self
      have hin : 2 ≤ it.currentCluster ∧ it.currentCluster < 0xFF8 := ⟨hchain.1, by omega⟩
      rw [DirIter.nextLoop, if_pos hin]
      by_cases hread : it.currentCluster < 0xFF0
      · obtain ⟨i, fs₁, fs₂, hget, hrel, hbuf, hsame₁, -, hcoh₂, hsame₂, htable₂, hsector₂⟩ :=
          readCache_spec hm hcoh ⟨hchain.1, hread⟩
        have hbyte := clusterByte_congr hsame₂ hsector₂
        obtain ⟨hcount, -⟩ := slotCount_spec hm haccepted
        have hreadable := readable_cons ⟨hchain.1, hread⟩ m
        have hscan := @scan_spec (fs₁.cachePool i).buf (slot fs it.currentCluster) (slotCount fs) 0 it.current
          (fun k _ hk off hoff => buffer_slots hbuf (by omega) hoff)
        rw [hget, hreadable, remaining, hindex]
        simp only [Outcome.ret_bind, hsame₁.clusterSize, hcount, Nat.sub_zero]
        cases hcase : DirIter.scan (fs₁.cachePool i).buf (slotCount fs) 0 it.current with
        | yielded k current =>
            rw [hcase] at hscan
            obtain ⟨j, -, -, -, hkept, -⟩ := hscan
            simp only [hrel, Outcome.ret_bind]
            refine ⟨true, _, _, rfl, iff_of_true rfl ?_⟩
            rw [hkept, List.map_cons]
            exact List.cons_ne_nil _ _
        | endOfDir k current =>
            rw [hcase] at hscan
            obtain ⟨hkept, hcarry⟩ := hscan
            simp only [hrel, Outcome.ret_bind]
            refine ⟨false, _, _, rfl, iff_of_false (by decide) ?_⟩
            rw [hkept, hcarry]
            exact fun h => h rfl
        | exhausted current =>
            rw [hcase] at hscan
            obtain ⟨hkept, hcarry⟩ := hscan
            have hwalk₂ : Walk (fatNext fs₂.fatTable) (fatNext fs.fatTable it.currentCluster) m := by
              rw [htable₂]
              exact htail
            have hlead₂ : Leads (fs₂.fatTable it.currentCluster) m := by
              rw [htable₂]
              exact leads_of_walk htail
            obtain ⟨found, it', fs', hrun, hfound⟩ := @ih fs₂
              { it with currentCluster := fs₂.fatTable it.currentCluster, entryIndexInCluster := 0, current }
              (fatNext fs.fatTable it.currentCluster) fuel (hm.congr hsame₂) hcoh₂ (by rw [hsame₂.bpb]; exact haccepted)
              hwalk₂ hlead₂ (fun d hd => hvalid d (List.mem_cons_of_mem _ hd)) rfl
              (by rw [List.length_cons] at hfuel; omega)
            simp only [hrel, Outcome.ret_bind]
            refine ⟨found, it', fs', ?_, ?_⟩
            · rw [← hrun]
            · rw [hkept, hcarry, List.map_nil, List.nil_append]
              rwa [remaining_congr hbyte hsame₂.clusterSize] at hfound
      · -- `get_cache` refuses the cluster, and the iterator ends there
        have hrefused : ¬IsCluster it.currentCluster := fun hc => hread hc.2
        rw [getCache_refused hrefused, readable_refused hin hrefused]
        exact ⟨false, it, fs, rfl, iff_of_false (by decide) (fun h => h rfl)⟩

theorem length_le_chainCount {table : Nat → Nat} {head : Option Nat} {l : List Nat} (h : Walk (fatNext table) head l)
    (hvalid : ∀ c ∈ l, 2 ≤ c ∧ c ≤ 0xFF7) : l.length ≤ chainCount := by
  have hsub : l.toFinset ⊆ Finset.Ico 2 0xFF8 := by
    intro c hc
    have := hvalid c (List.mem_toFinset.mp hc)
    rw [Finset.mem_Ico]
    omega
  have hcard := Finset.card_le_card hsub
  rw [List.toFinset_card_of_nodup h.nodup, Nat.card_Ico] at hcard
  exact hcard

section

variable {vol : FatVolume} {place : Nat} {l : List Nat}

/-- `is_dir_empty` returns 0 just if the iterator sees a live entry. -/
theorem IsSubdir.isDirEmpty_eq (h : IsSubdir vol.fs (vol.inodepool.inodes place) l) :
    ∃ res fs', vol.isDirEmpty place = .ret (res, { vol with fs := fs' }) ∧
      (res = 1 ↔ ¬∃ k ∈ liveIn vol.fs l, Sees vol.fs l k) := by
  obtain ⟨-, hpos⟩ := slotCount_spec h.mounted h.accepted
  have hinit : DirIter.init vol.fs (some (vol.inodepool.inodes place)) =
      some ⟨some (vol.inodepool.inodes place), (vol.inodepool.inodes place).startCluster, 0, 0, reset⟩ := by
    unfold DirIter.init
    dsimp only
    rw [if_neg (fun hother => hother h.volume), if_neg h.directory]
  have hlen := length_le_chainCount h.walk h.valid
  have hlast : l.length < FAT12_MAX_CLUSTERS + 1 := by
    simp only [chainCount, FAT12_MAX_CLUSTERS] at *
    omega
  obtain ⟨found, it', fs', hrun, hfound⟩ := @nextLoop_found vol.fs
    ⟨some (vol.inodepool.inodes place), (vol.inodepool.inodes place).startCluster, 0, 0, reset⟩
    _ l (FAT12_MAX_CLUSTERS + 1) h.mounted h.coherent h.accepted h.walk (leads_of_head h.walk) h.valid rfl hlast
  refine ⟨if found then 0 else 1, fs', ?_, ?_⟩
  · unfold FatVolume.isDirEmpty
    dsimp only
    rw [if_neg (fun hother => hother h.volume), if_neg h.directory, hinit]
    dsimp only [DirIter.next]
    rw [hrun]
    rfl
  · rw [← remaining_readable hpos l, ← (show (found = true ↔ remaining vol.fs false 0 (readable l) ≠ []) from hfound)]
    cases found
    · exact iff_of_true rfl (by decide)
    · exact iff_of_false (by decide) (fun hnot => hnot rfl)

/-- The entry is one the driver can mark as deleted. -/
def InPlace (fs : FAT12FS) (location : EntryLocation) : Prop :=
  if location.isRoot then location.rootIndex < fs.rootEntries
  else IsCluster location.currentCluster ∧ location.entryIndexInCluster < slotCount fs

/-- `is_dir_empty` returns 1 just if the directory holds nothing, and one that holds nothing can be removed if
nothing else holds its inode. -/
structure RemovesEmpty (vol : FatVolume) (place : Nat) (l : List Nat) : Prop where
  decides : (∃ vol', vol.isDirEmpty place = .ret (1, vol')) ↔ HoldsNothing vol.fs l
  removes : HoldsNothing vol.fs l → ∀ (vol₀ : FatVolume) dir name clusters entry,
    vol₀.lookup dir name = .ret (some ⟨place, entry⟩, clusters, vol) → vol.inodepool.refcount place = 1 →
      InPlace vol.fs (vol.inodepool.inodes place).location → ∃ vol', vol₀.removeDirectory dir name = .ret (true, vol')

theorem deleteDirEntry_inPlace {fs : FAT12FS} {location : EntryLocation} (hm : Mounted fs) (hcoh : Coherent fs)
    (h : InPlace fs location) : ∃ fs', fs.deleteDirEntry location = .ret (true, fs') := by
  unfold InPlace at h
  unfold deleteDirEntry
  split
  · rename_i hroot
    rw [if_pos hroot] at h
    rw [if_neg (by omega)]
    exact ⟨_, rfl⟩
  · rename_i hroot
    rw [if_neg hroot] at h
    obtain ⟨hc, hindex⟩ := h
    obtain ⟨i, fs₁, hget, hpin⟩ := getCache_spec hm hcoh hc
    obtain ⟨fs₂, hrel, -⟩ := hpin.storeRelease hm hcoh hc.1
      (Function.update (fs₁.cachePool i).buf (location.entryIndexInCluster * FAT12_ENTRY_BYTES) 0xE5)
    have hslots : ¬location.entryIndexInCluster ≥ fs.clusterSize / FAT12_ENTRY_BYTES := by
      rw [slotCount] at hindex
      omega
    have hcluster : ¬(location.currentCluster < 2 ∨ location.currentCluster > 0xFF7) := by
      have := hc.1
      have := hc.2
      omega
    refine ⟨fs₂, ?_⟩
    unfold putDirEntry
    rw [if_neg hslots, if_neg hcluster, hget]
    simp only [Outcome.ret_bind, EntryBuf.write, if_true]
    rw [edited] at hrel
    rw [hrel]
    rfl

/-- The end of `remove_directory` for an entry that is in place. -/
theorem removeTarget_inPlace (hm : Mounted vol.fs) (hcoh : Coherent vol.fs)
    (h : InPlace vol.fs (vol.inodepool.inodes place).location) : ∃ vol', vol.removeTarget place = .ret (true, vol') := by
  obtain ⟨fs₁, hdelete⟩ := deleteDirEntry_inPlace hm hcoh h
  have hcard := fs₁.inUse_card_le
  obtain ⟨fs₂, hfree⟩ := @freeLoop_terminates (FAT12_MAX_CLUSTERS + 1) fs₁ (vol.inodepool.inodes place).startCluster
    (by simp only [chainCount, FAT12_MAX_CLUSTERS] at *; omega)
  refine ⟨{ vol with fs := fs₂ }.releaseInode place, ?_⟩
  unfold FatVolume.removeTarget
  dsimp only
  rw [hdelete]
  simp only [Outcome.ret_bind, hfree]
  rfl

/-- A directory that holds nothing but `.`, `..` and labels is found to be empty, and one that holds more is not,
if and only if the iterator sees a live entry exactly where there is one other than `.` and `..`. -/
theorem removesEmpty_iff (h : IsSubdir vol.fs (vol.inodepool.inodes place) l) :
    RemovesEmpty vol place l ↔
      ((∃ k ∈ liveIn vol.fs l, Sees vol.fs l k) ↔ ∃ k ∈ liveIn vol.fs l, ¬IsDots (dirEntry vol.fs l k)) := by
  obtain ⟨res, fs₁, hrun, hres⟩ := h.isDirEmpty_eq
  have hone : (∃ vol', vol.isDirEmpty place = .ret (1, vol')) ↔ res = 1 := by
    rw [hrun]
    constructor
    · rintro ⟨vol', heq⟩
      exact (Prod.mk.inj (Outcome.ret.inj heq)).1
    · rintro rfl
      exact ⟨_, rfl⟩
  have hholds : HoldsNothing vol.fs l ↔ ¬∃ k ∈ liveIn vol.fs l, ¬IsDots (dirEntry vol.fs l k) := by
    unfold HoldsNothing
    simp only [not_exists, not_and, not_not]
  constructor
  · intro hremoves
    have hdecides := hremoves.decides
    rw [hone, hres, hholds] at hdecides
    exact not_iff_not.mp hdecides
  · intro hsees
    refine ⟨by rw [hone, hres, hholds, hsees], ?_⟩
    intro hnothing vol₀ dir name clusters entry hlookup hrefcount hplace
    have hempty : res = 1 := by
      rw [hres, hsees]
      exact hholds.mp hnothing
    obtain ⟨hcoh₁, hsame⟩ := FatVolume.isDirEmpty_keeps hrun h.mounted h.coherent
    have hplace₁ : InPlace fs₁ (vol.inodepool.inodes place).location := by
      have hroot : fs₁.rootEntries = vol.fs.rootEntries := hsame.rootEntries
      have hsize : fs₁.clusterSize = vol.fs.clusterSize := hsame.clusterSize
      unfold InPlace slotCount at *
      rwa [hroot, hsize]
    obtain ⟨vol₂, hremoved⟩ := @removeTarget_inPlace { vol with fs := fs₁ } place (h.mounted.congr hsame) hcoh₁ hplace₁
    refine ⟨vol₂, ?_⟩
    unfold FatVolume.removeDirectory
    rw [hlookup]
    simp only [Outcome.ret_bind]
    rw [if_neg h.directory, hrun]
    simp only [Outcome.ret_bind]
    rw [if_neg (fun hne => hne hempty), if_neg (fun hne => hne hrefcount), hremoved]

end

/-- A volume with a directory in cluster 2, whose only entry has the base name and the attribute. -/
def oneEntry (name : List Byte) (attr : Byte) : FatVolume where
  fs :=
    { entryInFile.fs with
      device :=
        { sector := fun lba off =>
            if lba = 4 then if off < 11 then name.getD off 0x20 else if off = 11 then attr else 0 else 0
          fails := fun _ => false
          requests := 0 } }
  inodepool :=
    { node_count := 8
      bitmap := fun i => i = 0
      inodes := fun _ => ⟨0, 0, 2, DIRECTORY, ⟨true, 0, 0, 0⟩⟩
      refcount := fun i => if i = 0 then 1 else 0 }

theorem oneEntry_isSubdir (name : List Byte) (attr : Byte) :
    IsSubdir (oneEntry name attr).fs ((oneEntry name attr).inodepool.inodes 0) [2] where
  mounted := ⟨fun _ => rfl, rfl, (by decide : 0 < 1), rfl, (by decide : 0 < 16),
    (by decide : 4 = 1 + 2 * 1 + (16 * FAT12_ENTRY_BYTES + 511) / 512)⟩
  coherent := ⟨fun _ _ => rfl, fun _ _ => rfl, fun _ _ hi => absurd hi (Nat.not_succ_le_zero 1),
    fun _ _ _ _ hi => absurd hi (Nat.not_succ_le_zero 1)⟩
  accepted := (by decide : (Fat12BPB.mk 512 1 1 2 16 1).accepted = true)
  volume := rfl
  directory := (by decide : DIRECTORY &&& DIRECTORY ≠ 0)
  walk := ⟨rfl, rfl⟩
  valid := by
    intro c hc
    obtain rfl := List.mem_singleton.mp hc
    exact ⟨le_rfl, by decide⟩

theorem not_behindLfn_zero (slot : Nat → ByteMap) : ¬BehindLfn slot 0 := by
  rintro ⟨j, hj, -⟩
  cases hj

theorem oneEntry_sees (name : List Byte) (attr : Byte) : Sees (oneEntry name attr).fs [2] 0 :=
  ⟨(by decide : 0 < (readable [2]).length * (512 / 32)), not_behindLfn_zero _⟩

/-- A directory with the file `A` in it is not removed. -/
theorem removesEmpty_iff_file : RemovesEmpty (oneEntry [0x41] 0x20) 0 [2] := by
  have hlive : liveIn (oneEntry [0x41] 0x20).fs [2] = [0] := by decide +kernel
  apply (removesEmpty_iff (oneEntry_isSubdir [0x41] 0x20)).mpr
  rw [hlive]
  apply iff_of_true
  · exact ⟨0, List.mem_singleton.mpr rfl, oneEntry_sees _ _⟩
  · exact ⟨0, List.mem_singleton.mpr rfl, by decide +kernel⟩

/-- A directory with nothing but its own entry `.` is found not to be empty. -/
theorem not_removesEmpty_dot : IsSubdir (oneEntry [0x2E] 0x10).fs ((oneEntry [0x2E] 0x10).inodepool.inodes 0) [2] ∧
    HoldsNothing (oneEntry [0x2E] 0x10).fs [2] ∧ ¬∃ vol', (oneEntry [0x2E] 0x10).isDirEmpty 0 = .ret (1, vol') := by
  have hsubdir := oneEntry_isSubdir [0x2E] 0x10
  have hlive : liveIn (oneEntry [0x2E] 0x10).fs [2] = [0] := by decide +kernel
  refine ⟨hsubdir, ?_, ?_⟩
  · unfold HoldsNothing
    rw [hlive]
    intro k hk
    obtain rfl := List.mem_singleton.mp hk
    decide +kernel
  · rintro ⟨vol', hempty⟩
    obtain ⟨res, fs', hrun, hres⟩ := hsubdir.isDirEmpty_eq
    rw [hempty] at hrun
    have hone : res = 1 := (Prod.mk.inj (Outcome.ret.inj hrun)).1.symm
    apply hres.mp hone
    rw [hlive]
    exact ⟨0, List.mem_singleton.mpr rfl, oneEntry_sees _ _⟩

end SysuOs.Vfs
