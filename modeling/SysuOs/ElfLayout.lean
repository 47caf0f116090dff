import SysuOs.ElfModel
import SysuOs.PagingWords

/-! The layout that `parseELF` makes of an accepted file. The pieces of a program header fill the pages it
touches; everything else follows the highest of them, without a look at where the words wrap around. -/

namespace SysuOs.Elf

/-! ### Pages -/

/-- The page of an address begins here. -/
def pageDown (a : Nat) : Nat := a / 4096 * 4096

/-- The first page that begins at an address or behind it. -/
def pageUp (a : Nat) : Nat := (a + 4095) / 4096 * 4096

theorem toNat_align_down (a : Word) : (align_down a PAGE_SIZE).toNat = pageDown a.toNat :=
  getAddress_eq a

theorem toNat_align_up {a : Word} (h : a.toNat + 4095 < 2 ^ 32) : (align_up a PAGE_SIZE).toNat = pageUp a.toNat := by
  have hsum : (a + PAGE_SIZE - 1).toNat = a.toNat + 4095 := by
    unfold PAGE_SIZE
    bv_omega
  have hmask := toNat_align_down (a + PAGE_SIZE - 1)
  rw [hsum] at hmask
  exact hmask

theorem pageDown_le (a : Nat) : pageDown a ≤ a := Nat.div_mul_le_self a 4096

theorem le_pageUp (a : Nat) : a ≤ pageUp a := by
  unfold pageUp
  omega

theorem pageUp_mono {a b : Nat} (h : a ≤ b) : pageUp a ≤ pageUp b :=
  Nat.mul_le_mul_right _ (Nat.div_le_div_right (by omega))

theorem pageUp_pageUp (a : Nat) : pageUp (pageUp a) = pageUp a := by
  unfold pageUp
  omega

theorem pageDown_lt_pageUp {a b : Nat} (h : a < b) : pageDown a < pageUp b := by
  unfold pageDown pageUp
  omega

theorem toNat_max (a b : Word) : (max a b).toNat = Nat.max a.toNat b.toNat := by
  rw [max]
  split
  · next h => exact (Nat.max_eq_right (Nat.le_of_lt h)).symm
  · next h => exact (Nat.max_eq_left (Nat.le_of_not_lt h)).symm

/-! ### The pieces of a header -/

/-- The header is loaded. -/
def Elf32_Phdr.Loadable (phdr : Elf32_Phdr) : Bool := decide (phdr.p_type = PT_LOAD ∧ phdr.p_memsz ≠ 0)

/-- The pages that a header touches, from the first to behind the last. -/
def Elf32_Phdr.pages (phdr : Elf32_Phdr) : Nat × Nat :=
  (pageDown phdr.p_vaddr.toNat, pageUp (phdr.p_vaddr.toNat + phdr.p_memsz.toNat))

def ElfSegment.range (seg : ElfSegment) : Nat × Nat := (seg.vaddr.toNat, seg.vaddr.toNat + seg.memsz.toNat)

/-- Where the pieces of a header that hold bytes of the file end. -/
def Elf32_Phdr.dataEnd (phdr : Elf32_Phdr) : Word :=
  if phdr.p_filesz ≠ 0 then align_up (phdr.p_vaddr + phdr.p_filesz) PAGE_SIZE else align_down phdr.p_vaddr PAGE_SIZE

/-- The segments that a header is split into. -/
def Elf32_Phdr.pieces (phdr : Elf32_Phdr) : List ElfSegment :=
  let first := align_down phdr.p_vaddr PAGE_SIZE
  let last := align_up (phdr.p_vaddr + phdr.p_memsz) PAGE_SIZE
  if phdr.p_flags &&& PF_X ≠ 0 then
    [⟨.TEXT, first, phdr.p_vaddr, last - first, phdr.p_filesz, phdr.p_offset, segmentFlags phdr⟩]
  else
    (if phdr.p_filesz ≠ 0 then
      [⟨.DATA, first, phdr.p_vaddr, phdr.dataEnd - first, phdr.p_filesz, phdr.p_offset, segmentFlags phdr⟩] else []) ++
    if phdr.dataEnd < last then [⟨.BSS, phdr.dataEnd, phdr.dataEnd, last - phdr.dataEnd, 0, 0, VP_USER ||| VP_RW⟩] else []

/-- The header passes the test of `parseELF`. -/
structure Elf32_Phdr.Valid (phdr : Elf32_Phdr) : Prop where
  filesz : phdr.p_filesz.toNat ≤ phdr.p_memsz.toNat
  memsz : 0 < phdr.p_memsz.toNat
  start : 0x08048000 ≤ phdr.p_vaddr.toNat
  lt : phdr.p_vaddr.toNat + phdr.p_memsz.toNat < 0xbfff0000

theorem valid_of_accepted {phdr : Elf32_Phdr} (hmemsz : phdr.p_memsz ≠ 0) (h : invalidSegment phdr = false) :
    phdr.Valid := by
  have hok := of_decide_eq_false h
  simp only [not_or, BitVec.not_lt, BitVec.not_le, USER_VADDR_START, STACK_TOP] at hok
  obtain ⟨hfile, hstart, hwrap, htop⟩ := hok
  have hmem : 0 < phdr.p_memsz.toNat := by
    rw [Nat.pos_iff_ne_zero]
    exact fun h0 => hmemsz (BitVec.eq_of_toNat_eq h0)
  refine ⟨hfile, hmem, hstart, ?_⟩
  bv_omega

namespace Elf32_Phdr.Valid

variable {phdr : Elf32_Phdr}

theorem memEnd (h : phdr.Valid) : (phdr.p_vaddr + phdr.p_memsz).toNat = phdr.p_vaddr.toNat + phdr.p_memsz.toNat := by
  have hlt := h.lt
  bv_omega

theorem fileEnd (h : phdr.Valid) :
    (phdr.p_vaddr + phdr.p_filesz).toNat = phdr.p_vaddr.toNat + phdr.p_filesz.toNat := by
  have hlt := h.lt
  have hfile := h.filesz
  bv_omega

theorem last (h : phdr.Valid) : (align_up (phdr.p_vaddr + phdr.p_memsz) PAGE_SIZE).toNat = phdr.pages.2 := by
  have hlt := h.lt
  rw [toNat_align_up, h.memEnd]
  · rfl
  · rw [h.memEnd]
    omega

theorem pages_le (h : phdr.Valid) : phdr.pages.2 ≤ 0xbfff0000 := by
  have hlt := h.lt
  show pageUp (phdr.p_vaddr.toNat + phdr.p_memsz.toNat) ≤ _
  unfold pageUp
  omega

theorem pages_lt (h : phdr.Valid) : phdr.pages.1 < phdr.pages.2 := by
  have hmem := h.memsz
  exact pageDown_lt_pageUp (by omega)

/-- The pages with bytes of the file lie among the pages of the header. -/
theorem dataEnd (h : phdr.Valid) :
    phdr.dataEnd.toNat = (if phdr.p_filesz ≠ 0 then pageUp (phdr.p_vaddr.toNat + phdr.p_filesz.toNat) else phdr.pages.1) := by
  have hlt := h.lt
  have hfile := h.filesz
  rw [Elf32_Phdr.dataEnd]
  split
  · rw [toNat_align_up, h.fileEnd]
    rw [h.fileEnd]
    omega
  · exact toNat_align_down phdr.p_vaddr

theorem dataEnd_le (h : phdr.Valid) : phdr.pages.1 ≤ phdr.dataEnd.toNat ∧ phdr.dataEnd.toNat ≤ phdr.pages.2 := by
  have hfile := h.filesz
  have hlt := h.pages_lt
  rw [h.dataEnd]
  split
  · refine ⟨?_, pageUp_mono (by omega)⟩
    exact (pageDown_le _).trans ((Nat.le_add_right _ _).trans (le_pageUp _))
  · exact ⟨le_rfl, hlt.le⟩

theorem first_lt_dataEnd (h : phdr.Valid) (hfile : phdr.p_filesz ≠ 0) : phdr.pages.1 < phdr.dataEnd.toNat := by
  have hpos : 0 < phdr.p_filesz.toNat := by
    rw [Nat.pos_iff_ne_zero]
    exact fun h0 => hfile (BitVec.eq_of_toNat_eq h0)
  rw [h.dataEnd, if_pos hfile]
  exact pageDown_lt_pageUp (by omega)

end Elf32_Phdr.Valid

/-- The segments `l` fill the addresses from `a` to `b`, one behind the other. -/
inductive Fills : Nat → Nat → List ElfSegment → Prop
  | nil {a : Nat} : Fills a a []
  | cons {a b : Nat} {seg : ElfSegment} {l : List ElfSegment} :
      seg.vaddr.toNat = a → 0 < seg.memsz.toNat → Fills (a + seg.memsz.toNat) b l → Fills a b (seg :: l)

namespace Fills

variable {a b : Nat} {l : List ElfSegment}

theorem le (h : Fills a b l) : a ≤ b := by
  induction h with
  | nil => exact le_rfl
  | cons _ _ _ ih => exact (Nat.le_add_right _ _).trans ih

theorem bounds (h : Fills a b l) : ∀ seg ∈ l, a ≤ seg.range.1 ∧ seg.range.1 < seg.range.2 ∧ seg.range.2 ≤ b := by
  induction h with
  | nil => simp
  | cons hstart hpos hrest ih =>
      intro seg hseg
      rcases List.mem_cons.mp hseg with rfl | hseg
      · have hle := hrest.le
        simp only [ElfSegment.range]
        omega
      · obtain ⟨hfirst, hlt, hlast⟩ := ih seg hseg
        exact ⟨by omega, hlt, hlast⟩

/-- Every address between is in a segment. -/
theorem exists_mem (h : Fills a b l) {v : Nat} (ha : a ≤ v) (hb : v < b) :
    ∃ seg ∈ l, seg.range.1 ≤ v ∧ v < seg.range.2 := by
  induction h with
  | nil => omega
  | @cons a b seg l hstart hpos hrest ih =>
      by_cases hv : v < a + seg.memsz.toNat
      · refine ⟨seg, List.mem_cons_self, ?_, ?_⟩ <;> simp only [ElfSegment.range] <;> omega
      · obtain ⟨seg', hmem, hin⟩ := ih (by omega) hb
        exact ⟨seg', List.mem_cons_of_mem _ hmem, hin⟩

end Fills

/-- The ranges have no address in common. -/
def Apart (r r' : Nat × Nat) : Prop := r.2 ≤ r'.1 ∨ r'.2 ≤ r.1

instance (r r' : Nat × Nat) : Decidable (Apart r r') := inferInstanceAs (Decidable (_ ∨ _))

theorem Fills.pairwise {a b : Nat} {l : List ElfSegment} (h : Fills a b l) :
    l.Pairwise fun seg seg' => Apart seg.range seg'.range := by
  induction h with
  | nil => exact List.Pairwise.nil
  | cons hstart _ hrest ih =>
      refine List.Pairwise.cons (fun seg hseg => .inl ?_) ih
      have hfirst := (hrest.bounds seg hseg).1
      simp only [ElfSegment.range] at hfirst ⊢
      omega

/-- The pieces of two headers have an address in common if and only if the headers touch a common page. -/
theorem Fills.apart_iff {a b a' b' : Nat} {l l' : List ElfSegment} (h : Fills a b l) (h' : Fills a' b' l')
    (hlt : a < b) (hlt' : a' < b') :
    (∀ seg ∈ l, ∀ seg' ∈ l', Apart seg.range seg'.range) ↔ Apart (a, b) (a', b') := by
  constructor
  · intro hall
    by_contra hno
    simp only [Apart, not_or, not_le] at hno
    -- the later of the first addresses
    obtain ⟨seg, hseg, hin⟩ := h.exists_mem (v := Nat.max a a') (Nat.le_max_left a a') (Nat.max_lt.mpr ⟨hlt, hno.1⟩)
    obtain ⟨seg', hseg', hin'⟩ :=
      h'.exists_mem (v := Nat.max a a') (Nat.le_max_right a a') (Nat.max_lt.mpr ⟨hno.2, hlt'⟩)
    rcases hall seg hseg seg' hseg' with hapart | hapart
    · exact absurd (hin.2.trans_le (hapart.trans hin'.1)) (lt_irrefl _)
    · exact absurd (hin'.2.trans_le (hapart.trans hin.1)) (lt_irrefl _)
  · intro hapart seg hseg seg' hseg'
    obtain ⟨hfirst, -, hlast⟩ := h.bounds seg hseg
    obtain ⟨hfirst', -, hlast'⟩ := h'.bounds seg' hseg'
    exact hapart.imp (fun hab => hlast.trans (hab.trans hfirst')) fun hab => hlast'.trans (hab.trans hfirst)

theorem Elf32_Phdr.Valid.fills {phdr : Elf32_Phdr} (h : phdr.Valid) :
    Fills phdr.pages.1 phdr.pages.2 phdr.pieces := by
  have hfirst : (align_down phdr.p_vaddr PAGE_SIZE).toNat = phdr.pages.1 := toNat_align_down _
  have hlast := h.last
  have hlt := h.pages_lt
  obtain ⟨hle, hle'⟩ := h.dataEnd_le
  have hsub : ∀ x y : Word, x.toNat ≤ y.toNat → (y - x).toNat = y.toNat - x.toNat := fun x y hxy => by
    exact BitVec.toNat_sub_of_le hxy
  have hbss : ∀ a, a = phdr.dataEnd.toNat → Fills a phdr.pages.2
      (if phdr.dataEnd < align_up (phdr.p_vaddr + phdr.p_memsz) PAGE_SIZE then
        [⟨.BSS, phdr.dataEnd, phdr.dataEnd, align_up (phdr.p_vaddr + phdr.p_memsz) PAGE_SIZE - phdr.dataEnd, 0, 0,
          VP_USER ||| VP_RW⟩] else []) := by
    rintro a rfl
    split
    · next hbss =>
        have hbss : phdr.dataEnd.toNat < phdr.pages.2 := by rwa [BitVec.lt_def, hlast] at hbss
        have hsize := hsub phdr.dataEnd _ (by rw [hlast]; exact hle')
        rw [hlast] at hsize
        refine .cons rfl (by rw [hsize]; omega) ?_
        have hend : phdr.dataEnd.toNat + (align_up (phdr.p_vaddr + phdr.p_memsz) PAGE_SIZE - phdr.dataEnd).toNat =
            phdr.pages.2 := by omega
        rw [hend]
        exact .nil
    · next hbss =>
        have hbss : phdr.pages.2 ≤ phdr.dataEnd.toNat := by rwa [BitVec.not_lt, BitVec.le_def, hlast] at hbss
        rw [le_antisymm hle' hbss]
        exact .nil
  rw [Elf32_Phdr.pieces]
  split
  · have hsize := hsub (align_down phdr.p_vaddr PAGE_SIZE) (align_up (phdr.p_vaddr + phdr.p_memsz) PAGE_SIZE)
      (by rw [hfirst, hlast]; exact hlt.le)
    rw [hfirst, hlast] at hsize
    refine .cons hfirst (by dsimp only; omega) ?_
    have hend : phdr.pages.1 +
        (align_up (phdr.p_vaddr + phdr.p_memsz) PAGE_SIZE - align_down phdr.p_vaddr PAGE_SIZE).toNat = phdr.pages.2 := by
      omega
    dsimp only
    rw [hend]
    exact .nil
  · by_cases hfile : phdr.p_filesz = 0
    · rw [if_neg (not_not.mpr hfile), List.nil_append]
      refine hbss _ ?_
      rw [Elf32_Phdr.dataEnd, if_neg (not_not.mpr hfile), hfirst]
    · have hpos := h.first_lt_dataEnd hfile
      have hsize := hsub (align_down phdr.p_vaddr PAGE_SIZE) phdr.dataEnd (by rw [hfirst]; exact hle)
      rw [hfirst] at hsize
      rw [if_pos hfile]
      refine .cons hfirst (by dsimp only; omega) (hbss _ ?_)
      dsimp only
      omega

/-! ### What `parseELF` makes of a file -/

theorem add_elf_segment_some {segments segments' : List ElfSegment} {seg : ElfSegment} (hsize : seg.memsz ≠ 0)
    (h : add_elf_segment segments seg = some segments') : segments' = segments ++ [seg] := by
  rw [add_elf_segment, if_neg hsize] at h
  split at h
  · simp at h
  · exact (Option.some.inj h).symm

theorem parseBss_eq {phdr : Elf32_Phdr} {segments : List ElfSegment} {m : Word} :
    parseBss phdr segments m =
      let last := align_up (phdr.p_vaddr + phdr.p_memsz) PAGE_SIZE
      if phdr.dataEnd < last then do
        let segments ← add_elf_segment segments
          ⟨.BSS, phdr.dataEnd, phdr.dataEnd, last - phdr.dataEnd, 0, 0, VP_USER ||| VP_RW⟩
        pure (segments, max m last)
      else pure (segments, m) := rfl

/-- A header that is loaded adds its pieces. -/
theorem parseHeader_some {phdr : Elf32_Phdr} {segments segments' : List ElfSegment} {m m' : Word}
    (hload : phdr.Loadable = true) (h : parseHeader phdr segments m = some (segments', m')) :
    phdr.Valid ∧ segments' = segments ++ phdr.pieces ∧ m'.toNat = Nat.max m.toNat phdr.pages.2 := by
  obtain ⟨htype, hmemsz⟩ := of_decide_eq_true hload
  rw [parseHeader, if_neg (not_not.mpr htype), if_neg hmemsz] at h
  split at h
  · simp at h
  next hinvalid =>
  have hv := valid_of_accepted hmemsz (by simpa using hinvalid)
  have hlast := hv.last
  have hlt := hv.pages_lt
  obtain ⟨hle, hle'⟩ := hv.dataEnd_le
  have hfirst : (align_down phdr.p_vaddr PAGE_SIZE).toNat = phdr.pages.1 := toNat_align_down _
  have hne : ∀ x y : Word, x.toNat < y.toNat → y - x ≠ 0 := fun x y hxy h0 => by
    have hsub := BitVec.toNat_sub_of_le (Nat.le_of_lt hxy : x ≤ y)
    have hz : (0 : Word).toNat = 0 := rfl
    rw [h0, hz] at hsub
    omega
  refine ⟨hv, ?_⟩
  split at h
  · next hexec =>
      obtain ⟨segs, hsegs, h⟩ := Option.bind_eq_some_iff.mp h
      obtain ⟨rfl, rfl⟩ := Prod.mk.inj (Option.some.inj h)
      rw [toNat_max, hlast, add_elf_segment_some (hne _ _ (by rw [hfirst, hlast]; exact hlt)) hsegs,
        Elf32_Phdr.pieces, if_pos hexec]
      exact ⟨rfl, rfl⟩
  · next hexec =>
      obtain ⟨⟨segs, m₁⟩, hdata, hbss⟩ := Option.bind_eq_some_iff.mp h
      -- what the pages of the file leave behind
      have hdata : segs = segments ++ (if phdr.p_filesz ≠ 0 then
            [⟨.DATA, align_down phdr.p_vaddr PAGE_SIZE, phdr.p_vaddr,
              phdr.dataEnd - align_down phdr.p_vaddr PAGE_SIZE, phdr.p_filesz, phdr.p_offset, segmentFlags phdr⟩]
            else []) ∧ m₁.toNat = if phdr.p_filesz ≠ 0 then Nat.max m.toNat phdr.dataEnd.toNat else m.toNat := by
        rw [parseData] at hdata
        by_cases hfile : phdr.p_filesz = 0
        · rw [if_neg (fun hc => hc.1 hfile)] at hdata
          obtain ⟨rfl, rfl⟩ := Prod.mk.inj (Option.some.inj hdata)
          simp [hfile]
        · have hpos := hv.first_lt_dataEnd hfile
          have hlt' : align_down phdr.p_vaddr PAGE_SIZE < phdr.dataEnd := by
            rw [BitVec.lt_def, hfirst]
            exact hpos
          rw [if_pos ⟨hfile, hlt'⟩] at hdata
          obtain ⟨segs', hsegs, hdata⟩ := Option.bind_eq_some_iff.mp hdata
          obtain ⟨rfl, rfl⟩ := Prod.mk.inj (Option.some.inj hdata)
          refine ⟨?_, ?_⟩
          · rw [if_pos hfile]
            exact add_elf_segment_some (hne _ _ (by rw [hfirst]; exact hpos)) hsegs
          · show (max m phdr.dataEnd).toNat = _
            rw [toNat_max, if_pos hfile]
      have hbss : parseBss phdr segs m₁ = some (segments', m') := hbss
      rw [parseBss_eq] at hbss
      dsimp only at hbss
      rw [Elf32_Phdr.pieces, if_neg hexec, ← List.append_assoc, ← hdata.1]
      split at hbss
      · next hlt' =>
          obtain ⟨segs', hsegs, hbss⟩ := Option.bind_eq_some_iff.mp hbss
          obtain ⟨rfl, rfl⟩ := Prod.mk.inj (Option.some.inj hbss)
          have hpos : phdr.dataEnd < align_up (phdr.p_vaddr + phdr.p_memsz) PAGE_SIZE := hlt'
          rw [if_pos hpos, toNat_max, hlast, hdata.2]
          refine ⟨add_elf_segment_some (hne _ _ hpos) hsegs, ?_⟩
          split
          · show Max.max (Max.max m.toNat phdr.dataEnd.toNat) phdr.pages.2 = Max.max m.toNat phdr.pages.2
            rw [Nat.max_assoc, Nat.max_eq_right hle']
          · rfl
      · next hge =>
          obtain ⟨rfl, rfl⟩ := Prod.mk.inj (Option.some.inj hbss)
          have hge' : ¬ phdr.dataEnd < align_up (phdr.p_vaddr + phdr.p_memsz) PAGE_SIZE := hge
          rw [if_neg hge', List.append_nil, hdata.2]
          have heq : phdr.dataEnd.toNat = phdr.pages.2 := by
            rw [BitVec.not_lt, BitVec.le_def, hlast] at hge'
            exact le_antisymm hle' hge'
          refine ⟨rfl, ?_⟩
          split
          · rw [heq]
          · next hfile =>
              have hdir := hv.dataEnd
              rw [if_neg hfile, heq] at hdir
              exact absurd hdir hlt.ne'

/-- The program headers from `i` on. -/
def headers (read : Reader) (e_phoff : Word) : Nat → Nat → List Elf32_Phdr
  | 0, _ => []
  | n + 1, i => (readHeader read e_phoff i).toList ++ headers read e_phoff n (i + 1)

/-- The headers of a file that are loaded. -/
def loadHeaders (read : Reader) : List Elf32_Phdr :=
  match read 0 sizeofEhdr with
  | none => []
  | some b =>
      let ehdr := Elf32_Ehdr.ofBytes b
      (headers read ehdr.e_phoff ehdr.e_phnum.toNat 0).filter Elf32_Phdr.Loadable

/-- Where the highest header ends. -/
def staticEnd (start : Nat) (phdrs : List Elf32_Phdr) : Nat :=
  phdrs.foldl (fun e phdr => Nat.max e phdr.pages.2) start

theorem parseLoop_some {read : Reader} {e_phoff : Word} {n i : Nat} {segments segments' : List ElfSegment}
    {m m' : Word} (h : parseLoop read e_phoff n i segments m = some (segments', m')) :
    let phdrs := (headers read e_phoff n i).filter Elf32_Phdr.Loadable
    segments' = segments ++ phdrs.flatMap Elf32_Phdr.pieces ∧ (∀ phdr ∈ phdrs, phdr.Valid) ∧
      m'.toNat = staticEnd m.toNat phdrs := by
  induction n generalizing i segments m with
  | zero =>
      obtain ⟨rfl, rfl⟩ := Prod.mk.inj (Option.some.inj h)
      simp [headers, staticEnd]
  | succ n ih =>
      obtain ⟨phdr, hread, h⟩ := Option.bind_eq_some_iff.mp h
      obtain ⟨⟨segs, m₁⟩, hone, h⟩ := Option.bind_eq_some_iff.mp h
      obtain ⟨hsegs, hvalid, hm⟩ := ih h
      rw [headers, hread]
      cases hload : phdr.Loadable with
      | true =>
          obtain ⟨hv, rfl, hm₁⟩ := parseHeader_some hload hone
          simp only [Option.toList_some, List.singleton_append, List.filter_cons, hload, if_true]
          refine ⟨by rw [hsegs, List.flatMap_cons, List.append_assoc], fun p hp => ?_, ?_⟩
          · rcases List.mem_cons.mp hp with rfl | hp
            · exact hv
            · exact hvalid p hp
          · rw [hm, hm₁]
            rfl
      | false =>
          have hskip : segs = segments ∧ m₁ = m := by
            rw [parseHeader] at hone
            split at hone
            · exact (Prod.mk.inj (Option.some.inj hone)).imp Eq.symm Eq.symm
            · next htype =>
                have hmem : phdr.p_memsz = 0 := by
                  by_contra hne
                  have hyes : phdr.Loadable = true := decide_eq_true ⟨not_not.mp htype, hne⟩
                  rw [hload] at hyes
                  simp at hyes
                rw [if_pos hmem] at hone
                exact (Prod.mk.inj (Option.some.inj hone)).imp Eq.symm Eq.symm
          obtain ⟨rfl, rfl⟩ := hskip
          simp only [Option.toList_some, List.singleton_append, List.filter_cons, hload]
          exact ⟨hsegs, hvalid, hm⟩

/-- What is known of a file that is accepted. -/
theorem parseELF_accepted {fd : Int} {read : Reader} (h : (parseELF fd read).entry ≠ 0) :
    (∀ phdr ∈ loadHeaders read, phdr.Valid) ∧
    ∃ entry m, m.toNat = staticEnd 0x08048000 (loadHeaders read) ∧
      parseELF fd read = layout fd entry ((loadHeaders read).flatMap Elf32_Phdr.pieces) m ∧
      (parseELF fd read).mmap_begin < (parseELF fd read).stack_begin := by
  have hcleared : ELFConfig.cleared.entry = 0 := rfl
  have hopen : ¬ fd < 0 := fun hfd => by
    rw [parseELF, if_pos hfd] at h
    exact h hcleared
  rw [loadHeaders]
  rw [parseELF, if_neg hopen] at h ⊢
  cases hread : read 0 sizeofEhdr with
  | none =>
      rw [hread] at h
      exact absurd hcleared h
  | some b =>
      rw [hread] at h
      dsimp only at h ⊢
      split at h
      · exact absurd hcleared h
      next hok =>
      split at h
      · exact absurd hcleared h
      next segments m hloop =>
      obtain ⟨hsegs, hvalid, hm⟩ := parseLoop_some hloop
      rw [List.nil_append] at hsegs
      subst hsegs
      split at h
      · exact absurd hcleared h
      next hentry =>
      split at h
      · exact absurd hcleared h
      next hlayout =>
      rw [if_neg hok, if_neg hentry, if_neg hlayout]
      rw [not_or, BitVec.not_le] at hlayout
      exact ⟨hvalid, _, m, hm, rfl, hlayout.1⟩

/-! ### The layout -/

/-- The ranges of user space that a configuration hands out, from the first address to behind the last;
nothing wraps around. -/
def ELFConfig.ranges (elfConf : ELFConfig) : List (Nat × Nat) :=
  elfConf.segments.map ElfSegment.range ++
    [(elfConf.heap_begin.toNat, elfConf.heap_begin.toNat + elfConf.heap_size.toNat),
      (elfConf.tls_begin.toNat, elfConf.tls_begin.toNat + elfConf.tls_size.toNat),
      (elfConf.mmap_begin.toNat, elfConf.mmap_begin.toNat + elfConf.mmap_size.toNat),
      (elfConf.stack_begin.toNat, elfConf.stack_top.toNat)]

/-- The ranges have no address in common, and all of them end in user space. -/
structure InUserSpace (elfConf : ELFConfig) : Prop where
  apart : elfConf.ranges.Pairwise Apart
  inside : ∀ r ∈ elfConf.ranges, r.1 ≤ r.2 ∧ r.2 < 2 ^ 32 ∧ r.2 ≤ USER_VADDR_END.toNat

theorem staticEnd_le_iff {phdrs : List Elf32_Phdr} {start b : Nat} :
    staticEnd start phdrs ≤ b ↔ start ≤ b ∧ ∀ phdr ∈ phdrs, phdr.pages.2 ≤ b := by
  induction phdrs generalizing start with
  | nil => simp [staticEnd]
  | cons phdr phdrs ih =>
      show staticEnd (Max.max start phdr.pages.2) phdrs ≤ b ↔ _
      rw [ih, Nat.max_le, List.forall_mem_cons, and_assoc]

theorem pageUp_staticEnd {phdrs : List Elf32_Phdr} {start : Nat} (h : pageUp start = start) :
    pageUp (staticEnd start phdrs) = staticEnd start phdrs := by
  induction phdrs generalizing start with
  | nil => exact h
  | cons phdr phdrs ih =>
      refine ih ?_
      rcases Nat.le_total start phdr.pages.2 with hle | hle
      · show pageUp (Max.max start phdr.pages.2) = Max.max start phdr.pages.2
        rw [Nat.max_eq_right hle]
        exact pageUp_pageUp _
      · show pageUp (Max.max start phdr.pages.2) = Max.max start phdr.pages.2
        rw [Nat.max_eq_left hle]
        exact h

/-- The segments are apart if and only if the headers touch different pages. -/
theorem pieces_apart_iff {phdrs : List Elf32_Phdr} (hvalid : ∀ phdr ∈ phdrs, phdr.Valid) :
    ((phdrs.flatMap Elf32_Phdr.pieces).map ElfSegment.range).Pairwise Apart ↔
      phdrs.Pairwise fun phdr phdr' => Apart phdr.pages phdr'.pages := by
  rw [List.pairwise_map, List.pairwise_flatMap]
  have hself : ∀ phdr ∈ phdrs, phdr.pieces.Pairwise fun seg seg' => Apart seg.range seg'.range :=
    fun phdr hp => (hvalid phdr hp).fills.pairwise
  have hpair : (phdrs.Pairwise fun phdr phdr' =>
        ∀ seg ∈ phdr.pieces, ∀ seg' ∈ phdr'.pieces, Apart seg.range seg'.range) ↔
      phdrs.Pairwise fun phdr phdr' => Apart phdr.pages phdr'.pages := by
    refine List.Pairwise.iff_of_mem fun {phdr phdr'} hp hp' => ?_
    have hv := hvalid phdr hp
    have hv' := hvalid phdr' hp'
    exact hv.fills.apart_iff hv'.fills hv.pages_lt hv'.pages_lt
  exact ⟨fun h => hpair.mp h.2, fun h => ⟨hself, hpair.mpr h⟩⟩

theorem four_apart {s a b b' c d e : Nat} (hab : a ≤ b) (hbb' : b ≤ b') (hb'c : b' ≤ c) (hcd : c ≤ d) :
    [(s, a), (a, b), (b', c), (d, e)].Pairwise Apart := by
  simp [Apart]
  omega

/-- The layout of an accepted file is in order exactly when no two of its headers touch a common page, and
the heap and the TLS range behind the highest one end below 2^32. -/
theorem inUserSpace_iff {fd : Int} {read : Reader} (h : (parseELF fd read).entry ≠ 0) :
    InUserSpace (parseELF fd read) ↔
      ((loadHeaders read).Pairwise fun phdr phdr' => Apart phdr.pages phdr'.pages) ∧
        ∀ phdr ∈ loadHeaders read, phdr.pages.2 + 0x40020000 < 2 ^ 32 := by
  obtain ⟨hvalid, entry, m, hm, hlayout, hmmap⟩ := parseELF_accepted h
  rw [hlayout] at hmmap ⊢
  generalize loadHeaders read = phdrs at hvalid hm hmmap ⊢
  obtain ⟨hstart, hends⟩ := staticEnd_le_iff.mp hm.ge
  have hle : m.toNat ≤ 0xbfff0000 := by
    rw [hm]
    exact staticEnd_le_iff.mpr ⟨by norm_num, fun phdr hp => (hvalid phdr hp).pages_le⟩
  have hheap : (align_up m PAGE_SIZE).toNat = m.toNat := by
    rw [toNat_align_up (by omega), hm]
    exact pageUp_staticEnd (by norm_num [pageUp])
  have hsegs : ∀ r ∈ (phdrs.flatMap Elf32_Phdr.pieces).map ElfSegment.range, r.1 ≤ r.2 ∧ r.2 ≤ m.toNat := by
    intro r hr
    obtain ⟨seg, hseg, rfl⟩ := List.mem_map.mp hr
    obtain ⟨phdr, hp, hseg⟩ := List.mem_flatMap.mp hseg
    obtain ⟨-, hlt, hlast⟩ := (hvalid phdr hp).fills.bounds seg hseg
    exact ⟨hlt.le, hlast.trans (hends phdr hp)⟩
  have hheapSize : HEAP_SIZE.toNat = 0x40000000 := by decide
  have htlsSize : (MAX_THREAD_AMOUNT * PAGE_SIZE).toNat = 0x20000 := by decide
  have hstackBegin : (STACK_TOP - STACK_SIZE).toNat = 0xbfbf0000 := by decide
  have hstackTop : STACK_TOP.toNat = 0xbfff0000 := by decide
  have htls : (align_up m PAGE_SIZE + HEAP_SIZE).toNat = m.toNat + 0x40000000 := by
    have hfits : (align_up m PAGE_SIZE).toNat + HEAP_SIZE.toNat < 2 ^ 32 := by omega
    rw [BitVec.toNat_add_of_lt hfits, hheap, hheapSize]
  have hranges : (layout fd entry (phdrs.flatMap Elf32_Phdr.pieces) m).ranges =
      (phdrs.flatMap Elf32_Phdr.pieces).map ElfSegment.range ++
        [(m.toNat, m.toNat + 0x40000000), (m.toNat + 0x40000000, m.toNat + 0x40000000 + 0x20000),
          ((align_up m PAGE_SIZE + HEAP_SIZE + MAX_THREAD_AMOUNT * PAGE_SIZE).toNat,
            (align_up m PAGE_SIZE + HEAP_SIZE + MAX_THREAD_AMOUNT * PAGE_SIZE).toNat +
              (STACK_TOP - STACK_SIZE - (align_up m PAGE_SIZE + HEAP_SIZE + MAX_THREAD_AMOUNT * PAGE_SIZE)).toNat),
          (0xbfbf0000, 0xbfff0000)] := by
    rw [ELFConfig.ranges]
    simp only [layout]
    rw [hheap, htls, hheapSize, htlsSize, hstackBegin, hstackTop]
  constructor
  · intro hspace
    rw [← pieces_apart_iff hvalid]
    have hall := hspace.apart
    have hmem : (m.toNat, m.toNat + 0x40000000) ∈ (layout fd entry (phdrs.flatMap Elf32_Phdr.pieces) m).ranges := by
      rw [hranges]
      exact List.mem_append_right _ List.mem_cons_self
    have hin := (hspace.inside _ hmem).2.2
    dsimp only at hin
    rw [hranges] at hall
    refine ⟨(List.pairwise_append.mp hall).1, fun phdr hp => ?_⟩
    have hend := hends phdr hp
    have hend' : USER_VADDR_END.toNat = 0xbfffffff := by decide
    rw [hend'] at hin
    omega
  · rintro ⟨hapart, hfit⟩
    have hlt : m.toNat + 0x40020000 < 2 ^ 32 := by
      have hbound : staticEnd 0x08048000 phdrs ≤ 0xbffdffff := staticEnd_le_iff.mpr ⟨by norm_num, fun phdr hp => by
        have hlt := hfit phdr hp
        omega⟩
      omega
    have hbegin : (align_up m PAGE_SIZE + HEAP_SIZE + MAX_THREAD_AMOUNT * PAGE_SIZE).toNat = m.toNat + 0x40020000 := by
      have hfits : (align_up m PAGE_SIZE + HEAP_SIZE).toNat + (MAX_THREAD_AMOUNT * PAGE_SIZE).toNat < 2 ^ 32 := by omega
      have hsum := BitVec.toNat_add_of_lt hfits
      omega
    -- the layout test of `parseELF` now bounds the real end of the TLS range
    simp only [layout] at hmmap
    have hstack := BitVec.lt_def.mp hmmap
    rw [hbegin, hstackBegin] at hstack
    have hsize := BitVec.toNat_sub_of_le (BitVec.le_of_lt hmmap)
    rw [hbegin, hstackBegin] at hsize
    rw [hbegin, hsize] at hranges
    refine ⟨?_, fun r hr => ?_⟩
    · rw [hranges]
      refine List.pairwise_append.mpr ⟨(pieces_apart_iff hvalid).mpr hapart, ?_, fun r hr r' hr' => .inl ?_⟩
      · exact four_apart (by omega) (by omega) (by omega) (by omega)
      · have hfirst := (hsegs r hr).2
        simp only [List.mem_cons, List.not_mem_nil, or_false] at hr'
        rcases hr' with rfl | rfl | rfl | rfl <;> dsimp only <;> omega
    · rw [hranges] at hr
      have hend : USER_VADDR_END.toNat = 0xbfffffff := by decide
      rw [hend]
      rcases List.mem_append.mp hr with hr | hr
      · obtain ⟨hfirst, hlast⟩ := hsegs r hr
        omega
      · simp only [List.mem_cons, List.not_mem_nil, or_false] at hr
        rcases hr with rfl | rfl | rfl | rfl <;> dsimp only <;> omega

/-! ### Files -/

/-- A file with one program header, which loads one executable page at `vaddr` and begins there. -/
def onePageBytes (vaddr : List Byte) : List Byte :=
  [0x7f, 0x45, 0x4c, 0x46, 1, 1, 1, 0, 0, 0, 0, 0, 0, 0, 0, 0, 2, 0, 3, 0, 1, 0, 0, 0] ++ vaddr ++
    [52, 0, 0, 0, 0, 0, 0, 0, 0, 0, 0, 0, 52, 0, 32, 0, 1, 0, 0, 0, 0, 0, 0, 0] ++
    [1, 0, 0, 0, 84, 0, 0, 0] ++ vaddr ++ [0, 0, 0, 0, 0, 0, 0, 0, 0, 0x10, 0, 0, 5, 0, 0, 0, 0, 0x10, 0, 0]

/-- The reads of a file with these bytes. -/
def readerOf (bytes : List Byte) : Reader := fun offset size =>
  if offset.toNat + size ≤ bytes.length then some fun k => bytes.getD (offset.toNat + k) 0 else none

/-- The page at 0x08048000. -/
def lowFile : Reader := readerOf (onePageBytes [0x00, 0x80, 0x04, 0x08])

/-- The page at 0xbffee000. -/
def highFile : Reader := readerOf (onePageBytes [0x00, 0xe0, 0xfe, 0xbf])

theorem inUserSpace_iff_lowFile :
    InUserSpace (parseELF 3 lowFile) ↔
      ((loadHeaders lowFile).Pairwise fun phdr phdr' => Apart phdr.pages phdr'.pages) ∧
        ∀ phdr ∈ loadHeaders lowFile, phdr.pages.2 + 0x40020000 < 2 ^ 32 :=
  inUserSpace_iff (by decide +kernel)

/-- The TLS range behind the high page wraps around, and the file is accepted. -/
theorem not_inUserSpace : ¬ ∀ fd read, (parseELF fd read).entry ≠ 0 → InUserSpace (parseELF fd read) := by
  intro h
  have hin := (h 3 highFile (by decide +kernel)).inside
  have hheap : (0xbffef000, 0xbffef000 + 0x40000000) ∈ (parseELF 3 highFile).ranges := by decide +kernel
  exact absurd (hin _ hheap).2.2 (by decide)

end SysuOs.Elf
