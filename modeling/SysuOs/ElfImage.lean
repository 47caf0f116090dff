import SysuOs.ElfSpaces
import SysuOs.PagingInherit

/-! The image of a file in memory: a loaded header has its bytes of the file where the format says, zeros
behind them, and no right to write that it does not ask for. -/

namespace SysuOs.Elf

open Kernel Flags

/-! ### Bytes of a frame -/

theorem extractLsb'_bytes (a b c d : Byte) :
    ((d ++ c) ++ (b ++ a) : Word).extractLsb' 0 8 = a ∧ ((d ++ c) ++ (b ++ a) : Word).extractLsb' 8 8 = b ∧
      ((d ++ c) ++ (b ++ a) : Word).extractLsb' 16 8 = c ∧ ((d ++ c) ++ (b ++ a) : Word).extractLsb' 24 8 = d := by
  refine ⟨?_, ?_, ?_, ?_⟩ <;>
  · apply BitVec.eq_of_getLsbD_eq
    intro i hi
    simp only [BitVec.getLsbD_extractLsb', BitVec.getLsbD_append, hi, decide_true, Bool.true_and]
    split_ifs <;> first | omega | (congr 1; omega)

/-- A frame that holds the words of a page holds its bytes. -/
theorem byteAt_of_words {s : Kernel} {f : Nat} {page : ByteMap}
    (h : ∀ k, k < 1024 → s.mem f k = wordAt page k) {off : Nat} (hoff : off < 4096) :
    byteAt s f off = page off := by
  have hsplit := Nat.div_add_mod off 4
  have hlt := Nat.mod_lt off (y := 4) (by decide)
  rw [byteAt, h _ (by omega), wordAt]
  generalize off / 4 = k at hsplit ⊢
  generalize off % 4 = r at hsplit hlt ⊢
  obtain ⟨h0, h1, h2, h3⟩ := extractLsb'_bytes (page (4 * k)) (page (4 * k + 1)) (page (4 * k + 2))
    (page (4 * k + 2 + 1))
  subst hsplit
  obtain rfl | rfl | rfl | rfl : r = 0 ∨ r = 1 ∨ r = 2 ∨ r = 3 := by omega
  · exact h0
  · exact h1
  · exact h2
  · exact h3

/-! ### Bytes of a segment -/

theorem toNat_min (a b : Word) : (min a b).toNat = if a.toNat < b.toNat then a.toNat else b.toNat := by
  rw [min, apply_ite BitVec.toNat]
  rfl

/-- Where the bytes of the file begin in page `n`. -/
def ElfSegment.copyBegin (seg : ElfSegment) (n : Nat) : Nat :=
  if n * 4096 < seg.file_vaddr.toNat then seg.file_vaddr.toNat else n * 4096

/-- Where they end. -/
def ElfSegment.copyEnd (seg : ElfSegment) (n : Nat) : Nat :=
  if (n + 1) * 4096 < seg.file_vaddr.toNat + seg.filesz.toNat then (n + 1) * 4096
  else seg.file_vaddr.toNat + seg.filesz.toNat

theorem ElfSegment.copyBegin_le (seg : ElfSegment) (n : Nat) :
    n * 4096 ≤ seg.copyBegin n ∧ seg.file_vaddr.toNat ≤ seg.copyBegin n ∧
      (seg.copyBegin n = n * 4096 ∨ seg.copyBegin n = seg.file_vaddr.toNat) := by
  rw [copyBegin]
  split <;> omega

theorem ElfSegment.copyEnd_le (seg : ElfSegment) (n : Nat) :
    seg.copyEnd n ≤ (n + 1) * 4096 ∧ seg.copyEnd n ≤ seg.file_vaddr.toNat + seg.filesz.toNat ∧
      (seg.copyEnd n = (n + 1) * 4096 ∨ seg.copyEnd n = seg.file_vaddr.toNat + seg.filesz.toNat) := by
  rw [copyEnd]
  split <;> omega

theorem loadSegmentPage_eq {read : Reader} {seg : ElfSegment} {n : Nat}
    (hfile : seg.file_vaddr.toNat + seg.filesz.toNat < 2 ^ 32) (hn : n < userPages) :
    loadSegmentPage read seg (BitVec.ofNat 32 (n * 4096)) =
      if seg.copyBegin n < seg.copyEnd n then
        (read (seg.offset + BitVec.ofNat 32 (seg.copyBegin n) - seg.file_vaddr) (seg.copyEnd n - seg.copyBegin n)).map
          fun bytes => memcpy (fun _ => 0) (seg.copyBegin n - n * 4096) bytes (seg.copyEnd n - seg.copyBegin n)
      else some fun _ => 0 := by
  rw [userPages] at hn
  have hpage : (BitVec.ofNat 32 (n * 4096)).toNat = n * 4096 := by
    rw [BitVec.toNat_ofNat, Nat.mod_eq_of_lt (by omega)]
  have hsize : PAGE_SIZE.toNat = 4096 := rfl
  have hpageEnd : (BitVec.ofNat 32 (n * 4096) + PAGE_SIZE).toNat = (n + 1) * 4096 := by
    rw [BitVec.toNat_add, hpage, hsize]
    omega
  have hfileEnd : (seg.file_vaddr + seg.filesz).toNat = seg.file_vaddr.toNat + seg.filesz.toNat :=
    BitVec.toNat_add_of_lt hfile
  have hbegin : (max (BitVec.ofNat 32 (n * 4096)) seg.file_vaddr).toNat = seg.copyBegin n := by
    rw [max, apply_ite BitVec.toNat, hpage, ElfSegment.copyBegin]
    simp only [BitVec.lt_def, hpage]
  have hend : (min (BitVec.ofNat 32 (n * 4096) + PAGE_SIZE) (seg.file_vaddr + seg.filesz)).toNat = seg.copyEnd n := by
    rw [toNat_min, hpageEnd, hfileEnd]
    rfl
  have hword : max (BitVec.ofNat 32 (n * 4096)) seg.file_vaddr = BitVec.ofNat 32 (seg.copyBegin n) := by
    rw [← hbegin, BitVec.ofNat_toNat, BitVec.setWidth_eq]
  have hle := (seg.copyBegin_le n).1
  simp only [loadSegmentPage]
  by_cases hlt : seg.copyBegin n < seg.copyEnd n
  · have hchunk := BitVec.toNat_sub_of_le (x := min (BitVec.ofNat 32 (n * 4096) + PAGE_SIZE) (seg.file_vaddr + seg.filesz))
      (y := max (BitVec.ofNat 32 (n * 4096)) seg.file_vaddr) (by rw [BitVec.le_def, hbegin, hend]; exact hlt.le)
    have hpos := BitVec.toNat_sub_of_le (x := max (BitVec.ofNat 32 (n * 4096)) seg.file_vaddr)
      (y := BitVec.ofNat 32 (n * 4096)) (by rw [BitVec.le_def, hbegin, hpage]; exact hle)
    rw [if_pos (by rw [BitVec.lt_def, hbegin, hend]; exact hlt), if_pos hlt, hchunk, hpos, hbegin, hend, hpage, hword]
  · rw [if_neg (by rw [BitVec.lt_def, hbegin, hend]; exact hlt), if_neg hlt]

/-- A file; its size is a `uint32`. -/
structure File where
  bytes : List Byte
  size : bytes.length < 2 ^ 32

def File.read (F : File) : Reader := readerOf F.bytes

/-- The bytes that a page of a segment takes from the file are in the file. -/
structure ElfSegment.ReadAt (seg : ElfSegment) (F : File) (n : Nat) (page : ByteMap) : Prop where
  inFile : seg.copyBegin n < seg.copyEnd n →
    seg.offset.toNat + (seg.copyEnd n - seg.file_vaddr.toNat) ≤ F.bytes.length
  bytes : ∀ off, off < 4096 → page off =
    if seg.file_vaddr.toNat ≤ n * 4096 + off ∧ n * 4096 + off < seg.file_vaddr.toNat + seg.filesz.toNat then
      F.bytes.getD (seg.offset.toNat + (n * 4096 + off - seg.file_vaddr.toNat)) 0
    else 0

/-- One page, if the offset of its bytes does not wrap around. -/
theorem readAt_of_offset {F : File} {seg : ElfSegment} {n : Nat} {page : ByteMap}
    (hfile : seg.file_vaddr.toNat + seg.filesz.toNat < 2 ^ 32) (hn : n < userPages)
    (hload : loadSegmentPage F.read seg (BitVec.ofNat 32 (n * 4096)) = some page)
    (hoffset : seg.copyBegin n < seg.copyEnd n →
      seg.offset.toNat + (seg.copyBegin n - seg.file_vaddr.toNat) < 2 ^ 32) : seg.ReadAt F n page := by
  obtain ⟨hpage, hle, hbegin⟩ := seg.copyBegin_le n
  obtain ⟨hpageEnd, hfileEnd, hend⟩ := seg.copyEnd_le n
  rw [loadSegmentPage_eq hfile hn] at hload
  rw [userPages] at hn
  split at hload
  · rename_i hlt
    have hwrap := hoffset hlt
    have hpos : (seg.offset + BitVec.ofNat 32 (seg.copyBegin n) - seg.file_vaddr).toNat =
        seg.offset.toNat + (seg.copyBegin n - seg.file_vaddr.toNat) := by
      have hcopy : (BitVec.ofNat 32 (seg.copyBegin n)).toNat = seg.copyBegin n := by
        rw [BitVec.toNat_ofNat, Nat.mod_eq_of_lt (by omega)]
      rw [BitVec.toNat_sub, BitVec.toNat_add, hcopy]
      omega
    obtain ⟨bytes, hread, rfl⟩ := Option.map_eq_some_iff.mp hload
    rw [File.read, readerOf, hpos] at hread
    split at hread
    · rename_i hin
      rw [← Option.some.inj hread]
      refine ⟨fun _ => by omega, fun off hoff => ?_⟩
      by_cases hcopy : seg.copyBegin n ≤ n * 4096 + off ∧ n * 4096 + off < seg.copyEnd n
      · have hinside : seg.file_vaddr.toNat ≤ n * 4096 + off ∧
            n * 4096 + off < seg.file_vaddr.toNat + seg.filesz.toNat := by
          omega
        rw [memcpy_in (by omega) (by omega), if_pos hinside]
        congr 1
        omega
      · rw [memcpy_out (by omega), if_neg (by omega)]
    · cases hread
  · rename_i hlt
    rw [← Option.some.inj hload]
    refine ⟨fun h => absurd h hlt, fun off hoff => ?_⟩
    rw [if_neg (by omega)]

/-- The pages of a segment from the first one with bytes of the file. The first offset is that of the
segment, and each further one is where the reads of the page before ended, inside the file. -/
theorem readAt_of_loaded {F : File} {seg : ElfSegment} {first last : Nat}
    (hfile : seg.file_vaddr.toNat + seg.filesz.toNat < 2 ^ 32) (hlast : last ≤ userPages)
    (hfirst : first = seg.file_vaddr.toNat / 4096) {page : Nat → ByteMap}
    (hload : ∀ n, first ≤ n → n < last →
      loadSegmentPage F.read seg (BitVec.ofNat 32 (n * 4096)) = some (page n)) :
    ∀ n, first ≤ n → n < last → seg.ReadAt F n (page n) := by
  intro n hn
  induction n, hn using Nat.le_induction with
  | base =>
      intro hlt
      refine readAt_of_offset hfile (by omega) (hload first le_rfl hlt) fun _ => ?_
      have hbegin : seg.copyBegin first = seg.file_vaddr.toNat := by
        rw [ElfSegment.copyBegin]
        split <;> omega
      rw [hbegin, Nat.sub_self]
      exact seg.offset.isLt
  | succ n hn ih =>
      intro hlt
      have hprev := ih (by omega)
      refine readAt_of_offset hfile (by omega) (hload (n + 1) (by omega) hlt) fun hcopy => ?_
      have hbegin : seg.copyBegin (n + 1) = (n + 1) * 4096 := by
        rw [ElfSegment.copyBegin]
        split <;> omega
      have hbelow : seg.copyBegin n < (n + 1) * 4096 := by
        rw [ElfSegment.copyBegin]
        split <;> omega
      have hfileEnd : (n + 1) * 4096 < seg.file_vaddr.toNat + seg.filesz.toNat := by
        rw [hbegin] at hcopy
        exact hcopy.trans_le (seg.copyEnd_le (n + 1)).2.1
      have hend : seg.copyEnd n = (n + 1) * 4096 := if_pos hfileEnd
      have hin := hprev.inFile (by rw [hend]; exact hbelow)
      have hsize := F.size
      rw [hend] at hin
      rw [hbegin]
      omega

/-! ### The pieces of a header -/

namespace Elf32_Phdr.Valid

variable {phdr : Elf32_Phdr}

theorem dataEnd_whole (h : phdr.Valid) : phdr.dataEnd.toNat % 4096 = 0 := by
  rw [h.dataEnd]
  split
  · exact Nat.mul_mod_left _ _
  · exact Nat.mul_mod_left _ _

theorem dataEnd_ge (h : phdr.Valid) (hfile : phdr.p_filesz ≠ 0) :
    phdr.p_vaddr.toNat + phdr.p_filesz.toNat ≤ phdr.dataEnd.toNat := by
  rw [h.dataEnd, if_pos hfile]
  exact le_pageUp _

/-- A piece has all bytes of the file, from the first page of the header on, or none of them. -/
theorem mem_pieces (h : phdr.Valid) {seg : ElfSegment} (hseg : seg ∈ phdr.pieces) :
    seg.Whole ∧
      ((seg.file_vaddr = phdr.p_vaddr ∧ seg.filesz = phdr.p_filesz ∧ seg.offset = phdr.p_offset ∧
          seg.flags = segmentFlags phdr ∧ seg.range.1 = phdr.pages.1) ∨
        (phdr.p_flags &&& PF_X = 0 ∧ seg.filesz = 0 ∧ seg.range.1 = phdr.dataEnd.toNat)) := by
  have hfirst : (align_down phdr.p_vaddr PAGE_SIZE).toNat = phdr.pages.1 := toNat_align_down _
  have hfirst' : phdr.pages.1 % 4096 = 0 := Nat.mul_mod_left _ _
  have hlast' : phdr.pages.2 % 4096 = 0 := Nat.mul_mod_left _ _
  have hdata := h.dataEnd_whole
  have hlast := h.last
  have hle := h.pages_le
  have hlt := h.pages_lt
  obtain ⟨hlow, hhigh⟩ := h.dataEnd_le
  have hend : ∀ x y : Word, x.toNat ≤ y.toNat → x.toNat + (y - x).toNat = y.toNat := by
    intro x y hxy
    rw [BitVec.toNat_sub_of_le hxy]
    omega
  have hwhole : ∀ seg : ElfSegment, seg.range.1 = phdr.pages.1 ∨ seg.range.1 = phdr.dataEnd.toNat →
      seg.range.2 = phdr.pages.2 ∨ seg.range.2 = phdr.dataEnd.toNat → seg.Whole := by
    intro seg hone htwo
    exact ⟨by omega, by omega, by omega⟩
  rw [Elf32_Phdr.pieces] at hseg
  split at hseg
  · obtain rfl := List.mem_singleton.mp hseg
    refine ⟨hwhole _ (Or.inl hfirst) (Or.inl ?_), Or.inl ⟨rfl, rfl, rfl, rfl, hfirst⟩⟩
    rw [← hlast]
    exact hend _ _ (by rw [hfirst, hlast]; exact hlt.le)
  · rename_i hexec
    rcases List.mem_append.mp hseg with hseg | hseg
    · split at hseg
      · obtain rfl := List.mem_singleton.mp hseg
        refine ⟨hwhole _ (Or.inl hfirst) (Or.inr ?_), Or.inl ⟨rfl, rfl, rfl, rfl, hfirst⟩⟩
        exact hend _ _ (by rw [hfirst]; exact hlow)
      · cases hseg
    · split at hseg
      · obtain rfl := List.mem_singleton.mp hseg
        refine ⟨hwhole _ (Or.inr rfl) (Or.inl ?_), Or.inr ⟨not_not.mp hexec, rfl, rfl⟩⟩
        rw [← hlast]
        exact hend _ _ (by rw [hlast]; exact hhigh)
      · cases hseg

end Elf32_Phdr.Valid

/-- What the format says is at an address of a loaded header. -/
def Elf32_Phdr.byteOf (phdr : Elf32_Phdr) (F : File) (v : Nat) : Byte :=
  if v - phdr.p_vaddr.toNat < phdr.p_filesz.toNat then
    F.bytes.getD (phdr.p_offset.toNat + (v - phdr.p_vaddr.toNat)) 0
  else 0

/-- The byte at an address of an address space. -/
def userByte (s : Kernel) (dir v : Nat) : Option Byte :=
  if present (s.pageEntry dir (v / 4096)) then some (byteAt s (frameOf (s.pageEntry dir (v / 4096))) (v % 4096))
  else none

theorem Mapped.userByte {s : Kernel} {dir v : Nat} {page : ByteMap} {flags : Byte}
    (h : Mapped s dir (v / 4096) page flags) : userByte s dir v = some (page (v % 4096)) := by
  rw [Elf.userByte, if_pos h.entry, byteAt_of_words h.bytes (Nat.mod_lt _ (by decide))]

/-- An address in the pages of a segment that takes the bytes of the file. -/
theorem userByte_file {F : File} {s : Kernel} {dir v : Nat} {phdr : Elf32_Phdr} (hv : phdr.Valid) {seg : ElfSegment}
    (hvaddr : seg.file_vaddr = phdr.p_vaddr) (hsize : seg.filesz = phdr.p_filesz)
    (hoffset : seg.offset = phdr.p_offset) (hfirst : seg.range.1 = phdr.pages.1) (hwhole : seg.Whole)
    (hloaded : ∀ n, seg.pagesIn n → Loaded F.read s dir seg n) (hle : phdr.p_vaddr.toNat ≤ v)
    (hlt : v < seg.range.2) : userByte s dir v = some (phdr.byteOf F v) := by
  obtain ⟨hwholeFirst, hwholeLast, hwholeLe⟩ := hwhole
  have hpages : phdr.pages.1 = phdr.p_vaddr.toNat / 4096 * 4096 := rfl
  have hpagesIn : ∀ n, phdr.p_vaddr.toNat / 4096 ≤ n → n < seg.range.2 / 4096 → seg.pagesIn n := by
    intro n hn hn'
    exact ⟨by omega, by omega⟩
  choose! page hload hmapped using hloaded
  have hlast : seg.range.2 / 4096 ≤ userPages := by
    rw [userPages]
    omega
  have hfile : seg.file_vaddr.toNat + seg.filesz.toNat < 2 ^ 32 := by
    have hbound := hv.lt
    have hfilesz := hv.filesz
    rw [hvaddr, hsize]
    omega
  have hread := readAt_of_loaded hfile hlast rfl (fun n hn hn' => by
    rw [hvaddr] at hn
    exact hload n (hpagesIn n hn hn')) (v / 4096) (by rw [hvaddr]; omega) (by omega)
  have hsplit : v / 4096 * 4096 + v % 4096 = v := Nat.div_add_mod' v 4096
  rw [(hmapped _ (hpagesIn _ (by omega) (by omega))).userByte, hread.bytes _ (Nat.mod_lt _ (by decide)), hsplit,
    hvaddr, hsize, hoffset, Elf32_Phdr.byteOf]
  congr 1
  by_cases hin : v - phdr.p_vaddr.toNat < phdr.p_filesz.toNat
  · rw [if_pos hin, if_pos ⟨hle, by omega⟩]
  · rw [if_neg hin, if_neg (by omega)]

/-- An address in the pages of a segment that takes nothing of the file. -/
theorem userByte_zero {F : File} {s : Kernel} {dir v : Nat} {phdr : Elf32_Phdr} (hv : phdr.Valid) {seg : ElfSegment}
    (hsize : seg.filesz = 0) (hfirst : seg.range.1 = phdr.dataEnd.toNat) (hwhole : seg.Whole)
    (hloaded : ∀ n, seg.pagesIn n → Loaded F.read s dir seg n) (hle : seg.range.1 ≤ v)
    (hlt : v < seg.range.2) : userByte s dir v = some (phdr.byteOf F v) := by
  obtain ⟨hwholeFirst, hwholeLast, hwholeLe⟩ := hwhole
  obtain ⟨page, hload, hmapped⟩ := hloaded (v / 4096) ⟨by omega, by omega⟩
  have hn : v / 4096 < userPages := by
    rw [userPages]
    omega
  have hzero : seg.filesz.toNat = 0 := by
    rw [hsize]
    rfl
  have hfile : seg.file_vaddr.toNat + seg.filesz.toNat < 2 ^ 32 := by
    rw [hzero, Nat.add_zero]
    exact seg.file_vaddr.isLt
  have hnone : ¬ seg.copyBegin (v / 4096) < seg.copyEnd (v / 4096) := by
    have hbegin := (seg.copyBegin_le (v / 4096)).2.1
    have hend := (seg.copyEnd_le (v / 4096)).2.1
    omega
  rw [loadSegmentPage_eq hfile hn, if_neg hnone] at hload
  have hbehind : ¬ v - phdr.p_vaddr.toNat < phdr.p_filesz.toNat := by
    by_cases hfilesz : phdr.p_filesz = 0
    · rw [hfilesz]
      exact Nat.not_lt_zero _
    · have hge := hv.dataEnd_ge hfilesz
      omega
  rw [hmapped.userByte, ← Option.some.inj hload, Elf32_Phdr.byteOf, if_neg hbehind]

/-! ### The image -/

/-- The kernel and a process for which a file is loaded: the address spaces are in order, the process has
its page directory, and the frames of the user pool are whole pages. -/
structure CanLoad (s : Kernel) (process : PCB) : Prop where
  spaces : ∃ g, Spaces s g ∧ g.dirs process.pid = some process.pageDirectory
  pool : AlignedPool s

/-- Every address of the header has its byte, and a page of an executable header is writable only if the
header says so. -/
structure HasImage (s : Kernel) (dir : Nat) (F : File) (phdr : Elf32_Phdr) : Prop where
  bytes : ∀ v, phdr.p_vaddr.toNat ≤ v → v < phdr.p_vaddr.toNat + phdr.p_memsz.toNat →
    userByte s dir v = some (phdr.byteOf F v)
  rights : phdr.p_flags &&& PF_X ≠ 0 → ∀ n, phdr.pages.1 ≤ n * 4096 → n * 4096 < phdr.pages.2 →
    writable (s.pageEntry dir n) = true → phdr.p_flags &&& PF_W ≠ 0

theorem segmentFlags_writable {phdr : Elf32_Phdr} (h : hasFlag (segmentFlags phdr) VP_RW = true) :
    phdr.p_flags &&& PF_W ≠ 0 := by
  intro hread
  rw [segmentFlags, if_neg (not_not.mpr hread)] at h
  revert h
  decide

/-- A header whose pieces are loaded has its image in memory. -/
theorem hasImage_of_loaded {F : File} {s : Kernel} {dir : Nat} {phdr : Elf32_Phdr} (hv : phdr.Valid)
    (hloaded : ∀ seg ∈ phdr.pieces, ∀ n, seg.pagesIn n → Loaded F.read s dir seg n) : HasImage s dir F phdr := by
  have hfills := hv.fills
  refine ⟨?_, ?_⟩
  · intro v hle hlt
    have hlast : v < phdr.pages.2 := hlt.trans_le (le_pageUp _)
    obtain ⟨seg, hseg, hfirst, hend⟩ := hfills.exists_mem ((pageDown_le _).trans hle) hlast
    obtain ⟨hwhole, hpiece⟩ := hv.mem_pieces hseg
    rcases hpiece with ⟨hvaddr, hsize, hoffset, -, hstart⟩ | ⟨-, hsize, hstart⟩
    · exact userByte_file hv hvaddr hsize hoffset hstart hwhole (hloaded seg hseg) hle hend
    · exact userByte_zero hv hsize hstart hwhole (hloaded seg hseg) hfirst hend
  · intro hexec n hle hlt hwritable
    obtain ⟨seg, hseg, hin⟩ := hfills.exists_mem hle hlt
    obtain ⟨-, hpiece⟩ := hv.mem_pieces hseg
    obtain ⟨page, -, hmapped⟩ := hloaded seg hseg n hin
    have hrw := hmapped.rights hwritable
    rcases hpiece with ⟨-, -, -, hflags, -⟩ | ⟨hdata, -⟩
    · rw [hflags] at hrw
      exact segmentFlags_writable hrw
    · exact absurd hdata hexec

theorem segments_eq {read : Reader} {fd : Int} (haccepted : (parseELF fd read).entry ≠ 0) :
    (parseELF fd read).segments = (loadHeaders read).flatMap Elf32_Phdr.pieces := by
  obtain ⟨-, entry, m, -, hlayout, -⟩ := parseELF_accepted haccepted
  rw [hlayout]
  rfl

/-- The segments of an accepted file are whole pages. -/
theorem segments_whole {read : Reader} {fd : Int} (haccepted : (parseELF fd read).entry ≠ 0) :
    ∀ seg ∈ (parseELF fd read).segments, seg.Whole := by
  intro seg hseg
  rw [segments_eq haccepted] at hseg
  obtain ⟨phdr, hphdr, hseg⟩ := List.mem_flatMap.mp hseg
  exact (((parseELF_accepted haccepted).1 phdr hphdr).mem_pieces hseg).1

/-- If a file is accepted and loaded, each of its headers has its image in the new address space. -/
theorem createUserVirtualPool_image {F : File} {fd : Int} {s s' : Kernel} {process : PCB} {ready : Bool}
    (h : CanLoad s process) (haccepted : (parseELF fd F.read).entry ≠ 0)
    (hcall : createUserVirtualPool F.read s process (parseELF fd F.read) ready = .ret (true, s')) :
    ∀ phdr ∈ loadHeaders F.read, HasImage s' process.pageDirectory F phdr := by
  obtain ⟨⟨g, hspaces, hdir⟩, hpool⟩ := h
  have hvalid := (parseELF_accepted haccepted).1
  have hwhole := segments_whole haccepted
  rw [segments_eq haccepted] at hwhole
  rw [createUserVirtualPool, segments_eq haccepted] at hcall
  split at hcall
  · cases hcall
  · obtain ⟨⟨ok, s₁⟩, hload, hcall⟩ := Outcome.bind_eq_ret hcall
    cases ok with
    | false =>
        obtain ⟨_, _, hcall⟩ := Outcome.bind_eq_ret hcall
        cases hcall
    | true =>
        obtain rfl : s₁ = s' := (Prod.mk.inj (Outcome.ret.inj hcall)).2
        obtain ⟨-, -, hloaded⟩ := loadSegments_spec hspaces hdir hpool hwhole hload
        intro phdr hphdr
        apply hasImage_of_loaded (hvalid phdr hphdr)
        intro seg hseg
        exact hloaded seg (List.mem_flatMap.mpr ⟨phdr, hphdr, hseg⟩)

/-! ### A file in memory -/

/-- A file with one program header, whose one executable page begins with the file. -/
def textFile : File where
  bytes := [0x7f, 0x45, 0x4c, 0x46, 1, 1, 1, 0, 0, 0, 0, 0, 0, 0, 0, 0, 2, 0, 3, 0, 1, 0, 0, 0, 0x00, 0x80, 0x04, 0x08,
    52, 0, 0, 0, 0, 0, 0, 0, 0, 0, 0, 0, 52, 0, 32, 0, 1, 0, 0, 0, 0, 0, 0, 0,
    1, 0, 0, 0, 0, 0, 0, 0, 0x00, 0x80, 0x04, 0x08, 0, 0, 0, 0, 84, 0, 0, 0, 0, 0x10, 0, 0, 5, 0, 0, 0, 0, 0x10, 0, 0]
  size := by decide

theorem oneEntry_canLoad : CanLoad (oneEntry 0#32) onePage :=
  ⟨⟨oneGhost 0#32, oneEntry_spaces (by decide), rfl⟩, rfl⟩

theorem oneEntry_loads :
    ∃ s', createUserVirtualPool textFile.read (oneEntry 0#32) onePage (parseELF 3 textFile.read) true =
      .ret (true, s') := by
  have hok : (createUserVirtualPool textFile.read (oneEntry 0#32) onePage (parseELF 3 textFile.read) true >>=
      fun r => Outcome.ret r.1) = .ret true := by
    rfl
  obtain ⟨⟨ok, s'⟩, hcall, hok⟩ := Outcome.bind_eq_ret hok
  obtain rfl : ok = true := Outcome.ret.inj hok
  exact ⟨s', hcall⟩

theorem createUserVirtualPool_image_text :
    ∃ s', createUserVirtualPool textFile.read (oneEntry 0#32) onePage (parseELF 3 textFile.read) true =
        .ret (true, s') ∧ loadHeaders textFile.read ≠ [] ∧
      ∀ phdr ∈ loadHeaders textFile.read, HasImage s' onePage.pageDirectory textFile phdr := by
  obtain ⟨s', hcall⟩ := oneEntry_loads
  exact ⟨s', hcall, by decide +kernel, createUserVirtualPool_image oneEntry_canLoad (by decide +kernel) hcall⟩

end SysuOs.Elf
