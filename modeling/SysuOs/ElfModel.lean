import Mathlib
import SysuOs.PagingModel

/-! `parseELF`: the segments to load and the layout of the rest of user space, read from a file. Addresses
are words and wrap around. -/

namespace SysuOs.Elf

def USER_VADDR_START : Word := 0x08048000#32
def USER_VADDR_END : Word := 0xbfffffff#32
def STACK_TOP : Word := 0xbfff0000#32
def STACK_SIZE : Word := 0x400000#32
def STACK_PREALLOC_PAGE : Word := 1#32
def HEAP_SIZE : Word := 0x40000000#32
def ELF_SEGMENT_AMOUNT : Nat := 0x8
def MAX_THREAD_AMOUNT : Word := 32#32
def PAGE_SIZE : Word := 4096#32

def EI_CLASS : Nat := 4
def EI_DATA : Nat := 5
def ELFCLASS32 : Byte := 1#8
def ELFDATA2LSB : Byte := 1#8
def ET_EXEC : BitVec 16 := 2#16
def EM_386 : BitVec 16 := 3#16
def EV_CURRENT : Word := 1#32
def PT_LOAD : Word := 1#32
def PF_X : Word := 1#32
def PF_W : Word := 2#32

/-- What `fseek` to an offset and a `read` of so many bytes there give, nothing if the one fails or the
other returns fewer bytes. -/
def Reader := Word → Nat → Option ByteMap

def u16At (b : ByteMap) (pos : Nat) : BitVec 16 := b (pos + 1) ++ b pos

def u32At (b : ByteMap) (pos : Nat) : Word := u16At b (pos + 2) ++ u16At b pos

/-- The fields of the ELF header that are looked at. -/
structure Elf32_Ehdr where
  e_ident : Nat → Byte
  e_type : BitVec 16
  e_machine : BitVec 16
  e_version : Word
  e_entry : Word
  e_phoff : Word
  e_phentsize : BitVec 16
  e_phnum : BitVec 16

/-- The fields of a program header that are looked at. -/
structure Elf32_Phdr where
  p_type : Word
  p_offset : Word
  p_vaddr : Word
  p_filesz : Word
  p_memsz : Word
  p_flags : Word
  deriving DecidableEq

def sizeofEhdr : Nat := 52
def sizeofPhdr : Nat := 32

def Elf32_Ehdr.ofBytes (b : ByteMap) : Elf32_Ehdr where
  e_ident := b
  e_type := u16At b 16
  e_machine := u16At b 18
  e_version := u32At b 20
  e_entry := u32At b 24
  e_phoff := u32At b 28
  e_phentsize := u16At b 42
  e_phnum := u16At b 44

def Elf32_Phdr.ofBytes (b : ByteMap) : Elf32_Phdr where
  p_type := u32At b 0
  p_offset := u32At b 4
  p_vaddr := u32At b 8
  p_filesz := u32At b 16
  p_memsz := u32At b 20
  p_flags := u32At b 24

inductive UserSegment where
  | TEXT
  | DATA
  | BSS
  deriving DecidableEq, Repr

structure ElfSegment where
  userSegment : UserSegment
  vaddr : Word
  file_vaddr : Word
  memsz : Word
  filesz : Word
  offset : Word
  flags : Byte
  deriving DecidableEq, Repr

structure ELFConfig where
  entry : Word
  entry_in_kernel : Word
  source_fd : Int
  segments : List ElfSegment
  stack_top : Word
  stack_begin : Word
  stack_size : Word
  stack_pages : Word
  heap_begin : Word
  heap_size : Word
  tls_begin : Word
  tls_size : Word
  mmap_begin : Word
  mmap_size : Word

/-- The configuration after `memset`, without a file. -/
def ELFConfig.cleared : ELFConfig where
  entry := 0
  entry_in_kernel := 0
  source_fd := -1
  segments := []
  stack_top := 0
  stack_begin := 0
  stack_size := 0
  stack_pages := 0
  heap_begin := 0
  heap_size := 0
  tls_begin := 0
  tls_size := 0
  mmap_begin := 0
  mmap_size := 0

def align_down (value align : Word) : Word := value &&& ~~~(align - 1)

def align_up (value align : Word) : Word := (value + align - 1) &&& ~~~(align - 1)

def max (a b : Word) : Word := if a < b then b else a

/-- `add_elf_segment`. -/
def add_elf_segment (segments : List ElfSegment) (seg : ElfSegment) : Option (List ElfSegment) :=
  if seg.memsz = 0 then some segments
  else if ELF_SEGMENT_AMOUNT ≤ segments.length then none
  else some (segments ++ [seg])

/-- A loadable header that `parseELF` refuses. -/
def invalidSegment (phdr : Elf32_Phdr) : Bool :=
  decide (phdr.p_memsz < phdr.p_filesz ∨ phdr.p_vaddr < USER_VADDR_START ∨
    phdr.p_vaddr + phdr.p_memsz < phdr.p_vaddr ∨ STACK_TOP ≤ phdr.p_vaddr + phdr.p_memsz)

def segmentFlags (phdr : Elf32_Phdr) : Byte :=
  VP_USER ||| (if phdr.p_flags &&& PF_W ≠ 0 then VP_RW else 0)

/-- The segments of an executable header. -/
def parseText (phdr : Elf32_Phdr) (segments : List ElfSegment) (max_static_end : Word) :
    Option (List ElfSegment × Word) := do
  let text_begin := align_down phdr.p_vaddr PAGE_SIZE
  let text_end := align_up (phdr.p_vaddr + phdr.p_memsz) PAGE_SIZE
  let segments ← add_elf_segment segments
    ⟨.TEXT, text_begin, phdr.p_vaddr, text_end - text_begin, phdr.p_filesz, phdr.p_offset, segmentFlags phdr⟩
  pure (segments, max max_static_end text_end)

/-- The segment for what other headers hold of the file. -/
def parseData (phdr : Elf32_Phdr) (segments : List ElfSegment) (max_static_end : Word) :
    Option (List ElfSegment × Word) := do
  let data_begin := align_down phdr.p_vaddr PAGE_SIZE
  let data_end := if phdr.p_filesz ≠ 0 then align_up (phdr.p_vaddr + phdr.p_filesz) PAGE_SIZE else data_begin
  if phdr.p_filesz ≠ 0 ∧ data_begin < data_end then do
    let segments ← add_elf_segment segments
      ⟨.DATA, data_begin, phdr.p_vaddr, data_end - data_begin, phdr.p_filesz, phdr.p_offset, segmentFlags phdr⟩
    pure (segments, max max_static_end data_end)
  else pure (segments, max_static_end)

/-- The segment for the pages after those, all zero. -/
def parseBss (phdr : Elf32_Phdr) (segments : List ElfSegment) (max_static_end : Word) :
    Option (List ElfSegment × Word) := do
  let data_begin := align_down phdr.p_vaddr PAGE_SIZE
  let bss_begin := if phdr.p_filesz ≠ 0 then align_up (phdr.p_vaddr + phdr.p_filesz) PAGE_SIZE else data_begin
  let bss_end := align_up (phdr.p_vaddr + phdr.p_memsz) PAGE_SIZE
  if bss_begin < bss_end then do
    let segments ← add_elf_segment segments
      ⟨.BSS, bss_begin, bss_begin, bss_end - bss_begin, 0, 0, VP_USER ||| VP_RW⟩
    pure (segments, max max_static_end bss_end)
  else pure (segments, max_static_end)

/-- One round of the loop of `parseELF`. -/
def parseHeader (phdr : Elf32_Phdr) (segments : List ElfSegment) (max_static_end : Word) :
    Option (List ElfSegment × Word) :=
  if phdr.p_type ≠ PT_LOAD then some (segments, max_static_end)
  else if phdr.p_memsz = 0 then some (segments, max_static_end)
  else if invalidSegment phdr then none
  else if phdr.p_flags &&& PF_X ≠ 0 then parseText phdr segments max_static_end
  else do
    let (segments, max_static_end) ← parseData phdr segments max_static_end
    parseBss phdr segments max_static_end

/-- The program header `i`. -/
def readHeader (read : Reader) (e_phoff : Word) (i : Nat) : Option Elf32_Phdr :=
  (read (e_phoff + BitVec.ofNat 32 (i * sizeofPhdr)) sizeofPhdr).map .ofBytes

/-- The loop of `parseELF` over `n` program headers from `i` on. -/
def parseLoop (read : Reader) (e_phoff : Word) : Nat → Nat → List ElfSegment → Word →
    Option (List ElfSegment × Word)
  | 0, _, segments, max_static_end => some (segments, max_static_end)
  | n + 1, i, segments, max_static_end => do
      let phdr ← readHeader read e_phoff i
      let (segments, max_static_end) ← parseHeader phdr segments max_static_end
      parseLoop read e_phoff n (i + 1) segments max_static_end

/-- Whether the file is an executable for this machine. -/
def validHeader (ehdr : Elf32_Ehdr) : Bool :=
  decide (ehdr.e_ident 0 = 0x7f#8 ∧ ehdr.e_ident 1 = 0x45#8 ∧ ehdr.e_ident 2 = 0x4c#8 ∧ ehdr.e_ident 3 = 0x46#8 ∧
    ehdr.e_ident EI_CLASS = ELFCLASS32 ∧ ehdr.e_ident EI_DATA = ELFDATA2LSB ∧ ehdr.e_type = ET_EXEC ∧
    ehdr.e_machine = EM_386 ∧ ehdr.e_version = EV_CURRENT ∧ ehdr.e_phentsize.toNat = sizeofPhdr ∧ ehdr.e_phnum ≠ 0)

/-- The layout behind the segments. -/
def layout (fd : Int) (entry : Word) (segments : List ElfSegment) (max_static_end : Word) : ELFConfig :=
  let stack_begin := STACK_TOP - STACK_SIZE
  let heap_begin := align_up max_static_end PAGE_SIZE
  let tls_begin := heap_begin + HEAP_SIZE
  let tls_size := MAX_THREAD_AMOUNT * PAGE_SIZE
  let mmap_begin := tls_begin + tls_size
  { entry, entry_in_kernel := 0, source_fd := fd, segments
    stack_top := STACK_TOP, stack_begin, stack_size := STACK_SIZE, stack_pages := STACK_PREALLOC_PAGE
    heap_begin, heap_size := HEAP_SIZE, tls_begin, tls_size
    mmap_begin, mmap_size := stack_begin - mmap_begin }

/-- `parseELF` of the file that `open` returned `fd` for. A file that is refused is closed and gives the
entry 0; nothing else is read of its configuration. -/
def parseELF (fd : Int) (read : Reader) : ELFConfig :=
  if fd < 0 then .cleared
  else match read 0 sizeofEhdr with
    | none => .cleared
    | some b =>
        let ehdr := Elf32_Ehdr.ofBytes b
        if !validHeader ehdr then .cleared
        else match parseLoop read ehdr.e_phoff ehdr.e_phnum.toNat 0 [] USER_VADDR_START with
          | none => .cleared
          | some (segments, max_static_end) =>
              if segments.length = 0 ∨ ehdr.e_entry < USER_VADDR_START ∨ max_static_end ≤ ehdr.e_entry then .cleared
              else
                let elfConf := layout fd ehdr.e_entry segments max_static_end
                if elfConf.stack_begin ≤ elfConf.mmap_begin ∨ elfConf.mmap_size % PAGE_SIZE ≠ 0 then .cleared
                else elfConf

end SysuOs.Elf
