import SysuOs.ElfLoad
import SysuOs.PagePool

/-! What a process finds in a page that is new to it. Page tables and everything else of the kernel
is left out: an address space is the frames behind its pages. The frames are those of the pool for
user pages, the pages of the kernel image, which `execve` shares with a process that runs one of its
functions, and what `out_of_memory` takes from the kernel's own pool. -/

namespace SysuOs.UserMemory

abbrev Page := Fin 1024 → Word

/-- The entry of a page that is present. -/
structure Mapping where
  frame : Nat
  writable : Bool
  cow : Bool
  deriving DecidableEq

/-- Everything but the contents of memory: the pool of user frames, the references of a frame, the reverse
mappings of a frame by pid and page, and the address spaces. -/
structure Layout (P : Type) where
  /-- the frames below are those of the kernel image -/
  imageEnd : Nat
  resources : P
  ref : Nat → Nat
  chain : Nat → List (Nat × Nat)
  /-- the number of free `RMapEntry`s -/
  entries : Nat
  space : Nat → Nat → Option Mapping

/-- The frame `findVictim` chose, by the accessed and dirty bits, and the page it was mapped at if
that is a page of a process. -/
structure Victim where
  frame : Nat
  owner : Option (Nat × Nat)

variable {P : Type}

namespace Layout

def map (l : Layout P) (pid page : Nat) (e : Option Mapping) : Layout P :=
  { l with space := Function.update l.space pid (Function.update (l.space pid) page e) }

/-- `attach`, which fails if there is no free `RMapEntry`. -/
def attach (l : Layout P) (frame pid page : Nat) : Layout P :=
  match l.entries with
  | 0 => l
  | n + 1 =>
      { l with
        ref := Function.update l.ref frame (l.ref frame + 1)
        chain := Function.update l.chain frame ((pid, page) :: l.chain frame)
        entries := n }

/-- `detach`, which fails if the entry has no reverse mapping. -/
def detach (l : Layout P) (frame pid page : Nat) : Layout P :=
  if (pid, page) ∈ l.chain frame then
    { l with
      ref := Function.update l.ref frame (l.ref frame - 1)
      chain := Function.update l.chain frame ((l.chain frame).erase (pid, page))
      entries := l.entries + 1 }
  else l

/-- `PageInfo::clear`. -/
def clearInfo (l : Layout P) (frame : Nat) : Layout P :=
  { l with
    ref := Function.update l.ref frame 0
    chain := Function.update l.chain frame [] }

/-- `allocatePhysicalPages(USER, 1)`. -/
def allocatePhysicalPages [PagePool P] (l : Layout P) : Option (Nat × Layout P) :=
  match PagePool.allocate l.resources with
  | none => none
  | some (frame, resources) => some (frame, { l with resources }.clearInfo frame)

/-- `releasePhysicalPages(USER, frame, 1)`. -/
def releasePhysicalPages [PagePool P] (l : Layout P) (frame : Nat) : Layout P :=
  { l with resources := PagePool.release l.resources frame }

/-- `out_of_memory`: the entry of the victim is cleared. -/
def outOfMemory (l : Layout P) (victim : Option Victim) : Option (Nat × Layout P) :=
  victim.map fun v =>
    let l := v.owner.elim l fun (pid, page) => l.map pid page none
    (v.frame, l.clearInfo v.frame)

def obtainPage [PagePool P] (l : Layout P) (victim : Option Victim) : Option (Nat × Layout P) :=
  match l.allocatePhysicalPages with
  | some obtained => some obtained
  | none => l.outOfMemory victim

/-- `setCOW` of every entry of a frame. -/
def setCOW (l : Layout P) (frame : Nat) : Layout P :=
  { l with space := fun pid page => (l.space pid page).map fun e =>
      if e.frame = frame then { e with writable := false, cow := true } else e }

/-- `setupCOWPages` for one page; it does not look at what `attach` returns. -/
def setupCOWPage (l : Layout P) (pid page frame : Nat) : Layout P :=
  ((l.setCOW frame).map pid page (some ⟨frame, false, true⟩)).attach frame pid page

end Layout

structure Memory (P : Type) extends Layout P where
  mem : Nat → Page

/-- The words the kernel stores in a page, in order. -/
def overwrite (words : List (Fin 1024 × Word)) (page : Page) : Page :=
  words.foldl (fun page w => Function.update page w.1 w.2) page

namespace Memory

/-! A failed `ASSERT` stops the machine, and the state stays as it is. -/

/-- `createUserVirtualPool` for one page of a segment: the buffer of `load_segment_page` is copied
into a frame, and `map_process_page`. -/
def loadPage [PagePool P] (s : Memory P) (read : Elf.Reader) (seg : Elf.ElfSegment) (pid : Nat) (vaddr : Word)
    (writable : Bool) : Memory P :=
  match s.allocatePhysicalPages with
  | none => s
  | some (frame, l) =>
      match Elf.loadSegmentPage read seg vaddr with
      | none => { s with toLayout := l.releasePhysicalPages frame }
      | some buffer =>
          let page := vaddr.toNat / 4096
          let mem := Function.update s.mem frame fun i => Elf.wordAt buffer i
          -- `map_process_page` refuses a page in use, and takes the entry back if `attach` fails
          if (s.space pid page).isSome ∨ l.entries = 0 then
            { toLayout := l.releasePhysicalPages frame, mem }
          else
            { toLayout := (l.map pid page (some ⟨frame, writable, false⟩)).attach frame pid page
              mem }

/-- `allocatePages(USER, 1, ...)` for a page that `allocateVirtualPages` has reserved, and the words
the kernel stores in it before the process runs: the arguments of `execve`, the return address of
`load_process`. -/
def allocatePages [PagePool P] (s : Memory P) (pid page : Nat) (words : List (Fin 1024 × Word)) : Memory P :=
  if (s.space pid page).isSome then s
  else
    match s.allocatePhysicalPages with
    | none => s
    | some (frame, l) =>
        -- the `ASSERT` on `attach`
        if l.entries = 0 then s
        else
          { toLayout := (l.map pid page (some ⟨frame, true, false⟩)).attach frame pid page
            mem := Function.update s.mem frame (overwrite words (s.mem frame)) }

/-- A demand-zero fault on a page that is not present. -/
def demandZero [PagePool P] (s : Memory P) (pid page : Nat) (victim : Option Victim) : Memory P :=
  if (s.space pid page).isSome then s
  else
    match s.obtainPage victim with
    | none => s
    | some (frame, l) =>
        if l.entries = 0 then s
        else
          { toLayout := (l.map pid page (some ⟨frame, true, false⟩)).attach frame pid page
            mem := Function.update s.mem frame fun _ => 0#32 }

/-- A copy-on-write fault. -/
def copyOnWrite [PagePool P] (s : Memory P) (pid page : Nat) (victim : Option Victim) : Memory P :=
  match s.space pid page with
  | none => s
  | some e =>
      if e.cow = false ∨ s.ref e.frame = 0 then s
      else if s.ref e.frame = 1 then
        { s with toLayout := s.toLayout.map pid page (some ⟨e.frame, true, false⟩) }
      else
        match s.obtainPage victim with
        | none => s
        | some (frame, l) =>
            let l := (l.map pid page (some ⟨frame, true, false⟩)).detach e.frame pid page
            { toLayout := l.attach frame pid page
              mem := Function.update s.mem frame (s.mem e.frame) }

/-- `copyProcess` for one page of the parent; the new page directory is empty. -/
def sharePage (s : Memory P) (parent child page : Nat) : Memory P :=
  if (s.space child page).isSome then s
  else
    match s.space parent page with
    | none => s
    | some e => { s with toLayout := s.toLayout.setupCOWPage child page e.frame }

/-- `execve` of a function of the kernel: a page of the kernel image is shared. -/
def shareFunction (s : Memory P) (pid page frame : Nat) : Memory P :=
  if (s.space pid page).isSome then s
  else if frame < s.imageEnd then
    { s with toLayout := s.toLayout.setupCOWPage pid page frame }
  else s

/-- `rollbackCOWSetup` for one page: the entry is not cleared. -/
def rollbackPage (s : Memory P) (child page : Nat) : Memory P :=
  match s.space child page with
  | none => s
  | some e => { s with toLayout := s.toLayout.detach e.frame child page }

/-- A word is stored in a page of a process, by the process or for it. -/
def store (s : Memory P) (pid page : Nat) (i : Fin 1024) (w : Word) : Memory P :=
  match s.space pid page with
  | none => s
  | some e =>
      if e.writable then
        { s with mem := Function.update s.mem e.frame (Function.update (s.mem e.frame) i w) }
      else s

/-- `releasePages` for one page. -/
def releasePage [PagePool P] (s : Memory P) (pid page : Nat) : Memory P :=
  match s.space pid page with
  | none => s
  | some e =>
      -- the `ASSERT` on `detach`
      if (pid, page) ∈ s.chain e.frame then
        let l := (s.toLayout.map pid page none).detach e.frame pid page
        { s with toLayout := if l.ref e.frame = 0 then l.releasePhysicalPages e.frame else l }
      else s

end Memory

inductive Call where
  | loadPage (read : Elf.Reader) (seg : Elf.ElfSegment) (pid : Nat) (vaddr : Word) (writable : Bool)
  | allocatePages (pid page : Nat) (words : List (Fin 1024 × Word))
  | demandZero (pid page : Nat) (victim : Option Victim)
  | copyOnWrite (pid page : Nat) (victim : Option Victim)
  | sharePage (parent child page : Nat)
  | shareFunction (pid page frame : Nat)
  | rollbackPage (child page : Nat)
  | store (pid page : Nat) (i : Fin 1024) (w : Word)
  | releasePage (pid page : Nat)
  /-- the kernel maps or unmaps pages of its own, which takes or returns entries -/
  | kernelPages (entries : Nat)

def Call.step [PagePool P] (s : Memory P) : Call → Memory P
  | loadPage read seg pid vaddr writable => s.loadPage read seg pid vaddr writable
  | allocatePages pid page words => s.allocatePages pid page words
  | demandZero pid page victim => s.demandZero pid page victim
  | copyOnWrite pid page victim => s.copyOnWrite pid page victim
  | sharePage parent child page => s.sharePage parent child page
  | shareFunction pid page frame => s.shareFunction pid page frame
  | rollbackPage child page => s.rollbackPage child page
  | store pid page i w => s.store pid page i w
  | releasePage pid page => s.releasePage pid page
  | kernelPages entries => { s with entries }

/-- A frame whose contents some process has in its memory, or will have by `shareFunction`. -/
def Layout.Visible (l : Layout P) (frame : Nat) : Prop :=
  frame < l.imageEnd ∨ ∃ pid page e, l.space pid page = some e ∧ e.frame = frame

/-- The states differ only in the contents of frames that no process has. -/
structure Same (s t : Memory P) : Prop where
  layout : s.toLayout = t.toLayout
  mem : ∀ frame, s.Visible frame → s.mem frame = t.mem frame

/-- The memory of the processes is the same in both runs, from beginning to end. -/
def Identical [PagePool P] : List Call → Memory P → Memory P → Prop
  | [], s, t => Same s t
  | c :: calls, s, t => Same s t ∧ Identical calls (c.step s) (c.step t)

/-- A frame that `allocatePages` is to get holds the same words in both states, but for those that
the kernel overwrites. -/
def Call.Agrees [PagePool P] (s t : Memory P) : Call → Prop
  | allocatePages pid page words => ∀ frame l, s.space pid page = none →
      s.allocatePhysicalPages = some (frame, l) → l.entries ≠ 0 →
        ∀ i, i ∉ words.map Prod.fst → s.mem frame i = t.mem frame i
  | _ => True

def NoLeftover [PagePool P] : List Call → Memory P → Memory P → Prop
  | [], _, _ => True
  | c :: calls, s, t => c.Agrees s t ∧ NoLeftover calls (c.step s) (c.step t)

/-! ### What a call adds to the memory of processes -/

namespace Layout

variable {l l' : Layout P} {pid page frame f : Nat}

theorem Visible.congr (h : l'.Visible f) (hspace : l'.space = l.space)
    (himage : l'.imageEnd = l.imageEnd) : l.Visible f := by
  unfold Visible at *
  rwa [← hspace, ← himage]

theorem map_space (e : Option Mapping) (q n : Nat) :
    (l.map pid page e).space q n = if q = pid ∧ n = page then e else l.space q n := by
  change Function.update l.space pid (Function.update (l.space pid) page e) q n = _
  by_cases hq : q = pid
  · subst hq
    rw [Function.update_self, Function.update_apply]
    simp
  · rw [Function.update_of_ne hq, if_neg (fun h => hq h.1)]

theorem Visible.of_map {e : Option Mapping} (h : (l.map pid page e).Visible f) :
    (∃ e', e = some e' ∧ e'.frame = f) ∨ l.Visible f := by
  cases h with
  | inl himage => exact Or.inr (Or.inl himage)
  | inr hmapped =>
      obtain ⟨q, n, e', he, hframe⟩ := hmapped
      rw [map_space] at he
      split at he
      · exact Or.inl ⟨e', he, hframe⟩
      · exact Or.inr (Or.inr ⟨q, n, e', he, hframe⟩)

theorem Visible.of_unmap (h : (l.map pid page none).Visible f) : l.Visible f := by
  cases h.of_map with
  | inl hnew =>
      obtain ⟨e', he, -⟩ := hnew
      cases he
  | inr hold => exact hold

theorem visible_map (e : Mapping) : (l.map pid page (some e)).Visible e.frame := by
  refine Or.inr ⟨pid, page, e, ?_, rfl⟩
  rw [map_space, if_pos ⟨rfl, rfl⟩]

@[simp] theorem attach_space : (l.attach frame pid page).space = l.space := by
  unfold attach
  split <;> rfl

@[simp] theorem attach_imageEnd : (l.attach frame pid page).imageEnd = l.imageEnd := by
  unfold attach
  split <;> rfl

@[simp] theorem detach_space : (l.detach frame pid page).space = l.space := by
  unfold detach
  split <;> rfl

@[simp] theorem detach_imageEnd : (l.detach frame pid page).imageEnd = l.imageEnd := by
  unfold detach
  split <;> rfl

theorem Visible.of_attach (h : (l.attach frame pid page).Visible f) : l.Visible f :=
  h.congr attach_space attach_imageEnd

theorem Visible.attach (h : l.Visible f) : (l.attach frame pid page).Visible f :=
  h.congr attach_space.symm attach_imageEnd.symm

theorem Visible.of_detach (h : (l.detach frame pid page).Visible f) : l.Visible f :=
  h.congr detach_space detach_imageEnd

/-- A page that is mapped at a frame makes that frame visible, and no other. -/
theorem Visible.of_mapped {writable cow : Bool}
    (h : (l.map pid page (some ⟨frame, writable, cow⟩)).Visible f) : f = frame ∨ l.Visible f := by
  cases h.of_map with
  | inl hnew =>
      obtain ⟨e', he, hframe⟩ := hnew
      cases he
      exact Or.inl hframe.symm
  | inr hold => exact Or.inr hold

theorem Visible.of_setCOW (h : (l.setCOW frame).Visible f) : l.Visible f := by
  cases h with
  | inl himage => exact Or.inl himage
  | inr hmapped =>
      obtain ⟨q, n, e', he, hframe⟩ := hmapped
      obtain ⟨e, hold, rfl⟩ := Option.map_eq_some_iff.mp he
      refine Or.inr ⟨q, n, e, hold, ?_⟩
      split at hframe <;> exact hframe

theorem Visible.of_setupCOWPage (h : (l.setupCOWPage pid page frame).Visible f)
    (hframe : l.Visible frame) : l.Visible f := by
  cases h.of_attach.of_mapped with
  | inl hnew =>
      rw [hnew]
      exact hframe
  | inr hold => exact hold.of_setCOW

theorem allocatePhysicalPages_space [PagePool P] (h : l.allocatePhysicalPages = some (frame, l')) :
    l'.space = l.space ∧ l'.imageEnd = l.imageEnd := by
  unfold allocatePhysicalPages at h
  split at h
  · cases h
  · cases h
    exact ⟨rfl, rfl⟩

theorem Visible.of_allocate [PagePool P] (h : l'.Visible f)
    (ha : l.allocatePhysicalPages = some (frame, l')) : l.Visible f :=
  h.congr (allocatePhysicalPages_space ha).1 (allocatePhysicalPages_space ha).2

/-- `out_of_memory` takes a page from a process at most. -/
theorem Visible.of_obtain [PagePool P] {victim : Option Victim} (h : l'.Visible f)
    (ho : l.obtainPage victim = some (frame, l')) : l.Visible f := by
  unfold obtainPage at ho
  cases ha : l.allocatePhysicalPages with
  | some obtained =>
      rw [ha] at ho
      cases ho
      exact h.of_allocate ha
  | none =>
      rw [ha] at ho
      obtain ⟨⟨frame', owner⟩, -, hv⟩ := Option.map_eq_some_iff.mp ho
      cases hv
      cases owner with
      | none => exact h.congr rfl rfl
      | some at_ =>
          have hunmapped : (l.map at_.1 at_.2 none).Visible f := h.congr rfl rfl
          exact hunmapped.of_unmap

end Layout

/-! ### Two runs -/

section Steps

variable {l l' : Layout P} {m m' : Nat → Page} {frame pid page : Nat} {victim : Option Victim}

/-- The same contents for the frame that becomes visible. -/
theorem Same.fill (h : Same ⟨l, m⟩ ⟨l, m'⟩) {p p' : Page}
    (hl : ∀ f, l'.Visible f → f = frame ∨ l.Visible f) (hp : p = p') :
    Same ⟨l', Function.update m frame p⟩ ⟨l', Function.update m' frame p'⟩ := by
  refine ⟨rfl, fun f hf => ?_⟩
  change Function.update m frame p f = Function.update m' frame p' f
  by_cases hframe : f = frame
  · rw [hframe, Function.update_self, Function.update_self, hp]
  · rw [Function.update_of_ne hframe, Function.update_of_ne hframe]
    exact h.mem f ((hl f hf).resolve_left hframe)

theorem Same.relayout (h : Same ⟨l, m⟩ ⟨l, m'⟩) (hl : ∀ f, l'.Visible f → l.Visible f) :
    Same ⟨l', m⟩ ⟨l', m'⟩ :=
  ⟨rfl, fun f hf => h.mem f (hl f hf)⟩

theorem Same.mapped (h : Same ⟨l, m⟩ ⟨l, m'⟩) {e : Mapping} (he : l.space pid page = some e) :
    m e.frame = m' e.frame :=
  h.mem e.frame (Or.inr ⟨pid, page, e, he, rfl⟩)

/-- `load_segment_page` copies a whole page, of which the file and zeros make every byte. -/
theorem Same.loadPage [PagePool P] {read : Elf.Reader} {seg : Elf.ElfSegment} {vaddr : Word} {writable : Bool}
    (h : Same ⟨l, m⟩ ⟨l, m'⟩) :
    Same (Memory.loadPage ⟨l, m⟩ read seg pid vaddr writable)
      (Memory.loadPage ⟨l, m'⟩ read seg pid vaddr writable) := by
  unfold Memory.loadPage
  cases ha : l.allocatePhysicalPages with
  | none => exact h
  | some obtained =>
      obtain ⟨frame, l'⟩ := obtained
      have hallocated : ∀ f, l'.Visible f → l.Visible f := fun f hf => hf.of_allocate ha
      have hreleased : ∀ f, (l'.releasePhysicalPages frame).Visible f → l.Visible f :=
        fun f hf => hallocated f (hf.congr rfl rfl)
      cases hb : Elf.loadSegmentPage read seg vaddr with
      | none => exact h.relayout hreleased
      | some buffer =>
          dsimp only
          split
          · exact h.fill (fun f hf => Or.inr (hreleased f hf)) rfl
          · exact h.fill (fun f hf => hf.of_attach.of_mapped.imp_right (hallocated f)) rfl

theorem Same.demandZero [PagePool P] (h : Same ⟨l, m⟩ ⟨l, m'⟩) :
    Same (Memory.demandZero ⟨l, m⟩ pid page victim) (Memory.demandZero ⟨l, m'⟩ pid page victim) := by
  unfold Memory.demandZero
  dsimp only
  split
  · exact h
  · cases ho : l.obtainPage victim with
    | none => exact h
    | some obtained =>
        dsimp only
        split
        · exact h
        · apply h.fill _ rfl
          exact fun f hf => hf.of_attach.of_mapped.imp_right (fun hold => hold.of_obtain ho)

/-- The copy is of a page that the process has. -/
theorem Same.copyOnWrite [PagePool P] (h : Same ⟨l, m⟩ ⟨l, m'⟩) :
    Same (Memory.copyOnWrite ⟨l, m⟩ pid page victim)
      (Memory.copyOnWrite ⟨l, m'⟩ pid page victim) := by
  unfold Memory.copyOnWrite
  dsimp only
  cases he : l.space pid page with
  | none => exact h
  | some e =>
      dsimp only
      split
      · exact h
      · split
        · apply h.relayout
          intro f hf
          cases hf.of_map with
          | inl hnew =>
              obtain ⟨e', he', rfl⟩ := hnew
              cases he'
              exact Or.inr ⟨pid, page, e, he, rfl⟩
          | inr hold => exact hold
        · cases ho : l.obtainPage victim with
          | none => exact h
          | some obtained =>
              apply h.fill _ (h.mapped he)
              intro f hf
              exact hf.of_attach.of_detach.of_mapped.imp_right (fun hold => hold.of_obtain ho)

theorem Same.sharePage {parent child : Nat} (h : Same ⟨l, m⟩ ⟨l, m'⟩) :
    Same (Memory.sharePage ⟨l, m⟩ parent child page)
      (Memory.sharePage ⟨l, m'⟩ parent child page) := by
  unfold Memory.sharePage
  dsimp only
  split
  · exact h
  · cases he : l.space parent page with
    | none => exact h
    | some e =>
        apply h.relayout
        exact fun f hf => hf.of_setupCOWPage (Or.inr ⟨parent, page, e, he, rfl⟩)

theorem Same.shareFunction (h : Same ⟨l, m⟩ ⟨l, m'⟩) :
    Same (Memory.shareFunction ⟨l, m⟩ pid page frame)
      (Memory.shareFunction ⟨l, m'⟩ pid page frame) := by
  unfold Memory.shareFunction
  dsimp only
  split
  · exact h
  · split
    · rename_i himage
      exact h.relayout (fun f hf => hf.of_setupCOWPage (Or.inl himage))
    · exact h

theorem Same.rollbackPage {child : Nat} (h : Same ⟨l, m⟩ ⟨l, m'⟩) :
    Same (Memory.rollbackPage ⟨l, m⟩ child page) (Memory.rollbackPage ⟨l, m'⟩ child page) := by
  unfold Memory.rollbackPage
  dsimp only
  cases he : l.space child page with
  | none => exact h
  | some e => exact h.relayout (fun f hf => hf.of_detach)

theorem Same.store {i : Fin 1024} {w : Word} (h : Same ⟨l, m⟩ ⟨l, m'⟩) :
    Same (Memory.store ⟨l, m⟩ pid page i w) (Memory.store ⟨l, m'⟩ pid page i w) := by
  unfold Memory.store
  dsimp only
  cases he : l.space pid page with
  | none => exact h
  | some e =>
      dsimp only
      split
      · exact h.fill (fun f hf => Or.inr hf) (by rw [h.mapped he])
      · exact h

theorem Same.releasePage [PagePool P] (h : Same ⟨l, m⟩ ⟨l, m'⟩) :
    Same (Memory.releasePage ⟨l, m⟩ pid page) (Memory.releasePage ⟨l, m'⟩ pid page) := by
  unfold Memory.releasePage
  dsimp only
  cases he : l.space pid page with
  | none => exact h
  | some e =>
      dsimp only
      split
      · apply h.relayout
        intro f hf
        have hunmapped : ((l.map pid page none).detach e.frame pid page).Visible f := by
          split at hf
          · exact hf.congr rfl rfl
          · exact hf
        exact hunmapped.of_detach.of_unmap
      · exact h

theorem overwrite_of_not_mem {words : List (Fin 1024 × Word)} {i : Fin 1024}
    (hi : i ∉ words.map Prod.fst) (p : Page) : overwrite words p i = p i := by
  unfold overwrite
  induction words generalizing p with
  | nil => rfl
  | cons w words ih =>
      rw [List.map_cons, List.mem_cons, not_or] at hi
      rw [List.foldl_cons, ih hi.2, Function.update_of_ne hi.1]

theorem overwrite_congr {words : List (Fin 1024 × Word)} {p p' : Page} {i : Fin 1024}
    (h : i ∉ words.map Prod.fst → p i = p' i) : overwrite words p i = overwrite words p' i := by
  unfold overwrite
  induction words generalizing p p' with
  | nil => exact h (by simp)
  | cons w words ih =>
      rw [List.foldl_cons, List.foldl_cons]
      apply ih
      intro hi
      by_cases hw : i = w.1
      · rw [hw, Function.update_self, Function.update_self]
      · rw [Function.update_of_ne hw, Function.update_of_ne hw]
        apply h
        rw [List.map_cons, List.mem_cons, not_or]
        exact ⟨hw, hi⟩

/-- `allocatePages` leaves in the page what was in the frame. -/
theorem Same.allocatePages_iff [PagePool P] {words : List (Fin 1024 × Word)} (h : Same ⟨l, m⟩ ⟨l, m'⟩) :
    Same (Memory.allocatePages ⟨l, m⟩ pid page words) (Memory.allocatePages ⟨l, m'⟩ pid page words) ↔
      ∀ frame l', l.space pid page = none → l.allocatePhysicalPages = some (frame, l') →
        l'.entries ≠ 0 → ∀ i, i ∉ words.map Prod.fst → m frame i = m' frame i := by
  unfold Memory.allocatePages
  dsimp only
  cases hpage : l.space pid page with
  | some e =>
      refine ⟨fun _ frame l' hnone => ?_, fun _ => h⟩
      cases hnone
  | none =>
      cases ha : l.allocatePhysicalPages with
      | none =>
          refine ⟨fun _ frame l' _ h' => ?_, fun _ => h⟩
          cases h'
      | some obtained =>
          obtain ⟨frame, l'⟩ := obtained
          by_cases hentries : l'.entries = 0
          · simp only [hentries, if_true]
            refine ⟨fun _ frame' l'' _ heq hne => ?_, fun _ => h⟩
            cases heq
            exact absurd hentries hne
          · simp only [hentries, if_false]
            constructor
            · intro hsame frame' l'' _ heq _ i hi
              cases heq
              have hvisible : ((l'.map pid page (some ⟨frame, true, false⟩)).attach frame pid
                  page).Visible frame := (Layout.visible_map ⟨frame, true, false⟩).attach
              have hpage := congrFun (hsame.mem frame hvisible) i
              change Function.update m frame _ frame i = Function.update m' frame _ frame i at hpage
              rw [Function.update_self, Function.update_self, overwrite_of_not_mem hi,
                overwrite_of_not_mem hi] at hpage
              exact hpage
            · intro hagree
              apply h.fill
              · exact fun f hf => hf.of_attach.of_mapped.imp_right (fun hold => hold.of_allocate ha)
              · funext i
                exact overwrite_congr (hagree frame l' trivial rfl hentries i)

end Steps

theorem Same.step_iff [PagePool P] {s t : Memory P} (h : Same s t) (c : Call) :
    Same (c.step s) (c.step t) ↔ c.Agrees s t := by
  obtain ⟨l, m⟩ := s
  obtain ⟨l', m'⟩ := t
  cases h.layout
  cases c with
  | loadPage read seg pid vaddr writable => exact iff_of_true h.loadPage trivial
  | allocatePages pid page words => exact h.allocatePages_iff
  | demandZero pid page victim => exact iff_of_true h.demandZero trivial
  | copyOnWrite pid page victim => exact iff_of_true h.copyOnWrite trivial
  | sharePage parent child page => exact iff_of_true h.sharePage trivial
  | shareFunction pid page frame => exact iff_of_true h.shareFunction trivial
  | rollbackPage child page => exact iff_of_true h.rollbackPage trivial
  | store pid page i w => exact iff_of_true h.store trivial
  | releasePage pid page => exact iff_of_true h.releasePage trivial
  | kernelPages entries => exact iff_of_true (h.relayout (fun f hf => hf.congr rfl rfl)) trivial

/-- Two runs of the same calls, from states that differ only in frames no process has: the processes
have the same memory all along if and only if the frames that `allocatePages` gets hold the same
words where the kernel does not overwrite them. -/
theorem identical_iff_noLeftover [PagePool P] {s t : Memory P} (h : Same s t) (calls : List Call) :
    Identical calls s t ↔ NoLeftover calls s t := by
  induction calls generalizing s t with
  | nil => exact iff_of_true h trivial
  | cons c calls ih =>
      constructor
      · rintro ⟨-, hrest⟩
        have hstep : Same (c.step s) (c.step t) := by
          cases calls with
          | nil => exact hrest
          | cons c' calls => exact hrest.1
        exact ⟨(h.step_iff c).mp hstep, (ih hstep).mp hrest⟩
      · rintro ⟨hagree, hrest⟩
        have hstep : Same (c.step s) (c.step t) := (h.step_iff c).mpr hagree
        exact ⟨h, (ih hstep).mpr hrest⟩

/-- One free frame, number 4, behind an image of four frames, and `entries` free `RMapEntry`s. -/
def boot (entries : Nat) : Memory BuddyPool where
  imageEnd := 4
  resources := BuddyPool.boot 4 1 (by decide) (by decide)
  ref := fun frame => if frame < 4 then 1 else 0
  chain := fun _ => []
  entries := entries
  space := fun _ _ => none
  mem := fun _ _ => 0#32

/-- Process 1 has stored `w` in a page and exited. -/
def exited (w : Word) : Memory BuddyPool :=
  [Call.demandZero 1 7 none, .store 1 7 0 w, .releasePage 1 7].foldl Call.step (boot 8)

theorem exited_space (w : Word) (pid page : Nat) : (exited w).space pid page = none := by
  change (((boot 8).toLayout.map 1 7 (some ⟨4, true, false⟩)).map 1 7 none).space pid page = none
  rw [Layout.map_space, Layout.map_space]
  split <;> rfl

theorem exited_mem (w : Word) {frame : Nat} (h : frame ≠ 4) (i : Fin 1024) :
    (exited w).mem frame i = 0#32 := by
  change Function.update (Function.update (fun _ _ => 0#32) 4 _) 4 _ frame i = 0#32
  rw [Function.update_of_ne h, Function.update_of_ne h]

/-- Whatever a process stored is gone with it, but for the contents of its frame. -/
theorem same_exited (w w' : Word) : Same (exited w) (exited w') := by
  refine ⟨rfl, fun frame hframe => ?_⟩
  have hne : frame ≠ 4 := by
    cases hframe with
    | inl himage =>
        have himage : frame < 4 := himage
        omega
    | inr hmapped =>
        obtain ⟨pid, page, e, he, -⟩ := hmapped
        rw [exited_space] at he
        cases he
  funext i
  rw [exited_mem w hne, exited_mem w' hne]

/-- A fault gives the next process a page of zeros in either run. -/
theorem identical_iff_noLeftover_fault :
    Identical [.demandZero 2 7 none, .store 2 7 0 3#32] (exited 1#32) (exited 2#32) :=
  (identical_iff_noLeftover (same_exited 1#32 2#32) _).mpr ⟨trivial, trivial, trivial⟩

/-- The top page of the stack of the next process shows what the one before it has stored. -/
theorem not_identical_allocatePages :
    ¬∀ s t : Memory BuddyPool, Same s t → ∀ calls, Identical calls s t := by
  intro h
  have hsame := (h (exited 1#32) (exited 2#32) (same_exited 1#32 2#32) [.allocatePages 2 9 []]).2
  have hvisible : (Call.step (exited 1#32) (.allocatePages 2 9 [])).Visible 4 :=
    Or.inr ⟨2, 9, ⟨4, true, false⟩, rfl, rfl⟩
  have hword := congrFun (hsame.mem 4 hvisible) 0
  have hleft : (1#32 : Word) = 2#32 := hword
  exact absurd hleft (by decide)

end SysuOs.UserMemory
