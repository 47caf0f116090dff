import Mathlib
import SysuOs.MallocLists

/-! Well-formed heaps. The blocks tile the words from the prologue to the epilogue; a list of blocks, with the
address where it starts, says where each of them lies. -/

namespace SysuOs

namespace Malloc

structure Block where
  size : Nat
  alloc : Bool
  deriving DecidableEq, Repr

/-- The bytes of some blocks in a row. -/
def total (bs : List Block) : Nat := (bs.map Block.size).sum

@[simp] theorem total_nil : total [] = 0 := rfl
@[simp] theorem total_cons (b : Block) (bs : List Block) : total (b :: bs) = b.size + total bs := rfl

@[simp] theorem total_append (l r : List Block) : total (l ++ r) = total l + total r := by
  simp [total]

/-- The payloads of blocks that follow each other from `p` on. -/
def placed : Nat → List Block → List (Nat × Block)
  | _, [] => []
  | p, b :: bs => (p, b) :: placed (p + b.size) bs

@[simp] theorem placed_nil (p : Nat) : placed p [] = [] := rfl

@[simp] theorem placed_cons (p : Nat) (b : Block) (bs : List Block) :
    placed p (b :: bs) = (p, b) :: placed (p + b.size) bs := rfl

@[simp] theorem placed_append (p : Nat) (l r : List Block) :
    placed p (l ++ r) = placed p l ++ placed (p + total l) r := by
  induction l generalizing p with
  | nil => simp
  | cons b l ih => simp [ih, Nat.add_assoc]

/-- The state of the block before a position, `prevAlloc` being that of the block before the first one. -/
def lastAlloc : Bool → List Block → Bool
  | prevAlloc, [] => prevAlloc
  | _, b :: bs => lastAlloc b.alloc bs

@[simp] theorem lastAlloc_append (prevAlloc : Bool) (l r : List Block) :
    lastAlloc prevAlloc (l ++ r) = lastAlloc (lastAlloc prevAlloc l) r := by
  induction l generalizing prevAlloc with
  | nil => rfl
  | cons b l ih => exact ih b.alloc

/-- The sizes of blocks: a block has room for a header, two links and a footer. -/
structure Sizes (bs : List Block) : Prop where
  aligned : ∀ b ∈ bs, b.size % 8 = 0
  minimum : ∀ b ∈ bs, MININUM_BLK_SIZE ≤ b.size

/-- The tags of the blocks from `p` on: headers, the footers of free blocks, and no two free blocks side by
side. -/
def Tags (m : Memory) : Nat → Bool → List Block → Prop
  | _, _, [] => True
  | p, prevAlloc, b :: bs =>
      m (HDRP p) = PACK b.size b.alloc prevAlloc ∧
        (b.alloc = false → prevAlloc = true ∧ m (p + b.size - DSIZE) = PACK b.size b.alloc prevAlloc) ∧
        Tags m (p + b.size) b.alloc bs

/-- The header of the epilogue. -/
def Epilogue (m : Memory) (p : Nat) (prevAlloc : Bool) : Prop := m (HDRP p) = PACK 0 true prevAlloc

/-- `G` lists the free blocks, each in the group of its size. -/
def Exact (base : Nat) (bs : List Block) (G : Nat → List Nat) : Prop :=
  ∀ i < MAX_GROUP, ∀ p, p ∈ G i ↔ ∃ b, (p, b) ∈ placed base bs ∧ b.alloc = false ∧ group b.size = i

/-- The payload of the first block, given by the table: a word of padding, the prologue and a header lie between
them. -/
def firstBlock (tableBase : Nat) : Nat := cell tableBase MAX_GROUP + 2 * DSIZE

/-- Where a heap lies: after its table, in user space. -/
structure Arena (tableBase : Nat) (bs : List Block) : Prop where
  table : 0 < tableBase
  aligned : tableBase % 8 = 0
  sizes : Sizes bs
  fits : firstBlock tableBase + total bs < 2 ^ 32

/-- The payloads of a heap's blocks. -/
def payloads (tableBase : Nat) (bs : List Block) : Set Nat := {p | ∃ b, (p, b) ∈ placed (firstBlock tableBase) bs}

/-- A block in use, with its payload at `p`. -/
def Live (tableBase : Nat) (bs : List Block) (p : Nat) (b : Block) : Prop :=
  (p, b) ∈ placed (firstBlock tableBase) bs ∧ b.alloc = true

/-- The payload of the block `b` at `p`: its words up to the next header. -/
def SamePayload (m m' : Memory) (p : Nat) (b : Block) : Prop := ∀ a, p ≤ a → a < HDRP (p + b.size) → m' a = m a

/-- The segregated lists hold the free blocks, each once and in the group of its size. -/
def Listed (m : Memory) (tableBase : Nat) (bs : List Block) : Prop :=
  ∃ G, Lists m tableBase (payloads tableBase bs) G ∧ Exact (firstBlock tableBase) bs G

/-- A well-formed heap of the blocks `bs`. -/
structure WellFormed (m : Memory) (tableBase : Nat) (bs : List Block) : Prop where
  arena : Arena tableBase bs
  prologueHeader : m (cell tableBase MAX_GROUP + WSIZE * 1) = PACK DSIZE true true
  prologueFooter : m (cell tableBase MAX_GROUP + WSIZE * 2) = PACK DSIZE true true
  tags : Tags m (firstBlock tableBase) true bs
  epilogue : Epilogue m (firstBlock tableBase + total bs) (lastAlloc true bs)
  lists : Listed m tableBase bs

/-! ### Where blocks lie -/

section
variable {bs l r : List Block} {p : Nat}

theorem Sizes.append (hl : Sizes l) (hr : Sizes r) : Sizes (l ++ r) where
  aligned b hb := (List.mem_append.mp hb).elim (hl.aligned b) (hr.aligned b)
  minimum b hb := (List.mem_append.mp hb).elim (hl.minimum b) (hr.minimum b)

theorem Sizes.left (h : Sizes (l ++ r)) : Sizes l where
  aligned b hb := h.aligned b (List.mem_append_left r hb)
  minimum b hb := h.minimum b (List.mem_append_left r hb)

theorem Sizes.right (h : Sizes (l ++ r)) : Sizes r where
  aligned b hb := h.aligned b (List.mem_append_right l hb)
  minimum b hb := h.minimum b (List.mem_append_right l hb)

theorem Sizes.tail {b : Block} (h : Sizes (b :: bs)) : Sizes bs where
  aligned c hc := h.aligned c (List.mem_cons_of_mem b hc)
  minimum c hc := h.minimum c (List.mem_cons_of_mem b hc)

theorem Sizes.head {b : Block} (h : Sizes (b :: bs)) : b.size % 8 = 0 ∧ 24 ≤ b.size :=
  ⟨h.aligned b List.mem_cons_self, h.minimum b List.mem_cons_self⟩

theorem Sizes.cons {b : Block} (hb : b.size % 8 = 0 ∧ 24 ≤ b.size) (h : Sizes bs) : Sizes (b :: bs) where
  aligned c hc := (List.mem_cons.mp hc).elim (fun he => he ▸ hb.1) (h.aligned c)
  minimum c hc := (List.mem_cons.mp hc).elim (fun he => he ▸ hb.2) (h.minimum c)

/-- A block lies between the ends of the blocks it is one of, and has the sizes of a block. -/
theorem placed_bounds (hs : Sizes bs) {q : Nat} {b : Block} (h : (q, b) ∈ placed p bs) :
    p ≤ q ∧ q + b.size ≤ p + total bs ∧ b.size % 8 = 0 ∧ 24 ≤ b.size ∧ q % 8 = p % 8 := by
  induction bs generalizing p with
  | nil => simp at h
  | cons c bs ih =>
      obtain ⟨haligned, hmin⟩ := hs.head
      rw [placed_cons, List.mem_cons] at h
      rw [total_cons]
      rcases h with he | h
      · obtain ⟨rfl, rfl⟩ := Prod.mk.inj he
        exact ⟨Nat.le_refl _, by omega, haligned, hmin, rfl⟩
      · obtain ⟨hle, hend, hb, hb', hmod⟩ := ih hs.tail h
        exact ⟨by omega, by omega, hb, hb', by omega⟩

/-- Two blocks are the same or apart. -/
theorem placed_apart (hs : Sizes bs) {q q' : Nat} {b b' : Block} (h : (q, b) ∈ placed p bs)
    (h' : (q', b') ∈ placed p bs) : q = q' ∧ b = b' ∨ q + b.size ≤ q' ∨ q' + b'.size ≤ q := by
  induction bs generalizing p with
  | nil => simp at h
  | cons c bs ih =>
      rw [placed_cons, List.mem_cons] at h h'
      rcases h with he | h <;> rcases h' with he' | h'
      · obtain ⟨rfl, rfl⟩ := Prod.mk.inj he
        obtain ⟨rfl, rfl⟩ := Prod.mk.inj he'
        exact Or.inl ⟨rfl, rfl⟩
      · obtain ⟨rfl, rfl⟩ := Prod.mk.inj he
        exact Or.inr (Or.inl (placed_bounds hs.tail h').1)
      · obtain ⟨rfl, rfl⟩ := Prod.mk.inj he'
        exact Or.inr (Or.inr (placed_bounds hs.tail h).1)
      · exact ih hs.tail h h'

end

theorem Arena.spaced {tableBase : Nat} {bs : List Block} (h : Arena tableBase bs) :
    Spaced tableBase (payloads tableBase bs) where
  table := h.table
  above p hp := by
    obtain ⟨b, hb⟩ := hp
    have hle := (placed_bounds h.sizes hb).1
    simp only [firstBlock] at hle
    omega
  lt p hp := by
    obtain ⟨b, hb⟩ := hp
    have hbounds := placed_bounds h.sizes hb
    have hfits := h.fits
    omega
  apart p hp q hq := by
    obtain ⟨b, hb⟩ := hp
    obtain ⟨c, hc⟩ := hq
    have hb' := placed_bounds h.sizes hb
    have hc' := placed_bounds h.sizes hc
    rw [DSIZE]
    rcases placed_apart h.sizes hb hc with ⟨rfl, -⟩ | h | h <;> omega

/-! ### Words that tags are in -/

/-- The words of the tags of the blocks from `p` on, the header after the last of them apart. -/
def TagWord (p : Nat) (bs : List Block) (a : Nat) : Prop :=
  ∃ q b, (q, b) ∈ placed p bs ∧ (a = HDRP q ∨ b.alloc = false ∧ a = q + b.size - DSIZE)

theorem Tags.congr {m m' : Memory} {p : Nat} {prevAlloc : Bool} {bs : List Block} (h : Tags m p prevAlloc bs)
    (heq : ∀ a, TagWord p bs a → m' a = m a) : Tags m' p prevAlloc bs := by
  induction bs generalizing p prevAlloc with
  | nil => trivial
  | cons b bs ih =>
      obtain ⟨hheader, hfree, htail⟩ := h
      have hself : (p, b) ∈ placed p (b :: bs) := List.mem_cons_self
      refine ⟨?_, fun hb => ⟨(hfree hb).1, ?_⟩, ih htail fun a ha => heq a ?_⟩
      · rw [heq _ ⟨p, b, hself, Or.inl rfl⟩, hheader]
      · rw [heq _ ⟨p, b, hself, Or.inr ⟨hb, rfl⟩⟩, (hfree hb).2]
      · obtain ⟨q, c, hmem, hcase⟩ := ha
        exact ⟨q, c, List.mem_cons_of_mem _ hmem, hcase⟩

theorem Tags.append {m : Memory} {p : Nat} {prevAlloc : Bool} {l r : List Block} :
    Tags m p prevAlloc (l ++ r) ↔ Tags m p prevAlloc l ∧ Tags m (p + total l) (lastAlloc prevAlloc l) r := by
  induction l generalizing p prevAlloc with
  | nil => simp [Tags, lastAlloc]
  | cons b l ih =>
      rw [List.cons_append, Tags, ih, Tags, total_cons, ← Nat.add_assoc, lastAlloc]
      simp only [and_assoc]

end Malloc

end SysuOs
