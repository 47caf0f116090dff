import Mathlib
import SysuOs.BlockStore
import SysuOs.MallocRealloc

/-! Programs that use the allocator: calls of `mm_malloc`, `mm_realloc` and `mm_free` with the program's own
writes between them, in any order. The heap refines a store of disjoint blocks. -/

namespace SysuOs

namespace Malloc

open BlockStore

namespace Heap

/-- The heap that `mm_malloc` works on: the first call sets it up. -/
def setUp (s : Heap) : Heap := if s.brkBase = 0 then s.mmInit else s

/-- A call of the allocator with its answer, or a word that the program writes. Where the rest of a block is
split off, zeros are in the words of its links. -/
inductive Step : Heap → Op Word → Heap → Prop
  | malloc {s s' : Heap} {fuel size p : Nat} (hsize : 1 ≤ size ∧ size ≤ 2 ^ 30)
      (hfresh : FreshRest fuel s.setUp size) (hret : s.mmMalloc fuel size = .ret (some p, s')) :
      Step s (.alloc size p) s'
  | mallocNull {s s' : Heap} {fuel size : Nat} (hsize : size ≤ 2 ^ 30)
      (hret : s.mmMalloc fuel size = .ret (none, s')) : Step s .fail s'
  | free {s : Heap} {m : Memory} {p : Nat} (hret : mmFree s.mem s.tableBase p = .ret m) :
      Step s (.free p) { s with mem := m }
  | realloc {s s' : Heap} {fuel size p q : Nat} (hsize : 1 ≤ size ∧ size ≤ 2 ^ 30)
      (hfresh : ReallocFresh fuel s p size) (hret : s.mmRealloc fuel p size = .ret (some q, s')) :
      Step s (.move p size q) s'
  | reallocNull {s s' : Heap} {fuel size p : Nat} (hsize : 1 ≤ size ∧ size ≤ 2 ^ 30)
      (hfresh : ReallocFresh fuel s p size) (hret : s.mmRealloc fuel p size = .ret (none, s')) :
      Step s (.stay p) s'
  | write {s : Heap} (a : Nat) (w : Word) : Step s (.write a w) { s with mem := PUT s.mem a w }

/-- Calls and writes one after the other, with the store that the program takes the heap for. It gives back,
moves and writes to what it has been given only. -/
inductive Run (s : Heap) : List (Op Word) → Heap → Store Word → Prop
  | nil : Run s [] s Store.empty
  | snoc {ops : List (Op Word)} {op : Op Word} {s' s'' : Heap} {st : Store Word} (hrun : Run s ops s' st)
      (hop : st.Permitted WSIZE op) (hstep : Step s' op s'') : Run s (ops ++ [op]) s'' (st.apply WSIZE op)

/-- The blocks in use are those that the program has, each large enough, and they hold what the program
knows. -/
structure Refines (s : Heap) (st : Store Word) (bs : List Block) : Prop where
  ready : s.Ready bs
  owned : ∀ p, (∃ n, st.owned p = some n) ↔ ∃ b, Live s.tableBase bs p b
  room : ∀ p n b, st.owned p = some n → Live s.tableBase bs p b → newSize n ≤ b.size
  data : ∀ a w, st.data a = some w → s.mem a = w

variable {s s' : Heap} {st : Store Word} {bs : List Block} {p q n size a : Nat} {b : Block} {w : Word}

theorem length_le_newSize (n : Nat) : n + 2 * DSIZE ≤ newSize n := by
  simp only [newSize, ALIGN, DSIZE]
  omega

/-- Blocks with room for what they were asked for are apart as the program sees them. -/
theorem apart_of_live {tableBase m : Nat} {c : Block} (hs : Sizes bs) (hp : Live tableBase bs p b)
    (hq : Live tableBase bs q c) (hpq : p ≠ q) (hn : newSize n ≤ b.size) (hm : newSize m ≤ c.size) :
    p + n ≤ q ∨ q + m ≤ p := by
  have hle := length_le_newSize n
  have hle' := length_le_newSize m
  rcases placed_apart hs hp.1 hq.1 with ⟨he, -⟩ | hapart | hapart
  · exact absurd he hpq
  · left
    omega
  · right
    omega

/-- A cell of a block of the program is a word of the payload. -/
theorem Refines.cell (h : Refines s st bs) (hp : st.owned p = some n) (hcell : CellIn WSIZE p n a) :
    ∃ b, Live s.tableBase bs p b ∧ p ≤ a ∧ a < HDRP (p + b.size) := by
  obtain ⟨b, hb⟩ := (h.owned p).mp ⟨n, hp⟩
  have hroom := h.room p n b hp hb
  have hle := length_le_newSize n
  obtain ⟨hcell, hend⟩ := hcell
  refine ⟨b, hb, hcell, ?_⟩
  simp only [HDRP, WSIZE, DSIZE] at *
  omega

/-- What the program knows of a block is still there where the payload is the same. -/
theorem Refines.kept {m : Memory} (h : Refines s st bs) (hp : st.owned p = some n) (hcell : CellIn WSIZE p n a)
    (hdata : st.data a = some w) (hsame : ∀ b, Live s.tableBase bs p b → SamePayload s.mem m p b) :
    m a = w := by
  obtain ⟨b, hb, hle, hlt⟩ := h.cell hp hcell
  rw [hsame b hb a hle hlt]
  exact h.data a w hdata

theorem Refines.carries {bs' : List Block} (h : Refines s st bs) (hsound : st.Sound WSIZE)
    (hready : s'.Ready bs') (hcarries : Carries s s' bs bs') : Refines s' st bs' := by
  obtain ⟨htable, hlive, hsame⟩ := hcarries
  refine ⟨hready, fun p => ?_, fun p n b hp hb => ?_, fun a w hdata => ?_⟩
  · rw [h.owned p, htable]
    simp only [hlive]
  · rw [htable] at hb
    exact h.room p n b hp ((hlive p b).mp hb)
  · obtain ⟨-, p, n, hp, hcell⟩ := hsound.known a w hdata
    exact h.kept hp hcell hdata fun b hb => hsame p b hb

/-- A new block. -/
theorem Refines.gains {bs' : List Block} (h : Refines s st bs) (hsound : st.Sound WSIZE) (hready : s'.Ready bs')
    (hgains : Gains s s' bs bs' size p b) :
    Refines s' (st.apply WSIZE (.alloc size p)) bs' ∧ st.Granted WSIZE (.alloc size p) := by
  obtain ⟨htable, hroom, halloc, hlive, hsame⟩ := hgains
  have hp : Live s'.tableBase bs' p b := by
    rw [htable]
    exact (hlive p b).mpr (Or.inr ⟨rfl, rfl⟩)
  have hsizes := hready.wellFormed.arena.sizes
  have hfresh : ∀ q n, st.owned q = some n → q ≠ p := by
    intro q n hq
    obtain ⟨c, hc⟩ := (h.owned q).mp ⟨n, hq⟩
    exact (hsame q c hc).1
  refine ⟨⟨hready, fun q => ?_, fun q n c hq hc => ?_, fun a w hdata => ?_⟩, ?_, fun q n hq _ =>
    ⟨hfresh q n hq, ?_⟩⟩
  · rw [Store.alloc_owned]
    by_cases hqp : q = p
    · rw [if_pos hqp, hqp]
      exact ⟨fun _ => ⟨b, hp⟩, fun _ => ⟨size, rfl⟩⟩
    · rw [if_neg hqp, h.owned q, htable]
      simp only [hlive, hqp, false_and, or_false]
  · rw [Store.alloc_owned] at hq
    by_cases hqp : q = p
    · rw [if_pos hqp] at hq
      obtain rfl := Option.some.inj hq
      rw [hqp] at hc
      rwa [← hp.unique hsizes hc]
    · rw [if_neg hqp] at hq
      rw [htable] at hc
      exact h.room q n c hq (((hlive q c).mp hc).resolve_right fun he => hqp he.1)
  · have hdata' : st.data a = some w := hdata
    obtain ⟨-, q, n, hq, hcell⟩ := hsound.known a w hdata'
    exact h.kept hq hcell hdata' fun c hc => (hsame q c hc).2
  · have halign := hp.aligned hready.wellFormed.arena
    simp only [WSIZE]
    omega
  · obtain ⟨c, hc⟩ := (h.owned q).mp ⟨n, hq⟩
    have hroom' := h.room q n c hq hc
    have hc' : Live s'.tableBase bs' q c := by
      rw [htable]
      exact (hlive q c).mpr (Or.inl hc)
    exact apart_of_live hsizes hc' hp (hfresh q n hq) hroom' hroom

/-- A block that is given back. -/
theorem Refines.loses {bs' : List Block} (h : Refines s st bs) (hsound : st.Sound WSIZE) (hready : s'.Ready bs')
    (hloses : Loses s s' bs bs' p) : Refines s' (st.apply WSIZE (.free p)) bs' := by
  obtain ⟨htable, hlive, hsame⟩ := hloses
  refine ⟨hready, fun q => ?_, fun q n c hq hc => ?_, fun a w hdata => ?_⟩
  · rw [Store.free_owned, htable]
    by_cases hqp : q = p
    · simp [hqp, hlive]
    · rw [if_neg hqp, h.owned q]
      simp only [hlive, ne_eq, hqp, not_false_eq_true, and_true]
  · rw [htable, hlive] at hc
    rw [Store.free_owned, if_neg hc.2] at hq
    exact h.room q n c hq hc.1
  · obtain ⟨hdata', q, n, hqp, hq, hcell⟩ := hsound.known_free hdata
    exact h.kept hq hcell hdata' fun c hc => hsame q c hc hqp

/-- A block that has been given another length. -/
theorem Refines.moves {bs' : List Block} {b₀ : Block} (h : Refines s st bs) (hsound : st.Sound WSIZE)
    (hn : st.owned p = some n) (hready : s'.Ready bs') (hb₀ : Live s.tableBase bs p b₀)
    (hmoves : Moves s s' bs bs' p b₀ size q b) :
    Refines s' (st.apply WSIZE (.move p size q)) bs' ∧ st.Granted WSIZE (.move p size q) := by
  obtain ⟨htable, hroom, halloc, hlive, hsame, hcopied⟩ := hmoves
  have hq : Live s'.tableBase bs' q b := by
    rw [htable]
    exact (hlive q b).mpr (Or.inr ⟨rfl, rfl⟩)
  have hsizes := hready.wellFormed.arena.sizes
  have hfresh : ∀ a m, st.owned a = some m → a ≠ p → a ≠ q := by
    intro a m ha hap
    obtain ⟨c, hc⟩ := (h.owned a).mp ⟨m, ha⟩
    exact (hsame a c hc hap).1
  refine ⟨⟨hready, fun a => ?_, fun a m c ha hc => ?_, fun a w hdata => ?_⟩, ?_, fun a m ha hap =>
    ⟨hfresh a m ha hap, ?_⟩⟩
  · rw [Store.move_owned]
    by_cases haq : a = q
    · rw [if_pos haq, haq]
      exact ⟨fun _ => ⟨b, hq⟩, fun _ => ⟨size, rfl⟩⟩
    · rw [if_neg haq, htable]
      by_cases hap : a = p
      · simp [hap, hlive, hap ▸ haq]
      · rw [if_neg hap, h.owned a]
        simp only [hlive, haq, hap, ne_eq, not_false_eq_true, and_true, false_and, or_false]
  · rw [Store.move_owned] at ha
    by_cases haq : a = q
    · rw [if_pos haq] at ha
      obtain rfl := Option.some.inj ha
      rw [haq] at hc
      rwa [← hq.unique hsizes hc]
    · rw [if_neg haq] at ha
      rw [htable] at hc
      obtain ⟨hc, hap⟩ := ((hlive a c).mp hc).resolve_right fun he => haq he.1
      rw [if_neg hap] at ha
      exact h.room a m c ha hc
  · rcases hsound.known_move hn hdata with ⟨⟨hle, hend⟩, ⟨i, hi⟩, hdata'⟩ | ⟨hdata', c, m, hcp, hc, hcell⟩
    · obtain rfl : a = q + WSIZE * i := by omega
      have hroom' := h.room p n b₀ hn hb₀
      have hlength := length_le_newSize n
      rw [hcopied i (by simp only [WSIZE, DSIZE] at *; omega)]
      refine h.data _ w ?_
      rwa [Nat.add_sub_cancel_left] at hdata'
    · exact h.kept hc hcell hdata' fun b hb => (hsame c b hb hcp).2
  · have halign := hq.aligned hready.wellFormed.arena
    simp only [WSIZE]
    omega
  · obtain ⟨c, hc⟩ := (h.owned a).mp ⟨m, ha⟩
    have hroom' := h.room a m c ha hc
    have hc' : Live s'.tableBase bs' a c := by
      rw [htable]
      exact (hlive a c).mpr (Or.inl ⟨hc, hap⟩)
    exact apart_of_live hsizes hc' hq (hfresh a m ha hap) hroom' hroom

/-- A word that the program writes. -/
theorem Refines.written (h : Refines s st bs) (hop : st.Permitted WSIZE (.write a w)) :
    Refines { s with mem := PUT s.mem a w } (st.apply WSIZE (.write a w)) bs := by
  obtain ⟨-, p, n, hp, hcell⟩ := hop
  obtain ⟨b, hb, hle, hlt⟩ := h.cell hp hcell
  have hwell : WellFormed (PUT s.mem a w) s.tableBase bs := by
    refine h.ready.wellFormed.written hb fun a' hout => PUT_of_ne ?_
    rintro rfl
    exact hout ⟨hle, hlt⟩
  refine ⟨h.ready.withMem hwell rfl, h.owned, h.room, fun a' w' hdata => ?_⟩
  rw [Store.write_data] at hdata
  by_cases ha : a' = a
  · rw [if_pos ha] at hdata
    obtain rfl := Option.some.inj hdata
    rw [ha]
    exact PUT_self _ _ _
  · rw [if_neg ha] at hdata
    exact (PUT_of_ne ha).trans (h.data a' w' hdata)

theorem setUp_of_started (h : s.brkBase ≠ 0) : s.setUp = s := if_neg h

/-- `mm_malloc` is its loop on the heap that has been set up. -/
theorem mmMalloc_eq (fuel : Nat) (s : Heap) (size : Nat) : s.mmMalloc fuel size =
    if size = 0 then .ret (none, s.setUp) else allocateLoop fuel s.setUp size := rfl

/-- Each call and each write is one of the store, with a place that the store can grant. -/
theorem Refines.step {op : Op Word} (h : Refines s st bs) (hsound : st.Sound WSIZE)
    (hop : st.Permitted WSIZE op) (hstep : Step s op s') :
    (∃ bs', Refines s' (st.apply WSIZE op) bs') ∧ st.Granted WSIZE op := by
  have hsetUp := setUp_of_started h.ready.started
  cases hstep with
  | malloc hsize hfresh hret =>
      rw [mmMalloc_eq, if_neg (by omega), hsetUp] at hret
      rw [hsetUp] at hfresh
      obtain ⟨bs', b, hready, hgains⟩ := allocateLoop_gains h.ready hsize.1 hret hfresh
      obtain ⟨hrefines, hgranted⟩ := h.gains hsound hready hgains
      exact ⟨⟨bs', hrefines⟩, hgranted⟩
  | @mallocNull _ fuel size hsize hret =>
      rw [mmMalloc_eq, hsetUp] at hret
      by_cases hzero : size = 0
      · rw [if_pos hzero] at hret
        obtain ⟨-, rfl⟩ := Prod.mk.inj (Outcome.ret.inj hret)
        exact ⟨⟨bs, h⟩, trivial⟩
      · rw [if_neg hzero] at hret
        obtain ⟨bs', hready, hcarries⟩ := allocateLoop_carries h.ready hret
        exact ⟨⟨bs', h.carries hsound hready hcarries⟩, trivial⟩
  | free hret =>
      obtain ⟨b, hb⟩ := (h.owned _).mp hop
      obtain ⟨m, bs', hfree, hready, hloses⟩ := mmFree_loses h.ready hb
      obtain rfl := Outcome.ret.inj (hret.symm.trans hfree)
      exact ⟨⟨bs', h.loses hsound hready hloses⟩, trivial⟩
  | realloc hsize hfresh hret =>
      obtain ⟨n, hn⟩ := hop
      obtain ⟨b₀, hb₀⟩ := (h.owned _).mp ⟨n, hn⟩
      obtain ⟨bs', b, hready, hmoves⟩ := mmRealloc_moves h.ready hb₀ hsize.1 hret hfresh
      obtain ⟨hrefines, hgranted⟩ := h.moves hsound hn hready hb₀ hmoves
      exact ⟨⟨bs', hrefines⟩, hgranted⟩
  | reallocNull hsize hfresh hret =>
      obtain ⟨b₀, hb₀⟩ := (h.owned _).mp hop
      obtain ⟨bs', hready, hcarries⟩ := mmRealloc_carries h.ready hb₀ hsize.1 hret hfresh
      exact ⟨⟨bs', h.carries hsound hready hcarries⟩, trivial⟩
  | write a w => exact ⟨⟨bs, h.written hop⟩, trivial⟩

/-- The first call is one on the heap that `mm_init` sets up. -/
theorem Step.setUp {op : Op Word} (h : Step s op s') (hop : Store.empty.Permitted WSIZE op)
    (hstarted : s.setUp.brkBase ≠ 0) : Step s.setUp op s' := by
  have hsetUp := setUp_of_started hstarted
  cases h with
  | malloc hsize hfresh hret =>
      rw [mmMalloc_eq, ← hsetUp, ← mmMalloc_eq] at hret
      exact .malloc hsize (hsetUp.symm ▸ hfresh) hret
  | mallocNull hsize hret =>
      rw [mmMalloc_eq, ← hsetUp, ← mmMalloc_eq] at hret
      exact .mallocNull hsize hret
  | free hret =>
      obtain ⟨n, hn⟩ := hop
      cases hn
  | realloc hsize hfresh hret =>
      obtain ⟨n, hn⟩ := hop
      cases hn
  | reallocNull hsize hfresh hret =>
      obtain ⟨n, hn⟩ := hop
      cases hn
  | write a w =>
      obtain ⟨-, p, n, hn, -⟩ := hop
      cases hn

theorem refines_mmInit (h : s.Unused) : Refines s.mmInit Store.empty [] := by
  refine ⟨mmInit_ready h, fun p => ⟨?_, ?_⟩, ?_, ?_⟩
  · rintro ⟨n, hn⟩
    cases hn
  · rintro ⟨b, hb, -⟩
    cases hb
  · intro p n b hp
    cases hp
  · intro a w hdata
    cases hdata

/-- The heap refines the store from the first call on. -/
theorem Run.refines {ops : List (Op Word)} (hstart : s.Unused) (hrun : Run s ops s' st) :
    Store.Run WSIZE Store.empty ops st ∧
      (ops = [] ∧ s' = s ∧ st = Store.empty ∨ ∃ bs, Refines s' st bs) := by
  induction hrun with
  | nil => exact ⟨.nil _, Or.inl ⟨rfl, rfl, rfl⟩⟩
  | snoc _ hop hstep ih =>
      obtain ⟨hrun, hmatches⟩ := ih
      have hsound := hrun.sound (Store.empty_sound WSIZE)
      rcases hmatches with ⟨-, hsame, rfl⟩ | ⟨bs, h⟩
      · have hsetUp : s.setUp = s.mmInit := if_pos hstart.brkBase
        have hinit := refines_mmInit hstart
        have hstarted : s.setUp.brkBase ≠ 0 := by
          rw [hsetUp]
          exact hinit.ready.started
        rw [hsame] at hstep
        have hstep' := hstep.setUp hop hstarted
        rw [hsetUp] at hstep'
        obtain ⟨hrefines, hgranted⟩ := hinit.step hsound hop hstep'
        exact ⟨hrun.snoc hop hgranted, Or.inr hrefines⟩
      · obtain ⟨hrefines, hgranted⟩ := h.step hsound hop hstep
        exact ⟨hrun.snoc hop hgranted, Or.inr hrefines⟩

/-- Every run refines one of the store, whose blocks are apart: each block of the program is aligned and lies
below the break, holds what the program knows of it and can be given back. When the program has given back all
its blocks, the heap is one free block at most. -/
theorem run_blocks {ops : List (Op Word)} (hstart : s.Unused) (hrun : Run s ops s' st) :
    Store.Run WSIZE Store.empty ops st ∧
      (∀ p n q m, st.owned p = some n → st.owned q = some m → p ≠ q → p + n ≤ q ∨ q + m ≤ p) ∧
      (∀ p n, st.owned p = some n → 8 ∣ p ∧ firstBlock s'.tableBase ≤ p ∧ p + n ≤ s'.memBrk ∧
        ∃ m, mmFree s'.mem s'.tableBase p = .ret m) ∧
      (∀ a w, st.data a = some w → s'.mem a = w) ∧
      ((∀ p, st.owned p = none) → ops ≠ [] →
        ∃ bs, s'.Ready bs ∧ bs.length ≤ 1 ∧ ∀ b ∈ bs, b.alloc = false) := by
  obtain ⟨hstore, hrefines⟩ := hrun.refines hstart
  refine ⟨hstore, (hstore.sound (Store.empty_sound WSIZE)).apart, fun p n hp => ?_, fun a w hdata => ?_,
    fun hnone hne => ?_⟩
  · rcases hrefines with ⟨-, -, rfl⟩ | ⟨bs, h⟩
    · cases hp
    · obtain ⟨b, hb⟩ := (h.owned p).mp ⟨n, hp⟩
      have hbounds := placed_bounds h.ready.wellFormed.arena.sizes hb.1
      have hroom := h.room p n b hp hb
      have hlength := length_le_newSize n
      obtain ⟨m, -, hfree, -⟩ := mmFree_loses h.ready hb
      refine ⟨Nat.dvd_of_mod_eq_zero (hb.aligned h.ready.wellFormed.arena), hbounds.1, ?_, m, hfree⟩
      rw [h.ready.brk]
      omega
  · rcases hrefines with ⟨-, -, rfl⟩ | ⟨bs, h⟩
    · cases hdata
    · exact h.data a w hdata
  · rcases hrefines with ⟨hnil, -⟩ | ⟨bs, h⟩
    · exact absurd hnil hne
    · refine ⟨bs, h.ready, h.ready.wellFormed.length_le_one fun q c hc => ?_⟩
      obtain ⟨n, hn⟩ := (h.owned q).mpr ⟨c, hc⟩
      rw [hnone] at hn
      cases hn

/-- A program with two pages for its heap. -/
def twoPages : Heap where
  mem := fun _ => 0#32
  memBrk := 0
  memMaxBrk := 0
  brkBase := 0
  tableBase := 0
  granted := 4096
  heapEnd := 8192

theorem unused_twoPages : twoPages.Unused := ⟨rfl, rfl, by decide, by decide, by decide, by decide⟩

theorem fresh_twoPages : FreshRest 3 twoPages.setUp 8 := by
  intro _
  exact ⟨rfl, rfl⟩

theorem mmMalloc_twoPages : ∃ p s', twoPages.mmMalloc 3 8 = .ret (some p, s') := by
  have hsome : ((twoPages.mmMalloc 3 8).getD (none, twoPages)).1.isSome = true := by decide +kernel
  cases h : twoPages.mmMalloc 3 8 with
  | halt =>
      rw [h] at hsome
      cases hsome
  | diverge =>
      rw [h] at hsome
      cases hsome
  | ret r =>
      rw [h] at hsome
      obtain ⟨p, hp⟩ := Option.isSome_iff_exists.mp hsome
      exact ⟨p, r.2, congrArg Outcome.ret (Prod.ext hp rfl)⟩

theorem run_blocks_twoPages : ∃ ops s' st, Run twoPages ops s' st ∧ ops.length = 3 ∧
    ∃ bs, s'.Ready bs ∧ bs.length ≤ 1 ∧ ∀ b ∈ bs, b.alloc = false := by
  obtain ⟨p, s₁, hmalloc⟩ := mmMalloc_twoPages
  have hop : Store.empty.Permitted WSIZE (.alloc 8 p : Op Word) := trivial
  have hrun₁ : Run twoPages _ s₁ _ := .snoc .nil hop (.malloc (by decide) fresh_twoPages hmalloc)
  have hcell : CellIn WSIZE p 8 p := by
    simp [CellIn, WSIZE]
  obtain ⟨-, -, hblocks, -⟩ := run_blocks unused_twoPages hrun₁
  have howned : (Store.empty.apply WSIZE (.alloc 8 p : Op Word)).owned p = some 8 := by
    rw [Store.alloc_owned, if_pos rfl]
  have hdvd : WSIZE ∣ p := (by decide : WSIZE ∣ 8).trans (hblocks p 8 howned).1
  have hrun₂ : Run twoPages _ _ _ :=
    @Run.snoc _ _ (.write p 7#32) _ _ _ hrun₁ ⟨hdvd, p, 8, howned, hcell⟩ (.write p 7#32)
  obtain ⟨-, -, hblocks₂, -⟩ := run_blocks unused_twoPages hrun₂
  obtain ⟨-, -, -, m, hfree⟩ := hblocks₂ p 8 howned
  have hrun₃ : Run twoPages _ _ _ := @Run.snoc _ _ (.free p) _ _ _ hrun₂ ⟨8, howned⟩ (.free hfree)
  refine ⟨_, _, _, hrun₃, rfl, (run_blocks unused_twoPages hrun₃).2.2.2.2 (fun q => ?_) (by simp)⟩
  rw [Store.free_owned]
  by_cases hq : q = p
  · rw [if_pos hq]
  · rw [if_neg hq]
    show (Store.empty.apply WSIZE (.alloc 8 p)).owned q = none
    rw [Store.alloc_owned, if_neg hq]
    rfl

end Heap

end Malloc

end SysuOs
