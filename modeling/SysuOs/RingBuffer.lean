import Mathlib

/-! A queue of bounded length in a circular buffer, with an index for its head, one for its tail and a
count. `contents` is the queue it stands for: `push` and `pop` are those of a queue. -/

/-- The buffer and its indices. -/
structure RingBuffer (α : Type) where
  buffer : ℤ → α
  head : ℤ
  tail : ℤ
  count : ℤ

namespace RingBuffer

variable {α : Type} (size : ℤ)

/-- An element is put at the tail if there is room. -/
def push (s : RingBuffer α) (a : α) : RingBuffer α :=
  if s.count ≥ size then s
  else
    { s with
      buffer := Function.update s.buffer s.tail a
      tail := (s.tail + 1).tmod size
      count := s.count + 1 }

/-- The element at the head is taken if there is one. -/
def pop (s : RingBuffer α) : Option α × RingBuffer α :=
  if s.count ≤ 0 then (none, s)
  else (some (s.buffer s.head), { s with head := (s.head + 1).tmod size, count := s.count - 1 })

/-- The indices lie in the buffer, and the tail is `count` places behind the head. -/
structure WellFormed (s : RingBuffer α) : Prop where
  count_nonneg : 0 ≤ s.count
  count_le : s.count ≤ size
  head_nonneg : 0 ≤ s.head
  head_lt : s.head < size
  tail_eq : s.tail = (s.head + s.count) % size

/-- The elements from the head on. -/
def contents (s : RingBuffer α) : List α :=
  (List.range s.count.toNat).map fun k : ℕ => s.buffer ((s.head + k) % size)

variable {size} {s : RingBuffer α}

theorem WellFormed.size_pos (h : s.WellFormed size) : 0 < size := h.head_nonneg.trans_lt h.head_lt

theorem WellFormed.tail_nonneg (h : s.WellFormed size) : 0 ≤ s.tail :=
  h.tail_eq ▸ Int.emod_nonneg _ h.size_pos.ne'

theorem WellFormed.tail_lt (h : s.WellFormed size) : s.tail < size :=
  h.tail_eq ▸ Int.emod_lt_of_pos _ h.size_pos

theorem length_contents (h : s.WellFormed size) : ((s.contents size).length : ℤ) = s.count := by
  rw [contents, List.length_map, List.length_range]
  exact Int.toNat_of_nonneg h.count_nonneg

theorem push_full (a : α) (h : s.count ≥ size) : s.push size a = s := if_pos h

theorem push_wellFormed (h : s.WellFormed size) (a : α) : (s.push size a).WellFormed size := by
  rw [push]
  split_ifs with hfull
  · exact h
  · have hcount := h.count_nonneg
    refine ⟨?_, ?_, h.head_nonneg, h.head_lt, ?_⟩
    · exact Int.add_nonneg hcount Int.one_nonneg
    · exact Int.add_one_le_iff.mpr (Int.not_le.mp hfull)
    · show (s.tail + 1).tmod size = (s.head + (s.count + 1)) % size
      rw [Int.tmod_eq_emod_of_nonneg (Int.add_nonneg h.tail_nonneg Int.one_nonneg), h.tail_eq,
        Int.emod_add_emod, add_assoc]

/-- The places of a queue that is not full are not that of its tail. -/
theorem place_ne_tail (h : s.WellFormed size) (hroom : s.count < size) {k : ℤ} (hk : 0 ≤ k)
    (hkc : k < s.count) :
    (s.head + k) % size ≠ s.tail := by
  rw [h.tail_eq]
  intro he
  have hdvd : size ∣ s.count - k := by
    have hsub := Int.emod_eq_emod_iff_emod_sub_eq_zero.mp he.symm
    have hdiff : s.head + s.count - (s.head + k) = s.count - k := by ring
    rw [hdiff] at hsub
    exact Int.dvd_of_emod_eq_zero hsub
  have := Int.le_of_dvd (by omega) hdvd
  omega

theorem contents_push (h : s.WellFormed size) (hroom : s.count < size) (a : α) :
    (s.push size a).contents size = s.contents size ++ [a] := by
  have hnat : (s.count + 1).toNat = s.count.toNat + 1 := by
    have := h.count_nonneg
    omega
  rw [push, if_neg (by omega), contents, contents]
  simp only [hnat, List.range_succ, List.map_append, List.map_cons, List.map_nil]
  congr 1
  · refine List.map_congr_left fun k hk => Function.update_of_ne ?_ ..
    have := List.mem_range.mp hk
    exact place_ne_tail h hroom (by omega) (by omega)
  · have hcast : ((s.count.toNat : ℕ) : ℤ) = s.count := Int.toNat_of_nonneg h.count_nonneg
    rw [hcast, ← h.tail_eq, Function.update_self]

theorem pop_empty (h : s.count ≤ 0) : s.pop size = (none, s) := if_pos h

theorem pop_wellFormed (h : s.WellFormed size) : (s.pop size).2.WellFormed size := by
  rw [pop]
  split_ifs with hempty
  · exact h
  · have hpos := h.size_pos
    have hle := h.count_le
    have hnext : 0 ≤ s.head + 1 := Int.add_nonneg h.head_nonneg Int.one_nonneg
    refine ⟨?_, ?_, ?_, ?_, ?_⟩
    · exact Int.le_sub_one_of_lt (Int.not_le.mp hempty)
    · exact (Int.sub_le_self _ Int.one_nonneg).trans hle
    · exact Int.tmod_eq_emod_of_nonneg hnext ▸ Int.emod_nonneg _ hpos.ne'
    · exact Int.tmod_eq_emod_of_nonneg hnext ▸ Int.emod_lt_of_pos _ hpos
    · show s.tail = ((s.head + 1).tmod size + (s.count - 1)) % size
      rw [Int.tmod_eq_emod_of_nonneg hnext, Int.emod_add_emod, h.tail_eq]
      congr 1
      ring

/-- What is popped is the first element of the queue. -/
theorem contents_pop (h : s.WellFormed size) (hsome : 0 < s.count) :
    ∃ a, (s.pop size).1 = some a ∧ s.contents size = a :: (s.pop size).2.contents size := by
  have hnat : s.count.toNat = (s.count - 1).toNat + 1 := by omega
  have hnext : 0 ≤ s.head + 1 := Int.add_nonneg h.head_nonneg Int.one_nonneg
  refine ⟨s.buffer s.head, ?_, ?_⟩
  · rw [pop, if_neg (by omega)]
  · rw [pop, if_neg (by omega), contents, contents]
    simp only [hnat, List.range_succ_eq_map, List.map_cons, List.map_map]
    congr 1
    · rw [Nat.cast_zero, add_zero, Int.emod_eq_of_lt h.head_nonneg h.head_lt]
    · refine List.map_congr_left fun k _ => congrArg s.buffer ?_
      rw [Int.tmod_eq_emod_of_nonneg hnext, Int.emod_add_emod, Nat.cast_succ]
      congr 1
      ring

end RingBuffer
