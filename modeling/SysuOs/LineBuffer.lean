import Mathlib

/-! A buffer that is given away when it is full or when a last element comes, such as the end of a line. What is
given away and what is left are the elements that came in, in their order. -/

namespace LineBuffer

variable {α : Type*} (size : ℕ) (last : α → Prop) [DecidablePred last]

/-- The pieces that are given away while `input` comes in behind `held`, and what is left. -/
def feed : List α → List α → List (List α) × List α
  | held, [] => ([], held)
  | held, a :: input =>
      if held.length + 1 ≥ size ∨ last a then
        ((held ++ [a]) :: (feed [] input).1, (feed [] input).2)
      else feed (held ++ [a]) input

/-- What waits in the buffer: it is not full, and no line of it has ended. -/
structure Held (held : List α) : Prop where
  length : held.length < size
  line : ∀ a ∈ held, ¬last a

/-- A piece that is given away: full or the end of a line, and no line ends before its last element. -/
structure Piece (piece : List α) : Prop where
  length : piece.length ≤ size
  line : ∀ a ∈ piece.dropLast, ¬last a
  done : piece.length = size ∨ ∃ a ∈ piece.getLast?, last a

variable {size last} {held input : List α} {a : α}

omit [DecidablePred last] in
theorem Held.snoc (h : Held size last held) (ha : ¬(held.length + 1 ≥ size ∨ last a)) :
    Held size last (held ++ [a]) := by
  refine ⟨?_, fun b hb => ?_⟩
  · rw [List.length_append, List.length_singleton]
    omega
  · rcases List.mem_append.mp hb with hb | hb
    · exact h.line b hb
    · rw [List.mem_singleton.mp hb]
      exact fun hlast => ha (.inr hlast)

omit [DecidablePred last] in
theorem Held.piece (h : Held size last held) (ha : held.length + 1 ≥ size ∨ last a) :
    Piece size last (held ++ [a]) := by
  have hlength := h.length
  refine ⟨?_, ?_, ?_⟩
  · rw [List.length_append, List.length_singleton]
    omega
  · rw [List.dropLast_concat]
    exact h.line
  · rcases ha with hfull | hlast
    · left
      rw [List.length_append, List.length_singleton]
      omega
    · right
      exact ⟨a, by rw [List.getLast?_concat]; rfl, hlast⟩

/-- Nothing is lost, doubled or moved. -/
theorem feed_flatten (held input : List α) :
    (feed size last held input).1.flatten ++ (feed size last held input).2 = held ++ input := by
  induction input generalizing held with
  | nil => rw [feed, List.flatten_nil, List.nil_append, List.append_nil]
  | cons a input ih =>
      rw [feed]
      split_ifs with ha
      · rw [List.flatten_cons, List.append_assoc, ih, List.nil_append, List.append_assoc]
        rfl
      · rw [ih, List.append_assoc]
        rfl

theorem feed_held (hsize : 0 < size) (h : Held size last held) :
    Held size last (feed size last held input).2 := by
  induction input generalizing held with
  | nil => exact h
  | cons a input ih =>
      rw [feed]
      split_ifs with ha
      · exact ih ⟨hsize, by simp⟩
      · exact ih (h.snoc ha)

theorem feed_pieces (hsize : 0 < size) (h : Held size last held) :
    ∀ piece ∈ (feed size last held input).1, Piece size last piece := by
  induction input generalizing held with
  | nil => simp [feed]
  | cons a input ih =>
      rw [feed]
      split_ifs with ha
      · rw [List.forall_mem_cons]
        exact ⟨h.piece ha, ih ⟨hsize, by simp⟩⟩
      · exact ih (h.snoc ha)

end LineBuffer
