import Mathlib

/-! A window that shows the last rows of a tape. The tape is unbounded: it has a cell for everything ever
written, row after row, and the window shows `height` rows of `width` cells of it from row `top` on. Where the
cursor would leave the window the window moves one row on. -/

namespace Scroll

variable {α : Type*} (width height : ℕ) (blank : α)

structure Tape (α : Type*) where
  cell : ℕ → α
  top : ℕ
  cursor : ℕ

namespace Tape

/-- A cell is written at the cursor. -/
def put (t : Tape α) (a : α) : Tape α where
  cell := Function.update t.cell t.cursor a
  top := if t.cursor + 1 = (t.top + height) * width then t.top + 1 else t.top
  cursor := t.cursor + 1

/-- The cursor goes to the start of the next row. -/
def newline (t : Tape α) : Tape α where
  cell := t.cell
  top := if t.cursor / width + 1 = t.top + height then t.top + 1 else t.top
  cursor := (t.cursor / width + 1) * width

/-- The cell before the cursor is cleared, but not above the window. -/
def back (t : Tape α) : Tape α :=
  if t.cursor = t.top * width then t
  else { t with cell := Function.update t.cell (t.cursor - 1) blank, cursor := t.cursor - 1 }

/-- A cell of the window is written. -/
def set (t : Tape α) (pos : ℕ) (a : α) : Tape α :=
  { t with cell := Function.update t.cell (t.top * width + pos) a }

/-- The cursor goes to a place in the window. -/
def moveTo (t : Tape α) (pos : ℕ) : Tape α := { t with cursor := t.top * width + pos }

end Tape

/-- The window one row further, with a blank last row. -/
def rolled (screen : ℕ → α) : ℕ → α :=
  fun i => if i + width < height * width then screen (i + width) else blank

/-- The cells of the window and the cursor in it are those of the tape; below the window nothing is written. -/
structure Shows (screen : ℕ → α) (pos : ℕ) (t : Tape α) : Prop where
  inView : pos < height * width
  cursor : t.cursor = t.top * width + pos
  cell : ∀ i < height * width, screen i = t.cell (t.top * width + i)
  below : ∀ i, height * width ≤ i → t.cell (t.top * width + i) = blank

namespace Shows

variable {width height blank} {screen : ℕ → α} {pos pos' : ℕ} {t : Tape α} {a : α}

/-- Only the cells of the window count. -/
theorem congr {screen' : ℕ → α} (h : Shows width height blank screen pos t)
    (heq : ∀ i < height * width, screen' i = screen i) : Shows width height blank screen' pos t :=
  ⟨h.inView, h.cursor, fun i hi => (heq i hi).trans (h.cell i hi), h.below⟩

/-- What is in view is a tape with nothing above and nothing below. -/
theorem start (hpos : pos < height * width) (screen : ℕ → α) :
    Shows width height blank screen pos ⟨fun i => if i < height * width then screen i else blank, 0, pos⟩ := by
  refine ⟨hpos, by rw [Nat.zero_mul, Nat.zero_add], fun i hi => ?_, fun i hi => ?_⟩
  · rw [Nat.zero_mul, Nat.zero_add]
    exact (if_pos hi).symm
  · rw [Nat.zero_mul, Nat.zero_add]
    exact if_neg (Nat.not_lt.mpr hi)

theorem moveTo (h : Shows width height blank screen pos t) (hpos : pos' < height * width) :
    Shows width height blank screen pos' (t.moveTo width pos') :=
  ⟨hpos, rfl, h.cell, h.below⟩

theorem set (h : Shows width height blank screen pos t) (hpos : pos' < height * width) (a : α) :
    Shows width height blank (Function.update screen pos' a) pos (t.set width pos' a) := by
  have hcell : ∀ i, i ≠ pos' → (t.set width pos' a).cell (t.top * width + i) = t.cell (t.top * width + i) :=
    fun i hi => Function.update_of_ne (by omega) _ _
  refine ⟨h.inView, h.cursor, fun i hi => ?_, fun i hi => ?_⟩
  · by_cases hip : i = pos'
    · subst hip
      show _ = Function.update t.cell (t.top * width + i) a (t.top * width + i)
      rw [Function.update_self, Function.update_self]
    · rw [Function.update_of_ne hip]
      exact (h.cell i hi).trans (hcell i hip).symm
  · exact (hcell i (by omega)).trans (h.below i hi)

/-- The window moves on by a row. -/
theorem roll (h : Shows width height blank screen pos t) (hpos : width ≤ pos + 1) :
    Shows width height blank (rolled width height blank screen) (pos + 1 - width)
      { t with top := t.top + 1, cursor := t.cursor + 1 } := by
  have hview := h.inView
  have hcursor := h.cursor
  have hmul : (t.top + 1) * width = t.top * width + width := Nat.succ_mul _ _
  have hwidth : 0 < width := Nat.pos_of_ne_zero fun hzero => by simp [hzero] at hview
  refine ⟨by omega, ?_, fun i hi => ?_, fun i hi => ?_⟩
  · show t.cursor + 1 = (t.top + 1) * width + (pos + 1 - width)
    omega
  · show rolled width height blank screen i = t.cell ((t.top + 1) * width + i)
    rw [show (t.top + 1) * width + i = t.top * width + (i + width) by omega, rolled]
    split_ifs with hin
    · exact h.cell _ hin
    · exact (h.below _ (by omega)).symm
  · show t.cell ((t.top + 1) * width + i) = blank
    rw [show (t.top + 1) * width + i = t.top * width + (i + width) by omega]
    exact h.below _ (by omega)

/-- The cursor goes on by one in the window. -/
theorem advance (h : Shows width height blank screen pos t) (hpos : pos + 1 < height * width) :
    Shows width height blank screen (pos + 1) { t with cursor := t.cursor + 1 } := by
  refine ⟨hpos, ?_, h.cell, h.below⟩
  show t.cursor + 1 = _
  rw [h.cursor, Nat.add_assoc]

/-- `put` in the window. -/
theorem put (h : Shows width height blank screen pos t) (a : α) :
    if pos + 1 = height * width then
      Shows width height blank (rolled width height blank (Function.update screen pos a)) ((height - 1) * width)
        (t.put width height a)
    else Shows width height blank (Function.update screen pos a) (pos + 1) (t.put width height a) := by
  have hset := h.set h.inView a
  have hcell : (t.set width pos a).cell = Function.update t.cell t.cursor a := by
    rw [Tape.set, h.cursor]
  have hlast : (t.cursor + 1 = (t.top + height) * width) ↔ pos + 1 = height * width := by
    rw [h.cursor, Nat.add_mul]
    omega
  split_ifs with hend
  · have hheight : 0 < height := Nat.pos_of_ne_zero fun hzero => by simp [hzero] at hend
    have hmul : height * width = (height - 1) * width + width := by
      rw [← Nat.succ_mul, Nat.succ_eq_add_one, Nat.sub_add_cancel hheight]
    have hroll := hset.roll (by omega)
    rw [show pos + 1 - width = (height - 1) * width by omega] at hroll
    rw [Tape.put, if_pos (hlast.mpr hend), ← hcell]
    exact hroll
  · have hmove := hset.advance (by have := h.inView; omega)
    rw [Tape.put, if_neg (fun heq => hend (hlast.mp heq)), ← hcell]
    exact hmove

/-- `newline` in the window. -/
theorem newline (h : Shows width height blank screen pos t) :
    if pos / width + 1 = height then
      Shows width height blank (rolled width height blank screen) ((height - 1) * width)
        (t.newline width height)
    else Shows width height blank screen ((pos / width + 1) * width) (t.newline width height) := by
  have hwidth : 0 < width := Nat.pos_of_ne_zero fun hzero => by simpa [hzero] using h.inView
  have hrow : t.cursor / width = t.top + pos / width := by
    rw [h.cursor, Nat.mul_comm, Nat.mul_add_div hwidth]
  have hlast : t.cursor / width + 1 = t.top + height ↔ pos / width + 1 = height := by
    rw [hrow]
    omega
  have hlt : pos / width < height := Nat.div_lt_of_lt_mul (by rw [Nat.mul_comm]; exact h.inView)
  have hnext : (t.cursor / width + 1) * width = t.top * width + (pos / width + 1) * width := by
    rw [hrow, Nat.add_assoc, Nat.add_mul]
  have hview := h.inView
  split_ifs with hend
  · -- the cursor goes to the end of the last row and the window follows it
    have hpos : (height - 1 + 1) * width = height * width := by
      rw [Nat.sub_add_cancel (Nat.zero_lt_of_lt hlt)]
    have hmul : (height - 1 + 1) * width = (height - 1) * width + width := Nat.succ_mul _ _
    have hroll := (h.moveTo (by omega : height * width - 1 < height * width)).roll (by omega)
    rw [show height * width - 1 + 1 - width = (height - 1) * width by omega] at hroll
    rw [Tape.newline, if_pos (hlast.mpr hend), hnext, hend]
    refine ⟨hroll.inView, ?_, hroll.cell, hroll.below⟩
    show t.top * width + height * width = (t.top + 1) * width + (height - 1) * width
    have hsucc : (t.top + 1) * width = t.top * width + width := Nat.succ_mul _ _
    omega
  · rw [Tape.newline, if_neg (fun heq => hend (hlast.mp heq)), hnext]
    exact h.moveTo (Nat.mul_lt_mul_of_pos_right (by omega) hwidth)

/-- `back` in the window. -/
theorem back (h : Shows width height blank screen pos t) :
    if pos = 0 then Shows width height blank screen pos (t.back width blank)
    else Shows width height blank (Function.update screen (pos - 1) blank) (pos - 1) (t.back width blank) := by
  have hcursor := h.cursor
  have hview := h.inView
  split_ifs with hzero
  · rw [Tape.back, if_pos (by omega)]
    exact h
  · rw [Tape.back, if_neg (by omega)]
    have hset := (h.set (by omega : pos - 1 < height * width) blank).moveTo (by omega : pos - 1 < _)
    rw [Tape.set, Tape.moveTo] at hset
    rwa [show t.cursor - 1 = t.top * width + (pos - 1) by omega]

end Shows

end Scroll
