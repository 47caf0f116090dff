import SysuOs.Screen

/-! Runs of the calls of `SCREEN`: the screen is a window that follows the cursor over a tape on which nothing
is lost, and no call writes behind the 4000 bytes of the screen. -/

namespace SysuOs.SCREEN

open Scroll

/-- The public calls that write to the display. -/
inductive Call where
  | printAt (x y : Nat) (c color : Byte)
  | printColor (c color : Byte)
  | moveCursor (position : Nat)
  | moveCursorTo (x y : Nat)
  | backspace

/-- A call as the code answers it. -/
def call (s : SCREEN) : Call → SCREEN
  | .printAt x y c color => s.printAt x y c color
  | .printColor c color => s.printColor c color
  | .moveCursor position => s.moveCursor position
  | .moveCursorTo x y => s.moveCursorTo x y
  | .backspace => s.backspace

/-- A character on a tape of rows of 80 cells, with a window of 25 rows. -/
def write (t : Tape Cell) (c color : Byte) : Tape Cell :=
  if c = 0x0a then t.newline 80 25
  else if c = 0x08 then t.back 80 blank
  else t.put 80 25 (c, color)

/-- A call on the tape: places are places in the window, and those outside of it are ignored. -/
def tapeCall (t : Tape Cell) : Call → Tape Cell
  | .printAt x y c color => if x < 25 ∧ y < 80 then t.set 80 (x * 80 + y) (c, color) else t
  | .printColor c color => write t c color
  | .moveCursor position => if position < 80 * 25 then t.moveTo 80 position else t
  | .moveCursorTo x y => if x < 25 ∧ y < 80 then t.moveTo 80 (x * 80 + y) else t
  | .backspace => t.back 80 blank

/-- The tape that begins with what is on the screen. -/
def tape (s : SCREEN) : Tape Cell where
  cell := fun i => if i < 25 * 80 then cells s.screen i else blank
  top := 0
  cursor := s.cursor

/-- The screen and its cursor show the tape. -/
def Displays (s : SCREEN) (t : Tape Cell) : Prop := Shows 80 25 blank (cells s.screen) s.cursor t

section Call

variable {s : SCREEN} {t : Tape Cell} {c color : Byte}

theorem displays_tape (h : s.cursor < 80 * 25) : Displays s s.tape :=
  have hview : s.cursor < 25 * 80 := h
  Shows.start hview (cells s.screen)

theorem Displays.moveCursor {pos : Nat} {t' : Tape Cell} (h : Shows 80 25 blank (cells s.screen) pos t') :
    Displays (s.moveCursor pos) t' := by
  rw [Displays, moveCursor_screen, moveCursor_cursor h.inView]
  exact h

theorem Displays.rollUp {screen : Nat → Cell} {pos : Nat} (hscreen : ∀ i < 25 * 80, cells s.screen i = screen i)
    (h : Shows 80 25 blank (rolled 80 25 blank screen) pos t) : Displays (s.rollUp.moveCursor pos) t := by
  refine Displays.moveCursor (h.congr fun i hi => ?_)
  rw [cells_rollUp s hi, rolled, rolled]
  split_ifs with hin
  · exact hscreen _ hin
  · rfl

theorem Displays.backspace (h : Displays s t) : Displays s.backspace (t.back 80 blank) := by
  have hback := Shows.back h
  rw [SCREEN.backspace, getCursor_eq]
  dsimp only
  split_ifs at hback ⊢ with hzero
  · exact hback
  · refine Displays.moveCursor ?_
    rw [putCell, cells_putCell]
    exact hback

/-- A character is written where the tape has its cursor. -/
theorem Displays.printColor (h : Displays s t) (c color : Byte) :
    Displays (s.printColor c color) (write t c color) := by
  have hview : s.cursor < 25 * 80 := h.inView
  unfold SCREEN.printColor write
  rw [getCursor_eq]
  dsimp only
  by_cases hnewline : c = 0x0a
  · rw [if_pos hnewline, if_pos hnewline]
    have hline := Shows.newline h
    by_cases hlast : s.cursor / 80 = 24
    · rw [if_pos (by rw [hlast])] at hline
      rw [if_pos hlast, hlast]
      exact Displays.rollUp (fun _ _ => rfl) hline
    · rw [if_neg (by omega)] at hline
      rw [if_neg hlast]
      exact Displays.moveCursor hline
  · rw [if_neg hnewline, if_neg hnewline]
    by_cases hback : c = 0x08
    · rw [if_pos hback, if_pos hback]
      exact h.backspace
    · rw [if_neg hback, if_neg hback]
      have hput := Shows.put h (c, color)
      have hcells : cells ({ s with index := 0x0f }.putCell s.cursor c color).screen =
          Function.update (cells s.screen) s.cursor (c, color) := cells_putCell _ _ _ _
      by_cases hend : s.cursor + 1 = 25 * 80
      · rw [if_pos hend] at hput ⊢
        exact Displays.rollUp (fun i _ => congrFun hcells i) hput
      · rw [if_neg hend] at hput ⊢
        refine Displays.moveCursor ?_
        rw [hcells]
        exact hput

/-- One call. -/
theorem Displays.call (h : Displays s t) (call : Call) : Displays (s.call call) (tapeCall t call) := by
  cases call with
  | printAt x y c color =>
      simp only [SCREEN.call, SCREEN.printAt, tapeCall]
      by_cases hin : x < 25 ∧ y < 80
      · rw [if_neg (by omega), if_pos hin, Displays, putCell, cells_putCell]
        exact Shows.set h (by omega) _
      · rw [if_pos (by omega), if_neg hin]
        exact h
  | printColor c color => exact h.printColor c color
  | moveCursor position =>
      simp only [SCREEN.call, tapeCall]
      by_cases hin : position < 80 * 25
      · rw [if_pos hin]
        exact Displays.moveCursor (Shows.moveTo h hin)
      · rw [if_neg hin, SCREEN.moveCursor, if_pos (by omega)]
        exact h
  | moveCursorTo x y =>
      simp only [SCREEN.call, SCREEN.moveCursorTo, tapeCall]
      by_cases hin : x < 25 ∧ y < 80
      · rw [if_neg (by omega), if_pos hin]
        exact Displays.moveCursor (Shows.moveTo h (by omega))
      · rw [if_pos (by omega), if_neg hin]
        exact h
  | backspace => exact h.backspace

/-! ### Nothing else is written -/

theorem printColor_beyond (h : s.cursor < 80 * 25) {j : Nat} (hj : 4000 ≤ j) :
    (s.printColor c color).screen j = s.screen j := by
  unfold SCREEN.printColor SCREEN.backspace
  rw [getCursor_eq]
  dsimp only
  split_ifs <;> simp only [moveCursor_screen]
  · exact rollUp_beyond hj
  · exact putCell_beyond (by omega) hj
  · exact (rollUp_beyond hj).trans (putCell_beyond h hj)
  · exact putCell_beyond h hj

theorem call_beyond (h : s.cursor < 80 * 25) (call : Call) {j : Nat} (hj : 4000 ≤ j) :
    (s.call call).screen j = s.screen j := by
  cases call with
  | printAt x y c color =>
      simp only [SCREEN.call, SCREEN.printAt]
      split_ifs with hout
      · rfl
      · exact putCell_beyond (by omega) hj
  | printColor c color => exact printColor_beyond h hj
  | moveCursor position => exact congrFun (moveCursor_screen s position) j
  | moveCursorTo x y =>
      simp only [SCREEN.call, SCREEN.moveCursorTo]
      split_ifs
      · rfl
      · exact congrFun (moveCursor_screen s _) j
  | backspace =>
      simp only [SCREEN.call, SCREEN.backspace]
      rw [getCursor_eq]
      dsimp only
      split_ifs with hzero
      · rfl
      · rw [moveCursor_screen]
        exact putCell_beyond (by omega) hj

theorem Displays.run (h : Displays s t) (calls : List Call) :
    Displays (calls.foldl SCREEN.call s) (calls.foldl tapeCall t) := by
  induction calls generalizing s t with
  | nil => exact h
  | cons c calls ih => exact ih (h.call c)

theorem run_beyond (h : Displays s t) (calls : List Call) {j : Nat} (hj : 4000 ≤ j) :
    (calls.foldl SCREEN.call s).screen j = s.screen j := by
  induction calls generalizing s t with
  | nil => rfl
  | cons c calls ih => exact (ih (h.call c)).trans (call_beyond h.inView c hj)

end Call

/-- After any calls the screen shows the window over the tape that has taken the same calls, the cursor is on
the screen, and the memory behind the screen is as it was. -/
theorem run_displays {s : SCREEN} (h : s.cursor < 80 * 25) (calls : List Call) :
    Displays (calls.foldl SCREEN.call s) (calls.foldl tapeCall s.tape) ∧
      (calls.foldl SCREEN.call s).cursor < 80 * 25 ∧
      ∀ j, 4000 ≤ j → (calls.foldl SCREEN.call s).screen j = s.screen j :=
  have hdisplays := (displays_tape h).run calls
  ⟨hdisplays, hdisplays.inView, fun _ hj => run_beyond (displays_tape h) calls hj⟩

/-- A cleared screen with the cursor at its start. -/
def cleared : SCREEN where
  screen := fun j => if j % 2 = 0 then 0x20 else 0x07
  index := 0
  registers := fun _ => 0

/-- Thirty newlines, which scroll it, a letter and a backspace. -/
def scrolling : List Call := List.replicate 30 (.printColor 0x0a 0x07) ++ [.printColor 0x41 0x07, .backspace]

theorem run_displays_scrolling :
    Displays (scrolling.foldl SCREEN.call cleared) (scrolling.foldl tapeCall cleared.tape) ∧
      (scrolling.foldl SCREEN.call cleared).cursor < 80 * 25 ∧
      ∀ j, 4000 ≤ j → (scrolling.foldl SCREEN.call cleared).screen j = cleared.screen j :=
  run_displays (by decide : cleared.cursor < 80 * 25) scrolling

/-! ### Text -/

/-- Characters that are neither newlines nor backspaces lie one after another on the tape, and the window
follows to the row of the cursor. -/
theorem write_text {t : Tape Cell} {cs : List Byte} (hview : t.cursor < (t.top + 25) * 80)
    (hplain : ∀ c ∈ cs, c ≠ 0x0a ∧ c ≠ 0x08) :
    (cs.foldl (fun t c => write t c 0x07) t).cursor = t.cursor + cs.length ∧
      (cs.foldl (fun t c => write t c 0x07) t).top = max t.top ((t.cursor + cs.length) / 80 - 24) ∧
      ∀ j, (cs.foldl (fun t c => write t c 0x07) t).cell j =
        if t.cursor ≤ j ∧ j < t.cursor + cs.length then (cs.getD (j - t.cursor) 0, 0x07) else t.cell j := by
  induction cs generalizing t with
  | nil =>
      refine ⟨rfl, ?_, fun j => (if_neg ?_).symm⟩
      · rw [List.foldl_nil, List.length_nil]
        omega
      · rw [List.length_nil]
        omega
  | cons c cs ih =>
      have hwrite : write t c 0x07 = t.put 80 25 (c, 0x07) := by
        rw [write, if_neg (hplain c List.mem_cons_self).1, if_neg (hplain c List.mem_cons_self).2]
      have hcursor : (t.put 80 25 (c, 0x07)).cursor = t.cursor + 1 := rfl
      have htop : (t.put 80 25 (c, 0x07)).top =
          if t.cursor + 1 = (t.top + 25) * 80 then t.top + 1 else t.top := rfl
      have hview' : (t.put 80 25 (c, 0x07)).cursor < ((t.put 80 25 (c, 0x07)).top + 25) * 80 := by
        rw [hcursor, htop]
        split_ifs <;> omega
      obtain ⟨ihcursor, ihtop, ihcell⟩ := ih hview' fun c hc => hplain c (List.mem_cons_of_mem _ hc)
      rw [List.foldl_cons, hwrite, ihcursor, ihtop, hcursor, htop, List.length_cons]
      refine ⟨by omega, ?_, fun j => ?_⟩
      · split_ifs <;> omega
      · rw [ihcell, hcursor]
        by_cases hj : j = t.cursor
        · subst hj
          rw [if_neg (by omega), if_pos (by omega), Nat.sub_self]
          exact Function.update_self _ _ _
        · have hcell : (t.put 80 25 (c, 0x07)).cell j = t.cell j := Function.update_of_ne hj _ _
          by_cases hin : t.cursor + 1 ≤ j ∧ j < t.cursor + 1 + cs.length
          · rw [if_pos hin, if_pos (by omega), show j - t.cursor = j - (t.cursor + 1) + 1 by omega,
              List.getD_cons_succ]
          · rw [if_neg hin, if_neg (by omega), hcell]

/-- A string without control characters: the screen moves up by the rows that the text needs, the text stands
behind the old cursor, and the cursor behind the text. -/
theorem printStr_text {s : SCREEN} (h : s.cursor < 80 * 25) {cs : List Byte} (rest : List Byte)
    (hplain : ∀ c ∈ cs, c ≠ 0 ∧ c ≠ 0x0a ∧ c ≠ 0x08) :
    (s.printStr (cs ++ 0 :: rest)).1 = cs.length ∧
      (s.printStr (cs ++ 0 :: rest)).2.cursor + 80 * ((s.cursor + cs.length) / 80 - 24) = s.cursor + cs.length ∧
      ∀ i < 25 * 80, cells (s.printStr (cs ++ 0 :: rest)).2.screen i =
        let j := 80 * ((s.cursor + cs.length) / 80 - 24) + i
        if s.cursor ≤ j ∧ j < s.cursor + cs.length then (cs.getD (j - s.cursor) 0, 0x07)
        else if j < 25 * 80 then cells s.screen j else blank := by
  have htake : (cs ++ 0 :: rest).takeWhile (· ≠ 0) = cs := by
    rw [List.takeWhile_append_of_pos fun c hc => by simpa using (hplain c hc).1]
    simp
  have hcalls : ∀ d : SCREEN,
      cs.foldl print d = (cs.map fun c => Call.printColor c 0x07).foldl SCREEN.call d := by
    intro d
    rw [List.foldl_map]
    rfl
  have hdisplays := (displays_tape h).run (cs.map fun c => Call.printColor c 0x07)
  rw [← hcalls, List.foldl_map] at hdisplays
  have htape : cs.foldl (fun t c => tapeCall t (.printColor c 0x07)) s.tape =
      cs.foldl (fun t c => write t c 0x07) s.tape := rfl
  rw [htape] at hdisplays
  have hcursor₀ : s.tape.cursor = s.cursor := rfl
  have htop₀ : s.tape.top = 0 := rfl
  have hview : s.tape.cursor < (s.tape.top + 25) * 80 := by omega
  obtain ⟨hcursor, htop, hcell⟩ := write_text hview fun c hc => (hplain c hc).2
  have hrows : (cs.foldl (fun t c => write t c 0x07) s.tape).top = (s.cursor + cs.length) / 80 - 24 := by
    rw [htop, htop₀, hcursor₀]
    exact Nat.zero_max _
  rw [printStr, htake]
  refine ⟨rfl, ?_, fun i hi => ?_⟩
  · have hplace := hdisplays.cursor
    rw [hcursor, hrows] at hplace
    dsimp only
    omega
  · have hshown := hdisplays.cell i hi
    rw [hrows, hcell, Nat.mul_comm] at hshown
    exact hshown

theorem printStr_text_cleared : (cleared.printStr ([0x68, 0x69] ++ 0 :: [])).1 = 2 :=
  (printStr_text (by decide : cleared.cursor < 80 * 25) [] (by simp)).1

end SysuOs.SCREEN
