import SysuOs.Machine
import SysuOs.Scroll

/-! `SCREEN`, the text display of the kernel: 25 rows of 80 cells in memory, two bytes a cell, and a cursor in
two registers of the display, which are reached through an index register. -/

namespace SysuOs

/-- The memory from `screen` on, and the registers of the display. -/
structure SCREEN where
  screen : ByteMap
  index : Byte
  registers : Byte → Byte

namespace SCREEN

/-- `asm_out_port`; port 0x3d4 is the index register and 0x3d5 the register it names. -/
def outPort (s : SCREEN) (port : Nat) (value : Byte) : SCREEN :=
  if port = 0x3d4 then { s with index := value }
  else if port = 0x3d5 then { s with registers := Function.update s.registers s.index value }
  else s

/-- `asm_in_port` of port 0x3d5. -/
def inPort (s : SCREEN) : Byte := s.registers s.index

/-- The two bytes of a cell are written. -/
def putCell (s : SCREEN) (pos : Nat) (c color : Byte) : SCREEN :=
  { s with screen := Function.update (Function.update s.screen (2 * pos) c) (2 * pos + 1) color }

/-- `getCursor`. -/
def getCursor (s : SCREEN) : Nat × SCREEN :=
  let s := s.outPort 0x3d4 0x0e
  let pos := s.inPort.toNat <<< 8
  let s := s.outPort 0x3d4 0x0f
  (pos ||| s.inPort.toNat, s)

/-- `moveCursor` to a position. -/
def moveCursor (s : SCREEN) (position : Nat) : SCREEN :=
  if position ≥ 80 * 25 then s
  else
    let s := (s.outPort 0x3d4 0x0e).outPort 0x3d5 (BitVec.ofNat 8 ((position >>> 8) &&& 0xff))
    (s.outPort 0x3d4 0x0f).outPort 0x3d5 (BitVec.ofNat 8 (position &&& 0xff))

/-- `moveCursor` to a row and a column. -/
def moveCursorTo (s : SCREEN) (x y : Nat) : SCREEN :=
  if x ≥ 25 ∨ y ≥ 80 then s else s.moveCursor (x * 80 + y)

/-- A cell of the first loop of `rollUp`. -/
def rollCell (screen : ByteMap) (i : Nat) : ByteMap :=
  let screen := Function.update screen (2 * (i - 80)) (screen (2 * i))
  Function.update screen (2 * (i - 80) + 1) (screen (2 * i + 1))

/-- A cell of the second one. -/
def clearCell (screen : ByteMap) (i : Nat) : ByteMap :=
  Function.update (Function.update screen (2 * i) 0x20) (2 * i + 1) 0x07

/-- `rollUp`. -/
def rollUp (s : SCREEN) : SCREEN :=
  let length := 25 * 80
  let screen := (List.range' 80 (length - 80)).foldl rollCell s.screen
  { s with screen := (List.range' (24 * 80) (length - 24 * 80)).foldl clearCell screen }

/-- `backspace`. -/
def backspace (s : SCREEN) : SCREEN :=
  let (cursor, s) := s.getCursor
  if cursor = 0 then s
  else (s.putCell (cursor - 1) 0x20 0x07).moveCursor (cursor - 1)

/-- `print` of a character at a row and a column. -/
def printAt (s : SCREEN) (x y : Nat) (c color : Byte) : SCREEN :=
  if x ≥ 25 ∨ y ≥ 80 then s else s.putCell (x * 80 + y) c color

/-- `print` of a character at the cursor. -/
def printColor (s : SCREEN) (c color : Byte) : SCREEN :=
  if c = 0x0a then
    let (cursor, s) := s.getCursor
    let row := cursor / 80
    if row = 24 then s.rollUp.moveCursor (row * 80) else s.moveCursor ((row + 1) * 80)
  else if c = 0x08 then s.backspace
  else
    let (cursor, s) := s.getCursor
    let s := s.putCell cursor c color
    if cursor + 1 = 25 * 80 then s.rollUp.moveCursor (24 * 80) else s.moveCursor (cursor + 1)

/-- `print` of a character in the default color. -/
def print (s : SCREEN) (c : Byte) : SCREEN := s.printColor c 0x07

/-- `print` of a string, without its NUL; it returns the number of characters. -/
def printStr (s : SCREEN) (str : List Byte) : Nat × SCREEN :=
  ((str.takeWhile (· ≠ 0)).length, (str.takeWhile (· ≠ 0)).foldl print s)

/-! ### Cells -/

/-- A cell: a character and its color. -/
abbrev Cell := Byte × Byte

/-- A cell of `rollUp` and `backspace`. -/
def blank : Cell := (0x20, 0x07)

/-- The cells of the memory. -/
def cells (screen : ByteMap) (i : Nat) : Cell := (screen (2 * i), screen (2 * i + 1))

/-- What `getCursor` reads. -/
def cursor (s : SCREEN) : Nat := (s.registers 0x0e).toNat * 2 ^ 8 + (s.registers 0x0f).toNat

variable {s : SCREEN} {t : Scroll.Tape Cell} {pos : Nat}

theorem getCursor_eq (s : SCREEN) : s.getCursor = (s.cursor, { s with index := 0x0f }) := by
  have hlow := (s.registers 0x0f).isLt
  rw [cursor, Nat.mul_comm, Nat.two_pow_add_eq_or_of_lt hlow, Nat.mul_comm, ← Nat.shiftLeft_eq]
  rfl

@[simp] theorem cursor_index (s : SCREEN) (index : Byte) : { s with index }.cursor = s.cursor := rfl

@[simp] theorem cursor_screen (s : SCREEN) (screen : ByteMap) : { s with screen }.cursor = s.cursor := rfl

theorem moveCursor_registers (h : pos < 80 * 25) : (s.moveCursor pos).registers =
    Function.update (Function.update s.registers 0x0e (BitVec.ofNat 8 ((pos >>> 8) &&& 0xff))) 0x0f
      (BitVec.ofNat 8 (pos &&& 0xff)) := by
  rw [moveCursor, if_neg (Nat.not_le.mpr h)]
  rfl

theorem moveCursor_cursor (h : pos < 80 * 25) : (s.moveCursor pos).cursor = pos := by
  have hhigh : (pos >>> 8) &&& 0xff = pos / 2 ^ 8 % 2 ^ 8 := by
    rw [Nat.shiftRight_eq_div_pow]
    exact Nat.and_two_pow_sub_one_eq_mod _ 8
  have hlow : pos &&& 0xff = pos % 2 ^ 8 := Nat.and_two_pow_sub_one_eq_mod _ 8
  rw [cursor, moveCursor_registers h, hhigh, hlow, Function.update_self, Function.update_of_ne (by decide),
    Function.update_self, BitVec.toNat_ofNat, BitVec.toNat_ofNat]
  omega

theorem moveCursor_screen (s : SCREEN) (pos : Nat) : (s.moveCursor pos).screen = s.screen := by
  unfold moveCursor outPort
  split_ifs <;> rfl

theorem cells_putCell (screen : ByteMap) (pos : Nat) (c color : Byte) :
    cells (Function.update (Function.update screen (2 * pos) c) (2 * pos + 1) color) =
      Function.update (cells screen) pos (c, color) := by
  funext i
  by_cases hi : i = pos
  · subst hi
    rw [Function.update_self, cells, Function.update_self, Function.update_of_ne (by omega),
      Function.update_self]
  · rw [Function.update_of_ne hi, cells, Function.update_of_ne (by omega), Function.update_of_ne (by omega),
      Function.update_of_ne (by omega), Function.update_of_ne (by omega)]
    rfl

/-- Writing a cell of the screen writes nothing behind the screen. -/
theorem putCell_beyond {screen : ByteMap} {c color : Byte} (h : pos < 80 * 25) {j : Nat} (hj : 4000 ≤ j) :
    Function.update (Function.update screen (2 * pos) c) (2 * pos + 1) color j = screen j := by
  rw [Function.update_of_ne (by omega), Function.update_of_ne (by omega)]

theorem cells_rollCell (screen : ByteMap) (i : Nat) :
    cells (rollCell screen i) = Function.update (cells screen) (i - 80) (cells screen i) := by
  rw [rollCell, Function.update_of_ne (by omega : 2 * i + 1 ≠ 2 * (i - 80)), cells_putCell]
  rfl

/-- The first `n` turns of the first loop move `n` cells up by a row. -/
theorem cells_rollLoop (screen : ByteMap) (n : Nat) : ∀ i, cells ((List.range' 80 n).foldl rollCell screen) i =
    if i < n then cells screen (i + 80) else cells screen i := by
  induction n with
  | zero => exact fun i => (if_neg (Nat.not_lt_zero i)).symm
  | succ n ih =>
      intro i
      rw [List.range'_1_concat, List.foldl_append, List.foldl_cons, List.foldl_nil, cells_rollCell]
      by_cases hi : i = n
      · subst hi
        rw [show 80 + i - 80 = i by omega, Function.update_self, ih, if_neg (by omega), if_pos (by omega),
          Nat.add_comm]
      · rw [Function.update_of_ne (by omega), ih]
        by_cases hlt : i < n
        · rw [if_pos hlt, if_pos (by omega)]
        · rw [if_neg hlt, if_neg (by omega)]

/-- The first `n` turns of the second loop clear `n` cells. -/
theorem cells_clearLoop (screen : ByteMap) (lo n : Nat) : ∀ i,
    cells ((List.range' lo n).foldl clearCell screen) i =
      if lo ≤ i ∧ i < lo + n then blank else cells screen i := by
  induction n with
  | zero => exact fun i => (if_neg (by omega)).symm
  | succ n ih =>
      intro i
      rw [List.range'_1_concat, List.foldl_append, List.foldl_cons, List.foldl_nil, clearCell, cells_putCell]
      by_cases hi : i = lo + n
      · rw [hi, Function.update_self, if_pos (by omega)]
        rfl
      · rw [Function.update_of_ne hi, ih]
        by_cases hin : lo ≤ i ∧ i < lo + n
        · rw [if_pos hin, if_pos (by omega)]
        · rw [if_neg hin, if_neg (by omega)]

/-- `rollUp` moves the window on by a row. -/
theorem cells_rollUp (s : SCREEN) {i : Nat} (hi : i < 25 * 80) :
    cells s.rollUp.screen i = Scroll.rolled 80 25 blank (cells s.screen) i := by
  rw [rollUp, Scroll.rolled]
  dsimp only
  rw [cells_clearLoop, cells_rollLoop]
  by_cases hlast : i + 80 < 25 * 80
  · rw [if_neg (by omega), if_pos (by omega), if_pos hlast]
  · rw [if_pos (by omega), if_neg hlast]

theorem byte_eq_cell (screen : ByteMap) (j : Nat) :
    screen j = if j % 2 = 0 then (cells screen (j / 2)).1 else (cells screen (j / 2)).2 := by
  unfold cells
  split_ifs with hj
  · exact congrArg screen (by omega)
  · exact congrArg screen (by omega)

theorem rollUp_beyond {j : Nat} (hj : 4000 ≤ j) : s.rollUp.screen j = s.screen j := by
  have hclear : ¬(24 * 80 ≤ j / 2 ∧ j / 2 < 24 * 80 + (25 * 80 - 24 * 80)) := by omega
  have hroll : ¬j / 2 < 25 * 80 - 80 := by omega
  rw [byte_eq_cell s.rollUp.screen, byte_eq_cell s.screen, rollUp]
  dsimp only
  rw [cells_clearLoop, cells_rollLoop, if_neg hclear, if_neg hroll]

end SCREEN

end SysuOs
