import SysuOs.LineBuffer
import SysuOs.ScreenRun
import SysuOs.VsprintfCount

/-! `printf` from the format to the screen. What `vsprintf_callback` puts out goes character by character to
`printf_buf_puts`, which gathers lines in a buffer of the program and writes them to the standard output, and
`FileManager::write` prints them on the screen that all programs share. -/

namespace SysuOs.Console

/-- The static variables of `printf_buf_puts`. -/
structure Stdio where
  buf : ByteMap
  idx : Nat

/-- `FileManager::write` to a descriptor of the type `STDOUT`. -/
def write (display : SCREEN) (buf : ByteMap) (size : Nat) : Int × SCREEN :=
  if size = 0 then (-1, display)
  else (size, (List.range size).foldl (fun display i => display.print (buf i)) display)

/-- `printf_buf_puts`. -/
def printfBufPuts (fuel : Nat) (s : Stdio) (display : SCREEN) (c : Byte) : Outcome (Stdio × SCREEN) :=
  let buf := Function.update s.buf s.idx c
  let idx := s.idx + 1
  if idx ≥ 64 ∨ c = 0x0a then do
    let buf := Function.update buf idx 0
    let size ← strlen buf fuel 0
    pure (⟨buf, 0⟩, (write display buf size).2)
  else pure (⟨buf, idx⟩, display)

/-- Programs, each with a buffer of its own, and the screen. -/
structure World where
  stdio : Nat → Stdio
  display : SCREEN

/-- A call of `printf`: the program, its strings, the format and the arguments. -/
structure Call where
  program : Nat
  mem : Vsprintf.Memory
  fmt : List Char
  ap : Vsprintf.VaList

/-- A `char`. -/
def byte (c : Char) : Byte := BitVec.ofNat 8 c.toNat

/-- The callback in a program. -/
def World.puts (fuel program : Nat) (w : World) (c : Byte) : Outcome World := do
  let r ← printfBufPuts fuel (w.stdio program) w.display c
  pure ⟨Function.update w.stdio program r.1, r.2⟩

/-- `printf`: the count it returns, and the world. -/
def World.printf (fuel : Nat) (w : World) (call : Call) : Outcome (BitVec 32 × World) :=
  match Vsprintf.vsprintfCallback call.mem (call.fmt ++ ['\x00']) call.ap with
  | none => .halt
  | some printed => do
      let w ← (printed.out.map byte).foldlM (World.puts fuel call.program) w
      pure (printed.counter, w)

/-- Calls of any programs, one after another. -/
def World.run (fuel : Nat) : World → List Call → Outcome World
  | w, [] => .ret w
  | w, call :: calls => w.printf fuel call >>= fun r => r.2.run fuel calls

/-- What waits in the buffer. -/
def Stdio.held (s : Stdio) : List Byte := (List.range s.idx).map s.buf

/-- What a call puts out. -/
def Call.output (call : Call) : List Byte :=
  ((Vsprintf.vsprintfCallback call.mem (call.fmt ++ ['\x00']) call.ap).map fun r => r.out.map byte).getD []

/-- The part of a piece that is written: `write` takes its length from the NUL. -/
def cut (piece : List Byte) : List Byte := piece.takeWhile (· ≠ 0)

/-- The buffer is not full and holds no newline. -/
abbrev Waits (s : Stdio) : Prop := LineBuffer.Held 64 (· = (0x0a : Byte)) s.held

section Puts

variable {s : Stdio} {display : SCREEN} {ptr : ByteMap} {fuel n program : Nat} {c : Byte} {w : World}

/-- The loop stops at the first NUL. -/
theorem strlen_eq (hzero : ptr n = 0) (hfuel : n < fuel) :
    strlen ptr fuel 0 = .ret (cut ((List.range n).map ptr)).length := by
  have hloop : ∀ m k, k + m = n → ∀ fuel, m < fuel →
      strlen ptr fuel k = .ret (k + (cut ((List.range' k m).map ptr)).length) := by
    intro m
    induction m with
    | zero =>
        intro k hk fuel hfuel
        obtain ⟨fuel, rfl⟩ := Nat.exists_eq_succ_of_ne_zero (by omega : fuel ≠ 0)
        obtain rfl : k = n := by omega
        rw [strlen, if_neg (show ¬ptr k ≠ 0#8 from not_not.mpr hzero)]
        rfl
    | succ m ih =>
        intro k hk fuel hfuel
        obtain ⟨fuel, rfl⟩ := Nat.exists_eq_succ_of_ne_zero (by omega : fuel ≠ 0)
        rw [strlen, List.range'_succ, List.map_cons, cut, List.takeWhile_cons]
        by_cases hk0 : ptr k = 0#8
        · rw [if_neg (not_not.mpr hk0), if_neg (by simpa using hk0)]
          rfl
        · rw [if_pos hk0, if_pos (by simpa using hk0), ih (k + 1) (by omega) fuel (by omega), List.length_cons,
            cut]
          congr 1
          omega
  rw [hloop n 0 (Nat.zero_add n) fuel hfuel, Nat.zero_add, ← List.range_eq_range']

/-- What is printed is the string before the NUL. -/
theorem write_eq (display : SCREEN) (ptr : ByteMap) (n : Nat) :
    (write display ptr (cut ((List.range n).map ptr)).length).2 =
      (cut ((List.range n).map ptr)).foldl SCREEN.print display := by
  obtain ⟨rest, hrest⟩ : cut ((List.range n).map ptr) <+: (List.range n).map ptr := List.takeWhile_prefix _
  generalize cut ((List.range n).map ptr) = str at hrest
  have hlength := congrArg List.length hrest
  rw [List.length_append, List.length_map, List.length_range] at hlength
  have hstr : (List.range str.length).map ptr = str := by
    have htake := congrArg (List.take str.length) hrest
    rw [List.take_left, ← List.map_take, List.take_range, Nat.min_eq_left (by omega)] at htake
    exact htake.symm
  rw [write]
  split_ifs with hzero
  · rw [List.length_eq_zero_iff.mp hzero]
    rfl
  · dsimp only
    rw [← List.foldl_map (f := ptr) (g := SCREEN.print), hstr]

theorem held_update (s : Stdio) (c : Byte) :
    Stdio.held ⟨Function.update s.buf s.idx c, s.idx + 1⟩ = s.held ++ [c] := by
  have hbelow : ∀ i ∈ List.range s.idx, Function.update s.buf s.idx c i = s.buf i := fun i hi =>
    Function.update_of_ne (List.mem_range.mp hi).ne _ _
  show (List.range (s.idx + 1)).map (Function.update s.buf s.idx c) = _
  rw [List.range_succ, List.map_append, List.map_congr_left hbelow, List.map_singleton, Function.update_self]
  rfl

/-- A character comes in: the buffer is given away or goes on to wait. -/
theorem printfBufPuts_eq (h : Waits s) (hfuel : 64 < fuel) : ∃ s',
    s'.held = (if s.held.length + 1 ≥ 64 ∨ c = 0x0a then [] else s.held ++ [c]) ∧
    printfBufPuts fuel s display c = .ret (s', if s.held.length + 1 ≥ 64 ∨ c = 0x0a
      then (cut (s.held ++ [c])).foldl SCREEN.print display else display) := by
  have hlength : s.held.length = s.idx := by rw [Stdio.held, List.length_map, List.length_range]
  have hidx := h.length
  rw [hlength] at hidx ⊢
  rw [printfBufPuts]
  dsimp only
  split_ifs with hgive
  · -- the buffer with its NUL
    have hheld : (List.range (s.idx + 1)).map (Function.update (Function.update s.buf s.idx c) (s.idx + 1) 0) =
        s.held ++ [c] := by
      rw [← held_update, Stdio.held]
      exact List.map_congr_left fun i hi => Function.update_of_ne (List.mem_range.mp hi).ne _ _
    refine ⟨⟨Function.update (Function.update s.buf s.idx c) (s.idx + 1) 0, 0⟩, rfl, ?_⟩
    rw [strlen_eq (Function.update_self _ _ _) (by omega : s.idx + 1 < fuel), Outcome.ret_bind, write_eq, hheld]
    rfl
  · exact ⟨_, held_update s c, rfl⟩

/-- The characters of a call come in. -/
theorem puts_all (hfuel : 64 < fuel) (out : List Byte) (h : Waits (w.stdio program)) :
    ∃ w', out.foldlM (World.puts fuel program) w = .ret w' ∧
      (w'.stdio program).held = (LineBuffer.feed 64 (· = (0x0a : Byte)) (w.stdio program).held out).2 ∧
      (∀ q, q ≠ program → w'.stdio q = w.stdio q) ∧
      w'.display = ((LineBuffer.feed 64 (· = (0x0a : Byte)) (w.stdio program).held out).1.flatMap cut).foldl
        SCREEN.print w.display := by
  induction out generalizing w with
  | nil => exact ⟨w, rfl, rfl, fun _ _ => rfl, rfl⟩
  | cons c out ih =>
      obtain ⟨s', hheld, hputs⟩ := @printfBufPuts_eq (w.stdio program) w.display fuel c h hfuel
      generalize hdisplay₁ : (if (w.stdio program).held.length + 1 ≥ 64 ∨ c = 0x0a
        then (cut ((w.stdio program).held ++ [c])).foldl SCREEN.print w.display else w.display) = display₁
        at hputs
      have hstep : w.puts fuel program c = .ret ⟨Function.update w.stdio program s', display₁⟩ := by
        rw [World.puts, hputs]
        rfl
      have hself : (Function.update w.stdio program s') program = s' := Function.update_self _ _ _
      have hwaits : Waits s' := by
        rw [Waits, hheld]
        split_ifs with hgive
        · exact ⟨by decide, by simp⟩
        · exact h.snoc hgive
      rw [List.foldlM_cons, hstep, Outcome.ret_bind]
      obtain ⟨w', hall, hheld', hother, hdisplay⟩ := @ih ⟨Function.update w.stdio program s', display₁⟩
        (by dsimp only; rw [hself]; exact hwaits)
      dsimp only at hheld' hother hdisplay
      rw [hself] at hheld' hdisplay
      refine ⟨w', hall, ?_, fun q hq => (hother q hq).trans (Function.update_of_ne hq _ _), ?_⟩
      · rw [hheld', hheld, LineBuffer.feed]
        split_ifs <;> rfl
      · rw [hdisplay, hheld, ← hdisplay₁, LineBuffer.feed]
        split_ifs
        · rw [List.flatMap_cons, List.foldl_append]
        · rfl

end Puts

/-! ### Runs -/

/-- The pieces that a run has written, each with its program, account for everything that has been put out. -/
structure Written (w w' : World) (calls : List Call) (pieces : List (Nat × List Byte)) : Prop where
  account : ∀ p, ((pieces.filter (·.1 = p)).flatMap (·.2)) ++ (w'.stdio p).held =
    (w.stdio p).held ++ (calls.filter (·.program = p)).flatMap Call.output
  piece : ∀ x ∈ pieces, LineBuffer.Piece 64 (· = (0x0a : Byte)) x.2
  waits : ∀ p, Waits (w'.stdio p)
  display : w'.display = (pieces.flatMap fun x => cut x.2).foldl SCREEN.print w.display

section Run

variable {w w' w'' : World} {calls calls' : List Call} {pieces pieces' : List (Nat × List Byte)} {fuel : Nat}

theorem Written.append (h : Written w w' calls pieces) (h' : Written w' w'' calls' pieces') :
    Written w w'' (calls ++ calls') (pieces ++ pieces') := by
  refine ⟨fun p => ?_, fun x hx => ?_, h'.waits, ?_⟩
  · rw [List.filter_append, List.flatMap_append, List.append_assoc, h'.account, ← List.append_assoc, h.account,
      List.filter_append, List.flatMap_append, List.append_assoc]
  · exact (List.mem_append.mp hx).elim (h.piece x) (h'.piece x)
  · rw [h'.display, h.display, List.flatMap_append, List.foldl_append]

/-- A format that ends in its NUL is printed. -/
theorem vsprintfCallback_returns (mem : Vsprintf.Memory) {fmt : List Char} (hfmt : '\x00' ∉ fmt)
    (ap : Vsprintf.VaList) : ∃ r, Vsprintf.vsprintfCallback mem (fmt ++ ['\x00']) ap = some r := by
  obtain ⟨turns, hscan, hturns⟩ := Vsprintf.scan_inside hfmt (Nat.zero_le fmt.length)
  obtain ⟨r, hr⟩ := Vsprintf.printTurns_some mem hturns.specifier 0 ap []
  refine ⟨r, ?_⟩
  rw [Vsprintf.vsprintfCallback, Vsprintf.vsprintfLoop_eq, hscan]
  exact hr

/-- One call. -/
theorem printf_written (hfuel : 64 < fuel) (hwaits : ∀ p, Waits (w.stdio p)) {call : Call}
    (hfmt : '\x00' ∉ call.fmt) :
    ∃ n w' pieces, w.printf fuel call = .ret (n, w') ∧ Written w w' [call] pieces := by
  obtain ⟨printed, hprinted⟩ := vsprintfCallback_returns call.mem hfmt call.ap
  have houtput : call.output = printed.out.map byte := by rw [Call.output, hprinted]; rfl
  obtain ⟨w', hall, hheld, hother, hdisplay⟩ := puts_all hfuel call.output (hwaits call.program)
  have hflatten := @LineBuffer.feed_flatten _ 64 (· = (0x0a : Byte)) _ (w.stdio call.program).held call.output
  have hpieces := @LineBuffer.feed_pieces _ 64 (· = (0x0a : Byte)) _ _ call.output (by decide)
    (hwaits call.program)
  have hleft := @LineBuffer.feed_held _ 64 (· = (0x0a : Byte)) _ _ call.output (by decide) (hwaits call.program)
  generalize LineBuffer.feed 64 (· = (0x0a : Byte)) (w.stdio call.program).held call.output = fed at *
  refine ⟨printed.counter, w', fed.1.map (call.program, ·), ?_, fun p => ?_, fun x hx => ?_, fun p => ?_, ?_⟩
  · rw [World.printf, hprinted]
    dsimp only
    rw [← houtput, hall]
    rfl
  · by_cases hp : call.program = p
    · subst hp
      have hall : ∀ x ∈ fed.1.map (call.program, ·), decide (x.1 = call.program) = true := by
        intro x hx
        obtain ⟨piece, -, rfl⟩ := List.mem_map.mp hx
        exact decide_eq_true rfl
      have hcall : [call].filter (fun c => decide (c.program = call.program)) = [call] :=
        List.filter_eq_self.mpr fun c hc => by rw [List.mem_singleton.mp hc]; exact decide_eq_true rfl
      rw [List.filter_eq_self.mpr hall, List.flatMap_map, hheld, hcall, List.flatMap_singleton, ← hflatten,
        List.flatten_eq_flatMap]
      rfl
    · have hnone : ∀ x ∈ fed.1.map (call.program, ·), ¬decide (x.1 = p) = true := by
        intro x hx
        obtain ⟨piece, -, rfl⟩ := List.mem_map.mp hx
        simpa using hp
      rw [List.filter_eq_nil_iff.mpr hnone, hother p (Ne.symm hp),
        List.filter_cons_of_neg (by simpa using hp), List.filter_nil, List.flatMap_nil, List.flatMap_nil,
        List.nil_append, List.append_nil]
  · obtain ⟨piece, hpiece, rfl⟩ := List.mem_map.mp hx
    exact hpieces piece hpiece
  · by_cases hp : p = call.program
    · rw [hp, Waits, hheld]
      exact hleft
    · rw [hother p hp]
      exact hwaits p
  · rw [hdisplay, List.flatMap_map]

theorem run_written (hfuel : 64 < fuel) (hwaits : ∀ p, Waits (w.stdio p)) (calls : List Call)
    (hfmt : ∀ call ∈ calls, '\x00' ∉ call.fmt) :
    ∃ w' pieces, w.run fuel calls = .ret w' ∧ Written w w' calls pieces := by
  induction calls generalizing w with
  | nil => exact ⟨w, [], rfl, fun p => by simp, by simp, hwaits, rfl⟩
  | cons call calls ih =>
      obtain ⟨n, w₁, pieces₁, hcall, hwritten⟩ := printf_written hfuel hwaits (hfmt call List.mem_cons_self)
      obtain ⟨w', pieces', hrun, hwritten'⟩ := ih hwritten.waits fun c hc => hfmt c (List.mem_cons_of_mem _ hc)
      refine ⟨w', pieces₁ ++ pieces', ?_, hwritten.append hwritten'⟩
      rw [World.run, hcall]
      exact hrun

/-- A piece without a NUL is written whole. -/
theorem cut_eq {piece : List Byte} (h : (0 : Byte) ∉ piece) : cut piece = piece := by
  refine List.takeWhile_eq_self_iff.mpr fun c hc => ?_
  have hne : c ≠ 0 := fun hzero => h (hzero ▸ hc)
  simpa using hne

theorem Written.no_nul (h : Written w w' calls pieces) (hheld : ∀ p, (0 : Byte) ∉ (w.stdio p).held)
    (houtput : ∀ call ∈ calls, (0 : Byte) ∉ call.output) : ∀ x ∈ pieces, (0 : Byte) ∉ x.2 := by
  intro x hx hzero
  have hmem : (0 : Byte) ∈ (w.stdio x.1).held ++ (calls.filter (·.program = x.1)).flatMap Call.output := by
    rw [← h.account x.1]
    refine List.mem_append_left _ (List.mem_flatMap.mpr ⟨x, List.mem_filter.mpr ⟨hx, by simp⟩, hzero⟩)
  rcases List.mem_append.mp hmem with hmem | hmem
  · exact hheld _ hmem
  · obtain ⟨call, hcall, hzero⟩ := List.mem_flatMap.mp hmem
    exact houtput call (List.mem_of_mem_filter hcall) hzero

end Run

/-- Whatever programs call `printf` in whatever order, every call returns, the screen shows the tape with the
pieces written one after another, and for each program its pieces and what waits in its buffer are what it has
put out, in order. A piece ends a line or has 64 characters, and it is written whole unless a NUL is printed. -/
theorem printf_displays {w : World} {fuel : Nat} (hfuel : 64 < fuel) (hcursor : w.display.cursor < 80 * 25)
    (hwaits : ∀ p, Waits (w.stdio p)) (calls : List Call) (hfmt : ∀ call ∈ calls, '\x00' ∉ call.fmt) :
    ∃ w' pieces, w.run fuel calls = .ret w' ∧ Written w w' calls pieces ∧
      SCREEN.Displays w'.display ((pieces.flatMap fun x => cut x.2).foldl
        (fun t c => SCREEN.write t c 0x07) w.display.tape) ∧
      ((∀ p, (0 : Byte) ∉ (w.stdio p).held) → (∀ call ∈ calls, (0 : Byte) ∉ call.output) →
        ∀ x ∈ pieces, cut x.2 = x.2) := by
  obtain ⟨w', pieces, hrun, hwritten⟩ := run_written hfuel hwaits calls hfmt
  refine ⟨w', pieces, hrun, hwritten, ?_, fun hheld houtput x hx => ?_⟩
  · rw [hwritten.display]
    have hdisplays := SCREEN.displays_tape hcursor
    generalize w.display.tape = t at hdisplays ⊢
    generalize w.display = d at hdisplays ⊢
    induction pieces.flatMap fun x => cut x.2 generalizing t d with
    | nil => exact hdisplays
    | cons c text ih => exact ih _ _ (hdisplays.printColor c 0x07)
  · exact cut_eq (hwritten.no_nul hheld houtput x hx)

/-- Nobody has printed yet. -/
def boot : World where
  stdio := fun _ => ⟨fun _ => 0, 0⟩
  display := SCREEN.cleared

/-- A call without arguments. -/
def plain (program : Nat) (fmt : List Char) : Call where
  program := program
  mem := Vsprintf.clearMemory
  fmt := fmt
  ap := Stream'.const 0

theorem printf_displays_two : ∃ w', ∃ pieces : List (Nat × List Byte),
    boot.run 65 [plain 1 ['h', 'i'], plain 2 ['o', 'k', '\n']] = .ret w' ∧
      SCREEN.Displays w'.display ((pieces.flatMap fun x => cut x.2).foldl
        (fun t c => SCREEN.write t c 0x07) SCREEN.cleared.tape) := by
  have hwaits : ∀ p, Waits (boot.stdio p) := by
    intro p
    refine ⟨(by decide : 0 < 64), fun a ha => ?_⟩
    cases ha
  have hfmt : ∀ call ∈ [plain 1 ['h', 'i'], plain 2 ['o', 'k', '\n']], '\x00' ∉ call.fmt := by
    simp [plain]
  obtain ⟨w', pieces, hrun, -, hdisplays, -⟩ :=
    printf_displays (by decide : 64 < 65) (by decide : boot.display.cursor < 80 * 25) hwaits _ hfmt
  exact ⟨w', pieces, hrun, hdisplays⟩

end SysuOs.Console
