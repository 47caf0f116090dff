import SysuOs.RingBuffer

/-! The keyboard: interrupts put decoded characters in a buffer, and `read` takes them out one by one with
interrupts off and edits its line. Between two turns of a `read` anything else may happen: interrupts, and
the turns of other programs' reads. -/

namespace SysuOs.Keyboard

/-- `KEYBOARD_BUFFER_SIZE`. -/
def bufferSize : ℤ := 256

/-- `keymap`, without the zeros at its end. -/
def keymap : List Char := [
  '\x00', '\x00', '1', '2', '3', '4', '5', '6', '7', '8', '9', '0', '-', '=', '\x08',
  '\t', 'q', 'w', 'e', 'r', 't', 'y', 'u', 'i', 'o', 'p', '[', ']', '\n', '\x00',
  'a', 's', 'd', 'f', 'g', 'h', 'j', 'k', 'l', ';', '\'', '`', '\x00', '\\',
  'z', 'x', 'c', 'v', 'b', 'n', 'm', ',', '.', '/', '\x00', '*', '\x00', ' ']

/-- `shift_keymap`, without the zeros at its end. -/
def shiftKeymap : List Char := [
  '\x00', '\x00', '!', '@', '#', '$', '%', '^', '&', '*', '(', ')', '_', '+', '\x08',
  '\t', 'Q', 'W', 'E', 'R', 'T', 'Y', 'U', 'I', 'O', 'P', '\x7b', '\x7d', '\n', '\x00',
  'A', 'S', 'D', 'F', 'G', 'H', 'J', 'K', 'L', ':', '"', '~', '\x00', '|',
  'Z', 'X', 'C', 'V', 'B', 'N', 'M', '<', '>', '?', '\x00', '*', '\x00', ' ']

/-- `sizeof(keymap)`. -/
def keymapSize : ℕ := 128

/-- `KeyboardManager`; its `buffer`, `head`, `tail` and `count` are a ring buffer. -/
structure KeyboardManager extends RingBuffer Char where
  shift : Bool

namespace KeyboardManager

/-- `initialize`, which leaves the buffer as it is. -/
def init (buffer : ℤ → Char) : KeyboardManager := ⟨⟨buffer, 0, 0, 0⟩, false⟩

/-- `push`. -/
def push (k : KeyboardManager) (c : Char) : KeyboardManager :=
  { k with toRingBuffer := k.toRingBuffer.push bufferSize c }

/-- `pop`. -/
def pop (k : KeyboardManager) : Option Char × KeyboardManager :=
  ((k.toRingBuffer.pop bufferSize).1, { k with toRingBuffer := (k.toRingBuffer.pop bufferSize).2 })

/-- `decode`. -/
def decode (k : KeyboardManager) (scancode : BitVec 8) : Char :=
  if scancode.toNat ≥ keymapSize then '\x00'
  else if k.shift then shiftKeymap.getD scancode.toNat '\x00'
  else keymap.getD scancode.toNat '\x00'

/-- What `handleScancode` makes of a scancode: a shift key, the character to push, or nothing. -/
inductive Key where
  | shift (down : Bool)
  | char (c : Char)
  | none

/-- `handleScancode` up to its effect. -/
def key (k : KeyboardManager) (scancode : BitVec 8) : Key :=
  let released := scancode &&& 0x80 ≠ 0
  let code := scancode &&& 0x7f
  if code = 0x2a ∨ code = 0x36 then .shift (decide ¬released)
  else if released then .none
  else
    let c := k.decode code
    if c ≠ '\x00' then .char c else .none

/-- `handleScancode`. -/
def handleScancode (k : KeyboardManager) (scancode : BitVec 8) : KeyboardManager :=
  match k.key scancode with
  | .shift down => { k with shift := down }
  | .char c => k.push c
  | .none => k

end KeyboardManager

/-! ### `read` -/

/-- A call of `read` in its loop. -/
structure Reader where
  buf : ℤ → Char
  size : ℤ
  n : ℤ

/-- Where a turn of the loop leads: to the next turn, or out of the loop. -/
inductive Turn where
  | again (r : Reader)
  | done (r : Reader)

/-- The test of the loop, after a `continue` or at its end. -/
def Reader.test (r : Reader) : Turn := if r.n < r.size then .again r else .done r

/-- A turn of the loop with what `pop` answered. -/
def Reader.turn (r : Reader) : Option Char → Turn
  | none => r.test
  | some c =>
    if c = '\x08' then
      if r.n > 0 then Reader.test { r with n := r.n - 1 } else r.test
    else
      let r : Reader := { r with buf := Function.update r.buf r.n c, n := r.n + 1 }
      if c = '\n' then .done r else r.test

/-- `read` before its loop; `none` is a null buffer. It returns at once, or it goes to the loop. -/
def beginRead (buf : Option (ℤ → Char)) (size : ℤ) : ℤ ⊕ Reader :=
  match buf with
  | none => .inl (-1)
  | some buf => if size ≤ 0 then .inl (-1) else .inr ⟨buf, size, 0⟩

/-! ### The machine -/

/-- A call of `read` with the buffer it was given and the characters it has popped. -/
structure Call extends Reader where
  given : ℤ → Char
  got : List Char

/-- The keyboard and the calls of `read` that are in their loop, one a program. The logs are the characters
that found room, those that were popped, and the calls that have returned. -/
structure World (ι : Type) where
  keyboard : KeyboardManager
  calls : ι → Option Call
  accepted : List Char
  popped : List Char
  returned : List Call

/-- What may happen next. -/
inductive Event (ι : Type) where
  | interrupt (scancode : BitVec 8)
  | call (i : ι) (buf : Option (ℤ → Char)) (size : ℤ)
  | turn (i : ι)

namespace World

variable {ι : Type} [DecidableEq ι]

/-- The character of an interrupt that finds fewer than `KEYBOARD_BUFFER_SIZE` characters queued. -/
def accepts (k : KeyboardManager) (scancode : BitVec 8) : List Char :=
  match k.key scancode with
  | .char c => if k.count < bufferSize then [c] else []
  | _ => []

/-- A program that is in a `read` cannot call another; one that is in none has no turn. -/
def step (w : World ι) : Event ι → World ι
  | .interrupt scancode =>
    { w with
      keyboard := w.keyboard.handleScancode scancode
      accepted := w.accepted ++ accepts w.keyboard scancode }
  | .call i buf size =>
    match w.calls i with
    | some _ => w
    | none =>
      match beginRead buf size with
      | .inl _ => w
      | .inr r => { w with calls := Function.update w.calls i (some ⟨r, r.buf, []⟩) }
  | .turn i =>
    match w.calls i with
    | none => w
    | some c =>
      let (answer, keyboard) := w.keyboard.pop
      let got := c.got ++ answer.toList
      let w := { w with keyboard := keyboard, popped := w.popped ++ answer.toList }
      match c.toReader.turn answer with
      | .again r => { w with calls := Function.update w.calls i (some ⟨r, c.given, got⟩) }
      | .done r =>
        { w with
          calls := Function.update w.calls i none
          returned := w.returned ++ [⟨r, c.given, got⟩] }

/-- The machine after the boot. -/
def boot (buffer : ℤ → Char) : World ι where
  keyboard := .init buffer
  calls := fun _ => none
  accepted := []
  popped := []
  returned := []

def run (w : World ι) (events : List (Event ι)) : World ι := events.foldl step w

end World

/-! ### Editing -/

/-- A line with its backspaces carried out. -/
def edit (s : List Char) : List Char :=
  s.foldl (fun kept c => if c = '\x08' then kept.dropLast else kept ++ [c]) []

/-- The content of a `read`: the first `n` bytes of its buffer. -/
def Reader.content (r : Reader) : List Char := (List.range r.n.toNat).map fun k : ℕ => r.buf k

theorem edit_append (s : List Char) (c : Char) :
    edit (s ++ [c]) = if c = '\x08' then (edit s).dropLast else edit s ++ [c] := by
  rw [edit, List.foldl_append]
  rfl

namespace Reader

variable {r : Reader}

theorem content_backspace (h : 0 < r.n) : content { r with n := r.n - 1 } = r.content.dropLast := by
  have hnat : r.n.toNat = (r.n - 1).toNat + 1 := by omega
  simp only [content, hnat, List.range_succ, List.map_append, List.map_cons, List.map_nil, List.dropLast_concat]

theorem content_store (h : 0 ≤ r.n) (c : Char) :
    content { r with buf := Function.update r.buf r.n c, n := r.n + 1 } = r.content ++ [c] := by
  have hnat : (r.n + 1).toNat = r.n.toNat + 1 := by omega
  simp only [content, hnat, List.range_succ, List.map_append, List.map_cons, List.map_nil]
  congr 1
  · refine List.map_congr_left fun k hk => Function.update_of_ne ?_ ..
    have := List.mem_range.mp hk
    omega
  · rw [Int.toNat_of_nonneg h, Function.update_self]

end Reader

/-- A call has kept the edited content of what it popped, in its buffer alone. -/
structure Call.Edits (c : Call) : Prop where
  nonneg : 0 ≤ c.n
  le_size : c.n ≤ c.size
  content : c.toReader.content = edit c.got
  frame : ∀ k, k < 0 ∨ c.size ≤ k → c.buf k = c.given k

/-- What a turn leaves, whether the loop goes on or not. -/
theorem Call.Edits.turn {c : Call} (h : c.Edits) (hn : c.n < c.size) (answer : Option Char) :
    (∃ r, c.toReader.turn answer = .again r ∧ r.n < r.size ∧
      Call.Edits ⟨r, c.given, c.got ++ answer.toList⟩) ∨
    ∃ r, c.toReader.turn answer = .done r ∧ Call.Edits ⟨r, c.given, c.got ++ answer.toList⟩ := by
  have htest : ∀ r : Reader, Call.Edits ⟨r, c.given, c.got ++ answer.toList⟩ →
      (∃ r', r.test = .again r' ∧ r'.n < r'.size ∧ Call.Edits ⟨r', c.given, c.got ++ answer.toList⟩) ∨
      ∃ r', r.test = .done r' ∧ Call.Edits ⟨r', c.given, c.got ++ answer.toList⟩ := by
    intro r hr
    by_cases hlt : r.n < r.size
    · exact .inl ⟨r, if_pos hlt, hlt, hr⟩
    · exact .inr ⟨r, if_neg hlt, hr⟩
  cases answer with
  | none =>
    refine htest c.toReader ⟨h.nonneg, h.le_size, ?_, h.frame⟩
    rw [Option.toList_none, List.append_nil]
    exact h.content
  | some d =>
    have hgot : edit (c.got ++ (some d).toList) =
        if d = '\x08' then (edit c.got).dropLast else edit c.got ++ [d] :=
      edit_append c.got d
    rw [Reader.turn]
    by_cases hd : d = '\x08'
    · rw [if_pos hd] at hgot ⊢
      by_cases hpos : c.n > 0
      · rw [if_pos hpos]
        refine htest _ ⟨?_, ?_, ?_, h.frame⟩
        · exact Int.le_sub_one_of_lt hpos
        · exact (Int.sub_le_self _ Int.one_nonneg).trans h.le_size
        · rw [hgot, ← h.content]
          exact Reader.content_backspace hpos
      · rw [if_neg hpos]
        have hzero : c.n = 0 := le_antisymm (Int.not_lt.mp hpos) h.nonneg
        have hempty : edit c.got = [] := by
          rw [← h.content, Reader.content, hzero]
          rfl
        refine htest c.toReader ⟨h.nonneg, h.le_size, ?_, h.frame⟩
        rw [hgot, hempty, h.content, hempty]
        rfl
    · rw [if_neg hd] at hgot ⊢
      have hstored : Call.Edits ⟨⟨Function.update c.buf c.n d, c.size, c.n + 1⟩, c.given,
          c.got ++ (some d).toList⟩ := by
        refine ⟨Int.add_nonneg h.nonneg Int.one_nonneg, hn, ?_, fun k hk => ?_⟩
        · rw [hgot, ← h.content]
          exact Reader.content_store h.nonneg d
        · have := h.nonneg
          have hne : k ≠ c.n := by
            change k < 0 ∨ c.size ≤ k at hk
            omega
          exact (Function.update_of_ne hne ..).trans (h.frame k hk)
      dsimp only
      by_cases hnl : d = '\n'
      · rw [if_pos hnl]
        exact .inr ⟨_, rfl, hstored⟩
      · rw [if_neg hnl]
        exact htest _ hstored

/-! ### The run -/

namespace World

variable {ι : Type} [DecidableEq ι] {w : World ι}

/-- The keyboard is a queue: what was accepted is what was popped and what is queued. Each call of `read`
edits what it popped. -/
structure Sound (w : World ι) : Prop where
  wellFormed : w.keyboard.WellFormed bufferSize
  fifo : w.accepted = w.popped ++ w.keyboard.contents bufferSize
  active : ∀ i c, w.calls i = some c → c.Edits ∧ c.n < c.size
  returned : ∀ c, c ∈ w.returned → c.Edits

omit [DecidableEq ι] in
theorem boot_sound (buffer : ℤ → Char) : (boot buffer : World ι).Sound where
  wellFormed := ⟨le_rfl, (by decide : (0 : ℤ) ≤ 256), le_rfl, (by decide : (0 : ℤ) < 256), rfl⟩
  fifo := rfl
  active := by
    rintro i c ⟨⟩
  returned := by
    intro c hc
    cases hc

/-- An interrupt changes the queue by what it accepts. -/
theorem handleScancode_spec {k : KeyboardManager} (h : k.WellFormed bufferSize) (scancode : BitVec 8) :
    (k.handleScancode scancode).WellFormed bufferSize ∧
      (k.handleScancode scancode).contents bufferSize = k.contents bufferSize ++ accepts k scancode := by
  rw [KeyboardManager.handleScancode, accepts]
  cases k.key scancode with
  | shift down => exact ⟨h, (List.append_nil _).symm⟩
  | none => exact ⟨h, (List.append_nil _).symm⟩
  | char c =>
    refine ⟨RingBuffer.push_wellFormed h c, ?_⟩
    by_cases hroom : k.count < bufferSize
    · simp only [if_pos hroom]
      exact RingBuffer.contents_push h hroom c
    · simp only [if_neg hroom, List.append_nil]
      exact congrArg (RingBuffer.contents bufferSize) (RingBuffer.push_full c (Int.not_lt.mp hroom))

/-- A pop takes its answer off the queue. -/
theorem pop_spec {k : KeyboardManager} (h : k.WellFormed bufferSize) :
    k.pop.2.WellFormed bufferSize ∧ k.contents bufferSize = k.pop.1.toList ++ k.pop.2.contents bufferSize := by
  refine ⟨RingBuffer.pop_wellFormed h, ?_⟩
  rw [KeyboardManager.pop]
  by_cases hsome : 0 < k.count
  · obtain ⟨a, ha, hcontents⟩ := RingBuffer.contents_pop h hsome
    rw [ha, hcontents]
    rfl
  · rw [RingBuffer.pop_empty (Int.not_lt.mp hsome)]
    rfl

theorem Sound.interrupt (h : w.Sound) (scancode : BitVec 8) : (w.step (.interrupt scancode)).Sound := by
  obtain ⟨hwf, hcontents⟩ := handleScancode_spec h.wellFormed scancode
  refine ⟨hwf, ?_, h.active, h.returned⟩
  calc w.accepted ++ accepts w.keyboard scancode
      = w.popped ++ (w.keyboard.contents bufferSize ++ accepts w.keyboard scancode) := by
        rw [← List.append_assoc, ← h.fifo]
    _ = w.popped ++ (w.keyboard.handleScancode scancode).contents bufferSize := by rw [hcontents]

/-- A call that goes to the loop has kept nothing, and has room. -/
theorem beginRead_edits {buf : Option (ℤ → Char)} {size : ℤ} {r : Reader} (h : beginRead buf size = .inr r) :
    Call.Edits ⟨r, r.buf, []⟩ ∧ r.n < r.size := by
  cases buf with
  | none => cases h
  | some given =>
    change (if size ≤ 0 then .inl (-1) else .inr ⟨given, size, 0⟩) = (.inr r : ℤ ⊕ Reader) at h
    by_cases hsize : size ≤ 0
    · rw [if_pos hsize] at h
      cases h
    · rw [if_neg hsize] at h
      obtain rfl := Sum.inr.inj h
      have hpos : 0 < size := Int.not_le.mp hsize
      exact ⟨⟨le_rfl, hpos.le, rfl, fun _ _ => rfl⟩, hpos⟩

theorem Sound.call (h : w.Sound) (i : ι) (buf : Option (ℤ → Char)) (size : ℤ) :
    (w.step (.call i buf size)).Sound := by
  unfold step
  cases hcall : w.calls i with
  | some c =>
    dsimp only
    rw [hcall]
    exact h
  | none =>
    dsimp only
    rw [hcall]
    cases hbegin : beginRead buf size with
    | inl answer => exact h
    | inr r =>
      refine ⟨h.wellFormed, h.fifo, fun j c hc => ?_, h.returned⟩
      dsimp only at hc
      by_cases hj : j = i
      · rw [hj, Function.update_self] at hc
        obtain rfl := Option.some.inj hc
        exact beginRead_edits hbegin
      · rw [Function.update_of_ne hj] at hc
        exact h.active j c hc

theorem Sound.turn (h : w.Sound) (i : ι) : (w.step (.turn i)).Sound := by
  unfold step
  cases hcall : w.calls i with
  | none =>
    dsimp only
    rw [hcall]
    exact h
  | some c =>
    dsimp only
    rw [hcall]
    obtain ⟨hedits, hn⟩ := h.active i c hcall
    obtain ⟨hwf, hcontents⟩ := pop_spec h.wellFormed
    have hfifo : w.accepted =
        (w.popped ++ w.keyboard.pop.1.toList) ++ w.keyboard.pop.2.contents bufferSize := by
      rw [h.fifo, hcontents, List.append_assoc]
    dsimp only
    rcases hedits.turn hn w.keyboard.pop.1 with ⟨r, hturn, hr, hedits'⟩ | ⟨r, hturn, hedits'⟩
    · rw [hturn]
      refine ⟨hwf, hfifo, fun j d hd => ?_, h.returned⟩
      dsimp only at hd
      by_cases hj : j = i
      · rw [hj, Function.update_self] at hd
        obtain rfl := Option.some.inj hd
        exact ⟨hedits', hr⟩
      · rw [Function.update_of_ne hj] at hd
        exact h.active j d hd
    · rw [hturn]
      refine ⟨hwf, hfifo, fun j d hd => ?_, fun d hd => ?_⟩
      · dsimp only at hd
        by_cases hj : j = i
        · rw [hj, Function.update_self] at hd
          cases hd
        · rw [Function.update_of_ne hj] at hd
          exact h.active j d hd
      · rcases List.mem_append.mp hd with hd | hd
        · exact h.returned d hd
        · obtain rfl := List.mem_singleton.mp hd
          exact hedits'

theorem Sound.run (h : w.Sound) (events : List (Event ι)) : (w.run events).Sound := by
  induction events generalizing w with
  | nil => exact h
  | cons e events ih =>
    cases e with
    | interrupt scancode => exact ih (h.interrupt scancode)
    | call i buf size => exact ih (h.call i buf size)
    | turn i => exact ih (h.turn i)

/-- In every interleaving of interrupts and reads the keyboard is a bounded queue, and what a `read`
returns is the edited line of the characters it popped. -/
theorem keyboard_fifo (buffer : ℤ → Char) (events : List (Event ι)) :
    let w := run (boot buffer) events
    (0 ≤ w.keyboard.count ∧ w.keyboard.count ≤ 256) ∧
      (0 ≤ w.keyboard.head ∧ w.keyboard.head < 256) ∧ (0 ≤ w.keyboard.tail ∧ w.keyboard.tail < 256) ∧
      w.keyboard.tail = (w.keyboard.head + w.keyboard.count) % 256 ∧
      w.accepted = w.popped ++ w.keyboard.contents bufferSize ∧
      ((w.keyboard.contents bufferSize).length : ℤ) = w.keyboard.count ∧
      ∀ c, c ∈ w.returned → c.toReader.content = edit c.got ∧ (c.toReader.content.length : ℤ) = c.n ∧
        0 ≤ c.n ∧ c.n ≤ c.size ∧ ∀ k, k < 0 ∨ c.size ≤ k → c.buf k = c.given k := by
  have h := (boot_sound buffer).run events
  refine ⟨⟨h.wellFormed.count_nonneg, h.wellFormed.count_le⟩, ⟨h.wellFormed.head_nonneg, h.wellFormed.head_lt⟩,
    ⟨h.wellFormed.tail_nonneg, h.wellFormed.tail_lt⟩, h.wellFormed.tail_eq, h.fifo,
    RingBuffer.length_contents h.wellFormed, fun c hc => ?_⟩
  have hedits := h.returned c hc
  refine ⟨hedits.content, ?_, hedits.nonneg, hedits.le_size, hedits.frame⟩
  rw [Reader.content, List.length_map, List.length_range]
  exact Int.toNat_of_nonneg hedits.nonneg

end World

end SysuOs.Keyboard
