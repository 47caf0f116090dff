import Mathlib

/-! A store of disjoint blocks of bytes, read and written in cells of one width: what a heap is to the program
that uses it. The program says which blocks it wants, gives back and writes to; where a new block lies is the
answer of the store. -/

namespace SysuOs

namespace BlockStore

/-- `owned p` is the length of the block at `p`, and `data a` what the cell at `a` is known to hold. -/
structure Store (α : Type) where
  owned : Nat → Option Nat
  data : Nat → Option α

/-- A call with its answer. `move` gives a block another length and with it perhaps another place; `fail` and
`stay` are requests for a block and for another length that are refused. -/
inductive Op (α : Type) where
  | alloc (size p : Nat)
  | fail
  | free (p : Nat)
  | move (p size q : Nat)
  | stay (p : Nat)
  | write (a : Nat) (w : α)

/-- The cell at `a` is one of the `n` bytes from `p` on. -/
def CellIn (width p n a : Nat) : Prop := p ≤ a ∧ a + width ≤ p + n

instance (width p n a : Nat) : Decidable (CellIn width p n a) := inferInstanceAs (Decidable (_ ∧ _))

namespace Store

variable {α : Type}

def empty : Store α := ⟨fun _ => none, fun _ => none⟩

/-- The length of the block at `p`. -/
def length (s : Store α) (p : Nat) : Nat := (s.owned p).getD 0

/-- The store after a call. Nothing is known of the cells of a new block, a block given back is forgotten, and a
block that is moved takes its cells along, as far as both lengths go. -/
def apply (width : Nat) (s : Store α) : Op α → Store α
  | .alloc size p => { s with owned := Function.update s.owned p (some size) }
  | .fail => s
  | .stay _ => s
  | .free p =>
      { owned := Function.update s.owned p none
        data := fun a => if CellIn width p (s.length p) a then none else s.data a }
  | .move p size q =>
      { owned := Function.update (Function.update s.owned p none) q (some size)
        data := fun a =>
          if CellIn width q (min (s.length p) size) a then s.data (p + (a - q))
          else if CellIn width p (s.length p) a then none else s.data a }
  | .write a w => { s with data := Function.update s.data a (some w) }

/-- What the program may ask for: it gives back, moves and writes to blocks of its own only. -/
def Permitted (width : Nat) (s : Store α) : Op α → Prop
  | .alloc _ _ => True
  | .fail => True
  | .free p => ∃ n, s.owned p = some n
  | .move p _ _ => ∃ n, s.owned p = some n
  | .stay p => ∃ n, s.owned p = some n
  | .write a _ => width ∣ a ∧ ∃ p n, s.owned p = some n ∧ CellIn width p n a

/-- The `size` bytes from `p` on are in no block, that at `except` apart. -/
def Vacant (s : Store α) (p size : Nat) (except : Nat → Prop) : Prop :=
  ∀ q n, s.owned q = some n → ¬except q → q ≠ p ∧ (q + n ≤ p ∨ p + size ≤ q)

/-- What the answer promises: a place of its own for the block. -/
def Granted (width : Nat) (s : Store α) : Op α → Prop
  | .alloc size p => width ∣ p ∧ s.Vacant p size fun _ => False
  | .move p size q => width ∣ q ∧ s.Vacant q size fun p' => p' = p
  | _ => True

/-- Blocks are apart, and what is known lies in them. -/
structure Sound (width : Nat) (s : Store α) : Prop where
  aligned : ∀ p n, s.owned p = some n → width ∣ p
  apart : ∀ p n q m, s.owned p = some n → s.owned q = some m → p ≠ q → p + n ≤ q ∨ q + m ≤ p
  known : ∀ a w, s.data a = some w → width ∣ a ∧ ∃ p n, s.owned p = some n ∧ CellIn width p n a

theorem empty_sound (width : Nat) : (empty : Store α).Sound width := by
  refine ⟨fun p n h => ?_, fun p n q m h => ?_, fun a w h => ?_⟩
  · simp [empty] at h
  · simp [empty] at h
  · simp [empty] at h

variable {width : Nat} {s : Store α}

theorem length_of {p n : Nat} (h : s.owned p = some n) : s.length p = n := by rw [length, h, Option.getD_some]

theorem alloc_owned (s : Store α) (size p a : Nat) :
    (s.apply width (.alloc size p)).owned a = if a = p then some size else s.owned a :=
  Function.update_apply _ _ _ _

theorem free_owned (s : Store α) (p a : Nat) :
    (s.apply width (.free p)).owned a = if a = p then none else s.owned a := Function.update_apply _ _ _ _

theorem move_owned (s : Store α) (p size q a : Nat) : (s.apply width (.move p size q)).owned a =
    if a = q then some size else if a = p then none else s.owned a := by
  show Function.update (Function.update s.owned p none) q (some size) a = _
  rw [Function.update_apply, Function.update_apply]

theorem write_data (s : Store α) (a : Nat) (w : α) (b : Nat) :
    (s.apply width (.write a w)).data b = if b = a then some w else s.data b := Function.update_apply _ _ _ _

/-- What is known after a block is given back lies in another one. -/
theorem Sound.known_free (h : s.Sound width) {p a : Nat} {w : α}
    (hdata : (s.apply width (.free p)).data a = some w) :
    s.data a = some w ∧ ∃ b n, b ≠ p ∧ s.owned b = some n ∧ CellIn width b n a := by
  have hdata' : (if CellIn width p (s.length p) a then none else s.data a) = some w := hdata
  split at hdata'
  · cases hdata'
  next hout =>
    obtain ⟨-, b, n, hb, hcell⟩ := h.known a w hdata'
    refine ⟨hdata', b, n, ?_, hb, hcell⟩
    rintro rfl
    rw [length_of hb] at hout
    exact hout hcell

/-- What is known after a block is moved lay in it, as far from its start, or lies in another one. -/
theorem Sound.known_move (h : s.Sound width) {p size q n a : Nat} {w : α} (hp : s.owned p = some n)
    (hdata : (s.apply width (.move p size q)).data a = some w) :
    (CellIn width q (min n size) a ∧ width ∣ a - q ∧ s.data (p + (a - q)) = some w) ∨
      s.data a = some w ∧ ∃ b n, b ≠ p ∧ s.owned b = some n ∧ CellIn width b n a := by
  have hdata' : (if CellIn width q (min (s.length p) size) a then s.data (p + (a - q))
      else (s.apply width (.free p)).data a) = some w := hdata
  rw [length_of hp] at hdata'
  split at hdata'
  next hin =>
    exact Or.inl ⟨hin, (Nat.dvd_add_right (h.aligned p n hp)).mp (h.known _ w hdata').1, hdata'⟩
  · exact Or.inr (h.known_free hdata')

/-- A block that is given a place of its own. -/
theorem apart_update {owned : Nat → Option Nat} {p size : Nat}
    (hapart : ∀ p n q m, owned p = some n → owned q = some m → p ≠ q → p + n ≤ q ∨ q + m ≤ p)
    (hnew : ∀ q n, owned q = some n → q ≠ p → q + n ≤ p ∨ p + size ≤ q) {a n b m : Nat}
    (ha : Function.update owned p (some size) a = some n) (hb : Function.update owned p (some size) b = some m)
    (hne : a ≠ b) : a + n ≤ b ∨ b + m ≤ a := by
  by_cases hap : a = p
  · subst hap
    rw [Function.update_self] at ha
    rw [Function.update_of_ne hne.symm] at hb
    obtain rfl := Option.some.inj ha
    exact (hnew b m hb hne.symm).symm
  · rw [Function.update_of_ne hap] at ha
    by_cases hbp : b = p
    · subst hbp
      rw [Function.update_self] at hb
      obtain rfl := Option.some.inj hb
      exact hnew a n ha hap
    · rw [Function.update_of_ne hbp] at hb
      exact hapart a n b m ha hb hne

theorem owned_of_update_none {owned : Nat → Option Nat} {p q n : Nat}
    (h : Function.update owned p none q = some n) : q ≠ p ∧ owned q = some n := by
  by_cases hq : q = p
  · rw [hq, Function.update_self] at h
    cases h
  · rw [Function.update_of_ne hq] at h
    exact ⟨hq, h⟩

theorem Sound.alloc (h : s.Sound width) {size p : Nat} (hgranted : s.Granted width (.alloc size p)) :
    (s.apply width (.alloc size p)).Sound width := by
  obtain ⟨hdvd, hvacant⟩ := hgranted
  refine ⟨fun q n hq => ?_, fun a n b m ha hb hne => ?_, fun a w ha => ?_⟩
  · by_cases hqp : q = p
    · exact hqp ▸ hdvd
    · exact h.aligned q n ((Function.update_of_ne hqp _ _).symm.trans hq)
  · exact apart_update h.apart (fun q n hq _ => (hvacant q n hq id).2) ha hb hne
  · obtain ⟨halign, q, n, hq, hcell⟩ := h.known a w ha
    exact ⟨halign, q, n, (Function.update_of_ne (hvacant q n hq id).1 _ _).trans hq, hcell⟩

theorem Sound.free (h : s.Sound width) (p : Nat) : (s.apply width (.free p)).Sound width := by
  refine ⟨fun q m hq => h.aligned q m (owned_of_update_none hq).2, fun a k b m ha hb => ?_, fun a w ha => ?_⟩
  · exact h.apart a k b m (owned_of_update_none ha).2 (owned_of_update_none hb).2
  · obtain ⟨hdata, b, n, hbp, hb, hcell⟩ := h.known_free ha
    refine ⟨(h.known a w hdata).1, b, n, ?_, hcell⟩
    rw [free_owned, if_neg hbp, hb]

theorem Sound.move (h : s.Sound width) {p size q : Nat} (hp : ∃ n, s.owned p = some n)
    (hgranted : s.Granted width (.move p size q)) : (s.apply width (.move p size q)).Sound width := by
  obtain ⟨n, hn⟩ := hp
  obtain ⟨hdvd, hvacant⟩ := hgranted
  refine ⟨fun a k ha => ?_, fun a k b m ha hb hne => ?_, fun a w ha => ?_⟩
  · by_cases haq : a = q
    · exact haq ▸ hdvd
    · exact h.aligned a k (owned_of_update_none ((Function.update_of_ne haq _ _).symm.trans ha)).2
  · refine apart_update (fun a k b m ha hb => ?_) (fun b m hb _ => ?_) ha hb hne
    · exact h.apart a k b m (owned_of_update_none ha).2 (owned_of_update_none hb).2
    · obtain ⟨hbp, hb⟩ := owned_of_update_none hb
      exact (hvacant b m hb hbp).2
  · rcases h.known_move hn ha with ⟨⟨hle, hend⟩, hrest, -⟩ | ⟨hdata, b, m, hbp, hb, hcell⟩
    · refine ⟨?_, q, size, by rw [move_owned, if_pos rfl], hle, by omega⟩
      -- both blocks begin at a cell
      have hsum := Nat.dvd_add hdvd hrest
      rwa [Nat.add_sub_cancel' hle] at hsum
    · refine ⟨(h.known a w hdata).1, b, m, ?_, hcell⟩
      rw [move_owned, if_neg (hvacant b m hb hbp).1, if_neg hbp, hb]

/-- Every call keeps the store sound. -/
theorem Sound.apply (h : s.Sound width) {op : Op α} (hop : s.Permitted width op)
    (hgranted : s.Granted width op) :
    (s.apply width op).Sound width := by
  cases op with
  | alloc size p => exact h.alloc hgranted
  | fail => exact h
  | stay _ => exact h
  | free p => exact h.free p
  | move p size q => exact h.move hop hgranted
  | write a w =>
      refine ⟨h.aligned, h.apart, fun b v hb => ?_⟩
      by_cases hba : b = a
      · exact hba ▸ hop
      · exact h.known b v ((Function.update_of_ne hba _ _).symm.trans hb)

/-- Calls one after the other, each permitted and granted. -/
inductive Run (width : Nat) : Store α → List (Op α) → Store α → Prop where
  | nil (s : Store α) : Run width s [] s
  | snoc {s s' : Store α} {ops : List (Op α)} {op : Op α} (hrun : Run width s ops s')
      (hop : s'.Permitted width op) (hgranted : s'.Granted width op) :
      Run width s (ops ++ [op]) (s'.apply width op)

theorem Run.sound {s' : Store α} {ops : List (Op α)} (hrun : Run width s ops s') (h : s.Sound width) :
    s'.Sound width := by
  induction hrun with
  | nil => exact h
  | snoc _ hop hgranted ih => exact ih.apply hop hgranted

end Store

end BlockStore

end SysuOs
