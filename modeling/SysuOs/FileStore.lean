import Mathlib.Data.List.Basic
import Mathlib.Logic.Function.Basic

/-! Files of elements and descriptors of them: what is read, written in place and appended at the offset of a
descriptor, on the contents as lists. -/

namespace FileStore

/-! ### Lists given by their elements -/

section

variable {β : Type*}

/-- The first `n` values of a function. -/
def tabulate (n : Nat) (f : Nat → β) : List β := (List.range n).map f

/-- `src` in the place of the elements from `offset` on. -/
def overwrite (l : List β) (offset : Nat) (src : List β) : List β :=
  l.take offset ++ src ++ l.drop (offset + src.length)

@[simp] theorem length_tabulate (n : Nat) (f : Nat → β) : (tabulate n f).length = n := by
  simp [tabulate]

@[simp] theorem tabulate_zero (f : Nat → β) : tabulate 0 f = [] := rfl

@[simp] theorem getElem_tabulate {n : Nat} {f : Nat → β} {i : Nat} (h : i < (tabulate n f).length) :
    (tabulate n f)[i] = f i := by
  simp [tabulate]

theorem tabulate_congr {n : Nat} {f g : Nat → β} (h : ∀ i, i < n → f i = g i) :
    tabulate n f = tabulate n g := by
  apply List.map_congr_left
  intro i hi
  exact h i (List.mem_range.mp hi)

theorem take_tabulate {n m : Nat} (f : Nat → β) (h : m ≤ n) : (tabulate n f).take m = tabulate m f := by
  apply List.ext_getElem
  · simp [h]
  · intro i _ _
    simp

theorem drop_tabulate (n m : Nat) (f : Nat → β) :
    (tabulate n f).drop m = tabulate (n - m) fun i => f (m + i) := by
  apply List.ext_getElem
  · simp
  · intro i _ _
    simp

/-- A part of a list. -/
theorem slice_tabulate (n offset size : Nat) (f : Nat → β) :
    ((tabulate n f).drop offset).take size = tabulate (min size (n - offset)) fun i => f (offset + i) := by
  rw [drop_tabulate]
  apply List.ext_getElem
  · simp
  · intro i _ _
    simp

theorem append_tabulate (n m : Nat) (f g : Nat → β) :
    tabulate n f ++ tabulate m g = tabulate (n + m) fun i => if i < n then f i else g (i - n) := by
  apply List.ext_getElem
  · simp
  · intro i _ _
    by_cases hi : i < n
    · rw [List.getElem_append_left (by simpa using hi)]
      simp [hi]
    · rw [List.getElem_append_right (by simpa using hi)]
      simp [hi]

theorem overwrite_tabulate {n offset m : Nat} (f g : Nat → β) (h : offset + m ≤ n) :
    overwrite (tabulate n f) offset (tabulate m g) =
      tabulate n fun i => if offset ≤ i ∧ i < offset + m then g (i - offset) else f i := by
  rw [overwrite, take_tabulate f (by omega), drop_tabulate, append_tabulate, append_tabulate]
  have hlen : offset + m + (n - (offset + m)) = n := by omega
  rw [length_tabulate, hlen]
  apply tabulate_congr
  intro i _
  by_cases hlow : i < offset
  · rw [if_pos (by omega), if_pos hlow, if_neg (by omega)]
  · by_cases hin : i < offset + m
    · rw [if_pos hin, if_neg hlow, if_pos (by omega)]
    · have hback : offset + m + (i - (offset + m)) = i := by omega
      rw [if_neg hin, if_neg (by omega), hback]

theorem overwrite_nil (l : List β) (offset : Nat) : overwrite l offset [] = l := by
  simp [overwrite]

end

/-! ### The store -/

/-- The contents of files, and descriptors that refer to them at an offset. -/
structure Store (κ δ β : Type*) where
  content : κ → List β
  target : δ → Option κ
  offset : δ → Nat

namespace Store

variable {κ δ β : Type*} [DecidableEq κ] [DecidableEq δ] (s : Store κ δ β)

/-- What `n` elements from the offset of `d` on are. -/
def read (d : δ) (f : κ) (n : Nat) : List β := ((s.content f).drop (s.offset d)).take n

/-- The descriptor is put at an offset. -/
def seek (d : δ) (offset : Nat) : Store κ δ β := { s with offset := Function.update s.offset d offset }

def setContent (f : κ) (l : List β) : Store κ δ β := { s with content := Function.update s.content f l }

omit [DecidableEq δ] in
@[simp] theorem setContent_self (f : κ) : s.setContent f (s.content f) = s := by
  unfold setContent
  rw [Function.update_eq_self]

omit [DecidableEq κ] in
@[simp] theorem seek_self (d : δ) : s.seek d (s.offset d) = s := by
  unfold seek
  rw [Function.update_eq_self]

/-- `src` takes the place of what is at the offset of `d`, which moves behind it. -/
def write (d : δ) (f : κ) (src : List β) : Store κ δ β :=
  (s.setContent f (overwrite (s.content f) (s.offset d) src)).seek d (s.offset d + src.length)

/-- `src` is put behind the content, and the descriptor behind `src`. -/
def append (d : δ) (f : κ) (src : List β) : Store κ δ β :=
  (s.setContent f (s.content f ++ src)).seek d ((s.content f).length + src.length)

/-- The descriptor refers to nothing any more. -/
def close (d : δ) : Store κ δ β := { s with target := Function.update s.target d none }

/-- Each descriptor is given what another one has. -/
def copy (source : δ → δ) : Store κ δ β :=
  { s with target := fun d => s.target (source d), offset := fun d => s.offset (source d) }

end Store

end FileStore
