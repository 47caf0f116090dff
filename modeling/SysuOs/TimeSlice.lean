import Mathlib

/-! Time slices in a ring. The first member has the turn. A tick takes one from its slice; when nothing is left
the member goes to the end and the next one has the turn. A slice is never filled up again, so that after one
round every turn is a single tick. -/

namespace TimeSlice

variable {α : Type*} {a : α} {t : ℤ} {L M : List (α × ℤ)} {n : ℕ}

/-- One tick for the members and what is left of their slices. -/
def tick : List (α × ℤ) → List (α × ℤ)
  | [] => []
  | (a, t) :: L => if t - 1 ≤ 0 then L ++ [(a, t - 1)] else (a, t - 1) :: L

/-- How many ticks a turn lasts. -/
def turn (t : ℤ) : ℕ := (max 1 t).toNat

/-- How many ticks the first round lasts. -/
def round (L : List (α × ℤ)) : ℕ := (L.map fun m => turn m.2).sum

/-- Who has the turn after `n` ticks of the first round. -/
def first : List (α × ℤ) → ℕ → Option α
  | [], _ => none
  | (a, t) :: L, n => if n < turn t then some a else first L (n - turn t)

/-- Who has the turn after `n` ticks. -/
def holder (L : List (α × ℤ)) (n : ℕ) : Option α :=
  if n < round L then first L n else (L.map Prod.fst)[(n - round L) % L.length]?

theorem tick_mem {m : α × ℤ} (h : m ∈ tick L) : ∃ t, (m.1, t) ∈ L ∧ t - 1 ≤ m.2 ∧ m.2 ≤ t := by
  cases L with
  | nil => cases h
  | cons first L =>
      obtain ⟨a, t⟩ := first
      rw [tick] at h
      have hcases : m = (a, t - 1) ∨ m ∈ L := by
        split at h
        · exact (List.mem_append.mp h).symm.imp_left List.mem_singleton.mp
        · exact List.mem_cons.mp h
      rcases hcases with rfl | hmem
      · exact ⟨t, List.mem_cons_self, le_rfl, by omega⟩
      · exact ⟨m.2, List.mem_cons_of_mem _ hmem, by omega, le_rfl⟩

theorem turn_pos (t : ℤ) : 0 < turn t := by
  unfold turn
  omega

@[simp] theorem round_cons (m : α × ℤ) (L : List (α × ℤ)) : round (m :: L) = turn m.2 + round L := rfl

/-- The first member keeps the turn as long as its slice lasts. -/
theorem iterate_lt (hn : n < turn t) : tick^[n] ((a, t) :: L) = (a, t - n) :: L := by
  induction n with
  | zero => simp
  | succ n ih =>
      rw [Function.iterate_succ_apply', ih (Nat.lt_of_succ_lt hn), tick, if_neg]
      · congr 2
        push_cast
        ring
      · unfold turn at hn
        omega

/-- At the end of its slice it goes to the end. -/
theorem iterate_turn : tick^[turn t] ((a, t) :: L) = L ++ [(a, t - turn t)] := by
  obtain ⟨n, hn⟩ : ∃ n, turn t = n + 1 := ⟨turn t - 1, (Nat.sub_add_cancel (turn_pos t)).symm⟩
  rw [hn, Function.iterate_succ_apply', iterate_lt (hn ▸ Nat.lt_succ_self n), tick, if_pos]
  · congr 3
    push_cast
    ring
  · unfold turn at hn
    omega

/-- A round turns the whole ring. -/
theorem iterate_round : tick^[round L] (L ++ M) = M ++ L.map fun m => (m.1, m.2 - (turn m.2 : ℤ)) := by
  induction L generalizing M with
  | nil => simp [round]
  | cons m L ih =>
      obtain ⟨a, t⟩ := m
      rw [round_cons, Nat.add_comm, Function.iterate_add_apply, List.cons_append, iterate_turn,
        List.append_assoc, ih]
      simp

theorem iterate_first (hn : n < round L) : ((tick^[n] (L ++ M)).head?.map Prod.fst) = first L n := by
  induction L generalizing M n with
  | nil => exact absurd hn (Nat.not_lt_zero n)
  | cons m L ih =>
      obtain ⟨a, t⟩ := m
      rw [first]
      split_ifs with hlt
      · rw [List.cons_append, iterate_lt hlt]
        rfl
      · rw [round_cons] at hn
        obtain ⟨k, rfl⟩ := Nat.exists_eq_add_of_le (Nat.le_of_not_lt hlt)
        rw [Nat.add_comm, Function.iterate_add_apply, List.cons_append, iterate_turn, List.append_assoc,
          ih (by dsimp only at hn; omega), Nat.add_sub_cancel]

/-- With slices of at most one tick every tick turns the ring by one place. -/
theorem tick_spent (h : ∀ m ∈ L, m.2 ≤ 1) :
    (tick L).map Prod.fst = (L.map Prod.fst).rotate 1 ∧ ∀ m ∈ tick L, m.2 ≤ 1 := by
  cases L with
  | nil => simp [tick]
  | cons m L =>
      obtain ⟨a, t⟩ := m
      have ht : t ≤ 1 := h (a, t) List.mem_cons_self
      rw [tick, if_pos (by omega)]
      refine ⟨by simp, fun m hm => ?_⟩
      rcases List.mem_append.mp hm with hm | hm
      · exact h m (List.mem_cons_of_mem _ hm)
      · obtain rfl := List.mem_singleton.mp hm
        show t - 1 ≤ 1
        omega

theorem iterate_spent (h : ∀ m ∈ L, m.2 ≤ 1) :
    (tick^[n] L).map Prod.fst = (L.map Prod.fst).rotate n ∧ ∀ m ∈ tick^[n] L, m.2 ≤ 1 := by
  induction n with
  | zero => exact ⟨(List.rotate_zero _).symm, h⟩
  | succ n ih =>
      rw [Function.iterate_succ_apply']
      obtain ⟨hturn, hspent⟩ := tick_spent ih.2
      refine ⟨?_, hspent⟩
      rw [hturn, ih.1, List.rotate_rotate]

/-- Who has the turn after `n` ticks, for every `n`. -/
theorem iterate_holder : ((tick^[n] L).head?.map Prod.fst) = holder L n := by
  unfold holder
  split_ifs with hn
  · have hfirst := @iterate_first α L [] n hn
    rwa [List.append_nil] at hfirst
  · obtain ⟨k, rfl⟩ := Nat.exists_eq_add_of_le (Nat.le_of_not_lt hn)
    have hround := @iterate_round α L []
    rw [List.append_nil, List.nil_append] at hround
    rw [Nat.add_comm, Function.iterate_add_apply, hround, Nat.add_sub_cancel]
    have hspent : ∀ m ∈ L.map fun m => (m.1, m.2 - (turn m.2 : ℤ)), m.2 ≤ 1 := by
      intro m hm
      obtain ⟨m', -, rfl⟩ := List.mem_map.mp hm
      show m'.2 - (turn m'.2 : ℤ) ≤ 1
      unfold turn
      omega
    have hturn := (@iterate_spent α _ k hspent).1
    have hfst : Prod.fst ∘ (fun m : α × ℤ => (m.1, m.2 - (turn m.2 : ℤ))) = Prod.fst := rfl
    rw [List.map_map, hfst] at hturn
    rw [← List.head?_map, hturn]
    cases hL : L with
    | nil => rfl
    | cons m L =>
        have hpos : 0 < ((m :: L).map Prod.fst).length := by simp
        rw [List.head?_eq_getElem?, List.getElem?_rotate hpos, Nat.zero_add, List.length_map]

/-- No member waits for ever: from every tick on each has its turn within a round and one more tick for each
member. -/
theorem exists_holder (ha : a ∈ L.map Prod.fst) (n : ℕ) :
    ∃ k, n ≤ k ∧ k < n + (round L + L.length) ∧ holder L k = some a := by
  obtain ⟨i, hi, hget⟩ := List.getElem_of_mem ha
  rw [List.length_map] at hi
  have hpos : 0 < L.length := by omega
  -- the first tick after both `n` and the first round at which place `i` has its turn
  obtain ⟨d, hd⟩ : ∃ d, max n (round L) = round L + d := Nat.exists_eq_add_of_le (le_max_right _ _)
  obtain ⟨e, he, hmod⟩ : ∃ e < L.length, (d + e) % L.length = i := by
    have hdmod := Nat.mod_lt d hpos
    have hdiv := Nat.div_add_mod d L.length
    by_cases hle : d % L.length ≤ i
    · refine ⟨i - d % L.length, by omega, ?_⟩
      rw [show d + (i - d % L.length) = L.length * (d / L.length) + i by omega, Nat.mul_add_mod,
        Nat.mod_eq_of_lt hi]
    · refine ⟨i + L.length - d % L.length, by omega, ?_⟩
      rw [show d + (i + L.length - d % L.length) = L.length * (d / L.length) + (L.length + i) by omega,
        Nat.mul_add_mod, Nat.add_mod_left, Nat.mod_eq_of_lt hi]
  have hmax := le_max_left n (round L)
  refine ⟨round L + d + e, by omega, ?_, ?_⟩
  · have hle : max n (round L) ≤ n + round L := max_le (Nat.le_add_right _ _) (Nat.le_add_left _ _)
    omega
  · rw [holder, if_neg (by omega), show round L + d + e - round L = d + e by omega, hmod,
      List.getElem?_eq_getElem (by rwa [List.length_map]), hget]

end TimeSlice
