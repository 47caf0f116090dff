import Mathlib

/-! Null-terminated linked lists laid out in a table of nodes. A node is a key of type `α`; a
`next` map leads from each node to the following one, `none` playing the null pointer, and a `prev`
map leads back. `Walk` says which nodes a singly linked list consists of, `Linked` adds the
backward links. Both are stated against an explicit list, so that the operations on a structure of
pointers are specified by operations on lists. -/

/-- `l` lists the nodes met from `head` on by following `next` to its end. -/
def Walk {α : Type*} (next : α → Option α) : Option α → List α → Prop
  | head, [] => head = none
  | head, a :: l => head = some a ∧ Walk next (next a) l

/-- Every node of `l` points back to the node before it, the first one to `pred`. -/
def Back {α : Type*} (prev : α → Option α) : Option α → List α → Prop
  | _, [] => True
  | pred, a :: l => prev a = pred ∧ Back prev (some a) l

namespace Walk

variable {α : Type*} {next next' : α → Option α} {head : Option α} {a b : α} {l m : List α}

@[simp] theorem nil_iff : Walk next head [] ↔ head = none := Iff.rfl

@[simp] theorem cons_iff : Walk next head (a :: l) ↔ head = some a ∧ Walk next (next a) l := Iff.rfl

/-- A walk depends only on the links of its own nodes. -/
theorem congr (h : Walk next head l) (heq : ∀ a ∈ l, next' a = next a) : Walk next' head l := by
  induction l generalizing head with
  | nil => exact h
  | cons a l ih =>
      obtain ⟨hhead, htail⟩ := h
      refine ⟨hhead, ?_⟩
      rw [heq a List.mem_cons_self]
      exact ih htail fun b hb => heq b (List.mem_cons_of_mem a hb)

/-- The nodes met from a given head are determined by the links. -/
theorem unique (hl : Walk next head l) (hm : Walk next head m) : l = m := by
  induction l generalizing head m with
  | nil =>
      cases m with
      | nil => rfl
      | cons b m => rw [nil_iff.mp hl] at hm; simp at hm
  | cons a l ih =>
      cases m with
      | nil => rw [nil_iff.mp hm] at hl; simp at hl
      | cons b m =>
          obtain ⟨ha, hl⟩ := hl
          obtain ⟨hb, hm⟩ := hm
          obtain rfl : a = b := Option.some.inj (ha.symm.trans hb)
          rw [ih hl hm]

/-- From each of its nodes on, a walk is a walk. -/
theorem suffix (h : Walk next head (m ++ a :: l)) : Walk next (some a) (a :: l) := by
  induction m generalizing head with
  | nil => exact ⟨rfl, h.2⟩
  | cons b m ih => exact ih h.2

/-- A walk that ends visits no node twice. -/
theorem nodup (h : Walk next head l) : l.Nodup := by
  induction l generalizing head with
  | nil => exact List.nodup_nil
  | cons a l ih =>
      refine List.nodup_cons.mpr ⟨fun hmem => ?_, ih h.2⟩
      obtain ⟨s, t, hsplit⟩ := List.append_of_mem hmem
      have hwalk : Walk next (some a) (a :: l) := ⟨rfl, h.2⟩
      have hagain : Walk next (some a) (a :: t) := by
        have hw := h.2
        rw [hsplit] at hw
        exact hw.suffix
      have hlen := congrArg List.length (hwalk.unique hagain)
      rw [hsplit] at hlen
      simp only [List.length_cons, List.length_append] at hlen
      omega

/-- A walk is made longer by leading its last node to a new one. -/
theorem concat (h : Walk next head (l ++ [a])) (hb : b ∉ l ++ [a]) (ha : next' a = some b)
    (hend : next' b = none) (heq : ∀ c, c ≠ a → c ≠ b → next' c = next c) :
    Walk next' head (l ++ [a, b]) := by
  induction l generalizing head with
  | nil => exact ⟨h.1, ha, hend⟩
  | cons c l ih =>
      have hnd := (List.nodup_cons.mp h.nodup).1
      obtain ⟨hhead, htail⟩ := h
      have hcb : c ≠ b := fun he => hb (by rw [he]; exact List.mem_cons_self)
      refine ⟨hhead, ?_⟩
      have hca : c ≠ a := fun he => hnd (by rw [he]; exact List.mem_append_right l List.mem_cons_self)
      rw [heq c hca hcb]
      exact ih htail fun hmem => hb (List.mem_cons_of_mem c hmem)

/-- A walk leads past `b` once the node before it is linked to the one after it. -/
theorem bypass (h : Walk next head (l ++ a :: b :: m)) (ha : next' a = next b)
    (heq : ∀ c, c ≠ a → c ≠ b → next' c = next c) : Walk next' head (l ++ a :: m) := by
  have hnd := h.nodup
  induction l generalizing head with
  | nil =>
      obtain ⟨hhead, -, htail⟩ := h
      simp only [List.nil_append, List.nodup_cons, List.mem_cons, not_or] at hnd
      refine ⟨hhead, ?_⟩
      rw [ha]
      exact htail.congr fun c hc => heq c (fun he => hnd.1.2 (he ▸ hc)) (fun he => hnd.2.1 (he ▸ hc))
  | cons c l ih =>
      obtain ⟨hhead, htail⟩ := h
      rw [List.cons_append, List.nodup_cons] at hnd
      have hca : c ≠ a := fun he => hnd.1 (by simp [he])
      have hcb : c ≠ b := fun he => hnd.1 (by simp [he])
      refine ⟨hhead, ?_⟩
      rw [heq c hca hcb]
      exact ih htail hnd.2

/-- The node before `b` in a walk is the one whose link leads to `b`. -/
theorem next_ne_of_mem_tail (h : Walk next head (a :: l)) (hb : b ∈ l) : next b ≠ some a := by
  intro hnext
  obtain ⟨s, t, rfl⟩ := List.append_of_mem hb
  have hw : Walk next (some b) (b :: t) := h.2.suffix
  obtain ⟨-, hw⟩ := hw
  rw [hnext] at hw
  cases t with
  | nil => simp at hw
  | cons c t =>
      obtain ⟨hc, -⟩ := hw
      obtain rfl := Option.some.inj hc
      exact (List.nodup_cons.mp h.nodup).1 (by simp)

end Walk

namespace Back

variable {α : Type*} {prev prev' : α → Option α} {pred : Option α} {a : α} {l : List α}

/-- Backward links depend only on the nodes of the list. -/
theorem congr (h : Back prev pred l) (heq : ∀ a ∈ l, prev' a = prev a) : Back prev' pred l := by
  induction l generalizing pred with
  | nil => trivial
  | cons a l ih =>
      obtain ⟨ha, hl⟩ := h
      exact ⟨(heq a List.mem_cons_self).trans ha,
        ih hl fun b hb => heq b (List.mem_cons_of_mem a hb)⟩

/-- A backward link of a segment after `c` leads to `c` or into the segment. -/
theorem mem_of_prev {prev : α → Option α} {a b c : α} {l : List α} (h : Back prev (some c) l)
    (ha : a ∈ l) (hp : prev a = some b) : b = c ∨ b ∈ l := by
  induction l generalizing c with
  | nil => simp at ha
  | cons d l ih =>
      rcases List.mem_cons.mp ha with rfl | hmem
      · exact Or.inl (Option.some.inj (hp.symm.trans h.1))
      · rcases ih h.2 hmem with rfl | hb
        · exact Or.inr List.mem_cons_self
        · exact Or.inr (List.mem_cons_of_mem d hb)

/-- Every node of a segment after `c` has a node before it. -/
theorem exists_prev {prev : α → Option α} {a c : α} {l : List α} (h : Back prev (some c) l) (ha : a ∈ l) :
    ∃ b, prev a = some b := by
  induction l generalizing c with
  | nil => simp at ha
  | cons d l ih =>
      rcases List.mem_cons.mp ha with rfl | hmem
      · exact ⟨c, h.1⟩
      · exact ih h.2 hmem

/-- In a segment after `b`, only the first node leads back to `b`. -/
theorem next_of_prev {next prev : α → Option α} {a b : α} {l : List α} (h : Back prev (some b) l)
    (hw : Walk next (next b) l) (ha : a ∈ l) (hp : prev a = some b) (hb : b ∉ l) :
    next b = some a := by
  cases l with
  | nil => simp at ha
  | cons c l =>
      rcases List.mem_cons.mp ha with rfl | hmem
      · exact hw.1
      · exact absurd (h.2.mem_of_prev hmem hp) (fun h => hb (by simpa using h))

end Back

/-- A doubly linked list of the nodes `l`, from `head` on. -/
structure Linked {α : Type*} (next prev : α → Option α) (head : Option α) (l : List α) : Prop where
  walk : Walk next head l
  back : Back prev none l

namespace Linked

variable {α : Type*} {next prev next' prev' : α → Option α} {head : Option α} {l : List α}

/-- A list depends only on the links of its own nodes. -/
theorem congr (h : Linked next prev head l) (hn : ∀ a ∈ l, next' a = next a)
    (hp : ∀ a ∈ l, prev' a = prev a) : Linked next' prev' head l :=
  ⟨h.walk.congr hn, h.back.congr hp⟩

theorem nodup (h : Linked next prev head l) : l.Nodup := h.walk.nodup

theorem next_mem {a b : α} (h : Linked next prev head l) (ha : a ∈ l) (hn : next a = some b) :
    b ∈ l := by
  obtain ⟨s, t, rfl⟩ := List.append_of_mem ha
  have hw := h.walk.suffix.2
  rw [hn] at hw
  cases t with
  | nil => simp at hw
  | cons c t =>
      obtain rfl := Option.some.inj hw.1
      simp

theorem prev_mem {a b : α} (h : Linked next prev head l) (ha : a ∈ l) (hp : prev a = some b) :
    b ∈ l := by
  cases l with
  | nil => simp at ha
  | cons c l =>
      rcases List.mem_cons.mp ha with rfl | hmem
      · rw [h.back.1] at hp
        simp at hp
      · rcases h.back.2.mem_of_prev hmem hp with rfl | hb
        · exact List.mem_cons_self
        · exact List.mem_cons_of_mem c hb

theorem head_mem {a : α} (h : Linked next prev (some a) l) : a ∈ l := by
  cases l with
  | nil => simpa using h.walk
  | cons c l =>
      obtain rfl := Option.some.inj h.walk.1
      exact List.mem_cons_self

end Linked

/-! ### Unlinking and linking a node

`unlinkNext` and `unlinkPrev` are the two pointer writes that take a node out of its list; the links
of the node itself are left as they are. `linkPrev` is the write to the old first node when a node
is put in front of it. -/

section Ops

variable {α : Type*} [DecidableEq α]

/-- The node before `a` is led past it. -/
def unlinkNext (next prev : α → Option α) (a : α) : α → Option α :=
  match prev a with
  | some p => Function.update next p (next a)
  | none => next

/-- The node after `a` is led back past it. -/
def unlinkPrev (next prev : α → Option α) (a : α) : α → Option α :=
  match next a with
  | some n => Function.update prev n (prev a)
  | none => prev

/-- The old first node is led back to the new one. -/
def linkPrev (prev : α → Option α) (head : Option α) (a : α) : α → Option α :=
  match head with
  | some h => Function.update (Function.update prev a none) h (some a)
  | none => Function.update prev a none

theorem unlinkNext_of_ne {next prev : α → Option α} {a b : α} (h : prev a ≠ some b) :
    unlinkNext next prev a b = next b := by
  unfold unlinkNext
  cases hp : prev a with
  | none => rfl
  | some p => exact Function.update_of_ne (fun he => h (by rw [hp, he])) _ _

theorem unlinkNext_pred {next prev : α → Option α} {a b : α} (h : prev a = some b) :
    unlinkNext next prev a b = next a := by
  rw [unlinkNext, h]
  exact Function.update_self _ _ _

theorem unlinkPrev_of_ne {next prev : α → Option α} {a b : α} (h : next a ≠ some b) :
    unlinkPrev next prev a b = prev b := by
  unfold unlinkPrev
  cases hn : next a with
  | none => rfl
  | some n => exact Function.update_of_ne (fun he => h (by rw [hn, he])) _ _

theorem unlinkPrev_succ {next prev : α → Option α} {a b : α} (h : next a = some b) :
    unlinkPrev next prev a b = prev a := by
  rw [unlinkPrev, h]
  exact Function.update_self _ _ _

theorem linkPrev_of_ne {prev : α → Option α} {head : Option α} {a b : α} (ha : b ≠ a)
    (hb : head ≠ some b) : linkPrev prev head a b = prev b := by
  cases head with
  | none => exact Function.update_of_ne ha _ _
  | some h =>
      have hbh : b ≠ h := fun he => hb (by rw [he])
      rw [linkPrev, Function.update_of_ne hbh, Function.update_of_ne ha]

/-- Unlinking the first node of a segment whose predecessor lies outside it. -/
theorem unlink_first {next prev : α → Option α} {pred : Option α} {a : α} {l : List α}
    (hw : Walk next (some a) (a :: l)) (hb : Back prev pred (a :: l))
    (hpred : ∀ p, pred = some p → p ∉ a :: l) :
    Walk (unlinkNext next prev a) (next a) l ∧ Back (unlinkPrev next prev a) pred l := by
  have hprev : prev a = pred := hb.1
  have hnext : ∀ b ∈ l, unlinkNext next prev a b = next b := fun b hmem =>
    unlinkNext_of_ne fun h => hpred b (hprev ▸ h) (List.mem_cons_of_mem a hmem)
  refine ⟨hw.2.congr hnext, ?_⟩
  cases l with
  | nil => trivial
  | cons c l =>
      have hac : next a = some c := hw.2.1
      have hnd := hw.2.nodup
      refine ⟨(unlinkPrev_succ hac).trans hprev, hb.2.2.congr fun b hmem => ?_⟩
      refine unlinkPrev_of_ne fun h => ?_
      obtain rfl := Option.some.inj (hac.symm.trans h)
      exact (List.nodup_cons.mp hnd).1 hmem

/-- Unlinking any node of a segment, the first one moving the head. -/
theorem unlink_segment {next prev : α → Option α} {pred head : Option α} {a : α} {l : List α}
    (hw : Walk next head l) (hb : Back prev pred l) (ha : a ∈ l)
    (hpred : ∀ p, pred = some p → p ∉ l) :
    Walk (unlinkNext next prev a) (if head = some a then next a else head) (l.erase a) ∧
      Back (unlinkPrev next prev a) pred (l.erase a) := by
  induction l generalizing pred head with
  | nil => simp at ha
  | cons b l ih =>
      obtain ⟨rfl, hwl⟩ := hw
      by_cases hab : b = a
      · subst hab
        simpa using unlink_first ⟨rfl, hwl⟩ hb hpred
      have hmem : a ∈ l := (List.mem_cons.mp ha).resolve_left fun h => hab h.symm
      have hwb : Walk next (some b) (b :: l) := ⟨rfl, hwl⟩
      have hnd := (List.nodup_cons.mp hwb.nodup).1
      obtain ⟨hw', hb'⟩ := ih hwl hb.2 hmem fun p hp => by
        obtain rfl := Option.some.inj hp
        exact hnd
      have hhead : (if some b = some a then next a else some b) = some b :=
        if_neg fun h => hab (Option.some.inj h)
      rw [List.erase_cons_tail (by simpa using hab), hhead]
      have hnext : unlinkNext next prev a b = if next b = some a then next a else next b := by
        split
        · next hba =>
            cases l with
            | nil => simp at hmem
            | cons c l =>
                obtain rfl := Option.some.inj (hwl.1.symm.trans hba)
                exact unlinkNext_pred hb.2.1
        · next hba =>
            refine unlinkNext_of_ne fun hp => ?_
            exact hba (hb.2.next_of_prev hwl hmem hp hnd)
      refine ⟨⟨rfl, hnext ▸ hw'⟩, ?_, hb'⟩
      refine (unlinkPrev_of_ne fun h => ?_).trans hb.1
      exact hwb.next_ne_of_mem_tail hmem h

namespace Linked

variable {next prev : α → Option α} {head : Option α} {a : α} {l : List α}

/-- Taking a node out of its list. -/
theorem unlink (h : Linked next prev head l) (ha : a ∈ l) :
    Linked (unlinkNext next prev a) (unlinkPrev next prev a)
      (if head = some a then next a else head) (l.erase a) :=
  have hseg := unlink_segment h.walk h.back ha (fun p hp => by simp at hp)
  ⟨hseg.1, hseg.2⟩

/-- Putting a fresh node in front of a list. -/
theorem link (h : Linked next prev head l) (ha : a ∉ l) :
    Linked (Function.update next a head) (linkPrev prev head a) (some a) (a :: l) := by
  have hnext : ∀ b ∈ l, Function.update next a head b = next b := fun b hb =>
    Function.update_of_ne (fun he => ha (by rwa [he] at hb)) _ _
  refine ⟨⟨rfl, ?_⟩, ?_⟩
  · rw [Function.update_self]
    exact h.walk.congr hnext
  cases l with
  | nil =>
      obtain rfl : head = none := h.walk
      exact ⟨Function.update_self _ _ _, trivial⟩
  | cons c l =>
      obtain ⟨rfl, hw⟩ := h.walk
      have hac : a ≠ c := fun he => ha (by rw [he]; exact List.mem_cons_self)
      refine ⟨?_, ?_, ?_⟩
      · rw [linkPrev, Function.update_of_ne hac, Function.update_self]
      · rw [linkPrev, Function.update_self]
      · refine h.back.2.congr fun b hb => ?_
        have hbc : b ≠ c := fun he => (List.nodup_cons.mp h.nodup).1 (by rwa [he] at hb)
        have hba : b ≠ a := fun he => ha (by rw [he] at hb; exact List.mem_cons_of_mem c hb)
        rw [linkPrev, Function.update_of_ne hbc, Function.update_of_ne hba]

end Linked

end Ops

/-! ### Walks without a last node -/

section Orbit

variable {α : Type*} {f : α → α} {s : Finset α} {a : α}

/-- A walk that stays in a finite set for more steps than the set has members comes to some node twice. -/
theorem exists_repeat (h : ∀ m, m ≤ s.card → f^[m] a ∈ s) : ∃ i j, i < j ∧ j ≤ s.card ∧ f^[i] a = f^[j] a := by
  have hcard : s.card < (Finset.range (s.card + 1)).card := by
    rw [Finset.card_range]
    exact Nat.lt_succ_self _
  have hmaps : Set.MapsTo (fun m => f^[m] a) (Finset.range (s.card + 1)) s := by
    intro m hm
    exact h m (Nat.le_of_lt_succ (Finset.mem_range.mp hm))
  obtain ⟨i, hi, j, hj, hne, heq⟩ := Finset.exists_ne_map_eq_of_card_lt_of_maps_to hcard hmaps
  have hi' := Finset.mem_range.mp hi
  have hj' := Finset.mem_range.mp hj
  rcases Nat.lt_or_gt_of_ne hne with hlt | hgt
  · exact ⟨i, j, hlt, by omega, heq⟩
  · exact ⟨j, i, hgt, by omega, heq.symm⟩

/-- Such a walk has come to a cycle, and stays in the set for good. -/
theorem exists_cycle (h : ∀ m, m ≤ s.card → f^[m] a ∈ s) :
    ∃ b n, 0 < n ∧ f^[n] b = b ∧ ∀ m, f^[m] b ∈ s := by
  obtain ⟨i, j, hlt, hj, heq⟩ := exists_repeat h
  have hperiod : f^[j - i] (f^[i] a) = f^[i] a := by
    rw [← Function.iterate_add_apply, Nat.sub_add_cancel hlt.le]
    exact heq.symm
  refine ⟨f^[i] a, j - i, by omega, hperiod, fun m => ?_⟩
  have hmod : f^[m] (f^[i] a) = f^[m % (j - i)] (f^[i] a) :=
    (Function.IsPeriodicPt.iterate_mod_apply (f := f) hperiod m).symm
  have hlast := Nat.mod_lt m (by omega : 0 < j - i)
  rw [hmod, ← Function.iterate_add_apply]
  exact h _ (by omega)

theorem iterate_mem (h : ∀ m, m ≤ s.card → f^[m] a ∈ s) (m : ℕ) : f^[m] a ∈ s := by
  obtain ⟨i, j, hlt, hj, heq⟩ := exists_repeat h
  induction m using Nat.strong_induction_on with
  | _ m ih =>
      by_cases hm : m ≤ s.card
      · exact h m hm
      · have hback : f^[m] a = f^[m - j + i] a := by
          rw [Function.iterate_add_apply, heq, ← Function.iterate_add_apply, Nat.sub_add_cancel (by omega)]
        rw [hback]
        exact ih _ (by omega)

end Orbit
