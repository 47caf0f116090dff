import Mathlib.Data.Set.Basic
import SysuOs.Machine
import SysuOs.Walk

/-! Doubly linked lists whose links lie in their items. A list is the address of its head, itself an
item; the first item points back to the head and the last one forward to nothing. The operations are
those of a kernel list, on links that may be in any state. `Lists` says which items every list of a
memory holds, and each operation is one change of that table. -/

namespace SysuOs

/-- The fields `next` and `previous` of all items. -/
structure Links (α : Type) where
  next : α → Option α
  previous : α → Option α

namespace Links

variable {α : Type} [DecidableEq α]

/-! ### The operations -/

/-- The loop of `back`, from the item `temp` on. -/
def backLoop (s : Links α) : Nat → α → Outcome α
  | 0, _ => .diverge
  | fuel + 1, temp =>
      match s.next temp with
      | none => .ret temp
      | some n => s.backLoop fuel n

/-- `List::back`. -/
def back (fuel : Nat) (s : Links α) (head : α) : Outcome (Option α) :=
  match s.next head with
  | none => .ret none
  | some temp => do
      let last ← s.backLoop fuel temp
      pure (some last)

/-- `List::push_back`. -/
def pushBack (fuel : Nat) (s : Links α) (head item : α) : Outcome (Links α) := do
  let last ← s.back fuel head
  let temp := last.getD head
  pure { next := Function.update (Function.update s.next temp (some item)) item none
         previous := Function.update s.previous item (some temp) }

/-- `List::front`. -/
def front (s : Links α) (head : α) : Option α := s.next head

/-- `List::push_front`. -/
def pushFront (s : Links α) (head item : α) : Links α where
  next := Function.update (Function.update s.next head (some item)) item (s.next head)
  previous := Function.update (match s.next head with
    | some temp => Function.update s.previous temp (some item)
    | none => s.previous) item (some head)

/-- `List::pop_front`. -/
def popFront (s : Links α) (head : α) : Links α :=
  match s.next head with
  | none => s
  | some temp =>
      { next := Function.update (Function.update s.next head (s.next temp)) temp none
        previous := Function.update (match s.next temp with
          | some n => Function.update s.previous n (some head)
          | none => s.previous) temp none }

/-- The search of `erase`: whether the list from `temp` on holds `item`. -/
def findLoop (s : Links α) (item : α) : Nat → Option α → Outcome Bool
  | 0, _ => .diverge
  | _ + 1, none => .ret false
  | fuel + 1, some temp => if temp = item then .ret true else s.findLoop item fuel (s.next temp)

/-- `List::erase(ListItem *)`. -/
def erase (fuel : Nat) (s : Links α) (head item : α) : Outcome (Links α) := do
  let found ← s.findLoop item fuel (s.next head)
  pure (if found then
      { next := unlinkNext s.next s.previous item, previous := unlinkPrev s.next s.previous item }
    else s)

/-- The loop of `size`. -/
def sizeLoop (s : Links α) : Nat → Option α → Nat → Outcome Nat
  | 0, _, _ => .diverge
  | _ + 1, none, counter => .ret counter
  | fuel + 1, some temp, counter => s.sizeLoop fuel (s.next temp) (counter + 1)

/-- `List::size`. -/
def size (fuel : Nat) (s : Links α) (head : α) : Outcome Nat := s.sizeLoop fuel (s.next head) 0

/-- The loop of `clear`, from the item `temp` on. -/
def clearLoop : Nat → Option α → Links α → Outcome (Links α)
  | 0, _, _ => .diverge
  | _ + 1, none, s => .ret s
  | fuel + 1, some temp, s =>
      clearLoop fuel (s.next temp)
        { next := Function.update s.next temp none, previous := Function.update s.previous temp none }

/-- `List::clear`. -/
def clear (fuel : Nat) (s : Links α) (head : α) : Outcome (Links α) := do
  let s ← clearLoop fuel (s.next head) s
  pure { next := Function.update s.next head none, previous := Function.update s.previous head none }

/-! ### What the loops compute -/

omit [DecidableEq α] in
theorem backLoop_spec {s : Links α} {a b : α} {l : List α} {fuel : Nat}
    (hwalk : Walk s.next (s.next a) l) (h : s.backLoop fuel a = .ret b) :
    b = l.getLastD a := by
  induction l generalizing a fuel with
  | nil =>
      cases fuel with
      | zero => simp [backLoop] at h
      | succ fuel =>
          rw [backLoop, show s.next a = none from hwalk] at h
          simpa using h.symm
  | cons c l ih =>
      cases fuel with
      | zero => simp [backLoop] at h
      | succ fuel =>
          rw [backLoop, hwalk.1] at h
          rw [List.getLastD_cons]
          exact ih hwalk.2 h

omit [DecidableEq α] in
theorem backLoop_returns {s : Links α} {a : α} {l : List α} {fuel : Nat}
    (hwalk : Walk s.next (s.next a) l) (hfuel : l.length < fuel) :
    s.backLoop fuel a = .ret (l.getLastD a) := by
  induction l generalizing a fuel with
  | nil =>
      obtain ⟨fuel, rfl⟩ := Nat.exists_eq_add_of_lt hfuel
      rw [backLoop, show s.next a = none from hwalk]
      rfl
  | cons c l ih =>
      cases fuel with
      | zero => simp at hfuel
      | succ fuel =>
          rw [backLoop, hwalk.1, List.getLastD_cons]
          exact ih hwalk.2 (by simpa using hfuel)

omit [DecidableEq α] in
theorem back_spec {s : Links α} {head : α} {last : Option α} {l : List α} {fuel : Nat}
    (hwalk : Walk s.next (s.next head) l) (h : s.back fuel head = .ret last) :
    last.getD head = l.getLastD head := by
  cases l with
  | nil =>
      rw [back, show s.next head = none from hwalk] at h
      obtain rfl := Outcome.ret.inj h
      rfl
  | cons c l =>
      rw [back, hwalk.1] at h
      obtain ⟨b, hb, hlast⟩ := Outcome.bind_eq_ret h
      obtain rfl := Outcome.ret.inj hlast
      rw [List.getLastD_cons]
      exact backLoop_spec hwalk.2 hb

omit [DecidableEq α] in
/-- `back` returns the last item. -/
theorem back_eq {s : Links α} {head : α} {last : Option α} {l : List α} {fuel : Nat}
    (hwalk : Walk s.next (s.next head) l) (h : s.back fuel head = .ret last) : last = l.getLast? := by
  cases l with
  | nil =>
      rw [back, show s.next head = none from hwalk] at h
      exact (Outcome.ret.inj h).symm
  | cons c l =>
      rw [back, hwalk.1] at h
      obtain ⟨b, hb, hlast⟩ := Outcome.bind_eq_ret h
      rw [← Outcome.ret.inj hlast, backLoop_spec hwalk.2 hb, List.getLast?_cons, List.getLastD_eq_getLast?]

omit [DecidableEq α] in
theorem back_returns {s : Links α} {head : α} {l : List α} {fuel : Nat}
    (hwalk : Walk s.next (s.next head) l) (hfuel : l.length < fuel) : ∃ last, s.back fuel head = .ret last := by
  cases l with
  | nil => exact ⟨none, by rw [back, show s.next head = none from hwalk]⟩
  | cons c l =>
      have hback := backLoop_returns hwalk.2 (lt_trans (Nat.lt_succ_self _) hfuel)
      exact ⟨some (l.getLastD c), by rw [back, hwalk.1]; simp only [hback, Outcome.ret_bind]; rfl⟩

theorem findLoop_spec {s : Links α} {item : α} {head : Option α} {l : List α} {found : Bool}
    {fuel : Nat} (hwalk : Walk s.next head l) (h : s.findLoop item fuel head = .ret found) :
    found = decide (item ∈ l) := by
  induction l generalizing head fuel with
  | nil =>
      obtain rfl : head = none := hwalk
      cases fuel with
      | zero => simp [findLoop] at h
      | succ fuel => simpa [findLoop] using h.symm
  | cons c l ih =>
      obtain ⟨rfl, hl⟩ := hwalk
      cases fuel with
      | zero => simp [findLoop] at h
      | succ fuel =>
          rw [findLoop] at h
          by_cases hc : c = item
          · rw [if_pos hc] at h
            obtain rfl := Outcome.ret.inj h
            simp [hc]
          · rw [if_neg hc] at h
            have hfound := ih hl h
            simp [hfound, Ne.symm hc]

end Links

/-! ### The lists of a memory -/

/-- The items of `H` are the heads of the lists of a memory; `C h` are the items of the list at `h`. -/
structure Lists {α : Type} (s : Links α) (H : Set α) (C : α → List α) : Prop where
  walk : ∀ h ∈ H, Walk s.next (s.next h) (C h)
  back : ∀ h ∈ H, Back s.previous (some h) (C h)
  heads : ∀ h ∈ H, ∀ k ∈ H, h ∉ C k
  apart : ∀ h ∈ H, ∀ k ∈ H, ∀ a, a ∈ C h → a ∈ C k → h = k

namespace Lists

variable {α : Type} {s : Links α} {H : Set α} {C : α → List α} {head item : α}

theorem nodup (h : Lists s H C) (hh : head ∈ H) : (C head).Nodup := (h.walk head hh).nodup

/-- A list of which no item is written stays as it is. -/
theorem walk_congr {next : α → Option α} {k : α} (h : Lists s H C) (hk : k ∈ H) (hnk : next k = s.next k)
    (hn : ∀ a ∈ C k, next a = s.next a) : Walk next (next k) (C k) := by
  rw [hnk]
  exact (h.walk k hk).congr hn

/-- The list at `head` is changed to `l`, the others are not touched. -/
theorem replace [DecidableEq α] {next previous : α → Option α} {l : List α} (h : Lists s H C)
    (hwalk : Walk next (next head) l) (hback : Back previous (some head) l)
    (hnew : ∀ a ∈ l, a ∈ C head ∨ a ∉ H ∧ ∀ k ∈ H, a ∉ C k)
    (hother : ∀ k ∈ H, k ≠ head → next k = s.next k ∧
      ∀ a ∈ C k, next a = s.next a ∧ previous a = s.previous a) :
    Lists ⟨next, previous⟩ H (Function.update C head l) := by
  have hmem : ∀ k ∈ H, ∀ a ∈ Function.update C head l k, k = head ∧ a ∈ l ∨ k ≠ head ∧ a ∈ C k := by
    intro k hk a ha
    by_cases hkh : k = head
    · subst hkh
      exact .inl ⟨rfl, by rwa [Function.update_self] at ha⟩
    · exact .inr ⟨hkh, by rwa [Function.update_of_ne hkh] at ha⟩
  refine ⟨fun k hk => ?_, fun k hk => ?_, fun k hk m hm ha => ?_, fun k hk m hm a ha ha' => ?_⟩
  · by_cases hkh : k = head
    · subst hkh
      rwa [Function.update_self]
    · rw [Function.update_of_ne hkh]
      obtain ⟨hnk, hother⟩ := hother k hk hkh
      exact h.walk_congr hk hnk fun a ha => (hother a ha).1
  · by_cases hkh : k = head
    · subst hkh
      rwa [Function.update_self]
    · rw [Function.update_of_ne hkh]
      exact (h.back k hk).congr fun a ha => ((hother k hk hkh).2 a ha).2
  · obtain ⟨hmh, hl⟩ | ⟨-, hl⟩ := hmem m hm k ha
    · rcases hnew k hl with hC | ⟨hH, -⟩
      · exact h.heads k hk head (hmh ▸ hm) hC
      · exact hH hk
    · exact h.heads k hk m hm hl
  · obtain ⟨hkh, hl⟩ | ⟨hkh, hl⟩ := hmem k hk a ha <;>
      obtain ⟨hmh, hl'⟩ | ⟨hmh, hl'⟩ := hmem m hm a ha'
    · exact hkh.trans hmh.symm
    · rcases hnew a hl with hC | ⟨-, hno⟩
      · exact h.apart k hk m hm a (hkh ▸ hC) hl'
      · exact absurd hl' (hno m hm)
    · rcases hnew a hl' with hC | ⟨-, hno⟩
      · exact h.apart k hk m hm a hl (hmh ▸ hC)
      · exact absurd hl (hno k hk)
    · exact h.apart k hk m hm a hl hl'

theorem getLastD_mem {a : α} {l : List α} : l.getLastD a ∈ a :: l := by
  induction l generalizing a with
  | nil => exact List.mem_cons_self
  | cons c l ih =>
      rw [List.getLastD_cons]
      exact List.mem_cons_of_mem a ih

/-- An item linked behind the last item of a list, which begins behind `a`. -/
theorem walk_concat {next next' : α → Option α} {a : α} {l : List α} (hwalk : Walk next (next a) l)
    (ha : a ∉ l) (hitem : item ∉ a :: l) (hlast : next' (l.getLastD a) = some item)
    (hend : next' item = none) (hn : ∀ c ∈ a :: l, c ≠ l.getLastD a → next' c = next c) :
    Walk next' (next' a) (l ++ [item]) := by
  induction l generalizing a with
  | nil => exact ⟨hlast, hend⟩
  | cons c l ih =>
      obtain ⟨hc, hl⟩ := hwalk
      have hnd : c ∉ l := by
        have hw : Walk next (some c) (c :: l) := ⟨rfl, hl⟩
        exact (List.nodup_cons.mp hw.nodup).1
      rw [List.getLastD_cons] at hlast hn
      have hne : a ≠ l.getLastD c := fun he => ha (he ▸ getLastD_mem)
      have hac : next' a = some c := (hn a List.mem_cons_self hne).trans hc
      refine ⟨hac, ih hl hnd (fun hm => hitem (List.mem_cons_of_mem a hm)) hlast fun b hb => ?_⟩
      exact hn b (List.mem_cons_of_mem a hb)

theorem back_concat {previous previous' : α → Option α} {a : α} {l : List α}
    (hback : Back previous (some a) l) (hlast : previous' item = some (l.getLastD a))
    (hp : ∀ c ∈ l, previous' c = previous c) : Back previous' (some a) (l ++ [item]) := by
  induction l generalizing a with
  | nil => exact ⟨hlast, trivial⟩
  | cons c l ih =>
      obtain ⟨hc, hl⟩ := hback
      rw [List.getLastD_cons] at hlast
      exact ⟨(hp c List.mem_cons_self).trans hc, ih hl hlast fun b hb => hp b (List.mem_cons_of_mem c hb)⟩

variable [DecidableEq α]

omit [DecidableEq α] in
theorem ne_item {a k : α} (hfree : ∀ k ∈ H, item ∉ C k) (hk : k ∈ H) (ha : a ∈ C k) : a ≠ item :=
  fun he => hfree k hk (he ▸ ha)

omit [DecidableEq α] in
theorem ne_head {a k : α} (h : Lists s H C) (hh : head ∈ H) (hk : k ∈ H) (ha : a ∈ C k) : a ≠ head :=
  fun he => h.heads head hh k hk (he ▸ ha)

/-- `List::push_back` of an item that is in no list. -/
theorem pushBack {s' : Links α} {fuel : Nat} (h : Lists s H C) (hh : head ∈ H) (hi : item ∉ H)
    (hfree : ∀ k ∈ H, item ∉ C k) (hpush : s.pushBack fuel head item = .ret s') :
    Lists s' H (Function.update C head (C head ++ [item])) := by
  obtain ⟨last, hlast, hpush⟩ := Outcome.bind_eq_ret hpush
  obtain rfl := Outcome.ret.inj hpush
  have hwalk := h.walk head hh
  rw [Links.back_spec hwalk hlast]
  have hitem : item ∉ head :: C head := fun hm => by
    rcases List.mem_cons.mp hm with rfl | hm
    · exact hi hh
    · exact hfree head hh hm
  have hne : (C head).getLastD head ≠ item := fun he => hitem (he ▸ getLastD_mem)
  refine h.replace ?_ ?_ ?_ ?_
  · refine walk_concat hwalk (h.heads head hh head hh) hitem ?_ ?_ fun c hc hcl => ?_
    · rw [Function.update_of_ne hne, Function.update_self]
    · rw [Function.update_self]
    · have hci : c ≠ item := fun he => hitem (he ▸ hc)
      rw [Function.update_of_ne hci, Function.update_of_ne hcl]
  · refine back_concat (h.back head hh) (Function.update_self _ _ _) fun c hc => ?_
    exact Function.update_of_ne (ne_item hfree hh hc) _ _
  · intro a ha
    rcases List.mem_append.mp ha with ha | ha
    · exact .inl ha
    · obtain rfl := List.mem_singleton.mp ha
      exact .inr ⟨hi, hfree⟩
  · -- the last item of this list is in no other one
    intro k hk hkh
    have hlastk : ∀ a, a = k ∨ a ∈ C k → a ≠ (C head).getLastD head := by
      rintro a ha rfl
      rcases ha with hak | ha <;> rcases List.mem_cons.mp (getLastD_mem (a := head) (l := C head)) with hm | hm
      · exact hkh (hak.symm.trans hm)
      · exact h.heads k hk head hh (hak ▸ hm)
      · exact h.heads head hh k hk (hm ▸ ha)
      · exact hkh (h.apart k hk head hh _ ha hm)
    refine ⟨?_, fun a ha => ⟨?_, ?_⟩⟩
    · have hki : k ≠ item := fun he => hi (he ▸ hk)
      rw [Function.update_of_ne hki, Function.update_of_ne (hlastk k (.inl rfl))]
    · rw [Function.update_of_ne (ne_item hfree hk ha), Function.update_of_ne (hlastk a (.inr ha))]
    · exact Function.update_of_ne (ne_item hfree hk ha) _ _

omit [DecidableEq α] in
theorem pushBack_returns [DecidableEq α] {fuel : Nat} (h : Lists s H C) (hh : head ∈ H)
    (hfuel : (C head).length < fuel) : ∃ s', s.pushBack fuel head item = .ret s' := by
  have hwalk := h.walk head hh
  cases hC : C head with
  | nil =>
      rw [hC] at hwalk
      exact ⟨_, by rw [Links.pushBack, Links.back, show s.next head = none from hwalk]; rfl⟩
  | cons c l =>
      rw [hC] at hwalk hfuel
      have hback := Links.backLoop_returns hwalk.2 (lt_trans (by simp) hfuel)
      exact ⟨_, by rw [Links.pushBack, Links.back, hwalk.1]; simp only [hback, Outcome.ret_bind]; rfl⟩

/-- `List::push_front` of an item that is in no list. -/
theorem pushFront (h : Lists s H C) (hh : head ∈ H) (hi : item ∉ H) (hfree : ∀ k ∈ H, item ∉ C k) :
    Lists (s.pushFront head item) H (Function.update C head (item :: C head)) := by
  have hne : head ≠ item := fun he => hi (he ▸ hh)
  have hwalk := h.walk head hh
  have hback := h.back head hh
  have hfirst : ∀ a, s.next head = some a → a ∈ C head := fun a ha => by
    cases hC : C head with
    | nil =>
        rw [hC] at hwalk
        exact absurd (ha.symm.trans hwalk) (by simp)
    | cons c l =>
        rw [hC] at hwalk
        obtain rfl := Option.some.inj (ha.symm.trans hwalk.1)
        exact List.mem_cons_self
  rw [Links.pushFront]
  refine h.replace ?_ ?_ ?_ ?_
  · refine ⟨?_, ?_⟩
    · rw [Function.update_of_ne hne, Function.update_self]
    · rw [Function.update_self]
      refine hwalk.congr fun a ha => ?_
      rw [Function.update_of_ne (ne_item hfree hh ha), Function.update_of_ne (h.ne_head hh hh ha)]
  · refine ⟨Function.update_self _ _ _, ?_⟩
    cases hC : C head with
    | nil => trivial
    | cons c l =>
        rw [hC] at hwalk hback
        have hnd := (List.nodup_cons.mp (hC ▸ h.nodup hh)).1
        have hci : ∀ a ∈ c :: l, a ≠ item := fun a ha => ne_item hfree hh (hC ▸ ha)
        rw [hwalk.1]
        show Back (Function.update (Function.update s.previous c (some item)) item (some head)) _ _
        refine ⟨?_, hback.2.congr fun a ha => ?_⟩
        · rw [Function.update_of_ne (hci c List.mem_cons_self), Function.update_self]
        · have hac : a ≠ c := fun he => hnd (he ▸ ha)
          rw [Function.update_of_ne (hci a (List.mem_cons_of_mem c ha)), Function.update_of_ne hac]
  · intro a ha
    rcases List.mem_cons.mp ha with rfl | ha
    · exact .inr ⟨hi, hfree⟩
    · exact .inl ha
  · intro k hk hkh
    refine ⟨?_, fun a ha => ⟨?_, ?_⟩⟩
    · have hki : k ≠ item := fun he => hi (he ▸ hk)
      rw [Function.update_of_ne hki, Function.update_of_ne hkh]
    · rw [Function.update_of_ne (ne_item hfree hk ha), Function.update_of_ne (h.ne_head hh hk ha)]
    · rw [Function.update_of_ne (ne_item hfree hk ha)]
      cases hs : s.next head with
      | none => rfl
      | some c =>
          have hac : a ≠ c := fun he => hkh (h.apart k hk head hh a ha (he ▸ hfirst c hs))
          exact Function.update_of_ne hac _ _

omit [DecidableEq α] in
/-- `List::front`. -/
theorem front (h : Lists s H C) (hh : head ∈ H) : s.front head = (C head).head? := by
  have hwalk := h.walk head hh
  cases hC : C head with
  | nil =>
      rw [hC] at hwalk
      exact hwalk
  | cons c l =>
      rw [hC] at hwalk
      exact hwalk.1

/-- `List::pop_front`. -/
theorem popFront (h : Lists s H C) (hh : head ∈ H) :
    Lists (s.popFront head) H (Function.update C head (C head).tail) := by
  have hwalk := h.walk head hh
  have hback := h.back head hh
  have hself := h.heads head hh head hh
  cases hC : C head with
  | nil =>
      rw [hC] at hwalk
      rw [Links.popFront, show s.next head = none from hwalk]
      have hsame : Function.update C head [] = C := by rw [← hC, Function.update_eq_self]
      rw [List.tail_nil, hsame]
      exact h
  | cons c l =>
      have hnd := List.nodup_cons.mp (hC ▸ h.nodup hh)
      rw [hC] at hwalk hback hself
      have hch : head ≠ c := fun he => hself (he ▸ List.mem_cons_self)
      have hsnd : ∀ a, s.next c = some a → a ∈ l := fun a ha => by
        cases l with
        | nil => exact absurd (ha.symm.trans hwalk.2) (by simp)
        | cons b l =>
            obtain rfl := Option.some.inj (ha.symm.trans hwalk.2.1)
            exact List.mem_cons_self
      rw [Links.popFront, hwalk.1, List.tail_cons]
      refine h.replace ?_ ?_ (fun a ha => .inl (hC ▸ List.mem_cons_of_mem c ha)) ?_
      · rw [Function.update_of_ne hch, Function.update_self]
        refine hwalk.2.congr fun a ha => ?_
        have hac : a ≠ c := fun he => hnd.1 (he ▸ ha)
        have hah : a ≠ head := h.ne_head hh hh (hC ▸ List.mem_cons_of_mem c ha)
        rw [Function.update_of_ne hac, Function.update_of_ne hah]
      · cases l with
        | nil => trivial
        | cons b l =>
            have hbc : b ≠ c := fun he => hnd.1 (he ▸ List.mem_cons_self)
            rw [hwalk.2.1]
            show Back (Function.update (Function.update s.previous b (some head)) c none) _ _
            refine ⟨?_, hback.2.2.congr fun a ha => ?_⟩
            · rw [Function.update_of_ne hbc, Function.update_self]
            · have hac : a ≠ c := fun he => hnd.1 (he ▸ List.mem_cons_of_mem b ha)
              have hab : a ≠ b := fun he => (List.nodup_cons.mp hnd.2).1 (he ▸ ha)
              rw [Function.update_of_ne hac, Function.update_of_ne hab]
      · intro k hk hkh
        have hcC : c ∈ C head := hC ▸ List.mem_cons_self
        have hkc : k ≠ c := fun he => h.heads k hk head hh (he ▸ hcC)
        have hac : ∀ a ∈ C k, a ≠ c := fun a ha he => hkh (h.apart k hk head hh a ha (he ▸ hcC))
        refine ⟨?_, fun a ha => ⟨?_, ?_⟩⟩
        · rw [Function.update_of_ne hkc, Function.update_of_ne hkh]
        · rw [Function.update_of_ne (hac a ha), Function.update_of_ne (h.ne_head hh hk ha)]
        · rw [Function.update_of_ne (hac a ha)]
          cases hs : s.next c with
          | none => rfl
          | some b =>
              have hbC : b ∈ C head := hC ▸ List.mem_cons_of_mem c (hsnd b hs)
              have hab : a ≠ b := fun he => hkh (h.apart k hk head hh a ha (he ▸ hbC))
              exact Function.update_of_ne hab _ _

/-- `List::erase`. -/
theorem erase {s' : Links α} {fuel : Nat} (h : Lists s H C) (hh : head ∈ H)
    (herase : s.erase fuel head item = .ret s') :
    Lists s' H (Function.update C head ((C head).erase item)) := by
  have hwalk := h.walk head hh
  have hback := h.back head hh
  have hself := h.heads head hh head hh
  obtain ⟨found, hfound, herase⟩ := Outcome.bind_eq_ret herase
  obtain rfl := Outcome.ret.inj herase
  rw [Links.findLoop_spec hwalk hfound]
  by_cases hitem : item ∈ C head
  · rw [if_pos (decide_eq_true hitem)]
    obtain ⟨hwalk', hback'⟩ := unlink_segment hwalk hback hitem fun p hp => by
      obtain rfl := Option.some.inj hp
      exact hself
    have hfirst : unlinkNext s.next s.previous item head =
        if s.next head = some item then s.next item else s.next head := by
      split
      · next hnext =>
          refine unlinkNext_pred ?_
          cases hC : C head with
          | nil => simp [hC] at hitem
          | cons c l =>
              rw [hC] at hwalk hback
              obtain rfl := Option.some.inj (hwalk.1.symm.trans hnext)
              exact hback.1
      · next hnext =>
          exact unlinkNext_of_ne fun hp => hnext (hback.next_of_prev hwalk hitem hp hself)
    refine h.replace (by rwa [hfirst]) hback' (fun a ha => .inl (List.mem_of_mem_erase ha)) ?_
    intro k hk hkh
    have hother : ∀ a, a = k ∨ a ∈ C k → s.previous item ≠ some a ∧ (a ∈ C k → s.next item ≠ some a) := by
      intro a ha
      refine ⟨fun hp => ?_, fun hak hn => ?_⟩
      · rcases hback.mem_of_prev hitem hp with rfl | hmem
        · rcases ha with hak | ha
          · exact hkh hak.symm
          · exact h.heads a hh k hk ha
        · rcases ha with rfl | ha
          · exact h.heads a hk head hh hmem
          · exact hkh (h.apart k hk head hh a ha hmem)
      · obtain ⟨l, m, hlm⟩ := List.append_of_mem hitem
        rw [hlm] at hwalk
        have hrest := hwalk.suffix.2
        rw [hn] at hrest
        cases m with
        | nil => simp at hrest
        | cons c m =>
            obtain rfl := Option.some.inj hrest.1
            refine hkh (h.apart k hk head hh a hak ?_)
            rw [hlm]
            simp
    refine ⟨unlinkNext_of_ne (hother k (.inl rfl)).1, fun a ha => ⟨?_, ?_⟩⟩
    · exact unlinkNext_of_ne (hother a (.inr ha)).1
    · exact unlinkPrev_of_ne ((hother a (.inr ha)).2 ha)
  · rw [if_neg (by simpa using hitem), List.erase_of_not_mem hitem, Function.update_eq_self]
    exact h

end Lists

/-! ### Items of two kinds

Lists whose items are of different kinds never get in each other's way, whatever state one of them is
in. -/

namespace Links

/-- The links lead from an item to items of its own kind. -/
structure Separate {α : Type} (s : Links α) (kind : α → Bool) : Prop where
  next : ∀ a b, s.next a = some b → kind b = kind a
  previous : ∀ a b, s.previous a = some b → kind b = kind a

/-- Only items of the kind `k` are written. -/
structure Within {α : Type} (s s' : Links α) (kind : α → Bool) (k : Bool) : Prop where
  next : ∀ a, kind a ≠ k → s'.next a = s.next a
  previous : ∀ a, kind a ≠ k → s'.previous a = s.previous a

variable {α : Type} {s s' : Links α} {kind : α → Bool} {k : Bool} {head item : α} {fuel : Nat}

theorem Within.refl : Within s s kind k := ⟨fun _ _ => rfl, fun _ _ => rfl⟩

theorem Within.trans {s₁ : Links α} (h : Within s s₁ kind k) (h' : Within s₁ s' kind k) : Within s s' kind k :=
  ⟨fun a ha => (h'.next a ha).trans (h.next a ha), fun a ha => (h'.previous a ha).trans (h.previous a ha)⟩

/-- A list of the other kind stays as it is. -/
theorem Within.lists {H : Set α} {C : α → List α} (h : Within s s' kind k) (hs : Lists s H C)
    (hkind : ∀ a ∈ H, kind a ≠ k ∧ ∀ b ∈ C a, kind b ≠ k) : Lists s' H C :=
  { hs with
    walk := fun a ha => hs.walk_congr ha (h.next a (hkind a ha).1) fun b hb => h.next b ((hkind a ha).2 b hb)
    back := fun a ha => (hs.back a ha).congr fun b hb => h.previous b ((hkind a ha).2 b hb) }

theorem Separate.back (h : Separate s kind) {last : Option α} (hback : s.back fuel head = .ret last) :
    kind (last.getD head) = kind head := by
  have hloop : ∀ fuel a b, s.backLoop fuel a = .ret b → kind b = kind a := by
    intro fuel
    induction fuel with
    | zero => simp [backLoop]
    | succ fuel ih =>
        intro a b hb
        rw [backLoop] at hb
        split at hb
        · rw [Outcome.ret.inj hb]
        · next n hn => exact (ih n b hb).trans (h.next a n hn)
  rw [Links.back] at hback
  split at hback
  · rw [← Outcome.ret.inj hback]
    rfl
  · next temp htemp =>
      obtain ⟨b, hb, hlast⟩ := Outcome.bind_eq_ret hback
      rw [← Outcome.ret.inj hlast]
      exact (hloop fuel temp b hb).trans (h.next head temp htemp)

variable [DecidableEq α]

/-- One link is written, from an item of the kind `k` to none or to one of the kind `k`. -/
theorem update_kind {f : α → Option α} {a : α} {b : Option α} (h : ∀ a b, f a = some b → kind b = kind a)
    (ha : kind a = k) (hb : ∀ c, b = some c → kind c = k) :
    (∀ c d, Function.update f a b c = some d → kind d = kind c) ∧
      ∀ c, kind c ≠ k → Function.update f a b c = f c := by
  refine ⟨fun c d hd => ?_, fun c hc => Function.update_of_ne (fun he => hc (by rwa [he])) _ _⟩
  by_cases hca : c = a
  · subst hca
    rw [Function.update_self] at hd
    exact (hb d hd).trans ha.symm
  · rw [Function.update_of_ne hca] at hd
    exact h c d hd

theorem Separate.pushBack (h : Separate s kind) (hhead : kind head = k) (hitem : kind item = k)
    (hpush : s.pushBack fuel head item = .ret s') : Separate s' kind ∧ Within s s' kind k := by
  obtain ⟨last, hlast, hpush⟩ := Outcome.bind_eq_ret hpush
  obtain rfl := Outcome.ret.inj hpush
  have htemp := (h.back hlast).trans hhead
  obtain ⟨hn₁, hw₁⟩ := update_kind (b := some item) h.next htemp fun c hc => by rwa [← Option.some.inj hc]
  obtain ⟨hn₂, hw₂⟩ := update_kind (b := none) hn₁ hitem fun c hc => by simp at hc
  obtain ⟨hp, hwp⟩ := update_kind (b := some (last.getD head)) h.previous hitem fun c hc => by
    rwa [← Option.some.inj hc]
  exact ⟨⟨hn₂, hp⟩, ⟨fun a ha => (hw₂ a ha).trans (hw₁ a ha), hwp⟩⟩

theorem Separate.popFront (h : Separate s kind) (hhead : kind head = k) :
    Separate (s.popFront head) kind ∧ Within s (s.popFront head) kind k := by
  rw [Links.popFront]
  split
  · exact ⟨h, .refl⟩
  · next temp htemp =>
      have hk : kind temp = k := (h.next head temp htemp).trans hhead
      have hnext : ∀ c, s.next temp = some c → kind c = k := fun c hc => (h.next temp c hc).trans hk
      obtain ⟨hn₁, hw₁⟩ := update_kind h.next hhead hnext
      obtain ⟨hn₂, hw₂⟩ := update_kind (b := none) hn₁ hk fun c hc => by simp at hc
      have hp : (∀ a b, (match s.next temp with
            | some n => Function.update s.previous n (some head)
            | none => s.previous) a = some b → kind b = kind a) ∧
          ∀ a, kind a ≠ k → (match s.next temp with
            | some n => Function.update s.previous n (some head)
            | none => s.previous) a = s.previous a := by
        cases hn : s.next temp with
        | none => exact ⟨h.previous, fun _ _ => rfl⟩
        | some n =>
            exact update_kind h.previous (hnext n hn) fun c hc => by rwa [← Option.some.inj hc]
      obtain ⟨hp₂, hwp₂⟩ := update_kind (b := none) hp.1 hk fun c hc => by simp at hc
      exact ⟨⟨hn₂, hp₂⟩, ⟨fun a ha => (hw₂ a ha).trans (hw₁ a ha), fun a ha => (hwp₂ a ha).trans (hp.2 a ha)⟩⟩

theorem Separate.erase (h : Separate s kind) (hitem : kind item = k)
    (herase : s.erase fuel head item = .ret s') : Separate s' kind ∧ Within s s' kind k := by
  obtain ⟨found, -, herase⟩ := Outcome.bind_eq_ret herase
  obtain rfl := Outcome.ret.inj herase
  cases found with
  | false => exact ⟨h, .refl⟩
  | true =>
      have hnext : (∀ a b, unlinkNext s.next s.previous item a = some b → kind b = kind a) ∧
          ∀ a, kind a ≠ k → unlinkNext s.next s.previous item a = s.next a := by
        unfold unlinkNext
        cases hp : s.previous item with
        | none => exact ⟨h.next, fun _ _ => rfl⟩
        | some p =>
            exact update_kind h.next ((h.previous item p hp).trans hitem) fun c hc =>
              (h.next item c hc).trans hitem
      have hprevious : (∀ a b, unlinkPrev s.next s.previous item a = some b → kind b = kind a) ∧
          ∀ a, kind a ≠ k → unlinkPrev s.next s.previous item a = s.previous a := by
        unfold unlinkPrev
        cases hn : s.next item with
        | none => exact ⟨h.previous, fun _ _ => rfl⟩
        | some n =>
            exact update_kind h.previous ((h.next item n hn).trans hitem) fun c hc =>
              (h.previous item c hc).trans hitem
      exact ⟨⟨hnext.1, hprevious.1⟩, ⟨hnext.2, hprevious.2⟩⟩

theorem Separate.clearLoop {s s' : Links α} {first : Option α} (h : Separate s kind)
    (hfirst : ∀ a, first = some a → kind a = k) (hclear : clearLoop fuel first s = .ret s') :
    Separate s' kind ∧ Within s s' kind k := by
  induction fuel generalizing first s with
  | zero => cases hclear
  | succ fuel ih =>
      cases first with
      | none =>
          obtain rfl := Outcome.ret.inj hclear
          exact ⟨h, .refl⟩
      | some temp =>
          have hk := hfirst temp rfl
          obtain ⟨hn, hwn⟩ := update_kind (b := none) h.next hk fun c hc => by simp at hc
          obtain ⟨hp, hwp⟩ := update_kind (b := none) h.previous hk fun c hc => by simp at hc
          obtain ⟨hsep, hwithin⟩ := ih ⟨hn, hp⟩ (fun a ha => (h.next temp a ha).trans hk) hclear
          exact ⟨hsep, Within.trans ⟨hwn, hwp⟩ hwithin⟩

theorem Separate.clear (h : Separate s kind) (hhead : kind head = k) (hclear : s.clear fuel head = .ret s') :
    Separate s' kind ∧ Within s s' kind k := by
  obtain ⟨s₁, hloop, hclear⟩ := Outcome.bind_eq_ret hclear
  obtain rfl := Outcome.ret.inj hclear
  obtain ⟨hsep, hwithin⟩ := h.clearLoop (fun a ha => (h.next head a ha).trans hhead) hloop
  obtain ⟨hn, hwn⟩ := update_kind (b := none) hsep.next hhead fun c hc => by simp at hc
  obtain ⟨hp, hwp⟩ := update_kind (b := none) hsep.previous hhead fun c hc => by simp at hc
  exact ⟨⟨hn, hp⟩, hwithin.trans ⟨hwn, hwp⟩⟩

/-- After `clear` the list is empty, whatever its links were. -/
theorem clear_lists (hclear : s.clear fuel head = .ret s') : Lists s' {head} fun _ => [] := by
  obtain ⟨s₁, -, hclear⟩ := Outcome.bind_eq_ret hclear
  obtain rfl := Outcome.ret.inj hclear
  refine ⟨?_, fun _ _ => trivial, fun _ _ _ _ => List.not_mem_nil, fun a ha b hb _ _ _ => ha.trans hb.symm⟩
  rintro a rfl
  exact Function.update_self _ _ _

/-! ### Finitely many links -/

/-- Finitely many items lead to another one. -/
def Bounded (s : Links α) : Prop := ∃ S : Finset α, ∀ a, a ∉ S → s.next a = none

theorem Bounded.update (h : Bounded s) (a : α) (b : Option α) (previous : α → Option α) :
    Bounded ⟨Function.update s.next a b, previous⟩ := by
  obtain ⟨S, hS⟩ := h
  refine ⟨insert a S, fun c hc => ?_⟩
  rw [Finset.mem_insert, not_or] at hc
  exact (Function.update_of_ne hc.1 _ _).trans (hS c hc.2)

theorem Bounded.pushBack (h : Bounded s) (hpush : s.pushBack fuel head item = .ret s') : Bounded s' := by
  obtain ⟨last, -, hpush⟩ := Outcome.bind_eq_ret hpush
  obtain rfl := Outcome.ret.inj hpush
  exact (h.update _ _ s.previous).update _ _ _

theorem Bounded.popFront (h : Bounded s) : Bounded (s.popFront head) := by
  rw [Links.popFront]
  split
  · exact h
  · exact (h.update _ _ s.previous).update _ _ _

theorem Bounded.clear (h : Bounded s) (hclear : s.clear fuel head = .ret s') : Bounded s' := by
  have hloop : ∀ fuel first (s s' : Links α), Bounded s → clearLoop fuel first s = .ret s' → Bounded s' := by
    intro fuel
    induction fuel with
    | zero => intro first s s' _ hret; cases hret
    | succ fuel ih =>
        intro first s s' hs hret
        cases first with
        | none =>
            obtain rfl := Outcome.ret.inj hret
            exact hs
        | some temp => exact ih _ _ _ (hs.update temp none _) hret
  obtain ⟨s₁, hret, hclear⟩ := Outcome.bind_eq_ret hclear
  obtain rfl := Outcome.ret.inj hclear
  exact (hloop _ _ _ _ h hret).update head none _

/-- `clear` comes to an end even on a list that runs in a circle: it takes each link away as it goes. -/
theorem Bounded.clear_returns (h : Bounded s) (head : α) :
    ∃ n, ∀ fuel, n ≤ fuel → ∃ s', s.clear fuel head = .ret s' := by
  have hloop : ∀ fuel (S : Finset α) (s : Links α) (first : Option α), S.card + 2 ≤ fuel →
      (∀ a, a ∉ S → s.next a = none) → ∃ s', clearLoop fuel first s = .ret s' := by
    intro fuel
    induction fuel with
    | zero => intro S s first hcard; omega
    | succ fuel ih =>
        intro S s first hcard hS
        cases first with
        | none => exact ⟨s, rfl⟩
        | some temp =>
            rw [clearLoop]
            by_cases hmem : temp ∈ S
            · have hcard' := Finset.card_erase_add_one hmem
              refine ih (S.erase temp) _ _ (by omega) fun a ha => ?_
              by_cases hat : a = temp
              · rw [hat]
                exact Function.update_self _ _ _
              · refine (Function.update_of_ne hat _ _).trans (hS a fun haS => ha ?_)
                exact Finset.mem_erase.mpr ⟨hat, haS⟩
            · obtain ⟨fuel, rfl⟩ : ∃ n, fuel = n + 1 := ⟨fuel - 1, by omega⟩
              rw [hS temp hmem]
              exact ⟨_, rfl⟩
  obtain ⟨S, hS⟩ := h
  refine ⟨S.card + 2, fun fuel hfuel => ?_⟩
  obtain ⟨s', hs'⟩ := hloop fuel S s (s.next head) hfuel hS
  exact ⟨_, by rw [Links.clear, hs']; rfl⟩

end Links

end SysuOs
