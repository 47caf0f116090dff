import SysuOs.IntrusiveList

/-! One intrusive list as a sequence: the operations that take places, and all of them against the
operations on sequences, over any run of calls. -/

namespace SysuOs

namespace Links

variable {α : Type} [DecidableEq α]

/-! ### The operations with places -/

/-- The loop of `at`: `pos` links on, or to the end. -/
def atLoop (s : Links α) : ℕ → Option α → Option α
  | 0, temp => temp
  | _ + 1, none => none
  | i + 1, some temp => s.atLoop i (s.next temp)

/-- `List::at`. -/
def «at» (s : Links α) (head : α) (pos : ℤ) : Option α := s.atLoop pos.toNat (s.next head)

/-- The loop of `find`. -/
def findPos (s : Links α) (item : α) : ℕ → Option α → ℤ → Outcome ℤ
  | 0, _, _ => .diverge
  | _ + 1, none, _ => .ret (-1)
  | fuel + 1, some temp, pos => if temp = item then .ret pos else s.findPos item fuel (s.next temp) (pos + 1)

/-- `List::find`. -/
def find (fuel : ℕ) (s : Links α) (head item : α) : Outcome ℤ := s.findPos item fuel (s.next head) 0

/-- The end of `pop_back`: the item `temp` behind `p` is cut off. -/
def cut (s : Links α) (p temp : α) : Links α where
  next := Function.update (Function.update s.next p none) temp none
  previous := Function.update s.previous temp none

/-- `List::pop_back`. In this and the two that follow, `none` is a write through the null pointer. -/
def popBack (fuel : ℕ) (s : Links α) (head : α) : Outcome (Option (Links α)) := do
  match ← s.back fuel head with
  | none => pure (some s)
  | some temp => pure ((s.previous temp).map fun p => s.cut p temp)

/-- The end of `insert`: `item` before `temp`, which is behind `p`. -/
def spliced (s : Links α) (p temp item : α) : Links α where
  next := Function.update (Function.update s.next item (some temp)) p (some item)
  previous := Function.update (Function.update s.previous item (some p)) temp (some item)

/-- `List::insert`. -/
def insert (fuel : ℕ) (s : Links α) (head : α) (pos : ℤ) (item : α) : Outcome (Option (Links α)) :=
  if pos = 0 then pure (some (s.pushFront head item))
  else do
    let length ← s.size fuel head
    if pos = length then
      let s ← s.pushBack fuel head item
      pure (some s)
    else if pos < length then
      pure (do
        let temp ← s.at head pos
        let p ← s.previous temp
        some (s.spliced p temp item))
    else pure (some s)

/-- The links past `temp`, as both functions `erase` write them. -/
def unlinked (s : Links α) (temp : α) : Links α where
  next := unlinkNext s.next s.previous temp
  previous := unlinkPrev s.next s.previous temp

/-- `List::erase(int)`. -/
def eraseAt (fuel : ℕ) (s : Links α) (head : α) (pos : ℤ) : Outcome (Option (Links α)) :=
  if pos = 0 then pure (some (s.popFront head))
  else do
    let length ← s.size fuel head
    if pos < length then pure ((s.at head pos).map s.unlinked) else pure (some s)

/-- `List::initialize`. -/
def init (s : Links α) (head : α) : Links α where
  next := Function.update s.next head none
  previous := Function.update s.previous head none

end Links

/-! ### The chain of a list -/

/-- The list at `head` is the sequence `l`: forward from the head, backward to it, and without a cycle. -/
structure Chain {α : Type} (s : Links α) (head : α) (l : List α) : Prop where
  walk : Walk s.next (s.next head) l
  back : Back s.previous (some head) l
  nodup : l.Nodup
  head_not_mem : head ∉ l

namespace Chain

variable {α : Type} {s : Links α} {head item temp : α} {l m t : List α}

theorem lists (h : Chain s head l) : Lists s {head} fun _ => l where
  walk := by
    rintro k rfl
    exact h.walk
  back := by
    rintro k rfl
    exact h.back
  heads := by
    rintro k rfl k' _
    exact h.head_not_mem
  apart := by
    rintro k rfl k' rfl a _ _
    rfl

theorem of_lists {C : α → List α} (h : Lists s {head} C) : Chain s head (C head) where
  walk := h.walk head rfl
  back := h.back head rfl
  nodup := h.nodup rfl
  head_not_mem := h.heads head rfl head rfl

theorem head_eq (h : Chain s head l) : s.next head = l.head? := h.lists.front rfl

variable [DecidableEq α]

theorem of_update {C : α → List α} (h : Lists s {head} (Function.update C head l)) : Chain s head l := by
  have hchain := of_lists h
  rwa [Function.update_self] at hchain

/-! ### What the loops compute -/

omit [DecidableEq α] in
theorem atLoop_walk {first : Option α} (h : Walk s.next first l) (i : ℕ) : s.atLoop i first = l[i]? := by
  induction i generalizing first l with
  | zero =>
      cases l with
      | nil => exact h
      | cons a l => exact h.1
  | succ i ih =>
      cases l with
      | nil =>
          obtain rfl : first = none := h
          rfl
      | cons a l =>
          obtain ⟨rfl, hl⟩ := h
          rw [Links.atLoop, List.getElem?_cons_succ]
          exact ih hl

omit [DecidableEq α] in
theorem at_eq (h : Chain s head l) (pos : ℤ) : s.at head pos = l[pos.toNat]? := atLoop_walk h.walk pos.toNat

omit [DecidableEq α] in
theorem sizeLoop_walk {first : Option α} (h : Walk s.next first l) {fuel : ℕ} (hfuel : l.length < fuel)
    (counter : ℕ) : s.sizeLoop fuel first counter = .ret (counter + l.length) := by
  induction l generalizing first fuel counter with
  | nil =>
      obtain ⟨fuel, rfl⟩ := Nat.exists_eq_add_of_lt hfuel
      obtain rfl : first = none := h
      rfl
  | cons a l ih =>
      obtain ⟨rfl, hl⟩ := h
      cases fuel with
      | zero => cases hfuel
      | succ fuel =>
          rw [Links.sizeLoop, ih hl (Nat.lt_of_succ_lt_succ hfuel), List.length_cons]
          congr 1
          omega

omit [DecidableEq α] in
theorem size_eq (h : Chain s head l) {fuel : ℕ} (hfuel : l.length < fuel) :
    s.size fuel head = .ret l.length := by
  rw [Links.size, sizeLoop_walk h.walk hfuel, Nat.zero_add]

theorem findLoop_walk {first : Option α} (h : Walk s.next first l) {fuel : ℕ} (hfuel : l.length < fuel) :
    s.findLoop item fuel first = .ret (decide (item ∈ l)) := by
  induction l generalizing first fuel with
  | nil =>
      obtain ⟨fuel, rfl⟩ := Nat.exists_eq_add_of_lt hfuel
      obtain rfl : first = none := h
      rfl
  | cons a l ih =>
      obtain ⟨rfl, hl⟩ := h
      cases fuel with
      | zero => cases hfuel
      | succ fuel =>
          rw [Links.findLoop]
          by_cases ha : a = item
          · simp [ha]
          · rw [if_neg ha, ih hl (Nat.lt_of_succ_lt_succ hfuel)]
            simp [Ne.symm ha]

/-- The place of an item, or `-1`. -/
def place (item : α) (l : List α) : ℤ := if item ∈ l then l.idxOf item else -1

theorem findPos_walk {first : Option α} (h : Walk s.next first l) {fuel : ℕ} (hfuel : l.length < fuel)
    (pos : ℤ) : s.findPos item fuel first pos = .ret (if item ∈ l then pos + l.idxOf item else -1) := by
  induction l generalizing first fuel pos with
  | nil =>
      obtain ⟨fuel, rfl⟩ := Nat.exists_eq_add_of_lt hfuel
      obtain rfl : first = none := h
      rfl
  | cons a l ih =>
      obtain ⟨rfl, hl⟩ := h
      cases fuel with
      | zero => cases hfuel
      | succ fuel =>
          rw [Links.findPos]
          by_cases ha : a = item
          · rw [if_pos ha, ha, List.idxOf_cons_self, if_pos List.mem_cons_self]
            simp
          · rw [if_neg ha, ih hl (Nat.lt_of_succ_lt_succ hfuel), List.idxOf_cons_ne _ ha]
            simp only [List.mem_cons, Ne.symm ha, false_or, Nat.cast_succ]
            congr 2
            omega

theorem find_eq (h : Chain s head l) {fuel : ℕ} (hfuel : l.length < fuel) :
    s.find fuel head item = .ret (place item l) := by
  rw [Links.find, findPos_walk h.walk hfuel, Int.zero_add, place]

omit [DecidableEq α] in
theorem back_eq (h : Chain s head l) {fuel : ℕ} (hfuel : l.length < fuel) :
    s.back fuel head = .ret l.getLast? := by
  obtain ⟨last, hlast⟩ := Links.back_returns h.walk hfuel
  rw [hlast, Links.back_eq h.walk hlast]

theorem clearLoop_walk {first : Option α} (h : Walk s.next first l) :
    ∃ s', ∀ fuel, l.length < fuel → Links.clearLoop fuel first s = .ret s' := by
  induction l generalizing first s with
  | nil =>
      obtain rfl : first = none := h
      refine ⟨s, fun fuel hfuel => ?_⟩
      obtain ⟨fuel, rfl⟩ := Nat.exists_eq_add_of_lt hfuel
      rfl
  | cons a l ih =>
      have hnd := List.nodup_cons.mp h.nodup
      obtain ⟨rfl, hl⟩ := h
      have hrest : Walk (Function.update s.next a none) (s.next a) l :=
        hl.congr fun b hb => Function.update_of_ne (ne_of_mem_of_not_mem hb hnd.1) _ _
      obtain ⟨s', hs'⟩ := @ih ⟨Function.update s.next a none, Function.update s.previous a none⟩ _ hrest
      refine ⟨s', fun fuel hfuel => ?_⟩
      cases fuel with
      | zero => cases hfuel
      | succ fuel => exact hs' fuel (Nat.lt_of_succ_lt_succ hfuel)

/-! ### What the operations leave -/

theorem init (s : Links α) (head : α) : Chain (s.init head) head [] :=
  ⟨Function.update_self .., trivial, List.nodup_nil, List.not_mem_nil⟩

theorem pushFront (h : Chain s head l) (hne : item ≠ head) (hitem : item ∉ l) :
    Chain (s.pushFront head item) head (item :: l) :=
  of_update (h.lists.pushFront rfl hne fun _ _ => hitem)

theorem popFront (h : Chain s head l) : Chain (s.popFront head) head l.tail := of_update (h.lists.popFront rfl)

theorem pushBack (h : Chain s head l) (hne : item ≠ head) (hitem : item ∉ l) :
    ∃ s', (∀ fuel, l.length < fuel → s.pushBack fuel head item = .ret s') ∧ Chain s' head (l ++ [item]) := by
  have hret : ∀ fuel, l.length < fuel → s.pushBack fuel head item =
      .ret { next := Function.update (Function.update s.next (l.getLast?.getD head) (some item)) item none
             previous := Function.update s.previous item (some (l.getLast?.getD head)) } := by
    intro fuel hfuel
    rw [Links.pushBack, h.back_eq hfuel]
    rfl
  exact ⟨_, hret, of_update (h.lists.pushBack rfl hne (fun _ _ => hitem) (hret _ (Nat.lt_succ_self _)))⟩

theorem eraseItem (h : Chain s head l) :
    ∃ s', (∀ fuel, l.length < fuel → s.erase fuel head item = .ret s') ∧ Chain s' head (l.erase item) := by
  have hret : ∀ fuel, l.length < fuel → s.erase fuel head item =
      .ret (if decide (item ∈ l) then s.unlinked item else s) := by
    intro fuel hfuel
    rw [Links.erase, findLoop_walk h.walk hfuel]
    rfl
  exact ⟨_, hret, of_update (h.lists.erase rfl (hret _ (Nat.lt_succ_self _)))⟩

theorem unlinked (h : Chain s head l) (hitem : item ∈ l) : Chain (s.unlinked item) head (l.erase item) := by
  have hret : s.erase (l.length + 1) head item = .ret (s.unlinked item) := by
    rw [Links.erase, findLoop_walk h.walk (Nat.lt_succ_self _), decide_eq_true hitem]
    rfl
  exact of_update (h.lists.erase rfl hret)

theorem clear (h : Chain s head l) :
    ∃ s', (∀ fuel, l.length < fuel → s.clear fuel head = .ret s') ∧ Chain s' head [] := by
  obtain ⟨s₁, hs₁⟩ := clearLoop_walk h.walk
  have hret : ∀ fuel, l.length < fuel → s.clear fuel head = .ret (s₁.init head) := by
    intro fuel hfuel
    rw [Links.clear, hs₁ fuel hfuel]
    rfl
  exact ⟨_, hret, init s₁ head⟩

omit [DecidableEq α] in
/-- The item before another one. -/
theorem previous_eq {a : α} (h : Back s.previous (some a) (m ++ temp :: t)) :
    s.previous temp = some (m.getLastD a) := by
  induction m generalizing a with
  | nil => exact h.1
  | cons c m ih =>
      rw [List.getLastD_cons]
      exact ih h.2

/-- `List::pop_back`. -/
theorem popBack (h : Chain s head l) :
    ∃ s', (∀ fuel, l.length < fuel → s.popBack fuel head = .ret (some s')) ∧ Chain s' head l.dropLast := by
  rcases List.eq_nil_or_concat l with rfl | ⟨m, temp, rfl⟩
  · refine ⟨s, fun fuel hfuel => ?_, h⟩
    rw [Links.popBack, h.back_eq hfuel]
    rfl
  · rw [List.concat_eq_append] at h ⊢
    have hprev : s.previous temp = some (m.getLastD head) := previous_eq h.back
    have hmem : temp ∈ m ++ [temp] := List.mem_append_right m List.mem_cons_self
    have hfresh : temp ∉ m := fun hm =>
      (List.nodup_append.mp h.nodup).2.2 temp hm temp List.mem_cons_self rfl
    have hend : s.next temp = none := h.walk.suffix.2
    have hhead : head ≠ temp := fun he => h.head_not_mem (he ▸ hmem)
    -- up to the links of the item itself this is what `erase` writes
    have hwritten : ∀ a, a ≠ temp → (s.cut (m.getLastD head) temp).next a = (s.unlinked temp).next a := by
      intro a ha
      rw [Links.cut, Links.unlinked, unlinkNext, hprev, hend]
      exact Function.update_of_ne ha ..
    have hkept : (s.unlinked temp).previous = s.previous := by rw [Links.unlinked, unlinkPrev, hend]
    have hchain := h.unlinked hmem
    rw [List.erase_append_right _ hfresh, List.erase_cons_head, List.append_nil] at hchain
    rw [List.dropLast_concat]
    have hne : ∀ a ∈ m, a ≠ temp := fun a ha => ne_of_mem_of_not_mem ha hfresh
    refine ⟨s.cut (m.getLastD head) temp, fun fuel hfuel => ?_, ⟨?_, ?_, hchain.nodup, hchain.head_not_mem⟩⟩
    · rw [Links.popBack, h.back_eq hfuel, List.getLast?_concat]
      show Outcome.ret ((s.previous temp).map _) = _
      rw [hprev]
      rfl
    · rw [hwritten head hhead]
      exact hchain.walk.congr fun a ha => hwritten a (hne a ha)
    · refine hchain.back.congr fun a ha => ?_
      rw [hkept]
      exact Function.update_of_ne (hne a ha) _ _

omit [DecidableEq α] in
/-- An item is put between the last one of `m` and the first one of `t`. -/
theorem walk_splice {next next' : α → Option α} {a : α} (hwalk : Walk next (next a) (m ++ t))
    (hnd : (a :: (m ++ t)).Nodup) (hlast : next' (m.getLastD a) = some item) (hitem : next' item = t.head?)
    (hn : ∀ c ∈ a :: (m ++ t), c ≠ m.getLastD a → next' c = next c) :
    Walk next' (next' a) (m ++ item :: t) := by
  induction m generalizing a with
  | nil =>
      have hfirst : next a = t.head? := by
        cases t with
        | nil => exact hwalk
        | cons c t => exact hwalk.1
      refine ⟨hlast, ?_⟩
      rw [hitem, ← hfirst]
      refine hwalk.congr fun c hc => hn c (List.mem_cons_of_mem a hc) ?_
      exact ne_of_mem_of_not_mem hc (List.nodup_cons.mp hnd).1
  | cons c m ih =>
      obtain ⟨hc, hl⟩ := hwalk
      rw [List.getLastD_cons] at hlast hn
      have hac : a ≠ m.getLastD c := fun he => by
        refine (List.nodup_cons.mp hnd).1 (he ▸ ?_)
        exact List.mem_append_left t Lists.getLastD_mem
      refine ⟨(hn a List.mem_cons_self hac).trans hc, ?_⟩
      exact ih hl (List.nodup_cons.mp hnd).2 hlast fun b hb => hn b (List.mem_cons_of_mem a hb)

omit [DecidableEq α] in
theorem back_splice {previous previous' : α → Option α} {a : α}
    (hback : Back previous (some a) (m ++ temp :: t)) (hitem : previous' item = some (m.getLastD a))
    (htemp : previous' temp = some item) (hp : ∀ c ∈ m ++ t, previous' c = previous c) :
    Back previous' (some a) (m ++ item :: temp :: t) := by
  induction m generalizing a with
  | nil => exact ⟨hitem, htemp, hback.2.congr hp⟩
  | cons c m ih =>
      rw [List.getLastD_cons] at hitem
      refine ⟨(hp c List.mem_cons_self).trans hback.1, ih hback.2 hitem fun b hb => ?_⟩
      exact hp b (List.mem_cons_of_mem c hb)

theorem spliced (h : Chain s head (m ++ temp :: t)) (hne : item ≠ head) (hitem : item ∉ m ++ temp :: t) :
    Chain (s.spliced (m.getLastD head) temp item) head (m ++ item :: temp :: t) := by
  have hnd : (head :: (m ++ temp :: t)).Nodup := List.nodup_cons.mpr ⟨h.head_not_mem, h.nodup⟩
  have hall : ∀ c ∈ head :: (m ++ temp :: t), c ≠ item := by
    rintro c hc rfl
    exact (List.mem_cons.mp hc).elim hne hitem
  have hlastmem : m.getLastD head ∈ head :: (m ++ temp :: t) := by
    rcases List.mem_cons.mp (Lists.getLastD_mem (a := head) (l := m)) with hm | hm
    · exact List.mem_cons.mpr (.inl hm)
    · exact List.mem_cons_of_mem head (List.mem_append_left _ hm)
  have hwalk : Walk (s.spliced (m.getLastD head) temp item).next
      ((s.spliced (m.getLastD head) temp item).next head) (m ++ item :: temp :: t) := by
    refine walk_splice h.walk hnd (Function.update_self ..) ?_ fun c hc hcl => ?_
    · exact (Function.update_of_ne (hall _ hlastmem).symm ..).trans (Function.update_self ..)
    · exact (Function.update_of_ne hcl ..).trans (Function.update_of_ne (hall c hc) ..)
  have htemp : temp ∉ m ++ t := (List.nodup_middle.mp h.nodup |> List.nodup_cons.mp).1
  refine ⟨hwalk, ?_, hwalk.nodup, ?_⟩
  · refine back_splice h.back ?_ (Function.update_self ..) fun c hc => ?_
    · have hit : item ≠ temp := fun he => hitem (he ▸ List.mem_append_right m List.mem_cons_self)
      exact (Function.update_of_ne hit ..).trans (Function.update_self ..)
    · have hct : c ≠ temp := fun he => htemp (he ▸ hc)
      have hci : c ≠ item := by
        refine hall c (List.mem_cons_of_mem head ?_)
        rcases List.mem_append.mp hc with hc | hc
        · exact List.mem_append_left _ hc
        · exact List.mem_append_right m (List.mem_cons_of_mem temp hc)
      exact (Function.update_of_ne hct ..).trans (Function.update_of_ne hci ..)
  · intro hm
    rcases List.mem_append.mp hm with hm | hm
    · exact h.head_not_mem (List.mem_append_left _ hm)
    · rcases List.mem_cons.mp hm with hm | hm
      · exact hne hm.symm
      · exact h.head_not_mem (List.mem_append_right m hm)

omit [DecidableEq α] in
theorem insertIdx_length (m t : List α) (item : α) : (m ++ t).insertIdx m.length item = m ++ item :: t := by
  induction m with
  | nil => rfl
  | cons c m ih => exact congrArg (c :: ·) ih

/-- `List::insert` at a place of the list or behind its last item. -/
theorem insert (h : Chain s head l) {pos : ℤ} (hpos : 0 ≤ pos) (hle : pos ≤ l.length) (hne : item ≠ head)
    (hitem : item ∉ l) :
    ∃ s', (∀ fuel, l.length < fuel → s.insert fuel head pos item = .ret (some s')) ∧
      Chain s' head (l.insertIdx pos.toNat item) := by
  obtain ⟨i, rfl⟩ := Int.eq_ofNat_of_zero_le hpos
  rw [Int.toNat_natCast]
  by_cases hzero : (i : ℤ) = 0
  · obtain rfl := Int.ofNat_eq_zero.mp hzero
    exact ⟨_, fun fuel _ => if_pos hzero, h.pushFront hne hitem⟩
  by_cases hend : (i : ℤ) = l.length
  · obtain ⟨s', hs', hchain⟩ := h.pushBack hne hitem
    refine ⟨s', fun fuel hfuel => ?_, ?_⟩
    · rw [Links.insert, if_neg hzero, h.size_eq hfuel, Outcome.ret_bind, if_pos hend, hs' fuel hfuel]
      rfl
    · rwa [Nat.cast_injective hend, List.insertIdx_length_self]
  · have hi : i < l.length := by omega
    have hlen : (l.take i).length = i := List.length_take_of_le hi.le
    have hsplit : l = l.take i ++ l[i] :: l.drop (i + 1) := by
      rw [← List.drop_eq_getElem_cons, List.take_append_drop]
    have hplace : l.insertIdx i item = l.take i ++ item :: l[i] :: l.drop (i + 1) := by
      have hinsert := insertIdx_length (l.take i) (l[i] :: l.drop (i + 1)) item
      rwa [hlen, ← hsplit] at hinsert
    have hprev : s.previous l[i] = some ((l.take i).getLastD head) := by
      refine @previous_eq α s l[i] (l.take i) (l.drop (i + 1)) head ?_
      rw [← hsplit]
      exact h.back
    refine ⟨s.spliced ((l.take i).getLastD head) l[i] item, fun fuel hfuel => ?_, ?_⟩
    · rw [Links.insert, if_neg hzero, h.size_eq hfuel, Outcome.ret_bind, if_neg hend,
        if_pos (Int.ofNat_lt.mpr hi), h.at_eq, Int.toNat_natCast, List.getElem?_eq_getElem hi]
      show Outcome.ret ((s.previous l[i]).bind _) = _
      rw [hprev]
      rfl
    · rw [hplace]
      refine spliced ?_ hne ?_
      · rw [← hsplit]
        exact h
      · rw [← hsplit]
        exact hitem

/-- `List::erase` at any place, with the first item for a negative one. -/
theorem eraseAt (h : Chain s head l) {pos : ℤ} (hpos : 0 ≤ pos ∨ l ≠ []) :
    ∃ s', (∀ fuel, l.length < fuel → s.eraseAt fuel head pos = .ret (some s')) ∧
      Chain s' head (l.eraseIdx pos.toNat) := by
  by_cases hzero : pos = 0
  · refine ⟨_, fun fuel _ => if_pos hzero, ?_⟩
    rw [hzero, Int.toNat_zero, List.eraseIdx_zero]
    exact h.popFront
  by_cases hlt : pos < l.length
  · have hi : pos.toNat < l.length := by
      rcases hpos with hpos | hsome
      · omega
      · have := List.length_pos_iff.mpr hsome
        omega
    refine ⟨s.unlinked l[pos.toNat], fun fuel hfuel => ?_, ?_⟩
    · rw [Links.eraseAt, if_neg hzero, h.size_eq hfuel, Outcome.ret_bind, if_pos hlt, h.at_eq,
        List.getElem?_eq_getElem hi]
      rfl
    · rw [← h.nodup.erase_getElem]
      exact h.unlinked (List.getElem_mem hi)
  · refine ⟨s, fun fuel hfuel => ?_, ?_⟩
    · rw [Links.eraseAt, if_neg hzero, h.size_eq hfuel, Outcome.ret_bind, if_neg hlt]
      rfl
    · rwa [List.eraseIdx_of_length_le (by omega)]

end Chain

/-! ### Runs -/

/-- A call on a list. -/
inductive ListCall (α : Type) where
  | pushFront (item : α)
  | pushBack (item : α)
  | popFront
  | popBack
  | insert (pos : ℤ) (item : α)
  | eraseAt (pos : ℤ)
  | erase (item : α)
  | clear
  | size
  | at (pos : ℤ)
  | find (item : α)
  | front
  | back

/-- What a call returns. -/
inductive ListAnswer (α : Type) where
  | void
  | number (n : ℤ)
  | item (a : Option α)

namespace ListCall

variable {α : Type} [DecidableEq α] (head : α)

/-- The call in the code. -/
def exec (fuel : ℕ) (s : Links α) : ListCall α → Outcome (Option (ListAnswer α × Links α))
  | pushFront item => .ret (some (.void, s.pushFront head item))
  | pushBack item => do
    let s ← s.pushBack fuel head item
    pure (some (.void, s))
  | popFront => .ret (some (.void, s.popFront head))
  | popBack => do
    let s ← s.popBack fuel head
    pure (s.map fun s => (.void, s))
  | insert pos item => do
    let s ← s.insert fuel head pos item
    pure (s.map fun s => (.void, s))
  | eraseAt pos => do
    let s ← s.eraseAt fuel head pos
    pure (s.map fun s => (.void, s))
  | erase item => do
    let s ← s.erase fuel head item
    pure (some (.void, s))
  | clear => do
    let s ← s.clear fuel head
    pure (some (.void, s))
  | size => do
    let counter ← s.size fuel head
    pure (some (.number counter, s))
  | .at pos => .ret (some (.item (s.at head pos), s))
  | find item => do
    let pos ← s.find fuel head item
    pure (some (.number pos, s))
  | front => .ret (some (.item (s.front head), s))
  | back => do
    let temp ← s.back fuel head
    pure (some (.item temp, s))

/-- The call on the sequence. A place that is not in it has no item. -/
def onSequence (l : List α) : ListCall α → List α
  | pushFront item => item :: l
  | pushBack item => l ++ [item]
  | popFront => l.tail
  | popBack => l.dropLast
  | insert pos item => l.insertIdx pos.toNat item
  | eraseAt pos => if 0 ≤ pos then l.eraseIdx pos.toNat else l
  | erase item => l.erase item
  | clear => []
  | _ => l

/-- What the sequence answers. -/
def answer (l : List α) : ListCall α → ListAnswer α
  | size => .number l.length
  | .at pos => .item (if 0 ≤ pos then l[pos.toNat]? else none)
  | find item => .number (if item ∈ l then l.idxOf item else -1)
  | front => .item l.head?
  | back => .item l.getLast?
  | _ => .void

/-- New items are no members, and `insert` has a place of the list or the one behind its last item. -/
def Legal (l : List α) : ListCall α → Prop
  | pushFront item => item ≠ head ∧ item ∉ l
  | pushBack item => item ≠ head ∧ item ∉ l
  | insert pos item => (0 ≤ pos ∧ pos ≤ l.length) ∧ item ≠ head ∧ item ∉ l
  | _ => True

/-- No place is negative, where the list has an item to give for it. -/
def Meets (l : List α) : ListCall α → Prop
  | eraseAt pos => 0 ≤ pos
  | .at pos => 0 ≤ pos ∨ l = []
  | _ => True

/-- The call returns what the sequence says, once its loops have the turns they need. -/
def Returns (s : Links α) (l : List α) (c : ListCall α) (s' : Links α) : Prop :=
  ∃ n, ∀ fuel, n ≤ fuel → c.exec head fuel s = .ret (some (c.answer l, s'))

def AllLegal : List α → List (ListCall α) → Prop
  | _, [] => True
  | l, c :: calls => c.Legal head l ∧ AllLegal (c.onSequence l) calls

def AllMeet : List α → List (ListCall α) → Prop
  | _, [] => True
  | l, c :: calls => c.Meets l ∧ AllMeet (c.onSequence l) calls

/-- Each call of a run answers for the sequence, and its list is the sequence afterwards. -/
def Refines : Links α → List α → List (ListCall α) → Prop
  | _, _, [] => True
  | s, l, c :: calls => ∃ s', c.Returns head s l s' ∧ Chain s' head (c.onSequence l) ∧
      Refines s' (c.onSequence l) calls

variable {head} {s : Links α} {l : List α}

theorem returns_of (c : ListCall α) {s' : Links α}
    (h : ∀ fuel, l.length < fuel → c.exec head fuel s = .ret (some (c.answer l, s'))) : c.Returns head s l s' :=
  ⟨l.length + 1, fun fuel hfuel => h fuel hfuel⟩

/-- A call that meets the condition does to the list what it does to the sequence. -/
theorem exec_spec (h : Chain s head l) {c : ListCall α} (hc : c.Legal head l) (hm : c.Meets l) :
    ∃ s', c.Returns head s l s' ∧ Chain s' head (c.onSequence l) := by
  cases c with
  | pushFront item => exact ⟨_, returns_of _ fun _ _ => rfl, h.pushFront hc.1 hc.2⟩
  | pushBack item =>
      obtain ⟨s', hs', hchain⟩ := h.pushBack hc.1 hc.2
      refine ⟨s', returns_of _ fun fuel hfuel => ?_, hchain⟩
      rw [exec, hs' fuel hfuel]
      rfl
  | popFront => exact ⟨_, returns_of _ fun _ _ => rfl, h.popFront⟩
  | popBack =>
      obtain ⟨s', hs', hchain⟩ := h.popBack
      refine ⟨s', returns_of _ fun fuel hfuel => ?_, hchain⟩
      rw [exec, hs' fuel hfuel]
      rfl
  | insert pos item =>
      obtain ⟨s', hs', hchain⟩ := h.insert hc.1.1 hc.1.2 hc.2.1 hc.2.2
      refine ⟨s', returns_of _ fun fuel hfuel => ?_, hchain⟩
      rw [exec, hs' fuel hfuel]
      rfl
  | eraseAt pos =>
      obtain ⟨s', hs', hchain⟩ := h.eraseAt (.inl hm)
      refine ⟨s', returns_of _ fun fuel hfuel => ?_, ?_⟩
      · rw [exec, hs' fuel hfuel]
        rfl
      · have hpos : 0 ≤ pos := hm
        rw [onSequence, if_pos hpos]
        exact hchain
  | erase item =>
      obtain ⟨s', hs', hchain⟩ := h.eraseItem
      refine ⟨s', returns_of _ fun fuel hfuel => ?_, hchain⟩
      rw [exec, hs' fuel hfuel]
      rfl
  | clear =>
      obtain ⟨s', hs', hchain⟩ := h.clear
      refine ⟨s', returns_of _ fun fuel hfuel => ?_, hchain⟩
      rw [exec, hs' fuel hfuel]
      rfl
  | size =>
      refine ⟨s, returns_of _ fun fuel hfuel => ?_, h⟩
      rw [exec, h.size_eq hfuel]
      rfl
  | «at» pos =>
      refine ⟨s, returns_of _ fun fuel hfuel => ?_, h⟩
      rw [exec, h.at_eq, answer]
      rcases hm with hm | rfl
      · rw [if_pos hm]
      · rw [List.getElem?_nil, ite_self]
  | find item =>
      refine ⟨s, returns_of _ fun fuel hfuel => ?_, h⟩
      rw [exec, h.find_eq hfuel]
      rfl
  | front =>
      refine ⟨s, returns_of _ fun fuel hfuel => ?_, h⟩
      rw [exec, Links.front, h.head_eq]
      rfl
  | back =>
      refine ⟨s, returns_of _ fun fuel hfuel => ?_, h⟩
      rw [exec, h.back_eq hfuel]
      rfl

/-- With a negative place it does not. -/
theorem not_returns (h : Chain s head l) {c : ListCall α} (hm : ¬c.Meets l) {s' : Links α}
    (hret : c.Returns head s l s') : ¬Chain s' head (c.onSequence l) := by
  intro hchain
  obtain ⟨n, hret⟩ := hret
  have hexec := hret (n + l.length + 1) (by omega)
  cases c with
  | eraseAt pos =>
      have hneg : ¬0 ≤ pos := hm
      rw [onSequence, if_neg hneg] at hchain
      cases l with
      | nil =>
          -- there is no item to erase, and the null pointer is followed
          rw [exec, Links.eraseAt, if_neg (by omega), h.size_eq (by simp), Outcome.ret_bind,
            if_pos (by simpa using hneg), h.at_eq] at hexec
          cases hexec
      | cons a l =>
          -- the first item is erased
          obtain ⟨t, ht, herased⟩ := h.eraseAt (.inr (List.cons_ne_nil a l) : 0 ≤ pos ∨ a :: l ≠ [])
          rw [exec, ht _ (by omega)] at hexec
          obtain rfl : t = s' := by injections
          rw [Int.toNat_of_nonpos (by omega), List.eraseIdx_cons_zero] at herased
          have hlen := congrArg List.length (herased.walk.unique hchain.walk)
          rw [List.length_cons] at hlen
          omega
  | «at» pos =>
      obtain ⟨hneg, hsome⟩ := not_or.mp (hm : ¬(0 ≤ pos ∨ l = []))
      rw [exec, h.at_eq, answer, if_neg hneg, Int.toNat_of_nonpos (by omega)] at hexec
      obtain ⟨a, l, rfl⟩ := List.exists_cons_of_ne_nil hsome
      cases hexec
  | _ => exact hm trivial

/-- From an initialized list on, every call of a run answers for the sequence just if no place that is
given is negative. -/
theorem refines_iff (s : Links α) (calls : List (ListCall α)) (hlegal : AllLegal head [] calls) :
    Refines head (s.init head) [] calls ↔ AllMeet [] calls := by
  have hrun : ∀ (s : Links α) (l : List α), Chain s head l → AllLegal head l calls →
      (Refines head s l calls ↔ AllMeet l calls) := by
    clear hlegal s
    induction calls with
    | nil => exact fun _ _ _ _ => Iff.rfl
    | cons c calls ih =>
        intro s l h hlegal
        constructor
        · rintro ⟨s', hret, hchain, hrest⟩
          have hm : c.Meets l := by_contra fun hm => not_returns h hm hret hchain
          exact ⟨hm, (ih s' _ hchain hlegal.2).mp hrest⟩
        · rintro ⟨hm, hrest⟩
          obtain ⟨s', hret, hchain⟩ := exec_spec h hlegal.1 hm
          exact ⟨s', hret, hchain, (ih s' _ hchain hlegal.2).mpr hrest⟩
  exact hrun _ _ (Chain.init s head) hlegal

/-- Items put behind, before and between others, one of them erased. -/
def threeItems : List (ListCall ℕ) :=
  [.pushBack 1, .insert 0 2, .insert 1 3, .find 1, .eraseAt 1, .popBack, .back]

theorem refines_iff_threeItems : Refines 0 (Links.init ⟨fun _ => none, fun _ => none⟩ 0) [] threeItems :=
  (refines_iff _ threeItems (by simp [threeItems, AllLegal, Legal, onSequence])).mpr
    (by simp [threeItems, AllMeet, Meets])

/-- A list of one item, and a negative place. -/
def negativePlace : List (ListCall ℕ) := [.pushBack 1, .eraseAt (-1)]

theorem not_refines :
    AllLegal 0 [] negativePlace ∧
      ¬Refines 0 (Links.init ⟨fun _ => none, fun _ => none⟩ 0) [] negativePlace := by
  refine ⟨⟨⟨Nat.one_ne_zero, List.not_mem_nil⟩, trivial, trivial⟩, ?_⟩
  rintro ⟨s, -, hchain, t, hret, herased, -⟩
  have hneg : ¬Meets [1] (.eraseAt (-1)) := (by decide : ¬(0 : ℤ) ≤ -1)
  exact not_returns hchain hneg hret herased

end ListCall

end SysuOs
