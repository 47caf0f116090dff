import Mathlib
import SysuOs.Walk
import SysuOs.BuddyModel

/-! The lists of the buddy allocator as lists of block starts. `FreeLists` says which nodes each
`freeArea` list consists of and that `freeBitmap` marks exactly those; `FreeAt` forgets the nodes
and keeps the starts. One lemma for each pointer operation then says what it does to the starts. -/

namespace SysuOs.Buddy

def nextOf (b : Buddy) : Nat → Option Nat := FreeNode.next ∘ b.freeNodes
def prevOf (b : Buddy) : Nat → Option Nat := FreeNode.prev ∘ b.freeNodes
def startOf (b : Buddy) : Nat → Nat := FreeNode.startIndex ∘ b.freeNodes
def orderOf (b : Buddy) : Nat → Nat := FreeNode.order ∘ b.freeNodes

/-! ### The fields after each write -/

section Fields

variable (b : Buddy) (i : Nat) (v : Option Nat)

theorem setNode_field {α : Type} (f : FreeNode → α) (node : FreeNode) :
    f ∘ (b.setNode i node).freeNodes = Function.update (f ∘ b.freeNodes) i (f node) :=
  Function.comp_update f b.freeNodes i node

theorem setNode_field_eq {α : Type} (f : FreeNode → α) {node : FreeNode}
    (h : f node = f (b.freeNodes i)) : f ∘ (b.setNode i node).freeNodes = f ∘ b.freeNodes := by
  rw [setNode_field, h]
  exact Function.update_eq_self i (f ∘ b.freeNodes)

@[simp] theorem setNext_nextOf : (b.setNext i v).nextOf = Function.update b.nextOf i v :=
  setNode_field b i FreeNode.next _

@[simp] theorem setNext_prevOf : (b.setNext i v).prevOf = b.prevOf :=
  setNode_field_eq b i FreeNode.prev rfl

@[simp] theorem setNext_startOf : (b.setNext i v).startOf = b.startOf :=
  setNode_field_eq b i FreeNode.startIndex rfl

@[simp] theorem setNext_orderOf : (b.setNext i v).orderOf = b.orderOf :=
  setNode_field_eq b i FreeNode.order rfl

@[simp] theorem setPrev_nextOf : (b.setPrev i v).nextOf = b.nextOf :=
  setNode_field_eq b i FreeNode.next rfl

@[simp] theorem setPrev_prevOf : (b.setPrev i v).prevOf = Function.update b.prevOf i v :=
  setNode_field b i FreeNode.prev _

@[simp] theorem setPrev_startOf : (b.setPrev i v).startOf = b.startOf :=
  setNode_field_eq b i FreeNode.startIndex rfl

@[simp] theorem setPrev_orderOf : (b.setPrev i v).orderOf = b.orderOf :=
  setNode_field_eq b i FreeNode.order rfl

end Fields

/-- Two states that differ in the links of their nodes at most. -/
structure SameBlocks (b b' : Buddy) : Prop where
  bitmap : b'.bitmap = b.bitmap
  totalPages : b'.totalPages = b.totalPages
  freeBitmap : b'.freeBitmap = b.freeBitmap
  freeArea : b'.freeArea = b.freeArea
  startOf : b'.startOf = b.startOf
  orderOf : b'.orderOf = b.orderOf

theorem SameBlocks.refl (b : Buddy) : SameBlocks b b := ⟨rfl, rfl, rfl, rfl, rfl, rfl⟩

theorem SameBlocks.trans {a b c : Buddy} (h : SameBlocks a b) (h' : SameBlocks b c) :
    SameBlocks a c :=
  ⟨h'.bitmap.trans h.bitmap, h'.totalPages.trans h.totalPages, h'.freeBitmap.trans h.freeBitmap,
    h'.freeArea.trans h.freeArea, h'.startOf.trans h.startOf, h'.orderOf.trans h.orderOf⟩

theorem setNext_same (b : Buddy) (i : Nat) (v : Option Nat) : SameBlocks b (b.setNext i v) :=
  ⟨rfl, rfl, rfl, rfl, setNext_startOf b i v, setNext_orderOf b i v⟩

theorem setPrev_same (b : Buddy) (i : Nat) (v : Option Nat) : SameBlocks b (b.setPrev i v) :=
  ⟨rfl, rfl, rfl, rfl, setPrev_startOf b i v, setPrev_orderOf b i v⟩

theorem releaseFromPrev_spec (b : Buddy) (i : Nat) :
    SameBlocks b (b.releaseFromPrev i) ∧
      (b.releaseFromPrev i).nextOf = unlinkNext b.nextOf b.prevOf i ∧
      (b.releaseFromPrev i).prevOf = b.prevOf ∧ (b.releaseFromPrev i).nextOf i = b.nextOf i := by
  have hp : b.prevOf i = (b.freeNodes i).prev := rfl
  rw [releaseFromPrev, unlinkNext, hp]
  cases (b.freeNodes i).prev with
  | none => exact ⟨SameBlocks.refl b, rfl, rfl, rfl⟩
  | some p =>
      refine ⟨setNext_same _ _ _, setNext_nextOf _ _ _, setNext_prevOf _ _ _, ?_⟩
      rw [setNext_nextOf]
      by_cases hi : i = p
      · subst hi
        exact Function.update_self _ _ _
      · exact Function.update_of_ne hi _ _

/-- `FreeNode::release` writes the two links around the node and nothing else. -/
theorem releaseNode_spec (b : Buddy) (i : Nat) :
    SameBlocks b (b.releaseNode i) ∧
      (b.releaseNode i).nextOf = unlinkNext b.nextOf b.prevOf i ∧
      (b.releaseNode i).prevOf = unlinkPrev b.nextOf b.prevOf i := by
  obtain ⟨hsame, hnext, hprev, hi⟩ := releaseFromPrev_spec b i
  have hn : ((b.releaseFromPrev i).freeNodes i).next = b.nextOf i := hi
  have hpi : ((b.releaseFromPrev i).freeNodes i).prev = b.prevOf i := congrFun hprev i
  rw [releaseNode, releaseFromNext, hn, hpi, unlinkPrev]
  cases b.nextOf i with
  | none => exact ⟨hsame, hnext, hprev⟩
  | some n =>
      refine ⟨hsame.trans (setPrev_same _ _ _), ?_, ?_⟩
      · rw [setPrev_nextOf, hnext]
      · rw [setPrev_prevOf, hprev]

/-! ### Which nodes are on which list -/

/-- `L order` lists the nodes of `freeArea[order]`, and `freeBitmap` marks the listed nodes. -/
structure FreeLists (b : Buddy) (L : Nat → List Nat) : Prop where
  linked : ∀ o, o ≤ MAX_ORDER → Linked b.nextOf b.prevOf (b.freeArea o) (L o)
  order : ∀ o, ∀ i ∈ L o, b.orderOf i = o
  empty : ∀ o, MAX_ORDER < o → L o = []
  used : ∀ i, (∃ o, i ∈ L o) ↔ i < b.totalPages ∧ getMap b.freeBitmap i = true

/-- `F order` lists the starts of the free blocks of an order, in list order. -/
def FreeAt (b : Buddy) (F : Nat → List Nat) : Prop :=
  ∃ L, FreeLists b L ∧ ∀ o, F o = (L o).map b.startOf

/-- The number of free blocks. -/
def blockCount (F : Nat → List Nat) : Nat := ∑ o ∈ Finset.range (MAX_ORDER + 1), (F o).length

theorem FreeLists.le_order {b : Buddy} {L : Nat → List Nat} (h : FreeLists b L) {o i : Nat}
    (hi : i ∈ L o) : o ≤ MAX_ORDER := by
  by_contra hlt
  rw [h.empty o (by omega)] at hi
  simp at hi

theorem FreeAt.empty {b : Buddy} {F : Nat → List Nat} (h : FreeAt b F) {o : Nat}
    (ho : MAX_ORDER < o) : F o = [] := by
  obtain ⟨L, hL, hF⟩ := h
  rw [hF, hL.empty o ho, List.map_nil]

/-- A state with the same lists and marks has the same free blocks. -/
theorem FreeAt.congr {b b' : Buddy} {F : Nat → List Nat} (h : FreeAt b F)
    (hn : b'.freeNodes = b.freeNodes) (ha : b'.freeArea = b.freeArea)
    (hm : b'.freeBitmap = b.freeBitmap) (ht : b'.totalPages = b.totalPages) : FreeAt b' F := by
  obtain ⟨L, hL, hF⟩ := h
  have hs : b'.startOf = b.startOf := by rw [startOf, startOf, hn]
  refine ⟨L, ⟨fun o ho => ?_, fun o i hi => ?_, hL.empty, fun i => ?_⟩, fun o => ?_⟩
  · rw [nextOf, prevOf, hn, ha]
    exact hL.linked o ho
  · rw [orderOf, hn]
    exact hL.order o i hi
  · rw [hm, ht]
    exact hL.used i
  · rw [hs]
    exact hF o

/-! ### Taking a node -/

theorem findAvailLoop_none {b : Buddy} {fuel i : Nat} (h : b.findAvailLoop fuel i = none) :
    ∀ j, i ≤ j → j < i + fuel → getMap b.freeBitmap j = true := by
  induction fuel generalizing i with
  | zero => intro j hj hlt; omega
  | succ fuel ih =>
      rw [findAvailLoop] at h
      by_cases hi : getMap b.freeBitmap i = true
      · rw [if_pos hi] at h
        intro j hj hlt
        rcases eq_or_lt_of_le hj with rfl | hlt'
        · exact hi
        · exact ih h j hlt' (by omega)
      · rw [if_neg hi] at h
        simp at h

theorem findAvailLoop_some {b : Buddy} {fuel i j : Nat} (h : b.findAvailLoop fuel i = some j) :
    j < i + fuel ∧ getMap b.freeBitmap j = false := by
  induction fuel generalizing i with
  | zero => simp [findAvailLoop] at h
  | succ fuel ih =>
      rw [findAvailLoop] at h
      by_cases hi : getMap b.freeBitmap i = true
      · rw [if_pos hi] at h
        obtain ⟨hlt, hj⟩ := ih h
        exact ⟨by omega, hj⟩
      · rw [if_neg hi] at h
        obtain rfl := Option.some.inj h
        exact ⟨by omega, by simpa using hi⟩

/-- A node is left as long as there are fewer blocks than nodes. -/
theorem findAvailFreeNode_isSome {b : Buddy} {L : Nat → List Nat} (h : FreeLists b L)
    (hroom : blockCount L < b.totalPages) : ∃ i, b.findAvailFreeNode = some i := by
  cases hfind : b.findAvailFreeNode with
  | some i => exact ⟨i, rfl⟩
  | none =>
      exfalso
      have hall := findAvailLoop_none hfind
      have hsub : Finset.range b.totalPages ⊆
          (Finset.range (MAX_ORDER + 1)).biUnion fun o => (L o).toFinset := by
        intro i hi
        have hlt := Finset.mem_range.mp hi
        obtain ⟨o, ho⟩ := (h.used i).mpr ⟨hlt, hall i (Nat.zero_le i) (by omega)⟩
        exact Finset.mem_biUnion.mpr ⟨o, Finset.mem_range.mpr (Nat.lt_succ_of_le (h.le_order ho)),
          List.mem_toFinset.mpr ho⟩
      have hcard := Finset.card_le_card hsub
      rw [Finset.card_range] at hcard
      have hle : ((Finset.range (MAX_ORDER + 1)).biUnion fun o => (L o).toFinset).card ≤
          blockCount L :=
        Finset.card_biUnion_le.trans (Finset.sum_le_sum fun o _ => List.toFinset_card_le (L o))
      omega

theorem FreeLists.length_le {b : Buddy} {L : Nat → List Nat} (h : FreeLists b L) (o : Nat) :
    (L o).length ≤ b.totalPages := by
  by_cases ho : o ≤ MAX_ORDER
  · have hsub : (L o).toFinset ⊆ Finset.range b.totalPages := fun i hi =>
      Finset.mem_range.mpr ((h.used i).mp ⟨o, List.mem_toFinset.mp hi⟩).1
    have hcard := Finset.card_le_card hsub
    rwa [Finset.card_range, List.toFinset_card_of_nodup (h.linked o ho).nodup] at hcard
  · rw [h.empty o (by omega)]
    exact Nat.zero_le _

/-! ### Inserting a block -/

/-- The writes of `insert_freeNode` once it has got the node `i`. -/
theorem insertFreeNode_fields {b : Buddy} {s o i : Nat} (hi : b.findAvailFreeNode = some i) :
    let b' := (b.insertFreeNode s o).2
    (b.insertFreeNode s o).1 = 0 ∧ b'.bitmap = b.bitmap ∧ b'.totalPages = b.totalPages ∧
      b'.freeBitmap = setMap b.freeBitmap i true ∧
      b'.freeArea = Function.update b.freeArea o (some i) ∧
      b'.nextOf = Function.update b.nextOf i (b.freeArea o) ∧
      b'.prevOf = linkPrev b.prevOf (b.freeArea o) i ∧
      b'.startOf = Function.update b.startOf i s ∧
      b'.orderOf = Function.update b.orderOf i o := by
  let b₁ : Buddy := { b with freeBitmap := setMap b.freeBitmap i true }
  let node : FreeNode := { startIndex := s, order := o, next := none, prev := none }
  have hn : (b₁.setNode i node).nextOf = Function.update b.nextOf i none :=
    setNode_field b₁ i FreeNode.next node
  have hp : (b₁.setNode i node).prevOf = Function.update b.prevOf i none :=
    setNode_field b₁ i FreeNode.prev node
  have hs : (b₁.setNode i node).startOf = Function.update b.startOf i s :=
    setNode_field b₁ i FreeNode.startIndex node
  have ho : (b₁.setNode i node).orderOf = Function.update b.orderOf i o :=
    setNode_field b₁ i FreeNode.order node
  have ha : (b₁.setNode i node).freeArea o = b.freeArea o := rfl
  rw [insertFreeNode, mallocFreeNode, hi]
  simp only
  rw [ha]
  cases hhead : b.freeArea o with
  | none => exact ⟨rfl, rfl, rfl, rfl, rfl, hn, hp, hs, ho⟩
  | some h =>
      refine ⟨rfl, rfl, rfl, rfl, rfl, ?_, ?_, ?_, ?_⟩
      · exact ((setPrev_nextOf _ h (some i)).trans (setNext_nextOf _ i (some h))).trans
          (by rw [hn, Function.update_idem])
      · exact (setPrev_prevOf _ h (some i)).trans (by rw [setNext_prevOf, hp]; rfl)
      · exact ((setPrev_startOf _ h (some i)).trans (setNext_startOf _ i (some h))).trans hs
      · exact ((setPrev_orderOf _ h (some i)).trans (setNext_orderOf _ i (some h))).trans ho

/-- Exchanging one list and leaving the links of the others alone. -/
theorem FreeLists.replace {b b' : Buddy} {L : Nat → List Nat} {o : Nat} {l : List Nat}
    (h : FreeLists b L) (ho : o ≤ MAX_ORDER)
    (hlink : Linked b'.nextOf b'.prevOf (b'.freeArea o) l) (hord : ∀ j ∈ l, b'.orderOf j = o)
    (hother : ∀ o', o' ≠ o → b'.freeArea o' = b.freeArea o' ∧ ∀ j ∈ L o',
      b'.nextOf j = b.nextOf j ∧ b'.prevOf j = b.prevOf j ∧ b'.orderOf j = b.orderOf j)
    (hused : ∀ j, (j ∈ l ∨ ∃ o', o' ≠ o ∧ j ∈ L o') ↔
      j < b'.totalPages ∧ getMap b'.freeBitmap j = true) :
    FreeLists b' (Function.update L o l) := by
  have hmem : ∀ j o', j ∈ Function.update L o l o' ↔
      (o' = o ∧ j ∈ l) ∨ (o' ≠ o ∧ j ∈ L o') := fun j o' => by
    by_cases heq : o' = o
    · subst heq; simp
    · simp [heq]
  refine ⟨fun o' ho' => ?_, fun o' j hj => ?_, fun o' ho' => ?_, fun j => ?_⟩
  · by_cases heq : o' = o
    · subst heq
      rwa [Function.update_self]
    · rw [Function.update_of_ne heq, (hother o' heq).1]
      exact (h.linked o' ho').congr (fun j hj => ((hother o' heq).2 j hj).1)
        (fun j hj => ((hother o' heq).2 j hj).2.1)
  · rcases (hmem j o').mp hj with ⟨rfl, hjl⟩ | ⟨heq, hjl⟩
    · exact hord j hjl
    · exact (((hother o' heq).2 j hjl).2.2).trans (h.order o' j hjl)
  · rw [Function.update_of_ne (by omega)]
    exact h.empty o' ho'
  · rw [← hused j]
    simp only [hmem]
    constructor
    · rintro ⟨o', ⟨-, hj⟩ | hj⟩
      · exact Or.inl hj
      · exact Or.inr ⟨o', hj⟩
    · rintro (hj | ⟨o', hj⟩)
      · exact ⟨o, Or.inl ⟨rfl, hj⟩⟩
      · exact ⟨o', Or.inr hj⟩

/-- A node is on one list only. -/
theorem FreeLists.order_unique {b : Buddy} {L : Nat → List Nat} (h : FreeLists b L) {o o' i : Nat}
    (hi : i ∈ L o) (hi' : i ∈ L o') : o' = o :=
  (h.order o' i hi').symm.trans (h.order o i hi)

theorem map_update_start {f : Nat → Nat} {i s : Nat} {l : List Nat} (hi : i ∉ l) :
    l.map (Function.update f i s) = l.map f :=
  List.map_congr_left fun j hj => Function.update_of_ne (fun he => hi (by rwa [he] at hj)) _ _

/-- `insert_freeNode` puts the block in front of its list. -/
theorem insertFreeNode_spec {b : Buddy} {F : Nat → List Nat} {s o : Nat} (h : FreeAt b F)
    (ho : o ≤ MAX_ORDER) (hroom : blockCount F < b.totalPages) :
    (b.insertFreeNode s o).1 = 0 ∧ (b.insertFreeNode s o).2.bitmap = b.bitmap ∧
      (b.insertFreeNode s o).2.totalPages = b.totalPages ∧
      FreeAt (b.insertFreeNode s o).2 (Function.update F o (s :: F o)) := by
  obtain ⟨L, hL, hF⟩ := h
  have hcount : blockCount L < b.totalPages := by
    simpa only [blockCount, hF, List.length_map] using hroom
  obtain ⟨i, hi⟩ := findAvailFreeNode_isSome hL hcount
  obtain ⟨hlt, hbit⟩ := findAvailLoop_some hi
  have hfresh : ∀ o', i ∉ L o' := fun o' hmem => by
    have hset := ((hL.used i).mp ⟨o', hmem⟩).2
    rw [hbit] at hset
    simp at hset
  obtain ⟨hres, hbm, htp, hfb, hfa, hnx, hpv, hst, hor⟩ := insertFreeNode_fields (s := s) (o := o) hi
  have hne : ∀ {o' j}, j ∈ L o' → j ≠ i := fun hj he => hfresh _ (by rwa [he] at hj)
  refine ⟨hres, hbm, htp, Function.update L o (i :: L o), hL.replace ho ?_ ?_ ?_ ?_, fun o' => ?_⟩
  · rw [hnx, hpv, hfa, Function.update_self]
    exact (hL.linked o ho).link (hfresh o)
  · intro j hj
    rw [hor]
    rcases List.mem_cons.mp hj with rfl | hj
    · exact Function.update_self _ _ _
    · rw [Function.update_of_ne (hne hj)]
      exact hL.order o j hj
  · intro o' heq
    rw [hnx, hpv, hor, hfa]
    refine ⟨Function.update_of_ne heq _ _, fun j hj => ⟨Function.update_of_ne (hne hj) _ _, ?_,
      Function.update_of_ne (hne hj) _ _⟩⟩
    refine linkPrev_of_ne (hne hj) fun hhead => heq ?_
    have hlink := hL.linked o ho
    rw [hhead] at hlink
    exact hL.order_unique hlink.head_mem hj
  · intro j
    have hall : (j ∈ i :: L o ∨ ∃ o', o' ≠ o ∧ j ∈ L o') ↔ j = i ∨ ∃ o', j ∈ L o' := by
      rw [List.mem_cons]
      constructor
      · rintro ((rfl | hj) | ⟨o', -, hj⟩)
        · exact Or.inl rfl
        · exact Or.inr ⟨o, hj⟩
        · exact Or.inr ⟨o', hj⟩
      · rintro (rfl | ⟨o', hj⟩)
        · exact Or.inl (Or.inl rfl)
        · by_cases heq : o' = o
          · subst heq
            exact Or.inl (Or.inr hj)
          · exact Or.inr ⟨o', heq, hj⟩
    rw [hall, hL.used j, htp, hfb, getMap_setMap]
    by_cases hji : j = i
    · subst hji
      simpa using by omega
    · simp [hji]
  · rw [hst]
    by_cases heq : o' = o
    · subst heq
      rw [Function.update_self, Function.update_self, List.map_cons, Function.update_self,
        map_update_start (hfresh o'), hF]
    · rw [Function.update_of_ne heq, Function.update_of_ne heq, map_update_start (hfresh o'), hF]

/-! ### Removing a block -/

theorem removeFreeNode_fields (b : Buddy) (i : Nat) :
    let b' := b.removeFreeNode i
    b'.bitmap = b.bitmap ∧ b'.totalPages = b.totalPages ∧
      b'.freeBitmap = setMap b.freeBitmap i false ∧
      b'.freeArea = Function.update b.freeArea (b.orderOf i)
        (if b.freeArea (b.orderOf i) = some i then b.nextOf i else b.freeArea (b.orderOf i)) ∧
      b'.nextOf = unlinkNext b.nextOf b.prevOf i ∧ b'.prevOf = unlinkPrev b.nextOf b.prevOf i ∧
      b'.startOf = b.startOf ∧ b'.orderOf = b.orderOf := by
  let b₁ : Buddy := if some i = b.freeArea (b.freeNodes i).order then
    b.setArea (b.freeNodes i).order (b.freeNodes i).next else b
  have hb₁ : b₁.bitmap = b.bitmap ∧ b₁.totalPages = b.totalPages ∧
      b₁.freeBitmap = b.freeBitmap ∧ b₁.freeNodes = b.freeNodes := by
    dsimp only [b₁]
    split <;> exact ⟨rfl, rfl, rfl, rfl⟩
  have harea : b₁.freeArea = Function.update b.freeArea (b.orderOf i)
      (if b.freeArea (b.orderOf i) = some i then b.nextOf i else b.freeArea (b.orderOf i)) := by
    have ho : b.orderOf i = (b.freeNodes i).order := rfl
    dsimp only [b₁]
    rw [ho]
    by_cases hhead : b.freeArea (b.freeNodes i).order = some i
    · rw [if_pos hhead.symm, if_pos hhead]
      rfl
    · rw [if_neg fun h => hhead h.symm, if_neg hhead, Function.update_eq_self]
  obtain ⟨hsame, hnx, hpv⟩ :=
    releaseNode_spec { b₁ with freeBitmap := setMap b₁.freeBitmap i false } i
  have hnode : nextOf { b₁ with freeBitmap := setMap b₁.freeBitmap i false } = b.nextOf := by
    rw [nextOf, hb₁.2.2.2]; rfl
  have hnode' : prevOf { b₁ with freeBitmap := setMap b₁.freeBitmap i false } = b.prevOf := by
    rw [prevOf, hb₁.2.2.2]; rfl
  rw [hnode, hnode'] at hnx hpv
  refine ⟨hsame.bitmap.trans hb₁.1, hsame.totalPages.trans hb₁.2.1, hsame.freeBitmap.trans ?_,
    hsame.freeArea.trans harea, hnx, hpv, hsame.startOf.trans ?_, hsame.orderOf.trans ?_⟩
  · rw [hb₁.2.2.1]
  · rw [startOf, hb₁.2.2.2]; rfl
  · rw [orderOf, hb₁.2.2.2]; rfl

/-- `remove_freeNode` takes a listed node off its list. -/
theorem removeFreeNode_lists {b : Buddy} {L : Nat → List Nat} {o i : Nat} (hL : FreeLists b L)
    (hi : i ∈ L o) :
    (b.removeFreeNode i).bitmap = b.bitmap ∧ (b.removeFreeNode i).totalPages = b.totalPages ∧
      (b.removeFreeNode i).startOf = b.startOf ∧
      FreeLists (b.removeFreeNode i) (Function.update L o ((L o).erase i)) := by
  have ho := hL.le_order hi
  obtain ⟨hbm, htp, hfb, hfa, hnx, hpv, hst, hor⟩ := removeFreeNode_fields b i
  rw [hL.order o i hi] at hfa
  refine ⟨hbm, htp, hst, hL.replace ho ?_ ?_ ?_ ?_⟩
  · rw [hnx, hpv, hfa, Function.update_self]
    exact (hL.linked o ho).unlink hi
  · intro j hj
    rw [hor]
    exact hL.order o j (List.mem_of_mem_erase hj)
  · intro o' heq
    rw [hnx, hpv, hor, hfa]
    refine ⟨Function.update_of_ne heq _ _, fun j hj => ⟨?_, ?_, rfl⟩⟩
    · exact unlinkNext_of_ne fun hp => heq (hL.order_unique ((hL.linked o ho).prev_mem hi hp) hj)
    · exact unlinkPrev_of_ne fun hn => heq (hL.order_unique ((hL.linked o ho).next_mem hi hn) hj)
  · intro j
    have hall : (j ∈ (L o).erase i ∨ ∃ o', o' ≠ o ∧ j ∈ L o') ↔ j ≠ i ∧ ∃ o', j ∈ L o' := by
      rw [(hL.linked o ho).nodup.mem_erase_iff]
      constructor
      · rintro (⟨hne, hj⟩ | ⟨o', heq, hj⟩)
        · exact ⟨hne, o, hj⟩
        · exact ⟨fun he => heq (hL.order_unique hi (by rwa [he] at hj)), o', hj⟩
      · rintro ⟨hne, o', hj⟩
        by_cases heq : o' = o
        · subst heq
          exact Or.inl ⟨hne, hj⟩
        · exact Or.inr ⟨o', heq, hj⟩
    rw [hall, hL.used j, htp, hfb, getMap_setMap]
    by_cases hji : j = i <;> simp [hji]

/-! ### Finding a block -/

theorem findNodeLoop_eq {b : Buddy} {index fuel : Nat} {head : Option Nat} {l : List Nat}
    (h : Walk b.nextOf head l) (hfuel : l.length < fuel) :
    b.findNodeLoop index fuel head = l.find? fun i => b.startOf i = index := by
  induction l generalizing fuel head with
  | nil =>
      obtain rfl : head = none := h
      cases fuel <;> rfl
  | cons i l ih =>
      obtain ⟨rfl, hl⟩ := h
      cases fuel with
      | zero => simp at hfuel
      | succ fuel =>
          rw [List.length_cons] at hfuel
          have hs : b.startOf i = (b.freeNodes i).startIndex := rfl
          have hn : (b.freeNodes i).next = b.nextOf i := rfl
          rw [findNodeLoop, List.find?_cons, hs]
          by_cases heq : (b.freeNodes i).startIndex = index
          · simp [heq]
          · have hrest := ih hl (Nat.lt_of_succ_lt_succ hfuel)
            rw [if_neg heq, hn]
            simpa [heq] using hrest

/-- Erasing the first element with a given image erases the image. -/
theorem map_erase_find {f : Nat → Nat} {l : List Nat} {i index : Nat}
    (h : l.find? (fun i => f i = index) = some i) : (l.erase i).map f = (l.map f).erase index := by
  induction l with
  | nil => simp at h
  | cons j l ih =>
      rw [List.find?_cons] at h
      by_cases hj : f j = index
      · obtain rfl : j = i := by simpa [hj] using h
        simp [hj]
      · have hrest : l.find? (fun i => f i = index) = some i := by simpa [hj] using h
        have hji : j ≠ i := fun he => hj (by
          have hfi := List.find?_some hrest
          simpa [he] using hfi)
        rw [List.erase_cons_tail (by simpa using hji), List.map_cons, ih hrest, List.map_cons,
          List.erase_cons_tail (by simpa using hj)]

/-- `findNode` finds the block when it is listed, and removing what it found removes it. -/
theorem findNode_spec (index : Nat) {b : Buddy} {F : Nat → List Nat} {o : Nat} (h : FreeAt b F)
    (ho : o ≤ MAX_ORDER) :
    (b.findNode index o = none ∧ index ∉ F o) ∨
      ∃ i, b.findNode index o = some i ∧ index ∈ F o ∧
        (b.removeFreeNode i).bitmap = b.bitmap ∧ (b.removeFreeNode i).totalPages = b.totalPages ∧
        FreeAt (b.removeFreeNode i) (Function.update F o ((F o).erase index)) := by
  obtain ⟨L, hL, hF⟩ := h
  have hfind : b.findNode index o = (L o).find? fun i => b.startOf i = index :=
    findNodeLoop_eq (hL.linked o ho).walk (Nat.lt_succ_of_le (hL.length_le o))
  rw [hfind]
  cases hres : (L o).find? (fun i => b.startOf i = index) with
  | none =>
      refine Or.inl ⟨rfl, fun hmem => ?_⟩
      rw [hF] at hmem
      obtain ⟨i, hi, hs⟩ := List.mem_map.mp hmem
      exact List.find?_eq_none.mp hres i hi (by simpa using hs)
  | some i =>
      have hi : i ∈ L o := List.mem_of_find?_eq_some hres
      have hs : b.startOf i = index := by simpa using List.find?_some hres
      obtain ⟨hbm, htp, hst, hL'⟩ := removeFreeNode_lists hL hi
      refine Or.inr ⟨i, rfl, ?_, hbm, htp, _, hL', fun o' => ?_⟩
      · rw [hF, ← hs]
        exact List.mem_map_of_mem hi
      · rw [hst]
        by_cases heq : o' = o
        · subst heq
          rw [Function.update_self, Function.update_self, map_erase_find hres, hF]
        · rw [Function.update_of_ne heq, Function.update_of_ne heq, hF]

/-- The head of a list is its first block. -/
theorem freeArea_spec {b : Buddy} {F : Nat → List Nat} {o : Nat} (h : FreeAt b F)
    (ho : o ≤ MAX_ORDER) :
    (b.freeArea o = none ∧ F o = []) ∨
      ∃ i rest, b.freeArea o = some i ∧ F o = (b.freeNodes i).startIndex :: rest ∧
        (b.removeFreeNode i).bitmap = b.bitmap ∧ (b.removeFreeNode i).totalPages = b.totalPages ∧
        FreeAt (b.removeFreeNode i) (Function.update F o rest) := by
  obtain ⟨L, hL, hF⟩ := h
  have hw := (hL.linked o ho).walk
  cases hl : L o with
  | nil =>
      rw [hl] at hw
      exact Or.inl ⟨hw, by rw [hF, hl, List.map_nil]⟩
  | cons i l =>
      have hi : i ∈ L o := by rw [hl]; exact List.mem_cons_self
      rw [hl] at hw
      obtain ⟨hbm, htp, hst, hL'⟩ := removeFreeNode_lists hL hi
      refine Or.inr ⟨i, l.map b.startOf, hw.1, ?_, hbm, htp, _, hL', fun o' => ?_⟩
      · rw [hF, hl]
        rfl
      · rw [hst]
        by_cases heq : o' = o
        · subst heq
          rw [Function.update_self, Function.update_self, hl, List.erase_cons_head]
        · rw [Function.update_of_ne heq, Function.update_of_ne heq, hF]

end SysuOs.Buddy
