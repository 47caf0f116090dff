import Mathlib

/-! Bit tables packed into bytes: the macros `GET_MAP` and `SET_MAP` of `buddy.h`. A table is a
pointer into memory, so it is modelled by the bytes found from that pointer on, with no end: an
index past the table reads whatever memory holds there. -/

namespace SysuOs

abbrev Byte := BitVec 8

/-- Memory as seen through a `char *`. -/
abbrev ByteMap := Nat → Byte

/-- `GET_MAP`, tested for being non-zero as its callers do. -/
def getMap (map : ByteMap) (idx : Nat) : Bool :=
  (map (idx / 8) &&& (1#8 <<< (idx % 8))) != 0#8

/-- `SET_MAP`. -/
def setMap (map : ByteMap) (idx : Nat) (state : Bool) : ByteMap :=
  Function.update map (idx / 8)
    ((map (idx / 8) &&& ~~~(1#8 <<< (idx % 8))) ||| ((BitVec.ofBool state).setWidth 8 <<< (idx % 8)))

theorem getMap_eq_getLsbD (map : ByteMap) (idx : Nat) :
    getMap map idx = (map (idx / 8)).getLsbD (idx % 8) := by
  have hk : idx % 8 < 8 := Nat.mod_lt _ (by decide)
  rw [getMap, ← BitVec.twoPow_eq, BitVec.and_twoPow]
  cases (map (idx / 8)).getLsbD (idx % 8) with
  | false => simp
  | true =>
      have hne : BitVec.twoPow 8 (idx % 8) ≠ 0#8 := fun h => by
        have hbit := congrArg (fun v => v.getLsbD (idx % 8)) h
        simp [hk] at hbit
      simpa using hne

theorem getMap_setMap (map : ByteMap) (i j : Nat) (state : Bool) :
    getMap (setMap map i state) j = if j = i then state else getMap map j := by
  have hi : i % 8 < 8 := Nat.mod_lt _ (by decide)
  have hj : j % 8 < 8 := Nat.mod_lt _ (by decide)
  rw [getMap_eq_getLsbD, getMap_eq_getLsbD, setMap]
  by_cases hdiv : j / 8 = i / 8
  · rw [hdiv, Function.update_self]
    by_cases hmod : j % 8 = i % 8
    · have hij : j = i := by omega
      rw [if_pos hij, hmod]
      cases state <;> simp [hi]
    · have hij : j ≠ i := fun h => hmod (by rw [h])
      rw [if_neg hij]
      by_cases hlt : j % 8 < i % 8
      · simp [hlt, hj]
      · have hk : j % 8 - i % 8 ≠ 0 := by omega
        simp [hj, hk]
  · rw [Function.update_of_ne hdiv, if_neg fun h => hdiv (by rw [h])]

end SysuOs
