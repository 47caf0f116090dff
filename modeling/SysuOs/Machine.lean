import Mathlib
import SysuOs.BitMap

/-! What the C++ code takes for granted: a call may halt the machine or never return, and integers
have 32 bits. -/

namespace SysuOs

/-- How a call ends. `halt` is `PANIC` or a failed `ASSERT`, after which nothing runs; `diverge` is a
loop that never ends. -/
inductive Outcome (α : Type) where
  | ret (a : α)
  | halt
  | diverge
  deriving Repr

namespace Outcome

variable {α β : Type}

def bind : Outcome α → (α → Outcome β) → Outcome β
  | ret a, f => f a
  | halt, _ => halt
  | diverge, _ => diverge

instance : Monad Outcome where
  pure := ret
  bind := bind

@[simp] theorem pure_eq (a : α) : (pure a : Outcome α) = ret a := rfl
@[simp] theorem ret_bind (a : α) (f : α → Outcome β) : (ret a >>= f) = f a := rfl
@[simp] theorem halt_bind (f : α → Outcome β) : (halt >>= f) = halt := rfl
@[simp] theorem diverge_bind (f : α → Outcome β) : (diverge >>= f) = diverge := rfl

/-- A call that returns goes through the calls it makes. -/
theorem bind_eq_ret {x : Outcome α} {f : α → Outcome β} {b : β} (h : x >>= f = ret b) :
    ∃ a, x = ret a ∧ f a = ret b := by
  cases x with
  | ret a => exact ⟨a, rfl, h⟩
  | halt => exact absurd h (by simp)
  | diverge => exact absurd h (by simp)

/-- What a call returns, if it returns. -/
def getD : Outcome α → α → α
  | ret a, _ => a
  | _, b => b

/-- `ASSERT`. -/
def ASSERT (p : Prop) [Decidable p] : Outcome Unit := if p then ret () else halt

@[simp] theorem ASSERT_pos {p : Prop} [Decidable p] (h : p) : ASSERT p = ret () := if_pos h
@[simp] theorem ASSERT_neg {p : Prop} [Decidable p] (h : ¬p) : ASSERT p = halt := if_neg h

end Outcome

/-- An `int` as a `uint32`. -/
def u32 (n : Int) : Nat := (n % 2 ^ 32).toNat

/-- Whether a `uint32`, read as an `int`, is positive. -/
def IntPos (n : Nat) : Prop := 0 < n ∧ n < 2 ^ 31

instance (n : Nat) : Decidable (IntPos n) := inferInstanceAs (Decidable (_ ∧ _))

/-- `ALIGN(PAGE_SIZE, n)`. -/
def align (n : Nat) : Nat := (n + 4095) / 4096 * 4096

/-- `memcpy(dst + pos, src, n)`. -/
def memcpy (dst : ByteMap) (pos : Nat) (src : ByteMap) (n : Nat) : ByteMap :=
  fun k => if pos ≤ k ∧ k < pos + n then src (k - pos) else dst k

theorem memcpy_in {dst src : ByteMap} {pos n k : Nat} (h : pos ≤ k) (h' : k < pos + n) :
    memcpy dst pos src n k = src (k - pos) := if_pos ⟨h, h'⟩

theorem memcpy_out {dst src : ByteMap} {pos n k : Nat} (h : k < pos ∨ pos + n ≤ k) :
    memcpy dst pos src n k = dst k := if_neg (by omega)

/-- `memset(dst, 0, n)`. -/
def memzero (dst : ByteMap) (n : Nat) : ByteMap := fun k => if k < n then 0 else dst k

/-- The bytes from `src + pos` on. -/
def bytesFrom (src : ByteMap) (pos : Nat) : ByteMap := fun k => src (pos + k)

end SysuOs
