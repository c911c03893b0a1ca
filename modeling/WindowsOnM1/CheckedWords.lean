import Mathlib.Data.BitVec

/-!
Arithmetic of machine words that can be asked not to wrap. A computation is written once
over an arithmetic; where it is exact, the wrapping arithmetic and the checked one give the
same answer, and the checked one refuses no step of it.
-/
namespace WindowsOnM1.CheckedWords
open BitVec

variable {w : Nat} {m : Type → Type}

/-- Sums, differences and products of words, which may be refused. -/
structure Arithmetic (w : Nat) (m : Type → Type) where
  add : BitVec w → BitVec w → m (BitVec w)
  sub : BitVec w → BitVec w → m (BitVec w)
  mul : BitVec w → BitVec w → m (BitVec w)

/-- The arithmetic of the machine, which wraps. -/
def wrapping (w : Nat) : Arithmetic w Id where
  add a b := pure (a + b)
  sub a b := pure (a - b)
  mul a b := pure (a * b)

/-- The same arithmetic without the steps that wrap. -/
def checked (w : Nat) : Arithmetic w Option where
  add a b := if a.toNat + b.toNat < 2 ^ w then some (a + b) else none
  sub a b := if b ≤ a then some (a - b) else none
  mul a b := if a.toNat * b.toNat < 2 ^ w then some (a * b) else none

/-- What does not wrap is not refused. -/
structure Exact [Monad m] (arith : Arithmetic w m) : Prop where
  add : ∀ a b, a.toNat + b.toNat < 2 ^ w → arith.add a b = pure (a + b)
  sub : ∀ a b, b ≤ a → arith.sub a b = pure (a - b)
  mul : ∀ a b, a.toNat * b.toNat < 2 ^ w → arith.mul a b = pure (a * b)

theorem wrapping_exact : Exact (wrapping w) where
  add _ _ _ := rfl
  sub _ _ _ := rfl
  mul _ _ _ := rfl
theorem checked_exact : Exact (checked w) where
  add _ _ fits := by simp [checked,fits]
  sub _ _ fits := by simp [checked,fits]
  mul _ _ fits := by simp [checked,fits]

namespace Exact

variable [Monad m] {arith : Arithmetic w m}

theorem add_ofNat (exact : Exact arith) {a b : BitVec w} {x y : Nat} (left : a.toNat = x) (right : b.toNat = y)
    (fits : x + y < 2 ^ w) : arith.add a b = pure (BitVec.ofNat w (x + y)) := by
  rw [exact.add a b (by rw [left,right]; exact fits)]
  refine congrArg pure (eq_of_toNat_eq ?_)
  simp [left,right]

theorem sub_ofNat (exact : Exact arith) {a b : BitVec w} {x y : Nat} (left : a.toNat = x) (right : b.toNat = y)
    (fits : y ≤ x) : arith.sub a b = pure (BitVec.ofNat w (x - y)) := by
  have order : b ≤ a := by simpa [le_def,left,right] using fits
  rw [exact.sub a b order]
  refine congrArg pure (eq_of_toNat_eq ?_)
  rw [toNat_sub_of_le order,left,right,toNat_ofNat,Nat.mod_eq_of_lt (by omega)]

theorem mul_ofNat (exact : Exact arith) {a b : BitVec w} {x y : Nat} (left : a.toNat = x) (right : b.toNat = y)
    (fits : x * y < 2 ^ w) : arith.mul a b = pure (BitVec.ofNat w (x * y)) := by
  rw [exact.mul a b (by rw [left,right]; exact fits)]
  refine congrArg pure (eq_of_toNat_eq ?_)
  simp [left,right]

end Exact

theorem toNat_ofNat_of_lt {x : Nat} (fits : x < 2 ^ w) : (BitVec.ofNat w x).toNat = x := by
  rw [toNat_ofNat,Nat.mod_eq_of_lt fits]

end WindowsOnM1.CheckedWords
