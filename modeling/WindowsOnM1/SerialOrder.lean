import Mathlib.Data.BitVec
import Mathlib.Data.List.Pairwise

/-!
Serial numbers of a fixed width. The order is circular: one number comes after
another when it lies in the half of the number space that follows it. Numbers
that lie in one half-space window are ordered by their offsets from its base
(`after_iff_offset`), so all order facts about them are facts of arithmetic.
-/
namespace SerialOrder

variable {w : Nat}

/-- `a` is ahead of `b` by less than half of the number space. -/
def After (a b : BitVec w) : Prop := a ≠ b ∧ (a - b).toNat < 2 ^ (w - 1)
instance (a b : BitVec w) : Decidable (After a b) := inferInstanceAs (Decidable (_ ∧ _))

/-- `a` is `b` or ahead of it. -/
def AtOrAfter (a b : BitVec w) : Prop := a = b ∨ After a b

/-- The distance from a base up to a number. -/
def offset (base a : BitVec w) : Nat := (a - base).toNat

/-- The number lies in the half-space window that starts at the base. -/
def InWindow (base a : BitVec w) : Prop := offset base a < 2 ^ (w - 1)

/-- All numbers of a list lie in one half-space window. -/
def OneWindow (ids : List (BitVec w)) : Prop := ∃ base, ∀ a ∈ ids, InWindow base a

/-- Every number comes after the numbers before it. -/
def Ascending (ids : List (BitVec w)) : Prop := ids.Pairwise (fun earlier later => After later earlier)
instance (ids : List (BitVec w)) : Decidable (Ascending ids) := inferInstanceAs (Decidable (List.Pairwise _ _))

theorem offset_injective (base a b : BitVec w) : offset base a = offset base b ↔ a = b := by
  unfold offset
  rw [← BitVec.toNat_eq]
  constructor
  · intro same
    have added := congrArg (· + base) same
    simpa [BitVec.sub_add_cancel] using added
  intro same
  rw [same]

/-- The distance between two numbers of a window is the difference of their
    offsets, or its complement when it is negative. -/
private theorem distance_eq {base a b : BitVec w} (inA : InWindow base a) (inB : InWindow base b) :
    (a - b).toNat = if offset base b ≤ offset base a then offset base a - offset base b
      else 2 ^ w - (offset base b - offset base a) := by
  have split : a - b = (a - base) - (b - base) := (sub_sub_sub_cancel_right a b base).symm
  have half : 2 ^ (w - 1) ≤ 2 ^ w := Nat.pow_le_pow_right (by omega) (by omega)
  rw [split,BitVec.toNat_sub]
  unfold InWindow offset at *
  generalize (a - base).toNat = x at *
  generalize (b - base).toNat = y at *
  split_ifs with order
  · have wrapped : 2 ^ w - y + x = (x - y) + 2 ^ w := by omega
    rw [wrapped,Nat.add_mod_right,Nat.mod_eq_of_lt (by omega)]
  rw [Nat.mod_eq_of_lt (by omega)]
  omega

theorem after_iff_offset {base a b : BitVec w} (wide : 0 < w) (inA : InWindow base a) (inB : InWindow base b) :
    After a b ↔ offset base b < offset base a := by
  have double : 2 ^ w = 2 * 2 ^ (w - 1) := by
    conv_lhs => rw [← Nat.sub_add_cancel wide]
    rw [Nat.pow_succ,Nat.mul_comm]
  unfold After
  rw [distance_eq inA inB,ne_eq,← offset_injective base a b]
  unfold InWindow at inA inB
  split_ifs with order
  · omega
  omega

theorem atOrAfter_iff_offset {base a b : BitVec w} (wide : 0 < w) (inA : InWindow base a)
    (inB : InWindow base b) : AtOrAfter a b ↔ offset base b ≤ offset base a := by
  unfold AtOrAfter
  rw [after_iff_offset wide inA inB,← offset_injective base a b]
  omega

theorem after_iff_distance (a b half : BitVec w) (isHalf : half.toNat = 2 ^ (w - 1)) :
    (a - b != 0 && decide (a - b < half)) = true ↔ After a b := by
  have zero : a - b = 0 ↔ a = b := sub_eq_zero
  simp only [After,Bool.and_eq_true,bne_iff_ne,ne_eq,decide_eq_true_eq,zero,BitVec.lt_def,isHalf]
theorem not_after_self (a : BitVec w) : ¬ After a a := by simp [After]
theorem atOrAfter_refl (a : BitVec w) : AtOrAfter a a := .inl rfl
theorem After.atOrAfter {a b : BitVec w} (after : After a b) : AtOrAfter a b := .inr after
theorem After.ne {a b : BitVec w} (after : After a b) : a ≠ b := after.1
/-- Numbers of the lower half lie in one window. -/
theorem oneWindow_low {ids : List (BitVec w)} (low : ids.all (fun a => offset 0 a < 2 ^ (w - 1)) = true := by decide) :
    OneWindow ids :=
  ⟨0,fun a mem => by simpa [InWindow] using List.all_eq_true.mp low a mem⟩
theorem OneWindow.mono {ids smaller : List (BitVec w)} (window : OneWindow ids)
    (sub : ∀ a ∈ smaller, a ∈ ids) : OneWindow smaller := by
  obtain ⟨base,inside⟩ := window
  exact ⟨base,fun a mem => inside a (sub a mem)⟩

section
variable {ids : List (BitVec w)} (wide : 0 < w) (window : OneWindow ids)
include wide window

theorem OneWindow.after_trans {a b c : BitVec w} (inA : a ∈ ids) (inB : b ∈ ids) (inC : c ∈ ids)
    (first : After a b) (second : AtOrAfter b c) : After a c := by
  obtain ⟨base,inside⟩ := window
  rw [after_iff_offset wide (inside a inA) (inside b inB)] at first
  rw [atOrAfter_iff_offset wide (inside b inB) (inside c inC)] at second
  rw [after_iff_offset wide (inside a inA) (inside c inC)]
  omega

theorem OneWindow.not_after_iff {a b : BitVec w} (inA : a ∈ ids) (inB : b ∈ ids) : ¬ After a b ↔ AtOrAfter b a := by
  obtain ⟨base,inside⟩ := window
  rw [after_iff_offset wide (inside a inA) (inside b inB),atOrAfter_iff_offset wide (inside b inB) (inside a inA)]
  omega

end

theorem ascending_cons {a : BitVec w} {rest : List (BitVec w)} :
    Ascending (a :: rest) ↔ (∀ b ∈ rest, After b a) ∧ Ascending rest := List.pairwise_cons
theorem ascending_append {before after : List (BitVec w)} : Ascending (before ++ after) ↔
      Ascending before ∧ Ascending after ∧ ∀ a ∈ before, ∀ b ∈ after, After b a := List.pairwise_append
theorem Ascending.nodup {ids : List (BitVec w)} (ascending : Ascending ids) : ids.Nodup :=
  ascending.imp (fun later same => later.ne same.symm)
theorem Ascending.sublist {ids smaller : List (BitVec w)} (ascending : Ascending ids)
    (sub : smaller.Sublist ids) : Ascending smaller := List.Pairwise.sublist sub ascending

end SerialOrder
