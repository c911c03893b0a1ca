import Mathlib.Data.BitVec

/-!
A set of numbers as the bits of an array of words.
-/
namespace WindowsOnM1.WordBits
open BitVec

variable {w : Nat}

/-- Whether the bit of an index is set. -/
def bit (words : Nat → BitVec w) (index : Nat) : Bool := (words (index / w) &&& (1#w <<< (index % w))) != 0
def setBit (words : Nat → BitVec w) (index : Nat) (value : Bool) : Nat → BitVec w :=
  Function.update words (index / w)
    (if value then words (index / w) ||| (1#w <<< (index % w)) else words (index / w) &&& ~~~(1#w <<< (index % w)))

theorem one_shiftLeft_getLsbD {place other : Nat} (inside : other < w) :
    (1#w <<< place).getLsbD other = decide (other = place) := by
  have positive : 0 < w := by omega
  simp only [getLsbD_shiftLeft,getLsbD_one,inside,positive,decide_true,Bool.true_and]
  by_cases below : other < place
  · simp [below,Nat.ne_of_lt below]
  simp only [below,decide_false,Bool.not_false,Bool.true_and,decide_eq_decide]
  omega

theorem bit_eq (positive : 0 < w) (words : Nat → BitVec w) (index : Nat) :
    bit words index = (words (index / w)).getLsbD (index % w) := by
  have inside : index % w < w := Nat.mod_lt _ positive
  rw [Bool.eq_iff_iff]
  unfold bit
  rw [bne_iff_ne]
  constructor
  · intro some
    by_contra unset
    refine some (eq_of_getLsbD_eq (fun place below => ?_))
    rw [getLsbD_and,one_shiftLeft_getLsbD below]
    by_cases here : place = index % w
    · simp [here,Bool.eq_false_iff.mpr unset]
    simp [here]
  intro set none
  have cleared : (words (index / w) &&& (1#w <<< (index % w))).getLsbD (index % w) = true := by
    rw [getLsbD_and,one_shiftLeft_getLsbD inside,set]
    simp
  simp [none] at cleared

theorem bit_setBit (positive : 0 < w) (words : Nat → BitVec w) (index : Nat) (value : Bool) (other : Nat) :
    bit (setBit words index value) other = if other = index then value else bit words other := by
  have inside : other % w < w := Nat.mod_lt _ positive
  rw [bit_eq positive,bit_eq positive]
  unfold setBit
  by_cases word : other / w = index / w
  · have same : other % w = index % w ↔ other = index := by
      refine ⟨fun places => ?_,fun same => by rw [same]⟩
      rw [← Nat.div_add_mod other w,word,places,Nat.div_add_mod]
    have mask : (1#w <<< (index % w)).getLsbD (other % w) = decide (other = index) := by
      rw [one_shiftLeft_getLsbD inside]
      exact decide_eq_decide.mpr same
    rw [word,Function.update_self]
    cases value with
    | true =>
      rw [if_pos rfl,getLsbD_or,mask]
      by_cases here : other = index <;> simp only [here,decide_true,decide_false,Bool.or_true,Bool.or_false,if_true,if_false]
    | false =>
    rw [if_neg Bool.false_ne_true,getLsbD_and,getLsbD_not,mask]
    by_cases here : other = index <;> simp [here,inside]
  have apart : other ≠ index := fun same => word (by rw [same])
  rw [Function.update_of_ne word,if_neg apart]

end WindowsOnM1.WordBits
