import Mathlib.Data.List.Range
import Mathlib.Data.List.Count
import Mathlib.Tactic.Ring

/-!
The number of the indices below a bound that have a property, and how it changes with the
property.
-/
namespace WindowsOnM1.Tallies
open List

def tally (property : Nat → Bool) (bound : Nat) : Nat := (List.range bound).countP property

variable {property property' : Nat → Bool} {bound : Nat}

theorem tally_succ (property : Nat → Bool) (bound : Nat) :
    tally property (bound + 1) = tally property bound + (if property bound then 1 else 0) := by
  rw [tally,range_succ,countP_append,countP_singleton]
  rfl
theorem tally_le (property : Nat → Bool) (bound : Nat) : tally property bound ≤ bound := by
  have le := countP_le_length (p := property) (l := range bound)
  rwa [length_range] at le
theorem tally_congr (same : ∀ index < bound, property' index = property index) : tally property' bound = tally property bound :=
  countP_congr (fun index mem => by rw [same index (mem_range.mp mem)])

theorem tally_set {index : Nat} (inside : index < bound) (off : property index = false) (on : property' index = true)
    (others : ∀ other, other ≠ index → property' other = property other) : tally property' bound = tally property bound + 1 := by
  induction bound with
  | zero => exact absurd inside (Nat.not_lt_zero _)
  | succ bound ih =>
  rw [tally_succ,tally_succ]
  by_cases last : index = bound
  · subst last
    rw [tally_congr (fun other below => others other (Nat.ne_of_lt below)),off,on]
    rfl
  rw [ih (by omega),others bound (fun same => last same.symm)]
  ring

theorem tally_range {first count : Nat} (inside : first + count ≤ bound)
    (off : ∀ index, first ≤ index → index < first + count → property index = false)
    (after : ∀ index, property' index = (property index || decide (first ≤ index ∧ index < first + count))) :
    tally property' bound = tally property bound + count := by
  induction count generalizing property' with
  | zero =>
    refine tally_congr (fun index _ => ?_)
    rw [after,decide_eq_false (by omega),Bool.or_false]
  | succ count ih =>
  have before : tally (fun index => property index || decide (first ≤ index ∧ index < first + count)) bound =
      tally property bound + count :=
    ih (by omega) (fun index above below => off index above (by omega)) (fun _ => rfl)
  have last : property (first + count) = false := off (first + count) (by omega) (by omega)
  have one : tally property' bound =
      tally (fun index => property index || decide (first ≤ index ∧ index < first + count)) bound + 1 := by
    have within : first + count < bound := by omega
    refine tally_set within ?_ ?_ (fun other apart => ?_)
    · rw [last,decide_eq_false (by omega)]
      rfl
    · rw [after,decide_eq_true (by omega),Bool.or_true]
    rw [after]
    congr 1
    exact decide_eq_decide.mpr (by omega)
  rw [one,before]
  ring

end WindowsOnM1.Tallies
