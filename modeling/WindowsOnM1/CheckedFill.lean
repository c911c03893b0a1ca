import Mathlib.Logic.Function.Basic
import Mathlib.Order.Defs.LinearOrder
import WindowsOnM1.CountedLoop

/-!
A table that is checked as a whole before it is filled: the loop that checks it says whether
every entry passes, and the loop that fills it leaves each entry with its own value and every
other entry as it was.
-/
namespace WindowsOnM1.CheckedFill
open CountedLoop Function

section
variable {ρ : Type*} {fits counts : Nat → Prop} [DecidablePred fits] [DecidablePred counts] {refused found : ρ}
  {body : Nat → ρ → Bool × ρ}

/-- A loop that stops at the first entry that does not fit, and notes whether some entry counts. -/
theorem countLoop_checks (turn : ∀ i result, body i result =
      if fits i then (true,if counts i then found else result) else (false,refused)) (turns : Nat) (result : ρ) :
    countLoop body 0 turns result =
      if ∀ i < turns, fits i then (true,if ∃ i < turns, counts i then found else result) else (false,refused) := by
  have loop (first turns : Nat) (result : ρ) : countLoop body first turns result =
      if ∀ i < turns, fits (first + i) then (true,if ∃ i < turns, counts (first + i) then found else result) else (false,refused) := by
    induction turns generalizing first result with
    | zero => simp [countLoop]
    | succ turns ih =>
    have all : (∀ i < turns + 1, fits (first + i)) ↔ fits first ∧ ∀ i < turns, fits (first + 1 + i) := by
      rw [Nat.forall_lt_succ_left]
      simp only [Nat.add_zero,Nat.add_assoc,Nat.add_comm 1]
    have some : (∃ i < turns + 1, counts (first + i)) ↔ counts first ∨ ∃ i < turns, counts (first + 1 + i) := by
      rw [Nat.exists_lt_succ_left]
      simp only [Nat.add_zero,Nat.add_assoc,Nat.add_comm 1]
    unfold countLoop
    rw [turn]
    by_cases here : fits first
    · rw [if_pos here]
      dsimp only
      rw [ih,if_congr all rfl rfl]
      by_cases counted : counts first
      · simp only [here,true_and,some,counted,true_or,if_true,ite_self]
      simp only [here,true_and,some,counted,false_or,if_false]
    rw [if_neg here,if_neg (fun fine => here (all.mp fine).1)]
  have whole := loop 0 turns result
  simp only [Nat.zero_add] at whole
  exact whole

end

section
variable {α : Type*}

theorem forRange_fills (body : Nat → (Nat → α) → Nat → α) (value : Nat → α → α)
    (turn : ∀ i table, body i table = Function.update table i (value i (table i))) (first turns : Nat) (table : Nat → α) :
    forRange body first turns table = fun k => if first ≤ k ∧ k < first + turns then value k (table k) else table k := by
  induction turns generalizing first table with
  | zero =>
    funext k
    rw [if_neg (by omega)]
    rfl
  | succ turns ih =>
  funext k
  unfold forRange
  rw [ih,turn]
  dsimp only
  by_cases here : k = first
  · subst here
    rw [if_neg (by omega),if_pos (by omega),update_self]
  rw [update_of_ne here]
  exact if_congr (by omega) rfl rfl

theorem forRange_cells {body : Nat → (Nat → α) → Nat → α} {base : Nat} {value : Nat → α}
    (turn : ∀ j table, body j table = Function.update table (base + j) (value j)) (turns : Nat) (table : Nat → α) :
    forRange body 0 turns table = fun k => if base ≤ k ∧ k < base + turns then value (k - base) else table k := by
  refine forRange_counts (fun j filled => filled = fun k => if base ≤ k ∧ k < base + j then value (k - base) else table k)
    (by funext k; rw [if_neg (by omega)]) ?_
  intro j filled _ so
  subst so
  funext k
  rw [turn]
  by_cases here : k = base + j
  · subst here
    rw [update_self,if_pos (by omega),Nat.add_sub_cancel_left]
  rw [update_of_ne here]
  exact if_congr (by omega) rfl rfl

theorem forRange_rows {width : Nat} (some : 0 < width) (body : Nat → Nat → (Nat → α) → Nat → α) (value : Nat → Nat → α)
    (turn : ∀ i j table, body i j table = Function.update table (i * width + j) (value i j)) (turns : Nat) (table : Nat → α) :
    forRange (fun i table => forRange (body i) 0 width table) 0 turns table =
      fun k => if k < turns * width then value (k / width) (k % width) else table k := by
  refine forRange_counts (fun i filled => filled = fun k => if k < i * width then value (k / width) (k % width) else table k)
    (by funext k; simp) ?_
  intro i filled _ so
  subst so
  funext k
  rw [forRange_cells (turn i),Nat.succ_mul]
  dsimp only
  by_cases before : k < i * width
  · rw [if_neg (by omega),if_pos before,if_pos (by omega)]
  by_cases inside : k < i * width + width
  · have place : k / width = i := by
      rw [Nat.div_eq_iff some]
      omega
    have column : k - i * width = k % width := by
      rw [← place,Nat.mod_eq_sub_div_mul]
    rw [if_pos ⟨by omega,inside⟩,if_pos inside,column,place]
  rw [if_neg (by omega),if_neg before,if_neg inside]

end

end WindowsOnM1.CheckedFill
