import Mathlib.Algebra.BigOperators.Group.Finset.Piecewise
import Mathlib.Data.Fintype.Basic
import Mathlib.Tactic.Ring

/-!
How many of finitely many holders hold a thing, and how the number changes when one of them
changes what it holds.
-/
namespace WindowsOnM1.Holders
open Function Finset

variable {ι α : Type*} [Fintype ι] [DecidableEq α]

def holders (held : ι → Option α) (thing : α) : Nat := (Finset.univ.filter (fun holder => held holder = some thing)).card
def holds (held : Option α) (thing : α) : Nat := if held = some thing then 1 else 0

variable (held : ι → Option α) (thing : α)

theorem holders_eq_sum : holders held thing = ∑ holder, holds (held holder) thing :=
  card_filter _ _

/-- A holder changes what it is, and with it what it holds. -/
theorem holders_change [DecidableEq ι] {β : Type*} (owned : β → Option α) (state : ι → β) (holder : ι) (next : β) (thing : α) :
    holders (fun other => owned (Function.update state holder next other)) thing + holds (owned (state holder)) thing =
      holders (fun other => owned (state other)) thing + holds (owned next) thing := by
  have others : ∑ other ∈ univ.erase holder, holds (owned (update state holder next other)) thing =
      ∑ other ∈ univ.erase holder, holds (owned (state other)) thing :=
    sum_congr rfl (fun other mem => by rw [update_of_ne (ne_of_mem_erase mem)])
  rw [holders_eq_sum,holders_eq_sum,← add_sum_erase _ _ (mem_univ holder),
    ← add_sum_erase _ _ (mem_univ holder),others,update_self]
  ring

theorem holders_none : holders (fun _ : ι => none) thing = 0 := by
  simp [holders]
theorem holds_none : holds none thing = 0 := rfl

end WindowsOnM1.Holders
