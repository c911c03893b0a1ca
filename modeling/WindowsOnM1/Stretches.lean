import Mathlib.Data.List.Iterate

/-!
A list written as stretches: a first element and how many elements follow from it, each the
next of the one before. A list needs one stretch more than it has breaks, and stretches
none of which goes on where the one before it ends are that many.
-/
namespace WindowsOnM1.Stretches
open List

variable {α : Type*}

def expand (next : α → α) (stretches : List (α × Nat)) : List α :=
  stretches.flatMap (fun stretch => List.iterate next stretch.1 stretch.2)

/-- Stretches none of which is empty or goes on where the one before it ends. -/
def Separate (next : α → α) (stretches : List (α × Nat)) : Prop :=
  (∀ stretch ∈ stretches, 0 < stretch.2) ∧ stretches.IsChain (fun stretch later => later.1 ≠ next^[stretch.2] stretch.1)
theorem expand_cons (next : α → α) (stretch : α × Nat) (stretches : List (α × Nat)) :
    expand next (stretch :: stretches) = List.iterate next stretch.1 stretch.2 ++ expand next stretches := rfl
theorem expand_append (next : α → α) (before after : List (α × Nat)) :
    expand next (before ++ after) = expand next before ++ expand next after := flatMap_append

variable [DecidableEq α] (next : α → α)

/-- How many neighbours in a list do not follow from each other. -/
def breaks : List α → Nat
  | [] => 0
  | [_] => 0
  | first :: second :: rest => (if second = next first then 0 else 1) + breaks (second :: rest)

variable {next}

theorem breaks_iterate_append (first : α) (count : Nat) (second : α) (rest : List α) :
    breaks next (List.iterate next first (count + 1) ++ second :: rest) =
      (if second = next^[count + 1] first then 0 else 1) + breaks next (second :: rest) := by
  induction count generalizing first with
  | zero => rfl
  | succ count ih =>
  have tail := ih (next first)
  change (if next first = next first then 0 else 1) + breaks next (iterate next (next first) (count + 1) ++ second :: rest) = _
  rw [if_pos rfl,Nat.zero_add,tail]
  rfl

theorem breaks_iterate (first : α) (count : Nat) : breaks next (List.iterate next first count) = 0 := by
  induction count generalizing first with
  | zero => rfl
  | succ count ih =>
  cases count with
  | zero => rfl
  | succ count =>
  change (if next first = next first then 0 else 1) + breaks next (iterate next (next first) (count + 1)) = 0
  rw [if_pos rfl,ih]

theorem breaks_lt_length {stretches : List (α × Nat)} (some : expand next stretches ≠ []) :
    breaks next (expand next stretches) + 1 ≤ stretches.length := by
  induction stretches with
  | nil => exact absurd rfl some
  | cons stretch stretches ih =>
  obtain ⟨first,count⟩ := stretch
  rw [expand_cons,length_cons]
  cases rest : expand next stretches with
  | nil =>
    rw [append_nil,breaks_iterate]
    omega
  | cons second others =>
  have fewer := ih (by simp [rest])
  rw [rest] at fewer
  cases count with
  | zero => exact Nat.le_succ_of_le fewer
  | succ count =>
  rw [breaks_iterate_append]
  split <;> omega

theorem Separate.length {stretches : List (α × Nat)} (separate : Separate next stretches) (some : stretches ≠ []) :
    breaks next (expand next stretches) + 1 = stretches.length := by
  induction stretches with
  | nil => exact absurd rfl some
  | cons stretch stretches ih =>
  obtain ⟨first,count⟩ := stretch
  obtain ⟨positive,apart⟩ := separate
  obtain ⟨count,rfl⟩ : ∃ less, count = less + 1 := ⟨count - 1,by
    have here : 0 < count := positive _ mem_cons_self
    omega⟩
  cases stretches with
  | nil =>
    show breaks next (iterate next first (count + 1) ++ []) + 1 = 1
    rw [append_nil,breaks_iterate]
  | cons later stretches =>
  obtain ⟨second,count'⟩ := later
  rw [isChain_cons_cons] at apart
  have rest := ih ⟨fun stretch mem => positive stretch (mem_cons_of_mem _ mem),apart.2⟩ (by simp)
  obtain ⟨less,isCount⟩ : ∃ less, count' = less + 1 := ⟨count' - 1,by
    have here : 0 < count' := positive (second,count') (by simp)
    omega⟩
  subst isCount
  change breaks next (second :: (iterate next (next second) less ++ expand next stretches)) + 1 = _ at rest
  change breaks next (iterate next first (count + 1) ++
    second :: (iterate next (next second) less ++ expand next stretches)) + 1 = _
  have split : second ≠ next^[count + 1] first := apart.1
  rw [breaks_iterate_append,if_neg split,length_cons,← rest]
  omega

end WindowsOnM1.Stretches
