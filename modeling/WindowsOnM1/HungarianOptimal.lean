import Mathlib.Algebra.BigOperators.Group.Finset.Basic
import Mathlib.Algebra.Order.BigOperators.Group.Finset
import WindowsOnM1.HungarianAssignment

/-!
Matchings of rows and columns, and what potentials say about their costs: no matching of all rows
costs less than the potentials, and the one that an assignment ends with costs no more.
-/
namespace WindowsOnM1.Hungarian
open Finset

/-- Pairs of a row and a column, no row and no column of them twice. -/
structure Matching (rows columns : Finset Nat) (pairs : Finset (Nat × Nat)) : Prop where
  row : ∀ pair ∈ pairs, pair.1 ∈ rows
  column : ∀ pair ∈ pairs, pair.2 ∈ columns
  rowOnce : Set.InjOn Prod.fst (pairs : Set (Nat × Nat))
  columnOnce : Set.InjOn Prod.snd (pairs : Set (Nat × Nat))

section
variable {rows columns : Finset Nat} {pairs : Finset (Nat × Nat)}

section
variable (matching : Matching rows columns pairs)
include matching

theorem Matching.card_le : pairs.card ≤ rows.card ∧ pairs.card ≤ columns.card :=
  ⟨card_le_card_of_injOn Prod.fst matching.row matching.rowOnce,
    card_le_card_of_injOn Prod.snd matching.column matching.columnOnce⟩

theorem Matching.rows_eq (full : pairs.card = rows.card) : pairs.image Prod.fst = rows := by
  refine eq_of_subset_of_card_le (fun row mem => ?_) ?_
  · obtain ⟨pair,held,rfl⟩ := mem_image.mp mem
    exact matching.row pair held
  rw [card_image_of_injOn matching.rowOnce,full]

/-- The potentials of rows and columns are below the cost of every matching of all rows, when those of columns are
never positive. -/
theorem Matching.dual_le (full : pairs.card = rows.card) {u v : Nat → Int}
    {cost : Nat → Nat → Int} (feasible : ∀ r ∈ rows, ∀ j ∈ columns, u r + v j ≤ cost r j) (low : ∀ j, v j ≤ 0) :
    ∑ r ∈ rows, u r + ∑ j ∈ columns, v j ≤ ∑ pair ∈ pairs, cost pair.1 pair.2 := by
  have rowSum : ∑ r ∈ rows, u r = ∑ pair ∈ pairs, u pair.1 := by
    rw [← matching.rows_eq full,sum_image matching.rowOnce]
  have inside : pairs.image Prod.snd ⊆ columns := fun j mem => by
    obtain ⟨pair,held,rfl⟩ := mem_image.mp mem
    exact matching.column pair held
  have columnSum : ∑ j ∈ columns, v j ≤ ∑ pair ∈ pairs, v pair.2 := by
    rw [← sum_sdiff inside,← sum_image (f := v) matching.columnOnce]
    have rest : ∑ j ∈ columns \ pairs.image Prod.snd, v j ≤ 0 := sum_nonpos (fun j _ => low j)
    omega
  have each : ∑ pair ∈ pairs, (u pair.1 + v pair.2) ≤ ∑ pair ∈ pairs, cost pair.1 pair.2 :=
    sum_le_sum (fun pair mem => feasible _ (matching.row pair mem) _ (matching.column pair mem))
  rw [sum_add_distrib] at each
  omega

end

end

/-- The pairs that the columns hold. -/
def placedPairs (columns : Nat) (p : Nat → Nat) : Finset (Nat × Nat) :=
  ((Icc 1 columns).filter (fun j => p j ≠ 0)).image (fun j => (p j,j))

section
variable {rows columns : Nat} {v : Nat → Int} {p : Nat → Nat}

theorem mem_placedPairs (r j : Nat) : (r,j) ∈ placedPairs columns p ↔ 1 ≤ j ∧ j ≤ columns ∧ p j ≠ 0 ∧ p j = r := by
  simp only [placedPairs,mem_image,mem_filter,mem_Icc,Prod.mk.injEq]
  constructor
  · rintro ⟨k,⟨⟨first,last⟩,some⟩,row,rfl⟩
    exact ⟨first,last,some,row⟩
  rintro ⟨first,last,some,row⟩
  exact ⟨j,⟨⟨first,last⟩,some⟩,row,rfl⟩

section
variable (placed : Placed columns rows v p 0)
include placed

theorem Placed.matching : Matching (Icc 1 rows) (Icc 1 columns) (placedPairs columns p) where
  row := fun pair mem => by
    obtain ⟨first,last,some,row⟩ := (mem_placedPairs pair.1 pair.2).mp mem
    rw [mem_Icc,← row]
    exact ⟨by omega,placed.inside _ last (by omega)⟩
  column := fun pair mem => by
    obtain ⟨first,last,-,-⟩ := (mem_placedPairs pair.1 pair.2).mp mem
    exact mem_Icc.mpr ⟨first,last⟩
  rowOnce := fun pair mem other otherMember same => by
    obtain ⟨first,last,some,row⟩ := (mem_placedPairs pair.1 pair.2).mp mem
    obtain ⟨otherFirst,otherLast,-,otherRow⟩ := (mem_placedPairs other.1 other.2).mp otherMember
    have column := placed.distinct _ last _ otherLast (by omega) (by omega) some (row.trans (same.trans otherRow.symm))
    exact Prod.ext same column
  columnOnce := fun pair mem other otherMember same => by
    obtain ⟨-,-,-,row⟩ := (mem_placedPairs pair.1 pair.2).mp mem
    obtain ⟨-,-,-,otherRow⟩ := (mem_placedPairs other.1 other.2).mp otherMember
    refine Prod.ext ?_ same
    rw [← row,← otherRow]
    exact congrArg p same

theorem Placed.card_pairs : #(placedPairs columns p) = rows := by
  have below := placed.matching.card_le.1
  have above : #(Icc 1 rows) ≤ #((placedPairs columns p).image Prod.fst) := by
    refine card_le_card (fun r mem => ?_)
    obtain ⟨first,last⟩ := mem_Icc.mp mem
    obtain ⟨j,jLast,some,row⟩ := placed.cover r first last
    exact mem_image.mpr ⟨(r,j),(mem_placedPairs r j).mpr ⟨by omega,jLast,by omega,row⟩,rfl⟩
  rw [Nat.card_Icc] at below above
  have images := (above.trans card_image_le)
  omega

theorem Placed.total {u : Nat → Int} {cost : Nat → Nat → Int} (tight : TightBut cost columns u v p 0) :
    ∑ pair ∈ placedPairs columns p, cost pair.1 pair.2 = ∑ r ∈ Icc 1 rows, u r + ∑ j ∈ Icc 1 columns, v j := by
  have matching := placed.matching
  have full : #(placedPairs columns p) = #(Icc 1 rows) := by rw [placed.card_pairs,Nat.card_Icc]; omega
  have each : ∑ pair ∈ placedPairs columns p, cost pair.1 pair.2 = ∑ pair ∈ placedPairs columns p, (u pair.1 + v pair.2) := by
    refine sum_congr rfl (fun pair mem => ?_)
    obtain ⟨first,last,some,row⟩ := (mem_placedPairs pair.1 pair.2).mp mem
    rw [← row]
    exact (tight pair.2 first last (by omega) some).symm
  have columnSum : ∑ pair ∈ placedPairs columns p, v pair.2 = ∑ j ∈ Icc 1 columns, v j := by
    rw [← sum_image (f := v) matching.columnOnce]
    refine sum_subset (fun j mem => ?_) (fun j mem outside => ?_)
    · obtain ⟨pair,held,rfl⟩ := mem_image.mp mem
      exact matching.column pair held
    obtain ⟨first,last⟩ := mem_Icc.mp mem
    refine placed.free j first last (by omega) (by_contra fun some => outside ?_)
    exact mem_image.mpr ⟨(p j,j),(mem_placedPairs (p j) j).mpr ⟨first,last,some,rfl⟩,rfl⟩
  rw [each,sum_add_distrib,columnSum,← matching.rows_eq full,sum_image matching.rowOnce]

end

end

theorem Assigned.least {cost : Nat → Nat → Int} {rows columns : Nat} {bound : Int} {held : Assignment}
    (assigned : Assigned cost rows columns rows bound held) (tight : TightBut cost columns held.u held.v held.p 0)
    {pairs : Finset (Nat × Nat)} (matching : Matching (Icc 1 rows) (Icc 1 columns) pairs) (full : pairs.card = rows) :
    ∑ pair ∈ placedPairs columns held.p, cost pair.1 pair.2 ≤ ∑ pair ∈ pairs, cost pair.1 pair.2 := by
  rw [assigned.placed.total tight]
  refine matching.dual_le (by rw [full,Nat.card_Icc]; omega) (fun r row j column => ?_) (fun j => (assigned.duals.column j).2)
  obtain ⟨rFirst,rLast⟩ := mem_Icc.mp row
  obtain ⟨jFirst,jLast⟩ := mem_Icc.mp column
  exact assigned.duals.feasible r j rFirst rLast jFirst jLast

end WindowsOnM1.Hungarian
