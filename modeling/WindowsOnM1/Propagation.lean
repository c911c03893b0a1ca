import Mathlib.Data.Finset.Card

/-!
Marks that are propagated along a finite list of edges, round after round. As many rounds
as there are nodes mark exactly what is reachable from the marks that were there.
-/
namespace WindowsOnM1.Propagation
open Function Finset

abbrev Marks := Nat → Bool
def follow (marks : Marks) (edge : Nat × Nat) : Marks :=
  if marks edge.1 then Function.update marks edge.2 true else marks
def round (edges : List (Nat × Nat)) (marks : Marks) : Marks := edges.foldl follow marks
def rounds (edges : List (Nat × Nat)) : Nat → Marks → Marks
  | 0, marks => marks
  | turns+1, marks => rounds edges turns (round edges marks)
def Reaches (edges : List (Nat × Nat)) : Nat → Nat → Prop := Relation.ReflTransGen (fun source target => (source,target) ∈ edges)

variable {marks : Marks} {node : Nat}

theorem follow_keeps {edge : Nat × Nat} (marked : marks node = true) : follow marks edge node = true := by
  unfold follow
  split
  · by_cases here : node = edge.2
    · rw [here,update_self]
    rw [update_of_ne here]
    exact marked
  exact marked

variable {edges : List (Nat × Nat)}

theorem round_keeps (marked : marks node = true) : round edges marks node = true := by
  induction edges generalizing marks with
  | nil => exact marked
  | cons edge rest ih => exact ih (follow_keeps marked)

theorem round_follows {source target : Nat} (edge : (source,target) ∈ edges)
    (marked : marks source = true) : round edges marks target = true := by
  induction edges generalizing marks with
  | nil => exact absurd edge List.not_mem_nil
  | cons first rest ih =>
  rcases List.mem_cons.mp edge with rfl | later
  · show round rest (follow marks (source,target)) target = true
    refine round_keeps ?_
    unfold follow
    rw [if_pos marked,update_self]
  exact ih later (follow_keeps marked)

theorem round_reaches {all : List (Nat × Nat)} (subset : edges ⊆ all) {start : Marks}
    (sound : ∀ node, marks node = true → ∃ root, start root = true ∧ Reaches all root node) :
    ∀ node, round edges marks node = true → ∃ root, start root = true ∧ Reaches all root node := by
  induction edges generalizing marks with
  | nil => exact sound
  | cons edge rest ih =>
  refine ih (List.subset_of_cons_subset subset) (fun node marked => ?_)
  unfold follow at marked
  split at marked
  · rename_i source
    by_cases here : node = edge.2
    · obtain ⟨root,isRoot,path⟩ := sound edge.1 source
      exact ⟨root,isRoot,path.tail (here ▸ subset List.mem_cons_self)⟩
    rw [update_of_ne here] at marked
    exact sound node marked
  exact sound node marked

variable {turns : Nat}

theorem rounds_keeps (marked : marks node = true) : rounds edges turns marks node = true := by
  induction turns generalizing marks with
  | zero => exact marked
  | succ turns ih => exact ih (round_keeps marked)

theorem rounds_reaches {start : Marks}
    (sound : ∀ node, marks node = true → ∃ root, start root = true ∧ Reaches edges root node) :
    ∀ node, rounds edges turns marks node = true → ∃ root, start root = true ∧ Reaches edges root node := by
  induction turns generalizing marks with
  | zero => exact sound
  | succ turns ih => exact ih (round_reaches (List.Subset.refl edges) sound)

def Closed (edges : List (Nat × Nat)) (marks : Marks) : Prop :=
  ∀ source target, (source,target) ∈ edges → marks source = true → marks target = true

theorem Closed.reaches (closed : Closed edges marks) {root : Nat}
    (path : Reaches edges root node) (marked : marks root = true) : marks node = true := by
  induction path with
  | refl => exact marked
  | tail _ edge ih => exact closed _ _ edge ih

theorem Closed.round (closed : Closed edges marks) : Propagation.round edges marks = marks := by
  funext node
  refine Bool.eq_iff_iff.mpr ⟨fun marked => ?_,round_keeps⟩
  have sound : ∀ node, marks node = true → ∃ root, marks root = true ∧ Reaches edges root node :=
    fun node isMarked => ⟨node,isMarked,.refl⟩
  obtain ⟨root,isRoot,path⟩ := round_reaches (List.Subset.refl edges) sound node marked
  exact closed.reaches path isRoot

theorem Closed.rounds (closed : Closed edges marks) (turns : Nat) : Propagation.rounds edges turns marks = marks := by
  induction turns with
  | zero => rfl
  | succ turns ih =>
  rw [Propagation.rounds,closed.round]
  exact ih

def marked (count : Nat) (marks : Marks) : Finset Nat := (Finset.range count).filter (fun node => marks node = true)

variable {count : Nat}

section
variable (nodes : ∀ edge ∈ edges, edge.2 < count)
include nodes

theorem card_round
    (opened : ¬ Closed edges marks) : (marked count marks).card < (marked count (round edges marks)).card := by
  simp only [Closed,not_forall] at opened
  obtain ⟨source,target,edge,isMarked,isNew⟩ := opened
  refine card_lt_card (ssubset_iff_of_subset (fun node mem => ?_) |>.mpr ⟨target,?_,?_⟩)
  · obtain ⟨inside,here⟩ := mem_filter.mp mem
    exact mem_filter.mpr ⟨inside,round_keeps here⟩
  · exact mem_filter.mpr ⟨mem_range.mpr (nodes _ edge),round_follows edge isMarked⟩
  exact fun mem => isNew (mem_filter.mp mem).2

theorem rounds_closed :
    ∀ {turns : Nat} {marks : Marks}, count ≤ turns + (marked count marks).card → Closed edges (rounds edges turns marks) := by
  have bound : ∀ marks, (marked count marks).card ≤ count := fun marks =>
    (card_filter_le _ _).trans (card_range count).le
  intro turns
  induction turns with
  | zero =>
    intro marks enough
    by_contra opened
    have more := card_round nodes opened
    have most := bound (round edges marks)
    simp only [rounds] at more most
    omega
  | succ turns ih =>
  intro marks enough
  by_cases closed : Closed edges marks
  · rw [closed.rounds]
    exact closed
  have more := card_round nodes closed
  exact ih (by omega)

theorem rounds_iff (marks : Marks) (node : Nat) :
    rounds edges count marks node = true ↔ ∃ root, marks root = true ∧ Reaches edges root node := by
  constructor
  · exact rounds_reaches (fun node marked => ⟨node,marked,.refl⟩) node
  rintro ⟨root,isRoot,path⟩
  exact (rounds_closed nodes (Nat.le_add_right _ _)).reaches path (rounds_keeps isRoot)

end

end WindowsOnM1.Propagation
