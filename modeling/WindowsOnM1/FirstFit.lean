import WindowsOnM1.Tallies

/-!
First fit: a scan that counts the free places in a row and stops when there are enough of
them, and stretches of places that do not meet.
-/
namespace WindowsOnM1.FirstFit
open Tallies List

/-- The scan of `turns` places from `index` with a run of `run` free ones before it. It ends
    with the length of the last run, and with its first place when the run is long enough. -/
def firstFit (used : Nat → Bool) (count : Nat) : (index turns run : Nat) → Nat × Nat
  | _, 0, run => (run,0)
  | index, turns+1, run =>
    if used index = true then firstFit used count (index + 1) turns 0
    else if run + 1 = count then (run + 1,index + 1 - count)
    else firstFit used count (index + 1) turns (run + 1)

/-- The places `first`, …, `first + count - 1` are free. -/
def Free (used : Nat → Bool) (first count : Nat) : Prop := ∀ index, first ≤ index → index < first + count → used index = false

variable {used : Nat → Bool} {count : Nat}

theorem firstFit_found {index turns run : Nat} (before : run ≤ index) (short : run < count)
    (free : Free used (index - run) run) (found : (firstFit used count index turns run).1 = count) :
    (firstFit used count index turns run).2 + count ≤ index + turns ∧ Free used (firstFit used count index turns run).2 count := by
  induction turns generalizing index run with
  | zero => exact absurd found (Nat.ne_of_lt short)
  | succ turns ih =>
  unfold firstFit at found ⊢
  by_cases occupied : used index = true
  · rw [if_pos occupied] at found ⊢
    have rest := ih (Nat.zero_le _) (Nat.lt_of_le_of_lt (Nat.zero_le _) short) (fun other above below => by omega) found
    exact ⟨by omega,rest.2⟩
  have here : used index = false := Bool.eq_false_iff.mpr occupied
  have longer : Free used (index + 1 - (run + 1)) (run + 1) := by
    intro other above below
    by_cases last : other = index
    · rw [last]
      exact here
    exact free other (by omega) (by omega)
  rw [if_neg occupied] at found ⊢
  by_cases enough : run + 1 = count
  · rw [if_pos enough] at found ⊢
    refine ⟨?_,?_⟩
    · omega
    rw [← enough]
    exact longer
  rw [if_neg enough] at found ⊢
  have rest := ih (by omega) (by omega) longer found
  exact ⟨by omega,rest.2⟩

theorem firstFit_finds {index turns run first : Nat} (short : run < count) (start : index ≤ first + run)
    (inside : first + count ≤ index + turns) (free : Free used first count) :
    (firstFit used count index turns run).1 = count := by
  induction turns generalizing index run with
  | zero => omega
  | succ turns ih =>
  unfold firstFit
  split
  · rename_i occupied
    refine ih (by omega) ?_ (by omega)
    by_cases above : first ≤ index
    · exact absurd (free index above (by omega)) (by rw [occupied]; decide)
    omega
  split
  · rename_i enough
    exact enough
  exact ih (by omega) (by omega) (by omega)

theorem firstFit_iff (positive : 0 < count) (bound : Nat) :
    (firstFit used count 0 bound 0).1 = count ↔ ∃ first, first + count ≤ bound ∧ Free used first count := by
  constructor
  · intro found
    have fits := firstFit_found (Nat.le_refl 0) positive (fun other above below => by omega) found
    exact ⟨_,by omega,fits.2⟩
  rintro ⟨first,inside,free⟩
  exact firstFit_finds positive (by omega) (by omega) free

structure Stretch where
  first : Nat
  count : Nat
deriving DecidableEq
def Stretch.Covers (stretch : Stretch) (index : Nat) : Prop := stretch.first ≤ index ∧ index < stretch.first + stretch.count
instance (stretch : Stretch) (index : Nat) : Decidable (stretch.Covers index) := inferInstanceAs (Decidable (_ ∧ _))
def Stretch.Apart (left right : Stretch) : Prop := ∀ index, left.Covers index → ¬ right.Covers index
theorem Stretch.Apart.symm {left right : Stretch} (apart : left.Apart right) : right.Apart left :=
  fun index covers other => apart index other covers

/-- Stretches that do not meet cover as many places as they are long. -/
theorem tally_stretches {stretches : List Stretch} {bound : Nat} (apart : stretches.Pairwise Stretch.Apart)
    (inside : ∀ stretch ∈ stretches, stretch.first + stretch.count ≤ bound) {property : Nat → Bool}
    (covered : ∀ index, property index = true ↔ ∃ stretch ∈ stretches, stretch.Covers index) :
    tally property bound = (stretches.map Stretch.count).sum := by
  induction stretches generalizing property with
  | nil =>
    rw [tally,countP_eq_zero.mpr]
    · rfl
    intro index _ on
    obtain ⟨_,bad,_⟩ := (covered index).mp on
    cases bad
  | cons head rest ih =>
  obtain ⟨first,others⟩ := pairwise_cons.mp apart
  have before : tally (fun index => decide (∃ stretch ∈ rest, stretch.Covers index)) bound = (rest.map Stretch.count).sum :=
    ih others (fun stretch mem => inside stretch (mem_cons_of_mem _ mem)) (fun index => decide_eq_true_iff)
  have more : tally property bound = tally (fun index => decide (∃ stretch ∈ rest, stretch.Covers index)) bound + head.count := by
    refine tally_range (inside head mem_cons_self) ?_ ?_
    · intro index above below
      refine decide_eq_false ?_
      rintro ⟨stretch,mem,covers⟩
      exact first stretch mem index ⟨above,below⟩ covers
    intro index
    refine Bool.eq_iff_iff.mpr ?_
    rw [covered,Bool.or_eq_true,decide_eq_true_iff,decide_eq_true_iff]
    constructor
    · rintro ⟨stretch,mem,covers⟩
      rcases mem_cons.mp mem with rfl | mem
      · exact Or.inr covers
      exact Or.inl ⟨stretch,mem,covers⟩
    rintro (⟨stretch,mem,covers⟩ | covers)
    · exact ⟨stretch,mem_cons_of_mem _ mem,covers⟩
    exact ⟨head,mem_cons_self,covers⟩
  rw [map_cons,sum_cons,more,before]
  exact Nat.add_comm _ _

end WindowsOnM1.FirstFit
