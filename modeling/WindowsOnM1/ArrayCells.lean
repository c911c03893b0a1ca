import Mathlib.Data.List.Basic

/-!
Lists kept in the first cells of an array, and the loops that move them: filling
from a source, closing the gap of a removed cell, and opening room at the front.
Each loop is a recursion over its remaining turns and each has one lemma that
says what list it leaves.
-/
namespace ArrayCells
open List Function

variable {α : Type*}

/-- The first `n` cells. -/
def cells (array : Nat → α) (n : Nat) : List α := (List.range n).map array

/-- `for (i = 0; i < n; ++i) array[i] = source[i]`; the order of the turns does not matter. -/
def fill (source : Nat → α) : Nat → (Nat → α) → Nat → α
  | 0, array => array
  | n+1, array => fill source n (Function.update array n (source n))

/-- `for (; i + 1 < n; ++i) array[i] = array[i + 1]` with `turns` turns left. -/
def closeGap : (turns i : Nat) → (Nat → α) → Nat → α
  | 0, _, array => array
  | turns+1, i, array => closeGap turns (i + 1) (Function.update array i (array (i + 1)))

/-- `for (i = n; i-- > 0;) array[i + width] = array[i]`. -/
def shiftUp (width : Nat) : Nat → (Nat → α) → Nat → α
  | 0, array => array
  | n+1, array => shiftUp width n (Function.update array (n + width) (array n))
@[simp] theorem cells_length (array : Nat → α) (n : Nat) : (cells array n).length = n := by simp [cells]
@[simp] theorem cells_zero (array : Nat → α) : cells array 0 = [] := rfl
theorem cells_succ (array : Nat → α) (n : Nat) : cells array (n + 1) = cells array n ++ [array n] := by
  simp [cells,range_succ]

variable {array : Nat → α} {n : Nat} {a : α}

theorem mem_cells : a ∈ cells array n ↔ ∃ i < n, array i = a := by
  simp [cells]
theorem cells_congr {array' : Nat → α} (same : ∀ i < n, array' i = array i) : cells array' n = cells array n :=
  map_congr_left (fun i inside => same i (mem_range.mp inside))

theorem cells_getElem? (array : Nat → α) (n i : Nat) :
    (cells array n)[i]? = if i < n then some (array i) else none := by
  unfold cells
  split_ifs with inside
  · simp [inside]
  simp [Nat.le_of_not_lt inside]

/-- A stretch of cells from `i` on is its first cell and the stretch behind it. -/
theorem map_range_add (array : Nat → α) (i n : Nat) : (List.range (n + 1)).map (fun j => array (i + j)) =
      array i :: (List.range n).map (fun j => array (i + 1 + j)) := by
  rw [range_succ_eq_map,map_cons,map_map,Nat.add_zero]
  congr 1
  apply map_congr_left
  intro j _
  simp only [comp]
  congr 1
  omega

theorem cells_push (array : Nat → α) (n : Nat) (a : α) :
    cells (Function.update array n a) (n + 1) = cells array n ++ [a] := by
  rw [cells_succ]
  congr 1
  · apply cells_congr
    intro i inside
    rw [update_of_ne (by omega)]
  simp

theorem fill_apply (source : Nat → α) (n : Nat) (array : Nat → α) (i : Nat) :
    fill source n array i = if i < n then source i else array i := by
  induction n generalizing array with
  | zero => simp [fill]
  | succ n ih =>
  rw [fill,ih]
  by_cases below : i < n
  · simp [below,Nat.lt_succ_of_lt below]
  by_cases last : i = n
  · subst last; simp
  have above : ¬ i < n + 1 := by omega
  simp [below,above,update_of_ne last]

theorem cells_fill (source : Nat → α) (n : Nat) (array : Nat → α) : cells (fill source n array) n = cells source n :=
  cells_congr (fun i inside => by simp [fill_apply,inside])

theorem closeGap_apply (turns i : Nat) (array : Nat → α) (j : Nat) :
    closeGap turns i array j = if i ≤ j ∧ j < i + turns then array (j + 1) else array j := by
  induction turns generalizing i array with
  | zero =>
    rw [closeGap,if_neg (by omega)]
  | succ turns ih =>
  rw [closeGap,ih]
  by_cases here : j = i
  · subst here; simp
  by_cases inside : i + 1 ≤ j ∧ j < i + 1 + turns
  · have outer : i ≤ j ∧ j < i + (turns + 1) := by omega
    rw [if_pos inside,if_pos outer,update_of_ne (by omega)]
  have outer : ¬ (i ≤ j ∧ j < i + (turns + 1)) := by omega
  rw [if_neg inside,if_neg outer,update_of_ne here]

/-- Closing the gap at `i` removes that cell from the list. -/
theorem cells_closeGap (array : Nat → α) {i : Nat} (inside : i < n) :
    cells (closeGap (n - (i + 1)) i array) (n - 1) = (cells array n).eraseIdx i := by
  apply ext_getElem?
  intro j
  rw [getElem?_eraseIdx,cells_getElem?,cells_getElem?,cells_getElem?,closeGap_apply]
  by_cases before : j < i
  · have within : j < n - 1 := by omega
    have outside : ¬ (i ≤ j ∧ j < i + (n - (i + 1))) := by omega
    have whole : j < n := by omega
    simp [before,within,outside,whole]
  by_cases within : j < n - 1
  · have moved : i ≤ j ∧ j < i + (n - (i + 1)) := by omega
    have next : j + 1 < n := by omega
    simp [before,within,moved,next]
  have next : ¬ j + 1 < n := by omega
  simp [before,within,next]

theorem cells_eraseIdx_first [DecidableEq α] {i : Nat} (found : (List.range n).find? (fun j => array j == a) = some i) :
    i < n ∧ array i = a ∧ (cells array n).eraseIdx i = (cells array n).erase a := by
  obtain ⟨here,inside,earlier⟩ := find?_range_eq_some.mp found
  have bound : i < n := mem_range.mp inside
  have value : array i = a := by simpa using here
  refine ⟨bound,value,(erase_eq_eraseIdx_of_idxOf ?_).symm⟩
  have within : i < (cells array n).length := by simpa using bound
  rw [idxOf,findIdx_eq within]
  constructor
  · simpa [cells] using value
  intro j before
  have other := earlier j before
  simpa [cells] using other

theorem cells_find_none [DecidableEq α]
    (none : (List.range n).find? (fun j => array j == a) = none) : a ∉ cells array n := by
  intro mem
  obtain ⟨i,inside,value⟩ := mem_cells.mp mem
  have absent := find?_eq_none.mp none i (mem_range.mpr inside)
  simp [value] at absent

theorem shiftUp_apply (width n : Nat) (array : Nat → α) (j : Nat) :
    shiftUp width n array (j + width) = if j < n then array j else array (j + width) := by
  induction n generalizing array with
  | zero => simp [shiftUp]
  | succ n ih =>
  rw [shiftUp,ih]
  by_cases below : j < n
  · rw [if_pos below,if_pos (by omega)]
    by_cases empty : width = 0
    · subst empty
      by_cases same : j = n
      · omega
      rw [Nat.add_zero,update_of_ne same]
    rw [update_of_ne (by omega)]
  by_cases last : j = n
  · subst last; simp
  rw [if_neg below,if_neg (by omega),update_of_ne (by omega)]

theorem cells_prepend (source array : Nat → α) (width n : Nat) :
    cells (fill source width (shiftUp width n array)) (width + n) = cells source width ++ cells array n := by
  apply ext_getElem?
  intro j
  rw [cells_getElem?,fill_apply]
  by_cases front : j < width
  · have within : j < width + n := by omega
    rw [getElem?_append_left (by simpa using front),cells_getElem?]
    simp [front,within]
  rw [getElem?_append_right (by simp; omega),cells_length,cells_getElem?]
  have split : j = (j - width) + width := by omega
  by_cases within : j < width + n
  · have back : j - width < n := by omega
    rw [if_pos within,if_pos back,if_neg front]
    conv_lhs => rw [split]
    rw [shiftUp_apply,if_pos back]
  have back : ¬ j - width < n := by omega
  rw [if_neg within,if_neg back]

end ArrayCells
