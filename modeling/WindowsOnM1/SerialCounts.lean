import Mathlib.Data.List.Nodup

/-!
How often a property holds in a list whose items have serial numbers, when one item is
added, removed or changed. The counts are stated without subtraction.
-/
namespace WindowsOnM1.SerialCounts
open List

variable {α : Type*} {serial : α → Nat}

def one (p : Bool) : Nat := if p then 1 else 0
@[simp] theorem one_true : one true = 1 := rfl
@[simp] theorem one_false : one false = 0 := rfl

variable (p : α → Bool)

theorem countP_push (new : α) (items : List α) : (new :: items).countP p = items.countP p + one (p new) := countP_cons

/-- A change of the item of one serial number. -/
def changeAt (serial : α → Nat) (s : Nat) (change : α → α) (item : α) : α :=
  if serial item = s then change item else item

variable {items : List α}

variable (change : α → α)

theorem countP_absent {s : Nat} (absent : ∀ item ∈ items, serial item ≠ s) :
    (items.filter (fun item => serial item != s)).countP p = items.countP p ∧
      (items.map (changeAt serial s change)).countP p = items.countP p := by
  constructor
  · rw [filter_eq_self.mpr (fun item mem => bne_iff_ne.mpr (absent item mem))]
  have same : items.map (changeAt serial s change) = items := by
    calc items.map (changeAt serial s change) = items.map id :=
          map_congr_left (fun item mem => if_neg (absent item mem))
      _ = items := map_id items
  rw [same]

theorem countP_remove (serials : (items.map serial).Nodup) {gone : α} (mem : gone ∈ items) :
    (items.filter (fun item => serial item != serial gone)).countP p + one (p gone) = items.countP p := by
  induction items with
  | nil => exact absurd mem not_mem_nil
  | cons first rest ih =>
  obtain ⟨apart,serials⟩ := nodup_cons.mp serials
  rcases mem_cons.mp mem with rfl | later
  · have absent : ∀ item ∈ rest, serial item ≠ serial gone :=
      fun item there same => apart (mem_map.mpr ⟨item,there,same⟩)
    rw [filter_cons_of_neg (by simp),(countP_absent p id absent).1,countP_push]
  have away : serial first ≠ serial gone := fun same => apart (mem_map.mpr ⟨gone,later,same.symm⟩)
  rw [filter_cons_of_pos (by simpa using away),countP_push,countP_push,← ih serials later]
  omega

theorem countP_change (serials : (items.map serial).Nodup) {old : α} (mem : old ∈ items) :
    (items.map (changeAt serial (serial old) change)).countP p + one (p old) = items.countP p + one (p (change old)) := by
  induction items with
  | nil => exact absurd mem not_mem_nil
  | cons first rest ih =>
  obtain ⟨apart,serials⟩ := nodup_cons.mp serials
  rw [map_cons,countP_push,countP_push]
  rcases mem_cons.mp mem with rfl | later
  · have absent : ∀ item ∈ rest, serial item ≠ serial old :=
      fun item there same => apart (mem_map.mpr ⟨item,there,same⟩)
    rw [(countP_absent p change absent).2,changeAt,if_pos rfl]
    omega
  have away : serial first ≠ serial old := fun same => apart (mem_map.mpr ⟨old,later,same.symm⟩)
  have rest := ih serials later
  rw [changeAt,if_neg away]
  omega

end WindowsOnM1.SerialCounts
