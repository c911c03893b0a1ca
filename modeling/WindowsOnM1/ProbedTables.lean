import Mathlib.Data.List.Range
import Mathlib.Logic.Function.Basic

/-!
Tables in which an item lies at its home or, behind full slots, further on in the ring. A search steps from the home over
full slots; what is removed leaves a gap, which is closed by moving back the items whose way it cuts.
-/
namespace WindowsOnM1.ProbedTables
open Function List

/-- The number of steps forward in a ring. -/
def steps (size i j : Nat) : Nat := if i ≤ j then j - i else j + size - i

variable {α : Type*} {home : α → Nat} {size : Nat} {table : Nat → Option α} {step : Nat → Nat}

/-- The first slot from `i` on that is free or whose item is looked for. -/
def probe (step : Nat → Nat) (sought : α → Bool) (table : Nat → Option α) : Nat → Nat → Option Nat
  | 0, _ => none
  | turns + 1, i =>
    match table i with
    | none => some i
    | some item => if sought item then some i else probe step sought table turns (step i)

/-- The items of a table, in the order of their slots. -/
def contents (size : Nat) (table : Nat → Option α) : List α := (range size).filterMap table

/-- No slot before the item is free on the way from its home. -/
def Reachable (home : α → Nat) (size : Nat) (table : Nat → Option α) : Prop :=
  ∀ slot < size, ∀ item, table slot = some item → ∀ way < size, steps size (home item) way < steps size (home item) slot →
    table way ≠ none

/-- The ways that are cut are cut by the gap, and they lead to `next` or further. -/
structure Gapped (home : α → Nat) (size : Nat) (table : Nat → Option α) (gap next : Nat) : Prop where
  apart : gap ≠ next
  free : table gap = none
  cut : ∀ slot < size, ∀ item, table slot = some item → ∀ way < size, steps size (home item) way < steps size (home item) slot →
    table way = none → way = gap ∧ steps size gap next ≤ steps size gap slot
  full : ∀ slot < size, slot ≠ gap → steps size gap slot < steps size gap next → table slot ≠ none

theorem mem_contents {item : α} : item ∈ contents size table ↔ ∃ slot < size, table slot = some item := by
  simp only [contents,mem_filterMap,mem_range]
theorem contents_succ (size : Nat) (table : Nat → Option α) :
    contents (size + 1) table = contents size table ++ (table size).toList := by
  rw [contents,range_succ,filterMap_append]
  congr 1

theorem exists_free (room : (contents size table).length < size) : ∃ slot < size, table slot = none := by
  by_contra full
  have all : (contents size table).length = (range size).length := filterMap_length_eq_length.mpr (fun slot mem => by
    rw [Option.isSome_iff_ne_none]
    exact fun none => full ⟨slot,mem_range.mp mem,none⟩)
  rw [length_range] at all
  exact absurd all (Nat.ne_of_lt room)

theorem contents_put {slot : Nat} {item : α} (inside : slot < size) (free : table slot = none) :
    (contents size (update table slot (some item))).Perm (item :: contents size table) := by
  induction size with
  | zero => exact absurd inside (Nat.not_lt_zero _)
  | succ size ih =>
  rw [contents_succ,contents_succ]
  by_cases last : slot = size
  · subst last
    have same : contents slot (update table slot (some item)) = contents slot table :=
      filterMap_congr (fun other mem => update_of_ne (Nat.ne_of_lt (mem_range.mp mem)) _ _)
    rw [same,update_self,free]
    simp
  rw [update_of_ne (Ne.symm last)]
  exact (ih (by omega)).append_right _

theorem contents_take {slot : Nat} {item : α} (inside : slot < size) (full : table slot = some item) :
    (contents size table).Perm (item :: contents size (update table slot none)) := by
  have put := @contents_put _ size (update table slot none) slot item inside (update_self ..)
  rwa [update_idem,← full,update_eq_self] at put
theorem ne_of_full {gap slot : Nat} {item : α} (free : table gap = none) (full : table slot = some item) : gap ≠ slot := by
  rintro rfl
  rw [free] at full
  cases full

theorem contents_move {gap slot : Nat} {item : α} (inside : gap < size) (below : slot < size) (free : table gap = none)
    (full : table slot = some item) :
    (contents size (update (update table gap (some item)) slot none)).Perm (contents size table) := by
  have apart := ne_of_full free full
  rw [update_comm apart]
  exact (contents_put inside ((update_of_ne apart _ _).trans free)).trans (contents_take below full).symm

theorem Reachable.put (reachable : Reachable home size table) {slot : Nat} {item : α}
    (way : ∀ way < size, steps size (home item) way < steps size (home item) slot → table way ≠ none) :
    Reachable home size (update table slot (some item)) := by
  intro i below one full w within before
  by_cases last : w = slot
  · rw [last,update_self]
    nofun
  rw [update_of_ne last]
  by_cases here : i = slot
  · subst here
    rw [update_self] at full
    cases full
    exact way w within before
  rw [update_of_ne here] at full
  exact reachable i below one full w within before

section
variable (turns : ∀ i < size, step i = if i + 1 < size then i + 1 else 0)
include turns

theorem steps_step {i j : Nat} (inside : i < size) (below : j < size) (apart : i ≠ j) :
    step i < size ∧ steps size i j = steps size (step i) j + 1 := by
  rw [turns i inside]
  unfold steps
  split_ifs <;> omega

theorem probe_finds (sought : α → Bool) {free : Nat} (below : free < size) (isFree : table free = none) :
    ∀ fuel i, i < size → steps size i free < fuel →
      ∃ slot < size, probe step sought table fuel i = some slot ∧ steps size i slot ≤ steps size i free ∧
        (∀ item, table slot = some item → sought item = true) ∧
        ∀ way < size, steps size i way < steps size i slot → ∃ item, table way = some item ∧ sought item = false := by
  intro fuel
  induction fuel with
  | zero => exact fun i _ few => absurd few (Nat.not_lt_zero _)
  | succ fuel ih =>
  intro i inside few
  have self : steps size i i = 0 := by simp [steps]
  unfold probe
  cases here : table i with
  | none => exact ⟨i,inside,rfl,by omega,by simp [here],by omega⟩
  | some item =>
  dsimp only
  split
  · rename_i found
    exact ⟨i,inside,rfl,by omega,fun item' full => by rw [here] at full; cases full; exact found,by omega⟩
  rename_i passes
  have apart := (ne_of_full isFree here).symm
  obtain ⟨inside',nearer⟩ := steps_step turns inside below apart
  obtain ⟨slot,within,is,near,stops,passed⟩ := ih (step i) inside' (by omega)
  have other : i ≠ slot := by
    rintro rfl
    rw [turns i inside] at near
    unfold steps at near
    split_ifs at near <;> omega
  obtain ⟨_,further⟩ := steps_step turns inside within other
  refine ⟨slot,within,is,by omega,stops,fun way inWay less => ?_⟩
  by_cases first : i = way
  · subst first
    exact ⟨item,here,by simpa using passes⟩
  obtain ⟨_,later⟩ := steps_step turns inside inWay first
  exact passed way inWay (by omega)

theorem Reachable.gapped (reachable : Reachable home size table) {gap : Nat} (inside : gap < size) (more : 1 < size) :
    Gapped home size (update table gap none) gap (step gap) := by
  have one : gap ≠ step gap ∧ steps size gap (step gap) = 1 := by
    rw [turns gap inside]
    unfold steps
    split_ifs <;> omega
  refine ⟨one.1,update_self ..,fun slot below item full w within before free => ?_,fun slot below other less => ?_⟩
  · have apart := ne_of_full (update_self ..) full
    rw [update_of_ne apart.symm] at full
    have here : w = gap := by
      by_contra other
      rw [update_of_ne other] at free
      exact reachable slot below item full w within before free
    refine ⟨here,?_⟩
    rw [one.2]
    unfold steps
    split_ifs <;> omega
  rw [one.2] at less
  unfold steps at less
  split_ifs at less <;> omega

namespace Gapped

variable {gap slot : Nat} {item : α} (gapped : Gapped home size table gap slot) (below : slot < size) (inside : gap < size)
  (homes : ∀ item, home item < size)
include gapped below inside homes

theorem move (full : table slot = some item) (cut : steps size gap slot ≤ steps size (home item) slot) :
    Gapped home size (update (update table gap (some item)) slot none) slot (step slot) := by
  have home' := homes item
  have apart := gapped.apart
  refine Reachable.gapped turns (fun i within one here w below' before free => ?_) below (by omega)
  have notGap : w ≠ gap := by
    rintro rfl
    rw [update_self] at free
    cases free
  rw [update_of_ne notGap] at free
  by_cases moved : i = gap
  · subst moved
    rw [update_self] at here
    cases here
    refine notGap (gapped.cut slot below item full w below' ?_ free).1
    unfold steps at *
    split_ifs at * <;> omega
  rw [update_of_ne moved] at here
  exact notGap (gapped.cut i within one here w below' before free).1

theorem skip {spare : Nat} (spareIn : spare < size) (other : spare ≠ gap) (isFree : table spare = none)
    (full : table slot = some item) (stays : steps size (home item) slot < steps size gap slot) :
    Gapped home size table gap (step slot) := by
  have home' := homes item
  have spared := ne_of_full isFree full
  have further : gap ≠ step slot ∧ steps size gap (step slot) = steps size gap slot + 1 := by
    have far : steps size gap slot ≤ steps size gap spare := by
      by_contra near
      exact gapped.full spare spareIn other (Nat.lt_of_not_le near) isFree
    rw [turns slot below]
    unfold steps at *
    split_ifs at * <;> omega
  have same : ∀ i < size, steps size gap i = steps size gap slot → i = slot := by
    intro i within
    unfold steps
    split_ifs <;> omega
  refine ⟨further.1,gapped.free,fun i within one here w below' before free => ?_,fun i within notGap less => ?_⟩
  · obtain ⟨rfl,far⟩ := gapped.cut i within one here w below' before free
    refine ⟨rfl,?_⟩
    by_contra near
    have is := same i within (by omega)
    subst is
    rw [full] at here
    cases here
    unfold steps at *
    split_ifs at * <;> omega
  by_cases last : steps size gap i = steps size gap slot
  · rw [same i within last,full]
    nofun
  exact gapped.full i within notGap (by omega)

omit turns

theorem closed (free : table slot = none) : Reachable home size table := by
  intro i within one here w below' before cut
  have home' := homes one
  obtain ⟨rfl,far⟩ := gapped.cut i within one here w below' before cut
  have other := ne_of_full free here
  refine gapped.apart (gapped.cut i within one here slot below ?_ free).1.symm
  unfold steps at *
  split_ifs at * <;> omega

end Gapped

end

end WindowsOnM1.ProbedTables
