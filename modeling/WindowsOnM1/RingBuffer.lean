import Mathlib.Data.List.Basic

/-!
Circular buffers. The storage is a total function of the slot number and only
slots below the capacity are used. Reading `count` slots from the head gives a
list, and each operation on the buffer is an operation on that list.
-/
namespace RingBuffer
open List Function

variable {α : Type*}

/-- The slot that is `i` places behind the head. -/
def slot (cap head i : Nat) : Nat := (head + i) % cap

/-- The stored values in order, starting at the head. -/
def contents (cells : Nat → α) (cap head count : Nat) : List α :=
  (List.range count).map (fun i => cells (slot cap head i))

variable {cap head : Nat}

theorem slot_eq {i : Nat} (headIn : head < cap) (inside : i < cap) :
    slot cap head i = if head + i < cap then head + i else head + i - cap := by
  unfold slot
  split_ifs with small
  · exact Nat.mod_eq_of_lt small
  rw [Nat.mod_eq_sub_mod (by omega),Nat.mod_eq_of_lt (by omega)]

theorem slot_injective {i j : Nat} (headIn : head < cap) (insideI : i < cap) (insideJ : j < cap)
    (same : slot cap head i = slot cap head j) : i = j := by
  rw [slot_eq headIn insideI,slot_eq headIn insideJ] at same
  split_ifs at same <;> omega

theorem slot_advance (cap head i : Nat) : slot cap ((head + 1) % cap) i = slot cap head (i + 1) := by
  unfold slot
  rw [Nat.mod_add_mod]
  congr 1
  omega

@[simp] theorem contents_length (cells : Nat → α) (cap head count : Nat) :
    (contents cells cap head count).length = count := by simp [contents]
@[simp] theorem contents_zero (cells : Nat → α) (cap head : Nat) : contents cells cap head 0 = [] := rfl
theorem contents_getElem (cells : Nat → α) (cap head count i : Nat)
    (inside : i < (contents cells cap head count).length) :
    (contents cells cap head count)[i] = cells (slot cap head i) := by simp [contents]

variable {cells : Nat → α} {count : Nat}

theorem mem_contents {a : α} : a ∈ contents cells cap head count ↔ ∃ i < count, cells (slot cap head i) = a := by
  simp [contents]
theorem contents_succ (cells : Nat → α) (cap head count : Nat) :
    contents cells cap head (count + 1) = contents cells cap head count ++ [cells (slot cap head count)] := by
  simp [contents,range_succ]

theorem contents_cons (cells : Nat → α) (cap head count : Nat) : contents cells cap head (count + 1) =
      cells (slot cap head 0) :: contents cells cap ((head + 1) % cap) count := by
  unfold contents
  rw [range_succ_eq_map,map_cons,map_map]
  congr 1
  apply map_congr_left
  intro i _
  simp only [comp,slot_advance]

theorem contents_congr {cells' : Nat → α} (same : ∀ i < count, cells' (slot cap head i) = cells (slot cap head i)) :
    contents cells' cap head count = contents cells cap head count := by
  apply map_congr_left
  intro i inside
  exact same i (mem_range.mp inside)

theorem contents_push (cells : Nat → α) (headIn : head < cap) (room : count < cap)
    (a : α) : contents (Function.update cells (slot cap head count) a) cap head (count + 1) =
      contents cells cap head count ++ [a] := by
  rw [contents_succ]
  congr 1
  · apply contents_congr
    intro i inside
    rw [update_of_ne]
    intro same
    have := slot_injective headIn (by omega) room same
    omega
  simp

theorem contents_write_head (cells : Nat → α) (headIn : head < cap) (fits : count < cap) (a : α) :
    contents (Function.update cells (slot cap head 0) a) cap ((head + 1) % cap) count =
      contents cells cap ((head + 1) % cap) count := by
  apply contents_congr
  intro i inside
  rw [slot_advance,update_of_ne]
  intro same
  have := slot_injective headIn (by omega) (by omega) same
  omega

theorem contents_getLast? (cells : Nat → α) (cap head count : Nat) (some : count ≠ 0) :
    (contents cells cap head count).getLast? = .some (cells (slot cap head (count - 1))) := by
  obtain ⟨n,rfl⟩ := Nat.exists_eq_succ_of_ne_zero some
  rw [Nat.succ_eq_add_one,contents_succ]
  simp

theorem contents_head? (cells : Nat → α) (cap head count : Nat) (some : count ≠ 0) :
    (contents cells cap head count).head? = .some (cells (slot cap head 0)) := by
  obtain ⟨n,rfl⟩ := Nat.exists_eq_succ_of_ne_zero some
  rw [Nat.succ_eq_add_one,contents_cons]
  simp

/-- The values from place `at` on move one place back, the last one first, so that the
    slot of `at` may be overwritten. The slots are given by their places. -/
def openGap (slotOf : Nat → Nat) (place : Nat) : (turns : Nat) → (Nat → α) → Nat → α
  | 0, cells => cells
  | turns+1, cells =>
    openGap slotOf place turns (Function.update cells (slotOf (place + turns + 1)) (cells (slotOf (place + turns))))

theorem openGap_apply {slotOf : Nat → Nat} {place turns : Nat} (cells : Nat → α)
    (injective : ∀ i ≤ place + turns, ∀ j ≤ place + turns, slotOf i = slotOf j → i = j) {i : Nat}
    (inside : i ≤ place + turns) : openGap slotOf place turns cells (slotOf i) =
      if place < i then cells (slotOf (i - 1)) else cells (slotOf i) := by
  induction turns generalizing cells with
  | zero => rw [openGap,if_neg (by omega)]
  | succ turns ih =>
  rw [openGap]
  have last : ∀ j ≤ place + turns, slotOf j ≠ slotOf (place + turns + 1) := fun j below same => by
    have := injective j (by omega) _ (Nat.le_refl _) same
    omega
  by_cases below : i ≤ place + turns
  · rw [ih _ (fun i hi j hj => injective i (by omega) j (by omega)) below,
      update_of_ne (last (i - 1) (by omega)),update_of_ne (last i below)]
  -- the slot behind the gap is not touched by the remaining turns
  have same : i = place + turns + 1 := by omega
  subst same
  have untouched : ∀ (n : Nat) (array : Nat → α), n ≤ turns →
      openGap slotOf place n array (slotOf (place + turns + 1)) = array (slotOf (place + turns + 1)) := by
    intro n
    induction n with
    | zero => intro array _; rfl
    | succ n ihn =>
    intro array bound
    rw [openGap,ihn _ (by omega),update_of_ne]
    intro clash
    have := injective _ (Nat.le_refl _) _ (by omega) clash
    omega
  rw [untouched turns _ (Nat.le_refl _),update_self,if_pos (by omega)]
  rfl

theorem openGap_congr {slotOf slotOf' : Nat → Nat} (place turns : Nat) (cells : Nat → α)
    (same : ∀ i ≤ place + turns, slotOf i = slotOf' i) :
    openGap slotOf place turns cells = openGap slotOf' place turns cells := by
  induction turns generalizing cells with
  | zero => rfl
  | succ turns ih =>
  rw [openGap,openGap,same (place + turns + 1) (by omega),same (place + turns) (by omega),
    ih _ (fun i below => same i (by omega))]

/-- Writing into the opened gap inserts the value at its place. -/
theorem contents_insert {place : Nat} (headIn : head < cap) (room : count < cap) (behind : place ≤ count) (a : α) :
    contents (Function.update (openGap (slot cap head) place (count - place) cells) (slot cap head place) a)
        cap head (count + 1) =
      (contents cells cap head count).take place ++ a :: (contents cells cap head count).drop place := by
  have injective : ∀ i ≤ place + (count - place), ∀ j ≤ place + (count - place),
      slot cap head i = slot cap head j → i = j := fun i hi j hj same =>
    slot_injective headIn (by omega) (by omega) same
  apply ext_getElem?
  intro i
  by_cases inside : i < count + 1
  · rw [getElem?_eq_getElem (by simpa using inside),contents_getElem]
    rcases Nat.lt_trichotomy i place with before | rfl | after
    · rw [update_of_ne (fun same => by have := injective i (by omega) place (by omega) same; omega),
        openGap_apply cells injective (by omega),if_neg (by omega),getElem?_append_left (by simp; omega),
        getElem?_take_of_lt before,getElem?_eq_getElem (by simp; omega),contents_getElem]
    · rw [update_self,getElem?_append_right (by rw [length_take]; exact Nat.min_le_left ..),length_take,contents_length,
        Nat.min_eq_left behind,Nat.sub_self]
      rfl
    rw [update_of_ne (fun same => by have := injective i (by omega) place (by omega) same; omega),
      openGap_apply cells injective (by omega),if_pos after,getElem?_append_right (by simp; omega),
      length_take,contents_length,Nat.min_eq_left behind]
    obtain ⟨k,shift⟩ : ∃ k, i - place = k + 1 := ⟨i - place - 1,by omega⟩
    have back : place + k = i - 1 := by omega
    rw [shift,getElem?_cons_succ,getElem?_drop,back,getElem?_eq_getElem (by simp; omega), contents_getElem]
  rw [getElem?_eq_none (by simp; omega),getElem?_eq_none (by simp; omega)]

end RingBuffer
