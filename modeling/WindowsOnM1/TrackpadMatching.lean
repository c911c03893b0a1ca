import WindowsOnM1.TrackpadTracker

/-!
What the matching of a frame gives: links between old and new contacts, one for one, that
leave no contact of the smaller side alone.
-/
namespace WindowsOnM1.Trackpad
open CountedLoop Hungarian Function

/-- A coordinate of 16 bits, with a sign or without. -/
def Narrow (x : BitVec 32) : Prop := -65536 ≤ x.toInt ∧ x.toInt ≤ 65535

/-- The most that a pair of contacts costs. -/
abbrev costTop : Int := 2 * (131071 * 131071)

theorem squared_bounds {distance : Int} (near : -131071 ≤ distance ∧ distance ≤ 131071) :
    0 ≤ squared distance ∧ squared distance ≤ 131071 * 131071 := by
  have small : (distance.natAbs : Int) ≤ 131071 := by omega
  have low : 0 ≤ (distance.natAbs : Int) := Int.natCast_nonneg _
  exact ⟨Int.mul_nonneg low low,Int.mul_le_mul small small low (by decide)⟩

theorem coordinateCost_bounds {slot : PhysicalSlot} {contact : Contact} (slotX : Narrow slot.x) (slotY : Narrow slot.y)
    (contactX : Narrow contact.x) (contactY : Narrow contact.y) :
    0 ≤ coordinateCost slot contact ∧ coordinateCost slot contact ≤ costTop := by
  unfold Narrow at slotX slotY contactX contactY
  obtain ⟨lowX,highX⟩ := @squared_bounds (slot.x.toInt - contact.x.toInt) (by omega)
  obtain ⟨lowY,highY⟩ := @squared_bounds (slot.y.toInt - contact.y.toInt) (by omega)
  unfold coordinateCost
  dsimp only [costMax,costTop]
  split <;> omega

/-- The old and the new contact that a column links. -/
def columnOld (rowsAreOld : Bool) (p : Nat → Nat) (j : Nat) : Nat := if rowsAreOld then p j - 1 else j - 1
def columnNew (rowsAreOld : Bool) (p : Nat → Nat) (j : Nat) : Nat := if rowsAreOld then j - 1 else p j - 1

/-- The contacts that a column before some one links. -/
def Paired (rowsAreOld : Bool) (p : Nat → Nat) (stop old new : Nat) : Prop :=
  ∃ j, 1 ≤ j ∧ j < stop ∧ p j ≠ 0 ∧ old = columnOld rowsAreOld p j ∧ new = columnNew rowsAreOld p j

theorem links_spec {columns rows : Nat} {v : Nat → Int} {p : Nat → Nat} (placed : Placed columns rows v p 0) (rowsAreOld : Bool) :
    ∀ old new, ((forRange (linkColumn rowsAreOld p) 1 columns ⟨fun _ => none,fun _ => none⟩).oldToNew old = some new ↔
        Paired rowsAreOld p (1 + columns) old new) ∧
      ((forRange (linkColumn rowsAreOld p) 1 columns ⟨fun _ => none,fun _ => none⟩).newToOld new = some old ↔
        Paired rowsAreOld p (1 + columns) old new) := by
  have distinct (j k : Nat) (jFirst : 1 ≤ j) (jLast : j ≤ columns) (kFirst : 1 ≤ k) (kLast : k ≤ columns) (jRow : p j ≠ 0)
      (kRow : p k ≠ 0) (same : columnOld rowsAreOld p j = columnOld rowsAreOld p k ∨
        columnNew rowsAreOld p j = columnNew rowsAreOld p k) : j = k := by
    unfold columnOld columnNew at same
    by_cases equal : p j = p k
    · exact placed.distinct j jLast k kLast (by omega) (by omega) jRow equal
    cases rowsAreOld <;> simp only [Bool.false_eq_true,if_true,if_false] at same <;> omega
  refine forRange_keeps (linkColumn rowsAreOld p) (fun stop links => ∀ old new,
    (links.oldToNew old = some new ↔ Paired rowsAreOld p stop old new) ∧
      (links.newToOld new = some old ↔ Paired rowsAreOld p stop old new)) ?_ (fun j links first last inv old new => ?_)
  · intro old new
    have none : ¬ Paired rowsAreOld p 1 old new := fun ⟨j,jFirst,jLast,_⟩ => by omega
    exact ⟨iff_of_false (by simp) none,iff_of_false (by simp) none⟩
  unfold linkColumn
  split
  · rename_i free
    have same : Paired rowsAreOld p (j + 1) old new ↔ Paired rowsAreOld p j old new := by
      constructor
      · rintro ⟨k,kFirst,kLast,kRow,rest⟩
        refine ⟨k,kFirst,lt_of_le_of_ne (by omega) ?_,kRow,rest⟩
        rintro rfl
        exact kRow free
      rintro ⟨k,kFirst,kLast,rest⟩
      exact ⟨k,kFirst,by omega,rest⟩
    rw [same]
    exact inv old new
  rename_i free
  have here : Paired rowsAreOld p (j + 1) old new ↔
      (old = columnOld rowsAreOld p j ∧ new = columnNew rowsAreOld p j) ∨ Paired rowsAreOld p j old new := by
    constructor
    · rintro ⟨k,kFirst,kLast,kRow,rest⟩
      by_cases same : k = j
      · exact .inl (same ▸ rest)
      exact .inr ⟨k,kFirst,by omega,kRow,rest⟩
    rintro (both | ⟨k,kFirst,kLast,rest⟩)
    · exact ⟨j,first,by omega,free,both⟩
    exact ⟨k,kFirst,by omega,rest⟩
  have earlier (paired : Paired rowsAreOld p j old new) :
      old ≠ columnOld rowsAreOld p j ∧ new ≠ columnNew rowsAreOld p j := by
    obtain ⟨k,kFirst,kLast,kRow,rfl,rfl⟩ := paired
    refine ⟨fun same => ?_,fun same => ?_⟩
    · exact absurd (distinct k j kFirst (by omega) first (by omega) kRow free (.inl same)) (by omega)
    exact absurd (distinct k j kFirst (by omega) first (by omega) kRow free (.inr same)) (by omega)
  rw [here]
  constructor
  · change update links.oldToNew (columnOld rowsAreOld p j) (some (columnNew rowsAreOld p j)) old = some new ↔ _
    by_cases same : old = columnOld rowsAreOld p j
    · rw [same,update_self]
      constructor
      · intro equal
        exact .inl ⟨rfl,(Option.some.inj equal).symm⟩
      rintro (⟨-,rfl⟩ | paired)
      · rfl
      exact absurd same (earlier (same ▸ paired)).1
    rw [update_of_ne same,(inv old new).1]
    exact ⟨.inr,fun either => either.resolve_left (fun both => same both.1)⟩
  change update links.newToOld (columnNew rowsAreOld p j) (some (columnOld rowsAreOld p j)) new = some old ↔ _
  by_cases same : new = columnNew rowsAreOld p j
  · rw [same,update_self]
    constructor
    · intro equal
      exact .inl ⟨(Option.some.inj equal).symm,rfl⟩
    rintro (⟨rfl,-⟩ | paired)
    · rfl
    exact absurd same (earlier (same ▸ paired)).2
  rw [update_of_ne same,(inv old new).2]
  exact ⟨.inr,fun either => either.resolve_left (fun both => same both.2)⟩

/-- Links between old and new contacts, one for one. -/
structure Linked (oldCount newCount : Nat) (links : Links) : Prop where
  within : ∀ old new, links.oldToNew old = some new → old < oldCount ∧ new < newCount
  both : ∀ old new, links.oldToNew old = some new ↔ links.newToOld new = some old
  full : (∀ old < oldCount, ∃ new, links.oldToNew old = some new) ∨ ∀ new < newCount, ∃ old, links.newToOld new = some old

theorem costTop_room {rows : Nat} (few : rows ≤ appleTrackpadMaxContacts) : ((rows : Int) + 1) * costTop < costMax := by
  have most : ((rows : Int) + 1) * costTop ≤ 12 * costTop :=
    Int.mul_le_mul_of_nonneg_right (by unfold appleTrackpadMaxContacts at few; omega) (by decide)
  exact lt_of_le_of_lt most (by decide)

theorem assign_links (rowsAreOld : Bool) {rows columns : Nat} {cost : Nat → Nat → Int} (priced : Priced cost rows columns costTop)
    (wide : rows ≤ columns) (few : rows ≤ appleTrackpadMaxContacts) :
    ∃ links, (assign cost costMax columns rows).map (fun held =>
        forRange (linkColumn rowsAreOld held.p) 1 columns ⟨fun _ => none,fun _ => none⟩) = some links ∧
      Linked (if rowsAreOld then rows else columns) (if rowsAreOld then columns else rows) links := by
  obtain ⟨held,assigned,⟨placed,-,-⟩,-⟩ := assign_places priced (by decide) wide (costTop_room few)
  rw [assigned,Option.map_some]
  refine ⟨_,rfl,?_⟩
  have spec := links_spec placed rowsAreOld
  generalize forRange (linkColumn rowsAreOld held.p) 1 columns ⟨fun _ => none,fun _ => none⟩ = links at spec
  refine ⟨fun old new link => ?_,fun old new => (spec old new).1.trans (spec old new).2.symm,?_⟩
  · obtain ⟨j,first,last,row,rfl,rfl⟩ := (spec old new).1.mp link
    have inside := placed.inside j (by omega) (by omega)
    unfold columnOld columnNew
    cases rowsAreOld <;> simp only [Bool.false_eq_true,if_true,if_false] <;> omega
  have covered (row : Nat) (below : row < rows) : ∃ j, 1 ≤ j ∧ j < 1 + columns ∧ held.p j = row + 1 := by
    obtain ⟨j,last,some,same⟩ := placed.cover (row + 1) (by omega) (by omega)
    exact ⟨j,by omega,by omega,same⟩
  cases rowsAreOld with
  | true =>
    refine .inl (fun old below => ?_)
    obtain ⟨j,first,last,row⟩ := covered old below
    refine ⟨j - 1,(spec old (j - 1)).1.mpr ⟨j,first,last,by omega,?_,rfl⟩⟩
    change old = held.p j - 1
    omega
  | false =>
  refine .inr (fun new below => ?_)
  obtain ⟨j,first,last,row⟩ := covered new below
  refine ⟨j - 1,(spec (j - 1) new).2.mpr ⟨j,first,last,by omega,rfl,?_⟩⟩
  change new = held.p j - 1
  omega

/-- The matching of a frame ends with links, as long as all coordinates have 16 bits. -/
theorem minimumAssignment_links {tracker : Tracker} {frame : Frame} {old : List Nat} (few : old.length ≤ appleTrackpadMaxContacts)
    (count : frame.count ≤ appleTrackpadMaxContacts)
    (slots : ∀ place ∈ old, Narrow (tracker.slots place).x ∧ Narrow (tracker.slots place).y)
    (contacts : ∀ i < frame.count, Narrow (frame.contacts i).x ∧ Narrow (frame.contacts i).y) :
    ∃ links, minimumAssignment tracker frame old = some links ∧ Linked old.length frame.count links := by
  have bounds (i j : Nat) (inside : i < old.length) (insideNew : j < frame.count) :
      0 ≤ coordinateCost (tracker.slots (old.getD i 0)) (frame.contacts j) ∧
        coordinateCost (tracker.slots (old.getD i 0)) (frame.contacts j) ≤ costTop := by
    have mem : old.getD i 0 ∈ old := by
      rw [List.getD_eq_getElem?_getD,List.getElem?_eq_getElem inside,Option.getD_some]
      exact List.getElem_mem inside
    exact coordinateCost_bounds (slots _ mem).1 (slots _ mem).2 (contacts j insideNew).1 (contacts j insideNew).2
  unfold minimumAssignment
  by_cases order : old.length ≤ frame.count
  · simp only [decide_eq_true order,if_true]
    exact assign_links true ⟨fun i j iFirst iLast jFirst jLast => (bounds (i - 1) (j - 1) (by omega) (by omega)).1,
      fun i j iFirst iLast jFirst jLast => (bounds (i - 1) (j - 1) (by omega) (by omega)).2⟩ order few
  simp only [decide_eq_false order,Bool.false_eq_true,if_false]
  exact assign_links false ⟨fun i j iFirst iLast jFirst jLast => (bounds (j - 1) (i - 1) (by omega) (by omega)).1,
    fun i j iFirst iLast jFirst jLast => (bounds (j - 1) (i - 1) (by omega) (by omega)).2⟩ (by omega) count

end WindowsOnM1.Trackpad
