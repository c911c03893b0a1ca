import WindowsOnM1.HungarianOptimal
import WindowsOnM1.TrackpadContacts

/-!
The matching of a frame is one of least cost: no other matching of as many contacts has a smaller
sum of squared distances.
-/
namespace WindowsOnM1.Trackpad
open CountedLoop Hungarian Bool
open Finset (Icc image range)

/-- The square of the distance between an old contact and a new one. -/
def squaredDistance (tracker : Tracker) (frame : Frame) (old : List Nat) (pair : Nat × Nat) : Int :=
  ((tracker.slots (old.getD pair.1 0)).x.toInt - (frame.contacts pair.2).x.toInt) ^ 2 +
    ((tracker.slots (old.getD pair.1 0)).y.toInt - (frame.contacts pair.2).y.toInt) ^ 2

/-- The linked pairs of old and new contacts. -/
def Links.pairs (links : Links) (oldCount newCount : Nat) : Finset (Nat × Nat) :=
  (range oldCount ×ˢ range newCount).filter (fun pair => links.oldToNew pair.1 = some pair.2)
theorem squared_eq (distance : Int) : squared distance = distance ^ 2 := by
  rw [squared,Int.natAbs_mul_self',sq]

private theorem coordinateCost_eq {slot : PhysicalSlot} {contact : Contact} (slotX : Narrow slot.x) (slotY : Narrow slot.y)
    (contactX : Narrow contact.x) (contactY : Narrow contact.y) :
    coordinateCost slot contact = (slot.x.toInt - contact.x.toInt) ^ 2 + (slot.y.toInt - contact.y.toInt) ^ 2 := by
  unfold Narrow at slotX slotY contactX contactY
  obtain ⟨lowX,highX⟩ := @squared_bounds (slot.x.toInt - contact.x.toInt) (by omega)
  obtain ⟨lowY,highY⟩ := @squared_bounds (slot.y.toInt - contact.y.toInt) (by omega)
  rw [← squared_eq,← squared_eq]
  unfold coordinateCost
  dsimp only [costMax]
  rw [if_neg (by omega)]

/-- The row and the column of a pair of contacts. -/
def cell (rowsAreOld : Bool) (pair : Nat × Nat) : Nat × Nat :=
  if rowsAreOld then (pair.1 + 1,pair.2 + 1) else (pair.2 + 1,pair.1 + 1)

variable (rowsAreOld : Bool)

theorem cell_injective : Function.Injective (cell rowsAreOld) := by
  intro pair other same
  cases rowsAreOld <;> simp only [cell,false_eq_true,if_true,if_false,Prod.mk.injEq] at same <;>
    exact Prod.ext (by omega) (by omega)

theorem cell_matching {rows columns : Nat} {pairs : Finset (Nat × Nat)}
    (matching : Matching (range (if rowsAreOld then rows else columns)) (range (if rowsAreOld then columns else rows)) pairs) :
    Matching (Icc 1 rows) (Icc 1 columns) (pairs.image (cell rowsAreOld)) := by
  have members (pair : Nat × Nat) (mem : pair ∈ pairs.image (cell rowsAreOld)) : ∃ other ∈ pairs, cell rowsAreOld other = pair :=
    Finset.mem_image.mp mem
  have inside (pair : Nat × Nat) (mem : pair ∈ pairs.image (cell rowsAreOld)) : pair.1 ∈ Icc 1 rows ∧ pair.2 ∈ Icc 1 columns := by
    obtain ⟨other,held,rfl⟩ := members pair mem
    have row := Finset.mem_range.mp (matching.row other held)
    have column := Finset.mem_range.mp (matching.column other held)
    cases rowsAreOld <;> simp only [cell,false_eq_true,if_true,if_false,Finset.mem_Icc] at row column ⊢ <;> omega
  refine ⟨fun pair mem => (inside pair mem).1,fun pair mem => (inside pair mem).2,fun pair mem pair' mem' same => ?_,
    fun pair mem pair' mem' same => ?_⟩
  · obtain ⟨other,held,rfl⟩ := members pair mem
    obtain ⟨other',held',rfl⟩ := members pair' mem'
    cases rowsAreOld with
    | true => rw [matching.rowOnce held held' (Nat.succ.inj same)]
    | false => rw [matching.columnOnce held held' (Nat.succ.inj same)]
  obtain ⟨other,held,rfl⟩ := members pair mem
  obtain ⟨other',held',rfl⟩ := members pair' mem'
  cases rowsAreOld with
  | true => rw [matching.columnOnce held held' (Nat.succ.inj same)]
  | false => rw [matching.rowOnce held held' (Nat.succ.inj same)]

theorem paired_cell {columns : Nat} {p : Nat → Nat} (old new : Nat) :
    Paired rowsAreOld p (1 + columns) old new ↔ cell rowsAreOld (old,new) ∈ placedPairs columns p := by
  unfold Paired columnOld columnNew
  cases rowsAreOld <;> simp only [cell,false_eq_true,if_true,if_false,mem_placedPairs]
  · constructor
    · rintro ⟨j,first,last,some,rfl,rfl⟩
      rw [Nat.sub_add_cancel first]
      exact ⟨first,by omega,some,by omega⟩
    rintro ⟨first,last,some,row⟩
    exact ⟨old + 1,first,by omega,some,by omega,by omega⟩
  constructor
  · rintro ⟨j,first,last,some,rfl,rfl⟩
    rw [Nat.sub_add_cancel first]
    exact ⟨first,by omega,some,by omega⟩
  rintro ⟨first,last,some,row⟩
  exact ⟨new + 1,first,by omega,some,by omega,by omega⟩

private theorem cell_surjective {row column : Nat} (some : 1 ≤ row) (first : 1 ≤ column) :
    ∃ old new, cell rowsAreOld (old,new) = (row,column) := by
  cases rowsAreOld with
  | true => exact ⟨row - 1,column - 1,Prod.ext (Nat.sub_add_cancel some) (Nat.sub_add_cancel first)⟩
  | false => exact ⟨column - 1,row - 1,Prod.ext (Nat.sub_add_cancel some) (Nat.sub_add_cancel first)⟩

section
variable {oldCount newCount : Nat} {links : Links}

theorem Linked.mem_pairs (linked : Linked oldCount newCount links) (old new : Nat) :
    (old,new) ∈ links.pairs oldCount newCount ↔ links.oldToNew old = some new := by
  rw [Links.pairs,Finset.mem_filter,Finset.mem_product,Finset.mem_range,Finset.mem_range]
  exact ⟨fun both => both.2,fun link => ⟨linked.within old new link,link⟩⟩

theorem Linked.matching (linked : Linked oldCount newCount links) :
    Matching (range oldCount) (range newCount) (links.pairs oldCount newCount) where
  row := fun pair mem =>
    Finset.mem_range.mpr (linked.within pair.1 pair.2 ((linked.mem_pairs pair.1 pair.2).mp mem)).1
  column := fun pair mem =>
    Finset.mem_range.mpr (linked.within pair.1 pair.2 ((linked.mem_pairs pair.1 pair.2).mp mem)).2
  rowOnce := fun pair mem other otherMember same => by
    have link := (linked.mem_pairs pair.1 pair.2).mp mem
    rw [show pair.1 = other.1 from same,(linked.mem_pairs other.1 other.2).mp otherMember] at link
    exact Prod.ext same (Option.some.inj link).symm
  columnOnce := fun pair mem other otherMember same => by
    have link := (linked.both _ _).mp ((linked.mem_pairs pair.1 pair.2).mp mem)
    have otherLink := (linked.both _ _).mp ((linked.mem_pairs other.1 other.2).mp otherMember)
    rw [show pair.2 = other.2 from same,otherLink] at link
    exact Prod.ext (Option.some.inj link).symm same

/-- Linked pairs, as many as fit, with no larger sum of squares than any others that are as many. -/
structure LeastLinks (square : Nat × Nat → Int) (oldCount newCount : Nat) (links : Links) : Prop where
  linked : Linked oldCount newCount links
  matching : Matching (range oldCount) (range newCount) (links.pairs oldCount newCount)
  count : (links.pairs oldCount newCount).card = min oldCount newCount
  least : ∀ pairs, Matching (range oldCount) (range newCount) pairs → pairs.card = min oldCount newCount →
    ∑ pair ∈ links.pairs oldCount newCount, square pair ≤ ∑ pair ∈ pairs, square pair

end

/-- An assignment of the smaller side ends with the links of least cost. -/
theorem assign_least (rowsAreOld : Bool) {rows columns : Nat} {cost : Nat → Nat → Int} (priced : Priced cost rows columns costTop)
    (wide : rows ≤ columns) (few : rows ≤ appleTrackpadMaxContacts) {square : Nat × Nat → Int}
    (squares : ∀ pair, 1 ≤ (cell rowsAreOld pair).1 ∧ (cell rowsAreOld pair).1 ≤ rows →
      1 ≤ (cell rowsAreOld pair).2 ∧ (cell rowsAreOld pair).2 ≤ columns →
        cost (cell rowsAreOld pair).1 (cell rowsAreOld pair).2 = square pair) :
    ∃ links, (assign cost costMax columns rows).map (fun held =>
        forRange (linkColumn rowsAreOld held.p) 1 columns ⟨fun _ => none,fun _ => none⟩) = some links ∧
      LeastLinks square (if rowsAreOld then rows else columns) (if rowsAreOld then columns else rows) links := by
  obtain ⟨links,found,linked⟩ := assign_links rowsAreOld priced wide few
  refine ⟨links,found,?_⟩
  obtain ⟨held,placing,assigned,tight⟩ := assign_places priced (by decide) wide (costTop_room few)
  rw [placing,Option.map_some] at found
  have spec := links_spec assigned.placed rowsAreOld
  rw [Option.some.inj found] at spec
  generalize oldSide : (if rowsAreOld then rows else columns) = oldCount at linked ⊢
  generalize newSide : (if rowsAreOld then columns else rows) = newCount at linked ⊢
  have smaller : min oldCount newCount = rows := by
    rw [← oldSide,← newSide]
    cases rowsAreOld
    · exact min_eq_right wide
    exact min_eq_left wide
  have cells : (links.pairs oldCount newCount).image (cell rowsAreOld) = placedPairs columns held.p := by
    ext ⟨row,column⟩
    rw [Finset.mem_image]
    constructor
    · rintro ⟨⟨old,new⟩,mem,same⟩
      rw [← same,← paired_cell]
      exact (spec old new).1.mp ((linked.mem_pairs old new).mp mem)
    intro mem
    obtain ⟨first,-,some,held_row⟩ := (mem_placedPairs row column).mp mem
    obtain ⟨old,new,same⟩ := cell_surjective rowsAreOld (show 1 ≤ row by omega) first
    refine ⟨(old,new),(linked.mem_pairs old new).mpr ((spec old new).1.mpr ?_),same⟩
    rwa [paired_cell,same]
  -- What a matching of contacts costs is what its cells cost.
  have costs (pairs : Finset (Nat × Nat)) (matching : Matching (range oldCount) (range newCount) pairs) :
      ∑ place ∈ pairs.image (cell rowsAreOld), cost place.1 place.2 = ∑ pair ∈ pairs, square pair := by
    subst oldSide newSide
    rw [Finset.sum_image (cell_injective rowsAreOld).injOn]
    refine Finset.sum_congr rfl (fun pair mem => squares pair ?_ ?_)
    · exact Finset.mem_Icc.mp ((cell_matching rowsAreOld matching).row _ (Finset.mem_image_of_mem _ mem))
    exact Finset.mem_Icc.mp ((cell_matching rowsAreOld matching).column _ (Finset.mem_image_of_mem _ mem))
  refine ⟨linked,linked.matching,?_,fun pairs matching full => ?_⟩
  · rw [smaller,← assigned.placed.card_pairs,← cells,Finset.card_image_of_injective _ (cell_injective rowsAreOld)]
  rw [← costs _ linked.matching,← costs _ matching,cells]
  subst oldSide newSide
  refine assigned.least tight (cell_matching rowsAreOld matching) ?_
  rw [Finset.card_image_of_injective _ (cell_injective rowsAreOld),full,smaller]

private theorem card_activePlaces (tracker : Tracker) : (activePlaces tracker).card = (oldSlots tracker).length := by
  rw [← List.toFinset_card_of_nodup (@oldSlots_nodup tracker)]
  refine congrArg Finset.card (Finset.ext (fun place => ?_))
  rw [mem_activePlaces,List.mem_toFinset,mem_oldSlots]

/-- For every tracker and every frame of at most eleven contacts, with coordinates of 16 bits, the matching ends; it links
as many contacts as the smaller side has, one for one, and no other matching of as many contacts has a smaller sum of
squared distances. -/
theorem minimumAssignment_least {tracker : Tracker} {frame : Frame} (few : frame.count ≤ appleTrackpadMaxContacts)
    (slots : ∀ place < appleTrackpadMaxContacts, (tracker.slots place).active = true →
      Narrow (tracker.slots place).x ∧ Narrow (tracker.slots place).y) (contacts : NarrowFrame frame) :
    ∃ links, minimumAssignment tracker frame (oldSlots tracker) = some links ∧
      LeastLinks (squaredDistance tracker frame (oldSlots tracker)) (activePlaces tracker).card frame.count links := by
  have bounds (i j : Nat) (inside : i < (oldSlots tracker).length) (insideNew : j < frame.count) :
      (0 ≤ coordinateCost (tracker.slots ((oldSlots tracker).getD i 0)) (frame.contacts j) ∧
        coordinateCost (tracker.slots ((oldSlots tracker).getD i 0)) (frame.contacts j) ≤ costTop) ∧
      coordinateCost (tracker.slots ((oldSlots tracker).getD i 0)) (frame.contacts j) =
        squaredDistance tracker frame (oldSlots tracker) (i,j) := by
    obtain ⟨place,active⟩ := oldPlace_mem inside
    obtain ⟨slotX,slotY⟩ := slots _ place active
    obtain ⟨contactX,contactY⟩ := contacts j insideNew
    exact ⟨coordinateCost_bounds slotX slotY contactX contactY,coordinateCost_eq slotX slotY contactX contactY⟩
  rw [card_activePlaces]
  unfold minimumAssignment
  by_cases order : (oldSlots tracker).length ≤ frame.count
  · simp only [decide_eq_true order,if_true]
    refine assign_least true ⟨fun i j iFirst iLast jFirst jLast => ?_,fun i j iFirst iLast jFirst jLast => ?_⟩ order
      oldSlots_length (fun pair row column => ?_)
    · exact (bounds (i - 1) (j - 1) (by omega) (by omega)).1.1
    · exact (bounds (i - 1) (j - 1) (by omega) (by omega)).1.2
    · exact (bounds pair.1 pair.2 row.2 column.2).2
  simp only [decide_eq_false order,false_eq_true,if_false]
  refine assign_least false ⟨fun i j iFirst iLast jFirst jLast => ?_,fun i j iFirst iLast jFirst jLast => ?_⟩ (by omega)
    few (fun pair row column => ?_)
  · exact (bounds (j - 1) (i - 1) (by omega) (by omega)).1.1
  · exact (bounds (j - 1) (i - 1) (by omega) (by omega)).1.2
  · exact (bounds pair.1 pair.2 column.2 row.2).2

/-- Two contacts, where one was before. -/
theorem minimumAssignment_least_two :
    ∃ links, minimumAssignment ⟨fun place => ⟨place == 3,false,0,10,20⟩⟩ ⟨false,2,fun i => if i = 0 then ⟨500,600⟩ else ⟨11,21⟩⟩
        (oldSlots ⟨fun place => ⟨place == 3,false,0,10,20⟩⟩) = some links ∧
      LeastLinks (squaredDistance ⟨fun place => ⟨place == 3,false,0,10,20⟩⟩ ⟨false,2,fun i => if i = 0 then ⟨500,600⟩ else ⟨11,21⟩⟩
        (oldSlots ⟨fun place => ⟨place == 3,false,0,10,20⟩⟩)) (activePlaces ⟨fun place => ⟨place == 3,false,0,10,20⟩⟩).card 2 links :=
  @minimumAssignment_least _ ⟨false,2,fun i => if i = 0 then ⟨500,600⟩ else ⟨11,21⟩⟩ (by decide)
    (fun _ _ _ => ⟨(⟨by decide,by decide⟩ : Narrow 10),(⟨by decide,by decide⟩ : Narrow 20)⟩)
    (fun i _ => by
      by_cases first : i = 0
      · subst first
        exact ⟨(⟨by decide,by decide⟩ : Narrow 500),(⟨by decide,by decide⟩ : Narrow 600)⟩
      dsimp only
      rw [if_neg first]
      exact ⟨(⟨by decide,by decide⟩ : Narrow 11),(⟨by decide,by decide⟩ : Narrow 21)⟩)

end WindowsOnM1.Trackpad
