import WindowsOnM1.TrackpadMatching
import WindowsOnM1.TouchpadReports

/-!
The contacts that the tracker reports: their identifiers and their lives.
-/
namespace WindowsOnM1.Trackpad
open CountedLoop List Function
open Hid (Status)
open Option (getD_some isSome_iff_exists)

/-- What the slots of a tracker satisfy in every run. -/
structure Sound (tracker : Tracker) : Prop where
  active : ∀ place < appleTrackpadMaxContacts, (tracker.slots place).admitted = true → (tracker.slots place).active = true
  ids : ∀ place < appleTrackpadMaxContacts, (tracker.slots place).admitted = true →
    (tracker.slots place).windowsId < ptpMaxContacts
  distinct : ∀ place < appleTrackpadMaxContacts, ∀ other < appleTrackpadMaxContacts, (tracker.slots place).admitted = true →
    (tracker.slots other).admitted = true → (tracker.slots place).windowsId = (tracker.slots other).windowsId → place = other
  narrow : ∀ place < appleTrackpadMaxContacts, (tracker.slots place).active = true →
    Narrow (tracker.slots place).x ∧ Narrow (tracker.slots place).y

/-- An identifier that an admitted contact carries. -/
def Carried (tracker : Tracker) (id : Nat) : Prop :=
  ∃ place < appleTrackpadMaxContacts, (tracker.slots place).admitted = true ∧ (tracker.slots place).windowsId = id

/-- What the contacts of an output frame satisfy while it is filled. -/
structure Filled (out : OutputFrame) : Prop where
  nodup : (out.contacts.map OutputContact.id).Nodup
  ids : ∀ contact ∈ out.contacts, contact.id < ptpMaxContacts
  counted : out.activeCount = out.contacts.countP OutputContact.tip

theorem appendOutput_fills {out : OutputFrame} (filled : Filled out) (tip : Bool) {id : Nat} (below : id < ptpMaxContacts)
    (fresh : ∀ contact ∈ out.contacts, contact.id ≠ id) (x y : BitVec 32) :
    ∃ next, appendOutput out tip id x y = some next ∧ Filled next ∧ next.contacts = out.contacts ++ [⟨tip,id,x,y⟩] := by
  have nodup : ((out.contacts ++ [(⟨tip,id,x,y⟩ : OutputContact)]).map OutputContact.id).Nodup := by
    rw [map_append]
    refine nodup_append.mpr ⟨filled.nodup,nodup_singleton id,fun a aMember b bMember => ?_⟩
    obtain ⟨contact,mem,rfl⟩ := mem_map.mp aMember
    rw [mem_singleton.mp bMember]
    exact fresh contact mem
  have ids : ∀ contact ∈ out.contacts ++ [(⟨tip,id,x,y⟩ : OutputContact)], contact.id < ptpMaxContacts := by
    intro contact mem
    rcases mem_append.mp mem with mem | mem
    · exact filled.ids contact mem
    rw [mem_singleton.mp mem]
    exact below
  have room := @Hungarian.nodup_length 4 _ nodup (fun a mem => by
    obtain ⟨contact,held,rfl⟩ := mem_map.mp mem
    exact Nat.le_of_lt_succ (ids contact held))
  rw [length_map,length_append,length_singleton] at room
  refine ⟨_,if_pos (show out.contacts.length < 5 by omega),⟨nodup,ids,?_⟩,rfl⟩
  rw [countP_append,← filled.counted]
  cases tip <;> rfl

section
variable {tracker : Tracker} {frame : Frame}

theorem mem_oldSlots (place : Nat) :
    place ∈ oldSlots tracker ↔ place < appleTrackpadMaxContacts ∧ (tracker.slots place).active = true := by
  rw [oldSlots,mem_filter,mem_range]
theorem oldSlots_nodup : (oldSlots tracker).Nodup := nodup_range.filter _
theorem oldSlots_length : (oldSlots tracker).length ≤ appleTrackpadMaxContacts :=
  (length_filter_le _ _).trans (by rw [length_range])
abbrev oldPlace (tracker : Tracker) (index : Nat) : Nat := (oldSlots tracker).getD index 0

variable {index : Nat}

theorem oldPlace_mem (inside : index < (oldSlots tracker).length) :
    oldPlace tracker index < appleTrackpadMaxContacts ∧ (tracker.slots (oldPlace tracker index)).active = true := by
  rw [← mem_oldSlots,oldPlace,getD_eq_getElem?_getD,getElem?_eq_getElem inside,getD_some]
  exact getElem_mem inside

theorem oldPlace_inj {i j : Nat} (iInside : i < (oldSlots tracker).length) (jInside : j < (oldSlots tracker).length)
    (same : oldPlace tracker i = oldPlace tracker j) : i = j := by
  rw [oldPlace,oldPlace,getD_eq_getElem?_getD,getD_eq_getElem?_getD,getElem?_eq_getElem iInside,
    getElem?_eq_getElem jInside] at same
  exact (List.Nodup.getElem_inj_iff oldSlots_nodup).mp same

variable {place : Nat}

theorem exists_oldPlace (inside : place < appleTrackpadMaxContacts) (active : (tracker.slots place).active = true) :
    ∃ index < (oldSlots tracker).length, oldPlace tracker index = place := by
  obtain ⟨index,below,same⟩ := getElem_of_mem ((mem_oldSlots place).mpr ⟨inside,active⟩)
  refine ⟨index,below,?_⟩
  rw [oldPlace,getD_eq_getElem?_getD,getElem?_eq_getElem below,getD_some,same]

/-- An old contact behind the frame. -/
def movedSlot (tracker : Tracker) (frame : Frame) (oldToNew : Nat → Option Nat) (index : Nat) : PhysicalSlot :=
  match oldToNew index with
  | some new => { tracker.slots (oldPlace tracker index) with x := (frame.contacts new).x, y := (frame.contacts new).y }
  | none => { tracker.slots (oldPlace tracker index) with active := false, admitted := false }

/-- What is reported of an old contact. -/
def report (tracker : Tracker) (frame : Frame) (oldToNew : Nat → Option Nat) (index : Nat) : OutputContact :=
  ⟨(oldToNew index).isSome,(tracker.slots (oldPlace tracker index)).windowsId,
    (movedSlot tracker frame oldToNew index).x,(movedSlot tracker frame oldToNew index).y⟩

/-- The tracker and the output frame when the first old contacts have been moved. -/
structure Moved (tracker : Tracker) (frame : Frame) (oldToNew : Nat → Option Nat) (stop : Nat)
    (state : Tracker × OutputFrame) : Prop where
  done : ∀ index < stop, state.1.slots (oldPlace tracker index) = movedSlot tracker frame oldToNew index
  left : ∀ place, (∀ index < stop, place ≠ oldPlace tracker index) → state.1.slots place = tracker.slots place
  filled : Filled state.2
  reported : ∀ contact, contact ∈ state.2.contacts ↔ ∃ index < stop,
    (tracker.slots (oldPlace tracker index)).admitted = true ∧ contact = report tracker frame oldToNew index

variable {state : Tracker × OutputFrame}

private theorem moveOld_keeps (sound : Sound tracker) (oldToNew : Nat → Option Nat)
    (inside : index < (oldSlots tracker).length) (moved : Moved tracker frame oldToNew index state) :
    ∃ next, moveOld frame (oldSlots tracker) oldToNew state index = some next ∧
      Moved tracker frame oldToNew (index + 1) next := by
  obtain ⟨place,active⟩ := oldPlace_mem inside
  have apart (earlier : Nat) (below : earlier < index) : oldPlace tracker index ≠ oldPlace tracker earlier :=
    fun same => absurd (oldPlace_inj inside (by omega) same) (by omega)
  have here : state.1.slots (oldPlace tracker index) = tracker.slots (oldPlace tracker index) := moved.left _ apart
  -- the contact is reported if it is admitted, and its slot is stored
  have reports : ∃ out, (if (tracker.slots (oldPlace tracker index)).admitted then
        appendOutput state.2 (report tracker frame oldToNew index).tip (report tracker frame oldToNew index).id
          (report tracker frame oldToNew index).x (report tracker frame oldToNew index).y
      else some state.2) = some out ∧ Filled out ∧ ∀ contact, contact ∈ out.contacts ↔ ∃ earlier < index + 1,
        (tracker.slots (oldPlace tracker earlier)).admitted = true ∧ contact = report tracker frame oldToNew earlier := by
    by_cases admitted : (tracker.slots (oldPlace tracker index)).admitted = true
    · have fresh : ∀ contact ∈ state.2.contacts, contact.id ≠ (report tracker frame oldToNew index).id := by
        intro contact mem same
        obtain ⟨earlier,below,admittedE,rfl⟩ := (moved.reported contact).mp mem
        obtain ⟨placeE,-⟩ := oldPlace_mem (show earlier < (oldSlots tracker).length by omega)
        exact apart earlier below (sound.distinct _ placeE _ place admittedE admitted same).symm
      obtain ⟨out,appended,filled,contacts⟩ := appendOutput_fills moved.filled (report tracker frame oldToNew index).tip
        (sound.ids _ place admitted) fresh (report tracker frame oldToNew index).x (report tracker frame oldToNew index).y
      refine ⟨out,by rw [if_pos admitted]; exact appended,filled,fun contact => ?_⟩
      rw [contacts,mem_append,mem_singleton,moved.reported]
      constructor
      · rintro (⟨earlier,below,rest⟩ | rfl)
        · exact ⟨earlier,by omega,rest⟩
        exact ⟨index,by omega,admitted,rfl⟩
      rintro ⟨earlier,below,rest⟩
      by_cases same : earlier = index
      · exact .inr (same ▸ rest.2)
      exact .inl ⟨earlier,by omega,rest⟩
    refine ⟨state.2,if_neg admitted,moved.filled,fun contact => ?_⟩
    rw [moved.reported]
    constructor
    · rintro ⟨earlier,below,rest⟩
      exact ⟨earlier,by omega,rest⟩
    rintro ⟨earlier,below,rest⟩
    exact ⟨earlier,lt_of_le_of_ne (by omega) (fun same => admitted (same ▸ rest.1)),rest⟩
  obtain ⟨out,appended,filled,reported⟩ := reports
  refine ⟨(state.1.set (oldPlace tracker index) (movedSlot tracker frame oldToNew index),out),?_,
    fun earlier below => ?_,fun other outside => ?_,filled,reported⟩
  · unfold moveOld
    simp only [report,movedSlot] at appended
    simp only [here,movedSlot]
    cases link : oldToNew index with
    | none =>
      simp only [link,Option.isSome_none] at appended ⊢
      rw [appendAdmitted,appended]
      rfl
    | some new =>
    simp only [link,Option.isSome_some] at appended ⊢
    rw [show appendAdmitted state.2 true
      { tracker.slots (oldPlace tracker index) with x := (frame.contacts new).x, y := (frame.contacts new).y } = some out
      from appended]
    rfl
  · by_cases same : earlier = index
    · rw [same]
      exact update_self _ _ _
    rw [← moved.done earlier (by omega)]
    exact update_of_ne (apart earlier (by omega)).symm _ _
  rw [← moved.left other (fun earlier below => outside earlier (by omega))]
  exact update_of_ne (outside index (by omega)) _ _

theorem old_moved (sound : Sound tracker) (frame : Frame) (oldToNew : Nat → Option Nat) :
    ∃ state, (List.range (oldSlots tracker).length).foldlM (moveOld frame (oldSlots tracker) oldToNew)
        (tracker,⟨frame.button,0,0,[]⟩) = some state ∧ Moved tracker frame oldToNew (oldSlots tracker).length state :=
  foldlM_range_keeps (Moved tracker frame oldToNew)
    ⟨fun index below => absurd below (Nat.not_lt_zero index),fun _ _ => rfl,⟨nodup_nil,by simp,rfl⟩,by simp⟩
    (fun _ _ inside moved => moveOld_keeps sound oldToNew inside moved)

variable {oldToNew : Nat → Option Nat}

theorem Moved.slot (moved : Moved tracker frame oldToNew (oldSlots tracker).length state)
    (inside : place < appleTrackpadMaxContacts) : (∃ index < (oldSlots tracker).length, place = oldPlace tracker index ∧
      state.1.slots place = movedSlot tracker frame oldToNew index) ∨
    ((tracker.slots place).active = false ∧ state.1.slots place = tracker.slots place) := by
  cases active : (tracker.slots place).active with
  | true =>
    obtain ⟨index,below,same⟩ := exists_oldPlace inside active
    exact .inl ⟨index,below,same.symm,same ▸ moved.done index below⟩
  | false =>
  refine .inr ⟨rfl,moved.left place (fun index below same => ?_)⟩
  rw [same,(oldPlace_mem below).2] at active
  exact absurd active (by decide)

theorem movedSlot_admitted : (movedSlot tracker frame oldToNew index).admitted = true ↔
      (tracker.slots (oldPlace tracker index)).admitted = true ∧ (oldToNew index).isSome = true := by
  unfold movedSlot
  cases oldToNew index <;> simp

theorem movedSlot_active (inside : index < (oldSlots tracker).length) :
    (movedSlot tracker frame oldToNew index).active = (oldToNew index).isSome := by
  unfold movedSlot
  cases oldToNew index
  · rfl
  exact (oldPlace_mem inside).2

theorem movedSlot_id :
    (movedSlot tracker frame oldToNew index).windowsId = (tracker.slots (oldPlace tracker index)).windowsId := by
  unfold movedSlot
  cases oldToNew index <;> rfl

/-- The coordinates of a frame have 16 bits. -/
def NarrowFrame (frame : Frame) : Prop := ∀ i < frame.count, Narrow (frame.contacts i).x ∧ Narrow (frame.contacts i).y

variable {links : Links}

theorem Moved.sound (sound : Sound tracker) (narrow : NarrowFrame frame)
    (linked : Linked (oldSlots tracker).length frame.count links)
    (moved : Moved tracker frame links.oldToNew (oldSlots tracker).length state) : Sound state.1 := by
  have admitted {place : Nat} (inside : place < appleTrackpadMaxContacts) (admits : (state.1.slots place).admitted = true) :
      (tracker.slots place).admitted = true ∧ (state.1.slots place).windowsId = (tracker.slots place).windowsId ∧
        (state.1.slots place).active = true := by
    rcases moved.slot inside with ⟨index,below,rfl,same⟩ | ⟨inactive,same⟩
    · rw [same] at admits ⊢
      obtain ⟨old,link⟩ := movedSlot_admitted.mp admits
      exact ⟨old,movedSlot_id,(movedSlot_active below).trans link⟩
    rw [same] at admits
    exact absurd (inactive.symm.trans (sound.active place inside admits)) (by decide)
  refine ⟨fun place inside admits => (admitted inside admits).2.2,fun place inside admits => ?_,
    fun place inside other otherInside admits admitsOther same => ?_,fun place inside active => ?_⟩
  · rw [(admitted inside admits).2.1]
    exact sound.ids place inside (admitted inside admits).1
  · rw [(admitted inside admits).2.1,(admitted otherInside admitsOther).2.1] at same
    exact sound.distinct place inside other otherInside (admitted inside admits).1 (admitted otherInside admitsOther).1 same
  rcases moved.slot inside with ⟨index,below,rfl,same⟩ | ⟨inactive,same⟩
  · rw [same] at active ⊢
    rw [movedSlot_active below] at active
    obtain ⟨new,link⟩ := isSome_iff_exists.mp active
    simp only [movedSlot,link]
    exact narrow new (linked.within index new link).2
  rw [same] at active
  exact absurd (inactive.symm.trans active) (by decide)

/-- What holds while the new contacts of a frame are placed. -/
structure Placing (tracker : Tracker) (state : Update) : Prop where
  sound : Sound state.tracker
  filled : Filled state.out
  tips : ∀ id, (∃ contact ∈ state.out.contacts, contact.tip = true ∧ contact.id = id) ↔ Carried state.tracker id
  lifted : ∀ contact ∈ state.out.contacts, contact.tip = false → Carried tracker contact.id
  kept : ∀ id, Carried tracker id → ∃ contact ∈ state.out.contacts, contact.id = id
  free : ∀ id, state.available id = true → ∀ contact ∈ state.out.contacts, contact.id ≠ id

theorem Moved.placing (sound : Sound tracker) (narrow : NarrowFrame frame)
    (linked : Linked (oldSlots tracker).length frame.count links)
    (moved : Moved tracker frame links.oldToNew (oldSlots tracker).length state) :
    Placing tracker ⟨state.1,state.2,availableBefore tracker⟩ where
  sound := moved.sound sound narrow linked
  filled := moved.filled
  tips := fun id => by
    constructor
    · rintro ⟨contact,mem,tip,rfl⟩
      obtain ⟨index,below,admitted,rfl⟩ := (moved.reported contact).mp mem
      refine ⟨oldPlace tracker index,(oldPlace_mem below).1,?_,?_⟩
      · rw [moved.done index below]
        exact movedSlot_admitted.mpr ⟨admitted,tip⟩
      rw [moved.done index below]
      exact movedSlot_id
    rintro ⟨place,inside,admits,rfl⟩
    rcases moved.slot inside with ⟨index,below,rfl,same⟩ | ⟨inactive,same⟩
    · rw [same] at admits ⊢
      obtain ⟨old,link⟩ := movedSlot_admitted.mp admits
      exact ⟨_,(moved.reported _).mpr ⟨index,below,old,rfl⟩,link,movedSlot_id.symm⟩
    rw [same] at admits
    exact absurd (inactive.symm.trans (sound.active place inside admits)) (by decide)
  lifted := fun contact mem _ => by
    obtain ⟨index,below,admitted,rfl⟩ := (moved.reported contact).mp mem
    exact ⟨oldPlace tracker index,(oldPlace_mem below).1,admitted,rfl⟩
  kept := fun id carried => by
    obtain ⟨place,inside,admits,rfl⟩ := carried
    obtain ⟨index,below,rfl⟩ := exists_oldPlace inside (sound.active place inside admits)
    exact ⟨_,(moved.reported _).mpr ⟨index,below,admits,rfl⟩,rfl⟩
  free := fun id available contact mem same => by
    obtain ⟨index,below,admitted,rfl⟩ := (moved.reported contact).mp mem
    simp only [availableBefore,Bool.not_eq_true',any_eq_false] at available
    refine available (oldPlace tracker index) ((mem_oldSlots _).mpr (oldPlace_mem below)) ?_
    rw [admitted,Bool.true_and,beq_iff_eq]
    exact same

/-- The places of the active contacts. -/
def activePlaces (tracker : Tracker) : Finset Nat :=
  (Finset.range appleTrackpadMaxContacts).filter (fun place => (tracker.slots place).active = true)
theorem mem_activePlaces (place : Nat) :
    place ∈ activePlaces tracker ↔ place < appleTrackpadMaxContacts ∧ (tracker.slots place).active = true := by
  rw [activePlaces,Finset.mem_filter,Finset.mem_range]
theorem slots_set (place other : Nat) (slot : PhysicalSlot) :
    (tracker.set place slot).slots other = if other = place then slot else tracker.slots other := update_apply _ _ _ _

theorem Sound.set (sound : Sound tracker) {slot : PhysicalSlot} (active : slot.active = true)
    (narrow : Narrow slot.x ∧ Narrow slot.y)
    (fresh : slot.admitted = true → slot.windowsId < ptpMaxContacts ∧ ¬ Carried tracker slot.windowsId) :
    Sound (tracker.set place slot) where
  active := fun other inside admits => by
    rw [slots_set] at admits ⊢
    split
    · exact active
    rename_i apart
    rw [if_neg apart] at admits
    exact sound.active other inside admits
  ids := fun other inside admits => by
    rw [slots_set] at admits ⊢
    split
    · rename_i same
      rw [if_pos same] at admits
      exact (fresh admits).1
    rename_i apart
    rw [if_neg apart] at admits
    exact sound.ids other inside admits
  distinct := fun first firstInside second secondInside admits admitsSecond same => by
    rw [slots_set] at admits admitsSecond same
    rw [slots_set] at same
    by_cases firstHere : first = place <;> by_cases secondHere : second = place
    · rw [firstHere,secondHere]
    · rw [if_pos firstHere] at admits same
      rw [if_neg secondHere] at admitsSecond same
      exact absurd ⟨second,secondInside,admitsSecond,same.symm⟩ (fresh admits).2
    · rw [if_neg firstHere] at admits same
      rw [if_pos secondHere] at admitsSecond same
      exact absurd ⟨first,firstInside,admits,same⟩ (fresh admitsSecond).2
    rw [if_neg firstHere] at admits same
    rw [if_neg secondHere] at admitsSecond same
    exact sound.distinct first firstInside second secondInside admits admitsSecond same
  narrow := fun other inside activeOther => by
    rw [slots_set] at activeOther ⊢
    split
    · exact narrow
    rename_i apart
    rw [if_neg apart] at activeOther
    exact sound.narrow other inside activeOther

theorem carried_set {slot : PhysicalSlot} (inside : place < appleTrackpadMaxContacts)
    (before : (tracker.slots place).admitted = false) (id : Nat) :
    Carried (tracker.set place slot) id ↔ Carried tracker id ∨ (slot.admitted = true ∧ slot.windowsId = id) := by
  constructor
  · rintro ⟨other,otherInside,admits,same⟩
    rw [slots_set] at admits same
    by_cases here : other = place
    · rw [if_pos here] at admits same
      exact .inr ⟨admits,same⟩
    rw [if_neg here] at admits same
    exact .inl ⟨other,otherInside,admits,same⟩
  rintro (⟨other,otherInside,admits,same⟩ | ⟨admits,same⟩)
  · have apart : other ≠ place := by
      rintro rfl
      exact absurd (before.symm.trans admits) (by decide)
    refine ⟨other,otherInside,?_⟩
    rw [slots_set,if_neg apart]
    exact ⟨admits,same⟩
  refine ⟨place,inside,?_⟩
  rw [slots_set,if_pos rfl]
  exact ⟨admits,same⟩

theorem activePlaces_set {slot : PhysicalSlot} (inside : place < appleTrackpadMaxContacts)
    (active : slot.active = true) : activePlaces (tracker.set place slot) = insert place (activePlaces tracker) := by
  ext other
  rw [Finset.mem_insert,mem_activePlaces,mem_activePlaces,slots_set]
  split
  · rename_i here
    rw [here]
    exact ⟨fun _ => .inl rfl,fun _ => ⟨inside,active⟩⟩
  rename_i here
  exact ⟨.inr,fun either => either.resolve_left here⟩

private theorem takeSlot_keeps {state : Update} (placing : Placing tracker state) {contact : Contact}
    (narrow : Narrow contact.x ∧ Narrow contact.y) (inside : place < appleTrackpadMaxContacts)
    (inactive : (state.tracker.slots place).active = false) :
    ∃ next, takeSlot contact place state = some next ∧ Placing tracker next ∧
      activePlaces next.tracker = insert place (activePlaces state.tracker) := by
  have unadmitted : (state.tracker.slots place).admitted = false := by
    rw [← Bool.not_eq_true]
    exact fun admits => absurd (inactive.symm.trans (placing.sound.active place inside admits)) (by decide)
  unfold takeSlot
  cases found : (range ptpMaxContacts).find? state.available with
  | none =>
    refine ⟨_,rfl,{ placing with sound := placing.sound.set rfl narrow nofun, tips := fun id => ?_ },activePlaces_set inside rfl⟩
    rw [carried_set inside unadmitted,placing.tips id]
    exact ⟨.inl,fun either => either.resolve_right (fun both => by cases both.1)⟩
  | some id =>
  have available : state.available id = true := find?_some found
  have below : id < ptpMaxContacts := mem_range.mp (mem_of_find?_eq_some found)
  have fresh := placing.free id available
  have uncarried : ¬ Carried state.tracker id := by
    intro carried
    obtain ⟨held,mem,-,same⟩ := (placing.tips id).mpr carried
    exact fresh held mem same
  obtain ⟨out,appended,filled,contacts⟩ := appendOutput_fills placing.filled true below fresh contact.x contact.y
  refine ⟨⟨state.tracker.set place ⟨true,true,id,contact.x,contact.y⟩,out,update state.available id false⟩,?_,
    ⟨placing.sound.set rfl narrow (fun _ => ⟨below,uncarried⟩),filled,fun other => ?_,fun held mem lifts => ?_,
    fun other carried => ?_,fun other free held mem => ?_⟩,activePlaces_set inside rfl⟩
  · simp only [appended]
    rfl
  · rw [carried_set inside unadmitted,← placing.tips other]
    simp only [contacts,mem_append,mem_singleton]
    constructor
    · rintro ⟨held,mem | rfl,tip,same⟩
      · exact .inl ⟨held,mem,tip,same⟩
      exact .inr ⟨trivial,same⟩
    rintro (⟨held,mem,rest⟩ | ⟨-,same⟩)
    · exact ⟨held,.inl mem,rest⟩
    exact ⟨_,.inr rfl,rfl,same⟩
  · simp only [contacts,mem_append,mem_singleton] at mem
    rcases mem with mem | rfl
    · exact placing.lifted held mem lifts
    cases lifts
  · obtain ⟨held,mem,same⟩ := placing.kept other carried
    exact ⟨held,by simp only [contacts,mem_append]; exact .inl mem,same⟩
  simp only [contacts,mem_append,mem_singleton] at mem
  by_cases same : other = id
  · rw [same] at free
    change update state.available id false id = true at free
    rw [update_self] at free
    cases free
  change update state.available id false other = true at free
  rw [update_of_ne same] at free
  rcases mem with mem | rfl
  · exact placing.free other free held mem
  exact fun equal => same equal.symm

/-- Every new contact finds a slot, as long as there are no more contacts than slots. -/
theorem placeNew_places (narrow : NarrowFrame frame) {newToOld : Nat → Option Nat} {indexes : List Nat} {state : Update}
    (placing : Placing tracker state) (inside : ∀ index ∈ indexes, index < frame.count)
    (room : (activePlaces state.tracker).card + indexes.countP (fun index => (newToOld index).isNone) ≤
      appleTrackpadMaxContacts) :
    ∃ last, placeNew frame newToOld indexes state = some (.ok,last) ∧ Placing tracker last ∧
      (activePlaces last.tracker).card =
        (activePlaces state.tracker).card + indexes.countP (fun index => (newToOld index).isNone) := by
  induction indexes generalizing state with
  | nil => exact ⟨state,rfl,placing,rfl⟩
  | cons index rest ih =>
  have later := fun other mem => inside other (mem_cons_of_mem _ mem)
  unfold placeNew
  cases link : newToOld index with
  | some old =>
    rw [countP_cons_of_neg (by simp [link])] at room ⊢
    exact ih placing later room
  | none =>
  rw [countP_cons_of_pos (by simp [link])] at room ⊢
  have vacant : ∃ place < appleTrackpadMaxContacts, (state.tracker.slots place).active = false := by
    by_contra full
    push Not at full
    have all : Finset.range appleTrackpadMaxContacts ⊆ activePlaces state.tracker := fun place mem =>
      (mem_activePlaces place).mpr ⟨Finset.mem_range.mp mem,by simpa using full place (Finset.mem_range.mp mem)⟩
    have := Finset.card_le_card all
    rw [Finset.card_range] at this
    omega
  cases found : (range appleTrackpadMaxContacts).find? (fun place => !(state.tracker.slots place).active) with
  | none =>
    obtain ⟨place,placeInside,inactive⟩ := vacant
    have := find?_eq_none.mp found place (mem_range.mpr placeInside)
    rw [inactive] at this
    exact absurd rfl this
  | some place =>
  have placeInside := mem_range.mp (mem_of_find?_eq_some found)
  have inactive : (state.tracker.slots place).active = false := by simpa using find?_some found
  obtain ⟨next,taken,after,actives⟩ := takeSlot_keeps placing (narrow index (inside index mem_cons_self))
    placeInside inactive
  have counted : (activePlaces next.tracker).card = (activePlaces state.tracker).card + 1 := by
    rw [actives]
    refine Finset.card_insert_of_notMem (fun mem => ?_)
    exact absurd (inactive.symm.trans ((mem_activePlaces place).mp mem).2) (by decide)
  obtain ⟨last,ran,final,total⟩ := ih after later (by omega)
  simp only [taken]
  exact ⟨last,ran,final,by omega⟩

theorem countP_range (n : Nat) (holds : Nat → Bool) :
    (List.range n).countP holds = ((Finset.range n).filter (fun i => holds i = true)).card := by
  rw [countP_eq_length_filter,← toFinset_card_of_nodup (nodup_range.filter _),toFinset_filter,toFinset_range]

theorem Moved.card_active (moved : Moved tracker frame links.oldToNew (oldSlots tracker).length state) :
    (activePlaces state.1).card =
      ((Finset.range (oldSlots tracker).length).filter (fun index => (links.oldToNew index).isSome = true)).card := by
  have image : activePlaces state.1 =
      ((Finset.range (oldSlots tracker).length).filter (fun index => (links.oldToNew index).isSome = true)).image
        (oldPlace tracker) := by
    ext place
    rw [mem_activePlaces,Finset.mem_image]
    constructor
    · rintro ⟨inside,active⟩
      rcases moved.slot inside with ⟨index,below,rfl,same⟩ | ⟨inactive,same⟩
      · rw [same,movedSlot_active below] at active
        exact ⟨index,Finset.mem_filter.mpr ⟨Finset.mem_range.mpr below,active⟩,rfl⟩
      rw [same] at active
      exact absurd (inactive.symm.trans active) (by decide)
    rintro ⟨index,mem,rfl⟩
    obtain ⟨below,link⟩ := Finset.mem_filter.mp mem
    have below := Finset.mem_range.mp below
    refine ⟨(oldPlace_mem below).1,?_⟩
    rw [moved.done index below,movedSlot_active below]
    exact link
  rw [image]
  refine Finset.card_image_of_injOn (fun i iMember j jMember same => ?_)
  exact oldPlace_inj (Finset.mem_range.mp (Finset.mem_filter.mp iMember).1)
    (Finset.mem_range.mp (Finset.mem_filter.mp jMember).1) same

theorem Linked.card_linked {oldCount newCount : Nat} (linked : Linked oldCount newCount links) :
    ((Finset.range oldCount).filter (fun old => (links.oldToNew old).isSome = true)).card =
      ((Finset.range newCount).filter (fun new => (links.newToOld new).isSome = true)).card := by
  refine Finset.card_nbij' (fun old => (links.oldToNew old).getD 0) (fun new => (links.newToOld new).getD 0) ?_ ?_ ?_ ?_
  · intro old mem
    obtain ⟨new,link⟩ := isSome_iff_exists.mp (Finset.mem_filter.mp mem).2
    refine Finset.mem_filter.mpr ⟨Finset.mem_range.mpr ?_,?_⟩ <;> dsimp only
    · rw [link]
      exact (linked.within old new link).2
    rw [link,getD_some,(linked.both old new).mp link]
    rfl
  · intro new mem
    obtain ⟨old,link⟩ := isSome_iff_exists.mp (Finset.mem_filter.mp mem).2
    have back := (linked.both old new).mpr link
    refine Finset.mem_filter.mpr ⟨Finset.mem_range.mpr ?_,?_⟩ <;> dsimp only
    · rw [link]
      exact (linked.within old new back).1
    rw [link,getD_some,back]
    rfl
  · intro old mem
    obtain ⟨new,link⟩ := isSome_iff_exists.mp (Finset.mem_filter.mp mem).2
    simp only [link,getD_some,(linked.both old new).mp link]
  intro new mem
  obtain ⟨old,link⟩ := isSome_iff_exists.mp (Finset.mem_filter.mp mem).2
  simp only [link,getD_some,(linked.both old new).mpr link]

theorem Placing.card_tips {state : Update} (placing : Placing tracker state) :
    state.out.activeCount = ((Finset.range appleTrackpadMaxContacts).filter (fun place =>
      (state.tracker.slots place).admitted = true)).card := by
  have nodup : ((state.out.contacts.filter OutputContact.tip).map OutputContact.id).Nodup :=
    placing.filled.nodup.sublist (filter_sublist.map _)
  have image : ((state.out.contacts.filter OutputContact.tip).map OutputContact.id).toFinset =
      ((Finset.range appleTrackpadMaxContacts).filter (fun place => (state.tracker.slots place).admitted = true)).image
        (fun place => (state.tracker.slots place).windowsId) := by
    ext id
    rw [mem_toFinset,mem_map,Finset.mem_image]
    have carried := placing.tips id
    constructor
    · rintro ⟨contact,mem,same⟩
      obtain ⟨held,tip⟩ := mem_filter.mp mem
      obtain ⟨place,inside,admits,equal⟩ := carried.mp ⟨contact,held,tip,same⟩
      exact ⟨place,Finset.mem_filter.mpr ⟨Finset.mem_range.mpr inside,admits⟩,equal⟩
    rintro ⟨place,mem,same⟩
    obtain ⟨inside,admits⟩ := Finset.mem_filter.mp mem
    obtain ⟨contact,held,tip,equal⟩ := carried.mpr ⟨place,Finset.mem_range.mp inside,admits,same⟩
    exact ⟨contact,mem_filter.mpr ⟨held,tip⟩,equal⟩
  rw [placing.filled.counted,countP_eq_length_filter,← length_map OutputContact.id,← toFinset_card_of_nodup nodup,image]
  refine Finset.card_image_of_injOn (fun place mem other otherMember same => ?_)
  obtain ⟨inside,admits⟩ := Finset.mem_filter.mp mem
  obtain ⟨otherInside,admitsOther⟩ := Finset.mem_filter.mp otherMember
  exact placing.sound.distinct place (Finset.mem_range.mp inside) other (Finset.mem_range.mp otherInside) admits admitsOther same

theorem card_admitted (sound : Sound tracker) :
    ((Finset.range appleTrackpadMaxContacts).filter (fun place => (tracker.slots place).admitted = true)).card +
      suppressed tracker = (activePlaces tracker).card := by
  rw [suppressed,countP_range,activePlaces,← Finset.card_union_of_disjoint]
  · congr 1
    ext place
    simp only [Finset.mem_union,Finset.mem_filter,Finset.mem_range,Bool.and_eq_true,Bool.not_eq_true']
    constructor
    · rintro (⟨inside,admits⟩ | ⟨inside,active,-⟩)
      · exact ⟨inside,sound.active place inside admits⟩
      exact ⟨inside,active⟩
    rintro ⟨inside,active⟩
    cases admits : (tracker.slots place).admitted with
    | true => exact .inl ⟨inside,rfl⟩
    | false => exact .inr ⟨inside,active,rfl⟩
  refine Finset.disjoint_left.mpr (fun place mem other => ?_)
  have first := (Finset.mem_filter.mp mem).2
  have second := (Finset.mem_filter.mp other).2
  rw [first,Bool.not_true,Bool.and_false] at second
  cases second

end

end WindowsOnM1.Trackpad
