import WindowsOnM1.TrackpadContacts

/-!
The lives of the reported contacts in every run of the tracker.
-/
namespace WindowsOnM1.Trackpad
open List Option
open Hid (Status)

private theorem insertById_eq (value : OutputContact) (sorted : List OutputContact) :
    insertById value sorted = sorted.orderedInsert (fun a b => b.id ≤ a.id) value := by
  induction sorted with
  | nil => rfl
  | cons last before ih =>
  rw [insertById,orderedInsert_cons,ih]
  split
  · rw [if_neg (by omega)]
  rw [if_pos (by omega)]

/-- A contact comes behind those with smaller identifiers, in the order last one first. -/
abbrev Behind (a b : OutputContact) : Prop := b.id ≤ a.id
instance : Std.Total Behind := ⟨fun a b => Nat.le_total b.id a.id⟩
instance : IsTrans OutputContact Behind := ⟨fun _ _ _ first second => Nat.le_trans second first⟩

private theorem insertAll_spec (values sorted : List OutputContact) (ordered : sorted.Pairwise Behind) :
    (values.foldl (fun sorted value => insertById value sorted) sorted).Perm (values ++ sorted) ∧
      (values.foldl (fun sorted value => insertById value sorted) sorted).Pairwise Behind := by
  induction values generalizing sorted with
  | nil => exact ⟨.refl _,ordered⟩
  | cons value rest ih =>
  have same := insertById_eq value sorted
  obtain ⟨perm,kept⟩ := ih (insertById value sorted) (same ▸ ordered.orderedInsert value)
  refine ⟨perm.trans ?_,kept⟩
  rw [same]
  exact ((perm_orderedInsert Behind value sorted).append_left rest).trans perm_middle

private theorem sortOutputById_spec {out : OutputFrame} (filled : Filled out) :
    (sortOutputById out).contacts.Perm out.contacts ∧ (sortOutputById out).contacts.Pairwise (fun a b => a.id < b.id) := by
  obtain ⟨perm,ordered⟩ := insertAll_spec out.contacts [] .nil
  rw [append_nil] at perm
  have whole : (sortOutputById out).contacts.Perm out.contacts := (reverse_perm _).trans perm
  have nodup := (whole.map OutputContact.id).nodup_iff.mpr filled.nodup
  refine ⟨whole,((pairwise_reverse.mpr ordered).and (pairwise_map.mp nodup)).imp (fun both => ?_)⟩
  exact Nat.lt_of_le_of_ne both.1 both.2

/-- A contact that an output frame reports with tip, and one that it reports without. -/
def Tipped (out : OutputFrame) (id : Nat) : Prop := ∃ contact ∈ out.contacts, contact.tip = true ∧ contact.id = id
def Lifts (out : OutputFrame) (id : Nat) : Prop := ∃ contact ∈ out.contacts, contact.tip = false ∧ contact.id = id

structure Updated (tracker : Tracker) (frame : Frame) (next : Tracker) (out : OutputFrame) : Prop where
  sound : Sound next
  few : out.contacts.length ≤ ptpMaxContacts
  sorted : out.contacts.Pairwise (fun a b => a.id < b.id)
  ids : ∀ contact ∈ out.contacts, contact.id < ptpMaxContacts
  counted : out.activeCount + out.suppressedCount = frame.count
  active : out.activeCount = out.contacts.countP OutputContact.tip
  tips : ∀ id, Tipped out id ↔ Carried next id
  lifted : ∀ id, Lifts out id → Carried tracker id
  kept : ∀ id, Carried tracker id → Tipped out id ∨ Lifts out id

theorem trackerUpdate_updates {tracker : Tracker} {frame : Frame} (sound : Sound tracker) (narrow : NarrowFrame frame)
    (few : frame.count ≤ appleTrackpadMaxContacts) :
    ∃ next out, trackerUpdate tracker frame = some (.ok,next,out) ∧ Updated tracker frame next out := by
  obtain ⟨links,matched,linked⟩ := minimumAssignment_links oldSlots_length few
    (fun place mem => sound.narrow place ((mem_oldSlots place).mp mem).1 ((mem_oldSlots place).mp mem).2) narrow
  obtain ⟨⟨moved,out⟩,ran,moves⟩ := old_moved sound frame links.oldToNew
  have placing := moves.placing sound narrow linked
  have total : (activePlaces moved).card + (range frame.count).countP (fun index => (links.newToOld index).isNone) =
      frame.count := by
    rw [moves.card_active,linked.card_linked,← countP_range]
    have parts := length_eq_countP_add_countP (fun index => (links.newToOld index).isSome) (l := range frame.count)
    simp only [length_range,Bool.not_eq_true,isSome_eq_false_iff,Bool.decide_eq_true] at parts
    omega
  obtain ⟨last,placed,done,counted⟩ := placeNew_places narrow placing (fun index mem => mem_range.mp mem)
    (by rw [total]; exact few)
  obtain ⟨perm,sorted⟩ := sortOutputById_spec done.filled
  refine ⟨last.tracker,sortOutputById { last.out with suppressedCount := suppressed last.tracker },?_,?_⟩
  · simp only [trackerUpdate,if_neg (Nat.not_lt.mpr few),matched,ran,placed,bind_eq_bind,bind_some]
    rfl
  have members (contact : OutputContact) : contact ∈ (sortOutputById { last.out with
      suppressedCount := suppressed last.tracker }).contacts ↔ contact ∈ last.out.contacts := perm.mem_iff
  refine ⟨done.sound,?_,sorted,fun contact mem => done.filled.ids contact ((members contact).mp mem),?_,?_,
    fun id => ?_,fun id lifts => ?_,fun id carried => ?_⟩
  · have room := @Hungarian.nodup_length 4 _ done.filled.nodup (fun id mem => by
      obtain ⟨contact,held,rfl⟩ := mem_map.mp mem
      exact Nat.le_of_lt_succ (done.filled.ids contact held))
    rw [length_map] at room
    exact perm.length_eq ▸ room
  · change last.out.activeCount + suppressed last.tracker = frame.count
    rw [done.card_tips,card_admitted done.sound,counted,total]
  · exact done.filled.counted.trans (perm.countP_eq _).symm
  · rw [← done.tips id]
    exact exists_congr (fun contact => and_congr_left' (members contact))
  · obtain ⟨contact,mem,lifted,rfl⟩ := lifts
    exact done.lifted contact ((members contact).mp mem) lifted
  obtain ⟨contact,mem,rfl⟩ := done.kept id carried
  have held := (members contact).mpr mem
  cases tip : contact.tip with
  | true => exact .inl ⟨contact,held,tip,rfl⟩
  | false => exact .inr ⟨contact,held,tip,rfl⟩

section
variable {tracker next : Tracker} {frame : Frame} {out : OutputFrame}

theorem Updated.once (updated : Updated tracker frame next out) (id : Nat) : ¬ (Tipped out id ∧ Lifts out id) := by
  rintro ⟨⟨first,firstMember,tip,firstId⟩,⟨second,secondMember,lifted,secondId⟩⟩
  have nodup : (out.contacts.map OutputContact.id).Nodup :=
    pairwise_map.mpr (updated.sorted.imp (fun less => Nat.ne_of_lt less))
  have same := inj_on_of_nodup_map nodup firstMember secondMember (firstId.trans secondId.symm)
  rw [same,lifted] at tip
  cases tip

theorem putContacts_some {contacts : List OutputContact} (ids : ∀ contact ∈ contacts, contact.id < ptpMaxContacts)
    (axes : AxisContract) (emitted : Nat) (report : ByteMemory.Memory) :
    ∃ written, putContacts axes contacts emitted report = some written := by
  induction contacts generalizing emitted report with
  | nil => exact ⟨_,rfl⟩
  | cons contact rest ih =>
  rw [putContacts,if_neg (Nat.not_le.mpr (ids contact mem_cons_self))]
  exact ih (fun other mem => ids other (mem_cons_of_mem _ mem)) _ _

theorem Updated.encodes (updated : Updated tracker frame next out) {axes : AxisContract} (valid : axisContractValid axes = true)
    (scanTime : BitVec 16) (features : FeatureState) {capacity : Nat} (room : ptpInputReportSize ≤ capacity) :
    (encodeInput axes out scanTime features capacity).1 = .ok := by
  unfold encodeInput
  rw [if_neg (Nat.not_lt.mpr updated.few),if_neg (by rw [valid]; decide)]
  split
  · rfl
  rw [if_neg (Nat.not_lt.mpr room)]
  obtain ⟨written,puts⟩ := putContacts_some updated.ids axes 0 blankReport
  cases features.surfaceEnabled with
  | true => simp only [if_true,puts]
  | false => simp

end

/-- A contact in the frames behind one that reports it with tip: each reports it with tip, and with tip only, until one
reports it without tip, and without tip only; the frame behind that one does not. -/
inductive Lives (id : Nat) : List OutputFrame → Prop
  | touches : Lives id []
  | moves {out : OutputFrame} {rest : List OutputFrame} (tip : Tipped out id) (held : ¬ Lifts out id) (lives : Lives id rest) :
    Lives id (out :: rest)
  | lifts {out : OutputFrame} {rest : List OutputFrame} (lifted : Lifts out id) (released : ¬ Tipped out id)
    (once : ∀ next ∈ rest.head?, ¬ Lifts next id) : Lives id (out :: rest)

/-- What the output frames of a run satisfy from some tracker on. -/
structure Tracked (tracker : Tracker) (outs : List OutputFrame) : Prop where
  carried : ∀ id, Carried tracker id → Lives id outs
  lifted : ∀ out ∈ outs.head?, ∀ id, Lifts out id → Carried tracker id
  lives : ∀ before out after, outs = before ++ out :: after → ∀ id, Tipped out id → Lives id after
  behind : ∀ before last out after, outs = before ++ last :: out :: after → ∀ id, Lifts out id → Tipped last id

theorem Tracked.step {tracker next : Tracker} {frame : Frame} {out : OutputFrame} {outs : List OutputFrame}
    (updated : Updated tracker frame next out) (tracked : Tracked next outs) : Tracked tracker (out :: outs) where
  carried := fun id carried => by
    rcases updated.kept id carried with tip | lifted
    · exact .moves tip (fun lifted => updated.once id ⟨tip,lifted⟩) (tracked.carried id ((updated.tips id).mp tip))
    refine .lifts lifted (fun tip => updated.once id ⟨tip,lifted⟩) (fun later mem lifts => ?_)
    exact updated.once id ⟨(updated.tips id).mpr (tracked.lifted later mem id lifts),lifted⟩
  lifted := fun later mem id lifts => by
    cases mem
    exact updated.lifted id lifts
  lives := fun before later after split id tip => by
    cases before with
    | nil =>
      obtain ⟨rfl,rfl⟩ := List.cons.inj split
      exact tracked.carried id ((updated.tips id).mp tip)
    | cons first others => exact tracked.lives others later after (List.cons.inj split).2 id tip
  behind := fun before last later after split id lifts => by
    cases before with
    | nil =>
      obtain ⟨rfl,rfl⟩ := List.cons.inj split
      exact (updated.tips id).mpr (tracked.lifted later rfl id lifts)
    | cons first others => exact tracked.behind others last later after (List.cons.inj split).2 id lifts

/-- A frame of a run that has at most the contacts of the trackpad, with coordinates of 16 bits. -/
def Proper (frame : Frame) : Prop := frame.count ≤ appleTrackpadMaxContacts ∧ NarrowFrame frame

/-- An output frame is a proper one for the reports and for its frame. -/
structure Reportable (frame : Frame) (answer : Status × OutputFrame) : Prop where
  status : answer.1 = .ok
  few : answer.2.contacts.length ≤ ptpMaxContacts
  sorted : answer.2.contacts.Pairwise (fun a b => a.id < b.id)
  ids : ∀ contact ∈ answer.2.contacts, contact.id < ptpMaxContacts
  counted : answer.2.activeCount + answer.2.suppressedCount = frame.count
  encodes : ∀ axes scanTime features capacity, axisContractValid axes = true → ptpInputReportSize ≤ capacity →
    (encodeInput axes answer.2 scanTime features capacity).1 = .ok

private theorem trackAll_tracks {frames : List Frame} (proper : ∀ frame ∈ frames, Proper frame) {tracker : Tracker}
    (sound : Sound tracker) :
    ∃ answers last, trackAll frames tracker = some (answers,last) ∧ Sound last ∧ List.Forall₂ Reportable frames answers ∧
      Tracked tracker (answers.map (·.2)) := by
  induction frames generalizing tracker with
  | nil =>
    refine ⟨[],tracker,rfl,sound,.nil,⟨fun _ _ => .touches,nofun,fun before out after split => ?_,fun before last out after split => ?_⟩⟩
    all_goals exact absurd split.symm (by simp)
  | cons frame rest ih =>
  obtain ⟨few,narrow⟩ := proper frame mem_cons_self
  obtain ⟨next,out,ran,updated⟩ := trackerUpdate_updates sound narrow few
  obtain ⟨answers,last,later,lastSound,reportable,tracked⟩ :=
    ih (fun other mem => proper other (mem_cons_of_mem _ mem)) updated.sound
  refine ⟨(.ok,out) :: answers,last,?_,lastSound,.cons { updated with status := rfl, encodes := fun _ scanTime features _ valid room => updated.encodes valid scanTime features room } reportable,tracked.step updated⟩
  simp only [trackAll,ran,later,bind_eq_bind,bind_some]

theorem sound_zero : Sound Tracker.zero :=
  ⟨nofun,nofun,nofun,nofun⟩
private theorem carried_zero (id : Nat) : ¬ Carried Tracker.zero id := by
  rintro ⟨_,_,admitted,_⟩
  cases admitted

/-- In every run of the tracker from the zeroed one, no update fails; every output frame has at most five contacts with
increasing identifiers below five, which no report refuses, and accounts for every contact of its frame; the admitted
contacts carry distinct identifiers; a contact once reported with tip is reported with tip in every frame until
exactly one reports it without, in which no other contact has its identifier; and what a frame reports without tip the
frame before it reported with tip. -/
theorem contact_lifecycle (frames : List Frame) (proper : ∀ frame ∈ frames, Proper frame) :
    ∃ answers last, trackAll frames Tracker.zero = some (answers,last) ∧ List.Forall₂ Reportable frames answers ∧
      (∀ place < appleTrackpadMaxContacts, ∀ other < appleTrackpadMaxContacts, (last.slots place).admitted = true →
        (last.slots other).admitted = true → (last.slots place).windowsId = (last.slots other).windowsId → place = other) ∧
      (∀ before out after, answers.map (·.2) = before ++ out :: after → ∀ id, Tipped out id → Lives id after) ∧
      (∀ out ∈ (answers.map (·.2)).head?, ∀ id, ¬ Lifts out id) ∧
      ∀ before last out after, answers.map (·.2) = before ++ last :: out :: after → ∀ id, Lifts out id → Tipped last id := by
  obtain ⟨answers,last,ran,sound,reportable,tracked⟩ := trackAll_tracks proper sound_zero
  refine ⟨answers,last,ran,reportable,sound.distinct,tracked.lives,fun out first id lifts => ?_,tracked.behind⟩
  exact carried_zero id (tracked.lifted out first id lifts)

/-- A finger comes down, moves and is lifted. -/
theorem contact_lifecycle_one_finger :
    ∃ answers last, trackAll [⟨false,1,fun _ => ⟨10,20⟩⟩,⟨false,1,fun _ => ⟨11,21⟩⟩,⟨false,0,fun _ => ⟨0,0⟩⟩] Tracker.zero =
      some (answers,last) ∧ List.Forall₂ Reportable [⟨false,1,fun _ => ⟨10,20⟩⟩,⟨false,1,fun _ => ⟨11,21⟩⟩,
        ⟨false,0,fun _ => ⟨0,0⟩⟩] answers := by
  obtain ⟨answers,last,ran,reportable,-⟩ := contact_lifecycle
    [⟨false,1,fun _ => ⟨10,20⟩⟩,⟨false,1,fun _ => ⟨11,21⟩⟩,⟨false,0,fun _ => ⟨0,0⟩⟩] (fun frame mem => by
      simp only [mem_cons,not_mem_nil,or_false] at mem
      rcases mem with rfl | rfl | rfl
      · exact ⟨by decide,fun _ _ => ⟨(⟨by decide,by decide⟩ : Narrow 10),(⟨by decide,by decide⟩ : Narrow 20)⟩⟩
      · exact ⟨by decide,fun _ _ => ⟨(⟨by decide,by decide⟩ : Narrow 11),(⟨by decide,by decide⟩ : Narrow 21)⟩⟩
      · exact ⟨by decide,fun _ below => absurd below (Nat.not_lt_zero _)⟩)
  exact ⟨answers,last,ran,reportable⟩

end WindowsOnM1.Trackpad
