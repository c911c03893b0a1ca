import WindowsOnM1.TrackpadLives

/-!
The trackpad as the driver composes it: the frames of the device and the feature writes of
the host, and the reports that the host gets.
-/
namespace WindowsOnM1.Trackpad
open ByteMemory List Option
open Hid (Status)

structure Pipeline where
  tracker : Tracker
  features : FeatureState
  contactsActive : Bool
  neutralRequired : Bool

/-- The pipeline when the device is started. -/
def Pipeline.start : Pipeline := ⟨Tracker.zero,featureInit,false,false⟩
inductive Event
  | frame (native : Frame) (scanTime : BitVec 16)
  | write (reportId : Byte) (buffer : List Byte)

/-- A report that the host gets, with the features that it is made with. -/
structure Delivery where
  report : Memory
  neutral : Bool
  features : FeatureState

/-- `AiTransportProcessTrackpadReport` on a decoded frame; whatever is refused delivers nothing. -/
def processFrame (axes : AxisContract) (frame : Frame) (scanTime : BitVec 16) (state : Pipeline) :
    Option (Option Delivery × Pipeline) := do
  let (status,tracker,out) ← trackerUpdate state.tracker frame
  if status ≠ .ok then some (none,{ state with tracker := tracker })
  else
    let active := decide (out.activeCount ≠ 0)
    let features := (featureContactsUpdate state.features active).2
    let neutralRequired := state.neutralRequired || (featureTakeNeutral features).1
    let state : Pipeline := ⟨tracker,(featureTakeNeutral features).2,active,false⟩
    match encodeInput axes out scanTime features ptpInputReportSize with
    | (.ok,report) =>
      if neutralRequired then
        some ((encodeNeutral scanTime ptpInputReportSize).2.map (fun report => ⟨report,true,features⟩),state)
      else some (report.map (fun report => ⟨report,false,features⟩),state)
    | _ => some (none,state)

/-- `AiTrackpadVhfSetFeature`. -/
def processWrite (reportId : Byte) (buffer : List Byte) (state : Pipeline) : Pipeline :=
  let (status,neutralRequired,features) := setFeature state.features reportId buffer state.contactsActive
  { state with
    features := features
    neutralRequired := state.neutralRequired || (decide (status = .ok) && neutralRequired) }

def process (axes : AxisContract) : Event → Pipeline → Option (Option Delivery × Pipeline)
  | .frame frame scanTime, state => processFrame axes frame scanTime state
  | .write reportId buffer, state => some (none,processWrite reportId buffer state)

/-- The reports of a run, in order, and the pipeline behind it. -/
def processAll (axes : AxisContract) : List Event → Pipeline → Option (List Delivery × Pipeline)
  | [], state => some ([],state)
  | event :: rest, state => do
    let (delivery,state) ← process axes event state
    let (deliveries,state) ← processAll axes rest state
    some (delivery.toList ++ deliveries,state)

/-- The contacts that a report lists: whether the tip bit is set, and the identifier. -/
def listed (report : Memory) : List (Bool × Nat) :=
  (List.range (report 33).toNat).map (fun i => (decide (report (1 + i * 6) &&& 2 ≠ 0),(report (2 + i * 6)).toNat))

/-- Frames as the device sends them. -/
def Event.Proper : Event → Prop
  | .frame native _ => Trackpad.Proper native
  | .write _ _ => True

variable {report : Memory} {bytes : List Byte}

theorem put_inside {offset i : Nat} (inside : i < bytes.length) :
    put report offset bytes (offset + i) = bytes.getD i 0 := copyTo_inside i inside
theorem put_outside {offset i : Nat} (outside : i < offset ∨ offset + bytes.length ≤ i) :
    put report offset bytes i = report i := copyTo_outside (by omega)
theorem contactBytes_length (axes : AxisContract) (source : OutputContact) : (contactBytes axes source).length = 6 := rfl

variable {axes : AxisContract}

theorem putContacts_spec {contacts : List OutputContact} {emitted : Nat}
    {written : Nat × Memory} (puts : putContacts axes contacts emitted report = some written) :
    written.1 = emitted + contacts.length ∧ (∀ i < 1 + emitted * 6, written.2 i = report i) ∧
      ∀ i (inside : i < contacts.length), written.2 (1 + (emitted + i) * 6) = (if contacts[i].tip then 3 else 1) ∧
        written.2 (2 + (emitted + i) * 6) = BitVec.ofNat 8 contacts[i].id := by
  induction contacts generalizing emitted report with
  | nil =>
    cases puts
    exact ⟨rfl,fun _ _ => rfl,fun _ inside => absurd inside (Nat.not_lt_zero _)⟩
  | cons source rest ih =>
  unfold putContacts at puts
  split at puts
  · cases puts
  obtain ⟨total,before,later⟩ := ih puts
  refine ⟨by rw [total,length_cons]; omega,fun i below => ?_,fun i inside => ?_⟩
  · rw [before i (by omega)]
    exact put_outside (.inl (by omega))
  cases i with
  | zero =>
    rw [Nat.add_zero,before _ (by omega),before _ (by omega)]
    refine ⟨put_inside (i := 0) (by rw [contactBytes_length]; decide),?_⟩
    rw [show 2 + emitted * 6 = 1 + emitted * 6 + 1 by omega]
    exact put_inside (i := 1) (by rw [contactBytes_length]; decide)
  | succ i =>
  rw [show emitted + (i + 1) = emitted + 1 + i by omega]
  exact later i (Nat.lt_of_succ_lt_succ inside)

private theorem tip_bit (tip : Bool) : decide ((if tip then 3 else 1 : Byte) &&& 2 ≠ 0) = tip := by cases tip <;> decide

theorem listed_puts {axes : AxisContract} {contacts : List OutputContact} {report : Memory} {written : Nat × Memory}
    (puts : putContacts axes contacts 0 report = some written) (few : contacts.length ≤ ptpMaxContacts)
    (ids : ∀ contact ∈ contacts, contact.id < ptpMaxContacts) (scan button : List Byte) :
    listed (put (put (put written.2 31 scan) 33 [BitVec.ofNat 8 written.1]) 34 button) =
      contacts.map (fun contact => (contact.tip,contact.id)) := by
  obtain ⟨total,-,bytes⟩ := putContacts_spec puts
  have few : contacts.length ≤ 5 := few
  have count : put (put (put written.2 31 scan) 33 [BitVec.ofNat 8 written.1]) 34 button 33 =
      BitVec.ofNat 8 contacts.length := by
    rw [put_outside (.inl (by omega)),show (33 : Nat) = 33 + 0 from rfl,put_inside (show 0 < 1 by decide),total,Nat.zero_add]
    rfl
  have kept (i : Nat) (below : i < 31) :
      put (put (put written.2 31 scan) 33 [BitVec.ofNat 8 written.1]) 34 button i = written.2 i := by
    rw [put_outside (.inl (by omega)),put_outside (.inl (by omega)),put_outside (.inl below)]
  rw [listed,count,BitVec.toNat_ofNat,Nat.mod_eq_of_lt (by omega)]
  refine ext_getElem (by simp) (fun i inside _ => ?_)
  rw [length_map,length_range] at inside
  obtain ⟨tip,id⟩ := bytes i inside
  rw [Nat.zero_add] at tip id
  have below : contacts[i].id < 5 := ids _ (getElem_mem inside)
  simp only [getElem_map,getElem_range]
  rw [kept _ (by omega),kept _ (by omega),tip,id,tip_bit,BitVec.toNat_ofNat,Nat.mod_eq_of_lt (by omega)]

variable {frame : Frame} {out : OutputFrame}

private theorem encodeInput_cases {tracker next : Tracker} (updated : Updated tracker frame next out)
    (valid : axisContractValid axes = true) (scanTime : BitVec 16) (features : FeatureState) :
    (encodeInput axes out scanTime features ptpInputReportSize = (.ok,none) ∧
      ¬ (features.inputMode = 3 ∧ features.modeChangePending = false)) ∨
    ∃ report, encodeInput axes out scanTime features ptpInputReportSize = (.ok,some report) ∧
      features.inputMode = 3 ∧ features.modeChangePending = false ∧
      listed report = if features.surfaceEnabled then out.contacts.map (fun contact => (contact.tip,contact.id)) else [] := by
  unfold encodeInput
  rw [if_neg (Nat.not_lt.mpr updated.few),if_neg (by rw [valid]; decide)]
  split
  · rename_i silent
    refine .inl ⟨rfl,fun both => ?_⟩
    rcases silent with mode | pending
    · exact mode both.1
    rw [both.2] at pending
    cases pending
  rename_i silent
  push Not at silent
  refine .inr ?_
  cases surface : features.surfaceEnabled with
  | true =>
    obtain ⟨written,puts⟩ := putContacts_some updated.ids axes 0 blankReport
    simp only [if_true,puts]
    exact ⟨_,rfl,silent.1,by simpa using silent.2,listed_puts puts updated.few updated.ids (leBytes scanTime) _⟩
  | false =>
  exact ⟨_,rfl,silent.1,by simpa using silent.2,
    @listed_puts axes [] blankReport _ rfl (Nat.zero_le _) (fun _ mem => absurd mem not_mem_nil)
      (leBytes scanTime) _⟩

private theorem encodeNeutral_listed (scanTime : BitVec 16) :
    ∃ report, encodeNeutral scanTime ptpInputReportSize = (.ok,some report) ∧ listed report = [] := by
  refine ⟨_,if_neg (Nat.lt_irrefl _),?_⟩
  have none : put blankReport 31 (leBytes scanTime) 33 = 0 := put_outside (.inr (Nat.le_refl 33))
  rfl

private theorem setFeature_cases (state : FeatureState) (reportId : Byte) (buffer : List Byte) (contactsActive : Bool) :
    ((setFeature state reportId buffer contactsActive).2.2.inputMode = state.inputMode ∧
      (setFeature state reportId buffer contactsActive).2.2.modeChangePending = state.modeChangePending) ∨
    (contactsActive = true ∧ (setFeature state reportId buffer contactsActive).1 = .ok ∧
      (setFeature state reportId buffer contactsActive).2.1 = true) ∨
    (contactsActive = false ∧ (setFeature state reportId buffer contactsActive).2.2.modeChangePending = false) := by
  unfold setFeature
  split
  · exact .inl ⟨rfl,rfl⟩
  split
  · exact .inl ⟨rfl,rfl⟩
  split
  · dsimp only
    generalize (if buffer.getD 1 0 = 3 then 3 else 0 : Byte) = requested
    split
    · exact .inl ⟨rfl,rfl⟩
    split
    · exact .inl ⟨rfl,rfl⟩
    cases contactsActive with
    | true => exact .inr (.inl ⟨rfl,rfl,rfl⟩)
    | false => exact .inr (.inr ⟨rfl,rfl⟩)
  split
  · split <;> exact .inl ⟨rfl,rfl⟩
  exact .inl ⟨rfl,rfl⟩

private theorem contactsUpdate_pending {state : FeatureState} {active : Bool}
    (pending : (featureContactsUpdate state active).2.modeChangePending = true) :
    state.modeChangePending = true ∧ active = true := by
  unfold featureContactsUpdate at pending
  cases before : state.modeChangePending <;> cases active <;> simp_all

private theorem contactsUpdate_same {state : FeatureState} (settled : state.modeChangePending = false) (active : Bool) :
    (featureContactsUpdate state active).2 = state := by
  unfold featureContactsUpdate
  rw [if_neg (by rw [settled]; decide)]

/-- A contact that a report lists with its tip bit set. -/
def HasTip (delivery : Delivery) (id : Nat) : Prop := (true,id) ∈ listed delivery.report

/-- What the pipeline satisfies after a report: a contact with tip is still followed, and the next frame says so. -/
structure Settled (axes : AxisContract) (state : Pipeline) (last : Option Delivery) : Prop where
  sound : Sound state.tracker
  active : state.contactsActive = true ↔ ∃ id, Carried state.tracker id
  pending : state.features.modeChangePending = true → state.contactsActive = true
  valid : ∀ delivery ∈ last, axisContractValid axes = true
  heard : ∀ delivery ∈ last, ∀ id, HasTip delivery id → Carried state.tracker id ∧
    (state.neutralRequired = true ∨ (state.features.inputMode = 3 ∧ state.features.modeChangePending = false))

/-- What a report says about the contacts of the one before it. -/
structure Continues (state : Pipeline) (last : Option Delivery) (delivery : Delivery) : Prop where
  pending : state.features.modeChangePending = true → ∀ id, ¬ HasTip delivery id
  listed : ∀ before ∈ last, delivery.neutral = false → delivery.features.surfaceEnabled = true → ∀ id, HasTip before id →
    ∃ tip, (tip,id) ∈ listed delivery.report

variable {state : Pipeline} {last : Option Delivery}

private theorem processWrite_settles (settled : Settled axes state last)
    (reportId : Byte) (buffer : List Byte) : Settled axes (processWrite reportId buffer state) last := by
  have cases := setFeature_cases state.features reportId buffer state.contactsActive
  refine ⟨settled.sound,settled.active,fun pending => ?_,settled.valid,fun delivery mem id tip => ?_⟩
  · rcases cases with ⟨-,same⟩ | ⟨active,-⟩ | ⟨-,clear⟩
    · exact settled.pending (same.symm.trans pending)
    · exact active
    exact absurd (clear.symm.trans pending) (by decide)
  obtain ⟨carried,due⟩ := settled.heard delivery mem id tip
  refine ⟨carried,?_⟩
  change (state.neutralRequired || (decide ((setFeature state.features reportId buffer state.contactsActive).1 = .ok) &&
    (setFeature state.features reportId buffer state.contactsActive).2.1)) = true ∨
    ((setFeature state.features reportId buffer state.contactsActive).2.2.inputMode = 3 ∧
      (setFeature state.features reportId buffer state.contactsActive).2.2.modeChangePending = false)
  rcases cases with ⟨mode,same⟩ | ⟨-,ok,neutral⟩ | ⟨inactive,-⟩
  · rw [mode,same]
    rcases due with neutral | both
    · exact .inl (by rw [neutral,Bool.true_or])
    exact .inr both
  · exact .inl (by rw [ok,neutral,decide_eq_true rfl,Bool.and_true,Bool.or_true])
  exact absurd (inactive.symm.trans (settled.active.mpr ⟨id,carried⟩)) (by decide)

theorem active_iff {tracker next : Tracker} (updated : Updated tracker frame next out) :
    decide (out.activeCount ≠ 0) = true ↔ ∃ id, Carried next id := by
  rw [decide_eq_true_iff,updated.active,← Nat.pos_iff_ne_zero,countP_pos_iff]
  constructor
  · rintro ⟨contact,mem,tip⟩
    exact ⟨contact.id,(updated.tips contact.id).mp ⟨contact,mem,tip,rfl⟩⟩
  rintro ⟨id,carried⟩
  obtain ⟨contact,mem,tip,-⟩ := (updated.tips id).mpr carried
  exact ⟨contact,mem,tip⟩

/-- A frame: what it delivers goes on with the report before, and the pipeline is settled behind it. -/
theorem processFrame_settles (settled : Settled axes state last) (proper : Proper frame) (scanTime : BitVec 16) :
    ∃ delivery next out, processFrame axes frame scanTime state = some (delivery,next) ∧
      Updated state.tracker frame next.tracker out ∧ trackerUpdate state.tracker frame = some (.ok,next.tracker,out) ∧
      Settled axes next (delivery.or last) ∧ ∀ report ∈ delivery, Continues state last report := by
  obtain ⟨tracker,out,ran,updated⟩ := trackerUpdate_updates settled.sound proper.2 proper.1
  obtain ⟨active,features,kept,actives,updates⟩ : ∃ active features,
      processFrame axes frame scanTime state = (match encodeInput axes out scanTime features ptpInputReportSize with
        | (.ok,report) =>
          if state.neutralRequired || features.neutralPending then
            some ((encodeNeutral scanTime ptpInputReportSize).2.map (fun report => ⟨report,true,features⟩),
              ⟨tracker,(featureTakeNeutral features).2,active,false⟩)
          else some (report.map (fun report => ⟨report,false,features⟩),⟨tracker,(featureTakeNeutral features).2,active,false⟩)
        | _ => some (none,⟨tracker,(featureTakeNeutral features).2,active,false⟩)) ∧
      (active = true ↔ ∃ id, Carried tracker id) ∧ features = (featureContactsUpdate state.features active).2 := by
    refine ⟨_,_,?_,active_iff updated,rfl⟩
    simp only [processFrame,ran,bind_eq_bind,bind_some]
    rfl
  rw [kept]
  have pending (waits : features.modeChangePending = true) : active = true := (contactsUpdate_pending (updates ▸ waits)).2
  have settles (last' : Option Delivery) (valid : ∀ delivery ∈ last', axisContractValid axes = true)
      (heard : ∀ delivery ∈ last', ∀ id, HasTip delivery id →
        Carried tracker id ∧ features.inputMode = 3 ∧ features.modeChangePending = false) :
      Settled axes ⟨tracker,(featureTakeNeutral features).2,active,false⟩ last' :=
    ⟨updated.sound,actives,pending,valid,fun delivery mem id tip =>
      ⟨(heard delivery mem id tip).1,.inr (heard delivery mem id tip).2⟩⟩
  cases valid : axisContractValid axes with
  | false =>
    have refused : encodeInput axes out scanTime features ptpInputReportSize = (.errProtocol,none) := by
      rw [encodeInput,if_neg (Nat.not_lt.mpr updated.few),if_pos valid]
    have silent : last = none := by
      refine eq_none_iff_forall_not_mem.mpr (fun delivery mem => ?_)
      exact absurd (valid.symm.trans (settled.valid delivery mem)) (by decide)
    rw [refused,silent]
    exact ⟨_,_,out,rfl,updated,ran,settles none nofun nofun,nofun⟩
  | true =>
  have encoded := encodeInput_cases updated valid scanTime features
  cases due : state.neutralRequired || features.neutralPending with
  | true =>
    -- the neutral report is delivered, whatever is made of the frame
    obtain ⟨neutral,made,empty⟩ := encodeNeutral_listed scanTime
    have tipless (id : Nat) : ¬ HasTip ⟨neutral,true,features⟩ id := by
      rw [HasTip,empty]
      exact not_mem_nil
    refine ⟨some ⟨neutral,true,features⟩,_,out,?_,updated,ran,settles _ (fun _ _ => valid) (fun delivery mem id tip => ?_),
      fun delivery mem => ?_⟩
    · rcases encoded with ⟨encodes,-⟩ | ⟨report,encodes,-⟩ <;> rw [encodes] <;> simp only [if_true,made,map_some]
    · cases mem
      exact absurd tip (tipless id)
    cases mem
    exact ⟨fun _ => tipless,nofun⟩
  | false =>
  have required : state.neutralRequired = false := (Bool.or_eq_false_iff.mp due).1
  have settledMode (delivery : Delivery) (mem : delivery ∈ last) (id : Nat) (tip : HasTip delivery id) :
      features = state.features ∧ state.features.inputMode = 3 ∧ state.features.modeChangePending = false := by
    rcases (settled.heard delivery mem id tip).2 with neutral | both
    · exact absurd (required.symm.trans neutral) (by decide)
    exact ⟨by rw [updates,contactsUpdate_same both.2],both⟩
  rcases encoded with ⟨encodes,silent⟩ | ⟨report,encodes,mode,clear,lists⟩
  · rw [encodes]
    refine ⟨none,_,out,by simp,updated,ran,settles last settled.valid (fun delivery mem id tip => ?_),nofun⟩
    obtain ⟨same,both⟩ := settledMode delivery mem id tip
    exact absurd (same ▸ both) silent
  rw [encodes]
  have reported (id : Nat) (tip : HasTip ⟨report,false,features⟩ id) : Tipped out id := by
    rw [HasTip,lists] at tip
    cases surface : features.surfaceEnabled with
    | true =>
      rw [surface,if_pos rfl] at tip
      obtain ⟨contact,mem,same⟩ := mem_map.mp tip
      exact ⟨contact,mem,congrArg Prod.fst same,congrArg Prod.snd same⟩
    | false =>
    rw [surface,if_neg (by decide)] at tip
    exact absurd tip not_mem_nil
  refine ⟨some ⟨report,false,features⟩,_,out,by simp,updated,ran,settles _ (fun _ _ => valid)
    (fun delivery mem id tip => ?_),fun delivery mem => ?_⟩
  · cases mem
    exact ⟨(updated.tips id).mp (reported id tip),mode,clear⟩
  cases mem
  refine ⟨fun waits id tip => ?_,fun before beforeMember _ surface id tip => ?_⟩
  · -- the change was still pending before the frame, so the frame has no active contact
    have lifted : active = false := by
      cases up : active with
      | false => rfl
      | true =>
      rw [updates,up,featureContactsUpdate,if_pos waits,if_pos rfl] at clear
      exact absurd (waits.symm.trans clear) (by decide)
    exact absurd (lifted.symm.trans (actives.mpr ⟨id,(updated.tips id).mp (reported id tip)⟩)) (by decide)
  rw [lists,if_pos surface]
  rcases updated.kept id (settled.heard before beforeMember id tip).1 with held | lifts
  · obtain ⟨contact,mem,bit,rfl⟩ := held
    exact ⟨_,mem_map.mpr ⟨contact,mem,rfl⟩⟩
  obtain ⟨contact,mem,bit,rfl⟩ := lifts
  exact ⟨_,mem_map.mpr ⟨contact,mem,rfl⟩⟩

theorem process_settles (settled : Settled axes state last) {event : Event} (proper : event.Proper) :
    ∃ delivery next, process axes event state = some (delivery,next) ∧ Settled axes next (delivery.or last) ∧
      ∀ report ∈ delivery, Continues state last report := by
  cases event with
  | frame native scanTime =>
    obtain ⟨delivery,next,-,ran,-,-,after,continues⟩ := processFrame_settles settled proper scanTime
    exact ⟨delivery,next,ran,after,continues⟩
  | write reportId buffer =>
  exact ⟨none,_,rfl,processWrite_settles settled reportId buffer,nofun⟩

private theorem processAll_settles {events : List Event} (proper : ∀ event ∈ events, event.Proper)
    (settled : Settled axes state last) : ∃ deliveries next, processAll axes events state = some (deliveries,next) ∧
      Settled axes next (deliveries.getLast?.or last) := by
  induction events generalizing state last with
  | nil => exact ⟨[],state,rfl,settled⟩
  | cons event rest ih =>
  obtain ⟨delivery,middle,one,kept,-⟩ := process_settles settled (proper event mem_cons_self)
  obtain ⟨deliveries,next,others,after⟩ := ih (fun other mem => proper other (mem_cons_of_mem _ mem)) kept
  refine ⟨delivery.toList ++ deliveries,next,?_,?_⟩
  · simp only [processAll,one,others,bind_eq_bind,bind_some]
  have last : delivery.toList.getLast? = delivery := by cases delivery <;> rfl
  rw [getLast?_append,last,Option.or_assoc]
  exact after

private theorem settled_start (axes : AxisContract) : Settled axes Pipeline.start none :=
  ⟨sound_zero,⟨nofun,(fun ⟨_,_,_,admitted,_⟩ => by cases admitted)⟩,nofun,nofun,nofun⟩

/-- In every run of frames and feature writes: behind a frame without an active contact the last report has no tip bit
set; while a change of the input mode is pending no report with a tip bit is delivered; and unless the next report is a
neutral one, it lists every contact again that the one before had with its tip bit set, as long as the surface is reported. -/
theorem no_contact_stuck (axes : AxisContract) (events : List Event) (proper : ∀ event ∈ events, event.Proper) :
    ∃ deliveries state, processAll axes events Pipeline.start = some (deliveries,state) ∧
      (∀ frame scanTime, Proper frame → ∃ delivery next out, process axes (.frame frame scanTime) state = some (delivery,next) ∧
        trackerUpdate state.tracker frame = some (.ok,next.tracker,out) ∧
        (out.activeCount = 0 → ∀ last ∈ (deliveries ++ delivery.toList).getLast?, ∀ id, ¬ HasTip last id)) ∧
      ∀ event, event.Proper → ∃ delivery next, process axes event state = some (delivery,next) ∧ ∀ report ∈ delivery,
        (state.features.modeChangePending = true → ∀ id, ¬ HasTip report id) ∧
        ∀ before ∈ deliveries.getLast?, report.neutral = false → report.features.surfaceEnabled = true →
          ∀ id, HasTip before id → ∃ tip, (tip,id) ∈ listed report.report := by
  obtain ⟨deliveries,state,ran,settled⟩ := processAll_settles proper (settled_start axes)
  rw [or_none] at settled
  refine ⟨deliveries,state,ran,fun frame scanTime properFrame => ?_,fun event properEvent => ?_⟩
  · obtain ⟨delivery,next,out,one,updated,update,after,-⟩ := processFrame_settles settled properFrame scanTime
    refine ⟨delivery,next,out,one,update,fun inactive last mem id tip => ?_⟩
    have same : delivery.toList.getLast? = delivery := by cases delivery <;> rfl
    rw [getLast?_append,same] at mem
    obtain ⟨contact,contactMember,bit,-⟩ := (updated.tips id).mpr (after.heard last mem id tip).1
    have counted := updated.active.symm.trans inactive
    exact countP_eq_zero.mp counted contact contactMember bit
  · obtain ⟨delivery,next,one,-,continues⟩ := process_settles settled properEvent
    exact ⟨delivery,next,one,fun report mem => ⟨(continues report mem).pending,(continues report mem).listed⟩⟩

def sampleAxes : AxisContract :=
  ⟨⟨-100,100,0,200,0,0,true⟩,⟨-100,100,0,200,0,0,true⟩,true⟩

/-- One finger comes down in touchpad mode, the host turns the mode off and on again, and the finger is lifted. -/
def modeToggled : List Event :=
  [.write 4 [4,3],.frame ⟨false,1,fun _ => ⟨10,20⟩⟩ 7,.write 4 [4,0],.write 4 [4,3],.frame ⟨false,0,fun _ => ⟨0,0⟩⟩ 8]

/-- The neutral report that is due then, in touchpad mode and with the surface reported, does not list the contact. -/
theorem neutral_forgets_contact : (processAll sampleAxes modeToggled Pipeline.start).map (fun run => run.1.map (fun delivery =>
      (decide (delivery.features.inputMode = 3) && !delivery.features.modeChangePending && delivery.features.surfaceEnabled,
        listed delivery.report))) = some [(true,[(true,0)]),(true,[])] := by
  decide +kernel

/-- The run in which the host turns the mode off and on again. -/
theorem no_contact_stuck_toggled : ∃ deliveries state, processAll sampleAxes modeToggled Pipeline.start =
    some (deliveries,state) := by
  obtain ⟨deliveries,state,ran,-⟩ := no_contact_stuck sampleAxes modeToggled (fun event mem => by
    simp only [modeToggled,mem_cons,not_mem_nil,or_false] at mem
    rcases mem with rfl | rfl | rfl | rfl | rfl
    · trivial
    · exact ⟨by decide,fun _ _ => ⟨(⟨by decide,by decide⟩ : Narrow 10),(⟨by decide,by decide⟩ : Narrow 20)⟩⟩
    · trivial
    · trivial
    · exact ⟨by decide,fun _ below => absurd below (Nat.not_lt_zero _)⟩)
  exact ⟨deliveries,state,ran⟩

end WindowsOnM1.Trackpad
