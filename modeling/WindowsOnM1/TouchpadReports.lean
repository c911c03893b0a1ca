import WindowsOnM1.TrackpadTracker

/-!
The reports of the precision touchpad and its features. The pointers are given.
-/
namespace WindowsOnM1.Trackpad
open ByteMemory
open Hid (Status)

abbrev ptpInputReportSize : Nat := 35

structure Axis where
  logicalMin : BitVec 32
  logicalMax : BitVec 32
  physicalMin : BitVec 32
  physicalMax : BitVec 32
  unit : BitVec 32
  unitExponent : BitVec 8
  valid : Bool

structure AxisContract where
  x : Axis
  y : Axis
  valid : Bool

structure FeatureState where
  inputMode : Byte
  pendingInputMode : Byte
  modeChangePending : Bool
  neutralPending : Bool
  surfaceEnabled : Bool
  buttonEnabled : Bool

def ptpReportInput : Byte := 1
def ptpReportInputMode : Byte := 4
def ptpReportSelective : Byte := 5
def featureInit : FeatureState := ⟨0,0,false,false,true,true⟩

def axisContractValid (axes : AxisContract) : Bool :=
  axes.valid && axes.x.valid && axes.y.valid &&
    decide (axes.x.logicalMin.toInt < axes.x.logicalMax.toInt) && decide (axes.y.logicalMin.toInt < axes.y.logicalMax.toInt) &&
    decide (axes.x.physicalMin.toInt < axes.x.physicalMax.toInt) &&
    decide (axes.y.physicalMin.toInt < axes.y.physicalMax.toInt) &&
    axes.x.unit == axes.y.unit && axes.x.unitExponent == axes.y.unitExponent

/-- A coordinate on the scale from 0 to 4095; no step leaves 64 bits. -/
def normalizeAxis (value minimum maximum : BitVec 32) : BitVec 16 :=
  let clamped := min (max value.toInt minimum.toInt) maximum.toInt
  let delta := (clamped - minimum.toInt).toNat
  let range := (maximum.toInt - minimum.toInt).toNat
  BitVec.ofNat 16 ((delta * 4095 + range / 2) / range)

def leBytes (value : BitVec 16) : List Byte := [value.setWidth 8,(value >>> 8).setWidth 8]
def put (report : Memory) (offset : Nat) (bytes : List Byte) : Memory := copyTo report offset (contents bytes) bytes.length
def contactBytes (axes : AxisContract) (source : OutputContact) : List Byte :=
  [if source.tip then 3 else 1,BitVec.ofNat 8 source.id] ++
    leBytes (normalizeAxis source.x axes.x.logicalMin axes.x.logicalMax) ++
    leBytes (4095 - normalizeAxis source.y axes.y.logicalMin axes.y.logicalMax)

/-- The contacts of a frame, stored one behind the other; one without a proper identifier stops it. -/
def putContacts (axes : AxisContract) : List OutputContact → (emitted : Nat) → Memory → Option (Nat × Memory)
  | [], emitted, report => some (emitted,report)
  | source :: rest, emitted, report =>
    if source.id ≥ ptpMaxContacts then none
    else putContacts axes rest (emitted + 1) (put report (1 + emitted * 6) (contactBytes axes source))

/-- A report that is empty but for its identifier. -/
def blankReport : Memory := put (fun _ => 0) 0 [ptpReportInput]

/-- An input report for a frame; none is due when the touchpad mode is off or about to change. -/
def encodeInput (axes : AxisContract) (frame : OutputFrame) (scanTime : BitVec 16) (features : FeatureState)
    (capacity : Nat) : Status × Option Memory :=
  if frame.contacts.length > ptpMaxContacts then (.errLength,none)
  else if axisContractValid axes = false then (.errProtocol,none)
  else if features.inputMode ≠ 3 ∨ features.modeChangePending = true then (.ok,none)
  else if capacity < ptpInputReportSize then (.errLength,none)
  else match (if features.surfaceEnabled then putContacts axes frame.contacts 0 blankReport else some (0,blankReport)) with
    | none => (.errProtocol,none)
    | some (emitted,report) =>
      let report := put report 31 (leBytes scanTime)
      let report := put report 33 [BitVec.ofNat 8 emitted]
      (.ok,some (put report 34 [if features.buttonEnabled && frame.button then 1 else 0]))

def encodeNeutral (scanTime : BitVec 16) (capacity : Nat) : Status × Option Memory :=
  if capacity < ptpInputReportSize then (.errLength,none) else (.ok,some (put blankReport 31 (leBytes scanTime)))

/-- What a write to a feature answers, whether it requires a neutral report, and the features behind it. -/
def setFeature (state : FeatureState) (reportId : Byte) (buffer : List Byte) (contactsActive : Bool) :
    Status × Bool × FeatureState :=
  if buffer.length ≠ 2 then (.errLength,false,state)
  else if buffer.getD 0 0 ≠ reportId then (.errProtocol,false,state)
  else if reportId = ptpReportInputMode then
    let requested : Byte := if buffer.getD 1 0 = 3 then 3 else 0
    if state.modeChangePending = true ∧ state.pendingInputMode = requested then (.ok,false,state)
    else if state.modeChangePending = false ∧ state.inputMode = requested then (.ok,false,state)
    else if contactsActive then
      (.ok,true,{ state with pendingInputMode := requested, modeChangePending := true, neutralPending := true })
    else
      (.ok,false,{ state with
        inputMode := requested, pendingInputMode := requested, modeChangePending := false, neutralPending := false })
  else if reportId = ptpReportSelective then
    if buffer.getD 1 0 &&& 0xfc ≠ 0 then (.errProtocol,false,state)
    else (.ok,false,{ state with
      surfaceEnabled := decide (buffer.getD 1 0 &&& 1 ≠ 0), buttonEnabled := decide (buffer.getD 1 0 &&& 2 ≠ 0) })
  else (.errProtocol,false,state)

def featureTakeNeutral (state : FeatureState) : Bool × FeatureState :=
  (state.neutralPending,{ state with neutralPending := false })

def featureContactsUpdate (state : FeatureState) (contactsActive : Bool) : Bool × FeatureState :=
  if state.modeChangePending then
    if contactsActive then (false,state)
    else
      let state := { state with inputMode := state.pendingInputMode, modeChangePending := false, neutralPending := false }
      (decide (state.inputMode = 3),state)
  else (decide (state.inputMode = 3),state)

end WindowsOnM1.Trackpad
