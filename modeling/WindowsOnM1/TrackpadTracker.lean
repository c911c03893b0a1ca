import WindowsOnM1.HidReassembly
import WindowsOnM1.HungarianAssignment

/-!
The tracker of the trackpad: it follows the fingers from frame to frame and reports at most five of them.
The pointers are given.
-/
namespace WindowsOnM1.Trackpad
open Hid (Status)
open CountedLoop

abbrev appleTrackpadMaxContacts : Nat := 11
abbrev ptpMaxContacts : Nat := 5
structure Contact where
  x : BitVec 32
  y : BitVec 32
structure Frame where
  button : Bool
  count : Nat
  contacts : Nat → Contact

structure PhysicalSlot where
  active : Bool
  admitted : Bool
  windowsId : Nat
  x : BitVec 32
  y : BitVec 32

structure Tracker where
  slots : Nat → PhysicalSlot

structure OutputContact where
  tip : Bool
  id : Nat
  x : BitVec 32
  y : BitVec 32

/-- The contacts of an output frame are a list; their count is its length. -/
structure OutputFrame where
  button : Bool
  activeCount : Nat
  suppressedCount : Nat
  contacts : List OutputContact

def Tracker.zero : Tracker := ⟨fun _ => ⟨false,false,0,0,0⟩⟩
def Tracker.set (tracker : Tracker) (place : Nat) (slot : PhysicalSlot) : Tracker :=
  ⟨Function.update tracker.slots place slot⟩

abbrev costMax : Int := 0x00ffffffffffffff

/-- The square of a distance; both factors are below `2 ^ 32`. -/
def squared (distance : Int) : Int := distance.natAbs * distance.natAbs
def coordinateCost (slot : PhysicalSlot) (contact : Contact) : Int :=
  let x2 := squared (slot.x.toInt - contact.x.toInt)
  let y2 := squared (slot.y.toInt - contact.y.toInt)
  if x2 > costMax ∨ y2 > costMax - x2 then costMax else x2 + y2

/-- The links between the old contacts and the new ones; a contact without a link is on its own. -/
structure Links where
  oldToNew : Nat → Option Nat
  newToOld : Nat → Option Nat

/-- The link that a column stands for. -/
def linkColumn (rowsAreOld : Bool) (p : Nat → Nat) (j : Nat) (links : Links) : Links :=
  if p j = 0 then links else
    let old := if rowsAreOld then p j - 1 else j - 1
    let new := if rowsAreOld then j - 1 else p j - 1
    ⟨Function.update links.oldToNew old (some new),Function.update links.newToOld new (some old)⟩

/-- The matching of least cost; its potentials never leave 64 bits. -/
def minimumAssignment (tracker : Tracker) (frame : Frame) (oldSlots : List Nat) : Option Links :=
  let rowsAreOld : Bool := oldSlots.length ≤ frame.count
  let rows := if rowsAreOld then oldSlots.length else frame.count
  let columns := if rowsAreOld then frame.count else oldSlots.length
  let cost (i j : Nat) :=
    coordinateCost (tracker.slots (oldSlots.getD (if rowsAreOld then i - 1 else j - 1) 0))
      (frame.contacts (if rowsAreOld then j - 1 else i - 1))
  (Hungarian.assign cost costMax columns rows).map (fun held =>
    forRange (linkColumn rowsAreOld held.p) 1 columns ⟨fun _ => none,fun _ => none⟩)

/-- One more contact; there is room for five. -/
def appendOutput (out : OutputFrame) (tip : Bool) (id : Nat) (x y : BitVec 32) : Option OutputFrame :=
  if out.contacts.length < ptpMaxContacts then
    some { out with
      contacts := out.contacts ++ [⟨tip,id,x,y⟩]
      activeCount := if tip then out.activeCount + 1 else out.activeCount }
  else none

/-- A contact is only reported if it is admitted. -/
def appendAdmitted (out : OutputFrame) (tip : Bool) (slot : PhysicalSlot) : Option OutputFrame :=
  if slot.admitted then appendOutput out tip slot.windowsId slot.x slot.y else some out

/-- The insertion of a contact into those that are sorted, the last one first. -/
def insertById (value : OutputContact) : List OutputContact → List OutputContact
  | [] => [value]
  | last :: before => if last.id > value.id then last :: insertById value before else value :: last :: before
def sortOutputById (out : OutputFrame) : OutputFrame :=
  { out with contacts := (out.contacts.foldl (fun sorted value => insertById value sorted) []).reverse }

/-- An old contact moves to its new place, or is lifted. -/
def moveOld (frame : Frame) (oldSlots : List Nat) (oldToNew : Nat → Option Nat) (state : Tracker × OutputFrame)
    (index : Nat) : Option (Tracker × OutputFrame) := do
  let (tracker,out) := state
  let place := oldSlots.getD index 0
  let slot := tracker.slots place
  match oldToNew index with
  | some new =>
    let slot := { slot with x := (frame.contacts new).x, y := (frame.contacts new).y }
    let out ← appendAdmitted out true slot
    some (tracker.set place slot,out)
  | none =>
    let out ← appendAdmitted out false slot
    some (tracker.set place { slot with active := false, admitted := false },out)

structure Update where
  tracker : Tracker
  out : OutputFrame
  available : Nat → Bool

/-- A new contact takes a slot, and an identifier if one was free before the frame. -/
def takeSlot (contact : Contact) (place : Nat) (state : Update) : Option Update :=
  let slot : PhysicalSlot :=
    { state.tracker.slots place with active := true, admitted := false, x := contact.x, y := contact.y }
  match (List.range ptpMaxContacts).find? state.available with
  | none => some { state with tracker := state.tracker.set place slot }
  | some id => do
    let out ← appendOutput state.out true id slot.x slot.y
    some ⟨state.tracker.set place { slot with admitted := true, windowsId := id },out,
      Function.update state.available id false⟩

/-- The new contacts that no old one moved to. -/
def placeNew (frame : Frame) (newToOld : Nat → Option Nat) : List Nat → Update → Option (Status × Update)
  | [], state => some (.ok,state)
  | index :: rest, state =>
    if (newToOld index).isSome then placeNew frame newToOld rest state
    else match (List.range appleTrackpadMaxContacts).find? (fun place => !(state.tracker.slots place).active) with
      | none => some (.errProtocol,state)
      | some place => (takeSlot (frame.contacts index) place state).bind (placeNew frame newToOld rest)

/-- The slots of the contacts that were there before. -/
def oldSlots (tracker : Tracker) : List Nat :=
  (List.range appleTrackpadMaxContacts).filter (fun place => (tracker.slots place).active)

/-- The identifiers that no old contact carries. -/
def availableBefore (tracker : Tracker) (id : Nat) : Bool :=
  !(oldSlots tracker).any (fun place => (tracker.slots place).admitted && (tracker.slots place).windowsId == id)
def suppressed (tracker : Tracker) : Nat :=
  (List.range appleTrackpadMaxContacts).countP (fun place => (tracker.slots place).active && !(tracker.slots place).admitted)

def trackerUpdate (tracker : Tracker) (frame : Frame) : Option (Status × Tracker × OutputFrame) :=
  if frame.count > appleTrackpadMaxContacts then some (.errLength,tracker,⟨false,0,0,[]⟩)
  else do
    let links ← minimumAssignment tracker frame (oldSlots tracker)
    let (moved,out) ← (List.range (oldSlots tracker).length).foldlM (moveOld frame (oldSlots tracker) links.oldToNew)
      (tracker,⟨frame.button,0,0,[]⟩)
    let (status,state) ← placeNew frame links.newToOld (List.range frame.count) ⟨moved,out,availableBefore tracker⟩
    if status ≠ .ok then some (status,state.tracker,state.out)
    else some (.ok,state.tracker,sortOutputById { state.out with suppressedCount := suppressed state.tracker })

/-- The output frames of a run of the tracker. -/
def trackAll : List Frame → Tracker → Option (List (Status × OutputFrame) × Tracker)
  | [], tracker => some ([],tracker)
  | frame :: rest, tracker => do
    let (status,tracker,out) ← trackerUpdate tracker frame
    let (outs,tracker) ← trackAll rest tracker
    some ((status,out) :: outs,tracker)

end WindowsOnM1.Trackpad
