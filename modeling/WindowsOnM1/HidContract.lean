import WindowsOnM1.Checks
import WindowsOnM1.CountedLoop
import WindowsOnM1.HidReassembly

/-!
The report descriptor of a HID device: what its short items say about the input reports, and the
reports that are accepted by what they say.
-/
namespace WindowsOnM1.Hid
open ByteMemory Checks CountedLoop

abbrev reportIdCapacity : Nat := 256
abbrev globalStackCapacity : Nat := 4

/-- The most bits of the input items of one report. -/
abbrev maximumBits : BitVec 64 := 65535 * 8

structure GlobalState where
  reportSize : BitVec 32
  reportCount : BitVec 32
  reportId : Byte
deriving DecidableEq

structure InputContract where
  valid : Bool
  usesReportIds : Bool
  bytesById : Nat → BitVec 16
def InputContract.zero : InputContract := ⟨false,false,fun _ => 0⟩

/-- What the items up to an offset have left. The stack has its top first. -/
structure ParseState where
  globals : GlobalState
  stack : List GlobalState
  usesReportIds : Bool
  bitsById : Nat → BitVec 32
  reportCount : Nat

def ParseState.zero : ParseState := ⟨⟨0,0,0⟩,[],false,fun _ => 0,0⟩

/-- The bytes of an item from an index on, the lowest first. -/
def unsignedFrom (descriptor : List Byte) (offset : Nat) : (index turns : Nat) → BitVec 32 → Check Status (BitVec 32)
  | _, 0, value => pure value
  | index, turns+1, value => do
    let byte ← entry descriptor (offset + index)
    unsignedFrom descriptor offset (index + 1) turns (value ||| byte.setWidth 32 <<< (index * 8))

def unsignedValue (descriptor : List Byte) (offset size : Nat) : Check Status (BitVec 32) :=
  unsignedFrom descriptor offset 0 size 0
def itemSize (lead : Byte) : Nat := if lead &&& 0x03 = 3 then 4 else (lead &&& 0x03).toNat
def itemType (lead : Byte) : Byte := (lead >>> 2) &&& 0x03
def itemTag (lead : Byte) : Byte := lead >>> 4

def globalItem (tag : Byte) (value : BitVec 32) (state : ParseState) : Check Status ParseState :=
  match tag with
  | 7 => pure { state with globals := { state.globals with reportSize := value } }
  | 8 =>
    if value = 0 ∨ value.toNat ≥ reportIdCapacity then reject .errProtocol
    else pure { state with globals := { state.globals with reportId := value.setWidth 8 }, usesReportIds := true }
  | 9 => pure { state with globals := { state.globals with reportCount := value } }
  | 10 =>
    if state.stack.length = globalStackCapacity then reject .errProtocol
    else pure { state with stack := state.globals :: state.stack }
  | 11 =>
    match state.stack with
    | [] => reject .errProtocol
    | top :: below => pure { state with globals := top, stack := below }
  | _ => pure state

def inputItem (state : ParseState) : Check Status ParseState :=
  if state.globals.reportSize = 0 ∨ state.globals.reportCount = 0 then reject .errProtocol
  else
    let contribution : BitVec 64 := state.globals.reportSize.setWidth 64 * state.globals.reportCount.setWidth 64
    let total : BitVec 64 := (state.bitsById state.globals.reportId.toNat).setWidth 64 + contribution
    if contribution > maximumBits ∨ total > maximumBits then reject .errLength
    else pure { state with
      bitsById := Function.update state.bitsById state.globals.reportId.toNat (total.setWidth 32)
      reportCount := state.reportCount + 1 }

def parseItem (lead : Byte) (value : BitVec 32) (state : ParseState) : Check Status ParseState :=
  if itemType lead = 1 then globalItem (itemTag lead) value state
  else if itemType lead = 0 ∧ itemTag lead = 8 then inputItem state
  else pure state

/-- The items from an offset on; without turns left, the loop would go on outside. -/
def parseItems (descriptor : List Byte) : (turns offset : Nat) → ParseState → Check Status ParseState
  | 0, _, _ => .error .outside
  | turns+1, offset, state =>
    if offset < descriptor.length then do
      let lead ← entry descriptor offset
      if lead = 0xfe then reject .errProtocol
      else if itemSize lead > descriptor.length - (offset + 1) then reject .errLength
      else do
        let value ← unsignedValue descriptor (offset + 1) (itemSize lead)
        let state ← parseItem lead value state
        parseItems descriptor turns (offset + 1 + itemSize lead) state
    else pure state

/-- The bytes of the report with some identifier. -/
def reportLength (usesReportIds : Bool) (bits : BitVec 32) : BitVec 32 :=
  let bytes := (bits + 7) / 8
  if usesReportIds then bytes + 1 else bytes

def fillBytes (state : ParseState) (id : Nat) (result : InputContract) : Bool × InputContract :=
  if state.bitsById id = 0 then (true,result)
  else if (reportLength state.usesReportIds (state.bitsById id)).toNat > 65535 then (false,result)
  else (true,{ result with
    bytesById := Function.update result.bytesById id ((reportLength state.usesReportIds (state.bitsById id)).setWidth 16) })

def contractOf (state : ParseState) : Check Status InputContract := do
  rejectIf (state.stack.length ≠ 0 ∨ state.reportCount = 0) .errProtocol
  rejectIf (state.usesReportIds = true ∧ state.bitsById 0 ≠ 0) .errProtocol
  match countLoop (fillBytes state) 0 reportIdCapacity ⟨false,state.usesReportIds,fun _ => 0⟩ with
  | (false,_) => reject .errLength
  | (true,result) => pure { result with valid := true }

/-- The status of a parse and the contract behind it; there is no answer if it reads outside of the descriptor. -/
def inputContractParse (descriptor : Option (List Byte)) (out : Option InputContract) : Option (Status × Option InputContract) :=
  match descriptor, out with
  | some bytes, some _ =>
    if bytes.length = 0 then some (.errArgument,out)
    else match parseItems bytes (bytes.length + 1) 0 .zero >>= contractOf with
      | .ok contract => some (.ok,some contract)
      | .error (.rejected status) => some (status,some .zero)
      | .error .outside => none
  | _, _ => some (.errArgument,out)

/-- The identifier of a report that is accepted; there is no answer if the check reads outside of the report. -/
def inputReportValid (contract : Option InputContract) (report : Option (List Byte)) : Option (Option Byte) :=
  match contract, report with
  | some contract, some report =>
    if contract.valid = false ∨ report.length = 0 then some none
    else (if contract.usesReportIds then report[0]? else some 0).bind (fun id =>
      if contract.bytesById id.toNat = 0 ∨ (contract.bytesById id.toNat).toNat ≠ report.length then some none
      else some (some id))
  | _, _ => some none

end WindowsOnM1.Hid
