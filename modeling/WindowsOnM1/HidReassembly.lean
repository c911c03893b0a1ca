import WindowsOnM1.RecordLayout

/-!
The reassembly of SPI-HID messages: every packet carries a part of a message, and a
message is complete with the packet behind which nothing remains.
-/
namespace WindowsOnM1.Hid
open ByteMemory RecordLayout

/-- `ai_status`. -/
inductive Status
  | ok | complete | errArgument | errCrc | errLength | errSequence | errTimeout | errProtocol
  deriving DecidableEq
abbrev maxMessageSize : Nat := 2048
abbrev packetDataSize : Nat := 246

structure PacketView where
  flags : Byte
  device : Byte
  offset : BitVec 16
  remaining : BitVec 16
  length : BitVec 16
  data : Option Memory

/-- The data of a message lie in the reassembler; these are its bytes when the message was completed. -/
structure MessageView where
  flags : Byte
  device : Byte
  data : Memory
  length : BitVec 64

structure Reassembler where
  active : Bool
  flags : Byte
  device : Byte
  used : BitVec 64
  total : BitVec 64
  data : Memory

/-- The arguments of a push: which of the pointers to the state and to the message are given, and the packet. -/
structure Call where
  state : Bool
  packet : Option PacketView
  message : Bool

def reassemblerReset : Reassembler := ⟨false,0,0,0,0,fun _ => 0⟩

/-- A copy into the data of the reassembler; it fails where it leaves them, or has no source. -/
def copyIn (data : Memory) (offset : Nat) (source : Option Memory) (count : Nat) : Option Memory :=
  if offset + count ≤ maxMessageSize then source.map (copyTo data offset · count) else none

namespace PacketView

def last (packet : PacketView) : BitVec 64 := packet.offset.setWidth 64 + packet.length.setWidth 64
def total (packet : PacketView) : BitVec 64 := packet.last + packet.remaining.setWidth 64

/-- The bytes that a packet carries. -/
def bytes (packet : PacketView) : List Byte := slice (packet.data.getD (fun _ => 0)) 0 packet.length.toNat

end PacketView

def MessageView.bytes (message : MessageView) : List Byte := slice message.data 0 message.length.toNat

/-- The state with which a packet goes on: a first packet starts anew, a later one has to match. -/
def admitted (state : Reassembler) (packet : PacketView) : Option Reassembler :=
  if packet.offset = 0 then
    some { state with active := true, flags := packet.flags, device := packet.device, used := 0, total := packet.total }
  else if state.active = false ∨ packet.flags ≠ state.flags ∨ packet.device ≠ state.device ∨
      packet.offset.setWidth 64 ≠ state.used ∨ packet.total ≠ state.total then none
  else some state

/-- The data behind a packet; one without bytes copies nothing. -/
def packetData (data : Memory) (packet : PacketView) : Option Memory :=
  if packet.length ≠ 0 then copyIn data packet.offset.toNat packet.data packet.length.toNat else some data

/-- What a push answers, the message it completes, and the state behind it. -/
def reassemblerPush (call : Call) (state : Reassembler) : Option (Status × Option MessageView × Reassembler) :=
  match call.packet with
  | none => some (.errArgument,none,state)
  | some packet =>
    if call.state = false ∨ call.message = false ∨ (packet.length ≠ 0 ∧ packet.data.isNone) then
      some (.errArgument,none,state)
    else if packet.last < packet.offset.setWidth 64 ∨ packet.total < packet.last ∨ packet.total.toNat > maxMessageSize ∨
        packet.length.toNat > packetDataSize then
      some (.errLength,none,reassemblerReset)
    else match admitted state packet with
      | none => some (.errSequence,none,reassemblerReset)
      | some state => do
        let data ← packetData state.data packet
        let state := { state with data := data, used := packet.last }
        if packet.remaining ≠ 0 then some (.ok,none,state)
        else if state.used ≠ state.total then some (.errSequence,none,reassemblerReset)
        else some (.complete,some ⟨state.flags,state.device,state.data,state.total⟩,{ state with active := false })

/-- A sequence of pushes: their answers, with the messages, and the state behind the last. -/
def pushAll : List Call → Reassembler → Option (List (Status × Option MessageView) × Reassembler)
  | [], state => some ([],state)
  | call :: rest, state => do
    let (status,message,state) ← reassemblerPush call state
    let (answers,state) ← pushAll rest state
    some ((status,message) :: answers,state)

/-- The packet of a call whose arguments are in order. -/
def Call.given (call : Call) : Option PacketView :=
  call.packet.filter (fun packet => call.state && call.message && (packet.length == 0 || packet.data.isSome))

/-- The packets of a sequence of calls; a call without its arguments has none. -/
def given (calls : List Call) : List PacketView := calls.filterMap Call.given

/-- The packets since the last one with offset zero. -/
def sinceInitial (packets : List PacketView) : List PacketView :=
  packets.foldl (fun kept packet => if packet.offset = 0 then [packet] else kept ++ [packet]) []

/-- Packets that carry one message, one part behind the other; behind all but the last one something remains. -/
structure Unbroken (packets : List PacketView) : Prop where
  placed : ∀ before packet after, packets = before ++ packet :: after →
    packet.offset.toNat = (before.map (·.length.toNat)).sum
  alike : ∀ packet ∈ packets, ∀ other ∈ packets, packet.flags = other.flags ∧ packet.device = other.device ∧
    packet.offset.toNat + packet.length.toNat + packet.remaining.toNat =
      other.offset.toNat + other.length.toNat + other.remaining.toNat
  fitting : ∀ packet ∈ packets, packet.length.toNat ≤ packetDataSize ∧
    packet.offset.toNat + packet.length.toNat + packet.remaining.toNat ≤ maxMessageSize
  remains : ∀ packet ∈ packets.dropLast, packet.remaining ≠ 0

/-- The flags, the device and the bytes of a message. -/
def MessageView.content (message : MessageView) : Byte × Byte × List Byte := (message.flags,message.device,message.bytes)

/-- The messages that a sequence of pushes completes. -/
def completed (answers : List (Status × Option MessageView)) : List (Byte × Byte × List Byte) :=
  answers.filterMap (·.2.map MessageView.content)

/-- Calls that push the parts of a message in order, from an offset on: one packet for each part. -/
def Carries (flags device : Byte) (offset : Nat) : List (List Byte) → List Call → Prop
  | [], [] => True
  | part :: rest, call :: calls =>
    (∃ packet, call.given = some packet ∧ packet.flags = flags ∧ packet.device = device ∧ packet.bytes = part ∧
      packet.offset.toNat = offset ∧ packet.remaining.toNat = rest.flatten.length) ∧
      Carries flags device (offset + part.length) rest calls
  | _, _ => False

end WindowsOnM1.Hid
