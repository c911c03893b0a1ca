import WindowsOnM1.CountedLoop
import WindowsOnM1.HidReassembly
import WindowsOnM1.ReflectedCrc

/-!
The packets of the SPI-HID transport and the messages in them, each with a check sum at its end: what
is encoded is decoded again, and a packet or a message with a short burst of damage is refused.
The pointers are given.
-/
namespace WindowsOnM1.Hid
open ByteMemory CountedLoop RecordLayout ReflectedCrc List Function
open BitVec hiding not_or

abbrev packetSize : Nat := 256
abbrev packetWrite : Byte := 0x40

abbrev crcPoly : BitVec 16 := 0xa001
def crcBit (crc : BitVec 16) : BitVec 16 := if crc &&& 1 ≠ 0 then (crc >>> 1) ^^^ crcPoly else crc >>> 1
def crcByte (crc : BitVec 16) (byte : Byte) : BitVec 16 := forRange (fun _ => crcBit) 0 8 (crc ^^^ byte.setWidth 16)
def crc16Usb (seed : BitVec 16) (data : List Byte) : BitVec 16 := data.foldl crcByte seed

/-- What a packet says, and where its data lie in it. -/
structure DecodedPacket where
  flags : Byte
  device : Byte
  offset : BitVec 16
  remaining : BitVec 16
  length : BitVec 16
  data : Nat

def packetDecode (raw : Memory) : Except Status DecodedPacket :=
  if crc16Usb 0 (slice raw 0 (packetSize - 2)) ≠ u16At raw (packetSize - 2) then .error .errCrc
  else if (u16At raw 6).toNat > packetDataSize then .error .errLength
  else .ok ⟨raw 0,raw 1,u16At raw 2,u16At raw 4,u16At raw 6,8⟩

/-- What a message says, and where its payload lies in it. -/
structure ProtocolMessage where
  type : Byte
  report : Byte
  device : Byte
  id : Byte
  responseLength : BitVec 16
  payload : Nat
  payloadLength : BitVec 16

def messageDecode (raw : Memory) (size : Nat) : Except Status ProtocolMessage :=
  if size < 10 then .error .errLength
  else
    let payloadLength := u16At raw 6
    let expected : BitVec 64 := payloadLength.setWidth 64 + 10
    if expected < payloadLength.setWidth 64 ∨ size ≠ expected.toNat then .error .errLength
    else if crc16Usb 0 (slice raw 0 (size - 2)) ≠ u16At raw (size - 2) then .error .errCrc
    else .ok ⟨raw 0,raw 1,raw 2,raw 3,u16At raw 4,8,payloadLength⟩

structure DiscoveryRequest where
  target : Byte
  type : Byte
  report : Byte
  device : Byte
  responseLength : BitVec 16

inductive TrackpadInitPhase
  | idle | dimensions | multitouch | ready | offline
deriving DecidableEq
def putLe16 (memory : Memory) (offset : Nat) (value : BitVec 16) : Memory :=
  Function.update (Function.update memory offset (value.setWidth 8)) (offset + 1) ((value >>> 8).setWidth 8)

/-- The check sum of a message in a packet, behind it. -/
def putMessageCrc (raw : Memory) (size : Nat) : Memory := putLe16 raw (8 + size - 2) (crc16Usb 0 (slice raw 8 (size - 2)))
def putPacketCrc (raw : Memory) : Memory := putLe16 raw (packetSize - 2) (crc16Usb 0 (slice raw 0 (packetSize - 2)))

def discoveryRequestEncode (request : DiscoveryRequest) (messageId : Byte) : Memory :=
  let raw : Memory := fun _ => 0
  let raw := Function.update raw 0 packetWrite
  let raw := Function.update raw 1 request.target
  let raw := putLe16 raw 6 10
  let raw := Function.update raw 8 request.type
  let raw := Function.update raw 9 request.report
  let raw := Function.update raw 10 request.device
  let raw := Function.update raw 11 messageId
  let raw := putLe16 raw 12 request.responseLength
  let raw := putLe16 raw 14 0
  putPacketCrc (putMessageCrc raw 10)

def trackpadInitRequestEncode (phase : TrackpadInitPhase) (messageId : Byte) : Except Status Memory :=
  if phase ≠ .dimensions ∧ phase ≠ .multitouch then .error .errSequence
  else
    let raw : Memory := fun _ => 0
    let raw := Function.update raw 0 packetWrite
    let raw := Function.update raw 1 0x02
    let (raw,messageSize) :=
      if phase = .dimensions then
        let raw := Function.update raw 8 0x32
        let raw := Function.update raw 9 0xd9
        let raw := Function.update raw 10 0x00
        let raw := Function.update raw 11 messageId
        (putLe16 raw 12 0x0020,10)
      else
        let raw := Function.update raw 8 0x52
        let raw := Function.update raw 9 0x02
        let raw := Function.update raw 11 messageId
        let raw := putLe16 raw 12 2
        let raw := putLe16 raw 14 2
        (putLe16 raw 16 0x0102,12)
    let raw := putLe16 raw 6 (BitVec.ofNat 16 messageSize)
    .ok (putPacketCrc (putMessageCrc raw messageSize))

/-- The bits of bytes in the order of their transmission. -/
def bits (data : List Byte) : List Bool := data.flatMap (bitsOf 8)

variable (crc : BitVec 16)

private theorem crcBit_eq : crcBit crc = step crcPoly crc := by
  refine if_congr ?_ rfl rfl
  have low : crc &&& 1 = (ofBool (crc.getLsbD 0)).setWidth 16 := and_one_eq_setWidth_ofBool_getLsbD
  rw [low]
  cases crc.getLsbD 0 <;> decide

private theorem crcByte_eq (byte : Byte) : crcByte crc byte = feed crcPoly crc (bitsOf 8 byte) := by
  have turns : (fun (_ : Nat) => crcBit) = fun _ => step crcPoly := funext fun _ => funext crcBit_eq
  have bits : bitsOf 8 (byte.setWidth 16) = bitsOf 8 byte := by
    refine map_congr_left (fun i mem => ?_)
    have inside := mem_range.mp mem
    rw [getLsbD_setWidth,decide_eq_true (by omega),Bool.true_and]
  have above : byte.setWidth 16 >>> 8 = 0 := by
    refine eq_of_toNat_eq ?_
    have low := byte.isLt
    rw [toNat_ushiftRight,toNat_setWidth,Nat.mod_eq_of_lt (by omega),Nat.shiftRight_eq_div_pow]
    exact Nat.div_eq_of_lt low
  have all := @steps_xor _ crcPoly 8 crc (byte.setWidth 16)
  rw [bits,above] at all
  rw [crcByte,turns]
  exact all.trans xor_zero

private theorem crc16Usb_eq (seed : BitVec 16) (data : List Byte) : crc16Usb seed data = feed crcPoly seed (bits data) := by
  induction data generalizing seed with
  | nil => rfl
  | cons byte rest ih =>
  rw [bits,flatMap_cons,feed_append,← crcByte_eq]
  exact ih _

variable (memory : Memory) (offset : Nat)

private theorem bits_u16At : bits (slice memory offset 2) = bitsOf 16 (u16At memory offset) := by
  have bytes : bits (slice memory offset 2) = bitsOf 8 (memory offset) ++ bitsOf 8 (memory (offset + 1)) :=
    congrArg (bitsOf 8 (memory offset) ++ ·) (append_nil _)
  refine bytes.trans (Eq.trans ?_ (bitsOf_add 8 8 (u16At memory offset)).symm)
  refine congrArg₂ (· ++ ·) (map_congr_left fun i mem => ?_) (map_congr_left fun i mem => ?_)
  · rw [u16At,getLsbD_append,if_pos (mem_range.mp mem)]
  rw [u16At,getLsbD_ushiftRight,getLsbD_append,if_neg (by omega),Nat.add_sub_cancel_left]

theorem crc_closed {memory : Memory} {size : Nat} (sum : crc16Usb 0 (slice memory 0 size) = u16At memory size) :
    feed crcPoly 0 (bits (slice memory 0 (size + 2))) = 0 := by
  rw [slice_append,Nat.zero_add,bits,flatMap_append,feed_append]
  change feed crcPoly (feed crcPoly 0 (bits (slice memory 0 size))) (bits (slice memory size 2)) = 0
  rw [← crc16Usb_eq 0 (slice memory 0 size),bits_u16At,sum]
  exact feed_own _

variable {raw : Memory} {packet : DecodedPacket}

theorem packetDecode_sum (decoded : packetDecode raw = .ok packet) :
    feed crcPoly 0 (bits (slice raw 0 packetSize)) = 0 := by
  refine @crc_closed raw (packetSize - 2) (by_contra fun apart => ?_)
  rw [packetDecode,if_pos apart] at decoded
  cases decoded

variable {size : Nat} {message : ProtocolMessage}

theorem messageDecode_sum (decoded : messageDecode raw size = .ok message) :
    feed crcPoly 0 (bits (slice raw 0 size)) = 0 := by
  unfold messageDecode at decoded
  dsimp only at decoded
  split at decoded
  · cases decoded
  split at decoded
  · cases decoded
  split at decoded
  · cases decoded
  rename_i long _ sum
  have closed := crc_closed (not_not.mp sum)
  rwa [Nat.sub_add_cancel (by omega)] at closed

theorem high_bit : crcPoly.getLsbD (16 - 1) = true := by decide

private theorem packetDecode_damaged {damaged : Memory} (decoded : packetDecode raw = .ok packet)
    (burst : Burst 16 (bits (slice raw 0 packetSize)) (bits (slice damaged 0 packetSize))) :
    ∃ status, packetDecode damaged = .error status := by
  cases result : packetDecode damaged with
  | error status => exact ⟨status,rfl⟩
  | ok other =>
  exact absurd ((packetDecode_sum decoded).trans (packetDecode_sum result).symm) (burst.detected high_bit 0)

private theorem messageDecode_damaged {damaged : Memory}
    (decoded : messageDecode raw size = .ok message) (burst : Burst 16 (bits (slice raw 0 size)) (bits (slice damaged 0 size))) :
    ∃ status, messageDecode damaged size = .error status := by
  cases result : messageDecode damaged size with
  | error status => exact ⟨status,rfl⟩
  | ok other =>
  exact absurd ((messageDecode_sum decoded).trans (messageDecode_sum result).symm) (burst.detected high_bit 0)

private theorem packetDecode_within (decoded : packetDecode raw = .ok packet) :
    packet.data + packet.length.toNat ≤ packetSize := by
  unfold packetDecode at decoded
  split at decoded
  · cases decoded
  split at decoded
  · cases decoded
  cases decoded
  rename_i short
  unfold packetDataSize at short
  change 8 + (u16At raw 6).toNat ≤ 256
  omega

theorem expected_toNat (payloadLength : BitVec 16) :
    (payloadLength.setWidth 64 + 10 : BitVec 64).toNat = payloadLength.toNat + 10 := by
  exact Nat.mod_eq_of_lt (by change payloadLength.toNat + 10 < _; omega)

private theorem messageDecode_within (decoded : messageDecode raw size = .ok message) :
    message.payload + message.payloadLength.toNat ≤ size := by
  unfold messageDecode at decoded
  dsimp only at decoded
  split at decoded
  · cases decoded
  split at decoded
  · cases decoded
  split at decoded
  · cases decoded
  cases decoded
  rename_i _ expected _
  have length := not_not.mp (not_or.mp expected).2
  rw [expected_toNat] at length
  change 8 + (u16At raw 6).toNat ≤ size
  omega

variable (value : BitVec 16)

theorem bytes_joined : ((value >>> 8).setWidth 8 : Byte) ++ (value.setWidth 8 : Byte) = value := by
  refine eq_of_getLsbD_eq (fun i inside => ?_)
  rw [getLsbD_append,getLsbD_setWidth,getLsbD_setWidth,getLsbD_ushiftRight]
  by_cases low : i < 8
  · simp [low]
  simp [low,show i - 8 < 8 by omega,show 8 + (i - 8) = i by omega]

theorem u16At_putLe16 : u16At (putLe16 memory offset value) offset = value := by
  rw [u16At,putLe16,update_self,update_of_ne (Nat.ne_of_lt (Nat.lt_succ_self _)),update_self]
  exact bytes_joined value
theorem putLe16_outside {offset i : Nat} (outside : i < offset ∨ offset + 2 ≤ i) :
    putLe16 memory offset value i = memory i := by
  rw [putLe16,update_of_ne (by omega),update_of_ne (by omega)]
private theorem slice_shifted (base size : Nat) : slice (fun i => memory (base + i)) 0 size = slice memory base size :=
  map_congr_left (fun i _ => by rw [Nat.zero_add])
theorem u16At_shifted (base offset : Nat) : u16At (fun i => memory (base + i)) offset = u16At memory (base + offset) := rfl

private theorem packetDecode_put {raw : Memory} (short : (u16At raw 6).toNat ≤ packetDataSize) :
    packetDecode (putPacketCrc raw) = .ok ⟨raw 0,raw 1,u16At raw 2,u16At raw 4,u16At raw 6,8⟩ := by
  have kept (i : Nat) (inside : i < packetSize - 2) : putPacketCrc raw i = raw i := putLe16_outside raw _ (.inl inside)
  have words (i : Nat) (inside : i + 1 < packetSize - 2) : u16At (putPacketCrc raw) i = u16At raw i := by
    rw [u16At,u16At,kept _ inside,kept _ (by omega)]
  have same : slice (putPacketCrc raw) 0 (packetSize - 2) = slice raw 0 (packetSize - 2) :=
    slice_congr (fun i _ inside => kept i (by omega))
  rw [packetDecode,same,putPacketCrc,u16At_putLe16,if_neg (not_not.mpr rfl)]
  change (if (u16At (putPacketCrc raw) 6).toNat > _ then _ else Except.ok (DecodedPacket.mk (putPacketCrc raw 0)
    (putPacketCrc raw 1) (u16At (putPacketCrc raw) 2) (u16At (putPacketCrc raw) 4) (u16At (putPacketCrc raw) 6) 8)) = _
  rw [words 2 (by decide),words 4 (by decide),words 6 (by decide),kept 0 (by decide),kept 1 (by decide),
    if_neg (Nat.not_lt.mpr short)]

private theorem messageDecode_put (payload : (u16At raw 14).toNat + 10 = size) (short : size ≤ packetDataSize) :
    messageDecode (fun i => putPacketCrc (putMessageCrc raw size) (8 + i)) size =
      .ok ⟨raw 8,raw 9,raw 10,raw 11,u16At raw 12,8,u16At raw 14⟩ := by
  unfold packetDataSize at short
  have behind (i : Nat) (inside : 8 + i < packetSize - 2) :
      putPacketCrc (putMessageCrc raw size) (8 + i) = putMessageCrc raw size (8 + i) := putLe16_outside _ _ (.inl inside)
  have kept (i : Nat) (inside : i < size - 2) : putPacketCrc (putMessageCrc raw size) (8 + i) = raw (8 + i) := by
    rw [behind i (by change 8 + i < 254; omega)]
    exact putLe16_outside raw _ (.inl (by omega))
  have words (i : Nat) (inside : i + 1 < size - 2) :
      u16At (fun i => putPacketCrc (putMessageCrc raw size) (8 + i)) i = u16At raw (8 + i) := by
    rw [u16At_shifted,u16At,u16At,Nat.add_assoc,kept _ inside,kept _ (by omega)]
  have sum : u16At (fun i => putPacketCrc (putMessageCrc raw size) (8 + i)) (size - 2) = crc16Usb 0 (slice raw 8 (size - 2)) := by
    rw [u16At_shifted,u16At,Nat.add_assoc,behind _ (by change 8 + (size - 2 + 1) < 254; omega),
      behind _ (by change 8 + (size - 2) < 254; omega),← Nat.add_assoc,show 8 + (size - 2) = 8 + size - 2 by omega]
    exact u16At_putLe16 raw (8 + size - 2) _
  have data : slice (fun i => putPacketCrc (putMessageCrc raw size) (8 + i)) 0 (size - 2) = slice raw 8 (size - 2) := by
    rw [← slice_shifted raw]
    exact slice_congr (fun i _ inside => kept i (by omega))
  have length := words 6 (by omega)
  rw [messageDecode,if_neg (by omega)]
  rw [length,sum,data,if_neg ?_,if_neg (not_not.mpr rfl)]
  · rw [kept 0 (by omega),kept 1 (by omega),kept 2 (by omega),kept 3 (by omega),words 4 (by omega)]
  rw [not_or,lt_def,expected_toNat,toNat_setWidth,Nat.mod_eq_of_lt (by omega)]
  exact ⟨by omega,not_not.mpr payload.symm⟩

/-- A packet that decodes to a message. -/
def Framed (raw : Memory) (packet : DecodedPacket) (message : ProtocolMessage) : Prop :=
  packetDecode raw = .ok packet ∧ messageDecode (fun i => raw (packet.data + i)) packet.length.toNat = .ok message

theorem framed_put
    (payload : (u16At raw 14).toNat + 10 = size) (length : (u16At raw 6).toNat = size) (short : size ≤ packetDataSize)
    (packetFields : packet = ⟨raw 0,raw 1,u16At raw 2,u16At raw 4,u16At raw 6,8⟩)
    (messageFields : message = ⟨raw 8,raw 9,raw 10,raw 11,u16At raw 12,8,u16At raw 14⟩) :
    Framed (putPacketCrc (putMessageCrc raw size)) packet message := by
  subst packetFields messageFields
  have kept (i : Nat) (inside : i < 8) : putMessageCrc raw size i = raw i := putLe16_outside raw _ (.inl (by omega))
  have words (i : Nat) (inside : i + 1 < 8) : u16At (putMessageCrc raw size) i = u16At raw i := by
    rw [u16At,u16At,kept _ inside,kept _ (by omega)]
  have decoded := @packetDecode_put (putMessageCrc raw size) (by rw [words 6 (by decide),length]; exact short)
  rw [words 2 (by decide),words 4 (by decide),words 6 (by decide),kept 0 (by decide),kept 1 (by decide)] at decoded
  refine ⟨decoded,?_⟩
  rw [length]
  exact messageDecode_put payload short

private theorem payload_kept (raw : Memory) {i : Nat} (inside : i + 1 < 8 + size - 2) (short : size ≤ packetDataSize) :
    u16At (putPacketCrc (putMessageCrc raw size)) i = u16At raw i := by
  unfold packetDataSize at short
  have kept (place : Nat) (inside : place < 8 + size - 2) : putPacketCrc (putMessageCrc raw size) place = raw place :=
    (putLe16_outside _ _ (.inl (by change place < 254; omega))).trans (putLe16_outside raw _ (.inl inside))
  rw [u16At,u16At,kept _ inside,kept _ (by omega)]

private theorem discoveryRequest_framed (request : DiscoveryRequest) (messageId : Byte) :
    Framed (discoveryRequestEncode request messageId) ⟨packetWrite,request.target,0,0,10,8⟩
      ⟨request.type,request.report,request.device,messageId,request.responseLength,8,0⟩ := by
  refine framed_put ?_ ?_ (by decide) ?_ ?_ <;> simp [u16At,putLe16,bytes_joined]

theorem trackpadInitRequest_framed (messageId : Byte) :
    (∃ raw, trackpadInitRequestEncode .dimensions messageId = .ok raw ∧
        Framed raw ⟨packetWrite,2,0,0,10,8⟩ ⟨0x32,0xd9,0,messageId,0x20,8,0⟩) ∧
      ∃ raw, trackpadInitRequestEncode .multitouch messageId = .ok raw ∧
        Framed raw ⟨packetWrite,2,0,0,12,8⟩ ⟨0x52,0x02,0,messageId,2,8,2⟩ ∧ u16At raw 16 = 0x0102 := by
  refine ⟨⟨_,rfl,framed_put ?_ ?_ (by decide) ?_ ?_⟩,
    ⟨_,rfl,framed_put ?_ ?_ (by decide) ?_ ?_,(payload_kept _ (by decide) (by decide)).trans ?_⟩⟩
  all_goals simp [u16At,putLe16]

/-- The packets of all requests are decoded to what was encoded, and so are the messages in them; a phase without a request
has none. A packet or a message that differs from an accepted one within sixteen bits is refused, and what is accepted
lies inside. -/
theorem packet_framing :
    (∀ request messageId, Framed (discoveryRequestEncode request messageId) ⟨packetWrite,request.target,0,0,10,8⟩
      ⟨request.type,request.report,request.device,messageId,request.responseLength,8,0⟩) ∧
    (∀ messageId, ∃ raw, trackpadInitRequestEncode .dimensions messageId = .ok raw ∧
      Framed raw ⟨packetWrite,2,0,0,10,8⟩ ⟨0x32,0xd9,0,messageId,0x20,8,0⟩) ∧
    (∀ messageId, ∃ raw, trackpadInitRequestEncode .multitouch messageId = .ok raw ∧
      Framed raw ⟨packetWrite,2,0,0,12,8⟩ ⟨0x52,0x02,0,messageId,2,8,2⟩ ∧ u16At raw 16 = 0x0102) ∧
    (∀ phase messageId, phase ≠ .dimensions → phase ≠ .multitouch →
      trackpadInitRequestEncode phase messageId = .error .errSequence) ∧
    (∀ raw packet, packetDecode raw = .ok packet → packet.data + packet.length.toNat ≤ packetSize ∧
      ∀ damaged, Burst 16 (bits (slice raw 0 packetSize)) (bits (slice damaged 0 packetSize)) →
        ∃ status, packetDecode damaged = .error status) ∧
    ∀ raw size message, messageDecode raw size = .ok message → message.payload + message.payloadLength.toNat ≤ size ∧
      ∀ damaged, Burst 16 (bits (slice raw 0 size)) (bits (slice damaged 0 size)) →
        ∃ status, messageDecode damaged size = .error status :=
  ⟨discoveryRequest_framed,fun messageId => (trackpadInitRequest_framed messageId).1,
    fun messageId => (trackpadInitRequest_framed messageId).2,fun _ _ dimensions multitouch => if_pos ⟨dimensions,multitouch⟩,
    fun _ _ decoded => ⟨packetDecode_within decoded,fun _ burst => packetDecode_damaged decoded burst⟩,
    fun _ _ _ decoded => ⟨messageDecode_within decoded,fun _ burst => messageDecode_damaged decoded burst⟩⟩

end WindowsOnM1.Hid
