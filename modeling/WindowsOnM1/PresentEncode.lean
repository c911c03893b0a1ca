import Mathlib.Data.List.GetD
import WindowsOnM1.PresentBlit

/-!
The encoder of the present packets, which splits a blit at the capacity of its buffers. What
it puts into a packet is what the packet is validated to hold.
-/
namespace WindowsOnM1.PresentEncode
open ByteMemory PresentModel PresentBlit List
open BitVec hiding not_not not_or

def rectWords (rect : GdiRect) : List U32 := [rect.left,rect.top,rect.right,rect.bottom]
def descriptionWords (description : AllocationDescription) : List U32 :=
  [description.magic,description.version,description.type,description.format,description.width,description.height,
    description.pitch,description.bytesPerPixel,description.size.setWidth 32,(description.size >>> 32).setWidth 32,
    description.cpuVisible,description.reserved]

def commandWords (command : PresentBltCommand) : List U32 :=
  [command.magic,command.version,command.bytes,command.rectCount] ++ descriptionWords command.sourceDescription ++
    descriptionWords command.destinationDescription ++ rectWords command.sourceRect ++ rectWords command.destinationRect ++
    [command.sourceLocation.setWidth 32,(command.sourceLocation >>> 32).setWidth 32,
      command.destinationLocation.setWidth 32,(command.destinationLocation >>> 32).setWidth 32,
      command.contextToken.setWidth 32,(command.contextToken >>> 32).setWidth 32]

/-- The bytes of a command and of the rectangles behind it. -/
def packetBytes (command : PresentBltCommand) (rects : List GdiRect) : List Byte :=
  wordBytes (commandWords command ++ rects.flatMap rectWords)

variable (rects : List GdiRect)

private theorem rectWords_length : (rects.flatMap rectWords).length = rects.length * 4 := by
  induction rects with
  | nil => rfl
  | cons rect rest ih =>
  simp only [flatMap_cons,length_append,rectWords,length_cons,length_nil] at ih ⊢
  omega

variable (command : PresentBltCommand)

private theorem packetBytes_length (rects : List GdiRect) :
    (packetBytes command rects).length = commandBytes + rects.length * rectBytes := by
  rw [packetBytes,wordBytes_length,length_append,rectWords_length]
  simp only [commandWords,descriptionWords,rectWords,length_append,length_cons,length_nil]
  rw [commandBytes,rectBytes]
  omega

theorem commandAt_packetBytes (rects : List GdiRect) : commandAt (contents (packetBytes command rects)) = command := by
  simp only [commandAt,descriptionAt,rectAt,packetBytes,u32At_wordBytes,u64At_wordBytes,commandWords,descriptionWords,rectWords]
  simp [halves_joined]

private theorem rectWords_getD {index word : Nat} (below : index < rects.length) (small : word < 4)
    (default : GdiRect) : (rects.flatMap rectWords).getD (index * 4 + word) 0 = (rectWords (rects.getD index default)).getD word 0 := by
  induction rects generalizing index with
  | nil => exact absurd below (Nat.not_lt_zero _)
  | cons rect rest ih =>
  cases index with
  | zero =>
    rw [Nat.zero_mul,Nat.zero_add,flatMap_cons,getD_append _ _ _ _ small]
    rfl
  | succ index =>
  rw [flatMap_cons,getD_append_right _ _ _ _ (by simp only [rectWords,length_cons,length_nil]; omega),
    getD_cons_succ,← ih (Nat.lt_of_succ_lt_succ below)]
  congr 1
  simp only [rectWords,length_cons,length_nil]
  omega

theorem bufferRect_packetBytes (rects : List GdiRect) {index : Nat} (below : index < rects.length)
    (default : GdiRect) : bufferRect (contents (packetBytes command rects)) index = rects.getD index default := by
  have words : (commandWords command).length = 42 := rfl
  have word : ∀ k < 4, u32At (contents (packetBytes command rects)) (commandBytes + index * rectBytes + k * 4) =
      (rectWords (rects.getD index default)).getD k 0 := by
    intro k small
    rw [packetBytes,u32At_wordBytes _ (by rw [commandBytes,rectBytes]; omega),
      getD_append_right _ _ _ _ (by rw [words,commandBytes,rectBytes]; omega),← rectWords_getD rects below small default]
    congr 1
    rw [words,commandBytes,rectBytes]
    omega
  rw [bufferRect,rectAt]
  have left := word 0 (by decide)
  have top := word 1 (by decide)
  have right := word 2 (by decide)
  have bottom := word 3 (by decide)
  simp only [Nat.zero_mul,Nat.add_zero,Nat.one_mul,Nat.reduceMul] at left top right bottom
  rw [left,top,right,bottom]
  rfl

/-- `ADMISSION_PRESENT_BLT_INPUT`: the rectangles are an array whose length is a word. -/
structure PresentBltInput where
  command : PresentBltCommand
  rects : List GdiRect
  counted : rects.length < 2 ^ 32
  multipassOffset : U32
  sameAllocation : U32

def PresentBltInput.rectCount (input : PresentBltInput) : U32 := BitVec.ofNat 32 input.rects.length
theorem PresentBltInput.rectCount_toNat (input : PresentBltInput) : input.rectCount.toNat = input.rects.length := by
  have counted := input.counted
  rw [PresentBltInput.rectCount,toNat_ofNat,Nat.mod_eq_of_lt counted]

/-- `ADMISSION_PRESENT_BLT_VERSION` and `ADMISSION_PRESENT_BLT_GPUVA_VERSION`. -/
abbrev presentVersion : U32 := 1
abbrev presentGpuvaVersion : U32 := 2

/-- The rectangles of the source and of the destination overlap without being the same. -/
def shiftedOverlap (command : PresentBltCommand) : Bool :=
  (command.sourceRect.left != command.destinationRect.left || command.sourceRect.top != command.destinationRect.top) &&
    command.sourceRect.left < command.destinationRect.right && command.destinationRect.left < command.sourceRect.right &&
    command.sourceRect.top < command.destinationRect.bottom && command.destinationRect.top < command.sourceRect.bottom

/-- The command of a packet with some of the rectangles. -/
def packetCommand (input : PresentBltInput) (count : U32) : PresentBltCommand :=
  { input.command with
    magic := presentMagic
    version := if input.command.version = presentGpuvaVersion then presentGpuvaVersion else presentVersion
    rectCount := count
    bytes := 168 + count * 16 }

/-- The rectangles of a packet of a capacity. -/
def packetCount (input : PresentBltInput) (capacity : U32) : U32 :=
  let clamped := if 4096 < capacity then 4096 else capacity
  let fitting := (clamped - 168) / 16
  if input.rectCount - input.multipassOffset < fitting then input.rectCount - input.multipassOffset else fitting

/-- `AdmissionPresentBltEncode`: the used bytes of the buffer and the next rectangle. -/
def presentBltEncode (input : PresentBltInput) (capacity : U32) : Option (List Byte × U32) :=
  if input.rectCount = 0 ∨ 0xffffffff / 16 < input.rectCount ∨ input.rectCount ≤ input.multipassOffset ∨
      ¬ geometryValid input.command ∨ capacity < 168 + 16 then none
  else if ¬ input.rects.all (rectContains input.command.destinationRect) then none
  else
    let count := packetCount input capacity
    if input.sameAllocation ≠ 0 ∧ count < input.rectCount ∧ shiftedOverlap input.command then none
    else some (packetBytes (packetCommand input count) ((input.rects.drop input.multipassOffset.toNat).take count.toNat),
      input.multipassOffset + count)

/-- What an accepted call of the encoder says about its input and its packet. -/
structure Encoded (input : PresentBltInput) (packet : List Byte) (next : U32) (count : Nat) : Prop where
  positive : 0 < count
  room : input.multipassOffset.toNat + count ≤ input.rects.length
  fits : commandBytes + count * rectBytes ≤ 4096
  few : input.rects.length ≤ 0xffffffff / 16
  geometry : geometryValid input.command = true
  contained : ∀ rect ∈ input.rects, rectContains input.command.destinationRect rect = true
  packet : packet = packetBytes (packetCommand input (BitVec.ofNat 32 count))
    ((input.rects.drop input.multipassOffset.toNat).take count)
  next : next.toNat = input.multipassOffset.toNat + count
  steady : input.sameAllocation = 0 ∨ count = input.rects.length ∨ shiftedOverlap input.command = false

variable {input : PresentBltInput} {capacity : U32}

private theorem packetCount_toNat (before : input.multipassOffset.toNat < input.rects.length)
    (enough : 184 ≤ capacity.toNat) : (packetCount input capacity).toNat =
      min (input.rects.length - input.multipassOffset.toNat) ((min 4096 capacity.toNat - 168) / 16) := by
  have count := input.rectCount_toNat
  have left : (input.rectCount - input.multipassOffset).toNat = input.rects.length - input.multipassOffset.toNat := by
    rw [sub_toNat (by omega),count]
  have clamped : (if 4096 < capacity then 4096 else capacity : U32).toNat = min 4096 capacity.toNat := by
    split_ifs with large
    · have above := lt_def.mp large
      rw [show (4096 : U32).toNat = 4096 from rfl] at above ⊢
      omega
    have below := BitVec.not_lt.mp large
    rw [le_def,show (4096 : U32).toNat = 4096 from rfl] at below
    omega
  have fitting : (((if 4096 < capacity then 4096 else capacity) - 168) / 16 : U32).toNat = (min 4096 capacity.toNat - 168) / 16 := by
    rw [toNat_udiv,sub_toNat (by rw [clamped,show (168 : U32).toNat = 168 from rfl]; omega),clamped]
    rfl
  unfold packetCount
  by_cases less : input.rectCount - input.multipassOffset < ((if 4096 < capacity then 4096 else capacity) - 168) / 16
  · rw [if_pos less,left]
    rw [lt_def,left,fitting] at less
    omega
  rw [if_neg less,fitting]
  rw [lt_def,left,fitting] at less
  omega

variable {packet : List Byte}

theorem presentBltEncode_encoded {next : U32}
    (encoded : presentBltEncode input capacity = some (packet,next)) : ∃ count, Encoded input packet next count := by
  unfold presentBltEncode at encoded
  dsimp only at encoded
  split_ifs at encoded with wrong contained split
  obtain ⟨isPacket,isNext⟩ := Prod.mk.inj (Option.some.inj encoded)
  simp only [not_or,not_not] at wrong
  obtain ⟨_,few,more,geometry,enough⟩ := wrong
  have all := input.rectCount_toNat
  have before : input.multipassOffset.toNat < input.rects.length := by
    rw [← all]
    exact lt_def.mp (BitVec.not_le.mp more)
  have room : 184 ≤ capacity.toNat := le_def.mp (BitVec.not_lt.mp enough)
  have count := packetCount_toNat before room
  refine ⟨(packetCount input capacity).toNat,by omega,by omega,?_,?_,geometry,all_eq_true.mp contained,?_,?_,?_⟩
  · rw [commandBytes,rectBytes]
    omega
  · rw [← all]
    exact le_def.mp (BitVec.not_lt.mp few)
  · rw [ofNat_toNat,setWidth_eq]
    exact isPacket.symm
  · rw [← isNext,toNat_add]
    omega
  rcases not_and_or.mp split with same | other
  · exact .inl (not_not.mp same)
  rcases not_and_or.mp other with whole | apart
  · have large := le_def.mp (BitVec.not_lt.mp whole)
    exact .inr (.inl (by omega))
  exact .inr (.inr (Bool.eq_false_iff.mpr apart))

/-- After one accepted call the next one, for the rectangles that are left, is accepted too
    when its capacity holds a rectangle. -/
theorem presentBltEncode_again {next : U32} {count : Nat}
    (encoded : Encoded input packet next count) (more : next.toNat < input.rects.length) (enough : 184 ≤ capacity.toNat) :
    ∃ packet' next', presentBltEncode { input with multipassOffset := next } capacity = some (packet',next') := by
  have all := input.rectCount_toNat
  have few := encoded.few
  have isNext := encoded.next
  have steady : ¬ (input.sameAllocation ≠ 0 ∧ packetCount { input with multipassOffset := next } capacity < input.rectCount ∧
      shiftedOverlap input.command = true) := by
    rintro ⟨same,_,shifted⟩
    rcases encoded.steady with separate | whole | still
    · exact same separate
    · omega
    exact absurd (shifted.symm.trans still) (by decide)
  have right : ¬ (input.rectCount = 0 ∨ 0xffffffff / 16 < input.rectCount ∨ input.rectCount ≤ next ∨
      ¬ geometryValid input.command ∨ capacity < 168 + 16) := by
    rintro (zero | many | before | wrong | short)
    · rw [zero,show (0 : U32).toNat = 0 from rfl] at all
      omega
    · rw [lt_def,all] at many
      exact absurd few (Nat.not_le.mpr many)
    · rw [le_def,all] at before
      omega
    · exact wrong encoded.geometry
    rw [lt_def,show (168 + 16 : U32).toNat = 184 from rfl] at short
    omega
  have contained : ¬ ¬ input.rects.all (rectContains input.command.destinationRect) = true :=
    not_not.mpr (all_eq_true.mpr encoded.contained)
  exact ⟨_,_,(if_neg right).trans ((if_neg contained).trans (if_neg steady))⟩

private theorem locationsValid_packetCommand (input : PresentBltInput) (count : U32) (requireResidency : Bool) :
    locationsValid requireResidency (packetCommand input count) = locationsValid requireResidency (packetCommand input 0) := rfl

theorem presentBltValidate_packet (geometry : geometryValid input.command = true)
    {rects : List GdiRect} (contained : ∀ rect ∈ rects, rectContains input.command.destinationRect rect = true)
    (positive : 0 < rects.length) (fits : commandBytes + rects.length * rectBytes ≤ 4096) (requireResidency : Bool) :
    presentBltValidate (packetBytes (packetCommand input (BitVec.ofNat 32 rects.length)) rects) requireResidency =
      if locationsValid requireResidency (packetCommand input 0) then some (packetCommand input (BitVec.ofNat 32 rects.length))
      else none := by
  have length := packetBytes_length (packetCommand input (BitVec.ofNat 32 rects.length)) rects
  have small : rects.length < 246 := by
    rw [commandBytes,rectBytes] at fits
    omega
  have count : (BitVec.ofNat 32 rects.length).toNat = rects.length := by
    rw [toNat_ofNat]
    omega
  have bytes : (packetCommand input (BitVec.ofNat 32 rects.length)).bytes.toNat = commandBytes + rects.length * rectBytes := by
    rw [packetCommand,toNat_add,toNat_mul,count,show (168 : U32).toNat = commandBytes from rfl,
      show (16 : U32).toNat = rectBytes from rfl]
    omega
  have inside : (range (packetCommand input (BitVec.ofNat 32 rects.length)).rectCount.toNat).all (fun index =>
      rectContains (packetCommand input (BitVec.ofNat 32 rects.length)).destinationRect
        (bufferRect (contents (packetBytes (packetCommand input (BitVec.ofNat 32 rects.length)) rects)) index)) = true := by
    refine all_eq_true.mpr (fun index below => contained _ ?_)
    rw [mem_range,show (packetCommand input (BitVec.ofNat 32 rects.length)).rectCount.toNat = rects.length from count] at below
    rw [bufferRect_packetBytes _ _ below ⟨0,0,0,0⟩,getD_eq_getElem _ _ below]
    exact getElem_mem below
  unfold presentBltValidate
  rw [commandAt_packetBytes,if_neg (by rw [length]; omega)]
  rw [if_neg ?_]
  · rw [inside,locationsValid_packetCommand]
    cases locationsValid requireResidency (packetCommand input 0) <;> rfl
  have zero : BitVec.ofNat 32 rects.length ≠ 0 := by
    intro zero
    rw [zero] at count
    simp at count
    omega
  rw [length,bytes]
  simp only [packetCommand,not_or,not_not]
  refine ⟨trivial,?_,trivial,zero,?_,?_,geometry⟩
  · split_ifs <;> simp [presentGpuvaVersion,presentVersion]
  · rw [count,commandBytes,rectBytes]
    omega
  rw [count]

end WindowsOnM1.PresentEncode
