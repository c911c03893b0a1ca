import WindowsOnM1.ByteMemory
import WindowsOnM1.CountedLoop

/-!
The blit of `render_present.c` with the allocation descriptions of `render_allocation.c`.
The callbacks copy between the scratch buffer and the surfaces, which are two byte memories
or one; every access is kept.
-/
namespace WindowsOnM1.PresentModel
open ByteMemory CountedLoop

abbrev U32 := BitVec 32
abbrev U64 := BitVec 64
abbrev maxU32 : U64 := 0xffffffff
abbrev maxU64 : U64 := ~~~0

/-- `(unsigned long long)` of an `unsigned int`. -/
def wide (value : U32) : U64 := value.setWidth 64

/-- `ADMISSION_ALLOCATION_DESCRIPTION`. -/
structure AllocationDescription where
  magic : U32
  version : U32
  type : U32
  format : U32
  width : U32
  height : U32
  pitch : U32
  bytesPerPixel : U32
  size : U64
  cpuVisible : U32
  reserved : U32
deriving DecidableEq

/-- `ADMISSION_ALLOCATION_MAGIC`. -/
abbrev allocationMagic : U32 := 0x414d4152

/-- `AdmissionAllocationDescribe`. -/
def allocationDescribe (width height bytesPerPixel type format cpuVisible : U32) : Option AllocationDescription :=
  if width = 0 ∨ height = 0 ∨ bytesPerPixel = 0 ∨ 4 < bytesPerPixel ∨ type = 0 ∨ format = 0 ∨ 1 < cpuVisible then none
  else
    let rowBytes := wide width * wide bytesPerPixel
    if maxU32 < rowBytes ∨ maxU64 - 15 < rowBytes then none
    else
      let pitch := (rowBytes + 15) &&& ~~~(15 : U64)
      if maxU32 < pitch ∨ maxU64 / pitch < wide height then none
      else some {
        magic := allocationMagic, version := 1, type := type, format := format, width := width, height := height
        pitch := pitch.setWidth 32, bytesPerPixel := bytesPerPixel, size := pitch * wide height
        cpuVisible := cpuVisible, reserved := 0 }

/-- `AdmissionAllocationDescriptionValid`. -/
def allocationDescriptionValid (description : AllocationDescription) : Bool :=
  if description.magic ≠ allocationMagic ∨ description.version ≠ 1 ∨ description.reserved ≠ 0 then false
  else match allocationDescribe description.width description.height description.bytesPerPixel description.type
      description.format description.cpuVisible with
    | none => false
    | some expected =>
      decide (expected.pitch ≤ description.pitch) && description.pitch &&& 15 == 0 &&
        decide (wide description.pitch * wide description.height ≤ description.size)

/-- `APPLE_AGX_GDI_RECT`. -/
structure GdiRect where
  left : U32
  top : U32
  right : U32
  bottom : U32
deriving DecidableEq

/-- `ADMISSION_PRESENT_BLT_COMMAND`. -/
structure PresentBltCommand where
  magic : U32
  version : U32
  bytes : U32
  rectCount : U32
  sourceDescription : AllocationDescription
  destinationDescription : AllocationDescription
  sourceRect : GdiRect
  destinationRect : GdiRect
  sourceLocation : U64
  destinationLocation : U64
  contextToken : U64
deriving DecidableEq

def rectAt (memory : Memory) (offset : Nat) : GdiRect :=
  ⟨u32At memory offset,u32At memory (offset + 4),u32At memory (offset + 8),u32At memory (offset + 12)⟩

def descriptionAt (memory : Memory) (offset : Nat) : AllocationDescription :=
  { magic := u32At memory offset, version := u32At memory (offset + 4), type := u32At memory (offset + 8)
    format := u32At memory (offset + 12), width := u32At memory (offset + 16), height := u32At memory (offset + 20)
    pitch := u32At memory (offset + 24), bytesPerPixel := u32At memory (offset + 28), size := u64At memory (offset + 32)
    cpuVisible := u32At memory (offset + 40), reserved := u32At memory (offset + 44) }

/-- The command at the begin of a buffer. -/
def commandAt (memory : Memory) : PresentBltCommand :=
  { magic := u32At memory 0, version := u32At memory 4, bytes := u32At memory 8, rectCount := u32At memory 12
    sourceDescription := descriptionAt memory 16, destinationDescription := descriptionAt memory 64
    sourceRect := rectAt memory 112, destinationRect := rectAt memory 128, sourceLocation := u64At memory 144
    destinationLocation := u64At memory 152, contextToken := u64At memory 160 }

/-- `sizeof(ADMISSION_PRESENT_BLT_COMMAND)`. -/
abbrev commandBytes : Nat := 168

/-- `sizeof(APPLE_AGX_GDI_RECT)`. -/
abbrev rectBytes : Nat := 16

/-- `ADMISSION_PRESENT_BLT_MAGIC`. -/
abbrev presentMagic : U32 := 0x42504152

/-- `RectValid`. -/
def rectValid (rect : GdiRect) : Bool := rect.left < rect.right && rect.top < rect.bottom

/-- `RectContains`. -/
def rectContains (outer inner : GdiRect) : Bool :=
  rectValid inner && outer.left ≤ inner.left && outer.top ≤ inner.top && inner.right ≤ outer.right &&
    inner.bottom ≤ outer.bottom

/-- `GeometryValid`. -/
def geometryValid (command : PresentBltCommand) : Bool :=
  let source := command.sourceDescription
  let destination := command.destinationDescription
  allocationDescriptionValid source && allocationDescriptionValid destination &&
    source.bytesPerPixel == 4 && destination.bytesPerPixel == 4 && source.format == 21 && destination.format == 21 &&
    command.contextToken != 0 && rectValid command.sourceRect && rectValid command.destinationRect &&
    command.sourceRect.right ≤ source.width && command.sourceRect.bottom ≤ source.height &&
    command.destinationRect.right ≤ destination.width && command.destinationRect.bottom ≤ destination.height &&
    command.sourceRect.right - command.sourceRect.left == command.destinationRect.right - command.destinationRect.left &&
    command.sourceRect.bottom - command.sourceRect.top == command.destinationRect.bottom - command.destinationRect.top

/-- `AdmissionPresentLocationDecode`. -/
def presentLocationDecode (location : U64) : Option (U32 × U64) :=
  let segment := (location >>> 56).setWidth 32
  let address := location &&& 0x00ffffffffffffff
  if (segment ≠ 1 ∧ segment ≠ 2) ∨ address = 0 then none else some (segment,address)

/-- The locations of a command in `AdmissionPresentBltValidate`. -/
def locationsValid (requireResidency : Bool) (command : PresentBltCommand) : Bool :=
  if command.version = 2 then
    !(command.sourceLocation < 0x4000 || command.destinationLocation < 0x4000 ||
      1 <<< 39 ≤ command.sourceLocation || 1 <<< 39 ≤ command.destinationLocation ||
      (1 <<< 39) - command.sourceLocation < command.sourceDescription.size ||
      (1 <<< 39) - command.destinationLocation < command.destinationDescription.size)
  else
    (!(requireResidency || command.sourceLocation != 0) || (presentLocationDecode command.sourceLocation).isSome) &&
      (!(requireResidency || command.destinationLocation != 0) ||
        (presentLocationDecode command.destinationLocation).any (fun (segment,_) => segment == 2))

def bufferRect (memory : Memory) (index : Nat) : GdiRect := rectAt memory (commandBytes + index * rectBytes)

/-- `AdmissionPresentBltValidate`. -/
def presentBltValidate (buffer : List Byte) (requireResidency : Bool) : Option PresentBltCommand :=
  if buffer.length < commandBytes ∨ 4096 < buffer.length then none
  else
    let command := commandAt (contents buffer)
    if command.magic ≠ presentMagic ∨ (command.version ≠ 1 ∧ command.version ≠ 2) ∨
        command.bytes.toNat ≠ buffer.length ∨ command.rectCount = 0 ∨
        (buffer.length - commandBytes) / rectBytes < command.rectCount.toNat ∨
        buffer.length ≠ commandBytes + command.rectCount.toNat * rectBytes ∨ ¬ geometryValid command then none
    else if ¬ locationsValid requireResidency command then none
    else if (List.range command.rectCount.toNat).all
        (fun index => rectContains command.destinationRect (bufferRect (contents buffer) index)) then some command
    else none

/-- `AdmissionPresentBltScratchBytes`. -/
def presentBltScratchBytes (command : PresentBltCommand) : Option U32 :=
  if ¬ geometryValid command then none
  else
    let size := wide (command.sourceRect.right - command.sourceRect.left) *
      wide (command.sourceRect.bottom - command.sourceRect.top) * 4
    if size = 0 ∨ maxU32 < size then none else some (size.setWidth 32)

/-- The memories of the source and the destination: two, or one of the same allocation. -/
inductive Surfaces
  | separate (source destination : Memory)
  | shared (memory : Memory)
def Surfaces.source : Surfaces → Memory
  | separate source _ => source
  | shared memory => memory
def Surfaces.destination : Surfaces → Memory
  | separate _ destination => destination
  | shared memory => memory

/-- Surfaces whose destination was written to. -/
def Surfaces.write (surfaces : Surfaces) (offset : Nat) (bytes : Memory) (count : Nat) : Surfaces :=
  match surfaces with
  | separate source destination => separate source (copyTo destination offset bytes count)
  | shared memory => shared (copyTo memory offset bytes count)

/-- A call of `ReadSource` or `WriteDestination`: the offset in the surface, the one in the
    scratch buffer and the number of bytes. -/
inductive Access
  | read (offset : U64) (scratch : Nat) (count : U32)
  | write (offset : U64) (scratch : Nat) (count : U32)
deriving DecidableEq

structure BltState where
  surfaces : Surfaces
  scratch : Memory
  accesses : List Access
  bytesCopied : U64

/-- `ReadSource`. The callbacks answer in turn whether they succeed; one that fails copies nothing. -/
def readSource (answers : Nat → Bool) (offset : U64) (scratch : Nat) (count : U32) (state : BltState) : Bool × BltState :=
  let called := { state with accesses := state.accesses ++ [.read offset scratch count] }
  if answers state.accesses.length then
    (true,{ called with
      scratch := copyTo state.scratch scratch (fun i => state.surfaces.source (offset.toNat + i)) count.toNat })
  else (false,called)

/-- `WriteDestination`. -/
def writeDestination (answers : Nat → Bool) (offset : U64) (scratch : Nat) (count : U32) (state : BltState) :
    Bool × BltState :=
  let called := { state with accesses := state.accesses ++ [.write offset scratch count] }
  if answers state.accesses.length then
    (true,{ called with surfaces := state.surfaces.write offset.toNat (fun i => state.scratch (scratch + i)) count.toNat })
  else (false,called)

/-- The read of a row of the source into the scratch buffer. -/
def snapshotRow (answers : Nat → Bool) (command : PresentBltCommand) (row : Nat) : BltState → Bool × BltState :=
  let width := command.sourceRect.right - command.sourceRect.left
  let rowBytes := width * 4
  let sourceOffset := wide (command.sourceRect.top + BitVec.ofNat 32 row) * wide command.sourceDescription.pitch +
    wide command.sourceRect.left * 4
  readSource answers sourceOffset (BitVec.ofNat 64 row * wide rowBytes).toNat rowBytes

/-- The write of a row of a rectangle. -/
def writeRow (answers : Nat → Bool) (command : PresentBltCommand) (rect : GdiRect) (row : Nat) (state : BltState) :
    Bool × BltState :=
  let width := command.sourceRect.right - command.sourceRect.left
  let scratchOffset := (wide (BitVec.ofNat 32 row - command.destinationRect.top) * wide width +
    wide rect.left - wide command.destinationRect.left) * 4
  let destinationOffset := wide (BitVec.ofNat 32 row) * wide command.destinationDescription.pitch + wide rect.left * 4
  let rowBytes := (rect.right - rect.left) * 4
  match writeDestination answers destinationOffset scratchOffset.toNat rowBytes state with
  | (false,left) => (false,left)
  | (true,left) => (true,{ left with bytesCopied := left.bytesCopied + wide rowBytes })

/-- The rows of a rectangle of the buffer. -/
def writeRect (answers : Nat → Bool) (buffer : List Byte) (command : PresentBltCommand) (index : Nat) :
    BltState → Bool × BltState :=
  let rect := bufferRect (contents buffer) index
  countLoop (writeRow answers command rect) rect.top.toNat (rect.bottom.toNat - rect.top.toNat)

/-- `AdmissionPresentBltExecute` with a scratch buffer of a size. -/
def presentBltExecute (answers : Nat → Bool) (buffer : List Byte) (scratchBytes : U32) (state : BltState) :
    Bool × BltState :=
  match presentBltValidate buffer true with
  | none => (false,state)
  | some command =>
    match presentBltScratchBytes command with
    | none => (false,state)
    | some needed =>
      if scratchBytes < needed then (false,state)
      else
        match countLoop (snapshotRow answers command) 0 (command.sourceRect.bottom - command.sourceRect.top).toNat
            { state with bytesCopied := 0 } with
        | (false,left) => (false,left)
        | (true,left) => countLoop (writeRect answers buffer command) 0 command.rectCount.toNat left

/-- What `AdmissionPresentBltExecute` does after it has validated the command. -/
def presentBltAccepted (answers : Nat → Bool) (buffer : List Byte) (command : PresentBltCommand) (scratchBytes : U32)
    (state : BltState) : Bool × BltState :=
  match presentBltScratchBytes command with
  | none => (false,state)
  | some needed =>
    if scratchBytes < needed then (false,state)
    else
      match countLoop (snapshotRow answers command) 0 (command.sourceRect.bottom - command.sourceRect.top).toNat
          { state with bytesCopied := 0 } with
      | (false,left) => (false,left)
      | (true,left) => countLoop (writeRect answers buffer command) 0 command.rectCount.toNat left

theorem presentBltExecute_accepted {buffer : List Byte} {command : PresentBltCommand}
    (valid : presentBltValidate buffer true = some command) (answers : Nat → Bool) (scratchBytes : U32) (state : BltState) :
    presentBltExecute answers buffer scratchBytes state = presentBltAccepted answers buffer command scratchBytes state := by
  unfold presentBltExecute
  rw [valid]
  rfl

theorem presentBltExecute_refused {buffer : List Byte} (refused : presentBltValidate buffer true = none)
    (answers : Nat → Bool) (scratchBytes : U32) (state : BltState) :
    presentBltExecute answers buffer scratchBytes state = (false,state) := by
  unfold presentBltExecute
  rw [refused]

end WindowsOnM1.PresentModel
