import WindowsOnM1.ByteMemory

/-!
The records of a render command of `apple_agx_win32_abi.h`, their layout in the buffer, and
the tables of limits and policies of `apple_agx_win32_abi.c`.
-/
namespace WindowsOnM1.Win32Command
open ByteMemory

abbrev U16 := BitVec 16
abbrev U32 := BitVec 32
abbrev U64 := BitVec 64

/-- A value of `unsigned short` or `unsigned int` in an expression of 64 bits. -/
def wide {bits : Nat} (value : BitVec bits) : U64 := value.setWidth 64

abbrev commandMagic : U32 := 0x43474157
abbrev commandVersion : U16 := 1
abbrev versionNativePipelines : U16 := 2
abbrev versionNativeUsc : U16 := 3
abbrev versionNativeBatch : U16 := 4
abbrev versionIndexedBatch : U16 := 5
abbrev versionTexturedBatch : U16 := 6
abbrev versionDepthBatch : U16 := 7
abbrev versionMixedBatch : U16 := 8
abbrev legacyMaxBytes : U32 := 4096
abbrev commandMaxBytes : U32 := 32768
abbrev legacyMaxReferences : U32 := 16
abbrev legacyMaxRelocations : U32 := 64
abbrev nativeMaxReferences : U32 := 64
abbrev commandMaxRelocations : U32 := 760
abbrev indexedMaxReferences : U32 := 34
abbrev indexedMaxRelocations : U32 := 134
abbrev texturedMaxReferences : U32 := 36
abbrev texturedMaxRelocations : U32 := 760
abbrev depthMaxReferences : U32 := 38
abbrev depthMaxRelocations : U32 := 136
abbrev mixedMaxReferences : U32 := 69
abbrev mixedMaxRelocations : U32 := 760
abbrev optionalReference : U32 := 0xffffffff
abbrev drawFlagExpectedForeground : U32 := 1
abbrev renderProcessEmptyTiles : U32 := 1
abbrev renderDepthBiasIsInt : U32 := 2
abbrev renderColorLoad : U32 := 4
abbrev renderDepthLoad : U32 := 8
abbrev renderStencilLoad : U32 := 16
abbrev maxU32 : U32 := ~~~0
abbrev maxU64 : U64 := ~~~0

abbrev opcodeClear : U32 := 1
abbrev opcodeDraw : U32 := 2
abbrev accessRead : U32 := 1
abbrev accessWrite : U32 := 2
abbrev accessExecute : U32 := 4

abbrev roleRenderTarget : U32 := 1
abbrev roleVertex : U32 := 2
abbrev roleIndex : U32 := 3
abbrev roleConstant : U32 := 4
abbrev roleTexture : U32 := 5
abbrev roleShader : U32 := 6
abbrev roleDescriptor : U32 := 7
abbrev roleShaderRodata : U32 := 8
abbrev roleUscPipeline : U32 := 9
abbrev roleEncoder : U32 := 10
abbrev roleScissor : U32 := 11
abbrev roleDepthBias : U32 := 12
abbrev rolePppState : U32 := 13
abbrev roleUniform : U32 := 14
abbrev roleDepthAttachment : U32 := 15
abbrev roleSharedGeometry : U32 := 16

abbrev formatBgra8Unorm : U32 := 1
abbrev formatRgba8Unorm : U32 := 2
abbrev formatRgba16Float : U32 := 3
abbrev formatR8Unorm : U32 := 4
abbrev formatR16Float : U32 := 5
abbrev formatRgba32Float : U32 := 6
abbrev formatRgb10A2Unorm : U32 := 7
abbrev formatR11G11B10Float : U32 := 8
abbrev formatBgr565Unorm : U32 := 9
abbrev formatBgra8Srgb : U32 := 10
abbrev formatBgrx8Unorm : U32 := 11
abbrev formatBgrx8Srgb : U32 := 12

abbrev topologyTriangleList : U32 := 1
abbrev topologyTriangleStripAdjacency : U32 := 9

abbrev kindEncoderAddress : U32 := 1
abbrev kindPipelineAddress : U32 := 2
abbrev kindDescriptorAddress : U32 := 3
abbrev kindUscShaderOffset32 : U32 := 4
abbrev kindUscBufferAddress40 : U32 := 5
abbrev kindVdmPipelineOffset32 : U32 := 6
abbrev kindPppStateAddress40 : U32 := 7
abbrev kindUscPreshaderOffset32 : U32 := 8
abbrev kindUscTableAddress39 : U32 := 9
abbrev kindPppPipelineOffset32 : U32 := 10
abbrev kindPppCfBindingsOffset32 : U32 := 11
abbrev kindUniformAddress64 : U32 := 12
abbrev kindTextureAddress40 : U32 := 13
abbrev kindPbeAddress40 : U32 := 14
abbrev kindVdmIndexBufferAddress40 : U32 := 15

/-- The results of `APPLE_AGX_WIN32_ABI_RESULT` other than success. -/
inductive AbiResult
  | argument | magic | version | layout | flags | staleGeneration | referenceCount | hash | opcode | allocationIndex
  | access | role | reserved | range | payload | relocation | reachability
deriving DecidableEq

/-- `APPLE_AGX_WIN32_COMMAND_IS_NATIVE`. -/
def isNative (version : U16) : Bool :=
  version = versionNativeBatch ∨ version = versionIndexedBatch ∨ version = versionTexturedBatch ∨
    version = versionDepthBatch ∨ version = versionMixedBatch

/-- `APPLE_AGX_WIN32_COMMAND_HAS_INDEX`. -/
def hasIndex (version : U16) : Bool := version = versionIndexedBatch ∨ version = versionMixedBatch

/-- `APPLE_AGX_WIN32_COMMAND_REFERENCE_LIMIT`. -/
def referenceLimit (version : U16) : U32 :=
  if version = versionMixedBatch then mixedMaxReferences
  else if version = versionDepthBatch then depthMaxReferences
  else if version = versionTexturedBatch then texturedMaxReferences
  else if version = versionIndexedBatch then indexedMaxReferences
  else if version = versionNativeBatch then nativeMaxReferences
  else legacyMaxReferences

/-- `APPLE_AGX_WIN32_COMMAND_RELOCATION_LIMIT`. -/
def relocationLimit (version : U16) : U32 :=
  if version = versionMixedBatch then mixedMaxRelocations
  else if version = versionDepthBatch then depthMaxRelocations
  else if version = versionTexturedBatch then texturedMaxRelocations
  else if version = versionIndexedBatch then indexedMaxRelocations
  else if version = versionNativeBatch then commandMaxRelocations
  else legacyMaxRelocations

theorem referenceLimit_le (version : U16) : (referenceLimit version).toNat ≤ 69 := by
  unfold referenceLimit
  split_ifs <;> decide
theorem relocationLimit_le (version : U16) : (relocationLimit version).toNat ≤ 760 := by
  unfold relocationLimit
  split_ifs <;> decide

/-- `APPLE_AGX_WIN32_COMMAND_HEADER`. -/
structure CommandHeader where
  magic : U32
  version : U16
  headerBytes : U16
  totalBytes : U32
  opcode : U32
  flags : U32
  generation : U32
  referenceCount : U32
  referencesOffset : U32
  payloadOffset : U32
  payloadBytes : U32
  contentHash : U64
deriving DecidableEq

/-- `APPLE_AGX_WIN32_ALLOCATION_REFERENCE`. -/
structure AllocationReference where
  allocationIndex : U32
  access : U32
  role : U32
  reserved : U32
  offset : U64
  bytes : U64
deriving DecidableEq

/-- `APPLE_AGX_WIN32_CLEAR_PAYLOAD`. -/
structure ClearPayload where
  structBytes : U32
  format : U32
  color : U32
  surfaceWidth : U32
  surfaceHeight : U32
  surfacePitch : U32
  left : U32
  top : U32
  right : U32
  bottom : U32
  destinationReference : U32
  reserved : U32
deriving DecidableEq

/-- `APPLE_AGX_WIN32_DRAW_PAYLOAD`; the four words `Reserved` have a field each. -/
structure DrawPayload where
  structBytes : U32
  format : U32
  surfaceWidth : U32
  surfaceHeight : U32
  surfacePitch : U32
  topology : U32
  vertexCount : U32
  instanceCount : U32
  firstVertex : U32
  firstInstance : U32
  destinationReference : U32
  vertexReference : U32
  indexReference : U32
  constantReference : U32
  textureReference : U32
  vertexShaderReference : U32
  fragmentShaderReference : U32
  vertexRodataReference : U32
  fragmentRodataReference : U32
  uscPipelineReference : U32
  descriptorReference : U32
  scissorReference : U32
  depthBiasReference : U32
  encoderReference : U32
  relocationsOffset : U32
  relocationCount : U32
  flags : U32
  expectedForegroundColor : U32
  reserved0 : U32
  reserved1 : U32
  reserved2 : U32
  reserved3 : U32
deriving DecidableEq

/-- `APPLE_AGX_WIN32_NATIVE_PIPELINE_ROOT`. -/
structure NativePipelineRoot where
  uscReference : U32
  packedCounts : U32
  uscFlags : U32
deriving DecidableEq

/-- `APPLE_AGX_WIN32_NATIVE_BATCH_METADATA`. -/
structure NativeBatchMetadata where
  structBytes : U32
  background : NativePipelineRoot
  partialBackground : NativePipelineRoot
  endOfTile : NativePipelineRoot
  samples : U32
  layers : U32
  sampleSizeBytes : U32
  utileWidth : U32
  utileHeight : U32
  pppControl : U32
  pppMultisampleControl : U32
  renderFlags : U32
  depthReference : U32
  depthCompressionReference : U32
  depthStride : U32
  depthCompressionStride : U32
  stencilReference : U32
  stencilCompressionReference : U32
  stencilStride : U32
  stencilCompressionStride : U32
  zlsControl : U64
  ispZlsPixels : U64
  ispBgobjDepth : U32
  ispBgobjValues : U32
  computeEncoderReference : U32
  computeEncoderBytes : U32
deriving DecidableEq

/-- `APPLE_AGX_WIN32_RELOCATION`. -/
structure Relocation where
  kind : U32
  widthBytes : U16
  reserved : U16
  destinationReference : U32
  targetReference : U32
  destinationOffset : U64
  targetOffset : U64
  addressFlags : U64
deriving DecidableEq

/-- `APPLE_AGX_WIN32_COMMAND_VIEW` with the records in the place of the pointers to them. -/
structure CommandView where
  header : CommandHeader
  references : List AllocationReference
  clear : Option ClearPayload
  draw : Option DrawPayload
  relocations : List Relocation
  nativeBatch : Option NativeBatchMetadata
deriving DecidableEq

abbrev headerSize : Nat := 48
abbrev referenceSize : Nat := 32
abbrev clearSize : Nat := 48
abbrev drawSize : Nat := 128
abbrev nativeSize : Nat := 136
abbrev relocationSize : Nat := 40

def headerAt (memory : Memory) (offset : Nat) : CommandHeader :=
  { magic := u32At memory offset, version := u16At memory (offset + 4), headerBytes := u16At memory (offset + 6)
    totalBytes := u32At memory (offset + 8), opcode := u32At memory (offset + 12), flags := u32At memory (offset + 16)
    generation := u32At memory (offset + 20), referenceCount := u32At memory (offset + 24)
    referencesOffset := u32At memory (offset + 28), payloadOffset := u32At memory (offset + 32)
    payloadBytes := u32At memory (offset + 36), contentHash := u64At memory (offset + 40) }

def referenceAt (memory : Memory) (offset : Nat) : AllocationReference :=
  { allocationIndex := u32At memory offset, access := u32At memory (offset + 4), role := u32At memory (offset + 8)
    reserved := u32At memory (offset + 12), offset := u64At memory (offset + 16), bytes := u64At memory (offset + 24) }

def clearAt (memory : Memory) (offset : Nat) : ClearPayload :=
  { structBytes := u32At memory offset, format := u32At memory (offset + 4), color := u32At memory (offset + 8)
    surfaceWidth := u32At memory (offset + 12), surfaceHeight := u32At memory (offset + 16)
    surfacePitch := u32At memory (offset + 20), left := u32At memory (offset + 24), top := u32At memory (offset + 28)
    right := u32At memory (offset + 32), bottom := u32At memory (offset + 36)
    destinationReference := u32At memory (offset + 40), reserved := u32At memory (offset + 44) }

def drawAt (memory : Memory) (offset : Nat) : DrawPayload :=
  { structBytes := u32At memory offset, format := u32At memory (offset + 4), surfaceWidth := u32At memory (offset + 8)
    surfaceHeight := u32At memory (offset + 12), surfacePitch := u32At memory (offset + 16)
    topology := u32At memory (offset + 20), vertexCount := u32At memory (offset + 24)
    instanceCount := u32At memory (offset + 28), firstVertex := u32At memory (offset + 32)
    firstInstance := u32At memory (offset + 36), destinationReference := u32At memory (offset + 40)
    vertexReference := u32At memory (offset + 44), indexReference := u32At memory (offset + 48)
    constantReference := u32At memory (offset + 52), textureReference := u32At memory (offset + 56)
    vertexShaderReference := u32At memory (offset + 60), fragmentShaderReference := u32At memory (offset + 64)
    vertexRodataReference := u32At memory (offset + 68), fragmentRodataReference := u32At memory (offset + 72)
    uscPipelineReference := u32At memory (offset + 76), descriptorReference := u32At memory (offset + 80)
    scissorReference := u32At memory (offset + 84), depthBiasReference := u32At memory (offset + 88)
    encoderReference := u32At memory (offset + 92), relocationsOffset := u32At memory (offset + 96)
    relocationCount := u32At memory (offset + 100), flags := u32At memory (offset + 104)
    expectedForegroundColor := u32At memory (offset + 108), reserved0 := u32At memory (offset + 112)
    reserved1 := u32At memory (offset + 116), reserved2 := u32At memory (offset + 120)
    reserved3 := u32At memory (offset + 124) }

def pipelineRootAt (memory : Memory) (offset : Nat) : NativePipelineRoot :=
  ⟨u32At memory offset,u32At memory (offset + 4),u32At memory (offset + 8)⟩

def nativeAt (memory : Memory) (offset : Nat) : NativeBatchMetadata :=
  { structBytes := u32At memory offset, background := pipelineRootAt memory (offset + 4)
    partialBackground := pipelineRootAt memory (offset + 16), endOfTile := pipelineRootAt memory (offset + 28)
    samples := u32At memory (offset + 40), layers := u32At memory (offset + 44)
    sampleSizeBytes := u32At memory (offset + 48), utileWidth := u32At memory (offset + 52)
    utileHeight := u32At memory (offset + 56), pppControl := u32At memory (offset + 60)
    pppMultisampleControl := u32At memory (offset + 64), renderFlags := u32At memory (offset + 68)
    depthReference := u32At memory (offset + 72), depthCompressionReference := u32At memory (offset + 76)
    depthStride := u32At memory (offset + 80), depthCompressionStride := u32At memory (offset + 84)
    stencilReference := u32At memory (offset + 88), stencilCompressionReference := u32At memory (offset + 92)
    stencilStride := u32At memory (offset + 96), stencilCompressionStride := u32At memory (offset + 100)
    zlsControl := u64At memory (offset + 104), ispZlsPixels := u64At memory (offset + 112)
    ispBgobjDepth := u32At memory (offset + 120), ispBgobjValues := u32At memory (offset + 124)
    computeEncoderReference := u32At memory (offset + 128), computeEncoderBytes := u32At memory (offset + 132) }

def relocationAt (memory : Memory) (offset : Nat) : Relocation :=
  { kind := u32At memory offset, widthBytes := u16At memory (offset + 4), reserved := u16At memory (offset + 6)
    destinationReference := u32At memory (offset + 8), targetReference := u32At memory (offset + 12)
    destinationOffset := u64At memory (offset + 16), targetOffset := u64At memory (offset + 24)
    addressFlags := u64At memory (offset + 32) }

def tableAt {α : Type} (decode : Memory → Nat → α) (size : Nat) (memory : Memory) (offset count : Nat) : List α :=
  (List.range count).map (fun i => decode memory (offset + i * size))
@[simp] theorem tableAt_length {α : Type} (decode : Memory → Nat → α) (size : Nat) (memory : Memory) (offset count : Nat) :
    (tableAt decode size memory offset count).length = count := by
  rw [tableAt,List.length_map,List.length_range]

/-- `AppleAgxWin32FormatBytesPerPixel`. -/
def formatBytesPerPixel (format : U32) : U32 :=
  if format = formatBgra8Unorm ∨ format = formatBgra8Srgb ∨ format = formatBgrx8Unorm ∨ format = formatBgrx8Srgb ∨
      format = formatRgba8Unorm ∨ format = formatRgb10A2Unorm ∨ format = formatR11G11B10Float then 4
  else if format = formatRgba16Float then 8
  else if format = formatR8Unorm then 1
  else if format = formatR16Float ∨ format = formatBgr565Unorm then 2
  else if format = formatRgba32Float then 16
  else 0

/-- `AppleAgxWin32ReferencePolicy`. -/
def referencePolicy (reference : AllocationReference) (version : U16) : Bool :=
  if reference.role = roleRenderTarget then
    reference.access = accessWrite ∨ (isNative version ∧ reference.access = (accessRead ||| accessWrite))
  else if reference.role = roleShader then reference.access = (accessRead ||| accessExecute)
  else if reference.role ∈ [roleVertex,roleIndex,roleConstant,roleTexture,roleDescriptor,roleShaderRodata,roleUscPipeline,
      roleEncoder,roleScissor,roleDepthBias,rolePppState,roleUniform] then reference.access = accessRead
  else if reference.role = roleDepthAttachment ∨ reference.role = roleSharedGeometry then
    reference.access = (accessRead ||| accessWrite)
  else false

/-- `AppleAgxWin32RelocationPolicy`, of the roles that it looks up. -/
def relocationPolicy (kind destinationRole targetRole : U32) (version : U16) : Bool :=
  if kind = kindEncoderAddress then
    destinationRole = roleEncoder ∧ targetRole ∈ [roleRenderTarget,roleVertex,roleIndex,roleConstant,roleTexture,roleShader,
      roleShaderRodata,roleUscPipeline,roleDescriptor,roleScissor,roleDepthBias]
  else if kind = kindPipelineAddress then
    destinationRole = roleUscPipeline ∧ targetRole ∈ [roleShader,roleShaderRodata,roleDescriptor,roleConstant]
  else if kind = kindDescriptorAddress then
    destinationRole = roleDescriptor ∧ targetRole ∈ [roleVertex,roleTexture,roleConstant,roleRenderTarget]
  else if kind = kindUscShaderOffset32 ∨ kind = kindUscPreshaderOffset32 then
    destinationRole = roleUscPipeline ∧ targetRole = roleShader
  else if kind = kindUscTableAddress39 then destinationRole = roleUscPipeline ∧ targetRole = roleDescriptor
  else if kind = kindUscBufferAddress40 then
    destinationRole = roleUscPipeline ∧ (targetRole ∈ [roleShaderRodata,roleDescriptor,roleConstant,roleTexture] ∨
      (isNative version ∧ targetRole = roleUniform))
  else if kind = kindVdmPipelineOffset32 then destinationRole = roleEncoder ∧ targetRole = roleUscPipeline
  else if kind = kindPppStateAddress40 then
    destinationRole = roleEncoder ∧ (targetRole = roleEncoder ∨ (versionNativeUsc ≤ version ∧ targetRole = rolePppState))
  else if kind = kindPppPipelineOffset32 then
    versionNativeUsc ≤ version ∧ destinationRole = rolePppState ∧ targetRole = roleUscPipeline
  else if kind = kindPppCfBindingsOffset32 then
    versionNativeUsc ≤ version ∧ destinationRole = rolePppState ∧ targetRole = roleDescriptor
  else if kind = kindUniformAddress64 then
    isNative version ∧
      (destinationRole = roleUniform ∨ (version = versionMixedBatch ∧ destinationRole = roleSharedGeometry)) ∧
      (targetRole ∈ [roleUniform,roleVertex,roleConstant,roleDescriptor] ∨
        (version = versionMixedBatch ∧ targetRole = roleSharedGeometry))
  else if kind = kindTextureAddress40 then
    isNative version ∧ destinationRole = roleDescriptor ∧
      (targetRole = roleRenderTarget ∨ (version = versionTexturedBatch ∧ targetRole = roleTexture))
  else if kind = kindPbeAddress40 then
    isNative version ∧ destinationRole = roleDescriptor ∧ targetRole = roleRenderTarget
  else if kind = kindVdmIndexBufferAddress40 then
    hasIndex version ∧ destinationRole = roleEncoder ∧
      targetRole = (if version = versionMixedBatch then roleSharedGeometry else roleIndex)
  else false

abbrev hashBasis : U64 := 14695981039346656037
abbrev hashPrime : U64 := 1099511628211

/-- The turn of `AppleAgxWin32CommandHash` for one byte. -/
def hashByte (hash : U64) (value : Byte) : U64 := (hash ^^^ wide value) * hashPrime

end WindowsOnM1.Win32Command
