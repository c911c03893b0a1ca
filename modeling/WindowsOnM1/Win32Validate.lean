import WindowsOnM1.Checks
import WindowsOnM1.Propagation
import WindowsOnM1.Win32Command

/-!
`AppleAgxWin32CommandValidate` of `apple_agx_win32_abi.c`, stage by stage. The command is a
memory whose first `commandBytes` bytes may be read; a record that does not lie in them
is read outside. The pointers `Command` and `View` are not null.
-/
namespace WindowsOnM1.Win32Validate
open ByteMemory Checks Propagation Win32Command

abbrev Validation (α : Type) := Check AbiResult α

local instance u32_lawful : LawfulBEq U32 := instLawfulBEq

def fetch {α : Type} (decode : Memory → Nat → α) (size : Nat) (command : Memory) (commandBytes : U32) (offset : Nat) :
    Validation α :=
  if offset + size ≤ commandBytes.toNat then pure (decode command offset) else .error .outside
def fetchTable {α : Type} (decode : Memory → Nat → α) (size : Nat) (command : Memory) (commandBytes : U32)
    (offset count : Nat) : Validation (List α) :=
  if offset + count * size ≤ commandBytes.toNat then pure (tableAt decode size command offset count) else .error .outside

/-- `AppleAgxWin32CommandHash`; the eight bytes of the hash itself count as zeros. -/
def commandHash (command : Memory) (commandBytes : U32) : Validation U64 :=
  if commandBytes < 48 ∨ commandMaxBytes < commandBytes then pure 0
  else
    scan (fun _ index hash =>
      if 40 ≤ index ∧ index < 40 + 8 then pure (hashByte hash 0)
      else do
        let value ← fetch (fun memory offset => memory offset) 1 command commandBytes index
        pure (hashByte hash value)) [] (List.range commandBytes.toNat) hashBasis

def checkHeader (command : Memory) (commandBytes expectedGeneration allocationCount : U32) : Validation CommandHeader := do
  rejectIf (expectedGeneration = 0 ∨ allocationCount = 0 ∨ commandBytes < 48 ∨ commandMaxBytes < commandBytes) .argument
  let header ← fetch headerAt headerSize command commandBytes 0
  rejectIf (header.magic ≠ commandMagic) .magic
  rejectIf (header.version ∉ [commandVersion,versionNativePipelines,versionNativeUsc,versionNativeBatch,
    versionIndexedBatch,versionTexturedBatch,versionDepthBatch,versionMixedBatch]) .version
  rejectIf (¬ isNative header.version ∧ legacyMaxBytes < commandBytes) .argument
  rejectIf (header.headerBytes ≠ 48 ∨ header.totalBytes ≠ commandBytes) .layout
  rejectIf (header.flags ≠ 0) .flags
  rejectIf (header.generation ≠ expectedGeneration) .staleGeneration
  rejectIf (header.referenceCount = 0 ∨ referenceLimit header.version < header.referenceCount) .referenceCount
  rejectIf (header.opcode ≠ opcodeClear ∧ header.opcode ≠ opcodeDraw) .opcode
  let referenceBytes := header.referenceCount * 32
  let payloadOffset := 48 + referenceBytes
  rejectIf (header.referencesOffset ≠ 48 ∨ header.referencesOffset &&& 7 ≠ 0 ∨ header.payloadOffset ≠ payloadOffset ∨
    header.payloadOffset &&& 7 ≠ 0 ∨ header.totalBytes < header.payloadOffset ∨
    header.totalBytes - header.payloadOffset < header.payloadBytes ∨
    header.payloadOffset + header.payloadBytes ≠ header.totalBytes) .layout
  let hash ← commandHash command commandBytes
  rejectIf (hash ≠ header.contentHash) .hash
  pure header

def checkReference (version : U16) (allocationCount : U32) (reference : AllocationReference) : Validation Unit := do
  rejectIf (allocationCount ≤ reference.allocationIndex) .allocationIndex
  rejectIf (reference.role < roleRenderTarget ∨ roleSharedGeometry < reference.role) .role
  rejectIf (reference.role = rolePppState ∧ version < versionNativeUsc ∧ ¬ isNative version) .role
  rejectIf (reference.role = roleUniform ∧ ¬ isNative version) .role
  rejectIf (reference.access = 0 ∨ reference.access &&& ~~~(accessRead ||| accessWrite ||| accessExecute) ≠ 0) .access
  rejectIf (reference.reserved ≠ 0) .reserved
  rejectIf (reference.bytes = 0 ∨ maxU64 - reference.bytes < reference.offset) .range

def checkClear (command : Memory) (commandBytes : U32) (header : CommandHeader) (references : List AllocationReference) :
    Validation ClearPayload := do
  rejectIf (header.version ≠ commandVersion) .version
  rejectIf (header.referenceCount ≠ 1) .referenceCount
  rejectIf (header.payloadBytes ≠ 48) .layout
  let first ← entry references 0
  rejectIf (first.access ≠ accessWrite) .access
  rejectIf (first.role ≠ roleRenderTarget) .role
  let clear ← fetch clearAt clearSize command commandBytes header.payloadOffset.toNat
  rejectIf (clear.reserved ≠ 0) .reserved
  rejectIf (clear.structBytes ≠ 48 ∨ clear.format ≠ formatBgra8Unorm ∨ clear.surfaceWidth = 0 ∨ clear.surfaceHeight = 0 ∨
    maxU32 / 4 < clear.surfaceWidth) .payload
  let minimumPitch := clear.surfaceWidth * 4
  rejectIf (clear.surfacePitch < minimumPitch ∨ clear.right ≤ clear.left ∨ clear.bottom ≤ clear.top ∨
    clear.surfaceWidth < clear.right ∨ clear.surfaceHeight < clear.bottom ∨ clear.destinationReference ≠ 0) .payload
  pure clear

/-- The bytes of the metadata between the payload and the relocations. -/
def metadataBytes (version : U16) : Nat := if isNative version then nativeSize else 0

def checkDraw (command : Memory) (commandBytes : U32) (header : CommandHeader) (references : List AllocationReference) :
    Validation DrawPayload := do
  rejectIf (header.payloadBytes < 128) .layout
  each (fun reference => rejectIf (¬ referencePolicy reference header.version) .access) references
  let draw ← fetch drawAt drawSize command commandBytes header.payloadOffset.toNat
  let minimumPitch := formatBytesPerPixel draw.format
  rejectIf (draw.structBytes ≠ 128 ∨ minimumPitch = 0 ∨ draw.surfaceWidth = 0 ∨ draw.surfaceHeight = 0 ∨
    maxU32 / minimumPitch < draw.surfaceWidth ∨ draw.surfacePitch < draw.surfaceWidth * minimumPitch ∨
    draw.topology < topologyTriangleList ∨ topologyTriangleStripAdjacency < draw.topology ∨ draw.vertexCount = 0 ∨
    0x01000000 < draw.vertexCount ∨ draw.instanceCount = 0) .payload
  rejectIf (draw.flags &&& ~~~drawFlagExpectedForeground ≠ 0) .flags
  rejectIf (draw.flags &&& drawFlagExpectedForeground ≠ 0 ∧
    (draw.expectedForegroundColor = 0 ∨ draw.expectedForegroundColor = 0xa5a5a5a5)) .payload
  rejectIf (draw.flags &&& drawFlagExpectedForeground = 0 ∧ draw.expectedForegroundColor ≠ 0) .flags
  rejectIf ((header.version = commandVersion ∧ draw.reserved0 ≠ 0) ∨ draw.reserved1 ≠ 0 ∨ draw.reserved2 ≠ 0 ∨
    draw.reserved3 ≠ 0) .reserved
  rejectIf (draw.relocationsOffset.toNat ≠ drawSize + metadataBytes header.version) .layout
  rejectIf (draw.relocationCount = 0 ∨ relocationLimit header.version < draw.relocationCount) .relocation
  rejectIf (header.payloadBytes.toNat ≠
    drawSize + metadataBytes header.version + draw.relocationCount.toNat * relocationSize) .layout
  pure draw

/-- A use of a reference: the arguments that `AppleAgxWin32DrawReference` takes for it. -/
structure Named where
  index : U32
  role : U32
  isOptional : Bool
deriving DecidableEq

/-- `AppleAgxWin32DrawReference`. -/
def drawReference (references : List AllocationReference) (referenceCount : U32) (named : Named) (reachable : Marks) :
    Validation Marks :=
  if named.isOptional ∧ named.index = optionalReference then pure reachable
  else do
    rejectIf (referenceCount ≤ named.index) .allocationIndex
    let reference ← entry references named.index.toNat
    rejectIf (reference.role ≠ named.role) .role
    pure (Function.update reachable named.index.toNat true)

def drawReferences (references : List AllocationReference) (referenceCount : U32) (names : List Named) (reachable : Marks) :
    Validation Marks :=
  scan (fun _ named reachable => drawReference references referenceCount named reachable) [] names reachable

def surfaceNames (version : U16) (draw : DrawPayload) : List Named :=
  [⟨draw.destinationReference,roleRenderTarget,false⟩,⟨draw.vertexReference,roleVertex,isNative version⟩,
   ⟨draw.indexReference,if version = versionMixedBatch then roleSharedGeometry else roleIndex,!hasIndex version⟩,
   ⟨draw.constantReference,roleConstant,true⟩,
   ⟨draw.textureReference,roleTexture,true⟩]

def shaderNames (draw : DrawPayload) : List Named :=
  [⟨draw.vertexShaderReference,roleShader,false⟩,⟨draw.fragmentShaderReference,roleShader,false⟩,
   ⟨draw.vertexRodataReference,roleShaderRodata,true⟩,
   ⟨draw.fragmentRodataReference,roleShaderRodata,true⟩,
   ⟨draw.uscPipelineReference,roleUscPipeline,false⟩]

/-- The fragment pipeline is in the first reserved word from version 2 on. -/
def fragmentNames (version : U16) (draw : DrawPayload) : List Named :=
  if version < versionNativePipelines ∨ (isNative version ∧ draw.reserved0 = optionalReference) then []
  else [⟨draw.reserved0,roleUscPipeline,false⟩]

def stateNames (version : U16) (draw : DrawPayload) : List Named :=
  [⟨draw.descriptorReference,roleDescriptor,isNative version⟩,⟨draw.scissorReference,roleScissor,false⟩,
   ⟨draw.depthBiasReference,roleDepthBias,isNative version⟩,
   ⟨draw.encoderReference,roleEncoder,false⟩]

def pipelineNames (native : NativeBatchMetadata) : List Named :=
  [⟨native.background.uscReference,roleUscPipeline,false⟩,⟨native.partialBackground.uscReference,roleUscPipeline,false⟩,
   ⟨native.endOfTile.uscReference,roleUscPipeline,false⟩]
def depthNames (native : NativeBatchMetadata) : List Named :=
  [⟨native.depthReference,roleDepthAttachment,false⟩,⟨native.depthCompressionReference,roleDescriptor,true⟩]
def stencilNames (native : NativeBatchMetadata) : List Named :=
  [⟨native.stencilReference,roleDepthAttachment,true⟩,⟨native.stencilCompressionReference,roleDescriptor,true⟩]
def computeNames (native : NativeBatchMetadata) : List Named := [⟨native.computeEncoderReference,roleEncoder,false⟩]

/-- A reference is there exactly when its stride is not zero. -/
def strideFits (reference stride : U32) : Prop := reference = optionalReference ↔ stride = 0
instance (reference stride : U32) : Decidable (strideFits reference stride) := inferInstanceAs (Decidable (_ ↔ _))

def checkDepth (references : List AllocationReference) (referenceCount : U32) (native : NativeBatchMetadata)
    (reachable : Marks) : Validation Marks := do
  rejectIf (native.depthStride = 0 ∨ native.zlsControl = 0 ∨ native.ispZlsPixels = 0 ∨ native.ispBgobjValues = 0) .payload
  let reachable ← drawReferences references referenceCount (depthNames native) reachable
  rejectIf (¬ strideFits native.depthCompressionReference native.depthCompressionStride) .payload
  let reachable ← drawReferences references referenceCount (stencilNames native) reachable
  rejectIf (¬ strideFits native.stencilReference native.stencilStride ∨
    ¬ strideFits native.stencilCompressionReference native.stencilCompressionStride) .payload
  pure reachable

/-- The depth fields of a version without them. -/
def checkNoDepth (native : NativeBatchMetadata) (reachable : Marks) : Validation Marks := do
  rejectIf (native.renderFlags &&& renderDepthBiasIsInt ≠ 0 ∨ native.depthReference ≠ 0 ∨
    native.depthCompressionReference ≠ 0 ∨ native.depthStride ≠ 0 ∨ native.depthCompressionStride ≠ 0 ∨
    native.stencilReference ≠ 0 ∨ native.stencilCompressionReference ≠ 0 ∨ native.stencilStride ≠ 0 ∨
    native.stencilCompressionStride ≠ 0 ∨ native.zlsControl ≠ 0 ∨ native.ispZlsPixels ≠ 0 ∨
    native.ispBgobjDepth ≠ 0 ∨ native.ispBgobjValues ≠ 0) .reserved
  pure reachable

def checkCompute (references : List AllocationReference) (referenceCount : U32) (native : NativeBatchMetadata)
    (reachable : Marks) : Validation Marks := do
  rejectIf (native.computeEncoderBytes = 0) .payload
  let reachable ← drawReferences references referenceCount (computeNames native) reachable
  let encoder ← entry references native.computeEncoderReference.toNat
  rejectIf (encoder.bytes ≠ wide native.computeEncoderBytes) .payload
  pure reachable

/-- The compute fields of a version without them. -/
def checkNoCompute (native : NativeBatchMetadata) (reachable : Marks) : Validation Marks := do
  rejectIf (native.computeEncoderReference ≠ 0 ∨ native.computeEncoderBytes ≠ 0) .reserved
  pure reachable

def checkNative (version : U16) (references : List AllocationReference) (referenceCount : U32)
    (native : NativeBatchMetadata) (reachable : Marks) : Validation Marks := do
  rejectIf (native.structBytes ≠ 136 ∨ native.samples = 0 ∨ native.layers = 0 ∨ native.sampleSizeBytes = 0 ∨
    native.utileWidth = 0 ∨ native.utileHeight = 0 ∨
    native.renderFlags &&& ~~~(renderProcessEmptyTiles ||| renderDepthBiasIsInt ||| renderColorLoad ||| renderDepthLoad |||
      renderStencilLoad) ≠ 0) .payload
  let reachable ← drawReferences references referenceCount (pipelineNames native) reachable
  let reachable ← (if version = versionDepthBatch then checkDepth references referenceCount native reachable
    else checkNoDepth native reachable)
  if version = versionMixedBatch then checkCompute references referenceCount native reachable
  else checkNoCompute native reachable

def checkDrawReferences (version : U16) (references : List AllocationReference) (referenceCount : U32) (draw : DrawPayload)
    (reachable : Marks) : Validation Marks := do
  let reachable ← drawReferences references referenceCount (surfaceNames version draw) reachable
  rejectIf (version = versionTexturedBatch ∧ draw.textureReference = optionalReference) .payload
  let reachable ← drawReferences references referenceCount (shaderNames draw) reachable
  rejectIf (versionNativePipelines ≤ version ∧ ¬ (isNative version ∧ draw.reserved0 = optionalReference) ∧
    draw.reserved0 = draw.uscPipelineReference) .payload
  let reachable ← drawReferences references referenceCount (fragmentNames version draw) reachable
  drawReferences references referenceCount (stateNames version draw) reachable

/-- An optional reference that is there is looked up as one that has to be. -/
def present (index role : U32) : List Named := if index ≠ optionalReference then [⟨index,role,false⟩] else []

/-- The references from which the relocations of a native batch start. -/
def nativeRoots (version : U16) (draw : DrawPayload) (native : NativeBatchMetadata) : List Named :=
  [⟨draw.destinationReference,roleRenderTarget,false⟩,⟨draw.encoderReference,roleEncoder,false⟩,
   ⟨draw.scissorReference,roleScissor,false⟩] ++
  present draw.depthBiasReference roleDepthBias ++
  pipelineNames native ++
  (if version = versionDepthBatch then
    [⟨native.depthReference,roleDepthAttachment,false⟩] ++
    present native.depthCompressionReference roleDescriptor ++
    present native.stencilReference roleDepthAttachment ++
    present native.stencilCompressionReference roleDescriptor
  else []) ++
  (if version = versionMixedBatch then computeNames native else [])

/-- `reachable` and `indexRelocations` between the turns of the loop. -/
structure RelocationScan where
  reachable : Marks
  indexRelocations : U32

/-- The checks of a `VdmIndexBufferAddress40`. -/
def checkIndexRelocation (version : U16) (references : List AllocationReference) (draw : DrawPayload)
    (relocation : Relocation) : Validation Unit := do
  rejectIf (¬ hasIndex version) .relocation
  rejectIf (relocation.destinationReference ≠ draw.encoderReference ∨
    relocation.targetReference ≠ draw.indexReference) .relocation
  let target ← entry references draw.indexReference.toNat
  rejectIf (version = versionIndexedBatch ∧ (target.bytes < 2 ∨ relocation.targetOffset ≠ 0)) .relocation
  rejectIf (version = versionMixedBatch ∧
    (target.bytes < relocation.targetOffset ∨ target.bytes - relocation.targetOffset < 16)) .relocation

/-- `indexRelocations` behind a relocation. -/
def countIndexRelocation (version : U16) (references : List AllocationReference) (draw : DrawPayload)
    (relocation : Relocation) (indexRelocations : U32) : Validation U32 :=
  if relocation.kind = kindVdmIndexBufferAddress40 then do
    checkIndexRelocation version references draw relocation
    pure (indexRelocations + 1)
  else pure indexRelocations

/-- The width that a kind of relocation has to have. -/
def kindWidth (kind : U32) : U16 :=
  if kind = kindUscShaderOffset32 then 6
  else if kind = kindVdmPipelineOffset32 ∨ kind = kindPppPipelineOffset32 ∨ kind = kindPppCfBindingsOffset32 then 4
  else 8

/-- A relocation whose offsets its kind does not allow. -/
def misaligned (relocation : Relocation) : Prop :=
  (relocation.kind = kindVdmPipelineOffset32 ∧ relocation.destinationOffset &&& 3 ≠ 0) ∨
  ((relocation.kind = kindPppPipelineOffset32 ∨ relocation.kind = kindPppCfBindingsOffset32) ∧
    relocation.destinationOffset &&& 3 ≠ 0) ∨
  (relocation.kind = kindPppCfBindingsOffset32 ∧ relocation.targetOffset &&& 3 ≠ 0) ∨
  (relocation.kind = kindPppStateAddress40 ∧ (relocation.destinationOffset ||| relocation.targetOffset) &&& 3 ≠ 0) ∨
  (relocation.kind = kindUscBufferAddress40 ∧ relocation.destinationOffset &&& 3 ≠ 0) ∨
  (relocation.kind = kindVdmIndexBufferAddress40 ∧ relocation.destinationOffset &&& 3 ≠ 0)

instance (relocation : Relocation) : Decidable (misaligned relocation) := inferInstanceAs (Decidable (_ ∨ _))

/-- The fields of two relocations meet in one reference; the ends wrap. -/
def collides (relocation other : Relocation) : Prop :=
  other.destinationReference = relocation.destinationReference ∧
  other.destinationOffset < relocation.destinationOffset + wide relocation.widthBytes ∧
  relocation.destinationOffset < other.destinationOffset + wide other.widthBytes

instance (relocation other : Relocation) : Decidable (collides relocation other) := inferInstanceAs (Decidable (_ ∧ _))

def checkRelocation (version : U16) (references : List AllocationReference) (referenceCount : U32) (draw : DrawPayload)
    (earlier : List Relocation) (relocation : Relocation) (state : RelocationScan) : Validation RelocationScan := do
  rejectIf (relocation.reserved ≠ 0) .reserved
  let indexRelocations ← countIndexRelocation version references draw relocation state.indexRelocations
  rejectIf (version < versionNativeUsc ∧ relocation.kind ∈
    [kindUscPreshaderOffset32,kindUscTableAddress39,kindPppPipelineOffset32,kindPppCfBindingsOffset32]) .relocation
  rejectIf (relocation.addressFlags ≠ 0 ∨ referenceCount ≤ relocation.destinationReference ∨
    referenceCount ≤ relocation.targetReference) .relocation
  let destination ← entry references relocation.destinationReference.toNat
  let target ← entry references relocation.targetReference.toNat
  rejectIf (¬ relocationPolicy relocation.kind destination.role target.role version) .relocation
  rejectIf (relocation.widthBytes ≠ kindWidth relocation.kind) .relocation
  rejectIf (misaligned relocation ∨ destination.bytes < relocation.destinationOffset ∨
    destination.bytes - relocation.destinationOffset < wide relocation.widthBytes ∨
    target.bytes ≤ relocation.targetOffset) .range
  rejectIf (∃ other ∈ earlier, collides relocation other) .relocation
  pure {
    reachable := Function.update (Function.update state.reachable relocation.destinationReference.toNat true)
      relocation.targetReference.toNat true
    indexRelocations := indexRelocations }

/-- The edge that a relocation gives. -/
def edge (relocation : Relocation) : Nat × Nat := (relocation.destinationReference.toNat,relocation.targetReference.toNat)

def checkRelocations (version : U16) (references : List AllocationReference) (referenceCount : U32) (draw : DrawPayload)
    (relocations : List Relocation) (reachable : Marks) : Validation Unit := do
  let directedReachable := reachable
  let left ← scan (checkRelocation version references referenceCount draw) [] relocations ⟨reachable,0⟩
  rejectIf ((hasIndex version ∧ left.indexRelocations ≠ 1) ∨ (¬ hasIndex version ∧ left.indexRelocations ≠ 0)) .relocation
  each (fun index => rejectIf (¬ left.reachable index) .reachability) (List.range referenceCount.toNat)
  let directedReachable := rounds (relocations.map edge) referenceCount.toNat directedReachable
  each (fun index => do
    let reference ← entry references index
    rejectIf (reference.role = rolePppState ∧ ¬ directedReachable index) .reachability) (List.range referenceCount.toNat)

def noMarks : Marks := fun _ => false

/-- The metadata of a native batch and the marks of the roots of its relocations. -/
def checkBatch (command : Memory) (commandBytes : U32) (header : CommandHeader) (references : List AllocationReference)
    (draw : DrawPayload) : Validation (Option NativeBatchMetadata × Marks) := do
  if isNative header.version then
    let native ← fetch nativeAt nativeSize command commandBytes (header.payloadOffset.toNat + drawSize)
    let reachable ← checkNative header.version references header.referenceCount native noMarks
    let _ ← checkDrawReferences header.version references header.referenceCount draw reachable
    let reachable ← drawReferences references header.referenceCount (nativeRoots header.version draw native) noMarks
    pure (some native,reachable)
  else
    let reachable ← checkDrawReferences header.version references header.referenceCount draw noMarks
    pure (none,reachable)

/-- `AppleAgxWin32CommandValidate`. -/
def commandValidate (command : Memory) (commandBytes expectedGeneration allocationCount : U32) : Validation CommandView := do
  let header ← checkHeader command commandBytes expectedGeneration allocationCount
  let references ← fetchTable referenceAt referenceSize command commandBytes header.referencesOffset.toNat
    header.referenceCount.toNat
  each (checkReference header.version allocationCount) references
  if header.opcode = opcodeClear then
    let clear ← checkClear command commandBytes header references
    pure ⟨header,references,some clear,none,[],none⟩
  else
    let draw ← checkDraw command commandBytes header references
    let (native,reachable) ← checkBatch command commandBytes header references draw
    let relocations ← fetchTable relocationAt relocationSize command commandBytes
      (header.payloadOffset.toNat + draw.relocationsOffset.toNat) draw.relocationCount.toNat
    checkRelocations header.version references header.referenceCount draw relocations reachable
    pure ⟨header,references,none,some draw,relocations,native⟩

end WindowsOnM1.Win32Validate
