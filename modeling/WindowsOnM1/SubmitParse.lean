import WindowsOnM1.AskParse
import WindowsOnM1.SubmitRecords

/-!
The parsers of a submission of `apple_agx_g4_submit.c`. The private data is a buffer of which
the parsers may read the bytes that the user mode driver gave; the access callback sees what
it granted before. A pointer into the private data is an offset, a null pointer is `none`.
-/
namespace WindowsOnM1.Submit
open AskParse ByteMemory

inductive ParseResult
  | ok
  | invalid
  | unsupported
  | unmapped
deriving DecidableEq

inductive AccessKind
  | process
  | cpuEnvelope
  | attachment
  | render
  | computeStream
  | samplerHeap
  | computePreemption
deriving DecidableEq

def AccessKind.code : AccessKind → U32
  | .process => 1
  | .cpuEnvelope => 2
  | .attachment => 3
  | .render => 4
  | .computeStream => 5
  | .samplerHeap => 6
  | .computePreemption => 7

structure AccessRequest where
  va : U64
  bytes : U32
  write : Bool
  kind : AccessKind
deriving DecidableEq

abbrev Access := Oracle AccessRequest

/-- The record of a failure, zero unless an access was refused. -/
structure Failure where
  subsite : U32
  kind : U32
  ordinal : U32
  va : U64
  bytes : U32
  write : U32
deriving DecidableEq

def Failure.zero : Failure := ⟨0,0,0,0,0,0⟩
abbrev failureAccess : U32 := 1

structure Refusal where
  result : ParseResult
  failure : Failure
  refused : result ≠ .ok
deriving DecidableEq

def invalid : Refusal := ⟨.invalid,.zero,by decide⟩
def unsupported : Refusal := ⟨.unsupported,.zero,by decide⟩
def refusedAccess (ordinal : Nat) (request : AccessRequest) : Refusal :=
  ⟨.unmapped,⟨failureAccess,request.kind.code,BitVec.ofNat 32 ordinal,request.va,request.bytes,if request.write then 1 else 0⟩,
    by decide⟩
abbrev Parser := Ask AccessRequest Refusal
def checkAccess (access : Access) (va : U64) (bytes : U32) (write : Bool) (kind : AccessKind) : Parser PUnit :=
  ask access refusedAccess ⟨va,bytes,write,kind⟩
def validVa (va bytes : Nat) : Bool := va ≥ 0x10000 && va < vaEnd && bytes ≠ 0 && bytes ≤ vaEnd - va

/-- The address of a packed offset of the execution window, whose low six bits are flags. -/
def uscVa (packed : U32) : U64 :=
  if packed = 0 then 0 else BitVec.ofNat 64 uscExecutionBase + (packed &&& ~~~63).setWidth 64

structure RenderAddress where
  va : U64
  bytes : U32
  write : Bool

def renderAddresses (render : NativeRender) : List RenderAddress :=
  [⟨render.vdmCtrlStreamBase,1,false⟩,⟨uscVa render.vertexHelper.binary,1,false⟩,⟨render.vertexHelper.data,1,false⟩,
    ⟨uscVa render.fragmentHelper.binary,1,false⟩,⟨render.fragmentHelper.data,1,false⟩,⟨render.ispScissorBase,1,false⟩,
    ⟨render.ispDbiasBase,1,false⟩,⟨render.ispOclQryBase,BitVec.ofNat 32 occlusionHeapBytes,true⟩,⟨render.depth.base,1,true⟩,
    ⟨render.depth.compBase,1,true⟩,⟨render.stencil.base,1,true⟩,⟨render.stencil.compBase,1,true⟩,⟨render.samplerHeap,1,false⟩,
    ⟨uscVa render.bg.usc,1,false⟩,⟨uscVa render.eot.usc,1,false⟩,⟨uscVa render.partialBg.usc,1,false⟩,
    ⟨uscVa render.partialEot.usc,1,false⟩]

def RenderAddress.check (access : Access) (address : RenderAddress) : Parser PUnit :=
  if address.va = 0 then pure ⟨⟩
  else do
    refuseIf (validVa address.va.toNat address.bytes.toNat = false) invalid
    checkAccess access address.va address.bytes address.write .render

def NativeRender.fieldsRefused (render : NativeRender) : Bool :=
  render.flags &&& ~~~0x40007 ≠ 0 || render.widthPx = 0 || render.heightPx = 0 || render.widthPx.toNat > 16384 ||
    render.heightPx.toNat > 16384 || render.layers = 0 || render.layers.toNat > 2048 || render.utileValid = false ||
    (render.samples ≠ 1 && render.samples ≠ 2 && render.samples ≠ 4) || (render.sampleSizeBytes = 0 && render.samples ≠ 1)
def Timestamps.named (stamps : Timestamps) : Bool := stamps.startHandle ≠ 0 || stamps.endHandle ≠ 0
def Timestamps.moved (stamps : Timestamps) : Bool := stamps.startOffset ≠ 0 || stamps.endOffset ≠ 0

def validateRender (access : Access) (render : NativeRender) : Parser PUnit := do
  refuseIf (render.fieldsRefused = true) invalid
  refuseIf (render.timestampsVertex.named = true ∨ render.timestampsFragment.named = true) unsupported
  refuseIf (render.timestampsVertex.moved = true ∨ render.timestampsFragment.moved = true) invalid
  refuseIf (render.ispOclQryBase &&& 7 ≠ 0) invalid
  -- the first turn of the loop refuses the address that the others may leave out
  refuseIf (render.vdmCtrlStreamBase = 0) invalid
  forEach (RenderAddress.check access) (renderAddresses render)

def NativeCompute.streamBytes (compute : NativeCompute) : Nat := (compute.cdmCtrlStreamEnd - compute.cdmCtrlStreamBase).toNat

def validateComputeFields (compute : NativeCompute) (preemption : ProcessRange) (preemptBytes : U32) (dmaVa : U64) (dmaBytes : U32) :
    ParseResult :=
  if compute.flags ≠ 0 then .invalid
  else if ¬ (compute.helper.binary = 0 ↔ compute.helper.data = 0) ∨ (compute.helper.binary = 0 ∧ compute.helper.cfg ≠ 0) ∨
      (compute.helper.binary ≠ 0 ∧ (validVa (uscVa compute.helper.binary).toNat 1 = false ∨
        validVa compute.helper.data.toNat 1 = false)) then .invalid
  else if compute.timestamps.startHandle > timestampRequest ∨ compute.timestamps.endHandle > timestampRequest ∨
      compute.timestamps.startOffset ≠ 0 ∨ compute.timestamps.endOffset ≠ 0 then .invalid
  else if compute.cdmCtrlStreamBase ≥ compute.cdmCtrlStreamEnd ∨ compute.cdmCtrlStreamBase &&& 3 ≠ 0 ∨
      compute.cdmCtrlStreamEnd &&& 3 ≠ 0 then .invalid
  else if compute.streamBytes > cdmStreamMaxBytes ∨ validVa compute.cdmCtrlStreamBase.toNat compute.streamBytes = false ∨
      compute.samplerCount.toNat > maxSamplers ∨ ¬ (compute.samplerCount ≠ 0 ↔ compute.samplerHeap ≠ 0) ∨
      (compute.samplerHeap ≠ 0 ∧ validVa compute.samplerHeap.toNat (compute.samplerCount.toNat * samplerBytes) = false) then .invalid
  else if preemption.reserved ≠ 0 ∨ preemption.bytes < preemptBytes ∨ preemption.va &&& 0xffff ≠ 0 ∨
      preemption.bytes &&& 0xffff ≠ 0 ∨ validVa preemption.va.toNat preemption.bytes.toNat = false ∨
      rangesOverlap preemption.va.toNat preemption.bytes.toNat dmaVa.toNat dmaBytes.toNat = true ∨
      rangesOverlap preemption.va.toNat preemption.bytes.toNat compute.cdmCtrlStreamBase.toNat compute.streamBytes = true then .invalid
  else .ok

def samplerAccess (access : Access) (compute : NativeCompute) : Parser PUnit :=
  if compute.samplerCount ≠ 0 then
    checkAccess access compute.samplerHeap (compute.samplerCount * BitVec.ofNat 32 samplerBytes) false .samplerHeap
  else pure ⟨⟩

def helperAccess (access : Access) (compute : NativeCompute) : Parser PUnit :=
  if compute.helper.binary ≠ 0 then do
    checkAccess access (uscVa compute.helper.binary) 1 false .computeStream
    checkAccess access compute.helper.data 1 false .computeStream
  else pure ⟨⟩

def validateComputeAccess (access : Access) (compute : NativeCompute) (preemption : ProcessRange) : Parser PUnit := do
  checkAccess access compute.cdmCtrlStreamBase (BitVec.ofNat 32 compute.streamBytes) false .computeStream
  samplerAccess access compute
  helperAccess access compute
  checkAccess access preemption.va preemption.bytes true .computePreemption

structure SubmitCall where
  data : Option Memory
  capacity : U32
  umdPrivateBytes : U32
  dmaVa : U64
  dmaBytes : U32
  access : Option Access
  /-- The caller gave a view to write. -/
  hasView : Bool

/-- The arguments of a call whose pointers are there. -/
structure Buffer where
  memory : Memory
  umd : Nat
  dmaVa : U64
  dmaBytes : U32
  access : Access

def SubmitCall.argumentsRefused (call : SubmitCall) (headerSize : Nat) : Bool :=
  call.hasView = false || call.capacity.toNat < headerSize || call.umdPrivateBytes.toNat < headerSize ||
    call.umdPrivateBytes > call.capacity || call.dmaBytes = 0 || call.dmaBytes.toNat > nativeMaxBytes ||
    validVa call.dmaVa.toNat call.dmaBytes.toNat = false

/-- The buffer of a call, unless an argument is refused. -/
def SubmitCall.buffer (call : SubmitCall) (headerSize : Nat) : Option Buffer :=
  match call.data, call.access with
  | some memory, some access =>
    if call.argumentsRefused headerSize = true then none
    else some ⟨memory,call.umdPrivateBytes.toNat,call.dmaVa,call.dmaBytes,access⟩
  | _, _ => none

def headerSize (version : U16) : Nat :=
  if version = versionRenderCompute then 216
  else if version = versionPrivateVa then 200
  else if version = versionProcessVa then 168
  else 24

def headerRefused (buffer : Buffer) (header : PrivateHeader) : Bool :=
  header.magic ≠ privateMagic ||
    (header.version ≠ privateVersion && header.version ≠ versionProcessVa && header.version ≠ versionPrivateVa &&
      header.version ≠ versionRenderCompute) ||
    header.headerBytes.toNat ≠ headerSize header.version || (header.version = privateVersion && header.reserved ≠ 0) ||
    header.commandVa ≠ buffer.dmaVa || header.commandBytes ≠ buffer.dmaBytes ||
    buffer.umd ≠ header.headerBytes.toNat + buffer.dmaBytes.toNat

def parseHeader (buffer : Buffer) (preemptBytes : U32) : Parser PrivateHeader := do
  let header ← fetch privateHeader buffer.memory buffer.umd 0
  refuseIf (header.magic = privateMagic ∧ header.version = versionRenderCompute ∧ preemptBytes = 0) unsupported
  refuseIf (headerRefused buffer header = true) invalid
  pure header

/-- What the longer headers carry, zero in the shorter ones. -/
structure HeaderTail where
  process : Fin processRangeCount → ProcessRange
  lease : PrivateLease
  preemption : ProcessRange

def HeaderTail.zero : HeaderTail := ⟨fun _ => processRange.zero,privateLease.zero,processRange.zero⟩
def ProcessRange.refused (range : ProcessRange) (dmaVa dmaBytes : Nat) : Bool :=
  range.reserved ≠ 0 || range.bytes = 0 || range.va &&& 0xffff ≠ 0 || range.bytes &&& 0xffff ≠ 0 ||
    validVa range.va.toNat range.bytes.toNat = false || rangesOverlap range.va.toNat range.bytes.toNat dmaVa dmaBytes
def processCheck (buffer : Buffer) (process : Fin processRangeCount → ProcessRange) (i : Fin processRangeCount) : Parser PUnit := do
  refuseIf ((process i).refused buffer.dmaVa.toNat buffer.dmaBytes.toNat = true) invalid
  refuseIf ((List.finRange processRangeCount).any (fun j => j < i && (process i).meets (process j)) = true) invalid
  checkAccess buffer.access (process i).va (process i).bytes true .process

def parsePreemption (buffer : Buffer) (version : U16) : Parser ProcessRange :=
  if version = versionRenderCompute then do
    let header ← fetch privateHeaderV5 buffer.memory buffer.umd 0
    pure header.preemption
  else pure processRange.zero

/-- The lease of a header of version 3 or 5 and the preemption range of version 5. -/
def parseLease (buffer : Buffer) (version : U16) : Parser (PrivateLease × ProcessRange) :=
  if version = versionPrivateVa ∨ version = versionRenderCompute then do
    refuseIf (buffer.umd < if version = versionRenderCompute then 216 else 200) invalid
    let header ← fetch privateHeaderV3 buffer.memory buffer.umd 0
    let preemption ← parsePreemption buffer version
    refuseIf (header.lease.named = false) invalid
    pure (header.lease,preemption)
  else pure (privateLease.zero,processRange.zero)

def parseTail (buffer : Buffer) (header : PrivateHeader) : Parser HeaderTail :=
  if header.version ≥ versionProcessVa then do
    refuseIf (colorClassValid header.reserved = false) unsupported
    refuseIf (buffer.umd < 168) invalid
    let v2 ← fetch privateHeaderV2 buffer.memory buffer.umd 0
    let (lease,preemption) ← parseLease buffer header.version
    forEach (processCheck buffer v2.process) (List.finRange processRangeCount)
    pure ⟨v2.process,lease,preemption⟩
  else pure .zero

/-- The compute command at the start of the command, of a submission of version 5. -/
def parseCompute (buffer : Buffer) (header : PrivateHeader) (preemptBytes : U32) (preemption : ProcessRange) :
    Parser (Nat × NativeCompute) :=
  if header.version = versionRenderCompute then do
    let native := header.headerBytes.toNat
    let first ← fetch nativeHeader buffer.memory buffer.umd native
    refuseIf (first.type ≠ nativeComputeType ∨ first.size ≠ 64 ∨ first.vdmBarrier ≠ 0 ∨ first.cdmBarrier ≠ 0 ∨
      buffer.dmaBytes.toNat - 8 < 64) invalid
    let compute ← fetch nativeCompute buffer.memory buffer.umd (native + 8)
    refuseIf (validateComputeFields compute preemption preemptBytes buffer.dmaVa buffer.dmaBytes ≠ .ok) invalid
    validateComputeAccess buffer.access compute preemption
    refuseIf (buffer.dmaBytes.toNat - 72 < 8) invalid
    pure (72,compute)
  else pure (0,nativeCompute.zero)

def Attachment.refused (attached : Attachment) : Bool :=
  attached.pad ≠ 0 || attached.flags ≠ 0 || attached.size > 0xffffffff || validVa attached.pointer.toNat attached.size.toNat = false
def attachmentCheck (buffer : Buffer) (base i : Nat) : Parser PUnit := do
  let attached ← fetch attachment buffer.memory buffer.umd (base + i * 24)
  refuseIf (attached.refused = true) invalid
  checkAccess buffer.access attached.pointer (attached.size.setWidth 32) true .attachment

/-- The attachments, if there are any, and the native header after them. -/
structure Attached where
  position : Nat
  base : Option Nat
  count : Nat
  header : NativeHeader

def parseAttachments (buffer : Buffer) (native start : Nat) : Parser Attached := do
  let first ← fetch nativeHeader buffer.memory buffer.umd (native + start)
  if first.type = fragmentAttachments then do
    refuseIf (first.vdmBarrier ≠ 0xffff ∨ first.cdmBarrier ≠ 0xffff ∨ first.size.toNat % 24 ≠ 0 ∨
      first.size.toNat > buffer.dmaBytes.toNat - start - 8) invalid
    forEach (attachmentCheck buffer (native + start + 8)) (List.range (first.size.toNat / 24))
    refuseIf (buffer.dmaBytes.toNat - (start + 8 + first.size.toNat) < 8) invalid
    let header ← fetch nativeHeader buffer.memory buffer.umd (native + (start + 8 + first.size.toNat))
    pure ⟨start + 8 + first.size.toNat,some (native + start + 8),first.size.toNat / 24,header⟩
  else pure ⟨start,none,0,first⟩

/-- The header of a render is one that waits on the compute command before it, or on the previous submission. -/
def renderHeaderRefused (header : NativeHeader) (withCompute : Bool) (bytesLeft : Nat) : Bool :=
  header.size ≠ 240 || header.vdmBarrier ≠ (if withCompute then 0xffff else 0) || header.cdmBarrier ≠ (if withCompute then 1 else 0) ||
    bytesLeft ≠ 8 + header.size.toNat

def rangesTooSmall (render : NativeRender) (process : Fin processRangeCount → ProcessRange) : Bool :=
  match processRequiredBytes render with
  | none => true
  | some required => (List.finRange processRangeCount).any (fun i => (process i).bytes.toNat < required i)

def parseRender (buffer : Buffer) (header : PrivateHeader) (process : Fin processRangeCount → ProcessRange) (attached : Attached) :
    Parser Nat := do
  let native := header.headerBytes.toNat
  refuseIf (attached.header.type ≠ nativeRenderType) unsupported
  refuseIf (renderHeaderRefused attached.header (header.version = versionRenderCompute)
    (buffer.dmaBytes.toNat - attached.position) = true) invalid
  let render ← fetch nativeRender buffer.memory buffer.umd (native + attached.position + 8)
  validateRender buffer.access render
  refuseIf (header.version ≥ versionProcessVa ∧ rangesTooSmall render process = true) invalid
  pure (native + attached.position + 8)

structure SubmitView where
  native : Option Nat
  render : Option Nat
  attachments : Option Nat
  commandBytes : U32
  renderBytes : U32
  attachmentCount : U32
  commandVa : U64
  colorFormat : U32
  process : Fin processRangeCount → ProcessRange
  lease : PrivateLease
  heapBlocks : U32
  hasCompute : Bool
  compute : NativeCompute
  preemption : ProcessRange

def SubmitView.zero : SubmitView :=
  ⟨none,none,none,0,0,0,0,0,fun _ => processRange.zero,privateLease.zero,0,false,nativeCompute.zero,processRange.zero⟩

def parseEnvelope (buffer : Buffer) (preemptBytes : U32) : Parser SubmitView := do
  let header ← parseHeader buffer preemptBytes
  let tail ← parseTail buffer header
  checkAccess buffer.access buffer.dmaVa buffer.dmaBytes false .cpuEnvelope
  refuseIf (buffer.dmaBytes.toNat < 8) invalid
  let (start,compute) ← parseCompute buffer header preemptBytes tail.preemption
  let attached ← parseAttachments buffer header.headerBytes.toNat start
  let render ← parseRender buffer header tail.process attached
  pure { SubmitView.zero with
    lease := tail.lease
    native := some header.headerBytes.toNat
    render := some render
    attachments := attached.base
    commandBytes := buffer.dmaBytes
    renderBytes := attached.header.size.setWidth 32
    attachmentCount := BitVec.ofNat 32 attached.count
    commandVa := buffer.dmaVa
    colorFormat := if header.version ≥ versionProcessVa then header.reserved else 0
    process := if header.version ≥ versionProcessVa then tail.process else SubmitView.zero.process
    hasCompute := header.version = versionRenderCompute
    compute := if header.version = versionRenderCompute then compute else nativeCompute.zero
    preemption := if header.version = versionRenderCompute then tail.preemption else processRange.zero }

/-- What a call leaves: its result, the view, the record of a failure where the caller gave
    one, and the granted requests where it succeeds. -/
structure Outcome (View : Type) where
  result : ParseResult
  view : View
  failure : Option Failure
  granted : List AccessRequest

/-- `none` is a read outside the bytes of the user mode driver. -/
def outcome {View : Type} (zero : View) (failure : Option Failure) (run : Checks.Check Refusal (View × List AccessRequest)) :
    Option (Outcome View) :=
  match run with
  | .ok (view,granted) => some ⟨.ok,view,failure.map (fun _ => .zero),granted⟩
  | .error (.rejected refusal) => some ⟨refusal.result,zero,failure.map (fun _ => refusal.failure),[]⟩
  | .error .outside => none

def parse (call : SubmitCall) (preemptBytes : U32) (failure : Option Failure) : Option (Outcome SubmitView) :=
  match call.buffer 24 with
  | none => outcome .zero failure (.error (.rejected invalid))
  | some buffer => outcome .zero failure (parseEnvelope buffer preemptBytes [])

/-- The older callback, which sees neither the kind of an access nor its number. -/
abbrev OldAccess := List AccessRequest → U64 → U32 → Bool → Bool
def OldAccess.typed (old : OldAccess) : Access := fun granted request => old granted request.va request.bytes request.write
def parseSubmit (call : SubmitCall) (access : Option OldAccess) : Option (Outcome SubmitView) :=
  parse { call with access := access.map OldAccess.typed } 0 none
def parseSubmitEx (call : SubmitCall) (failure : Option Failure) : Option (Outcome SubmitView) := parse call 0 failure

/-- A requirement of zero is refused before the record of a failure is cleared. -/
def parseSubmitComputeEx (call : SubmitCall) (preemptBytes : U32) (failure : Option Failure) : Option (Outcome SubmitView) :=
  if preemptBytes = 0 then some ⟨.invalid,.zero,failure,[]⟩ else parse call preemptBytes failure

structure ComputeView where
  native : Option Nat
  compute : NativeCompute
  preemption : ProcessRange
  commandBytes : U32
  commandVa : U64

def ComputeView.zero : ComputeView := ⟨none,nativeCompute.zero,processRange.zero,0,0⟩
def computeHeaderRefused (buffer : Buffer) (header : PrivateHeader) : Bool :=
  header.magic ≠ privateMagic || header.version ≠ versionCompute || header.headerBytes ≠ 40 || header.reserved ≠ 0 ||
    header.commandVa ≠ buffer.dmaVa || header.commandBytes ≠ buffer.dmaBytes || buffer.umd ≠ 40 + buffer.dmaBytes.toNat ||
    buffer.dmaBytes.toNat ≠ 8 + 64

def parseComputeEnvelope (buffer : Buffer) (preemptBytes : U32) : Parser ComputeView := do
  let header ← fetch privateHeaderCompute buffer.memory buffer.umd 0
  refuseIf (computeHeaderRefused buffer header.base = true) invalid
  let native ← fetch nativeHeader buffer.memory buffer.umd 40
  refuseIf (native.type ≠ nativeComputeType) unsupported
  refuseIf (native.size ≠ 64 ∨ native.vdmBarrier ≠ 0 ∨ native.cdmBarrier ≠ 0) invalid
  let compute ← fetch nativeCompute buffer.memory buffer.umd (40 + 8)
  refuseIf (validateComputeFields compute header.preemption preemptBytes buffer.dmaVa buffer.dmaBytes ≠ .ok) invalid
  checkAccess buffer.access buffer.dmaVa buffer.dmaBytes false .cpuEnvelope
  validateComputeAccess buffer.access compute header.preemption
  pure ⟨some 40,compute,header.preemption,buffer.dmaBytes,buffer.dmaVa⟩

def parseComputeEx (call : SubmitCall) (preemptBytes : U32) (failure : Option Failure) : Option (Outcome ComputeView) :=
  match call.buffer 40 with
  | none => outcome .zero failure (.error (.rejected invalid))
  | some buffer =>
    if preemptBytes = 0 then outcome .zero failure (.error (.rejected invalid))
    else outcome .zero failure (parseComputeEnvelope buffer preemptBytes [])

end WindowsOnM1.Submit
