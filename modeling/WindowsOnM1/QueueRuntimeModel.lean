import WindowsOnM1.ByteMemory

/-!
The queue runtime of `apple_agx_g13_queue_runtime.c` with the messages of
`apple_agx_g13_codec.c`. What the callbacks answer is a parameter of every operation: an
operation reads each pointer and stamp at most once, and asks for each flush, publication
and message at most once, so that the answers are a function of what is asked. Operations
return the result, the runtime and the effects that others can see, in their order.
-/
namespace WindowsOnM1.QueueRuntimeModel
open ByteMemory

abbrev U32 := BitVec 32
abbrev U64 := BitVec 64

/-- `APPLE_AGX_G13_RING_CAPACITY`. -/
abbrev ringCapacityMax : U32 := 0x500

/-- `APPLE_AGX_G13_EVENT_COUNT`. -/
abbrev eventCount : U32 := 128

/-- `APPLE_AGX_G13_EVENT_MESSAGE_SIZE`. -/
abbrev eventMessageSize : Nat := 0x38

/-- `APPLE_AGX_G13_RUN_COMMAND`. -/
structure RunCommand where
  queueType : U32
  commandQueueAddress : U64
  head : U32
  eventNumber : U32
  newQueue : U32
  timestamp : U64
deriving DecidableEq

/-- `AppleAgxG13RunCommandValid`. -/
def runCommandValid (command : RunCommand) : Bool :=
  command.queueType ≤ 2 && command.commandQueueAddress != 0 && command.commandQueueAddress &&& 7 == 0 &&
    command.head < ringCapacityMax && command.eventNumber < eventCount && command.newQueue ≤ 1

/-- `AppleAgxG13EncodeRunCommand`. -/
def encodeRunCommand (command : RunCommand) : Option (List Byte) :=
  if ¬ runCommandValid command then none
  else some (wordBytes [command.queueType,command.commandQueueAddress.setWidth 32,
    (command.commandQueueAddress >>> 32).setWidth 32,command.head,command.eventNumber,command.newQueue,
    command.timestamp.setWidth 32,(command.timestamp >>> 32).setWidth 32,0,0,0,0])

/-- `AppleAgxG13BuildJoinedRun`: the messages of the 3D queue and of the TA queue. -/
def buildJoinedRun (d3 ta : RunCommand) : Option (List Byte × List Byte) :=
  if d3.queueType ≠ 1 ∨ ta.queueType ≠ 0 ∨ d3.eventNumber = ta.eventNumber then none
  else match encodeRunCommand d3,encodeRunCommand ta with
    | some first,some second => some (first,second)
    | _,_ => none

abbrev eventFault : U32 := 0
abbrev eventFlag : U32 := 1
abbrev eventTimeout : U32 := 4
abbrev eventGrowTvb : U32 := 7
abbrev eventChannelError : U32 := 8

/-- `APPLE_AGX_G13_EVENT`, as far as the runtime looks at it. -/
structure Event where
  kind : U32
  firing0 : U64
  firing1 : U64
  terminalFault : Bool
deriving DecidableEq

/-- `AppleAgxG13DecodeEvent`. -/
def decodeEvent (message : List Byte) : Option Event :=
  if message.length ≠ eventMessageSize then none
  else
    let kind := u32At (contents message) 0
    if kind = eventFlag then some ⟨kind,u64At (contents message) 4,u64At (contents message) 12,false⟩
    else if kind = eventTimeout then some ⟨kind,0,0,true⟩
    else if kind = eventGrowTvb then some ⟨kind,0,0,false⟩
    else if kind = eventFault ∨ kind = eventChannelError then some ⟨kind,0,0,true⟩
    else none

/-- `AppleAgxG13EventHasNumber`. -/
def eventHasNumber (event : Event) (eventNumber : U32) : Bool :=
  if event.kind ≠ eventFlag ∨ eventCount ≤ eventNumber then false
  else (if eventNumber / 64 = 0 then event.firing0 else event.firing1) &&& ((1 : U64) <<< (eventNumber % 64).toNat) != 0

/-- `AppleAgxG13CompletionSatisfiedWindow`. -/
def completionSatisfiedWindow (event : Event) (eventNumber observedStamp expectedStamp observedDone expectedDone writePointer
    capacity : U32) : Bool :=
  if expectedStamp = 0 ∨ capacity = 0 ∨ ringCapacityMax < capacity ∨ ¬ eventHasNumber event eventNumber ∨
      capacity ≤ observedDone ∨ capacity ≤ expectedDone ∨ capacity ≤ writePointer ∨
      (writePointer + capacity - expectedDone) % capacity < (observedDone + capacity - expectedDone) % capacity then false
  else observedStamp - expectedStamp < 0x80000000

inductive Queue
  | ta | d3 | compute
deriving DecidableEq

/-- `APPLE_AGX_G13_QUEUE_TYPE`. -/
def Queue.type : Queue → U32
  | ta => 0
  | d3 => 1
  | compute => 2

inductive Phase
  | ready | computeSubmitted | computeComplete | submitted | completionPending | faulted
deriving DecidableEq
inductive Result
  | ok | invalidArgument | invalidState | busy | memoryFailed | transportFailed | faulted | timedOut | cancelled | resetFailed
deriving DecidableEq
inductive CompletionStatus
  | success | faulted | timedOut | cancelled | recovered
deriving DecidableEq

/-- `APPLE_AGX_G13_QUEUE_BINDING`; an address that is 0 is a null pointer. -/
structure QueueBinding where
  queueType : U32
  queueInfoGpuAddress : U64
  ringCpuAddress : U64
  ringCapacity : U32
  cpuWritePointer : U64
  gpuDonePointer : U64
  stamp : U64
  eventNumber : U32
deriving DecidableEq

/-- `APPLE_AGX_G13_QUEUE_RUNTIME_CONFIG`. -/
structure Config where
  ta : QueueBinding
  d3 : QueueBinding
  compute : QueueBinding
  hasCompute : Bool
  timeoutTicks : U64
deriving DecidableEq

def Config.binding (config : Config) : Queue → QueueBinding
  | .ta => config.ta
  | .d3 => config.d3
  | .compute => config.compute

/-- `APPLE_AGX_G13_QUEUE_PENDING`. -/
structure Pending where
  eventNumber : U32
  expectedStamp : U32
  expectedDonePointer : U32
  eventSeen : Bool
  complete : Bool
deriving DecidableEq

def Pending.zero : Pending := ⟨0,0,0,false,false⟩

/-- `APPLE_AGX_G13_QUEUE_RUNTIME_COMPLETION`. -/
structure Completion where
  fence : U32
  status : CompletionStatus
deriving DecidableEq

/-- `APPLE_AGX_G13_QUEUE_RUNTIME`. -/
structure Runtime where
  phase : Phase
  config : Config
  pendingFence : U32
  deadlineTicks : U64
  bufferManagerInitialized : Bool
  taFirstRun : Bool
  d3FirstRun : Bool
  computeFirstRun : Bool
  completionAvailable : Bool
  completion : Completion
  taPending : Pending
  d3Pending : Pending
  computePending : Pending
  computeTerminal : Bool
  computeInRender : Bool
  recoveredFaults : U32
  lastRecoveredEventKind : U32
  deadlinePassed : Bool
  deadlineExpiries : U32
deriving DecidableEq

def Runtime.pending (runtime : Runtime) : Queue → Pending
  | .ta => runtime.taPending
  | .d3 => runtime.d3Pending
  | .compute => runtime.computePending

/-- What the runtime reads of a queue. -/
inductive Field
  | writePointer | donePointer | stamp
deriving DecidableEq

/-- What the callbacks answer during an operation. A `Recover` that is absent answers false. -/
structure Io where
  read : Queue → Field → Option U32
  flushWork : Queue → Nat → Bool
  flushRing : Queue → Nat → Bool
  publish : Queue → Bool
  send : Queue → Bool
  quiesce : Bool
  recover : Bool

/-- What an operation does that others can see. -/
inductive Effect
  | ring (queue : Queue) (slot : U32) (address : U64)
  | publish (queue : Queue) (pointer : U32)
  | run (queue : Queue) (message : List Byte)
  | quiesce (fence : U32)
  | recover (fence kind : U32)
deriving DecidableEq

structure Outcome where
  result : Result
  runtime : Runtime
  effects : List Effect
def refuse (result : Result) (runtime : Runtime) : Outcome := ⟨result,runtime,[]⟩

/-- `AppleAgxG13QueueBindingValid`. -/
def queueBindingValid (binding : QueueBinding) (expectedType : U32) : Bool :=
  binding.queueType == expectedType && binding.queueInfoGpuAddress != 0 && binding.queueInfoGpuAddress &&& 7 == 0 &&
    binding.ringCpuAddress != 0 && 2 < binding.ringCapacity && binding.ringCapacity ≤ ringCapacityMax &&
    binding.cpuWritePointer != 0 && binding.gpuDonePointer != 0 && binding.stamp != 0 && binding.eventNumber < eventCount

/-- What `AppleAgxG13QueueRuntimeInitialize` demands of the configuration. -/
def configValid (config : Config) : Bool :=
  config.timeoutTicks != 0 && queueBindingValid config.ta Queue.ta.type && queueBindingValid config.d3 Queue.d3.type &&
    (!config.hasCompute || queueBindingValid config.compute Queue.compute.type) &&
    config.ta.eventNumber != config.d3.eventNumber &&
    (!config.hasCompute || (config.compute.eventNumber != config.ta.eventNumber &&
      config.compute.eventNumber != config.d3.eventNumber))

/-- A pointer of a queue was read and is inside the ring. -/
def pointerInside (io : Io) (config : Config) (queue : Queue) (field : Field) : Bool :=
  (io.read queue field).any (fun pointer => pointer < (config.binding queue).ringCapacity)

/-- The runtime of a configuration before the first submission. -/
def freshRuntime (config : Config) : Runtime :=
  { phase := .ready, config := config, pendingFence := 0, deadlineTicks := 0, bufferManagerInitialized := false
    taFirstRun := true, d3FirstRun := true, computeFirstRun := true, completionAvailable := false
    completion := ⟨0,.success⟩, taPending := Pending.zero, d3Pending := Pending.zero, computePending := Pending.zero
    computeTerminal := false, computeInRender := false, recoveredFaults := 0, lastRecoveredEventKind := 0
    deadlinePassed := false, deadlineExpiries := 0 }

def Config.queues (config : Config) : List Queue := if config.hasCompute then [.ta,.d3,.compute] else [.ta,.d3]

/-- `AppleAgxG13QueueRuntimeInitialize`. -/
def queueRuntimeInitialize (io : Io) (config : Config) : Result × Option Runtime :=
  if ¬ configValid config then (.invalidArgument,none)
  else if ¬ config.queues.all (fun queue => (io.read queue .writePointer).isSome && (io.read queue .donePointer).isSome) then
    (.transportFailed,none)
  else if ¬ config.queues.all (fun queue => pointerInside io config queue .writePointer &&
      pointerInside io config queue .donePointer) then (.invalidArgument,none)
  else (.ok,some (freshRuntime config))

/-- `AppleAgxG13ClearPending`. -/
def clearPending (runtime : Runtime) : Runtime :=
  { runtime with
    pendingFence := 0, deadlineTicks := 0, deadlinePassed := false, completionAvailable := false
    taPending := Pending.zero, d3Pending := Pending.zero, computePending := Pending.zero
    computeTerminal := false, computeInRender := false }

/-- `APPLE_AGX_BACKEND_QUEUE_WORK_COUNT`. -/
abbrev workCount : U32 := 2

/-- `APPLE_AGX_G13_QUEUE_PUBLISH_MAX`. -/
abbrev publishMax : U32 := 3

/-- `APPLE_AGX_G13_WORK_PUBLICATION`. -/
structure WorkPublication where
  preparedRanges : List (U64 × U32)
  preparedRangeCount : U32
  source : U64
  destination : U64
  bytes : U32
  gpuAddresses : List U64
  gpuAddressCount : U32
  expectedStamp : U32
deriving DecidableEq

/-- `APPLE_AGX_G13_QUEUE_RUNTIME_SUBMISSION`. -/
structure Submission where
  fence : U32
  timestamp : U64
  nowTicks : U64
  ta : WorkPublication
  d3 : WorkPublication
  compute : WorkPublication
  computeOnly : Bool
  taLeadingBarrier : Bool
deriving DecidableEq

def Submission.work (submission : Submission) : Queue → WorkPublication
  | .ta => submission.ta
  | .d3 => submission.d3
  | .compute => submission.compute

/-- `AppleAgxG13WorkValid`. -/
def workValid (work : WorkPublication) : Bool :=
  if work.gpuAddressCount = 0 ∨ publishMax < work.gpuAddressCount ∨ work.expectedStamp = 0 then false
  else
    let prepared := work.preparedRangeCount == work.gpuAddressCount
    let legacy := work.preparedRangeCount == 0 && work.source != 0 && work.destination != 0 && work.bytes != 0
    (prepared || legacy) && (List.range work.gpuAddressCount.toNat).all (fun index =>
      work.gpuAddresses.getD index 0 != 0 && work.gpuAddresses.getD index 0 &&& 0x1f == 0 &&
        (!prepared || ((work.preparedRanges.getD index (0,0)).1 != 0 && (work.preparedRanges.getD index (0,0)).2 != 0)))

/-- `AppleAgxG13PublishPreparedWork`: every range is flushed, or the copied work is. -/
def publishPreparedWork (io : Io) (queue : Queue) (work : WorkPublication) : Bool :=
  if work.preparedRangeCount ≠ 0 then (List.range work.preparedRangeCount.toNat).all (io.flushWork queue)
  else io.flushWork queue 0

/-- `APPLE_AGX_G13_QUEUE_BATCH_PUBLICATION`, with the cells of its array that are written. -/
structure BatchPublication where
  ringIndices : List U32
  nextWritePointer : U32
  expectedDonePointer : U32
  bounded : ringIndices.length ≤ publishMax.toNat
deriving DecidableEq

/-- The slots from a write pointer on, and the pointer behind them, while they do not meet the done pointer. -/
def prepareSlots (capacity done : U32) : Nat → U32 → Option (List U32 × U32)
  | 0, next => some ([],next)
  | entries+1, next =>
    let following := if capacity ≤ next + 1 then 0 else next + 1
    if following = done then none
    else (prepareSlots capacity done entries following).map (fun (slots,last) => (next :: slots,last))

/-- `AppleAgxG13PrepareQueue`. The source checks no bound: an index behind the array, of a count that
    `AppleAgxG13WorkValid` refuses, has no cell here. -/
def prepareQueue (io : Io) (config : Config) (queue : Queue) (work : WorkPublication) (firstRun : Bool) (timestamp : U64) :
    Option (BatchPublication × RunCommand) :=
  let binding := config.binding queue
  match io.read queue .writePointer,io.read queue .donePointer with
  | some current,some done =>
    if binding.ringCapacity ≤ current ∨ binding.ringCapacity ≤ done then none
    else match prepareSlots binding.ringCapacity done work.gpuAddressCount.toNat current with
      | none => none
      | some (slots,next) => some (⟨slots.take publishMax.toNat,next,next,List.length_take_le _ _⟩,
          { queueType := binding.queueType, commandQueueAddress := binding.queueInfoGpuAddress, head := next
            eventNumber := binding.eventNumber, newQueue := if firstRun then 1 else 0, timestamp := timestamp })
  | _,_ => none

/-- `AppleAgxG13WriteRing`, and the same loop where the submissions have it inline. -/
def writeRing (io : Io) (queue : Queue) : (index : Nat) → List (U32 × U64) → Bool × List Effect
  | _, [] => (true,[])
  | index, (slot,address) :: rest =>
    if io.flushRing queue index then
      let (done,effects) := writeRing io queue (index + 1) rest
      (done,.ring queue slot address :: effects)
    else (false,[.ring queue slot address])

def ringEntries (work : WorkPublication) (publication : BatchPublication) : List (U32 × U64) :=
  publication.ringIndices.zip work.gpuAddresses

/-- Rings written one after another until one fails. -/
def writeRings (io : Io) : List (Queue × List (U32 × U64)) → Bool × List Effect
  | [] => (true,[])
  | (queue,entries) :: rest =>
    match writeRing io queue 0 entries with
    | (false,effects) => (false,effects)
    | (true,effects) =>
      let (done,more) := writeRings io rest
      (done,effects ++ more)

/-- Messages sent one after another until one fails. -/
def sendRuns (io : Io) : List (Queue × List Byte) → Bool × List Effect
  | [] => (true,[])
  | (queue,message) :: rest =>
    if io.send queue then
      let (done,effects) := sendRuns io rest
      (done,.run queue message :: effects)
    else (false,[.run queue message])

/-- `AppleAgxG13SubmitFailure`. -/
def submitFailure (io : Io) (runtime : Runtime) (result : Result) (visibleToFirmware : Bool) (effects : List Effect) : Outcome :=
  if visibleToFirmware then
    if ¬ io.quiesce then ⟨.resetFailed,{ runtime with phase := .faulted },effects ++ [.quiesce runtime.pendingFence]⟩
    else ⟨result,clearPending { runtime with phase := .faulted },effects ++ [.quiesce runtime.pendingFence]⟩
  else ⟨result,clearPending { runtime with phase := .ready },effects⟩

/-- The fence and the deadline of a submission that is being published. -/
def arm (submission : Submission) (runtime : Runtime) : Runtime :=
  { runtime with
    pendingFence := submission.fence
    deadlineTicks := submission.nowTicks + runtime.config.timeoutTicks
    deadlinePassed := false }

def awaited (binding : QueueBinding) (work : WorkPublication) (publication : BatchPublication) (pending : Pending) : Pending :=
  { pending with
    eventNumber := binding.eventNumber
    expectedStamp := work.expectedStamp
    expectedDonePointer := publication.expectedDonePointer }

/-- `AppleAgxG13QueueRuntimeSubmitCompute`. -/
def queueRuntimeSubmitCompute (io : Io) (submission : Submission) (runtime : Runtime) : Outcome :=
  if ¬ runtime.config.hasCompute ∨ runtime.phase ≠ .ready ∨ submission.fence = 0 ∨ submission.nowTicks = 0 ∨
      ¬ workValid submission.compute ∨ submission.compute.gpuAddressCount ≠ 1 ∨ ¬ submission.computeOnly ∨
      submission.taLeadingBarrier then refuse .invalidArgument runtime
  else match prepareQueue io runtime.config .compute submission.compute runtime.computeFirstRun submission.timestamp with
    | none => refuse .busy runtime
    | some (publication,run) =>
      match encodeRunCommand run with
      | none => refuse .busy runtime
      | some message =>
        let armed := arm submission runtime
        if ¬ publishPreparedWork io .compute submission.compute then submitFailure io armed .memoryFailed false []
        else match writeRings io [(.compute,ringEntries submission.compute publication)] with
          | (false,effects) => submitFailure io armed .memoryFailed false effects
          | (true,effects) =>
            if ¬ io.publish .compute then submitFailure io armed .memoryFailed false effects
            else match sendRuns io [(.compute,message)] with
              | (false,sent) => submitFailure io armed .transportFailed true
                  (effects ++ [.publish .compute publication.nextWritePointer] ++ sent)
              | (true,sent) => ⟨.ok,{ armed with
                  computePending := awaited runtime.config.compute submission.compute publication armed.computePending
                  computeTerminal := true, computeFirstRun := false, phase := .computeSubmitted },
                  effects ++ [.publish .compute publication.nextWritePointer] ++ sent⟩

/-- `AppleAgxG13QueueRuntimeSubmitRenderWithCompute`. -/
def queueRuntimeSubmitRenderWithCompute (io : Io) (submission : Submission) (runtime : Runtime) : Outcome :=
  let taEntries := (if runtime.bufferManagerInitialized then 1 else workCount) + 1
  if ¬ runtime.config.hasCompute ∨ submission.fence = 0 ∨ submission.nowTicks = 0 ∨ submission.computeOnly ∨
      ¬ submission.taLeadingBarrier ∨ ¬ workValid submission.ta ∨ ¬ workValid submission.d3 ∨ ¬ workValid submission.compute ∨
      submission.compute.gpuAddressCount ≠ 1 ∨ submission.d3.gpuAddressCount ≠ workCount ∨
      submission.ta.gpuAddressCount ≠ taEntries then refuse .invalidArgument runtime
  else if runtime.phase = .submitted ∨ runtime.phase = .computeSubmitted ∨ runtime.phase = .completionPending then
    refuse .busy runtime
  else if runtime.phase ≠ .ready then refuse .invalidState runtime
  else match prepareQueue io runtime.config .compute submission.compute runtime.computeFirstRun submission.timestamp,
      prepareQueue io runtime.config .ta submission.ta runtime.taFirstRun submission.timestamp,
      prepareQueue io runtime.config .d3 submission.d3 runtime.d3FirstRun submission.timestamp with
    | some (compute,computeRun),some (ta,taRun),some (d3,d3Run) =>
      match encodeRunCommand computeRun,buildJoinedRun d3Run taRun with
      | some computeMessage,some (d3Message,taMessage) =>
        let armed := arm submission runtime
        if ¬ (publishPreparedWork io .compute submission.compute && publishPreparedWork io .d3 submission.d3 &&
            publishPreparedWork io .ta submission.ta) then submitFailure io armed .memoryFailed false []
        else match writeRings io [(.compute,ringEntries submission.compute compute),(.d3,ringEntries submission.d3 d3),
            (.ta,ringEntries submission.ta ta)] with
          | (false,effects) => submitFailure io armed .memoryFailed false effects
          | (true,effects) =>
            if ¬ io.publish .compute then submitFailure io armed .memoryFailed false effects
            else
              let visible := effects ++ [.publish .compute compute.nextWritePointer]
              if ¬ io.publish .d3 then submitFailure io armed .memoryFailed true visible
              else if ¬ io.publish .ta then
                submitFailure io armed .memoryFailed true (visible ++ [.publish .d3 d3.nextWritePointer])
              else
                let published := visible ++ [.publish .d3 d3.nextWritePointer,.publish .ta ta.nextWritePointer]
                match sendRuns io [(.compute,computeMessage),(.d3,d3Message),(.ta,taMessage)] with
                | (false,sent) => submitFailure io armed .transportFailed true (published ++ sent)
                | (true,sent) => ⟨.ok,{ armed with
                    computePending := awaited runtime.config.compute submission.compute compute armed.computePending
                    d3Pending := awaited runtime.config.d3 submission.d3 d3 armed.d3Pending
                    taPending := awaited runtime.config.ta submission.ta ta armed.taPending
                    computeTerminal := false, computeInRender := true, computeFirstRun := false, d3FirstRun := false
                    taFirstRun := false, bufferManagerInitialized := true, phase := .submitted },published ++ sent⟩
      | _,_ => refuse .busy runtime
    | _,_,_ => refuse .busy runtime

/-- `AppleAgxG13QueueRuntimeSubmit`. -/
def queueRuntimeSubmit (io : Io) (submission : Submission) (runtime : Runtime) : Outcome :=
  if submission.fence = 0 ∨ submission.nowTicks = 0 ∨ submission.taLeadingBarrier ∨ ¬ workValid submission.ta ∨
      ¬ workValid submission.d3 ∨ submission.d3.gpuAddressCount ≠ workCount ∨
      submission.ta.gpuAddressCount ≠ (if runtime.bufferManagerInitialized then 1 else workCount) then
    refuse .invalidArgument runtime
  else if runtime.phase = .submitted ∨ runtime.phase = .completionPending then refuse .busy runtime
  else if runtime.phase ≠ .ready then refuse .invalidState runtime
  else match prepareQueue io runtime.config .ta submission.ta runtime.taFirstRun submission.timestamp,
      prepareQueue io runtime.config .d3 submission.d3 runtime.d3FirstRun submission.timestamp with
    | some (ta,taRun),some (d3,d3Run) =>
      match buildJoinedRun d3Run taRun with
      | none => refuse .busy runtime
      | some (d3Message,taMessage) =>
        let armed := arm submission runtime
        if ¬ (publishPreparedWork io .d3 submission.d3 && publishPreparedWork io .ta submission.ta) then
          submitFailure io armed .memoryFailed false []
        else match writeRings io [(.d3,ringEntries submission.d3 d3),(.ta,ringEntries submission.ta ta)] with
          | (false,effects) => submitFailure io armed .memoryFailed false effects
          | (true,effects) =>
            if ¬ io.publish .d3 then submitFailure io armed .memoryFailed false effects
            else
              let visible := effects ++ [.publish .d3 d3.nextWritePointer]
              if ¬ io.publish .ta then submitFailure io armed .memoryFailed true visible
              else
                let published := visible ++ [.publish .ta ta.nextWritePointer]
                match sendRuns io [(.d3,d3Message),(.ta,taMessage)] with
                | (false,sent) => submitFailure io armed .transportFailed true (published ++ sent)
                | (true,sent) => ⟨.ok,{ armed with
                    d3Pending := awaited runtime.config.d3 submission.d3 d3 armed.d3Pending
                    taPending := awaited runtime.config.ta submission.ta ta armed.taPending
                    d3FirstRun := false, taFirstRun := false, bufferManagerInitialized := true
                    phase := .submitted },published ++ sent⟩
    | _,_ => refuse .busy runtime

/-- `AppleAgxG13SetCompletion`. -/
def setCompletion (status : CompletionStatus) (runtime : Runtime) : Runtime :=
  { runtime with
    completion := ⟨runtime.pendingFence,status⟩, completionAvailable := true, phase := .completionPending }

/-- `AppleAgxG13ObserveQueue`: whether the reads succeeded, and what is awaited then. -/
def observeQueue (io : Io) (event : Event) (config : Config) (queue : Queue) (pending : Pending) : Bool × Pending :=
  if pending.complete then (true,pending)
  else
    let seen := if eventHasNumber event pending.eventNumber then { pending with eventSeen := true } else pending
    if ¬ seen.eventSeen then (true,seen)
    else match io.read queue .stamp,io.read queue .donePointer,io.read queue .writePointer with
      | some stamp,some done,some write =>
        if completionSatisfiedWindow event seen.eventNumber stamp seen.expectedStamp done seen.expectedDonePointer write
            (config.binding queue).ringCapacity then (true,{ seen with complete := true })
        else (true,seen)
      | _,_,_ => (false,seen)

/-- `AppleAgxG13TerminalFailure`. -/
def terminalFailure (io : Io) (runtime : Runtime) (status : CompletionStatus) (result : Result) (effects : List Effect) : Outcome :=
  if ¬ io.quiesce then ⟨.resetFailed,{ runtime with phase := .faulted, completionAvailable := false },
    effects ++ [.quiesce runtime.pendingFence]⟩
  else ⟨result,setCompletion status runtime,effects ++ [.quiesce runtime.pendingFence]⟩

/-- `AppleAgxG13RecoverFirmware`. -/
def recoverFirmware (io : Io) (event : Event) (runtime : Runtime) : Option Runtime :=
  if (event.kind ≠ eventTimeout ∧ event.kind ≠ eventFault) ∨ ¬ io.recover then none
  else some (setCompletion .recovered { runtime with
    recoveredFaults := runtime.recoveredFaults + 1, lastRecoveredEventKind := event.kind })

/-- What the handling of an event does when the event is a terminal fault. -/
def handleFault (io : Io) (event : Event) (runtime : Runtime) : Outcome :=
  let asked := if event.kind = eventTimeout ∨ event.kind = eventFault then [Effect.recover runtime.pendingFence event.kind] else []
  match recoverFirmware io event runtime with
  | some recovered => ⟨.ok,recovered,asked⟩
  | none => terminalFailure io runtime .faulted .faulted asked

/-- The handling of an event of a compute job. -/
def handleComputeFlag (io : Io) (event : Event) (runtime : Runtime) : Outcome :=
  let (readable,compute) := observeQueue io event runtime.config .compute runtime.computePending
  let observed := { runtime with computePending := compute }
  if ¬ readable then terminalFailure io observed .faulted .transportFailed []
  else if observed.computePending.complete ∧ observed.computeTerminal then ⟨.ok,setCompletion .success observed,[]⟩
  else ⟨.ok,observed,[]⟩

/-- The handling of an event of a render job. -/
def handleRenderFlag (io : Io) (event : Event) (runtime : Runtime) : Outcome :=
  let (readable3d,d3) := observeQueue io event runtime.config .d3 runtime.d3Pending
  let observed3d := { runtime with d3Pending := d3 }
  if ¬ readable3d then terminalFailure io observed3d .faulted .transportFailed []
  else
    let (readableTa,ta) := observeQueue io event runtime.config .ta runtime.taPending
    let observedTa := { observed3d with taPending := ta }
    if ¬ readableTa then terminalFailure io observedTa .faulted .transportFailed []
    else
      let (readable,compute) := if runtime.computeInRender
        then observeQueue io event runtime.config .compute runtime.computePending else (true,runtime.computePending)
      let observed := { observedTa with computePending := compute }
      if ¬ readable then terminalFailure io observed .faulted .transportFailed []
      else if observed.d3Pending.complete ∧ observed.taPending.complete ∧
          (¬ observed.computeInRender ∨ observed.computePending.complete) then ⟨.ok,setCompletion .success observed,[]⟩
      else ⟨.ok,observed,[]⟩

/-- `AppleAgxG13QueueRuntimeHandleEvent`. -/
def queueRuntimeHandleEvent (io : Io) (message : List Byte) (runtime : Runtime) : Outcome :=
  if runtime.phase ≠ .submitted ∧ runtime.phase ≠ .computeSubmitted then refuse .invalidState runtime
  else match decodeEvent message with
    | none => refuse .invalidArgument runtime
    | some event =>
      if event.terminalFault then handleFault io event runtime
      else if event.kind ≠ eventFlag then refuse .ok runtime
      else if runtime.phase = .computeSubmitted then handleComputeFlag io event runtime
      else handleRenderFlag io event runtime

/-- `AppleAgxG13QueueRuntimeCheckTimeout`. -/
def queueRuntimeCheckTimeout (nowTicks : U64) (runtime : Runtime) : Outcome :=
  if nowTicks = 0 then refuse .invalidArgument runtime
  else if runtime.phase ≠ .submitted ∧ runtime.phase ≠ .computeSubmitted then refuse .invalidState runtime
  else if (1 : U64) <<< 63 ≤ nowTicks - runtime.deadlineTicks then refuse .ok runtime
  else if runtime.deadlinePassed then refuse .ok runtime
  else ⟨.ok,{ runtime with deadlinePassed := true, deadlineExpiries := runtime.deadlineExpiries + 1 },[]⟩

/-- `AppleAgxG13QueueRuntimeCancel`. -/
def queueRuntimeCancel (io : Io) (fence : U32) (runtime : Runtime) : Outcome :=
  if fence = 0 then refuse .invalidArgument runtime
  else if (runtime.phase ≠ .submitted ∧ runtime.phase ≠ .computeSubmitted) ∨ runtime.pendingFence ≠ fence then
    refuse .invalidState runtime
  else terminalFailure io runtime .cancelled .cancelled []

/-- Done pointers published as write pointers, one after another until one fails. -/
def rebase (io : Io) : List Queue → Bool × List Effect
  | [] => (true,[])
  | queue :: rest =>
    if io.publish queue then
      let (done,effects) := rebase io rest
      (done,.publish queue ((io.read queue .donePointer).getD 0) :: effects)
    else (false,[])

/-- `AppleAgxG13QueueRuntimeReset`. -/
def queueRuntimeReset (io : Io) (runtime : Runtime) : Outcome :=
  if runtime.phase = .completionPending then refuse .invalidState runtime
  else
    let stopped := if runtime.phase = .submitted ∨ runtime.phase = .computeSubmitted
      then [Effect.quiesce runtime.pendingFence] else []
    if stopped ≠ [] ∧ ¬ io.quiesce then ⟨.resetFailed,runtime,stopped⟩
    else if ¬ runtime.config.queues.all (fun queue => pointerInside io runtime.config queue .donePointer) then
      ⟨.resetFailed,{ runtime with phase := .faulted },stopped⟩
    else match rebase io runtime.config.queues with
      | (false,effects) => ⟨.resetFailed,{ runtime with phase := .faulted },stopped ++ effects⟩
      | (true,effects) => ⟨.ok,{ clearPending runtime with
          taFirstRun := true, d3FirstRun := true, computeFirstRun := true, bufferManagerInitialized := false
          phase := .ready },stopped ++ effects⟩

/-- `AppleAgxG13QueueRuntimeTakeCompletion`. -/
def queueRuntimeTakeCompletion (runtime : Runtime) : Option Completion × Runtime :=
  if runtime.phase ≠ .completionPending ∨ ¬ runtime.completionAvailable then (none,runtime)
  else (some runtime.completion,{ clearPending runtime with
    phase := if runtime.completion.status = .success ∨ runtime.completion.status = .recovered then .ready else .faulted })

end WindowsOnM1.QueueRuntimeModel
