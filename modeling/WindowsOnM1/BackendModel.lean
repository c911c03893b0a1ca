import WindowsOnM1.BackendFirmware

/-!
The backend runtime of `apple_agx_backend_runtime.c`: its five entry points over callbacks
that answer by the turn in which they are called. The world keeps the calls that are made.
Null pointers do not occur, but `RunCompute` may be absent.
-/
namespace WindowsOnM1.BackendModel
open Actions BackendFirmware

inductive CompletionStatus
  | success | faulted | timedOut | reset | cancelled | dropped
deriving DecidableEq
inductive Phase
  | stopped | starting | ready | submitted | stopping | failed
deriving DecidableEq
inductive RuntimeResult
  | ok | invalidArgument | invalidState | busy | memoryFailed | imageFailed | firmwareFailed | contextFailed | queueFailed
  | faulted | cleanupFailed
deriving DecidableEq
inductive Queue
  | ta | d3 | compute
deriving DecidableEq

/-- `APPLE_AGX_BACKEND_OBSERVATION_STATUS`; `other` stands for every other number. -/
inductive ObservationStatus
  | complete | fault | timeout | reset | recovered | other
deriving DecidableEq
inductive SubmissionKind
  | invalid | gdi | paging | contextSwitch | null
deriving DecidableEq

/-- `APPLE_AGX_BACKEND_SUBMISSION` with the fields of `APPLE_AGX_SUBMISSION` that are read. -/
structure Submission where
  kind : SubmissionKind
  fence : U32
  nodeOrdinal : U32
  engineOrdinal : U32
  dmaBytes : U32
  contextIdentity : U64
  privateData : U64
  privateDataBytes : U32
  privateDataStart : U32
  privateDataEnd : U32
  dmaSubmissionStart : U32
  dmaSubmissionEnd : U32
deriving DecidableEq

def noSubmission : Submission := ⟨.invalid,0,0,0,0,0,0,0,0,0,0,0⟩
abbrev jobRender : U32 := 0
abbrev jobCompute : U32 := 1
abbrev queueWorkCount : U32 := 2

/-- `APPLE_AGX_BACKEND_JOB_IMAGE`. -/
structure JobImage where
  taWorkAddresses : U64 × U64
  d3WorkAddresses : U64 × U64
  computeWorkAddresses : U64 × U64
  taWorkAddressCount : U32
  d3WorkAddressCount : U32
  computeWorkAddressCount : U32
  taEvent : U32
  d3Event : U32
  computeEvent : U32
  taExpectedStamp : U32
  d3ExpectedStamp : U32
  computeExpectedStamp : U32
  taExpectedDonePointer : U32
  d3ExpectedDonePointer : U32
  computeExpectedDonePointer : U32
  kind : U32
  taBarrierAddress : U64
deriving DecidableEq

def noJob : JobImage := ⟨(0,0),(0,0),(0,0),0,0,0,0,0,0,0,0,0,0,0,0,0,0⟩

/-- `APPLE_AGX_BACKEND_OBSERVATION`. -/
structure Observation where
  queue : Queue
  event : U32
  stamp : U32
  donePointer : U32
  status : ObservationStatus
deriving DecidableEq

/-- `APPLE_AGX_RENDER_TEMPLATE_ROOTS`. -/
structure Roots where
  ta : U64 × U64
  d3 : U64 × U64
deriving DecidableEq

/-- `APPLE_AGX_BACKEND_RUNTIME` without the callbacks and the firmware. -/
structure Runtime where
  phase : Phase
  contextIdentity : U64
  arenaCpuAddress : U64
  arenaGpuAddress : U64
  arenaBytes : U32
  roots : Roots
  pendingSubmission : Submission
  pendingJob : JobImage
  arenaMapped : Bool
  contextPublished : Bool
  queuesCreated : Bool
  queuesQuiesced : Bool
  taComplete : Bool
  d3Complete : Bool
  computeComplete : Bool
  terminalPending : Bool
  terminalCpuFlushed : Bool
  terminalStatus : CompletionStatus
  terminalNextPhase : Phase
  terminalResult : RuntimeResult

/-- `APPLE_AGX_BACKEND_IO`. -/
structure BackendIo where
  firmware : FirmwareIo
  map : Nat → Bool × U64 × U64 × U32
  unmap : Nat → U64 → U32 → Bool
  resolve : Nat → Submission → Bool × U64 × U32
  flushForDevice : Nat → U64 → U32 → Bool
  flushForCpu : Nat → U64 → U32 → Bool
  acquirePrepared : Nat → U64 → U32 → Bool × Roots
  relocate : Nat → U64 → U32 → Roots → U64 → U32 → Submission → Bool × JobImage
  publish : Nat → Bool
  unpublish : Nat → Bool
  create : Nat → Bool
  destroy : Nat → Bool
  run3d : Nat → JobImage → U32 → Bool
  runTa : Nat → JobImage → U32 → Bool
  runCompute : Option (Nat → JobImage → U32 → Bool)
  stop : Nat → U32 → Bool
  reset : Nat → U32 → Bool
  complete : Nat → U32 → U32 → U32 → CompletionStatus → Bool
  retire : Nat → U32 → U32 → U32 → Bool

/-- A call and its answer. An unmap shows what was there at the time; an observation is one
that the runtime was given. -/
inductive Call
  | unmap (queuesCreated contextPublished firmwareRolledBack done : Bool)
  | publish (done : Bool)
  | unpublish (done : Bool)
  | create (done : Bool)
  | destroy (done : Bool)
  | run3d (job : JobImage) (fence : U32) (admitted : Bool)
  | runTa (fence : U32) (done : Bool)
  | runCompute (job : JobImage) (fence : U32) (admitted : Bool)
  | stop (fence : U32) (done : Bool)
  | reset (fence : U32) (done : Bool)
  | complete (fence node engine : U32) (status : CompletionStatus) (done : Bool)
  | retire (fence node engine : U32) (done : Bool)
  | observed (observation : Observation)
deriving DecidableEq

structure World where
  runtime : Runtime
  host : FirmwareHost
  calls : List Call
abbrev BackendAction (α : Type) := StateM World α

/-- A callback that is not recorded. -/
def query {α : Type} (callback : Nat → α) : BackendAction α := focus World.host (fun host world => { world with host := host }) (ask callback)

/-- A callback whose answer is recorded. -/
def call (callback : Nat → Bool) (record : Bool → Call) : BackendAction Bool := fun world =>
  (callback world.host.turn,{ world with
    host := { world.host with turn := world.host.turn + 1 }
    calls := world.calls ++ [record (callback world.host.turn)] })

def onFirmware {α : Type} (action : FirmwareAction α) : BackendAction α :=
  focus World.host (fun host world => { world with host := host }) action
def changeRuntime (change : Runtime → Runtime) : BackendAction Unit :=
  modify (fun world => { world with runtime := change world.runtime })
def setPhase (phase : Phase) : BackendAction Unit := changeRuntime (fun runtime => { runtime with phase := phase })
@[simp] theorem gives_query {α : Type} (callback : Nat → α) (world : World) (post : α → World → Prop) :
    Gives (query callback) world post =
      post (callback world.host.turn) { world with host := { world.host with turn := world.host.turn + 1 } } := (rfl)
@[simp] theorem gives_call (callback : Nat → Bool) (record : Bool → Call) (world : World) (post : Bool → World → Prop) :
    Gives (call callback record) world post = post (callback world.host.turn) { world with
      host := { world.host with turn := world.host.turn + 1 }
      calls := world.calls ++ [record (callback world.host.turn)] } := (rfl)
@[simp] theorem gives_onFirmware {α : Type} (action : FirmwareAction α) (world : World) (post : α → World → Prop) :
    Gives (onFirmware action) world post =
      Gives action world.host (fun value host => post value { world with host := host }) := (rfl)
@[simp] theorem gives_changeRuntime (change : Runtime → Runtime) (world : World) (post : Unit → World → Prop) :
    Gives (changeRuntime change) world post = post () { world with runtime := change world.runtime } := (rfl)
@[simp] theorem gives_setPhase (phase : Phase) (world : World) (post : Unit → World → Prop) :
    Gives (setPhase phase) world post = post () { world with runtime := { world.runtime with phase := phase } } := (rfl)

variable (io : BackendIo)

/-- `AppleAgxBackendRootsValid`. -/
def rootsValid (roots : Roots) : Bool := roots.ta.1 ≠ 0 ∧ roots.ta.2 ≠ 0 ∧ roots.d3.1 ≠ 0 ∧ roots.d3.2 ≠ 0

/-- `AppleAgxBackendClearPending`. -/
def clearPending (runtime : Runtime) : Runtime := { runtime with
  pendingSubmission := noSubmission, pendingJob := noJob, taComplete := false, d3Complete := false
  computeComplete := false, terminalPending := false, terminalCpuFlushed := false, terminalStatus := .success
  terminalNextPhase := .stopped, terminalResult := .invalidState }

/-- `AppleAgxBackendRuntimeInitialize`. -/
def runtimeInitialize (contextIdentity : U64) : World where
  runtime := {
    phase := .stopped, contextIdentity := contextIdentity, arenaCpuAddress := 0, arenaGpuAddress := 0, arenaBytes := 0
    roots := ⟨(0,0),(0,0)⟩, pendingSubmission := noSubmission, pendingJob := noJob, arenaMapped := false
    contextPublished := false, queuesCreated := false, queuesQuiesced := false, taComplete := false, d3Complete := false
    computeComplete := false, terminalPending := false, terminalCpuFlushed := false, terminalStatus := .success
    terminalNextPhase := .stopped, terminalResult := .ok }
  host := ⟨firmwareInitialize,0,[]⟩
  calls := []

/-- The destruction of the queues, if there are any: whether it failed. -/
def destroyQueues : BackendAction Bool := do
  let world ← get
  if world.runtime.queuesCreated then
    let done ← call io.destroy .destroy
    if done then
      changeRuntime (fun runtime => { runtime with queuesCreated := false, queuesQuiesced := false })
      pure false
    else pure true
  else pure false

/-- The end of the context's publication, if there is one: whether it failed. -/
def unpublishContext : BackendAction Bool := do
  let world ← get
  if world.runtime.contextPublished then
    let done ← call io.unpublish .unpublish
    if done then
      changeRuntime (fun runtime => { runtime with contextPublished := false })
      pure false
    else pure true
  else pure false

/-- The unmapping of the arena, if it is mapped: whether it failed. -/
def unmapArena : BackendAction Bool := do
  let world ← get
  if world.runtime.arenaMapped then
    let done ← call (fun turn => io.unmap turn world.runtime.arenaCpuAddress world.runtime.arenaBytes)
      (.unmap world.runtime.queuesCreated world.runtime.contextPublished (rolledBack world.host.firmware))
    if done then
      changeRuntime (fun runtime => { runtime with arenaMapped := false })
      pure false
    else pure true
  else pure false

/-- `AppleAgxBackendStartRollback`. -/
def startRollback (failure : RuntimeResult) : BackendAction RuntimeResult := do
  let queuesFailed ← destroyQueues io
  let contextFailed ← unpublishContext io
  let world ← get
  let firmwareFailed ← (if isZero world.host.firmware.completedMask then pure false else do
    let result ← onFirmware (firmwareRollback io.firmware)
    pure (decide (result ≠ .ok)))
  let unmapFailed ← unmapArena io
  if queuesFailed ∨ contextFailed ∨ firmwareFailed ∨ unmapFailed then
    setPhase .failed
    pure .cleanupFailed
  else
    setPhase .stopped
    pure failure

/-- `AppleAgxBackendRuntimeStart`. -/
def runtimeStart : BackendAction RuntimeResult := do
  let world ← get
  if world.runtime.contextIdentity = 0 then pure .invalidArgument
  else if world.runtime.phase ≠ .stopped then pure .invalidState
  else
    setPhase .starting
    let (mapped,cpuAddress,gpuAddress,bytes) ← query io.map
    changeRuntime (fun runtime => { runtime with
      arenaCpuAddress := cpuAddress, arenaGpuAddress := gpuAddress, arenaBytes := bytes })
    if ¬ mapped ∨ cpuAddress = 0 ∨ gpuAddress = 0 ∨ bytes = 0 then startRollback io .memoryFailed
    else
      changeRuntime (fun runtime => { runtime with arenaMapped := true })
      let (acquired,roots) ← query (fun turn => io.acquirePrepared turn cpuAddress bytes)
      changeRuntime (fun runtime => { runtime with roots := roots })
      if ¬ acquired ∨ ¬ rootsValid roots then startRollback io .imageFailed
      else
        let flushed ← query (fun turn => io.flushForDevice turn cpuAddress bytes)
        if ¬ flushed then startRollback io .memoryFailed
        else
          onFirmware (changeFirmware (fun _ => firmwareInitialize))
          let firmware ← onFirmware (firmwareStart io.firmware)
          if firmware ≠ .ok then startRollback io .firmwareFailed
          else
            let published ← call io.publish .publish
            if ¬ published then startRollback io .contextFailed
            else
              changeRuntime (fun runtime => { runtime with contextPublished := true })
              let created ← call io.create .create
              if ¬ created then startRollback io .queueFailed
              else
                changeRuntime (fun runtime => { runtime with
                  queuesCreated := true, queuesQuiesced := false, phase := .ready })
                pure .ok

/-- `AppleAgxBackendSubmissionValid`. -/
def submissionValid (runtime : Runtime) (submission : Submission) : Bool :=
  submission.contextIdentity = runtime.contextIdentity ∧ submission.kind = .gdi ∧ submission.fence ≠ 0 ∧
  submission.nodeOrdinal = 0 ∧ submission.engineOrdinal = 0 ∧ submission.privateData ≠ 0 ∧
  submission.privateDataBytes ≠ 0 ∧ submission.privateDataStart = 0 ∧
  submission.privateDataStart < submission.privateDataEnd ∧ submission.privateDataEnd ≤ submission.privateDataBytes ∧
  submission.dmaSubmissionStart < submission.dmaSubmissionEnd ∧
  submission.dmaSubmissionEnd - submission.dmaSubmissionStart = submission.dmaBytes

/-- `AppleAgxBackendJobValid`. -/
def jobValid (job : JobImage) : Bool :=
  if job.kind = jobCompute then
    job.computeWorkAddressCount = 1 ∧ job.computeWorkAddresses.1 ≠ 0 ∧ job.computeExpectedStamp ≠ 0 ∧
      job.taBarrierAddress = 0 ∧ job.taWorkAddressCount = 0 ∧ job.d3WorkAddressCount = 0
  else if job.kind ≠ jobRender then false
  else
    (job.computeWorkAddressCount ≠ 0 ↔ job.taBarrierAddress ≠ 0) ∧ job.taWorkAddressCount = queueWorkCount ∧
      job.d3WorkAddressCount = queueWorkCount ∧ job.taExpectedStamp ≠ 0 ∧ job.d3ExpectedStamp ≠ 0 ∧
      job.taWorkAddresses.1 ≠ 0 ∧ job.d3WorkAddresses.1 ≠ 0 ∧ job.taWorkAddresses.2 ≠ 0 ∧ job.d3WorkAddresses.2 ≠ 0

/-- The admission of a compute job; without the callback there is none. -/
def admitCompute (job : JobImage) (fence : U32) : BackendAction Bool :=
  match io.runCompute with
  | none => pure false
  | some runCompute => call (fun turn => runCompute turn job fence) (.runCompute job fence)

/-- The part of `AppleAgxBackendRuntimeSubmit` behind the checks. -/
def admitJob (submission : Submission) : BackendAction RuntimeResult := do
  changeRuntime (fun runtime => { runtime with
    pendingSubmission := submission, taComplete := false, d3Complete := false, computeComplete := false })
  let world ← get
  let job := world.runtime.pendingJob
  if job.kind = jobCompute then
    let admitted ← admitCompute io job submission.fence
    if ¬ admitted then
      changeRuntime clearPending
      setPhase .ready
      pure .queueFailed
    else
      setPhase .submitted
      pure .ok
  else
    let admitted ← call (fun turn => io.run3d turn job submission.fence) (.run3d job submission.fence)
    if ¬ admitted then
      -- The queue owner has never seen the fence, so only the shadow is dropped.
      changeRuntime clearPending
      setPhase .ready
      pure .queueFailed
    else
      let ran ← call (fun turn => io.runTa turn job submission.fence) (.runTa submission.fence)
      if ¬ ran then
        let stopped ← call (fun turn => io.stop turn submission.fence) (.stop submission.fence)
        changeRuntime (fun runtime => { runtime with
          queuesQuiesced := runtime.queuesQuiesced || stopped, phase := .failed })
        pure .queueFailed
      else
        setPhase .submitted
        pure .ok

/-- `AppleAgxBackendRuntimeSubmit`. -/
def runtimeSubmit (submission : Submission) : BackendAction RuntimeResult := do
  let world ← get
  if world.runtime.phase = .submitted then pure .busy
  else if world.runtime.phase ≠ .ready then pure .invalidState
  else if ¬ submissionValid world.runtime submission then pure .invalidArgument
  else
    let (resolved,bytes,count) ← query (fun turn => io.resolve turn submission)
    if ¬ resolved ∨ bytes = 0 ∨ count ≠ submission.dmaSubmissionEnd - submission.dmaSubmissionStart then pure .memoryFailed
    else
      let (relocated,job) ← query (fun turn => io.relocate turn world.runtime.arenaCpuAddress world.runtime.arenaBytes
        world.runtime.roots bytes count submission)
      changeRuntime (fun runtime => { runtime with pendingJob := job })
      if ¬ relocated ∨ ¬ jobValid job then pure .imageFailed
      else
        let flushed ← query (fun turn => io.flushForDevice turn world.runtime.arenaCpuAddress world.runtime.arenaBytes)
        if ¬ flushed then pure .memoryFailed else admitJob io submission

/-- `AppleAgxBackendRuntimeAcknowledgeCompletion`. -/
def acknowledgeCompletion : BackendAction RuntimeResult := do
  let world ← get
  let pending := world.runtime
  let fence := pending.pendingSubmission.fence
  let node := pending.pendingSubmission.nodeOrdinal
  let engine := pending.pendingSubmission.engineOrdinal
  if ¬ pending.terminalPending ∨ fence = 0 then pure .invalidState
  else
    let flushed ← (if pending.terminalStatus = .success ∧ ¬ pending.terminalCpuFlushed then
        query (fun turn => io.flushForCpu turn pending.arenaCpuAddress pending.arenaBytes)
      else pure true)
    if ¬ flushed then pure .memoryFailed
    else
      changeRuntime (fun runtime => { runtime with
        terminalCpuFlushed := runtime.terminalCpuFlushed || decide (runtime.terminalStatus = .success) })
      if pending.terminalStatus = .cancelled then
        let retired ← call (fun turn => io.retire turn fence node engine) (.retire fence node engine)
        if ¬ retired then pure .busy
        else
          changeRuntime clearPending
          setPhase pending.terminalNextPhase
          pure pending.terminalResult
      else
        -- The callback sees the next phase; a refusal takes it back.
        setPhase pending.terminalNextPhase
        let completed ← call (fun turn => io.complete turn fence node engine pending.terminalStatus)
          (.complete fence node engine pending.terminalStatus)
        if ¬ completed then
          setPhase pending.phase
          pure .busy
        else
          changeRuntime clearPending
          setPhase pending.terminalNextPhase
          pure pending.terminalResult

/-- `AppleAgxBackendCompletionEndsFence`. -/
def completionEndsFence (status : CompletionStatus) : Bool := status = .success ∨ status = .dropped

/-- `AppleAgxBackendTerminal`. -/
def terminal (status : CompletionStatus) (nextPhase : Phase) (result : RuntimeResult) : BackendAction RuntimeResult := do
  let world ← get
  if world.runtime.terminalPending ∨ world.runtime.pendingSubmission.fence = 0 then pure .invalidState
  else
    changeRuntime (fun runtime => { runtime with
      terminalPending := true, terminalCpuFlushed := false, terminalStatus := status, terminalNextPhase := nextPhase
      terminalResult := result })
    if ¬ completionEndsFence status then pure result else acknowledgeCompletion io

/-- `AppleAgxBackendStampReached`. -/
def stampReached (actual expected : U32) : Bool := actual - expected < 0x80000000

/-- A completion of a queue has its event, its done pointer and a stamp that is far enough. -/
def observationMatches (observation : Observation) (event stamp donePointer : U32) : Bool :=
  observation.event = event ∧ observation.donePointer = donePointer ∧ stampReached observation.stamp stamp

/-- The branch of `AppleAgxBackendRuntimeObserve` for a fault, a timeout or a reset. -/
def observeFailure (status : ObservationStatus) (completionStatus : CompletionStatus) : BackendAction RuntimeResult := do
  let world ← get
  let fence := world.runtime.pendingSubmission.fence
  let stopped ← (if status = .reset then call (fun turn => io.reset turn fence) (.reset fence)
    else call (fun turn => io.stop turn fence) (.stop fence))
  if ¬ stopped then
    setPhase .failed
    pure .cleanupFailed
  else
    changeRuntime (fun runtime => { runtime with queuesQuiesced := true })
    terminal io completionStatus .failed .faulted

/-- The branch of `AppleAgxBackendRuntimeObserve` for a completion. -/
def observeComplete (observation : Observation) : BackendAction RuntimeResult := do
  let world ← get
  let runtime := world.runtime
  let job := runtime.pendingJob
  if job.kind = jobCompute then
    if observation.queue ≠ .compute ∨ runtime.computeComplete ∨
        ¬ observationMatches observation job.computeEvent job.computeExpectedStamp job.computeExpectedDonePointer then
      pure .invalidArgument
    else
      changeRuntime (fun runtime => { runtime with computeComplete := true })
      terminal io .success .ready .ok
  else match observation.queue with
    | .ta =>
      if runtime.taComplete ∨ ¬ observationMatches observation job.taEvent job.taExpectedStamp job.taExpectedDonePointer then
        pure .invalidArgument
      else
        changeRuntime (fun runtime => { runtime with taComplete := true })
        if runtime.d3Complete then terminal io .success .ready .ok else pure .ok
    | .d3 =>
      if runtime.d3Complete ∨ ¬ observationMatches observation job.d3Event job.d3ExpectedStamp job.d3ExpectedDonePointer then
        pure .invalidArgument
      else
        changeRuntime (fun runtime => { runtime with d3Complete := true })
        if runtime.taComplete then terminal io .success .ready .ok else pure .ok
    | .compute => pure .invalidArgument

/-- `AppleAgxBackendRuntimeObserve`. -/
def runtimeObserve (observation : Observation) : BackendAction RuntimeResult := do
  modify (fun world => { world with calls := world.calls ++ [.observed observation] })
  let world ← get
  let runtime := world.runtime
  if runtime.terminalPending then
    if completionEndsFence runtime.terminalStatus then acknowledgeCompletion io else pure runtime.terminalResult
  else if runtime.phase ≠ .submitted then pure .invalidState
  else match observation.status with
    | .recovered =>
      changeRuntime (fun runtime => { runtime with taComplete := true, d3Complete := true, computeComplete := true })
      terminal io .dropped .ready .ok
    | .fault => observeFailure io .fault .faulted
    | .timeout => observeFailure io .timeout .timedOut
    | .reset => observeFailure io .reset .reset
    | .other => pure .invalidArgument
    | .complete => observeComplete io observation

/-- The end of a stop that did not get through. -/
def stopFailed : BackendAction RuntimeResult := do
  setPhase .failed
  pure .cleanupFailed

/-- The part of `AppleAgxBackendRuntimeStop` behind the retirement of the fence. -/
def tearDown : BackendAction RuntimeResult := do
  let queuesFailed ← destroyQueues io
  if queuesFailed then stopFailed
  else
    let contextFailed ← unpublishContext io
    if contextFailed then stopFailed
    else
      let firmware ← onFirmware (firmwareRollback io.firmware)
      if firmware ≠ .ok then stopFailed
      else
        let unmapFailed ← unmapArena io
        if unmapFailed then stopFailed
        else
          setPhase .stopped
          pure .ok

/-- The retirement of a fence that is still pending: whether it failed. -/
def retirePending (pendingFence : U32) : BackendAction Bool := do
  if pendingFence = 0 then pure false
  else
    changeRuntime (fun runtime => { runtime with
      terminalPending := true, terminalCpuFlushed := false, terminalStatus := .cancelled, terminalNextPhase := .stopping
      terminalResult := .ok })
    let result ← acknowledgeCompletion io
    pure (decide (result ≠ .ok))

/-- The stop of the queues, if they may still run: whether it failed. -/
def quiesceQueues (pendingFence : U32) : BackendAction Bool := do
  let world ← get
  if world.runtime.queuesCreated ∧ ¬ world.runtime.queuesQuiesced then
    let stopped ← call (fun turn => io.stop turn pendingFence) (.stop pendingFence)
    if ¬ stopped then pure true
    else
      changeRuntime (fun runtime => { runtime with queuesQuiesced := true })
      pure false
  else pure false

/-- The natural completion that is due before a stop: whether it failed. -/
def completePending : BackendAction Bool := do
  let world ← get
  if world.runtime.terminalPending ∧ completionEndsFence world.runtime.terminalStatus then
    let result ← acknowledgeCompletion io
    pure (decide (result ≠ .ok))
  else pure false

/-- `AppleAgxBackendRuntimeStop`. -/
def runtimeStop : BackendAction RuntimeResult := do
  let world ← get
  if world.runtime.phase = .stopped then pure .ok
  else if world.runtime.phase ≠ .ready ∧ world.runtime.phase ≠ .submitted ∧ world.runtime.phase ≠ .failed then
    pure .invalidState
  else
    let completionFailed ← completePending io
    if completionFailed then stopFailed
    else
      let world ← get
      let pendingFence := world.runtime.pendingSubmission.fence
      setPhase .stopping
      let stopFails ← quiesceQueues io pendingFence
      if stopFails then stopFailed
      else
        let retirementFailed ← retirePending io pendingFence
        if retirementFailed then stopFailed else tearDown io

inductive Request
  | start
  | submit (submission : Submission)
  | observe (observation : Observation)
  | acknowledgeCompletion
  | stop
deriving DecidableEq

def act : Request → BackendAction RuntimeResult
  | .start => runtimeStart io
  | .submit submission => runtimeSubmit io submission
  | .observe observation => runtimeObserve io observation
  | .acknowledgeCompletion => acknowledgeCompletion io
  | .stop => runtimeStop io

end WindowsOnM1.BackendModel
