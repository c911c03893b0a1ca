import WindowsOnM1.BackendModel
import WindowsOnM1.BackendCleanups

/-!
What the entry points of the backend runtime can do, and the shape of its states between
them.
-/
namespace WindowsOnM1.BackendSteps
open Actions BackendFirmware BackendCleanups BackendModel List
open Bool hiding not_not not_or

/-- The call that ends the pending fence. -/
def endCall (runtime : Runtime) (done : Bool) : Call :=
  if runtime.terminalStatus = .cancelled then
    .retire runtime.pendingSubmission.fence runtime.pendingSubmission.nodeOrdinal runtime.pendingSubmission.engineOrdinal done
  else
    .complete runtime.pendingSubmission.fence runtime.pendingSubmission.nodeOrdinal runtime.pendingSubmission.engineOrdinal
      runtime.terminalStatus done

def Pending (runtime : Runtime) : Prop := runtime.terminalPending = true ∧ runtime.pendingSubmission.fence ≠ 0

/-- An acknowledgement keeps the pending fence, perhaps after a refused call, or it ends it. -/
structure Acknowledged (world : World) (result : RuntimeResult) (left : World) : Prop where
  firmware : left.host.firmware = world.host.firmware
  cleanups : left.host.cleanups = world.host.cleanups
  outcome :
    (result ≠ .ok ∧ ∃ flushed, left.runtime = { world.runtime with terminalCpuFlushed := flushed } ∧
      (left.calls = world.calls ∨ Pending world.runtime ∧ left.calls = world.calls ++ [endCall world.runtime false])) ∨
    (result = world.runtime.terminalResult ∧ Pending world.runtime ∧
      left.runtime = { clearPending world.runtime with phase := world.runtime.terminalNextPhase } ∧
      left.calls = world.calls ++ [endCall world.runtime true])

variable (io : BackendIo)

theorem acknowledgeCompletion_cases (world : World) : Gives (acknowledgeCompletion io) world (Acknowledged world) := by
  unfold acknowledgeCompletion
  rw [gives_bind,gives_get,gives_ite]
  refine ⟨fun absent => ⟨rfl,rfl,.inl ⟨nofun,_,rfl,.inl rfl⟩⟩,fun present => ?_⟩
  have pending : Pending world.runtime := by
    simpa [Pending] using present
  have flush : Gives (if world.runtime.terminalStatus = .success ∧ ¬ world.runtime.terminalCpuFlushed then
      query (fun turn => io.flushForCpu turn world.runtime.arenaCpuAddress world.runtime.arenaBytes) else pure true) world
      (fun _ left => left.runtime = world.runtime ∧ left.calls = world.calls ∧
        left.host.firmware = world.host.firmware ∧ left.host.cleanups = world.host.cleanups) := by
    rw [gives_ite,gives_query,gives_pure]
    exact ⟨fun _ => ⟨rfl,rfl,rfl,rfl⟩,fun _ => ⟨rfl,rfl,rfl,rfl⟩⟩
  refine flush.bind (fun flushed left later => ?_)
  obtain ⟨runtime,calls,firmware,cleanups⟩ := later
  rw [gives_ite]
  refine ⟨fun _ => ⟨firmware,cleanups,.inl ⟨nofun,_,runtime,.inl calls⟩⟩,fun _ => ?_⟩
  simp only [gives_bind,gives_changeRuntime,gives_ite,gives_call,gives_setPhase,gives_pure,runtime]
  refine ⟨fun cancelled => ⟨fun refused => ?_,fun done => ?_⟩,fun other => ⟨fun refused => ?_,fun done => ?_⟩⟩
  · refine ⟨firmware,cleanups,.inl ⟨nofun,_,rfl,.inr ⟨pending,?_⟩⟩⟩
    rw [calls,endCall,if_pos cancelled,eq_false_iff.mpr refused]
  · refine ⟨firmware,cleanups,.inr ⟨rfl,pending,rfl,?_⟩⟩
    rw [calls,endCall,if_pos cancelled,not_not.mp done]
  · refine ⟨firmware,cleanups,.inl ⟨nofun,_,rfl,.inr ⟨pending,?_⟩⟩⟩
    rw [calls,endCall,if_neg other,eq_false_iff.mpr refused]
  refine ⟨firmware,cleanups,.inr ⟨rfl,pending,rfl,?_⟩⟩
  rw [calls,endCall,if_neg other,not_not.mp done]

/-- The firmware and its cleanups are as before. -/
structure Kept (world left : World) : Prop where
  firmware : left.host.firmware = world.host.firmware
  cleanups : left.host.cleanups = world.host.cleanups

structure Destroyed (world : World) (failed : Bool) (left : World) : Prop where
  kept : Kept world left
  outcome :
    (failed = false ∧ world.runtime.queuesCreated = false ∧ left.runtime = world.runtime ∧ left.calls = world.calls) ∨
    (failed = false ∧ world.runtime.queuesCreated = true ∧
      left.runtime = { world.runtime with queuesCreated := false, queuesQuiesced := false } ∧
      left.calls = world.calls ++ [.destroy true]) ∨
    (failed = true ∧ world.runtime.queuesCreated = true ∧ left.runtime = world.runtime ∧ left.calls = world.calls ++ [.destroy false])

theorem destroyQueues_cases (world : World) : Gives (destroyQueues io) world (Destroyed world) := by
  unfold destroyQueues
  simp only [gives_bind,gives_get,gives_ite,gives_call,gives_changeRuntime,gives_pure]
  refine ⟨fun created => ⟨fun done => ⟨⟨rfl,rfl⟩,.inr (.inl ⟨rfl,created,rfl,?_⟩)⟩,
      fun refused => ⟨⟨rfl,rfl⟩,.inr (.inr ⟨rfl,created,rfl,?_⟩)⟩⟩,
    fun absent => ⟨⟨rfl,rfl⟩,.inl ⟨rfl,eq_false_iff.mpr absent,rfl,rfl⟩⟩⟩
  · rw [done]
  rw [eq_false_iff.mpr refused]

structure Unpublished (world : World) (failed : Bool) (left : World) : Prop where
  kept : Kept world left
  tried : failed = true → world.runtime.contextPublished = true
  runtime : left.runtime = { world.runtime with contextPublished := failed }
  calls : left.calls = world.calls ++ if world.runtime.contextPublished then [.unpublish (!failed)] else []

theorem unpublishContext_cases (world : World) : Gives (unpublishContext io) world (Unpublished world) := by
  unfold unpublishContext
  simp only [gives_bind,gives_get,gives_ite,gives_call,gives_changeRuntime,gives_pure]
  refine ⟨fun published => ⟨fun done => ⟨⟨rfl,rfl⟩,nofun,rfl,?_⟩,fun refused => ⟨⟨rfl,rfl⟩,fun _ => published,?_,?_⟩⟩,
    fun absent => ⟨⟨rfl,rfl⟩,nofun,?_,?_⟩⟩
  · rw [if_pos published,done]
    rfl
  · rw [← published]
  · rw [if_pos published,eq_false_iff.mpr refused]
    rfl
  · rw [← eq_false_iff.mpr absent]
  rw [if_neg absent,append_nil]

def unmapCall (world : World) (done : Bool) : Call :=
  .unmap world.runtime.queuesCreated world.runtime.contextPublished (rolledBack world.host.firmware) done

structure Unmapped (world : World) (failed : Bool) (left : World) : Prop where
  kept : Kept world left
  tried : failed = true → world.runtime.arenaMapped = true
  runtime : left.runtime = { world.runtime with arenaMapped := failed }
  calls : left.calls = world.calls ++ if world.runtime.arenaMapped then [unmapCall world (!failed)] else []

theorem unmapArena_cases (world : World) : Gives (unmapArena io) world (Unmapped world) := by
  unfold unmapArena
  simp only [gives_bind,gives_get,gives_ite,gives_call,gives_changeRuntime,gives_pure]
  refine ⟨fun mapped => ⟨fun done => ⟨⟨rfl,rfl⟩,nofun,rfl,?_⟩,fun refused => ⟨⟨rfl,rfl⟩,fun _ => mapped,?_,?_⟩⟩,
    fun absent => ⟨⟨rfl,rfl⟩,nofun,?_,?_⟩⟩
  · rw [if_pos mapped,done]
    rfl
  · rw [← mapped]
  · rw [if_pos mapped,eq_false_iff.mpr refused]
    rfl
  · rw [← eq_false_iff.mpr absent]
  rw [if_neg absent,append_nil]

/-- What the rollback of a start leaves when there are no queues. -/
structure RollbackEnds (world left : World) (failed : Bool) : Prop where
  runtime : ∃ published mapped, left.runtime = { world.runtime with
    contextPublished := published, arenaMapped := mapped, phase := if failed then .failed else .stopped }
  published : left.runtime.contextPublished = true → world.runtime.contextPublished = true
  clean : failed = false → left.runtime.contextPublished = false ∧ left.runtime.arenaMapped = false
  calls : left.calls = world.calls ++
    (if world.runtime.contextPublished then [.unpublish (!left.runtime.contextPublished)] else []) ++
    (if world.runtime.arenaMapped then [.unmap false left.runtime.contextPublished (rolledBack left.host.firmware)
      (!left.runtime.arenaMapped)] else [])
  firmware :
    (isZero world.host.firmware.completedMask = true ∧ left.host.firmware = world.host.firmware ∧
      left.host.cleanups = world.host.cleanups) ∨
    (isZero world.host.firmware.completedMask = false ∧ ∃ result, RolledBack world.host left.host result ∧
      (failed = false → result = .ok))

variable {world : World}

theorem startRollback_ends (failure : RuntimeResult) (onlyBoot : OnlyBoot world.host)
    (noQueues : world.runtime.queuesCreated = false) :
    Gives (startRollback io failure) world (fun _ left => ∃ failed, RollbackEnds world left failed) := by
  refine (destroyQueues_cases io world).bind (fun queuesFailed first queues => ?_)
  have same : queuesFailed = false ∧ first.runtime = world.runtime ∧ first.calls = world.calls := by
    rcases queues.outcome with ⟨ok,-,runtime,calls⟩ | ⟨-,created,-⟩ | ⟨-,created,-⟩
    · exact ⟨ok,runtime,calls⟩
    all_goals exact absurd (created.symm.trans noQueues) true_eq_false_eq_False
  obtain ⟨queuesOk,firstRuntime,firstCalls⟩ := same
  refine (unpublishContext_cases io first).bind (fun contextFailed second context => ?_)
  rw [gives_bind,gives_get]
  have firmware : second.host.firmware = world.host.firmware := context.kept.firmware.trans queues.kept.firmware
  have cleanups : second.host.cleanups = world.host.cleanups := context.kept.cleanups.trans queues.kept.cleanups
  have rollback : Gives (if isZero second.host.firmware.completedMask then pure false else do
      let result ← onFirmware (firmwareRollback io.firmware)
      pure (decide (result ≠ .ok))) second (fun failed third => third.runtime = second.runtime ∧ third.calls = second.calls ∧
        ((isZero world.host.firmware.completedMask = true ∧ failed = false ∧ Kept world third) ∨
          (isZero world.host.firmware.completedMask = false ∧ ∃ result, RolledBack world.host third.host result ∧
            (failed = false → result = .ok)))) := by
    rw [gives_ite,firmware]
    refine ⟨fun zero => ⟨rfl,rfl,.inl ⟨zero,rfl,firmware,cleanups⟩⟩,fun some => ?_⟩
    have onlyBoot' : OnlyBoot second.host := by
      intro step other
      rw [firmware]
      exact onlyBoot step other
    rw [gives_bind,gives_onFirmware]
    refine (firmwareRollback_spec io.firmware onlyBoot').mono (fun result host here => ?_)
    rw [gives_pure]
    have alike : Alike second.host world.host := ⟨by rw [firmware],by rw [firmware],cleanups⟩
    exact ⟨rfl,rfl,.inr ⟨eq_false_iff.mpr some,result,here.alike alike rfl rfl,fun ok => by simpa using ok⟩⟩
  refine rollback.bind (fun firmwareFailed third here => ?_)
  obtain ⟨thirdRuntime,thirdCalls,thirdHost⟩ := here
  refine (unmapArena_cases io third).bind (fun unmapFailed left unmap => ?_)
  have runtime : left.runtime = { world.runtime with contextPublished := contextFailed, arenaMapped := unmapFailed } := by
    rw [unmap.runtime,thirdRuntime,context.runtime,firstRuntime]
  have published : left.runtime.contextPublished = true → world.runtime.contextPublished = true := by
    rw [runtime,← firstRuntime]
    exact context.tried
  have calls : left.calls = world.calls ++ (if world.runtime.contextPublished then [.unpublish (!contextFailed)] else []) ++
      (if world.runtime.arenaMapped then [.unmap false contextFailed (rolledBack left.host.firmware)
        (!unmapFailed)] else []) := by
    rw [unmap.calls,thirdCalls,context.calls,firstCalls,firstRuntime,unmapCall,unmap.kept.firmware,thirdRuntime,
      context.runtime,firstRuntime,noQueues]
  have firmwareEnds : (isZero world.host.firmware.completedMask = true ∧ firmwareFailed = false ∧
        left.host.firmware = world.host.firmware ∧ left.host.cleanups = world.host.cleanups) ∨
      (isZero world.host.firmware.completedMask = false ∧ ∃ result, RolledBack world.host left.host result ∧
        (firmwareFailed = false → result = .ok)) := by
    rcases thirdHost with ⟨zero,ok,kept⟩ | ⟨some,result,rolledBack,ok⟩
    · exact .inl ⟨zero,ok,unmap.kept.firmware.trans kept.firmware,unmap.kept.cleanups.trans kept.cleanups⟩
    exact .inr ⟨some,result,rolledBack.alike ⟨rfl,rfl,rfl⟩ unmap.kept.firmware unmap.kept.cleanups,ok⟩
  rw [gives_ite]
  refine ⟨fun failed => ?_,fun clean => ?_⟩
  · rw [gives_bind,gives_setPhase,gives_pure]
    refine ⟨true,⟨contextFailed,unmapFailed,?_⟩,published,nofun,?_,firmwareEnds.imp (fun h => ⟨h.1,h.2.2⟩) (fun h => ⟨h.1,?_⟩)⟩
    · rw [runtime]
      rfl
    · rw [calls,runtime]
    obtain ⟨result,rolledBack,-⟩ := h.2
    exact ⟨result,rolledBack,nofun⟩
  simp only [not_or,not_eq_true] at clean
  rw [gives_bind,gives_setPhase,gives_pure]
  refine ⟨false,⟨contextFailed,unmapFailed,?_⟩,published,fun _ => ?_,?_,firmwareEnds.imp (fun h => ⟨h.1,h.2.2⟩) (fun h => ⟨h.1,?_⟩)⟩
  · rw [runtime]
    rfl
  · rw [runtime]
    exact ⟨clean.2.1,clean.2.2.2⟩
  · rw [calls,runtime]
  obtain ⟨result,rolledBack,ok⟩ := h.2
  exact ⟨result,rolledBack,fun _ => ok clean.2.2.1⟩

/-- The runtime with a job that has been accepted for admission. -/
def withJob (runtime : Runtime) (submission : Submission) (job : JobImage) : Runtime := { runtime with
  pendingSubmission := submission, pendingJob := job, taComplete := false, d3Complete := false, computeComplete := false }
def admitCall (job : JobImage) (fence : U32) (admitted : Bool) : Call :=
  if job.kind = jobCompute then .runCompute job fence admitted else .run3d job fence admitted

/-- How a submission ends; only a ready runtime takes one. -/
inductive SubmitEnds (world left : World) : Prop
  | kept (runtime : left.runtime = world.runtime) (calls : left.calls = world.calls)
  | prepared (ready : world.runtime.phase = .ready) (job : JobImage) (runtime : left.runtime = { world.runtime with pendingJob := job })
      (calls : left.calls = world.calls)
  | refused (ready : world.runtime.phase = .ready) (runtime : left.runtime = { clearPending world.runtime with phase := .ready })
      (job : JobImage) (fence : U32) (calls : left.calls = world.calls ∨ left.calls = world.calls ++ [admitCall job fence false])
  | admitted (ready : world.runtime.phase = .ready) (submission : Submission) (fence : submission.fence ≠ 0) (job : JobImage)
      (runtime : left.runtime = { withJob world.runtime submission job with phase := .submitted })
      (calls : left.calls = world.calls ++ admitCall job submission.fence true ::
        if job.kind = jobCompute then [] else [.runTa submission.fence true])
  | halted (ready : world.runtime.phase = .ready) (submission : Submission) (fence : submission.fence ≠ 0) (job : JobImage)
      (stopped : Bool) (runtime : left.runtime = { withJob world.runtime submission job with
        queuesQuiesced := world.runtime.queuesQuiesced || stopped, phase := .failed })
      (calls : left.calls = world.calls ++
        [admitCall job submission.fence true,.runTa submission.fence false,.stop submission.fence stopped])

variable (submission : Submission)

private theorem admitJob_ends (fence : submission.fence ≠ 0) (job : JobImage) {world' : World}
    (ready : world.runtime.phase = .ready) (runtime : world'.runtime = { world.runtime with pendingJob := job })
    (calls : world'.calls = world.calls) (kept : Kept world world') :
    Gives (admitJob io submission) world' (fun _ left => Kept world left ∧ SubmitEnds world left) := by
  unfold admitJob
  simp only [gives_bind,gives_changeRuntime,gives_get,gives_ite,runtime]
  refine ⟨fun compute => ?_,fun render => ?_⟩
  · unfold admitCompute
    split
    · exact ⟨fun _ => ⟨⟨kept.firmware,kept.cleanups⟩,.refused ready rfl job submission.fence (.inl calls)⟩,fun no => absurd nofun no⟩
    simp only [gives_call,gives_pure,gives_setPhase]
    refine ⟨fun refuses => ⟨⟨kept.firmware,kept.cleanups⟩,.refused ready rfl job submission.fence (.inr ?_)⟩,
      fun admits => ⟨⟨kept.firmware,kept.cleanups⟩,.admitted ready submission fence job rfl ?_⟩⟩
    · rw [calls,admitCall,if_pos compute,eq_false_iff.mpr refuses]
    rw [calls,admitCall,if_pos compute,if_pos compute,not_not.mp admits]
  simp only [gives_call,gives_pure,gives_setPhase]
  refine ⟨fun refuses => ⟨⟨kept.firmware,kept.cleanups⟩,.refused ready rfl job submission.fence (.inr ?_)⟩,
    fun admits => ⟨fun fails => ⟨⟨kept.firmware,kept.cleanups⟩,.halted ready submission fence job _ rfl ?_⟩,
      fun runs => ⟨⟨kept.firmware,kept.cleanups⟩,.admitted ready submission fence job rfl ?_⟩⟩⟩
  · rw [calls,admitCall,if_neg render,eq_false_iff.mpr refuses]
  · rw [calls,admitCall,if_neg render,not_not.mp admits,eq_false_iff.mpr fails,append_assoc,append_assoc]
    rfl
  rw [calls,admitCall,if_neg render,if_neg render,not_not.mp admits,not_not.mp runs,append_assoc]
  rfl

theorem runtimeSubmit_ends (world : World) :
    Gives (runtimeSubmit io submission) world (fun _ left => Kept world left ∧ SubmitEnds world left) := by
  unfold runtimeSubmit
  simp only [gives_bind,gives_get,gives_ite,gives_pure,gives_query,gives_changeRuntime]
  have same : Kept world world ∧ SubmitEnds world world := ⟨⟨rfl,rfl⟩,.kept rfl rfl⟩
  refine ⟨fun _ => same,fun _ => ⟨fun _ => same,fun phase => ⟨fun _ => same,fun valid => ?_⟩⟩⟩
  have ready : world.runtime.phase = .ready := not_not.mp phase
  have fence : submission.fence ≠ 0 := by
    simp only [not_not,submissionValid,decide_eq_true_eq] at valid
    exact valid.2.2.1
  refine ⟨fun _ => ⟨⟨rfl,rfl⟩,.kept rfl rfl⟩,fun _ => ⟨fun _ => ⟨⟨rfl,rfl⟩,.prepared ready _ rfl rfl⟩,fun _ => ?_⟩⟩
  exact ⟨fun _ => ⟨⟨rfl,rfl⟩,.prepared ready _ rfl rfl⟩,fun _ => admitJob_ends io submission fence _ ready rfl rfl ⟨rfl,rfl⟩⟩

/-- The runtime with a terminal result. -/
def withTerminal (runtime : Runtime) (status : CompletionStatus) (nextPhase : Phase) (result : RuntimeResult) : Runtime :=
  { runtime with
    terminalPending := true, terminalCpuFlushed := false, terminalStatus := status, terminalNextPhase := nextPhase
    terminalResult := result }

/-- The world in which an observation has been given. -/
def noted (world : World) (observation : Observation) : World := { world with calls := world.calls ++ [.observed observation] }

/-- The observation is the completion that the pending job waits for on its queue. -/
def expected (job : JobImage) (observation : Observation) : Bool :=
  decide (observation.status = .complete) &&
  match observation.queue with
  | .ta =>
    decide (job.kind ≠ jobCompute) && observationMatches observation job.taEvent job.taExpectedStamp job.taExpectedDonePointer
  | .d3 =>
    decide (job.kind ≠ jobCompute) && observationMatches observation job.d3Event job.d3ExpectedStamp job.d3ExpectedDonePointer
  | .compute => decide (job.kind = jobCompute) &&
    observationMatches observation job.computeEvent job.computeExpectedStamp job.computeExpectedDonePointer

/-- The runtime with a queue seen complete. -/
def withQueue (runtime : Runtime) : Queue → Runtime
  | .ta => { runtime with taComplete := true }
  | .d3 => { runtime with d3Complete := true }
  | .compute => { runtime with computeComplete := true }

/-- All queues of the pending job are seen complete. -/
def allComplete (runtime : Runtime) : Bool :=
  if runtime.pendingJob.kind = jobCompute then runtime.computeComplete else runtime.taComplete && runtime.d3Complete

def failureStatus : ObservationStatus → Option CompletionStatus
  | .fault => some .faulted
  | .timeout => some .timedOut
  | .reset => some .reset
  | _ => none

/-- The call that halts the queues after a failure. -/
def haltCall (status : ObservationStatus) (fence : U32) (done : Bool) : Call :=
  if status = .reset then .reset fence done else .stop fence done

inductive ObserveEnds (world : World) (observation : Observation) (left : World) : Prop
  | kept (runtime : left.runtime = world.runtime) (calls : left.calls = (noted world observation).calls)
  | retried (pending : world.runtime.terminalPending = true) (ends : completionEndsFence world.runtime.terminalStatus = true)
      (result : RuntimeResult) (acked : Acknowledged (noted world observation) result left)
  | dropped (runs : world.runtime.phase = .submitted) (free : world.runtime.terminalPending = false) (result : RuntimeResult)
      (acked : Acknowledged { noted world observation with runtime := withTerminal { world.runtime with
        taComplete := true, d3Complete := true, computeComplete := true } .dropped .ready .ok } result left)
  | unhalted (runs : world.runtime.phase = .submitted) (free : world.runtime.terminalPending = false)
      (runtime : left.runtime = { world.runtime with phase := .failed })
      (calls : left.calls = (noted world observation).calls ++
        [haltCall observation.status world.runtime.pendingSubmission.fence false])
  | halted (runs : world.runtime.phase = .submitted) (free : world.runtime.terminalPending = false) (status : CompletionStatus)
      (failure : failureStatus observation.status = some status)
      (runtime : left.runtime = withTerminal { world.runtime with queuesQuiesced := true } status .failed .faulted)
      (calls : left.calls = (noted world observation).calls ++
        [haltCall observation.status world.runtime.pendingSubmission.fence true])
  | partly (runs : world.runtime.phase = .submitted) (free : world.runtime.terminalPending = false)
      (isExpected : expected world.runtime.pendingJob observation = true)
      (runtime : left.runtime = withQueue world.runtime observation.queue)
      (calls : left.calls = (noted world observation).calls)
  | completed (runs : world.runtime.phase = .submitted) (free : world.runtime.terminalPending = false)
      (isExpected : expected world.runtime.pendingJob observation = true)
      (all : allComplete (withQueue world.runtime observation.queue) = true) (result : RuntimeResult)
      (acked : Acknowledged { noted world observation with
        runtime := withTerminal (withQueue world.runtime observation.queue) .success .ready .ok } result left)

variable {status : CompletionStatus}

theorem terminal_ends (ends : completionEndsFence status = true) (nextPhase : Phase)
    (result : RuntimeResult) (free : world.runtime.terminalPending = false)
    (fence : world.runtime.pendingSubmission.fence ≠ 0) : Gives (terminal io status nextPhase result) world
      (Acknowledged { world with runtime := withTerminal world.runtime status nextPhase result }) := by
  unfold terminal
  simp only [gives_bind,gives_get,gives_ite,gives_changeRuntime,gives_pure]
  refine ⟨fun invalid => ?_,fun _ => ⟨fun lasts => absurd ends lasts,fun _ => acknowledgeCompletion_cases io _⟩⟩
  rcases invalid with pending | zero
  · exact absurd (pending.symm.trans free) true_eq_false_eq_False
  exact absurd zero fence

variable {observation : Observation}

theorem observeFailure_ends
    (failure : failureStatus observation.status = some status) (runs : world.runtime.phase = .submitted)
    (free : world.runtime.terminalPending = false) (fence : world.runtime.pendingSubmission.fence ≠ 0) :
    Gives (observeFailure io observation.status status) (noted world observation)
      (fun _ left => Kept world left ∧ ObserveEnds world observation left) := by
  have lasts : completionEndsFence status = false := by
    revert failure
    cases observation.status <;> simp only [failureStatus,Option.some.injEq,reduceCtorEq,false_implies] <;>
      rintro rfl <;> rfl
  have halt : Gives (if observation.status = .reset then
      call (fun turn => io.reset turn world.runtime.pendingSubmission.fence) (.reset world.runtime.pendingSubmission.fence)
      else call (fun turn => io.stop turn world.runtime.pendingSubmission.fence) (.stop world.runtime.pendingSubmission.fence))
      (noted world observation) (fun done left => Kept world left ∧ left.runtime = world.runtime ∧
        left.calls = (noted world observation).calls ++
          [haltCall observation.status world.runtime.pendingSubmission.fence done]) := by
    rw [gives_ite,gives_call,gives_call]
    refine ⟨fun reset => ⟨⟨rfl,rfl⟩,rfl,?_⟩,fun other => ⟨⟨rfl,rfl⟩,rfl,?_⟩⟩
    · rw [haltCall,if_pos reset]
    rw [haltCall,if_neg other]
  unfold observeFailure
  rw [gives_bind,gives_get]
  refine halt.bind (fun done left here => ?_)
  obtain ⟨kept,runtime,calls⟩ := here
  simp only [gives_ite,gives_bind,gives_setPhase,gives_pure,gives_changeRuntime,terminal,gives_get,runtime]
  refine ⟨fun fails => ⟨⟨kept.firmware,kept.cleanups⟩,.unhalted runs free rfl ?_⟩,
    fun halts => ⟨fun invalid => ?_,fun _ => ⟨fun _ => ?_,fun ends => ?_⟩⟩⟩
  · rw [calls,eq_false_iff.mpr fails]
  · rcases invalid with pending | zero
    · exact absurd (pending.symm.trans free) true_eq_false_eq_False
    exact absurd zero fence
  · refine ⟨⟨kept.firmware,kept.cleanups⟩,.halted runs free status failure rfl ?_⟩
    rw [calls,not_not.mp halts]
  rw [lasts] at ends
  exact absurd nofun ends

theorem Acknowledged.kept {middle left : World} {result : RuntimeResult} (acked : Acknowledged middle result left)
    (same : middle.host = world.host) : Kept world left :=
  ⟨acked.firmware.trans (congrArg FirmwareHost.firmware same),
    acked.cleanups.trans (congrArg FirmwareHost.cleanups same)⟩

private theorem observeComplete_ends (complete : observation.status = .complete)
    (runs : world.runtime.phase = .submitted) (free : world.runtime.terminalPending = false)
    (fence : world.runtime.pendingSubmission.fence ≠ 0) :
    Gives (observeComplete io observation) (noted world observation)
      (fun _ left => Kept world left ∧ ObserveEnds world observation left) := by
  have same : Kept world (noted world observation) ∧ ObserveEnds world observation (noted world observation) :=
    ⟨⟨rfl,rfl⟩,.kept rfl rfl⟩
  have whole : ∀ queue, observation.queue = queue → expected world.runtime.pendingJob observation = true →
      allComplete (withQueue world.runtime queue) = true →
      Gives (terminal io .success .ready .ok) { noted world observation with runtime := withQueue world.runtime queue }
        (fun _ left => Kept world left ∧ ObserveEnds world observation left) := by
    rintro _ rfl isExpected all
    refine (terminal_ends io rfl _ _ ?_ ?_).mono (fun result left acked => ?_)
    · cases observation.queue <;> exact free
    · cases observation.queue <;> exact fence
    exact ⟨acked.kept rfl,.completed runs free isExpected all result acked⟩
  have partly : ∀ queue, observation.queue = queue → expected world.runtime.pendingJob observation = true →
      Kept world { noted world observation with runtime := withQueue world.runtime queue } ∧
        ObserveEnds world observation { noted world observation with runtime := withQueue world.runtime queue } := by
    rintro _ rfl isExpected
    exact ⟨⟨rfl,rfl⟩,.partly runs free isExpected rfl rfl⟩
  unfold observeComplete
  simp only [gives_bind,gives_get,gives_ite]
  refine ⟨fun compute => ⟨fun _ => same,fun valid => ?_⟩,fun render => ?_⟩
  · simp only [not_or,not_not] at valid
    have compute : world.runtime.pendingJob.kind = jobCompute := compute
    obtain ⟨queue,-,stamp⟩ := valid
    refine whole .compute queue ?_ ?_
    · simp only [expected,complete,queue,compute,decide_true,Bool.true_and]
      exact stamp
    rw [allComplete,withQueue,if_pos compute]
  have render : world.runtime.pendingJob.kind ≠ jobCompute := render
  cases queue : observation.queue with
  | ta =>
    simp only [gives_bind,gives_changeRuntime,gives_ite]
    refine ⟨fun _ => same,fun valid => ?_⟩
    rw [not_or] at valid
    have isExpected : expected world.runtime.pendingJob observation = true := by
      simp only [expected,complete,queue,render,decide_true,ne_eq,not_false_eq_true,Bool.true_and]
      exact not_not.mp valid.2
    refine ⟨fun other => whole .ta queue isExpected ?_,fun _ => partly .ta queue isExpected⟩
    rw [allComplete,withQueue,if_neg render]
    exact other
  | d3 =>
    simp only [gives_bind,gives_changeRuntime,gives_ite]
    refine ⟨fun _ => same,fun valid => ?_⟩
    rw [not_or] at valid
    have isExpected : expected world.runtime.pendingJob observation = true := by
      simp only [expected,complete,queue,render,decide_true,ne_eq,not_false_eq_true,Bool.true_and]
      exact not_not.mp valid.2
    refine ⟨fun other => whole .d3 queue isExpected ?_,fun _ => partly .d3 queue isExpected⟩
    rw [allComplete,withQueue,if_neg render,and_eq_true]
    exact ⟨other,rfl⟩
  | compute => exact same

theorem runtimeObserve_ends (observation : Observation)
    (fence : world.runtime.phase = .submitted → world.runtime.pendingSubmission.fence ≠ 0) :
    Gives (runtimeObserve io observation) world (fun _ left => Kept world left ∧ ObserveEnds world observation left) := by
  have same : Kept world (noted world observation) ∧ ObserveEnds world observation (noted world observation) :=
    ⟨⟨rfl,rfl⟩,.kept rfl rfl⟩
  unfold runtimeObserve
  simp only [gives_bind,gives_modify,gives_get,gives_ite]
  refine ⟨fun pending => ⟨fun ends => ?_,fun _ => same⟩,fun free => ⟨fun _ => same,fun runs => ?_⟩⟩
  · refine (acknowledgeCompletion_cases io (noted world observation)).mono (fun result left acked => ?_)
    exact ⟨acked.kept rfl,.retried pending ends result acked⟩
  have free : world.runtime.terminalPending = false := eq_false_iff.mpr free
  have runs : world.runtime.phase = .submitted := not_not.mp runs
  have fence := fence runs
  cases status : observation.status with
  | recovered =>
    simp only [gives_bind,gives_changeRuntime]
    refine (terminal_ends io rfl _ _ ?_ ?_).mono (fun result left acked => ?_)
    · exact free
    · exact fence
    exact ⟨acked.kept rfl,.dropped runs free result acked⟩
  | fault =>
    have ends := observeFailure_ends io (show failureStatus observation.status = some .faulted by rw [status]; rfl) runs free fence
    rw [status] at ends
    exact ends
  | timeout =>
    have ends := observeFailure_ends io (show failureStatus observation.status = some .timedOut by rw [status]; rfl) runs free fence
    rw [status] at ends
    exact ends
  | reset =>
    have ends := observeFailure_ends io (show failureStatus observation.status = some .reset by rw [status]; rfl) runs free fence
    rw [status] at ends
    exact ends
  | other => exact same
  | complete => exact observeComplete_ends io status runs free fence

end WindowsOnM1.BackendSteps
